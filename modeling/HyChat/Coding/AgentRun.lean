import HyChat.Coding.FileTools
import HyChat.Lib.Traced
import HyChat.Memory.Extraction

/-!
# Runs of the coding agent

`create_coding_agent_run` inserts the row of a run, lets the graph list the workspace, search it,
read some of its files and ask a model for a plan and a summary, and closes the row. Every tool call
and every model call leaves a row of its own, committed before the next statement.

Any number of runs go on at the same time, each of them may die, and the files may change between
any two statements. A statement that raises has done nothing, or it has committed and raised
afterwards.
-/

set_option autoImplicit false

namespace HyChat

open Lib

namespace CodingAgent

open FileTools (ToolCall ToolError Workspace)

/-! ## Data -/

inductive ChatRole
  | system
  | user
  | assistant
  deriving DecidableEq

structure ChatMessage where
  role : ChatRole
  content : String
  deriving DecidableEq

/-- A row of `agent_runs` -/
structure RunRow where
  id : String
  userId : String
  task : String
  workspace : String
  status : String
  finalOutput : Option String
  errorMessage : Option String
  deriving DecidableEq

/-- A row of `tool_calls` -/
structure ToolRow where
  runId : String
  toolName : String
  input : Json
  output : Json
  status : String

/-- A row of `model_calls` -/
structure ModelRow where
  runId : String
  provider : String
  modelName : String
  input : List ChatMessage
  output : String
  status : String

inductive Row
  | tool (row : ToolRow)
  | model (row : ModelRow)

def Row.runId : Row → String
  | .tool row => row.runId
  | .model row => row.runId

/-- What the end of a run writes into its row -/
inductive Closing
  | success (output : String)
  | failed (message : String)
  deriving DecidableEq

def RunRow.close (run : RunRow) : Closing → RunRow
  | .success output => { run with status := "success", finalOutput := some output }
  | .failed message => { run with status := "failed", errorMessage := some message }

structure AgentRunRequest where
  task : String
  workspace : Option String
  model : Option String

structure AgentRunResponse where
  runId : String
  status : String
  output : String

structure AgentSettings where
  workspaceRoot : String
  zhipuChatModel : String
  availableChatModels : List String
  zhipuApiKey : String
  /-- `str` of a dictionary or a list -/
  pyStr : Json → String
  /-- `str` of what a tool raises -/
  errorText : ToolError → String

/-- `TypedDict` whose keys the nodes of the graph fill in -/
structure CodingAgentState where
  runId : String
  task : String
  workspace : String
  model : Option String
  projectFiles : Option Json
  searchResults : Option Json
  selectedFiles : Option Json
  plan : Option String
  finalOutput : Option String

/-! ## Statements -/

inductive Exn
  | permission (message : String)
  | http (status : Nat) (detail : String)
  /-- Any other exception, and whether the statement was committed when it was raised -/
  | exception (message : String) (committed : Bool)
  deriving DecidableEq

/-- `str(exc)` -/
def Exn.text : Exn → String
  | .permission message => message
  | .http status detail => toString status ++ ": " ++ detail
  | .exception message _ => message

inductive Statement
  /-- `str(safe_path(path))` -/
  | safePath (path : String)
  | enforceModel (userId modelName : String)
  /-- The insert of the run, its commit and the refresh -/
  | insertRun (userId task workspace : String)
  | setCachedRunStatus (runId status : String)
  | tool (call : ToolCall)
  | saveToolCall (row : ToolRow)
  /-- `llm.invoke(messages)`, and the text of the answer -/
  | invoke (modelName : String) (messages : List ChatMessage)
  | saveModelCall (row : ModelRow)
  | closeRun (runId : String) (closing : Closing)

def Answer : Statement → Type
  | .safePath _ => String
  | .insertRun _ _ _ => String
  | .tool _ => Json
  | .invoke _ _ => String
  | _ => Unit

abbrev Code (α : Type) : Type := Suite Exn Unit Answer α

abbrev Event : Type := Suite.Event Exn Answer

def ask (s : Statement) : Code (Answer s) := Suite.call s

/-! ## The nodes of the graph -/

def defaultSearchTerms : List String := ["main", "app", "router", "agent", "auth", "login"]

def termMarks : List Char := " ：:，,。.()[]\x7b\x7d<>\x60\"'".toList

def extractSearchTerms (task : String) : List String :=
  let line := task.toList.map fun c => if c = '\n' then ' ' else c
  let rawTerms := (line.splitOn ' ').map (Py.stripChars termMarks)
  let terms := (rawTerms.filter fun term => decide (3 ≤ term.length)).map String.ofList
  (if terms = [] then defaultSearchTerms else terms).take 5

def sourceFileExtensions : List String :=
  [".py", ".ts", ".tsx", ".js", ".md", ".json", ".yml", ".yaml", ".toml"]

/-- `value.get(key)` -/
def item (key : String) : Json → Option Json
  | .obj fields => fields.lookup key
  | _ => none

/-- The list under a key, which the tools leave out or fill with a list -/
def listUnder (key : String) (value : Json) : List Json :=
  match item key value with
  | some (.arr xs) => xs
  | _ => []

/-- The text under a key, which the tools leave out or fill with a text -/
def textUnder (key : String) (value : Json) : String :=
  match item key value with
  | some (.str text) => text
  | _ => ""

/-- The names in a listing, which has texts only -/
def fileNames (listing : Json) : List String :=
  (listUnder "files" listing).filterMap fun
    | .str name => some name
    | _ => none

def isSourceFile (relFile : String) : Bool :=
  sourceFileExtensions.any fun extension => extension.toList.isSuffixOf relFile.toList

/-- `workspace.rstrip('/')`, a slash and the name -/
def fullPath (workspace relFile : String) : String :=
  String.ofList (workspace.toList.reverse.dropWhile (· == '/')).reverse ++ "/" ++ relFile

def listRow (runId workspace : String) (output : Json) : ToolRow :=
  ⟨runId, "list_files", .obj [("path", .str workspace)], output, "success"⟩

def searchRow (runId workspace term : String) (output : Json) : ToolRow :=
  ⟨runId, "search_code", .obj [("path", .str workspace), ("query", .str term)], output, "success"⟩

/-- The row of a file that was read, without what is in it -/
def readRow (runId path : String) (output : Json) : ToolRow :=
  ⟨runId, "read_file", .obj [("path", .str path)],
    .obj [("path", (item "path" output).getD .null),
      ("truncated", (item "truncated" output).getD .null)], "success"⟩

def selectedFile (relFile : String) (output : Json) : Json :=
  .obj [("file", .str relFile),
    ("content", .str (String.ofList ((textUnder "content" output).toList.take 3000)))]

def scanProject (state : CodingAgentState) : Code CodingAgentState := do
  let output ← ask (.tool (.listFiles state.workspace 120))
  ask (.saveToolCall (listRow state.runId state.workspace output))
  pure { state with projectFiles := some output }

/-- The loop over the search terms -/
def searchTerms (state : CodingAgentState) : List String → List Json → Code (List Json)
  | [], allMatches => pure allMatches
  | term :: rest, allMatches => do
      let output ← ask (.tool (.searchCode state.workspace term 40))
      ask (.saveToolCall (searchRow state.runId state.workspace term output))
      searchTerms state rest (allMatches ++ listUnder "matches" output)

/-- `{"matches": all_matches[:MAX_SEARCH_RESULTS]}` -/
def searchResults (allMatches : List Json) : Json := .obj [("matches", .arr (allMatches.take 60))]

def searchCode (state : CodingAgentState) : Code CodingAgentState := do
  let allMatches ← searchTerms state (extractSearchTerms state.task) []
  pure { state with searchResults := some (searchResults allMatches) }

/-- The loop over the files that are considered -/
def readFiles (state : CodingAgentState) : List String → List Json → Code (List Json)
  | [], selected => pure selected
  | relFile :: rest, selected =>
      if isSourceFile relFile then do
        let path := fullPath state.workspace relFile
        let output ← ask (.tool (.readFile path 3000))
        ask (.saveToolCall (readRow state.runId path output))
        let selected := selected ++ [selectedFile relFile output]
        if 5 ≤ selected.length then pure selected else readFiles state rest selected
      else if 5 ≤ selected.length then pure selected
      else readFiles state rest selected

def readSelectedFiles (state : CodingAgentState) : Code CodingAgentState := do
  let files := (fileNames (state.projectFiles.getD (.obj []))).take 8
  let selected ← readFiles state files []
  pure { state with selectedFiles := some (.arr selected) }

section

variable (cfg : AgentSettings)

/-- `{state.get(key)}` -/
def shown (value : Option Json) : String := (value.map cfg.pyStr).getD "None"

def selectModel (model : Option String) : String :=
  match model with
  | some name => if name = "" then cfg.zhipuChatModel else name
  | none => cfg.zhipuChatModel

def resolveModel (model : Option String) : Code String :=
  let selected := selectModel cfg model
  if selected ∈ cfg.availableChatModels then pure selected
  else
    let allowed := ", ".intercalate cfg.availableChatModels
    Suite.raise (.exception s!"不支持模型 {selected}。可用模型：{allowed}" false)

def mockResponse (messages : List ChatMessage) : String :=
  let last := (messages.getLast?.map ChatMessage.content).getD ""
  "【模拟模型输出】\n" ++
    "你还没有配置真实模型密钥，所以这里没有真实调用大模型。\n\n" ++
    "我已经接收到了任务，并基于项目扫描结果生成了一个学习版回复。\n\n" ++
    "用户任务片段：" ++ String.ofList (last.toList.take 500)

def modelRow (runId modelName : String) (messages : List ChatMessage) (text : String) : ModelRow :=
  ⟨runId, "zhipu", modelName, messages, text, if cfg.zhipuApiKey = "" then "mock" else "success"⟩

/-- `ModelRouter.chat`, with the text of its result -/
def chat (runId : String) (messages : List ChatMessage) (model : Option String) : Code String := do
  let modelName ← resolveModel cfg model
  if cfg.zhipuApiKey = "" then
    let text := mockResponse messages
    ask (.saveModelCall (modelRow cfg runId modelName messages text))
    pure text
  else
    let text ← ask (.invoke modelName messages)
    ask (.saveModelCall (modelRow cfg runId modelName messages text))
    pure text

def planMessages (state : CodingAgentState) : List ChatMessage :=
  [⟨.system, "你是 HY-Agent，一个具备代码分析能力的智能聊天助手。" ++
      "你需要先基于真实文件和搜索结果生成执行计划。" ++
      "不要编造没读取过的文件内容。输出中文，结构清晰。"⟩,
    ⟨.user, "用户任务：" ++ state.task ++ "\n\n" ++
      "项目文件列表：" ++ shown cfg state.projectFiles ++ "\n\n" ++
      "代码搜索结果：" ++ shown cfg state.searchResults ++ "\n\n" ++
      "已读取文件片段：" ++ shown cfg state.selectedFiles ++ "\n\n" ++
      "请输出：1）你对项目的判断；2）下一步执行计划；3）风险点。"⟩]

def summaryMessages (task : String) (plan : Option String) : List ChatMessage :=
  [⟨.system, "你是一个严谨的智能应用工程师，负责给用户总结本次 代码智能体执行结果。"⟩,
    ⟨.user, "用户任务：" ++ task ++ "\n\n" ++ "执行计划：" ++ plan.getD "None" ++ "\n\n" ++
      "请给出最终回复：说明你读到了什么、结论是什么、后续如果要改代码应该怎么做。"⟩]

def plan (state : CodingAgentState) : Code CodingAgentState := do
  let text ← chat cfg state.runId (planMessages cfg state) state.model
  pure { state with plan := some text }

def finalSummary (state : CodingAgentState) : Code CodingAgentState := do
  let text ← chat cfg state.runId (summaryMessages state.task state.plan) state.model
  pure { state with finalOutput := some text }

def runAgentGraph (runId task workspace : String) (model : Option String) : Code String := do
  let state ← scanProject ⟨runId, task, workspace, model, none, none, none, none, none⟩
  let state ← searchCode state
  let state ← readSelectedFiles state
  let state ← plan cfg state
  let state ← finalSummary cfg state
  pure (state.finalOutput.getD "")

/-! ## The endpoint -/

/-- `request.workspace or settings.workspace_root` -/
def requestedWorkspace (workspace : Option String) : String :=
  match workspace with
  | some path => if path = "" then cfg.workspaceRoot else path
  | none => cfg.workspaceRoot

def refused : Exn → Option (Code Unit)
  | .permission message => some (Suite.raise (.http 403 message))
  | _ => none

/-- The body of the `try` block -/
def attempt (runId workspace : String) (request : AgentRunRequest) : Code AgentRunResponse := do
  let output ← runAgentGraph cfg runId request.task workspace request.model
  ask (.closeRun runId (.success output))
  ask (.setCachedRunStatus runId "success")
  pure ⟨runId, "success", output⟩

/-- The `except` block -/
def failRun (runId : String) (e : Exn) : Code AgentRunResponse := do
  ask (.closeRun runId (.failed e.text))
  ask (.setCachedRunStatus runId "failed")
  Suite.raise (.http 500 e.text)

def createCodingAgentRun (userId : String) (request : AgentRunRequest) : Code AgentRunResponse := do
  let workspace ← ask (.safePath (requestedWorkspace cfg request.workspace))
  Suite.tryExcept (ask (.enforceModel userId (selectModel cfg request.model))) refused
  let runId ← ask (.insertRun userId request.task workspace)
  ask (.setCachedRunStatus runId "running")
  Suite.tryExcept (attempt cfg runId workspace request) fun e => some (failRun runId e)

/-! ## Runs that go on together -/

/-- The tables, and what every run has issued -/
structure Store (ι : Type) where
  runs : List RunRow
  rows : List Row
  past : ι → List Event

variable {ι φ : Type}

/-- What the environment chooses: whether the statement raises, how the files are, the id that is
    drawn and what the model answers -/
structure Choice (φ : Type) where
  raised : Option Exn
  files : φ
  id : String
  text : String

/-- What a tool answers or raises when the files are like this -/
def toolAnswer {α : Type} (result : Except ToolError α) : Except Exn α :=
  result.mapError fun e => .exception (cfg.errorText e) false

/-- The files as the tools see them -/
def reply (view : φ → Workspace) (ch : Choice φ) : (s : Statement) → Except Exn (Answer s)
  | .safePath path => toolAnswer cfg (((view ch.files).safePath path).map FileTools.pathText)
  | .enforceModel _ _ => .ok ()
  | .insertRun _ _ _ => .ok ch.id
  | .setCachedRunStatus _ _ => .ok ()
  | .tool call => toolAnswer cfg (call.run (view ch.files)).result
  | .saveToolCall _ => .ok ()
  | .invoke _ _ => .ok ch.text
  | .saveModelCall _ => .ok ()
  | .closeRun _ _ => .ok ()

def answered (view : φ → Workspace) (ch : Choice φ) (s : Statement) : Except Exn (Answer s) :=
  match ch.raised with
  | some e => .error e
  | none => reply cfg view ch s

/-- The statement was committed. -/
def wrote {α : Type} : Except Exn α → Bool
  | .ok _ => true
  | .error (.exception _ committed) => committed
  | .error _ => false

/-- `UPDATE agent_runs SET ... WHERE id = ...` -/
def closeRuns (runId : String) (closing : Closing) (runs : List RunRow) : List RunRow :=
  runs.map fun run => if run.id = runId then run.close closing else run

def Store.write (s : Store ι) (newId : String) : Statement → Store ι
  | .insertRun userId task workspace =>
      { s with runs := s.runs ++ [⟨newId, userId, task, workspace, "running", none, none⟩] }
  | .saveToolCall row => { s with rows := s.rows ++ [.tool row] }
  | .saveModelCall row => { s with rows := s.rows ++ [.model row] }
  | .closeRun runId closing =>
      { s with runs := closeRuns runId closing s.runs }
  | _ => s

def Store.execute (s : Store ι) (newId : String) (e : Event) : Store ι :=
  if wrote e.2 then s.write newId e.1 else s

def Store.record [DecidableEq ι] (s : Store ι) (i : ι) (e : Event) : Store ι :=
  { s with past := Function.update s.past i (s.past i ++ [e]) }

/-- The runs and their tables; no id is drawn twice. -/
def agentRuns [DecidableEq ι] (view : φ → Workspace) :
    Machine (raising Exn Answer) (Store ι) ι (Choice φ) where
  exec i statement ch s :=
    if ch.id ∈ s.runs.map RunRow.id then none
    else
      let r := answered cfg view ch statement
      some (r, (s.execute ch.id ⟨statement, r⟩).record i ⟨statement, r⟩)
  halt _ s := s

def start (requests : ι → String × AgentRunRequest) : Config (raising Exn Answer) (Store ι) ι :=
  ⟨⟨[], [], fun _ => []⟩, fun i =>
    (createCodingAgentRun cfg (requests i).1 (requests i).2 ()).bind fun _ => .ret ()⟩

end

end CodingAgent

end HyChat
