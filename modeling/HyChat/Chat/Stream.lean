import HyChat.Cache.Digest
import HyChat.Lib.JsonRead
import HyChat.Lib.Lts

/-!
# The streamed reply and its cache

`event_stream` of the chat router turns what the graph streams into server-sent events, collects
the texts on the way, and stores their concatenation under the request's `chat:response` key when
the request allows it. A chunk is the message the graph streams (the router drops the metadata
that comes with it); a message of the policy middleware is an `AIMessage` like the model's own,
and the router cannot tell the two apart. What tells them apart here is the constructor.

`json.loads` and `str` of a decoded value are parameters. `_tool_error_from_content` catches the
`JSONDecodeError` of a text that is no JSON and nothing else, so a tool message may end the loop
over the stream with an exception although the graph goes on: a text with an integer of more than
4300 digits, for one. The loop therefore has two ways to fail, and the reply that follows is the
same.
-/

set_option autoImplicit false

namespace HyChat

open Lib

namespace Chat

inductive MessageContent
  | text (s : String)
  | blocks (xs : List Json)

/-- A message the graph streams. -/
inductive Message
  /-- `ToolMessage` -/
  | tool (content : MessageContent)
  /-- `AIMessage` or `AIMessageChunk` that the model produced -/
  | ai (content : MessageContent)
  /-- The `AIMessage` of `_policy_violation_response`, with the violation's text -/
  | policyViolation (message : String)
  /-- A message of any other class -/
  | other

/-- How the iteration over the stream ends. -/
inductive Ending
  | completed
  | raised
  deriving DecidableEq

/-- Everything one run of the graph streams. -/
structure GraphRun where
  chunks : List Message
  ending : Ending

/-- The two library functions the router reads a tool's error with. -/
structure Decoder where
  loads : String → Json.Loaded
  str : Json → String

/-! ## Failure texts -/

def adminContactText : String := "如果权限不够，你可以咨询管理员（微信：Hy_284970670）。"

def contains (message part : String) : Bool :=
  message.toList.tails.any fun rest => part.toList.isPrefixOf rest

def appendAdminContact (message : String) : String :=
  if contains message "Hy_284970670" then message else s!"{message}\n\n{adminContactText}"

def policyViolationContent (message : String) : String :=
  if "请求过于频繁".toList.isPrefixOf message.toList then
    s!"发送太频繁了。\n\n{message}。请稍等一分钟后再继续发送。"
  else if contains message "本月标记配额已用尽" then
    appendAdminContact
      "本月额度已用尽。\n\n当前账号的本月标记配额已经用完，请联系管理员调整额度后再继续使用。"
  else if "当前账号无权使用模型".toList.isPrefixOf message.toList then
    appendAdminContact
      s!"当前账号没有这个模型的使用权限。\n\n{message}。请切换其他模型，或联系管理员开通权限。"
  else appendAdminContact s!"当前请求被权限策略拦截。\n\n原因：{message}"

/-- Python's truth value of a decoded JSON value. -/
def truthy : Json → Bool
  | .null => false
  | .bool b => b
  | .int n => n != 0
  | .float f => (f.text.toList.takeWhile (· != 'e')).any fun c => c.isDigit && c != '0'
  | .str s => s != ""
  | .arr xs => !xs.isEmpty
  | .obj kvs => !kvs.isEmpty

variable (py : Decoder)

/-- `str(value)`; a string is its own text. -/
def Decoder.text : Json → String
  | .str s => s
  | j => py.str j

def toolErrorOfJson : Json → Option String
  | .obj kvs =>
      match kvs.lookup "error" with
      | some e => if truthy e then some (py.text e) else none
      | none => none
  | _ => none

def toolErrorFromContent : MessageContent → Except String (Option String)
  | .text s =>
      match py.loads s with
      | .value parsed => .ok (toolErrorOfJson py parsed)
      | .decodeError => .ok none
      | .raised message => .error message
  | .blocks _ => .ok none

def emptyResponseFallback (toolErrors : List String) : String :=
  if toolErrors.isEmpty then "本次请求没有生成可展示的回答，请稍后重试。"
  else
    let reason := "；".intercalate toolErrors.eraseDups
    s!"查询失败。\n\n原因：{reason}"

/-! ## The event stream -/

structure ChatMessage where
  role : String
  content : String
  deriving DecidableEq

/-- What the stream depends on of the request, the caller and the resolved model. -/
structure StreamRequest where
  userId : String
  model : String
  messages : List ChatMessage
  useCache : Bool
  requestId : String

def StreamRequest.cacheKey (request : StreamRequest) : String :=
  let messages := request.messages.map fun m =>
    Json.obj [("role", .str m.role), ("content", .str m.content)]
  let digest := Cache.digest [.str request.userId, .str request.model, .arr messages]
  s!"chat:response:{digest}"

structure Frame where
  event : String
  data : List (String × Json)

def tokenFrame (content : String) : Frame := ⟨"token", [("content", .str content)]⟩

/-- The `metadata` and `done` events. -/
def infoFrame (event : String) (request : StreamRequest) (hit : Bool) : Frame :=
  ⟨event, [("model", .str request.model), ("cache_hit", .bool hit),
    ("request_id", .str request.requestId)]⟩

/-- What the loop over the stream collects. -/
structure Collected where
  contentParts : List String
  toolErrors : List String
  frames : List Frame

/-- The content of an `AIMessage` or `AIMessageChunk`. -/
def Message.aiContent : Message → Option MessageContent
  | .ai content => some content
  | .policyViolation message => some (.text (policyViolationContent message))
  | _ => none

def Collected.toolError (acc : Collected) : Option String → Collected
  | some error => if error = "" then acc else { acc with toolErrors := acc.toolErrors ++ [error] }
  | none => acc

def Collected.content (acc : Collected) : Option MessageContent → Collected
  | some (.text s) =>
      if s = "" then acc
      else { acc with contentParts := acc.contentParts ++ [s], frames := acc.frames ++ [tokenFrame s] }
  | _ => acc

def Collected.chunk (acc : Collected) (message : Message) : Except String Collected :=
  match message with
  | .tool content => (toolErrorFromContent py content).map acc.toolError
  | message => .ok (acc.content message.aiContent)

/-- The rest of the loop over the stream: what has been collected when it ends, and how it ends. -/
def collectFrom (ending : Ending) : List Message → Collected → Collected × Ending
  | [], acc => (acc, ending)
  | message :: chunks, acc =>
      match acc.chunk py message with
      | .ok acc => collectFrom ending chunks acc
      -- the handler around the loop makes no difference between this and a failure of the graph
      | .error _ => (acc, .raised)

def collect (run : GraphRun) : Collected × Ending := collectFrom py run.ending run.chunks ⟨[], [], []⟩

/-- What the caller sees, and what is handed to `cache.set_json` for the request's key. -/
structure Reply where
  frames : List Frame
  stored : Option String

def eventStream (request : StreamRequest) (cached : Option String) (run : GraphRun) : Reply :=
  match cached with
  | some content =>
      ⟨[infoFrame "metadata" request true, tokenFrame content, infoFrame "done" request true], none⟩
  | none =>
      let opened := infoFrame "metadata" request false
      let (acc, ending) := collect py run
      match ending with
      | .raised =>
          let apology :=
            if acc.contentParts.isEmpty then
              [tokenFrame "查询失败。\n\n原因：聊天服务暂时不可用，请稍后重试。"]
            else []
          let error : Frame := ⟨"error", [("message", .str "聊天服务暂时不可用，请稍后重试"),
            ("request_id", .str request.requestId)]⟩
          ⟨opened :: acc.frames ++ apology ++ [error], none⟩
      | .completed =>
          let joined := String.join acc.contentParts
          let content := if joined = "" then emptyResponseFallback acc.toolErrors else joined
          let fallback := if joined = "" then [tokenFrame content] else []
          ⟨opened :: acc.frames ++ fallback ++ [infoFrame "done" request false],
            if request.useCache && content != "" then some content else none⟩

/-! ## What a reply is made of -/

/-- The model streamed a text that is not empty. -/
def GraphRun.HasModelText (run : GraphRun) : Prop := ∃ s, .ai (.text s) ∈ run.chunks ∧ s ≠ ""

/-- The middleware streamed a rate-limit, quota or permission notice. -/
def GraphRun.HasNotice (run : GraphRun) : Prop := ∃ message, .policyViolation message ∈ run.chunks

/-- Reading the message for a tool's error raises. -/
def Message.Unreadable (message : Message) : Prop :=
  ∃ text raised, message = .tool (.text text) ∧ py.loads text = .raised raised

/-- The loop over the stream ends with an exception: the graph's, or that of a tool message. -/
def GraphRun.Raises (run : GraphRun) : Prop :=
  run.ending = .raised ∨ ∃ message ∈ run.chunks, message.Unreadable py

/-- A run that completed with a text of the model and nothing but the model's text. -/
structure GraphRun.Answers (run : GraphRun) : Prop where
  completed : ¬ run.Raises py
  modelText : run.HasModelText
  noNotice : ¬ run.HasNotice

/-- The concatenated texts of the model. -/
def GraphRun.modelText (run : GraphRun) : String :=
  String.join (run.chunks.filterMap fun
    | .ai (.text s) => some s
    | _ => none)

end Chat

end HyChat
