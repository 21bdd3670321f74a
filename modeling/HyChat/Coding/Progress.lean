import HyChat.Coding.AgentRun

/-!
# How far a run of the coding agent has come

What a run has done so far is its *progress*: the listing of the workspace, what the searches found,
what was read, what the model answered. The progress alone gives the rows the run has left and what
the model is asked next, and it grows in one order.

Why progress is a value of its own. The graph's state has what the nodes have put there, the tables
have rows, and the model is asked questions; all of it is a function of four lists, of what was
listed, found, read and answered. The lists grow in one order (`Ordered`), and the shape of each is
fixed by those before it: which files are read depends on the listing, what the model is asked on
all of it. `Genuine` says where the entries come from, and is kept by each of the four ways to go
on.

The numbers in the code, the first eight files, the first five sources, the limit of a text, stand
in the definitions here and nowhere in the proofs.
-/

set_option autoImplicit false

namespace HyChat

open Lib

namespace CodingAgent

open FileTools (ToolCall Workspace)

/-! ## Progress -/

/-- What a run is about -/
structure Job where
  runId : String
  task : String
  workspace : String
  model : Option String

/-- What a run has listed, found, read and been answered. -/
structure Progress where
  listing : Option Json
  /-- What was found for the first search terms -/
  searches : List Json
  /-- What was read of the first files to read -/
  reads : List Json
  /-- The plan and the summary -/
  answers : List String

namespace Progress

def empty : Progress := ⟨none, [], [], []⟩

/-- The files to read: of the first eight that are listed the first five that are sources -/
def toRead (p : Progress) : List String :=
  (((fileNames (p.listing.getD (.obj []))).take 8).filter isSourceFile).take 5

def selected (p : Progress) : List Json := List.zipWith selectedFile p.toRead p.reads

variable (cfg : AgentSettings) (job : Job)

/-- What the graph knows when it asks for the plan -/
def planned (p : Progress) : CodingAgentState :=
  ⟨job.runId, job.task, job.workspace, job.model, p.listing,
    some (searchResults (p.searches.flatMap (listUnder "matches"))), some (.arr p.selected), none,
    none⟩

/-- What the model is asked -/
def questions (p : Progress) : List (List ChatMessage) :=
  [planMessages cfg (p.planned job), summaryMessages job.task p.answers.head?]

def listRows (p : Progress) : List Row :=
  p.listing.toList.map fun output => .tool (listRow job.runId job.workspace output)

def searchRows (p : Progress) : List Row :=
  List.zipWith (fun term output => .tool (searchRow job.runId job.workspace term output))
    (extractSearchTerms job.task) p.searches

def readRows (p : Progress) : List Row :=
  List.zipWith (fun relFile output =>
    .tool (readRow job.runId (fullPath job.workspace relFile) output)) p.toRead p.reads

def modelRows (p : Progress) : List Row :=
  List.zipWith (fun messages text =>
    .model (modelRow cfg job.runId (selectModel cfg job.model) messages text))
    (p.questions cfg job) p.answers

/-- The rows of a run that has come so far -/
def rows (p : Progress) : List Row :=
  p.listRows job ++ p.searchRows job ++ p.readRows job ++ p.modelRows cfg job

/-- A run lists, then searches, then reads, then asks. -/
structure Ordered (p : Progress) : Prop where
  searched : p.searches ≠ [] → p.listing.isSome
  searches : p.searches.length ≤ (extractSearchTerms job.task).length
  read : p.reads ≠ [] →
    p.listing.isSome ∧ p.searches.length = (extractSearchTerms job.task).length
  reads : p.reads.length ≤ p.toRead.length
  asked : p.answers ≠ [] → p.listing.isSome ∧
    p.searches.length = (extractSearchTerms job.task).length ∧ p.reads.length = p.toRead.length
  answers : p.answers.length ≤ 2

end Progress

variable {φ : Type}

/-- The tool answers the call so for some state of the files. -/
def Answers (view : φ → Workspace) (call : ToolCall) (output : Json) : Prop :=
  ∃ files, (call.run (view files)).result = .ok output

/-- Everything that was found is what a tool has answered, and without a key for the model so is
    every answer what the mock makes of the question. -/
structure Progress.Genuine (cfg : AgentSettings) (view : φ → Workspace) (job : Job) (p : Progress) :
    Prop where
  listing : ∀ output ∈ p.listing, Answers view (.listFiles job.workspace 120) output
  searches : ∀ found ∈ (extractSearchTerms job.task).zip p.searches,
    Answers view (.searchCode job.workspace found.1 40) found.2
  reads : ∀ read ∈ p.toRead.zip p.reads,
    Answers view (.readFile (fullPath job.workspace read.1) 3000) read.2
  mocked : cfg.zhipuApiKey = "" → ∀ asked ∈ (p.questions cfg job).zip p.answers,
    asked.2 = mockResponse asked.1

/-! ## One step further -/

theorem zipWith_concat {α β γ : Type} {f : α → β → γ} {xs later : List α} {ys : List β} {x : α}
    (y : β) (h : ys.length = xs.length) :
    List.zipWith f (xs ++ x :: later) (ys ++ [y]) = List.zipWith f (xs ++ x :: later) ys ++ [f x y] := by
  have hshort : List.zipWith f (xs ++ x :: later) ys = List.zipWith f xs ys := by
    have happend : List.zipWith f (xs ++ x :: later) (ys ++ []) =
        List.zipWith f xs ys ++ List.zipWith f (x :: later) [] := List.zipWith_append h.symm
    rw [List.append_nil, List.zipWith_nil_right, List.append_nil] at happend
    exact happend
  rw [hshort, List.zipWith_append h.symm]
  simp

theorem mem_zip_concat {α β : Type} {xs later : List α} {ys : List β} {x : α} {y : β} {pair : α × β}
    (h : ys.length = xs.length) (hmem : pair ∈ (xs ++ x :: later).zip (ys ++ [y])) :
    pair ∈ (xs ++ x :: later).zip ys ∨ pair = (x, y) := by
  rw [List.zip, zipWith_concat y h, List.mem_append, List.mem_singleton] at hmem
  exact hmem

namespace Progress

def list (p : Progress) (output : Json) : Progress := { p with listing := some output }

def search (p : Progress) (output : Json) : Progress :=
  { p with searches := p.searches ++ [output] }

def read (p : Progress) (output : Json) : Progress := { p with reads := p.reads ++ [output] }

def answer (p : Progress) (text : String) : Progress := { p with answers := p.answers ++ [text] }

/-! ### Where a run stands -/

variable {cfg : AgentSettings} {view : φ → Workspace} {job : Job} {p : Progress}

/-- After the searches for the first terms -/
structure Searching (cfg : AgentSettings) (view : φ → Workspace) (job : Job) (p : Progress)
    (rest : List String) : Prop where
  listed : p.listing.isSome
  terms : ∃ done, extractSearchTerms job.task = done ++ rest ∧ p.searches.length = done.length
  reads : p.reads = []
  answers : p.answers = []
  genuine : p.Genuine cfg view job

/-- After the first reads -/
structure Reading (cfg : AgentSettings) (view : φ → Workspace) (job : Job) (p : Progress)
    (rest : List String) : Prop where
  listed : p.listing.isSome
  searched : p.searches.length = (extractSearchTerms job.task).length
  files : ∃ done, p.toRead = done ++ rest ∧ p.reads.length = done.length
  answers : p.answers = []
  genuine : p.Genuine cfg view job

/-- After the first answers -/
structure Asking (cfg : AgentSettings) (view : φ → Workspace) (job : Job) (p : Progress) (n : Nat) :
    Prop where
  listed : p.listing.isSome
  searched : p.searches.length = (extractSearchTerms job.task).length
  read : p.reads.length = p.toRead.length
  answers : p.answers.length = n
  genuine : p.Genuine cfg view job

theorem Searching.ordered {rest : List String} (h : p.Searching cfg view job rest) :
    p.Ordered job := by
  obtain ⟨done, hterms, hlength⟩ := h.terms
  refine ⟨fun _ => h.listed, ?_, fun hr => absurd h.reads hr, ?_, fun ha => absurd h.answers ha, ?_⟩
  · rw [hterms, List.length_append]
    omega
  · rw [h.reads]
    exact Nat.zero_le _
  · rw [h.answers]
    exact Nat.zero_le _

theorem Reading.ordered {rest : List String} (h : p.Reading cfg view job rest) :
    p.Ordered job := by
  obtain ⟨done, hfiles, hlength⟩ := h.files
  refine ⟨fun _ => h.listed, h.searched.le, fun _ => ⟨h.listed, h.searched⟩, ?_,
    fun ha => absurd h.answers ha, ?_⟩
  · rw [hfiles, List.length_append]
    omega
  · rw [h.answers]
    exact Nat.zero_le _

theorem Asking.ordered {n : Nat} (h : p.Asking cfg view job n) (hn : n ≤ 2) : p.Ordered job :=
  ⟨fun _ => h.listed, h.searched.le, fun _ => ⟨h.listed, h.searched⟩, h.read.le,
    fun _ => ⟨h.listed, h.searched, h.read⟩, h.answers.trans_le hn⟩

theorem ordered_empty : empty.Ordered job :=
  ⟨fun h => absurd rfl h, Nat.zero_le _, fun h => absurd rfl h, Nat.zero_le _,
    fun h => absurd rfl h, Nat.zero_le _⟩

theorem rows_empty : empty.rows cfg job = [] := by
  simp [rows, empty, listRows, searchRows, readRows, modelRows]

theorem genuine_empty : empty.Genuine cfg view job where
  listing output h := by cases h
  searches found h := by
    rw [empty, List.zip_nil_right] at h
    cases h
  reads found h := by
    rw [empty, List.zip_nil_right] at h
    cases h
  mocked _ asked h := by
    rw [empty, List.zip_nil_right] at h
    cases h

/-! ### The listing -/

theorem searching_list {output : Json} (h : Answers view (.listFiles job.workspace 120) output) :
    (empty.list output).Searching cfg view job (extractSearchTerms job.task) := by
  refine ⟨rfl, ⟨[], rfl, rfl⟩, rfl, rfl, ?_, ?_, ?_, ?_⟩
  · intro o ho
    cases ho
    exact h
  · intro found hmem
    rw [list, empty, List.zip_nil_right] at hmem
    cases hmem
  · intro found hmem
    rw [list, empty, List.zip_nil_right] at hmem
    cases hmem
  · intro _ asked hmem
    rw [list, empty, List.zip_nil_right] at hmem
    cases hmem

/-- The row of the listing -/
theorem rows_list (output : Json) :
    (empty.list output).rows cfg job =
      empty.rows cfg job ++ [.tool (listRow job.runId job.workspace output)] := by
  simp [rows, list, empty, listRows, searchRows, readRows, modelRows]

/-! ### The searches -/

theorem Searching.search {term : String} {rest : List String} {output : Json}
    (h : p.Searching cfg view job (term :: rest))
    (ho : Answers view (.searchCode job.workspace term 40) output) :
    (p.search output).Searching cfg view job rest := by
  obtain ⟨done, hterms, hlength⟩ := h.terms
  refine ⟨h.listed, ⟨done ++ [term], ?_, ?_⟩, h.reads, h.answers, h.genuine.listing, ?_, ?_, ?_⟩
  · rw [hterms, List.append_assoc, List.singleton_append]
  · rw [Progress.search, List.length_append, List.length_append, hlength]
    rfl
  · intro found hmem
    rw [hterms] at hmem
    rcases mem_zip_concat hlength hmem with hmem | rfl
    · rw [← hterms] at hmem
      exact h.genuine.searches found hmem
    · exact ho
  · intro found hmem
    rw [Progress.search, h.reads, List.zip_nil_right] at hmem
    cases hmem
  · intro _ asked hmem
    rw [Progress.search, h.answers, List.zip_nil_right] at hmem
    cases hmem

/-- The row of one more search -/
theorem Searching.rows_search {term : String} {rest : List String}
    (h : p.Searching cfg view job (term :: rest)) (output : Json) :
    (p.search output).rows cfg job =
      p.rows cfg job ++ [.tool (searchRow job.runId job.workspace term output)] := by
  obtain ⟨done, hterms, hlength⟩ := h.terms
  have hreads : ∀ p : Progress, p.reads = [] → p.readRows job = [] := by
    intro p hp
    rw [readRows, hp, List.zipWith_nil_right]
  have hmodel : ∀ p : Progress, p.answers = [] → p.modelRows cfg job = [] := by
    intro p hp
    rw [modelRows, hp, List.zipWith_nil_right]
  rw [rows, rows, hreads p h.reads, hmodel p h.answers, hreads (p.search output) h.reads,
    hmodel (p.search output) h.answers]
  simp only [List.append_nil, List.append_assoc]
  congr 1
  rw [searchRows, searchRows, hterms]
  exact zipWith_concat output hlength

/-- Nothing has been read when the searches are over. -/
theorem Searching.reading (h : p.Searching cfg view job []) : p.Reading cfg view job p.toRead := by
  obtain ⟨done, hterms, hlength⟩ := h.terms
  refine ⟨h.listed, ?_, ⟨[], rfl, ?_⟩, h.answers, h.genuine⟩
  · rw [hterms, List.append_nil, hlength]
  · rw [h.reads]
    rfl

/-! ### The files -/

theorem Reading.read {relFile : String} {rest : List String} {output : Json}
    (h : p.Reading cfg view job (relFile :: rest))
    (ho : Answers view (.readFile (fullPath job.workspace relFile) 3000) output) :
    (p.read output).Reading cfg view job rest := by
  obtain ⟨done, hfiles, hlength⟩ := h.files
  have hsame : (p.read output).toRead = p.toRead := rfl
  refine ⟨h.listed, h.searched, ⟨done ++ [relFile], ?_, ?_⟩, h.answers, h.genuine.listing,
    h.genuine.searches, ?_, ?_⟩
  · rw [hsame, hfiles, List.append_assoc, List.singleton_append]
  · rw [Progress.read, List.length_append, List.length_append, hlength]
    rfl
  · intro found hmem
    rw [hsame, hfiles] at hmem
    rcases mem_zip_concat hlength hmem with hmem | rfl
    · rw [← hfiles] at hmem
      exact h.genuine.reads found hmem
    · exact ho
  · intro _ asked hmem
    rw [Progress.read, h.answers, List.zip_nil_right] at hmem
    cases hmem

/-- The row of one more file -/
theorem Reading.rows_read {relFile : String} {rest : List String}
    (h : p.Reading cfg view job (relFile :: rest)) (output : Json) :
    (p.read output).rows cfg job =
      p.rows cfg job ++
        [.tool (readRow job.runId (fullPath job.workspace relFile) output)] := by
  obtain ⟨done, hfiles, hlength⟩ := h.files
  have hsame : (p.read output).toRead = p.toRead := rfl
  have hmodel : ∀ p : Progress, p.answers = [] → p.modelRows cfg job = [] := by
    intro p hp
    rw [modelRows, hp, List.zipWith_nil_right]
  have hread : (p.read output).readRows job = p.readRows job ++
      [.tool (readRow job.runId (fullPath job.workspace relFile) output)] := by
    rw [readRows, readRows, hsame, hfiles]
    exact zipWith_concat output hlength
  rw [rows, rows, hmodel p h.answers, hmodel (p.read output) h.answers, hread]
  simp only [List.append_nil, List.append_assoc]
  rfl

theorem Reading.asking (h : p.Reading cfg view job []) : p.Asking cfg view job 0 := by
  obtain ⟨done, hfiles, hlength⟩ := h.files
  refine ⟨h.listed, h.searched, ?_, ?_, h.genuine⟩
  · rw [hfiles, List.append_nil, hlength]
  · rw [h.answers]
    rfl

/-! ### The answers -/

/-- The question that comes next -/
def Next (cfg : AgentSettings) (job : Job) (p : Progress) (n : Nat) (messages : List ChatMessage) :
    Prop :=
  n = 0 ∧ messages = planMessages cfg (p.planned job) ∨
    n = 1 ∧ messages = summaryMessages job.task p.answers.head?

theorem Asking.answer {n : Nat} {messages : List ChatMessage} {text : String}
    (h : p.Asking cfg view job n) (hn : p.Next cfg job n messages)
    (hmock : cfg.zhipuApiKey = "" → text = mockResponse messages) :
    (p.answer text).Asking cfg view job (n + 1) := by
  refine ⟨h.listed, h.searched, h.read, ?_, h.genuine.listing, h.genuine.searches,
    h.genuine.reads, fun hkey asked hmem => ?_⟩
  · rw [Progress.answer, List.length_append, h.answers]
    rfl
  · rcases hn with ⟨rfl, rfl⟩ | ⟨rfl, rfl⟩
    · have hnone := List.length_eq_zero_iff.mp h.answers
      rw [Progress.answer, hnone] at hmem
      obtain rfl := List.mem_singleton.mp hmem
      exact hmock hkey
    · obtain ⟨first, hfirst⟩ := List.length_eq_one_iff.mp h.answers
      have hfirst' := h.genuine.mocked hkey
      rw [Progress.answer, hfirst] at hmem
      rw [hfirst] at hfirst'
      rcases List.mem_cons.mp hmem with rfl | hmem
      · exact hfirst' _ List.mem_cons_self
      · obtain rfl := List.mem_singleton.mp hmem
        rw [hfirst] at hmock
        exact hmock hkey

/-- The row of one more answer -/
theorem Asking.rows_answer {n : Nat} {messages : List ChatMessage}
    (h : p.Asking cfg view job n) (hn : p.Next cfg job n messages) (text : String) :
    (p.answer text).rows cfg job = p.rows cfg job ++
      [.model (modelRow cfg job.runId (selectModel cfg job.model) messages text)] := by
  have hmodel : (p.answer text).modelRows cfg job = p.modelRows cfg job ++
      [.model (modelRow cfg job.runId (selectModel cfg job.model) messages text)] := by
    rcases hn with ⟨rfl, rfl⟩ | ⟨rfl, rfl⟩
    · have hnone := List.length_eq_zero_iff.mp h.answers
      rw [modelRows, modelRows, Progress.answer, hnone]
      rfl
    · obtain ⟨first, hfirst⟩ := List.length_eq_one_iff.mp h.answers
      rw [modelRows, modelRows, Progress.answer, hfirst]
      simp only [questions, hfirst]
      rfl
  rw [rows, rows, hmodel, ← List.append_assoc]
  rfl

end Progress

theorem mem_zipWith {α β γ : Type} {f : α → β → γ} {P : γ → Prop} (h : ∀ a b, P (f a b))
    {xs : List α} {ys : List β} {c : γ} (hc : c ∈ List.zipWith f xs ys) : P c := by
  induction xs generalizing ys with
  | nil => cases hc
  | cons x xs ih =>
    cases ys with
    | nil => cases hc
    | cons y ys =>
      rcases List.mem_cons.mp hc with rfl | hc
      · exact h x y
      · exact ih hc

theorem Progress.runId_of_mem {cfg : AgentSettings} {job : Job} {p : Progress} {row : Row}
    (h : row ∈ p.rows cfg job) : row.runId = job.runId := by
  rw [rows, List.mem_append, List.mem_append, List.mem_append] at h
  rcases h with ((hlist | hsearch) | hread) | hmodel
  · obtain ⟨output, -, rfl⟩ := List.mem_map.mp hlist
    rfl
  · exact mem_zipWith (P := fun row : Row => row.runId = job.runId) (fun _ _ => rfl) hsearch
  · exact mem_zipWith (P := fun row : Row => row.runId = job.runId) (fun _ _ => rfl) hread
  · exact mem_zipWith (P := fun row : Row => row.runId = job.runId) (fun _ _ => rfl) hmodel

end CodingAgent

end HyChat
