import HyChat.Coding.Progress

/-!
# The trail of a run

Wherever a run of the coding agent stands or breaks off, and whatever its statements answer, what it
has saved are the rows of its progress, and what it has closed as a success has come all the way:
the history of a run is a *trail* (`createCodingAgentRun_triple`).

How a statement about every moment of a run is proved. The endpoint is a program whose statements
may answer anything and may raise; a triple says what is known before a part of it, what is known
when it returns and what when it raises, and its invariant holds after each statement. The
invariant is `Trail`. It has to hold in the middle of a node, where a tool has answered and its row
is not saved yet, so it speaks of what was saved and not of what the graph knows.

The nodes are one lemma each, in the order of the graph, and the assertion between them is `AtWork`
with the progress made so far. A statement that saves a row may have done so and raise
nevertheless; the progress then has the row although the graph never learns of it.

The `except` clause closes the run as failed with statements that can raise in turn, so a run may
be left open, and it may be left unclosed although its work is done. What cannot happen is a run
that is closed as a success without having come all the way.
-/

set_option autoImplicit false

namespace HyChat

open Lib

namespace CodingAgent

open FileTools (ToolCall Workspace)

variable {φ : Type}

/-! ## What a run has issued

Only four of the statements write; the others are `Neutral`. -/

/-- The row of the run, as its insert was answered -/
def insertedRun : Event → Option RunRow
  | ⟨.insertRun userId task workspace, .ok id⟩ =>
      some ⟨id, userId, task, workspace, "running", none, none⟩
  | _ => none

def savedRow : Event → Option Row
  | ⟨.saveToolCall row, r⟩ => if wrote r then some (.tool row) else none
  | ⟨.saveModelCall row, r⟩ => if wrote r then some (.model row) else none
  | _ => none

def closedRun : Event → Option (String × Closing)
  | ⟨.closeRun runId closing, r⟩ => if wrote r then some (runId, closing) else none
  | _ => none

/-- The rows whose insert was answered -/
def inserted (past : List Event) : List RunRow := past.filterMap insertedRun

/-- The rows that were saved -/
def saved (past : List Event) : List Row := past.filterMap savedRow

/-- What has closed the run, in order -/
def closings (past : List Event) : List (String × Closing) := past.filterMap closedRun

/-- A statement that writes nothing -/
def Neutral : Statement → Prop
  | .insertRun _ _ _ => False
  | .saveToolCall _ => False
  | .saveModelCall _ => False
  | .closeRun _ _ => False
  | _ => True

section

variable {past : List Event}

theorem inserted_append (past rest : List Event) :
    inserted (past ++ rest) = inserted past ++ inserted rest := List.filterMap_append

theorem saved_append (past rest : List Event) : saved (past ++ rest) = saved past ++ saved rest :=
  List.filterMap_append

theorem closings_append (past rest : List Event) :
    closings (past ++ rest) = closings past ++ closings rest := List.filterMap_append

/-- The history has gone on, and nothing was written. -/
structure Silent (past past' : List Event) : Prop where
  inserted : inserted past' = inserted past
  saved : saved past' = saved past
  closings : closings past' = closings past
  kept : ∀ e ∈ past, e ∈ past'

theorem silent_event {e : Event} (hinserted : insertedRun e = none) (hsaved : savedRow e = none)
    (hclosed : closedRun e = none) : Silent past (past ++ [e]) := by
  refine ⟨?_, ?_, ?_, fun _ => List.mem_append_left _⟩
  · simp [inserted, hinserted]
  · simp [saved, hsaved]
  · simp [closings, hclosed]

theorem silent_neutral {s : Statement} (h : Neutral s) (r : Except Exn (Answer s)) :
    Silent past (past ++ [⟨s, r⟩]) := by
  cases s with
  | insertRun userId task workspace => cases h
  | saveToolCall row => cases h
  | saveModelCall row => cases h
  | closeRun runId closing => cases h
  | _ => exact silent_event rfl rfl rfl

end

/-! ## What the history of a run always is -/

section

variable (cfg : AgentSettings) (view : φ → Workspace) (userId : String) (request : AgentRunRequest)

/-- The row of the run as it is inserted -/
def newRun (runId workspace : String) : RunRow :=
  ⟨runId, userId, request.task, workspace, "running", none, none⟩

def job (runId workspace : String) : Job := ⟨runId, request.task, workspace, request.model⟩

/-- The run has come so far: its rows are those of the progress, and the policy has let the model
    through before. -/
structure Kept (runId workspace : String) (p : Progress) (past : List Event) : Prop where
  inserted : inserted past = [newRun userId request runId workspace]
  saved : saved past = p.rows cfg (job request runId workspace)
  ordered : p.Ordered (job request runId workspace)
  genuine : p.Genuine cfg view (job request runId workspace)
  enforced : ⟨.enforceModel userId (selectModel cfg request.model), .ok ()⟩ ∈ past

/-- Nothing was written yet. -/
structure Untouched (past : List Event) : Prop where
  inserted : CodingAgent.inserted past = []
  saved : CodingAgent.saved past = []
  closings : CodingAgent.closings past = []

/-- A run that was closed as a success has come all the way, and its output is the summary. -/
def ClosedWell (runId : String) (p : Progress) (past : List Event) : Prop :=
  ∀ closed ∈ closings past, closed.1 = runId ∧ ∀ output, closed.2 = .success output →
    p.answers.length = 2 ∧ p.answers.getLast? = some output

/-- What holds of the history of a run, wherever it stands or breaks off -/
def Trail (past : List Event) : Prop :=
  Untouched past ∨ ∃ runId workspace p, Kept cfg view userId request runId workspace p past ∧
    ClosedWell runId p past

/-- A tool answers what it finds in some state of the files. -/
def Possible : (s : Statement) → Except Exn (Answer s) → Prop
  | .tool call, r => ∀ output, r = .ok output → Answers view call output
  | _, _ => True

end

section

variable {cfg : AgentSettings} {view : φ → Workspace} {userId : String} {request : AgentRunRequest}
  {runId workspace : String} {p p' : Progress} {past past' : List Event}

theorem Kept.silent (h : Kept cfg view userId request runId workspace p past)
    (hs : Silent past past') : Kept cfg view userId request runId workspace p past' :=
  ⟨hs.inserted.trans h.inserted, hs.saved.trans h.saved, h.ordered, h.genuine,
    hs.kept _ h.enforced⟩

/-- A run at work, which has come so far -/
structure AtWork (cfg : AgentSettings) (view : φ → Workspace) (userId : String)
    (request : AgentRunRequest) (runId workspace : String) (p : Progress) (past : List Event) : Prop
    where
  kept : Kept cfg view userId request runId workspace p past
  unclosed : closings past = []

theorem AtWork.trail (h : AtWork cfg view userId request runId workspace p past) :
    Trail cfg view userId request past := by
  refine .inr ⟨runId, workspace, p, h.kept, fun closed hclosed => ?_⟩
  rw [h.unclosed] at hclosed
  cases hclosed

theorem AtWork.silent (h : AtWork cfg view userId request runId workspace p past)
    (hs : Silent past past') : AtWork cfg view userId request runId workspace p past' :=
  ⟨h.kept.silent hs, hs.closings.trans h.unclosed⟩

/-- **A row is saved**: the run has come one step further, or the statement has done nothing. -/
theorem AtWork.save {s : Statement} {row : Row}
    (h : AtWork cfg view userId request runId workspace p past) (r : Except Exn (Answer s))
    (hrow : savedRow ⟨s, r⟩ = if wrote r then some row else none)
    (hinserted : insertedRun ⟨s, r⟩ = none) (hclosed : closedRun ⟨s, r⟩ = none)
    (hrows : p'.rows cfg (job request runId workspace) =
      p.rows cfg (job request runId workspace) ++ [row])
    (hordered : p'.Ordered (job request runId workspace))
    (hgenuine : p'.Genuine cfg view (job request runId workspace)) :
    AtWork cfg view userId request runId workspace (if wrote r then p' else p)
      (past ++ [⟨s, r⟩]) := by
  cases hw : wrote r with
  | false =>
    rw [hw] at hrow
    exact h.silent (silent_event hinserted hrow hclosed)
  | true =>
    rw [hw, if_pos rfl] at hrow
    refine ⟨⟨?_, ?_, hordered, hgenuine, List.mem_append_left _ h.kept.enforced⟩, ?_⟩
    · rw [inserted_append, h.kept.inserted]
      simp [inserted, hinserted]
    · rw [saved_append, h.kept.saved, if_pos rfl, hrows]
      simp [saved, hrow]
    · rw [closings_append, h.unclosed]
      simp [closings, hclosed]

/-! ## The nodes -/

/-- The run is still at work when a statement raises. -/
def Raised (cfg : AgentSettings) (view : φ → Workspace) (userId : String)
    (request : AgentRunRequest) (runId workspace : String) : Exn → Unit → List Event → Prop :=
  fun _ _ past => ∃ p, AtWork cfg view userId request runId workspace p past

/-- A statement that writes nothing -/
theorem neutral_triple {s : Statement} (hs : Neutral s)
    (h : AtWork cfg view userId request runId workspace p past) :
    Suite.Triple (Possible view) (Trail cfg view userId request) past () (ask s)
      (fun a _ past => AtWork cfg view userId request runId workspace p past ∧
        Possible view s (.ok a))
      (Raised cfg view userId request runId workspace) := by
  refine .call (fun a ha => ?_) fun e _ => ?_
  · have hnext := h.silent (silent_neutral hs (.ok a))
    exact ⟨hnext.trail, hnext, ha⟩
  · have hnext := h.silent (silent_neutral hs (.error e))
    exact ⟨hnext.trail, p, hnext⟩

/-- A statement that saves a row -/
theorem save_triple {s : Statement} {row : Row}
    (hrow : ∀ r, savedRow ⟨s, r⟩ = if wrote r then some row else none)
    (hinserted : ∀ r, insertedRun ⟨s, r⟩ = none) (hclosed : ∀ r, closedRun ⟨s, r⟩ = none)
    (h : AtWork cfg view userId request runId workspace p past)
    (hrows : p'.rows cfg (job request runId workspace) =
      p.rows cfg (job request runId workspace) ++ [row])
    (hordered : p'.Ordered (job request runId workspace))
    (hgenuine : p'.Genuine cfg view (job request runId workspace)) :
    Suite.Triple (Possible view) (Trail cfg view userId request) past () (ask s)
      (fun _ _ past => AtWork cfg view userId request runId workspace p' past)
      (Raised cfg view userId request runId workspace) := by
  refine .call (fun a _ => ?_) fun e _ => ?_
  · have hnext := h.save (.ok a) (hrow _) (hinserted _) (hclosed _) hrows hordered hgenuine
    exact ⟨hnext.trail, hnext⟩
  · have hnext := h.save (.error e) (hrow _) (hinserted _) (hclosed _) hrows hordered hgenuine
    exact ⟨hnext.trail, _, hnext⟩

/-- A tool is called and its row saved. -/
theorem recorded_triple {α : Type} {call : ToolCall} {row : Json → ToolRow} {k : Json → Code α}
    {Ok : α → Unit → List Event → Prop} (next : Json → Progress)
    (h : AtWork cfg view userId request runId workspace p past)
    (hnext : ∀ output, Answers view call output →
      (next output).rows cfg (job request runId workspace) =
          p.rows cfg (job request runId workspace) ++ [.tool (row output)] ∧
        (next output).Ordered (job request runId workspace) ∧
        (next output).Genuine cfg view (job request runId workspace))
    (hk : ∀ output past, Answers view call output →
      AtWork cfg view userId request runId workspace (next output) past →
      Suite.Triple (Possible view) (Trail cfg view userId request) past () (k output) Ok
        (Raised cfg view userId request runId workspace)) :
    Suite.Triple (Possible view) (Trail cfg view userId request) past ()
      (ask (.tool call) >>= fun output => ask (.saveToolCall (row output)) >>= fun _ => k output) Ok
      (Raised cfg view userId request runId workspace) := by
  refine .bind (neutral_triple (s := .tool call) trivial h) ?_
  rintro output ⟨⟩ past ⟨hwork, hoff⟩
  have hanswers : Answers view call output := hoff output rfl
  obtain ⟨hrows, hordered, hgenuine⟩ := hnext output hanswers
  refine .bind (save_triple (fun _ => rfl) (fun _ => rfl) (fun _ => rfl) hwork hrows hordered
    hgenuine) ?_
  rintro _ ⟨⟩ past hsaved
  exact hk output past hanswers hsaved

/-- What the graph knows before the first node -/
def initialState (request : AgentRunRequest) (runId workspace : String) : CodingAgentState :=
  ⟨runId, request.task, workspace, request.model, none, none, none, none, none⟩

def listedState (request : AgentRunRequest) (runId workspace : String) (p : Progress) :
    CodingAgentState :=
  { initialState request runId workspace with projectFiles := p.listing }

def searchedState (request : AgentRunRequest) (runId workspace : String) (p : Progress) :
    CodingAgentState :=
  { listedState request runId workspace p with
    searchResults := some (searchResults (p.searches.flatMap (listUnder "matches"))) }

/-- The first node lists the workspace. -/
theorem scanProject_triple
    (h : AtWork cfg view userId request runId workspace .empty past) :
    Suite.Triple (Possible view) (Trail cfg view userId request) past ()
      (scanProject (initialState request runId workspace))
      (fun state _ past => ∃ p : Progress, state = listedState request runId workspace p ∧
        p.Searching cfg view (job request runId workspace) (extractSearchTerms request.task) ∧
        p.searches = [] ∧ AtWork cfg view userId request runId workspace p past)
      (Raised cfg view userId request runId workspace) := by
  refine recorded_triple Progress.empty.list h (fun output ho => ?_) fun output past ho hwork => ?_
  · have hsearching := (Progress.searching_list ho :
      (Progress.empty.list output).Searching cfg view (job request runId workspace) _)
    exact ⟨Progress.rows_list output, hsearching.ordered, hsearching.genuine⟩
  · exact .pure ⟨_, rfl, Progress.searching_list ho, rfl, hwork⟩

theorem searchTerms_triple {state : CodingAgentState} {terms : List String} {allMatches : List Json}
    (hid : state.runId = runId) (hworkspace : state.workspace = workspace)
    (hmatches : allMatches = p.searches.flatMap (listUnder "matches"))
    (hp : p.Searching cfg view (job request runId workspace) terms)
    (h : AtWork cfg view userId request runId workspace p past) :
    Suite.Triple (Possible view) (Trail cfg view userId request) past ()
      (searchTerms state terms allMatches)
      (fun found _ past => ∃ p' : Progress, p'.listing = p.listing ∧
        p'.Searching cfg view (job request runId workspace) [] ∧
        AtWork cfg view userId request runId workspace p' past ∧
        found = p'.searches.flatMap (listUnder "matches"))
      (Raised cfg view userId request runId workspace) := by
  subst hid hworkspace
  induction terms generalizing p allMatches past with
  | nil => exact .pure ⟨p, rfl, hp, h, hmatches⟩
  | cons term rest ih =>
    refine recorded_triple p.search h (fun output ho => ?_) fun output past ho hwork => ?_
    · exact ⟨hp.rows_search output, (hp.search ho).ordered, (hp.search ho).genuine⟩
    · refine ih (p := p.search output) ?_ (hp.search ho) hwork
      rw [hmatches, Progress.search, List.flatMap_append, List.flatMap_singleton]

/-- The second node searches, once for each term. -/
theorem searchCode_triple
    (hp : p.Searching cfg view (job request runId workspace) (extractSearchTerms request.task))
    (hnone : p.searches = []) (h : AtWork cfg view userId request runId workspace p past) :
    Suite.Triple (Possible view) (Trail cfg view userId request) past ()
      (searchCode (listedState request runId workspace p))
      (fun state _ past => ∃ p : Progress, state = searchedState request runId workspace p ∧
        p.Searching cfg view (job request runId workspace) [] ∧
        AtWork cfg view userId request runId workspace p past)
      (Raised cfg view userId request runId workspace) := by
  have hid : (listedState request runId workspace p).runId = runId := rfl
  have hmatches : [] = p.searches.flatMap (listUnder "matches") := by
    rw [hnone, List.flatMap_nil]
  refine .bind (searchTerms_triple hid rfl hmatches hp h) ?_
  rintro found ⟨⟩ past ⟨p', hlisting, hp', hwork, rfl⟩
  refine .pure ⟨p', ?_, hp', hwork⟩
  rw [searchedState, listedState, listedState, hlisting]

theorem Progress.Reading.selected_read {cfg : AgentSettings} {view : φ → Workspace} {job : Job}
    {p : Progress} {relFile : String} {rest : List String}
    (h : p.Reading cfg view job (relFile :: rest)) (output : Json) :
    (p.read output).selected = p.selected ++ [selectedFile relFile output] := by
  obtain ⟨done, hfiles, hlength⟩ := h.files
  have hsame : (p.read output).toRead = p.toRead := rfl
  rw [selected, selected, hsame, hfiles]
  exact zipWith_concat output hlength

theorem Progress.Reading.selected_length {cfg : AgentSettings} {view : φ → Workspace} {job : Job}
    {p : Progress} {rest : List String} (h : p.Reading cfg view job rest) :
    p.selected.length = p.reads.length := by
  obtain ⟨done, hfiles, hlength⟩ := h.files
  rw [selected, List.length_zipWith, hfiles, List.length_append]
  omega

/-- The third node reads. -/
theorem readFiles_triple {state : CodingAgentState} {files : List String} {selected : List Json}
    (hid : state.runId = runId) (hworkspace : state.workspace = workspace)
    (hselected : selected = p.selected) (hfew : p.reads.length < 5)
    (hp : p.Reading cfg view (job request runId workspace)
      ((files.filter isSourceFile).take (5 - p.reads.length)))
    (h : AtWork cfg view userId request runId workspace p past) :
    Suite.Triple (Possible view) (Trail cfg view userId request) past ()
      (readFiles state files selected)
      (fun selected _ past => ∃ p' : Progress, p'.listing = p.listing ∧ p'.searches = p.searches ∧
        p'.Reading cfg view (job request runId workspace) [] ∧
        AtWork cfg view userId request runId workspace p' past ∧ selected = p'.selected)
      (Raised cfg view userId request runId workspace) := by
  subst hid hworkspace
  induction files generalizing p selected past with
  | nil =>
    rw [List.filter_nil, List.take_nil] at hp
    exact .pure ⟨p, rfl, rfl, hp, h, hselected⟩
  | cons relFile rest ih =>
    have hlength : selected.length = p.reads.length := by rw [hselected, hp.selected_length]
    rw [readFiles]
    by_cases hsource : isSourceFile relFile = true
    · obtain ⟨left, hleft⟩ : ∃ left, 5 - p.reads.length = left + 1 := ⟨4 - p.reads.length, by omega⟩
      rw [if_pos hsource]
      rw [List.filter_cons_of_pos hsource, hleft, List.take_succ_cons] at hp
      refine recorded_triple p.read h (fun output ho => ?_) fun output past ho hwork => ?_
      · exact ⟨hp.rows_read output, (hp.read ho).ordered, (hp.read ho).genuine⟩
      · have hread := hp.read ho
        have hmore : (p.read output).reads.length = p.reads.length + 1 := List.length_append
        have hselected' : selected ++ [selectedFile relFile output] = (p.read output).selected := by
          rw [hselected, hp.selected_read]
        simp only
        split
        · rename_i henough
          -- five files have been read, so none is left to read
          have hnone : left = 0 := by
            rw [List.length_append, List.length_singleton, hlength] at henough
            omega
          rw [hnone, List.take_zero] at hread
          exact .pure ⟨p.read output, rfl, rfl, hread, hwork, hselected'⟩
        · rename_i hless
          rw [List.length_append, List.length_singleton, hlength] at hless
          have hleft' : left = 5 - (p.read output).reads.length := by omega
          rw [hleft'] at hread
          exact ih (p := p.read output) hselected' (by omega) hread hwork
    · rw [if_neg hsource, if_neg (by omega)]
      rw [List.filter_cons_of_neg hsource] at hp
      exact ih hselected hfew hp h

theorem readSelectedFiles_triple (hp : p.Searching cfg view (job request runId workspace) [])
    (h : AtWork cfg view userId request runId workspace p past) :
    Suite.Triple (Possible view) (Trail cfg view userId request) past ()
      (readSelectedFiles (searchedState request runId workspace p))
      (fun state _ past => ∃ p : Progress, state = p.planned (job request runId workspace) ∧
        p.Asking cfg view (job request runId workspace) 0 ∧
        AtWork cfg view userId request runId workspace p past)
      (Raised cfg view userId request runId workspace) := by
  have hreading : p.Reading cfg view (job request runId workspace)
      ((((fileNames (p.listing.getD (.obj []))).take 8).filter isSourceFile).take
        (5 - p.reads.length)) := by
    rw [hp.reads]
    exact hp.reading
  have hselected : [] = p.selected := by
    rw [Progress.selected, hp.reads, List.zipWith_nil_right]
  have hfew : p.reads.length < 5 := by
    rw [hp.reads]
    exact Nat.zero_lt_succ 4
  have hid : (searchedState request runId workspace p).runId = runId := rfl
  refine .bind (readFiles_triple hid rfl hselected hfew hreading h) ?_
  rintro selected ⟨⟩ past ⟨p', hlisting, hsearches, hp', hwork, rfl⟩
  refine .pure ⟨p', ?_, hp'.asking, hwork⟩
  rw [Progress.planned, searchedState, listedState, hlisting, hsearches]
  rfl

theorem chat_triple {n : Nat} {messages : List ChatMessage} (hn : n < 2)
    (hp : p.Asking cfg view (job request runId workspace) n)
    (hmessages : p.Next cfg (job request runId workspace) n messages)
    (h : AtWork cfg view userId request runId workspace p past) :
    Suite.Triple (Possible view) (Trail cfg view userId request) past ()
      (chat cfg runId messages request.model)
      (fun text _ past =>
        (p.answer text).Asking cfg view (job request runId workspace) (n + 1) ∧
          AtWork cfg view userId request runId workspace (p.answer text) past)
      (Raised cfg view userId request runId workspace) := by
  have hsaved : ∀ text past, (cfg.zhipuApiKey = "" → text = mockResponse messages) →
      AtWork cfg view userId request runId workspace p past →
      Suite.Triple (Possible view) (Trail cfg view userId request) past ()
        (ask (.saveModelCall (modelRow cfg runId (selectModel cfg request.model) messages text)) >>=
          fun _ => (pure text : Code String))
        (fun text _ past =>
          (p.answer text).Asking cfg view (job request runId workspace) (n + 1) ∧
            AtWork cfg view userId request runId workspace (p.answer text) past)
        (Raised cfg view userId request runId workspace) := by
    intro text past hmock hwork
    have hasked := hp.answer hmessages hmock
    refine .bind (save_triple (fun _ => rfl) (fun _ => rfl) (fun _ => rfl) hwork
      (hp.rows_answer hmessages text) (hasked.ordered hn) hasked.genuine) ?_
    rintro _ ⟨⟩ past hnext
    exact .pure ⟨hasked, hnext⟩
  have hresolve : Suite.Triple (Possible view) (Trail cfg view userId request) past ()
      (resolveModel cfg request.model)
      (fun modelName _ past => modelName = selectModel cfg request.model ∧
        AtWork cfg view userId request runId workspace p past)
      (Raised cfg view userId request runId workspace) := by
    unfold resolveModel
    simp only
    split
    · exact .pure ⟨rfl, h⟩
    · exact .raise ⟨p, h⟩
  refine .bind hresolve ?_
  rintro modelName ⟨⟩ past ⟨rfl, hwork⟩
  split
  · exact hsaved _ past (fun _ => rfl) hwork
  · rename_i hkey
    refine .bind (neutral_triple (s := .invoke _ messages) trivial hwork) ?_
    rintro text ⟨⟩ past ⟨hwork, -⟩
    exact hsaved text past (fun hnone => absurd hnone hkey) hwork

/-- The fourth node asks the model. -/
theorem plan_triple (hp : p.Asking cfg view (job request runId workspace) 0)
    (h : AtWork cfg view userId request runId workspace p past) :
    Suite.Triple (Possible view) (Trail cfg view userId request) past ()
      (plan cfg (p.planned (job request runId workspace)))
      (fun state _ past => ∃ p : Progress, state.runId = runId ∧ state.task = request.task ∧
        state.model = request.model ∧ state.plan = p.answers.head? ∧
        p.Asking cfg view (job request runId workspace) 1 ∧
        AtWork cfg view userId request runId workspace p past)
      (Raised cfg view userId request runId workspace) := by
  refine .bind (chat_triple (by omega) hp (.inl ⟨rfl, rfl⟩) h) ?_
  rintro text ⟨⟩ past ⟨hasked, hwork⟩
  refine .pure ⟨p.answer text, rfl, rfl, rfl, ?_, hasked, hwork⟩
  rw [Progress.answer, List.length_eq_zero_iff.mp hp.answers]
  rfl

/-- A run that has come all the way, with its summary -/
def Finished (cfg : AgentSettings) (view : φ → Workspace) (userId : String)
    (request : AgentRunRequest) (runId workspace : String) (output : String) (past : List Event) :
    Prop :=
  ∃ p : Progress, AtWork cfg view userId request runId workspace p past ∧ p.answers.length = 2 ∧
    p.answers.getLast? = some output

/-- The last node asks the model for the summary. -/
theorem finalSummary_triple {state : CodingAgentState} (hid : state.runId = runId)
    (htask : state.task = request.task) (hmodel : state.model = request.model)
    (hplan : state.plan = p.answers.head?)
    (hp : p.Asking cfg view (job request runId workspace) 1)
    (h : AtWork cfg view userId request runId workspace p past) :
    Suite.Triple (Possible view) (Trail cfg view userId request) past () (finalSummary cfg state)
      (fun state _ past => ∃ output, state.finalOutput = some output ∧
        Finished cfg view userId request runId workspace output past)
      (Raised cfg view userId request runId workspace) := by
  unfold finalSummary
  rw [hid, htask, hmodel, hplan]
  refine .bind (chat_triple (by omega) hp (.inr ⟨rfl, rfl⟩) h) ?_
  rintro text ⟨⟩ past ⟨hasked, hwork⟩
  refine .pure ⟨text, rfl, p.answer text, hwork, hasked.answers, ?_⟩
  rw [Progress.answer, List.getLast?_append]
  rfl

/-- The nodes one after the other -/
theorem runAgentGraph_triple (h : AtWork cfg view userId request runId workspace .empty past) :
    Suite.Triple (Possible view) (Trail cfg view userId request) past ()
      (runAgentGraph cfg runId request.task workspace request.model)
      (fun output _ past => Finished cfg view userId request runId workspace output past)
      (Raised cfg view userId request runId workspace) := by
  refine .bind (scanProject_triple h) ?_
  rintro _ ⟨⟩ past ⟨listed, rfl, hp, hnone, hwork⟩
  refine .bind (searchCode_triple hp hnone hwork) ?_
  rintro _ ⟨⟩ past ⟨searched, rfl, hp, hwork⟩
  refine .bind (readSelectedFiles_triple hp hwork) ?_
  rintro _ ⟨⟩ past ⟨read, rfl, hp, hwork⟩
  refine .bind (plan_triple hp hwork) ?_
  rintro state ⟨⟩ past ⟨asked, hid, htask, hmodel, hplan, hp, hwork⟩
  refine .bind (finalSummary_triple hid htask hmodel hplan hp hwork) ?_
  rintro state ⟨⟩ past ⟨output, houtput, hfinished⟩
  rw [houtput]
  exact .pure hfinished

/-! ## The endpoint -/

/-- A run that is not at work any more, or not yet at its end -/
def Ending (cfg : AgentSettings) (view : φ → Workspace) (userId : String)
    (request : AgentRunRequest) (runId workspace : String) (past : List Event) : Prop :=
  ∃ p, Kept cfg view userId request runId workspace p past ∧ ClosedWell runId p past

theorem Ending.trail (h : Ending cfg view userId request runId workspace past) :
    Trail cfg view userId request past :=
  .inr ⟨runId, workspace, h⟩

theorem AtWork.ending (h : AtWork cfg view userId request runId workspace p past) :
    Ending cfg view userId request runId workspace past := by
  refine ⟨p, h.kept, fun closed hclosed => ?_⟩
  rw [h.unclosed] at hclosed
  cases hclosed

/-- The row is closed, or the statement has done nothing. -/
theorem ending_close {closing : Closing}
    (hkept : Kept cfg view userId request runId workspace p past) (hclosed : ClosedWell runId p past)
    (hwell : ∀ output, closing = .success output →
      p.answers.length = 2 ∧ p.answers.getLast? = some output)
    (r : Except Exn (Answer (.closeRun runId closing))) :
    Ending cfg view userId request runId workspace (past ++ [⟨.closeRun runId closing, r⟩]) := by
  refine ⟨p, ⟨?_, ?_, hkept.ordered, hkept.genuine, List.mem_append_left _ hkept.enforced⟩, ?_⟩
  · rw [inserted_append, hkept.inserted]
    rfl
  · rw [saved_append, hkept.saved]
    exact List.append_nil _
  · intro closed hmem
    rw [closings_append] at hmem
    rcases List.mem_append.mp hmem with hmem | hmem
    · exact hclosed closed hmem
    · obtain ⟨e, he, hclose⟩ := List.mem_filterMap.mp hmem
      rw [List.mem_singleton.mp he] at hclose
      simp only [closedRun] at hclose
      split at hclose
      · obtain rfl := Option.some.inj hclose
        exact ⟨rfl, hwell⟩
      · cases hclose

theorem close_triple {closing : Closing}
    (hkept : Kept cfg view userId request runId workspace p past) (hclosed : ClosedWell runId p past)
    (hwell : ∀ output, closing = .success output →
      p.answers.length = 2 ∧ p.answers.getLast? = some output) :
    Suite.Triple (Possible view) (Trail cfg view userId request) past ()
      (ask (.closeRun runId closing))
      (fun _ _ past => Ending cfg view userId request runId workspace past)
      (fun _ _ past => Ending cfg view userId request runId workspace past) :=
  .call (fun a _ => ⟨(ending_close hkept hclosed hwell (.ok a)).trail,
    ending_close hkept hclosed hwell (.ok a)⟩)
    fun e _ => ⟨(ending_close hkept hclosed hwell (.error e)).trail,
      ending_close hkept hclosed hwell (.error e)⟩

theorem Ending.neutral {s : Statement} (hs : Neutral s)
    (h : Ending cfg view userId request runId workspace past) (r : Except Exn (Answer s)) :
    Ending cfg view userId request runId workspace (past ++ [⟨s, r⟩]) := by
  obtain ⟨p, hkept, hclosed⟩ := h
  have hsilent : Silent past (past ++ [⟨s, r⟩]) := silent_neutral hs r
  refine ⟨p, hkept.silent hsilent, fun closed hmem => ?_⟩
  rw [hsilent.closings] at hmem
  exact hclosed closed hmem

theorem ending_triple {s : Statement} (hs : Neutral s)
    (h : Ending cfg view userId request runId workspace past) :
    Suite.Triple (Possible view) (Trail cfg view userId request) past () (ask s)
      (fun _ _ past => Ending cfg view userId request runId workspace past)
      (fun _ _ past => Ending cfg view userId request runId workspace past) :=
  .call (fun a _ => ⟨(h.neutral hs (.ok a)).trail, h.neutral hs (.ok a)⟩)
    fun e _ => ⟨(h.neutral hs (.error e)).trail, h.neutral hs (.error e)⟩

/-- The `try` block -/
theorem attempt_triple (h : AtWork cfg view userId request runId workspace .empty past) :
    Suite.Triple (Possible view) (Trail cfg view userId request) past ()
      (attempt cfg runId workspace request) (fun _ _ _ => True)
      (fun _ _ past => Ending cfg view userId request runId workspace past) := by
  refine .bind ((runAgentGraph_triple h).mono (fun _ _ _ => id) ?_) ?_
  · rintro e ⟨⟩ past ⟨p, hwork⟩
    exact hwork.ending
  · rintro output ⟨⟩ past ⟨p, hwork, hlength, hlast⟩
    have hopen : ClosedWell runId p past := by
      intro closed hmem
      rw [hwork.unclosed] at hmem
      cases hmem
    refine .bind (close_triple hwork.kept hopen fun text htext => ?_) ?_
    · cases htext
      exact ⟨hlength, hlast⟩
    · rintro _ ⟨⟩ past hending
      refine .bind (ending_triple (s := .setCachedRunStatus runId "success") trivial hending) ?_
      rintro _ ⟨⟩ past _
      exact .pure trivial

/-- The `except` clause -/
theorem failRun_triple {e : Exn} (h : Ending cfg view userId request runId workspace past) :
    Suite.Triple (Possible view) (Trail cfg view userId request) past () (failRun runId e)
      (fun _ _ _ => True) (fun _ _ _ => True) := by
  obtain ⟨p, hkept, hclosed⟩ := h
  have hfailed : ∀ output, Closing.failed e.text = .success output →
      p.answers.length = 2 ∧ p.answers.getLast? = some output := fun output houtput => by cases houtput
  refine .bind ((close_triple hkept hclosed hfailed).mono (fun _ _ _ => id)
    fun _ _ _ _ => trivial) ?_
  rintro _ ⟨⟩ past hending
  refine .bind ((ending_triple (s := .setCachedRunStatus runId "failed") trivial hending).mono
    (fun _ _ _ => id) fun _ _ _ _ => trivial) ?_
  rintro _ ⟨⟩ past _
  exact .raise trivial

theorem Untouched.silent (h : Untouched past) (hs : Silent past past') : Untouched past' :=
  ⟨hs.inserted.trans h.inserted, hs.saved.trans h.saved, hs.closings.trans h.closings⟩

theorem untouched_triple {s : Statement} (hs : Neutral s) (h : Untouched past) :
    Suite.Triple (Possible view) (Trail cfg view userId request) past () (ask s)
      (fun a _ past => Untouched past ∧ ⟨s, .ok a⟩ ∈ past) (fun _ _ past => Untouched past) := by
  refine .call (fun a _ => ?_) fun e _ => ?_
  · have hnext := h.silent (silent_neutral hs (.ok a))
    exact ⟨.inl hnext, hnext, List.mem_append_right _ List.mem_cons_self⟩
  · have hnext := h.silent (silent_neutral hs (.error e))
    exact ⟨.inl hnext, hnext⟩

/-- What the insert makes of an untouched history -/
theorem Untouched.insert (h : Untouched past)
    (henforced : ⟨.enforceModel userId (selectModel cfg request.model), .ok ()⟩ ∈ past) :
    AtWork cfg view userId request runId workspace .empty
      (past ++ [⟨.insertRun userId request.task workspace, .ok runId⟩]) := by
  refine ⟨⟨?_, ?_, Progress.ordered_empty, Progress.genuine_empty,
    List.mem_append_left _ henforced⟩, ?_⟩
  · rw [inserted_append, h.inserted]
    rfl
  · rw [saved_append, h.saved, Progress.rows_empty]
    rfl
  · rw [closings_append, h.closings]
    rfl

theorem insert_triple (h : Untouched past)
    (henforced : ⟨.enforceModel userId (selectModel cfg request.model), .ok ()⟩ ∈ past) :
    Suite.Triple (Possible view) (Trail cfg view userId request) past ()
      (ask (.insertRun userId request.task workspace))
      (fun runId _ past => AtWork cfg view userId request runId workspace .empty past)
      (fun _ _ past => Untouched past) := by
  refine .call (fun runId _ => ?_) fun e _ => ?_
  · have hinsert : AtWork cfg view userId request runId workspace .empty
        (past ++ [⟨.insertRun userId request.task workspace, .ok runId⟩]) :=
      h.insert henforced
    exact ⟨hinsert.trail, hinsert⟩
  · have hnext := h.silent (silent_event (e := ⟨.insertRun userId request.task workspace, .error e⟩)
      rfl rfl rfl)
    exact ⟨.inl hnext, hnext⟩

/-- **The endpoint**: whatever is answered and wherever it raises, the history is a trail. -/
theorem createCodingAgentRun_triple (h : Untouched past) :
    Suite.Triple (Possible view) (Trail cfg view userId request) past ()
      (createCodingAgentRun cfg userId request) (fun _ _ _ => True) (fun _ _ _ => True) := by
  refine .bind ((untouched_triple (s := .safePath _) trivial h).mono (fun _ _ _ => id)
    fun _ _ _ _ => trivial) ?_
  rintro workspace ⟨⟩ past ⟨huntouched, -⟩
  have henforce : Suite.Triple (Possible view) (Trail cfg view userId request) past ()
      (Suite.tryExcept (ask (.enforceModel userId (selectModel cfg request.model))) refused)
      (fun _ _ past => Untouched past ∧
        ⟨.enforceModel userId (selectModel cfg request.model), .ok ()⟩ ∈ past)
      (fun _ _ _ => True) := by
    refine .tryExcept (untouched_triple (s := .enforceModel _ _) trivial huntouched) ?_ fun _ _ _ _ _ => trivial
    rintro e s ⟨⟩ past - hs
    cases e with
    | permission message =>
      obtain rfl := Option.some.inj hs
      exact .raise trivial
    | http status detail => cases hs
    | exception message committed => cases hs
  refine .bind henforce ?_
  rintro _ ⟨⟩ past ⟨huntouched, henforced⟩
  refine .bind ((insert_triple huntouched henforced).mono (fun _ _ _ => id)
    fun _ _ _ _ => trivial) ?_
  rintro runId ⟨⟩ past hwork
  refine .bind ((neutral_triple (s := .setCachedRunStatus runId "running") trivial hwork).mono
    (fun _ _ _ => id) fun _ _ _ _ => trivial) ?_
  rintro _ ⟨⟩ past ⟨hwork, -⟩
  refine .tryExcept (attempt_triple hwork) ?_ fun _ _ _ _ hs => by cases hs
  rintro e s ⟨⟩ past hending hs
  obtain rfl := Option.some.inj hs
  exact failRun_triple hending

end

end CodingAgent

end HyChat
