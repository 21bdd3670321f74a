import HyChat.Memory.Extraction

/-!
# Remembering the user's name

`remember_from_messages` and the reading of the memory map, for the one key the service writes, and
the model calls that go through them. A call remembers what its messages say, reads the map, which
may learn again from old traces, and leaves a trace of its own.

The sessions of the agent do not flush before they query. A row that is marked for deletion is
therefore still found by the query of the upsert, and what the upsert writes to it is lost when the
commit deletes it.
-/

set_option autoImplicit false

namespace HyChat

open Lib

namespace Memory

/-- The row of `user_memories` with the key `profile.name`. -/
structure UserMemory where
  memoryValue : String
  sourceThreadId : Option String
  deriving DecidableEq

/-- A trace of a model call: its thread and the preview of its messages. -/
structure TraceSpan where
  threadId : Option String
  messages : List Message
  deriving DecidableEq

/-! ## `remember_from_messages` -/

/-- The loop over the messages: the last name, and whether any message asks to forget. -/
def collectUpdates (messages : List Message) : Option String × Bool :=
  messages.foldl (fun acc m => (m.updates.1 <|> acc.1, acc.2 || m.updates.2)) (none, false)

/-- The name the last introducing message gives. -/
def introducedName (messages : List Message) : Option String := (collectUpdates messages).1

/-- Some message asks to forget the name. -/
def asksToForget (messages : List Message) : Bool := (collectUpdates messages).2

/-- The row as the session has it until the commit. -/
structure MemorySession where
  row : Option UserMemory
  deleted : Bool

def MemorySession.delete (s : MemorySession) : MemorySession :=
  { s with deleted := s.row.isSome }

/-- The query finds the row whether or not it is marked for deletion. -/
def MemorySession.upsert (s : MemorySession) (memoryValue : String) (sourceThreadId : Option String) :
    MemorySession :=
  match s.row with
  | some row =>
      if row.memoryValue = memoryValue ∧ row.sourceThreadId = sourceThreadId then s
      else { s with row := some ⟨memoryValue, sourceThreadId⟩ }
  | none => { s with row := some ⟨memoryValue, sourceThreadId⟩ }

def MemorySession.commit (s : MemorySession) : Option UserMemory := if s.deleted then none else s.row

/-- `remember_from_messages`: the committed row afterwards. What it returns is `asksToForget`. -/
def rememberFromMessages (row : Option UserMemory) (messages : List Message)
    (sourceThreadId : Option String) : Option UserMemory :=
  let opened : MemorySession := ⟨row, false⟩
  let afterDeletes := if asksToForget messages then opened.delete else opened
  let afterUpserts :=
    match introducedName messages with
    | some name => afterDeletes.upsert name sourceThreadId
    | none => afterDeletes
  afterUpserts.commit

/-! ## Reading the map -/

/-- The traces `backfill_memories_from_traces` reads, oldest first. -/
def latestTraces (traces : List TraceSpan) : List TraceSpan := traces.drop (traces.length - 200)

def backfillMemoriesFromTraces (row : Option UserMemory) (traces : List TraceSpan) :
    Option UserMemory :=
  (latestTraces traces).foldl (fun row trace => rememberFromMessages row trace.messages trace.threadId)
    row

/-- `user_memory_map`: the row it finds, which is also what is stored afterwards. -/
def userMemoryMap (row : Option UserMemory) (traces : List TraceSpan) (backfillFromTraces : Bool) :
    Option UserMemory :=
  if row.isSome || !backfillFromTraces then row else backfillMemoriesFromTraces row traces

/-! ## Model calls -/

/-- `_message_preview` -/
def messagePreview (sha256 : Sha256) (messages : List Message) : List Message :=
  (messages.drop (messages.length - 8)).map fun m =>
    ⟨m.type, safeJson sha256 2000 (toPy m.content)⟩

/-- What is stored of a user: the memory, and the traces of the model calls in the order in which
    they started. -/
structure State where
  memory : Option UserMemory
  traces : List TraceSpan

structure ModelCall where
  threadId : Option String
  messages : List Message

/-- `_append_memory_to_request`, and the trace that `_prepare_model_call` adds. -/
def State.call (sha256 : Sha256) (s : State) (c : ModelCall) : State :=
  let remembered := rememberFromMessages s.memory c.messages c.threadId
  ⟨userMemoryMap remembered s.traces (!asksToForget c.messages),
    s.traces ++ [⟨c.threadId, messagePreview sha256 c.messages⟩]⟩

def State.calls (sha256 : Sha256) (s : State) (cs : List ModelCall) : State :=
  cs.foldl (State.call sha256) s

/-! ## What one batch of messages does -/

/-- **Remembering, case by case.** -/
theorem rememberFromMessages_eq (row : Option UserMemory) (messages : List Message)
    (sourceThreadId : Option String) :
    rememberFromMessages row messages sourceThreadId =
      match introducedName messages, asksToForget messages, row with
      | some _, true, some _ => none
      | some name, _, _ => some ⟨name, sourceThreadId⟩
      | none, true, _ => none
      | none, false, row => row := by
  unfold rememberFromMessages
  cases introducedName messages with
  | none =>
    cases asksToForget messages with
    | true => cases row <;> rfl
    | false => rfl
  | some name =>
    cases row with
    | none => cases asksToForget messages <;> rfl
    | some row =>
      by_cases hsame : row.memoryValue = name ∧ row.sourceThreadId = sourceThreadId
      · obtain ⟨rfl, rfl⟩ := hsame
        cases asksToForget messages <;> simp [MemorySession.upsert, MemorySession.commit,
          MemorySession.delete]
      · cases asksToForget messages <;> simp [MemorySession.upsert, MemorySession.commit,
          MemorySession.delete, hsame]

/-- Remembering a trace can leave a name behind exactly when it introduces one and does not delete
    the row it finds, or finds a row and neither introduces nor deletes. -/
theorem isSome_rememberFromMessages (row : Option UserMemory) (messages : List Message)
    (sourceThreadId : Option String) :
    (rememberFromMessages row messages sourceThreadId).isSome =
      if (introducedName messages).isSome then !(asksToForget messages && row.isSome)
      else !asksToForget messages && row.isSome := by
  rw [rememberFromMessages_eq]
  cases introducedName messages with
  | none =>
    cases asksToForget messages with
    | true => rfl
    | false => cases row <;> rfl
  | some name =>
    cases asksToForget messages with
    | true => cases row <;> rfl
    | false => cases row <;> rfl

/-- Replaying traces, newest first, leaves nothing: the newest one that says anything asks to
    forget, and if it introduces a name as well, it finds one to delete. -/
def LeavesNothing : List TraceSpan → Bool
  | [] => true
  | t :: older =>
      if (introducedName t.messages).isSome then asksToForget t.messages && !LeavesNothing older
      else asksToForget t.messages || LeavesNothing older

theorem isSome_foldl_remember (traces : List TraceSpan) :
    (traces.foldr (fun t row => rememberFromMessages row t.messages t.threadId) none).isSome =
      !LeavesNothing traces := by
  induction traces with
  | nil => rfl
  | cons t older ih =>
    rw [List.foldr_cons, isSome_rememberFromMessages, ih]
    rw [LeavesNothing]
    cases (introducedName t.messages).isSome with
    | true => cases asksToForget t.messages <;> cases LeavesNothing older <;> rfl
    | false => cases asksToForget t.messages <;> cases LeavesNothing older <;> rfl

/-- **What an empty memory learns from the traces.** -/
theorem backfill_eq_none_iff (traces : List TraceSpan) :
    backfillMemoriesFromTraces none traces = none ↔ LeavesNothing (latestTraces traces).reverse = true := by
  have hfold : backfillMemoriesFromTraces none traces =
      (latestTraces traces).reverse.foldr
        (fun t row => rememberFromMessages row t.messages t.threadId) none := by
    rw [List.foldr_reverse]
    rfl
  have hsome := isSome_foldl_remember (latestTraces traces).reverse
  rw [← hfold] at hsome
  cases hb : backfillMemoriesFromTraces none traces with
  | none =>
    rw [hb] at hsome
    cases hl : LeavesNothing (latestTraces traces).reverse with
    | true => simp
    | false => simp [hl] at hsome
  | some row =>
    rw [hb] at hsome
    cases hl : LeavesNothing (latestTraces traces).reverse with
    | true => simp [hl] at hsome
    | false => simp

end Memory

end HyChat
