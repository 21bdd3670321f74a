import HyChat.Tool.Service

/-!
# Calling a tool

`wrap_tool_call` and `awrap_tool_call` claim the invocation, commit a trace span, run the tool and
record how it ended, all on one session. The claim is committed on its own, before anything else
happens; what the wrapper does about an exception depends on where it comes from.

Everything a call meets is one `Circumstances`: what the service finds, which statement the
database fails, how the tool ends. A statement that fails leaves the transaction refusing all
further ones until it is rolled back. The statements before the row is looked at are those of
`_ensure_invocation`, given by what they come to.

Why circumstances and not a run. The question here is which exits of the wrapper leave a claimed
call `RUNNING`, and the wrapper's code is sequential on one database session. What others do shows
only in what the statements answer, so one record fixes those answers, and all ways the wrapper can
go are the values of the record. The theorem then is an equivalence over all of them, with the list
of conditions in `ComesToItsEnd`.

What the model keeps of the transaction. A statement that fails, and a value that does not fit its
column, break it: further statements raise until a rollback. A commit makes the row's state
committed. Both matter: the claim is committed by itself, and the span is inserted after it in a
transaction whose failure is not handled.

An `Exception` and any other `BaseException` are told apart because cancelling a task raises one of
the latter while the tool is awaited; the wrapper catches the former only, and records a failure
for it. Of the result only what reading and storing it may raise is looked at here; its contents
are the subject of the wrapper's own model, and the two are shown to agree in `Agents/OneCall`.
-/

set_option autoImplicit false

namespace HyChat

open Lib

namespace Agents

/-- What Python code raises here. -/
inductive Raised
  /-- A `PolicyViolation`, `ToolInvocationConflict` or `ToolInvocationOwnershipError` -/
  | refusal (message : String)
  /-- Any other `Exception` -/
  | exception (message : String)
  /-- A `BaseException` that is no `Exception`, such as the `CancelledError` of a task -/
  | baseException
  deriving DecidableEq

def Raised.message : Raised → String
  | .refusal m => m
  | .exception m => m
  | .baseException => ""

/-- The statements of a call, in the order of the source. -/
inductive Site
  | settle
  | startUpdate
  | startCommit
  | startGet
  | selectAgain
  | traceInsert
  | traceRefresh
  | completeUpdate
  | finishCommit
  | failUpdate
  | failCommit
  deriving DecidableEq

structure ToolCallRequest where
  userId : Option String
  toolCallId : String
  name : String
  threadId : Option String

/-- A row of `trace_spans`, as far as the wrapper writes it. -/
structure ToolSpan where
  userId : String
  conversationId : Option String
  threadId : Option String
  runId : String
  name : String
  toolName : String
  status : String
  output : Json
  errorMessage : Option String
  deriving DecidableEq

/-- The widths of the columns. -/
def ToolSpan.fits (span : ToolSpan) : Bool :=
  span.runId.length ≤ 64 && span.name.length ≤ 200 && span.toolName.length ≤ 128 &&
    span.threadId.all fun id => id.length ≤ 64

/-- The request's values are short enough for a span. -/
def ToolCallRequest.fitsSpan (request : ToolCallRequest) : Bool :=
  request.toolCallId.length ≤ 64 && ("tool:" ++ request.name).length ≤ 200 &&
    request.name.length ≤ 128 && request.threadId.all fun id => id.length ≤ 64

structure Circumstances where
  request : ToolCallRequest
  /-- The committed row of the invocation before the call -/
  before : Option ToolInvocation
  /-- What `enforce_tool` raises -/
  enforceTool : Option String
  /-- The row `_ensure_invocation` returns, once its payload has been compared, or the exception -/
  ensured : Except Raised ToolInvocation
  /-- Whether the conditional UPDATE of the claim finds the row as it was read -/
  wins : Bool
  /-- What the SELECT after a lost race finds -/
  winner : Option ToolInvocation
  now : Nat
  /-- The statements the database fails -/
  fails : Site → Bool
  /-- How the tool ends -/
  handler : Option Raised
  /-- `_tool_error_message(result)`, or the exception of reading the result -/
  errorMessage : Except String (Option String)
  /-- `serialize_tool_result(result)` -/
  output : Except String Json
  /-- `safe_json` of the result's content, for the span -/
  spanOutput : Except String Json

/-! ## The session -/

structure Session where
  committed : Option ToolInvocation
  /-- The version this transaction has written -/
  written : Option ToolInvocation
  /-- A statement of the transaction has failed. -/
  broken : Bool
  spans : List ToolSpan
  /-- The changed attributes of the span -/
  dirtySpan : Option ToolSpan
  /-- The claim has been committed. -/
  claimed : Bool

/-- A piece of code on the session. -/
structure Code (α : Type) where
  run : Session → Except Raised α × Session

namespace Code

variable {α β : Type}

def ret (a : α) : Code α where
  run s := (.ok a, s)

def raise (e : Raised) : Code α where
  run s := (.error e, s)

def bind (x : Code α) (f : α → Code β) : Code β where
  run s :=
    match x.run s with
    | (.ok a, s') => (f a).run s'
    | (.error e, s') => (.error e, s')

/-- Something done to the session that cannot fail -/
def modify (change : Session → Session) : Code Unit where
  run s := (.ok (), change s)

instance : Monad Code where
  pure := ret
  bind := bind

/-- `except Exception`: a `BaseException` is let through. -/
def onException (x : Code α) (handle : Raised → Code α) : Code α where
  run s :=
    match x.run s with
    | (.ok a, s') => (.ok a, s')
    | (.error .baseException, s') => (.error .baseException, s')
    | (.error e, s') => (handle e).run s'

/-- `finally` -/
def finally_ (x : Code α) (last : Session → Session) : Code α where
  run s := ((x.run s).1, last (x.run s).2)

end Code

variable (env : Circumstances)

/-- A statement that changes the session's state when the database does not fail it. -/
def execute (site : Site) (change : Session → Session) : Code Unit where
  run s :=
    if s.broken || env.fails site then (.error (.exception "database"), { s with broken := true })
    else (.ok (), change s)

def Session.rollback (s : Session) : Session :=
  { s with written := none, broken := false, dirtySpan := none }

/-- What COMMIT makes of the transaction. -/
def Session.commit (s : Session) : Session :=
  { s with
    committed := s.written <|> s.committed
    written := none
    spans := match s.dirtySpan with
      | none => s.spans
      | some span => s.spans.map fun _ => span
    dirtySpan := none }

/-- The row as the session sees it. -/
def Session.row (s : Session) : Option ToolInvocation := s.written <|> s.committed

/-- An UPDATE of the invocation if it is RUNNING. -/
def Session.finish (values : ToolInvocation → ToolInvocation) (s : Session) : Session :=
  match s.row with
  | some row => if row.status = .running then { s with written := some (values row) } else s
  | none => s

/-! ## The claim -/

/-- The `try` block of `claim_tool_invocation`; nothing when the race for the row is lost. -/
def tryClaim : Code (Option ToolInvocationClaim) :=
  match env.ensured with
  | .error e => .raise e
  | .ok invocation => do
      Code.modify fun s => { s with written := some invocation }
      if invocation.status ≠ .pending && invocation.status ≠ .approved then do
        execute env .settle Session.commit
        .ret (some (claimSnapshot invocation false))
      else if env.wins then do
        execute env .startUpdate fun s => { s with written := some (startInvocation env.now invocation) }
        execute env .startCommit fun s => { s.commit with claimed := true }
        execute env .startGet id
        .ret (some (claimSnapshot (startInvocation env.now invocation) true))
      else do
        execute env .startUpdate id
        Code.modify Session.rollback
        .ret none

/-- Its `except` clause -/
def undoClaim (e : Raised) : Code (Option ToolInvocationClaim) := do
  Code.modify Session.rollback
  .raise e

/-- The claim, or the state another session has left the invocation in -/
def claimOrWinner : Option ToolInvocationClaim → Code ToolInvocationClaim
  | some claim => .ret claim
  | none => do
      execute env .selectAgain id
      match env.winner with
      | none => .raise (.exception "工具调用状态在并发抢占后丢失")
      | some invocation => .ret (claimSnapshot invocation false)

def claimToolInvocation : Code ToolInvocationClaim := do
  let claimed ← Code.onException (tryClaim env) undoClaim
  claimOrWinner env claimed

/-! ## The wrapper -/

/-- The span of a call, with the conversation of its claim. -/
def newSpan (userId : String) (claim : ToolInvocationClaim) : ToolSpan where
  userId := userId
  conversationId := claim.conversationId
  threadId := env.request.threadId
  runId := env.request.toolCallId
  name := "tool:" ++ env.request.name
  toolName := env.request.name
  status := "running"
  output := .obj []
  errorMessage := none

/-- The span is inserted and committed, which fails when a value is too long for its column. -/
def insertSpan (span : ToolSpan) : Code Unit :=
  if span.fits then execute env .traceInsert fun s => { s.commit with spans := [span] }
  else do
    Code.modify fun s => { s with broken := true }
    .raise (.exception "value too long")

/-- `_prepare_tool_call`. The arguments have been rendered for the claim already. -/
def prepareToolCall : Code (Option ToolInvocationClaim) :=
  match env.request.userId with
  | none => .ret none
  | some userId =>
      match env.enforceTool with
      | some message => .raise (.refusal message)
      | none => do
          let claim ← claimToolInvocation env
          insertSpan env (newSpan env userId claim)
          execute env .traceRefresh id
          .ret (some claim)

def rendered {α : Type} : Except String α → Code α
  | .ok a => .ret a
  | .error e => .raise (.exception e)

/-- The values of `complete_tool_invocation`. -/
def completed (output : Json) (errorMessage : Option String) (row : ToolInvocation) : ToolInvocation :=
  { row with
    status := if truthy errorMessage then .failed else .succeeded
    output := output
    errorMessage := errorMessage
    completedAt := some env.now
    updatedAt := env.now }

/-- The values of `fail_tool_invocation`. -/
def failed (message : String) (row : ToolInvocation) : ToolInvocation :=
  { row with
    status := .failed
    errorMessage := some message
    completedAt := some env.now
    updatedAt := env.now }

/-- Attributes of the span are set; they are written with the next commit. -/
def setSpan (change : ToolSpan → ToolSpan) : Code Unit :=
  Code.modify fun s => { s with dirtySpan := s.spans.head?.map change }

/-- `complete_tool_invocation`, for a claim that executes -/
def completeToolInvocation (claim : Option ToolInvocationClaim) (errorMessage : Option String) :
    Code Unit :=
  match claim with
  | none => .ret ()
  | some claim =>
      if claim.shouldExecute then do
        let output ← rendered env.output
        execute env .completeUpdate (Session.finish (completed env output errorMessage))
      else .ret ()

/-- The span is finished, and everything committed. -/
def finishTrace (errorMessage : Option String) : Code Unit := do
  let spanOutput ← rendered env.spanOutput
  setSpan fun span => { span with
    status := if truthy errorMessage then "error" else "success"
    output := .obj [("result", spanOutput)]
    errorMessage := errorMessage }
  execute env .finishCommit Session.commit

/-- `_finish_tool_call`; the claim is given when the tool has run. -/
def finishToolCall (claim : Option ToolInvocationClaim) : Code Unit := do
  let errorMessage ← rendered env.errorMessage
  completeToolInvocation env claim errorMessage
  finishTrace env errorMessage

/-- `fail_tool_invocation`, for a claim that executes -/
def failToolInvocation (claim : ToolInvocationClaim) (message : String) : Code Unit :=
  if claim.shouldExecute then execute env .failUpdate (Session.finish (failed env message))
  else .ret ()

/-- `_fail_trace` -/
def failTrace (claim : ToolInvocationClaim) (message : String) : Code Unit := do
  failToolInvocation env claim message
  setSpan fun span => { span with status := "error", errorMessage := some message }
  execute env .failCommit Session.commit

/-- The tool runs. -/
def runHandler : Code Unit :=
  match env.handler with
  | none => .ret ()
  | some e => .raise e

/-- The `try` block, once the call is prepared. -/
def callTool : Option ToolInvocationClaim → Code Unit
  | none => do
      runHandler env
      let _ ← rendered env.errorMessage
      .ret ()
  | some claim =>
      if claim.shouldExecute then do
        runHandler env
        finishToolCall env (some claim)
      else finishToolCall env none

/-- The failure is recorded, if there is a claim. -/
def recordFailure (claim : Option ToolInvocationClaim) (message : String) : Code Unit :=
  match claim with
  | none => .ret ()
  | some claim => failTrace env claim message

/-- A refusal is answered with a message. -/
def answerFailure : Raised → Code Unit
  | .refusal _ => .ret ()
  | e => .raise e

/-- The `except` clauses -/
def handleFailure (claim : Option ToolInvocationClaim) (e : Raised) : Code Unit := do
  recordFailure env claim e.message
  answerFailure e

/-- The wrapper. Until `_prepare_tool_call` has returned there is no session to record a failure
    on. -/
def wrapped : Code Unit where
  run s :=
    match (prepareToolCall env).run s with
    | (.error (.refusal _), s') => (.ok (), s'.rollback)
    | (.error e, s') => (.error e, s'.rollback)
    | (.ok claim, s') =>
        ((callTool env claim).onException (handleFailure env claim)).finally_ Session.rollback
          |>.run s'

def start : Session := ⟨env.before, none, false, [], none, false⟩

/-- `wrap_tool_call` -/
def wrapToolCall : Except Raised Unit × Session := (wrapped env).run (start env)

/-- `awrap_tool_call`, which awaits the tool; the task may be cancelled there. -/
def awrapToolCall : Except Raised Unit × Session := (wrapped env).run (start env)

/-! ## Finalised calls -/

/-- The committed invocation has ended. -/
def Session.Finalised (s : Session) : Prop :=
  ∃ row, s.committed = some row ∧ (row.status = .succeeded ∨ row.status = .failed)

/-- The failure of a call can be recorded. -/
def RecordsFailure : Prop := env.fails .failUpdate = false ∧ env.fails .failCommit = false

/-- The result of a call can be recorded. An exception of reading the result is a failure of the
    call; one that comes after the UPDATE is recorded on top of it. -/
def RecordsResult : Prop :=
  match env.errorMessage, env.output, env.spanOutput with
  | .ok _, .ok _, .ok _ => env.fails .completeUpdate = false ∧ env.fails .finishCommit = false
  | .ok _, .ok _, .error _ => env.fails .completeUpdate = false ∧ RecordsFailure env
  | _, _, _ => RecordsFailure env

/-- The tool does not end with a `BaseException`, and what it did can be recorded. -/
def HandlerRecorded : Prop :=
  match env.handler with
  | none => RecordsResult env
  | some .baseException => False
  | some _ => RecordsFailure env

/-- The call comes to its end: the row is read back, the span is stored, and the tool's end is
    recorded. -/
structure ComesToItsEnd : Prop where
  get : env.fails .startGet = false
  fits : env.request.fitsSpan = true
  insert : env.fails .traceInsert = false
  refresh : env.fails .traceRefresh = false
  handler : HandlerRecorded env

/-! ## How a piece of code ends -/

namespace Code

variable {α β : Type} {x : Code α} {f : α → Code β} {s s' : Session}

/-- What follows a piece of code that has ended normally. -/
theorem bind_ok {a : α} (h : x.run s = (.ok a, s')) : (x >>= f).run s = (f a).run s' := by
  show (Code.bind x f).run s = (f a).run s'
  simp only [Code.bind, h]

theorem bind_modify {change : Session → Session} {g : Unit → Code β} :
    (modify change >>= g).run s = (g ()).run (change s) := rfl

theorem bind_error {e : Raised} (h : x.run s = (.error e, s')) : (x >>= f).run s = (.error e, s') := by
  show (Code.bind x f).run s = (.error e, s')
  simp only [Code.bind, h]

theorem onException_ok {handle : Raised → Code α} {a : α} (h : x.run s = (.ok a, s')) :
    (x.onException handle).run s = (.ok a, s') := by
  simp only [onException, h]

theorem onException_base {handle : Raised → Code α} (h : x.run s = (.error .baseException, s')) :
    (x.onException handle).run s = (.error .baseException, s') := by
  simp only [onException, h]

theorem onException_error {handle : Raised → Code α} {e : Raised} (h : x.run s = (.error e, s'))
    (he : e ≠ .baseException) : (x.onException handle).run s = (handle e).run s' := by
  simp only [onException, h]

/-- The code claims nothing. -/
def KeepsClaimed (x : Code α) : Prop := ∀ s, (x.run s).2.claimed = s.claimed

/-- Two pieces of code that claim nothing, one after the other. -/
theorem KeepsClaimed.bind (hx : KeepsClaimed x) (hf : ∀ a, KeepsClaimed (f a)) :
    KeepsClaimed (x >>= f) := by
  intro s
  rcases hr : x.run s with ⟨r, s'⟩
  have hs : s'.claimed = s.claimed := by
    have hk := hx s
    rw [hr] at hk
    exact hk
  cases r with
  | ok a => rw [bind_ok hr, hf a s', hs]
  | error e => rw [bind_error hr, hs]

theorem KeepsClaimed.onException {handle : Raised → Code α} (hx : KeepsClaimed x)
    (hh : ∀ e, KeepsClaimed (handle e)) : KeepsClaimed (x.onException handle) := by
  intro s
  rcases hr : x.run s with ⟨r, s'⟩
  have hs : s'.claimed = s.claimed := by
    have hk := hx s
    rw [hr] at hk
    exact hk
  cases r with
  | ok a => rw [onException_ok hr, hs]
  | error e =>
    by_cases he : e = .baseException
    · subst he
      rw [onException_base hr, hs]
    · rw [onException_error hr he, hh e s', hs]

theorem keepsClaimed_ret (a : α) : KeepsClaimed (ret a) := by
  intro s
  rfl

theorem keepsClaimed_modify {change : Session → Session}
    (h : ∀ s, (change s).claimed = s.claimed) : KeepsClaimed (modify change) := by
  intro s
  exact h s

theorem keepsClaimed_raise (e : Raised) : KeepsClaimed (raise e : Code α) := by
  intro s
  rfl

end Code

open Code

theorem execute_ok {env : Circumstances} {site : Site} {change : Session → Session} {s : Session}
    (hs : s.broken = false) (h : env.fails site = false) :
    (execute env site change).run s = (.ok (), change s) := by
  simp only [execute, hs, h]
  rfl

theorem execute_fails {env : Circumstances} {site : Site} {change : Session → Session} {s : Session}
    (h : env.fails site = true) :
    (execute env site change).run s = (.error (.exception "database"), { s with broken := true }) := by
  simp only [execute, h, Bool.or_true]
  rfl

theorem bind_execute_ok {α : Type} {env : Circumstances} {site : Site}
    {change : Session → Session} {f : Unit → Code α} {s : Session} (h : env.fails site = false)
    (hs : s.broken = false) :
    (execute env site change >>= f).run s = (f ()).run (change s) :=
  bind_ok (execute_ok hs h)

theorem bind_execute_fails {α : Type} {env : Circumstances} {site : Site}
    {change : Session → Session} {f : Unit → Code α} {s : Session} (h : env.fails site = true) :
    (execute env site change >>= f).run s =
      (.error (.exception "database"), { s with broken := true }) :=
  bind_error (execute_fails h)

theorem execute_broken {env : Circumstances} {site : Site} {change : Session → Session} {s : Session}
    (hs : s.broken = true) :
    (execute env site change).run s = (.error (.exception "database"), s) := by
  obtain ⟨committed, written, broken, spans, dirtySpan, claimed⟩ := s
  cases hs
  rfl

theorem keepsClaimed_execute (site : Site) {change : Session → Session}
    (h : ∀ s, (change s).claimed = s.claimed) : KeepsClaimed (execute env site change) := by
  intro s
  simp only [execute]
  split
  · rfl
  · exact h s

theorem keepsClaimed_rendered {α : Type} (x : Except String α) : KeepsClaimed (rendered x) := by
  cases x with
  | ok a => exact keepsClaimed_ret a
  | error e => exact keepsClaimed_raise _

theorem keepsClaimed_setSpan (change : ToolSpan → ToolSpan) : KeepsClaimed (setSpan change) := by
  intro s
  rfl

theorem Session.finish_claimed (values : ToolInvocation → ToolInvocation) (s : Session) :
    (s.finish values).claimed = s.claimed := by
  unfold Session.finish
  split
  · split
    · rfl
    · rfl
  · rfl

theorem keepsClaimed_runHandler : KeepsClaimed (runHandler env) := by
  unfold runHandler
  split
  · exact keepsClaimed_ret _
  · exact keepsClaimed_raise _

theorem keepsClaimed_finishToolCall (claim : Option ToolInvocationClaim) :
    KeepsClaimed (finishToolCall env claim) := by
  apply KeepsClaimed.bind (keepsClaimed_rendered _)
  intro errorMessage
  apply KeepsClaimed.bind
  · unfold completeToolInvocation
    cases claim with
    | none => exact keepsClaimed_ret _
    | some claim =>
      dsimp only
      split
      · apply KeepsClaimed.bind (keepsClaimed_rendered _)
        intro output
        exact keepsClaimed_execute env .completeUpdate (Session.finish_claimed _)
      · exact keepsClaimed_ret _
  · intro u
    apply KeepsClaimed.bind (keepsClaimed_rendered _)
    intro spanOutput
    apply KeepsClaimed.bind (keepsClaimed_setSpan _)
    intro v
    exact keepsClaimed_execute env .finishCommit fun _ => rfl

theorem keepsClaimed_failTrace (claim : ToolInvocationClaim) (message : String) :
    KeepsClaimed (failTrace env claim message) := by
  apply KeepsClaimed.bind
  · unfold failToolInvocation
    split
    · exact keepsClaimed_execute env .failUpdate (Session.finish_claimed _)
    · exact keepsClaimed_ret _
  · intro u
    apply KeepsClaimed.bind (keepsClaimed_setSpan _)
    intro v
    exact keepsClaimed_execute env .failCommit fun _ => rfl

/-- Running the tool claims nothing. -/
theorem keepsClaimed_callTool (claim : Option ToolInvocationClaim) :
    KeepsClaimed (callTool env claim) := by
  cases claim with
  | none =>
    apply KeepsClaimed.bind (keepsClaimed_runHandler env)
    intro u
    apply KeepsClaimed.bind (keepsClaimed_rendered _)
    intro m
    exact keepsClaimed_ret _
  | some claim =>
    simp only [callTool]
    split
    · apply KeepsClaimed.bind (keepsClaimed_runHandler env)
      intro u
      exact keepsClaimed_finishToolCall env _
    · exact keepsClaimed_finishToolCall env _

theorem keepsClaimed_handleFailure (claim : Option ToolInvocationClaim) (e : Raised) :
    KeepsClaimed (handleFailure env claim e) := by
  apply KeepsClaimed.bind
  · cases claim with
    | none => exact keepsClaimed_ret _
    | some claim => exact keepsClaimed_failTrace env claim _
  · intro u
    cases e with
    | refusal m => exact keepsClaimed_ret _
    | exception m => exact keepsClaimed_raise _
    | baseException => exact keepsClaimed_raise _

/-! ## The claim's outcome -/

/-- The claim is committed, and nothing else has happened since. -/
structure Session.Running (row : ToolInvocation) (s : Session) : Prop where
  committed : s.committed = some row
  status : row.status = .running
  written : s.written = none
  broken : s.broken = false

/-- How the `try` block of the claim can end. -/
inductive ClaimEnds (result : Except Raised (Option ToolInvocationClaim)) (s : Session) : Prop
  | unclaimed (h : s.claimed = false)
  | lost (e : Raised) (row : ToolInvocation) (hget : env.fails .startGet = true)
      (hresult : result = .error e) (he : e ≠ .baseException) (hcommitted : s.committed = some row)
      (hstatus : row.status = .running)
  | started (claim : ToolInvocationClaim) (row : ToolInvocation) (hget : env.fails .startGet = false)
      (hresult : result = .ok (some claim)) (hclaim : claim.shouldExecute = true)
      (hrunning : s.Running row)

/-- Every way the claim's `try` block can end. -/
theorem tryClaim_ends {s : Session} (hb : s.broken = false) (hc : s.claimed = false) :
    ClaimEnds env ((tryClaim env).run s).1 ((tryClaim env).run s).2 := by
  cases he : env.ensured with
  | error e =>
    apply ClaimEnds.unclaimed
    simp only [tryClaim, he]
    exact hc
  | ok invocation =>
    simp only [tryClaim, he]
    rw [bind_modify]
    by_cases hstatus : (invocation.status ≠ .pending && invocation.status ≠ .approved) = true
    · apply ClaimEnds.unclaimed
      rw [if_pos hstatus]
      have hkeeps : KeepsClaimed (do
          execute env .settle Session.commit
          .ret (some (claimSnapshot invocation false))) := by
        apply KeepsClaimed.bind
        · exact keepsClaimed_execute env .settle fun _ => rfl
        · exact fun _ => keepsClaimed_ret _
      rw [hkeeps]
      exact hc
    · rw [if_neg hstatus]
      by_cases hwins : env.wins = true
      · rw [if_pos hwins]
        by_cases hupdate : env.fails .startUpdate = true
        · apply ClaimEnds.unclaimed
          rw [bind_execute_fails hupdate]
          exact hc
        rw [bind_execute_ok (Bool.eq_false_iff.mpr hupdate)]
        swap
        · exact hb
        by_cases hcommit : env.fails .startCommit = true
        · apply ClaimEnds.unclaimed
          rw [bind_execute_fails hcommit]
          exact hc
        rw [bind_execute_ok (Bool.eq_false_iff.mpr hcommit)]
        swap
        · exact hb
        by_cases hget : env.fails .startGet = true
        · rw [bind_execute_fails hget]
          exact ClaimEnds.lost _ (startInvocation env.now invocation) hget rfl Raised.noConfusion
            rfl rfl
        have hget' := Bool.eq_false_iff.mpr hget
        rw [bind_execute_ok hget']
        swap
        · exact hb
        exact ClaimEnds.started _ (startInvocation env.now invocation) hget' rfl rfl
          ⟨rfl, rfl, rfl, hb⟩
      · apply ClaimEnds.unclaimed
        rw [if_neg hwins]
        have hkeeps : KeepsClaimed (do
            execute env .startUpdate id
            Code.modify Session.rollback
            (.ret none : Code (Option ToolInvocationClaim))) := by
          apply KeepsClaimed.bind
          · exact keepsClaimed_execute env .startUpdate fun _ => rfl
          intro u
          apply KeepsClaimed.bind
          · exact keepsClaimed_modify fun _ => rfl
          · exact fun _ => keepsClaimed_ret _
        rw [hkeeps]
        exact hc

theorem keepsClaimed_claimOrWinner (claimed : Option ToolInvocationClaim) :
    KeepsClaimed (claimOrWinner env claimed) := by
  cases claimed with
  | some claim => exact keepsClaimed_ret _
  | none =>
    apply KeepsClaimed.bind (keepsClaimed_execute env .selectAgain fun _ => rfl)
    intro u
    split
    · exact keepsClaimed_raise _
    · exact keepsClaimed_ret _

/-- Nothing is claimed after the `try` block. -/
theorem claimToolInvocation_claimed (s : Session) :
    ((claimToolInvocation env).run s).2.claimed = ((tryClaim env).run s).2.claimed := by
  rcases hr : (tryClaim env).run s with ⟨r, s'⟩
  unfold claimToolInvocation
  cases r with
  | ok claimed =>
    rw [bind_ok (onException_ok hr)]
    exact keepsClaimed_claimOrWinner env claimed s'
  | error e =>
    by_cases he : e = .baseException
    · subst he
      rw [bind_error (onException_base hr)]
    · have hu : (undoClaim e).run s' = (.error e, s'.rollback) := rfl
      rw [← onException_error hr he] at hu
      rw [bind_error hu]
      rfl

/-! ## Recording how a call ended -/

/-- A row the wrapper's transaction may have ended already -/
def Ends (row : ToolInvocation) : Prop :=
  row.status = .running ∨ row.status = .succeeded ∨ row.status = .failed

theorem not_finalised_of_running {s : Session} {row : ToolInvocation} (hc : s.committed = some row)
    (hs : row.status = .running) : ¬s.Finalised := by
  rintro ⟨row', hc', hs'⟩
  rw [hc] at hc'
  cases hc'
  rw [hs] at hs'
  rcases hs' with hs' | hs'
  · cases hs'
  · cases hs'

theorem rollback_finalised (s : Session) : s.rollback.Finalised ↔ s.Finalised := Iff.rfl

theorem completed_ends (output : Json) (errorMessage : Option String) (row : ToolInvocation) :
    (completed env output errorMessage row).status = .succeeded ∨
      (completed env output errorMessage row).status = .failed := by
  by_cases h : truthy errorMessage = true
  · exact .inr (if_pos h)
  · exact .inl (if_neg h)

/-- Once a statement has failed, the failure is not recorded either. -/
theorem failTrace_broken {claim : ToolInvocationClaim} (hclaim : claim.shouldExecute = true)
    {s : Session} (hs : s.broken = true) (message : String) :
    (failTrace env claim message).run s = (.error (.exception "database"), s) := by
  unfold failTrace failToolInvocation
  rw [if_pos hclaim]
  exact bind_error (execute_broken hs)

/-- The failure is recorded when the database takes both statements. A row that the transaction
    has ended before stays as it is. -/
theorem failTrace_finalised {claim : ToolInvocationClaim} (hclaim : claim.shouldExecute = true)
    {s : Session} (hs : s.broken = false) {row : ToolInvocation} (hrow : s.row = some row)
    (hends : Ends row) (hopen : ¬s.Finalised) (message : String) :
    ((failTrace env claim message).run s).2.Finalised ↔ RecordsFailure env := by
  unfold failTrace failToolInvocation
  rw [if_pos hclaim]
  by_cases hupdate : env.fails .failUpdate = true
  · rw [bind_execute_fails hupdate]
    constructor
    · exact fun h => absurd h hopen
    · rintro ⟨h, -⟩
      rw [h] at hupdate
      cases hupdate
  have hupdate' := Bool.eq_false_iff.mpr hupdate
  rw [bind_execute_ok hupdate' hs, setSpan, bind_modify]
  -- the row after the UPDATE
  obtain ⟨row', hrow', hstatus, hbroken, hcommitted⟩ : ∃ row',
      (s.finish (failed env message)).row = some row' ∧
      (row'.status = .succeeded ∨ row'.status = .failed) ∧
      (s.finish (failed env message)).broken = false ∧
      (s.finish (failed env message)).committed = s.committed := by
    unfold Session.finish
    rw [hrow]
    dsimp only
    by_cases hrunning : row.status = .running
    · rw [if_pos hrunning]
      exact ⟨failed env message row, rfl, .inr rfl, hs, rfl⟩
    · rw [if_neg hrunning]
      exact ⟨row, hrow, hends.resolve_left hrunning, hs, rfl⟩
  by_cases hcommit : env.fails .failCommit = true
  · rw [execute_fails hcommit]
    constructor
    · rintro ⟨final, hfinal, hended⟩
      refine absurd ⟨final, ?_, hended⟩ hopen
      rw [← hcommitted]
      exact hfinal
    · rintro ⟨-, h⟩
      rw [h] at hcommit
      cases hcommit
  have hcommit' := Bool.eq_false_iff.mpr hcommit
  rw [execute_ok _ hcommit']
  · constructor
    · exact fun _ => ⟨hupdate', hcommit'⟩
    · exact fun _ => ⟨row', hrow', hstatus⟩
  · exact hbroken

theorem handleFailure_snd (claim : ToolInvocationClaim) (e : Raised) (s : Session) :
    ((handleFailure env (some claim) e).run s).2 = ((failTrace env claim e.message).run s).2 := by
  unfold handleFailure recordFailure
  rcases hr : (failTrace env claim e.message).run s with ⟨r, s'⟩
  cases r with
  | ok u =>
    rw [bind_ok hr]
    cases e with
    | refusal m => rfl
    | exception m => rfl
    | baseException => rfl
  | error e' => rw [bind_error hr]

/-- How `_finish_tool_call` ends: with the result committed, or with an exception, after which the
    transaction still takes statements or not. -/
inductive FinishEnds (s : Session) (row : ToolInvocation) (result : Except Raised Unit)
    (s' : Session) : Prop
  | recorded (hresult : result = .ok ()) (hends : s'.Finalised) (hcondition : RecordsResult env)
  | broken (message : String) (hresult : result = .error (.exception message))
      (hbroken : s'.broken = true) (hcommitted : s'.committed = s.committed)
      (hcondition : ¬RecordsResult env)
  | raised (message : String) (final : ToolInvocation) (hresult : result = .error (.exception message))
      (hbroken : s'.broken = false) (hcommitted : s'.committed = s.committed)
      (hrow : s'.row = some final) (hends : Ends final)
      (hcondition : RecordsResult env ↔ RecordsFailure env)

/-- Every way recording the result can end. -/
theorem finishToolCall_ends {claim : ToolInvocationClaim} (hclaim : claim.shouldExecute = true)
    {s : Session} {row : ToolInvocation} (hs : s.Running row) :
    FinishEnds env s row ((finishToolCall env (some claim)).run s).1
      ((finishToolCall env (some claim)).run s).2 := by
  have hrow : s.row = some row := by
    unfold Session.row
    rw [hs.written, hs.committed]
    rfl
  unfold finishToolCall
  cases hmessage : env.errorMessage with
  | error m =>
    rw [bind_error rfl]
    refine .raised m row rfl hs.broken rfl hrow (.inl hs.status) ?_
    unfold RecordsResult
    rw [hmessage]
  | ok errorMessage =>
    rw [bind_ok rfl]
    simp only [completeToolInvocation]
    rw [if_pos hclaim]
    cases houtput : env.output with
    | error m =>
      rw [bind_error (bind_error rfl)]
      refine .raised m row rfl hs.broken rfl hrow (.inl hs.status) ?_
      unfold RecordsResult
      rw [hmessage, houtput]
    | ok output =>
      by_cases hupdate : env.fails .completeUpdate = true
      · have hfail : (rendered (.ok output) >>= fun output => execute env .completeUpdate
            (Session.finish (completed env output errorMessage))).run s =
            (.error (.exception "database"), { s with broken := true }) := by
          rw [bind_ok rfl]
          exact execute_fails hupdate
        rw [bind_error hfail]
        refine .broken "database" rfl rfl rfl ?_
        unfold RecordsResult
        rw [hmessage, houtput]
        cases env.spanOutput with
        | error m =>
          rintro ⟨h, -⟩
          rw [h] at hupdate
          cases hupdate
        | ok spanOutput =>
          rintro ⟨h, -⟩
          rw [h] at hupdate
          cases hupdate
      have hupdate' := Bool.eq_false_iff.mpr hupdate
      have hwritten : (rendered (.ok output) >>= fun output => execute env .completeUpdate
          (Session.finish (completed env output errorMessage))).run s =
          (.ok (), { s with written := some (completed env output errorMessage row) }) := by
        rw [bind_ok rfl]
        rw [execute_ok hs.broken hupdate']
        unfold Session.finish
        rw [hrow]
        dsimp only
        rw [if_pos hs.status]
      rw [bind_ok hwritten]
      unfold finishTrace
      cases hspan : env.spanOutput with
      | error m =>
        rw [bind_error rfl]
        refine .raised m (completed env output errorMessage row) rfl hs.broken rfl rfl
          (.inr (completed_ends env output errorMessage row)) ?_
        unfold RecordsResult
        rw [hmessage, houtput, hspan]
        exact and_iff_right hupdate'
      | ok spanOutput =>
        rw [bind_ok rfl, setSpan, bind_modify]
        by_cases hcommit : env.fails .finishCommit = true
        · rw [execute_fails hcommit]
          refine .broken "database" rfl rfl rfl ?_
          unfold RecordsResult
          rw [hmessage, houtput, hspan]
          rintro ⟨-, h⟩
          rw [h] at hcommit
          cases hcommit
        have hcommit' := Bool.eq_false_iff.mpr hcommit
        rw [execute_ok _ hcommit']
        · refine .recorded rfl ⟨_, rfl, completed_ends env output errorMessage row⟩ ?_
          unfold RecordsResult
          rw [hmessage, houtput, hspan]
          exact ⟨hupdate', hcommit'⟩
        · exact hs.broken

/-! ## The call -/

theorem handleFailure_finalised {claim : ToolInvocationClaim} (hclaim : claim.shouldExecute = true)
    {s : Session} (hs : s.broken = false) {row : ToolInvocation} (hrow : s.row = some row)
    (hends : Ends row) (hopen : ¬s.Finalised) (e : Raised) :
    ((handleFailure env (some claim) e).run s).2.Finalised ↔ RecordsFailure env := by
  rw [handleFailure_snd]
  exact failTrace_finalised env hclaim hs hrow hends hopen e.message

/-- A prepared call is finalised when its end is recorded. -/
theorem callTool_finalised {claim : ToolInvocationClaim} (hclaim : claim.shouldExecute = true)
    {s : Session} {row : ToolInvocation} (hs : s.Running row) :
    (((callTool env (some claim)).onException (handleFailure env (some claim))).run s).2.Finalised ↔
      HandlerRecorded env := by
  have hrow : s.row = some row := by
    unfold Session.row
    rw [hs.written, hs.committed]
    rfl
  have hopen : ¬s.Finalised := not_finalised_of_running hs.committed hs.status
  unfold HandlerRecorded
  simp only [callTool]
  rw [if_pos hclaim]
  cases hhandler : env.handler with
  | some e =>
    have hrun : (runHandler env >>= fun _ => finishToolCall env (some claim)).run s =
        (.error e, s) := by
      unfold runHandler
      rw [hhandler]
      exact bind_error rfl
    cases e with
    | baseException =>
      rw [onException_base hrun]
      exact iff_false_intro hopen
    | refusal m =>
      rw [onException_error hrun Raised.noConfusion]
      exact handleFailure_finalised env hclaim hs.broken hrow (.inl hs.status) hopen _
    | exception m =>
      rw [onException_error hrun Raised.noConfusion]
      exact handleFailure_finalised env hclaim hs.broken hrow (.inl hs.status) hopen _
  | none =>
    have hrun : (runHandler env >>= fun _ => finishToolCall env (some claim)).run s =
        (finishToolCall env (some claim)).run s := by
      unfold runHandler
      rw [hhandler]
      exact bind_ok rfl
    rcases hfinish : (finishToolCall env (some claim)).run s with ⟨r, s'⟩
    have hend := finishToolCall_ends env hclaim hs
    rw [hfinish] at hend hrun
    cases hend with
    | recorded hresult hends hcondition =>
      cases hresult
      rw [onException_ok hrun]
      exact iff_of_true hends hcondition
    | broken message hresult hbroken hcommitted hcondition =>
      cases hresult
      rw [onException_error hrun Raised.noConfusion, handleFailure_snd,
        failTrace_broken env hclaim hbroken]
      refine iff_of_false ?_ hcondition
      exact not_finalised_of_running (hcommitted.trans hs.committed) hs.status
    | raised message final hresult hbroken hcommitted hrow' hends hcondition =>
      cases hresult
      rw [onException_error hrun Raised.noConfusion]
      dsimp only
      rw [hcondition]
      refine handleFailure_finalised env hclaim hbroken hrow' hends ?_ _
      exact not_finalised_of_running (hcommitted.trans hs.committed) hs.status

theorem newSpan_fits (userId : String) (claim : ToolInvocationClaim) :
    (newSpan env userId claim).fits = env.request.fitsSpan := rfl

/-- How `_prepare_tool_call` can end after a claim. -/
inductive PrepareEnds (result : Except Raised (Option ToolInvocationClaim)) (s : Session) : Prop
  | unclaimed (h : s.claimed = false)
  | lost (e : Raised) (row : ToolInvocation) (hresult : result = .error e)
      (hcommitted : s.committed = some row) (hstatus : row.status = .running)
      (hcondition : env.fails .startGet = true ∨ env.request.fitsSpan = false ∨
        env.fails .traceInsert = true ∨ env.fails .traceRefresh = true)
  | prepared (claim : ToolInvocationClaim) (row : ToolInvocation) (hresult : result = .ok (some claim))
      (hclaim : claim.shouldExecute = true) (hrunning : s.Running row)
      (hget : env.fails .startGet = false) (hfits : env.request.fitsSpan = true)
      (hinsert : env.fails .traceInsert = false) (hrefresh : env.fails .traceRefresh = false)

theorem keepsClaimed_insertSpan (span : ToolSpan) : KeepsClaimed (insertSpan env span) := by
  unfold insertSpan
  split
  · exact keepsClaimed_execute env .traceInsert fun _ => rfl
  · apply KeepsClaimed.bind
    · exact keepsClaimed_modify fun _ => rfl
    · exact fun _ => keepsClaimed_raise _

theorem prepareToolCall_ends {s : Session} (hb : s.broken = false) (hc : s.claimed = false) :
    PrepareEnds env ((prepareToolCall env).run s).1 ((prepareToolCall env).run s).2 := by
  unfold prepareToolCall
  cases env.request.userId with
  | none => exact .unclaimed hc
  | some userId =>
    cases env.enforceTool with
    | some message => exact .unclaimed hc
    | none =>
      dsimp only
      have hends := tryClaim_ends env hb hc
      have hclaimed := claimToolInvocation_claimed env s
      rcases htry : (tryClaim env).run s with ⟨r, s₁⟩
      rw [htry] at hends hclaimed
      cases hends with
      | unclaimed h =>
        apply PrepareEnds.unclaimed
        have hkeeps : ∀ claim, KeepsClaimed (do
            insertSpan env (newSpan env userId claim)
            execute env .traceRefresh id
            .ret (some claim)) := by
          intro claim
          apply KeepsClaimed.bind (keepsClaimed_insertSpan env _)
          intro u
          apply KeepsClaimed.bind
          · exact keepsClaimed_execute env .traceRefresh fun _ => rfl
          · exact fun _ => keepsClaimed_ret _
        rcases hclaim : (claimToolInvocation env).run s with ⟨r', s₂⟩
        rw [hclaim] at hclaimed
        cases r' with
        | ok claim =>
          rw [bind_ok hclaim, hkeeps]
          exact hclaimed.trans h
        | error e =>
          rw [bind_error hclaim]
          exact hclaimed.trans h
      | lost e row hget hresult he hcommitted hstatus =>
        cases hresult
        have hundo : (undoClaim e).run s₁ = (.error e, s₁.rollback) := rfl
        rw [← onException_error htry he] at hundo
        have hclaim : (claimToolInvocation env).run s = (.error e, s₁.rollback) := bind_error hundo
        rw [bind_error hclaim]
        exact .lost e row rfl hcommitted hstatus (.inl hget)
      | started claim row hget hresult hexecute hrunning =>
        cases hresult
        have hclaim : (claimToolInvocation env).run s = (.ok claim, s₁) :=
          bind_ok (onException_ok htry)
        rw [bind_ok hclaim]
        unfold insertSpan
        rw [newSpan_fits]
        by_cases hfits : env.request.fitsSpan = true
        · rw [if_pos hfits]
          by_cases hinsert : env.fails .traceInsert = true
          · rw [bind_execute_fails hinsert]
            exact .lost _ row rfl hrunning.committed hrunning.status (.inr (.inr (.inl hinsert)))
          have hinsert' := Bool.eq_false_iff.mpr hinsert
          rw [bind_execute_ok hinsert' hrunning.broken]
          have hcommitted : s₁.commit.committed = some row := by
            unfold Session.commit
            rw [hrunning.written]
            exact hrunning.committed
          by_cases hrefresh : env.fails .traceRefresh = true
          · rw [bind_execute_fails hrefresh]
            exact .lost _ row rfl hcommitted hrunning.status (.inr (.inr (.inr hrefresh)))
          have hrefresh' := Bool.eq_false_iff.mpr hrefresh
          rw [bind_execute_ok hrefresh']
          · exact .prepared claim row rfl hexecute
              ⟨hcommitted, hrunning.status, rfl, hrunning.broken⟩ hget hfits hinsert' hrefresh'
          · exact hrunning.broken
        · rw [if_neg hfits, bind_error rfl]
          exact .lost _ row rfl hrunning.committed hrunning.status
            (.inr (.inl (Bool.eq_false_iff.mpr hfits)))

/-- **A claimed call is finalised exactly when it comes to its end.** -/
theorem wrapped_finalised (h : ((wrapped env).run (start env)).2.claimed = true) :
    ((wrapped env).run (start env)).2.Finalised ↔ ComesToItsEnd env := by
  have hends := prepareToolCall_ends (s := start env) env rfl rfl
  rcases hprepare : (prepareToolCall env).run (start env) with ⟨r, s⟩
  rw [hprepare] at hends
  cases hends with
  | unclaimed hc =>
    -- nothing after the preparation claims the invocation
    exfalso
    have hkeeps : ((wrapped env).run (start env)).2.claimed = s.claimed := by
      simp only [wrapped, hprepare]
      cases r with
      | error e =>
        cases e with
        | refusal m => rfl
        | exception m => rfl
        | baseException => rfl
      | ok claim =>
        exact KeepsClaimed.onException (keepsClaimed_callTool env claim)
          (keepsClaimed_handleFailure env claim) s
    rw [hkeeps, hc] at h
    cases h
  | lost e row hresult hcommitted hstatus hcondition =>
    cases hresult
    have hfinal : ((wrapped env).run (start env)).2 = s.rollback := by
      simp only [wrapped, hprepare]
      cases e with
      | refusal m => rfl
      | exception m => rfl
      | baseException => rfl
    rw [hfinal, rollback_finalised]
    refine iff_of_false (not_finalised_of_running hcommitted hstatus) ?_
    intro hend
    rcases hcondition with hget | hfits | hinsert | hrefresh
    · rw [hend.get] at hget
      cases hget
    · rw [hend.fits] at hfits
      cases hfits
    · rw [hend.insert] at hinsert
      cases hinsert
    · rw [hend.refresh] at hrefresh
      cases hrefresh
  | prepared claim row hresult hclaim hrunning hget hfits hinsert hrefresh =>
    cases hresult
    have hfinal : ((wrapped env).run (start env)).2 =
        (((callTool env (some claim)).onException (handleFailure env (some claim))).run s).2.rollback
        := by
      simp only [wrapped, hprepare]
      rfl
    rw [hfinal, rollback_finalised, callTool_finalised env hclaim hrunning]
    constructor
    · exact fun hhandler => ⟨hget, hfits, hinsert, hrefresh, hhandler⟩
    · exact fun hend => hend.handler

/-- **Claimed calls are finalised.** After either wrapper has ended, in whatever way, a call it has
    claimed is `SUCCEEDED` or `FAILED` exactly when it has come to its end. -/
theorem claimed_calls_finalised :
    ((wrapToolCall env).2.claimed = true →
      ((wrapToolCall env).2.Finalised ↔ ComesToItsEnd env)) ∧
    ((awrapToolCall env).2.claimed = true →
      ((awrapToolCall env).2.Finalised ↔ ComesToItsEnd env)) := by
  constructor
  · exact fun h => wrapped_finalised env h
  · exact fun h => wrapped_finalised env h

/-- An undisturbed call of an ungated tool -/
def plainCall (toolCallId : String) : Circumstances where
  request := ⟨some "u", toolCallId, "recall", some "t"⟩
  before := none
  enforceTool := none
  ensured := .ok {
    id := 1, userId := "u", conversationId := none, threadId := some "t", runtimeRunId := none
    toolCallId := toolCallId, idempotencyKey := "k", toolName := "recall"
    effectiveToolName := "recall", requestedInput := .obj [], effectiveInput := .obj []
    output := .obj [], status := .pending, attemptCount := 0, errorMessage := none
    startedAt := none, completedAt := none, createdAt := 0, updatedAt := 0 }
  wins := true
  winner := none
  now := 0
  fails _ := false
  handler := none
  errorMessage := .ok none
  output := .ok (.obj [])
  spanOutput := .ok (.obj [])

theorem plainCall_finalised : (wrapToolCall (plainCall "call-1")).2.Finalised ∧
    (awrapToolCall (plainCall "call-1")).2.Finalised := by
  have hend : ComesToItsEnd (plainCall "call-1") := ⟨rfl, by decide, rfl, rfl, rfl, rfl⟩
  have h := claimed_calls_finalised (plainCall "call-1")
  exact ⟨(h.1 (by decide)).mpr hend, (h.2 (by decide)).mpr hend⟩

/-- The task is cancelled while it awaits the tool. -/
def cancelledCall : Circumstances := { plainCall "call-1" with handler := some .baseException }

/-- The id of the call is within its own bound, and too long for the span's `run_id`. -/
def overlongCall : Circumstances := plainCall (String.ofList (List.replicate 65 'c'))

/-- Two exits that leave the call `RUNNING`: a task that is cancelled, and an id that is too
long. -/
theorem claimed_calls_stay_running :
    ((awrapToolCall cancelledCall).2.claimed = true ∧
      (awrapToolCall cancelledCall).2.committed.map ToolInvocation.status = some .running) ∧
    ((wrapToolCall overlongCall).2.claimed = true ∧
      (wrapToolCall overlongCall).2.committed.map ToolInvocation.status = some .running) := by
  decide

end Agents

end HyChat
