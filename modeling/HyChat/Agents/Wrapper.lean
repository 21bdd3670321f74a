import HyChat.Agents.HumanInTheLoop
import HyChat.Chat.Stream

/-!
# The wrapper of a tool call

`wrap_tool_call` as a session of its own on the tables of the tool invocations, from the claim to
the message it returns, and what it leaves behind when the tool has run: what the tool has returned
goes through `serialize_tool_result` to the row of the invocation.

The tool is the message it returns, and other sessions may move while it runs. The span of the
call is its commit alone. The parts of Python's library that read and write JSON are parameters.

Why this is a second model of the wrapper. The one in `Agents/ToolCall` fixes what the statements
answer and is about every exit; here the statements run on the shared tables among other sessions,
and what is followed is the text of the result. `Agents/OneCall` relates the two.

What is proved here is about the first call: whatever others do, when it returns the tool's message
the result is on a committed row, provided the update that finishes the invocation has found the
row running. The proviso is there because the other sessions are arbitrary, and one of them may
have finished the row meanwhile; the result of this call is not on record then, and `Answer`
carries the flag to say so.

The stages of the proof follow the code: a claim held (`Holding`), the result written and not
committed (`Written`), the result committed (`OnRecord`), the transaction ended (`Ended`). Each is
stable under the steps of the others, and each statement leads from one to the next.
-/

set_option autoImplicit false

namespace HyChat

open Lib

namespace Replay

/-! ## Messages -/

inductive MessageStatus
  | success
  | error
  deriving DecidableEq

def MessageStatus.text : MessageStatus → String
  | .success => "success"
  | .error => "error"

/-- A message of a tool, as far as the wrapper reads and writes it. -/
structure ToolMessage where
  content : Json
  toolCallId : String
  name : Option String
  status : MessageStatus

/-- What Python's library does with JSON texts. -/
structure Python where
  loads : String → Json.Loaded
  /-- `str` of a value that is no string -/
  str : Json → String
  /-- `json.dumps(value, ensure_ascii=False)` -/
  dumps : Json → String

/-- A call of the wrapper. `violation` is what `enforce_tool` raises, `uuid` what `uuid4` draws. -/
structure WrappedCall where
  userId : Option String
  threadId : Option String
  runtimeRunId : Option String
  toolCall : ToolCallItem
  violation : Option String
  uuid : String

variable (py : Python)

def Python.text : Json → String
  | .str s => s
  | value => py.str value

/-- `parsed.get("error")`, if `parsed` is a mapping and the value is truthy -/
def reportedError : Json → Option Json
  | .obj fields => (fields.lookup "error").filter Chat.truthy
  | _ => none

/-- A string is decoded when it can be; any other content is as it is. -/
def parsedContent : Json → Except String Json
  | .str s =>
      match py.loads s with
      | .value parsed => .ok parsed
      | .decodeError => .ok (.str s)
      | .raised message => .error message
  | content => .ok content

/-- `str(content)[:2_000] or "Tool call failed"` -/
def failureText (content : Json) : String :=
  orDefault (some (String.ofList ((py.text content).toList.take 2000))) "Tool call failed"

/-- `_tool_error_message` -/
def toolErrorMessage (result : ToolMessage) : Except String (Option String) :=
  match parsedContent py result.content with
  | .error message => .error message
  | .ok parsed =>
      match reportedError parsed with
      | some value => .ok (some (py.text value))
      | none =>
          if result.status = .error then .ok (some (failureText py result.content)) else .ok none

/-- `_tool_failure_message` -/
def toolFailureMessage (call : WrappedCall) (message : String) : ToolMessage where
  content := .str (py.dumps (.obj [("error", .str message)]))
  toolCallId := orDefault call.toolCall.id call.uuid
  name := some (orDefault call.toolCall.name "unknown")
  status := .success

def statusValue : ToolInvocationStatus → String
  | .pending => "pending"
  | .pendingApproval => "pending_approval"
  | .approved => "approved"
  | .running => "running"
  | .succeeded => "succeeded"
  | .failed => "failed"
  | .rejected => "rejected"

/-- `state_messages.get(..)` -/
def stateMessage : ToolInvocationStatus → String
  | .pendingApproval => "工具调用仍在等待人工审批"
  | .rejected => "工具调用已被用户拒绝"
  | .running => "相同工具调用已在执行中，已阻止重复执行"
  | status => "工具调用当前状态为 " ++ statusValue status ++ "，不能重复执行"

/-- `claim.output.get("content")` -/
def storedContent : Json → Json
  | .obj fields => (fields.lookup "content").getD .null
  | _ => .null

/-- What is stored as it is, when a message can have it for its content -/
def reusedContent (claim : ToolInvocationClaim) : Json :=
  match storedContent claim.output with
  | .null => .str (py.dumps (.obj [("error",
      .str (orDefault claim.errorMessage "工具调用已结束，但没有可复用的输出"))]))
  | .str s => .str s
  | .arr xs => .arr xs
  | content => .str (py.dumps content)

/-- `_existing_invocation_message` -/
def existingInvocationMessage (call : WrappedCall) (claim : ToolInvocationClaim) : ToolMessage :=
  if claim.status = .succeeded ∨ claim.status = .failed then
    { content := reusedContent py claim
      toolCallId := orDefault call.toolCall.id claim.toolCallId
      name := some (orDefault call.toolCall.name claim.toolName)
      status := if claim.status = .failed then .error else .success }
  else toolFailureMessage py call (stateMessage claim.status)

/-! ## The wrapper -/

/-- How a call of the wrapper ends: its message, whether the tool has run, and whether the update
    that finishes the invocation found it running, which the source does not ask. -/
structure Answer where
  message : ToolMessage
  handlerRan : Bool
  recorded : Bool

/-- The attributes `serialize_tool_result` reads -/
def ToolMessage.result (message : ToolMessage) : ToolResult :=
  ⟨toPy message.content, some message.status.text, message.name⟩

variable (sha256 : Sha256)

/-- The values of `complete_tool_invocation` -/
def completed (message : ToolMessage) (errorMessage : Option String) (now : Nat)
    (row : ToolInvocation) : ToolInvocation :=
  { row with
    status := if truthy errorMessage then .failed else .succeeded
    output := serializeToolResult sha256 message.result
    errorMessage := errorMessage
    completedAt := some now
    updatedAt := now }

/-- `complete_tool_invocation`, and whether its update has found the row -/
def completeInvocation (claim : ToolInvocationClaim) (message : ToolMessage)
    (errorMessage : Option String) : Db Bool := do
  let now ← perform .utcnow
  let rowcount ← perform (.updateInvocation claim.invocationId (fun row => row.status = .running)
    (completed sha256 message errorMessage now))
  pure (decide (rowcount = 1))

/-- The exception of reading a result, if there is one -/
def readResult {α : Type} : Except String α → Db α
  | .ok a => pure a
  | .error message => throw (.runtimeError message)

/-- `_finish_tool_call`; the claim is given when the tool has run. -/
def finishToolCall (message : ToolMessage) (claim : Option ToolInvocationClaim) : Db Bool := do
  let errorMessage ← readResult (toolErrorMessage py message)
  let recorded ← match claim with
    | some claim => completeInvocation sha256 claim message errorMessage
    | none => pure false
  perform .commit
  pure recorded

/-- `_fail_trace` -/
def failTrace (claim : ToolInvocationClaim) (message : String) : Db Unit := do
  if claim.shouldExecute then failToolInvocation claim message
  perform .commit

/-- `_prepare_tool_call`, once the policy lets the call through: the claim, and the commit of its
    span -/
def prepareToolCall (userId : String) (call : WrappedCall) : Db ToolInvocationClaim :=
  rollbackOnError do
    let claim ← HumanInTheLoop.claimToolCall sha256 userId call.threadId call.runtimeRunId
      call.toolCall
    perform .commit
    pure claim

/-- The claim is answered from its row, or the tool runs and returns `result`. -/
def answerClaim (call : WrappedCall) (result : ToolMessage) (claim : ToolInvocationClaim) :
    Db Answer :=
  if claim.shouldExecute then do
    let recorded ← finishToolCall py sha256 result (some claim)
    pure ⟨result, true, recorded⟩
  else do
    let message := existingInvocationMessage py call claim
    let recorded ← finishToolCall py sha256 message none
    pure ⟨message, false, recorded⟩

/-- `str(exc)` -/
def errorText : PyError → String
  | .toolInvocationConflict message => message
  | .toolInvocationOwnershipError message => message
  | .approvalConflict message => message
  | .concurrentDecision => ""
  | .runtimeError message => message
  | .databaseError => "database"

/-- From the claim to the end of the session, which `db.close()` rolls back -/
def runClaim (userId : String) (call : WrappedCall) (result : ToolMessage) : Db Answer := do
  let claim ← prepareToolCall sha256 userId call
  let answer ← rollbackOnError do
    tryCatch (answerClaim py sha256 call result claim) fun e => do
      failTrace claim (errorText e)
      throw e
  perform .rollback
  pure answer

/-- The exceptions the wrapper answers with a message -/
def refusal : PyError → Option String
  | .toolInvocationConflict message => some message
  | .toolInvocationOwnershipError message => some message
  | _ => none

/-- **`wrap_tool_call`**, for a tool that returns `result` -/
def wrapToolCall (call : WrappedCall) (result : ToolMessage) : Db Answer :=
  match call.userId with
  | none => do
      -- there is no claim and no span, and nothing to commit
      let _ ← readResult (toolErrorMessage py result)
      pure ⟨result, true, false⟩
  | some userId =>
      match call.violation with
      | some message => pure ⟨toolFailureMessage py call message, false, false⟩
      | none =>
          tryCatch (runClaim py sha256 userId call result) fun e =>
            match refusal e with
            | some message => pure ⟨toolFailureMessage py call message, false, false⟩
            | none => throw e

/-! ## What is kept of a result -/

section

variable (py : Python) (sha256 : Sha256)

/-- The claim a call of the wrapper makes for a user -/
def claimCall (userId : String) (call : WrappedCall) : Call :=
  .claimToolInvocation userId call.threadId call.runtimeRunId (orDefault call.toolCall.id "")
    (orDefault call.toolCall.name "unknown") call.toolCall.args.asMapping

/-- The row is the call's, and what the tool has returned is on it. -/
structure Keeps (userId : String) (call : WrappedCall) (result : ToolMessage)
    (errorMessage : Option String) (r : ToolInvocation) : Prop where
  presents : (claimCall userId call).Presents sha256 r
  status : r.status = if truthy errorMessage then .failed else .succeeded
  output : r.output = serializeToolResult sha256 result.result
  errorMessage : r.errorMessage = errorMessage

/-- The row of slot `n` has been started by a claim for the call. -/
def StartedFor (userId : String) (call : WrappedCall) (n : Nat) (t : Tracked) : Prop :=
  ∃ r, (t.store.slot n).invocation.committed = some r ∧ r.status.executed = true ∧
    (claimCall userId call).Presents sha256 r

/-- The session sees the result on the row of slot `n`. -/
def SeesResult (userId : String) (call : WrappedCall) (result : ToolMessage)
    (errorMessage : Option String) (i n : Nat) (t : Tracked) : Prop :=
  ∃ r, (t.store.slot n).invocation.view i = some r ∧
    Keeps sha256 userId call result errorMessage r

end

section

variable {py : Python} {sha256 : Sha256} {userId : String} {call : WrappedCall}
  {result : ToolMessage} {errorMessage : Option String} {issued : Call → Prop} {i n : Nat}
  {r r' : ToolInvocation}

theorem Keeps.terminal (h : Keeps sha256 userId call result errorMessage r) :
    r.status.terminal = true := by
  rw [h.status]
  cases truthy errorMessage <;> rfl

theorem Keeps.executed (h : Keeps sha256 userId call result errorMessage r) :
    r.status.executed = true := by
  rw [h.status]
  cases truthy errorMessage <;> rfl

/-- A finished row is left alone. -/
theorem Keeps.evolves (h : Keeps sha256 userId call result errorMessage r) (he : r.Evolves r') :
    Keeps sha256 userId call result errorMessage r' := by
  obtain ⟨ho, hm, -⟩ := he.finished h.terminal
  refine ⟨h.presents.evolves he h.executed, ?_, ho.trans h.output, hm.trans h.errorMessage⟩
  rw [he.status.eq_of_terminal h.terminal]
  exact h.status

/-- A result that is seen stays, since a finished row is frozen. -/
theorem upward_seesResult : Upward i (SeesResult sha256 userId call result errorMessage i n) := by
  rintro t t' ho ⟨r, hr, hk⟩
  obtain ⟨r', hr', he⟩ := ho.invocation n r hr
  exact ⟨r', hr', hk.evolves he⟩

theorem StartedFor.moved {j : Nat} {t t' : Tracked} (h : StartedFor sha256 userId call n t)
    (hi : Inv sha256 issued t) (hg : Guar j t t') : StartedFor sha256 userId call n t' := by
  obtain ⟨r, hr, hx, hp⟩ := h
  obtain ⟨r', hr', he⟩ := hg.later hi n r hr
  exact ⟨r', hr', he.status.executed hx, hp.evolves he hx⟩

theorem StartedFor.started {t : Tracked} (h : StartedFor sha256 userId call n t) :
    t.store.started n := by
  obtain ⟨r, hr, hx, -⟩ := h
  exact ⟨r, hr, hx⟩

theorem stable_startedFor :
    (toolParty sha256 issued i (Others i) (Guar i)).Stable (StartedFor sha256 userId call n) := by
  intro t t' hi _ hr h
  obtain ⟨j, -, hg⟩ := hr
  exact h.moved hi hg

/-! ## The first call -/

theorem stable_idle_others :
    (toolParty sha256 issued i (Others i) (Guar i)).Stable (Idle i) := stable_idle others_spec

theorem stable_ready_others :
    (toolParty sha256 issued i (Others i) (Guar i)).Stable (Ready sha256 issued i) :=
  stable_ready others_spec

/-- Finishing is a step of the row's life. -/
theorem completed_evolves (hs : r.status = .running) (now : Nat) :
    r.Evolves (completed sha256 result errorMessage now r) := by
  apply ToolInvocation.Evolves.finish hs
  cases truthy errorMessage
  · exact .inl rfl
  · exact .inr rfl

theorem completed_executed (now : Nat) :
    (completed sha256 result errorMessage now r).status.executed = true := by
  unfold completed
  cases truthy errorMessage <;> rfl

variable (sha256) (userId) (call) (issued) (i) in
/-- What a session knows while it has a claim to finish -/
def Holding (claim : ToolInvocationClaim) (t : Tracked) : Prop :=
  Ready sha256 issued i t ∧
    (claim.shouldExecute = true → StartedFor sha256 userId call claim.invocationId t)

variable (sha256) (userId) (call) (i) in
/-- What a session knows when its claim has returned -/
def Claims (claim : ToolInvocationClaim) (t : Tracked) : Prop :=
  Idle i t ∧ (claim.shouldExecute = true → StartedFor sha256 userId call claim.invocationId t)

theorem Claims.holding {claim : ToolInvocationClaim} {t : Tracked}
    (h : Claims sha256 userId call i claim t) : Holding sha256 userId call issued i claim t :=
  ⟨h.1.ready, h.2⟩

theorem stable_claims (claim : ToolInvocationClaim) :
    (toolParty sha256 issued i (Others i) (Guar i)).Stable (Claims sha256 userId call i claim) :=
  stable_idle_others.and (Party.Stable.forall fun _ => stable_startedFor)

theorem stable_holding (claim : ToolInvocationClaim) :
    (toolParty sha256 issued i (Others i) (Guar i)).Stable
      (Holding sha256 userId call issued i claim) :=
  stable_ready_others.and (Party.Stable.forall fun _ => stable_startedFor)

/-- The claim is committed, and so is its span. -/
theorem spec_prepareToolCall (hissued : issued (claimCall userId call)) :
    (toolParty sha256 issued i (Others i) (Guar i)).Spec (Idle i)
      (prepareToolCall sha256 userId call) (Claims sha256 userId call i) fun _ => Idle i := by
  unfold prepareToolCall
  refine spec_rollbackOnError quiet_guar (fun _ => stable_idle_others)
    (fun _ => stable_idle_others) ?_ fun _ _ _ _ h _ => h
  refine Party.Spec.bind (M := Claims sha256 userId call i) ?_ fun claim => ?_
  · refine (spec_claimToolInvocation others_spec quiet_guar hissued
      (ClaimFrame.basic (CallFrame.true (claimCall userId call)) others_spec
        (List.mem_singleton.mpr rfl))).conseq (fun _ _ h => ⟨h.ready, h.calm, trivial⟩) ?_
          fun _ _ _ h => h.1
    intro claim t _ h
    obtain ⟨hi, -, hx, -⟩ := h
    refine ⟨hi, fun hs => ?_⟩
    obtain ⟨-, -, hrow⟩ := hx hs
    exact hrow
  · refine Party.Spec.bind (M := fun _ => Claims sha256 userId call i claim)
      (spec_commit (stable_claims claim) (fun _ => stable_claims claim)
        (fun _ => stable_idle_others) quiet_guar (fun _ _ h => h.1) (fun _ _ h => h.1.ready) ?_) fun _ =>
          Party.Spec.pure (stable_claims claim) fun _ _ h => h
    intro t g hi h hg hidle' _
    exact ⟨hg, hidle', fun hs => (h.2 hs).moved hi hg⟩

variable (sha256) (userId) (call) (result) (errorMessage) (issued) (i) in
/-- The update that finishes the invocation is done: when it has found the row, the session has
    written the result on it. -/
def Written (claim : ToolInvocationClaim) (recorded : Bool) (t : Tracked) : Prop :=
  Ready sha256 issued i t ∧ StartedFor sha256 userId call claim.invocationId t ∧
    (recorded = true → SeesResult sha256 userId call result errorMessage i claim.invocationId t)

theorem stable_written (claim : ToolInvocationClaim) (recorded : Bool) :
    (toolParty sha256 issued i (Others i) (Guar i)).Stable
      (Written sha256 userId call result errorMessage issued i claim recorded) :=
  stable_ready_others.and <| stable_startedFor.and <|
    Party.Stable.forall fun _ => stable_upward others_spec upward_seesResult

/-- The update that finishes the invocation. -/
theorem spec_completeInvocation {claim : ToolInvocationClaim} :
    (toolParty sha256 issued i (Others i) (Guar i)).Spec
      (fun t => Idle i t ∧ StartedFor sha256 userId call claim.invocationId t)
      (completeInvocation sha256 claim result errorMessage)
      (Written sha256 userId call result errorMessage issued i claim)
      fun _ t => Ready sha256 issued i t ∧ StartedFor sha256 userId call claim.invocationId t := by
  have hP : (toolParty sha256 issued i (Others i) (Guar i)).Stable fun t =>
      Idle i t ∧ StartedFor sha256 userId call claim.invocationId t :=
    stable_idle_others.and stable_startedFor
  have hE : (toolParty sha256 issued i (Others i) (Guar i)).Stable fun t =>
      Ready sha256 issued i t ∧ StartedFor sha256 userId call claim.invocationId t :=
    stable_ready_others.and stable_startedFor
  unfold completeInvocation
  refine Party.Spec.bind (spec_utcnow hP quiet_guar) fun now => ?_
  refine Party.Spec.bind (M := fun k => Written sha256 userId call result errorMessage issued i
    claim (decide (k = 1))) (spec_updateInvocation hP (fun k => stable_written claim (decide (k = 1)))
      (fun _ => hE) quiet_guar (fun _ _ h => ⟨h.1.ready, h.2⟩) ?_ ?_) fun k =>
        Party.Spec.pure (stable_written claim (decide (k = 1))) fun _ _ h => h
  · intro t _ h _
    exact ⟨h.1.ready, h.2, fun hk => absurd (of_decide_eq_true hk) Nat.zero_ne_one⟩
  · rintro t r hi ⟨hidle, hst⟩ hr hc
    have hs : r.status = .running := of_decide_eq_true hc
    have he : r.Evolves (completed sha256 result errorMessage now r) := completed_evolves hs now
    have hx : (completed sha256 result errorMessage now r).status.executed = true :=
      completed_executed now
    have hw := (hi.slots claim.invocationId).view_wf hr
    have heff := he.effective (by rw [hs]; rfl)
    have hstart := hst.started
    obtain ⟨r₀, hr₀, hx₀, hp⟩ := hst
    have hrow : r₀ = r := by
      rw [Cell.view_of_not_own (hidle _).1, hr₀, Option.some.injEq] at hr
      exact hr
    subst hrow
    refine ⟨he, hw.evolves he ?_ fun _ => heff, fun _ => .inr hstart, ?_, ?_, fun _ => ?_⟩
    · show r₀.attemptCount = _
      rw [hw.attempts, hs, hx]
      rfl
    · refine hidle.ready.putInvocation hi hr fun a ha => ha.mono he heff (.inr ⟨hx, .inl ?_⟩)
      rw [hs]
      rfl
    · refine ⟨r₀, ?_, hx₀, hp⟩
      simp only [Store.putInvocation_slot_self, Cell.committed_write]
      exact hr₀
    · refine ⟨completed sha256 result errorMessage now r₀, ?_, ?_⟩
      · simp only [Store.putInvocation_slot_self, Cell.view_write_self]
      · exact ⟨hp.evolves he hx₀, rfl, rfl, rfl⟩

end

section

variable {py : Python} {sha256 : Sha256} {userId : String} {call : WrappedCall}
  {result : ToolMessage} {errorMessage : Option String} {issued : Call → Prop} {i n : Nat}

theorem spec_readResult {α : Type} {value : Except String α} {P : Tracked → Prop}
    {E : PyError → Tracked → Prop}
    (hP : (toolParty sha256 issued i (Others i) (Guar i)).Stable P)
    (hraise : ∀ message t, value = .error message → P t → E (.runtimeError message) t) :
    (toolParty sha256 issued i (Others i) (Guar i)).Spec P (readResult value)
      (fun a t => value = .ok a ∧ P t) E := by
  cases value with
  | ok a => exact Party.Spec.pure hP fun _ _ h => ⟨rfl, h⟩
  | error message => exact Party.Spec.throw hP fun t _ h => hraise message t rfl h

variable (py) (sha256) (userId) (call) (result) in
/-- A row with the result is committed. -/
def OnRecord (t : Tracked) : Prop :=
  ∃ n r errorMessage, (t.store.slot n).invocation.committed = some r ∧
    toolErrorMessage py result = .ok errorMessage ∧
    Keeps sha256 userId call result errorMessage r

theorem OnRecord.moved {j : Nat} {t t' : Tracked} (h : OnRecord py sha256 userId call result t)
    (hi : Inv sha256 issued t) (hg : Guar j t t') : OnRecord py sha256 userId call result t' := by
  obtain ⟨n, r, e, hr, he, hk⟩ := h
  obtain ⟨r', hr', hev⟩ := hg.later hi n r hr
  exact ⟨n, r', e, hr', he, hk.evolves hev⟩

theorem stable_onRecord :
    (toolParty sha256 issued i (Others i) (Guar i)).Stable
      (OnRecord py sha256 userId call result) := by
  intro t t' hi _ hr h
  obtain ⟨j, -, hg⟩ := hr
  exact h.moved hi hg

variable (py) (sha256) (userId) (call) (result) (i) in
/-- The tool has run, and the session has ended its transaction. -/
def Ended (recorded : Bool) (t : Tracked) : Prop :=
  Idle i t ∧ (recorded = true → OnRecord py sha256 userId call result t)

theorem stable_ended (recorded : Bool) :
    (toolParty sha256 issued i (Others i) (Guar i)).Stable
      (Ended py sha256 userId call result i recorded) :=
  stable_idle_others.and (Party.Stable.forall fun _ => stable_onRecord)

/-- **The result is on the committed row**, if the update has found the invocation running. -/
theorem spec_finishToolCall {claim : ToolInvocationClaim} (hx : claim.shouldExecute = true) :
    (toolParty sha256 issued i (Others i) (Guar i)).Spec (Claims sha256 userId call i claim)
      (finishToolCall py sha256 result (some claim)) (Ended py sha256 userId call result i)
      fun _ => Holding sha256 userId call issued i claim := by
  have hH : ∀ e : PyError, (toolParty sha256 issued i (Others i) (Guar i)).Stable
      ((fun _ => Holding sha256 userId call issued i claim) e) := fun _ => stable_holding claim
  unfold finishToolCall
  refine Party.Spec.bind (spec_readResult (stable_claims claim) fun _ _ _ h => h.holding)
    fun errorMessage => Party.Spec.pure_pre fun herr => ?_
  refine Party.Spec.bind (M := Written sha256 userId call result errorMessage issued i claim)
    (spec_completeInvocation.conseq (fun _ _ h => ⟨h.1, h.2 hx⟩) (fun _ _ _ h => h)
      fun _ _ _ h => ⟨h.1, fun _ => h.2⟩) fun recorded => ?_
  refine Party.Spec.bind (M := fun _ => Ended py sha256 userId call result i recorded)
    (spec_commit (stable_written claim recorded) (fun _ => stable_ended recorded) hH quiet_guar
      (fun _ _ h => ⟨h.1, fun _ => h.2.1⟩) (fun _ _ h => h.1) ?_) fun _ =>
        Party.Spec.pure (stable_ended recorded) fun _ _ h => h
  intro t g hi h hg hidle _
  refine ⟨hg, hidle, fun hrec => ?_⟩
  obtain ⟨r, hr, hk⟩ := h.2.2 hrec
  refine ⟨claim.invocationId, r, errorMessage, ?_, herr, hk⟩
  show ((t.store.slot claim.invocationId).invocation.commit i).committed = some r
  rw [Cell.committed_commit]
  exact hr

/-- A claim that is answered from its row only has its span to commit. -/
theorem spec_finishToolCall_none {message : ToolMessage} {P : Tracked → Prop}
    {E : PyError → Tracked → Prop}
    (hP : (toolParty sha256 issued i (Others i) (Guar i)).Stable P)
    (hE : ∀ e, (toolParty sha256 issued i (Others i) (Guar i)).Stable (E e))
    (hready : ∀ t, P t → Ready sha256 issued i t)
    (hraise : ∀ text t, toolErrorMessage py message = .error text → P t → E (.runtimeError text) t)
    (hfault : ∀ t, P t → E .databaseError t) :
    (toolParty sha256 issued i (Others i) (Guar i)).Spec P
      (finishToolCall py sha256 message none) (fun recorded t => recorded = false ∧ Idle i t)
      E := by
  unfold finishToolCall
  refine Party.Spec.bind (spec_readResult hP hraise) fun errorMessage =>
    Party.Spec.pure_pre fun _ => ?_
  refine Party.Spec.bind (M := fun recorded t => recorded = false ∧ P t)
    (Party.Spec.pure hP fun _ _ h => ⟨rfl, h⟩) fun recorded => Party.Spec.pure_pre fun hrec => ?_
  refine Party.Spec.bind (M := fun _ => Idle i) (spec_commit hP (fun _ => stable_idle_others) hE
    quiet_guar (fun t _ h => hfault t h) (fun t _ h => hready t h) fun _ _ _ _ hg h _ => ⟨hg, h⟩) fun _ =>
      Party.Spec.pure stable_idle_others fun _ _ h => ⟨hrec, h⟩

variable (userId) (call) in
theorem spec_failTrace {claim : ToolInvocationClaim} {message : String} :
    (toolParty sha256 issued i (Others i) (Guar i)).Spec
      (Holding sha256 userId call issued i claim) (failTrace claim message) (fun _ => Idle i)
      fun e t => e = .databaseError ∧ Ready sha256 issued i t := by
  have hE : ∀ e : PyError, (toolParty sha256 issued i (Others i) (Guar i)).Stable
      fun t => e = .databaseError ∧ Ready sha256 issued i t := fun _ =>
    (Party.Stable.pure _).and stable_ready_others
  have hcommit : (toolParty sha256 issued i (Others i) (Guar i)).Spec (Ready sha256 issued i)
      (perform .commit) (fun _ => Idle i) fun e t => e = .databaseError ∧ Ready sha256 issued i t :=
    spec_commit stable_ready_others (fun _ => stable_idle_others) hE quiet_guar
      (fun _ _ h => ⟨rfl, h⟩) (fun _ _ h => h) fun _ _ _ _ hg h _ => ⟨hg, h⟩
  unfold failTrace
  by_cases hx : claim.shouldExecute = true
  · rw [if_pos hx]
    refine Party.Spec.bind (M := fun _ => Ready sha256 issued i) ?_ fun _ => hcommit
    have hP : (toolParty sha256 issued i (Others i) (Guar i)).Stable fun t =>
        Ready sha256 issued i t ∧ StartedFor sha256 userId call claim.invocationId t :=
      stable_ready_others.and stable_startedFor
    unfold failToolInvocation
    refine Party.Spec.bind ((spec_utcnow hP quiet_guar).pre fun _ _ h => ⟨h.1, h.2 hx⟩)
      fun now => ?_
    refine (spec_finishInvocation others_spec quiet_guar hE stable_startedFor ?_
      (fun _ _ _ h _ _ => h.started) ?_ fun _ _ h => ⟨rfl, h.1⟩).post fun _ _ _ h => h.1
    · rintro t r _ ⟨r₀, hr₀, hx₀, hp⟩ _ _
      refine ⟨r₀, ?_, hx₀, hp⟩
      simp only [Store.putInvocation_slot_self, Cell.committed_write]
      exact hr₀
    · intro r hs
      exact ⟨.finish hs (.inr rfl) r.output _ _ _, rfl, rfl⟩
  · rw [if_neg hx]
    exact hcommit.pre fun _ _ h => h.1

/-- The stage after the claim, for a tool that is to run -/
theorem spec_answerClaim {claim : ToolInvocationClaim} :
    (toolParty sha256 issued i (Others i) (Guar i)).Spec (Claims sha256 userId call i claim)
      (answerClaim py sha256 call result claim)
      (fun answer t => (answer.handlerRan = true → answer.message = result) ∧
        Ended py sha256 userId call result i answer.recorded t)
      fun _ => Holding sha256 userId call issued i claim := by
  unfold answerClaim
  by_cases hx : claim.shouldExecute = true
  · rw [if_pos hx]
    refine Party.Spec.bind (spec_finishToolCall hx) fun recorded => ?_
    exact Party.Spec.pure (stable_ended recorded) fun _ _ h => ⟨fun _ => rfl, h⟩
  · rw [if_neg hx]
    refine Party.Spec.bind (spec_finishToolCall_none (stable_claims claim)
      (fun _ => stable_holding claim) (fun _ h => h.1.ready) (fun _ _ _ h => h.holding)
      fun _ h => h.holding) fun recorded => Party.Spec.pure_pre fun hrec => ?_
    refine Party.Spec.pure stable_idle_others fun _ _ h => ⟨fun h => absurd h (by simp), h, ?_⟩
    intro hr
    rw [hrec] at hr
    cases hr

theorem spec_runClaim (hissued : issued (claimCall userId call)) :
    (toolParty sha256 issued i (Others i) (Guar i)).Spec (Idle i)
      (runClaim py sha256 userId call result)
      (fun answer t => (answer.handlerRan = true → answer.message = result) ∧
        Ended py sha256 userId call result i answer.recorded t) fun _ => Idle i := by
  have hpost : ∀ answer : Answer, (toolParty sha256 issued i (Others i) (Guar i)).Stable fun t =>
      (answer.handlerRan = true → answer.message = result) ∧
        Ended py sha256 userId call result i answer.recorded t := fun answer =>
    (Party.Stable.pure _).and (stable_ended _)
  unfold runClaim
  refine Party.Spec.bind (spec_prepareToolCall hissued) fun claim => ?_
  refine Party.Spec.bind (spec_rollbackOnError quiet_guar (fun _ => stable_ready_others)
    (fun _ => stable_idle_others) (Party.Spec.handle spec_answerClaim fun e => ?_) fun _ _ _ _ h _ => h) fun answer => ?_
  · refine Party.Spec.bind ((spec_failTrace userId call).conseq (fun _ _ h => h) (fun _ _ _ h => h)
      fun _ _ _ h => h.2) fun _ => ?_
    exact Party.Spec.throw stable_idle_others fun _ _ h => h.ready
  · refine Party.Spec.bind (M := fun _ t => (answer.handlerRan = true → answer.message = result) ∧
        Ended py sha256 userId call result i answer.recorded t)
      (spec_rollback (hpost answer) (fun _ => hpost answer) quiet_guar ?_) fun _ =>
        Party.Spec.pure (hpost answer) fun _ _ h => h
    intro t hi h hidle' hq
    exact ⟨h.1, hidle', fun hrec => (h.2.2 hrec).moved hi hq.toGuar⟩

/-- **What a call of the wrapper leaves behind**: the tool's message is returned, and it is on
    record when the update that finishes the invocation has found it running. -/
theorem spec_wrapToolCall (hissued : ∀ u, issued (claimCall u call)) :
    (toolParty sha256 issued i (Others i) (Guar i)).Spec (Idle i)
      (wrapToolCall py sha256 call result)
      (fun answer t => (answer.handlerRan = true → answer.message = result) ∧
        (answer.recorded = true → ∃ u, call.userId = some u ∧ OnRecord py sha256 u call result t))
      fun _ _ => True := by
  unfold wrapToolCall
  cases hu : call.userId with
  | none =>
    refine Party.Spec.bind (spec_readResult stable_idle_others fun _ _ _ _ => trivial) fun e =>
      Party.Spec.pure_pre fun _ => ?_
    exact Party.Spec.pure stable_idle_others fun _ _ _ => ⟨fun _ => rfl, fun h => absurd h (by simp)⟩
  | some u =>
    cases hv : call.violation with
    | some message =>
      exact Party.Spec.pure stable_idle_others fun _ _ _ =>
        ⟨fun h => absurd h (by simp), fun h => absurd h (by simp)⟩
    | none =>
      refine Party.Spec.handle ((spec_runClaim (hissued u)).post fun answer t _ h =>
        ⟨h.1, fun hrec => ⟨u, rfl, h.2.2 hrec⟩⟩) fun e => ?_
      cases refusal e with
      | some message =>
        exact Party.Spec.pure stable_idle_others fun _ _ _ =>
          ⟨fun h => absurd h (by simp), fun h => absurd h (by simp)⟩
      | none => exact Party.Spec.throw stable_idle_others fun _ _ _ => trivial

end

end Replay

end HyChat
