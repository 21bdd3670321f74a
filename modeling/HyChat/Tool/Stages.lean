import HyChat.Tool.Alone

/-!
# The stages of a tool call

What the service makes of one tool call when nobody else is around: it awaits a decision, it is
decided, it is started. Each operation moves the call's row from one stage to the next, or leaves
it at the stage it has reached; the rows of all other calls stay as they are.

Why stages and not statuses. The status is a field of one of the two rows, and what the service
does next depends on both rows and on what they were created for. A stage says all of that for one
call: `NotYet` (no row), `Awaits` (two rows, no decision), `Decided` (two rows that agree on a
decision, started or not) and `Started` (one row, for a call that needs no decision). Each is a
statement about the session's own view of one key, so that `Elsewhere` carries it past the
operations on other calls.

The steps between them are the `completes_*` lemmas, one for each operation and each stage it can
find: `ensure_pending_approvals` leads from `NotYet` to `Awaits` and is idle afterwards,
`record_approval_decisions` leads from `Awaits` to `Decided` and is idle afterwards, and a claim
leads to a started row or reports the one that is started. The last case is the one that makes a
replayed batch harmless.

`raises_recordDecision` is the exception. It says when a recorded decision does not match its own
record, which happens for payloads that are not JSON; the condition under which it does not happen
is the one that the batch theorem asks for.
-/

set_option autoImplicit false

namespace HyChat

open Lib

/-- A tool call as the model has asked for it -/
structure Asked where
  toolCallId : String
  toolName : String
  input : PyMapping

/-- The call that an item of the model's message stands for, with the defaults the middleware fills
in. -/
def ToolCallItem.asked (item : ToolCallItem) : Asked :=
  ⟨orDefault item.id "", orDefault item.name "unknown", item.args.asMapping⟩

/-- The call a decision is about -/
def ApprovalDecision.asked (d : ApprovalDecision) : Asked :=
  ⟨d.toolCallId, d.toolName, d.requestedInput⟩

section

variable (sha256 : Sha256) (userId : String) (threadId : Option String)

/-- The key of the call in the user's thread. -/
def Asked.key (q : Asked) : String := invocationIdempotencyKey sha256 userId threadId q.toolCallId

/-- The row was created for the call. -/
structure Original (q : Asked) (r : ToolInvocation) : Prop where
  threadId : r.threadId = threadId
  toolCallId : r.toolCallId = q.toolCallId
  toolName : r.toolName = q.toolName
  requestedInput : r.requestedInput = jsonObject sha256 (.mapping q.input)

/-- The row is to be executed with a name and an input. -/
def Effective (toolName : String) (input : PyMapping) (r : ToolInvocation) : Prop :=
  r.effectiveToolName = toolName ∧ r.effectiveInput = jsonObject sha256 (.mapping input)

/-- The service has never heard of the call. -/
def NotYet (i : Nat) (q : Asked) (s : Store) : Prop :=
  Absent i userId (q.key sha256 userId threadId) s

/-- The call awaits a decision. -/
def Awaits (i : Nat) (q : Asked) (s : Store) : Prop :=
  ∃ r b, Found i userId (q.key sha256 userId threadId) s r (some b) ∧
    Original sha256 threadId q r ∧ r.status = .pendingApproval ∧ b.status = .pending

/-- The decision is recorded, and the call has been started or not. -/
def Decided (i : Nat) (d : ApprovalDecision) (started : Bool) (s : Store) : Prop :=
  ∃ r b, Found i userId (d.asked.key sha256 userId threadId) s r (some b) ∧
    Original sha256 threadId d.asked r ∧ Effective sha256 d.effectiveToolName d.effectiveInput r ∧
    approvalStatus? d.decisionType = some b.status ∧
    b.decisionPayload = jsonObject sha256 (.mapping d.decisionPayload) ∧
    b.decidedByUserId = some userId ∧ (started = true → b.status ≠ .rejected) ∧
    r.status = if started then .running else invocationStatus b.status

/-- A call that needs no decision has been started. -/
def Started (i : Nat) (q : Asked) (s : Store) : Prop :=
  ∃ r, Found i userId (q.key sha256 userId threadId) s r none ∧ Original sha256 threadId q r ∧
    Effective sha256 q.toolName q.input r ∧ r.status = .running

end

section

variable {sha256 : Sha256} {userId : String} {threadId runtimeRunId : Option String} {i : Nat}
  {q : Asked} {d : ApprovalDecision} {s s' : Store}

/-- A row that was created for a call is accepted for it when the call comes again. -/
theorem Original.accepts {r : ToolInvocation} (h : Original sha256 threadId q r)
    (allowEffectiveMatch : Bool) :
    Accepts sha256 threadId q.toolCallId q.toolName (jsonObject sha256 (.mapping q.input))
      allowEffectiveMatch r := by
  refine ⟨h.threadId, h.toolCallId, ?_⟩
  rw [Bool.or_eq_true]
  left
  unfold originalPayloadMatches
  rw [h.toolName, h.requestedInput]
  simp

/-- It is accepted for the effective call too, where the caller allows that. -/
theorem Original.accepts_effective {r : ToolInvocation} {toolName : String} {input : PyMapping}
    (h : Original sha256 threadId q r) (he : Effective sha256 toolName input r) :
    Accepts sha256 threadId q.toolCallId toolName (jsonObject sha256 (.mapping input)) true r := by
  refine ⟨h.threadId, h.toolCallId, ?_⟩
  rw [Bool.or_eq_true]
  right
  unfold effectivePayloadMatches
  rw [he.1, he.2]
  simp

/-- Filling in a run id does not change what a row was created for. -/
theorem SameCall.original {r r' : ToolInvocation} (h : SameCall r r')
    (ho : Original sha256 threadId q r) : Original sha256 threadId q r' := by
  rw [h]
  exact ⟨ho.threadId, ho.toolCallId, ho.toolName, ho.requestedInput⟩

/-- Nor what is to be executed. -/
theorem SameCall.effective {r r' : ToolInvocation} {toolName : String} {input : PyMapping}
    (h : SameCall r r') (he : Effective sha256 toolName input r) :
    Effective sha256 toolName input r' := by
  rw [h]
  exact he

theorem SameCall.status {r r' : ToolInvocation} (h : SameCall r r') : r'.status = r.status := by
  rw [h]

/-! ## `ensure_pending_approvals` -/

/-- The rows are there already. -/
theorem completes_ensurePendingApproval_found {item : ToolCallItem} {r : ToolInvocation}
    {b : Approval} (hv : ValidIdentity threadId runtimeRunId item.asked.toolCallId)
    (hforeign : ¬Foreign userId threadId s) (h : Orderly i s)
    (hf : Found i userId (item.asked.key sha256 userId threadId) s r (some b))
    (ho : Original sha256 threadId item.asked r) (hstatus : r.status ≠ .pending)
    {Q : Unit → Store → Prop}
    (hQ : ∀ r' s', Orderly i s' → Elsewhere i userId (item.asked.key sha256 userId threadId) s s' →
      Found i userId (item.asked.key sha256 userId threadId) s' r' (some b) → SameCall r r' →
      Q () s') :
    Completes i (ensurePendingApproval sha256 userId threadId runtimeRunId item) Q s := by
  unfold ensurePendingApproval
  apply Machine.Returns.bind
  apply completes_ensureInvocation_found hv hforeign h hf (ho.accepts false) hstatus
  intro r' s' h' he hf' hsame
  apply Machine.Returns.bind
  apply completes_utcnow
  intro requestedAt
  apply Machine.Returns.bind
  apply completes_utcnow
  intro updatedAt
  apply Machine.Returns.bind
  have hkey : Found i userId r'.idempotencyKey s' r' (some b) := by
    rw [hf'.key]
    exact hf'
  apply completes_insertApproval_found h' hkey
  apply Machine.Returns.bind
  apply completes_selectApproval h' hkey
  apply completes_raiseIf
  · rw [Option.any_some, (h'.approval_key hf').1, decide_eq_true rfl]
    rfl
  · exact hQ r' s' h' he hf' hsame

/-- A new call awaits its decision. -/
theorem completes_ensurePendingApproval_absent {item : ToolCallItem}
    (hv : ValidIdentity threadId runtimeRunId item.asked.toolCallId)
    (hforeign : ¬Foreign userId threadId s) (h : Orderly i s)
    (habsent : NotYet sha256 userId threadId i item.asked s) {Q : Unit → Store → Prop}
    (hQ : ∀ s', Orderly i s' → Elsewhere i userId (item.asked.key sha256 userId threadId) s s' →
      Awaits sha256 userId threadId i item.asked s' → Q () s') :
    Completes i (ensurePendingApproval sha256 userId threadId runtimeRunId item) Q s := by
  unfold ensurePendingApproval
  apply Machine.Returns.bind
  apply completes_ensureInvocation_absent hv hforeign h habsent
  rintro r' s' h' he hf' ⟨conversationId, now, n, hrow⟩
  apply Machine.Returns.bind
  apply completes_utcnow
  intro requestedAt
  apply Machine.Returns.bind
  apply completes_utcnow
  intro updatedAt
  apply Machine.Returns.bind
  have hkey : Found i userId r'.idempotencyKey s' r' none := by
    rw [hf'.key]
    exact hf'
  obtain ⟨h'', he', hf''⟩ := h'.putApproval hf'
    (b := newApproval r' userId requestedAt updatedAt) rfl rfl hf'.key
  apply completes_insertApproval_absent h' hkey rfl
  apply Machine.Returns.bind
  have hkey' : Found i userId r'.idempotencyKey
      (s'.putApproval i r'.id (newApproval r' userId requestedAt updatedAt)) r'
      (some (newApproval r' userId requestedAt updatedAt)) := by
    rw [hf'.key]
    exact hf''
  apply completes_selectApproval h'' hkey'
  apply completes_raiseIf
  · rw [Option.any_some]
    exact congrArg not (decide_eq_true rfl)
  · apply hQ _ h'' (he.trans he')
    refine ⟨r', _, hf'', ?_, ?_, rfl⟩
    · rw [hrow]
      exact ⟨rfl, rfl, rfl, rfl⟩
    · rw [hrow]
      rfl

/-! ## `record_approval_decisions` -/

/-- A known decision type is turned into the status of the approval. -/
theorem approvalStatus_some {decisionType : String} {status : ApprovalStatus}
    (h : approvalStatus? decisionType = some status) {Q : ApprovalStatus → Store → Prop}
    (hQ : Q status s) : Completes i (approvalStatus decisionType) Q s := by
  unfold approvalStatus
  rw [h]
  exact Machine.Returns.pure hQ

/-- Both rows are there, so nothing is inserted. -/
theorem completes_loadDecisionRows {r : ToolInvocation} {b : Approval}
    (hv : ValidIdentity threadId runtimeRunId d.toolCallId)
    (hforeign : ¬Foreign userId threadId s) (h : Orderly i s)
    (hf : Found i userId (d.asked.key sha256 userId threadId) s r (some b))
    (ho : Original sha256 threadId d.asked r) (hstatus : r.status ≠ .pending)
    {Q : ToolInvocation × Approval → Store → Prop}
    (hQ : ∀ r' s', Orderly i s' → Elsewhere i userId (d.asked.key sha256 userId threadId) s s' →
      Found i userId (d.asked.key sha256 userId threadId) s' r' (some b) → SameCall r r' →
      Q (r', b) s') :
    Completes i (loadDecisionRows sha256 userId threadId runtimeRunId d) Q s := by
  unfold loadDecisionRows
  apply Machine.Returns.bind
  apply completes_ensureInvocation_found hv hforeign h hf (ho.accepts false) hstatus
  intro r' s' h' he hf' hsame
  apply Machine.Returns.bind
  apply completes_selectApprovalOf h' hf'
  exact Machine.Returns.pure (hQ r' s' h' he hf' hsame)

/-- A decided call is past the status in which an approval can still be required. -/
theorem decided_ne_pending (started : Bool) (status : ApprovalStatus) :
    (if started then ToolInvocationStatus.running else invocationStatus status) ≠ .pending := by
  cases started with
  | true => nofun
  | false => cases status <;> nofun

/-- A decision that is recorded already is found to match. -/
theorem completes_recordDecision_decided {started : Bool} {now : Nat}
    (hv : ValidIdentity threadId runtimeRunId d.toolCallId)
    (hforeign : ¬Foreign userId threadId s) (h : Orderly i s) (hd : d.Replayable sha256)
    (hdecided : Decided sha256 userId threadId i d started s) {Q : Unit → Store → Prop}
    (hQ : ∀ s', Orderly i s' → Elsewhere i userId (d.asked.key sha256 userId threadId) s s' →
      Decided sha256 userId threadId i d started s' → Q () s') :
    Completes i (recordDecision sha256 userId threadId runtimeRunId now d) Q s := by
  obtain ⟨r, b, hf, ho, heff, htype, hpayload, hby, hstarted, hstatus⟩ := hdecided
  have hpending : r.status ≠ .pending := by
    rw [hstatus]
    exact decided_ne_pending started b.status
  unfold recordDecision
  apply Machine.Returns.bind
  apply completes_loadDecisionRows hv hforeign h hf ho hpending
  intro r' s' h' he hf' hsame
  dsimp only
  rw [if_pos (approvalStatus?_ne_pending htype)]
  apply Machine.Returns.bind
  apply approvalStatus_some htype
  apply completes_raiseIf
  · rw [Bool.not_eq_false']
    obtain ⟨hname, hinput⟩ := hsame.effective heff
    have hallowed : (allowedInvocationStatuses b.status).contains r'.status = true := by
      rw [hsame.status, hstatus]
      cases started with
      | true =>
        cases hb : b.status with
        | rejected => exact absurd hb (hstarted rfl)
        | pending => rfl
        | approved => rfl
        | edited => rfl
      | false => cases b.status <;> rfl
    unfold decisionMatches canonicalJson
    rw [hallowed, hpayload, hd.decisionPayload, hname, hinput, hd.effectiveInput]
    simp
  · apply hQ s' h' he
    refine ⟨r', b, hf', hsame.original ho, hsame.effective heff, htype, hpayload, hby, hstarted, ?_⟩
    rw [hsame.status, hstatus]

/-- A decision whose input is stored otherwise than it is compared does not match its own record. -/
theorem raises_recordDecision {started : Bool} {now : Nat}
    (hv : ValidIdentity threadId runtimeRunId d.toolCallId)
    (hforeign : ¬Foreign userId threadId s) (h : Orderly i s)
    (hne : canonicalJson sha256 (toPy (jsonObject sha256 (.mapping d.effectiveInput))) ≠
      canonicalJson sha256 (.mapping d.effectiveInput))
    (hdecided : Decided sha256 userId threadId i d started s) :
    toolDb.Raises NoFault i (recordDecision sha256 userId threadId runtimeRunId now d)
      (fun e => e = .approvalConflict "审批已使用不同决定完成，不能覆盖") s := by
  obtain ⟨r, b, hf, ho, heff, htype, -, -, -, hstatus⟩ := hdecided
  have hpending : r.status ≠ .pending := by
    rw [hstatus]
    exact decided_ne_pending started b.status
  unfold recordDecision
  apply Machine.Returns.bind_raises
  apply completes_loadDecisionRows hv hforeign h hf ho hpending
  intro r' s' h' he hf' hsame
  dsimp only
  rw [if_pos (approvalStatus?_ne_pending htype)]
  apply Machine.Returns.bind_raises
  apply approvalStatus_some htype
  apply raises_raiseIf
  · rw [Bool.not_eq_true', ← Bool.not_eq_true]
    intro hmatch
    simp only [decisionMatches, Bool.and_eq_true, decide_eq_true_eq] at hmatch
    rw [(hsame.effective heff).2] at hmatch
    exact hne hmatch.2
  · rfl

/-- What a decision writes into the invocation: the effective call, the status, and times. -/
theorem decideInvocation_eq (sha256 : Sha256) (d : ApprovalDecision) (status : ApprovalStatus)
    (now : Nat) (r : ToolInvocation) : ∃ completedAt errorMessage,
      decideInvocation sha256 d status now r = { r with
        status := invocationStatus status
        effectiveToolName := d.effectiveToolName
        effectiveInput := jsonObject sha256 (.mapping d.effectiveInput)
        updatedAt := now
        completedAt := completedAt
        errorMessage := errorMessage } := by
  unfold decideInvocation
  dsimp only
  split
  · exact ⟨_, _, rfl⟩
  · exact ⟨_, _, rfl⟩

/-- An awaited decision is recorded. -/
theorem completes_recordDecision_awaits {now : Nat} {status : ApprovalStatus}
    (hv : ValidIdentity threadId runtimeRunId d.toolCallId)
    (hforeign : ¬Foreign userId threadId s) (h : Orderly i s)
    (htype : approvalStatus? d.decisionType = some status)
    (hawaits : Awaits sha256 userId threadId i d.asked s) {Q : Unit → Store → Prop}
    (hQ : ∀ s', Orderly i s' → Elsewhere i userId (d.asked.key sha256 userId threadId) s s' →
      Decided sha256 userId threadId i d false s' → Q () s') :
    Completes i (recordDecision sha256 userId threadId runtimeRunId now d) Q s := by
  obtain ⟨r, b, hf, ho, hstatus, hb⟩ := hawaits
  have hpending : r.status ≠ .pending := by
    rw [hstatus]
    nofun
  unfold recordDecision
  apply Machine.Returns.bind
  apply completes_loadDecisionRows hv hforeign h hf ho hpending
  intro r' s' h' he hf' hsame
  dsimp only
  rw [if_neg (not_not_intro hb)]
  unfold applyDecision
  apply Machine.Returns.bind
  apply approvalStatus_some htype
  apply Machine.Returns.bind
  obtain ⟨hat, hbu, hbk⟩ := h'.approval_key hf'
  rw [hat]
  apply completes_updateApproval h' hf'
  · rw [decide_eq_true hbu, decide_eq_true hb]
    rfl
  obtain ⟨h₂, he₂, hf₂⟩ := h'.putApproval hf' (b := decideApproval sha256 userId d status now b)
    hat hbu hbk
  apply Machine.Returns.bind
  apply completes_raiseIf rfl
  apply Machine.Returns.bind
  apply completes_updateInvocation h₂ hf₂
  · rw [decide_eq_true hf₂.userId, decide_eq_true (hsame.status.trans hstatus)]
    rfl
  obtain ⟨completedAt, errorMessage, hrow⟩ :=
    decideInvocation_eq sha256 d status now r'
  have hu : (decideInvocation sha256 d status now r').userId = userId := by
    rw [hrow]
    exact hf₂.userId
  have hk : (decideInvocation sha256 d status now r').idempotencyKey =
      d.asked.key sha256 userId threadId := by
    rw [hrow]
    exact hf₂.key
  have hid : (decideInvocation sha256 d status now r').id = r'.id := by
    rw [hrow]
  obtain ⟨h₃, he₃, hf₃⟩ := h₂.putInvocation hf₂ _ hid hu hk
  apply completes_raiseIf rfl
  apply hQ _ h₃ ((he.trans he₂).trans he₃)
  have ho' := hsame.original ho
  refine ⟨_, _, hf₃, ?_, ?_, htype, rfl, rfl, nofun, ?_⟩
  · rw [hrow]
    exact ⟨ho'.threadId, ho'.toolCallId, ho'.toolName, ho'.requestedInput⟩
  · rw [hrow]
    exact ⟨rfl, rfl⟩
  · rw [hrow]
    rfl

/-! ## `claim_tool_invocation` -/

theorem completes_rollbackOnError {α : Type} {x : Db α} {Q : α → Store → Prop}
    (h : Completes i x Q s) : Completes i (rollbackOnError x) Q s :=
  Machine.Returns.tryCatch h

/-- What follows `_ensure_invocation` in a claim, once its row is at hand -/
def claimRow (sha256 : Sha256) (userId toolName : String) (requestedInput : PyMapping)
    (invocation : ToolInvocation) : Db (Option ToolInvocationClaim) := do
  raiseIf (invocation.effectiveToolName ≠ toolName ||
      canonicalJson sha256 (toPy invocation.effectiveInput) ≠
        canonicalJson sha256 (toPy (jsonObject sha256 (.mapping requestedInput))))
    (.toolInvocationConflict "待执行工具与已审批内容不一致，已阻止执行")
  if invocation.status ≠ .pending && invocation.status ≠ .approved then do
    perform .commit
    match ← perform (.getInvocation invocation.id) with
    | none => throw .databaseError
    | some current => pure (some (claimSnapshot current false))
  else startClaim userId invocation

/-- A claim is `_ensure_invocation` followed by `claimRow`, under one rollback. -/
theorem claimToolInvocation_eq (toolCallId toolName : String) (input : PyMapping) :
    claimToolInvocation sha256 userId threadId runtimeRunId toolCallId toolName input =
      (rollbackOnError (ensureInvocation sha256 userId threadId runtimeRunId toolCallId toolName
        input false true >>= claimRow sha256 userId toolName input) >>= fun claimed =>
          match claimed with
          | some claim => pure claim
          | none => do
              match ← perform (.selectInvocation userId
                  (invocationIdempotencyKey sha256 userId threadId toolCallId)) with
              | none => throw (.runtimeError "工具调用状态在并发抢占后丢失")
              | some invocation => pure (claimSnapshot invocation false)) := rfl

/-- A row that can be started is. -/
theorem completes_claimRow_start {toolName key : String} {input : PyMapping} {r : ToolInvocation}
    {a : Option Approval} (h : Orderly i s) (hf : Found i userId key s r a)
    (heff : Effective sha256 toolName input r)
    (hstatus : r.status = .pending ∨ r.status = .approved)
    {Q : Option ToolInvocationClaim → Store → Prop}
    (hQ : ∀ now s', Orderly i s' → Elsewhere i userId key s s' →
      Found i userId key s' (startInvocation now r) a →
      Q (some (claimSnapshot (startInvocation now r) true)) s') :
    Completes i (claimRow sha256 userId toolName input r) Q s := by
  unfold claimRow
  apply Machine.Returns.bind
  apply completes_raiseIf
  · rw [heff.1, heff.2]
    simp
  rw [if_neg]
  · unfold startClaim
    apply Machine.Returns.bind
    apply completes_utcnow
    intro now
    apply Machine.Returns.bind
    apply completes_updateInvocation h hf
    · rw [decide_eq_true hf.userId, decide_eq_true rfl]
      rfl
    rw [if_pos rfl]
    obtain ⟨h₁, he₁, hf₁⟩ := h.putInvocation hf (startInvocation now r) rfl hf.userId hf.key
    obtain ⟨h₂, he₂⟩ := h₁.commit userId key
    apply Machine.Returns.bind
    apply completes_commit
    apply Machine.Returns.bind
    apply completes_getInvocation hf₁.commit
    exact Machine.Returns.pure (hQ now _ h₂ (he₁.trans he₂) hf₁.commit)
  · intro hne
    simp only [ne_eq, decide_not, Bool.and_eq_true, Bool.not_eq_true', decide_eq_false_iff_not]
      at hne
    exact hstatus.elim hne.1 hne.2

/-- A row that has ended, or is not to be started, is reported. -/
theorem completes_claimRow_report {toolName key : String} {input : PyMapping} {r : ToolInvocation}
    {a : Option Approval} (h : Orderly i s) (hf : Found i userId key s r a)
    (heff : Effective sha256 toolName input r) (hpending : r.status ≠ .pending)
    (happroved : r.status ≠ .approved) {Q : Option ToolInvocationClaim → Store → Prop}
    (hQ : ∀ s', Orderly i s' → Elsewhere i userId key s s' → Found i userId key s' r a →
      Q (some (claimSnapshot r false)) s') :
    Completes i (claimRow sha256 userId toolName input r) Q s := by
  unfold claimRow
  apply Machine.Returns.bind
  apply completes_raiseIf
  · rw [heff.1, heff.2]
    simp
  rw [if_pos]
  · obtain ⟨h₁, he₁⟩ := h.commit userId key
    apply Machine.Returns.bind
    apply completes_commit
    apply Machine.Returns.bind
    apply completes_getInvocation hf.commit
    exact Machine.Returns.pure (hQ _ h₁ he₁ hf.commit)
  · rw [decide_eq_true hpending, decide_eq_true happroved]
    rfl

/-- A claim for a row that is there. -/
theorem completes_claim_found {toolName : String} {input : PyMapping} {r : ToolInvocation}
    {a : Option Approval} (hv : ValidIdentity threadId runtimeRunId q.toolCallId)
    (hforeign : ¬Foreign userId threadId s) (h : Orderly i s)
    (hf : Found i userId (q.key sha256 userId threadId) s r a)
    (ho : Original sha256 threadId q r) (heff : Effective sha256 toolName input r)
    (hpending : r.status ≠ .pending) {Q : ToolInvocationClaim → Store → Prop}
    (hstart : r.status = .approved → ∀ r' claim s', Orderly i s' →
      Elsewhere i userId (q.key sha256 userId threadId) s s' →
      Found i userId (q.key sha256 userId threadId) s' r' a → Original sha256 threadId q r' →
      Effective sha256 toolName input r' → r'.status = .running → claim.shouldExecute = true →
      Q claim s')
    (hreport : r.status ≠ .approved → ∀ r' claim s', Orderly i s' →
      Elsewhere i userId (q.key sha256 userId threadId) s s' →
      Found i userId (q.key sha256 userId threadId) s' r' a → Original sha256 threadId q r' →
      Effective sha256 toolName input r' → r'.status = r.status → claim.shouldExecute = false →
      Q claim s') :
    Completes i (claimToolInvocation sha256 userId threadId runtimeRunId q.toolCallId toolName
      input) Q s := by
  rw [claimToolInvocation_eq]
  apply Machine.Returns.bind
  apply completes_rollbackOnError
  apply Machine.Returns.bind
  apply completes_ensureInvocation_found hv hforeign h hf (ho.accepts_effective heff) hpending
  intro r' s' h' he hf' hsame
  by_cases happroved : r.status = .approved
  · apply completes_claimRow_start h' hf' (hsame.effective heff)
      (.inr (hsame.status.trans happroved))
    intro now s'' h'' he' hf''
    apply Machine.Returns.pure
    have ho' := hsame.original ho
    have heff' := hsame.effective heff
    exact hstart happroved _ _ s'' h'' (he.trans he') hf''
      ⟨ho'.threadId, ho'.toolCallId, ho'.toolName, ho'.requestedInput⟩ heff' rfl rfl
  · have hstatus := hsame.status
    apply completes_claimRow_report h' hf' (hsame.effective heff)
    · rw [hstatus]
      exact hpending
    · rw [hstatus]
      exact happroved
    intro s'' h'' he' hf''
    apply Machine.Returns.pure
    exact hreport happroved _ _ s'' h'' (he.trans he') hf'' (hsame.original ho)
      (hsame.effective heff) hstatus rfl

/-- The first claim of a call that needs no decision starts it. -/
theorem completes_claim_absent (hv : ValidIdentity threadId runtimeRunId q.toolCallId)
    (hforeign : ¬Foreign userId threadId s) (h : Orderly i s)
    (habsent : NotYet sha256 userId threadId i q s) {Q : ToolInvocationClaim → Store → Prop}
    (hQ : ∀ claim s', Orderly i s' → Elsewhere i userId (q.key sha256 userId threadId) s s' →
      Started sha256 userId threadId i q s' → claim.shouldExecute = true → Q claim s') :
    Completes i (claimToolInvocation sha256 userId threadId runtimeRunId q.toolCallId q.toolName
      q.input) Q s := by
  rw [claimToolInvocation_eq]
  apply Machine.Returns.bind
  apply completes_rollbackOnError
  apply Machine.Returns.bind
  apply completes_ensureInvocation_absent hv hforeign h habsent
  rintro r' s' h' he hf' ⟨conversationId, now, n, hrow⟩
  have heff : Effective sha256 q.toolName q.input r' := by
    rw [hrow]
    exact ⟨rfl, rfl⟩
  have hstatus : r'.status = .pending := by
    rw [hrow]
    rfl
  apply completes_claimRow_start h' hf' heff (.inl hstatus)
  intro later s'' h'' he' hf''
  apply Machine.Returns.pure
  refine hQ _ s'' h'' (he.trans he') ⟨_, hf'', ?_, heff, rfl⟩ rfl
  rw [hrow]
  exact ⟨rfl, rfl, rfl, rfl⟩

end

end HyChat
