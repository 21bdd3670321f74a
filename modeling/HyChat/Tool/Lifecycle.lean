import HyChat.Tool.Service

/-!
# The life of an invocation and its approval

What may happen to a row from one committed version to the next, and which pairs of an invocation
and its approval may stand next to each other. Nothing here speaks of sessions or statements: this
is the abstract machine that the service's interleaved statements are shown to follow.

* `ToolInvocation.Evolves` and `Approval.Evolves` — one row, from one version to a later one.
* `Coupled` — the two rows of a slot, both committed. The source never states it; it is what makes
  the unconditional flush of `_ensure_invocation` harmless, because it says in particular that no
  committed invocation is `PENDING`.

Why edges and not a function of the status. Several operations move an invocation, at different
moments, and the conditional updates skip intermediate statuses; between two versions that somebody
reads there may be several edges. `Reaches` is their reflexive transitive closure, and the three
predicates on statuses (`executed`, `terminal`, `settled`) are closed along it, which is all the
rest of the development uses.

`Evolves` says besides that the call a row stands for never changes, that the payload is frozen
once it is settled, and that a terminal row is frozen altogether. The attempts are tied to the
status, so "executed at most once" is read off a row as well as off the log of returns.
-/

set_option autoImplicit false

namespace HyChat

open Lib Relation

/-! ## Statuses -/

namespace ToolInvocationStatus

/-- The edges of the invocation's state machine. -/
inductive Edge : ToolInvocationStatus → ToolInvocationStatus → Prop
  | requireApproval : Edge .pending .pendingApproval
  | start : Edge .pending .running
  | approve : Edge .pendingApproval .approved
  | reject : Edge .pendingApproval .rejected
  | startApproved : Edge .approved .running
  | succeed : Edge .running .succeeded
  | fail : Edge .running .failed

/-- A composition of edges. -/
abbrev Reaches : ToolInvocationStatus → ToolInvocationStatus → Prop := ReflTransGen Edge

/-- The tool has been started. -/
def executed : ToolInvocationStatus → Bool
  | .running | .succeeded | .failed => true
  | _ => false

/-- Nothing happens to the row any more. -/
def terminal : ToolInvocationStatus → Bool
  | .succeeded | .failed | .rejected => true
  | _ => false

/-- The payload to execute is fixed. -/
def settled : ToolInvocationStatus → Bool
  | .pending | .pendingApproval => false
  | _ => true

/-- A predicate that every edge preserves is preserved. -/
theorem Reaches.closed {P : ToolInvocationStatus → Bool}
    (hP : ∀ a b, Edge a b → P a = true → P b = true) {a b : ToolInvocationStatus}
    (h : Reaches a b) (ha : P a = true) : P b = true := by
  induction h with
  | refl => exact ha
  | tail _ he ih => exact hP _ _ he ih

/-- What has been started stays started. -/
theorem Reaches.executed {a b : ToolInvocationStatus} (h : Reaches a b)
    (ha : a.executed = true) : b.executed = true :=
  h.closed (fun _ _ he h => by cases he <;> simp_all [ToolInvocationStatus.executed]) ha

/-- A payload that is settled stays so. -/
theorem Reaches.settled {a b : ToolInvocationStatus} (h : Reaches a b)
    (ha : a.settled = true) : b.settled = true :=
  h.closed (fun _ _ he _ => by cases he <;> simp_all [ToolInvocationStatus.settled]) ha

/-- A terminal status is left by no edge. -/
theorem Reaches.eq_of_terminal {a b : ToolInvocationStatus} (h : Reaches a b)
    (ha : a.terminal = true) : b = a := by
  induction h with
  | refl => rfl
  | tail _ he ih =>
    subst ih
    cases he <;> exact absurd ha (by decide)

theorem settled_of_executed {a : ToolInvocationStatus} (h : a.executed = true) :
    a.settled = true := by
  cases a <;> simp_all [ToolInvocationStatus.executed, ToolInvocationStatus.settled]

end ToolInvocationStatus

/-! ## One row -/

/-- **From one version of an invocation to a later one.** What identifies the call and what was
    requested never change; the status follows the edges; the payload to execute changes only
    while the call awaits its decision; a finished row is left alone. -/
structure ToolInvocation.Evolves (r r' : ToolInvocation) : Prop where
  id : r'.id = r.id
  userId : r'.userId = r.userId
  threadId : r'.threadId = r.threadId
  toolCallId : r'.toolCallId = r.toolCallId
  idempotencyKey : r'.idempotencyKey = r.idempotencyKey
  toolName : r'.toolName = r.toolName
  requestedInput : r'.requestedInput = r.requestedInput
  status : r.status.Reaches r'.status
  effective : r.status.settled = true →
    r'.effectiveToolName = r.effectiveToolName ∧ r'.effectiveInput = r.effectiveInput
  finished : r.status.terminal = true →
    r'.output = r.output ∧ r'.errorMessage = r.errorMessage ∧ r'.completedAt = r.completedAt

theorem ToolInvocation.Evolves.refl (r : ToolInvocation) : r.Evolves r :=
  ⟨rfl, rfl, rfl, rfl, rfl, rfl, rfl, .refl, fun _ => ⟨rfl, rfl⟩, fun _ => ⟨rfl, rfl, rfl⟩⟩

/-- Versions evolve step by step. -/
theorem ToolInvocation.Evolves.trans {r r' r'' : ToolInvocation} (h : r.Evolves r')
    (h' : r'.Evolves r'') : r.Evolves r'' where
  id := h'.id.trans h.id
  userId := h'.userId.trans h.userId
  threadId := h'.threadId.trans h.threadId
  toolCallId := h'.toolCallId.trans h.toolCallId
  idempotencyKey := h'.idempotencyKey.trans h.idempotencyKey
  toolName := h'.toolName.trans h.toolName
  requestedInput := h'.requestedInput.trans h.requestedInput
  status := h.status.trans h'.status
  effective := by
    intro hs
    obtain ⟨hn, hi⟩ := h.effective hs
    obtain ⟨hn', hi'⟩ := h'.effective (h.status.settled hs)
    exact ⟨hn'.trans hn, hi'.trans hi⟩
  finished := by
    intro ht
    obtain ⟨ho, he, hc⟩ := h.finished ht
    obtain ⟨ho', he', hc'⟩ := h'.finished (by rw [h.status.eq_of_terminal ht]; exact ht)
    exact ⟨ho'.trans ho, he'.trans he, hc'.trans hc⟩

theorem ToolInvocation.Evolves.hasKey {r r' : ToolInvocation} (h : r.Evolves r')
    (userId key : String) : r'.hasKey userId key = r.hasKey userId key := by
  rw [ToolInvocation.hasKey, ToolInvocation.hasKey, h.userId, h.idempotencyKey]

/-- **From one version of an approval to a later one.** Once decided it does not change. -/
structure Approval.Evolves (a a' : Approval) : Prop where
  invocationId : a'.invocationId = a.invocationId
  userId : a'.userId = a.userId
  idempotencyKey : a'.idempotencyKey = a.idempotencyKey
  decided : a.status ≠ .pending → a' = a

theorem Approval.Evolves.refl (a : Approval) : a.Evolves a := ⟨rfl, rfl, rfl, fun _ => rfl⟩

theorem Approval.Evolves.trans {a a' a'' : Approval} (h : a.Evolves a') (h' : a'.Evolves a'') :
    a.Evolves a'' where
  invocationId := h'.invocationId.trans h.invocationId
  userId := h'.userId.trans h.userId
  idempotencyKey := h'.idempotencyKey.trans h.idempotencyKey
  decided := by
    intro hd
    have ha := h.decided hd
    rw [h'.decided (by rw [ha]; exact hd), ha]

/-- A row that is there stays and evolves; a row that is not may appear. -/
def Later {α : Type} (R : α → α → Prop) (o o' : Option α) : Prop :=
  ∀ r, o = some r → ∃ r', o' = some r' ∧ R r r'

theorem Later.refl {α : Type} {R : α → α → Prop} (hR : ∀ r, R r r) (o : Option α) :
    Later R o o := fun r h => ⟨r, h, hR r⟩

theorem Later.trans {α : Type} {R : α → α → Prop} (hR : ∀ a b c, R a b → R b c → R a c)
    {o o' o'' : Option α} (h : Later R o o') (h' : Later R o' o'') : Later R o o'' := by
  intro r hr
  obtain ⟨r', hr', hrr'⟩ := h r hr
  obtain ⟨r'', hr'', hrr''⟩ := h' r' hr'
  exact ⟨r'', hr'', hR r r' r'' hrr' hrr''⟩

/-! ## Where a row's payload comes from -/

section

variable (sha256 : Sha256) (issued : Call → Prop)

/-- A row for this scope and these arguments. -/
def ToolInvocation.IsFor (userId : String) (threadId : Option String)
    (toolCallId toolName : String) (requestedInput : PyMapping) (r : ToolInvocation) : Prop :=
  r.userId = userId ∧ r.threadId = threadId ∧ r.toolCallId = toolCallId ∧
    r.toolName = toolName ∧ r.requestedInput = jsonObject sha256 (.mapping requestedInput)

/-- The call is one that presents the scope of `r` with the arguments `r` was created with. -/
def Call.Registers (r : ToolInvocation) : Call → Prop
  | .ensurePendingApprovals userId threadId _ toolCalls =>
      ∃ tc ∈ toolCalls, r.IsFor sha256 userId threadId (orDefault tc.id "")
        (orDefault tc.name "unknown") tc.args.asMapping
  | .recordApprovalDecisions userId threadId _ decisions =>
      ∃ d ∈ decisions, r.IsFor sha256 userId threadId d.toolCallId d.toolName d.requestedInput
  | .claimToolInvocation userId threadId _ toolCallId toolName requestedInput =>
      r.IsFor sha256 userId threadId toolCallId toolName requestedInput
  | _ => False

/-- The call carries a decision for `r` with the outcome and the payload recorded. -/
def Call.Decides (r : ToolInvocation) (a : Approval) : Call → Prop
  | .recordApprovalDecisions userId threadId _ decisions =>
      r.userId = userId ∧ r.threadId = threadId ∧ ∃ d ∈ decisions,
        r.toolCallId = d.toolCallId ∧ approvalStatus? d.decisionType = some a.status ∧
        a.decisionPayload = jsonObject sha256 (.mapping d.decisionPayload) ∧
        r.effectiveToolName = d.effectiveToolName ∧
        r.effectiveInput = jsonObject sha256 (.mapping d.effectiveInput)
  | _ => False

/-- The payload to execute is the one that was requested. -/
def ToolInvocation.Original (r : ToolInvocation) : Prop :=
  r.effectiveToolName = r.toolName ∧ r.effectiveInput = r.requestedInput

/-- A version of the invocation with id `n` is well formed. -/
structure ToolInvocation.WellFormed (n : Nat) (r : ToolInvocation) : Prop where
  id : r.id = n
  key : r.idempotencyKey =
    invocationIdempotencyKey sha256 r.userId r.threadId r.toolCallId
  threadId : ∀ s, r.threadId = some s → s.length ≤ 64
  toolCallId : r.toolCallId ≠ "" ∧ r.toolCallId.length ≤ 255
  attempts : r.attemptCount = if r.status.executed then 1 else 0
  registered : ∃ call, issued call ∧ call.Registers sha256 r
  undecided : r.status.settled = false → r.Original

/-! ## Two rows -/

/-- The statuses an invocation may have next to an approval. -/
def ApprovalStatus.admits : ApprovalStatus → ToolInvocationStatus → Bool
  | .pending, status => status = .pendingApproval || status.executed
  | .rejected, status => status = .rejected
  | _, status => status = .approved || status.executed

/-- **The committed invocation and the committed approval of a slot.** An invocation without an
    approval has been started; one with an undecided approval awaits the decision or has been
    started; one with a decided approval carries the decision's payload. -/
def Coupled : Option ToolInvocation → Option Approval → Prop
  | none, none => True
  | none, some _ => False
  | some r, none => r.status.executed = true ∧ r.Original
  | some r, some a =>
      a.userId = r.userId ∧ a.idempotencyKey = r.idempotencyKey ∧
      a.status.admits r.status = true ∧
      (a.status = .pending → r.Original) ∧
      (a.status ≠ .pending → ∃ call, issued call ∧ call.Decides sha256 r a)

variable {sha256} {issued}

/-- There is no approval without an invocation. -/
theorem Coupled.none_left {a : Option Approval} (h : Coupled sha256 issued none a) :
    a = none := by
  cases a with
  | none => rfl
  | some a => exact h.elim

/-- The invariant nobody states. -/
theorem Coupled.ne_pending {r : ToolInvocation} {a : Option Approval}
    (h : Coupled sha256 issued (some r) a) : r.status ≠ .pending := by
  intro hp
  cases a with
  | none =>
    have he := h.1
    rw [hp] at he
    exact absurd he (by decide)
  | some a =>
    have ha := h.2.2.1
    rw [hp] at ha
    cases hs : a.status <;> rw [hs] at ha <;> exact absurd ha (by decide)

/-- An approved invocation has an approval that says so. -/
theorem Coupled.of_approved {r : ToolInvocation} {a : Option Approval}
    (h : Coupled sha256 issued (some r) a) (hr : r.status = .approved) :
    ∃ a', a = some a' ∧ (a'.status = .approved ∨ a'.status = .edited) := by
  cases a with
  | none =>
    have he := h.1
    rw [hr] at he
    exact absurd he (by decide)
  | some a =>
    have ha := h.2.2.1
    rw [hr] at ha
    refine ⟨a, rfl, ?_⟩
    cases hs : a.status with
    | approved => exact .inl rfl
    | edited => exact .inr rfl
    | pending => rw [hs] at ha; exact absurd ha (by decide)
    | rejected => rw [hs] at ha; exact absurd ha (by decide)

/-- The invocation's part in a pair: the pair stays coupled when the row changes only outside of
    it, or from approved or running to a later status. -/
theorem Coupled.mono {r r' : ToolInvocation} {a : Option Approval}
    (h : Coupled sha256 issued (some r) a) (he : r.Evolves r')
    (heff : r'.effectiveToolName = r.effectiveToolName ∧ r'.effectiveInput = r.effectiveInput)
    (hs : r'.status = r.status ∨
      (r'.status.executed = true ∧ (r.status.executed = true ∨ r.status = .approved))) :
    Coupled sha256 issued (some r') a := by
  have horig : r.Original → r'.Original := by
    rintro ⟨hn, hi⟩
    exact ⟨by rw [heff.1, he.toolName, hn], by rw [heff.2, he.requestedInput, hi]⟩
  cases a with
  | none =>
    refine ⟨?_, horig h.2⟩
    rcases hs with hs | ⟨hs, -⟩
    · rw [hs]; exact h.1
    · exact hs
  | some a =>
    obtain ⟨hu, hk, hadm, hor, hdec⟩ := h
    refine ⟨by rw [he.userId, hu], by rw [he.idempotencyKey, hk], ?_, fun hp => horig (hor hp),
      fun hp => ?_⟩
    · rcases hs with hs | ⟨hs', hs⟩
      · rw [hs]; exact hadm
      · cases hst : a.status with
        | pending => simp [ApprovalStatus.admits, hs']
        | approved => simp [ApprovalStatus.admits, hs']
        | edited => simp [ApprovalStatus.admits, hs']
        | rejected =>
          rw [hst] at hadm
          simp only [ApprovalStatus.admits, decide_eq_true_eq] at hadm
          rw [hadm] at hs
          rcases hs with hs | hs <;> exact absurd hs (by decide)
    · obtain ⟨call, hi, hd⟩ := hdec hp
      refine ⟨call, hi, ?_⟩
      cases call with
      | recordApprovalDecisions u t rid ds =>
        obtain ⟨h1, h2, d, hmem, h3, h4, h5, h6, h7⟩ := hd
        exact ⟨by rw [he.userId, h1], by rw [he.threadId, h2], d, hmem, by rw [he.toolCallId, h3],
          h4, h5, by rw [heff.1, h6], by rw [heff.2, h7]⟩
      | _ => exact hd.elim

theorem Call.Registers.evolves {r r' : ToolInvocation} (he : r.Evolves r') {call : Call}
    (h : call.Registers sha256 r) : call.Registers sha256 r' := by
  have hfor : ∀ {u t c n args}, r.IsFor sha256 u t c n args → r'.IsFor sha256 u t c n args := by
    rintro u t c n args ⟨h1, h2, h3, h4, h5⟩
    exact ⟨by rw [he.userId, h1], by rw [he.threadId, h2], by rw [he.toolCallId, h3],
      by rw [he.toolName, h4], by rw [he.requestedInput, h5]⟩
  cases call with
  | ensurePendingApprovals u t rid tcs =>
    obtain ⟨tc, hm, h⟩ := h
    exact ⟨tc, hm, hfor h⟩
  | recordApprovalDecisions u t rid ds =>
    obtain ⟨d, hm, h⟩ := h
    exact ⟨d, hm, hfor h⟩
  | claimToolInvocation u t rid c n args => exact hfor h
  | _ => exact h.elim

/-- A later version is well formed as soon as its attempts are counted right and its payload is
    final or the old one. -/
theorem ToolInvocation.WellFormed.evolves {n : Nat} {r r' : ToolInvocation}
    (h : r.WellFormed sha256 issued n) (he : r.Evolves r')
    (hattempts : r'.attemptCount = if r'.status.executed then 1 else 0)
    (hund : r'.status.settled = false → r'.effectiveToolName = r.effectiveToolName ∧
      r'.effectiveInput = r.effectiveInput) : r'.WellFormed sha256 issued n where
  id := by rw [he.id, h.id]
  key := by rw [he.idempotencyKey, he.userId, he.threadId, he.toolCallId, h.key]
  threadId := by
    rw [he.threadId]
    exact h.threadId
  toolCallId := by
    rw [he.toolCallId]
    exact h.toolCallId
  attempts := hattempts
  registered := by
    obtain ⟨call, hi, hc⟩ := h.registered
    exact ⟨call, hi, hc.evolves he⟩
  undecided := by
    intro hs
    have hr : r.status.settled = false := by
      by_contra hne
      rw [he.status.settled (by simpa using hne)] at hs
      exact absurd hs (by decide)
    obtain ⟨hn, hi⟩ := h.undecided hr
    obtain ⟨hn', hi'⟩ := hund hs
    exact ⟨by rw [hn', he.toolName, hn], by rw [hi', he.requestedInput, hi]⟩

end

/-! ## The writes of the service -/

/-- A write that leaves everything but the run id and the time stamp alone. -/
theorem ToolInvocation.Evolves.fill (r : ToolInvocation) (runtimeRunId : Option String)
    (now : Nat) : r.Evolves { r with runtimeRunId := runtimeRunId, updatedAt := now } :=
  ⟨rfl, rfl, rfl, rfl, rfl, rfl, rfl, .refl, fun _ => ⟨rfl, rfl⟩, fun _ => ⟨rfl, rfl, rfl⟩⟩

theorem ToolInvocation.Evolves.start {r : ToolInvocation}
    (hs : r.status = .pending ∨ r.status = .approved) (now : Nat) :
    r.Evolves (startInvocation now r) := by
  refine ⟨rfl, rfl, rfl, rfl, rfl, rfl, rfl, ?_, fun _ => ⟨rfl, rfl⟩, fun _ => ⟨rfl, rfl, rfl⟩⟩
  show r.status.Reaches .running
  rcases hs with hs | hs
  · rw [hs]; exact .single .start
  · rw [hs]; exact .single .startApproved

/-- A finishing write: the row was running, the new status is one of the two ends. -/
theorem ToolInvocation.Evolves.finish {r : ToolInvocation} (hs : r.status = .running)
    {status : ToolInvocationStatus} (hst : status = .succeeded ∨ status = .failed)
    (output : Json) (errorMessage : Option String) (completedAt : Option Nat) (now : Nat) :
    r.Evolves { r with
      status := status
      output := output
      errorMessage := errorMessage
      completedAt := completedAt
      updatedAt := now } := by
  refine ⟨rfl, rfl, rfl, rfl, rfl, rfl, rfl, ?_, fun _ => ⟨rfl, rfl⟩, fun ht => ?_⟩
  · show r.status.Reaches status
    rw [hs]
    rcases hst with rfl | rfl
    · exact .single .succeed
    · exact .single .fail
  · rw [hs] at ht
    exact absurd ht (by decide)

theorem decideInvocation_status (sha256 : Sha256) (decision : ApprovalDecision)
    (status : ApprovalStatus) (now : Nat) (r : ToolInvocation) :
    (decideInvocation sha256 decision status now r).status = invocationStatus status := by
  unfold decideInvocation
  by_cases h : invocationStatus status = .rejected <;> simp [h]

theorem decideInvocation_effective (sha256 : Sha256) (decision : ApprovalDecision)
    (status : ApprovalStatus) (now : Nat) (r : ToolInvocation) :
    (decideInvocation sha256 decision status now r).effectiveToolName =
        decision.effectiveToolName ∧
      (decideInvocation sha256 decision status now r).effectiveInput =
        jsonObject sha256 (.mapping decision.effectiveInput) := by
  unfold decideInvocation
  by_cases h : invocationStatus status = .rejected <;> simp [h]

theorem decideInvocation_attemptCount (sha256 : Sha256) (decision : ApprovalDecision)
    (status : ApprovalStatus) (now : Nat) (r : ToolInvocation) :
    (decideInvocation sha256 decision status now r).attemptCount = r.attemptCount := by
  unfold decideInvocation
  by_cases h : invocationStatus status = .rejected <;> simp [h]

theorem ToolInvocation.Evolves.decide {r : ToolInvocation} (hs : r.status = .pendingApproval)
    (sha256 : Sha256) (decision : ApprovalDecision) (status : ApprovalStatus) (now : Nat) :
    r.Evolves (decideInvocation sha256 decision status now r) := by
  have hreach : r.status.Reaches (decideInvocation sha256 decision status now r).status := by
    rw [decideInvocation_status, hs]
    unfold invocationStatus
    by_cases h : status = .rejected
    · rw [if_pos h]; exact .single .reject
    · rw [if_neg h]; exact .single .approve
  refine ⟨?_, ?_, ?_, ?_, ?_, ?_, ?_, hreach, fun hd => ?_, fun ht => ?_⟩
  case refine_8 => rw [hs] at hd; exact absurd hd (by decide)
  case refine_9 => rw [hs] at ht; exact absurd ht (by decide)
  all_goals
    unfold decideInvocation
    by_cases h : invocationStatus status = .rejected <;> simp [h]

end HyChat
