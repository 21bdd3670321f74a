import HyChat.Tool.Approvals

/-!
# `record_approval_decisions`

A decision is two conditional updates, and between them the two rows of the slot do not fit: the
approval is decided, the invocation still awaits it (`ReadyBut`). The second update either closes
the gap or loses a race, and then everything is rolled back.

Two specifications are drawn from the same pieces: a batch that is recorded for the first time
(`spec_recordApprovalDecisions`), and a batch that is recorded again (`spec_recordAgain`), where
every decision matches already, nothing is decided, and the only exceptions left are the driver's
and the owner check's.

Why `ReadyBut`. The invariant asks of the two rows of a slot that an approval which is decided
stands next to an invocation that is not waiting any more. Between the two updates that is false,
in the session's own view, and a commit at that moment would publish it. `ReadyBut n` says that the
session is ready but for slot `n`: enough for every lemma about other slots, and not enough for a
commit, so the proofs cannot leave the gap open by accident.

Why the second specification takes so little from the first. A batch that has been recorded is
found `Matched`, and `Matched` survives everything that others may do (`upward_matched`), so the
loop needs no bookkeeping about which decision has been handled: each one takes the branch in which
the rows match. What can still raise is then a statement that fails, and the check of the thread's
owner, who may have changed. What is asked of the decisions is `Replayable`: a decision whose
stored form is not a fixed point of the normalisation does not match its own record.

The comparison stands twice in the source: in the first pass, for a decision that is on record, and
in a second pass, which runs when an update of the first has lost its race and all was rolled back.
Both passes share the lemmas about one decision.
-/

set_option autoImplicit false

namespace HyChat

open Lib Relation

section

variable {sha256 : Sha256} {issued : Call → Prop} {i : Nat} {t : Tracked}

/-- The status a decision gives the invocation is one that the comparison accepts for it. -/
theorem invocationStatus_allowed {status : ApprovalStatus} :
    (allowedInvocationStatuses status).contains (invocationStatus status) = true := by
  cases status <;> decide

/-- **The pair a decision leaves behind.** -/
theorem Coupled.decide {r : ToolInvocation} {a : Approval} {d : ApprovalDecision}
    {status : ApprovalStatus} {now : Nat} {userId : String} {threadId runtimeRunId : Option String}
    {decisions : List ApprovalDecision} (hst : approvalStatus? d.decisionType = some status)
    (hissued : issued (.recordApprovalDecisions userId threadId runtimeRunId decisions))
    (hd : d ∈ decisions) (hr : r.status = .pendingApproval) (hru : r.userId = userId)
    (hrt : r.threadId = threadId) (hrc : r.toolCallId = d.toolCallId)
    (hau : a.userId = r.userId) (hak : a.idempotencyKey = r.idempotencyKey)
    (has : a.status = status)
    (hap : a.decisionPayload = jsonObject sha256 (.mapping d.decisionPayload)) :
    Coupled sha256 issued (some (decideInvocation sha256 d status now r)) (some a) := by
  have he := ToolInvocation.Evolves.decide hr sha256 d status now
  have heff := decideInvocation_effective sha256 d status now r
  have hne : status ≠ .pending := approvalStatus?_ne_pending hst
  refine ⟨by rw [he.userId, hau], by rw [he.idempotencyKey, hak], ?_,
    fun hp => absurd (by rw [← has, hp]) hne, fun _ => ⟨_, hissued, ?_⟩⟩
  · rw [has, decideInvocation_status]
    cases status <;> first | exact absurd rfl hne | rfl
  · exact ⟨by rw [he.userId, hru], by rw [he.threadId, hrt], d, hd, by rw [he.toolCallId, hrc],
      by rw [hst, has], hap, heff.1, heff.2⟩

variable (sha256) in
/-- A decision executes nothing: no decided status counts as executed. -/
theorem decideInvocation_executed (r : ToolInvocation) (d : ApprovalDecision)
    (status : ApprovalStatus) (now : Nat) :
    (decideInvocation sha256 d status now r).status.executed = false := by
  rw [decideInvocation_status]
  cases status <;> rfl

/-- The invocation a decision leaves behind is well formed, with the approval that goes with it. -/
theorem decideInvocation_wf {n : Nat} {r : ToolInvocation} (hw : r.WellFormed sha256 issued n)
    (hr : r.status = .pendingApproval) (d : ApprovalDecision) (status : ApprovalStatus)
    (now : Nat) : (decideInvocation sha256 d status now r).WellFormed sha256 issued n := by
  refine hw.evolves (.decide hr sha256 d status now) ?_ fun hs => ?_
  · rw [decideInvocation_attemptCount, decideInvocation_status, hw.attempts, hr]
    unfold invocationStatus
    by_cases h : status = .rejected <;> simp [h, ToolInvocationStatus.executed]
  · rw [decideInvocation_status] at hs
    unfold invocationStatus at hs
    by_cases h : status = .rejected <;> simp [h, ToolInvocationStatus.settled] at hs

/-- Rows written for a replayable decision match it. -/
theorem matchedRows_decide {d : ApprovalDecision} (hd : d.Replayable sha256)
    {status : ApprovalStatus} (hst : approvalStatus? d.decisionType = some status) (now : Nat)
    (r : ToolInvocation) {a : Approval} (has : a.status = status)
    (hap : a.decisionPayload = jsonObject sha256 (.mapping d.decisionPayload)) :
    MatchedRows sha256 d (decideInvocation sha256 d status now r) a := by
  obtain ⟨hn, hi⟩ := decideInvocation_effective sha256 d status now r
  refine ⟨status, hst, ?_⟩
  simp only [decisionMatches, has, hap, decideInvocation_status, invocationStatus_allowed, hn, hi,
    canonicalJson, hd.decisionPayload, hd.effectiveInput, decide_true, Bool.and_self]

/-! ## The pieces -/

section

variable {R G : Tracked → Tracked → Prop} {K : Tracked → Prop} {E : PyError → Tracked → Prop}
  {Z : ToolInvocation → Prop} {Y : Approval → Prop}
  {userId : String} {threadId runtimeRunId : Option String} {d : ApprovalDecision}

/-- An unknown decision type raises. -/
theorem spec_approvalStatus {P : Tracked → Prop} {decisionType : String}
    (hP : (toolParty sha256 issued i R G).Stable P)
    (h : approvalStatus? decisionType = none → ∀ t message, Inv sha256 issued t → P t →
      E (.approvalConflict message) t) :
    (toolParty sha256 issued i R G).Spec P (approvalStatus decisionType)
      (fun status t => approvalStatus? decisionType = some status ∧ P t) E := by
  unfold approvalStatus
  cases hs : approvalStatus? decisionType with
  | some status => exact Party.Spec.pure hP fun _ _ ht => ⟨rfl, ht⟩
  | none => exact Party.Spec.throw hP fun t hi ht => h hs t _ hi ht

variable (hR : ∀ t t', R t t' → ∃ j, j ≠ i ∧ Guar j t t') (hG : ∀ t t', Quiet i t t' → G t t')
include hR hG

/-- `_load_decision_rows`. An invocation that had to be inserted has no approval, so a session
    that gets past here is ready. -/
theorem spec_loadDecisionRows
    (hE : ∀ e, (toolParty sha256 issued i R G).Stable (E e))
    (hK : (toolParty sha256 issued i R G).Stable K)
    (hKs : Survives sha256 issued i userId threadId runtimeRunId d.toolCallId d.toolName
      d.requestedInput true K)
    (hZ : Reads sha256 issued i userId threadId d.toolCallId K Z)
    (hZa : ∀ t n r a, Inv sha256 issued t → K t → (t.store.slot n).invocation.view i = some r →
      r.userId = userId →
      r.idempotencyKey = invocationIdempotencyKey sha256 userId threadId d.toolCallId →
      (t.store.slot n).approval.view i = some a → Y a)
    (hreg : ∀ r : ToolInvocation,
      r.IsFor sha256 userId threadId d.toolCallId d.toolName d.requestedInput →
        ∃ call, issued call ∧ call.Registers sha256 r)
    (hX : Excused sha256 issued i userId threadId runtimeRunId d.toolCallId d.toolName
      d.requestedInput false K E)
    (hnone : ∀ t message n r, Inv sha256 issued t → K t →
      (t.store.slot n).invocation.view i = some r → r.userId = userId →
      r.idempotencyKey = invocationIdempotencyKey sha256 userId threadId d.toolCallId →
      (t.store.slot n).approval.view i = none → E (.approvalConflict message) t) :
    (toolParty sha256 issued i R G).Spec (fun t => Ready sha256 issued i t ∧ K t)
      (loadDecisionRows sha256 userId threadId runtimeRunId d)
      (fun p t => Loaded sha256 i userId threadId d.toolCallId d.toolName d.requestedInput
        p.1 p.2 t ∧ Z p.1 ∧ Y p.2 ∧ Ready sha256 issued i t ∧ K t) E := by
  unfold loadDecisionRows
  refine Party.Spec.bind (spec_ensureInvocation hR hG hE hK hKs hZ hreg hX) fun r => ?_
  let P : Tracked → Prop := fun t => Adopted sha256 issued i userId threadId d.toolCallId
    d.toolName d.requestedInput true false r t ∧ Z r ∧ K t
  have hP : (toolParty sha256 issued i R G).Stable P :=
    (stable_adopted hR r).and ((Party.Stable.pure _).and hK)
  let Q : Approval → Tracked → Prop := fun a t =>
    Loaded sha256 i userId threadId d.toolCallId d.toolName d.requestedInput r a t ∧ Z r ∧ Y a ∧
      Ready sha256 issued i t ∧ K t
  have hQ : ∀ a, (toolParty sha256 issued i R G).Stable (Q a) := fun a =>
    (stable_upward hR (upward_loaded _ _ _ _ _ r a)).and <| (Party.Stable.pure _).and <|
      (Party.Stable.pure _).and <| (stable_ready hR).and hK
  let M : Option Approval → Tracked → Prop := fun
    | some a => Q a
    | none => E (.approvalConflict "工具调用没有待处理的审批记录")
  have hM : ∀ o, (toolParty sha256 issued i R G).Stable (M o) := by
    intro o
    cases o with
    | none => exact hE _
    | some a => exact hQ a
  refine Party.Spec.bind (M := M) (spec_read
    (fun _ s => ((s.slot r.id).approval.view i).filter (·.userId = userId)) (fun _ _ => rfl) hP hM
    hE hG (fun t hi h => hX.fault t hi h.2.2) ?_) fun o => ?_
  · rintro t _ hi ⟨⟨hu, hk, hacc, ⟨r', hr', he⟩, hcase⟩, hz, hKt⟩
    have hkey : r'.userId = userId ∧ r'.idempotencyKey =
        invocationIdempotencyKey sha256 userId threadId d.toolCallId :=
      ⟨by rw [he.userId, hu], by rw [he.idempotencyKey, hk]⟩
    cases ha : (t.store.slot r.id).approval.view i with
    | none => exact hnone t _ r.id r' hi hKt hr' hkey.1 hkey.2 ha
    | some a =>
      obtain ⟨hat, r₁, hr₁, hu₁, -⟩ := (hi.slots r.id).approval_view_at ha
      rw [hr', Option.some.injEq] at hr₁
      subst hr₁
      have hau : a.userId = userId := by rw [hu₁, hkey.1]
      simp only [Option.filter_some, hau, decide_true, if_true]
      refine ⟨⟨hu, hk, hacc, ⟨r', hr', he⟩, hat, hau, a, by rw [hat, ha], .refl a⟩, hz,
        hZa t r.id r' a hi hKt hr' hkey.1 hkey.2 ha, ?_, hKt⟩
      rcases hcase with ⟨hready, -⟩ | ⟨hfr, -⟩
      · exact hready
      · rw [Cell.view_of_not_own hfr.2.2.2,
          (hi.approval_empty hfr.2.1 hfr.2.2.1 hfr.2.2.2 i).1] at ha
        exact absurd ha (by simp)
  · cases o with
    | none => exact Party.Spec.throw (hM none) fun _ _ h => h
    | some a => exact Party.Spec.pure (hQ a) fun _ _ h => h

/-- The two updates of a decision. -/
theorem spec_applyDecision {now : Nat} {r : ToolInvocation} {a : Approval}
    {decisions : List ApprovalDecision}
    (hE : ∀ e, (toolParty sha256 issued i R G).Stable (E e))
    (hK : (toolParty sha256 issued i R G).Stable K)
    (hKw : Withstands sha256 issued i userId threadId d.toolCallId K)
    (hissued : issued (.recordApprovalDecisions userId threadId runtimeRunId decisions))
    (hd : d ∈ decisions)
    (hfault : ∀ t, Inv sha256 issued t → K t → E .databaseError t)
    (htype : ∀ t message, Inv sha256 issued t → K t → E (.approvalConflict message) t)
    (hlost : ∀ t, Inv sha256 issued t → K t → E .concurrentDecision t) :
    (toolParty sha256 issued i R G).Spec
      (fun t => Loaded sha256 i userId threadId d.toolCallId d.toolName d.requestedInput r a t ∧
        Ready sha256 issued i t ∧ K t)
      (applyDecision sha256 userId now d r a)
      (fun _ t => Ready sha256 issued i t ∧ K t ∧
        (d.Replayable sha256 → Matched sha256 i userId threadId d t)) E := by
  have hP : (toolParty sha256 issued i R G).Stable fun t =>
      Loaded sha256 i userId threadId d.toolCallId d.toolName d.requestedInput r a t ∧
        Ready sha256 issued i t ∧ K t :=
    (stable_upward hR (upward_loaded _ _ _ _ _ r a)).and ((stable_ready hR).and hK)
  unfold applyDecision
  refine Party.Spec.bind (spec_approvalStatus hP fun _ t m hi h => htype t m hi h.2.2)
    fun status => Party.Spec.pure_pre fun hst => ?_
  have hne : status ≠ .pending := approvalStatus?_ne_pending hst
  -- the approval is decided, the invocation is not yet
  let B : Tracked → Prop := fun t => K t ∧ ReadyBut sha256 issued i r.id t ∧ Sees i r t ∧
    r.userId = userId ∧
    r.idempotencyKey = invocationIdempotencyKey sha256 userId threadId d.toolCallId ∧
    Accepts sha256 threadId d.toolCallId d.toolName
      (jsonObject sha256 (.mapping d.requestedInput)) false r ∧
    ∃ a₁ : Approval, a₁.userId = r.userId ∧ a₁.idempotencyKey = r.idempotencyKey ∧
      a₁.status = status ∧
      a₁.decisionPayload = jsonObject sha256 (.mapping d.decisionPayload) ∧
      (t.store.slot r.id).approval.own i = some (some a₁)
  have hB : (toolParty sha256 issued i R G).Stable B :=
    hK.and <| (stable_readyBut hR r.id).and <| (stable_sees hR r).and <| (Party.Stable.pure _).and <|
      (Party.Stable.pure _).and <| (Party.Stable.pure _).and <| Party.Stable.exists fun a₁ =>
        (Party.Stable.pure _).and <| (Party.Stable.pure _).and <| (Party.Stable.pure _).and <|
          (Party.Stable.pure _).and <| stable_own_approval hR r.id _
  let M : Nat → Tracked → Prop := fun k t => (k = 0 ∧ K t) ∨ (k = 1 ∧ B t)
  have hM : ∀ k, (toolParty sha256 issued i R G).Stable (M k) := fun k =>
    ((Party.Stable.pure _).and hK).or ((Party.Stable.pure _).and hB)
  refine Party.Spec.bind (M := M) (spec_updateApproval hP hM hE hG
    (fun t hi h => hfault t hi h.2.2) (fun t _ h _ => .inl ⟨rfl, h.2.2⟩) ?_) fun k => ?_
  · rintro t a₀ hi ⟨⟨hu, hk, hacc, hs, hid, -, -⟩, hready, hKt⟩ ha₀ hc
    simp only [Bool.and_eq_true, decide_eq_true_eq] at hc
    have hev : a₀.Evolves (decideApproval sha256 userId d status now a₀) :=
      ⟨rfl, rfl, rfl, fun hne => absurd hc.2 hne⟩
    refine ⟨hev, .inr ⟨rfl, ?_⟩⟩
    obtain ⟨-, r', hr', hu', hk'⟩ := (hi.slots a.invocationId).approval_view_at ha₀
    rw [hid] at ha₀ hr' ⊢
    have hev' : ∀ a', (t.store.slot r.id).approval.view i = some a' →
        a'.Evolves (decideApproval sha256 userId d status now a₀) := by
      intro a' ha'
      rw [ha₀, Option.some.injEq] at ha'
      subst ha'
      exact hev
    obtain ⟨r₁, hr₁, he⟩ := hs
    rw [hr', Option.some.injEq] at hr₁
    subst hr₁
    refine ⟨hKw.approval t r.id r' _ hi hKt hr' (by rw [he.userId, hu])
      (by rw [he.idempotencyKey, hk]) hev', (hready.but r.id).putApproval _,
      upward_sees r t _ (.putApproval hev') ⟨r', hr', he⟩, hu, hk, hacc,
      decideApproval sha256 userId d status now a₀, ?_, ?_, rfl, rfl, ?_⟩
    · show a₀.userId = r.userId
      rw [hu', he.userId]
    · show a₀.idempotencyKey = r.idempotencyKey
      rw [hk', he.idempotencyKey]
    · simp only [Store.putApproval_slot_self, Cell.own_write_self]
  refine Party.Spec.bind (spec_raiseIf (hM k) fun hc t hi h => ?_) fun _ =>
    Party.Spec.pure_pre fun hk1 => ?_
  · rcases h with ⟨-, h⟩ | ⟨h1, -⟩
    · exact hlost t hi h
    · exact absurd h1 (by simpa using hc)
  have hk1' : k = 1 := by simpa using hk1
  -- the second update closes the gap
  let Q : Tracked → Prop := fun t => Ready sha256 issued i t ∧ K t ∧
    (d.Replayable sha256 → Matched sha256 i userId threadId d t)
  have hQ : (toolParty sha256 issued i R G).Stable Q :=
    (stable_ready hR).and <| hK.and <| Party.Stable.forall fun _ =>
      stable_upward hR (upward_matched userId threadId d)
  let N : Nat → Tracked → Prop := fun k t => (k = 0 ∧ K t) ∨ (k = 1 ∧ Q t)
  have hN : ∀ k, (toolParty sha256 issued i R G).Stable (N k) := fun k =>
    ((Party.Stable.pure _).and hK).or ((Party.Stable.pure _).and hQ)
  refine Party.Spec.bind (M := N) ((spec_updateInvocation hB hN hE hG
    (fun t hi h => hfault t hi h.1) (fun t _ h _ => .inl ⟨rfl, h.1⟩) ?_).pre ?_) fun k' => ?_
  · rintro t r₁ hi ⟨hKt, hbut, ⟨r₂, hr₂, he⟩, hu, hk, hacc, a₁, hau, hak, has, hap, hown⟩ hr₁ hc
    rw [hr₁, Option.some.injEq] at hr₂
    subst hr₂
    simp only [Bool.and_eq_true, decide_eq_true_eq] at hc
    have hev := ToolInvocation.Evolves.decide hc.2 sha256 d status now
    have hnx := decideInvocation_executed sha256 r₁ d status now
    refine ⟨hev, decideInvocation_wf ((hi.slots r.id).view_wf hr₁) hc.2 d status now,
      fun hx => absurd hx (by simp [hnx]), .inr ⟨rfl, ReadyBut.ready (n := r.id) ?_ ?_, ?_, fun hrep => ?_⟩⟩
    · intro m hm
      simp only [Store.putInvocation_slot_of_ne hm]
      exact hbut m hm
    · simp only [Store.putInvocation_slot_self]
      unfold Safe
      rw [Cell.own_write_self, hown]
      exact Coupled.decide hst hissued hd hc.2 (by rw [he.userId, hu])
        (by rw [he.threadId, hacc.1]) (by rw [he.toolCallId, hacc.2.1])
        (by rw [he.userId, hau]) (by rw [he.idempotencyKey, hak]) has hap
    · exact hKw.invocation t r.id r₁ _ hi hKt hr₁ (by rw [he.userId, hu])
        (by rw [he.idempotencyKey, hk]) hev hnx
    · refine ⟨r.id, decideInvocation sha256 d status now r₁, a₁, ?_, ?_, ?_, ?_,
        (hacc.evolves he).evolves hev, matchedRows_decide hrep hst now r₁ has hap⟩
      · simp only [Store.putInvocation_slot_self, Cell.view_write_self]
      · simp only [Store.putInvocation_slot_self, Cell.view_of_own hown]
      · rw [hev.userId, he.userId, hu]
      · rw [hev.idempotencyKey, he.idempotencyKey, hk]
  · rintro t hi (⟨h0, -⟩ | ⟨-, h⟩)
    · exact absurd h0 (by rw [hk1']; decide)
    · exact h
  refine (spec_raiseIf (hN k') fun hc t hi h => ?_).post fun _ t _ h => ?_
  · rcases h with ⟨-, h⟩ | ⟨h1, -⟩
    · exact hlost t hi h
    · exact absurd h1 (by simpa using hc)
  · rcases h with ⟨hk2, ⟨h0, -⟩ | ⟨-, h⟩⟩
    · subst h0
      exact absurd hk2 (by simp)
    · exact h

/-! ## Recording a batch -/

omit hR hG in
/-- If every exception is excused, the exceptions of `_ensure_invocation` are. -/
theorem Excused.of_all {toolCallId toolName : String} {requestedInput : PyMapping}
    {allowEffectiveMatch : Bool} (h : ∀ e t, Inv sha256 issued t → K t → E e t) :
    Excused sha256 issued i userId threadId runtimeRunId toolCallId toolName requestedInput
      allowEffectiveMatch K E :=
  ⟨fun t hi hk => h _ t hi hk, fun _ t _ hi hk => h _ t hi hk, fun t _ hi hk _ => h _ t hi hk,
    fun t _ _ hi hk _ _ _ _ => h _ t hi hk⟩

variable {decisions : List ApprovalDecision}

omit hG in
/-- A decision that is already recorded is compared with what is on record. -/
theorem spec_checkDecision {r : ToolInvocation} {a : Approval} {message : String}
    (hK : (toolParty sha256 issued i R G).Stable K)
    (hX : ∀ e t, Inv sha256 issued t → K t → E e t) :
    (toolParty sha256 issued i R G).Spec
      (fun t => Loaded sha256 i userId threadId d.toolCallId d.toolName d.requestedInput r a t ∧
        True ∧ True ∧ Ready sha256 issued i t ∧ K t)
      (do
        let expected ← approvalStatus d.decisionType
        raiseIf (!decisionMatches sha256 a r d expected) (.approvalConflict message))
      (fun _ t => Ready sha256 issued i t ∧ K t ∧
        (d.Replayable sha256 → Matched sha256 i userId threadId d t)) E := by
  have hL : (toolParty sha256 issued i R G).Stable fun t =>
      Loaded sha256 i userId threadId d.toolCallId d.toolName d.requestedInput r a t ∧ True ∧
        True ∧ Ready sha256 issued i t ∧ K t :=
    (stable_upward hR (upward_loaded _ _ _ _ _ r a)).and <| (Party.Stable.pure _).and <|
      (Party.Stable.pure _).and <| (stable_ready hR).and hK
  refine Party.Spec.bind (spec_approvalStatus hL fun _ t m hi h => hX _ t hi h.2.2.2.2)
    fun status => Party.Spec.pure_pre fun hst => ?_
  refine (spec_raiseIf hL fun _ t hi h => hX _ t hi h.2.2.2.2).post fun _ t _ h => ?_
  obtain ⟨hm, hl, -, -, hready, hKt⟩ := h
  exact ⟨hready, hKt, fun _ => hl.matched ⟨status, hst, by simpa using hm⟩⟩

/-- The first pass over one decision: the session is ready again afterwards and the rows match, or
it raises and everything is rolled back by the caller. -/
theorem spec_recordDecision {now : Nat}
    (hE : ∀ e, (toolParty sha256 issued i R G).Stable (E e))
    (hK : (toolParty sha256 issued i R G).Stable K)
    (hKs : Survives sha256 issued i userId threadId runtimeRunId d.toolCallId d.toolName
      d.requestedInput true K)
    (hKw : Withstands sha256 issued i userId threadId d.toolCallId K)
    (hissued : issued (.recordApprovalDecisions userId threadId runtimeRunId decisions))
    (hd : d ∈ decisions) (hX : ∀ e t, Inv sha256 issued t → K t → E e t) :
    (toolParty sha256 issued i R G).Spec (fun t => Ready sha256 issued i t ∧ K t)
      (recordDecision sha256 userId threadId runtimeRunId now d)
      (fun _ t => Ready sha256 issued i t ∧ K t ∧
        (d.Replayable sha256 → Matched sha256 i userId threadId d t)) E := by
  unfold recordDecision
  refine Party.Spec.bind (spec_loadDecisionRows (Z := fun _ => True) (Y := fun _ => True) hR hG hE
    hK hKs Reads.true (fun _ _ _ _ _ _ _ _ _ _ => trivial) (fun r hr => ⟨_, hissued, d, hd, hr⟩)
    (Excused.of_all hX) fun t _ _ _ hi h _ _ _ _ => hX _ t hi h) fun p => ?_
  obtain ⟨r, a⟩ := p
  simp only
  by_cases ha : a.status ≠ .pending
  · rw [if_pos ha]
    exact spec_checkDecision hR hK hX
  · rw [if_neg ha]
    exact (spec_applyDecision hR hG hE hK hKw hissued hd (fun t hi h => hX _ t hi h)
      (fun t _ hi h => hX _ t hi h) fun t hi h => hX _ t hi h).pre
        fun t _ h => ⟨h.1, h.2.2.2⟩

/-- The second pass over one decision compares, and decides nothing. -/
theorem spec_verifyDecision
    (hE : ∀ e, (toolParty sha256 issued i R G).Stable (E e))
    (hK : (toolParty sha256 issued i R G).Stable K)
    (hKs : Survives sha256 issued i userId threadId runtimeRunId d.toolCallId d.toolName
      d.requestedInput true K)
    (hissued : issued (.recordApprovalDecisions userId threadId runtimeRunId decisions))
    (hd : d ∈ decisions) (hX : ∀ e t, Inv sha256 issued t → K t → E e t) :
    (toolParty sha256 issued i R G).Spec (fun t => Ready sha256 issued i t ∧ K t)
      (verifyDecision sha256 userId threadId runtimeRunId d)
      (fun _ t => Ready sha256 issued i t ∧ K t ∧
        (d.Replayable sha256 → Matched sha256 i userId threadId d t)) E := by
  unfold verifyDecision
  refine Party.Spec.bind (spec_loadDecisionRows (Z := fun _ => True) (Y := fun _ => True) hR hG hE
    hK hKs Reads.true (fun _ _ _ _ _ _ _ _ _ _ => trivial) (fun r hr => ⟨_, hissued, d, hd, hr⟩)
    (Excused.of_all hX) fun t _ _ _ hi h _ _ _ _ => hX _ t hi h) fun p => ?_
  obtain ⟨r, a⟩ := p
  simp only
  exact spec_checkDecision hR hK hX

omit hG in
variable (userId) (threadId) in
/-- The loop of either pass. -/
theorem spec_forDecisions {body : ApprovalDecision → Db Unit}
    (hK : (toolParty sha256 issued i R G).Stable K)
    (hbody : ∀ d ∈ decisions, ∀ K' : Tracked → Prop, Upward i K' →
      (toolParty sha256 issued i R G).Spec (fun t => Ready sha256 issued i t ∧ K t ∧ K' t) (body d)
        (fun _ t => Ready sha256 issued i t ∧ (K t ∧ K' t) ∧
          (d.Replayable sha256 → Matched sha256 i userId threadId d t)) E) :
    (toolParty sha256 issued i R G).Spec (fun t => Ready sha256 issued i t ∧ K t)
      (decisions.forM body)
      (fun _ t => Ready sha256 issued i t ∧ K t ∧ ∀ d ∈ decisions, d.Replayable sha256 →
        Matched sha256 i userId threadId d t) E := by
  -- the loop invariant: what is not left to do is matched
  let L : List ApprovalDecision → Tracked → Prop := fun xs t => ∀ d ∈ decisions, d ∈ xs ∨
    (d.Replayable sha256 → Matched sha256 i userId threadId d t)
  have hL : ∀ xs, Upward i (L xs) := by
    intro xs t t' ho h d hd
    rcases h d hd with hx | hm
    · exact .inl hx
    · exact .inr fun hr => upward_matched userId threadId d t t' ho (hm hr)
  let J : List ApprovalDecision → Tracked → Prop := fun xs t =>
    Ready sha256 issued i t ∧ K t ∧ L xs t
  have hJ : ∀ xs, (toolParty sha256 issued i R G).Stable (J xs) := fun xs =>
    (stable_ready hR).and (hK.and (stable_upward hR (hL xs)))
  refine (Party.Spec.forM (J := J) (hJ []) decisions ?_).conseq ?_ ?_ fun _ _ _ h => h
  · intro d hd xs
    refine (hbody d hd (L (d :: xs)) (hL _)).post ?_
    rintro _ t _ ⟨hready, ⟨hKt, hLt⟩, hm⟩
    refine ⟨hready, hKt, fun d' hd' => ?_⟩
    rcases hLt d' hd' with hx | hm'
    · rcases List.mem_cons.mp hx with rfl | hx
      · exact .inr hm
      · exact .inl hx
    · exact .inr hm'
  · exact fun t _ h => ⟨h.1, h.2, fun d hd => .inl hd⟩
  · rintro _ t _ ⟨hready, hKt, hLt⟩
    refine ⟨hready, hKt, fun d hd => ?_⟩
    rcases hLt d hd with hx | hm
    · exact absurd hx (by simp)
    · exact hm

/-- The commit of either pass. -/
theorem spec_commitDecisions
    (hE : ∀ e, (toolParty sha256 issued i R G).Stable (E e))
    (hK : (toolParty sha256 issued i R G).Stable K)
    (hfault : ∀ t, Inv sha256 issued t → K t → E .databaseError t)
    (hcommit : ∀ t g, Inv sha256 issued t → K t → Guar i t ⟨t.store.commit i, g⟩ →
      G t ⟨t.store.commit i, g⟩) :
    (toolParty sha256 issued i R G).Spec
      (fun t => Ready sha256 issued i t ∧ K t ∧ ∀ d ∈ decisions, d.Replayable sha256 →
        Matched sha256 i userId threadId d t)
      (perform .commit)
      (fun _ t => Idle i t ∧ ∀ d ∈ decisions, d.Replayable sha256 →
        Matched sha256 i userId threadId d t) E := by
  have hQ : Upward i fun t => ∀ d ∈ decisions, d.Replayable sha256 →
      Matched sha256 i userId threadId d t :=
    fun t t' ho h d hd hr => upward_matched userId threadId d t t' ho (h d hd hr)
  refine spec_commit ((stable_ready hR).and (hK.and (stable_upward hR hQ)))
    (fun _ => (stable_idle hR).and (stable_upward hR hQ)) hE hG
    (fun t hi h => hfault t hi h.2.1) (fun t _ h => h.1) fun t g hi h hg hidle _ =>
      ⟨hcommit t g hi h.2.1 hg, hidle, hQ t _ (.commit g) h.2.2⟩

/-- **`record_approval_decisions`**, as a whole: it returns with every decision matched and
    committed, or raises with nothing of its own left. -/
theorem spec_recordApprovalDecisions
    (hK : (toolParty sha256 issued i R G).Stable K)
    (hKidle : ∀ t, Inv sha256 issued t → Idle i t → K t)
    (hKs : ∀ d ∈ decisions, Survives sha256 issued i userId threadId runtimeRunId d.toolCallId
      d.toolName d.requestedInput true K)
    (hKw : ∀ d ∈ decisions, Withstands sha256 issued i userId threadId d.toolCallId K)
    (hissued : issued (.recordApprovalDecisions userId threadId runtimeRunId decisions))
    (hcommit : ∀ t g, Inv sha256 issued t → K t → Guar i t ⟨t.store.commit i, g⟩ →
      G t ⟨t.store.commit i, g⟩) :
    (toolParty sha256 issued i R G).Spec (fun t => Ready sha256 issued i t ∧ K t)
      (recordApprovalDecisions sha256 userId threadId runtimeRunId decisions)
      (fun _ t => Idle i t ∧ ∀ d ∈ decisions, d.Replayable sha256 →
        Matched sha256 i userId threadId d t) fun _ => Idle i := by
  have hRK : (toolParty sha256 issued i R G).Stable
      fun t => Ready sha256 issued i t ∧ K t := (stable_ready hR).and hK
  have hQ : (toolParty sha256 issued i R G).Stable fun t => Idle i t ∧ ∀ d ∈ decisions,
      d.Replayable sha256 → Matched sha256 i userId threadId d t :=
    (stable_idle hR).and (stable_upward hR
      fun t t' ho h d hd hr => upward_matched userId threadId d t t' ho (h d hd hr))
  -- until the rollback nothing is asked of an exception
  let E₁ : PyError → Tracked → Prop := fun _ _ => True
  have hE₁ : ∀ e, (toolParty sha256 issued i R G).Stable (E₁ e) := fun _ => Party.Stable.pure _
  unfold recordApprovalDecisions
  refine Party.Spec.bind (spec_utcnow hRK hG) fun now => ?_
  let M : Bool → Tracked → Prop := fun finished t => if finished then
      Idle i t ∧ ∀ d ∈ decisions, d.Replayable sha256 → Matched sha256 i userId threadId d t
    else Idle i t
  have hM : ∀ b, (toolParty sha256 issued i R G).Stable (M b) := by
    intro b
    cases b with
    | true => exact hQ
    | false => exact stable_idle hR
  refine Party.Spec.bind (M := M) (Party.Spec.handle (E := E₁) ?_ fun e => ?_) fun finished => ?_
  · refine Party.Spec.bind (spec_forDecisions userId threadId hR hK
      fun d hd K' hK' => ?_) fun _ => ?_
    · exact spec_recordDecision hR hG hE₁ (hK.and (stable_upward hR hK'))
        ((hKs d hd).and_upward hK') ((hKw d hd).and_upward hK') hissued hd
        fun _ _ _ _ => trivial
    · refine Party.Spec.bind (spec_commitDecisions hR hG hE₁ hK (fun _ _ _ => trivial) hcommit)
        fun _ => ?_
      exact Party.Spec.pure hQ fun _ _ h => h
  · refine Party.Spec.bind (M := fun _ => Idle i) (spec_rollback (hE₁ e) (fun _ => stable_idle hR)
      hG fun t _ _ hidle _ => hidle) fun _ => ?_
    by_cases he : e = .concurrentDecision
    · rw [if_pos he]
      exact Party.Spec.pure (stable_idle hR) fun _ _ h => h
    · rw [if_neg he]
      exact Party.Spec.throw (stable_idle hR) fun _ _ h => h
  · cases finished with
    | true => exact Party.Spec.pure hQ fun _ _ h => h
    | false =>
      refine spec_rollbackOnError hG hE₁ (fun _ => stable_idle hR) ?_ fun _ _ _ _ hidle _ => hidle
      refine (Party.Spec.bind (spec_forDecisions userId threadId hR hK
        fun d hd K' hK' => ?_) fun _ => spec_commitDecisions hR hG hE₁ hK (fun _ _ _ => trivial)
          hcommit).pre fun t hi h => ⟨Idle.ready h, hKidle t hi h⟩
      exact spec_verifyDecision hR hG hE₁ (hK.and (stable_upward hR hK'))
        ((hKs d hd).and_upward hK') hissued hd fun _ _ _ _ => trivial

/-! ## Recording it again -/

end

end

end HyChat
