import HyChat.Tool.Ensure

/-!
# `ensure_pending_approvals`

The function works on a list of calls in one transaction: whatever it raises, it rolls back, and
when it returns it has committed. The loop keeps the session ready, so the commit at the end is
safe.

The vocabulary for decisions is here too. `Matched` is what a returned batch of decisions leaves
behind: the stored rows satisfy `_decision_matches`. It survives everything, because decided rows
only evolve where the comparison does not look.

Why `Matched` is about both rows at once, and about what the rows were created for. The comparison
in the source reads the decision's status and payload from the approval and the effective call from
the invocation; a batch can only be replayed if the call it belongs to is accepted again, which
compares the original payload. All of it is frozen once the decision is made, so `Matched` is
upward, and that is what the modules on batches rest on.

`Replayable` is a condition on a decision, not on the store. `jsonObject` is applied once when the
decision is stored and once more when the record is compared; for JSON values the second
application changes nothing (`jsonObject_idem`), for other objects it can.
-/

set_option autoImplicit false

namespace HyChat

open Lib Relation

section

variable (sha256 : Sha256)

/-! ## Vocabulary -/

/-- The two rows of a call, as a session that has loaded them sees them. -/
def Loaded (i : Nat) (userId : String) (threadId : Option String)
    (toolCallId toolName : String) (requestedInput : PyMapping) (r : ToolInvocation)
    (a : Approval) (t : Tracked) : Prop :=
  r.userId = userId ∧
  r.idempotencyKey = invocationIdempotencyKey sha256 userId threadId toolCallId ∧
  Accepts sha256 threadId toolCallId toolName (jsonObject sha256 (.mapping requestedInput))
    false r ∧
  Sees i r t ∧ a.invocationId = r.id ∧ a.userId = userId ∧ SeesApproval i a t

/-- The two rows are those the decision asks for. -/
def MatchedRows (d : ApprovalDecision) (r : ToolInvocation) (a : Approval) : Prop :=
  ∃ status, approvalStatus? d.decisionType = some status ∧
    decisionMatches sha256 a r d status = true

/-- The rows of the decision's scope, as session `i` sees them, are those the decision asks for,
    and were created for the call the decision is about. -/
def Matched (i : Nat) (userId : String) (threadId : Option String) (d : ApprovalDecision)
    (t : Tracked) : Prop :=
  ∃ n r a, (t.store.slot n).invocation.view i = some r ∧
    (t.store.slot n).approval.view i = some a ∧ r.userId = userId ∧
    r.idempotencyKey = invocationIdempotencyKey sha256 userId threadId d.toolCallId ∧
    Accepts sha256 threadId d.toolCallId d.toolName
      (jsonObject sha256 (.mapping d.requestedInput)) false r ∧
    MatchedRows sha256 d r a

/-- What is stored for the decision is a fixed point of the normalisation it is compared
    through. Decisions made of JSON values always are. -/
structure ApprovalDecision.Replayable (d : ApprovalDecision) : Prop where
  decisionPayload : jsonObject sha256 (toPy (jsonObject sha256 (.mapping d.decisionPayload))) =
    jsonObject sha256 (.mapping d.decisionPayload)
  effectiveInput : jsonObject sha256 (toPy (jsonObject sha256 (.mapping d.effectiveInput))) =
    jsonObject sha256 (.mapping d.effectiveInput)

end

section

variable {sha256 : Sha256} {issued : Call → Prop} {i : Nat} {t : Tracked}

/-- A mapping is normalised by the tracer's `safe_json`. -/
theorem jsonObject_mapping (items : PyMapping) :
    jsonObject sha256 (.mapping items) = safeJson sha256 toolStatePayloadMaxChars
      (.mapping items) := by
  rw [jsonObject, safeJson]

/-- What has been normalised once is not changed by normalising it again. -/
theorem jsonObject_idem (kvs : List (String × Json)) :
    jsonObject sha256 (toPy (jsonObject sha256 (toPy (.obj kvs)))) =
      jsonObject sha256 (toPy (.obj kvs)) := by
  have hobj : ∀ kvs : List (String × Json), toPy (.obj kvs) = .mapping (toPyItems kvs) :=
    fun _ => by rw [toPy]
  have h := safeJson_idem sha256 toolStatePayloadMaxChars (by decide) (.obj kvs)
  rw [hobj kvs, jsonObject_mapping]
  rw [hobj kvs, safeJson] at h
  rw [safeJson, hobj, jsonObject_mapping]
  rw [hobj] at h
  exact h

/-- Decisions made of JSON values are stored in a normal form. -/
theorem ApprovalDecision.replayable_json {d : ApprovalDecision}
    (payload input : List (String × Json))
    (hp : d.decisionPayload = toPyItems payload) (hi : d.effectiveInput = toPyItems input) :
    d.Replayable sha256 := by
  have hobj : ∀ kvs : List (String × Json), .mapping (toPyItems kvs) = toPy (.obj kvs) :=
    fun _ => by rw [toPy]
  constructor
  · rw [hp, hobj, jsonObject_idem]
  · rw [hi, hobj, jsonObject_idem]

/-- Without the effective match, all versions of a row accept the same calls. -/
theorem Accepts.evolves_iff {threadId : Option String} {toolCallId toolName : String}
    {requested : Json} {r r' : ToolInvocation} (he : r.Evolves r') :
    Accepts sha256 threadId toolCallId toolName requested false r' ↔
      Accepts sha256 threadId toolCallId toolName requested false r := by
  simp only [Accepts, Bool.false_and, Bool.or_false, originalPayloadMatches, he.toolName,
    he.requestedInput, he.threadId, he.toolCallId]

theorem Accepts.evolves {threadId : Option String} {toolCallId toolName : String}
    {requested : Json} {r r' : ToolInvocation} (he : r.Evolves r')
    (h : Accepts sha256 threadId toolCallId toolName requested false r) :
    Accepts sha256 threadId toolCallId toolName requested false r' :=
  (Accepts.evolves_iff he).mpr h

/-- A decision decides. -/
theorem approvalStatus?_ne_pending {decisionType : String} {status : ApprovalStatus}
    (h : approvalStatus? decisionType = some status) : status ≠ .pending := by
  unfold approvalStatus? at h
  split at h
  · simp only [Option.some.injEq] at h
    subst h
    decide
  · split at h
    · simp only [Option.some.injEq] at h
      subst h
      decide
    · split at h
      · simp only [Option.some.injEq] at h
        subst h
        decide
      · exact absurd h (by simp)

/-- The statuses the comparison allows are closed under what may still happen. -/
theorem allowedInvocationStatuses_reaches {status : ApprovalStatus}
    {a b : ToolInvocationStatus} (h : (allowedInvocationStatuses status).contains a = true)
    (hr : a.Reaches b) : (allowedInvocationStatuses status).contains b = true ∧
      a.settled = true := by
  refine ⟨hr.closed (P := fun s => (allowedInvocationStatuses status).contains s) ?_ h, ?_⟩
  · intro x y he hx
    cases status <;> cases he <;> simp_all [allowedInvocationStatuses]
  · cases status <;> cases a <;> simp_all [allowedInvocationStatuses,
      ToolInvocationStatus.settled]

theorem MatchedRows.evolves {d : ApprovalDecision} {r r' : ToolInvocation} {a a' : Approval}
    (h : MatchedRows sha256 d r a) (hr : r.Evolves r') (ha : a.Evolves a') :
    MatchedRows sha256 d r' a' := by
  obtain ⟨status, hs, hm⟩ := h
  simp only [decisionMatches, Bool.and_eq_true, decide_eq_true_eq] at hm
  obtain ⟨⟨⟨⟨h1, h2⟩, h3⟩, h4⟩, h5⟩ := hm
  have haeq : a' = a := ha.decided (by rw [h1]; exact approvalStatus?_ne_pending hs)
  obtain ⟨h3', hset⟩ := allowedInvocationStatuses_reaches h3 hr.status
  obtain ⟨hn, hi⟩ := hr.effective hset
  refine ⟨status, hs, ?_⟩
  simp only [decisionMatches, haeq, hn, hi, h1, h2, h3', h4, h5, decide_true, Bool.and_self]

/-- A matched decision stays matched. -/
theorem upward_matched (userId : String) (threadId : Option String) (d : ApprovalDecision) :
    Upward i (Matched sha256 i userId threadId d) := by
  rintro t t' ho ⟨n, r, a, hr, ha, hu, hk, hacc, hm⟩
  obtain ⟨r', hr', he⟩ := ho.invocation n r hr
  obtain ⟨a', ha', hea⟩ := ho.approval n a ha
  exact ⟨n, r', a', hr', ha', by rw [he.userId, hu], by rw [he.idempotencyKey, hk],
    hacc.evolves he, hm.evolves he hea⟩

theorem upward_loaded (userId : String) (threadId : Option String) (toolCallId toolName : String)
    (requestedInput : PyMapping) (r : ToolInvocation) (a : Approval) :
    Upward i (Loaded sha256 i userId threadId toolCallId toolName requestedInput r a) := by
  rintro t t' ho ⟨hu, hk, hacc, hs, hid, hau, hsa⟩
  exact ⟨hu, hk, hacc, upward_sees r t t' ho hs, hid, hau, upward_seesApproval a t t' ho hsa⟩

/-- Matching rows that have been loaded still match as they are now. -/
theorem Loaded.matched {userId : String} {threadId : Option String} {d : ApprovalDecision}
    {r : ToolInvocation} {a : Approval}
    (h : Loaded sha256 i userId threadId d.toolCallId d.toolName d.requestedInput r a t)
    (hm : MatchedRows sha256 d r a) : Matched sha256 i userId threadId d t := by
  obtain ⟨hu, hk, hacc, ⟨r', hr', he⟩, hid, -, a', ha', hea⟩ := h
  rw [hid] at ha'
  exact ⟨r.id, r', a', hr', ha', by rw [he.userId, hu], by rw [he.idempotencyKey, hk],
    hacc.evolves he, hm.evolves he hea⟩

/-! ## Frames -/

/-- Two upward assertions. -/
theorem Upward.and {K L : Tracked → Prop} (hK : Upward i K) (hL : Upward i L) :
    Upward i fun t => K t ∧ L t :=
  fun t t' ho h => ⟨hK t t' ho h.1, hL t t' ho h.2⟩

theorem Survives.and {userId : String} {threadId runtimeRunId : Option String}
    {toolCallId toolName : String} {requestedInput : PyMapping} {approvalRequired : Bool}
    {K L : Tracked → Prop} (hK : Survives sha256 issued i userId threadId runtimeRunId toolCallId
      toolName requestedInput approvalRequired K)
    (hL : Survives sha256 issued i userId threadId runtimeRunId toolCallId toolName requestedInput
      approvalRequired L) :
    Survives sha256 issued i userId threadId runtimeRunId toolCallId toolName requestedInput
      approvalRequired fun t => K t ∧ L t where
  fill := by
    rintro t n r now hi h hr hu hk htr ⟨t₀, r₀, hi₀, h₀, hr₀, hempty⟩
    exact ⟨hK.fill t n r now hi h.1 hr hu hk htr ⟨t₀, r₀, hi₀, h₀.1, hr₀, hempty⟩,
      hL.fill t n r now hi h.2 hr hu hk htr ⟨t₀, r₀, hi₀, h₀.2, hr₀, hempty⟩⟩
  insert := fun t c now hi h hs => ⟨hK.insert t c now hi h.1 hs, hL.insert t c now hi h.2 hs⟩

theorem Survives.of_upward {userId : String} {threadId runtimeRunId : Option String}
    {toolCallId toolName : String} {requestedInput : PyMapping} {approvalRequired : Bool}
    {L : Tracked → Prop} (hL : Upward i L) :
    Survives sha256 issued i userId threadId runtimeRunId toolCallId toolName requestedInput
      approvalRequired L where
  fill := fun _ _ r now _ h hr _ _ _ _ =>
    hL _ _ (.putInvocation hr (.fill r runtimeRunId now)) h
  insert := fun _ _ _ hi h _ => hL _ _ (.insertInvocation hi _) h

theorem Survives.and_upward {userId : String} {threadId runtimeRunId : Option String}
    {toolCallId toolName : String} {requestedInput : PyMapping} {approvalRequired : Bool}
    {K L : Tracked → Prop} (hK : Survives sha256 issued i userId threadId runtimeRunId toolCallId
      toolName requestedInput approvalRequired K) (hL : Upward i L) :
    Survives sha256 issued i userId threadId runtimeRunId toolCallId toolName requestedInput
      approvalRequired fun t => K t ∧ L t := hK.and (.of_upward hL)

theorem Survives.true {userId : String} {threadId runtimeRunId : Option String}
    {toolCallId toolName : String} {requestedInput : PyMapping} {approvalRequired : Bool} :
    Survives sha256 issued i userId threadId runtimeRunId toolCallId toolName requestedInput
      approvalRequired fun _ => True :=
  ⟨fun _ _ _ _ _ _ _ _ _ _ _ => trivial, fun _ _ _ _ _ _ => trivial⟩

theorem Reads.true {userId : String} {threadId : Option String} {toolCallId : String}
    {K : Tracked → Prop} :
    Reads sha256 issued i userId threadId toolCallId K fun _ => True :=
  ⟨fun _ _ _ _ _ _ _ _ => trivial, fun _ _ _ _ => trivial⟩

theorem Excused.true {userId : String} {threadId runtimeRunId : Option String}
    {toolCallId toolName : String} {requestedInput : PyMapping} {allowEffectiveMatch : Bool}
    {K : Tracked → Prop} :
    Excused sha256 issued i userId threadId runtimeRunId toolCallId toolName requestedInput
      allowEffectiveMatch K fun _ _ => True :=
  ⟨fun _ _ _ => trivial, fun _ _ _ _ _ => trivial, fun _ _ _ _ _ => trivial,
    fun _ _ _ _ _ _ _ _ _ => trivial⟩

variable (sha256) (issued) (i) in
/-- The caller's frame survives the writes of an approval and of a decision for a scope. -/
structure Withstands (userId : String) (threadId : Option String) (toolCallId : String)
    (K : Tracked → Prop) : Prop where
  approval : ∀ t n r a', Inv sha256 issued t → K t →
    (t.store.slot n).invocation.view i = some r → r.userId = userId →
    r.idempotencyKey = invocationIdempotencyKey sha256 userId threadId toolCallId →
    (∀ a, (t.store.slot n).approval.view i = some a → a.Evolves a') →
      K ⟨t.store.putApproval i n a', t.granted⟩
  invocation : ∀ t n r r', Inv sha256 issued t → K t →
    (t.store.slot n).invocation.view i = some r → r.userId = userId →
    r.idempotencyKey = invocationIdempotencyKey sha256 userId threadId toolCallId →
    r.Evolves r' → r'.status.executed = false → K ⟨t.store.putInvocation i n r', t.granted⟩

theorem Withstands.true {userId : String} {threadId : Option String} {toolCallId : String} :
    Withstands sha256 issued i userId threadId toolCallId fun _ => True :=
  ⟨fun _ _ _ _ _ _ _ _ _ _ => trivial, fun _ _ _ _ _ _ _ _ _ _ _ => trivial⟩

theorem Withstands.and {userId : String} {threadId : Option String} {toolCallId : String}
    {K L : Tracked → Prop} (hK : Withstands sha256 issued i userId threadId toolCallId K)
    (hL : Withstands sha256 issued i userId threadId toolCallId L) :
    Withstands sha256 issued i userId threadId toolCallId fun t => K t ∧ L t where
  approval := fun t n r a' hi h hr hu hk he => ⟨hK.approval t n r a' hi h.1 hr hu hk he,
    hL.approval t n r a' hi h.2 hr hu hk he⟩
  invocation := fun t n r r' hi h hr hu hk he hx =>
    ⟨hK.invocation t n r r' hi h.1 hr hu hk he hx, hL.invocation t n r r' hi h.2 hr hu hk he hx⟩

theorem Withstands.and_upward {userId : String} {threadId : Option String} {toolCallId : String}
    {K L : Tracked → Prop} (hK : Withstands sha256 issued i userId threadId toolCallId K)
    (hL : Upward i L) :
    Withstands sha256 issued i userId threadId toolCallId fun t => K t ∧ L t :=
  hK.and ⟨fun _ _ _ _ _ h _ _ _ he => hL _ _ (.putApproval he) h,
    fun _ _ _ _ _ h hr _ _ he _ => hL _ _ (.putInvocation hr he) h⟩

/-! ## Writing an approval -/

/-- An undecided approval may be put next to an invocation that has none. -/
theorem Coupled.insertApproval {r : ToolInvocation} {a : Approval} (hs : a.status = .pending)
    (hu : a.userId = r.userId) (hk : a.idempotencyKey = r.idempotencyKey)
    (h : (r.status = .pendingApproval ∨ r.status.executed = true) ∧ r.Original) :
    Coupled sha256 issued (some r) (some a) := by
  refine ⟨hu, hk, ?_, fun _ => h.2, fun hne => absurd hs hne⟩
  rw [hs]
  rcases h.1 with h1 | h1 <;> simp [ApprovalStatus.admits, h1]

theorem Safe.insertApproval {n : Nat} {sl : Slot} (hok : SlotOk sha256 issued n sl)
    (hs : Safe sha256 issued i sl) (hnone : sl.approval.view i = none) {r : ToolInvocation}
    (hr : sl.invocation.view i = some r) {a : Approval} (hst : a.status = .pending)
    (hu : a.userId = r.userId) (hk : a.idempotencyKey = r.idempotencyKey) :
    Safe sha256 issued i ⟨sl.invocation, sl.approval.write i (some a)⟩ := by
  have hc := hok.coupled_view hs
  rw [hr, hnone] at hc
  unfold Safe
  rw [Cell.own_write_self]
  cases ho : sl.invocation.own i with
  | some v =>
    rw [Cell.view_of_own ho] at hr
    subst hr
    exact Coupled.insertApproval hst hu hk ⟨.inr hc.1, hc.2⟩
  | none =>
    rw [Cell.view_of_not_own ho] at hr
    refine ⟨r, hr, fun r' he hc' => ?_⟩
    have hcn : sl.approval.committed = none := by
      cases hao : sl.approval.own i with
      | none =>
        rw [Cell.view_of_not_own hao] at hnone
        exact hnone
      | some w =>
        obtain ⟨a', rfl, -⟩ := hok.own_at i w hao
        rw [Cell.view_of_own hao] at hnone
        exact absurd hnone (by simp)
    rw [Cell.committed_write, hcn] at hc'
    exact Coupled.insertApproval hst (by rw [he.userId, hu]) (by rw [he.idempotencyKey, hk])
      ⟨.inr hc'.1, hc'.2⟩

theorem ReadyBut.putApproval {n : Nat} (h : ReadyBut sha256 issued i n t) (a : Approval) :
    ReadyBut sha256 issued i n ⟨t.store.putApproval i n a, t.granted⟩ := by
  intro m hm
  simp only [Store.putApproval_slot_of_ne hm]
  exact h m hm

/-- **The insertion of an approval completes the slot**, whether the invocation was there before
    or has just been inserted. -/
theorem Ready.insertApproval {n : Nat} {r : ToolInvocation} (hi : Inv sha256 issued t)
    (h : Ready sha256 issued i t ∨
      (Fresh sha256 issued i r t ∧ r.id = n ∧ r.status = .pendingApproval))
    (hnone : (t.store.slot n).approval.view i = none) {r' : ToolInvocation}
    (hr : (t.store.slot n).invocation.view i = some r') {a : Approval}
    (hst : a.status = .pending) (hu : a.userId = r'.userId)
    (hk : a.idempotencyKey = r'.idempotencyKey) :
    Ready sha256 issued i ⟨t.store.putApproval i n a, t.granted⟩ := by
  rcases h with h | ⟨hfr, hid, hs⟩
  · refine ReadyBut.ready (n := n) ((h.but n).putApproval a) ?_
    simp only [Store.putApproval_slot_self]
    exact Safe.insertApproval (hi.slots n) (h n) hnone hr hst hu hk
  · subst hid
    refine ReadyBut.ready (n := r.id) (hfr.1.putApproval a) ?_
    simp only [Store.putApproval_slot_self]
    have hrr : r = r' := by
      rw [Cell.view_of_own hfr.2.1, Option.some.injEq] at hr
      exact hr
    subst hrr
    unfold Safe
    rw [hfr.2.1, Cell.own_write_self]
    have hw := (hi.slots r.id).view_wf hr
    exact Coupled.insertApproval hst hu hk ⟨.inl hs, hw.undecided (by rw [hs]; rfl)⟩

/-! ## `ensure_pending_approvals` -/

section

variable {R G : Tracked → Tracked → Prop} {K : Tracked → Prop} {E F : PyError → Tracked → Prop}
  {userId : String} {threadId runtimeRunId : Option String}
  (hR : ∀ t t', R t t' → ∃ j, j ≠ i ∧ Guar j t t') (hG : ∀ t t', Quiet i t t' → G t t')
include hG

/-- `except Exception: db.rollback(); raise` -/
theorem spec_rollbackOnError {α : Type} {body : Db α} {P : Tracked → Prop}
    {Q : α → Tracked → Prop}
    (hE : ∀ e, (toolParty sha256 issued i R G).Stable (E e))
    (hF : ∀ e, (toolParty sha256 issued i R G).Stable (F e))
    (hbody : (toolParty sha256 issued i R G).Spec P body Q E)
    (h : ∀ e t, Inv sha256 issued t → E e t → Idle i ⟨t.store.rollback i, t.granted⟩ →
      Quiet i t ⟨t.store.rollback i, t.granted⟩ → F e ⟨t.store.rollback i, t.granted⟩) :
    (toolParty sha256 issued i R G).Spec P (rollbackOnError body) Q F := by
  unfold rollbackOnError
  refine Party.Spec.handle hbody fun e => ?_
  refine Party.Spec.bind (M := fun _ => F e)
    (spec_rollback (hE e) (fun _ => hF e) hG fun t hi he => h e t hi he) fun _ => ?_
  exact Party.Spec.throw (hF e) fun _ _ h => h

include hR

/-- One call. The check that the approval is bound to the invocation never fails. -/
theorem spec_ensurePendingApproval {toolCall : ToolCallItem}
    (hE : ∀ e, (toolParty sha256 issued i R G).Stable (E e))
    (hK : (toolParty sha256 issued i R G).Stable K)
    (hKs : Survives sha256 issued i userId threadId runtimeRunId (orDefault toolCall.id "")
      (orDefault toolCall.name "unknown") toolCall.args.asMapping true K)
    (hKw : Withstands sha256 issued i userId threadId (orDefault toolCall.id "") K)
    (hreg : ∀ r : ToolInvocation, r.IsFor sha256 userId threadId (orDefault toolCall.id "")
      (orDefault toolCall.name "unknown") toolCall.args.asMapping →
        ∃ call, issued call ∧ call.Registers sha256 r)
    (hX : Excused sha256 issued i userId threadId runtimeRunId (orDefault toolCall.id "")
      (orDefault toolCall.name "unknown") toolCall.args.asMapping false K E) :
    (toolParty sha256 issued i R G).Spec (fun t => Ready sha256 issued i t ∧ K t)
      (ensurePendingApproval sha256 userId threadId runtimeRunId toolCall)
      (fun _ t => Ready sha256 issued i t ∧ K t ∧
        ∃ r a, Loaded sha256 i userId threadId (orDefault toolCall.id "")
          (orDefault toolCall.name "unknown") toolCall.args.asMapping r a t) E := by
  unfold ensurePendingApproval
  refine Party.Spec.bind (spec_ensureInvocation hR hG hE hK hKs Reads.true hreg hX) fun r => ?_
  let P : Tracked → Prop := fun t => Adopted sha256 issued i userId threadId
    (orDefault toolCall.id "") (orDefault toolCall.name "unknown") toolCall.args.asMapping true
    false r t ∧ True ∧ K t
  have hP : (toolParty sha256 issued i R G).Stable P :=
    (stable_adopted hR r).and ((Party.Stable.pure _).and hK)
  have hf : ∀ t, Inv sha256 issued t → P t → E .databaseError t :=
    fun t hi h => hX.fault t hi h.2.2
  refine Party.Spec.bind (spec_utcnow hP hG) fun requestedAt => ?_
  refine Party.Spec.bind (spec_utcnow hP hG) fun updatedAt => ?_
  -- the approval is there, or the slot is completed now
  let A : Tracked → Prop := fun t => Ready sha256 issued i t ∧ K t ∧ Sees i r t ∧
    r.userId = userId ∧
    r.idempotencyKey = invocationIdempotencyKey sha256 userId threadId (orDefault toolCall.id "") ∧
    Accepts sha256 threadId (orDefault toolCall.id "") (orDefault toolCall.name "unknown")
      (jsonObject sha256 (.mapping toolCall.args.asMapping)) false r ∧
    ∃ m a, (t.store.slot m).approval.view i = some a ∧ a.userId = userId ∧
      a.idempotencyKey = r.idempotencyKey
  have hA : (toolParty sha256 issued i R G).Stable A := by
    refine (stable_ready hR).and (hK.and ((stable_sees hR r).and ((Party.Stable.pure _).and
      ((Party.Stable.pure _).and ((Party.Stable.pure _).and (Party.Stable.exists fun m => ?_))))))
    refine stable_upward hR ?_
    rintro t t' ho ⟨a, ha, hu, hk⟩
    obtain ⟨a', ha', he⟩ := ho.approval m a ha
    exact ⟨a', ha', by rw [he.userId, hu], by rw [he.idempotencyKey, hk]⟩
  refine Party.Spec.bind (M := fun _ => A)
    (spec_insertApproval hP (fun _ => hA) hE hG hf ?_ ?_ ?_) fun _ => ?_
  · rintro t r' hi ⟨⟨hu, hk, -, ⟨r₁, hr₁, he⟩, -⟩, -⟩ hr'
    rw [show (newApproval r userId requestedAt updatedAt).invocationId = r.id from rfl, hr₁,
      Option.some.injEq] at hr'
    subst hr'
    exact ⟨by rw [he.userId, hu]; rfl, by rw [he.idempotencyKey]; rfl⟩
  · rintro t m a hi ⟨⟨hu, hk, hacc, hs, hcase⟩, -, hKt⟩ ha hau hak
    rcases hcase with ⟨hready, -⟩ | ⟨hfr, -⟩
    · exact ⟨hready, hKt, hs, hu, hk, hacc, m, a, ha, hau, hak⟩
    · -- an invocation just inserted has no approval anywhere
      obtain ⟨-, r', hr', hu', hk'⟩ := (hi.slots m).approval_view_at ha
      have hm : m = r.id := hi.slot_eq hr' (Cell.view_of_own hfr.2.1)
        (by rw [← hu', hau, hu]; rfl) (by rw [← hk', hak]; rfl)
      subst hm
      rw [Cell.view_of_not_own hfr.2.2.2,
        (hi.approval_empty hfr.2.1 hfr.2.2.1 hfr.2.2.2 i).1] at ha
      exact absurd ha (by simp)
  · rintro t hi ⟨⟨hu, hk, hacc, hs, hcase⟩, -, hKt⟩ hnone
    obtain ⟨r', hr', he⟩ := hs
    have hev : ∀ a, (t.store.slot r.id).approval.view i = some a →
        a.Evolves (newApproval r userId requestedAt updatedAt) := by
      intro a ha
      rw [show r.id = (newApproval r userId requestedAt updatedAt).invocationId from rfl,
        hnone] at ha
      exact absurd ha (by simp)
    refine ⟨Ready.insertApproval (r := r) hi ?_ hnone hr' rfl (by rw [he.userId, hu]; rfl)
      (by rw [he.idempotencyKey]; rfl), ?_, ?_, hu, hk, hacc, r.id,
      newApproval r userId requestedAt updatedAt, ?_, rfl, rfl⟩
    · rcases hcase with ⟨hready, -⟩ | ⟨hfr, hst⟩
      · exact .inl hready
      · exact .inr ⟨hfr, rfl, hst⟩
    · exact hKw.approval t r.id r' _ hi hKt hr' (by rw [he.userId, hu])
        (by rw [he.idempotencyKey, hk]) hev
    · exact upward_sees r t _ (.putApproval hev) ⟨r', hr', he⟩
    · rw [show r.id = (newApproval r userId requestedAt updatedAt).invocationId from rfl]
      simp only [Store.putApproval_slot_self, Cell.view_write_self]
  -- the approval is read back
  let B : Option Approval → Tracked → Prop := fun o t =>
    ∃ a, o = some a ∧ Ready sha256 issued i t ∧ K t ∧
      Loaded sha256 i userId threadId (orDefault toolCall.id "")
        (orDefault toolCall.name "unknown") toolCall.args.asMapping r a t
  have hB : ∀ o, (toolParty sha256 issued i R G).Stable (B o) := fun o =>
    Party.Stable.exists fun a => (Party.Stable.pure _).and <| (stable_ready hR).and <| hK.and <|
      stable_upward hR (upward_loaded _ _ _ _ _ r a)
  refine Party.Spec.bind (M := B) (spec_read
    (fun _ s => (s.findSlot (Slot.seesApproval i userId r.idempotencyKey)).bind fun n =>
      (s.slot n).approval.view i) (fun _ _ => rfl) hA hB hE hG
    (fun t hi h => hX.fault t hi h.2.1) ?_) fun o => ?_
  · rintro t _ hi ⟨hready, hKt, hs, hu, hk, hacc, m, a, ha, hau, hak⟩
    obtain ⟨r', hr', he⟩ := hs
    cases hfind : t.store.findSlot (Slot.seesApproval i userId r.idempotencyKey) with
    | none =>
      obtain ⟨-, r₁, hr₁, -⟩ := (hi.slots m).approval_view_at ha
      have := Store.findSlot_eq_none hfind (hi.lt_next hr₁)
      rw [Slot.seesApproval_iff.mpr ⟨a, ha, hau, hak⟩] at this
      exact absurd this (by decide)
    | some n =>
      obtain ⟨a', ha', hau', hak'⟩ := Slot.seesApproval_iff.mp (Store.findSlot_eq_some hfind).2
      obtain ⟨hat, r₁, hr₁, hu₁, hk₁⟩ := (hi.slots n).approval_view_at ha'
      have hn : n = r.id := hi.slot_eq hr₁ hr' (by rw [he.userId, hu, ← hu₁, hau'])
        (by rw [he.idempotencyKey, ← hk₁, hak'])
      refine ⟨a', ha', hready, hKt, hu, hk, hacc, ⟨r', hr', he⟩, by rw [hat, hn], hau', a', ?_,
        .refl a'⟩
      rw [hat]
      exact ha'
  refine Party.Spec.exists_pre fun a => Party.Spec.pure_pre fun ho => ?_
  subst ho
  refine (spec_raiseIf ?_ fun hc t hi h => ?_).post fun _ t _ h => ⟨h.2.1, h.2.2.1, r, a, h.2.2.2⟩
  · exact (stable_ready hR).and <| hK.and <| stable_upward hR (upward_loaded _ _ _ _ _ r a)
  · have hid := h.2.2.2.2.2.2.1
    simp [hid] at hc

/-- **`ensure_pending_approvals`** leaves a committed pair of rows for every call, or nothing. -/
theorem spec_ensurePendingApprovals {toolCalls : List ToolCallItem}
    (hE : ∀ e, (toolParty sha256 issued i R G).Stable (E e))
    (hF : ∀ e, (toolParty sha256 issued i R G).Stable (F e))
    (hK : (toolParty sha256 issued i R G).Stable K)
    (hKs : ∀ tc ∈ toolCalls, Survives sha256 issued i userId threadId runtimeRunId
      (orDefault tc.id "") (orDefault tc.name "unknown") tc.args.asMapping true K)
    (hKw : ∀ tc ∈ toolCalls, Withstands sha256 issued i userId threadId (orDefault tc.id "") K)
    (hreg : ∀ tc ∈ toolCalls, ∀ r : ToolInvocation, r.IsFor sha256 userId threadId
      (orDefault tc.id "") (orDefault tc.name "unknown") tc.args.asMapping →
        ∃ call, issued call ∧ call.Registers sha256 r)
    (hX : ∀ tc ∈ toolCalls, Excused sha256 issued i userId threadId runtimeRunId
      (orDefault tc.id "") (orDefault tc.name "unknown") tc.args.asMapping false K E)
    (hfault : ∀ t, Inv sha256 issued t → K t → E .databaseError t)
    (hcommit : ∀ t g, Inv sha256 issued t → K t → Guar i t ⟨t.store.commit i, g⟩ →
      G t ⟨t.store.commit i, g⟩)
    (hrollback : ∀ e t, Inv sha256 issued t → E e t →
      Idle i ⟨t.store.rollback i, t.granted⟩ → Quiet i t ⟨t.store.rollback i, t.granted⟩ →
        F e ⟨t.store.rollback i, t.granted⟩) :
    (toolParty sha256 issued i R G).Spec (fun t => Ready sha256 issued i t ∧ K t)
      (ensurePendingApprovals sha256 userId threadId runtimeRunId toolCalls)
      (fun _ t => Idle i t ∧ ∀ tc ∈ toolCalls, ∃ r a, Loaded sha256 i userId threadId
        (orDefault tc.id "") (orDefault tc.name "unknown") tc.args.asMapping r a t) F := by
  unfold ensurePendingApprovals
  refine spec_rollbackOnError hG hE hF ?_ hrollback
  -- the loop invariant: what is not left to do is there
  let L : List ToolCallItem → Tracked → Prop := fun xs t => ∀ tc ∈ toolCalls, tc ∈ xs ∨
    ∃ r a, Loaded sha256 i userId threadId (orDefault tc.id "")
      (orDefault tc.name "unknown") tc.args.asMapping r a t
  have hL : ∀ xs, Upward i (L xs) := by
    intro xs t t' ho h tc htc
    rcases h tc htc with hx | ⟨r, a, hl⟩
    · exact .inl hx
    · exact .inr ⟨r, a, upward_loaded _ _ _ _ _ r a t t' ho hl⟩
  let J : List ToolCallItem → Tracked → Prop := fun xs t =>
    Ready sha256 issued i t ∧ K t ∧ L xs t
  have hJ : ∀ xs, (toolParty sha256 issued i R G).Stable (J xs) := fun xs =>
    (stable_ready hR).and (hK.and (stable_upward hR (hL xs)))
  refine Party.Spec.bind (M := fun _ => J []) ((Party.Spec.forM (hJ []) toolCalls ?_).pre ?_)
    fun _ => ?_
  · intro tc htc xs
    have hKL : (toolParty sha256 issued i R G).Stable fun t => K t ∧ L (tc :: xs) t :=
      hK.and (stable_upward hR (hL _))
    have hXtc := hX tc htc
    refine (spec_ensurePendingApproval hR hG hE hKL ((hKs tc htc).and_upward (hL _))
      ((hKw tc htc).and_upward (hL _)) (hreg tc htc)
      ⟨fun t hi h => hXtc.fault t hi h.1, fun hv t m hi h => hXtc.identity hv t m hi h.1,
        fun t m hi h => hXtc.owner t m hi h.1,
        fun t m r hi h => hXtc.conflict t m r hi h.1⟩).post ?_
    rintro _ t _ ⟨hready, ⟨hKt, hLt⟩, hl⟩
    refine ⟨hready, hKt, fun tc' htc' => ?_⟩
    rcases hLt tc' htc' with hx | hl'
    · rcases List.mem_cons.mp hx with rfl | hx
      · exact .inr hl
      · exact .inl hx
    · exact .inr hl'
  · exact fun t _ h => ⟨h.1, h.2, fun tc htc => .inl htc⟩
  · have hQ : (toolParty sha256 issued i R G).Stable fun t => Idle i t ∧
        ∀ tc ∈ toolCalls, ∃ r a, Loaded sha256 i userId threadId (orDefault tc.id "")
          (orDefault tc.name "unknown") tc.args.asMapping r a t := by
      refine (stable_idle hR).and (stable_upward hR ?_)
      intro t t' ho h tc htc
      obtain ⟨r, a, hl⟩ := h tc htc
      exact ⟨r, a, upward_loaded _ _ _ _ _ r a t t' ho hl⟩
    refine spec_commit (hJ []) (fun _ => hQ) hE hG (fun t hi h => hfault t hi h.2.1)
      (fun t _ h => h.1) fun t g hi h hg hidle _ => ⟨hcommit t g hi h.2.1 hg, hidle, ?_⟩
    intro tc htc
    rcases h.2.2 tc htc with hx | ⟨r, a, hl⟩
    · exact absurd hx (by simp)
    · exact ⟨r, a, upward_loaded _ _ _ _ _ r a t _ (.commit g) hl⟩

end

end

end HyChat
