import HyChat.Tool.Lifecycle

/-!
# The invariant of the tool tables

What holds of the store between any two statements of anybody, and what a session must know
before it commits.

* `SlotOk` is the part that is local to a slot: every version is well formed, an uncommitted
  version evolves from the committed one, and the committed rows are `Coupled`.
* `Inv` adds what relates slots: ids are fresh, and no two slots hold versions with one key.
* `Safe` is a session's own business: committing what it has written in a slot leaves the slot
  coupled, whatever the others commit there first. Nobody else can break it, and `Inv` survives a
  commit of a session that has it in every slot.

The returns of the claims are counted with the help of one piece of auxiliary state, `granted`:
the session whose commit started an invocation and which has not yet returned from the claim.

Why a slot and not two tables. An approval is inserted for an invocation that is there and refers
to it by a unique foreign key, so the two rows of a call always stand together, and what relates
them is local to a pair. Reading the tables as one sequence of pairs makes the important part of
the invariant a statement about one slot, and the frame conditions equalities of slots.

Why `Safe` is part of nobody's invariant but the session's own. It is false in the middle of every
function that writes twice, and it is what the function has to establish again before it commits.
That nobody else can break it is where the row locks of the database come in: a row with an
uncommitted write of one session is not written by another.

Why the ghost. The number of calls that returned `should_execute` for an invocation is a fact about
the log of returns. A session that has committed the start and not returned yet is counted by
`granted`, so that the two together are at most one, and the second caller's commit cannot happen:
the row it would have to start is started.

What is not in the invariant: anything about conversations, about time stamps or about the results
that are stored. Nothing the service decides depends on those but the check of the thread's owner.
-/

set_option autoImplicit false

namespace HyChat

open Lib Relation

/-! ## Slots -/

/-- The invocation has been started, as far as is committed. -/
def Slot.Started (sl : Slot) : Prop :=
  ∃ r, sl.invocation.committed = some r ∧ r.status.executed = true

section

variable (sha256 : Sha256) (issued : Call → Prop)

/-- What holds of one slot at any moment, uncommitted versions included. -/
structure SlotOk (n : Nat) (sl : Slot) : Prop where
  committed_wf : ∀ r, sl.invocation.committed = some r → r.WellFormed sha256 issued n
  own_wf : ∀ j v, sl.invocation.own j = some v → ∃ r, v = some r ∧
    r.WellFormed sha256 issued n ∧ (∀ r₀, sl.invocation.committed = some r₀ → r₀.Evolves r) ∧
    (r.status.executed = true → r.status = .running ∨ sl.Started)
  committed_at : ∀ a, sl.approval.committed = some a → a.invocationId = n
  own_at : ∀ j v, sl.approval.own j = some v → ∃ a, v = some a ∧ a.invocationId = n ∧
    (∀ a₀, sl.approval.committed = some a₀ → a₀.Evolves a) ∧
    ∃ r, sl.invocation.view j = some r ∧ a.userId = r.userId ∧
      a.idempotencyKey = r.idempotencyKey
  coupled : Coupled sha256 issued sl.invocation.committed sl.approval.committed

/-- Session `j` may commit what it has written in the slot. -/
def Safe (j : Nat) (sl : Slot) : Prop :=
  match sl.invocation.own j, sl.approval.own j with
  | none, none => True
  | some r, some a => Coupled sha256 issued r a
  | some r, none => ∀ a, Coupled sha256 issued sl.invocation.committed a →
      Coupled sha256 issued r a
  | none, some a => ∃ r₀, sl.invocation.committed = some r₀ ∧ ∀ r, r₀.Evolves r →
      Coupled sha256 issued (some r) sl.approval.committed → Coupled sha256 issued (some r) a

end

section

variable {sha256 : Sha256} {issued : Call → Prop}

/-- A slot that has never been used. -/
theorem SlotOk.empty (n : Nat) : SlotOk sha256 issued n .empty :=
  ⟨by simp [Slot.empty], by simp [Slot.empty], by simp [Slot.empty], by simp [Slot.empty],
    trivial⟩

namespace SlotOk

variable {n i : Nat} {sl : Slot}

/-- What a session reads has evolved from what is committed. -/
theorem view_evolves (h : SlotOk sha256 issued n sl) {r₀ r : ToolInvocation}
    (h₀ : sl.invocation.committed = some r₀) (hr : sl.invocation.view i = some r) :
    r₀.Evolves r := by
  cases ho : sl.invocation.own i with
  | none =>
    rw [Cell.view_of_not_own ho, h₀, Option.some.injEq] at hr
    subst hr
    exact .refl r₀
  | some v =>
    obtain ⟨r', rfl, -, he, -⟩ := h.own_wf i v ho
    rw [Cell.view_of_own ho, Option.some.injEq] at hr
    subst hr
    exact he r₀ h₀

/-- An invocation that has been started is so in a committed version, or has only just been. -/
theorem view_started (h : SlotOk sha256 issued n sl) {r : ToolInvocation}
    (hr : sl.invocation.view i = some r) (hx : r.status.executed = true) :
    r.status = .running ∨ sl.Started := by
  cases ho : sl.invocation.own i with
  | none =>
    rw [Cell.view_of_not_own ho] at hr
    exact .inr ⟨r, hr, hx⟩
  | some v =>
    obtain ⟨r', rfl, -, -, hs⟩ := h.own_wf i v ho
    rw [Cell.view_of_own ho, Option.some.injEq] at hr
    subst hr
    exact hs hx

theorem view_wf (h : SlotOk sha256 issued n sl) {r : ToolInvocation}
    (hr : sl.invocation.view i = some r) : r.WellFormed sha256 issued n := by
  cases ho : sl.invocation.own i with
  | none =>
    rw [Cell.view_of_not_own ho] at hr
    exact h.committed_wf r hr
  | some v =>
    obtain ⟨r', rfl, hw, -, -⟩ := h.own_wf i v ho
    rw [Cell.view_of_own ho, Option.some.injEq] at hr
    subst hr
    exact hw

/-- A committed invocation is seen by everybody. -/
theorem view_of_committed (h : SlotOk sha256 issued n sl) {r₀ : ToolInvocation}
    (h₀ : sl.invocation.committed = some r₀) : ∃ r, sl.invocation.view i = some r := by
  cases ho : sl.invocation.own i with
  | none => exact ⟨r₀, by rw [Cell.view_of_not_own ho, h₀]⟩
  | some v =>
    obtain ⟨r', rfl, -, -, -⟩ := h.own_wf i v ho
    exact ⟨r', Cell.view_of_own ho⟩

theorem approval_view_evolves (h : SlotOk sha256 issued n sl) {a₀ a : Approval}
    (h₀ : sl.approval.committed = some a₀) (ha : sl.approval.view i = some a) :
    a₀.Evolves a := by
  cases ho : sl.approval.own i with
  | none =>
    rw [Cell.view_of_not_own ho, h₀, Option.some.injEq] at ha
    subst ha
    exact .refl a₀
  | some v =>
    obtain ⟨a', rfl, -, he, -⟩ := h.own_at i v ho
    rw [Cell.view_of_own ho, Option.some.injEq] at ha
    subst ha
    exact he a₀ h₀

/-- The approval a session reads is that of the invocation it reads. -/
theorem approval_view_at (h : SlotOk sha256 issued n sl) {a : Approval}
    (ha : sl.approval.view i = some a) : a.invocationId = n ∧
      ∃ r, sl.invocation.view i = some r ∧ a.userId = r.userId ∧
        a.idempotencyKey = r.idempotencyKey := by
  cases ho : sl.approval.own i with
  | none =>
    rw [Cell.view_of_not_own ho] at ha
    refine ⟨h.committed_at a ha, ?_⟩
    have hc := h.coupled
    rw [ha] at hc
    cases hr : sl.invocation.committed with
    | none => rw [hr] at hc; exact hc.elim
    | some r₀ =>
      rw [hr] at hc
      obtain ⟨r, hv⟩ := h.view_of_committed (i := i) hr
      have he := h.view_evolves hr hv
      exact ⟨r, hv, by rw [he.userId, hc.1], by rw [he.idempotencyKey, hc.2.1]⟩
  | some v =>
    obtain ⟨a', rfl, hat, -, hr⟩ := h.own_at i v ho
    rw [Cell.view_of_own ho, Option.some.injEq] at ha
    subst ha
    exact ⟨hat, hr⟩

/-! ### One slot, one statement -/

theorem writeInvocation (h : SlotOk sha256 issued n sl)
    (hfree : sl.invocation.lockedFor i = false) {r r' : ToolInvocation}
    (hr : sl.invocation.view i = some r) (he : r.Evolves r')
    (hw : r'.WellFormed sha256 issued n)
    (hx : r'.status.executed = true → r'.status = .running ∨ sl.Started) :
    SlotOk sha256 issued n ⟨sl.invocation.write i (some r'), sl.approval⟩ where
  committed_wf := h.committed_wf
  own_wf := by
    intro j v hv
    by_cases hj : j = i
    · subst hj
      rw [Cell.own_write_self, Option.some.injEq] at hv
      exact ⟨r', hv.symm, hw, fun r₀ h₀ => (h.view_evolves h₀ hr).trans he, hx⟩
    · rw [Cell.own_write_of_ne hj] at hv
      exact absurd hv (by simp)
  committed_at := h.committed_at
  own_at := by
    intro j v hv
    obtain ⟨a, rfl, hat, hev, r₁, hr₁, hu, hk⟩ := h.own_at j v hv
    refine ⟨a, rfl, hat, hev, ?_⟩
    by_cases hj : j = i
    · subst hj
      rw [hr, Option.some.injEq] at hr₁
      subst hr₁
      exact ⟨r', Cell.view_write_self .., by rw [he.userId, hu], by rw [he.idempotencyKey, hk]⟩
    · refine ⟨r₁, ?_, hu, hk⟩
      rw [Cell.view_of_not_own (Cell.not_own_of_not_locked hfree hj)] at hr₁
      rw [Cell.view_of_not_own (Cell.own_write_of_ne hj _ _)]
      exact hr₁
  coupled := h.coupled

theorem insertInvocation {row : ToolInvocation} (hw : row.WellFormed sha256 issued n)
    (hx : row.status.executed = false) :
    SlotOk sha256 issued n ⟨Slot.empty.invocation.write i (some row), Slot.empty.approval⟩ where
  committed_wf := by simp [Slot.empty]
  own_wf := by
    intro j v hv
    by_cases hj : j = i
    · subst hj
      rw [Cell.own_write_self, Option.some.injEq] at hv
      exact ⟨row, hv.symm, hw, by simp [Slot.empty], by simp [hx]⟩
    · rw [Cell.own_write_of_ne hj] at hv
      exact absurd hv (by simp)
  committed_at := by simp [Slot.empty]
  own_at := by simp [Slot.empty]
  coupled := trivial

theorem writeApproval (h : SlotOk sha256 issued n sl) {a a' : Approval}
    (ha : sl.approval.view i = some a) (he : a.Evolves a') :
    SlotOk sha256 issued n ⟨sl.invocation, sl.approval.write i (some a')⟩ where
  committed_wf := h.committed_wf
  own_wf := h.own_wf
  committed_at := h.committed_at
  own_at := by
    intro j v hv
    by_cases hj : j = i
    · subst hj
      rw [Cell.own_write_self, Option.some.injEq] at hv
      obtain ⟨hat, r, hr, hu, hk⟩ := h.approval_view_at ha
      exact ⟨a', hv.symm, by rw [he.invocationId, hat],
        fun a₀ h₀ => (h.approval_view_evolves h₀ ha).trans he, r, hr, by rw [he.userId, hu],
        by rw [he.idempotencyKey, hk]⟩
    · rw [Cell.own_write_of_ne hj] at hv
      exact absurd hv (by simp)
  coupled := h.coupled

theorem insertApproval (h : SlotOk sha256 issued n sl) (hnone : sl.approval.view i = none)
    {r : ToolInvocation} (hr : sl.invocation.view i = some r) {a : Approval}
    (hat : a.invocationId = n) (hu : a.userId = r.userId)
    (hk : a.idempotencyKey = r.idempotencyKey) :
    SlotOk sha256 issued n ⟨sl.invocation, sl.approval.write i (some a)⟩ where
  committed_wf := h.committed_wf
  own_wf := h.own_wf
  committed_at := h.committed_at
  own_at := by
    intro j v hv
    by_cases hj : j = i
    · subst hj
      rw [Cell.own_write_self, Option.some.injEq] at hv
      refine ⟨a, hv.symm, hat, fun a₀ h₀ => ?_, r, hr, hu, hk⟩
      -- nothing is committed that the session would not see
      cases ho : sl.approval.own j with
      | none =>
        rw [Cell.view_of_not_own ho] at hnone
        rw [Cell.committed_write, hnone] at h₀
        exact absurd h₀ (by simp)
      | some w =>
        obtain ⟨a', rfl, -⟩ := h.own_at j w ho
        rw [Cell.view_of_own ho] at hnone
        exact absurd hnone (by simp)
    · rw [Cell.own_write_of_ne hj] at hv
      exact absurd hv (by simp)
  coupled := h.coupled

/-- **A safe session's commit leaves the slot coupled.** -/
theorem coupled_view (h : SlotOk sha256 issued n sl) (hs : Safe sha256 issued i sl) :
    Coupled sha256 issued (sl.invocation.view i) (sl.approval.view i) := by
  unfold Safe at hs
  cases hi : sl.invocation.own i with
  | none =>
    cases ha : sl.approval.own i with
    | none =>
      rw [Cell.view_of_not_own hi, Cell.view_of_not_own ha]
      exact h.coupled
    | some a =>
      rw [hi, ha] at hs
      obtain ⟨r₀, h₀, hall⟩ := hs
      rw [Cell.view_of_not_own hi, Cell.view_of_own ha, h₀]
      exact hall r₀ (.refl r₀) (by rw [← h₀]; exact h.coupled)
  | some r =>
    cases ha : sl.approval.own i with
    | none =>
      rw [hi, ha] at hs
      rw [Cell.view_of_own hi, Cell.view_of_not_own ha]
      exact hs _ h.coupled
    | some a =>
      rw [hi, ha] at hs
      rw [Cell.view_of_own hi, Cell.view_of_own ha]
      exact hs

theorem commit (h : SlotOk sha256 issued n sl) (hs : Safe sha256 issued i sl) :
    SlotOk sha256 issued n ⟨sl.invocation.commit i, sl.approval.commit i⟩ where
  committed_wf := by
    intro r hr
    rw [Cell.committed_commit] at hr
    exact h.view_wf hr
  own_wf := by
    intro j v hv
    by_cases hj : j = i
    · subst hj
      rw [Cell.own_commit_self] at hv
      exact absurd hv (by simp)
    · rw [(Cell.By.commit (i := i)).own_eq hj] at hv
      obtain ⟨r, hr, hw, he, hs⟩ := h.own_wf j v hv
      have hc := (Cell.By.commit (i := i)).committed_of_own hj hv
      refine ⟨r, hr, hw, fun r₀ h₀ => he r₀ (by rw [← hc]; exact h₀), fun hx => ?_⟩
      rcases hs hx with hs | ⟨r₀, h₀, hx₀⟩
      · exact .inl hs
      · exact .inr ⟨r₀, by rw [hc]; exact h₀, hx₀⟩
  committed_at := by
    intro a ha
    rw [Cell.committed_commit] at ha
    exact (h.approval_view_at ha).1
  own_at := by
    intro j v hv
    by_cases hj : j = i
    · subst hj
      rw [Cell.own_commit_self] at hv
      exact absurd hv (by simp)
    · rw [(Cell.By.commit (i := i)).own_eq hj] at hv
      obtain ⟨a, hav, hat, he, r, hr, hu, hk⟩ := h.own_at j v hv
      refine ⟨a, hav, hat, fun a₀ h₀ => he a₀ ?_, ?_⟩
      · rw [← (Cell.By.commit (i := i)).committed_of_own hj hv]
        exact h₀
      · -- the invocation session `j` reads is its own version or has been committed by `i`
        cases ho : sl.invocation.own j with
        | some w =>
          have ho' : (sl.invocation.commit i).own j = some w := by
            rw [(Cell.By.commit (i := i)).own_eq hj, ho]
          rw [Cell.view_of_own ho] at hr
          exact ⟨r, by rw [Cell.view_of_own ho', hr], hu, hk⟩
        | none =>
          rw [Cell.view_of_not_own ho] at hr
          obtain ⟨r', hr'⟩ := h.view_of_committed (i := i) hr
          have he' := h.view_evolves hr hr'
          refine ⟨r', ?_, by rw [he'.userId, hu], by rw [he'.idempotencyKey, hk]⟩
          rw [Cell.view_of_not_own (by rw [(Cell.By.commit (i := i)).own_eq hj, ho]),
            Cell.committed_commit, hr']
  coupled := by
    rw [Cell.committed_commit, Cell.committed_commit]
    exact h.coupled_view hs

theorem rollback (h : SlotOk sha256 issued n sl) :
    SlotOk sha256 issued n ⟨sl.invocation.rollback i, sl.approval.rollback i⟩ where
  committed_wf := by
    intro r hr
    rw [Cell.committed_rollback] at hr
    exact h.committed_wf r hr
  own_wf := by
    intro j v hv
    by_cases hj : j = i
    · subst hj
      rw [Cell.own_rollback_self] at hv
      exact absurd hv (by simp)
    · rw [(Cell.By.rollback (i := i)).own_eq hj] at hv
      simp only [Slot.Started, Cell.committed_rollback]
      exact h.own_wf j v hv
  committed_at := by
    intro a ha
    rw [Cell.committed_rollback] at ha
    exact h.committed_at a ha
  own_at := by
    intro j v hv
    by_cases hj : j = i
    · subst hj
      rw [Cell.own_rollback_self] at hv
      exact absurd hv (by simp)
    · rw [(Cell.By.rollback (i := i)).own_eq hj] at hv
      have hview : (sl.invocation.rollback i).view j = sl.invocation.view j := by
        rw [Cell.view, Cell.view, (Cell.By.rollback (i := i)).own_eq hj, Cell.committed_rollback]
      simp only [Cell.committed_rollback, hview]
      exact h.own_at j v hv
  coupled := by
    rw [Cell.committed_rollback, Cell.committed_rollback]
    exact h.coupled

end SlotOk

/-! ## Safe slots -/

namespace Safe

variable {n i : Nat} {sl : Slot}

theorem of_idle (hi : sl.invocation.own i = none) (ha : sl.approval.own i = none) :
    Safe sha256 issued i sl := by
  unfold Safe
  rw [hi, ha]
  trivial

/-- A row that is not written by the session itself is not `PENDING`, and one it has written in a
    safe slot is not either. -/
theorem ne_pending (hok : SlotOk sha256 issued n sl) (hs : Safe sha256 issued i sl)
    {r : ToolInvocation} (hr : sl.invocation.view i = some r) : r.status ≠ .pending := by
  have hc := hok.coupled_view hs
  rw [hr] at hc
  exact hc.ne_pending

/-- Writing a row of a safe slot again leaves it safe, if the pair it stands in stays coupled. -/
theorem writeInvocation (hok : SlotOk sha256 issued n sl) (hs : Safe sha256 issued i sl)
    {r r' : ToolInvocation} (hr : sl.invocation.view i = some r)
    (hmono : ∀ a, Coupled sha256 issued (some r) a → Coupled sha256 issued (some r') a) :
    Safe sha256 issued i ⟨sl.invocation.write i (some r'), sl.approval⟩ := by
  unfold Safe at hs ⊢
  rw [Cell.own_write_self]
  cases hi : sl.invocation.own i with
  | none =>
    rw [Cell.view_of_not_own hi] at hr
    cases ha : sl.approval.own i with
    | none =>
      intro a hc
      rw [Cell.committed_write, hr] at hc
      exact hmono a hc
    | some a =>
      rw [hi, ha] at hs
      obtain ⟨r₀, h₀, hall⟩ := hs
      rw [hr, Option.some.injEq] at h₀
      subst h₀
      refine hmono a (hall r (.refl r) ?_)
      rw [← hr]
      exact hok.coupled
  | some v =>
    rw [Cell.view_of_own hi] at hr
    subst hr
    cases ha : sl.approval.own i with
    | none =>
      rw [hi, ha] at hs
      exact fun a hc => hmono a (hs a hc)
    | some a =>
      rw [hi, ha] at hs
      exact hmono a hs

end Safe

end

/-! ## The store -/

/-- The store together with the claims that are about to return. -/
structure Tracked where
  store : Store
  granted : Nat → Option Nat

/-- The call returned that invocation `n` is to be executed by its caller. -/
def Return.grants (n : Nat) (e : Return) : Bool :=
  match e.outcome with
  | .ok (some claim) => claim.shouldExecute && claim.invocationId = n
  | _ => false

/-- How many calls returned that the invocation is to be executed. -/
def Store.grants (s : Store) (n : Nat) : Nat := s.returns.countP (Return.grants n)

abbrev Store.started (s : Store) (n : Nat) : Prop := (s.slot n).Started

section

variable (sha256 : Sha256) (issued : Call → Prop)

/-- The call presents the scope of `r`, with the payload `r` is to be executed with. -/
def Call.Presents (r : ToolInvocation) : Call → Prop
  | .claimToolInvocation userId threadId _ toolCallId toolName requestedInput =>
      r.userId = userId ∧ r.threadId = threadId ∧ r.toolCallId = toolCallId ∧
        r.effectiveToolName = toolName ∧
        canonicalJson sha256 (toPy r.effectiveInput) =
          canonicalJson sha256 (toPy (jsonObject sha256 (.mapping requestedInput)))
  | _ => False

/-- What the returned claims say about the store. -/
structure LogOk (t : Tracked) : Prop where
  once : ∀ n, t.store.grants n ≤ 1
  started : ∀ n, 0 < t.store.grants n → t.store.started n
  granted : ∀ n i, t.granted n = some i → t.store.grants n = 0 ∧ t.store.started n
  payload : ∀ e ∈ t.store.returns, ∀ c, e.outcome = .ok (some c) → c.shouldExecute = true →
    ∃ r, (t.store.slot c.invocationId).invocation.committed = some r ∧
      r.status.executed = true ∧ e.call.Presents sha256 r

/-- The invariant of the whole store. -/
structure Inv (t : Tracked) : Prop where
  fresh : ∀ n, t.store.next ≤ n → t.store.slot n = .empty
  slots : ∀ n, SlotOk sha256 issued n (t.store.slot n)
  unique : ∀ p q r r', (t.store.slot p).invocation.Holds (some r) →
    (t.store.slot q).invocation.Holds (some r') → r.userId = r'.userId →
      r.idempotencyKey = r'.idempotencyKey → p = q
  log : LogOk sha256 t

/-- Every commit of session `i` from here keeps the invariant. -/
def Ready (i : Nat) (t : Tracked) : Prop := ∀ n, Safe sha256 issued i (t.store.slot n)

end

/-- **What one statement of session `i` does.** It never touches another session's versions, and
    the claims another session is about to return stay with it. -/
structure Guar (i : Nat) (t t' : Tracked) : Prop where
  invocation : ∀ n, Cell.By i (t.store.slot n).invocation (t'.store.slot n).invocation
  approval : ∀ n, Cell.By i (t.store.slot n).approval (t'.store.slot n).approval
  next : t.store.next ≤ t'.store.next
  granted : ∀ n j, j ≠ i → t.granted n = some j → t'.granted n = some j

/-- A statement that changes nothing keeps the promise. -/
theorem Guar.refl (i : Nat) (t : Tracked) : Guar i t t :=
  ⟨fun _ => .same, fun _ => .same, Nat.le_refl _, fun _ _ _ h => h⟩

section

variable {sha256 : Sha256} {issued : Call → Prop}

/-- **Committed rows only evolve.** -/
theorem Guar.later {i : Nat} {t t' : Tracked} (hg : Guar i t t') (hi : Inv sha256 issued t)
    (n : Nat) : Later ToolInvocation.Evolves (t.store.slot n).invocation.committed
      (t'.store.slot n).invocation.committed := by
  intro r hr
  rcases (hg.invocation n).committed_eq with he | ho
  · exact ⟨r, by rw [he, hr], .refl r⟩
  · obtain ⟨r', hr', -, hev, -⟩ := (hi.slots n).own_wf i _ ho
    exact ⟨r', hr', hev r hr⟩

theorem Guar.approval_later {i : Nat} {t t' : Tracked} (hg : Guar i t t')
    (hi : Inv sha256 issued t) (n : Nat) :
    Later Approval.Evolves (t.store.slot n).approval.committed
      (t'.store.slot n).approval.committed := by
  intro a ha
  rcases (hg.approval n).committed_eq with he | ho
  · exact ⟨a, by rw [he, ha], .refl a⟩
  · obtain ⟨a', ha', -, hev, -⟩ := (hi.slots n).own_at i _ ho
    exact ⟨a', ha', hev a ha⟩

/-- What has been started stays so. -/
theorem Store.started.later {s s' : Store} {n : Nat} (h : s.started n)
    (hl : Later ToolInvocation.Evolves (s.slot n).invocation.committed
      (s'.slot n).invocation.committed) : s'.started n := by
  obtain ⟨r, hr, hx⟩ := h
  obtain ⟨r', hr', he⟩ := hl r hr
  exact ⟨r', hr', he.status.executed hx⟩

/-- The payload of a started row does not change, so it is presented still. -/
theorem Call.Presents.evolves {r r' : ToolInvocation} {call : Call} (he : r.Evolves r')
    (hx : r.status.executed = true) (h : call.Presents sha256 r) : call.Presents sha256 r' := by
  obtain ⟨hn, hi⟩ := he.effective (ToolInvocationStatus.settled_of_executed hx)
  cases call with
  | claimToolInvocation u t rid c n args =>
    obtain ⟨h1, h2, h3, h4, h5⟩ := h
    exact ⟨by rw [he.userId, h1], by rw [he.threadId, h2], by rw [he.toolCallId, h3],
      by rw [hn, h4], by rw [hi, h5]⟩
  | _ => exact h.elim

/-- The log stays right while committed rows evolve and nobody returns. -/
theorem LogOk.later {t t' : Tracked} (h : LogOk sha256 t)
    (hl : ∀ n, Later ToolInvocation.Evolves (t.store.slot n).invocation.committed
      (t'.store.slot n).invocation.committed)
    (hret : t'.store.returns = t.store.returns)
    (hgr : ∀ n i, t'.granted n = some i → t'.store.grants n = 0 ∧ t'.store.started n) :
    LogOk sha256 t' where
  once := by
    intro n
    unfold Store.grants
    rw [hret]
    exact h.once n
  started := by
    intro n hn
    unfold Store.grants at hn
    rw [hret] at hn
    exact (h.started n hn).later (hl n)
  granted := hgr
  payload := by
    intro e he c hc hx
    rw [hret] at he
    obtain ⟨r, hr, hxr, hp⟩ := h.payload e he c hc hx
    obtain ⟨r', hr', hev⟩ := hl c.invocationId r hr
    exact ⟨r', hr', hev.status.executed hxr, hp.evolves hev hxr⟩

theorem LogOk.same {t t' : Tracked} (h : LogOk sha256 t)
    (hl : ∀ n, Later ToolInvocation.Evolves (t.store.slot n).invocation.committed
      (t'.store.slot n).invocation.committed)
    (hret : t'.store.returns = t.store.returns) (hgr : t'.granted = t.granted) :
    LogOk sha256 t' := by
  refine h.later hl hret fun n i hn => ?_
  rw [hgr] at hn
  obtain ⟨h0, hs⟩ := h.granted n i hn
  exact ⟨by unfold Store.grants; rw [hret]; exact h0, hs.later (hl n)⟩

/-- The empty tables. -/
theorem Inv.initial (conversation : String → Option Conversation) :
    Inv sha256 issued ⟨.initial conversation, fun _ => none⟩ where
  fresh := fun _ _ => rfl
  slots := fun n => SlotOk.empty n
  unique := by
    intro p q r r' hr
    rcases hr with hr | ⟨j, hj⟩
    · exact absurd hr (by simp [Store.initial, Slot.empty])
    · exact absurd hj (by simp [Store.initial, Slot.empty])
  log := ⟨fun n => by simp [Store.grants, Store.initial],
    fun n hn => absurd hn (by simp [Store.grants, Store.initial]), by simp,
    by simp [Store.initial]⟩

end

end HyChat
