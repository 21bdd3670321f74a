import HyChat.Tool.Invariant

/-!
# The statements keep the invariant

One lemma per statement that changes the store: under what it needs to know, the invariant holds
after it and the session has kept its promise. A statement other than `COMMIT` is `Quiet`: nothing
committed changes. `Inv.commit` is the one place where `Safe` is used up.

The second half packs the lemmas into a family of parties and turns each statement into a rule of
the rely–guarantee logic. The rules are stated for a party that may assume more (`R`) and promise
more (`G`) than the family does, so that the same function specifications serve a session among
arbitrary others and a session among others that behave.

Why the split into two halves. What a statement does to the invariant has nothing to do with the
logic it is used in, and is proved on bare stores: a lemma names the slot that is written, the row
that stood there and what is asked of the row that replaces it. The rules of the second half say
the same about a program, and add what the logic wants to know: which assertions of the session
stay true while others move, and which of the answers can occur.

Where the difficulty sits. A write that is not committed is invisible, so almost everything about
it is bookkeeping: `Quiet` packages that, and the lemmas for the four writing statements produce
it. A commit makes all writes of a session visible at once, and then the rows must fit together, no
other session may have started the same invocation, and a start must be granted to exactly one
session. All of that is asked of the session beforehand, in `Ready`, and is used in `Inv.commit`
and nowhere else. A function that keeps its session ready up to the commit is therefore safe, and
the specifications of the functions in the next modules are arranged around that.

No lemma looks at a fault separately: a statement that fails changes nothing (`run_of_sem`), and
the exception it raises is the one that the program logic knows.
-/

set_option autoImplicit false

namespace HyChat

open Lib Relation

/-! ## Reading the store -/

namespace Store

variable {s : Store}

/-- A slot that is found meets the condition. -/
theorem findSlot_eq_some {p : Slot → Bool} {n : Nat} (h : s.findSlot p = some n) :
    n < s.next ∧ p (s.slot n) = true :=
  ⟨List.mem_range.mp (List.mem_of_find?_eq_some h),
    List.find?_some (p := fun n => p (s.slot n)) h⟩

/-- If none is found, no slot meets it. -/
theorem findSlot_eq_none {p : Slot → Bool} (h : s.findSlot p = none) {n : Nat}
    (hn : n < s.next) : p (s.slot n) = false := by
  have := List.find?_eq_none.mp h n (List.mem_range.mpr hn)
  simpa using this

@[simp] theorem putInvocation_slot_self (i n : Nat) (row : ToolInvocation) :
    (s.putInvocation i n row).slot n =
      ⟨(s.slot n).invocation.write i (some row), (s.slot n).approval⟩ := by
  simp [putInvocation]

theorem putInvocation_slot_of_ne {i n m : Nat} (h : m ≠ n) (row : ToolInvocation) :
    (s.putInvocation i n row).slot m = s.slot m := by
  simp [putInvocation, Function.update_of_ne h]

@[simp] theorem putApproval_slot_self (i n : Nat) (row : Approval) :
    (s.putApproval i n row).slot n =
      ⟨(s.slot n).invocation, (s.slot n).approval.write i (some row)⟩ := by
  simp [putApproval]

theorem putApproval_slot_of_ne {i n m : Nat} (h : m ≠ n) (row : Approval) :
    (s.putApproval i n row).slot m = s.slot m := by
  simp [putApproval, Function.update_of_ne h]

end Store

/-- A statement fails and changes nothing, or it runs. -/
theorem run_of_sem {i : Nat} {o : Stmt} {s s' : Store} {r : toolSig.Res o}
    (h : toolDb.sem i o s r s') :
    (r = .error .databaseError ∧ s' = s) ∨ ∃ now, o.run i now s = some (r, s') := by
  obtain ⟨choice, he⟩ := h
  by_cases hf : choice.fault && o.fallible
  · simp only [toolDb, hf, if_true, Option.some.injEq, Prod.mk.injEq] at he
    exact .inl ⟨he.1.symm, he.2.symm⟩
  · simp only [toolDb, hf] at he
    exact .inr ⟨choice.now, he⟩

/-- What the lookup by key compares, as a statement about the row seen. -/
theorem Slot.seesInvocation_iff {i : Nat} {userId key : String} {sl : Slot} :
    sl.seesInvocation i userId key = true ↔
      ∃ r, sl.invocation.view i = some r ∧ r.userId = userId ∧ r.idempotencyKey = key := by
  simp only [Slot.seesInvocation, Option.any_eq_true, ToolInvocation.hasKey, Bool.and_eq_true,
    decide_eq_true_eq]

theorem Slot.seesApproval_iff {i : Nat} {userId key : String} {sl : Slot} :
    sl.seesApproval i userId key = true ↔
      ∃ a, sl.approval.view i = some a ∧ a.userId = userId ∧ a.idempotencyKey = key := by
  simp only [Slot.seesApproval, Option.any_eq_true, Approval.hasKey, Bool.and_eq_true,
    decide_eq_true_eq]

/-- A row that another session has inserted and not committed makes an insertion under its key
wait. -/
theorem Slot.awaitsInvocation_of_own {i j : Nat} {userId key : String} {sl : Slot}
    {r : ToolInvocation} (hj : sl.invocation.own j = some (some r)) (hij : j ≠ i)
    (hu : r.userId = userId) (hk : r.idempotencyKey = key) :
    sl.awaitsInvocation i userId key = true := by
  have hi : sl.invocation.own i = none := by
    cases hi : sl.invocation.own i with
    | none => rfl
    | some w => exact absurd (Cell.own_unique hj hi).1 hij
  rw [Cell.own_eq_some] at hj
  simp [Slot.awaitsInvocation, Cell.lockedFor, hi, hj, ToolInvocation.hasKey, hu, hk]

/-! ## What a statement can do

An inversion lemma for each statement that writes. Later proofs split on these cases and never
unfold `Stmt.run`. -/

/-- Either a row stands in the way, which the session sees, or the row is put into a fresh slot. -/
theorem run_insertInvocation {i now : Nat} {s s' : Store} {row : ToolInvocation}
    {res : Except PyError Unit} (h : Stmt.run i now s (.insertInvocation row) = some (res, s')) :
    res = .ok () ∧
      ((∃ m, s.findSlot (Slot.seesInvocation i row.userId row.idempotencyKey) = some m ∧ s' = s) ∨
        s.findSlot (Slot.seesInvocation i row.userId row.idempotencyKey) = none ∧
          s.findSlot (Slot.awaitsInvocation i row.userId row.idempotencyKey) = none ∧
          s' = s.insertInvocation i row) := by
  simp only [Stmt.run] at h
  cases hs : s.findSlot (Slot.seesInvocation i row.userId row.idempotencyKey) with
  | some m =>
    rw [hs] at h
    simp only [Option.isSome_some, if_true, Option.some.injEq, Prod.mk.injEq] at h
    exact ⟨h.1.symm, .inl ⟨m, rfl, h.2.symm⟩⟩
  | none =>
    rw [hs] at h
    cases ha : s.findSlot (Slot.awaitsInvocation i row.userId row.idempotencyKey) with
    | some m =>
      rw [ha] at h
      simp at h
    | none =>
      rw [ha] at h
      simp only [Option.isSome_none, Bool.false_eq_true, if_false, Option.some.injEq,
        Prod.mk.injEq] at h
      exact ⟨h.1.symm, .inr ⟨rfl, rfl, h.2.symm⟩⟩

/-- Either the row does not meet the condition and the count is 0, or it is replaced and the count
is 1. -/
theorem run_updateInvocation {i now id : Nat} {s s' : Store} {condition : ToolInvocation → Bool}
    {values : ToolInvocation → ToolInvocation} {res : Except PyError Nat}
    (h : Stmt.run i now s (.updateInvocation id condition values) = some (res, s')) :
    (res = .ok 0 ∧ s' = s ∧
        ∀ r, (s.slot id).invocation.view i = some r → condition r = false) ∨
      ∃ r, (s.slot id).invocation.view i = some r ∧ condition r = true ∧
        (s.slot id).invocation.lockedFor i = false ∧ res = .ok 1 ∧
        s' = s.putInvocation i id (values r) := by
  simp only [Stmt.run] at h
  cases hv : (s.slot id).invocation.view i with
  | none =>
    rw [hv] at h
    simp only [Option.some.injEq, Prod.mk.injEq] at h
    exact .inl ⟨h.1.symm, h.2.symm, fun r hr => by cases hr⟩
  | some r =>
    rw [hv] at h
    cases hc : condition r with
    | false =>
      simp only [hc, Bool.false_eq_true, if_false, Option.some.injEq, Prod.mk.injEq] at h
      refine .inl ⟨h.1.symm, h.2.symm, fun r' hr' => ?_⟩
      cases hr'
      exact hc
    | true =>
      simp only [hc, if_true] at h
      cases hl : (s.slot id).invocation.lockedFor i with
      | true =>
        rw [hl] at h
        simp at h
      | false =>
        rw [hl] at h
        simp only [Bool.false_eq_true, if_false, Option.some.injEq, Prod.mk.injEq] at h
        exact .inr ⟨r, rfl, hc, rfl, h.1.symm, h.2.symm⟩

/-- The same for the other table. -/
theorem run_updateApproval {i now id : Nat} {s s' : Store} {condition : Approval → Bool}
    {values : Approval → Approval} {res : Except PyError Nat}
    (h : Stmt.run i now s (.updateApproval id condition values) = some (res, s')) :
    (res = .ok 0 ∧ s' = s ∧ ∀ a, (s.slot id).approval.view i = some a → condition a = false) ∨
      ∃ a, (s.slot id).approval.view i = some a ∧ condition a = true ∧
        (s.slot id).approval.lockedFor i = false ∧ res = .ok 1 ∧
        s' = s.putApproval i id (values a) := by
  simp only [Stmt.run] at h
  cases hv : (s.slot id).approval.view i with
  | none =>
    rw [hv] at h
    simp only [Option.some.injEq, Prod.mk.injEq] at h
    exact .inl ⟨h.1.symm, h.2.symm, fun a ha => by cases ha⟩
  | some a =>
    rw [hv] at h
    cases hc : condition a with
    | false =>
      simp only [hc, Bool.false_eq_true, if_false, Option.some.injEq, Prod.mk.injEq] at h
      refine .inl ⟨h.1.symm, h.2.symm, fun a' ha' => ?_⟩
      cases ha'
      exact hc
    | true =>
      simp only [hc, if_true] at h
      cases hl : (s.slot id).approval.lockedFor i with
      | true =>
        rw [hl] at h
        simp at h
      | false =>
        rw [hl] at h
        simp only [Bool.false_eq_true, if_false, Option.some.injEq, Prod.mk.injEq] at h
        exact .inr ⟨a, rfl, hc, rfl, h.1.symm, h.2.symm⟩

/-- The foreign key and the unique `invocation_id` make an insertion fail. -/
theorem run_insertApproval {i now : Nat} {s s' : Store} {row : Approval}
    {res : Except PyError Unit} (h : Stmt.run i now s (.insertApproval row) = some (res, s')) :
    (∃ m, s.findSlot (Slot.seesApproval i row.userId row.idempotencyKey) = some m ∧
        res = .ok () ∧ s' = s) ∨
      (res = .error .databaseError ∧ s' = s) ∨
      ∃ r, (s.slot row.invocationId).invocation.view i = some r ∧
        (s.slot row.invocationId).approval.view i = none ∧
        (s.slot row.invocationId).approval.lockedFor i = false ∧ res = .ok () ∧
        s' = s.putApproval i row.invocationId row := by
  simp only [Stmt.run] at h
  cases hs : s.findSlot (Slot.seesApproval i row.userId row.idempotencyKey) with
  | some m =>
    rw [hs] at h
    simp only [Option.isSome_some, if_true, Option.some.injEq, Prod.mk.injEq] at h
    exact .inl ⟨m, rfl, h.1.symm, h.2.symm⟩
  | none =>
    rw [hs] at h
    cases hw : s.findSlot (Slot.awaitsApproval i row.userId row.idempotencyKey) with
    | some m =>
      rw [hw] at h
      simp at h
    | none =>
      rw [hw] at h
      cases hl : (s.slot row.invocationId).approval.lockedFor i with
      | true =>
        rw [hl] at h
        simp at h
      | false =>
        rw [hl] at h
        cases hr : (s.slot row.invocationId).invocation.view i with
        | none =>
          rw [hr] at h
          simp only [Option.isSome_none, Option.isNone_none, Bool.true_or, Bool.false_eq_true,
            if_true, if_false, Option.some.injEq, Prod.mk.injEq] at h
          exact .inr (.inl ⟨h.1.symm, h.2.symm⟩)
        | some r =>
          rw [hr] at h
          cases ha : (s.slot row.invocationId).approval.view i with
          | some a =>
            rw [ha] at h
            simp only [Option.isSome_none, Option.isNone_some, Option.isSome_some, Bool.or_true,
              Bool.false_eq_true, if_true, if_false, Option.some.injEq, Prod.mk.injEq] at h
            exact .inr (.inl ⟨h.1.symm, h.2.symm⟩)
          | none =>
            rw [ha] at h
            simp only [Option.isSome_none, Option.isNone_some, Bool.or_self, Bool.false_eq_true,
              if_false, Option.some.injEq, Prod.mk.injEq] at h
            exact .inr (.inr ⟨r, rfl, rfl, rfl, h.1.symm, h.2.symm⟩)

/-! ## Quiet statements -/

/-- A statement of session `i` that commits nothing and is seen by nobody. -/
structure Quiet (i : Nat) (t t' : Tracked) : Prop extends Guar i t t' where
  committed : ∀ n, (t'.store.slot n).invocation.committed = (t.store.slot n).invocation.committed
  approval_committed : ∀ n,
    (t'.store.slot n).approval.committed = (t.store.slot n).approval.committed
  conversation : t'.store.conversation = t.store.conversation
  returns : t'.store.returns = t.store.returns
  same_granted : t'.granted = t.granted

/-- A statement that reads. -/
theorem Quiet.refl (i : Nat) (t : Tracked) : Quiet i t t :=
  ⟨.refl i t, fun _ => rfl, fun _ => rfl, rfl, rfl, rfl⟩

section

variable {sha256 : Sha256} {issued : Call → Prop} {i n : Nat} {t : Tracked}

theorem later_of_eq {o o' : Option ToolInvocation} (h : o' = o) :
    Later ToolInvocation.Evolves o o' := by
  rw [h]
  exact Later.refl .refl o

/-- Rows are seen below the counter of slots only. -/
theorem Inv.lt_next (h : Inv sha256 issued t) {r : ToolInvocation}
    (hr : (t.store.slot n).invocation.view i = some r) : n < t.store.next := by
  by_contra hge
  rw [h.fresh n (Nat.le_of_not_lt hge)] at hr
  exact absurd hr (by simp [Slot.empty, Cell.view])

/-- Keys tell slots apart, whoever looks. -/
theorem Inv.slot_eq (h : Inv sha256 issued t) {p q j : Nat} {r r' : ToolInvocation}
    (hr : (t.store.slot p).invocation.view i = some r)
    (hr' : (t.store.slot q).invocation.view j = some r') (hu : r.userId = r'.userId)
    (hk : r.idempotencyKey = r'.idempotencyKey) : p = q :=
  h.unique p q r r' (hr ▸ Cell.view_holds i _) (hr' ▸ Cell.view_holds j _) hu hk

/-- A row lookup finds the row at its own id. -/
theorem Inv.view_at (h : Inv sha256 issued t) {r : ToolInvocation}
    (hr : (t.store.slot n).invocation.view i = some r) : r.id = n := ((h.slots n).view_wf hr).id

/-- Replacing a row by one that it may evolve into. What has to be known is the row that is seen,
and that nobody else holds it. -/
theorem Inv.putInvocation (h : Inv sha256 issued t)
    (hfree : (t.store.slot n).invocation.lockedFor i = false) {r r' : ToolInvocation}
    (hr : (t.store.slot n).invocation.view i = some r) (he : r.Evolves r')
    (hw : r'.WellFormed sha256 issued n)
    (hx : r'.status.executed = true → r'.status = .running ∨ t.store.started n) :
    Inv sha256 issued ⟨t.store.putInvocation i n r', t.granted⟩ ∧
      Quiet i t ⟨t.store.putInvocation i n r', t.granted⟩ := by
  have hslot : ∀ m, m ≠ n → (t.store.putInvocation i n r').slot m = t.store.slot m :=
    fun m hm => Store.putInvocation_slot_of_ne hm r'
  -- a version of the new store has the key of a version of the old one
  have hold : ∀ p x, ((t.store.putInvocation i n r').slot p).invocation.Holds (some x) →
      ∃ x₀, (t.store.slot p).invocation.Holds (some x₀) ∧ x₀.userId = x.userId ∧
        x₀.idempotencyKey = x.idempotencyKey := by
    intro p x hx
    by_cases hp : p = n
    · subst hp
      rw [Store.putInvocation_slot_self] at hx
      rcases Cell.Holds.of_write hx with hx | hx
      · simp only [Option.some.injEq] at hx
        subst hx
        exact ⟨r, hr ▸ Cell.view_holds i _, he.userId.symm, he.idempotencyKey.symm⟩
      · exact ⟨x, hx, rfl, rfl⟩
    · rw [hslot p hp] at hx
      exact ⟨x, hx, rfl, rfl⟩
  have hquiet : Quiet i t ⟨t.store.putInvocation i n r', t.granted⟩ := by
    refine ⟨⟨fun m => ?_, fun m => ?_, Nat.le_refl _, fun _ _ _ h => h⟩, fun m => ?_, fun m => ?_,
      rfl, rfl, rfl⟩
    · by_cases hm : m = n
      · subst hm
        simp only [Store.putInvocation_slot_self]
        exact .write _ hfree
      · simp only [hslot m hm]
        exact .same
    · by_cases hm : m = n
      · subst hm
        simp only [Store.putInvocation_slot_self]
        exact .same
      · simp only [hslot m hm]
        exact .same
    · by_cases hm : m = n
      · subst hm
        simp
      · simp only [hslot m hm]
    · by_cases hm : m = n
      · subst hm
        simp
      · simp only [hslot m hm]
  refine ⟨⟨fun m hm => ?_, fun m => ?_, ?_, ?_⟩, hquiet⟩
  · have hlt := h.lt_next hr
    have hmn : m ≠ n := by
      intro e
      subst e
      exact absurd hlt (Nat.not_lt.mpr hm)
    simp only [hslot m hmn]
    exact h.fresh m hm
  · by_cases hm : m = n
    · subst hm
      simp only [Store.putInvocation_slot_self]
      exact (h.slots m).writeInvocation hfree hr he hw hx
    · simp only [hslot m hm]
      exact h.slots m
  · intro p q x y hx hy hu hk
    obtain ⟨x₀, hx₀, hxu, hxk⟩ := hold p x hx
    obtain ⟨y₀, hy₀, hyu, hyk⟩ := hold q y hy
    exact h.unique p q x₀ y₀ hx₀ hy₀ (by rw [hxu, hyu, hu]) (by rw [hxk, hyk, hk])
  · exact h.log.same (fun m => later_of_eq (hquiet.committed m)) rfl rfl

/-- A new row in a fresh slot, under a key that nobody uses. -/
theorem Inv.insertInvocation (h : Inv sha256 issued t) {row : ToolInvocation}
    (hsees : t.store.findSlot (Slot.seesInvocation i row.userId row.idempotencyKey) = none)
    (hawaits : t.store.findSlot (Slot.awaitsInvocation i row.userId row.idempotencyKey) = none)
    (hw : { row with id := t.store.next }.WellFormed sha256 issued t.store.next)
    (hx : row.status.executed = false) :
    Inv sha256 issued ⟨t.store.insertInvocation i row, t.granted⟩ ∧
      Quiet i t ⟨t.store.insertInvocation i row, t.granted⟩ := by
  have hempty := h.fresh t.store.next (Nat.le_refl _)
  have hself : (t.store.insertInvocation i row).slot t.store.next =
      ⟨Slot.empty.invocation.write i (some { row with id := t.store.next }),
        Slot.empty.approval⟩ := by
    simp [Store.insertInvocation, hempty]
  have hslot : ∀ m, m ≠ t.store.next →
      (t.store.insertInvocation i row).slot m = t.store.slot m :=
    fun m hm => Store.putInvocation_slot_of_ne hm _
  -- no version of the old store has the key of the new row
  have hnew : ∀ q y, (t.store.slot q).invocation.Holds (some y) → row.userId = y.userId →
      row.idempotencyKey = y.idempotencyKey → False := by
    intro q y hy hu hk
    by_cases hq : q < t.store.next
    · have hs := Store.findSlot_eq_none hsees hq
      have ha := Store.findSlot_eq_none hawaits hq
      have hview : ∀ r, (t.store.slot q).invocation.view i = some r → ¬ (r.userId = y.userId ∧
          r.idempotencyKey = y.idempotencyKey) := by
        rintro r hr ⟨hru, hrk⟩
        rw [Slot.seesInvocation_iff.mpr ⟨r, hr, by rw [hru, hu], by rw [hrk, hk]⟩] at hs
        exact absurd hs (by decide)
      rcases hy with hy | ⟨j, hj⟩
      · obtain ⟨r, hr⟩ := (h.slots q).view_of_committed (i := i) hy
        have he := (h.slots q).view_evolves hy hr
        exact hview r hr ⟨he.userId, he.idempotencyKey⟩
      · by_cases hji : j = i
        · subst hji
          exact hview y (Cell.view_of_own hj) ⟨rfl, rfl⟩
        · rw [Slot.awaitsInvocation_of_own hj hji hu.symm hk.symm] at ha
          exact absurd ha (by decide)
    · rw [h.fresh q (Nat.le_of_not_lt hq)] at hy
      rcases hy with hy | ⟨j, hj⟩
      · exact absurd hy (by simp [Slot.empty])
      · exact absurd hj (by simp [Slot.empty])
  have hold : ∀ p x, ((t.store.insertInvocation i row).slot p).invocation.Holds (some x) →
      (p = t.store.next ∧ x = { row with id := t.store.next }) ∨
        (t.store.slot p).invocation.Holds (some x) := by
    intro p x hx
    by_cases hp : p = t.store.next
    · subst hp
      rw [hself] at hx
      rcases Cell.Holds.of_write hx with hx | hx
      · exact .inl ⟨rfl, by simpa using hx⟩
      · rw [hempty]
        exact .inr hx
    · rw [hslot p hp] at hx
      exact .inr hx
  have hquiet : Quiet i t ⟨t.store.insertInvocation i row, t.granted⟩ := by
    refine ⟨⟨fun m => ?_, fun m => ?_, Nat.le_succ _, fun _ _ _ h => h⟩, fun m => ?_, fun m => ?_,
      rfl, rfl, rfl⟩
    · by_cases hm : m = t.store.next
      · subst hm
        simp only [hself, hempty]
        exact .write _ rfl
      · simp only [hslot m hm]
        exact .same
    · by_cases hm : m = t.store.next
      · subst hm
        simp only [hself, hempty]
        exact .same
      · simp only [hslot m hm]
        exact .same
    · by_cases hm : m = t.store.next
      · subst hm
        simp only [hself, hempty, Cell.committed_write]
      · simp only [hslot m hm]
    · by_cases hm : m = t.store.next
      · subst hm
        simp only [hself, hempty]
      · simp only [hslot m hm]
  refine ⟨⟨fun m hm => ?_, fun m => ?_, ?_, ?_⟩, hquiet⟩
  · have hlt : t.store.next < m := hm
    simp only [hslot m (Nat.ne_of_gt hlt)]
    exact h.fresh m (Nat.le_of_lt hlt)
  · by_cases hm : m = t.store.next
    · subst hm
      simp only [hself]
      exact SlotOk.insertInvocation hw hx
    · simp only [hslot m hm]
      exact h.slots m
  · intro p q x y hx hy hu hk
    rcases hold p x hx with ⟨rfl, rfl⟩ | hx
    · rcases hold q y hy with ⟨rfl, -⟩ | hy
      · rfl
      · exact (hnew q y hy hu hk).elim
    · rcases hold q y hy with ⟨rfl, rfl⟩ | hy
      · exact (hnew p x hx hu.symm hk.symm).elim
      · exact h.unique p q x y hx hy hu hk
  · exact h.log.same (fun m => later_of_eq (hquiet.committed m)) rfl rfl

/-- The two statements that write an approval. -/
theorem Inv.putApproval (h : Inv sha256 issued t)
    (hfree : (t.store.slot n).approval.lockedFor i = false) {a' : Approval}
    (hlt : n < t.store.next)
    (hok : SlotOk sha256 issued n
      ⟨(t.store.slot n).invocation, (t.store.slot n).approval.write i (some a')⟩) :
    Inv sha256 issued ⟨t.store.putApproval i n a', t.granted⟩ ∧
      Quiet i t ⟨t.store.putApproval i n a', t.granted⟩ := by
  have hslot : ∀ m, m ≠ n → (t.store.putApproval i n a').slot m = t.store.slot m :=
    fun m hm => Store.putApproval_slot_of_ne hm a'
  have hinv : ∀ m, ((t.store.putApproval i n a').slot m).invocation =
      (t.store.slot m).invocation := by
    intro m
    by_cases hm : m = n
    · subst hm
      rw [Store.putApproval_slot_self]
    · rw [hslot m hm]
  have hquiet : Quiet i t ⟨t.store.putApproval i n a', t.granted⟩ := by
    refine ⟨⟨fun m => ?_, fun m => ?_, Nat.le_refl _, fun _ _ _ h => h⟩, fun m => ?_, fun m => ?_,
      rfl, rfl, rfl⟩
    · simp only [hinv m]
      exact .same
    · by_cases hm : m = n
      · subst hm
        simp only [Store.putApproval_slot_self]
        exact .write _ hfree
      · simp only [hslot m hm]
        exact .same
    · simp only [hinv m]
    · by_cases hm : m = n
      · subst hm
        simp only [Store.putApproval_slot_self, Cell.committed_write]
      · simp only [hslot m hm]
  refine ⟨⟨fun m hm => ?_, fun m => ?_, ?_, ?_⟩, hquiet⟩
  · have hmn : m ≠ n := by
      intro e
      subst e
      exact absurd hlt (Nat.not_lt.mpr hm)
    simp only [hslot m hmn]
    exact h.fresh m hm
  · by_cases hm : m = n
    · subst hm
      simp only [Store.putApproval_slot_self]
      exact hok
    · simp only [hslot m hm]
      exact h.slots m
  · intro p q x y hx hy
    simp only [hinv] at hx hy
    exact h.unique p q x y hx hy
  · exact h.log.same (fun m => later_of_eq (hquiet.committed m)) rfl rfl

/-- Undoing keeps everything that is committed, and leaves the session with nothing of its own. -/
theorem Inv.rollback (h : Inv sha256 issued t) (i : Nat) :
    Inv sha256 issued ⟨t.store.rollback i, t.granted⟩ ∧
      Quiet i t ⟨t.store.rollback i, t.granted⟩ := by
  have hquiet : Quiet i t ⟨t.store.rollback i, t.granted⟩ :=
    ⟨⟨fun _ => .rollback, fun _ => .rollback, Nat.le_refl _, fun _ _ _ h => h⟩,
      fun n => Cell.committed_rollback i _, fun n => Cell.committed_rollback i _, rfl, rfl, rfl⟩
  refine ⟨⟨fun n hn => ?_, fun n => (h.slots n).rollback, fun p q x y hx hy => ?_, ?_⟩, hquiet⟩
  · simp only [Store.rollback, h.fresh n hn]
    rfl
  · exact h.unique p q x y hx.of_rollback hy.of_rollback
  · exact h.log.same (fun m => later_of_eq (hquiet.committed m)) rfl rfl

/-- **A commit.** The session must be ready; the invocations it starts are granted to it. -/
theorem Inv.commit (h : Inv sha256 issued t) (hready : Ready sha256 issued i t) :
    ∃ g, Inv sha256 issued ⟨t.store.commit i, g⟩ ∧ Guar i t ⟨t.store.commit i, g⟩ ∧
      (∀ n j, t.granted n = some j → g n = some j) ∧
      ∀ n, ¬ t.store.started n → (t.store.commit i).started n → g n = some i := by
  classical
  let g : Nat → Option Nat := fun n =>
    if t.store.started n then t.granted n
    else if (t.store.commit i).started n then some i else none
  have hlater : ∀ n, Later ToolInvocation.Evolves (t.store.slot n).invocation.committed
      ((t.store.commit i).slot n).invocation.committed := by
    intro n r hr
    obtain ⟨r', hr'⟩ := (h.slots n).view_of_committed (i := i) hr
    exact ⟨r', by simp only [Store.commit, Cell.committed_commit, hr'],
      (h.slots n).view_evolves hr hr'⟩
  have hkeep : ∀ n j, t.granted n = some j → g n = some j := by
    intro n j hn
    simp only [g, if_pos (h.log.granted n j hn).2, hn]
  refine ⟨g, ⟨fun n hn => ?_, fun n => (h.slots n).commit (hready n), fun p q x y hx hy => ?_,
    ?_⟩, ?_, hkeep, fun n hn hs => ?_⟩
  · simp only [Store.commit, h.fresh n hn]
    rfl
  · exact h.unique p q x y hx.of_commit hy.of_commit
  · refine h.log.later hlater rfl fun n j hn => ?_
    by_cases hs : t.store.started n
    · simp only [g, if_pos hs] at hn
      exact ⟨(h.log.granted n j hn).1, hs.later (hlater n)⟩
    · by_cases hs' : (t.store.commit i).started n
      · refine ⟨?_, hs'⟩
        -- a claim of it would have returned before it was started
        by_contra hne
        exact hs (h.log.started n (Nat.pos_of_ne_zero hne))
      · simp only [g, if_neg hs, if_neg hs'] at hn
        exact absurd hn (by simp)
  · exact ⟨fun _ => .commit, fun _ => .commit, Nat.le_refl _, fun n j _ hn => hkeep n j hn⟩
  · simp only [g, if_neg hn, if_pos hs]

/-- The owner of a thread may change at any time. The invariant says nothing about conversations. -/
theorem Inv.setConversation (h : Inv sha256 issued t) (i : Nat) (threadId : String)
    (c : Option Conversation) :
    Inv sha256 issued
        ⟨t.store.setConversation threadId c, t.granted⟩ ∧
      Guar i t ⟨t.store.setConversation threadId c, t.granted⟩ :=
  ⟨⟨h.fresh, h.slots, h.unique, h.log.same (fun _ => later_of_eq rfl) rfl rfl⟩,
    ⟨fun _ => .same, fun _ => .same, Nat.le_refl _, fun _ _ _ h => h⟩⟩

/-! ## Returning from a call -/

/-- A return is counted as a grant if it tells its caller to execute. -/
theorem grants_cons (s : Store) (e : Return) (n : Nat) :
    (s.log e).grants n =
      s.grants n + if e.grants n = true then 1 else 0 := by
  unfold Store.grants Store.log
  rw [List.countP_cons]

/-- The return of anything but a granted claim. -/
theorem Inv.emit (h : Inv sha256 issued t) (i : Nat) {e : Return}
    (he : ∀ c, e.outcome = .ok (some c) → c.shouldExecute = false) :
    Inv sha256 issued ⟨t.store.log e, t.granted⟩ ∧
      Guar i t ⟨t.store.log e, t.granted⟩ := by
  have hng : ∀ n, e.grants n = false := by
    intro n
    unfold Return.grants
    split
    · rename_i c hc
      rw [he c hc]
      rfl
    · rfl
  have hcount : ∀ n, (t.store.log e).grants n =
      t.store.grants n := by
    intro n
    rw [grants_cons, hng n]
    rfl
  refine ⟨⟨h.fresh, h.slots, h.unique, ⟨fun n => ?_, fun n hn => ?_, fun n j hn => ?_, ?_⟩⟩,
    ⟨fun _ => .same, fun _ => .same, Nat.le_refl _, fun _ _ _ h => h⟩⟩
  · rw [hcount]; exact h.log.once n
  · rw [hcount] at hn; exact h.log.started n hn
  · rw [hcount]; exact h.log.granted n j hn
  · intro e' he' c hc hx
    rcases List.mem_cons.mp he' with rfl | he'
    · rw [he c hc] at hx
      exact absurd hx (by decide)
    · exact h.log.payload e' he' c hc hx

/-- The return of a granted claim: the grant is used up. -/
theorem Inv.emit_grant (h : Inv sha256 issued t) {i : Nat} {call : Call}
    {c : ToolInvocationClaim} (hg : t.granted c.invocationId = some i) {r : ToolInvocation}
    (hr : (t.store.slot c.invocationId).invocation.committed = some r)
    (hx : r.status.executed = true) (hp : call.Presents sha256 r) :
    Inv sha256 issued ⟨t.store.log ⟨call, .ok (some c)⟩,
        Function.update t.granted c.invocationId none⟩ ∧
      Guar i t ⟨t.store.log ⟨call, .ok (some c)⟩,
        Function.update t.granted c.invocationId none⟩ := by
  obtain ⟨hzero, hstarted⟩ := h.log.granted _ _ hg
  have hother : ∀ n, n ≠ c.invocationId →
      Return.grants n ⟨call, .ok (some c)⟩ = false := by
    intro n hn
    have : ¬ c.invocationId = n := fun e => hn e.symm
    simp [Return.grants, this]
  have hcount : ∀ n, n ≠ c.invocationId →
      (t.store.log ⟨call, .ok (some c)⟩).grants n =
        t.store.grants n := by
    intro n hn
    rw [grants_cons, hother n hn]
    rfl
  refine ⟨⟨h.fresh, h.slots, h.unique, ⟨fun n => ?_, fun n hn => ?_, fun n j hn => ?_, ?_⟩⟩,
    ⟨fun _ => .same, fun _ => .same, Nat.le_refl _, fun n j hj hn => ?_⟩⟩
  · by_cases hn : n = c.invocationId
    · subst hn
      rw [grants_cons, hzero]
      split <;> decide
    · rw [hcount n hn]; exact h.log.once n
  · by_cases hn' : n = c.invocationId
    · subst hn'
      exact hstarted
    · rw [hcount n hn'] at hn
      exact h.log.started n hn
  · by_cases hn' : n = c.invocationId
    · subst hn'
      simp only [Function.update_self] at hn
      exact absurd hn (by simp)
    · simp only [Function.update_of_ne hn'] at hn
      rw [hcount n hn']
      exact h.log.granted n j hn
  · intro e' he' c' hc' hx'
    rcases List.mem_cons.mp he' with rfl | he'
    · simp only [Except.ok.injEq, Option.some.injEq] at hc'
      subst hc'
      exact ⟨r, hr, hx, hp⟩
    · exact h.log.payload e' he' c' hc' hx'
  · have hne : n ≠ c.invocationId := by
      intro e
      subst e
      rw [hg, Option.some.injEq] at hn
      exact hj hn.symm
    simp only [Function.update_of_ne hne]
    exact hn

end

end HyChat
