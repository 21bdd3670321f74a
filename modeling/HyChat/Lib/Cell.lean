import Mathlib.Logic.Basic

/-!
# Read-committed cells

One row of a table as the parties of a database see it at READ COMMITTED: the committed value and
at most one uncommitted version, which belongs to the party that wrote it. Its writer reads its
own version, everybody else reads the committed one, and nobody else may write before the writer
has committed or rolled back.

`Cell.By` is the whole of what one statement of one party can do to a cell. The lemmas after it
are what the other parties may conclude.
-/

set_option autoImplicit false

namespace HyChat.Lib

structure Cell (ι α : Type) where
  committed : α
  pending : Option (ι × α)

namespace Cell

variable {ι α : Type} [DecidableEq ι]

/-- The version party `i` has written and not yet committed. -/
def own (i : ι) (c : Cell ι α) : Option α :=
  match c.pending with
  | some (j, v) => if j = i then some v else none
  | none => none

/-- What party `i` reads. -/
def view (i : ι) (c : Cell ι α) : α := (c.own i).getD c.committed

/-- Some other party's version stands in the way of a write. -/
def lockedFor (i : ι) (c : Cell ι α) : Bool := c.pending.isSome && (c.own i).isNone

def write (i : ι) (v : α) (c : Cell ι α) : Cell ι α := ⟨c.committed, some (i, v)⟩

def commit (i : ι) (c : Cell ι α) : Cell ι α :=
  match c.own i with
  | some v => ⟨v, none⟩
  | none => c

def rollback (i : ι) (c : Cell ι α) : Cell ι α :=
  match c.own i with
  | some _ => ⟨c.committed, none⟩
  | none => c

/-- One of the versions the cell holds. -/
def Holds (v : α) (c : Cell ι α) : Prop := c.committed = v ∨ ∃ j, c.own j = some v

/-! ## Reading after writing -/

theorem own_eq_some {i : ι} {c : Cell ι α} {v : α} :
    c.own i = some v ↔ c.pending = some (i, v) := by
  unfold own
  cases hp : c.pending with
  | none => simp
  | some p =>
    obtain ⟨j, w⟩ := p
    by_cases hj : j = i
    · simp [hj]
    · simp [hj]

theorem own_unique {i j : ι} {c : Cell ι α} {v w : α} (hi : c.own i = some v)
    (hj : c.own j = some w) : i = j ∧ v = w := by
  rw [own_eq_some] at hi hj
  rw [hi] at hj
  simpa using hj

@[simp] theorem own_write_self (i : ι) (v : α) (c : Cell ι α) : (c.write i v).own i = some v := by
  rw [own_eq_some]
  rfl

theorem own_write_of_ne {i j : ι} (h : j ≠ i) (v : α) (c : Cell ι α) :
    (c.write i v).own j = none := by
  have : ¬ i = j := fun e => h e.symm
  simp [own, write, this]

omit [DecidableEq ι] in
@[simp] theorem committed_write (i : ι) (v : α) (c : Cell ι α) :
    (c.write i v).committed = c.committed := rfl

@[simp] theorem view_write_self (i : ι) (v : α) (c : Cell ι α) : (c.write i v).view i = v := by
  simp [view]

theorem view_of_own {i : ι} {c : Cell ι α} {v : α} (h : c.own i = some v) : c.view i = v := by
  simp [view, h]

theorem view_of_not_own {i : ι} {c : Cell ι α} (h : c.own i = none) : c.view i = c.committed := by
  simp [view, h]

theorem commit_of_own {i : ι} {c : Cell ι α} {v : α} (h : c.own i = some v) :
    c.commit i = ⟨v, none⟩ := by
  simp [commit, h]

theorem commit_of_not_own {i : ι} {c : Cell ι α} (h : c.own i = none) : c.commit i = c := by
  simp [commit, h]

theorem rollback_of_own {i : ι} {c : Cell ι α} {v : α} (h : c.own i = some v) :
    c.rollback i = ⟨c.committed, none⟩ := by
  simp [rollback, h]

theorem rollback_of_not_own {i : ι} {c : Cell ι α} (h : c.own i = none) : c.rollback i = c := by
  simp [rollback, h]

@[simp] theorem own_none (v : α) (i : ι) : (⟨v, none⟩ : Cell ι α).own i = none := rfl

@[simp] theorem committed_rollback (i : ι) (c : Cell ι α) :
    (c.rollback i).committed = c.committed := by
  unfold rollback
  cases c.own i <;> rfl

@[simp] theorem own_rollback_self (i : ι) (c : Cell ι α) : (c.rollback i).own i = none := by
  unfold rollback
  cases h : c.own i with
  | none => exact h
  | some v => rfl

@[simp] theorem own_commit_self (i : ι) (c : Cell ι α) : (c.commit i).own i = none := by
  unfold commit
  cases h : c.own i with
  | none => exact h
  | some v => rfl

/-- Committing shows everybody what the writer saw. -/
@[simp] theorem committed_commit (i : ι) (c : Cell ι α) : (c.commit i).committed = c.view i := by
  unfold commit view
  cases c.own i <;> rfl

theorem view_holds (i : ι) (c : Cell ι α) : c.Holds (c.view i) := by
  cases h : c.own i with
  | none => exact .inl (view_of_not_own h).symm
  | some v => exact .inr ⟨i, by rw [view_of_own h, h]⟩

theorem Holds.of_write {i : ι} {v w : α} {c : Cell ι α} (h : (c.write i w).Holds v) :
    v = w ∨ c.Holds v := by
  rcases h with h | ⟨j, hj⟩
  · exact .inr (.inl h)
  · by_cases hij : j = i
    · subst hij
      rw [own_write_self, Option.some.injEq] at hj
      exact .inl hj.symm
    · rw [own_write_of_ne hij] at hj
      exact absurd hj (by simp)

theorem not_own_of_not_locked {i j : ι} {c : Cell ι α} (h : c.lockedFor i = false)
    (hij : j ≠ i) : c.own j = none := by
  cases hj : c.own j with
  | none => rfl
  | some v =>
    have hi : c.own i = none := by
      cases hi : c.own i with
      | none => rfl
      | some w => exact absurd (own_unique hj hi).1 hij
    rw [own_eq_some] at hj
    simp [lockedFor, hj, hi] at h

/-! ## What one statement does to a cell -/

inductive By (i : ι) (c : Cell ι α) : Cell ι α → Prop
  | same : By i c c
  | write (v : α) : c.lockedFor i = false → By i c (c.write i v)
  | commit : By i c (c.commit i)
  | rollback : By i c (c.rollback i)

/-- **Nobody touches another party's version.** -/
theorem By.own_eq {i j : ι} {c c' : Cell ι α} (h : By i c c') (hij : j ≠ i) :
    c'.own j = c.own j := by
  cases h with
  | same => rfl
  | write v hf => rw [own_write_of_ne hij, not_own_of_not_locked hf hij]
  | commit =>
    cases hi : c.own i with
    | none => rw [commit_of_not_own hi]
    | some v =>
      rw [commit_of_own hi, own_none]
      cases hj : c.own j with
      | none => rfl
      | some w => exact absurd (own_unique hj hi).1 hij
  | rollback =>
    cases hi : c.own i with
    | none => rw [rollback_of_not_own hi]
    | some v =>
      rw [rollback_of_own hi, own_none]
      cases hj : c.own j with
      | none => rfl
      | some w => exact absurd (own_unique hj hi).1 hij

theorem Holds.of_commit {i : ι} {v : α} {c : Cell ι α} (h : (c.commit i).Holds v) :
    c.Holds v := by
  rcases h with h | ⟨j, hj⟩
  · rw [committed_commit] at h
    rw [← h]
    exact view_holds i c
  · by_cases hij : j = i
    · subst hij
      rw [own_commit_self] at hj
      exact absurd hj (by simp)
    · rw [(By.commit (i := i)).own_eq hij] at hj
      exact .inr ⟨j, hj⟩

theorem Holds.of_rollback {i : ι} {v : α} {c : Cell ι α} (h : (c.rollback i).Holds v) :
    c.Holds v := by
  rcases h with h | ⟨j, hj⟩
  · rw [committed_rollback] at h
    exact .inl h
  · by_cases hij : j = i
    · subst hij
      rw [own_rollback_self] at hj
      exact absurd hj (by simp)
    · rw [(By.rollback (i := i)).own_eq hij] at hj
      exact .inr ⟨j, hj⟩

/-- The committed value changes only to a version its writer commits. -/
theorem By.committed_eq {i : ι} {c c' : Cell ι α} (h : By i c c') :
    c'.committed = c.committed ∨ c.own i = some c'.committed := by
  cases h with
  | same => exact .inl rfl
  | write v hf => exact .inl rfl
  | commit =>
    cases hi : c.own i with
    | none => exact .inl (by rw [commit_of_not_own hi])
    | some v => exact .inr (by rw [commit_of_own hi])
  | rollback => exact .inl (committed_rollback i c)

/-- Under somebody's version the committed value stands still. -/
theorem By.committed_of_own {i j : ι} {c c' : Cell ι α} {v : α} (h : By i c c') (hij : j ≠ i)
    (hj : c.own j = some v) : c'.committed = c.committed := by
  rcases h.committed_eq with he | hi
  · exact he
  · exact absurd (own_unique hj hi).1 hij

end Cell

end HyChat.Lib
