import HyChat.Lib.Alone
import HyChat.Tool.Approvals

/-!
# The service with nobody else around

What the functions of the service do, to the end, when one session runs alone and no statement
fails. All that matters of the store then is what the session sees: `Store.inv` and `Store.app`
are the two rows of a slot as it sees them, committed or not.

`Orderly` is what every function finds and leaves: nobody else has anything uncommitted, rows
stand where their ids say, and keys tell rows apart. `Elsewhere` is the frame: a function that is
called for one key leaves all rows under other keys as they are.

Why this module exists next to the rely–guarantee one. There a function is given the freedom of all
other sessions, and what it can promise is that it does no harm; whether it gets anywhere depends
on them. The statements about what the service *does* for a tool call, that it is recorded, decided
and started, are about a session whose statements all go through and whose rows nobody holds. They
are proved here by running the functions, statement by statement, on a store that is only known
through `Found` and `Absent`.

So nothing of the invariant of the family is used here, and nothing is assumed about how the store
came about: `Orderly` is weaker, closed under every statement of the session, and the two
predicates on a key are what the service itself can find out. What is not claimed is anything about
a statement that fails (`NoFault`) or one that has to wait, which `Orderly` excludes.

Every function gets a `completes_*` lemma with the postcondition as a parameter, so that the lemmas
compose by passing the rest of the program's postcondition down; where a function can raise on such
a store there is a `raises_*` lemma next to it.
-/

set_option autoImplicit false

namespace HyChat

open Lib

/-! ## Runs of one session

The rows of a slot are read through the session's own view from here on. A row it has written and
not committed counts as there, as it does for the statements that follow in its transaction. -/

/-- The choices that let no statement fail. -/
def NoFault (c : Choice) : Prop := c.fault = false

/-- Session `i` runs the program alone, no statement fails, and the program does not raise. -/
abbrev Completes (i : Nat) {α : Type} (x : Db α) (Q : α → Store → Prop) (s : Store) : Prop :=
  toolDb.Returns NoFault i x Q s

/-- Its two rows of a slot, as the session sees them -/
def Store.inv (s : Store) (i n : Nat) : Option ToolInvocation := (s.slot n).invocation.view i

def Store.app (s : Store) (i n : Nat) : Option Approval := (s.slot n).approval.view i

/-- What a session that runs alone finds, and keeps: nothing is locked by anybody else, a row's id
is the number of its slot, and an approval stands next to the invocation it belongs to. -/
structure Orderly (i : Nat) (s : Store) : Prop where
  free : ∀ n, (s.slot n).invocation.lockedFor i = false
  approval_free : ∀ n, (s.slot n).approval.lockedFor i = false
  lt_next : ∀ n r, s.inv i n = some r → n < s.next
  id : ∀ n r, s.inv i n = some r → r.id = n
  unique : ∀ n n' r r', s.inv i n = some r → s.inv i n' = some r' → r.userId = r'.userId →
    r.idempotencyKey = r'.idempotencyKey → n = n'
  approval : ∀ n a, s.app i n = some a → a.invocationId = n ∧
    ∃ r, s.inv i n = some r ∧ a.userId = r.userId ∧ a.idempotencyKey = r.idempotencyKey

/-- The rows of the user under other keys, and the conversations, are as they were. -/
structure Elsewhere (i : Nat) (userId key : String) (s s' : Store) : Prop where
  inv : ∀ n r, ¬(r.userId = userId ∧ r.idempotencyKey = key) →
    (s'.inv i n = some r ↔ s.inv i n = some r)
  app : ∀ n r, ¬(r.userId = userId ∧ r.idempotencyKey = key) → s.inv i n = some r →
    s'.app i n = s.app i n
  conversation : s'.conversation = s.conversation

/-- There is no row under the key. -/
def Absent (i : Nat) (userId key : String) (s : Store) : Prop :=
  ∀ n r, s.inv i n = some r → ¬(r.userId = userId ∧ r.idempotencyKey = key)

/-- The rows under the key -/
structure Found (i : Nat) (userId key : String) (s : Store) (r : ToolInvocation)
    (a : Option Approval) : Prop where
  userId : r.userId = userId
  key : r.idempotencyKey = key
  inv : s.inv i r.id = some r
  app : s.app i r.id = a

section

variable {i : Nat} {userId key : String} {s s' s'' : Store}

/-- Doing nothing leaves all other keys as they are. -/
theorem Elsewhere.refl : Elsewhere i userId key s s :=
  ⟨fun _ _ _ => Iff.rfl, fun _ _ _ _ => rfl, rfl⟩

/-- Two calls for one key, one after the other. -/
theorem Elsewhere.trans (h : Elsewhere i userId key s s') (h' : Elsewhere i userId key s' s'') :
    Elsewhere i userId key s s'' := by
  refine ⟨?_, ?_, h'.conversation.trans h.conversation⟩
  · intro n r hr
    exact (h'.inv n r hr).trans (h.inv n r hr)
  · intro n r hr hs
    rw [h'.app n r hr ((h.inv n r hr).mpr hs), h.app n r hr hs]

/-- A call for another key does not make a row appear under this one. -/
theorem Elsewhere.absent {key' : String} (h : Elsewhere i userId key s s') (hk : key' ≠ key)
    (ha : Absent i userId key' s) : Absent i userId key' s' := by
  rintro n r hr ⟨hu, hr'⟩
  have hne : ¬(r.userId = userId ∧ r.idempotencyKey = key) := by
    rintro ⟨-, hr''⟩
    exact hk (hr'.symm.trans hr'')
  exact ha n r ((h.inv n r hne).mp hr) ⟨hu, hr'⟩

/-- A call for another key leaves the two rows under this one. -/
theorem Elsewhere.found {key' : String} (h : Elsewhere i userId key s s') (hk : key' ≠ key)
    {r : ToolInvocation} {a : Option Approval} (hf : Found i userId key' s r a) :
    Found i userId key' s' r a := by
  have hne : ¬(r.userId = userId ∧ r.idempotencyKey = key) := by
    rintro ⟨-, hr⟩
    exact hk (hf.key.symm.trans hr)
  refine ⟨hf.userId, hf.key, (h.inv _ r hne).mpr hf.inv, ?_⟩
  rw [h.app _ r hne hf.inv]
  exact hf.app

/-! ## The rows after a write

One equation for each of the two tables and each of the two writes, and the two for `COMMIT`, which
the session itself does not see. -/

theorem Cell.view_commit {α : Type} (c : Cell Nat α) : (c.commit i).view i = c.view i := by
  rw [Cell.view_of_not_own (Cell.own_commit_self i c), Cell.committed_commit]

theorem Cell.free_write {α : Type} (v : α) (c : Cell Nat α) :
    (c.write i v).lockedFor i = false := by
  unfold Cell.lockedFor
  rw [Cell.own_write_self]
  exact Bool.and_false _

theorem Cell.free_commit {α : Type} {c : Cell Nat α} (h : c.lockedFor i = false) :
    (c.commit i).lockedFor i = false := by
  cases ho : c.own i with
  | none =>
    rw [Cell.commit_of_not_own ho]
    exact h
  | some v =>
    rw [Cell.commit_of_own ho]
    rfl

theorem Store.inv_putInvocation (n m : Nat) (row : ToolInvocation) :
    (s.putInvocation i n row).inv i m = if m = n then some row else s.inv i m := by
  unfold Store.inv
  by_cases h : m = n
  · subst h
    rw [if_pos rfl, putInvocation_slot_self, Cell.view_write_self]
  · rw [if_neg h, putInvocation_slot_of_ne h]

theorem Store.app_putInvocation (n m : Nat) (row : ToolInvocation) :
    (s.putInvocation i n row).app i m = s.app i m := by
  unfold Store.app
  by_cases h : m = n
  · subst h
    rw [putInvocation_slot_self]
  · rw [putInvocation_slot_of_ne h]

theorem Store.inv_putApproval (n m : Nat) (row : Approval) :
    (s.putApproval i n row).inv i m = s.inv i m := by
  unfold Store.inv
  by_cases h : m = n
  · subst h
    rw [putApproval_slot_self]
  · rw [putApproval_slot_of_ne h]

theorem Store.app_putApproval (n m : Nat) (row : Approval) :
    (s.putApproval i n row).app i m = if m = n then some row else s.app i m := by
  unfold Store.app
  by_cases h : m = n
  · subst h
    rw [if_pos rfl, putApproval_slot_self, Cell.view_write_self]
  · rw [if_neg h, putApproval_slot_of_ne h]

theorem Store.inv_commit (m : Nat) : (s.commit i).inv i m = s.inv i m :=
  Cell.view_commit _

theorem Store.app_commit (m : Nat) : (s.commit i).app i m = s.app i m :=
  Cell.view_commit _

theorem Orderly.approval_none (h : Orderly i s) {n : Nat} (hn : s.inv i n = none) :
    s.app i n = none := by
  cases ha : s.app i n with
  | none => rfl
  | some a =>
    obtain ⟨-, r, hr, -⟩ := h.approval n a ha
    rw [hn] at hr
    cases hr

theorem Orderly.next_none (h : Orderly i s) : s.inv i s.next = none := by
  cases hr : s.inv i s.next with
  | none => rfl
  | some r => exact absurd (h.lt_next _ r hr) (Nat.lt_irrefl _)

/-! ## What a write keeps

Each lemma gives both halves at once: the store is orderly again, and all other keys are as they
were. -/

/-- A row is rewritten under its own key. -/
theorem Orderly.putInvocation (h : Orderly i s) {r : ToolInvocation} {a : Option Approval}
    (hf : Found i userId key s r a) (r' : ToolInvocation) (hid : r'.id = r.id) (hu : r'.userId = userId)
    (hk : r'.idempotencyKey = key) :
    Orderly i (s.putInvocation i r.id r') ∧ Elsewhere i userId key s (s.putInvocation i r.id r') ∧
      Found i userId key (s.putInvocation i r.id r') r' a := by
  -- a row of the new store has a row of the old one under the same key
  have hold : ∀ n q, (s.putInvocation i r.id r').inv i n = some q →
      ∃ q', s.inv i n = some q' ∧ q'.userId = q.userId ∧ q'.idempotencyKey = q.idempotencyKey ∧
        q.id = n := by
    intro n q hq
    rw [Store.inv_putInvocation] at hq
    by_cases hn : n = r.id
    · rw [if_pos hn, Option.some.injEq] at hq
      subst hq hn
      exact ⟨r, hf.inv, hf.userId.trans hu.symm, hf.key.trans hk.symm, hid⟩
    · rw [if_neg hn] at hq
      exact ⟨q, hq, rfl, rfl, h.id n q hq⟩
  refine ⟨⟨?_, ?_, ?_, ?_, ?_, ?_⟩, ⟨?_, ?_, rfl⟩, ⟨hu, hk, ?_, ?_⟩⟩
  · intro n
    by_cases hn : n = r.id
    · subst hn
      rw [Store.putInvocation_slot_self]
      exact Cell.free_write _ _
    · rw [Store.putInvocation_slot_of_ne hn]
      exact h.free n
  · intro n
    by_cases hn : n = r.id
    · subst hn
      rw [Store.putInvocation_slot_self]
      exact h.approval_free r.id
    · rw [Store.putInvocation_slot_of_ne hn]
      exact h.approval_free n
  · intro n q hq
    obtain ⟨q', hq', -⟩ := hold n q hq
    exact h.lt_next n q' hq'
  · intro n q hq
    obtain ⟨-, -, -, -, hn⟩ := hold n q hq
    exact hn
  · intro n n' q q' hq hq' huser hkey
    obtain ⟨p, hp, hpu, hpk, -⟩ := hold n q hq
    obtain ⟨p', hp', hpu', hpk', -⟩ := hold n' q' hq'
    apply h.unique n n' p p' hp hp'
    · rw [hpu, hpu', huser]
    · rw [hpk, hpk', hkey]
  · intro n b hb
    rw [Store.app_putInvocation] at hb
    obtain ⟨hat, q, hq, hbu, hbk⟩ := h.approval n b hb
    refine ⟨hat, ?_⟩
    rw [Store.inv_putInvocation]
    by_cases hn : n = r.id
    · subst hn
      rw [hf.inv, Option.some.injEq] at hq
      subst hq
      rw [if_pos rfl]
      exact ⟨r', rfl, hbu.trans (hf.userId.trans hu.symm), hbk.trans (hf.key.trans hk.symm)⟩
    · rw [if_neg hn]
      exact ⟨q, hq, hbu, hbk⟩
  · intro n q hq
    rw [Store.inv_putInvocation]
    by_cases hn : n = r.id
    · subst hn
      rw [if_pos rfl, hf.inv]
      refine iff_of_false ?_ ?_
      · rintro hsome
        cases hsome
        exact hq ⟨hu, hk⟩
      · rintro hsome
        cases hsome
        exact hq ⟨hf.userId, hf.key⟩
    · rw [if_neg hn]
  · intro n q _ _
    exact Store.app_putInvocation _ _ _
  · rw [hid, Store.inv_putInvocation, if_pos rfl]
  · rw [hid, Store.app_putInvocation]
    exact hf.app

/-- A row is inserted under a key there is no row under. -/
theorem Orderly.insertInvocation (h : Orderly i s) (row : ToolInvocation)
    (ha : Absent i row.userId row.idempotencyKey s) :
    Orderly i (s.insertInvocation i row) ∧
      Elsewhere i row.userId row.idempotencyKey s (s.insertInvocation i row) ∧
      Found i row.userId row.idempotencyKey (s.insertInvocation i row)
        { row with id := s.next } none := by
  have hnext := h.next_none
  have hinv : ∀ m, (s.insertInvocation i row).inv i m =
      if m = s.next then some { row with id := s.next } else s.inv i m := by
    intro m
    exact Store.inv_putInvocation s.next m _
  have happ : ∀ m, (s.insertInvocation i row).app i m = s.app i m := by
    intro m
    exact Store.app_putInvocation s.next m _
  refine ⟨⟨?_, ?_, ?_, ?_, ?_, ?_⟩, ⟨?_, ?_, rfl⟩, ⟨rfl, rfl, ?_, ?_⟩⟩
  · intro n
    by_cases hn : n = s.next
    · subst hn
      show ((s.putInvocation i s.next _).slot s.next).invocation.lockedFor i = false
      rw [Store.putInvocation_slot_self]
      exact Cell.free_write _ _
    · show ((s.putInvocation i s.next _).slot n).invocation.lockedFor i = false
      rw [Store.putInvocation_slot_of_ne hn]
      exact h.free n
  · intro n
    by_cases hn : n = s.next
    · subst hn
      show ((s.putInvocation i s.next _).slot s.next).approval.lockedFor i = false
      rw [Store.putInvocation_slot_self]
      exact h.approval_free s.next
    · show ((s.putInvocation i s.next _).slot n).approval.lockedFor i = false
      rw [Store.putInvocation_slot_of_ne hn]
      exact h.approval_free n
  · intro n q hq
    rw [hinv] at hq
    by_cases hn : n = s.next
    · subst hn
      exact Nat.lt_succ_self _
    · rw [if_neg hn] at hq
      exact Nat.lt_succ_of_lt (h.lt_next n q hq)
  · intro n q hq
    rw [hinv] at hq
    by_cases hn : n = s.next
    · subst hn
      rw [if_pos rfl, Option.some.injEq] at hq
      subst hq
      rfl
    · rw [if_neg hn] at hq
      exact h.id n q hq
  · intro n n' q q' hq hq' huser hkey
    rw [hinv] at hq hq'
    by_cases hn : n = s.next
    · rw [if_pos hn, Option.some.injEq] at hq
      subst hq
      by_cases hn' : n' = s.next
      · rw [hn, hn']
      · rw [if_neg hn'] at hq'
        exact absurd ⟨huser.symm, hkey.symm⟩ (ha n' q' hq')
    · rw [if_neg hn] at hq
      by_cases hn' : n' = s.next
      · rw [if_pos hn', Option.some.injEq] at hq'
        subst hq'
        exact absurd ⟨huser, hkey⟩ (ha n q hq)
      · rw [if_neg hn'] at hq'
        exact h.unique n n' q q' hq hq' huser hkey
  · intro n b hb
    rw [happ] at hb
    obtain ⟨hat, q, hq, hbu, hbk⟩ := h.approval n b hb
    refine ⟨hat, q, ?_, hbu, hbk⟩
    rw [hinv, if_neg]
    · exact hq
    · intro hn
      rw [hn, hnext] at hq
      cases hq
  · intro n q hq
    rw [hinv]
    by_cases hn : n = s.next
    · subst hn
      rw [if_pos rfl, hnext]
      refine iff_of_false ?_ nofun
      intro hsome
      cases hsome
      exact hq ⟨rfl, rfl⟩
    · rw [if_neg hn]
  · intro n q _ _
    exact happ n
  · rw [hinv, if_pos rfl]
  · rw [happ]
    exact h.approval_none hnext

/-- The approval of a row is written. -/
theorem Orderly.putApproval (h : Orderly i s) {r : ToolInvocation} {a : Option Approval}
    (hf : Found i userId key s r a) {b : Approval} (hid : b.invocationId = r.id)
    (hu : b.userId = userId) (hk : b.idempotencyKey = key) :
    Orderly i (s.putApproval i r.id b) ∧ Elsewhere i userId key s (s.putApproval i r.id b) ∧
      Found i userId key (s.putApproval i r.id b) r (some b) := by
  refine ⟨⟨?_, ?_, ?_, ?_, ?_, ?_⟩, ⟨?_, ?_, rfl⟩, ⟨hf.userId, hf.key, ?_, ?_⟩⟩
  · intro n
    by_cases hn : n = r.id
    · subst hn
      rw [Store.putApproval_slot_self]
      exact h.free r.id
    · rw [Store.putApproval_slot_of_ne hn]
      exact h.free n
  · intro n
    by_cases hn : n = r.id
    · subst hn
      rw [Store.putApproval_slot_self]
      exact Cell.free_write _ _
    · rw [Store.putApproval_slot_of_ne hn]
      exact h.approval_free n
  · intro n q hq
    rw [Store.inv_putApproval] at hq
    exact h.lt_next n q hq
  · intro n q hq
    rw [Store.inv_putApproval] at hq
    exact h.id n q hq
  · intro n n' q q' hq hq'
    rw [Store.inv_putApproval] at hq hq'
    exact h.unique n n' q q' hq hq'
  · intro n c hc
    rw [Store.app_putApproval] at hc
    rw [Store.inv_putApproval]
    by_cases hn : n = r.id
    · rw [if_pos hn, Option.some.injEq] at hc
      subst hc hn
      exact ⟨hid, r, hf.inv, hu.trans hf.userId.symm, hk.trans hf.key.symm⟩
    · rw [if_neg hn] at hc
      exact h.approval n c hc
  · intro n q _
    rw [Store.inv_putApproval]
  · intro n q hq hn
    rw [Store.app_putApproval, if_neg]
    rintro rfl
    rw [hf.inv, Option.some.injEq] at hn
    subst hn
    exact hq ⟨hf.userId, hf.key⟩
  · rw [Store.inv_putApproval]
    exact hf.inv
  · rw [Store.app_putApproval, if_pos rfl]

/-- The session's view is not changed by its own commit. -/
theorem Orderly.commit (h : Orderly i s) (userId key : String) :
    Orderly i (s.commit i) ∧ Elsewhere i userId key s (s.commit i) := by
  refine ⟨⟨?_, ?_, ?_, ?_, ?_, ?_⟩, ⟨?_, ?_, rfl⟩⟩
  · exact fun n => Cell.free_commit (h.free n)
  · exact fun n => Cell.free_commit (h.approval_free n)
  · intro n q hq
    rw [Store.inv_commit] at hq
    exact h.lt_next n q hq
  · intro n q hq
    rw [Store.inv_commit] at hq
    exact h.id n q hq
  · intro n n' q q' hq hq'
    rw [Store.inv_commit] at hq hq'
    exact h.unique n n' q q' hq hq'
  · intro n c hc
    rw [Store.app_commit] at hc
    rw [Store.inv_commit]
    exact h.approval n c hc
  · intro n q _
    rw [Store.inv_commit]
  · intro n q _ _
    exact Store.app_commit n

theorem Found.commit {r : ToolInvocation} {a : Option Approval} (hf : Found i userId key s r a) :
    Found i userId key (s.commit i) r a := by
  refine ⟨hf.userId, hf.key, ?_, ?_⟩
  · rw [Store.inv_commit]
    exact hf.inv
  · rw [Store.app_commit]
    exact hf.app

theorem Absent.commit (h : Absent i userId key s) : Absent i userId key (s.commit i) := by
  intro n r hr
  rw [Store.inv_commit] at hr
  exact h n r hr

/-! ## Finding a row

The lookups of the service search the slots. On an orderly store the row under a key is the only
one there, so a lookup finds it, and one that finds nothing says that the key is free. -/

theorem Orderly.approval_key (h : Orderly i s) {r : ToolInvocation} {b : Approval}
    (hf : Found i userId key s r (some b)) :
    b.invocationId = r.id ∧ b.userId = userId ∧ b.idempotencyKey = key := by
  obtain ⟨hat, q, hq, hu, hk⟩ := h.approval r.id b hf.app
  rw [hf.inv, Option.some.injEq] at hq
  subst hq
  exact ⟨hat, hu.trans hf.userId, hk.trans hf.key⟩

theorem Orderly.findSlot_found (h : Orderly i s) {r : ToolInvocation} {a : Option Approval}
    (hf : Found i userId key s r a) :
    s.findSlot (Slot.seesInvocation i userId key) = some r.id := by
  cases hfind : s.findSlot (Slot.seesInvocation i userId key) with
  | none =>
    have hnot := Store.findSlot_eq_none hfind (h.lt_next r.id r hf.inv)
    rw [Slot.seesInvocation_iff.mpr ⟨r, hf.inv, hf.userId, hf.key⟩] at hnot
    cases hnot
  | some n =>
    obtain ⟨-, hsees⟩ := Store.findSlot_eq_some hfind
    obtain ⟨q, hq, hu, hk⟩ := Slot.seesInvocation_iff.mp hsees
    have hn : n = r.id := h.unique n r.id q r hq hf.inv (hu.trans hf.userId.symm)
      (hk.trans hf.key.symm)
    rw [hn]

/-- A free key is found to be free. -/
theorem Absent.findSlot (ha : Absent i userId key s) :
    s.findSlot (Slot.seesInvocation i userId key) = none := by
  cases hfind : s.findSlot (Slot.seesInvocation i userId key) with
  | none => rfl
  | some n =>
    obtain ⟨-, hsees⟩ := Store.findSlot_eq_some hfind
    obtain ⟨q, hq, hu, hk⟩ := Slot.seesInvocation_iff.mp hsees
    exact absurd ⟨hu, hk⟩ (ha n q hq)

/-- No lookup has to wait. -/
theorem Orderly.findSlot_awaits (h : Orderly i s) :
    s.findSlot (Slot.awaitsInvocation i userId key) = none ∧
      s.findSlot (Slot.awaitsApproval i userId key) = none := by
  constructor
  · cases hfind : s.findSlot (Slot.awaitsInvocation i userId key) with
    | none => rfl
    | some n =>
      obtain ⟨-, hawaits⟩ := Store.findSlot_eq_some hfind
      unfold Slot.awaitsInvocation at hawaits
      rw [h.free n] at hawaits
      cases hawaits
  · cases hfind : s.findSlot (Slot.awaitsApproval i userId key) with
    | none => rfl
    | some n =>
      obtain ⟨-, hawaits⟩ := Store.findSlot_eq_some hfind
      unfold Slot.awaitsApproval at hawaits
      rw [h.approval_free n] at hawaits
      cases hawaits

/-- The approval under a key stands next to the invocation under it. -/
theorem Orderly.slot_of_approval (h : Orderly i s) {r : ToolInvocation} {a : Option Approval}
    (hf : Found i userId key s r a) {n : Nat}
    (hsees : Slot.seesApproval i userId key (s.slot n) = true) : n = r.id := by
  obtain ⟨c, hc, hu, hk⟩ := Slot.seesApproval_iff.mp hsees
  obtain ⟨-, q, hq, hqu, hqk⟩ := h.approval n c hc
  apply h.unique n r.id q r hq hf.inv
  · rw [← hqu, hu, hf.userId]
  · rw [← hqk, hk, hf.key]

theorem Orderly.findSlot_approval (h : Orderly i s) {r : ToolInvocation} {b : Approval}
    (hf : Found i userId key s r (some b)) :
    s.findSlot (Slot.seesApproval i userId key) = some r.id := by
  obtain ⟨-, hbu, hbk⟩ := h.approval_key hf
  cases hfind : s.findSlot (Slot.seesApproval i userId key) with
  | none =>
    have hnot := Store.findSlot_eq_none hfind (h.lt_next r.id r hf.inv)
    rw [Slot.seesApproval_iff.mpr ⟨b, hf.app, hbu, hbk⟩] at hnot
    cases hnot
  | some n =>
    obtain ⟨-, hsees⟩ := Store.findSlot_eq_some hfind
    rw [h.slot_of_approval hf hsees]

theorem Orderly.findSlot_no_approval (h : Orderly i s) {r : ToolInvocation}
    (hf : Found i userId key s r none) :
    s.findSlot (Slot.seesApproval i userId key) = none := by
  cases hfind : s.findSlot (Slot.seesApproval i userId key) with
  | none => rfl
  | some n =>
    obtain ⟨-, hsees⟩ := Store.findSlot_eq_some hfind
    obtain ⟨c, hc, -, -⟩ := Slot.seesApproval_iff.mp hsees
    have hnone := hf.app
    rw [← h.slot_of_approval hf hsees] at hnone
    unfold Store.app at hnone
    rw [hnone] at hc
    cases hc

/-! ## The statements

What each statement answers on such a store. An insertion is either a conflict with the row that is
there, and then does nothing, or puts its row in. -/

section

variable {r : ToolInvocation} {a : Option Approval} {b : Approval}

theorem completes_perform {o : Stmt} {Q : o.Val → Store → Prop}
    (h : ∀ now, ∃ v s', o.run i now s = some (.ok v, s') ∧ Q v s') :
    Completes i (perform o) Q s := by
  intro c hc
  obtain ⟨v, s', hrun, hq⟩ := h c.now
  refine ⟨.ok v, s', ?_, ⟨v, rfl, hq⟩⟩
  have hexec : toolDb.exec i o c s = o.run i c.now s := by
    simp only [toolDb]
    rw [show c.fault = false from hc]
    rfl
  rw [hexec, hrun]

theorem completes_raiseIf {condition : Bool} {e : PyError} {Q : Unit → Store → Prop}
    (hc : condition = false) (hQ : Q () s) : Completes i (raiseIf condition e) Q s := by
  unfold raiseIf
  rw [hc]
  exact Machine.Returns.pure hQ

theorem raises_raiseIf {condition : Bool} {e : PyError} {E : PyError → Prop}
    (hc : condition = true) (hE : E e) :
    toolDb.Raises NoFault i (raiseIf condition e) E s := by
  unfold raiseIf
  rw [hc]
  exact Machine.Raises.throw hE

theorem completes_rollback {Q : Unit → Store → Prop} (hQ : Q () (s.rollback i)) :
    Completes i (perform .rollback) Q s :=
  completes_perform fun _ => ⟨(), s.rollback i, rfl, hQ⟩

theorem completes_utcnow {Q : Nat → Store → Prop} (hQ : ∀ now, Q now s) :
    Completes i (perform .utcnow) Q s :=
  completes_perform fun now => ⟨now, s, rfl, hQ now⟩

theorem completes_commit {Q : Unit → Store → Prop} (hQ : Q () (s.commit i)) :
    Completes i (perform .commit) Q s :=
  completes_perform fun _ => ⟨(), s.commit i, rfl, hQ⟩

theorem completes_selectConversation {threadId : String}
    {Q : Option Conversation → Store → Prop} (hQ : Q (s.conversation threadId) s) :
    Completes i (perform (.selectConversation threadId)) Q s :=
  completes_perform fun _ => ⟨s.conversation threadId, s, rfl, hQ⟩

/-- `ON CONFLICT DO NOTHING`, with a row in the way. -/
theorem completes_insertInvocation_found {row : ToolInvocation} {Q : Unit → Store → Prop}
    (h : Orderly i s) (hf : Found i row.userId row.idempotencyKey s r a) (hQ : Q () s) :
    Completes i (perform (.insertInvocation row)) Q s := by
  apply completes_perform
  intro now
  refine ⟨(), s, ?_, hQ⟩
  simp only [Stmt.run]
  rw [h.findSlot_found hf]
  rfl

/-- `ON CONFLICT DO NOTHING`, with nothing in the way. -/
theorem completes_insertInvocation_absent {row : ToolInvocation} {Q : Unit → Store → Prop}
    (h : Orderly i s) (ha : Absent i row.userId row.idempotencyKey s)
    (hQ : Q () (s.insertInvocation i row)) :
    Completes i (perform (.insertInvocation row)) Q s := by
  apply completes_perform
  intro now
  refine ⟨(), _, ?_, hQ⟩
  simp only [Stmt.run]
  rw [ha.findSlot, h.findSlot_awaits.1]
  rfl

theorem completes_selectInvocation {Q : Option ToolInvocation → Store → Prop} (h : Orderly i s)
    (hf : Found i userId key s r a) (hQ : Q (some r) s) :
    Completes i (perform (.selectInvocation userId key)) Q s := by
  apply completes_perform
  intro now
  refine ⟨some r, s, ?_, hQ⟩
  simp only [Stmt.run]
  rw [h.findSlot_found hf, Option.bind_some]
  have hr := hf.inv
  unfold Store.inv at hr
  rw [hr]

theorem completes_getInvocation {Q : Option ToolInvocation → Store → Prop}
    (hf : Found i userId key s r a) (hQ : Q (some r) s) :
    Completes i (perform (.getInvocation r.id)) Q s := by
  apply completes_perform
  intro now
  refine ⟨some r, s, ?_, hQ⟩
  simp only [Stmt.run]
  have hr := hf.inv
  unfold Store.inv at hr
  rw [hr]

/-- The conditional update, whose condition the row meets or not. -/
theorem completes_updateInvocation {condition : ToolInvocation → Bool}
    {values : ToolInvocation → ToolInvocation} {Q : Nat → Store → Prop} (h : Orderly i s)
    (hf : Found i userId key s r a) (hc : condition r = true)
    (hQ : Q 1 (s.putInvocation i r.id (values r))) :
    Completes i (perform (.updateInvocation r.id condition values)) Q s := by
  apply completes_perform
  intro now
  refine ⟨(1 : Nat), _, ?_, hQ⟩
  have hr := hf.inv
  unfold Store.inv at hr
  simp only [Stmt.run]
  rw [hr]
  dsimp only
  rw [if_pos hc, h.free r.id]
  rfl

theorem completes_insertApproval_found {row : Approval} {Q : Unit → Store → Prop}
    (h : Orderly i s) (hf : Found i row.userId row.idempotencyKey s r (some b)) (hQ : Q () s) :
    Completes i (perform (.insertApproval row)) Q s := by
  apply completes_perform
  intro now
  refine ⟨(), s, ?_, hQ⟩
  simp only [Stmt.run]
  rw [h.findSlot_approval hf]
  rfl

theorem completes_insertApproval_absent {row : Approval} {Q : Unit → Store → Prop}
    (h : Orderly i s) (hf : Found i row.userId row.idempotencyKey s r none)
    (hid : row.invocationId = r.id) (hQ : Q () (s.putApproval i r.id row)) :
    Completes i (perform (.insertApproval row)) Q s := by
  apply completes_perform
  intro now
  refine ⟨(), _, ?_, hQ⟩
  have hr := hf.inv
  have ha := hf.app
  unfold Store.inv at hr
  unfold Store.app at ha
  simp only [Stmt.run]
  rw [h.findSlot_no_approval hf, h.findSlot_awaits.2, hid, h.approval_free r.id, hr, ha]
  rfl

theorem completes_selectApproval {Q : Option Approval → Store → Prop} (h : Orderly i s)
    (hf : Found i userId key s r (some b)) (hQ : Q (some b) s) :
    Completes i (perform (.selectApproval userId key)) Q s := by
  apply completes_perform
  intro now
  refine ⟨some b, s, ?_, hQ⟩
  have hb := hf.app
  unfold Store.app at hb
  simp only [Stmt.run]
  rw [h.findSlot_approval hf, Option.bind_some, hb]

theorem completes_selectApprovalOf {Q : Option Approval → Store → Prop} (h : Orderly i s)
    (hf : Found i userId key s r (some b)) (hQ : Q (some b) s) :
    Completes i (perform (.selectApprovalOf r.id userId)) Q s := by
  apply completes_perform
  intro now
  refine ⟨some b, s, ?_, hQ⟩
  have hb := hf.app
  unfold Store.app at hb
  simp only [Stmt.run]
  rw [hb, Option.filter_some, if_pos]
  exact decide_eq_true (h.approval_key hf).2.1

theorem completes_updateApproval {condition : Approval → Bool} {values : Approval → Approval}
    {Q : Nat → Store → Prop} (h : Orderly i s) (hf : Found i userId key s r (some b))
    (hc : condition b = true) (hQ : Q 1 (s.putApproval i r.id (values b))) :
    Completes i (perform (.updateApproval r.id condition values)) Q s := by
  apply completes_perform
  intro now
  refine ⟨(1 : Nat), _, ?_, hQ⟩
  have hb := hf.app
  unfold Store.app at hb
  simp only [Stmt.run]
  rw [hb]
  dsimp only
  rw [if_pos hc, h.approval_free r.id]
  rfl

end

/-! ## `_ensure_invocation`

The function every operation of the service starts with. Two cases, and each caller below makes the
same two. -/

variable {sha256 : Sha256}

/-- A row and what is left of it when a run id has been filled in. -/
def SameCall (r r' : ToolInvocation) : Prop :=
  r' = { r with runtimeRunId := r'.runtimeRunId, updatedAt := r'.updatedAt }

theorem SameCall.refl (r : ToolInvocation) : SameCall r r := rfl

theorem completes_validateIdentity {threadId runtimeRunId : Option String} {toolCallId : String}
    (hv : ValidIdentity threadId runtimeRunId toolCallId) {Q : Unit → Store → Prop}
    (hQ : Q () s) : Completes i (validateIdentity threadId runtimeRunId toolCallId) Q s := by
  obtain ⟨hthread, hrun, hempty, hlong⟩ := hv
  have hany : ∀ (o : Option String) (n : Nat), (∀ t, o = some t → t.length ≤ n) →
      o.any (n < ·.length) = false := by
    intro o n ho
    cases o with
    | none => rfl
    | some t =>
      have ht := ho t rfl
      exact decide_eq_false (Nat.not_lt.mpr ht)
  unfold validateIdentity
  apply Machine.Returns.bind
  apply completes_raiseIf (hany threadId 64 hthread)
  apply Machine.Returns.bind
  apply completes_raiseIf (hany runtimeRunId 128 hrun)
  apply Machine.Returns.bind
  apply completes_raiseIf (decide_eq_false hempty)
  exact completes_raiseIf (decide_eq_false (Nat.not_lt.mpr hlong)) hQ

theorem completes_conversationIdForUser {threadId : Option String}
    (hforeign : ¬Foreign userId threadId s) {Q : Option String → Store → Prop}
    (hQ : ∀ conversationId, Q conversationId s) :
    Completes i (conversationIdForUser userId threadId) Q s := by
  unfold conversationIdForUser
  cases threadId with
  | none => exact Machine.Returns.pure (hQ none)
  | some thread =>
    dsimp only
    by_cases hempty : thread = ""
    · rw [if_pos hempty]
      exact Machine.Returns.pure (hQ none)
    · rw [if_neg hempty]
      apply Machine.Returns.bind
      apply completes_selectConversation
      cases hc : s.conversation thread with
      | none => exact Machine.Returns.pure (hQ none)
      | some conversation =>
        apply Machine.Returns.bind
        apply completes_raiseIf
        · apply decide_eq_false
          intro hne
          exact hforeign ⟨thread, conversation, rfl, hempty, hc, hne⟩
        · exact Machine.Returns.pure (hQ _)

theorem completes_flush {values : ToolInvocation → ToolInvocation} {r : ToolInvocation}
    {a : Option Approval} {Q : Unit → Store → Prop} (h : Orderly i s)
    (hf : Found i userId key s r a) (hQ : Q () (s.putInvocation i r.id (values r))) :
    Completes i (flush r.id values) Q s := by
  unfold flush
  apply Machine.Returns.bind
  apply completes_updateInvocation h hf rfl
  exact completes_raiseIf rfl hQ

/-- A run id is filled in, or nothing happens. -/
theorem completes_fillRuntimeRunId {r : ToolInvocation} {a : Option Approval}
    {runtimeRunId : Option String} {now : Nat} {Q : ToolInvocation → Store → Prop}
    (h : Orderly i s) (hf : Found i userId key s r a)
    (hQ : ∀ r' s', Orderly i s' → Elsewhere i userId key s s' → Found i userId key s' r' a →
      SameCall r r' → Q r' s') :
    Completes i (fillRuntimeRunId r runtimeRunId now) Q s := by
  unfold fillRuntimeRunId
  by_cases hc : (!truthy r.runtimeRunId && truthy runtimeRunId) = true
  · rw [if_pos hc]
    apply Machine.Returns.bind
    apply completes_flush h hf
    obtain ⟨ho, he, hf'⟩ := h.putInvocation hf
      { r with runtimeRunId := runtimeRunId, updatedAt := now } rfl hf.userId hf.key
    exact Machine.Returns.pure (hQ _ _ ho he hf' rfl)
  · rw [if_neg hc]
    exact Machine.Returns.pure (hQ r s h .refl hf (.refl r))

theorem completes_requireApproval {r : ToolInvocation} {approvalRequired : Bool} {now : Nat}
    {Q : ToolInvocation → Store → Prop} (hr : approvalRequired = true → r.status ≠ .pending)
    (hQ : Q r s) : Completes i (requireApproval r approvalRequired now) Q s := by
  unfold requireApproval
  rw [if_neg]
  · exact Machine.Returns.pure hQ
  · intro hc
    simp only [Bool.and_eq_true, decide_eq_true_eq] at hc
    exact hr hc.1.1 hc.1.2

/-- The row is there, and is one for the call. -/
theorem completes_ensureInvocation_found {threadId runtimeRunId : Option String}
    {toolCallId toolName : String} {requestedInput : PyMapping}
    {approvalRequired allowEffectiveMatch : Bool} {r : ToolInvocation} {a : Option Approval}
    {Q : ToolInvocation → Store → Prop} (hv : ValidIdentity threadId runtimeRunId toolCallId)
    (hforeign : ¬Foreign userId threadId s) (h : Orderly i s)
    (hf : Found i userId (invocationIdempotencyKey sha256 userId threadId toolCallId) s r a)
    (haccepts : Accepts sha256 threadId toolCallId toolName
      (jsonObject sha256 (.mapping requestedInput)) allowEffectiveMatch r)
    (hstatus : r.status ≠ .pending)
    (hQ : ∀ r' s', Orderly i s' →
      Elsewhere i userId (invocationIdempotencyKey sha256 userId threadId toolCallId) s s' →
      Found i userId (invocationIdempotencyKey sha256 userId threadId toolCallId) s' r' a →
      SameCall r r' → Q r' s') :
    Completes i (ensureInvocation sha256 userId threadId runtimeRunId toolCallId toolName
      requestedInput approvalRequired allowEffectiveMatch) Q s := by
  obtain ⟨hthread, hcall, hpayload⟩ := haccepts
  unfold ensureInvocation
  apply Machine.Returns.bind
  apply completes_validateIdentity hv
  apply Machine.Returns.bind
  apply completes_utcnow
  intro now
  apply Machine.Returns.bind
  apply completes_conversationIdForUser hforeign
  intro conversationId
  apply Machine.Returns.bind
  apply completes_insertInvocation_found h hf
  apply Machine.Returns.bind
  apply completes_selectInvocation h hf
  apply Machine.Returns.bind
  apply completes_raiseIf
  · rw [decide_eq_false (not_not_intro hthread), decide_eq_false (not_not_intro hcall), hpayload]
    rfl
  apply Machine.Returns.bind
  apply completes_fillRuntimeRunId h hf
  intro r' s' ho he hf' hsame
  apply completes_requireApproval
  · intro _
    rw [hsame]
    exact hstatus
  · exact hQ r' s' ho he hf' hsame

/-- The row is inserted. -/
theorem completes_ensureInvocation_absent {threadId runtimeRunId : Option String}
    {toolCallId toolName : String} {requestedInput : PyMapping}
    {approvalRequired allowEffectiveMatch : Bool}
    {Q : ToolInvocation → Store → Prop} (hv : ValidIdentity threadId runtimeRunId toolCallId)
    (hforeign : ¬Foreign userId threadId s) (h : Orderly i s)
    (habsent : Absent i userId (invocationIdempotencyKey sha256 userId threadId toolCallId) s)
    (hQ : ∀ r' s', Orderly i s' →
      Elsewhere i userId (invocationIdempotencyKey sha256 userId threadId toolCallId) s s' →
      Found i userId (invocationIdempotencyKey sha256 userId threadId toolCallId) s' r' none →
      (∃ conversationId now n, r' = { newInvocation sha256 userId threadId runtimeRunId toolCallId
        toolName (jsonObject sha256 (.mapping requestedInput)) approvalRequired conversationId now
        with id := n }) → Q r' s') :
    Completes i (ensureInvocation sha256 userId threadId runtimeRunId toolCallId toolName
      requestedInput approvalRequired allowEffectiveMatch) Q s := by
  unfold ensureInvocation
  apply Machine.Returns.bind
  apply completes_validateIdentity hv
  apply Machine.Returns.bind
  apply completes_utcnow
  intro now
  apply Machine.Returns.bind
  apply completes_conversationIdForUser hforeign
  intro conversationId
  apply Machine.Returns.bind
  apply completes_insertInvocation_absent h habsent
  obtain ⟨ho, he, hf⟩ := h.insertInvocation (newInvocation sha256 userId threadId runtimeRunId
    toolCallId toolName (jsonObject sha256 (.mapping requestedInput)) approvalRequired
    conversationId now) habsent
  apply Machine.Returns.bind
  apply completes_selectInvocation ho hf
  apply Machine.Returns.bind
  apply completes_raiseIf
  · simp [originalPayloadMatches, newInvocation]
  apply Machine.Returns.bind
  -- the run id is the one that was inserted, and so is the status
  have hfill : fillRuntimeRunId { newInvocation sha256 userId threadId runtimeRunId toolCallId
      toolName (jsonObject sha256 (.mapping requestedInput)) approvalRequired conversationId now
      with id := s.next } runtimeRunId now = pure { newInvocation sha256 userId threadId
      runtimeRunId toolCallId toolName (jsonObject sha256 (.mapping requestedInput))
      approvalRequired conversationId now with id := s.next } := by
    unfold fillRuntimeRunId
    rw [if_neg]
    intro hc
    simp only [newInvocation, Bool.and_eq_true, Bool.not_eq_true'] at hc
    rw [hc.2] at hc
    exact Bool.noConfusion hc.1
  rw [hfill]
  apply Machine.Returns.pure
  apply completes_requireApproval
  · intro hreq
    rw [hreq]
    intro h
    cases h
  · exact hQ _ _ ho he hf ⟨conversationId, now, s.next, rfl⟩

end

end HyChat
