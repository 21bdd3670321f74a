import HyChat.Tool.Statements

/-!
# Sessions as parties, and the rules of their statements

The lemmas of `Tool/Statements` packed into a family of parties: what one session promises is what
every other one relies on. The second part says which assertions survive the others (`stable_*`),
the third turns each kind of statement into a rule.

The rules are stated for a party `toolParty i R G` that may assume more (`R`) and must only
promise its quiet statements (`G`), so that one specification of a function serves a session
among arbitrary others as well as a session among others that behave.

How an assertion is found to survive the others. Some are about what the session itself has
written, which nobody else touches (`Guar.own_invocation`): `Idle`, `ReadyBut`, `Fresh`. The rest
are about what it sees, and the one fact used is that what is seen only evolves (`Onward`). An
assertion that no evolution breaks is `Upward`, and an upward assertion is stable without further
proof, survives the session's own writes as well, and is closed under conjunction. Most frames of
the later modules are upward for that reason, and were stated with `∃ r', … r.Evolves r'` to be so.

What a rule does not do is look at time: the clock may say anything, and stamps are carried along
without being compared. That the statement fails is possible in each rule, so each asks for the
exceptional postcondition from the frame alone.
-/

set_option autoImplicit false

namespace HyChat

open Lib Relation

section

variable (sha256 : Sha256) (issued : Call → Prop)

/-- **The sessions of the service.** -/
def toolFamily : toolDb.Family Tracked where
  real := Tracked.store
  inv := Inv sha256 issued
  rely i t t' := ∃ j, j ≠ i ∧ Guar j t t'
  guar := Guar
  guar_rely := fun hij _ _ hg => ⟨_, hij, hg⟩
  halt := fun i t h => ⟨⟨t.store.rollback i, t.granted⟩, rfl, (h.rollback i).1,
    (h.rollback i).2.toGuar⟩

/-- One session, under a rely and a guarantee of its own. -/
abbrev toolParty (i : Nat) (R G : Tracked → Tracked → Prop) : Party toolSig Store Tracked :=
  ⟨toolDb.sem i, Tracked.store, Inv sha256 issued, R, G⟩

end

/-! ## Assertions -/

/-- The session has written nothing it has not committed. -/
def Idle (i : Nat) (t : Tracked) : Prop :=
  ∀ n, (t.store.slot n).invocation.own i = none ∧ (t.store.slot n).approval.own i = none

/-- The session sees `r`, or what has become of it. -/
def Sees (i : Nat) (r : ToolInvocation) (t : Tracked) : Prop :=
  ∃ r', (t.store.slot r.id).invocation.view i = some r' ∧ r.Evolves r'

/-- The same for the other table. -/
def SeesApproval (i : Nat) (a : Approval) (t : Tracked) : Prop :=
  ∃ a', (t.store.slot a.invocationId).approval.view i = some a' ∧ a.Evolves a'

section

variable (sha256 : Sha256) (issued : Call → Prop)

/-- Committing is safe in every slot but one. -/
def ReadyBut (i n : Nat) (t : Tracked) : Prop :=
  ∀ m, m ≠ n → Safe sha256 issued i (t.store.slot m)

/-- The session has inserted `r` and nothing to go with it yet. -/
def Fresh (i : Nat) (r : ToolInvocation) (t : Tracked) : Prop :=
  ReadyBut sha256 issued i r.id t ∧
    (t.store.slot r.id).invocation.own i = some (some r) ∧
    (t.store.slot r.id).invocation.committed = none ∧
    (t.store.slot r.id).approval.own i = none

end

section

variable {sha256 : Sha256} {issued : Call → Prop} {i j n : Nat} {t t' : Tracked}

/-- A session that has written nothing may commit. -/
theorem Idle.ready (h : Idle i t) : Ready sha256 issued i t :=
  fun n => Safe.of_idle (h n).1 (h n).2

theorem Ready.but (h : Ready sha256 issued i t) (n : Nat) : ReadyBut sha256 issued i n t :=
  fun m _ => h m

/-- The last slot is closed. -/
theorem ReadyBut.ready (h : ReadyBut sha256 issued i n t)
    (hs : Safe sha256 issued i (t.store.slot n)) : Ready sha256 issued i t := by
  intro m
  by_cases hm : m = n
  · subst hm
    exact hs
  · exact h m hm

/-- Nothing stands next to an invocation that only its writer sees. -/
theorem Inv.approval_empty (h : Inv sha256 issued t) {r : ToolInvocation}
    (ho : (t.store.slot n).invocation.own i = some (some r))
    (hc : (t.store.slot n).invocation.committed = none)
    (ha : (t.store.slot n).approval.own i = none) (j : Nat) :
    (t.store.slot n).approval.committed = none ∧ (t.store.slot n).approval.own j = none := by
  have hcoup := (h.slots n).coupled
  rw [hc] at hcoup
  refine ⟨hcoup.none_left, ?_⟩
  by_cases hji : j = i
  · subst hji
    exact ha
  · cases hv : (t.store.slot n).approval.own j with
    | none => rfl
    | some v =>
      obtain ⟨a, -, -, -, r', hr', -⟩ := (h.slots n).own_at j v hv
      have hnone : (t.store.slot n).invocation.own j = none := by
        cases hj : (t.store.slot n).invocation.own j with
        | none => rfl
        | some w => exact absurd (Cell.own_unique hj ho).1 hji
      rw [Cell.view_of_not_own hnone, hc] at hr'
      exact absurd hr' (by simp)

/-! ## What the others leave alone -/

/-- What a session has written is its own. -/
theorem Guar.own_invocation (hg : Guar j t t') (hij : j ≠ i) (n : Nat) :
    (t'.store.slot n).invocation.own i = (t.store.slot n).invocation.own i :=
  (hg.invocation n).own_eq (Ne.symm hij)

theorem Guar.own_approval (hg : Guar j t t') (hij : j ≠ i) (n : Nat) :
    (t'.store.slot n).approval.own i = (t.store.slot n).approval.own i :=
  (hg.approval n).own_eq (Ne.symm hij)

/-- What a session sees of a row only evolves while others move. -/
theorem Guar.view_later (hg : Guar j t t') (hi : Inv sha256 issued t) (hij : j ≠ i) (n : Nat) :
    Later ToolInvocation.Evolves ((t.store.slot n).invocation.view i)
      ((t'.store.slot n).invocation.view i) := by
  intro r hr
  cases ho : (t.store.slot n).invocation.own i with
  | some v =>
    rw [Cell.view_of_own ho] at hr
    exact ⟨r, by rw [Cell.view_of_own (by rw [hg.own_invocation hij, ho]), hr], .refl r⟩
  | none =>
    rw [Cell.view_of_not_own ho] at hr
    obtain ⟨r', hr', he⟩ := hg.later hi n r hr
    exact ⟨r', by rw [Cell.view_of_not_own (by rw [hg.own_invocation hij, ho]), hr'], he⟩

theorem Guar.approval_view_later (hg : Guar j t t') (hi : Inv sha256 issued t) (hij : j ≠ i)
    (n : Nat) : Later Approval.Evolves ((t.store.slot n).approval.view i)
      ((t'.store.slot n).approval.view i) := by
  intro a ha
  cases ho : (t.store.slot n).approval.own i with
  | some v =>
    rw [Cell.view_of_own ho] at ha
    exact ⟨a, by rw [Cell.view_of_own (by rw [hg.own_approval hij, ho]), ha], .refl a⟩
  | none =>
    rw [Cell.view_of_not_own ho] at ha
    obtain ⟨a', ha', he⟩ := hg.approval_later hi n a ha
    exact ⟨a', by rw [Cell.view_of_not_own (by rw [hg.own_approval hij, ho]), ha'], he⟩

/-- **Nobody can make a session's commit unsafe.** -/
theorem Guar.safe (hg : Guar j t t') (hi : Inv sha256 issued t) (hij : j ≠ i)
    (hs : Safe sha256 issued i (t.store.slot n)) :
    Safe sha256 issued i (t'.store.slot n) := by
  unfold Safe at hs ⊢
  rw [hg.own_invocation hij, hg.own_approval hij]
  cases ho : (t.store.slot n).invocation.own i with
  | none =>
    cases ha : (t.store.slot n).approval.own i with
    | none => trivial
    | some a =>
      rw [ho, ha] at hs
      obtain ⟨r₀, h₀, hall⟩ := hs
      obtain ⟨r₁, h₁, he⟩ := hg.later hi n r₀ h₀
      refine ⟨r₁, h₁, fun r hr hc => hall r (he.trans hr) ?_⟩
      rw [← (hg.approval n).committed_of_own (Ne.symm hij) ha]
      exact hc
  | some r =>
    cases ha : (t.store.slot n).approval.own i with
    | some a =>
      rw [ho, ha] at hs
      exact hs
    | none =>
      rw [ho, ha] at hs
      intro a hc
      refine hs a ?_
      rw [← (hg.invocation n).committed_of_own (Ne.symm hij) ho]
      exact hc

/-! ## What a session sees only evolves -/

variable (i) in
/-- What session `i` sees in `t'` is what it saw in `t`, or has evolved from it. -/
structure Onward (t t' : Tracked) : Prop where
  invocation : ∀ n, Later ToolInvocation.Evolves ((t.store.slot n).invocation.view i)
    ((t'.store.slot n).invocation.view i)
  approval : ∀ n, Later Approval.Evolves ((t.store.slot n).approval.view i)
    ((t'.store.slot n).approval.view i)

variable (i) in
/-- An assertion about what the session sees that no evolution breaks. -/
def Upward (K : Tracked → Prop) : Prop := ∀ t t', Onward i t t' → K t → K t'

theorem Guar.onward (hg : Guar j t t') (hi : Inv sha256 issued t) (hij : j ≠ i) :
    Onward i t t' :=
  ⟨hg.view_later hi hij, hg.approval_view_later hi hij⟩

theorem Onward.putInvocation {r r' : ToolInvocation}
    (hr : (t.store.slot n).invocation.view i = some r) (he : r.Evolves r') :
    Onward i t ⟨t.store.putInvocation i n r', t.granted⟩ := by
  refine ⟨fun m => ?_, fun m => ?_⟩
  · by_cases hm : m = n
    · subst hm
      simp only [Store.putInvocation_slot_self, Cell.view_write_self]
      intro r₀ h₀
      rw [hr, Option.some.injEq] at h₀
      subst h₀
      exact ⟨r', rfl, he⟩
    · simp only [Store.putInvocation_slot_of_ne hm]
      exact Later.refl .refl _
  · by_cases hm : m = n
    · subst hm
      simp only [Store.putInvocation_slot_self]
      exact Later.refl .refl _
    · simp only [Store.putInvocation_slot_of_ne hm]
      exact Later.refl .refl _

theorem Onward.insertInvocation (hi : Inv sha256 issued t) (row : ToolInvocation) :
    Onward i t ⟨t.store.insertInvocation i row, t.granted⟩ := by
  have hslot : ∀ m, m ≠ t.store.next →
      (t.store.insertInvocation i row).slot m = t.store.slot m :=
    fun m hm => Store.putInvocation_slot_of_ne hm _
  have hempty := hi.fresh t.store.next (Nat.le_refl _)
  refine ⟨fun m => ?_, fun m => ?_⟩
  · by_cases hm : m = t.store.next
    · subst hm
      rw [hempty]
      intro r₀ h₀
      exact absurd h₀ (by simp [Slot.empty, Cell.view])
    · simp only [hslot m hm]
      exact Later.refl .refl _
  · by_cases hm : m = t.store.next
    · subst hm
      rw [hempty]
      intro a₀ h₀
      exact absurd h₀ (by simp [Slot.empty, Cell.view])
    · simp only [hslot m hm]
      exact Later.refl .refl _

theorem Onward.putApproval {a' : Approval}
    (he : ∀ a, (t.store.slot n).approval.view i = some a → a.Evolves a') :
    Onward i t ⟨t.store.putApproval i n a', t.granted⟩ := by
  refine ⟨fun m => ?_, fun m => ?_⟩
  · by_cases hm : m = n
    · subst hm
      simp only [Store.putApproval_slot_self]
      exact Later.refl .refl _
    · simp only [Store.putApproval_slot_of_ne hm]
      exact Later.refl .refl _
  · by_cases hm : m = n
    · subst hm
      simp only [Store.putApproval_slot_self, Cell.view_write_self]
      exact fun a₀ h₀ => ⟨a', rfl, he a₀ h₀⟩
    · simp only [Store.putApproval_slot_of_ne hm]
      exact Later.refl .refl _

/-- A commit shows the session what it saw. -/
theorem Onward.commit (g : Nat → Option Nat) : Onward i t ⟨t.store.commit i, g⟩ := by
  refine ⟨fun n => ?_, fun n => ?_⟩
  · have h : ((t.store.slot n).invocation.commit i).view i = (t.store.slot n).invocation.view i := by
      rw [Cell.view_of_not_own (Cell.own_commit_self i _), Cell.committed_commit]
    simp only [Store.commit, h]
    exact Later.refl .refl _
  · have h : ((t.store.slot n).approval.commit i).view i = (t.store.slot n).approval.view i := by
      rw [Cell.view_of_not_own (Cell.own_commit_self i _), Cell.committed_commit]
    simp only [Store.commit, h]
    exact Later.refl .refl _

/-- A row that is seen goes on being seen, in this version or a later one. -/
theorem upward_sees (r : ToolInvocation) : Upward i (Sees i r) := by
  rintro t t' ho ⟨r', hv, he⟩
  obtain ⟨r'', hv', he'⟩ := ho.invocation r.id r' hv
  exact ⟨r'', hv', he.trans he'⟩

theorem upward_seesApproval (a : Approval) : Upward i (SeesApproval i a) := by
  rintro t t' ho ⟨a', hv, he⟩
  obtain ⟨a'', hv', he'⟩ := ho.approval a.invocationId a' hv
  exact ⟨a'', hv', he.trans he'⟩

section

variable {R G : Tracked → Tracked → Prop} (hR : ∀ t t', R t t' → ∃ j, j ≠ i ∧ Guar j t t')
include hR

/-- Being upward is enough to be stable. -/
theorem stable_upward {K : Tracked → Prop} (hK : Upward i K) :
    (toolParty sha256 issued i R G).Stable K := by
  intro t t' hi _ hr h
  obtain ⟨j, hij, hg⟩ := hR t t' hr
  exact hK t t' (hg.onward hi hij) h

theorem stable_idle : (toolParty sha256 issued i R G).Stable (Idle i) := by
  intro t t' _ _ hr h n
  obtain ⟨j, hij, hg⟩ := hR t t' hr
  rw [hg.own_invocation hij, hg.own_approval hij]
  exact h n

/-- Nobody else can make the session unready. -/
theorem stable_readyBut (n : Nat) :
    (toolParty sha256 issued i R G).Stable (ReadyBut sha256 issued i n) := by
  intro t t' hi _ hr h m hm
  obtain ⟨j, hij, hg⟩ := hR t t' hr
  exact hg.safe hi hij (h m hm)

theorem stable_ready : (toolParty sha256 issued i R G).Stable (Ready sha256 issued i) := by
  intro t t' hi _ hr h m
  obtain ⟨j, hij, hg⟩ := hR t t' hr
  exact hg.safe hi hij (h m)

theorem stable_sees (r : ToolInvocation) : (toolParty sha256 issued i R G).Stable (Sees i r) :=
  stable_upward hR (upward_sees r)

theorem stable_fresh (r : ToolInvocation) :
    (toolParty sha256 issued i R G).Stable (Fresh sha256 issued i r) := by
  intro t t' hi hi' hr h
  have hbut := stable_readyBut hR r.id t t' hi hi' hr h.1
  obtain ⟨j, hij, hg⟩ := hR t t' hr
  refine ⟨hbut, ?_, ?_, ?_⟩
  · rw [hg.own_invocation hij]
    exact h.2.1
  · rw [(hg.invocation r.id).committed_of_own (Ne.symm hij) h.2.1]
    exact h.2.2.1
  · rw [hg.own_approval hij]
    exact h.2.2.2

theorem stable_own_approval (n : Nat) (v : Option (Option Approval)) :
    (toolParty sha256 issued i R G).Stable fun t =>
      (t.store.slot n).approval.own i = v := by
  intro t t' _ _ hr h
  obtain ⟨j, hij, hg⟩ := hR t t' hr
  show (t'.store.slot n).approval.own i = v
  rw [hg.own_approval hij]
  exact h

end

/-! ## The rules of the statements -/

section

variable {R G : Tracked → Tracked → Prop} {P : Tracked → Prop} {E : PyError → Tracked → Prop}

/-- Any statement: either the environment makes it fail and nothing changes, or it runs. -/
theorem spec_perform {o : Stmt} {Q : o.Val → Tracked → Prop}
    (hP : (toolParty sha256 issued i R G).Stable P)
    (hQ : ∀ a, (toolParty sha256 issued i R G).Stable (Q a))
    (hE : ∀ e, (toolParty sha256 issued i R G).Stable (E e))
    (hG : ∀ t t', Quiet i t t' → G t t')
    (hfault : ∀ t, Inv sha256 issued t → P t → E .databaseError t)
    (hrun : ∀ t now r s', Inv sha256 issued t → P t → o.run i now t.store = some (r, s') →
      ∃ g, Inv sha256 issued ⟨s', g⟩ ∧ G t ⟨s', g⟩ ∧ Party.Ends Q E r ⟨s', g⟩) :
    (toolParty sha256 issued i R G).Spec P (perform o) Q E := by
  refine Party.Triple.perform hP ?_ ?_
  · intro r
    cases r with
    | ok a => exact hQ a
    | error e => exact hE e
  · intro t r s' hi ht hs
    obtain ⟨choice, hc⟩ := hs
    by_cases hf : choice.fault && o.fallible
    · simp only [toolDb, hf, if_true, Option.some.injEq, Prod.mk.injEq] at hc
      obtain ⟨rfl, rfl⟩ := hc
      exact ⟨t, rfl, hi, hG t t (.refl i t), hfault t hi ht⟩
    · simp only [toolDb, hf] at hc
      obtain ⟨g, hi', hg, hq⟩ := hrun t choice.now r s' hi ht hc
      exact ⟨⟨s', g⟩, rfl, hi', hg, hq⟩

/-- A statement that only reads. -/
theorem spec_read {o : Stmt} {Q : o.Val → Tracked → Prop} (f : Nat → Store → o.Val)
    (hf : ∀ now s, o.run i now s = some (.ok (f now s), s))
    (hP : (toolParty sha256 issued i R G).Stable P)
    (hQ : ∀ a, (toolParty sha256 issued i R G).Stable (Q a))
    (hE : ∀ e, (toolParty sha256 issued i R G).Stable (E e))
    (hG : ∀ t t', Quiet i t t' → G t t')
    (hfault : ∀ t, Inv sha256 issued t → P t → E .databaseError t)
    (hread : ∀ t now, Inv sha256 issued t → P t → Q (f now t.store) t) :
    (toolParty sha256 issued i R G).Spec P (perform o) Q E := by
  refine spec_perform hP hQ hE hG hfault fun t now r s' hi ht hrun => ?_
  rw [hf, Option.some.injEq, Prod.mk.injEq] at hrun
  obtain ⟨rfl, rfl⟩ := hrun
  exact ⟨t.granted, hi, hG _ _ (.refl i t), hread t now hi ht⟩

/-- The clock says anything, and it does not fail. -/
theorem spec_utcnow (hP : (toolParty sha256 issued i R G).Stable P)
    (hG : ∀ t t', Quiet i t t' → G t t') :
    (toolParty sha256 issued i R G).Spec P (perform .utcnow) (fun _ => P) E := by
  refine Party.Triple.call (M := fun (r : Except PyError Nat) t => (∃ now, r = .ok now) ∧ P t) hP
    ?_ ?_
  · intro t r s' hi ht hs
    obtain ⟨choice, hc⟩ := hs
    simp only [toolDb, Stmt.fallible, Bool.and_false, Bool.false_eq_true, if_false, Stmt.run,
      Option.some.injEq, Prod.mk.injEq] at hc
    obtain ⟨rfl, rfl⟩ := hc
    exact ⟨t, rfl, hi, hG t t (.refl i t), ⟨_, rfl⟩, ht⟩
  · intro r
    refine Party.Triple.pure_pre fun hr => ?_
    obtain ⟨now, rfl⟩ := hr
    exact Party.Triple.ret hP fun _ _ h => h

/-- `INSERT .. ON CONFLICT DO NOTHING`: the key is there already, or the row is new. -/
theorem spec_insertInvocation {row : ToolInvocation} {Q : Unit → Tracked → Prop}
    (hP : (toolParty sha256 issued i R G).Stable P)
    (hQ : ∀ a, (toolParty sha256 issued i R G).Stable (Q a))
    (hE : ∀ e, (toolParty sha256 issued i R G).Stable (E e))
    (hG : ∀ t t', Quiet i t t' → G t t')
    (hfault : ∀ t, Inv sha256 issued t → P t → E .databaseError t)
    (hwf : ∀ n, { row with id := n }.WellFormed sha256 issued n)
    (hx : row.status.executed = false)
    (hthere : ∀ t m r, Inv sha256 issued t → P t →
      (t.store.slot m).invocation.view i = some r → r.userId = row.userId →
        r.idempotencyKey = row.idempotencyKey → Q () t)
    (hnew : ∀ t, Inv sha256 issued t → P t →
      t.store.findSlot (Slot.seesInvocation i row.userId row.idempotencyKey) = none →
        Q () ⟨t.store.insertInvocation i row, t.granted⟩) :
    (toolParty sha256 issued i R G).Spec P (perform (.insertInvocation row)) Q E := by
  refine spec_perform hP hQ hE hG hfault fun t now res s' hi ht hrun => ?_
  obtain ⟨rfl, ⟨m, hs, rfl⟩ | ⟨hs, ha, rfl⟩⟩ := run_insertInvocation hrun
  · obtain ⟨r, hr, hu, hk⟩ := Slot.seesInvocation_iff.mp (Store.findSlot_eq_some hs).2
    exact ⟨t.granted, hi, hG _ _ (.refl i t), hthere t m r hi ht hr hu hk⟩
  · obtain ⟨hi', hq⟩ := hi.insertInvocation hs ha (hwf t.store.next) hx
    exact ⟨t.granted, hi', hG _ _ hq, hnew t hi ht hs⟩

/-- A conditional `UPDATE` of an invocation: it matches nothing, or it writes what it saw. -/
theorem spec_updateInvocation {id : Nat} {condition : ToolInvocation → Bool}
    {values : ToolInvocation → ToolInvocation} {Q : Nat → Tracked → Prop}
    (hP : (toolParty sha256 issued i R G).Stable P)
    (hQ : ∀ a, (toolParty sha256 issued i R G).Stable (Q a))
    (hE : ∀ e, (toolParty sha256 issued i R G).Stable (E e))
    (hG : ∀ t t', Quiet i t t' → G t t')
    (hfault : ∀ t, Inv sha256 issued t → P t → E .databaseError t)
    (hmiss : ∀ t, Inv sha256 issued t → P t →
      (∀ r, (t.store.slot id).invocation.view i = some r → condition r = false) → Q 0 t)
    (hhit : ∀ t r, Inv sha256 issued t → P t →
      (t.store.slot id).invocation.view i = some r → condition r = true →
        r.Evolves (values r) ∧ (values r).WellFormed sha256 issued id ∧
        ((values r).status.executed = true → (values r).status = .running ∨ t.store.started id) ∧
          Q 1 ⟨t.store.putInvocation i id (values r), t.granted⟩) :
    (toolParty sha256 issued i R G).Spec P (perform (.updateInvocation id condition values)) Q
      E := by
  refine spec_perform hP hQ hE hG hfault fun t now res s' hi ht hrun => ?_
  rcases run_updateInvocation hrun with ⟨rfl, rfl, hmissed⟩ | ⟨r, hv, hc, hl, rfl, rfl⟩
  · exact ⟨t.granted, hi, hG _ _ (.refl i t), hmiss t hi ht hmissed⟩
  · obtain ⟨he, hw, hx, hq⟩ := hhit t r hi ht hv hc
    obtain ⟨hi', hquiet⟩ := hi.putInvocation hl hv he hw hx
    exact ⟨t.granted, hi', hG _ _ hquiet, hq⟩

theorem spec_updateApproval {id : Nat} {condition : Approval → Bool}
    {values : Approval → Approval} {Q : Nat → Tracked → Prop}
    (hP : (toolParty sha256 issued i R G).Stable P)
    (hQ : ∀ a, (toolParty sha256 issued i R G).Stable (Q a))
    (hE : ∀ e, (toolParty sha256 issued i R G).Stable (E e))
    (hG : ∀ t t', Quiet i t t' → G t t')
    (hfault : ∀ t, Inv sha256 issued t → P t → E .databaseError t)
    (hmiss : ∀ t, Inv sha256 issued t → P t →
      (∀ a, (t.store.slot id).approval.view i = some a → condition a = false) → Q 0 t)
    (hhit : ∀ t a, Inv sha256 issued t → P t →
      (t.store.slot id).approval.view i = some a → condition a = true →
        a.Evolves (values a) ∧ Q 1 ⟨t.store.putApproval i id (values a), t.granted⟩) :
    (toolParty sha256 issued i R G).Spec P (perform (.updateApproval id condition values)) Q
      E := by
  refine spec_perform hP hQ hE hG hfault fun t now res s' hi ht hrun => ?_
  rcases run_updateApproval hrun with ⟨rfl, rfl, hmissed⟩ | ⟨a, hv, hc, hl, rfl, rfl⟩
  · exact ⟨t.granted, hi, hG _ _ (.refl i t), hmiss t hi ht hmissed⟩
  · obtain ⟨he, hq⟩ := hhit t a hi ht hv hc
    obtain ⟨-, r, hr, -⟩ := (hi.slots id).approval_view_at hv
    obtain ⟨hi', hquiet⟩ := hi.putApproval hl (hi.lt_next hr) ((hi.slots id).writeApproval hv he)
    exact ⟨t.granted, hi', hG _ _ hquiet, hq⟩

/-- The insertion of an approval for an invocation the session sees under the approval's key. -/
theorem spec_insertApproval {row : Approval} {Q : Unit → Tracked → Prop}
    (hP : (toolParty sha256 issued i R G).Stable P)
    (hQ : ∀ a, (toolParty sha256 issued i R G).Stable (Q a))
    (hE : ∀ e, (toolParty sha256 issued i R G).Stable (E e))
    (hG : ∀ t t', Quiet i t t' → G t t')
    (hfault : ∀ t, Inv sha256 issued t → P t → E .databaseError t)
    (hkey : ∀ t r, Inv sha256 issued t → P t →
      (t.store.slot row.invocationId).invocation.view i = some r →
        row.userId = r.userId ∧ row.idempotencyKey = r.idempotencyKey)
    (hthere : ∀ t m a, Inv sha256 issued t → P t →
      (t.store.slot m).approval.view i = some a → a.userId = row.userId →
        a.idempotencyKey = row.idempotencyKey → Q () t)
    (hnew : ∀ t, Inv sha256 issued t → P t →
      (t.store.slot row.invocationId).approval.view i = none →
        Q () ⟨t.store.putApproval i row.invocationId row, t.granted⟩) :
    (toolParty sha256 issued i R G).Spec P (perform (.insertApproval row)) Q E := by
  refine spec_perform hP hQ hE hG hfault fun t now res s' hi ht hrun => ?_
  rcases run_insertApproval hrun with
    ⟨m, hs, rfl, rfl⟩ | ⟨rfl, rfl⟩ | ⟨r, hr, ha, hl, rfl, rfl⟩
  · obtain ⟨a, ha, hu, hk⟩ := Slot.seesApproval_iff.mp (Store.findSlot_eq_some hs).2
    exact ⟨t.granted, hi, hG _ _ (.refl i t), hthere t m a hi ht ha hu hk⟩
  · exact ⟨t.granted, hi, hG _ _ (.refl i t), hfault t hi ht⟩
  · obtain ⟨hu, hk⟩ := hkey t r hi ht hr
    obtain ⟨hi', hquiet⟩ := hi.putApproval hl (hi.lt_next hr)
      ((hi.slots row.invocationId).insertApproval ha hr rfl hu hk)
    exact ⟨t.granted, hi', hG _ _ hquiet, hnew t hi ht ha⟩

/-- A rollback leaves the session with nothing. -/
theorem spec_rollback {Q : Unit → Tracked → Prop}
    (hP : (toolParty sha256 issued i R G).Stable P)
    (hQ : ∀ a, (toolParty sha256 issued i R G).Stable (Q a))
    (hG : ∀ t t', Quiet i t t' → G t t')
    (hq : ∀ t, Inv sha256 issued t → P t → Idle i ⟨t.store.rollback i, t.granted⟩ →
      Quiet i t ⟨t.store.rollback i, t.granted⟩ → Q () ⟨t.store.rollback i, t.granted⟩) :
    (toolParty sha256 issued i R G).Spec P (perform .rollback) Q E := by
  refine Party.Triple.call (M := fun (r : Except PyError Unit) t => r = .ok () ∧ Q () t) hP ?_ ?_
  · intro t r s' hi ht hs
    obtain ⟨choice, hc⟩ := hs
    simp only [toolDb, Stmt.fallible, Bool.and_false, Bool.false_eq_true, if_false, Stmt.run,
      Option.some.injEq, Prod.mk.injEq] at hc
    obtain ⟨rfl, rfl⟩ := hc
    obtain ⟨hi', hquiet⟩ := hi.rollback i
    refine ⟨⟨t.store.rollback i, t.granted⟩, rfl, hi', hG _ _ hquiet, rfl, hq t hi ht ?_ hquiet⟩
    exact fun n => ⟨Cell.own_rollback_self i _, Cell.own_rollback_self i _⟩
  · intro r
    refine Party.Triple.pure_pre fun hr => ?_
    subst hr
    exact Party.Triple.ret (hQ ()) fun _ _ h => h

/-- **A commit.** Here, and only here, the session must be ready. -/
theorem spec_commit {Q : Unit → Tracked → Prop}
    (hP : (toolParty sha256 issued i R G).Stable P)
    (hQ : ∀ a, (toolParty sha256 issued i R G).Stable (Q a))
    (hE : ∀ e, (toolParty sha256 issued i R G).Stable (E e))
    (hG : ∀ t t', Quiet i t t' → G t t')
    (hfault : ∀ t, Inv sha256 issued t → P t → E .databaseError t)
    (hready : ∀ t, Inv sha256 issued t → P t → Ready sha256 issued i t)
    (hq : ∀ t g, Inv sha256 issued t → P t → Guar i t ⟨t.store.commit i, g⟩ →
      Idle i ⟨t.store.commit i, g⟩ →
      (∀ n, ¬ t.store.started n → (t.store.commit i).started n → g n = some i) →
        G t ⟨t.store.commit i, g⟩ ∧ Q () ⟨t.store.commit i, g⟩) :
    (toolParty sha256 issued i R G).Spec P (perform .commit) Q E := by
  refine spec_perform hP hQ hE hG hfault fun t now r s' hi ht hrun => ?_
  simp only [Stmt.run, Option.some.injEq, Prod.mk.injEq] at hrun
  obtain ⟨rfl, rfl⟩ := hrun
  obtain ⟨g, hi', hg, -, hgr⟩ := hi.commit (hready t hi ht)
  obtain ⟨hGt, hQt⟩ := hq t g hi ht hg
    (fun n => ⟨Cell.own_commit_self i _, Cell.own_commit_self i _⟩) hgr
  exact ⟨g, hi', hGt, hQt⟩

end

end

end HyChat
