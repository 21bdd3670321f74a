import HyChat.Lib.Guarded

/-!
# Triples over histories

What a program has done is the list of its statements with their answers. A triple says of a program
that goes on from some history: as long as the environment answers as it may, the history meets the
invariant after every statement, and where the program ends it meets the postcondition. The
invariant therefore holds of a run that breaks off, too.

A machine that remembers what was issued keeps the invariants of all its parties, whatever the order
of their statements, and with them what its statements keep.

The invariant is about the party's own history. What the others do shows in the answers, and what
may be answered is a parameter of the triple; so a triple is proved from the code of one party
alone.
-/

set_option autoImplicit false

namespace HyChat.Lib

namespace Prog

variable {S : Sig} {α β : Type}

/-- The answers are among `A`, the invariant is `I`, and `Q` holds at the end. -/
def Triple (A : (o : S.Op) → S.Res o → Prop) (I : List (Σ o : S.Op, S.Res o) → Prop)
    (Q : α → List (Σ o : S.Op, S.Res o) → Prop) :
    List (Σ o : S.Op, S.Res o) → Prog S α → Prop
  | past, .ret a => Q a past
  | past, .call o k => ∀ r, A o r → I (past ++ [⟨o, r⟩]) ∧ Triple A I Q (past ++ [⟨o, r⟩]) (k r)

variable {A : (o : S.Op) → S.Res o → Prop} {I : List (Σ o : S.Op, S.Res o) → Prop}
  {Q : α → List (Σ o : S.Op, S.Res o) → Prop} {R : β → List (Σ o : S.Op, S.Res o) → Prop}
  {past : List (Σ o : S.Op, S.Res o)}

theorem Triple.bind {x : Prog S α} {f : α → Prog S β} (hx : Triple A I Q past x)
    (hf : ∀ a past, Q a past → Triple A I R past (f a)) : Triple A I R past (x.bind f) := by
  induction x generalizing past with
  | ret a => exact hf a past hx
  | call o k ih => exact fun r hr => ⟨(hx r hr).1, ih r (hx r hr).2⟩

theorem Triple.mono {Q' : α → List (Σ o : S.Op, S.Res o) → Prop} {x : Prog S α}
    (hx : Triple A I Q past x) (hQ : ∀ a past, Q a past → Q' a past) : Triple A I Q' past x := by
  induction x generalizing past with
  | ret a => exact hQ a past hx
  | call o k ih => exact fun r hr => ⟨(hx r hr).1, ih r (hx r hr).2⟩

end Prog

/-! ## Machines -/

namespace Machine

variable {S : Sig} {σ ι χ : Type} [DecidableEq ι]
  {m : Machine S σ ι χ} {past : σ → ι → List (Σ o : S.Op, S.Res o)}
  {A : ι → (o : S.Op) → S.Res o → Prop} {I : ι → List (Σ o : S.Op, S.Res o) → Prop} {K : σ → Prop}

/-- Every party meets its invariant, and goes on to. -/
def AllTraced (past : σ → ι → List (Σ o : S.Op, S.Res o)) (A : ι → (o : S.Op) → S.Res o → Prop)
    (I : ι → List (Σ o : S.Op, S.Res o) → Prop) (c : Config S σ ι) : Prop :=
  ∀ i, I i (past c.store i) ∧
    Prog.Triple (A i) (I i) (fun _ _ => True) (past c.store i) (c.prog i)

theorem Recording.traced_step (h : m.Recording past)
    (hA : ∀ i o s r s', m.sem i o s r s' → A i o r) {c c' : Config S σ ι} (hstep : m.AnyStep c c')
    (htraced : AllTraced past A I c) (hK : K c.store) (hhalt : ∀ i s, K s → K (m.halt i s))
    (hkeeps : ∀ i o s r s', (∀ j, I j (past s j)) → (∀ j, I j (past s' j)) → K s →
      m.sem i o s r s' → K s') : AllTraced past A I c' ∧ K c'.store := by
  obtain ⟨i, hi⟩ := hstep
  rcases m.step_cases hi with rfl | ⟨o, k, r, s', hprog, hsem, rfl⟩
  · refine ⟨fun j => ?_, hhalt i _ hK⟩
    simp only [h.halt]
    rcases eq_or_ne j i with rfl | hj
    · simp only [Function.update_self]
      exact ⟨(htraced j).1, trivial⟩
    · simpa only [Function.update_of_ne hj] using htraced j
  · have hnext : AllTraced past A I ⟨s', Function.update c.prog i (k r)⟩ := by
      intro j
      simp only [h.exec hsem]
      rcases eq_or_ne j i with rfl | hj
      · have hparty := (htraced j).2
        rw [hprog] at hparty
        simp only [Function.update_self]
        exact hparty r (hA j o _ r s' hsem)
      · simpa only [Function.update_of_ne hj] using htraced j
    exact ⟨hnext, hkeeps i o _ r s' (fun j => (htraced j).1) (fun j => (hnext j).1) hK hsem⟩

/-- **The rule for traced parties.** In every reachable store each party meets its invariant, and so
    does the store what every statement keeps that leads from such pasts to such pasts. -/
theorem Recording.traced (h : m.Recording past)
    (hA : ∀ i o s r s', m.sem i o s r s' → A i o r) {c₀ c : Config S σ ι} (hsteps : m.Steps c₀ c)
    (htraced : AllTraced past A I c₀) (hK : K c₀.store) (hhalt : ∀ i s, K s → K (m.halt i s))
    (hkeeps : ∀ i o s r s', (∀ j, I j (past s j)) → (∀ j, I j (past s' j)) → K s →
      m.sem i o s r s' → K s') : (∀ i, I i (past c.store i)) ∧ K c.store := by
  have hboth : AllTraced past A I c ∧ K c.store := by
    induction hsteps with
    | refl => exact ⟨htraced, hK⟩
    | tail _ hstep ih => exact h.traced_step hA hstep ih.1 ih.2 hhalt hkeeps
  exact ⟨fun i => (hboth.1 i).1, hboth.2⟩

end Machine

/-! ## Suites -/

namespace Suite

variable {Op ε L α β : Type} {Ans : Op → Type}

/-- The triple of a suite has a postcondition for the end and one for an exception. -/
def Triple (A : (o : Op) → Except ε (Ans o) → Prop) (I : List (Event ε Ans) → Prop)
    (past : List (Event ε Ans)) (l : L) (x : Suite ε L Ans α)
    (Ok : α → L → List (Event ε Ans) → Prop) (Fail : ε → L → List (Event ε Ans) → Prop) : Prop :=
  Prog.Triple (S := raising ε Ans) A I
    (fun out past => match out with
      | (.ok a, l) => Ok a l past
      | (.error e, l) => Fail e l past) past (x l)

variable {A : (o : Op) → Except ε (Ans o) → Prop} {I : List (Event ε Ans) → Prop}
  {past : List (Event ε Ans)} {l : L} {x : Suite ε L Ans α}
  {Ok : α → L → List (Event ε Ans) → Prop} {Ok' : β → L → List (Event ε Ans) → Prop}
  {Fail Fail' : ε → L → List (Event ε Ans) → Prop}

theorem Triple.pure {a : α} (h : Ok a l past) :
    Triple A I past l (pure a : Suite ε L Ans α) Ok Fail := h

theorem Triple.raise {e : ε} (h : Fail e l past) :
    Triple A I past l (raise e : Suite ε L Ans α) Ok Fail := h

theorem Triple.call {o : Op} {Ok : Ans o → L → List (Event ε Ans) → Prop}
    (hok : ∀ a, A o (.ok a) → I (past ++ [⟨o, .ok a⟩]) ∧ Ok a l (past ++ [⟨o, .ok a⟩]))
    (hfail : ∀ e, A o (.error e) → I (past ++ [⟨o, .error e⟩]) ∧ Fail e l (past ++ [⟨o, .error e⟩])) :
    Triple A I past l (call o : Suite ε L Ans (Ans o)) Ok Fail := by
  intro r hr
  cases r with
  | ok a => exact hok a hr
  | error e => exact hfail e hr

theorem Triple.mono {Ok' : α → L → List (Event ε Ans) → Prop} (hx : Triple A I past l x Ok Fail)
    (hok : ∀ a l past, Ok a l past → Ok' a l past)
    (hfail : ∀ e l past, Fail e l past → Fail' e l past) : Triple A I past l x Ok' Fail' := by
  refine Prog.Triple.mono hx ?_
  rintro ⟨out, l⟩ past hout
  cases out with
  | ok a => exact hok a l past hout
  | error e => exact hfail e l past hout

theorem Triple.bind {f : α → Suite ε L Ans β} (hx : Triple A I past l x Ok Fail)
    (hf : ∀ a l past, Ok a l past → Triple A I past l (f a) Ok' Fail) :
    Triple A I past l (x >>= f) Ok' Fail := by
  refine Prog.Triple.bind hx ?_
  rintro ⟨out, l⟩ past hout
  cases out with
  | ok a => exact hf a l past hout
  | error e => exact hout

theorem Triple.tryExcept {handler : ε → Option (Suite ε L Ans α)}
    (hx : Triple A I past l x Ok Fail)
    (hsome : ∀ e s l past, Fail e l past → handler e = some s → Triple A I past l s Ok Fail')
    (hnone : ∀ e l past, Fail e l past → handler e = none → Fail' e l past) :
    Triple A I past l (tryExcept x handler) Ok Fail' := by
  refine Prog.Triple.bind hx ?_
  rintro ⟨out, l⟩ past hout
  cases out with
  | ok a => exact hout
  | error e =>
    simp only
    cases hs : handler e with
    | some s => exact hsome e s l past hout hs
    | none => exact hnone e l past hout hs

end Suite

end HyChat.Lib
