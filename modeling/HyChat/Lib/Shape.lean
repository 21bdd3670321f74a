import Mathlib.Data.List.Forall2
import HyChat.Lib.Prog

/-!
# What can be read off the tree

Facts about a program that concern no state, only which statements it issues and what it does with
the answers.

* `Within I A V` — as long as its statements are answered as in `A`, the program issues only
  statements of `I` and ends as in `V`. Two things follow for a run: each of the program's own
  steps is a statement of `I` (`Exec.within`), and the program ends in the same way on any states
  that answer the statements of `I` alike (`answers_congr`).
* `Finishes Q V` — a statement that is answered as in `Q` is the program's last: it returns at
  once, with a value as in `V`. A program whose commit is of this kind has committed nothing when
  it raises, whatever the others do meanwhile (`Exec.own_of_error`).
* `Shares A E P x y` — `x` does what `y` does, statement by statement, up to a point from which it
  raises as in `E`. This is how a loop over a list with a bad element relates to the loop over
  what stands before it (`Shares.forM_stops`): in a run of the first either the element's own
  exception ends it, or the second ends in the same way on the states met (`Exec.shares`).
-/

set_option autoImplicit false

namespace HyChat.Lib

variable {S : Sig} {α β ε : Type}

/-! ## The statements a program issues -/

/-- While it is answered as in `A`, the program issues statements of `I` and ends as in `V`. -/
def Prog.Within (I : S.Op → Prop) (A : (o : S.Op) → S.Res o → Prop) (V : α → Prop) :
    Prog S α → Prop
  | .ret a => V a
  | .call o k => I o ∧ ∀ r, A o r → Prog.Within I A V (k r)

theorem Prog.Within.bind {I : S.Op → Prop} {A : (o : S.Op) → S.Res o → Prop} {V : α → Prop}
    {W : β → Prop} {f : α → Prog S β} (hf : ∀ a, V a → (f a).Within I A W) :
    ∀ {x : Prog S α}, x.Within I A V → (x.bind f).Within I A W := by
  intro x
  induction x with
  | ret a => exact hf a
  | call o k ih => exact fun h => ⟨h.1, fun r hr => ih r (h.2 r hr)⟩

namespace Raising

/-- A value as in `V`, or an exception as in `E`. -/
def outcome (V : α → Prop) (E : ε → Prop) : Except ε α → Prop
  | .ok a => V a
  | .error e => E e

/-- While it is answered as in `A`, the program issues statements of `I`, and returns as in `V` or
    raises as in `E`. -/
def Within (I : S.Op → Prop) (A : (o : S.Op) → S.Res o → Prop) (V : α → Prop) (E : ε → Prop)
    (x : Raising S ε α) : Prop := x.attempt.Within I A (outcome V E)

variable {I : S.Op → Prop} {A : (o : S.Op) → S.Res o → Prop} {V : α → Prop} {W : β → Prop}
  {E F : ε → Prop}

theorem Within.pure {a : α} (h : V a) : (Pure.pure a : Raising S ε α).Within I A V E := h

theorem Within.throw {e : ε} (h : E e) :
    (MonadExcept.throw e : Raising S ε α).Within I A V E := h

theorem Within.bind {x : Raising S ε α} {f : α → Raising S ε β} (hx : x.Within I A V E)
    (hf : ∀ a, V a → (f a).Within I A W E) : (x >>= f).Within I A W E := by
  unfold Within attempt
  rw [bind_eq]
  refine Prog.Within.bind (fun r hr => ?_) hx
  cases r with
  | ok a => exact hf a hr
  | error e => exact hr

theorem Within.tryCatch {x : Raising S ε α} {h : ε → Raising S ε α} (hx : x.Within I A V E)
    (hh : ∀ e, E e → (h e).Within I A V F) :
    (MonadExcept.tryCatch x h : Raising S ε α).Within I A V F := by
  unfold Within attempt
  rw [tryCatch_eq]
  refine Prog.Within.bind (fun r hr => ?_) hx
  cases r with
  | ok a => exact hr
  | error e => exact hh e hr

theorem Within.forM {ι : Type} {f : ι → Raising S ε PUnit} :
    ∀ {xs : List ι}, (∀ x ∈ xs, (f x).Within I A (fun _ => True) E) →
      (xs.forM f).Within I A (fun _ => True) E
  | [], _ => Within.pure trivial
  | x :: _, hf => Within.bind (hf x List.mem_cons_self) fun _ _ =>
      Within.forM fun y hy => hf y (List.mem_cons_of_mem _ hy)

/-- A loop does not get past an element whose body does not return. -/
theorem Within.forM_stops {ι : Type} {f : ι → Raising S ε PUnit} {x : ι}
    (hx : (f x).Within I A (fun _ => False) E) :
    ∀ {xs : List ι}, x ∈ xs → (∀ y ∈ xs, (f y).Within I A (fun _ => True) E) →
      (xs.forM f).Within I A (fun _ => False) E
  | [], hm, _ => absurd hm (by simp)
  | y :: ys, hm, hf => by
    by_cases hyx : x = y
    · subst hyx
      exact Within.bind hx fun _ h => h.elim
    · refine Within.bind (hf y List.mem_cons_self) fun _ _ => ?_
      refine Within.forM_stops hx ?_ fun z hz => hf z (List.mem_cons_of_mem _ hz)
      exact (List.mem_cons.mp hm).resolve_left hyx

theorem Within.mono {V' : α → Prop} {E' : ε → Prop} {x : Raising S ε α} (h : x.Within I A V E)
    (hV : ∀ a, V a → V' a) (hE : ∀ e, E e → E' e) : x.Within I A V' E' := by
  unfold Within attempt at *
  rw [← Prog.bind_ret x]
  refine Prog.Within.bind (fun r hr => ?_) h
  cases r with
  | ok a => exact hV a hr
  | error e => exact hE e hr

/-! ## Statements that are the last -/

/-- A statement answered as in `Q` ends the tree, with a value as in `V`. -/
def finishes (Q : (o : S.Op) → S.Res o → Prop) (V : α → Prop) : Prog S (Except ε α) → Prop
  | .ret _ => True
  | .call o k => ∀ r, (Q o r → ∃ a, k r = .ret (.ok a) ∧ V a) ∧ finishes Q V (k r)

/-- A statement answered as in `Q` ends the program, with a value as in `V`. -/
def Finishes (Q : (o : S.Op) → S.Res o → Prop) (V : α → Prop) (x : Raising S ε α) : Prop :=
  finishes Q V x.attempt

variable {Q : (o : S.Op) → S.Res o → Prop}

/-- What goes before the last statement. -/
theorem Finishes.after {W : β → Prop} (hQ : ∀ o r, I o → ¬ Q o r) {x : Raising S ε α}
    {f : α → Raising S ε β} (hx : x.Within I (fun _ _ => True) V E)
    (hf : ∀ a, (f a).Finishes Q W) : (x >>= f).Finishes Q W := by
  unfold Finishes Within attempt at *
  rw [bind_eq]
  induction x with
  | ret r =>
    cases r with
    | ok a => exact hf a
    | error e => trivial
  | call o k ih =>
    exact fun r => ⟨fun hq => absurd hq (hQ o r hx.1), ih r (hx.2 r trivial)⟩

/-- What goes after it: nothing, for the values it ends with. -/
theorem Finishes.before {W : β → Prop} {x : Raising S ε α} {f : α → Raising S ε β}
    (hx : x.Finishes Q V) (hV : ∀ a, V a → ∃ b, f a = Pure.pure b ∧ W b)
    (hf : ∀ a, (f a).Finishes Q W) : (x >>= f).Finishes Q W := by
  unfold Finishes attempt at *
  rw [bind_eq]
  induction x with
  | ret r =>
    cases r with
    | ok a => exact hf a
    | error e => trivial
  | call o k ih =>
    refine fun r => ⟨fun hq => ?_, ih r (hx r).2⟩
    obtain ⟨a, ha, hv⟩ := (hx r).1 hq
    obtain ⟨b, hb, hw⟩ := hV a hv
    refine ⟨b, ?_, hw⟩
    show Prog.bind (k r) _ = _
    rw [ha]
    exact hb

theorem Finishes.tryCatch {x : Raising S ε α} {h : ε → Raising S ε α} (hx : x.Finishes Q V)
    (hh : ∀ e, (h e).Finishes Q V) :
    (MonadExcept.tryCatch x h : Raising S ε α).Finishes Q V := by
  unfold Finishes attempt at *
  rw [tryCatch_eq]
  induction x with
  | ret r =>
    cases r with
    | ok a => trivial
    | error e => exact hh e
  | call o k ih =>
    refine fun r => ⟨fun hq => ?_, ih r (hx r).2⟩
    obtain ⟨a, ha, hv⟩ := (hx r).1 hq
    refine ⟨a, ?_, hv⟩
    show Prog.bind (k r) _ = _
    rw [ha]
    rfl

end Raising

/-! ## Programs that go on alike -/

/-- Answered as in `A`, the first program does what the second does until it is left alone to end
    as in `V`; where the second ends too, the answers are related by `R`. -/
inductive Prog.Shares (A : (o : S.Op) → S.Res o → Prop) (V : α → Prop) (R : α → β → Prop) :
    Prog S α → Prog S β → Prop
  | ret {a : α} {b : β} : R a b → Shares A V R (.ret a) (.ret b)
  | leaves {x : Prog S α} {y : Prog S β} : x.Within (fun _ => True) A V → Shares A V R x y
  | call {o : S.Op} {k : S.Res o → Prog S α} {k' : S.Res o → Prog S β} :
      (∀ r, A o r → Shares A V R (k r) (k' r)) → Shares A V R (.call o k) (.call o k')

theorem Prog.Shares.refl {A : (o : S.Op) → S.Res o → Prop} {V : α → Prop} {R : α → α → Prop}
    (hR : ∀ a, R a a) (x : Prog S α) : x.Shares A V R x := by
  induction x with
  | ret a => exact .ret (hR a)
  | call o k ih => exact .call fun r _ => ih r

theorem Prog.Shares.bind {α' β' : Type} {A : (o : S.Op) → S.Res o → Prop} {V : α → Prop}
    {R : α → β → Prop} {V' : α' → Prop} {R' : α' → β' → Prop} {x : Prog S α} {y : Prog S β}
    {f : α → Prog S α'} {g : β → Prog S β'} (h : x.Shares A V R y)
    (hV : ∀ a, V a → (f a).Within (fun _ => True) A V')
    (hR : ∀ a b, R a b → (f a).Shares A V' R' (g b)) :
    (x.bind f).Shares A V' R' (y.bind g) := by
  induction h with
  | ret hab => exact hR _ _ hab
  | leaves hx => exact .leaves (hx.bind hV)
  | call _ ih => exact .call ih

namespace Raising

/-- The same exception, or values related by `P`. -/
def Alike (P : α → β → Prop) : Except ε α → Except ε β → Prop
  | .ok a, .ok b => P a b
  | .error e, .error e' => e = e'
  | _, _ => False

/-- Answered as in `A`, `x` does what `y` does up to a point from which it raises as in `E`; before
    that it raises what `y` raises, and where both return the values are related by `P`. -/
def Shares (A : (o : S.Op) → S.Res o → Prop) (E : ε → Prop) (P : α → β → Prop)
    (x : Raising S ε α) (y : Raising S ε β) : Prop :=
  x.attempt.Shares A (outcome (fun _ => False) E) (Alike P) y.attempt

variable {A : (o : S.Op) → S.Res o → Prop} {E F : ε → Prop} {P : α → β → Prop}

theorem Shares.leaves {x : Raising S ε α} {y : Raising S ε β}
    (h : x.Within (fun _ => True) A (fun _ => False) E) : x.Shares A E P y :=
  Prog.Shares.leaves h

theorem Shares.pure {a : α} {b : β} (h : P a b) :
    (Pure.pure a : Raising S ε α).Shares A E P (Pure.pure b : Raising S ε β) :=
  Prog.Shares.ret h

theorem Shares.throw {e : ε} :
    (MonadExcept.throw e : Raising S ε α).Shares A E P (MonadExcept.throw e : Raising S ε β) :=
  Prog.Shares.ret rfl

theorem Shares.refl (x : Raising S ε α) : x.Shares A E Eq x := by
  refine Prog.Shares.refl (fun a => ?_) x.attempt
  cases a <;> rfl

theorem Shares.bind {α' β' : Type} {Q : α' → β' → Prop} {x : Raising S ε α} {y : Raising S ε β}
    {f : α → Raising S ε α'} {g : β → Raising S ε β'} (h : x.Shares A E P y)
    (hf : ∀ a b, P a b → (f a).Shares A E Q (g b)) : (x >>= f).Shares A E Q (y >>= g) := by
  unfold Shares attempt
  rw [bind_eq, bind_eq]
  refine Prog.Shares.bind h (fun r hr => ?_) fun r r' hr => ?_
  · cases r with
    | ok a => exact hr.elim
    | error e => exact hr
  · cases r with
    | ok a =>
      cases r' with
      | ok b => exact hf a b hr
      | error e => exact hr.elim
    | error e =>
      cases r' with
      | ok b => exact hr.elim
      | error e' => exact .ret hr

theorem Shares.tryCatch {x : Raising S ε α} {y : Raising S ε β} {h : ε → Raising S ε α}
    {h' : ε → Raising S ε β} (hx : x.Shares A E P y)
    (hE : ∀ e, E e → (h e).Within (fun _ => True) A (fun _ => False) F)
    (hh : ∀ e, (h e).Shares A F P (h' e)) :
    (MonadExcept.tryCatch x h : Raising S ε α).Shares A F P (MonadExcept.tryCatch y h') := by
  unfold Shares attempt
  rw [tryCatch_eq, tryCatch_eq]
  refine Prog.Shares.bind hx (fun r hr => ?_) fun r r' hr => ?_
  · cases r with
    | ok a => exact hr.elim
    | error e => exact hE e hr
  · cases r with
    | ok a =>
      cases r' with
      | ok b => exact .ret hr
      | error e => exact hr.elim
    | error e =>
      cases r' with
      | ok b => exact hr.elim
      | error e' =>
        have he : e = e' := hr
        subst he
        exact hh e

/-- **A loop and the loop over what stands before a bad element** go on alike; the first does not
    return, so neither does what comes after the loop matter. -/
theorem Shares.forM_stops {ι : Type} {f : ι → Raising S ε PUnit} {x : ι} (after : List ι)
    (hx : (f x).Within (fun _ => True) A (fun _ => False) E) :
    ∀ before : List ι, ((before ++ x :: after).forM f).Shares A E (fun _ _ => False)
      (before.forM f)
  | [] => .leaves (Within.bind hx fun _ h => h.elim)
  | y :: before => by
    refine Shares.bind (.refl (f y)) fun _ _ _ => ?_
    exact Shares.forM_stops after hx before

end Raising

/-! ## What it means for a run -/

namespace Machine

variable {σ ι χ : Type} {m : Machine S σ ι χ}

/-- **Each step of the program's own is one of the statements it issues.** -/
theorem Exec.within [DecidableEq ι] {I : S.Op → Prop} {A : (o : S.Op) → S.Res o → Prop}
    {V : α → Prop} {i : ι} {x : Prog S α} {c c' : Config S σ ι} {tr : List (σ × σ)} {a : α}
    (h : m.Exec i x c tr a c') : x.Within I A V →
      (∀ q ∈ tr, ∀ o r, I o → m.sem i o q.1 r q.2 → A o r) →
        V a ∧ ∀ q ∈ tr, ∃ o r, I o ∧ A o r ∧ m.sem i o q.1 r q.2 := by
  induction h with
  | ret a c => exact fun hv _ => ⟨hv, by simp⟩
  | @own o k c c' s₁ r tr a hs _ ih =>
    intro hw hA
    have hr := hA _ List.mem_cons_self o r hw.1 hs
    obtain ⟨hv, hq⟩ := ih (hw.2 r hr) fun q hq => hA q (List.mem_cons_of_mem _ hq)
    refine ⟨hv, fun q hm => ?_⟩
    rcases List.mem_cons.mp hm with rfl | hm
    · exact ⟨o, r, hw.1, hr, hs⟩
    · exact hq q hm
  | other _ _ _ ih => exact ih

variable (m) in
/-- What the program ends with when its statements meet these states. -/
def answers (i : ι) : Prog S α → List (χ × σ) → Option α
  | .ret a, _ => some a
  | .call _ _, [] => none
  | .call o k, (ch, s) :: ms => (m.exec i o ch s).bind fun p => answers i (k p.1) ms

/-- A run's answer, from the states it met. -/
theorem Exec.answers [DecidableEq ι] {i : ι} {x : Prog S α} {c c' : Config S σ ι}
    {tr : List (σ × σ)} {a : α} (h : m.Exec i x c tr a c') :
    ∃ ms : List (χ × σ), ms.map Prod.snd = tr.map Prod.fst ∧ m.answers i x ms = some a := by
  induction h with
  | ret a c => exact ⟨[], rfl, rfl⟩
  | @own o k c c' s₁ r tr a hs _ ih =>
    obtain ⟨ch, hch⟩ := hs
    obtain ⟨ms, hms, ha⟩ := ih
    refine ⟨(ch, c.store) :: ms, by simp [hms], ?_⟩
    simp only [Machine.answers, hch, Option.bind_some, ha]
  | other _ _ _ ih => exact ih

/-- **A run of a program that shares its beginning with another.** It ends as in `V`, or the other
    program, meeting the same states, ends too and the answers are related. -/
theorem Exec.shares [DecidableEq ι] {A : (o : S.Op) → S.Res o → Prop} {V : α → Prop}
    {R : α → β → Prop} {i : ι} {x : Prog S α} {c c' : Config S σ ι} {tr : List (σ × σ)} {a : α}
    (h : m.Exec i x c tr a c') : ∀ {y : Prog S β}, x.Shares A V R y →
      (∀ q ∈ tr, ∀ o r, m.sem i o q.1 r q.2 → A o r) →
        V a ∨ ∃ (b : β) (ms : List (χ × σ)), ms.map Prod.snd = tr.map Prod.fst ∧
          m.answers i y ms = some b ∧ R a b := by
  induction h with
  | ret a c =>
    intro y hs _
    cases hs with
    | ret hab => exact .inr ⟨_, [], rfl, rfl, hab⟩
    | leaves hv => exact .inl hv
  | @own o k c c' s₁ r tr a hs hexec ih =>
    intro y hshares hA
    cases hshares with
    | leaves hx =>
      refine .inl ((Exec.own hs hexec).within hx fun q hq o r _ h => hA q hq o r h).1
    | @call _ _ k' hk =>
      have hr := hA _ List.mem_cons_self o r hs
      rcases ih (hk r hr) fun q hq => hA q (List.mem_cons_of_mem _ hq) with hv | h
      · exact .inl hv
      · obtain ⟨b, ms, hms, hans, hab⟩ := h
        obtain ⟨ch, hch⟩ := hs
        refine .inr ⟨b, (ch, c.store) :: ms, by simp [hms], ?_, hab⟩
        simp only [Machine.answers, hch, Option.bind_some, hans]
  | other _ _ _ ih => exact ih

/-- **Two runs.** On states that answer the program's statements alike it ends alike. -/
theorem answers_congr {I : S.Op → Prop} {A : (o : S.Op) → S.Res o → Prop} {V : α → Prop} {i : ι}
    {D : σ → σ → Prop}
    (hD : ∀ s s' o ch r s₁, D s s' → I o → m.exec i o ch s = some (r, s₁) →
      A o r ∧ ∃ s₁', m.exec i o ch s' = some (r, s₁')) {ms ms' : List (χ × σ)}
    (hms : List.Forall₂ (fun p p' => p'.1 = p.1 ∧ D p.2 p'.2) ms ms') {a : α} :
    ∀ {x : Prog S α}, x.Within I A V → m.answers i x ms = some a → m.answers i x ms' = some a := by
  induction hms with
  | nil =>
    intro x _ h
    cases x with
    | ret b => exact h
    | call o k => exact absurd h (by simp [Machine.answers])
  | @cons p p' ms ms' hp _ ih =>
    intro x hx h
    cases x with
    | ret b => exact h
    | call o k =>
      obtain ⟨ch, s⟩ := p
      obtain ⟨ch', s'⟩ := p'
      obtain ⟨rfl, hd⟩ := hp
      simp only [Machine.answers, Option.bind_eq_some_iff] at h ⊢
      obtain ⟨⟨r, s₁⟩, he, hk⟩ := h
      obtain ⟨hr, s₁', he'⟩ := hD s s' o ch' r s₁ hd hx.1 he
      exact ⟨⟨r, s₁'⟩, he', ih (hx.2 r hr) hk⟩

end Machine

end HyChat.Lib
