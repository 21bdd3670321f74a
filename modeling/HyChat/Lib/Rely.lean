import HyChat.Lib.Prog

/-!
# Rely–guarantee triples for interleaved programs

The proof rules for a program whose statements are interleaved with those of other parties.

A `Party` says what one program may assume and must promise. Its states `τ` may carry more than
the machine's own state `σ`: `real` forgets the auxiliary part, and every statement of the
program is answered with *some* auxiliary successor, chosen by the proof. Where nothing
auxiliary is needed `τ` is `σ` and `real` is the identity.

* `inv` holds between any two statements of anybody;
* `rely` is what one statement of somebody else may do;
* `guar` is what every statement of this program does.

`Party.wp` is the weakest precondition by recursion on the tree, closed under interference after
each statement. Proofs never unfold it: they use the rules for `Party.Triple`, one per program
former, whose only side condition is that the assertion standing before a statement is stable.

The three soundness theorems at the end are what a triple is for: `GoodBut.steps` for any number
of parties, `GoodBut.exec` for one program among the others, and `Solo.post` for one program
alone.
-/

set_option autoImplicit false

namespace HyChat.Lib

open Relation

/-- What one program assumes of the others and promises to them. -/
structure Party (S : Sig) (σ τ : Type) where
  sem : (o : S.Op) → σ → S.Res o → σ → Prop
  real : τ → σ
  inv : τ → Prop
  rely : τ → τ → Prop
  guar : τ → τ → Prop

namespace Party

variable {S : Sig} {σ τ α β ε : Type} (p : Party S σ τ)

/-- Any number of statements of the others, the invariant holding after each. -/
def Interf : τ → τ → Prop := ReflTransGen fun t t' => p.rely t t' ∧ p.inv t'

/-- `P` survives a statement of anybody else. -/
def Stable (P : τ → Prop) : Prop :=
  ∀ t t', p.inv t → p.inv t' → p.rely t t' → P t → P t'

def wp : Prog S α → (α → τ → Prop) → τ → Prop
  | .ret a, Q, t => Q a t
  | .call o k, Q, t => ∀ r s', p.sem o (p.real t) r s' →
      ∃ t', p.real t' = s' ∧ p.inv t' ∧ p.guar t t' ∧ ∀ t'', p.Interf t' t'' → wp (k r) Q t''

/-- **The triple.** From a state with `P`, whatever the others do before and between the
    statements of `c`, each statement keeps the promise and the answer satisfies `Q`. -/
def Triple (P : τ → Prop) (c : Prog S α) (Q : α → τ → Prop) : Prop :=
  ∀ t, p.inv t → P t → ∀ t', p.Interf t t' → p.wp c Q t'

variable {p}

theorem Interf.inv {t t' : τ} (h : p.Interf t t') (hi : p.inv t) : p.inv t' := by
  induction h with
  | refl => exact hi
  | tail _ hs _ => exact hs.2

theorem Stable.interf {P : τ → Prop} (hP : p.Stable P) {t t' : τ} (h : p.Interf t t')
    (hi : p.inv t) (ht : P t) : P t' := by
  induction h with
  | refl => exact ht
  | tail hs hst ih => exact hP _ _ (Interf.inv hs hi) hst.2 hst.1 ih

/-! ## Stability of compound assertions -/

theorem Stable.and {P Q : τ → Prop} (hP : p.Stable P) (hQ : p.Stable Q) :
    p.Stable fun t => P t ∧ Q t :=
  fun t t' hi hi' hr h => ⟨hP t t' hi hi' hr h.1, hQ t t' hi hi' hr h.2⟩

theorem Stable.or {P Q : τ → Prop} (hP : p.Stable P) (hQ : p.Stable Q) :
    p.Stable fun t => P t ∨ Q t :=
  fun t t' hi hi' hr h => h.imp (hP t t' hi hi' hr) (hQ t t' hi hi' hr)

theorem Stable.exists {ι : Sort*} {P : ι → τ → Prop} (hP : ∀ x, p.Stable (P x)) :
    p.Stable fun t => ∃ x, P x t :=
  fun t t' hi hi' hr ⟨x, h⟩ => ⟨x, hP x t t' hi hi' hr h⟩

theorem Stable.forall {ι : Sort*} {P : ι → τ → Prop} (hP : ∀ x, p.Stable (P x)) :
    p.Stable fun t => ∀ x, P x t :=
  fun t t' hi hi' hr h x => hP x t t' hi hi' hr (h x)

theorem Stable.pure (φ : Prop) : p.Stable fun _ => φ := fun _ _ _ _ _ h => h

/-! ## The weakest precondition -/

theorem wp_mono {Q Q' : α → τ → Prop} (hQ : ∀ a t, p.inv t → Q a t → Q' a t) :
    ∀ (c : Prog S α) {t : τ}, p.inv t → p.wp c Q t → p.wp c Q' t := by
  intro c
  induction c with
  | ret a => exact fun hi h => hQ a _ hi h
  | call o k ih =>
    intro t _ h r s' hs
    obtain ⟨t', hr, hi', hg, hk⟩ := h r s' hs
    exact ⟨t', hr, hi', hg, fun t'' ht => ih r (Interf.inv ht hi') (hk t'' ht)⟩

theorem wp_bind {M : α → τ → Prop} {Q : β → τ → Prop} {f : α → Prog S β}
    (hf : ∀ a t, p.inv t → M a t → p.wp (f a) Q t) :
    ∀ (c : Prog S α) {t : τ}, p.inv t → p.wp c M t → p.wp (c.bind f) Q t := by
  intro c
  induction c with
  | ret a => exact fun hi h => hf a _ hi h
  | call o k ih =>
    intro t _ h r s' hs
    obtain ⟨t', hr, hi', hg, hk⟩ := h r s' hs
    exact ⟨t', hr, hi', hg, fun t'' ht => ih r (Interf.inv ht hi') (hk t'' ht)⟩

/-! ## The rules -/

namespace Triple

/-- A triple holds at the state itself: no interference is interference of length zero. -/
theorem here {P : τ → Prop} {c : Prog S α} {Q : α → τ → Prop} (h : p.Triple P c Q) {t : τ}
    (hi : p.inv t) (ht : P t) : p.wp c Q t := h t hi ht t .refl

theorem ret {P : τ → Prop} {Q : α → τ → Prop} {a : α} (hP : p.Stable P)
    (h : ∀ t, p.inv t → P t → Q a t) : p.Triple P (.ret a) Q :=
  fun _ hi ht t' hr => h t' (Interf.inv hr hi) (hP.interf hr hi ht)

/-- **One statement.** `M` is what the statement leaves behind; it need not be stable itself,
    the continuation's own triple asks for what stability it needs. -/
theorem call {P : τ → Prop} {o : S.Op} {k : S.Res o → Prog S α} {M : S.Res o → τ → Prop}
    {Q : α → τ → Prop} (hP : p.Stable P)
    (hstep : ∀ t r s', p.inv t → P t → p.sem o (p.real t) r s' →
      ∃ t', p.real t' = s' ∧ p.inv t' ∧ p.guar t t' ∧ M r t')
    (hk : ∀ r, p.Triple (M r) (k r) Q) : p.Triple P (.call o k) Q := by
  intro t hi ht t' hr r s' hs
  obtain ⟨t₁, hr₁, hi₁, hg, hM⟩ := hstep t' r s' (Interf.inv hr hi) (hP.interf hr hi ht) hs
  exact ⟨t₁, hr₁, hi₁, hg, fun t'' ht'' => hk r t₁ hi₁ hM t'' ht''⟩

theorem perform {P : τ → Prop} {o : S.Op} {Q : S.Res o → τ → Prop} (hP : p.Stable P)
    (hQ : ∀ r, p.Stable (Q r))
    (hstep : ∀ t r s', p.inv t → P t → p.sem o (p.real t) r s' →
      ∃ t', p.real t' = s' ∧ p.inv t' ∧ p.guar t t' ∧ Q r t') : p.Triple P (.perform o) Q :=
  .call hP hstep fun r => .ret (hQ r) fun _ _ h => h

theorem bind {P : τ → Prop} {c : Prog S α} {M : α → τ → Prop} {f : α → Prog S β}
    {Q : β → τ → Prop} (hc : p.Triple P c M) (hf : ∀ a, p.Triple (M a) (f a) Q) :
    p.Triple P (c.bind f) Q :=
  fun t hi ht t' hr => wp_bind (fun a _ hi' hM => (hf a).here hi' hM) c (Interf.inv hr hi)
    (hc t hi ht t' hr)

theorem conseq {P P' : τ → Prop} {c : Prog S α} {Q Q' : α → τ → Prop} (hc : p.Triple P c Q)
    (hP : ∀ t, p.inv t → P' t → P t) (hQ : ∀ a t, p.inv t → Q a t → Q' a t) :
    p.Triple P' c Q' :=
  fun t hi ht t' hr => wp_mono hQ c (Interf.inv hr hi) (hc t hi (hP t hi ht) t' hr)

theorem pre {P P' : τ → Prop} {c : Prog S α} {Q : α → τ → Prop} (hc : p.Triple P c Q)
    (hP : ∀ t, p.inv t → P' t → P t) : p.Triple P' c Q :=
  hc.conseq hP fun _ _ _ h => h

theorem post {P : τ → Prop} {c : Prog S α} {Q Q' : α → τ → Prop} (hc : p.Triple P c Q)
    (hQ : ∀ a t, p.inv t → Q a t → Q' a t) : p.Triple P c Q' :=
  hc.conseq (fun _ _ h => h) hQ

theorem exists_pre {ι : Sort*} {P : ι → τ → Prop} {c : Prog S α} {Q : α → τ → Prop}
    (h : ∀ x, p.Triple (P x) c Q) : p.Triple (fun t => ∃ x, P x t) c Q :=
  fun t hi ⟨x, hx⟩ => h x t hi hx

/-- A fact about no state moves out of the precondition. -/
theorem pure_pre {φ : Prop} {P : τ → Prop} {c : Prog S α} {Q : α → τ → Prop}
    (h : φ → p.Triple P c Q) : p.Triple (fun t => φ ∧ P t) c Q :=
  fun t hi ht => h ht.1 t hi ht.2

theorem or_pre {P P' : τ → Prop} {c : Prog S α} {Q : α → τ → Prop} (h : p.Triple P c Q)
    (h' : p.Triple P' c Q) : p.Triple (fun t => P t ∨ P' t) c Q :=
  fun t hi ht => ht.elim (h t hi) (h' t hi)

/-- A program under a stronger promise meets a weaker one. -/
theorem weaken {G : τ → τ → Prop} {P : τ → Prop} {c : Prog S α} {Q : α → τ → Prop}
    (h : ({ p with guar := G } : Party S σ τ).Triple P c Q) (hG : ∀ t t', G t t' → p.guar t t') :
    p.Triple P c Q := by
  have hwp : ∀ (c : Prog S α) (t : τ), ({ p with guar := G } : Party S σ τ).wp c Q t →
      p.wp c Q t := by
    intro c
    induction c with
    | ret a => exact fun _ h => h
    | call o k ih =>
      intro t h r s' hs
      obtain ⟨t', hr, hi', hg, hk⟩ := h r s' hs
      exact ⟨t', hr, hi', hG t t' hg, fun t'' ht => ih r t'' (hk t'' ht)⟩
  exact fun t hi ht t' hr => hwp c t' (h t hi ht t' hr)

/-- **Frame.** What neither the others nor the program's own statements disturb is still there
    at the end. -/
theorem frame {P F : τ → Prop} {c : Prog S α} {Q : α → τ → Prop} (h : p.Triple P c Q)
    (hF : p.Stable F) (hG : ∀ t t', p.inv t → p.inv t' → p.guar t t' → F t → F t') :
    p.Triple (fun t => P t ∧ F t) c fun a t => Q a t ∧ F t := by
  have hwp : ∀ (c : Prog S α) (t : τ), p.inv t → F t → p.wp c Q t →
      p.wp c (fun a t => Q a t ∧ F t) t := by
    intro c
    induction c with
    | ret a => exact fun _ _ hf h => ⟨h, hf⟩
    | call o k ih =>
      intro t hi hf h r s' hs
      obtain ⟨t', hr, hi', hg, hk⟩ := h r s' hs
      exact ⟨t', hr, hi', hg, fun t'' ht => ih r t'' (Interf.inv ht hi')
        (hF.interf ht hi' (hG t t' hi hi' hg hf)) (hk t'' ht)⟩
  exact fun t hi ht t' hr =>
    hwp c t' (Interf.inv hr hi) (hF.interf hr hi ht.2) (h t hi ht.1 t' hr)

end Triple

/-! ## Programs that raise -/

/-- `Q` for a value, `E` for an exception. -/
def Ends (Q : α → τ → Prop) (E : ε → τ → Prop) : Except ε α → τ → Prop
  | .ok a => Q a
  | .error e => E e

variable (p) in
/-- **The triple of a program that may raise**, with one postcondition for each way to end. -/
def Spec (P : τ → Prop) (x : Raising S ε α) (Q : α → τ → Prop) (E : ε → τ → Prop) : Prop :=
  p.Triple P x.attempt (Ends Q E)

namespace Spec

variable {P P' : τ → Prop} {Q Q' : α → τ → Prop} {E E' : ε → τ → Prop}

theorem pure {a : α} (hP : p.Stable P) (h : ∀ t, p.inv t → P t → Q a t) :
    p.Spec P (Pure.pure a : Raising S ε α) Q E := Triple.ret hP h

theorem throw {e : ε} (hP : p.Stable P) (h : ∀ t, p.inv t → P t → E e t) :
    p.Spec P (MonadExcept.throw e : Raising S ε α) Q E := Triple.ret hP h

theorem bind {x : Raising S ε α} {M : α → τ → Prop} {f : α → Raising S ε β}
    {Q : β → τ → Prop} (hx : p.Spec P x M E) (hf : ∀ a, p.Spec (M a) (f a) Q E) :
    p.Spec P (x >>= f) Q E := by
  intro t hi ht t' hr
  rw [Raising.attempt, Raising.bind_eq]
  refine wp_bind (fun r t₁ hi₁ hM => ?_) x (Interf.inv hr hi) (hx t hi ht t' hr)
  cases r with
  | ok a => exact (hf a).here hi₁ hM
  | error e => exact hM

/-- A handler: the body's exceptions go on in the handler, its values come out. -/
theorem handle {x : Raising S ε α} {h : ε → Raising S ε α} (hx : p.Spec P x Q E)
    (hh : ∀ e, p.Spec (E e) (h e) Q E') : p.Spec P (tryCatch x h) Q E' := by
  intro t hi ht t' hr
  rw [Raising.attempt, Raising.tryCatch_eq]
  refine wp_bind (fun r t₁ hi₁ hM => ?_) x (Interf.inv hr hi) (hx t hi ht t' hr)
  cases r with
  | ok a => exact hM
  | error e => exact (hh e).here hi₁ hM

/-- A loop over a list: `J` is the loop invariant, indexed by what is left to do. -/
theorem forM {ι : Type} {J : List ι → τ → Prop} {f : ι → Raising S ε PUnit}
    (hJ : p.Stable (J [])) : ∀ xs : List ι,
      (∀ x ∈ xs, ∀ ys, p.Spec (J (x :: ys)) (f x) (fun _ => J ys) E) →
        p.Spec (J xs) (xs.forM f) (fun _ => J []) E := by
  intro xs
  induction xs with
  | nil => exact fun _ => Spec.pure hJ fun _ _ h => h
  | cons x xs ih =>
    intro hf
    exact Spec.bind (hf x List.mem_cons_self xs) fun _ =>
      ih fun y hy => hf y (List.mem_cons_of_mem _ hy)

theorem conseq {x : Raising S ε α} (h : p.Spec P x Q E) (hP : ∀ t, p.inv t → P' t → P t)
    (hQ : ∀ a t, p.inv t → Q a t → Q' a t) (hE : ∀ e t, p.inv t → E e t → E' e t) :
    p.Spec P' x Q' E' :=
  Triple.conseq h hP fun
    | .ok a => hQ a
    | .error e => hE e

theorem pre {x : Raising S ε α} (h : p.Spec P x Q E) (hP : ∀ t, p.inv t → P' t → P t) :
    p.Spec P' x Q E :=
  h.conseq hP (fun _ _ _ h => h) fun _ _ _ h => h

theorem post {x : Raising S ε α} (h : p.Spec P x Q E)
    (hQ : ∀ a t, p.inv t → Q a t → Q' a t) : p.Spec P x Q' E :=
  h.conseq (fun _ _ h => h) hQ fun _ _ _ h => h

theorem pure_pre {φ : Prop} {x : Raising S ε α} (h : φ → p.Spec P x Q E) :
    p.Spec (fun t => φ ∧ P t) x Q E := Triple.pure_pre h

theorem or_pre {x : Raising S ε α} (h : p.Spec P x Q E) (h' : p.Spec P' x Q E) :
    p.Spec (fun t => P t ∨ P' t) x Q E := Triple.or_pre h h'

theorem exists_pre {ι : Sort*} {P : ι → τ → Prop} {x : Raising S ε α}
    (h : ∀ y, p.Spec (P y) x Q E) : p.Spec (fun t => ∃ y, P y t) x Q E := Triple.exists_pre h

theorem weaken {G : τ → τ → Prop} {x : Raising S ε α}
    (h : ({ p with guar := G } : Party S σ τ).Spec P x Q E)
    (hG : ∀ t t', G t t' → p.guar t t') : p.Spec P x Q E := Triple.weaken h hG

end Spec

end Party

/-! ## Soundness -/

namespace Machine

variable {S : Sig} {σ τ ι χ α : Type} [DecidableEq ι] {m : Machine S σ ι χ}

/-- A family of parties that fits together: one machine, one set of auxiliary states, one
    invariant, and each party's promise is what every other one relies on. -/
structure Family (m : Machine S σ ι χ) (τ : Type) where
  real : τ → σ
  inv : τ → Prop
  rely : ι → τ → τ → Prop
  guar : ι → τ → τ → Prop
  guar_rely : ∀ {i j t t'}, i ≠ j → inv t → inv t' → guar i t t' → rely j t t'
  halt : ∀ i t, inv t → ∃ t', real t' = m.halt i (real t) ∧ inv t' ∧ guar i t t'

namespace Family

variable (F : m.Family τ)

/-- The party that session `i` is. -/
def party (i : ι) : Party S σ τ where
  sem := m.sem i
  real := F.real
  inv := F.inv
  rely := F.rely i
  guar := F.guar i

/-- Everybody's remaining program, except that of the parties in `out`, is safe from here,
    whatever the others do. -/
structure GoodBut (out : ι → Prop) (c : Config S σ ι) (t : τ) : Prop where
  real : F.real t = c.store
  inv : F.inv t
  safe : ∀ i, ¬ out i → ∀ t', (F.party i).Interf t t' →
    (F.party i).wp (c.prog i) (fun _ _ => True) t'

/-- Everybody's remaining program is safe from here. -/
abbrev Good (c : Config S σ ι) (t : τ) : Prop := F.GoodBut (fun _ => False) c t

/-- One statement of anybody, the invariant holding after it. -/
def Move (t t' : τ) : Prop := (∃ i, F.guar i t t') ∧ F.inv t'

variable {F}

/-- A configuration stays good when one party moves and keeps its promise: only that party's own
    remaining program has to be looked at again. -/
theorem GoodBut.moved {out : ι → Prop} {c : Config S σ ι} {t t' : τ} {i : ι} {s' : σ}
    {prog : ι → Prog S Unit} (h : F.GoodBut out c t) (hr : F.real t' = s') (hi : F.inv t')
    (hg : F.guar i t t') (hsame : ∀ j, j ≠ i → prog j = c.prog j)
    (hself : ¬ out i → ∀ t'', (F.party i).Interf t' t'' →
      (F.party i).wp (prog i) (fun _ _ => True) t'') :
    F.GoodBut out ⟨s', prog⟩ t' := by
  refine ⟨hr, hi, fun j hj t'' ht => ?_⟩
  by_cases hji : j = i
  · subst hji
    exact hself hj t'' ht
  · show (F.party j).wp (prog j) _ t''
    rw [hsame j hji]
    exact h.safe j hj t'' (.head ⟨F.guar_rely (Ne.symm hji) h.inv hi hg, hi⟩ ht)

theorem GoodBut.step {out : ι → Prop} {c c' : Config S σ ι} {t : τ} {i : ι}
    (h : F.GoodBut out c t) (hi : ¬ out i) (hs : m.Step i c c') :
    ∃ t', F.GoodBut out c' t' ∧ F.guar i t t' := by
  rcases m.step_cases hs with rfl | ⟨o, k, r, s', hp, hsem, rfl⟩
  · obtain ⟨t', hr, hi', hg⟩ := F.halt i t h.inv
    refine ⟨t', h.moved (by rw [hr, h.real]) hi' hg (fun j hj => Function.update_of_ne hj _ _)
      fun _ t'' _ => ?_, hg⟩
    simp [Party.wp]
  · have hwp := h.safe i hi t .refl
    rw [hp] at hwp
    obtain ⟨t', hr, hi', hg, hk⟩ := hwp r s' (by rw [← h.real] at hsem; exact hsem)
    refine ⟨t', h.moved hr hi' hg (fun j hj => Function.update_of_ne hj _ _)
      fun _ t'' ht => ?_, hg⟩
    rw [Function.update_self]
    exact hk t'' ht

/-- **Safety of any number of parties.** A run from a good configuration stays good, and the
    states it goes through are linked by promises. -/
theorem GoodBut.steps {c c' : Config S σ ι} {t : τ} (h : F.Good c t) (hs : m.Steps c c') :
    ∃ t', F.Good c' t' ∧ ReflTransGen F.Move t t' := by
  induction hs with
  | refl => exact ⟨t, h, .refl⟩
  | tail _ hst ih =>
    obtain ⟨t₁, h₁, hm⟩ := ih
    obtain ⟨i, hi⟩ := hst
    obtain ⟨t₂, h₂, hg⟩ := h₁.step id hi
    exact ⟨t₂, h₂, hm.tail ⟨⟨i, hg⟩, h₂.inv⟩⟩

omit [DecidableEq ι] in
theorem good_of_triples {s : σ} {prog : ι → Prog S Unit} {t : τ} (hr : F.real t = s)
    (hi : F.inv t) {P : ι → τ → Prop} (hP : ∀ i, P i t)
    (h : ∀ i, (F.party i).Triple (P i) (prog i) fun _ _ => True) : F.Good ⟨s, prog⟩ t :=
  ⟨hr, hi, fun i _ t' ht => h i t hi (hP i) t' ht⟩

omit [DecidableEq ι] in
theorem GoodBut.mono {out out' : ι → Prop} {c : Config S σ ι} {t : τ} (h : F.GoodBut out c t)
    (ho : ∀ i, out i → out' i) : F.GoodBut out' c t :=
  ⟨h.real, h.inv, fun i hi => h.safe i fun hn => hi (ho i hn)⟩

/-- **One program among the others.** Party `i` runs `c` to its end in a system whose other
    parties are good: its own changes keep the (possibly stronger) promise `G`, its answer
    satisfies the postcondition, and the others are good still. -/
theorem GoodBut.exec {i : ι} {G : τ → τ → Prop} (hG : ∀ t t', G t t' → F.guar i t t')
    {p : Prog S α} {Q : α → τ → Prop} {c c' : Config S σ ι} {tr : List (σ × σ)} {a : α}
    (h : m.Exec i p c tr a c') :
    ∀ t, F.GoodBut (· = i) c t →
      (∀ t', (F.party i).Interf t t' → ({ F.party i with guar := G } : Party S σ τ).wp p Q t') →
      ∃ t', F.GoodBut (· = i) c' t' ∧ Q a t' ∧ ReflTransGen F.Move t t' ∧
        ∀ x ∈ tr, ∃ t₁ t₂, F.real t₁ = x.1 ∧ F.real t₂ = x.2 ∧ F.inv t₁ ∧ F.inv t₂ ∧
          G t₁ t₂ ∧ ReflTransGen F.Move t t₁ := by
  induction h with
  | ret a c => exact fun t hg hwp => ⟨t, hg, hwp t .refl, .refl, by simp⟩
  | @own o k c c' s₁ r tr a hs _ ih =>
    intro t hgood hwp
    obtain ⟨t₁, hr₁, hi₁, hg, hk⟩ := hwp t .refl r s₁ (by
      show m.sem i o (F.real t) r s₁
      rw [hgood.real]
      exact hs)
    obtain ⟨t', hgood', hQ, hmv, htr⟩ := ih t₁
      (hgood.moved (c := c) hr₁ hi₁ (hG t t₁ hg) (fun _ _ => rfl) fun hn => absurd rfl hn) hk
    refine ⟨t', hgood', hQ, .head ⟨⟨i, hG t t₁ hg⟩, hi₁⟩ hmv, fun x hx => ?_⟩
    rcases List.mem_cons.mp hx with rfl | hx
    · exact ⟨t, t₁, hgood.real, hr₁, hgood.inv, hi₁, hg, .refl⟩
    · obtain ⟨u₁, u₂, h₁, h₂, h₃, h₄, h₅, hpath⟩ := htr x hx
      exact ⟨u₁, u₂, h₁, h₂, h₃, h₄, h₅, .head ⟨⟨i, hG t t₁ hg⟩, hi₁⟩ hpath⟩
  | other hj hst _ ih =>
    intro t hgood hwp
    obtain ⟨t₁, hgood₁, hg⟩ := hgood.step hj hst
    have hrel := F.guar_rely hj hgood.inv hgood₁.inv hg
    obtain ⟨t', hgood', hQ, hmv, htr⟩ := ih t₁ hgood₁
      fun t' ht => hwp t' (.head ⟨hrel, hgood₁.inv⟩ ht)
    refine ⟨t', hgood', hQ, .head ⟨⟨_, hg⟩, hgood₁.inv⟩ hmv, fun x hx => ?_⟩
    obtain ⟨u₁, u₂, h₁, h₂, h₃, h₄, h₅, hpath⟩ := htr x hx
    exact ⟨u₁, u₂, h₁, h₂, h₃, h₄, h₅, .head ⟨⟨_, hg⟩, hgood₁.inv⟩ hpath⟩

end Family

omit [DecidableEq ι] in
/-- **One program alone.** A triple read without any interference. -/
theorem Solo.post {p : Party S σ τ} {i : ι} (hsem : p.sem = m.sem i) {c : Prog S α}
    {Q : α → τ → Prop} {s s' : σ} {a : α} (h : m.Solo i c s a s') :
    ∀ t, p.real t = s → p.inv t → p.wp c Q t →
      ∃ t', p.real t' = s' ∧ p.inv t' ∧ Q a t' ∧
        ReflTransGen (fun t t' => p.guar t t' ∧ p.inv t') t t' := by
  induction h with
  | ret a s => exact fun t hr hi hwp => ⟨t, hr, hi, hwp, .refl⟩
  | @own o k s s₁ s' r a hs _ ih =>
    intro t hr hi hwp
    obtain ⟨t₁, hr₁, hi₁, hg, hk⟩ := hwp r s₁ (by rw [hsem, hr]; exact hs)
    obtain ⟨t', hr', hi', hQ, hmv⟩ := ih t₁ hr₁ hi₁ (hk t₁ .refl)
    exact ⟨t', hr', hi', hQ, .head ⟨hg, hi₁⟩ hmv⟩

end Machine

end HyChat.Lib
