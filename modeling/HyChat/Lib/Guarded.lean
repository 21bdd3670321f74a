import HyChat.Lib.Suite

/-!
# What has been done before a statement is issued

A program is *guarded* by a relation between statements and histories when every statement it
issues, in any run and also in one that breaks off, stands in the relation to what has been issued
before. A suite only issues statements of a kind when the relation does not look at the history.

The rules go along the code: what follows a part may use how that part has ended. Where the parties
of a machine are guarded, what every due statement keeps holds whatever the order of the statements.

Being guarded is about programs and not about runs, since a run that breaks off has issued a
beginning of what a program would have. A relation that looks at the history is what makes it
useful, and what makes it hard to compose: `after` asks for the relation at a longer history, with
what is known of it.
-/

set_option autoImplicit false

namespace HyChat.Lib

namespace Prog

variable {S : Sig} {α β : Type}

/-- Every statement stands in the relation to the statements before it, with their answers. -/
def Guarded (P : List (Σ o : S.Op, S.Res o) → S.Op → Prop) :
    List (Σ o : S.Op, S.Res o) → Prog S α → Prop
  | _, .ret _ => True
  | past, .call o k => P past o ∧ ∀ r, Guarded P (past ++ [⟨o, r⟩]) (k r)

variable {P Q : List (Σ o : S.Op, S.Res o) → S.Op → Prop} {past : List (Σ o : S.Op, S.Res o)}

theorem Guarded.mono (hPQ : ∀ past o, P past o → Q past o) {x : Prog S α}
    (h : Guarded P past x) : Guarded Q past x := by
  induction x generalizing past with
  | ret a => trivial
  | call o k ih => exact ⟨hPQ past o h.1, fun r => ih r (h.2 r)⟩

/-- A relation that holds after every history that goes on from this one -/
theorem Guarded.after {K : S.Op → Prop} {x : Prog S α} (h : Guarded (fun _ o => K o) past x)
    (hP : ∀ rest o, K o → P (past ++ rest) o) : Guarded P past x := by
  induction x generalizing past with
  | ret a => trivial
  | call o k ih =>
    refine ⟨?_, fun r => ih r (h.2 r) fun rest o' hK => ?_⟩
    · rw [← List.append_nil past]
      exact hP [] o h.1
    · rw [List.append_assoc]
      exact hP _ o' hK

theorem Guarded.bind {x : Prog S α} {f : α → Prog S β} (hx : Guarded P past x)
    (hf : ∀ log a, Path x log a → Guarded P (past ++ log) (f a)) : Guarded P past (x.bind f) := by
  induction x generalizing past with
  | ret a =>
    have hfa := hf [] a (.ret a)
    rwa [List.append_nil] at hfa
  | call o k ih =>
    refine ⟨hx.1, fun r => ih r (hx.2 r) fun log a hpath => ?_⟩
    rw [List.append_assoc]
    exact hf _ a (.call hpath)

/-- The statements of a whole run -/
theorem Guarded.of_path {x : Prog S α} (h : Guarded P past x) {log : List (Σ o : S.Op, S.Res o)}
    {a : α} (hpath : Path x log a) {before rest : List (Σ o : S.Op, S.Res o)}
    {e : Σ o : S.Op, S.Res o} (he : log = before ++ e :: rest) : P (past ++ before) e.1 := by
  induction hpath generalizing past before with
  | ret a => exact absurd he (by simp)
  | @call o k r log a _ ih =>
    cases before with
    | nil =>
      obtain ⟨rfl, rfl⟩ := List.cons.inj he
      rw [List.append_nil]
      exact h.1
    | cons first before =>
      obtain ⟨rfl, rfl⟩ := List.cons.inj he
      have hrest := ih (h.2 r) rfl
      rwa [List.append_assoc] at hrest

end Prog

/-! ## Machines that remember what was issued -/

namespace Machine

variable {S : Sig} {σ ι χ : Type} [DecidableEq ι]

/-- The store tells what every party has issued so far. -/
structure Recording (m : Machine S σ ι χ) (past : σ → ι → List (Σ o : S.Op, S.Res o)) : Prop where
  exec : ∀ {i : ι} {o : S.Op} {s s' : σ} {r : S.Res o}, m.sem i o s r s' →
    past s' = Function.update (past s) i (past s i ++ [⟨o, r⟩])
  halt : ∀ i s, past (m.halt i s) = past s

variable {m : Machine S σ ι χ} {past : σ → ι → List (Σ o : S.Op, S.Res o)}
  {P : ι → List (Σ o : S.Op, S.Res o) → S.Op → Prop} {I : σ → Prop}

/-- What is left of every party's program is guarded by what the party has issued. -/
def AllGuarded (past : σ → ι → List (Σ o : S.Op, S.Res o))
    (P : ι → List (Σ o : S.Op, S.Res o) → S.Op → Prop) (c : Config S σ ι) : Prop :=
  ∀ i, Prog.Guarded (P i) (past c.store i) (c.prog i)

theorem Recording.step (h : m.Recording past) {c c' : Config S σ ι} (hstep : m.AnyStep c c')
    (hguarded : AllGuarded past P c) (hI : I c.store) (hhalt : ∀ i s, I s → I (m.halt i s))
    (hkeeps : ∀ i o s r s', I s → P i (past s i) o → m.sem i o s r s' → I s') :
    AllGuarded past P c' ∧ I c'.store := by
  obtain ⟨i, hi⟩ := hstep
  rcases m.step_cases hi with rfl | ⟨o, k, r, s', hprog, hsem, rfl⟩
  · refine ⟨fun j => ?_, hhalt i _ hI⟩
    simp only [h.halt]
    rcases eq_or_ne j i with rfl | hj
    · simp only [Function.update_self]
      trivial
    · simpa only [Function.update_of_ne hj] using hguarded j
  · have hdue := hguarded i
    rw [hprog] at hdue
    refine ⟨fun j => ?_, hkeeps i o _ r s' hI hdue.1 hsem⟩
    simp only [h.exec hsem]
    rcases eq_or_ne j i with rfl | hj
    · simp only [Function.update_self]
      exact hdue.2 r
    · simpa only [Function.update_of_ne hj] using hguarded j

/-- **The rule for guarded parties.** What every statement keeps that is issued when it is due holds
    in every reachable store. -/
theorem Recording.invariant (h : m.Recording past) {c₀ c : Config S σ ι} (hsteps : m.Steps c₀ c)
    (hguarded : AllGuarded past P c₀) (hI : I c₀.store) (hhalt : ∀ i s, I s → I (m.halt i s))
    (hkeeps : ∀ i o s r s', I s → P i (past s i) o → m.sem i o s r s' → I s') : I c.store := by
  have hboth : AllGuarded past P c ∧ I c.store := by
    induction hsteps with
    | refl => exact ⟨hguarded, hI⟩
    | tail _ hstep ih => exact h.step hstep ih.1 ih.2 hhalt hkeeps
  exact hboth.2

end Machine

namespace Suite

variable {Op ε L α β : Type} {Ans : Op → Type}

/-- The suite, started with `l` after the statements of `past`, is guarded. -/
def Guarded (P : List (Event ε Ans) → Op → Prop) (past : List (Event ε Ans)) (l : L)
    (x : Suite ε L Ans α) : Prop :=
  Prog.Guarded (S := raising ε Ans) P past (x l)

variable {P : List (Event ε Ans) → Op → Prop} {past : List (Event ε Ans)} {l : L}
  {x : Suite ε L Ans α}

theorem Guarded.pure (a : α) : Guarded P past l (pure a : Suite ε L Ans α) := trivial

theorem Guarded.raise (e : ε) : Guarded P past l (raise e : Suite ε L Ans α) := trivial

theorem Guarded.assign (value : L) : Guarded P past l (assign value : Suite ε L Ans Unit) := trivial

theorem Guarded.locals : Guarded P past l (locals : Suite ε L Ans L) := trivial

theorem Guarded.call {o : Op} (h : P past o) : Guarded P past l (call o : Suite ε L Ans (Ans o)) :=
  ⟨h, fun _ => trivial⟩

theorem Guarded.bind {f : α → Suite ε L Ans β} (hx : Guarded P past l x)
    (hf : ∀ log a l', Exits x l log (.ok a) l' → Guarded P (past ++ log) l' (f a)) :
    Guarded P past l (x >>= f) := by
  refine Prog.Guarded.bind hx ?_
  rintro log ⟨out, l'⟩ hpath
  cases out with
  | ok a => exact hf log a l' hpath
  | error e => trivial

theorem Guarded.tryExcept {handler : ε → Option (Suite ε L Ans α)} (hx : Guarded P past l x)
    (hhandler : ∀ log e l' s, Exits x l log (.error e) l' → handler e = some s →
      Guarded P (past ++ log) l' s) : Guarded P past l (tryExcept x handler) := by
  refine Prog.Guarded.bind hx ?_
  rintro log ⟨out, l'⟩ hpath
  cases out with
  | ok a => trivial
  | error e =>
    simp only
    cases hs : handler e with
    | none => trivial
    | some s => exact hhandler log e l' s hpath hs

theorem Guarded.tryFinally {last : Suite ε L Ans Unit} (hx : Guarded P past l x)
    (hlast : ∀ log out l', Exits x l log out l' → Guarded P (past ++ log) l' last) :
    Guarded P past l (tryFinally x last) := by
  refine Prog.Guarded.bind hx ?_
  rintro log ⟨out, l'⟩ hpath
  exact Prog.Guarded.bind (hlast log out l' hpath) fun _ _ _ => trivial

/-- A sequence that answers -/
theorem exits_bind_ok {f : α → Suite ε L Ans β} {log : List (Event ε Ans)} {b : β} {l' : L}
    (h : Exits (x >>= f) l log (.ok b) l') : ∃ first a mid rest, log = first ++ rest ∧
      Exits x l first (.ok a) mid ∧ Exits (f a) mid rest (.ok b) l' := by
  rcases exits_bind h with ⟨e, -, he⟩ | hparts
  · cases he
  · exact hparts

/-! ## Statements of a kind -/

/-- The suite issues only statements of the kind. -/
def Only (K : Op → Prop) (x : Suite ε L Ans α) : Prop :=
  ∀ past l, Guarded (fun _ o => K o) past l x

variable {K : Op → Prop}

/-- A relation that every statement of the kind meets from here on -/
theorem Only.guarded (h : Only K x) (hP : ∀ rest o, K o → P (past ++ rest) o) : Guarded P past l x :=
  Prog.Guarded.after (h past l) hP

theorem Only.mem (h : Only K x) {log : List (Event ε Ans)} {out : Except ε α} {l' : L}
    (hexits : Exits x l log out l') {e : Event ε Ans} (he : e ∈ log) : K e.1 := by
  obtain ⟨before, rest, hlog⟩ := List.append_of_mem he
  exact (h [] l).of_path hexits hlog

theorem Only.mono {K' : Op → Prop} (h : Only K x) (hK : ∀ o, K o → K' o) : Only K' x :=
  fun past l => (h past l).mono fun _ => hK

theorem Only.pure (a : α) : Only K (pure a : Suite ε L Ans α) := fun _ _ => .pure a

theorem Only.raise (e : ε) : Only K (raise e : Suite ε L Ans α) := fun _ _ => .raise e

theorem Only.assign (value : L) : Only K (assign value : Suite ε L Ans Unit) :=
  fun _ _ => .assign value

theorem Only.locals : Only K (locals : Suite ε L Ans L) := fun _ _ => .locals

theorem Only.call {o : Op} (h : K o) : Only K (call o : Suite ε L Ans (Ans o)) :=
  fun _ _ => .call h

theorem Only.bind {f : α → Suite ε L Ans β} (hx : Only K x) (hf : ∀ a, Only K (f a)) :
    Only K (x >>= f) :=
  fun past l => .bind (hx past l) fun _ a _ _ => hf a _ _

theorem Only.tryExcept {handler : ε → Option (Suite ε L Ans α)} (hx : Only K x)
    (hhandler : ∀ e s, handler e = some s → Only K s) : Only K (tryExcept x handler) :=
  fun past l => .tryExcept (hx past l) fun _ e _ s _ hs => hhandler e s hs _ _

theorem Only.tryFinally {last : Suite ε L Ans Unit} (hx : Only K x) (hlast : Only K last) :
    Only K (tryFinally x last) :=
  fun past l => .tryFinally (hx past l) fun _ _ _ _ => hlast _ _

end Suite

end HyChat.Lib
