import Mathlib.Logic.Relation
import Mathlib.Logic.Function.Basic

/-!
# Programs as trees of statements, and machines that interleave them

A *program* is what a piece of sequential code looks like from the outside: it asks its
environment to carry out one statement, waits for the answer, and goes on with a program that
may depend on it. Nothing is said here about what a statement does; that is a `Machine`, which
executes one statement of one party on a shared state and may also refuse to (a blocked
statement is one that no choice of the environment lets through).

Two readings of the same tree live side by side:

* `Machine.Step` — any number of parties, one statement at a time, in any order. This is the
  reading under which a race is a run.
* `Machine.Exec` — one party running one program to its end while the others take their steps
  in between, with the party's own state changes written down; `Machine.Solo` is the same with
  nobody else moving.

A run on a fixed schedule (`Machine.runSched`, `Machine.solo`) is computable, so a
counterexample is a list.
-/

set_option autoImplicit false

namespace HyChat.Lib

/-- The statements a program may issue, and the type of the answer to each. -/
structure Sig where
  Op : Type
  Res : Op → Type

/-- A program over the signature `S`: an answer, or a statement and a continuation. -/
inductive Prog (S : Sig) (α : Type) : Type
  | ret (a : α)
  | call (o : S.Op) (k : S.Res o → Prog S α)

namespace Prog

variable {S : Sig} {α β γ ε : Type}

def bind : Prog S α → (α → Prog S β) → Prog S β
  | .ret a, f => f a
  | .call o k, f => .call o fun r => bind (k r) f

instance : Monad (Prog S) where
  pure := .ret
  bind := Prog.bind

/-- The program that issues one statement and returns its answer. -/
def perform (o : S.Op) : Prog S (S.Res o) := .call o .ret

@[simp] theorem bind_ret (x : Prog S α) : x.bind .ret = x := by
  induction x with
  | ret a => rfl
  | call o k ih => exact congrArg (Prog.call o) (funext ih)

end Prog

/-- A program that may raise: the exception is part of the answer, so a handler is ordinary
    continuation code and sees every statement the body has already issued. -/
abbrev Raising (S : Sig) (ε α : Type) : Type := ExceptT ε (Prog S) α

namespace Raising

variable {S : Sig} {α β ε : Type}

theorem bind_eq (x : Raising S ε α) (f : α → Raising S ε β) :
    (x >>= f) = Prog.bind x fun
      | .ok a => f a
      | .error e => .ret (.error e) := by
  show Prog.bind x (ExceptT.bindCont f) = _
  congr 1
  funext a
  cases a <;> rfl

theorem tryCatch_eq (x : Raising S ε α) (h : ε → Raising S ε α) :
    tryCatch x h = Prog.bind x fun
      | .ok a => .ret (.ok a)
      | .error e => h e := by
  show Prog.bind x _ = _
  congr 1
  funext a
  cases a <;> rfl

/-- The outcome of a raising program as an ordinary answer. -/
def attempt (x : Raising S ε α) : Prog S (Except ε α) := x

end Raising

/-! ## Machines -/

/-- What a statement of one party does to the shared state. `exec` answers `none` when the
    statement is blocked; `χ` is what the environment chooses (whether the statement fails,
    what a clock shows). `halt` is what the state becomes when a party dies where it stands. -/
structure Machine (S : Sig) (σ ι χ : Type) where
  exec : ι → (o : S.Op) → χ → σ → Option (S.Res o × σ)
  halt : ι → σ → σ

/-- The shared state and what each party has still to do. -/
structure Config (S : Sig) (σ ι : Type) where
  store : σ
  prog : ι → Prog S Unit

/-- What a party does when it is scheduled: its next statement, or it dies. -/
inductive Action (χ : Type) : Type
  | stmt (c : χ)
  | die

namespace Machine

variable {S : Sig} {σ ι χ α β : Type} (m : Machine S σ ι χ)

/-- A statement as a relation: some choice of the environment makes it answer `r`. -/
def sem (i : ι) (o : S.Op) (s : σ) (r : S.Res o) (s' : σ) : Prop :=
  ∃ c, m.exec i o c s = some (r, s')

variable [DecidableEq ι]

def step (i : ι) (a : Action χ) (c : Config S σ ι) : Option (Config S σ ι) :=
  match a with
  | .die => some ⟨m.halt i c.store, Function.update c.prog i (.ret ())⟩
  | .stmt ch =>
      match c.prog i with
      | .ret () => none
      | .call o k => (m.exec i o ch c.store).map fun p => ⟨p.2, Function.update c.prog i (k p.1)⟩

/-- Party `i` moves the system from `c` to `c'`. -/
def Step (i : ι) (c c' : Config S σ ι) : Prop := ∃ a, m.step i a c = some c'

/-- Any party moves. -/
def AnyStep (c c' : Config S σ ι) : Prop := ∃ i, m.Step i c c'

/-- A run of any length, any parties in any order. -/
def Steps : Config S σ ι → Config S σ ι → Prop := Relation.ReflTransGen m.AnyStep

/-- The run a schedule prescribes; `none` when the schedule asks for a blocked statement. -/
def runSched : List (ι × Action χ) → Config S σ ι → Option (Config S σ ι)
  | [], c => some c
  | (i, a) :: rest, c => (m.step i a c).bind (runSched rest)

/-- **A step, inverted.** Either the party dies, or it issues the statement it stands at. -/
theorem step_cases {i : ι} {c c' : Config S σ ι} (h : m.Step i c c') :
    c' = ⟨m.halt i c.store, Function.update c.prog i (.ret ())⟩ ∨
    ∃ (o : S.Op) (k : S.Res o → Prog S Unit) (r : S.Res o) (s' : σ),
      c.prog i = .call o k ∧ m.sem i o c.store r s' ∧
        c' = ⟨s', Function.update c.prog i (k r)⟩ := by
  obtain ⟨a, ha⟩ := h
  cases a with
  | die =>
    simp only [step, Option.some.injEq] at ha
    exact .inl ha.symm
  | stmt ch =>
    simp only [step] at ha
    cases hp : c.prog i with
    | ret u => rw [hp] at ha; simp at ha
    | call o k =>
      rw [hp] at ha
      simp only [Option.map_eq_some_iff] at ha
      obtain ⟨⟨r, s'⟩, he, rfl⟩ := ha
      exact .inr ⟨o, k, r, s', rfl, ⟨ch, he⟩, rfl⟩

/-- A run that remembers the configurations it has left behind, the latest first. -/
inductive Run (c₀ : Config S σ ι) : List (Config S σ ι) → Config S σ ι → Prop
  | start : Run c₀ [] c₀
  | step {past : List (Config S σ ι)} {c c' : Config S σ ι} :
      Run c₀ past c → m.AnyStep c c' → Run c₀ (c :: past) c'

variable {m} in
theorem Run.steps {c₀ c : Config S σ ι} {past : List (Config S σ ι)} (h : m.Run c₀ past c) :
    m.Steps c₀ c := by
  induction h with
  | start => exact .refl
  | step _ hst ih => exact ih.tail hst

variable {m} in
/-- What a run has left behind was on its way. -/
theorem Run.steps_of_mem {c₀ c c' : Config S σ ι} {past : List (Config S σ ι)}
    (h : m.Run c₀ past c) (hc : c' ∈ past) : m.Steps c₀ c' ∧ m.Steps c' c := by
  induction h with
  | start => exact absurd hc (by simp)
  | step hrun hst ih =>
    rcases List.mem_cons.mp hc with rfl | hc
    · exact ⟨hrun.steps, .single hst⟩
    · exact ⟨(ih hc).1, (ih hc).2.tail hst⟩

variable {m} in
theorem Run.of_runSched {l : List (ι × Action χ)} {c₀ c c' : Config S σ ι}
    {past : List (Config S σ ι)} (h : m.Run c₀ past c) (hl : m.runSched l c = some c') :
    ∃ past', m.Run c₀ past' c' := by
  induction l generalizing past c with
  | nil =>
    simp only [runSched, Option.some.injEq] at hl
    subst hl
    exact ⟨past, h⟩
  | cons p rest ih =>
    obtain ⟨i, a⟩ := p
    simp only [runSched, Option.bind_eq_some_iff] at hl
    obtain ⟨c₁, h₁, h₂⟩ := hl
    exact ih (h.step ⟨i, a, h₁⟩) h₂

theorem steps_of_runSched {l : List (ι × Action χ)} {c c' : Config S σ ι}
    (h : m.runSched l c = some c') : m.Steps c c' := by
  obtain ⟨past, hrun⟩ := Run.of_runSched .start h
  exact hrun.steps

/-- Party `i` runs a program to its end while the other parties of the system take their own
    steps in between. The list is what `i` itself did to the store, in order; the others
    contribute nothing to it, and the program `i` has in the configuration is not touched. -/
inductive Exec (i : ι) : Prog S α → Config S σ ι → List (σ × σ) → α → Config S σ ι → Prop
  | ret (a : α) (c : Config S σ ι) : Exec i (.ret a) c [] a c
  | own {o : S.Op} {k : S.Res o → Prog S α} {c c' : Config S σ ι} {s₁ : σ} {r : S.Res o}
      {tr : List (σ × σ)} {a : α} : m.sem i o c.store r s₁ → Exec i (k r) ⟨s₁, c.prog⟩ tr a c' →
        Exec i (.call o k) c ((c.store, s₁) :: tr) a c'
  | other {p : Prog S α} {c c₁ c' : Config S σ ι} {j : ι} {tr : List (σ × σ)} {a : α} :
      j ≠ i → m.Step j c c₁ → Exec i p c₁ tr a c' → Exec i p c tr a c'

variable {m} in
/-- The program party `i` has in the configuration stays where it is. -/
theorem Exec.prog_self {i : ι} {p : Prog S α} {c c' : Config S σ ι} {tr : List (σ × σ)} {a : α}
    (h : m.Exec i p c tr a c') : c'.prog i = c.prog i := by
  induction h with
  | ret a c => rfl
  | own _ _ ih => exact ih
  | other hj hst _ ih =>
    rw [ih]
    rcases m.step_cases hst with rfl | ⟨o, k, r, s', -, -, rfl⟩
    · exact Function.update_of_ne (Ne.symm hj) _ _
    · exact Function.update_of_ne (Ne.symm hj) _ _

omit [DecidableEq ι] in
/-- Party `i` runs a program to its end and nobody else does anything. -/
inductive Solo (i : ι) : Prog S α → σ → α → σ → Prop
  | ret (a : α) (s : σ) : Solo i (.ret a) s a s
  | own {o : S.Op} {k : S.Res o → Prog S α} {s s₁ s' : σ} {r : S.Res o} {a : α} :
      m.sem i o s r s₁ → Solo i (k r) s₁ a s' → Solo i (.call o k) s a s'

omit [DecidableEq ι] in
variable {m} in
/-- Nobody else has to move. -/
theorem Solo.exec [DecidableEq ι] {i : ι} {p : Prog S α} {s s' : σ} {a : α}
    (h : m.Solo i p s a s') (prog : ι → Prog S Unit) :
    ∃ tr, m.Exec i p ⟨s, prog⟩ tr a ⟨s', prog⟩ := by
  induction h with
  | ret a s => exact ⟨[], .ret a _⟩
  | own hs _ ih =>
    obtain ⟨tr, htr⟩ := ih
    exact ⟨_, .own hs htr⟩

/-- The undisturbed run, computed: one choice of the environment per statement. -/
def solo (i : ι) : Prog S α → List χ → σ → Option (α × σ)
  | .ret a, _, s => some (a, s)
  | .call _ _, [], _ => none
  | .call o k, ch :: chs, s => (m.exec i o ch s).bind fun p => solo i (k p.1) chs p.2

omit [DecidableEq ι] in
theorem Solo.of_solo {i : ι} {s s' : σ} {a : α} (c : Prog S α) :
    ∀ (l : List χ), m.solo i c l s = some (a, s') → m.Solo i c s a s' := by
  induction c generalizing s with
  | ret b =>
    intro l h
    simp only [solo, Option.some.injEq, Prod.mk.injEq] at h
    obtain ⟨rfl, rfl⟩ := h
    exact .ret b s
  | call o k ih =>
    intro l h
    cases l with
    | nil => simp [solo] at h
    | cons ch chs =>
      simp only [solo, Option.bind_eq_some_iff] at h
      obtain ⟨⟨r, s₁⟩, he, hk⟩ := h
      exact .own ⟨ch, he⟩ (ih r chs hk)

end Machine

end HyChat.Lib
