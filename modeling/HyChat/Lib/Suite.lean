import HyChat.Lib.Prog

/-!
# Suites of statements that may raise

A *suite* is a block of imperative code with local variables. Every statement it issues may raise
instead of answering; a handler or a `finally` block then goes on with the variables as they are.

A suite is read as the set of its exits: the statements it has issued, each with its answer, and how
it has ended (`Suite.Exits`). Nothing is assumed about what the answers are, so that a property of
all exits holds whatever the statements do. The rules below take an exit apart along the code, and
two properties go with it: a suite does nothing remarkable (`Suite.Tame`), or it takes something
once and remembers it (`Suite.Takes`).

Read in this way, an exit by an exception is one like the others, with a shorter log. What a
development proves about its code is one lemma for each piece of it, and the rules for sequences
and handlers put the exits of the pieces together.
-/

set_option autoImplicit false

namespace HyChat.Lib

namespace Prog

/-- The statements a program has issued on its way to `a`, with their answers -/
inductive Path {S : Sig} {α : Type} : Prog S α → List (Σ o : S.Op, S.Res o) → α → Prop
  | ret (a : α) : Path (.ret a) [] a
  | call {o : S.Op} {k : S.Res o → Prog S α} {r : S.Res o} {log : List (Σ o : S.Op, S.Res o)}
      {a : α} : Path (k r) log a → Path (.call o k) (⟨o, r⟩ :: log) a

variable {S : Sig} {α β : Type}

theorem path_ret_iff {a b : α} {log : List (Σ o : S.Op, S.Res o)} :
    Path (.ret a : Prog S α) log b ↔ log = [] ∧ b = a := by
  constructor
  · intro h
    cases h
    exact ⟨rfl, rfl⟩
  · rintro ⟨rfl, rfl⟩
    exact .ret b

theorem path_bind_iff {x : Prog S α} {f : α → Prog S β} {log : List (Σ o : S.Op, S.Res o)} {b : β} :
    Path (x.bind f) log b ↔
      ∃ first a rest, log = first ++ rest ∧ Path x first a ∧ Path (f a) rest b := by
  constructor
  · intro h
    induction x generalizing log with
    | ret a => exact ⟨[], a, log, rfl, .ret a, h⟩
    | call o k ih =>
      cases h with
      | call h =>
        obtain ⟨first, a, rest, rfl, hfirst, hrest⟩ := ih _ h
        exact ⟨_ :: first, a, rest, rfl, .call hfirst, hrest⟩
  · rintro ⟨first, a, rest, rfl, hfirst, hrest⟩
    induction hfirst with
    | ret a => exact hrest
    | call _ ih => exact .call (ih hrest)

end Prog

/-- Statements that answer or raise -/
def raising {Op : Type} (ε : Type) (Ans : Op → Type) : Sig := ⟨Op, fun o => Except ε (Ans o)⟩

/-- A block of statements over the local variables `L` -/
def Suite {Op : Type} (ε L : Type) (Ans : Op → Type) (α : Type) : Type :=
  L → Prog (raising ε Ans) (Except ε α × L)

/-- A statement that has been issued, and its answer -/
abbrev Suite.Event {Op : Type} (ε : Type) (Ans : Op → Type) : Type := Σ o : Op, Except ε (Ans o)

namespace Suite

variable {Op ε L α β : Type} {Ans : Op → Type}

/-! ## Code -/

def bind (x : Suite ε L Ans α) (f : α → Suite ε L Ans β) : Suite ε L Ans β := fun l =>
  Prog.bind (x l) fun
    | (.ok a, l) => f a l
    | (.error e, l) => .ret (.error e, l)

instance : Monad (@Suite Op ε L Ans) where
  pure a := fun l => .ret (.ok a, l)
  bind := Suite.bind

def call (o : Op) : Suite ε L Ans (Ans o) := fun l => .call o fun r => .ret (r, l)

def assign (value : L) : Suite ε L Ans Unit := fun _ => .ret (.ok (), value)

def locals : Suite ε L Ans L := fun l => .ret (.ok l, l)

def raise (e : ε) : Suite ε L Ans α := fun l => .ret (.error e, l)

/-- `try: x except …`; a handler that does not apply lets the exception through. -/
def tryExcept (x : Suite ε L Ans α) (handler : ε → Option (Suite ε L Ans α)) : Suite ε L Ans α :=
  fun l => Prog.bind (x l) fun
    | (.ok a, l) => .ret (.ok a, l)
    | (.error e, l) =>
        match handler e with
        | some h => h l
        | none => .ret (.error e, l)

/-- What has come of a block whose `finally` block has ended like this: an exception of the latter
    is the one that is raised. -/
def after (out : Except ε α) : Except ε Unit → Except ε α
  | .ok () => out
  | .error e => .error e

/-- `try: x finally: last` -/
def tryFinally (x : Suite ε L Ans α) (last : Suite ε L Ans Unit) : Suite ε L Ans α := fun l =>
  Prog.bind (x l) fun (out, l) => Prog.bind (last l) fun (done, l) => .ret (after out done, l)

/-! ## Exits -/

/-- The suite, started with `l`, issues the statements of the log and ends like this. -/
def Exits (x : Suite ε L Ans α) (l : L) (log : List (Event ε Ans)) (out : Except ε α) (l' : L) :
    Prop :=
  Prog.Path (x l) log (out, l')

variable {x : Suite ε L Ans α} {l l' : L} {log : List (Event ε Ans)} {out : Except ε α}

theorem exits_pure {a : α} (h : Exits (pure a : Suite ε L Ans α) l log out l') :
    log = [] ∧ out = .ok a ∧ l' = l := by
  obtain ⟨hlog, hout⟩ := Prog.path_ret_iff.mp h
  exact ⟨hlog, congrArg Prod.fst hout, congrArg Prod.snd hout⟩

theorem exits_call {o : Op} {out : Except ε (Ans o)}
    (h : Exits (call o : Suite ε L Ans (Ans o)) l log out l') : log = [⟨o, out⟩] ∧ l' = l := by
  cases h with
  | call h =>
    obtain ⟨rfl, hout⟩ := Prog.path_ret_iff.mp h
    cases hout
    exact ⟨rfl, rfl⟩

theorem exits_assign {value : L} {out : Except ε Unit}
    (h : Exits (assign value : Suite ε L Ans Unit) l log out l') :
    log = [] ∧ out = .ok () ∧ l' = value := by
  obtain ⟨hlog, hout⟩ := Prog.path_ret_iff.mp h
  exact ⟨hlog, congrArg Prod.fst hout, congrArg Prod.snd hout⟩

theorem exits_locals {out : Except ε L} (h : Exits (locals : Suite ε L Ans L) l log out l') :
    log = [] ∧ out = .ok l ∧ l' = l := by
  obtain ⟨hlog, hout⟩ := Prog.path_ret_iff.mp h
  exact ⟨hlog, congrArg Prod.fst hout, congrArg Prod.snd hout⟩

theorem exits_raise {e : ε} (h : Exits (raise e : Suite ε L Ans α) l log out l') :
    log = [] ∧ out = .error e ∧ l' = l := by
  obtain ⟨hlog, hout⟩ := Prog.path_ret_iff.mp h
  exact ⟨hlog, congrArg Prod.fst hout, congrArg Prod.snd hout⟩

/-- A sequence ends where its first part raises, or else where the second part does. -/
theorem exits_bind {f : α → Suite ε L Ans β} {out : Except ε β} (h : Exits (x >>= f) l log out l') :
    (∃ e, Exits x l log (.error e) l' ∧ out = .error e) ∨
      ∃ first a mid rest, log = first ++ rest ∧ Exits x l first (.ok a) mid ∧
        Exits (f a) mid rest out l' := by
  obtain ⟨first, ⟨res, mid⟩, rest, rfl, hfirst, hrest⟩ := Prog.path_bind_iff.mp h
  cases res with
  | ok a => exact .inr ⟨first, a, mid, rest, rfl, hfirst, hrest⟩
  | error e =>
    obtain ⟨rfl, hout⟩ := Prog.path_ret_iff.mp hrest
    cases hout
    rw [List.append_nil]
    exact .inl ⟨e, hfirst, rfl⟩

theorem exits_tryExcept {handler : ε → Option (Suite ε L Ans α)}
    (h : Exits (tryExcept x handler) l log out l') :
    Exits x l log out l' ∨ ∃ first e mid rest s, log = first ++ rest ∧
      Exits x l first (.error e) mid ∧ handler e = some s ∧ Exits s mid rest out l' := by
  obtain ⟨first, ⟨res, mid⟩, rest, rfl, hfirst, hrest⟩ := Prog.path_bind_iff.mp h
  cases res with
  | ok a =>
    obtain ⟨rfl, hout⟩ := Prog.path_ret_iff.mp hrest
    cases hout
    rw [List.append_nil]
    exact .inl hfirst
  | error e =>
    simp only at hrest
    cases hs : handler e with
    | none =>
      rw [hs] at hrest
      obtain ⟨rfl, hout⟩ := Prog.path_ret_iff.mp hrest
      cases hout
      rw [List.append_nil]
      exact .inl hfirst
    | some s =>
      rw [hs] at hrest
      exact .inr ⟨first, e, mid, rest, s, rfl, hfirst, hs, hrest⟩

theorem exits_tryFinally {last : Suite ε L Ans Unit} (h : Exits (tryFinally x last) l log out l') :
    ∃ first res mid rest done, log = first ++ rest ∧ Exits x l first res mid ∧
      Exits last mid rest done l' ∧ out = after res done := by
  obtain ⟨first, ⟨res, mid⟩, rest, rfl, hfirst, hrest⟩ := Prog.path_bind_iff.mp h
  obtain ⟨second, ⟨done, mid'⟩, rest, rfl, hsecond, hrest⟩ := Prog.path_bind_iff.mp hrest
  obtain ⟨rfl, hout⟩ := Prog.path_ret_iff.mp hrest
  cases hout
  rw [List.append_nil]
  exact ⟨first, res, mid, second, done, rfl, hfirst, hsecond, rfl⟩

def Event.Raised (e : Event ε Ans) : Prop := ∃ err, e.2 = .error err

/-- The block has ended in an exception. -/
def Raises (out : Except ε α) : Prop := ∃ err, out = .error err

theorem raises_after {res : Except ε α} {done : Except ε Unit} :
    Raises (after res done) ↔ Raises res ∨ Raises done := by
  cases done with
  | ok u =>
    refine ⟨.inl, fun h => h.resolve_right ?_⟩
    rintro ⟨err, herr⟩
    cases herr
  | error err => exact ⟨fun _ => .inr ⟨err, rfl⟩, fun _ => ⟨err, rfl⟩⟩

theorem not_raises_ok {a : α} : ¬ Raises (.ok a : Except ε α) := by
  rintro ⟨err, herr⟩
  cases herr

theorem raised_append {first rest : List (Event ε Ans)} :
    (∃ e ∈ first ++ rest, Event.Raised e) ↔
      (∃ e ∈ first, Event.Raised e) ∨ ∃ e ∈ rest, Event.Raised e := by
  simp only [List.mem_append]
  constructor
  · rintro ⟨e, he | he, hr⟩
    · exact .inl ⟨e, he, hr⟩
    · exact .inr ⟨e, he, hr⟩
  · rintro (⟨e, he, hr⟩ | ⟨e, he, hr⟩)
    · exact ⟨e, .inl he, hr⟩
    · exact ⟨e, .inr he, hr⟩

/-! ## Code that does nothing remarkable -/

/-- The suite issues only statements of the kind `N` and leaves the variables as they are. A strict
    one ends in an exception exactly when one of its statements has raised. -/
def Tame (N : Event ε Ans → Prop) (strict : Bool) (x : Suite ε L Ans α) : Prop :=
  ∀ l log out l', Exits x l log out l' → l' = l ∧ (∀ e ∈ log, N e) ∧
    (strict = true → (Raises out ↔ ∃ e ∈ log, Event.Raised e))

variable {N : Event ε Ans → Prop} {strict : Bool}

theorem Tame.pure (a : α) : Tame N strict (pure a : Suite ε L Ans α) := by
  intro l log out l' h
  obtain ⟨rfl, rfl, rfl⟩ := exits_pure h
  refine ⟨rfl, List.forall_mem_nil _, fun _ => iff_of_false not_raises_ok ?_⟩
  rintro ⟨e, he, _⟩
  cases he

theorem Tame.call {o : Op} (h : ∀ r, N ⟨o, r⟩) :
    Tame N strict (call o : Suite ε L Ans (Ans o)) := by
  intro l log out l' hx
  obtain ⟨rfl, rfl⟩ := exits_call hx
  refine ⟨rfl, fun e he => ?_, fun _ => ?_⟩
  · rw [List.mem_singleton.mp he]
    exact h out
  · constructor
    · intro hout
      exact ⟨_, List.mem_singleton_self _, hout⟩
    · rintro ⟨e, he, hr⟩
      rw [List.mem_singleton.mp he] at hr
      exact hr

theorem Tame.bind {f : α → Suite ε L Ans β} (hx : Tame N strict x) (hf : ∀ a, Tame N strict (f a)) :
    Tame N strict (x >>= f) := by
  intro l log out l' h
  rcases exits_bind h with ⟨e, hfirst, rfl⟩ | ⟨first, a, mid, rest, rfl, hfirst, hrest⟩
  · obtain ⟨hl, hN, hstrict⟩ := hx _ _ _ _ hfirst
    exact ⟨hl, hN, fun hs => iff_of_true ⟨e, rfl⟩ ((hstrict hs).mp ⟨e, rfl⟩)⟩
  · obtain ⟨rfl, hN, hstrict⟩ := hx _ _ _ _ hfirst
    obtain ⟨rfl, hN', hstrict'⟩ := hf a _ _ _ _ hrest
    refine ⟨rfl, List.forall_mem_append.mpr ⟨hN, hN'⟩, fun hs => ?_⟩
    rw [raised_append, ← hstrict hs, ← hstrict' hs, or_iff_right not_raises_ok]

theorem Tame.tryFinally {last : Suite ε L Ans Unit} (hx : Tame N strict x)
    (hlast : Tame N strict last) : Tame N strict (tryFinally x last) := by
  intro l log out l' h
  obtain ⟨first, res, mid, rest, done, rfl, hfirst, hrest, rfl⟩ := exits_tryFinally h
  obtain ⟨rfl, hN, hstrict⟩ := hx _ _ _ _ hfirst
  obtain ⟨rfl, hN', hstrict'⟩ := hlast _ _ _ _ hrest
  refine ⟨rfl, List.forall_mem_append.mpr ⟨hN, hN'⟩, fun hs => ?_⟩
  rw [raised_append, ← hstrict hs, ← hstrict' hs, raises_after]

/-- What raises by itself is not strict. -/
theorem Tame.raise (e : ε) : Tame N false (raise e : Suite ε L Ans α) := by
  intro l log out l' h
  obtain ⟨rfl, rfl, rfl⟩ := exits_raise h
  exact ⟨rfl, List.forall_mem_nil _, fun hs => by cases hs⟩

/-- Nor is what swallows an exception. -/
theorem Tame.tryExcept {handler : ε → Option (Suite ε L Ans α)} (hx : Tame N false x)
    (hhandler : ∀ e s, handler e = some s → Tame N false s) :
    Tame N false (tryExcept x handler) := by
  intro l log out l' h
  rcases exits_tryExcept h with hfirst | ⟨first, e, mid, rest, s, rfl, hfirst, hs, hrest⟩
  · exact hx _ _ _ _ hfirst
  · obtain ⟨rfl, hN, _⟩ := hx _ _ _ _ hfirst
    obtain ⟨rfl, hN', _⟩ := hhandler e s hs _ _ _ _ hrest
    exact ⟨rfl, List.forall_mem_append.mpr ⟨hN, hN'⟩, fun hs => by cases hs⟩

/-! ## Code that takes something -/

variable {R : Type}

/-- The statements are of the kind `N`, apart from one that may have taken something, which the
    variable then holds. If `strict`, the block has ended in an exception exactly when a statement
    has raised since. -/
def Took (N : Event ε Ans → Prop) (take : Event ε Ans → Option R) (strict : Bool)
    (log : List (Event ε Ans)) (out : Except ε α) (held : Option R) : Prop :=
  (∀ e ∈ log, N e) ∧ held = none ∨
    ∃ before e rest r, log = before ++ e :: rest ∧ (∀ e ∈ before, N e) ∧ (∀ e ∈ rest, N e) ∧
      take e = some r ∧ held = some r ∧
      (strict = true → (Raises out ↔ ∃ e ∈ rest, Event.Raised e))

/-- Started with nothing in its variable, the suite takes something at most once. -/
def Takes (N : Event ε Ans → Prop) (take : Event ε Ans → Option R) (strict : Bool)
    (x : Suite ε (Option R) Ans α) : Prop :=
  ∀ log out held, Exits x none log out held → Took N take strict log out held

variable {take : Event ε Ans → Option R} {y : Suite ε (Option R) Ans α}

theorem Took.prepend {first log : List (Event ε Ans)} {out : Except ε α} {held : Option R}
    (h : Took N take strict log out held) (hN : ∀ e ∈ first, N e) :
    Took N take strict (first ++ log) out held := by
  rcases h with ⟨hN', hheld⟩ | ⟨before, e, rest, r, rfl, hbefore, hrest⟩
  · exact .inl ⟨List.forall_mem_append.mpr ⟨hN, hN'⟩, hheld⟩
  · exact .inr ⟨first ++ before, e, rest, r, (List.append_assoc _ _ _).symm,
      List.forall_mem_append.mpr ⟨hN, hbefore⟩, hrest⟩

/-- What follows must account for its own exceptions. -/
theorem Took.append {log rest : List (Event ε Ans)} {out : Except ε α} {out' : Except ε β}
    {held : Option R} (h : Took N take strict log out held) (hN : ∀ e ∈ rest, N e)
    (hout : strict = true → (Raises out' ↔ Raises out ∨ ∃ e ∈ rest, Event.Raised e)) :
    Took N take strict (log ++ rest) out' held := by
  rcases h with ⟨hN', hheld⟩ | ⟨before, e, later, r, rfl, hbefore, hlater, htake, hheld, hs⟩
  · exact .inl ⟨List.forall_mem_append.mpr ⟨hN', hN⟩, hheld⟩
  · refine .inr ⟨before, e, later ++ rest, r, by simp, hbefore,
      List.forall_mem_append.mpr ⟨hlater, hN⟩, htake, hheld, fun hstrict => ?_⟩
    rw [raised_append, ← hs hstrict, hout hstrict]

theorem Tame.takes (h : Tame N false y) : Takes N take strict y := by
  intro log out held hy
  obtain ⟨rfl, hN, _⟩ := h _ _ _ _ hy
  exact .inl ⟨hN, rfl⟩

/-- What precedes the taking does not matter. -/
theorem Takes.after_tame {f : α → Suite ε (Option R) Ans β} (hy : Tame N false y)
    (hf : ∀ a, Takes N take strict (f a)) : Takes N take strict (y >>= f) := by
  intro log out held h
  rcases exits_bind h with ⟨e, hfirst, rfl⟩ | ⟨first, a, mid, rest, rfl, hfirst, hrest⟩
  · obtain ⟨rfl, hN, _⟩ := hy _ _ _ _ hfirst
    exact .inl ⟨hN, rfl⟩
  · obtain ⟨rfl, hN, _⟩ := hy _ _ _ _ hfirst
    exact Took.prepend (hf a _ _ _ hrest) hN

theorem Takes.bind {f : α → Suite ε (Option R) Ans β} (hy : Takes N take strict y)
    (hf : ∀ a, Tame N strict (f a)) : Takes N take strict (y >>= f) := by
  intro log out held h
  rcases exits_bind h with ⟨err, hfirst, rfl⟩ | ⟨first, a, mid, rest, rfl, hfirst, hrest⟩
  · have hout := Took.append (hy _ _ _ hfirst) (List.forall_mem_nil N)
      fun _ => iff_of_true (⟨err, rfl⟩ : Raises (.error err : Except ε β)) (.inl ⟨err, rfl⟩)
    rwa [List.append_nil] at hout
  · obtain ⟨rfl, hN, hstrict⟩ := hf a _ _ _ _ hrest
    refine Took.append (hy _ _ _ hfirst) hN fun hs => ?_
    rw [hstrict hs, or_iff_right not_raises_ok]

theorem Takes.tryFinally {last : Suite ε (Option R) Ans Unit} (hy : Takes N take strict y)
    (hlast : Tame N strict last) : Takes N take strict (tryFinally y last) := by
  intro log out held h
  obtain ⟨first, res, mid, rest, done, rfl, hfirst, hrest, rfl⟩ := exits_tryFinally h
  obtain ⟨rfl, hN, hstrict⟩ := hlast _ _ _ _ hrest
  refine Took.append (hy _ _ _ hfirst) hN fun hs => ?_
  rw [raises_after, hstrict hs]

theorem Takes.tryExcept {handler : ε → Option (Suite ε (Option R) Ans α)}
    (hy : Takes N take false y) (hhandler : ∀ e s, handler e = some s → Tame N false s) :
    Takes N take false (tryExcept y handler) := by
  intro log out held h
  rcases exits_tryExcept h with hfirst | ⟨first, err, mid, rest, s, rfl, hfirst, hs, hrest⟩
  · exact hy _ _ _ hfirst
  · obtain ⟨rfl, hN, _⟩ := hhandler err s hs _ _ _ _ hrest
    exact Took.append (hy _ _ _ hfirst) hN fun hs => by cases hs

end Suite

end HyChat.Lib
