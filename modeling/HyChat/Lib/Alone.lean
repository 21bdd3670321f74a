import HyChat.Lib.Prog

/-!
# A program that runs alone, to its end

`Machine.Ensures` is total correctness of one party's program while nobody else moves: whatever
the environment chooses among the choices that are `ok`, no statement is blocked, and the program
ends with the answer and in the state asked for. For a program that may raise, `Machine.Returns`
asks that it does not, and `Machine.Raises` that it does.

The rules follow the programs: one for each way of putting two together.

Total correctness is the right notion here because the program is a tree of statements without
loops of its own: it ends in finitely many steps, and only a statement that is blocked could keep
it from its end. The choices that are `ok` are there to leave out faults where a result is about
runs without.
-/

set_option autoImplicit false

namespace HyChat.Lib

namespace Machine

variable {S : Sig} {σ ι χ α β ε : Type} (m : Machine S σ ι χ) (ok : χ → Prop) (i : ι)

def Ensures : Prog S α → (α → σ → Prop) → σ → Prop
  | .ret a, Q, s => Q a s
  | .call o k, Q, s => ∀ c, ok c → ∃ r s', m.exec i o c s = some (r, s') ∧ Ensures (k r) Q s'

/-- The program does not raise. -/
def Returns (x : Raising S ε α) (Q : α → σ → Prop) (s : σ) : Prop :=
  m.Ensures ok i x.attempt (fun r s' => ∃ a, r = .ok a ∧ Q a s') s

/-- The program raises. -/
def Raises (x : Raising S ε α) (E : ε → Prop) (s : σ) : Prop :=
  m.Ensures ok i x.attempt (fun r _ => ∃ e, r = .error e ∧ E e) s

variable {m ok i}

/-! ## What it says about runs -/

/-- Every run on choices that are `ok` ends as it should. -/
theorem Ensures.of_solo {p : Prog S α} {Q : α → σ → Prop} :
    ∀ {s s' : σ} {a : α} {l : List χ}, m.Ensures ok i p Q s → (∀ c ∈ l, ok c) →
      m.solo i p l s = some (a, s') → Q a s' := by
  induction p with
  | ret b =>
    intro s s' a l h hl hs
    simp only [solo, Option.some.injEq, Prod.mk.injEq] at hs
    obtain ⟨rfl, rfl⟩ := hs
    exact h
  | call o k ih =>
    intro s s' a l h hl hs
    cases l with
    | nil => simp [solo] at hs
    | cons c rest =>
      obtain ⟨r, s₁, hexec, hk⟩ := h c (hl c List.mem_cons_self)
      simp only [solo, hexec, Option.bind_some] at hs
      exact ih r hk (fun c hc => hl c (List.mem_cons_of_mem _ hc)) hs

/-- There is such a run, on any one choice that is `ok`. -/
theorem Ensures.exists_solo {p : Prog S α} {Q : α → σ → Prop} {c : χ} (hc : ok c) :
    ∀ {s : σ}, m.Ensures ok i p Q s →
      ∃ n a s', m.solo i p (List.replicate n c) s = some (a, s') ∧ Q a s' := by
  induction p with
  | ret b =>
    intro s h
    exact ⟨0, b, s, rfl, h⟩
  | call o k ih =>
    intro s h
    obtain ⟨r, s₁, hexec, hk⟩ := h c hc
    obtain ⟨n, a, s', hs, hq⟩ := ih r hk
    refine ⟨n + 1, a, s', ?_, hq⟩
    rw [List.replicate_succ]
    simp only [solo, hexec, Option.bind_some]
    exact hs

/-! ## The rules -/

theorem Ensures.mono {p : Prog S α} {Q Q' : α → σ → Prop} (hQ : ∀ a s, Q a s → Q' a s) :
    ∀ {s : σ}, m.Ensures ok i p Q s → m.Ensures ok i p Q' s := by
  induction p with
  | ret a =>
    intro s h
    exact hQ a s h
  | call o k ih =>
    intro s h c hc
    obtain ⟨r, s', hexec, hk⟩ := h c hc
    exact ⟨r, s', hexec, ih r hk⟩

theorem Ensures.bind {p : Prog S α} {f : α → Prog S β} {Q : β → σ → Prop} :
    ∀ {s : σ}, m.Ensures ok i p (fun a s' => m.Ensures ok i (f a) Q s') s →
      m.Ensures ok i (p.bind f) Q s := by
  induction p with
  | ret a =>
    intro s h
    exact h
  | call o k ih =>
    intro s h c hc
    obtain ⟨r, s', hexec, hk⟩ := h c hc
    exact ⟨r, s', hexec, ih r hk⟩

theorem Returns.mono {x : Raising S ε α} {Q Q' : α → σ → Prop} (hQ : ∀ a s, Q a s → Q' a s)
    {s : σ} (h : m.Returns ok i x Q s) : m.Returns ok i x Q' s := by
  apply Ensures.mono _ h
  rintro r s' ⟨a, hr, hq⟩
  exact ⟨a, hr, hQ a s' hq⟩

theorem Returns.pure {a : α} {Q : α → σ → Prop} {s : σ} (h : Q a s) :
    m.Returns ok i (pure a : Raising S ε α) Q s := ⟨a, rfl, h⟩

theorem Returns.bind {x : Raising S ε α} {f : α → Raising S ε β} {Q : β → σ → Prop} {s : σ}
    (h : m.Returns ok i x (fun a s' => m.Returns ok i (f a) Q s') s) :
    m.Returns ok i (x >>= f) Q s := by
  unfold Returns
  rw [Raising.bind_eq]
  apply Ensures.bind
  apply Ensures.mono _ h
  rintro r s' ⟨a, rfl, ha⟩
  exact ha

theorem Returns.tryCatch {x : Raising S ε α} {handle : ε → Raising S ε α} {Q : α → σ → Prop}
    {s : σ} (h : m.Returns ok i x Q s) : m.Returns ok i (tryCatch x handle) Q s := by
  unfold Returns
  rw [Raising.tryCatch_eq]
  apply Ensures.bind
  apply Ensures.mono _ h
  rintro r s' ⟨a, rfl, ha⟩
  exact ⟨a, rfl, ha⟩

theorem Raises.throw {e : ε} {E : ε → Prop} {s : σ} (h : E e) :
    m.Raises ok i (throw e : Raising S ε α) E s := ⟨e, rfl, h⟩

theorem Raises.bind {x : Raising S ε α} {f : α → Raising S ε β} {E : ε → Prop} {s : σ}
    (h : m.Raises ok i x E s) : m.Raises ok i (x >>= f) E s := by
  unfold Raises
  rw [Raising.bind_eq]
  apply Ensures.bind
  apply Ensures.mono _ h
  rintro r s' ⟨e, rfl, he⟩
  exact ⟨e, rfl, he⟩

theorem Returns.bind_raises {x : Raising S ε α} {f : α → Raising S ε β} {E : ε → Prop} {s : σ}
    (h : m.Returns ok i x (fun a s' => m.Raises ok i (f a) E s') s) :
    m.Raises ok i (x >>= f) E s := by
  unfold Raises
  rw [Raising.bind_eq]
  apply Ensures.bind
  apply Ensures.mono _ h
  rintro r s' ⟨a, rfl, ha⟩
  exact ha

/-- The handler raises in its turn, wherever the body has stopped. -/
theorem Raises.tryCatch {x : Raising S ε α} {handle : ε → Raising S ε α} {E E' : ε → Prop} {s : σ}
    (h : m.Raises ok i x E s) (hhandle : ∀ e s', E e → m.Raises ok i (handle e) E' s') :
    m.Raises ok i (tryCatch x handle) E' s := by
  unfold Raises
  rw [Raising.tryCatch_eq]
  apply Ensures.bind
  apply Ensures.mono _ h
  rintro r s' ⟨e, rfl, he⟩
  exact hhandle e s' he

end Machine

end HyChat.Lib
