import Mathlib.Logic.Basic

/-!
# Labelled transition systems and the runs a condition lets through

A system that is small enough to be written as one function: `step s a` is the state after the
action `a`, and `none` where `a` is not possible. `Reach ok s₀` are the states that can be
reached from `s₀` by steps which all meet the condition `ok`; at `Anything` these are the
reachable states. A run on a fixed list of actions is computable.
-/

set_option autoImplicit false

namespace HyChat.Lib

/-- A deterministic system with labelled steps. -/
structure Lts (σ α : Type) where
  step : σ → α → Option σ

namespace Lts

variable {σ α : Type} (m : Lts σ α)

/-- The condition every step meets. -/
def Anything : σ → α → Prop := fun _ _ => True

/-- The states reached from `s₀` by steps that all meet `ok`. -/
inductive Reach (ok : σ → α → Prop) (s₀ : σ) : σ → Prop
  | start : Reach ok s₀ s₀
  | step {s s' : σ} (a : α) : Reach ok s₀ s → ok s a → m.step s a = some s' → Reach ok s₀ s'

/-- The run on a list of actions; `none` when one of them is not possible. -/
def run : List α → σ → Option σ
  | [], s => some s
  | a :: rest, s => (m.step s a).bind (run rest)

/-- The run on a list of actions that all pass a check where they are taken. -/
def runChecked (check : σ → α → Bool) : List α → σ → Option σ
  | [], s => some s
  | a :: rest, s => if check s a then (m.step s a).bind (runChecked check rest) else none

variable {m}

/-- **The invariant rule.** What holds at the start and survives every step that meets the
    condition holds in every state such steps reach. -/
theorem Reach.invariant {ok : σ → α → Prop} {s₀ s : σ} {I : σ → Prop} (h : m.Reach ok s₀ s)
    (h₀ : I s₀) (hstep : ∀ s a s', I s → ok s a → m.step s a = some s' → I s') : I s := by
  induction h with
  | start => exact h₀
  | step a _ hok hs ih => exact hstep _ a _ ih hok hs

theorem Reach.trans {ok : σ → α → Prop} {s₀ s₁ s₂ : σ} (h : m.Reach ok s₀ s₁)
    (h' : m.Reach ok s₁ s₂) : m.Reach ok s₀ s₂ := by
  induction h' with
  | start => exact h
  | step a _ hok hs ih => exact ih.step a hok hs

/-- Steps that meet a condition meet a weaker one. -/
theorem Reach.mono {ok ok' : σ → α → Prop} {s₀ s : σ} (h : m.Reach ok s₀ s)
    (hok : ∀ s a, ok s a → ok' s a) : m.Reach ok' s₀ s := by
  induction h with
  | start => exact .start
  | step a _ ha hs ih => exact ih.step a (hok _ a ha) hs

theorem Reach.anything {ok : σ → α → Prop} {s₀ s : σ} (h : m.Reach ok s₀ s) :
    m.Reach Anything s₀ s := by
  induction h with
  | start => exact .start
  | step a _ _ hs ih => exact ih.step a trivial hs

theorem Reach.of_run {ok : σ → α → Prop} {l : List α} {s₀ s s' : σ} (h : m.Reach ok s₀ s)
    (hok : ∀ a ∈ l, ∀ t, ok t a) (hl : m.run l s = some s') : m.Reach ok s₀ s' := by
  induction l generalizing s with
  | nil =>
    simp only [run, Option.some.injEq] at hl
    rw [← hl]
    exact h
  | cons a rest ih =>
    simp only [run, Option.bind_eq_some_iff] at hl
    obtain ⟨s₁, h₁, h₂⟩ := hl
    exact ih (h.step a (hok a List.mem_cons_self s) h₁)
      (fun b hb => hok b (List.mem_cons_of_mem a hb)) h₂

theorem Reach.of_runChecked {ok : σ → α → Prop} {check : σ → α → Bool} {l : List α} {s₀ s s' : σ}
    (h : m.Reach ok s₀ s) (hcheck : ∀ t a, check t a = true → ok t a)
    (hl : m.runChecked check l s = some s') : m.Reach ok s₀ s' := by
  induction l generalizing s with
  | nil =>
    simp only [runChecked, Option.some.injEq] at hl
    rw [← hl]
    exact h
  | cons a rest ih =>
    simp only [runChecked] at hl
    split at hl
    · rename_i hc
      obtain ⟨s₁, h₁, h₂⟩ := Option.bind_eq_some_iff.mp hl
      exact ih (h.step a (hcheck s a hc) h₁) h₂
    · exact absurd hl (by simp)

/-- A state with a decidable property, found by running a list of actions. -/
theorem exists_of_run (m : Lts σ α) (s₀ : σ) (l : List α) {P : σ → Bool}
    (h : (m.run l s₀).any P = true) : ∃ s, m.Reach Anything s₀ s ∧ P s = true := by
  obtain ⟨s, hs, hp⟩ := (Option.any_eq_true ..).mp h
  exact ⟨s, Reach.start.of_run (fun _ _ _ => trivial) hs, hp⟩

end Lts

end HyChat.Lib
