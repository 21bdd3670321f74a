import Mathlib.Data.List.Basic

/-!
# Logs, the newest entry first

What a system has done is a list that grows at its head, and what the log was earlier is a suffix
of it. A property of a log says of every entry what has come before it.
-/

set_option autoImplicit false

namespace HyChat.Lib.Log

variable {ε : Type} {P : ε → List ε → Prop} {Q : List ε → Prop}

/-- Every entry meets the property with the entries before it. -/
def Every (P : ε → List ε → Prop) : List ε → Prop
  | [] => True
  | e :: log => P e log ∧ Every P log

/-- **What the property says.** -/
theorem every_iff {log : List ε} :
    Every P log ↔ ∀ later e earlier, log = later ++ e :: earlier → P e earlier := by
  induction log with
  | nil => simp [Every]
  | cons first log ih =>
    rw [Every, ih]
    constructor
    · rintro ⟨hfirst, hlog⟩ later e earlier he
      cases later with
      | nil =>
        obtain ⟨rfl, rfl⟩ := List.cons.inj he
        exact hfirst
      | cons _ later => exact hlog later e earlier (List.cons.inj he).2
    · intro h
      refine ⟨h [] first log rfl, fun later e earlier he => ?_⟩
      exact h (first :: later) e earlier (by rw [he, List.cons_append])

/-- What the newest entry carries over from every earlier moment is true at all of them. -/
theorem Every.moments {log : List ε} (h : Every P log) (hnil : Q [])
    (hcons : ∀ e earlier, P e earlier → (∀ moment, moment <:+ earlier → Q moment) →
      Q (e :: earlier)) :
    ∀ moment, moment <:+ log → Q moment := by
  induction log with
  | nil =>
    intro moment hmoment
    rw [List.suffix_nil.mp hmoment]
    exact hnil
  | cons e earlier ih =>
    have hearlier := ih h.2
    intro moment hmoment
    rcases List.suffix_cons_iff.mp hmoment with rfl | hmoment
    · exact hcons e earlier h.1 hearlier
    · exact hearlier moment hmoment

/-! ## What was true once -/

/-- The log had the property at some moment. -/
def Once (Q : List ε → Prop) (log : List ε) : Prop := ∃ moment, moment <:+ log ∧ Q moment

theorem Once.now {log : List ε} (h : Q log) : Once Q log := ⟨log, List.suffix_refl log, h⟩

theorem Once.later {log : List ε} (h : Once Q log) (more : List ε) : Once Q (more ++ log) := by
  obtain ⟨moment, hmoment, hq⟩ := h
  exact ⟨moment, hmoment.trans (List.suffix_append more log), hq⟩

end HyChat.Lib.Log
