import HyChat.Lib.Json
import HyChat.Lib.EventStream
import Mathlib.Tactic.SplitIfs

/-!
# The text of a JSON value is one line

The printer escapes the control characters of a string and puts none anywhere else, so what it
prints has no line break and may stand in a format that is read line by line (`printed_spaced`).

A string is the only part of a value that a line break could come from, and there it is printed as
an escape. The other control characters are escaped as well, which formats that split lines
elsewhere than at a line feed rely on.
-/

set_option autoImplicit false

namespace HyChat.Lib.Json

/-- No control character -/
def Printed (text : List Char) : Prop := ∀ c ∈ text, 32 ≤ c.toNat

instance (text : List Char) : Decidable (Printed text) :=
  List.decidableBAll (fun c : Char => 32 ≤ c.toNat) text

theorem Printed.append {first second : List Char} (hfirst : Printed first)
    (hsecond : Printed second) : Printed (first ++ second) :=
  List.forall_mem_append.mpr ⟨hfirst, hsecond⟩

theorem Printed.cons {c : Char} {text : List Char} (hc : 32 ≤ c.toNat) (htext : Printed text) :
    Printed (c :: text) :=
  List.forall_mem_cons.mpr ⟨hc, htext⟩

theorem Printed.oneLine {text : List Char} (h : Printed text) : EventStream.OneLine text := by
  intro c hc
  constructor
  · rintro rfl
    exact absurd (h _ hc) (by decide)
  · rintro rfl
    exact absurd (h _ hc) (by decide)

theorem printed_digitChar : ∀ n < 16, 32 ≤ n.digitChar.toNat := by decide

theorem printed_escapeChar (c : Char) : Printed (escapeChar c) := by
  unfold escapeChar
  split_ifs with h₁ h₂ h₃ h₄ h₅ h₆ h₇ h₈
  · decide
  · decide
  · decide
  · decide
  · decide
  · decide
  · decide
  · have hhigh := printed_digitChar (c.toNat / 16) (by omega)
    have hlow := printed_digitChar (c.toNat % 16) (by omega)
    simp [Printed, hhigh, hlow]
  · intro c' hc'
    rw [List.mem_singleton.mp hc']
    omega

theorem printed_quote (s : String) : Printed (quote s) := by
  refine .cons (by decide) (.append ?_ (by decide))
  intro c hc
  obtain ⟨c', -, hc'⟩ := List.mem_flatMap.mp hc
  exact printed_escapeChar c' c hc'

theorem printed_isNumChar {c : Char} (h : isNumChar c = true) : 32 ≤ c.toNat := by
  simp only [isNumChar, Bool.or_eq_true, beq_iff_eq] at h
  rcases h with (((h | rfl) | rfl) | rfl) | rfl
  · simp only [Char.isDigit, Bool.and_eq_true, decide_eq_true_eq] at h
    have hlow : (48 : Nat) ≤ c.toNat := h.1
    omega
  · decide
  · decide
  · decide
  · decide

mutual
/-- **Every character of a printed value** is above the control characters. -/
theorem printed_spaced : ∀ v : Json, Printed v.spaced
  | .null => by decide
  | .bool true => by decide
  | .bool false => by decide
  | .int n => fun c hc => printed_isNumChar (intText_chars n c hc).1
  | .float f => fun c hc => printed_isNumChar (List.all_eq_true.mp f.chars c hc)
  | .str s => printed_quote s
  | .arr xs => .cons (by decide) (printed_spacedList xs)
  | .obj kvs => .cons (by decide) (printed_spacedFields kvs)

theorem printed_spacedList : ∀ xs : List Json, Printed (spacedList xs)
  | [] => by decide
  | x :: xs => (printed_spaced x).append (printed_spacedListTail xs)

theorem printed_spacedListTail : ∀ xs : List Json, Printed (spacedListTail xs)
  | [] => by decide
  | x :: xs =>
      .cons (by decide) (.cons (by decide) ((printed_spaced x).append (printed_spacedListTail xs)))

theorem printed_spacedFields : ∀ kvs : List (String × Json), Printed (spacedFields kvs)
  | [] => by decide
  | (k, x) :: kvs =>
      (printed_quote k).append (.cons (by decide) (.cons (by decide)
        ((printed_spaced x).append (printed_spacedFieldsTail kvs))))

theorem printed_spacedFieldsTail : ∀ kvs : List (String × Json), Printed (spacedFieldsTail kvs)
  | [] => by decide
  | (k, x) :: kvs =>
      .cons (by decide) (.cons (by decide) ((printed_quote k).append (.cons (by decide)
        (.cons (by decide) ((printed_spaced x).append (printed_spacedFieldsTail kvs))))))
end

end HyChat.Lib.Json
