import Mathlib.Algebra.Group.Nat.Defs
import Mathlib.Data.List.TakeWhile

/-!
# Texts of the languages

Every language has its own idea of white space, and a function that takes it off both ends. The
function is always the same one, so it is defined once, over the characters to be taken off, and
each language gives its own set: `Py` here, `Js` beside the rest of JavaScript's texts. What Python
and JavaScript disagree on are the separators `0x1c` to `0x1f` and `0x85`, which only Python takes
for white space, and the byte order mark, which only JavaScript does.

A number is written with `:g` from six significant digits, which are computed here without floats:
the quotients that are written this way have a power of two under the line.
-/

set_option autoImplicit false

namespace HyChat

namespace Lib

variable {α : Type}

/-- Without the elements at either end that `p` holds of -/
def stripWhile (p : α → Bool) (l : List α) : List α :=
  ((l.dropWhile p).reverse.dropWhile p).reverse

theorem stripWhile_eq_self {p : α → Bool} {l : List α} (h : ∀ a ∈ l, p a = false) :
    stripWhile p l = l := by
  have hdrop : ∀ t : List α, (∀ a ∈ t, p a = false) → t.dropWhile p = t := by
    intro t ht
    cases t with
    | nil => rfl
    | cons a t => rw [List.dropWhile_cons_of_neg (by simp [ht a List.mem_cons_self])]
  unfold stripWhile
  rw [hdrop l h, hdrop _ fun a ha => h a (List.mem_reverse.mp ha), List.reverse_reverse]

/-! ## What a stripped text starts with -/

variable {β : Type} {p q : α → Bool} {f : α → β} {start : List β}

theorem dropWhile_eq_stripWhile_append (p : α → Bool) (l : List α) :
    ∃ tail, l.dropWhile p = stripWhile p l ++ tail ∧ ∀ a ∈ tail, p a = true := by
  refine ⟨((l.dropWhile p).reverse.takeWhile p).reverse, ?_, fun a ha => ?_⟩
  · unfold stripWhile
    rw [← List.reverse_append, List.takeWhile_append_dropWhile, List.reverse_reverse]
  · exact List.mem_takeWhile_imp (List.mem_reverse.mp ha)

/-- What is taken off the end is no part of a start that has nothing of it. -/
theorem prefix_stripWhile_iff (h : ∀ a, p a = true → f a ∉ start) (l : List α) :
    start <+: (stripWhile p l).map f ↔ start <+: (l.dropWhile p).map f := by
  obtain ⟨tail, hsplit, htail⟩ := dropWhile_eq_stripWhile_append p l
  have hprefix : (stripWhile p l).map f <+: (l.dropWhile p).map f := by
    rw [hsplit, List.map_append]
    exact List.prefix_append _ _
  constructor
  · exact fun hstart => hstart.trans hprefix
  · intro hstart
    rcases List.prefix_or_prefix_of_prefix hstart hprefix with hshort | ⟨more, rfl⟩
    · exact hshort
    · cases more with
      | nil => simp
      | cons b more =>
        -- the next element of the start would be one that has been taken off
        exfalso
        rw [hsplit, List.map_append, List.prefix_append_right_inj] at hstart
        have hb : b ∈ tail.map f := hstart.subset List.mem_cons_self
        obtain ⟨a, ha, rfl⟩ := List.mem_map.mp hb
        exact h a (htail a ha) (by simp)

theorem dropWhile_of_prefix (h : ∀ a, p a = true → f a ∉ start) (hne : start ≠ []) {rest : List α}
    (hstart : start <+: rest.map f) : rest.dropWhile p = rest := by
  cases rest with
  | nil => exact absurd (List.prefix_nil.mp hstart) hne
  | cons a rest =>
    refine List.dropWhile_cons_of_neg fun ha => h a ha ?_
    obtain ⟨b, more, rfl⟩ := List.exists_cons_of_ne_nil hne
    rw [List.map_cons, List.cons_prefix_cons] at hstart
    simp [hstart.1]

/-- **Two strippings apart**: one text starts so and the other does not exactly when there is
    something before the start that only the first takes off. -/
theorem prefix_stripWhile_apart_iff (hp : ∀ a, p a = true → f a ∉ start)
    (hq : ∀ a, q a = true → f a ∉ start) (hne : start ≠ []) (l : List α) :
    (start <+: (stripWhile p l).map f ∧ ¬ start <+: (stripWhile q l).map f) ↔
      ∃ blank rest, l = blank ++ rest ∧ (∀ a ∈ blank, p a = true) ∧ (∃ a ∈ blank, q a = false) ∧
        start <+: rest.map f := by
  rw [prefix_stripWhile_iff hp, prefix_stripWhile_iff hq]
  constructor
  · rintro ⟨hstart, hnot⟩
    refine ⟨l.takeWhile p, l.dropWhile p, List.takeWhile_append_dropWhile.symm,
      fun a ha => List.mem_takeWhile_imp ha, ?_, hstart⟩
    by_contra hnone
    have hblank : ∀ a ∈ l.takeWhile p, q a = true := by
      intro a ha
      rw [← Bool.not_eq_false]
      exact fun hqa => hnone ⟨a, ha, hqa⟩
    have hdrop : l.dropWhile q = l.dropWhile p :=
      calc l.dropWhile q = (l.takeWhile p ++ l.dropWhile p).dropWhile q := by
            rw [List.takeWhile_append_dropWhile]
        _ = (l.dropWhile p).dropWhile q := List.dropWhile_append_of_pos hblank
        _ = l.dropWhile p := dropWhile_of_prefix hq hne hstart
    exact hnot (hdrop ▸ hstart)
  · rintro ⟨blank, rest, rfl, hblank, ⟨a, ha, hqa⟩, hstart⟩
    refine ⟨?_, fun hother => ?_⟩
    · rw [List.dropWhile_append_of_pos hblank, dropWhile_of_prefix hp hne hstart]
      exact hstart
    · -- the other stripping stops inside of what the first one takes off
      obtain ⟨first, hfirst, hmem⟩ : ∃ c, ((blank ++ rest).dropWhile q).head? = some c ∧ c ∈ blank := by
        clear hblank hother hstart
        induction blank with
        | nil => exact absurd ha List.not_mem_nil
        | cons c blank ih =>
          by_cases hc : q c = true
          · rcases List.mem_cons.mp ha with rfl | ha
            · rw [hc] at hqa
              cases hqa
            · obtain ⟨first, hfirst, hmem⟩ := ih ha
              refine ⟨first, ?_, List.mem_cons_of_mem _ hmem⟩
              rw [List.cons_append, List.dropWhile_cons_of_pos hc]
              exact hfirst
          · refine ⟨c, ?_, List.mem_cons_self⟩
            rw [List.cons_append, List.dropWhile_cons_of_neg hc]
            rfl
      obtain ⟨tail, htail⟩ := List.head?_eq_some_iff.mp hfirst
      obtain ⟨b, more, rfl⟩ := List.exists_cons_of_ne_nil hne
      rw [htail, List.map_cons, List.cons_prefix_cons] at hother
      exact hp first (hblank first hmem) (by simp [hother.1])

namespace Py

/-- `str.isspace` of one character: what `strip` and `split` take off, and what `\s` matches -/
def isSpace (c : Char) : Bool :=
  let n := c.toNat
  (9 ≤ n && n ≤ 13) || (28 ≤ n && n ≤ 32) || n == 0x85 || n == 0xa0 || n == 0x1680 ||
    (0x2000 ≤ n && n ≤ 0x200a) || n == 0x2028 || n == 0x2029 || n == 0x202f || n == 0x205f ||
    n == 0x3000

/-- `str.strip()` -/
def strip (text : List Char) : List Char := stripWhile isSpace text

/-- `str.strip(chars)` -/
def stripChars (chars text : List Char) : List Char := stripWhile chars.contains text

/-! ## Numbers -/

/-- The quotient, rounded to the nearest number, and to the even one of two -/
def roundHalfEven (a b : Nat) : Nat :=
  let q := a / b
  if 2 * (a % b) < b || (2 * (a % b) == b && q % 2 == 0) then q else q + 1

/-- Six significant digits of `a / b`, and the place of the first one, counted from `10⁻⁴` on -/
def sixDigits (a b : Nat) : Nat × Nat :=
  let place := (Nat.toDigits 10 (a * 10 ^ 4 / b)).length - 1
  let digits := roundHalfEven (a * 10 ^ (9 - place)) (b * 10 ^ (place - 9))
  if digits = 10 ^ 6 then (10 ^ 5, place + 1) else (digits, place)

/-- The point and the digits after it, without the zeros at the end -/
def fraction (digits : List Char) : List Char :=
  match (digits.reverse.dropWhile fun c => c == '0').reverse with
  | [] => []
  | kept => '.' :: kept

/-- `f"{a / b:g}"` of natural numbers whose quotient is at least `10⁻⁴` and is a float. From a
    million on it is written with an exponent. -/
def formatG (a b : Nat) : String :=
  let (six, place) := sixDigits a b
  let digits := Nat.toDigits 10 six
  if place < 10 then
    let padded := List.replicate (10 - place - digits.length) '0' ++ digits
    let whole := padded.length - (9 - place)
    String.ofList (padded.take whole ++ fraction (padded.drop whole))
  else
    let exponent := Nat.toDigits 10 (place - 4)
    String.ofList (digits.take 1 ++ fraction (digits.drop 1) ++ ['e', '+'] ++
      List.replicate (2 - exponent.length) '0' ++ exponent)

example : formatG 1500000 (1024 * 1024) = "1.43051" := by decide +kernel

end Py

end Lib

end HyChat
