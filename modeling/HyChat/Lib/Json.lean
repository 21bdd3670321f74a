import Mathlib.Data.List.Sort
import Mathlib.Data.String.Basic

/-!
# JSON values and their canonical text

A JSON value, the printer that writes it with the compact separators and raw non-ASCII
characters, and the fact the printer is used for: **different values have different texts**
(`dumps_injective`), even when each is followed by more text (`text_cancel`). A digest of
the text therefore identifies the value as far as the digest is injective.

Two things are chosen with the printer in mind.

* A floating-point number is carried as the text it prints (`FloatText`). The shortest
  round-tripping decimal names the number, so nothing is lost, and the field that says what such
  a text looks like is exactly what keeps it apart from an integer.
* An object is a list of fields in insertion order. Equality up to order is equality after
  `sortKeys`, which is also what the sorting printer prints.

The injectivity is proved for a text that is followed by anything, since that is the form in which
it goes through the recursion: the text of an object is the text of its first field followed by the
rest. What may follow is a text that does not go on with the value, which matters for numbers: `1`
and `12` begin alike.

The fields of an object are a list and not a map because the order matters to the printer that does
not sort, and because a key can be there twice in what a program builds. Nothing here removes them.
-/

set_option autoImplicit false

namespace HyChat.Lib

/-- A character that can occur in a printed number. -/
def isNumChar (c : Char) : Bool :=
  c.isDigit || c == '-' || c == '+' || c == '.' || c == 'e'

/-- A character that a printed floating-point number has and a printed integer does not. -/
def isFloatMark (c : Char) : Bool := c == '.' || c == 'e'

/-- The text of a finite floating-point number. -/
structure FloatText where
  text : String
  chars : text.toList.all isNumChar = true
  mark : text.toList.any isFloatMark = true
  deriving DecidableEq

inductive Json where
  | null
  | bool (b : Bool)
  | int (n : Int)
  | float (f : FloatText)
  | str (s : String)
  | arr (xs : List Json)
  | obj (kvs : List (String × Json))

namespace Json

instance : Inhabited Json := ⟨.null⟩

/-! ## Equality is decidable -/

mutual
def beq : Json → Json → Bool
  | .null, .null => true
  | .bool a, .bool b => a == b
  | .int a, .int b => a == b
  | .float a, .float b => a == b
  | .str a, .str b => a == b
  | .arr a, .arr b => beqList a b
  | .obj a, .obj b => beqFields a b
  | _, _ => false
termination_by structural j => j

def beqList : List Json → List Json → Bool
  | [], [] => true
  | x :: xs, y :: ys => x.beq y && beqList xs ys
  | _, _ => false
termination_by structural xs => xs

def beqFields : List (String × Json) → List (String × Json) → Bool
  | [], [] => true
  | (k, x) :: xs, (k', y) :: ys => k == k' && x.beq y && beqFields xs ys
  | _, _ => false
termination_by structural xs => xs
end

mutual
theorem beq_iff : ∀ a b : Json, a.beq b = true ↔ a = b
  | .null, b => by cases b <;> simp [beq]
  | .bool a, b => by cases b <;> simp [beq]
  | .int a, b => by cases b <;> simp [beq]
  | .float a, b => by cases b <;> simp [beq]
  | .str a, b => by cases b <;> simp [beq]
  | .arr a, b => by cases b <;> simp [beq, beqList_iff a]
  | .obj a, b => by cases b <;> simp [beq, beqFields_iff a]

theorem beqList_iff : ∀ a b : List Json, beqList a b = true ↔ a = b
  | [], b => by cases b <;> simp [beqList]
  | x :: xs, b => by cases b <;> simp [beqList, beq_iff x, beqList_iff xs]

theorem beqFields_iff : ∀ a b : List (String × Json), beqFields a b = true ↔ a = b
  | [], b => by cases b <;> simp [beqFields]
  | (k, x) :: xs, b => by
    cases b with
    | nil => simp [beqFields]
    | cons p ys =>
      obtain ⟨k', y⟩ := p
      simp [beqFields, beq_iff x, beqFields_iff xs, and_assoc]
end

instance : DecidableEq Json := fun a b => decidable_of_iff _ (beq_iff a b)

/-! ## Sorted keys -/

mutual
/-- Every object's fields in the order of their keys, at every depth. -/
def sortKeys : Json → Json
  | .arr xs => .arr (sortKeysList xs)
  | .obj kvs => .obj ((sortKeysFields kvs).insertionSort fun p q => p.1 ≤ q.1)
  | j => j
termination_by structural j => j

def sortKeysList : List Json → List Json
  | [] => []
  | x :: xs => x.sortKeys :: sortKeysList xs
termination_by structural xs => xs

def sortKeysFields : List (String × Json) → List (String × Json)
  | [] => []
  | (k, x) :: xs => (k, x.sortKeys) :: sortKeysFields xs
termination_by structural xs => xs
end

/-! ## The printer -/

/-- One character inside a JSON string: the quote, the backslash and the control characters are
    escaped, everything else stands for itself. -/
def escapeChar (c : Char) : List Char :=
  if c = '"' then ['\\', '"']
  else if c = '\\' then ['\\', '\\']
  else if c = '\n' then ['\\', 'n']
  else if c = '\r' then ['\\', 'r']
  else if c = '\t' then ['\\', 't']
  else if c = '\x08' then ['\\', 'b']
  else if c = '\x0c' then ['\\', 'f']
  else if c.toNat < 32 then
    ['\\', 'u', '0', '0', (c.toNat / 16).digitChar, (c.toNat % 16).digitChar]
  else [c]

def escape (s : List Char) : List Char := s.flatMap escapeChar

def intText : Int → List Char
  | .ofNat n => Nat.toDigits 10 n
  | .negSucc n => '-' :: Nat.toDigits 10 (n + 1)

def quote (s : String) : List Char := '"' :: (escape s.toList ++ ['"'])

mutual
def text : Json → List Char
  | .null => ['n', 'u', 'l', 'l']
  | .bool true => ['t', 'r', 'u', 'e']
  | .bool false => ['f', 'a', 'l', 's', 'e']
  | .int n => intText n
  | .float f => f.text.toList
  | .str s => quote s
  | .arr xs => '[' :: textList xs
  | .obj kvs => '{' :: textFields kvs
termination_by structural j => j

/-- The elements of an array and the closing bracket. -/
def textList : List Json → List Char
  | [] => [']']
  | x :: xs => x.text ++ textListTail xs
termination_by structural xs => xs

def textListTail : List Json → List Char
  | [] => [']']
  | x :: xs => ',' :: (x.text ++ textListTail xs)
termination_by structural xs => xs

/-- The fields of an object and the closing brace. -/
def textFields : List (String × Json) → List Char
  | [] => ['}']
  | (k, x) :: xs => quote k ++ ':' :: (x.text ++ textFieldsTail xs)
termination_by structural xs => xs

def textFieldsTail : List (String × Json) → List Char
  | [] => ['}']
  | (k, x) :: xs => ',' :: (quote k ++ ':' :: (x.text ++ textFieldsTail xs))
termination_by structural xs => xs
end

/-! The text with a blank after every comma and colon, as `json.dumps` prints it by default. -/

mutual
def spaced : Json → List Char
  | .arr xs => '[' :: spacedList xs
  | .obj kvs => '{' :: spacedFields kvs
  | j => j.text
termination_by structural j => j

def spacedList : List Json → List Char
  | [] => [']']
  | x :: xs => x.spaced ++ spacedListTail xs
termination_by structural xs => xs

def spacedListTail : List Json → List Char
  | [] => [']']
  | x :: xs => ',' :: ' ' :: (x.spaced ++ spacedListTail xs)
termination_by structural xs => xs

def spacedFields : List (String × Json) → List Char
  | [] => ['}']
  | (k, x) :: xs => quote k ++ ':' :: ' ' :: (x.spaced ++ spacedFieldsTail xs)
termination_by structural xs => xs

def spacedFieldsTail : List (String × Json) → List Char
  | [] => ['}']
  | (k, x) :: xs => ',' :: ' ' :: (quote k ++ ':' :: ' ' :: (x.spaced ++ spacedFieldsTail xs))
termination_by structural xs => xs
end

/-- The text as a string. -/
def dumps (v : Json) : String := String.ofList v.text

/-! ## Strings read back

The escapes form a prefix code: what a printed character stands for is decided by the characters
of its own escape, so `unescape` needs no lookahead beyond them. -/

def hexVal (c : Char) : Nat := if c.isDigit then c.toNat - 48 else c.toNat - 87

theorem hexVal_digitChar : ∀ n < 16, hexVal n.digitChar = n := by decide

def unescape : List Char → Option (Char × List Char)
  | '\\' :: '"' :: r => some ('"', r)
  | '\\' :: '\\' :: r => some ('\\', r)
  | '\\' :: 'n' :: r => some ('\n', r)
  | '\\' :: 'r' :: r => some ('\r', r)
  | '\\' :: 't' :: r => some ('\t', r)
  | '\\' :: 'b' :: r => some ('\x08', r)
  | '\\' :: 'f' :: r => some ('\x0c', r)
  | '\\' :: 'u' :: '0' :: '0' :: a :: b :: r => some (Char.ofNat (16 * hexVal a + hexVal b), r)
  | c :: r => some (c, r)
  | [] => none

theorem unescape_escapeChar (c : Char) (r : List Char) :
    unescape (escapeChar c ++ r) = some (c, r) := by
  unfold escapeChar
  by_cases h1 : c = '"'
  · subst h1; rfl
  by_cases h2 : c = '\\'
  · subst h2; rfl
  by_cases h3 : c = '\n'
  · subst h3; rfl
  by_cases h4 : c = '\r'
  · subst h4; rfl
  by_cases h5 : c = '\t'
  · subst h5; rfl
  by_cases h6 : c = '\x08'
  · subst h6; rfl
  by_cases h7 : c = '\x0c'
  · subst h7; rfl
  by_cases h8 : c.toNat < 32
  · have ha := hexVal_digitChar (c.toNat / 16) (by omega)
    have hb := hexVal_digitChar (c.toNat % 16) (by omega)
    have hc : 16 * (c.toNat / 16) + c.toNat % 16 = c.toNat := by omega
    simp only [h1, h2, h3, h4, h5, h6, h7, h8, if_true, if_false, List.cons_append,
      List.nil_append, unescape, ha, hb, hc, Char.ofNat_toNat]
  · simp only [h1, h2, h3, h4, h5, h6, h7, h8, if_false, List.cons_append, List.nil_append]
    unfold unescape
    split <;> simp_all

theorem escapeChar_ne_quote (c : Char) (r r' : List Char) :
    escapeChar c ++ r ≠ '"' :: r' := by
  intro h
  have hc := unescape_escapeChar c r
  rw [h] at hc
  simp only [unescape] at hc
  cases hc
  simp [escapeChar] at h

/-- A printed string ends at its first bare quote. -/
theorem escape_cancel : ∀ {s s' r r' : List Char},
    escape s ++ '"' :: r = escape s' ++ '"' :: r' → s = s' ∧ r = r' := by
  intro s
  induction s with
  | nil =>
    intro s' r r' h
    cases s' with
    | nil => simpa [escape] using h
    | cons c cs =>
      simp only [escape, List.flatMap_nil, List.nil_append, List.flatMap_cons,
        List.append_assoc] at h
      exact absurd h.symm (escapeChar_ne_quote c _ _)
  | cons c cs ih =>
    intro s' r r' h
    cases s' with
    | nil =>
      simp only [escape, List.flatMap_nil, List.nil_append, List.flatMap_cons,
        List.append_assoc] at h
      exact absurd h (escapeChar_ne_quote c _ _)
    | cons d ds =>
      simp only [escape, List.flatMap_cons, List.append_assoc] at h
      have hu := congrArg unescape h
      rw [unescape_escapeChar, unescape_escapeChar] at hu
      simp only [Option.some.injEq, Prod.mk.injEq] at hu
      obtain ⟨rfl, ht⟩ := hu
      obtain ⟨rfl, hr⟩ := ih ht
      exact ⟨rfl, hr⟩

theorem quote_cancel {s s' : String} {r r' : List Char}
    (h : quote s ++ r = quote s' ++ r') : s = s' ∧ r = r' := by
  simp only [quote, List.cons_append, List.append_assoc, List.nil_append, List.cons.injEq,
    true_and] at h
  obtain ⟨hs, hr⟩ := escape_cancel h
  exact ⟨String.toList_injective hs, hr⟩

/-! ## Numbers read back -/

theorem toDigits_injective : ∀ {n m : Nat}, Nat.toDigits 10 n = Nat.toDigits 10 m → n = m := by
  intro n
  induction n using Nat.strongRecOn with
  | ind n ih =>
    intro m h
    have hlast : ∀ k, (Nat.toDigits 10 k).getLast? = some (k % 10).digitChar := by
      intro k
      by_cases hk : k < 10
      · rw [Nat.toDigits_of_lt_base hk, Nat.mod_eq_of_lt hk]
        rfl
      · rw [Nat.toDigits_of_base_le (by decide) (Nat.le_of_not_lt hk)]
        simp
    have hmod : n % 10 = m % 10 := by
      have hd := hlast n
      rw [h, hlast m, Option.some.injEq] at hd
      have hv := congrArg hexVal hd
      rw [hexVal_digitChar _ (by omega), hexVal_digitChar _ (by omega)] at hv
      exact hv.symm
    have hlen : ∀ k, (Nat.toDigits 10 k).dropLast = if k < 10 then [] else
        Nat.toDigits 10 (k / 10) := by
      intro k
      by_cases hk : k < 10
      · rw [if_pos hk, Nat.toDigits_of_lt_base hk]
        rfl
      · rw [if_neg hk, Nat.toDigits_of_base_le (by decide) (Nat.le_of_not_lt hk)]
        simp
    have hdrop := hlen n
    rw [h, hlen m] at hdrop
    by_cases hn : n < 10 <;> by_cases hm : m < 10
    · omega
    · rw [if_neg hm, if_pos hn] at hdrop
      exact absurd hdrop Nat.toDigits_ne_nil
    · rw [if_pos hm, if_neg hn] at hdrop
      exact absurd hdrop.symm Nat.toDigits_ne_nil
    · rw [if_neg hm, if_neg hn] at hdrop
      have := ih (n / 10) (by omega) hdrop.symm
      omega

theorem isDigit_of_mem {n : Nat} {c : Char} (h : c ∈ Nat.toDigits 10 n) : c.isDigit = true :=
  Nat.isDigit_of_mem_toDigits (by decide) (by decide) h

theorem intText_injective {n m : Int} (h : intText n = intText m) : n = m := by
  cases n with
  | ofNat n =>
    cases m with
    | ofNat m => rw [toDigits_injective h]
    | negSucc m =>
      have hc : '-' ∈ Nat.toDigits 10 n := by
        rw [show Nat.toDigits 10 n = intText (.ofNat n) from rfl, h]
        exact List.mem_cons_self
      exact absurd (isDigit_of_mem hc) (by decide)
  | negSucc n =>
    cases m with
    | ofNat m =>
      have hc : '-' ∈ Nat.toDigits 10 m := by
        rw [show Nat.toDigits 10 m = intText (.ofNat m) from rfl, ← h]
        exact List.mem_cons_self
      exact absurd (isDigit_of_mem hc) (by decide)
    | negSucc m =>
      have := toDigits_injective (List.cons.inj h).2
      rw [Nat.succ.inj this]

theorem intText_ne_nil (n : Int) : intText n ≠ [] := by
  cases n with
  | ofNat n => exact Nat.toDigits_ne_nil
  | negSucc n => simp [intText]

theorem intText_chars (n : Int) : ∀ c ∈ intText n, isNumChar c = true ∧ isFloatMark c = false := by
  have hd : ∀ c : Char, c.isDigit = true → isNumChar c = true ∧ isFloatMark c = false := by
    intro c hc
    refine ⟨by simp [isNumChar, hc], ?_⟩
    by_cases h1 : c = '.'
    · subst h1; exact absurd hc (by decide)
    · by_cases h2 : c = 'e'
      · subst h2; exact absurd hc (by decide)
      · simp [isFloatMark, h1, h2]
  intro c hc
  cases n with
  | ofNat n => exact hd c (isDigit_of_mem hc)
  | negSucc n =>
    rcases List.mem_cons.mp hc with rfl | hc
    · exact ⟨by decide, by decide⟩
    · exact hd c (isDigit_of_mem hc)

/-- What follows a value never continues a number. -/
def Ends (r : List Char) : Prop := ∀ c ∈ r.head?, isNumChar c = false

theorem number_cancel : ∀ {t t' r r' : List Char}, (∀ c ∈ t, isNumChar c = true) →
    (∀ c ∈ t', isNumChar c = true) → Ends r → Ends r' → t ++ r = t' ++ r' → t = t' ∧ r = r' := by
  intro t
  induction t with
  | nil =>
    intro t' r r' _ ht' hr _ h
    cases t' with
    | nil => exact ⟨rfl, h⟩
    | cons c cs =>
      have hc := hr c (by rw [List.nil_append] at h; rw [h]; rfl)
      rw [ht' c List.mem_cons_self] at hc
      exact absurd hc (by decide)
  | cons c cs ih =>
    intro t' r r' ht ht' hr hr' h
    cases t' with
    | nil =>
      have hc := hr' c (by rw [List.nil_append] at h; rw [← h]; rfl)
      rw [ht c List.mem_cons_self] at hc
      exact absurd hc (by decide)
    | cons d ds =>
      obtain ⟨rfl, htl⟩ := List.cons.inj h
      obtain ⟨rfl, hrr⟩ := ih (fun x hx => ht x (List.mem_cons_of_mem _ hx))
        (fun x hx => ht' x (List.mem_cons_of_mem _ hx)) hr hr' htl
      exact ⟨rfl, hrr⟩

/-! ## The text determines the value -/

/-- The sort of value a text beginning with `c` can be the text of. The closing brackets and the
    comma begin none. -/
def charKind (c : Char) : Nat :=
  if c = 'n' then 0 else if c = 't' then 1 else if c = 'f' then 2 else if c = '"' then 3
  else if c = '[' then 4 else if c = '{' then 5 else if isNumChar c then 6 else 7

def kind : Json → Nat
  | .null => 0
  | .bool true => 1
  | .bool false => 2
  | .str _ => 3
  | .arr _ => 4
  | .obj _ => 5
  | .int _ => 6
  | .float _ => 6

theorem charKind_of_isNumChar {c : Char} (h : isNumChar c = true) : charKind c = 6 := by
  have hne : ∀ d : Char, isNumChar d = false → c ≠ d := by
    rintro d hd rfl
    rw [h] at hd
    exact absurd hd (by decide)
  simp [charKind, hne 'n' (by decide), hne 't' (by decide), hne 'f' (by decide),
    hne '"' (by decide), hne '[' (by decide), hne '{' (by decide), h]

theorem head_text (v : Json) : ∃ c t, v.text = c :: t ∧ charKind c = v.kind := by
  cases v with
  | null => exact ⟨_, _, by rw [text], by decide⟩
  | bool b => cases b <;> exact ⟨_, _, by rw [text], by decide⟩
  | int n =>
    cases ht : intText n with
    | nil => exact absurd ht (intText_ne_nil n)
    | cons c t =>
      exact ⟨c, t, by rw [text, ht],
        charKind_of_isNumChar (intText_chars n c (by rw [ht]; exact List.mem_cons_self)).1⟩
  | float f =>
    cases ht : f.text.toList with
    | nil =>
      have := f.mark
      rw [ht] at this
      simp at this
    | cons c t =>
      have hc := List.all_eq_true.mp f.chars c (by rw [ht]; exact List.mem_cons_self)
      exact ⟨c, t, by rw [text, ht], charKind_of_isNumChar hc⟩
  | str s => exact ⟨_, _, by rw [text, quote], by simp [charKind, kind]⟩
  | arr xs => exact ⟨_, _, by rw [text], by simp [charKind, kind]⟩
  | obj kvs => exact ⟨_, _, by rw [text], by simp [charKind, kind]⟩

theorem kind_lt (v : Json) : v.kind < 7 := by
  cases v with
  | bool b => cases b <;> simp [kind]
  | _ => simp [kind]

theorem kind_eq_of_text {v w : Json} {r r' : List Char} (h : v.text ++ r = w.text ++ r') :
    v.kind = w.kind := by
  obtain ⟨c, t, hc, hk⟩ := v.head_text
  obtain ⟨d, u, hd, hk'⟩ := w.head_text
  rw [hc, hd] at h
  rw [← hk, ← hk', (List.cons.inj h).1]

/-- No value's text begins with a character of no value. -/
theorem text_ne_of_charKind {v : Json} {c : Char} {r r' : List Char} (hc : charKind c = 7) :
    v.text ++ r ≠ c :: r' := by
  intro h
  obtain ⟨d, u, hd, hk⟩ := v.head_text
  rw [hd] at h
  have := v.kind_lt
  rw [← hk, (List.cons.inj h).1, hc] at this
  omega

theorem ends_cons {c : Char} {r : List Char} (h : isNumChar c = false) : Ends (c :: r) := by
  intro d hd
  simp only [List.head?_cons, Option.mem_def, Option.some.injEq] at hd
  subst hd
  exact h

theorem ends_textListTail (xs : List Json) (r : List Char) : Ends (textListTail xs ++ r) := by
  cases xs with
  | nil => rw [textListTail]; exact ends_cons (by decide)
  | cons x xs => rw [textListTail]; exact ends_cons (by decide)

theorem ends_textFieldsTail (xs : List (String × Json)) (r : List Char) :
    Ends (textFieldsTail xs ++ r) := by
  cases xs with
  | nil => rw [textFieldsTail]; exact ends_cons (by decide)
  | cons x xs => rw [textFieldsTail]; exact ends_cons (by decide)

mutual
/-- **A value's text is not a proper prefix of another's**, as long as what follows does not
    continue a number: the printed values and what follows them can be told apart. -/
theorem text_cancel : ∀ (v w : Json) {r r' : List Char}, Ends r → Ends r' →
    v.text ++ r = w.text ++ r' → v = w ∧ r = r'
  | .null, w, r, r', _, _, h => by
    have hk := kind_eq_of_text h
    cases w with
    | null => simpa [text] using h
    | bool b => cases b <;> simp [kind] at hk
    | _ => simp [kind] at hk
  | .bool b, w, r, r', _, _, h => by
    have hk := kind_eq_of_text h
    cases w with
    | bool b' => cases b <;> cases b' <;> simp [kind] at hk <;> simpa [text] using h
    | _ => cases b <;> simp [kind] at hk
  | .int n, w, r, r', hr, hr', h => by
    have hk := kind_eq_of_text h
    cases w with
    | int m =>
      simp only [text] at h
      obtain ⟨ht, hrr⟩ := number_cancel (fun c hc => (intText_chars n c hc).1)
        (fun c hc => (intText_chars m c hc).1) hr hr' h
      exact ⟨by rw [intText_injective ht], hrr⟩
    | float f =>
      simp only [text] at h
      obtain ⟨ht, -⟩ := number_cancel (fun c hc => (intText_chars n c hc).1)
        (fun c hc => List.all_eq_true.mp f.chars c hc) hr hr' h
      obtain ⟨c, hc, hm⟩ := List.any_eq_true.mp f.mark
      rw [← ht] at hc
      rw [(intText_chars n c hc).2] at hm
      exact absurd hm (by decide)
    | bool b => cases b <;> simp [kind] at hk
    | _ => simp [kind] at hk
  | .float f, w, r, r', hr, hr', h => by
    have hk := kind_eq_of_text h
    cases w with
    | int n =>
      simp only [text] at h
      obtain ⟨ht, -⟩ := number_cancel (fun c hc => List.all_eq_true.mp f.chars c hc)
        (fun c hc => (intText_chars n c hc).1) hr hr' h
      obtain ⟨c, hc, hm⟩ := List.any_eq_true.mp f.mark
      rw [ht] at hc
      rw [(intText_chars n c hc).2] at hm
      exact absurd hm (by decide)
    | float g =>
      simp only [text] at h
      obtain ⟨ht, hrr⟩ := number_cancel (fun c hc => List.all_eq_true.mp f.chars c hc)
        (fun c hc => List.all_eq_true.mp g.chars c hc) hr hr' h
      obtain ⟨s, _, _⟩ := f
      obtain ⟨s', _, _⟩ := g
      have hs : s = s' := String.toList_injective ht
      subst hs
      exact ⟨rfl, hrr⟩
    | bool b => cases b <;> simp [kind] at hk
    | _ => simp [kind] at hk
  | .str s, w, r, r', _, _, h => by
    have hk := kind_eq_of_text h
    cases w with
    | str s' =>
      simp only [text] at h
      obtain ⟨rfl, hr⟩ := quote_cancel h
      exact ⟨rfl, hr⟩
    | bool b => cases b <;> simp [kind] at hk
    | _ => simp [kind] at hk
  | .arr xs, w, r, r', _, _, h => by
    have hk := kind_eq_of_text h
    cases w with
    | arr ys =>
      simp only [text, List.cons_append, List.cons.injEq, true_and] at h
      obtain ⟨rfl, hr⟩ := textList_cancel xs ys h
      exact ⟨rfl, hr⟩
    | bool b => cases b <;> simp [kind] at hk
    | _ => simp [kind] at hk
  | .obj xs, w, r, r', _, _, h => by
    have hk := kind_eq_of_text h
    cases w with
    | obj ys =>
      simp only [text, List.cons_append, List.cons.injEq, true_and] at h
      obtain ⟨rfl, hr⟩ := textFields_cancel xs ys h
      exact ⟨rfl, hr⟩
    | bool b => cases b <;> simp [kind] at hk
    | _ => simp [kind] at hk

theorem textList_cancel : ∀ (xs ys : List Json) {r r' : List Char},
    textList xs ++ r = textList ys ++ r' → xs = ys ∧ r = r'
  | [], [], r, r', h => by simpa [textList] using h
  | [], y :: ys, r, r', h => by
    simp only [textList, List.cons_append, List.nil_append, List.append_assoc] at h
    exact absurd h.symm (text_ne_of_charKind (by decide))
  | x :: xs, [], r, r', h => by
    simp only [textList, List.cons_append, List.nil_append, List.append_assoc] at h
    exact absurd h (text_ne_of_charKind (by decide))
  | x :: xs, y :: ys, r, r', h => by
    simp only [textList, List.append_assoc] at h
    obtain ⟨rfl, htl⟩ := text_cancel x y (ends_textListTail xs r) (ends_textListTail ys r') h
    obtain ⟨rfl, hr⟩ := textListTail_cancel xs ys htl
    exact ⟨rfl, hr⟩

theorem textListTail_cancel : ∀ (xs ys : List Json) {r r' : List Char},
    textListTail xs ++ r = textListTail ys ++ r' → xs = ys ∧ r = r'
  | [], [], r, r', h => by simpa [textListTail] using h
  | [], y :: ys, r, r', h => by
    simp only [textListTail, List.cons_append] at h
    exact absurd (List.cons.inj h).1 (by decide)
  | x :: xs, [], r, r', h => by
    simp only [textListTail, List.cons_append] at h
    exact absurd (List.cons.inj h).1 (by decide)
  | x :: xs, y :: ys, r, r', h => by
    simp only [textListTail, List.cons_append, List.append_assoc, List.cons.injEq,
      true_and] at h
    obtain ⟨rfl, htl⟩ := text_cancel x y (ends_textListTail xs r) (ends_textListTail ys r') h
    obtain ⟨rfl, hr⟩ := textListTail_cancel xs ys htl
    exact ⟨rfl, hr⟩

theorem textFields_cancel : ∀ (xs ys : List (String × Json)) {r r' : List Char},
    textFields xs ++ r = textFields ys ++ r' → xs = ys ∧ r = r'
  | [], [], r, r', h => by simpa [textFields] using h
  | [], (k, y) :: ys, r, r', h => by
    simp only [textFields, quote, List.cons_append] at h
    exact absurd (List.cons.inj h).1 (by decide)
  | (k, x) :: xs, [], r, r', h => by
    simp only [textFields, quote, List.cons_append] at h
    exact absurd (List.cons.inj h).1 (by decide)
  | (k, x) :: xs, (k', y) :: ys, r, r', h => by
    simp only [textFields, List.append_assoc, List.cons_append] at h
    obtain ⟨rfl, hv⟩ := quote_cancel h
    simp only [List.cons.injEq, true_and] at hv
    obtain ⟨rfl, htl⟩ := text_cancel x y (ends_textFieldsTail xs r) (ends_textFieldsTail ys r') hv
    obtain ⟨rfl, hr⟩ := textFieldsTail_cancel xs ys htl
    exact ⟨rfl, hr⟩

theorem textFieldsTail_cancel : ∀ (xs ys : List (String × Json)) {r r' : List Char},
    textFieldsTail xs ++ r = textFieldsTail ys ++ r' → xs = ys ∧ r = r'
  | [], [], r, r', h => by simpa [textFieldsTail] using h
  | [], (k, y) :: ys, r, r', h => by
    simp only [textFieldsTail, List.cons_append] at h
    exact absurd (List.cons.inj h).1 (by decide)
  | (k, x) :: xs, [], r, r', h => by
    simp only [textFieldsTail, List.cons_append] at h
    exact absurd (List.cons.inj h).1 (by decide)
  | (k, x) :: xs, (k', y) :: ys, r, r', h => by
    simp only [textFieldsTail, List.append_assoc, List.cons_append, List.cons.injEq,
      true_and] at h
    obtain ⟨rfl, hv⟩ := quote_cancel h
    simp only [List.cons.injEq, true_and] at hv
    obtain ⟨rfl, htl⟩ := text_cancel x y (ends_textFieldsTail xs r) (ends_textFieldsTail ys r') hv
    obtain ⟨rfl, hr⟩ := textFieldsTail_cancel xs ys htl
    exact ⟨rfl, hr⟩
end

theorem ends_nil : Ends [] := by
  intro c hc
  simp at hc

/-- **Different values print differently.** -/
theorem dumps_injective {v w : Json} (h : v.dumps = w.dumps) : v = w := by
  have ht : v.text = w.text := by
    have := congrArg String.toList h
    simpa [dumps] using this
  exact (text_cancel v w ends_nil ends_nil (by rw [ht])).1

end Json

end HyChat.Lib
