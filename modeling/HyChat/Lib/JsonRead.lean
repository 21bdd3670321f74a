import HyChat.Lib.Json
import HyChat.Lib.Dict
import Mathlib.Data.List.TakeWhile

/-!
# JSON texts read back

`json.loads` as a recursive descent over the characters, and **the round trip**: what `json.dumps`
prints with a blank after every comma and colon is read back as the value it was printed from
(`loads_spaced`).

How a float is rounded is left to a parameter, which gives for the text of a number the text its
value prints. A value is `Readable` when its floats print texts that are read back as themselves,
and no dictionary in it has a key twice. A lone surrogate is no character here, so a text that
escapes one is not read.

The reader gives back the text that is left; the round trip is proved for texts that are followed
by anything that cannot be read as more of the value, as the injectivity of the printer is. A text
that is not the print of any value may be read too, with other blanks or escapes; what the reader
makes of it is defined, and nothing is proved of it but that it is one value or none.
-/

set_option autoImplicit false

namespace HyChat.Lib.Json

/-! ## The reader -/

def isBlank (c : Char) : Bool := c == ' ' || c == '\t' || c == '\n' || c == '\r'

def skip (text : List Char) : List Char := text.dropWhile isBlank

/-- The value of a hexadecimal digit -/
def hexDigit? (c : Char) : Option Nat :=
  if c.isDigit then some (c.toNat - 48)
  else if 'a' ≤ c ∧ c ≤ 'f' then some (c.toNat - 87)
  else if 'A' ≤ c ∧ c ≤ 'F' then some (c.toNat - 55)
  else none

/-- The four digits after `\u` -/
def hex4 (a b c d : Char) : Option Nat := do
  let a ← hexDigit? a
  let b ← hexDigit? b
  let c ← hexDigit? c
  let d ← hexDigit? d
  pure (((16 * a + b) * 16 + c) * 16 + d)

/-- `c` before what has been read -/
def before (c : Char) (read : Option (List Char × List Char)) : Option (List Char × List Char) :=
  read.map fun p => (c :: p.1, p.2)

/-- The characters of a string up to the closing quote, and what follows it -/
def readChars : List Char → Option (List Char × List Char)
  | '"' :: rest => some ([], rest)
  | '\\' :: '"' :: rest => before '"' (readChars rest)
  | '\\' :: '\\' :: rest => before '\\' (readChars rest)
  | '\\' :: '/' :: rest => before '/' (readChars rest)
  | '\\' :: 'n' :: rest => before '\n' (readChars rest)
  | '\\' :: 'r' :: rest => before '\r' (readChars rest)
  | '\\' :: 't' :: rest => before '\t' (readChars rest)
  | '\\' :: 'b' :: rest => before '\x08' (readChars rest)
  | '\\' :: 'f' :: rest => before '\x0c' (readChars rest)
  | '\\' :: 'u' :: a :: b :: c :: d :: rest =>
      match hex4 a b c d with
      | none => none
      | some n =>
          if 0xd800 ≤ n ∧ n < 0xdc00 then
            match rest with
            | '\\' :: 'u' :: a' :: b' :: c' :: d' :: rest =>
                match hex4 a' b' c' d' with
                | none => none
                | some m =>
                    if 0xdc00 ≤ m ∧ m < 0xe000 then
                      before (Char.ofNat (0x10000 + (n - 0xd800) * 0x400 + (m - 0xdc00)))
                        (readChars rest)
                    else none
            | _ => none
          else if 0xdc00 ≤ n ∧ n < 0xe000 then none
          else before (Char.ofNat n) (readChars rest)
  | '\\' :: _ => none
  | c :: rest => if c.toNat < 32 then none else before c (readChars rest)
  | [] => none

/-! ### Numbers -/

def scanSign (text : List Char) : List Char := if text.head? = some '-' then ['-'] else []

def scanDigits (text : List Char) : List Char := text.takeWhile Char.isDigit

def scanInt (text : List Char) : List Char :=
  if text.head? = some '0' then ['0'] else scanDigits text

def scanFrac (text : List Char) : List Char :=
  if text.head? = some '.' ∧ scanDigits text.tail ≠ [] then '.' :: scanDigits text.tail else []

def scanExpSign (text : List Char) : List Char :=
  if text.head? = some '+' ∨ text.head? = some '-' then text.take 1 else []

def scanExp (text : List Char) : List Char :=
  let sign := scanExpSign text.tail
  let digits := scanDigits (text.tail.drop sign.length)
  if (text.head? = some 'e' ∨ text.head? = some 'E') ∧ digits ≠ [] then
    text.take 1 ++ sign ++ digits
  else []

/-- The parts of a number at the beginning of a text, and what follows -/
structure Scanned where
  sign : List Char
  int : List Char
  frac : List Char
  exp : List Char
  rest : List Char

/-- The longest beginning that is a number, and its parts -/
def scanNumber (text : List Char) : Scanned :=
  let sign := scanSign text
  let text := text.drop sign.length
  let int := scanInt text
  let text := text.drop int.length
  let frac := scanFrac text
  let text := text.drop frac.length
  let exp := scanExp text
  ⟨sign, int, frac, exp, text.drop exp.length⟩

def intValue (sign digits : List Char) : Int :=
  let n : Int := (Nat.ofDigitChars 10 digits 0 : Nat)
  if sign = [] then n else -n

/-- How the text of a float is read, given by the text its value prints -/
abbrev ReadFloat := List Char → FloatText

variable (float : ReadFloat)

def readNumber (text : List Char) : Option (Json × List Char) :=
  let s := scanNumber text
  if s.int = [] then none
  else if s.frac = [] ∧ s.exp = [] then some (.int (intValue s.sign s.int), s.rest)
  else some (.float (float (s.sign ++ s.int ++ s.frac ++ s.exp)), s.rest)

/-! ### Values -/

mutual
/-- A value at the beginning of a text, and what follows; the first argument bounds the steps. -/
def readValue : Nat → List Char → Option (Json × List Char)
  | 0, _ => none
  | _ + 1, '"' :: rest => (readChars rest).map fun p => (.str (String.ofList p.1), p.2)
  | steps + 1, '[' :: rest =>
      match skip rest with
      | ']' :: rest => some (.arr [], rest)
      | rest => (readItems steps rest).map fun p => (.arr p.1, p.2)
  | steps + 1, '{' :: rest =>
      match skip rest with
      | '}' :: rest => some (.obj [], rest)
      | rest => (readFields steps rest).map fun p => (.obj (Dict.ofItems p.1), p.2)
  | _ + 1, 'n' :: 'u' :: 'l' :: 'l' :: rest => some (.null, rest)
  | _ + 1, 't' :: 'r' :: 'u' :: 'e' :: rest => some (.bool true, rest)
  | _ + 1, 'f' :: 'a' :: 'l' :: 's' :: 'e' :: rest => some (.bool false, rest)
  | _ + 1, text => readNumber float text
termination_by structural steps => steps

/-- The items of an array that is not empty, up to the closing bracket -/
def readItems : Nat → List Char → Option (List Json × List Char)
  | 0, _ => none
  | steps + 1, text => do
      let (item, rest) ← readValue steps text
      match skip rest with
      | ']' :: rest => some ([item], rest)
      | ',' :: rest => (readItems steps (skip rest)).map fun p => (item :: p.1, p.2)
      | _ => none
termination_by structural steps => steps

/-- The fields of an object that is not empty, up to the closing brace -/
def readFields : Nat → List Char → Option (List (String × Json) × List Char)
  | 0, _ => none
  | steps + 1, '"' :: rest => do
      let (key, rest) ← readChars rest
      match skip rest with
      | ':' :: rest => do
          let (value, rest) ← readValue steps (skip rest)
          match skip rest with
          | '}' :: rest => some ([(String.ofList key, value)], rest)
          | ',' :: rest =>
              (readFields steps (skip rest)).map fun p => ((String.ofList key, value) :: p.1, p.2)
          | _ => none
      | _ => none
  | _ + 1, _ => none
termination_by structural steps => steps
end

/-- What Python's `json.loads` may do with a text. A text that is no JSON raises `JSONDecodeError`;
    one with an integer of too many digits, or nested too deeply, raises something else. -/
inductive Loaded
  | value (j : Json)
  | decodeError
  | raised (message : String)

/-- `json.loads`; a text that is no JSON is not read. Every second step consumes a character. -/
def loads (text : String) : Option Json :=
  match readValue float (2 * text.length) (skip text.toList) with
  | some (value, rest) => if skip rest = [] then some value else none
  | none => none

/-! ## Strings -/

theorem hexDigit?_digitChar : ∀ n < 16, hexDigit? n.digitChar = some n := by decide

theorem readChars_escapeChar (c : Char) (rest : List Char) :
    readChars (escapeChar c ++ rest) = before c (readChars rest) := by
  unfold escapeChar
  by_cases h1 : c = '"'
  · simp [h1, readChars]
  by_cases h2 : c = '\\'
  · simp [h2, readChars]
  by_cases h3 : c = '\n'
  · simp [h3, readChars]
  by_cases h4 : c = '\r'
  · simp [h4, readChars]
  by_cases h5 : c = '\t'
  · simp [h5, readChars]
  by_cases h6 : c = '\x08'
  · simp [h6, readChars]
  by_cases h7 : c = '\x0c'
  · simp [h7, readChars]
  by_cases h8 : c.toNat < 32
  · have ha := hexDigit?_digitChar (c.toNat / 16) (by omega)
    have hb := hexDigit?_digitChar (c.toNat % 16) (by omega)
    have hzero : hexDigit? '0' = some 0 := by decide
    have hhex : hex4 '0' '0' (c.toNat / 16).digitChar (c.toNat % 16).digitChar = some c.toNat := by
      simp only [hex4, hzero, ha, hb, Option.bind_eq_bind, Option.bind_some, Option.pure_def,
        Option.some.injEq]
      omega
    simp only [h1, h2, h3, h4, h5, h6, h7, h8, if_true, if_false, List.cons_append,
      List.nil_append, readChars, hhex]
    rw [if_neg (by omega), if_neg (by omega), Char.ofNat_toNat]
  · simp only [h1, h2, h3, h4, h5, h6, h7, h8, if_false, List.cons_append, List.nil_append]
    rw [readChars.eq_def]
    split <;> simp_all

/-- A printed string is read back up to its closing quote. -/
theorem readChars_escape (s rest : List Char) :
    readChars (escape s ++ '"' :: rest) = some (s, rest) := by
  induction s with
  | nil => simp [escape, readChars]
  | cons c s ih =>
    have hcons : escape (c :: s) = escapeChar c ++ escape s := rfl
    rw [hcons, List.append_assoc, readChars_escapeChar, ih]
    rfl

/-! ## Numbers -/

/-- What follows a value in a printed text -/
def Follows (rest : List Char) : Prop := ∀ c ∈ rest.head?, c = ',' ∨ c = ']' ∨ c = '}'

section Scanning

variable {rest : List Char}

theorem Follows.head?_ne (h : Follows rest) {c : Char} (hc : c ≠ ',' ∧ c ≠ ']' ∧ c ≠ '}') :
    rest.head? ≠ some c := by
  intro he
  rcases h c he with rfl | rfl | rfl
  · exact hc.1 rfl
  · exact hc.2.1 rfl
  · exact hc.2.2 rfl

theorem Follows.scanDigits_eq (h : Follows rest) : scanDigits rest = [] := by
  cases rest with
  | nil => rfl
  | cons c rest => rcases h c rfl with rfl | rfl | rfl <;> rfl

/-- The digits of a number end where the number does. -/
theorem scanDigits_append (h : Follows rest) (text : List Char) :
    scanDigits (text ++ rest) = scanDigits text := by
  induction text with
  | nil => simpa [scanDigits] using h.scanDigits_eq
  | cons c text ih =>
    unfold scanDigits at ih ⊢
    rw [List.cons_append, List.takeWhile_cons, List.takeWhile_cons, ih]

theorem scanSign_append (h : Follows rest) (text : List Char) :
    scanSign (text ++ rest) = scanSign text := by
  cases text with
  | nil => simp [scanSign, h.head?_ne]
  | cons c text => simp [scanSign]

theorem scanInt_append (h : Follows rest) (text : List Char) :
    scanInt (text ++ rest) = scanInt text := by
  cases text with
  | nil =>
    rw [List.nil_append, scanInt, if_neg (h.head?_ne (by decide)), h.scanDigits_eq]
    rfl
  | cons c text =>
    rw [scanInt, scanInt, scanDigits_append h]
    rfl

theorem scanFrac_append (h : Follows rest) (text : List Char) :
    scanFrac (text ++ rest) = scanFrac text := by
  cases text with
  | nil => simp [scanFrac, h.head?_ne]
  | cons c text => simp [scanFrac, scanDigits_append h]

theorem scanExpSign_append (h : Follows rest) (text : List Char) :
    scanExpSign (text ++ rest) = scanExpSign text := by
  cases text with
  | nil => simp [scanExpSign, h.head?_ne]
  | cons c text => simp [scanExpSign]

theorem scanExpSign_length_le (text : List Char) : (scanExpSign text).length ≤ text.length := by
  unfold scanExpSign
  split
  · rw [List.length_take]
    exact Nat.min_le_right ..
  · exact Nat.zero_le _

theorem scanExp_append (h : Follows rest) (text : List Char) :
    scanExp (text ++ rest) = scanExp text := by
  cases text with
  | nil => simp [scanExp, h.head?_ne]
  | cons c text =>
    simp only [scanExp, List.cons_append, List.tail_cons, List.head?_cons, List.take_succ_cons,
      List.take_zero, scanExpSign_append h,
      List.drop_append_of_le_length (scanExpSign_length_le text), scanDigits_append h]
    rfl

/-! ### What is scanned is a part of the text -/

theorem scanSign_length_le (text : List Char) : (scanSign text).length ≤ text.length := by
  cases text <;> simp [scanSign]
  split <;> simp

theorem scanInt_length_le (text : List Char) : (scanInt text).length ≤ text.length := by
  unfold scanInt
  split
  · cases text <;> simp_all
  · exact (List.takeWhile_sublist _).length_le

theorem scanFrac_length_le (text : List Char) : (scanFrac text).length ≤ text.length := by
  unfold scanFrac
  split
  · cases text with
    | nil => simp_all
    | cons c text => simpa [scanDigits] using (List.takeWhile_sublist _).length_le
  · exact Nat.zero_le _

theorem scanExp_length_le (text : List Char) : (scanExp text).length ≤ text.length := by
  unfold scanExp
  dsimp only
  split
  · cases text with
    | nil => simp_all
    | cons c text =>
      have hsign := scanExpSign_length_le text
      have hdigits : (scanDigits (text.drop (scanExpSign text).length)).length ≤
          text.length - (scanExpSign text).length := by
        rw [← List.length_drop]
        exact (List.takeWhile_sublist _).length_le
      simp only [List.tail_cons, List.take_succ_cons, List.take_zero, List.length_append,
        List.length_cons, List.length_nil]
      omega
  · exact Nat.zero_le _

/-- A number is scanned up to what follows it. -/
theorem scanNumber_append (h : Follows rest) (text : List Char) :
    scanNumber (text ++ rest) = { scanNumber text with rest := (scanNumber text).rest ++ rest } := by
  simp only [scanNumber, scanSign_append h, scanInt_append h, scanFrac_append h, scanExp_append h,
    List.drop_append_of_le_length (scanSign_length_le _),
    List.drop_append_of_le_length (scanInt_length_le _),
    List.drop_append_of_le_length (scanFrac_length_le _),
    List.drop_append_of_le_length (scanExp_length_le _)]

end Scanning

variable {float : ReadFloat} {rest : List Char}

/-- A number is read up to its end. -/
theorem readNumber_append (h : Follows rest) (text : List Char) :
    readNumber float (text ++ rest) =
      (readNumber float text).map fun p => (p.1, p.2 ++ rest) := by
  simp only [readNumber, scanNumber_append h]
  split
  · rfl
  · split <;> rfl

/-- The digits of a number begin with a zero only if there is nothing else. -/
theorem head?_toDigits_ne {n : Nat} (hn : 0 < n) : (Nat.toDigits 10 n).head? ≠ some '0' := by
  induction n using Nat.strongRecOn with
  | ind n ih =>
    by_cases hlt : n < 10
    · rw [Nat.toDigits_of_lt_base hlt]
      have hdigits : ∀ m < 10, 0 < m → m.digitChar ≠ '0' := by decide
      simpa using hdigits n hlt hn
    · rw [Nat.toDigits_of_base_le (by decide) (Nat.le_of_not_lt hlt),
        List.head?_append_of_ne_nil _ Nat.toDigits_ne_nil]
      exact ih (n / 10) (by omega) (by omega)

theorem scanInt_toDigits (n : Nat) : scanInt (Nat.toDigits 10 n) = Nat.toDigits 10 n := by
  unfold scanInt
  split
  · rename_i hhead
    have hzero : n = 0 := by
      by_contra hne
      exact head?_toDigits_ne (Nat.pos_of_ne_zero hne) hhead
    rw [hzero]
    rfl
  · exact List.takeWhile_eq_self_iff.mpr fun c hc => isDigit_of_mem hc

/-- An integer is read back. -/
theorem readNumber_intText (n : Int) :
    readNumber float (intText n) = some (.int n, []) := by
  cases n with
  | ofNat n =>
    have hsign : scanSign (Nat.toDigits 10 n) = [] := by
      unfold scanSign
      split
      · rename_i hhead
        exact absurd (isDigit_of_mem (List.mem_of_mem_head? hhead)) (by decide)
      · rfl
    have hscan : scanNumber (Nat.toDigits 10 n) = ⟨[], Nat.toDigits 10 n, [], [], []⟩ := by
      simp [scanNumber, hsign, scanInt_toDigits, scanFrac, scanExp]
    simp [readNumber, intText, hscan, Nat.toDigits_ne_nil, intValue, Nat.ofDigitChars_ten_toDigits]
  | negSucc n =>
    have hscan : scanNumber ('-' :: Nat.toDigits 10 (n + 1)) =
        ⟨['-'], Nat.toDigits 10 (n + 1), [], [], []⟩ := by
      simp [scanNumber, scanSign, scanInt_toDigits, scanFrac, scanExp]
    rw [intText, readNumber, hscan]
    simp [Nat.toDigits_ne_nil, intValue, Nat.ofDigitChars_ten_toDigits, Int.negSucc_eq]

/-! ## Values -/

variable (float) in
mutual
/-- The value has no float whose text is not read back as itself, and no dictionary with a key
    twice. -/
def Readable : Json → Prop
  | .float f => readNumber float f.text.toList = some (.float f, [])
  | .arr xs => ReadableList xs
  | .obj kvs => (kvs.map Prod.fst).Nodup ∧ ReadableFields kvs
  | _ => True
termination_by structural j => j

def ReadableList : List Json → Prop
  | [] => True
  | x :: xs => Readable x ∧ ReadableList xs
termination_by structural xs => xs

def ReadableFields : List (String × Json) → Prop
  | [] => True
  | (_, x) :: kvs => Readable x ∧ ReadableFields kvs
termination_by structural kvs => kvs
end

/-- What a text of a value begins with -/
theorem head_spaced (v : Json) : ∃ c t, v.spaced = c :: t ∧ charKind c = v.kind := by
  cases v with
  | arr xs => exact ⟨'[', _, by rw [spaced], by simp [charKind, kind]⟩
  | obj kvs => exact ⟨'\x7b', _, by rw [spaced], by simp [charKind, kind]⟩
  | _ =>
    rw [spaced]
    · exact head_text _
    all_goals simp

theorem skip_cons {c : Char} {t : List Char} (h : isBlank c = false) : skip (c :: t) = c :: t := by
  simp [skip, h]

theorem skip_of_charKind {c : Char} {t : List Char} (h : charKind c < 7) :
    skip (c :: t) = c :: t := by
  have hblank : isBlank c = false := by
    by_contra hc
    simp only [isBlank, Bool.not_eq_false, Bool.or_eq_true, beq_iff_eq] at hc
    rcases hc with ((rfl | rfl) | rfl) | rfl <;> simp [charKind, isNumChar] at h
  exact skip_cons hblank

/-- A text that is read as a number begins with a digit or the sign. -/
theorem head_of_readNumber {text : List Char} {p : Json × List Char}
    (h : readNumber float text = some p) :
    ∃ c t, text = c :: t ∧ (c = '-' ∨ c.isDigit = true) := by
  cases text with
  | nil => simp [readNumber, scanNumber, scanInt, scanDigits, scanSign] at h
  | cons c t =>
    refine ⟨c, t, rfl, ?_⟩
    by_contra hc
    simp only [not_or] at hc
    have hzero : c ≠ '0' := fun he => hc.2 (he ▸ rfl)
    simp [readNumber, scanNumber, scanSign, scanInt, scanDigits, hc.1, hc.2, hzero] at h

/-- A text that begins like a number is read as one. -/
theorem readValue_number {c : Char} {t : List Char} (hc : c = '-' ∨ c.isDigit = true)
    (steps : Nat) : readValue float (steps + 1) (c :: t) = readNumber float (c :: t) := by
  have hne : ∀ d ∈ ['"', '[', '{', 'n', 't', 'f'], c ≠ d := by
    rintro d hd rfl
    simp only [List.mem_cons, List.not_mem_nil, or_false] at hd
    rcases hd with rfl | rfl | rfl | rfl | rfl | rfl <;> exact absurd hc (by decide)
  simp only [List.mem_cons, List.not_mem_nil, or_false, forall_eq_or_imp, forall_eq] at hne
  rw [readValue.eq_def]
  split <;> simp_all

theorem spacedListTail_cons (x : Json) (xs : List Json) :
    spacedListTail (x :: xs) = ',' :: ' ' :: spacedList (x :: xs) := by
  simp only [spacedListTail, spacedList]

theorem spacedFieldsTail_cons (kv : String × Json) (kvs : List (String × Json)) :
    spacedFieldsTail (kv :: kvs) = ',' :: ' ' :: spacedFields (kv :: kvs) := by
  simp only [spacedFieldsTail, spacedFields]

theorem follows_spacedListTail (xs : List Json) (rest : List Char) :
    Follows (spacedListTail xs ++ rest) := by
  intro c hc
  cases xs <;> simp [spacedListTail] at hc <;> simp [← hc]

theorem follows_spacedFieldsTail (kvs : List (String × Json)) (rest : List Char) :
    Follows (spacedFieldsTail kvs ++ rest) := by
  intro c hc
  cases kvs <;> simp [spacedFieldsTail] at hc <;> simp [← hc]

theorem length_spaced_pos (v : Json) : 0 < v.spaced.length := by
  obtain ⟨c, t, h, -⟩ := head_spaced v
  simp [h]

/-- A value's text has no blank before it, and no bracket that closes. -/
theorem skip_spaced (v : Json) (rest : List Char) : skip (v.spaced ++ rest) = v.spaced ++ rest := by
  obtain ⟨c, t, h, hc⟩ := head_spaced v
  rw [h, List.cons_append]
  exact skip_of_charKind (hc ▸ kind_lt v)

theorem head?_spaced_ne (v : Json) (rest : List Char) : (v.spaced ++ rest).head? ≠ some ']' := by
  obtain ⟨c, t, h, hc⟩ := head_spaced v
  intro he
  rw [h, List.cons_append, List.head?_cons, Option.some.injEq] at he
  have hlt := kind_lt v
  rw [← hc, he] at hlt
  simp [charKind, isNumChar] at hlt

theorem readValue_arr {text : List Char} (hskip : skip text = text) (hhead : text.head? ≠ some ']')
    (steps : Nat) : readValue float (steps + 1) ('[' :: text) =
      (readItems float steps text).map fun p => (.arr p.1, p.2) := by
  rw [readValue, hskip]
  split
  · simp at hhead
  · rfl

theorem readValue_obj (text : List Char) (steps : Nat) :
    readValue float (steps + 1) ('\x7b' :: '"' :: text) =
      (readFields float steps ('"' :: text)).map fun p => (.obj (Dict.ofItems p.1), p.2) := by
  rw [readValue, skip_of_charKind (by decide)]
  rfl

/-- A text that is a number from end to end is read up to what follows it. -/
theorem readValue_of_readNumber {text : List Char} {v : Json}
    (hread : readNumber float text = some (v, [])) {rest : List Char} (hrest : Follows rest)
    (steps : Nat) : readValue float (steps + 1) (text ++ rest) = some (v, rest) := by
  obtain ⟨c, t, ht, hc⟩ := head_of_readNumber hread
  rw [ht, List.cons_append, readValue_number hc, ← List.cons_append, ← ht,
    readNumber_append hrest, hread]
  rfl

mutual
/-- **A printed value is read back**, up to what follows it. -/
theorem readValue_spaced : ∀ v : Json, Readable float v → ∀ steps rest, Follows rest →
    2 * v.spaced.length ≤ steps → readValue float steps (v.spaced ++ rest) = some (v, rest)
  | v, hv, 0, rest, _, hsteps => by
    have := length_spaced_pos v
    omega
  | .null, _, steps + 1, rest, _, _ => by simp [spaced, text, readValue]
  | .bool true, _, steps + 1, rest, _, _ => by simp [spaced, text, readValue]
  | .bool false, _, steps + 1, rest, _, _ => by simp [spaced, text, readValue]
  | .int n, _, steps + 1, rest, hrest, _ =>
    readValue_of_readNumber (readNumber_intText n) hrest steps
  | .float f, hv, steps + 1, rest, hrest, _ => readValue_of_readNumber hv hrest steps
  | .str s, _, steps + 1, rest, _, _ => by
    simp only [spaced, text, quote, List.cons_append, List.append_assoc, List.nil_append,
      readValue, readChars_escape]
    simp
  | .arr [], _, steps + 1, rest, _, _ => by simp [spaced, spacedList, readValue, skip, isBlank]
  | .arr (x :: xs), hv, steps + 1, rest, _, hsteps => by
    simp only [spaced, List.length_cons] at hsteps
    have hitems := readItems_spaced (x :: xs) (by simp) hv steps rest (by omega)
    have hbegins : spacedList (x :: xs) ++ rest = x.spaced ++ (spacedListTail xs ++ rest) := by
      rw [spacedList, List.append_assoc]
    rw [spaced, List.cons_append, readValue_arr, hitems]
    · rfl
    · rw [hbegins, skip_spaced]
    · rw [hbegins]
      exact head?_spaced_ne x _
  | .obj [], _, steps + 1, rest, _, _ => by simp [spaced, spacedFields, readValue, skip, isBlank]
  | .obj ((k, x) :: kvs), hv, steps + 1, rest, _, hsteps => by
    simp only [spaced, List.length_cons] at hsteps
    have hfields := readFields_spaced ((k, x) :: kvs) (by simp) hv.2 steps rest (by omega)
    have hdict := Dict.ofItems_of_nodup hv.1
    rw [spaced, List.cons_append]
    simp only [spacedFields, quote, List.cons_append] at hfields ⊢
    rw [readValue_obj, hfields, Option.map_some, hdict]

/-- The items of an array that is not empty -/
theorem readItems_spaced : ∀ xs : List Json, xs ≠ [] → ReadableList float xs → ∀ steps rest,
    2 * (spacedList xs).length ≤ steps →
      readItems float steps (spacedList xs ++ rest) = some (xs, rest)
  | [], hne, _, _, _, _ => absurd rfl hne
  | x :: xs, _, hv, 0, rest, hsteps => by
    have := length_spaced_pos x
    simp only [spacedList, List.length_append] at hsteps
    omega
  | [x], _, hv, steps + 1, rest, hsteps => by
    simp only [spacedList, spacedListTail, List.length_append, List.length_singleton] at hsteps
    have hx := readValue_spaced x hv.1 steps (spacedListTail [] ++ rest)
      (follows_spacedListTail [] rest) (by omega)
    rw [spacedList, List.append_assoc, readItems, hx]
    simp [spacedListTail, skip, isBlank]
  | x :: y :: ys, _, hv, steps + 1, rest, hsteps => by
    rw [spacedList, spacedListTail_cons] at hsteps
    simp only [List.length_append, List.length_cons] at hsteps
    have hx := readValue_spaced x hv.1 steps (spacedListTail (y :: ys) ++ rest)
      (follows_spacedListTail _ rest) (by omega)
    have hys := readItems_spaced (y :: ys) (by simp) hv.2 steps rest (by omega)
    have hskip : skip (' ' :: (spacedList (y :: ys) ++ rest)) = spacedList (y :: ys) ++ rest := by
      rw [spacedList, List.append_assoc]
      exact skip_spaced y _
    rw [spacedList, List.append_assoc, readItems, hx]
    simp only [spacedListTail_cons, Option.bind_eq_bind, Option.bind_some, List.cons_append]
    rw [skip_cons (by decide)]
    simp only [hskip, hys, Option.map_some]

/-- The fields of an object that is not empty -/
theorem readFields_spaced : ∀ kvs : List (String × Json), kvs ≠ [] → ReadableFields float kvs →
    ∀ steps rest, 2 * (spacedFields kvs).length ≤ steps →
      readFields float steps (spacedFields kvs ++ rest) = some (kvs, rest)
  | [], hne, _, _, _, _ => absurd rfl hne
  | (k, x) :: kvs, _, hv, 0, rest, hsteps => by
    simp [spacedFields, quote] at hsteps
  | [(k, x)], _, hv, steps + 1, rest, hsteps => by
    simp only [spacedFields, spacedFieldsTail, List.length_append, List.length_cons,
      List.length_nil] at hsteps
    have hx := readValue_spaced x hv.1 steps (spacedFieldsTail [] ++ rest)
      (follows_spacedFieldsTail [] rest) (by omega)
    have hskip : skip (' ' :: (x.spaced ++ (spacedFieldsTail [] ++ rest))) =
        x.spaced ++ (spacedFieldsTail [] ++ rest) := skip_spaced x _
    simp only [spacedFields, quote, List.cons_append, List.append_assoc, List.nil_append,
      readFields, readChars_escape, Option.bind_eq_bind, Option.bind_some]
    rw [skip_cons (c := ':') (by decide)]
    simp only [hskip, hx, Option.bind_some]
    simp [spacedFieldsTail, skip, isBlank]
  | (k, x) :: kv :: kvs, _, hv, steps + 1, rest, hsteps => by
    rw [spacedFields, spacedFieldsTail_cons] at hsteps
    simp only [List.length_append, List.length_cons] at hsteps
    have hx := readValue_spaced x hv.1 steps (spacedFieldsTail (kv :: kvs) ++ rest)
      (follows_spacedFieldsTail _ rest) (by omega)
    have hkvs := readFields_spaced (kv :: kvs) (by simp) hv.2 steps rest (by omega)
    have hskip : skip (' ' :: (x.spaced ++ (spacedFieldsTail (kv :: kvs) ++ rest))) =
        x.spaced ++ (spacedFieldsTail (kv :: kvs) ++ rest) := skip_spaced x _
    have hskip' : skip (' ' :: (spacedFields (kv :: kvs) ++ rest)) =
        spacedFields (kv :: kvs) ++ rest := rfl
    rw [spacedFields]
    simp only [quote, List.cons_append, List.append_assoc, List.nil_append,
      readFields, readChars_escape, Option.bind_eq_bind, Option.bind_some]
    rw [skip_cons (c := ':') (by decide)]
    simp only [hskip, hx, Option.bind_some]
    simp only [spacedFieldsTail_cons, List.cons_append]
    rw [skip_cons (c := ',') (by decide)]
    simp only [hskip', hkvs, Option.map_some, String.ofList_toList]
end

/-- **The round trip**: what is printed is read back as the value it was printed from. -/
theorem loads_spaced {v : Json} (h : Readable float v) :
    loads float (String.ofList v.spaced) = some v := by
  have hskip := skip_spaced v []
  rw [List.append_nil] at hskip
  have hread := readValue_spaced v h (2 * v.spaced.length) [] (by intro c hc; simp at hc) (le_refl _)
  rw [List.append_nil] at hread
  have hend : skip [] = [] := rfl
  simp only [loads, String.toList_ofList, String.length_ofList, hskip, hread, hend, if_true]

end HyChat.Lib.Json
