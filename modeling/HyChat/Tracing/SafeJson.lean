import Mathlib.Data.List.Nodup
import HyChat.Lib.Json
import HyChat.Lib.Sha2
import HyChat.Lib.Text

/-!
# `safe_json`: what a payload is reduced to before it is stored or compared

A Python value goes in, a JSON value comes out: fields with sensitive names are redacted, long
strings under the binary field names are summarised, long strings are cut, mapping keys become
strings, and everything that is not JSON already is replaced by its `str`.

The reduction is not injective (two payloads that differ under a `token` field come out equal),
but on JSON values it is idempotent (`safeJson_idem`): what has been stored is a fixed point of
what it is compared through.
-/

set_option autoImplicit false

namespace HyChat

open Lib

/-! ## Python values -/

/-- A Python value as `safe_json` sees it. Mapping keys are given by their `str`, which is all
    that is ever asked of them; `model` is a pydantic model with its dump, `other` any further
    object with its `str`. -/
inductive PyObject where
  | none
  | bool (b : Bool)
  | int (n : Int)
  | float (f : FloatText)
  | str (s : String)
  | mapping (items : List (String × PyObject))
  | sequence (items : List PyObject)
  | model (dump : PyObject)
  | other (text : String)

abbrev PyMapping := List (String × PyObject)

mutual
/-- A JSON value read back from a column. -/
def toPy : Json → PyObject
  | .null => .none
  | .bool b => .bool b
  | .int n => .int n
  | .float f => .float f
  | .str s => .str s
  | .arr xs => .sequence (toPyList xs)
  | .obj kvs => .mapping (toPyItems kvs)
termination_by structural j => j

def toPyList : List Json → List PyObject
  | [] => []
  | x :: xs => toPy x :: toPyList xs
termination_by structural xs => xs

def toPyItems : List (String × Json) → PyMapping
  | [] => []
  | (k, x) :: xs => (k, toPy x) :: toPyItems xs
termination_by structural xs => xs
end

/-- `hashlib.sha256(text.encode("utf-8")).hexdigest()`. Nothing but the length of the digest is
    ever used of it. -/
structure Sha256 where
  hexdigest : String → String
  length_hexdigest : ∀ s, (hexdigest s).length = 64

/-- The function itself. -/
def Sha256.standard : Sha256 := ⟨Sha2.hexdigest, Sha2.length_hexdigest⟩

/-! ## Field names -/

def redactedValue : String := "[REDACTED]"

def binaryFieldNames : List String := ["base64", "data", "file_data"]

def binaryFieldMinChars : Nat := 512

def sensitiveFieldNames : List String :=
  ["api_key", "apikey", "authorization", "cookie", "id_token", "password", "refresh_token",
    "secret", "set_cookie", "token", "access_token"]

/-- `str.lower` as far as a comparison with ASCII text can tell: besides the ASCII capitals only
    the Kelvin sign has an ASCII letter for its lower case. -/
def lowerChar (c : Char) : Char := if c.toNat = 0x212a then 'k' else c.toLower

/-- `_is_sensitive_field` -/
def isSensitiveField (key : String) : Bool :=
  let normalized := (Py.strip key.toList).map fun c =>
    if lowerChar c = '-' then '_' else lowerChar c
  sensitiveFieldNames.contains (String.ofList normalized) ||
    "_secret".toList.isSuffixOf normalized

/-! ## The reduction -/

/-- `value[:max_length] + "…"` for a string that is longer. -/
def truncate (maxLength : Nat) (value : String) : String :=
  if value.length > maxLength then String.ofList (value.toList.take maxLength ++ ['…']) else value

/-- `_large_binary_summary` -/
def largeBinarySummary (sha256 : Sha256) (value : String) : Json :=
  .obj [("redacted", .bool true), ("reason", .str "large-binary-field"),
    ("sha256", .str (sha256.hexdigest value)), ("chars", .int value.length)]

/-- The string that is summarised instead of kept, if the field is one that holds one. -/
def largeBinary? (fieldName : String) : PyObject → Option String
  | .str s =>
      if binaryFieldNames.contains fieldName && binaryFieldMinChars ≤ s.length then some s
      else none
  | _ => none

/-- `result[key] = value` on a dictionary, which keeps the place of a key it has. -/
def setItem (key : String) (value : Json) : List (String × Json) → List (String × Json)
  | [] => [(key, value)]
  | (k, v) :: rest => if k = key then (k, value) :: rest else (k, v) :: setItem key value rest

variable (sha256 : Sha256) (maxLength : Nat)

mutual
def safeJson : PyObject → Json
  | .none => .null
  | .bool b => .bool b
  | .int n => .int n
  | .float f => .float f
  | .str s => .str (truncate maxLength s)
  | .mapping items => .obj (safeJsonItems items [])
  | .sequence items => .arr (safeJsonSequence items)
  | .model dump => safeJson dump
  | .other text => .str (truncate maxLength text)
termination_by structural value => value

def safeJsonSequence : List PyObject → List Json
  | [] => []
  | item :: items => safeJson item :: safeJsonSequence items
termination_by structural items => items

/-- The loop over a mapping's items, with the dictionary built so far. -/
def safeJsonItems : PyMapping → List (String × Json) → List (String × Json)
  | [], result => result
  | (key, item) :: items, result =>
      safeJsonItems items <| setItem key (
        if isSensitiveField key then .str redactedValue
        else match largeBinary? key item with
          | some s => largeBinarySummary sha256 s
          | none => safeJson item) result
termination_by structural items => items
end

/-! ## Reducing twice

The induction is on the JSON value, with the loop over a dictionary's items and the loop over a
list as two more cases. For the dictionary the invariant is about what has been built so far
(`safeJsonItems_settled`). -/

/-- A string that was cut is not cut again. -/
theorem truncate_truncate (s : String) :
    truncate maxLength (truncate maxLength s) = truncate maxLength s := by
  by_cases h : s.length > maxLength
  · have hle : maxLength ≤ s.toList.length := by
      rw [String.length_toList]
      exact Nat.le_of_lt h
    have ht : truncate maxLength s = String.ofList (s.toList.take maxLength ++ ['…']) := by
      simp [truncate, h]
    have hlen : (truncate maxLength s).length = maxLength + 1 := by
      rw [ht, String.length_ofList, List.length_append, List.length_take, Nat.min_eq_left hle]
      rfl
    rw [truncate, if_pos (by omega), ht]
    congr 1
    simp only [String.toList_ofList]
    rw [List.take_append_of_le_length (by rw [List.length_take]; omega), List.take_take,
      Nat.min_self]
  · simp [truncate, h]

theorem truncate_eq_self {s : String} (h : s.length ≤ maxLength) : truncate maxLength s = s := by
  rw [truncate, if_neg (Nat.not_lt.mpr h)]

/-- A field whose value is what the loop would write for it again. -/
def Settled (p : String × Json) : Prop :=
  (if isSensitiveField p.1 then .str redactedValue
    else match largeBinary? p.1 (toPy p.2) with
      | some s => largeBinarySummary sha256 s
      | none => safeJson sha256 maxLength (toPy p.2)) = p.2

theorem keys_setItem (key : String) (value : Json) (result : List (String × Json)) :
    (setItem key value result).map Prod.fst =
      if key ∈ result.map Prod.fst then result.map Prod.fst
      else result.map Prod.fst ++ [key] := by
  induction result with
  | nil => simp [setItem]
  | cons p rest ih =>
    obtain ⟨k, v⟩ := p
    by_cases hk : k = key
    · simp [setItem, hk]
    · have hk' : ¬ key = k := fun h => hk h.symm
      simp only [setItem, hk, if_false, List.map_cons, ih, List.mem_cons, hk', false_or]
      by_cases hm : key ∈ rest.map Prod.fst
      · simp [hm]
      · simp [hm]

theorem nodup_setItem {key : String} {value : Json} {result : List (String × Json)}
    (h : (result.map Prod.fst).Nodup) : ((setItem key value result).map Prod.fst).Nodup := by
  rw [keys_setItem]
  by_cases hm : key ∈ result.map Prod.fst
  · simpa [hm] using h
  · simp only [hm, if_false]
    exact List.Nodup.append h (List.nodup_singleton key) (by simpa using hm)

theorem forall_setItem {P : String × Json → Prop} {key : String} {value : Json}
    {result : List (String × Json)} (hv : P (key, value)) (h : ∀ p ∈ result, P p) :
    ∀ p ∈ setItem key value result, P p := by
  induction result with
  | nil => simpa [setItem] using hv
  | cons q rest ih =>
    obtain ⟨k, v⟩ := q
    have hrest : ∀ p ∈ rest, P p := fun p hp => h p (List.mem_cons_of_mem _ hp)
    by_cases hk : k = key
    · subst hk
      intro p hp
      simp only [setItem, if_true, List.mem_cons] at hp
      rcases hp with rfl | hp
      · exact hv
      · exact hrest p hp
    · intro p hp
      simp only [setItem, hk, if_false, List.mem_cons] at hp
      rcases hp with rfl | hp
      · exact h _ List.mem_cons_self
      · exact ih hrest p hp

theorem setItem_of_not_mem {key : String} {value : Json} {result : List (String × Json)}
    (h : key ∉ result.map Prod.fst) : setItem key value result = result ++ [(key, value)] := by
  induction result with
  | nil => rfl
  | cons p rest ih =>
    obtain ⟨k, v⟩ := p
    simp only [List.map_cons, List.mem_cons, not_or] at h
    have hk : ¬ k = key := fun e => h.1 e.symm
    simp only [setItem, hk, if_false, List.cons_append, ih h.2]

theorem lookup_setItem_self (key : String) (value : Json) (dict : List (String × Json)) :
    (setItem key value dict).lookup key = some value := by
  induction dict with
  | nil => simp [setItem]
  | cons q rest ih =>
    obtain ⟨k, v⟩ := q
    unfold setItem
    split
    · rename_i hk
      rw [hk, List.lookup_cons_self]
    · rename_i hk
      rw [List.lookup_cons, beq_eq_false_iff_ne.mpr (Ne.symm hk)]
      exact ih

theorem lookup_setItem_of_ne {key other : String} (h : other ≠ key) (value : Json) (dict : List (String × Json)) :
    (setItem key value dict).lookup other = dict.lookup other := by
  induction dict with
  | nil =>
    simp only [setItem, List.lookup_cons, beq_eq_false_iff_ne.mpr h]
  | cons q rest ih =>
    obtain ⟨k, v⟩ := q
    unfold setItem
    split
    · rename_i hk
      have hne : (other == k) = false := beq_eq_false_iff_ne.mpr fun e => h (e.trans hk)
      simp only [List.lookup_cons, hne]
    · simp only [List.lookup_cons, ih]

/-- A dictionary of settled fields is read back unchanged. -/
theorem safeJsonItems_of_settled : ∀ {items result : List (String × Json)},
    (∀ p ∈ items, Settled sha256 maxLength p) → ((result ++ items).map Prod.fst).Nodup →
      safeJsonItems sha256 maxLength (toPyItems items) result = result ++ items := by
  intro items
  induction items with
  | nil => intro result _ _; simp [toPyItems, safeJsonItems]
  | cons p items ih =>
    intro result hs hn
    obtain ⟨key, value⟩ := p
    have hp : Settled sha256 maxLength (key, value) := hs _ List.mem_cons_self
    unfold Settled at hp
    have hkey : key ∉ result.map Prod.fst := by
      rw [List.map_append, List.map_cons] at hn
      exact fun hm => (List.disjoint_of_nodup_append hn) hm List.mem_cons_self
    rw [toPyItems, safeJsonItems, hp, setItem_of_not_mem hkey,
      ih (fun q hq => hs q (List.mem_cons_of_mem _ hq)) (by simpa using hn)]
    simp

theorem largeBinary?_of_not_mem {key : String} (h : key ∉ binaryFieldNames) (item : PyObject) :
    largeBinary? key item = none := by
  cases item <;> simp [largeBinary?, h]

/-- A summary is left as it is. -/
theorem safeJson_largeBinarySummary (hm : 64 ≤ maxLength) (s : String) :
    safeJson sha256 maxLength (toPy (largeBinarySummary sha256 s)) =
      largeBinarySummary sha256 s := by
  have hd : truncate maxLength (sha256.hexdigest s) = sha256.hexdigest s :=
    truncate_eq_self maxLength (by rw [sha256.length_hexdigest]; exact hm)
  have hr : truncate maxLength "large-binary-field" = "large-binary-field" :=
    truncate_eq_self maxLength (Nat.le_trans (by decide) hm)
  unfold largeBinarySummary
  rw [toPy, safeJson, safeJsonItems_of_settled]
  · rfl
  · intro p hp
    have hk : isSensitiveField p.1 = false ∧ p.1 ∉ binaryFieldNames := by
      have hnames : ∀ k ∈ ["redacted", "reason", "sha256", "chars"],
          isSensitiveField k = false ∧ k ∉ binaryFieldNames := by decide
      exact hnames _ (List.mem_map_of_mem (f := Prod.fst) hp)
    unfold Settled
    rw [hk.1, largeBinary?_of_not_mem hk.2]
    simp only [List.mem_cons, List.not_mem_nil, or_false] at hp
    rcases hp with rfl | rfl | rfl | rfl <;> simp [toPy, safeJson, hd, hr]
  · show ["redacted", "reason", "sha256", "chars"].Nodup
    decide

mutual
/-- **On JSON values the reduction is idempotent**: what has been stored reads back as its own
    normal form. -/
theorem safeJson_idem (hm : binaryFieldMinChars ≤ maxLength) : ∀ j : Json,
    safeJson sha256 maxLength (toPy (safeJson sha256 maxLength (toPy j))) =
      safeJson sha256 maxLength (toPy j)
  | .null => by simp only [toPy, safeJson]
  | .bool b => by simp only [toPy, safeJson]
  | .int n => by simp only [toPy, safeJson]
  | .float f => by simp only [toPy, safeJson]
  | .str s => by simp only [toPy, safeJson, truncate_truncate]
  | .arr xs => by
    simp only [toPy, safeJson]
    rw [safeJsonSequence_idem hm xs]
  | .obj kvs => by
    obtain ⟨hs, hn⟩ := safeJsonItems_settled hm kvs [] (by simp) (by simp)
    simp only [toPy, safeJson]
    rw [safeJsonItems_of_settled sha256 maxLength hs (by simpa using hn)]
    rfl

theorem safeJsonSequence_idem (hm : binaryFieldMinChars ≤ maxLength) : ∀ xs : List Json,
    safeJsonSequence sha256 maxLength
      (toPyList (safeJsonSequence sha256 maxLength (toPyList xs))) =
        safeJsonSequence sha256 maxLength (toPyList xs)
  | [] => by simp only [toPyList, safeJsonSequence]
  | x :: xs => by
    simp only [toPyList, safeJsonSequence]
    rw [safeJson_idem hm x, safeJsonSequence_idem hm xs]

/-- The loop's invariant: the dictionary built so far has distinct keys and settled fields. -/
theorem safeJsonItems_settled (hm : binaryFieldMinChars ≤ maxLength) :
    ∀ (kvs : List (String × Json)) (result : List (String × Json)),
      (∀ p ∈ result, Settled sha256 maxLength p) → (result.map Prod.fst).Nodup →
        (∀ p ∈ safeJsonItems sha256 maxLength (toPyItems kvs) result,
          Settled sha256 maxLength p) ∧
        ((safeJsonItems sha256 maxLength (toPyItems kvs) result).map Prod.fst).Nodup
  | [], result, hs, hn => by
    simp only [toPyItems, safeJsonItems]
    exact ⟨hs, hn⟩
  | (key, value) :: kvs, result, hs, hn => by
    simp only [toPyItems, safeJsonItems]
    refine safeJsonItems_settled hm kvs _ (forall_setItem ?_ hs) (nodup_setItem hn)
    unfold Settled
    by_cases hk : isSensitiveField key = true
    · simp [hk]
    · simp only [hk, Bool.false_eq_true, if_false]
      cases hb : largeBinary? key (toPy value) with
      | some s =>
        -- the summary is a dictionary, so it is not summarised again
        have hn : largeBinary? key (toPy (largeBinarySummary sha256 s)) = none := by
          simp [largeBinarySummary, toPy, largeBinary?]
        simp only [hn]
        exact safeJson_largeBinarySummary sha256 maxLength (Nat.le_trans (by decide) hm) s
      | none =>
        have hn : largeBinary? key (toPy (safeJson sha256 maxLength (toPy value))) = none := by
          cases value with
          | str s =>
            -- a string that is cut is no longer than the string it is cut from
            simp only [toPy, safeJson, largeBinary?] at hb ⊢
            by_cases hc : key ∈ binaryFieldNames
            · have hlen : s.length < binaryFieldMinChars := by
                by_contra hge
                simp [hc, Nat.le_of_not_lt hge] at hb
              rw [truncate_eq_self maxLength (by omega)]
              exact hb
            · simp [hc]
          | _ => simp [toPy, safeJson, largeBinary?]
        simp only [hn]
        exact safeJson_idem hm value
end

end HyChat
