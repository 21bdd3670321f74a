import HyChat.Lib.Json
import HyChat.Lib.Dict

/-!
# The order of keys, and the text with blanks

Values that are equal but for the order of their keys are those with the same `sortKeys`. How that
goes through a change of the fields of an object, and what it leaves of an object with distinct
keys, is stated here; so is that **the text with a blank after every comma and colon determines the
value** (`spaced_injective`), because the text without the blanks can be read off it.
-/

set_option autoImplicit false

namespace HyChat.Lib.Json

/-! ## Sorted fields -/

/-- The fields in the order of their keys -/
def inOrder (kvs : List (String × Json)) : List (String × Json) :=
  kvs.insertionSort fun p q => p.1 ≤ q.1

theorem mem_inOrder {kvs : List (String × Json)} {p : String × Json} :
    p ∈ inOrder kvs ↔ p ∈ kvs :=
  List.mem_insertionSort _

theorem inOrder_map (f : String × Json → Json) (kvs : List (String × Json)) :
    inOrder (kvs.map fun p => (p.1, f p)) = (inOrder kvs).map fun p => (p.1, f p) :=
  (List.map_insertionSort (fun p q : String × Json => p.1 ≤ q.1)
    (fun p q : String × Json => p.1 ≤ q.1) (fun p => (p.1, f p)) kvs
    fun _ _ _ _ => Iff.rfl).symm

theorem sortKeysFields_eq_map (kvs : List (String × Json)) :
    sortKeysFields kvs = kvs.map fun p => (p.1, p.2.sortKeys) := by
  induction kvs with
  | nil => rfl
  | cons first kvs ih => rw [sortKeysFields, ih, List.map_cons]

theorem sortKeysList_eq_map (xs : List Json) : sortKeysList xs = xs.map sortKeys := by
  induction xs with
  | nil => rfl
  | cons x xs ih => rw [sortKeysList, ih, List.map_cons]

theorem sortKeys_obj (kvs : List (String × Json)) :
    (obj kvs).sortKeys = .obj ((inOrder kvs).map fun p => (p.1, p.2.sortKeys)) := by
  rw [sortKeys, sortKeysFields_eq_map]
  exact congrArg obj (inOrder_map (fun p => p.2.sortKeys) kvs)

/-- The fields of two objects, each changed in its own way -/
theorem sortKeys_obj_map (f : String × Json → Json) (kvs : List (String × Json)) :
    (obj (kvs.map fun p => (p.1, f p))).sortKeys =
      .obj ((inOrder kvs).map fun p => (p.1, (f p).sortKeys)) := by
  rw [sortKeys_obj, inOrder_map, List.map_map]
  rfl

/-- Fields that are changed are as they were but for the order of keys exactly when each is. -/
theorem sortKeys_obj_map_eq_iff {f g : String × Json → Json} {kvs : List (String × Json)} :
    (obj (kvs.map fun p => (p.1, f p))).sortKeys = (obj (kvs.map fun p => (p.1, g p))).sortKeys ↔
      ∀ p ∈ kvs, (f p).sortKeys = (g p).sortKeys := by
  rw [sortKeys_obj_map, sortKeys_obj_map, obj.injEq, List.map_inj_left]
  simp [mem_inOrder]

theorem sortKeys_arr_map_eq_iff {f g : Json → Json} {xs : List Json} :
    (arr (xs.map f)).sortKeys = (arr (xs.map g)).sortKeys ↔
      ∀ x ∈ xs, (f x).sortKeys = (g x).sortKeys := by
  simp only [sortKeys, sortKeysList_eq_map, List.map_map, arr.injEq, List.map_inj_left,
    Function.comp_apply]

theorem lookup_inOrder {kvs : List (String × Json)} (hkeys : (kvs.map Prod.fst).Nodup)
    (key : String) : (inOrder kvs).lookup key = kvs.lookup key := by
  have hkeys' : ((inOrder kvs).map Prod.fst).Nodup :=
    ((List.perm_insertionSort _ kvs).map _).nodup_iff.mpr hkeys
  ext value
  rw [← Dict.mem_iff_lookup hkeys', ← Dict.mem_iff_lookup hkeys, mem_inOrder]

/-- Objects with distinct keys that are equal but for their order have equal fields. -/
theorem lookup_of_sortKeys_eq {kvs kvs' : List (String × Json)} (hkeys : (kvs.map Prod.fst).Nodup)
    (hkeys' : (kvs'.map Prod.fst).Nodup) (h : (obj kvs).sortKeys = (obj kvs').sortKeys)
    (key : String) : (kvs.lookup key).map sortKeys = (kvs'.lookup key).map sortKeys := by
  rw [sortKeys_obj, sortKeys_obj, obj.injEq] at h
  have hmap : ∀ kvs : List (String × Json), (kvs.map fun p => (p.1, p.2.sortKeys)).lookup key =
      (kvs.lookup key).map sortKeys := fun kvs => Dict.lookup_map (fun _ => sortKeys) kvs key
  rw [← lookup_inOrder hkeys, ← lookup_inOrder hkeys', ← hmap, ← hmap, h]

/-- Fields that are equal one by one, but for the order of keys, make equal objects. -/
theorem sortKeys_obj_congr {kvs kvs' : List (String × Json)}
    (h : kvs.map (fun p => (p.1, p.2.sortKeys)) = kvs'.map fun p => (p.1, p.2.sortKeys)) :
    (obj kvs).sortKeys = (obj kvs').sortKeys := by
  rw [sortKeys, sortKeys, sortKeysFields_eq_map, sortKeysFields_eq_map, h]

/-! ## The text without the blanks -/

/-- The text without the blanks after a comma or a colon outside of a string -/
def compact : Bool → List Char → List Char
  | _, [] => []
  | false, '"' :: rest => '"' :: compact true rest
  | false, ',' :: ' ' :: rest => ',' :: compact false rest
  | false, ':' :: ' ' :: rest => ':' :: compact false rest
  | false, c :: rest => c :: compact false rest
  | true, '"' :: rest => '"' :: compact false rest
  | true, '\\' :: c :: rest => '\\' :: c :: compact true rest
  | true, c :: rest => c :: compact true rest

theorem compact_plain {c : Char} (h : c ≠ '"' ∧ c ≠ ',' ∧ c ≠ ':') (rest : List Char) :
    compact false (c :: rest) = c :: compact false rest := by
  rw [compact.eq_def]
  split <;> simp_all

theorem compact_in_string {c : Char} (h : c ≠ '"' ∧ c ≠ '\\') (rest : List Char) :
    compact true (c :: rest) = c :: compact true rest := by
  rw [compact.eq_def]
  split <;> simp_all

theorem compact_escapeChar (c : Char) (rest : List Char) :
    compact true (escapeChar c ++ rest) = escapeChar c ++ compact true rest := by
  unfold escapeChar
  split
  · rfl
  split
  · rfl
  split
  · rfl
  split
  · rfl
  split
  · rfl
  split
  · rfl
  split
  · rfl
  split
  · rename_i hc
    have hdigit : ∀ n < 16, n.digitChar ≠ '"' ∧ n.digitChar ≠ '\\' := by decide
    simp only [List.cons_append, List.nil_append, compact]
    rw [compact_in_string (by decide), compact_in_string (by decide),
      compact_in_string (hdigit _ (by omega)), compact_in_string (hdigit _ (by omega))]
  · rename_i hquote hback _ _ _ _ _ _
    exact compact_in_string ⟨hquote, hback⟩ rest

theorem compact_quote (s : String) (rest : List Char) :
    compact false (quote s ++ rest) = quote s ++ compact false rest := by
  have hescape : ∀ cs : List Char, compact true (escape cs ++ '"' :: rest) =
      escape cs ++ '"' :: compact false rest := by
    intro cs
    induction cs with
    | nil => rfl
    | cons c cs ih =>
      have hcons : escape (c :: cs) = escapeChar c ++ escape cs := rfl
      rw [hcons, List.append_assoc, compact_escapeChar, ih, List.append_assoc]
  simp only [quote, List.cons_append, List.append_assoc, List.nil_append]
  rw [compact, hescape]

theorem compact_number {text : List Char} (h : ∀ c ∈ text, isNumChar c = true)
    (rest : List Char) : compact false (text ++ rest) = text ++ compact false rest := by
  have hne : ∀ c : Char, isNumChar c = true → c ≠ '"' ∧ c ≠ ',' ∧ c ≠ ':' := by
    intro c hc
    refine ⟨?_, ?_, ?_⟩ <;> rintro rfl <;> exact absurd hc (by decide)
  induction text with
  | nil => rfl
  | cons c text ih =>
    rw [List.cons_append, compact_plain (hne c (h c List.mem_cons_self)),
      ih fun d hd => h d (List.mem_cons_of_mem _ hd), List.cons_append]

mutual
theorem compact_spaced : ∀ (v : Json) (rest : List Char),
    compact false (v.spaced ++ rest) = v.text ++ compact false rest
  | .null, rest => rfl
  | .bool true, rest => rfl
  | .bool false, rest => rfl
  | .int n, rest => compact_number (fun c hc => (intText_chars n c hc).1) rest
  | .float f, rest => compact_number (fun c hc => List.all_eq_true.mp f.chars c hc) rest
  | .str s, rest => compact_quote s rest
  | .arr xs, rest => by
    rw [spaced, text, List.cons_append, compact_plain (by decide), compact_spacedList xs rest,
      List.cons_append]
  | .obj kvs, rest => by
    rw [spaced, text, List.cons_append, compact_plain (by decide), compact_spacedFields kvs rest,
      List.cons_append]

theorem compact_spacedList : ∀ (xs : List Json) (rest : List Char),
    compact false (spacedList xs ++ rest) = textList xs ++ compact false rest
  | [], rest => rfl
  | x :: xs, rest => by
    rw [spacedList, textList, List.append_assoc, compact_spaced x, compact_spacedListTail xs,
      List.append_assoc]

theorem compact_spacedListTail : ∀ (xs : List Json) (rest : List Char),
    compact false (spacedListTail xs ++ rest) = textListTail xs ++ compact false rest
  | [], rest => rfl
  | x :: xs, rest => by
    rw [spacedListTail, textListTail]
    simp only [List.cons_append, List.append_assoc, compact]
    rw [compact_spaced x, compact_spacedListTail xs]

theorem compact_spacedFields : ∀ (kvs : List (String × Json)) (rest : List Char),
    compact false (spacedFields kvs ++ rest) = textFields kvs ++ compact false rest
  | [], rest => rfl
  | (k, x) :: kvs, rest => by
    rw [spacedFields, textFields, List.append_assoc, compact_quote]
    simp only [List.cons_append, List.append_assoc, compact]
    rw [compact_spaced x, compact_spacedFieldsTail kvs]

theorem compact_spacedFieldsTail : ∀ (kvs : List (String × Json)) (rest : List Char),
    compact false (spacedFieldsTail kvs ++ rest) = textFieldsTail kvs ++ compact false rest
  | [], rest => rfl
  | (k, x) :: kvs, rest => by
    rw [spacedFieldsTail, textFieldsTail]
    simp only [List.cons_append, List.append_assoc, compact]
    rw [compact_quote]
    simp only [compact]
    rw [compact_spaced x, compact_spacedFieldsTail kvs]
end

/-- **Different values print differently** with the blanks, too. -/
theorem spaced_injective {v w : Json} (h : v.spaced = w.spaced) : v = w := by
  have hv := compact_spaced v []
  rw [h, compact_spaced w] at hv
  exact (text_cancel v w ends_nil ends_nil hv.symm).1

end HyChat.Lib.Json
