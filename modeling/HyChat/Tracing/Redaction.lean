import HyChat.Lib.Dict
import HyChat.Tracing.SafeJson

/-!
# What `safe_json` hides, and what it leaves alone

The reduction of a payload is looked at from the places of the payload. A place is a path of keys
and indices; models are looked through, a key of a dictionary leads to the item that was written
under it last, and nothing leads to what stands under a sensitive key.

* What stands under sensitive keys does not matter (`safeJson_withoutSecrets`).
* A large string under a binary field name is found summarised at its place, and no other string of
  the result is longer than the limit and the ellipsis. The strings of the result are its values: the
  keys of a mapping are kept as they are, at any length, and nothing is claimed of them.
* **Reducing twice is reducing once exactly when no object that is not a string itself has a large
  text under a binary field name** (`redaction_complete_iff`): such a text is kept the first time
  and summarised the second.

Why places. The reduction changes the shape of a value: it replaces a string by an object, a model
by its dump, and a dictionary by one with its keys as strings, of which several can become one. To
say where a large string has gone there must be a way to name its place before and after, and a
path that looks through models and takes the last item under a key is one that the reduction keeps
(`jsonAt_safeJson`). A value under a sensitive key has no place on either side.

Stability is about the reduction as a function on its own results. The one value that is kept the
first time and summarised the second is the text of something that is not a string, under a name
for which strings are summarised: its `str` is a string in the result. `stable_iff` finds this by
walking both reductions side by side.
-/

set_option autoImplicit false

namespace HyChat

open Lib

namespace Redaction

/-! ## Places -/

inductive Step where
  | key (key : String)
  | index (i : Nat)

/-- A model is what it dumps. -/
def dumped : PyObject → PyObject
  | .model dump => dumped dump
  | value => value

/-- The item a dictionary has under a key: the last that was written. -/
def last (items : PyMapping) (key : String) : Option PyObject := items.reverse.lookup key

/-- What stands at a place of a value -/
def valueAt : List Step → PyObject → Option PyObject
  | [], value => some (dumped value)
  | .key key :: path, value =>
      match dumped value with
      | .mapping items =>
          if isSensitiveField key then none else (last items key).bind (valueAt path)
      | _ => none
  | .index i :: path, value =>
      match dumped value with
      | .sequence items => (items[i]?).bind (valueAt path)
      | _ => none

/-- What stands at a place of a result -/
def jsonAt : List Step → Json → Option Json
  | [], value => some value
  | .key key :: path, .obj fields => (fields.lookup key).bind (jsonAt path)
  | .index i :: path, .arr items => (items[i]?).bind (jsonAt path)
  | _ :: _, _ => none

/-- The text that the reduction makes of a value, if it makes one -/
def textual : PyObject → Option String
  | .str s => some s
  | .model dump => textual dump
  | .other text => some text
  | _ => none

mutual
/-- The value without what stands under sensitive keys. Two values differ only there when these are
    the same. -/
def withoutSecrets : PyObject → PyObject
  | .mapping items => .mapping (itemsWithoutSecrets items)
  | .sequence items => .sequence (sequenceWithoutSecrets items)
  | .model dump => .model (withoutSecrets dump)
  | value => value
termination_by structural value => value

def sequenceWithoutSecrets : List PyObject → List PyObject
  | [] => []
  | item :: items => withoutSecrets item :: sequenceWithoutSecrets items
termination_by structural items => items

def itemsWithoutSecrets : PyMapping → PyMapping
  | [] => []
  | (key, item) :: items =>
      (key, if isSensitiveField key then .none else withoutSecrets item) ::
        itemsWithoutSecrets items
termination_by structural items => items
end

variable (sha256 : Sha256) (maxLength : Nat)

/-- What is written for an item under a key -/
def fieldJson (key : String) (item : PyObject) : Json :=
  if isSensitiveField key then .str redactedValue
  else match largeBinary? key item with
    | some s => largeBinarySummary sha256 s
    | none => safeJson sha256 maxLength item

/-- Under a binary field name no object that is not a string has a text that is still large when it
    has been cut. -/
def BinaryFieldsPlain (value : PyObject) : Prop :=
  ∀ path items key item s, valueAt path value = some (.mapping items) →
    last items key = some item → key ∈ binaryFieldNames → textual item = some s →
      binaryFieldMinChars ≤ (truncate maxLength s).length → item = .str s

/-! ## What stands under sensitive keys -/

theorem largeBinary?_withoutSecrets (key : String) (item : PyObject) :
    largeBinary? key (withoutSecrets item) = largeBinary? key item := by
  cases item <;> simp [withoutSecrets, largeBinary?]

mutual
theorem safeJson_withoutSecrets : ∀ value,
    safeJson sha256 maxLength (withoutSecrets value) = safeJson sha256 maxLength value
  | .none | .bool _ | .int _ | .float _ | .str _ | .other _ => rfl
  | .mapping items => by
    simp only [withoutSecrets, safeJson]
    rw [safeJsonItems_withoutSecrets items]
  | .sequence items => by
    simp only [withoutSecrets, safeJson]
    rw [safeJsonSequence_withoutSecrets items]
  | .model dump => by
    simp only [withoutSecrets, safeJson]
    rw [safeJson_withoutSecrets dump]

theorem safeJsonSequence_withoutSecrets : ∀ items,
    safeJsonSequence sha256 maxLength (sequenceWithoutSecrets items) =
      safeJsonSequence sha256 maxLength items
  | [] => rfl
  | item :: items => by
    simp only [sequenceWithoutSecrets, safeJsonSequence]
    rw [safeJson_withoutSecrets item, safeJsonSequence_withoutSecrets items]

theorem safeJsonItems_withoutSecrets : ∀ items result,
    safeJsonItems sha256 maxLength (itemsWithoutSecrets items) result =
      safeJsonItems sha256 maxLength items result
  | [], _ => rfl
  | (key, item) :: items, result => by
    simp only [itemsWithoutSecrets, safeJsonItems]
    rw [safeJsonItems_withoutSecrets items]
    by_cases hk : isSensitiveField key = true
    · simp [hk]
    · simp only [hk, Bool.false_eq_true, if_false, largeBinary?_withoutSecrets,
        safeJson_withoutSecrets item]
end

/-! ## The dictionary that the loop builds -/

variable {sha256 maxLength} {value : PyObject} {items : PyMapping} {key : String} {item : PyObject}

theorem safeJsonItems_cons (key : String) (item : PyObject) (items : PyMapping)
    (result : List (String × Json)) :
    safeJsonItems sha256 maxLength ((key, item) :: items) result =
      safeJsonItems sha256 maxLength items
        (setItem key (fieldJson sha256 maxLength key item) result) := rfl

theorem last_cons (first : String × PyObject) (items : PyMapping) (key : String) :
    last (first :: items) key =
      ((last items key).or (if key = first.1 then some first.2 else none)) := by
  rw [last, List.reverse_cons, List.lookup_append, last, List.lookup_cons]
  by_cases h : key = first.1
  · simp [h]
  · simp [h, beq_eq_false_iff_ne.mpr h]

/-- Under a key the dictionary has what is written for the last item. -/
theorem lookup_safeJsonItems (items : PyMapping) (result : List (String × Json)) (key : String) :
    (safeJsonItems sha256 maxLength items result).lookup key =
      ((last items key).map (fieldJson sha256 maxLength key)).or (result.lookup key) := by
  induction items generalizing result with
  | nil => simp [safeJsonItems, last]
  | cons first items ih =>
    obtain ⟨k, item⟩ := first
    rw [safeJsonItems_cons, ih, last_cons]
    cases hlast : last items key with
    | some later => simp
    | none =>
      by_cases h : key = k
      · simp [h, lookup_setItem_self]
      · simp [h, lookup_setItem_of_ne]

theorem nodup_safeJsonItems (items : PyMapping) {result : List (String × Json)}
    (h : (result.map Prod.fst).Nodup) :
    ((safeJsonItems sha256 maxLength items result).map Prod.fst).Nodup := by
  induction items generalizing result with
  | nil => simpa [safeJsonItems] using h
  | cons first items ih =>
    obtain ⟨k, item⟩ := first
    rw [safeJsonItems_cons]
    exact ih (nodup_setItem h)

theorem mem_safeJsonItems_iff {j : Json} :
    (key, j) ∈ safeJsonItems sha256 maxLength items [] ↔
      ∃ item, last items key = some item ∧ fieldJson sha256 maxLength key item = j := by
  rw [Dict.mem_iff_lookup (nodup_safeJsonItems items (by simp)), lookup_safeJsonItems]
  simp

/-- A dictionary with distinct keys is rebuilt item by item. -/
theorem safeJsonItems_of_nodup (items : PyMapping) (result : List (String × Json))
    (h : (result.map Prod.fst ++ items.map Prod.fst).Nodup) :
    safeJsonItems sha256 maxLength items result =
      result ++ items.map fun p => (p.1, fieldJson sha256 maxLength p.1 p.2) := by
  induction items generalizing result with
  | nil => simp [safeJsonItems]
  | cons first items ih =>
    obtain ⟨k, item⟩ := first
    have hk : k ∉ result.map Prod.fst := fun hm =>
      List.disjoint_of_nodup_append h hm List.mem_cons_self
    rw [safeJsonItems_cons, setItem_of_not_mem hk, ih]
    · simp
    · simpa using h

/-! ## The places of the result

What is at a place of the result is what the reduction makes of what is at that place of the
value. -/

/-- Reducing a model is reducing its dump. -/
theorem safeJson_dumped : ∀ value : PyObject,
    safeJson sha256 maxLength (dumped value) = safeJson sha256 maxLength value
  | .model dump => by
    simp only [dumped, safeJson]
    exact safeJson_dumped dump
  | .none | .bool _ | .int _ | .float _ | .str _ | .mapping _ | .sequence _ | .other _ => rfl

theorem dumped_ne_model (dump : PyObject) : ∀ value : PyObject, dumped value ≠ .model dump
  | .model inner => by
    rw [dumped]
    exact dumped_ne_model dump inner
  | .none | .bool _ | .int _ | .float _ | .str _ | .mapping _ | .sequence _ | .other _ => by
    simp [dumped]

theorem largeBinary?_eq_some {s : String} (h : largeBinary? key item = some s) :
    item = .str s ∧ key ∈ binaryFieldNames ∧ binaryFieldMinChars ≤ s.length := by
  cases item with
  | str t =>
    simp only [largeBinary?] at h
    split at h
    · rename_i hc
      obtain rfl := Option.some.inj h
      exact ⟨rfl, by simpa using hc⟩
    · exact absurd h (by simp)
  | _ => simp [largeBinary?] at h

theorem valueAt_str {path : List Step} {s : String} {w : PyObject}
    (h : valueAt path (.str s) = some w) : w = .str s := by
  cases path with
  | nil => exact (Option.some.inj h).symm
  | cons step path => cases step <;> simp [valueAt, dumped] at h

theorem jsonAt_append (path rest : List Step) (j : Json) :
    jsonAt (path ++ rest) j = (jsonAt path j).bind (jsonAt rest) := by
  induction path generalizing j with
  | nil => rfl
  | cons step path ih =>
    cases step with
    | key key =>
      cases j with
      | obj fields => cases h : fields.lookup key <;> simp [jsonAt, h, ih]
      | _ => rfl
    | index i =>
      cases j with
      | arr items => cases h : items[i]? <;> simp [jsonAt, h, ih]
      | _ => rfl

theorem safeJsonSequence_eq_map (items : List PyObject) :
    safeJsonSequence sha256 maxLength items = items.map (safeJson sha256 maxLength) := by
  induction items with
  | nil => rfl
  | cons item items ih => rw [safeJsonSequence, ih, List.map_cons]

/-- Wherever something other than a string stands in the value, its reduction stands in the
    result. -/
theorem jsonAt_safeJson {path : List Step} {value w : PyObject} (h : valueAt path value = some w)
    (hw : ∀ s, w ≠ .str s) :
    jsonAt path (safeJson sha256 maxLength value) = some (safeJson sha256 maxLength w) := by
  induction path generalizing value with
  | nil =>
    obtain rfl := Option.some.inj h
    rw [safeJson_dumped]
    rfl
  | cons step path ih =>
    rw [← safeJson_dumped]
    cases step with
    | key key =>
      simp only [valueAt] at h
      split at h
      · rename_i items hd
        split at h
        · exact absurd h (by simp)
        · rename_i hk
          obtain ⟨item, hlast, hrest⟩ := Option.bind_eq_some_iff.mp h
          have hnot : largeBinary? key item = none := by
            cases hb : largeBinary? key item with
            | none => rfl
            | some s =>
              rw [(largeBinary?_eq_some hb).1] at hrest
              exact absurd (valueAt_str hrest) (hw s)
          have hfield : fieldJson sha256 maxLength key item = safeJson sha256 maxLength item := by
            simp [fieldJson, hk, hnot]
          simp only [hd, safeJson, jsonAt, lookup_safeJsonItems, hlast, Option.map_some,
            Option.some_or, Option.bind_some, hfield]
          exact ih hrest
      · exact absurd h (by simp)
    | index i =>
      simp only [valueAt] at h
      split at h
      · rename_i items hd
        obtain ⟨item, hi, hrest⟩ := Option.bind_eq_some_iff.mp h
        simp only [hd, safeJson, jsonAt, safeJsonSequence_eq_map, List.getElem?_map, hi]
        exact ih hrest
      · exact absurd h (by simp)

theorem not_sensitive_of_binary (h : key ∈ binaryFieldNames) : isSensitiveField key = false := by
  have hnames : ∀ key ∈ binaryFieldNames, isSensitiveField key = false := by decide
  exact hnames key h

/-- A large string under a binary field name is replaced by its summary. -/
theorem summary_at {path : List Step} {s : String} (h : valueAt path value = some (.mapping items))
    (hlast : last items key = some (.str s)) (hk : key ∈ binaryFieldNames)
    (hs : binaryFieldMinChars ≤ s.length) :
    jsonAt (path ++ [.key key]) (safeJson sha256 maxLength value) =
      some (largeBinarySummary sha256 s) := by
  rw [jsonAt_append, jsonAt_safeJson h (by simp)]
  simp [safeJson, jsonAt, lookup_safeJsonItems, hlast, fieldJson, not_sensitive_of_binary hk,
    largeBinary?, hk, hs]

/-! ## No long strings

Cutting leaves at most the limit and one character. -/

/-- What is cut has the limit's length and the ellipsis. -/
theorem length_truncate_le (s : String) : (truncate maxLength s).length ≤ maxLength + 1 := by
  unfold truncate
  split
  · simp only [String.length_ofList, List.length_append, List.length_take, List.length_singleton]
    omega
  · omega

theorem length_truncate_le_self (s : String) : (truncate maxLength s).length ≤ s.length := by
  unfold truncate
  split
  · simp only [String.length_ofList, List.length_append, List.length_take, List.length_singleton,
      String.length_toList]
    omega
  · exact le_refl _

theorem safeJson_eq_str_iff {t : String} : ∀ {value : PyObject},
    safeJson sha256 maxLength value = .str t ↔
      ∃ s, textual value = some s ∧ truncate maxLength s = t
  | .model dump => by
    simp only [safeJson, textual]
    exact safeJson_eq_str_iff
  | .str s => by simp [safeJson, textual]
  | .other s => by simp [safeJson, textual]
  | .none | .bool _ | .int _ | .float _ | .mapping _ | .sequence _ => by simp [safeJson, textual]

theorem jsonAt_str {path : List Step} {s : String} {j : Json} (h : jsonAt path (.str s) = some j) :
    j = .str s := by
  cases path with
  | nil => exact (Option.some.inj h).symm
  | cons step path => cases step <;> simp [jsonAt] at h

/-- The strings of a summary are its reason and the digest. -/
theorem length_le_of_summary {path : List Step} {s t : String}
    (h : jsonAt path (largeBinarySummary sha256 s) = some (.str t)) : t.length ≤ 64 := by
  cases path with
  | nil => simp [largeBinarySummary, jsonAt] at h
  | cons step path =>
    cases step with
    | index i => simp [largeBinarySummary, jsonAt] at h
    | key key =>
      obtain ⟨j, hj, hrest⟩ := Option.bind_eq_some_iff.mp h
      have hmem := Dict.mem_of_lookup hj
      simp only [List.mem_cons, Prod.mk.injEq, List.not_mem_nil, or_false] at hmem
      rcases hmem with ⟨-, rfl⟩ | ⟨-, rfl⟩ | ⟨-, rfl⟩ | ⟨-, rfl⟩
      · cases path <;> simp [jsonAt] at hrest
      · obtain rfl := Json.str.inj (jsonAt_str hrest)
        decide
      · obtain rfl := Json.str.inj (jsonAt_str hrest)
        exact (sha256.length_hexdigest s).le
      · cases path <;> simp [jsonAt] at hrest

/-- Every string of the result is within the limit, but for the ellipsis. -/
theorem length_le_of_jsonAt (hm : 64 ≤ maxLength) {path : List Step} {value : PyObject} {s : String}
    (h : jsonAt path (safeJson sha256 maxLength value) = some (.str s)) :
    s.length ≤ maxLength + 1 := by
  induction path generalizing value with
  | nil =>
    obtain ⟨t, -, rfl⟩ := safeJson_eq_str_iff.mp (Option.some.inj h)
    exact length_truncate_le t
  | cons step path ih =>
    rw [← safeJson_dumped] at h
    cases step with
    | key key =>
      cases hd : dumped value with
      | mapping items =>
        simp only [hd, safeJson, jsonAt, lookup_safeJsonItems] at h
        cases hlast : last items key with
        | none => simp [hlast] at h
        | some item =>
          simp only [hlast, Option.map_some, Option.some_or, Option.bind_some, fieldJson] at h
          split at h
          · obtain rfl := Json.str.inj (jsonAt_str h)
            exact Nat.le_trans (by decide) (Nat.succ_le_succ hm)
          · split at h
            · exact Nat.le_succ_of_le (Nat.le_trans (length_le_of_summary h) hm)
            · exact ih h
      | model dump => exact absurd hd (dumped_ne_model dump value)
      | _ => simp [hd, safeJson, jsonAt] at h
    | index i =>
      cases hd : dumped value with
      | sequence items =>
        simp only [hd, safeJson, jsonAt, safeJsonSequence_eq_map, List.getElem?_map] at h
        obtain ⟨item, hi, hrest⟩ := Option.bind_eq_some_iff.mp h
        obtain ⟨inner, -, rfl⟩ := Option.map_eq_some_iff.mp hi
        exact ih hrest
      | model dump => exact absurd hd (dumped_ne_model dump value)
      | _ => simp [hd, safeJson, jsonAt] at h

/-! ## Reducing twice -/

theorem toPyList_eq_map (items : List Json) : toPyList items = items.map toPy := by
  induction items with
  | nil => rfl
  | cons item items ih => rw [toPyList, ih, List.map_cons]

theorem toPyItems_eq_map (fields : List (String × Json)) :
    toPyItems fields = fields.map fun p => (p.1, toPy p.2) := by
  induction fields with
  | nil => rfl
  | cons first fields ih => rw [toPyItems, ih, List.map_cons]

variable (sha256 maxLength) in
/-- The reduction of the value is reduced no further. -/
def Stable (value : PyObject) : Prop :=
  safeJson sha256 maxLength (toPy (safeJson sha256 maxLength value)) =
    safeJson sha256 maxLength value

theorem map_eq_self_iff {α : Type} {f : α → α} {l : List α} :
    l.map f = l ↔ ∀ a ∈ l, f a = a := by
  conv_lhs => rhs; rw [← List.map_id l]
  exact List.map_inj_left

theorem settled_iff_fieldJson {p : String × Json} :
    Settled sha256 maxLength p ↔ fieldJson sha256 maxLength p.1 (toPy p.2) = p.2 := Iff.rfl

/-- A dictionary is stable when its fields are settled. -/
theorem stable_mapping_iff :
    Stable sha256 maxLength (.mapping items) ↔
      ∀ key item, last items key = some item →
        Settled sha256 maxLength (key, fieldJson sha256 maxLength key item) := by
  have hnodup : ((safeJsonItems sha256 maxLength items []).map Prod.fst).Nodup :=
    nodup_safeJsonItems items (by simp)
  simp only [Stable, safeJson, toPy, toPyItems_eq_map, Json.obj.injEq]
  rw [safeJsonItems_of_nodup _ _ (by simpa [Function.comp_def] using hnodup), List.nil_append,
    List.map_map, map_eq_self_iff]
  simp only [settled_iff_fieldJson, Function.comp_apply, Prod.forall, Prod.mk.injEq, true_and]
  constructor
  · intro h key item hlast
    exact h key _ (mem_safeJsonItems_iff.mpr ⟨item, hlast, rfl⟩)
  · intro h key j hp
    obtain ⟨item, hlast, rfl⟩ := mem_safeJsonItems_iff.mp hp
    exact h key item hlast

/-- A field is settled when it is redacted, when it is summarised, or when its item is stable and
    no text of it is summarised the second time. -/
theorem settled_iff (hm : 64 ≤ maxLength) :
    Settled sha256 maxLength (key, fieldJson sha256 maxLength key item) ↔
      isSensitiveField key = true ∨ largeBinary? key item ≠ none ∨
        (largeBinary? key (toPy (safeJson sha256 maxLength item)) = none ∧
          Stable sha256 maxLength item) := by
  unfold Settled fieldJson
  by_cases hk : isSensitiveField key = true
  · simp [hk]
  · simp only [hk, Bool.false_eq_true, if_false, false_or]
    cases hb : largeBinary? key item with
    | some s =>
      have hnot : largeBinary? key (toPy (largeBinarySummary sha256 s)) = none := rfl
      simp [hnot, safeJson_largeBinarySummary sha256 maxLength hm]
    | none =>
      cases hsecond : largeBinary? key (toPy (safeJson sha256 maxLength item)) with
      | none => simp [Stable]
      | some s =>
        obtain ⟨hitem, -⟩ := largeBinary?_eq_some hsecond
        have hne : largeBinarySummary sha256 s ≠ safeJson sha256 maxLength item := by
          intro he
          rw [← he] at hitem
          simp [largeBinarySummary, toPy] at hitem
        simp [hne]

/-- What is summarised the second time only is the large text of an object that is no string. -/
theorem not_summarised_iff (hb : largeBinary? key item = none) :
    largeBinary? key (toPy (safeJson sha256 maxLength item)) = none ↔
      ∀ s, key ∈ binaryFieldNames → textual item = some s →
        binaryFieldMinChars ≤ (truncate maxLength s).length → item = .str s := by
  constructor
  · intro h s hk hs hlarge
    rw [safeJson_eq_str_iff.mpr ⟨s, hs, rfl⟩] at h
    simp [toPy, largeBinary?, hk, hlarge] at h
  · intro h
    cases hsecond : largeBinary? key (toPy (safeJson sha256 maxLength item)) with
    | none => rfl
    | some t =>
      obtain ⟨hitem, hk, hlarge⟩ := largeBinary?_eq_some hsecond
      have hstr : safeJson sha256 maxLength item = .str t := by
        cases hj : safeJson sha256 maxLength item <;> simp_all [toPy]
      obtain ⟨s, hs, rfl⟩ := safeJson_eq_str_iff.mp hstr
      rw [h s hk hs hlarge] at hb
      have := Nat.le_trans hlarge (length_truncate_le_self s)
      simp [largeBinary?, hk, this] at hb

/-! ## Where a large text is summarised the second time -/

theorem valueAt_model (path : List Step) (dump : PyObject) :
    valueAt path (.model dump) = valueAt path dump := by
  cases path with
  | nil => simp [valueAt, dumped]
  | cons step path => cases step <;> simp [valueAt, dumped]

theorem plain_mapping_iff :
    BinaryFieldsPlain maxLength (.mapping items) ↔
      ∀ key item, last items key = some item →
        (∀ s, key ∈ binaryFieldNames → textual item = some s →
          binaryFieldMinChars ≤ (truncate maxLength s).length → item = .str s) ∧
        (isSensitiveField key = false → BinaryFieldsPlain maxLength item) := by
  constructor
  · intro h key item hlast
    refine ⟨fun s hk hs hlarge => h [] items key item s rfl hlast hk hs hlarge, ?_⟩
    intro hk path inner key' item' s hpath
    exact h (.key key :: path) inner key' item' s (by simp [valueAt, dumped, hk, hlast, hpath])
  · intro h path inner key item s hpath hlast hk hs hlarge
    cases path with
    | nil =>
      obtain rfl : items = inner := by simpa [valueAt, dumped] using hpath
      exact (h key item hlast).1 s hk hs hlarge
    | cons step path =>
      cases step with
      | index i => simp [valueAt, dumped] at hpath
      | key first =>
        simp only [valueAt, dumped] at hpath
        split at hpath
        · exact absurd hpath (by simp)
        · rename_i hfirst
          obtain ⟨next, hnext, hrest⟩ := Option.bind_eq_some_iff.mp hpath
          exact (h first next hnext).2 (by simpa using hfirst) path inner key item s hrest hlast hk
            hs hlarge

theorem plain_sequence_iff {items : List PyObject} :
    BinaryFieldsPlain maxLength (.sequence items) ↔
      ∀ item ∈ items, BinaryFieldsPlain maxLength item := by
  constructor
  · intro h item hitem path inner key item' s hpath
    obtain ⟨i, hi⟩ := List.getElem?_of_mem hitem
    exact h (.index i :: path) inner key item' s (by simp [valueAt, dumped, hi, hpath])
  · intro h path inner key item s hpath
    cases path with
    | nil => simp [valueAt, dumped] at hpath
    | cons step path =>
      cases step with
      | key first => simp [valueAt, dumped] at hpath
      | index i =>
        obtain ⟨next, hnext, hrest⟩ := Option.bind_eq_some_iff.mp hpath
        exact h next (List.mem_of_getElem? hnext) path inner key item s hrest

theorem plain_of_scalar {value : PyObject} (hmapping : ∀ items, value ≠ .mapping items)
    (hsequence : ∀ items, value ≠ .sequence items) (hmodel : ∀ dump, value ≠ .model dump) :
    BinaryFieldsPlain maxLength value := by
  have hself : dumped value = value := by cases value <;> simp_all [dumped]
  intro path items key item s hpath
  cases path with
  | nil => exact absurd (Option.some.inj hpath) (by rw [hself]; exact hmapping items)
  | cons step path =>
    cases step with
    | key first =>
      simp only [valueAt, hself] at hpath
      cases value <;> simp_all
    | index i =>
      simp only [valueAt, hself] at hpath
      cases value <;> simp_all

theorem last_mem (h : last items key = some item) : (key, item) ∈ items :=
  List.mem_reverse.mp (Dict.mem_of_lookup h)

/-- **A payload is reduced no further exactly when its binary fields are plain.** -/
theorem stable_iff (hm : 64 ≤ maxLength) : ∀ value : PyObject,
    Stable sha256 maxLength value ↔ BinaryFieldsPlain maxLength value
  | .none | .bool _ | .int _ | .float _ =>
    iff_of_true rfl (plain_of_scalar (by simp) (by simp) (by simp))
  | .str s | .other s =>
    iff_of_true (by simp [Stable, safeJson, toPy, truncate_truncate])
      (plain_of_scalar (by simp) (by simp) (by simp))
  | .model dump => by
    simp only [BinaryFieldsPlain, valueAt_model, Stable, safeJson]
    exact stable_iff hm dump
  | .sequence items => by
    rw [plain_sequence_iff]
    simp only [Stable, safeJson, toPy, safeJsonSequence_eq_map, toPyList_eq_map, List.map_map,
      Json.arr.injEq, List.map_inj_left, Function.comp_apply]
    exact forall₂_congr fun item hitem => stable_iff hm item
  | .mapping items => by
    rw [plain_mapping_iff, stable_mapping_iff]
    refine forall₃_congr fun key item hlast => ?_
    have ih := stable_iff hm item
    rw [settled_iff hm]
    by_cases hk : isSensitiveField key = true
    · have hnot : key ∉ binaryFieldNames := fun h => by
        simp [not_sensitive_of_binary h] at hk
      simp [hk, hnot]
    · cases hb : largeBinary? key item with
      | some s =>
        obtain ⟨rfl, -, -⟩ := largeBinary?_eq_some hb
        refine iff_of_true (by simp) ⟨fun t _ ht _ => ?_, fun _ => ?_⟩
        · rw [← Option.some.inj ht]
        · exact plain_of_scalar (by simp) (by simp) (by simp)
      | none => simp [hk, not_summarised_iff hb, ih]
termination_by value => sizeOf value
decreasing_by
  · simp
  · have := List.sizeOf_lt_of_mem hitem
    simp only [PyObject.sequence.sizeOf_spec]
    omega
  · have := List.sizeOf_lt_of_mem (last_mem hlast)
    simp only [PyObject.mapping.sizeOf_spec, Prod.mk.sizeOf_spec] at this ⊢
    omega

/-- **Redaction is complete, and stable where binary fields are plain.** What stands under sensitive
    keys does not show; every large string under a binary field name is summarised; every other
    string is within the limit, but for the ellipsis; and the result is reduced no further exactly
    when no object that is not a string has a large text under a binary field name. -/
theorem redaction_complete_iff (sha256 : Sha256) (maxLength : Nat) (hm : 64 ≤ maxLength)
    (value : PyObject) :
    (∀ other, withoutSecrets value = withoutSecrets other →
      safeJson sha256 maxLength value = safeJson sha256 maxLength other) ∧
    (∀ path items key s, valueAt path value = some (.mapping items) →
      last items key = some (.str s) → key ∈ binaryFieldNames → binaryFieldMinChars ≤ s.length →
      jsonAt (path ++ [.key key]) (safeJson sha256 maxLength value) =
        some (largeBinarySummary sha256 s)) ∧
    (∀ path s, jsonAt path (safeJson sha256 maxLength value) = some (.str s) →
      s.length ≤ maxLength + 1) ∧
    (safeJson sha256 maxLength (toPy (safeJson sha256 maxLength value)) =
      safeJson sha256 maxLength value ↔ BinaryFieldsPlain maxLength value) := by
  refine ⟨?_, fun path items key s => summary_at, fun path s => length_le_of_jsonAt hm,
    stable_iff hm value⟩
  intro other h
  rw [← safeJson_withoutSecrets sha256 maxLength value, h, safeJson_withoutSecrets]

def largeText : String := String.ofList (List.replicate 600 'x')

theorem length_largeText : largeText.length = 600 :=
  String.length_ofList.trans List.length_replicate

/-- A model whose dump is a large string, under a binary field name -/
def modelledData : PyObject := .mapping [("data", .model (.str largeText))]

/-- The string is kept the first time and summarised the second. -/
theorem reduced_further : ¬ ∀ value, safeJson .standard 12000
    (toPy (safeJson .standard 12000 value)) = safeJson .standard 12000 value := by
  intro h
  have hlarge : binaryFieldMinChars ≤ (truncate 12000 largeText).length := by
    have hlength := length_largeText
    rw [truncate_eq_self 12000 (by omega), hlength]
    decide
  have hplain := (stable_iff (by omega) modelledData).mp (h modelledData)
  have hstr := hplain [] _ "data" _ _ rfl rfl (by decide) rfl hlarge
  cases hstr

theorem redaction_complete_token :
    safeJson .standard 64 (.mapping [("token", .str "a")]) =
      safeJson .standard 64 (.mapping [("token", .int 1)]) :=
  (redaction_complete_iff .standard 64 (le_refl _) (.mapping [("token", .str "a")])).1
    (.mapping [("token", .int 1)]) rfl

end Redaction

end HyChat
