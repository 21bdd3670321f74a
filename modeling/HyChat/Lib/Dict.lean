import Mathlib.Data.List.Nodup

/-!
# Dictionaries as lists of their items

A dictionary is the list of its items in insertion order. As long as its keys are distinct, the item
under a key is the one `List.lookup` finds.

Nothing here orders the items, and writing under a key that is there keeps its place, as
dictionaries do in the languages that remember the order of insertion.
-/

set_option autoImplicit false

namespace HyChat.Lib.Dict

variable {κ α β : Type}

section

variable [BEq κ] [LawfulBEq κ]

theorem lookup_map (f : κ → α → β) (dict : List (κ × α)) (key : κ) :
    (dict.map fun item => (item.1, f item.1 item.2)).lookup key = (dict.lookup key).map (f key) := by
  induction dict with
  | nil => rfl
  | cons first dict ih =>
    rw [List.map_cons, List.lookup_cons, List.lookup_cons]
    split
    · rename_i hk
      rw [eq_of_beq hk]
      rfl
    · exact ih

theorem lookup_of_mem {dict : List (κ × α)} (hkeys : (dict.map Prod.fst).Nodup)
    {item : κ × α} (h : item ∈ dict) : dict.lookup item.1 = some item.2 := by
  induction dict with
  | nil => exact absurd h (by simp)
  | cons first dict ih =>
    rw [List.map_cons, List.nodup_cons] at hkeys
    rw [List.lookup_cons]
    rcases List.mem_cons.mp h with rfl | h
    · simp
    · have hne : item.1 ≠ first.1 := fun he => hkeys.1 (he ▸ List.mem_map_of_mem h)
      rw [beq_eq_false_iff_ne.mpr hne]
      exact ih hkeys.2 h

theorem lookup_map_of_mem {dict : List (κ × α)} (f : κ → α → β)
    (hkeys : (dict.map Prod.fst).Nodup) {item : κ × α} (h : item ∈ dict) :
    (dict.map fun item => (item.1, f item.1 item.2)).lookup item.1 = some (f item.1 item.2) := by
  rw [lookup_map, lookup_of_mem hkeys h, Option.map_some]

theorem mem_of_lookup {dict : List (κ × α)} {key : κ} {value : α}
    (h : dict.lookup key = some value) : (key, value) ∈ dict := by
  induction dict with
  | nil => simp at h
  | cons first dict ih =>
    rw [List.lookup_cons] at h
    split at h
    · rename_i hk
      obtain rfl := Option.some.inj h
      rw [eq_of_beq hk]
      exact List.mem_cons_self
    · exact List.mem_cons_of_mem _ (ih h)

theorem mem_iff_lookup {dict : List (κ × α)} (hkeys : (dict.map Prod.fst).Nodup)
    {key : κ} {value : α} : (key, value) ∈ dict ↔ dict.lookup key = some value :=
  ⟨fun h => lookup_of_mem hkeys h, mem_of_lookup⟩

end

/-- `dict[key] = value` -/
def set (key : String) (value : α) : List (String × α) → List (String × α)
  | [] => [(key, value)]
  | (k, v) :: rest => if k = key then (k, value) :: rest else (k, v) :: set key value rest

/-- `dict(items)` -/
def ofItems (items : List (String × α)) : List (String × α) :=
  items.foldl (fun dict item => set item.1 item.2 dict) []

theorem set_of_not_mem {key : String} (value : α) {dict : List (String × α)}
    (h : key ∉ dict.map Prod.fst) : set key value dict = dict ++ [(key, value)] := by
  induction dict with
  | nil => rfl
  | cons first dict ih =>
    simp only [List.map_cons, List.mem_cons, not_or] at h
    rw [set, if_neg (Ne.symm h.1), ih h.2, List.cons_append]

/-- Items with distinct keys are a dictionary as they are. -/
theorem ofItems_of_nodup {items : List (String × α)} (h : (items.map Prod.fst).Nodup) :
    ofItems items = items := by
  have hfold : ∀ (rest dict : List (String × α)), ((dict ++ rest).map Prod.fst).Nodup →
      rest.foldl (fun dict item => set item.1 item.2 dict) dict = dict ++ rest := by
    intro rest
    induction rest with
    | nil => simp
    | cons item rest ih =>
      intro dict hkeys
      have hnot : item.1 ∉ dict.map Prod.fst := by
        rw [List.map_append, List.map_cons] at hkeys
        exact fun hm => List.disjoint_of_nodup_append hkeys hm List.mem_cons_self
      rw [List.foldl_cons, set_of_not_mem _ hnot, ih _ (by simpa using hkeys)]
      simp
  exact hfold items [] h

end HyChat.Lib.Dict
