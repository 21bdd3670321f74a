import HyChat.Cache.Digest
import HyChat.Chat.Stream
import HyChat.Lib.JsonOrder

/-!
# The key of a cached response

`build_cache_key` digests the user, the model, the messages and the extra context. Long strings, and
strings under the binary field names, go in as objects that hold their own digest.

The hash function is a parameter; the results are for one that is injective. Such an object can then
be taken for nothing but the string it stands for, or for an object of the request that looks just
like it. **Values without such objects are determined by their payload** (`payload_cancel`), and a
value with one has the payload of the value with the string in its place (`payload_restored`).

Why restoring is the right notion. Digesting long strings is not injective by itself, even for an
injective hash: the object that stands for a string could have been in the request. So the payload
has a kernel, and `restored` picks a representative of each class, the value in which every such
object has been turned into its string. Two values have the same payload exactly when their
representatives agree but for the order of keys; plain values are those that are their own
representative.

The induction is on a JSON value with its two kinds of lists, so each lemma comes three times: for
a value, for the items of an array and for the fields of an object. The lists are turned into `map`
and the fields' keys are kept, which brings the latter two back to the first.

That keys are sorted before they are printed means that the order of keys is lost, on purpose, in
the source. What is printed is injective on sorted values; this is the printer's theorem, in the
library.
-/

set_option autoImplicit false

namespace HyChat

open Lib

namespace Chat.CacheKey

/-! ## The payload -/

def cacheBinaryFieldNames : List String := ["base64", "data", "file_data"]

def cacheLargeStringMinChars : Nat := 1024

def cacheHashedStringMarker : String := "__hy_chat_hashed_string__"

/-- `hashlib.sha256(value.encode("utf-8")).hexdigest()` -/
abbrev Hash := String → String

variable (hexdigest : Hash)

/-- The fields of `_hashed_string_payload` -/
def hashedStringFields (value : String) : List (String × Json) :=
  [(cacheHashedStringMarker, .bool true), ("sha256", .str (hexdigest value)),
    ("chars", .int value.length)]

def hashedStringPayload (value : String) : Json := .obj (hashedStringFields hexdigest value)

/-- A string that is replaced by its digest -/
def isHashed (fieldName : Option String) (value : String) : Bool :=
  fieldName.any (cacheBinaryFieldNames.contains ·) || value.length ≥ cacheLargeStringMinChars

mutual
/-- `_cache_key_payload` of a JSON value -/
def cacheKeyPayload (fieldName : Option String) : Json → Json
  | .str value =>
      if isHashed fieldName value then hashedStringPayload hexdigest value else .str value
  | .obj kvs => .obj (cacheKeyFields kvs)
  | .arr items => .arr (cacheKeyItems items)
  | value => value
termination_by structural value => value

def cacheKeyItems : List Json → List Json
  | [] => []
  | item :: items => cacheKeyPayload none item :: cacheKeyItems items
termination_by structural items => items

def cacheKeyFields : List (String × Json) → List (String × Json)
  | [] => []
  | (key, item) :: kvs => (key, cacheKeyPayload (some key) item) :: cacheKeyFields kvs
termination_by structural kvs => kvs
end

/-! ## Messages -/

/-- A message: a dictionary, or an object with its attributes. -/
inductive Message
  | mapping (fields : List (String × Json))
  | base (type : String) (content : Json) (name : Option String) (toolCalls : Json)
      (toolCallId : Option String)

/-- What is read of a message -/
structure Fields where
  type : String
  content : Json
  name : Option String
  toolCalls : Option Json
  toolCallId : Option String

variable (py : Decoder)

/-- `str(value) if value else …` -/
def nonEmpty (value : Json) : Option String := if truthy value then some (py.text value) else none

def Message.read : Message → Fields
  | .mapping fields =>
      let get key := (fields.lookup key).getD .null
      { type := ((nonEmpty py (get "type")).orElse fun _ => nonEmpty py (get "role")).getD ""
        content := (fields.lookup "content").getD (.str "")
        name := nonEmpty py (get "name")
        toolCalls := if truthy (get "tool_calls") then some (get "tool_calls") else none
        toolCallId := nonEmpty py (get "tool_call_id") }
  | .base type content name toolCalls toolCallId =>
      { type, content
        name := name.filter (· ≠ "")
        toolCalls := if truthy toolCalls then some toolCalls else none
        toolCallId := toolCallId.filter (· ≠ "") }

/-- `payload[key] = value`, if there is one -/
def optionalField (key : String) : Option Json → List (String × Json)
  | some value => [(key, value)]
  | none => []

/-- `_message_payload` -/
def messageFields (f : Fields) : List (String × Json) :=
  [("type", .str f.type), ("content", cacheKeyPayload hexdigest none f.content)] ++
    (optionalField "name" (f.name.map .str) ++
      (optionalField "tool_calls" (f.toolCalls.map (cacheKeyPayload hexdigest none)) ++
        optionalField "tool_call_id" (f.toolCallId.map .str)))

def messagePayload (message : Message) : Json := .obj (messageFields hexdigest (message.read py))

/-! ## The key -/

structure Request where
  userId : Option String
  modelName : String
  messages : List Message
  systemMessage : Option Message
  extraContext : Json

/-- The system message, if there is one that is truthy -/
def Request.system (r : Request) : Option Message :=
  match r.systemMessage with
  | some (.mapping []) => none
  | message => message

def Request.parts (r : Request) (userId : String) : List Json :=
  [.str "v1", .str userId, .str r.modelName,
    (r.system.map (messagePayload hexdigest py)).getD .null,
    .arr (r.messages.map (messagePayload hexdigest py)), r.extraContext]

/-- `cache.digest`, with the hash function -/
def digest (parts : List Json) : String :=
  hexdigest (String.ofList (Json.arr parts).sortKeys.spaced)

def buildCacheKey (r : Request) : Option String :=
  match r.userId with
  | none => none
  | some userId =>
      if userId = "" then none
      else some ("chat:graph_response:" ++ digest hexdigest (r.parts hexdigest py userId))

theorem digest_standard (parts : List Json) : digest Sha2.hexdigest parts = Cache.digest parts :=
  rfl

/-! ## Objects that stand for a string -/

/-- An object is, but for the order of its keys, what a string in its place would be replaced by. -/
def StandsFor (fieldName : Option String) (kvs : List (String × Json)) (value : String) : Prop :=
  isHashed fieldName value = true ∧ (hexdigest value).length < cacheLargeStringMinChars ∧
    (Json.obj kvs).sortKeys = (hashedStringPayload hexdigest value).sortKeys

mutual
/-- No object in the value stands for a string. -/
def Plain (fieldName : Option String) : Json → Prop
  | .obj kvs => (∀ value, ¬ StandsFor hexdigest fieldName kvs value) ∧ PlainFields kvs
  | .arr items => PlainItems items
  | _ => True
termination_by structural value => value

def PlainItems : List Json → Prop
  | [] => True
  | item :: items => Plain none item ∧ PlainItems items
termination_by structural items => items

def PlainFields : List (String × Json) → Prop
  | [] => True
  | (key, item) :: kvs => Plain (some key) item ∧ PlainFields kvs
termination_by structural kvs => kvs
end

open Classical in
mutual
/-- The value with the strings in place of the objects that stand for them -/
noncomputable def restored (fieldName : Option String) : Json → Json
  | .obj kvs =>
      if h : ∃ value, StandsFor hexdigest fieldName kvs value then .str h.choose
      else .obj (restoredFields kvs)
  | .arr items => .arr (restoredItems items)
  | value => value
termination_by structural value => value

noncomputable def restoredItems : List Json → List Json
  | [] => []
  | item :: items => restored none item :: restoredItems items
termination_by structural items => items

noncomputable def restoredFields : List (String × Json) → List (String × Json)
  | [] => []
  | (key, item) :: kvs => (key, restored (some key) item) :: restoredFields kvs
termination_by structural kvs => kvs
end

/-! ## Item by item -/

theorem cacheKeyFields_eq_map (kvs : List (String × Json)) :
    cacheKeyFields hexdigest kvs =
      kvs.map fun p => (p.1, cacheKeyPayload hexdigest (some p.1) p.2) := by
  induction kvs with
  | nil => rfl
  | cons first kvs ih => rw [cacheKeyFields, ih, List.map_cons]

theorem cacheKeyItems_eq_map (items : List Json) :
    cacheKeyItems hexdigest items = items.map (cacheKeyPayload hexdigest none) := by
  induction items with
  | nil => rfl
  | cons item items ih => rw [cacheKeyItems, ih, List.map_cons]

theorem restoredFields_eq_map (kvs : List (String × Json)) :
    restoredFields hexdigest kvs =
      kvs.map fun p => (p.1, restored hexdigest (some p.1) p.2) := by
  induction kvs with
  | nil => rfl
  | cons first kvs ih => rw [restoredFields, ih, List.map_cons]

theorem restoredItems_eq_map (items : List Json) :
    restoredItems hexdigest items = items.map (restored hexdigest none) := by
  induction items with
  | nil => rfl
  | cons item items ih => rw [restoredItems, ih, List.map_cons]

variable {hexdigest py} {fieldName : Option String} {kvs kvs' : List (String × Json)}
  {items : List Json} {value : String}

theorem plainFields_iff :
    PlainFields hexdigest kvs ↔ ∀ p ∈ kvs, Plain hexdigest (some p.1) p.2 := by
  induction kvs with
  | nil => simp [PlainFields]
  | cons first kvs ih => simp [PlainFields, ih]

theorem plainItems_iff :
    PlainItems hexdigest items ↔ ∀ item ∈ items, Plain hexdigest none item := by
  induction items with
  | nil => simp [PlainItems]
  | cons item items ih => simp [PlainItems, ih]

theorem map_eq_map_of {α β γ δ : Type} {f : α → γ} {g : β → γ} {f' : α → δ} {g' : β → δ}
    {xs : List α} {ys : List β} (h : xs.map f = ys.map g)
    (himp : ∀ x ∈ xs, ∀ y ∈ ys, f x = g y → f' x = g' y) : xs.map f' = ys.map g' := by
  induction xs generalizing ys with
  | nil =>
    cases ys with
    | nil => rfl
    | cons y ys => simp at h
  | cons x xs ih =>
    cases ys with
    | nil => simp at h
    | cons y ys =>
      simp only [List.map_cons, List.cons.injEq] at h ⊢
      exact ⟨himp x List.mem_cons_self y List.mem_cons_self h.1,
        ih h.2 fun a ha b hb => himp a (List.mem_cons_of_mem _ ha) b (List.mem_cons_of_mem _ hb)⟩

/-! ## What stands for a string -/

theorem nodup_hashedStringFields (value : String) :
    ((hashedStringFields hexdigest value).map Prod.fst).Nodup := by
  show [cacheHashedStringMarker, "sha256", "chars"].Nodup
  decide

/-- A value without parts -/
def Scalar : Json → Prop
  | .arr _ | .obj _ => False
  | _ => True

/-- Sorting makes no scalar of anything else. -/
theorem eq_of_sortKeys_scalar {j v : Json} (hj : Scalar j) (h : v.sortKeys = j) : v = j := by
  cases v <;> simp_all [Json.sortKeys, Scalar]
  all_goals (subst h; simp at hj)

theorem sortKeys_scalar {j : Json} (hj : Scalar j) : j.sortKeys = j := by
  cases j <;> simp_all [Json.sortKeys, Scalar]

/-- Only a scalar has a scalar for its payload: itself. -/
theorem eq_of_payload_scalar {j v : Json} (hj : Scalar j)
    (h : (cacheKeyPayload hexdigest fieldName v).sortKeys = j) :
    v = j ∧ cacheKeyPayload hexdigest fieldName v = v := by
  have hpayload := eq_of_sortKeys_scalar hj h
  cases v with
  | str s =>
    simp only [cacheKeyPayload] at hpayload ⊢
    split at hpayload
    · rw [← hpayload] at hj
      exact absurd hj (by simp [hashedStringPayload, Scalar])
    · rename_i hnot
      exact ⟨hpayload, if_neg hnot⟩
  | arr items =>
    rw [← hpayload] at hj
    exact absurd hj (by simp [cacheKeyPayload, Scalar])
  | obj kvs =>
    rw [← hpayload] at hj
    exact absurd hj (by simp [cacheKeyPayload, Scalar])
  | _ => exact ⟨hpayload, rfl⟩

theorem scalar_of_mem_hashedStringFields {p : String × Json}
    (h : p ∈ hashedStringFields hexdigest value) : Scalar p.2 := by
  simp only [hashedStringFields, List.mem_cons, List.not_mem_nil, or_false] at h
  rcases h with rfl | rfl | rfl <;> trivial

theorem payload_of_mem_hashedStringFields {p : String × Json}
    (hlen : (hexdigest value).length < cacheLargeStringMinChars)
    (h : p ∈ hashedStringFields hexdigest value) :
    cacheKeyPayload hexdigest (some p.1) p.2 = p.2 := by
  simp only [hashedStringFields, List.mem_cons, List.not_mem_nil, or_false] at h
  rcases h with rfl | rfl | rfl
  · rfl
  · exact if_neg (by
      simp [isHashed, cacheBinaryFieldNames, hlen])
  · rfl

/-- Sorting and replacing can be done in either order, field by field. -/
theorem payload_obj_sorted (kvs : List (String × Json)) :
    (cacheKeyPayload hexdigest fieldName (.obj kvs)).sortKeys =
      .obj ((Json.inOrder kvs).map
        fun p => (p.1, (cacheKeyPayload hexdigest (some p.1) p.2).sortKeys)) := by
  rw [cacheKeyPayload, cacheKeyFields_eq_map, Json.sortKeys_obj_map]

/-- An object with the payload of a hashed string stands for it. -/
theorem standsFor_of_payload (hhashed : isHashed fieldName value = true)
    (h : (cacheKeyPayload hexdigest fieldName (.obj kvs)).sortKeys =
      (hashedStringPayload hexdigest value).sortKeys) :
    StandsFor hexdigest fieldName kvs value := by
  rw [payload_obj_sorted, hashedStringPayload, Json.sortKeys_obj, Json.obj.injEq] at h
  refine ⟨hhashed, ?_, ?_⟩
  · have hsha : ("sha256", Json.str (hexdigest value)) ∈
        (Json.inOrder (hashedStringFields hexdigest value)).map fun p => (p.1, p.2.sortKeys) := by
      refine List.mem_map.mpr ⟨("sha256", .str (hexdigest value)), Json.mem_inOrder.mpr ?_, rfl⟩
      simp [hashedStringFields]
    rw [← h] at hsha
    obtain ⟨⟨key, item⟩, -, he⟩ := List.mem_map.mp hsha
    simp only [Prod.mk.injEq] at he
    obtain ⟨rfl, hitem⟩ := he
    obtain ⟨rfl, hself⟩ := eq_of_payload_scalar (j := .str (hexdigest value)) trivial hitem
    by_contra hlong
    have hpayload : cacheKeyPayload hexdigest (some "sha256") (.str (hexdigest value)) =
        hashedStringPayload hexdigest (hexdigest value) :=
      if_pos (by simp only [isHashed, Bool.or_eq_true, decide_eq_true_eq]; right; omega)
    rw [hself] at hpayload
    exact absurd hpayload (by simp [hashedStringPayload])
  · rw [hashedStringPayload, Json.sortKeys_obj, Json.sortKeys_obj, Json.obj.injEq]
    refine map_eq_map_of h fun x _ y hy he => ?_
    simp only [Prod.mk.injEq] at he ⊢
    have hscalar := scalar_of_mem_hashedStringFields (Json.mem_inOrder.mp hy)
    rw [sortKeys_scalar hscalar] at he ⊢
    obtain ⟨hx, -⟩ := eq_of_payload_scalar hscalar he.2
    exact ⟨he.1, by rw [hx, sortKeys_scalar hscalar]⟩

/-- What stands for a string has the payload of the string. -/
theorem StandsFor.payload (h : StandsFor hexdigest fieldName kvs value) :
    (cacheKeyPayload hexdigest fieldName (.obj kvs)).sortKeys =
      (cacheKeyPayload hexdigest fieldName (.str value)).sortKeys := by
  obtain ⟨hhashed, hlen, h⟩ := h
  have hstr : cacheKeyPayload hexdigest fieldName (.str value) =
      hashedStringPayload hexdigest value := if_pos hhashed
  rw [hashedStringPayload, Json.sortKeys_obj, Json.sortKeys_obj, Json.obj.injEq] at h
  rw [hstr, payload_obj_sorted, hashedStringPayload, Json.sortKeys_obj, Json.obj.injEq]
  refine map_eq_map_of h fun x _ y hy he => ?_
  simp only [Prod.mk.injEq] at he ⊢
  have hmem := Json.mem_inOrder.mp hy
  have hscalar := scalar_of_mem_hashedStringFields hmem
  rw [sortKeys_scalar hscalar] at he ⊢
  rw [he.1, eq_of_sortKeys_scalar hscalar he.2, payload_of_mem_hashedStringFields hlen hmem,
    sortKeys_scalar hscalar]
  exact ⟨rfl, rfl⟩

/-! ## The payload of plain values -/

/-- Two hashed strings with the same fields are the same string. -/
theorem hashedStringPayload_cancel (hinj : Function.Injective hexdigest) {s t : String}
    (h : (hashedStringPayload hexdigest s).sortKeys = (hashedStringPayload hexdigest t).sortKeys) :
    s = t := by
  have hsha := Json.lookup_of_sortKeys_eq (nodup_hashedStringFields s)
    (nodup_hashedStringFields t) h "sha256"
  exact hinj (by simpa [hashedStringFields, cacheHashedStringMarker, List.lookup_cons,
    Json.sortKeys] using hsha)

/-- Among plain values, only the string itself has the payload of a string. -/
theorem eq_of_payload_str (hinj : Function.Injective hexdigest) {w : Json}
    (hw : Plain hexdigest fieldName w)
    (h : (cacheKeyPayload hexdigest fieldName w).sortKeys =
      (cacheKeyPayload hexdigest fieldName (.str value)).sortKeys) : w = .str value := by
  by_cases hhashed : isHashed fieldName value = true
  · have hstr : cacheKeyPayload hexdigest fieldName (.str value) =
        hashedStringPayload hexdigest value := if_pos hhashed
    rw [hstr] at h
    cases w with
    | str t =>
      rw [cacheKeyPayload] at h
      split at h
      · rw [hashedStringPayload_cancel hinj h]
      · simp [hashedStringPayload, Json.sortKeys] at h
    | obj kvs => exact absurd (standsFor_of_payload hhashed h) (hw.1 value)
    | _ => simp [cacheKeyPayload, hashedStringPayload, Json.sortKeys] at h
  · have hstr : cacheKeyPayload hexdigest fieldName (.str value) = .str value := if_neg hhashed
    rw [hstr] at h
    exact (eq_of_payload_scalar (j := .str value) trivial h).1

/-- **Plain values with the same payload are the same**, all but for the order of keys. -/
theorem payload_cancel (hinj : Function.Injective hexdigest) (fieldName : Option String)
    (v w : Json) (hv : Plain hexdigest fieldName v) (hw : Plain hexdigest fieldName w)
    (h : (cacheKeyPayload hexdigest fieldName v).sortKeys =
      (cacheKeyPayload hexdigest fieldName w).sortKeys) : v.sortKeys = w.sortKeys := by
  match v, w with
  | .str s, w => rw [eq_of_payload_str hinj hw h.symm]
  | v, .str t => rw [eq_of_payload_str hinj hv h]
  | .arr xs, .arr ys =>
    simp only [cacheKeyPayload, cacheKeyItems_eq_map, Json.sortKeys, Json.sortKeysList_eq_map,
      List.map_map, Json.arr.injEq] at h ⊢
    refine map_eq_map_of h fun x hx y hy he => ?_
    exact payload_cancel hinj none x y (plainItems_iff.mp hv x hx) (plainItems_iff.mp hw y hy) he
  | .obj kvs, .obj kvs' =>
    rw [payload_obj_sorted, payload_obj_sorted, Json.obj.injEq] at h
    rw [Json.sortKeys_obj, Json.sortKeys_obj, Json.obj.injEq]
    refine map_eq_map_of h fun x hx y hy he => ?_
    simp only [Prod.mk.injEq] at he ⊢
    have hmem := Json.mem_inOrder.mp hx
    have hy' := plainFields_iff.mp hw.2 y (Json.mem_inOrder.mp hy)
    refine ⟨he.1, payload_cancel hinj (some x.1) x.2 y.2 (plainFields_iff.mp hv.2 x hmem) ?_ ?_⟩
    · rw [he.1]
      exact hy'
    · rw [he.2, he.1]
  | .null, w => rw [(eq_of_payload_scalar (j := .null) trivial h.symm).1]
  | .bool b, w => rw [(eq_of_payload_scalar (j := .bool b) trivial h.symm).1]
  | .int n, w => rw [(eq_of_payload_scalar (j := .int n) trivial h.symm).1]
  | .float f, w => rw [(eq_of_payload_scalar (j := .float f) trivial h.symm).1]
  | .arr xs, .obj _ => simp [cacheKeyPayload, Json.sortKeys] at h
  | .obj _, .arr ys => simp [cacheKeyPayload, Json.sortKeys] at h
  | v, .null => rw [(eq_of_payload_scalar (j := .null) trivial h).1]
  | v, .bool b => rw [(eq_of_payload_scalar (j := .bool b) trivial h).1]
  | v, .int n => rw [(eq_of_payload_scalar (j := .int n) trivial h).1]
  | v, .float f => rw [(eq_of_payload_scalar (j := .float f) trivial h).1]
termination_by sizeOf v
decreasing_by
  · have := List.sizeOf_lt_of_mem hx
    simp
    omega
  · have := List.sizeOf_lt_of_mem hmem
    have hpair : sizeOf x.2 < sizeOf x := by
      rcases x with ⟨key, item⟩
      simp
    simp
    omega

/-! ## The strings put back -/

theorem restored_of_standsFor (h : ∃ value, StandsFor hexdigest fieldName kvs value) :
    ∃ value, StandsFor hexdigest fieldName kvs value ∧
      restored hexdigest fieldName (.obj kvs) = .str value := by
  refine ⟨h.choose, h.choose_spec, ?_⟩
  rw [restored, dif_pos h]

theorem restored_of_not (h : ¬ ∃ value, StandsFor hexdigest fieldName kvs value) :
    restored hexdigest fieldName (.obj kvs) =
      .obj (kvs.map fun p => (p.1, restored hexdigest (some p.1) p.2)) := by
  rw [restored, dif_neg h, restoredFields_eq_map]

mutual
/-- The key does not tell the strings that are put back from what stood for them. -/
theorem payload_restored : ∀ (fieldName : Option String) (v : Json),
    (cacheKeyPayload hexdigest fieldName (restored hexdigest fieldName v)).sortKeys =
      (cacheKeyPayload hexdigest fieldName v).sortKeys
  | fieldName, .obj kvs => by
    by_cases h : ∃ value, StandsFor hexdigest fieldName kvs value
    · obtain ⟨value, hstands, hrestored⟩ := restored_of_standsFor h
      rw [hrestored, hstands.payload]
    · rw [restored_of_not h]
      simp only [cacheKeyPayload, cacheKeyFields_eq_map, List.map_map]
      exact Json.sortKeys_obj_map_eq_iff.mpr (payload_restored_fields kvs)
  | fieldName, .arr items => by
    simp only [restored, cacheKeyPayload, cacheKeyItems_eq_map, restoredItems_eq_map, List.map_map]
    exact Json.sortKeys_arr_map_eq_iff.mpr (payload_restored_items items)
  | fieldName, .null | fieldName, .bool _ | fieldName, .int _ | fieldName, .float _
  | fieldName, .str _ => rfl
termination_by structural _ v => v

theorem payload_restored_items : ∀ items : List Json, ∀ item ∈ items,
    (cacheKeyPayload hexdigest none (restored hexdigest none item)).sortKeys =
      (cacheKeyPayload hexdigest none item).sortKeys
  | [] => by simp
  | item :: items => by
    simp only [List.mem_cons, forall_eq_or_imp]
    exact ⟨payload_restored none item, payload_restored_items items⟩
termination_by structural items => items

theorem payload_restored_fields : ∀ kvs : List (String × Json), ∀ p ∈ kvs,
    (cacheKeyPayload hexdigest (some p.1) (restored hexdigest (some p.1) p.2)).sortKeys =
      (cacheKeyPayload hexdigest (some p.1) p.2).sortKeys
  | [] => by simp
  | (key, item) :: kvs => by
    simp only [List.mem_cons, forall_eq_or_imp]
    exact ⟨payload_restored (some key) item, payload_restored_fields kvs⟩
termination_by structural kvs => kvs
end

mutual
/-- Nothing that stands for a string is left. -/
theorem plain_restored : ∀ (fieldName : Option String) (v : Json),
    Plain hexdigest fieldName (restored hexdigest fieldName v)
  | fieldName, .obj kvs => by
    by_cases h : ∃ value, StandsFor hexdigest fieldName kvs value
    · obtain ⟨value, -, hrestored⟩ := restored_of_standsFor h
      rw [hrestored]
      trivial
    · have hpayload : (cacheKeyPayload hexdigest fieldName
          (restored hexdigest fieldName (.obj kvs))).sortKeys =
            (cacheKeyPayload hexdigest fieldName (.obj kvs)).sortKeys := payload_restored _ _
      rw [restored_of_not h] at hpayload ⊢
      refine ⟨fun value hstands => h ⟨value, ?_⟩, ?_⟩
      · have hstr : cacheKeyPayload hexdigest fieldName (.str value) =
            hashedStringPayload hexdigest value := if_pos hstands.1
        exact standsFor_of_payload hstands.1 (by rw [← hpayload, hstands.payload, hstr])
      · rw [← restoredFields_eq_map]
        exact plainFields_restored kvs
  | fieldName, .arr items => plainItems_restored items
  | fieldName, .null | fieldName, .bool _ | fieldName, .int _ | fieldName, .float _
  | fieldName, .str _ => trivial
termination_by structural _ v => v

theorem plainItems_restored : ∀ items, PlainItems hexdigest (restoredItems hexdigest items)
  | [] => trivial
  | item :: items => ⟨plain_restored none item, plainItems_restored items⟩
termination_by structural items => items

theorem plainFields_restored : ∀ kvs, PlainFields hexdigest (restoredFields hexdigest kvs)
  | [] => trivial
  | (key, item) :: kvs => ⟨plain_restored (some key) item, plainFields_restored kvs⟩
termination_by structural kvs => kvs
end

mutual
/-- A value that is the same with its strings put back has none to put back. -/
theorem plain_of_restored : ∀ (fieldName : Option String) (v : Json),
    (restored hexdigest fieldName v).sortKeys = v.sortKeys → Plain hexdigest fieldName v
  | fieldName, .obj kvs, heq => by
    by_cases h : ∃ value, StandsFor hexdigest fieldName kvs value
    · obtain ⟨value, -, hrestored⟩ := restored_of_standsFor h
      rw [hrestored] at heq
      simp [Json.sortKeys] at heq
    · refine ⟨fun value hstands => h ⟨value, hstands⟩, plainFields_of_restored kvs ?_⟩
      rw [restored_of_not h] at heq
      have hid : kvs = kvs.map fun p => (p.1, p.2) := by simp
      rw [hid, List.map_map] at heq
      exact Json.sortKeys_obj_map_eq_iff.mp heq
  | fieldName, .arr items, heq => by
    have hid : items = items.map id := by simp
    rw [restored, restoredItems_eq_map] at heq
    rw [hid, List.map_map] at heq
    exact plainItems_of_restored items (Json.sortKeys_arr_map_eq_iff.mp heq)
  | fieldName, .null, _ | fieldName, .bool _, _ | fieldName, .int _, _ | fieldName, .float _, _
  | fieldName, .str _, _ => trivial
termination_by structural _ v => v

theorem plainItems_of_restored : ∀ items : List Json,
    (∀ item ∈ items, (restored hexdigest none item).sortKeys = item.sortKeys) →
      PlainItems hexdigest items
  | [], _ => trivial
  | item :: items, heq => ⟨plain_of_restored none item (heq item List.mem_cons_self),
      plainItems_of_restored items fun x hx => heq x (List.mem_cons_of_mem _ hx)⟩
termination_by structural items => items

theorem plainFields_of_restored : ∀ kvs : List (String × Json),
    (∀ p ∈ kvs, (restored hexdigest (some p.1) p.2).sortKeys = p.2.sortKeys) →
      PlainFields hexdigest kvs
  | [], _ => trivial
  | (key, item) :: kvs, heq => ⟨plain_of_restored (some key) item (heq _ List.mem_cons_self),
      plainFields_of_restored kvs fun p hp => heq p (List.mem_cons_of_mem _ hp)⟩
termination_by structural kvs => kvs
end

/-- Putting strings back makes nothing empty. -/
theorem truthy_restored (v : Json) : truthy (restored hexdigest none v) = truthy v := by
  cases v with
  | obj kvs =>
    by_cases h : ∃ value, StandsFor hexdigest none kvs value
    · obtain ⟨value, ⟨hhashed, -, hsorted⟩, hrestored⟩ := restored_of_standsFor h
      have hvalue : value ≠ "" := by
        rintro rfl
        exact absurd hhashed (by decide)
      have hkvs : kvs ≠ [] := by
        rintro rfl
        rw [hashedStringPayload, Json.sortKeys_obj, Json.sortKeys_obj, Json.obj.injEq] at hsorted
        have hlength := congrArg List.length hsorted
        simp only [Json.inOrder, List.length_map, List.length_insertionSort] at hlength
        exact absurd hlength (by simp [hashedStringFields])
      rw [hrestored, truthy, truthy, List.isEmpty_eq_false_iff.mpr hkvs]
      exact bne_iff_ne.mpr hvalue
    · rw [restored_of_not h]
      simp [truthy]
  | arr items => simp [restored, restoredItems_eq_map, truthy]
  | _ => rfl

end Chat.CacheKey

end HyChat
