import HyChat.Chat.CacheKey

/-!
# What a response cache key says of its request

**A request in which no object stands for a string is identified by its key among all such requests,
and a request with such an object is not** (`cache_key_identifies_iff`): it has the key of the
request that has the string in its place. An empty dictionary as the system message is taken for
none.

What identifies a request. The user, the model and the extra context go into the key as they are.
Of a message only some attributes are read, and of those only what is truthy; `Alike` compares what
is read, up to the order of keys, and so says in terms of the request what the key can tell at all.
A `system` message that is an empty dictionary is falsy in Python and is taken for none, which is
why being plain has a clause about it.

The hash stays a parameter, with injectivity as a hypothesis. The last section shows that the
exception is not an artefact of this: with the real digest, a request can be written down by hand
that has the key of another one.
-/

set_option autoImplicit false

namespace HyChat

open Lib

namespace Chat.CacheKey

variable {hexdigest : Hash} {py : Decoder} {value : String}

/-! ## Messages that are alike -/

/-- What is read of a message, but for the order of keys -/
def Fields.sorted (f : Fields) : Fields :=
  { f with content := f.content.sortKeys, toolCalls := f.toolCalls.map Json.sortKeys }

def Message.shown (py : Decoder) (message : Message) : Fields := (message.read py).sorted

variable (hexdigest) in
def Fields.Plain (f : Fields) : Prop :=
  CacheKey.Plain hexdigest none f.content ∧
    ∀ calls ∈ f.toolCalls, CacheKey.Plain hexdigest none calls

variable (hexdigest) in
noncomputable def Fields.restored (f : Fields) : Fields :=
  { f with
    content := CacheKey.restored hexdigest none f.content
    toolCalls := f.toolCalls.map (CacheKey.restored hexdigest none) }

variable (hexdigest) in
/-- The message with the strings put back in what the key reads of it -/
noncomputable def Message.restored : Message → Message
  | .mapping fields => .mapping (fields.map fun p =>
      (p.1, if p.1 ∈ ["content", "tool_calls"] then CacheKey.restored hexdigest none p.2 else p.2))
  | .base type content name toolCalls toolCallId =>
      .base type (CacheKey.restored hexdigest none content) name
        (CacheKey.restored hexdigest none toolCalls) toolCallId

theorem optionalField_map_fst (key : String) (v : Option Json) :
    (optionalField key v).map Prod.fst = (v.map fun _ => key).toList := by
  cases v <;> rfl

/-- The fields of a message have different names. -/
theorem nodup_messageFields (f : Fields) :
    ((messageFields hexdigest f).map Prod.fst).Nodup := by
  have hkeys : ["type", "content", "name", "tool_calls", "tool_call_id"].Nodup := by decide
  refine hkeys.sublist ?_
  simp only [messageFields, List.map_append, optionalField_map_fst, List.map_cons,
    List.cons_append, List.nil_append]
  refine .cons_cons _ (.cons_cons _ ?_)
  cases f.name <;> cases f.toolCalls <;> cases f.toolCallId <;> simp

variable (hexdigest) in
theorem lookup_messageFields (f : Fields) :
    (messageFields hexdigest f).lookup "type" = some (.str f.type) ∧
      (messageFields hexdigest f).lookup "content" =
        some (cacheKeyPayload hexdigest none f.content) ∧
      (messageFields hexdigest f).lookup "name" = f.name.map .str ∧
      (messageFields hexdigest f).lookup "tool_calls" =
        f.toolCalls.map (cacheKeyPayload hexdigest none) ∧
      (messageFields hexdigest f).lookup "tool_call_id" = f.toolCallId.map .str := by
  cases f with
  | mk type content name toolCalls toolCallId =>
    cases name <;> cases toolCalls <;> cases toolCallId <;> exact ⟨rfl, rfl, rfl, rfl, rfl⟩

theorem option_map_eq_of {α β γ δ : Type} {f : α → γ} {g : β → γ} {f' : α → δ} {g' : β → δ}
    {x : Option α} {y : Option β} (h : x.map f = y.map g)
    (himp : ∀ a ∈ x, ∀ b ∈ y, f a = g b → f' a = g' b) : x.map f' = y.map g' := by
  cases x <;> cases y <;> simp_all

/-- Plain messages with the same payload are alike. -/
theorem sorted_of_payload (hinj : Function.Injective hexdigest) {f g : Fields}
    (hf : f.Plain hexdigest) (hg : g.Plain hexdigest)
    (h : (Json.obj (messageFields hexdigest f)).sortKeys =
      (Json.obj (messageFields hexdigest g)).sortKeys) : f.sorted = g.sorted := by
  have hlookup := Json.lookup_of_sortKeys_eq (nodup_messageFields f) (nodup_messageFields g) h
  obtain ⟨ftype, fcontent, fname, fcalls, fid⟩ := lookup_messageFields hexdigest f
  obtain ⟨gtype, gcontent, gname, gcalls, gid⟩ := lookup_messageFields hexdigest g
  have hstr : ∀ {x y : Option String},
      (x.map Json.str).map Json.sortKeys = (y.map Json.str).map Json.sortKeys → x = y := by
    intro x y hxy
    cases x <;> cases y <;> simp_all [Json.sortKeys]
  have htype := hlookup "type"
  have hcontent := hlookup "content"
  have hname := hlookup "name"
  have hcalls := hlookup "tool_calls"
  have hid := hlookup "tool_call_id"
  rw [ftype, gtype] at htype
  rw [fcontent, gcontent, Option.map_some, Option.map_some, Option.some.injEq] at hcontent
  rw [fname, gname] at hname
  rw [fcalls, gcalls] at hcalls
  rw [fid, gid] at hid
  have hcalls' : f.toolCalls.map Json.sortKeys = g.toolCalls.map Json.sortKeys := by
    rw [Option.map_map, Option.map_map] at hcalls
    exact option_map_eq_of hcalls fun x hx y hy =>
      payload_cancel hinj none x y (hf.2 x hx) (hg.2 y hy)
  simp only [Fields.sorted, Fields.mk.injEq]
  exact ⟨Option.some.inj (hstr (x := some f.type) (y := some g.type) htype),
    payload_cancel hinj none _ _ hf.1 hg.1 hcontent, hstr hname, hcalls', hstr hid⟩

theorem messageFields_restored (f : Fields) :
    (Json.obj (messageFields hexdigest (f.restored hexdigest))).sortKeys =
      (Json.obj (messageFields hexdigest f)).sortKeys := by
  refine Json.sortKeys_obj_congr ?_
  cases f with
  | mk type content name toolCalls toolCallId =>
    cases toolCalls <;> simp [messageFields, Fields.restored, optionalField, payload_restored]

theorem Fields.restored_plain (f : Fields) : (f.restored hexdigest).Plain hexdigest := by
  refine ⟨plain_restored none f.content, fun calls hcalls => ?_⟩
  obtain ⟨calls, -, rfl⟩ := Option.map_eq_some_iff.mp hcalls
  exact plain_restored none calls

theorem plain_of_sorted {f : Fields} (h : (f.restored hexdigest).sorted = f.sorted) :
    f.Plain hexdigest := by
  simp only [Fields.sorted, Fields.restored, Fields.mk.injEq, true_and] at h
  refine ⟨plain_of_restored none f.content h.1, fun calls hcalls => ?_⟩
  rw [Option.mem_def.mp hcalls] at h
  exact plain_of_restored none calls (Option.some.inj h.2.1)

/-- Nothing else of a message changes. -/
theorem read_restored (message : Message) :
    (message.restored hexdigest).read py = (message.read py).restored hexdigest := by
  cases message with
  | base type content name toolCalls toolCallId =>
    simp only [Message.restored, Message.read, Fields.restored, truthy_restored]
    split <;> rfl
  | mapping fields =>
    have hlookup := Dict.lookup_map (fun key value =>
      if key ∈ ["content", "tool_calls"] then restored hexdigest none value else value) fields
    have hcalls : ∀ calls : Option Json, (calls.map (restored hexdigest none)).getD .null =
        restored hexdigest none (calls.getD .null) := by
      intro calls
      cases calls <;> rfl
    have hcontent : ∀ content : Option Json,
        (content.map (restored hexdigest none)).getD (.str "") =
          restored hexdigest none (content.getD (.str "")) := by
      intro content
      cases content <;> rfl
    simp only [Message.restored, Message.read, hlookup, Fields.restored]
    simp [hcalls, hcontent, truthy_restored]

/-! ## Requests that are alike -/

/-- What a key is to identify -/
structure Alike (py : Decoder) (r r' : Request) : Prop where
  userId : r.userId = r'.userId
  modelName : r.modelName = r'.modelName
  extraContext : r.extraContext.sortKeys = r'.extraContext.sortKeys
  systemMessage : r.systemMessage.map (Message.shown py) = r'.systemMessage.map (Message.shown py)
  messages : r.messages.map (Message.shown py) = r'.messages.map (Message.shown py)

variable (hexdigest py) in
/-- No object of a message stands for a string, and the system message is not an empty one. -/
structure Request.Plain (r : Request) : Prop where
  messages : ∀ message ∈ r.messages, (message.read py).Plain hexdigest
  systemMessage : ∀ message ∈ r.systemMessage, (message.read py).Plain hexdigest
  notEmpty : r.systemMessage ≠ some (.mapping [])

variable (hexdigest) in
/-- The request with the strings put back, and without an empty system message -/
noncomputable def Request.restored (r : Request) : Request :=
  { r with
    messages := r.messages.map (Message.restored hexdigest)
    systemMessage := r.system.map (Message.restored hexdigest) }

/-- A system message that is shown was there. -/
theorem Request.system_eq {r : Request} (hne : r.systemMessage ≠ some (.mapping [])) :
    r.system = r.systemMessage := by
  unfold Request.system
  split
  · rename_i heq
    exact absurd heq hne
  · rfl

theorem Request.system_ne (r : Request) : r.system ≠ some (.mapping []) := by
  unfold Request.system
  split
  · simp
  · assumption

/-- Putting strings back leaves no message empty. -/
theorem Request.restored_ne (r : Request) :
    (r.restored hexdigest).systemMessage ≠ some (.mapping []) := by
  intro h
  obtain ⟨message, hsystem, hmessage⟩ := Option.map_eq_some_iff.mp h
  cases message with
  | mapping fields =>
    obtain rfl : fields = [] := by simpa [Message.restored] using hmessage
    exact r.system_ne hsystem
  | base => simp [Message.restored] at hmessage

theorem messagePayload_restored (message : Message) :
    (messagePayload hexdigest py (message.restored hexdigest)).sortKeys =
      (messagePayload hexdigest py message).sortKeys := by
  rw [messagePayload, read_restored, messageFields_restored, messagePayload]

theorem Request.restored_plain (r : Request) : (r.restored hexdigest).Plain hexdigest py where
  messages := by
    intro message hmem
    obtain ⟨message, -, rfl⟩ := List.mem_map.mp hmem
    rw [read_restored]
    exact Fields.restored_plain _
  systemMessage := by
    intro message hmem
    obtain ⟨message, -, rfl⟩ := Option.map_eq_some_iff.mp hmem
    rw [read_restored]
    exact Fields.restored_plain _
  notEmpty := r.restored_ne

theorem buildCacheKey_restored (r : Request) :
    buildCacheKey hexdigest py (r.restored hexdigest) = buildCacheKey hexdigest py r := by
  have hparts : ∀ userId, (Json.arr ((r.restored hexdigest).parts hexdigest py userId)).sortKeys =
      (Json.arr (r.parts hexdigest py userId)).sortKeys := by
    intro userId
    simp only [Request.parts, Request.system_eq r.restored_ne]
    cases h : r.system <;>
      simp [Request.restored, Json.sortKeys, Json.sortKeysList_eq_map, h, messagePayload_restored]
  have hdigest : ∀ userId, digest hexdigest ((r.restored hexdigest).parts hexdigest py userId) =
      digest hexdigest (r.parts hexdigest py userId) := by
    intro userId
    rw [digest, digest, hparts]
  have huser : (r.restored hexdigest).userId = r.userId := rfl
  rw [buildCacheKey, buildCacheKey, huser]
  cases r.userId with
  | none => rfl
  | some userId => simp only [hdigest]

/-- There is a key when there is a user: the digest of the parts. -/
theorem buildCacheKey_eq_some {r : Request} {key : String} :
    buildCacheKey hexdigest py r = some key ↔ ∃ userId, r.userId = some userId ∧ userId ≠ "" ∧
      "chat:graph_response:" ++ digest hexdigest (r.parts hexdigest py userId) = key := by
  unfold buildCacheKey
  split
  · simp [*]
  · simp [*]

/-- Plain requests with the same key are alike. -/
theorem alike_of_key (hinj : Function.Injective hexdigest) {r r' : Request} {key : String}
    (hr : r.Plain hexdigest py) (hr' : r'.Plain hexdigest py)
    (hkey : buildCacheKey hexdigest py r = some key)
    (hkey' : buildCacheKey hexdigest py r' = some key) : Alike py r r' := by
  obtain ⟨userId, huser, -, rfl⟩ := buildCacheKey_eq_some.mp hkey
  obtain ⟨userId', huser', -, hsame⟩ := buildCacheKey_eq_some.mp hkey'
  have htext := hinj (String.append_right_inj _ |>.mp hsame)
  have hparts := Json.spaced_injective (String.ofList_injective htext)
  simp only [Request.parts, Json.sortKeys, Json.sortKeysList_eq_map, Json.arr.injEq, List.map_cons,
    List.map_nil, List.cons.injEq, Json.str.injEq, true_and, and_true] at hparts
  obtain ⟨hid, hmodel, hsystem, hmessages, hcontext⟩ := hparts
  have hcancel : ∀ {m m' : Message}, (m.read py).Plain hexdigest → (m'.read py).Plain hexdigest →
      (messagePayload hexdigest py m).sortKeys = (messagePayload hexdigest py m').sortKeys →
        m.shown py = m'.shown py := sorted_of_payload hinj
  refine ⟨?_, hmodel.symm, hcontext.symm, ?_, ?_⟩
  · rw [huser, huser', hid]
  · rw [Request.system_eq hr.notEmpty, Request.system_eq hr'.notEmpty] at hsystem
    cases hs : r.systemMessage with
    | none =>
      cases hs' : r'.systemMessage with
      | none => rfl
      | some m' => simp [hs, hs', messagePayload, Json.sortKeys] at hsystem
    | some m =>
      cases hs' : r'.systemMessage with
      | none => simp [hs, hs', messagePayload, Json.sortKeys] at hsystem
      | some m' =>
        rw [hs, hs'] at hsystem
        exact congrArg some
          (hcancel (hr.systemMessage m hs) (hr'.systemMessage m' hs') hsystem.symm)
  · rw [List.map_map, List.map_map] at hmessages
    exact map_eq_map_of hmessages.symm fun m hm m' hm' h =>
      hcancel (hr.messages m hm) (hr'.messages m' hm') h

/-- A request that is alike with its strings put back is plain. -/
theorem plain_of_alike {r : Request} (h : Alike py r (r.restored hexdigest)) :
    r.Plain hexdigest py := by
  have hread : ∀ m : Message, m.shown py = (m.restored hexdigest).shown py →
      (m.read py).Plain hexdigest := by
    intro m hm
    rw [Message.shown, Message.shown, read_restored] at hm
    exact plain_of_sorted hm.symm
  have hsystem := h.systemMessage
  have hmessages := h.messages
  simp only [Request.restored, List.map_map, Option.map_map] at hsystem hmessages
  have hne : r.systemMessage ≠ some (.mapping []) := by
    intro he
    simp [he, Request.system] at hsystem
  rw [Request.system_eq hne] at hsystem
  refine ⟨fun m hm => hread m (List.map_inj_left.mp hmessages m hm), fun m hm => hread m ?_, hne⟩
  rw [Option.mem_def.mp hm] at hsystem
  exact Option.some.inj hsystem

/-- **A request is told from every other plain one by its key exactly when it is plain.** -/
theorem cache_key_identifies_iff (hinj : Function.Injective hexdigest) (r : Request) (key : String)
    (hkey : buildCacheKey hexdigest py r = some key) :
    (∀ r', r'.Plain hexdigest py → buildCacheKey hexdigest py r' = some key → Alike py r r') ↔
      r.Plain hexdigest py := by
  constructor
  · intro h
    exact plain_of_alike (h _ r.restored_plain (by rw [buildCacheKey_restored, hkey]))
  · intro hr r' hr' hkey'
    exact alike_of_key hinj hr hr' hkey hkey'

/-- A message with no attributes but its content -/
def plainMessage (content : Json) : Message := .base "human" content none .null none

/-- A first message of a user -/
def firstRequest (content : Json) : Request :=
  { userId := some "alice", modelName := "gpt", messages := [plainMessage content],
    systemMessage := none, extraContext := .null }

def noDecoder : Decoder := ⟨fun _ => .decodeError, fun _ => ""⟩

theorem buildCacheKey_first (content : Json) :
    buildCacheKey hexdigest py (firstRequest content) = some ("chat:graph_response:" ++
      digest hexdigest [.str "v1", .str "alice", .str "gpt", .null, .arr [.obj
        [("type", .str "human"), ("content", cacheKeyPayload hexdigest none content)]],
        .null]) := by
  rw [buildCacheKey, firstRequest]
  exact if_neg (by decide)

/-- What is hashed for a first message "hi" -/
def greetingText : String :=
  String.ofList (Json.arr [.str "v1", .str "alice", .str "gpt", .null, .arr [.obj [("type",
    .str "human"), ("content", .str "hi")]], .null]).sortKeys.spaced

/-- A hash function without collisions that has the standard's value on the text of the greeting -/
def greetingHash : Hash := Equiv.swap greetingText (Sha2.hexdigest greetingText)

/-- A user's first "hi" shares its key with no other request without objects that stand for one. -/
theorem cache_key_identifies_greeting :
    buildCacheKey greetingHash noDecoder (firstRequest (.str "hi")) =
        some ("chat:graph_response:" ++ Sha2.hexdigest greetingText) ∧
      ∀ r', r'.Plain greetingHash noDecoder → buildCacheKey greetingHash noDecoder r' =
        some ("chat:graph_response:" ++ Sha2.hexdigest greetingText) →
          Alike noDecoder (firstRequest (.str "hi")) r' := by
  have hkey : buildCacheKey greetingHash noDecoder (firstRequest (.str "hi")) =
      some ("chat:graph_response:" ++ Sha2.hexdigest greetingText) := by
    rw [buildCacheKey_first]
    exact congrArg (fun text => some ("chat:graph_response:" ++ text)) (Equiv.swap_apply_left _ _)
  refine ⟨hkey, (cache_key_identifies_iff (Equiv.injective _) _ _ hkey).mpr ⟨?_, by
    simp [firstRequest], by simp [firstRequest]⟩⟩
  simp only [firstRequest, List.mem_singleton, forall_eq]
  exact ⟨trivial, by simp [plainMessage, Message.read, truthy]⟩

/-- The content in which the object is in the place of the string has the same key. -/
theorem buildCacheKey_imitated (hlen : (hexdigest value).length < cacheLargeStringMinChars) :
    buildCacheKey hexdigest py
        (firstRequest (.obj [("data", hashedStringPayload hexdigest value)])) =
      buildCacheKey hexdigest py (firstRequest (.obj [("data", .str value)])) := by
  have hself : ∀ p ∈ hashedStringFields hexdigest value,
      (p.1, cacheKeyPayload hexdigest (some p.1) p.2) = p := by
    intro p hp
    rw [payload_of_mem_hashedStringFields hlen hp]
  have hobject : cacheKeyPayload hexdigest (some "data") (hashedStringPayload hexdigest value) =
      hashedStringPayload hexdigest value := by
    rw [hashedStringPayload, cacheKeyPayload, cacheKeyFields_eq_map, List.map_congr_left hself,
      List.map_id']
  have hstr : cacheKeyPayload hexdigest (some "data") (.str value) =
      hashedStringPayload hexdigest value := by
    rw [cacheKeyPayload]
    exact if_pos rfl
  have hcontent : ∀ data, cacheKeyPayload hexdigest none (.obj [("data", data)]) =
      .obj [("data", cacheKeyPayload hexdigest (some "data") data)] := fun _ => rfl
  rw [buildCacheKey_first, buildCacheKey_first, hcontent, hcontent, hobject, hstr]

variable (hexdigest value) in
/-- The two requests are different to the model. -/
theorem not_alike_imitated : ¬ Alike py (firstRequest (.obj [("data", .str value)]))
    (firstRequest (.obj [("data", hashedStringPayload hexdigest value)])) := by
  intro h
  have hmessages := h.messages
  simp [firstRequest, plainMessage, Message.shown, Message.read, Fields.sorted, hashedStringPayload,
    Json.sortKeys_obj, Json.inOrder, Json.sortKeys] at hmessages

/-- The data "x", and the object that the key is made with in its place, have the same key: with the
standard's digest, and with any other of less than 1,024 characters. -/
theorem imitated_hashed_string :
    (∃ r r' key, buildCacheKey Sha2.hexdigest noDecoder r = some key ∧
      buildCacheKey Sha2.hexdigest noDecoder r' = some key ∧ ¬ Alike noDecoder r r') ∧
    ¬ ∀ hexdigest : Hash, Function.Injective hexdigest → ∀ r r' key,
      buildCacheKey hexdigest noDecoder r = some key →
        buildCacheKey hexdigest noDecoder r' = some key → Alike noDecoder r r' := by
  constructor
  · refine ⟨_, _, _, buildCacheKey_first (.obj [("data", .str "x")]), ?_,
      not_alike_imitated Sha2.hexdigest "x"⟩
    rw [buildCacheKey_imitated (by rw [Sha2.length_hexdigest]; decide), buildCacheKey_first]
  · intro h
    refine absurd (h id Function.injective_id _ _ _
      (buildCacheKey_first (.obj [("data", .str "x")])) ?_) (not_alike_imitated id "x")
    rw [buildCacheKey_imitated (by decide), buildCacheKey_first]

end Chat.CacheKey

end HyChat
