import HyChat.Cache.Carried
import HyChat.Lib.JsonOrder

/-!
# Embeddings over one cache

`embed_documents` looks every text up, embeds those it misses with one call of the model, and stores
them. The key of an entry is made of the model's name, the dimensions and the text; whether the
vector comes from the remote model or from `_hash_embedding` is not part of it.

Any number of calls, of services that were created with a remote model or without, proceed command
by command over one Redis. Beside an entry stands who wrote it and for which text: nothing reads
this, and the condition of the theorem is about it.

That the model's name, the dimensions and the text are the same where the key is the same is proved
here from the text that is hashed, so that the condition only asks for what the key leaves out: the
remote model, and that SHA-256 has not given two texts one digest. The remote model and
`_hash_embedding` are arbitrary functions of the text; that the remote model itself always answers
alike is not claimed.
-/

set_option autoImplicit false

namespace HyChat

open Lib

namespace Rag

abbrev Vector := List Json

/-- A service with the settings it was created under; the remote model is there when an API key was
    set. -/
structure EmbeddingService where
  zhipuEmbeddingModel : String
  dimensions : Nat
  remote : Option (String → Vector)

/-- `_hash_embedding` -/
abbrev HashEmbedding := Nat → String → Vector

namespace EmbeddingService

def cacheKey (service : EmbeddingService) (text : String) : String :=
  let digest := Cache.digest [.str service.zhipuEmbeddingModel, .int service.dimensions, .str text]
  s!"embedding:{digest}"

/-- The text that the key is the digest of -/
def keyText (service : EmbeddingService) (text : String) : String :=
  String.ofList (Json.arr [.str service.zhipuEmbeddingModel, .int service.dimensions,
    .str text]).sortKeys.spaced

/-- The vector of a text without the cache. -/
def embed (hash : HashEmbedding) (service : EmbeddingService) (text : String) : Vector :=
  match service.remote with
  | some model => model text
  | none => hash service.dimensions text

end EmbeddingService

inductive EmbedPhase
  /-- The loop over the texts, before the text with this index -/
  | lookup (index : Nat)
  | generate
  /-- The loop that stores, with what is left of `zip(missing_indices, missing_texts, generated)` -/
  | store (rest : List (Nat × String × Vector))
  | returned (vectors : List Json)

/-- A call of `embed_documents`. `None` is `none` in its results. -/
structure EmbedCall where
  service : EmbeddingService
  texts : List String
  results : List (Option Json)
  /-- `missing_indices` and `missing_texts` -/
  missing : List (Nat × String)
  phase : EmbedPhase

def EmbedCall.start (service : EmbeddingService) (texts : List String) : EmbedCall :=
  ⟨service, texts, List.replicate texts.length none, [], .lookup 0⟩

structure EmbedState where
  redis : String → Cache.Redis
  /-- For which text, and by which service, the entry of a key was written last -/
  writers : String → Option (EmbeddingService × String)
  calls : List EmbedCall

def EmbedState.empty : EmbedState := ⟨fun _ => ⟨none, none⟩, fun _ => none, []⟩

inductive EmbedAction
  | embedDocuments (service : EmbeddingService) (texts : List String)
  /-- The next step of a call, and how its command fares -/
  | advance (i : Nat) (d : Cache.Delivery)
  | expireEntry (key : String)

namespace EmbedCall

/-- What a lookup answers is kept; on a miss the text is to be embedded. -/
def look (c : EmbedCall) (index : Nat) (text : String) (cached : Json) : EmbedCall :=
  if cached = .null then
    { c with missing := c.missing ++ [(index, text)], phase := .lookup (index + 1) }
  else { c with results := c.results.set index (some cached), phase := .lookup (index + 1) }

/-- `[vector for vector in results if vector is not None]` -/
def vectors (c : EmbedCall) : List Json := c.results.filterMap id

end EmbedCall

namespace EmbedState

def setCall (s : EmbedState) (i : Nat) (c : EmbedCall) : EmbedState :=
  { s with calls := s.calls.set i c }

/-- `cache.set_json` under the key of the text -/
def put (enabled : Bool) (s : EmbedState) (service : EmbeddingService) (text : String)
    (vector : Vector) (d : Cache.Delivery) : EmbedState :=
  let key := service.cacheKey text
  let stored := (Cache.setJson enabled (.arr vector) d (s.redis key)).2
  { s with
    redis := Function.update s.redis key stored
    writers :=
      -- a lost command writes nothing
      if enabled && d != .lost then Function.update s.writers key (some (service, text))
      else s.writers }

def advance (enabled : Bool) (hash : HashEmbedding) (s : EmbedState) (i : Nat) (d : Cache.Delivery) :
    Option EmbedState :=
  s.calls[i]?.bind fun c =>
    match c.phase with
    | .lookup index =>
        match c.texts[index]? with
        | some text =>
            let key := c.service.cacheKey text
            let cached := (Cache.getJsonLookup enabled d (s.redis key)).1.value
            some (s.setCall i (c.look index text cached))
        | none =>
            if c.missing.isEmpty then some (s.setCall i { c with phase := .returned c.vectors })
            else some (s.setCall i { c with phase := .generate })
    | .generate =>
        let generated := c.missing.map fun p => (p.1, p.2, c.service.embed hash p.2)
        some (s.setCall i { c with phase := .store generated })
    | .store [] => some (s.setCall i { c with phase := .returned c.vectors })
    | .store ((index, text, vector) :: rest) =>
        some ((s.put enabled c.service text vector d).setCall i
          { c with results := c.results.set index (some (.arr vector)), phase := .store rest })
    | .returned _ => none

end EmbedState

def embeddings (enabled : Bool) (hash : HashEmbedding) : Lts EmbedState EmbedAction where
  step s
    | .embedDocuments service texts => some { s with calls := s.calls ++ [.start service texts] }
    | .advance i d => s.advance enabled hash i d
    | .expireEntry key =>
        some { s with redis := Function.update s.redis key { s.redis key with entry := none } }

/-! ## Calls that are under way

A call is fit when its results so far are the vectors its service would compute itself, at the
places of their texts. -/

variable {enabled : Bool} {hash : HashEmbedding}

/-- The result of a call without the cache -/
def EmbedCall.uncached (hash : HashEmbedding) (c : EmbedCall) : List Json :=
  c.texts.map fun text => .arr (c.service.embed hash text)

/-- The results so far are those without the cache, and what is not there yet is `awaited`. -/
structure EmbedCall.Fits (hash : HashEmbedding) (c : EmbedCall)
    (awaited : Nat → String → Prop) : Prop where
  length : c.results.length = c.texts.length
  results : ∀ (i : Nat) (text : String), c.texts[i]? = some text →
    c.results[i]? = some (some (.arr (c.service.embed hash text))) ∨
      (c.results[i]? = some none ∧ awaited i text)

/-- What the phase of a call says about it. -/
def EmbedCall.Ok (hash : HashEmbedding) (c : EmbedCall) : Prop :=
  match c.phase with
  | .lookup index => c.Fits hash fun i text => index ≤ i ∨ (i, text) ∈ c.missing
  | .generate => c.Fits hash fun i text => (i, text) ∈ c.missing
  | .store rest => (∀ p ∈ rest, c.texts[p.1]? = some p.2.1 ∧ p.2.2 = c.service.embed hash p.2.1) ∧
      c.Fits hash fun i text => ∃ vector, (i, text, vector) ∈ rest
  | .returned vectors => vectors = c.uncached hash

/-- The texts that are to be embedded stand where their indices say. -/
def EmbedCall.Misses (c : EmbedCall) : Prop := ∀ p ∈ c.missing, c.texts[p.1]? = some p.2

/-- Nothing is awaited any more, so everything is there. -/
theorem EmbedCall.Fits.vectors {c : EmbedCall} (h : c.Fits hash fun _ _ => False) :
    c.vectors = c.uncached hash := by
  have hall : c.results = (c.uncached hash).map some := by
    apply List.ext_getElem?
    intro i
    unfold EmbedCall.uncached
    rw [List.getElem?_map, List.getElem?_map]
    cases ht : c.texts[i]? with
    | none =>
      rw [List.getElem?_eq_none_iff] at ht
      simp only [Option.map_none, List.getElem?_eq_none_iff]
      rw [h.length]
      exact ht
    | some text =>
      rcases h.results i text ht with hr | ⟨-, hf⟩
      · exact hr
      · exact hf.elim
  unfold EmbedCall.vectors
  rw [hall, List.filterMap_map]
  simp

/-- Results that are awaited less. -/
theorem EmbedCall.Fits.mono {c : EmbedCall} {awaited awaited' : Nat → String → Prop}
    (h : c.Fits hash awaited)
    (himp : ∀ i text, c.texts[i]? = some text → awaited i text → awaited' i text) :
    c.Fits hash awaited' := by
  refine ⟨h.length, ?_⟩
  intro i text ht
  rcases h.results i text ht with hr | ⟨hr, ha⟩
  · exact .inl hr
  · exact .inr ⟨hr, himp i text ht ha⟩

/-- A vector is put where it belongs. -/
theorem EmbedCall.Fits.set {c : EmbedCall} {awaited awaited' : Nat → String → Prop} {index : Nat}
    {text : String} (h : c.Fits hash awaited) (htext : c.texts[index]? = some text)
    (himp : ∀ i t, i ≠ index → awaited i t → awaited' i t) (missing : List (Nat × String))
    (phase : EmbedPhase) :
    EmbedCall.Fits hash { c with
      results := c.results.set index (some (.arr (c.service.embed hash text)))
      missing := missing
      phase := phase } awaited' := by
  refine ⟨by rw [List.length_set]; exact h.length, ?_⟩
  intro i t ht
  replace ht : c.texts[i]? = some t := ht
  by_cases hi : i = index
  · subst hi
    rw [htext] at ht
    cases ht
    refine .inl (List.getElem?_set_self ?_)
    rw [h.length]
    exact (List.getElem?_eq_some_iff.mp htext).1
  · show (c.results.set index _)[i]? = _ ∨ (c.results.set index _)[i]? = _ ∧ _
    rw [List.getElem?_set_ne (Ne.symm hi)]
    rcases h.results i t ht with hr | ⟨hr, ha⟩
    · exact .inl hr
    · exact .inr ⟨hr, himp i t hi ha⟩

theorem ok_start (service : EmbeddingService) (texts : List String) :
    (EmbedCall.start service texts).Ok hash ∧ (EmbedCall.start service texts).Misses := by
  refine ⟨⟨List.length_replicate, ?_⟩, fun p hp => absurd hp (by simp [EmbedCall.start])⟩
  intro i text ht
  refine .inr ⟨?_, .inl (Nat.zero_le i)⟩
  exact List.getElem?_replicate_of_lt (List.getElem?_eq_some_iff.mp ht).1

/-- **A lookup**: a hit is the vector the service would compute itself, or it is a miss. -/
theorem EmbedCall.Ok.look {c : EmbedCall} {index : Nat} {text : String} {cached : Json}
    (h : c.Ok hash) (hm : c.Misses) (hp : c.phase = .lookup index)
    (htext : c.texts[index]? = some text)
    (hcached : cached = .null ∨ cached = .arr (c.service.embed hash text)) :
    (c.look index text cached).Ok hash ∧ (c.look index text cached).Misses := by
  unfold EmbedCall.Ok at h
  rw [hp] at h
  unfold EmbedCall.look
  by_cases hnull : cached = .null
  · rw [if_pos hnull]
    refine ⟨?_, ?_⟩
    · refine EmbedCall.Fits.mono (c := { c with missing := _, phase := _ }) ⟨h.length, h.results⟩ ?_
      intro i t ht ha
      rcases ha with hle | hmem
      · rcases Nat.eq_or_lt_of_le hle with rfl | hlt
        · replace ht : c.texts[index]? = some t := ht
          rw [htext] at ht
          cases ht
          exact .inr (List.mem_append_right _ List.mem_cons_self)
        · exact .inl hlt
      · exact .inr (List.mem_append_left _ hmem)
    · intro p hp
      rcases List.mem_append.mp hp with hp | hp
      · exact hm p hp
      · rw [List.mem_singleton.mp hp]
        exact htext
  · rw [if_neg hnull]
    rw [hcached.resolve_left hnull]
    refine ⟨?_, hm⟩
    apply EmbedCall.Fits.set h htext
    intro i t hi ha
    rcases ha with hle | hmem
    · exact .inl (Nat.lt_of_le_of_ne hle (Ne.symm hi))
    · exact .inr hmem

/-- The lookups are over, and some texts have been missed. -/
theorem EmbedCall.Ok.generate {c : EmbedCall} {index : Nat} (h : c.Ok hash)
    (hp : c.phase = .lookup index) (hend : c.texts[index]? = none) :
    c.Fits hash fun i text => (i, text) ∈ c.missing := by
  unfold EmbedCall.Ok at h
  rw [hp] at h
  apply h.mono
  intro i text ht ha
  rcases ha with hle | hmem
  · have hlt := (List.getElem?_eq_some_iff.mp ht).1
    rw [List.getElem?_eq_none_iff] at hend
    exact absurd (Nat.lt_of_lt_of_le hlt hend) (Nat.not_lt.mpr hle)
  · exact hmem

/-! ## The cache

An entry is fit when it is the vector of the service that wrote it for the text it wrote it for. -/

theorem cacheKey_eq (service : EmbeddingService) (text : String) :
    service.cacheKey text = "embedding:" ++ Sha2.hexdigest (service.keyText text) := rfl

/-- **What the key determines**: services with one key text for two texts have the model's name and
    the dimensions in common, and the texts are one. -/
theorem keyText_inj {service service' : EmbeddingService} {text text' : String}
    (h : service.keyText text = service'.keyText text') :
    service.zhipuEmbeddingModel = service'.zhipuEmbeddingModel ∧
      service.dimensions = service'.dimensions ∧ text = text' := by
  have hparts := Json.spaced_injective (String.ofList_injective h)
  simp only [Json.sortKeys, Json.sortKeysList_eq_map, Json.arr.injEq, List.map_cons, List.map_nil,
    List.cons.injEq, Json.str.injEq, Json.int.injEq, Int.natCast_inj, and_true] at hparts
  exact hparts

/-- SHA-256 tells the two texts apart. -/
def NoCollision (text text' : String) : Prop :=
  Sha2.hexdigest text = Sha2.hexdigest text' → text = text'

theorem keyText_of_cacheKey {service service' : EmbeddingService} {text text' : String}
    (h : service.cacheKey text = service'.cacheKey text')
    (hcollision : NoCollision (service.keyText text) (service'.keyText text')) :
    service.keyText text = service'.keyText text' := by
  rw [cacheKey_eq, cacheKey_eq] at h
  exact hcollision ((String.append_right_inj _).mp h)

/-- An entry is the vector that the service which wrote it computed, under the key of its text. -/
def EmbedState.Written (hash : HashEmbedding) (s : EmbedState) : Prop :=
  ∀ key, (s.redis key).entry = none ∨ ∃ service text, s.writers key = some (service, text) ∧
    service.cacheKey text = key ∧
    (s.redis key).entry = some (.json (.arr (service.embed hash text)))

structure EmbedState.Consistent (hash : HashEmbedding) (s : EmbedState) : Prop where
  written : s.Written hash
  calls : ∀ c ∈ s.calls, c.Ok hash ∧ c.Misses

/-- An entry that a call finds was written by a service with the same remote model, or without one
    like the caller's, and its digest is not that of another text. -/
def ReadsOwn (s : EmbedState) (a : EmbedAction) : Prop :=
  ∀ i d c index text, a = .advance i d → s.calls[i]? = some c → c.phase = .lookup index →
    c.texts[index]? = some text → (s.redis (c.service.cacheKey text)).entry.isSome = true →
    ∀ writer text', s.writers (c.service.cacheKey text) = some (writer, text') →
      writer.remote = c.service.remote ∧
        NoCollision (writer.keyText text') (c.service.keyText text)

theorem embed_congr {service service' : EmbeddingService} (hr : service.remote = service'.remote)
    (hd : service.dimensions = service'.dimensions) :
    service.embed hash = service'.embed hash := by
  funext text
  unfold EmbeddingService.embed
  rw [hr, hd]

theorem EmbedState.Written.put {s : EmbedState} (h : s.Written hash) (service : EmbeddingService)
    (text : String) (d : Cache.Delivery) :
    (s.put enabled service text (service.embed hash text) d).Written hash := by
  intro key
  show (Function.update s.redis _ _ key).entry = none ∨ ∃ service' text',
    (if enabled && d != .lost then Function.update s.writers _ (some (service, text))
      else s.writers) key = _ ∧ _ ∧ (Function.update s.redis _ _ key).entry = _
  by_cases hk : key = service.cacheKey text
  · subst hk
    rw [Function.update_self]
    cases enabled with
    | false => exact h _
    | true =>
      cases d with
      | answered => exact .inr ⟨service, text, Function.update_self _ _ _, rfl, rfl⟩
      | lost => exact h _
      | unanswered => exact .inr ⟨service, text, Function.update_self _ _ _, rfl, rfl⟩
  · rw [Function.update_of_ne hk]
    split
    · rw [Function.update_of_ne hk]
      exact h key
    · exact h key

theorem EmbedState.Written.expire {s : EmbedState} (h : s.Written hash) (key : String) :
    EmbedState.Written hash
      { s with redis := Function.update s.redis key { s.redis key with entry := none } } := by
  intro k
  show (Function.update s.redis _ _ k).entry = none ∨ ∃ service text, s.writers k = _ ∧ _ ∧
    (Function.update s.redis _ _ k).entry = _
  by_cases hk : k = key
  · subst hk
    rw [Function.update_self]
    exact .inl rfl
  · rw [Function.update_of_ne hk]
    exact h k

/-- What a lookup answers when the entry is the caller's own. -/
theorem lookup_own {s : EmbedState} {service : EmbeddingService} {text : String}
    (h : s.Written hash) (d : Cache.Delivery)
    (hown : (s.redis (service.cacheKey text)).entry.isSome = true →
      ∀ writer text', s.writers (service.cacheKey text) = some (writer, text') →
        writer.remote = service.remote ∧ NoCollision (writer.keyText text') (service.keyText text)) :
    (Cache.getJsonLookup enabled d (s.redis (service.cacheKey text))).1.value = .null ∨
      (Cache.getJsonLookup enabled d (s.redis (service.cacheKey text))).1.value =
        .arr (service.embed hash text) := by
  cases enabled with
  | false => exact .inl rfl
  | true =>
    cases d with
    | lost => exact .inl rfl
    | unanswered => exact .inl rfl
    | answered =>
      show (Cache.lookupOf (s.redis (service.cacheKey text)).entry).value = _ ∨
        (Cache.lookupOf (s.redis (service.cacheKey text)).entry).value = _
      rcases h (service.cacheKey text) with hnone | ⟨writer, text', hw, hkey, hentry⟩
      · rw [hnone]
        exact .inl rfl
      · obtain ⟨hremote, hcollision⟩ := hown (by rw [hentry]; rfl) writer text' hw
        obtain ⟨-, hdim, rfl⟩ := keyText_inj (keyText_of_cacheKey hkey hcollision)
        rw [hentry, embed_congr hremote hdim]
        exact .inr rfl

/-! ## Every run -/

theorem EmbedState.Consistent.setCall {s : EmbedState} (h : s.Consistent hash) {i : Nat}
    {c : EmbedCall} (hc : c.Ok hash ∧ c.Misses) : (s.setCall i c).Consistent hash := by
  refine ⟨h.written, ?_⟩
  intro c' hc'
  rcases List.mem_or_eq_of_mem_set hc' with hc' | rfl
  · exact h.calls c' hc'
  · exact hc

theorem EmbedState.Consistent.advance {s s' : EmbedState} {i : Nat} {d : Cache.Delivery}
    (h : s.Consistent hash) (hok : ReadsOwn s (.advance i d))
    (hs : s.advance enabled hash i d = some s') : s'.Consistent hash := by
  obtain ⟨c, hi, hs⟩ := Option.bind_eq_some_iff.mp hs
  obtain ⟨hc, hm⟩ := h.calls c (List.mem_of_getElem? hi)
  cases hp : c.phase with
  | lookup index =>
    rw [hp] at hs
    simp only at hs
    cases ht : c.texts[index]? with
    | some text =>
      rw [ht] at hs
      cases hs
      -- a hit is the vector of a service with the same remote model, or it is a miss
      exact h.setCall (hc.look hm hp ht
        (lookup_own h.written d (hok i d c index text rfl hi hp ht)))
    | none =>
      rw [ht] at hs
      -- the lookups are over
      have hfits := hc.generate hp ht
      simp only at hs
      split at hs
      · rename_i hempty
        cases hs
        refine h.setCall ⟨?_, hm⟩
        apply EmbedCall.Fits.vectors
        apply hfits.mono
        intro i text _ hmem
        rw [List.isEmpty_iff.mp hempty] at hmem
        exact absurd hmem (by simp)
      · cases hs
        exact h.setCall ⟨⟨hfits.length, hfits.results⟩, hm⟩
  | generate =>
    rw [hp] at hs
    cases hs
    unfold EmbedCall.Ok at hc
    rw [hp] at hc
    refine h.setCall ⟨⟨?_, ?_⟩, hm⟩
    · intro p hmem
      obtain ⟨q, hq, rfl⟩ := List.mem_map.mp hmem
      exact ⟨hm q hq, rfl⟩
    · refine EmbedCall.Fits.mono (c := { c with phase := _ }) ⟨hc.length, hc.results⟩ ?_
      intro i text _ hmem
      exact ⟨_, List.mem_map_of_mem hmem⟩
  | store rest =>
    rw [hp] at hs
    unfold EmbedCall.Ok at hc
    rw [hp] at hc
    obtain ⟨hrest, hfits⟩ := hc
    cases rest with
    | nil =>
      cases hs
      refine h.setCall ⟨?_, hm⟩
      apply EmbedCall.Fits.vectors
      apply hfits.mono
      intro i text _ hmem
      obtain ⟨vector, hmem⟩ := hmem
      exact absurd hmem (by simp)
    -- one vector is stored, and the entry is written by this service for this text
    | cons p rest =>
      obtain ⟨index, text, vector⟩ := p
      cases hs
      obtain ⟨htext, hvector⟩ := hrest _ List.mem_cons_self
      replace hvector : vector = c.service.embed hash text := hvector
      subst hvector
      refine EmbedState.Consistent.setCall ⟨h.written.put c.service text d, h.calls⟩ ⟨⟨?_, ?_⟩, hm⟩
      · exact fun q hq => hrest q (List.mem_cons_of_mem _ hq)
      · apply EmbedCall.Fits.set hfits htext
        intro i t hne hmem
        obtain ⟨vector, hmem⟩ := hmem
        rcases List.mem_cons.mp hmem with he | hmem
        · cases he
          exact absurd rfl hne
        · exact ⟨vector, hmem⟩
  | returned vectors =>
    rw [hp] at hs
    cases hs

theorem EmbedState.Consistent.step {s s' : EmbedState} {a : EmbedAction} (h : s.Consistent hash)
    (hok : ReadsOwn s a) (hs : (embeddings enabled hash).step s a = some s') :
    s'.Consistent hash := by
  cases a with
  | embedDocuments service texts =>
    cases hs
    refine ⟨h.written, ?_⟩
    intro c hc
    rcases List.mem_append.mp hc with hc | hc
    · exact h.calls c hc
    · rw [List.mem_singleton.mp hc]
      exact ok_start service texts
  | advance i d => exact h.advance hok hs
  | expireEntry key =>
    cases hs
    exact ⟨h.written.expire key, h.calls⟩

/-- **Cached embeddings are those of the uncached path** while every entry that is read was written
    by a service with the caller's remote model, or without one like it: one vector for each text,
    in the order of the texts. -/
theorem cached_embeddings_own (enabled : Bool) (hash : HashEmbedding) (s : EmbedState)
    (h : (embeddings enabled hash).Reach ReadsOwn .empty s) :
    ∀ c ∈ s.calls, ∀ vectors, c.phase = .returned vectors →
      vectors = c.texts.map fun text => .arr (c.service.embed hash text) := by
  have hinv : s.Consistent hash := by
    apply h.invariant ⟨fun _ => .inl rfl, fun c hc => absurd hc (by simp [EmbedState.empty])⟩
    intro s a s' hi hok hs
    exact hi.step hok hs
  intro c hc vectors hp
  have hok := (hinv.calls c hc).1
  unfold EmbedCall.Ok at hok
  rw [hp] at hok
  exact hok

/-! ## An API key that is added -/

/-- The vector of every text -/
def flatHash : HashEmbedding := fun _ _ => [.int 0]

def offline : EmbeddingService := ⟨"embedding-3", 1, none⟩

/-- The same settings with an API key -/
def online : EmbeddingService := ⟨"embedding-3", 1, some fun _ => [.int 1]⟩

/-- A text that was embedded without the remote model is read back with it. -/
theorem cached_embeddings_foreign :
    ¬ ∀ s, (embeddings true flatHash).Reach Lts.Anything .empty s →
      ∀ c ∈ s.calls, ∀ vectors, c.phase = .returned vectors →
        vectors = c.texts.map fun text => .arr (c.service.embed flatHash text) := by
  intro h
  obtain ⟨s, hs, hp⟩ := Lts.exists_of_run (embeddings true flatHash) .empty
    [.embedDocuments offline ["x"], .advance 0 .answered, .advance 0 .answered,
      .advance 0 .answered, .advance 0 .answered, .advance 0 .answered,
      .embedDocuments online ["x"], .advance 1 .answered, .advance 1 .answered]
    (P := fun s => s.calls.any fun c => match c.phase with
      | .returned vectors => decide (vectors ≠ c.texts.map fun text =>
          .arr (c.service.embed flatHash text))
      | _ => false) (by decide +kernel)
  obtain ⟨c, hc, hx⟩ := List.any_eq_true.mp hp
  cases hphase : c.phase with
  | returned vectors =>
    rw [hphase] at hx
    exact of_decide_eq_true hx (h s hs c hc vectors hphase)
  | lookup index =>
    rw [hphase] at hx
    cases hx
  | generate =>
    rw [hphase] at hx
    cases hx
  | store rest =>
    rw [hphase] at hx
    cases hx

/-- `ReadsOwn` for services without a remote model, as a check -/
def readsOffline (s : EmbedState) : EmbedAction → Bool
  | .advance i _ =>
      match s.calls[i]? with
      | some c =>
          match c.phase with
          | .lookup index =>
              (c.texts[index]?).all fun text =>
                (s.redis (c.service.cacheKey text)).entry.isNone ||
                  (s.writers (c.service.cacheKey text)).any fun writer =>
                    writer.1.remote.isNone && c.service.remote.isNone &&
                      writer.1.keyText writer.2 == c.service.keyText text
          | _ => true
      | none => true
  | _ => true

theorem readsOwn_of_check {s : EmbedState} {a : EmbedAction} (h : readsOffline s a = true) :
    ReadsOwn s a := by
  intro i d c index text ha hi hp ht hsome writer text' hw
  subst ha
  simp only [readsOffline, hi, hp, ht, Option.all_some, Bool.or_eq_true] at h
  rcases h with hnone | hany
  · rw [Option.isNone_iff_eq_none] at hnone
    rw [hnone] at hsome
    cases hsome
  · rw [hw, Option.any_some] at hany
    simp only [Bool.and_eq_true, beq_iff_eq, Option.isNone_iff_eq_none] at hany
    obtain ⟨⟨hremote, hown⟩, htext⟩ := hany
    exact ⟨hremote.trans hown.symm, fun _ => htext⟩

/-- A text is embedded, stored, and found again beside a new one. -/
theorem cached_embeddings_own_twice : ∃ s, (embeddings true flatHash).Reach ReadsOwn .empty s ∧
    ∃ c ∈ s.calls, c.texts = ["x", "y"] ∧ c.phase = .returned [.arr [.int 0], .arr [.int 0]] ∧
      [.arr [.int 0], .arr [.int 0]] =
        c.texts.map fun text => Json.arr (c.service.embed flatHash text) := by
  have hrun : ((embeddings true flatHash).runChecked readsOffline
      [.embedDocuments offline ["x"], .advance 0 .answered, .advance 0 .answered,
        .advance 0 .answered, .advance 0 .answered, .advance 0 .answered,
        .embedDocuments offline ["x", "y"], .advance 1 .answered, .advance 1 .answered,
        .advance 1 .answered, .advance 1 .answered, .advance 1 .answered, .advance 1 .answered]
      .empty).any
      (fun s => s.calls.any fun c => decide (c.texts = ["x", "y"]) && (match c.phase with
        | .returned vectors => decide (vectors = [.arr [.int 0], .arr [.int 0]])
        | _ => false)) = true := by decide +kernel
  obtain ⟨s, hs, hp⟩ := (Option.any_eq_true ..).mp hrun
  have hreach : (embeddings true flatHash).Reach ReadsOwn .empty s :=
    Lts.Reach.start.of_runChecked (fun _ _ => readsOwn_of_check) hs
  obtain ⟨c, hc, hx⟩ := List.any_eq_true.mp hp
  rw [Bool.and_eq_true] at hx
  obtain ⟨htexts, hx⟩ := hx
  split at hx
  · rename_i vectors hphase
    rw [of_decide_eq_true hx] at hphase
    exact ⟨s, hreach, c, hc, of_decide_eq_true htexts, hphase,
      cached_embeddings_own true flatHash s hreach c hc _ hphase⟩
  · cases hx

end Rag

end HyChat
