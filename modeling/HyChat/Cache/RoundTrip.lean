import HyChat.Cache.Service
import HyChat.Lib.JsonRead

/-!
# What is stored comes back

Under the entries of the cache lie texts: `set_json` prints its value, and `get_json_lookup` reads
the text and takes an object for a negative entry that has the marker. A negative entry comes back
as it was stored; **a positive one does so exactly when its value does not imitate a negative
entry** (`cache_round_trip_iff`), and so does what a second `get_or_set_json` returns.

The commands on texts refine those on values, and so does a call of `get_or_set_json` that nobody
interferes with.

Where the texts come in. The steps of the callers are modelled on values, because what matters
there is which value is found; here it matters whether the text that is stored reads back as the
same value, so a second model has texts, and the two are tied together by `getOrSetJson_refines`.
The reader and the printer of JSON are the library's, and what is asked of floats is that printing
one can be read back.

"Exactly" has two halves. A value that is not an object with the marker comes back. One that has
the marker, and besides it at most a `value`, is taken for a negative entry whoever stored it, and
what comes back is its `value` or null. A negative entry that the facade stores itself is such an
object, which is how it is meant to be read.
-/

set_option autoImplicit false

namespace HyChat

open Lib

namespace Cache

/-- What Redis holds under the key and under the lock's -/
structure TextRedis where
  entry : Option String
  lock : Option String

variable (float : Json.ReadFloat)

/-- The text that is there, as JSON if it is -/
def readEntry (text : String) : Entry :=
  match Json.loads float text with
  | some value => .json value
  | none => .garbage

namespace TextRedis

/-- The entry as a value -/
def read (r : TextRedis) : Redis := ⟨r.entry.map (readEntry float), r.lock⟩

def getJsonLookup (r : TextRedis) : Lookup :=
  match r.entry with
  | none => .miss
  | some text =>
      match Json.loads float text with
      | some parsed => (unwrapNegative parsed).getD (.found parsed false)
      | none => .miss

def setJson (value : Json) (r : TextRedis) : TextRedis :=
  { r with entry := some (String.ofList value.spaced) }

def setNegativeJson (value : Json) (r : TextRedis) : TextRedis := r.setJson (negativePayload value)

def acquireLock (token : String) (r : TextRedis) : Bool × TextRedis :=
  if r.lock = none then (true, { r with lock := some token }) else (false, r)

def releaseLock (acquired : Bool) (token : String) (r : TextRedis) : TextRedis :=
  if acquired ∧ r.lock = some token then { r with lock := none } else r

/-- The end of `get_or_set_json`, from the producer on -/
def produce (call : Call) (r : TextRedis) : Except String Json → Outcome × TextRedis
  | .error e => (.raised e, r)
  | .ok value =>
      let isNegative := call.shouldCacheNegative value
      let returned := Outcome.returned ⟨true, value, isNegative, true, false⟩
      if isNegative then (returned, r.setNegativeJson value)
      else if value ≠ .null ∧ call.shouldCache value then (returned, r.setJson value)
      else (returned, r)

/-- `get_or_set_json` of a caller that nobody interferes with. When the lock is taken it waits, and
    what it finds in the end is what was there before. -/
def getOrSetJson (call : Call) (producer : Except String Json) (r : TextRedis) :
    Outcome × TextRedis :=
  let lookup := r.getJsonLookup float
  if lookup.hit then (.returned lookup, r)
  else
    let (acquired, r) := r.acquireLock call.token
    let lookup := r.getJsonLookup float
    let (outcome, r) := if lookup.hit then (.returned lookup, r) else r.produce call producer
    (outcome, r.releaseLock acquired call.token)

end TextRedis

/-! ## The entries on values -/

section Refinement

variable {float} {r : TextRedis} {value : Json}

theorem getJsonLookup_read :
    Cache.getJsonLookup true .answered (r.read float) = (r.getJsonLookup float, r.read float) := by
  unfold TextRedis.getJsonLookup
  cases hentry : r.entry with
  | none => simp [Cache.getJsonLookup, Redis.command, TextRedis.read, hentry, lookupOf]
  | some text =>
    cases hloads : Json.loads float text <;>
      simp [Cache.getJsonLookup, Redis.command, TextRedis.read, hentry, lookupOf, readEntry, hloads]

theorem setJson_read (h : Json.Readable float value) :
    (r.setJson value).read float = (Cache.setJson true value .answered (r.read float)).2 := by
  simp [TextRedis.setJson, TextRedis.read, Cache.setJson, Redis.command, readEntry,
    Json.loads_spaced h]

theorem readable_negativePayload (h : Json.Readable float value) :
    Json.Readable float (negativePayload value) := by
  simp [negativePayload, Json.Readable, Json.ReadableFields, h, negativeCacheMarker]

theorem setNegativeJson_read (h : Json.Readable float value) :
    (r.setNegativeJson value).read float =
      (Cache.setNegativeJson true value .answered (r.read float)).2 :=
  setJson_read (readable_negativePayload h)

/-- What a caller meets that nobody interferes with: its commands are answered, and the deadline
    passes while it waits. -/
def undisturbed (producer : Except String Json) : Phase → Choice
  | .wait => .clock true
  | .produce => .producer producer
  | _ => .command .answered

/-- The steps of one caller, one after the other -/
def runAlone (call : Call) (producer : Except String Json) : Nat → Caller → Redis → Caller × Redis
  | 0, c, r => (c, r)
  | steps + 1, c, r =>
      match c.advance true call r (undisturbed producer c.phase) with
      | some (c, r) => runAlone call producer steps c r
      | none => (c, r)

theorem acquireLock_read (token : String) :
    Cache.acquireLock true token .answered (r.read float) =
      (if (r.acquireLock token).1 then some token else none,
        (r.acquireLock token).2.read float) := by
  cases hlock : r.lock <;>
    simp [Cache.acquireLock, Redis.command, TextRedis.read, TextRedis.acquireLock, hlock]

theorem releaseLock_read (acquired : Bool) (token : String) :
    (Cache.releaseLock true (if acquired then some token else none) .answered (r.read float)).2 =
      (r.releaseLock acquired token).read float := by
  cases acquired with
  | false => simp [Cache.releaseLock, TextRedis.releaseLock]
  | true =>
    by_cases hlock : r.lock = some token <;>
      simp [Cache.releaseLock, Redis.command, compareAndDelete, TextRedis.read,
        TextRedis.releaseLock, hlock]

/-- From the producer on -/
theorem runAlone_produce (call : Call) {producer : Except String Json}
    (h : ∀ value, producer = .ok value → Json.Readable float value) (acquired : Bool) (c : Caller)
    (hphase : c.phase = .produce) (hlock : c.lock = if acquired then some call.token else none) :
    let result := r.produce call producer
    let run := runAlone call producer 4 c (r.read float)
    run.1.phase = .done result.1 ∧
      run.2 = (result.2.releaseLock acquired call.token).read float := by
  cases producer with
  | error e =>
    simp [runAlone, undisturbed, Caller.advance, hphase, hlock, TextRedis.produce,
      releaseLock_read]
  | ok value =>
    have hvalue := h value rfl
    by_cases hnegative : call.shouldCacheNegative value = true
    · simp [runAlone, undisturbed, Caller.advance, hphase, hlock, TextRedis.produce, Caller.store,
        hnegative, ← setNegativeJson_read hvalue, releaseLock_read]
    · by_cases hstore : value ≠ .null ∧ call.shouldCache value = true
      · simp [runAlone, undisturbed, Caller.advance, hphase, hlock, TextRedis.produce, Caller.store,
          hnegative, hstore, ← setJson_read hvalue, releaseLock_read]
      · simp [runAlone, undisturbed, Caller.advance, hphase, hlock, TextRedis.produce, Caller.store,
          hnegative, hstore, releaseLock_read]

theorem getJsonLookup_acquireLock (token : String) :
    (r.acquireLock token).2.getJsonLookup float = r.getJsonLookup float := by
  unfold TextRedis.acquireLock
  split <;> rfl

/-- The call on texts does what the caller's steps do on values. -/
theorem getOrSetJson_refines (call : Call) {producer : Except String Json}
    (h : ∀ value, producer = .ok value → Json.Readable float value) (r : TextRedis) :
    let result := r.getOrSetJson float call producer
    let run := runAlone call producer 7 .start (r.read float)
    run.1.phase = .done result.1 ∧ run.2 = result.2.read float := by
  by_cases hhit : (r.getJsonLookup float).hit = true
  · simp [TextRedis.getOrSetJson, hhit, runAlone, undisturbed, Caller.advance, Caller.start,
      Caller.look, getJsonLookup_read]
  · -- the entry is what it was when the lock is taken, or has been waited for
    have hagain : (r.acquireLock call.token).2.getJsonLookup float = r.getJsonLookup float :=
      getJsonLookup_acquireLock call.token
    have hlock : Cache.acquireLock true call.token .answered (r.read float) = _ :=
      acquireLock_read call.token
    cases hr : r.acquireLock call.token with
    | mk acquired r' =>
      rw [hr] at hagain hlock
      cases acquired with
      | true =>
        have hproduce := runAlone_produce (r := r') call h true
          ⟨.produce, some call.token, [r.getJsonLookup float, r.getJsonLookup float], [], [], 0⟩
          rfl rfl
        simp [TextRedis.getOrSetJson, hhit, hr, hagain, runAlone, undisturbed, Caller.advance,
          Caller.start, Caller.look, getJsonLookup_read, hlock] at hproduce ⊢
        exact hproduce
      | false =>
        have hproduce := runAlone_produce (r := r') call h false
          ⟨.produce, none, [r.getJsonLookup float], [], [], 0⟩ rfl rfl
        simp [TextRedis.getOrSetJson, hhit, hr, hagain, runAlone, undisturbed, Caller.advance,
          Caller.start, Caller.look, getJsonLookup_read, hlock] at hproduce ⊢
        exact hproduce

end Refinement

/-! ## What comes back -/

/-- The value is taken for a negative entry: an object that has the marker, and besides it at most
    a `value`. -/
def ImitatesNegative (value : Json) : Prop :=
  ∃ kvs, value = .obj kvs ∧ kvs.lookup negativeCacheMarker = some (.bool true) ∧
    ∀ kv ∈ kvs, kv.1 = negativeCacheMarker ∨ kv.1 = "value"

/-- The call stores what its producer has answered. -/
def Call.Stores (call : Call) (value : Json) : Prop :=
  call.shouldCacheNegative value = true ∨ (value ≠ .null ∧ call.shouldCache value = true)

variable {float} {value : Json} {r : TextRedis}

theorem unwrapNegative_of_imitates (h : ImitatesNegative value) :
    ∃ inner, unwrapNegative value = some (.found inner true) := by
  obtain ⟨kvs, rfl, hmarker, hkeys⟩ := h
  exact ⟨(kvs.lookup "value").getD .null, if_pos ⟨hmarker, by simpa using hkeys⟩⟩

theorem unwrapNegative_of_not_imitates (h : ¬ ImitatesNegative value) :
    unwrapNegative value = none := by
  cases value with
  | obj kvs =>
    refine if_neg fun hc => h ⟨kvs, rfl, hc.1, ?_⟩
    simpa using hc.2
  | _ => rfl

/-- What a lookup finds after a store -/
theorem getJsonLookup_setJson (h : Json.Readable float value) :
    (r.setJson value).getJsonLookup float =
      (unwrapNegative value).getD (.found value false) := by
  simp [TextRedis.setJson, TextRedis.getJsonLookup, Json.loads_spaced h]

theorem getJsonLookup_setNegativeJson (h : Json.Readable float value) :
    (r.setNegativeJson value).getJsonLookup float = .found value true := by
  rw [TextRedis.setNegativeJson, getJsonLookup_setJson (readable_negativePayload h)]
  rfl

theorem getJsonLookup_setJson_iff (h : Json.Readable float value) :
    (r.setJson value).getJsonLookup float = .found value false ↔ ¬ ImitatesNegative value := by
  rw [getJsonLookup_setJson h]
  constructor
  · intro hfound himitates
    obtain ⟨inner, hinner⟩ := unwrapNegative_of_imitates himitates
    rw [hinner] at hfound
    cases hfound
  · intro hnot
    rw [unwrapNegative_of_not_imitates hnot]
    rfl

/-- Whatever is stored is found, one way or the other. -/
theorem hit_setJson (h : Json.Readable float value) :
    ((r.setJson value).getJsonLookup float).hit = true := by
  rw [getJsonLookup_setJson h]
  by_cases himitates : ImitatesNegative value
  · obtain ⟨inner, hinner⟩ := unwrapNegative_of_imitates himitates
    rw [hinner]
    rfl
  · rw [unwrapNegative_of_not_imitates himitates]
    rfl

theorem releaseLock_entry (acquired : Bool) (token : String) :
    (r.releaseLock acquired token).entry = r.entry := by
  unfold TextRedis.releaseLock
  split <;> rfl

/-- A call that misses and stores returns its value, and leaves it in the cache. -/
theorem getOrSetJson_of_stores {call : Call} (hmiss : (r.getJsonLookup float).hit = false)
    (hstores : call.Stores value) :
    (r.getOrSetJson float call (.ok value)).1 =
        .returned ⟨true, value, call.shouldCacheNegative value, true, false⟩ ∧
      (r.getOrSetJson float call (.ok value)).2.entry =
        if call.shouldCacheNegative value then (r.setNegativeJson value).entry
        else (r.setJson value).entry := by
  have hagain : ((r.acquireLock call.token).2.getJsonLookup float).hit = false := by
    rw [getJsonLookup_acquireLock, hmiss]
  by_cases hnegative : call.shouldCacheNegative value = true
  · simp [TextRedis.getOrSetJson, hmiss, hagain, TextRedis.produce, hnegative, releaseLock_entry,
      TextRedis.setNegativeJson, TextRedis.setJson]
  · have hstore : value ≠ .null ∧ call.shouldCache value = true := hstores.resolve_left hnegative
    simp [TextRedis.getOrSetJson, hmiss, hagain, TextRedis.produce, hnegative, hstore,
      releaseLock_entry, TextRedis.setJson]

/-- A hit is returned without running the producer. -/
theorem getOrSetJson_of_hit (call : Call) (producer : Except String Json)
    (h : (r.getJsonLookup float).hit = true) :
    (r.getOrSetJson float call producer).1 = .returned (r.getJsonLookup float) := by
  simp [TextRedis.getOrSetJson, h]

/-- A lookup depends on the entry only. -/
theorem getJsonLookup_congr {r' : TextRedis} (h : r.entry = r'.entry) :
    r.getJsonLookup float = r'.getJsonLookup float := by
  unfold TextRedis.getJsonLookup
  rw [h]

/-- **What is stored comes back.** A negative entry always does, a positive one exactly when its
    value does not imitate a negative entry; and so does what the second of two calls of
    `get_or_set_json` returns when the first has stored its producer's value. -/
theorem cache_round_trip_iff (float : Json.ReadFloat) (value : Json)
    (h : Json.Readable float value) (r : TextRedis) :
    ((r.setJson value).getJsonLookup float = .found value false ↔ ¬ ImitatesNegative value) ∧
    (r.setNegativeJson value).getJsonLookup float = .found value true ∧
    ∀ (call next : Call) (producer : Except String Json),
      (r.getJsonLookup float).hit = false → call.Stores value →
        ∃ lookup lookup', (r.getOrSetJson float call (.ok value)).1 = .returned lookup ∧
          ((r.getOrSetJson float call (.ok value)).2.getOrSetJson float next producer).1 =
            .returned lookup' ∧
          lookup.value = value ∧ lookup.isNegative = call.shouldCacheNegative value ∧
          (lookup'.value = lookup.value ∧ lookup'.isNegative = lookup.isNegative ↔
            call.shouldCacheNegative value = true ∨ ¬ ImitatesNegative value) := by
  refine ⟨getJsonLookup_setJson_iff h, getJsonLookup_setNegativeJson h, ?_⟩
  intro call next producer hmiss hstores
  obtain ⟨hfirst, hentry⟩ := getOrSetJson_of_stores hmiss hstores
  by_cases hnegative : call.shouldCacheNegative value = true
  · rw [if_pos hnegative] at hentry
    have hlookup := (getJsonLookup_congr hentry).trans (getJsonLookup_setNegativeJson h)
    have hsecond := getOrSetJson_of_hit next producer (by rw [hlookup]; rfl)
    rw [hlookup] at hsecond
    exact ⟨_, _, hfirst, hsecond, rfl, rfl, by simp [Lookup.found, hnegative]⟩
  · rw [if_neg hnegative] at hentry
    have hlookup : TextRedis.getJsonLookup float _ = _ := getJsonLookup_congr hentry
    have hsecond := getOrSetJson_of_hit next producer (by rw [hlookup]; exact hit_setJson h)
    rw [hlookup] at hsecond
    refine ⟨_, _, hfirst, hsecond, rfl, rfl, ?_⟩
    rw [getJsonLookup_setJson h]
    by_cases himitates : ImitatesNegative value
    · obtain ⟨inner, hinner⟩ := unwrapNegative_of_imitates himitates
      simp [hinner, Lookup.found, hnegative, himitates]
    · simp [unwrapNegative_of_not_imitates himitates, Lookup.found, hnegative, himitates]

/-! ## The marker in a value -/

/-- A reader that takes every float for zero -/
def zeroFloat : Json.ReadFloat := fun _ => ⟨"0.0", by decide, by decide⟩

/-- An object that a producer answers is taken for a negative entry. -/
theorem imitated_negative_entry :
    ¬ ∀ (float : Json.ReadFloat) (value : Json) (r : TextRedis), Json.Readable float value →
      (r.setJson value).getJsonLookup float = .found value false := by
  intro h
  have hreadable : Json.Readable zeroFloat (.obj [(negativeCacheMarker, .bool true)]) := by
    simp [Json.Readable, Json.ReadableFields]
  have hmarker : ImitatesNegative (.obj [(negativeCacheMarker, .bool true)]) :=
    ⟨_, rfl, rfl, by simp⟩
  exact (getJsonLookup_setJson_iff hreadable).mp
    (h zeroFloat _ ⟨none, none⟩ hreadable) hmarker

/-- A dictionary with a float comes back from the cache. -/
theorem cache_round_trip_zero :
    (TextRedis.setJson (.obj [("score", .float (zeroFloat []))]) ⟨none, none⟩).getJsonLookup
      zeroFloat = .found (.obj [("score", .float (zeroFloat []))]) false := by
  refine (cache_round_trip_iff zeroFloat _ ?_ ⟨none, none⟩).1.mpr ?_
  · refine ⟨by simp, ?_, trivial⟩
    show Json.readNumber zeroFloat _ = _
    decide
  · rintro ⟨kvs, hkvs, hmarker, -⟩
    cases hkvs
    exact absurd hmarker (by decide)

end Cache

end HyChat
