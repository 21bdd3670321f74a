import HyChat.Cache.Digest
import HyChat.Lib.Lts
import Mathlib.Logic.Function.Basic

/-!
# The cache facade

`CacheService` over one key: the entry, the lock that goes with it, and any number of callers of
`get_or_set_json` in between. Every command a caller sends may be lost, or be carried out and not be
answered; the client raises a `RedisError` in both cases. A caller proceeds one command, one look at
the clock or one run of its producer at a time.

What a key holds is the text `json.dumps` printed, which `json.loads` reads back, or a text that is
no JSON. The lock lives under a key of its own, which no entry has.
-/

set_option autoImplicit false

namespace HyChat

open Lib

namespace Cache

def negativeCacheMarker : String := "__hy_chat_negative_cache__"

/-- `CacheLookup`; `None` is the JSON null. -/
structure Lookup where
  hit : Bool
  value : Json
  isNegative : Bool
  created : Bool
  error : Bool
  deriving DecidableEq

def Lookup.miss : Lookup := ⟨false, .null, false, false, false⟩

def Lookup.failed : Lookup := ⟨false, .null, false, false, true⟩

def Lookup.found (value : Json) (isNegative : Bool) : Lookup := ⟨true, value, isNegative, false, false⟩

/-- The text under the key. -/
inductive Entry
  | json (value : Json)
  | garbage
  deriving DecidableEq

structure Redis where
  entry : Option Entry
  lock : Option String
  deriving DecidableEq

/-! ## Commands -/

/-- How a command fares. -/
inductive Delivery
  | answered
  | lost
  | unanswered
  deriving DecidableEq

/-- A command of the client: its answer, or the `RedisError` it raises. -/
def Redis.command {α : Type} (r : Redis) (d : Delivery) (run : Redis → α × Redis) :
    Option α × Redis :=
  match d with
  | .answered => (some (run r).1, (run r).2)
  | .lost => (none, r)
  | .unanswered => (none, (run r).2)

def negativePayload (value : Json) : Json :=
  .obj [(negativeCacheMarker, .bool true), ("value", value)]

def unwrapNegative : Json → Option Lookup
  | .obj kvs =>
      if kvs.lookup negativeCacheMarker = some (.bool true) ∧
          kvs.all (fun kv => kv.1 == negativeCacheMarker || kv.1 == "value") then
        some (.found ((kvs.lookup "value").getD .null) true)
      else none
  | _ => none

def lookupOf : Option Entry → Lookup
  | none => .miss
  | some .garbage => .miss
  | some (.json value) => (unwrapNegative value).getD (.found value false)

variable (enabled : Bool)

def getJsonLookup (d : Delivery) (r : Redis) : Lookup × Redis :=
  if enabled then
    match r.command d fun r => (r.entry, r) with
    | (some entry, r') => (lookupOf entry, r')
    | (none, r') => (.failed, r')
  else (.miss, r)

def setJson (value : Json) (d : Delivery) (r : Redis) : Bool × Redis :=
  if enabled then
    match r.command d fun r => ((), { r with entry := some (.json value) }) with
    | (some _, r') => (true, r')
    | (none, r') => (false, r')
  else (false, r)

def setNegativeJson (value : Json) (d : Delivery) (r : Redis) : Bool × Redis :=
  setJson enabled (negativePayload value) d r

/-- `SET lock_key token NX EX ttl`; the lock is what the caller then holds. -/
def acquireLock (token : String) (d : Delivery) (r : Redis) : Option String × Redis :=
  if enabled then
    match r.command d fun r => (r.lock.isNone, if r.lock.isNone then { r with lock := some token } else r) with
    | (some true, r') => (some token, r')
    | (_, r') => (none, r')
  else (none, r)

/-- The script that compares the token and deletes the lock. -/
def compareAndDelete (token : String) (r : Redis) : Bool × Redis :=
  if r.lock = some token then (true, { r with lock := none }) else (false, r)

def releaseLock (lock : Option String) (d : Delivery) (r : Redis) : Bool × Redis :=
  match lock with
  | none => (false, r)
  | some token =>
      if enabled then
        match r.command d (compareAndDelete token) with
        | (some deleted, r') => (deleted, r')
        | (none, r') => (false, r')
      else (false, r)

/-! ## `get_or_set_json` -/

/-- The arguments of a call that decide what it does, and the token it draws for the lock. The
    predicates that are not given are those that answer no and yes. -/
structure Call where
  token : String
  shouldCacheNegative : Json → Bool
  shouldCache : Json → Bool

inductive Outcome
  | returned (lookup : Lookup)
  /-- The producer's error -/
  | raised (error : String)
  deriving DecidableEq

inductive Phase
  /-- The first `get_json_lookup` -/
  | lookup
  | acquire
  /-- The head of the loop of `wait_for_json` -/
  | wait
  /-- The lookup inside that loop -/
  | poll
  /-- The lookup under the lock -/
  | recheck
  | produce
  | store (value : Json)
  /-- The `finally` block -/
  | release (outcome : Outcome)
  | done (outcome : Outcome)
  deriving DecidableEq

/-- A call under way: its phase, the lock it holds, and what it has done so far. -/
structure Caller where
  phase : Phase
  lock : Option String
  reads : List Lookup
  produced : List (Except String Json)
  stored : List Json
  releases : Nat

def Caller.start : Caller := ⟨.lookup, none, [], [], [], 0⟩

/-- What a caller's next step depends on besides Redis. -/
inductive Choice
  | command (d : Delivery)
  /-- Whether the deadline of the wait has passed -/
  | clock (expired : Bool)
  | producer (result : Except String Json)

namespace Caller

/-- A lookup that answered, and where the call goes on a hit and on a miss. -/
def look (c : Caller) (lookup : Lookup) (hit : Outcome → Phase) (miss : Phase) : Caller :=
  { c with
    phase := if lookup.hit then hit (.returned lookup) else miss
    reads := c.reads ++ [lookup] }

/-- What the call stores of its producer's value. -/
def store (call : Call) (c : Caller) (value : Json) (d : Delivery) (r : Redis) : Caller × Redis :=
  let isNegative := call.shouldCacheNegative value
  let returned := Outcome.returned ⟨true, value, isNegative, true, false⟩
  if isNegative then
    ({ c with phase := .release returned, stored := c.stored ++ [value] },
      (setNegativeJson enabled value d r).2)
  else if value ≠ .null ∧ call.shouldCache value then
    ({ c with phase := .release returned, stored := c.stored ++ [value] },
      (setJson enabled value d r).2)
  else ({ c with phase := .release returned }, r)

/-- One step of `get_or_set_json`. -/
def advance (call : Call) (c : Caller) (r : Redis) (choice : Choice) : Option (Caller × Redis) :=
  match c.phase, choice with
  | .lookup, .command d =>
      let answer := getJsonLookup enabled d r
      some (c.look answer.1 .done .acquire, answer.2)
  | .acquire, .command d =>
      let answer := acquireLock enabled call.token d r
      some ({ c with lock := answer.1, phase := if answer.1.isSome then .recheck else .wait }, answer.2)
  | .wait, .clock expired =>
      some ({ c with phase := if enabled && !expired then .poll else .produce }, r)
  | .poll, .command d =>
      let answer := getJsonLookup enabled d r
      some (c.look answer.1 .done (if answer.1.error then .produce else .wait), answer.2)
  | .recheck, .command d =>
      let answer := getJsonLookup enabled d r
      some (c.look answer.1 .release .produce, answer.2)
  | .produce, .producer result =>
      let ran := { c with produced := c.produced ++ [result] }
      match result with
      | .ok value => some ({ ran with phase := .store value }, r)
      | .error e => some ({ ran with phase := .release (.raised e) }, r)
  | .store value, .command d => some (c.store enabled call value d r)
  | .release outcome, .command d =>
      some ({ c with
          phase := .done outcome
          releases := if c.lock.isSome then c.releases + 1 else c.releases },
        (releaseLock enabled c.lock d r).2)
  | _, _ => none

end Caller

/-! ## Any number of callers -/

structure State (ι : Type) where
  redis : Redis
  callers : ι → Caller
  /-- What the producers have answered, in order -/
  runs : List (Except String Json)

inductive Action (ι : Type)
  | step (i : ι) (choice : Choice)
  | expireEntry
  | expireLock

def State.start {ι : Type} (redis : Redis) : State ι := ⟨redis, fun _ => .start, []⟩

/-- The producer runs when caller `i` has taken its step. -/
def State.runsAfter {ι : Type} (s : State ι) (i : ι) (choice : Choice) : List (Except String Json) :=
  match (s.callers i).phase, choice with
  | .produce, .producer result => s.runs ++ [result]
  | _, _ => s.runs

variable {ι : Type} [DecidableEq ι]

def callers (calls : ι → Call) : Lts (State ι) (Action ι) where
  step s
    | .step i choice => ((s.callers i).advance enabled (calls i) s.redis choice).map fun next =>
        { redis := next.2
          callers := Function.update s.callers i next.1
          runs := s.runsAfter i choice }
    | .expireEntry => some { s with redis := { s.redis with entry := none } }
    | .expireLock => some { s with redis := { s.redis with lock := none } }

end Cache

end HyChat
