import HyChat.Cache.Service

/-!
# What callers of `get_or_set_json` can rely on

Two invariants carry the results. One is about a single call and needs nothing of the others: its
phase says what it has read, produced, stored and released. The other is about all of them while
nothing fails: the entry is there, or one caller is about to store it, or nobody has produced yet.
The token in the lock says which caller may be past the second lookup.

Why two invariants. `Sound` is true in every run, whatever is lost on the way to Redis: it is a
table of what each phase of a call says about the call itself, and gives that an outcome is a value
that was found or the call's own product, that a producer's error stores nothing and that a lock is
given back. `Flight` is about all callers at once and needs `Smooth`: no command is lost, no entry
and no lock expires, no deadline passes, and the producers return what can be stored. Outside of
that single-flight is not promised by the code either, a caller that waits too long runs its own
producer.

The heart of `Flight` is the token in the lock: of all callers at most one may be past the second
lookup, the one whose token is in Redis. Once it has produced, there is one value, in its hands or
in the entry (`Landed`), and every lookup from then on finds it, since nobody stores but with the
lock.

A producer's error is a result like another one for the caller that gets it, and no result for the
rest: the lock is given back, nothing is stored, and the next caller produces again.
-/

set_option autoImplicit false

namespace HyChat

open Lib

namespace Cache

variable {ι : Type} [DecidableEq ι]

/-! ## One call -/

/-- Where an outcome comes from: a lookup that hit, or the one run of the producer. -/
def Caller.Explains (c : Caller) : Outcome → Prop
  | .returned l =>
      l.hit = true ∧ ((l ∈ c.reads ∧ c.produced = []) ∨
        (c.produced = [.ok l.value] ∧ l.created = true))
  | .raised e => c.produced = [.error e] ∧ c.stored = []

/-- Nothing has been produced, stored or released. -/
structure Caller.Fresh (c : Caller) : Prop where
  produced : c.produced = []
  stored : c.stored = []
  releases : c.releases = 0

/-- What the phase of a call says about the call. -/
def Caller.Tells (c : Caller) : Phase → Prop
  | .lookup | .acquire | .wait | .poll => c.Fresh ∧ c.lock = none
  | .recheck | .produce => c.Fresh
  | .store value => c.produced = [.ok value] ∧ c.stored = [] ∧ c.releases = 0
  | .release outcome => c.Explains outcome ∧ c.releases = 0
  | .done outcome => c.Explains outcome ∧ (c.lock.isSome → c.releases = 1)

/-- What is known of one call, whatever the others and Redis do. -/
structure Caller.Sound (call : Call) (c : Caller) : Prop where
  lock : ∀ token ∈ c.lock, token = call.token
  tells : c.Tells c.phase

/-- A call that has done nothing -/
theorem sound_start (call : Call) : Caller.start.Sound call :=
  ⟨fun _ h => absurd h (by simp [Caller.start]), ⟨⟨rfl, rfl, rfl⟩, rfl⟩⟩

/-- What a lookup leaves a call with. -/
theorem look_tells {c : Caller} {l : Lookup} {hit : Outcome → Phase} {miss : Phase}
    (hhit : l.hit = true → (c.look l hit miss).Tells (hit (.returned l)))
    (hmiss : l.hit = false → (c.look l hit miss).Tells miss) :
    (c.look l hit miss).Tells (c.look l hit miss).phase := by
  cases hl : l.hit with
  | true =>
    have hp : (c.look l hit miss).phase = hit (.returned l) := by simp [Caller.look, hl]
    rw [hp]
    exact hhit hl
  | false =>
    have hp : (c.look l hit miss).phase = miss := by simp [Caller.look, hl]
    rw [hp]
    exact hmiss hl

/-- A lookup that hits explains returning it. -/
theorem look_explains {c : Caller} {l : Lookup} {hit : Outcome → Phase} {miss : Phase}
    (hl : l.hit = true) (hp : c.produced = []) : (c.look l hit miss).Explains (.returned l) :=
  ⟨hl, .inl ⟨List.mem_append_right _ List.mem_cons_self, hp⟩⟩

/-- A lookup produces, stores and releases nothing. -/
theorem Fresh.look {c : Caller} {l : Lookup} {hit : Outcome → Phase} {miss : Phase} (h : c.Fresh) :
    (c.look l hit miss).Fresh := ⟨h.produced, h.stored, h.releases⟩

/-- A hit ends a call that holds no lock. -/
theorem done_look_tells {c : Caller} {l : Lookup} {miss : Phase} (hl : l.hit = true) (hf : c.Fresh)
    (hn : c.lock = none) : (c.look l .done miss).Tells (.done (.returned l)) := by
  refine ⟨look_explains hl hf.produced, ?_⟩
  intro hsome
  rw [show (c.look l .done miss).lock = c.lock from rfl, hn] at hsome
  exact absurd hsome (by simp)

/-- The lock that is granted holds the caller's token. -/
theorem acquireLock_token (enabled : Bool) (token : String) (d : Delivery) (r : Redis) :
    ∀ t ∈ (acquireLock enabled token d r).1, t = token := by
  intro t ht
  unfold acquireLock at ht
  split at ht
  · split at ht
    · cases ht
      rfl
    · exact absurd ht (by simp)
  · exact absurd ht (by simp)

/-- **One step of a call.** -/
theorem Sound.advance {enabled : Bool} {call : Call} {c c' : Caller} {r r' : Redis} {choice : Choice}
    (h : c.Sound call) (hs : c.advance enabled call r choice = some (c', r')) : c'.Sound call := by
  obtain ⟨hlock, htells⟩ := h
  unfold Caller.advance at hs
  cases hp : c.phase with
  | lookup =>
    rw [hp] at hs htells
    obtain ⟨hf, hn⟩ := htells
    cases choice with
    | command d =>
      cases hs
      refine ⟨hlock, look_tells ?_ ?_⟩
      · exact fun hl => done_look_tells hl hf hn
      · intro _
        exact ⟨Fresh.look hf, hn⟩
    | clock b => exact absurd hs (by simp)
    | producer result => exact absurd hs (by simp)
  | acquire =>
    rw [hp] at hs htells
    obtain ⟨hf, hn⟩ := htells
    cases choice with
    | command d =>
      cases hs
      refine ⟨acquireLock_token enabled call.token d r, ?_⟩
      simp only
      cases ha : (acquireLock enabled call.token d r).1 with
      | none => exact ⟨⟨hf.produced, hf.stored, hf.releases⟩, rfl⟩
      | some token => exact ⟨hf.produced, hf.stored, hf.releases⟩
    | clock b => exact absurd hs (by simp)
    | producer result => exact absurd hs (by simp)
  | wait =>
    rw [hp] at hs htells
    obtain ⟨hf, hn⟩ := htells
    cases choice with
    | clock expired =>
      cases hs
      refine ⟨hlock, ?_⟩
      simp only
      split
      · exact ⟨⟨hf.produced, hf.stored, hf.releases⟩, hn⟩
      · exact ⟨hf.produced, hf.stored, hf.releases⟩
    | command d => exact absurd hs (by simp)
    | producer result => exact absurd hs (by simp)
  | poll =>
    rw [hp] at hs htells
    obtain ⟨hf, hn⟩ := htells
    cases choice with
    | command d =>
      cases hs
      refine ⟨hlock, look_tells ?_ ?_⟩
      · exact fun hl => done_look_tells hl hf hn
      · intro _
        split
        · exact Fresh.look hf
        · exact ⟨Fresh.look hf, hn⟩
    | clock b => exact absurd hs (by simp)
    | producer result => exact absurd hs (by simp)
  | recheck =>
    rw [hp] at hs htells
    cases choice with
    | command d =>
      cases hs
      refine ⟨hlock, look_tells ?_ ?_⟩
      · intro hl
        exact ⟨look_explains hl htells.produced, htells.releases⟩
      · intro _
        exact Fresh.look htells
    | clock b => exact absurd hs (by simp)
    | producer result => exact absurd hs (by simp)
  | produce =>
    rw [hp] at hs htells
    cases choice with
    | producer result =>
      cases result with
      | ok value =>
        cases hs
        exact ⟨hlock, by simp [htells.produced], htells.stored, htells.releases⟩
      | error e =>
        cases hs
        exact ⟨hlock, ⟨by simp [htells.produced], htells.stored⟩, htells.releases⟩
    | command d => exact absurd hs (by simp)
    | clock b => exact absurd hs (by simp)
  | store value =>
    rw [hp] at hs htells
    obtain ⟨hprod, -, hrel⟩ := htells
    cases choice with
    | command d =>
      simp only [Caller.store, Option.some.injEq] at hs
      split at hs
      · cases hs
        exact ⟨hlock, ⟨rfl, .inr ⟨hprod, rfl⟩⟩, hrel⟩
      · split at hs
        · cases hs
          exact ⟨hlock, ⟨rfl, .inr ⟨hprod, rfl⟩⟩, hrel⟩
        · cases hs
          exact ⟨hlock, ⟨rfl, .inr ⟨hprod, rfl⟩⟩, hrel⟩
    | clock b => exact absurd hs (by simp)
    | producer result => exact absurd hs (by simp)
  | release outcome =>
    rw [hp] at hs htells
    obtain ⟨hex, hrel⟩ := htells
    cases choice with
    | command d =>
      cases hs
      refine ⟨hlock, ?_, ?_⟩
      · cases outcome with
        | returned l => exact hex
        | raised e => exact hex
      · intro hsome
        simp only at hsome ⊢
        rw [if_pos hsome, hrel]
    | clock b => exact absurd hs (by simp)
    | producer result => exact absurd hs (by simp)
  | done outcome =>
    rw [hp] at hs
    exact absurd hs (by simp)

/-! ## The lock -/

/-- **A step of the system, inverted.** -/
theorem callers_step_cases {enabled : Bool} {calls : ι → Call} {s s' : State ι} {a : Action ι}
    (h : (callers enabled calls).step s a = some s') :
    (∃ i choice c r, a = .step i choice ∧
        (s.callers i).advance enabled (calls i) s.redis choice = some (c, r) ∧
        s'.redis = r ∧ s'.callers = Function.update s.callers i c ∧
        s'.runs = s.runsAfter i choice) ∨
      ((a = .expireEntry ∨ a = .expireLock) ∧ s'.callers = s.callers) := by
  cases a with
  | step i choice =>
    simp only [callers, Option.map_eq_some_iff] at h
    obtain ⟨⟨c, r⟩, hadv, rfl⟩ := h
    exact .inl ⟨i, choice, c, r, rfl, hadv, rfl, rfl, rfl⟩
  | expireEntry =>
    simp only [callers, Option.some.injEq] at h
    subst h
    exact .inr ⟨.inl rfl, rfl⟩
  | expireLock =>
    simp only [callers, Option.some.injEq] at h
    subst h
    exact .inr ⟨.inr rfl, rfl⟩

/-- Every call of a reachable system is sound. -/
theorem sound_reach {enabled : Bool} {calls : ι → Call} {redis : Redis}
    {ok : State ι → Action ι → Prop} {s : State ι}
    (h : (callers enabled calls).Reach ok (.start redis) s) : ∀ i, (s.callers i).Sound (calls i) := by
  refine h.invariant (I := fun s => ∀ i, (s.callers i).Sound (calls i))
    (fun i => sound_start (calls i)) ?_
  intro s a s' hi _ hs i
  rcases callers_step_cases hs with ⟨j, choice, c, r, -, hadv, -, hc, -⟩ | ⟨-, hc⟩
  · rw [hc]
    by_cases hij : i = j
    · subst hij
      rw [Function.update_self]
      exact Sound.advance (hi i) hadv
    · rw [Function.update_of_ne hij]
      exact hi i
  · rw [hc]
    exact hi i

/-- The call stores the value, and what it stores reads back as the value. -/
def Call.Caches (call : Call) (value : Json) : Prop :=
  call.shouldCacheNegative value = true ∨
    (value ≠ .null ∧ call.shouldCache value = true ∧ unwrapNegative value = none)

/-- Redis answers and forgets nothing, no deadline passes, and the producer's value is cached. -/
def Smooth (calls : ι → Call) (_ : State ι) : Action ι → Prop
  | .step _ (.command d) => d = .answered
  | .step _ (.clock expired) => expired = false
  | .step i (.producer result) => ∃ value, result = .ok value ∧ (calls i).Caches value
  | .expireEntry => False
  | .expireLock => False

/-- The phases between taking the lock and giving it back. -/
def Phase.locked : Phase → Bool
  | .recheck | .produce | .store _ | .release _ => true
  | _ => false

/-- The phases before a producer's value is known. -/
def Phase.early : Phase → Bool
  | .lookup | .acquire | .wait | .poll | .recheck | .produce => true
  | _ => false

/-- What a caller may be about when `value` is the value of the flight. -/
def Phase.Lands (call : Call) (value : Json) : Phase → Prop
  | .produce => False
  | .store v => v = value ∧ call.Caches value
  | .release outcome | .done outcome => ∃ l, outcome = .returned l ∧ l.hit = true ∧ l.value = value
  | _ => True

/-- A lookup of the entry finds the value. -/
def Serves (entry : Option Entry) (value : Json) : Prop :=
  (lookupOf entry).hit = true ∧ (lookupOf entry).value = value

/-- Nobody has produced, and there is nothing to find. -/
structure NotYet (s : State ι) : Prop where
  runs : s.runs = []
  missing : (lookupOf s.redis.entry).hit = false
  early : ∀ i, (s.callers i).phase.early = true

/-- There is one value, in the entry or in the hands of the caller that is about to store it. -/
structure Landed (calls : ι → Call) (value : Json) (s : State ι) : Prop where
  length : s.runs.length ≤ 1
  runs : ∀ result ∈ s.runs, result = .ok value
  lands : ∀ i, (s.callers i).phase.Lands (calls i) value
  served : Serves s.redis.entry value ∨
    (lookupOf s.redis.entry).hit = false ∧ ∃ i, (s.callers i).phase = .store value

/-- The state of all calls while nothing fails. -/
structure Flight (calls : ι → Call) (s : State ι) : Prop where
  holder : ∀ i, (s.callers i).phase.locked = true →
    (s.callers i).lock = some (calls i).token ∧ s.redis.lock = some (calls i).token
  value : NotYet s ∨ ∃ value, Landed calls value s

/-- A lookup that is answered reads the entry. -/
theorem getJsonLookup_answered (r : Redis) :
    getJsonLookup true .answered r = (lookupOf r.entry, r) := rfl

/-- Reading an entry is no error, whatever the entry is. -/
theorem lookupOf_error (entry : Option Entry) : (lookupOf entry).error = false := by
  unfold lookupOf
  split
  · rfl
  · rfl
  · rename_i value
    unfold unwrapNegative
    split
    · split
      · rfl
      · rfl
    · rfl

/-- A negative entry serves its value. -/
theorem serves_negativePayload (value : Json) :
    Serves (some (.json (negativePayload value))) value := by
  constructor
  · rfl
  · rfl

/-- A positive entry serves its value when it does not look negative. -/
theorem serves_of_unwrap {value : Json} (h : unwrapNegative value = none) :
    Serves (some (.json value)) value := by
  simp [Serves, lookupOf, h, Lookup.found]

/-- Storing a value that is cached leaves an entry that serves it. -/
theorem serves_store {call : Call} {c : Caller} {value : Json} {r : Redis} (h : call.Caches value) :
    Serves (c.store true call value .answered r).2.entry value ∧
      (c.store true call value .answered r).2.lock = r.lock ∧
      ∃ l, (c.store true call value .answered r).1 =
        { c with phase := .release (.returned l), stored := c.stored ++ [value] } ∧
        l.hit = true ∧ l.value = value := by
  unfold Caller.store
  by_cases hn : call.shouldCacheNegative value = true
  · simp only [hn, if_true]
    exact ⟨serves_negativePayload value, rfl, _, rfl, rfl, rfl⟩
  · rcases h with h | ⟨hnull, hcache, hun⟩
    · exact absurd h hn
    · rw [Bool.not_eq_true] at hn
      simp only [hn, Bool.false_eq_true, if_false, hcache, hnull, ne_eq, not_false_eq_true,
        and_self, if_true]
      exact ⟨serves_of_unwrap hun, rfl, _, rfl, rfl, rfl⟩

omit [DecidableEq ι] in
/-- Two callers are not both past the second lookup. -/
theorem Flight.unique {calls : ι → Call} {s : State ι} (h : Flight calls s)
    (htoken : Function.Injective fun i => (calls i).token) {i j : ι}
    (hi : (s.callers i).phase.locked = true) (hj : (s.callers j).phase.locked = true) : i = j := by
  have hlock := (h.holder i hi).2
  rw [(h.holder j hj).2] at hlock
  exact htoken (Option.some.inj hlock).symm

/-- A caller that has not produced may be about anything else. -/
theorem Phase.Lands.of_early {call : Call} {value : Json} {p : Phase} (he : p.early = true)
    (hp : p ≠ .produce) : p.Lands call value := by
  cases p with
  | produce => exact absurd rfl hp
  | lookup => trivial
  | acquire => trivial
  | wait => trivial
  | poll => trivial
  | recheck => trivial
  | store v => exact absurd he (by simp [Phase.early])
  | release o => exact absurd he (by simp [Phase.early])
  | done o => exact absurd he (by simp [Phase.early])

/-- The system after caller `i` has become `c`, with the same producer runs. -/
def State.put (s : State ι) (i : ι) (c : Caller) (r : Redis) : State ι :=
  { s with redis := r, callers := Function.update s.callers i c }

/-- What holds of the other callers goes on to. -/
theorem forall_put {s : State ι} {i : ι} {c : Caller} {P : ι → Caller → Prop}
    (h : ∀ j, P j (s.callers j)) (hc : P i c) : ∀ j, P j (Function.update s.callers i c j) := by
  intro j
  by_cases hij : j = i
  · subst hij
    rw [Function.update_self]
    exact hc
  · rw [Function.update_of_ne hij]
    exact h j

/-- A caller that moves to a phase outside the lock, or keeps the lock it holds. -/
theorem Flight.holder_put {calls : ι → Call} {s : State ι} {i : ι} {c : Caller} {r : Redis}
    (h : Flight calls s) (hlock : r.lock = s.redis.lock)
    (hc : c.phase.locked = true → c.lock = some (calls i).token ∧ r.lock = some (calls i).token) :
    ∀ j, ((s.put i c r).callers j).phase.locked = true →
      ((s.put i c r).callers j).lock = some (calls j).token ∧
        (s.put i c r).redis.lock = some (calls j).token := by
  have hall : ∀ j, (s.callers j).phase.locked = true →
      (s.callers j).lock = some (calls j).token ∧ r.lock = some (calls j).token := by
    intro j hj
    rw [hlock]
    exact h.holder j hj
  exact forall_put (P := fun j c => c.phase.locked = true →
    c.lock = some (calls j).token ∧ r.lock = some (calls j).token) hall hc

/-- A step that reads or waits: nothing is produced, and the entry stays. -/
theorem Flight.put_early {calls : ι → Call} {s : State ι} {i : ι} {c : Caller} {r : Redis}
    (h : Flight calls s) (hentry : r.entry = s.redis.entry)
    (hholder : ∀ j, ((s.put i c r).callers j).phase.locked = true →
      ((s.put i c r).callers j).lock = some (calls j).token ∧
        (s.put i c r).redis.lock = some (calls j).token)
    (hnot : NotYet s → c.phase.early = true)
    (hland : ∀ value, Landed calls value s → c.phase.Lands (calls i) value)
    (hstore : ∀ value, (s.callers i).phase ≠ .store value) : Flight calls (s.put i c r) := by
  refine ⟨hholder, ?_⟩
  rcases h.value with hv | ⟨value, hv⟩
  · refine .inl ⟨hv.runs, ?_, forall_put (P := fun _ c => c.phase.early = true) hv.early (hnot hv)⟩
    show (lookupOf r.entry).hit = false
    rw [hentry]
    exact hv.missing
  · refine .inr ⟨value, hv.length, hv.runs,
      forall_put (P := fun j c => c.phase.Lands (calls j) value) hv.lands (hland value hv), ?_⟩
    rcases hv.served with hs | ⟨hmiss, j, hj⟩
    · refine .inl ?_
      show Serves r.entry value
      rw [hentry]
      exact hs
    · refine .inr ⟨?_, j, ?_⟩
      · show (lookupOf r.entry).hit = false
        rw [hentry]
        exact hmiss
      have hji : j ≠ i := by
        intro e
        subst e
        exact hstore value hj
      show (Function.update s.callers i c j).phase = _
      rw [Function.update_of_ne hji]
      exact hj

omit [DecidableEq ι] in
/-- A hit is a hit on the flight's value. -/
theorem Landed.of_hit {calls : ι → Call} {s : State ι} {value : Json} (h : Landed calls value s)
    (hit : (lookupOf s.redis.entry).hit = true) : (lookupOf s.redis.entry).value = value := by
  rcases h.served with hs | ⟨hmiss, -⟩
  · exact hs.2
  · rw [hit] at hmiss
    exact absurd hmiss (by simp)

/-- A caller looks the entry up: a hit ends its wait, a miss sends it on. -/
theorem Flight.look {calls : ι → Call} {s : State ι} {i : ι} {hit : Outcome → Phase} {miss : Phase}
    (h : Flight calls s) (hearly : miss.early = true)
    (hhit : ∀ value l, l.hit = true → l.value = value →
      (hit (.returned l)).Lands (calls i) value)
    (hmiss : ∀ value, Landed calls value s → (lookupOf s.redis.entry).hit = false →
      miss.Lands (calls i) value)
    (hlocked : ((s.callers i).look (lookupOf s.redis.entry) hit miss).phase.locked = true →
      (s.callers i).phase.locked = true)
    (hstore : ∀ value, (s.callers i).phase ≠ .store value) :
    Flight calls (s.put i ((s.callers i).look (lookupOf s.redis.entry) hit miss) s.redis) := by
  refine h.put_early rfl (h.holder_put rfl fun hl => h.holder i (hlocked hl)) ?_ ?_ hstore
  · intro hv
    simp only [Caller.look, hv.missing, Bool.false_eq_true, if_false]
    exact hearly
  · intro value hv
    cases hl : (lookupOf s.redis.entry).hit with
    | true =>
      simp only [Caller.look, hl, if_true]
      exact hhit value _ hl (hv.of_hit hl)
    | false =>
      simp only [Caller.look, hl, Bool.false_eq_true, if_false]
      exact hmiss value hv hl

/-- A lookup of a caller that holds no lock. -/
theorem Flight.look_outside {calls : ι → Call} {s : State ι} {i : ι} {miss : Phase}
    (h : Flight calls s) (hearly : miss.early = true) (hunlocked : miss.locked = false)
    (hlands : ∀ value, miss.Lands (calls i) value)
    (hstore : ∀ value, (s.callers i).phase ≠ .store value) :
    Flight calls (s.put i ((s.callers i).look (lookupOf s.redis.entry) .done miss) s.redis) := by
  refine h.look hearly ?_ (fun value _ _ => hlands value) ?_ hstore
  · intro value l hl hv
    exact ⟨l, rfl, hl, hv⟩
  · unfold Caller.look
    split
    · intro hw
      exact absurd hw (by simp [Phase.locked])
    · intro hw
      exact absurd (hunlocked.symm.trans hw) (by simp)

/-- The one caller that runs its producer. -/
theorem Flight.produce {calls : ι → Call} {s : State ι} {i : ι} {value : Json} (h : Flight calls s)
    (htoken : Function.Injective fun i => (calls i).token) (hp : (s.callers i).phase = .produce)
    (hc : (calls i).Caches value) :
    Flight calls { s.put i { s.callers i with
      produced := (s.callers i).produced ++ [Except.ok value], phase := .store value } s.redis with
        runs := s.runs ++ [Except.ok value] } := by
  have hlocked : (s.callers i).phase.locked = true := by rw [hp]; rfl
  refine ⟨h.holder_put rfl fun _ => h.holder i hlocked, .inr ⟨value, ?_⟩⟩
  have hnot : NotYet s := by
    rcases h.value with hv | ⟨v, hv⟩
    · exact hv
    · have hland := hv.lands i
      rw [hp] at hland
      exact hland.elim
  refine ⟨?_, ?_, ?_, .inr ⟨hnot.missing, i, ?_⟩⟩
  · show (s.runs ++ [Except.ok value]).length ≤ 1
    rw [hnot.runs]
    exact Nat.le_refl 1
  · intro result hr
    replace hr : result ∈ s.runs ++ [.ok value] := hr
    rw [hnot.runs, List.nil_append, List.mem_singleton] at hr
    exact hr
  · intro j
    show Phase.Lands (calls j) value (Function.update s.callers i _ j).phase
    by_cases hij : j = i
    · subst hij
      rw [Function.update_self]
      exact ⟨rfl, hc⟩
    · rw [Function.update_of_ne hij]
      apply Phase.Lands.of_early (hnot.early j)
      intro hj
      have hjl : (s.callers j).phase.locked = true := by rw [hj]; rfl
      exact hij (h.unique htoken hjl hlocked)
  · show (Function.update s.callers i _ i).phase = _
    rw [Function.update_self]

/-- The caller that has produced stores its value. -/
theorem Flight.store {calls : ι → Call} {s : State ι} {i : ι} {v : Json} (h : Flight calls s)
    (hp : (s.callers i).phase = .store v) :
    Flight calls (s.put i ((s.callers i).store true (calls i) v .answered s.redis).1
      ((s.callers i).store true (calls i) v .answered s.redis).2) := by
  have hlocked : (s.callers i).phase.locked = true := by rw [hp]; rfl
  rcases h.value with hv | ⟨value, hv⟩
  · have := hv.early i
    rw [hp] at this
    exact absurd this (by simp [Phase.early])
  · have hland := hv.lands i
    rw [hp] at hland
    obtain ⟨rfl, hc⟩ := hland
    obtain ⟨hserves, hlock, l, hcaller, hhit, hval⟩ := serves_store (c := s.callers i) (r := s.redis) hc
    obtain ⟨hown, hredis⟩ := h.holder i hlocked
    refine ⟨h.holder_put hlock ?_, .inr ⟨v, hv.length, hv.runs, ?_, .inl hserves⟩⟩
    · intro _
      rw [hcaller, hlock]
      exact ⟨hown, hredis⟩
    · refine forall_put (P := fun j c => c.phase.Lands (calls j) v) hv.lands ?_
      rw [hcaller]
      exact ⟨l, rfl, hhit, hval⟩

/-- The holder gives the lock back. -/
theorem Flight.release {calls : ι → Call} {s : State ι} {i : ι} {o : Outcome} (h : Flight calls s)
    (htoken : Function.Injective fun i => (calls i).token)
    (hp : (s.callers i).phase = .release o) (releases : Nat) :
    Flight calls (s.put i { s.callers i with phase := .done o, releases := releases }
      (releaseLock true (s.callers i).lock .answered s.redis).2) := by
  have hlocked : (s.callers i).phase.locked = true := by rw [hp]; rfl
  obtain ⟨hown, hredis⟩ := h.holder i hlocked
  have hentry : (releaseLock true (s.callers i).lock .answered s.redis).2.entry = s.redis.entry := by
    rw [hown]
    simp [releaseLock, Redis.command, compareAndDelete, hredis]
  refine h.put_early hentry ?_ ?_ ?_ ?_
  · intro j
    show (Function.update s.callers i _ j).phase.locked = true →
      (Function.update s.callers i _ j).lock = _ ∧ _
    by_cases hij : j = i
    · subst hij
      rw [Function.update_self]
      intro hl
      exact absurd hl (by simp [Phase.locked])
    · rw [Function.update_of_ne hij]
      intro hj
      exact absurd (h.unique htoken hj hlocked) hij
  · intro hv
    have := hv.early i
    rw [hp] at this
    exact absurd this (by simp [Phase.early])
  · intro value hv
    have := hv.lands i
    rw [hp] at this
    exact this
  · intro value hst
    rw [hp] at hst
    exact absurd hst (by simp)

/-- The caller asks for the lock. -/
theorem Flight.acquire {calls : ι → Call} {s : State ι} {i : ι} (h : Flight calls s)
    (hp : (s.callers i).phase = .acquire) :
    Flight calls (s.put i { s.callers i with
        lock := (acquireLock true (calls i).token .answered s.redis).1
        phase := if (acquireLock true (calls i).token .answered s.redis).1.isSome then .recheck
          else .wait }
      (acquireLock true (calls i).token .answered s.redis).2) := by
  have hstore : ∀ value, (s.callers i).phase ≠ .store value := by
    intro value hst
    rw [hp] at hst
    exact absurd hst (by simp)
  cases hl : s.redis.lock with
  | some token =>
    have hno : acquireLock true (calls i).token .answered s.redis = (none, s.redis) := by
      simp [acquireLock, Redis.command, hl]
    rw [hno]
    exact h.put_early rfl (h.holder_put rfl fun hw => absurd hw (by simp [Phase.locked]))
      (fun _ => rfl) (fun _ _ => trivial) hstore
  | none =>
    have hyes : acquireLock true (calls i).token .answered s.redis =
        (some (calls i).token, { s.redis with lock := some (calls i).token }) := by
      simp [acquireLock, Redis.command, hl]
    rw [hyes]
    refine h.put_early rfl ?_ (fun _ => rfl) (fun _ _ => trivial) hstore
    intro j
    show (Function.update s.callers i _ j).phase.locked = true →
      (Function.update s.callers i _ j).lock = _ ∧ some (calls i).token = _
    by_cases hij : j = i
    · subst hij
      rw [Function.update_self]
      intro _
      exact ⟨rfl, rfl⟩
    · rw [Function.update_of_ne hij]
      intro hj
      have := (h.holder j hj).2
      rw [hl] at this
      exact absurd this (by simp)

omit [DecidableEq ι] in
/-- Only the phase `produce` runs a producer. -/
theorem State.runsAfter_of_ne {s : State ι} {i : ι} {choice : Choice}
    (h : (s.callers i).phase ≠ .produce) : s.runsAfter i choice = s.runs := by
  unfold State.runsAfter
  split
  · rename_i hp
    exact absurd hp h
  · rfl

/-- **One step while nothing fails.** -/
theorem Flight.step {calls : ι → Call} {s s' : State ι} {a : Action ι} (h : Flight calls s)
    (htoken : Function.Injective fun i => (calls i).token) (hok : Smooth calls s a)
    (hs : (callers true calls).step s a = some s') : Flight calls s' := by
  cases a with
  | expireEntry => exact hok.elim
  | expireLock => exact hok.elim
  | step i choice =>
    simp only [callers, Option.map_eq_some_iff] at hs
    obtain ⟨⟨c, r⟩, hadv, rfl⟩ := hs
    have hput : (s.callers i).phase ≠ .produce → Flight calls (s.put i c r) →
        Flight calls ⟨r, Function.update s.callers i c, s.runsAfter i choice⟩ := by
      intro hne hf
      rw [State.runsAfter_of_ne hne]
      exact hf
    unfold Caller.advance at hadv
    cases hp : (s.callers i).phase with
    | lookup =>
      rw [hp] at hadv
      cases choice with
      | command d =>
        cases hok
        cases hadv
        apply hput (by rw [hp]; simp)
        exact h.look_outside rfl rfl (fun _ => trivial) (by rw [hp]; simp)
      | clock b => exact absurd hadv (by simp)
      | producer result => exact absurd hadv (by simp)
    | acquire =>
      rw [hp] at hadv
      cases choice with
      | command d =>
        cases hok
        cases hadv
        exact hput (by rw [hp]; simp) (h.acquire hp)
      | clock b => exact absurd hadv (by simp)
      | producer result => exact absurd hadv (by simp)
    | wait =>
      rw [hp] at hadv
      cases choice with
      | clock expired =>
        cases hok
        cases hadv
        apply hput (by rw [hp]; simp)
        refine h.put_early rfl (h.holder_put rfl ?_) (fun _ => rfl) (fun _ _ => trivial)
          (by rw [hp]; simp)
        intro hw
        exact absurd hw (by simp [Phase.locked])
      | command d => exact absurd hadv (by simp)
      | producer result => exact absurd hadv (by simp)
    | poll =>
      rw [hp] at hadv
      cases choice with
      | command d =>
        cases hok
        cases hadv
        apply hput (by rw [hp]; simp)
        rw [getJsonLookup_answered]
        simp only [lookupOf_error, Bool.false_eq_true, if_false]
        exact h.look_outside rfl rfl (fun _ => trivial) (by rw [hp]; simp)
      | clock b => exact absurd hadv (by simp)
      | producer result => exact absurd hadv (by simp)
    | recheck =>
      rw [hp] at hadv
      have hlocked : (s.callers i).phase.locked = true := by rw [hp]; rfl
      cases choice with
      | command d =>
        cases hok
        cases hadv
        apply hput (by rw [hp]; simp)
        refine h.look rfl ?_ ?_ (fun _ => hlocked) (by rw [hp]; simp)
        · intro value l hl hv
          exact ⟨l, rfl, hl, hv⟩
        · intro value hv hmiss
          -- the caller that is about to store the value would hold the lock as well
          rcases hv.served with hserved | ⟨-, j, hj⟩
          · rw [hserved.1] at hmiss
            exact absurd hmiss (by simp)
          · have hji := h.unique htoken (by rw [hj]; rfl) hlocked
            subst hji
            rw [hp] at hj
            exact absurd hj (by simp)
      | clock b => exact absurd hadv (by simp)
      | producer result => exact absurd hadv (by simp)
    | produce =>
      rw [hp] at hadv
      cases choice with
      | producer result =>
        obtain ⟨value, rfl, hc⟩ := hok
        cases hadv
        have hruns : s.runsAfter i (.producer (.ok value)) = s.runs ++ [Except.ok value] := by
          simp [State.runsAfter, hp]
        rw [hruns]
        exact h.produce htoken hp hc
      | command d => exact absurd hadv (by simp)
      | clock b => exact absurd hadv (by simp)
    | store v =>
      rw [hp] at hadv
      cases choice with
      | command d =>
        cases hok
        obtain rfl : ((s.callers i).store true (calls i) v .answered s.redis).1 = c :=
          congrArg Prod.fst (Option.some.inj hadv)
        obtain rfl : ((s.callers i).store true (calls i) v .answered s.redis).2 = r :=
          congrArg Prod.snd (Option.some.inj hadv)
        exact hput (by rw [hp]; simp) (h.store hp)
      | clock b => exact absurd hadv (by simp)
      | producer result => exact absurd hadv (by simp)
    | release o =>
      rw [hp] at hadv
      cases choice with
      | command d =>
        cases hok
        cases hadv
        exact hput (by rw [hp]; simp) (h.release htoken hp _)
      | clock b => exact absurd hadv (by simp)
      | producer result => exact absurd hadv (by simp)
    | done o =>
      rw [hp] at hadv
      exact absurd hadv (by simp)

def twoCalls (i : Bool) : Call := ⟨if i then "t1" else "t0", fun _ => false, fun _ => true⟩

end Cache

end HyChat
