import HyChat.Lib.Json
import HyChat.Lib.Lts

/-!
# Cancelling the active runs of a thread

`cancelActiveThreadRuns` cancels the run it knows of at once, lists the active runs of the thread,
cancels all of them together, and one by one when that fails. Every call of the client answers with
a promise that resolves or rejects some time later, in any order; nothing a client answers makes the
function reject.

The function is written as the state of its promises: which calls were made, what each has come to,
and which of them the function awaits.

Why promises are state. The function starts several calls before it awaits any of them, and a
promise that settles while another is awaited has an effect later, when the function gets to it. A
model that called and answered at once would lose the orders in which this matters. So a state has
every call that was made with what has become of it, and `proceed` runs the function on until it
stops at a promise that is pending.

Two invariants. `Sound` ties the phase to the calls, and says which arguments they have: that what
is cancelled are the known run and the listed ones, no others, and each of them. `Awaits` says that
the function stops only at a pending promise, which is what gives that it ends when the client has
answered everything. That it never rejects is because every rejection has a handler.

An empty id is none to the source, in the known run and in a listing, and `Targets` follows it; the
small theorem at the end shows what that means for a listing with such a run.
-/

set_option autoImplicit false

namespace HyChat

open Lib

namespace Frontend

/-- A call of the runs client. -/
inductive RunsCall
  | cancel (threadId runId : String) (wait : Bool) (action : String)
  | cancelMany (threadId : String) (runIds : List String) (action : String)
  | list (threadId : String) (limit : Nat) (status : String)
  deriving DecidableEq

def RunsCall.threadId : RunsCall → String
  | .cancel threadId _ _ _ => threadId
  | .cancelMany threadId _ _ => threadId
  | .list threadId _ _ => threadId

/-- The runs a call asks to cancel -/
def RunsCall.targets : RunsCall → List String
  | .cancel _ runId _ _ => [runId]
  | .cancelMany _ runIds _ => runIds
  | .list _ _ _ => []

/-- A call with the promise it has returned: pending, resolved or rejected. -/
structure Promised (α : Type) where
  call : RunsCall
  outcome : Option (Except String α)

def activeRunStatuses : List String := ["pending", "running"]

/-- `runIdOf` -/
def runIdOf : Json → Option String
  | .obj run =>
      match run.lookup "run_id" with
      | some (.str runId) => some runId
      | _ => none
  | _ => none

/-- What the function awaits -/
inductive CleanupPhase
  | listing
  | cancellingMany
  | cancellingEach
  | knownRun
  | done
  deriving DecidableEq

/-- The calls that were made, and where the function stands. -/
structure RunCleanup where
  threadId : String
  knownRunId : Option String
  phase : CleanupPhase
  knownRunCancellation : Option (Promised Unit)
  listedRuns : List (Promised (List Json))
  cancelledMany : Option (Promised Unit)
  cancelledEach : List (Promised Unit)
  cancellationErrors : List String
  /-- The promise of the function itself -/
  result : Option (Except String Unit)

namespace RunCleanup

/-- `runs.cancel(threadId, runId, false, "interrupt", …)` -/
def cancelCall (threadId runId : String) : RunsCall := .cancel threadId runId false "interrupt"

/-- The known run, unless it is missing or empty -/
def knownRun (s : RunCleanup) : Option String := s.knownRunId.filter fun runId => runId ≠ ""

def start (threadId : String) (knownRunId : Option String) : RunCleanup where
  threadId := threadId
  knownRunId := knownRunId
  phase := .listing
  knownRunCancellation :=
    (knownRunId.filter fun runId => runId ≠ "").map fun runId => ⟨cancelCall threadId runId, none⟩
  listedRuns := activeRunStatuses.map fun status => ⟨.list threadId 100 status, none⟩
  cancelledMany := none
  cancelledEach := []
  cancellationErrors := []
  result := none

/-- `runIds.add(runId)` -/
def addRunId (runIds : List String) (runId : String) : List String :=
  if runId ∈ runIds then runIds else runIds ++ [runId]

/-- The runs of the listings that resolved -/
def listed (s : RunCleanup) : List Json :=
  s.listedRuns.flatMap fun p => match p.outcome with
    | some (.ok runs) => runs
    | _ => []

/-- `[...runIds]` -/
def exactRunIds (s : RunCleanup) : List String :=
  ((s.listed.filterMap runIdOf).filter fun runId => runId ≠ "").foldl addRunId s.knownRun.toList

def allSettled {α : Type} (promises : List (Promised α)) : Bool :=
  promises.all fun p => p.outcome.isSome

/-- The errors of the listings that were rejected -/
def listErrors (s : RunCleanup) : List String :=
  s.listedRuns.filterMap fun p => match p.outcome with
    | some (.error e) => some e
    | _ => none

/-- After `await Promise.allSettled(…)` of the listings -/
def afterListing (s : RunCleanup) : RunCleanup :=
  if s.phase = .listing ∧ allSettled s.listedRuns then
    let collected := { s with cancellationErrors := s.cancellationErrors ++ s.listErrors }
    if s.exactRunIds.isEmpty then { collected with phase := .knownRun }
    else
      { collected with
        phase := .cancellingMany
        cancelledMany := some ⟨.cancelMany s.threadId s.exactRunIds "interrupt", none⟩ }
  else s

/-- After `await runs.cancelMany(…)`, with its catch block -/
def afterMany (s : RunCleanup) : RunCleanup :=
  match s.phase, s.cancelledMany.bind (·.outcome) with
  | .cancellingMany, some (.ok _) => { s with phase := .knownRun }
  | .cancellingMany, some (.error e) =>
      { s with
        phase := .cancellingEach
        cancellationErrors := s.cancellationErrors ++ [e]
        cancelledEach := s.exactRunIds.map fun runId => ⟨cancelCall s.threadId runId, none⟩ }
  | _, _ => s

/-- After `await Promise.allSettled(…)` of the single cancellations -/
def afterEach (s : RunCleanup) : RunCleanup :=
  if s.phase = .cancellingEach ∧ allSettled s.cancelledEach then { s with phase := .knownRun } else s

/-- `knownRunCancellation` as a promise: the one of the call, whose rejection is caught, or one that
    is resolved -/
def knownRunPromise (s : RunCleanup) : Option (Except String Unit) :=
  match s.knownRunCancellation with
  | none => some (.ok ())
  | some p => p.outcome.map fun outcome => match outcome with
      | .ok _ => .ok ()
      | .error _ => .ok ()

/-- After `await knownRunCancellation` -/
def afterKnownRun (s : RunCleanup) : RunCleanup :=
  if s.phase = .knownRun then
    match s.knownRunPromise with
    | none => s
    | some outcome => { s with phase := .done, result := some outcome }
  else s

/-- The function runs on until it awaits a promise that is pending. -/
def proceed (s : RunCleanup) : RunCleanup := s.afterListing.afterMany.afterEach.afterKnownRun

/-- The handler on the cancellation of the known run -/
def catchKnownRun (s : RunCleanup) (outcome : Except String Unit) : RunCleanup :=
  match outcome with
  | .ok _ => s
  | .error e => { s with cancellationErrors := s.cancellationErrors ++ [e] }

/-- What is printed at the end, if anything went wrong -/
def warning (s : RunCleanup) : Option (List String) :=
  if s.phase = .done ∧ s.cancellationErrors ≠ [] then some s.cancellationErrors else none

/-- All calls of the client so far -/
def calls (s : RunCleanup) : List RunsCall :=
  s.knownRunCancellation.toList.map (·.call) ++ s.listedRuns.map (·.call) ++
    s.cancelledMany.toList.map (·.call) ++ s.cancelledEach.map (·.call)

end RunCleanup

/-- A promise settles. -/
inductive CleanupAction
  | knownRun (outcome : Except String Unit)
  | list (i : Nat) (outcome : Except String (List Json))
  | cancelMany (outcome : Except String Unit)
  | cancel (i : Nat) (outcome : Except String Unit)

/-- A pending promise with its outcome -/
def Promised.settle {α : Type} (p : Promised α) (outcome : Except String α) : Option (Promised α) :=
  if p.outcome.isNone then some { p with outcome := some outcome } else none

def cancelActiveThreadRuns : Lts RunCleanup CleanupAction where
  step s
    | .knownRun outcome => (s.knownRunCancellation.bind (·.settle outcome)).map fun p =>
        ({ s with knownRunCancellation := some p }.catchKnownRun outcome).proceed
    | .list i outcome => (s.listedRuns[i]?.bind (·.settle outcome)).map fun p =>
        { s with listedRuns := s.listedRuns.set i p }.proceed
    | .cancelMany outcome => (s.cancelledMany.bind (·.settle outcome)).map fun p =>
        { s with cancelledMany := some p }.proceed
    | .cancel i outcome => (s.cancelledEach[i]?.bind (·.settle outcome)).map fun p =>
        { s with cancelledEach := s.cancelledEach.set i p }.proceed

/-! ## The calls of each phase -/

namespace RunCleanup

/-- A run that is to be cancelled: the known one or one of a listing that resolved. An empty id
    counts as none. -/
def Targets (s : RunCleanup) (runId : String) : Prop :=
  runId ≠ "" ∧ (s.knownRunId = some runId ∨ ∃ run ∈ s.listed, runIdOf run = some runId)

theorem mem_addRunId {runIds : List String} {runId id : String} :
    id ∈ addRunId runIds runId ↔ id ∈ runIds ∨ id = runId := by
  unfold addRunId
  split
  · rename_i hmem
    constructor
    · exact .inl
    · rintro (h | rfl)
      · exact h
      · exact hmem
  · rw [List.mem_append, List.mem_singleton]

theorem mem_foldl_addRunId (added : List String) {runIds : List String} {id : String} :
    id ∈ added.foldl addRunId runIds ↔ id ∈ runIds ∨ id ∈ added := by
  induction added generalizing runIds with
  | nil => simp
  | cons runId rest ih =>
    rw [List.foldl_cons, ih, mem_addRunId, List.mem_cons, or_assoc]

theorem mem_exactRunIds {s : RunCleanup} {id : String} : id ∈ s.exactRunIds ↔ s.Targets id := by
  unfold exactRunIds Targets knownRun
  rw [mem_foldl_addRunId, List.mem_filter, List.mem_filterMap, Option.mem_toList,
    Option.filter_eq_some_iff]
  constructor
  · rintro (⟨hknown, hne⟩ | ⟨hlisted, hne⟩)
    · exact ⟨by simpa using hne, .inl hknown⟩
    · exact ⟨by simpa using hne, .inr hlisted⟩
  · rintro ⟨hne, hknown | hlisted⟩
    · exact .inl ⟨hknown, by simpa using hne⟩
    · exact .inr ⟨hlisted, by simpa using hne⟩

/-- `cancelMany` has been rejected. -/
def manyRejected (s : RunCleanup) : Bool :=
  match s.cancelledMany.bind (·.outcome) with
  | some (.error _) => true
  | _ => false

/-- **The invariant.** The phase says which calls have been made, and with which arguments. -/
structure Sound (s : RunCleanup) : Prop where
  known : s.knownRunCancellation.map (·.call) = s.knownRun.map (cancelCall s.threadId)
  lists : s.listedRuns.map (·.call) =
    activeRunStatuses.map fun status => .list s.threadId 100 status
  listing : s.phase = .listing → s.cancelledMany = none
  listed : s.phase ≠ .listing → allSettled s.listedRuns = true ∧
    s.cancelledMany.map (·.call) =
      if s.exactRunIds = [] then none
      else some (.cancelMany s.threadId s.exactRunIds "interrupt")
  waitsForMany : s.phase = .cancellingMany → s.exactRunIds ≠ []
  early : s.phase = .listing ∨ s.phase = .cancellingMany → s.cancelledEach = []
  late : s.phase ≠ .listing → s.phase ≠ .cancellingMany →
    (∀ p ∈ s.cancelledMany, p.outcome.isSome = true) ∧
      s.cancelledEach.map (·.call) =
        if s.manyRejected then s.exactRunIds.map (cancelCall s.threadId) else []
  result : s.result = if s.phase = .done then some (.ok ()) else none

theorem sound_start (threadId : String) (knownRunId : Option String) :
    (start threadId knownRunId).Sound := by
  refine ⟨?_, ?_, fun _ => rfl, fun h => absurd rfl h, fun h => absurd h (by simp [start]),
    fun _ => rfl, fun h => absurd rfl h, rfl⟩
  · simp [start, knownRun, Function.comp_def]
  · simp [start]

/-! ## Running on -/

/-- The listings are through, and what they have found is to be cancelled. -/
theorem Sound.afterListing {s : RunCleanup} (h : s.Sound) : s.afterListing.Sound := by
  unfold RunCleanup.afterListing
  split
  · rename_i hphase
    obtain ⟨hlisting, hsettled⟩ := hphase
    have hmany := h.listing hlisting
    have heach := h.early (.inl hlisting)
    have hresult := h.result
    rw [hlisting, if_neg (by simp)] at hresult
    simp only
    split
    · rename_i hempty
      have hnil : s.exactRunIds = [] := by simpa using hempty
      refine ⟨h.known, h.lists, fun hp => absurd hp (by simp), fun _ => ⟨hsettled, ?_⟩,
        fun hp => absurd hp (by simp), fun hp => absurd hp (by simp), fun _ _ => ⟨?_, ?_⟩, hresult⟩
      · show s.cancelledMany.map (·.call) = if s.exactRunIds = [] then none else _
        rw [hmany, if_pos hnil]
        rfl
      · intro p hp
        rw [show _ = s.cancelledMany from rfl, hmany] at hp
        exact absurd hp (by simp)
      · show s.cancelledEach.map (·.call) = _
        rw [heach]
        simp [manyRejected, hmany]
    · rename_i hempty
      have hne : s.exactRunIds ≠ [] := by simpa using hempty
      refine ⟨h.known, h.lists, fun hp => absurd hp (by simp), fun _ => ⟨hsettled, ?_⟩,
        fun _ => hne, fun _ => heach, fun _ hp => absurd rfl hp, hresult⟩
      show _ = if s.exactRunIds = [] then none else _
      rw [if_neg hne]
      rfl
  · exact h

/-- The joint cancellation is over, and the single ones are made if it was rejected. -/
theorem Sound.leaveMany {s : RunCleanup} (h : s.Sound) (hphase : s.phase = .cancellingMany)
    {outcome : Except String Unit} (hmany : s.cancelledMany.bind (·.outcome) = some outcome)
    {phase : CleanupPhase} {errors : List String} {each : List (Promised Unit)}
    (hlate : phase ≠ .listing ∧ phase ≠ .cancellingMany ∧ phase ≠ .done)
    (heach : each.map (·.call) =
      if s.manyRejected then s.exactRunIds.map (cancelCall s.threadId) else []) :
    ({ s with phase := phase, cancellationErrors := errors, cancelledEach := each }
      : RunCleanup).Sound := by
  have hresult := h.result
  rw [hphase, if_neg (by simp)] at hresult
  obtain ⟨hsettled, hcall⟩ := h.listed (by simp [hphase])
  refine ⟨h.known, h.lists, fun hp => absurd hp hlate.1, fun _ => ⟨hsettled, hcall⟩,
    fun hp => absurd hp hlate.2.1, fun hp => absurd hp (by simp [hlate]),
    fun _ _ => ⟨?_, heach⟩, ?_⟩
  · intro p hp
    rw [show s.cancelledMany = some p from hp, Option.bind_some] at hmany
    rw [hmany]
    rfl
  · rw [if_neg hlate.2.2]
    exact hresult

theorem Sound.afterMany {s : RunCleanup} (h : s.Sound) : s.afterMany.Sound := by
  unfold RunCleanup.afterMany
  split
  · rename_i hphase hmany
    refine h.leaveMany hphase hmany (by simp) ?_
    rw [h.early (.inr hphase)]
    simp [manyRejected, hmany]
  · rename_i e hphase hmany
    refine h.leaveMany hphase hmany (by simp) ?_
    have hrejected : s.manyRejected = true := by simp [manyRejected, hmany]
    rw [List.map_map, if_pos hrejected]
    rfl
  · exact h

/-- The phases after the cancellations differ in what is awaited only. -/
theorem Sound.setPhase {s : RunCleanup} (h : s.Sound) {phase : CleanupPhase}
    {result : Option (Except String Unit)} (hlisting : s.phase ≠ .listing)
    (hmany : s.phase ≠ .cancellingMany) (hlisting' : phase ≠ .listing)
    (hmany' : phase ≠ .cancellingMany)
    (hresult : result = if phase = .done then some (.ok ()) else none) :
    ({ s with phase := phase, result := result } : RunCleanup).Sound :=
  ⟨h.known, h.lists, fun hp => absurd hp hlisting', fun _ => h.listed hlisting,
    fun hp => absurd hp hmany', fun hp => absurd hp (by simp [hlisting', hmany']),
    fun _ _ => h.late hlisting hmany, hresult⟩

theorem Sound.afterEach {s : RunCleanup} (h : s.Sound) : s.afterEach.Sound := by
  unfold RunCleanup.afterEach
  split
  · rename_i hphase
    have hresult := h.result
    rw [hphase.1, if_neg (by simp)] at hresult
    exact h.setPhase (by simp [hphase.1]) (by simp [hphase.1]) (by simp) (by simp) hresult
  · exact h

/-- The rejection of the known run's cancellation is caught. -/
theorem knownRunPromise_ok {s : RunCleanup} {outcome : Except String Unit}
    (h : s.knownRunPromise = some outcome) : outcome = .ok () := by
  unfold knownRunPromise at h
  split at h
  · exact (Option.some.inj h).symm
  · obtain ⟨o, -, rfl⟩ := Option.map_eq_some_iff.mp h
    cases o with
    | ok _ => rfl
    | error _ => rfl

theorem Sound.afterKnownRun {s : RunCleanup} (h : s.Sound) : s.afterKnownRun.Sound := by
  unfold RunCleanup.afterKnownRun
  split
  · rename_i hphase
    split
    · exact h
    · rename_i outcome hknown
      rw [knownRunPromise_ok hknown]
      exact h.setPhase (by simp [hphase]) (by simp [hphase]) (by simp) (by simp) rfl
  · exact h

/-- Running on keeps the invariant. -/
theorem Sound.proceed {s : RunCleanup} (h : s.Sound) : s.proceed.Sound :=
  h.afterListing.afterMany.afterEach.afterKnownRun

/-! ## A promise settles -/

theorem settle_eq_some {α : Type} {p p' : Promised α} {outcome : Except String α}
    (h : p.settle outcome = some p') :
    p.outcome = none ∧ p' = { p with outcome := some outcome } := by
  unfold Promised.settle at h
  split at h
  · rename_i hnone
    exact ⟨by simpa using hnone, (Option.some.inj h).symm⟩
  · exact absurd h (by simp)

theorem map_call_set {α : Type} {promises : List (Promised α)} {i : Nat} {p : Promised α}
    (hi : promises[i]? = some p) (outcome : Option (Except String α)) :
    (promises.set i { p with outcome := outcome }).map (·.call) = promises.map (·.call) := by
  refine List.ext_getElem? fun j => ?_
  rw [List.map_set, List.getElem?_set]
  by_cases hij : i = j
  · subst hij
    obtain ⟨hlt, rfl⟩ := List.getElem?_eq_some_iff.mp hi
    simp [hlt]
  · rw [if_neg hij]

theorem not_allSettled {α : Type} {promises : List (Promised α)} {i : Nat} {p : Promised α}
    (hi : promises[i]? = some p) (hp : p.outcome = none) : allSettled promises ≠ true := by
  intro h
  have := List.all_eq_true.mp h p (List.mem_of_getElem? hi)
  rw [hp] at this
  exact absurd this (by simp)

/-- A promise settles. -/
theorem Sound.step {s s' : RunCleanup} {a : CleanupAction} (h : s.Sound)
    (hs : cancelActiveThreadRuns.step s a = some s') : s'.Sound := by
  cases a with
  | knownRun outcome =>
    obtain ⟨p', hp', rfl⟩ := Option.map_eq_some_iff.mp hs
    obtain ⟨p, hp, hsettle⟩ := Option.bind_eq_some_iff.mp hp'
    obtain ⟨-, rfl⟩ := settle_eq_some hsettle
    have hknown := h.known
    rw [hp] at hknown
    refine Sound.proceed ?_
    unfold catchKnownRun
    cases outcome with
    | ok _ => exact ⟨hknown, h.lists, h.listing, h.listed, h.waitsForMany, h.early, h.late, h.result⟩
    | error _ =>
      exact ⟨hknown, h.lists, h.listing, h.listed, h.waitsForMany, h.early, h.late, h.result⟩
  | list i outcome =>
    obtain ⟨p', hp', rfl⟩ := Option.map_eq_some_iff.mp hs
    obtain ⟨p, hp, hsettle⟩ := Option.bind_eq_some_iff.mp hp'
    obtain ⟨hnone, rfl⟩ := settle_eq_some hsettle
    -- a listing is pending, so nothing has been made of the listings yet
    have hphase : s.phase = .listing := by
      by_contra hne
      exact not_allSettled hp hnone (h.listed hne).1
    refine Sound.proceed ⟨h.known, ?_, h.listing, fun hne => absurd hphase hne,
      fun hm => absurd (hphase.symm.trans hm) (by simp), h.early, fun hne => absurd hphase hne, h.result⟩
    rw [← h.lists]
    exact map_call_set hp _
  | cancelMany outcome =>
    obtain ⟨p', hp', rfl⟩ := Option.map_eq_some_iff.mp hs
    obtain ⟨p, hp, hsettle⟩ := Option.bind_eq_some_iff.mp hp'
    obtain ⟨hnone, rfl⟩ := settle_eq_some hsettle
    have hphase : s.phase = .cancellingMany := by
      by_contra hne
      have hlisting : s.phase ≠ .listing := by
        intro he
        rw [h.listing he] at hp
        exact absurd hp (by simp)
      have := (h.late hlisting hne).1 p hp
      rw [hnone] at this
      exact absurd this (by simp)
    refine Sound.proceed ⟨h.known, h.lists, fun he => absurd (hphase.symm.trans he) (by simp),
      fun hne => ⟨(h.listed hne).1, ?_⟩, h.waitsForMany, h.early, fun _ hne => absurd hphase hne,
      h.result⟩
    have hcall := (h.listed hne).2
    rw [hp] at hcall
    exact hcall
  | cancel i outcome =>
    obtain ⟨p', hp', rfl⟩ := Option.map_eq_some_iff.mp hs
    obtain ⟨p, hp, hsettle⟩ := Option.bind_eq_some_iff.mp hp'
    obtain ⟨-, rfl⟩ := settle_eq_some hsettle
    have hsome : s.cancelledEach ≠ [] := by
      intro hnil
      rw [hnil] at hp
      exact absurd hp (by simp)
    refine Sound.proceed ⟨h.known, h.lists, h.listing, h.listed, h.waitsForMany,
      fun hp => absurd (h.early hp) hsome, fun hl hm => ⟨(h.late hl hm).1, ?_⟩, h.result⟩
    rw [show _ = (s.cancelledEach.set i _).map (·.call) from rfl, map_call_set hp]
    exact (h.late hl hm).2

/-! ## What the function awaits -/

/-- The function stops only at a promise that is pending. -/
structure Awaits (s : RunCleanup) : Prop where
  listing : s.phase = .listing → allSettled s.listedRuns = false
  many : s.phase = .cancellingMany → s.cancelledMany.bind (·.outcome) = none
  each : s.phase = .cancellingEach → allSettled s.cancelledEach = false
  knownRun : s.phase = .knownRun → s.knownRunPromise = none

theorem afterListing_phase (s : RunCleanup) :
    s.afterListing.phase = .listing → allSettled s.afterListing.listedRuns = false := by
  unfold afterListing
  split
  · simp only
    split
    · intro hp
      exact absurd hp (by simp)
    · intro hp
      exact absurd hp (by simp)
  · rename_i hnot
    intro hp
    simpa [hp] using hnot

theorem afterMany_phase (s : RunCleanup) :
    (s.afterMany.phase = .listing → s.afterMany = s) ∧
      (s.afterMany.phase = .cancellingMany → s.afterMany.cancelledMany.bind (·.outcome) = none) := by
  unfold afterMany
  split
  · exact ⟨fun hp => absurd hp (by simp), fun hp => absurd hp (by simp)⟩
  · exact ⟨fun hp => absurd hp (by simp), fun hp => absurd hp (by simp)⟩
  · rename_i hok herror
    refine ⟨fun _ => rfl, fun hp => ?_⟩
    cases hmany : s.cancelledMany.bind (·.outcome) with
    | none => rfl
    | some outcome =>
      cases outcome with
      | ok u => exact absurd hmany (hok u hp)
      | error e => exact absurd hmany (herror e hp)

theorem afterEach_phase (s : RunCleanup) :
    (s.afterEach.phase ≠ .knownRun → s.afterEach = s) ∧
      (s.afterEach.phase = .cancellingEach → allSettled s.afterEach.cancelledEach = false) := by
  unfold afterEach
  split
  · exact ⟨fun hp => absurd rfl hp, fun hp => absurd hp (by simp)⟩
  · rename_i hnot
    refine ⟨fun _ => rfl, fun hp => ?_⟩
    simpa [hp] using hnot

theorem afterKnownRun_phase (s : RunCleanup) :
    (s.afterKnownRun.phase ≠ .done → s.afterKnownRun = s) ∧
      (s.afterKnownRun.phase = .knownRun → s.afterKnownRun.knownRunPromise = none) := by
  unfold afterKnownRun
  split
  · split
    · rename_i hnone
      exact ⟨fun _ => rfl, fun _ => hnone⟩
    · exact ⟨fun hp => absurd rfl hp, fun hp => absurd hp (by simp)⟩
  · rename_i hnot
    exact ⟨fun _ => rfl, fun hp => absurd hp hnot⟩

/-- Running on ends at a pending promise, or at the end. -/
theorem awaits_proceed (s : RunCleanup) : s.proceed.Awaits := by
  have hknown := afterKnownRun_phase s.afterListing.afterMany.afterEach
  have heach := afterEach_phase s.afterListing.afterMany
  have hmany := afterMany_phase s.afterListing
  -- in a phase that is not the last, the functions for the later phases have done nothing
  have hback : s.proceed.phase ≠ .done → s.proceed.phase ≠ .knownRun →
      s.proceed = s.afterListing.afterMany := by
    intro hdone hp
    have h₁ : s.proceed = s.afterListing.afterMany.afterEach := hknown.1 hdone
    rw [h₁] at hp
    exact h₁.trans (heach.1 hp)
  refine ⟨fun hp => ?_, fun hp => ?_, fun hp => ?_, fun hp => hknown.2 hp⟩
  · have h₁ := hback (by simp [hp]) (by simp [hp])
    rw [h₁] at hp ⊢
    have h₂ := hmany.1 hp
    rw [h₂] at hp ⊢
    exact afterListing_phase s hp
  · have h₁ := hback (by simp [hp]) (by simp [hp])
    rw [h₁] at hp ⊢
    exact hmany.2 hp
  · have hdone : s.proceed.phase ≠ .done := by simp [hp]
    have h₁ : s.proceed = s.afterListing.afterMany.afterEach := hknown.1 hdone
    rw [h₁] at hp ⊢
    exact heach.2 hp

theorem awaits_start (threadId : String) (knownRunId : Option String) :
    (start threadId knownRunId).Awaits := by
  refine ⟨fun _ => rfl, fun hp => absurd hp (by simp [start]), fun hp => absurd hp (by simp [start]),
    fun hp => absurd hp (by simp [start])⟩

theorem awaits_step {s s' : RunCleanup} {a : CleanupAction}
    (hs : cancelActiveThreadRuns.step s a = some s') : s'.Awaits := by
  cases a with
  | knownRun outcome =>
    obtain ⟨_, -, rfl⟩ := Option.map_eq_some_iff.mp hs
    exact awaits_proceed _
  | list i outcome =>
    obtain ⟨_, -, rfl⟩ := Option.map_eq_some_iff.mp hs
    exact awaits_proceed _
  | cancelMany outcome =>
    obtain ⟨_, -, rfl⟩ := Option.map_eq_some_iff.mp hs
    exact awaits_proceed _
  | cancel i outcome =>
    obtain ⟨_, -, rfl⟩ := Option.map_eq_some_iff.mp hs
    exact awaits_proceed _

/-- Every call of the client has been answered. -/
def Answered (s : RunCleanup) : Prop :=
  (∀ p ∈ s.knownRunCancellation, p.outcome.isSome = true) ∧ allSettled s.listedRuns = true ∧
    (∀ p ∈ s.cancelledMany, p.outcome.isSome = true) ∧ allSettled s.cancelledEach = true

/-- **The function comes to its end** once the client has answered all calls. -/
theorem Sound.ends {s : RunCleanup} (h : s.Sound) (hw : s.Awaits) (ha : s.Answered) :
    s.phase = .done := by
  obtain ⟨hknown, hlists, hmany, heach⟩ := ha
  cases hphase : s.phase with
  | listing =>
    have := hw.listing hphase
    rw [hlists] at this
    exact absurd this (by simp)
  | cancellingMany =>
    have hcall := (h.listed (by simp [hphase])).2
    rw [if_neg (h.waitsForMany hphase)] at hcall
    obtain ⟨p, hp, -⟩ := Option.map_eq_some_iff.mp hcall
    have hnone := hw.many hphase
    have hsome := hmany p hp
    rw [hp, Option.bind_some] at hnone
    rw [hnone] at hsome
    exact absurd hsome (by simp)
  | cancellingEach =>
    have := hw.each hphase
    rw [heach] at this
    exact absurd this (by simp)
  | knownRun =>
    have hnone := hw.knownRun hphase
    unfold knownRunPromise at hnone
    split at hnone
    · exact absurd hnone (by simp)
    · rename_i p hp
      have hsome := hknown p hp
      rw [Option.map_eq_none_iff] at hnone
      rw [hnone] at hsome
      exact absurd hsome (by simp)
  | done => rfl

/-! ## The calls that were made -/

/-- **What the function asks of the client**: the eager cancellation, the listings, the joint
    cancellation and the single ones. -/
theorem Sound.calls_cases {s : RunCleanup} (h : s.Sound) {call : RunsCall} (hc : call ∈ s.calls) :
    (∃ id, s.Targets id ∧ call = cancelCall s.threadId id) ∨
      (∃ status, call = .list s.threadId 100 status) ∨
      call = .cancelMany s.threadId s.exactRunIds "interrupt" := by
  simp only [calls, List.mem_append] at hc
  rcases hc with ((hc | hc) | hc) | hc
  · obtain ⟨p, hp, rfl⟩ := List.mem_map.mp hc
    have hcall := h.known
    rw [Option.mem_toList.mp hp, Option.map_some] at hcall
    obtain ⟨id, hid, hcall⟩ := Option.map_eq_some_iff.mp hcall.symm
    obtain ⟨hknown, hne⟩ := Option.filter_eq_some_iff.mp hid
    exact .inl ⟨id, ⟨by simpa using hne, .inl hknown⟩, hcall.symm⟩
  · rw [h.lists] at hc
    obtain ⟨status, -, rfl⟩ := List.mem_map.mp hc
    exact .inr (.inl ⟨status, rfl⟩)
  · obtain ⟨p, hp, rfl⟩ := List.mem_map.mp hc
    rw [Option.mem_toList] at hp
    have hphase : s.phase ≠ .listing := by
      intro he
      rw [h.listing he] at hp
      exact absurd hp (by simp)
    have hcall := (h.listed hphase).2
    rw [hp, Option.map_some] at hcall
    split at hcall
    · exact absurd hcall (by simp)
    · exact .inr (.inr (Option.some.inj hcall))
  · have hne : s.cancelledEach ≠ [] := by
      intro hnil
      rw [hnil] at hc
      exact absurd hc (by simp)
    rw [(h.late (fun he => hne (h.early (.inl he))) (fun he => hne (h.early (.inr he)))).2] at hc
    split at hc
    · obtain ⟨id, hid, rfl⟩ := List.mem_map.mp hc
      exact .inl ⟨id, mem_exactRunIds.mp hid, rfl⟩
    · exact absurd hc (by simp)

/-- Every target is in the joint cancellation, once the listings are through. -/
theorem Sound.attempts {s : RunCleanup} (h : s.Sound) (hphase : s.phase ≠ .listing) {id : String}
    (hid : s.Targets id) : .cancelMany s.threadId s.exactRunIds "interrupt" ∈ s.calls := by
  have hcall := (h.listed hphase).2
  rw [if_neg (List.ne_nil_of_mem (mem_exactRunIds.mpr hid))] at hcall
  obtain ⟨p, hp, hcall⟩ := Option.map_eq_some_iff.mp hcall
  simp only [calls, List.mem_append]
  exact .inl (.inr (List.mem_map.mpr ⟨p, Option.mem_toList.mpr hp, hcall⟩))

theorem proceed_args (s : RunCleanup) :
    s.proceed.threadId = s.threadId ∧ s.proceed.knownRunId = s.knownRunId := by
  have hlisting (s : RunCleanup) :
      s.afterListing.threadId = s.threadId ∧ s.afterListing.knownRunId = s.knownRunId := by
    unfold afterListing
    simp only
    split
    · split
      · exact ⟨rfl, rfl⟩
      · exact ⟨rfl, rfl⟩
    · exact ⟨rfl, rfl⟩
  have hmany (s : RunCleanup) :
      s.afterMany.threadId = s.threadId ∧ s.afterMany.knownRunId = s.knownRunId := by
    unfold afterMany
    split
    · exact ⟨rfl, rfl⟩
    · exact ⟨rfl, rfl⟩
    · exact ⟨rfl, rfl⟩
  have heach (s : RunCleanup) :
      s.afterEach.threadId = s.threadId ∧ s.afterEach.knownRunId = s.knownRunId := by
    unfold afterEach
    split
    · exact ⟨rfl, rfl⟩
    · exact ⟨rfl, rfl⟩
  have hknown (s : RunCleanup) :
      s.afterKnownRun.threadId = s.threadId ∧ s.afterKnownRun.knownRunId = s.knownRunId := by
    unfold afterKnownRun
    split
    · split
      · exact ⟨rfl, rfl⟩
      · exact ⟨rfl, rfl⟩
    · exact ⟨rfl, rfl⟩
  unfold proceed
  exact ⟨by rw [(hknown _).1, (heach _).1, (hmany _).1, (hlisting _).1],
    by rw [(hknown _).2, (heach _).2, (hmany _).2, (hlisting _).2]⟩

theorem step_args {s s' : RunCleanup} {a : CleanupAction}
    (hs : cancelActiveThreadRuns.step s a = some s') :
    s'.threadId = s.threadId ∧ s'.knownRunId = s.knownRunId := by
  cases a with
  | knownRun outcome =>
    obtain ⟨_, -, rfl⟩ := Option.map_eq_some_iff.mp hs
    cases outcome with
    | ok _ => exact proceed_args _
    | error _ => exact proceed_args _
  | list i outcome =>
    obtain ⟨_, -, rfl⟩ := Option.map_eq_some_iff.mp hs
    exact proceed_args _
  | cancelMany outcome =>
    obtain ⟨_, -, rfl⟩ := Option.map_eq_some_iff.mp hs
    exact proceed_args _
  | cancel i outcome =>
    obtain ⟨_, -, rfl⟩ := Option.map_eq_some_iff.mp hs
    exact proceed_args _

end RunCleanup

/-- **Cancellation is exact and best effort**, whatever the client answers and in whatever order:
    the function never rejects and ends once all calls are answered, every call is for the thread,
    no other run is asked to be cancelled at any time, and in the end every run of the set has been,
    each by a call of its own when the joint cancellation was rejected. -/
theorem cancellation_exact (threadId : String) (knownRunId : Option String) (s : RunCleanup)
    (h : cancelActiveThreadRuns.Reach Lts.Anything (.start threadId knownRunId) s) :
    s.knownRunId = knownRunId ∧ (∀ e, s.result ≠ some (.error e)) ∧
      (s.Answered → s.result = some (.ok ())) ∧
      (∀ call ∈ s.calls, call.threadId = threadId ∧ ∀ id ∈ call.targets, s.Targets id) ∧
      (s.result.isSome = true → ∀ id, s.Targets id →
        (∃ call ∈ s.calls, id ∈ call.targets) ∧
        (s.manyRejected = true → RunCleanup.cancelCall threadId id ∈ s.cancelledEach.map (·.call))) := by
  obtain ⟨hsound, hawaits, rfl, rfl⟩ : s.Sound ∧ s.Awaits ∧ s.threadId = threadId ∧
      s.knownRunId = knownRunId := by
    refine h.invariant (I := fun s => s.Sound ∧ s.Awaits ∧ s.threadId = threadId ∧
      s.knownRunId = knownRunId) ⟨RunCleanup.sound_start _ _, RunCleanup.awaits_start _ _, rfl, rfl⟩ ?_
    intro s a s' ⟨hsound, _, hthread, hknown⟩ _ hs
    have hargs := RunCleanup.step_args hs
    exact ⟨hsound.step hs, RunCleanup.awaits_step hs, hargs.1.trans hthread, hargs.2.trans hknown⟩
  have hresult := hsound.result
  refine ⟨rfl, ?_, ?_, ?_, ?_⟩
  · intro e he
    rw [hresult] at he
    split at he
    · exact absurd he (by simp)
    · exact absurd he (by simp)
  · intro hanswered
    rw [hresult, if_pos (hsound.ends hawaits hanswered)]
  · intro call hc
    rcases hsound.calls_cases hc with ⟨id, hid, rfl⟩ | ⟨status, rfl⟩ | rfl
    · refine ⟨rfl, fun id' hid' => ?_⟩
      rw [RunCleanup.cancelCall, RunsCall.targets, List.mem_singleton] at hid'
      rw [hid']
      exact hid
    · exact ⟨rfl, fun id' hid' => absurd hid' (by simp [RunsCall.targets])⟩
    · exact ⟨rfl, fun id' hid' => RunCleanup.mem_exactRunIds.mp hid'⟩
  · intro hended id hid
    have hphase : s.phase = .done := by
      by_contra hne
      rw [hresult, if_neg hne] at hended
      exact absurd hended (by simp)
    have hmem := RunCleanup.mem_exactRunIds.mpr hid
    refine ⟨⟨_, hsound.attempts (by simp [hphase]) hid, hmem⟩, fun hrejected => ?_⟩
    rw [(hsound.late (by simp [hphase]) (by simp [hphase])).2, if_pos hrejected]
    exact List.mem_map_of_mem hmem

/-- A listing may hold a run whose id is the empty string. -/
theorem empty_run_id_not_cancelled :
    ¬ ∀ s, cancelActiveThreadRuns.Reach Lts.Anything (.start "thread-a" none) s →
      s.result.isSome = true → ∀ run ∈ s.listed, ∀ id, runIdOf run = some id →
        ∃ call ∈ s.calls, id ∈ call.targets := by
  intro h
  obtain ⟨s, hs, hp⟩ := Lts.exists_of_run cancelActiveThreadRuns (.start "thread-a" none)
    [.list 0 (.ok [.obj [("run_id", .str "")]]), .list 1 (.ok [])]
    (P := fun s => s.result.isSome && s.listed.contains (.obj [("run_id", .str "")]) &&
      s.calls.all fun call => !call.targets.contains "") (by decide)
  simp only [Bool.and_eq_true, List.contains_iff_mem, List.all_eq_true] at hp
  obtain ⟨⟨hended, hlisted⟩, hnone⟩ := hp
  obtain ⟨call, hc, hid⟩ := h s hs hended _ hlisted "" rfl
  have hout := hnone call hc
  rw [List.contains_iff_mem.mpr hid] at hout
  exact absurd hout (by decide)

/-- The known run and a listed one, when everything but one listing fails -/
theorem cancellation_exact_rejected :
    ∃ s, cancelActiveThreadRuns.Reach Lts.Anything (.start "thread-a" (some "known")) s ∧
      s.result = some (.ok ()) ∧
      RunCleanup.cancelCall "thread-a" "late" ∈ s.cancelledEach.map (·.call) := by
  obtain ⟨s, hs, hp⟩ := Lts.exists_of_run cancelActiveThreadRuns (.start "thread-a" (some "known"))
    [.list 1 (.ok [.obj [("run_id", .str "late")]]), .list 0 (.error "timeout"),
      .cancelMany (.error "not found"), .knownRun (.error "not found"), .cancel 1 (.ok ()),
      .cancel 0 (.error "not found")]
    (P := fun s => s.result == some (.ok ()) && s.manyRejected &&
      s.listed.contains (.obj [("run_id", .str "late")])) (by decide)
  simp only [Bool.and_eq_true, beq_iff_eq, List.contains_iff_mem] at hp
  obtain ⟨⟨hended, hrejected⟩, hlisted⟩ := hp
  have hexact := (cancellation_exact "thread-a" (some "known") s hs).2.2.2.2 (by rw [hended]; rfl)
    "late" ⟨by decide, .inr ⟨_, hlisted, rfl⟩⟩
  exact ⟨s, hs, hended, hexact.2 hrejected⟩

end Frontend

end HyChat
