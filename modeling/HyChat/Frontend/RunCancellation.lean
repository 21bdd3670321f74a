import HyChat.Lib.Lts

/-!
# Cancelling runs in the browser

The stream provider lets nothing be submitted while a cancellation settles. One flag and one
generation counter stand for all the cancellations that are in flight: each takes a generation of
its own when it starts, and the one that carries the newest clears the flag when it is done.

A submission that has passed the guard gets a number here, so that it can be said which of them
were there when a cancellation started. The server creates its run some time later.

The provider is one mounted component from the first step to the last: mounting it again, which a
new page, a new access token or another API address does, starts from `initial` while what was in
flight goes on, and that is outside these runs. What `cancelActiveThreadRuns` does between its
requests, and over how long, is the subject of `CancelRuns`; here it is two moments, the listing
and the cancelling.
-/

set_option autoImplicit false

namespace HyChat

open Lib

namespace Frontend

/-- A call of `cancelThreadRuns` that has not reached its `finally` block. -/
structure Cancellation where
  generation : Nat
  threadId : String
  /-- The run ids to cancel: the known one, and after the listing the active ones as well -/
  runIds : List Nat
  /-- How many submissions had passed the guard when it started -/
  submittedBefore : Nat

/-- A run that `cancelMany` was asked to cancel, by a cancellation as old as that. -/
structure CancelledRun where
  runId : Nat
  submittedBefore : Nat

structure StreamState where
  cancellationGeneration : Nat
  cancellationThreadId : Option String
  isRunSettling : Bool
  runThreadId : Option String
  /-- `streamRef.current.threadId` -/
  streamThreadId : Option String
  currentThreadId : Option String
  /-- The thread and the run of `activeRunRef` -/
  activeRun : Option (String × Nat)
  pending : List Cancellation
  submissions : Nat
  /-- Submissions the server has not seen yet, with their threads -/
  posted : List (Nat × String)
  /-- The server's pending and running runs -/
  runs : List (Nat × String)
  cancelled : List CancelledRun

def StreamState.initial : StreamState :=
  ⟨0, none, false, none, none, none, none, [], 0, [], [], []⟩

inductive StreamAction
  /-- `stopCurrentRun`, by the user, the watchdog, the reconciler or a switch of threads -/
  | stop (cancel : Bool) (targetThreadId : Option String)
  /-- The listing of `cancelActiveThreadRuns` arrives. -/
  | list (generation : Nat)
  /-- `cancelMany` reaches the server. -/
  | cancelMany (generation : Nat)
  /-- The `finally` block of `cancelThreadRuns` -/
  | settle (generation : Nat)
  /-- `submitWithTimeout`, with its thread option -/
  | submit (threadId : Option String)
  /-- `respondWithTimeout` and `respondAllWithTimeout` -/
  | respond
  /-- The server creates the run of a submission and `onCreated` is called, by the current
      controller or by one that has been replaced. -/
  | created (runId : Nat) (currentController : Bool)
  /-- A run ends by itself. -/
  | finished (runId : Nat)
  /-- The page shows another thread. -/
  | showThread (threadId : Option String)
  deriving DecidableEq

namespace StreamState

/-- The guard of the three submitting functions. -/
def passesGuard (s : StreamState) : Bool := !s.isRunSettling

/-- The synchronous part of `cancelThreadRuns`. -/
def startCancellation (s : StreamState) (targetThreadId : String) (knownRunId : Option Nat) :
    StreamState :=
  let generation := s.cancellationGeneration + 1
  { s with
    cancellationGeneration := generation
    cancellationThreadId := some targetThreadId
    isRunSettling := true
    pending := s.pending ++ [⟨generation, targetThreadId, knownRunId.toList, s.submissions⟩] }

def stopCurrentRun (s : StreamState) (cancel : Bool) (targetThreadId : Option String) :
    StreamState :=
  let target := targetThreadId <|> s.runThreadId <|> s.streamThreadId <|> s.currentThreadId
  let activeRun := s.activeRun.filter fun run => some run.1 == target
  let stopped := { s with activeRun := none }
  match cancel, target with
  | true, some thread => stopped.startCancellation thread (activeRun.map (·.2))
  | _, _ => stopped

/-- The part after the guard: the submission is on its way to the thread. -/
def post (s : StreamState) (threadId : Option String) : StreamState :=
  { s with
    runThreadId := threadId
    submissions := s.submissions + 1
    posted := s.posted ++ (threadId.map fun t => (s.submissions, t)).toList }

def submitWithTimeout (s : StreamState) (threadId : Option String) : StreamState :=
  if s.passesGuard then
    { s with activeRun := none }.post (threadId <|> s.streamThreadId <|> s.currentThreadId)
  else s

def respondWithTimeout (s : StreamState) : StreamState :=
  if s.passesGuard then s.post (s.streamThreadId <|> s.currentThreadId) else s

/-- The ids `runs.list` answers for a thread. -/
def runIdsOf (s : StreamState) (threadId : String) : List Nat :=
  (s.runs.filter fun run => run.2 == threadId).map (·.1)

def onCreated (s : StreamState) (runId : Nat) (threadId : String) (currentController : Bool) :
    StreamState :=
  if !currentController || s.cancellationThreadId == some threadId then
    -- cancelRunExactly
    { s with runs := s.runs.filter fun run => run.1 != runId }
  else { s with activeRun := some (threadId, runId) }

/-- The `finally` block: only the newest generation clears the flag. -/
def settle (s : StreamState) (generation : Nat) : StreamState :=
  let pending := s.pending.filter fun c => c.generation != generation
  if s.cancellationGeneration = generation then
    { s with cancellationThreadId := none, isRunSettling := false, pending := pending }
  else { s with pending := pending }

end StreamState

/-- The cancellation in flight with this generation. -/
def StreamState.inFlight (s : StreamState) (generation : Nat) : Option Cancellation :=
  s.pending.find? fun c => c.generation == generation

def streamProvider : Lts StreamState StreamAction where
  step s
    | .stop cancel target => some (s.stopCurrentRun cancel target)
    | .list g => (s.inFlight g).map fun c =>
        let listed := { c with runIds := c.runIds ++ s.runIdsOf c.threadId }
        { s with pending := s.pending.map fun d => if d.generation = g then listed else d }
    | .cancelMany g => (s.inFlight g).map fun c =>
        { s with
          runs := s.runs.filter fun run => !c.runIds.contains run.1
          cancelled := s.cancelled ++ c.runIds.map fun id => ⟨id, c.submittedBefore⟩ }
    | .settle g => (s.inFlight g).map fun _ => s.settle g
    | .submit threadId => some (s.submitWithTimeout threadId)
    | .respond => some s.respondWithTimeout
    | .created id current => (s.posted.find? fun p => p.1 == id).map fun p =>
        let arrived := { s with
          posted := s.posted.filter fun q => q.1 != id
          runs := s.runs ++ [p] }
        arrived.onCreated p.1 p.2 current
    | .finished id => some { s with runs := s.runs.filter fun run => run.1 != id }
    | .showThread threadId => some { s with currentThreadId := threadId, runThreadId := threadId }

/-! ## The guard and the cancellations in flight -/

/-- The guard passes only when nothing is in flight. -/
def StreamState.GuardHolds (s : StreamState) : Prop := s.passesGuard = true → s.pending = []

/-- When the cancellation with the newest generation settles, no other is in flight. -/
def NewestIsAlone (s : StreamState) (a : StreamAction) : Prop :=
  a = .settle s.cancellationGeneration →
    ∀ c ∈ s.pending, c.generation = s.cancellationGeneration

/-- What the browser keeps: the guard, and that every run it knows of belongs to a submission
    made before. -/
structure StreamState.Settled (s : StreamState) : Prop where
  guarded : s.GuardHolds
  posted : ∀ p ∈ s.posted, p.1 < s.submissions
  runs : ∀ run ∈ s.runs, run.1 < s.submissions
  active : ∀ run ∈ s.activeRun, run.2 < s.submissions
  /-- Nothing has been submitted since a cancellation in flight started. -/
  quiet : ∀ c ∈ s.pending, c.submittedBefore = s.submissions
  targets : ∀ c ∈ s.pending, ∀ id ∈ c.runIds, id < c.submittedBefore
  cancelled : ∀ run ∈ s.cancelled, run.runId < run.submittedBefore

theorem settled_initial : StreamState.initial.Settled := by
  constructor
  · intro _
    rfl
  all_goals intro _ h; exact absurd h (by simp [StreamState.initial])

theorem inFlight_mem {s : StreamState} {g : Nat} {c : Cancellation} (h : s.inFlight g = some c) :
    c ∈ s.pending ∧ c.generation = g := by
  have hg := List.find?_some h
  exact ⟨List.mem_of_find?_eq_some h, by simpa using hg⟩

/-- The flag is up while anything is in flight. -/
theorem settling_of_mem {s : StreamState} {c : Cancellation} (h : s.GuardHolds)
    (hc : c ∈ s.pending) : s.isRunSettling = true := by
  cases hs : s.isRunSettling with
  | true => rfl
  | false =>
    have hnil := h (by simp [StreamState.passesGuard, hs])
    rw [hnil] at hc
    exact absurd hc (by simp)

/-! ## One step -/

theorem Settled.startCancellation {s : StreamState} {t : String} {known : Option Nat}
    (h : s.Settled) (hk : ∀ id ∈ known, id < s.submissions) :
    (s.startCancellation t known).Settled := by
  refine ⟨?_, h.posted, h.runs, h.active, ?_, ?_, h.cancelled⟩
  · intro hp
    exact absurd hp (by simp [StreamState.passesGuard, StreamState.startCancellation])
  · intro c hc
    rcases List.mem_append.mp hc with hc | hc
    · exact h.quiet c hc
    · rw [List.mem_singleton] at hc
      rw [hc]
      rfl
  · intro c hc
    rcases List.mem_append.mp hc with hc | hc
    · exact h.targets c hc
    · rw [List.mem_singleton] at hc
      subst hc
      intro id hid
      exact hk id (by simpa using hid)

theorem Settled.stop {s : StreamState} (h : s.Settled) (cancel : Bool) (target : Option String) :
    (s.stopCurrentRun cancel target).Settled := by
  have hstopped : ({ s with activeRun := none } : StreamState).Settled :=
    ⟨h.guarded, h.posted, h.runs, fun _ hr => absurd hr (by simp), h.quiet, h.targets, h.cancelled⟩
  unfold StreamState.stopCurrentRun
  simp only
  split
  · refine Settled.startCancellation hstopped ?_
    intro id hid
    simp only [Option.mem_def, Option.map_eq_some_iff] at hid
    obtain ⟨run, hrun, rfl⟩ := hid
    exact h.active run (Option.mem_filter_iff.mp hrun).1
  · exact hstopped

theorem Settled.post {s : StreamState} (h : s.Settled) (hp : s.passesGuard = true)
    (threadId : Option String) : (s.post threadId).Settled := by
  have hnil := h.guarded hp
  refine ⟨h.guarded, ?_, ?_, ?_, ?_, ?_, h.cancelled⟩
  · intro p hm
    rcases List.mem_append.mp hm with hm | hm
    · exact Nat.lt_succ_of_lt (h.posted p hm)
    · cases threadId with
      | none => exact absurd hm (by simp)
      | some t =>
        simp only [Option.map_some, Option.toList_some, List.mem_singleton] at hm
        subst hm
        exact Nat.lt_succ_self _
  · exact fun run hr => Nat.lt_succ_of_lt (h.runs run hr)
  · exact fun run hr => Nat.lt_succ_of_lt (h.active run hr)
  · intro c hc
    replace hc : c ∈ s.pending := hc
    rw [hnil] at hc
    exact absurd hc (by simp)
  · exact h.targets

theorem Settled.list {s : StreamState} (h : s.Settled) {g : Nat} {c : Cancellation}
    (hc : s.inFlight g = some c) :
    ({ s with pending := s.pending.map fun d =>
        if d.generation = g then { c with runIds := c.runIds ++ s.runIdsOf c.threadId } else d } :
      StreamState).Settled := by
  obtain ⟨hmem, -⟩ := inFlight_mem hc
  refine ⟨?_, h.posted, h.runs, h.active, ?_, ?_, h.cancelled⟩
  · intro hp
    have hnil := h.guarded hp
    simp [hnil]
  · intro d hd
    obtain ⟨e, he, rfl⟩ := List.mem_map.mp hd
    split
    · exact h.quiet c hmem
    · exact h.quiet e he
  · intro d hd
    obtain ⟨e, he, rfl⟩ := List.mem_map.mp hd
    split
    · intro id hid
      rcases List.mem_append.mp hid with hid | hid
      · exact h.targets c hmem id hid
      · obtain ⟨run, hrun, rfl⟩ := List.mem_map.mp hid
        have hlt := h.runs run (List.mem_filter.mp hrun).1
        -- nothing was submitted since, so every run the listing finds was there before
        show run.1 < c.submittedBefore
        rw [h.quiet c hmem]
        exact hlt
    · exact h.targets e he

theorem Settled.created {s : StreamState} (h : s.Settled) {p : Nat × String} (hp : p ∈ s.posted)
    (current : Bool) :
    (({ s with
        posted := s.posted.filter fun q => q.1 != p.1
        runs := s.runs ++ [p] } : StreamState).onCreated p.1 p.2 current).Settled := by
  have hposted : ∀ q ∈ s.posted.filter fun q => q.1 != p.1, q.1 < s.submissions :=
    fun q hq => h.posted q (List.mem_filter.mp hq).1
  have hruns : ∀ run ∈ s.runs ++ [p], run.1 < s.submissions := by
    intro run hr
    rcases List.mem_append.mp hr with hr | hr
    · exact h.runs run hr
    · rw [List.mem_singleton] at hr
      rw [hr]
      exact h.posted p hp
  unfold StreamState.onCreated
  split
  · exact ⟨h.guarded, hposted, fun run hr => hruns run (List.mem_filter.mp hr).1, h.active, h.quiet,
      h.targets, h.cancelled⟩
  · refine ⟨h.guarded, hposted, hruns, ?_, h.quiet, h.targets, h.cancelled⟩
    intro run hr
    cases hr
    exact h.posted p hp

/-- A cancellation that settles keeps the guard exactly when it is not the newest of several. -/
theorem settle_guardHolds_iff {s : StreamState} {g : Nat} {c : Cancellation} (h : s.Settled)
    (hc : s.inFlight g = some c) :
    (s.settle g).GuardHolds ↔ NewestIsAlone s (.settle g) := by
  obtain ⟨hmem, hgen⟩ := inFlight_mem hc
  by_cases hg : s.cancellationGeneration = g
  · subst hg
    have hiff : (s.pending.filter fun d => d.generation != s.cancellationGeneration) = [] ↔
        ∀ d ∈ s.pending, d.generation = s.cancellationGeneration := by
      simp [List.filter_eq_nil_iff]
    constructor
    · intro hgh _
      apply hiff.mp
      simpa [StreamState.settle, StreamState.GuardHolds, StreamState.passesGuard] using hgh
    · intro hn _
      simpa [StreamState.settle] using hiff.mpr (hn rfl)
  · constructor
    · intro _ he
      simp only [StreamAction.settle.injEq] at he
      exact absurd he.symm hg
    · intro _ hp
      have hup := settling_of_mem h.guarded hmem
      simp [StreamState.settle, hg, StreamState.passesGuard, hup] at hp

theorem Settled.settle {s : StreamState} (h : s.Settled) {g : Nat} (hg : (s.settle g).GuardHolds) :
    (s.settle g).Settled := by
  have hsub : ∀ c ∈ s.pending.filter fun c => c.generation != g, c ∈ s.pending :=
    fun c hc => (List.mem_filter.mp hc).1
  unfold StreamState.settle at hg ⊢
  simp only at hg ⊢
  split
  · rename_i he
    rw [if_pos he] at hg
    exact ⟨hg, h.posted, h.runs, h.active, fun c hc => h.quiet c (hsub c hc),
      fun c hc => h.targets c (hsub c hc), h.cancelled⟩
  · rename_i he
    rw [if_neg he] at hg
    exact ⟨hg, h.posted, h.runs, h.active, fun c hc => h.quiet c (hsub c hc),
      fun c hc => h.targets c (hsub c hc), h.cancelled⟩

/-- A step other than a settling one keeps everything; a settling one all but the guard. -/
theorem settled_step {s s' : StreamState} {a : StreamAction} (h : s.Settled)
    (hs : streamProvider.step s a = some s') :
    s'.Settled ∨ ∃ g c, a = .settle g ∧ s.inFlight g = some c ∧ s' = s.settle g := by
  cases a with
  | stop cancel target =>
    simp only [streamProvider, Option.some.injEq] at hs
    subst hs
    exact .inl (Settled.stop h cancel target)
  | list g =>
    simp only [streamProvider, Option.map_eq_some_iff] at hs
    obtain ⟨c, hc, rfl⟩ := hs
    exact .inl (Settled.list h hc)
  | cancelMany g =>
    simp only [streamProvider, Option.map_eq_some_iff] at hs
    obtain ⟨c, hc, rfl⟩ := hs
    obtain ⟨hmem, -⟩ := inFlight_mem hc
    refine .inl ⟨h.guarded, h.posted, fun run hr => h.runs run (List.mem_filter.mp hr).1, h.active,
      h.quiet, h.targets, ?_⟩
    intro run hr
    rcases List.mem_append.mp hr with hr | hr
    · exact h.cancelled run hr
    · obtain ⟨id, hid, rfl⟩ := List.mem_map.mp hr
      exact h.targets c hmem id hid
  | settle g =>
    simp only [streamProvider, Option.map_eq_some_iff] at hs
    obtain ⟨c, hc, rfl⟩ := hs
    exact .inr ⟨g, c, rfl, hc, rfl⟩
  | submit threadId =>
    simp only [streamProvider, Option.some.injEq] at hs
    subst hs
    unfold StreamState.submitWithTimeout
    split
    · rename_i hp
      have hidle : ({ s with activeRun := none } : StreamState).Settled :=
        ⟨h.guarded, h.posted, h.runs, fun _ hr => absurd hr (by simp), h.quiet, h.targets,
          h.cancelled⟩
      exact .inl (Settled.post hidle hp _)
    · exact .inl h
  | respond =>
    simp only [streamProvider, Option.some.injEq] at hs
    subst hs
    unfold StreamState.respondWithTimeout
    split
    · rename_i hp
      exact .inl (Settled.post h hp _)
    · exact .inl h
  | created id current =>
    simp only [streamProvider, Option.map_eq_some_iff] at hs
    obtain ⟨p, hp, rfl⟩ := hs
    have hid : p.1 = id := by simpa using List.find?_some hp
    subst hid
    exact .inl (Settled.created h (List.mem_of_find?_eq_some hp) current)
  | finished id =>
    simp only [streamProvider, Option.some.injEq] at hs
    subst hs
    exact .inl ⟨h.guarded, h.posted, fun run hr => h.runs run (List.mem_filter.mp hr).1, h.active,
      h.quiet, h.targets, h.cancelled⟩
  | showThread threadId =>
    simp only [streamProvider, Option.some.injEq] at hs
    subst hs
    exact .inl ⟨h.guarded, h.posted, h.runs, h.active, h.quiet, h.targets, h.cancelled⟩

theorem guardHolds_step_iff {s s' : StreamState} {a : StreamAction} (h : s.Settled)
    (hs : streamProvider.step s a = some s') : s'.GuardHolds ↔ NewestIsAlone s a := by
  rcases settled_step h hs with hset | ⟨g, c, rfl, hc, rfl⟩
  · constructor
    · intro _ he
      subst he
      simp only [streamProvider, Option.map_eq_some_iff] at hs
      obtain ⟨c, hc, rfl⟩ := hs
      exact (settle_guardHolds_iff h hc).mp hset.guarded rfl
    · intro _
      exact hset.guarded
  · exact settle_guardHolds_iff h hc

/-- **Nothing is submitted while a cancellation is in flight, as long as the newest of several
    never settles first.** And then no cancellation lists or cancels a run that was submitted
    after it started. The first step of a run at which the newest does settle first is the first
    after which the guard passes too early. -/
theorem no_submit_while_cancelling (s : StreamState)
    (h : streamProvider.Reach NewestIsAlone .initial s) :
    s.GuardHolds ∧ (∀ c ∈ s.pending, ∀ id ∈ c.runIds, id < c.submittedBefore) ∧
      (∀ run ∈ s.cancelled, run.runId < run.submittedBefore) ∧
      ∀ a s', streamProvider.step s a = some s' → (s'.GuardHolds ↔ NewestIsAlone s a) := by
  have hset : s.Settled := h.invariant settled_initial (by
    intro s a s' hi hok hs
    rcases settled_step hi hs with hset | ⟨g, c, rfl, hc, rfl⟩
    · exact hset
    · exact Settled.settle hi ((settle_guardHolds_iff hi hc).mpr hok))
  exact ⟨hset.guarded, hset.targets, hset.cancelled, fun a s' hs => guardHolds_step_iff hset hs⟩

/-- The user stops the run of a thread twice. The second cancellation settles first, a message is
    submitted, and the first cancellation cancels its run. -/
theorem submit_while_cancelling :
    ¬ ∀ s, streamProvider.Reach Lts.Anything .initial s →
      s.GuardHolds ∧ ∀ run ∈ s.cancelled, run.runId < run.submittedBefore := by
  intro h
  obtain ⟨s, hs, hp⟩ := Lts.exists_of_run streamProvider .initial
    [.showThread (some "t"), .submit none, .created 0 true, .stop true none, .stop true none,
      .settle 2, .submit none, .created 1 true, .list 1, .cancelMany 1]
    (P := fun s => s.cancelled.any fun run => !decide (run.runId < run.submittedBefore)) (by decide)
  obtain ⟨run, hrun, hlt⟩ := List.any_eq_true.mp hp
  simp [(h s hs).2 run hrun] at hlt

instance (s : StreamState) (a : StreamAction) : Decidable (NewestIsAlone s a) :=
  decidable_of_iff (a = .settle s.cancellationGeneration →
    (s.pending.all fun c => c.generation = s.cancellationGeneration) = true) <| by
    simp [NewestIsAlone]

/-- The run of a thread is stopped twice, the older cancellation cancels it and settles, then the
    newer one settles, and the next message gets a run that lives. -/
theorem no_submit_while_cancelling_stopped :
    ∃ s, streamProvider.Reach NewestIsAlone .initial s ∧ s.GuardHolds ∧ s.passesGuard = true ∧
      s.cancelled.map (·.runId) = [0, 0] ∧ s.runs = [(1, "t")] ∧ s.cancellationGeneration = 2 := by
  have hrun : (streamProvider.runChecked (fun s a => decide (NewestIsAlone s a))
      [.showThread (some "t"), .submit none, .created 0 true, .stop true none, .stop true none,
        .submit none, .list 1, .cancelMany 1, .settle 1, .submit none, .settle 2, .submit none,
        .created 1 true] .initial).any (fun s => s.passesGuard = true ∧
      s.cancelled.map (·.runId) = [0, 0] ∧ s.runs = [(1, "t")] ∧ s.cancellationGeneration = 2) =
        true := by decide
  obtain ⟨s, hs, hp⟩ := (Option.any_eq_true ..).mp hrun
  have hreach := Lts.Reach.start.of_runChecked (fun _ _ h => of_decide_eq_true h) hs
  exact ⟨s, hreach, (no_submit_while_cancelling s hreach).1, of_decide_eq_true hp⟩

end Frontend

end HyChat
