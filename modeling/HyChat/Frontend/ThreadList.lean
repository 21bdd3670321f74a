import HyChat.Lib.Lts

/-!
# The list of threads and the threads that were deleted

A deleted thread is hidden at once, since the graph server forgets it in the background or not at
all. `getThreads` leaves out the deleted ids it closed over when it was created, and whatever it
answers is displayed when it arrives.

Why requests carry a copy of the deleted ids. `getThreads` is a function made in a render; the ids
it leaves out are those of that render, and an answer that arrives later is displayed whatever has
been deleted since. So the state has, for each request under way, the ids it closed over and what
the graph server has found for it, and the condition is on the answer that is displayed
(`KnowsDeletions`): it knows of every deletion of a thread it has found. A request that is dropped
or overtaken is not asked anything.

The condition is exact for each step, from any state in which the deleted threads are hidden
(`hidden_step_iff`). What the graph server does with a deleted thread is left open, since the code
leaves it open too: it may list it for as long as it likes. A deletion that the backend has refused
hides nothing.
-/

set_option autoImplicit false

namespace HyChat

open Lib

namespace Frontend

structure Thread where
  threadId : String
  title : Option String
  deriving DecidableEq

/-- A request searches the graph server, then asks the backend for the titles, then is displayed. -/
inductive ThreadsPhase
  | searching
  /-- The graph server has answered the search. -/
  | searched
  | titling (visibleGraphThreads : List Thread)
  /-- The promise has been resolved. -/
  | listed (threads : List Thread)
  | done

/-- A call of `getThreads`. -/
structure ThreadsRequest where
  /-- The ids its `getThreads` closed over -/
  deletedThreadIds : List String
  graphThreads : List Thread
  phase : ThreadsPhase

/-- The list that is displayed, the ids that were deleted, and the requests under way. -/
structure ThreadState where
  threads : List Thread
  deletedThreadIds : List String
  /-- The set that each rendered `getThreads` has closed over -/
  renders : List (List String)
  requests : List ThreadsRequest
  /-- Calls of `deleteThread` that wait for the backend -/
  deleting : List String
  /-- Calls of `deleteThread` that have resolved -/
  deleted : List String
  /-- The threads of the graph server -/
  graph : List Thread
  /-- Deletions in the background -/
  removing : List String

def ThreadState.start (deletedThreadIds : List String) (graph : List Thread) : ThreadState :=
  ⟨[], deletedThreadIds, [deletedThreadIds], [], [], [], graph, []⟩

inductive ThreadAction
  | render
  /-- A component calls the `getThreads` it was rendered with, at once or four seconds after
      `onThreadId`. -/
  | getThreads (render : Nat)
  /-- The graph server answers a search. -/
  | search (i : Nat) (found : List Thread)
  /-- The answer arrives and is filtered. -/
  | filter (i : Nat)
  /-- The conversations of the backend arrive, or their request fails. -/
  | titles (i : Nat) (conversations : Option (List (String × String)))
  | setThreads (i : Nat)
  | fail (i : Nat)
  | deleteThread (threadId : String)
  /-- The backend answers a deletion, with 404 or a success, or otherwise. -/
  | backendDeleted (i : Nat) (accepted : Bool)
  | graphDeleted (i : Nat) (succeeded : Bool)
  | graphCreated (thread : Thread)

/-- Whether the URL of the graph service and the assistant are configured -/
structure ThreadConfig where
  hasApiUrl : Bool
  hasAssistantId : Bool

def withThreadTitle (thread : Thread) (title : String) : Thread := { thread with title := some title }

/-- The threads with the titles of the backend; an empty title is none. -/
def withTitles (titles : List (String × String)) (threads : List Thread) : List Thread :=
  threads.map fun thread =>
    match titles.lookup thread.threadId with
    | some title => if title = "" then thread else withThreadTitle thread title
    | none => thread

namespace ThreadState

def setRequest (s : ThreadState) (i : Nat) (r : ThreadsRequest) : ThreadState :=
  { s with requests := s.requests.set i r }

/-- `deleteThread` after a successful answer of the backend -/
def hide (config : ThreadConfig) (s : ThreadState) (threadId : String) : ThreadState :=
  { s with
    deletedThreadIds :=
      if threadId ∈ s.deletedThreadIds then s.deletedThreadIds else s.deletedThreadIds ++ [threadId]
    threads := s.threads.filter fun thread => thread.threadId ≠ threadId
    deleted := s.deleted ++ [threadId]
    removing := if config.hasApiUrl then s.removing ++ [threadId] else s.removing }

def requestStep (s : ThreadState) (i : Nat) (f : ThreadsRequest → Option ThreadsRequest) :
    Option ThreadState :=
  s.requests[i]?.bind fun r => (f r).map (s.setRequest i)

end ThreadState

/-- Requests, deletions and answers, in any order -/
def threadProvider (config : ThreadConfig) : Lts ThreadState ThreadAction where
  step s
    | .render => some { s with renders := s.renders ++ [s.deletedThreadIds] }
    | .getThreads n => s.renders[n]?.map fun closed =>
        let phase := if config.hasApiUrl && config.hasAssistantId then .searching else .listed []
        { s with requests := s.requests ++ [⟨closed, [], phase⟩] }
    | .search i found => s.requestStep i fun r =>
        match r.phase with
        | .searching =>
            if found.all s.graph.contains && decide (found.length ≤ 100) then
              some { r with graphThreads := found, phase := .searched }
            else none
        | _ => none
    | .filter i => s.requestStep i fun r =>
        match r.phase with
        | .searched =>
            let visible := r.graphThreads.filter fun thread => thread.threadId ∉ r.deletedThreadIds
            some { r with phase := .titling visible }
        | _ => none
    | .titles i conversations => s.requestStep i fun r =>
        match r.phase, conversations with
        | .titling visible, some titles => some { r with phase := .listed (withTitles titles visible) }
        | .titling visible, none => some { r with phase := .listed visible }
        | _, _ => none
    | .setThreads i => s.requests[i]?.bind fun r =>
        match r.phase with
        | .listed threads => some { s.setRequest i { r with phase := .done } with threads := threads }
        | _ => none
    | .fail i => s.requestStep i fun r =>
        match r.phase with
        | .searching => some { r with phase := .done }
        | _ => none
    | .deleteThread threadId => some { s with deleting := s.deleting ++ [threadId] }
    | .backendDeleted i accepted => s.deleting[i]?.map fun threadId =>
        let answered := { s with deleting := s.deleting.eraseIdx i }
        if accepted then answered.hide config threadId else answered
    | .graphDeleted i succeeded => s.removing[i]?.map fun threadId =>
        { s with
          removing := s.removing.eraseIdx i
          graph :=
            if succeeded then s.graph.filter fun thread => thread.threadId ≠ threadId else s.graph }
    | .graphCreated thread => some { s with graph := s.graph ++ [thread] }

/-! ## What is displayed -/

/-- No thread that has been deleted is displayed. -/
def ThreadState.Hidden (s : ThreadState) : Prop :=
  ∀ threadId ∈ s.deleted, threadId ∉ s.threads.map (·.threadId)

/-- When an answer is displayed, its `getThreads` knew of every deletion of a thread that the graph
    server has found for it. -/
def KnowsDeletions (s : ThreadState) (a : ThreadAction) : Prop :=
  ∀ i r threads, a = .setThreads i → s.requests[i]? = some r → r.phase = .listed threads →
    ∀ thread ∈ r.graphThreads, thread.threadId ∈ s.deleted → thread.threadId ∈ r.deletedThreadIds

/-- What is left of the search is what `getThreads` did not know to be deleted. -/
def ThreadsRequest.Filtered (r : ThreadsRequest) : Prop :=
  let visible := r.graphThreads.filter fun thread => thread.threadId ∉ r.deletedThreadIds
  match r.phase with
  | .searching => r.graphThreads = []
  | .titling threads => threads = visible
  | .listed threads => threads.map (·.threadId) = visible.map (·.threadId)
  | _ => True

theorem threadId_withTitles (titles : List (String × String)) (threads : List Thread) :
    (withTitles titles threads).map (·.threadId) = threads.map (·.threadId) := by
  unfold withTitles
  rw [List.map_map]
  apply List.map_congr_left
  intro thread _
  simp only [Function.comp_apply]
  split
  · split
    · rfl
    · rfl
  · rfl

theorem requestStep_eq_some {s s' : ThreadState} {i : Nat}
    {f : ThreadsRequest → Option ThreadsRequest} (h : s.requestStep i f = some s') :
    ∃ r r', s.requests[i]? = some r ∧ f r = some r' ∧ s' = s.setRequest i r' := by
  obtain ⟨r, hr, h⟩ := Option.bind_eq_some_iff.mp h
  obtain ⟨r', hr', rfl⟩ := Option.map_eq_some_iff.mp h
  exact ⟨r, r', hr, hr', rfl⟩

/-- **What a step can do**: one request goes on, an answer is displayed, a deletion is through, or
    neither the list nor the requests nor the deletions change. -/
theorem threadProvider_cases {config : ThreadConfig} {s s' : ThreadState} {a : ThreadAction}
    (h : (threadProvider config).step s a = some s') :
    (∃ i r r', s.requests[i]? = some r ∧ (r.Filtered → r'.Filtered) ∧ s' = s.setRequest i r' ∧
      ∀ j, a ≠ .setThreads j) ∨
    (∃ i r threads, a = .setThreads i ∧ s.requests[i]? = some r ∧ r.phase = .listed threads ∧
      s' = { s.setRequest i { r with phase := .done } with threads := threads }) ∨
    (∃ i threadId, s' = ({ s with deleting := s.deleting.eraseIdx i }).hide config threadId ∧
      ∀ j, a ≠ .setThreads j) ∨
    (s'.threads = s.threads ∧ s'.deleted = s.deleted ∧
      (∀ r ∈ s'.requests, r ∈ s.requests ∨ r.Filtered) ∧ ∀ j, a ≠ .setThreads j) := by
  cases a with
  | render =>
    cases h
    exact .inr (.inr (.inr ⟨rfl, rfl, fun r hr => .inl hr, by simp⟩))
  | getThreads n =>
    obtain ⟨closed, -, rfl⟩ := Option.map_eq_some_iff.mp h
    refine .inr (.inr (.inr ⟨rfl, rfl, ?_, by simp⟩))
    intro r hr
    rcases List.mem_append.mp hr with hr | hr
    · exact .inl hr
    · rw [List.mem_singleton] at hr
      subst hr
      refine .inr ?_
      cases hconf : config.hasApiUrl && config.hasAssistantId <;>
        simp [ThreadsRequest.Filtered]
  | search i found =>
    obtain ⟨r, r', hr, hf, rfl⟩ := requestStep_eq_some h
    refine .inl ⟨i, r, r', hr, ?_, rfl, by simp⟩
    intro _
    split at hf
    · split at hf
      · cases hf
        trivial
      · cases hf
    · cases hf
  | filter i =>
    obtain ⟨r, r', hr, hf, rfl⟩ := requestStep_eq_some h
    refine .inl ⟨i, r, r', hr, ?_, rfl, by simp⟩
    intro _
    split at hf
    · cases hf
      rfl
    · cases hf
  | titles i conversations =>
    obtain ⟨r, r', hr, hf, rfl⟩ := requestStep_eq_some h
    refine .inl ⟨i, r, r', hr, ?_, rfl, by simp⟩
    intro hfiltered
    unfold ThreadsRequest.Filtered at hfiltered
    split at hf
    · rename_i visible titles hp
      rw [hp] at hfiltered
      cases hf
      simp only at hfiltered
      subst hfiltered
      exact threadId_withTitles titles _
    · rename_i visible hp
      rw [hp] at hfiltered
      cases hf
      simp only at hfiltered
      subst hfiltered
      rfl
    · cases hf
  | setThreads i =>
    obtain ⟨r, hr, h⟩ := Option.bind_eq_some_iff.mp h
    split at h
    · rename_i threads hp
      cases h
      exact .inr (.inl ⟨i, r, threads, rfl, hr, hp, rfl⟩)
    · cases h
  | fail i =>
    obtain ⟨r, r', hr, hf, rfl⟩ := requestStep_eq_some h
    refine .inl ⟨i, r, r', hr, ?_, rfl, by simp⟩
    intro _
    split at hf
    · cases hf
      trivial
    · cases hf
  | deleteThread threadId =>
    cases h
    exact .inr (.inr (.inr ⟨rfl, rfl, fun r hr => .inl hr, by simp⟩))
  | backendDeleted i accepted =>
    obtain ⟨threadId, -, rfl⟩ := Option.map_eq_some_iff.mp h
    cases accepted with
    | true => exact .inr (.inr (.inl ⟨i, threadId, rfl, by simp⟩))
    | false => exact .inr (.inr (.inr ⟨rfl, rfl, fun r hr => .inl hr, by simp⟩))
  | graphDeleted i succeeded =>
    obtain ⟨threadId, -, rfl⟩ := Option.map_eq_some_iff.mp h
    exact .inr (.inr (.inr ⟨rfl, rfl, fun r hr => .inl hr, by simp⟩))
  | graphCreated thread =>
    cases h
    exact .inr (.inr (.inr ⟨rfl, rfl, fun r hr => .inl hr, by simp⟩))

/-! ## Every run -/

/-- The deleted threads are hidden, and the requests are filtered. -/
structure ThreadState.Consistent (s : ThreadState) : Prop where
  hidden : s.Hidden
  filtered : ∀ r ∈ s.requests, r.Filtered

/-- A request goes on as the filter lets it. -/
theorem filtered_setRequest {s : ThreadState} {i : Nat} {r : ThreadsRequest}
    (h : ∀ r ∈ s.requests, r.Filtered) (hr : r.Filtered) :
    ∀ r' ∈ (s.setRequest i r).requests, r'.Filtered := by
  intro r' hr'
  rcases List.mem_or_eq_of_mem_set hr' with hr' | rfl
  · exact h r' hr'
  · exact hr

/-- A deletion takes the thread out of the list at once. -/
theorem hidden_hide {config : ThreadConfig} {s : ThreadState} (h : s.Hidden) (i : Nat)
    (threadId : String) :
    (({ s with deleting := s.deleting.eraseIdx i } : ThreadState).hide config threadId).Hidden := by
  intro id hid hlisted
  obtain ⟨thread, hthread, rfl⟩ := List.mem_map.mp hlisted
  obtain ⟨hold, hne⟩ := List.mem_filter.mp hthread
  rcases List.mem_append.mp hid with hid | hid
  · exact h _ hid (List.mem_map_of_mem hold)
  · rw [List.mem_singleton] at hid
    simp [hid] at hne

/-- Displaying an answer hides the deleted threads exactly when the answer knows of them. -/
theorem hidden_listed_iff {s : ThreadState} {i : Nat} {r : ThreadsRequest} {threads : List Thread}
    (hf : r.Filtered) (hr : s.requests[i]? = some r) (hp : r.phase = .listed threads) :
    ({ s.setRequest i { r with phase := .done } with threads := threads } : ThreadState).Hidden ↔
      KnowsDeletions s (.setThreads i) := by
  unfold ThreadsRequest.Filtered at hf
  rw [hp] at hf
  simp only at hf
  constructor
  · intro hhidden i' r' threads' ha hr' _ thread hthread hdeleted
    cases ha
    rw [hr] at hr'
    cases hr'
    by_cases hknown : thread.threadId ∈ r.deletedThreadIds
    · exact hknown
    · refine absurd ?_ (hhidden thread.threadId hdeleted)
      show thread.threadId ∈ threads.map (·.threadId)
      rw [hf]
      exact List.mem_map_of_mem (List.mem_filter.mpr ⟨hthread, by simpa using hknown⟩)
  · intro hknows id hid hlisted
    replace hlisted : id ∈ threads.map (·.threadId) := hlisted
    rw [hf] at hlisted
    obtain ⟨thread, hthread, rfl⟩ := List.mem_map.mp hlisted
    obtain ⟨hfound, hunknown⟩ := List.mem_filter.mp hthread
    have hknown := hknows i r threads rfl hr hp thread hfound hid
    simp [hknown] at hunknown

theorem filtered_step {config : ThreadConfig} {s s' : ThreadState} {a : ThreadAction}
    (h : ∀ r ∈ s.requests, r.Filtered) (hs : (threadProvider config).step s a = some s') :
    ∀ r ∈ s'.requests, r.Filtered := by
  rcases threadProvider_cases hs with ⟨i, r, r', hr, hf, rfl, -⟩ | ⟨i, r, threads, -, hr, -, rfl⟩ |
    ⟨i, threadId, rfl, -⟩ | ⟨-, -, hreq, -⟩
  · exact filtered_setRequest h (hf (h r (List.mem_of_getElem? hr)))
  · exact filtered_setRequest (s := s) (r := { r with phase := .done }) h trivial
  · exact h
  · intro r hr
    rcases hreq r hr with hr | hr
    · exact h r hr
    · exact hr

theorem hidden_step_iff {config : ThreadConfig} {s s' : ThreadState} {a : ThreadAction}
    (h : s.Consistent) (hs : (threadProvider config).step s a = some s') :
    s'.Hidden ↔ KnowsDeletions s a := by
  have hother : (∀ j, a ≠ .setThreads j) → KnowsDeletions s a :=
    fun hne i _ _ ha => absurd ha (hne i)
  rcases threadProvider_cases hs with ⟨i, r, r', hr, -, rfl, hne⟩ |
    ⟨i, r, threads, rfl, hr, hp, rfl⟩ | ⟨i, threadId, rfl, hne⟩ | ⟨hthreads, hdeleted, -, hne⟩
  · exact iff_of_true h.hidden (hother hne)
  · exact hidden_listed_iff (h.filtered r (List.mem_of_getElem? hr)) hr hp
  · exact iff_of_true (hidden_hide h.hidden i threadId) (hother hne)
  · refine iff_of_true ?_ (hother hne)
    intro id hid hlisted
    rw [hdeleted] at hid
    rw [hthreads] at hlisted
    exact h.hidden id hid hlisted

/-- **A deleted thread stays hidden while no answer is displayed that does not know of a deletion.**
    The first answer that does not know of one brings the thread back. -/
theorem deleted_thread_hidden (config : ThreadConfig) (deletedThreadIds : List String)
    (graph : List Thread) (s : ThreadState)
    (h : (threadProvider config).Reach KnowsDeletions (.start deletedThreadIds graph) s) :
    s.Hidden ∧ ∀ a s', (threadProvider config).step s a = some s' →
      (s'.Hidden ↔ KnowsDeletions s a) := by
  have hinv : s.Consistent := by
    apply h.invariant ⟨fun _ hid => absurd hid (by simp [ThreadState.start]), fun _ hr =>
      absurd hr (by simp [ThreadState.start])⟩
    intro s a s' hi hok hs
    exact ⟨(hidden_step_iff hi hs).mpr hok, filtered_step hi.filtered hs⟩
  exact ⟨hinv.hidden, fun a s' hs => hidden_step_iff hinv hs⟩

/-! ## A search that overlaps a deletion -/

def deployed : ThreadConfig := ⟨true, true⟩

/-- The search is answered before the thread is deleted, and displayed afterwards. -/
theorem deleted_thread_comes_back :
    ¬ ∀ s, (threadProvider deployed).Reach Lts.Anything (.start [] [⟨"t", none⟩]) s → s.Hidden := by
  intro h
  obtain ⟨s, hs, hp⟩ := Lts.exists_of_run (threadProvider deployed) (.start [] [⟨"t", none⟩])
    [.getThreads 0, .search 0 [⟨"t", none⟩], .filter 0, .deleteThread "t", .backendDeleted 0 true,
      .titles 0 none, .setThreads 0]
    (P := fun s => s.deleted.any fun id => (s.threads.map (·.threadId)).contains id) (by decide)
  obtain ⟨id, hid, hlisted⟩ := List.any_eq_true.mp hp
  exact h s hs id hid (by simpa using hlisted)

/-- Whether the step meets the condition -/
def knowsDeletions (s : ThreadState) : ThreadAction → Bool
  | .setThreads i =>
      match s.requests[i]? with
      | some r => r.graphThreads.all fun thread =>
          !s.deleted.contains thread.threadId || r.deletedThreadIds.contains thread.threadId
      | none => true
  | _ => true

theorem knowsDeletions_of_check {s : ThreadState} {a : ThreadAction}
    (h : knowsDeletions s a = true) : KnowsDeletions s a := by
  intro i r threads ha hr _ thread hthread hdeleted
  subst ha
  simp only [knowsDeletions, hr, List.all_eq_true] at h
  simpa [hdeleted] using h thread hthread

/-- The request after the deletion leaves the thread out, although the graph server still has it. -/
theorem deleted_thread_hidden_afterwards :
    ∃ s, (threadProvider deployed).Reach KnowsDeletions (.start [] [⟨"t", none⟩, ⟨"u", none⟩]) s ∧
      s.deleted = ["t"] ∧ s.threads = [⟨"u", some "会话"⟩] ∧ s.Hidden := by
  have hrun : ((threadProvider deployed).runChecked knowsDeletions
      [.getThreads 0, .search 0 [⟨"t", none⟩], .filter 0, .titles 0 none, .setThreads 0,
        .deleteThread "t", .backendDeleted 0 true, .graphDeleted 0 false, .render, .getThreads 1,
        .search 1 [⟨"t", none⟩, ⟨"u", none⟩], .filter 1, .titles 1 (some [("u", "会话")]),
        .setThreads 1] (.start [] [⟨"t", none⟩, ⟨"u", none⟩])).any
      (fun s => decide (s.deleted = ["t"]) && decide (s.threads = [⟨"u", some "会话"⟩])) = true := by
    decide
  obtain ⟨s, hs, hp⟩ := (Option.any_eq_true ..).mp hrun
  rw [Bool.and_eq_true, decide_eq_true_eq, decide_eq_true_eq] at hp
  have hreach : (threadProvider deployed).Reach KnowsDeletions
      (.start [] [⟨"t", none⟩, ⟨"u", none⟩]) s :=
    Lts.Reach.start.of_runChecked (fun _ _ => knowsDeletions_of_check) hs
  exact ⟨s, hreach, hp.1, hp.2, (deleted_thread_hidden deployed [] _ s hreach).1⟩

end Frontend

end HyChat
