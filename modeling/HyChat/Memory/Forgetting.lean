import HyChat.Memory.Service

/-!
# Whether a forgotten name stays forgotten

A later call that introduces nothing leaves the memory empty in one of two ways: it asks to forget
itself, or it finds the memory empty and the traces it learns from leave nothing.

Why the traces come in. Reading an empty memory map makes the service learn again from the traces
of old calls, and a trace holds the messages of its call. So a name that was deleted can be stored
again by a later call that never mentions it: either because the history of its thread still has
the introduction, or because a trace has. The first is what the forgetting call's own messages
decide, the second is decided by the traces that are there when the map is found empty.

The theorem characterises, for every number of later calls in any threads, when the name stays
forgotten; `call_memory_eq_none_iff` is the step, and the statement over calls is an induction with
the traces growing by one at each call. It is about calls that introduce nothing: an introduction
stores a name, as it should.
-/

set_option autoImplicit false

namespace HyChat

open Lib

namespace Memory

/-! ## One later call -/

/-- What a call that introduces nothing needs in order to leave no name. -/
def LeavesNoName (s : State) (c : ModelCall) : Prop :=
  asksToForget c.messages = true ∨
    (s.memory = none ∧ LeavesNothing (latestTraces s.traces).reverse = true)

/-- **One call that introduces nothing.** -/
theorem call_memory_eq_none_iff (sha256 : Sha256) (s : State) {c : ModelCall}
    (hc : introducedName c.messages = none) :
    (s.call sha256 c).memory = none ↔ LeavesNoName s c := by
  have hmemory : (s.call sha256 c).memory =
      userMemoryMap (rememberFromMessages s.memory c.messages c.threadId) s.traces
        (!asksToForget c.messages) := rfl
  rw [hmemory, rememberFromMessages_eq, hc]
  unfold LeavesNoName
  cases ha : asksToForget c.messages with
  | true => simp [userMemoryMap]
  | false =>
    cases hm : s.memory with
    | some row => simp [userMemoryMap]
    | none =>
      simp only [userMemoryMap, Option.isSome_none, Bool.false_or, Bool.not_not, Bool.false_eq_true,
        if_false, false_or, true_and]
      exact backfill_eq_none_iff s.traces

/-! ## The forgetting call and those after it -/

/-- The newest human message asks to forget the name and gives none. -/
def Forgets (c : ModelCall) : Prop :=
  ∃ m ∈ (c.messages.filter Message.isHuman).getLast?, m.updates = (none, true)

/-- A message that asks to forget makes the whole batch ask. -/
theorem asksToForget_of_mem {messages : List Message} {m : Message} (hm : m ∈ messages)
    (ha : m.updates.2 = true) : asksToForget messages = true := by
  have hloop : ∀ (l : List Message) (acc : Option String × Bool),
      (acc.2 = true ∨ m ∈ l) →
        (l.foldl (fun acc m => (m.updates.1 <|> acc.1, acc.2 || m.updates.2)) acc).2 = true := by
    intro l
    induction l with
    | nil =>
      intro acc h
      rcases h with h | h
      · exact h
      · exact absurd h (by simp)
    | cons x rest ih =>
      intro acc h
      rw [List.foldl_cons]
      apply ih
      rcases h with h | h
      · exact .inl (by simp [h])
      · rcases List.mem_cons.mp h with rfl | h
        · exact .inl (by simp [ha])
        · exact .inr h
  exact hloop messages _ (.inr hm)

theorem Forgets.asks {c : ModelCall} (h : Forgets c) : asksToForget c.messages = true := by
  obtain ⟨m, hm, hu⟩ := h
  have hmem := List.mem_of_getLast? hm
  exact asksToForget_of_mem (List.mem_filter.mp hmem).1 (by rw [hu])

/-- The forgetting call itself deletes the name it finds; without one, a name introduced earlier in
    its own messages is stored again. -/
theorem forgetting_memory_eq_none_iff (sha256 : Sha256) (s : State) {c : ModelCall} (h : Forgets c) :
    (s.call sha256 c).memory = none ↔ introducedName c.messages = none ∨ s.memory ≠ none := by
  have hmemory : (s.call sha256 c).memory =
      rememberFromMessages s.memory c.messages c.threadId := by
    show userMemoryMap _ s.traces (!asksToForget c.messages) = _
    simp [userMemoryMap, h.asks]
  rw [hmemory, rememberFromMessages_eq, h.asks]
  cases introducedName c.messages with
  | none => simp
  | some name =>
    cases s.memory with
    | none => simp
    | some row => simp

/-- No name is stored after any of the calls. -/
def StaysForgotten (sha256 : Sha256) (s : State) (later : List ModelCall) : Prop :=
  ∀ n, n < later.length → (s.calls sha256 (later.take (n + 1))).memory = none

/-- Each call asks to forget, or finds the memory empty and traces that leave nothing. -/
def EachLeavesNoName (sha256 : Sha256) (s : State) (later : List ModelCall) : Prop :=
  ∀ n, (h : n < later.length) → LeavesNoName (s.calls sha256 (later.take n)) (later.get ⟨n, h⟩)

/-- One call more -/
theorem calls_take_succ (sha256 : Sha256) (s : State) (later : List ModelCall) {n : Nat}
    (h : n < later.length) :
    s.calls sha256 (later.take (n + 1)) =
      (s.calls sha256 (later.take n)).call sha256 (later.get ⟨n, h⟩) := by
  unfold State.calls
  rw [List.take_succ_eq_append_getElem h, List.foldl_append]
  rfl

/-- All later calls, one after the other -/
theorem staysForgotten_iff (sha256 : Sha256) (s : State) {later : List ModelCall}
    (hlater : ∀ c ∈ later, introducedName c.messages = none) :
    StaysForgotten sha256 s later ↔ EachLeavesNoName sha256 s later := by
  have hone : ∀ n, (h : n < later.length) →
      ((s.calls sha256 (later.take (n + 1))).memory = none ↔
        LeavesNoName (s.calls sha256 (later.take n)) (later.get ⟨n, h⟩)) := by
    intro n h
    rw [calls_take_succ sha256 s later h]
    exact call_memory_eq_none_iff sha256 _ (hlater _ (List.get_mem later ⟨n, h⟩))
  constructor
  · intro hs n h
    exact (hone n h).mp (hs n h)
  · intro he n h
    exact (hone n h).mpr (he n h)

/-- What the traces before the `n`-th later call must leave. -/
def ReplaysToNothing (sha256 : Sha256) (s : State) (later : List ModelCall) (n : Nat) : Prop :=
  LeavesNothing (latestTraces (s.calls sha256 (later.take n)).traces).reverse = true

/-- **A forgotten name stays forgotten exactly when no replay of the traces brings it back** and the
    forgetting call itself did not store it again. -/
theorem forgotten_iff (sha256 : Sha256) (s : State) (forgetting : ModelCall)
    (later : List ModelCall) (hforgets : Forgets forgetting)
    (hlater : ∀ c ∈ later, introducedName c.messages = none) :
    StaysForgotten sha256 (s.call sha256 forgetting) later ↔
      (∀ c ∈ later.head?, asksToForget c.messages = false →
        introducedName forgetting.messages = none ∨ s.memory ≠ none) ∧
      ∀ n, (h : n < later.length) → asksToForget (later.get ⟨n, h⟩).messages = false →
        ReplaysToNothing sha256 (s.call sha256 forgetting) later n := by
  rw [staysForgotten_iff sha256 _ hlater]
  constructor
  · intro he
    refine ⟨?_, ?_⟩
    · intro c hc hno
      cases later with
      | nil => exact absurd hc (by simp)
      | cons d rest =>
        cases hc
        rcases he 0 (Nat.succ_pos _) with ha | ⟨hm, -⟩
        · exact absurd (ha.symm.trans hno) (by decide)
        · exact (forgetting_memory_eq_none_iff sha256 s hforgets).mp hm
    · intro n h hno
      rcases he n h with ha | ⟨-, hl⟩
      · exact absurd (ha.symm.trans hno) (by decide)
      · exact hl
  · intro hcond
    obtain ⟨hfirst, hreplay⟩ := hcond
    -- the memory is empty before a call that does not ask: the call before it left it so
    have hempty : ∀ n, (h : n < later.length) →
        asksToForget (later.get ⟨n, h⟩).messages = false →
          ((s.call sha256 forgetting).calls sha256 (later.take n)).memory = none := by
      intro n
      induction n with
      | zero =>
        intro h hno
        cases later with
        | nil => exact absurd h (by simp)
        | cons d rest =>
          exact (forgetting_memory_eq_none_iff sha256 s hforgets).mpr (hfirst d rfl hno)
      | succ n ih =>
        intro h _
        have hn : n < later.length := Nat.lt_of_succ_lt h
        rw [calls_take_succ sha256 _ later hn]
        apply (call_memory_eq_none_iff sha256 _ (hlater _ (List.get_mem later ⟨n, hn⟩))).mpr
        cases ha : asksToForget (later.get ⟨n, hn⟩).messages with
        | true => exact .inl ha
        | false => exact .inr ⟨ih hn ha, hreplay n hn ha⟩
    intro n h
    cases ha : asksToForget (later.get ⟨n, h⟩).messages with
    | true => exact .inl ha
    | false => exact .inr ⟨hempty n h ha, hreplay n h ha⟩

/-! ## Two runs -/

def human (text : String) : Message := ⟨"human", .str text⟩

def ai (text : String) : Message := ⟨"ai", .str text⟩

/-- The user introduces himself and asks to forget it in one thread, and the agent calls the model
    twice for the second message; the second call stores the name again. -/
theorem forgotten_name_returns :
    ¬ ∀ (s : State) (forgetting : ModelCall) (later : List ModelCall), Forgets forgetting →
      (∀ c ∈ later, introducedName c.messages = none) →
        StaysForgotten .standard (s.call .standard forgetting) later := by
  intro h
  let history : List Message := [human "我叫张三", ai "你好，张三", human "忘记我的名字"]
  let start : State := (⟨none, []⟩ : State).calls .standard
    [⟨some "t1", [human "我叫张三"]⟩, ⟨some "t1", history⟩]
  have hstays := h start ⟨some "t1", history ++ [ai "好的"]⟩ [⟨some "t2", [human "你好"]⟩]
    ⟨human "忘记我的名字", by decide +kernel, by decide +kernel⟩
    (by
      intro c hc
      rw [List.mem_singleton] at hc
      subst hc
      decide +kernel)
    0 (by decide)
  exact absurd hstays (by decide +kernel)

/-- An introduction in one thread, forgotten in another, and two calls after that. -/
theorem forgotten_iff_otherThread :
    StaysForgotten .standard
      ((⟨some ⟨"张三", some "t1"⟩, [⟨some "t1", [human "我叫张三"]⟩]⟩ : State).call .standard
        ⟨some "t2", [human "忘记我的名字"]⟩) [⟨some "t3", [human "你好"]⟩] := by
  apply (forgotten_iff .standard ⟨some ⟨"张三", some "t1"⟩, [⟨some "t1", [human "我叫张三"]⟩]⟩
    ⟨some "t2", [human "忘记我的名字"]⟩ [⟨some "t3", [human "你好"]⟩]
    ⟨human "忘记我的名字", by decide +kernel, by decide +kernel⟩
    (by
      intro c hc
      rw [List.mem_singleton] at hc
      subst hc
      decide +kernel)).mpr
  refine ⟨?_, ?_⟩
  · intro _ _ _
    exact .inr (by simp)
  · intro n hn _
    have hzero : n = 0 := by simpa using hn
    subst hzero
    unfold ReplaysToNothing
    decide +kernel

end Memory

end HyChat
