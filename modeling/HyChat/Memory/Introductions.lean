import HyChat.Memory.Service
import HyChat.Lib.Lts
import Mathlib.Logic.Function.Basic

/-!
# Whose name is stored when threads take turns

Every model call remembers the whole history of its thread again, so a turn stores the last
introduction of its thread, however long ago that was. Whether this is the last introduction of all
depends on the other threads, which is why a state here is more than the stored row: besides the
history of each thread it keeps `spoken`, all messages in the order in which they were said. That
list is what the stored name is compared with; no function of the source has it.

`Fits` is the condition on one turn. It reads the histories and the traces and never the memory,
and `storesLast_step_iff` shows it to be exact from any state that stores the last introduction;
`last_introduction_stored` carries this along a run. Nothing is claimed here of messages that
ask to forget; they have the whole of `Memory.Forgetting`. Turns are taken one after another, each
with its model call.
-/

set_option autoImplicit false

namespace HyChat

open Lib

namespace Memory

/-! ## Introductions in a list of messages -/

theorem collectUpdates_append (a b : List Message) :
    collectUpdates (a ++ b) =
      ((collectUpdates b).1 <|> (collectUpdates a).1, (collectUpdates a).2 || (collectUpdates b).2) := by
  have hloop : ∀ (l : List Message) (acc : Option String × Bool),
      l.foldl (fun acc m => (m.updates.1 <|> acc.1, acc.2 || m.updates.2)) acc =
        ((collectUpdates l).1 <|> acc.1, acc.2 || (collectUpdates l).2) := by
    intro l
    induction l with
    | nil =>
      intro acc
      simp [collectUpdates]
    | cons m rest ih =>
      intro acc
      have hrest : collectUpdates (m :: rest) =
          ((collectUpdates rest).1 <|> m.updates.1, m.updates.2 || (collectUpdates rest).2) := by
        show rest.foldl _ (m.updates.1 <|> none, false || m.updates.2) = _
        rw [ih]
        simp
      rw [List.foldl_cons, ih, hrest]
      simp [Bool.or_assoc, Option.or_assoc]
  show (a ++ b).foldl _ (none, false) = _
  rw [List.foldl_append, hloop b]
  rfl

theorem introducedName_append (a b : List Message) :
    introducedName (a ++ b) = (introducedName b <|> introducedName a) :=
  congrArg Prod.fst (collectUpdates_append a b)

theorem asksToForget_append (a b : List Message) :
    asksToForget (a ++ b) = (asksToForget a || asksToForget b) :=
  congrArg Prod.snd (collectUpdates_append a b)

theorem introducedName_eq_none_iff (messages : List Message) :
    introducedName messages = none ↔ ∀ m ∈ messages, m.updates.1 = none := by
  induction messages with
  | nil => simp [introducedName, collectUpdates]
  | cons m rest ih =>
    have hone : introducedName [m] = m.updates.1 := by simp [introducedName, collectUpdates]
    rw [← List.singleton_append, introducedName_append, hone, List.forall_mem_append]
    cases hr : introducedName rest with
    | none =>
      rw [hr] at ih
      have hall := ih.mp rfl
      constructor
      · intro hm
        refine ⟨?_, hall⟩
        intro x hx
        rw [List.mem_singleton] at hx
        rw [hx]
        exact hm
      · intro hm
        exact hm.1 m List.mem_cons_self
    | some n =>
      rw [hr] at ih
      have hnot : ¬ ∀ m ∈ rest, m.updates.1 = none := fun h => absurd (ih.mpr h) (by simp)
      constructor
      · intro h
        exact absurd h (by simp)
      · intro h
        exact absurd h.2 hnot

/-! ## Turns -/

/-- New messages in a thread, and the model call they lead to. -/
structure Turn where
  threadId : String
  messages : List Message

/-- What is stored of the user, the history of every thread, and everything that has been said, in
    the order it was said. -/
structure Conversations where
  store : State
  history : String → List Message
  spoken : List Message

def Conversations.start : Conversations := ⟨⟨none, []⟩, fun _ => [], []⟩

def turns (sha256 : Sha256) : Lts Conversations Turn where
  step s t :=
    let history := s.history t.threadId ++ t.messages
    some ⟨s.store.call sha256 ⟨some t.threadId, history⟩,
      Function.update s.history t.threadId history, s.spoken ++ t.messages⟩

/-- The stored name is the one of the last introduction. -/
def Conversations.StoresLast (s : Conversations) : Prop :=
  s.store.memory.map (·.memoryValue) = introducedName s.spoken

/-- None of the turn's messages asks to forget the name. -/
def Turn.ForgetsNothing (t : Turn) : Prop := asksToForget t.messages = false

/-- The last introduction of the turn's thread, if there is one, gives the name of the last
    introduction in any thread; and while nobody has introduced himself, the traces leave
    nothing. -/
def Fits (s : Conversations) (t : Turn) : Prop :=
  (∀ name, introducedName (s.history t.threadId ++ t.messages) = some name →
    introducedName (s.spoken ++ t.messages) = some name) ∧
  (introducedName (s.spoken ++ t.messages) = none →
    LeavesNothing (latestTraces s.store.traces).reverse = true)

/-- Histories are made of what was said, and nobody has asked to forget. -/
structure Conversations.Told (s : Conversations) : Prop where
  histories : ∀ threadId, ∀ m ∈ s.history threadId, m ∈ s.spoken
  keeps : ∀ threadId, asksToForget (s.history threadId) = false

theorem Told.step {sha256 : Sha256} {s s' : Conversations} {t : Turn} (h : s.Told)
    (hf : t.ForgetsNothing) (hs : (turns sha256).step s t = some s') : s'.Told := by
  simp only [turns, Option.some.injEq] at hs
  subst hs
  constructor
  · intro threadId m hm
    replace hm : m ∈ Function.update s.history t.threadId _ threadId := hm
    by_cases ht : threadId = t.threadId
    · subst ht
      rw [Function.update_self] at hm
      rcases List.mem_append.mp hm with hm | hm
      · exact List.mem_append_left _ (h.histories _ m hm)
      · exact List.mem_append_right _ hm
    · rw [Function.update_of_ne ht] at hm
      exact List.mem_append_left _ (h.histories _ m hm)
  · intro threadId
    show asksToForget (Function.update s.history t.threadId _ threadId) = false
    by_cases ht : threadId = t.threadId
    · subst ht
      rw [Function.update_self, asksToForget_append, h.keeps, hf]
      rfl
    · rw [Function.update_of_ne ht]
      exact h.keeps threadId

/-- The memory after a call whose messages do not ask to forget. -/
theorem memory_call (sha256 : Sha256) (s : State) {c : ModelCall}
    (ha : asksToForget c.messages = false) :
    (s.call sha256 c).memory =
      match introducedName c.messages with
      | some name => some ⟨name, c.threadId⟩
      | none => if s.memory.isSome then s.memory else backfillMemoriesFromTraces none s.traces := by
  have hmemory : (s.call sha256 c).memory =
      userMemoryMap (rememberFromMessages s.memory c.messages c.threadId) s.traces
        (!asksToForget c.messages) := rfl
  rw [hmemory, rememberFromMessages_eq, ha]
  cases introducedName c.messages with
  | some name => cases s.memory <;> rfl
  | none =>
    cases s.memory with
    | none => simp [userMemoryMap]
    | some row => simp [userMemoryMap]

theorem storesLast_step_iff {sha256 : Sha256} {s s' : Conversations} {t : Turn} (h : s.Told)
    (hlast : s.StoresLast) (hf : t.ForgetsNothing) (hs : (turns sha256).step s t = some s') :
    s'.StoresLast ↔ Fits s t := by
  simp only [turns, Option.some.injEq] at hs
  subst hs
  have ha : asksToForget (s.history t.threadId ++ t.messages) = false := by
    rw [asksToForget_append, h.keeps, hf]
    rfl
  unfold Conversations.StoresLast
  simp only
  rw [memory_call sha256 s.store ha]
  unfold Fits
  cases hn : introducedName (s.history t.threadId ++ t.messages) with
  | some name =>
    simp only [Option.map_some, Option.some.injEq, forall_eq']
    constructor
    · intro he
      refine ⟨he.symm, ?_⟩
      intro hnone
      rw [hnone] at he
      exact absurd he (by simp)
    · intro hfits
      exact hfits.1.symm
  | none =>
    have hnew : introducedName t.messages = none := by
      rw [introducedName_eq_none_iff] at hn ⊢
      exact fun m hm => hn m (List.mem_append_right _ hm)
    have hspoken : introducedName (s.spoken ++ t.messages) = introducedName s.spoken := by
      rw [introducedName_append, hnew]
      rfl
    rw [hspoken]
    unfold Conversations.StoresLast at hlast
    cases hm : s.store.memory with
    | some row =>
      rw [hm] at hlast
      simp only [Option.isSome_some, if_true]
      refine ⟨fun _ => ⟨fun _ he => absurd he (by simp), ?_⟩, fun _ => hlast⟩
      intro hnone
      rw [hnone] at hlast
      exact absurd hlast (by simp)
    | none =>
      rw [hm] at hlast
      have hnone : introducedName s.spoken = none := hlast.symm
      rw [hnone]
      simp only [Option.isSome_none, Bool.false_eq_true, if_false, Option.map_eq_none_iff]
      rw [backfill_eq_none_iff]
      constructor
      · intro hl
        exact ⟨fun _ he => absurd he (by simp), fun _ => hl⟩
      · intro hfits
        exact hfits.2 trivial

/-- **The last introduction is the one that is stored, while every turn fits.** From such a state a
    turn keeps it so exactly when it fits. -/
theorem last_introduction_stored (sha256 : Sha256) (s : Conversations)
    (h : (turns sha256).Reach (fun s t => t.ForgetsNothing ∧ Fits s t) .start s) :
    s.StoresLast ∧ ∀ t s', t.ForgetsNothing → (turns sha256).step s t = some s' →
      (s'.StoresLast ↔ Fits s t) := by
  have hinv : s.Told ∧ s.StoresLast := by
    refine h.invariant (I := fun s => s.Told ∧ s.StoresLast)
      ⟨⟨fun _ _ hm => absurd hm (by simp [Conversations.start]), fun _ => rfl⟩, rfl⟩ ?_
    intro s t s' hi hok hs
    exact ⟨Told.step hi.1 hok.1 hs, (storesLast_step_iff hi.1 hi.2 hok.1 hs).mpr hok.2⟩
  exact ⟨hinv.2, fun t s' hf hs => storesLast_step_iff hinv.1 hinv.2 hf hs⟩

def utterance (text : String) : List Message := [⟨"human", .str text⟩]

/-- A new name in a new thread, and then a turn in the old one that introduces nothing. -/
theorem last_introduction_overwritten :
    ¬ ∀ s, (turns .standard).Reach (fun _ t => t.ForgetsNothing) .start s → s.StoresLast := by
  intro h
  let l : List Turn := [⟨"t1", utterance "我叫张三"⟩, ⟨"t2", utterance "我叫李四"⟩, ⟨"t1", utterance "你好"⟩]
  have hrun : ((turns .standard).run l .start).any
      (fun s => s.store.memory.map (·.memoryValue) != introducedName s.spoken) = true := by
    decide +kernel
  obtain ⟨s, hs, hp⟩ := (Option.any_eq_true ..).mp hrun
  have hreach : (turns .standard).Reach (fun _ t => t.ForgetsNothing) .start s := by
    refine Lts.Reach.start.of_run ?_ hs
    intro t ht _
    simp only [l, List.mem_cons, List.not_mem_nil, or_false] at ht
    unfold Turn.ForgetsNothing
    rcases ht with rfl | rfl | rfl
    · decide +kernel
    · decide +kernel
    · decide +kernel
  have hlast := h s hreach
  unfold Conversations.StoresLast at hlast
  simp [hlast] at hp

instance (s : Conversations) (t : Turn) : Decidable (Fits s t) :=
  decidable_of_iff ((introducedName (s.history t.threadId ++ t.messages) = none ∨
      introducedName (s.history t.threadId ++ t.messages) =
        introducedName (s.spoken ++ t.messages)) ∧
    (introducedName (s.spoken ++ t.messages) = none →
      LeavesNothing (latestTraces s.store.traces).reverse = true)) <| by
    refine and_congr ?_ Iff.rfl
    cases introducedName (s.history t.threadId ++ t.messages) with
    | none => simp
    | some name => simp [eq_comm]

/-- Two threads in turn: the old one goes on while its introduction is still the last, the new one
    introduces another name, and the old one takes that name over before it goes on again. -/
theorem last_introduction_stored_twoThreads :
    ∃ s, (turns .standard).Reach (fun s t => t.ForgetsNothing ∧ Fits s t) .start s ∧ s.StoresLast ∧
      introducedName s.spoken = some "李四" ∧
      s.history "t1" = utterance "我叫张三" ++ utterance "谢谢" ++ utterance "我叫李四" ++
        utterance "好的" ∧
      s.history "t2" = utterance "你好" ++ utterance "我叫李四" := by
  let l : List Turn := [⟨"t1", utterance "我叫张三"⟩, ⟨"t2", utterance "你好"⟩, ⟨"t1", utterance "谢谢"⟩,
    ⟨"t2", utterance "我叫李四"⟩, ⟨"t1", utterance "我叫李四"⟩, ⟨"t1", utterance "好的"⟩]
  let check : Conversations → Turn → Bool := fun s t =>
    asksToForget t.messages = false ∧ Fits s t
  have hrun : ((turns .standard).runChecked check l .start).any (fun s =>
      introducedName s.spoken = some "李四" ∧
      s.history "t1" = utterance "我叫张三" ++ utterance "谢谢" ++ utterance "我叫李四" ++
        utterance "好的" ∧
      s.history "t2" = utterance "你好" ++ utterance "我叫李四") = true := by
    decide +kernel
  obtain ⟨s, hs, hp⟩ := (Option.any_eq_true ..).mp hrun
  have hreach : (turns .standard).Reach (fun s t => t.ForgetsNothing ∧ Fits s t) .start s := by
    refine Lts.Reach.start.of_runChecked (fun s t h => ?_) hs
    have hcheck : asksToForget t.messages = false ∧ Fits s t := of_decide_eq_true h
    exact hcheck
  exact ⟨s, hreach, (last_introduction_stored .standard s hreach).1, of_decide_eq_true hp⟩

end Memory

end HyChat
