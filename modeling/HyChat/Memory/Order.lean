import HyChat.Memory.Introductions
import Mathlib.Data.List.Induction

/-!
# One history at once, and message by message

`remember_from_messages` collects what all its messages say and applies the deletions first. Taken
one at a time, the messages are applied in their order.

What is compared. One call over a whole history, as the code makes it, and one call for each
message in order, as the order of what was said would have it. They agree unless the history both
introduces a name and asks to forget it: then the collection keeps the last introduction and the
deletion comes before the upsert, whatever came last. `NewestForgets` computes what should be left,
by looking at the newest message that says anything about the name.

A stored name matters too. The deletion marks a row that is there, and the upsert that follows
finds the row that is to be deleted and writes to it in vain, because these sessions do not flush
before they query. So the outcome depends on whether a name is stored, and the condition has a case
for it.
-/

set_option autoImplicit false

namespace HyChat

open Lib

namespace Memory

/-- A call of `remember_from_messages` for each message. -/
def rememberOneByOne (row : Option UserMemory) (messages : List Message)
    (sourceThreadId : Option String) : Option UserMemory :=
  messages.foldl (fun row m => rememberFromMessages row [m] sourceThreadId) row

/-- The newest message that says anything forgets the name: it asks to, and where it introduces one
    as well, a name is there for it to delete. Newest first; `stored` is whether there was a name to
    begin with. -/
def NewestForgets (stored : Bool) : List Message → Bool
  | [] => !stored
  | m :: older =>
      match m.updates with
      | (none, false) => NewestForgets stored older
      | (none, true) => true
      | (some _, false) => false
      | (some _, true) => !NewestForgets stored older

/-- Both ways leave the same `profile.name`. -/
def RespectsOrder (row : Option UserMemory) (messages : List Message)
    (sourceThreadId : Option String) : Prop :=
  (rememberFromMessages row messages sourceThreadId).map (·.memoryValue) =
    (rememberOneByOne row messages sourceThreadId).map (·.memoryValue)

variable {row : Option UserMemory} {sourceThreadId : Option String}

/-! ## One message -/

theorem collectUpdates_singleton (m : Message) : collectUpdates [m] = m.updates := by
  simp [collectUpdates]

/-- A call with one message -/
theorem rememberFromMessages_singleton (m : Message) :
    rememberFromMessages row [m] sourceThreadId =
      match m.updates, row with
      | (some _, true), some _ => none
      | (some name, _), _ => some ⟨name, sourceThreadId⟩
      | (none, true), _ => none
      | (none, false), row => row := by
  rw [rememberFromMessages_eq]
  unfold introducedName asksToForget
  rw [collectUpdates_singleton]
  obtain ⟨name, asks⟩ := m.updates
  cases name with
  | none => cases asks <;> rfl
  | some name => cases asks <;> cases row <;> rfl

/-- Messages, and then more messages. -/
theorem rememberOneByOne_append (messages : List Message) (m : Message) :
    rememberOneByOne row (messages ++ [m]) sourceThreadId =
      rememberFromMessages (rememberOneByOne row messages sourceThreadId) [m] sourceThreadId := by
  unfold rememberOneByOne
  rw [List.foldl_append]
  rfl

theorem introducedName_singleton (m : Message) : introducedName [m] = m.updates.1 :=
  congrArg Prod.fst (collectUpdates_singleton m)

theorem asksToForget_singleton (m : Message) : asksToForget [m] = m.updates.2 :=
  congrArg Prod.snd (collectUpdates_singleton m)

/-! ## Message by message -/

/-- The newest message is looked at first. -/
theorem newestForgets_append_singleton (stored : Bool) (messages : List Message) (m : Message) :
    NewestForgets stored (messages ++ [m]).reverse =
      match m.updates with
      | (none, false) => NewestForgets stored messages.reverse
      | (none, true) => true
      | (some _, false) => false
      | (some _, true) => !NewestForgets stored messages.reverse := by
  rw [List.reverse_append, List.reverse_singleton, List.singleton_append, NewestForgets]

/-- Nothing is left exactly when the newest message that says anything forgets. -/
theorem isSome_rememberOneByOne (messages : List Message) :
    (rememberOneByOne row messages sourceThreadId).isSome =
      !NewestForgets row.isSome messages.reverse := by
  induction messages using List.reverseRecOn with
  | nil => cases row <;> rfl
  | append_singleton messages m ih =>
    rw [rememberOneByOne_append, rememberFromMessages_singleton, newestForgets_append_singleton]
    obtain ⟨name, asks⟩ := m.updates
    cases name with
    | none =>
      cases asks with
      | true => rfl
      | false => exact ih
    | some name =>
      cases asks with
      | false => cases rememberOneByOne row messages sourceThreadId <;> rfl
      | true =>
        -- the message deletes what the older ones leave
        simp only [Bool.not_not]
        rw [← Bool.not_not (NewestForgets _ _), ← ih]
        cases rememberOneByOne row messages sourceThreadId <;> rfl

/-- **What the messages leave one by one**: nothing when the newest forgets, and otherwise the last
    name they introduce, or the one that was there. -/
theorem rememberOneByOne_value (messages : List Message) :
    (rememberOneByOne row messages sourceThreadId).map (·.memoryValue) =
      if NewestForgets row.isSome messages.reverse then none
      else introducedName messages <|> row.map (·.memoryValue) := by
  induction messages using List.reverseRecOn with
  | nil => cases row <;> rfl
  | append_singleton messages m ih =>
    rw [rememberOneByOne_append, rememberFromMessages_singleton, introducedName_append]
    rw [introducedName_singleton, newestForgets_append_singleton]
    generalize m.updates = updates
    obtain ⟨name, asks⟩ := updates
    cases name with
    | none =>
      cases asks with
      | true => rfl
      | false => exact ih
    | some name =>
      cases asks with
      | false => cases rememberOneByOne row messages sourceThreadId <;> rfl
      | true =>
        have hsome := @isSome_rememberOneByOne row sourceThreadId messages
        cases hleft : rememberOneByOne row messages sourceThreadId with
        | none =>
          rw [hleft, eq_comm, Bool.not_eq_eq_eq_not] at hsome
          rw [hsome]
          rfl
        | some left =>
          rw [hleft, eq_comm, Bool.not_eq_eq_eq_not] at hsome
          rw [hsome]
          rfl

/-! ## All at once -/

theorem newestForgets_of_silent {messages : List Message} (hask : asksToForget messages = false)
    (hname : introducedName messages = none) :
    NewestForgets row.isSome messages.reverse = !row.isSome := by
  have hone : ∀ m ∈ messages, m.updates = (none, false) := by
    intro m hm
    obtain ⟨a, b, rfl⟩ := List.append_of_mem hm
    rw [← List.singleton_append, asksToForget_append, asksToForget_append, Bool.or_eq_false_iff,
      Bool.or_eq_false_iff] at hask
    rw [asksToForget_singleton] at hask
    exact Prod.ext ((introducedName_eq_none_iff _).mp hname m hm) hask.2.1
  clear hask hname
  rw [← List.reverse_reverse messages] at hone
  generalize messages.reverse = newest at hone ⊢
  induction newest with
  | nil => rfl
  | cons m older ih =>
    rw [NewestForgets, hone m (by simp)]
    exact ih fun x hx => hone x (by simp at hx ⊢; exact .inl hx)

/-- Messages that introduce a name and do not ask to forget leave it. -/
theorem newestForgets_of_introduced {messages : List Message} (hask : asksToForget messages = false)
    (hname : (introducedName messages).isSome = true) :
    NewestForgets row.isSome messages.reverse = false := by
  induction messages using List.reverseRecOn with
  | nil => exact absurd hname (by simp [introducedName, collectUpdates])
  | append_singleton messages m ih =>
    rw [asksToForget_append, asksToForget_singleton, Bool.or_eq_false_iff] at hask
    rw [introducedName_append, introducedName_singleton] at hname
    rw [newestForgets_append_singleton]
    generalize m.updates = updates at hask hname ⊢
    obtain ⟨name, asks⟩ := updates
    obtain ⟨hrest, rfl⟩ := hask
    cases name with
    | none => exact ih hrest hname
    | some name => rfl

/-- Messages that ask to forget the name and introduce none delete it. -/
theorem newestForgets_of_asked {messages : List Message} (hask : asksToForget messages = true)
    (hname : introducedName messages = none) :
    NewestForgets row.isSome messages.reverse = true := by
  induction messages using List.reverseRecOn with
  | nil => exact absurd hask (by simp [asksToForget, collectUpdates])
  | append_singleton messages m ih =>
    rw [asksToForget_append, asksToForget_singleton, Bool.or_eq_true] at hask
    rw [introducedName_append, introducedName_singleton] at hname
    rw [newestForgets_append_singleton]
    generalize m.updates = updates at hask hname ⊢
    obtain ⟨name, asks⟩ := updates
    cases name with
    | some name => exact absurd hname (by simp)
    | none =>
      cases asks with
      | true => rfl
      | false =>
        rcases hask with hask | hask
        · exact ih hask hname
        · exact absurd hask (by simp)

/-- **The order of the messages is respected** exactly when they do not both ask to forget the name
    and introduce one, or a stored name meets a newest message that forgets, or no stored name one
    that introduces. -/
theorem order_respected_iff (row : Option UserMemory) (messages : List Message)
    (sourceThreadId : Option String) :
    RespectsOrder row messages sourceThreadId ↔
      asksToForget messages = false ∨ introducedName messages = none ∨
        NewestForgets row.isSome messages.reverse = row.isSome := by
  unfold RespectsOrder
  rw [rememberOneByOne_value, rememberFromMessages_eq]
  cases hask : asksToForget messages with
  | false =>
    refine iff_of_true ?_ (.inl rfl)
    cases hname : introducedName messages with
    | none =>
      rw [newestForgets_of_silent hask hname]
      cases row <;> rfl
    | some name =>
      rw [newestForgets_of_introduced hask (by rw [hname]; rfl)]
      cases row <;> rfl
  | true =>
    cases hname : introducedName messages with
    | none =>
      refine iff_of_true ?_ (.inr (.inl rfl))
      rw [newestForgets_of_asked hask hname]
      rfl
    | some name =>
      cases row with
      | none => cases NewestForgets (none : Option UserMemory).isSome messages.reverse <;> simp
      | some old => cases NewestForgets (some old).isSome messages.reverse <;> simp

/-! ## An introduction that is taken back -/

/-- The name is stored although the newest message asks to forget it. -/
theorem order_not_respected :
    ¬ ∀ row messages sourceThreadId, RespectsOrder row messages sourceThreadId := by
  intro h
  have hstored := h none [⟨"human", .str "我叫张三"⟩, ⟨"human", .str "忘记我的名字"⟩] none
  exact absurd hstored (by unfold RespectsOrder; decide +kernel)

end Memory

end HyChat
