import HyChat.Cache.Service

/-!
# What a cached value is made of

A caller of `get_or_set_json` holds what its lookup found or what its producer made, and an entry is
what some caller has stored. So a property of values that the producers' results have and that the
entry has to begin with is never lost, however the commands fare. The results are lists, which no
negative marker can be confused with.

The property is arbitrary, and that is the point: the router's search instantiates it with "results
of this user", and learns that a hit is a result of this user, without opening the cache again. The
two invariants are of the entry and of a caller, and each step of a caller is a lemma for each of
them. That lists are asked for is a real condition: a value that imitates a negative entry comes
back as something else, and the property would be lost with it.
-/

set_option autoImplicit false

namespace HyChat

open Lib

namespace Cache

variable {G : Json → Prop} {enabled : Bool}

/-- The value a lookup of the entry would find has the property. -/
def EntryHas (G : Json → Prop) (r : Redis) : Prop := G (lookupOf r.entry).value

/-- What a call holds in a phase has the property. -/
def Carries (G : Json → Prop) : Phase → Prop
  | .store value => (∃ rows, value = .arr rows) ∧ G value
  | .release (.returned l) => G l.value
  | .done (.returned l) => G l.value
  | _ => True

/-- The producer's results are lists with the property. -/
def Supplies (G : Json → Prop) (choice : Choice) : Prop :=
  ∀ value, choice = .producer (.ok value) → (∃ rows, value = .arr rows) ∧ G value

/-- A hit on an entry with the property -/
theorem carries_look {c : Caller} {l : Lookup} {hit : Outcome → Phase} {miss : Phase}
    (hhit : Carries G (hit (.returned l))) (hmiss : Carries G miss) :
    Carries G (c.look l hit miss).phase := by
  unfold Caller.look
  simp only
  split
  · exact hhit
  · exact hmiss

/-- A lookup finds what has the property, or nothing. -/
theorem getJsonLookup_has {d : Delivery} {r : Redis} (hnull : G .null) (h : EntryHas G r) :
    G (getJsonLookup enabled d r).1.value := by
  cases enabled with
  | false => exact hnull
  | true =>
    cases d with
    | answered => exact h
    | lost => exact hnull
    | unanswered => exact hnull

theorem getJsonLookup_entry (d : Delivery) (r : Redis) : (getJsonLookup enabled d r).2 = r := by
  cases enabled with
  | false => rfl
  | true => cases d <;> rfl

/-- **A call goes on carrying the property.** -/
theorem Caller.carries_advance {call : Call} {c c' : Caller} {r r' : Redis} {choice : Choice}
    (hnull : G .null) (h : Carries G c.phase) (hentry : EntryHas G r) (hsupply : Supplies G choice)
    (hs : c.advance enabled call r choice = some (c', r')) : Carries G c'.phase := by
  unfold Caller.advance at hs
  split at hs
  · cases hs
    exact carries_look (getJsonLookup_has hnull hentry) trivial
  · cases hs
    simp only
    split
    · trivial
    · trivial
  · cases hs
    simp only
    split
    · trivial
    · trivial
  · cases hs
    refine carries_look (getJsonLookup_has hnull hentry) ?_
    split
    · trivial
    · trivial
  · cases hs
    exact carries_look (getJsonLookup_has hnull hentry) trivial
  · rename_i result _
    cases result with
    | ok value =>
      cases hs
      exact hsupply value rfl
    | error e =>
      cases hs
      trivial
  · rename_i value d hp
    rw [hp] at h
    simp only [Caller.store, Option.some.injEq] at hs
    split at hs
    · cases hs
      exact h.2
    · split at hs
      · cases hs
        exact h.2
      · cases hs
        exact h.2
  · rename_i outcome d hp
    rw [hp] at h
    cases hs
    cases outcome with
    | returned l => exact h
    | raised e => trivial
  · exact absurd hs (by simp)

/-- A store that reaches the server puts the value there. -/
theorem entry_setJson (value : Json) (d : Delivery) (r : Redis) :
    (setJson enabled value d r).2.entry = r.entry ∨
      d ≠ .lost ∧ (setJson enabled value d r).2.entry = some (.json value) := by
  cases enabled with
  | false => exact .inl rfl
  | true =>
    cases d with
    | answered => exact .inr ⟨by decide, rfl⟩
    | lost => exact .inl rfl
    | unanswered => exact .inr ⟨by decide, rfl⟩

theorem entry_acquireLock (token : String) (d : Delivery) (r : Redis) :
    (acquireLock enabled token d r).2.entry = r.entry := by
  cases enabled with
  | false => rfl
  | true =>
    unfold acquireLock Redis.command
    simp only [if_true]
    cases d with
    | answered => cases r.lock <;> rfl
    | lost => rfl
    | unanswered => cases r.lock <;> rfl

theorem entry_releaseLock (lock : Option String) (d : Delivery) (r : Redis) :
    (releaseLock enabled lock d r).2.entry = r.entry := by
  cases lock with
  | none => rfl
  | some token =>
    have hentry : (compareAndDelete token r).2.entry = r.entry := by
      unfold compareAndDelete
      split
      · rfl
      · rfl
    cases enabled with
    | false => rfl
    | true =>
      cases d with
      | answered => exact hentry
      | lost => rfl
      | unanswered => exact hentry

/-- A list is found again whichever of its two forms was stored. -/
theorem lookupOf_stored {rows : List Json} {entry : Option Entry}
    (h : entry = some (.json (.arr rows)) ∨ entry = some (.json (negativePayload (.arr rows)))) :
    (lookupOf entry).value = .arr rows := by
  rcases h with rfl | rfl
  · rfl
  · rfl

/-- **The entry changes only when a call stores** the value it holds, or the value's negative form,
    by a command that has reached the server. -/
theorem Caller.entry_advance {call : Call} {c c' : Caller} {r r' : Redis} {choice : Choice}
    (hs : c.advance enabled call r choice = some (c', r')) :
    r'.entry = r.entry ∨ ∃ value d, c.phase = .store value ∧ choice = .command d ∧ d ≠ .lost ∧
      (r'.entry = some (.json value) ∨ r'.entry = some (.json (negativePayload value))) := by
  unfold Caller.advance at hs
  split at hs
  · cases hs
    exact .inl (congrArg Redis.entry (getJsonLookup_entry _ _))
  · cases hs
    exact .inl (entry_acquireLock _ _ _)
  · cases hs
    exact .inl rfl
  · cases hs
    exact .inl (congrArg Redis.entry (getJsonLookup_entry _ _))
  · cases hs
    exact .inl (congrArg Redis.entry (getJsonLookup_entry _ _))
  · split at hs
    · cases hs
      exact .inl rfl
    · cases hs
      exact .inl rfl
  · rename_i value d hp
    simp only [Caller.store, Option.some.injEq] at hs
    split at hs
    · cases hs
      rcases entry_setJson (negativePayload value) d r with he | ⟨hd, he⟩
      · exact .inl he
      · exact .inr ⟨value, d, hp, rfl, hd, .inr he⟩
    · split at hs
      · cases hs
        rcases entry_setJson value d r with he | ⟨hd, he⟩
        · exact .inl he
        · exact .inr ⟨value, d, hp, rfl, hd, .inl he⟩
      · cases hs
        exact .inl rfl
  · cases hs
    exact .inl (entry_releaseLock _ _ _)
  · exact absurd hs (by simp)

/-- **The entry keeps the property**, since a call stores what it carries. -/
theorem Caller.entryHas_advance {call : Call} {c c' : Caller} {r r' : Redis} {choice : Choice}
    (h : Carries G c.phase) (hentry : EntryHas G r)
    (hs : c.advance enabled call r choice = some (c', r')) : EntryHas G r' := by
  unfold EntryHas at hentry ⊢
  rcases Caller.entry_advance hs with he | ⟨value, d, hp, -, -, he⟩
  · rw [he]
    exact hentry
  · rw [hp] at h
    obtain ⟨⟨rows, rfl⟩, hg⟩ := h
    rw [lookupOf_stored he]
    exact hg

end Cache

end HyChat
