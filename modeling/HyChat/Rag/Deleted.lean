import HyChat.Rag.SearchCache
import HyChat.Cache.Carried

/-!
# Deleted documents and the search cache

A result computed after a deletion's commit has no chunk of the document, since the query joins the
documents. What can bring one back is an entry: one that was there before the commit is removed by
the deletion itself, and one that is written afterwards must have been computed before.

What the invariant says. `Consistent` speaks of every search under way, every deletion under way
and every entry, and of each says what it cannot have: a result with a chunk of a document whose
deletion has returned. A deletion that has committed and not returned yet is the delicate state.
Entries with its chunks may still be there, and then their keys are among those it has left to
delete; that is `DeletionOk`, and when the last key is gone nothing is left to find.

Why a condition is needed, and why it is on stores. A search computes its result at one moment and
stores it at a later one. If the deletion commits and runs its `delete_pattern` in between, the
store puts the deleted chunk back, under a key that the deletion has passed already. Of the steps
of searches `StoresInTime` excludes this one and no other; a store that is lost on its way is not
excluded, since it writes nothing. It also asks that the deletion's own commands are answered: a
Redis error ends the scan, and the source swallows it.

Ingestions take part because they delete the cached searches too, and because a document that is
marked ready or failed must not be one that was deleted meanwhile.
-/

set_option autoImplicit false

namespace HyChat

open Lib

namespace Rag

variable {V : Type}

/-! ## Results of the query

The query joins chunks and documents, so a document that is gone has no chunk in a result. -/

/-- A row of the query is a chunk of a document that is there, is ready, and is the user's. -/
theorem mem_of_mem_readyRows {db : Database V} {userId : String} {documentIds : List String}
    {row : KnowledgeChunk V × KnowledgeDocument} (h : row ∈ readyRows db userId documentIds) :
    row.2 ∈ db.documents := by
  obtain ⟨chunk, -, hrow⟩ := List.mem_filterMap.mp h
  obtain ⟨d, hd, hif⟩ := Option.bind_eq_some_iff.mp hrow
  split at hif
  · cases hif
    exact List.mem_of_find?_eq_some hd
  · exact absurd hif (by simp)

/-- The query finds chunks of the documents that are there. -/
theorem mentions_runSearch {index : VectorIndex V} {db : Database V} {userId : String}
    {args : SearchArgs} {id : String} (h : ∀ d ∈ db.documents, d.id ≠ id) :
    mentions id (runSearch index db userId args) = false := by
  unfold runSearch mentions
  rw [List.any_eq_false]
  intro json hjson
  obtain ⟨row, hrow, rfl⟩ := List.mem_map.mp hjson
  have hmem := List.mem_of_mem_take hrow
  rw [List.mem_insertionSort] at hmem
  have hne := h row.2 (mem_of_mem_readyRows hmem)
  simpa [isChunkOf, resultRow, List.lookup_cons] using hne

/-- No document of the list has a chunk in the value. -/
def Free (ids : List String) (value : Json) : Prop := ∀ id ∈ ids, mentions id value = false

theorem free_searchResult {ids : List String} {l : Cache.Lookup} (h : Free ids l.value) :
    Free ids (searchResult l) := by
  intro id hid
  have hm := h id hid
  unfold searchResult
  split
  · rename_i rows hv
    rw [hv] at hm
    exact hm
  · rfl

/-! ## One step of a search

A search holds what its lookup has found or what its query has computed, until it returns. -/

/-- What a search holds has no chunk of these documents. -/
def Holds (ids : List String) : Cache.Phase → Prop
  | .store value => (∃ rows, value = .arr rows) ∧ Free ids value
  | .release (.returned l) => Free ids l.value
  | .done (.returned l) => Free ids l.value
  | _ => True

theorem holds_iff {ids : List String} (phase : Cache.Phase) :
    Holds ids phase ↔ Cache.Carries (Free ids) phase := by
  cases phase with
  | store value => exact Iff.rfl
  | release outcome => cases outcome <;> exact Iff.rfl
  | done outcome => cases outcome <;> exact Iff.rfl
  | lookup => exact Iff.rfl
  | acquire => exact Iff.rfl
  | wait => exact Iff.rfl
  | poll => exact Iff.rfl
  | recheck => exact Iff.rfl
  | produce => exact Iff.rfl

/-- **A search goes on holding nothing of the documents**, when neither the entry nor its own query
    gives it any. -/
theorem holds_advance {ids : List String} {call : Cache.Call} {c c' : Cache.Caller}
    {r r' : Cache.Redis} {choice : Cache.Choice} (h : Holds ids c.phase)
    (hentry : Free ids (Cache.lookupOf r.entry).value)
    (hproduced : Cache.Supplies (Free ids) choice)
    (hs : c.advance true call r choice = some (c', r')) : Holds ids c'.phase := by
  rw [holds_iff] at h ⊢
  exact Cache.Caller.carries_advance (fun _ _ => rfl) h hentry hproduced hs

/-- An entry that is as it was, or has no chunk of the deleted documents. -/
def Refreshed (deleted : List String) (before after : Option Cache.Entry) : Prop :=
  after = before ∨ Free deleted (Cache.lookupOf after).value

theorem free_none (ids : List String) : Free ids (Cache.lookupOf none).value := fun _ _ => rfl

/-- A search changes its entry only when it stores its result. -/
theorem entry_advance {deleted : List String} {call : Cache.Call} {c c' : Cache.Caller}
    {r r' : Cache.Redis} {choice : Cache.Choice}
    (hstore : ∀ value d, c.phase = .store value → choice = .command d → d ≠ .lost →
      (∃ rows, value = .arr rows) ∧ Free deleted value)
    (hs : c.advance true call r choice = some (c', r')) : Refreshed deleted r.entry r'.entry := by
  rcases Cache.Caller.entry_advance hs with he | ⟨value, d, hp, hd, hreached, he⟩
  · exact .inl he
  · obtain ⟨⟨rows, rfl⟩, hfree⟩ := hstore value d hp hd hreached
    refine .inr ?_
    rw [Cache.lookupOf_stored he]
    exact hfree

/-! ## The invariant -/

/-- A deletion that has committed, and what its scan has still to remove. -/
def DeletionOk (s : RagState V) (d : Deletion) : Prop :=
  match d.phase with
  | .unlink => d.documentId ∈ s.deleted
  | .invalidate .scan => d.documentId ∈ s.deleted
  | .invalidate (.keys remaining) =>
      d.documentId ∈ s.deleted ∧
        ∀ key, mentions d.documentId (Cache.lookupOf (s.redis key).entry).value = true → key ∈ remaining
  | _ => True

/-- What holds between any two steps, as long as searches store in time. -/
structure Consistent (s : RagState V) : Prop where
  documents : ∀ d ∈ s.db.documents, d.id ∉ s.deleted
  returned : ∀ id ∈ s.returned, id ∈ s.deleted
  keys : ∀ key, (s.redis key).entry.isSome = true → key ∈ s.keys
  entries : ∀ key, Free s.returned (Cache.lookupOf (s.redis key).entry).value
  deletions : ∀ d ∈ s.deletions, DeletionOk s d
  searches : ∀ x ∈ s.searches, (∀ id ∈ x.goneBefore, id ∈ s.returned) ∧
    Holds x.goneBefore x.caller.phase

/-- No search writes a result with a chunk of a document that has been deleted meanwhile (a command
    that is lost writes nothing), and the commands of a deletion's `delete_pattern` are answered. -/
def StoresInTime (s : RagState V) : RagAction V → Prop
  | .searchStep i (.command d) => ∀ x value, s.searches[i]? = some x →
      x.caller.phase = .store value → d ≠ .lost → Free s.deleted value
  | .deleteStep i d _ => ∀ x pattern, s.deletions[i]? = some x →
      x.phase = .invalidate pattern → d = .answered
  | _ => True

/-- Nothing has been searched or deleted. -/
theorem consistent_start (db : Database V) : Consistent (.start db : RagState V) :=
  ⟨fun _ _ h => absurd h (by simp [RagState.start]), fun _ h => absurd h (by simp [RagState.start]),
    fun _ h => absurd h (by simp [RagState.start]), fun _ _ _ => rfl,
    fun _ h => absurd h (by simp [RagState.start]), fun _ h => absurd h (by simp [RagState.start])⟩

/-- The state after its entries have been refreshed. -/
structure Refreshes (s s' : RagState V) : Prop where
  deleted : s'.deleted = s.deleted
  returned : s'.returned = s.returned
  entry : ∀ key, Refreshed s.deleted (s.redis key).entry (s'.redis key).entry

theorem DeletionOk.refresh {s s' : RagState V} {d : Deletion} (h : DeletionOk s d)
    (hr : Refreshes s s') : DeletionOk s' d := by
  unfold DeletionOk at h ⊢
  rw [hr.deleted]
  match hp : d.phase with
  | .load => trivial
  | .commit => trivial
  | .done => trivial
  | .unlink =>
    rw [hp] at h
    exact h
  | .invalidate .scan =>
    rw [hp] at h
    exact h
  | .invalidate (.keys remaining) =>
    rw [hp] at h
    obtain ⟨hmem, hkeys⟩ := h
    refine ⟨hmem, ?_⟩
    intro key hm
    rcases hr.entry key with he | hfree
    · rw [he] at hm
      exact hkeys key hm
    · rw [hfree _ hmem] at hm
      exact absurd hm (by simp)

theorem Consistent.entries_refresh {s s' : RagState V} (h : Consistent s) (hr : Refreshes s s')
    (key : String) : Free s'.returned (Cache.lookupOf (s'.redis key).entry).value := by
  rw [hr.returned]
  rcases hr.entry key with he | hfree
  · rw [he]
    exact h.entries key
  · exact fun id hid => hfree id (h.returned id hid)

theorem refreshes_removeEntry (s : RagState V) (key : String) : Refreshes s (s.removeEntry key) := by
  refine ⟨rfl, rfl, ?_⟩
  intro k
  show Refreshed s.deleted (s.redis k).entry (Function.update s.redis key _ k).entry
  by_cases hk : k = key
  · subst hk
    rw [Function.update_self]
    exact .inr (free_none _)
  · rw [Function.update_of_ne hk]
    exact .inl rfl

/-- Removing entries keeps everything. -/
theorem Consistent.removeEntry {s : RagState V} (h : Consistent s) (key : String) :
    Consistent (s.removeEntry key) := by
  have hr := refreshes_removeEntry s key
  refine ⟨h.documents, h.returned, ?_, h.entries_refresh hr, fun d hd => (h.deletions d hd).refresh hr,
    h.searches⟩
  intro k hk
  apply h.keys k
  replace hk : (Function.update s.redis key _ k).entry.isSome = true := hk
  by_cases he : k = key
  · subst he
    rw [Function.update_self] at hk
    exact absurd hk (by simp)
  · rw [Function.update_of_ne he] at hk
    exact hk

/-- A command of `delete_pattern` leaves the state as it is or removes an entry. -/
theorem patternStep_cases (s : RagState V) (p : PatternPhase) (d : Cache.Delivery) :
    (s.patternStep p d).1 = s ∨ ∃ key, (s.patternStep p d).1 = s.removeEntry key := by
  unfold RagState.patternStep
  split
  · exact .inl rfl
  · exact .inl rfl
  · exact .inl rfl
  · exact .inr ⟨_, rfl⟩
  · exact .inl rfl
  · exact .inr ⟨_, rfl⟩

theorem Consistent.patternStep {s : RagState V} (h : Consistent s) (p : PatternPhase)
    (d : Cache.Delivery) : Consistent (s.patternStep p d).1 := by
  rcases patternStep_cases s p d with he | ⟨key, he⟩
  · rw [he]
    exact h
  · rw [he]
    exact h.removeEntry key

/-! ## The steps -/

/-- A new search holds nothing. -/
theorem Consistent.search {s : RagState V} (h : Consistent s) (args : SearchArgs) (token : String) :
    Consistent { s with searches := s.searches ++ [⟨args, token, .start, s.returned⟩] } := by
  refine ⟨h.documents, h.returned, h.keys, h.entries, h.deletions, ?_⟩
  intro x hx
  rcases List.mem_append.mp hx with hx | hx
  · exact h.searches x hx
  · rw [List.mem_singleton] at hx
    subst hx
    exact ⟨fun _ hid => hid, trivial⟩

/-- A search goes on, and its store is in time. -/
theorem Consistent.searchStep {index : VectorIndex V} {userId : String} {s s' : RagState V} {i : Nat}
    {choice : SearchChoice} (h : Consistent s) (hok : StoresInTime s (.searchStep i choice))
    (hs : s.searchStep index userId i choice = some s') : Consistent s' := by
  simp only [RagState.searchStep, Option.bind_eq_some_iff, Option.map_eq_some_iff] at hs
  obtain ⟨x, hx, ⟨c, r⟩, hadv, rfl⟩ := hs
  obtain ⟨hgone, hholds⟩ := h.searches x (List.mem_of_getElem? hx)
  -- the entry changes only when the search stores, and then in time
  have hentry : Refreshed s.deleted (s.redis (x.args.cacheKey userId)).entry r.entry := by
    refine entry_advance ?_ hadv
    intro value d hp hd hreached
    rw [hp] at hholds
    refine ⟨hholds.1, ?_⟩
    cases choice with
    | command d' =>
      obtain rfl : d' = d := Cache.Choice.command.inj hd
      exact hok x value hx hp hreached
    | clock expired => exact absurd hadv (by simp [Cache.Caller.advance, hp, RagState.searchChoice])
    | run embeds =>
      cases embeds <;> exact absurd hadv (by simp [Cache.Caller.advance, hp, RagState.searchChoice])
  -- the query finds nothing of a document that was gone when the search began
  have hproduced : ∀ value, s.searchChoice index userId x.args choice = .producer (.ok value) →
      (∃ rows, value = .arr rows) ∧ Free x.goneBefore value := by
    intro value hv
    cases choice with
    | command d => exact absurd hv (by simp [RagState.searchChoice])
    | clock expired => exact absurd hv (by simp [RagState.searchChoice])
    | run embeds =>
      cases embeds with
      | false => exact absurd hv (by simp [RagState.searchChoice])
      | true =>
        cases hv
        refine ⟨⟨_, rfl⟩, ?_⟩
        intro id hid
        apply mentions_runSearch
        intro d hd he
        exact h.documents d hd (he ▸ h.returned id (hgone id hid))
  have hcaller : Holds x.goneBefore c.phase :=
    holds_advance hholds (fun id hid => h.entries _ id (hgone id hid)) hproduced hadv
  -- only this search and its entry change
  have hr : Refreshes s
      { s with
        searches := s.searches.set i { x with caller := c }
        redis := Function.update s.redis (x.args.cacheKey userId) r
        keys := if r.entry.isSome then x.args.cacheKey userId :: s.keys else s.keys } := by
    refine ⟨rfl, rfl, ?_⟩
    intro key
    show Refreshed s.deleted (s.redis key).entry (Function.update s.redis _ r key).entry
    by_cases hk : key = x.args.cacheKey userId
    · subst hk
      rw [Function.update_self]
      exact hentry
    · rw [Function.update_of_ne hk]
      exact .inl rfl
  refine ⟨h.documents, h.returned, ?_, h.entries_refresh hr,
    fun d hd => (h.deletions d hd).refresh hr, ?_⟩
  · intro key hkey
    replace hkey : (Function.update s.redis (x.args.cacheKey userId) r key).entry.isSome = true := hkey
    show key ∈ if r.entry.isSome then x.args.cacheKey userId :: s.keys else s.keys
    by_cases hk : key = x.args.cacheKey userId
    · subst hk
      rw [Function.update_self] at hkey
      rw [if_pos hkey]
      exact List.mem_cons_self
    · rw [Function.update_of_ne hk] at hkey
      split
      · exact List.mem_cons_of_mem _ (h.keys key hkey)
      · exact h.keys key hkey
  · intro y hy
    rcases List.mem_or_eq_of_mem_set hy with hy | rfl
    · exact h.searches y hy
    · exact ⟨hgone, hcaller⟩

/-- A deletion that moves to another phase. -/
theorem Consistent.setDeletion {s : RagState V} (h : Consistent s) {i : Nat} {d : Deletion}
    (hd : DeletionOk s d) : Consistent { s with deletions := s.deletions.set i d } := by
  refine ⟨h.documents, h.returned, h.keys, h.entries, ?_, h.searches⟩
  intro e he
  rcases List.mem_or_eq_of_mem_set he with he | rfl
  · exact h.deletions e he
  · exact hd

/-- The commit of a deletion. -/
theorem Consistent.commit {s : RagState V} (h : Consistent s) (id : String) :
    Consistent { s with db := s.db.delete id, deleted := id :: s.deleted } := by
  refine ⟨?_, fun x hx => List.mem_cons_of_mem _ (h.returned x hx), h.keys, h.entries, ?_, h.searches⟩
  · intro d hd hmem
    obtain ⟨hd, hne⟩ := List.mem_filter.mp hd
    rcases List.mem_cons.mp hmem with he | hmem
    · simp [he] at hne
    · exact h.documents d hd hmem
  · intro d hd
    have hold := h.deletions d hd
    unfold DeletionOk at hold ⊢
    match hp : d.phase with
    | .load => trivial
    | .commit => trivial
    | .done => trivial
    | .unlink =>
      rw [hp] at hold
      exact List.mem_cons_of_mem _ hold
    | .invalidate .scan =>
      rw [hp] at hold
      exact List.mem_cons_of_mem _ hold
    | .invalidate (.keys remaining) =>
      rw [hp] at hold
      exact ⟨List.mem_cons_of_mem _ hold.1, hold.2⟩

theorem isSome_of_mentions {id : String} {entry : Option Cache.Entry}
    (h : mentions id (Cache.lookupOf entry).value = true) : entry.isSome = true := by
  cases entry with
  | none => exact absurd h (by simp [Cache.lookupOf, Cache.Lookup.miss, mentions])
  | some e => rfl

/-- **An answered command of a deletion's `delete_pattern`** leaves fewer keys to remove, and the
    last one leaves no entry with a chunk of the document. -/
theorem patternStep_deletion {s : RagState V} {x : Deletion} {pattern : PatternPhase}
    (h : Consistent s) (hok : DeletionOk s { x with phase := .invalidate pattern }) :
    (∃ next, s.patternStep pattern .answered = ((s.patternStep pattern .answered).1, some next) ∧
      DeletionOk (s.patternStep pattern .answered).1 { x with phase := .invalidate next }) ∨
    (s.patternStep pattern .answered = (s, none) ∧ x.documentId ∈ s.deleted ∧
      ∀ key, mentions x.documentId (Cache.lookupOf (s.redis key).entry).value = false) := by
  cases pattern with
  | scan =>
    refine .inl ⟨_, rfl, hok, ?_⟩
    intro key hm
    have hsome := isSome_of_mentions hm
    exact List.mem_filter.mpr ⟨h.keys key hsome, hsome⟩
  | keys remaining =>
    obtain ⟨hmem, hkeys⟩ := hok
    cases remaining with
    | nil =>
      refine .inr ⟨rfl, hmem, ?_⟩
      intro key
      cases hm : mentions x.documentId (Cache.lookupOf (s.redis key).entry).value with
      | false => rfl
      | true => exact absurd (hkeys key hm) (by simp)
    | cons key rest =>
      refine .inl ⟨_, rfl, hmem, ?_⟩
      intro k hm
      replace hm : mentions x.documentId
        (Cache.lookupOf (Function.update s.redis key _ k).entry).value = true := hm
      by_cases hk : k = key
      · subst hk
        rw [Function.update_self] at hm
        exact absurd hm (by simp [Cache.lookupOf, Cache.Lookup.miss, mentions])
      · rw [Function.update_of_ne hk] at hm
        rcases List.mem_cons.mp (hkeys k hm) with he | hrest
        · exact absurd he hk
        · exact hrest

/-- A deletion that returns True. -/
theorem Consistent.returns {s : RagState V} (h : Consistent s) {id : String} (hmem : id ∈ s.deleted)
    (hfree : ∀ key, mentions id (Cache.lookupOf (s.redis key).entry).value = false) :
    Consistent { s with returned := id :: s.returned } := by
  refine ⟨h.documents, ?_, h.keys, ?_, h.deletions, ?_⟩
  · intro x hx
    rcases List.mem_cons.mp hx with rfl | hx
    · exact hmem
    · exact h.returned x hx
  · intro key x hx
    rcases List.mem_cons.mp hx with rfl | hx
    · exact hfree key
    · exact h.entries key x hx
  · intro x hx
    obtain ⟨hgone, hholds⟩ := h.searches x hx
    exact ⟨fun y hy => List.mem_cons_of_mem _ (hgone y hy), hholds⟩

/-- A deletion goes on. -/
theorem Consistent.deleteStep {userId : String} {s s' : RagState V} {i : Nat} {d : Cache.Delivery}
    {unlinked : Bool} (h : Consistent s) (hok : StoresInTime s (.deleteStep i d unlinked))
    (hs : s.deleteStep userId i d unlinked = some s') : Consistent s' := by
  simp only [RagState.deleteStep, Option.bind_eq_some_iff] at hs
  obtain ⟨x, hx, hs⟩ := hs
  have hx' := h.deletions x (List.mem_of_getElem? hx)
  cases hp : x.phase with
  | load =>
    rw [hp] at hs
    simp only at hs
    split at hs
    · rename_i doc _
      cases hs
      apply h.setDeletion
      by_cases hu : doc.userId = some userId
      · rw [if_pos hu]
        trivial
      · rw [if_neg hu]
        trivial
    · cases hs
      exact h.setDeletion trivial
  | commit =>
    rw [hp] at hs
    cases hs
    exact (h.commit x.documentId).setDeletion List.mem_cons_self
  | unlink =>
    rw [hp] at hs
    cases hs
    apply h.setDeletion
    unfold DeletionOk at hx'
    rw [hp] at hx'
    cases unlinked with
    | true => exact hx'
    | false => trivial
  | invalidate pattern =>
    -- the commands of the deletion are answered
    have hd := hok x pattern hx hp
    subst hd
    have hx₀ : DeletionOk s { x with phase := .invalidate pattern } := by
      rw [← hp]
      exact hx'
    have hstep := h.patternStep pattern .answered
    rw [hp] at hs
    simp only at hs
    -- either keys are left, or the last one has gone and the deletion returns
    rcases patternStep_deletion h hx₀ with ⟨next, he, hnext⟩ | ⟨he, hmem, hfree⟩
    · rw [he] at hs
      cases hs
      exact hstep.setDeletion hnext
    · rw [he] at hs
      cases hs
      exact (h.returns hmem hfree).setDeletion trivial
  | done =>
    rw [hp] at hs
    exact absurd hs (by simp)

theorem Consistent.setIngestion {s : RagState V} (h : Consistent s) (i : Nat) (x : Ingestion V) :
    Consistent { s with ingestions := s.ingestions.set i x } :=
  ⟨h.documents, h.returned, h.keys, h.entries, h.deletions, h.searches⟩

/-- A change of the tables that adds no deleted document. -/
theorem Consistent.setDb {s : RagState V} (h : Consistent s) {db : Database V}
    (hdb : ∀ d ∈ db.documents, d.id ∉ s.deleted) : Consistent { s with db := db } :=
  ⟨hdb, h.returned, h.keys, h.entries, h.deletions, h.searches⟩

theorem id_of_mem_set {db : Database V} {id : String}
    (change : KnowledgeDocument → KnowledgeDocument) (hid : ∀ d, (change d).id = d.id)
    {d : KnowledgeDocument} (h : d ∈ (db.set id change).documents) : ∃ d₀ ∈ db.documents, d.id = d₀.id := by
  obtain ⟨d₀, hd₀, rfl⟩ := List.mem_map.mp h
  refine ⟨d₀, hd₀, ?_⟩
  split
  · exact hid d₀
  · rfl

theorem Consistent.markReady {s : RagState V} (h : Consistent s) (id : String) (count : Nat)
    (rows : List (KnowledgeChunk V)) :
    Consistent { s with db := (s.db.markReady id count).addChunks rows } := by
  apply h.setDb
  intro d hd
  obtain ⟨d₀, hd₀, he⟩ := id_of_mem_set
    (fun d => { d with status := .ready, chunkCount := count }) (fun _ => rfl) hd
  rw [he]
  exact h.documents d₀ hd₀

theorem Consistent.markFailed {s : RagState V} (h : Consistent s) (id error : String)
    (rows : List (KnowledgeChunk V)) :
    Consistent { s with db := (s.db.markFailed id error).addChunks rows } := by
  apply h.setDb
  intro d hd
  obtain ⟨d₀, hd₀, he⟩ := id_of_mem_set
    (fun d => { d with status := .failed, errorMessage := some error }) (fun _ => rfl) hd
  rw [he]
  exact h.documents d₀ hd₀

/-- An ingestion goes on. It brings no deleted document back. -/
theorem Consistent.ingestStep {s s' : RagState V} {i : Nat} {d : Cache.Delivery} {accepted : Bool}
    (h : Consistent s) (hs : s.ingestStep i d accepted = some s') : Consistent s' := by
  simp only [RagState.ingestStep, Option.bind_eq_some_iff] at hs
  obtain ⟨x, -, hs⟩ := hs
  cases hp : x.phase with
  | lookup =>
    rw [hp] at hs
    simp only at hs
    split at hs
    · cases hs
      exact h.setIngestion i _
    · cases hs
      exact h.setIngestion i _
  | removeFailed id =>
    rw [hp] at hs
    simp only at hs
    split at hs
    · cases hs
      -- removing a document of a failed ingestion brings none back
      have hdb : Consistent { s with db := s.db.delete id } :=
        h.setDb fun d hd => h.documents d (List.mem_filter.mp hd).1
      exact hdb.setIngestion i _
    · cases hs
      exact h.setIngestion i _
  | create =>
    rw [hp] at hs
    simp only at hs
    split at hs
    · exact absurd hs (by simp)
    · rename_i hnew
      split at hs
      · cases hs
        have hdb : Consistent { s with db := s.db.insert (newDocument x.env x.upload) } := by
          -- the id of the new document is none that was deleted
          apply h.setDb
          intro d hd
          rcases List.mem_append.mp hd with hd | hd
          · exact h.documents d hd
          · rw [List.mem_singleton] at hd
            subst hd
            exact fun hmem => hnew (.inr hmem)
        exact hdb.setIngestion i _
      · cases hs
        exact h.setIngestion i _
  | process =>
    rw [hp] at hs
    simp only at hs
    split at hs
    · split at hs
      · cases hs
        exact (h.markReady _ _ _).setIngestion i _
      · cases hs
        exact (h.markFailed _ _ _).setIngestion i _
    · cases hs
      exact h.setIngestion i _
  | invalidate pattern =>
    have hstep := h.patternStep pattern d
    rw [hp] at hs
    simp only at hs
    split at hs
    · rename_i s₁ next he
      rw [he] at hstep
      cases hs
      exact hstep.setIngestion i _
    · rename_i s₁ he
      rw [he] at hstep
      cases hs
      exact hstep.setIngestion i _
  | done =>
    rw [hp] at hs
    exact absurd hs (by simp)

/-- Any step. -/
theorem Consistent.step {index : VectorIndex V} {userId : String} {s s' : RagState V}
    {a : RagAction V} (h : Consistent s) (hok : StoresInTime s a)
    (hs : (ragService index userId).step s a = some s') : Consistent s' := by
  cases a with
  | search args token =>
    cases hs
    exact h.search args token
  | searchStep i choice => exact h.searchStep hok hs
  | delete id =>
    cases hs
    refine ⟨h.documents, h.returned, h.keys, h.entries, ?_, h.searches⟩
    intro d hd
    rcases List.mem_append.mp hd with hd | hd
    · exact h.deletions d hd
    · rw [List.mem_singleton] at hd
      subst hd
      trivial
  | deleteStep i d unlinked => exact h.deleteStep hok hs
  | ingest env upload =>
    cases hs
    exact ⟨h.documents, h.returned, h.keys, h.entries, h.deletions, h.searches⟩
  | ingestStep i d accepted => exact h.ingestStep hs
  | expireEntry key =>
    cases hs
    exact h.removeEntry key
  | expireLock key =>
    cases hs
    have hentry : ∀ k, (Function.update s.redis key { s.redis key with lock := none } k).entry =
        (s.redis k).entry := by
      intro k
      by_cases hk : k = key
      · subst hk
        rw [Function.update_self]
      · rw [Function.update_of_ne hk]
    have hr : Refreshes s
        { s with redis := Function.update s.redis key { s.redis key with lock := none } } :=
      ⟨rfl, rfl, fun k => .inl (hentry k)⟩
    refine ⟨h.documents, h.returned, ?_, h.entries_refresh hr,
      fun d hd => (h.deletions d hd).refresh hr, h.searches⟩
    intro k hk
    apply h.keys k
    rw [← hentry k]
    exact hk

/-- **Deleted knowledge is not served while every search stores its result in time.** -/
theorem deleted_not_served (index : VectorIndex V) (userId : String) (db : Database V)
    (s : RagState V) (h : (ragService index userId).Reach StoresInTime (.start db) s) :
    ∀ x ∈ s.searches, ∀ l, x.caller.phase = .done (.returned l) →
      ∀ id ∈ x.goneBefore, mentions id (searchResult l) = false := by
  have hinv : Consistent s := h.invariant (consistent_start db)
    fun s a s' hi hok hs => hi.step hok hs
  intro x hx l hp
  have hholds := (hinv.searches x hx).2
  rw [hp] at hholds
  exact free_searchResult hholds

/-! ## A search that overlaps a deletion -/

def nearest : VectorIndex Nat := ⟨fun _ c => c.chunkIndex, fun _ _ => .null, fun c => c.chunkIndex⟩

def oneDocument : Database Nat :=
  ⟨[⟨"d1", some "u1", none, "a.txt", none, "/rag/a.txt", "sha", .ready, 1, [], none⟩],
    [⟨"d1", 0, "hello", [], 0⟩]⟩

def greetingSearch : SearchArgs := ⟨"hello", none, []⟩

/-- What the search has returned. -/
def Search.result (x : Search) : Option Json :=
  match x.caller.phase with
  | .done (.returned l) => some (searchResult l)
  | _ => none

theorem Search.phase_of_result {x : Search} {json : Json} (h : x.result = some json) :
    ∃ l, x.caller.phase = .done (.returned l) ∧ searchResult l = json := by
  unfold Search.result at h
  split at h
  · rename_i l hl
    exact ⟨l, hl, Option.some.inj h⟩
  · exact absurd h (by simp)

/-- The query runs before the commit, its result is stored after the keys have been deleted, and a
    search that starts after that reads it. -/
theorem deleted_served :
    ¬ ∀ s, (ragService nearest "u1").Reach Lts.Anything (.start oneDocument) s →
      ∀ x ∈ s.searches, ∀ l, x.caller.phase = .done (.returned l) →
        ∀ id ∈ x.goneBefore, mentions id (searchResult l) = false := by
  intro h
  obtain ⟨s, hs, hp⟩ := Lts.exists_of_run (ragService nearest "u1") (.start oneDocument)
    [.search greetingSearch "t0", .searchStep 0 (.command .answered),
      .searchStep 0 (.command .answered), .searchStep 0 (.command .answered),
      .searchStep 0 (.run true), .delete "d1", .deleteStep 0 .answered true,
      .deleteStep 0 .answered true, .deleteStep 0 .answered true, .deleteStep 0 .answered true,
      .deleteStep 0 .answered true, .searchStep 0 (.command .answered),
      .search greetingSearch "t1", .searchStep 1 (.command .answered)]
    (P := fun s => s.searches.any fun x => x.goneBefore.contains "d1" &&
      x.result.any (mentions "d1")) (by decide +kernel)
  obtain ⟨x, hx, hx'⟩ := List.any_eq_true.mp hp
  rw [Bool.and_eq_true] at hx'
  obtain ⟨hgone, hmention⟩ := hx'
  obtain ⟨json, hjson, hm⟩ := (Option.any_eq_true ..).mp hmention
  obtain ⟨l, hl, rfl⟩ := Search.phase_of_result hjson
  rw [h s hs x hx l hl "d1" (List.contains_iff_mem.mp hgone)] at hm
  exact absurd hm (by decide)

/-- `StoresInTime`, as a check. -/
def storesInTime (s : RagState V) : RagAction V → Bool
  | .searchStep i (.command _) =>
      match s.searches[i]? with
      | some x =>
          match x.caller.phase with
          | .store value => s.deleted.all fun id => !mentions id value
          | _ => true
      | none => true
  | .deleteStep _ d _ => d == .answered
  | _ => true

theorem storesInTime_of_check {s : RagState V} {a : RagAction V} (h : storesInTime s a = true) :
    StoresInTime s a := by
  cases a with
  | searchStep i choice =>
    cases choice with
    | command d =>
      intro x value hx hp _ id hid
      simp only [storesInTime, hx, hp, List.all_eq_true] at h
      simpa using h id hid
    | clock expired => trivial
    | run embeds => trivial
  | deleteStep i d unlinked =>
    intro _ _ _ _
    simpa [storesInTime] using h
  | search args token => trivial
  | delete id => trivial
  | ingest env upload => trivial
  | ingestStep i d accepted => trivial
  | expireEntry key => trivial
  | expireLock key => trivial

/-- A search that starts after the deletion queries the database and finds nothing. -/
theorem deleted_not_served_after :
    ∃ s, (ragService nearest "u1").Reach StoresInTime (.start oneDocument) s ∧
      ∃ x ∈ s.searches, x.goneBefore = ["d1"] ∧ ∃ l, x.caller.phase = .done (.returned l) ∧
        mentions "d1" (searchResult l) = false := by
  have hrun : ((ragService nearest "u1").runChecked storesInTime
      [.delete "d1", .deleteStep 0 .answered true, .deleteStep 0 .answered true,
        .deleteStep 0 .answered true, .deleteStep 0 .answered true, .deleteStep 0 .answered true,
        .search greetingSearch "t0", .searchStep 0 (.command .answered),
        .searchStep 0 (.command .answered), .searchStep 0 (.command .answered),
        .searchStep 0 (.run true), .searchStep 0 (.command .answered),
        .searchStep 0 (.command .answered)] (.start oneDocument)).any
      (fun s => s.searches.any fun x => decide (x.goneBefore = ["d1"]) && x.result.isSome) =
        true := by decide +kernel
  obtain ⟨s, hs, hp⟩ := (Option.any_eq_true ..).mp hrun
  have hreach : (ragService nearest "u1").Reach StoresInTime (.start oneDocument) s :=
    Lts.Reach.start.of_runChecked (fun _ _ => storesInTime_of_check) hs
  obtain ⟨x, hx, hx'⟩ := List.any_eq_true.mp hp
  rw [Bool.and_eq_true] at hx'
  obtain ⟨hgone, hdone⟩ := hx'
  refine ⟨s, hreach, x, hx, by simpa using hgone, ?_⟩
  obtain ⟨json, hjson⟩ := Option.isSome_iff_exists.mp hdone
  obtain ⟨l, hl, -⟩ := Search.phase_of_result hjson
  refine ⟨l, hl, deleted_not_served nearest "u1" oneDocument s hreach x hx l hl "d1" ?_⟩
  rw [of_decide_eq_true hgone]
  exact List.mem_cons_self

end Rag

end HyChat
