import HyChat.Rest.Frames

/-!
# What an ingestion leaves to the others

Every state of the two tables that `ingest_file` commits differs from the one it found in documents
of its own user and in chunks of the document it creates, whose id is a new one.

An ingestion commits several times, and may die in between, so what is compared is the state it
found and each state it commits. `KnowledgeKept` is that comparison for the two tables; it is
transitive, each statement of the ingestion has it, and the call as a whole is the composition.
What it does to the user's own documents, and whether it comes to an end, is the subject of the
module on settling.
-/

set_option autoImplicit false

namespace HyChat

open Lib

namespace Rest

variable {V : Type} {userId : String}

/-- The tables after commits of a user's ingestion. -/
structure KnowledgeKept (userId : String) (db db' : Rag.Database V) : Prop where
  keys : (db'.documents.map Rag.KnowledgeDocument.id).Nodup
  frame : KnowledgeFrame userId [] db db'

/-- One commit after the other -/
theorem KnowledgeKept.trans {db db' db'' : Rag.Database V} (h : KnowledgeKept userId db db')
    (h' : KnowledgeKept userId db' db'') : KnowledgeKept userId db db'' :=
  ⟨h'.keys, h.frame.trans h'.frame⟩

theorem not_ofOthers {db : Rag.Database V} {id : String}
    (hown : ∀ d ∈ db.documents, d.id = id → d.userId = some userId) {chunk : Rag.KnowledgeChunk V}
    (hc : chunk.documentId = id) : ofOthers userId db chunk = false := by
  unfold ofOthers
  rw [List.any_eq_false]
  intro d hd he
  obtain ⟨hmem, hu⟩ := List.mem_filter.mp hd
  have hid : d.id = id := (beq_iff_eq.mp he).trans hc
  simp [hown d hmem hid] at hu

/-- Changes of the user's documents and chunks, in the terms of the two lists. -/
theorem knowledgeFrame_of {db db' : Rag.Database V}
    (hd : (db'.documents.filter fun d => d.userId != some userId) =
      db.documents.filter fun d => d.userId != some userId)
    (hc : db'.chunks.filter (ofOthers userId db) = db.chunks.filter (ofOthers userId db)) :
    KnowledgeFrame userId [] db db' :=
  ⟨by rw [map_unlinkFile_nil]; exact hd, hc⟩

/-- A file no other user's document referred to is referred to by none afterwards. -/
theorem KnowledgeFrame.unreferenced {db db' : Rag.Database V} (h : KnowledgeFrame userId [] db db')
    {fileId : String} (hnone : Unreferenced userId db fileId) : Unreferenced userId db' fileId := by
  intro d hd hu
  have hmem : d ∈ db'.documents.filter fun d => d.userId != some userId :=
    List.mem_filter.mpr ⟨hd, by simpa using hu⟩
  rw [h.documents, map_unlinkFile_nil] at hmem
  obtain ⟨hd', -⟩ := List.mem_filter.mp hmem
  exact hnone d hd' hu

variable {db : Rag.Database V}

theorem knowledgeKept_insert (hkeys : (db.documents.map Rag.KnowledgeDocument.id).Nodup)
    {d : Rag.KnowledgeDocument} (hu : d.userId = some userId)
    (hfresh : ∀ d' ∈ db.documents, d'.id ≠ d.id) : KnowledgeKept userId db (db.insert d) := by
  refine ⟨nodup_append hkeys hfresh, knowledgeFrame_of ?_ rfl⟩
  show ((db.documents ++ [d]).filter _) = _
  rw [List.filter_append]
  simp [hu]

/-- A document of the user is deleted. -/
theorem knowledgeKept_delete (hkeys : (db.documents.map Rag.KnowledgeDocument.id).Nodup)
    {d : Rag.KnowledgeDocument} (hd : d ∈ db.documents) (hu : d.userId = some userId) :
    KnowledgeKept userId db (db.delete d.id) := by
  have hown : ∀ d' ∈ db.documents, d'.id = d.id → d'.userId = some userId := by
    intro d' hd' he
    rw [List.inj_on_of_nodup_map hkeys hd' hd he]
    exact hu
  refine ⟨nodup_filter hkeys _, knowledgeFrame_of ?_ ?_⟩
  · refine filter_filter_of_own (fun d : Rag.KnowledgeDocument => d.userId == some userId)
      fun d' hd' => ?_
    by_cases he : d'.id = d.id
    · exact .inr (by simp [hown d' hd' he])
    · exact .inl (by simpa using he)
  · show ((db.chunks.filter fun c => c.documentId != d.id).filter _) = _
    rw [List.filter_filter]
    refine List.filter_congr fun chunk _ => ?_
    by_cases he : chunk.documentId = d.id
    · simp [not_ofOthers hown he]
    · simp [he]

theorem knowledgeKept_set (hkeys : (db.documents.map Rag.KnowledgeDocument.id).Nodup) {id : String}
    (hown : ∀ d ∈ db.documents, d.id = id → d.userId = some userId)
    {change : Rag.KnowledgeDocument → Rag.KnowledgeDocument} (hid : ∀ d, (change d).id = d.id)
    (huser : ∀ d, (change d).userId = d.userId) : KnowledgeKept userId db (db.set id change) := by
  refine ⟨?_, knowledgeFrame_of ?_ rfl⟩
  · have hsame : (db.set id change).documents.map Rag.KnowledgeDocument.id =
        db.documents.map Rag.KnowledgeDocument.id := by
      refine map_key fun d _ => ?_
      split
      · exact hid d
      · rfl
    exact hsame ▸ hkeys
  · refine filter_map_of_own (fun d : Rag.KnowledgeDocument => d.userId == some userId)
      fun d hd => ?_
    by_cases he : d.id = id
    · rw [if_pos he, huser d, hown d hd he]
      exact .inr ⟨by simp, by simp⟩
    · rw [if_neg he]
      exact .inl rfl

/-- Chunks are added to a document of the user. -/
theorem knowledgeKept_addChunks (hkeys : (db.documents.map Rag.KnowledgeDocument.id).Nodup)
    {id : String} (hown : ∀ d ∈ db.documents, d.id = id → d.userId = some userId)
    {rows : List (Rag.KnowledgeChunk V)} (hrows : ∀ row ∈ rows, row.documentId = id) :
    KnowledgeKept userId db (db.addChunks rows) := by
  refine ⟨hkeys, knowledgeFrame_of rfl ?_⟩
  show ((db.chunks ++ rows).filter _) = _
  have hnone : rows.filter (ofOthers userId db) = [] := by
    rw [List.filter_eq_nil_iff]
    intro row hrow
    rw [not_ofOthers hown (hrows row hrow)]
    exact Bool.false_ne_true
  rw [List.filter_append, hnone, List.append_nil]

/-! ## The call -/

variable {env : Rag.Environment V} {upload : Rag.Upload}

/-- What the call has done to the tables, and what it answers. -/
structure Ingested (userId : String) (db : Rag.Database V)
    (r : Except String Rag.KnowledgeDocument × Rag.Session V) : Prop where
  kept : KnowledgeKept userId db r.2.db
  answer : ∀ d, r.1 = .ok d → d ∈ r.2.db.documents ∧ d.userId = some userId

theorem Ingested.after {db' : Rag.Database V} (h : KnowledgeKept userId db db')
    {r : Except String Rag.KnowledgeDocument × Rag.Session V} (hr : Ingested userId db' r) :
    Ingested userId db r :=
  ⟨h.trans hr.kept, hr.answer⟩

theorem ingested_recordFailure {s : Rag.Session V}
    (hkeys : (s.db.documents.map Rag.KnowledgeDocument.id).Nodup)
    (hown : ∀ d ∈ s.db.documents, d.id = env.newId → d.userId = some userId)
    (hadded : s.added = []) (e : String) : Ingested userId s.db (Rag.recordFailure env e s) := by
  have hrefl : KnowledgeKept userId s.db s.db := ⟨hkeys, .refl _⟩
  by_cases hr : s.needsRollback = true
  · refine ⟨by rw [Rag.recordFailure_of_needsRollback hr]; exact hrefl, fun d hd => ?_⟩
    unfold Rag.recordFailure Rag.Session.commit at hd
    rw [hr] at hd
    exact absurd hd (by simp)
  · unfold Rag.recordFailure
    rcases Rag.commit_cases (by simpa using hr) (s.db.markFailed env.newId e) with
      ⟨-, hc⟩ | ⟨-, e', hc⟩
    · rw [hadded, Rag.addChunks_nil] at hc
      rw [hc]
      exact ⟨knowledgeKept_set hkeys hown (fun _ => rfl) fun _ => rfl, fun d hd => absurd hd (by simp)⟩
    · rw [hc]
      exact ⟨hrefl, fun d hd => absurd hd (by simp)⟩

theorem ingested_process {s : Rag.Session V}
    (hkeys : (s.db.documents.map Rag.KnowledgeDocument.id).Nodup)
    (hu : upload.userId = some userId) (hadded : s.added = []) (husable : s.needsRollback = false)
    (hmem : Rag.newDocument env upload ∈ s.db.documents) :
    Ingested userId s.db (Rag.process env upload s) := by
  have hown : ∀ d ∈ s.db.documents, d.id = env.newId → d.userId = some userId := by
    intro d hd he
    rw [List.inj_on_of_nodup_map hkeys hd hmem he]
    exact hu
  unfold Rag.process
  rcases Rag.prepare_cases env upload with ⟨e, hp⟩ | ⟨rows, count, hp, -, hrows⟩
  · rw [hp]
    simp only [hadded, List.append_nil]
    exact ingested_recordFailure (s := ⟨s.db, [], s.needsRollback⟩) hkeys hown rfl e
  · rw [hp]
    simp only [hadded, List.nil_append]
    rcases Rag.commit_cases (s := ⟨s.db, rows, s.needsRollback⟩) husable
      (s.db.markReady env.newId count) with ⟨-, hc⟩ | ⟨-, e, hc⟩
    · rw [hc]
      have hready : KnowledgeKept userId s.db (s.db.markReady env.newId count) :=
        knowledgeKept_set hkeys hown (fun _ => rfl) fun _ => rfl
      refine ⟨hready.trans (knowledgeKept_addChunks hready.keys ?_ hrows), ?_⟩
      · intro d hd he
        obtain ⟨d₀, hd₀, hid, rfl⟩ := Rag.mem_set hd he
        exact hown d₀ hd₀ hid
      · intro d hd
        cases hd
        refine ⟨List.mem_map.mpr ⟨_, hmem, ?_⟩, hu⟩
        exact if_pos rfl
    · rw [hc]
      exact ingested_recordFailure (s := ⟨s.db, [], true⟩) hkeys hown rfl e

theorem ingested_createAndProcess (hkeys : (db.documents.map Rag.KnowledgeDocument.id).Nodup)
    (hu : upload.userId = some userId) (hfresh : ∀ d ∈ db.documents, d.id ≠ env.newId) :
    Ingested userId db (Rag.createAndProcess env upload ⟨db, [], false⟩) := by
  unfold Rag.createAndProcess
  rcases @Rag.commit_cases V env ⟨db, [], false⟩ rfl
    (db.insert (Rag.newDocument env upload)) with ⟨-, hc⟩ | ⟨-, e, hc⟩
  · rw [Rag.addChunks_nil] at hc
    rw [hc]
    have hinsert : KnowledgeKept userId db (db.insert (Rag.newDocument env upload)) :=
      knowledgeKept_insert hkeys hu hfresh
    refine Ingested.after hinsert ?_
    show Ingested userId (db.insert (Rag.newDocument env upload))
      (Rag.process env upload ⟨db.insert (Rag.newDocument env upload), [], false⟩)
    apply ingested_process (s := ⟨db.insert (Rag.newDocument env upload), [], false⟩) hinsert.keys hu
      rfl rfl
    exact List.mem_append_right _ List.mem_cons_self
  · rw [hc]
    exact ⟨⟨hkeys, .refl _⟩, fun d hd => absurd hd (by simp)⟩

/-- **An ingestion stays with its user.** -/
theorem ingested_ingestFile (hkeys : (db.documents.map Rag.KnowledgeDocument.id).Nodup)
    (hu : upload.userId = some userId) (hfresh : ∀ d ∈ db.documents, d.id ≠ env.newId) :
    Ingested userId db (Rag.ingestFile env upload ⟨db, [], false⟩) := by
  unfold Rag.ingestFile
  cases hf : db.findBySha upload with
  | none => exact ingested_createAndProcess hkeys hu hfresh
  | some existing =>
    have hmem : existing ∈ db.documents := List.mem_of_find?_eq_some hf
    have hown : existing.userId = some userId := by
      have hp := List.find?_some hf
      simp only [Bool.and_eq_true, beq_iff_eq] at hp
      exact hp.2.trans hu
    simp only
    by_cases hst : existing.status = .failed
    · simp only [hst, ne_eq, not_true_eq_false, if_false]
      rcases @Rag.commit_cases V env ⟨db, [], false⟩ rfl (db.delete existing.id) with
        ⟨-, hc⟩ | ⟨-, e, hc⟩
      · rw [Rag.addChunks_nil] at hc
        rw [hc]
        have hdelete : KnowledgeKept userId db (db.delete existing.id) :=
          knowledgeKept_delete hkeys hmem hown
        refine Ingested.after hdelete (ingested_createAndProcess hdelete.keys hu ?_)
        exact fun d hd => hfresh d (List.mem_filter.mp hd).1
      · rw [hc]
        exact ⟨⟨hkeys, .refl _⟩, fun d hd => absurd hd (by simp)⟩
    · simp only [ne_eq, hst, not_false_eq_true, if_true]
      refine ⟨⟨hkeys, .refl _⟩, ?_⟩
      intro d hd
      cases hd
      exact ⟨hmem, hown⟩

end Rest

end HyChat
