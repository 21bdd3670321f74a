import HyChat.Rag.Ingest

/-!
# How an ingestion ends

The embedding service returns one vector for every text or raises, so the rows that reach the
session are all the chunks in order or none. Whether the document is settled is then decided by the
one flush that ends the call.

Why "exactly". Between the commit that creates the document and the commit that ends the call,
everything can raise: the loader, the splitter, the embedding service, the flush of the chunks.
Each of these is caught by one handler, which marks the document failed and commits again. So the
document is settled if and only if the last flush is accepted, and `LastFlushAccepted` says which
one that is and what it carries.

The case that goes wrong is a flush that the database rejects. The session then refuses everything,
the handler's own commit included, since it does not roll back first: the document stays as it was
created, and the file, whose hash is on record, is never ingested again. The example is a file with
a character that the database does not store.
-/

set_option autoImplicit false

namespace HyChat

open Lib

namespace Rag

variable {V : Type}

/-! ## Vectors and rows -/

/-- There is a vector, or a gap, for every text. -/
theorem length_placeVectors (env : Environment V) (texts : List String) (generated : List V)
    (h : generated.length = (missingTexts env texts).length) :
    (placeVectors env texts generated).length = texts.length := by
  induction texts generalizing generated with
  | nil => rfl
  | cons text rest ih =>
    cases hc : env.cached text with
    | some v =>
      have hm : missingTexts env (text :: rest) = missingTexts env rest := by
        simp [missingTexts, hc]
      rw [hm] at h
      simp only [placeVectors, hc, List.length_cons, ih generated h]
    | none =>
      have hm : missingTexts env (text :: rest) = text :: missingTexts env rest := by
        simp [missingTexts, hc]
      rw [hm] at h
      cases generated with
      | nil => exact absurd h (by simp)
      | cons v more =>
        have hmore : more.length = (missingTexts env rest).length := by simpa using h
        simp only [placeVectors, hc, List.length_cons, ih more hmore]

/-- When the service returns there is a vector for every text. -/
theorem length_embedDocuments {env : Environment V} {texts : List String} {vectors : List V}
    (h : embedDocuments env texts = .ok vectors) : vectors.length = texts.length := by
  unfold embedDocuments at h
  split at h
  · rename_i hm
    cases h
    exact length_placeVectors env texts [] (by rw [hm]; rfl)
  · split at h
    · exact absurd h (by simp)
    · split at h
      · rename_i hlen
        cases h
        exact length_placeVectors env texts _ hlen
      · exact absurd h (by simp)

/-- The rows of chunks and vectors of one length: one for each, numbered from `i`, all for the
    document. -/
theorem zipStrict_rows (id : String) (i : Nat) (chunks : List (String × JsonObject))
    (vectors : List V) (h : vectors.length = chunks.length) :
    (zipStrict id i chunks vectors).2 = true ∧
      (zipStrict id i chunks vectors).1.map (·.chunkIndex) = List.range' i chunks.length ∧
      ∀ row ∈ (zipStrict id i chunks vectors).1, row.documentId = id := by
  induction chunks generalizing i vectors with
  | nil =>
    cases vectors with
    | nil => exact ⟨rfl, rfl, fun _ h => absurd h (by simp [zipStrict])⟩
    | cons v more => exact absurd h (by simp)
  | cons chunk rest ih =>
    cases vectors with
    | nil => exact absurd h (by simp)
    | cons v more =>
      obtain ⟨heven, hindex, hid⟩ := ih (i + 1) more (by simpa using h)
      obtain ⟨text, metadata⟩ := chunk
      refine ⟨heven, ?_, ?_⟩
      · simp only [zipStrict, List.map_cons, hindex, List.length_cons, List.range'_succ]
      · intro row hrow
        rcases List.mem_cons.mp hrow with rfl | hrow
        · rfl
        · exact hid row hrow

/-- **The body of the `try` block adds every chunk or none.** -/
theorem prepare_cases (env : Environment V) (upload : Upload) :
    (∃ e, prepare env upload = ([], .error e)) ∨
      ∃ rows count, prepare env upload = (rows, .ok count) ∧
        rows.map (·.chunkIndex) = List.range count ∧ ∀ row ∈ rows, row.documentId = env.newId := by
  unfold prepare
  cases env.loadDocument with
  | error e => exact .inl ⟨e, rfl⟩
  | ok sections =>
    simp only
    cases allChunks env upload sections with
    | error e => exact .inl ⟨e, rfl⟩
    | ok chunks =>
      simp only
      cases hv : embedDocuments env (chunks.map (·.1)) with
      | error e => exact .inl ⟨e, rfl⟩
      | ok vectors =>
        have hlen : vectors.length = chunks.length := by
          rw [length_embedDocuments hv, List.length_map]
        obtain ⟨heven, hindex, hid⟩ := zipStrict_rows env.newId 0 chunks vectors hlen
        simp only [heven, if_true]
        exact .inr ⟨_, _, rfl, by rw [hindex, List.range_eq_range'], hid⟩

/-! ## The document a call creates -/

/-- The documents with this id are ready with all their chunks, or failed without any. -/
def Settled (db : Database V) (id : String) : Prop :=
  ∀ d ∈ db.documents, d.id = id →
    (d.status = .ready ∧ (db.chunksOf id).map (·.chunkIndex) = List.range d.chunkCount) ∨
      (d.status = .failed ∧ db.chunksOf id = [])

/-- The session in which the document has just been created, when the call gets that far. -/
def created (env : Environment V) (upload : Upload) (s : Session V) : Option (Session V) :=
  let create (s : Session V) : Option (Session V) :=
    match s.commit env (s.db.insert (newDocument env upload)) with
    | (.ok (), s') => some s'
    | (.error _, _) => none
  match s.db.findBySha upload with
  | none => create s
  | some existing =>
      if existing.status ≠ .failed then none
      else
        match s.commit env (s.db.delete existing.id) with
        | (.ok (), s') => create s'
        | (.error _, _) => none

/-- The database takes the flush that ends the call: all chunks with the document marked ready, or
    the document marked failed with the text of the exception. -/
def LastFlushAccepted (env : Environment V) (upload : Upload) (s : Session V) : Prop :=
  match prepare env upload with
  | (rows, .ok count) => env.accepts ((s.db.markReady env.newId count).addChunks rows) = true
  | (_, .error e) => env.accepts (s.db.markFailed env.newId e) = true

/-- A session with nothing pending in which the id of the new document is unused. -/
structure Session.Ready (s : Session V) (env : Environment V) : Prop where
  added : s.added = []
  usable : s.needsRollback = false
  fresh : ∀ d ∈ s.db.documents, d.id ≠ env.newId
  noChunks : ∀ c ∈ s.db.chunks, c.documentId ≠ env.newId

theorem addChunks_nil (db : Database V) : db.addChunks [] = db := by
  unfold Database.addChunks
  rw [List.append_nil]

/-- **A commit, inverted**, for a session that can be used. -/
theorem commit_cases {env : Environment V} {s : Session V} (h : s.needsRollback = false)
    (db : Database V) :
    (env.accepts (db.addChunks s.added) = true ∧
        s.commit env db = (.ok (), ⟨db.addChunks s.added, [], false⟩)) ∨
      (env.accepts (db.addChunks s.added) = false ∧
        ∃ e, s.commit env db = (.error e, ⟨s.db, [], true⟩)) := by
  unfold Session.commit
  rw [h]
  simp only [Bool.false_eq_true, if_false]
  cases ha : env.accepts (db.addChunks s.added) with
  | true => exact .inl ⟨rfl, rfl⟩
  | false => exact .inr ⟨rfl, _, rfl⟩

theorem Session.Ready.delete {env : Environment V} {s : Session V} (h : s.Ready env) (id : String) :
    (⟨s.db.delete id, [], false⟩ : Session V).Ready env :=
  ⟨rfl, rfl, fun d hd => h.fresh d (List.mem_filter.mp hd).1,
    fun c hc => h.noChunks c (List.mem_filter.mp hc).1⟩

/-- The new document is the only one with its id, and has no chunks yet. -/
structure Created (env : Environment V) (upload : Upload) (s : Session V) : Prop where
  added : s.added = []
  usable : s.needsRollback = false
  mem : newDocument env upload ∈ s.db.documents
  only : ∀ d ∈ s.db.documents, d.id = env.newId → d = newDocument env upload
  noChunks : ∀ c ∈ s.db.chunks, c.documentId ≠ env.newId

/-- The document that is created is the only one with its id. -/
theorem Session.Ready.insert {env : Environment V} {upload : Upload} {s : Session V} (h : s.Ready env) :
    Created env upload ⟨s.db.insert (newDocument env upload), [], false⟩ := by
  refine ⟨rfl, rfl, List.mem_append_right _ List.mem_cons_self, ?_, h.noChunks⟩
  intro d hd hid
  rcases List.mem_append.mp hd with hd | hd
  · exact absurd hid (h.fresh d hd)
  · exact List.mem_singleton.mp hd

theorem chunksOf_eq_nil {db : Database V} {id : String}
    (h : ∀ c ∈ db.chunks, c.documentId ≠ id) : db.chunksOf id = [] := by
  unfold Database.chunksOf
  rw [List.filter_eq_nil_iff]
  intro c hc
  simpa using h c hc

theorem chunksOf_append {db : Database V} {id : String} {rows : List (KnowledgeChunk V)}
    (h : ∀ c ∈ db.chunks, c.documentId ≠ id) (hrows : ∀ row ∈ rows, row.documentId = id) :
    (db.addChunks rows).chunksOf id = rows := by
  have hold : (db.chunks.filter fun c => c.documentId == id) = [] := chunksOf_eq_nil h
  have hnew : (rows.filter fun c => c.documentId == id) = rows := by
    rw [List.filter_eq_self]
    intro row hrow
    simpa using hrows row hrow
  show ((db.chunks ++ rows).filter fun c => c.documentId == id) = rows
  rw [List.filter_append, hold, hnew, List.nil_append]

theorem mem_set {db : Database V} {id : String} {change : KnowledgeDocument → KnowledgeDocument}
    {d : KnowledgeDocument} (h : d ∈ (db.set id change).documents) (he : d.id = id) :
    ∃ d₀ ∈ db.documents, d₀.id = id ∧ d = change d₀ := by
  obtain ⟨d₀, hd₀, rfl⟩ := List.mem_map.mp h
  by_cases hc : d₀.id = id
  · rw [if_pos hc]
    exact ⟨d₀, hd₀, hc, rfl⟩
  · rw [if_neg hc] at he
    exact absurd he hc

/-- A document that is still as it was created is not settled. -/
theorem Created.not_settled {env : Environment V} {upload : Upload} {s : Session V}
    (h : Created env upload s) : ¬ Settled s.db env.newId := by
  intro hs
  rcases hs _ h.mem rfl with ⟨hr, -⟩ | ⟨hf, -⟩
  · exact absurd hr (by simp [newDocument])
  · exact absurd hf (by simp [newDocument])

/-- The handler settles the document exactly when the database takes its flush. -/
theorem settled_recordFailure_iff {env : Environment V} {upload : Upload} {s : Session V} {e : String}
    (h : Created env upload s) :
    Settled (recordFailure env e s).2.db env.newId ↔
      env.accepts (s.db.markFailed env.newId e) = true := by
  unfold recordFailure
  rcases commit_cases h.usable (s.db.markFailed env.newId e) with ⟨ha, hc⟩ | ⟨ha, e', hc⟩
  · rw [h.added, addChunks_nil] at ha hc
    rw [hc]
    refine ⟨fun _ => ha, fun _ => ?_⟩
    intro d hd hid
    have hmem : d ∈ (s.db.set env.newId fun d =>
      { d with status := .failed, errorMessage := some e }).documents := hd
    obtain ⟨d₀, -, -, rfl⟩ := mem_set hmem hid
    exact .inr ⟨rfl, chunksOf_eq_nil h.noChunks⟩
  · rw [h.added, addChunks_nil] at ha
    rw [hc, ha]
    constructor
    · intro hs
      exact absurd hs h.not_settled
    · intro ht
      exact absurd ht (by decide)

/-- The session after a failed flush records nothing. -/
theorem recordFailure_of_needsRollback {env : Environment V} {s : Session V} {e : String}
    (h : s.needsRollback = true) : (recordFailure env e s).2 = s := by
  unfold recordFailure Session.commit
  rw [h]
  rfl

/-- The `try` statement with its handler -/
theorem settled_process_iff {env : Environment V} {upload : Upload} {s : Session V}
    (h : Created env upload s) :
    Settled (process env upload s).2.db env.newId ↔ LastFlushAccepted env upload s := by
  rcases prepare_cases env upload with ⟨e, hp⟩ | ⟨rows, count, hp, hindex, hrows⟩
  · have hs : ({ s with added := s.added ++ ([] : List (KnowledgeChunk V)) } : Session V) = s := by
      rw [List.append_nil]
    unfold process LastFlushAccepted
    rw [hp]
    simp only
    rw [hs]
    exact settled_recordFailure_iff h
  · unfold process LastFlushAccepted
    rw [hp]
    simp only [h.added, List.nil_append]
    let adding : Session V := ⟨s.db, rows, s.needsRollback⟩
    rcases commit_cases (s := adding) h.usable (s.db.markReady env.newId count) with
      ⟨ha, hc⟩ | ⟨ha, e, hc⟩
    · rw [hc]
      refine ⟨fun _ => ha, fun _ => ?_⟩
      intro d hd hid
      have hmem : d ∈ (s.db.set env.newId fun d =>
        { d with status := .ready, chunkCount := count }).documents := hd
      obtain ⟨d₀, -, -, rfl⟩ := mem_set hmem hid
      refine .inl ⟨rfl, ?_⟩
      have hchunks : ((s.db.markReady env.newId count).addChunks rows).chunksOf env.newId = rows :=
        chunksOf_append h.noChunks hrows
      show (((s.db.markReady env.newId count).addChunks rows).chunksOf env.newId).map _ = _
      rw [hchunks]
      exact hindex
    · rw [hc]
      simp only
      -- the flush failed, so the handler's own commit is refused
      rw [recordFailure_of_needsRollback rfl]
      constructor
      · intro hs
        exact absurd hs h.not_settled
      · intro ht
        exact absurd (ha.symm.trans ht) (by decide)

/-- **An ingestion settles exactly when the database takes the flush that ends it.** -/
theorem ingest_settles_iff (env : Environment V) (upload : Upload) (s : Session V)
    (h : s.Ready env) :
    Settled (ingestFile env upload s).2.db env.newId ↔
      ∀ s' ∈ created env upload s, LastFlushAccepted env upload s' := by
  have hcreate : ∀ s : Session V, s.Ready env →
      (Settled (createAndProcess env upload s).2.db env.newId ↔
        ∀ s' ∈ (match s.commit env (s.db.insert (newDocument env upload)) with
          | (.ok (), s') => some s'
          | (.error _, _) => none), LastFlushAccepted env upload s') := by
    intro s h
    unfold createAndProcess
    rcases commit_cases h.usable (s.db.insert (newDocument env upload)) with ⟨-, hc⟩ | ⟨-, e, hc⟩
    · rw [h.added, addChunks_nil] at hc
      rw [hc]
      simp only [Option.mem_def, Option.some.injEq, forall_eq']
      exact settled_process_iff h.insert
    · rw [hc]
      simp only [Option.mem_def, reduceCtorEq, false_implies, implies_true, iff_true]
      exact fun d hd hid => absurd hid (h.fresh d hd)
  have hnone : Settled s.db env.newId := fun d hd hid => absurd hid (h.fresh d hd)
  unfold ingestFile created
  cases hf : s.db.findBySha upload with
  | none => exact hcreate s h
  | some existing =>
    simp only
    by_cases hst : existing.status = .failed
    · simp only [hst, ne_eq, not_true_eq_false, if_false]
      rcases commit_cases h.usable (s.db.delete existing.id) with ⟨-, hc⟩ | ⟨-, e, hc⟩
      · rw [h.added, addChunks_nil] at hc
        rw [hc]
        exact hcreate _ (h.delete existing.id)
      · rw [hc]
        simp only [Option.mem_def, reduceCtorEq, false_implies, implies_true, iff_true]
        exact hnone
    · simp only [ne_eq, hst, not_false_eq_true, if_true, Option.mem_def, reduceCtorEq,
        false_implies, implies_true, iff_true]
      exact hnone

/-! ## A file with a NUL character -/

/-- The text of the file is one chunk; the database takes no NUL character. -/
def textFile (text : String) : Environment Nat where
  loadDocument := .ok [⟨text, []⟩]
  splitText := fun t => .ok [t]
  cached := fun _ => none
  generate := fun texts => .ok (texts.map fun _ => 0)
  newId := "d1"
  accepts := fun db => db.chunks.all fun c => !c.content.toList.contains '\x00'

def report : Upload := ⟨some "u1", "a.txt", none, "/rag/a.txt", "sha", [], none⟩

def emptySession : Session Nat := ⟨⟨[], []⟩, [], false⟩

/-- The document stays as it was created, and uploading the file again returns it. -/
theorem ingest_stuck :
    ¬ Settled (ingestFile (textFile "a\x00b") report emptySession).2.db "d1" ∧
      ∀ text, ingestFile (textFile text) report
          ⟨(ingestFile (textFile "a\x00b") report emptySession).2.db, [], false⟩ =
        (.ok (newDocument (textFile text) report),
          ⟨(ingestFile (textFile "a\x00b") report emptySession).2.db, [], false⟩) := by
  have hdb : (ingestFile (textFile "a\x00b") report emptySession).2.db =
      ⟨[newDocument (textFile "a\x00b") report], []⟩ := by rfl
  refine ⟨?_, ?_⟩
  · intro h
    rw [hdb] at h
    rcases h _ List.mem_cons_self rfl with ⟨hr, -⟩ | ⟨hf, -⟩
    · exact absurd hr (by simp [newDocument])
    · exact absurd hf (by simp [newDocument])
  · intro text
    rw [hdb]
    rfl

/-- A plain text file is settled. -/
theorem ingest_settles_iff_plain : Settled (ingestFile (textFile "hello") report emptySession).2.db "d1" := by
  have hready : emptySession.Ready (textFile "hello") :=
    ⟨rfl, rfl, fun _ h => absurd h (by simp [emptySession]), fun _ h => absurd h (by simp [emptySession])⟩
  apply (ingest_settles_iff (textFile "hello") report emptySession hready).mpr
  intro s' hs'
  cases hs'
  rfl

end Rag

end HyChat
