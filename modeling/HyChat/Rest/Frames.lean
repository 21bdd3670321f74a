import HyChat.Rag.Settling
import HyChat.Rest.Endpoints

/-!
# What a user's requests leave to the others

`FrameBut userId gone goneFiles s s'`: between `s` and `s'` the rows of all users but one are the
same, in the same order, and so are their objects; a row of theirs that referred to one of the
conversations `gone` or files `goneFiles` has lost that reference. Lists compose where one set
would not: statements after each other clear the references of both lists.

`Frame` then says which ids may stand in the lists. Between two states these are the conversations
and files of the user that are there in the first and not in the second (`Losses.between`), so that
clearing a reference to a row that still exists is no frame. It is a parameter because a request is
made of several statements, and a file that is stored and removed again by one request was never in
the state before it: no row refers to it, and nothing is lost.

The rows of the user are left out on both sides, and so nothing is said of what a request does to
its own user's rows. The cache is nobody's row.
-/

set_option autoImplicit false

namespace HyChat

open Lib

namespace Rest

variable {V : Type} {userId : String}

/-! ## References -/

theorem unlinked_nil (x : Option String) : unlinked [] x = x := by
  cases x <;> rfl

theorem unlinked_append (gone gone' : List String) (x : Option String) :
    unlinked gone' (unlinked gone x) = unlinked (gone ++ gone') x := by
  cases x with
  | none => rfl
  | some id =>
    by_cases h : id ∈ gone
    · simp [unlinked, Option.filter, h]
    · simp [unlinked, Option.filter, h]

theorem unlinked_of_ne {id : String} {x : Option String} (h : x ≠ some id) : unlinked [id] x = x := by
  cases hx : x with
  | none => rfl
  | some other =>
    have hne : other ≠ id := fun he => h (by rw [hx, he])
    simp [unlinked, Option.filter, hne]

theorem eq_of_unlinked {gone : List String} {x : Option String} {id : String}
    (h : unlinked gone x = some id) : x = some id := (Option.filter_eq_some_iff.mp h).1

/-! ## The frame -/

/-- The chunk is one of a document that is not the user's. -/
def ofOthers (userId : String) (db : Rag.Database V) (chunk : Rag.KnowledgeChunk V) : Bool :=
  (db.documents.filter fun d => d.userId != some userId).any fun d => d.id == chunk.documentId

/-- What becomes of the documents. -/
structure KnowledgeFrame (userId : String) (goneFiles : List String) (db db' : Rag.Database V) :
    Prop where
  documents : (db'.documents.filter fun d => d.userId != some userId) =
    (db.documents.filter fun d => d.userId != some userId).map (unlinkFile goneFiles)
  chunks : db'.chunks.filter (ofOthers userId db) = db.chunks.filter (ofOthers userId db)

structure FrameBut (userId : String) (gone goneFiles : List String) (s s' : Server V) : Prop where
  conversations : (s'.conversations.filter fun c => c.userId != userId) =
    s.conversations.filter fun c => c.userId != userId
  files : (s'.files.filter fun f => f.userId != userId) =
    (s.files.filter fun f => f.userId != userId).map (StoredFile.unlink gone)
  traces : (s'.traces.filter fun t => t.userId != userId) =
    (s.traces.filter fun t => t.userId != userId).map (TraceSpan.unlink gone)
  knowledge : KnowledgeFrame userId goneFiles s.knowledge s'.knowledge
  objects : ∀ f ∈ s.files, f.userId ≠ userId → s'.objects f.objectKey = s.objects f.objectKey

/-- The conversations and the files to which a reference may be lost. -/
structure Losses where
  conversation : String → Prop
  file : String → Prop

/-- What the user has before and nobody has after. -/
def Losses.between (userId : String) (s s' : Server V) : Losses where
  conversation id :=
    (∃ c ∈ s.conversations, c.id = id ∧ c.userId = userId) ∧ ∀ c ∈ s'.conversations, c.id ≠ id
  file id := (∃ f ∈ s.files, f.id = id ∧ f.userId = userId) ∧ ∀ f ∈ s'.files, f.id ≠ id

/-- The others' rows and objects are kept, but for references to what is lost. -/
def Frame (userId : String) (losses : Losses) (s s' : Server V) : Prop :=
  ∃ gone goneFiles, FrameBut userId gone goneFiles s s' ∧
    (∀ id ∈ gone, losses.conversation id) ∧ ∀ id ∈ goneFiles, losses.file id

variable {losses : Losses}

theorem map_unlink_nil (files : List StoredFile) : files.map (StoredFile.unlink []) = files := by
  have h : StoredFile.unlink [] = id := by
    funext f
    simp [StoredFile.unlink, unlinked_nil]
  rw [h, List.map_id]

theorem map_unlink_traces_nil (traces : List TraceSpan) :
    traces.map (TraceSpan.unlink []) = traces := by
  have h : TraceSpan.unlink [] = id := by
    funext t
    simp [TraceSpan.unlink, unlinked_nil]
  rw [h, List.map_id]

theorem map_unlinkFile_nil (documents : List Rag.KnowledgeDocument) :
    documents.map (unlinkFile []) = documents := by
  have h : unlinkFile [] = id := by
    funext d
    simp [unlinkFile, unlinked_nil]
  rw [h, List.map_id]

/-- Nothing has changed. -/
theorem KnowledgeFrame.refl (db : Rag.Database V) : KnowledgeFrame userId [] db db :=
  ⟨(map_unlinkFile_nil _).symm, rfl⟩

theorem KnowledgeFrame.ofOthers_eq {goneFiles : List String} {db db' : Rag.Database V}
    (h : KnowledgeFrame userId goneFiles db db') : ofOthers userId db' = ofOthers userId db := by
  funext chunk
  unfold ofOthers
  rw [h.documents, List.any_map]
  rfl

theorem KnowledgeFrame.trans {goneFiles goneFiles' : List String} {db db' db'' : Rag.Database V}
    (h : KnowledgeFrame userId goneFiles db db') (h' : KnowledgeFrame userId goneFiles' db' db'') :
    KnowledgeFrame userId (goneFiles ++ goneFiles') db db'' := by
  refine ⟨?_, ?_⟩
  · rw [h'.documents, h.documents, List.map_map]
    refine List.map_congr_left fun d _ => ?_
    simp [unlinkFile, unlinked_append]
  · have hc := h'.chunks
    rw [h.ofOthers_eq] at hc
    rw [hc, h.chunks]

/-- No reference is lost. -/
theorem Frame.of_none {s s' : Server V} (h : FrameBut userId [] [] s s') :
    Frame userId losses s s' :=
  ⟨[], [], h, fun _ hm => absurd hm (by simp), fun _ hm => absurd hm (by simp)⟩

theorem Frame.refl (s : Server V) : Frame userId losses s s :=
  .of_none ⟨rfl, (map_unlink_nil _).symm, (map_unlink_traces_nil _).symm, .refl _, fun _ _ _ => rfl⟩

theorem Frame.mono {losses' : Losses} {s s' : Server V} (h : Frame userId losses s s')
    (hconversation : ∀ id, losses.conversation id → losses'.conversation id)
    (hfile : ∀ id, losses.file id → losses'.file id) : Frame userId losses' s s' := by
  obtain ⟨gone, goneFiles, hframe, hgone, hgoneFiles⟩ := h
  exact ⟨gone, goneFiles, hframe, fun id hid => hconversation id (hgone id hid),
    fun id hid => hfile id (hgoneFiles id hid)⟩

/-- Another user's file is there afterwards, under the same key. -/
theorem FrameBut.file_mem {gone goneFiles : List String} {s s' : Server V}
    (h : FrameBut userId gone goneFiles s s') {f : StoredFile} (hf : f ∈ s.files)
    (hu : f.userId ≠ userId) : f.unlink gone ∈ s'.files := by
  have hmem : f.unlink gone ∈ s'.files.filter fun f => f.userId != userId := by
    rw [h.files]
    exact List.mem_map_of_mem (List.mem_filter.mpr ⟨hf, by simpa using hu⟩)
  exact (List.mem_filter.mp hmem).1

/-- What is lost on the way adds up. -/
theorem FrameBut.trans {gone gone' goneFiles goneFiles' : List String} {s s' s'' : Server V}
    (h : FrameBut userId gone goneFiles s s') (h' : FrameBut userId gone' goneFiles' s' s'') :
    FrameBut userId (gone ++ gone') (goneFiles ++ goneFiles') s s'' := by
  refine ⟨h'.conversations.trans h.conversations, ?_, ?_, h.knowledge.trans h'.knowledge, ?_⟩
  · rw [h'.files, h.files, List.map_map]
    refine List.map_congr_left fun f _ => ?_
    simp [StoredFile.unlink, unlinked_append]
  · rw [h'.traces, h.traces, List.map_map]
    refine List.map_congr_left fun t _ => ?_
    simp [TraceSpan.unlink, unlinked_append]
  · intro f hf hu
    exact (h'.objects (f.unlink gone) (h.file_mem hf hu) hu).trans (h.objects f hf hu)

theorem Frame.trans {s s' s'' : Server V} (h : Frame userId losses s s')
    (h' : Frame userId losses s' s'') : Frame userId losses s s'' := by
  obtain ⟨gone, goneFiles, hframe, hgone, hgoneFiles⟩ := h
  obtain ⟨gone', goneFiles', hframe', hgone', hgoneFiles'⟩ := h'
  refine ⟨_, _, hframe.trans hframe', ?_, ?_⟩
  · intro id hid
    exact (List.mem_append.mp hid).elim (hgone id) (hgone' id)
  · intro id hid
    exact (List.mem_append.mp hid).elim (hgoneFiles id) (hgoneFiles' id)

/-! ## Keyed lists -/

theorem nodup_filter {ρ : Type} {key : ρ → String} {rows : List ρ} (h : (rows.map key).Nodup)
    (keep : ρ → Bool) : ((rows.filter keep).map key).Nodup :=
  h.sublist (List.filter_sublist.map key)

theorem nodup_append {ρ : Type} {key : ρ → String} {rows : List ρ} (h : (rows.map key).Nodup)
    {row : ρ} (hfresh : ∀ r ∈ rows, key r ≠ key row) : ((rows ++ [row]).map key).Nodup := by
  rw [List.map_append, List.nodup_append]
  refine ⟨h, by simp, ?_⟩
  intro a ha b hb
  obtain ⟨r, hr, rfl⟩ := List.mem_map.mp ha
  rw [List.map_singleton, List.mem_singleton] at hb
  rw [hb]
  exact hfresh r hr

theorem map_key {ρ : Type} {key : ρ → String} {rows : List ρ} {change : ρ → ρ}
    (h : ∀ r ∈ rows, key (change r) = key r) : (rows.map change).map key = rows.map key := by
  rw [List.map_map]
  exact List.map_congr_left h

/-- Rows of the user are changed; those that are not stay. -/
theorem filter_map_of_own {ρ : Type} (own : ρ → Bool) {rows : List ρ} {change : ρ → ρ}
    (h : ∀ r ∈ rows, change r = r ∨ own r = true ∧ own (change r) = true) :
    ((rows.map change).filter fun r => !own r) = rows.filter fun r => !own r := by
  induction rows with
  | nil => rfl
  | cons r rest ih =>
    have hrest := ih fun x hx => h x (List.mem_cons_of_mem r hx)
    rw [List.map_cons, List.filter_cons, List.filter_cons, hrest]
    rcases h r List.mem_cons_self with he | ⟨ho, ho'⟩
    · rw [he]
    · simp [ho, ho']

theorem filter_filter_of_own {ρ : Type} (own : ρ → Bool) {keep : ρ → Bool} {rows : List ρ}
    (h : ∀ r ∈ rows, keep r = true ∨ own r = true) :
    ((rows.filter keep).filter fun r => !own r) = rows.filter fun r => !own r := by
  rw [List.filter_filter]
  refine List.filter_congr fun r hr => ?_
  rcases h r hr with hk | ho
  · simp [hk]
  · simp [ho]

/-! ## Statements -/

/-- The state after statements of a user's request. -/
structure Kept (userId : String) (losses : Losses) (s s' : Server V) : Prop where
  valid : s'.Valid
  frame : Frame userId losses s s'

theorem Kept.refl {s : Server V} (h : s.Valid) : Kept userId losses s s := ⟨h, .refl s⟩

theorem Kept.trans {s s' s'' : Server V} (h : Kept userId losses s s')
    (h' : Kept userId losses s' s'') : Kept userId losses s s'' := ⟨h'.valid, h.frame.trans h'.frame⟩

variable {s : Server V}

theorem Server.Valid.conversation_eq (h : s.Valid) {a b : Conversation} (ha : a ∈ s.conversations)
    (hb : b ∈ s.conversations) (he : a.id = b.id) : a = b :=
  List.inj_on_of_nodup_map h.conversations ha hb he

theorem Server.Valid.file_eq (h : s.Valid) {a b : StoredFile} (ha : a ∈ s.files)
    (hb : b ∈ s.files) (he : a.id = b.id) : a = b :=
  List.inj_on_of_nodup_map h.files ha hb he

theorem Server.Valid.key_eq (h : s.Valid) {a b : StoredFile} (ha : a ∈ s.files)
    (hb : b ∈ s.files) (he : a.objectKey = b.objectKey) : a = b :=
  List.inj_on_of_nodup_map h.objectKeys ha hb he

/-- A row of the user is inserted. -/
theorem kept_insertConversation (h : s.Valid) {row : Conversation} (hu : row.userId = userId)
    (hid : ∀ c ∈ s.conversations, c.id ≠ row.id)
    (hthread : ∀ c ∈ s.conversations, c.threadId ≠ row.threadId) :
    Kept userId losses s (s.insertConversation row) := by
  refine ⟨⟨nodup_append h.conversations hid, nodup_append h.threads hthread, h.files, h.objectKeys,
    h.documents⟩, .of_none ⟨?_, (map_unlink_nil _).symm, (map_unlink_traces_nil _).symm, .refl _,
    fun _ _ _ => rfl⟩⟩
  show ((s.conversations ++ [row]).filter _) = _
  rw [List.filter_append]
  simp [hu]

theorem kept_updateConversation (h : s.Valid) {row old : Conversation} (hold : old ∈ s.conversations)
    (hid : row.id = old.id) (hthread : row.threadId = old.threadId) (hu : old.userId = userId)
    (hu' : row.userId = userId) : Kept userId losses s (s.updateConversation row) := by
  have hchange : ∀ c ∈ s.conversations, c.id = row.id → c = old := fun c hc he =>
    h.conversation_eq hc hold (he.trans hid)
  have hkeys : (s.updateConversation row).conversations.map Conversation.id =
      s.conversations.map Conversation.id := by
    refine map_key fun c hc => ?_
    split
    · rename_i he
      exact he.symm
    · rfl
  have hthreads : (s.updateConversation row).conversations.map Conversation.threadId =
      s.conversations.map Conversation.threadId := by
    refine map_key fun c hc => ?_
    split
    · rename_i he
      rw [hchange c hc he]
      exact hthread
    · rfl
  refine ⟨⟨by rw [hkeys]; exact h.conversations, by rw [hthreads]; exact h.threads, h.files,
    h.objectKeys, h.documents⟩, .of_none ⟨?_, (map_unlink_nil _).symm,
    (map_unlink_traces_nil _).symm, .refl _, fun _ _ _ => rfl⟩⟩
  refine filter_map_of_own (fun c : Conversation => c.userId == userId) fun c hc => ?_
  by_cases he : c.id = row.id
  · rw [if_pos he]
    exact .inr ⟨by simp [hchange c hc he, hu], by simp [hu']⟩
  · rw [if_neg he]
    exact .inl rfl

theorem filter_map_files {gone : List String} (files : List StoredFile) :
    ((files.map (StoredFile.unlink gone)).filter fun f => f.userId != userId) =
      (files.filter fun f => f.userId != userId).map (StoredFile.unlink gone) := by
  rw [List.filter_map]
  rfl

theorem filter_map_traces {gone : List String} (traces : List TraceSpan) :
    ((traces.map (TraceSpan.unlink gone)).filter fun t => t.userId != userId) =
      (traces.filter fun t => t.userId != userId).map (TraceSpan.unlink gone) := by
  rw [List.filter_map]
  rfl

/-- A row of the user goes, and with it the references to it. -/
theorem kept_deleteConversation (h : s.Valid) {row : Conversation} (hrow : row ∈ s.conversations)
    (hu : row.userId = userId) (hlost : losses.conversation row.id) :
    Kept userId losses s (s.deleteConversation row.id) := by
  have hown : ∀ c ∈ s.conversations, c.id = row.id → c.userId = userId := by
    intro c hc he
    rw [h.conversation_eq hc hrow he]
    exact hu
  refine ⟨⟨nodup_filter h.conversations _, nodup_filter h.threads _, ?_, ?_, h.documents⟩, [row.id], [],
    ⟨?_, filter_map_files _, filter_map_traces _, .refl _, fun _ _ _ => rfl⟩, ?_,
    fun _ hm => absurd hm (by simp)⟩
  · have hkeys : (s.files.map (StoredFile.unlink [row.id])).map StoredFile.id =
        s.files.map StoredFile.id := map_key fun _ _ => rfl
    exact hkeys ▸ h.files
  · have hkeys : (s.files.map (StoredFile.unlink [row.id])).map StoredFile.objectKey =
        s.files.map StoredFile.objectKey := map_key fun _ _ => rfl
    exact hkeys ▸ h.objectKeys
  · refine filter_filter_of_own (fun c : Conversation => c.userId == userId) fun c hc => ?_
    by_cases he : c.id = row.id
    · exact .inr (by simp [hown c hc he])
    · exact .inl (by simpa using he)
  · intro id hid
    rw [List.mem_singleton.mp hid]
    exact hlost

theorem kept_insertFile (h : s.Valid) {row : StoredFile} (hu : row.userId = userId)
    (hid : ∀ f ∈ s.files, f.id ≠ row.id) (hkey : ∀ f ∈ s.files, f.objectKey ≠ row.objectKey) :
    Kept userId losses s (s.insertFile row) := by
  refine ⟨⟨h.conversations, h.threads, nodup_append h.files hid, nodup_append h.objectKeys hkey, h.documents⟩,
    .of_none ⟨rfl, ?_, (map_unlink_traces_nil _).symm, .refl _, fun _ _ _ => rfl⟩⟩
  show ((s.files ++ [row]).filter _) = _
  rw [List.filter_append, map_unlink_nil]
  simp [hu]

/-- No other user's document refers to the file. -/
def Unreferenced (userId : String) (db : Rag.Database V) (fileId : String) : Prop :=
  ∀ d ∈ db.documents, d.userId ≠ some userId → d.storedFileId ≠ some fileId

theorem unlinkFile_of_ne {id : String} {d : Rag.KnowledgeDocument} (h : d.storedFileId ≠ some id) :
    unlinkFile [id] d = d := by
  unfold unlinkFile
  rw [unlinked_of_ne h]

theorem valid_deleteFile (h : s.Valid) (id : String) : (s.deleteFile id).Valid := by
  refine ⟨h.conversations, h.threads, nodup_filter h.files _, nodup_filter h.objectKeys _, ?_⟩
  have hkeys : (s.knowledge.documents.map (unlinkFile [id])).map Rag.KnowledgeDocument.id =
      s.knowledge.documents.map Rag.KnowledgeDocument.id := map_key fun _ _ => rfl
  exact hkeys ▸ h.documents

theorem frameBut_deleteFile (h : s.Valid) {row : StoredFile} (hrow : row ∈ s.files)
    (hu : row.userId = userId) : FrameBut userId [] [row.id] s (s.deleteFile row.id) := by
  refine ⟨rfl, ?_, (map_unlink_traces_nil _).symm, ⟨?_, rfl⟩, fun _ _ _ => rfl⟩
  · rw [map_unlink_nil]
    refine filter_filter_of_own (fun f : StoredFile => f.userId == userId) fun f hf => ?_
    by_cases he : f.id = row.id
    · exact .inr (by rw [h.file_eq hf hrow he]; simp [hu])
    · exact .inl (by simpa using he)
  · show ((s.knowledge.documents.map (unlinkFile [row.id])).filter _) = _
    rw [List.filter_map]
    rfl

/-- A file of the user goes, and with it the references to it. -/
theorem kept_deleteFile (h : s.Valid) {row : StoredFile} (hrow : row ∈ s.files)
    (hu : row.userId = userId) (hlost : losses.file row.id ∨ Unreferenced userId s.knowledge row.id) :
    Kept userId losses s (s.deleteFile row.id) := by
  have hframe := frameBut_deleteFile h hrow hu
  refine ⟨valid_deleteFile h row.id, ?_⟩
  rcases hlost with hlost | hnone
  · refine ⟨[], [row.id], hframe, fun _ hm => absurd hm (by simp), ?_⟩
    intro id hid
    rw [List.mem_singleton.mp hid]
    exact hlost
  · -- the others' documents are the same, since none of them refers to the file
    refine .of_none ⟨hframe.conversations, hframe.files, hframe.traces, ⟨?_, rfl⟩, hframe.objects⟩
    rw [hframe.knowledge.documents]
    refine List.map_congr_left fun d hd => ?_
    obtain ⟨hmem, hne⟩ := List.mem_filter.mp hd
    rw [unlinkFile_of_ne (hnone d hmem (by simpa using hne))]
    unfold unlinkFile
    rw [unlinked_nil]

/-- An object under a key that is no other user's is written or deleted. -/
theorem kept_objects (h : s.Valid) {key : String}
    (hkey : ∀ f ∈ s.files, f.userId ≠ userId → f.objectKey ≠ key) (content : Option Content) :
    Kept userId losses s { s with objects := Function.update s.objects key content } := by
  refine ⟨⟨h.conversations, h.threads, h.files, h.objectKeys, h.documents⟩, .of_none ⟨rfl,
    (map_unlink_nil _).symm, (map_unlink_traces_nil _).symm, .refl _, ?_⟩⟩
  intro f hf hu
  exact Function.update_of_ne (hkey f hf hu) _ _

theorem kept_removeFile (h : s.Valid) {row : StoredFile} (hrow : row ∈ s.files)
    (hu : row.userId = userId) (accepts : Bool)
    (hlost : accepts = true → losses.file row.id ∨ Unreferenced userId s.knowledge row.id) :
    Kept userId losses s (removeFile s row accepts) := by
  have hobject : Kept userId losses s (s.deleteObject row.objectKey) := by
    refine kept_objects h ?_ none
    intro f hf hne he
    rw [h.key_eq hf hrow he] at hne
    exact hne hu
  unfold removeFile
  simp only
  split
  · rename_i haccepts
    exact hobject.trans (kept_deleteFile hobject.valid hrow hu (hlost haccepts))
  · exact hobject

theorem kept_knowledge (h : s.Valid) {db : Rag.Database V}
    (hdocs : (db.documents.map Rag.KnowledgeDocument.id).Nodup)
    (hdb : KnowledgeFrame userId [] s.knowledge db) :
    Kept userId losses s { s with knowledge := db } :=
  ⟨⟨h.conversations, h.threads, h.files, h.objectKeys, hdocs⟩, .of_none ⟨rfl, (map_unlink_nil _).symm,
    (map_unlink_traces_nil _).symm, hdb, fun _ _ _ => rfl⟩⟩

/-- The cache is nobody's row. -/
theorem kept_cache (h : s.Valid) (cache : String → Cache.Redis) :
    Kept userId losses s { s with cache := cache } :=
  ⟨⟨h.conversations, h.threads, h.files, h.objectKeys, h.documents⟩, .of_none ⟨rfl,
    (map_unlink_nil _).symm, (map_unlink_traces_nil _).symm, .refl _, fun _ _ _ => rfl⟩⟩

end Rest

end HyChat
