import HyChat.Rest.Answers

/-!
# Rows stay with their owner

Every endpoint's answer is fine, whatever the server's state, and so every response of a history
shows its caller rows of their own, while the rows and objects of the others stay what they were.
The cached search is where an answer shows what was read before: an entry holds results of the user
whose search wrote it, since the key carries the user's id.

The last step is from one request to all of them. A history is any sequence of requests by any
users, with what each meets drawn freely: ids that are fresh, commits that fail, entries of the
search cache that expire. `Sound` says of a history that all its answers were fine and that an
entry of the cache holds results of the user it belongs to; it is kept by one request
(`Sound.step`). The frame over a whole history then is the composition of the frames of its
requests, with what every one of them has deleted added up (`Losses.of`).

Where the cached search could leak. Its key is a digest that the user's id goes into, so the
condition `DistinctKeys` is needed: the digest of a search is not the one of an earlier search of
somebody else. What a search returns are chunks of the user's documents; how they are ranked is
left to the index.

The example has a trace of one user under the conversation of another, which the service allows,
and which loses its reference when the conversation goes.
-/

set_option autoImplicit false

namespace HyChat

open Lib

namespace Rest

variable {V : Type} {p : Platform V} {c : Call V} {seen : List (Server V)} {losses : Losses}
  {s : Server V}

/-! ## Documents -/

/-- Documents are listed for the caller. -/
theorem fine_listDocuments (h : s.Valid) : Fine p c seen losses s (listDocuments p s c) := by
  refine .of_same h ?_ trivial
  intro _ e he
  obtain ⟨row, hmem, hkeep, rfl⟩ := mem_listing he
  exact ⟨row, hmem, by simpa using hkeep, rfl⟩

/-- Dropping the cached searches touches no row. -/
theorem dropSearches_cache (s : Server V) (dropped : String → Bool) (key : String) :
    ((dropSearches s dropped).cache key).entry = none ∨
      (dropSearches s dropped).cache key = s.cache key := by
  unfold dropSearches
  simp only
  split
  · exact .inl rfl
  · exact .inr rfl

/-- A document of the caller goes, with its chunks. -/
theorem fine_deleteDocument (h : s.Valid) (documentId : String) :
    Fine p c seen losses s (deleteDocument s c documentId) := by
  unfold deleteDocument
  split
  · exact fine_error h _ _
  · rename_i row hrow
    obtain ⟨hf, hu⟩ := Option.filter_eq_some_iff.mp hrow
    have hmem : row ∈ s.knowledge.documents := List.mem_of_find?_eq_some hf
    have hdelete : KnowledgeKept c.user.id s.knowledge (s.knowledge.delete row.id) :=
      knowledgeKept_delete h.documents hmem (by simpa using hu)
    have hkept : Kept c.user.id losses s { s with knowledge := s.knowledge.delete row.id } :=
      kept_knowledge h hdelete.keys hdelete.frame
    have hfiles : FilesAttached c.user.id s { s with knowledge := s.knowledge.delete row.id } :=
      filesAttached_of_subset fun _ hf => .inl hf
    split
    · simp only
      split
      · refine ⟨hkept.trans (kept_cache hkept.valid _),
          fun _ e he => absurd he (by simp [Response.exposed]), hfiles, trivial, ?_⟩
        intro key
        exact (dropSearches_cache _ c.draws.dropped key).imp_right .inl
      · exact .error hkept hfiles rfl _ _
    · exact fine_error h _ _

/-- The document is there when the file that was not needed is gone. -/
theorem document_mem_removeFile {row : StoredFile} {accepts : Bool} {d : Rag.KnowledgeDocument}
    (hd : d ∈ s.knowledge.documents) (hne : d.storedFileId ≠ some row.id) :
    d ∈ (removeFile s row accepts).knowledge.documents := by
  unfold removeFile
  simp only
  split
  · exact List.mem_map.mpr ⟨d, hd, unlinkFile_of_ne hne⟩
  · exact hd

/-- The rest of `upload_document`, in the state in which the file is stored. -/
theorem fine_ingestUpload (h : s.Valid) {file : UploadFile} {row : StoredFile}
    (hrow : row ∈ s.files) (hu : row.userId = c.user.id)
    (hfresh : ∀ d ∈ s.knowledge.documents, d.id ≠ c.draws.ingestion.newId)
    (hunreferenced : Unreferenced c.user.id s.knowledge row.id) (metadata : Rag.JsonObject) :
    Fine p c seen losses s (ingestUpload p s c file row metadata) := by
  have hingested : Ingested c.user.id s.knowledge (Rag.ingestFile c.draws.ingestion
      (ingestArgs p c file row metadata) ⟨s.knowledge, [], false⟩) :=
    ingested_ingestFile h.documents rfl hfresh
  have hnone := hingested.kept.frame.unreferenced hunreferenced
  unfold ingestUpload
  split
  · rename_i document session hs
    rw [hs] at hingested hnone
    obtain ⟨hmem, howned⟩ := hingested.answer document rfl
    have hkept : Kept c.user.id losses s { s with knowledge := session.db } :=
      kept_knowledge h hingested.kept.keys hingested.kept.frame
    simp only
    split
    · refine ⟨hkept.trans (kept_cache hkept.valid _), ?_,
        filesAttached_of_subset fun _ hf => .inl hf, trivial, ?_⟩
      · intro _ e he
        rw [List.mem_singleton.mp he]
        exact ⟨_, List.mem_cons_self, document, hmem, howned, rfl⟩
      · intro key
        exact (dropSearches_cache _ c.draws.dropped key).imp_right .inl
    · rename_i hne
      have hremove := hkept.trans (kept_removeFile hkept.valid hrow hu c.draws.cleansUp fun _ => .inr hnone)
      have hfiles : FilesAttached c.user.id s
          (removeFile { s with knowledge := session.db } row c.draws.cleansUp) :=
        filesAttached_of_subset fun f hf =>
          .inl (removeFile_files { s with knowledge := session.db } _ _ f hf)
      split
      · refine .of_now hremove ?_ hfiles trivial (removeFile_cache _ _ _)
        intro _ e he
        rw [List.mem_singleton.mp he]
        exact ⟨document, document_mem_removeFile hmem hne, howned, rfl⟩
      · exact .error hremove hfiles (removeFile_cache _ _ _) _ _
  · rename_i e session hs
    rw [hs] at hingested hnone
    have hkept : Kept c.user.id losses s { s with knowledge := session.db } :=
      kept_knowledge h hingested.kept.keys hingested.kept.frame
    simp only
    split
    · exact .error hkept (filesAttached_of_subset fun _ hf => .inl hf) rfl _ _
    · exact .error (hkept.trans (kept_removeFile hkept.valid hrow hu c.draws.cleansUp fun _ => .inr hnone))
        (filesAttached_of_subset fun f hf =>
          .inl (removeFile_files { s with knowledge := session.db } _ _ f hf))
        (removeFile_cache _ _ _) _ _

/-- An answer from the state in which a file attached to nothing has been stored. -/
theorem Fine.after_file {s' : Server V} {row : StoredFile} {answer : Server V × Response}
    (hkept : Kept c.user.id losses s s') (hcache : s'.cache = s.cache)
    (hconversations : s'.conversations = s.conversations) (hfiles : s'.files = s.files ++ [row])
    (hrow : row.conversationId = none) (h : Fine p c seen losses s' answer) : Fine p c seen losses s answer := by
  refine ⟨hkept.trans h.kept, h.shown, ?_, ?_, fun key => by rw [← hcache]; exact h.cache key⟩
  · intro f hf id hid
    have hattached := h.files f hf id hid
    rw [hconversations] at hattached
    rcases hattached with ⟨f₀, hf₀, hsame, hid₀⟩ | howned
    · rw [hfiles] at hf₀
      rcases List.mem_append.mp hf₀ with hf₀ | hf₀
      · exact .inl ⟨f₀, hf₀, hsame, hid₀⟩
      · rw [List.mem_singleton.mp hf₀, hrow] at hid₀
        exact absurd hid₀ (by simp)
    · exact .inr howned
  · have hchat := h.chat
    unfold ChatAttached at hchat ⊢
    rw [← hconversations]
    exact hchat

theorem fine_uploadDocument (h : s.Valid) {file : UploadFile} (hid : ∀ f ∈ s.files, f.id ≠ c.draws.id)
    (hkey : ∀ f ∈ s.files,
      f.objectKey ≠ objectKey p c.draws.objectUuid c.user.id (file.name "document"))
    (hfresh : ∀ d ∈ s.knowledge.documents, d.id ≠ c.draws.ingestion.newId)
    (hunreferenced : ∀ d ∈ s.knowledge.documents, d.storedFileId ≠ some c.draws.id)
    (metadata : Option String) : Fine p c seen losses s (uploadDocument p s c file metadata) := by
  unfold uploadDocument
  simp only
  split
  · split
    · exact fine_error h _ _
    · rename_i parsed _
      split
      · let row := newFile p c file (file.name "document") none
        have hrow : row.userId = c.user.id := rfl
        obtain ⟨hkept, hcache, hconversations, hknowledge, hfiles⟩ :=
          createFromPath_spec h file hrow hid hkey
        split
        · rename_i s' hs
          replace hs : createFromPath s c file row = (s', true) := hs
          rw [hs] at hkept hcache hconversations hknowledge hfiles
          simp only [if_true] at hkept hcache hconversations hknowledge hfiles
          refine Fine.after_file hkept hcache hconversations hfiles rfl ?_
          apply fine_ingestUpload hkept.valid _ rfl
          · rw [hknowledge]
            exact hfresh
          · rw [hknowledge]
            exact fun d hd _ => hunreferenced d hd
          · rw [hfiles]
            exact List.mem_append_right _ List.mem_cons_self
        · rename_i s' hs
          exact fine_notStored h hrow hid hkey hs _ _
      · exact fine_error h _ _
  · exact fine_error h _ _

/-! ## The search -/

/-- A search shows results of its user. -/
theorem shows_runSearch (hs : s ∈ seen) (userId : String) (args : Rag.SearchArgs) :
    Shows p seen userId (Rag.runSearch p.index s.knowledge userId args) := by
  intro rows hrows item hitem
  cases hrows
  obtain ⟨row, hrow, rfl⟩ := List.mem_map.mp hitem
  have hready := List.mem_of_mem_take hrow
  rw [List.mem_insertionSort] at hready
  obtain ⟨chunk, hchunk, hjoin⟩ := List.mem_filterMap.mp hready
  obtain ⟨d, hd, hif⟩ := Option.bind_eq_some_iff.mp hjoin
  have hdid : d.id = chunk.documentId := by simpa using List.find?_some hd
  split at hif
  · rename_i hcond
    cases hif
    exact ⟨s, hs, chunk, hchunk, d, List.mem_of_find?_eq_some hd, hdid, hcond.2.1, _, rfl⟩
  · cases hif

theorem supplies_searchChoice (hs : s ∈ seen) (userId : String) (args : Rag.SearchArgs)
    (choice : Rag.SearchChoice) :
    Cache.Supplies (Shows p seen userId) (searchChoice p s userId args choice) := by
  intro value hvalue
  cases choice with
  | command d => cases hvalue
  | clock expired => cases hvalue
  | run embeds =>
    cases embeds with
    | true =>
      cases hvalue
      exact ⟨⟨_, rfl⟩, shows_runSearch hs userId args⟩
    | false => cases hvalue

/-- A search holds and stores results of its user. -/
theorem searchRun_shows (hs : s ∈ seen) {userId : String} {args : Rag.SearchArgs} {call : Cache.Call}
    {choices : List Rag.SearchChoice} {at_ at' : Cache.Caller × Cache.Redis}
    (hcarries : Cache.Carries (Shows p seen userId) at_.1.phase)
    (hentry : Cache.EntryHas (Shows p seen userId) at_.2)
    (hrun : searchRun p s userId args call choices at_ = some at') :
    Cache.Carries (Shows p seen userId) at'.1.phase ∧ Cache.EntryHas (Shows p seen userId) at'.2 := by
  induction choices generalizing at_ with
  | nil =>
    cases hrun
    exact ⟨hcarries, hentry⟩
  | cons choice rest ih =>
    obtain ⟨⟨caller, redis⟩, hstep, hrest⟩ := Option.bind_eq_some_iff.mp hrun
    refine ih ?_ ?_ hrest
    · exact Cache.Caller.carries_advance (fun rows hrows => absurd hrows (by simp)) hcarries hentry
        (supplies_searchChoice hs userId args choice) hstep
    · exact Cache.Caller.entryHas_advance hcarries hentry hstep

theorem Shows.mono {seen' : List (Server V)} {userId : String} {value : Json}
    (h : Shows p seen userId value) (hsub : ∀ t ∈ seen, t ∈ seen') : Shows p seen' userId value := by
  intro rows hrows item hitem
  obtain ⟨t, ht, hb⟩ := h rows hrows item hitem
  exact ⟨t, hsub t ht, hb⟩

theorem fine_searchDocuments (h : s.Valid) (hs : s ∈ seen) {args : Rag.SearchArgs}
    (hrequest : c.request = .searchDocuments args)
    (hentry : Cache.EntryHas (Shows p seen c.user.id) (s.cache (args.cacheKey c.user.id)))
    {answer : Server V × Response} (hanswer : searchDocuments p s c args = some answer) :
    Fine p c seen losses s answer := by
  unfold searchDocuments at hanswer
  simp only at hanswer
  split at hanswer
  · cases hanswer
  · rename_i caller redis hrun
    obtain ⟨hcarries, hstored⟩ := searchRun_shows hs (by trivial) hentry hrun
    let s' : Server V :=
      { s with cache := Function.update s.cache (args.cacheKey c.user.id) redis }
    have hkept : Kept c.user.id losses s s' := kept_cache h _
    have hfiles : FilesAttached c.user.id s s' := filesAttached_of_subset fun _ hf => .inl hf
    have hcache : ∀ key, (s'.cache key).entry = none ∨ s'.cache key = s.cache key ∨
        ∃ args, c.request = .searchDocuments args ∧ key = args.cacheKey c.user.id ∧
          Cache.EntryHas (Shows p (s' :: seen) c.user.id) (s'.cache key) := by
      intro key
      by_cases hk : key = args.cacheKey c.user.id
      · refine .inr (.inr ⟨args, hrequest, hk, ?_⟩)
        show Cache.EntryHas _ (Function.update s.cache _ redis key)
        rw [hk, Function.update_self]
        exact hstored.mono fun t ht => List.mem_cons_of_mem _ ht
      · exact .inr (.inl (Function.update_of_ne hk _ _))
    split at hanswer
    · rename_i l hphase
      cases hanswer
      refine ⟨hkept, ?_, hfiles, trivial, hcache⟩
      intro _ e he
      replace hphase : caller.phase = _ := hphase
      rw [hphase] at hcarries
      have hvalue : Shows p seen c.user.id l.value := hcarries
      unfold Rag.searchResult at he
      split at he
      · rename_i rows hrows
        obtain ⟨item, hitem, rfl⟩ := List.mem_map.mp he
        obtain ⟨t, ht, hb⟩ := hvalue rows hrows item hitem
        exact ⟨t, List.mem_cons_of_mem _ ht, hb⟩
      · exact absurd he (by simp [Response.exposed])
    · cases hanswer
      exact ⟨hkept, fun _ e he => absurd he (by simp [Response.exposed, internalError]), hfiles,
        trivial, hcache⟩
    · cases hanswer

/-! ## Every endpoint -/

/-- What `uuid4` draws is new. -/
structure Fresh (p : Platform V) (s : Server V) (c : Call V) : Prop where
  conversation : ∀ row ∈ s.conversations, row.id ≠ c.draws.id
  thread : ∀ row ∈ s.conversations, row.threadId ≠ c.draws.threadId
  file : ∀ row ∈ s.files, row.id ≠ c.draws.id
  key : ∀ row ∈ s.files, c.newKey p ≠ some row.objectKey
  document : ∀ row ∈ s.knowledge.documents, row.id ≠ c.draws.ingestion.newId
  reference : ∀ row ∈ s.knowledge.documents, row.storedFileId ≠ some c.draws.id

theorem fresh_of_isFresh (h : c.isFresh p s = true) : Fresh p s c := by
  simp only [Call.isFresh, Bool.and_eq_true, List.all_eq_true, bne_iff_ne] at h
  obtain ⟨⟨hconversations, hfiles⟩, hdocuments⟩ := h
  exact ⟨fun row hr => (hconversations row hr).1, fun row hr => (hconversations row hr).2,
    fun row hr => (hfiles row hr).1, fun row hr => (hfiles row hr).2,
    fun row hr => (hdocuments row hr).1, fun row hr => (hdocuments row hr).2⟩

/-- **Every endpoint's answer is fine.** -/
theorem fine_handle (h : s.Valid) (hs : s ∈ seen) (hfresh : Fresh p s c)
    (hentry : ∀ args, c.request = .searchDocuments args →
      Cache.EntryHas (Shows p seen c.user.id) (s.cache (args.cacheKey c.user.id)))
    {answer : Server V × Response} (hanswer : handle p s c = some answer) :
    Fine p c seen (.between c.user.id s answer.1) s answer := by
  have hkey := hfresh.key
  unfold handle at hanswer
  unfold Call.newKey at hkey
  -- a request whose query is out of bounds is refused before any endpoint is called
  split at hanswer
  · cases hr : c.request with
    -- the only endpoint that reads the cache
    | searchDocuments args =>
      rw [hr] at hanswer
      exact fine_searchDocuments h hs hr (hentry args hr) hanswer
    | createConversation title selectedModel =>
      rw [hr] at hanswer
      cases hanswer
      exact fine_createConversation h hfresh.conversation hfresh.thread title selectedModel
    | listConversations archived =>
      rw [hr] at hanswer
      cases hanswer
      exact fine_listConversations h archived
    | updateConversationByThread threadId update =>
      rw [hr] at hanswer
      cases hanswer
      exact fine_patchConversation h (fun _ hrow => ownedByThread_spec hrow) update
    | deleteConversationByThread threadId =>
      rw [hr] at hanswer
      cases hanswer
      exact fine_dropConversation h (fun _ hrow => ownedByThread_spec hrow) _ _
    | getConversation conversationId =>
      rw [hr] at hanswer
      cases hanswer
      exact fine_getConversation h conversationId
    | updateConversation conversationId update =>
      rw [hr] at hanswer
      cases hanswer
      exact fine_patchConversation h
        (fun _ hrow => ⟨(owned_spec hrow).1, (owned_spec hrow).2.2⟩) update
    | deleteConversation conversationId =>
      rw [hr] at hanswer
      cases hanswer
      exact fine_dropConversation h
        (fun _ hrow => ⟨(owned_spec hrow).1, (owned_spec hrow).2.2⟩) _ _
    | uploadFile file conversationId =>
      rw [hr] at hanswer hkey
      cases hanswer
      exact fine_uploadFile h hfresh.file (fun f hf he => hkey f hf (congrArg some he.symm)) _
    | listFiles =>
      rw [hr] at hanswer
      cases hanswer
      exact fine_listFiles h
    | downloadFile fileId =>
      rw [hr] at hanswer
      cases hanswer
      exact fine_downloadFile h fileId
    | getDownloadUrl fileId =>
      rw [hr] at hanswer
      cases hanswer
      exact fine_getDownloadUrl h fileId
    | deleteFile fileId =>
      rw [hr] at hanswer
      cases hanswer
      exact fine_deleteFile h fileId
    | supportedFormats =>
      rw [hr] at hanswer
      cases hanswer
      exact .of_same h (fun _ e he => absurd he (by simp [Response.exposed])) trivial
    | uploadDocument file metadata =>
      rw [hr] at hanswer hkey
      cases hanswer
      exact fine_uploadDocument h hfresh.file (fun f hf he => hkey f hf (congrArg some he.symm))
        hfresh.document hfresh.reference metadata
    | listDocuments =>
      rw [hr] at hanswer
      cases hanswer
      exact fine_listDocuments h
    | deleteDocument documentId =>
      rw [hr] at hanswer
      cases hanswer
      exact fine_deleteDocument h documentId
    | listTraces conversationId spanType status allUsers limit offset =>
      rw [hr] at hanswer
      cases hanswer
      exact fine_listTraces h conversationId spanType status allUsers limit offset
    | getTrace traceId =>
      rw [hr] at hanswer
      cases hanswer
      exact fine_getTrace h traceId
    | streamChat model conversationId threadId =>
      rw [hr] at hanswer
      cases hanswer
      exact fine_streamChat h hfresh.thread model conversationId threadId
  · cases hanswer
    exact fine_error h _ _

/-! ## Histories -/

/-- The key of a search. -/
def Call.searchKey (c : Call V) : Option String :=
  match c.request with
  | .searchDocuments args => some (args.cacheKey c.user.id)
  | _ => none

/-- The digest of a search is not that of an earlier search of another user. -/
def DistinctKeys (h : History V) (c : Call V) : Prop :=
  ∀ x ∈ h.served, x.call.user.id ≠ c.user.id → ∀ key, c.searchKey = some key →
    x.call.searchKey ≠ some key

/-- What is asked of an answered request, with the states the server has been in so far. -/
structure Served.Fine (p : Platform V) (seen : List (Server V)) (x : Served V) : Prop where
  shown : x.call.user.role ≠ .admin → ∀ e ∈ x.response.exposed,
    ∃ s ∈ seen, e.BelongsTo p x.call.user.id s
  frame : Frame x.call.user.id (.between x.call.user.id x.before x.after) x.before x.after
  files : FilesAttached x.call.user.id x.before x.after
  chat : ChatAttached x.call.user.id x.before x.response

/-- What the requests that have been answered have deleted. -/
def Losses.of (served : List (Served V)) : Losses where
  conversation id := ∃ x ∈ served, (between x.call.user.id x.before x.after).conversation id
  file id := ∃ x ∈ served, (between x.call.user.id x.before x.after).file id

/-- What holds after any requests. -/
structure Sound (p : Platform V) (s₀ : Server V) (h : History V) : Prop where
  valid : h.now.Valid
  seen : h.now ∈ h.seen
  served : ∀ x ∈ h.served, x.Fine p h.seen
  alone : ∀ userId, (∀ x ∈ h.served, x.call.user.id = userId) →
    Frame userId (.of h.served) s₀ h.now
  /-- An entry is there because of a search, and holds results of that search's user. -/
  entries : ∀ key, (h.now.cache key).entry = none ∨ ∃ x ∈ h.served, x.call.searchKey = some key ∧
    Cache.EntryHas (Shows p h.seen x.call.user.id) (h.now.cache key)

/-- Before the first request the cache is empty. -/
theorem sound_start {s₀ : Server V} (h : s₀.Valid) (hcache : ∀ key, (s₀.cache key).entry = none) :
    Sound p s₀ (.start s₀) :=
  ⟨h, List.mem_cons_self, fun x hx => absurd hx (by simp [History.start]), fun _ _ => .refl s₀,
    fun key => .inl (hcache key)⟩

theorem entryHas_of_none {G : Json → Prop} {r : Cache.Redis} (hnull : G .null) (h : r.entry = none) :
    Cache.EntryHas G r := by
  unfold Cache.EntryHas
  rw [h]
  exact hnull

/-- What the entry of a user's search holds is the user's. -/
theorem Sound.entryHas {s₀ : Server V} {h : History V} (hsound : Sound p s₀ h)
    (hdistinct : DistinctKeys h c) {args : Rag.SearchArgs} (hr : c.request = .searchDocuments args) :
    Cache.EntryHas (Shows p h.seen c.user.id) (h.now.cache (args.cacheKey c.user.id)) := by
  rcases hsound.entries (args.cacheKey c.user.id) with hnone | ⟨x, hx, hkey, hhas⟩
  · exact entryHas_of_none (fun rows hrows => absurd hrows (by simp)) hnone
  · have hu : x.call.user.id = c.user.id := by
      by_contra hne
      refine hdistinct x hx hne (args.cacheKey c.user.id) ?_ hkey
      unfold Call.searchKey
      rw [hr]
    rw [← hu] at hhas ⊢
    exact hhas

/-- **One request.** -/
theorem Sound.step {s₀ : Server V} {h h' : History V} (hsound : Sound p s₀ h)
    (hdistinct : DistinctKeys h c) (hs : (rest p).step h c = some h') : Sound p s₀ h' := by
  have hs' : (if c.isFresh p h.now then (handle p h.now c).map fun answer =>
      ({ now := answer.1
         seen := answer.1 :: h.seen
         served := ⟨c, answer.2, h.now, answer.1⟩ :: h.served } : History V) else none) = some h' := hs
  split at hs'
  · rename_i hfresh
    obtain ⟨answer, hanswer, rfl⟩ := Option.map_eq_some_iff.mp hs'
    have hfine := fine_handle hsound.valid hsound.seen (fresh_of_isFresh hfresh)
      (fun args hr => hsound.entryHas hdistinct hr) hanswer
    have hsub : ∀ t ∈ h.seen, t ∈ answer.1 :: h.seen := fun t ht => List.mem_cons_of_mem _ ht
    refine ⟨hfine.kept.valid, List.mem_cons_self, ?_, ?_, ?_⟩
    · intro x hx
      rcases List.mem_cons.mp hx with rfl | hx
      · exact ⟨hfine.shown, hfine.kept.frame, hfine.files, hfine.chat⟩
      · obtain ⟨hshown, hframe, hfiles, hchat⟩ := hsound.served x hx
        refine ⟨fun hr e he => ?_, hframe, hfiles, hchat⟩
        obtain ⟨t, ht, hb⟩ := hshown hr e he
        exact ⟨t, hsub t ht, hb⟩
    · intro userId hall
      have hu : c.user.id = userId := hall _ List.mem_cons_self
      have hbefore := hsound.alone userId fun x hx => hall x (List.mem_cons_of_mem _ hx)
      rw [← hu] at hbefore ⊢
      refine (hbefore.mono ?_ ?_).trans (hfine.kept.frame.mono ?_ ?_)
      · rintro id ⟨x, hx, hlost⟩
        exact ⟨x, List.mem_cons_of_mem _ hx, hlost⟩
      · rintro id ⟨x, hx, hlost⟩
        exact ⟨x, List.mem_cons_of_mem _ hx, hlost⟩
      · exact fun id hlost => ⟨_, List.mem_cons_self, hlost⟩
      · exact fun id hlost => ⟨_, List.mem_cons_self, hlost⟩
    · intro key
      rcases hfine.cache key with hnone | hsame | ⟨args, hr, hk, hhas⟩
      · exact .inl hnone
      · rcases hsound.entries key with hnone | ⟨x, hx, hkey, hhas⟩
        · refine .inl ?_
          show (answer.1.cache key).entry = none
          rw [hsame]
          exact hnone
        · refine .inr ⟨x, List.mem_cons_of_mem _ hx, hkey, ?_⟩
          show Cache.EntryHas _ (answer.1.cache key)
          rw [hsame]
          exact hhas.mono hsub
      · refine .inr ⟨_, List.mem_cons_self, ?_, hhas⟩
        unfold Call.searchKey
        rw [hr, hk]
  · cases hs'

/-- **Rows stay with their owner.** Over requests of any users, from any state of the tables: what
    a response shows a user who is no administrator is what the server showed of the user's own
    rows in some state, a file or chat is attached to a conversation of its user, and requests of
    one user leave all others their rows and objects, but for references to conversations and
    files which that user has deleted: the user had them before one of the requests, and after it
    they were gone. -/
theorem rows_stay_with_their_owner (p : Platform V) (s₀ : Server V) (hvalid : s₀.Valid)
    (hcache : ∀ key, (s₀.cache key).entry = none) (h : History V)
    (hr : (rest p).Reach DistinctKeys (.start s₀) h) :
    (∀ x ∈ h.served, x.Fine p h.seen) ∧
      ∀ userId, (∀ x ∈ h.served, x.call.user.id = userId) →
        Frame userId (.of h.served) s₀ h.now := by
  have hsound : Sound p s₀ h := by
    apply hr.invariant (sound_start hvalid hcache)
    intro h c h' hsound hdistinct hs
    exact hsound.step hdistinct hs
  exact ⟨hsound.served, hsound.alone⟩

/-! ## A shared conversation -/

/-- A local deployment with one model. -/
def localPlatform : Platform Nat where
  availableChatModels := ["glm-5.2"]
  zhipuChatModel := "glm-5.2"
  maxUploadBytes := 1024
  backend := .local
  s3PublicBaseUrl := ""
  s3PresignExpirySeconds := 600
  ragUploadDir := "/data/rag"
  cacheEnabled := true
  isoformat := fun _ => "2026-01-01T00:00:00"
  lower := fun text => text
  guessType := fun _ => none
  sha256 := fun _ => "sha"
  presignedUrl := fun key => key
  loads := fun _ => .error "Expecting value"
  parseTraceError := fun _ => .null
  index := ⟨fun _ _ => 0, fun _ _ => .int 1, fun chunk => chunk.chunkIndex⟩
  documentTimes := fun _ => (0, 0)

/-- A run of `ua` that was traced under the conversation of `ub`. -/
def sharedTrace : TraceSpan where
  id := "t1"
  userId := "ua"
  conversationId := some "c1"
  threadId := some "th1"
  runId := "r1"
  parentRunId := none
  name := "model:glm-5.2"
  spanType := "model"
  status := "success"
  modelName := some "glm-5.2"
  toolName := none
  input := .obj []
  output := .obj []
  promptTokens := 1
  completionTokens := 1
  totalTokens := 2
  latencyMs := some 5
  errorMessage := none
  startedAt := 0
  endedAt := some 1

def sharedServer : Server Nat :=
  ⟨[⟨"c1", "ub", "th1", "新会话", none, false, 0, 0⟩], [], [sharedTrace], ⟨[], []⟩, fun _ => none,
    fun _ => ⟨none, none⟩⟩

theorem valid_sharedServer : sharedServer.Valid := ⟨by simp [sharedServer], by simp [sharedServer],
  by simp [sharedServer], by simp [sharedServer], by simp [sharedServer]⟩

/-- `ub` deletes that conversation. -/
def deletion : Call Nat :=
  ⟨⟨"ub", .user, []⟩, .deleteConversation "c1",
    ⟨"n1", "n2", "n3", "n4", 1, true, true, true, Rag.textFile "x", false, true, fun _ => false,
      "", "n5", [], none⟩⟩

theorem deletion_isSome :
    ((rest localPlatform).step (.start sharedServer) deletion).isSome = true := by
  decide

def deleted : History Nat :=
  ((rest localPlatform).step (.start sharedServer) deletion).get deletion_isSome

theorem reach_deleted : (rest localPlatform).Reach DistinctKeys (.start sharedServer) deleted :=
  .step deletion .start (fun x hx => absurd hx (by simp [History.start]))
    (Option.some_get deletion_isSome).symm

/-- The trace of `ua` has lost its conversation. -/
theorem trace_loses_conversation :
    (rest localPlatform).Reach DistinctKeys (.start sharedServer) deleted ∧
      (∀ x ∈ deleted.served, x.call.user.id = "ub" ∧ x.call.user.role ≠ .admin) ∧
      ∃ t ∈ sharedServer.traces, t.userId ≠ "ub" ∧ t ∉ deleted.now.traces := by
  refine ⟨reach_deleted, by decide, sharedTrace, List.mem_cons_self, by decide, ?_⟩
  intro hmem
  have hlost : deleted.now.traces.map TraceSpan.conversationId = [none] := by decide
  have hsome : some "c1" ∈ deleted.now.traces.map TraceSpan.conversationId :=
    List.mem_map.mpr ⟨sharedTrace, hmem, rfl⟩
  rw [hlost] at hsome
  exact absurd hsome (by simp)

theorem rows_stay_with_their_owner_deletion :
    Frame "ub" (.of deleted.served) sharedServer deleted.now :=
  (rows_stay_with_their_owner localPlatform sharedServer valid_sharedServer (fun _ => rfl) deleted
    reach_deleted).2 "ub" (by decide)

end Rest

end HyChat
