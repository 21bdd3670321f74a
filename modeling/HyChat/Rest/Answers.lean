import HyChat.Cache.Carried
import HyChat.Rest.Ingestion

/-!
# What an answer shows

An answer is made of rows. `Exposed` lists the parts of a response that carry fields of a row, and
`BelongsTo` says that such a part is what the server shows of some row of the user. Each endpoint
has one lemma: its answer shows rows of the caller, attaches nothing to another user's
conversation, and leaves the others what they had.

Why three things are asked of an answer at once. A response shows rows, a request attaches rows to
each other, and it changes what others have; each of the three can leak or damage something of
somebody else, and an endpoint is fine if none of them does. They are fields of `Fine` rather than
three families of lemmas because an endpoint makes the same case distinctions for all: which row
was looked up, whether it was the caller's, which commit failed.

An administrator may see what is another user's, and what is asked of the parts of a response is
asked for callers who are none. The rest is asked for everybody.

What a response shows from the search cache was read in an earlier state, so `Fine` has a list of
states; everything else is shown from the state the request finds or leaves.
-/

set_option autoImplicit false

namespace HyChat

open Lib

namespace Rest

variable {V : Type}

/-! ## Parts of a response -/

inductive Exposed
  | conversation (item : Json)
  | file (item : Json)
  | url (url : String)
  | content (content : Content) (filename : String) (mediaType : Option String)
  | document (item : Json)
  | result (item : Json)
  | trace (item : Json)

def Response.exposed : Response → List Exposed
  | .conversation _ item => [.conversation item]
  | .conversations items => items.map .conversation
  | .file item => [.file item]
  | .files items => items.map .file
  | .redirect link => [.url link]
  | .content bytes filename mediaType => [.content bytes filename mediaType]
  | .downloadUrl link _ => [.url link]
  | .document item => [.document item]
  | .documents items => items.map .document
  | .results _ (.arr rows) => rows.map .result
  | .traces items => items.map .trace
  | .trace item => [.trace item]
  | _ => []

/-- The part shows a row that the user has in this state. -/
def Exposed.BelongsTo (p : Platform V) (userId : String) (s : Server V) : Exposed → Prop
  | .conversation item =>
      ∃ row ∈ s.conversations, row.userId = userId ∧ item = serializeConversation p row
  | .file item => ∃ row ∈ s.files, row.userId = userId ∧ item = serializeFile p row
  | .url link => ∃ row ∈ s.files, row.userId = userId ∧
      (storageUrl p row.objectKey = some link ∨ link = s!"/files/{row.id}/content")
  | .content bytes filename mediaType => ∃ row ∈ s.files, row.userId = userId ∧
      s.objects row.objectKey = some bytes ∧ filename = row.filename ∧ mediaType = row.contentType
  | .document item =>
      ∃ row ∈ s.knowledge.documents, row.userId = some userId ∧ item = serializeDocument p row
  | .result item => ∃ chunk ∈ s.knowledge.chunks, ∃ row ∈ s.knowledge.documents,
      row.id = chunk.documentId ∧ row.userId = some userId ∧
        ∃ query, item = Rag.resultRow p.index query (chunk, row)
  | .trace item =>
      ∃ row ∈ s.traces, row.userId = userId ∧ ∃ payload, item = serializeSpan p payload row

/-- The value is a list of results that were the user's in one of these states. -/
def Shows (p : Platform V) (seen : List (Server V)) (userId : String) (value : Json) : Prop :=
  ∀ rows, value = .arr rows → ∀ item ∈ rows, ∃ s ∈ seen, (Exposed.result item).BelongsTo p userId s

/-! ## Attachments -/

/-- A conversation a file has got is one of the user's, and so is the file. -/
def FilesAttached (userId : String) (s s' : Server V) : Prop :=
  ∀ f ∈ s'.files, ∀ id, f.conversationId = some id →
    (∃ f₀ ∈ s.files, f₀.id = f.id ∧ f₀.conversationId = some id) ∨
      f.userId = userId ∧ ∃ row ∈ s.conversations, row.id = id ∧ row.userId = userId

/-- A chat runs for a conversation of the user and on a thread that is no other user's. -/
def ChatAttached (userId : String) (s : Server V) : Response → Prop
  | .chat conversationId threadId =>
      (∀ id, conversationId = some id → ∃ row ∈ s.conversations, row.id = id ∧ row.userId = userId) ∧
        ∀ row ∈ s.conversations, row.threadId = threadId → row.userId = userId
  | _ => True

theorem filesAttached_of_subset {userId : String} {s s' : Server V}
    (h : ∀ f ∈ s'.files, f ∈ s.files ∨ f.conversationId = none) : FilesAttached userId s s' := by
  intro f hf id hid
  rcases h f hf with hmem | hnone
  · exact .inl ⟨f, hmem, rfl, hid⟩
  · rw [hnone] at hid
    exact absurd hid (by simp)

/-! ## Answers -/

variable (p : Platform V)

/-- What is asked of an answer, of which the others may lose references to `losses`. The states
    `seen` are those the server has been in before. -/
structure Fine (c : Call V) (seen : List (Server V)) (losses : Losses) (s : Server V)
    (answer : Server V × Response) : Prop where
  kept : Kept c.user.id losses s answer.1
  shown : c.user.role ≠ .admin → ∀ e ∈ answer.2.exposed,
    ∃ t ∈ answer.1 :: seen, e.BelongsTo p c.user.id t
  files : FilesAttached c.user.id s answer.1
  chat : ChatAttached c.user.id s answer.2
  cache : ∀ key, (answer.1.cache key).entry = none ∨ answer.1.cache key = s.cache key ∨
    ∃ args, c.request = .searchDocuments args ∧ key = args.cacheKey c.user.id ∧
      Cache.EntryHas (Shows p (answer.1 :: seen) c.user.id) (answer.1.cache key)

variable {p} {c : Call V} {seen : List (Server V)} {losses : Losses} {s : Server V}

/-- An answer that shows rows of the state it leaves, and does not touch the cache. -/
theorem Fine.of_now {answer : Server V × Response} (kept : Kept c.user.id losses s answer.1)
    (shown : c.user.role ≠ .admin → ∀ e ∈ answer.2.exposed, e.BelongsTo p c.user.id answer.1)
    (files : FilesAttached c.user.id s answer.1) (chat : ChatAttached c.user.id s answer.2)
    (cache : answer.1.cache = s.cache) : Fine p c seen losses s answer :=
  ⟨kept, fun hr e he => ⟨_, List.mem_cons_self, shown hr e he⟩, files, chat,
    fun key => .inr (.inl (congrFun cache key))⟩

/-- An answer of a request that changes nothing. -/
theorem Fine.of_same (h : s.Valid) {r : Response}
    (shown : c.user.role ≠ .admin → ∀ e ∈ r.exposed, e.BelongsTo p c.user.id s)
    (chat : ChatAttached c.user.id s r) : Fine p c seen losses s (s, r) :=
  .of_now (.refl h) shown (filesAttached_of_subset fun _ hf => .inl hf) chat rfl

/-- An error shows nothing. -/
theorem fine_error (h : s.Valid) (status : Nat) (detail : String) :
    Fine p c seen losses s (s, .error status detail) :=
  .of_same h (fun _ e he => absurd he (by simp [Response.exposed])) trivial

/-- An error after changes of files that are attached to nothing. -/
theorem Fine.error {s' : Server V} (kept : Kept c.user.id losses s s')
    (files : FilesAttached c.user.id s s') (cache : s'.cache = s.cache) (status : Nat)
    (detail : String) : Fine p c seen losses s (s', .error status detail) :=
  .of_now kept (fun _ e he => absurd he (by simp [Response.exposed])) files trivial cache

theorem permittedModel_error {user : User} {modelId : Option String} {r : Response}
    (h : permittedModel p user modelId = .error r) : ∃ status detail, r = .error status detail := by
  unfold permittedModel at h
  split at h
  · cases h
    exact ⟨_, _, rfl⟩
  · split at h
    · cases h
    · cases h
      exact ⟨_, _, rfl⟩

/-! ## Conversations -/

/-- A conversation that is looked up by id is the caller's. -/
theorem owned_spec {userId id : String} {row : Conversation} (h : owned s userId id = some row) :
    row ∈ s.conversations ∧ row.id = id ∧ row.userId = userId := by
  obtain ⟨hf, hu⟩ := Option.filter_eq_some_iff.mp h
  have hid := List.find?_some hf
  exact ⟨List.mem_of_find?_eq_some hf, by simpa using hid, by simpa using hu⟩

/-- A conversation that is looked up by thread is the caller's. -/
theorem ownedByThread_spec {userId threadId : String} {row : Conversation}
    (h : ownedByThread s userId threadId = some row) :
    row ∈ s.conversations ∧ row.userId = userId := by
  have hp := List.find?_some h
  simp only [Bool.and_eq_true, beq_iff_eq] at hp
  exact ⟨List.mem_of_find?_eq_some h, hp.2⟩

theorem fine_createConversation (h : s.Valid)
    (hid : ∀ row ∈ s.conversations, row.id ≠ c.draws.id)
    (hthread : ∀ row ∈ s.conversations, row.threadId ≠ c.draws.threadId) (title : String)
    (selectedModel : Option String) :
    Fine p c seen losses s (createConversation p s c title selectedModel) := by
  unfold createConversation
  split
  · split
    · rename_i r hr
      obtain ⟨status, detail, rfl⟩ := permittedModel_error hr
      exact fine_error h status detail
    · simp only
      split
      · refine .of_now (kept_insertConversation h rfl hid hthread) ?_
          (filesAttached_of_subset fun _ hf => .inl hf) trivial rfl
        intro _ e he
        rw [List.mem_singleton.mp he]
        exact ⟨_, List.mem_append_right _ List.mem_cons_self, rfl, rfl⟩
      · exact fine_error h _ _
  · exact fine_error h _ _

/-- What a listing shows comes from a row that its filter keeps. -/
theorem mem_listing {α β γ : Type} {rows : List α} {keep : α → Bool} {le : α → α → Prop}
    [DecidableRel le] {serialize : α → β} {exposes : β → γ} {e : γ}
    (he : e ∈ (((rows.filter keep).insertionSort le).map serialize).map exposes) :
    ∃ row ∈ rows, keep row = true ∧ exposes (serialize row) = e := by
  obtain ⟨item, hitem, rfl⟩ := List.mem_map.mp he
  obtain ⟨row, hrow, rfl⟩ := List.mem_map.mp hitem
  rw [List.mem_insertionSort] at hrow
  obtain ⟨hmem, hkeep⟩ := List.mem_filter.mp hrow
  exact ⟨row, hmem, hkeep, rfl⟩

theorem fine_listConversations (h : s.Valid) (archived : Bool) :
    Fine p c seen losses s (listConversations p s c archived) := by
  refine .of_same h ?_ trivial
  intro _ e he
  obtain ⟨row, hmem, hkeep, rfl⟩ := mem_listing he
  simp only [Bool.and_eq_true, beq_iff_eq] at hkeep
  exact ⟨row, hmem, hkeep.1, rfl⟩

/-- An update leaves the row its id, its owner and its thread. -/
theorem applyUpdate_spec {now : Nat} {row updated : Conversation} {request : ConversationUpdate}
    {user : User} (h : applyUpdate p now row request user = .ok (some updated)) :
    updated.id = row.id ∧ updated.userId = row.userId ∧ updated.threadId = row.threadId := by
  unfold applyUpdate at h
  simp only at h
  split at h
  · cases h
  · split at h
    · cases h
    · cases h
      exact ⟨rfl, rfl, rfl⟩

theorem applyUpdate_error {now : Nat} {row : Conversation} {request : ConversationUpdate}
    {user : User} {r : Response} (h : applyUpdate p now row request user = .error r) :
    ∃ status detail, r = .error status detail := by
  unfold applyUpdate at h
  simp only at h
  split at h
  · rename_i hs
    cases h
    split at hs
    · split at hs
      · cases hs
      · rename_i model _ _
        cases hm : permittedModel p user (some model) with
        | error r' =>
          rw [hm] at hs
          cases hs
          exact permittedModel_error hm
        | ok m =>
          rw [hm] at hs
          cases hs
    · cases hs
  · split at h
    · cases h
    · cases h

/-- Both PATCH endpoints, once the row is there -/
theorem fine_patchConversation (h : s.Valid) {row : Option Conversation}
    (hrow : ∀ r ∈ row, r ∈ s.conversations ∧ r.userId = c.user.id) (request : ConversationUpdate) :
    Fine p c seen losses s (patchConversation p s c row request) := by
  unfold patchConversation
  split
  · split
    · exact fine_error h _ _
    · rename_i row
      obtain ⟨hmem, hu⟩ := hrow row rfl
      split
      · rename_i r hr
        obtain ⟨status, detail, rfl⟩ := applyUpdate_error hr
        exact fine_error h status detail
      · exact fine_error h _ _
      · rename_i updated hupdated
        obtain ⟨hid, huser, hthread⟩ := applyUpdate_spec hupdated
        split
        · refine .of_now (kept_updateConversation h hmem hid hthread hu (huser.trans hu)) ?_
            (filesAttached_of_subset fun _ hf => .inl hf) trivial rfl
          intro _ e he
          rw [List.mem_singleton.mp he]
          refine ⟨updated, List.mem_map.mpr ⟨row, hmem, if_pos hid.symm⟩, huser.trans hu, rfl⟩
        · exact fine_error h _ _
  · exact fine_error h _ _

theorem lost_deleteConversation {userId : String} {row : Conversation} (hrow : row ∈ s.conversations)
    (hu : row.userId = userId) :
    (Losses.between userId s (s.deleteConversation row.id)).conversation row.id :=
  ⟨⟨row, hrow, rfl, hu⟩, fun _ hc => by simpa using (List.mem_filter.mp hc).2⟩

/-- Both DELETE endpoints, once the row is there -/
theorem fine_dropConversation (h : s.Valid) {row : Option Conversation}
    (hrow : ∀ r ∈ row, r ∈ s.conversations ∧ r.userId = c.user.id) (key id : String) :
    Fine p c seen (.between c.user.id s (dropConversation s c row key id).1) s
      (dropConversation s c row key id) := by
  unfold dropConversation
  split
  · exact fine_error h _ _
  · rename_i row
    obtain ⟨hmem, hu⟩ := hrow row rfl
    split
    · refine .of_now (kept_deleteConversation h hmem hu (lost_deleteConversation hmem hu))
        (fun _ e he => absurd he (by simp [Response.exposed])) ?_ trivial rfl
      intro f hf id hid
      obtain ⟨f₀, hf₀, rfl⟩ := List.mem_map.mp hf
      exact .inl ⟨f₀, hf₀, rfl, eq_of_unlinked hid⟩
    · exact fine_error h _ _

theorem fine_getConversation (h : s.Valid) (id : String) :
    Fine p c seen losses s (getConversation p s c id) := by
  unfold getConversation
  split
  · exact fine_error h _ _
  · rename_i row hrow
    obtain ⟨hmem, -, hu⟩ := owned_spec hrow
    refine .of_same h ?_ trivial
    intro _ e he
    rw [List.mem_singleton.mp he]
    exact ⟨row, hmem, hu, rfl⟩

/-! ## Files -/

/-- A file that is looked up is the caller's. -/
theorem ownedFile_spec {userId id : String} {row : StoredFile} (h : ownedFile s userId id = some row) :
    row ∈ s.files ∧ row.userId = userId := by
  obtain ⟨hf, hu⟩ := Option.filter_eq_some_iff.mp h
  exact ⟨List.mem_of_find?_eq_some hf, by simpa using hu⟩

/-- Storing a file of the caller: the others keep theirs, and the row is there or nothing is. -/
theorem createFromPath_spec (h : s.Valid) (file : UploadFile) {row : StoredFile}
    (hu : row.userId = c.user.id) (hid : ∀ f ∈ s.files, f.id ≠ row.id)
    (hkey : ∀ f ∈ s.files, f.objectKey ≠ row.objectKey) :
    Kept c.user.id losses s (createFromPath s c file row).1 ∧
      (createFromPath s c file row).1.cache = s.cache ∧
      (createFromPath s c file row).1.conversations = s.conversations ∧
      (createFromPath s c file row).1.knowledge = s.knowledge ∧
      (createFromPath s c file row).1.files =
        if (createFromPath s c file row).2 then s.files ++ [row] else s.files := by
  have hput : Kept c.user.id losses s (s.putObject row.objectKey file.content) :=
    kept_objects h (fun f hf _ => hkey f hf) _
  unfold createFromPath
  simp only
  split
  · exact ⟨hput.trans (kept_insertFile hput.valid hu hid hkey), rfl, rfl, rfl, rfl⟩
  · split
    · exact ⟨hput.trans (kept_objects hput.valid (fun f hf _ => hkey f hf) none), rfl, rfl, rfl, rfl⟩
    · exact ⟨hput, rfl, rfl, rfl, rfl⟩

/-- A file that could not be stored is answered with an error. -/
theorem fine_notStored (h : s.Valid) {file : UploadFile} {row : StoredFile}
    (hu : row.userId = c.user.id) (hid : ∀ f ∈ s.files, f.id ≠ row.id)
    (hkey : ∀ f ∈ s.files, f.objectKey ≠ row.objectKey) {s' : Server V}
    (hs : createFromPath s c file row = (s', false)) (status : Nat) (detail : String) :
    Fine p c seen losses s (s', .error status detail) := by
  obtain ⟨hkept, hcache, -, -, hfiles⟩ := createFromPath_spec h file hu hid hkey
  rw [hs] at hkept hcache hfiles
  simp only [Bool.false_eq_true, if_false] at hkept hcache hfiles
  refine .error hkept (filesAttached_of_subset fun f hf => .inl ?_) hcache status detail
  rw [hfiles] at hf
  exact hf

theorem fine_uploadFile (h : s.Valid) {file : UploadFile} (hid : ∀ f ∈ s.files, f.id ≠ c.draws.id)
    (hkey : ∀ f ∈ s.files,
      f.objectKey ≠ objectKey p c.draws.objectUuid c.user.id (file.name "file"))
    (conversationId : Option String) : Fine p c seen losses s (uploadFile p s c file conversationId) := by
  unfold uploadFile
  simp only
  split
  · rename_i hallowed
    split
    · let row := newFile p c file (file.name "file") (formField conversationId)
      have hrow : row.userId = c.user.id := rfl
      obtain ⟨hkept, hcache, -, -, hfiles⟩ := createFromPath_spec h file hrow hid hkey
      split
      · rename_i s' hs
        replace hs : createFromPath s c file row = (s', true) := hs
        rw [hs] at hkept hcache hfiles
        simp only [if_true] at hkept hcache hfiles
        refine .of_now hkept ?_ ?_ trivial hcache
        · intro _ e he
          rw [List.mem_singleton.mp he]
          refine ⟨row, ?_, rfl, rfl⟩
          rw [hfiles]
          exact List.mem_append_right _ List.mem_cons_self
        · intro f hf id hc
          rw [hfiles] at hf
          rcases List.mem_append.mp hf with hf | hf
          · exact .inl ⟨f, hf, rfl, hc⟩
          · rw [List.mem_singleton.mp hf] at hc ⊢
            replace hc : formField conversationId = some id := hc
            rw [hc, Option.all_some] at hallowed
            obtain ⟨conversation, howned⟩ := Option.isSome_iff_exists.mp hallowed
            exact .inr ⟨rfl, conversation, owned_spec howned⟩
      · rename_i s' hs
        exact fine_notStored h hrow hid hkey hs _ _
    · exact fine_error h _ _
  · exact fine_error h _ _

theorem fine_listFiles (h : s.Valid) : Fine p c seen losses s (listFiles p s c) := by
  refine .of_same h ?_ trivial
  intro _ e he
  obtain ⟨row, hmem, hkeep, rfl⟩ := mem_listing he
  exact ⟨row, hmem, by simpa using hkeep, rfl⟩

theorem fine_downloadFile (h : s.Valid) (fileId : String) :
    Fine p c seen losses s (downloadFile p s c fileId) := by
  unfold downloadFile
  split
  · exact fine_error h _ _
  · rename_i row hrow
    obtain ⟨hmem, hu⟩ := ownedFile_spec hrow
    split
    · rename_i url hurl
      refine .of_same h ?_ trivial
      intro _ e he
      rw [List.mem_singleton.mp he]
      exact ⟨row, hmem, hu, .inl hurl⟩
    · split
      · exact fine_error h _ _
      · rename_i content hcontent
        refine .of_same h ?_ trivial
        intro _ e he
        rw [List.mem_singleton.mp he]
        exact ⟨row, hmem, hu, hcontent, rfl, rfl⟩

theorem fine_getDownloadUrl (h : s.Valid) (fileId : String) :
    Fine p c seen losses s (getDownloadUrl p s c fileId) := by
  unfold getDownloadUrl
  split
  · exact fine_error h _ _
  · rename_i row hrow
    obtain ⟨hmem, hu⟩ := ownedFile_spec hrow
    refine .of_same h ?_ trivial
    intro _ e he
    rw [List.mem_singleton.mp he]
    refine ⟨row, hmem, hu, ?_⟩
    cases storageUrl p row.objectKey with
    | none => exact .inr rfl
    | some url => exact .inl rfl

theorem removeFile_files (s : Server V) (row : StoredFile) (accepts : Bool) :
    ∀ f ∈ (removeFile s row accepts).files, f ∈ s.files := by
  intro f hf
  unfold removeFile at hf
  simp only at hf
  split at hf
  · exact (List.mem_filter.mp hf).1
  · exact hf

theorem removeFile_cache (s : Server V) (row : StoredFile) (accepts : Bool) :
    (removeFile s row accepts).cache = s.cache := by
  unfold removeFile
  simp only
  split
  · rfl
  · rfl

/-- What is lost when a file goes: the file itself. -/
theorem lost_removeFile {userId : String} {row : StoredFile} (hrow : row ∈ s.files)
    (hu : row.userId = userId) {accepts : Bool} (haccepts : accepts = true) :
    (Losses.between userId s (removeFile s row accepts)).file row.id := by
  refine ⟨⟨row, hrow, rfl, hu⟩, ?_⟩
  intro f hf
  unfold removeFile at hf
  rw [haccepts] at hf
  simpa using (List.mem_filter.mp hf).2

/-- A file goes, and the references to it. -/
theorem fine_deleteFile (h : s.Valid) (fileId : String) :
    Fine p c seen (.between c.user.id s (deleteFile s c fileId).1) s (deleteFile s c fileId) := by
  unfold deleteFile
  split
  · exact fine_error h _ _
  · rename_i row hrow
    obtain ⟨hmem, hu⟩ := ownedFile_spec hrow
    refine .of_now (kept_removeFile h hmem hu _ fun ha => .inl (lost_removeFile hmem hu ha)) ?_
      (filesAttached_of_subset fun f hf => .inl (removeFile_files _ _ _ f hf)) ?_
      (removeFile_cache _ _ _)
    · intro _ e he
      split at he
      · exact absurd he (by simp [Response.exposed])
      · exact absurd he (by simp [Response.exposed, internalError])
    · simp only
      split
      · trivial
      · trivial

/-! ## Traces and chats -/

theorem fine_listTraces (h : s.Valid) (conversationId spanType status : Option String)
    (allUsers : Bool) (limit offset : Nat) :
    Fine p c seen losses s (listTraces p s c conversationId spanType status allUsers limit offset) := by
  refine .of_same h ?_ trivial
  intro hrole e he
  obtain ⟨item, hitem, rfl⟩ := List.mem_map.mp he
  obtain ⟨row, hrow, rfl⟩ := List.mem_map.mp hitem
  have hsorted := List.mem_of_mem_drop (List.mem_of_mem_take hrow)
  rw [List.mem_insertionSort] at hsorted
  obtain ⟨hmem, hp⟩ := List.mem_filter.mp hsorted
  simp only [Bool.and_eq_true, Bool.or_eq_true, beq_iff_eq] at hp
  obtain ⟨⟨⟨⟨-, hadmin⟩ | hu, -⟩, -⟩, -⟩ := hp
  · exact absurd hadmin hrole
  · exact ⟨row, hmem, hu, false, rfl⟩

/-- A trace is shown to its user. -/
theorem fine_getTrace (h : s.Valid) (traceId : String) : Fine p c seen losses s (getTrace p s c traceId) := by
  unfold getTrace
  split
  · exact fine_error h _ _
  · rename_i row hrow
    obtain ⟨hf, hp⟩ := Option.filter_eq_some_iff.mp hrow
    refine .of_same h ?_ trivial
    intro hrole e he
    rw [List.mem_singleton.mp he]
    simp only [Bool.or_eq_true, beq_iff_eq] at hp
    rcases hp with hu | hadmin
    · exact ⟨row, List.mem_of_find?_eq_some hf, hu, true, rfl⟩
    · exact absurd hadmin hrole

theorem Server.Valid.thread_eq (h : s.Valid) {a b : Conversation} (ha : a ∈ s.conversations)
    (hb : b ∈ s.conversations) (he : a.threadId = b.threadId) : a = b :=
  List.inj_on_of_nodup_map h.threads ha hb he

/-- What the three checks of `stream_chat` leave. -/
theorem chatAttached_of_checks {userId drawn : String} {conversationId threadId : Option String}
    (h : s.Valid) (hthread : ∀ row ∈ s.conversations, row.threadId ≠ drawn)
    (hnamed : ¬ conversationId.map (owned s userId) = some none)
    (hforeign : ¬ ((threadId.bind fun id => s.conversations.find? fun row => row.threadId == id).any
      fun row => row.userId != userId) = true)
    (hmatch : ¬ ((conversationId.map (owned s userId)).join.any
      fun row => threadId.any (· != row.threadId)) = true) :
    ChatAttached userId s (.chat
      (((conversationId.map (owned s userId)).join <|>
        threadId.bind fun id => s.conversations.find? fun row => row.threadId == id).map Conversation.id)
      ((threadId <|> ((conversationId.map (owned s userId)).join <|>
        threadId.bind fun id => s.conversations.find? fun row => row.threadId == id).map
          Conversation.threadId).getD drawn)) := by
  have hsame : ∀ row ∈ s.conversations, row.userId = userId → ∀ other ∈ s.conversations,
      other.threadId = row.threadId → other.userId = userId := by
    intro row hrow hu other hother he
    rw [h.thread_eq hother hrow he]
    exact hu
  cases hn : conversationId.map (owned s userId) with
  | some found =>
    cases found with
    | none => exact absurd hn hnamed
    | some row =>
      obtain ⟨id, -, ho⟩ := Option.map_eq_some_iff.mp hn
      obtain ⟨hmem, -, hu⟩ := owned_spec ho
      refine ⟨?_, ?_⟩
      · intro id hid
        cases hid
        exact ⟨row, hmem, rfl, hu⟩
      · cases threadId with
        | none => exact hsame row hmem hu
        | some t =>
          -- the thread that was asked for is that of the conversation
          rw [hn] at hmatch
          have ht : t = row.threadId := by simpa using hmatch
          intro other hother he
          exact hsame row hmem hu other hother (he.trans ht)
  | none =>
    cases threadId with
    | none =>
      refine ⟨fun id hid => absurd hid (by simp), ?_⟩
      intro row hrow he
      exact absurd he (hthread row hrow)
    | some t =>
      cases hf : s.conversations.find? fun row => row.threadId == t with
      | none =>
        refine ⟨?_, ?_⟩
        · intro id hid
          simp [hf] at hid
        · intro row hrow he
          have := List.find?_eq_none.mp hf row hrow
          exact absurd he (by simpa using this)
      | some row =>
        have hmem : row ∈ s.conversations := List.mem_of_find?_eq_some hf
        have ht : row.threadId = t := by simpa using List.find?_some hf
        have hu : row.userId = userId := by simpa [hf] using hforeign
        refine ⟨?_, ?_⟩
        · intro id hid
          rw [Option.bind_some, hf] at hid
          cases hid
          exact ⟨row, hmem, rfl, hu⟩
        · intro other hother he
          exact hsame row hmem hu other hother (he.trans ht.symm)

/-- The conversation and the thread of a run are the caller's. -/
theorem chatAttached_streamChat (h : s.Valid)
    (hthread : ∀ row ∈ s.conversations, row.threadId ≠ c.draws.threadId)
    (model conversationId threadId : Option String) :
    ChatAttached c.user.id s (streamChat p s c model conversationId threadId) := by
  unfold streamChat
  split
  · trivial
  · simp only
    split
    · trivial
    · split
      · trivial
      · rename_i hnamed hforeign
        split
        · trivial
        · rename_i hmatch
          split
          · trivial
          · exact chatAttached_of_checks h hthread hnamed hforeign hmatch

/-- The head of a chat shows nothing but the ids it has checked or made. -/
theorem fine_streamChat (h : s.Valid)
    (hthread : ∀ row ∈ s.conversations, row.threadId ≠ c.draws.threadId)
    (model conversationId threadId : Option String) :
    Fine p c seen losses s (s, streamChat p s c model conversationId threadId) := by
  refine .of_same h ?_ (chatAttached_streamChat h hthread _ _ _)
  intro _ e he
  have hnone : (streamChat p s c model conversationId threadId).exposed = [] := by
    unfold streamChat
    split
    · rfl
    · simp only
      split
      · rfl
      · split
        · rfl
        · split
          · rfl
          · split
            · rfl
            · rfl
  rw [hnone] at he
  exact absurd he (by simp)

end Rest

end HyChat
