import HyChat.Chat.Stream
import HyChat.Rest.Tables

/-!
# The endpoints

The routers of conversations, files, documents and traces, and the head of the chat router, which
decides the conversation and the thread a run of the graph belongs to. A request is answered by one
function of the server's state, the caller, and what the request meets on its way (`Draws`). A
commit the database rejects ends in the status 500, as does any exception no handler takes.
-/

set_option autoImplicit false

namespace HyChat

open Lib

namespace Rest

variable {V : Type}

/-! ## Requests -/

/-- The fields of a PATCH body: unset, null, or a value. -/
structure ConversationUpdate where
  title : Option (Option String)
  selectedModel : Option (Option String)
  isArchived : Option (Option Bool)

structure UploadFile where
  filename : Option String
  contentType : Option String
  content : Content

inductive Request
  | createConversation (title : String) (selectedModel : Option String)
  | listConversations (archived : Bool)
  | updateConversationByThread (threadId : String) (update : ConversationUpdate)
  | deleteConversationByThread (threadId : String)
  | getConversation (conversationId : String)
  | updateConversation (conversationId : String) (update : ConversationUpdate)
  | deleteConversation (conversationId : String)
  | uploadFile (file : UploadFile) (conversationId : Option String)
  | listFiles
  | downloadFile (fileId : String)
  | getDownloadUrl (fileId : String)
  | deleteFile (fileId : String)
  | supportedFormats
  | uploadDocument (file : UploadFile) (metadata : Option String)
  | listDocuments
  | deleteDocument (documentId : String)
  | searchDocuments (args : Rag.SearchArgs)
  | listTraces (conversationId spanType status : Option String) (allUsers : Bool) (limit offset : Nat)
  | getTrace (traceId : String)
  | streamChat (model conversationId threadId : Option String)

/-- What a request meets: the ids and the instant it draws, and how what it calls fares. -/
structure Draws (V : Type) where
  id : String
  threadId : String
  objectUuid : String
  destinationUuid : String
  now : Nat
  /-- Whether the database takes the commit of the row the request is about -/
  accepts : Bool
  /-- Whether it takes the commit that deletes an uploaded file again -/
  cleansUp : Bool
  /-- Whether the storage deletes the object of a row the database has rejected -/
  compensates : Bool
  ingestion : Rag.Environment V
  /-- Whether the exception of an ingestion is a `ValueError` -/
  isValueError : Bool
  /-- Whether the file of a deleted document can be removed -/
  unlinks : Bool
  /-- The entries `delete_pattern` gets to delete -/
  dropped : String → Bool
  /-- The text of a commit's error -/
  rejection : String
  token : String
  choices : List Rag.SearchChoice
  /-- The error of `authorize_model_access` -/
  denied : Option String

structure Call (V : Type) where
  user : User
  request : Request
  draws : Draws V

inductive Response
  | error (status : Nat) (detail : String)
  | conversation (status : Nat) (item : Json)
  | conversations (items : List Json)
  | file (item : Json)
  | files (items : List Json)
  | redirect (url : String)
  | content (content : Content) (filename : String) (mediaType : Option String)
  | downloadUrl (url : String) (expiresIn : Nat)
  | formats (extensions : List String)
  | document (item : Json)
  | documents (items : List Json)
  | results (query : String) (results : Json)
  | traces (items : List Json)
  | trace (item : Json)
  | deleted (key id : String)
  /-- The graph runs, for this conversation and on this thread. -/
  | chat (conversationId : Option String) (threadId : String)

def internalError : Response := .error 500 "Internal Server Error"

def conversationNotFound : Response := .error 404 "会话不存在"

def fileNotFound : Response := .error 404 "文件不存在"

/-- Truth of an optional string -/
def given (x : Option String) : Option String := x.filter (· != "")

variable (p : Platform V)

/-! ## Models -/

/-- `resolve_model` -/
def resolveModel (modelId : Option String) : Except String String :=
  let selected := (given modelId).getD p.zhipuChatModel
  if p.availableChatModels.contains selected then .ok selected
  else
    let allowed := ", ".intercalate p.availableChatModels
    .error s!"不支持模型 {selected}。可用模型：{allowed}"

def legacyModelIds : List String := ["glm-5", "glm-4.6", "glm-4.5", "glm-4-plus", "glm-4-flash"]

/-- `normalize_model_allowlist` -/
def normalizeModelAllowlist (modelIds : List String) : List String :=
  let requested := ((modelIds.map fun m => String.ofList (Py.strip m.toList)).filter
    (· != "")).eraseDups
  if requested.any legacyModelIds.contains then p.availableChatModels
  else requested.filter p.availableChatModels.contains

/-- `resolve_model` and the check against the caller's allowlist. -/
def permittedModel (user : User) (modelId : Option String) : Except Response String :=
  match resolveModel p modelId with
  | .error e => .error (.error 400 e)
  | .ok selected =>
      if (normalizeModelAllowlist p user.allowedModels).contains selected then .ok selected
      else .error (.error 403 (Chat.appendAdminContact "当前账号无权使用该模型。"))

/-! ## Conversations -/

/-- `_owned` -/
def owned (s : Server V) (userId conversationId : String) : Option Conversation :=
  (s.conversation conversationId).filter fun row => row.userId == userId

/-- `_owned_by_thread` -/
def ownedByThread (s : Server V) (userId threadId : String) : Option Conversation :=
  s.conversations.find? fun row => row.threadId == threadId && row.userId == userId

/-- `_apply_update`; no row when a column that is NOT NULL would be. -/
def applyUpdate (now : Nat) (row : Conversation) (request : ConversationUpdate) (user : User) :
    Except Response (Option Conversation) :=
  let selected : Except Response (Option (Option String)) :=
    match request.selectedModel with
    | some (some model) =>
        if model = "" then .ok (some (some model))
        else (permittedModel p user (some model)).map fun m => some (some m)
    | unchecked => .ok unchecked
  match selected with
  | .error r => .error r
  | .ok selectedModel =>
      if request.title = some none ∨ request.isArchived = some none then .ok none
      else .ok (some { row with
        title := request.title.join.getD row.title
        selectedModel := selectedModel.getD row.selectedModel
        isArchived := request.isArchived.join.getD row.isArchived
        updatedAt := now })

/-- The bounds pydantic puts on a title. -/
def titleFits (title : String) : Bool := 1 ≤ title.length && title.length ≤ 240

def createConversation (s : Server V) (c : Call V) (title : String) (selectedModel : Option String) :
    Server V × Response :=
  if titleFits title then
    match permittedModel p c.user selectedModel with
    | .error r => (s, r)
    | .ok selected =>
        let row : Conversation := ⟨c.draws.id, c.user.id, c.draws.threadId, title, some selected, false,
          c.draws.now, c.draws.now⟩
        if c.draws.accepts then (s.insertConversation row, .conversation 201 (serializeConversation p row))
        else (s, internalError)
  else (s, .error 422 "title")

def listConversations (s : Server V) (c : Call V) (archived : Bool) : Server V × Response :=
  let rows := (s.conversations.filter fun row =>
    row.userId == c.user.id && row.isArchived == archived).insertionSort
      fun a b => b.updatedAt ≤ a.updatedAt
  (s, .conversations (rows.map (serializeConversation p)))

/-- The two PATCH endpoints, once the row is looked up. -/
def patchConversation (s : Server V) (c : Call V) (row : Option Conversation)
    (request : ConversationUpdate) : Server V × Response :=
  if request.title.join.all titleFits then
    match row with
    | none => (s, conversationNotFound)
    | some row =>
        match applyUpdate p c.draws.now row request c.user with
        | .error r => (s, r)
        | .ok none => (s, internalError)
        | .ok (some updated) =>
            if c.draws.accepts then
              (s.updateConversation updated, .conversation 200 (serializeConversation p updated))
            else (s, internalError)
  else (s, .error 422 "title")

/-- The two DELETE endpoints, once the row is looked up. -/
def dropConversation (s : Server V) (c : Call V) (row : Option Conversation) (key id : String) :
    Server V × Response :=
  match row with
  | none => (s, conversationNotFound)
  | some row =>
      if c.draws.accepts then (s.deleteConversation row.id, .deleted key id) else (s, internalError)

def getConversation (s : Server V) (c : Call V) (conversationId : String) : Server V × Response :=
  match owned s c.user.id conversationId with
  | none => (s, conversationNotFound)
  | some row => (s, .conversation 200 (serializeConversation p row))

/-! ## Files -/

/-- `StorageService.object_key` -/
def objectKey (objectUuid userId filename : String) : String :=
  let suffix := String.ofList ((p.lower (pathSuffix filename)).toList.take 20)
  s!"users/{userId}/{objectUuid}{suffix}"

/-- `StorageService.download_url` -/
def storageUrl (key : String) : Option String :=
  match p.backend with
  | .local => none
  | .s3 =>
      if p.s3PublicBaseUrl = "" then some (p.presignedUrl key)
      else
        let base := String.ofList (p.s3PublicBaseUrl.toList.reverse.dropWhile (· == '/')).reverse
        some s!"{base}/{key}"

def storageBackend : String :=
  match p.backend with
  | .local => "local"
  | .s3 => "s3"

/-- `Path(file.filename or default).name` -/
def UploadFile.name (file : UploadFile) (default_ : String) : String :=
  pathName ((given file.filename).getD default_)

/-- The row `create_from_path` adds. -/
def newFile (c : Call V) (file : UploadFile) (filename : String) (conversationId : Option String) :
    StoredFile :=
  ⟨c.draws.id, c.user.id, conversationId, filename,
    some ((given file.contentType).getD ((p.guessType filename).getD "application/octet-stream")),
    file.content.length, storageBackend p, objectKey p c.draws.objectUuid c.user.id filename,
    p.sha256 file.content, c.draws.now⟩

/-- `FileService.create_from_path`, for a file of a size that is allowed. The row, or nothing when
    the database rejects it and the object is deleted again. -/
def createFromPath (s : Server V) (c : Call V) (file : UploadFile) (row : StoredFile) :
    Server V × Bool :=
  let stored := s.putObject row.objectKey file.content
  if c.draws.accepts then (stored.insertFile row, true)
  else (if c.draws.compensates then stored.deleteObject row.objectKey else stored, false)

/-- `FileService.delete`: the object goes first. -/
def removeFile (s : Server V) (row : StoredFile) (accepts : Bool) : Server V :=
  let removed := s.deleteObject row.objectKey
  if accepts then removed.deleteFile row.id else removed

/-- The detail of `UploadTooLargeError`. -/
def tooLarge : Response :=
  let mebibytes := p.maxUploadBytes / 1048576
  .error 413 s!"文件超过 {mebibytes} 兆字节限制"

/-- A form field that is sent empty is a field that is not sent. -/
def formField (value : Option String) : Option String := given value

def uploadFile (s : Server V) (c : Call V) (file : UploadFile) (conversationId : Option String) :
    Server V × Response :=
  let conversationId := formField conversationId
  if conversationId.all fun id => (owned s c.user.id id).isSome then
    if file.content.length ≤ p.maxUploadBytes then
      let row := newFile p c file (file.name "file") conversationId
      match createFromPath s c file row with
      | (s', true) => (s', .file (serializeFile p row))
      | (s', false) => (s', internalError)
    else (s, tooLarge p)
  else (s, conversationNotFound)

def listFiles (s : Server V) (c : Call V) : Server V × Response :=
  let rows := (s.files.filter fun row => row.userId == c.user.id).insertionSort
    fun a b => b.createdAt ≤ a.createdAt
  (s, .files (rows.map (serializeFile p)))

/-- `_owned_file` -/
def ownedFile (s : Server V) (userId fileId : String) : Option StoredFile :=
  (s.file fileId).filter fun row => row.userId == userId

def downloadFile (s : Server V) (c : Call V) (fileId : String) : Server V × Response :=
  match ownedFile s c.user.id fileId with
  | none => (s, fileNotFound)
  | some row =>
      match storageUrl p row.objectKey with
      | some url => (s, .redirect url)
      | none =>
          match s.objects row.objectKey with
          | none => (s, .error 404 "存储对象不存在")
          | some content => (s, .content content row.filename row.contentType)

def getDownloadUrl (s : Server V) (c : Call V) (fileId : String) : Server V × Response :=
  match ownedFile s c.user.id fileId with
  | none => (s, fileNotFound)
  | some row =>
      (s, .downloadUrl ((storageUrl p row.objectKey).getD s!"/files/{row.id}/content")
        p.s3PresignExpirySeconds)

def deleteFile (s : Server V) (c : Call V) (fileId : String) : Server V × Response :=
  match ownedFile s c.user.id fileId with
  | none => (s, fileNotFound)
  | some row =>
      (removeFile s row c.draws.accepts,
        if c.draws.accepts then .deleted "file_id" fileId else internalError)

/-! ## Documents -/

def supportedExtensions : List String :=
  [".csv", ".docx", ".htm", ".html", ".json", ".md", ".pdf", ".pptx", ".txt", ".xlsx"]

/-- `cache.delete_pattern("rag:query:*")`, as far as its commands are answered. -/
def dropSearches (s : Server V) (dropped : String → Bool) : Server V :=
  { s with cache := fun key => if dropped key then { s.cache key with entry := none } else s.cache key }

/-- The metadata of an upload, which must be an object. -/
def parseMetadata (metadata : Option String) : Except String Rag.JsonObject :=
  match given metadata with
  | none => .ok []
  | some raw =>
      match p.loads raw with
      | .error e => .error e
      | .ok (.obj kvs) => .ok kvs
      | .ok _ => .error "元数据必须是对象"

/-- The arguments of `ingest_file`. -/
def ingestArgs (c : Call V) (file : UploadFile) (row : StoredFile) (metadata : Rag.JsonObject) :
    Rag.Upload :=
  { userId := some c.user.id
    filename := row.filename
    contentType := file.contentType
    filePath := s!"{p.ragUploadDir}/{c.draws.destinationUuid}-{row.filename}"
    sha256 := p.sha256 file.content
    metadata := metadata
    storedFileId := some row.id }

/-- The rest of `upload_document`, when the file has been stored as `row`. -/
def ingestUpload (s : Server V) (c : Call V) (file : UploadFile) (row : StoredFile)
    (metadata : Rag.JsonObject) : Server V × Response :=
  match Rag.ingestFile c.draws.ingestion (ingestArgs p c file row metadata) ⟨s.knowledge, [], false⟩ with
  | (.ok document, session) =>
      let ingested := { s with knowledge := session.db }
      if document.storedFileId = some row.id then
        (dropSearches ingested c.draws.dropped, .document (serializeDocument p document))
      else
        -- the content was there already: its document is answered, and the file is not needed
        (removeFile ingested row c.draws.cleansUp,
          if c.draws.cleansUp then .document (serializeDocument p document)
          else .error 500 c.draws.rejection)
  | (.error e, session) =>
      let failed := { s with knowledge := session.db }
      -- a session that waits for its rollback cannot load the row, and nothing is deleted
      (if session.needsRollback then failed else removeFile failed row c.draws.cleansUp,
        .error (if c.draws.isValueError then 413 else 500) e)

def uploadDocument (s : Server V) (c : Call V) (file : UploadFile) (metadata : Option String) :
    Server V × Response :=
  let filename := file.name "document"
  let extension := p.lower (pathSuffix filename)
  if supportedExtensions.contains extension then
    match parseMetadata p (formField metadata) with
    | .error e => (s, .error 400 e)
    | .ok metadata =>
        if file.content.length ≤ p.maxUploadBytes then
          let row := newFile p c file filename none
          match createFromPath s c file row with
          | (s', true) => ingestUpload p s' c file row metadata
          | (s', false) => (s', .error 500 c.draws.rejection)
        else (s, tooLarge p)
  else (s, .error 415 s!"不支持的文件类型：{extension}")

def listDocuments (s : Server V) (c : Call V) : Server V × Response :=
  let rows := (s.knowledge.documents.filter fun row => row.userId == some c.user.id).insertionSort
    fun a b => (p.documentTimes b).1 ≤ (p.documentTimes a).1
  (s, .documents (rows.map (serializeDocument p)))

def deleteDocument (s : Server V) (c : Call V) (documentId : String) : Server V × Response :=
  match (s.document documentId).filter fun row => row.userId == some c.user.id with
  | none => (s, .error 404 "文档不存在")
  | some row =>
      if c.draws.accepts then
        let deleted := { s with knowledge := s.knowledge.delete row.id }
        if c.draws.unlinks then (dropSearches deleted c.draws.dropped, .deleted "document_id" documentId)
        else (deleted, internalError)
      else (s, internalError)

/-- What the next step of `get_or_set_json` meets. -/
def searchChoice (s : Server V) (userId : String) (args : Rag.SearchArgs) :
    Rag.SearchChoice → Cache.Choice
  | .command d => .command d
  | .clock expired => .clock expired
  | .run true => .producer (.ok (Rag.runSearch p.index s.knowledge userId args))
  | .run false => .producer (.error "embedding failed")

/-- `get_or_set_json` of the search, as far as the choices go. -/
def searchRun (s : Server V) (userId : String) (args : Rag.SearchArgs) (call : Cache.Call) :
    List Rag.SearchChoice → Cache.Caller × Cache.Redis → Option (Cache.Caller × Cache.Redis)
  | [], at_ => some at_
  | choice :: rest, at_ =>
      (at_.1.advance p.cacheEnabled call at_.2 (searchChoice p s userId args choice)).bind
        (searchRun s userId args call rest)

/-- `search_documents`; nothing while the search has not returned. -/
def searchDocuments (s : Server V) (c : Call V) (args : Rag.SearchArgs) :
    Option (Server V × Response) :=
  let key := args.cacheKey c.user.id
  let call := Rag.Search.call ⟨args, c.draws.token, .start, []⟩
  match searchRun p s c.user.id args call c.draws.choices (.start, s.cache key) with
  | none => none
  | some (caller, redis) =>
      let s' := { s with cache := Function.update s.cache key redis }
      match caller.phase with
      | .done (.returned l) => some (s', .results args.query (Rag.searchResult l))
      | .done (.raised _) => some (s', internalError)
      | _ => none

/-! ## Traces -/

def listTraces (s : Server V) (c : Call V) (conversationId spanType status : Option String)
    (allUsers : Bool) (limit offset : Nat) : Server V × Response :=
  let is (wanted : Option String) (x : Option String) : Bool :=
    match given wanted with
    | none => true
    | some w => x == some w
  let rows := (s.traces.filter fun row =>
    ((allUsers && c.user.role == .admin) || row.userId == c.user.id) &&
      is conversationId row.conversationId && is spanType (some row.spanType) &&
      is status (some row.status)).insertionSort fun a b => b.startedAt ≤ a.startedAt
  (s, .traces (((rows.drop offset).take limit).map (serializeSpan p false)))

def getTrace (s : Server V) (c : Call V) (traceId : String) : Server V × Response :=
  match (s.trace traceId).filter fun row => row.userId == c.user.id || c.user.role == .admin with
  | none => (s, .error 404 "运行追踪不存在")
  | some row => (s, .trace (serializeSpan p true row))

/-! ## Chats -/

/-- `stream_chat` up to the run of the graph. -/
def streamChat (s : Server V) (c : Call V) (model conversationId threadId : Option String) : Response :=
  match resolveModel p model with
  | .error e => .error 400 e
  | .ok _ =>
      let named := (given conversationId).map (owned s c.user.id)
      let onThread := (given threadId).bind fun id => s.conversations.find? fun row => row.threadId == id
      if named = some none then conversationNotFound
      else if onThread.any fun row => row.userId != c.user.id then conversationNotFound
      else if named.join.any fun row => (given threadId).any (· != row.threadId) then
        .error 409 "会话与线程不匹配"
      else
        let conversation := named.join <|> onThread
        match c.draws.denied with
        | some e => .error 403 e
        | none =>
            .chat (conversation.map Conversation.id)
              ((given threadId <|> conversation.map Conversation.threadId).getD c.draws.threadId)

/-! ## The server -/

/-- The bounds FastAPI and pydantic enforce on the query of a search and on a list of traces. -/
def Request.fits : Request → Bool
  | .searchDocuments args => args.query != "" && args.topK.all fun k => 1 ≤ k && k ≤ 20
  | .listTraces _ spanType status _ limit _ =>
      (spanType.all fun t => t == "model" || t == "tool") &&
        (status.all fun t => t == "running" || t == "success" || t == "error") &&
        1 ≤ limit && limit ≤ 500
  | _ => true

def handle (s : Server V) (c : Call V) : Option (Server V × Response) :=
  if c.request.fits then
    match c.request with
    | .createConversation title selectedModel => some (createConversation p s c title selectedModel)
    | .listConversations archived => some (listConversations p s c archived)
    | .updateConversationByThread threadId update =>
        some (patchConversation p s c (ownedByThread s c.user.id threadId) update)
    | .deleteConversationByThread threadId =>
        some (dropConversation s c (ownedByThread s c.user.id threadId) "thread_id" threadId)
    | .getConversation conversationId => some (getConversation p s c conversationId)
    | .updateConversation conversationId update =>
        some (patchConversation p s c (owned s c.user.id conversationId) update)
    | .deleteConversation conversationId =>
        some (dropConversation s c (owned s c.user.id conversationId) "conversation_id" conversationId)
    | .uploadFile file conversationId => some (uploadFile p s c file conversationId)
    | .listFiles => some (listFiles p s c)
    | .downloadFile fileId => some (downloadFile p s c fileId)
    | .getDownloadUrl fileId => some (getDownloadUrl p s c fileId)
    | .deleteFile fileId => some (deleteFile s c fileId)
    | .supportedFormats => some (s, .formats supportedExtensions)
    | .uploadDocument file metadata => some (uploadDocument p s c file metadata)
    | .listDocuments => some (listDocuments p s c)
    | .deleteDocument documentId => some (deleteDocument s c documentId)
    | .searchDocuments args => searchDocuments p s c args
    | .listTraces conversationId spanType status allUsers limit offset =>
        some (listTraces p s c conversationId spanType status allUsers limit offset)
    | .getTrace traceId => some (getTrace p s c traceId)
    | .streamChat model conversationId threadId =>
        some (s, streamChat p s c model conversationId threadId)
  else some (s, .error 422 "request")

/-- The key under which a request stores an object. -/
def Call.newKey (c : Call V) : Option String :=
  match c.request with
  | .uploadFile file _ => some (objectKey p c.draws.objectUuid c.user.id (file.name "file"))
  | .uploadDocument file _ => some (objectKey p c.draws.objectUuid c.user.id (file.name "document"))
  | _ => none

/-- `uuid4` draws what is not in use, neither as a key nor in a reference to one. -/
def Call.isFresh (s : Server V) (c : Call V) : Bool :=
  (s.conversations.all fun row => row.id != c.draws.id && row.threadId != c.draws.threadId) &&
    (s.files.all fun row => row.id != c.draws.id && c.newKey p != some row.objectKey) &&
    s.knowledge.documents.all fun row =>
      row.id != c.draws.ingestion.newId && row.storedFileId != some c.draws.id

/-- A request that has been answered. -/
structure Served (V : Type) where
  call : Call V
  response : Response
  before : Server V
  after : Server V

/-- The server, with the states it has been in and the requests it has answered. -/
structure History (V : Type) where
  now : Server V
  seen : List (Server V)
  served : List (Served V)

def History.start (s : Server V) : History V := ⟨s, [s], []⟩

/-- Requests of any users, one after the other. -/
def rest : Lts (History V) (Call V) where
  step h c :=
    if c.isFresh p h.now then
      (handle p h.now c).map fun answer =>
        { now := answer.1
          seen := answer.1 :: h.seen
          served := ⟨c, answer.2, h.now, answer.1⟩ :: h.served }
    else none

end Rest

end HyChat
