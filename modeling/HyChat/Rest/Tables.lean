import HyChat.Rag.SearchCache

/-!
# The users' rows

The tables the REST endpoints of conversations, files, documents and traces work on, the store of
the uploaded objects and the search cache. Deleting a conversation or a file leaves the rows that
refer to it, with the reference set to NULL; deleting a document deletes its chunks.

An object key names one object. The keys `StorageService.object_key` makes have no dot segments, so
that this is so in the local backend as it is in S3.
-/

set_option autoImplicit false

namespace HyChat

open Lib

namespace Rest

variable {V : Type}

/-! ## Rows -/

structure Conversation where
  id : String
  userId : String
  threadId : String
  title : String
  selectedModel : Option String
  isArchived : Bool
  createdAt : Nat
  updatedAt : Nat
  deriving DecidableEq

structure StoredFile where
  id : String
  userId : String
  conversationId : Option String
  filename : String
  contentType : Option String
  sizeBytes : Nat
  storageBackend : String
  objectKey : String
  sha256 : String
  createdAt : Nat
  deriving DecidableEq

structure TraceSpan where
  id : String
  userId : String
  conversationId : Option String
  threadId : Option String
  runId : String
  parentRunId : Option String
  name : String
  spanType : String
  status : String
  modelName : Option String
  toolName : Option String
  input : Json
  output : Json
  promptTokens : Nat
  completionTokens : Nat
  totalTokens : Nat
  latencyMs : Option Nat
  errorMessage : Option String
  startedAt : Nat
  endedAt : Option Nat
  deriving DecidableEq

inductive UserRole
  | admin
  | user
  deriving DecidableEq

/-- The caller, with the `allowed_models` of the policy. -/
structure User where
  id : String
  role : UserRole
  allowedModels : List String

abbrev Content : Type := List UInt8

structure Server (V : Type) where
  conversations : List Conversation
  files : List StoredFile
  traces : List TraceSpan
  knowledge : Rag.Database V
  objects : String → Option Content
  cache : String → Cache.Redis

/-! ## Settings and libraries -/

inductive Backend
  | local
  | s3
  deriving DecidableEq

/-- The settings the endpoints read, and what they leave to a library or to the vector index. -/
structure Platform (V : Type) where
  availableChatModels : List String
  zhipuChatModel : String
  maxUploadBytes : Nat
  backend : Backend
  s3PublicBaseUrl : String
  s3PresignExpirySeconds : Nat
  ragUploadDir : String
  cacheEnabled : Bool
  isoformat : Nat → String
  /-- `str.lower` -/
  lower : String → String
  /-- `mimetypes.guess_type(filename)[0]` -/
  guessType : String → Option String
  sha256 : Content → String
  /-- `generate_presigned_url` -/
  presignedUrl : String → String
  /-- `json.loads`, or the text of its error -/
  loads : String → Except String Json
  parseTraceError : Option String → Json
  index : Rag.VectorIndex V
  /-- `created_at` and `updated_at` of a document -/
  documentTimes : Rag.KnowledgeDocument → Nat × Nat

/-! ## Paths -/

/-- `Path(text).name` -/
def pathName (text : String) : String :=
  ((text.splitOn "/").filter fun part => part != "" && part != ".").getLastD ""

/-- `Path(text).suffix` -/
def pathSuffix (text : String) : String :=
  let name := (pathName text).toList
  let after := name.reverse.takeWhile (· != '.')
  -- the last dot is neither the first nor the last character of the name
  if after.length + 1 < name.length ∧ 0 < after.length then String.ofList ('.' :: after.reverse) else ""

/-! ## References -/

/-- `ON DELETE SET NULL` -/
def unlinked (gone : List String) (reference : Option String) : Option String :=
  reference.filter fun id => !gone.contains id

def StoredFile.unlink (gone : List String) (f : StoredFile) : StoredFile :=
  { f with conversationId := unlinked gone f.conversationId }

def TraceSpan.unlink (gone : List String) (t : TraceSpan) : TraceSpan :=
  { t with conversationId := unlinked gone t.conversationId }

/-- What deleting files does to a document. -/
def unlinkFile (gone : List String) (d : Rag.KnowledgeDocument) : Rag.KnowledgeDocument :=
  { d with storedFileId := unlinked gone d.storedFileId }

/-! ## Statements -/

namespace Server

variable (s : Server V)

def conversation (id : String) : Option Conversation := s.conversations.find? fun c => c.id == id

def file (id : String) : Option StoredFile := s.files.find? fun f => f.id == id

def trace (id : String) : Option TraceSpan := s.traces.find? fun t => t.id == id

def document (id : String) : Option Rag.KnowledgeDocument :=
  s.knowledge.documents.find? fun d => d.id == id

def insertConversation (row : Conversation) : Server V :=
  { s with conversations := s.conversations ++ [row] }

def updateConversation (row : Conversation) : Server V :=
  { s with conversations := s.conversations.map fun c => if c.id = row.id then row else c }

def deleteConversation (id : String) : Server V :=
  { s with
    conversations := s.conversations.filter fun c => c.id != id
    files := s.files.map (StoredFile.unlink [id])
    traces := s.traces.map (TraceSpan.unlink [id]) }

def insertFile (row : StoredFile) : Server V := { s with files := s.files ++ [row] }

def deleteFile (id : String) : Server V :=
  { s with
    files := s.files.filter fun f => f.id != id
    knowledge :=
      { s.knowledge with documents := s.knowledge.documents.map (unlinkFile [id]) } }

def putObject (key : String) (content : Content) : Server V :=
  { s with objects := Function.update s.objects key (some content) }

def deleteObject (key : String) : Server V :=
  { s with objects := Function.update s.objects key none }

/-- The primary keys, and the unique columns `thread_id` and `object_key`. -/
structure Valid : Prop where
  conversations : (s.conversations.map Conversation.id).Nodup
  threads : (s.conversations.map Conversation.threadId).Nodup
  files : (s.files.map StoredFile.id).Nodup
  objectKeys : (s.files.map StoredFile.objectKey).Nodup
  documents : (s.knowledge.documents.map Rag.KnowledgeDocument.id).Nodup

end Server

/-! ## What is shown of a row -/

def text (x : Option String) : Json := x.elim .null .str

variable (p : Platform V)

def serializeConversation (row : Conversation) : Json :=
  .obj [("id", .str row.id), ("thread_id", .str row.threadId), ("title", .str row.title),
    ("selected_model", text row.selectedModel), ("is_archived", .bool row.isArchived),
    ("created_at", .str (p.isoformat row.createdAt)), ("updated_at", .str (p.isoformat row.updatedAt))]

def serializeFile (row : StoredFile) : Json :=
  .obj [("id", .str row.id), ("filename", .str row.filename), ("content_type", text row.contentType),
    ("size_bytes", .int row.sizeBytes), ("storage_backend", .str row.storageBackend),
    ("conversation_id", text row.conversationId), ("created_at", .str (p.isoformat row.createdAt)),
    ("download_url", .str s!"/files/{row.id}/content")]

def statusText : Rag.Status → String
  | .processing => "processing"
  | .ready => "ready"
  | .failed => "failed"

def serializeDocument (row : Rag.KnowledgeDocument) : Json :=
  .obj [("id", .str row.id), ("filename", .str row.filename), ("content_type", text row.contentType),
    ("status", .str (statusText row.status)), ("chunk_count", .int row.chunkCount),
    ("metadata", .obj row.metadata), ("error_message", text row.errorMessage),
    ("created_at", .str (p.isoformat (p.documentTimes row).1)),
    ("updated_at", .str (p.isoformat (p.documentTimes row).2))]

def serializeSpan (includePayload : Bool) (span : TraceSpan) : Json :=
  .obj ([("id", .str span.id), ("user_id", .str span.userId),
    ("conversation_id", text span.conversationId), ("thread_id", text span.threadId),
    ("run_id", .str span.runId), ("parent_run_id", text span.parentRunId), ("name", .str span.name),
    ("span_type", .str span.spanType), ("status", .str span.status),
    ("model_name", text span.modelName), ("tool_name", text span.toolName),
    ("prompt_tokens", .int span.promptTokens), ("completion_tokens", .int span.completionTokens),
    ("total_tokens", .int span.totalTokens),
    ("latency_ms", span.latencyMs.elim .null fun ms => .int ms),
    ("error_message", text span.errorMessage), ("error", p.parseTraceError span.errorMessage),
    ("started_at", .str (p.isoformat span.startedAt)),
    ("ended_at", span.endedAt.elim .null fun t => .str (p.isoformat t))] ++
    if includePayload then [("input", span.input), ("output", span.output)] else [])

end Rest

end HyChat
