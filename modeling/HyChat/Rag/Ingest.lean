import HyChat.Tracing.SafeJson

/-!
# Ingesting a file

`RagService.ingest_file` on one session. The document is committed as `processing` before the file
is read; one more commit, at the end of the `try` block or in its handler, settles it. A flush the
database rejects leaves the session refusing all further work until somebody rolls it back, and
discards what was pending.

What the loader, the splitter, the embedding service and the database make of the file is an
`Environment`. An embedding is a value of some type; the database rejects what it cannot store.
-/

set_option autoImplicit false

namespace HyChat

open Lib

namespace Rag

abbrev JsonObject : Type := List (String × Json)

structure LoadedSection where
  text : String
  metadata : JsonObject
  deriving DecidableEq

structure KnowledgeChunk (V : Type) where
  documentId : String
  chunkIndex : Nat
  content : String
  metadata : JsonObject
  embedding : V
  deriving DecidableEq

inductive Status
  | processing
  | ready
  | failed
  deriving DecidableEq

structure KnowledgeDocument where
  id : String
  userId : Option String
  storedFileId : Option String
  filename : String
  contentType : Option String
  filePath : String
  sha256 : String
  status : Status
  chunkCount : Nat
  metadata : JsonObject
  errorMessage : Option String
  deriving DecidableEq

/-- The two tables. -/
structure Database (V : Type) where
  documents : List KnowledgeDocument
  chunks : List (KnowledgeChunk V)

/-- A session: what is committed, the chunks that have been added and not flushed, and whether a
    failed flush waits for its rollback. -/
structure Session (V : Type) where
  db : Database V
  added : List (KnowledgeChunk V)
  needsRollback : Bool

/-- The arguments of the call, and what is read off the file. -/
structure Upload where
  userId : Option String
  filename : String
  contentType : Option String
  filePath : String
  sha256 : String
  metadata : JsonObject
  storedFileId : Option String

structure Environment (V : Type) where
  loadDocument : Except String (List LoadedSection)
  splitText : String → Except String (List String)
  /-- The cached embedding of a text -/
  cached : String → Option V
  /-- What the remote model or the hashing returns for the texts without one -/
  generate : List String → Except String (List V)
  /-- The id of the document the call creates -/
  newId : String
  /-- Whether the database takes the state that a flush would leave -/
  accepts : Database V → Bool

variable {V : Type}

/-! ## The file -/

/-- `{**(metadata or {}), **section.metadata, "source": filename}` -/
def chunkMetadata (upload : Upload) (section_ : LoadedSection) : JsonObject :=
  setItem "source" (.str upload.filename)
    (section_.metadata.foldl (fun acc kv => setItem kv.1 kv.2 acc) upload.metadata)

def sectionChunks (env : Environment V) (upload : Upload) (section_ : LoadedSection) :
    Except String (List (String × JsonObject)) :=
  (env.splitText section_.text).map fun texts =>
    (texts.filter fun text => !text.toList.all Py.isSpace).map fun text =>
      (text, chunkMetadata upload section_)

def allChunks (env : Environment V) (upload : Upload) :
    List LoadedSection → Except String (List (String × JsonObject))
  | [] => .ok []
  | section_ :: rest =>
      match sectionChunks env upload section_ with
      | .error e => .error e
      | .ok chunks =>
          match allChunks env upload rest with
          | .error e => .error e
          | .ok more => .ok (chunks ++ more)

/-- The texts without a cached embedding. -/
def missingTexts (env : Environment V) (texts : List String) : List String :=
  texts.filter fun text => (env.cached text).isNone

/-- The vectors at the places of their texts: a cached one, or the next of those generated. -/
def placeVectors (env : Environment V) : List String → List V → List V
  | [], _ => []
  | text :: rest, generated =>
      match env.cached text, generated with
      | some v, _ => v :: placeVectors env rest generated
      | none, v :: more => v :: placeVectors env rest more
      | none, [] => []

/-- `EmbeddingService.embed_documents` -/
def embedDocuments (env : Environment V) (texts : List String) : Except String (List V) :=
  if missingTexts env texts = [] then .ok (placeVectors env texts [])
  else
    match env.generate (missingTexts env texts) with
    | .error e => .error e
    | .ok generated =>
        if generated.length = (missingTexts env texts).length then
          .ok (placeVectors env texts generated)
        else .error "zip() arguments have different lengths"

/-! ## The tables -/

namespace Database

/-- The document of the user with this content. -/
def findBySha (db : Database V) (upload : Upload) : Option KnowledgeDocument :=
  db.documents.find? fun d => d.sha256 == upload.sha256 && d.userId == upload.userId

/-- Deleting a document deletes its chunks. -/
def delete (db : Database V) (id : String) : Database V :=
  ⟨db.documents.filter fun d => d.id != id, db.chunks.filter fun c => c.documentId != id⟩

def insert (db : Database V) (d : KnowledgeDocument) : Database V :=
  { db with documents := db.documents ++ [d] }

/-- The UPDATE of one document. -/
def set (db : Database V) (id : String) (change : KnowledgeDocument → KnowledgeDocument) :
    Database V :=
  { db with documents := db.documents.map fun d => if d.id = id then change d else d }

def markReady (db : Database V) (id : String) (count : Nat) : Database V :=
  db.set id fun d => { d with status := .ready, chunkCount := count }

def markFailed (db : Database V) (id error : String) : Database V :=
  db.set id fun d => { d with status := .failed, errorMessage := some error }

/-- The rows of a flush that adds chunks. -/
def addChunks (db : Database V) (rows : List (KnowledgeChunk V)) : Database V :=
  { db with chunks := db.chunks ++ rows }

def chunksOf (db : Database V) (id : String) : List (KnowledgeChunk V) :=
  db.chunks.filter fun c => c.documentId == id

end Database

/-! ## The session -/

namespace Session

/-- `commit()` of a session whose flush would leave `db`. -/
def commit (env : Environment V) (s : Session V) (db : Database V) : Except String Unit × Session V :=
  if s.needsRollback then
    (.error "This Session's transaction has been rolled back due to a previous exception", s)
  else
    if env.accepts (db.addChunks s.added) then (.ok (), ⟨db.addChunks s.added, [], false⟩)
    else (.error "the database rejected the flush", ⟨s.db, [], true⟩)

end Session

/-! ## The call -/

def newDocument (env : Environment V) (upload : Upload) : KnowledgeDocument :=
  ⟨env.newId, upload.userId, upload.storedFileId, upload.filename, upload.contentType,
    upload.filePath, upload.sha256, .processing, 0, upload.metadata, none⟩

/-- The rows `zip(chunks, vectors, strict=True)` yields, and whether it ended evenly. -/
def zipStrict (id : String) :
    Nat → List (String × JsonObject) → List V → List (KnowledgeChunk V) × Bool
  | _, [], [] => ([], true)
  | i, (text, metadata) :: chunks, v :: vectors =>
      let rest := zipStrict id (i + 1) chunks vectors
      (⟨id, i, text, metadata, v⟩ :: rest.1, rest.2)
  | _, _, _ => ([], false)

/-- The body of the `try` block up to its commit: what has been added to the session, and the
    number of chunks or the exception. -/
def prepare (env : Environment V) (upload : Upload) : List (KnowledgeChunk V) × Except String Nat :=
  match env.loadDocument with
  | .error e => ([], .error e)
  | .ok sections =>
      match allChunks env upload sections with
      | .error e => ([], .error e)
      | .ok chunks =>
          match embedDocuments env (chunks.map (·.1)) with
          | .error e => ([], .error e)
          | .ok vectors =>
              let rows := zipStrict env.newId 0 chunks vectors
              if rows.2 then (rows.1, .ok chunks.length)
              else (rows.1, .error "zip() arguments have different lengths")

/-- The handler: the document is marked failed and committed, and the exception goes on. -/
def recordFailure (env : Environment V) (error : String) (s : Session V) :
    Except String KnowledgeDocument × Session V :=
  match s.commit env (s.db.markFailed env.newId error) with
  | (.ok (), s') => (.error error, s')
  | (.error e, s') => (.error e, s')

/-- The `try` statement. -/
def process (env : Environment V) (upload : Upload) (s : Session V) :
    Except String KnowledgeDocument × Session V :=
  let prepared := prepare env upload
  let s := { s with added := s.added ++ prepared.1 }
  match prepared.2 with
  | .error e => recordFailure env e s
  | .ok count =>
      match s.commit env (s.db.markReady env.newId count) with
      | (.error e, s') => recordFailure env e s'
      | (.ok (), s') =>
          (.ok { newDocument env upload with status := .ready, chunkCount := count }, s')

/-- The document is created and committed before the file is read. -/
def createAndProcess (env : Environment V) (upload : Upload) (s : Session V) :
    Except String KnowledgeDocument × Session V :=
  match s.commit env (s.db.insert (newDocument env upload)) with
  | (.error e, s') => (.error e, s')
  | (.ok (), s') => process env upload s'

def ingestFile (env : Environment V) (upload : Upload) (s : Session V) :
    Except String KnowledgeDocument × Session V :=
  match s.db.findBySha upload with
  | none => createAndProcess env upload s
  | some existing =>
      if existing.status ≠ .failed then (.ok existing, s)
      else
        match s.commit env (s.db.delete existing.id) with
        | (.error e, s') => (.error e, s')
        | (.ok (), s') => createAndProcess env upload s'

end Rag

end HyChat
