import HyChat.Rag.Ingest
import HyChat.Cache.Service

/-!
# Searching, ingesting and deleting over one cache

The calls one user's requests make on `RagService`, interleaved commit by commit and command by
command. A search goes through `get_or_set_json` under a key of its own; a deletion commits first
and deletes the keys of all searches afterwards; so does an ingestion when its document is ready.

`SCAN` answers every key that is there throughout the iteration. A Redis error ends
`delete_pattern`, which swallows it.

What is interleaved. A search is a call of `get_or_set_json`, whose steps are those of the cache
facade, with the query on the database as its producer. A deletion commits and then deletes the
keys that a `SCAN` has found, and an ingestion does the same after its document is ready. Every
command and every commit is a step, so that a search can be anywhere while a deletion goes on; that
is the whole subject.

The index is a parameter: which chunks are near a query, in which order and with which scores, may
be anything. What is modelled of the query is the part that matters for deletions, the join of the
chunks with the user's ready documents.
-/

set_option autoImplicit false

namespace HyChat

open Lib

namespace Rag

variable {V : Type}

/-! ## The database query -/

/-- What the vector index and the embedding of a query decide: the order of the chunks, their
    scores, and the ids the database gave the rows. -/
structure VectorIndex (V : Type) where
  distance : String → KnowledgeChunk V → Nat
  score : String → KnowledgeChunk V → Json
  rowId : KnowledgeChunk V → Nat

structure SearchArgs where
  query : String
  topK : Option Nat
  documentIds : List String

def defaultTopK : Nat := 4

def SearchArgs.limit (args : SearchArgs) : Nat :=
  max 1 (min (match args.topK with
    | some (k + 1) => k + 1
    | _ => defaultTopK) 20)

def SearchArgs.cacheKey (args : SearchArgs) (userId : String) : String :=
  let digest := Cache.digest [.str userId, .str args.query, .int args.limit,
    .arr (args.documentIds.map .str)]
  s!"rag:query:{digest}"

/-- The chunks of the user's ready documents, joined with them. -/
def readyRows (db : Database V) (userId : String) (documentIds : List String) :
    List (KnowledgeChunk V × KnowledgeDocument) :=
  db.chunks.filterMap fun chunk =>
    (db.documents.find? fun d => d.id == chunk.documentId).bind fun d =>
      if d.status = .ready ∧ d.userId = some userId ∧
          (documentIds = [] ∨ chunk.documentId ∈ documentIds) then some (chunk, d)
      else none

def resultRow (index : VectorIndex V) (query : String) (row : KnowledgeChunk V × KnowledgeDocument) :
    Json :=
  .obj [("chunk_id", .int (index.rowId row.1)), ("document_id", .str row.2.id),
    ("filename", .str row.2.filename), ("content", .str row.1.content),
    ("metadata", .obj row.1.metadata), ("score", index.score query row.1)]

/-- `run_search`, once the query is embedded. -/
def runSearch (index : VectorIndex V) (db : Database V) (userId : String) (args : SearchArgs) : Json :=
  let rows := (readyRows db userId args.documentIds).insertionSort fun a b =>
    index.distance args.query a.1 ≤ index.distance args.query b.1
  .arr ((rows.take args.limit).map (resultRow index args.query))

/-- The row is a chunk of the document. -/
def isChunkOf (documentId : String) : Json → Bool
  | .obj kvs => kvs.lookup "document_id" == some (.str documentId)
  | _ => false

/-- The result has a chunk of the document. -/
def mentions (documentId : String) : Json → Bool
  | .arr rows => rows.any (isChunkOf documentId)
  | _ => false

/-! ## Calls under way -/

/-- A search, with the documents whose deletion had returned before it started. -/
structure Search where
  args : SearchArgs
  token : String
  caller : Cache.Caller
  goneBefore : List String

/-- `should_cache_negative=lambda value: value == []` -/
def Search.call (s : Search) : Cache.Call := ⟨s.token, fun value => value == .arr [], fun _ => true⟩

/-- `delete_pattern`: before the scan, or with the keys it has still to delete. -/
inductive PatternPhase
  | scan
  | keys (remaining : List String)

inductive DeletionPhase
  | load
  | commit
  | unlink
  | invalidate (pattern : PatternPhase)
  | done

structure Deletion where
  documentId : String
  phase : DeletionPhase

inductive IngestPhase
  | lookup
  | removeFailed (documentId : String)
  | create
  | process
  | invalidate (pattern : PatternPhase)
  | done

structure Ingestion (V : Type) where
  env : Environment V
  upload : Upload
  phase : IngestPhase

structure RagState (V : Type) where
  db : Database V
  /-- The entry and the lock of every search key -/
  redis : String → Cache.Redis
  /-- The keys that have been written -/
  keys : List String
  searches : List Search
  deletions : List Deletion
  ingestions : List (Ingestion V)
  /-- The documents `delete_document` has deleted -/
  deleted : List String
  /-- Those for which it has returned True -/
  returned : List String

inductive SearchChoice
  | command (d : Cache.Delivery)
  | clock (expired : Bool)
  /-- `run_search` runs, or the embedding of the query raises. -/
  | run (embeds : Bool)

inductive RagAction (V : Type)
  | search (args : SearchArgs) (token : String)
  | searchStep (i : Nat) (choice : SearchChoice)
  | delete (documentId : String)
  /-- The next step of a deletion; the delivery is that of a Redis command, the flag says whether
      the file can be removed. -/
  | deleteStep (i : Nat) (d : Cache.Delivery) (unlinked : Bool)
  | ingest (env : Environment V) (upload : Upload)
  /-- The next step of an ingestion; the flag says whether the database takes its flush. -/
  | ingestStep (i : Nat) (d : Cache.Delivery) (accepted : Bool)
  | expireEntry (key : String)
  | expireLock (key : String)

namespace RagState

def start (db : Database V) : RagState V := ⟨db, fun _ => ⟨none, none⟩, [], [], [], [], [], []⟩

/-- The keys a scan answers. -/
def presentKeys (s : RagState V) : List String :=
  s.keys.filter fun key => (s.redis key).entry.isSome

def removeEntry (s : RagState V) (key : String) : RagState V :=
  { s with redis := Function.update s.redis key { s.redis key with entry := none } }

/-- One command of `delete_pattern`; `none` when it has returned. -/
def patternStep (s : RagState V) (p : PatternPhase) (d : Cache.Delivery) :
    RagState V × Option PatternPhase :=
  match p, d with
  | .scan, .answered => (s, some (.keys s.presentKeys))
  | .scan, _ => (s, none)
  | .keys [], _ => (s, none)
  | .keys (key :: rest), .answered => (s.removeEntry key, some (.keys rest))
  | .keys _, .lost => (s, none)
  | .keys (key :: _), .unanswered => (s.removeEntry key, none)

/-- What a search's step depends on, with the result of its query on the database as it is. -/
def searchChoice (index : VectorIndex V) (userId : String) (s : RagState V) (args : SearchArgs) :
    SearchChoice → Cache.Choice
  | .command d => .command d
  | .clock expired => .clock expired
  | .run true => .producer (.ok (runSearch index s.db userId args))
  | .run false => .producer (.error "embedding failed")

def searchStep (index : VectorIndex V) (userId : String) (s : RagState V) (i : Nat)
    (choice : SearchChoice) : Option (RagState V) :=
  s.searches[i]?.bind fun search =>
    let key := search.args.cacheKey userId
    (search.caller.advance true search.call (s.redis key)
      (s.searchChoice index userId search.args choice)).map fun next =>
        { s with
          searches := s.searches.set i { search with caller := next.1 }
          redis := Function.update s.redis key next.2
          keys := if next.2.entry.isSome then key :: s.keys else s.keys }

def deleteStep (userId : String) (s : RagState V) (i : Nat) (d : Cache.Delivery) (unlinked : Bool) :
    Option (RagState V) :=
  s.deletions[i]?.bind fun deletion =>
    let goto (s : RagState V) (phase : DeletionPhase) : RagState V :=
      { s with deletions := s.deletions.set i { deletion with phase := phase } }
    match deletion.phase with
    | .load =>
        match s.db.documents.find? fun doc => doc.id == deletion.documentId with
        | some doc => some (goto s (if doc.userId = some userId then .commit else .done))
        | none => some (goto s .done)
    | .commit =>
        some (goto { s with
          db := s.db.delete deletion.documentId
          deleted := deletion.documentId :: s.deleted } .unlink)
    | .unlink => some (goto s (if unlinked then .invalidate .scan else .done))
    | .invalidate pattern =>
        match s.patternStep pattern d with
        | (s', some next) => some (goto s' (.invalidate next))
        | (s', none) =>
            some (goto { s' with returned := deletion.documentId :: s'.returned } .done)
    | .done => none

/-- The document the ingestion has created is still there. -/
def hasDocument (s : RagState V) (id : String) : Bool := s.db.documents.any fun d => d.id == id

def ingestStep (s : RagState V) (i : Nat) (d : Cache.Delivery) (accepted : Bool) :
    Option (RagState V) :=
  s.ingestions[i]?.bind fun ingestion =>
    let goto (s : RagState V) (phase : IngestPhase) : RagState V :=
      { s with ingestions := s.ingestions.set i { ingestion with phase := phase } }
    let newId := ingestion.env.newId
    match ingestion.phase with
    | .lookup =>
        match s.db.findBySha ingestion.upload with
        | none => some (goto s .create)
        | some existing =>
            some (goto s (if existing.status = .failed then .removeFailed existing.id else .done))
    | .removeFailed id =>
        if accepted then some (goto { s with db := s.db.delete id } .create) else some (goto s .done)
    | .create =>
        -- the id is a new one
        if s.hasDocument newId ∨ newId ∈ s.deleted then none
        else if accepted then
          some (goto { s with db := s.db.insert (newDocument ingestion.env ingestion.upload) } .process)
        else some (goto s .done)
    | .process =>
        -- a flush for a document that is gone violates its foreign key or matches no row
        if accepted && s.hasDocument newId then
          match prepare ingestion.env ingestion.upload with
          | (rows, .ok count) =>
              some (goto { s with db := (s.db.markReady newId count).addChunks rows }
                (.invalidate .scan))
          | (rows, .error e) =>
              some (goto { s with db := (s.db.markFailed newId e).addChunks rows } .done)
        else some (goto s .done)
    | .invalidate pattern =>
        match s.patternStep pattern d with
        | (s', some next) => some (goto s' (.invalidate next))
        | (s', none) => some (goto s' .done)
    | .done => none

end RagState

/-- The calls of one user. -/
def ragService (index : VectorIndex V) (userId : String) : Lts (RagState V) (RagAction V) where
  step s
    | .search args token =>
        some { s with searches := s.searches ++ [⟨args, token, .start, s.returned⟩] }
    | .searchStep i choice => s.searchStep index userId i choice
    | .delete documentId => some { s with deletions := s.deletions ++ [⟨documentId, .load⟩] }
    | .deleteStep i d unlinked => s.deleteStep userId i d unlinked
    | .ingest env upload => some { s with ingestions := s.ingestions ++ [⟨env, upload, .lookup⟩] }
    | .ingestStep i d accepted => s.ingestStep i d accepted
    | .expireEntry key => some (s.removeEntry key)
    | .expireLock key =>
        some { s with redis := Function.update s.redis key { s.redis key with lock := none } }

/-- `lookup.value or []` -/
def searchResult (lookup : Cache.Lookup) : Json :=
  match lookup.value with
  | .arr rows => .arr rows
  | _ => .arr []

end Rag

end HyChat
