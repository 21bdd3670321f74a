import HyChat.Lib.Lts
import HyChat.Rest.Tables

/-!
# Files in two stores

A file is a row of `stored_files` and an object of the storage, without a transaction over both.
`create_from_path` stores the object first and removes it again when the row is not committed;
`delete` removes the object first. `upload_document` creates a file, ingests it, and deletes the
file again when the document keeps another one or anything raises.

A session refuses all work after a failure until it is rolled back. The attributes of its rows are
read again after a commit, a rollback and a failed flush; a commit that fails after its flush leaves
them. What fails is an argument of the actions; a storage operation that fails changes nothing,
except that it may have stored the object.
-/

set_option autoImplicit false

namespace HyChat

open Lib

namespace Files

open Rest (StoredFile)

/-! ## The two stores -/

/-- What a commit of a session that is not waiting for a rollback comes to -/
inductive CommitOutcome
  | commits
  | flushFails
  | commitFails
  deriving DecidableEq

structure FileStore where
  /-- The committed rows -/
  rows : List StoredFile
  /-- The keys of the objects -/
  objects : List String
  needsRollback : Bool
  /-- The ids of the rows whose attributes the session has at hand -/
  loaded : List String

namespace FileStore

variable (s : FileStore)

def putObject (key : String) : FileStore := { s with objects := key :: s.objects }

def deleteObject (key : String) : FileStore :=
  { s with objects := s.objects.filter fun other => other ≠ key }

/-- `commit()`, with what its flush does to the rows, and whether it returns -/
def commit (outcome : CommitOutcome) (flush : List StoredFile → List StoredFile) :
    Bool × FileStore :=
  if s.needsRollback then (false, s)
  else
    match outcome with
    | .commits => (true, { s with rows := flush s.rows, loaded := [] })
    | .flushFails => (false, { s with needsRollback := true, loaded := [] })
    | .commitFails => (false, { s with needsRollback := true })

def rollback : FileStore := { s with needsRollback := false, loaded := [] }

def load (id : String) : FileStore := { s with loaded := id :: s.loaded }

/-- An attribute of the row can be read; `selects` is whether the SELECT succeeds if there is
one. -/
def reads (selects : Bool) (row : StoredFile) : Bool :=
  s.loaded.contains row.id ||
    (!s.needsRollback && selects && s.rows.any fun other => other.id = row.id)

end FileStore

/-! ## `FileService` -/

inductive PutOutcome
  | stored
  /-- It raises, and the object may be there. -/
  | raises (left : Bool)
  deriving DecidableEq

structure CreateFaults where
  put : PutOutcome
  commit : CommitOutcome
  refreshes : Bool
  /-- The storage deletion of the `except` clause succeeds. -/
  compensates : Bool

structure DeleteFaults where
  selects : Bool
  /-- The storage deletion succeeds. -/
  deletes : Bool
  commit : CommitOutcome

/-- The `except` clause of `create_from_path` -/
def compensate (f : CreateFaults) (row : StoredFile) (s : FileStore) : Bool × FileStore :=
  let s := s.rollback
  (false, if f.compensates then s.deleteObject row.objectKey else s)

/-- `create_from_path`, and whether it returns -/
def createFromPath (f : CreateFaults) (row : StoredFile) (s : FileStore) : Bool × FileStore :=
  match f.put with
  | .raises left => (false, if left then s.putObject row.objectKey else s)
  | .stored =>
      match (s.putObject row.objectKey).commit f.commit (· ++ [row]) with
      | (true, s) => if f.refreshes then (true, s.load row.id) else compensate f row s
      | (false, s) => compensate f row s

/-- `FileService.delete`, and whether it returns -/
def delete (f : DeleteFaults) (row : StoredFile) (s : FileStore) : Bool × FileStore :=
  if s.reads f.selects row then
    let s := s.load row.id
    if f.deletes then
      (s.deleteObject row.objectKey).commit f.commit fun rows =>
        rows.filter fun other => other.id ≠ row.id
    else (false, s)
  else (false, s)

/-! ## `ingest_file` on the session -/

/-- What the SELECT for a document with the same content finds -/
inductive Found
  | raises
  | nothing
  /-- A document that has not failed, with its stored file -/
  | settled (storedFileId : Option String)
  | failed

structure IngestFaults where
  found : Found
  /-- The duplicate is unlinked. -/
  unlinks : Bool
  deleteCommit : CommitOutcome
  createCommit : CommitOutcome
  refreshes : Bool
  /-- Loading, splitting and embedding succeed. -/
  prepares : Bool
  lastCommit : CommitOutcome
  dropsCache : Bool
  failCommit : CommitOutcome

/-- The handler: it commits the failure and raises again. -/
def recordFailure (f : IngestFaults) (s : FileStore) : Option (Option String) × FileStore :=
  (none, (s.commit f.failCommit id).2)

def process (f : IngestFaults) (row : StoredFile) (s : FileStore) :
    Option (Option String) × FileStore :=
  if f.prepares then
    match s.commit f.lastCommit id with
    | (true, s) => if f.dropsCache then (some (some row.id), s) else recordFailure f s
    | (false, s) => recordFailure f s
  else recordFailure f s

def createDocument (f : IngestFaults) (row : StoredFile) (s : FileStore) :
    Option (Option String) × FileStore :=
  match s.commit f.createCommit id with
  | (true, s) => if f.refreshes then process f row s else (none, s)
  | (false, s) => (none, s)

/-- `ingest_file`, with the stored file of the document it returns -/
def ingestFile (f : IngestFaults) (row : StoredFile) (s : FileStore) :
    Option (Option String) × FileStore :=
  match f.found with
  | .raises => (none, s)
  | .settled storedFileId => (if f.unlinks then some storedFileId else none, s)
  | .nothing => createDocument f row s
  | .failed =>
      match s.commit f.deleteCommit id with
      | (true, s) => createDocument f row s
      | (false, s) => (none, s)

/-! ## Calls -/

/-- Where a call of `upload_document` is -/
inductive Upload
  | idle
  | stored (row : StoredFile)
  | ingested (row : StoredFile) (storedFileId : Option String)
  /-- The document keeps the file; it is serialised. -/
  | kept (row : StoredFile)
  /-- An exception has been raised, with `stored_file` set. -/
  | raised (row : StoredFile)

structure FileState where
  store : FileStore
  upload : Upload
  /-- All rows that have been made -/
  made : List StoredFile

def FileState.start : FileState := ⟨⟨[], [], false, []⟩, .idle, []⟩

inductive FileAction
  /-- Another session takes over. -/
  | newSession
  | rollback
  /-- The session gets a row. -/
  | get (row : StoredFile)
  | create (row : StoredFile) (f : CreateFaults)
  | delete (row : StoredFile) (f : DeleteFaults)
  /-- `upload_document` up to its file -/
  | upload (row : StoredFile) (f : CreateFaults)
  | ingest (f : IngestFaults)
  /-- The stored files are compared, and a duplicate is deleted. -/
  | compare (selects : Bool) (f : DeleteFaults)
  | serialize (succeeds : Bool)
  /-- The `except` clause of `upload_document` -/
  | cleanUp (f : DeleteFaults)

/-- The id and the key of a row are drawn fresh. -/
def FileState.isFresh (s : FileState) (row : StoredFile) : Bool :=
  s.made.all fun other => other.id ≠ row.id && other.objectKey ≠ row.objectKey

/-- `create_from_path`, and how the upload goes on -/
def createStep (s : FileState) (row : StoredFile) (f : CreateFaults) (next : Upload) : FileState :=
  match createFromPath f row s.store with
  | (true, store) => ⟨store, next, row :: s.made⟩
  | (false, store) => ⟨store, .idle, row :: s.made⟩

def ingestStep (s : FileState) (row : StoredFile) (f : IngestFaults) : FileState :=
  match ingestFile f row s.store with
  | (some storedFileId, store) => ⟨store, .ingested row storedFileId, s.made⟩
  | (none, store) => ⟨store, .raised row, s.made⟩

/-- The comparison, with the attributes it reads -/
def compareStep (s : FileState) (row : StoredFile) (storedFileId : Option String) (selects : Bool)
    (f : DeleteFaults) : FileState :=
  if s.store.reads selects row then
    if storedFileId = some row.id then ⟨s.store.load row.id, .kept row, s.made⟩
    else
      match Files.delete f row (s.store.load row.id) with
      | (true, store) => ⟨store, .idle, s.made⟩
      | (false, store) => ⟨store, .raised row, s.made⟩
  else ⟨s.store, .raised row, s.made⟩

def cleanUpStep (s : FileState) (row : StoredFile) (f : DeleteFaults) : FileState :=
  match Files.delete f row s.store with
  | (true, store) => ⟨store, .idle, s.made⟩
  | (false, store) => ⟨store.rollback, .idle, s.made⟩

/-- One call after another -/
def fileCalls : Lts FileState FileAction where
  step s a :=
    match s.upload, a with
    | .idle, .newSession => some { s with store := s.store.rollback }
    | .idle, .rollback => some { s with store := s.store.rollback }
    | .idle, .get row =>
        if !s.store.needsRollback && s.store.rows.contains row then
          some { s with store := s.store.load row.id }
        else none
    | .idle, .create row f => if s.isFresh row then some (createStep s row f .idle) else none
    | .idle, .delete row f =>
        if s.made.contains row then some { s with store := (Files.delete f row s.store).2 } else none
    | .idle, .upload row f =>
        if s.isFresh row then some (createStep s row f (.stored row)) else none
    | .stored row, .ingest f => some (ingestStep s row f)
    | .ingested row storedFileId, .compare selects f =>
        some (compareStep s row storedFileId selects f)
    | .kept row, .serialize succeeds =>
        some { s with upload := if succeeds then .idle else .raised row }
    | .raised row, .cleanUp f => some (cleanUpStep s row f)
    | _, _ => none

end Files

end HyChat
