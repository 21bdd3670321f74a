import HyChat.Lib.Lts
import Mathlib

/-!
# Importing a workspace

`import_coding_workspace` counts what is stored once, makes a directory and then writes the files of
the upload one chunk at a time; it is suspended at every `upload.read` and at every `upload.close`.
In between other imports and deletions run.

A workspace is known by a number that is drawn fresh where the source draws a random suffix. What
the operating system refuses is an argument of the actions; removing a directory succeeds.

A file that is open for writing has a buffer. What is in it has been counted by the import but is
not on the disk, where `_import_storage_usage` would see it: the file sizes of the model are those
on the disk, and the bytes in the buffer of the one file an import has open are part of its phase.
They reach the disk with a later chunk, or when the `with` block closes the file, also while an
exception passes; if the file has been deleted in the meantime they are lost with it.
-/

set_option autoImplicit false

namespace HyChat

open Lib

namespace Coding

/-- The constants of the router, and `str.lower` -/
structure ImportSettings where
  maxImportedFiles : Nat
  maxImportedBytes : Nat
  maxImportedWorkspaces : Nat
  maxImportedStorageBytes : Nat
  importChunkBytes : Nat
  /-- The size of the buffer that `open` gives a file -/
  bufferBytes : Nat
  specialSourceFiles : List String
  ignoredDirs : List String
  textExtensions : List String
  lower : String → String

inductive Failure
  | http (status : Nat) (detail : String)
  /-- Any other `Exception` -/
  | exception
  | cancelled
  deriving DecidableEq

/-! ## File names -/

/-- The parts of the path with its slashes stripped, which has no root -/
def parts (filename : String) : List String :=
  let normalized := filename.toList.map fun c => if c = '\\' then '/' else c
  ((normalized.splitOn '/').map String.ofList).filter fun part => part ≠ "" && part ≠ "."

def safeImportRelativePath (filename : String) : Except Failure (String × List String) :=
  match parts filename with
  | [] => .error (.http 400 "文件夹中包含不安全的文件路径")
  | [name] =>
      if name = ".." then .error (.http 400 "文件夹中包含不安全的文件路径")
      else .ok ("local-project", [name])
  | root :: path =>
      if root = ".." ∨ ".." ∈ path then .error (.http 400 "文件夹中包含不安全的文件路径")
      else .ok (root, path)

/-- `Path.suffix` of a name -/
def suffix (name : String) : String :=
  let extension := (name.toList.reverse.takeWhile (· ≠ '.')).reverse
  if extension = [] ∨ name.toList.length ≤ extension.length + 1 then ""
  else String.ofList ('.' :: extension)

variable (p : ImportSettings)

def isSupportedSourceFile (path : List String) : Bool :=
  let name := path.getLastD ""
  if path.any p.ignoredDirs.contains then false
  else if name = ".env" ∨ (".env.".toList.isPrefixOf name.toList ∧ name ≠ ".env.example") then false
  else p.textExtensions.contains (p.lower (suffix name)) || p.specialSourceFiles.contains name

/-! ## Workspaces -/

/-- The files of a directory with their sizes -/
structure Workspace where
  files : List (List String × Nat)

namespace Workspace

def bytes (w : Workspace) : Nat := (w.files.map Prod.snd).sum

/-- `open(path, "wb")` on the files -/
def openIn (path : List String) : List (List String × Nat) → List (List String × Nat)
  | [] => [(path, 0)]
  | (other, size) :: rest =>
      if other = path then (other, 0) :: rest else (other, size) :: openIn path rest

def writeIn (path : List String) (size : Nat) :
    List (List String × Nat) → List (List String × Nat)
  | [] => []
  | (other, old) :: rest =>
      if other = path then (other, old + size) :: rest else (other, old) :: writeIn path size rest

/-- The directory with the file opened for writing; it is made again if it is gone. -/
def openFile (path : List String) (w : Option Workspace) : Workspace :=
  ⟨openIn path ((w.map files).getD [])⟩

def write (path : List String) (size : Nat) (w : Workspace) : Workspace :=
  ⟨writeIn path size w.files⟩

/-- Bytes of an open file reach the disk, unless the file has been deleted. -/
def flush (path : List String) (linked : Bool) (bytes : Nat) (w : Option Workspace) :
    Option Workspace :=
  if linked then w.map (write path bytes) else w

end Workspace

/-- `output.write` of a chunk into a buffer that holds some bytes already: what is written to the
    disk, and what the buffer holds then. -/
def bufferedWrite (bufferBytes buffered size : Nat) : Nat × Nat :=
  if buffered + size ≤ bufferBytes then (0, buffered + size)
  -- the buffer is flushed first; a chunk that is larger than it goes past it
  else if size ≤ bufferBytes then (buffered, size)
  else (buffered + size, 0)

/-! ## Imports -/

inductive Phase
  /-- `upload.read` is awaited; the file is linked as long as its directory has not been deleted,
      and some bytes are still in its buffer. -/
  | reading (path : List String) (linked : Bool) (buffered : Nat) (rest : List String)
  /-- `upload.close` is awaited, with the number of uploads still open. -/
  | closing (left : Nat) (failure : Option Failure)
  | completed
  | failed (failure : Failure)

/-- An import that has made its directory -/
structure Import where
  sourceName : String
  /-- How many files are uploaded -/
  files : Nat
  storageBytes : Nat
  importedCount : Nat
  totalBytes : Nat
  phase : Phase

structure Imports where
  next : Nat
  workspace : Nat → Option Workspace
  request : Nat → Option Import
  /-- The requests that ended before they made a directory -/
  refused : List Failure

namespace Imports

def start : Imports := ⟨0, fun _ => none, fun _ => none, []⟩

def setWorkspace (s : Imports) (i : Nat) (w : Option Workspace) : Imports :=
  { s with workspace := Function.update s.workspace i w }

def setRequest (s : Imports) (i : Nat) (m : Import) : Imports :=
  { s with request := Function.update s.request i (some m) }

def total (s : Imports) (weight : Option Workspace → Nat) : Nat :=
  ∑ i ∈ Finset.range s.next, weight (s.workspace i)

/-- The number of directories -/
def count (s : Imports) : Nat := s.total fun w => if w.isSome then 1 else 0

def size (w : Option Workspace) : Nat := (w.map Workspace.bytes).getD 0

/-- The bytes of all files, without what is still in a buffer -/
def storage (s : Imports) : Nat := s.total size

/-- The bytes of the other workspaces -/
def others (s : Imports) (i : Nat) : Nat :=
  ∑ j ∈ (Finset.range s.next).erase i, size (s.workspace j)

end Imports

/-- How the loop over the uploads goes on -/
inductive Next
  | file (path : List String) (rest : List String)
  | finished
  | raised (failure : Failure)

/-- The loop up to the next file it opens, unless the system refuses that file. -/
def nextFile (sourceName : String) (refuses : List String → Bool) : List String → Next
  | [] => .finished
  | filename :: rest =>
      match safeImportRelativePath filename with
      | .error failure => .raised failure
      | .ok (fileSourceName, relativePath) =>
          if fileSourceName ≠ sourceName then .raised (.http 400 "一次只能导入一个顶层文件夹")
          else if isSupportedSourceFile p relativePath = false then nextFile sourceName refuses rest
          else if refuses relativePath then .raised .exception
          else .file relativePath rest

/-- `except Exception`: the directory is removed. -/
def Imports.fail (s : Imports) (i : Nat) (m : Import) (failure : Failure) : Imports :=
  (s.setWorkspace i none).setRequest i { m with phase := .closing m.files (some failure) }

def proceed (s : Imports) (i : Nat) (m : Import) (refuses : List String → Bool)
    (rest : List String) : Imports :=
  match nextFile p m.sourceName refuses rest with
  | .file path rest =>
      (s.setWorkspace i (some (Workspace.openFile path (s.workspace i)))).setRequest i
        { m with phase := .reading path true 0 rest }
  | .finished => s.setRequest i { m with phase := .closing m.files none }
  | .raised failure => s.fail i m failure

/-- The checks before the directory is made -/
def checkImport (s : Imports) (filenames : List String) : Except Failure String :=
  match filenames with
  | [] => .error (.http 400 "请选择一个包含代码的文件夹")
  | first :: _ =>
      if filenames.length > p.maxImportedFiles then
        .error (.http 413 s!"文件过多，最多可导入 {p.maxImportedFiles} 个文件")
      else
        match safeImportRelativePath first with
        | .error failure => .error failure
        | .ok (sourceName, _) =>
            if s.count ≥ p.maxImportedWorkspaces then
              .error (.http 409 (s!"已导入项目达到 {p.maxImportedWorkspaces} 个上限，" ++
                "请先删除不再使用的项目副本"))
            else if s.storage ≥ p.maxImportedStorageBytes then
              .error (.http 409 "已导入项目占用空间达到 200 MB 上限，请先删除不再使用的项目副本")
            else .ok sourceName

inductive ImportAction
  /-- A request arrives; `mkdirFails` and `refuses` are what the system refuses. -/
  | start (filenames : List String) (mkdirFails : Bool) (refuses : List String → Bool)
  /-- `upload.read` returns a chunk. -/
  | chunk (i : Nat) (size : Nat)
  /-- It returns nothing more, and the file is closed. -/
  | eof (i : Nat) (refuses : List String → Bool)
  /-- What is awaited raises an `Exception`. -/
  | raise (i : Nat)
  /-- The request's task is cancelled. -/
  | cancel (i : Nat)
  /-- `upload.close` returns; after the last one `_workspace_option` may raise. -/
  | close (i : Nat) (optionFails : Bool)
  | delete (workspace : Nat)

namespace Imports

def begin_ (s : Imports) (filenames : List String) (mkdirFails : Bool)
    (refuses : List String → Bool) : Imports :=
  match checkImport p s filenames with
  | .error failure => { s with refused := failure :: s.refused }
  | .ok sourceName =>
      if mkdirFails then { s with refused := .exception :: s.refused }
      else
        let made : Imports := { s with
          next := s.next + 1
          workspace := Function.update s.workspace s.next (some ⟨[]⟩) }
        proceed p made s.next ⟨sourceName, filenames.length, s.storage, 0, 0, .closing filenames.length none⟩
          refuses
          filenames

def readChunk (s : Imports) (i : Nat) (m : Import) (path : List String) (linked : Bool)
    (buffered : Nat) (rest : List String) (size : Nat) : Imports :=
  let totalBytes := m.totalBytes + size
  if totalBytes > p.maxImportedBytes then
    s.fail i { m with totalBytes := totalBytes } (.http 413 "文件夹过大，代码文件总大小不能超过 20 MB")
  else if m.storageBytes + totalBytes > p.maxImportedStorageBytes then
    s.fail i { m with totalBytes := totalBytes }
      (.http 409 "导入后将超过 200 MB 总空间上限，请先删除不再使用的项目副本")
  else
    let (stored, buffered) := bufferedWrite p.bufferBytes buffered size
    (s.setWorkspace i (Workspace.flush path linked stored (s.workspace i))).setRequest i
      { m with totalBytes := totalBytes, phase := .reading path linked buffered rest }

/-- The request ends after its last upload is closed. -/
def finish (s : Imports) (i : Nat) (m : Import) (optionFails : Bool) : Imports :=
  if m.importedCount = 0 then
    (s.setWorkspace i none).setRequest i
      { m with phase := .failed (.http 400 "所选文件夹中没有支持的代码文件") }
  else if optionFails then s.setRequest i { m with phase := .failed .exception }
  else s.setRequest i { m with phase := .completed }

/-- The directory is deleted, also under an import that is writing into it. -/
def unlink (s : Imports) (w : Nat) : Imports :=
  { s.setWorkspace w none with
    request := Function.update s.request w ((s.request w).map fun m =>
      match m.phase with
      | .reading path _ buffered rest => { m with phase := .reading path false buffered rest }
      | _ => m) }

end Imports

def importer : Lts Imports ImportAction where
  step s
    | .start filenames mkdirFails refuses => some (s.begin_ p filenames mkdirFails refuses)
    | .chunk i size => (s.request i).bind fun m =>
        match m.phase with
        | .reading path linked buffered rest =>
            if 0 < size ∧ size ≤ p.importChunkBytes then
              some (s.readChunk p i m path linked buffered rest size)
            else none
        | _ => none
    | .eof i refuses => (s.request i).bind fun m =>
        match m.phase with
        | .reading path linked buffered rest =>
            let closed := s.setWorkspace i (Workspace.flush path linked buffered (s.workspace i))
            some (proceed p closed i { m with importedCount := m.importedCount + 1 } refuses rest)
        | _ => none
    | .raise i => (s.request i).bind fun m =>
        match m.phase with
        | .reading _ _ _ _ => some (s.fail i m .exception)
        | .closing _ _ => some (s.setRequest i { m with phase := .failed .exception })
        | _ => none
    | .cancel i => (s.request i).bind fun m =>
        match m.phase with
        | .reading path linked buffered _ =>
            -- `CancelledError` is no `Exception`, but the file is closed
            let closed := s.setWorkspace i (Workspace.flush path linked buffered (s.workspace i))
            some (closed.setRequest i { m with phase := .closing m.files (some .cancelled) })
        | .closing _ _ => some (s.setRequest i { m with phase := .failed .cancelled })
        | _ => none
    | .close i optionFails => (s.request i).bind fun m =>
        match m.phase with
        | .closing (left + 2) failure =>
            if optionFails then none
            else some (s.setRequest i { m with phase := .closing (left + 1) failure })
        | .closing _ (some failure) =>
            if optionFails then none else some (s.setRequest i { m with phase := .failed failure })
        | .closing _ none =>
            if optionFails && m.importedCount = 0 then none else some (s.finish i m optionFails)
        | _ => none
    | .delete w => (s.workspace w).map fun _ => s.unlink w

end Coding

end HyChat
