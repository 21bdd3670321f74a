import HyChat.Coding.Import
import HyChat.Lib.Json
import HyChat.Tracing.SafeJson
import HyChat.Lib.RealPath

/-!
# Reading the workspace

`list_files`, `read_file` and `search_code` look for the place of their path argument below the
workspace root. Two of them then list what is there, and the last opens what is listed.

What is listed is not resolved again. So a link that a listing names is followed wherever it leads;
and so is the path argument itself where its resolution ended early at a link that leads back to
itself. **But for these, no tool reads a file outside of the root** (`reads_stay_inside_iff`).

Why the file tree has links that lead to themselves. `Path.resolve` follows links, and where it
meets one that it is resolving already it gives up and returns the rest of the path as it stands. A
place that was found to be below the root is then no proof that what is opened there is, and the
tools do not look again. So the theorem has to know at which argument the resolution came to its
end: `Stops`.

The other exception is in the listings. A directory is walked without following links to
directories, and the files it has are opened by name; a link among them is followed by `open` and
leads wherever it was made to. `NoWayOut` is about the links that a call comes to, not about all in
the workspace: a search stops when it has enough matches, and what it has not come to it has not
opened.

What the tools return is modelled down to the lines and the cut at the limit, since how many
matches a file has decides whether the next one is read.
-/

set_option autoImplicit false

namespace HyChat

open Lib

namespace FileTools

/-! ## The tools -/

def ignoredDirs : List String :=
  [".git", ".venv", "venv", "node_modules", "__pycache__", ".pytest_cache", ".mypy_cache",
    ".ruff_cache", "dist", "build", ".next", ".turbo"]

def textExtensions : List String :=
  [".py", ".ts", ".tsx", ".js", ".jsx", ".json", ".md", ".txt", ".yml", ".yaml", ".toml", ".ini",
    ".env", ".example", ".css", ".html", ".sql", ".sh", ".dockerfile"]

/-- What the tools run on, with the setting of the root -/
structure Workspace extends Resolver where
  workspaceRoot : String
  /-- `os.path.expanduser` of a name; nothing where the result still begins with a tilde -/
  home : String → Option String
  /-- `str.lower` -/
  lower : String → String

inductive ToolError
  | value (message : String)
  | resolve (e : ResolveError)
  /-- `RuntimeError`, for a user without a home -/
  | home
  deriving DecidableEq

/-- What a tool returns, and the files it has read -/
structure Outcome where
  result : Except ToolError Json
  opened : List Location

/-- `str(path)` -/
def pathText (place : Location) : String := "/" ++ "/".intercalate place

variable (w : Workspace)

namespace Workspace

def resolvePath (path : PathText) : Except ToolError Location :=
  (w.resolve path).mapError .resolve

/-- `settings.workspace_path` -/
def workspacePath : Except ToolError Location :=
  w.resolvePath (PathText.ofString w.workspaceRoot).pure

/-- `Path.expanduser` -/
def expanduser : PathText → Except ToolError PathText
  | ⟨false, .name first :: rest⟩ =>
      if first.toList.head? = some '~' then
        match w.home first with
        | some home =>
            let start := (PathText.ofString home).pure
            .ok ⟨start.absolute, start.parts ++ rest⟩
        | none => .error .home
      else .ok ⟨false, .name first :: rest⟩
  | path => .ok path

/-- The path argument, below the root unless it is absolute -/
def argument (root : Location) (path : String) : Except ToolError PathText := do
  let p ← w.expanduser (PathText.ofString path).pure
  pure (if p.absolute then p else (PathText.ofLocation root).div p)

def safePath (path : String) : Except ToolError Location := do
  let root ← w.workspacePath
  let p ← w.argument root path
  let resolved ← w.resolvePath p
  if root <+: resolved then pure resolved
  else throw (.value s!"路径不在工作区内：{pathText resolved}")

/-- What stands at a place, after the links on the way. -/
def stat (place : Location) : Option Node :=
  match w.fs.locate w.links place with
  | .ok found => w.fs.get found
  | .error _ => none

/-- Opening follows a link at the end of the path. -/
def readText (place : Location) : Option (Location × String) := w.fs.readText w.links place

/-! ### Listing -/

def isTextFile (path : Location) : Bool :=
  let filename := path.getLastD ""
  textExtensions.contains (w.lower (Coding.suffix filename)) ||
    ["Dockerfile", "Makefile"].contains filename

/-- The loop of `_iter_files` over the files, as far as it is asked for -/
def takeFiles (maxFiles : Int) : Nat → List Location → List Location
  | _, [] => []
  | count, path :: rest =>
      if maxFiles ≤ count then []
      else if w.isTextFile path then path :: takeFiles maxFiles (count + 1) rest
      else takeFiles maxFiles count rest

/-- `_iter_files` -/
def iterFiles (root : Location) (maxFiles : Int) : List Location :=
  match w.stat root with
  | some node =>
      w.takeFiles maxFiles 0 (node.walk (w.fs.isDir w.links) ignoredDirs.contains root)
  | none => []

/-- `str(path.relative_to(root))` -/
def relativeText (root path : Location) : String := "/".intercalate (path.drop root.length)

def listFiles (path : String) (maxFiles : Int) : Outcome :=
  match w.safePath path with
  | .error e => ⟨.error e, []⟩
  | .ok root =>
      if (w.stat root).isSome then
        let files := (w.iterFiles root maxFiles).map fun file => Json.str (relativeText root file)
        ⟨.ok (.obj [("root", .str (pathText root)), ("files", .arr files),
          ("count", .int files.length)]), []⟩
      else ⟨.ok (.obj [("files", .arr []), ("error", .str s!"路径不存在：{pathText root}")]), []⟩

/-! ### Reading -/

/-- `text[:n]` -/
def slice (n : Int) (text : List Char) : List Char :=
  if 0 ≤ n then text.take n.toNat else text.take (text.length - (-n).toNat)

def readFile (path : String) (maxChars : Int) : Outcome :=
  match w.safePath path with
  | .error e => ⟨.error e, []⟩
  | .ok p =>
      match w.readText p with
      | none => ⟨.ok (.obj [("path", .str (pathText p)), ("content", .str ""),
          ("error", .str "文件不存在")]), []⟩
      | some (found, text) =>
          let content := slice maxChars text.toList
          ⟨.ok (.obj [("path", .str (pathText p)), ("content", .str (String.ofList content)),
            ("truncated", .bool (content.length ≥ maxChars))]), [found]⟩

/-! ### Searching -/

def isLineBreak (c : Char) : Bool :=
  let n := c.toNat
  (10 ≤ n && n ≤ 13) || (0x1c ≤ n && n ≤ 0x1e) || n == 0x85 || n == 0x2028 || n == 0x2029

/-- `str.splitlines`, with the line that was begun -/
def splitLines (line : List Char) : List Char → List (List Char)
  | [] => if line = [] then [] else [line]
  | '\r' :: '\n' :: rest => line :: splitLines [] rest
  | c :: rest => if isLineBreak c then line :: splitLines [] rest else splitLines (line ++ [c]) rest

def lines (text : String) : List (List Char × Nat) := (splitLines [] text.toList).zipIdx 1

/-- `query.lower().strip()` -/
def queryLower (query : String) : List Char := Py.strip (w.lower query).toList

def isHit (query : String) (line : List Char) : Bool :=
  decide (w.queryLower query <:+: (w.lower (String.ofList line)).toList)

def hit (root file : Location) (line : List Char × Nat) : Json :=
  .obj [("file", .str (relativeText root file)), ("line", .int line.2),
    ("text", .str (String.ofList ((Py.strip line.1).take 300)))]

/-- The matches when the lines of a file are looked at, and whether they are enough -/
def searchLines (query : String) (maxResults : Int) (root file : Location) :
    List (List Char × Nat) → List Json → List Json × Bool
  | [], found => (found, false)
  | line :: rest, found =>
      if w.isHit query line.1 then
        let found := found ++ [hit root file line]
        if (found.length : Int) ≥ maxResults then (found, true)
        else searchLines query maxResults root file rest found
      else searchLines query maxResults root file rest found

/-- The loop of `search_code` over the files: those it reads, and the matches -/
def searchFiles (query : String) (maxResults : Int) (root : Location) :
    List Location → List Json → List Location × List Json
  | [], found => ([], found)
  | file :: rest, found =>
      match w.readText file with
      | none => searchFiles query maxResults root rest found
      | some (place, text) =>
          match w.searchLines query maxResults root file (lines text) found with
          | (found, true) => ([place], found)
          | (found, false) =>
              let later := searchFiles query maxResults root rest found
              (place :: later.1, later.2)

def searchCode (path query : String) (maxResults : Int) : Outcome :=
  match w.safePath path with
  | .error e => ⟨.error e, []⟩
  | .ok root =>
      if (w.stat root).isSome then
        if w.queryLower query = [] then ⟨.ok (.obj [("matches", .arr [])]), []⟩
        else
          let search := w.searchFiles query maxResults root (w.iterFiles root 500) []
          ⟨.ok (.obj [("query", .str query), ("matches", .arr search.2)]), search.1⟩
      else ⟨.ok (.obj [("matches", .arr []), ("error", .str s!"路径不存在：{pathText root}")]), []⟩

end Workspace

inductive ToolCall
  | listFiles (path : String) (maxFiles : Int)
  | readFile (path : String) (maxChars : Int)
  | searchCode (path query : String) (maxResults : Int)

def ToolCall.path : ToolCall → String
  | .listFiles path _ | .readFile path _ | .searchCode path _ _ => path

def ToolCall.run : ToolCall → Outcome
  | .listFiles path maxFiles => w.listFiles path maxFiles
  | .readFile path maxChars => w.readFile path maxChars
  | .searchCode path query maxResults => w.searchCode path query maxResults

/-! ## What is to hold -/

namespace Workspace

/-- At the place of the workspace root, or below it -/
def Inside (place : Location) : Prop :=
  ∃ root top, w.workspacePath = .ok root ∧ w.fs.locate w.links root = .ok top ∧ top <+: place

/-- The path argument resolves to a place that is not below the root. -/
def Outside (path : String) : Prop :=
  ∃ root p place, w.workspacePath = .ok root ∧ w.argument root path = .ok p ∧
    w.resolvePath p = .ok place ∧ ¬root <+: place

/-- Every file that is read is inside, and nothing is read for a path outside. -/
structure StaysInside (call : ToolCall) : Prop where
  inside : ∀ place ∈ (call.run w).opened, w.Inside place
  refused : w.Outside call.path →
    (call.run w).opened = [] ∧ ∃ message, (call.run w).result = .error (.value message)

/-- Opening the file reads one outside. -/
def LeadsOut (file : Location) : Prop :=
  ∃ place text, w.readText file = some (place, text) ∧ ¬w.Inside place

/-- The resolution of the path argument meets a link that is being resolved. -/
def Stops (path : String) : Prop :=
  ∃ root p, w.workspacePath = .ok root ∧ w.argument root path = .ok p ∧ w.toResolver.Stops p

def IsLink (file : Location) : Prop := ∃ target, w.fs.get file = some (.link target)

def lineHits (query : String) (ls : List (List Char × Nat)) : Nat :=
  ls.countP fun line => w.isHit query line.1

/-- The lines of a file that match -/
def hits (query : String) (file : Location) : Nat :=
  match w.readText file with
  | some (_, text) => w.lineHits query (lines text)
  | none => 0

/-- The search has not ended before a file with so many matches in the files before it. -/
def GoesOn (maxResults : Int) (matched : Nat) : Prop := matched < max 1 maxResults.toNat

/-- Nothing that is read leads out: no link that the search comes to, and where the resolution of
the path argument ended early, nothing at all. -/
def NoWayOut : ToolCall → Prop
  | .listFiles _ _ => True
  | .readFile path _ => w.Stops path → ∀ p, w.safePath path = .ok p → ¬w.LeadsOut p
  | .searchCode path query maxResults => w.queryLower query ≠ [] →
      ∀ root, w.safePath path = .ok root → ∀ before file after,
        w.iterFiles root 500 = before ++ file :: after →
          GoesOn maxResults (before.map (w.hits query)).sum →
            w.Stops path ∨ w.IsLink file → ¬w.LeadsOut file

end Workspace

/-! ## What a search reads -/

namespace Workspace

variable {w} {query : String} {maxResults maxFiles : Int} {root place file : Location}
  {files : List Location} {found : List Json}

/-- Looking at the lines of a file goes on to the next file, with all their matches, as long as
these are not enough. -/
theorem searchLines_spec (root file : Location) (ls : List (List Char × Nat))
    (h : GoesOn maxResults found.length) :
    (GoesOn maxResults (found.length + w.lineHits query ls) ∧
      ∃ found', w.searchLines query maxResults root file ls found = (found', false) ∧
        found'.length = found.length + w.lineHits query ls) ∨
    (¬GoesOn maxResults (found.length + w.lineHits query ls) ∧
      ∃ found', w.searchLines query maxResults root file ls found = (found', true)) := by
  induction ls generalizing found with
  | nil => exact .inl ⟨h, found, rfl, rfl⟩
  | cons line ls ih =>
    rw [searchLines]
    by_cases hhit : w.isHit query line.1 = true
    · have hcount : w.lineHits query (line :: ls) = w.lineHits query ls + 1 :=
        List.countP_cons_of_pos hhit
      have hlength : (found ++ [hit root file line]).length = found.length + 1 := by simp
      rw [if_pos hhit, hcount]
      by_cases henough : ((found ++ [hit root file line]).length : Int) ≥ maxResults
      · refine .inr ⟨?_, _, if_pos henough⟩
        unfold GoesOn at h ⊢
        omega
      · have hmore : GoesOn maxResults (found ++ [hit root file line]).length := by
          unfold GoesOn at h ⊢
          omega
        simp only [if_neg henough]
        have hrest := ih hmore
        rw [hlength, Nat.add_assoc, Nat.add_comm 1] at hrest
        exact hrest
    · have hcount : w.lineHits query (line :: ls) = w.lineHits query ls :=
        List.countP_cons_of_neg hhit
      rw [if_neg hhit, hcount]
      exact ih h

theorem exists_split_cons {α : Type} {P : List α → α → Prop} {x : α} {xs : List α} :
    (∃ before y after, x :: xs = before ++ y :: after ∧ P before y) ↔
      P [] x ∨ ∃ before y after, xs = before ++ y :: after ∧ P (x :: before) y := by
  constructor
  · rintro ⟨before, y, after, he, h⟩
    cases before with
    | nil =>
      obtain ⟨rfl, -⟩ := List.cons.inj he
      exact .inl h
    | cons b before =>
      obtain ⟨rfl, hrest⟩ := List.cons.inj he
      exact .inr ⟨before, y, after, hrest, h⟩
  · rintro (h | ⟨before, y, after, rfl, h⟩)
    · exact ⟨[], x, xs, rfl, h⟩
    · exact ⟨x :: before, y, after, rfl, h⟩

/-- The search reads the files that it comes to before it has enough matches. -/
theorem mem_searchFiles (h : GoesOn maxResults found.length) :
    place ∈ (w.searchFiles query maxResults root files found).1 ↔
      ∃ before file after, files = before ++ file :: after ∧
        (∃ text, w.readText file = some (place, text)) ∧
          GoesOn maxResults (found.length + (before.map (w.hits query)).sum) := by
  induction files generalizing found with
  | nil => simp [searchFiles]
  | cons file files ih =>
    rw [searchFiles, exists_split_cons]
    simp only [List.map_cons, List.sum_cons, List.map_nil, List.sum_nil, Nat.add_zero,
      ← Nat.add_assoc]
    cases hread : w.readText file with
    | none =>
      have hhits : w.hits query file = 0 := by simp [hits, hread]
      simp [ih h, hhits]
    | some opened =>
      obtain ⟨there, text⟩ := opened
      have hhits : w.hits query file = w.lineHits query (lines text) := by simp [hits, hread]
      have hself : (∃ text', some (there, text) = some (place, text')) ↔ place = there := by
        simp [eq_comm]
      rw [hself, hhits]
      dsimp only
      rcases searchLines_spec root file (lines text) h with ⟨hgoes, found', hlines, hlength⟩ |
        ⟨hends, found', hlines⟩
      · rw [hlines, ← hlength]
        rw [← hlength] at hgoes
        simp only [List.mem_cons, ih hgoes, h, and_true]
      · rw [hlines]
        have hover : ∀ n,
            ¬GoesOn maxResults (found.length + w.lineHits query (lines text) + n) := by
          intro n
          unfold GoesOn at hends ⊢
          omega
        simp [h, hover]

/-- What is taken of a listing is in it. -/
theorem mem_takeFiles {count : Nat} (h : file ∈ w.takeFiles maxFiles count files) :
    file ∈ files := by
  induction files generalizing count with
  | nil => exact h
  | cons first files ih =>
    rw [takeFiles] at h
    split at h
    · exact absurd h (by simp)
    · split at h
      · rcases List.mem_cons.mp h with rfl | h
        · exact List.mem_cons_self
        · exact List.mem_cons_of_mem _ (ih h)
      · exact List.mem_cons_of_mem _ (ih h)

/-! ## Where the tools look -/

theorem resolvePath_ok {text : PathText} (h : w.resolvePath text = .ok place) :
    w.toResolver.resolve text = .ok place := by
  unfold resolvePath at h
  cases hresolve : w.toResolver.resolve text with
  | ok found =>
    rw [hresolve] at h
    exact congrArg Except.ok (Except.ok.inj h)
  | error e =>
    rw [hresolve] at h
    cases h

/-- A path that is allowed resolves to a place below the root. -/
theorem safePath_eq_ok {path : String} : w.safePath path = .ok place ↔
    ∃ root text, w.workspacePath = .ok root ∧ w.argument root path = .ok text ∧
      w.resolvePath text = .ok place ∧ root <+: place := by
  constructor
  · intro h
    unfold safePath at h
    cases hroot : w.workspacePath with
    | error e => simp [hroot, bind, Except.bind] at h
    | ok root =>
      cases htext : w.argument root path with
      | error e => simp [hroot, htext, bind, Except.bind] at h
      | ok text =>
        cases hplace : w.resolvePath text with
        | error e => simp [hroot, htext, hplace, bind, Except.bind] at h
        | ok found =>
          simp only [hroot, htext, hplace, bind, Except.bind] at h
          split at h
          · rename_i hbelow
            obtain rfl := Except.ok.inj h
            exact ⟨root, text, rfl, htext, hplace, hbelow⟩
          · cases h
  · rintro ⟨root, text, hroot, htext, hplace, hbelow⟩
    simp only [safePath, hroot, htext, hplace, bind, Except.bind, if_pos hbelow]
    rfl

theorem safePath_outside {path : String} (h : w.Outside path) :
    ∃ message, w.safePath path = .error (.value message) := by
  obtain ⟨root, text, found, hroot, htext, hplace, hnot⟩ := h
  refine ⟨s!"路径不在工作区内：{pathText found}", ?_⟩
  simp only [safePath, hroot, htext, hplace, bind, Except.bind, if_neg hnot]
  rfl

/-- The place of a path whose resolution came to its end has no links. -/
theorem linkFree_of_safePath {path : String} (h : w.safePath path = .ok place)
    (hends : ¬w.Stops path) : w.fs.LinkFree place := by
  obtain ⟨root, text, hroot, htext, hplace, -⟩ := safePath_eq_ok.mp h
  exact Resolver.linkFree_of_resolve (fun hstops => hends ⟨root, text, hroot, htext, hstops⟩)
    (resolvePath_ok hplace)

/-- What is found below the argument without following a link is inside. -/
theorem inside_of_linkFree {path : String} {p : Location} (hp : w.safePath path = .ok p)
    (hbelow : p <+: place) (hfree : w.fs.LinkFree place) {node : Node}
    (hget : w.fs.get place = some node) : w.Inside place := by
  obtain ⟨root, text, hroot, -, -, hprefix⟩ := safePath_eq_ok.mp hp
  obtain ⟨rest, rfl⟩ := hprefix.trans hbelow
  obtain ⟨top, htop, -⟩ := Option.bind_eq_some_iff.mp (FileSystem.get_append.symm.trans hget)
  exact ⟨root, root, hroot,
    FileSystem.locate_of_get (hfree.of_prefix (List.prefix_append _ _)) htop,
    List.prefix_append _ _⟩

theorem readText_ok {text : String} (h : w.readText file = some (place, text)) :
    w.fs.locate w.links file = .ok place ∧ ∃ content, w.fs.get place = some (.file content) := by
  unfold readText FileSystem.readText at h
  split at h
  · rename_i found hlocate
    split at h
    · rename_i content hget
      simp only [Option.some.injEq, Prod.mk.injEq] at h
      obtain ⟨rfl, -⟩ := h
      exact ⟨hlocate, content, hget⟩
    · cases h
  · cases h

/-- A file without links on the way to it is read where it is, and so inside. -/
theorem inside_of_readText {path : String} {p : Location} {text : String}
    (hp : w.safePath path = .ok p) (hbelow : p <+: file) (hfree : w.fs.LinkFree file)
    (hread : w.readText file = some (place, text)) : w.Inside place := by
  obtain ⟨hlocate, content, hget⟩ := readText_ok hread
  obtain rfl := FileSystem.eq_of_locate hfree hlocate
  exact inside_of_linkFree hp hbelow hfree hget

theorem lies_of_mem_iterFiles {path : String} {p : Location} (hp : w.safePath path = .ok p)
    (hends : ¬w.Stops path) (h : file ∈ w.iterFiles p maxFiles) : w.fs.Lies p file := by
  have hfree := linkFree_of_safePath hp hends
  unfold iterFiles at h
  split at h
  · rename_i node hstat
    unfold stat at hstat
    split at hstat
    · rename_i found hlocate
      obtain rfl := FileSystem.eq_of_locate hfree hlocate
      exact FileSystem.walk_spec node found hfree hstat file (mem_takeFiles h)
    · cases hstat
  · cases h

/-! ## The tools stay inside -/

theorem readFile_opened {path : String} {maxChars : Int} :
    place ∈ (w.readFile path maxChars).opened ↔
      ∃ p text, w.safePath path = .ok p ∧ w.readText p = some (place, text) := by
  unfold readFile
  split
  · simp [*]
  · rename_i p hp
    split
    · simp [*]
    · rename_i found text hread
      simp [hp, hread, eq_comm]

theorem searchCode_opened {path : String} :
    place ∈ (w.searchCode path query maxResults).opened ↔
      w.queryLower query ≠ [] ∧ ∃ root, w.safePath path = .ok root ∧ ∃ before file after,
        w.iterFiles root 500 = before ++ file :: after ∧
          (∃ text, w.readText file = some (place, text)) ∧
            GoesOn maxResults (before.map (w.hits query)).sum := by
  have hstart : GoesOn maxResults ([] : List Json).length := by
    unfold GoesOn
    simp
  unfold searchCode
  split
  · simp [*]
  · rename_i root hroot
    split
    · split
      · simp [*]
      · rename_i hquery
        simp [mem_searchFiles hstart, hquery, hroot]
    · rename_i hnone
      have hfiles : w.iterFiles root 500 = [] := by
        unfold iterFiles
        split
        · simp_all
        · rfl
      simp [hroot, hfiles]

theorem refused_of_outside {call : ToolCall} (h : w.Outside call.path) :
    (call.run w).opened = [] ∧ ∃ message, (call.run w).result = .error (.value message) := by
  obtain ⟨message, hpath⟩ := safePath_outside h
  cases call <;>
    simp_all [ToolCall.run, ToolCall.path, listFiles, readFile, searchCode]

end Workspace

open Workspace

/-- **A tool reads inside of the workspace, and refuses what is outside, exactly when no link that
it opens leads out.** -/
theorem reads_stay_inside_iff (w : Workspace) (call : ToolCall) :
    w.StaysInside call ↔ w.NoWayOut call := by
  constructor
  · rintro ⟨hinside, -⟩
    cases call with
    | listFiles => trivial
    | readFile path maxChars =>
      rintro - p hp ⟨place, text, hread, hout⟩
      exact hout (hinside place (readFile_opened.mpr ⟨p, text, hp, hread⟩))
    | searchCode path query maxResults =>
      rintro hquery root hroot before file after hfiles hgoes - ⟨place, text, hread, hout⟩
      exact hout (hinside place (searchCode_opened.mpr
        ⟨hquery, root, hroot, before, file, after, hfiles, ⟨text, hread⟩, hgoes⟩))
  · intro hno
    refine ⟨fun place hmem => ?_, refused_of_outside⟩
    cases call with
    | listFiles path maxFiles =>
      exfalso
      simp only [ToolCall.run, listFiles] at hmem
      split at hmem
      · cases hmem
      · split at hmem <;> cases hmem
    | readFile path maxChars =>
      obtain ⟨p, text, hp, hread⟩ := readFile_opened.mp hmem
      by_cases hstops : w.Stops path
      · by_contra hout
        exact hno hstops p hp ⟨place, text, hread, hout⟩
      · exact inside_of_readText hp List.prefix_rfl (linkFree_of_safePath hp hstops) hread
    | searchCode path query maxResults =>
      obtain ⟨hquery, root, hroot, before, file, after, hfiles, ⟨text, hread⟩, hgoes⟩ :=
        searchCode_opened.mp hmem
      by_cases hbad : w.Stops path ∨ w.IsLink file
      · by_contra hout
        exact hno hquery root hroot before file after hfiles hgoes hbad ⟨place, text, hread, hout⟩
      · obtain ⟨hends, hlink⟩ := not_or.mp hbad
        have hlies := lies_of_mem_iterFiles hroot hends
          (hfiles ▸ List.mem_append_right before List.mem_cons_self)
        rcases hlies.here with ⟨hfree, -⟩ | hlinked
        · exact inside_of_readText hroot hlies.below hfree hread
        · exact absurd hlinked hlink

/-- A workspace with a link to a file beside it, and a link to itself -/
def linkedEntries : List (String × Node) :=
  [("secret.txt", .file "key: 42"),
    ("ws", .dir [("notes.txt", .link ⟨true, [.name "secret.txt"]⟩),
      ("loop", .link ⟨false, [.name "loop"]⟩)])]

def linkedWorkspace : Workspace where
  fs := ⟨linkedEntries, by simp [linkedEntries, Node.Distinct, DistinctEntries]⟩
  cwd := []
  cwdFree := FileSystem.linkFree_nil
  frames := 1000
  links := 40
  workspaceRoot := "/ws"
  home _ := none
  lower text := text

theorem linkedWorkspace_root : linkedWorkspace.workspacePath = .ok ["ws"] := by rfl

theorem linkedWorkspace_secret : ¬linkedWorkspace.Inside ["secret.txt"] := by
  rintro ⟨root, top, hroot, htop, hbelow⟩
  rw [linkedWorkspace_root] at hroot
  obtain rfl := Except.ok.inj hroot
  have htop' : linkedWorkspace.fs.locate linkedWorkspace.links ["ws"] = .ok ["ws"] := by rfl
  rw [htop'] at htop
  obtain rfl := Except.ok.inj htop
  exact absurd hbelow (by decide)

/-- The link is outside for `read_file`, and the search reads what it leads to; `read_file` reads
it, too, with the link to itself on the way. -/
theorem linked_file_read :
    linkedWorkspace.Outside "notes.txt" ∧
      ¬linkedWorkspace.StaysInside (.searchCode "." "key" 40) ∧
      ¬linkedWorkspace.StaysInside (.readFile "loop/../notes.txt" 12000) := by
  refine ⟨⟨["ws"], ⟨true, [.name "ws", .name "notes.txt"]⟩, ["secret.txt"], linkedWorkspace_root,
    by decide, by decide, by decide⟩, fun h => ?_, fun h => ?_⟩
  · exact linkedWorkspace_secret (h.inside _ (by decide))
  · have hp : linkedWorkspace.safePath "loop/../notes.txt" = .ok ["ws", "notes.txt"] :=
      safePath_eq_ok.mpr ⟨["ws"], ⟨true, [.name "ws", .name "loop", .up, .name "notes.txt"]⟩,
        linkedWorkspace_root, by decide, by decide, by decide⟩
    have hread : linkedWorkspace.readText ["ws", "notes.txt"] =
        some (["secret.txt"], "key: 42") := by decide
    have hinside := h.inside ["secret.txt"]
    rw [ToolCall.run] at hinside
    exact linkedWorkspace_secret (hinside (readFile_opened.mpr ⟨_, _, hp, hread⟩))

end FileTools

end HyChat
