import HyChat.Lib.FileTree

/-!
# Resolving a path ahead of using it

`os.path.realpath` follows a path by itself, link after link. It need not exist: what is missing is
kept as it is written. A link that is met while it is being resolved ends the resolution; what is
left of the path then is appended, and goes up where it says so without a look at the tree.

`Path.resolve` adds one test: a path that still cannot be followed because of its links is an error.

**A path that is resolved to its end has no links left** (`linkFree_of_resolve`). Nothing is known
of one whose resolution ended early.
-/

set_option autoImplicit false

namespace HyChat.Lib

/-! ## Texts -/

def Part.ofText (text : List Char) : Part :=
  if text = [] then .empty
  else if text = ['.'] then .here
  else if text = ['.', '.'] then .up
  else .name (String.ofList text)

/-- A path as it is read by `os.path` -/
def PathText.ofString (text : String) : PathText :=
  match text.toList with
  | '/' :: rest => ⟨true, (rest.splitOn '/').map .ofText⟩
  | rest => ⟨false, (rest.splitOn '/').map .ofText⟩

/-- A path as it is kept by `pathlib`, which drops the parts that say nothing -/
def PathText.pure (path : PathText) : PathText :=
  { path with parts := path.parts.filter fun part => part ≠ .empty && part ≠ .here }

def PathText.ofLocation (place : Location) : PathText := ⟨true, place.map .name⟩

/-- `path / other` -/
def PathText.div (path other : PathText) : PathText :=
  if other.absolute then other else ⟨path.absolute, path.parts ++ other.parts⟩

/-- `os.path.join` of an absolute path and the rest of one: two slashes start anew. -/
def joinRest (path rest : List Part) : List Part :=
  match rest with
  | .empty :: next :: rest => next :: rest
  | rest => path ++ rest

/-- `os.path.normpath` of an absolute path -/
def normalize (parts : List Part) : Location :=
  parts.foldl (fun place part =>
    match part with
    | .empty | .here => place
    | .up => place.dropLast
    | .name name => place ++ [name]) []

/-! ## Resolving -/

inductive ResolveError
  /-- `RecursionError` -/
  | recursion
  /-- `RuntimeError` -/
  | loop
  deriving DecidableEq

/-- The links that were met, with what they are resolved to when that is done -/
abbrev Seen := List (Location × Option Location)

inductive Joined
  | resolved (path : Location) (seen : Seen)
  | stopped (parts : List Part)

namespace FileSystem

/-- The loop of `_joinrealpath`; the target of a link is left to `recurse`. -/
def joinLoop (fs : FileSystem)
    (recurse : Location → List Part → Seen → Except ResolveError Joined) :
    Location → List Part → Seen → Except ResolveError Joined
  | path, [], seen => .ok (.resolved path seen)
  | path, .empty :: rest, seen => joinLoop fs recurse path rest seen
  | path, .here :: rest, seen => joinLoop fs recurse path rest seen
  | path, .up :: rest, seen => joinLoop fs recurse path.dropLast rest seen
  | path, .name name :: rest, seen =>
      let newpath := path ++ [name]
      -- nothing on the way to `path` is a link, so `lstat` sees what is there
      match fs.get newpath with
      | some (.link target) =>
          match seen.lookup newpath with
          | some (some known) => joinLoop fs recurse known rest seen
          | some none => .ok (.stopped (joinRest (newpath.map .name) rest))
          | none =>
              match recurse (if target.absolute then [] else path) target.parts
                ((newpath, none) :: seen) with
              | .ok (.resolved path seen) =>
                  joinLoop fs recurse path rest ((newpath, some path) :: seen)
              | .ok (.stopped parts) => .ok (.stopped (joinRest parts rest))
              | .error e => .error e
      | _ => joinLoop fs recurse newpath rest seen

/-- `_joinrealpath`, with so many frames left -/
def joinRealPath (fs : FileSystem) :
    Nat → Location → List Part → Seen → Except ResolveError Joined
  | 0 => fun _ _ _ => .error .recursion
  | frames + 1 => fs.joinLoop (fs.joinRealPath frames)

end FileSystem

/-- What a path is resolved with -/
structure Resolver where
  fs : FileSystem
  cwd : Location
  cwdFree : fs.LinkFree cwd
  frames : Nat
  /-- How many links a path may meet when it is used -/
  links : Nat

namespace Resolver

variable (r : Resolver)

def joined (path : PathText) : Except ResolveError Joined :=
  r.fs.joinRealPath r.frames (if path.absolute then [] else r.cwd) path.parts []

/-- `os.path.realpath` -/
def realpath (path : PathText) : Except ResolveError Location :=
  match r.joined path with
  | .ok (.resolved path _) => .ok path
  | .ok (.stopped parts) => .ok (normalize parts)
  | .error e => .error e

/-- `Path.resolve` -/
def resolve (path : PathText) : Except ResolveError Location :=
  match r.realpath path with
  | .ok place =>
      if r.fs.locate r.links place = .error .tooManyLinks then .error .loop else .ok place
  | .error e => .error e

/-- The resolution of the path meets a link that is being resolved. -/
def Stops (path : PathText) : Prop := ∃ parts, r.joined path = .ok (.stopped parts)

end Resolver

/-! ## No links are left -/

namespace FileSystem

variable {fs : FileSystem}

theorem LinkFree.dropLast {place : Location} (h : fs.LinkFree place) :
    fs.LinkFree place.dropLast :=
  h.of_prefix (List.dropLast_prefix place)

/-- What is known of links has no links. -/
def KnownFree (fs : FileSystem) (seen : Seen) : Prop :=
  ∀ link known, (link, some known) ∈ seen → fs.LinkFree known

/-- A resolution that ends at its end leaves no link. -/
def Frees (fs : FileSystem)
    (resolution : Location → List Part → Seen → Except ResolveError Joined) : Prop :=
  ∀ path rest seen path' seen', fs.LinkFree path → fs.KnownFree seen →
    resolution path rest seen = .ok (.resolved path' seen') →
      fs.LinkFree path' ∧ fs.KnownFree seen'

theorem joinLoop_frees {recurse : Location → List Part → Seen → Except ResolveError Joined}
    (hrecurse : fs.Frees recurse) : fs.Frees (fs.joinLoop recurse) := by
  intro path rest
  induction rest generalizing path with
  | nil =>
    intro seen path' seen' hpath hseen h
    cases h
    exact ⟨hpath, hseen⟩
  | cons part rest ih =>
    intro seen path' seen' hpath hseen h
    cases part with
    | empty => exact ih path seen path' seen' hpath hseen h
    | here => exact ih path seen path' seen' hpath hseen h
    | up => exact ih path.dropLast seen path' seen' hpath.dropLast hseen h
    | name name =>
      rw [joinLoop] at h
      split at h
      · rename_i target hlink
        split at h
        · rename_i known hknown
          exact ih known seen path' seen' (hseen _ _ (Dict.mem_of_lookup hknown)) hseen h
        · cases h
        · split at h
          · rename_i path₁ seen₁ hrec
            have hstart : fs.LinkFree (if target.absolute then [] else path) := by
              split
              · exact linkFree_nil
              · exact hpath
            have hmet : fs.KnownFree ((path ++ [name], none) :: seen) := by
              intro link known hmem
              rcases List.mem_cons.mp hmem with he | hmem
              · cases he
              · exact hseen link known hmem
            obtain ⟨hpath₁, hseen₁⟩ := hrecurse _ _ _ _ _ hstart hmet hrec
            refine ih path₁ _ path' seen' hpath₁ ?_ h
            intro link known hmem
            rcases List.mem_cons.mp hmem with he | hmem
            · cases he
              exact hpath₁
            · exact hseen₁ link known hmem
          · cases h
          · cases h
      · rename_i hnot
        exact ih _ seen path' seen' (hpath.concat fun target => hnot target) hseen h

theorem joinRealPath_frees (frames : Nat) : fs.Frees (fs.joinRealPath frames) := by
  induction frames with
  | zero => exact fun _ _ _ _ _ _ _ h => by cases h
  | succ frames ih => exact joinLoop_frees ih

end FileSystem

namespace Resolver

variable {r : Resolver} {path : PathText} {place : Location}

/-- **A path that is resolved to its end has no links left.** -/
theorem linkFree_of_resolve (hends : ¬ r.Stops path) (h : r.resolve path = .ok place) :
    r.fs.LinkFree place := by
  unfold resolve at h
  split at h
  · rename_i found hreal
    split at h
    · cases h
    · obtain rfl := Except.ok.inj h
      unfold realpath at hreal
      split at hreal
      · rename_i seen hjoined
        obtain rfl := Except.ok.inj hreal
        have hstart : r.fs.LinkFree (if path.absolute then [] else r.cwd) := by
          split
          · exact FileSystem.linkFree_nil
          · exact r.cwdFree
        have hnone : r.fs.KnownFree [] := by simp [FileSystem.KnownFree]
        exact (FileSystem.joinRealPath_frees r.frames _ _ _ _ _ hstart hnone hjoined).1
      · rename_i parts hjoined
        exact absurd ⟨parts, hjoined⟩ hends
      · cases hreal
  · cases h

end Resolver

end HyChat.Lib
