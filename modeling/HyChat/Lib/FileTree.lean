import Mathlib.Data.List.Infix
import HyChat.Lib.Dict

/-!
# Directory trees with symbolic links

A place in a tree is given by the names on the way down to it. A path as it is written may say more:
it can go up, and a name on it can be that of a link, which is followed to wherever it points
(`FileSystem.locate`). On the way to a place that passes no link there is nothing to follow, and the
place is where it says (`locate_of_get`, `eq_of_locate`).

Listing a directory recursively (`Node.walk`) enters no link. **So everything it lists lies where
its path says, or is a link itself** (`walk_spec`).

Following links takes the number of links that may be met on the way, as a system call has a limit,
so that it ends; a path that meets more is an error. Permissions, mounts and files that are no text
are not part of a tree.
-/

set_option autoImplicit false

namespace HyChat.Lib

/-! ## Trees -/

/-- One part of a path, as it is written between two slashes -/
inductive Part
  | empty
  | here
  | up
  | name (s : String)
  deriving DecidableEq

/-- A path, as it is written -/
structure PathText where
  absolute : Bool
  parts : List Part
  deriving DecidableEq

inductive Node
  | file (content : String)
  | dir (entries : List (String × Node))
  | link (target : PathText)

/-- The names on the way down from the top -/
abbrev Location := List String

def Node.child (name : String) : Node → Option Node
  | .dir entries => entries.lookup name
  | _ => none

/-- What is found at a place, no link being followed -/
def Node.get (node : Node) : Location → Option Node
  | [] => some node
  | name :: rest => (node.child name).bind fun child => child.get rest

mutual
/-- No directory has two entries of one name. -/
def Node.Distinct : Node → Prop
  | .dir entries => (entries.map Prod.fst).Nodup ∧ DistinctEntries entries
  | _ => True
termination_by structural node => node

def DistinctEntries : List (String × Node) → Prop
  | [] => True
  | (_, node) :: entries => node.Distinct ∧ DistinctEntries entries
termination_by structural entries => entries
end

/-- The entries at the top -/
structure FileSystem where
  entries : List (String × Node)
  distinct : (Node.dir entries).Distinct

namespace FileSystem

def get (fs : FileSystem) (place : Location) : Option Node := (Node.dir fs.entries).get place

/-! ## Following a path -/

inductive Errno
  | missing
  | notDirectory
  | tooManyLinks
  deriving DecidableEq

/-- The rest of a path from a directory on; what a link stands for is left to `recurse`. -/
def follow (fs : FileSystem) (recurse : Location → List Part → Except Errno Location) :
    Location → List Part → Except Errno Location
  | place, [] => .ok place
  | place, .empty :: rest => follow fs recurse place rest
  | place, .here :: rest => follow fs recurse place rest
  | place, .up :: rest => follow fs recurse place.dropLast rest
  | place, .name name :: rest =>
      match fs.get (place ++ [name]) with
      | none => .error .missing
      | some (.dir _) => follow fs recurse (place ++ [name]) rest
      | some (.file _) => if rest = [] then .ok (place ++ [name]) else .error .notDirectory
      | some (.link target) =>
          recurse (if target.absolute then [] else place) (target.parts ++ rest)

/-- Where a path leads that meets at most so many links -/
def locateFrom (fs : FileSystem) : Nat → Location → List Part → Except Errno Location
  | 0 => fs.follow fun _ _ => .error .tooManyLinks
  | links + 1 => fs.follow (fs.locateFrom links)

def locate (fs : FileSystem) (links : Nat) (place : Location) : Except Errno Location :=
  fs.locateFrom links [] (place.map .name)

/-- The file that is opened under a path, with its content -/
def readText (fs : FileSystem) (links : Nat) (place : Location) : Option (Location × String) :=
  match fs.locate links place with
  | .ok found =>
      match fs.get found with
      | some (.file content) => some (found, content)
      | _ => none
  | .error _ => none

def isDir (fs : FileSystem) (links : Nat) (place : Location) : Bool :=
  match fs.locate links place with
  | .ok found =>
      match fs.get found with
      | some (.dir _) => true
      | _ => false
  | .error _ => false

end FileSystem

/-! ## Listing -/

section

variable (isDir : Location → Bool) (skips : String → Bool)

/-- An entry that a listing names as a file: not a directory, nor a link to one -/
def Node.listedAt (place : Location) : Node → Bool
  | .file _ => true
  | .dir _ => false
  | .link _ => !isDir place

/-- The places of the entries of a directory that are listed as files -/
def listed (place : Location) (entries : List (String × Node)) : List Location :=
  (entries.filter fun entry => entry.2.listedAt isDir (place ++ [entry.1])).map
    fun entry => place ++ [entry.1]

mutual
/-- The files of a directory and then those of its directories, but for the skipped ones -/
def Node.walk (place : Location) : Node → List Location
  | .dir entries => listed isDir place entries ++ walkEntries place entries
  | _ => []
termination_by structural node => node

def walkEntries (place : Location) : List (String × Node) → List Location
  | [] => []
  | (name, node) :: entries =>
      (if skips name then [] else node.walk (place ++ [name])) ++ walkEntries place entries
termination_by structural entries => entries
end

end

/-! ## Places without links -/

theorem Node.get_append (node : Node) (p q : Location) :
    node.get (p ++ q) = (node.get p).bind fun found => found.get q := by
  induction p generalizing node with
  | nil => rfl
  | cons name p ih =>
    rw [List.cons_append, Node.get, Node.get]
    cases node.child name with
    | none => rfl
    | some child => exact ih child

theorem DistinctEntries.of_mem {entries : List (String × Node)} (h : DistinctEntries entries)
    {entry : String × Node} (hmem : entry ∈ entries) : entry.2.Distinct := by
  induction entries with
  | nil => exact absurd hmem (by simp)
  | cons first entries ih =>
    rcases List.mem_cons.mp hmem with rfl | hmem
    · exact h.1
    · exact ih h.2 hmem

theorem Node.Distinct.get {node found : Node} (h : node.Distinct) {place : Location}
    (hget : node.get place = some found) : found.Distinct := by
  induction place generalizing node with
  | nil =>
    obtain rfl := Option.some.inj hget
    exact h
  | cons name place ih =>
    obtain ⟨child, hchild, hbelow⟩ := Option.bind_eq_some_iff.mp hget
    cases node with
    | dir entries => exact ih (h.2.of_mem (Dict.mem_of_lookup hchild)) hbelow
    | file | link => exact absurd hchild (by simp [Node.child])

namespace FileSystem

variable {fs : FileSystem} {place rest found : Location} {node : Node} {links : Nat}

theorem get_append : fs.get (place ++ rest) = (fs.get place).bind fun node => node.get rest :=
  Node.get_append _ place rest

/-- The entries of a directory are at their names. -/
theorem get_entry {entries : List (String × Node)} (hdir : fs.get place = some (.dir entries))
    {entry : String × Node} (h : entry ∈ entries) : fs.get (place ++ [entry.1]) = some entry.2 := by
  have hdistinct : (Node.dir entries).Distinct := fs.distinct.get hdir
  rw [get_append, hdir]
  show (entries.lookup entry.1).bind some = some entry.2
  rw [Dict.lookup_of_mem hdistinct.1 h, Option.bind_some]

/-- There is no link on the way to a place, nor at it. -/
def LinkFree (fs : FileSystem) (place : Location) : Prop :=
  ∀ p, p <+: place → ∀ target, fs.get p ≠ some (.link target)

theorem LinkFree.of_prefix (h : fs.LinkFree place) (hp : rest <+: place) : fs.LinkFree rest :=
  fun p hpre => h p (hpre.trans hp)

theorem LinkFree.concat (h : fs.LinkFree place) {name : String}
    (hname : ∀ target, fs.get (place ++ [name]) ≠ some (.link target)) :
    fs.LinkFree (place ++ [name]) := by
  intro p hp target
  rcases List.prefix_concat_iff.mp hp with rfl | hp
  · exact hname target
  · exact h p hp target

theorem linkFree_nil : fs.LinkFree [] := by
  intro p hp target
  obtain rfl := List.prefix_nil.mp hp
  simp [get, Node.get]

/-- Where there is something on a way without links, the path leads to it. -/
theorem follow_of_get {recurse : Location → List Part → Except Errno Location}
    (hfree : fs.LinkFree (place ++ rest)) (hget : fs.get (place ++ rest) = some node) :
    fs.follow recurse place (rest.map .name) = .ok (place ++ rest) := by
  induction rest generalizing place with
  | nil => simp [follow]
  | cons name rest ih =>
    have hsplit : place ++ name :: rest = (place ++ [name]) ++ rest := by simp
    rw [hsplit] at hfree hget ⊢
    rw [List.map_cons, follow]
    have hnext := get_append.symm.trans hget
    obtain ⟨next, hat, hbelow⟩ := Option.bind_eq_some_iff.mp hnext
    rw [hat]
    cases next with
    | dir entries => exact ih hfree hget
    | file content =>
      cases rest with
      | nil => simp
      | cons => exact absurd hbelow (by simp [Node.get, Node.child])
    | link target => exact absurd hat (hfree _ (List.prefix_append _ _) target)

theorem locate_of_get (hfree : fs.LinkFree place) (hget : fs.get place = some node) :
    fs.locate links place = .ok place := by
  have hfree' : fs.LinkFree ([] ++ place) := hfree
  cases links <;> exact follow_of_get hfree' hget

/-- A path without links leads nowhere else. -/
theorem eq_of_follow {recurse : Location → List Part → Except Errno Location}
    (hfree : fs.LinkFree (place ++ rest))
    (h : fs.follow recurse place (rest.map .name) = .ok found) : found = place ++ rest := by
  induction rest generalizing place with
  | nil =>
    rw [List.append_nil]
    exact (Except.ok.inj h).symm
  | cons name rest ih =>
    have hsplit : place ++ name :: rest = (place ++ [name]) ++ rest := by simp
    rw [hsplit] at hfree ⊢
    rw [List.map_cons, follow] at h
    split at h
    · cases h
    · exact ih hfree h
    · split at h
      · rename_i hrest
        obtain rfl : rest = [] := List.map_eq_nil_iff.mp hrest
        rw [List.append_nil]
        exact (Except.ok.inj h).symm
      · cases h
    · rename_i target hat
      exact absurd hat (hfree _ (List.prefix_append _ _) target)

theorem eq_of_locate (hfree : fs.LinkFree place) (h : fs.locate links place = .ok found) :
    found = place := by
  have hfree' : fs.LinkFree ([] ++ place) := hfree
  cases links <;> exact eq_of_follow hfree' h

/-! ## What a listing names -/

/-- Below a place, and there a file without links on the way, or a link -/
structure Lies (fs : FileSystem) (place found : Location) : Prop where
  below : place <+: found
  here : (fs.LinkFree found ∧ ∃ content, fs.get found = some (.file content)) ∨
    ∃ target, fs.get found = some (.link target)

theorem Lies.of_concat {name : String} (h : fs.Lies (place ++ [name]) found) :
    fs.Lies place found :=
  ⟨(List.prefix_append _ _).trans h.below, h.here⟩

theorem lies_of_mem_listed {isDir : Location → Bool} {entries : List (String × Node)}
    (hfree : fs.LinkFree place) (hdir : fs.get place = some (.dir entries))
    (h : found ∈ listed isDir place entries) : fs.Lies place found := by
  obtain ⟨⟨name, node⟩, hmem, rfl⟩ := List.mem_map.mp h
  obtain ⟨hentry, hlisted⟩ := List.mem_filter.mp hmem
  have hget := get_entry hdir hentry
  refine ⟨List.prefix_append _ _, ?_⟩
  cases node with
  | dir => exact absurd hlisted (by simp [Node.listedAt])
  | file content =>
    refine .inl ⟨hfree.concat fun target hlink => ?_, content, hget⟩
    rw [hget] at hlink
    cases hlink
  | link target => exact .inr ⟨target, hget⟩

mutual
/-- **A recursive listing goes astray in no link**: only what it names can be one. -/
theorem walk_spec {isDir : Location → Bool} {skips : String → Bool} :
    ∀ (node : Node) (place : Location), fs.LinkFree place → fs.get place = some node →
      ∀ found ∈ node.walk isDir skips place, fs.Lies place found
  | .dir entries, place, hfree, hget, found, h => by
    rcases List.mem_append.mp h with h | h
    · exact lies_of_mem_listed hfree hget h
    · exact walkEntries_spec entries place hfree (fun entry hentry => get_entry hget hentry) found h
  | .file _, _, _, _, _, h => absurd h (by simp [Node.walk])
  | .link _, _, _, _, _, h => absurd h (by simp [Node.walk])
termination_by structural node => node

theorem walkEntries_spec {isDir : Location → Bool} {skips : String → Bool} :
    ∀ (entries : List (String × Node)) (place : Location), fs.LinkFree place →
      (∀ entry ∈ entries, fs.get (place ++ [entry.1]) = some entry.2) →
        ∀ found ∈ walkEntries isDir skips place entries, fs.Lies place found
  | [], _, _, _, _, h => absurd h (by simp [walkEntries])
  | (name, node) :: entries, place, hfree, hget, found, h => by
    rcases List.mem_append.mp h with h | h
    · split at h
      · exact absurd h (by simp)
      · have hat := hget (name, node) List.mem_cons_self
        cases node with
        | link => exact absurd h (by simp [Node.walk])
        | file => exact absurd h (by simp [Node.walk])
        | dir below =>
          refine (walk_spec (.dir below) (place ++ [name]) (hfree.concat ?_) hat found h).of_concat
          intro target hlink
          rw [hat] at hlink
          cases hlink
    · exact walkEntries_spec entries place hfree
        (fun entry hentry => hget entry (List.mem_cons_of_mem _ hentry)) found h
termination_by structural entries => entries
end

end FileSystem

end HyChat.Lib
