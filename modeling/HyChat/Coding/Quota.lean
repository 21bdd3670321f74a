import HyChat.Coding.Import

/-!
# The quotas of the imports

An import is checked against what it counted when it began. The number of its files and its own
bytes stay within their limits whatever else happens; the limits on all workspaces hold as long as
nobody else has stored more since, and no directory is deleted under the import that writes into it.
A cancelled task, and an exception outside the `try` block, leave the directory behind.

What an import has counted is on the disk or still in the buffer of the file it has open. The check
is made when a chunk is read, the bytes may reach the disk only when the file is closed, and one
that begins in between counts without them; so the condition is about each step that writes to the
disk (`ImportAction.stores`), not about each step that reads a chunk.

The condition names the stale count, not the totals: a stale import that stays below the limits by
chance is outside it. For the directories left behind the condition is exact, step by step.

How the two kinds of limits are proved. The limits on one workspace are invariants of an import and
its directory, whatever others do (`Fits`): what the import counts is what its directory has, the
buffer included, and it is compared before more is read. The limits on all workspaces are about a
sum over imports that know of each other only what they counted at the start; `Kept` bounds the sum
by what the one import that writes has counted of the others, plus its own.

Why the condition is about a step and its count. An import could be asked to count again, but the
code does not, so what keeps the totals right is that the count is not stale when bytes are
written. `CountsAgree` compares the count with the bytes on the disk in the other workspaces, at
each step that writes to the disk. `SparesImports` is needed for the number of workspaces: a
directory that is deleted under an import comes back when the import opens its next file.

What is left behind is settled exactly: a failed import leaves its directory if and only if the
failure was a cancellation, or came from outside of the `try` block, with the directory still
there.
-/

set_option autoImplicit false

namespace HyChat

open Lib

namespace Coding

variable {p : ImportSettings}

/-! ## Files -/

namespace Workspace

theorem length_openIn (path : List String) (files : List (List String × Nat)) :
    (openIn path files).length ≤ files.length + 1 := by
  induction files with
  | nil => exact Nat.le_refl _
  | cons file rest ih =>
    obtain ⟨other, size⟩ := file
    unfold openIn
    split
    · exact Nat.le_succ _
    · exact Nat.succ_le_succ ih

theorem sum_openIn (path : List String) (files : List (List String × Nat)) :
    ((openIn path files).map Prod.snd).sum ≤ (files.map Prod.snd).sum := by
  induction files with
  | nil => exact Nat.le_refl _
  | cons file rest ih =>
    obtain ⟨other, size⟩ := file
    unfold openIn
    split
    · simp
    · simp only [List.map_cons, List.sum_cons]
      exact Nat.add_le_add_left ih size

theorem length_writeIn (path : List String) (size : Nat) (files : List (List String × Nat)) :
    (writeIn path size files).length = files.length := by
  induction files with
  | nil => rfl
  | cons file rest ih =>
    obtain ⟨other, old⟩ := file
    unfold writeIn
    split
    · rfl
    · simp only [List.length_cons, ih]

theorem sum_writeIn (path : List String) (size : Nat) (files : List (List String × Nat)) :
    ((writeIn path size files).map Prod.snd).sum ≤ (files.map Prod.snd).sum + size := by
  induction files with
  | nil => exact Nat.zero_le _
  | cons file rest ih =>
    obtain ⟨other, old⟩ := file
    unfold writeIn
    split
    · simp only [List.map_cons, List.sum_cons]
      omega
    · simp only [List.map_cons, List.sum_cons]
      omega

theorem length_openFile (path : List String) (w : Option Workspace) :
    (openFile path w).files.length ≤ ((w.map files).getD []).length + 1 :=
  length_openIn path _

theorem bytes_openFile (path : List String) (w : Option Workspace) :
    (openFile path w).bytes ≤ Imports.size w := by
  cases w with
  | none => exact sum_openIn path []
  | some w => exact sum_openIn path w.files

theorem length_write (path : List String) (size : Nat) (w : Workspace) :
    (write path size w).files.length = w.files.length := length_writeIn path size w.files

/-- Writing adds no more to a directory than what is written. -/
theorem bytes_write (path : List String) (size : Nat) (w : Workspace) :
    (write path size w).bytes ≤ w.bytes + size := sum_writeIn path size w.files

/-- Flushing adds no more than what is in the buffer. -/
theorem size_flush (path : List String) (linked : Bool) (bytes : Nat) (w : Option Workspace) :
    Imports.size (flush path linked bytes w) ≤ Imports.size w + bytes := by
  unfold flush
  split
  · cases w with
    | none => exact Nat.zero_le _
    | some w => exact bytes_write path bytes w
  · exact Nat.le_add_right _ _

/-- Flushing neither makes a directory nor removes one. -/
theorem isSome_flush (path : List String) (linked : Bool) (bytes : Nat) (w : Option Workspace) :
    (flush path linked bytes w).isSome = w.isSome := by
  unfold flush
  split
  · exact Option.isSome_map
  · rfl

end Workspace

/-- The bytes of a chunk are on the disk or in the buffer. -/
theorem bufferedWrite_add (bufferBytes buffered size : Nat) :
    (bufferedWrite bufferBytes buffered size).1 + (bufferedWrite bufferBytes buffered size).2 =
      buffered + size := by
  unfold bufferedWrite
  split
  · exact Nat.zero_add _
  · split
    · rfl
    · rfl

/-! ## Totals -/

namespace Imports

variable {s s' : Imports} {i : Nat}

/-- Only the workspace `i` may differ. -/
def SameBut (i : Nat) (s s' : Imports) : Prop :=
  s'.next = s.next ∧ ∀ j, j ≠ i → s'.workspace j = s.workspace j

theorem SameBut.total (h : SameBut i s s') (hi : i < s.next) (weight : Option Workspace → Nat) :
    s'.total weight + weight (s.workspace i) = s.total weight + weight (s'.workspace i) := by
  have hmem : i ∈ Finset.range s.next := Finset.mem_range.mpr hi
  have hrest : ∑ j ∈ (Finset.range s.next).erase i, weight (s'.workspace j) =
      ∑ j ∈ (Finset.range s.next).erase i, weight (s.workspace j) :=
    Finset.sum_congr rfl fun j hj => by rw [h.2 j (Finset.ne_of_mem_erase hj)]
  unfold Imports.total
  rw [h.1, ← Finset.add_sum_erase _ _ hmem, ← Finset.add_sum_erase _ (fun j => weight (s.workspace j)) hmem,
    hrest]
  omega

/-- What is stored is what one workspace has and what the others have. -/
theorem storage_eq (s : Imports) (hi : i < s.next) :
    s.storage = size (s.workspace i) + s.others i :=
  (Finset.add_sum_erase _ _ (Finset.mem_range.mpr hi)).symm

/-- An import and its directory are set. -/
def put (s : Imports) (i : Nat) (m : Option Import) (w : Option Workspace) : Imports :=
  { s with
    workspace := Function.update s.workspace i w
    request := Function.update s.request i m }

/-- A number more is drawn. -/
def grow (s : Imports) : Imports := { s with next := s.next + 1 }

theorem sameBut_put (s : Imports) (i : Nat) (m : Option Import) (w : Option Workspace) :
    SameBut i s (s.put i m w) :=
  ⟨rfl, fun _ hj => Function.update_of_ne hj _ _⟩

theorem workspace_put (s : Imports) (i : Nat) (m : Option Import) (w : Option Workspace) :
    (s.put i m w).workspace i = w := Function.update_self ..

theorem request_put (s : Imports) (i : Nat) (m : Option Import) (w : Option Workspace) :
    (s.put i m w).request i = m := Function.update_self ..

/-- The last one to set a workspace wins. -/
theorem put_setWorkspace (s : Imports) (i : Nat) (m : Option Import) (w w' : Option Workspace) :
    (s.setWorkspace i w').put i m w = s.put i m w := by
  unfold setWorkspace put
  simp only [Function.update_idem]

/-- Setting an import leaves its directory. -/
theorem setRequest_eq_put (s : Imports) (i : Nat) (m : Import) :
    s.setRequest i m = s.put i (some m) (s.workspace i) := by
  unfold setRequest put
  rw [Function.update_eq_self]

end Imports

/-! ## What a step can do -/

namespace Import

/-- The uploads the loop has still to look at -/
def pending (m : Import) : Nat :=
  match m.phase with
  | .reading _ _ _ rest => rest.length
  | _ => 0

/-- The bytes it has counted and not yet written to the disk -/
def buffered (m : Import) : Nat :=
  match m.phase with
  | .reading _ _ buffered _ => buffered
  | _ => 0

def Reading (m : Import) : Prop :=
  ∃ path linked buffered rest, m.phase = .reading path linked buffered rest

/-- The import has failed, or is about to. -/
def Failing (m : Import) : Prop :=
  (∃ left failure, m.phase = .closing left (some failure)) ∨ ∃ failure, m.phase = .failed failure

/-- The import as it is after the deletion of its directory -/
def unlinked (m : Import) : Import :=
  match m.phase with
  | .reading path _ buffered rest => { m with phase := .reading path false buffered rest }
  | _ => m

end Import

/-- How the loop goes on -/
inductive Proceeds (m : Import) (rest : List String) (w : Option Workspace) :
    Import → Option Workspace → Prop
  | file (path rest' : List String) (h : rest'.length < rest.length) :
      Proceeds m rest w { m with phase := .reading path true 0 rest' }
        (some (Workspace.openFile path w))
  | finished : Proceeds m rest w { m with phase := .closing m.files none } w
  | raised (failure : Failure) :
      Proceeds m rest w { m with phase := .closing m.files (some failure) } none

theorem length_nextFile {sourceName : String} {refuses : List String → Bool}
    {filenames path rest : List String}
    (h : nextFile p sourceName refuses filenames = .file path rest) :
    rest.length < filenames.length := by
  induction filenames with
  | nil => cases h
  | cons filename filenames ih =>
    unfold nextFile at h
    split at h
    · cases h
    · split at h
      · cases h
      · split at h
        · exact Nat.lt_succ_of_lt (ih h)
        · split at h
          · cases h
          · cases h
            exact Nat.lt_succ_self _

/-- The loop changes one import and its directory. -/
theorem proceed_spec (s : Imports) (i : Nat) (m : Import) (refuses : List String → Bool)
    (rest : List String) : ∃ m' w', proceed p s i m refuses rest = s.put i (some m') w' ∧
      Proceeds m rest (s.workspace i) m' w' := by
  unfold proceed
  split
  · rename_i path rest' hnext
    exact ⟨_, _, rfl, .file path rest' (length_nextFile hnext)⟩
  · exact ⟨_, _, s.setRequest_eq_put i _, .finished⟩
  · rename_i failure _
    exact ⟨_, _, rfl, .raised failure⟩

/-- What an action does to an import and its directory -/
inductive Moved (p : ImportSettings) (i : Nat) (m : Import) (w : Option Workspace) :
    ImportAction → Import → Option Workspace → Prop
  | wrote {path rest : List String} {linked : Bool} {buffered size : Nat}
      (hphase : m.phase = .reading path linked buffered rest)
      (hbytes : m.totalBytes + size ≤ p.maxImportedBytes)
      (hstorage : m.storageBytes + (m.totalBytes + size) ≤ p.maxImportedStorageBytes) :
      Moved p i m w (.chunk i size)
        { m with
          totalBytes := m.totalBytes + size
          phase := .reading path linked (bufferedWrite p.bufferBytes buffered size).2 rest }
        (Workspace.flush path linked (bufferedWrite p.bufferBytes buffered size).1 w)
  | overrun {size : Nat} {failure : Failure} (hphase : m.Reading) :
      Moved p i m w (.chunk i size) { m with
        totalBytes := m.totalBytes + size
        phase := .closing m.files (some failure) } none
  | next {path rest : List String} {linked : Bool} {buffered : Nat} {refuses : List String → Bool}
      {m' : Import} {w' : Option Workspace} (hphase : m.phase = .reading path linked buffered rest)
      (h : Proceeds { m with importedCount := m.importedCount + 1 } rest
        (Workspace.flush path linked buffered w) m' w') :
      Moved p i m w (.eof i refuses) m' w'
  | caught (hphase : m.Reading) :
      Moved p i m w (.raise i) { m with phase := .closing m.files (some .exception) } none
  | uncaught {path rest : List String} {linked : Bool} {buffered : Nat}
      (hphase : m.phase = .reading path linked buffered rest) :
      Moved p i m w (.cancel i) { m with phase := .closing m.files (some .cancelled) }
        (Workspace.flush path linked buffered w)
  | raised {left : Nat} {failure : Option Failure} (hphase : m.phase = .closing left failure) :
      Moved p i m w (.raise i) { m with phase := .failed .exception } w
  | cancelled {left : Nat} {failure : Option Failure} (hphase : m.phase = .closing left failure) :
      Moved p i m w (.cancel i) { m with phase := .failed .cancelled } w
  | closed {left : Nat} {failure : Option Failure} (hphase : m.phase = .closing (left + 2) failure) :
      Moved p i m w (.close i false) { m with phase := .closing (left + 1) failure } w
  | failed {left : Nat} {failure : Failure} (hphase : m.phase = .closing left (some failure)) :
      Moved p i m w (.close i false) { m with phase := .failed failure } w
  | empty {left : Nat} {failure : Failure} (hphase : m.phase = .closing left none) :
      Moved p i m w (.close i false) { m with phase := .failed failure } none
  | undescribed {left : Nat} (hphase : m.phase = .closing left none) :
      Moved p i m w (.close i true) { m with phase := .failed .exception } w
  | completed {left : Nat} (hphase : m.phase = .closing left none) :
      Moved p i m w (.close i false) { m with phase := .completed } w
  | deleted (hw : w.isSome = true) : Moved p i m w (.delete i) m.unlinked none

/-- A request that passes the checks -/
structure Created (p : ImportSettings) (s : Imports) (filenames : List String) (m' : Import)
    (w' : Option Workspace) : Prop where
  files : filenames.length ≤ p.maxImportedFiles
  count : s.count < p.maxImportedWorkspaces
  storage : s.storage < p.maxImportedStorageBytes
  proceeds : ∃ sourceName phase, Proceeds ⟨sourceName, filenames.length, s.storage, 0, 0, phase⟩
    filenames (some ⟨[]⟩) m' w'

/-- What a request has seen that passes the checks -/
theorem checkImport_spec {s : Imports} {filenames : List String} {sourceName : String}
    (h : checkImport p s filenames = .ok sourceName) :
    filenames.length ≤ p.maxImportedFiles ∧ s.count < p.maxImportedWorkspaces ∧
      s.storage < p.maxImportedStorageBytes := by
  unfold checkImport at h
  split at h
  · cases h
  · split at h
    · cases h
    · rename_i hfiles
      split at h
      · cases h
      · split at h
        · cases h
        · rename_i hcount
          split at h
          · cases h
          · rename_i hstorage
            exact ⟨Nat.not_lt.mp hfiles, Nat.not_le.mp hcount, Nat.not_le.mp hstorage⟩

/-- A request is refused, or an import begins under a number of its own. -/
theorem begin_spec (s : Imports) (filenames : List String) (mkdirFails : Bool)
    (refuses : List String → Bool) :
    (∃ refused, s.begin_ p filenames mkdirFails refuses = { s with refused := refused }) ∨
      ∃ m' w', s.begin_ p filenames mkdirFails refuses = s.grow.put s.next (some m') w' ∧
        Created p s filenames m' w' := by
  unfold Imports.begin_
  split
  · exact .inl ⟨_, rfl⟩
  · rename_i sourceName hcheck
    split
    · exact .inl ⟨_, rfl⟩
    · obtain ⟨hfiles, hcount, hstorage⟩ := checkImport_spec hcheck
      obtain ⟨m', w', hput, hproceeds⟩ := proceed_spec (p := p)
        { s with next := s.next + 1, workspace := Function.update s.workspace s.next (some ⟨[]⟩) }
        s.next ⟨sourceName, filenames.length, s.storage, 0, 0, .closing filenames.length none⟩
        refuses filenames
      simp only [Function.update_self] at hproceeds
      refine .inr ⟨m', w', hput.trans ?_, hfiles, hcount, hstorage, sourceName, _, hproceeds⟩
      unfold Imports.put Imports.grow
      simp only [Function.update_idem]

/-- A chunk is written, or the import fails on a limit and its directory is removed. -/
theorem readChunk_spec {s : Imports} {i : Nat} {m : Import} {path rest : List String}
    {linked : Bool} {buffered : Nat} (hphase : m.phase = .reading path linked buffered rest)
    (size : Nat) : ∃ m' w', s.readChunk p i m path linked buffered rest size = s.put i (some m') w' ∧
      Moved p i m (s.workspace i) (.chunk i size) m' w' := by
  unfold Imports.readChunk
  simp only
  split
  · exact ⟨_, _, rfl, .overrun ⟨path, linked, buffered, rest, hphase⟩⟩
  · rename_i hbytes
    split
    · exact ⟨_, _, rfl, .overrun ⟨path, linked, buffered, rest, hphase⟩⟩
    · rename_i hstorage
      exact ⟨_, _, rfl, .wrote hphase (Nat.not_lt.mp hbytes) (Nat.not_lt.mp hstorage)⟩

/-- After the last upload is closed the import is completed, or fails. -/
theorem finish_spec {s : Imports} {i : Nat} {m : Import} {left : Nat} {optionFails : Bool}
    (hphase : m.phase = .closing left none) (hoption : ¬ (optionFails && m.importedCount == 0) = true) :
    ∃ m' w', s.finish i m optionFails = s.put i (some m') w' ∧
      Moved p i m (s.workspace i) (.close i optionFails) m' w' := by
  unfold Imports.finish
  split
  · rename_i hcount
    cases optionFails with
    | true => exact absurd (by simp [hcount]) hoption
    | false => exact ⟨_, _, rfl, .empty hphase⟩
  · cases optionFails with
    | true => exact ⟨_, _, s.setRequest_eq_put i _, .undescribed hphase⟩
    | false => exact ⟨_, _, s.setRequest_eq_put i _, .completed hphase⟩

/-- A request arrives. -/
def ImportAction.Starts (a : ImportAction) : Prop :=
  ∃ filenames mkdirFails refuses, a = .start filenames mkdirFails refuses

/-- **What a step can do**: a request is refused, an import begins, or an import and its directory
    are changed. -/
theorem step_cases {s s' : Imports} {a : ImportAction} (h : (importer p).step s a = some s') :
    (a.Starts ∧ ∃ refused, s' = { s with refused := refused }) ∨
      (a.Starts ∧ ∃ filenames m' w', s' = s.grow.put s.next (some m') w' ∧
        Created p s filenames m' w') ∨
      (∃ i m m' w', s.request i = some m ∧ s' = s.put i (some m') w' ∧
        Moved p i m (s.workspace i) a m' w') ∨
      ∃ i, s.request i = none ∧ (s.workspace i).isSome = true := by
  cases a with
  | start filenames mkdirFails refuses =>
    cases h
    have hstarts : (ImportAction.start filenames mkdirFails refuses).Starts :=
      ⟨filenames, mkdirFails, refuses, rfl⟩
    rcases begin_spec (p := p) s filenames mkdirFails refuses with hrefused | ⟨m', w', hput, hcreated⟩
    · exact .inl ⟨hstarts, hrefused⟩
    · exact .inr (.inl ⟨hstarts, filenames, m', w', hput, hcreated⟩)
  | chunk i size =>
    obtain ⟨m, hm, h⟩ := Option.bind_eq_some_iff.mp h
    refine .inr (.inr (.inl ⟨i, m, ?_⟩))
    split at h
    · rename_i path linked buffered rest hphase
      split at h
      · cases h
        obtain ⟨m', w', hput, hmoved⟩ := readChunk_spec (p := p) (s := s) (i := i) hphase size
        exact ⟨m', w', hm, hput, hmoved⟩
      · cases h
    · cases h
  | eof i refuses =>
    obtain ⟨m, hm, h⟩ := Option.bind_eq_some_iff.mp h
    refine .inr (.inr (.inl ⟨i, m, ?_⟩))
    split at h
    · rename_i path linked buffered rest hphase
      cases h
      let closed := s.setWorkspace i (Workspace.flush path linked buffered (s.workspace i))
      obtain ⟨m', w', hput, hproceeds⟩ := proceed_spec (p := p) closed i
        { m with importedCount := m.importedCount + 1 } refuses rest
      have hclosed : closed.workspace i = Workspace.flush path linked buffered (s.workspace i) :=
        Function.update_self ..
      rw [hclosed] at hproceeds
      exact ⟨m', w', hm, hput.trans (s.put_setWorkspace i _ _ _), .next hphase hproceeds⟩
    · cases h
  | raise i =>
    obtain ⟨m, hm, h⟩ := Option.bind_eq_some_iff.mp h
    refine .inr (.inr (.inl ⟨i, m, ?_⟩))
    split at h
    · rename_i path linked buffered rest hphase
      cases h
      exact ⟨_, _, hm, rfl, .caught ⟨path, linked, buffered, rest, hphase⟩⟩
    · rename_i left failure hphase
      cases h
      exact ⟨_, _, hm, s.setRequest_eq_put i _, .raised hphase⟩
    · cases h
  | cancel i =>
    obtain ⟨m, hm, h⟩ := Option.bind_eq_some_iff.mp h
    refine .inr (.inr (.inl ⟨i, m, ?_⟩))
    split at h
    · rename_i path linked buffered rest hphase
      cases h
      exact ⟨_, _, hm, rfl, .uncaught hphase⟩
    · rename_i left failure hphase
      cases h
      exact ⟨_, _, hm, s.setRequest_eq_put i _, .cancelled hphase⟩
    · cases h
  | close i optionFails =>
    obtain ⟨m, hm, h⟩ := Option.bind_eq_some_iff.mp h
    refine .inr (.inr (.inl ⟨i, m, ?_⟩))
    split at h
    · rename_i left failure hphase
      split at h
      · cases h
      · rename_i hoption
        cases h
        rw [Bool.not_eq_true] at hoption
        subst hoption
        exact ⟨_, _, hm, s.setRequest_eq_put i _, .closed hphase⟩
    · rename_i left failure _ hphase
      split at h
      · cases h
      · rename_i hoption
        cases h
        rw [Bool.not_eq_true] at hoption
        subst hoption
        exact ⟨_, _, hm, s.setRequest_eq_put i _, .failed hphase⟩
    · rename_i left _ hphase
      split at h
      · cases h
      · rename_i hoption
        cases h
        obtain ⟨m', w', hput, hmoved⟩ := finish_spec (p := p) (s := s) (i := i) hphase hoption
        exact ⟨m', w', hm, hput, hmoved⟩
    · cases h
  | delete i =>
    obtain ⟨w, hw, h⟩ := Option.map_eq_some_iff.mp h
    refine .inr (.inr ?_)
    cases hm : s.request i with
    | none =>
      refine .inr ⟨i, hm, ?_⟩
      rw [hw]
      rfl
    | some m =>
      refine .inl ⟨i, m, m.unlinked, none, hm, ?_, .deleted (by rw [hw]; rfl)⟩
      rw [← h]
      unfold Imports.unlink Imports.put
      rw [hm]
      rfl

/-! ## One workspace -/

def fileCount (w : Option Workspace) : Nat := ((w.map Workspace.files).getD []).length

/-- An import and its directory keep to the limits on one workspace. What is still in the buffer
    counts as if it were there. -/
structure Fits (p : ImportSettings) (m : Option Import) (w : Option Workspace) : Prop where
  owned : w.isSome = true → m.isSome = true
  bytes : ∀ m', m = some m' → Imports.size w + m'.buffered ≤ p.maxImportedBytes
  counted : ∀ m', m = some m' → Imports.size w + m'.buffered ≤ m'.totalBytes
  /-- The total was within the limit when the last chunk was read. -/
  checked : ∀ m', m = some m' → m'.Reading →
    m'.totalBytes ≤ p.maxImportedBytes ∧ m'.storageBytes + m'.totalBytes ≤ p.maxImportedStorageBytes
  files : ∀ m', m = some m' → fileCount w + m'.pending ≤ m'.files ∧ m'.files ≤ p.maxImportedFiles

theorem not_reading_of_closing {m : Import} {left : Nat} {failure : Option Failure}
    (h : m.phase = .closing left failure) : ¬m.Reading := by
  rintro ⟨path, linked, buffered, rest, hphase⟩
  rw [h] at hphase
  cases hphase

/-- A failed import reads nothing. -/
theorem not_reading_of_failed {m : Import} {failure : Failure} (h : m.phase = .failed failure) :
    ¬m.Reading := by
  rintro ⟨path, linked, buffered, rest, hphase⟩
  rw [h] at hphase
  cases hphase

theorem not_reading_of_completed {m : Import} (h : m.phase = .completed) : ¬m.Reading := by
  rintro ⟨path, linked, buffered, rest, hphase⟩
  rw [h] at hphase
  cases hphase

theorem buffered_of_reading {m : Import} {path rest : List String} {linked : Bool} {buffered : Nat}
    (h : m.phase = .reading path linked buffered rest) : m.buffered = buffered := by
  unfold Import.buffered
  rw [h]

theorem pending_of_reading {m : Import} {path rest : List String} {linked : Bool} {buffered : Nat}
    (h : m.phase = .reading path linked buffered rest) : m.pending = rest.length := by
  unfold Import.pending
  rw [h]

theorem buffered_of_not_reading {m : Import} (h : ¬m.Reading) : m.buffered = 0 := by
  unfold Import.buffered
  split
  · exact absurd ⟨_, _, _, _, ‹_›⟩ h
  · rfl

theorem pending_of_not_reading {m : Import} (h : ¬m.Reading) : m.pending = 0 := by
  unfold Import.pending
  split
  · exact absurd ⟨_, _, _, _, ‹_›⟩ h
  · rfl

/-- The limits, where there is an import -/
theorem Fits.of_some {m : Import} {w : Option Workspace}
    (hbytes : Imports.size w + m.buffered ≤ p.maxImportedBytes)
    (hcounted : Imports.size w + m.buffered ≤ m.totalBytes)
    (hchecked : m.Reading → m.totalBytes ≤ p.maxImportedBytes ∧
      m.storageBytes + m.totalBytes ≤ p.maxImportedStorageBytes)
    (hfiles : fileCount w + m.pending ≤ m.files ∧ m.files ≤ p.maxImportedFiles) :
    Fits p (some m) w := by
  refine ⟨fun _ => rfl, ?_, ?_, ?_, ?_⟩
  · intro m' hm
    cases hm
    exact hbytes
  · intro m' hm
    cases hm
    exact hcounted
  · intro m' hm
    cases hm
    exact hchecked
  · intro m' hm
    cases hm
    exact hfiles

/-- The directory is gone, and nothing is read any more. -/
theorem Fits.gone {m : Import} (hreading : ¬m.Reading) (hfiles : m.files ≤ p.maxImportedFiles) :
    Fits p (some m) none := by
  have hbuffered := buffered_of_not_reading hreading
  have hpending := pending_of_not_reading hreading
  have hsize : Imports.size none = 0 := rfl
  have hcount : fileCount none = 0 := rfl
  exact .of_some (by omega) (by omega) (fun hr => absurd hr hreading) (by omega)

/-- Nothing is read any more, and the directory has got nothing that was not counted. -/
theorem Fits.setPhase {m m' : Import} {w w' : Option Workspace} (h : Fits p (some m) w)
    (hsize : Imports.size w' ≤ Imports.size w + m.buffered) (hcount : fileCount w' = fileCount w)
    (hreading : ¬m'.Reading) (hfiles : m'.files = m.files) (htotal : m.totalBytes = m'.totalBytes) :
    Fits p (some m') w' := by
  have hbuffered := buffered_of_not_reading hreading
  have hpending := pending_of_not_reading hreading
  have hbytes := h.bytes m rfl
  have hcounted := h.counted m rfl
  obtain ⟨hpend, hmax⟩ := h.files m rfl
  exact .of_some (by omega) (by omega) (fun hr => absurd hr hreading) (by omega)

/-- The phase changes, and nothing is read any more. -/
theorem Fits.close {m m' : Import} {w : Option Workspace} (h : Fits p (some m) w)
    (hreading : ¬m'.Reading) (hfiles : m'.files = m.files) (htotal : m.totalBytes = m'.totalBytes) :
    Fits p (some m') w :=
  h.setPhase (Nat.le_add_right _ _) rfl hreading hfiles htotal

/-- Opening a file adds at most one. -/
theorem fileCount_openFile (path : List String) (w : Option Workspace) :
    fileCount (some (Workspace.openFile path w)) ≤ fileCount w + 1 := Workspace.length_openFile path w

theorem fileCount_flush (path : List String) (linked : Bool) (bytes : Nat) (w : Option Workspace) :
    fileCount (Workspace.flush path linked bytes w) = fileCount w := by
  unfold Workspace.flush
  split
  · cases w with
    | none => rfl
    | some w => exact Workspace.length_write path bytes w
  · rfl

/-- Going on with the loop keeps to the limits on one workspace. -/
theorem Proceeds.fits {m m' : Import} {rest : List String} {w w' : Option Workspace}
    (h : Proceeds m rest w m' w') (hcounted : Imports.size w ≤ m.totalBytes)
    (hchecked : m.totalBytes ≤ p.maxImportedBytes ∧
      m.storageBytes + m.totalBytes ≤ p.maxImportedStorageBytes)
    (hfiles : fileCount w + rest.length ≤ m.files) (hmax : m.files ≤ p.maxImportedFiles) :
    Fits p (some m') w' := by
  have hbytes : Imports.size w ≤ p.maxImportedBytes := Nat.le_trans hcounted hchecked.1
  cases h with
  | file path rest' hrest =>
    have hopen := Workspace.bytes_openFile path w
    have hcount := fileCount_openFile path w
    refine .of_some (Nat.le_trans hopen hbytes) (Nat.le_trans hopen hcounted) (fun _ => hchecked)
      ⟨?_, hmax⟩
    show fileCount _ + rest'.length ≤ m.files
    omega
  | finished =>
    refine .of_some hbytes hcounted (fun hr => absurd hr (not_reading_of_closing rfl)) ⟨?_, hmax⟩
    show fileCount w + 0 ≤ m.files
    omega
  | raised failure => exact .gone (not_reading_of_closing rfl) hmax

/-- The directory is deleted, and what is in the buffer with it. -/
theorem Fits.unlinked {m : Import} {w : Option Workspace} (h : Fits p (some m) w) :
    Fits p (some m.unlinked) none := by
  have hbytes := h.bytes m rfl
  have hcounted := h.counted m rfl
  obtain ⟨hpending, hmax⟩ := h.files m rfl
  by_cases hreading : m.Reading
  · have hchecked := h.checked m rfl hreading
    obtain ⟨path, linked, buffered, rest, hphase⟩ := hreading
    rw [buffered_of_reading hphase] at hbytes hcounted
    rw [pending_of_reading hphase] at hpending
    unfold Import.unlinked
    rw [hphase]
    refine .of_some ?_ ?_ (fun _ => hchecked) ⟨?_, hmax⟩
    · exact Nat.le_trans (Nat.add_le_add_right (Nat.zero_le _) buffered) hbytes
    · exact Nat.le_trans (Nat.add_le_add_right (Nat.zero_le _) buffered) hcounted
    · exact Nat.le_trans (Nat.add_le_add_right (Nat.zero_le _) rest.length) hpending
  · have hsame : m.unlinked = m := by
      unfold Import.unlinked
      split
      · exact absurd ⟨_, _, _, _, ‹_›⟩ hreading
      · rfl
    rw [hsame]
    exact .gone hreading hmax

/-- **A step of an import** keeps to the limits on its workspace. -/
theorem Moved.fits {i : Nat} {m m' : Import} {w w' : Option Workspace} {a : ImportAction}
    (h : Moved p i m w a m' w') (hm : Fits p (some m) w) : Fits p (some m') w' := by
  have hcounted := hm.counted m rfl
  obtain ⟨hpending, hmax⟩ := hm.files m rfl
  cases h with
  | @wrote path rest linked buffered size hphase hbytes hstorage =>
    have hreading := pending_of_reading hphase
    have hbuffered := buffered_of_reading hphase
    -- the chunk is counted, and goes to the disk or into the buffer
    have hsum := bufferedWrite_add p.bufferBytes buffered size
    have hsize := Workspace.size_flush path linked (bufferedWrite p.bufferBytes buffered size).1 w
    have hcount := fileCount_flush path linked (bufferedWrite p.bufferBytes buffered size).1 w
    refine .of_some ?_ ?_ (fun _ => ⟨hbytes, hstorage⟩) ⟨?_, hmax⟩
    · show _ + (bufferedWrite p.bufferBytes buffered size).2 ≤ _
      omega
    · show _ + (bufferedWrite p.bufferBytes buffered size).2 ≤ m.totalBytes + size
      omega
    · show _ + rest.length ≤ m.files
      omega
  | overrun hphase => exact .gone (not_reading_of_closing rfl) hmax
  | @next path rest linked buffered refuses _ _ hphase hproceeds =>
    have hreading := pending_of_reading hphase
    have hbuffered := buffered_of_reading hphase
    have hsize := Workspace.size_flush path linked buffered w
    have hcount := fileCount_flush path linked buffered w
    -- the file is closed, so its buffer is on the disk before the loop goes on
    refine hproceeds.fits ?_ (hm.checked m rfl ⟨_, _, _, _, hphase⟩) ?_ hmax
    · show _ ≤ m.totalBytes
      omega
    · show _ + rest.length ≤ m.files
      omega
  | caught hphase => exact .gone (not_reading_of_closing rfl) hmax
  | @uncaught path rest linked buffered hphase =>
    have hbuffered := buffered_of_reading hphase
    refine hm.setPhase ?_ (fileCount_flush path linked buffered w) (not_reading_of_closing rfl) rfl rfl
    rw [hbuffered]
    exact Workspace.size_flush path linked buffered w
  | raised hphase => exact hm.close (not_reading_of_failed rfl) rfl rfl
  | cancelled hphase => exact hm.close (not_reading_of_failed rfl) rfl rfl
  | closed hphase => exact hm.close (not_reading_of_closing rfl) rfl rfl
  | failed hphase => exact hm.close (not_reading_of_failed rfl) rfl rfl
  | empty hphase => exact .gone (not_reading_of_failed rfl) hmax
  | undescribed hphase => exact hm.close (not_reading_of_failed rfl) rfl rfl
  | completed hphase => exact hm.close (not_reading_of_completed rfl) rfl rfl
  | deleted hw => exact hm.unlinked

/-! ## Any run -/

/-- What holds in every run -/
structure Sound (p : ImportSettings) (s : Imports) : Prop where
  fresh : ∀ i, s.next ≤ i → s.request i = none ∧ s.workspace i = none
  fits : ∀ i, Fits p (s.request i) (s.workspace i)

theorem sound_start : Sound p .start := by
  refine ⟨fun _ _ => ⟨rfl, rfl⟩, fun _ => ⟨fun hw => Bool.noConfusion hw, ?_, ?_, ?_, ?_⟩⟩
  · intro m hm
    cases hm
  · intro m hm
    cases hm
  · intro m hm
    cases hm
  · intro m hm
    cases hm

theorem Sound.lt_next {s : Imports} (h : Sound p s) {i : Nat} {m : Import}
    (hm : s.request i = some m) : i < s.next := by
  rcases Nat.lt_or_ge i s.next with hlt | hge
  · exact hlt
  · rw [(h.fresh i hge).1] at hm
    cases hm

/-- One import and its directory change, and fit. -/
theorem Sound.put {s : Imports} (h : Sound p s) {i : Nat} (hi : i < s.next) {m : Option Import}
    {w : Option Workspace} (hfits : Fits p m w) : Sound p (s.put i m w) := by
  constructor
  · intro j hj
    have hne : j ≠ i := fun e => Nat.not_le.mpr hi (e ▸ hj)
    show Function.update s.request i m j = none ∧ Function.update s.workspace i w j = none
    rw [Function.update_of_ne hne, Function.update_of_ne hne]
    exact h.fresh j hj
  · intro j
    by_cases hj : j = i
    · subst hj
      rw [Imports.request_put, Imports.workspace_put]
      exact hfits
    · show Fits p (Function.update s.request i m j) (Function.update s.workspace i w j)
      rw [Function.update_of_ne hj, Function.update_of_ne hj]
      exact h.fits j

/-- A number more is drawn. -/
theorem Sound.grow {s : Imports} (h : Sound p s) : Sound p s.grow :=
  ⟨fun i hi => h.fresh i (Nat.le_of_succ_le hi), h.fits⟩

/-- An import that begins fits. -/
theorem Created.fits {s : Imports} {filenames : List String} {m' : Import} {w' : Option Workspace}
    (h : Created p s filenames m' w') : Fits p (some m') w' := by
  obtain ⟨sourceName, phase, hproceeds⟩ := h.proceeds
  refine hproceeds.fits (Nat.zero_le _) ⟨Nat.zero_le _, Nat.le_of_lt h.storage⟩ ?_ h.files
  show 0 + filenames.length ≤ filenames.length
  omega

/-- Every step, whatever the others do -/
theorem Sound.step {s s' : Imports} (h : Sound p s) {a : ImportAction}
    (hs : (importer p).step s a = some s') : Sound p s' := by
  rcases step_cases hs with ⟨_, refused, rfl⟩ | ⟨_, filenames, m', w', rfl, hcreated⟩ |
    ⟨i, m, m', w', hm, rfl, hmoved⟩ | ⟨i, hm, hw⟩
  · exact ⟨h.fresh, h.fits⟩
  · exact h.grow.put (Nat.lt_succ_self _) hcreated.fits
  · refine h.put (h.lt_next hm) (hmoved.fits ?_)
    rw [← hm]
    exact h.fits i
  · have howned := (h.fits i).owned hw
    rw [hm] at howned
    cases howned

/-- Every reachable state is sound. -/
theorem sound_reach {ok : Imports → ImportAction → Prop} {s : Imports}
    (h : (importer p).Reach ok .start s) : Sound p s :=
  h.invariant sound_start fun _ _ _ hsound _ hs => hsound.step hs

/-! ## All workspaces -/

/-- What an import that is still writing finds of its directory, and one that has failed leaves -/
structure Tidy (m : Option Import) (w : Option Workspace) : Prop where
  there : ∀ m', m = some m' → m'.Reading → w.isSome = true
  gone : ∀ m', m = some m' → m'.Failing → w = none

/-- A failed import has left no directory behind. -/
def NoneLeft (s : Imports) : Prop :=
  ∀ i m, s.request i = some m → m.Failing → s.workspace i = none

/-- How much the step of an import writes to the disk: of a chunk what the buffer does not take, and
    at the end of a file what is still in the buffer. -/
def ImportAction.stores (p : ImportSettings) (m : Import) : ImportAction → Nat
  | .chunk _ size => (bufferedWrite p.bufferBytes m.buffered size).1
  | .eof _ _ => m.buffered
  | _ => 0

/-- The workspace an action is about -/
def ImportAction.subject (s : Imports) : ImportAction → Nat
  | .start _ _ _ => s.next
  | .chunk i _ => i
  | .eof i _ => i
  | .raise i => i
  | .cancel i => i
  | .close i _ => i
  | .delete w => w

/-- When an import writes to the disk, nobody has stored more in the other workspaces than it
    counted. -/
def CountsAgree (p : ImportSettings) (s : Imports) (a : ImportAction) : Prop :=
  ∀ m, s.request (a.subject s) = some m → 0 < a.stores p m →
    s.others (a.subject s) ≤ m.storageBytes

/-- The directory that is deleted is not one an import is writing into. -/
def SparesImports (s : Imports) : ImportAction → Prop
  | .delete w => ∀ m, s.request w = some m → ¬m.Reading
  | _ => True

/-- A task that is cancelled, or an exception outside the `try` block, finds the directory gone. -/
def CleansUp (s : Imports) : ImportAction → Prop
  | .cancel i => s.workspace i = none
  | .raise i => ∀ m, s.request i = some m → m.Reading ∨ s.workspace i = none
  | .close i optionFails => optionFails = true → s.workspace i = none
  | _ => True

def Undisturbed (p : ImportSettings) (s : Imports) (a : ImportAction) : Prop :=
  CountsAgree p s a ∧ SparesImports s a ∧ CleansUp s a

/-- The loop leaves a directory when it goes on, and none when it fails. -/
theorem Proceeds.tidy {m m' : Import} {rest : List String} {w w' : Option Workspace}
    (h : Proceeds m rest w m' w') : Tidy (some m') w' := by
  cases h with
  | file path rest' hrest =>
    refine ⟨fun _ _ _ => rfl, fun m₁ hm₁ hfailing => ?_⟩
    cases hm₁
    rcases hfailing with ⟨left, failure, hphase⟩ | ⟨failure, hphase⟩ <;> cases hphase
  | finished =>
    refine ⟨fun m₁ hm₁ hreading => ?_, fun m₁ hm₁ hfailing => ?_⟩
    · cases hm₁
      exact absurd hreading (not_reading_of_closing rfl)
    · cases hm₁
      rcases hfailing with ⟨left, failure, hphase⟩ | ⟨failure, hphase⟩ <;> cases hphase
  | raised failure =>
    refine ⟨fun m₁ hm₁ hreading => ?_, fun _ _ _ => rfl⟩
    cases hm₁
    exact absurd hreading (not_reading_of_closing rfl)

/-- **A step of an import cleans up** exactly when it is not one of those that leave a directory. -/
theorem Moved.cleansUp_iff {s : Imports} {i : Nat} {m m' : Import} {w' : Option Workspace}
    {a : ImportAction} (h : Moved p i m (s.workspace i) a m' w') (hm : s.request i = some m)
    (hgone : m.Failing → s.workspace i = none) : (m'.Failing → w' = none) ↔ CleansUp s a := by
  cases h with
  | wrote hphase hbytes hstorage =>
    refine iff_of_true (fun hfailing => ?_) trivial
    rcases hfailing with ⟨left, failure, hp⟩ | ⟨failure, hp⟩ <;> cases hp
  | overrun hphase => exact iff_of_true (fun _ => rfl) trivial
  | next hphase hproceeds => exact iff_of_true (hproceeds.tidy.gone _ rfl) trivial
  | caught hphase =>
    refine iff_of_true (fun _ => rfl) fun m₁ hm₁ => .inl ?_
    rw [hm] at hm₁
    cases hm₁
    exact hphase
  | @uncaught path rest linked buffered hphase =>
    have hnone : Workspace.flush path linked buffered (s.workspace i) = none ↔ s.workspace i = none := by
      rw [← Option.isNone_iff_eq_none, ← Option.isNone_iff_eq_none, ← Option.not_isSome,
        Workspace.isSome_flush, Option.not_isSome]
    exact ⟨fun h => hnone.mp (h (.inl ⟨_, _, rfl⟩)), fun h _ => hnone.mpr h⟩
  | raised hphase =>
    constructor
    · exact fun h _ _ => .inr (h (.inr ⟨_, rfl⟩))
    · intro h _
      exact (h m hm).resolve_left (not_reading_of_closing hphase)
  | cancelled hphase => exact ⟨fun h => h (.inr ⟨_, rfl⟩), fun h _ => h⟩
  | @closed left failure hphase =>
    refine iff_of_true (fun hfailing => hgone ?_) fun h => Bool.noConfusion h
    rcases hfailing with ⟨left', failure', hp⟩ | ⟨failure', hp⟩
    · cases hp
      exact .inl ⟨_, _, hphase⟩
    · cases hp
  | failed hphase =>
    exact iff_of_true (fun _ => hgone (.inl ⟨_, _, hphase⟩)) fun h => Bool.noConfusion h
  | empty hphase => exact iff_of_true (fun _ => rfl) fun h => Bool.noConfusion h
  | undescribed hphase => exact ⟨fun h _ => h (.inr ⟨_, rfl⟩), fun h _ => h rfl⟩
  | completed hphase =>
    refine iff_of_true (fun hfailing => ?_) fun h => Bool.noConfusion h
    rcases hfailing with ⟨left, failure, hp⟩ | ⟨failure, hp⟩ <;> cases hp
  | deleted hw => exact iff_of_true (fun _ => rfl) trivial

/-- A request that arrives leaves nothing behind. -/
theorem cleansUp_of_starts {s : Imports} {a : ImportAction} (h : a.Starts) : CleansUp s a := by
  obtain ⟨filenames, mkdirFails, refuses, rfl⟩ := h
  trivial

/-- Whether a failed import has left its directory is a matter of that import. -/
theorem noneLeft_put {s : Imports} (h : NoneLeft s) {i : Nat} {m : Import} {w : Option Workspace} :
    NoneLeft (s.put i (some m) w) ↔ (m.Failing → w = none) := by
  constructor
  · intro hput hfailing
    have hw := hput i m (Imports.request_put ..) hfailing
    rw [Imports.workspace_put] at hw
    exact hw
  · intro hm j mj hmj hfailing
    by_cases hj : j = i
    · subst hj
      rw [Imports.request_put] at hmj
      cases hmj
      rw [Imports.workspace_put]
      exact hm hfailing
    · rw [(Imports.sameBut_put s i (some m) w).2 j hj]
      apply h j mj _ hfailing
      rw [← hmj]
      exact (Function.update_of_ne hj _ _).symm

/-- **A step leaves no directory of a failed import** exactly when it cleans up. -/
theorem noneLeft_step_iff {s s' : Imports} (hsound : Sound p s) (h : NoneLeft s) {a : ImportAction}
    (hs : (importer p).step s a = some s') : NoneLeft s' ↔ CleansUp s a := by
  rcases step_cases hs with ⟨hstarts, refused, rfl⟩ | ⟨hstarts, filenames, m', w', rfl, hcreated⟩ |
    ⟨i, m, m', w', hm, rfl, hmoved⟩ | ⟨i, hm, hw⟩
  · exact iff_of_true h (cleansUp_of_starts hstarts)
  · obtain ⟨sourceName, phase, hproceeds⟩ := hcreated.proceeds
    have hgrow : NoneLeft s.grow := h
    exact iff_of_true ((noneLeft_put hgrow).mpr (hproceeds.tidy.gone _ rfl))
      (cleansUp_of_starts hstarts)
  · rw [noneLeft_put h]
    exact hmoved.cleansUp_iff hm (h i m hm)
  · have howned := (hsound.fits i).owned hw
    rw [hm] at howned
    cases howned

/-! ## Undisturbed runs -/

/-- What holds in every undisturbed run -/
structure Kept (p : ImportSettings) (s : Imports) : Prop where
  sound : Sound p s
  there : ∀ i m, s.request i = some m → m.Reading → (s.workspace i).isSome = true
  noneLeft : NoneLeft s
  count : s.count ≤ p.maxImportedWorkspaces
  storage : s.storage ≤ p.maxImportedStorageBytes

/-- Nothing is stored. -/
theorem kept_start : Kept p .start :=
  ⟨sound_start, fun _ _ hm => (nomatch hm), fun _ _ hm => (nomatch hm), Nat.zero_le _, Nat.zero_le _⟩

def occupied (w : Option Workspace) : Nat := if w.isSome then 1 else 0

theorem Proceeds.size_le {m m' : Import} {rest : List String} {w w' : Option Workspace}
    (h : Proceeds m rest w m' w') : Imports.size w' ≤ Imports.size w := by
  cases h with
  | file path rest' hrest => exact Workspace.bytes_openFile path w
  | finished => exact Nat.le_refl _
  | raised failure => exact Nat.zero_le _

/-- One workspace counts as one. -/
theorem occupied_le_one (w : Option Workspace) : occupied w ≤ 1 := by
  cases w <;> simp [occupied]

/-- Only a step that goes on with an import needs a directory that is there. -/
theorem Moved.occupied_le {i : Nat} {m m' : Import} {w w' : Option Workspace} {a : ImportAction}
    (h : Moved p i m w a m' w') (hthere : m.Reading → w.isSome = true) : occupied w' ≤ occupied w := by
  have hreading : m.Reading → occupied w' ≤ occupied w := by
    intro hm
    have hw : occupied w = 1 := if_pos (hthere hm)
    rw [hw]
    exact occupied_le_one w'
  cases h with
  | wrote hphase => exact hreading ⟨_, _, _, _, hphase⟩
  | overrun hphase => exact hreading hphase
  | next hphase => exact hreading ⟨_, _, _, _, hphase⟩
  | caught hphase => exact hreading hphase
  | uncaught hphase => exact hreading ⟨_, _, _, _, hphase⟩
  | empty hphase => exact Nat.zero_le _
  | deleted hw => exact Nat.zero_le _
  | _ => exact Nat.le_refl _

/-- **What makes a directory larger**: a step of an import that writes to the disk, or the
    cancellation of one that is writing. -/
theorem Moved.size_le {i : Nat} {m m' : Import} {w w' : Option Workspace} {a : ImportAction}
    (h : Moved p i m w a m' w') (hfits : Fits p (some m) w) (hcancel : a = .cancel i → w = none) :
    Imports.size w' ≤ Imports.size w ∨
      (0 < a.stores p m ∧ m.storageBytes + Imports.size w' ≤ p.maxImportedStorageBytes) := by
  have hcounted := hfits.counted m rfl
  cases h with
  | @wrote path rest linked buffered size hphase hbytes hstorage =>
    have hbuffered := buffered_of_reading hphase
    have hsum := bufferedWrite_add p.bufferBytes buffered size
    have hsize := Workspace.size_flush path linked (bufferedWrite p.bufferBytes buffered size).1 w
    rcases Nat.eq_zero_or_pos (bufferedWrite p.bufferBytes buffered size).1 with hzero | hpos
    · rw [hzero] at hsize ⊢
      exact .inl hsize
    · refine .inr ⟨?_, by omega⟩
      show 0 < (bufferedWrite p.bufferBytes m.buffered size).1
      rw [hbuffered]
      exact hpos
  | overrun hphase => exact .inl (Nat.zero_le _)
  | @next path rest linked buffered refuses _ _ hphase hproceeds =>
    have hbuffered := buffered_of_reading hphase
    have hflush := Workspace.size_flush path linked buffered w
    have hle := hproceeds.size_le
    have hchecked := (hfits.checked m rfl ⟨_, _, _, _, hphase⟩).2
    rcases Nat.eq_zero_or_pos buffered with hzero | hpos
    · exact .inl (by omega)
    · refine .inr ⟨?_, by omega⟩
      show 0 < m.buffered
      rw [hbuffered]
      exact hpos
  | caught hphase => exact .inl (Nat.zero_le _)
  | @uncaught path rest linked buffered hphase =>
    refine .inl ?_
    rw [hcancel rfl]
    unfold Workspace.flush
    split
    · exact Nat.zero_le _
    · exact Nat.zero_le _
  | empty hphase => exact .inl (Nat.zero_le _)
  | deleted hw => exact .inl (Nat.zero_le _)
  | _ => exact .inl (Nat.le_refl _)

/-- Only an import that was writing goes on writing. -/
theorem Moved.there {s : Imports} {i : Nat} {m m' : Import} {w' : Option Workspace}
    {a : ImportAction} (h : Moved p i m (s.workspace i) a m' w') (hm : s.request i = some m)
    (hspares : SparesImports s a) (hthere : m.Reading → (s.workspace i).isSome = true)
    (hreading : m'.Reading) : w'.isSome = true := by
  cases h with
  | wrote hphase hbytes hstorage =>
    rw [Workspace.isSome_flush]
    exact hthere ⟨_, _, _, _, hphase⟩
  | next hphase hproceeds => exact hproceeds.tidy.there _ rfl hreading
  | deleted hw =>
    exfalso
    apply hspares m hm
    obtain ⟨path, linked, buffered, rest, hp⟩ := hreading
    unfold Import.unlinked at hp
    split at hp
    · exact ⟨_, _, _, _, ‹_›⟩
    · exact ⟨_, _, _, _, hp⟩
  | _ =>
    obtain ⟨path, linked, buffered, rest, hp⟩ := hreading
    cases hp

theorem total_grow {s : Imports} (hsound : Sound p s) (weight : Option Workspace → Nat)
    (hweight : weight none = 0) : s.grow.total weight = s.total weight := by
  unfold Imports.total
  rw [show s.grow.next = s.next + 1 from rfl, Finset.sum_range_succ]
  show (∑ i ∈ Finset.range s.next, weight (s.workspace i)) + weight (s.workspace s.next) = _
  rw [(hsound.fresh s.next (Nat.le_refl _)).2, hweight, Nat.add_zero]

/-- A total changes by what the one workspace changes. -/
theorem total_put {s : Imports} {i : Nat} (hi : i < s.next) (m : Option Import)
    (w : Option Workspace) (weight : Option Workspace → Nat) :
    (s.put i m w).total weight + weight (s.workspace i) = s.total weight + weight w := by
  have h := (Imports.sameBut_put s i m w).total hi weight
  rw [Imports.workspace_put] at h
  exact h

/-- What is still reading has its directory, also after one import has moved. -/
theorem there_put {s : Imports}
    (h : ∀ i m, s.request i = some m → m.Reading → (s.workspace i).isSome = true) {i : Nat}
    {m : Import} {w : Option Workspace} (hm : m.Reading → w.isSome = true) :
    ∀ j mj, (s.put i (some m) w).request j = some mj → mj.Reading →
      ((s.put i (some m) w).workspace j).isSome = true := by
  intro j mj hmj hreading
  by_cases hj : j = i
  · subst hj
    rw [Imports.request_put] at hmj
    cases hmj
    rw [Imports.workspace_put]
    exact hm hreading
  · rw [(Imports.sameBut_put s i (some m) w).2 j hj]
    apply h j mj _ hreading
    rw [← hmj]
    exact (Function.update_of_ne hj _ _).symm

/-- The workspace that a step is about is the one it moves. -/
theorem Moved.subject_eq {s : Imports} {i : Nat} {m m' : Import} {w w' : Option Workspace}
    {a : ImportAction} (h : Moved p i m w a m' w') : a.subject s = i := by
  cases h <;> rfl

/-- **A request that passes the checks** keeps the quotas. -/
theorem Kept.created {s : Imports} (h : Kept p s) {filenames : List String} {m' : Import}
    {w' : Option Workspace} (hcreated : Created p s filenames m' w') :
    Kept p (s.grow.put s.next (some m') w') := by
  have hlt : s.next < s.grow.next := Nat.lt_succ_self _
  obtain ⟨sourceName, phase, hproceeds⟩ := hcreated.proceeds
  have hnone : s.grow.workspace s.next = none := (h.sound.fresh s.next (Nat.le_refl _)).2
  refine ⟨h.sound.grow.put hlt hcreated.fits, ?_, ?_, ?_, ?_⟩
  · exact there_put (s := s.grow) h.there (hproceeds.tidy.there _ rfl)
  · have hgrow : NoneLeft s.grow := h.noneLeft
    exact (noneLeft_put hgrow).mpr (hproceeds.tidy.gone _ rfl)
  · have hput := total_put hlt (some m') w' occupied
    rw [hnone, total_grow h.sound occupied rfl] at hput
    have hone := occupied_le_one w'
    have hcount : s.total occupied < p.maxImportedWorkspaces := hcreated.count
    show Imports.total _ occupied ≤ _
    have hzero : occupied none = 0 := rfl
    omega
  · have hput := total_put hlt (some m') w' Imports.size
    rw [hnone, total_grow h.sound Imports.size rfl] at hput
    have hsize := hproceeds.size_le
    have hempty : Imports.size (some ⟨[]⟩) = 0 := rfl
    have hstorage : s.total Imports.size < p.maxImportedStorageBytes := hcreated.storage
    show Imports.total _ Imports.size ≤ _
    have hzero : Imports.size none = 0 := rfl
    omega

/-- **An undisturbed step of an import** keeps the quotas. -/
theorem Kept.moved {s : Imports} (h : Kept p s) {i : Nat} {m m' : Import} {w' : Option Workspace}
    {a : ImportAction} (hm : s.request i = some m) (hmoved : Moved p i m (s.workspace i) a m' w')
    (hok : Undisturbed p s a) : Kept p (s.put i (some m') w') := by
  obtain ⟨hcounts, hspares, hcleans⟩ := hok
  have hlt := h.sound.lt_next hm
  have hfits : Fits p (some m) (s.workspace i) := by
    rw [← hm]
    exact h.sound.fits i
  refine ⟨h.sound.put hlt (hmoved.fits hfits), ?_, ?_, ?_, ?_⟩
  · exact there_put h.there (hmoved.there hm hspares (h.there i m hm))
  · rw [noneLeft_put h.noneLeft]
    exact (hmoved.cleansUp_iff hm (h.noneLeft i m hm)).mpr hcleans
  · have hput := total_put hlt (some m') w' occupied
    have hle := hmoved.occupied_le (h.there i m hm)
    have hcount : s.total occupied ≤ p.maxImportedWorkspaces := h.count
    show Imports.total _ occupied ≤ _
    omega
  · have hput := total_put hlt (some m') w' Imports.size
    have hstorage : s.total Imports.size ≤ p.maxImportedStorageBytes := h.storage
    show Imports.total _ Imports.size ≤ _
    have hgone : a = .cancel i → s.workspace i = none := by
      intro ha
      rw [ha] at hcleans
      exact hcleans
    rcases hmoved.size_le hfits hgone with hsize | ⟨hstores, hmax⟩
    · omega
    · -- the others hold no more than the import counted
      have hothers : s.others i ≤ m.storageBytes := by
        have hsubject := hmoved.subject_eq (s := s)
        have hagree := hcounts m
        rw [hsubject] at hagree
        exact hagree hm hstores
      have hsplit : s.total Imports.size = Imports.size (s.workspace i) + s.others i :=
        s.storage_eq hlt
      omega

/-- An undisturbed step -/
theorem Kept.step {s s' : Imports} (h : Kept p s) {a : ImportAction} (hok : Undisturbed p s a)
    (hs : (importer p).step s a = some s') : Kept p s' := by
  rcases step_cases hs with ⟨_, refused, rfl⟩ | ⟨_, filenames, m', w', rfl, hcreated⟩ |
    ⟨i, m, m', w', hm, rfl, hmoved⟩ | ⟨i, hm, hw⟩
  · exact ⟨⟨h.sound.fresh, h.sound.fits⟩, h.there, h.noneLeft, h.count, h.storage⟩
  · exact h.created hcreated
  · exact h.moved hm hmoved hok
  · have howned := (h.sound.fits i).owned hw
    rw [hm] at howned
    cases howned

/-! ## The quotas -/

/-- A step leaves the other workspaces as they are. -/
theorem others_untouched {s s' : Imports} (hsound : Sound p s) {a : ImportAction}
    (hs : (importer p).step s a = some s') {j : Nat} (hj : j ≠ a.subject s) :
    s'.workspace j = s.workspace j := by
  rcases step_cases hs with ⟨_, refused, rfl⟩ |
    ⟨⟨filenames, mkdirFails, refuses, rfl⟩, _, m', w', rfl, hcreated⟩ |
    ⟨i, m, m', w', hm, rfl, hmoved⟩ | ⟨i, hm, hw⟩
  · rfl
  · exact (Imports.sameBut_put s.grow s.next (some m') w').2 j hj
  · rw [hmoved.subject_eq] at hj
    exact (Imports.sameBut_put s i (some m') w').2 j hj
  · have howned := (hsound.fits i).owned hw
    rw [hm] at howned
    cases howned

/-- **The quotas of the imports.** In every run each workspace keeps to the limits on one workspace,
    and a step touches no workspace but the one it is about. In every state that undisturbed steps
    reach, the limits on all workspaces hold and no failed import has left a directory; and from
    there a step leaves one exactly when it does not clean up. -/
theorem import_quotas {s : Imports} (h : (importer p).Reach Lts.Anything .start s) :
    (∀ i w, s.workspace i = some w →
      w.files.length ≤ p.maxImportedFiles ∧ w.bytes ≤ p.maxImportedBytes) ∧
    (∀ a s', (importer p).step s a = some s' → ∀ j, j ≠ a.subject s →
      s'.workspace j = s.workspace j) ∧
    ((importer p).Reach (Undisturbed p) .start s →
      s.count ≤ p.maxImportedWorkspaces ∧ s.storage ≤ p.maxImportedStorageBytes ∧ NoneLeft s ∧
        ∀ a s', (importer p).step s a = some s' → (NoneLeft s' ↔ CleansUp s a)) := by
  have hsound := sound_reach h
  refine ⟨fun i w hw => ?_, fun a s' hs j hj => others_untouched hsound hs hj, fun hquiet => ?_⟩
  · have hfits := hsound.fits i
    rw [hw] at hfits
    obtain ⟨m, hm⟩ := Option.isSome_iff_exists.mp (hfits.owned rfl)
    obtain ⟨hcount, hmax⟩ := hfits.files m hm
    have hfiles : w.files.length + m.pending ≤ m.files := hcount
    have hbytes : w.bytes + m.buffered ≤ p.maxImportedBytes := hfits.bytes m hm
    exact ⟨by omega, by omega⟩
  · have hkept : Kept p s :=
      hquiet.invariant kept_start fun _ _ _ hkept hok hs => hkept.step hok hs
    exact ⟨hkept.count, hkept.storage, hkept.noneLeft,
      fun a s' hs => noneLeft_step_iff hsound hkept.noneLeft hs⟩

/-- The constants of the source, with the ASCII part of `str.lower` and the buffer of a file system
    with blocks of 4 KiB -/
def codingImports : ImportSettings where
  maxImportedFiles := 300
  maxImportedBytes := 20 * 1024 * 1024
  maxImportedWorkspaces := 20
  maxImportedStorageBytes := 200 * 1024 * 1024
  importChunkBytes := 1024 * 1024
  bufferBytes := 4096
  specialSourceFiles := ["Dockerfile", "Makefile"]
  ignoredDirs := [".git", ".venv", "venv", "node_modules", "__pycache__", ".pytest_cache",
    ".mypy_cache", ".ruff_cache", "dist", "build", ".next", ".turbo"]
  textExtensions := [".py", ".ts", ".tsx", ".js", ".jsx", ".json", ".md", ".txt", ".yml", ".yaml",
    ".toml", ".ini", ".env", ".example", ".css", ".html", ".sql", ".sh", ".dockerfile"]
  lower name := String.ofList (name.toList.map Char.toLower)

def nothingRefused : List String → Bool := fun _ => false

/-- A folder with two files is uploaded. -/
def startFolder : ImportAction := .start ["a/b.py", "a/c.py"] false nothingRefused

/-- Eleven imports of 20 MiB that began when nothing was stored -/
def elevenImports : List ImportAction :=
  List.replicate 11 startFolder ++ (List.range 11).flatMap fun i =>
    List.replicate 20 (.chunk i (1024 * 1024))

/-- Twenty imports have begun; the first one's directory is deleted, another one begins, and the
    first one opens its second file. -/
def deletedUnderway : List ImportAction :=
  List.replicate 20 startFolder ++ [.delete 0, startFolder, .eof 0 nothingRefused]

/-- The task is cancelled at its first `upload.read`. -/
def cancelledImport : List ImportAction := [startFolder, .cancel 0, .close 0 false, .close 0 false]

/-- The import has failed. -/
def hasFailed (s : Imports) (i : Nat) : Bool :=
  match (s.request i).map Import.phase with
  | some (.failed _) => true
  | _ => false

/-- **None of the quotas holds in every run**: what is stored exceeds the limit, there are more
    workspaces than the limit, and a cancelled import leaves its directory. -/
theorem import_quotas_exceeded :
    (∃ s, (importer codingImports).Reach Lts.Anything .start s ∧ s.storage = 220 * 1024 * 1024 ∧
      s.storage > codingImports.maxImportedStorageBytes) ∧
    (∃ s, (importer codingImports).Reach Lts.Anything .start s ∧ s.count = 21 ∧
      s.count > codingImports.maxImportedWorkspaces) ∧
    ∃ s, (importer codingImports).Reach Lts.Anything .start s ∧ hasFailed s 0 = true ∧
      (s.workspace 0).isSome = true := by
  refine ⟨?_, ?_, ?_⟩
  · obtain ⟨s, hs, hp⟩ := (importer codingImports).exists_of_run .start elevenImports
      (P := fun s => decide (s.storage = 220 * 1024 * 1024)) (by decide +kernel)
    have hstorage := of_decide_eq_true hp
    refine ⟨s, hs, hstorage, ?_⟩
    rw [hstorage]
    decide
  · obtain ⟨s, hs, hp⟩ := (importer codingImports).exists_of_run .start deletedUnderway
      (P := fun s => decide (s.count = 21)) (by decide +kernel)
    have hcount := of_decide_eq_true hp
    refine ⟨s, hs, hcount, ?_⟩
    rw [hcount]
    decide
  · obtain ⟨s, hs, hp⟩ := (importer codingImports).exists_of_run .start cancelledImport
      (P := fun s => hasFailed s 0 && (s.workspace 0).isSome) (by decide +kernel)
    exact ⟨s, hs, Bool.and_eq_true_iff.mp hp⟩

/-- A check of the condition -/
def undisturbed (s : Imports) : ImportAction → Bool
  | .chunk i _ => (s.request i).all fun m => decide (s.others i ≤ m.storageBytes)
  | .eof i _ => (s.request i).all fun m => decide (s.others i ≤ m.storageBytes)
  | .delete w => (s.request w).all fun m =>
      match m.phase with
      | .reading _ _ _ _ => false
      | _ => true
  | .cancel i => (s.workspace i).isNone
  | .raise i => (s.workspace i).isNone || (s.request i).all fun m =>
      match m.phase with
      | .reading _ _ _ _ => true
      | _ => false
  | .close i optionFails => !optionFails || (s.workspace i).isNone
  | _ => true

theorem undisturbed_of_check {s : Imports} {a : ImportAction} (h : undisturbed s a = true) :
    Undisturbed codingImports s a := by
  refine ⟨?_, ?_, ?_⟩
  · intro m hm hstores
    cases a with
    | chunk i size =>
      replace hm : s.request i = some m := hm
      simp only [undisturbed, hm, Option.all_some, decide_eq_true_eq] at h
      exact h
    | eof i refuses =>
      replace hm : s.request i = some m := hm
      simp only [undisturbed, hm, Option.all_some, decide_eq_true_eq] at h
      exact h
    | _ => exact absurd hstores (Nat.lt_irrefl 0)
  · cases a with
    | delete w =>
      rintro m hm ⟨path, linked, buffered, rest, hphase⟩
      simp only [undisturbed, hm, Option.all_some, hphase] at h
      cases h
    | _ => trivial
  · cases a with
    | cancel i => exact Option.isNone_iff_eq_none.mp h
    | raise i =>
      intro m hm
      simp only [undisturbed, hm, Option.all_some, Bool.or_eq_true, Option.isNone_iff_eq_none] at h
      rcases h with h | h
      · exact .inr h
      · split at h
        · exact .inl ⟨_, _, _, _, ‹_›⟩
        · cases h
    | close i optionFails =>
      intro hfails
      subst hfails
      exact Option.isNone_iff_eq_none.mp h
    | _ => trivial

/-- A completed import, and one that begins while bytes of the first are in its buffer, and whose
    reading raises -/
def twoImports : List ImportAction :=
  [startFolder, .chunk 0 5, startFolder, .chunk 1 3, .raise 1, .eof 0 nothingRefused, .chunk 0 7,
    .close 1 false, .eof 0 nothingRefused, .close 0 false, .close 0 false, .close 1 false]

theorem import_quotas_twoImports : ∃ s, (importer codingImports).Reach (Undisturbed codingImports) .start s ∧
    s.count = 1 ∧ s.storage = 12 ∧ hasFailed s 1 = true ∧ NoneLeft s := by
  have hrun : ((importer codingImports).runChecked undisturbed twoImports .start).any
      (fun s => decide (s.count = 1) && decide (s.storage = 12) && hasFailed s 1) = true := by
    decide +kernel
  obtain ⟨s, hs, hp⟩ := (Option.any_eq_true ..).mp hrun
  simp only [Bool.and_eq_true, decide_eq_true_eq] at hp
  have hquiet : (importer codingImports).Reach (Undisturbed codingImports) .start s :=
    Lts.Reach.start.of_runChecked (fun _ _ => undisturbed_of_check) hs
  have hany : (importer codingImports).Reach Lts.Anything .start s :=
    Lts.Reach.start.of_runChecked (fun _ _ _ => trivial) hs
  exact ⟨s, hquiet, hp.1.1, hp.1.2, hp.2, ((import_quotas hany).2.2 hquiet).2.2.1⟩

end Coding

end HyChat
