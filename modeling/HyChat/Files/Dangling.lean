import HyChat.Files.Store

/-!
# Rows without an object

A committed row is left without its object in two ways: `create_from_path` removes the object of a
row it has committed, when the row cannot be refreshed; and `delete` removes the object and then
fails to commit the deletion of the row. Every other failure leaves the two stores in step.

How the equivalence is found. A step of either function is a sequence of operations on the session
and on the storage, each of which may fail; what matters in the end is whether a committed row is
without its object, so for each function its outcomes are computed as a function of the faults, and
the bad ones are named: `Loses` and `Strands`. They are conditions on the faults and on the state
before the step, and `createFromPath_sound_iff` and `delete_sound_iff` say that they are exact.

Why `Known` is needed. An object that is removed by compensation is the object of a key that was
drawn for this call; that no other row refers to it is true because keys are drawn fresh, which is
a fact about the whole run. `Known` carries it, together with what a call under way remembers of
its row.

What is not said: that no object is without a row. The code leaves such objects in several places,
and a store that has too many objects serves no one a broken file.
-/

set_option autoImplicit false

namespace HyChat

open Lib

namespace Files

open Rest (StoredFile)

variable {s s' : FileStore} {row : StoredFile}

/-- Every committed row refers to an object. -/
def Sound (s : FileStore) : Prop := ∀ row ∈ s.rows, row.objectKey ∈ s.objects

/-! ## Sessions -/

/-- The same rows and objects -/
def SameFiles (s s' : FileStore) : Prop := s'.rows = s.rows ∧ s'.objects = s.objects

/-- Soundness is about files only. -/
theorem SameFiles.sound (h : SameFiles s s') (hs : Sound s) : Sound s' := by
  obtain ⟨hrows, hobjects⟩ := h
  unfold Sound
  rw [hrows, hobjects]
  exact hs

/-- What changes no file changes none twice. -/
theorem SameFiles.trans {s'' : FileStore} (h : SameFiles s s') (h' : SameFiles s' s'') :
    SameFiles s s'' :=
  ⟨h'.1.trans h.1, h'.2.trans h.2⟩

/-- How a commit ends: it has flushed, or nothing is committed. -/
theorem commit_cases (s : FileStore) (outcome : CommitOutcome)
    (flush : List StoredFile → List StoredFile) :
    (s.needsRollback = false ∧ outcome = .commits ∧
        s.commit outcome flush = (true, { s with rows := flush s.rows, loaded := [] })) ∨
      (¬(s.needsRollback = false ∧ outcome = .commits) ∧ (s.commit outcome flush).1 = false ∧
        SameFiles s (s.commit outcome flush).2) := by
  unfold FileStore.commit
  cases hneeds : s.needsRollback with
  | true => exact .inr ⟨fun h => Bool.noConfusion h.1, rfl, rfl, rfl⟩
  | false =>
    cases outcome with
    | commits => exact .inl ⟨rfl, rfl, rfl⟩
    | flushFails => exact .inr ⟨fun h => CommitOutcome.noConfusion h.2, rfl, rfl, rfl⟩
    | commitFails => exact .inr ⟨fun h => CommitOutcome.noConfusion h.2, rfl, rfl, rfl⟩

/-- A commit that flushes no file -/
theorem sameFiles_commit (s : FileStore) (outcome : CommitOutcome) :
    SameFiles s (s.commit outcome id).2 := by
  rcases commit_cases s outcome id with ⟨_, _, h⟩ | ⟨_, _, h⟩
  · rw [h]
    exact ⟨rfl, rfl⟩
  · exact h

/-- The `try` statement of an ingestion touches no file. -/
theorem sameFiles_process (f : IngestFaults) (row : StoredFile) (s : FileStore) :
    SameFiles s (process f row s).2 := by
  unfold process
  split
  · have hlast := sameFiles_commit s f.lastCommit
    split
    · rename_i s₁ hcommit
      rw [hcommit] at hlast
      split
      · exact hlast
      · exact hlast.trans (sameFiles_commit s₁ f.failCommit)
    · rename_i s₁ hcommit
      rw [hcommit] at hlast
      exact hlast.trans (sameFiles_commit s₁ f.failCommit)
  · exact sameFiles_commit s f.failCommit

/-- Neither does creating the document. -/
theorem sameFiles_createDocument (f : IngestFaults) (row : StoredFile) (s : FileStore) :
    SameFiles s (createDocument f row s).2 := by
  have hcreate := sameFiles_commit s f.createCommit
  unfold createDocument
  split
  · rename_i s₁ hcommit
    rw [hcommit] at hcreate
    split
    · exact hcreate.trans (sameFiles_process f row s₁)
    · exact hcreate
  · rename_i s₁ hcommit
    rw [hcommit] at hcreate
    exact hcreate

/-- **An ingestion** touches neither the rows nor the objects. -/
theorem sameFiles_ingestFile (f : IngestFaults) (row : StoredFile) (s : FileStore) :
    SameFiles s (ingestFile f row s).2 := by
  unfold ingestFile
  split
  · exact ⟨rfl, rfl⟩
  · exact ⟨rfl, rfl⟩
  · exact sameFiles_createDocument f row s
  · have hdelete := sameFiles_commit s f.deleteCommit
    split
    · rename_i s₁ hcommit
      rw [hcommit] at hdelete
      exact hdelete.trans (sameFiles_createDocument f row s₁)
    · rename_i s₁ hcommit
      rw [hcommit] at hdelete
      exact hdelete

/-! ## `create_from_path` and `delete` -/

/-- The row is committed, and the object is removed because the row cannot be refreshed. -/
def Loses (s : FileStore) (f : CreateFaults) : Prop :=
  f.put = .stored ∧ s.needsRollback = false ∧ f.commit = .commits ∧ f.refreshes = false ∧
    f.compensates = true

/-- The object of a committed row is removed, and the deletion of the row is not committed. -/
def Strands (s : FileStore) (row : StoredFile) (f : DeleteFaults) : Prop :=
  row ∈ s.rows ∧ s.reads f.selects row = true ∧ f.deletes = true ∧
    ¬(s.needsRollback = false ∧ f.commit = .commits)

/-- An object more does no harm. -/
theorem sound_putObject (hs : Sound s) (key : String) : Sound (s.putObject key) :=
  fun r hr => List.mem_cons_of_mem _ (hs r hr)

/-- Removing an object leaves the rows that have another key. -/
theorem sound_deleteObject (hs : Sound s) {key : String} (h : ∀ r ∈ s.rows, r.objectKey ≠ key) :
    Sound (s.deleteObject key) := by
  intro r hr
  refine List.mem_filter.mpr ⟨hs r hr, ?_⟩
  exact decide_eq_true (h r hr)

/-- One row without an object is enough. -/
theorem not_sound_of_mem {key : String} (hrow : row ∈ s'.rows) (hkey : row.objectKey = key)
    (hobjects : s'.objects = s.objects.filter fun other => other ≠ key) : ¬Sound s' := by
  intro hs
  have hmem := hs row hrow
  rw [hobjects, hkey] at hmem
  have hne := (List.mem_filter.mp hmem).2
  simp at hne

/-- Undoing changes nothing committed. -/
theorem sound_rollback (hs : Sound s) : Sound s.rollback := hs

/-- Removing the object of a row that was never committed -/
theorem compensate_sound {f : CreateFaults} (hs : Sound s)
    (hfresh : ∀ r ∈ s.rows, r.objectKey ≠ row.objectKey) : Sound (compensate f row s).2 := by
  unfold compensate
  simp only
  split
  · exact sound_deleteObject (sound_rollback hs) hfresh
  · exact sound_rollback hs

/-- **`create_from_path`** keeps the stores in step exactly when it does not lose its object. -/
theorem createFromPath_sound_iff {f : CreateFaults} (hs : Sound s)
    (hfresh : ∀ r ∈ s.rows, r.objectKey ≠ row.objectKey) :
    Sound (createFromPath f row s).2 ↔ ¬Loses s f := by
  unfold createFromPath
  cases hput : f.put with
  | raises left =>
    refine iff_of_true ?_ fun h => ?_
    · simp only
      split
      · exact sound_putObject hs _
      · exact hs
    · cases hput.symm.trans h.1
  | stored =>
    have hstored : Sound (s.putObject row.objectKey) := sound_putObject hs _
    simp only
    rcases commit_cases (s.putObject row.objectKey) f.commit (· ++ [row]) with
      ⟨hneeds, hcommits, hcommit⟩ | ⟨hnot, hraised, hsame⟩
    · rw [hcommit]
      simp only
      have hflushed : Sound { s.putObject row.objectKey with
          rows := (s.putObject row.objectKey).rows ++ [row], loaded := [] } := by
        intro r hr
        rcases List.mem_append.mp hr with hr | hr
        · exact hstored r hr
        · rw [List.mem_singleton.mp hr]
          exact List.mem_cons_self
      cases hrefresh : f.refreshes with
      | true =>
        refine iff_of_true hflushed fun h => ?_
        rw [h.2.2.2.1] at hrefresh
        cases hrefresh
      | false =>
        cases hcompensates : f.compensates with
        | true =>
          refine iff_of_false ?_ fun h => h ⟨hput, hneeds, hcommits, hrefresh, hcompensates⟩
          simp only [Bool.false_eq_true, if_false, compensate, hcompensates, if_true]
          exact not_sound_of_mem (s := s.putObject row.objectKey)
            (List.mem_append_right _ (List.mem_singleton.mpr rfl)) rfl rfl
        | false =>
          refine iff_of_true ?_ fun h => ?_
          · simp only [Bool.false_eq_true, if_false, compensate, hcompensates]
            exact sound_rollback hflushed
          · rw [h.2.2.2.2] at hcompensates
            cases hcompensates
    · rcases hresult : (s.putObject row.objectKey).commit f.commit (· ++ [row]) with ⟨ok, s₁⟩
      rw [hresult] at hraised hsame
      cases hraised
      refine iff_of_true ?_ fun h => hnot ⟨h.2.1, h.2.2.1⟩
      apply compensate_sound (hsame.sound hstored)
      rw [hsame.1]
      exact hfresh

/-- What a creation does to the committed rows -/
theorem rows_createFromPath (f : CreateFaults) (row : StoredFile) (s : FileStore) :
    ∀ r ∈ (createFromPath f row s).2.rows, r ∈ s.rows ∨ r = row := by
  intro r hr
  have hcompensate : ∀ s₁ : FileStore, (compensate f row s₁).2.rows = s₁.rows := by
    intro s₁
    unfold compensate
    simp only
    split <;> rfl
  unfold createFromPath at hr
  split at hr
  · simp only at hr
    split at hr <;> exact .inl hr
  · rcases commit_cases (s.putObject row.objectKey) f.commit (· ++ [row]) with
      ⟨hneeds, hcommits, hcommit⟩ | ⟨hnot, hraised, hsame⟩
    · rw [hcommit] at hr
      have hflushed : r ∈ s.rows ++ [row] := by
        simp only at hr
        split at hr
        · exact hr
        · rw [hcompensate] at hr
          exact hr
      rcases List.mem_append.mp hflushed with h | h
      · exact .inl h
      · exact .inr (List.mem_singleton.mp h)
    · rcases hresult : (s.putObject row.objectKey).commit f.commit (· ++ [row]) with ⟨ok, s₁⟩
      rw [hresult] at hraised hsame hr
      cases hraised
      simp only at hr
      rw [hcompensate, hsame.1] at hr
      exact .inl hr

/-- **`FileService.delete`** keeps the stores in step exactly when it does not strand its row. -/
theorem delete_sound_iff {f : DeleteFaults} (hs : Sound s)
    (hkey : ∀ r ∈ s.rows, r.id = row.id ∨ r.objectKey = row.objectKey → r = row) :
    Sound (delete f row s).2 ↔ ¬Strands s row f := by
  unfold delete
  cases hreads : s.reads f.selects row with
  | false =>
    refine iff_of_true hs fun h => ?_
    rw [h.2.1] at hreads
    cases hreads
  | true =>
    simp only [if_true]
    cases hdeletes : f.deletes with
    | false =>
      refine iff_of_true hs fun h => ?_
      rw [h.2.2.1] at hdeletes
      cases hdeletes
    | true =>
      simp only [if_true]
      rcases commit_cases ((s.load row.id).deleteObject row.objectKey) f.commit
          (fun rows => rows.filter fun other => other.id ≠ row.id) with
        ⟨hneeds, hcommits, hcommit⟩ | ⟨hnot, hraised, hsame⟩
      · rw [hcommit]
        refine iff_of_true ?_ fun h => h.2.2.2 ⟨hneeds, hcommits⟩
        intro r hr
        obtain ⟨hr, hne⟩ := List.mem_filter.mp hr
        refine List.mem_filter.mpr ⟨hs r hr, decide_eq_true fun he => ?_⟩
        rw [hkey r hr (.inr he)] at hne
        simp at hne
      · by_cases hrow : row ∈ s.rows
        · refine iff_of_false ?_ fun h => h ⟨hrow, hreads, hdeletes, hnot⟩
          refine not_sound_of_mem (s := s) ?_ rfl hsame.2
          rw [hsame.1]
          exact hrow
        · refine iff_of_true ?_ fun h => hrow h.1
          have hloaded : Sound (s.load row.id) := hs
          exact hsame.sound (sound_deleteObject hloaded fun r hr he => hrow (hkey r hr (.inr he) ▸ hr))

/-- What a deletion does to the committed rows -/
theorem rows_delete (f : DeleteFaults) (row : StoredFile) (s : FileStore) :
    ∀ r ∈ (delete f row s).2.rows, r ∈ s.rows := by
  intro r hr
  unfold delete at hr
  split at hr
  · simp only at hr
    split at hr
    · rcases commit_cases ((s.load row.id).deleteObject row.objectKey) f.commit
          (fun rows => rows.filter fun other => other.id ≠ row.id) with
        ⟨hneeds, hcommits, hcommit⟩ | ⟨hnot, hraised, hsame⟩
      · rw [hcommit] at hr
        exact (List.mem_filter.mp hr).1
      · rw [hsame.1] at hr
        exact hr
    · exact hr
  · exact hr

/-! ## Runs -/

/-- The row of a call that is under way -/
def Upload.row? : Upload → Option StoredFile
  | .idle => none
  | .stored row => some row
  | .ingested row _ => some row
  | .kept row => some row
  | .raised row => some row

/-- Ids and keys tell the rows apart, and nothing but rows that have been made is committed or
    uploaded. -/
structure Known (s : FileState) : Prop where
  unique : ∀ a ∈ s.made, ∀ b ∈ s.made, a.id = b.id ∨ a.objectKey = b.objectKey → a = b
  rows : ∀ row ∈ s.store.rows, row ∈ s.made
  upload : ∀ row, s.upload.row? = some row → row ∈ s.made

/-- Nothing was made. -/
theorem known_start : Known .start :=
  ⟨fun _ h => (nomatch h), fun _ h => (nomatch h), fun _ h => (nomatch h)⟩

/-- A row with the id or the key of one that was made is that one. -/
theorem Known.keys {s : FileState} (h : Known s) (hrow : row ∈ s.made) :
    ∀ r ∈ s.store.rows, r.id = row.id ∨ r.objectKey = row.objectKey → r = row :=
  fun r hr he => h.unique r (h.rows r hr) row hrow he

/-- A key that is fresh is no row's. -/
theorem Known.fresh {s : FileState} (h : Known s) (hfresh : s.isFresh row = true) :
    ∀ r ∈ s.store.rows, r.objectKey ≠ row.objectKey := by
  intro r hr
  have hmade := List.all_eq_true.mp hfresh r (h.rows r hr)
  exact of_decide_eq_true (Bool.and_eq_true_iff.mp hmade).2

/-- The session and the call change; no row is added. -/
theorem Known.next {s : FileState} (h : Known s) {store : FileStore} {upload : Upload}
    (hrows : ∀ r ∈ store.rows, r ∈ s.store.rows)
    (hupload : ∀ row, upload.row? = some row → s.upload.row? = some row) :
    Known ⟨store, upload, s.made⟩ :=
  ⟨h.unique, fun r hr => h.rows r (hrows r hr), fun r hr => h.upload r (hupload r hr)⟩

/-- A row is made, and may be committed or uploaded from now on. -/
theorem Known.made {s : FileState} (h : Known s) (hfresh : s.isFresh row = true) {store : FileStore}
    {upload : Upload} (hrows : ∀ r ∈ store.rows, r ∈ s.store.rows ∨ r = row)
    (hupload : ∀ r, upload.row? = some r → r = row) : Known ⟨store, upload, row :: s.made⟩ := by
  have hdiffers : ∀ b ∈ s.made, ¬(b.id = row.id ∨ b.objectKey = row.objectKey) := by
    intro b hb he
    have hmade := List.all_eq_true.mp hfresh b hb
    rw [Bool.and_eq_true_iff] at hmade
    rcases he with he | he
    · exact of_decide_eq_true hmade.1 he
    · exact of_decide_eq_true hmade.2 he
  refine ⟨fun a ha b hb he => ?_, fun r hr => ?_, fun r hr => ?_⟩
  · rcases List.mem_cons.mp ha with hrow | hold
    · rcases List.mem_cons.mp hb with hrow' | hold'
      · exact hrow.trans hrow'.symm
      · rw [hrow] at he
        exact absurd (he.imp Eq.symm Eq.symm) (hdiffers b hold')
    · rcases List.mem_cons.mp hb with hrow' | hold'
      · rw [hrow'] at he
        exact absurd he (hdiffers a hold)
      · exact h.unique a hold b hold' he
  · rcases hrows r hr with hr | rfl
    · exact List.mem_cons_of_mem _ (h.rows r hr)
    · exact List.mem_cons_self
  · rw [hupload r hr]
    exact List.mem_cons_self

/-- The condition: no creation loses its object, and no deletion strands its row. -/
def Careful (s : FileState) : FileAction → Prop
  | .create _ f => ¬Loses s.store f
  | .upload _ f => ¬Loses s.store f
  | .delete row f => ¬Strands s.store row f
  | .compare selects f => ∀ row storedFileId, s.upload = .ingested row storedFileId →
      s.store.reads selects row = true → storedFileId ≠ some row.id →
        ¬Strands (s.store.load row.id) row f
  | .cleanUp f => ∀ row, s.upload = .raised row → ¬Strands s.store row f
  | _ => True

/-- `create_from_path` within a run -/
theorem known_createStep {s : FileState} (h : Known s) (hfresh : s.isFresh row = true)
    (f : CreateFaults) {next : Upload} (hnext : ∀ r, next.row? = some r → r = row) :
    Known (createStep s row f next) := by
  have hrows := rows_createFromPath f row s.store
  unfold createStep
  split
  · rename_i store hcreate
    rw [hcreate] at hrows
    exact h.made hfresh hrows hnext
  · rename_i store hcreate
    rw [hcreate] at hrows
    exact h.made hfresh hrows fun r hr => by cases hr

/-- The step of a creation, in a run -/
theorem sound_createStep_iff {s : FileState} (h : Known s) (hs : Sound s.store)
    (hfresh : s.isFresh row = true) (f : CreateFaults) (next : Upload) :
    Sound (createStep s row f next).store ↔ ¬Loses s.store f := by
  rw [← createFromPath_sound_iff hs (h.fresh hfresh)]
  unfold createStep
  split
  · rename_i store hcreate
    rw [hcreate]
  · rename_i store hcreate
    rw [hcreate]

/-- A step of any call keeps what is known. -/
theorem known_step {s s' : FileState} (h : Known s) {a : FileAction}
    (hs : fileCalls.step s a = some s') : Known s' := by
  obtain ⟨store, upload, made⟩ := s
  cases upload with
  | idle =>
    cases a with
    | newSession =>
      cases hs
      exact h.next (fun _ hr => hr) fun _ hr => hr
    | rollback =>
      cases hs
      exact h.next (fun _ hr => hr) fun _ hr => hr
    | get row =>
      simp only [fileCalls] at hs
      split at hs
      · cases hs
        exact h.next (fun _ hr => hr) fun _ hr => hr
      · cases hs
    | create row f =>
      simp only [fileCalls] at hs
      split at hs
      · rename_i hfresh
        cases hs
        exact known_createStep h hfresh f fun r hr => by cases hr
      · cases hs
    | delete row f =>
      simp only [fileCalls] at hs
      split at hs
      · cases hs
        exact h.next (rows_delete f row store) fun _ hr => hr
      · cases hs
    | upload row f =>
      simp only [fileCalls] at hs
      split at hs
      · rename_i hfresh
        cases hs
        exact known_createStep h hfresh f fun r hr => (Option.some.inj hr).symm
      · cases hs
    | _ => cases hs
  | stored row =>
    cases a with
    | ingest f =>
      cases hs
      have hrows : ∀ r ∈ (ingestFile f row store).2.rows, r ∈ store.rows := by
        intro r hr
        rw [(sameFiles_ingestFile f row store).1] at hr
        exact hr
      unfold ingestStep
      simp only
      split
      · rename_i storedFileId store' hingest
        rw [hingest] at hrows
        exact h.next hrows fun _ hr => hr
      · rename_i store' hingest
        rw [hingest] at hrows
        exact h.next hrows fun _ hr => hr
    | _ => cases hs
  | ingested row storedFileId =>
    cases a with
    | compare selects f =>
      cases hs
      unfold compareStep
      simp only
      split
      · split
        · exact h.next (fun _ hr => hr) fun _ hr => hr
        · have hrows := rows_delete f row (store.load row.id)
          split
          · rename_i store' hdelete
            rw [hdelete] at hrows
            exact h.next hrows fun _ hr => (nomatch hr)
          · rename_i store' hdelete
            rw [hdelete] at hrows
            exact h.next hrows fun _ hr => hr
      · exact h.next (fun _ hr => hr) fun _ hr => hr
    | _ => cases hs
  | kept row =>
    cases a with
    | serialize succeeds =>
      cases hs
      refine h.next (fun _ hr => hr) fun r hr => ?_
      cases succeeds with
      | true => cases hr
      | false => exact hr
    | _ => cases hs
  | raised row =>
    cases a with
    | cleanUp f =>
      cases hs
      have hrows := rows_delete f row store
      unfold cleanUpStep
      simp only
      split
      · rename_i store' hdelete
        rw [hdelete] at hrows
        exact h.next hrows fun _ hr => (nomatch hr)
      · rename_i store' hdelete
        rw [hdelete] at hrows
        exact h.next hrows fun _ hr => (nomatch hr)
    | _ => cases hs

/-- **A step keeps the stores in step** exactly when it is careful. -/
theorem sound_step_iff {s s' : FileState} (h : Known s) (hsound : Sound s.store) {a : FileAction}
    (hs : fileCalls.step s a = some s') : Sound s'.store ↔ Careful s a := by
  obtain ⟨store, upload, made⟩ := s
  cases upload with
  | idle =>
    cases a with
    | newSession =>
      cases hs
      exact iff_of_true hsound trivial
    | rollback =>
      cases hs
      exact iff_of_true hsound trivial
    | get row =>
      simp only [fileCalls] at hs
      split at hs
      · cases hs
        exact iff_of_true hsound trivial
      · cases hs
    | create row f =>
      simp only [fileCalls] at hs
      split at hs
      · rename_i hfresh
        cases hs
        exact sound_createStep_iff h hsound hfresh f _
      · cases hs
    | delete row f =>
      simp only [fileCalls] at hs
      split at hs
      · rename_i hmade
        cases hs
        exact delete_sound_iff hsound (h.keys (List.contains_iff_mem.mp hmade))
      · cases hs
    | upload row f =>
      simp only [fileCalls] at hs
      split at hs
      · rename_i hfresh
        cases hs
        exact sound_createStep_iff h hsound hfresh f _
      · cases hs
    | _ => cases hs
  | stored row =>
    cases a with
    | ingest f =>
      cases hs
      refine iff_of_true ?_ trivial
      have hingested := (sameFiles_ingestFile f row store).sound hsound
      unfold ingestStep
      simp only
      split
      · rename_i storedFileId store' hingest
        rw [hingest] at hingested
        exact hingested
      · rename_i store' hingest
        rw [hingest] at hingested
        exact hingested
    | _ => cases hs
  | ingested row storedFileId =>
    cases a with
    | compare selects f =>
      cases hs
      have hkeys := h.keys (h.upload row rfl)
      have hdelete := delete_sound_iff (f := f) (s := store.load row.id) hsound hkeys
      unfold compareStep
      simp only
      split
      · rename_i hreads
        split
        · rename_i hsame
          refine iff_of_true hsound fun row' storedFileId' hupload _ hne => ?_
          cases hupload
          exact absurd hsame hne
        · rename_i hne
          have hcareful : Careful ⟨store, .ingested row storedFileId, made⟩ (.compare selects f) ↔
              ¬Strands (store.load row.id) row f := by
            constructor
            · exact fun hall => hall row storedFileId rfl hreads hne
            · intro hnot row' storedFileId' hupload _ _
              cases hupload
              exact hnot
          rw [hcareful, ← hdelete]
          split
          · rename_i store' hresult
            rw [hresult]
          · rename_i store' hresult
            rw [hresult]
      · rename_i hreads
        refine iff_of_true hsound fun row' storedFileId' hupload hreads' _ => ?_
        cases hupload
        exact absurd hreads' hreads
    | _ => cases hs
  | kept row =>
    cases a with
    | serialize succeeds =>
      cases hs
      exact iff_of_true hsound trivial
    | _ => cases hs
  | raised row =>
    cases a with
    | cleanUp f =>
      cases hs
      have hdelete := delete_sound_iff (f := f) hsound (h.keys (h.upload row rfl))
      have hcareful : Careful ⟨store, .raised row, made⟩ (.cleanUp f) ↔ ¬Strands store row f := by
        constructor
        · exact fun hall => hall row rfl
        · intro hnot row' hupload
          cases hupload
          exact hnot
      rw [hcareful, ← hdelete]
      unfold cleanUpStep
      simp only
      split
      · rename_i store' hresult
        rw [hresult]
      · rename_i store' hresult
        rw [hresult]
        exact Iff.rfl
    | _ => cases hs

/-- **File rows never dangle** as long as every step is careful, also between the steps of an
    upload; and a step leaves a committed row without its object exactly when it is not. -/
theorem file_rows_never_dangle {s : FileState} (h : fileCalls.Reach Careful .start s) :
    Sound s.store ∧
      ∀ a s', fileCalls.step s a = some s' → (Sound s'.store ↔ Careful s a) := by
  have hboth : Known s ∧ Sound s.store := by
    refine h.invariant (I := fun s => Known s ∧ Sound s.store)
      ⟨known_start, fun _ hr => (nomatch hr)⟩ ?_
    intro s₁ a s₂ hs₁ hok hs
    obtain ⟨hknown, hsound⟩ := hs₁
    exact ⟨known_step hknown hs, (sound_step_iff hknown hsound hs).mpr hok⟩
  exact ⟨hboth.2, fun a s' hs => sound_step_iff hboth.1 hboth.2 hs⟩

/-! ## Two calls -/

def fileRow (id : String) : StoredFile where
  id := id
  userId := "u"
  conversationId := none
  filename := "notes.txt"
  contentType := "text/plain"
  sizeBytes := 7
  storageBackend := "local"
  objectKey := "users/u/" ++ id ++ ".txt"
  sha256 := "digest"
  createdAt := 0

/-- Nothing fails. -/
def created : CreateFaults := ⟨.stored, .commits, true, true⟩

def removed : DeleteFaults := ⟨true, true, .commits⟩

/-- A file is created, and the commit of its deletion fails. -/
def failedDeletion : List FileAction :=
  [.create (fileRow "f") created, .delete (fileRow "f") { removed with commit := .flushFails }]

/-- A file is created, and its row cannot be refreshed. -/
def failedRefresh : List FileAction := [.create (fileRow "f") { created with refreshes := false }]

/-- The actions lead to a row whose object is not there. -/
def LeaveDangling (actions : List FileAction) : Prop :=
  ∃ s, fileCalls.Reach Lts.Anything .start s ∧ fileCalls.run actions .start = some s ∧
    s.store.rows = [fileRow "f"] ∧ s.store.objects = [] ∧ ¬Sound s.store

theorem leaveDangling_of_run {actions : List FileAction}
    (h : (fileCalls.run actions .start).any (fun s =>
      decide (s.store.rows = [fileRow "f"]) && decide (s.store.objects = [])) = true) :
    LeaveDangling actions := by
  obtain ⟨s, hs, hp⟩ := (Option.any_eq_true ..).mp h
  rw [Bool.and_eq_true, decide_eq_true_eq, decide_eq_true_eq] at hp
  refine ⟨s, Lts.Reach.start.of_run (fun _ _ _ => trivial) hs, hs, hp.1, hp.2, ?_⟩
  intro hsound
  have hmem := hsound (fileRow "f") (by rw [hp.1]; exact List.mem_singleton.mpr rfl)
  rw [hp.2] at hmem
  cases hmem

/-- **A deletion whose commit fails** leaves the row without its object, and so does a creation
    whose row cannot be refreshed. -/
theorem file_row_dangles : LeaveDangling failedDeletion ∧ LeaveDangling failedRefresh := by
  constructor
  · exact leaveDangling_of_run (by decide)
  · exact leaveDangling_of_run (by decide)

instance (s : FileStore) (f : CreateFaults) : Decidable (Loses s f) :=
  inferInstanceAs (Decidable (_ ∧ _))

instance (s : FileStore) (row : StoredFile) (f : DeleteFaults) : Decidable (Strands s row f) :=
  inferInstanceAs (Decidable (_ ∧ _))

/-- A check of the condition -/
def careful (s : FileState) : FileAction → Bool
  | .create _ f => decide (¬Loses s.store f)
  | .upload _ f => decide (¬Loses s.store f)
  | .delete row f => decide (¬Strands s.store row f)
  | .compare _ f => s.upload.row?.all fun row => decide (¬Strands (s.store.load row.id) row f)
  | .cleanUp f => s.upload.row?.all fun row => decide (¬Strands s.store row f)
  | _ => true

theorem careful_of_check {s : FileState} {a : FileAction} (h : careful s a = true) : Careful s a := by
  cases a with
  | create row f =>
    have hnot : ¬Loses s.store f := of_decide_eq_true h
    exact hnot
  | upload row f =>
    have hnot : ¬Loses s.store f := of_decide_eq_true h
    exact hnot
  | delete row f =>
    have hnot : ¬Strands s.store row f := of_decide_eq_true h
    exact hnot
  | compare selects f =>
    intro row storedFileId hupload _ _
    simp only [careful, hupload, Upload.row?, Option.all_some] at h
    exact of_decide_eq_true h
  | cleanUp f =>
    intro row hupload
    simp only [careful, hupload, Upload.row?, Option.all_some] at h
    exact of_decide_eq_true h
  | _ => trivial

/-- A file is created; an upload finds a duplicate and fails to remove its object, and the `except`
    clause removes it. -/
def duplicateUpload : List FileAction :=
  [.create (fileRow "f") created, .newSession, .upload (fileRow "g") created,
    .ingest ⟨.settled (some "f"), true, .commits, .commits, true, true, .commits, true, .commits⟩,
    .compare true { removed with deletes := false }, .cleanUp removed]

theorem file_rows_never_dangle_duplicate : ∃ s, fileCalls.Reach Careful .start s ∧
    s.store.rows = [fileRow "f"] ∧ s.store.objects = [(fileRow "f").objectKey] ∧ Sound s.store := by
  have hrun : (fileCalls.runChecked careful duplicateUpload .start).any (fun s =>
      decide (s.store.rows = [fileRow "f"]) &&
        decide (s.store.objects = [(fileRow "f").objectKey])) = true := by decide
  obtain ⟨s, hs, hp⟩ := (Option.any_eq_true ..).mp hrun
  rw [Bool.and_eq_true, decide_eq_true_eq, decide_eq_true_eq] at hp
  have hreach : fileCalls.Reach Careful .start s :=
    Lts.Reach.start.of_runChecked (fun _ _ => careful_of_check) hs
  exact ⟨s, hreach, hp.1, hp.2, (file_rows_never_dangle hreach).1⟩

end Files

end HyChat
