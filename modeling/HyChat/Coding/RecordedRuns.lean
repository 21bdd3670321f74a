import HyChat.Coding.Trail

/-!
# Runs that are recorded together

Any number of runs of the coding agent write their rows into the same tables. A party's rows carry
the id its insert has drawn, so the tables and the histories of the parties stay together, and **the
rows of a run are those of its progress** (`runs_recorded`), whatever the other runs do.

Why parties and not runs. The row of a run gets its id from its insert, and the insert may be
committed without its answer coming back. Then there is a row whose run nobody goes on with, and a
party that has no run. So the tables are compared with the histories of the parties, one by one,
and `Linked` says for each party which rows are its own: those it has saved under the id it was
given. Ids are drawn fresh, so the rows of two parties are never mixed, and this is the only thing
the parties need to know of each other.

What "at any time" means. Every statement commits, so between two of them a run's rows are those of
a beginning of its work; `runs_recorded` names that beginning, a progress that the tools and the
model have given and whose order is the workflow's. A row that says success is closed with the
summary of a progress that has come all the way. What a run that breaks off leaves is said as well:
its rows so far, and its own row as it was, or closed as failed.
-/

set_option autoImplicit false

namespace HyChat

open Lib

namespace CodingAgent

open FileTools (Workspace)

variable {φ : Type}

/-! ## Runs that go on together -/

section

variable {ι : Type} [DecidableEq ι] {cfg : AgentSettings} {view : φ → Workspace} {s s' : Store ι}
  {i : ι} {statement : Statement} {r : Except Exn (Answer statement)}

/-- The rows of one run, as `get_coding_agent_run` selects them -/
def Store.rowsOf (s : Store ι) (runId : String) : List Row :=
  s.rows.filter fun row => row.runId == runId

/-- **A statement, inverted.** -/
theorem sem_cases (h : (agentRuns cfg view).sem i statement s r s') :
    ∃ ch : Choice φ, ch.id ∉ s.runs.map RunRow.id ∧ r = answered cfg view ch statement ∧
      s' = (s.execute ch.id ⟨statement, r⟩).record i ⟨statement, r⟩ := by
  obtain ⟨ch, hch⟩ := h
  simp only [agentRuns] at hch
  split at hch
  · cases hch
  · rename_i hfresh
    cases hch
    exact ⟨ch, hfresh, rfl, rfl⟩

omit [DecidableEq ι] in
/-- The tables change, the histories do not. -/
theorem execute_past (s : Store ι) (newId : String) (e : Event) :
    (s.execute newId e).past = s.past := by
  unfold Store.execute
  split
  · unfold Store.write
    split
    · rfl
    · rfl
    · rfl
    · rfl
    · rfl
  · rfl

/-- Every statement is recorded in the history of its party. -/
theorem recording : (agentRuns (ι := ι) cfg view).Recording Store.past := by
  refine ⟨fun h => ?_, fun _ _ => rfl⟩
  obtain ⟨ch, -, -, rfl⟩ := sem_cases h
  rw [Store.record, execute_past]
  rfl

/-- A tool answers from some state of the files. -/
theorem possible_of_sem (h : (agentRuns cfg view).sem i statement s r s') :
    Possible view statement r := by
  obtain ⟨ch, -, rfl, -⟩ := sem_cases h
  cases statement with
  | tool call =>
    intro output houtput
    unfold answered at houtput
    split at houtput
    · cases houtput
    · simp only [reply, toolAnswer] at houtput
      refine ⟨ch.files, ?_⟩
      cases hresult : (call.run (view ch.files)).result with
      | ok value =>
        rw [hresult] at houtput
        have hvalue : (Except.ok value : Except Exn Json) = .ok output := houtput
        rw [Except.ok.inj hvalue]
      | error e =>
        rw [hresult] at houtput
        cases houtput
  | _ => trivial

/-- The tables and the histories agree: every run has the rows its party has saved, and its row is
    the inserted one with what closed it. A row whose insert raised after its commit has no
    party. -/
structure Linked (s : Store ι) : Prop where
  listed : ∀ i, ∀ run ∈ inserted (s.past i), run.id ∈ s.runs.map RunRow.id
  apart : ∀ i j, ∀ run ∈ inserted (s.past i), ∀ run' ∈ inserted (s.past j), run.id = run'.id → i = j
  keyed : ∀ row ∈ s.rows, row.runId ∈ s.runs.map RunRow.id
  owned : ∀ run ∈ s.runs, ∀ i, ∀ new ∈ inserted (s.past i), new.id = run.id →
    s.rowsOf run.id = saved (s.past i) ∧
      run = (closings (s.past i)).foldl (fun run closed => run.close closed.2) new
  orphan : ∀ run ∈ s.runs, (∀ i, ∀ new ∈ inserted (s.past i), new.id ≠ run.id) →
    s.rowsOf run.id = [] ∧ run.status = "running"

omit [DecidableEq ι] in
/-- A run that was not inserted has no rows. -/
theorem rowsOf_of_fresh (h : Linked s) {runId : String} (hfresh : runId ∉ s.runs.map RunRow.id) :
    s.rowsOf runId = [] := by
  refine List.filter_eq_nil_iff.mpr fun row hrow hid => ?_
  rw [beq_iff_eq] at hid
  exact hfresh (hid ▸ h.keyed row hrow)

/-- A statement that writes nothing -/
theorem Linked.silent {e : Event} (h : Linked s) (hs : Silent (s.past i) (s.past i ++ [e])) :
    Linked (s.record i e) := by
  have hinserted : ∀ j, inserted ((s.record i e).past j) = inserted (s.past j) := by
    intro j
    rcases eq_or_ne j i with rfl | hj
    · simp only [Store.record, Function.update_self, hs.inserted]
    · simp only [Store.record, Function.update_of_ne hj]
  have hsaved : ∀ j, saved ((s.record i e).past j) = saved (s.past j) := by
    intro j
    rcases eq_or_ne j i with rfl | hj
    · simp only [Store.record, Function.update_self, hs.saved]
    · simp only [Store.record, Function.update_of_ne hj]
  have hclosings : ∀ j, closings ((s.record i e).past j) = closings (s.past j) := by
    intro j
    rcases eq_or_ne j i with rfl | hj
    · simp only [Store.record, Function.update_self, hs.closings]
    · simp only [Store.record, Function.update_of_ne hj]
  refine ⟨?_, ?_, h.keyed, ?_, ?_⟩
  · simp only [hinserted]
    exact h.listed
  · simp only [hinserted]
    exact h.apart
  · simp only [hinserted, hsaved, hclosings]
    exact h.owned
  · simp only [hinserted]
    exact h.orphan

theorem past_record_self (s : Store ι) (i : ι) (e : Event) :
    (s.record i e).past i = s.past i ++ [e] := Function.update_self ..

theorem past_record_of_ne {i j : ι} (h : j ≠ i) (s : Store ι) (e : Event) :
    (s.record i e).past j = s.past j := Function.update_of_ne h ..

/-- What an event is to the history it is added to -/
theorem histories_append (past : List Event) (e : Event) :
    inserted (past ++ [e]) = inserted past ++ (insertedRun e).toList ∧
      saved (past ++ [e]) = saved past ++ (savedRow e).toList ∧
        closings (past ++ [e]) = closings past ++ (closedRun e).toList := by
  refine ⟨?_, ?_, ?_⟩
  · rw [inserted_append]
    congr 1
  · rw [saved_append]
    congr 1
  · rw [closings_append]
    congr 1

/-- A party that has inserted its row saves one for it. -/
theorem Linked.save {e : Event} {row : Row} {new : RunRow} (h : Linked s)
    (hsaved : savedRow e = some row) (hinserted : insertedRun e = none)
    (hclosed : closedRun e = none) (hnew : inserted (s.past i) = [new]) (hid : row.runId = new.id) :
    Linked ({ s with rows := s.rows ++ [row] }.record i e) := by
  obtain ⟨hi, hs, hc⟩ := histories_append (s.past i) e
  rw [hinserted, Option.toList_none, List.append_nil] at hi
  rw [hclosed, Option.toList_none, List.append_nil] at hc
  have hinsert : ∀ j, inserted (({ s with rows := s.rows ++ [row] }.record i e).past j) =
      inserted (s.past j) := by
    intro j
    rcases eq_or_ne j i with rfl | hj
    · rw [past_record_self]
      exact hi
    · rw [past_record_of_ne hj]
  have hown : new ∈ inserted (s.past i) := by
    rw [hnew]
    exact List.mem_cons_self
  have hrows : ∀ runId, ({ s with rows := s.rows ++ [row] }.record i e).rowsOf runId =
      s.rowsOf runId ++ if row.runId = runId then [row] else [] := by
    intro runId
    refine (List.filter_append ..).trans ?_
    by_cases hrow : row.runId = runId
    · simp [Store.rowsOf, hrow]
    · simp [Store.rowsOf, hrow]
  refine ⟨?_, ?_, ?_, ?_, ?_⟩
  · simp only [hinsert]
    exact h.listed
  · simp only [hinsert]
    exact h.apart
  · intro row' hrow'
    rcases List.mem_append.mp hrow' with hrow' | hrow'
    · exact h.keyed row' hrow'
    · rw [List.mem_singleton.mp hrow', hid]
      exact h.listed i new hown
  · intro run hrun j new' hnew' hrunId
    rw [hinsert] at hnew'
    obtain ⟨hrowsOf, hclosings⟩ := h.owned run hrun j new' hnew' hrunId
    rw [hrows]
    rcases eq_or_ne j i with rfl | hj
    · rw [past_record_self, hs, hc, hsaved, hrowsOf]
      rw [hnew] at hnew'
      obtain rfl := List.mem_singleton.mp hnew'
      rw [if_pos (hid.trans hrunId)]
      exact ⟨rfl, hclosings⟩
    · have hother : row.runId ≠ run.id :=
        fun he => hj (h.apart j i new' hnew' new hown (hrunId.trans (he.symm.trans hid)))
      rw [past_record_of_ne hj, if_neg hother, List.append_nil]
      exact ⟨hrowsOf, hclosings⟩
  · intro run hrun hnone
    simp only [hinsert] at hnone
    obtain ⟨hrowsOf, hstatus⟩ := h.orphan run hrun hnone
    have hother : row.runId ≠ run.id := fun he => hnone i new hown (hid.symm.trans he)
    rw [hrows, if_neg hother, List.append_nil]
    exact ⟨hrowsOf, hstatus⟩

/-- Closing a run does not change its id. -/
theorem close_id (run : RunRow) (closing : Closing) : (run.close closing).id = run.id := by
  cases closing with
  | success output => rfl
  | failed message => rfl

/-- A party that has inserted its row closes it. -/
theorem Linked.close {e : Event} {runId : String} {closing : Closing} {new : RunRow} (h : Linked s)
    (hclosed : closedRun e = some (runId, closing)) (hinserted : insertedRun e = none)
    (hsaved : savedRow e = none) (hnew : inserted (s.past i) = [new]) (hid : runId = new.id) :
    Linked ({ s with runs := closeRuns runId closing s.runs }.record i e) := by
  obtain ⟨hi, hs, hc⟩ := histories_append (s.past i) e
  rw [hinserted, Option.toList_none, List.append_nil] at hi
  rw [hsaved, Option.toList_none, List.append_nil] at hs
  have hids : (closeRuns runId closing s.runs).map RunRow.id = s.runs.map RunRow.id := by
    rw [closeRuns, List.map_map]
    apply List.map_congr_left
    intro run _
    rw [Function.comp_apply]
    split
    · exact close_id run closing
    · rfl
  have hinsert : ∀ j, inserted (({ s with runs := closeRuns runId closing s.runs }.record
      i e).past j) = inserted (s.past j) := by
    intro j
    rcases eq_or_ne j i with rfl | hj
    · rw [past_record_self]
      exact hi
    · rw [past_record_of_ne hj]
  have hown : new ∈ inserted (s.past i) := by
    rw [hnew]
    exact List.mem_cons_self
  refine ⟨?_, ?_, ?_, ?_, ?_⟩
  · intro j run hrun
    rw [hinsert] at hrun
    have hlisted := h.listed j run hrun
    rw [← hids] at hlisted
    exact hlisted
  · simp only [hinsert]
    exact h.apart
  · intro row hrow
    have hkeyed := h.keyed row hrow
    rw [← hids] at hkeyed
    exact hkeyed
  · intro run hrun j new' hnew' hrunId
    rw [hinsert] at hnew'
    obtain ⟨old, hold, rfl⟩ := List.mem_map.mp hrun
    have holdId : (if old.id = runId then old.close closing else old).id = old.id := by
      split
      · exact close_id old closing
      · rfl
    rw [holdId] at hrunId
    obtain ⟨hrowsOf, hclosings⟩ := h.owned old hold j new' hnew' hrunId
    rw [holdId]
    rcases eq_or_ne j i with rfl | hj
    · rw [hnew] at hnew'
      obtain rfl := List.mem_singleton.mp hnew'
      rw [past_record_self, hs, hc, hclosed, if_pos (hrunId.symm.trans hid.symm)]
      refine ⟨hrowsOf, ?_⟩
      rw [Option.toList_some, List.foldl_append, ← hclosings]
      rfl
    · have hother : old.id ≠ runId :=
        fun he => hj (h.apart j i new' hnew' new hown (hrunId.trans (he.trans hid)))
      rw [past_record_of_ne hj, if_neg hother]
      exact ⟨hrowsOf, hclosings⟩
  · intro run hrun hnone
    simp only [hinsert] at hnone
    obtain ⟨old, hold, rfl⟩ := List.mem_map.mp hrun
    have hother : old.id ≠ runId := by
      intro he
      rw [if_pos he, close_id] at hnone
      exact hnone i new hown (hid.symm.trans he.symm)
    rw [if_neg hother] at hnone ⊢
    exact h.orphan old hold hnone

/-- A party that has written nothing inserts its row. -/
theorem Linked.insert {e : Event} {new : RunRow} (h : Linked s) (hinserted : insertedRun e = some new)
    (hsaved : savedRow e = none) (hclosed : closedRun e = none) (hnone : Untouched (s.past i))
    (hfresh : new.id ∉ s.runs.map RunRow.id) :
    Linked ({ s with runs := s.runs ++ [new] }.record i e) := by
  obtain ⟨hi, hs, hc⟩ := histories_append (s.past i) e
  rw [hinserted, hnone.inserted, List.nil_append, Option.toList_some] at hi
  rw [hsaved, hnone.saved, Option.toList_none, List.append_nil] at hs
  rw [hclosed, hnone.closings, Option.toList_none, List.append_nil] at hc
  -- of the rows that were inserted only the party's own has the new id
  have hold : ∀ j, j ≠ i → ∀ run ∈ inserted (s.past j), run.id ≠ new.id :=
    fun j _ run hrun he => hfresh (he ▸ h.listed j run hrun)
  have hcases : ∀ j run, run ∈ inserted (({ s with runs := s.runs ++ [new] }.record i e).past j) →
      j = i ∧ run = new ∨ j ≠ i ∧ run ∈ inserted (s.past j) := by
    intro j run hrun
    rcases eq_or_ne j i with rfl | hj
    · rw [past_record_self, hi] at hrun
      exact .inl ⟨rfl, List.mem_singleton.mp hrun⟩
    · rw [past_record_of_ne hj] at hrun
      exact .inr ⟨hj, hrun⟩
  refine ⟨?_, ?_, ?_, ?_, ?_⟩
  · intro j run hrun
    rw [Store.record, List.map_append, List.mem_append]
    rcases hcases j run hrun with ⟨-, rfl⟩ | ⟨-, hrun⟩
    · exact .inr List.mem_cons_self
    · exact .inl (h.listed j run hrun)
  · intro j k run hrun run' hrun' hid
    rcases hcases j run hrun with ⟨rfl, he⟩ | ⟨hj, hmem⟩
    · rcases hcases k run' hrun' with ⟨rfl, -⟩ | ⟨hk, hmem'⟩
      · rfl
      · rw [he] at hid
        exact absurd hid.symm (hold k hk run' hmem')
    · rcases hcases k run' hrun' with ⟨rfl, he⟩ | ⟨-, hmem'⟩
      · rw [he] at hid
        exact absurd hid (hold j hj run hmem)
      · exact h.apart j k run hmem run' hmem' hid
  · intro row hrow
    rw [Store.record, List.map_append, List.mem_append]
    exact .inl (h.keyed row hrow)
  · intro run hrun j new' hnew' hrunId
    rcases List.mem_append.mp hrun with hthere | hlast
    · rcases hcases j new' hnew' with ⟨rfl, he⟩ | ⟨hj, hmem⟩
      · rw [he] at hrunId
        exact absurd (List.mem_map.mpr ⟨run, hthere, hrunId.symm⟩) hfresh
      · rw [past_record_of_ne hj]
        exact h.owned run hthere j new' hmem hrunId
    · have he' := List.mem_singleton.mp hlast
      rcases hcases j new' hnew' with ⟨rfl, he⟩ | ⟨hj, hmem⟩
      · rw [past_record_self, hs, hc, he', he]
        exact ⟨rowsOf_of_fresh h hfresh, rfl⟩
      · rw [he'] at hrunId
        exact absurd hrunId (hold j hj new' hmem)
  · intro run hrun hno
    rcases List.mem_append.mp hrun with hrun | hrun
    · refine h.orphan run hrun fun j new' hnew' => ?_
      rcases eq_or_ne j i with rfl | hj
      · rw [hnone.inserted] at hnew'
        cases hnew'
      · refine hno j new' ?_
        rw [past_record_of_ne hj]
        exact hnew'
    · obtain rfl := List.mem_singleton.mp hrun
      refine absurd rfl (hno i run ?_)
      rw [past_record_self, hi]
      exact List.mem_cons_self

omit [DecidableEq ι] in
/-- The insert of a row is committed, and its party does not learn of it. -/
theorem Linked.lose (h : Linked s) (new : RunRow) (hfresh : new.id ∉ s.runs.map RunRow.id)
    (hstatus : new.status = "running") : Linked { s with runs := s.runs ++ [new] } := by
  have hold : ∀ j, ∀ run ∈ inserted (s.past j), run.id ≠ new.id :=
    fun j run hrun he => hfresh (he ▸ h.listed j run hrun)
  refine ⟨?_, h.apart, ?_, ?_, ?_⟩
  · intro j run hrun
    rw [List.map_append, List.mem_append]
    exact .inl (h.listed j run hrun)
  · intro row hrow
    rw [List.map_append, List.mem_append]
    exact .inl (h.keyed row hrow)
  · intro run hrun j new' hnew' hrunId
    rcases List.mem_append.mp hrun with hrun | hrun
    · exact h.owned run hrun j new' hnew' hrunId
    · obtain rfl := List.mem_singleton.mp hrun
      exact absurd hrunId (hold j new' hnew')
  · intro run hrun hno
    rcases List.mem_append.mp hrun with hrun | hrun
    · exact h.orphan run hrun hno
    · obtain rfl := List.mem_singleton.mp hrun
      exact ⟨rowsOf_of_fresh h hfresh, hstatus⟩

/-! ### One statement -/

/-- What was saved or closed belongs to the one run that was inserted. -/
def OwnsRows (past : List Event) : Prop :=
  Untouched past ∨ ∃ new, inserted past = [new] ∧ (∀ row ∈ saved past, row.runId = new.id) ∧
    ∀ closed ∈ closings past, closed.1 = new.id

omit [DecidableEq ι] in
/-- A trail owns its rows. -/
theorem Trail.ownsRows {userId : String} {request : AgentRunRequest} {past : List Event}
    (h : Trail cfg view userId request past) : OwnsRows past := by
  rcases h with h | ⟨runId, workspace, p, hkept, hclosed⟩
  · exact .inl h
  · refine .inr ⟨_, hkept.inserted, fun row hrow => ?_, fun closed hmem => (hclosed closed hmem).1⟩
    rw [hkept.saved] at hrow
    exact Progress.runId_of_mem hrow

section

variable {past : List Event} {e : Event}

/-- A row that is saved belongs to the run that was inserted. -/
theorem OwnsRows.saved {row : Row} (h : OwnsRows (past ++ [e])) (hinserted : insertedRun e = none)
    (hsaved : savedRow e = some row) : ∃ new, inserted past = [new] ∧ row.runId = new.id := by
  obtain ⟨hi, hs, -⟩ := histories_append past e
  rw [hinserted, Option.toList_none, List.append_nil] at hi
  rw [hsaved, Option.toList_some] at hs
  rcases h with h | ⟨new, hnew, hrows, -⟩
  · rw [h.saved] at hs
    exact absurd hs.symm (by simp)
  · refine ⟨new, hi.symm.trans hnew, hrows row ?_⟩
    rw [hs]
    exact List.mem_append_right _ List.mem_cons_self

/-- So does what closes a run. -/
theorem OwnsRows.closed {closed : String × Closing} (h : OwnsRows (past ++ [e]))
    (hinserted : insertedRun e = none) (hclosed : closedRun e = some closed) :
    ∃ new, inserted past = [new] ∧ closed.1 = new.id := by
  obtain ⟨hi, -, hc⟩ := histories_append past e
  rw [hinserted, Option.toList_none, List.append_nil] at hi
  rw [hclosed, Option.toList_some] at hc
  rcases h with h | ⟨new, hnew, -, hclosings⟩
  · rw [h.closings] at hc
    exact absurd hc.symm (by simp)
  · refine ⟨new, hi.symm.trans hnew, hclosings closed ?_⟩
    rw [hc]
    exact List.mem_append_right _ List.mem_cons_self

/-- A run is inserted once. -/
theorem OwnsRows.untouched {new : RunRow} (hbefore : OwnsRows past) (h : OwnsRows (past ++ [e]))
    (hinserted : insertedRun e = some new) : Untouched past := by
  rcases hbefore with hbefore | ⟨old, hold, -⟩
  · exact hbefore
  · obtain ⟨hi, -, -⟩ := histories_append past e
    rw [hinserted, hold] at hi
    rcases h with h | ⟨new', hnew', -⟩
    · rw [h.inserted] at hi
      cases hi
    · rw [hnew'] at hi
      cases hi

end

/-- **A statement keeps tables and histories together.** -/
theorem Linked.step {requests : ι → String × AgentRunRequest} (h : Linked s)
    (htrail : ∀ j, Trail cfg view (requests j).1 (requests j).2 (s.past j))
    (hnext : ∀ j, Trail cfg view (requests j).1 (requests j).2 (s'.past j))
    (hsem : (agentRuns cfg view).sem i statement s r s') : Linked s' := by
  obtain ⟨ch, hfresh, hr, rfl⟩ := sem_cases hsem
  have howns := (hnext i).ownsRows
  rw [past_record_self, execute_past] at howns
  cases hw : wrote r with
  | false =>
    have hsame : s.execute ch.id ⟨statement, r⟩ = s := if_neg (by simp [hw])
    rw [hsame]
    refine h.silent (silent_event ?_ ?_ ?_)
    · cases statement with
      | insertRun userId task workspace =>
        cases r with
        | ok id => cases hw
        | error e => rfl
      | _ => rfl
    · cases statement with
      | saveToolCall row => simp [savedRow, hw]
      | saveModelCall row => simp [savedRow, hw]
      | _ => rfl
    · cases statement with
      | closeRun runId closing => simp [closedRun, hw]
      | _ => rfl
  | true =>
    have hwrite : s.execute ch.id ⟨statement, r⟩ = s.write ch.id statement := if_pos hw
    rw [hwrite]
    cases statement with
    | insertRun userId task workspace =>
      cases r with
      | ok id =>
        have hid : id = ch.id := by
          unfold answered at hr
          split at hr
          · cases hr
          · exact Except.ok.inj hr
        subst hid
        exact h.insert rfl rfl rfl ((htrail i).ownsRows.untouched howns rfl) hfresh
      | error e =>
        have hlost := h.lose ⟨ch.id, userId, task, workspace, "running", none, none⟩ hfresh rfl
        exact hlost.silent (silent_event rfl rfl rfl)
    | saveToolCall row =>
      have hsaved : savedRow ⟨.saveToolCall row, r⟩ = some (.tool row) := if_pos hw
      obtain ⟨new, hnew, hrow⟩ := howns.saved rfl hsaved
      exact h.save hsaved rfl rfl hnew hrow
    | saveModelCall row =>
      have hsaved : savedRow ⟨.saveModelCall row, r⟩ = some (.model row) := if_pos hw
      obtain ⟨new, hnew, hrow⟩ := howns.saved rfl hsaved
      exact h.save hsaved rfl rfl hnew hrow
    | closeRun runId closing =>
      have hclosed : closedRun ⟨.closeRun runId closing, r⟩ = some (runId, closing) := if_pos hw
      obtain ⟨new, hnew, hid⟩ := howns.closed rfl hclosed
      exact h.close hclosed rfl rfl hnew hid
    | _ => exact h.silent (silent_event rfl rfl rfl)

/-! ### Whole runs -/

omit [DecidableEq ι] in
/-- What closes a row leaves what the run is about. -/
theorem close_all (closed : List (String × Closing)) (run : RunRow) :
    (closed.foldl (fun run closed => run.close closed.2) run).task = run.task ∧
      (closed.foldl (fun run closed => run.close closed.2) run).workspace = run.workspace ∧
        (closed.foldl (fun run closed => run.close closed.2) run).userId = run.userId := by
  induction closed generalizing run with
  | nil => exact ⟨rfl, rfl, rfl⟩
  | cons first rest ih =>
    have hfirst : (run.close first.2).task = run.task ∧
        (run.close first.2).workspace = run.workspace ∧
          (run.close first.2).userId = run.userId := by
      cases first.2 with
      | success output => exact ⟨rfl, rfl, rfl⟩
      | failed message => exact ⟨rfl, rfl, rfl⟩
    obtain ⟨htask, hworkspace, huser⟩ := ih (run.close first.2)
    exact ⟨htask.trans hfirst.1, hworkspace.trans hfirst.2.1, huser.trans hfirst.2.2⟩

omit [DecidableEq ι] in
/-- A row that says success was closed so, with its output. -/
theorem success_of_closed {closed : List (String × Closing)} {run : RunRow} {G : Option String → Prop}
    (hclosed : ∀ c ∈ closed, ∀ output, c.2 = .success output → G (some output))
    (hrun : run.status = "success" → G run.finalOutput)
    (hsuccess : (closed.foldl (fun run closed => run.close closed.2) run).status = "success") :
    G (closed.foldl (fun run closed => run.close closed.2) run).finalOutput := by
  induction closed generalizing run with
  | nil => exact hrun hsuccess
  | cons first rest ih =>
    refine ih (fun c hc => hclosed c (List.mem_cons_of_mem _ hc)) ?_ hsuccess
    show (run.close first.2).status = "success" → G (run.close first.2).finalOutput
    intro hstatus
    cases hfirst : first.2 with
    | success output => exact hclosed first List.mem_cons_self output hfirst
    | failed message =>
      rw [hfirst] at hstatus
      exact absurd hstatus (by simp [RunRow.close])

/-- What the tables say of a run when it has come so far -/
structure Recorded (cfg : AgentSettings) (view : φ → Workspace) (s : Store ι) (run : RunRow)
    (model : Option String) (p : Progress) : Prop where
  rows : s.rowsOf run.id = p.rows cfg ⟨run.id, run.task, run.workspace, model⟩
  ordered : p.Ordered ⟨run.id, run.task, run.workspace, model⟩
  genuine : p.Genuine cfg view ⟨run.id, run.task, run.workspace, model⟩
  /-- The model that was asked had been let through for the user. -/
  enforced : p.answers ≠ [] →
    ∃ i, ⟨.enforceModel run.userId (selectModel cfg model), .ok ()⟩ ∈ s.past i
  finished : run.status = "success" →
    p.answers.length = 2 ∧ run.finalOutput = p.answers.getLast?

omit [DecidableEq ι] in
/-- Nobody has issued a statement. -/
theorem traced_start (requests : ι → String × AgentRunRequest) :
    Machine.AllTraced Store.past (fun _ => Possible view)
      (fun i => Trail cfg view (requests i).1 (requests i).2) (start cfg requests) := by
  intro i
  have huntouched : Untouched ((start cfg requests).store.past i) := ⟨rfl, rfl, rfl⟩
  refine ⟨.inl huntouched, ?_⟩
  exact Prog.Triple.bind (createCodingAgentRun_triple huntouched) fun _ _ _ => trivial

omit [DecidableEq ι] in
/-- Empty tables and empty histories -/
theorem linked_start (requests : ι → String × AgentRunRequest) :
    Linked (start cfg requests).store := by
  refine ⟨?_, ?_, ?_, ?_, ?_⟩
  · intro i run hrun
    cases hrun
  · intro i j run hrun
    cases hrun
  · intro row hrow
    cases hrow
  · intro run hrun
    cases hrun
  · intro run hrun
    cases hrun

/-- **Every run is recorded**: whatever the runs do together, the rows of each are at any time those
    of a progress that the tools and the model have given, and one that is marked a success has come
    all the way. -/
theorem runs_recorded (cfg : AgentSettings) (view : φ → Workspace)
    (requests : ι → String × AgentRunRequest) {c : Config (raising Exn Answer) (Store ι) ι}
    (h : (agentRuns cfg view).Steps (start cfg requests) c) :
    ∀ run ∈ c.store.runs, ∃ model p, Recorded cfg view c.store run model p := by
  obtain ⟨htrail, hlinked⟩ := recording.traced (K := Linked) (fun _ _ _ _ _ => possible_of_sem) h
    (traced_start requests) (linked_start requests) (fun _ _ hk => hk)
    fun _ _ _ _ _ hbefore hafter hk hsem => hk.step hbefore hafter hsem
  intro run hrun
  by_cases howner : ∃ i, ∃ new ∈ inserted (c.store.past i), new.id = run.id
  · obtain ⟨i, new, hnew, hid⟩ := howner
    obtain ⟨hrows, hclosed⟩ := hlinked.owned run hrun i new hnew hid
    rcases htrail i with hnone | ⟨runId, workspace, p, hkept, hwell⟩
    · rw [hnone.inserted] at hnew
      cases hnew
    · rw [hkept.inserted] at hnew
      obtain rfl := List.mem_singleton.mp hnew
      obtain ⟨htask, hworkspace, huser⟩ := close_all (closings (c.store.past i))
        (newRun (requests i).1 (requests i).2 runId workspace)
      rw [← hclosed] at htask hworkspace huser
      have hjob : (⟨run.id, run.task, run.workspace, (requests i).2.model⟩ : Job) =
          job (requests i).2 runId workspace := by
        rw [← hid, htask, hworkspace]
        rfl
      refine ⟨(requests i).2.model, p, ?_⟩
      refine ⟨?_, ?_, ?_, fun _ => ⟨i, ?_⟩, fun hsuccess => ?_⟩
      · rw [hrows, hkept.saved, hjob]
      · rw [hjob]
        exact hkept.ordered
      · rw [hjob]
        exact hkept.genuine
      · rw [huser]
        exact hkept.enforced
      · rw [hclosed] at hsuccess ⊢
        refine success_of_closed (G := fun output => p.answers.length = 2 ∧
          output = p.answers.getLast?) (fun closed hmem output houtput => ?_) (fun hnew => ?_) hsuccess
        · obtain ⟨hlength, hlast⟩ := (hwell closed hmem).2 output houtput
          exact ⟨hlength, hlast.symm⟩
        · exact absurd hnew (by simp [newRun])
  · have hno : ∀ i, ∀ new ∈ inserted (c.store.past i), new.id ≠ run.id :=
      fun i new hnew hid => howner ⟨i, new, hnew, hid⟩
    obtain ⟨hrows, hrunning⟩ := hlinked.orphan run hrun hno
    refine ⟨none, .empty, ?_, Progress.ordered_empty, Progress.genuine_empty,
      fun hasked => absurd rfl hasked, fun hsuccess => ?_⟩
    · rw [hrows, Progress.rows_empty]
    · rw [hrunning] at hsuccess
      exact absurd hsuccess (by decide)

end

/-! ### Two runs -/

def sourceEntries : List (String × Node) :=
  [("ws", .dir [("main.py", .file "def main(): pass"), ("notes.txt", .file "main notes")])]

def sourceWorkspace : Workspace where
  fs := ⟨sourceEntries, by simp [sourceEntries, Node.Distinct, DistinctEntries]⟩
  cwd := []
  cwdFree := FileSystem.linkFree_nil
  frames := 1000
  links := 40
  workspaceRoot := "/ws"
  home _ := none
  lower text := text

mutual
/-- `repr` of values whose texts need no escape -/
def reprOf : Json → String
  | .null => "None"
  | .bool true => "True"
  | .bool false => "False"
  | .int n => toString n
  | .float f => f.text
  | .str s => "'" ++ s ++ "'"
  | .arr xs => "[" ++ ", ".intercalate (reprItems xs) ++ "]"
  | .obj fields => "\x7b" ++ ", ".intercalate (reprFields fields) ++ "\x7d"
termination_by structural j => j

def reprItems : List Json → List String
  | [] => []
  | x :: xs => reprOf x :: reprItems xs
termination_by structural xs => xs

def reprFields : List (String × Json) → List String
  | [] => []
  | (key, x) :: fields => ("'" ++ key ++ "': " ++ reprOf x) :: reprFields fields
termination_by structural fields => fields
end

def mockSettings : AgentSettings where
  workspaceRoot := "/ws"
  zhipuChatModel := "glm-5.2"
  availableChatModels := ["glm-5.2"]
  zhipuApiKey := ""
  pyStr := reprOf
  errorText _ := "路径不在工作区内"

def statements (i : Bool) (id : String) (n : Nat) : List (Bool × Action (Choice Unit)) :=
  List.replicate n (i, .stmt ⟨none, (), id, ""⟩)

/-- One run goes all the way, and the other dies in between. -/
theorem runs_recorded_two : ∃ s : Store Bool,
    s.runs.map RunRow.status = ["success", "running"] ∧ s.rows.length = 7 ∧
    ∀ run ∈ s.runs, ∃ model p, Recorded mockSettings (fun _ : Unit => sourceWorkspace) s run model p := by
  let request : AgentRunRequest := ⟨"explain main", none, none⟩
  have hrun : ((agentRuns mockSettings fun _ : Unit => sourceWorkspace).runSched
      (statements true "run-1" 3 ++ statements false "run-2" 3 ++ statements true "fresh" 7 ++
        statements false "fresh" 3 ++ [(false, .die)] ++ statements true "fresh" 6)
      (start mockSettings fun _ => ("u", request))).any (fun c =>
        decide (c.store.runs.map RunRow.status = ["success", "running"]) &&
          decide (c.store.rows.length = 7)) = true := by decide +kernel
  obtain ⟨c, hc, hp⟩ := (Option.any_eq_true ..).mp hrun
  simp only [Bool.and_eq_true, decide_eq_true_eq] at hp
  exact ⟨c.store, hp.1, hp.2, runs_recorded mockSettings (fun _ => sourceWorkspace)
    (fun _ => ("u", request)) (Machine.steps_of_runSched _ hc)⟩

end CodingAgent

end HyChat
