import HyChat.Tool.Sessions

/-!
# Approvals gate execution

The committed pairs of every reachable configuration are `Coupled` and only evolve, which is most
of what the approval table promises. What is left is the moment of a claim: one that is told to
execute finds its approval, if there is one, approved or edited.

The approval may appear after the claim has committed its start and before it returns, so the
statement has two readings: for a claim among arbitrary other sessions it is about an approval
that was there when the call began, and for a claim that nobody disturbs about any approval.

The statements are about committed rows. That is what another process reads, and it is what counts
after a crash; what a session has written and not committed is nobody's business. The two halves of
`Coupled` give the gate, and the history is needed only for where a decision came from: some call
of the service carried it.
-/

set_option autoImplicit false

namespace HyChat

open Lib Relation

/-- The human has let the call pass. -/
def ApprovalStatus.permits (status : ApprovalStatus) : Bool :=
  status = .approved || status = .edited

section

variable {sha256 : Sha256} {issued : Call → Prop} {i : Nat} {t : Tracked}

/-- Session `i` may do what it likes as long as no committed approval changes. -/
def KeepsApprovals (i : Nat) (t t' : Tracked) : Prop :=
  Guar i t t' ∧
    ∀ n, (t'.store.slot n).approval.committed = (t.store.slot n).approval.committed

/-- Session `i` has written no approval, and the approvals of the slots in `B` are there. -/
def ApprovalsStand (i : Nat) (B : Nat → Prop) (t : Tracked) : Prop :=
  ∀ n, (t.store.slot n).approval.own i = none ∧
    (B n → ∃ a, (t.store.slot n).approval.committed = some a)

/-- The approval of a slot in `B` permits execution. -/
def Permits (i : Nat) (B : Nat → Prop) (n : Nat) (t : Tracked) : Prop :=
  (t.store.slot n).approval.own i = none ∧
    (B n → ∃ a, (t.store.slot n).approval.committed = some a ∧ a.status.permits = true)

theorem permits_iff {status : ApprovalStatus} :
    status.permits = true ↔ status = .approved ∨ status = .edited := by
  simp [ApprovalStatus.permits]

theorem ne_pending_of_permits {status : ApprovalStatus} (h : status.permits = true) :
    status ≠ .pending := by
  rintro rfl
  exact absurd h (by decide)

section

variable {R G : Tracked → Tracked → Prop} (hR : ∀ t t', R t t' → ∃ j, j ≠ i ∧ Guar j t t')
include hR

theorem stable_approvalsStand (B : Nat → Prop) :
    (toolParty sha256 issued i R G).Stable (ApprovalsStand i B) := by
  intro t t' hi _ hr h n
  obtain ⟨j, hij, hg⟩ := hR t t' hr
  refine ⟨by rw [hg.own_approval hij]; exact (h n).1, fun hB => ?_⟩
  obtain ⟨a, ha⟩ := (h n).2 hB
  obtain ⟨a', ha', -⟩ := hg.approval_later hi n a ha
  exact ⟨a', ha'⟩

theorem stable_permits (B : Nat → Prop) (n : Nat) :
    (toolParty sha256 issued i R G).Stable (Permits i B n) := by
  intro t t' hi _ hr h
  obtain ⟨j, hij, hg⟩ := hR t t' hr
  refine ⟨by rw [hg.own_approval hij]; exact h.1, fun hB => ?_⟩
  obtain ⟨a, ha, hp⟩ := h.2 hB
  obtain ⟨a', ha', he⟩ := hg.approval_later hi n a ha
  -- a decided approval is not decided again
  have hsame := he.decided (ne_pending_of_permits hp)
  exact ⟨a', ha', by rw [hsame]; exact hp⟩

end

/-- What is written about an invocation does not touch the approvals. -/
theorem putInvocation_approval (n m : Nat) (r : ToolInvocation) :
    ((t.store.putInvocation i n r).slot m).approval = (t.store.slot m).approval := by
  by_cases hm : m = n
  · subst hm
    rw [Store.putInvocation_slot_self]
  · rw [Store.putInvocation_slot_of_ne hm]

theorem ApprovalsStand.putInvocation {B : Nat → Prop} {n : Nat} {r : ToolInvocation}
    (h : ApprovalsStand i B t) : ApprovalsStand i B ⟨t.store.putInvocation i n r, t.granted⟩ := by
  intro m
  simp only [putInvocation_approval]
  exact h m

/-- A session that has written no approval commits none. -/
theorem commit_approval {n : Nat} (h : (t.store.slot n).approval.own i = none) :
    ((t.store.commit i).slot n).approval.committed = (t.store.slot n).approval.committed := by
  show ((t.store.slot n).approval.commit i).committed = _
  rw [Cell.committed_commit, Cell.view_of_not_own h]

theorem survives_approvalsStand {B : Nat → Prop} {userId : String}
    {threadId runtimeRunId : Option String} {toolCallId toolName : String}
    {requestedInput : PyMapping} {approvalRequired : Bool} :
    Survives sha256 issued i userId threadId runtimeRunId toolCallId toolName requestedInput
      approvalRequired (ApprovalsStand i B) where
  fill := fun _ _ _ _ _ h _ _ _ _ _ => h.putInvocation
  insert := fun _ _ _ _ h _ => h.putInvocation

/-- The frame of a claim of which the approvals are watched. -/
theorem ClaimFrame.gated {R : Tracked → Tracked → Prop} {B : Nat → Prop} {userId : String}
    {threadId runtimeRunId : Option String} {toolCallId toolName : String}
    {requestedInput : PyMapping} (hR : ∀ t t', R t t' → ∃ j, j ≠ i ∧ Guar j t t') :
    ClaimFrame sha256 issued i R (KeepsApprovals i) userId threadId runtimeRunId toolCallId
      toolName requestedInput (ApprovalsStand i B) (ApprovalsStand i B) (fun _ => True)
      (Permits i B) True (fun _ => True) where
  stable := stable_approvalsStand hR B
  stable_started := stable_approvalsStand hR B
  survives := survives_approvalsStand
  reads := Reads.true
  start := fun _ _ _ _ _ h _ _ _ _ => h.putInvocation
  permitted := by
    intro t n r now _ h _ _ _ hp
    refine ⟨by rw [putInvocation_approval]; exact (h n).1, fun hB => ?_⟩
    obtain ⟨a, ha⟩ := (h n).2 hB
    rw [putInvocation_approval]
    refine ⟨a, ha, ?_⟩
    unfold Permitted at hp
    rw [Cell.view_of_not_own (h n).1, ha] at hp
    rcases hp with hp | ⟨a', ha', hs⟩
    · exact absurd hp (by simp)
    · rw [Option.some.injEq] at ha'
      rw [ha', permits_iff]
      exact hs
  stable_permitted := fun n => stable_permits hR B n
  commit_permitted := by
    intro t n g _ h
    refine ⟨Cell.own_commit_self i _, fun hB => ?_⟩
    show ∃ a, ((t.store.commit i).slot n).approval.committed = some a ∧ _
    rw [commit_approval h.1]
    exact h.2 hB
  lost := fun _ _ _ _ _ _ _ _ _ _ _ _ => trivial
  commit := fun _ _ _ h hg => ⟨hg, fun n => commit_approval (h n).1⟩
  commit_started := fun _ _ _ h hg => ⟨hg, fun n => commit_approval (h n).1⟩
  excused := Excused.true
  database := trivial
  mismatch := fun _ _ _ _ _ _ _ _ _ => trivial
  gone := fun _ _ => trivial

theorem quiet_keepsApprovals (t t' : Tracked) (h : Quiet i t t') : KeepsApprovals i t t' :=
  ⟨h.toGuar, h.approval_committed⟩

/-- A claim of which the approvals are watched, from an idle session. -/
theorem wp_gatedClaim {R : Tracked → Tracked → Prop}
    (hR : ∀ t t', R t t' → ∃ j, j ≠ i ∧ Guar j t t') {userId : String}
    {threadId runtimeRunId : Option String} {toolCallId toolName : String}
    {requestedInput : PyMapping}
    (hreg : issued (.claimToolInvocation userId threadId runtimeRunId toolCallId toolName
      requestedInput))
    (hi : Inv sha256 issued t) (hidle : Idle i t) {t' : Tracked}
    (ht : (toolParty sha256 issued i R (KeepsApprovals i)).Interf t t') :
    (toolParty sha256 issued i R (KeepsApprovals i)).wp
      (claimToolInvocation sha256 userId threadId runtimeRunId toolCallId toolName
        requestedInput).attempt
      (fun outcome t' => ∀ claim, outcome = .ok claim → claim.shouldExecute = true →
        Permits i (fun n => ∃ a, (t.store.slot n).approval.committed = some a)
          claim.invocationId t') t' := by
  have hframe : ClaimFrame sha256 issued i R (KeepsApprovals i) userId threadId runtimeRunId
      toolCallId toolName requestedInput _ _ _ _ _ _ :=
    ClaimFrame.gated (B := fun n => ∃ a, (t.store.slot n).approval.committed = some a) hR
  have hspec := spec_claimToolInvocation hR quiet_keepsApprovals hreg hframe
  refine Party.wp_mono ?_ _ (Party.Interf.inv ht hi)
    (hspec t hi ⟨hidle.ready, fun n => ⟨(hidle n).2, id⟩⟩ t' ht)
  rintro outcome t' - hend claim rfl hx
  exact (hend.2.2.1 hx).1

/-! ## Reachable configurations -/

/-- A decided pair stays as it is: the approval as a whole, and what is to be executed. -/
theorem decided_later {c c' : Config toolSig Store Nat} {t : Tracked}
    (hgood : (toolFamily sha256 issued).Good c t) (hc : toolDb.Steps c c') {n : Nat}
    {a : Approval} {r : ToolInvocation} (ha : (c.store.slot n).approval.committed = some a)
    (hr : (c.store.slot n).invocation.committed = some r) (hd : a.status ≠ .pending) :
    (c'.store.slot n).approval.committed = some a ∧
      ∃ r', (c'.store.slot n).invocation.committed = some r' ∧
        r'.effectiveToolName = r.effectiveToolName ∧ r'.effectiveInput = r.effectiveInput ∧
        (a.status = .rejected → r'.status = .rejected) := by
  obtain ⟨hinv, happ⟩ := steps_later hgood hc n
  obtain ⟨a', ha', hev⟩ := happ a ha
  obtain ⟨r', hr', he⟩ := hinv r hr
  have hreal : t.store = c.store := hgood.real
  have hcoup := (hgood.inv.slots n).coupled
  rw [hreal, ha, hr] at hcoup
  have hadm := hcoup.2.2.1
  have hset : r.status.settled = true := by
    cases hs : a.status <;> rw [hs] at hadm hd <;> cases hst : r.status <;>
      simp_all [ApprovalStatus.admits, ToolInvocationStatus.settled, ToolInvocationStatus.executed]
  obtain ⟨hn, hi⟩ := he.effective hset
  refine ⟨by rw [ha', hev.decided hd], r', hr', hn, hi, fun hrej => ?_⟩
  rw [hrej] at hadm
  have hst : r.status = .rejected := by simpa [ApprovalStatus.admits] using hadm
  rw [he.status.eq_of_terminal (by rw [hst]; rfl), hst]

/-- **Approval gating**, in every reachable configuration and from it on. The last two clauses are
    about a claim that is told to execute: among any other sessions an approval that was there
    when the call began is approved or edited when it returns, and if nobody else moves so is any
    approval. -/
theorem approval_gates_execution {conversation : String → Option Conversation}
    {calls : Nat → List Call} {c : Config toolSig Store Nat}
    (hc : toolDb.Steps (start sha256 conversation calls) c) :
    (∀ n a, (c.store.slot n).approval.committed = some a →
      ∃ r, (c.store.slot n).invocation.committed = some r ∧ r.id = a.invocationId ∧
        r.status ≠ .pending ∧
        (a.status = .approved ∨ a.status = .edited → r.status = .approved ∨ r.status = .running ∨
          r.status = .succeeded ∨ r.status = .failed) ∧
        (a.status = .rejected → r.status = .rejected)) ∧
    (∀ c', toolDb.Steps c c' → ∀ n a r, (c.store.slot n).approval.committed = some a →
      (c.store.slot n).invocation.committed = some r → a.status ≠ .pending →
        (c'.store.slot n).approval.committed = some a ∧
        ∃ r', (c'.store.slot n).invocation.committed = some r' ∧
          r'.effectiveToolName = r.effectiveToolName ∧ r'.effectiveInput = r.effectiveInput ∧
          (a.status = .rejected → r'.status = .rejected)) ∧
    (∀ i userId threadId runtimeRunId toolCallId toolName requestedInput claim,
      (∀ n, (c.store.slot n).invocation.own i = none ∧ (c.store.slot n).approval.own i = none) →
      claim.shouldExecute = true →
        (∀ c' tr, toolDb.Exec i (claimToolInvocation sha256 userId threadId runtimeRunId toolCallId
            toolName requestedInput).attempt c tr (.ok claim) c' →
          (∃ a, (c.store.slot claim.invocationId).approval.committed = some a) →
            ∃ a, (c'.store.slot claim.invocationId).approval.committed = some a ∧
              (a.status = .approved ∨ a.status = .edited)) ∧
        (∀ s', toolDb.Solo i (claimToolInvocation sha256 userId threadId runtimeRunId toolCallId
            toolName requestedInput).attempt c.store (.ok claim) s' →
          ∀ a, (s'.slot claim.invocationId).approval.committed = some a →
            a.status = .approved ∨ a.status = .edited)) := by
  obtain ⟨t, hgood⟩ := reachable_good (fun _ => True) (fun _ _ _ => trivial) hc
  have hreal : t.store = c.store := hgood.real
  refine ⟨fun n a ha => ?_, fun c' hc' n a r ha hr hd => decided_later hgood hc' ha hr hd, ?_⟩
  · have hslot := hgood.inv.slots n
    rw [hreal] at hslot
    have hcoup := hslot.coupled
    cases hr : (c.store.slot n).invocation.committed with
    | none =>
      rw [hr, ha] at hcoup
      exact hcoup.elim
    | some r =>
      rw [hr] at hcoup
      have hne := hcoup.ne_pending
      rw [ha] at hcoup
      have hadm := hcoup.2.2.1
      refine ⟨r, rfl, ?_, hne, fun hs => ?_, fun hs => ?_⟩
      · rw [(hslot.committed_wf r hr).id, hslot.committed_at a ha]
      · rcases hs with hs | hs <;> rw [hs] at hadm <;> cases hst : r.status <;>
          simp_all [ApprovalStatus.admits, ToolInvocationStatus.executed]
      · rw [hs] at hadm
        simpa [ApprovalStatus.admits] using hadm
  · intro i userId threadId runtimeRunId toolCallId toolName requestedInput claim hidle hx
    have hidle' : Idle i t := by
      intro n
      rw [hreal]
      exact hidle n
    refine ⟨fun c' tr hexec hthere => ?_, fun s' hsolo a ha => ?_⟩
    · obtain ⟨a, ha⟩ := hthere
      obtain ⟨t', hgood', hpost, -, -⟩ := Machine.Family.GoodBut.exec (G := KeepsApprovals i)
        (fun _ _ h => h.1) hexec t (hgood.mono fun _ h => h.elim)
        fun t' ht => wp_gatedClaim others_spec trivial hgood.inv hidle' ht
      have hreal' : t'.store = c'.store := hgood'.real
      obtain ⟨a', ha', hp⟩ := (hpost claim rfl hx).2 ⟨a, by rw [hreal, ha]⟩
      exact ⟨a', by rw [← hreal', ha'], permits_iff.mp hp⟩
    · obtain ⟨t', hreal', -, hpost, hmoves⟩ := Machine.Solo.post
        (p := toolParty sha256 (fun _ => True) i (fun _ _ => False) (KeepsApprovals i)) rfl hsolo t
        hreal hgood.inv (wp_gatedClaim (fun _ _ h => h.elim) trivial hgood.inv hidle' .refl)
      -- nobody has moved but the claim, and it writes no approval
      have hsame : ∀ n, (t'.store.slot n).approval.committed =
          (t.store.slot n).approval.committed := by
        clear hpost hreal'
        induction hmoves with
        | refl => exact fun _ => rfl
        | tail _ hs ih => exact fun n => (hs.1.2 n).trans (ih n)
      have hreal'' : t'.store = s' := hreal'
      rw [← hreal''] at ha
      obtain ⟨a', ha', hp⟩ := (hpost claim rfl hx).2 ⟨a, by rw [← hsame, ha]⟩
      rw [ha, Option.some.injEq] at ha'
      subst ha'
      exact permits_iff.mp hp

end

/-! ## A call that is edited before it runs -/

/-- Session 0 asks for approval and gets an edited call. -/
def editedCall (i : Nat) : List Call :=
  if i = 0 then
    [.ensurePendingApprovals "user" (some "thread") none
      [⟨some "call", some "search", .mapping [("q", .str "x")]⟩],
     .recordApprovalDecisions "user" (some "thread") none
      [⟨"call", "search", [("q", .str "x")], "edit", "search", [("q", .str "y")],
        [("type", .str "edit")]⟩]]
  else []

theorem approval_gates_execution_editedCall : ∃ c claim s',
    toolDb.Steps (start .standard (fun _ => none) editedCall) c ∧
      toolDb.Solo 0 (claimToolInvocation .standard "user" (some "thread") none "call" "search"
        [("q", .str "y")]).attempt c.store (.ok claim) s' ∧
      claim.shouldExecute = true ∧
      ∀ a, (s'.slot claim.invocationId).approval.committed = some a →
        a.status = .approved ∨ a.status = .edited := by
  have hsched : (toolDb.runSched (List.replicate 20 (0, .stmt ⟨false, 0⟩))
      (start .standard (fun _ => none) editedCall)).any (fun c =>
        c.store.idle 0 && (toolDb.solo 0 (claimToolInvocation .standard "user" (some "thread") none "call" "search"
          [("q", .str "y")]).attempt (List.replicate 8 ⟨false, 0⟩) c.store).any fun p =>
            p.1.toOption.any fun claim => claim.shouldExecute) = true := by decide +kernel
  obtain ⟨c, hc, hret⟩ := (Option.any_eq_true ..).mp hsched
  simp only [Bool.and_eq_true] at hret
  obtain ⟨hi, hsolo⟩ := hret
  obtain ⟨⟨outcome, s'⟩, hrun, hx⟩ := (Option.any_eq_true ..).mp hsolo
  obtain ⟨claim, hout, hx⟩ := (Option.any_eq_true ..).mp hx
  have hok : outcome = .ok claim := by
    cases outcome <;> simp_all [Except.toOption]
  subst hok
  have hsteps := toolDb.steps_of_runSched hc
  obtain ⟨t, hgood⟩ := reachable_good (fun _ => True) (fun _ _ _ => trivial) hsteps
  have hidle := (Store.idle_iff hgood).mp hi
  have hrun' := Machine.Solo.of_solo toolDb _ _ hrun
  exact ⟨c, claim, s', hsteps, hrun', hx,
    ((approval_gates_execution hsteps).2.2 0 _ _ _ _ _ _ claim hidle hx).2 s' hrun'⟩

end HyChat
