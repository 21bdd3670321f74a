import HyChat.Lib.Shape
import HyChat.Tool.Service

/-!
# What the service's statements are about

Everything the service asks the database is asked under the key of a scope it was called with, or
under the id of a row it has read under such a key. `Stmt.Speaks` says this of one statement,
`Stmt.Tells` of one answer, and there is a lemma for each function (`within_*`).

With no restriction on keys and ids the same lemmas say which functions issue no commit.

Why this is a separate analysis. Scope isolation is about which rows a call *asks* for, whatever
the store answers, so it is a property of the program and of nothing else, and is proved by
following the program once. The parameter `known` is the set of row ids the function has come
across. It starts empty, and the only way into it is an answer to a lookup under the key of the
scope, which is why `Tells` is about answers: the ids a function uses later are then ids of rows of
its scope.

`Speaks` leaves out `COMMIT` on purpose. A function that issues none keeps a transaction open, and
that is what the callers rely on when they roll back; the functions that do commit are in the last
section, and say so by their position.
-/

set_option autoImplicit false

namespace HyChat

open Lib

/-! ## Statements and answers -/

/-- The statement asks under the keys and ids given, and does not end the transaction but to undo
    it. -/
def Stmt.Speaks (known : Nat → Prop) (key : String → String → Prop) : Stmt → Prop
  | .insertInvocation row => key row.userId row.idempotencyKey
  | .selectInvocation userId idempotencyKey => key userId idempotencyKey
  | .getInvocation id => known id
  | .updateInvocation id _ _ => known id
  | .insertApproval row => known row.invocationId ∧ key row.userId row.idempotencyKey
  | .selectApproval userId idempotencyKey => key userId idempotencyKey
  | .selectApprovalOf invocationId _ => known invocationId
  | .updateApproval id _ _ => known id
  | .utcnow => True
  | .selectConversation _ => True
  | .rollback => True
  | _ => False

/-- The answer tells of no other ids and keys. -/
def Stmt.Tells (known : Nat → Prop) (key : String → String → Prop) :
    (o : toolSig.Op) → toolSig.Res o → Prop
  | .selectInvocation userId _, .ok (some row) => known row.id ∧ key userId row.idempotencyKey
  | .selectApprovalOf _ _, .ok (some row) => known row.invocationId
  | _, _ => True

/-- The statements a function may issue and the answers it may get. -/
structure Footprint (known : Nat → Prop) (key : String → String → Prop) (I : toolSig.Op → Prop)
    (A : (o : toolSig.Op) → toolSig.Res o → Prop) : Prop where
  speaks : ∀ o : Stmt, o.Speaks known key → I o
  tells : ∀ o r, A o r → Stmt.Tells known key o r

/-- Anything but a commit. -/
theorem Footprint.noCommit {A : (o : toolSig.Op) → toolSig.Res o → Prop} :
    Footprint (fun _ => True) (fun _ _ => True) (· ≠ Stmt.commit) A where
  speaks := by
    rintro o ho rfl
    exact ho
  tells := by
    intro o r _
    unfold Stmt.Tells
    split
    · exact ⟨trivial, trivial⟩
    · trivial
    · trivial

/-! ## The functions -/

section

variable {sha256 : Sha256} {known : Nat → Prop} {key : String → String → Prop}
  {I : toolSig.Op → Prop} {A : (o : toolSig.Op) → toolSig.Res o → Prop}

/-- A check asks nothing of the database. -/
theorem within_raiseIf {condition : Bool} {error : PyError} {E : PyError → Prop}
    (h : condition = true → E error) :
    (raiseIf condition error).Within I A (fun _ => condition = false) E := by
  unfold raiseIf
  cases condition with
  | true => exact .throw (h rfl)
  | false => exact .pure rfl

/-- One statement of the footprint, with what its answer tells. -/
theorem within_perform {o : Stmt} {V : o.Val → Prop} {E : PyError → Prop} (hI : I o)
    (hV : ∀ r, A o r → Raising.outcome V E r) : (perform o).Within I A V E :=
  ⟨hI, hV⟩

/-- The check of the identifiers' lengths is made before the first statement. -/
theorem within_validateIdentity (threadId runtimeRunId : Option String) (toolCallId : String)
    {E : PyError → Prop} (h : ∀ message, E (.toolInvocationConflict message)) :
    (validateIdentity threadId runtimeRunId toolCallId).Within I A (fun _ => True) E := by
  unfold validateIdentity
  refine .bind (within_raiseIf fun _ => h _) fun _ _ => ?_
  refine .bind (within_raiseIf fun _ => h _) fun _ _ => ?_
  refine .bind (within_raiseIf fun _ => h _) fun _ _ => ?_
  exact (within_raiseIf fun _ => h _).mono (fun _ _ => trivial) fun _ he => he

variable (hF : Footprint known key I A)
include hF

/-- A statement of the footprint, about whose answer nothing is asked. -/
theorem within_any {o : Stmt} (ho : o.Speaks known key) :
    (perform o).Within I A (fun _ => True) fun _ => True :=
  within_perform (hF.speaks o ho) fun r _ => by cases r <;> trivial

/-- The thread's conversation is looked up by the thread, which no key is needed for. -/
theorem within_conversationIdForUser (userId : String) (threadId : Option String) :
    (conversationIdForUser userId threadId).Within I A (fun _ => True) fun _ => True := by
  unfold conversationIdForUser
  cases threadId with
  | none => exact .pure trivial
  | some thread =>
    by_cases h : thread = ""
    · simp only [h, if_true]
      exact .pure trivial
    · simp only [h, if_false]
      refine .bind (within_any hF (o := .selectConversation thread) trivial) fun c _ => ?_
      cases c with
      | none => exact .pure trivial
      | some c => exact .bind (within_raiseIf fun _ => trivial) fun _ _ => .pure trivial

/-- The update of a row that has been read. -/
theorem within_flush {id : Nat} (hid : known id) (values : ToolInvocation → ToolInvocation) :
    (flush id values).Within I A (fun _ => True) fun _ => True :=
  .bind (within_any hF (o := .updateInvocation id _ _) hid) fun _ _ =>
    (within_raiseIf fun _ => trivial).mono (fun _ _ => trivial) fun _ he => he

/-- `_ensure_invocation` speaks for the scope it is called with, and hands back a row of it. -/
theorem within_ensureInvocation {userId : String} {threadId : Option String}
    (runtimeRunId : Option String) {toolCallId : String} (toolName : String)
    (requestedInput : PyMapping) (approvalRequired allowEffectiveMatch : Bool)
    (hkey : key userId (invocationIdempotencyKey sha256 userId threadId toolCallId)) :
    (ensureInvocation sha256 userId threadId runtimeRunId toolCallId toolName requestedInput
      approvalRequired allowEffectiveMatch).Within I A
        (fun r => known r.id ∧ key userId r.idempotencyKey) fun _ => True := by
  unfold ensureInvocation
  refine .bind (within_validateIdentity _ _ _ fun _ => trivial) fun _ _ => ?_
  refine .bind (within_any hF (o := .utcnow) trivial) fun now _ => ?_
  refine .bind (within_conversationIdForUser hF _ _) fun conversationId _ => ?_
  refine .bind (within_any hF (o := .insertInvocation _) hkey) fun _ _ => ?_
  refine .bind (V := fun o => ∀ r, o = some r → known r.id ∧ key userId r.idempotencyKey)
    (within_perform (hF.speaks (.selectInvocation _ _) hkey) fun r hr => ?_) fun o ho => ?_
  · cases r with
    | error e => trivial
    | ok o =>
      rintro r rfl
      exact hF.tells _ _ hr
  cases o with
  | none => exact .throw trivial
  | some invocation =>
    have hr := ho invocation rfl
    refine .bind (within_raiseIf fun _ => trivial) fun _ _ => ?_
    refine .bind (V := fun r => known r.id ∧ key userId r.idempotencyKey) ?_
      fun invocation hr => ?_
    · unfold fillRuntimeRunId
      split
      · exact .bind (within_flush hF hr.1 _) fun _ _ => .pure hr
      · exact .pure hr
    · unfold requireApproval
      split
      · exact .bind (within_flush hF hr.1 _) fun _ _ => .pure hr
      · exact .pure hr

omit hF in
theorem within_rollbackOnError {α : Type} {body : Db α} {V : α → Prop} {E : PyError → Prop}
    (h : body.Within I A V E) (hI : I Stmt.rollback)
    (hE : ∀ e, A Stmt.rollback (.error e) → E e) : (rollbackOnError body).Within I A V E := by
  refine .tryCatch h fun e he => ?_
  refine .bind (V := fun _ => True) (within_perform hI fun r hr => ?_) fun _ _ => .throw he
  cases r with
  | ok v => trivial
  | error e => exact hE e hr

/-- Both rows of a call, under the call's own key. -/
theorem within_ensurePendingApproval {userId : String} {threadId : Option String}
    (runtimeRunId : Option String) {toolCall : ToolCallItem}
    (hkey : key userId
      (invocationIdempotencyKey sha256 userId threadId (orDefault toolCall.id ""))) :
    (ensurePendingApproval sha256 userId threadId runtimeRunId toolCall).Within I A
      (fun _ => True) fun _ => True := by
  unfold ensurePendingApproval
  refine .bind (within_ensureInvocation hF _ _ _ _ _ hkey) fun invocation hr => ?_
  refine .bind (within_any hF (o := .utcnow) trivial) fun requestedAt _ => ?_
  refine .bind (within_any hF (o := .utcnow) trivial) fun updatedAt _ => ?_
  refine .bind (within_any hF (o := .insertApproval _) ⟨hr.1, hr.2⟩) fun _ _ => ?_
  refine .bind (within_any hF (o := .selectApproval _ _) hr.2) fun approval _ => ?_
  exact (within_raiseIf fun _ => trivial).mono (fun _ _ => trivial) fun _ he => he

omit hF in
theorem within_approvalStatus (decisionType : String) :
    (approvalStatus decisionType).Within I A (fun _ => True) fun _ => True := by
  unfold approvalStatus
  cases approvalStatus? decisionType with
  | some status => exact .pure trivial
  | none => exact .throw trivial

/-- The rows of a decision are looked up under the decision's key. -/
theorem within_loadDecisionRows {userId : String} {threadId : Option String}
    (runtimeRunId : Option String) {d : ApprovalDecision}
    (hkey : key userId (invocationIdempotencyKey sha256 userId threadId d.toolCallId)) :
    (loadDecisionRows sha256 userId threadId runtimeRunId d).Within I A
      (fun p => known p.1.id ∧ known p.2.invocationId) fun _ => True := by
  unfold loadDecisionRows
  refine .bind (within_ensureInvocation hF _ _ _ _ _ hkey) fun invocation hr => ?_
  refine .bind (V := fun o => ∀ a, o = some a → known a.invocationId)
    (within_perform (hF.speaks (.selectApprovalOf _ _) hr.1) fun r ha => ?_) fun o ho => ?_
  · cases r with
    | error e => trivial
    | ok o =>
      rintro a rfl
      exact hF.tells _ _ ha
  · cases o with
    | none => exact .throw trivial
    | some approval => exact .pure ⟨hr.1, ho approval rfl⟩

/-- The two updates of a decision, on the rows that were read for it. -/
theorem within_applyDecision {userId : String} {now : Nat} {d : ApprovalDecision}
    {invocation : ToolInvocation} {approval : Approval} (hi : known invocation.id)
    (ha : known approval.invocationId) :
    (applyDecision sha256 userId now d invocation approval).Within I A (fun _ => True)
      fun _ => True := by
  unfold applyDecision
  refine .bind (within_approvalStatus _) fun status _ => ?_
  refine .bind (within_any hF (o := .updateApproval _ _ _) ha) fun _ _ => ?_
  refine .bind (within_raiseIf fun _ => trivial) fun _ _ => ?_
  refine .bind (within_any hF (o := .updateInvocation _ _ _) hi) fun _ _ => ?_
  exact (within_raiseIf fun _ => trivial).mono (fun _ _ => trivial) fun _ he => he

/-- The first pass over one decision. -/
theorem within_recordDecision {userId : String} {threadId : Option String}
    (runtimeRunId : Option String) (now : Nat) {d : ApprovalDecision}
    (hkey : key userId (invocationIdempotencyKey sha256 userId threadId d.toolCallId)) :
    (recordDecision sha256 userId threadId runtimeRunId now d).Within I A (fun _ => True)
      fun _ => True := by
  unfold recordDecision
  refine .bind (within_loadDecisionRows hF _ hkey) fun p hp => ?_
  obtain ⟨invocation, approval⟩ := p
  simp only
  split
  · exact .bind (within_approvalStatus _) fun _ _ =>
      (within_raiseIf fun _ => trivial).mono (fun _ _ => trivial) fun _ he => he
  · exact within_applyDecision hF hp.1 hp.2

/-- The second pass over one decision. -/
theorem within_verifyDecision {userId : String} {threadId : Option String}
    (runtimeRunId : Option String) {d : ApprovalDecision}
    (hkey : key userId (invocationIdempotencyKey sha256 userId threadId d.toolCallId)) :
    (verifyDecision sha256 userId threadId runtimeRunId d).Within I A (fun _ => True)
      fun _ => True := by
  unfold verifyDecision
  refine .bind (within_loadDecisionRows hF _ hkey) fun p _ => ?_
  obtain ⟨invocation, approval⟩ := p
  exact .bind (within_approvalStatus _) fun _ _ =>
    (within_raiseIf fun _ => trivial).mono (fun _ _ => trivial) fun _ he => he

/-- A finishing update goes to the id that the claim carries. -/
theorem within_finishInvocation {claim : ToolInvocationClaim} (hid : known claim.invocationId)
    (values : ToolInvocation → ToolInvocation) :
    (finishInvocation claim values).Within I A (fun _ => True) fun _ => True :=
  .bind (within_any hF (o := .updateInvocation _ _ _) hid) fun _ _ => .pure trivial

/-! ## With the commit -/

variable (hc : I Stmt.commit)
include hc

omit hF in
theorem within_commit : (perform .commit).Within I A (fun _ => True) fun _ => True :=
  within_perform hc fun r _ => by cases r <;> trivial

theorem within_ensurePendingApprovals {userId : String} {threadId : Option String}
    (runtimeRunId : Option String) {toolCalls : List ToolCallItem}
    (hkey : ∀ tc ∈ toolCalls, key userId
      (invocationIdempotencyKey sha256 userId threadId (orDefault tc.id ""))) :
    (ensurePendingApprovals sha256 userId threadId runtimeRunId toolCalls).Within I A
      (fun _ => True) fun _ => True := by
  refine within_rollbackOnError ?_ (hF.speaks .rollback trivial) fun _ _ => trivial
  exact .bind (.forM fun tc htc => within_ensurePendingApproval hF _ (hkey tc htc)) fun _ _ =>
    within_commit hc

theorem within_recordApprovalDecisions {userId : String} {threadId : Option String}
    (runtimeRunId : Option String) {decisions : List ApprovalDecision}
    (hkey : ∀ d ∈ decisions, key userId
      (invocationIdempotencyKey sha256 userId threadId d.toolCallId)) :
    (recordApprovalDecisions sha256 userId threadId runtimeRunId decisions).Within I A
      (fun _ => True) fun _ => True := by
  unfold recordApprovalDecisions
  refine .bind (within_any hF (o := .utcnow) trivial) fun now _ => ?_
  refine .bind (V := fun _ => True) (.tryCatch (E := fun _ => True) ?_ fun e _ => ?_)
    fun finished _ => ?_
  · refine .bind (.forM fun d hd => within_recordDecision hF _ _ (hkey d hd)) fun _ _ => ?_
    exact .bind (within_commit hc) fun _ _ => .pure trivial
  · refine .bind (within_any hF (o := .rollback) trivial) fun _ _ => ?_
    split
    · exact .pure trivial
    · exact .throw trivial
  · split
    · exact .pure trivial
    · refine within_rollbackOnError ?_ (hF.speaks .rollback trivial) fun _ _ => trivial
      exact .bind (.forM fun d hd => within_verifyDecision hF _ (hkey d hd)) fun _ _ =>
        within_commit hc

theorem within_startClaim (userId : String) {invocation : ToolInvocation}
    (hid : known invocation.id) :
    (startClaim userId invocation).Within I A (fun _ => True) fun _ => True := by
  unfold startClaim
  refine .bind (within_any hF (o := .utcnow) trivial) fun now _ => ?_
  refine .bind (within_any hF (o := .updateInvocation _ _ _) hid) fun rowcount _ => ?_
  split
  · refine .bind (within_commit hc) fun _ _ => ?_
    refine .bind (within_any hF (o := .getInvocation _) hid) fun o _ => ?_
    cases o with
    | none => exact .throw trivial
    | some started => exact .pure trivial
  · exact .bind (within_any hF (o := .rollback) trivial) fun _ _ => .pure trivial

theorem within_claimToolInvocation {userId : String} {threadId : Option String}
    (runtimeRunId : Option String) {toolCallId : String} (toolName : String)
    (requestedInput : PyMapping)
    (hkey : key userId (invocationIdempotencyKey sha256 userId threadId toolCallId)) :
    (claimToolInvocation sha256 userId threadId runtimeRunId toolCallId toolName
      requestedInput).Within I A (fun _ => True) fun _ => True := by
  unfold claimToolInvocation
  refine .bind (V := fun _ => True) ?_ fun claimed _ => ?_
  · refine within_rollbackOnError ?_ (hF.speaks .rollback trivial) fun _ _ => trivial
    unfold tryClaim
    refine .bind (within_ensureInvocation hF _ _ _ _ _ hkey) fun invocation hr => ?_
    refine .bind (within_raiseIf fun _ => trivial) fun _ _ => ?_
    split
    · refine .bind (within_commit hc) fun _ _ => ?_
      refine .bind (within_any hF (o := .getInvocation _) hr.1) fun o _ => ?_
      cases o with
      | none => exact .throw trivial
      | some current => exact .pure trivial
    · exact within_startClaim hF hc _ hr.1
  · cases claimed with
    | some claim => exact .pure trivial
    | none =>
      refine .bind (within_any hF (o := .selectInvocation _ _) hkey) fun o _ => ?_
      cases o with
      | none => exact .throw trivial
      | some invocation => exact .pure trivial

end

end HyChat
