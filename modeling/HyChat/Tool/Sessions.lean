import HyChat.Tool.Claim

/-!
# Any number of sessions

Every call of the service keeps its session ready and reports only grants it holds, so a session
that makes calls forever is safe among others that do the same. `Reachable` collects what that
gives for every configuration any interleaving can reach: the invariant, and the safety of
everybody's remaining program, from which the claims about single calls start again.

Two facts about a session between its calls are carried along (`AtRest`). It is ready, which the
next call's commit needs. And it is `Calm`: there is no start it has made and not committed, so
what it sees as started is started for everybody. A claim is the only function that starts
anything, and it commits at once, so calmness costs one lemma for each kind of write.

`CallFrame` puts the three frames of the functions under one roof: a proof about a call of the
service, whichever it is, states its frame once and gets the specification of all five
(`spec_runCall`). The later modules on batches, payloads and scopes are made of such frames.

A session here is a list of calls made one after the other. Sessions of the code are requests and
tool nodes; which calls a session makes, and in which order, is left open everywhere, and so is how
many sessions there are.
-/

set_option autoImplicit false

namespace HyChat

open Lib Relation

section

variable {sha256 : Sha256} {issued : Call → Prop} {i : Nat} {t : Tracked}

/-- The rely of a session among arbitrary other sessions. -/
abbrev Others (i : Nat) (t t' : Tracked) : Prop := ∃ j, j ≠ i ∧ Guar j t t'

/-- What the rely says, unfolded. -/
theorem others_spec (t t' : Tracked) (h : Others i t t') : ∃ j, j ≠ i ∧ Guar j t t' := h

theorem quiet_guar (t t' : Tracked) (h : Quiet i t t') : Guar i t t' := h.toGuar

/-! ## Nothing started is left uncommitted -/

/-- The session has no uncommitted start: what it has written on an invocation that has been
    started, it has written after the start was committed. -/
def Calm (i : Nat) (t : Tracked) : Prop :=
  ∀ n r, (t.store.slot n).invocation.own i = some (some r) → r.status.executed = true →
    t.store.started n

/-- A session with nothing uncommitted is calm. -/
theorem Idle.calm (h : Idle i t) : Calm i t := by
  intro n r hr
  rw [(h n).1] at hr
  exact absurd hr (by simp)

/-- Others start what they like; nothing of this session's becomes an uncommitted start. -/
theorem stable_calm {R G : Tracked → Tracked → Prop}
    (hR : ∀ t t', R t t' → ∃ j, j ≠ i ∧ Guar j t t') :
    (toolParty sha256 issued i R G).Stable (Calm i) := by
  intro t t' hi _ hr h n r ho hx
  obtain ⟨j, hij, hg⟩ := hR t t' hr
  rw [hg.own_invocation hij] at ho
  exact (h n r ho hx).later (hg.later hi n)

/-- A calm session sees a start only when it is committed. -/
theorem Calm.started {n : Nat} {r : ToolInvocation} (h : Calm i t)
    (hr : (t.store.slot n).invocation.view i = some r) (hx : r.status.executed = true) :
    t.store.started n := by
  cases ho : (t.store.slot n).invocation.own i with
  | none =>
    rw [Cell.view_of_not_own ho] at hr
    exact ⟨r, hr, hx⟩
  | some v =>
    rw [Cell.view_of_own ho] at hr
    subst hr
    exact h n r ho hx

theorem Calm.putInvocation {n : Nat} {r : ToolInvocation} (h : Calm i t)
    (hx : r.status.executed = true → t.store.started n) :
    Calm i ⟨t.store.putInvocation i n r, t.granted⟩ := by
  intro m r' ho hx'
  by_cases hm : m = n
  · subst hm
    simp only [Store.putInvocation_slot_self, Cell.own_write_self, Option.some.injEq] at ho
    subst ho
    have hs := hx hx'
    unfold Store.started Slot.Started at hs ⊢
    simpa only [Store.putInvocation_slot_self, Cell.committed_write] using hs
  · simp only [Store.putInvocation_slot_of_ne hm] at ho
    have hs := h m r' ho hx'
    unfold Store.started Slot.Started at hs ⊢
    simpa only [Store.putInvocation_slot_of_ne hm] using hs

theorem Calm.insertInvocation {row : ToolInvocation} (h : Calm i t)
    (hx : row.status.executed = false) :
    Calm i ⟨t.store.insertInvocation i row, t.granted⟩ := by
  have hput := h.putInvocation (n := t.store.next) (r := { row with id := t.store.next })
    fun hx' => absurd hx' (by simp [hx])
  exact hput

theorem Calm.putApproval {n : Nat} {a : Approval} (h : Calm i t) :
    Calm i ⟨t.store.putApproval i n a, t.granted⟩ := by
  intro m r ho hx
  by_cases hm : m = n
  · subst hm
    simp only [Store.putApproval_slot_self] at ho
    have hs := h m r ho hx
    unfold Store.started Slot.Started at hs ⊢
    simpa only [Store.putApproval_slot_self] using hs
  · simp only [Store.putApproval_slot_of_ne hm] at ho
    have hs := h m r ho hx
    unfold Store.started Slot.Started at hs ⊢
    simpa only [Store.putApproval_slot_of_ne hm] using hs

theorem survives_calm {userId : String} {threadId runtimeRunId : Option String}
    {toolCallId toolName : String} {requestedInput : PyMapping} {approvalRequired : Bool} :
    Survives sha256 issued i userId threadId runtimeRunId toolCallId toolName requestedInput
      approvalRequired (Calm i) where
  fill := fun _ _ _ _ _ h hr _ _ _ _ => h.putInvocation fun hx => h.started hr hx
  insert := fun _ _ _ _ h _ => h.insertInvocation (by cases approvalRequired <;> rfl)

theorem withstands_calm {userId : String} {threadId : Option String} {toolCallId : String} :
    Withstands sha256 issued i userId threadId toolCallId (Calm i) where
  approval := fun _ _ _ _ _ h _ _ _ _ => h.putApproval
  invocation := fun _ _ _ _ _ h _ _ _ _ hx => h.putInvocation fun hx' =>
    absurd hx' (by simp [hx])

/-! ## What a call may write -/

/-- The scope of a call: a user, a thread if there is one, and the id of the tool call. -/
@[ext] structure Scope where
  userId : String
  threadId : Option String
  toolCallId : String
  deriving DecidableEq

variable (sha256) in
/-- The idempotency key of the scope. -/
def Scope.key (s : Scope) : String :=
  invocationIdempotencyKey sha256 s.userId s.threadId s.toolCallId

/-- The scopes a call of the service is made for. -/
def Call.scopes : Call → List Scope
  | .ensurePendingApprovals userId threadId _ toolCalls =>
      toolCalls.map fun tc => ⟨userId, threadId, orDefault tc.id ""⟩
  | .recordApprovalDecisions userId threadId _ decisions =>
      decisions.map fun d => ⟨userId, threadId, d.toolCallId⟩
  | .claimToolInvocation userId threadId _ toolCallId _ _ => [⟨userId, threadId, toolCallId⟩]
  | _ => []

/-- The invocation a finishing call is made for. -/
def Call.finishes : Call → Option Nat
  | .completeToolInvocation claim _ _ => some claim.invocationId
  | .failToolInvocation claim _ => some claim.invocationId
  | _ => none

variable (sha256) in
/-- The call is made for the row `r` in slot `n`. -/
def Call.Concerns (call : Call) (n : Nat) (r : ToolInvocation) : Prop :=
  (∃ s ∈ call.scopes, r.userId = s.userId ∧ r.idempotencyKey = s.key sha256) ∨
    call.finishes = some n

variable (sha256) (issued) (i) in
/-- What is asked of a frame for it to survive a call, and of a guarantee for the call's commit to
    meet it under the frame. -/
structure CallFrame (R G : Tracked → Tracked → Prop) (call : Call) (K : Tracked → Prop) :
    Prop where
  stable : (toolParty sha256 issued i R G).Stable K
  idle : call.finishes = none → ∀ t, Idle i t → K t
  putInvocation : ∀ t n r r', Inv sha256 issued t → K t →
    (t.store.slot n).invocation.view i = some r → call.Concerns sha256 n r → r.Evolves r' →
      K ⟨t.store.putInvocation i n r', t.granted⟩
  insertInvocation : ∀ t row, Inv sha256 issued t → K t →
    (∃ s ∈ call.scopes, row.userId = s.userId ∧ row.idempotencyKey = s.key sha256) →
      K ⟨t.store.insertInvocation i row, t.granted⟩
  putApproval : ∀ t n r a, Inv sha256 issued t → K t →
    (t.store.slot n).invocation.view i = some r → call.Concerns sha256 n r →
      K ⟨t.store.putApproval i n a, t.granted⟩
  setConversation : ∀ t threadId conversation, K t →
    Guar i t ⟨t.store.setConversation threadId conversation, t.granted⟩ →
      G t ⟨t.store.setConversation threadId conversation, t.granted⟩ ∧
        K ⟨t.store.setConversation threadId conversation, t.granted⟩
  commit : ∀ t g, Inv sha256 issued t → K t → Guar i t ⟨t.store.commit i, g⟩ →
    G t ⟨t.store.commit i, g⟩

/-- Nothing more is asked. -/
theorem CallFrame.true {R : Tracked → Tracked → Prop} (call : Call) :
    CallFrame sha256 issued i R (Guar i) call fun _ => True :=
  ⟨Party.Stable.pure _, fun _ _ _ => trivial, fun _ _ _ _ _ _ _ _ _ => trivial,
    fun _ _ _ _ _ => trivial, fun _ _ _ _ _ _ _ _ => trivial, fun _ _ _ _ hg => ⟨hg, trivial⟩,
    fun _ _ _ _ hg => hg⟩

section

variable {R G : Tracked → Tracked → Prop} {call : Call} {K : Tracked → Prop}
  (hF : CallFrame sha256 issued i R G call K)
include hF

/-- The frame of a call survives `_ensure_invocation` for each of the call's scopes. -/
theorem CallFrame.survives {userId : String} {threadId runtimeRunId : Option String}
    {toolCallId toolName : String} {requestedInput : PyMapping} {approvalRequired : Bool}
    (hs : ⟨userId, threadId, toolCallId⟩ ∈ call.scopes) :
    Survives sha256 issued i userId threadId runtimeRunId toolCallId toolName requestedInput
      approvalRequired K where
  fill := fun t n r now hi h hr hu hk _ _ =>
    hF.putInvocation t n r _ hi h hr (.inl ⟨_, hs, hu, hk⟩) (.fill r runtimeRunId now)
  insert := fun t _ _ hi h _ => hF.insertInvocation t _ hi h ⟨_, hs, rfl, rfl⟩

theorem CallFrame.withstands {userId : String} {threadId : Option String} {toolCallId : String}
    (hs : ⟨userId, threadId, toolCallId⟩ ∈ call.scopes) :
    Withstands sha256 issued i userId threadId toolCallId K where
  approval := fun t n r a' hi h hr hu hk _ =>
    hF.putApproval t n r a' hi h hr (.inl ⟨_, hs, hu, hk⟩)
  invocation := fun t n r r' hi h hr hu hk he _ =>
    hF.putInvocation t n r r' hi h hr (.inl ⟨_, hs, hu, hk⟩) he

/-- The frame of a claim of which nothing more is asked. -/
theorem ClaimFrame.basic {userId : String} {threadId runtimeRunId : Option String}
    {toolCallId toolName : String} {requestedInput : PyMapping}
    (hR : ∀ t t', R t t' → ∃ j, j ≠ i ∧ Guar j t t')
    (hs : ⟨userId, threadId, toolCallId⟩ ∈ call.scopes) :
    ClaimFrame sha256 issued i R G userId threadId runtimeRunId toolCallId toolName
      requestedInput (fun t => Calm i t ∧ K t) K (fun _ => True) (fun _ _ => True) True
      (fun _ => True) where
  stable := (stable_calm hR).and hF.stable
  stable_started := hF.stable
  survives := survives_calm.and (hF.survives hs)
  reads := Reads.true
  start := fun t n r now hi h hr hu hk hst =>
    hF.putInvocation t n r _ hi h.2 hr (.inl ⟨_, hs, hu, hk⟩) (.start hst now)
  permitted := fun _ _ _ _ _ _ _ _ _ _ => True.intro
  stable_permitted := fun _ => Party.Stable.pure _
  commit_permitted := fun _ _ _ _ _ => True.intro
  lost := fun _ _ _ _ _ _ _ _ _ _ _ _ => True.intro
  commit := fun t g hi h hg => hF.commit t g hi h.2 hg
  commit_started := hF.commit
  excused := Excused.true
  database := True.intro
  mismatch := fun _ _ _ _ _ _ _ _ _ => True.intro
  gone := fun _ _ => True.intro

end

variable (sha256) (issued) (i) in
/-- What a session knows between two calls. -/
def AtRest (t : Tracked) : Prop := Ready sha256 issued i t ∧ Calm i t

theorem Idle.atRest (h : Idle i t) : AtRest sha256 issued i t := ⟨h.ready, h.calm⟩

theorem stable_atRest {R G : Tracked → Tracked → Prop}
    (hR : ∀ t t', R t t' → ∃ j, j ≠ i ∧ Guar j t t') :
    (toolParty sha256 issued i R G).Stable (AtRest sha256 issued i) :=
  (stable_ready hR).and (stable_calm hR)

/-- **Every call leaves its session at rest**, its frame in place, and what it reports to be
    executed has been granted to the session. -/
theorem spec_runCall {R G : Tracked → Tracked → Prop}
    (hR : ∀ t t', R t t' → ∃ j, j ≠ i ∧ Guar j t t') (hG : ∀ t t', Quiet i t t' → G t t')
    {call : Call} {K : Tracked → Prop} (hF : CallFrame sha256 issued i R G call K)
    (hcall : issued call) :
    (toolParty sha256 issued i R G).Spec (fun t => AtRest sha256 issued i t ∧ K t)
      (runCall sha256 call)
      (fun o t => (AtRest sha256 issued i t ∧ K t) ∧ ∀ c, o = some c → c.shouldExecute = true →
        Granted sha256 i call c t) fun _ t => AtRest sha256 issued i t ∧ K t := by
  let C : Tracked → Prop := fun t => Calm i t ∧ K t
  have hrest : (toolParty sha256 issued i R G).Stable
      fun t => AtRest sha256 issued i t ∧ K t := (stable_atRest hR).and hF.stable
  have hC : (toolParty sha256 issued i R G).Stable C := (stable_calm hR).and hF.stable
  have hidle : call.finishes = none → ∀ t, Idle i t → AtRest sha256 issued i t ∧ K t :=
    fun hfin t h => ⟨h.atRest, hF.idle hfin t h⟩
  have hcommit : ∀ t g, Inv sha256 issued t → C t → Guar i t ⟨t.store.commit i, g⟩ →
      G t ⟨t.store.commit i, g⟩ := fun t g hi h hg => hF.commit t g hi h.2 hg
  -- a call that reports nothing
  have hnone : ∀ {body : Db Unit}, (toolParty sha256 issued i R G).Spec
      (fun t => Ready sha256 issued i t ∧ C t) body (fun _ t => AtRest sha256 issued i t ∧ K t)
        (fun _ t => AtRest sha256 issued i t ∧ K t) →
      (toolParty sha256 issued i R G).Spec (fun t => AtRest sha256 issued i t ∧ K t)
        (do body; pure none : Db (Option ToolInvocationClaim))
        (fun o t => (AtRest sha256 issued i t ∧ K t) ∧ ∀ c, o = some c →
          c.shouldExecute = true → Granted sha256 i call c t)
        fun _ t => AtRest sha256 issued i t ∧ K t :=
    fun h => Party.Spec.bind (h.pre fun _ _ ht => ⟨ht.1.1, ht.1.2, ht.2⟩) fun _ =>
      Party.Spec.pure hrest fun _ _ h => ⟨h, fun c hc => absurd hc (by simp)⟩
  -- a finishing update: what it finishes has been committed as started
  have hfinish : ∀ {claim : ToolInvocationClaim} {values : ToolInvocation → ToolInvocation},
      call.finishes = some claim.invocationId →
      (∀ r, r.status = .running → r.Evolves (values r) ∧
        (values r).status.executed = true ∧ (values r).attemptCount = r.attemptCount) →
      (toolParty sha256 issued i R G).Spec (fun t => Ready sha256 issued i t ∧ C t)
        (finishInvocation claim values) (fun _ t => AtRest sha256 issued i t ∧ K t)
          fun _ t => AtRest sha256 issued i t ∧ K t := by
    intro claim values hfin hvalues
    have hstarted : ∀ t r, Inv sha256 issued t → C t →
        (t.store.slot claim.invocationId).invocation.view i = some r → r.status = .running →
          t.store.started claim.invocationId :=
      fun t r _ h hr hs => h.1.started hr (by rw [hs]; rfl)
    refine (spec_finishInvocation (K := C) hR hG (fun _ => hrest) hC
      (fun t r hi h hr hs => ⟨h.1.putInvocation fun _ => hstarted t r hi h hr hs,
        hF.putInvocation t _ r _ hi h.2 hr (.inr hfin) (hvalues r hs).1⟩) hstarted hvalues
      fun _ _ h => ⟨⟨h.1, h.2.1⟩, h.2.2⟩).post fun _ _ _ h => ⟨⟨h.1, h.2.1⟩, h.2.2⟩
  have hclock : (toolParty sha256 issued i R G).Stable fun t => Ready sha256 issued i t ∧ C t :=
    (stable_ready hR).and hC
  cases call with
  | ensurePendingApprovals userId threadId runtimeRunId toolCalls =>
    have hs : ∀ tc ∈ toolCalls, (⟨userId, threadId, orDefault tc.id ""⟩ : Scope) ∈
        (Call.ensurePendingApprovals userId threadId runtimeRunId toolCalls).scopes :=
      fun tc htc => List.mem_map_of_mem htc
    exact hnone ((spec_ensurePendingApprovals (K := C) (E := fun _ _ => True) hR hG
      (fun _ => Party.Stable.pure _) (fun _ => hrest) hC
      (fun tc htc => survives_calm.and (hF.survives (hs tc htc)))
      (fun tc htc => withstands_calm.and (hF.withstands (hs tc htc)))
      (fun tc htc r hr => ⟨_, hcall, tc, htc, hr⟩) (fun _ _ => Excused.true)
      (fun _ _ _ => trivial) hcommit fun _ _ _ _ hid _ => hidle rfl _ hid).post
        fun _ t _ h => hidle rfl t h.1)
  | recordApprovalDecisions userId threadId runtimeRunId decisions =>
    have hs : ∀ d ∈ decisions, (⟨userId, threadId, d.toolCallId⟩ : Scope) ∈
        (Call.recordApprovalDecisions userId threadId runtimeRunId decisions).scopes :=
      fun d hd => List.mem_map_of_mem hd
    exact hnone ((spec_recordApprovalDecisions (K := C) hR hG hC
      (fun t _ h => ⟨h.calm, hF.idle rfl t h⟩)
      (fun d hd => survives_calm.and (hF.survives (hs d hd)))
      (fun d hd => withstands_calm.and (hF.withstands (hs d hd))) hcall hcommit).conseq
        (fun _ _ h => h) (fun _ t _ h => hidle rfl t h.1) fun _ t _ h => hidle rfl t h)
  | claimToolInvocation userId threadId runtimeRunId toolCallId toolName requestedInput =>
    refine Party.Spec.bind ((spec_claimToolInvocation hR hG hcall
      (ClaimFrame.basic hF hR (by simp [Call.scopes]))).conseq
        (fun _ _ h => ⟨h.1.1, h.1.2, h.2⟩) (fun c t _ h => h) fun _ t _ h => hidle rfl t h.1)
          fun c => ?_
    refine Party.Spec.pure ?_ fun t _ h => ⟨hidle rfl t h.1, fun c' hc' hx => ?_⟩
    · exact (stable_idle hR).and <| (Party.Stable.pure _).and ((Party.Stable.forall fun _ =>
        (Party.Stable.pure _).and (stable_granted hR _ c)).and (Party.Stable.pure _))
    · simp only [Option.some.injEq] at hc'
      subst hc'
      exact (h.2.2.1 hx).2
  | completeToolInvocation claim result errorMessage =>
    refine hnone (Party.Spec.bind (spec_utcnow hclock hG) fun now => hfinish rfl fun r hr => ?_)
    refine ⟨.finish hr ?_ _ _ _ now, ?_, rfl⟩
    · cases truthy errorMessage <;> simp
    · cases truthy errorMessage <;> rfl
  | failToolInvocation claim errorMessage =>
    refine hnone (Party.Spec.bind (spec_utcnow hclock hG) fun now => hfinish rfl fun r hr => ?_)
    exact ⟨.finish hr (.inr rfl) _ _ _ now, rfl, rfl⟩
  | commit =>
    exact hnone (spec_commit hclock (fun _ => hrest) (fun _ => hrest) hG
      (fun _ _ h => ⟨⟨h.1, h.2.1⟩, h.2.2⟩) (fun _ _ h => h.1)
      fun t g hi h hg hid _ => ⟨hcommit t g hi h.2 hg, hidle rfl _ hid⟩)
  | rollback =>
    exact hnone (spec_rollback hclock (fun _ => hrest) hG fun _ _ _ hid _ => hidle rfl _ hid)
  | setConversation threadId conversation =>
    refine hnone (spec_perform hclock (fun _ => hrest) (fun _ => hrest) hG
      (fun _ _ h => ⟨⟨h.1, h.2.1⟩, h.2.2⟩) ?_)
    intro t now r s' hi ht hrun
    simp only [Stmt.run, Option.some.injEq, Prod.mk.injEq] at hrun
    obtain ⟨rfl, rfl⟩ := hrun
    obtain ⟨hi', hg⟩ := hi.setConversation i threadId conversation
    obtain ⟨hg', hK'⟩ := hF.setConversation t threadId conversation ht.2.2 hg
    exact ⟨t.granted, hi', hg', ⟨ht.1, ht.2.1⟩, hK'⟩

/-- A call and its entry in the log: a grant is used up when it is reported. -/
theorem triple_observeCall {call : Call} (hcall : issued call) :
    (toolParty sha256 issued i (Others i) (Guar i)).Triple (AtRest sha256 issued i)
      (observeCall sha256 call) fun _ => AtRest sha256 issued i := by
  have hR := others_spec (i := i)
  have hrest : (toolParty sha256 issued i (Others i) (Guar i)).Stable (AtRest sha256 issued i) :=
    stable_atRest hR
  unfold observeCall
  refine Party.Triple.bind (M := Party.Ends (fun o t => AtRest sha256 issued i t ∧
      ∀ c, o = some c → c.shouldExecute = true → Granted sha256 i call c t)
        fun _ => AtRest sha256 issued i)
    ((spec_runCall hR quiet_guar (CallFrame.true call) hcall).conseq (fun _ _ h => ⟨h, trivial⟩)
      (fun _ _ _ h => ⟨h.1.1, h.2⟩) fun _ _ _ h => h.1) fun outcome => ?_
  refine Party.Triple.call (M := fun _ => AtRest sha256 issued i) ?_ ?_ fun _ =>
    Party.Triple.ret hrest fun _ _ h => h
  · cases outcome with
    | error e => exact hrest
    | ok o => exact hrest.and (Party.Stable.forall fun c => Party.Stable.forall fun _ =>
        Party.Stable.forall fun _ => stable_granted hR call c)
  · intro t r s' hi h hs
    obtain ⟨choice, hc⟩ := hs
    simp only [toolDb, Stmt.fallible, Bool.and_false, Bool.false_eq_true, if_false, Stmt.run,
      Option.some.injEq, Prod.mk.injEq] at hc
    obtain ⟨rfl, rfl⟩ := hc
    by_cases hgrant : ∃ c, outcome = .ok (some c) ∧ c.shouldExecute = true
    · obtain ⟨c, rfl, hx⟩ := hgrant
      obtain ⟨hr, hgr⟩ := h
      obtain ⟨hg, r₂, hr₂, hx₂, hp⟩ := hgr c rfl hx
      obtain ⟨hi', hguar⟩ := hi.emit_grant hg hr₂ hx₂ hp
      exact ⟨⟨t.store.log ⟨call, .ok (some c)⟩, _⟩, rfl, hi', hguar, hr⟩
    · have hr : AtRest sha256 issued i t := by
        cases outcome with
        | error e => exact h
        | ok o => exact h.1
      obtain ⟨hi', hguar⟩ := hi.emit i (e := ⟨call, outcome⟩) fun c hc => by
        by_contra hne
        exact hgrant ⟨c, hc, by simpa using hne⟩
      exact ⟨⟨t.store.log ⟨call, outcome⟩, t.granted⟩, rfl, hi', hguar, hr⟩

/-- A session that makes any list of calls. -/
theorem triple_session : ∀ {calls : List Call}, (∀ call ∈ calls, issued call) →
    (toolParty sha256 issued i (Others i) (Guar i)).Triple (AtRest sha256 issued i)
      (session sha256 calls) fun _ _ => True := by
  intro calls
  induction calls with
  | nil => exact fun _ => Party.Triple.ret (stable_atRest others_spec) fun _ _ _ => trivial
  | cons call calls ih =>
    intro h
    exact Party.Triple.bind (triple_observeCall (h call List.mem_cons_self)) fun _ =>
      ih fun c hc => h c (List.mem_cons_of_mem _ hc)

/-! ## Every interleaving -/

/-- The beginning: empty tables, no grants, and every session at rest. -/
theorem start_good {conversation : String → Option Conversation} {calls : Nat → List Call}
    (h : ∀ i, ∀ call ∈ calls i, issued call) :
    (toolFamily sha256 issued).Good (start sha256 conversation calls)
      ⟨.initial conversation, fun _ => none⟩ := by
  refine Machine.Family.good_of_triples (P := fun i => AtRest sha256 issued i) rfl
    (Inv.initial conversation) (fun i => ?_) fun i => triple_session (h i)
  exact Idle.atRest fun n => ⟨rfl, rfl⟩

variable (issued) in
/-- **What holds after any interleaving of the sessions.** -/
theorem reachable_good {conversation : String → Option Conversation} {calls : Nat → List Call}
    (h : ∀ i, ∀ call ∈ calls i, issued call) {c : Config toolSig Store Nat}
    (hc : toolDb.Steps (start sha256 conversation calls) c) :
    ∃ t, (toolFamily sha256 issued).Good c t := by
  obtain ⟨t, hgood, -⟩ := (start_good h).steps hc
  exact ⟨t, hgood⟩

/-- The session has nothing uncommitted, computed. -/
def Store.idle (s : Store) (i : Nat) : Bool :=
  (List.range s.next).all fun n =>
    ((s.slot n).invocation.own i).isNone && ((s.slot n).approval.own i).isNone

theorem Store.idle_iff {c : Config toolSig Store Nat} {t : Tracked}
    (hgood : (toolFamily sha256 issued).Good c t) : c.store.idle i = true ↔
      ∀ n, (c.store.slot n).invocation.own i = none ∧ (c.store.slot n).approval.own i = none := by
  have hreal : t.store = c.store := hgood.real
  simp only [Store.idle, List.all_eq_true, List.mem_range, Bool.and_eq_true,
    Option.isNone_iff_eq_none]
  refine ⟨fun h n => ?_, fun h n _ => h n⟩
  by_cases hn : n < c.store.next
  · exact h n hn
  · -- no slot has been used from `next` on
    have hempty := hgood.inv.fresh n (by rw [hreal]; omega)
    rw [hreal] at hempty
    rw [hempty]
    exact ⟨rfl, rfl⟩

/-- Whoever moves, committed rows only evolve. -/
theorem moves_later {t t' : Tracked} (hi : Inv sha256 issued t)
    (hm : ReflTransGen (toolFamily sha256 issued).Move t t') (n : Nat) :
    Later ToolInvocation.Evolves (t.store.slot n).invocation.committed
        (t'.store.slot n).invocation.committed ∧
      Later Approval.Evolves (t.store.slot n).approval.committed
        (t'.store.slot n).approval.committed := by
  induction hm using ReflTransGen.head_induction_on with
  | refl => exact ⟨Later.refl .refl _, Later.refl .refl _⟩
  | head hab _ ih =>
    obtain ⟨⟨j, hg⟩, hi'⟩ := hab
    obtain ⟨ih₁, ih₂⟩ := ih hi'
    exact ⟨Later.trans (fun _ _ _ h h' => h.trans h') (hg.later hi n) ih₁,
      Later.trans (fun _ _ _ h h' => h.trans h') (hg.approval_later hi n) ih₂⟩

/-- Along a run, committed rows only evolve. -/
theorem steps_later {c c' : Config toolSig Store Nat} {t : Tracked}
    (hgood : (toolFamily sha256 issued).Good c t) (hc : toolDb.Steps c c') (n : Nat) :
    Later ToolInvocation.Evolves (c.store.slot n).invocation.committed
        (c'.store.slot n).invocation.committed ∧
      Later Approval.Evolves (c.store.slot n).approval.committed
        (c'.store.slot n).approval.committed := by
  obtain ⟨t', hgood', hm⟩ := hgood.steps hc
  have key := moves_later hgood.inv hm n
  have hr : t.store = c.store := hgood.real
  have hr' : t'.store = c'.store := hgood'.real
  rw [hr, hr'] at key
  exact key

end

end HyChat
