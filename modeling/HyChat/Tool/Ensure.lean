import HyChat.Tool.Rules

/-!
# `_ensure_invocation`

The specification of the function every operation begins with. A session that is ready either
finds a row for the key and stays ready, or inserts one and is left with a slot it must complete
before it commits (`Fresh`). Two branches of the source turn out never to be taken: the row is
always found after the insertion, and a row that is found is never `PENDING`, so the flush that
turns `PENDING` into `PENDING_APPROVAL` is dead.

The specification is stated with a frame `K` of the caller's choice, which has to survive the two
writes the function may do, and with the exceptional postcondition `E` of the caller, which has to
follow from `K` and the reason for the exception.

`Survives`, `Reads` and `Excused` are the three interfaces between this function and the five
operations that call it. They are structures and not hypotheses of one lemma because the callers
prove them in very different ways: a frame that is upward survives by one lemma, the frame of a
session that only fills run ids does not, and says so in `fill`. `Reads` is what a caller learns of
the row at the moment it is read, before anybody can change it.

What the function does about the run id is in the model as it is in the source: an empty one is
filled, another one is left alone, and no exception comes from a different one. That write is the
reason why a batch that is recorded twice is not quite a no-op.
-/

set_option autoImplicit false

namespace HyChat

open Lib Relation

/-! ## Checks -/

/-- The lengths `_validate_identity` accepts. -/
def ValidIdentity (threadId runtimeRunId : Option String) (toolCallId : String) : Prop :=
  (∀ s, threadId = some s → s.length ≤ 64) ∧ (∀ s, runtimeRunId = some s → s.length ≤ 128) ∧
    toolCallId ≠ "" ∧ toolCallId.length ≤ 255

/-- The thread's conversation belongs to somebody else. -/
def Foreign (userId : String) (threadId : Option String) (s : Store) : Prop :=
  ∃ thread c, threadId = some thread ∧ thread ≠ "" ∧ s.conversation thread = some c ∧
    c.userId ≠ userId

section

variable (sha256 : Sha256)

/-- The row is one for the thread and the call, and its payload is the one presented. -/
def Accepts (threadId : Option String) (toolCallId toolName : String) (requested : Json)
    (allowEffectiveMatch : Bool) (r : ToolInvocation) : Prop :=
  r.threadId = threadId ∧ r.toolCallId = toolCallId ∧
    (originalPayloadMatches sha256 r toolName requested ||
      (allowEffectiveMatch && effectivePayloadMatches sha256 r toolName requested)) = true

end

section

variable {sha256 : Sha256} {issued : Call → Prop} {i n : Nat} {t : Tracked}

/-! ## Writing a row one sees -/

/-- Writing a row that one sees, so that it stays coupled, keeps the session ready. -/
theorem Ready.putInvocation (h : Ready sha256 issued i t) (hi : Inv sha256 issued t)
    {r r' : ToolInvocation} (hr : (t.store.slot n).invocation.view i = some r)
    (hmono : ∀ a, Coupled sha256 issued (some r) a → Coupled sha256 issued (some r') a) :
    Ready sha256 issued i ⟨t.store.putInvocation i n r', t.granted⟩ := by
  intro m
  by_cases hm : m = n
  · subst hm
    simp only [Store.putInvocation_slot_self]
    exact Safe.writeInvocation (hi.slots m) (h m) hr hmono
  · simp only [Store.putInvocation_slot_of_ne hm]
    exact h m

/-- An inserted row is fresh. -/
theorem Ready.insertInvocation (h : Ready sha256 issued i t) (hi : Inv sha256 issued t)
    (row : ToolInvocation) :
    Fresh sha256 issued i { row with id := t.store.next }
      ⟨t.store.insertInvocation i row, t.granted⟩ := by
  have hempty := hi.fresh t.store.next (Nat.le_refl _)
  have hself : (t.store.insertInvocation i row).slot t.store.next =
      ⟨Slot.empty.invocation.write i (some { row with id := t.store.next }),
        Slot.empty.approval⟩ := by
    simp [Store.insertInvocation, hempty]
  refine ⟨fun m hm => ?_, ?_, ?_, ?_⟩
  · show Safe sha256 issued i ((t.store.putInvocation i t.store.next _).slot m)
    rw [Store.putInvocation_slot_of_ne hm]
    exact h m
  · simp only [hself, Cell.own_write_self]
  · simp only [hself, Cell.committed_write]
    rfl
  · simp only [hself]
    rfl

/-- Filling the run id concerns no invariant. -/
theorem Coupled.fill {r : ToolInvocation} (runtimeRunId : Option String) (now : Nat)
    {a : Option Approval} (h : Coupled sha256 issued (some r) a) :
    Coupled sha256 issued (some { r with runtimeRunId := runtimeRunId, updatedAt := now }) a :=
  h.mono (.fill r runtimeRunId now) ⟨rfl, rfl⟩ (.inl rfl)

theorem ToolInvocation.WellFormed.fill {r : ToolInvocation} (h : r.WellFormed sha256 issued n)
    (runtimeRunId : Option String) (now : Nat) :
    { r with runtimeRunId := runtimeRunId, updatedAt := now }.WellFormed sha256 issued n :=
  h.evolves (.fill r runtimeRunId now) h.attempts fun _ => ⟨rfl, rfl⟩

/-- The same run id filled into both versions of a row leaves the one later than the other. -/
theorem ToolInvocation.Evolves.fill_both {r r' : ToolInvocation} (h : r.Evolves r')
    (runtimeRunId : Option String) (now : Nat) :
    { r with runtimeRunId := runtimeRunId, updatedAt := now }.Evolves
      { r' with runtimeRunId := runtimeRunId, updatedAt := now } :=
  ⟨h.id, h.userId, h.threadId, h.toolCallId, h.idempotencyKey, h.toolName, h.requestedInput,
    h.status, h.effective, h.finished⟩

/-- What is inserted is well formed: its payload is the one the call presents. -/
theorem newInvocation_wf {userId : String} {threadId runtimeRunId : Option String}
    {toolCallId toolName : String} {requestedInput : PyMapping} {approvalRequired : Bool}
    (hreg : ∀ r : ToolInvocation,
      r.IsFor sha256 userId threadId toolCallId toolName requestedInput →
        ∃ call, issued call ∧ call.Registers sha256 r)
    (hvalid : ValidIdentity threadId runtimeRunId toolCallId)
    (conversationId : Option String) (now n : Nat) :
    { newInvocation sha256 userId threadId runtimeRunId toolCallId toolName
        (jsonObject sha256 (.mapping requestedInput)) approvalRequired conversationId now with
      id := n }.WellFormed sha256 issued n where
  id := rfl
  key := rfl
  threadId := hvalid.1
  toolCallId := hvalid.2.2
  attempts := by cases approvalRequired <;> rfl
  registered := hreg _ ⟨rfl, rfl, rfl, rfl, rfl⟩
  undecided := fun _ => ⟨rfl, rfl⟩

/-! ## The pieces -/

section

variable {R G : Tracked → Tracked → Prop} {P K : Tracked → Prop}
  {E : PyError → Tracked → Prop}

/-- A check that has not raised leaves its negation. -/
theorem spec_raiseIf {condition : Bool} {error : PyError}
    (hP : (toolParty sha256 issued i R G).Stable P)
    (h : condition = true → ∀ t, Inv sha256 issued t → P t → E error t) :
    (toolParty sha256 issued i R G).Spec P (raiseIf condition error)
      (fun _ t => condition = false ∧ P t) E := by
  unfold raiseIf
  cases hc : condition with
  | true => exact Party.Spec.throw hP (h hc)
  | false => exact Party.Spec.pure hP fun _ _ ht => ⟨rfl, ht⟩

/-- The check of the lengths comes first and writes nothing. -/
theorem spec_validateIdentity {threadId runtimeRunId : Option String} {toolCallId : String}
    (hP : (toolParty sha256 issued i R G).Stable P)
    (h : ¬ ValidIdentity threadId runtimeRunId toolCallId → ∀ t message, Inv sha256 issued t →
      P t → E (.toolInvocationConflict message) t) :
    (toolParty sha256 issued i R G).Spec P (validateIdentity threadId runtimeRunId toolCallId)
      (fun _ t => ValidIdentity threadId runtimeRunId toolCallId ∧ P t) E := by
  have hany : ∀ (o : Option String) (k : Nat), o.any (k < ·.length) = false →
      ∀ s, o = some s → s.length ≤ k := by
    rintro o k ho s rfl
    simpa using ho
  have hex : ∀ (o : Option String) (k : Nat), o.any (k < ·.length) = true →
      ¬ ∀ s, o = some s → s.length ≤ k := by
    intro o k ho hall
    obtain ⟨s, hs, hlt⟩ := (Option.any_eq_true _ _).mp ho
    exact absurd (hall s hs) (by simpa using hlt)
  unfold validateIdentity
  refine Party.Spec.bind (spec_raiseIf hP fun hc t hi ht => h (fun hv => ?_) t _ hi ht) fun _ =>
    Party.Spec.pure_pre fun h1 => ?_
  · exact hex threadId 64 hc hv.1
  refine Party.Spec.bind (spec_raiseIf hP fun hc t hi ht => h (fun hv => ?_) t _ hi ht) fun _ =>
    Party.Spec.pure_pre fun h2 => ?_
  · exact hex runtimeRunId 128 hc hv.2.1
  refine Party.Spec.bind (spec_raiseIf hP fun hc t hi ht => h (fun hv => ?_) t _ hi ht) fun _ =>
    Party.Spec.pure_pre fun h3 => ?_
  · exact hv.2.2.1 (by simpa using hc)
  refine (spec_raiseIf hP fun hc t hi ht => h (fun hv => ?_) t _ hi ht).post fun _ t _ ht => ?_
  · exact absurd hv.2.2.2 (by simpa using hc)
  · obtain ⟨h4, ht⟩ := ht
    exact ⟨⟨hany threadId 64 h1, hany runtimeRunId 128 h2, by simpa using h3, by simpa using h4⟩,
      ht⟩

variable (hE : ∀ e, (toolParty sha256 issued i R G).Stable (E e))
  (hG : ∀ t t', Quiet i t t' → G t t')
include hE hG

/-- The owner of the thread's conversation is looked up, and another one's raises. -/
theorem spec_conversationIdForUser {userId : String} {threadId : Option String}
    (hP : (toolParty sha256 issued i R G).Stable P)
    (hfault : ∀ t, Inv sha256 issued t → P t → E .databaseError t)
    (hown : ∀ t, Inv sha256 issued t → P t → Foreign userId threadId t.store →
      E (.toolInvocationOwnershipError "无权访问该工具调用所属会话") t) :
    (toolParty sha256 issued i R G).Spec P (conversationIdForUser userId threadId)
      (fun _ => P) E := by
  unfold conversationIdForUser
  cases threadId with
  | none => exact Party.Spec.pure hP fun _ _ h => h
  | some thread =>
    by_cases hth : thread = ""
    · simp only [hth, if_true]
      exact Party.Spec.pure hP fun _ _ h => h
    simp only [hth, if_false]
    -- what is found under the thread decides now whether the check below will raise
    let Q : Option Conversation → Tracked → Prop := fun c t => P t ∧
      ∀ c', c = some c' → c'.userId ≠ userId →
        E (.toolInvocationOwnershipError "无权访问该工具调用所属会话") t
    have hQ : ∀ c, (toolParty sha256 issued i R G).Stable (Q c) := fun c =>
      hP.and (Party.Stable.forall fun _ => Party.Stable.forall fun _ =>
        Party.Stable.forall fun _ => hE _)
    refine Party.Spec.bind (M := Q) (spec_read (fun _ s => s.conversation thread)
      (fun _ _ => rfl) hP hQ hE hG hfault fun t _ hi ht => ⟨ht, fun c' hc hne => ?_⟩) fun c => ?_
    · exact hown t hi ht ⟨thread, c', rfl, hth, hc, hne⟩
    · cases c with
      | none => exact Party.Spec.pure (hQ none) fun _ _ h => h.1
      | some c' =>
        refine Party.Spec.bind (spec_raiseIf (hQ (some c')) fun hc t _ ht => ?_) fun _ => ?_
        · exact ht.2 c' rfl (by simpa using hc)
        · exact Party.Spec.pure_pre fun _ => Party.Spec.pure (hQ (some c')) fun _ _ h => h.1

/-- An `UPDATE` by primary key of a row the session sees. -/
theorem spec_flush {id : Nat} {values : ToolInvocation → ToolInvocation} {M : Tracked → Prop}
    (hP : (toolParty sha256 issued i R G).Stable P)
    (hM : (toolParty sha256 issued i R G).Stable M)
    (hfault : ∀ t, Inv sha256 issued t → P t → E .databaseError t)
    (hthere : ∀ t, Inv sha256 issued t → P t →
      ∃ r, (t.store.slot id).invocation.view i = some r)
    (hhit : ∀ t r, Inv sha256 issued t → P t →
      (t.store.slot id).invocation.view i = some r →
        r.Evolves (values r) ∧ (values r).WellFormed sha256 issued id ∧
        (values r).status = r.status ∧
          M ⟨t.store.putInvocation i id (values r), t.granted⟩) :
    (toolParty sha256 issued i R G).Spec P (flush id values) (fun _ => M) E := by
  unfold flush
  let Q : Nat → Tracked → Prop := fun rowcount t => rowcount = 1 ∧ M t
  have hQ : ∀ k, (toolParty sha256 issued i R G).Stable (Q k) := fun k =>
    (Party.Stable.pure _).and hM
  refine Party.Spec.bind (M := Q) (spec_updateInvocation hP hQ hE hG hfault ?_ ?_) fun k => ?_
  · intro t hi ht hnone
    obtain ⟨r, hr⟩ := hthere t hi ht
    exact absurd (hnone r hr) (by decide)
  · intro t r hi ht hr _
    obtain ⟨he, hw, hs, hq⟩ := hhit t r hi ht hr
    refine ⟨he, hw, fun hx => ?_, rfl, hq⟩
    rw [hs] at hx ⊢
    exact (hi.slots id).view_started hr hx
  · refine (spec_raiseIf (hQ k) fun hc t _ ht => ?_).post fun _ _ _ h => h.2.2
    exact absurd ht.1 (by simpa using hc)

end

/-! ## The function -/

section

variable (sha256) (issued) (i)

/-- A row that had no run id when it was read stands in slot `n`. -/
def ReadEmpty (K : Tracked → Prop) (n : Nat) : Prop :=
  ∃ t r, Inv sha256 issued t ∧ K t ∧ (t.store.slot n).invocation.view i = some r ∧
    truthy r.runtimeRunId = false

/-- The caller's frame survives the two writes `_ensure_invocation` may do for a scope. -/
structure Survives (userId : String) (threadId runtimeRunId : Option String)
    (toolCallId toolName : String) (requestedInput : PyMapping) (approvalRequired : Bool)
    (K : Tracked → Prop) : Prop where
  fill : ∀ t n r now, Inv sha256 issued t → K t →
    (t.store.slot n).invocation.view i = some r → r.userId = userId →
    r.idempotencyKey = invocationIdempotencyKey sha256 userId threadId toolCallId →
    truthy runtimeRunId = true → ReadEmpty sha256 issued i K n →
      K ⟨t.store.putInvocation i n { r with runtimeRunId := runtimeRunId, updatedAt := now },
        t.granted⟩
  insert : ∀ t conversationId now, Inv sha256 issued t → K t →
    t.store.findSlot (Slot.seesInvocation i userId
      (invocationIdempotencyKey sha256 userId threadId toolCallId)) = none →
      K ⟨t.store.insertInvocation i (newInvocation sha256 userId threadId runtimeRunId toolCallId
        toolName (jsonObject sha256 (.mapping requestedInput)) approvalRequired conversationId
        now), t.granted⟩

/-- What the frame says of a row with the key when it is read. -/
structure Reads (userId : String) (threadId : Option String) (toolCallId : String)
    (K : Tracked → Prop) (Z : ToolInvocation → Prop) : Prop where
  read : ∀ t n r, Inv sha256 issued t → K t → (t.store.slot n).invocation.view i = some r →
    r.userId = userId →
    r.idempotencyKey = invocationIdempotencyKey sha256 userId threadId toolCallId → Z r
  fill : ∀ r rid now, Z r → Z { r with runtimeRunId := rid, updatedAt := now }

/-- The caller's exceptional postcondition follows from each reason to raise. -/
structure Excused (userId : String) (threadId runtimeRunId : Option String)
    (toolCallId toolName : String) (requestedInput : PyMapping) (allowEffectiveMatch : Bool)
    (K : Tracked → Prop) (E : PyError → Tracked → Prop) : Prop where
  fault : ∀ t, Inv sha256 issued t → K t → E .databaseError t
  identity : ¬ ValidIdentity threadId runtimeRunId toolCallId → ∀ t message,
    Inv sha256 issued t → K t → E (.toolInvocationConflict message) t
  owner : ∀ t message, Inv sha256 issued t → K t → Foreign userId threadId t.store →
    E (.toolInvocationOwnershipError message) t
  conflict : ∀ t message r, Inv sha256 issued t → K t → Sees i r t → r.userId = userId →
    r.idempotencyKey = invocationIdempotencyKey sha256 userId threadId toolCallId →
    ¬ Accepts sha256 threadId toolCallId toolName
      (jsonObject sha256 (.mapping requestedInput)) allowEffectiveMatch r →
        E (.toolInvocationConflict message) t

end

variable (sha256) (issued) (i) in
/-- What `_ensure_invocation` hands back: the row for the key, accepted; the session is ready, or
    it has just inserted the row. -/
def Adopted (userId : String) (threadId : Option String) (toolCallId toolName : String)
    (requestedInput : PyMapping) (approvalRequired allowEffectiveMatch : Bool)
    (r : ToolInvocation) (t : Tracked) : Prop :=
  r.userId = userId ∧
  r.idempotencyKey = invocationIdempotencyKey sha256 userId threadId toolCallId ∧
  Accepts sha256 threadId toolCallId toolName (jsonObject sha256 (.mapping requestedInput))
    allowEffectiveMatch r ∧
  Sees i r t ∧
  ((Ready sha256 issued i t ∧ r.status ≠ .pending) ∨
    (Fresh sha256 issued i r t ∧
      r.status = if approvalRequired then .pendingApproval else .pending))

section

variable {R G : Tracked → Tracked → Prop} {K : Tracked → Prop} {E : PyError → Tracked → Prop}
  {Z : ToolInvocation → Prop} {userId : String} {threadId runtimeRunId : Option String} {toolCallId toolName : String}
  {requestedInput : PyMapping} {approvalRequired allowEffectiveMatch : Bool}
  (hR : ∀ t t', R t t' → ∃ j, j ≠ i ∧ Guar j t t') (hG : ∀ t t', Quiet i t t' → G t t')
include hR

theorem stable_adopted (r : ToolInvocation) :
    (toolParty sha256 issued i R G).Stable (Adopted sha256 issued i userId threadId toolCallId
      toolName requestedInput approvalRequired allowEffectiveMatch r) :=
  (Party.Stable.pure _).and <| (Party.Stable.pure _).and <| (Party.Stable.pure _).and <|
    (stable_sees hR r).and <| ((stable_ready hR).and (Party.Stable.pure _)).or
      ((stable_fresh hR r).and (Party.Stable.pure _))

include hG

/-- The function, for any frame that survives it. -/
theorem spec_ensureInvocation
    (hE : ∀ e, (toolParty sha256 issued i R G).Stable (E e))
    (hK : (toolParty sha256 issued i R G).Stable K)
    (hKs : Survives sha256 issued i userId threadId runtimeRunId toolCallId toolName
      requestedInput approvalRequired K)
    (hZ : Reads sha256 issued i userId threadId toolCallId K Z)
    (hreg : ∀ r : ToolInvocation,
      r.IsFor sha256 userId threadId toolCallId toolName requestedInput →
        ∃ call, issued call ∧ call.Registers sha256 r)
    (hX : Excused sha256 issued i userId threadId runtimeRunId toolCallId toolName requestedInput
      allowEffectiveMatch K E) :
    (toolParty sha256 issued i R G).Spec (fun t => Ready sha256 issued i t ∧ K t)
      (ensureInvocation sha256 userId threadId runtimeRunId toolCallId toolName requestedInput
        approvalRequired allowEffectiveMatch)
      (fun r t => Adopted sha256 issued i userId threadId toolCallId toolName requestedInput
        approvalRequired allowEffectiveMatch r t ∧ Z r ∧ K t) E := by
  have hRK : (toolParty sha256 issued i R G).Stable
      fun t => Ready sha256 issued i t ∧ K t := (stable_ready hR).and hK
  have hf : ∀ t, Inv sha256 issued t → (Ready sha256 issued i t ∧ K t) → E .databaseError t :=
    fun t hi h => hX.fault t hi h.2
  unfold ensureInvocation
  refine Party.Spec.bind (spec_validateIdentity hRK fun hv t m hi h => hX.identity hv t m hi h.2)
    fun _ => Party.Spec.pure_pre fun hvalid => ?_
  refine Party.Spec.bind (spec_utcnow hRK hG) fun now => ?_
  refine Party.Spec.bind (spec_conversationIdForUser hE hG hRK hf
    fun t hi h hfor => hX.owner t _ hi h.2 hfor) fun conversationId => ?_
  generalize hrow : newInvocation sha256 userId threadId runtimeRunId toolCallId toolName
    (jsonObject sha256 (.mapping requestedInput)) approvalRequired conversationId now = row
  have hrowu : row.userId = userId := by rw [← hrow]; rfl
  have hrowk : row.idempotencyKey =
      invocationIdempotencyKey sha256 userId threadId toolCallId := by rw [← hrow]; rfl
  have hrows : row.status = if approvalRequired then .pendingApproval else .pending := by
    rw [← hrow]; rfl
  have hrowr : row.runtimeRunId = runtimeRunId := by rw [← hrow]; rfl
  have hroww : ∀ n, { row with id := n }.WellFormed sha256 issued n := by
    rw [← hrow]
    exact newInvocation_wf hreg hvalid conversationId now
  -- after the insertion the key is there, or the row is the session's own
  let A : Tracked → Prop := fun t => K t ∧
    ((Ready sha256 issued i t ∧ ∃ r, Sees i r t ∧ r.userId = userId ∧
        r.idempotencyKey = invocationIdempotencyKey sha256 userId threadId toolCallId) ∨
      ∃ n, Fresh sha256 issued i { row with id := n } t)
  have hA : (toolParty sha256 issued i R G).Stable A :=
    hK.and (((stable_ready hR).and (Party.Stable.exists fun r =>
      (stable_sees hR r).and (Party.Stable.pure _))).or
        (Party.Stable.exists fun n => stable_fresh hR _))
  refine Party.Spec.bind (M := fun _ => A) (spec_insertInvocation hRK (fun _ => hA) hE hG hf
    hroww (by rw [hrows]; cases approvalRequired <;> rfl) ?_ ?_) fun _ => ?_
  · intro t m r hi h hr hu hk
    have hid := hi.view_at hr
    exact ⟨h.2, .inl ⟨h.1, r, ⟨r, by rw [hid, hr], .refl r⟩, by rw [hu, hrowu],
      by rw [hk, hrowk]⟩⟩
  · intro t hi h hs
    refine ⟨?_, .inr ⟨t.store.next, h.1.insertInvocation hi row⟩⟩
    rw [hrowu, hrowk] at hs
    rw [← hrow]
    exact hKs.insert t conversationId now hi h.2 hs
  -- the row is read back
  let Read : ToolInvocation → Prop := fun r => Z r ∧
    ∃ t, Inv sha256 issued t ∧ K t ∧ (t.store.slot r.id).invocation.view i = some r
  let B : ToolInvocation → Tracked → Prop := fun r t => K t ∧ Read r ∧ r.userId = userId ∧
    r.idempotencyKey = invocationIdempotencyKey sha256 userId threadId toolCallId ∧
    Sees i r t ∧ ((Ready sha256 issued i t ∧ r.status ≠ .pending) ∨
      (Fresh sha256 issued i r t ∧ ∃ n, r = { row with id := n }))
  have hB : ∀ r, (toolParty sha256 issued i R G).Stable (B r) := fun r =>
    hK.and <| (Party.Stable.pure _).and <| (Party.Stable.pure _).and <| (Party.Stable.pure _).and <|
      (stable_sees hR r).and <| ((stable_ready hR).and (Party.Stable.pure _)).or
        ((stable_fresh hR r).and (Party.Stable.pure _))
  refine Party.Spec.bind (M := fun o t => ∃ r, o = some r ∧ B r t) (spec_read
    (fun _ s => (s.findSlot (Slot.seesInvocation i userId
      (invocationIdempotencyKey sha256 userId threadId toolCallId))).bind fun n =>
        (s.slot n).invocation.view i) (fun _ _ => rfl) hA
    (fun o => Party.Stable.exists fun r => (Party.Stable.pure _).and (hB r)) hE hG
    (fun t hi h => hX.fault t hi h.1) ?_) fun o => ?_
  · intro t _ hi h
    have hseen : ∃ m r, (t.store.slot m).invocation.view i = some r ∧ r.userId = userId ∧
        r.idempotencyKey = invocationIdempotencyKey sha256 userId threadId toolCallId := by
      rcases h.2 with ⟨-, r, ⟨r', hr', he⟩, hu, hk⟩ | ⟨n, hfr⟩
      · exact ⟨r.id, r', hr', by rw [he.userId, hu], by rw [he.idempotencyKey, hk]⟩
      · exact ⟨n, _, Cell.view_of_own hfr.2.1, hrowu, hrowk⟩
    cases hfind : t.store.findSlot (Slot.seesInvocation i userId
        (invocationIdempotencyKey sha256 userId threadId toolCallId)) with
    | none =>
      obtain ⟨m, r, hr, hu, hk⟩ := hseen
      have := Store.findSlot_eq_none hfind (hi.lt_next hr)
      rw [Slot.seesInvocation_iff.mpr ⟨r, hr, hu, hk⟩] at this
      exact absurd this (by decide)
    | some n =>
      obtain ⟨r, hr, hu, hk⟩ := Slot.seesInvocation_iff.mp (Store.findSlot_eq_some hfind).2
      have hid := hi.view_at hr
      have hsees : Sees i r t := ⟨r, by rw [hid, hr], .refl r⟩
      refine ⟨r, hr, h.1, ⟨hZ.read t n r hi h.1 hr hu hk, t, hi, h.1, by rw [hid, hr]⟩, hu, hk,
        hsees, ?_⟩
      rcases h.2 with ⟨hready, -⟩ | ⟨m, hfr⟩
      · exact .inl ⟨hready, Safe.ne_pending (hi.slots n) (hready n) hr⟩
      · have hmn : m = n := hi.slot_eq (Cell.view_of_own hfr.2.1) hr (by rw [hu]; exact hrowu)
          (by rw [hk]; exact hrowk)
        subst hmn
        have hrr : some r = some { row with id := m } := by
          rw [← hr]
          exact Cell.view_of_own hfr.2.1
        rw [Option.some.injEq] at hrr
        subst hrr
        exact .inr ⟨hfr, m, rfl⟩
  refine Party.Spec.exists_pre fun r => Party.Spec.pure_pre fun ho => ?_
  subst ho
  -- the check
  refine Party.Spec.bind (spec_raiseIf (hB r) fun hc t hi h => ?_) fun _ =>
    Party.Spec.pure_pre fun hacc => ?_
  · refine hX.conflict t _ r hi h.1 h.2.2.2.2.1 h.2.2.1 h.2.2.2.1 fun ha => ?_
    obtain ⟨h1, h2, h3⟩ := ha
    simp [h1, h2, h3] at hc
  have hacc' : Accepts sha256 threadId toolCallId toolName
      (jsonObject sha256 (.mapping requestedInput)) allowEffectiveMatch r := by
    simp only [Bool.or_eq_false_iff, decide_eq_false_iff_not, not_not, Bool.not_eq_false'] at hacc
    exact ⟨hacc.1.1, hacc.1.2, by simpa using hacc.2⟩
  -- the flushes
  let C : ToolInvocation → Tracked → Prop := fun r t =>
    Adopted sha256 issued i userId threadId toolCallId toolName requestedInput approvalRequired
      allowEffectiveMatch r t ∧ Z r ∧ K t
  have hC : ∀ r, (toolParty sha256 issued i R G).Stable (C r) := fun r =>
    (stable_adopted hR r).and ((Party.Stable.pure _).and hK)
  have hBC : ∀ t, B r t → C r t := by
    rintro t ⟨hk, hz, hu, hkey, hs, hcase⟩
    refine ⟨⟨hu, hkey, hacc', hs, ?_⟩, hz.1, hk⟩
    rcases hcase with h | ⟨hfr, n, hn⟩
    · exact .inl h
    · exact .inr ⟨hfr, by rw [hn]; exact hrows⟩
  refine Party.Spec.bind (M := C) ?_ fun r' => ?_
  · unfold fillRuntimeRunId
    by_cases hfill : (!truthy r.runtimeRunId && truthy runtimeRunId) = true
    · have hempty : truthy r.runtimeRunId = false ∧ truthy runtimeRunId = true := by
        simpa using hfill
      simp only [hfill, if_true]
      have hpos : ∀ t, B r t → Ready sha256 issued i t ∧ r.status ≠ .pending := by
        rintro t ⟨-, -, -, -, -, h | ⟨-, n, hn⟩⟩
        · exact h
        · rw [hn] at hfill
          simp [hrowr] at hfill
      refine Party.Spec.bind (M := fun _ => C { r with runtimeRunId := runtimeRunId, updatedAt := now })
        (spec_flush hE hG (hB r) (hC _) (fun t hi h => hX.fault t hi h.1) ?_ ?_) fun _ =>
          Party.Spec.pure (hC _) fun _ _ h => h
      · rintro t hi ⟨-, -, -, -, ⟨r', hr', -⟩, -⟩
        exact ⟨r', hr'⟩
      · intro t r' hi h hr'
        obtain ⟨hready, hne⟩ := hpos t h
        obtain ⟨hk, ⟨hz, t₀, hi₀, hk₀, hr₀⟩, hu, hkey, ⟨r₁, hr₁, he⟩, -⟩ := h
        rw [hr', Option.some.injEq] at hr₁
        subst hr₁
        refine ⟨.fill r' runtimeRunId now, ((hi.slots r.id).view_wf hr').fill runtimeRunId now, rfl,
          ⟨hu, hkey, hacc', ?_, .inl ⟨hready.putInvocation hi hr' fun a => Coupled.fill _ _, hne⟩⟩,
          hZ.fill r runtimeRunId now hz,
          hKs.fill t r.id r' now hi hk hr' (by rw [he.userId, hu])
            (by rw [he.idempotencyKey, hkey]) hempty.2 ⟨t₀, r, hi₀, hk₀, hr₀, hempty.1⟩⟩
        exact ⟨{ r' with runtimeRunId := runtimeRunId, updatedAt := now },
          by simp only [Store.putInvocation_slot_self, Cell.view_write_self],
          he.fill_both runtimeRunId now⟩
    · simp only [hfill]
      exact Party.Spec.pure (hB r) fun t _ h => hBC t h
  · unfold requireApproval
    by_cases hreq : (approvalRequired && r'.status = .pending && r'.attemptCount = 0) = true
    · -- no such row is ever found
      simp only [Bool.and_eq_true, decide_eq_true_eq] at hreq
      intro t hi h
      rcases h.1.2.2.2.2 with ⟨-, hne⟩ | ⟨-, hst⟩
      · exact absurd hreq.1.2 hne
      · rw [hreq.1.1, hreq.1.2] at hst
        exact absurd hst (by decide)
    · simp only [hreq]
      exact Party.Spec.pure (hC r') fun _ _ h => h

end

end

end HyChat
