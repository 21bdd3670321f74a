import HyChat.Tool.AtMostOnce

/-!
# What is executed is what is on record

A claim compares what it is called with to what is stored, and it compares normal forms: both
sides go through `safe_json` and are printed with sorted keys. Since printing is injective
(`Json.dumps_injective`) the comparison is one of normal forms up to the order of keys, and no
more than that: two arguments that differ under a redacted field are the same to it.

The other half is about refusals. A call with another payload ends in an exception, and none but
the three that `Refused` lists.

Which direction is which. That a claim told to execute presented what is on record is one
direction, and is part of what every claim brings home (`Offers`). That any other payload is
refused is the other; it needs the row to stay as it is while the claim runs, so it is stated for
settled rows (`KeepsPayload`), whose payload nobody changes, and for claims that nobody disturbs.

Refusals are classified by exception. The conflict is the answer to a wrong payload; the other two
can come instead of it, since the thread's owner is checked first and any statement may fail. None
of them writes a row. The last section has the two arguments that the comparison cannot tell apart.
-/

set_option autoImplicit false

namespace HyChat

open Lib Relation

/-! ## Normal forms -/

section

variable (sha256 : Sha256)

/-- What a stored payload is compared by. -/
def normalForm (stored : Json) : Json := (jsonObject sha256 (toPy stored)).sortKeys

/-- What a presented payload is compared by. -/
def presentedForm (presented : PyMapping) : Json :=
  normalForm sha256 (jsonObject sha256 (.mapping presented))

variable {sha256}

/-- JSON arguments are normalised once. -/
theorem presentedForm_json (kvs : List (String × Json)) :
    presentedForm sha256 (toPyItems kvs) = (jsonObject sha256 (toPy (.obj kvs))).sortKeys := by
  have hobj : toPy (.obj kvs) = .mapping (toPyItems kvs) := by rw [toPy]
  rw [presentedForm, normalForm, ← hobj, jsonObject_idem]

/-- The comparison of printed texts is the comparison of normal forms. -/
theorem canonicalJson_eq_iff {stored : Json} {presented : PyMapping} :
    canonicalJson sha256 (toPy stored) =
        canonicalJson sha256 (toPy (jsonObject sha256 (.mapping presented))) ↔
      normalForm sha256 stored = presentedForm sha256 presented := by
  constructor
  · exact fun h => Json.dumps_injective h
  · intro h
    unfold canonicalJson
    exact congrArg Json.dumps h

theorem ToolInvocation.offers_iff {toolName : String} {requestedInput : PyMapping}
    {r : ToolInvocation} : r.Offers sha256 toolName requestedInput ↔
      r.effectiveToolName = toolName ∧
        normalForm sha256 r.effectiveInput = presentedForm sha256 requestedInput :=
  and_congr_right fun _ => canonicalJson_eq_iff

end

/-! ## Refusals -/

/-- A conflict, unless the thread turned out to be somebody else's or the database failed. -/
def Refusal (foreign : Prop) (e : PyError) : Prop :=
  (∃ message, e = .toolInvocationConflict message) ∨
  (foreign ∧ ∃ message, e = .toolInvocationOwnershipError message) ∨
  e = .databaseError

/-- The call ended in such an exception. -/
def Refused {α : Type} (foreign : Prop) (outcome : Except PyError α) : Prop :=
  ∃ e, outcome = .error e ∧ Refusal foreign e

section

variable {sha256 : Sha256} {issued : Call → Prop} {i : Nat} {t : Tracked}

/-- The row of slot `n` is there, and what is to be executed is what `r` says. -/
def KeepsPayload (i n : Nat) (r : ToolInvocation) (t : Tracked) : Prop :=
  ∃ r', (t.store.slot n).invocation.view i = some r' ∧ r.Evolves r' ∧
    r'.effectiveToolName = r.effectiveToolName ∧ r'.effectiveInput = r.effectiveInput

theorem KeepsPayload.offers_iff {n : Nat} {r r' : ToolInvocation} {toolName : String}
    {requestedInput : PyMapping} (h : KeepsPayload i n r t)
    (hr' : (t.store.slot n).invocation.view i = some r') :
    r'.Offers sha256 toolName requestedInput ↔ r.Offers sha256 toolName requestedInput := by
  obtain ⟨r₁, hr₁, -, hn, hi⟩ := h
  rw [hr', Option.some.injEq] at hr₁
  subst hr₁
  simp only [ToolInvocation.Offers, hn, hi]

/-- Once the payload is settled nobody changes it. -/
theorem stable_keepsPayload {R G : Tracked → Tracked → Prop}
    (hR : ∀ t t', R t t' → ∃ j, j ≠ i ∧ Guar j t t') (n : Nat) {r : ToolInvocation}
    (hs : r.status.settled = true) :
    (toolParty sha256 issued i R G).Stable (KeepsPayload i n r) := by
  intro t t' hi _ hr h
  obtain ⟨j, hij, hg⟩ := hR t t' hr
  obtain ⟨r', hr', he, hn, hin⟩ := h
  obtain ⟨r'', hr'', he'⟩ := hg.view_later hi hij n r' hr'
  obtain ⟨hn', hin'⟩ := he'.effective (he.status.settled hs)
  exact ⟨r'', hr'', he.trans he', hn'.trans hn, hin'.trans hin⟩

/-- The frame survives a claim's writes to the row itself. -/
theorem survives_keepsPayload {n : Nat} {r : ToolInvocation} {userId : String}
    {threadId runtimeRunId : Option String} {toolCallId toolName : String}
    {requestedInput : PyMapping} {approvalRequired : Bool} :
    Survives sha256 issued i userId threadId runtimeRunId toolCallId toolName requestedInput
      approvalRequired (KeepsPayload i n r) where
  fill := by
    intro t m r₁ now _ h hr₁ _ _ _ _
    obtain ⟨r', hr', he, hn, hi⟩ := h
    by_cases hm : n = m
    · subst hm
      rw [hr₁, Option.some.injEq] at hr'
      subst hr'
      refine ⟨{ r₁ with runtimeRunId := runtimeRunId, updatedAt := now }, ?_,
        he.trans (.fill r₁ runtimeRunId now), hn, hi⟩
      simp only [Store.putInvocation_slot_self, Cell.view_write_self]
    · refine ⟨r', ?_, he, hn, hi⟩
      simp only [Store.putInvocation_slot_of_ne hm]
      exact hr'
  insert := by
    intro t conversationId now hi h _
    obtain ⟨r', hr', he, hn, hin⟩ := h
    have hne : n ≠ t.store.next := by
      rintro rfl
      rw [hi.fresh _ (Nat.le_refl _)] at hr'
      exact absurd hr' (by simp [Slot.empty, Cell.view])
    refine ⟨r', ?_, he, hn, hin⟩
    show ((t.store.putInvocation i t.store.next _).slot n).invocation.view i = some r'
    rw [Store.putInvocation_slot_of_ne hne]
    exact hr'

/-- The frame of a claim that presents what is not on record. -/
theorem ClaimFrame.mismatched {R : Tracked → Tracked → Prop} {n : Nat} {r : ToolInvocation}
    {runtimeRunId : Option String} {toolName : String} {requestedInput : PyMapping}
    {C : Tracked → Prop} {foreign : Prop}
    (hkey : r.idempotencyKey =
      invocationIdempotencyKey sha256 r.userId r.threadId r.toolCallId)
    (hstable : (toolParty sha256 issued i R (Guar i)).Stable fun t => KeepsPayload i n r t ∧ C t)
    (hC : Survives sha256 issued i r.userId r.threadId runtimeRunId r.toolCallId toolName
      requestedInput false C)
    (hforeign : ∀ t, C t → Foreign r.userId r.threadId t.store → foreign)
    (hne : ¬ r.Offers sha256 toolName requestedInput) :
    ClaimFrame sha256 issued i R (Guar i) r.userId r.threadId runtimeRunId r.toolCallId toolName
      requestedInput (fun t => KeepsPayload i n r t ∧ C t) (fun _ => True)
      (fun r' => ¬ r'.Offers sha256 toolName requestedInput) (fun _ _ => True) False
      (Refusal foreign) where
  stable := hstable
  stable_started := Party.Stable.pure _
  survives := survives_keepsPayload.and hC
  reads := by
    refine ⟨fun t m r₁ hi h hr₁ hu hk => ?_, fun r₁ rid now h => h⟩
    obtain ⟨r', hr', he, -⟩ := h.1
    have hmn : m = n := hi.slot_eq hr₁ hr' (by rw [hu, he.userId])
      (by rw [hk, he.idempotencyKey, hkey])
    subst hmn
    rw [h.1.offers_iff hr₁]
    exact hne
  start := fun _ _ _ _ _ _ _ _ _ _ => trivial
  permitted := fun _ _ _ _ _ _ _ _ _ _ => trivial
  stable_permitted := fun _ => Party.Stable.pure _
  commit_permitted := fun _ _ _ _ _ => trivial
  lost := fun _ _ _ _ _ hz ho _ _ _ _ _ => hz ho
  commit := fun _ _ _ _ hg => hg
  commit_started := fun _ _ _ _ hg => hg
  excused := ⟨fun _ _ _ => .inr (.inr rfl), fun _ _ m _ _ => .inl ⟨m, rfl⟩,
    fun t m _ h hf => .inr (.inl ⟨hforeign t h.2 hf, m, rfl⟩),
    fun _ m _ _ _ _ _ _ _ => .inl ⟨m, rfl⟩⟩
  database := .inr (.inr rfl)
  mismatch := fun _ m _ _ _ _ _ _ _ => .inl ⟨m, rfl⟩
  gone := fun _ h => h.elim

theorem wp_mismatchedClaim {R : Tracked → Tracked → Prop} {n : Nat} {r : ToolInvocation}
    {runtimeRunId : Option String} {toolName : String} {requestedInput : PyMapping}
    {C : Tracked → Prop} (foreign : Prop)
    (hR : ∀ t t', R t t' → ∃ j, j ≠ i ∧ Guar j t t')
    (hreg : issued (.claimToolInvocation r.userId r.threadId runtimeRunId r.toolCallId toolName
      requestedInput))
    (hi : Inv sha256 issued t) (hidle : Idle i t)
    (hr : (t.store.slot n).invocation.committed = some r)
    (hstable : (toolParty sha256 issued i R (Guar i)).Stable fun t => KeepsPayload i n r t ∧ C t)
    (hC : Survives sha256 issued i r.userId r.threadId runtimeRunId r.toolCallId toolName
      requestedInput false C) (hCt : C t)
    (hforeign : ∀ t, C t → Foreign r.userId r.threadId t.store → foreign)
    (hne : ¬ r.Offers sha256 toolName requestedInput) {t' : Tracked}
    (ht : (toolParty sha256 issued i R (Guar i)).Interf t t') :
    (toolParty sha256 issued i R (Guar i)).wp
      (claimToolInvocation sha256 r.userId r.threadId runtimeRunId r.toolCallId toolName
        requestedInput).attempt
      (fun outcome _ => Refused foreign outcome) t' := by
  have hkey := ((hi.slots n).committed_wf r hr).key
  have hspec := spec_claimToolInvocation hR (fun _ _ h => h.toGuar) hreg
    (ClaimFrame.mismatched hkey hstable hC hforeign hne)
  have hview : (t.store.slot n).invocation.view i = some r := by
    rw [Cell.view_of_not_own (hidle n).1, hr]
  refine Party.wp_mono ?_ _ (Party.Interf.inv ht hi)
    (hspec t hi ⟨hidle.ready, ⟨r, hview, .refl r, rfl, rfl⟩, hCt⟩ t' ht)
  intro outcome t' _ hend
  cases outcome with
  | error e => exact ⟨e, rfl, hend.2⟩
  | ok claim =>
    obtain ⟨r', hz, ho⟩ := hend.2.1
    exact absurd ho hz

/-- A batch with a call whose original payload is not the one on record. -/
theorem wp_mismatchedEnsure {R : Tracked → Tracked → Prop} {userId : String}
    {threadId runtimeRunId : Option String} {toolCalls : List ToolCallItem}
    (hR : ∀ t t', R t t' → ∃ j, j ≠ i ∧ Guar j t t')
    (hreg : issued (.ensurePendingApprovals userId threadId runtimeRunId toolCalls))
    (hi : Inv sha256 issued t) (hidle : Idle i t) {t' : Tracked}
    (ht : (toolParty sha256 issued i R (Guar i)).Interf t t') :
    (toolParty sha256 issued i R (Guar i)).wp
      (ensurePendingApprovals sha256 userId threadId runtimeRunId toolCalls).attempt
      (fun outcome t' => Refused True outcome ∨ ∀ tc ∈ toolCalls, ∀ n r,
        (t'.store.slot n).invocation.committed = some r → r.userId = userId →
        r.threadId = threadId → r.toolCallId = orDefault tc.id "" →
          r.toolName = orDefault tc.name "unknown" ∧
          normalForm sha256 r.requestedInput = presentedForm sha256 tc.args.asMapping) t' := by
  have hE : ∀ e, (toolParty sha256 issued i R (Guar i)).Stable fun _ => Refusal True e :=
    fun _ => Party.Stable.pure _
  have hspec : (toolParty sha256 issued i R (Guar i)).Spec (fun t => Ready sha256 issued i t ∧ True)
      (ensurePendingApprovals sha256 userId threadId runtimeRunId toolCalls) _
      (fun e _ => Refusal True e) :=
    spec_ensurePendingApprovals (K := fun _ => True) (E := fun e _ => Refusal True e) hR
      (fun _ _ h => h.toGuar) hE hE (Party.Stable.pure _) (fun _ _ => Survives.true)
      (fun _ _ => Withstands.true) (fun tc htc r hr => ⟨_, hreg, tc, htc, hr⟩)
      (fun _ _ => ⟨fun _ _ _ => .inr (.inr rfl), fun _ _ m _ _ => .inl ⟨m, rfl⟩,
        fun _ m _ _ _ => .inr (.inl ⟨trivial, m, rfl⟩),
        fun _ m _ _ _ _ _ _ _ => .inl ⟨m, rfl⟩⟩)
      (fun _ _ _ => .inr (.inr rfl)) (fun _ _ _ _ hg => hg) fun _ _ _ h _ _ => h
  refine Party.wp_mono ?_ _ (Party.Interf.inv ht hi) (hspec t hi ⟨hidle.ready, trivial⟩ t' ht)
  intro outcome t' hi' hend
  cases outcome with
  | error e => exact .inl ⟨e, rfl, hend⟩
  | ok u =>
    refine .inr fun tc htc n r hr hu ht hc => ?_
    obtain ⟨hidle', hall⟩ := hend
    obtain ⟨r₁, a, hu₁, hk₁, hacc, ⟨r₂, hr₂, he⟩, -⟩ := hall tc htc
    -- the row that was loaded is the one on record
    have hk : r.idempotencyKey =
        invocationIdempotencyKey sha256 userId threadId (orDefault tc.id "") := by
      rw [((hi'.slots n).committed_wf r hr).key, hu, ht, hc]
    have hview : (t'.store.slot n).invocation.view i = some r := by
      rw [Cell.view_of_not_own (hidle' n).1, hr]
    have hn : r₁.id = n := hi'.slot_eq hr₂ hview (by rw [he.userId, hu₁, hu])
      (by rw [he.idempotencyKey, hk₁, hk])
    rw [hn, hview, Option.some.injEq] at hr₂
    subst hr₂
    obtain ⟨-, -, hmatch⟩ := hacc.evolves he
    simp only [Bool.false_and, Bool.or_false, originalPayloadMatches, Bool.and_eq_true,
      decide_eq_true_eq] at hmatch
    exact ⟨hmatch.1, canonicalJson_eq_iff.mp hmatch.2⟩

/-- A claim with another payload than the settled one, among any other sessions. -/
theorem exec_mismatchedClaim {c c' : Config toolSig Store Nat} {n : Nat} {r : ToolInvocation}
    {runtimeRunId : Option String} {toolName : String} {requestedInput : PyMapping}
    {tr : List (Store × Store)} {outcome : Except PyError ToolInvocationClaim}
    (hgood : (toolFamily sha256 fun _ => True).Good c t) (hidle : Idle i t)
    (hr : (t.store.slot n).invocation.committed = some r) (hs : r.status.settled = true)
    (hne : ¬ r.Offers sha256 toolName requestedInput)
    (hexec : toolDb.Exec i (claimToolInvocation sha256 r.userId r.threadId runtimeRunId
      r.toolCallId toolName requestedInput).attempt c tr outcome c') : Refused True outcome := by
  obtain ⟨-, -, hpost, -, -⟩ := Machine.Family.GoodBut.exec (G := Guar i) (fun _ _ h => h) hexec t
    (hgood.mono fun _ h => h.elim) fun t' ht =>
      wp_mismatchedClaim (C := fun _ => True) True others_spec trivial hgood.inv hidle hr
        ((stable_keepsPayload others_spec n hs).and (Party.Stable.pure _)) Survives.true trivial
        (fun _ _ _ => trivial) hne ht
  exact hpost

/-- A claim with another payload than the one on record, which nobody disturbs. -/
theorem solo_mismatchedClaim {s' : Store} {n : Nat} {r : ToolInvocation}
    {runtimeRunId : Option String} {toolName : String} {requestedInput : PyMapping}
    {outcome : Except PyError ToolInvocationClaim}
    (hi : Inv sha256 (fun _ => True) t) (hidle : Idle i t)
    (hr : (t.store.slot n).invocation.committed = some r)
    (hne : ¬ r.Offers sha256 toolName requestedInput)
    (hsolo : toolDb.Solo i (claimToolInvocation sha256 r.userId r.threadId runtimeRunId
      r.toolCallId toolName requestedInput).attempt t.store outcome s') :
    Refused (Foreign r.userId r.threadId t.store) outcome := by
  let C : Tracked → Prop := fun t' => t'.store.conversation = t.store.conversation
  have hforeign : ∀ t', C t' → Foreign r.userId r.threadId t'.store →
      Foreign r.userId r.threadId t.store := by
    rintro t' hC ⟨thread, conv, h1, h2, h3, h4⟩
    exact ⟨thread, conv, h1, h2, by rw [← hC, h3], h4⟩
  obtain ⟨-, -, -, hpost, -⟩ := hsolo.post
    (p := toolParty sha256 (fun _ => True) i (fun _ _ => False) (Guar i)) rfl t rfl hi
    (wp_mismatchedClaim (C := C) _ (fun _ _ h => h.elim) trivial hi hidle hr
      (fun _ _ _ _ h _ => h.elim) ⟨fun _ _ _ _ _ h _ _ _ _ _ => h, fun _ _ _ _ h _ => h⟩ rfl
      hforeign hne .refl)
  exact hpost

theorem exec_mismatchedEnsure {c c' : Config toolSig Store Nat} {n : Nat} {r : ToolInvocation}
    {runtimeRunId : Option String} {toolCalls : List ToolCallItem} {tc : ToolCallItem}
    {tr : List (Store × Store)} {outcome : Except PyError Unit}
    (hgood : (toolFamily sha256 fun _ => True).Good c t) (hidle : Idle i t)
    (hr : (t.store.slot n).invocation.committed = some r) (htc : tc ∈ toolCalls)
    (hid : r.toolCallId = orDefault tc.id "")
    (hne : ¬ (r.toolName = orDefault tc.name "unknown" ∧
      normalForm sha256 r.requestedInput = presentedForm sha256 tc.args.asMapping))
    (hexec : toolDb.Exec i (ensurePendingApprovals sha256 r.userId r.threadId runtimeRunId
      toolCalls).attempt c tr outcome c') : Refused True outcome := by
  obtain ⟨t', -, hpost, hmoves, -⟩ := Machine.Family.GoodBut.exec (G := Guar i) (fun _ _ h => h)
    hexec t (hgood.mono fun _ h => h.elim) fun t' ht =>
      wp_mismatchedEnsure others_spec trivial hgood.inv hidle ht
  rcases hpost with h | h
  · exact h
  · obtain ⟨r', hr', he⟩ := (moves_later hgood.inv hmoves n).1 r hr
    have hmatch := h tc htc n r' hr' he.userId he.threadId (by rw [he.toolCallId, hid])
    rw [he.toolName, he.requestedInput] at hmatch
    exact absurd hmatch hne

/-- **Payload binding**, up to normal forms. Whoever is told to execute has presented what is on
    record for the scope, which is the decision's payload if there is a decision and the payload
    of the call that created the row otherwise; and a call for an existing scope with another
    payload is refused: a claim that nobody disturbs or that finds the payload settled, and a
    batch of calls among any other sessions. -/
theorem payload_bound {conversation : String → Option Conversation} {calls : Nat → List Call}
    {past : List (Config toolSig Store Nat)} {c : Config toolSig Store Nat}
    (hrun : toolDb.Run (start sha256 conversation calls) past c) :
    (∀ e ∈ c.store.returns, ∀ userId threadId runtimeRunId toolCallId toolName requestedInput claim,
      e.call = .claimToolInvocation userId threadId runtimeRunId toolCallId toolName
        requestedInput → e.outcome = .ok (some claim) → claim.shouldExecute = true →
      ∃ r, (c.store.slot claim.invocationId).invocation.committed = some r ∧
        r.userId = userId ∧ r.threadId = threadId ∧ r.toolCallId = toolCallId ∧
        r.effectiveToolName = toolName ∧
        normalForm sha256 r.effectiveInput = presentedForm sha256 requestedInput ∧
        (∀ a, (c.store.slot claim.invocationId).approval.committed = some a →
          a.status ≠ .pending → ∃ j, ∃ call ∈ calls j, call.Decides sha256 r a) ∧
        ((∀ a, (c.store.slot claim.invocationId).approval.committed = some a →
          a.status = .pending) → r.Original) ∧
        (∃ j, ∃ call ∈ calls j, call.Registers sha256 r) ∧
        ∀ c' ∈ past, ∀ r', (c'.store.slot claim.invocationId).invocation.committed = some r' →
          r'.toolName = r.toolName ∧ r'.requestedInput = r.requestedInput) ∧
    (∀ i n r runtimeRunId toolName requestedInput outcome,
      (∀ n, (c.store.slot n).invocation.own i = none ∧ (c.store.slot n).approval.own i = none) →
      (c.store.slot n).invocation.committed = some r →
      ¬ (r.effectiveToolName = toolName ∧
        normalForm sha256 r.effectiveInput = presentedForm sha256 requestedInput) →
      (∀ c' tr, r.status.settled = true →
        toolDb.Exec i (claimToolInvocation sha256 r.userId r.threadId runtimeRunId r.toolCallId
          toolName requestedInput).attempt c tr outcome c' → Refused True outcome) ∧
      (∀ s', toolDb.Solo i (claimToolInvocation sha256 r.userId r.threadId runtimeRunId
          r.toolCallId toolName requestedInput).attempt c.store outcome s' →
        Refused (Foreign r.userId r.threadId c.store) outcome)) ∧
    (∀ i n r runtimeRunId toolCalls tc outcome c' tr,
      (∀ n, (c.store.slot n).invocation.own i = none ∧ (c.store.slot n).approval.own i = none) →
      (c.store.slot n).invocation.committed = some r → tc ∈ toolCalls →
      r.toolCallId = orDefault tc.id "" →
      ¬ (r.toolName = orDefault tc.name "unknown" ∧
        normalForm sha256 r.requestedInput = presentedForm sha256 tc.args.asMapping) →
      toolDb.Exec i (ensurePendingApprovals sha256 r.userId r.threadId runtimeRunId
        toolCalls).attempt c tr outcome c' → Refused True outcome) := by
  obtain ⟨t, hgood⟩ := reachable_good (fun _ => True) (fun _ _ _ => trivial) hrun.steps
  have hreal : t.store = c.store := hgood.real
  refine ⟨?_, ?_, ?_⟩
  · intro e he userId threadId runtimeRunId toolCallId toolName requestedInput claim hcall hout hx
    -- read with the calls of the run as the issued ones
    obtain ⟨t, hgood⟩ := reachable_good (fun call => ∃ j, call ∈ calls j)
      (fun j call h => ⟨j, h⟩) hrun.steps
    have hreal : t.store = c.store := hgood.real
    rw [← hreal] at he ⊢
    obtain ⟨r, hr, hxr, hp⟩ := hgood.inv.log.payload e he claim hout hx
    rw [hcall] at hp
    obtain ⟨hu, ht, hc, hn, hin⟩ := hp
    have hcoup := (hgood.inv.slots claim.invocationId).coupled
    rw [hr] at hcoup
    refine ⟨r, hr, hu, ht, hc, hn, canonicalJson_eq_iff.mp hin, fun a ha hd => ?_, fun hund => ?_,
      ?_, fun c' hc' r' hr' => ?_⟩
    · rw [ha] at hcoup
      obtain ⟨call, ⟨j, hj⟩, hdec⟩ := hcoup.2.2.2.2 hd
      exact ⟨j, call, hj, hdec⟩
    · cases ha : (t.store.slot claim.invocationId).approval.committed with
      | none =>
        rw [ha] at hcoup
        exact hcoup.2
      | some a =>
        rw [ha] at hcoup
        exact hcoup.2.2.2.1 (hund a ha)
    · obtain ⟨call, ⟨j, hj⟩, hreg⟩ := ((hgood.inv.slots _).committed_wf r hr).registered
      exact ⟨j, call, hj, hreg⟩
    · obtain ⟨hs, hs'⟩ := hrun.steps_of_mem hc'
      obtain ⟨t', hgood'⟩ := reachable_good (fun _ => True) (fun _ _ _ => trivial) hs
      obtain ⟨r₁, hr₁, hev⟩ := (steps_later hgood' hs' claim.invocationId).1 r' hr'
      rw [← hreal, hr, Option.some.injEq] at hr₁
      subst hr₁
      exact ⟨hev.toolName.symm, hev.requestedInput.symm⟩
  · intro i n r runtimeRunId toolName requestedInput outcome hidle hr hne
    rw [← hreal] at hidle hr ⊢
    rw [← ToolInvocation.offers_iff] at hne
    refine ⟨fun c' tr hs hexec => exec_mismatchedClaim hgood hidle hr hs hne hexec,
      fun s' hsolo => solo_mismatchedClaim hgood.inv hidle hr hne hsolo⟩
  · intro i n r runtimeRunId toolCalls tc outcome c' tr hidle hr htc hid hne hexec
    rw [← hreal] at hidle hr
    exact exec_mismatchedEnsure hgood hidle hr htc hid hne hexec

end

/-! ## Two arguments with one normal form -/

/-- Session 0 has a call with the token `a` approved and claims it with the token `b`. -/
def redactedCalls (i : Nat) : List Call :=
  if i = 0 then
    [.ensurePendingApprovals "user" (some "thread") none
      [⟨some "call", some "search", .mapping [("token", .str "a")]⟩],
     .recordApprovalDecisions "user" (some "thread") none
      [⟨"call", "search", [("token", .str "a")], "approve", "search", [("token", .str "a")],
        [("type", .str "approve")]⟩],
     .claimToolInvocation "user" (some "thread") none "call" "search" [("token", .str "b")]]
  else []

def redactedSchedule : List (Nat × Action Choice) := List.replicate 29 (0, .stmt ⟨false, 0⟩)

/-- **What is executed need not be what was approved**: the claim with the other token returns
    `should_execute=True`. -/
theorem payload_not_bound : ∃ c,
    toolDb.Steps (start .standard (fun _ => none) redactedCalls) c ∧
      c.store.returns.map (Return.executes "user" (some "thread") "call") = [true, false, false] ∧
      ([("token", .str "b")] : PyMapping) ≠ [("token", .str "a")] := by
  have hsched : (toolDb.runSched redactedSchedule
      (start .standard (fun _ => none) redactedCalls)).any (fun c =>
        c.store.returns.map (Return.executes "user" (some "thread") "call") =
          [true, false, false]) = true := by decide +kernel
  obtain ⟨c, hc, hret⟩ := (Option.any_eq_true ..).mp hsched
  exact ⟨c, toolDb.steps_of_runSched hc, of_decide_eq_true hret, by simp⟩

/-- The same call under another tool's name is refused. -/
theorem payload_bound_redactedCalls : ∃ past c r outcome s',
    toolDb.Run (start .standard (fun _ => none) redactedCalls) past c ∧
      (c.store.slot 0).invocation.committed = some r ∧
      toolDb.Solo 1 (claimToolInvocation .standard r.userId r.threadId none r.toolCallId "delete"
        [("token", .str "b")]).attempt c.store outcome s' ∧
      Refused (Foreign r.userId r.threadId c.store) outcome := by
  have hsched : (toolDb.runSched redactedSchedule
      (start .standard (fun _ => none) redactedCalls)).any (fun c =>
        c.store.idle 1 && (c.store.slot 0).invocation.committed.any fun r =>
          r.effectiveToolName = "search" && (toolDb.solo 1 (claimToolInvocation .standard r.userId
            r.threadId none r.toolCallId "delete" [("token", .str "b")]).attempt
              (List.replicate 5 ⟨false, 0⟩) c.store).isSome) = true := by decide +kernel
  obtain ⟨c, hc, hret⟩ := (Option.any_eq_true ..).mp hsched
  obtain ⟨hi, hrow⟩ := Bool.and_eq_true_iff.mp hret
  obtain ⟨r, hr, hrow⟩ := (Option.any_eq_true ..).mp hrow
  obtain ⟨hname, hsolo⟩ := Bool.and_eq_true_iff.mp hrow
  obtain ⟨⟨outcome, s'⟩, hsolo⟩ := Option.isSome_iff_exists.mp hsolo
  obtain ⟨past, hrun⟩ := Machine.Run.of_runSched .start hc
  obtain ⟨t, hgood⟩ := reachable_good (fun _ => True) (fun _ _ _ => trivial) hrun.steps
  have hsolo' := Machine.Solo.of_solo toolDb _ _ hsolo
  refine ⟨past, c, r, outcome, s', hrun, hr, hsolo', ?_⟩
  refine ((payload_bound hrun).2.1 1 0 r none "delete" _ outcome ((Store.idle_iff hgood).mp hi) hr
    fun h => ?_).2 s' hsolo'
  rw [of_decide_eq_true hname] at h
  exact absurd h.1 (by decide)

end HyChat
