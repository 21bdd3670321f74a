import HyChat.Tool.Decisions

/-!
# `claim_tool_invocation` and the finishing updates

A claim commits twice over in its life: the conditional update to `RUNNING` is committed before
the tool runs, and what the tool did is committed by somebody else later. The specification says
what a claim that returns `should_execute=True` brings home: the grant for the invocation, which
the database has committed and nobody else holds (`Granted`), for the payload the claim presented.

Besides the frame `K` it takes two parameters for what the caller wants to know about the moment
of the update: `A` about the slot of the invocation, from the update on, and `L`, which must
follow if the update can lose its race.

Why `Granted` speaks of the ghost field and of a committed row. The ghost says who may execute, and
is set by the commit that starts the invocation (`Inv.commit`); the row says what, and is there for
everybody to compare with. Neither is enough alone: without the row, the caller would know that it
may run something, and without the ghost two callers could each have read a running row.

A claim that finds a row which is started already returns what it has read and grants nothing. The
race is between two sessions that both read a row that can still be started. The update is
conditional on the status, so the second finds nothing to update, rolls back and reports the row it
reads afterwards. That the invocation is then started by somebody is `L` above, and the callers say
what they want to conclude from it.

The two finishing updates are at the end. They are conditional on `RUNNING`, so they are no-ops on
a row that has ended, whoever issues them; nothing about grants is needed for that.
-/

set_option autoImplicit false

namespace HyChat

open Lib Relation

section

variable (sha256 : Sha256)

/-- Session `i` is about to return from the claim that started the invocation. -/
def Granted (i : Nat) (call : Call) (c : ToolInvocationClaim) (t : Tracked) : Prop :=
  t.granted c.invocationId = some i ∧
    ∃ r, (t.store.slot c.invocationId).invocation.committed = some r ∧
      r.status.executed = true ∧ call.Presents sha256 r

end

/-- What is to be executed is what a claim with these arguments presents. -/
def ToolInvocation.Offers (sha256 : Sha256) (toolName : String) (requestedInput : PyMapping)
    (r : ToolInvocation) : Prop :=
  r.effectiveToolName = toolName ∧ canonicalJson sha256 (toPy r.effectiveInput) =
    canonicalJson sha256 (toPy (jsonObject sha256 (.mapping requestedInput)))

/-- The approval of slot `n`, as session `i` sees it, permits execution or is not there. -/
def Permitted (i n : Nat) (t : Tracked) : Prop :=
  (t.store.slot n).approval.view i = none ∨
    ∃ a, (t.store.slot n).approval.view i = some a ∧
      (a.status = .approved ∨ a.status = .edited)

section

variable {sha256 : Sha256} {issued : Call → Prop} {i : Nat} {t : Tracked}

/-- The row of a started invocation is well formed: its start is stamped and nothing else is
settled. -/
theorem startInvocation_wf {n : Nat} {r : ToolInvocation} (hw : r.WellFormed sha256 issued n)
    (hs : r.status = .pending ∨ r.status = .approved) (now : Nat) :
    (startInvocation now r).WellFormed sha256 issued n := by
  refine hw.evolves (.start hs now) ?_ fun _ => ⟨rfl, rfl⟩
  have ha := hw.attempts
  rcases hs with hs | hs <;> rw [hs] at ha <;>
    simp [startInvocation, ha, ToolInvocationStatus.executed]

/-- Starting an approved or a freshly inserted invocation is safe. -/
theorem Ready.startInvocation {r r₁ : ToolInvocation} (hi : Inv sha256 issued t)
    (h : (Ready sha256 issued i t ∧ r.status ≠ .pending) ∨
      (Fresh sha256 issued i r t ∧ r.status = .pending))
    (hr₁ : (t.store.slot r.id).invocation.view i = some r₁) (hst : r₁.status = r.status)
    (hs : r.status = .pending ∨ r.status = .approved) (now : Nat) :
    Ready sha256 issued i
        ⟨t.store.putInvocation i r.id (HyChat.startInvocation now r₁), t.granted⟩ ∧
      Permitted i r.id t ∧ (r.status = .pending → r₁ = r) := by
  rcases h with ⟨hready, hne⟩ | ⟨hfr, hp⟩
  · have happ : r₁.status = .approved := by
      rcases hs with hs | hs
      · exact absurd hs hne
      · rw [hst, hs]
    refine ⟨hready.putInvocation hi hr₁ fun a hc => hc.mono (.start (.inr happ) now) ⟨rfl, rfl⟩
      (.inr ⟨rfl, .inr happ⟩), .inr ?_, fun hp => absurd hp hne⟩
    have hc := (hi.slots r.id).coupled_view (hready r.id)
    rw [hr₁] at hc
    obtain ⟨a, ha, has⟩ := hc.of_approved happ
    exact ⟨a, ha, has⟩
  · have hrr : r₁ = r := by
      rw [Cell.view_of_own hfr.2.1, Option.some.injEq] at hr₁
      exact hr₁.symm
    subst hrr
    have hempty := hi.approval_empty hfr.2.1 hfr.2.2.1 hfr.2.2.2 i
    refine ⟨ReadyBut.ready (n := r₁.id) ?_ ?_, .inl ?_, fun _ => rfl⟩
    · intro m hm
      simp only [Store.putInvocation_slot_of_ne hm]
      exact hfr.1 m hm
    · simp only [Store.putInvocation_slot_self]
      unfold Safe
      rw [Cell.own_write_self, hempty.2]
      intro a hc
      rw [Cell.committed_write, hfr.2.2.1] at hc
      rw [hc.none_left]
      have ho := ((hi.slots r₁.id).view_wf hr₁).undecided (by rw [hp]; rfl)
      exact ⟨rfl, ho⟩
    · rw [Cell.view_of_not_own hempty.2, hempty.1]

/-- An invocation that the session sees as not started has not been started by anybody. -/
theorem not_started {n : Nat} (hi : Inv sha256 issued t) {r : ToolInvocation}
    (hr : (t.store.slot n).invocation.view i = some r)
    (hs : r.status = .pending ∨ r.status = .approved) : ¬ t.store.started n := by
  rintro ⟨r₀, h₀, hx⟩
  have hx' := ((hi.slots n).view_evolves h₀ hr).status.executed hx
  rcases hs with hs | hs <;> rw [hs] at hx' <;> exact absurd hx' (by decide)

/-- No other session starts an invocation whose row this session has locked. -/
theorem Guar.started_iff {j n : Nat} {t t' : Tracked} (hg : Guar j t t') (hij : j ≠ i)
    {v : Option ToolInvocation} (ho : (t.store.slot n).invocation.own i = some v) :
    t'.store.started n ↔ t.store.started n := by
  unfold Store.started Slot.Started
  rw [(hg.invocation n).committed_of_own (Ne.symm hij) ho]

section

variable {R G : Tracked → Tracked → Prop} {K K₂ : Tracked → Prop} {Err : PyError → Prop}
  {Z : ToolInvocation → Prop} {A : Nat → Tracked → Prop} {L : Prop}
  {userId : String} {threadId runtimeRunId : Option String} {toolCallId toolName : String}
  {requestedInput : PyMapping}
  (hR : ∀ t t', R t t' → ∃ j, j ≠ i ∧ Guar j t t') (hG : ∀ t t', Quiet i t t' → G t t')
include hR

/-- A grant stays with the session that has it until that session returns. -/
theorem stable_granted (call : Call) (c : ToolInvocationClaim) :
    (toolParty sha256 issued i R G).Stable (Granted sha256 i call c) := by
  intro t t' hi _ hr h
  obtain ⟨j, hij, hg⟩ := hR t t' hr
  obtain ⟨hgr, r, hr, hx, hp⟩ := h
  obtain ⟨r', hr', he⟩ := hg.later hi c.invocationId r hr
  exact ⟨hg.granted _ _ (Ne.symm hij) hgr, r', hr', he.status.executed hx, hp.evolves he hx⟩

/-- Session `i` has started the invocation and not committed it yet. -/
theorem stable_starting (n : Nat) (r : ToolInvocation) :
    (toolParty sha256 issued i R G).Stable fun t =>
      (t.store.slot n).invocation.own i = some (some r) ∧ ¬ t.store.started n := by
  intro t t' _ _ hr h
  obtain ⟨j, hij, hg⟩ := hR t t' hr
  show (t'.store.slot n).invocation.own i = some (some r) ∧ ¬ t'.store.started n
  rw [hg.own_invocation hij, hg.started_iff hij h.1]
  exact h

include hG

variable (runtimeRunId) in
/-- The conditional update, its commit and the row it started. -/
theorem spec_startClaim {r : ToolInvocation}
    (hK : (toolParty sha256 issued i R G).Stable K)
    (hK₂ : (toolParty sha256 issued i R G).Stable K₂)
    (hKstart : ∀ t n r now, Inv sha256 issued t → K t →
      (t.store.slot n).invocation.view i = some r → r.userId = userId →
      r.idempotencyKey = invocationIdempotencyKey sha256 userId threadId toolCallId →
      (r.status = .pending ∨ r.status = .approved) →
        K₂ ⟨t.store.putInvocation i n (startInvocation now r), t.granted⟩)
    (hA : ∀ n, (toolParty sha256 issued i R G).Stable (A n))
    (hAstart : ∀ t n r now, Inv sha256 issued t → K t →
      (t.store.slot n).invocation.view i = some r → r.userId = userId →
      r.idempotencyKey = invocationIdempotencyKey sha256 userId threadId toolCallId →
      Permitted i n t → A n ⟨t.store.putInvocation i n (startInvocation now r), t.granted⟩)
    (hAcommit : ∀ t n g, Inv sha256 issued t → A n t → A n ⟨t.store.commit i, g⟩)
    (hL : ∀ t r r', Inv sha256 issued t → K t → Z r →
      r.Offers sha256 toolName requestedInput →
      (t.store.slot r.id).invocation.view i = some r' → r.Evolves r' → r.userId = userId →
      r.idempotencyKey = invocationIdempotencyKey sha256 userId threadId toolCallId →
      r'.status ≠ r.status → L)
    (hcommit : ∀ t g, Inv sha256 issued t → K₂ t → Guar i t ⟨t.store.commit i, g⟩ →
      G t ⟨t.store.commit i, g⟩)
    (hdb : Err .databaseError)
    (heff : r.Offers sha256 toolName requestedInput)
    (hs : r.status = .pending ∨ r.status = .approved) :
    (toolParty sha256 issued i R G).Spec
      (fun t => Adopted sha256 issued i userId threadId toolCallId toolName requestedInput false
        true r t ∧ Z r ∧ K t)
      (startClaim userId r)
      (fun o t => Idle i t ∧ match o with
        | some c => c.shouldExecute = true ∧ A c.invocationId t ∧
            Granted sha256 i (.claimToolInvocation userId threadId runtimeRunId toolCallId toolName
              requestedInput) c t
        | none => L) fun e _ => Err e := by
  have hE : ∀ e, (toolParty sha256 issued i R G).Stable fun _ => Err e :=
    fun _ => Party.Stable.pure _
  have hP : (toolParty sha256 issued i R G).Stable fun t => Adopted sha256 issued i userId threadId
      toolCallId toolName requestedInput false true r t ∧ Z r ∧ K t :=
    (stable_adopted hR r).and ((Party.Stable.pure _).and hK)
  let call : Call := .claimToolInvocation userId threadId runtimeRunId toolCallId toolName
    requestedInput
  unfold startClaim
  refine Party.Spec.bind (spec_utcnow hP hG) fun now => ?_
  -- the invocation is started in a version of the session's own
  let S : Tracked → Prop := fun t => Ready sha256 issued i t ∧ K₂ t ∧ A r.id t ∧
    ∃ r₂, (r₂.status.executed = true ∧ call.Presents sha256 r₂) ∧
      ((t.store.slot r.id).invocation.own i = some (some r₂) ∧ ¬ t.store.started r.id)
  have hS : (toolParty sha256 issued i R G).Stable S :=
    (stable_ready hR).and <| hK₂.and <| (hA r.id).and <| Party.Stable.exists fun r₂ =>
      (Party.Stable.pure _).and (stable_starting hR r.id r₂)
  let M : Nat → Tracked → Prop := fun k t => (k = 0 ∧ L) ∨ (k = 1 ∧ S t)
  have hM : ∀ k, (toolParty sha256 issued i R G).Stable (M k) := fun k =>
    (Party.Stable.pure _).or ((Party.Stable.pure _).and hS)
  refine Party.Spec.bind (M := M) (spec_updateInvocation hP hM hE hG (fun _ _ _ => hdb) ?_ ?_)
    fun k => ?_
  · rintro t hi ⟨⟨hu, hk, -, ⟨r', hr', he⟩, -⟩, hz, hKt⟩ hmiss
    refine .inl ⟨rfl, hL t r r' hi hKt hz heff hr' he hu hk fun hst => ?_⟩
    have := hmiss r' hr'
    simp [he.userId, hu, hst] at this
  · rintro t r₁ hi ⟨⟨hu, hk, hacc, ⟨r', hr', he⟩, hcase⟩, hz, hKt⟩ hr₁ hc
    rw [hr₁, Option.some.injEq] at hr'
    subst hr'
    simp only [Bool.and_eq_true, decide_eq_true_eq] at hc
    have hs₁ : r₁.status = .pending ∨ r₁.status = .approved := by
      rw [hc.2]
      exact hs
    have hev := ToolInvocation.Evolves.start hs₁ now
    obtain ⟨hready, hperm, hfresh⟩ := Ready.startInvocation hi hcase hr₁ hc.2 hs now
    have hu₁ : r₁.userId = userId := by rw [he.userId, hu]
    have hk₁ : r₁.idempotencyKey = invocationIdempotencyKey sha256 userId threadId toolCallId := by
      rw [he.idempotencyKey, hk]
    have heff₁ : r₁.effectiveToolName = r.effectiveToolName ∧
        r₁.effectiveInput = r.effectiveInput := by
      rcases hs with hp | ha
      · rw [hfresh hp]
        exact ⟨rfl, rfl⟩
      · exact he.effective (by rw [ha]; rfl)
    refine ⟨hev, startInvocation_wf ((hi.slots r.id).view_wf hr₁) hs₁ now, fun _ => .inl rfl,
      .inr ⟨rfl, hready,
      hKstart t r.id r₁ now hi hKt hr₁ hu₁ hk₁ hs₁, hAstart t r.id r₁ now hi hKt hr₁ hu₁ hk₁ hperm,
      startInvocation now r₁, ⟨rfl, hu₁, by rw [hev.threadId, he.threadId, hacc.1],
        by rw [hev.toolCallId, he.toolCallId, hacc.2.1], ?_, ?_⟩, ?_, ?_⟩⟩
    · show r₁.effectiveToolName = toolName
      rw [heff₁.1, heff.1]
    · show canonicalJson sha256 (toPy r₁.effectiveInput) = _
      rw [heff₁.2, heff.2]
    · simp only [Store.putInvocation_slot_self, Cell.own_write_self]
    · have hns := not_started hi hr₁ hs₁
      unfold Store.started Slot.Started at hns ⊢
      simpa only [Store.putInvocation_slot_self, Cell.committed_write] using hns
  by_cases hk1 : k = 1
  · rw [if_pos hk1]
    -- committed: the grant is the session's
    let C : Tracked → Prop := fun t => Idle i t ∧ A r.id t ∧ t.granted r.id = some i ∧
      ∃ r₂, (t.store.slot r.id).invocation.committed = some r₂ ∧ r₂.status.executed = true ∧
        call.Presents sha256 r₂
    have hC : (toolParty sha256 issued i R G).Stable C := by
      refine (stable_idle hR).and ((hA r.id).and ?_)
      let c : ToolInvocationClaim := { claimSnapshot r true with invocationId := r.id }
      have hst : (toolParty sha256 issued i R G).Stable (Granted sha256 i call c) :=
        stable_granted hR call c
      exact hst
    refine Party.Spec.bind (M := fun _ => C) ((spec_commit hS (fun _ => hC) hE hG
      (fun _ _ _ => hdb) (fun t _ h => h.1) ?_).pre ?_) fun _ => ?_
    · rintro t g hi ⟨-, hKt, hAr, r₂, ⟨hx, hp⟩, ho, hns⟩ hg hidle hgr
      have hcom : ((t.store.commit i).slot r.id).invocation.committed = some r₂ := by
        simp only [Store.commit, Cell.committed_commit, Cell.view_of_own ho]
      exact ⟨hcommit t g hi hKt hg, hidle, hAcommit t r.id g hi hAr,
        hgr r.id hns ⟨r₂, hcom, hx⟩, r₂, hcom, hx, hp⟩
    · rintro t _ (⟨h0, -⟩ | ⟨-, h⟩)
      · rw [h0] at hk1
        exact absurd hk1 (by decide)
      · exact h
    let D : Option ToolInvocation → Tracked → Prop := fun o t =>
      ∃ r₃, (o = some r₃ ∧ r₃.id = r.id) ∧ C t
    have hD : ∀ o, (toolParty sha256 issued i R G).Stable (D o) := fun o =>
      Party.Stable.exists fun r₃ => (Party.Stable.pure _).and hC
    refine Party.Spec.bind (M := D) (spec_read (fun _ s => (s.slot r.id).invocation.view i)
      (fun _ _ => rfl) hC hD hE hG (fun _ _ _ => hdb) ?_) fun o => ?_
    · intro t _ hi h
      obtain ⟨r₂, h₂, -⟩ := h.2.2.2
      have hv : (t.store.slot r.id).invocation.view i = some r₂ := by
        rw [Cell.view_of_not_own (h.1 r.id).1, h₂]
      exact ⟨r₂, ⟨hv, hi.view_at hv⟩, h⟩
    · refine Party.Spec.exists_pre fun r₃ => Party.Spec.pure_pre fun ho => ?_
      obtain ⟨rfl, hid⟩ := ho
      refine Party.Spec.pure hC fun t _ h => ⟨h.1, rfl, ?_, ?_⟩
      · show A r₃.id t
        rw [hid]
        exact h.2.1
      · show t.granted r₃.id = some i ∧ _
        simp only [claimSnapshot, hid]
        exact h.2.2
  · rw [if_neg hk1]
    refine Party.Spec.bind (M := fun _ t => Idle i t ∧ L) ((spec_rollback (hM k)
      (fun _ => (stable_idle hR).and (Party.Stable.pure _)) hG fun t _ h hidle _ => ?_))
        fun _ => Party.Spec.pure ((stable_idle hR).and (Party.Stable.pure _)) fun _ _ h => h
    rcases h with ⟨-, h⟩ | ⟨h, -⟩
    · exact ⟨hidle, h⟩
    · exact absurd h hk1

variable (sha256) (issued) (i) in
/-- What the caller of a claim provides. -/
structure ClaimFrame (R G : Tracked → Tracked → Prop) (userId : String)
    (threadId runtimeRunId : Option String) (toolCallId toolName : String)
    (requestedInput : PyMapping) (K K₂ : Tracked → Prop) (Z : ToolInvocation → Prop)
    (A : Nat → Tracked → Prop) (L : Prop) (Err : PyError → Prop) : Prop where
  stable : (toolParty sha256 issued i R G).Stable K
  stable_started : (toolParty sha256 issued i R G).Stable K₂
  survives : Survives sha256 issued i userId threadId runtimeRunId toolCallId toolName
    requestedInput false K
  reads : Reads sha256 issued i userId threadId toolCallId K Z
  start : ∀ t n r now, Inv sha256 issued t → K t →
    (t.store.slot n).invocation.view i = some r → r.userId = userId →
    r.idempotencyKey = invocationIdempotencyKey sha256 userId threadId toolCallId →
    (r.status = .pending ∨ r.status = .approved) →
      K₂ ⟨t.store.putInvocation i n (startInvocation now r), t.granted⟩
  permitted : ∀ t n r now, Inv sha256 issued t → K t →
    (t.store.slot n).invocation.view i = some r → r.userId = userId →
    r.idempotencyKey = invocationIdempotencyKey sha256 userId threadId toolCallId →
    Permitted i n t → A n ⟨t.store.putInvocation i n (startInvocation now r), t.granted⟩
  stable_permitted : ∀ n, (toolParty sha256 issued i R G).Stable (A n)
  commit_permitted : ∀ t n g, Inv sha256 issued t → A n t → A n ⟨t.store.commit i, g⟩
  lost : ∀ t r r', Inv sha256 issued t → K t → Z r →
    r.Offers sha256 toolName requestedInput →
    (t.store.slot r.id).invocation.view i = some r' → r.Evolves r' → r.userId = userId →
    r.idempotencyKey = invocationIdempotencyKey sha256 userId threadId toolCallId →
    r'.status ≠ r.status → L
  commit : ∀ t g, Inv sha256 issued t → K t → Guar i t ⟨t.store.commit i, g⟩ →
    G t ⟨t.store.commit i, g⟩
  commit_started : ∀ t g, Inv sha256 issued t → K₂ t → Guar i t ⟨t.store.commit i, g⟩ →
    G t ⟨t.store.commit i, g⟩
  excused : Excused sha256 issued i userId threadId runtimeRunId toolCallId toolName
    requestedInput true K fun e _ => Err e
  database : Err .databaseError
  mismatch : ∀ t message r, Inv sha256 issued t → K t → Z r → r.userId = userId →
    r.idempotencyKey = invocationIdempotencyKey sha256 userId threadId toolCallId →
    ¬ r.Offers sha256 toolName requestedInput → Err (.toolInvocationConflict message)
  gone : ∀ message, L → Err (.runtimeError message)

/-- What a claim that returns knows. `Z` is what it has read. -/
def Claimed (sha256 : Sha256) (i : Nat) (call : Call) (Z : ToolInvocation → Prop)
    (A : Nat → Tracked → Prop) (L : Prop) (c : ToolInvocationClaim) (t : Tracked) : Prop :=
  Idle i t ∧ (∃ r, Z r) ∧
  (c.shouldExecute = true → A c.invocationId t ∧ Granted sha256 i call c t) ∧
  (c.shouldExecute = false →
    (∃ r, Z r ∧ r.status ≠ .pending ∧ r.status ≠ .approved) ∨ L)

/-- The body of a claim, without the rollback that surrounds it. -/
theorem spec_tryClaim
    (hreg : issued (.claimToolInvocation userId threadId runtimeRunId toolCallId toolName
      requestedInput))
    (hF : ClaimFrame sha256 issued i R G userId threadId runtimeRunId toolCallId toolName
      requestedInput K K₂ Z A L Err) :
    (toolParty sha256 issued i R G).Spec (fun t => Ready sha256 issued i t ∧ K t)
      (tryClaim sha256 userId threadId runtimeRunId toolCallId toolName requestedInput)
      (fun o t => match o with
        | some c => Claimed sha256 i (.claimToolInvocation userId threadId runtimeRunId toolCallId
            toolName requestedInput) (fun r => Z r ∧ r.Offers sha256 toolName requestedInput) A L
            c t
        | none => Idle i t ∧ (∃ r, Z r ∧ r.Offers sha256 toolName requestedInput) ∧ L)
      fun e _ => Err e := by
  have hE : ∀ e, (toolParty sha256 issued i R G).Stable fun _ => Err e :=
    fun _ => Party.Stable.pure _
  unfold tryClaim
  refine Party.Spec.bind (spec_ensureInvocation hR hG hE hF.stable hF.survives hF.reads
    (fun r hr => ⟨_, hreg, hr⟩) hF.excused) fun r => ?_
  have hP : (toolParty sha256 issued i R G).Stable fun t => Adopted sha256 issued i userId threadId
      toolCallId toolName requestedInput false true r t ∧ Z r ∧ K t :=
    (stable_adopted hR r).and ((Party.Stable.pure _).and hF.stable)
  refine Party.Spec.bind (spec_raiseIf hP fun hc t hi h => ?_) fun _ =>
    Party.Spec.pure_pre fun hok => ?_
  · refine hF.mismatch t _ r hi h.2.2 h.2.1 h.1.1 h.1.2.1 fun heff => ?_
    simp [heff.1, heff.2] at hc
  have heff : r.Offers sha256 toolName requestedInput := by
    unfold ToolInvocation.Offers
    simpa using hok
  -- what has been read is a fact from here on
  refine (Party.Spec.pure_pre (φ := Z r) fun hZ => ?_).pre fun _ _ h => ⟨h.2.1, h⟩
  by_cases hs : (decide (r.status ≠ .pending) && decide (r.status ≠ .approved)) = true
  · rw [if_pos hs]
    simp only [Bool.and_eq_true, decide_eq_true_eq] at hs
    -- the call has been decided against or claimed before
    have hidleZ : (toolParty sha256 issued i R G).Stable fun t => Idle i t ∧ Z r :=
      (stable_idle hR).and (Party.Stable.pure _)
    refine Party.Spec.bind (M := fun _ t => Idle i t ∧ Z r) (spec_commit hP (fun _ => hidleZ) hE hG
      (fun _ _ _ => hF.database) (fun t hi h => ?_) fun t g hi h hg hidle _ =>
        ⟨hF.commit t g hi h.2.2 hg, hidle, h.2.1⟩) fun _ => ?_
    · rcases h.1.2.2.2.2 with ⟨hready, -⟩ | ⟨-, hp⟩
      · exact hready
      · exact absurd hp hs.1
    refine Party.Spec.bind (M := fun _ t => Idle i t ∧ Z r)
      (spec_read (fun _ s => (s.slot r.id).invocation.view i) (fun _ _ => rfl) hidleZ
        (fun _ => hidleZ) hE hG (fun _ _ _ => hF.database) fun _ _ _ h => h) fun o => ?_
    cases o with
    | none => exact Party.Spec.throw hidleZ fun _ _ _ => hF.database
    | some r' =>
      refine Party.Spec.pure hidleZ fun t _ h =>
        ⟨h.1, ⟨r, hZ, heff⟩, fun hx => ?_, fun _ => .inl ⟨r, ⟨hZ, heff⟩, hs⟩⟩
      exact absurd hx (by simp [claimSnapshot])
  · rw [if_neg hs]
    have hs' : r.status = .pending ∨ r.status = .approved := by
      by_cases hp : r.status = .pending
      · exact .inl hp
      · simp only [hp, not_false_eq_true, decide_true, Bool.true_and, decide_eq_true_eq,
          not_not, ne_eq] at hs
        exact .inr hs
    refine (spec_startClaim runtimeRunId hR hG hF.stable hF.stable_started hF.start
      hF.stable_permitted hF.permitted hF.commit_permitted hF.lost hF.commit_started hF.database heff
      hs').post fun o t _ h => ?_
    cases o with
    | none => exact ⟨h.1, ⟨r, hZ, heff⟩, h.2⟩
    | some c =>
      obtain ⟨hidle, hx, hA, hgr⟩ := h
      exact ⟨hidle, ⟨r, hZ, heff⟩, fun _ => ⟨hA, hgr⟩, fun hn => absurd hn (by rw [hx]; decide)⟩

/-- **`claim_tool_invocation`** -/
theorem spec_claimToolInvocation
    (hreg : issued (.claimToolInvocation userId threadId runtimeRunId toolCallId toolName
      requestedInput))
    (hF : ClaimFrame sha256 issued i R G userId threadId runtimeRunId toolCallId toolName
      requestedInput K K₂ Z A L Err) :
    (toolParty sha256 issued i R G).Spec (fun t => Ready sha256 issued i t ∧ K t)
      (claimToolInvocation sha256 userId threadId runtimeRunId toolCallId toolName requestedInput)
      (Claimed sha256 i (.claimToolInvocation userId threadId runtimeRunId toolCallId toolName
        requestedInput) (fun r => Z r ∧ r.Offers sha256 toolName requestedInput) A L)
      fun e t => Idle i t ∧ Err e := by
  have hE : ∀ e, (toolParty sha256 issued i R G).Stable fun _ => Err e :=
    fun _ => Party.Stable.pure _
  have hE' : ∀ e, (toolParty sha256 issued i R G).Stable fun t => Idle i t ∧ Err e :=
    fun e => (stable_idle hR).and (hE e)
  let O : ToolInvocation → Prop := fun r => Z r ∧ r.Offers sha256 toolName requestedInput
  have hIL : (toolParty sha256 issued i R G).Stable fun t => Idle i t ∧ (∃ r, O r) ∧ L :=
    (stable_idle hR).and (Party.Stable.pure _)
  unfold claimToolInvocation
  refine Party.Spec.bind (spec_rollbackOnError (F := fun e t => Idle i t ∧ Err e) hG hE hE'
    (spec_tryClaim hR hG hreg hF) fun e t _ he hidle _ => ⟨hidle, he⟩) fun o => ?_
  cases o with
  | some c =>
    refine Party.Spec.pure ?_ fun _ _ h => h
    refine (stable_idle hR).and <| (Party.Stable.pure _).and ((Party.Stable.forall fun _ =>
      (hF.stable_permitted _).and (stable_granted hR _ c)).and (Party.Stable.pure _))
  | none =>
    refine Party.Spec.bind (M := fun _ t => Idle i t ∧ (∃ r, O r) ∧ L) (spec_read
      (fun _ s => (s.findSlot (Slot.seesInvocation i userId
        (invocationIdempotencyKey sha256 userId threadId toolCallId))).bind fun n =>
          (s.slot n).invocation.view i) (fun _ _ => rfl) hIL (fun _ => hIL) hE' hG
      (fun t _ h => ⟨h.1, hF.database⟩) fun _ _ _ h => h) fun o => ?_
    cases o with
    | none => exact Party.Spec.throw hIL fun t _ h => ⟨h.1, hF.gone _ h.2.2⟩
    | some r =>
      refine Party.Spec.pure hIL fun t _ h => ⟨h.1, h.2.1, fun hx => ?_, fun _ => .inr h.2.2⟩
      exact absurd hx (by simp [claimSnapshot])

/-! ## The finishing updates -/

/-- A finishing update of a running invocation, whoever issues it. -/
theorem spec_finishInvocation {claim : ToolInvocationClaim}
    {values : ToolInvocation → ToolInvocation} {E : PyError → Tracked → Prop}
    (hE : ∀ e, (toolParty sha256 issued i R G).Stable (E e))
    (hK : (toolParty sha256 issued i R G).Stable K)
    (hKf : ∀ t r, Inv sha256 issued t → K t →
      (t.store.slot claim.invocationId).invocation.view i = some r → r.status = .running →
        K ⟨t.store.putInvocation i claim.invocationId (values r), t.granted⟩)
    (hstarted : ∀ t r, Inv sha256 issued t → K t →
      (t.store.slot claim.invocationId).invocation.view i = some r → r.status = .running →
        t.store.started claim.invocationId)
    (hvalues : ∀ r, r.status = .running → r.Evolves (values r) ∧
      (values r).status.executed = true ∧ (values r).attemptCount = r.attemptCount)
    (hfault : ∀ t, Inv sha256 issued t → Ready sha256 issued i t ∧ K t → E .databaseError t) :
    (toolParty sha256 issued i R G).Spec (fun t => Ready sha256 issued i t ∧ K t)
      (finishInvocation claim values) (fun _ t => Ready sha256 issued i t ∧ K t) E := by
  have hP : (toolParty sha256 issued i R G).Stable fun t => Ready sha256 issued i t ∧ K t :=
    (stable_ready hR).and hK
  unfold finishInvocation
  refine Party.Spec.bind (M := fun _ t => Ready sha256 issued i t ∧ K t)
    (spec_updateInvocation hP (fun _ => hP) hE hG hfault (fun _ _ h _ => h) ?_) fun _ =>
      Party.Spec.pure hP fun _ _ h => h
  rintro t r hi ⟨hready, hKt⟩ hr hc
  have hs : r.status = .running := by simpa using hc
  obtain ⟨he, hx, hat⟩ := hvalues r hs
  have heff := he.effective (by rw [hs]; rfl)
  have hw := (hi.slots claim.invocationId).view_wf hr
  refine ⟨he, hw.evolves he ?_ fun _ => heff, fun _ => .inr (hstarted t r hi hKt hr hs), ?_,
    hKf t r hi hKt hr hs⟩
  · rw [hat, hw.attempts, hs, hx]
    rfl
  · refine Ready.putInvocation hready hi hr fun a hc => hc.mono he heff (.inr ⟨hx, .inl ?_⟩)
    rw [hs]
    rfl

end

end

end HyChat
