import HyChat.Agents.HumanInTheLoop
import HyChat.Tool.Batch

/-!
# The round trip through the human

Each call of the message stands at a `Stage`, and what the middleware does moves all calls of the
message from stage to stage at once: a run that ends at the interrupt, the run with the decisions,
a run of the graph again, a claim. A call's stage is kept by whatever is done for other calls,
since their rows stand under other keys.

How the proof is laid out. The message is a list of calls, and for each call there are a key, a
stage and, for a gated one, a decision. `AllAt` says that every call stands at its stage; a batch
of the service over the gated calls maps a lemma about one call over the list (`AllAt.batch`),
which works because the calls have different keys and every stage is `Framed`: what is done under
another key does not touch it. So the work per operation is one lemma about one call, from
`Tool/Stages`, and the message adds nothing to it but bookkeeping of which calls have a decision.

Why sequences of events. Between the interrupt and the end of the message the graph may be run
again any number of times, since a failed node is replayed, and each of the message's tool nodes
claims its call when it gets to it. `flagged` counts for each call whether it has been started, and
the statement about all sequences is an induction on them with one lemma for a replay and one for a
claim.

What the theorem asks for: distinct ids of the right length, a digest that tells the calls apart,
and a store in which nobody is writing. What it does not ask for is a fresh store; the other rows
may be anything the service can have written. What it does not say is that the run goes through
when a statement fails or another session interferes, which the modules on the service speak about.
The last section has what does not survive the round trip: ids that are too long, and an edit with
an argument that is not JSON, whose record the replay does not recognise.
-/

set_option autoImplicit false

namespace HyChat

open Lib

namespace HumanInTheLoop

/-! ## One call

A predicate on the rows under a key is `Framed` when it only depends on them. -/

/-- What is known of the rows under a key is kept by whatever is done for other keys, and by a
    commit. -/
structure Framed (i : Nat) (userId key : String) (P : Store → Prop) : Prop where
  elsewhere : ∀ {s s' : Store} {key' : String}, key ≠ key' → Elsewhere i userId key' s s' →
    P s → P s'
  commit : ∀ {s : Store}, P s → P (s.commit i)

section

variable {sha256 : Sha256} {userId : String} {threadId : Option String} {i : Nat}

/-- No row is there, whatever happens under other keys. -/
theorem framed_notYet (q : Asked) :
    Framed i userId (q.key sha256 userId threadId) (NotYet sha256 userId threadId i q) := by
  constructor
  · intro s s' key' hk he h
    exact he.absent hk h
  · intro s h
    exact Absent.commit h

/-- An awaited call stays awaited. -/
theorem framed_awaits (q : Asked) :
    Framed i userId (q.key sha256 userId threadId) (Awaits sha256 userId threadId i q) := by
  constructor
  · rintro s s' key' hk he ⟨r, b, hf, hrest⟩
    exact ⟨r, b, he.found hk hf, hrest⟩
  · rintro s ⟨r, b, hf, hrest⟩
    exact ⟨r, b, hf.commit, hrest⟩

/-- A decided call stays decided, started or not. -/
theorem framed_decided (d : ApprovalDecision) (started : Bool) :
    Framed i userId (d.asked.key sha256 userId threadId)
      (Decided sha256 userId threadId i d started) := by
  constructor
  · rintro s s' key' hk he ⟨r, b, hf, hrest⟩
    exact ⟨r, b, he.found hk hf, hrest⟩
  · rintro s ⟨r, b, hf, hrest⟩
    exact ⟨r, b, hf.commit, hrest⟩

/-- A started call stays started. -/
theorem framed_started (q : Asked) :
    Framed i userId (q.key sha256 userId threadId) (Started sha256 userId threadId i q) := by
  constructor
  · rintro s s' key' hk he ⟨r, hf, hrest⟩
    exact ⟨r, he.found hk hf, hrest⟩
  · rintro s ⟨r, hf, hrest⟩
    exact ⟨r, hf.commit, hrest⟩

/-- Work for one key gives the thread to nobody else. -/
theorem not_foreign_elsewhere {key : String} {s s' : Store} (he : Elsewhere i userId key s s')
    (h : ¬Foreign userId threadId s) : ¬Foreign userId threadId s' := by
  rintro ⟨thread, c, hthread, hempty, hc, hne⟩
  rw [he.conversation] at hc
  exact h ⟨thread, c, hthread, hempty, hc, hne⟩

/-! ## One call after the other -/

/-- A loop that does for each element something under the element's own key. -/
theorem completes_forM_keys {α : Type} {f : α → Db Unit} (key : α → String)
    (P P' : α → Store → Prop) :
    ∀ {l : List α}, (l.map key).Nodup → (∀ x ∈ l, Framed i userId (key x) (P x)) →
      (∀ x ∈ l, Framed i userId (key x) (P' x)) →
      (∀ x ∈ l, ∀ s, Orderly i s → ¬Foreign userId threadId s → P x s →
        Completes i (f x) (fun _ s' => Orderly i s' ∧ Elsewhere i userId (key x) s s' ∧ P' x s') s) →
      ∀ {s : Store} {Q : Unit → Store → Prop}, Orderly i s → ¬Foreign userId threadId s →
        (∀ x ∈ l, P x s) →
        (∀ s', Orderly i s' → ¬Foreign userId threadId s' → (∀ x ∈ l, P' x s') →
          (∀ k R, k ∉ l.map key → Framed i userId k R → R s → R s') → Q () s') →
        Completes i (l.forM f) Q s := by
  intro l
  induction l with
  | nil =>
    intro _ _ _ _ s Q h hforeign _ hQ
    exact Machine.Returns.pure (hQ s h hforeign nofun fun _ _ _ _ hR => hR)
  | cons x rest ih =>
    intro hnodup hP hP' hstep s Q h hforeign hall hQ
    rw [List.map_cons, List.nodup_cons] at hnodup
    obtain ⟨hx, hrest⟩ := hnodup
    apply Machine.Returns.bind
    apply Machine.Returns.mono _
      (hstep x List.mem_cons_self s h hforeign (hall x List.mem_cons_self))
    rintro _ s₁ ⟨h₁, he, hx₁⟩
    apply ih hrest (fun y hy => hP y (List.mem_cons_of_mem _ hy))
      (fun y hy => hP' y (List.mem_cons_of_mem _ hy))
      (fun y hy => hstep y (List.mem_cons_of_mem _ hy)) h₁ (not_foreign_elsewhere he hforeign)
    · intro y hy
      apply (hP y (List.mem_cons_of_mem _ hy)).elsewhere _ he (hall y (List.mem_cons_of_mem _ hy))
      intro hk
      exact hx (hk ▸ List.mem_map_of_mem hy)
    · intro s₂ h₂ hforeign₂ hdone hothers
      apply hQ s₂ h₂ hforeign₂
      · intro y hy
        rcases List.mem_cons.mp hy with rfl | hy
        · exact hothers (key y) (P' y) hx (hP' y List.mem_cons_self) hx₁
        · exact hdone y hy
      · intro k R hk hR hs
        rw [List.map_cons, List.mem_cons, not_or] at hk
        exact hothers k R hk.2 hR (hR.elsewhere hk.1 he hs)

end

/-! ## The calls of the message -/

/-- A gated call and its decision as it is recorded -/
abbrev Gated := ToolCallItem × ApprovalDecision

/-- The gated calls with their decisions, in the order of the message. -/
def gatedEntries (plan : List Entry) : List Gated :=
  plan.filterMap fun p => p.durable.map fun d => (p.1, d)

theorem mem_gatedEntries {plan : List Entry} {g : Gated} :
    g ∈ gatedEntries plan ↔ ∃ p ∈ plan, p.1 = g.1 ∧ p.durable = some g.2 := by
  unfold gatedEntries
  rw [List.mem_filterMap]
  constructor
  · rintro ⟨p, hp, hg⟩
    obtain ⟨d, hd, rfl⟩ := Option.map_eq_some_iff.mp hg
    exact ⟨p, hp, rfl, hd⟩
  · rintro ⟨p, hp, h1, h2⟩
    refine ⟨p, hp, ?_⟩
    rw [h2, Option.map_some, h1]

/-- The decision that is recorded for a call is about that call. -/
theorem Entry.durable_asked {p : Entry} {d : ApprovalDecision} (h : p.durable = some d) :
    d.asked = p.1.asked := by
  obtain ⟨decision, -, rfl⟩ := Option.map_eq_some_iff.mp h
  rfl

/-- The decisions that are recorded are those of the gated calls. -/
theorem durable_filterMap (plan : List Entry) :
    plan.filterMap Entry.durable = (gatedEntries plan).map Prod.snd := by
  unfold gatedEntries
  rw [List.map_filterMap]
  congr 1
  funext p
  cases p.durable with
  | none => rfl
  | some d => rfl

section

variable {m : HumanInTheLoopMiddleware}

/-- Assigning decisions keeps the calls and their order. -/
theorem assign_map_fst : ∀ (toolCalls : List ToolCallItem) (decisions : List Decision),
    (assign m toolCalls decisions).map Prod.fst = toolCalls := by
  intro toolCalls
  induction toolCalls with
  | nil =>
    intro decisions
    rfl
  | cons toolCall toolCalls ih =>
    intro decisions
    unfold assign
    by_cases hg : m.gated toolCall = true
    · rw [if_pos hg]
      cases decisions with
      | nil => exact congrArg (toolCall :: ·) (ih [])
      | cons decision decisions => exact congrArg (toolCall :: ·) (ih decisions)
    · rw [if_neg hg]
      exact congrArg (toolCall :: ·) (ih decisions)

/-- Every entry is about a call of the message. -/
theorem mem_toolCalls_of_mem_assign {toolCalls : List ToolCallItem} {decisions : List Decision}
    {p : Entry} (hp : p ∈ assign m toolCalls decisions) : p.1 ∈ toolCalls := by
  have hmap := List.mem_map_of_mem (f := Prod.fst) hp
  rw [assign_map_fst] at hmap
  exact hmap

/-- When there are as many decisions as gated calls, the gated calls are those with one. -/
theorem filter_gated : ∀ {toolCalls : List ToolCallItem} {decisions : List Decision},
    decisions.length = (toolCalls.filter m.gated).length →
    toolCalls.filter m.gated = (gatedEntries (assign m toolCalls decisions)).map Prod.fst := by
  intro toolCalls
  induction toolCalls with
  | nil =>
    intro decisions _
    rfl
  | cons toolCall toolCalls ih =>
    intro decisions hlen
    unfold assign
    by_cases hg : m.gated toolCall = true
    · rw [List.filter_cons_of_pos hg] at hlen ⊢
      rw [if_pos hg]
      cases decisions with
      | nil => cases hlen
      | cons decision decisions =>
        have hlen' := Nat.succ.inj hlen
        exact congrArg (toolCall :: ·) (ih hlen')
    · rw [List.filter_cons_of_neg hg] at hlen ⊢
      rw [if_neg hg]
      exact ih hlen

/-- The decisions of the plan are allowed and of one of the three kinds. -/
def Admitted (m : HumanInTheLoopMiddleware) (plan : List Entry) : Prop :=
  ∀ p ∈ plan, ∀ decision, p.2 = some decision →
    m.allowed decision p.1 = true ∧ decision.WellFormed

/-- A decision that is allowed and well formed revises its call. -/
theorem ProcessesDecisions.revised (hm : ProcessesDecisions m) {decision : Decision}
    {toolCall : ToolCallItem} (hallowed : m.allowed decision toolCall = true)
    (hwf : decision.WellFormed) : ∃ toolMessage,
      m.processDecision decision toolCall = some (some (decision.revised toolCall), toolMessage) := by
  unfold Decision.revised
  rcases hwf with happrove | ⟨hedit, haction⟩ | hreject
  · rw [happrove, if_neg (by decide)]
    exact ⟨none, hm.approve decision toolCall hallowed happrove⟩
  · rw [if_pos hedit]
    obtain ⟨⟨name, args⟩, haction⟩ := Option.isSome_iff_exists.mp haction
    rw [haction]
    exact ⟨none, hm.edit decision toolCall name args hallowed hedit haction⟩
  · rw [hreject, if_neg (by decide)]
    obtain ⟨toolMessage, h⟩ := hm.reject decision toolCall hallowed hreject
    exact ⟨some toolMessage, h⟩

/-- The loop of `after_model` revises every call as its decision says. -/
theorem revise_eq (hm : ProcessesDecisions m) :
    ∀ {toolCalls : List ToolCallItem} {decisions : List Decision},
      decisions.length = (toolCalls.filter m.gated).length →
      Admitted m (assign m toolCalls decisions) → ∃ toolMessages,
        revise m toolCalls decisions =
          .ok ((assign m toolCalls decisions).map Entry.revised, toolMessages,
            (gatedEntries (assign m toolCalls decisions)).map Prod.snd) := by
  intro toolCalls
  induction toolCalls with
  | nil =>
    intro decisions _ _
    exact ⟨[], rfl⟩
  | cons toolCall toolCalls ih =>
    intro decisions hlen hadm
    unfold revise
    unfold assign at hadm ⊢
    by_cases hg : m.gated toolCall = true
    · rw [List.filter_cons_of_pos hg] at hlen
      rw [if_pos hg] at hadm ⊢
      rw [if_pos hg]
      cases decisions with
      | nil => cases hlen
      | cons decision decisions =>
        obtain ⟨hallowed, hwf⟩ := hadm _ List.mem_cons_self decision rfl
        obtain ⟨toolMessage, hprocess⟩ := hm.revised hallowed hwf
        obtain ⟨toolMessages, hrest⟩ := ih (Nat.succ.inj hlen)
          fun p hp => hadm p (List.mem_cons_of_mem _ hp)
        dsimp only
        rw [hprocess]
        dsimp only
        rw [hrest]
        exact ⟨toolMessage.toList ++ toolMessages, rfl⟩
    · rw [List.filter_cons_of_neg hg] at hlen
      rw [if_neg hg] at hadm ⊢
      rw [if_neg hg]
      obtain ⟨toolMessages, hrest⟩ := ih hlen fun p hp => hadm p (List.mem_cons_of_mem _ hp)
      rw [hrest]
      exact ⟨toolMessages, rfl⟩

end

/-! ## Stages -/

/-- Where a gated call is in its life, as far as the service has rows for it. -/
inductive Stage
  | fresh
  | awaiting
  | standing (started : Bool)

/-- The pending rows are there. -/
def Stage.requested : Stage → Stage
  | .fresh => .awaiting
  | stage => stage

/-- The decision is recorded. -/
def Stage.decided : Stage → Stage
  | .standing started => .standing started
  | _ => .standing false

section

variable (sha256 : Sha256) (userId : String) (threadId : Option String) (i : Nat)

/-- What the service has on a gated call at a stage. -/
def GatedAt (g : Gated) : Stage → Store → Prop
  | .fresh => NotYet sha256 userId threadId i g.1.asked
  | .awaiting => Awaits sha256 userId threadId i g.1.asked
  | .standing started => Decided sha256 userId threadId i g.2 started

/-- A call that needs no decision has no rows until it is started. -/
def UngatedAt (toolCall : ToolCallItem) : Stage → Store → Prop
  | .standing true => Started sha256 userId threadId i toolCall.asked
  | _ => NotYet sha256 userId threadId i toolCall.asked

/-- Every call of the message stands at its stage. -/
structure AllAt (plan : List Entry) (stage : String → Stage) (s : Store) : Prop where
  orderly : Orderly i s
  notForeign : ¬Foreign userId threadId s
  gated : ∀ g ∈ gatedEntries plan,
    GatedAt sha256 userId threadId i g (stage g.1.asked.toolCallId) s
  ungated : ∀ p ∈ plan, p.2 = none →
    UngatedAt sha256 userId threadId i p.1 (stage p.1.asked.toolCallId) s

/-- What is asked of the message: distinct keys, ids of the right length, and decisions of a type
    the service knows -/
structure Sound (plan : List Entry) : Prop where
  keys : (plan.map fun p => p.1.asked.key sha256 userId threadId).Nodup
  thread : ∀ t, threadId = some t → t.length ≤ 64
  ids : ∀ p ∈ plan, p.1.asked.toolCallId ≠ "" ∧ p.1.asked.toolCallId.length ≤ 255
  types : ∀ g ∈ gatedEntries plan, ∃ status, approvalStatus? g.2.decisionType = some status

end

section

variable {sha256 : Sha256} {userId : String} {threadId runtimeRunId : Option String} {i : Nat}
  {plan : List Entry} {stage : String → Stage} {s : Store}

theorem framed_gatedAt {g : Gated} (hg : g.2.asked = g.1.asked) (st : Stage) :
    Framed i userId (g.1.asked.key sha256 userId threadId)
      (GatedAt sha256 userId threadId i g st) := by
  cases st with
  | fresh => exact framed_notYet g.1.asked
  | awaiting => exact framed_awaits g.1.asked
  | standing started =>
    rw [← hg]
    exact framed_decided g.2 started

theorem framed_ungatedAt (toolCall : ToolCallItem) (st : Stage) :
    Framed i userId (toolCall.asked.key sha256 userId threadId)
      (UngatedAt sha256 userId threadId i toolCall st) := by
  cases st with
  | fresh => exact framed_notYet toolCall.asked
  | awaiting => exact framed_notYet toolCall.asked
  | standing started =>
    cases started with
    | true => exact framed_started toolCall.asked
    | false => exact framed_notYet toolCall.asked

/-- What is recorded for a gated call is about that call. -/
theorem gated_asked {g : Gated} (hg : g ∈ gatedEntries plan) : g.2.asked = g.1.asked := by
  obtain ⟨p, -, hp, hd⟩ := mem_gatedEntries.mp hg
  rw [Entry.durable_asked hd, hp]

/-- The id of a call of the message is one the service takes. -/
theorem Sound.valid (h : Sound sha256 userId threadId plan) {p : Entry} (hp : p ∈ plan)
    (hrun : ∀ t, runtimeRunId = some t → t.length ≤ 128) :
    ValidIdentity threadId runtimeRunId p.1.asked.toolCallId :=
  ⟨h.thread, hrun, (h.ids p hp).1, (h.ids p hp).2⟩

/-- The same for the gated calls alone -/
theorem Sound.valid_gated (h : Sound sha256 userId threadId plan) {g : Gated}
    (hg : g ∈ gatedEntries plan) (hrun : ∀ t, runtimeRunId = some t → t.length ≤ 128) :
    ValidIdentity threadId runtimeRunId g.1.asked.toolCallId := by
  obtain ⟨p, hp, h1, -⟩ := mem_gatedEntries.mp hg
  rw [← h1]
  exact h.valid hp hrun

/-- Calls under one key are one call. -/
theorem Sound.entry_eq (h : Sound sha256 userId threadId plan) {p p' : Entry} (hp : p ∈ plan)
    (hp' : p' ∈ plan)
    (hk : p.1.asked.key sha256 userId threadId = p'.1.asked.key sha256 userId threadId) :
    p = p' := List.inj_on_of_nodup_map h.keys hp hp' hk

/-- The gated calls stand under different keys. -/
theorem Sound.gated_keys (h : Sound sha256 userId threadId plan) :
    ((gatedEntries plan).map fun g => g.1.asked.key sha256 userId threadId).Nodup := by
  have hsub : ((gatedEntries plan).map fun g => g.1.asked.key sha256 userId threadId).Sublist
      (plan.map fun p => p.1.asked.key sha256 userId threadId) := by
    clear h
    induction plan with
    | nil => exact List.Sublist.slnil
    | cons p plan ih =>
      cases hd : p.durable with
      | none =>
        have hnil : gatedEntries (p :: plan) = gatedEntries plan := by
          unfold gatedEntries
          rw [List.filterMap_cons_none]
          rw [hd]
          rfl
        rw [hnil]
        exact ih.cons _
      | some d =>
        have hcons : gatedEntries (p :: plan) = (p.1, d) :: gatedEntries plan := by
          unfold gatedEntries
          rw [List.filterMap_cons_some]
          rw [hd]
          rfl
        rw [hcons]
        exact ih.cons_cons _
  exact h.keys.sublist hsub

/-- A call without a decision stands under another key than the gated ones. -/
theorem Sound.ungated_key (h : Sound sha256 userId threadId plan) {p : Entry} (hp : p ∈ plan)
    (hnone : p.2 = none) : p.1.asked.key sha256 userId threadId ∉
      (gatedEntries plan).map fun g => g.1.asked.key sha256 userId threadId := by
  intro hmem
  obtain ⟨g, hg, hk⟩ := List.mem_map.mp hmem
  obtain ⟨p', hp', h1, hd⟩ := mem_gatedEntries.mp hg
  rw [← h1] at hk
  have heq := h.entry_eq hp' hp hk
  subst heq
  unfold Entry.durable at hd
  rw [hnone] at hd
  cases hd

/-! ## The two batches -/

/-- A commit moves no stage. -/
theorem AllAt.commit (h : AllAt sha256 userId threadId i plan stage s) :
    AllAt sha256 userId threadId i plan stage (s.commit i) := by
  refine ⟨(h.orderly.commit userId "").1, h.notForeign, ?_, ?_⟩
  · intro g hg
    exact (framed_gatedAt (gated_asked hg) _).commit (h.gated g hg)
  · intro p hp hnone
    exact (framed_ungatedAt p.1 _).commit (h.ungated p hp hnone)

/-- A batch over the gated calls moves their stages and no others. -/
theorem AllAt.batch (h : AllAt sha256 userId threadId i plan stage s)
    (hs : Sound sha256 userId threadId plan) {f : Gated → Db Unit} (move : Stage → Stage)
    (hmove : ∀ p ∈ plan, p.2 = none → ∀ s',
      UngatedAt sha256 userId threadId i p.1 (stage p.1.asked.toolCallId) s' →
      UngatedAt sha256 userId threadId i p.1 (move (stage p.1.asked.toolCallId)) s')
    (hstep : ∀ g ∈ gatedEntries plan, ∀ s, Orderly i s → ¬Foreign userId threadId s →
      GatedAt sha256 userId threadId i g (stage g.1.asked.toolCallId) s →
      Completes i (f g) (fun _ s' => Orderly i s' ∧
        Elsewhere i userId (g.1.asked.key sha256 userId threadId) s s' ∧
        GatedAt sha256 userId threadId i g (move (stage g.1.asked.toolCallId)) s') s)
    {Q : Unit → Store → Prop}
    (hQ : ∀ s', AllAt sha256 userId threadId i plan (fun id => move (stage id)) s' → Q () s') :
    Completes i ((gatedEntries plan).forM f) Q s := by
  apply completes_forM_keys (fun g : Gated => g.1.asked.key sha256 userId threadId)
    (fun g => GatedAt sha256 userId threadId i g (stage g.1.asked.toolCallId))
    (fun g => GatedAt sha256 userId threadId i g (move (stage g.1.asked.toolCallId)))
    hs.gated_keys (fun g hg => framed_gatedAt (gated_asked hg) _)
    (fun g hg => framed_gatedAt (gated_asked hg) _) hstep h.orderly h.notForeign h.gated
  intro s' ho hforeign hgated hothers
  apply hQ
  refine ⟨ho, hforeign, hgated, ?_⟩
  intro p hp hnone
  apply hmove p hp hnone
  exact hothers _ _ (hs.ungated_key hp hnone) (framed_ungatedAt p.1 _) (h.ungated p hp hnone)

/-- Asking for the approval of a call. -/
theorem completes_ensurePendingApproval_stage {g : Gated} {st : Stage}
    (hg : g.2.asked = g.1.asked)
    (hv : ValidIdentity threadId runtimeRunId g.1.asked.toolCallId) (ho : Orderly i s)
    (hforeign : ¬Foreign userId threadId s) (h : GatedAt sha256 userId threadId i g st s) :
    Completes i (ensurePendingApproval sha256 userId threadId runtimeRunId g.1) (fun _ s' =>
      Orderly i s' ∧ Elsewhere i userId (g.1.asked.key sha256 userId threadId) s s' ∧
        GatedAt sha256 userId threadId i g st.requested s') s := by
  cases st with
  | fresh =>
    apply completes_ensurePendingApproval_absent hv hforeign ho h
    intro s' ho' he hawaits
    exact ⟨ho', he, hawaits⟩
  | awaiting =>
    obtain ⟨r, b, hf, horig, hstatus, hb⟩ := h
    apply completes_ensurePendingApproval_found hv hforeign ho hf horig
    · rw [hstatus]
      nofun
    intro r' s' ho' he hf' hsame
    exact ⟨ho', he, r', b, hf', hsame.original horig, hsame.status.trans hstatus, hb⟩
  | standing started =>
    obtain ⟨r, b, hf, horig, heff, htype, hpayload, hby, hstarted, hstatus⟩ := h
    rw [hg] at hf horig
    apply completes_ensurePendingApproval_found hv hforeign ho hf horig
    · rw [hstatus]
      exact decided_ne_pending started b.status
    intro r' s' ho' he hf' hsame
    refine ⟨ho', he, r', b, ?_, ?_, hsame.effective heff, htype, hpayload, hby, hstarted,
      hsame.status.trans hstatus⟩
    · rw [hg]
      exact hf'
    · rw [hg]
      exact hsame.original horig

/-- Recording the decision on a call. -/
theorem completes_recordDecision_stage {g : Gated} {st : Stage} {now : Nat}
    {status : ApprovalStatus} (hg : g.2.asked = g.1.asked)
    (hv : ValidIdentity threadId runtimeRunId g.1.asked.toolCallId)
    (hd : ∀ started, st = .standing started → g.2.Replayable sha256)
    (htype : approvalStatus? g.2.decisionType = some status)
    (ho : Orderly i s) (hforeign : ¬Foreign userId threadId s) (hst : st ≠ .fresh)
    (h : GatedAt sha256 userId threadId i g st s) :
    Completes i (recordDecision sha256 userId threadId runtimeRunId now g.2) (fun _ s' =>
      Orderly i s' ∧ Elsewhere i userId (g.1.asked.key sha256 userId threadId) s s' ∧
        GatedAt sha256 userId threadId i g st.decided s') s := by
  rw [← hg] at hv ⊢
  cases st with
  | fresh => exact absurd rfl hst
  | awaiting =>
    have h' : Awaits sha256 userId threadId i g.2.asked s := by
      rw [hg]
      exact h
    apply completes_recordDecision_awaits hv hforeign ho htype h'
    intro s' ho' he hdecided
    exact ⟨ho', he, hdecided⟩
  | standing started =>
    apply completes_recordDecision_decided hv hforeign ho (hd started rfl) h
    intro s' ho' he hdecided
    exact ⟨ho', he, hdecided⟩

/-- A loop over what is made of the gated calls is a loop over them. -/
theorem forM_gated {β : Type} (f : Gated → β) (body : β → Db Unit) (l : List Gated) :
    (l.map f).forM body = l.forM fun g => body (f g) := by
  induction l with
  | nil => rfl
  | cons g rest ih => exact congrArg (fun x => body (f g) >>= fun _ => x) ih

/-- Asking for approvals leaves the other calls alone. -/
theorem ungatedAt_requested {toolCall : ToolCallItem} {st : Stage}
    (h : UngatedAt sha256 userId threadId i toolCall st s) :
    UngatedAt sha256 userId threadId i toolCall st.requested s := by
  cases st with
  | fresh => exact h
  | awaiting => exact h
  | standing started => exact h

/-- Recording decisions does, too. -/
theorem ungatedAt_decided {toolCall : ToolCallItem} {st : Stage}
    (h : UngatedAt sha256 userId threadId i toolCall st s) :
    UngatedAt sha256 userId threadId i toolCall st.decided s := by
  cases st with
  | fresh => exact h
  | awaiting => exact h
  | standing started => exact h

theorem completes_ensurePendingApprovals (h : AllAt sha256 userId threadId i plan stage s)
    (hs : Sound sha256 userId threadId plan)
    (hrun : ∀ t, runtimeRunId = some t → t.length ≤ 128) {Q : Unit → Store → Prop}
    (hQ : ∀ s', AllAt sha256 userId threadId i plan (fun id => (stage id).requested) s' →
      Q () s') :
    Completes i (ensurePendingApprovals sha256 userId threadId runtimeRunId
      ((gatedEntries plan).map Prod.fst)) Q s := by
  unfold ensurePendingApprovals
  apply completes_rollbackOnError
  apply Machine.Returns.bind
  rw [forM_gated]
  apply h.batch hs Stage.requested
  · intro p _ _ s' hp
    exact ungatedAt_requested hp
  · intro g hg s' ho hforeign hat
    exact completes_ensurePendingApproval_stage (gated_asked hg) (hs.valid_gated hg hrun) ho
      hforeign hat
  · intro s' h'
    apply completes_commit
    exact hQ _ h'.commit

theorem completes_recordApprovalDecisions (h : AllAt sha256 userId threadId i plan stage s)
    (hs : Sound sha256 userId threadId plan)
    (hrun : ∀ t, runtimeRunId = some t → t.length ≤ 128) (hfresh : ∀ id, stage id ≠ .fresh)
    (hd : ∀ g ∈ gatedEntries plan, ∀ started,
      stage g.1.asked.toolCallId = .standing started → g.2.Replayable sha256)
    {Q : Unit → Store → Prop}
    (hQ : ∀ s', AllAt sha256 userId threadId i plan (fun id => (stage id).decided) s' →
      Q () s') :
    Completes i (recordApprovalDecisions sha256 userId threadId runtimeRunId
      ((gatedEntries plan).map Prod.snd)) Q s := by
  unfold recordApprovalDecisions
  apply Machine.Returns.bind
  apply completes_utcnow
  intro now
  apply Machine.Returns.bind
  apply Machine.Returns.tryCatch
  apply Machine.Returns.bind
  rw [forM_gated]
  apply h.batch hs Stage.decided
  · intro p _ _ s' hp
    exact ungatedAt_decided hp
  · intro g hg s' ho hforeign hat
    obtain ⟨status, htype⟩ := hs.types g hg
    exact completes_recordDecision_stage (gated_asked hg) (hs.valid_gated hg hrun)
      (hd g hg) htype ho hforeign (hfresh _) hat
  · intro s' h'
    apply Machine.Returns.bind
    apply completes_commit
    apply Machine.Returns.pure
    rw [if_pos rfl]
    exact Machine.Returns.pure (hQ _ h'.commit)

/-- A batch raises whose first decision does not match what is recorded of it. -/
theorem raises_recordApprovalDecisions {g : Gated} {rest : List Gated} {started : Bool}
    (h : AllAt sha256 userId threadId i plan stage s) (hs : Sound sha256 userId threadId plan)
    (hrun : ∀ t, runtimeRunId = some t → t.length ≤ 128) (hplan : gatedEntries plan = g :: rest)
    (hst : stage g.1.asked.toolCallId = .standing started)
    (hne : canonicalJson sha256 (toPy (jsonObject sha256 (.mapping g.2.effectiveInput))) ≠
      canonicalJson sha256 (.mapping g.2.effectiveInput)) :
    toolDb.Raises NoFault i (recordApprovalDecisions sha256 userId threadId runtimeRunId
      ((gatedEntries plan).map Prod.snd))
      (fun e => e = .approvalConflict "审批已使用不同决定完成，不能覆盖") s := by
  have hg : g ∈ gatedEntries plan := by
    rw [hplan]
    exact List.mem_cons_self
  have hv := hs.valid_gated hg hrun
  have hat := h.gated g hg
  rw [hst] at hat
  rw [← gated_asked hg] at hv
  unfold recordApprovalDecisions
  rw [hplan]
  apply Machine.Returns.bind_raises
  apply completes_utcnow
  intro now
  apply Machine.Raises.bind
  apply Machine.Raises.tryCatch
  · apply Machine.Raises.bind
    apply Machine.Raises.bind
    exact raises_recordDecision hv h.notForeign h.orderly hne hat
  · rintro e s' rfl
    apply Machine.Returns.bind_raises
    apply completes_rollback
    rw [if_neg nofun]
    exact Machine.Raises.throw rfl

/-! ## `after_model` -/

variable {m : HumanInTheLoopMiddleware} {messages : List Message} {toolCalls : List ToolCallItem}
  {decisions : List Decision}

/-- What `after_model` answers when every decision can be processed -/
def expected (m : HumanInTheLoopMiddleware) (toolCalls : List ToolCallItem)
    (decisions : List Decision) : Except String (Option Update) :=
  if (toolCalls.filter m.gated).isEmpty then .ok none
  else match revise m toolCalls decisions with
    | .error e => .error e
    | .ok (calls, toolMessages, _) => .ok (some ⟨calls, toolMessages⟩)

/-- Where nothing is gated, no call has a decision. -/
theorem gatedEntries_of_isEmpty (hlen : decisions.length = (toolCalls.filter m.gated).length)
    (hempty : (toolCalls.filter m.gated).isEmpty = true) :
    gatedEntries (assign m toolCalls decisions) = [] := by
  rw [filter_gated hlen, List.isEmpty_iff, List.map_eq_nil_iff] at hempty
  exact hempty

/-- Without gated calls nobody has decided anything. -/
theorem entry_none_of_no_gated (h : gatedEntries plan = []) {p : Entry} (hp : p ∈ plan) :
    p.2 = none := by
  cases hd : p.2 with
  | none => rfl
  | some decision =>
    have hg : (p.1, durableDecision decision p.1 (decision.revised p.1)) ∈ gatedEntries plan := by
      apply mem_gatedEntries.mpr
      refine ⟨p, hp, rfl, ?_⟩
      unfold Entry.durable
      rw [hd]
      rfl
    rw [h] at hg
    cases hg

/-- The first half of `after_model`: the calls await their decisions. -/
theorem completes_requestApprovals (hlast : lastAiMessage messages = some toolCalls)
    (hlen : decisions.length = (toolCalls.filter m.gated).length)
    (h : AllAt sha256 userId threadId i (assign m toolCalls decisions) stage s)
    (hs : Sound sha256 userId threadId (assign m toolCalls decisions))
    (hrun : ∀ t, runtimeRunId = some t → t.length ≤ 128) {Q : Unit → Store → Prop}
    (hQ : ∀ s', AllAt sha256 userId threadId i (assign m toolCalls decisions)
      (fun id => (stage id).requested) s' → Q () s') :
    Completes i (requestApprovals sha256 m (some userId) threadId runtimeRunId messages) Q s := by
  unfold requestApprovals
  rw [hlast]
  dsimp only
  by_cases hempty : (toolCalls.filter m.gated).isEmpty = true
  · rw [if_pos hempty]
    apply Machine.Returns.pure
    apply hQ
    have hnil := gatedEntries_of_isEmpty hlen hempty
    refine ⟨h.orderly, h.notForeign, ?_, fun p hp hnone => ungatedAt_requested (h.ungated p hp hnone)⟩
    rw [hnil]
    nofun
  · rw [if_neg hempty]
    unfold forUser
    dsimp only
    rw [filter_gated hlen]
    exact completes_ensurePendingApprovals h hs hrun hQ

/-- `after_model` as a whole, once every decision can be processed. -/
theorem completes_afterModel (hm : ProcessesDecisions m)
    (hlast : lastAiMessage messages = some toolCalls)
    (hlen : decisions.length = (toolCalls.filter m.gated).length)
    (hadm : Admitted m (assign m toolCalls decisions))
    (h : AllAt sha256 userId threadId i (assign m toolCalls decisions) stage s)
    (hs : Sound sha256 userId threadId (assign m toolCalls decisions))
    (hrun : ∀ t, runtimeRunId = some t → t.length ≤ 128)
    (hd : ∀ g ∈ gatedEntries (assign m toolCalls decisions), ∀ started,
      stage g.1.asked.toolCallId = .standing started → g.2.Replayable sha256)
    {Q : Except String (Option Update) → Store → Prop}
    (hQ : ∀ s', AllAt sha256 userId threadId i (assign m toolCalls decisions)
      (fun id => (stage id).decided) s' → Q (expected m toolCalls decisions) s') :
    Completes i (afterModel sha256 m (some userId) threadId runtimeRunId messages decisions) Q
      s := by
  have hboth : ∀ id, (stage id).requested.decided = (stage id).decided := by
    intro id
    cases stage id with
    | fresh => rfl
    | awaiting => rfl
    | standing started => rfl
  unfold afterModel
  apply Machine.Returns.bind
  apply completes_requestApprovals hlast hlen h hs hrun
  intro s' h'
  rw [hlast]
  dsimp only
  unfold expected at hQ
  by_cases hempty : (toolCalls.filter m.gated).isEmpty = true
  · rw [if_pos hempty] at hQ ⊢
    apply Machine.Returns.pure
    apply hQ
    have hnil := gatedEntries_of_isEmpty hlen hempty
    refine ⟨h'.orderly, h'.notForeign, ?_, ?_⟩
    · rw [hnil]
      nofun
    · intro p hp hnone
      rw [← hboth]
      exact ungatedAt_decided (h'.ungated p hp hnone)
  · rw [if_neg hempty] at hQ ⊢
    rw [if_neg (not_not_intro hlen)]
    obtain ⟨toolMessages, hrevise⟩ := revise_eq hm hlen hadm
    rw [hrevise] at hQ ⊢
    apply Machine.Returns.bind
    unfold forUser
    apply completes_recordApprovalDecisions h' hs hrun
    · intro id
      cases stage id with
      | fresh => nofun
      | awaiting => nofun
      | standing started => nofun
    · intro g hg started hst
      apply hd g hg started
      cases hstage : stage g.1.asked.toolCallId with
      | fresh => rw [hstage] at hst; cases hst
      | awaiting => rw [hstage] at hst; cases hst
      | standing b => rw [hstage] at hst; exact hst
    · intro s'' h''
      apply Machine.Returns.pure
      apply hQ
      simp only [hboth] at h''
      exact h''

/-- A run of the graph raises when the first decision does not match what is recorded of it. -/
theorem raises_afterModel (hm : ProcessesDecisions m)
    (hlast : lastAiMessage messages = some toolCalls)
    (hlen : decisions.length = (toolCalls.filter m.gated).length)
    (hadm : Admitted m (assign m toolCalls decisions))
    (h : AllAt sha256 userId threadId i (assign m toolCalls decisions) stage s)
    (hs : Sound sha256 userId threadId (assign m toolCalls decisions))
    (hrun : ∀ t, runtimeRunId = some t → t.length ≤ 128) {g : Gated} {rest : List Gated}
    {started : Bool} (hplan : gatedEntries (assign m toolCalls decisions) = g :: rest)
    (hst : stage g.1.asked.toolCallId = .standing started)
    (hne : canonicalJson sha256 (toPy (jsonObject sha256 (.mapping g.2.effectiveInput))) ≠
      canonicalJson sha256 (.mapping g.2.effectiveInput)) :
    toolDb.Raises NoFault i
      (afterModel sha256 m (some userId) threadId runtimeRunId messages decisions)
      (fun e => e = .approvalConflict "审批已使用不同决定完成，不能覆盖") s := by
  unfold afterModel
  apply Machine.Returns.bind_raises
  apply completes_requestApprovals hlast hlen h hs hrun
  intro s' h'
  rw [hlast]
  dsimp only
  rw [if_neg, if_neg (not_not_intro hlen)]
  · obtain ⟨toolMessages, hrevise⟩ := revise_eq hm hlen hadm
    rw [hrevise]
    apply Machine.Raises.bind
    unfold forUser
    apply raises_recordApprovalDecisions h' hs hrun hplan _ hne
    · exact started
    · rw [hst]
      rfl
  · intro hempty
    rw [gatedEntries_of_isEmpty hlen hempty] at hplan
    cases hplan

/-- The calls of the revised message are the calls as the decisions leave them. -/
theorem revisedCalls_expected (hm : ProcessesDecisions m)
    (hlen : decisions.length = (toolCalls.filter m.gated).length)
    (hadm : Admitted m (assign m toolCalls decisions)) :
    revisedCalls toolCalls (expected m toolCalls decisions) =
      (assign m toolCalls decisions).map Entry.revised := by
  unfold expected
  by_cases hempty : (toolCalls.filter m.gated).isEmpty = true
  · rw [if_pos hempty]
    have hnil := gatedEntries_of_isEmpty hlen hempty
    have hsame : (assign m toolCalls decisions).map Entry.revised =
        (assign m toolCalls decisions).map Prod.fst := by
      apply List.map_congr_left
      intro p hp
      unfold Entry.revised
      rw [entry_none_of_no_gated hnil hp]
    rw [hsame, assign_map_fst]
    rfl
  · rw [if_neg hempty]
    obtain ⟨toolMessages, hrevise⟩ := revise_eq hm hlen hadm
    rw [hrevise]
    rfl

/-! ## A claim -/

/-- A claim moves the stage of its own call. -/
theorem AllAt.update (h : AllAt sha256 userId threadId i plan stage s)
    (hs : Sound sha256 userId threadId plan) {p : Entry} (hp : p ∈ plan) {s' : Store} {st : Stage}
    (ho : Orderly i s')
    (he : Elsewhere i userId (p.1.asked.key sha256 userId threadId) s s')
    (hgated : ∀ g ∈ gatedEntries plan, p.1 = g.1 → p.durable = some g.2 →
      GatedAt sha256 userId threadId i g st s')
    (hungated : p.2 = none → UngatedAt sha256 userId threadId i p.1 st s') :
    AllAt sha256 userId threadId i plan (Function.update stage p.1.asked.toolCallId st) s' := by
  have hother : ∀ p' ∈ plan, p' ≠ p →
      p'.1.asked.key sha256 userId threadId ≠ p.1.asked.key sha256 userId threadId ∧
        p'.1.asked.toolCallId ≠ p.1.asked.toolCallId := by
    intro p' hp' hne
    constructor
    · exact fun hk => hne (hs.entry_eq hp' hp hk)
    · intro hid
      apply hne
      apply hs.entry_eq hp' hp
      unfold Asked.key
      rw [hid]
  refine ⟨ho, not_foreign_elsewhere he h.notForeign, ?_, ?_⟩
  · intro g hg
    obtain ⟨p', hp', h1, hd⟩ := mem_gatedEntries.mp hg
    by_cases heq : p' = p
    · subst heq
      rw [← h1, Function.update_self]
      exact hgated g hg h1 hd
    · obtain ⟨hk, hid⟩ := hother p' hp' heq
      rw [h1] at hk hid
      rw [Function.update_of_ne hid]
      exact (framed_gatedAt (gated_asked hg) _).elsewhere hk he (h.gated g hg)
  · intro p' hp' hnone
    by_cases heq : p' = p
    · subst heq
      rw [Function.update_self]
      exact hungated hnone
    · obtain ⟨hk, hid⟩ := hother p' hp' heq
      rw [Function.update_of_ne hid]
      exact (framed_ungatedAt p'.1 _).elsewhere hk he (h.ungated p' hp' hnone)

theorem approvalStatus?_rejected {decisionType : String} :
    approvalStatus? decisionType = some .rejected ↔ decisionType = "reject" := by
  unfold approvalStatus?
  constructor
  · intro h
    by_cases ha : decisionType = "approve"
    · rw [if_pos ha] at h
      cases h
    · rw [if_neg ha] at h
      by_cases he : decisionType = "edit"
      · rw [if_pos he] at h
        cases h
      · rw [if_neg he] at h
        by_contra hr
        rw [if_neg hr] at h
        cases h
  · rintro rfl
    decide

/-- A decision does not change the id of its call. -/
theorem Decision.revised_id (decision : Decision) (toolCall : ToolCallItem) :
    (decision.revised toolCall).id = toolCall.id := by
  unfold Decision.revised
  split
  · split
    · rfl
    · rfl
  · rfl

theorem completes_claim_ungated {p : Entry} (hp : p ∈ plan) (hnone : p.2 = none) {started : Bool}
    (h : AllAt sha256 userId threadId i plan stage s) (hs : Sound sha256 userId threadId plan)
    (hst : stage p.1.asked.toolCallId = .standing started)
    (hrun : ∀ t, runtimeRunId = some t → t.length ≤ 128) :
    Completes i (claimToolCall sha256 userId threadId runtimeRunId p.revised) (fun claim s' =>
      claim.shouldExecute = !started ∧ AllAt sha256 userId threadId i plan
        (Function.update stage p.1.asked.toolCallId (.standing true)) s') s := by
  have hrevised : p.revised = p.1 := by
    unfold Entry.revised
    rw [hnone]
  have hnot : ∀ g ∈ gatedEntries plan, ∀ s', p.1 = g.1 → p.durable = some g.2 →
      GatedAt sha256 userId threadId i g (.standing true) s' := by
    intro g _ s' _ hd
    unfold Entry.durable at hd
    rw [hnone] at hd
    cases hd
  have hv := hs.valid hp hrun
  have hat := h.ungated p hp hnone
  rw [hst] at hat
  rw [hrevised]
  cases started with
  | false =>
    apply completes_claim_absent (q := p.1.asked) hv h.notForeign h.orderly hat
    intro claim s' ho he hstarted hexec
    exact ⟨hexec, h.update hs hp ho he (fun g hg => hnot g hg s') fun _ => hstarted⟩
  | true =>
    obtain ⟨r, hf, horig, heff, hrunning⟩ := hat
    apply completes_claim_found (q := p.1.asked) hv h.notForeign h.orderly hf horig heff
    · rw [hrunning]
      nofun
    · intro happroved
      rw [hrunning] at happroved
      cases happroved
    · intro _ r' claim s' ho he hf' horig' heff' hstatus hexec
      refine ⟨hexec, h.update hs hp ho he (fun g hg => hnot g hg s') fun _ => ?_⟩
      exact ⟨r', hf', horig', heff', hstatus.trans hrunning⟩

theorem completes_claim_gated {p : Entry} (hp : p ∈ plan) {decision : Decision}
    (hsome : p.2 = some decision) {started : Bool}
    (h : AllAt sha256 userId threadId i plan stage s) (hs : Sound sha256 userId threadId plan)
    (hst : stage p.1.asked.toolCallId = .standing started)
    (hrun : ∀ t, runtimeRunId = some t → t.length ≤ 128) :
    Completes i (claimToolCall sha256 userId threadId runtimeRunId p.revised) (fun claim s' =>
      claim.shouldExecute = (!started && p.executable) ∧ AllAt sha256 userId threadId i plan
        (Function.update stage p.1.asked.toolCallId (.standing (started || p.executable))) s')
      s := by
  have hdurable : p.durable = some (durableDecision decision p.1 (decision.revised p.1)) := by
    unfold Entry.durable
    rw [hsome]
    rfl
  have hrevised : p.revised = decision.revised p.1 := by
    unfold Entry.revised
    rw [hsome]
  have hexecutable : p.executable = decide (decision.type ≠ "reject") := by
    unfold Entry.executable
    rw [hsome]
    rfl
  have hmem : (p.1, durableDecision decision p.1 (decision.revised p.1)) ∈ gatedEntries plan :=
    mem_gatedEntries.mpr ⟨p, hp, rfl, hdurable⟩
  have hgate := h.gated _ hmem
  rw [hst] at hgate
  obtain ⟨r, b, hf, horig, heff, htype, hpayload, hby, hstarted, hstatus⟩ := hgate
  have hreject : b.status = .rejected ↔ decision.type = "reject" := by
    rw [← approvalStatus?_rejected]
    constructor
    · intro hb
      rw [hb] at htype
      exact htype
    · intro hr
      exact Option.some.inj (htype.symm.trans hr)
  have hupdate : ∀ {s' : Store} {r' : ToolInvocation} {started' : Bool}, Orderly i s' →
      Elsewhere i userId (p.1.asked.key sha256 userId threadId) s s' →
      Found i userId (p.1.asked.key sha256 userId threadId) s' r' (some b) →
      Original sha256 threadId p.1.asked r' →
      Effective sha256 (durableDecision decision p.1 (decision.revised p.1)).effectiveToolName
        (durableDecision decision p.1 (decision.revised p.1)).effectiveInput r' →
      (started' = true → b.status ≠ .rejected) →
      (r'.status = if started' then .running else invocationStatus b.status) →
      AllAt sha256 userId threadId i plan
        (Function.update stage p.1.asked.toolCallId (.standing started')) s' := by
    intro s' r' started' ho he hf' horig' heff' hst' hstatus'
    apply h.update hs hp ho he
    · intro g _ h1 hd
      rw [hdurable, Option.some.injEq] at hd
      obtain ⟨g1, g2⟩ := g
      cases hd
      exact ⟨r', b, hf', horig', heff', htype, hpayload, hby, hst', hstatus'⟩
    · intro hnone
      rw [hsome] at hnone
      cases hnone
  unfold claimToolCall
  rw [hrevised, Decision.revised_id]
  apply completes_claim_found (q := p.1.asked) (hs.valid hp hrun) h.notForeign h.orderly hf horig
    heff
  · rw [hstatus]
    exact decided_ne_pending started b.status
  · -- an approved row has not been started, and its decision is no rejection
    intro happroved r' claim s' ho he hf' horig' heff' hrunning hexec
    have hnot : started = false := by
      cases started with
      | false => rfl
      | true =>
        rw [hstatus] at happroved
        cases happroved
    subst hnot
    have hne : b.status ≠ .rejected := by
      intro hb
      rw [hstatus, hb] at happroved
      cases happroved
    have hexe : p.executable = true := by
      rw [hexecutable]
      exact decide_eq_true fun ht => hne (hreject.mpr ht)
    rw [hexe]
    exact ⟨hexec, hupdate ho he hf' horig' heff' (fun _ => hne) hrunning⟩
  · intro hnapproved r' claim s' ho he hf' horig' heff' hsame hexec
    have hkeep : (started || p.executable) = started ∧ (!started && p.executable) = false := by
      cases started with
      | true => exact ⟨rfl, rfl⟩
      | false =>
        have hb : b.status = .rejected := by
          by_contra hne
          apply hnapproved
          rw [hstatus]
          cases hbs : b.status with
          | rejected => exact absurd hbs hne
          | pending => rfl
          | approved => rfl
          | edited => rfl
        have hexe : p.executable = false := by
          rw [hexecutable]
          exact decide_eq_false (not_not_intro (hreject.mp hb))
        rw [hexe]
        exact ⟨rfl, rfl⟩
    rw [hkeep.1, hkeep.2]
    exact ⟨hexec, hupdate ho he hf' horig' heff' hstarted (hsame.trans hstatus)⟩

/-- **A claim says that its call is to be executed when nobody has rejected it and it has not been
    started.** -/
theorem completes_claim {p : Entry} (hp : p ∈ plan) {started : Bool}
    (h : AllAt sha256 userId threadId i plan stage s) (hs : Sound sha256 userId threadId plan)
    (hst : stage p.1.asked.toolCallId = .standing started)
    (hrun : ∀ t, runtimeRunId = some t → t.length ≤ 128) :
    Completes i (claimToolCall sha256 userId threadId runtimeRunId p.revised) (fun claim s' =>
      claim.shouldExecute = (!started && p.executable) ∧ AllAt sha256 userId threadId i plan
        (Function.update stage p.1.asked.toolCallId (.standing (started || p.executable))) s')
      s := by
  cases hd : p.2 with
  | none =>
    have hexe : p.executable = true := by
      unfold Entry.executable
      rw [hd]
      rfl
    rw [hexe, Bool.and_true, Bool.or_true]
    exact completes_claim_ungated hp hd h hs hst hrun
  | some decision => exact completes_claim_gated hp hd h hs hst hrun

/-! ## What comes after -/

/-- All decisions are recorded; the flags tell which calls have been started. -/
def flagged (flag : String → Bool) : String → Stage := fun id => .standing (flag id)

/-- Starting a call sets its flag and no other one. -/
theorem update_flagged (flag : String → Bool) (id : String) (b : Bool) :
    Function.update (flagged flag) id (.standing b) = flagged (Function.update flag id b) := by
  funext x
  unfold flagged
  by_cases hx : x = id
  · subst hx
    rw [Function.update_self, Function.update_self]
  · rw [Function.update_of_ne hx, Function.update_of_ne hx]

/-- Two places of the message hold calls with different ids. -/
theorem Sound.id_ne (hs : Sound sha256 userId threadId plan) {n k : Nat} {p p' : Entry}
    (hn : plan[n]? = some p) (hk : plan[k]? = some p') (hne : n ≠ k) :
    p.1.asked.toolCallId ≠ p'.1.asked.toolCallId := by
  intro hid
  have hlt : n < (plan.map fun p => p.1.asked.key sha256 userId threadId).length := by
    rw [List.length_map]
    exact (List.getElem?_eq_some_iff.mp hn).1
  apply hne
  apply (List.getElem?_inj hlt hs.keys).mp
  rw [List.getElem?_map, List.getElem?_map, hn, hk]
  simp only [Option.map_some, Asked.key, hid]

/-- How often call `n` is started from here -/
def startsLeft (flag : String → Bool) (events : List Event) (n : Nat) (p : Entry) : Nat :=
  if events.any (Event.claims n) && p.executable && !flag p.1.asked.toolCallId then 1 else 0

/-- Any sequence of claims and replays of the graph, from any flags. The induction is on the
sequence. -/
theorem completes_runEvents (hm : ProcessesDecisions m)
    (hlast : lastAiMessage messages = some toolCalls)
    (hlen : decisions.length = (toolCalls.filter m.gated).length)
    (hadm : Admitted m (assign m toolCalls decisions))
    (hs : Sound sha256 userId threadId (assign m toolCalls decisions))
    (hsettled : ∀ g ∈ gatedEntries (assign m toolCalls decisions), g.2.Replayable sha256) :
    ∀ (events : List Event) (flag : String → Bool) {s : Store},
      AllAt sha256 userId threadId i (assign m toolCalls decisions) (flagged flag) s →
      (∀ event ∈ events, ∀ t, event.runtimeRunId = some t → t.length ≤ 128) →
      Completes i (runEvents sha256 m userId threadId messages decisions
        ((assign m toolCalls decisions).map Entry.revised) events) (fun answers s' =>
          (∀ result, Answer.replayed result ∈ answers → result = expected m toolCalls decisions) ∧
          (∀ n p, (assign m toolCalls decisions)[n]? = some p →
            answers.countP (Answer.starts n) = startsLeft flag events n p) ∧
          ∃ flag', AllAt sha256 userId threadId i (assign m toolCalls decisions) (flagged flag') s')
        s := by
  intro events
  induction events with
  | nil =>
    intro flag s h _
    exact Machine.Returns.pure ⟨nofun, fun _ _ _ => rfl, flag, h⟩
  | cons event events ih =>
    intro flag s h hrun
    have hrun' := fun e he => hrun e (List.mem_cons_of_mem event he)
    have hrun₀ := hrun event List.mem_cons_self
    -- what the event answers, and what may still be started after it
    have hnext : ∀ (now : List Answer) (flag' : String → Bool) (s' : Store),
        (∀ result, Answer.replayed result ∈ now → result = expected m toolCalls decisions) →
        (∀ n p, (assign m toolCalls decisions)[n]? = some p →
          now.countP (Answer.starts n) + startsLeft flag' events n p =
            startsLeft flag (event :: events) n p) →
        AllAt sha256 userId threadId i (assign m toolCalls decisions) (flagged flag') s' →
        Completes i (do
          let later ← runEvents sha256 m userId threadId messages decisions
            ((assign m toolCalls decisions).map Entry.revised) events
          pure (now ++ later)) (fun answers s' =>
            (∀ result, Answer.replayed result ∈ answers →
              result = expected m toolCalls decisions) ∧
            (∀ n p, (assign m toolCalls decisions)[n]? = some p →
              answers.countP (Answer.starts n) = startsLeft flag (event :: events) n p) ∧
            ∃ flag', AllAt sha256 userId threadId i (assign m toolCalls decisions)
              (flagged flag') s') s' := by
      intro now flag' s' hreplayed hstarts h'
      apply Machine.Returns.bind
      apply Machine.Returns.mono _ (ih flag' h' hrun')
      rintro later s'' ⟨hall, hcount, hflag⟩
      apply Machine.Returns.pure
      refine ⟨?_, ?_, hflag⟩
      · intro result hmem
        rcases List.mem_append.mp hmem with hmem | hmem
        · exact hreplayed result hmem
        · exact hall result hmem
      · intro n p hp
        rw [List.countP_append, hcount n p hp]
        exact hstarts n p hp
    unfold runEvents
    apply Machine.Returns.bind
    cases event with
    | requested runtimeRunId =>
      apply Machine.Returns.bind
      apply completes_requestApprovals hlast hlen h hs hrun₀
      intro s' h'
      apply Machine.Returns.pure
      apply hnext [.requested] flag s' (by simp) _ h'
      intro n p _
      simp [startsLeft, Event.claims, Answer.starts]
    | replay runtimeRunId =>
      apply Machine.Returns.bind
      apply completes_afterModel hm hlast hlen hadm h hs hrun₀ fun g hg _ _ => hsettled g hg
      intro s' h'
      apply Machine.Returns.pure
      apply hnext [.replayed _] flag s' (by simp) _ h'
      intro n p _
      simp [startsLeft, Event.claims, Answer.starts]
    | claim k runtimeRunId =>
      simp only [runEvent]
      rw [List.getElem?_map]
      cases hk : (assign m toolCalls decisions)[k]? with
      | none =>
        apply Machine.Returns.pure
        apply hnext [] flag s (by simp) _ h
        intro n p hp
        have hne : k ≠ n := by
          rintro rfl
          rw [hk] at hp
          cases hp
        unfold startsLeft
        rw [List.any_cons, show Event.claims n (.claim k runtimeRunId) = false from
          beq_eq_false_iff_ne.mpr hne, Bool.false_or, List.countP_nil, Nat.zero_add]
      | some p₀ =>
        have hp₀ := List.mem_of_getElem? hk
        apply Machine.Returns.bind
        apply Machine.Returns.mono _ (completes_claim hp₀ h hs rfl hrun₀)
        rintro claim s' ⟨hexec, h'⟩
        rw [update_flagged] at h'
        apply Machine.Returns.pure
        apply hnext _ _ s' (by simp) _ h'
        intro n p hp
        rw [List.countP_singleton]
        unfold startsLeft
        rw [List.any_cons]
        by_cases hn : k = n
        · -- the first claim of a call uses up what there is to start
          subst hn
          rw [hk, Option.some.injEq] at hp
          subst hp
          rw [Function.update_self]
          simp only [Event.claims, Answer.starts, beq_self_eq_true, hexec]
          cases events.any (Event.claims k) <;> cases p₀.executable <;>
            cases flag p₀.1.asked.toolCallId <;> rfl
        · rw [Function.update_of_ne (hs.id_ne hp hk (Ne.symm hn))]
          have hb : (k == n) = false := beq_eq_false_iff_ne.mpr hn
          simp [Event.claims, Answer.starts, hb]

/-- Runs that end at the interrupt, as many as there are, before the decisions come -/
theorem completes_interrupted (hlast : lastAiMessage messages = some toolCalls)
    (hlen : decisions.length = (toolCalls.filter m.gated).length)
    (hs : Sound sha256 userId threadId (assign m toolCalls decisions)) :
    ∀ {interrupted : List (Option String)} {stage : String → Stage} {s : Store},
      AllAt sha256 userId threadId i (assign m toolCalls decisions) stage s →
      (∀ id, (stage id).decided = .standing false) →
      (∀ id ∈ interrupted, ∀ t, id = some t → t.length ≤ 128) → ∀ {Q : Unit → Store → Prop},
      (∀ stage' s', AllAt sha256 userId threadId i (assign m toolCalls decisions) stage' s' →
        (∀ id, (stage' id).decided = .standing false) → Q () s') →
      Completes i (interrupted.forM fun id =>
        requestApprovals sha256 m (some userId) threadId id messages) Q s := by
  intro interrupted
  induction interrupted with
  | nil =>
    intro stage s h hstage _ Q hQ
    exact Machine.Returns.pure (hQ stage s h hstage)
  | cons id interrupted ih =>
    intro stage s h hstage hrun Q hQ
    apply Machine.Returns.bind
    apply completes_requestApprovals hlast hlen h hs (hrun id List.mem_cons_self)
    intro s' h'
    apply ih h' _ (fun x hx => hrun x (List.mem_cons_of_mem _ hx)) hQ
    intro x
    have hx := hstage x
    cases hst : stage x with
    | fresh => rfl
    | awaiting => rfl
    | standing started =>
      rw [hst] at hx
      exact hx

/-! ## From a state nobody is writing in -/

/-- What the invariant says when nobody has anything uncommitted -/
theorem orderly_of_inv {issued : Call → Prop} {t : Tracked} (hi : Inv sha256 issued t)
    (hidle : ∀ j n, (t.store.slot n).invocation.own j = none ∧
      (t.store.slot n).approval.own j = none) : Orderly i t.store := by
  have hfree : ∀ {α : Type} {c : Cell Nat α}, (∀ j, c.own j = none) → c.lockedFor i = false := by
    intro α c hc
    cases hp : c.pending with
    | none =>
      unfold Cell.lockedFor
      rw [hp]
      rfl
    | some v =>
      obtain ⟨j, w⟩ := v
      have hj := hc j
      rw [Cell.own_eq_some.mpr hp] at hj
      cases hj
  refine ⟨?_, ?_, ?_, ?_, ?_, ?_⟩
  · exact fun n => hfree fun j => (hidle j n).1
  · exact fun n => hfree fun j => (hidle j n).2
  · exact fun n r hr => hi.lt_next hr
  · exact fun n r hr => hi.view_at hr
  · exact fun n n' r r' hr hr' hu hk => hi.slot_eq hr hr' hu hk
  · exact fun n a ha => (hi.slots n).approval_view_at ha

/-- The scope of a call of the message -/
def scopeOf (userId : String) (threadId : Option String) (toolCall : ToolCallItem) : Scope :=
  ⟨userId, threadId, toolCall.asked.toolCallId⟩

/-- The digest tells the calls of the message from each other and from the rows of the store. -/
def NoCollision (sha256 : Sha256) (userId : String) (threadId : Option String)
    (toolCalls : List ToolCallItem) (s : Store) : Prop :=
  ∀ x ∈ toolCalls, ∀ u : Scope, ((∃ y ∈ toolCalls, u = scopeOf userId threadId y) ∨
      ∃ n r, (s.slot n).invocation.committed = some r ∧ u = r.scope) →
    sha256.hexdigest u.text = sha256.hexdigest (scopeOf userId threadId x).text →
    u.text = (scopeOf userId threadId x).text

/-- The ids of the calls are distinct and of the right length. -/
structure ValidIds (toolCalls : List ToolCallItem) : Prop where
  length : ∀ x ∈ toolCalls, x.asked.toolCallId ≠ "" ∧ x.asked.toolCallId.length ≤ 255
  distinct : (toolCalls.map fun x => x.asked.toolCallId).Nodup

theorem approvalStatus?_some {decision : Decision} (h : decision.WellFormed) :
    ∃ status, approvalStatus? decision.type = some status := by
  rcases h with h | ⟨h, -⟩ | h
  · rw [h]
    exact ⟨.approved, rfl⟩
  · rw [h]
    exact ⟨.edited, rfl⟩
  · rw [h]
    exact ⟨.rejected, rfl⟩

/-- What the theorem asks of the ids and the digest makes the message sound. -/
theorem sound_assign {s : Store} (hadm : Admitted m (assign m toolCalls decisions))
    (hids : ValidIds toolCalls) (hthread : ∀ t, threadId = some t → t.length ≤ 64)
    (hdigest : NoCollision sha256 userId threadId toolCalls s) :
    Sound sha256 userId threadId (assign m toolCalls decisions) := by
  have hmem : ∀ p ∈ assign m toolCalls decisions, p.1 ∈ toolCalls :=
    fun _ => mem_toolCalls_of_mem_assign
  refine ⟨?_, hthread, fun p hp => hids.length p.1 (hmem p hp), ?_⟩
  · have hmap : (assign m toolCalls decisions).map (fun p => p.1.asked.key sha256 userId threadId) =
        toolCalls.map fun x => x.asked.key sha256 userId threadId := by
      rw [← assign_map_fst (m := m) toolCalls decisions, List.map_map]
      rw [assign_map_fst]
      rfl
    rw [hmap]
    -- equal keys are equal scopes, and so equal ids
    have hinj : ∀ x ∈ toolCalls, ∀ y ∈ toolCalls,
        x.asked.key sha256 userId threadId = y.asked.key sha256 userId threadId →
        x.asked.toolCallId = y.asked.toolCallId := by
      intro x hx y hy hk
      have htext := hdigest y hy (scopeOf userId threadId x) (.inl ⟨x, hx, rfl⟩) hk
      exact (Scope.text_eq_iff.mp htext).2.2
    have hdistinct := hids.distinct
    unfold List.Nodup at hdistinct ⊢
    rw [List.pairwise_map] at hdistinct ⊢
    apply hdistinct.imp_of_mem
    intro x y hx hy hne hk
    exact hne (hinj x hx y hy hk)
  · intro g hg
    obtain ⟨p, hp, -, hd⟩ := mem_gatedEntries.mp hg
    obtain ⟨decision, hdecision, hd⟩ := Option.map_eq_some_iff.mp hd
    rw [← hd]
    exact approvalStatus?_some (hadm p hp decision hdecision).2

/-- **The round trip through the human.** From any state the service can reach and nobody is
    writing in, for a message whose calls are new: after any number of runs that end at the
    interrupt and the run with the decisions, whatever sequence of claims and further runs
    follows, nothing raises; every further run with the decisions answers as the first did; each
    call of the revised message that nobody has rejected is to be executed according to exactly one
    of its claims, a rejected one according to none; and the decisions recorded are those made. -/
theorem hitl_round_trip {conversation : String → Option Conversation} {calls : Nat → List Call}
    {c : Config toolSig Store Nat}
    (hc : toolDb.Steps (HyChat.start sha256 conversation calls) c)
    (hidle : ∀ j n, (c.store.slot n).invocation.own j = none ∧
      (c.store.slot n).approval.own j = none)
    (hm : ProcessesDecisions m) (hlast : lastAiMessage messages = some toolCalls)
    (hlen : decisions.length = (toolCalls.filter m.gated).length)
    (hadm : Admitted m (assign m toolCalls decisions)) (hids : ValidIds toolCalls)
    (hnew : ∀ n r, (c.store.slot n).invocation.committed = some r → r.userId = userId →
      ∀ x ∈ toolCalls, r.toolCallId ≠ x.asked.toolCallId)
    (hforeign : ¬Foreign userId threadId c.store)
    (hthread : ∀ t, threadId = some t → t.length ≤ 64)
    {interrupted : List (Option String)} {events : List Event}
    (hruns : ∀ id ∈ runtimeRunId :: interrupted ++ events.map Event.runtimeRunId,
      ∀ t, id = some t → t.length ≤ 128)
    (hdigest : NoCollision sha256 userId threadId toolCalls c.store)
    (hsettled : ∀ d ∈ (assign m toolCalls decisions).filterMap Entry.durable,
      d.Replayable sha256) :
    Completes i (roundTrip sha256 m userId threadId messages decisions interrupted runtimeRunId
      events) (fun result s' =>
        (∃ update, result.1 = .ok update ∧
          revisedCalls toolCalls result.1 = (assign m toolCalls decisions).map Entry.revised ∧
          ∀ again, Answer.replayed again ∈ result.2 → again = .ok update) ∧
        (∀ n p, (assign m toolCalls decisions)[n]? = some p →
          result.2.countP (Answer.starts n) =
            if events.any (Event.claims n) && p.executable then 1 else 0) ∧
        ∀ d ∈ (assign m toolCalls decisions).filterMap Entry.durable,
          ∃ started, Decided sha256 userId threadId i d started s') c.store := by
  obtain ⟨t, hgood⟩ := reachable_good (fun _ => True) (fun _ _ _ => trivial) hc
  have hreal : t.store = c.store := hgood.real
  have hi := hgood.inv
  have hs := sound_assign hadm hids hthread hdigest
  rw [durable_filterMap] at hsettled
  have hsettled' : ∀ g ∈ gatedEntries (assign m toolCalls decisions), g.2.Replayable sha256 :=
    fun g hg => hsettled g.2 (List.mem_map_of_mem hg)
  rw [← hreal] at hidle hnew hforeign hdigest ⊢
  -- no row stands under the key of a call
  have hfresh : ∀ x ∈ toolCalls, NotYet sha256 userId threadId i x.asked t.store := by
    rintro x hx n r hr ⟨hu, hk⟩
    have hcommitted : (t.store.slot n).invocation.committed = some r := by
      unfold Store.inv at hr
      rw [Cell.view_of_not_own (hidle i n).1] at hr
      exact hr
    have hkey := ((hi.slots n).committed_wf r hcommitted).key
    have htext := hdigest x hx r.scope (.inr ⟨n, r, hcommitted, rfl⟩) (hkey.symm.trans hk)
    exact hnew n r hcommitted hu x hx (Scope.text_eq_iff.mp htext).2.2
  have hmem : ∀ p ∈ assign m toolCalls decisions, p.1 ∈ toolCalls :=
    fun _ => mem_toolCalls_of_mem_assign
  have hall : AllAt sha256 userId threadId i (assign m toolCalls decisions) (fun _ => .fresh)
      t.store := by
    refine ⟨orderly_of_inv hi hidle, hforeign, ?_, ?_⟩
    · intro g hg
      obtain ⟨p, hp, h1, -⟩ := mem_gatedEntries.mp hg
      have hnot := hfresh p.1 (hmem p hp)
      rw [h1] at hnot
      exact hnot
    · intro p hp _
      exact hfresh p.1 (hmem p hp)
  have hexpected : ∃ update, expected m toolCalls decisions = .ok update := by
    unfold expected
    split
    · exact ⟨none, rfl⟩
    · obtain ⟨toolMessages, hrevise⟩ := revise_eq hm hlen hadm
      rw [hrevise]
      exact ⟨_, rfl⟩
  obtain ⟨update, hupdate⟩ := hexpected
  unfold roundTrip
  apply Machine.Returns.bind
  apply completes_interrupted hlast hlen hs hall (fun _ => rfl)
  · intro id hid
    exact hruns id (List.mem_append_left _ (List.mem_cons_of_mem _ hid))
  intro stage s₁ h₁ hstage
  apply Machine.Returns.bind
  apply completes_afterModel hm hlast hlen hadm h₁ hs
    (hruns runtimeRunId (List.mem_append_left _ List.mem_cons_self)) fun g hg _ _ => hsettled' g hg
  intro s₂ h₂
  simp only [hstage] at h₂
  apply Machine.Returns.bind
  rw [hlast, Option.getD_some, revisedCalls_expected hm hlen hadm]
  have hevents := completes_runEvents hm hlast hlen hadm hs hsettled' events (fun _ => false) h₂ ?_
  · apply Machine.Returns.mono _ hevents
    rintro answers s₃ ⟨hreplayed, hcount, flag, h₃⟩
    apply Machine.Returns.pure
    refine ⟨⟨update, hupdate, revisedCalls_expected hm hlen hadm, ?_⟩, ?_, ?_⟩
    · intro again hagain
      rw [hreplayed again hagain, hupdate]
    · intro n p hp
      rw [hcount n p hp]
      unfold startsLeft
      rw [Bool.not_false, Bool.and_true]
    · intro d hd
      rw [durable_filterMap] at hd
      obtain ⟨g, hg, rfl⟩ := List.mem_map.mp hd
      exact ⟨_, h₃.gated g hg⟩
  · intro event hevent
    exact hruns _ (List.mem_append_right _ (List.mem_map_of_mem hevent))

end

/-! ## Messages -/

/-- Searches are gated, and all decisions are allowed. -/
def searchGate : HumanInTheLoopMiddleware where
  gated toolCall := toolCall.name == some "search"
  allowed _ _ := true
  processDecision decision toolCall :=
    some (some (decision.revised toolCall),
      if decision.type = "reject" then some "rejected" else none)

theorem processesDecisions_searchGate : ProcessesDecisions searchGate := by
  constructor
  · intro decision toolCall _ h
    simp only [searchGate, Decision.revised]
    rw [h, if_neg (by decide), if_neg (by decide)]
  · intro decision toolCall name args _ h haction
    simp only [searchGate, Decision.revised]
    rw [h, if_pos rfl, if_neg (by decide), haction]
  · intro decision toolCall _ h
    refine ⟨"rejected", ?_⟩
    simp only [searchGate, Decision.revised]
    rw [h, if_neg (by decide), if_pos rfl]

/-- A search, and a call that is not gated -/
def twoCalls : List ToolCallItem :=
  [⟨some "call-1", some "search", .mapping [("q", .str "x")]⟩,
   ⟨some "call-2", some "recall", .mapping []⟩]

/-- The search is made another tool's call. -/
def editToRecall : Decision :=
  ⟨"edit", some ("recall", .mapping [("q", .str "y")]), [("type", .str "edit")]⟩

/-- Both calls are claimed, the first twice, and the graph is replayed in between. -/
theorem hitl_round_trip_edited :
    Completes 0 (roundTrip .standard searchGate "user" (some "thread") [.ai twoCalls]
      [editToRecall] [none] (some "run")
      [.claim 0 none, .replay none, .claim 1 none, .claim 0 none]) (fun result _ =>
        result.2.countP (Answer.starts 0) = 1 ∧ result.2.countP (Answer.starts 1) = 1)
      (.initial fun _ => none) := by
  have hscopes : ∀ x ∈ twoCalls, ∀ y ∈ twoCalls,
      Sha256.standard.hexdigest (scopeOf "user" (some "thread") y).text =
        Sha256.standard.hexdigest (scopeOf "user" (some "thread") x).text →
      (scopeOf "user" (some "thread") y).text = (scopeOf "user" (some "thread") x).text := by
    intro x hx y hy
    simp only [twoCalls, List.mem_cons, List.not_mem_nil, or_false] at hx hy
    rcases hx with rfl | rfl
    · rcases hy with rfl | rfl
      · exact fun _ => rfl
      · exact fun h => absurd h (by decide +kernel)
    · rcases hy with rfl | rfl
      · exact fun h => absurd h (by decide +kernel)
      · exact fun _ => rfl
  have hplan : assign searchGate twoCalls [editToRecall] =
      [(⟨some "call-1", some "search", .mapping [("q", .str "x")]⟩, some editToRecall),
       (⟨some "call-2", some "recall", .mapping []⟩, none)] := rfl
  have hadm : Admitted searchGate (assign searchGate twoCalls [editToRecall]) := by
    rw [hplan]
    intro p hp decision hd
    simp only [List.mem_cons, List.not_mem_nil, or_false] at hp
    rcases hp with rfl | rfl
    · cases hd
      exact ⟨rfl, .inr (.inl ⟨rfl, rfl⟩)⟩
    · cases hd
  have hids : ValidIds twoCalls := ⟨by decide, by decide⟩
  have hdigest : NoCollision .standard "user" (some "thread") twoCalls
      (.initial fun _ => none) := by
    rintro x hx u (⟨y, hy, rfl⟩ | ⟨n, r, hr, -⟩)
    · exact hscopes x hx y hy
    · cases hr
  have hsettled : ∀ d ∈ (assign searchGate twoCalls [editToRecall]).filterMap Entry.durable,
      d.Replayable .standard := by
    rw [hplan]
    intro d hd
    rw [List.mem_singleton.mp hd]
    exact ApprovalDecision.replayable_json [("type", .str "edit")] [("q", .str "y")] rfl rfl
  have hnew : ∀ n (r : ToolInvocation),
      ((Store.initial fun _ => none).slot n).invocation.committed = some r → r.userId = "user" →
        ∀ x ∈ twoCalls, r.toolCallId ≠ x.asked.toolCallId := by
    intro n r hr
    cases hr
  have hforeign : ¬Foreign "user" (some "thread") (.initial fun _ => none) := by
    rintro ⟨thread, c, -, -, hc, -⟩
    cases hc
  have hmain := @hitl_round_trip .standard "user" (some "thread") (some "run") 0 searchGate
    [.ai twoCalls] twoCalls [editToRecall] (fun _ => none) (fun _ => [])
    (HyChat.start .standard (fun _ => none) (fun _ => [])) .refl (fun _ _ => ⟨rfl, rfl⟩)
    processesDecisions_searchGate rfl rfl hadm hids hnew hforeign (by decide) [none]
    [.claim 0 none, .replay none, .claim 1 none, .claim 0 none] (by decide) hdigest hsettled
  apply Machine.Returns.mono _ hmain
  rintro result s' ⟨-, hcount, -⟩
  exact ⟨hcount 0 _ rfl, hcount 1 _ rfl⟩

/-- An edit with an argument that is not JSON and prints as a long text -/
def editToOpaque : Decision :=
  ⟨"edit", some ("recall", .mapping [("data", .other (String.ofList (List.replicate 600 'x')))]),
    [("type", .str "edit")]⟩

/-- Its record -/
def opaqueRecord : ApprovalDecision :=
  durableDecision editToOpaque ⟨some "call-1", some "search", .mapping [("q", .str "x")]⟩
    ⟨some "call-1", some "recall",
      .mapping [("data", .other (String.ofList (List.replicate 600 'x')))]⟩

/-- The first run records the edit, and the next one does not recognise it. -/
theorem raises_replay_opaque : toolDb.Raises NoFault 0 (roundTrip .standard searchGate "user"
    (some "thread") [.ai (twoCalls.take 1)] [editToOpaque] [] none [.replay none])
    (fun e => e = .approvalConflict "审批已使用不同决定完成，不能覆盖") (.initial fun _ => none) := by
  have hplan : assign searchGate (twoCalls.take 1) [editToOpaque] =
      [(⟨some "call-1", some "search", .mapping [("q", .str "x")]⟩, some editToOpaque)] := rfl
  have hgated : gatedEntries (assign searchGate (twoCalls.take 1) [editToOpaque]) =
      [(⟨some "call-1", some "search", .mapping [("q", .str "x")]⟩, opaqueRecord)] := rfl
  have hadm : Admitted searchGate (assign searchGate (twoCalls.take 1) [editToOpaque]) := by
    rw [hplan]
    intro p hp decision hd
    rw [List.mem_singleton.mp hp] at hd ⊢
    cases hd
    exact ⟨rfl, .inr (.inl ⟨rfl, rfl⟩)⟩
  have hs : Sound .standard "user" (some "thread")
      (assign searchGate (twoCalls.take 1) [editToOpaque]) := by
    refine ⟨?_, by decide, ?_, ?_⟩
    · exact List.nodup_singleton _
    · intro p hp
      rw [List.mem_singleton.mp hp]
      decide
    · intro g hg
      rw [List.mem_singleton.mp hg]
      exact ⟨.edited, rfl⟩
  have hfresh : AllAt .standard "user" (some "thread") 0
      (assign searchGate (twoCalls.take 1) [editToOpaque]) (fun _ => .fresh)
      (.initial fun _ => none) := by
    have hi : Inv .standard (fun _ => True) ⟨.initial fun _ => none, fun _ => none⟩ :=
      Inv.initial fun _ => none
    have hforeign : ¬Foreign "user" (some "thread") (.initial fun _ => none) := by
      rintro ⟨thread, c, -, -, hc, -⟩
      cases hc
    refine ⟨orderly_of_inv hi fun _ _ => ⟨rfl, rfl⟩, hforeign, ?_, ?_⟩
    · intro g hg n r hr
      cases hr
    · intro p hp hnone n r hr
      cases hr
  have hrun : ∀ t, (none : Option String) = some t → t.length ≤ 128 := by
    intro t ht
    cases ht
  unfold roundTrip
  apply Machine.Returns.bind_raises
  apply Machine.Returns.pure
  apply Machine.Returns.bind_raises
  apply completes_afterModel processesDecisions_searchGate rfl rfl hadm hfresh hs hrun
  · intro g hg started hst
    cases hst
  intro s₁ h₁
  apply Machine.Raises.bind
  unfold runEvents
  apply Machine.Raises.bind
  apply Machine.Raises.bind
  apply raises_afterModel processesDecisions_searchGate rfl rfl hadm h₁ hs hrun hgated rfl
  apply canonicalJson_opaque
  · rw [String.length_ofList, List.length_replicate]
    decide
  · rw [String.length_ofList, List.length_replicate]
    decide

/-- How a run of one session ends, found by computing -/
theorem exists_solo_error {α : Type} {x : Db α} {s : Store} {P : PyError → Bool} (n : Nat)
    (h : (toolDb.solo 0 x.attempt (List.replicate n ⟨false, 0⟩) s).any (fun p => match p.1 with
      | .ok _ => false
      | .error e => P e) = true) :
    ∃ e s', toolDb.Solo 0 x.attempt s (.error e) s' ∧ P e = true := by
  obtain ⟨⟨r, s'⟩, hsolo, hp⟩ := (Option.any_eq_true ..).mp h
  cases r with
  | ok a => cases hp
  | error e => exact ⟨e, s', Machine.Solo.of_solo toolDb _ _ hsolo, hp⟩

/-- **What the round trip does not survive.** Claiming a call raises a conflict when the thread's id
    has more than 64 characters, or the run's more than 128; and the graph cannot be replayed after
    an edit whose arguments are not settled. -/
theorem round_trip_refused :
    (∃ e s', toolDb.Solo 0 (roundTrip .standard searchGate "user"
      (some (String.ofList (List.replicate 65 't'))) [.ai (twoCalls.drop 1)] [] [] none
      [.claim 0 none]).attempt (.initial fun _ => none) (.error e) s' ∧
        (e matches .toolInvocationConflict _) = true) ∧
    (∃ e s', toolDb.Solo 0 (roundTrip .standard searchGate "user" (some "thread")
      [.ai (twoCalls.drop 1)] [] [] none
      [.claim 0 (some (String.ofList (List.replicate 129 'r')))]).attempt
      (.initial fun _ => none) (.error e) s' ∧ (e matches .toolInvocationConflict _) = true) ∧
    (∃ e s', toolDb.Solo 0 (roundTrip .standard searchGate "user" (some "thread")
      [.ai (twoCalls.take 1)] [editToOpaque] [] none [.replay none]).attempt
      (.initial fun _ => none) (.error e) s' ∧ (e matches .approvalConflict _) = true) := by
  refine ⟨?_, ?_, ?_⟩
  · exact exists_solo_error 20 (by decide +kernel)
  · exact exists_solo_error 20 (by decide +kernel)
  · have hchoice : NoFault ⟨false, 0⟩ := rfl
    obtain ⟨n, r, s', hsolo, e, rfl, rfl⟩ := raises_replay_opaque.exists_solo hchoice
    exact ⟨_, s', Machine.Solo.of_solo toolDb _ _ hsolo, rfl⟩

end HumanInTheLoop

end HyChat
