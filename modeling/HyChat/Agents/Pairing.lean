import HyChat.Agents.RoundTrip

/-!
# Which decision meets which call

`after_model` goes over the tool calls twice: once to collect the gated ones with their indices, and
once to revise the message, with an index of its own into the decisions. `revise` takes one decision
for each gated call; the loop as it is written does the same, and each gated call meets the decision
whose index is the number of gated calls before it.

Why the loop is modelled twice. The source walks over all calls with `decision_index`, which it
increments at each gated call; a model with a list of decisions that is consumed at each gated call
is what the other modules can reason about. `revise_eq_loop` is the bridge, and is proved by
induction on the calls with the index as the number of decisions that are gone. That the index
never runs over the end is due to the check of the two lengths at the start, which raises before
anything is revised.

The theorem has three clauses with conditions of their own. Where nothing is gated the decisions
are not looked at. A list of decisions of the wrong length is refused whatever is in it. What is
revised and what is recorded is said for decisions that the calls may be decided by: an unknown or
disallowed decision raises in the middle of the loop, which is not followed here.
-/

set_option autoImplicit false

namespace HyChat

open Lib

namespace HumanInTheLoop

variable (m : HumanInTheLoopMiddleware)

/-! ## The two loops -/

/-- `interrupted`: the gated calls with their indices in the message -/
def interrupted (toolCalls : List ToolCallItem) : List (Nat × ToolCallItem) :=
  toolCalls.zipIdx.filterMap fun p => if m.gated p.1 then some (p.2, p.1) else none

/-- What the second loop has collected -/
structure Revision where
  decisionIndex : Nat
  revisedToolCalls : List ToolCallItem
  artificialToolMessages : List String
  durableDecisions : List ApprovalDecision

def Revision.empty : Revision := ⟨0, [], [], []⟩

/-- The body of the second loop -/
def revisionStep (interruptedIndices : List Nat) (decisions : List Decision) (acc : Revision)
    (index : Nat) (toolCall : ToolCallItem) : Except String Revision :=
  if index ∉ interruptedIndices then
    .ok { acc with revisedToolCalls := acc.revisedToolCalls ++ [toolCall] }
  else
    match decisions[acc.decisionIndex]? with
    | none => .error "list index out of range"
    | some decision =>
        match m.processDecision decision toolCall with
        | none => .error "decision not allowed"
        | some (revisedToolCall, toolMessage) =>
            .ok {
              decisionIndex := acc.decisionIndex + 1
              revisedToolCalls := acc.revisedToolCalls ++ revisedToolCall.toList
              artificialToolMessages := acc.artificialToolMessages ++ toolMessage.toList
              durableDecisions := acc.durableDecisions ++
                [durableDecision decision toolCall (revisedToolCall.getD toolCall)] }

/-- The second loop, from an index on -/
def reviseLoop (interruptedIndices : List Nat) (decisions : List Decision) :
    Nat → List ToolCallItem → Revision → Except String Revision
  | _, [], acc => .ok acc
  | index, toolCall :: toolCalls, acc =>
      match revisionStep m interruptedIndices decisions acc index toolCall with
      | .error e => .error e
      | .ok acc => reviseLoop interruptedIndices decisions (index + 1) toolCalls acc

variable {m}

/-- A revision that goes on with what `revise` makes of the rest. -/
def Revision.followedBy (acc : Revision) (gated : Nat)
    (rest : List ToolCallItem × List String × List ApprovalDecision) : Revision where
  decisionIndex := acc.decisionIndex + gated
  revisedToolCalls := acc.revisedToolCalls ++ rest.1
  artificialToolMessages := acc.artificialToolMessages ++ rest.2.1
  durableDecisions := acc.durableDecisions ++ rest.2.2

theorem mem_interrupted {toolCalls : List ToolCallItem} {index : Nat} {toolCall : ToolCallItem}
    (h : toolCalls[index]? = some toolCall) :
    index ∈ (interrupted m toolCalls).map Prod.fst ↔ m.gated toolCall = true := by
  unfold interrupted
  rw [List.mem_map]
  constructor
  · rintro ⟨⟨i, t⟩, hp, rfl⟩
    obtain ⟨⟨t', i'⟩, hmem, hif⟩ := List.mem_filterMap.mp hp
    rw [List.mem_zipIdx_iff_getElem?] at hmem
    split at hif
    · rename_i hg
      cases hif
      rw [h] at hmem
      cases hmem
      exact hg
    · cases hif
  · intro hg
    refine ⟨(index, toolCall), List.mem_filterMap.mpr ⟨(toolCall, index), ?_, ?_⟩, rfl⟩
    · exact List.mem_zipIdx_iff_getElem?.mpr h
    · exact if_pos hg

/-- The loop from an index on, with what it has collected before it. -/
theorem reviseLoop_append (before : List ToolCallItem) (decisions : List Decision) :
    ∀ (rest : List ToolCallItem) (acc : Revision) (toolCalls : List ToolCallItem),
      toolCalls = before ++ rest →
      reviseLoop m ((interrupted m toolCalls).map Prod.fst) decisions before.length rest acc =
        (revise m rest (decisions.drop acc.decisionIndex)).map
          (acc.followedBy (rest.countP m.gated)) := by
  intro rest
  induction rest generalizing before with
  | nil =>
    intro acc toolCalls _
    simp [reviseLoop, revise, Except.map, Revision.followedBy]
  | cons toolCall rest ih =>
    intro acc toolCalls htc
    have hget : toolCalls[before.length]? = some toolCall := by
      rw [htc, List.getElem?_append_right (Nat.le_refl _), Nat.sub_self]
      rfl
    have hnext := ih (before ++ [toolCall])
    rw [List.length_append, List.length_singleton] at hnext
    have htc' : toolCalls = before ++ [toolCall] ++ rest := by
      rw [htc, List.append_assoc, List.singleton_append]
    unfold reviseLoop revisionStep revise
    by_cases hg : m.gated toolCall = true
    · rw [if_neg (not_not_intro ((mem_interrupted hget).mpr hg)), if_pos hg]
      rw [List.countP_cons_of_pos hg]
      cases hd : decisions[acc.decisionIndex]? with
      | none =>
        rw [List.drop_eq_nil_of_le (List.getElem?_eq_none_iff.mp hd)]
        rfl
      | some decision =>
        obtain ⟨hlt, hdecision⟩ := List.getElem?_eq_some_iff.mp hd
        rw [List.drop_eq_getElem_cons hlt, hdecision]
        cases hp : m.processDecision decision toolCall with
        | none => simp only [hp, Except.map]
        | some processed =>
          obtain ⟨revised, toolMessage⟩ := processed
          simp only [hp]
          rw [hnext _ toolCalls htc']
          cases revise m rest (decisions.drop (acc.decisionIndex + 1)) with
          | error e => rfl
          | ok out =>
            simp [Except.map, Revision.followedBy, Nat.add_assoc, Nat.add_comm 1]
    · rw [if_pos (fun hmem => hg ((mem_interrupted hget).mp hmem)), if_neg hg]
      rw [List.countP_cons_of_neg hg]
      simp only
      rw [hnext _ toolCalls htc']
      cases revise m rest (decisions.drop acc.decisionIndex) with
      | error e => rfl
      | ok out => simp [Except.map, Revision.followedBy]

/-- **`revise` is the loop over indices.** -/
theorem revise_eq_loop (toolCalls : List ToolCallItem) (decisions : List Decision) :
    revise m toolCalls decisions =
      (reviseLoop m ((interrupted m toolCalls).map Prod.fst) decisions 0 toolCalls .empty).map
        fun acc => (acc.revisedToolCalls, acc.artificialToolMessages, acc.durableDecisions) := by
  have hloop := reviseLoop_append (m := m) [] decisions toolCalls .empty toolCalls rfl
  rw [List.length_nil] at hloop
  rw [hloop]
  show _ = ((revise m toolCalls (decisions.drop 0)).map _).map _
  rw [List.drop_zero]
  cases revise m toolCalls decisions with
  | error e => rfl
  | ok out => simp [Except.map, Revision.followedBy, Revision.empty]

/-! ## The pairing -/

/-- How many gated calls stand before an index -/
def gatedBefore (m : HumanInTheLoopMiddleware) (toolCalls : List ToolCallItem) (i : Nat) : Nat :=
  (toolCalls.take i).countP m.gated

/-- The gated calls with their decisions, in the order of the message -/
def reviewed (m : HumanInTheLoopMiddleware) (toolCalls : List ToolCallItem)
    (decisions : List Decision) : List (ToolCallItem × Decision) :=
  (toolCalls.filter m.gated).zip decisions

/-- The message `_process_decision` answers a rejected call with -/
def rejection (m : HumanInTheLoopMiddleware) (p : ToolCallItem × Decision) : Option String :=
  (m.processDecision p.2 p.1).bind Prod.snd

/-- The decisions may be made about the calls they meet. -/
def MayDecide (m : HumanInTheLoopMiddleware) (toolCalls : List ToolCallItem)
    (decisions : List Decision) : Prop :=
  ∀ p ∈ reviewed m toolCalls decisions, m.allowed p.2 p.1 = true ∧ p.2.WellFormed

/-- The message is revised call by call, and each gated call meets the decision that has as many
    decisions before it as the call has gated calls. -/
structure Paired (m : HumanInTheLoopMiddleware) (toolCalls : List ToolCallItem)
    (decisions : List Decision) (update : Update) (durable : List ApprovalDecision) : Prop where
  length : update.toolCalls.length = toolCalls.length
  ungated : ∀ (i : Nat) (toolCall : ToolCallItem), toolCalls[i]? = some toolCall → m.gated toolCall = false →
    update.toolCalls[i]? = some toolCall
  gated : ∀ (i : Nat) (toolCall : ToolCallItem), toolCalls[i]? = some toolCall →
    m.gated toolCall = true → ∃ decision, decisions[gatedBefore m toolCalls i]? = some decision ∧
      update.toolCalls[i]? = some (decision.revised toolCall) ∧
      durable[gatedBefore m toolCalls i]? =
        some (durableDecision decision toolCall (decision.revised toolCall))
  recorded : durable.length = toolCalls.countP m.gated
  toolMessages : update.toolMessages.map some =
    ((reviewed m toolCalls decisions).filter fun p => p.2.type = "reject").map (rejection m)

theorem Paired.nil (decisions : List Decision) : Paired m [] decisions ⟨[], []⟩ [] := by
  refine ⟨rfl, ?_, ?_, rfl, rfl⟩
  · intro i toolCall h
    cases h
  · intro i toolCall h
    cases h

/-- A call that is not gated takes no decision. -/
theorem Paired.cons_ungated {toolCall : ToolCallItem} {toolCalls : List ToolCallItem}
    {decisions : List Decision} {update : Update} {durable : List ApprovalDecision}
    (hg : ¬m.gated toolCall = true) (h : Paired m toolCalls decisions update durable) :
    Paired m (toolCall :: toolCalls) decisions ⟨toolCall :: update.toolCalls, update.toolMessages⟩
      durable := by
  have hbefore : ∀ i, gatedBefore m (toolCall :: toolCalls) (i + 1) = gatedBefore m toolCalls i := by
    intro i
    unfold gatedBefore
    rw [List.take_succ_cons, List.countP_cons_of_neg hg]
  refine ⟨congrArg (· + 1) h.length, ?_, ?_, ?_, ?_⟩
  · intro i t ht hgt
    cases i with
    | zero => exact ht
    | succ i => exact h.ungated i t ht hgt
  · intro i t ht hgt
    cases i with
    | zero =>
      cases ht
      exact absurd hgt hg
    | succ i =>
      rw [hbefore]
      exact h.gated i t ht hgt
  · rw [List.countP_cons_of_neg hg]
    exact h.recorded
  · unfold reviewed
    rw [List.filter_cons_of_neg hg]
    exact h.toolMessages

/-- A gated call takes the first of the decisions. -/
theorem Paired.cons_gated {toolCall : ToolCallItem} {toolCalls : List ToolCallItem}
    {decision : Decision} {decisions : List Decision} {update : Update}
    {durable : List ApprovalDecision} {toolMessage : Option String} (hg : m.gated toolCall = true)
    (hm : m.processDecision decision toolCall = some (some (decision.revised toolCall), toolMessage))
    (hreject : toolMessage.isSome = true ↔ decision.type = "reject")
    (h : Paired m toolCalls decisions update durable) :
    Paired m (toolCall :: toolCalls) (decision :: decisions)
      ⟨decision.revised toolCall :: update.toolCalls, toolMessage.toList ++ update.toolMessages⟩
      (durableDecision decision toolCall (decision.revised toolCall) :: durable) := by
  have hbefore : ∀ i,
      gatedBefore m (toolCall :: toolCalls) (i + 1) = gatedBefore m toolCalls i + 1 := by
    intro i
    unfold gatedBefore
    rw [List.take_succ_cons, List.countP_cons_of_pos hg]
  refine ⟨congrArg (· + 1) h.length, ?_, ?_, ?_, ?_⟩
  · intro i t ht hgt
    cases i with
    | zero =>
      cases ht
      rw [hg] at hgt
      cases hgt
    | succ i => exact h.ungated i t ht hgt
  · intro i t ht hgt
    cases i with
    | zero =>
      cases ht
      exact ⟨decision, rfl, rfl, rfl⟩
    | succ i =>
      rw [hbefore]
      exact h.gated i t ht hgt
  · rw [List.countP_cons_of_pos hg, List.length_cons, h.recorded]
  · have hrest := h.toolMessages
    unfold reviewed at hrest ⊢
    rw [List.filter_cons_of_pos hg, List.zip_cons_cons]
    cases toolMessage with
    | none =>
      have hno : ¬decision.type = "reject" := fun he => absurd (hreject.mpr he) (by simp)
      rw [List.filter_cons_of_neg (by simpa using hno)]
      exact hrest
    | some text =>
      have hyes : decision.type = "reject" := hreject.mp rfl
      rw [List.filter_cons_of_pos (by simpa using hyes), List.map_cons, ← hrest]
      unfold rejection
      rw [hm]
      rfl

/-- A decision that is allowed yields the call as it revises it, and a message when it rejects. -/
theorem ProcessesDecisions.answers (hm : ProcessesDecisions m) {decision : Decision}
    {toolCall : ToolCallItem} (hallowed : m.allowed decision toolCall = true)
    (hwf : decision.WellFormed) : ∃ toolMessage,
      m.processDecision decision toolCall =
        some (some (decision.revised toolCall), toolMessage) ∧
      (toolMessage.isSome = true ↔ decision.type = "reject") := by
  obtain ⟨toolMessage, hprocess⟩ := hm.revised hallowed hwf
  refine ⟨toolMessage, hprocess, ?_⟩
  rcases hwf with happrove | ⟨hedit, haction⟩ | hreject
  · rw [hm.approve decision toolCall hallowed happrove] at hprocess
    have hnone : none = toolMessage := congrArg Prod.snd (Option.some.inj hprocess)
    rw [← hnone, happrove]
    decide
  · obtain ⟨⟨name, args⟩, haction⟩ := Option.isSome_iff_exists.mp haction
    rw [hm.edit decision toolCall name args hallowed hedit haction] at hprocess
    have hnone : none = toolMessage := congrArg Prod.snd (Option.some.inj hprocess)
    rw [← hnone, hedit]
    decide
  · obtain ⟨text, htext⟩ := hm.reject decision toolCall hallowed hreject
    rw [htext] at hprocess
    have hsome : some text = toolMessage := congrArg Prod.snd (Option.some.inj hprocess)
    rw [← hsome, hreject]
    exact iff_of_true rfl rfl

/-- The loop pairs the decisions with the gated calls. -/
theorem paired_revise (hm : ProcessesDecisions m) :
    ∀ {toolCalls : List ToolCallItem} {decisions : List Decision},
      decisions.length = (toolCalls.filter m.gated).length → MayDecide m toolCalls decisions →
      ∃ update durable, revise m toolCalls decisions =
          .ok (update.toolCalls, update.toolMessages, durable) ∧
        Paired m toolCalls decisions update durable := by
  intro toolCalls
  induction toolCalls with
  | nil =>
    intro decisions _ _
    exact ⟨⟨[], []⟩, [], rfl, .nil decisions⟩
  | cons toolCall toolCalls ih =>
    intro decisions hlen hmay
    unfold revise
    by_cases hg : m.gated toolCall = true
    · rw [if_pos hg]
      rw [List.filter_cons_of_pos hg] at hlen
      unfold MayDecide reviewed at hmay
      rw [List.filter_cons_of_pos hg] at hmay
      cases decisions with
      | nil => cases hlen
      | cons decision decisions =>
        rw [List.zip_cons_cons] at hmay
        obtain ⟨hallowed, hwf⟩ := hmay _ List.mem_cons_self
        obtain ⟨toolMessage, hprocess, hreject⟩ := hm.answers hallowed hwf
        obtain ⟨update, durable, hrest, hpaired⟩ := ih (Nat.succ.inj hlen)
          fun p hp => hmay p (List.mem_cons_of_mem _ hp)
        simp only [hprocess, hrest]
        exact ⟨_, _, rfl, hpaired.cons_gated hg hprocess hreject⟩
    · rw [if_neg hg]
      rw [List.filter_cons_of_neg hg] at hlen
      unfold MayDecide reviewed at hmay
      rw [List.filter_cons_of_neg hg] at hmay
      obtain ⟨update, durable, hrest, hpaired⟩ := ih hlen hmay
      rw [hrest]
      exact ⟨_, _, rfl, hpaired.cons_ungated hg⟩

variable (sha256 : Sha256)

/-- **Decisions are paired with the right calls.** With another number of decisions than gated calls
    `after_model` ends in an error and does nothing but what it does before the interrupt, whatever
    the decisions are; with as many, each of them one the call may be decided by, it revises the
    message and records the decisions, each for the call it is about. Where no call is gated, nobody
    is asked. -/
theorem decisions_paired (userId threadId runtimeRunId : Option String) (messages : List Message)
    (toolCalls : List ToolCallItem) (decisions : List Decision)
    (hlast : lastAiMessage messages = some toolCalls) :
    (toolCalls.countP m.gated = 0 →
      afterModel sha256 m userId threadId runtimeRunId messages decisions = pure (.ok none)) ∧
    (toolCalls.countP m.gated ≠ 0 → decisions.length ≠ toolCalls.countP m.gated →
      ∃ e, afterModel sha256 m userId threadId runtimeRunId messages decisions = do
        requestApprovals sha256 m userId threadId runtimeRunId messages
        pure (.error e)) ∧
    (ProcessesDecisions m → MayDecide m toolCalls decisions →
      toolCalls.countP m.gated ≠ 0 → decisions.length = toolCalls.countP m.gated →
      ∃ update durable, Paired m toolCalls decisions update durable ∧
        afterModel sha256 m userId threadId runtimeRunId messages decisions = do
          requestApprovals sha256 m userId threadId runtimeRunId messages
          forUser userId fun u => recordApprovalDecisions sha256 u threadId runtimeRunId durable
          pure (.ok (some update))) := by
  unfold afterModel
  rw [hlast, List.countP_eq_length_filter]
  refine ⟨?_, ?_, ?_⟩
  · intro hnone
    have hempty : (toolCalls.filter m.gated).isEmpty = true := by
      rw [List.isEmpty_iff_length_eq_zero]
      exact hnone
    unfold requestApprovals
    rw [hlast]
    simp only [hempty, if_true]
    rfl
  · intro hsome hlen
    have hempty : ¬(toolCalls.filter m.gated).isEmpty = true := by
      rw [List.isEmpty_iff_length_eq_zero]
      exact hsome
    refine ⟨"人工审批决定数量与待审批工具调用数量不一致", ?_⟩
    simp only [if_neg hempty, if_pos hlen]
  · intro hm hmay hsome hlen
    have hempty : ¬(toolCalls.filter m.gated).isEmpty = true := by
      rw [List.isEmpty_iff_length_eq_zero]
      exact hsome
    obtain ⟨update, durable, hrevise, hpaired⟩ := paired_revise hm hlen hmay
    refine ⟨update, durable, hpaired, ?_⟩
    simp only [if_neg hempty, if_neg (not_not_intro hlen), hrevise]

/-- The first and the last call are gated. -/
def threeCalls : List ToolCallItem :=
  [⟨some "call-1", some "search", .mapping [("q", .str "x")]⟩,
    ⟨some "call-2", some "recall", .mapping []⟩,
    ⟨some "call-3", some "search", .mapping [("q", .str "z")]⟩]

/-- The one is made another tool's call, the other is rejected. -/
def twoDecisions : List Decision :=
  [editToRecall, ⟨"reject", none, [("type", .str "reject")]⟩]

theorem decisions_paired_edited : ∃ update durable,
    Paired searchGate threeCalls twoDecisions update durable ∧
      afterModel .standard searchGate (some "user") (some "thread") none [.ai threeCalls]
        twoDecisions = (do
          requestApprovals .standard searchGate (some "user") (some "thread") none [.ai threeCalls]
          forUser (some "user") fun u =>
            recordApprovalDecisions .standard u (some "thread") none durable
          pure (.ok (some update))) := by
  have hmay : MayDecide searchGate threeCalls twoDecisions := by
    intro p hp
    rcases List.mem_cons.mp hp with rfl | hp
    · exact ⟨rfl, .inr (.inl ⟨rfl, rfl⟩)⟩
    · rw [List.mem_singleton.mp hp]
      exact ⟨rfl, .inr (.inr rfl)⟩
  exact (decisions_paired .standard (some "user") (some "thread") none [.ai threeCalls] threeCalls
    twoDecisions rfl).2.2 processesDecisions_searchGate hmay (by decide) (by decide)

end HumanInTheLoop

end HyChat
