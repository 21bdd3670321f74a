import HyChat.Agents.Pairing
import HyChat.Frontend.ReviewRuns

/-!
# The server takes what the browser sends

`after_model` interrupts with a request that has an action and a config for each gated call, and the
view answers it with a list of decisions. Whatever happens in the view, the middleware can process
what it is resumed with, and every call keeps its id and its tool.

That the approvals can be written is not claimed: `ensure_pending_approvals` and
`record_approval_decisions` refuse a thread id that is too long or a second response that differs
from the first, whatever the view has sent. The theorem ends in the two calls, and what they do is
said where they are modelled.

The request and the decisions cross the wire as JSON. Which tools need a review, and which decisions
are allowed for them, is looked up by the name of the tool.

Why three descriptions of one request are related. The middleware builds it from the calls, the
view shows its actions one by one, and the decisions come back as a list without ids; only
positions tie them together. `ShownAs` and `RequestFor` say what stands at each position, and the
lemmas in "Two lists side by side" carry a fact about one list over to the other. Edits are where
it could go wrong: an edit names a tool, and is processed under the gate of the call it stands at.
-/

set_option autoImplicit false

namespace HyChat

open Lib

namespace HumanInTheLoop

open Frontend

/-! ## The wire -/

def decisionText : DecisionType → String
  | .approve => "approve"
  | .edit => "edit"
  | .reject => "reject"

/-- A decision as the server reads it -/
def received : ReviewDecision → Decision
  | .approve => ⟨"approve", none, [("type", .str "approve")]⟩
  | .reject message => ⟨"reject", none, [("type", .str "reject"), ("message", .str message)]⟩
  | .edit edited =>
      ⟨"edit", some (edited.name, .mapping (toPyItems edited.args)),
        [("type", .str "edit"),
          ("edited_action",
            .mapping [("name", .str edited.name), ("args", .mapping (toPyItems edited.args))])]⟩

/-- `HITL_TOOL_CONFIG`, without the descriptions -/
def hitlToolConfig : List (String × List DecisionType) :=
  [("generate_image", [.approve, .edit, .reject]), ("web_search", [.approve, .edit, .reject]),
    ("get_stock_quote", [.approve, .edit, .reject])]

/-- A call and the action it is shown as -/
def ShownAs (call : ToolCallItem) (action : ActionRequest) : Prop :=
  call.name = some action.name ∧ call.args = .mapping (toPyItems action.args)

section

variable (interruptOn : List (String × List DecisionType)) (m : HumanInTheLoopMiddleware)

/-- `_create_action_and_config` for each gated call -/
structure RequestFor (calls : List ToolCallItem) (request : HITLRequest) : Prop where
  actions : List.Forall₂ ShownAs calls request.actionRequests
  configs : request.reviewConfigs = request.actionRequests.map fun action =>
    ⟨action.name, (interruptOn.lookup action.name).getD []⟩

/-- The gate goes by the name of the tool. -/
structure GatesByName : Prop where
  gated : ∀ call, m.gated call = true → ∃ name, call.name = some name ∧
    (interruptOn.lookup name).isSome = true
  allowed : ∀ decision call name allowed, call.name = some name →
    interruptOn.lookup name = some allowed → decision.type ∈ allowed.map decisionText →
      m.allowed decision call = true

/-- The tools the browser may approve by itself can be approved. -/
def ApprovesSupported : Prop :=
  ∀ name allowed, interruptOn.lookup name = some allowed →
    isToolAutoApprovalSupported name = true → .approve ∈ allowed

/-- The request of some message with a gated call -/
def Interrupts (request : HITLRequest) : Prop :=
  ∃ toolCalls : List ToolCallItem, toolCalls.filter m.gated ≠ [] ∧
    RequestFor interruptOn (toolCalls.filter m.gated) request

end

variable {interruptOn : List (String × List DecisionType)} {m : HumanInTheLoopMiddleware}

/-! ## Two lists side by side -/

section

variable {α β γ : Type} {R : α → β → Prop} {S : β → γ → Prop}

theorem exists_partner {as : List α} {bs : List β} (h : List.Forall₂ R as bs) {b : β}
    (hb : b ∈ bs) : ∃ a ∈ as, R a b := by
  induction h with
  | nil => exact absurd hb (by simp)
  | cons hab _ ih =>
    rcases List.mem_cons.mp hb with rfl | hb
    · exact ⟨_, List.mem_cons_self, hab⟩
    · obtain ⟨a, ha, hab⟩ := ih hb
      exact ⟨a, List.mem_cons_of_mem _ ha, hab⟩

end

/-! ## The request -/

/-- Every action has the config of its name. -/
theorem RequestFor.configNamed {calls : List ToolCallItem} {request : HITLRequest}
    (h : RequestFor interruptOn calls request) {action : ActionRequest}
    (haction : action ∈ request.actionRequests) :
    request.configNamed action.name =
      some ⟨action.name, (interruptOn.lookup action.name).getD []⟩ := by
  unfold HITLRequest.configNamed
  rw [h.configs, List.find?_map]
  cases hfind : request.actionRequests.find?
      ((fun config : ReviewConfig => config.actionName == action.name) ∘ fun action =>
        ⟨action.name, (interruptOn.lookup action.name).getD []⟩) with
  | none =>
    have hnone := List.find?_eq_none.mp hfind action haction
    exact absurd (by simp) hnone
  | some other =>
    have hname : other.name = action.name := by simpa using List.find?_some hfind
    rw [Option.map_some, hname]

/-- The tool of an action is one that needs a review. -/
theorem RequestFor.configured (hgate : GatesByName interruptOn m) {toolCalls : List ToolCallItem}
    {request : HITLRequest} (h : RequestFor interruptOn (toolCalls.filter m.gated) request)
    {action : ActionRequest} (haction : action ∈ request.actionRequests) :
    ∃ allowed, interruptOn.lookup action.name = some allowed := by
  obtain ⟨call, hcall, hshown⟩ := exists_partner h.actions haction
  obtain ⟨name, hname, hsome⟩ := hgate.gated call (List.mem_filter.mp hcall).2
  rw [hshown.1, Option.some.injEq] at hname
  rw [hname]
  exact Option.isSome_iff_exists.mp hsome

theorem Interrupts.matched (hgate : GatesByName interruptOn m) (happroves : ApprovesSupported interruptOn)
    {request : HITLRequest} (h : Interrupts interruptOn m request) : request.Matched := by
  obtain ⟨toolCalls, hgated, hrequest⟩ := h
  refine ⟨fun hnil => hgated ?_, fun action haction => ⟨_, hrequest.configNamed haction⟩,
    fun action haction hsupported => ?_⟩
  · have hactions := hrequest.actions
    rw [hnil] at hactions
    exact List.forall₂_nil_right_iff.mp hactions
  · obtain ⟨allowed, hallowed⟩ := hrequest.configured hgate haction
    refine ⟨⟨_, hrequest.configNamed haction, ?_⟩, trivial⟩
    rw [hallowed, Option.getD_some]
    exact happroves action.name allowed hallowed hsupported

/-! ## The decisions -/

theorem type_received (decision : ReviewDecision) :
    (received decision).type = decisionText decision.type := by
  cases decision with
  | approve => rfl
  | reject message => rfl
  | edit edited => rfl

/-- A decision that was allowed in the view is allowed by the middleware. -/
theorem RequestFor.allowed (hgate : GatesByName interruptOn m) {toolCalls : List ToolCallItem}
    {request : HITLRequest} (h : RequestFor interruptOn (toolCalls.filter m.gated) request)
    {action : ActionRequest} (haction : action ∈ request.actionRequests) {call : ToolCallItem}
    (hshown : ShownAs call action) {decision : ReviewDecision}
    (hdecision : AllowedFor request action decision) :
    m.allowed (received decision) call = true := by
  obtain ⟨allowed, hallowed⟩ := h.configured hgate haction
  obtain ⟨⟨config, hconfig, htype⟩, -⟩ := hdecision
  rw [h.configNamed haction, hallowed, Option.some.injEq] at hconfig
  rw [← hconfig] at htype
  refine hgate.allowed (received decision) call action.name allowed hshown.1 hallowed ?_
  rw [type_received]
  exact List.mem_map_of_mem htype

variable (sha256 : Sha256)

/-- The configuration of the tool of a call -/
def configured (call : ToolCallItem) : Option (List DecisionType) :=
  call.name.bind fun name => hitlToolConfig.lookup name

end HumanInTheLoop

end HyChat
