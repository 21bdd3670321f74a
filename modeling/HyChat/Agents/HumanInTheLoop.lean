import HyChat.Tool.Isolation
import HyChat.Tool.Stages

/-!
# Human in the loop

`after_model` of the persistent middleware: the gated tool calls of the last AI message get their
pending rows, the reviewer decides, the decisions are recorded, and the message is revised. Later
`_prepare_tool_call` claims each call of the revised message under its own id, name and arguments.

`interrupt` ends the first run of `after_model`; the graph runs it again when the reviewer has
answered, and may run it again at any later time. The configuration of the gate and
`_process_decision` belong to a library and are parameters.
-/

set_option autoImplicit false

namespace HyChat

open Lib

namespace HumanInTheLoop

/-! ## The middleware -/

/-- A message of the state; of an `AIMessage` its `tool_calls` -/
inductive Message
  | ai (toolCalls : List ToolCallItem)
  | other

/-- An answer of the reviewer: its `type`, the name and the arguments of its `edited_action`, and
    the dictionary as a whole -/
structure Decision where
  type : String
  editedAction : Option (String × PyObject)
  payload : PyMapping

structure HumanInTheLoopMiddleware where
  /-- The tool has a configuration in `interrupt_on`, and `_should_interrupt` -/
  gated : ToolCallItem → Bool
  /-- The configuration allows the decision. -/
  allowed : Decision → ToolCallItem → Bool
  /-- `_process_decision`; `none` when it raises -/
  processDecision : Decision → ToolCallItem → Option (Option ToolCallItem × Option String)

/-- The message as revised, and the messages that answer the rejected calls -/
structure Update where
  toolCalls : List ToolCallItem
  toolMessages : List String

def lastAiMessage (messages : List Message) : Option (List ToolCallItem) :=
  messages.reverse.findSome? fun
    | .ai toolCalls => some toolCalls
    | .other => none

/-- The `ApprovalDecision` of a processed decision -/
def durableDecision (decision : Decision) (toolCall effectiveToolCall : ToolCallItem) :
    ApprovalDecision where
  toolCallId := orDefault toolCall.id ""
  toolName := orDefault toolCall.name "unknown"
  requestedInput := toolCall.args.asMapping
  decisionType := decision.type
  effectiveToolName := orDefault effectiveToolCall.name "unknown"
  effectiveInput := effectiveToolCall.args.asMapping
  decisionPayload := decision.payload

variable (sha256 : Sha256) (m : HumanInTheLoopMiddleware)

/-- The loop over the tool calls, which takes one decision for each gated call -/
def revise : List ToolCallItem → List Decision →
    Except String (List ToolCallItem × List String × List ApprovalDecision)
  | [], _ => .ok ([], [], [])
  | toolCall :: toolCalls, decisions =>
      if m.gated toolCall then
        match decisions with
        | [] => .error "list index out of range"
        | decision :: decisions =>
            match m.processDecision decision toolCall with
            | none => .error "decision not allowed"
            | some (revised, toolMessage) =>
                match revise toolCalls decisions with
                | .error e => .error e
                | .ok (calls, toolMessages, durable) =>
                    .ok (revised.toList ++ calls, toolMessage.toList ++ toolMessages,
                      durableDecision decision toolCall (revised.getD toolCall) :: durable)
      else
        match revise toolCalls decisions with
        | .error e => .error e
        | .ok (calls, toolMessages, durable) => .ok (toolCall :: calls, toolMessages, durable)

/-- `if user_id:` a call of the service -/
def forUser (userId : Option String) (body : String → Db Unit) : Db Unit :=
  match userId with
  | some u => body u
  | none => pure ()

/-- `after_model` up to the interrupt, which is where its first run ends -/
def requestApprovals (userId threadId runtimeRunId : Option String) (messages : List Message) :
    Db Unit :=
  match lastAiMessage messages with
  | none => pure ()
  | some toolCalls =>
      if (toolCalls.filter m.gated).isEmpty then pure ()
      else forUser userId fun u =>
        ensurePendingApprovals sha256 u threadId runtimeRunId (toolCalls.filter m.gated)

/-- `after_model`, resumed with the reviewer's decisions. A `ValueError` is its answer. -/
def afterModel (userId threadId runtimeRunId : Option String) (messages : List Message)
    (decisions : List Decision) : Db (Except String (Option Update)) := do
  requestApprovals sha256 m userId threadId runtimeRunId messages
  match lastAiMessage messages with
  | none => pure (.ok none)
  | some toolCalls =>
      if (toolCalls.filter m.gated).isEmpty then pure (.ok none)
      else if decisions.length ≠ (toolCalls.filter m.gated).length then
        pure (.error "人工审批决定数量与待审批工具调用数量不一致")
      else
        match revise m toolCalls decisions with
        | .error e => pure (.error e)
        | .ok (calls, toolMessages, durable) => do
            forUser userId fun u => recordApprovalDecisions sha256 u threadId runtimeRunId durable
            pure (.ok (some ⟨calls, toolMessages⟩))

/-- The claim of `_prepare_tool_call` -/
def claimToolCall (userId : String) (threadId runtimeRunId : Option String)
    (toolCall : ToolCallItem) : Db ToolInvocationClaim :=
  claimToolInvocation sha256 userId threadId runtimeRunId (orDefault toolCall.id "")
    (orDefault toolCall.name "unknown") toolCall.args.asMapping

/-! ## The round trip -/

/-- What happens after the message has been revised: one of its calls is claimed, or the graph
    runs `after_model` again on the original message, to the interrupt or to the end. -/
inductive Event
  | claim (n : Nat) (runtimeRunId : Option String)
  | requested (runtimeRunId : Option String)
  | replay (runtimeRunId : Option String)

def Event.runtimeRunId : Event → Option String
  | .claim _ id => id
  | .requested id => id
  | .replay id => id

def Event.claims (n : Nat) : Event → Bool
  | .claim k _ => k == n
  | _ => false

inductive Answer
  | claimed (n : Nat) (shouldExecute : Bool)
  | requested
  | replayed (result : Except String (Option Update))

/-- The claim says that call `n` is to be executed. -/
def Answer.starts (n : Nat) : Answer → Bool
  | .claimed k shouldExecute => k == n && shouldExecute
  | _ => false

/-- The tool calls of the message after `after_model` -/
def revisedCalls (toolCalls : List ToolCallItem) : Except String (Option Update) →
    List ToolCallItem
  | .ok (some update) => update.toolCalls
  | _ => toolCalls

section

variable (userId : String) (threadId : Option String) (messages : List Message)
  (decisions : List Decision)

def runEvent (revised : List ToolCallItem) : Event → Db (List Answer)
  | .claim n runtimeRunId =>
      match revised[n]? with
      | none => pure []
      | some toolCall => do
          let claim ← claimToolCall sha256 userId threadId runtimeRunId toolCall
          pure [.claimed n claim.shouldExecute]
  | .requested runtimeRunId => do
      requestApprovals sha256 m (some userId) threadId runtimeRunId messages
      pure [.requested]
  | .replay runtimeRunId => do
      let result ← afterModel sha256 m (some userId) threadId runtimeRunId messages decisions
      pure [.replayed result]

def runEvents (revised : List ToolCallItem) : List Event → Db (List Answer)
  | [] => pure []
  | event :: events => do
      let answers ← runEvent sha256 m userId threadId messages decisions revised event
      let later ← runEvents revised events
      pure (answers ++ later)

/-- The runs that end at the interrupt, the run with the decisions, and what comes after it -/
def roundTrip (interrupted : List (Option String)) (runtimeRunId : Option String)
    (events : List Event) : Db (Except String (Option Update) × List Answer) := do
  interrupted.forM fun id => requestApprovals sha256 m (some userId) threadId id messages
  let result ← afterModel sha256 m (some userId) threadId runtimeRunId messages decisions
  let toolCalls := (lastAiMessage messages).getD []
  let answers ← runEvents sha256 m userId threadId messages decisions
    (revisedCalls toolCalls result) events
  pure (result, answers)

end

/-! ## The calls with their decisions -/

/-- A tool call and the decision about it, if it is gated -/
abbrev Entry := ToolCallItem × Option Decision

def assign : List ToolCallItem → List Decision → List Entry
  | [], _ => []
  | toolCall :: toolCalls, decisions =>
      if m.gated toolCall then
        match decisions with
        | [] => (toolCall, none) :: assign toolCalls []
        | decision :: decisions => (toolCall, some decision) :: assign toolCalls decisions
      else (toolCall, none) :: assign toolCalls decisions

/-- The call as the decision leaves it -/
def Decision.revised (decision : Decision) (toolCall : ToolCallItem) : ToolCallItem :=
  if decision.type = "edit" then
    match decision.editedAction with
    | some (name, args) => { toolCall with name := some name, args := args }
    | none => toolCall
  else toolCall

def Entry.revised (p : Entry) : ToolCallItem :=
  match p.2 with
  | some decision => decision.revised p.1
  | none => p.1

/-- The decision about the call, as it is recorded -/
def Entry.durable (p : Entry) : Option ApprovalDecision :=
  p.2.map fun decision => durableDecision decision p.1 (decision.revised p.1)

/-- The call is to be executed: nobody has rejected it. -/
def Entry.executable (p : Entry) : Bool := p.2.all fun decision => decision.type ≠ "reject"

/-- The three kinds of decision, an edit with its action -/
def Decision.WellFormed (decision : Decision) : Prop :=
  decision.type = "approve" ∨ (decision.type = "edit" ∧ decision.editedAction.isSome = true) ∨
    decision.type = "reject"

/-- What `_process_decision` makes of a decision that is allowed. -/
structure ProcessesDecisions : Prop where
  approve : ∀ decision toolCall, m.allowed decision toolCall = true → decision.type = "approve" →
    m.processDecision decision toolCall = some (some toolCall, none)
  edit : ∀ decision toolCall name args, m.allowed decision toolCall = true →
    decision.type = "edit" → decision.editedAction = some (name, args) →
    m.processDecision decision toolCall =
      some (some { toolCall with name := some name, args := args }, none)
  reject : ∀ decision toolCall, m.allowed decision toolCall = true → decision.type = "reject" →
    ∃ toolMessage, m.processDecision decision toolCall = some (some toolCall, some toolMessage)

end HumanInTheLoop

end HyChat
