import HyChat.Tool.Model

/-!
# The tool invocation service

The service's functions, statement by statement, under the names they have in the source. Each is
a program over the statements of `Tool/Model`; the loops are `List.forM` over a body that has a
name of its own, and the two `except` shapes of the source are `rollbackOnError` (undo and raise
again) and the handler in `recordApprovalDecisions` that swallows a lost race.
-/

set_option autoImplicit false

namespace HyChat

open Lib

/-! ## Python's truth values -/

/-- `value or default` -/
def orDefault (value : Option String) (default : String) : String :=
  match value with
  | some s => if s = "" then default else s
  | none => default

/-- A string that is there and not empty. -/
def truthy (value : Option String) : Bool :=
  match value with
  | some s => s ≠ ""
  | none => false

def PyObject.asMapping : PyObject → PyMapping
  | .mapping items => items
  | _ => []

/-- `if condition: raise error` -/
def raiseIf (condition : Bool) (error : PyError) : Db Unit :=
  if condition then throw error else pure ()

/-! ## Normal forms and keys -/

def toolStatePayloadMaxChars : Nat := 200000

section

variable (sha256 : Sha256)

/-- `_json_object` -/
def jsonObject (value : PyObject) : Json :=
  match safeJson sha256 toolStatePayloadMaxChars value with
  | .obj fields => .obj fields
  | normalized => .obj [("value", normalized)]

/-- `_canonical_json` -/
def canonicalJson (value : PyObject) : String := (jsonObject sha256 value).sortKeys.dumps

/-- The text whose digest is the key: user, thread and call as a JSON array. -/
def scopeText (userId : String) (threadId : Option String) (toolCallId : String) : String :=
  (Json.arr [.str userId, .str (orDefault threadId "<direct>"), .str toolCallId]).dumps

def invocationIdempotencyKey (userId : String) (threadId : Option String)
    (toolCallId : String) : String :=
  sha256.hexdigest (scopeText userId threadId toolCallId)

/-! ## `_ensure_invocation` -/

/-- `_validate_identity` -/
def validateIdentity (threadId runtimeRunId : Option String) (toolCallId : String) : Db Unit := do
  raiseIf (threadId.any (64 < ·.length)) (.toolInvocationConflict "thread_id 超过 64 个字符")
  raiseIf (runtimeRunId.any (128 < ·.length))
    (.toolInvocationConflict "runtime_run_id 超过 128 个字符")
  raiseIf (toolCallId = "") (.toolInvocationConflict "工具调用缺少 tool_call_id")
  raiseIf (255 < toolCallId.length) (.toolInvocationConflict "tool_call_id 超过 255 个字符")

/-- `_conversation_id_for_user` -/
def conversationIdForUser (userId : String) (threadId : Option String) : Db (Option String) := do
  match threadId with
  | none => pure none
  | some thread =>
      if thread = "" then pure none
      else
        match ← perform (.selectConversation thread) with
        | none => pure none
        | some conversation =>
            raiseIf (conversation.userId ≠ userId)
              (.toolInvocationOwnershipError "无权访问该工具调用所属会话")
            pure (some conversation.id)

/-- `original_payload_matches` -/
def originalPayloadMatches (invocation : ToolInvocation) (toolName : String)
    (requested : Json) : Bool :=
  invocation.toolName = toolName &&
    canonicalJson sha256 (toPy invocation.requestedInput) = canonicalJson sha256 (toPy requested)

/-- `effective_payload_matches`, without the flag that enables it -/
def effectivePayloadMatches (invocation : ToolInvocation) (toolName : String)
    (requested : Json) : Bool :=
  invocation.effectiveToolName = toolName &&
    canonicalJson sha256 (toPy invocation.effectiveInput) = canonicalJson sha256 (toPy requested)

/-- A flush of changed attributes: an `UPDATE` by primary key, which must find its row. -/
def flush (id : Nat) (values : ToolInvocation → ToolInvocation) : Db Unit := do
  let rowcount ← perform (.updateInvocation id (fun _ => true) values)
  raiseIf (rowcount ≠ 1) .databaseError

/-- The first write of `_ensure_invocation` to an existing row: a run id where there is none. -/
def fillRuntimeRunId (invocation : ToolInvocation) (runtimeRunId : Option String)
    (now : Nat) : Db ToolInvocation :=
  if !truthy invocation.runtimeRunId && truthy runtimeRunId then do
    flush invocation.id fun row => { row with runtimeRunId := runtimeRunId, updatedAt := now }
    pure { invocation with runtimeRunId := runtimeRunId, updatedAt := now }
  else pure invocation

/-- The second one: a call not yet claimed turns out to need approval. -/
def requireApproval (invocation : ToolInvocation) (approvalRequired : Bool)
    (now : Nat) : Db ToolInvocation :=
  if approvalRequired && invocation.status = .pending && invocation.attemptCount = 0 then do
    flush invocation.id fun row => { row with status := .pendingApproval, updatedAt := now }
    pure { invocation with status := .pendingApproval, updatedAt := now }
  else pure invocation

/-- The row `_ensure_invocation` offers for insertion. -/
def newInvocation (userId : String) (threadId runtimeRunId : Option String)
    (toolCallId toolName : String) (requested : Json) (approvalRequired : Bool)
    (conversationId : Option String) (now : Nat) : ToolInvocation where
  id := 0
  userId := userId
  conversationId := conversationId
  threadId := threadId
  runtimeRunId := runtimeRunId
  toolCallId := toolCallId
  idempotencyKey := invocationIdempotencyKey sha256 userId threadId toolCallId
  toolName := toolName
  effectiveToolName := toolName
  requestedInput := requested
  effectiveInput := requested
  output := .obj []
  status := if approvalRequired then .pendingApproval else .pending
  attemptCount := 0
  errorMessage := none
  startedAt := none
  completedAt := none
  createdAt := now
  updatedAt := now

/-- `_ensure_invocation` -/
def ensureInvocation (userId : String) (threadId runtimeRunId : Option String)
    (toolCallId toolName : String) (requestedInput : PyMapping)
    (approvalRequired allowEffectiveMatch : Bool) : Db ToolInvocation := do
  validateIdentity threadId runtimeRunId toolCallId
  let requested := jsonObject sha256 (.mapping requestedInput)
  let now ← perform .utcnow
  let conversationId ← conversationIdForUser userId threadId
  perform (.insertInvocation (newInvocation sha256 userId threadId runtimeRunId toolCallId toolName
    requested approvalRequired conversationId now))
  match ← perform (.selectInvocation userId
      (invocationIdempotencyKey sha256 userId threadId toolCallId)) with
  | none => throw (.runtimeError "无法创建或读取工具调用状态")
  | some invocation =>
      raiseIf (invocation.threadId ≠ threadId || invocation.toolCallId ≠ toolCallId ||
          !(originalPayloadMatches sha256 invocation toolName requested ||
            (allowEffectiveMatch && effectivePayloadMatches sha256 invocation toolName requested)))
        (.toolInvocationConflict "同一幂等键已用于不同的工具名称或参数，已阻止重复执行")
      let invocation ← fillRuntimeRunId invocation runtimeRunId now
      requireApproval invocation approvalRequired now

/-! ## `ensure_pending_approvals` -/

/-- `except Exception: db.rollback(); raise` -/
def rollbackOnError {α : Type} (body : Db α) : Db α :=
  tryCatch body fun e => do
    perform .rollback
    throw e

/-- The approval row offered for insertion. -/
def newApproval (invocation : ToolInvocation) (userId : String) (requestedAt updatedAt : Nat) :
    Approval where
  invocationId := invocation.id
  userId := userId
  idempotencyKey := invocation.idempotencyKey
  status := .pending
  decisionPayload := .obj []
  decidedByUserId := none
  requestedAt := requestedAt
  decidedAt := none
  updatedAt := updatedAt

/-- The loop body of `ensure_pending_approvals`. -/
def ensurePendingApproval (userId : String) (threadId runtimeRunId : Option String)
    (toolCall : ToolCallItem) : Db Unit := do
  let invocation ← ensureInvocation sha256 userId threadId runtimeRunId
    (orDefault toolCall.id "") (orDefault toolCall.name "unknown") toolCall.args.asMapping
    true false
  let requestedAt ← perform .utcnow
  let updatedAt ← perform .utcnow
  perform (.insertApproval (newApproval invocation userId requestedAt updatedAt))
  let approval ← perform (.selectApproval userId invocation.idempotencyKey)
  raiseIf (!approval.any (·.invocationId = invocation.id))
    (.approvalConflict "审批幂等键已绑定到其他工具调用")

def ensurePendingApprovals (userId : String) (threadId runtimeRunId : Option String)
    (toolCalls : List ToolCallItem) : Db Unit :=
  rollbackOnError do
    toolCalls.forM (ensurePendingApproval sha256 userId threadId runtimeRunId)
    perform .commit

/-! ## `record_approval_decisions` -/

/-- `_approval_status` -/
def approvalStatus? (decisionType : String) : Option ApprovalStatus :=
  if decisionType = "approve" then some .approved
  else if decisionType = "edit" then some .edited
  else if decisionType = "reject" then some .rejected
  else none

def approvalStatus (decisionType : String) : Db ApprovalStatus :=
  match approvalStatus? decisionType with
  | some status => pure status
  | none => throw (.approvalConflict ("不支持的审批决定：" ++ decisionType))

/-- The statuses an invocation may have once its approval has the status given. -/
def allowedInvocationStatuses : ApprovalStatus → List ToolInvocationStatus
  | .rejected => [.rejected]
  | _ => [.approved, .running, .succeeded, .failed]

/-- `_decision_matches`, for a decision of a supported type -/
def decisionMatches (approval : Approval) (invocation : ToolInvocation)
    (decision : ApprovalDecision) (expected : ApprovalStatus) : Bool :=
  approval.status = expected &&
  canonicalJson sha256 (toPy approval.decisionPayload) =
    canonicalJson sha256 (.mapping decision.decisionPayload) &&
  (allowedInvocationStatuses expected).contains invocation.status &&
  invocation.effectiveToolName = decision.effectiveToolName &&
  canonicalJson sha256 (toPy invocation.effectiveInput) =
    canonicalJson sha256 (.mapping decision.effectiveInput)

/-- `_load_decision_rows` -/
def loadDecisionRows (userId : String) (threadId runtimeRunId : Option String)
    (decision : ApprovalDecision) : Db (ToolInvocation × Approval) := do
  let invocation ← ensureInvocation sha256 userId threadId runtimeRunId decision.toolCallId
    decision.toolName decision.requestedInput true false
  match ← perform (.selectApprovalOf invocation.id userId) with
  | none => throw (.approvalConflict "工具调用没有待处理的审批记录")
  | some approval => pure (invocation, approval)

/-- The status a decided invocation gets. -/
def invocationStatus (status : ApprovalStatus) : ToolInvocationStatus :=
  if status = .rejected then .rejected else .approved

/-- `UPDATE tool_approvals SET ..` of a decision. -/
def decideApproval (userId : String) (decision : ApprovalDecision) (status : ApprovalStatus)
    (now : Nat) (row : Approval) : Approval :=
  { row with
    status := status
    decisionPayload := jsonObject sha256 (.mapping decision.decisionPayload)
    decidedByUserId := some userId
    decidedAt := some now
    updatedAt := now }

/-- `UPDATE tool_invocations SET ..` of a decision. -/
def decideInvocation (decision : ApprovalDecision) (status : ApprovalStatus) (now : Nat)
    (row : ToolInvocation) : ToolInvocation :=
  let decided := { row with
    status := invocationStatus status
    effectiveToolName := decision.effectiveToolName
    effectiveInput := jsonObject sha256 (.mapping decision.effectiveInput)
    updatedAt := now }
  if invocationStatus status = .rejected then
    { decided with completedAt := some now, errorMessage := some "用户拒绝了工具调用" }
  else decided

/-- The two conditional updates that finalise a decision. -/
def applyDecision (userId : String) (now : Nat) (decision : ApprovalDecision)
    (invocation : ToolInvocation) (approval : Approval) : Db Unit := do
  let status ← approvalStatus decision.decisionType
  let approvalRowcount ← perform (.updateApproval approval.invocationId
    (fun row => row.userId = userId && row.status = .pending)
    (decideApproval sha256 userId decision status now))
  raiseIf (approvalRowcount ≠ 1) .concurrentDecision
  let invocationRowcount ← perform (.updateInvocation invocation.id
    (fun row => row.userId = userId && row.status = .pendingApproval)
    (decideInvocation sha256 decision status now))
  raiseIf (invocationRowcount ≠ 1) .concurrentDecision

/-- The loop body of the first pass: a decided approval must match, a pending one is decided. -/
def recordDecision (userId : String) (threadId runtimeRunId : Option String) (now : Nat)
    (decision : ApprovalDecision) : Db Unit := do
  let (invocation, approval) ←
    loadDecisionRows sha256 userId threadId runtimeRunId decision
  if approval.status ≠ .pending then do
    let expected ← approvalStatus decision.decisionType
    raiseIf (!decisionMatches sha256 approval invocation decision expected)
      (.approvalConflict "审批已使用不同决定完成，不能覆盖")
  else applyDecision sha256 userId now decision invocation approval

/-- The loop body of the second pass, after a lost race. -/
def verifyDecision (userId : String) (threadId runtimeRunId : Option String)
    (decision : ApprovalDecision) : Db Unit := do
  let (invocation, approval) ←
    loadDecisionRows sha256 userId threadId runtimeRunId decision
  let expected ← approvalStatus decision.decisionType
  raiseIf (!decisionMatches sha256 approval invocation decision expected)
    (.approvalConflict "审批已并发完成且决定不同，已阻止覆盖")

def recordApprovalDecisions (userId : String) (threadId runtimeRunId : Option String)
    (decisions : List ApprovalDecision) : Db Unit := do
  let now ← perform .utcnow
  let finished ← tryCatch
    (do
      decisions.forM (recordDecision sha256 userId threadId runtimeRunId now)
      perform .commit
      pure true)
    fun e => do
      perform .rollback
      if e = .concurrentDecision then pure false else throw e
  if finished then pure ()
  else
    rollbackOnError do
      decisions.forM (verifyDecision sha256 userId threadId runtimeRunId)
      perform .commit

/-! ## `claim_tool_invocation` -/

/-- `_claim_snapshot` -/
def claimSnapshot (invocation : ToolInvocation) (shouldExecute : Bool) :
    ToolInvocationClaim where
  invocationId := invocation.id
  conversationId := invocation.conversationId
  toolCallId := invocation.toolCallId
  toolName := invocation.effectiveToolName
  status := invocation.status
  shouldExecute := shouldExecute
  output := invocation.output
  errorMessage := invocation.errorMessage

/-- `UPDATE tool_invocations SET ..` of a claim. -/
def startInvocation (now : Nat) (row : ToolInvocation) : ToolInvocation :=
  { row with
    status := .running
    attemptCount := row.attemptCount + 1
    startedAt := some now
    updatedAt := now }

/-- The claim proper: the conditional update, and the snapshot of what it started. `none` means
    that another session was faster. -/
def startClaim (userId : String) (invocation : ToolInvocation) :
    Db (Option ToolInvocationClaim) := do
  let now ← perform .utcnow
  let rowcount ← perform (.updateInvocation invocation.id
    (fun row => row.userId = userId && row.status = invocation.status) (startInvocation now))
  if rowcount = 1 then do
    perform .commit
    match ← perform (.getInvocation invocation.id) with
    | none => throw (.runtimeError "工具调用状态在抢占后丢失")
    | some started => pure (some (claimSnapshot started true))
  else do
    perform .rollback
    pure none

/-- The `try` block of `claim_tool_invocation`. -/
def tryClaim (userId : String) (threadId runtimeRunId : Option String)
    (toolCallId toolName : String) (requestedInput : PyMapping) :
    Db (Option ToolInvocationClaim) := do
  let invocation ← ensureInvocation sha256 userId threadId runtimeRunId toolCallId toolName
    requestedInput false true
  let effectiveInput := jsonObject sha256 (.mapping requestedInput)
  raiseIf (invocation.effectiveToolName ≠ toolName ||
      canonicalJson sha256 (toPy invocation.effectiveInput) ≠
        canonicalJson sha256 (toPy effectiveInput))
    (.toolInvocationConflict "待执行工具与已审批内容不一致，已阻止执行")
  if invocation.status ≠ .pending && invocation.status ≠ .approved then do
    perform .commit
    -- the attributes have expired with the commit and are read again
    match ← perform (.getInvocation invocation.id) with
    | none => throw .databaseError
    | some current => pure (some (claimSnapshot current false))
  else startClaim userId invocation

def claimToolInvocation (userId : String) (threadId runtimeRunId : Option String)
    (toolCallId toolName : String) (requestedInput : PyMapping) : Db ToolInvocationClaim := do
  let claimed ← rollbackOnError
    (tryClaim sha256 userId threadId runtimeRunId toolCallId toolName requestedInput)
  match claimed with
  | some claim => pure claim
  | none =>
      match ← perform (.selectInvocation userId
          (invocationIdempotencyKey sha256 userId threadId toolCallId)) with
      | none => throw (.runtimeError "工具调用状态在并发抢占后丢失")
      | some invocation => pure (claimSnapshot invocation false)

/-! ## `complete_tool_invocation` and `fail_tool_invocation` -/

def serializeToolResult (result : ToolResult) : Json :=
  .obj [("content", safeJson sha256 toolStatePayloadMaxChars result.content),
    ("status", .str (orDefault result.status "success")),
    ("name", .str (orDefault result.name ""))]

/-- The finishing update of either function. -/
def finishInvocation (claim : ToolInvocationClaim)
    (values : ToolInvocation → ToolInvocation) : Db Unit := do
  let _ ← perform (.updateInvocation claim.invocationId (fun row => row.status = .running) values)
  pure ()

def completeToolInvocation (claim : ToolInvocationClaim) (result : ToolResult)
    (errorMessage : Option String) : Db Unit := do
  let now ← perform .utcnow
  finishInvocation claim fun row =>
    { row with
      status := if truthy errorMessage then .failed else .succeeded
      output := serializeToolResult sha256 result
      errorMessage := errorMessage
      completedAt := some now
      updatedAt := now }

omit sha256 in
def failToolInvocation (claim : ToolInvocationClaim) (errorMessage : String) : Db Unit := do
  let now ← perform .utcnow
  finishInvocation claim fun row =>
    { row with
      status := .failed
      errorMessage := some errorMessage
      completedAt := some now
      updatedAt := now }

/-! ## Sessions -/

/-- One call, with its answer as an observer sees it. -/
def runCall : Call → Db (Option ToolInvocationClaim)
  | .ensurePendingApprovals userId threadId runtimeRunId toolCalls => do
      ensurePendingApprovals sha256 userId threadId runtimeRunId toolCalls
      pure none
  | .recordApprovalDecisions userId threadId runtimeRunId decisions => do
      recordApprovalDecisions sha256 userId threadId runtimeRunId decisions
      pure none
  | .claimToolInvocation userId threadId runtimeRunId toolCallId toolName requestedInput => do
      let claim ← claimToolInvocation sha256 userId threadId runtimeRunId toolCallId toolName
        requestedInput
      pure (some claim)
  | .completeToolInvocation claim result errorMessage => do
      completeToolInvocation sha256 claim result errorMessage
      pure none
  | .failToolInvocation claim errorMessage => do
      failToolInvocation claim errorMessage
      pure none
  | .commit => do
      perform .commit
      pure none
  | .rollback => do
      perform .rollback
      pure none
  | .setConversation threadId conversation => do
      perform (.setConversation threadId conversation)
      pure none

/-- A call and the record of how it ended. -/
def observeCall (call : Call) : Prog toolSig Unit :=
  (runCall sha256 call).attempt.bind fun outcome =>
    (Prog.perform (S := toolSig) (.emit ⟨call, outcome⟩)).bind fun _ => .ret ()

/-- A session makes its calls one after the other. -/
def session : List Call → Prog toolSig Unit
  | [] => .ret ()
  | call :: calls => (observeCall sha256 call).bind fun _ => session calls

/-- Any number of sessions, each with its own calls, on empty tables. -/
def start (conversation : String → Option Conversation) (calls : Nat → List Call) :
    Config toolSig Store Nat :=
  ⟨.initial conversation, fun i => session sha256 (calls i)⟩

end

end HyChat
