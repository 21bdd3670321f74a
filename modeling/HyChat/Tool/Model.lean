import HyChat.Lib.Cell
import HyChat.Lib.Rely
import HyChat.Tracing.SafeJson

/-!
# Tool state: rows, statements and the store they act on

The two tables of the tool invocation service, the statements the service issues against them,
and what one statement of one session does at READ COMMITTED.

* A row is a `Cell`: the committed version, and at most one uncommitted one that only its writer
  sees. The tables are indexed by the row's id, which is drawn fresh at insertion; the approval of
  an invocation stands at the invocation's index, because `tool_approvals.invocation_id` is
  unique.
* A `SELECT` reads what the session sees at that moment. The identity map of the ORM is left out:
  within one call of the service an object is used under the values its own `SELECT` returned.
* An `UPDATE .. WHERE` that finds a row another session has written and not committed is blocked,
  and so is an `INSERT .. ON CONFLICT DO NOTHING` whose key such a row has; when it gets through
  it looks at the row as it is then.
* Any statement may fail (a lost connection, a timeout, a deadlock, a value too long for its
  column): the session's uncommitted versions are then still there, as every caller rolls back.
-/

set_option autoImplicit false

namespace HyChat

open Lib

/-! ## Rows -/

inductive ToolInvocationStatus where
  | pending
  | pendingApproval
  | approved
  | running
  | succeeded
  | failed
  | rejected
  deriving DecidableEq, Repr

inductive ApprovalStatus where
  | pending
  | approved
  | edited
  | rejected
  deriving DecidableEq, Repr

/-- What the service reads of a conversation. -/
structure Conversation where
  id : String
  userId : String
  deriving DecidableEq

/-- A row of `tool_invocations`. Time stamps are numbers. -/
structure ToolInvocation where
  id : Nat
  userId : String
  conversationId : Option String
  threadId : Option String
  runtimeRunId : Option String
  toolCallId : String
  idempotencyKey : String
  toolName : String
  effectiveToolName : String
  requestedInput : Json
  effectiveInput : Json
  output : Json
  status : ToolInvocationStatus
  attemptCount : Nat
  errorMessage : Option String
  startedAt : Option Nat
  completedAt : Option Nat
  createdAt : Nat
  updatedAt : Nat
  deriving DecidableEq

/-- A row of `tool_approvals`. -/
structure Approval where
  invocationId : Nat
  userId : String
  idempotencyKey : String
  status : ApprovalStatus
  decisionPayload : Json
  decidedByUserId : Option String
  requestedAt : Nat
  decidedAt : Option Nat
  updatedAt : Nat
  deriving DecidableEq

/-! ## What callers pass and get -/

/-- What a call of the service raises. `databaseError` is whatever the driver raises. -/
inductive PyError where
  | toolInvocationConflict (message : String)
  | toolInvocationOwnershipError (message : String)
  | approvalConflict (message : String)
  | concurrentDecision
  | runtimeError (message : String)
  | databaseError
  deriving DecidableEq, Repr

/-- One element of `tool_calls`: the entries `id`, `name` and `args` of a dictionary. The first
    two are given by their `str`, `none` when the entry is missing or falsy. -/
structure ToolCallItem where
  id : Option String
  name : Option String
  args : PyObject

structure ApprovalDecision where
  toolCallId : String
  toolName : String
  requestedInput : PyMapping
  decisionType : String
  effectiveToolName : String
  effectiveInput : PyMapping
  decisionPayload : PyMapping

structure ToolInvocationClaim where
  invocationId : Nat
  conversationId : Option String
  toolCallId : String
  toolName : String
  status : ToolInvocationStatus
  shouldExecute : Bool
  output : Json
  errorMessage : Option String
  deriving DecidableEq

/-- What a tool returned: the attributes `content`, `status` and `name`. -/
structure ToolResult where
  content : PyObject
  status : Option String
  name : Option String

/-- One thing a session does with the service. The two finishing operations leave the commit to
    their caller, so a session may also commit and roll back. `setConversation` stands for the
    code outside the service that creates and deletes conversations. -/
inductive Call where
  | ensurePendingApprovals (userId : String) (threadId runtimeRunId : Option String)
      (toolCalls : List ToolCallItem)
  | recordApprovalDecisions (userId : String) (threadId runtimeRunId : Option String)
      (decisions : List ApprovalDecision)
  | claimToolInvocation (userId : String) (threadId runtimeRunId : Option String)
      (toolCallId toolName : String) (requestedInput : PyMapping)
  | completeToolInvocation (claim : ToolInvocationClaim) (result : ToolResult)
      (errorMessage : Option String)
  | failToolInvocation (claim : ToolInvocationClaim) (errorMessage : String)
  | commit
  | rollback
  | setConversation (threadId : String) (conversation : Option Conversation)

/-- How a call ended: it raised, it returned a claim, or it returned nothing. -/
abbrev Outcome := Except PyError (Option ToolInvocationClaim)

/-- A call that has ended, in the order in which calls end. -/
structure Return where
  call : Call
  outcome : Outcome

/-! ## Statements -/

inductive Stmt where
  | utcnow
  | selectConversation (threadId : String)
  | insertInvocation (row : ToolInvocation)
  | selectInvocation (userId idempotencyKey : String)
  | getInvocation (id : Nat)
  | updateInvocation (id : Nat) (condition : ToolInvocation → Bool)
      (values : ToolInvocation → ToolInvocation)
  | insertApproval (row : Approval)
  | selectApproval (userId idempotencyKey : String)
  | selectApprovalOf (invocationId : Nat) (userId : String)
  | updateApproval (id : Nat) (condition : Approval → Bool) (values : Approval → Approval)
  | commit
  | rollback
  | setConversation (threadId : String) (conversation : Option Conversation)
  | emit (entry : Return)

/-- The answer to a statement that does not fail; for an `UPDATE` the number of rows it matched. -/
abbrev Stmt.Val : Stmt → Type
  | .utcnow => Nat
  | .selectConversation _ => Option Conversation
  | .selectInvocation _ _ => Option ToolInvocation
  | .getInvocation _ => Option ToolInvocation
  | .selectApproval _ _ => Option Approval
  | .selectApprovalOf _ _ => Option Approval
  | .updateInvocation _ _ _ => Nat
  | .updateApproval _ _ _ => Nat
  | _ => Unit

/-- The clock, a rollback and the bookkeeping of returns do not fail. -/
def Stmt.fallible : Stmt → Bool
  | .utcnow => false
  | .rollback => false
  | .emit _ => false
  | _ => true

abbrev toolSig : Sig := ⟨Stmt, fun o => Except PyError o.Val⟩

/-- A piece of the service's code. -/
abbrev Db (α : Type) := Raising toolSig PyError α

def perform (o : Stmt) : Db o.Val := Prog.perform (S := toolSig) o

/-! ## The store -/

/-- An invocation and its approval. -/
structure Slot where
  invocation : Cell Nat (Option ToolInvocation)
  approval : Cell Nat (Option Approval)

def Slot.empty : Slot := ⟨⟨none, none⟩, ⟨none, none⟩⟩

structure Store where
  next : Nat
  slot : Nat → Slot
  conversation : String → Option Conversation
  returns : List Return

namespace Store

/-- The tables before the service has run. -/
def initial (conversation : String → Option Conversation) : Store :=
  ⟨0, fun _ => .empty, conversation, []⟩

def putInvocation (i n : Nat) (row : ToolInvocation) (s : Store) : Store :=
  { s with
    slot := Function.update s.slot n
      ⟨(s.slot n).invocation.write i (some row), (s.slot n).approval⟩ }

def putApproval (i n : Nat) (row : Approval) (s : Store) : Store :=
  { s with
    slot := Function.update s.slot n
      ⟨(s.slot n).invocation, (s.slot n).approval.write i (some row)⟩ }

def commit (i : Nat) (s : Store) : Store :=
  { s with slot := fun n => ⟨(s.slot n).invocation.commit i, (s.slot n).approval.commit i⟩ }

def rollback (i : Nat) (s : Store) : Store :=
  { s with slot := fun n => ⟨(s.slot n).invocation.rollback i, (s.slot n).approval.rollback i⟩ }

/-- A fresh row. -/
def insertInvocation (i : Nat) (row : ToolInvocation) (s : Store) : Store :=
  { s.putInvocation i s.next { row with id := s.next } with next := s.next + 1 }

def setConversation (threadId : String) (conversation : Option Conversation) (s : Store) :
    Store :=
  { s with conversation := Function.update s.conversation threadId conversation }

def log (entry : Return) (s : Store) : Store := { s with returns := entry :: s.returns }

/-- The first row, if any, with the property asked for. -/
def findSlot (s : Store) (p : Slot → Bool) : Option Nat :=
  (List.range s.next).find? fun n => p (s.slot n)

end Store

/-- The unique key both tables are looked up by. -/
def ToolInvocation.hasKey (userId idempotencyKey : String) (row : ToolInvocation) : Bool :=
  row.userId = userId && row.idempotencyKey = idempotencyKey

def Approval.hasKey (userId idempotencyKey : String) (row : Approval) : Bool :=
  row.userId = userId && row.idempotencyKey = idempotencyKey

/-- The session sees an invocation under the key. -/
def Slot.seesInvocation (i : Nat) (userId idempotencyKey : String) (sl : Slot) : Bool :=
  (sl.invocation.view i).any (·.hasKey userId idempotencyKey)

def Slot.seesApproval (i : Nat) (userId idempotencyKey : String) (sl : Slot) : Bool :=
  (sl.approval.view i).any (·.hasKey userId idempotencyKey)

/-- Another session has written an invocation under the key and not committed it. -/
def Slot.awaitsInvocation (i : Nat) (userId idempotencyKey : String) (sl : Slot) : Bool :=
  sl.invocation.lockedFor i &&
    (sl.invocation.pending.bind Prod.snd).any (·.hasKey userId idempotencyKey)

def Slot.awaitsApproval (i : Nat) (userId idempotencyKey : String) (sl : Slot) : Bool :=
  sl.approval.lockedFor i &&
    (sl.approval.pending.bind Prod.snd).any (·.hasKey userId idempotencyKey)

/-! ## One statement -/

/-- What the environment decides: whether the statement fails, and what the clock shows. -/
structure Choice where
  fault : Bool
  now : Nat

/-- A statement that does not fail; `none` when it is blocked. -/
def Stmt.run (i now : Nat) (s : Store) : (o : Stmt) → Option (Except PyError o.Val × Store)
  | .utcnow => some (.ok now, s)
  | .selectConversation threadId => some (.ok (s.conversation threadId), s)
  | .insertInvocation row =>
      if (s.findSlot (Slot.seesInvocation i row.userId row.idempotencyKey)).isSome then
        some (.ok (), s)
      else if (s.findSlot (Slot.awaitsInvocation i row.userId row.idempotencyKey)).isSome then
        none
      else some (.ok (), s.insertInvocation i row)
  | .selectInvocation userId idempotencyKey =>
      some (.ok ((s.findSlot (Slot.seesInvocation i userId idempotencyKey)).bind fun n =>
        (s.slot n).invocation.view i), s)
  | .getInvocation id => some (.ok ((s.slot id).invocation.view i), s)
  | .updateInvocation id condition values =>
      match (s.slot id).invocation.view i with
      | none => some (.ok (0 : Nat), s)
      | some row =>
          if condition row then
            if (s.slot id).invocation.lockedFor i then none
            else some (.ok (1 : Nat), s.putInvocation i id (values row))
          else some (.ok (0 : Nat), s)
  | .insertApproval row =>
      if (s.findSlot (Slot.seesApproval i row.userId row.idempotencyKey)).isSome then
        some (.ok (), s)
      else if (s.findSlot (Slot.awaitsApproval i row.userId row.idempotencyKey)).isSome then
        none
      else if (s.slot row.invocationId).approval.lockedFor i then none
      -- the foreign key and the unique `invocation_id`
      else if ((s.slot row.invocationId).invocation.view i).isNone ||
          ((s.slot row.invocationId).approval.view i).isSome then some (.error .databaseError, s)
      else some (.ok (), s.putApproval i row.invocationId row)
  | .selectApproval userId idempotencyKey =>
      some (.ok ((s.findSlot (Slot.seesApproval i userId idempotencyKey)).bind fun n =>
        (s.slot n).approval.view i), s)
  | .selectApprovalOf invocationId userId =>
      some (.ok (((s.slot invocationId).approval.view i).filter (·.userId = userId)), s)
  | .updateApproval id condition values =>
      match (s.slot id).approval.view i with
      | none => some (.ok (0 : Nat), s)
      | some row =>
          if condition row then
            if (s.slot id).approval.lockedFor i then none
            else some (.ok (1 : Nat), s.putApproval i id (values row))
          else some (.ok (0 : Nat), s)
  | .commit => some (.ok (), s.commit i)
  | .rollback => some (.ok (), s.rollback i)
  | .setConversation threadId conversation =>
      some (.ok (), s.setConversation threadId conversation)
  | .emit entry => some (.ok (), s.log entry)

/-- The database: a session that dies leaves its transaction to be rolled back. -/
def toolDb : Machine toolSig Store Nat Choice where
  exec i o choice s :=
    if choice.fault && o.fallible then some (.error .databaseError, s)
    else o.run i choice.now s
  halt := Store.rollback

end HyChat
