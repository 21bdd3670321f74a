import Mathlib.Data.List.Basic

/-!
# Tool calls without a response

Before a new human message is submitted, the page appends a tool message for each call it takes for
unanswered. Whether a call is answered is read off the message after the one that makes it.

What is compared. Two ways to say that a call is unanswered: no tool message of the thread has its
id, or the message after the one that makes it is no tool message. The source uses the second, for
all calls of a message at once. They differ when a message makes several calls and only some are
answered right after it, when an answer stands further down, and when two messages use one id. The
condition of the theorem is that the two readings pick the same ids; it is a condition on the list
of messages, which is all that the function is given.

A call without an id is answered under the empty id, as in the source.
-/

set_option autoImplicit false

namespace HyChat

namespace Frontend

structure ToolCall where
  id : Option String
  name : String

structure ToolMessage where
  toolCallId : String
  id : String
  name : String
  content : String

/-- A message of the thread, with what the page looks at. -/
inductive BaseMessage
  | ai (toolCalls : Option (List ToolCall))
  | tool (toolCallId : String)
  | other

namespace BaseMessage

def isToolMessage : BaseMessage → Bool
  | .tool _ => true
  | _ => false

/-- The calls a message makes. -/
def calls : BaseMessage → List ToolCall
  | .ai toolCalls => toolCalls.getD []
  | _ => []

end BaseMessage

def DO_NOT_RENDER_ID_PREFIX : String := "do-not-render-"

/-- `tc.id ?? ""` -/
def ToolCall.responseId (tc : ToolCall) : String := tc.id.getD ""

/-- The calls `forEach` makes a message for: one after the other those of the AI messages that no
    tool message follows. -/
def callsToAnswer (messages : List BaseMessage) : List ToolCall :=
  messages.zipIdx.flatMap fun (message, index) =>
    match message with
    | .ai toolCalls =>
        if toolCalls.map List.length = some 0 then []
        else
          match messages[index + 1]? with
          | some followingMessage =>
              if followingMessage.isToolMessage then [] else toolCalls.getD []
          | none => toolCalls.getD []
    | _ => []

/-- `ensureToolCallsHaveResponses`; `uuidv4` are the ids it draws. -/
def ensureToolCallsHaveResponses (uuidv4 : Nat → String) (messages : List BaseMessage) :
    List ToolMessage :=
  (callsToAnswer messages).mapIdx fun n tc =>
    { toolCallId := tc.responseId
      id := DO_NOT_RENDER_ID_PREFIX ++ uuidv4 n
      name := tc.name
      content := "工具调用已处理。" }

/-! ## Calls and responses -/

/-- Some message of the list calls a tool under this id. -/
def Calls (messages : List BaseMessage) (id : String) : Prop :=
  ∃ m ∈ messages, ∃ tc ∈ m.calls, tc.responseId = id

/-- Some tool message of the list answers the id. -/
def Answers (messages : List BaseMessage) (id : String) : Prop := BaseMessage.tool id ∈ messages

/-- A message that calls a tool under this id is not followed by a tool message. -/
def CallsUnfollowed (messages : List BaseMessage) (id : String) : Prop :=
  ∃ i m, messages[i]? = some m ∧ (∃ tc ∈ m.calls, tc.responseId = id) ∧
    ∀ next, messages[i + 1]? = some next → next.isToolMessage = false

/-- The messages a submission adds to the thread. -/
def asMessages (responses : List ToolMessage) : List BaseMessage :=
  responses.map fun r => .tool r.toolCallId

theorem CallsUnfollowed.calls {messages : List BaseMessage} {id : String}
    (h : CallsUnfollowed messages id) : Calls messages id := by
  obtain ⟨i, m, hm, htc, -⟩ := h
  exact ⟨m, List.mem_of_getElem? hm, htc⟩

theorem mem_callsToAnswer {messages : List BaseMessage} {tc : ToolCall} :
    tc ∈ callsToAnswer messages ↔ ∃ i m, messages[i]? = some m ∧ tc ∈ m.calls ∧
      ∀ next, messages[i + 1]? = some next → next.isToolMessage = false := by
  unfold callsToAnswer
  rw [List.mem_flatMap]
  constructor
  · rintro ⟨⟨m, i⟩, hm, htc⟩
    rw [List.mem_zipIdx_iff_getElem?] at hm
    refine ⟨i, m, hm, ?_⟩
    cases m with
    | tool toolCallId => exact absurd htc (by simp)
    | other => exact absurd htc (by simp)
    | ai toolCalls =>
      simp only at htc
      split at htc
      · exact absurd htc (by simp)
      · cases hnext : messages[i + 1]? with
        | none =>
          rw [hnext] at htc
          exact ⟨htc, fun next h => absurd h (by simp)⟩
        | some next =>
          rw [hnext] at htc
          simp only at htc
          split at htc
          · exact absurd htc (by simp)
          · rename_i htool
            refine ⟨htc, ?_⟩
            intro next' h
            cases h
            simpa using htool
  · rintro ⟨i, m, hm, htc, hnext⟩
    refine ⟨(m, i), List.mem_zipIdx_iff_getElem?.mpr hm, ?_⟩
    cases m with
    | tool toolCallId => exact absurd htc (by simp [BaseMessage.calls])
    | other => exact absurd htc (by simp [BaseMessage.calls])
    | ai toolCalls =>
      simp only
      rw [if_neg]
      · cases hn : messages[i + 1]? with
        | none => exact htc
        | some next =>
          simp only
          rw [hnext next hn]
          exact htc
      · intro hlen
        obtain ⟨calls, hcalls, hnil⟩ := Option.map_eq_some_iff.mp hlen
        rw [List.length_eq_zero_iff] at hnil
        subst hnil
        rw [hcalls] at htc
        exact absurd htc (by simp [BaseMessage.calls])

/-- **Which ids get a new response.** -/
theorem answers_ensureToolCallsHaveResponses (uuidv4 : Nat → String) (messages : List BaseMessage)
    (id : String) :
    Answers (asMessages (ensureToolCallsHaveResponses uuidv4 messages)) id ↔
      CallsUnfollowed messages id := by
  unfold Answers asMessages ensureToolCallsHaveResponses CallsUnfollowed
  rw [List.mem_map]
  constructor
  · rintro ⟨r, hr, hid⟩
    obtain ⟨n, hn, rfl⟩ := List.mem_mapIdx.mp hr
    cases hid
    obtain ⟨i, m, hm, htc, hnext⟩ := mem_callsToAnswer.mp (List.getElem_mem hn)
    exact ⟨i, m, hm, ⟨_, htc, rfl⟩, hnext⟩
  · rintro ⟨i, m, hm, ⟨tc, htc, rfl⟩, hnext⟩
    obtain ⟨n, hn, hget⟩ := List.getElem_of_mem (mem_callsToAnswer.mpr ⟨i, m, hm, htc, hnext⟩)
    refine ⟨_, List.mem_mapIdx.mpr ⟨n, hn, rfl⟩, ?_⟩
    rw [hget]

/-- Every call has a response in the thread and what is added to it, and nothing is added for a call
    that has one in the thread. -/
def Responded (uuidv4 : Nat → String) (messages : List BaseMessage) : Prop :=
  (∀ id, Calls messages id →
    Answers (messages ++ asMessages (ensureToolCallsHaveResponses uuidv4 messages)) id) ∧
  ∀ r ∈ ensureToolCallsHaveResponses uuidv4 messages, ¬Answers messages r.toolCallId

/-- **Every tool call gets exactly one response** precisely when the calls that no tool message
    answers are those of the AI messages that no tool message follows. -/
theorem tool_calls_responded_iff (uuidv4 : Nat → String) (messages : List BaseMessage) :
    Responded uuidv4 messages ↔
      ∀ id, Calls messages id → (¬Answers messages id ↔ CallsUnfollowed messages id) := by
  have hadded := answers_ensureToolCallsHaveResponses uuidv4 messages
  have happend : ∀ id, Answers (messages ++
      asMessages (ensureToolCallsHaveResponses uuidv4 messages)) id ↔
        Answers messages id ∨ CallsUnfollowed messages id := by
    intro id
    rw [← hadded]
    exact List.mem_append
  constructor
  · rintro ⟨hall, hnone⟩ id hid
    constructor
    · intro hanswers
      exact ((happend id).mp (hall id hid)).resolve_left hanswers
    · intro hunfollowed
      obtain ⟨r, hr, he⟩ := List.mem_map.mp ((hadded id).mpr hunfollowed)
      cases he
      exact hnone r hr
  · intro h
    refine ⟨?_, ?_⟩
    · intro id hid
      rw [happend]
      by_cases hanswers : Answers messages id
      · exact .inl hanswers
      · exact .inr ((h id hid).mp hanswers)
    · intro r hr
      have hunfollowed := (hadded r.toolCallId).mp (List.mem_map_of_mem hr)
      exact (h r.toolCallId hunfollowed.calls).mpr hunfollowed

/-- Two calls of one message, the first of them rejected: the second is not responded to. -/
theorem tool_call_without_response : ¬Responded (fun _ => "u")
    [.other, .ai (some [⟨some "call-1", "web_search"⟩, ⟨some "call-2", "recall"⟩]),
      .tool "call-1"] := by
  rintro ⟨hall, -⟩
  have hanswers := hall "call-2" ⟨_, .tail _ (.head _), _, .tail _ (.head _), rfl⟩
  exact absurd hanswers (by simp [Answers, asMessages, ensureToolCallsHaveResponses, callsToAnswer,
    BaseMessage.isToolMessage])

end Frontend

end HyChat
