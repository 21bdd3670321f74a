import HyChat.Agents.RoundTrip
import HyChat.Agents.Wrapper

/-!
# A tool call that comes again

A later call with the same scope and arguments finds the row finished, and
`_existing_invocation_message` builds a message from it without running the tool. The message has
travelled through the row, and its status is the one `_tool_error_message` has read off the
result's own text, so it need not be the message that came first.

Why the status is in question at all. `_finish_tool_call` decides whether the tool has failed by
looking at the text of its result, stores the result, and returns the message the tool has made. A
later call builds its message from the stored text and decides again. Content and failure agree,
since both are functions of the same text; the message's own status, id and name need not, since
the tool can have set them otherwise. `Mirrors` lists the fields with what each is, and
`Mirrors.eq_iff` is the whole difference.

Two results about a later call. Among any other sessions it is only said what it does *not* do: the
tool does not run again, and if a message is returned it is the one built from the row. That it
returns one is said for a call nobody disturbs (`completes_wrapToolCall_kept`). The row is looked
up under the key of the call, so "the same call" is the same user, thread and tool call id with the
same name and arguments; the run id may differ, and is filled in where it is missing.

What reading a text may raise is modelled with three values: the text is JSON, it is not, or
reading it raises something the wrapper does not catch there. A first call whose result cannot be
read does not return it, and nothing is claimed of a later one.
-/

set_option autoImplicit false

namespace HyChat

open Lib

namespace Replay

/-! ## The message of a later call -/

section

variable (py : Python)

/-- `_tool_error_message` finds a failure in the message. -/
def Reports (result : ToolMessage) : Prop :=
  ∃ errorMessage, toolErrorMessage py result = .ok errorMessage ∧ truthy errorMessage = true

/-- The message has the content of the result, the id and the name of the call, and the status
    that `_tool_error_message` has found. -/
structure Mirrors (call : WrappedCall) (result message : ToolMessage) : Prop where
  content : message.content = result.content
  toolCallId : message.toolCallId = orDefault call.toolCall.id ""
  name : message.name = some (orDefault call.toolCall.name "unknown")
  status : message.status = .error ↔ Reports py result

/-- The call comes again: user, thread, id, name and arguments are the same. -/
structure Repeats (later call : WrappedCall) : Prop where
  userId : later.userId = call.userId
  threadId : later.threadId = call.threadId
  toolCall : later.toolCall = call.toolCall

end

section

variable {py : Python} {sha256 : Sha256} {userId : String} {call later : WrappedCall}
  {result : ToolMessage} {errorMessage : Option String} {issued : Call → Prop} {i n : Nat}
  {r : ToolInvocation} {s : String}

/-- **What stands between the two messages**: the result's own id, name and status. -/
theorem Mirrors.eq_iff {message : ToolMessage} (h : Mirrors py call result message) :
    message = result ↔ result.toolCallId = orDefault call.toolCall.id "" ∧
      result.name = some (orDefault call.toolCall.name "unknown") ∧
      (result.status = .error ↔ Reports py result) := by
  constructor
  · intro he
    subst he
    exact ⟨h.toolCallId, h.name, h.status⟩
  · intro hr
    obtain ⟨hid, hname, hstatus⟩ := hr
    have hst : message.status = result.status := by
      have hiff := h.status.trans hstatus.symm
      cases hm : message.status with
      | error => exact (hiff.mp hm).symm
      | success =>
        cases hr : result.status with
        | success => rfl
        | error =>
          rw [hiff.mpr hr] at hm
          cases hm
    have hcontent := h.content
    have hid' := h.toolCallId.trans hid.symm
    have hname' := h.name.trans hname.symm
    obtain ⟨c, id, name, status⟩ := message
    obtain ⟨c', id', name', status'⟩ := result
    dsimp only at hcontent hid' hname' hst
    rw [hcontent, hid', hname', hst]

theorem orDefault_orDefault (value : Option String) (default : String) :
    orDefault value (orDefault value default) = orDefault value default := by
  cases value with
  | none => rfl
  | some v =>
    unfold orDefault
    by_cases hv : v = ""
    · simp only [hv, if_true]
    · simp only [hv, if_false]

/-- A text of at most `TOOL_STATE_PAYLOAD_MAX_CHARS` characters is stored as it is. -/
theorem storedContent_serializeToolResult (hcontent : result.content = .str s)
    (hs : s.length ≤ toolStatePayloadMaxChars) :
    storedContent (serializeToolResult sha256 result.result) = .str s := by
  have hsafe : safeJson sha256 toolStatePayloadMaxChars (toPy (.str s)) = .str s := by
    rw [toPy, safeJson, truncate_eq_self _ hs]
  unfold serializeToolResult ToolMessage.result
  rw [hcontent, hsafe]
  rfl

/-- The row of a finished call is turned into a message with the same content. -/
theorem Keeps.mirrors (h : Keeps sha256 userId call result errorMessage r)
    (herr : toolErrorMessage py result = .ok errorMessage) (hcontent : result.content = .str s)
    (hs : s.length ≤ toolStatePayloadMaxChars) :
    Mirrors py call result (existingInvocationMessage py call (claimSnapshot r false)) := by
  have hstatus := h.status
  have hended : (claimSnapshot r false).status = .succeeded ∨
      (claimSnapshot r false).status = .failed := by
    show r.status = _ ∨ r.status = _
    rw [hstatus]
    cases truthy errorMessage
    · exact .inl rfl
    · exact .inr rfl
  obtain ⟨-, -, hid, hname, -⟩ := h.presents
  have hstored : storedContent (claimSnapshot r false).output = .str s := by
    show storedContent r.output = _
    rw [h.output]
    exact storedContent_serializeToolResult hcontent hs
  unfold existingInvocationMessage
  rw [if_pos hended]
  refine ⟨?_, ?_, ?_, ?_⟩
  · show reusedContent py (claimSnapshot r false) = _
    unfold reusedContent
    rw [hstored, hcontent]
  · show orDefault call.toolCall.id r.toolCallId = _
    rw [hid, orDefault_orDefault]
  · show some (orDefault call.toolCall.name r.effectiveToolName) = _
    rw [hname, orDefault_orDefault]
  · show (if r.status = .failed then MessageStatus.error else .success) = .error ↔ _
    rw [hstatus]
    unfold Reports
    rw [herr]
    cases ht : truthy errorMessage
    · constructor
      · intro hf
        cases hf
      · intro hr
        obtain ⟨e, he, hte⟩ := hr
        cases he
        rw [ht] at hte
        cases hte
    · exact ⟨fun _ => ⟨errorMessage, rfl, ht⟩, fun _ => rfl⟩

/-- Reading the message again raises nothing, as reading the result has not. -/
theorem Mirrors.readable {message : ToolMessage} (h : Mirrors py call result message)
    (herr : toolErrorMessage py result = .ok errorMessage) :
    ∃ e, toolErrorMessage py message = .ok e := by
  have hparsed : ∃ parsed, parsedContent py result.content = .ok parsed := by
    unfold toolErrorMessage at herr
    cases hp : parsedContent py result.content with
    | ok parsed => exact ⟨parsed, rfl⟩
    | error text =>
      rw [hp] at herr
      cases herr
  obtain ⟨parsed, hp⟩ := hparsed
  unfold toolErrorMessage
  rw [h.content, hp]
  dsimp only
  cases reportedError parsed with
  | some value => exact ⟨_, rfl⟩
  | none =>
    by_cases hst : message.status = .error
    · exact ⟨_, if_pos hst⟩
    · exact ⟨_, if_neg hst⟩

/-- A claim of the row finds nothing to start. -/
theorem Keeps.ended (h : Keeps sha256 userId call result errorMessage r) :
    (decide (r.status ≠ .pending) && decide (r.status ≠ .approved)) = true := by
  rw [h.status]
  cases truthy errorMessage <;> rfl

theorem not_shouldExecute (r : ToolInvocation) : ¬(claimSnapshot r false).shouldExecute = true := by
  intro h
  cases h

/-- A call that comes again is accepted for the row. -/
theorem Keeps.again (h : Keeps sha256 userId call result errorMessage r)
    (hrep : Repeats later call) : Keeps sha256 userId later result errorMessage r := by
  refine ⟨?_, h.status, h.output, h.errorMessage⟩
  have hp := h.presents
  unfold claimCall at hp ⊢
  rw [hrep.threadId, hrep.toolCall]
  exact hp

/-! ## A claim of a finished call -/

/-- What may still go wrong with a later call: the database fails, or the thread has become
    somebody else's. -/
def Excuse (e : PyError) : Prop :=
  e = .databaseError ∨ e = .toolInvocationOwnershipError "无权访问该工具调用所属会话"

/-- A result on record stays there. -/
theorem stable_seesResult :
    (toolParty sha256 issued i (Others i) (Guar i)).Stable fun t =>
      Ready sha256 issued i t ∧ SeesResult sha256 userId call result errorMessage i n t :=
  stable_ready_others.and (stable_upward others_spec upward_seesResult)

theorem stable_readyExcuse (e : PyError) :
    (toolParty sha256 issued i (Others i) (Guar i)).Stable fun t =>
      Ready sha256 issued i t ∧ Excuse e :=
  stable_ready_others.and (Party.Stable.pure _)

/-- The row stands under the key of the call. -/
theorem Keeps.key (h : Keeps sha256 userId call result errorMessage r)
    (hw : r.WellFormed sha256 issued n) : r.userId = userId ∧ r.idempotencyKey =
      invocationIdempotencyKey sha256 userId call.threadId (orDefault call.toolCall.id "") := by
  obtain ⟨hu, hthread, hid, -, -⟩ := h.presents
  refine ⟨hu, ?_⟩
  rw [hw.key, hu, hthread, hid]

/-- The row with the result is the only one that does. -/
theorem SeesResult.slot {t : Tracked} {m : Nat}
    (h : SeesResult sha256 userId call result errorMessage i n t) (hi : Inv sha256 issued t)
    (hr : (t.store.slot m).invocation.view i = some r) (hu : r.userId = userId)
    (hk : r.idempotencyKey = invocationIdempotencyKey sha256 userId call.threadId
      (orDefault call.toolCall.id "")) :
    m = n ∧ Keeps sha256 userId call result errorMessage r := by
  obtain ⟨r₀, hr₀, hkeep⟩ := h
  obtain ⟨hu₀, hk₀⟩ := hkeep.key ((hi.slots n).view_wf hr₀)
  have hmn : m = n := hi.slot_eq hr hr₀ (hu.trans hu₀.symm) (hk.trans hk₀.symm)
  subst hmn
  rw [hr₀, Option.some.injEq] at hr
  subst hr
  exact ⟨rfl, hkeep⟩

theorem SeesResult.findSlot {t : Tracked}
    (h : SeesResult sha256 userId call result errorMessage i n t) (hi : Inv sha256 issued t) :
    ∃ r, t.store.findSlot (Slot.seesInvocation i userId (invocationIdempotencyKey sha256 userId
        call.threadId (orDefault call.toolCall.id ""))) = some n ∧
      (t.store.slot n).invocation.view i = some r ∧
      Keeps sha256 userId call result errorMessage r := by
  have hall := h
  obtain ⟨r₀, hr₀, hkeep⟩ := h
  obtain ⟨hu₀, hk₀⟩ := hkeep.key ((hi.slots n).view_wf hr₀)
  have hsees := Slot.seesInvocation_iff.mpr ⟨r₀, hr₀, hu₀, hk₀⟩
  cases hfind : t.store.findSlot (Slot.seesInvocation i userId (invocationIdempotencyKey sha256
      userId call.threadId (orDefault call.toolCall.id ""))) with
  | none =>
    have hno := Store.findSlot_eq_none hfind (hi.lt_next hr₀)
    rw [hsees] at hno
    cases hno
  | some m =>
    obtain ⟨r, hr, hu, hk⟩ := Slot.seesInvocation_iff.mp (Store.findSlot_eq_some hfind).2
    obtain ⟨rfl, hkeep'⟩ := hall.slot hi hr hu hk
    exact ⟨r, rfl, hr, hkeep'⟩

end

section

variable {py : Python} {sha256 : Sha256} {userId : String} {call : WrappedCall}
  {result : ToolMessage} {errorMessage : Option String} {issued : Call → Prop} {i n : Nat}
  {s : String}

variable (sha256) (userId) (call) (result) (errorMessage) (issued) (i) (n) in
/-- The row of slot `n`, as `_ensure_invocation` hands it to a later call -/
def HandedBack (r : ToolInvocation) (t : Tracked) : Prop :=
  (Keeps sha256 userId call result errorMessage r ∧ r.id = n) ∧ Ready sha256 issued i t ∧
    SeesResult sha256 userId call result errorMessage i n t

theorem stable_handedBack (r : ToolInvocation) :
    (toolParty sha256 issued i (Others i) (Guar i)).Stable
      (HandedBack sha256 userId call result errorMessage issued i n r) :=
  (Party.Stable.pure _).and stable_seesResult

/-- The run id of the later call is filled in where there is none. -/
theorem spec_fillRuntimeRunId (r : ToolInvocation) (now : Nat) :
    (toolParty sha256 issued i (Others i) (Guar i)).Spec
      (HandedBack sha256 userId call result errorMessage issued i n r)
      (fillRuntimeRunId r call.runtimeRunId now)
      (HandedBack sha256 userId call result errorMessage issued i n)
      fun e t => Ready sha256 issued i t ∧ Excuse e := by
  unfold fillRuntimeRunId
  by_cases hfill : (!truthy r.runtimeRunId && truthy call.runtimeRunId) = true
  · rw [if_pos hfill]
    refine Party.Spec.bind (M := fun _ => HandedBack sha256 userId call result errorMessage issued i n
      { r with runtimeRunId := call.runtimeRunId, updatedAt := now })
      (spec_flush stable_readyExcuse quiet_guar (stable_handedBack r) (stable_handedBack _)
        (fun _ _ h => ⟨h.2.1, .inl rfl⟩) ?_ ?_) fun _ =>
          Party.Spec.pure (stable_handedBack _) fun _ _ h => h
    · rintro t hi ⟨⟨-, hid⟩, -, r', hr', -⟩
      exact ⟨r', by rw [hid, hr']⟩
    · rintro t r' hi ⟨⟨hkeep, hid⟩, hready, hsees⟩ hr'
      have he : r'.Evolves { r' with runtimeRunId := call.runtimeRunId, updatedAt := now } :=
        .fill r' call.runtimeRunId now
      refine ⟨he, ((hi.slots r.id).view_wf hr').fill call.runtimeRunId now, rfl,
        ⟨hkeep.evolves (.fill r call.runtimeRunId now), hid⟩, ?_, ?_⟩
      · exact hready.putInvocation hi hr' fun a => Coupled.fill _ _
      · exact upward_seesResult _ _ (.putInvocation hr' he) hsees
  · rw [if_neg hfill]
    exact Party.Spec.pure (stable_handedBack r) fun _ _ h => h

/-- **`_ensure_invocation` finds the row with the result.** -/
theorem spec_ensureInvocation_kept (hissued : issued (claimCall userId call))
    (hvalid : ValidIdentity call.threadId call.runtimeRunId (orDefault call.toolCall.id "")) :
    (toolParty sha256 issued i (Others i) (Guar i)).Spec
      (fun t => Ready sha256 issued i t ∧
        SeesResult sha256 userId call result errorMessage i n t)
      (ensureInvocation sha256 userId call.threadId call.runtimeRunId
        (orDefault call.toolCall.id "") (orDefault call.toolCall.name "unknown")
        call.toolCall.args.asMapping false true)
      (HandedBack sha256 userId call result errorMessage issued i n)
      fun e t => Ready sha256 issued i t ∧ Excuse e := by
  have hE : ∀ e, (toolParty sha256 issued i (Others i) (Guar i)).Stable fun t =>
      Ready sha256 issued i t ∧ Excuse e := stable_readyExcuse
  have hP : (toolParty sha256 issued i (Others i) (Guar i)).Stable fun t =>
      Ready sha256 issued i t ∧ SeesResult sha256 userId call result errorMessage i n t :=
    stable_seesResult
  unfold ensureInvocation
  refine Party.Spec.bind (spec_validateIdentity hP fun hv => absurd hvalid hv) fun _ =>
    Party.Spec.pure_pre fun _ => ?_
  refine Party.Spec.bind (spec_utcnow hP quiet_guar) fun now => ?_
  refine Party.Spec.bind (spec_conversationIdForUser hE quiet_guar hP
    (fun _ _ h => ⟨h.1, .inl rfl⟩) fun _ _ h _ => ⟨h.1, .inr rfl⟩)
      fun conversationId => ?_
  -- the key is taken, and nothing is inserted
  refine Party.Spec.bind (M := fun _ t => Ready sha256 issued i t ∧
      SeesResult sha256 userId call result errorMessage i n t)
    (spec_insertInvocation hP (fun _ => hP) hE quiet_guar (fun _ _ h => ⟨h.1, .inl rfl⟩)
      (newInvocation_wf (fun r hr => ⟨_, hissued, hr⟩) hvalid conversationId now) rfl
      (fun _ _ _ _ h _ _ _ => h) fun t hi h hnone => ?_) fun _ => ?_
  · obtain ⟨r, hfind, -⟩ := h.2.findSlot hi
    exact absurd (hnone.symm.trans hfind) (by simp)
  refine Party.Spec.bind (M := fun o t => ∃ r, o = some r ∧
      HandedBack sha256 userId call result errorMessage issued i n r t)
    (spec_read (fun _ s => (s.findSlot (Slot.seesInvocation i userId (invocationIdempotencyKey
        sha256 userId call.threadId (orDefault call.toolCall.id "")))).bind fun m =>
          (s.slot m).invocation.view i) (fun _ _ => rfl) hP
      (fun _ => Party.Stable.exists fun r => (Party.Stable.pure _).and (stable_handedBack r)) hE
      quiet_guar (fun _ _ h => ⟨h.1, .inl rfl⟩) fun t _ hi h => ?_) fun o => ?_
  · obtain ⟨r, hfind, hr, hkeep⟩ := h.2.findSlot hi
    refine ⟨r, ?_, ⟨hkeep, hi.view_at hr⟩, h⟩
    rw [hfind]
    exact hr
  refine Party.Spec.exists_pre fun r => Party.Spec.pure_pre fun ho => ?_
  subst ho
  refine Party.Spec.bind (spec_raiseIf (stable_handedBack r) fun hc t _ h => ?_) fun _ =>
    Party.Spec.pure_pre fun _ => ?_
  · -- the row is one for the call
    obtain ⟨-, hthread, hid, hname, hinput⟩ := h.1.1.presents
    simp [effectivePayloadMatches, hthread, hid, hname, hinput] at hc
  refine Party.Spec.bind (spec_fillRuntimeRunId r now) fun r' => ?_
  exact Party.Spec.pure (stable_handedBack r') fun _ _ h => h

variable (sha256) (userId) (call) (result) (errorMessage) (i) in
/-- What a session knows when its claim has been answered with the result -/
def AnsweredFrom (claim : ToolInvocationClaim) (t : Tracked) : Prop :=
  Idle i t ∧ ∃ r, Keeps sha256 userId call result errorMessage r ∧ claim = claimSnapshot r false

theorem stable_answeredFrom (claim : ToolInvocationClaim) :
    (toolParty sha256 issued i (Others i) (Guar i)).Stable
      (AnsweredFrom sha256 userId call result errorMessage i claim) :=
  stable_idle_others.and (Party.Stable.pure _)

theorem spec_tryClaim_kept (hissued : issued (claimCall userId call))
    (hvalid : ValidIdentity call.threadId call.runtimeRunId (orDefault call.toolCall.id "")) :
    (toolParty sha256 issued i (Others i) (Guar i)).Spec
      (fun t => Ready sha256 issued i t ∧
        SeesResult sha256 userId call result errorMessage i n t)
      (tryClaim sha256 userId call.threadId call.runtimeRunId (orDefault call.toolCall.id "")
        (orDefault call.toolCall.name "unknown") call.toolCall.args.asMapping)
      (fun o t => ∃ claim, o = some claim ∧
        AnsweredFrom sha256 userId call result errorMessage i claim t)
      fun e t => Ready sha256 issued i t ∧ Excuse e := by
  have hE : ∀ e, (toolParty sha256 issued i (Others i) (Guar i)).Stable fun t =>
      Ready sha256 issued i t ∧ Excuse e := stable_readyExcuse
  have hS : (toolParty sha256 issued i (Others i) (Guar i)).Stable fun t =>
      Idle i t ∧ SeesResult sha256 userId call result errorMessage i n t :=
    stable_idle_others.and (stable_upward others_spec upward_seesResult)
  unfold tryClaim
  refine Party.Spec.bind (spec_ensureInvocation_kept hissued hvalid) fun r => ?_
  refine (Party.Spec.pure_pre (φ := Keeps sha256 userId call result errorMessage r ∧ r.id = n)
    fun hr => ?_).pre fun _ _ h => ⟨h.1, h⟩
  obtain ⟨hkeep, hid⟩ := hr
  obtain ⟨-, -, -, hname, hinput⟩ := hkeep.presents
  refine Party.Spec.bind (spec_raiseIf (stable_handedBack r) fun hc => ?_) fun _ =>
    Party.Spec.pure_pre fun _ => ?_
  · simp [hname, hinput] at hc
  rw [if_pos hkeep.ended]
  refine Party.Spec.bind (M := fun _ t => Idle i t ∧
      SeesResult sha256 userId call result errorMessage i n t)
    (spec_commit (stable_handedBack r) (fun _ => hS) hE quiet_guar (fun _ _ h => ⟨h.2.1, .inl rfl⟩)
      (fun _ _ h => h.2.1) fun t g _ h hg hidle _ =>
        ⟨hg, hidle, upward_seesResult _ _ (.commit g) h.2.2⟩) fun _ => ?_
  refine Party.Spec.bind (M := fun o t => ∃ current, o = some current ∧
      AnsweredFrom sha256 userId call result errorMessage i (claimSnapshot current false) t)
    (spec_read (fun _ s => (s.slot r.id).invocation.view i) (fun _ _ => rfl) hS
      (fun _ => Party.Stable.exists fun current =>
        (Party.Stable.pure _).and (stable_answeredFrom _)) hE quiet_guar
      (fun _ _ h => ⟨h.1.ready, .inl rfl⟩) fun t _ _ h => ?_) fun o => ?_
  · obtain ⟨hidle, current, hcurrent, hkeep'⟩ := h
    refine ⟨current, ?_, hidle, current, hkeep', rfl⟩
    rw [hid]
    exact hcurrent
  · refine Party.Spec.exists_pre fun current => Party.Spec.pure_pre fun ho => ?_
    subst ho
    exact Party.Spec.pure (stable_answeredFrom _) fun _ _ h => ⟨_, rfl, h⟩

/-- The claim of a later call is answered from the row. -/
theorem spec_prepareToolCall_kept (hissued : issued (claimCall userId call))
    (hvalid : ValidIdentity call.threadId call.runtimeRunId (orDefault call.toolCall.id "")) :
    (toolParty sha256 issued i (Others i) (Guar i)).Spec
      (fun t => Idle i t ∧ SeesResult sha256 userId call result errorMessage i n t)
      (prepareToolCall sha256 userId call)
      (AnsweredFrom sha256 userId call result errorMessage i)
      fun e t => Idle i t ∧ Excuse e := by
  have hE : ∀ e, (toolParty sha256 issued i (Others i) (Guar i)).Stable fun t =>
      Ready sha256 issued i t ∧ Excuse e := stable_readyExcuse
  have hF : ∀ e, (toolParty sha256 issued i (Others i) (Guar i)).Stable fun t =>
      Idle i t ∧ Excuse e := fun _ => stable_idle_others.and (Party.Stable.pure _)
  unfold prepareToolCall HumanInTheLoop.claimToolCall claimToolInvocation
  refine spec_rollbackOnError quiet_guar hE hF ?_ fun _ _ _ h hidle _ => ⟨hidle, h.2⟩
  refine Party.Spec.bind (M := AnsweredFrom sha256 userId call result errorMessage i) ?_
    fun claim => ?_
  · refine Party.Spec.bind ((spec_rollbackOnError quiet_guar hE hE
      (spec_tryClaim_kept hissued hvalid) fun _ _ _ h hidle _ => ⟨hidle.ready, h.2⟩).pre
        fun _ _ h => ⟨h.1.ready, h.2⟩) fun o => ?_
    refine Party.Spec.exists_pre fun claim => Party.Spec.pure_pre fun ho => ?_
    subst ho
    exact Party.Spec.pure (stable_answeredFrom claim) fun _ _ h => h
  · refine Party.Spec.bind (M := fun _ => AnsweredFrom sha256 userId call result errorMessage i
      claim) (spec_commit (stable_answeredFrom claim) (fun _ => stable_answeredFrom claim) hE
        quiet_guar (fun _ _ h => ⟨h.1.ready, .inl rfl⟩) (fun _ _ h => h.1.ready)
        fun _ _ _ h hg hidle _ => ⟨hg, hidle, h.2⟩) fun _ =>
          Party.Spec.pure (stable_answeredFrom claim) fun _ _ h => h

/-- The message is built from the row, and the tool does not run. -/
def Reused (py : Python) (call : WrappedCall) (result : ToolMessage) (answer : Answer) : Prop :=
  answer.handlerRan = false ∧ Mirrors py call result answer.message

theorem spec_answerClaim_kept {other : ToolMessage} {r : ToolInvocation}
    (hkeep : Keeps sha256 userId call result errorMessage r)
    (herr : toolErrorMessage py result = .ok errorMessage) (hcontent : result.content = .str s)
    (hs : s.length ≤ toolStatePayloadMaxChars) :
    (toolParty sha256 issued i (Others i) (Guar i)).Spec (Idle i)
      (answerClaim py sha256 call other (claimSnapshot r false))
      (fun answer t => Reused py call result answer ∧ Idle i t)
      fun e t => Ready sha256 issued i t ∧ Excuse e := by
  have hmirrors : Mirrors py call result
      (existingInvocationMessage py call (claimSnapshot r false)) := hkeep.mirrors herr hcontent hs
  obtain ⟨e, hread⟩ := hmirrors.readable herr
  unfold answerClaim
  rw [if_neg (not_shouldExecute r)]
  refine Party.Spec.bind (spec_finishToolCall_none stable_idle_others stable_readyExcuse
    (fun _ h => h.ready) ?_ fun _ h => ⟨h.ready, .inl rfl⟩) fun recorded => ?_
  · intro text t hraise _
    rw [hread] at hraise
    cases hraise
  · exact Party.Spec.pure ((Party.Stable.pure _).and stable_idle_others) fun _ _ h =>
      ⟨⟨rfl, hmirrors⟩, h.2⟩

theorem spec_runClaim_kept {other : ToolMessage} (hissued : issued (claimCall userId call))
    (hvalid : ValidIdentity call.threadId call.runtimeRunId (orDefault call.toolCall.id ""))
    (herr : toolErrorMessage py result = .ok errorMessage) (hcontent : result.content = .str s)
    (hs : s.length ≤ toolStatePayloadMaxChars) :
    (toolParty sha256 issued i (Others i) (Guar i)).Spec
      (fun t => Idle i t ∧ SeesResult sha256 userId call result errorMessage i n t)
      (runClaim py sha256 userId call other)
      (fun answer _ => Reused py call result answer) fun e _ => Excuse e := by
  have hE : ∀ e, (toolParty sha256 issued i (Others i) (Guar i)).Stable fun t =>
      Ready sha256 issued i t ∧ Excuse e := stable_readyExcuse
  have hX : ∀ e, (toolParty sha256 issued i (Others i) (Guar i)).Stable fun _ => Excuse e :=
    fun _ => Party.Stable.pure _
  have hQ : ∀ answer, (toolParty sha256 issued i (Others i) (Guar i)).Stable fun t =>
      Reused py call result answer ∧ Idle i t := fun _ =>
    (Party.Stable.pure _).and stable_idle_others
  unfold runClaim
  refine Party.Spec.bind ((spec_prepareToolCall_kept hissued hvalid).conseq (fun _ _ h => h)
    (fun _ _ _ h => h) fun _ _ _ h => h.2) fun claim => ?_
  refine (Party.Spec.exists_pre fun r => Party.Spec.pure_pre (φ := Keeps sha256 userId call result
    errorMessage r ∧ claim = claimSnapshot r false) fun hr => ?_).pre
      fun _ _ h => ⟨h.2.choose, h.2.choose_spec, h.1⟩
  obtain ⟨hkeep, rfl⟩ := hr
  refine Party.Spec.bind (spec_rollbackOnError quiet_guar hE hX
    (Party.Spec.handle (spec_answerClaim_kept hkeep herr hcontent hs) fun e => ?_)
      fun _ _ _ h _ _ => h.2) fun answer => ?_
  · -- the span is marked as failed
    refine (Party.Spec.pure_pre (φ := Excuse e) fun he => ?_).pre fun _ _ h => ⟨h.2, h.1⟩
    refine Party.Spec.bind ((spec_failTrace userId call).conseq
      (fun _ _ h => ⟨h, fun hx => absurd hx (not_shouldExecute r)⟩) (fun _ _ _ h => h)
        fun _ _ _ h => ⟨h.2, .inl h.1⟩) fun _ => ?_
    exact Party.Spec.throw stable_idle_others fun _ _ h => ⟨h.ready, he⟩
  · refine Party.Spec.bind (M := fun _ _ => Reused py call result answer)
      (spec_rollback (hQ answer) (fun _ => Party.Stable.pure _) quiet_guar
        fun _ _ h _ _ => h.1) fun _ => Party.Spec.pure (Party.Stable.pure _) fun _ _ h => h

/-- **A later call among any other sessions**: whatever it returns, the tool has not run. -/
theorem spec_wrapToolCall_kept {other : ToolMessage} (hissued : issued (claimCall userId call))
    (hvalid : ValidIdentity call.threadId call.runtimeRunId (orDefault call.toolCall.id ""))
    (herr : toolErrorMessage py result = .ok errorMessage) (hcontent : result.content = .str s)
    (hs : s.length ≤ toolStatePayloadMaxChars) (huser : call.userId = some userId)
    (hviolation : call.violation = none) :
    (toolParty sha256 issued i (Others i) (Guar i)).Spec
      (fun t => Idle i t ∧ SeesResult sha256 userId call result errorMessage i n t)
      (wrapToolCall py sha256 call other)
      (fun answer _ => Reused py call result answer ∨ answer.handlerRan = false ∧
        answer.message = toolFailureMessage py call "无权访问该工具调用所属会话")
      fun e _ => e = .databaseError := by
  unfold wrapToolCall
  rw [huser]
  dsimp only
  rw [hviolation]
  dsimp only
  refine Party.Spec.handle ((spec_runClaim_kept hissued hvalid herr hcontent hs).post
    fun _ _ _ h => .inl h) fun e => ?_
  refine (Party.Spec.pure_pre (φ := Excuse e) (P := fun _ => True) fun he => ?_).pre
    fun _ _ h => ⟨h, trivial⟩
  rcases he with rfl | rfl
  · exact Party.Spec.throw (Party.Stable.pure _) fun _ _ _ => rfl
  · exact Party.Spec.pure (Party.Stable.pure _) fun _ _ _ => .inr ⟨rfl, rfl⟩

end

/-! ## A later call that nobody disturbs -/

section

variable {py : Python} {sha256 : Sha256} {userId : String} {call : WrappedCall}
  {result : ToolMessage} {errorMessage : Option String} {i : Nat} {s : Store} {text : String}

/-- The row is accepted for the call without a conflict. -/
theorem Keeps.accepts {r : ToolInvocation} (h : Keeps sha256 userId call result errorMessage r) :
    Accepts sha256 call.threadId (orDefault call.toolCall.id "")
      (orDefault call.toolCall.name "unknown")
      (jsonObject sha256 (.mapping call.toolCall.args.asMapping)) true r := by
  obtain ⟨-, hthread, hid, hname, hinput⟩ := h.presents
  refine ⟨hthread, hid, ?_⟩
  simp only [effectivePayloadMatches, hname, hinput, decide_true, Bool.and_self, Bool.or_true]

theorem completes_claimRow_kept {r : ToolInvocation} {a : Option Approval} {key : String}
    (h : Orderly i s) (hf : HyChat.Found i userId key s r a)
    (hkeep : Keeps sha256 userId call result errorMessage r)
    {Q : Option ToolInvocationClaim → Store → Prop}
    (hQ : ∀ s', Orderly i s' → Q (some (claimSnapshot r false)) s') :
    Completes i (claimRow sha256 userId (orDefault call.toolCall.name "unknown")
      call.toolCall.args.asMapping r) Q s := by
  obtain ⟨-, -, -, hname, hinput⟩ := hkeep.presents
  unfold claimRow
  apply Machine.Returns.bind
  apply completes_raiseIf
  · rw [hname, hinput]
    simp
  rw [if_pos hkeep.ended]
  obtain ⟨h', -⟩ := h.commit userId key
  apply Machine.Returns.bind
  apply completes_commit
  apply Machine.Returns.bind
  apply completes_getInvocation hf.commit
  exact Machine.Returns.pure (hQ _ h')

theorem completes_prepareToolCall_kept {r : ToolInvocation} {a : Option Approval}
    (hvalid : ValidIdentity call.threadId call.runtimeRunId (orDefault call.toolCall.id ""))
    (hforeign : ¬Foreign userId call.threadId s) (h : Orderly i s)
    (hf : HyChat.Found i userId (invocationIdempotencyKey sha256 userId call.threadId
      (orDefault call.toolCall.id "")) s r a)
    (hkeep : Keeps sha256 userId call result errorMessage r)
    {Q : ToolInvocationClaim → Store → Prop}
    (hQ : ∀ r' s', Keeps sha256 userId call result errorMessage r' →
      Q (claimSnapshot r' false) s') :
    Completes i (prepareToolCall sha256 userId call) Q s := by
  have hpending : r.status ≠ .pending := by
    rw [hkeep.status]
    cases truthy errorMessage <;> simp
  unfold prepareToolCall HumanInTheLoop.claimToolCall
  apply completes_rollbackOnError
  apply Machine.Returns.bind
  rw [claimToolInvocation_eq]
  apply Machine.Returns.bind
  apply completes_rollbackOnError
  apply Machine.Returns.bind
  apply completes_ensureInvocation_found hvalid hforeign h hf hkeep.accepts hpending
  intro r' s' h' _ hf' hsame
  -- a run id may have been filled in
  have hkeep' : Keeps sha256 userId call result errorMessage r' := by
    rw [hsame]
    exact hkeep.evolves (.fill r r'.runtimeRunId r'.updatedAt)
  apply completes_claimRow_kept h' hf' hkeep'
  intro s'' _
  apply Machine.Returns.pure
  apply Machine.Returns.bind
  apply completes_commit
  exact Machine.Returns.pure (hQ r' _ hkeep')

/-- **A later call that nobody disturbs returns the result.** -/
theorem completes_wrapToolCall_kept {other : ToolMessage} {r : ToolInvocation} {a : Option Approval}
    (hvalid : ValidIdentity call.threadId call.runtimeRunId (orDefault call.toolCall.id ""))
    (hforeign : ¬Foreign userId call.threadId s) (h : Orderly i s)
    (hf : HyChat.Found i userId (invocationIdempotencyKey sha256 userId call.threadId
      (orDefault call.toolCall.id "")) s r a)
    (hkeep : Keeps sha256 userId call result errorMessage r)
    (herr : toolErrorMessage py result = .ok errorMessage) (hcontent : result.content = .str text)
    (hlength : text.length ≤ toolStatePayloadMaxChars) (huser : call.userId = some userId)
    (hviolation : call.violation = none) :
    Completes i (wrapToolCall py sha256 call other)
      (fun answer _ => Reused py call result answer) s := by
  unfold wrapToolCall
  rw [huser]
  dsimp only
  rw [hviolation]
  dsimp only
  apply Machine.Returns.tryCatch
  unfold runClaim
  apply Machine.Returns.bind
  apply completes_prepareToolCall_kept hvalid hforeign h hf hkeep
  intro r' s' hkeep'
  have hmirrors : Mirrors py call result
      (existingInvocationMessage py call (claimSnapshot r' false)) :=
    hkeep'.mirrors herr hcontent hlength
  obtain ⟨e, hread⟩ := hmirrors.readable herr
  apply Machine.Returns.bind
  apply completes_rollbackOnError
  apply Machine.Returns.tryCatch
  unfold answerClaim
  rw [if_neg (not_shouldExecute r')]
  apply Machine.Returns.bind
  unfold finishToolCall
  rw [hread]
  apply Machine.Returns.bind
  apply Machine.Returns.pure
  apply Machine.Returns.bind
  apply Machine.Returns.pure
  apply Machine.Returns.bind
  apply completes_commit
  apply Machine.Returns.pure
  apply Machine.Returns.pure
  apply Machine.Returns.bind
  apply completes_rollback
  exact Machine.Returns.pure ⟨rfl, hmirrors⟩

end

/-! ## The first call and a later one -/

section

variable {py : Python} {sha256 : Sha256} {call later : WrappedCall} {result : ToolMessage}
  {i j : Nat} {text : String}

/-- What a call that has run the tool leaves for all that comes after it -/
theorem onRecord_of_wrapToolCall {conversation : String → Option Conversation}
    {calls : Nat → List Call} {c c₁ c₂ : Config toolSig Store Nat} {tr : List (Store × Store)}
    {first : Answer} (hrun : toolDb.Steps (start sha256 conversation calls) c)
    (hprog : c.prog i = .ret ()) (hidle : c.store.idle i = true)
    (hfirst : toolDb.Exec i (wrapToolCall py sha256 call result).attempt c tr (.ok first) c₁)
    (hsteps : toolDb.Steps c₁ c₂) :
    (first.handlerRan = true → first.message = result) ∧
      ∃ t, (toolFamily sha256 fun _ => True).Good c₂ t ∧
        (first.recorded = true → ∃ u, call.userId = some u ∧ OnRecord py sha256 u call result t) := by
  obtain ⟨t, hgood⟩ := reachable_good (fun _ => True) (fun _ _ _ => trivial) hrun
  have hidle' : Idle i t := by
    have hreal : t.store = c.store := hgood.real
    unfold Idle
    rw [hreal]
    exact (Store.idle_iff hgood).mp hidle
  have hspec : (toolParty sha256 (fun _ => True) i (Others i) (Guar i)).Spec (Idle i)
      (wrapToolCall py sha256 call result) _ _ := spec_wrapToolCall fun _ => trivial
  obtain ⟨t₁, hgood₁, hpost, -, -⟩ := Machine.Family.GoodBut.exec (G := Guar i) (fun _ _ h => h)
    hfirst t (hgood.mono fun _ h => h.elim) fun t' ht => hspec t hgood.inv hidle' t' ht
  obtain ⟨hmessage, hrecord⟩ := hpost
  -- the session of the call has nothing else to do
  have hall : (toolFamily sha256 fun _ => True).Good c₁ t₁ := by
    refine ⟨hgood₁.real, hgood₁.inv, fun k _ t' ht => ?_⟩
    by_cases hk : k = i
    · subst hk
      rw [hfirst.prog_self, hprog]
      trivial
    · exact hgood₁.safe k hk t' ht
  obtain ⟨t₂, hgood₂, hmoves⟩ := hall.steps hsteps
  refine ⟨hmessage, t₂, hgood₂, fun hrec => ?_⟩
  obtain ⟨u, hu, n, r, e, hr, he, hkeep⟩ := hrecord hrec
  obtain ⟨r', hr', hev⟩ := (moves_later hgood₁.inv hmoves n).1 r hr
  exact ⟨u, hu, n, r', e, hr', he, hkeep.evolves hev⟩

/-- **A later call returns the first result.** A call of the wrapper, in a session of its own, has
    run the tool, which has returned a text of at most 200000 characters; other sessions have moved
    before, during and after the call, and none has finished its invocation. Then a later call with
    the same user, thread, id, name and arguments, to which the policy has no objection, never runs
    the tool. Among any other sessions it returns a message with the same content, the id and the
    name of the call, and the status `_tool_error_message` has found, unless the database fails or
    the thread has become somebody else's; undisturbed it returns that message. The message is the
    first one exactly when that has the call's id and name and the status it reports. -/
theorem replay_returns_first {conversation : String → Option Conversation}
    {calls : Nat → List Call} {c c₁ c₂ : Config toolSig Store Nat} {tr : List (Store × Store)}
    {first : Answer} (hrun : toolDb.Steps (start sha256 conversation calls) c)
    (hprog : c.prog i = .ret ()) (hidle : c.store.idle i = true)
    (hfirst : toolDb.Exec i (wrapToolCall py sha256 call result).attempt c tr (.ok first) c₁)
    (hran : first.handlerRan = true) (hrecorded : first.recorded = true)
    (hcontent : result.content = .str text) (hlength : text.length ≤ 200000)
    (hsteps : toolDb.Steps c₁ c₂) (hrepeats : Repeats later call)
    (hrunId : ∀ id, later.runtimeRunId = some id → id.length ≤ 128)
    (hviolation : later.violation = none) (hidle' : c₂.store.idle j = true) (other : ToolMessage) :
    first.message = result ∧
    (∀ tr' outcome c₃, toolDb.Exec j (wrapToolCall py sha256 later other).attempt c₂ tr' outcome c₃ →
      outcome = .error .databaseError ∨ ∃ answer, outcome = .ok answer ∧
        answer.handlerRan = false ∧ (Mirrors py later result answer.message ∨
          answer.message = toolFailureMessage py later "无权访问该工具调用所属会话")) ∧
    ((∀ k, c₂.store.idle k = true) →
      (∀ u, later.userId = some u → ¬Foreign u later.threadId c₂.store) →
      Completes j (wrapToolCall py sha256 later other) (fun answer _ =>
        answer.handlerRan = false ∧ Mirrors py later result answer.message) c₂.store) ∧
    (∀ message, Mirrors py later result message →
      (message = result ↔ result.toolCallId = orDefault later.toolCall.id "" ∧
        result.name = some (orDefault later.toolCall.name "unknown") ∧
        (result.status = .error ↔ Reports py result))) := by
  obtain ⟨hmessage, t, hgood, hrecord⟩ :=
    onRecord_of_wrapToolCall hrun hprog hidle hfirst hsteps
  obtain ⟨u, hu, n, r, e, hr, herr, hkeep⟩ := hrecord hrecorded
  have hreal : t.store = c₂.store := hgood.real
  have hj : Idle j t := by
    unfold Idle
    rw [hreal]
    exact (Store.idle_iff hgood).mp hidle'
  have hkeep' : Keeps sha256 u later result e r := hkeep.again hrepeats
  have huser : later.userId = some u := hrepeats.userId.trans hu
  -- the row has passed the checks of the first call
  have hvalid : ValidIdentity later.threadId later.runtimeRunId (orDefault later.toolCall.id "") := by
    have hw := (hgood.inv.slots n).committed_wf r hr
    obtain ⟨-, hthread, hid, -, -⟩ := hkeep'.presents
    refine ⟨?_, hrunId, ?_, ?_⟩
    · rw [← hthread]
      exact hw.threadId
    · rw [← hid]
      exact hw.toolCallId.1
    · rw [← hid]
      exact hw.toolCallId.2
  refine ⟨hmessage hran, ?_, ?_, fun message h => h.eq_iff⟩
  · intro tr' outcome c₃ hexec
    have hsees : SeesResult sha256 u later result e j n t :=
      ⟨r, by rw [Cell.view_of_not_own (hj n).1, hr], hkeep'⟩
    have hspec : (toolParty sha256 (fun _ => True) j (Others j) (Guar j)).Spec
        (fun t => Idle j t ∧ SeesResult sha256 u later result e j n t)
        (wrapToolCall py sha256 later other) _ _ :=
      spec_wrapToolCall_kept trivial hvalid herr hcontent hlength huser hviolation
    obtain ⟨t₃, -, hpost, -, -⟩ := Machine.Family.GoodBut.exec (G := Guar j) (fun _ _ h => h) hexec t
      (hgood.mono fun _ h => h.elim) fun t' ht => hspec t hgood.inv ⟨hj, hsees⟩ t' ht
    cases outcome with
    | error e' =>
      left
      have he : e' = .databaseError := hpost
      rw [he]
    | ok answer =>
      right
      rcases hpost with h | h
      · exact ⟨answer, rfl, h.1, .inl h.2⟩
      · exact ⟨answer, rfl, h.1, .inr h.2⟩
  · intro hnobody hforeign
    have horderly : Orderly j t.store := by
      apply HumanInTheLoop.orderly_of_inv hgood.inv
      intro k n
      rw [hreal]
      exact (Store.idle_iff hgood).mp (hnobody k) n
    have hw := (hgood.inv.slots n).committed_wf r hr
    obtain ⟨hru, hkey⟩ := hkeep'.key hw
    have hf : HyChat.Found j u (invocationIdempotencyKey sha256 u later.threadId
        (orDefault later.toolCall.id "")) t.store r (t.store.app j r.id) := by
      refine ⟨hru, hkey, ?_, rfl⟩
      unfold Store.inv
      rw [hw.id, Cell.view_of_not_own (hj n).1, hr]
    rw [← hreal] at hforeign ⊢
    exact completes_wrapToolCall_kept hvalid (hforeign u huser) horderly hf hkeep' herr hcontent
      hlength huser hviolation

end

/-! ## Two searches -/

/-- `json.loads` on the texts below, and `json.dumps` of an error -/
def plainPython : Python where
  loads text :=
    if text = "\x7b\"error\": \"timeout\"\x7d" then .value (.obj [("error", .str "timeout")])
    else .decodeError
  str value := value.dumps
  dumps
    | .obj [("error", .str message)] => "\x7b\"error\": \"" ++ message ++ "\"\x7d"
    | value => value.dumps

def searchCall : WrappedCall :=
  ⟨some "user", some "thread", none, ⟨some "call", some "search", .mapping []⟩, none, "uuid"⟩

def searchResult (text : String) : ToolMessage := ⟨.str text, "call", some "search", .success⟩

/-- The run that answers, as far as the check looks at it -/
def answers (check : Answer → Store → Bool) : Option (Except PyError Answer × Store) → Bool
  | some (.ok answer, s) => check answer s
  | _ => false

theorem exists_solo_of_answers {x : Db Answer} {check : Answer → Store → Bool} {i : Nat} {s : Store}
    {choices : List Choice} (h : answers check (toolDb.solo i x.attempt choices s) = true) :
    ∃ answer s', toolDb.Solo i x.attempt s (.ok answer) s' ∧ check answer s' = true := by
  cases hs : toolDb.solo i x.attempt choices s with
  | none =>
    rw [hs] at h
    cases h
  | some p =>
    obtain ⟨outcome, s'⟩ := p
    rw [hs] at h
    cases outcome with
    | error e => cases h
    | ok answer => exact ⟨answer, s', Machine.Solo.of_solo toolDb _ _ hs, h⟩

def noFaults : List Choice := List.replicate 30 ⟨false, 0⟩

/-- A message of another call's id, without a name, that reports an error under the status
    `success` -/
def timedOut : ToolMessage := ⟨.str "\x7b\"error\": \"timeout\"\x7d", "call-0", none, .success⟩

/-- **A later message need not be the first one**: it has the id and the name of the call, and the
    status the text reports. A later call that the policy refuses is answered with another text. -/
theorem replay_differs : ∃ first again refused s₁ s₂ s₃,
    toolDb.Solo 0 (wrapToolCall plainPython .standard searchCall timedOut).attempt
      (.initial fun _ => none) (.ok first) s₁ ∧
    first.handlerRan = true ∧ first.message.content = timedOut.content ∧
    first.message.toolCallId = "call-0" ∧ first.message.name = none ∧
    first.message.status = .success ∧
    toolDb.Solo 1 (wrapToolCall plainPython .standard searchCall (searchResult "page")).attempt s₁
      (.ok again) s₂ ∧
    again.handlerRan = false ∧ again.message.content = timedOut.content ∧
    again.message.toolCallId = "call" ∧ again.message.name = some "search" ∧
    again.message.status = .error ∧
    toolDb.Solo 1 (wrapToolCall plainPython .standard { searchCall with violation := some "quota" }
      (searchResult "page")).attempt s₁ (.ok refused) s₃ ∧
    refused.message.content = .str "\x7b\"error\": \"quota\"\x7d" := by
  have hruns : answers (fun first s₁ =>
      decide (first.handlerRan = true ∧ first.message.content = timedOut.content ∧
        first.message.toolCallId = "call-0" ∧ first.message.name = none ∧
        first.message.status = .success) &&
      answers (fun again _ => decide (again.handlerRan = false ∧
          again.message.content = timedOut.content ∧ again.message.toolCallId = "call" ∧
          again.message.name = some "search" ∧ again.message.status = .error))
        (toolDb.solo 1 (wrapToolCall plainPython .standard searchCall
          (searchResult "page")).attempt noFaults s₁) &&
      answers (fun refused _ =>
          decide (refused.message.content = .str "\x7b\"error\": \"quota\"\x7d"))
        (toolDb.solo 1 (wrapToolCall plainPython .standard { searchCall with
          violation := some "quota" } (searchResult "page")).attempt noFaults s₁))
      (toolDb.solo 0 (wrapToolCall plainPython .standard searchCall timedOut).attempt noFaults
        (.initial fun _ => none)) = true := by decide +kernel
  obtain ⟨first, s₁, hfirst, hcheck⟩ := exists_solo_of_answers hruns
  obtain ⟨hcheck, hrefused⟩ := Bool.and_eq_true_iff.mp hcheck
  obtain ⟨hcheck, hagain⟩ := Bool.and_eq_true_iff.mp hcheck
  obtain ⟨hran, hcontent, hid, hname, hstatus⟩ := of_decide_eq_true hcheck
  obtain ⟨again, s₂, hrun₂, hcheck₂⟩ := exists_solo_of_answers hagain
  obtain ⟨refused, s₃, hrun₃, hcheck₃⟩ := exists_solo_of_answers hrefused
  obtain ⟨hran₂, hcontent₂, hid₂, hname₂, hstatus₂⟩ := of_decide_eq_true hcheck₂
  exact ⟨first, again, refused, s₁, s₂, s₃, hfirst, hran, hcontent, hid, hname, hstatus, hrun₂,
    hran₂, hcontent₂, hid₂, hname₂, hstatus₂, hrun₃, of_decide_eq_true hcheck₃⟩

/-- Nobody has anything uncommitted, computed -/
def settled (s : Store) : Bool :=
  (List.range s.next).all fun n =>
    (s.slot n).invocation.pending.isNone && (s.slot n).approval.pending.isNone

theorem idle_of_settled {s : Store} (h : settled s = true) (k : Nat) : s.idle k = true := by
  unfold settled at h
  unfold Store.idle
  rw [List.all_eq_true] at h ⊢
  intro n hn
  obtain ⟨hinv, happ⟩ := Bool.and_eq_true_iff.mp (h n hn)
  rw [Option.isNone_iff_eq_none] at hinv happ
  simp only [Cell.own, hinv, happ, Option.isNone_none, Bool.and_self]

/-- A search that finds a page, and the same search again -/
theorem replay_returns_first_page : ∃ first s₁,
    toolDb.Solo 0 (wrapToolCall plainPython .standard searchCall (searchResult "page")).attempt
      (.initial fun _ => none) (.ok first) s₁ ∧
    first.message = searchResult "page" ∧
    Completes 1 (wrapToolCall plainPython .standard searchCall (searchResult "other"))
      (fun answer _ => answer.handlerRan = false ∧ answer.message = searchResult "page") s₁ := by
  have hrun : answers (fun first s₁ => decide (first.handlerRan = true ∧ first.recorded = true ∧
      s₁.conversation "thread" = none) && settled s₁)
      (toolDb.solo 0 (wrapToolCall plainPython .standard searchCall
        (searchResult "page")).attempt noFaults (.initial fun _ => none)) = true := by
    decide +kernel
  obtain ⟨first, s₁, hfirst, hcheck⟩ := exists_solo_of_answers hrun
  obtain ⟨hcheck, hsettled⟩ := Bool.and_eq_true_iff.mp hcheck
  obtain ⟨hran, hrecorded, hconversation⟩ := of_decide_eq_true hcheck
  obtain ⟨tr, hexec⟩ := hfirst.exec (fun _ => .ret ())
  have hstart : toolDb.Steps (start .standard (fun _ => none) fun _ => [])
      (start .standard (fun _ => none) fun _ => []) := .refl
  have hcontent : (searchResult "page").content = .str "page" := rfl
  have hrepeats : Repeats searchCall searchCall := ⟨rfl, rfl, rfl⟩
  obtain ⟨hmessage, -, hlater, hsame⟩ := replay_returns_first hstart rfl rfl hexec hran hrecorded
    hcontent (by decide) .refl hrepeats (fun id h => by cases h) rfl (idle_of_settled hsettled 1)
    (searchResult "other")
  refine ⟨first, s₁, hfirst, hmessage, ?_⟩
  have hforeign : ∀ u, searchCall.userId = some u → ¬Foreign u searchCall.threadId s₁ := by
    rintro u - ⟨thread, conversation, hthread, -, hconv, -⟩
    cases hthread
    rw [hconversation] at hconv
    cases hconv
  refine Machine.Returns.mono ?_ (hlater (idle_of_settled hsettled) hforeign)
  intro answer s' h
  refine ⟨h.1, (hsame _ h.2).mpr ⟨rfl, rfl, ?_⟩⟩
  constructor
  · intro hs
    cases hs
  · rintro ⟨e, he, ht⟩
    have hnone : toolErrorMessage plainPython (searchResult "page") = .ok none := by rfl
    rw [hnone] at he
    cases he
    cases ht

end Replay

end HyChat
