import HyChat.Agents.Replay
import HyChat.Agents.ToolCall

/-!
# The two models of the wrapper

The wrapper of a tool call is modelled twice, and neither model says what the other one is for.
`Agents.wrapToolCall` is one call on one session. Every statement may fail in it and the tool may
end in any way, so that it can say which claimed calls are finalised, but what the tables hold is
part of the circumstances it is given. `Replay.wrapToolCall` is a program on the tables all sessions
share. It computes the claim, the serialised result and the row they lead to, and its statements are
those of the service, which fail as a whole.

Both are the same function of the source, and where both speak they say the same: what a call among
other sessions has recorded is, apart from the id of the row and the times on it, the row the one
session commits when it meets this call undisturbed (`wrappers_agree`). Nothing is said about a call
that fails or is not recorded: the one model then has more ways to end than the other.
-/

set_option autoImplicit false

namespace HyChat

open Lib

namespace Replay

section

variable (py : Python) (sha256 : Sha256)

/-- The circumstances in which one session meets the call of the user, with a tool that returns
    `result`: the row is there and may be started, and nothing disturbs the call. -/
structure Undisturbed (userId : String) (call : WrappedCall) (result : ToolMessage)
    (invocation : ToolInvocation) (env : Agents.Circumstances) : Prop where
  request : env.request = ⟨some userId, orDefault call.toolCall.id "",
    orDefault call.toolCall.name "unknown", call.threadId⟩
  allowed : env.enforceTool = none
  ensured : env.ensured = .ok invocation
  presents : (claimCall userId call).Presents sha256 invocation
  unstarted : invocation.status = .pending ∨ invocation.status = .approved
  wins : env.wins = true
  fits : env.request.fitsSpan = true
  sound : ∀ site, env.fails site = false
  handler : env.handler = none
  errorMessage : env.errorMessage = toolErrorMessage py result
  output : env.output = .ok (serializeToolResult sha256 result.result)
  spanOutput : ∃ value, env.spanOutput = .ok value

/-- Two rows that tell the same of a call: they differ in what the row was before, in the times and
    in the run that has claimed it. -/
structure Alike (r r' : ToolInvocation) : Prop where
  userId : r.userId = r'.userId
  threadId : r.threadId = r'.threadId
  toolCallId : r.toolCallId = r'.toolCallId
  toolName : r.effectiveToolName = r'.effectiveToolName
  input : canonicalJson sha256 (toPy r.effectiveInput) = canonicalJson sha256 (toPy r'.effectiveInput)
  status : r.status = r'.status
  output : r.output = r'.output
  errorMessage : r.errorMessage = r'.errorMessage

end

section

variable {py : Python} {sha256 : Sha256} {userId : String} {call : WrappedCall}
  {result : ToolMessage} {errorMessage : Option String} {invocation : ToolInvocation}
  {env : Agents.Circumstances}

open Agents (Session Code)

/-- **Both finish a row alike.** -/
theorem completed_eq : Agents.completed env (serializeToolResult sha256 result.result) errorMessage =
    completed sha256 result errorMessage env.now := rfl

/-- The claim starts the row and commits it. -/
theorem Undisturbed.tryClaim (h : Undisturbed py sha256 userId call result invocation env) :
    (Agents.tryClaim env).run (Agents.start env) =
      (.ok (some (claimSnapshot (startInvocation env.now invocation) true)),
        ⟨some (startInvocation env.now invocation), none, false, [], none, true⟩) := by
  have hstatus : (decide (invocation.status ≠ .pending) && decide (invocation.status ≠ .approved)) =
      false := by
    rcases h.unstarted with hs | hs
    · rw [hs]
      rfl
    · rw [hs]
      rfl
  unfold Agents.tryClaim
  rw [h.ensured]
  dsimp only
  rw [Code.bind_modify, hstatus, if_neg Bool.false_ne_true, h.wins, if_pos rfl,
    Agents.bind_execute_ok (h.sound _) rfl, Agents.bind_execute_ok (h.sound _) rfl,
    Agents.bind_execute_ok (h.sound _) rfl]
  rfl

/-- The session of a call whose row has been started and whose span is stored -/
def prepared (userId : String) (invocation : ToolInvocation) (env : Agents.Circumstances) : Session :=
  ⟨some (startInvocation env.now invocation), none, false,
    [Agents.newSpan env userId (claimSnapshot (startInvocation env.now invocation) true)], none, true⟩

theorem Undisturbed.prepareToolCall (h : Undisturbed py sha256 userId call result invocation env) :
    (Agents.prepareToolCall env).run (Agents.start env) =
      (.ok (some (claimSnapshot (startInvocation env.now invocation) true)),
        prepared userId invocation env) := by
  have hclaim : (Agents.claimToolInvocation env).run (Agents.start env) = _ :=
    Code.bind_ok (Code.onException_ok h.tryClaim)
  have huser : env.request.userId = some userId := by rw [h.request]
  unfold Agents.prepareToolCall
  rw [huser, h.allowed]
  dsimp only
  rw [Code.bind_ok hclaim]
  unfold Agents.insertSpan
  rw [Agents.newSpan_fits, if_pos h.fits, Agents.bind_execute_ok (h.sound _) rfl,
    Agents.bind_execute_ok (h.sound _) rfl]
  rfl

/-- The result is written on the row, and committed with the span. -/
theorem Undisturbed.callTool (h : Undisturbed py sha256 userId call result invocation env)
    (herr : toolErrorMessage py result = .ok errorMessage) :
    ∃ s, (Agents.callTool env (some (claimSnapshot (startInvocation env.now invocation) true))).run
        (prepared userId invocation env) = (.ok (), s) ∧ s.committed =
      some (completed sha256 result errorMessage env.now (startInvocation env.now invocation)) := by
  obtain ⟨value, hvalue⟩ := h.spanOutput
  have hexecute : (claimSnapshot (startInvocation env.now invocation) true).shouldExecute = true := rfl
  have hrun : (Agents.runHandler env).run (prepared userId invocation env) =
      (.ok (), prepared userId invocation env) := by
    unfold Agents.runHandler
    rw [h.handler]
    rfl
  have hmessage : (Agents.rendered env.errorMessage).run (prepared userId invocation env) =
      (.ok errorMessage, prepared userId invocation env) := by
    rw [h.errorMessage, herr]
    rfl
  have hcomplete : (Agents.completeToolInvocation env
      (some (claimSnapshot (startInvocation env.now invocation) true)) errorMessage).run
        (prepared userId invocation env) = (.ok (), (prepared userId invocation env).finish
          (completed sha256 result errorMessage env.now)) := by
    unfold Agents.completeToolInvocation
    dsimp only
    rw [if_pos hexecute, h.output]
    exact Agents.execute_ok rfl (h.sound _)
  have hfinish : ∃ s, (Agents.finishTrace env errorMessage).run ((prepared userId invocation env).finish
      (completed sha256 result errorMessage env.now)) = (.ok (), s) ∧ s.committed =
        some (completed sha256 result errorMessage env.now (startInvocation env.now invocation)) := by
    unfold Agents.finishTrace
    rw [hvalue]
    exact ⟨_, Agents.execute_ok rfl (h.sound _), rfl⟩
  obtain ⟨s, hs, hcommitted⟩ := hfinish
  refine ⟨s, ?_, hcommitted⟩
  unfold Agents.callTool
  dsimp only
  rw [if_pos hexecute, Code.bind_ok hrun]
  unfold Agents.finishToolCall
  rw [Code.bind_ok hmessage, Code.bind_ok hcomplete]
  exact hs

/-- **What the one session commits**, when the result of the tool can be read -/
theorem Undisturbed.committed (h : Undisturbed py sha256 userId call result invocation env)
    (herr : toolErrorMessage py result = .ok errorMessage) :
    (Agents.wrapToolCall env).1 = .ok () ∧ (Agents.wrapToolCall env).2.committed =
      some (completed sha256 result errorMessage env.now (startInvocation env.now invocation)) := by
  obtain ⟨s, hs, hcommitted⟩ := h.callTool herr
  have hwrapped : Agents.wrapToolCall env = (.ok (), s.rollback) := by
    unfold Agents.wrapToolCall Agents.wrapped
    simp only [h.prepareToolCall, Code.finally_, Code.onException_ok hs]
  rw [hwrapped]
  exact ⟨rfl, hcommitted⟩

/-- The committed row keeps the result of the call. -/
theorem Undisturbed.keeps (h : Undisturbed py sha256 userId call result invocation env) (now : Nat) :
    Keeps sha256 userId call result errorMessage
      (completed sha256 result errorMessage now (startInvocation env.now invocation)) :=
  ⟨h.presents, rfl, rfl, rfl⟩

theorem Keeps.alike {r r' : ToolInvocation} (h : Keeps sha256 userId call result errorMessage r)
    (h' : Keeps sha256 userId call result errorMessage r') : Alike sha256 r r' := by
  obtain ⟨huser, hthread, hid, hname, hinput⟩ := h.presents
  obtain ⟨huser', hthread', hid', hname', hinput'⟩ := h'.presents
  exact ⟨huser.trans huser'.symm, hthread.trans hthread'.symm, hid.trans hid'.symm,
    hname.trans hname'.symm, hinput.trans hinput'.symm, h.status.trans h'.status.symm,
    h.output.trans h'.output.symm, h.errorMessage.trans h'.errorMessage.symm⟩

/-- **The two models agree.** Among any other sessions a call of the wrapper has recorded what its
    tool has returned. Then a committed row has it, now and later, and one session that meets the
    call undisturbed ends well and commits a row that tells the same. -/
theorem wrappers_agree {i : Nat} {conversation : String → Option Conversation}
    {calls : Nat → List Call} {c c₁ c₂ : Config toolSig Store Nat} {tr : List (Store × Store)}
    {first : Answer} (hrun : toolDb.Steps (start sha256 conversation calls) c)
    (hprog : c.prog i = .ret ()) (hidle : c.store.idle i = true)
    (hfirst : toolDb.Exec i (wrapToolCall py sha256 call result).attempt c tr (.ok first) c₁)
    (hrecorded : first.recorded = true) (hsteps : toolDb.Steps c₁ c₂) :
    ∃ u n r, call.userId = some u ∧ (c₂.store.slot n).invocation.committed = some r ∧
      ∀ invocation env, Undisturbed py sha256 u call result invocation env →
        (Agents.wrapToolCall env).1 = .ok () ∧
          ∃ r', (Agents.wrapToolCall env).2.committed = some r' ∧ Alike sha256 r r' := by
  obtain ⟨-, t, hgood, hrecord⟩ := onRecord_of_wrapToolCall hrun hprog hidle hfirst hsteps
  obtain ⟨u, hu, n, r, errorMessage, hr, herr, hkeeps⟩ := hrecord hrecorded
  have hreal : t.store = c₂.store := hgood.real
  rw [hreal] at hr
  refine ⟨u, n, r, hu, hr, fun invocation env henv => ?_⟩
  obtain ⟨hends, hcommitted⟩ := henv.committed herr
  exact ⟨hends, _, hcommitted, hkeeps.alike (henv.keeps env.now)⟩

/-- A search with nothing in its way -/
example : ∃ invocation, Undisturbed plainPython .standard "u"
    ⟨some "u", some "t", none, ⟨some "call-1", some "recall", .mapping []⟩, none, "uuid"⟩
    (searchResult "page") invocation { Agents.plainCall "call-1" with
      output := .ok (serializeToolResult .standard (searchResult "page").result) } :=
  ⟨_, rfl, rfl, rfl, ⟨rfl, rfl, rfl, rfl, rfl⟩, .inl rfl, rfl, by decide, fun _ => rfl, rfl, rfl, rfl,
    _, rfl⟩

end

end Replay

end HyChat
