import HyChat.Frontend.ApprovalForm
import HyChat.Frontend.AutoApproval
import HyChat.Lib.Lts

/-!
# The view that answers an interrupt

`ThreadActionsView` shows the actions of an interrupt one at a time, each with its form. A single
action is answered by submitting its form; several are answered by recording a decision for each and
submitting all of them, or by approving all at once. A single action of a tool the browser approves
by itself is approved by an effect, which tries again after a transient error.

An event of the view is a handler of what is rendered, and then the render of what it has set: the
form is loaded again when another action is shown, and the effect runs when what it depends on has
changed. The stream is one of these things and changes at any time. A new interrupt is rendered
twice, the first time with the index and the form of the old one. The calls of `stream.respond` that
have not ended and what the page has done, newest first, are kept beside the fields of the
component.
-/

set_option autoImplicit false

namespace HyChat

open Lib

namespace Frontend

/-- How a call of `stream.respond` ends: the error of an interrupt that is already consumed, one
    that is transient, or another one. -/
inductive RespondOutcome
  | success
  | alreadyConsumed
  | transient
  | failed
  deriving DecidableEq

/-- Who calls `stream.respond` with decisions; the runs of the effect that approve are numbered. -/
inductive Responder
  | autoApproval (launch : Nat)
  | submit
  | submitAll
  | approveAll
  deriving DecidableEq

/-- What `approveCurrentTool` holds. -/
structure AutoApprovalRun where
  launch : Nat
  toolName : String
  requestKey : String
  attempt : Nat
  isMounted : Bool

inductive PendingCall
  /-- Between two attempts the run waits. -/
  | autoApproval (run : AutoApprovalRun) (waiting : Bool)
  | submit
  | submitAll
  | approveAll
  | resolve

/-- The dependencies of the effect, without the stream -/
structure EffectDeps where
  approveAllowed : Bool
  autoApprovalFailedForCurrent : Bool
  autoApproveRequestKey : Option String
  currentActionName : Option String
  hasMultipleActions : Bool
  loading : Bool
  streamFinished : Bool
  streaming : Bool
  submittingAll : Bool
  deriving DecidableEq

inductive ViewEntry
  /-- The preference of a tool was written. -/
  | preference (toolName : String) (enabled : Bool)
  /-- Something else wrote the item of the preferences, another tab or the user. -/
  | otherTab (item : StoredItem)
  | launched (launch : Nat) (action : ActionRequest)
  | sent (responder : Responder) (request : HITLRequest) (decisions : List ReviewDecision)
  | answered (launch : Nat) (outcome : RespondOutcome)
  /-- `respond(null, { goto: END })` -/
  | resolved

structure ThreadActionsView where
  interrupt : HITLRequest
  currentIndex : Nat
  /-- A `Map`; nothing depends on its order. -/
  addressedActions : List (Nat × ReviewDecision)
  submittingAll : Bool
  autoApproving : Bool
  /-- The request key of the failure -/
  autoApprovalFailure : Option String
  autoApprovedRequestKey : Option String
  form : ReviewForm
  loading : Bool
  streaming : Bool
  streamFinished : Bool
  /-- `submittingRef` -/
  submitting : Bool
  pending : List PendingCall
  /-- What the effect has last run with -/
  effectDeps : Option EffectDeps
  storage : StoredItem
  launches : Nat
  log : List ViewEntry

/-- `AUTO_APPROVAL_RETRY_DELAYS_MS` -/
def autoApprovalRetryDelaysMs : List Nat := [800, 1600, 3000]

/-- `autoApproveRequestKey` of an action; an empty name is falsy. -/
def ActionRequest.requestKey (action : ActionRequest) : Option String :=
  if action.name = "" then none
  else some (action.name ++ ":" ++ (Json.obj action.args).dumps)

/-- The config with the name of the action -/
def HITLRequest.configNamed (request : HITLRequest) (name : String) : Option ReviewConfig :=
  request.reviewConfigs.find? fun config => config.actionName == name

/-- `isValidHitlRequest` -/
def HITLRequest.valid (request : HITLRequest) : Bool :=
  !request.actionRequests.isEmpty && !request.reviewConfigs.isEmpty

/-- `next.set(index, decision)` -/
def setDecision (index : Nat) (decision : ReviewDecision) (decisions : List (Nat × ReviewDecision)) :
    List (Nat × ReviewDecision) :=
  (index, decision) :: decisions.filter fun p => p.1 ≠ index

/-- `isMounted = false` -/
def PendingCall.unmount : PendingCall → PendingCall
  | .autoApproval run waiting => .autoApproval { run with isMounted := false } waiting
  | other => other

namespace ThreadActionsView

/-! ## What is rendered -/

def hasMultipleActions (s : ThreadActionsView) : Bool := 1 < s.interrupt.actionRequests.length

def currentAction (s : ThreadActionsView) : Option ActionRequest :=
  s.interrupt.actionRequests[s.currentIndex]?

def matchingConfig (s : ThreadActionsView) : Option ReviewConfig :=
  (s.currentAction.bind fun action => s.interrupt.configNamed action.name) <|>
    s.interrupt.reviewConfigs[s.currentIndex]?

def singleActionInterrupt (s : ThreadActionsView) : HITLRequest :=
  match s.currentAction, s.matchingConfig with
  | some action, some config => ⟨[action], [config]⟩
  | _, _ => s.interrupt

def autoApproveRequestKey (s : ThreadActionsView) : Option String :=
  s.currentAction.bind ActionRequest.requestKey

def autoApprovalFailedForCurrent (s : ThreadActionsView) : Bool :=
  s.autoApproveRequestKey.isSome && s.autoApprovalFailure == s.autoApproveRequestKey

def deps (s : ThreadActionsView) : EffectDeps where
  approveAllowed := s.form.approveAllowed
  autoApprovalFailedForCurrent := s.autoApprovalFailedForCurrent
  autoApproveRequestKey := s.autoApproveRequestKey
  currentActionName := s.currentAction.map (·.name)
  hasMultipleActions := s.hasMultipleActions
  loading := s.loading
  streamFinished := s.streamFinished
  streaming := s.streaming
  submittingAll := s.submittingAll

def allAllowApprove (s : ThreadActionsView) : Bool :=
  s.hasMultipleActions && s.interrupt.actionRequests.all fun action =>
    ((s.interrupt.configNamed action.name).map fun config =>
      config.allowedDecisions.contains .approve).getD false

def hasAllDecisions (s : ThreadActionsView) : Bool :=
  s.hasMultipleActions && s.addressedActions.length == s.interrupt.actionRequests.length

/-- The action the inbox item is about -/
def inboxAction (s : ThreadActionsView) : Option ActionRequest :=
  s.singleActionInterrupt.actionRequests.head?

def autoApprovalSupported (s : ThreadActionsView) : Bool :=
  s.form.approveAllowed &&
    (s.currentAction.map fun action => isToolAutoApprovalSupported action.name).getD false

def autoApprovalEnabledForCurrent (s : ThreadActionsView) : Bool :=
  s.autoApprovalSupported &&
    (s.currentAction.map fun action => isToolAutoApproved s.storage action.name).getD false &&
    !s.autoApprovalFailedForCurrent

def actionsDisabled (s : ThreadActionsView) : Bool :=
  s.loading || s.streaming || s.submittingAll || s.autoApproving || s.autoApprovalEnabledForCurrent

/-! ## The effect -/

/-- What keeps the effect from approving an action -/
def keepsAsking (s : ThreadActionsView) (action : ActionRequest) : Bool :=
  s.hasMultipleActions || !s.form.approveAllowed || s.loading || s.streaming || s.submittingAll ||
    s.streamFinished || s.autoApprovalFailedForCurrent ||
    !isToolAutoApprovalSupported action.name || !isToolAutoApproved s.storage action.name

/-- The clean-up of the run before -/
def cleanUp (s : ThreadActionsView) (deps : EffectDeps) : ThreadActionsView :=
  { s with pending := s.pending.map PendingCall.unmount, effectDeps := some deps }

/-- `approveCurrentTool` up to its first `await` -/
def launch (s : ThreadActionsView) (request : HITLRequest) (action : ActionRequest) (key : String) :
    ThreadActionsView :=
  { s with
    autoApprovedRequestKey := some key
    autoApproving := true
    autoApprovalFailure := none
    launches := s.launches + 1
    pending := s.pending ++ [.autoApproval ⟨s.launches, action.name, key, 0, true⟩ false]
    log := .sent (.autoApproval s.launches) request [.approve] :: .launched s.launches action ::
      s.log }

/-- The effect of a render, which sets the state that the effects before it have left. -/
def approveEffect (rendered s : ThreadActionsView) : ThreadActionsView :=
  let cleaned := s.cleanUp rendered.deps
  match rendered.currentAction, rendered.autoApproveRequestKey with
  | some action, some key =>
      if rendered.keepsAsking action then cleaned
      else if s.autoApprovedRequestKey = some key then cleaned
      else cleaned.launch rendered.interrupt action key
  | _, _ => cleaned

/-- The effect after a render, if it has to run -/
def settle (s : ThreadActionsView) : ThreadActionsView :=
  if s.effectDeps = some s.deps then s else s.approveEffect s

/-- The effect of the hook on another action -/
def loadForm (s : ThreadActionsView) : ThreadActionsView :=
  { s with form := s.singleActionInterrupt.form, submitting := false }

/-- The view before its first effects -/
def initial (request : HITLRequest) (storage : StoredItem) : ThreadActionsView where
  interrupt := request
  currentIndex := 0
  addressedActions := []
  submittingAll := false
  autoApproving := false
  autoApprovalFailure := none
  autoApprovedRequestKey := none
  form := ⟨[], [], false, [], [], none, false, false⟩
  loading := false
  streaming := false
  streamFinished := false
  submitting := false
  pending := []
  effectDeps := none
  storage := storage
  launches := 0
  log := []

def mount (request : HITLRequest) (storage : StoredItem) : ThreadActionsView :=
  (initial request storage).loadForm.settle

/-- The effects of the render of a new interrupt, before the one that approves -/
def reset (s : ThreadActionsView) (request : HITLRequest) : ThreadActionsView :=
  { s.loadForm with
    interrupt := request
    currentIndex := 0
    addressedActions := []
    autoApprovalFailure := none
    autoApprovedRequestKey := none }

def receive (s : ThreadActionsView) (request : HITLRequest) : ThreadActionsView :=
  let rendered := { s with interrupt := request }
  let effects := rendered.reset request
  let first := if s.effectDeps = some rendered.deps then effects else rendered.approveEffect effects
  first.loadForm.settle

/-! ## The handlers -/

/-- `setCurrentIndex` with another index -/
def moveTo (s : ThreadActionsView) (index : Nat) : ThreadActionsView :=
  if index = s.currentIndex then s else { s with currentIndex := index }.loadForm

/-- `handleSaveDecision` -/
def handleSaveDecision (s : ThreadActionsView) (submitType : Option DecisionType) :
    ThreadActionsView :=
  match buildDecisionFromState s.form.humanResponse submitType with
  | .error _ => s
  | .ok decision =>
      let saved :=
        { s with addressedActions := setDecision s.currentIndex decision s.addressedActions }
      if s.currentIndex < s.interrupt.actionRequests.length - 1 then
        saved.moveTo (min (s.interrupt.actionRequests.length - 1) (s.currentIndex + 1))
      else saved

/-- `handleSubmit` up to its `await` -/
def handleSubmit (s : ThreadActionsView) (submitType : Option DecisionType) : ThreadActionsView :=
  if s.submitting then s
  else
    match buildDecisionFromState s.form.humanResponse submitType with
    | .error _ => s
    | .ok decision =>
        { s with
          form := { s.form with initialValues := [] }
          submitting := true
          loading := true
          streaming := true
          pending := s.pending ++ [.submit]
          log := .sent .submit s.interrupt [decision] :: s.log }

/-- The handler the inbox item is given -/
def handleDecision (s : ThreadActionsView) (submitType : Option DecisionType) : ThreadActionsView :=
  if s.hasMultipleActions then s.handleSaveDecision submitType else s.handleSubmit submitType

/-- A button or a key that submits the form, with the type it overrides. -/
def submitDecision (s : ThreadActionsView) (override : Option DecisionType) : ThreadActionsView :=
  let submitted := s.handleDecision (override <|> s.form.selectedSubmitType)
  -- the form of the next action has its own type
  if override.isSome && submitted.currentIndex = s.currentIndex then
    { submitted with form := { submitted.form with selectedSubmitType := override } }
  else submitted

/-- The decisions of `handleSubmitAll` from an index on; `none` when one is missing -/
def decisionsFrom (addressedActions : List (Nat × ReviewDecision)) :
    Nat → List ActionRequest → Option (List ReviewDecision)
  | _, [] => some []
  | index, _ :: actionRequests => do
      let decision ← addressedActions.lookup index
      let decisions ← decisionsFrom addressedActions (index + 1) actionRequests
      some (decision :: decisions)

def allDecisions (s : ThreadActionsView) : Option (List ReviewDecision) :=
  decisionsFrom s.addressedActions 0 s.interrupt.actionRequests

/-- `handleSubmitAll` up to its `await` -/
def handleSubmitAll (s : ThreadActionsView) : ThreadActionsView :=
  match s.allDecisions with
  | none => s
  | some decisions =>
      { s with
        submittingAll := true
        pending := s.pending ++ [.submitAll]
        log := .sent .submitAll s.interrupt decisions :: s.log }

/-- `handleApproveAll` up to its `await` -/
def handleApproveAll (s : ThreadActionsView) : ThreadActionsView :=
  { s with
    pending := s.pending ++ [.approveAll]
    log := .sent .approveAll s.interrupt (s.interrupt.actionRequests.map fun _ => .approve) ::
      s.log }

/-- `handleResolve` up to its `await` -/
def handleResolve (s : ThreadActionsView) : ThreadActionsView :=
  { s with
    loading := true
    form := { s.form with initialValues := [] }
    pending := s.pending ++ [.resolve]
    log := .resolved :: s.log }

/-! ## The answers -/

/-- `approveCurrentTool` after an answer -/
def answerAutoApproval (s : ThreadActionsView) (i : Nat) (run : AutoApprovalRun)
    (outcome : RespondOutcome) : ThreadActionsView :=
  let logged := { s with log := .answered run.launch outcome :: s.log }
  match outcome with
  | .success | .alreadyConsumed =>
      { logged with
        pending := s.pending.eraseIdx i
        autoApproving := s.autoApproving && !run.isMounted }
  | .transient | .failed =>
      if run.attempt < autoApprovalRetryDelaysMs.length ∧ outcome = .transient then
        { logged with pending := s.pending.set i (.autoApproval run true) }
      else
        { logged with
          pending := s.pending.eraseIdx i
          autoApprovedRequestKey := none
          autoApprovalFailure := if run.isMounted then some run.requestKey else s.autoApprovalFailure
          autoApproving := s.autoApproving && !run.isMounted }

/-- What awaits a call goes on with its answer; a run that waits awaits no call. -/
def answer (s : ThreadActionsView) (i : Nat) (outcome : RespondOutcome) : Option ThreadActionsView :=
  match s.pending[i]? with
  | none => none
  | some (.autoApproval _ true) => none
  | some (.autoApproval run false) => some (s.answerAutoApproval i run outcome)
  | some .submit =>
      some { s with
        pending := s.pending.eraseIdx i
        loading := false
        streaming := false
        submitting := false
        streamFinished := outcome == .success || outcome == .alreadyConsumed }
  | some .submitAll =>
      some { s with
        pending := s.pending.eraseIdx i
        submittingAll := false
        addressedActions := if outcome = .success then [] else s.addressedActions }
  | some .approveAll => some { s with pending := s.pending.eraseIdx i }
  | some .resolve => some { s with pending := s.pending.eraseIdx i, loading := false }

/-- A run has waited: it tries again if it is still mounted. -/
def fire (s : ThreadActionsView) (i : Nat) : Option ThreadActionsView :=
  match s.pending[i]? with
  | some (.autoApproval run true) =>
      if run.isMounted then
        some { s with
          pending := s.pending.set i (.autoApproval { run with attempt := run.attempt + 1 } false)
          log := .sent (.autoApproval run.launch) s.interrupt [.approve] :: s.log }
      else some { s with pending := s.pending.eraseIdx i }
  | _ => none

/-- `handleAutoApprovalChange`; nothing is logged where nothing is written. -/
def changePreference (s : ThreadActionsView) (toolName : String) (enabled written : Bool) :
    ThreadActionsView :=
  { s with
    storage := setToolAutoApproved s.storage toolName enabled written
    log := if written then .preference toolName enabled :: s.log else s.log }

end ThreadActionsView

/-! ## The system -/

inductive ViewAction
  | receive (request : HITLRequest)
  | streamChanged
  | editForm (action : FormAction)
  | select (submitType : DecisionType)
  | goTo (index : Nat)
  | previous
  | next
  | submit (override : Option DecisionType)
  | submitAll
  | approveAll
  | resolve
  | answer (i : Nat) (outcome : RespondOutcome)
  | fire (i : Nat)
  | changePreference (enabled written : Bool)
  | otherTab (item : StoredItem)

/-- The form has the field that is edited. -/
def ReviewForm.offers (form : ReviewForm) : FormAction → Bool
  | .editChange key _ =>
      (editResponse? form.humanResponse).any fun action => (action.args.map Prod.fst).contains key
  | .rejectChange _ => form.humanResponse.any fun response => response.type == .reject
  | .reset => true

/-- What the view offers -/
def ThreadActionsView.offers (s : ThreadActionsView) : ViewAction → Bool
  | .editForm action => s.interrupt.valid && s.form.offers action
  | .select submitType => s.interrupt.valid && submitType == .reject && s.form.isRejectAllowed
  | .goTo index =>
      s.interrupt.valid && s.hasMultipleActions && index < s.interrupt.actionRequests.length
  | .previous => s.interrupt.valid && s.hasMultipleActions && s.currentIndex != 0
  | .next =>
      s.interrupt.valid && s.hasMultipleActions &&
        s.currentIndex != s.interrupt.actionRequests.length - 1
  | .submit _ => s.interrupt.valid
  | .submitAll => s.interrupt.valid && s.hasAllDecisions && !s.submittingAll
  | .approveAll =>
      s.interrupt.valid && s.hasMultipleActions && s.allAllowApprove && !s.actionsDisabled
  | .resolve => s.interrupt.valid && !s.actionsDisabled
  | .changePreference _ _ =>
      s.interrupt.valid && s.form.approveAllowed &&
        (s.inboxAction.map fun action => isToolAutoApprovalSupported action.name).getD false
  | _ => true

/-- What an event does before the effect runs -/
def ThreadActionsView.handle (s : ThreadActionsView) : ViewAction → Option ThreadActionsView
  | .receive request => some (s.receive request)
  | .streamChanged => some (s.approveEffect s)
  | .editForm action => some { s with form := s.form.act action }
  | .select submitType =>
      some { s with form := { s.form with selectedSubmitType := some submitType } }
  | .goTo index => some (s.moveTo index)
  | .previous => some (s.moveTo (s.currentIndex - 1))
  | .next => some (s.moveTo (min (s.interrupt.actionRequests.length - 1) (s.currentIndex + 1)))
  | .submit override => some (s.submitDecision override)
  | .submitAll => some s.handleSubmitAll
  | .approveAll => some s.handleApproveAll
  | .resolve => some s.handleResolve
  | .answer i outcome => s.answer i outcome
  | .fire i => s.fire i
  | .changePreference enabled written =>
      s.inboxAction.map fun action => s.changePreference action.name enabled written
  | .otherTab item => some { s with storage := item, log := .otherTab item :: s.log }

def threadActionsView : Lts ThreadActionsView ViewAction where
  step s action := if s.offers action then (s.handle action).map (·.settle) else none

end Frontend

end HyChat
