import HyChat.Frontend.ThreadActions
import HyChat.Lib.Log

/-!
# What the view answers an interrupt with

Whatever is edited, recorded, looked at again and submitted, and however often the interrupt changes
meanwhile, the decisions of a response are as many as the actions of the request, each is one that
the config of its action allows, an edit is an edit of that very action, and a rejection has a
reason. What is approved without asking is the only action of its request.

What makes this more than a property of a form. A response is made of decisions that were recorded
at different times, for actions that were shown one after another, and an interrupt that is
replaced meanwhile leaves forms, timers and runs of the effect behind. Positions are all that ties
a decision to an action: the loop that sends the response reads the recorded decision of each
index. So the invariant says of every index that what is recorded is a decision about the action of
that index in the interrupt that is shown now (`Recorded`), and that the form is about the action
that is shown (`Reviewing`); a new interrupt forgets what is recorded.

Forms are the other half. What may be edited is decided when the form is loaded, from the config of
the action, and `Fits` says of each response in preparation that making it is allowed; every event
of the form keeps this, and submitting gives a decision of that kind.

What is asked of the interrupts is what the server's requests have (`Matched`): a config for each
action, under its name. For an action without one the view falls back on the config at its index,
and nothing is claimed then. That the server takes what is sent is another theorem, in
`Agents/ReviewedBatch`.
-/

set_option autoImplicit false

namespace HyChat

open Lib

namespace Frontend

def ReviewDecision.type : ReviewDecision → DecisionType
  | .approve => .approve
  | .reject _ => .reject
  | .edit _ => .edit

/-- An edit of the action has its name and the names of its arguments; a rejection has a reason. -/
def ReviewDecision.About (action : ActionRequest) : ReviewDecision → Prop
  | .approve => True
  | .reject message => message ≠ ""
  | .edit edited =>
      edited.name = action.name ∧ edited.args.map Prod.fst = action.args.map Prod.fst

/-- The decision may be made about the action. -/
def AllowedFor (request : HITLRequest) (action : ActionRequest) (decision : ReviewDecision) : Prop :=
  (∃ config, request.configNamed action.name = some config ∧
    decision.type ∈ config.allowedDecisions) ∧ decision.About action

/-- The decisions answer the request action by action. -/
def AnsweredBy (request : HITLRequest) (decisions : List ReviewDecision) : Prop :=
  List.Forall₂ (AllowedFor request) request.actionRequests decisions

/-- A request as the server builds it: every action has a config under its name, and the tools the
    browser may approve by itself can be approved. -/
structure HITLRequest.Matched (request : HITLRequest) : Prop where
  actions : request.actionRequests ≠ []
  configs : ∀ action ∈ request.actionRequests, ∃ config, request.configNamed action.name = some config
  approvable : ∀ action ∈ request.actionRequests, isToolAutoApprovalSupported action.name = true →
    AllowedFor request action .approve

theorem HITLRequest.Matched.positive {request : HITLRequest} (h : request.Matched) :
    0 < request.actionRequests.length := List.length_pos_of_ne_nil h.actions

/-! ## One form -/

/-- What may be made of a response is allowed. -/
def DecisionWithEdits.Fits (action : ActionRequest) (config : ReviewConfig) :
    DecisionWithEdits → Prop
  | .approve => .approve ∈ config.allowedDecisions
  | .reject _ => .reject ∈ config.allowedDecisions
  | .edit edited acceptAllowed _ =>
      .edit ∈ config.allowedDecisions ∧
        (acceptAllowed = true → .approve ∈ config.allowedDecisions) ∧
        edited.name = action.name ∧ edited.args.map Prod.fst = action.args.map Prod.fst

/-- The form is about the action. -/
def ReviewForm.Fits (action : ActionRequest) (config : ReviewConfig) (form : ReviewForm) : Prop :=
  ∀ response ∈ form.humanResponse, response.Fits action config

variable {request : HITLRequest} {action : ActionRequest} {config : ReviewConfig}

/-- The form that is made for an action fits it. -/
theorem fits_form : (HITLRequest.form ⟨[action], [config]⟩).Fits action config := by
  have hreviewed : (⟨[action], [config]⟩ : HITLRequest).reviewed = some (action, config) := by
    unfold HITLRequest.reviewed
    by_cases hname : config.actionName = action.name
    · simp [hname]
    · simp [hname]
  unfold HITLRequest.form
  rw [hreviewed]
  intro response hresponse
  simp only [createDefaultHumanResponse, List.mem_append] at hresponse
  rcases hresponse with (hedit | happrove) | hreject
  · split at hedit
    · rename_i hallowed
      rw [List.mem_singleton.mp hedit]
      refine ⟨List.contains_iff_mem.mp hallowed, fun ha => List.contains_iff_mem.mp ha, rfl, rfl⟩
    · exact absurd hedit (by simp)
  · split at happrove
    · rename_i hallowed
      rw [List.mem_singleton.mp happrove]
      exact List.contains_iff_mem.mp hallowed
    · exact absurd happrove (by simp)
  · split at hreject
    · rename_i hallowed
      rw [List.mem_singleton.mp hreject]
      exact List.contains_iff_mem.mp hallowed
    · exact absurd hreject (by simp)

/-- The edit response that is rendered fits with the others. -/
theorem ReviewForm.Fits.rendered {form : ReviewForm} (h : form.Fits action config)
    {edited : EditedAction} (hedited : editResponse? form.humanResponse = some edited) :
    ∃ acceptAllowed editsMade,
      (DecisionWithEdits.edit edited acceptAllowed editsMade).Fits action config := by
  obtain ⟨response, hmem, hsome⟩ := List.exists_of_findSome?_eq_some hedited
  cases response with
  | approve => exact absurd hsome (by simp)
  | reject message => exact absurd hsome (by simp)
  | edit edited' acceptAllowed editsMade =>
    obtain rfl := Option.some.inj hsome
    exact ⟨acceptAllowed, editsMade, h _ hmem⟩

/-- Editing keeps what may be made of a response. -/
theorem fits_onEdit {response : DecisionWithEdits} (h : response.Fits action config)
    {f : EditedAction → Bool → DecisionWithEdits}
    (hf : ∀ edited acceptAllowed editsMade,
      (DecisionWithEdits.edit edited acceptAllowed editsMade).Fits action config →
        (f edited acceptAllowed).Fits action config) : (response.onEdit f).Fits action config := by
  cases response with
  | edit edited acceptAllowed editsMade => exact hf edited acceptAllowed editsMade h
  | approve => exact h
  | reject message => exact h

/-- So does giving a reason. -/
theorem fits_onReject {response : DecisionWithEdits} (h : response.Fits action config)
    (message : String) : (response.onReject message).Fits action config := by
  cases response with
  | edit edited acceptAllowed editsMade => exact h
  | approve => exact h
  | reject _ => exact h

/-- **One event of the form.** Every response still fits. -/
theorem ReviewForm.Fits.act {form : ReviewForm} (h : form.Fits action config) {a : FormAction}
    (ha : form.offers a = true) : (form.act a).Fits action config := by
  cases a with
  | editChange key text =>
    unfold ReviewForm.act ReviewForm.onEditChange
    cases hedited : editResponse? form.humanResponse with
    | none => exact h
    | some edited =>
      obtain ⟨_, _, -, -, hname, hkeys⟩ := h.rendered hedited
      have hkey : key ∈ edited.args.map Prod.fst := by
        simp only [ReviewForm.offers, hedited, Option.any_some] at ha
        exact List.contains_iff_mem.mp ha
      intro response hresponse
      obtain ⟨old, hold, rfl⟩ := List.mem_map.mp hresponse
      refine fits_onEdit (h old hold) fun _ acceptAllowed _ hfits => ?_
      refine ⟨hfits.1, hfits.2.1, hname, ?_⟩
      rw [keys_setItem, if_pos hkey, hkeys]
  | rejectChange text =>
    intro response hresponse
    obtain ⟨old, hold, rfl⟩ := List.mem_map.mp hresponse
    exact fits_onReject (h old hold) text
  | reset =>
    intro response hresponse
    obtain ⟨old, hold, rfl⟩ := List.mem_map.mp hresponse
    refine fits_onReject (fits_onEdit (h old hold) fun edited acceptAllowed _ hfits => ?_) ""
    refine ⟨hfits.1, hfits.2.1, hfits.2.2.1, ?_⟩
    rw [← hfits.2.2.2, List.map_map]
    rfl

/-- **What a form that fits submits.** -/
theorem ReviewForm.Fits.decision {form : ReviewForm} (h : form.Fits action config)
    (hconfig : request.configNamed action.name = some config) {submitType : Option DecisionType}
    {decision : ReviewDecision}
    (hd : buildDecisionFromState form.humanResponse submitType = .ok decision) :
    AllowedFor request action decision := by
  unfold buildDecisionFromState at hd
  split at hd
  · cases hd
  cases hfind : form.humanResponse.find? fun response => some response.type == submitType with
  | none =>
    rw [hfind] at hd
    cases hd
  | some response =>
    have hfits := h response (List.mem_of_find?_eq_some hfind)
    rw [hfind] at hd
    cases response with
    | approve =>
      cases hd
      exact ⟨⟨config, hconfig, hfits⟩, trivial⟩
    | reject message =>
      simp only at hd
      split at hd
      · cases hd
      · rename_i hreason
        cases hd
        exact ⟨⟨config, hconfig, hfits⟩, hreason⟩
    | edit edited acceptAllowed editsMade =>
      obtain ⟨hedit, happrove, habout⟩ := hfits
      simp only at hd
      split at hd
      · rename_i hunchanged
        cases hd
        rw [Bool.and_eq_true] at hunchanged
        exact ⟨⟨config, hconfig, happrove hunchanged.1⟩, trivial⟩
      · cases hd
        exact ⟨⟨config, hconfig, hedit⟩, habout⟩

/-! ## The invariant of the view -/

/-- A run of the effect that is mounted: the effect has not run again since it launched it. -/
def MountedBy (deps : Option EffectDeps) (run : AutoApprovalRun) : Prop :=
  ∃ d, deps = some d ∧ d.hasMultipleActions = false ∧ d.currentActionName = some run.toolName ∧
    d.autoApproveRequestKey = some run.requestKey

/-- What the mounted runs rely on. -/
def RunsMounted (pending : List PendingCall) (deps : Option EffectDeps) : Prop :=
  ∀ run waiting, .autoApproval run waiting ∈ pending →
    isToolAutoApprovalSupported run.toolName = true ∧ (run.isMounted = true → MountedBy deps run)

/-- Every response in the log answers its request. -/
def AllAnswer (log : List ViewEntry) : Prop :=
  ∀ responder request decisions, .sent responder request decisions ∈ log → AnsweredBy request decisions

/-- Every decision that is recorded or was sent is allowed for the action it is about. -/
structure Recorded (s : ThreadActionsView) : Prop where
  matched : s.interrupt.Matched
  index : s.currentIndex < s.interrupt.actionRequests.length
  keys : (s.addressedActions.map Prod.fst).Nodup
  addressed : ∀ p ∈ s.addressedActions, ∃ action, s.interrupt.actionRequests[p.1]? = some action ∧
    AllowedFor s.interrupt action p.2
  mounted : RunsMounted s.pending s.effectDeps
  sent : AllAnswer s.log

/-- **The invariant.** The form is about the action that is shown. -/
structure Reviewing (s : ThreadActionsView) : Prop extends Recorded s where
  form : ∀ action config, s.currentAction = some action →
    s.interrupt.configNamed action.name = some config → s.form.Fits action config

theorem AllAnswer.cons {log : List ViewEntry} (h : AllAnswer log) {e : ViewEntry}
    (he : ∀ responder request decisions, e = .sent responder request decisions →
      AnsweredBy request decisions) : AllAnswer (e :: log) := by
  intro responder request decisions hmem
  rcases List.mem_cons.mp hmem with heq | hmem
  · exact he responder request decisions heq.symm
  · exact h responder request decisions hmem

theorem RunsMounted.append {pending : List PendingCall} {deps : Option EffectDeps}
    (h : RunsMounted pending deps) {call : PendingCall}
    (hcall : ∀ run waiting, call = .autoApproval run waiting →
      isToolAutoApprovalSupported run.toolName = true ∧ (run.isMounted = true → MountedBy deps run)) :
    RunsMounted (pending ++ [call]) deps := by
  intro run waiting hmem
  rcases List.mem_append.mp hmem with hmem | hmem
  · exact h run waiting hmem
  · exact hcall run waiting (List.mem_singleton.mp hmem).symm

theorem RunsMounted.eraseIdx {pending : List PendingCall} {deps : Option EffectDeps}
    (h : RunsMounted pending deps) (i : Nat) : RunsMounted (pending.eraseIdx i) deps :=
  fun run waiting hmem => h run waiting (List.mem_of_mem_eraseIdx hmem)

/-- A run that goes on as the run it was. -/
theorem RunsMounted.set {pending : List PendingCall} {deps : Option EffectDeps}
    (h : RunsMounted pending deps) {i : Nat} {run run' : AutoApprovalRun} {waiting waiting' : Bool}
    (hi : pending[i]? = some (.autoApproval run waiting)) (htool : run'.toolName = run.toolName)
    (hkey : run'.requestKey = run.requestKey) (hmounted : run'.isMounted = run.isMounted) :
    RunsMounted (pending.set i (.autoApproval run' waiting')) deps := by
  intro other otherWaiting hmem
  rcases List.mem_or_eq_of_mem_set hmem with hmem | heq
  · exact h other otherWaiting hmem
  · cases heq
    obtain ⟨hsupported, hby⟩ := h run waiting (List.mem_of_getElem? hi)
    refine ⟨htool ▸ hsupported, fun hm => ?_⟩
    obtain ⟨d, hd, hsingle, hname, hkey'⟩ := hby (hmounted ▸ hm)
    exact ⟨d, hd, hsingle, htool ▸ hname, hkey ▸ hkey'⟩

/-- After a clean-up no run is mounted. -/
theorem RunsMounted.unmount {pending : List PendingCall} {deps : Option EffectDeps}
    (h : RunsMounted pending deps) (deps' : Option EffectDeps) :
    RunsMounted (pending.map PendingCall.unmount) deps' := by
  intro run waiting hmem
  obtain ⟨call, hcall, heq⟩ := List.mem_map.mp hmem
  cases call with
  | autoApproval run' waiting' =>
    cases heq
    exact ⟨(h run' _ hcall).1, fun hm => absurd hm (by simp)⟩
  | submit => cases heq
  | submitAll => cases heq
  | approveAll => cases heq
  | resolve => cases heq

namespace ThreadActionsView

variable {s : ThreadActionsView}

/-- A request with one action shows it. -/
theorem actions_of_single (hsingle : s.hasMultipleActions = false)
    (haction : s.currentAction = some action) : s.interrupt.actionRequests = [action] := by
  unfold hasMultipleActions at hsingle
  unfold currentAction at haction
  generalize s.interrupt.actionRequests = actions at hsingle haction
  cases actions with
  | nil => cases haction
  | cons first rest =>
    cases rest with
    | nil =>
      rw [List.getElem?_singleton] at haction
      split at haction
      · rw [Option.some.inj haction]
      · cases haction
    | cons second rest => exact absurd hsingle (by simp)

theorem answers_approve (h : s.interrupt.Matched) (hsingle : s.hasMultipleActions = false)
    (haction : s.currentAction = some action)
    (hsupported : isToolAutoApprovalSupported action.name = true) :
    AnsweredBy s.interrupt [.approve] := by
  have hactions := actions_of_single hsingle haction
  unfold AnsweredBy
  rw [hactions]
  refine .cons (h.approvable action ?_ hsupported) .nil
  rw [hactions]
  exact List.mem_singleton_self action

theorem keepsAsking_eq_false (h : s.keepsAsking action = false) :
    s.hasMultipleActions = false ∧ s.autoApprovalFailedForCurrent = false ∧
      isToolAutoApprovalSupported action.name = true ∧
      isToolAutoApproved s.storage action.name = true := by
  simp only [keepsAsking, Bool.or_eq_false_iff, Bool.not_eq_false'] at h
  exact ⟨h.1.1.1.1.1.1.1.1, h.1.1.2, h.1.2, h.2⟩

/-- **What a run of the effect does**: it cleans up, and approves the only action at most. -/
theorem approveEffect_cases (rendered s : ThreadActionsView) :
    rendered.approveEffect s = s.cleanUp rendered.deps ∨
      ∃ action key, rendered.currentAction = some action ∧
        rendered.autoApproveRequestKey = some key ∧ rendered.keepsAsking action = false ∧
        rendered.approveEffect s =
          (s.cleanUp rendered.deps).launch rendered.interrupt action key := by
  unfold approveEffect
  simp only
  split
  · rename_i action key haction hkey
    split
    · exact .inl rfl
    · rename_i hasks
      split
      · exact .inl rfl
      · exact .inr ⟨action, key, haction, hkey, by simpa using hasks, rfl⟩
  · exact .inl rfl

/-- What the effect does when what it depends on has changed -/
theorem settle_cases (s : ThreadActionsView) :
    (s.effectDeps = some s.deps ∧ s.settle = s) ∨ s.settle = s.approveEffect s := by
  unfold settle
  split
  · rename_i h
    exact .inl ⟨h, rfl⟩
  · exact .inr rfl

/-- The effect leaves what it depends on as it is. -/
theorem deps_approveEffect (s : ThreadActionsView) : (s.approveEffect s).deps = s.deps := by
  obtain h | ⟨action, key, haction, hkey, hasks, h⟩ := approveEffect_cases s s
  · rw [h]
    rfl
  · rw [h]
    obtain ⟨-, hfailed, -, -⟩ := keepsAsking_eq_false hasks
    -- the failure that is forgotten was not that of the request
    have hforgotten : ((s.cleanUp s.deps).launch s.interrupt action key).autoApprovalFailedForCurrent =
        s.autoApprovalFailedForCurrent := by
      rw [hfailed]
      show (s.autoApproveRequestKey.isSome && none == s.autoApproveRequestKey) = false
      rw [hkey]
      rfl
    exact congrArg (fun failed => { s.deps with autoApprovalFailedForCurrent := failed }) hforgotten

theorem settled_settle (s : ThreadActionsView) : s.settle.effectDeps = some s.settle.deps := by
  obtain ⟨h, hsettle⟩ | hsettle := settle_cases s
  · rw [hsettle]
    exact h
  · rw [hsettle, deps_approveEffect]
    obtain h | ⟨action, key, -, -, -, h⟩ := approveEffect_cases s s
    · rw [h]
      rfl
    · rw [h]
      rfl

end ThreadActionsView

open ThreadActionsView

variable {s : ThreadActionsView}

theorem Recorded.approveEffect (h : Recorded s) {rendered : ThreadActionsView}
    (hrendered : rendered.interrupt = s.interrupt) : Recorded (rendered.approveEffect s) := by
  obtain he | ⟨action, key, haction, hkey, hasks, he⟩ := approveEffect_cases rendered s
  · rw [he]
    exact ⟨h.matched, h.index, h.keys, h.addressed, h.mounted.unmount _, h.sent⟩
  · rw [he]
    obtain ⟨hsingle, -, hsupported, -⟩ := keepsAsking_eq_false hasks
    refine ⟨h.matched, h.index, h.keys, h.addressed, ?_, ?_⟩
    · refine (h.mounted.unmount _).append fun run waiting hrun => ?_
      cases hrun
      refine ⟨hsupported, fun _ => ⟨rendered.deps, rfl, hsingle, ?_, hkey⟩⟩
      show rendered.currentAction.map _ = _
      rw [haction]
      rfl
    · refine (h.sent.cons fun _ _ _ heq => by cases heq).cons fun _ _ _ heq => ?_
      cases heq
      exact answers_approve (hrendered ▸ h.matched) hsingle haction hsupported

/-- The effect leaves the form and what is shown as they are. -/
theorem Reviewing.approveEffect (h : Reviewing s) : Reviewing (s.approveEffect s) := by
  refine ⟨h.toRecorded.approveEffect rfl, ?_⟩
  obtain he | ⟨action, key, -, -, -, he⟩ := approveEffect_cases s s
  · rw [he]
    exact h.form
  · rw [he]
    exact h.form

/-- Rendering what an event has set -/
theorem Reviewing.settle (h : Reviewing s) : Reviewing s.settle := by
  obtain ⟨-, he⟩ | he := settle_cases s
  · rw [he]
    exact h
  · rw [he]
    exact h.approveEffect

/-! ## The events -/

/-- The form that is loaded is about the action that is shown. -/
theorem fits_loadForm (s : ThreadActionsView) (haction : s.currentAction = some action)
    (hconfig : s.interrupt.configNamed action.name = some config) :
    s.loadForm.form.Fits action config := by
  have hmatching : s.matchingConfig = some config := by
    unfold ThreadActionsView.matchingConfig
    rw [haction, Option.bind_some, hconfig]
    rfl
  unfold ThreadActionsView.loadForm ThreadActionsView.singleActionInterrupt
  rw [haction, hmatching]
  exact fits_form

theorem Recorded.loadForm (h : Recorded s) : Reviewing s.loadForm :=
  ⟨⟨h.matched, h.index, h.keys, h.addressed, h.mounted, h.sent⟩,
    fun _ _ haction hconfig => fits_loadForm s haction hconfig⟩

theorem reviewing_mount {request : HITLRequest} (h : request.Matched) (storage : StoredItem) :
    Reviewing (mount request storage) := by
  have hinitial : Recorded (initial request storage) :=
    ⟨h, h.positive, .nil, fun _ hp => (List.not_mem_nil hp).elim, fun _ _ hmem => (List.not_mem_nil hmem).elim,
      fun _ _ _ hmem => (List.not_mem_nil hmem).elim⟩
  exact hinitial.loadForm.settle

/-- A new interrupt forgets what is recorded about the old one. -/
theorem Reviewing.receive (h : Reviewing s) {request : HITLRequest} (hrequest : request.Matched) :
    Reviewing (s.receive request) := by
  have hreset : Recorded ({ s with interrupt := request }.reset request) :=
    ⟨hrequest, hrequest.positive, .nil, fun _ hp => (List.not_mem_nil hp).elim, h.mounted, h.sent⟩
  have hfirst : Recorded
      (if s.effectDeps = some { s with interrupt := request }.deps then
        { s with interrupt := request }.reset request
      else { s with interrupt := request }.approveEffect
        ({ s with interrupt := request }.reset request)) := by
    split
    · exact hreset
    · exact hreset.approveEffect rfl
  exact hfirst.loadForm.settle

/-- Another action is shown, and its form is loaded. -/
theorem Reviewing.moveTo (h : Reviewing s) {index : Nat}
    (hindex : index < s.interrupt.actionRequests.length) : Reviewing (s.moveTo index) := by
  unfold ThreadActionsView.moveTo
  split
  · exact h
  · refine Recorded.loadForm ?_
    exact ⟨h.matched, hindex, h.keys, h.addressed, h.mounted, h.sent⟩

/-- The decision of the form is about the action that is shown. -/
theorem Reviewing.decision (h : Reviewing s) {submitType : Option DecisionType}
    {decision : ReviewDecision}
    (hd : buildDecisionFromState s.form.humanResponse submitType = .ok decision) :
    ∃ action, s.currentAction = some action ∧ AllowedFor s.interrupt action decision := by
  have haction : s.currentAction = some (s.interrupt.actionRequests.get ⟨_, h.index⟩) :=
    List.getElem?_eq_getElem h.index
  obtain ⟨config, hconfig⟩ := h.matched.configs _ (List.get_mem ..)
  exact ⟨_, haction, (h.form _ config haction hconfig).decision hconfig hd⟩

/-- The decision of an index is replaced. -/
theorem nodup_setDecision {decisions : List (Nat × ReviewDecision)} (index : Nat)
    (decision : ReviewDecision) (h : (decisions.map Prod.fst).Nodup) :
    ((setDecision index decision decisions).map Prod.fst).Nodup := by
  unfold setDecision
  rw [List.map_cons, List.nodup_cons]
  refine ⟨fun hmem => ?_, h.sublist (List.filter_sublist.map Prod.fst)⟩
  obtain ⟨p, hp, heq⟩ := List.mem_map.mp hmem
  exact absurd heq (by simpa using (List.mem_filter.mp hp).2)

theorem Reviewing.handleSaveDecision (h : Reviewing s) (submitType : Option DecisionType) :
    Reviewing (s.handleSaveDecision submitType) := by
  unfold ThreadActionsView.handleSaveDecision
  split
  · exact h
  · rename_i decision hd
    obtain ⟨action, haction, hallowed⟩ := h.decision hd
    have hsaved : Reviewing
        { s with addressedActions := setDecision s.currentIndex decision s.addressedActions } := by
      refine ⟨⟨h.matched, h.index, nodup_setDecision _ _ h.keys, ?_, h.mounted, h.sent⟩, h.form⟩
      intro p hp
      rcases List.mem_cons.mp hp with rfl | hp
      · exact ⟨action, haction, hallowed⟩
      · exact h.addressed p (List.mem_filter.mp hp).1
    simp only
    split
    · rename_i hlt
      refine hsaved.moveTo ?_
      show min (s.interrupt.actionRequests.length - 1) (s.currentIndex + 1) <
        s.interrupt.actionRequests.length
      omega
    · exact hsaved

theorem Reviewing.handleSubmit (h : Reviewing s) (hsingle : s.hasMultipleActions = false)
    (submitType : Option DecisionType) : Reviewing (s.handleSubmit submitType) := by
  unfold ThreadActionsView.handleSubmit
  split
  · exact h
  split
  · exact h
  · rename_i decision hd
    obtain ⟨action, haction, hallowed⟩ := h.decision hd
    refine ⟨⟨h.matched, h.index, h.keys, h.addressed, ?_, ?_⟩, h.form⟩
    · exact h.mounted.append fun run waiting heq => by cases heq
    · refine h.sent.cons fun responder request decisions heq => ?_
      cases heq
      unfold AnsweredBy
      rw [actions_of_single hsingle haction]
      exact .cons hallowed .nil

theorem Reviewing.submitDecision (h : Reviewing s) (override : Option DecisionType) :
    Reviewing (s.submitDecision override) := by
  have hsubmitted : Reviewing (s.handleDecision (override <|> s.form.selectedSubmitType)) := by
    unfold handleDecision
    split
    · exact h.handleSaveDecision _
    · rename_i hsingle
      exact h.handleSubmit (by simpa using hsingle) _
  unfold ThreadActionsView.submitDecision
  simp only
  split
  · exact ⟨⟨hsubmitted.matched, hsubmitted.index, hsubmitted.keys, hsubmitted.addressed,
      hsubmitted.mounted, hsubmitted.sent⟩, hsubmitted.form⟩
  · exact hsubmitted

/-- The decisions of the loop meet the actions from the index on. -/
theorem decisionsFrom_allowed {addressedActions : List (Nat × ReviewDecision)}
    {actionRequests : List ActionRequest}
    (h : ∀ p ∈ addressedActions, ∃ action, actionRequests[p.1]? = some action ∧
      AllowedFor request action p.2) :
    ∀ (rest before : List ActionRequest) (decisions : List ReviewDecision),
      actionRequests = before ++ rest →
      decisionsFrom addressedActions before.length rest = some decisions →
      List.Forall₂ (AllowedFor request) rest decisions := by
  intro rest
  induction rest with
  | nil =>
    intro before decisions _ hd
    obtain rfl := Option.some.inj hd
    exact .nil
  | cons action rest ih =>
    intro before decisions hactions hd
    simp only [decisionsFrom, Option.bind_eq_bind, Option.bind_eq_some_iff] at hd
    obtain ⟨decision, hlookup, others, hothers, heq⟩ := hd
    obtain rfl := Option.some.inj heq
    obtain ⟨action', haction', hallowed⟩ := h _ (Dict.mem_of_lookup hlookup)
    have hget : actionRequests[before.length]? = some action := by
      rw [hactions, List.getElem?_append_right (Nat.le_refl _), Nat.sub_self]
      rfl
    obtain rfl := Option.some.inj (haction'.symm.trans hget)
    refine .cons hallowed (ih (before ++ [action']) others ?_ ?_)
    · rw [hactions, List.append_assoc]
      rfl
    · rw [List.length_append]
      exact hothers

/-- The recorded decisions are sent, one for each action. -/
theorem Reviewing.handleSubmitAll (h : Reviewing s) : Reviewing s.handleSubmitAll := by
  unfold ThreadActionsView.handleSubmitAll
  split
  · exact h
  · rename_i decisions hd
    refine ⟨⟨h.matched, h.index, h.keys, h.addressed, ?_, ?_⟩, h.form⟩
    · exact h.mounted.append fun run waiting heq => by cases heq
    · refine h.sent.cons fun responder request decisions heq => ?_
      cases heq
      exact decisionsFrom_allowed h.addressed _ [] _ rfl hd

/-- All actions are approved at once. -/
theorem Reviewing.handleApproveAll (h : Reviewing s) (hallow : s.allAllowApprove = true) :
    Reviewing s.handleApproveAll := by
  refine ⟨⟨h.matched, h.index, h.keys, h.addressed, ?_, ?_⟩, h.form⟩
  · exact h.mounted.append fun run waiting heq => by cases heq
  · refine h.sent.cons fun responder request decisions heq => ?_
    cases heq
    unfold AnsweredBy
    rw [List.forall₂_map_right_iff, List.forall₂_same]
    intro action haction
    unfold ThreadActionsView.allAllowApprove at hallow
    rw [Bool.and_eq_true, List.all_eq_true] at hallow
    have happroves := hallow.2 action haction
    cases hconfig : s.interrupt.configNamed action.name with
    | none => simp [hconfig] at happroves
    | some config =>
      rw [hconfig] at happroves
      exact ⟨⟨config, hconfig, List.contains_iff_mem.mp happroves⟩, trivial⟩

theorem Reviewing.answerAutoApproval (h : Reviewing s) {i : Nat} {run : AutoApprovalRun}
    (hrun : s.pending[i]? = some (.autoApproval run false)) (outcome : RespondOutcome) :
    Reviewing (s.answerAutoApproval i run outcome) := by
  have hsent : AllAnswer (.answered run.launch outcome :: s.log) :=
    h.sent.cons fun _ _ _ heq => by cases heq
  have hwaits : RunsMounted (s.pending.set i (.autoApproval run true)) s.effectDeps :=
    h.mounted.set hrun rfl rfl rfl
  have herased := h.mounted.eraseIdx i
  unfold ThreadActionsView.answerAutoApproval
  simp only
  split
  · exact ⟨⟨h.matched, h.index, h.keys, h.addressed, herased, hsent⟩, h.form⟩
  · exact ⟨⟨h.matched, h.index, h.keys, h.addressed, herased, hsent⟩, h.form⟩
  all_goals
    split
    · exact ⟨⟨h.matched, h.index, h.keys, h.addressed, hwaits, hsent⟩, h.form⟩
    · exact ⟨⟨h.matched, h.index, h.keys, h.addressed, herased, hsent⟩, h.form⟩

/-- An answer of the stream -/
theorem Reviewing.answer (h : Reviewing s) {i : Nat} {outcome : RespondOutcome}
    {s' : ThreadActionsView} (hs : s.answer i outcome = some s') : Reviewing s' := by
  unfold ThreadActionsView.answer at hs
  have herased := h.mounted.eraseIdx i
  split at hs
  · cases hs
  · cases hs
  · rename_i run hrun
    obtain rfl := Option.some.inj hs
    exact h.answerAutoApproval hrun outcome
  · obtain rfl := Option.some.inj hs
    exact ⟨⟨h.matched, h.index, h.keys, h.addressed, herased, h.sent⟩, h.form⟩
  · obtain rfl := Option.some.inj hs
    by_cases houtcome : outcome = .success
    · refine ⟨⟨h.matched, h.index, ?_, ?_, herased, h.sent⟩, h.form⟩
      · simp [houtcome]
      · simp [houtcome]
    · refine ⟨⟨h.matched, h.index, ?_, ?_, herased, h.sent⟩, h.form⟩
      · simpa [houtcome] using h.keys
      · simpa [houtcome] using h.addressed
  · obtain rfl := Option.some.inj hs
    exact ⟨⟨h.matched, h.index, h.keys, h.addressed, herased, h.sent⟩, h.form⟩
  · obtain rfl := Option.some.inj hs
    exact ⟨⟨h.matched, h.index, h.keys, h.addressed, herased, h.sent⟩, h.form⟩

/-- What is shown when a mounted run tries again -/
theorem shown_of_mounted (hsettled : s.effectDeps = some s.deps) {run : AutoApprovalRun}
    (h : MountedBy s.effectDeps run) : s.hasMultipleActions = false ∧
      ∃ action, s.currentAction = some action ∧ action.name = run.toolName ∧
        action.requestKey = some run.requestKey := by
  obtain ⟨d, hd, hsingle, hname, hkey⟩ := h
  obtain rfl := Option.some.inj (hsettled.symm.trans hd)
  obtain ⟨action, haction, hname⟩ := Option.map_eq_some_iff.mp hname
  refine ⟨hsingle, action, haction, hname, ?_⟩
  have hbind : s.currentAction.bind ActionRequest.requestKey = some run.requestKey := hkey
  rwa [haction] at hbind

theorem Reviewing.fire (h : Reviewing s) (hsettled : s.effectDeps = some s.deps) {i : Nat}
    {s' : ThreadActionsView} (hs : s.fire i = some s') : Reviewing s' := by
  unfold ThreadActionsView.fire at hs
  split at hs
  · rename_i run hrun
    split at hs
    · rename_i hmounted
      obtain rfl := Option.some.inj hs
      refine ⟨⟨h.matched, h.index, h.keys, h.addressed, h.mounted.set hrun rfl rfl rfl, ?_⟩, h.form⟩
      refine h.sent.cons fun responder request decisions heq => ?_
      cases heq
      obtain ⟨hsupported, hby⟩ := h.mounted run true (List.mem_of_getElem? hrun)
      obtain ⟨hsingle, action, haction, hname, -⟩ := shown_of_mounted hsettled (hby hmounted)
      exact answers_approve h.matched hsingle haction (hname ▸ hsupported)
    · obtain rfl := Option.some.inj hs
      exact ⟨⟨h.matched, h.index, h.keys, h.addressed, h.mounted.eraseIdx i, h.sent⟩, h.form⟩
  · cases hs

theorem Reviewing.changePreference (h : Reviewing s) (toolName : String) (enabled written : Bool) :
    Reviewing (s.changePreference toolName enabled written) := by
  have hsent : AllAnswer (if written then .preference toolName enabled :: s.log else s.log) := by
    split
    · exact h.sent.cons fun _ _ _ heq => by cases heq
    · exact h.sent
  unfold ThreadActionsView.changePreference
  generalize setToolAutoApproved s.storage toolName enabled written = storage
  exact ⟨⟨h.matched, h.index, h.keys, h.addressed, h.mounted, hsent⟩, h.form⟩

/-! ## The runs of the view -/

/-- The interrupts that arrive are requests the server has built. -/
def FromServer (_ : ThreadActionsView) (action : ViewAction) : Prop :=
  ∀ request, action = .receive request → request.Matched

/-- **One event.** -/
theorem Reviewing.handle (h : Reviewing s) (hsettled : s.effectDeps = some s.deps)
    {a : ViewAction} (ha : FromServer s a) (hoffers : s.offers a = true) {s' : ThreadActionsView}
    (hs : s.handle a = some s') : Reviewing s' := by
  cases a with
  | receive request =>
    obtain rfl := Option.some.inj hs
    exact h.receive (ha request rfl)
  | streamChanged =>
    obtain rfl := Option.some.inj hs
    exact h.approveEffect
  | editForm action =>
    obtain rfl := Option.some.inj hs
    simp only [ThreadActionsView.offers, Bool.and_eq_true] at hoffers
    refine ⟨⟨h.matched, h.index, h.keys, h.addressed, h.mounted, h.sent⟩, ?_⟩
    exact fun _ _ haction hconfig => (h.form _ _ haction hconfig).act hoffers.2
  | select submitType =>
    obtain rfl := Option.some.inj hs
    exact ⟨⟨h.matched, h.index, h.keys, h.addressed, h.mounted, h.sent⟩, h.form⟩
  | goTo index =>
    obtain rfl := Option.some.inj hs
    simp only [ThreadActionsView.offers, Bool.and_eq_true, decide_eq_true_eq] at hoffers
    exact h.moveTo hoffers.2
  | previous =>
    obtain rfl := Option.some.inj hs
    exact h.moveTo (Nat.lt_of_le_of_lt (Nat.sub_le _ _) h.index)
  | next =>
    obtain rfl := Option.some.inj hs
    have hindex := h.index
    exact h.moveTo (by omega)
  | submit override =>
    obtain rfl := Option.some.inj hs
    exact h.submitDecision override
  | submitAll =>
    obtain rfl := Option.some.inj hs
    exact h.handleSubmitAll
  | approveAll =>
    obtain rfl := Option.some.inj hs
    simp only [ThreadActionsView.offers, Bool.and_eq_true] at hoffers
    exact h.handleApproveAll hoffers.1.2
  | resolve =>
    obtain rfl := Option.some.inj hs
    refine ⟨⟨h.matched, h.index, h.keys, h.addressed, ?_, ?_⟩, h.form⟩
    · exact h.mounted.append fun run waiting heq => by cases heq
    · exact h.sent.cons fun _ _ _ heq => by cases heq
  | answer i outcome => exact h.answer hs
  | fire i => exact h.fire hsettled hs
  | changePreference enabled written =>
    obtain ⟨action, -, rfl⟩ := Option.map_eq_some_iff.mp hs
    exact h.changePreference action.name enabled written
  | otherTab item =>
    obtain rfl := Option.some.inj hs
    refine ⟨⟨h.matched, h.index, h.keys, h.addressed, h.mounted, ?_⟩, h.form⟩
    exact h.sent.cons fun _ _ _ heq => by cases heq

theorem step_threadActionsView {s s' : ThreadActionsView} {a : ViewAction}
    (h : threadActionsView.step s a = some s') :
    s.offers a = true ∧ ∃ handled, s.handle a = some handled ∧ s' = handled.settle := by
  simp only [threadActionsView] at h
  split at h
  · rename_i hoffers
    obtain ⟨handled, hhandled, rfl⟩ := Option.map_eq_some_iff.mp h
    exact ⟨hoffers, handled, hhandled, rfl⟩
  · cases h

end Frontend

end HyChat
