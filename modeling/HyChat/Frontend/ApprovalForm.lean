import HyChat.Lib.Dict
import HyChat.Lib.Js
import HyChat.Tracing.SafeJson
import Mathlib.Logic.Function.Basic

/-!
# The form that reviews a tool call

The arguments of a tool call are shown as texts that can be edited. What is submitted is an approval
or the edited arguments, decided by comparing texts. Three functions make a text of a value: the
form starts with one, displays another and compares with the first again.

A number is carried by the text JavaScript prints for it.

Why three functions matter. A value is turned into a text when the form is made, when a field is
shown, and when it is compared with what was there first. They agree on strings, numbers and
booleans, but null is shown as an empty field, and an object is shown over several lines and
compared on one. A field that was typed in carries the text from then on, so a number that is
changed and changed back is a text that looks like it.

"Faithful" says what an edit submission should be, in terms of what is displayed: an approval when
nothing displayed has changed, and otherwise the arguments in which exactly the fields that display
something else are replaced. `TextsAgree` is the condition on the texts that were given, and it
only mentions the request and those texts. The invariant that carries it is `Edits`: at any time
the edit response holds the arguments with the texts given last.
-/

set_option autoImplicit false

namespace HyChat

open Lib

namespace Frontend

inductive DecisionType
  | approve
  | edit
  | reject
  deriving DecidableEq

structure EditedAction where
  name : String
  args : List (String × Json)

/-- An object has each key once. -/
structure ActionRequest where
  name : String
  args : List (String × Json)
  keys : (args.map Prod.fst).Nodup

structure ReviewConfig where
  actionName : String
  allowedDecisions : List DecisionType

structure HITLRequest where
  actionRequests : List ActionRequest
  reviewConfigs : List ReviewConfig

/-- `Decision` -/
inductive ReviewDecision
  | approve
  | reject (message : String)
  | edit (action : EditedAction)

/-- A decision in preparation; a flag that is missing is false. -/
inductive DecisionWithEdits
  | approve
  | reject (message : String)
  | edit (action : EditedAction) (acceptAllowed editsMade : Bool)

def DecisionWithEdits.type : DecisionWithEdits → DecisionType
  | .approve => .approve
  | .reject _ => .reject
  | .edit _ _ _ => .edit

/-- The responses of one type are replaced, the others stay. -/
def DecisionWithEdits.onEdit (f : EditedAction → Bool → DecisionWithEdits) :
    DecisionWithEdits → DecisionWithEdits
  | .edit action acceptAllowed _ => f action acceptAllowed
  | other => other

def DecisionWithEdits.onReject (message : String) : DecisionWithEdits → DecisionWithEdits
  | .reject _ => .reject message
  | other => other

/-! ## Three texts of a value -/

/-- The text of a value in `createDefaultHumanResponse` and in `haveArgsChanged` -/
def valueString : Json → String
  | .str s => s
  | v => v.dumps

/-- `stringifyArgValue` -/
def stringifyArgValue : Json → String
  | .str s => s
  | .null => ""
  | v => String.ofList (v.indented 0)

/-- Whether the text of some argument is not the one it started with. -/
def haveArgsChanged (args : List (String × Json)) (initialValues : List (String × String)) : Bool :=
  args.any fun arg => initialValues.lookup arg.1 != some (valueString arg.2)

/-! ## The form -/

structure ReviewForm where
  actionArgs : List (String × Json)
  /-- What `review_configs[0]` allows -/
  allowedDecisions : List DecisionType
  approveAllowed : Bool
  initialValues : List (String × String)
  humanResponse : List DecisionWithEdits
  selectedSubmitType : Option DecisionType
  hasEdited : Bool
  hasAddedResponse : Bool

/-- The action under review with its config -/
def HITLRequest.reviewed (request : HITLRequest) : Option (ActionRequest × ReviewConfig) := do
  let action ← request.actionRequests.head?
  let config ← (request.reviewConfigs.find? fun config => config.actionName == action.name) <|>
    request.reviewConfigs.head?
  pure (action, config)

/-- The responses and the initial values of `createDefaultHumanResponse` -/
def createDefaultHumanResponse (action : ActionRequest) (config : ReviewConfig) :
    List DecisionWithEdits × List (String × String) :=
  let allowed := config.allowedDecisions
  let edit :=
    if allowed.contains .edit then
      [.edit ⟨action.name, action.args⟩ (allowed.contains .approve) false]
    else []
  let approve := if allowed.contains .approve then [.approve] else []
  let reject := if allowed.contains .reject then [.reject ""] else []
  (edit ++ approve ++ reject,
    if allowed.contains .edit then action.args.map fun arg => (arg.1, valueString arg.2) else [])

/-- Priority: approve, reject, edit -/
def defaultSubmitType (config : ReviewConfig) : Option DecisionType :=
  if config.allowedDecisions.contains .approve then some .approve
  else if config.allowedDecisions.contains .reject then some .reject
  else if config.allowedDecisions.contains .edit then some .edit
  else none

def HITLRequest.form (request : HITLRequest) : ReviewForm :=
  let allowed := (request.reviewConfigs.head?.map (·.allowedDecisions)).getD []
  let args := (request.actionRequests.head?.map (·.args)).getD []
  match request.reviewed with
  | none => ⟨args, allowed, false, [], [], none, false, false⟩
  | some (action, config) =>
      let (responses, initialValues) := createDefaultHumanResponse action config
      ⟨args, allowed, config.allowedDecisions.contains .approve, initialValues, responses,
        defaultSubmitType config, false, false⟩

def ReviewForm.isEditAllowed (form : ReviewForm) : Bool := form.allowedDecisions.contains .edit

def ReviewForm.isRejectAllowed (form : ReviewForm) : Bool := form.allowedDecisions.contains .reject

/-- The edit response, which the form is rendered from -/
def editResponse? (responses : List DecisionWithEdits) : Option EditedAction :=
  responses.findSome? fun response => match response with
    | .edit action _ _ => some action
    | _ => none

/-- `onEditChange` for one field, called with the edit response that is rendered -/
def ReviewForm.onEditChange (form : ReviewForm) (key text : String) : ReviewForm :=
  match editResponse? form.humanResponse with
  | none => form
  | some action =>
      let newArgs := setItem key (.str text) action.args
      let valuesChanged := haveArgsChanged newArgs form.initialValues
      let selected :=
        if valuesChanged then some .edit
        else if form.approveAllowed then some .approve
        else if form.hasAddedResponse then some .reject
        else if form.isEditAllowed then some .edit
        else form.selectedSubmitType
      { form with
        selectedSubmitType := selected
        hasEdited := valuesChanged
        humanResponse := form.humanResponse.map <| .onEdit fun _ acceptAllowed =>
          .edit ⟨action.name, newArgs⟩ acceptAllowed (acceptAllowed && valuesChanged) }

/-- `message.trim()` -/
def trimText (text : String) : String := String.ofList (Js.trim text.toList)

def ReviewForm.onRejectChange (form : ReviewForm) (text : String) : ReviewForm :=
  let trimmed := trimText text
  let selected :=
    if trimmed ≠ "" then some .reject
    else if form.hasEdited then some .edit
    else if form.approveAllowed then some .approve
    else if form.isEditAllowed then some .edit
    else form.selectedSubmitType
  { form with
    hasAddedResponse := trimmed ≠ ""
    selectedSubmitType := selected
    humanResponse := form.humanResponse.map <| .onReject text }

/-- The text a field is reset to -/
def ReviewForm.resetText (form : ReviewForm) (key : String) : String :=
  (form.initialValues.lookup key).getD (((form.actionArgs.lookup key).map stringifyArgValue).getD "")

def ReviewForm.handleReset (form : ReviewForm) : ReviewForm :=
  let selected :=
    if form.approveAllowed then some .approve
    else if form.isEditAllowed then some .edit
    else if form.isRejectAllowed then some .reject
    else form.selectedSubmitType
  { form with
    hasEdited := false
    hasAddedResponse := false
    selectedSubmitType := selected
    humanResponse := form.humanResponse.map fun response =>
      (response.onEdit fun action acceptAllowed =>
        .edit ⟨action.name, action.args.map fun arg => (arg.1, .str (form.resetText arg.1))⟩
          acceptAllowed false).onReject "" }

inductive FormAction
  | editChange (key text : String)
  | rejectChange (text : String)
  | reset

def ReviewForm.act (form : ReviewForm) : FormAction → ReviewForm
  | .editChange key text => form.onEditChange key text
  | .rejectChange text => form.onRejectChange text
  | .reset => form.handleReset

/-- What is submitted: the decision of the type that is selected. -/
def buildDecisionFromState (responses : List DecisionWithEdits)
    (selectedSubmitType : Option DecisionType) : Except String ReviewDecision :=
  if responses.isEmpty then .error "请先选择一种处理方式。"
  else
    match responses.find? fun response => some response.type == selectedSubmitType with
    | none => .error "还没有选择处理方式。"
    | some .approve => .ok .approve
    | some (.reject message) =>
        if trimText message = "" then .error "请填写拒绝原因。" else .ok (.reject (trimText message))
    | some (.edit action acceptAllowed editsMade) =>
        if acceptAllowed && !editsMade then .ok .approve else .ok (.edit action)

/-! ## The texts of the fields -/

/-- The text that is displayed for a field of the edit response -/
def ReviewForm.fieldText (form : ReviewForm) (key : String) : Option String :=
  ((editResponse? form.humanResponse).bind (·.args.lookup key)).map stringifyArgValue

/-- What an edit submission has to become: an approval when every field shows the text it was first
    displayed with, and otherwise the arguments in which these fields have their original values and
    the other ones the texts that are entered. -/
def FaithfulDecision (action : ActionRequest) (form : ReviewForm) :
    Except String ReviewDecision → Prop
  | .ok .approve => ∀ arg ∈ action.args, form.fieldText arg.1 = some (stringifyArgValue arg.2)
  | .ok (.edit edited) =>
      (∃ arg ∈ action.args, form.fieldText arg.1 ≠ some (stringifyArgValue arg.2)) ∧
        edited.name = action.name ∧ edited.args.map Prod.fst = action.args.map Prod.fst ∧
        ∀ arg ∈ action.args, edited.args.lookup arg.1 =
          if form.fieldText arg.1 = some (stringifyArgValue arg.2) then some arg.2
          else (form.fieldText arg.1).map .str
  | _ => False

/-- The text a field was given last: typed into it, or put there by a reset. -/
def givenText (args : List (String × Json)) (given : String → Option String) :
    FormAction → String → Option String
  | .editChange key text => Function.update given key (some text)
  | .rejectChange _ => given
  | .reset => fun key => (args.lookup key).map valueString

def givenTexts (args : List (String × Json)) (actions : List FormAction) : String → Option String :=
  actions.foldl (givenText args) fun _ => none

/-- The arguments with the texts that were given -/
def givenArgs (args : List (String × Json)) (given : String → Option String) :
    List (String × Json) :=
  args.map fun arg => (arg.1, (given arg.1).elim arg.2 .str)

/-- Either no text that was given changes anything, by the text of the comparison and by the one
    displayed; or one changes something by each, and where the text is the displayed one the value
    is that very string. -/
def TextsAgree (args : List (String × Json)) (given : String → Option String) : Prop :=
  (∀ arg ∈ args, ∀ text, given arg.1 = some text →
    text = valueString arg.2 ∧ text = stringifyArgValue arg.2) ∨
  (∃ arg ∈ args, ∃ text, given arg.1 = some text ∧ text ≠ valueString arg.2) ∧
    (∃ arg ∈ args, ∃ text, given arg.1 = some text ∧ text ≠ stringifyArgValue arg.2) ∧
    ∀ arg ∈ args, ∀ text, given arg.1 = some text → text = stringifyArgValue arg.2 →
      arg.2 = .str text

variable {args : List (String × Json)}

theorem keys_givenArgs (given : String → Option String) :
    (givenArgs args given).map Prod.fst = args.map Prod.fst := by
  simp [givenArgs, Function.comp_def]

theorem givenArgs_congr {given given' : String → Option String}
    (h : ∀ arg ∈ args, given arg.1 = given' arg.1) : givenArgs args given = givenArgs args given' := by
  unfold givenArgs
  refine List.map_congr_left fun arg harg => ?_
  rw [h arg harg]

/-- Typing into a field gives it a text. -/
theorem setItem_givenArgs (hkeys : (args.map Prod.fst).Nodup) {given : String → Option String}
    {key : String} (hkey : key ∈ args.map Prod.fst) (text : String) :
    setItem key (.str text) (givenArgs args given) =
      givenArgs args (Function.update given key (some text)) := by
  induction args with
  | nil => exact absurd hkey (by simp)
  | cons arg args ih =>
    rw [List.map_cons, List.nodup_cons] at hkeys
    unfold givenArgs at ih ⊢
    rw [List.map_cons, List.map_cons, setItem]
    by_cases he : arg.1 = key
    · subst he
      rw [if_pos rfl, Function.update_self]
      refine congrArg _ (givenArgs_congr fun other hother => ?_)
      have hne : other.1 ≠ arg.1 := fun he => hkeys.1 (he ▸ List.mem_map_of_mem hother)
      rw [Function.update_of_ne hne]
    · rw [if_neg he, Function.update_of_ne he]
      refine congrArg _ (ih hkeys.2 ?_)
      rcases List.mem_cons.mp hkey with hkey | hkey
      · exact absurd hkey.symm he
      · exact hkey

/-- A field counts as changed when a text was given to it that is not the text of the comparison. -/
theorem haveArgsChanged_givenArgs (hkeys : (args.map Prod.fst).Nodup)
    (given : String → Option String) :
    haveArgsChanged (givenArgs args given) (args.map fun arg => (arg.1, valueString arg.2)) = true ↔
      ∃ arg ∈ args, ∃ text, given arg.1 = some text ∧ text ≠ valueString arg.2 := by
  unfold haveArgsChanged givenArgs
  rw [List.any_map, List.any_eq_true]
  refine exists_congr fun arg => and_congr_right fun harg => ?_
  have hlookup := Dict.lookup_map_of_mem (fun _ value => valueString value) hkeys harg
  simp only [Function.comp_apply, bne_iff_ne, hlookup, ne_eq, Option.some.injEq]
  cases given arg.1 with
  | none => simp
  | some text =>
    simp only [Option.elim_some, valueString, Option.some.injEq, exists_eq_left']
    exact not_congr eq_comm

/-! ## A run of the form -/

/-- **The invariant.** The edit response holds the arguments with the texts that were given, and its
    flag says whether they count as changed. -/
structure Edits (action : ActionRequest) (given : String → Option String) (form : ReviewForm) :
    Prop where
  initialValues : form.initialValues = action.args.map fun arg => (arg.1, valueString arg.2)
  response : ∃ others : List DecisionWithEdits, (∀ r ∈ others, r.type ≠ .edit) ∧
    form.humanResponse =
      .edit ⟨action.name, givenArgs action.args given⟩ true
        (haveArgsChanged (givenArgs action.args given) form.initialValues) :: others

theorem onEdit_of_other {r : DecisionWithEdits} (h : r.type ≠ .edit)
    (f : EditedAction → Bool → DecisionWithEdits) : r.onEdit f = r := by
  cases r with
  | edit => exact absurd rfl h
  | approve => rfl
  | reject => rfl

theorem map_onEdit {others : List DecisionWithEdits} (h : ∀ r ∈ others, r.type ≠ .edit)
    (f : EditedAction → Bool → DecisionWithEdits) : others.map (.onEdit f) = others := by
  rw [List.map_congr_left fun r hr => onEdit_of_other (h r hr) f, List.map_id']

theorem type_onReject (message : String) (r : DecisionWithEdits) :
    (r.onReject message).type = r.type := by
  cases r with
  | edit => rfl
  | approve => rfl
  | reject => rfl

theorem others_onReject {others : List DecisionWithEdits} (h : ∀ r ∈ others, r.type ≠ .edit)
    (message : String) : ∀ r ∈ others.map (DecisionWithEdits.onReject message), r.type ≠ .edit := by
  intro r hr
  obtain ⟨other, hother, rfl⟩ := List.mem_map.mp hr
  rw [type_onReject]
  exact h other hother

/-- A form that was just made holds the arguments as they came. -/
theorem edits_form {request : HITLRequest} {action : ActionRequest} {config : ReviewConfig}
    (h : request.reviewed = some (action, config)) (happrove : .approve ∈ config.allowedDecisions)
    (hedit : .edit ∈ config.allowedDecisions) : Edits action (fun _ => none) request.form := by
  have hargs : givenArgs action.args (fun _ => none) = action.args := by
    simp [givenArgs]
  have hunchanged : haveArgsChanged action.args
      (action.args.map fun arg => (arg.1, valueString arg.2)) = false := by
    have hiff := haveArgsChanged_givenArgs action.keys fun _ => none
    rw [hargs] at hiff
    rw [← Bool.not_eq_true, hiff]
    simp
  unfold HITLRequest.form
  rw [h]
  simp only [createDefaultHumanResponse, List.contains_iff_mem.mpr hedit,
    List.contains_iff_mem.mpr happrove, if_true]
  refine ⟨rfl, [.approve] ++ if config.allowedDecisions.contains .reject then [.reject ""] else [],
    ?_, ?_⟩
  · intro r hr
    rcases List.mem_append.mp hr with hr | hr
    · rw [List.mem_singleton] at hr
      simp [hr, DecisionWithEdits.type]
    · split at hr
      · rw [List.mem_singleton] at hr
        simp [hr, DecisionWithEdits.type]
      · exact absurd hr (by simp)
  · rw [hargs, hunchanged]
    rfl

/-- Typing into a field -/
theorem Edits.editChange {action : ActionRequest} {given : String → Option String}
    {form : ReviewForm} (h : Edits action given form) {key : String}
    (hkey : key ∈ action.args.map Prod.fst) (text : String) :
    Edits action (Function.update given key (some text)) (form.onEditChange key text) := by
  obtain ⟨hinitial, others, hothers, hresponse⟩ := h
  have hrendered : editResponse? form.humanResponse =
      some ⟨action.name, givenArgs action.args given⟩ := by
    rw [hresponse]
    rfl
  unfold ReviewForm.onEditChange
  rw [hrendered]
  simp only
  rw [setItem_givenArgs action.keys hkey]
  refine ⟨hinitial, others, hothers, ?_⟩
  simp only
  rw [hresponse, List.map_cons, map_onEdit hothers]
  rfl

/-- Typing a reason does not touch the arguments. -/
theorem Edits.rejectChange {action : ActionRequest} {given : String → Option String}
    {form : ReviewForm} (h : Edits action given form) (text : String) :
    Edits action given (form.onRejectChange text) := by
  obtain ⟨hinitial, others, hothers, hresponse⟩ := h
  refine ⟨hinitial, _, others_onReject hothers text, ?_⟩
  unfold ReviewForm.onRejectChange
  simp only
  rw [hresponse, List.map_cons]
  rfl

/-- Resetting puts the first text back into each field. -/
theorem Edits.reset {action : ActionRequest} {given : String → Option String} {form : ReviewForm}
    (h : Edits action given form) :
    Edits action (fun key => (action.args.lookup key).map valueString) form.handleReset := by
  obtain ⟨hinitial, others, hothers, hresponse⟩ := h
  have htext : ∀ arg ∈ action.args, (action.args.lookup arg.1).map valueString =
      some (form.resetText arg.1) := by
    intro arg harg
    rw [Dict.lookup_of_mem action.keys harg, ReviewForm.resetText, hinitial,
      Dict.lookup_map_of_mem (fun _ value => valueString value) action.keys harg]
    rfl
  have hargs : (givenArgs action.args given).map (fun arg => (arg.1, .str (form.resetText arg.1))) =
      givenArgs action.args fun key => (action.args.lookup key).map valueString := by
    unfold givenArgs
    rw [List.map_map]
    refine List.map_congr_left fun arg harg => ?_
    simp only [Function.comp_apply, htext arg harg, Option.elim_some]
  have hunchanged : haveArgsChanged
      (givenArgs action.args fun key => (action.args.lookup key).map valueString)
      form.initialValues = false := by
    rw [hinitial, ← Bool.not_eq_true, haveArgsChanged_givenArgs action.keys]
    rintro ⟨arg, harg, text, hgiven, hne⟩
    rw [Dict.lookup_of_mem action.keys harg, Option.map_some, Option.some.injEq] at hgiven
    exact hne hgiven.symm
  refine ⟨hinitial, _, others_onReject hothers "", ?_⟩
  unfold ReviewForm.handleReset
  simp only
  rw [hresponse, hunchanged, ← hargs, List.map_cons]
  refine congrArg _ (List.map_congr_left fun r hr => ?_)
  rw [onEdit_of_other (hothers r hr)]

theorem Edits.act {action : ActionRequest} {given : String → Option String} {form : ReviewForm}
    (h : Edits action given form) (a : FormAction)
    (hkey : ∀ key text, a = .editChange key text → key ∈ action.args.map Prod.fst) :
    Edits action (givenText action.args given a) (form.act a) := by
  cases a with
  | editChange key text => exact h.editChange (hkey key text rfl) text
  | rejectChange text => exact h.rejectChange text
  | reset => exact h.reset

/-- Any events of the form -/
theorem Edits.run {action : ActionRequest} {given : String → Option String} {form : ReviewForm}
    (h : Edits action given form) {actions : List FormAction}
    (hkeys : ∀ key text, .editChange key text ∈ actions → key ∈ action.args.map Prod.fst) :
    Edits action (actions.foldl (givenText action.args) given) (actions.foldl ReviewForm.act form) := by
  induction actions generalizing given form with
  | nil => exact h
  | cons a actions ih =>
    refine ih (h.act a fun key text he => hkeys key text (he ▸ List.mem_cons_self)) ?_
    exact fun key text hmem => hkeys key text (List.mem_cons_of_mem _ hmem)

/-! ## What is submitted -/

theorem Edits.fieldText {action : ActionRequest} {given : String → Option String}
    {form : ReviewForm} (h : Edits action given form) {arg : String × Json} (harg : arg ∈ action.args) :
    form.fieldText arg.1 = some ((given arg.1).getD (stringifyArgValue arg.2)) := by
  obtain ⟨-, others, -, hresponse⟩ := h
  have hrendered : editResponse? form.humanResponse =
      some ⟨action.name, givenArgs action.args given⟩ := by
    rw [hresponse]
    rfl
  have hlookup : (givenArgs action.args given).lookup arg.1 = some ((given arg.1).elim arg.2 .str) :=
    Dict.lookup_map_of_mem (fun key value => (given key).elim value Json.str) action.keys harg
  unfold ReviewForm.fieldText
  rw [hrendered, Option.bind_some, hlookup]
  cases given arg.1 with
  | none => rfl
  | some text => rfl

theorem Edits.decision {action : ActionRequest} {given : String → Option String}
    {form : ReviewForm} (h : Edits action given form) :
    buildDecisionFromState form.humanResponse (some .edit) =
      if haveArgsChanged (givenArgs action.args given) form.initialValues then
        .ok (.edit ⟨action.name, givenArgs action.args given⟩)
      else .ok .approve := by
  obtain ⟨-, others, -, hresponse⟩ := h
  rw [hresponse]
  cases haveArgsChanged (givenArgs action.args given) form.initialValues with
  | true => rfl
  | false => rfl

/-- **When an edit submission is faithful.** -/
theorem form_edits_faithful_iff {request : HITLRequest} {action : ActionRequest}
    {config : ReviewConfig} (h : request.reviewed = some (action, config))
    (happrove : .approve ∈ config.allowedDecisions) (hedit : .edit ∈ config.allowedDecisions)
    {actions : List FormAction}
    (hkeys : ∀ key text, .editChange key text ∈ actions → key ∈ action.args.map Prod.fst) :
    FaithfulDecision action (actions.foldl ReviewForm.act request.form)
        (buildDecisionFromState (actions.foldl ReviewForm.act request.form).humanResponse (some .edit)) ↔
      TextsAgree action.args (givenTexts action.args actions) := by
  have hedits : Edits action (givenTexts action.args actions)
      (actions.foldl ReviewForm.act request.form) := (edits_form h happrove hedit).run hkeys
  generalize givenTexts action.args actions = given at hedits ⊢
  generalize actions.foldl ReviewForm.act request.form = form at hedits ⊢
  have htext : ∀ arg ∈ action.args, form.fieldText arg.1 =
      some ((given arg.1).getD (stringifyArgValue arg.2)) := fun arg harg => hedits.fieldText harg
  have hchanged := haveArgsChanged_givenArgs action.keys given
  rw [hedits.decision, hedits.initialValues]
  have hshown : ∀ arg ∈ action.args,
      (form.fieldText arg.1 = some (stringifyArgValue arg.2) ↔
        ∀ text, given arg.1 = some text → text = stringifyArgValue arg.2) := by
    intro arg harg
    rw [htext arg harg]
    cases given arg.1 with
    | none => simp
    | some text => simp
  split
  · rename_i hedited
    rw [hchanged] at hedited
    have hlookup : ∀ arg ∈ action.args, (givenArgs action.args given).lookup arg.1 =
        some ((given arg.1).elim arg.2 .str) := fun arg harg =>
      Dict.lookup_map_of_mem (fun key value => (given key).elim value Json.str) action.keys harg
    constructor
    · rintro ⟨⟨arg, harg, hdiffers⟩, -, -, hvalues⟩
      rw [ne_eq, hshown arg harg] at hdiffers
      push Not at hdiffers
      refine .inr ⟨hedited, ⟨arg, harg, hdiffers⟩, ?_⟩
      intro arg harg text hgiven hdisplayed
      have hvalue := hvalues arg harg
      rw [if_pos ((hshown arg harg).mpr fun t ht => ?_), hlookup arg harg, hgiven] at hvalue
      · exact (Option.some.inj hvalue).symm
      · rw [hgiven] at ht
        exact (Option.some.inj ht).symm.trans hdisplayed
    · rintro (hnone | ⟨-, ⟨arg, harg, text, hgiven, hdiffers⟩, hstrings⟩)
      · obtain ⟨arg, harg, text, hgiven, hne⟩ := hedited
        exact absurd (hnone arg harg text hgiven).1 hne
      · refine ⟨⟨arg, harg, fun he => ?_⟩, rfl, keys_givenArgs given, ?_⟩
        · exact hdiffers ((hshown arg harg).mp he text hgiven)
        · intro arg harg
          show (givenArgs action.args given).lookup arg.1 = _
          rw [hlookup arg harg, htext arg harg]
          cases hgiven : given arg.1 with
          | none => simp
          | some text =>
            by_cases hdisplayed : text = stringifyArgValue arg.2
            · rw [Option.getD_some, if_pos (congrArg some hdisplayed),
                hstrings arg harg text hgiven hdisplayed]
              rfl
            · rw [Option.getD_some, if_neg fun he => hdisplayed (Option.some.inj he)]
              rfl
  · rename_i hsame
    rw [hchanged] at hsame
    constructor
    · intro hall
      refine .inl fun arg harg text hgiven => ⟨?_, (hshown arg harg).mp (hall arg harg) text hgiven⟩
      by_contra hne
      exact hsame ⟨arg, harg, text, hgiven, hne⟩
    · rintro (hnone | ⟨hedited, -⟩)
      · intro arg harg
        exact (hshown arg harg).mpr fun text hgiven => (hnone arg harg text hgiven).2
      · exact absurd hedited hsame

/-- A search with a number among its arguments -/
def searchRequest : HITLRequest where
  actionRequests := [⟨"web_search", [("query", .str "lean"), ("limit", .int 3)], by decide⟩]
  reviewConfigs := [⟨"web_search", [.approve, .edit]⟩]

/-- An edited query next to a number that was not touched -/
theorem form_edits_faithful_query :
    FaithfulDecision ⟨"web_search", [("query", .str "lean"), ("limit", .int 3)], by decide⟩
      ([.editChange "query" "lean 4"].foldl ReviewForm.act searchRequest.form)
      (buildDecisionFromState
        ([.editChange "query" "lean 4"].foldl ReviewForm.act searchRequest.form).humanResponse
        (some .edit)) := by
  have hreviewed : searchRequest.reviewed =
      some (⟨"web_search", [("query", .str "lean"), ("limit", .int 3)], by decide⟩,
        ⟨"web_search", [.approve, .edit]⟩) := rfl
  refine (form_edits_faithful_iff hreviewed (by decide) (by decide) ?_).mpr (.inr ?_)
  · intro key text h
    rw [List.mem_singleton] at h
    cases h
    decide
  · have hgiven : givenTexts [("query", .str "lean"), ("limit", .int 3)]
        [.editChange "query" "lean 4"] = Function.update (fun _ => none) "query" (some "lean 4") := rfl
    rw [hgiven]
    refine ⟨⟨("query", .str "lean"), by simp, "lean 4", by simp, by decide⟩,
      ⟨("query", .str "lean"), by simp, "lean 4", by simp, by decide⟩, ?_⟩
    intro arg harg text htext hdisplayed
    simp only [List.mem_cons, List.not_mem_nil, or_false] at harg
    rcases harg with rfl | rfl
    · rw [Function.update_self, Option.some.injEq] at htext
      subst htext
      exact absurd hdisplayed (by decide)
    · rw [Function.update_of_ne (by decide)] at htext
      exact absurd htext (by simp)

/-- The number is changed and changed back, then the query is edited: the number is submitted as a
    string. -/
theorem number_submitted_as_string :
    ¬ FaithfulDecision ⟨"web_search", [("query", .str "lean"), ("limit", .int 3)], by decide⟩
      ([.editChange "limit" "4", .editChange "limit" "3", .editChange "query" "lean 4"].foldl
        ReviewForm.act searchRequest.form)
      (buildDecisionFromState
        ([.editChange "limit" "4", .editChange "limit" "3", .editChange "query" "lean 4"].foldl
          ReviewForm.act searchRequest.form).humanResponse (some .edit)) := by
  have hdecision : buildDecisionFromState
      ([.editChange "limit" "4", .editChange "limit" "3", .editChange "query" "lean 4"].foldl
        ReviewForm.act searchRequest.form).humanResponse (some .edit) =
      .ok (.edit ⟨"web_search", [("query", .str "lean 4"), ("limit", .str "3")]⟩) := by rfl
  rw [hdecision]
  rintro ⟨-, -, -, hvalues⟩
  exact absurd (hvalues ("limit", .int 3) (by simp)) (by decide)

end Frontend

end HyChat
