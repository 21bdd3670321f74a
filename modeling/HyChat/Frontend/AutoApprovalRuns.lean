import HyChat.Frontend.ReviewRuns
import Mathlib.Data.List.Perm.Basic

/-!
# What is approved without asking

The effect approves an action without asking only when the browser was told to: at the launch the
tool is a supported one whose preference is on. The approval is for a request with this action
alone. It is tried again only after transient errors, four times at most, and only as long as the
same action with the same arguments is shown.

Nothing in the state of the view says who turned a preference on: the effect reads the item of
localStorage at every launch, and the item can have been written here, in another tab or before the
view was mounted. So the theorem is about the log, which holds every such write and every call of
the stream, newest first, and `preferred` is what these writes amount to. The launch itself is an
entry of the log, since the attempts that come after it are made without reading the preference
again: turning a preference off does not stop an approval that is being tried.

An invariant carries it. For every run that has not ended it says what the log must hold of it (the
launch, as many calls as attempts, as many transient errors); the runs are told apart by the number
of their launch, so that an entry about one of them leaves what is said of the others as it is.
-/

set_option autoImplicit false

namespace HyChat

open Lib

namespace Frontend

/-! ## What the log says -/

/-- The launch an entry is about -/
def ViewEntry.about : ViewEntry → Option Nat
  | .sent (.autoApproval launch) _ _ => some launch
  | .answered launch _ => some launch
  | _ => none

/-- How often a launch has called `stream.respond` -/
def attempts (launch : Nat) (log : List ViewEntry) : Nat :=
  log.countP fun e => match e with
    | .sent (.autoApproval n) _ _ => n == launch
    | _ => false

/-- What its calls have come to -/
def answersTo (launch : Nat) (log : List ViewEntry) : List RespondOutcome :=
  log.filterMap fun e => match e with
    | .answered n outcome => if n = launch then some outcome else none
    | _ => none

/-- What the browser was told last of a tool: by the preference written last in this tab, or by the
    item itself where another tab has put one in its place since, or by the one it held at first. A
    preference counts only for the tools that can be approved without asking. -/
def preferred (stored : StoredItem) (toolName : String) : List ViewEntry → Bool
  | [] => isToolAutoApproved stored toolName
  | .preference changed enabled :: log =>
      if normalizeToolName toolName = normalizeToolName changed then
        isToolAutoApprovalSupported toolName && enabled
      else preferred stored toolName log
  | .otherTab item :: _ => isToolAutoApproved item toolName
  | _ :: log => preferred stored toolName log

/-- All calls before were answered, by transient errors. -/
def MayTry (launch : Nat) (log : List ViewEntry) : Prop :=
  attempts launch log ≤ autoApprovalRetryDelaysMs.length ∧
    answersTo launch log = List.replicate (attempts launch log) .transient

/-- A launch needs a supported tool whose preference is on, and an approval a launch for the
    action. -/
def EntryJustified (stored : StoredItem) : ViewEntry → List ViewEntry → Prop
  | .launched _ action, earlier =>
      isToolAutoApprovalSupported action.name = true ∧
        preferred stored action.name earlier = true
  | .sent (.autoApproval launch) request decisions, earlier =>
      decisions = [.approve] ∧ MayTry launch earlier ∧ ∃ action first,
        request.actionRequests = [action] ∧ .launched launch first ∈ earlier ∧
          action.name = first.name ∧ action.requestKey = first.requestKey
  | _, _ => True

theorem attempts_cons_of_about {launch : Nat} {e : ViewEntry} (he : e.about ≠ some launch)
    (log : List ViewEntry) : attempts launch (e :: log) = attempts launch log := by
  unfold attempts
  refine List.countP_cons_of_neg ?_
  cases e with
  | sent responder request decisions =>
    cases responder with
    | autoApproval n => simpa [ViewEntry.about] using he
    | submit => simp
    | submitAll => simp
    | approveAll => simp
  | _ => simp

theorem answersTo_cons_of_about {launch : Nat} {e : ViewEntry} (he : e.about ≠ some launch)
    (log : List ViewEntry) : answersTo launch (e :: log) = answersTo launch log := by
  unfold answersTo
  cases e with
  | answered n outcome =>
    have hne : n ≠ launch := by simpa [ViewEntry.about] using he
    simp [hne]
  | _ => simp

theorem attempts_sent (launch : Nat) (request : HITLRequest) (decisions : List ReviewDecision)
    (log : List ViewEntry) :
    attempts launch (.sent (.autoApproval launch) request decisions :: log) =
      attempts launch log + 1 := by
  simp [attempts]

theorem attempts_answered (launch n : Nat) (outcome : RespondOutcome) (log : List ViewEntry) :
    attempts launch (.answered n outcome :: log) = attempts launch log := by
  simp [attempts]

theorem answersTo_answered (launch : Nat) (outcome : RespondOutcome) (log : List ViewEntry) :
    answersTo launch (.answered launch outcome :: log) = outcome :: answersTo launch log := by
  simp [answersTo]

theorem answersTo_sent (launch : Nat) (responder : Responder) (request : HITLRequest)
    (decisions : List ReviewDecision) (log : List ViewEntry) :
    answersTo launch (.sent responder request decisions :: log) = answersTo launch log := by
  simp [answersTo]

/-! ## The invariant -/

/-- The number of the launch of a call -/
def PendingCall.launch? : PendingCall → Option Nat
  | .autoApproval run _ => some run.launch
  | _ => none

/-- What the log says of a run that has not ended. -/
structure RunRecorded (log : List ViewEntry) (run : AutoApprovalRun) (waiting : Bool) : Prop where
  launched : ∃ first, .launched run.launch first ∈ log ∧ first.name = run.toolName ∧
    first.requestKey = some run.requestKey
  attempts : attempts run.launch log = run.attempt + 1
  answers : answersTo run.launch log =
    List.replicate (if waiting then run.attempt + 1 else run.attempt) .transient
  bound : run.attempt + (if waiting then 1 else 0) ≤ autoApprovalRetryDelaysMs.length

/-- **The invariant.** `stored` is what the item held when the view was mounted. -/
structure Ledger (stored storage : StoredItem) (log : List ViewEntry) (launches : Nat)
    (pending : List PendingCall) : Prop where
  justified : Log.Every (EntryJustified stored) log
  runs : ∀ run waiting, .autoApproval run waiting ∈ pending →
    run.launch < launches ∧ RunRecorded log run waiting
  distinct : (pending.filterMap PendingCall.launch?).Nodup
  fresh : ∀ n, launches ≤ n → attempts n log = 0 ∧ answersTo n log = []
  preferences : ∀ toolName, isToolAutoApproved storage toolName = preferred stored toolName log

theorem RunRecorded.cons {log : List ViewEntry} {run : AutoApprovalRun} {waiting : Bool}
    (h : RunRecorded log run waiting) {e : ViewEntry} (he : e.about ≠ some run.launch) :
    RunRecorded (e :: log) run waiting := by
  obtain ⟨first, hmem, hfirst⟩ := h.launched
  refine ⟨⟨first, List.mem_cons_of_mem e hmem, hfirst⟩, ?_, ?_, h.bound⟩
  · rw [attempts_cons_of_about he]
    exact h.attempts
  · rw [answersTo_cons_of_about he]
    exact h.answers

variable {stored storage : StoredItem} {log : List ViewEntry} {launches : Nat}
  {pending pending' : List PendingCall}

theorem Ledger.initial (stored : StoredItem) : Ledger stored stored [] 0 [] :=
  ⟨trivial, fun _ _ hmem => (List.not_mem_nil hmem).elim, .nil, fun _ _ => ⟨rfl, rfl⟩,
    fun _ => rfl⟩

theorem Ledger.perm (h : Ledger stored storage log launches pending) (hperm : pending.Perm pending') :
    Ledger stored storage log launches pending' :=
  ⟨h.justified, fun run waiting hmem => h.runs run waiting (hperm.mem_iff.mpr hmem),
    (hperm.filterMap _).nodup_iff.mp h.distinct, h.fresh, h.preferences⟩

theorem Ledger.eraseIdx (h : Ledger stored storage log launches pending) (i : Nat) :
    Ledger stored storage log launches (pending.eraseIdx i) :=
  ⟨h.justified, fun run waiting hmem => h.runs run waiting (List.mem_of_mem_eraseIdx hmem),
    h.distinct.sublist ((List.eraseIdx_sublist pending i).filterMap _), h.fresh, h.preferences⟩

/-- A call of a handler is none of a launch. -/
theorem Ledger.append (h : Ledger stored storage log launches pending) {call : PendingCall}
    (hcall : call.launch? = none) : Ledger stored storage log launches (pending ++ [call]) := by
  refine ⟨h.justified, fun run waiting hmem => ?_, ?_, h.fresh, h.preferences⟩
  · rcases List.mem_append.mp hmem with hmem | hmem
    · exact h.runs run waiting hmem
    · rw [← List.mem_singleton.mp hmem] at hcall
      cases hcall
  · rw [List.filterMap_append]
    simpa [hcall] using h.distinct

/-- A clean-up leaves the runs as they are, but for their mark. -/
theorem Ledger.unmount (h : Ledger stored storage log launches pending) :
    Ledger stored storage log launches (pending.map PendingCall.unmount) := by
  have hlaunch : ∀ call : PendingCall, call.unmount.launch? = call.launch? := by
    intro call
    cases call with
    | _ => rfl
  refine ⟨h.justified, fun run waiting hmem => ?_, ?_, h.fresh, h.preferences⟩
  · obtain ⟨call, hcall, heq⟩ := List.mem_map.mp hmem
    cases call with
    | autoApproval run' _ =>
      cases heq
      obtain ⟨hlt, hrun⟩ := h.runs run' _ hcall
      exact ⟨hlt, hrun.launched, hrun.attempts, hrun.answers, hrun.bound⟩
    | submit => cases heq
    | submitAll => cases heq
    | approveAll => cases heq
    | resolve => cases heq
  · rw [List.filterMap_map]
    have hfun : PendingCall.launch? ∘ PendingCall.unmount = PendingCall.launch? :=
      funext hlaunch
    rw [hfun]
    exact h.distinct

/-- An entry about no launch -/
theorem Ledger.cons (h : Ledger stored storage log launches pending) {e : ViewEntry}
    (he : e.about = none) (hjustified : EntryJustified stored e log) {storage' : StoredItem}
    (hpreferences : ∀ toolName,
      isToolAutoApproved storage' toolName = preferred stored toolName (e :: log)) :
    Ledger stored storage' (e :: log) launches pending := by
  have hnone : ∀ n, e.about ≠ some n := fun n heq => by rw [he] at heq; cases heq
  refine ⟨⟨hjustified, h.justified⟩, fun run waiting hmem => ?_, h.distinct, fun n hn => ?_,
    hpreferences⟩
  · obtain ⟨hlt, hrun⟩ := h.runs run waiting hmem
    exact ⟨hlt, hrun.cons (hnone _)⟩
  · rw [attempts_cons_of_about (hnone n), answersTo_cons_of_about (hnone n)]
    exact h.fresh n hn

/-- An entry that says nothing of a preference -/
theorem Ledger.kept (h : Ledger stored storage log launches pending) {e : ViewEntry}
    (he : ∀ toolName, preferred stored toolName (e :: log) = preferred stored toolName log) :
    ∀ toolName, isToolAutoApproved storage toolName = preferred stored toolName (e :: log) := by
  intro toolName
  rw [he toolName]
  exact h.preferences toolName

theorem launches_cons (run : AutoApprovalRun) (waiting : Bool) (rest : List PendingCall) :
    (PendingCall.autoApproval run waiting :: rest).filterMap PendingCall.launch? =
      run.launch :: rest.filterMap PendingCall.launch? := rfl

theorem Ledger.not_mem_rest {run : AutoApprovalRun} {waiting : Bool} {rest : List PendingCall}
    (h : Ledger stored storage log launches (.autoApproval run waiting :: rest)) :
    run.launch ∉ rest.filterMap PendingCall.launch? := by
  have hdistinct := h.distinct
  rw [launches_cons, List.nodup_cons] at hdistinct
  exact hdistinct.1

/-- **A run ends** with an entry about it, which is about none of the others. -/
theorem Ledger.finish {run : AutoApprovalRun} {waiting : Bool} {rest : List PendingCall}
    (h : Ledger stored storage log launches (.autoApproval run waiting :: rest)) {e : ViewEntry}
    (he : e.about = some run.launch) (hjustified : EntryJustified stored e log)
    (hpreferred : ∀ toolName, preferred stored toolName (e :: log) = preferred stored toolName log) :
    Ledger stored storage (e :: log) launches rest := by
  obtain ⟨hlt, -⟩ := h.runs run waiting List.mem_cons_self
  refine ⟨⟨hjustified, h.justified⟩, fun other otherWaiting hmem => ?_, ?_, fun n hn => ?_,
    h.kept hpreferred⟩
  · obtain ⟨hother, hrecorded⟩ := h.runs other otherWaiting (List.mem_cons_of_mem _ hmem)
    refine ⟨hother, hrecorded.cons fun heq => h.not_mem_rest ?_⟩
    rw [Option.some.inj (he.symm.trans heq)]
    exact List.mem_filterMap.mpr ⟨_, hmem, rfl⟩
  · have hdistinct := h.distinct
    rw [launches_cons] at hdistinct
    exact hdistinct.of_cons
  · have hne : e.about ≠ some n := by
      intro heq
      have hn' := Option.some.inj (he.symm.trans heq)
      omega
    rw [attempts_cons_of_about hne, answersTo_cons_of_about hne]
    exact h.fresh n hn

/-- A run beside the others -/
theorem Ledger.add {run : AutoApprovalRun} {waiting : Bool} {rest : List PendingCall}
    (h : Ledger stored storage log launches rest) (hlt : run.launch < launches)
    (hnew : run.launch ∉ rest.filterMap PendingCall.launch?) (hrun : RunRecorded log run waiting) :
    Ledger stored storage log launches (.autoApproval run waiting :: rest) := by
  refine ⟨h.justified, fun other otherWaiting hmem => ?_, ?_, h.fresh, h.preferences⟩
  · rcases List.mem_cons.mp hmem with heq | hmem
    · cases heq
      exact ⟨hlt, hrun⟩
    · exact h.runs other otherWaiting hmem
  · rw [launches_cons, List.nodup_cons]
    exact ⟨hnew, h.distinct⟩

/-- A pending run before the others -/
theorem Ledger.front (h : Ledger stored storage log launches pending) {i : Nat} {call : PendingCall}
    (hi : pending[i]? = some call) :
    Ledger stored storage log launches (call :: pending.eraseIdx i) := by
  obtain ⟨hlt, hget⟩ := List.getElem?_eq_some_iff.mp hi
  exact h.perm (hget ▸ (List.getElem_cons_eraseIdx_perm hlt).symm)

/-- **A run goes on** with an entry about it. -/
theorem Ledger.advance (h : Ledger stored storage log launches pending) {i : Nat}
    {run run' : AutoApprovalRun} {waiting waiting' : Bool}
    (hi : pending[i]? = some (.autoApproval run waiting)) {e : ViewEntry}
    (he : e.about = some run.launch) (hlaunch : run'.launch = run.launch)
    (hjustified : EntryJustified stored e log)
    (hpreferred : ∀ toolName, preferred stored toolName (e :: log) = preferred stored toolName log)
    (hrun : RunRecorded (e :: log) run' waiting') :
    Ledger stored storage (e :: log) launches (pending.set i (.autoApproval run' waiting')) := by
  have hfront := h.front hi
  have hlt := (hfront.runs run waiting List.mem_cons_self).1
  have hset := List.set_perm_cons_eraseIdx (List.getElem?_eq_some_iff.mp hi).1
    (PendingCall.autoApproval run' waiting')
  refine ((hfront.finish he hjustified hpreferred).add ?_ ?_ hrun).perm hset.symm
  · exact hlaunch ▸ hlt
  · exact hlaunch ▸ hfront.not_mem_rest

/-! ## The events of a run -/

/-- **A launch.** -/
theorem Ledger.launch (h : Ledger stored storage log launches pending) {request : HITLRequest}
    {action : ActionRequest} {key : String} (hactions : request.actionRequests = [action])
    (hkey : action.requestKey = some key)
    (hsupported : isToolAutoApprovalSupported action.name = true)
    (happroved : isToolAutoApproved storage action.name = true) :
    Ledger stored storage
      (.sent (.autoApproval launches) request [.approve] :: .launched launches action :: log)
      (launches + 1) (pending ++ [.autoApproval ⟨launches, action.name, key, 0, true⟩ false]) := by
  obtain ⟨hattempts, hanswers⟩ := h.fresh launches (Nat.le_refl _)
  have hlaunched : EntryJustified stored (.launched launches action) log :=
    ⟨hsupported, h.preferences action.name ▸ happroved⟩
  have hlog := h.cons (e := .launched launches action) rfl hlaunched (h.kept fun _ => rfl)
  have hnone : ViewEntry.about (.launched launches action) ≠ some launches := by
    simp [ViewEntry.about]
  have hsent : EntryJustified stored (.sent (.autoApproval launches) request [.approve])
      (.launched launches action :: log) := by
    refine ⟨rfl, ?_, action, action, hactions, List.mem_cons_self, rfl, rfl⟩
    unfold MayTry
    rw [attempts_cons_of_about hnone, answersTo_cons_of_about hnone, hattempts, hanswers]
    exact ⟨Nat.zero_le _, rfl⟩
  have hrun : RunRecorded
      (.sent (.autoApproval launches) request [.approve] :: .launched launches action :: log)
      ⟨launches, action.name, key, 0, true⟩ false := by
    refine ⟨⟨action, List.mem_cons_of_mem _ List.mem_cons_self, rfl, hkey⟩, ?_, ?_, Nat.zero_le _⟩
    · rw [attempts_sent, attempts_cons_of_about hnone, hattempts]
    · rw [answersTo_sent, answersTo_cons_of_about hnone, hanswers]
      rfl
  have hnew : launches ∉ pending.filterMap PendingCall.launch? := by
    intro hmem
    obtain ⟨call, hcall, hlaunch⟩ := List.mem_filterMap.mp hmem
    cases call with
    | autoApproval run waiting =>
      have hlt := (h.runs run waiting hcall).1
      exact absurd (Option.some.inj hlaunch) (Nat.ne_of_lt hlt)
    | _ => cases hlaunch
  have hperm := List.perm_append_singleton
    (PendingCall.autoApproval ⟨launches, action.name, key, 0, true⟩ false) pending
  refine Ledger.perm ?_ hperm.symm
  refine Ledger.add ?_ (Nat.lt_succ_self _) hnew hrun
  -- the entry is about the new number only
  refine ⟨⟨hsent, hlog.justified⟩, fun run waiting hmem => ?_, h.distinct, fun n hn => ?_,
    hlog.kept fun _ => rfl⟩
  · obtain ⟨hlt, hrecorded⟩ := hlog.runs run waiting hmem
    refine ⟨Nat.lt_succ_of_lt hlt, hrecorded.cons fun heq => ?_⟩
    exact absurd (Option.some.inj heq).symm (Nat.ne_of_lt hlt)
  · have hne : ViewEntry.about (.sent (.autoApproval launches) request [.approve]) ≠ some n := by
      intro heq
      exact absurd (Option.some.inj heq) (Nat.ne_of_lt hn)
    rw [attempts_cons_of_about hne, answersTo_cons_of_about hne]
    exact hlog.fresh n (Nat.le_of_succ_le hn)

/-! ## The events of the view -/

open ThreadActionsView

/-- The ledger of a view -/
def Approving (stored : StoredItem) (s : ThreadActionsView) : Prop :=
  Ledger stored s.storage s.log s.launches s.pending

variable {s : ThreadActionsView}

theorem Approving.approveEffect (h : Approving stored s) {rendered : ThreadActionsView}
    (hstorage : rendered.storage = s.storage) : Approving stored (rendered.approveEffect s) := by
  obtain he | ⟨action, key, haction, hkey, hasks, he⟩ := approveEffect_cases rendered s
  · rw [he]
    exact h.unmount
  · rw [he]
    obtain ⟨hsingle, -, hsupported, happroved⟩ := keepsAsking_eq_false hasks
    have hrequestKey : action.requestKey = some key := by
      unfold autoApproveRequestKey at hkey
      rwa [haction] at hkey
    exact (Ledger.unmount h).launch (actions_of_single hsingle haction) hrequestKey hsupported
      (hstorage ▸ happroved)

theorem Approving.settle (h : Approving stored s) : Approving stored s.settle := by
  obtain ⟨-, he⟩ | he := settle_cases s
  · rw [he]
    exact h
  · rw [he]
    exact h.approveEffect rfl

theorem Approving.loadForm (h : Approving stored s) : Approving stored s.loadForm := h

theorem Approving.receive (h : Approving stored s) (request : HITLRequest) :
    Approving stored (s.receive request) := by
  have hreset : Approving stored ({ s with interrupt := request }.reset request) := h
  have hfirst : Approving stored
      (if s.effectDeps = some { s with interrupt := request }.deps then
        { s with interrupt := request }.reset request
      else { s with interrupt := request }.approveEffect
        ({ s with interrupt := request }.reset request)) := by
    split
    · exact hreset
    · exact hreset.approveEffect rfl
  exact hfirst.loadForm.settle

theorem Approving.moveTo (h : Approving stored s) (index : Nat) :
    Approving stored (s.moveTo index) := by
  unfold ThreadActionsView.moveTo
  split
  · exact h
  · exact h

/-- An entry of a handler is about no launch and no preference. -/
theorem Approving.sends (h : Approving stored s) {e : ViewEntry} (he : e.about = none)
    (hpreferred : ∀ toolName,
      preferred stored toolName (e :: s.log) = preferred stored toolName s.log)
    (hjustified : EntryJustified stored e s.log) {call : PendingCall} (hcall : call.launch? = none) :
    Ledger stored s.storage (e :: s.log) s.launches (s.pending ++ [call]) :=
  (Ledger.cons h he hjustified (Ledger.kept h hpreferred)).append hcall

theorem Approving.handleSaveDecision (h : Approving stored s) (submitType : Option DecisionType) :
    Approving stored (s.handleSaveDecision submitType) := by
  unfold ThreadActionsView.handleSaveDecision
  split
  · exact h
  · rename_i decision _
    have hsaved : Approving stored
        { s with addressedActions := setDecision s.currentIndex decision s.addressedActions } := h
    simp only
    split
    · exact hsaved.moveTo _
    · exact hsaved

theorem Approving.handleSubmit (h : Approving stored s) (submitType : Option DecisionType) :
    Approving stored (s.handleSubmit submitType) := by
  unfold ThreadActionsView.handleSubmit
  split
  · exact h
  split
  · exact h
  · exact h.sends (e := .sent .submit _ _) rfl (fun _ => rfl) trivial rfl

theorem Approving.submitDecision (h : Approving stored s) (override : Option DecisionType) :
    Approving stored (s.submitDecision override) := by
  have hsubmitted :
      Approving stored (s.handleDecision (override <|> s.form.selectedSubmitType)) := by
    unfold ThreadActionsView.handleDecision
    split
    · exact h.handleSaveDecision _
    · exact h.handleSubmit _
  unfold ThreadActionsView.submitDecision
  simp only
  split
  · exact hsubmitted
  · exact hsubmitted

theorem Approving.handleSubmitAll (h : Approving stored s) : Approving stored s.handleSubmitAll := by
  unfold ThreadActionsView.handleSubmitAll
  split
  · exact h
  · exact h.sends (e := .sent .submitAll _ _) rfl (fun _ => rfl) trivial rfl

/-- An answer that is no transient error, or comes after the last attempt, ends the run. -/
theorem Approving.answerAutoApproval (h : Approving stored s) {i : Nat} {run : AutoApprovalRun}
    (hi : s.pending[i]? = some (.autoApproval run false)) (outcome : RespondOutcome) :
    Approving stored (s.answerAutoApproval i run outcome) := by
  have hended : Ledger stored s.storage (.answered run.launch outcome :: s.log) s.launches
      (s.pending.eraseIdx i) := (Ledger.front h hi).finish rfl trivial fun _ => rfl
  unfold ThreadActionsView.answerAutoApproval
  simp only
  split
  · exact hended
  · exact hended
  all_goals
    split
    · rename_i hretry
      refine Ledger.advance h hi rfl rfl trivial (fun _ => rfl) ?_
      obtain ⟨-, hrun⟩ := h.runs run false (List.mem_of_getElem? hi)
      obtain ⟨first, hmem, hfirst⟩ := hrun.launched
      refine ⟨⟨first, List.mem_cons_of_mem _ hmem, hfirst⟩, ?_, ?_, hretry.1⟩
      · rw [attempts_answered]
        exact hrun.attempts
      · rw [answersTo_answered, hrun.answers, hretry.2]
        rfl
    · exact hended

theorem Approving.answer (h : Approving stored s) {i : Nat} {outcome : RespondOutcome}
    {s' : ThreadActionsView} (hs : s.answer i outcome = some s') : Approving stored s' := by
  unfold ThreadActionsView.answer at hs
  split at hs
  · cases hs
  · cases hs
  · rename_i run hrun
    obtain rfl := Option.some.inj hs
    exact h.answerAutoApproval hrun outcome
  all_goals
    obtain rfl := Option.some.inj hs
    exact Ledger.eraseIdx h i

/-- **Another attempt** is made while the action of the launch is shown. -/
theorem Approving.fire (h : Approving stored s) (hmounted : RunsMounted s.pending s.effectDeps)
    (hsettled : s.effectDeps = some s.deps) {i : Nat} {s' : ThreadActionsView}
    (hs : s.fire i = some s') : Approving stored s' := by
  unfold ThreadActionsView.fire at hs
  split at hs
  · rename_i run hi
    split at hs
    · rename_i hm
      obtain rfl := Option.some.inj hs
      obtain ⟨-, hby⟩ := hmounted run true (List.mem_of_getElem? hi)
      obtain ⟨hsingle, action, haction, hname, hkey⟩ := shown_of_mounted hsettled (hby hm)
      obtain ⟨-, hrun⟩ := h.runs run true (List.mem_of_getElem? hi)
      obtain ⟨first, hmem, hfname, hfkey⟩ := hrun.launched
      have hbound : run.attempt + 1 ≤ autoApprovalRetryDelaysMs.length := hrun.bound
      refine Ledger.advance h hi rfl rfl ?_ (fun _ => rfl) ?_
      · refine ⟨rfl, ⟨?_, ?_⟩, action, first, actions_of_single hsingle haction, hmem,
          hname.trans hfname.symm, hkey.trans hfkey.symm⟩
        · rw [hrun.attempts]
          exact hbound
        · rw [hrun.attempts, hrun.answers]
          rfl
      · refine ⟨⟨first, List.mem_cons_of_mem _ hmem, hfname, hfkey⟩, ?_, ?_, hbound⟩
        · rw [attempts_sent, hrun.attempts]
        · rw [answersTo_sent, hrun.answers]
          rfl
    · obtain rfl := Option.some.inj hs
      exact Ledger.eraseIdx h i
  · cases hs

/-- The item follows what is logged about it. -/
theorem Approving.changePreference (h : Approving stored s) (toolName : String)
    (enabled written : Bool) : Approving stored (s.changePreference toolName enabled written) := by
  unfold ThreadActionsView.changePreference Approving
  cases written with
  | true =>
    refine Ledger.cons h (e := .preference toolName enabled) rfl trivial fun other => ?_
    rw [isToolAutoApproved_set, preferred]
    split
    · rfl
    · exact h.preferences other
  | false =>
    simp only [setToolAutoApproved_unwritten, Bool.false_eq_true, if_false]
    exact h

theorem Approving.handle (h : Approving stored s) (hmounted : RunsMounted s.pending s.effectDeps)
    (hsettled : s.effectDeps = some s.deps) {a : ViewAction} {s' : ThreadActionsView}
    (hs : s.handle a = some s') : Approving stored s' := by
  cases a with
  | receive request =>
    obtain rfl := Option.some.inj hs
    exact h.receive request
  | streamChanged =>
    obtain rfl := Option.some.inj hs
    exact h.approveEffect rfl
  | editForm action =>
    obtain rfl := Option.some.inj hs
    exact h
  | select submitType =>
    obtain rfl := Option.some.inj hs
    exact h
  | goTo index =>
    obtain rfl := Option.some.inj hs
    exact h.moveTo index
  | previous =>
    obtain rfl := Option.some.inj hs
    exact h.moveTo _
  | next =>
    obtain rfl := Option.some.inj hs
    exact h.moveTo _
  | submit override =>
    obtain rfl := Option.some.inj hs
    exact h.submitDecision override
  | submitAll =>
    obtain rfl := Option.some.inj hs
    exact h.handleSubmitAll
  | approveAll =>
    obtain rfl := Option.some.inj hs
    exact h.sends (e := .sent .approveAll _ _) rfl (fun _ => rfl) trivial rfl
  | resolve =>
    obtain rfl := Option.some.inj hs
    exact h.sends (e := .resolved) rfl (fun _ => rfl) trivial rfl
  | answer i outcome => exact h.answer hs
  | fire i => exact h.fire hmounted hsettled hs
  | changePreference enabled written =>
    obtain ⟨action, -, rfl⟩ := Option.map_eq_some_iff.mp hs
    exact h.changePreference action.name enabled written
  | otherTab item =>
    obtain rfl := Option.some.inj hs
    -- the item is read again at every launch, so it is the last word
    exact Ledger.cons h (e := .otherTab item) rfl trivial fun _ => rfl

/-- **What is approved without asking.** However the events interleave, every launch was told to
    approve by the preference written last, and every approval it sends is of the action it was
    launched for, alone in its request, the first or after nothing but transient errors. -/
theorem automatic_approvals_justified {request : HITLRequest} (hrequest : request.Matched)
    (stored : StoredItem) {s : ThreadActionsView}
    (hs : threadActionsView.Reach FromServer (mount request stored) s)
    (later : List ViewEntry) (e : ViewEntry) (earlier : List ViewEntry)
    (hlog : s.log = later ++ e :: earlier) : EntryJustified stored e earlier := by
  have hmount : Approving stored (mount request stored) :=
    Approving.settle (s := (ThreadActionsView.initial request stored).loadForm) (Ledger.initial stored)
  have h : Approving stored s := by
    refine (hs.invariant (I := fun s => (Reviewing s ∧ s.effectDeps = some s.deps) ∧
      Approving stored s) ?_ ?_).2
    · exact ⟨⟨reviewing_mount hrequest stored, settled_settle _⟩, hmount⟩
    · rintro s a s' ⟨⟨hreviewing, hsettled⟩, happroving⟩ ha hstep
      obtain ⟨hoffers, handled, hhandled, rfl⟩ := step_threadActionsView hstep
      refine ⟨⟨(hreviewing.handle hsettled ha hoffers hhandled).settle, settled_settle _⟩, ?_⟩
      exact (happroving.handle hreviewing.mounted hsettled hhandled).settle
  exact Log.every_iff.mp h.justified later e earlier hlog

/-- One search, and a browser that was told to approve searches -/
def oneSearch : HITLRequest where
  actionRequests := [⟨"web_search", [("query", .str "lean")], by decide⟩]
  reviewConfigs := [⟨"web_search", [.approve, .edit, .reject]⟩]

def searchesApproved : StoredItem := .parsed (.arr [.str " Web_Search"])

theorem matched_oneSearch : oneSearch.Matched := by
  have hconfig : oneSearch.configNamed "web_search" =
      some ⟨"web_search", [.approve, .edit, .reject]⟩ := rfl
  refine ⟨by simp [oneSearch], ?_, ?_⟩
  · intro action haction
    rw [List.mem_singleton.mp haction]
    exact ⟨_, hconfig⟩
  · intro action haction _
    rw [List.mem_singleton.mp haction]
    exact ⟨⟨_, hconfig, List.mem_cons_self⟩, trivial⟩

/-- Another tab tells the browser to approve searches; the search shown here is approved when the
    effect runs next, and again after a transient error. -/
theorem automatic_approvals_justified_again : ∃ earlier,
    attempts 0 earlier = 1 ∧ .otherTab searchesApproved ∈ earlier ∧
      EntryJustified .missing (.sent (.autoApproval 0) oneSearch [.approve]) earlier := by
  have hrun : ∃ s, threadActionsView.run
      [.otherTab searchesApproved, .streamChanged, .answer 0 .transient, .fire 0]
      (mount oneSearch .missing) = some s ∧ ∃ earlier,
        s.log = .sent (.autoApproval 0) oneSearch [.approve] :: earlier ∧
          earlier.length = 4 ∧ earlier[3]? = some (.otherTab searchesApproved) ∧
            attempts 0 earlier = 1 :=
    ⟨_, rfl, _, rfl, rfl, rfl, rfl⟩
  obtain ⟨s, hs, earlier, hlog, -, hother, hattempts⟩ := hrun
  refine ⟨earlier, hattempts, List.mem_of_getElem? hother, ?_⟩
  refine automatic_approvals_justified matched_oneSearch .missing
    (Lts.Reach.start.of_run (fun a ha t request he => ?_) hs) [] _ earlier hlog
  subst he
  simp at ha

end Frontend

end HyChat
