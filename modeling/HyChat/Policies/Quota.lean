import HyChat.Lib.Lts
import Mathlib.Algebra.Ring.Nat
import Mathlib.Data.List.Basic

/-!
# The monthly token quota

`get_policy` loads a user's policy, looks at the clock, and starts the policy's next month when the
one it has loaded is over; `authorize_model_access` and `record_token_usage` call it first. The
reset is a write of the loaded object: the session's commit sets the columns whose values it has
changed, so `tokens_used` only when the value it has loaded was not zero already. The usage itself
is added by an UPDATE of its own. Sessions of one user run in between each other, one read, one look
at the clock or one commit at a time.

An instant is given by its year, its month and the time into that month.

What an account of a month is. The row has a number of tokens used and the instant at which it is
to be reset; the log has every usage that was recorded, with the instant. `Accounted` compares the
two: while the policy's month runs, its number is the sum of what was logged in that month. So "no
usage is lost" is a fact about a month and a row, and does not depend on which session recorded
what.

Where it can fail. `get_policy` decides on the row it has loaded, and writes the object's changed
columns at the commit. When another session has started the month meanwhile, the second reset
writes zero over what has been recorded since (`usage_lost`); when the loaded number was zero
already, the column is not written at all. `FindsItsMonth` says that a reset finds the month it has
loaded, and, since a session can also be slow, that usage is recorded while its month runs. The
usage itself is added by the database, so two sessions that record at once are no problem.

`authorize_model_access` decides on the object that `get_policy` returns: as it was loaded when
nothing had to be written, and as the table has it by then when it was committed, since its
attributes have expired. The model keeps the two apart.
-/

set_option autoImplicit false

namespace HyChat

open Lib

namespace Policies

structure DateTime where
  year : Nat
  month : Nat
  time : Nat
  deriving DecidableEq

/-- The number of the month, counted through the years. -/
def DateTime.monthIndex (t : DateTime) : Nat := 12 * t.year + t.month

/-- `a <= b` -/
def DateTime.le (a b : DateTime) : Bool :=
  a.monthIndex < b.monthIndex || (a.monthIndex == b.monthIndex && a.time ≤ b.time)

/-- The first instant of the month after. -/
def nextQuotaReset (now : DateTime) : DateTime :=
  if now.month = 12 then ⟨now.year + 1, 1, 0⟩ else ⟨now.year, now.month + 1, 0⟩

structure UserPolicy where
  allowedModels : List String
  monthlyTokenQuota : Int
  tokensUsed : Nat
  quotaResetAt : DateTime
  deriving DecidableEq

/-- `normalize_model_allowlist` -/
structure Catalog where
  normalizeModelAllowlist : List String → List String

variable (catalog : Catalog)

/-! ## Sessions -/

inductive Request
  | getPolicy
  | authorizeModelAccess (modelName : String)
  | recordTokenUsage (totalTokens : Int)
  deriving DecidableEq

/-- Usage that is not positive is not recorded. -/
def Request.isIdle : Request → Bool
  | .recordTokenUsage totalTokens => totalTokens ≤ 0
  | _ => false

inductive Phase
  | start
  /-- The user and the policy are loaded; `utcnow` is next. -/
  | loaded (policy : UserPolicy)
  /-- Something has changed, and the commit is next. -/
  | changed (policy : UserPolicy) (now : DateTime)
  /-- `get_policy` has returned. The session still holds what it has loaded, unless it has
      committed: the attributes are expired then, and read again when they are needed. -/
  | ready (held : Option UserPolicy)
  /-- Done; the flag says whether the request was refused. -/
  | done (refused : Bool)
  deriving DecidableEq

structure Session where
  request : Request
  phase : Phase
  deriving DecidableEq

structure State where
  isActive : Bool
  policy : UserPolicy
  now : DateTime
  sessions : List Session
  /-- The usage that has been recorded, with the instants of the commits -/
  recorded : List (DateTime × Nat)
  /-- The values of `quota_reset_at` that resets have written -/
  resets : List DateTime

/-- A user who has just registered. -/
def State.start (allowedModels : List String) (quota : Int) (now : DateTime) : State :=
  ⟨true, ⟨allowedModels, quota, 0, nextQuotaReset now⟩, now, [], [], []⟩

inductive Action
  | request (r : Request)
  | advance (i : Nat)
  | clock (now : DateTime)
  | setActive (active : Bool)

/-- The loaded month is over. -/
def UserPolicy.isOver (policy : UserPolicy) (now : DateTime) : Bool := policy.quotaResetAt.le now

/-- The commit of `get_policy`: the columns that have changed, over the row as it is committed. -/
def commitReset (row loaded : UserPolicy) (now : DateTime) : UserPolicy :=
  { row with
    allowedModels := if catalog.normalizeModelAllowlist loaded.allowedModels = loaded.allowedModels
      then row.allowedModels else catalog.normalizeModelAllowlist loaded.allowedModels
    tokensUsed := if loaded.isOver now ∧ loaded.tokensUsed ≠ 0 then 0 else row.tokensUsed
    quotaResetAt := if loaded.isOver now then nextQuotaReset now else row.quotaResetAt }

def State.setPhase (s : State) (i : Nat) (session : Session) (phase : Phase) : State :=
  { s with sessions := s.sessions.set i { session with phase := phase } }

/-- The policy does not allow the model, or its quota is used up. -/
def UserPolicy.refuses (policy : UserPolicy) (modelName : String) : Bool :=
  !policy.allowedModels.contains modelName ||
    (0 ≤ policy.monthlyTokenQuota && policy.monthlyTokenQuota ≤ policy.tokensUsed)

/-- What follows `get_policy`. The usage is added to the row as it is committed. -/
def finish (s : State) (i : Nat) (session : Session) (held : Option UserPolicy) : State :=
  match session.request with
  | .getPolicy => s.setPhase i session (.done false)
  | .authorizeModelAccess modelName =>
      s.setPhase i session (.done ((held.getD s.policy).refuses modelName))
  | .recordTokenUsage totalTokens =>
      { s with
        policy := { s.policy with tokensUsed := s.policy.tokensUsed + totalTokens.toNat }
        recorded := (s.now, totalTokens.toNat) :: s.recorded }.setPhase i session (.done false)

def advance (s : State) (i : Nat) (session : Session) : Option State :=
  match session.phase with
  | .start =>
      if session.request.isIdle then some (s.setPhase i session (.done false))
      else if s.isActive then some (s.setPhase i session (.loaded s.policy))
      else some (s.setPhase i session (.done true))
  | .loaded policy =>
      let changed := catalog.normalizeModelAllowlist policy.allowedModels != policy.allowedModels ||
        policy.isOver s.now
      some (s.setPhase i session (if changed then .changed policy s.now
        else .ready (some policy)))
  | .changed policy now =>
      some ({ s with
        policy := commitReset catalog s.policy policy now
        resets := if policy.isOver now then nextQuotaReset now :: s.resets else s.resets }.setPhase i
          session (.ready none))
  | .ready held => some (finish s i session held)
  | .done _ => none

def quotaSessions : Lts State Action where
  step s
    | .request r => some { s with sessions := s.sessions ++ [⟨r, .start⟩] }
    | .advance i => s.sessions[i]?.bind fun session => advance catalog s i session
    | .clock now => if s.now.le now then some { s with now := now } else none
    | .setActive active => some { s with isActive := active }

/-! ## The account of a month -/

/-- What has been recorded in the month of an instant. -/
def recordedIn (recorded : List (DateTime × Nat)) (now : DateTime) : Nat :=
  ((recorded.filter fun x => x.1.monthIndex == now.monthIndex).map Prod.snd).sum

/-- While the policy's month runs, what it has counted is what has been recorded in that month; and
    no month has been started twice. -/
def Accounted (s : State) : Prop :=
  (s.policy.isOver s.now = false → s.policy.tokensUsed = recordedIn s.recorded s.now) ∧
    s.resets.Nodup

/-- A reset finds the month it has loaded, and no usage when it has loaded none; usage is recorded
    while the policy's month runs. -/
def FindsItsMonth (s : State) : Action → Prop
  | .advance i => ∀ session, s.sessions[i]? = some session →
      (∀ policy now, session.phase = .changed policy now → policy.isOver now = true →
        s.policy.quotaResetAt = policy.quotaResetAt ∧
          (policy.tokensUsed = 0 → s.policy.tokensUsed = 0)) ∧
      (∀ held totalTokens, session.phase = .ready held →
        session.request = .recordTokenUsage totalTokens → s.policy.isOver s.now = false)
  | _ => True

/-- The month after is the next in number, also at the turn of a year. -/
theorem monthIndex_nextQuotaReset (now : DateTime) :
    (nextQuotaReset now).monthIndex = now.monthIndex + 1 := by
  unfold nextQuotaReset DateTime.monthIndex
  split
  · simp only
    omega
  · simp only
    omega

theorem time_nextQuotaReset (now : DateTime) : (nextQuotaReset now).time = 0 := by
  unfold nextQuotaReset
  split
  · rfl
  · rfl

theorem monthIndex_le_of_le {a b : DateTime} (h : a.le b = true) : a.monthIndex ≤ b.monthIndex := by
  simp only [DateTime.le, Bool.or_eq_true, decide_eq_true_eq, Bool.and_eq_true, beq_iff_eq] at h
  omega

/-- The first instant of a month is past when the month has begun. -/
theorem isOver_iff {policy : UserPolicy} (h : policy.quotaResetAt.time = 0) (now : DateTime) :
    policy.isOver now = true ↔ policy.quotaResetAt.monthIndex ≤ now.monthIndex := by
  simp only [UserPolicy.isOver, DateTime.le, h, Nat.zero_le, decide_true, Bool.and_true,
    Bool.or_eq_true, decide_eq_true_eq, beq_iff_eq]
  omega

theorem recordedIn_congr {recorded : List (DateTime × Nat)} {now now' : DateTime}
    (h : now'.monthIndex = now.monthIndex) : recordedIn recorded now' = recordedIn recorded now := by
  unfold recordedIn
  rw [h]

theorem recordedIn_eq_zero {recorded : List (DateTime × Nat)} {now : DateTime}
    (h : ∀ x ∈ recorded, x.1.monthIndex < now.monthIndex) : recordedIn recorded now = 0 := by
  unfold recordedIn
  have hnone : (recorded.filter fun x => x.1.monthIndex == now.monthIndex) = [] := by
    rw [List.filter_eq_nil_iff]
    intro x hx he
    have hlt := h x hx
    have heq := beq_iff_eq.mp he
    omega
  rw [hnone]
  rfl

theorem recordedIn_cons (now : DateTime) (n : Nat) (recorded : List (DateTime × Nat)) :
    recordedIn ((now, n) :: recorded) now = n + recordedIn recorded now := by
  simp [recordedIn]

/-! ## The invariant -/

/-- What holds between any two steps. -/
structure Consistent (s : State) : Prop where
  time : s.policy.quotaResetAt.time = 0
  ahead : s.policy.quotaResetAt.monthIndex ≤ s.now.monthIndex + 1
  recorded : ∀ x ∈ s.recorded, x.1.monthIndex < s.policy.quotaResetAt.monthIndex
  resets : ∀ r ∈ s.resets, r.monthIndex ≤ s.policy.quotaResetAt.monthIndex
  /-- A session has looked at the clock before. -/
  sessions : ∀ session ∈ s.sessions, ∀ policy at_, session.phase = .changed policy at_ →
    at_.monthIndex ≤ s.now.monthIndex
  account : s.policy.isOver s.now = false → s.policy.tokensUsed = recordedIn s.recorded s.now
  once : s.resets.Nodup

/-- A user who has just registered has used nothing. -/
theorem consistent_start (allowedModels : List String) (quota : Int) (now : DateTime) :
    Consistent (.start allowedModels quota now) :=
  ⟨time_nextQuotaReset now, Nat.le_of_eq (monthIndex_nextQuotaReset now),
    fun _ h => absurd h (by simp [State.start]), fun _ h => absurd h (by simp [State.start]),
    fun _ h => absurd h (by simp [State.start]), fun _ => rfl, List.nodup_nil⟩

theorem Consistent.setPhase {s : State} (h : Consistent s) (i : Nat) (session : Session)
    {phase : Phase} (hphase : ∀ policy at_, phase = .changed policy at_ →
      at_.monthIndex ≤ s.now.monthIndex) : Consistent (s.setPhase i session phase) := by
  refine ⟨h.time, h.ahead, h.recorded, h.resets, ?_, h.account, h.once⟩
  intro x hx
  rcases List.mem_or_eq_of_mem_set hx with hx | rfl
  · exact h.sessions x hx
  · exact hphase

/-- A commit of `get_policy` on the month it has loaded. -/
theorem Consistent.commitReset {s : State} (h : Consistent s) {loaded : UserPolicy} {at_ : DateTime}
    (hat : at_.monthIndex ≤ s.now.monthIndex)
    (hmonth : loaded.isOver at_ = true → s.policy.quotaResetAt = loaded.quotaResetAt ∧
      (loaded.tokensUsed = 0 → s.policy.tokensUsed = 0)) :
    Consistent { s with
      policy := commitReset catalog s.policy loaded at_
      resets := if loaded.isOver at_ then nextQuotaReset at_ :: s.resets else s.resets } := by
  by_cases hover : loaded.isOver at_ = true
  · obtain ⟨hsame, hzero⟩ := hmonth hover
    have htime : loaded.quotaResetAt.time = 0 := hsame ▸ h.time
    have hpast : s.policy.quotaResetAt.monthIndex ≤ at_.monthIndex := by
      rw [hsame]
      exact (isOver_iff htime at_).mp hover
    have hq : (Policies.commitReset catalog s.policy loaded at_).quotaResetAt = nextQuotaReset at_ :=
      if_pos hover
    have hnext := monthIndex_nextQuotaReset at_
    rw [if_pos hover]
    refine ⟨?_, ?_, ?_, ?_, h.sessions, ?_, ?_⟩
    · show (Policies.commitReset catalog s.policy loaded at_).quotaResetAt.time = 0
      rw [hq]
      exact time_nextQuotaReset at_
    · show (Policies.commitReset catalog s.policy loaded at_).quotaResetAt.monthIndex ≤ _
      rw [hq, hnext]
      exact Nat.succ_le_succ hat
    · intro x hx
      have hx' := h.recorded x hx
      show x.1.monthIndex < (Policies.commitReset catalog s.policy loaded at_).quotaResetAt.monthIndex
      rw [hq]
      omega
    · intro r hr
      show r.monthIndex ≤ (Policies.commitReset catalog s.policy loaded at_).quotaResetAt.monthIndex
      rw [hq]
      rcases List.mem_cons.mp hr with rfl | hr
      · exact Nat.le_refl _
      · have hr' := h.resets r hr
        omega
    · intro hruns
      -- the new month is the current one, and nothing has been recorded in it
      have hzero' : (Policies.commitReset catalog s.policy loaded at_).tokensUsed = 0 := by
        show (if loaded.isOver at_ ∧ loaded.tokensUsed ≠ 0 then 0 else s.policy.tokensUsed) = 0
        split
        · rfl
        · rename_i hn
          exact hzero (by_contra fun hne => hn ⟨hover, hne⟩)
      have hcurrent : s.now.monthIndex < (nextQuotaReset at_).monthIndex := by
        have htime' : (Policies.commitReset catalog s.policy loaded at_).quotaResetAt.time = 0 := by
          rw [hq]
          exact time_nextQuotaReset at_
        have hnot := (isOver_iff htime' s.now).not.mp (by rw [hruns]; exact Bool.false_ne_true)
        rw [hq] at hnot
        omega
      show (Policies.commitReset catalog s.policy loaded at_).tokensUsed = recordedIn s.recorded s.now
      rw [hzero', recordedIn_eq_zero]
      intro x hx
      have hx' := h.recorded x hx
      omega
    · rw [List.nodup_cons]
      refine ⟨fun hmem => ?_, h.once⟩
      have := h.resets _ hmem
      omega
  · have hq : (Policies.commitReset catalog s.policy loaded at_).quotaResetAt = s.policy.quotaResetAt :=
      if_neg hover
    have ht : (Policies.commitReset catalog s.policy loaded at_).tokensUsed = s.policy.tokensUsed :=
      if_neg fun hc => hover hc.1
    rw [if_neg hover]
    refine ⟨by rw [hq]; exact h.time, by rw [hq]; exact h.ahead, by rw [hq]; exact h.recorded,
      by rw [hq]; exact h.resets, h.sessions, ?_, h.once⟩
    intro hruns
    show (Policies.commitReset catalog s.policy loaded at_).tokensUsed = _
    rw [ht]
    apply h.account
    have hruns' : ((Policies.commitReset catalog s.policy loaded at_).quotaResetAt.le s.now) = false :=
      hruns
    rw [hq] at hruns'
    exact hruns'

/-- Usage recorded while the month runs. -/
theorem Consistent.record {s : State} (h : Consistent s) (hruns : s.policy.isOver s.now = false)
    (n : Nat) : Consistent { s with
      policy := { s.policy with tokensUsed := s.policy.tokensUsed + n }
      recorded := (s.now, n) :: s.recorded } := by
  refine ⟨h.time, h.ahead, ?_, h.resets, h.sessions, ?_, h.once⟩
  · intro x hx
    rcases List.mem_cons.mp hx with rfl | hx
    · have hnot := (isOver_iff h.time s.now).not.mp (by rw [hruns]; exact Bool.false_ne_true)
      show s.now.monthIndex < s.policy.quotaResetAt.monthIndex
      omega
    · exact h.recorded x hx
  · intro _
    show s.policy.tokensUsed + n = recordedIn ((s.now, n) :: s.recorded) s.now
    rw [recordedIn_cons, h.account hruns]
    exact Nat.add_comm _ _

/-- Time passes. -/
theorem Consistent.clock {s : State} (h : Consistent s) {now : DateTime} (hle : s.now.le now = true) :
    Consistent { s with now := now } := by
  have hmono := monthIndex_le_of_le hle
  refine ⟨h.time, Nat.le_trans h.ahead (Nat.succ_le_succ hmono), h.recorded, h.resets,
    fun x hx policy at_ hp => Nat.le_trans (h.sessions x hx policy at_ hp) hmono, ?_, h.once⟩
  intro hruns
  replace hruns : s.policy.isOver now = false := hruns
  have hnot := (isOver_iff h.time now).not.mp (by rw [hruns]; exact Bool.false_ne_true)
  have hahead := h.ahead
  have hruns' : s.policy.isOver s.now = false := by
    rw [Bool.eq_false_iff]
    intro hover
    have := (isOver_iff h.time s.now).mp hover
    omega
  have hsame : now.monthIndex = s.now.monthIndex := by omega
  show s.policy.tokensUsed = recordedIn s.recorded now
  rw [recordedIn_congr hsame]
  exact h.account hruns'

/-- **One step.** -/
theorem Consistent.step {s s' : State} {a : Action} (h : Consistent s) (hok : FindsItsMonth s a)
    (hs : (quotaSessions catalog).step s a = some s') : Consistent s' := by
  -- only a policy that is about to be committed says anything of the time
  have hplain : ∀ {phase : Phase}, (∀ policy at_, phase ≠ .changed policy at_) →
      ∀ policy at_, phase = .changed policy at_ → at_.monthIndex ≤ s.now.monthIndex :=
    fun hne policy at_ he => absurd he (hne policy at_)
  cases a with
  | request r =>
    cases hs
    refine ⟨h.time, h.ahead, h.recorded, h.resets, ?_, h.account, h.once⟩
    intro x hx
    rcases List.mem_append.mp hx with hx | hx
    · exact h.sessions x hx
    · rw [List.mem_singleton.mp hx]
      exact hplain (by simp)
  | clock now =>
    have hs' : (if s.now.le now then some { s with now := now } else none) = some s' := hs
    split at hs'
    · rename_i hle
      cases hs'
      exact h.clock hle
    · cases hs'
  | setActive active =>
    cases hs
    exact ⟨h.time, h.ahead, h.recorded, h.resets, h.sessions, h.account, h.once⟩
  | advance i =>
    obtain ⟨session, hi, hadvance⟩ := Option.bind_eq_some_iff.mp hs
    obtain ⟨hreset, hrecord⟩ := hok session hi
    unfold advance at hadvance
    split at hadvance
    · split at hadvance
      · cases hadvance
        exact h.setPhase i session (hplain (by simp))
      · split at hadvance
        · cases hadvance
          exact h.setPhase i session (hplain (by simp))
        · cases hadvance
          exact h.setPhase i session (hplain (by simp))
    -- the month of the loaded policy is compared with the clock as it is now
    · cases hadvance
      apply h.setPhase i session
      intro policy at_ he
      split at he
      · cases he
        exact Nat.le_refl _
      · cases he
    · rename_i policy at_ hphase
      cases hadvance
      -- the commit of a reset, which finds the month it has loaded
      refine Consistent.setPhase (h.commitReset catalog ?_ (hreset policy at_ hphase)) i session
        fun _ _ he => absurd he (by simp)
      exact h.sessions session (List.mem_of_getElem? hi) policy at_ hphase
    · rename_i held hphase
      cases hadvance
      unfold finish
      split
      · exact h.setPhase i session (hplain (by simp))
      · exact h.setPhase i session (hplain (by simp))
      · rename_i totalTokens hrequest
        exact (h.record (hrecord held totalTokens hphase hrequest) totalTokens.toNat).setPhase i session
          fun _ _ he => absurd he (by simp)
    · cases hadvance

/-- **No usage is lost** in every run in which each reset finds the month it has loaded and usage is
    recorded while its month runs. -/
theorem no_usage_lost (allowedModels : List String) (quota : Int) (now : DateTime) (s : State)
    (hr : (quotaSessions catalog).Reach FindsItsMonth (.start allowedModels quota now) s) :
    Accounted s := by
  have hconsistent : Consistent s := by
    apply hr.invariant (consistent_start allowedModels quota now)
    intro s a s' h hok hs
    exact h.step catalog hok hs
  exact ⟨hconsistent.account, hconsistent.once⟩

/-! ## A month that is started twice -/

def anyModel : Catalog := ⟨fun models => models⟩

/-- The new year has begun. One session starts the month and records 7 tokens; another, which has
    loaded the policy of December, starts the month again. -/
def overlappingResets : List Action :=
  [.request (.recordTokenUsage 100), .advance 0, .advance 0, .advance 0, .clock ⟨2027, 1, 5⟩,
    .request (.recordTokenUsage 7), .request (.authorizeModelAccess "glm-5.2"),
    .advance 1, .advance 2, .advance 1, .advance 2, .advance 1, .advance 1, .advance 2]

/-- The 7 tokens are gone. -/
theorem usage_lost :
    ¬ ∀ s, (quotaSessions anyModel).Reach Lts.Anything
      (.start ["glm-5.2"] 1000000 ⟨2026, 12, 9⟩) s → Accounted s := by
  intro h
  obtain ⟨s, hs, hp⟩ := Lts.exists_of_run (quotaSessions anyModel)
    (.start ["glm-5.2"] 1000000 ⟨2026, 12, 9⟩) overlappingResets
    (P := fun s => !s.policy.isOver s.now && s.policy.tokensUsed != recordedIn s.recorded s.now)
    (by decide)
  simp only [Bool.and_eq_true, Bool.not_eq_true', bne_iff_ne] at hp
  exact hp.2 ((h s hs).1 hp.1)

/-- `FindsItsMonth`, as a check. -/
def findsItsMonth (s : State) : Action → Bool
  | .advance i => s.sessions[i]?.all fun session =>
      (match session.phase with
      | .changed policy now => !policy.isOver now ||
          (s.policy.quotaResetAt == policy.quotaResetAt &&
            (policy.tokensUsed != 0 || s.policy.tokensUsed == 0))
      | .ready _ => !s.policy.isOver s.now
      | _ => true)
  | _ => true

theorem findsItsMonth_of_check {s : State} {a : Action} (h : findsItsMonth s a = true) :
    FindsItsMonth s a := by
  cases a with
  | advance i =>
    intro session hi
    simp only [findsItsMonth, hi, Option.all_some] at h
    refine ⟨?_, ?_⟩
    · intro policy now hphase hover
      rw [hphase] at h
      simp only [hover, Bool.not_true, Bool.false_or, Bool.and_eq_true, Bool.or_eq_true, bne_iff_ne,
        beq_iff_eq] at h
      refine ⟨h.1, fun hz => ?_⟩
      rcases h.2 with hn | h0
      · exact absurd hz hn
      · exact h0
    · intro held totalTokens hphase _
      rw [hphase] at h
      simpa using h
  | request r => trivial
  | clock now => trivial
  | setActive active => trivial

/-- One after the other, the usage of January is counted from zero. -/
theorem no_usage_lost_sequential : ∃ s, (quotaSessions anyModel).Reach FindsItsMonth
    (.start ["glm-5.2"] 1000000 ⟨2026, 12, 9⟩) s ∧ s.policy.tokensUsed = 7 ∧ Accounted s := by
  have hrun : ((quotaSessions anyModel).runChecked findsItsMonth
      [.request (.recordTokenUsage 100), .advance 0, .advance 0, .advance 0, .clock ⟨2027, 1, 5⟩,
        .request (.recordTokenUsage 7), .advance 1, .advance 1, .advance 1, .advance 1]
      (.start ["glm-5.2"] 1000000 ⟨2026, 12, 9⟩)).any
      (fun s => s.policy.tokensUsed == 7) = true := by decide
  obtain ⟨s, hs, hp⟩ := (Option.any_eq_true ..).mp hrun
  have hreach := Lts.Reach.start.of_runChecked (fun _ _ => findsItsMonth_of_check) hs
  exact ⟨s, hreach, beq_iff_eq.mp hp,
    no_usage_lost anyModel ["glm-5.2"] 1000000 ⟨2026, 12, 9⟩ s hreach⟩

end Policies

end HyChat
