import HyChat.Lib.Lts
import Mathlib.Data.List.Perm.Basic

/-!
# Reconciling a run whose stream fell silent

`AgentRunCompletionReconciler` reads the status of a run from time to time until it is terminal. A
session begins with `start` and ends with `clear` or with a terminal status; the timer and the reads
of a session that was cleared may still be under way when the next one has begun, and share its
fields.

The timers that the browser holds are kept apart from the field `timer`, which only remembers the
handle of one. Sessions are numbered in the order of the starts that took effect, and what happens
is written to a log, the newest entry first.

Why timers are kept twice. The object has one field for a timer, and `clear` cancels what is in it;
a callback that is running already is no timer any more and cannot be cancelled. A session that was
cleared while it reads comes back, sees the fields of the session that is in force by then, and
must not act on them. The code tells the two apart by comparing the generation it closed over with
the current one, and the invariant says that this is enough: at most one timer is pending, it is
that of the session in force, and a read of a former session changes nothing when it comes back.

What the theorem says is read off the log: at most one call of `onTerminal` for a start, right
after a read of that start that came back terminal while it was in force. How long the timers take
is not in it; a run whose status is never read terminal is simply never reported.
-/

set_option autoImplicit false

namespace HyChat

open Lib

namespace Frontend

/-- What the closures of a session hold. -/
structure ReconcileSession where
  start : Nat
  generation : Nat
  deriving DecidableEq

/-- A timer of the browser that has not fired. -/
structure PendingTimer where
  handle : Nat
  session : ReconcileSession
  delayMs : Nat
  deriving DecidableEq

inductive ReconcileEntry
  | started (start : Nat)
  | cleared
  /-- A status read has come back, with a string, another value or an error. -/
  | read (start : Nat) (status : Option String)
  | onTerminal (start : Nat) (status : Option String)
  deriving DecidableEq

/-- The fields of the object, the browser's timers, the reads under way, and the log. -/
structure Reconciler where
  timer : Option Nat
  active : Bool
  generation : Nat
  initialDelayMs : Nat
  intervalMs : Nat
  timers : List PendingTimer
  /-- The next handle `setTimeout` returns -/
  nextHandle : Nat
  /-- Status reads that have not come back -/
  reads : List ReconcileSession
  starts : Nat
  log : List ReconcileEntry

def Reconciler.initial (initialDelayMs intervalMs : Nat) : Reconciler :=
  ⟨none, false, 0, initialDelayMs, intervalMs, [], 0, [], 0, []⟩

inductive ReconcileAction
  | start
  | clear
  /-- A timer fires; `readStatus` answers with a promise or throws. -/
  | fire (handle : Nat) (throws : Bool)
  /-- A read resolves with a value or rejects; a value that is no string is `none`. -/
  | settle (i : Nat) (status : Except String (Option String))

/-- `isTerminalAgentRunStatus` -/
def isTerminalAgentRunStatus (status : Option String) : Bool :=
  status == some "error" || status == some "success" || status == some "timeout" ||
    status == some "interrupted"

namespace Reconciler

/-- `schedule` -/
def schedule (s : Reconciler) (session : ReconcileSession) (delayMs : Nat) : Reconciler :=
  { s with
    timer := some s.nextHandle
    timers := s.timers ++ [⟨s.nextHandle, session, delayMs⟩]
    nextHandle := s.nextHandle + 1 }

/-- A session that begins ends the one before. -/
def startSession (s : Reconciler) : Reconciler :=
  if s.active then s
  else
    let started :=
      { s with
        active := true
        generation := s.generation + 1
        starts := s.starts + 1
        log := .started (s.starts + 1) :: s.log }
    started.schedule ⟨s.starts + 1, s.generation + 1⟩ s.initialDelayMs

/-- The session is over, and its timer is cancelled. -/
def clear (s : Reconciler) : Reconciler :=
  let cleared :=
    { s with active := false, generation := s.generation + 1, log := .cleared :: s.log }
  match s.timer with
  | none => cleared
  | some handle =>
      { cleared with timer := none, timers := s.timers.filter fun t => t.handle ≠ handle }

/-- The callback of a timer after `readStatus`; the status of a failed read is undefined. -/
def resume (s : Reconciler) (session : ReconcileSession) (status : Option String) : Reconciler :=
  let answered := { s with log := .read session.start status :: s.log }
  if !s.active || session.generation ≠ s.generation then answered
  else if isTerminalAgentRunStatus status then
    { answered with active := false, log := .onTerminal session.start status :: answered.log }
  else answered.schedule session s.intervalMs

/-- The callback of a timer up to `readStatus`. -/
def fire (s : Reconciler) (t : PendingTimer) (throws : Bool) : Reconciler :=
  let fired := { s with timer := none, timers := s.timers.filter fun u => u.handle ≠ t.handle }
  if throws then fired.resume t.session none
  else { fired with reads := s.reads ++ [t.session] }

end Reconciler

def reconciler : Lts Reconciler ReconcileAction where
  step s
    | .start => some s.startSession
    | .clear => some s.clear
    | .fire handle throws =>
        (s.timers.find? fun t => t.handle == handle).map fun t => s.fire t throws
    | .settle i status => s.reads[i]?.map fun session =>
        { s with reads := s.reads.eraseIdx i }.resume session status.toOption.join

/-! ## What the log says -/

/-- The start that is in force, by a log with the newest entry first. -/
def currentStart : List ReconcileEntry → Option Nat
  | [] => none
  | .started start :: _ => some start
  | .cleared :: _ => none
  | _ :: log => currentStart log

/-- Every call of `onTerminal` follows a read of the start in force that came back terminal. -/
def Justified (log : List ReconcileEntry) : Prop :=
  ∀ later start status earlier, log = later ++ .onTerminal start status :: earlier →
    isTerminalAgentRunStatus status = true ∧ earlier.head? = some (.read start status) ∧
      currentStart earlier = some start

def terminalCalls (log : List ReconcileEntry) (start : Nat) : Nat :=
  log.countP fun e => match e with
    | .onTerminal n _ => n == start
    | _ => false

theorem justified_cons {e : ReconcileEntry} {log : List ReconcileEntry} :
    Justified (e :: log) ↔ Justified log ∧ ∀ start status, e = .onTerminal start status →
      isTerminalAgentRunStatus status = true ∧ log.head? = some (.read start status) ∧
        currentStart log = some start := by
  constructor
  · intro h
    refine ⟨?_, ?_⟩
    · intro later start status earlier he
      exact h (e :: later) start status earlier (by rw [he]; rfl)
    · intro start status he
      exact h [] start status log (by rw [he]; rfl)
  · intro ⟨hlog, hhead⟩ later start status earlier he
    cases later with
    | nil =>
      obtain ⟨rfl, rfl⟩ := List.cons.inj he
      exact hhead start status rfl
    | cons e' later =>
      obtain ⟨-, rfl⟩ := List.cons.inj he
      exact hlog later start status earlier rfl

@[simp] theorem terminalCalls_started (n start : Nat) (log : List ReconcileEntry) :
    terminalCalls (.started n :: log) start = terminalCalls log start := by
  simp [terminalCalls]

@[simp] theorem terminalCalls_cleared (start : Nat) (log : List ReconcileEntry) :
    terminalCalls (.cleared :: log) start = terminalCalls log start := by
  simp [terminalCalls]

@[simp] theorem terminalCalls_read (n : Nat) (status : Option String) (start : Nat)
    (log : List ReconcileEntry) :
    terminalCalls (.read n status :: log) start = terminalCalls log start := by
  simp [terminalCalls]

theorem terminalCalls_onTerminal (n : Nat) (status : Option String) (start : Nat)
    (log : List ReconcileEntry) :
    terminalCalls (.onTerminal n status :: log) start =
      terminalCalls log start + if n = start then 1 else 0 := by
  simp [terminalCalls, List.countP_cons]

/-! ## The invariant -/

namespace Reconciler

/-- The session in force, when the reconciler is active -/
def session (s : Reconciler) : ReconcileSession := ⟨s.starts, s.generation⟩

/-- One timer is pending and it belongs to the session. -/
def Waits (s : Reconciler) : Prop :=
  ∃ t, s.timers = [t] ∧ s.timer = some t.handle ∧ t.session = s.session ∧
    s.reads.count s.session = 0

/-- No timer is pending; so many reads of the session are. -/
def Reads (s : Reconciler) (n : Nat) : Prop :=
  s.timers = [] ∧ s.timer = none ∧ s.reads.count s.session = n

/-- What the log and the reads of former sessions keep -/
structure Recorded (s : Reconciler) : Prop where
  reads : ∀ r ∈ s.reads, r.generation ≤ s.generation ∧ (r.generation = s.generation → r = s.session)
  inForce : s.active = true → currentStart s.log = some s.starts ∧ terminalCalls s.log s.starts = 0
  once : ∀ start, terminalCalls s.log start ≤ 1
  future : ∀ start, s.starts < start → terminalCalls s.log start = 0
  justified : Justified s.log

structure Sound (s : Reconciler) : Prop extends Recorded s where
  idle : s.active = false → s.Reads 0
  busy : s.active = true → s.Waits ∨ s.Reads 1

/-- Nothing has begun. -/
theorem sound_initial (initialDelayMs intervalMs : Nat) :
    (initial initialDelayMs intervalMs).Sound := by
  refine ⟨⟨?_, ?_, ?_, ?_, ?_⟩, ?_, ?_⟩
  · intro r hr
    exact absurd hr (by simp [initial])
  · intro h
    exact absurd h (by simp [initial])
  · intro start
    exact Nat.zero_le 1
  · intro start _
    rfl
  · intro later start status earlier h
    exact absurd h (by simp [initial])
  · intro _
    exact ⟨rfl, rfl, rfl⟩
  · intro h
    exact absurd h (by simp [initial])

/-- A session that begins now has no read. -/
theorem Recorded.count_fresh {s : Reconciler} (h : s.Recorded) (start : Nat) :
    s.reads.count ⟨start, s.generation + 1⟩ = 0 := by
  refine List.count_eq_zero.mpr fun hmem => ?_
  have hle := (h.reads _ hmem).1
  exact absurd hle (Nat.not_succ_le_self _)

theorem Recorded.older {s : Reconciler} (h : s.Recorded) (session : ReconcileSession) :
    ∀ r ∈ s.reads, r.generation ≤ s.generation + 1 ∧
      (r.generation = s.generation + 1 → r = session) := by
  intro r hr
  have hle := (h.reads r hr).1
  exact ⟨Nat.le_succ_of_le hle, fun he => absurd hle (by omega)⟩

/-- The next session begins, whatever the former ones have left. -/
theorem Sound.startSession {s : Reconciler} (h : s.Sound) : s.startSession.Sound := by
  unfold Reconciler.startSession
  split
  · exact h
  · rename_i hactive
    obtain ⟨htimers, htimer, -⟩ := h.idle (by simpa using hactive)
    refine ⟨⟨h.older _, ?_, ?_, ?_, ?_⟩, ?_, ?_⟩
    · intro _
      refine ⟨rfl, ?_⟩
      show terminalCalls (.started (s.starts + 1) :: s.log) (s.starts + 1) = 0
      rw [terminalCalls_started]
      exact h.future _ (Nat.lt_succ_self _)
    · intro start
      show terminalCalls (.started (s.starts + 1) :: s.log) start ≤ 1
      rw [terminalCalls_started]
      exact h.once start
    · intro start hlt
      show terminalCalls (.started (s.starts + 1) :: s.log) start = 0
      rw [terminalCalls_started]
      exact h.future start (Nat.lt_of_succ_lt hlt)
    · exact justified_cons.mpr ⟨h.justified, by simp⟩
    · intro hf
      exact absurd hf (by simp [schedule])
    · intro _
      refine .inl ⟨⟨s.nextHandle, ⟨s.starts + 1, s.generation + 1⟩, s.initialDelayMs⟩, ?_, rfl, rfl,
        h.count_fresh _⟩
      show s.timers ++ _ = _
      rw [htimers, List.nil_append]

/-- What a cleared session has under way is of a former session from now on. -/
theorem Sound.clear {s : Reconciler} (h : s.Sound) : s.clear.Sound := by
  have hrecorded : ({ s with
      active := false, generation := s.generation + 1, log := .cleared :: s.log } :
        Reconciler).Recorded := by
    refine ⟨h.older _, ?_, ?_, ?_, justified_cons.mpr ⟨h.justified, by simp⟩⟩
    · intro hf
      exact absurd hf (by simp)
    · intro start
      rw [terminalCalls_cleared]
      exact h.once start
    · intro start hlt
      rw [terminalCalls_cleared]
      exact h.future start hlt
  have hfresh := h.count_fresh s.starts
  unfold Reconciler.clear
  simp only
  split
  · rename_i htimer
    have htimers : s.timers = [] := by
      cases hactive : s.active with
      | false => exact (h.idle hactive).1
      | true =>
        rcases h.busy hactive with ⟨t, -, hsome, -⟩ | ⟨hnil, -⟩
        · rw [htimer] at hsome
          exact absurd hsome (by simp)
        · exact hnil
    exact ⟨hrecorded, fun _ => ⟨htimers, htimer, hfresh⟩, fun hf => absurd hf (by simp)⟩
  · rename_i handle htimer
    refine ⟨⟨hrecorded.reads, hrecorded.inForce, hrecorded.once, hrecorded.future,
      hrecorded.justified⟩, fun _ => ⟨?_, rfl, hfresh⟩, fun hf => absurd hf (by simp)⟩
    -- a handle is remembered only while its timer is the one that is pending
    show (s.timers.filter fun t => t.handle ≠ handle) = []
    cases hactive : s.active with
    | false =>
      obtain ⟨-, hnone, -⟩ := h.idle hactive
      rw [htimer] at hnone
      exact absurd hnone (by simp)
    | true =>
      rcases h.busy hactive with ⟨t, htimers, hsome, -⟩ | ⟨-, hnone, -⟩
      · rw [htimer, Option.some.injEq] at hsome
        simp [htimers, hsome]
      · rw [htimer] at hnone
        exact absurd hnone (by simp)

/-! ## A read that comes back -/

/-- The session goes on only if it is the one in force. -/
def Live (s : Reconciler) (session : ReconcileSession) : Prop :=
  s.active = true ∧ session.generation = s.generation

theorem Recorded.read {s : Reconciler} (h : s.Recorded) (start : Nat) (status : Option String) :
    ({ s with log := .read start status :: s.log } : Reconciler).Recorded := by
  refine ⟨h.reads, ?_, ?_, ?_, justified_cons.mpr ⟨h.justified, by simp⟩⟩
  · intro hactive
    obtain ⟨hcurrent, hnone⟩ := h.inForce hactive
    exact ⟨hcurrent, by rw [terminalCalls_read]; exact hnone⟩
  · intro n
    rw [terminalCalls_read]
    exact h.once n
  · intro n hlt
    rw [terminalCalls_read]
    exact h.future n hlt

/-- A read comes back to the session that is in force. -/
theorem sound_resume {s : Reconciler} {session : ReconcileSession} {status : Option String}
    (h : s.Recorded) (hlive : s.Live session → session = s.session ∧ s.Reads 0)
    (hother : ¬ s.Live session → (s.active = false → s.Reads 0) ∧
      (s.active = true → s.Waits ∨ s.Reads 1)) : (s.resume session status).Sound := by
  have hread := h.read session.start status
  unfold Reconciler.resume
  simp only
  split
  · rename_i hskip
    have hnot : ¬ s.Live session := by
      intro ⟨ha, hg⟩
      simp [ha, hg] at hskip
    obtain ⟨hidle, hbusy⟩ := hother hnot
    exact ⟨hread, hidle, hbusy⟩
  · rename_i hskip
    have hlives : s.Live session := by
      simpa [Live] using hskip
    obtain ⟨rfl, htimers, htimer, hcount⟩ := hlive hlives
    obtain ⟨hcurrent, hnone⟩ := h.inForce hlives.1
    split
    · rename_i hterminal
      refine ⟨⟨h.reads, fun hf => absurd hf (by simp), ?_, ?_, ?_⟩, fun _ => ⟨htimers, htimer, hcount⟩,
        fun hf => absurd hf (by simp)⟩
      · intro start
        simp only [terminalCalls_onTerminal, terminalCalls_read]
        by_cases he : s.starts = start
        · rw [← he, hnone]
          simp [session]
        · have hne : ¬ s.session.start = start := he
          rw [if_neg hne]
          exact h.once start
      · intro start hlt
        simp only [terminalCalls_onTerminal, terminalCalls_read]
        rw [h.future start hlt, if_neg]
        exact Nat.ne_of_lt hlt
      · refine justified_cons.mpr ⟨hread.justified, ?_⟩
        intro start status' he
        cases he
        exact ⟨hterminal, rfl, hcurrent⟩
    · refine ⟨⟨h.reads, hread.inForce, hread.once, hread.future, hread.justified⟩, ?_, ?_⟩
      · intro hf
        exact absurd (hlives.1.symm.trans hf) (by simp)
      · intro _
        refine .inl ⟨⟨s.nextHandle, s.session, s.intervalMs⟩, ?_, rfl, rfl, hcount⟩
        show s.timers ++ _ = _
        rw [htimers, List.nil_append]

theorem Sound.settle {s : Reconciler} (h : s.Sound) {i : Nat} {session : ReconcileSession}
    (hi : s.reads[i]? = some session) (status : Option String) :
    ({ s with reads := s.reads.eraseIdx i }.resume session status).Sound := by
  have hmem := List.mem_of_getElem? hi
  obtain ⟨hlt, hget⟩ := List.getElem?_eq_some_iff.mp hi
  have hcount : ∀ r, s.reads.count r = (s.reads.eraseIdx i).count r + if session == r then 1 else 0 := by
    intro r
    rw [← (List.getElem_cons_eraseIdx_perm hlt).count_eq r, hget, List.count_cons]
  have hrecorded : ({ s with reads := s.reads.eraseIdx i } : Reconciler).Recorded :=
    ⟨fun r hr => h.reads r (List.mem_of_mem_eraseIdx hr), h.inForce, h.once, h.future, h.justified⟩
  refine sound_resume hrecorded ?_ ?_
  · intro ⟨hactive, hgen⟩
    obtain rfl := (h.reads session hmem).2 hgen
    have hpos : 0 < s.reads.count s.session := List.count_pos_iff.mpr hmem
    rcases h.busy hactive with ⟨t, -, -, -, hzero⟩ | ⟨htimers, htimer, hone⟩
    · omega
    · refine ⟨rfl, htimers, htimer, ?_⟩
      show (s.reads.eraseIdx i).count s.session = 0
      have hc := hcount s.session
      rw [hone, beq_self_eq_true, if_pos rfl] at hc
      omega
  · intro hnot
    have hne : s.active = true → session ≠ s.session := by
      rintro hactive rfl
      exact hnot ⟨hactive, rfl⟩
    refine ⟨?_, ?_⟩
    · intro hidle
      obtain ⟨htimers, htimer, hzero⟩ := h.idle hidle
      refine ⟨htimers, htimer, ?_⟩
      show (s.reads.eraseIdx i).count s.session = 0
      have hc := hcount s.session
      omega
    · intro hactive
      have hsame : (s.reads.eraseIdx i).count s.session = s.reads.count s.session := by
        rw [hcount, if_neg (by simpa using hne hactive), Nat.add_zero]
      rcases h.busy hactive with ⟨t, htimers, htimer, hsession, hzero⟩ | ⟨htimers, htimer, hone⟩
      · exact .inl ⟨t, htimers, htimer, hsession, hsame.trans hzero⟩
      · exact .inr ⟨htimers, htimer, hsame.trans hone⟩

/-- A timer that fires is the only one, and its session is in force. -/
theorem Sound.of_pending {s : Reconciler} (h : s.Sound) {t : PendingTimer} (ht : t ∈ s.timers) :
    s.active = true ∧ s.timers = [t] ∧ t.session = s.session ∧ s.reads.count s.session = 0 := by
  cases hactive : s.active with
  | false =>
    rw [(h.idle hactive).1] at ht
    exact absurd ht (by simp)
  | true =>
    rcases h.busy hactive with ⟨u, htimers, -, hsession, hzero⟩ | ⟨htimers, -⟩
    · rw [htimers, List.mem_singleton] at ht
      subst ht
      exact ⟨rfl, htimers, hsession, hzero⟩
    · rw [htimers] at ht
      exact absurd ht (by simp)

/-- The timer that fires was the only one. -/
theorem Sound.fire {s : Reconciler} (h : s.Sound) {t : PendingTimer} (ht : t ∈ s.timers)
    (throws : Bool) : (s.fire t throws).Sound := by
  obtain ⟨hactive, htimers, hsession, hzero⟩ := h.of_pending ht
  have hnone : (s.timers.filter fun u => u.handle ≠ t.handle) = [] := by
    simp [htimers]
  unfold Reconciler.fire
  simp only
  split
  · refine sound_resume ⟨h.reads, h.inForce, h.once, h.future, h.justified⟩ ?_ ?_
    · intro _
      exact ⟨hsession, hnone, rfl, hzero⟩
    · intro hnot
      exact absurd ⟨hactive, congrArg ReconcileSession.generation hsession⟩ hnot
  · refine ⟨⟨?_, h.inForce, h.once, h.future, h.justified⟩, ?_, ?_⟩
    · intro r hr
      rcases List.mem_append.mp hr with hr | hr
      · exact h.reads r hr
      · rw [List.mem_singleton] at hr
        rw [hr, hsession]
        exact ⟨Nat.le_refl _, fun _ => rfl⟩
    · intro hf
      exact absurd (hactive.symm.trans hf) (by simp)
    · intro _
      refine .inr ⟨hnone, rfl, ?_⟩
      show (s.reads ++ [t.session]).count s.session = 1
      rw [List.count_append, hsession, hzero]
      simp

/-- Any event -/
theorem Sound.step {s s' : Reconciler} {a : ReconcileAction} (h : s.Sound)
    (hs : reconciler.step s a = some s') : s'.Sound := by
  cases a with
  | start =>
    cases hs
    exact h.startSession
  | clear =>
    cases hs
    exact h.clear
  | fire handle throws =>
    obtain ⟨t, ht, rfl⟩ := Option.map_eq_some_iff.mp hs
    exact h.fire (List.mem_of_find?_eq_some ht) throws
  | settle i status =>
    obtain ⟨session, hi, rfl⟩ := Option.map_eq_some_iff.mp hs
    exact h.settle hi _

end Reconciler

/-- **Reconciliation fires safely**, whatever the order of starts, clears, timers and reads:
    `onTerminal` is called at most once for a start and only right after a read of the start in
    force has come back terminal, at most one timer is pending, a second start changes nothing, and
    an active session has either one pending timer or one read under way. -/
theorem reconciler_fires_safely (initialDelayMs intervalMs : Nat) (s : Reconciler)
    (h : reconciler.Reach Lts.Anything (.initial initialDelayMs intervalMs) s) :
    (∀ start, terminalCalls s.log start ≤ 1) ∧ Justified s.log ∧ s.timers.length ≤ 1 ∧
      (s.active = true → reconciler.step s .start = some s ∧ terminalCalls s.log s.starts = 0 ∧
        (s.timers.map (·.session) = [s.session] ∧ s.reads.count s.session = 0 ∨
          s.timers = [] ∧ s.reads.count s.session = 1)) := by
  have hsound : s.Sound := h.invariant (Reconciler.sound_initial _ _) fun _ _ _ hi _ hs => hi.step hs
  refine ⟨hsound.once, hsound.justified, ?_, ?_⟩
  · cases hactive : s.active with
    | false =>
      rw [(hsound.idle hactive).1]
      exact Nat.zero_le 1
    | true =>
      rcases hsound.busy hactive with ⟨t, htimers, -⟩ | ⟨htimers, -⟩
      · rw [htimers]
        exact Nat.le_refl 1
      · rw [htimers]
        exact Nat.zero_le 1
  · intro hactive
    refine ⟨?_, (hsound.inForce hactive).2, ?_⟩
    · simp [reconciler, Reconciler.startSession, hactive]
    · rcases hsound.busy hactive with ⟨t, htimers, -, hsession, hzero⟩ | ⟨htimers, -, hone⟩
      · exact .inl ⟨by rw [htimers, List.map_singleton, hsession], hzero⟩
      · exact .inr ⟨htimers, hone⟩

/-- The session that is cleared while it reads is forgotten; the next one finds its run at an end
    in the second read. -/
theorem reconciler_fires_safely_restarted :
    ∃ s, reconciler.Reach Lts.Anything (.initial 12000 3000) s ∧ currentStart s.log = some 2 ∧
      terminalCalls s.log 2 = 1 ∧ s.timers.length ≤ 1 ∧ Justified s.log := by
  obtain ⟨s, hs, hp⟩ := Lts.exists_of_run reconciler (.initial 12000 3000)
    [.start, .fire 0 false, .clear, .start, .settle 0 (.ok (some "success")), .fire 1 false,
      .settle 0 (.ok (some "running")), .fire 2 false, .settle 0 (.ok (some "error"))]
    (P := fun s => currentStart s.log == some 2 && terminalCalls s.log 2 == 1) (by decide)
  simp only [Bool.and_eq_true, beq_iff_eq] at hp
  have hsafe := reconciler_fires_safely 12000 3000 s hs
  exact ⟨s, hs, hp.1, hp.2, hsafe.2.2.1, hsafe.2.1⟩

end Frontend

end HyChat
