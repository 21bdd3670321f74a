import HyChat.Lib.Lts
import HyChat.Tracing.SafeJson

/-!
# Password reset tokens

`create_password_reset_issue` deletes the expired tokens and the user's unused ones and inserts a
new one, in one transaction; `reset_password_with_token` selects an unused, unexpired token and
marks it used at its commit. The transactions are READ COMMITTED. A DELETE finds its rows in the
state that is committed when it starts, waits for those that another transaction holds, and looks
at each of them again before deleting it; an UPDATE of the object mapper fails when its row is gone.

The columns of `users` that a reset writes are those of the token version, which is another matter.

Why the condition is on commits. Both operations read first and write at their commit, and under
READ COMMITTED a row that was read can have changed by then. Two confirmations that have both
selected the token each mark it used; an issue that overlaps another one deletes the tokens that
are there when its statement starts, and not the one that is committed meanwhile. `StillAlone` says
of a commit that what the transaction has read is still so. A single session that takes its turn
alone, and before its token expires, always meets it.

What single use is taken to mean: at the moment a token is accepted, it has not been accepted
before, it has not expired, and it is the last one issued for its user (`Acceptable`). The third
part is what issuing anew is for. All three are read off the log of events and not off the table,
which forgets.

`Orderly` carries this along a run: it ties the unused tokens of the table to the events.
-/

set_option autoImplicit false

namespace HyChat

open Lib

namespace Auth

structure Account where
  id : String
  email : String
  isActive : Bool
  deriving DecidableEq

structure ResetToken where
  id : String
  userId : String
  tokenHash : String
  expiresAt : Nat
  usedAt : Option Nat
  createdAt : Nat
  deriving DecidableEq

/-- The lifetime of a token, in minutes, the hash of its text, and `email.strip().lower()`. -/
structure ResetSettings where
  passwordResetTokenMinutes : Nat
  hashText : String → String
  normalizeEmail : String → String

variable (cfg : ResetSettings)

/-- `_hash_reset_token(token.strip())` -/
def hashResetToken (token : String) : String := cfg.hashText (String.ofList (Py.strip token.toList))

/-! ## Transactions -/

inductive ResetRequest
  /-- `create_password_reset_issue`, with the id and the text it draws -/
  | issue (email id token : String)
  /-- `reset_password_with_token` -/
  | reset (token : String)
  deriving DecidableEq

/-- Where a request stands: before its first statement, with the rows it has deleted, or at its
commit. -/
inductive ResetPhase
  | start
  /-- The DELETE of the expired tokens is next, for a transaction that will insert `row`. -/
  | deleteExpired (row : ResetToken)
  /-- That DELETE has found these rows. -/
  | lockExpired (row : ResetToken) (found : List String)
  /-- The DELETE of the user's unused tokens is next. -/
  | deleteUnused (row : ResetToken) (deleted : List String)
  | lockUnused (row : ResetToken) (deleted found : List String)
  | commitIssue (row : ResetToken) (deleted : List String)
  /-- The token is selected and its user is active; the commit is next. -/
  | commitReset (selected : ResetToken) (now : Nat)
  | done (succeeded : Bool)
  deriving DecidableEq

structure ResetSession where
  request : ResetRequest
  phase : ResetPhase
  deriving DecidableEq

inductive ResetEvent
  /-- An issue has committed this row. -/
  | issued (row : ResetToken)
  /-- A reset has committed with the token of this id. -/
  | accepted (id : String) (at_ : Nat)
  deriving DecidableEq

structure ResetState where
  users : List Account
  tokens : List ResetToken
  now : Nat
  sessions : List ResetSession
  /-- What has been committed, the latest first -/
  events : List ResetEvent

def ResetState.start (users : List Account) (now : Nat) : ResetState := ⟨users, [], now, [], []⟩

inductive ResetAction
  | request (r : ResetRequest)
  /-- The next statement or commit of a session -/
  | advance (i : Nat)
  /-- The transaction of a session is rolled back. -/
  | abort (i : Nat)
  | tick (seconds : Nat)
  | setActive (userId : String) (active : Bool)

/-- The rows a transaction has deleted and not committed. -/
def ResetPhase.held : ResetPhase → List String
  | .deleteUnused _ deleted => deleted
  | .lockUnused _ deleted _ => deleted
  | .commitIssue _ deleted => deleted
  | _ => []

/-- Another transaction holds one of the rows. -/
def ResetState.waits (s : ResetState) (i : Nat) (ids : List String) : Bool :=
  s.sessions.zipIdx.any fun x => x.2 != i && x.1.phase.held.any ids.contains

def ResetToken.isUsable (now : Nat) (row : ResetToken) : Bool := row.usedAt.isNone && now < row.expiresAt

/-- The ids of the rows that meet a condition. -/
def ResetState.find (s : ResetState) (condition : ResetToken → Bool) : List String :=
  (s.tokens.filter condition).map ResetToken.id

def isExpired (now : Nat) (row : ResetToken) : Bool := row.expiresAt ≤ now

def isUnusedOf (userId : String) (row : ResetToken) : Bool :=
  row.userId == userId && row.usedAt.isNone

def ResetState.setPhase (s : ResetState) (i : Nat) (session : ResetSession) (phase : ResetPhase) :
    ResetState :=
  { s with sessions := s.sessions.set i { session with phase := phase } }

/-- The first statement of a request. -/
def begin_ (s : ResetState) : ResetRequest → ResetPhase
  | .issue email id token =>
      match s.users.find? fun user => user.email == cfg.normalizeEmail email with
      | some user =>
          if user.isActive then
            .deleteExpired ⟨id, user.id, hashResetToken cfg token,
              s.now + cfg.passwordResetTokenMinutes * 60, none, s.now⟩
          else .done false
      | none => .done false
  | .reset token =>
      match s.tokens.find? fun row =>
          row.tokenHash == hashResetToken cfg token && row.isUsable s.now with
      | some row =>
          match s.users.find? fun user => user.id == row.userId with
          | some user => if user.isActive then .commitReset row s.now else .done false
          | none => .done false
      | none => .done false

def ResetEvent.issues (id : String) : ResetEvent → Bool
  | .issued row => row.id == id
  | .accepted _ _ => false

/-- One statement of a request -/
def advanceReset (s : ResetState) (i : Nat) (session : ResetSession) : Option ResetState :=
  match session.phase with
  | .start => some (s.setPhase i session (begin_ cfg s session.request))
  | .deleteExpired row =>
      some (s.setPhase i session (.lockExpired row (s.find (isExpired row.createdAt))))
  | .lockExpired row found =>
      if s.waits i found then none
      else
        let still := (s.find (isExpired row.createdAt)).filter found.contains
        some (s.setPhase i session (.deleteUnused row still))
  | .deleteUnused row deleted =>
      some (s.setPhase i session (.lockUnused row deleted
        ((s.find (isUnusedOf row.userId)).filter fun id => !deleted.contains id)))
  | .lockUnused row deleted found =>
      if s.waits i found then none
      else
        let still := (s.find (isUnusedOf row.userId)).filter found.contains
        some (s.setPhase i session (.commitIssue row (deleted ++ still)))
  | .commitIssue row deleted =>
      -- the id is a new one
      if s.events.any (ResetEvent.issues row.id) then none
      else
        let committed : ResetState := { s with
          tokens := (s.tokens.filter fun t => !deleted.contains t.id) ++ [row]
          events := .issued row :: s.events }
        some (committed.setPhase i session (.done true))
  | .commitReset selected now =>
      if s.waits i [selected.id] then none
      else if s.tokens.any fun t => t.id == selected.id then
        let committed : ResetState := { s with
          tokens := s.tokens.map fun t =>
            if t.id = selected.id then { t with usedAt := some now } else t
          events := .accepted selected.id s.now :: s.events }
        some (committed.setPhase i session (.done true))
      else some (s.setPhase i session (.done false))
  | .done _ => none

def resetSessions : Lts ResetState ResetAction where
  step s
    | .request r => some { s with sessions := s.sessions ++ [⟨r, .start⟩] }
    | .advance i => s.sessions[i]?.bind fun session => advanceReset cfg s i session
    | .abort i => s.sessions[i]?.map fun session => s.setPhase i session (.done false)
    | .tick seconds => some { s with now := s.now + seconds }
    | .setActive userId active => some { s with
        users := s.users.map fun user =>
          if user.id = userId then { user with isActive := active } else user }

/-! ## Single use -/

/-- The token that was issued last for a user. -/
def latest (userId : String) : List ResetEvent → Option ResetToken
  | [] => none
  | .issued row :: earlier => if row.userId = userId then some row else latest userId earlier
  | .accepted _ _ :: earlier => latest userId earlier

/-- A token may be accepted: it has not been accepted before, has not expired, and is the last that
    was issued for its user. -/
def Acceptable (earlier : List ResetEvent) (id : String) (at_ : Nat) : Prop :=
  (∀ t, .accepted id t ∉ earlier) ∧
    ∃ row, latest row.userId earlier = some row ∧ row.id = id ∧ at_ < row.expiresAt

/-- Every token was accepted as it may be. -/
def SingleUse : List ResetEvent → Prop
  | [] => True
  | .issued _ :: earlier => SingleUse earlier
  | .accepted id at_ :: earlier => SingleUse earlier ∧ Acceptable earlier id at_

/-- A reset finds its token unused and unexpired at its commit, and an issue has deleted all tokens
    that the user has not used at its commit. -/
def StillAlone (s : ResetState) : ResetAction → Prop
  | .advance i => ∀ session, s.sessions[i]? = some session →
      (∀ selected now, session.phase = .commitReset selected now →
        ∀ t ∈ s.tokens, t.id = selected.id → t.isUsable s.now = true) ∧
      (∀ row deleted, session.phase = .commitIssue row deleted →
        ∀ t ∈ s.tokens, isUnusedOf row.userId t = true → t.id ∈ deleted)
  | _ => True

/-- The tokens that are unused, and the events. -/
structure Orderly (s : ResetState) : Prop where
  /-- An unused token is the last that was issued for its user, and was never accepted. -/
  unused : ∀ t ∈ s.tokens, t.usedAt = none →
    latest t.userId s.events = some t ∧ ∀ at_, .accepted t.id at_ ∉ s.events
  issued : ∀ t ∈ s.tokens, s.events.any (ResetEvent.issues t.id) = true
  accepted : ∀ id at_, .accepted id at_ ∈ s.events → s.events.any (ResetEvent.issues id) = true
  singleUse : SingleUse s.events

/-- No token has been issued. -/
theorem orderly_start (users : List Account) (now : Nat) : Orderly (.start users now) :=
  ⟨fun _ h => absurd h (by simp [ResetState.start]), fun _ h => absurd h (by simp [ResetState.start]),
    fun _ _ h => absurd h (by simp [ResetState.start]), trivial⟩

theorem Orderly.setPhase {s : ResetState} (h : Orderly s) (i : Nat) (session : ResetSession)
    (phase : ResetPhase) : Orderly (s.setPhase i session phase) :=
  ⟨h.unused, h.issued, h.accepted, h.singleUse⟩

theorem any_issues_cons {events : List ResetEvent} {id : String} (e : ResetEvent)
    (h : events.any (ResetEvent.issues id) = true) :
    (e :: events).any (ResetEvent.issues id) = true := by
  rw [List.any_cons, h, Bool.or_true]

/-- **An issue**, by which the user's unused tokens are gone. -/
theorem Orderly.issue {s : ResetState} (h : Orderly s) {row : ResetToken} {deleted : List String}
    (hfresh : ¬ s.events.any (ResetEvent.issues row.id) = true)
    (hgone : ∀ t ∈ s.tokens, isUnusedOf row.userId t = true → t.id ∈ deleted) :
    Orderly { s with
      tokens := (s.tokens.filter fun t => !deleted.contains t.id) ++ [row]
      events := .issued row :: s.events } := by
  have hself : (ResetEvent.issued row :: s.events).any (ResetEvent.issues row.id) = true := by
    simp [ResetEvent.issues]
  refine ⟨?_, ?_, ?_, h.singleUse⟩
  · intro t ht hu
    rcases List.mem_append.mp ht with ht | ht
    · obtain ⟨hmem, hkeep⟩ := List.mem_filter.mp ht
      obtain ⟨hlatest, hnot⟩ := h.unused t hmem hu
      have hne : row.userId ≠ t.userId := by
        intro he
        have hdel := hgone t hmem (by simp [isUnusedOf, he, hu])
        simp [hdel] at hkeep
      refine ⟨?_, fun at_ hm => ?_⟩
      · show (if row.userId = t.userId then some row else latest t.userId s.events) = some t
        rw [if_neg hne]
        exact hlatest
      · rcases List.mem_cons.mp hm with he | hm
        · cases he
        · exact hnot at_ hm
    · rw [List.mem_singleton.mp ht]
      refine ⟨if_pos rfl, fun at_ hm => ?_⟩
      rcases List.mem_cons.mp hm with he | hm
      · cases he
      · exact hfresh (h.accepted row.id at_ hm)
  · intro t ht
    rcases List.mem_append.mp ht with ht | ht
    · exact any_issues_cons _ (h.issued t (List.mem_filter.mp ht).1)
    · rw [List.mem_singleton.mp ht]
      exact hself
  · intro id at_ hm
    rcases List.mem_cons.mp hm with he | hm
    · cases he
    · exact any_issues_cons _ (h.accepted id at_ hm)

/-- **A reset** with a token that is unused and has not expired. -/
theorem Orderly.accept {s : ResetState} (h : Orderly s) {id : String} {now : Nat}
    (hthere : s.tokens.any (fun t => t.id == id) = true)
    (husable : ∀ t ∈ s.tokens, t.id = id → t.isUsable s.now = true) :
    Orderly { s with
      tokens := s.tokens.map fun t => if t.id = id then { t with usedAt := some now } else t
      events := .accepted id s.now :: s.events } := by
  obtain ⟨row, hrow, hid⟩ := List.any_eq_true.mp hthere
  replace hid : row.id = id := beq_iff_eq.mp hid
  have husable' := husable row hrow hid
  simp only [ResetToken.isUsable, Bool.and_eq_true, Option.isNone_iff_eq_none, decide_eq_true_eq]
    at husable'
  obtain ⟨hlatest, hnot⟩ := h.unused row hrow husable'.1
  rw [hid] at hnot
  refine ⟨?_, ?_, ?_, h.singleUse, hnot, row, hlatest, hid, husable'.2⟩
  · intro t ht hu
    obtain ⟨t₀, ht₀, rfl⟩ := List.mem_map.mp ht
    by_cases he : t₀.id = id
    · rw [if_pos he] at hu
      exact absurd hu (by simp)
    · rw [if_neg he] at hu ⊢
      obtain ⟨hlatest₀, hnot₀⟩ := h.unused t₀ ht₀ hu
      refine ⟨hlatest₀, fun at_ hm => ?_⟩
      rcases List.mem_cons.mp hm with heq | hm
      · cases heq
        exact he rfl
      · exact hnot₀ at_ hm
  · intro t ht
    obtain ⟨t₀, ht₀, rfl⟩ := List.mem_map.mp ht
    have hissued := any_issues_cons (.accepted id s.now) (h.issued t₀ ht₀)
    split
    · exact hissued
    · exact hissued
  · intro id' at_ hm
    rcases List.mem_cons.mp hm with he | hm
    · cases he
      rw [← hid]
      exact any_issues_cons _ (h.issued row hrow)
    · exact any_issues_cons _ (h.accepted id' at_ hm)

/-- **One step.** -/
theorem Orderly.step {s s' : ResetState} {a : ResetAction} (h : Orderly s) (hok : StillAlone s a)
    (hs : (resetSessions cfg).step s a = some s') : Orderly s' := by
  cases a with
  | request r =>
    cases hs
    exact ⟨h.unused, h.issued, h.accepted, h.singleUse⟩
  | tick seconds =>
    cases hs
    exact ⟨h.unused, h.issued, h.accepted, h.singleUse⟩
  | setActive userId active =>
    cases hs
    exact ⟨h.unused, h.issued, h.accepted, h.singleUse⟩
  | abort i =>
    obtain ⟨session, -, rfl⟩ := Option.map_eq_some_iff.mp hs
    exact h.setPhase i session _
  | advance i =>
    obtain ⟨session, hi, hadvance⟩ := Option.bind_eq_some_iff.mp hs
    obtain ⟨hreset, hissue⟩ := hok session hi
    unfold advanceReset at hadvance
    split at hadvance
    · cases hadvance
      exact h.setPhase i session _
    · cases hadvance
      exact h.setPhase i session _
    · split at hadvance
      · cases hadvance
      · cases hadvance
        exact h.setPhase i session _
    · cases hadvance
      exact h.setPhase i session _
    · split at hadvance
      · cases hadvance
      · cases hadvance
        exact h.setPhase i session _
    · rename_i row deleted hphase
      split at hadvance
      · cases hadvance
      · rename_i hfresh
        cases hadvance
        -- the commit of an issue
        exact (h.issue hfresh (hissue row deleted hphase)).setPhase i session _
    · rename_i selected now hphase
      split at hadvance
      · cases hadvance
      · split at hadvance
        · rename_i hthere
          cases hadvance
          -- the commit of a reset; when the row is gone the UPDATE fails
          exact (h.accept hthere (hreset selected now hphase)).setPhase i session _
        · cases hadvance
          exact h.setPhase i session _
    · cases hadvance

/-- **Reset tokens are single-use** in every run in which a reset finds its token unused and
    unexpired at its commit, and an issue has deleted all tokens that the user has not used. -/
theorem reset_tokens_single_use (users : List Account) (now : Nat) (s : ResetState)
    (hr : (resetSessions cfg).Reach StillAlone (.start users now) s) : SingleUse s.events := by
  have horderly : Orderly s := by
    apply hr.invariant (orderly_start users now)
    intro s a s' h hok hs
    exact h.step cfg hok hs
  exact horderly.singleUse

/-! ## Two confirmations at a time -/

def plainReset : ResetSettings := ⟨30, fun text => text, fun email => email⟩

def bob : Account := ⟨"u1", "bob@example.com", true⟩

/-- A token is issued, and two sessions confirm it: both have selected it before either commits. -/
def overlappingResets : List ResetAction :=
  [.request (.issue "bob@example.com" "r1" "token"), .advance 0, .advance 0, .advance 0, .advance 0,
    .advance 0, .advance 0, .request (.reset "token"), .request (.reset "token"), .advance 1,
    .advance 2, .advance 1, .advance 2]

/-- The number of times a token has been accepted. -/
def acceptances (id : String) (events : List ResetEvent) : Nat :=
  (events.filter fun
    | .accepted id' _ => id' == id
    | .issued _ => false).length

/-- A token that every acceptance finds acceptable is accepted once. -/
theorem acceptances_le_one {events : List ResetEvent} (h : SingleUse events) (id : String) :
    acceptances id events ≤ 1 := by
  induction events with
  | nil => exact Nat.zero_le _
  | cons e earlier ih =>
    cases e with
    | issued row => exact ih h
    | accepted id' at_ =>
      by_cases he : id' = id
      · subst he
        have hnone : acceptances id' earlier = 0 := by
          rw [acceptances, List.length_eq_zero_iff, List.filter_eq_nil_iff]
          intro e hm he
          cases e with
          | issued row => exact absurd he (by simp)
          | accepted id'' t =>
            rw [beq_iff_eq.mp he] at hm
            exact h.2.1 t hm
        have hlen : acceptances id' (.accepted id' at_ :: earlier) = acceptances id' earlier + 1 := by
          simp [acceptances]
        omega
      · have hlen : acceptances id (.accepted id' at_ :: earlier) = acceptances id earlier := by
          simp [acceptances, he]
        rw [hlen]
        exact ih h.1

/-- Both confirmations succeed. -/
theorem token_used_twice :
    ¬ ∀ s, (resetSessions plainReset).Reach Lts.Anything (.start [bob] 0) s → SingleUse s.events := by
  intro h
  obtain ⟨s, hs, hp⟩ := Lts.exists_of_run (resetSessions plainReset) (.start [bob] 0)
    overlappingResets (P := fun s => acceptances "r1" s.events == 2) (by decide)
  have htwice := beq_iff_eq.mp hp
  have honce := acceptances_le_one (h s hs) "r1"
  omega

/-- `StillAlone`, as a check. -/
def stillAlone (s : ResetState) : ResetAction → Bool
  | .advance i => s.sessions[i]?.all fun session =>
      match session.phase with
      | .commitReset selected _ =>
          s.tokens.all fun t => t.id != selected.id || t.isUsable s.now
      | .commitIssue row deleted =>
          s.tokens.all fun t => !isUnusedOf row.userId t || deleted.contains t.id
      | _ => true
  | _ => true

theorem stillAlone_of_check {s : ResetState} {a : ResetAction} (h : stillAlone s a = true) :
    StillAlone s a := by
  cases a with
  | advance i =>
    intro session hi
    simp only [stillAlone, hi, Option.all_some] at h
    refine ⟨?_, ?_⟩
    · intro selected now hphase t ht hid
      rw [hphase] at h
      have ht' := List.all_eq_true.mp h t ht
      simpa [hid] using ht'
    · intro row deleted hphase t ht hunused
      rw [hphase] at h
      have ht' := List.all_eq_true.mp h t ht
      simpa [hunused] using ht'
  | request r => trivial
  | abort i => trivial
  | tick seconds => trivial
  | setActive userId active => trivial

/-- One after the other, the second confirmation finds no token. -/
theorem reset_tokens_single_use_sequential : ∃ s,
    (resetSessions plainReset).Reach StillAlone (.start [bob] 0) s ∧
      acceptances "r1" s.events = 1 ∧ SingleUse s.events := by
  have hrun : ((resetSessions plainReset).runChecked stillAlone
      [.request (.issue "bob@example.com" "r1" "token"), .advance 0, .advance 0, .advance 0,
        .advance 0, .advance 0, .advance 0, .request (.reset "token"), .advance 1, .advance 1,
        .request (.reset "token"), .advance 2] (.start [bob] 0)).any
      (fun s => acceptances "r1" s.events == 1) = true := by decide
  obtain ⟨s, hs, hp⟩ := (Option.any_eq_true ..).mp hrun
  have hreach := Lts.Reach.start.of_runChecked (fun _ _ => stillAlone_of_check) hs
  exact ⟨s, hreach, beq_iff_eq.mp hp, reset_tokens_single_use plainReset [bob] 0 s hreach⟩

end Auth

end HyChat
