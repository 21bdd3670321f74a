import HyChat.Lib.Lts
import Mathlib.Data.List.Basic

/-!
# Token versions

A token carries the `token_version` of the user it was issued for, and is accepted while that is
the version of the row. Logging out everywhere, changing the password and resetting it advance the
version: the session loads the row, adds one to the value it has loaded, and commits. Sessions of
one user run in between each other, one read or one commit at a time (a commit's UPDATE holds the
row until the commit is through).

A token is kept with the number of revocations that had been committed when it was issued.

Why the version of a token is not compared with the row alone. Revocation is final if a token that
was issued before a revocation is never accepted again, at any later time. `Behind` therefore says
of all tokens at once: those issued before the last revocation have a smaller version than the row
has, and no token or session has a larger one. A commit that moves the version forward keeps this,
one that writes a number that is there already does not, and it happens when two sessions have
loaded the same row. `FindsItsVersion` excludes that, and nothing else.

The increment is computed in the session, `token_version += 1` on the loaded object, and the UPDATE
carries the number. An increment computed by the database would not need the condition.
-/

set_option autoImplicit false

namespace HyChat

open Lib

namespace Auth

inductive TokenType
  | access
  | refresh
  deriving DecidableEq

/-- The payload of a token of the user. Its signature is the server's. -/
structure Token where
  type : TokenType
  ver : Nat
  iat : Nat
  exp : Nat
  deriving DecidableEq

/-- The row of the user, as far as these operations read and write it. -/
structure User where
  passwordHash : String
  isActive : Bool
  tokenVersion : Nat
  lastLoginAt : Option Nat
  updatedAt : Nat
  deriving DecidableEq

/-- The lifetimes of tokens, in seconds, and the password hash. -/
structure Settings where
  jwtAccessTokenMinutes : Nat
  jwtRefreshTokenDays : Nat
  hashPassword : String → String
  verifyPassword : String → String → Bool

variable (cfg : Settings)

def createToken (version : Nat) (type : TokenType) (now : Nat) : Token :=
  ⟨type, version, now, now + match type with
    | .access => cfg.jwtAccessTokenMinutes * 60
    | .refresh => cfg.jwtRefreshTokenDays * 86400⟩

def tokenPair (version now : Nat) : List Token :=
  [createToken cfg version .access now, createToken cfg version .refresh now]

/-- `decode_token` returns the payload. -/
def decodes (t : Token) (expected : TokenType) (now : Nat) : Bool := now < t.exp && t.type == expected

/-- `user_from_token` returns the user. -/
def userFromToken (user : User) (t : Token) (expected : TokenType) (now : Nat) : Bool :=
  decodes t expected now && user.isActive && user.tokenVersion == t.ver

/-! ## Sessions -/

inductive Request
  | login (password : String)
  | refresh (token : Token)
  | changePassword (token : Token) (currentPassword newPassword : String)
  /-- The flag says whether the reset token is one that `reset_password_with_token` takes. -/
  | resetPassword (valid : Bool) (newPassword : String)
  | logoutAll (token : Token)
  deriving DecidableEq

inductive Phase
  | start
  /-- The row is loaded, and the request may go on. -/
  | loaded (user : User)
  /-- Committed; `db.refresh(user)` is next. -/
  | committed
  /-- `token_pair` is next, for a row loaded with this version. -/
  | issuing (version : Nat)
  | done
  deriving DecidableEq

structure Session where
  request : Request
  phase : Phase
  deriving DecidableEq

/-- The session advances the version. -/
def Request.revokes : Request → Bool
  | .login _ => false
  | .refresh _ => false
  | _ => true

structure State where
  user : User
  now : Nat
  sessions : List Session
  /-- The tokens issued, with the number of revocations committed before -/
  issued : List (Token × Nat)
  revocations : Nat

def State.start (user : User) (now : Nat) : State := ⟨user, now, [], [], 0⟩

inductive Action
  | request (r : Request)
  /-- The next read, commit or answer of a session -/
  | advance (i : Nat)
  | tick (seconds : Nat)
  /-- An administrator enables or disables the account. -/
  | setActive (active : Bool)

/-- The check a request makes on the row it loads. -/
def admits (s : State) : Request → Bool
  | .login password => cfg.verifyPassword password s.user.passwordHash && s.user.isActive
  | .refresh t => userFromToken s.user t .refresh s.now
  | .changePassword t current _ =>
      userFromToken s.user t .access s.now && cfg.verifyPassword current s.user.passwordHash
  | .resetPassword valid _ => valid && s.user.isActive
  | .logoutAll t => userFromToken s.user t .access s.now

/-- The columns a session's commit writes, computed from the row it has loaded. -/
def commitRow (s : State) (loaded : User) : Request → User
  | .login _ => { s.user with lastLoginAt := some s.now, updatedAt := s.now }
  | .refresh _ => s.user
  | .changePassword _ _ newPassword => { s.user with
      passwordHash := cfg.hashPassword newPassword
      tokenVersion := loaded.tokenVersion + 1
      updatedAt := s.now }
  | .resetPassword _ newPassword => { s.user with
      passwordHash := cfg.hashPassword newPassword
      tokenVersion := loaded.tokenVersion + 1
      updatedAt := s.now }
  | .logoutAll _ => { s.user with tokenVersion := loaded.tokenVersion + 1, updatedAt := s.now }

/-- What follows the first read. A refresh writes nothing. -/
def afterLoad (s : State) (r : Request) : Phase :=
  if admits cfg s r then
    match r with
    | .refresh _ => .issuing s.user.tokenVersion
    | _ => .loaded s.user
  else .done

/-- What follows the commit. `logout_all` issues no tokens. -/
def afterCommit : Request → Phase
  | .logoutAll _ => .done
  | _ => .committed

def State.setPhase (s : State) (i : Nat) (session : Session) (phase : Phase) : State :=
  { s with sessions := s.sessions.set i { session with phase := phase } }

/-- One read or one commit of a session -/
def advance (s : State) (i : Nat) (session : Session) : Option State :=
  match session.phase with
  | .start => some (s.setPhase i session (afterLoad cfg s session.request))
  | .loaded user =>
      some ({ s with
        user := commitRow cfg s user session.request
        revocations := if session.request.revokes then s.revocations + 1 else s.revocations }.setPhase
          i session (afterCommit session.request))
  | .committed => some (s.setPhase i session (.issuing s.user.tokenVersion))
  | .issuing version =>
      let tokens := (tokenPair cfg version s.now).map fun t => (t, s.revocations)
      some ({ s with issued := tokens ++ s.issued }.setPhase i session .done)
  | .done => none

def authSessions : Lts State Action where
  step s
    | .request r => some { s with sessions := s.sessions ++ [⟨r, .start⟩] }
    | .advance i => s.sessions[i]?.bind fun session => advance cfg s i session
    | .tick seconds => some { s with now := s.now + seconds }
    | .setActive active => some { s with user := { s.user with isActive := active } }

/-! ## Revocation -/

/-- No token issued before a revocation was committed is accepted, whatever it is used for and
    whenever. -/
def Revoked (s : State) : Prop :=
  ∀ x ∈ s.issued, x.2 < s.revocations → ∀ expected now, userFromToken s.user x.1 expected now = false

/-- A session that advances the version finds the version it has loaded. -/
def FindsItsVersion (s : State) : Action → Prop
  | .advance i => ∀ session user, s.sessions[i]? = some session → session.request.revokes = true →
      session.phase = .loaded user → s.user.tokenVersion = user.tokenVersion
  | _ => True

/-- The version a session will issue tokens with. -/
def Phase.version : Phase → Option Nat
  | .issuing version => some version
  | _ => none

/-- The versions in circulation are not ahead of the row, and those of tokens issued before the
    last revocation are behind. -/
structure Behind (s : State) : Prop where
  sessions : ∀ session ∈ s.sessions, ∀ v ∈ session.phase.version, v ≤ s.user.tokenVersion
  issued : ∀ x ∈ s.issued, x.1.ver ≤ s.user.tokenVersion
  revoked : ∀ x ∈ s.issued, x.2 < s.revocations → x.1.ver < s.user.tokenVersion
  count : ∀ x ∈ s.issued, x.2 ≤ s.revocations

/-- One version, and no token -/
theorem behind_start (user : User) (now : Nat) : Behind (.start user now) :=
  ⟨fun _ h => absurd h (by simp [State.start]), fun _ h => absurd h (by simp [State.start]),
    fun _ h => absurd h (by simp [State.start]), fun _ h => absurd h (by simp [State.start])⟩

/-- A session moves on, and the version it will issue tokens with is not ahead of the row. -/
theorem Behind.setPhase {s : State} (h : Behind s) (i : Nat) (session : Session) {phase : Phase}
    (hv : ∀ v ∈ phase.version, v ≤ s.user.tokenVersion) : Behind (s.setPhase i session phase) := by
  refine ⟨?_, h.issued, h.revoked, h.count⟩
  intro x hx
  rcases List.mem_or_eq_of_mem_set hx with hx | rfl
  · exact h.sessions x hx
  · exact hv

theorem commitRow_version_eq {s : State} {loaded : User} {r : Request} (h : r.revokes = false) :
    (commitRow cfg s loaded r).tokenVersion = s.user.tokenVersion := by
  cases r with
  | login password => rfl
  | refresh t => rfl
  | changePassword t current new => exact absurd h (by simp [Request.revokes])
  | resetPassword valid new => exact absurd h (by simp [Request.revokes])
  | logoutAll t => exact absurd h (by simp [Request.revokes])

theorem commitRow_version_succ {s : State} {loaded : User} {r : Request} (h : r.revokes = true) :
    (commitRow cfg s loaded r).tokenVersion = loaded.tokenVersion + 1 := by
  cases r with
  | login password => exact absurd h (by simp [Request.revokes])
  | refresh t => exact absurd h (by simp [Request.revokes])
  | changePassword t current new => rfl
  | resetPassword valid new => rfl
  | logoutAll t => rfl

/-- A session that refreshes will issue tokens with the version it has loaded. -/
theorem afterLoad_version {s : State} {r : Request} {v : Nat}
    (h : v ∈ (afterLoad cfg s r).version) : v = s.user.tokenVersion := by
  unfold afterLoad at h
  split at h
  · split at h
    · exact (Option.some.inj h).symm
    · exact absurd h (by simp [Phase.version])
  · exact absurd h (by simp [Phase.version])

theorem afterCommit_version (r : Request) : (afterCommit r).version = none := by
  cases r <;> rfl

/-- A commit that does not move the version back. -/
theorem Behind.commit {s : State} (h : Behind s) {user : User} {revocations : Nat}
    (hsame : revocations = s.revocations ∧ user.tokenVersion = s.user.tokenVersion ∨
      revocations = s.revocations + 1 ∧ user.tokenVersion = s.user.tokenVersion + 1) :
    Behind { s with user := user, revocations := revocations } := by
  have hle : s.user.tokenVersion ≤ user.tokenVersion := by omega
  refine ⟨fun x hx v hv => Nat.le_trans (h.sessions x hx v hv) hle,
    fun x hx => Nat.le_trans (h.issued x hx) hle,
    ?_, ?_⟩
  · intro x hx hlt
    have hissued := h.issued x hx
    have hrevoked := h.revoked x hx
    replace hlt : x.2 < revocations := hlt
    show x.1.ver < user.tokenVersion
    omega
  · intro x hx
    have hcount := h.count x hx
    show x.2 ≤ revocations
    omega

/-- Tokens are issued with a version that is not ahead of the row. -/
theorem Behind.issue {s : State} (h : Behind s) {version : Nat}
    (hv : version ≤ s.user.tokenVersion) :
    Behind { s with issued :=
      ((tokenPair cfg version s.now).map fun t => (t, s.revocations)) ++ s.issued } := by
  have hnew : ∀ x ∈ (tokenPair cfg version s.now).map fun t => (t, s.revocations),
      x.1.ver = version ∧ x.2 = s.revocations := by
    intro x hx
    obtain ⟨t, ht, rfl⟩ := List.mem_map.mp hx
    simp only [tokenPair, List.mem_cons, List.not_mem_nil, or_false] at ht
    rcases ht with rfl | rfl
    · exact ⟨rfl, rfl⟩
    · exact ⟨rfl, rfl⟩
  refine ⟨h.sessions, ?_, ?_, ?_⟩
  · intro x hx
    rcases List.mem_append.mp hx with hx | hx
    · rw [(hnew x hx).1]
      exact hv
    · exact h.issued x hx
  · intro x hx hlt
    rcases List.mem_append.mp hx with hx | hx
    · replace hlt : x.2 < s.revocations := hlt
      have := (hnew x hx).2
      omega
    · exact h.revoked x hx hlt
  · intro x hx
    rcases List.mem_append.mp hx with hx | hx
    · exact Nat.le_of_eq (hnew x hx).2
    · exact h.count x hx

/-- **One step.** -/
theorem Behind.step {s s' : State} {a : Action} (h : Behind s) (hok : FindsItsVersion s a)
    (hs : (authSessions cfg).step s a = some s') : Behind s' := by
  cases a with
  | request r =>
    cases hs
    refine ⟨?_, h.issued, h.revoked, h.count⟩
    intro x hx
    rcases List.mem_append.mp hx with hx | hx
    · exact h.sessions x hx
    · rw [List.mem_singleton.mp hx]
      exact fun v hv => absurd hv (by simp [Phase.version])
  | tick seconds =>
    cases hs
    exact ⟨h.sessions, h.issued, h.revoked, h.count⟩
  | setActive active =>
    cases hs
    exact ⟨h.sessions, h.issued, h.revoked, h.count⟩
  | advance i =>
    obtain ⟨session, hi, hadvance⟩ := Option.bind_eq_some_iff.mp hs
    unfold advance at hadvance
    split at hadvance
    · cases hadvance
      exact h.setPhase i session fun v hv => Nat.le_of_eq (afterLoad_version cfg hv)
    · rename_i user hphase
      cases hadvance
      refine Behind.setPhase (Behind.commit h ?_) i session ?_
      · by_cases hr : session.request.revokes = true
        · have hfinds := hok session user hi hr hphase
          rw [if_pos hr, commitRow_version_succ cfg hr]
          exact .inr ⟨rfl, by rw [hfinds]⟩
        · rw [if_neg hr, commitRow_version_eq cfg (by simpa using hr)]
          exact .inl ⟨rfl, rfl⟩
      · rw [afterCommit_version]
        exact fun v hv => absurd hv (by simp)
    · cases hadvance
      exact h.setPhase i session fun v hv => Nat.le_of_eq (Option.some.inj hv).symm
    · rename_i version hphase
      cases hadvance
      refine Behind.setPhase (h.issue cfg ?_) i session fun v hv => absurd hv (by simp [Phase.version])
      apply h.sessions session (List.mem_of_getElem? hi)
      rw [hphase]
      rfl
    · cases hadvance

/-- **Revocation is final** in every run in which each session that advances the version finds the
    version it has loaded. -/
theorem revocation_final (user : User) (now : Nat) (s : State)
    (hr : (authSessions cfg).Reach FindsItsVersion (.start user now) s) : Revoked s := by
  have hbehind : Behind s := by
    apply hr.invariant (behind_start user now)
    intro s a s' h hok hs
    exact h.step cfg hok hs
  intro x hx hlt expected now
  have hver := hbehind.revoked x hx hlt
  unfold userFromToken
  have hne : s.user.tokenVersion ≠ x.1.ver := by omega
  simp [hne]

/-! ## Two revocations at a time -/

/-- Hashes that are the passwords themselves. -/
def plainSettings : Settings := ⟨30, 14, fun password => password, fun password hash => password == hash⟩

def alice : User := ⟨"secret", true, 0, none, 0⟩

def aliceToken : Token := ⟨.access, 0, 0, 1800⟩

/-- While one session logs out everywhere, another changes the password and is answered with
    tokens; both have loaded the version 0. -/
def overlappingRevocations : List Action :=
  [.request (.login "secret"), .advance 0, .advance 0, .advance 0, .advance 0,
    .request (.logoutAll aliceToken), .request (.changePassword aliceToken "secret" "new"),
    .advance 1, .advance 2, .advance 2, .advance 2, .advance 2, .advance 1]

/-- The tokens that the password change was answered with outlive the logout. -/
theorem token_outlives_logout :
    ¬ ∀ s, (authSessions plainSettings).Reach Lts.Anything (.start alice 0) s → Revoked s := by
  intro h
  obtain ⟨s, hs, hp⟩ := Lts.exists_of_run (authSessions plainSettings) (.start alice 0)
    overlappingRevocations
    (P := fun s => s.issued.any fun x => decide (x.2 < s.revocations) &&
      userFromToken s.user x.1 .access 1) (by decide)
  obtain ⟨x, hx, hx'⟩ := List.any_eq_true.mp hp
  rw [Bool.and_eq_true] at hx'
  rw [h s hs x hx (of_decide_eq_true hx'.1) .access 1] at hx'
  exact absurd hx'.2 (by simp)

/-- `FindsItsVersion`, as a check. -/
def findsItsVersion (s : State) : Action → Bool
  | .advance i => s.sessions[i]?.all fun session => !session.request.revokes ||
      match session.phase with
      | .loaded user => s.user.tokenVersion == user.tokenVersion
      | _ => true
  | _ => true

theorem findsItsVersion_of_check {s : State} {a : Action} (h : findsItsVersion s a = true) :
    FindsItsVersion s a := by
  cases a with
  | advance i =>
    intro session user hi hr hphase
    simp only [findsItsVersion, hi, Option.all_some, hr, hphase, Bool.not_true, Bool.false_or,
      beq_iff_eq] at h
    exact h
  | request r => trivial
  | tick seconds => trivial
  | setActive active => trivial

/-- One after the other, the logout revokes the tokens of the login. -/
theorem revocation_final_sequential : ∃ s,
    (authSessions plainSettings).Reach FindsItsVersion (.start alice 0) s ∧ s.revocations = 1 ∧
      s.issued.length = 2 ∧ Revoked s := by
  have hrun : ((authSessions plainSettings).runChecked findsItsVersion
      [.request (.login "secret"), .advance 0, .advance 0, .advance 0, .advance 0,
        .request (.logoutAll aliceToken), .advance 1, .advance 1] (.start alice 0)).any
      (fun s => s.revocations == 1 && s.issued.length == 2) = true := by decide
  obtain ⟨s, hs, hp⟩ := (Option.any_eq_true ..).mp hrun
  simp only [Bool.and_eq_true, beq_iff_eq] at hp
  have hreach := Lts.Reach.start.of_runChecked (fun _ _ => findsItsVersion_of_check) hs
  exact ⟨s, hreach, hp.1, hp.2, revocation_final plainSettings alice 0 s hreach⟩

end Auth

end HyChat
