import HyChat.Lib.Lts

/-!
# The accounts the browser keeps

`AuthProvider` holds the list of logged-in accounts and the id of the active one, and mirrors both
in the local storage. A request closes over the list as it was when the request started; its
completion builds the new list from that closure, not from the list as it is by then.

An `Account` here is a value `isAccount` accepts: `persist` and the loading of the page filter the
list by it, and a response it rejects is an error like a response that is not `ok`. Besides the two
tokens it has their place in the order in which the server issued them. The page never looks at
that; it is what makes "the newest tokens" mean something, since answers may overtake each other: a
refresh that the server has answered before a password change, and whose answer arrives after it,
brings tokens that the change has revoked.

`given` is what the theorem compares with, and no part of the page: for each user the newest account
that was received. What is not here is leaving an account on purpose, by `switchAccount`, `logout`
or `logoutAll`; each of them loads the page anew.
-/

set_option autoImplicit false

namespace HyChat

open Lib

namespace Frontend

structure Account where
  userId : String
  accessToken : String
  refreshToken : String
  /-- The place of the tokens among all the server has issued -/
  issued : Nat
  deriving DecidableEq

inductive RequestKind
  /-- `login`, `register`, `resetPassword` -/
  | auth
  /-- `refresh`, by the timer or by a request of the application that was answered 401 -/
  | refresh
  /-- `changePassword`; a 401 makes it refresh once and send the request again -/
  | changePassword (refreshed : Bool)
  deriving DecidableEq

/-- A request under way, with what it closed over. -/
structure AuthRequest where
  kind : RequestKind
  accounts : List Account
  account : Option Account
  deriving DecidableEq

structure AuthState where
  accounts : List Account
  activeId : Option String
  storedAccounts : List Account
  storedActiveId : Option String
  requests : List AuthRequest
  /-- The newest account each user was given, by a completed request or at the start -/
  given : List Account
  deriving DecidableEq

inductive AuthAction
  | begin (kind : RequestKind)
  /-- The answer to request number `i` is an account. -/
  | answered (i : Nat) (result : Account)
  /-- The answer to the refresh that password change number `i` makes on the way -/
  | refreshedOnTheWay (i : Nat) (result : Account)
  | failed (i : Nat)

namespace AuthState

/-- The state once the page has loaded its accounts. -/
def loaded (accounts : List Account) (activeId : Option String) : AuthState :=
  ⟨accounts, activeId, accounts, activeId, [], accounts⟩

/-- `accounts.find((item) => item.user.id === activeId) || null` -/
def account (s : AuthState) : Option Account :=
  s.accounts.find? fun item => some item.userId == s.activeId

def persist (s : AuthState) (next : List Account) (nextActive : String) : AuthState :=
  let validNextActive := if next.any fun item => item.userId == nextActive then some nextActive else none
  { s with
    accounts := next
    storedAccounts := next
    activeId := validNextActive
    storedActiveId := validNextActive }

/-- `saveAccount`, with the list the request closed over. -/
def saveAccount (s : AuthState) (accounts : List Account) (next : Account) : AuthState :=
  s.persist (next :: accounts.filter fun item => item.userId != next.userId) next.userId

/-- Newer tokens of the user have been received before. -/
def outdates (s : AuthState) (next : Account) : Bool :=
  s.given.any fun item => item.userId == next.userId && next.issued < item.issued

/-- The user's newest account is the one just received, unless it comes late. -/
def give (s : AuthState) (next : Account) : AuthState :=
  if s.outdates next then s
  else { s with given := next :: s.given.filter fun item => item.userId != next.userId }

end AuthState

def authProvider : Lts AuthState AuthAction where
  step s
    | .begin kind =>
        match kind, s.account with
        -- without an active account there is nothing to refresh
        | .refresh, none => none
        | .changePassword true, _ => none
        | kind, account => some { s with requests := s.requests ++ [⟨kind, s.accounts, account⟩] }
    | .answered i result => s.requests[i]?.map fun r =>
        ({ s with requests := s.requests.eraseIdx i }.saveAccount r.accounts result).give result
    | .refreshedOnTheWay i result =>
        match s.requests[i]? with
        | some r =>
            if r.kind = .changePassword false ∧ r.account.isSome then
              let again := { r with kind := .changePassword true }
              some (({ s with requests := s.requests.set i again }.saveAccount r.accounts result).give
                result)
            else none
        | none => none
    | .failed i => some { s with requests := s.requests.eraseIdx i }

/-! ## Completions -/

/-- The step hands `result` to `saveAccount`, for request `r`. -/
def Completes (s : AuthState) (a : AuthAction) (r : AuthRequest) (result : Account) : Prop :=
  ∃ i, s.requests[i]? = some r ∧ (a = .answered i result ∨ a = .refreshedOnTheWay i result)

/-- It is a refresh that completes. -/
def CompletesRefresh (s : AuthState) (a : AuthAction) : Prop :=
  ∃ i r result, s.requests[i]? = some r ∧
    (a = .answered i result ∧ r.kind = .refresh ∨ a = .refreshedOnTheWay i result)

/-- Every account the user was given is in the stored list with its newest tokens. -/
def AuthState.Keeps (s : AuthState) : Prop := ∀ a ∈ s.given, a ∈ s.storedAccounts

/-- A request that completes closed over a list which still has every other account with its newest
    tokens, no newer tokens of its own account have arrived before, and a refresh completes for the
    account that is active. -/
def CompletesInTime (s : AuthState) (a : AuthAction) : Prop :=
  ∀ r result, Completes s a r result →
    (∀ b ∈ s.given, b.userId ≠ result.userId → b ∈ r.accounts) ∧
      (∀ b ∈ s.given, b.userId = result.userId → b.issued ≤ result.issued) ∧
      (CompletesRefresh s a → s.activeId = some result.userId)

theorem activeId_saveAccount (s : AuthState) (accounts : List Account) (next : Account) :
    (s.saveAccount accounts next).activeId = some next.userId := by
  simp [AuthState.saveAccount, AuthState.persist]

@[simp] theorem activeId_give (s : AuthState) (next : Account) : (s.give next).activeId = s.activeId := by
  unfold AuthState.give
  split <;> rfl

theorem outdates_eq_false_iff (s : AuthState) (next : Account) :
    s.outdates next = false ↔
      ∀ b ∈ s.given, b.userId = next.userId → b.issued ≤ next.issued := by
  unfold AuthState.outdates
  rw [List.any_eq_false]
  refine forall₂_congr fun b _ => ?_
  simp

/-- After a completion everything is kept exactly when the closure had it and nothing newer of the
    same user had come. -/
theorem keeps_saveAccount_iff (s s₀ : AuthState) (accounts : List Account) (next : Account)
    (hg : s₀.given = s.given) :
    ((s₀.saveAccount accounts next).give next).Keeps ↔
      (∀ b ∈ s.given, b.userId ≠ next.userId → b ∈ accounts) ∧
        ∀ b ∈ s.given, b.userId = next.userId → b.issued ≤ next.issued := by
  have hgiven : (s₀.saveAccount accounts next).given = s.given := hg
  have hstored : (s₀.saveAccount accounts next).storedAccounts =
      next :: accounts.filter fun item => item.userId != next.userId := rfl
  have hothers : ∀ b : Account, b.userId ≠ next.userId →
      (b ∈ (s₀.saveAccount accounts next).storedAccounts ↔ b ∈ accounts) := by
    intro b hne
    rw [hstored]
    constructor
    · intro hb
      rcases List.mem_cons.mp hb with he | hin
      · exact absurd (congrArg Account.userId he) hne
      · exact (List.mem_filter.mp hin).1
    · intro hb
      exact List.mem_cons_of_mem _ (List.mem_filter.mpr ⟨hb, by simpa using hne⟩)
  unfold AuthState.give
  cases hlate : (s₀.saveAccount accounts next).outdates next with
  | true =>
    -- the user's newer account is not in the list, since the older one is
    simp only [if_true]
    refine iff_of_false (fun hk => ?_) fun h => ?_
    · obtain ⟨b, hb, hnewer⟩ := List.any_eq_true.mp hlate
      simp only [Bool.and_eq_true, beq_iff_eq, decide_eq_true_eq] at hnewer
      have hin := hk b hb
      rw [hstored] at hin
      rcases List.mem_cons.mp hin with he | hin
      · rw [he] at hnewer
        exact absurd hnewer.2 (Nat.lt_irrefl _)
      · have hne := (List.mem_filter.mp hin).2
        simp [hnewer.1] at hne
    · rw [← hgiven, ← outdates_eq_false_iff, hlate] at h
      exact absurd h.2 (by simp)
  | false =>
    have hnone := (outdates_eq_false_iff _ _).mp hlate
    rw [hgiven] at hnone
    simp only [Bool.false_eq_true, if_false]
    constructor
    · intro hk
      refine ⟨fun b hb hne => (hothers b hne).mp (hk b ?_), hnone⟩
      refine List.mem_cons_of_mem _ (List.mem_filter.mpr ⟨?_, by simpa using hne⟩)
      rw [hgiven]
      exact hb
    · intro h b hb
      rcases List.mem_cons.mp hb with he | hin
      · rw [he]
        exact List.mem_cons_self
      · obtain ⟨hin, hne⟩ := List.mem_filter.mp hin
        rw [hgiven] at hin
        have hne' : b.userId ≠ next.userId := by simpa using hne
        exact (hothers b hne').mpr (h.1 b hin hne')

/-- **A step, inverted.** It completes a request, or it changes neither the lists nor the active
    account. -/
theorem authStep_cases {s s' : AuthState} {a : AuthAction} (h : authProvider.step s a = some s') :
    (∃ (r : AuthRequest) (result : Account) (s₀ : AuthState), Completes s a r result ∧
        s₀.given = s.given ∧
        s' = (s₀.saveAccount r.accounts result).give result) ∨
      (∀ r result, ¬ Completes s a r result) ∧ s'.given = s.given ∧
        s'.storedAccounts = s.storedAccounts ∧ s'.activeId = s.activeId := by
  cases a with
  | begin kind =>
    refine .inr ⟨?_, ?_⟩
    · intro r result hc
      obtain ⟨i, -, hc | hc⟩ := hc
      · exact absurd hc (by simp)
      · exact absurd hc (by simp)
    · simp only [authProvider] at h
      split at h
      · exact absurd h (by simp)
      · exact absurd h (by simp)
      · cases h
        exact ⟨rfl, rfl, rfl⟩
  | answered i result =>
    simp only [authProvider, Option.map_eq_some_iff] at h
    obtain ⟨r, hr, rfl⟩ := h
    exact .inl ⟨r, result, { s with requests := s.requests.eraseIdx i }, ⟨i, hr, .inl rfl⟩, rfl, rfl⟩
  | refreshedOnTheWay i result =>
    simp only [authProvider] at h
    cases hr : s.requests[i]? with
    | none => simp [hr] at h
    | some r =>
      simp only [hr] at h
      split at h
      · cases h
        let again : AuthRequest := { r with kind := .changePassword true }
        exact .inl ⟨r, result, { s with requests := s.requests.set i again }, ⟨i, hr, .inr rfl⟩,
          rfl, rfl⟩
      · exact absurd h (by simp)
  | failed i =>
    simp only [authProvider, Option.some.injEq] at h
    subst h
    refine .inr ⟨?_, rfl, rfl, rfl⟩
    intro r result hc
    obtain ⟨j, -, hc | hc⟩ := hc
    · exact absurd hc (by simp)
    · exact absurd hc (by simp)

theorem Completes.unique {s : AuthState} {a : AuthAction} {r r' : AuthRequest}
    {result result' : Account} (h : Completes s a r result) (h' : Completes s a r' result') :
    r' = r ∧ result' = result := by
  obtain ⟨i, hi, ha⟩ := h
  obtain ⟨j, hj, ha'⟩ := h'
  rcases ha with rfl | rfl
  · rcases ha' with ha' | ha'
    · cases ha'
      exact ⟨Option.some.inj (hj.symm.trans hi), rfl⟩
    · exact absurd ha' (by simp)
  · rcases ha' with ha' | ha'
    · exact absurd ha' (by simp)
    · cases ha'
      exact ⟨Option.some.inj (hj.symm.trans hi), rfl⟩

theorem keeps_step_iff {s s' : AuthState} {a : AuthAction} (hk : s.Keeps)
    (h : authProvider.step s a = some s') :
    (s'.Keeps ∧ (CompletesRefresh s a → s'.activeId = s.activeId)) ↔ CompletesInTime s a := by
  rcases authStep_cases h with ⟨r, result, s₀, hc, hg, rfl⟩ | ⟨hnone, hgiven, hstored, hactive⟩
  · rw [keeps_saveAccount_iff s s₀ r.accounts result hg]
    have hactive : ((s₀.saveAccount r.accounts result).give result).activeId =
        some result.userId := by
      rw [activeId_give, activeId_saveAccount]
    rw [hactive]
    constructor
    · intro hp r' result' hc'
      obtain ⟨rfl, rfl⟩ := hc.unique hc'
      exact ⟨hp.1.1, hp.1.2, fun hr => (hp.2 hr).symm⟩
    · intro hin
      obtain ⟨hall, hnewest, hact⟩ := hin r result hc
      exact ⟨⟨hall, hnewest⟩, fun hr => (hact hr).symm⟩
  · constructor
    · intro _ r result hc
      exact absurd hc (hnone r result)
    · intro _
      refine ⟨?_, fun _ => hactive⟩
      unfold AuthState.Keeps
      rw [hgiven, hstored]
      exact hk

/-- **No account is lost while requests complete in time.** The stored list has every account with
    the newest tokens that were received. From such a state a step loses none, and leaves the active
    account alone if it completes a refresh, exactly when what it completes is in time. -/
theorem no_account_lost (accounts : List Account) (activeId : Option String) (s : AuthState)
    (h : authProvider.Reach CompletesInTime (.loaded accounts activeId) s) :
    s.Keeps ∧ ∀ a s', authProvider.step s a = some s' →
      ((s'.Keeps ∧ (CompletesRefresh s a → s'.activeId = s.activeId)) ↔ CompletesInTime s a) := by
  have hk : s.Keeps := h.invariant (fun _ hb => hb)
    fun s a s' hi hok hs => ((keeps_step_iff hi hs).mpr hok).1
  exact ⟨hk, fun a s' hs => keeps_step_iff hk hs⟩

/-- A completion is in time as far as its own request and result are concerned. -/
theorem completesInTime_of_completes {s : AuthState} {a : AuthAction} {r : AuthRequest}
    {result : Account} (hc : Completes s a r result)
    (hothers : ∀ b ∈ s.given, b.userId ≠ result.userId → b ∈ r.accounts)
    (hnewest : ∀ b ∈ s.given, b.userId = result.userId → b.issued ≤ result.issued)
    (hactive : CompletesRefresh s a → s.activeId = some result.userId) : CompletesInTime s a := by
  intro r' result' hc'
  obtain ⟨rfl, rfl⟩ := hc.unique hc'
  exact ⟨hothers, hnewest, hactive⟩

theorem completesInTime_begin (s : AuthState) (kind : RequestKind) :
    CompletesInTime s (.begin kind) := by
  rintro r result ⟨i, -, hc | hc⟩
  · exact absurd hc (by simp)
  · exact absurd hc (by simp)

def alice : Account := ⟨"alice", "a1", "ra1", 1⟩

def bob : Account := ⟨"bob", "b1", "rb1", 2⟩

/-- A background refresh of the one account starts, another account is logged in, and the refresh
    completes: the new account is gone. And where the refresh is answered before a password change
    and arrives after it, the tokens from before the change are back. -/
theorem account_lost :
    (¬ ∀ s, authProvider.Reach Lts.Anything (.loaded [alice] (some "alice")) s →
      s.Keeps ∧ ∀ a s', authProvider.step s a = some s' → CompletesRefresh s a →
        s'.activeId = s.activeId) ∧
    ∃ s, authProvider.Reach Lts.Anything (.loaded [alice] (some "alice")) s ∧
      s.given = [⟨"alice", "a3", "ra3", 3⟩] ∧ s.storedAccounts = [⟨"alice", "a2", "ra2", 2⟩] := by
  constructor
  · intro h
    obtain ⟨s, hs, hp⟩ := Lts.exists_of_run authProvider (.loaded [alice] (some "alice"))
      [.begin .refresh, .begin .auth, .answered 1 bob, .answered 0 ⟨"alice", "a2", "ra2", 3⟩]
      (P := fun s => s.given.contains bob && !s.storedAccounts.contains bob) (by decide)
    simp only [Bool.and_eq_true, List.contains_iff_mem, Bool.not_eq_true'] at hp
    have hin := (h s hs).1 bob hp.1
    rw [← List.contains_iff_mem, hp.2] at hin
    exact absurd hin (by decide)
  · obtain ⟨s, hs, hp⟩ := Lts.exists_of_run authProvider (.loaded [alice] (some "alice"))
      [.begin .refresh, .begin (.changePassword false), .answered 1 ⟨"alice", "a3", "ra3", 3⟩,
        .answered 0 ⟨"alice", "a2", "ra2", 2⟩]
      (P := fun s => s.given = [⟨"alice", "a3", "ra3", 3⟩] ∧
        s.storedAccounts = [⟨"alice", "a2", "ra2", 2⟩]) (by decide)
    exact ⟨s, hs, of_decide_eq_true hp⟩

/-- The tokens a refresh brings for bob -/
def bobRefreshed : Account := ⟨"bob", "b2", "rb2", 3⟩

/-- A login that completes before a refresh starts, and the refresh -/
theorem no_account_lost_login :
    ∃ s, authProvider.Reach CompletesInTime (.loaded [alice] (some "alice")) s ∧ s.Keeps ∧
      s.given = [bobRefreshed, alice] ∧ s.activeId = some "bob" := by
  let loggingIn : AuthState := { AuthState.loaded [alice] (some "alice") with
    requests := [⟨.auth, [alice], some alice⟩] }
  let loggedIn : AuthState := ⟨[bob, alice], some "bob", [bob, alice], some "bob", [], [bob, alice]⟩
  let refreshing : AuthState := { loggedIn with requests := [⟨.refresh, [bob, alice], some bob⟩] }
  have h₁ : authProvider.Reach CompletesInTime (.loaded [alice] (some "alice")) loggingIn :=
    Lts.Reach.start.step (.begin .auth) (completesInTime_begin _ _) rfl
  have hlogin : Completes loggingIn (.answered 0 bob) ⟨.auth, [alice], some alice⟩ bob :=
    ⟨0, rfl, .inl rfl⟩
  have h₂ : authProvider.Reach CompletesInTime (.loaded [alice] (some "alice")) loggedIn := by
    refine h₁.step (.answered 0 bob) (completesInTime_of_completes hlogin ?_ ?_ ?_) (by decide)
    · exact fun b hb _ => hb
    · intro b hb hu
      rw [List.mem_singleton.mp hb] at hu
      exact absurd hu (by decide)
    · rintro ⟨i, r, result, hr, ⟨ha, hk⟩ | ha⟩
      · cases ha
        cases hr
        exact absurd hk (by simp)
      · exact absurd ha (by simp)
  have h₃ : authProvider.Reach CompletesInTime (.loaded [alice] (some "alice")) refreshing :=
    h₂.step (.begin .refresh) (completesInTime_begin _ _) (by decide)
  have hrefresh : Completes refreshing (.answered 0 bobRefreshed)
      ⟨.refresh, [bob, alice], some bob⟩ bobRefreshed := ⟨0, rfl, .inl rfl⟩
  have h₄ := h₃.step (.answered 0 bobRefreshed)
    (completesInTime_of_completes hrefresh (fun b hb _ => hb) (by decide) fun _ => rfl) rfl
  exact ⟨_, h₄, (no_account_lost [alice] (some "alice") _ h₄).1, by decide, by decide⟩

end Frontend

end HyChat
