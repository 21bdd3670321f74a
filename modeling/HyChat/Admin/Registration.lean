import HyChat.Admin.Users
import HyChat.Lib.Log
import HyChat.Tracing.SafeJson

/-!
# Who becomes an administrator

Accounts are made by `create_user`, which makes the first administrator, and their roles are
changed by the administrators' endpoints. Any number of registrations and of administrators'
requests run on one table at READ COMMITTED. A registration looks its address up, counts, and then
inserts its row and commits; the unique index on the address refuses the row when another
registration has committed the same address by then.

Beside the table stands a log of what was committed: which rows came, which roles were written and
for whom, which rows went. The log alone gives every role, so what it says of the past is what the
table was then.

Why a log and not the table. "Was an administrator at the time" is about the past, which the table
does not keep. The log is a list of commits in order, each with what it wrote, and `roleAfter`
recomputes every role from it at any moment; `Recorded` says that the table agrees with the log
now, so it agreed at every moment before. An entry that makes somebody an administrator is
justified by what its author has read, at some earlier moment, and that is all READ COMMITTED
gives.

What the theorem concludes. Every administrator's authority is a chain (`Empowered`): promoted by
somebody who was empowered before, and so on, back to an administrator of the start or to a
registration that found the place vacant. It does not say that there is one founder: two
registrations can both count before either commits, and the example has them. With a configured
address only that address can be made an administrator by registering.
-/

set_option autoImplicit false

namespace HyChat

open Lib

namespace Admin

/-- A body of `POST /auth/register`. The password is kept as a hash, and nothing here reads it. -/
structure RegisterRequest where
  email : String
  displayName : String
  /-- The bounds pydantic enforces before the endpoint runs -/
  named : 1 ≤ displayName.length ∧ displayName.length ≤ 120

/-- A registration, with the id its row will get. -/
structure Registration where
  id : String
  request : RegisterRequest

/-- The settings `_should_bootstrap_admin` reads -/
structure RegistrationSettings where
  initialAdminEmail : String
  /-- `text.strip().lower()` -/
  normalizeEmail : String → String

inductive RegisterPhase
  | lookUp
  | count
  | commit (isBootstrapAdmin : Bool)
  | refresh
  | finished (response : Response)
  deriving DecidableEq

/-! ## The table with its addresses -/

namespace Users

/-- The keys of the table -/
def ids (t : Users) : List String := t.rows.map User.id

/-- The role of the row with an id -/
def role (t : Users) (id : String) : Option UserRole := (t.get id).map User.role

def insert (t : Users) (user : User) (hid : user.id ∉ t.ids) : Users where
  rows := t.rows ++ [user]
  key := by
    rw [List.map_append]
    refine t.key.append (List.nodup_singleton _) ?_
    intro id hmem hnew
    rw [List.map_singleton, List.mem_singleton] at hnew
    exact hid (hnew ▸ hmem)

/-- An UPDATE leaves the keys alone. -/
theorem update_ids (t : Users) (id : String) (set : User → User) (hset : ∀ u, (set u).id = u.id) :
    (t.update id set hset).ids = t.ids := by
  have hrows : (t.update id set hset).rows = t.rows.map fun u => if u.id = id then set u else u := rfl
  rw [ids, ids, hrows, List.map_map]
  apply List.map_congr_left
  intro u _
  rw [Function.comp_apply]
  split
  · exact hset u
  · rfl

/-- The table after a registration -/
theorem insert_rows (t : Users) (user : User) (hid : user.id ∉ t.ids) :
    (t.insert user hid).rows = t.rows ++ [user] := rfl

end Users

/-- The table and its column `email`, which nothing writes after the insert, under the unique index
    on it. -/
structure Accounts where
  users : Users
  email : String → String
  unique : (users.rows.map fun u => email u.id).Nodup

namespace Accounts

def emails (a : Accounts) : List String := a.users.rows.map fun u => a.email u.id

def insert (a : Accounts) (user : User) (email : String) (hid : user.id ∉ a.users.ids)
    (hemail : email ∉ a.emails) : Accounts where
  users := a.users.insert user hid
  email := fun id => if id = user.id then email else a.email id
  unique := by
    have hold : (a.users.rows.map fun u => if u.id = user.id then email else a.email u.id) =
        a.emails := by
      apply List.map_congr_left
      intro u hu
      have hne : u.id ≠ user.id := fun he => hid (he ▸ List.mem_map_of_mem hu)
      rw [if_neg hne]
    rw [Users.insert_rows, List.map_append, hold]
    refine List.Nodup.append a.unique (List.nodup_singleton _) ?_
    intro address hmem hnew
    rw [List.map_singleton, List.mem_singleton, if_pos rfl] at hnew
    exact hemail (hnew ▸ hmem)

/-- The table after a write that brings no new row. -/
def follow (a : Accounts) (users : Users) (h : users.ids.Sublist a.users.ids) :
    Accounts where
  users := users
  email := a.email
  unique := by
    have hsub : (users.ids.map a.email).Sublist (a.users.ids.map a.email) := h.map a.email
    rw [Users.ids, Users.ids, List.map_map, List.map_map] at hsub
    exact List.Nodup.sublist hsub a.unique

end Accounts

/-! ## The log -/

/-- What a commit did. -/
inductive Entry
  | registered (id email : String) (role : UserRole)
  /-- The administrator's request wrote the role. -/
  | changed (id : String) (role : UserRole) (adminId : String)
  | deleted (id : String)
  deriving DecidableEq

/-- The roles after what is logged, given those before -/
def roleAfter (before : String → Option UserRole) : List Entry → String → Option UserRole
  | [], id => before id
  | .registered newId _ role :: log, id => if id = newId then some role else roleAfter before log id
  | .changed changedId role _ :: log, id =>
      if id = changedId then some role else roleAfter before log id
  | .deleted deletedId :: log, id => if id = deletedId then none else roleAfter before log id

/-- The addresses after what is logged, given those before -/
def emailAfter (before : String → String) : List Entry → String → String
  | [], id => before id
  | .registered newId email _ :: log, id => if id = newId then email else emailAfter before log id
  | .changed .. :: log, id => emailAfter before log id
  | .deleted _ :: log, id => emailAfter before log id

/-- What the commit of an administrator's request logs: an update that finds its row and whose SET
    list has the role. -/
def committed (t : Users) (request : Request) (user : User) : List Entry :=
  match request.body with
  | .delete => [.deleted user.id]
  | .update values =>
      let changes := values.changes user
      match changes.role with
      | .set role =>
          if changes.refused = false ∧ (t.get user.id).isSome then
            [.changed user.id role request.adminId]
          else []
      | _ => []

/-- What a step of the administrators' requests logs. -/
def logged (s : State) : Action → List Entry
  | .proceed i =>
      match s.requests[i]? with
      | some (request, .commit user _) => committed s.users request user
      | _ => []
  | _ => []

/-! ## Registrations -/

section

variable (cfg : RegistrationSettings)

def configuredEmail : String := cfg.normalizeEmail cfg.initialAdminEmail

def shouldBootstrapAdmin (t : Users) (normalizedEmail : String) : Bool :=
  if configuredEmail cfg ≠ "" then
    t.rows.countP (fun u => u.role == .admin) == 0 && normalizedEmail == configuredEmail cfg
  else t.rows.length == 0

def alreadyRegistered : Response := ⟨409, "该邮箱已经注册"⟩

/-- One statement of `create_user`, with what it logs. -/
def createUser (a : Accounts) (r : Registration) :
    RegisterPhase → Option (Accounts × RegisterPhase × List Entry)
  | .lookUp =>
      if cfg.normalizeEmail r.request.email ∈ a.emails then some (a, .finished alreadyRegistered, [])
      else some (a, .count, [])
  | .count =>
      some (a, .commit (shouldBootstrapAdmin cfg a.users (cfg.normalizeEmail r.request.email)), [])
  | .commit isBootstrapAdmin =>
      let normalizedEmail := cfg.normalizeEmail r.request.email
      let role : UserRole := if isBootstrapAdmin then .admin else .user
      let user : User :=
        ⟨r.id, String.ofList (Py.strip r.request.displayName.toList), role, true⟩
      if h : user.id ∉ a.users.ids ∧ normalizedEmail ∉ a.emails then
        some (a.insert user normalizedEmail h.1 h.2, .refresh,
          [.registered r.id normalizedEmail role])
      -- an IntegrityError of either index
      else some (a, .finished alreadyRegistered, [])
  | .refresh =>
      some (a, .finished (if (a.users.get r.id).isSome then ⟨201, ""⟩ else serverError), [])
  | .finished _ => none

structure AccountState where
  accounts : Accounts
  requests : List (Request × Phase)
  registrations : List (Registration × RegisterPhase)
  /-- What was committed, the newest first -/
  log : List Entry

inductive AccountAction
  | admin (action : Action)
  | register (registration : Registration)
  | proceed (i : Nat)
  /-- The registration fails for any other reason; nothing it did is committed. -/
  | abort (i : Nat)

/-- The administrators' requests and what they see -/
def AccountState.administration (s : AccountState) : State := ⟨s.accounts.users, s.requests⟩

def AccountState.start (accounts : Accounts) : AccountState := ⟨accounts, [], [], []⟩

/-! ## The administrators' requests bring no row -/

theorem commit_ids (t : Users) (request : Request) (user : User) :
    (commit t request user).1.ids.Sublist t.ids := by
  unfold commit
  split
  · exact List.filter_sublist.map _
  · simp only
    split
    · exact List.Sublist.refl _
    · split
      · exact List.Sublist.refl _
      · split
        · rename_i values _ _ _ _
          have hids := t.update_ids user.id (values.changes user).apply fun _ => rfl
          exact hids.symm ▸ List.Sublist.refl _
        · exact List.Sublist.refl _

/-- A request still at work has the caller it has read. -/
def Acting : Phase → Prop
  | .authenticate => False
  | .finished _ => False
  | _ => True

/-- **What one statement of a request does**: it is the commit, or it leaves the table alone; and a
    request goes past its authentication only when its caller is an administrator. -/
theorem advance_cases {t t' : Users} {request : Request} {phase next : Phase}
    (h : advance t request phase = some (t', next)) :
    (∃ user n, phase = .commit user n ∧ t' = (commit t request user).1 ∧ ¬ Acting next) ∨
    ((∀ user n, phase ≠ .commit user n) ∧ t' = t ∧
      (Acting next → Acting phase ∨ t.role request.adminId = some .admin)) := by
  cases phase with
  | authenticate =>
    refine .inr ⟨fun _ _ he => (by cases he), ?_⟩
    simp only [advance] at h
    split at h
    · rename_i caller hcaller
      split at h
      · cases h
        exact ⟨rfl, fun ha => ha.elim⟩
      · split at h
        · rename_i hrole
          cases h
          exact ⟨rfl, fun _ => .inr (by rw [Users.role, hcaller, Option.map_some, hrole])⟩
        · cases h
          exact ⟨rfl, fun ha => ha.elim⟩
    · cases h
      exact ⟨rfl, fun ha => ha.elim⟩
  | load currentAdmin =>
    refine .inr ⟨fun _ _ he => (by cases he), ?_⟩
    simp only [advance] at h
    split at h
    · cases h
      exact ⟨rfl, fun _ => .inl trivial⟩
    · cases h
      exact ⟨rfl, fun _ => .inl trivial⟩
  | count user =>
    cases h
    exact .inr ⟨fun _ _ he => (by cases he), rfl, fun _ => .inl trivial⟩
  | commit user n =>
    cases h
    exact .inl ⟨user, n, rfl, rfl, id⟩
  | finished response => simp [advance] at h

theorem step_ids {s s' : State} {a : Action} (h : userAdministration.step s a = some s') :
    s'.users.ids.Sublist s.users.ids := by
  cases a with
  | arrive request =>
    simp only [userAdministration, Option.some.injEq] at h
    subst h
    exact List.Sublist.refl _
  | proceed i =>
    simp only [userAdministration, Option.bind_eq_some_iff, Option.map_eq_some_iff] at h
    obtain ⟨⟨request, phase⟩, -, ⟨t, next⟩, hadvance, rfl⟩ := h
    rcases advance_cases hadvance with ⟨user, n, -, ht, -⟩ | ⟨-, ht, -⟩
    · simp only at ht ⊢
      rw [ht]
      exact commit_ids s.users request user
    · simp only at ht ⊢
      rw [ht]
  | abort i =>
    simp only [userAdministration, Option.some.injEq] at h
    subst h
    exact List.Sublist.refl _

def accountKeeping : Lts AccountState AccountAction where
  step s
    | .admin a =>
        match h : userAdministration.step s.administration a with
        | some next => some { s with
            accounts := s.accounts.follow next.users (step_ids h)
            requests := next.requests
            log := logged s.administration a ++ s.log }
        | none => none
    | .register registration =>
        some { s with registrations := s.registrations ++ [(registration, .lookUp)] }
    | .proceed i => s.registrations[i]?.bind fun r =>
        (createUser cfg s.accounts r.1 r.2).map fun (accounts, next, entries) =>
          { s with
            accounts := accounts
            registrations := s.registrations.set i (r.1, next)
            log := entries ++ s.log }
    | .abort i => some { s with registrations := s.registrations.eraseIdx i }

/-! ## The writes, as the roles see them -/

namespace Users

theorem get_of_mem {t : Users} {u : User} (hu : u ∈ t.rows) : t.get u.id = some u := by
  cases hg : t.get u.id with
  | none =>
    have hmiss := List.find?_eq_none.mp hg u hu
    exact absurd hmiss (by simp)
  | some v =>
    obtain ⟨hv, hid⟩ := mem_of_get hg
    rw [eq_of_id hv hu hid]

/-- The roles after a row is gone -/
theorem role_delete (t : Users) (deletedId id : String) :
    (t.delete deletedId).role id = if id = deletedId then none else t.role id := by
  have hget : (t.delete deletedId).get id =
      t.rows.find? fun u => decide ((u.id != deletedId) = true ∧ (u.id == id) = true) :=
    List.find?_filter
  rw [role, hget]
  split
  · rename_i hid
    rw [List.find?_eq_none.mpr, Option.map_none]
    intro u _
    simp [hid]
  · rename_i hid
    rw [role, get]
    congr 2
    funext u
    by_cases hu : u.id = id
    · simp [hu, hid]
    · simp [hu]

/-- The roles after an UPDATE -/
theorem role_update (t : Users) (updatedId : String) (set : User → User)
    (hset : ∀ u, (set u).id = u.id) (id : String) :
    (t.update updatedId set hset).role id =
      if id = updatedId then (t.get id).map fun u => (set u).role else t.role id := by
  have hget : (t.update updatedId set hset).get id =
      (t.get id).map fun u => if u.id = updatedId then set u else u := by
    have hsame : ((fun u : User => u.id == id) ∘ fun u => if u.id = updatedId then set u else u) =
        fun u => u.id == id := by
      funext u
      rw [Function.comp_apply]
      split
      · rw [hset]
      · rfl
    have hmap : (t.rows.map fun u => if u.id = updatedId then set u else u).find?
          (fun u => u.id == id) =
        (t.rows.find? ((fun u : User => u.id == id) ∘
          fun u => if u.id = updatedId then set u else u)).map
            fun u => if u.id = updatedId then set u else u := List.find?_map
    rw [hsame] at hmap
    exact hmap
  rw [role, hget]
  cases hfound : t.get id with
  | none => simp [role, hfound]
  | some u =>
    have hid : u.id = id := (mem_of_get hfound).2
    by_cases hu : id = updatedId
    · simp [hid, hu]
    · simp [hid, hu, role, hfound]

/-- The roles after a registration -/
theorem role_insert (t : Users) (user : User) (hid : user.id ∉ t.ids) (id : String) :
    (t.insert user hid).role id = if id = user.id then some user.role else t.role id := by
  have hget : (t.insert user hid).get id = (t.get id).or ([user].find? fun u => u.id == id) :=
    List.find?_append
  rw [role, hget]
  split
  · rename_i hnew
    have hnone : t.get id = none := by
      apply List.find?_eq_none.mpr
      intro u hu hmatch
      rw [beq_iff_eq, hnew] at hmatch
      exact hid (hmatch ▸ List.mem_map_of_mem hu)
    rw [hnone, Option.none_or]
    simp [hnew]
  · rename_i hother
    have hmiss : ([user].find? fun u => u.id == id) = none := by
      simpa using fun he => hother he.symm
    rw [hmiss, Option.or_none, role]

end Users

theorem roleAfter_append (before : String → Option UserRole) (later log : List Entry) :
    roleAfter before (later ++ log) = roleAfter (roleAfter before log) later := by
  induction later with
  | nil => rfl
  | cons e later ih =>
    funext id
    cases e with
    | registered newId email role => simp only [List.cons_append, roleAfter, ih]
    | changed changedId role adminId => simp only [List.cons_append, roleAfter, ih]
    | deleted deletedId => simp only [List.cons_append, roleAfter, ih]

/-- **The log of a commit tells what it does to the roles.** -/
theorem role_commit (t : Users) (request : Request) (user : User) (id : String) :
    (commit t request user).1.role id = roleAfter t.role (committed t request user) id := by
  unfold commit committed
  cases request.body with
  | delete => exact t.role_delete user.id id
  | update values =>
    simp only
    split
    · rename_i hrefused
      cases (values.changes user).role with
      | set role => simp [hrefused, roleAfter]
      | keep => rfl
      | refused => rfl
    · rename_i hrefused
      split
      · rename_i hnone
        have hkeep : (values.changes user).role.keeps = true := by
          simp only [Changes.none, Bool.and_eq_true] at hnone
          exact hnone.1.2
        cases hrole : (values.changes user).role with
        | set role => simp [hrole, ColumnChange.keeps] at hkeep
        | keep => rfl
        | refused => rfl
      · split
        · rename_i hfound
          refine (t.role_update user.id (values.changes user).apply (fun _ => rfl) id).trans ?_
          cases hrole : (values.changes user).role with
          | set role =>
            obtain ⟨u, hu⟩ := Option.isSome_iff_exists.mp hfound
            simp only [hrefused, hfound, and_self, if_true, roleAfter]
            split
            · rename_i hid
              simp [hid, hu, Changes.apply, hrole, ColumnChange.apply]
            · rfl
          | keep =>
            simp only [roleAfter, Changes.apply, hrole, ColumnChange.apply]
            split
            · rfl
            · rfl
          | refused =>
            refine absurd ?_ hrefused
            simp [Changes.refused, hrole, ColumnChange.refuses]
        · rename_i hfound
          cases (values.changes user).role with
          | set role => simp [hfound, roleAfter]
          | keep => rfl
          | refused => rfl

/-- No administrator's request writes an address. -/
theorem email_committed (before : String → String) (t : Users) (request : Request) (user : User)
    (log : List Entry) :
    emailAfter before (committed t request user ++ log) = emailAfter before log := by
  unfold committed
  cases request.body with
  | delete => rfl
  | update values =>
    simp only
    split
    · split
      · rfl
      · rfl
    · rfl

/-! ## What justifies an entry -/

/-- What `_should_bootstrap_admin` counts, at one moment of the log: nobody at all, or no
    administrator when the address of the first one is configured. -/
def Vacant (start : Users) (email : String) (moment : List Entry) : Prop :=
  if configuredEmail cfg ≠ "" then
    email = configuredEmail cfg ∧ ∀ id, roleAfter start.role moment id ≠ some .admin
  else ∀ id, roleAfter start.role moment id = none

/-- Who is made an administrator has found the place vacant, or has been made one for somebody who
    was an administrator at some time before. -/
def Justified (start : Users) : Entry → List Entry → Prop
  | .registered _ email .admin, earlier => Log.Once (Vacant cfg start email) earlier
  | .changed _ .admin adminId, earlier =>
      Log.Once (fun moment => roleAfter start.role moment adminId = some .admin) earlier
  | _, _ => True

/-- The authority of an id: a chain of promotions, each by an administrator of the time, back to an
    administrator of the start or to one who found the place vacant. -/
inductive Empowered (start : Users) : List Entry → String → Prop
  | initial {log : List Entry} {id : String} : start.role id = some .admin → Empowered start log id
  | vacancy {log later earlier : List Entry} {id email : String} :
      log = later ++ .registered id email .admin :: earlier →
      Log.Once (Vacant cfg start email) earlier → Empowered start log id
  | promotion {log later earlier moment : List Entry} {id adminId : String} :
      log = later ++ .changed id .admin adminId :: earlier → moment <:+ earlier →
      roleAfter start.role moment adminId = some .admin → Empowered start moment adminId →
      Empowered start log id

variable {cfg}

theorem Empowered.later {start : Users} {log : List Entry} {id : String}
    (h : Empowered cfg start log id) (e : Entry) : Empowered cfg start (e :: log) id := by
  cases h with
  | initial hstart => exact .initial hstart
  | vacancy hlog hvacant => exact .vacancy (by rw [hlog, List.cons_append]) hvacant
  | promotion hlog hmoment hrole hadmin =>
    exact .promotion (by rw [hlog, List.cons_append]) hmoment hrole hadmin

/-- The newest entry that speaks of an administrator is what empowered them. -/
theorem empowered_of_justified {start : Users} {log : List Entry}
    (h : Log.Every (Justified cfg start) log) {id : String}
    (hrole : roleAfter start.role log id = some .admin) : Empowered cfg start log id := by
  refine h.moments (Q := fun moment => ∀ id, roleAfter start.role moment id = some .admin →
    Empowered cfg start moment id) ?_ ?_ log (List.suffix_refl log) id hrole
  · exact fun id hstart => .initial hstart
  · intro e earlier hjustified hearlier id hrole
    have hlast := hearlier earlier (List.suffix_refl earlier) id
    cases e with
    | registered newId email role =>
      rw [roleAfter] at hrole
      split at hrole
      · rename_i hid
        subst hid
        cases hrole
        exact .vacancy (List.nil_append _).symm hjustified
      · exact (hlast hrole).later _
    | changed changedId role adminId =>
      rw [roleAfter] at hrole
      split at hrole
      · rename_i hid
        subst hid
        cases hrole
        obtain ⟨moment, hmoment, hadmin⟩ := hjustified
        exact .promotion (List.nil_append _).symm hmoment hadmin
          (hearlier moment hmoment adminId hadmin)
      · exact (hlast hrole).later _
    | deleted deletedId =>
      rw [roleAfter] at hrole
      split at hrole
      · cases hrole
      · exact (hlast hrole).later _

/-- With a configured address, an administrator who was none at the start and whom nobody promoted
    has that address. -/
theorem email_of_justified {start : Users} {log : List Entry}
    (hcfg : configuredEmail cfg ≠ "") (h : Log.Every (Justified cfg start) log) (emails : String → String)
    {id : String} (hrole : roleAfter start.role log id = some .admin)
    (hstart : start.role id ≠ some .admin)
    (hpromoted : ∀ adminId, .changed id .admin adminId ∉ log) :
    emailAfter emails log id = configuredEmail cfg := by
  induction log with
  | nil => exact absurd hrole hstart
  | cons e log ih =>
    have hpromoted' : ∀ adminId, .changed id .admin adminId ∉ log :=
      fun adminId hmem => hpromoted adminId (List.mem_cons_of_mem e hmem)
    cases e with
    | registered newId email role =>
      rw [roleAfter] at hrole
      rw [emailAfter]
      split at hrole
      · rename_i hid
        cases hrole
        obtain ⟨moment, -, hvacant⟩ := h.1
        rw [Vacant, if_pos hcfg] at hvacant
        rw [if_pos hid]
        exact hvacant.1
      · rename_i hid
        rw [if_neg hid]
        exact ih h.2 hrole hpromoted'
    | changed changedId role adminId =>
      rw [roleAfter] at hrole
      split at hrole
      · rename_i hid
        subst hid
        cases hrole
        exact absurd List.mem_cons_self (hpromoted adminId)
      · exact ih h.2 hrole hpromoted'
    | deleted deletedId =>
      rw [roleAfter] at hrole
      split at hrole
      · cases hrole
      · exact ih h.2 hrole hpromoted'

/-! ## The invariant -/

variable (cfg)

/-- The log gives the roles and the addresses, every entry of it is justified, and so is what the
    requests and the registrations at work have read. -/
structure Recorded (start : Accounts) (s : AccountState) : Prop where
  roles : s.accounts.users.role = roleAfter start.users.role s.log
  emails : s.accounts.email = emailAfter start.email s.log
  justified : Log.Every (Justified cfg start.users) s.log
  callers : ∀ r ∈ s.requests, Acting r.2 →
    Log.Once (fun moment => roleAfter start.users.role moment r.1.adminId = some .admin) s.log
  counted : ∀ r ∈ s.registrations, r.2 = .commit true →
    Log.Once (Vacant cfg start.users (cfg.normalizeEmail r.1.request.email)) s.log

variable {cfg}

/-- Nothing has been logged. -/
theorem recorded_start (start : Accounts) : Recorded cfg start (.start start) :=
  ⟨rfl, rfl, trivial, fun _ hr => (by cases hr), fun _ hr => (by cases hr)⟩

/-- A count of zero is what the table says of the moment. -/
theorem vacant_of_count {start : Users} {t : Users} {log : List Entry} {email : String}
    (hroles : t.role = roleAfter start.role log) (h : shouldBootstrapAdmin cfg t email = true) :
    Vacant cfg start email log := by
  unfold shouldBootstrapAdmin at h
  unfold Vacant
  rw [← hroles]
  split
  · rename_i hcfg
    rw [if_pos hcfg, Bool.and_eq_true, beq_iff_eq, beq_iff_eq] at h
    refine ⟨h.2, fun id hadmin => ?_⟩
    obtain ⟨u, hu, hrole⟩ := Option.map_eq_some_iff.mp hadmin
    have hnone := List.countP_eq_zero.mp h.1 u (Users.mem_of_get hu).1
    simp [hrole] at hnone
  · rename_i hcfg
    rw [if_neg hcfg, beq_iff_eq, List.length_eq_zero_iff] at h
    intro id
    rw [Users.role, Users.get, h]
    rfl

/-- The statement of an administrator's request that commits. -/
theorem logged_commit {s : State} {i : Nat} {request : Request} {user : User} {n : Option Nat}
    (hr : s.requests[i]? = some (request, .commit user n)) :
    logged s (.proceed i) = committed s.users request user := by
  simp only [logged, hr]

theorem logged_other {s : State} {i : Nat} {request : Request} {phase : Phase}
    (hr : s.requests[i]? = some (request, phase)) (h : ∀ user n, phase ≠ .commit user n) :
    logged s (.proceed i) = [] := by
  cases phase with
  | commit user n => exact absurd rfl (h user n)
  | authenticate => simp only [logged, hr]
  | load currentAdmin => simp only [logged, hr]
  | count user => simp only [logged, hr]
  | finished response => simp only [logged, hr]

/-- A commit of a caller who was an administrator logs what is justified. -/
theorem every_committed {start : Users} {t : Users} {log : List Entry} {request : Request}
    {user : User} (h : Log.Every (Justified cfg start) log)
    (hcaller : Log.Once (fun moment => roleAfter start.role moment request.adminId = some .admin)
      log) :
    Log.Every (Justified cfg start) (committed t request user ++ log) := by
  unfold committed
  cases request.body with
  | delete => exact ⟨trivial, h⟩
  | update values =>
    simp only
    split
    · rename_i role _
      split
      · refine ⟨?_, h⟩
        cases role with
        | admin => exact hcaller
        | user => trivial
      · exact h
    · exact h

/-- A statement of an administrator's request -/
theorem Recorded.admin {start : Accounts} {s : AccountState} {a : Action} {next : State}
    (h : Recorded cfg start s) (hs : userAdministration.step s.administration a = some next) :
    Recorded cfg start { s with
      accounts := s.accounts.follow next.users (step_ids hs)
      requests := next.requests
      log := logged s.administration a ++ s.log } := by
  cases a with
  | arrive request =>
    simp only [userAdministration, Option.some.injEq] at hs
    subst hs
    refine ⟨h.roles, h.emails, h.justified, fun r hr hacting => ?_, h.counted⟩
    rcases List.mem_append.mp hr with hr | hr
    · exact h.callers r hr hacting
    · rw [List.mem_singleton] at hr
      subst hr
      exact hacting.elim
  | abort i =>
    simp only [userAdministration, Option.some.injEq] at hs
    subst hs
    exact ⟨h.roles, h.emails, h.justified,
      fun r hr hacting => h.callers r (List.mem_of_mem_eraseIdx hr) hacting, h.counted⟩
  | proceed i =>
    simp only [userAdministration, Option.bind_eq_some_iff, Option.map_eq_some_iff] at hs
    obtain ⟨⟨request, phase⟩, hr, ⟨t, nextPhase⟩, hadvance, rfl⟩ := hs
    have hmem : (request, phase) ∈ s.requests := List.mem_of_getElem? hr
    rcases advance_cases hadvance with ⟨user, n, rfl, rfl, hdone⟩ | ⟨hreads, rfl, hnext⟩
    · rw [logged_commit hr]
      have hcaller := h.callers _ hmem trivial
      refine ⟨?_, ?_, every_committed h.justified hcaller, fun r hr' hacting => ?_, fun r hr' hp => ?_⟩
      · funext id
        rw [roleAfter_append, ← h.roles]
        exact role_commit s.accounts.users request user id
      · rw [email_committed]
        exact h.emails
      · rcases List.mem_or_eq_of_mem_set hr' with hr' | rfl
        · exact (h.callers r hr' hacting).later _
        · exact absurd hacting hdone
      · exact (h.counted r hr' hp).later _
    · rw [logged_other hr hreads]
      refine ⟨h.roles, h.emails, h.justified, fun r hr' hacting => ?_, h.counted⟩
      rcases List.mem_or_eq_of_mem_set hr' with hr' | rfl
      · exact h.callers r hr' hacting
      · rcases hnext hacting with hphase | hadmin
        · exact h.callers (request, phase) hmem hphase
        · have hnow : roleAfter start.users.role s.log request.adminId = some .admin := by
            rw [← h.roles]
            exact hadmin
          exact Log.Once.now hnow

/-- What one statement of a registration does. -/
theorem createUser_cases {a a' : Accounts} {r : Registration} {phase next : RegisterPhase}
    {entries : List Entry} (h : createUser cfg a r phase = some (a', next, entries)) :
    (a' = a ∧ entries = [] ∧ (next = .commit true → phase = .count ∧
      shouldBootstrapAdmin cfg a.users (cfg.normalizeEmail r.request.email) = true)) ∨
    (∃ isBootstrapAdmin user hid hemail, phase = .commit isBootstrapAdmin ∧ next = .refresh ∧
      user.id = r.id ∧ user.role = (if isBootstrapAdmin then .admin else .user) ∧
      a' = a.insert user (cfg.normalizeEmail r.request.email) hid hemail ∧
      entries = [.registered r.id (cfg.normalizeEmail r.request.email) user.role]) := by
  cases phase with
  | lookUp =>
    simp only [createUser] at h
    split at h
    · cases h
      exact .inl ⟨rfl, rfl, fun hn => by cases hn⟩
    · cases h
      exact .inl ⟨rfl, rfl, fun hn => by cases hn⟩
  | count =>
    simp only [createUser, Option.some.injEq, Prod.mk.injEq] at h
    obtain ⟨rfl, rfl, rfl⟩ := h
    refine .inl ⟨rfl, rfl, fun hn => ⟨rfl, ?_⟩⟩
    exact RegisterPhase.commit.inj hn
  | commit isBootstrapAdmin =>
    simp only [createUser] at h
    split at h
    · rename_i hfree
      cases h
      exact .inr ⟨isBootstrapAdmin, _, hfree.1, hfree.2, rfl, rfl, rfl, rfl, rfl, rfl⟩
    · cases h
      exact .inl ⟨rfl, rfl, fun hn => by cases hn⟩
  | refresh =>
    simp only [createUser, Option.some.injEq, Prod.mk.injEq] at h
    obtain ⟨rfl, rfl, rfl⟩ := h
    exact .inl ⟨rfl, rfl, fun hn => by cases hn⟩
  | finished response => cases h

/-- A statement of a registration -/
theorem Recorded.proceed {start : Accounts} {s : AccountState} {i : Nat} {r : Registration}
    {phase next : RegisterPhase} {accounts : Accounts} {entries : List Entry}
    (h : Recorded cfg start s) (hr : s.registrations[i]? = some (r, phase))
    (hc : createUser cfg s.accounts r phase = some (accounts, next, entries)) :
    Recorded cfg start { s with
      accounts := accounts
      registrations := s.registrations.set i (r, next)
      log := entries ++ s.log } := by
  have hmem : (r, phase) ∈ s.registrations := List.mem_of_getElem? hr
  rcases createUser_cases hc with ⟨rfl, rfl, hcount⟩ |
    ⟨isBootstrapAdmin, user, hid, hemail, rfl, rfl, huid, hrole, rfl, rfl⟩
  · refine ⟨h.roles, h.emails, h.justified, h.callers, fun r' hr' hp => ?_⟩
    rcases List.mem_or_eq_of_mem_set hr' with hr' | rfl
    · exact h.counted r' hr' hp
    · exact Log.Once.now (vacant_of_count h.roles (hcount hp).2)
  · refine ⟨?_, ?_, ⟨?_, h.justified⟩, fun r' hr' hacting => ?_, fun r' hr' hp => ?_⟩
    · funext id
      refine (Users.role_insert _ user hid id).trans ?_
      rw [List.singleton_append, roleAfter, huid, h.roles]
    · funext id
      rw [List.singleton_append, emailAfter, ← huid, ← h.emails]
      rfl
    · rw [hrole]
      cases isBootstrapAdmin with
      | true => exact h.counted _ hmem rfl
      | false => trivial
    · exact (h.callers r' hr' hacting).later _
    · rcases List.mem_or_eq_of_mem_set hr' with hr' | rfl
      · exact (h.counted r' hr' hp).later _
      · cases hp

/-- **One step keeps the record.** -/
theorem Recorded.step {start : Accounts} {s s' : AccountState} {a : AccountAction}
    (h : Recorded cfg start s) (hs : (accountKeeping cfg).step s a = some s') :
    Recorded cfg start s' := by
  cases a with
  | admin a =>
    simp only [accountKeeping] at hs
    split at hs
    · rename_i next hnext
      cases hs
      exact h.admin hnext
    · cases hs
  | register registration =>
    cases hs
    refine ⟨h.roles, h.emails, h.justified, h.callers, fun r hr hp => ?_⟩
    rcases List.mem_append.mp hr with hr | hr
    · exact h.counted r hr hp
    · rw [List.mem_singleton] at hr
      subst hr
      cases hp
  | proceed i =>
    simp only [accountKeeping, Option.bind_eq_some_iff, Option.map_eq_some_iff] at hs
    obtain ⟨⟨r, phase⟩, hr, ⟨accounts, next, entries⟩, hc, rfl⟩ := hs
    exact h.proceed hr hc
  | abort i =>
    cases hs
    exact ⟨h.roles, h.emails, h.justified, h.callers,
      fun r hr hp => h.counted r (List.mem_of_mem_eraseIdx hr) hp⟩

/-- An administrator who was none at the start and whom nobody promoted -/
def SelfMade (start : Users) (log : List Entry) (u : User) : Prop :=
  u.role = .admin ∧ start.role u.id ≠ some .admin ∧ ∀ adminId, .changed u.id .admin adminId ∉ log

/-- **Authority has a source.** However registrations and administrators' requests interleave, the
    roles in the table are those the log gives, every administrator has been empowered, and with a
    configured address no two of them have made themselves administrators. -/
theorem administrators_empowered (cfg : RegistrationSettings) (start : Accounts) {s : AccountState}
    (h : (accountKeeping cfg).Reach Lts.Anything (.start start) s) :
    s.accounts.users.role = roleAfter start.users.role s.log ∧
    (∀ u ∈ s.accounts.users.rows, u.role = .admin → Empowered cfg start.users s.log u.id) ∧
    (configuredEmail cfg ≠ "" → ∀ u ∈ s.accounts.users.rows, ∀ v ∈ s.accounts.users.rows,
      SelfMade start.users s.log u → SelfMade start.users s.log v → u = v) := by
  have hr : Recorded cfg start s := h.invariant (recorded_start start) fun _ _ _ hi _ hs => hi.step hs
  have hrole : ∀ u ∈ s.accounts.users.rows, u.role = .admin →
      roleAfter start.users.role s.log u.id = some .admin := by
    intro u hu hadmin
    rw [← hr.roles, Users.role, Users.get_of_mem hu, Option.map_some, hadmin]
  refine ⟨hr.roles, fun u hu hadmin => empowered_of_justified hr.justified (hrole u hu hadmin), ?_⟩
  intro hcfg u hu v hv hselfu hselfv
  have hemail : ∀ w ∈ s.accounts.users.rows, SelfMade start.users s.log w →
      s.accounts.email w.id = configuredEmail cfg := by
    intro w hw ⟨hadmin, hstart, hpromoted⟩
    rw [hr.emails]
    exact email_of_justified hcfg hr.justified start.email (hrole w hw hadmin) hstart hpromoted
  exact List.inj_on_of_nodup_map s.accounts.unique hu hv
    ((hemail u hu hselfu).trans (hemail v hv hselfv).symm)

def ownerSettings : RegistrationSettings :=
  ⟨"Owner@Example.com", fun text => String.ofList ((Py.strip text.toList).map lowerChar)⟩

def noAccounts : Accounts := ⟨⟨[], List.nodup_nil⟩, fun _ => "", List.nodup_nil⟩

/-- Two registrations count before either commits; the owner then promotes the colleague. -/
theorem administrators_empowered_two : ∃ s : AccountState,
    s.accounts.users.rows.map User.role = [.admin, .admin] ∧ s.log.length = 3 ∧
    ∀ u ∈ s.accounts.users.rows, u.role = .admin →
      Empowered ownerSettings noAccounts.users s.log u.id := by
  let owner : Registration := ⟨"a", ⟨" owner@example.com", "Ann", by decide⟩⟩
  let colleague : Registration := ⟨"b", ⟨"ben@example.com", "Ben", by decide⟩⟩
  let promote : Body := .update ⟨none, some (some .admin), none, fun _ h => (by cases h)⟩
  obtain ⟨s, hs, hp⟩ := Lts.exists_of_run (accountKeeping ownerSettings) (.start noAccounts)
    [.register owner, .register colleague, .proceed 0, .proceed 1, .proceed 0, .proceed 1,
      .proceed 0, .proceed 1, .proceed 0, .admin (.arrive ⟨"a", "b", promote⟩),
      .admin (.proceed 0), .admin (.proceed 0), .admin (.proceed 0)]
    (P := fun s => decide (s.accounts.users.rows.map User.role = [.admin, .admin]) &&
      decide (s.log.length = 3)) (by decide +kernel)
  simp only [Bool.and_eq_true, decide_eq_true_eq] at hp
  exact ⟨s, hp.1, hp.2, (administrators_empowered ownerSettings noAccounts hs).2.1⟩

end

end Admin

end HyChat
