import HyChat.Lib.Lts
import Mathlib.Data.List.Count
import Mathlib.Data.List.Nodup

/-!
# Administrators acting on users

`update_user` and `delete_user`, as any number of requests run them on one table at READ COMMITTED:
a request reads the caller, reads its target, in the guarded cases counts the active
administrators, and then flushes and commits its one write. Every read sees what is committed by
then. The flush waits for whoever holds the row and keeps it to the commit, so the write takes
effect on the row as it is committed at that moment; the two are one step here.

The session keeps every row it has read, so a request whose target is the caller uses the row the
authentication read.

Why the proof counts. An administrator is lost only by a write that demotes, deactivates or deletes
one. The endpoints count the active administrators before such a write and refuse it when there is
only one, so at the time of the count there are two, and one of them is not the target. `Checked`
says that a request which may commit has done so; `Safe` says that there is an administrator now.
What can go wrong is between the count and the commit: two requests count the same two
administrators, and each takes away one of them. `Undisturbed` is the condition on the write, in
terms of the row it finds and of the count as it would be then, and a run whose writes meet it
keeps an administrator forever.

A write that takes nobody away is not asked anything, whoever makes it; neither is a request that
is refused, or one that ends in an error. The proof of each step is about the table as it is at the
write, the changes being computed against the row as it was read (`ColumnChange`).
-/

set_option autoImplicit false

namespace HyChat

open Lib

namespace Admin

inductive UserRole
  | admin
  | user
  deriving DecidableEq

/-- A row of `users`; the columns are NOT NULL. -/
structure User where
  id : String
  displayName : String
  role : UserRole
  isActive : Bool
  deriving DecidableEq

/-- The table, under its primary key. -/
structure Users where
  rows : List User
  key : (rows.map User.id).Nodup

/-- The fields of a PATCH body: unset, null, or a value. -/
structure AdminUserUpdate where
  displayName : Option (Option String)
  role : Option (Option UserRole)
  isActive : Option (Option Bool)
  /-- The bounds pydantic enforces before the endpoint runs -/
  named : ∀ name, displayName = some (some name) → 1 ≤ name.length ∧ name.length ≤ 120

inductive Body
  | delete
  | update (values : AdminUserUpdate)

structure Request where
  adminId : String
  userId : String
  body : Body

structure Response where
  status : Nat
  detail : String
  deriving DecidableEq

/-- Where a request stands. -/
inductive Phase
  /-- `require_admin` has not read the caller yet. -/
  | authenticate
  | load (currentAdmin : User)
  | count (user : User)
  /-- The flush and the commit, with the target as it was read and the count if one was made -/
  | commit (user : User) (adminCount : Option Nat)
  | finished (response : Response)

structure State where
  users : Users
  requests : List (Request × Phase)

inductive Action
  | arrive (request : Request)
  | proceed (i : Nat)
  /-- The request is refused or fails for any other reason; nothing it did is committed. -/
  | abort (i : Nat)

namespace User

def isActiveAdmin (u : User) : Bool := u.role == .admin && u.isActive

end User

namespace Users

def get (t : Users) (id : String) : Option User := t.rows.find? fun u => u.id == id

/-- `SELECT count(*) ... WHERE role = ADMIN AND is_active` -/
def adminCount (t : Users) : Nat := t.rows.countP User.isActiveAdmin

def HasAdmin (t : Users) : Prop := ∃ u ∈ t.rows, u.isActiveAdmin = true

def delete (t : Users) (id : String) : Users where
  rows := t.rows.filter fun u => u.id != id
  key := t.key.sublist (List.filter_sublist.map _)

/-- `UPDATE users SET ... WHERE id = ...`; the SET list never has the key. -/
def update (t : Users) (id : String) (set : User → User) (hset : ∀ u, (set u).id = u.id) :
    Users where
  rows := t.rows.map fun u => if u.id = id then set u else u
  key := by
    have hids : (t.rows.map fun u => if u.id = id then set u else u).map User.id =
        t.rows.map User.id := by
      rw [List.map_map]
      apply List.map_congr_left
      intro u _
      by_cases hu : u.id = id
      · simp [hu, hset]
      · simp [hu]
    rw [hids]
    exact t.key

end Users

/-! ## The unit of work -/

/-- What the flush does to one column: nothing when the field is unset or equal to what was read,
    and the NOT NULL constraint refuses a null. -/
inductive ColumnChange (α : Type)
  | keep
  | set (value : α)
  | refused

def columnChange {α : Type} [DecidableEq α] (field : Option (Option α)) (loaded : α) :
    ColumnChange α :=
  match field with
  | none => .keep
  | some none => .refused
  | some (some v) => if v = loaded then .keep else .set v

def ColumnChange.apply {α : Type} (c : ColumnChange α) (old : α) : α :=
  match c with
  | .set v => v
  | _ => old

def ColumnChange.refuses {α : Type} : ColumnChange α → Bool
  | .refused => true
  | _ => false

def ColumnChange.keeps {α : Type} : ColumnChange α → Bool
  | .keep => true
  | _ => false

/-- The changes of the three columns against the target as it was read. -/
structure Changes where
  displayName : ColumnChange String
  role : ColumnChange UserRole
  isActive : ColumnChange Bool

def AdminUserUpdate.changes (values : AdminUserUpdate) (loaded : User) : Changes :=
  ⟨columnChange values.displayName loaded.displayName, columnChange values.role loaded.role,
    columnChange values.isActive loaded.isActive⟩

def Changes.refused (c : Changes) : Bool :=
  c.displayName.refuses || c.role.refuses || c.isActive.refuses

def Changes.none (c : Changes) : Bool := c.displayName.keeps && c.role.keeps && c.isActive.keeps

def Changes.apply (c : Changes) (u : User) : User :=
  ⟨u.id, c.displayName.apply u.displayName, c.role.apply u.role, c.isActive.apply u.isActive⟩

/-! ## The endpoints -/

/-- The answer to a request whose target is not there -/
def notFound : Response := ⟨404, "用户不存在"⟩

/-- What the request does once it has its target. -/
def afterLoad (request : Request) (currentAdmin user : User) : Phase :=
  match request.body with
  | .delete =>
      if user.id = currentAdmin.id then .finished ⟨409, "不能删除当前登录账号"⟩
      else if user.role = .admin then .count user
      else .commit user none
  | .update values =>
      if user.role = .admin ∧ (values.role = some (some .user) ∨ values.isActive = some (some false))
      then .count user
      else .commit user none

/-- What the request does with the count. -/
def afterCount (request : Request) (user : User) (adminCount : Nat) : Phase :=
  match request.body with
  | .delete =>
      if user.isActive ∧ adminCount ≤ 1 then .finished ⟨409, "不能删除最后一个管理员"⟩
      else .commit user (some adminCount)
  | .update _ =>
      if adminCount ≤ 1 then .finished ⟨409, "不能停用或降级最后一个管理员"⟩
      else .commit user (some adminCount)

def serverError : Response := ⟨500, "Internal Server Error"⟩

/-- The flush, the commit and the answer. -/
def commit (t : Users) (request : Request) (user : User) : Users × Response :=
  match request.body with
  | .delete => (t.delete user.id, ⟨204, ""⟩)
  | .update values =>
      let changes := values.changes user
      if changes.refused then (t, serverError)
      else if changes.none then
        -- no UPDATE is sent; the refresh fails when the row is gone
        (t, if (t.get user.id).isSome then ⟨200, ""⟩ else serverError)
      else if (t.get user.id).isSome then (t.update user.id changes.apply fun _ => rfl, ⟨200, ""⟩)
      -- an UPDATE that matches no row is a stale data error
      else (t, serverError)

/-- One statement of a request. -/
def advance (t : Users) (request : Request) : Phase → Option (Users × Phase)
  | .authenticate =>
      match t.get request.adminId with
      | some caller =>
          if !caller.isActive then some (t, .finished ⟨401, "用户不存在或已被停用"⟩)
          else if caller.role = .admin then some (t, .load caller)
          else some (t, .finished ⟨403, "需要管理员权限。"⟩)
      | none => some (t, .finished ⟨401, "用户不存在或已被停用"⟩)
  | .load currentAdmin =>
      let user? := if request.userId = currentAdmin.id then some currentAdmin else t.get request.userId
      match user? with
      | some user => some (t, afterLoad request currentAdmin user)
      | none => some (t, .finished notFound)
  | .count user => some (t, afterCount request user t.adminCount)
  | .commit user _ =>
      let done := commit t request user
      some (done.1, .finished done.2)
  | .finished _ => none

def userAdministration : Lts State Action where
  step s
    | .arrive request => some { s with requests := s.requests ++ [(request, .authenticate)] }
    | .proceed i => s.requests[i]?.bind fun r =>
        (advance s.users r.1 r.2).map fun next =>
          ⟨next.1, s.requests.set i (r.1, next.2)⟩
    | .abort i => some { s with requests := s.requests.eraseIdx i }

/-! ## Counting administrators -/

namespace Users

/-- A row that is found is in the table. -/
theorem mem_of_get {t : Users} {id : String} {u : User} (h : t.get id = some u) :
    u ∈ t.rows ∧ u.id = id :=
  ⟨List.mem_of_find?_eq_some h, by simpa using List.find?_some h⟩

theorem eq_of_id {t : Users} {u v : User} (hu : u ∈ t.rows) (hv : v ∈ t.rows) (h : u.id = v.id) :
    u = v := List.inj_on_of_nodup_map t.key hu hv h

/-- Of two active administrators at most one has a given id. -/
theorem exists_other {t : Users} (id : String) (h : 2 ≤ t.adminCount) :
    ∃ u ∈ t.rows, u.isActiveAdmin = true ∧ u.id ≠ id := by
  by_contra hnone
  have hall : ∀ u ∈ t.rows, u.isActiveAdmin = true → decide (u.id = id) = true := by
    intro u hu ha
    by_contra hne
    exact hnone ⟨u, hu, ha, by simpa using hne⟩
  have hle : t.adminCount ≤ t.rows.countP fun u => decide (u.id = id) :=
    List.countP_mono_left hall
  have hone : (t.rows.countP fun u => decide (u.id = id)) ≤ 1 := by
    have hcount : (t.rows.map User.id).count id ≤ 1 := List.nodup_iff_count_le_one.mp t.key id
    rw [List.count_eq_countP, List.countP_map] at hcount
    refine Nat.le_trans (Nat.le_of_eq ?_) hcount
    apply List.countP_congr
    intro u _
    simp
  omega

/-- Deleting another row leaves an administrator. -/
theorem HasAdmin.delete {t : Users} {u : User} {id : String} (hu : u ∈ t.rows)
    (ha : u.isActiveAdmin = true) (hne : u.id ≠ id) : (t.delete id).HasAdmin :=
  ⟨u, List.mem_filter.mpr ⟨hu, by simpa using hne⟩, ha⟩

/-- Updating another row leaves an administrator. -/
theorem HasAdmin.update {t : Users} {u : User} {id : String} (set : User → User)
    (hset : ∀ u, (set u).id = u.id) (hu : u ∈ t.rows) (ha : u.isActiveAdmin = true)
    (hkeep : u.id = id → (set u).isActiveAdmin = true) : (t.update id set hset).HasAdmin := by
  refine ⟨if u.id = id then set u else u, List.mem_map.mpr ⟨u, hu, rfl⟩, ?_⟩
  split
  · rename_i hid
    exact hkeep hid
  · exact ha

end Users

/-! ## Writes that take an administrator away -/

/-- The write of the request makes the row no active administrator. -/
def Body.demotes (body : Body) (loaded row : User) : Prop :=
  match body with
  | .delete => True
  | .update values => ((values.changes loaded).apply row).isActiveAdmin = false

/-- When a request's write takes an active administrator away, its target still has the role and
    the activity the request read, and there are no fewer active administrators than it counted. -/
def Undisturbed (s : State) (a : Action) : Prop :=
  ∀ i request user adminCount row, a = .proceed i →
    s.requests[i]? = some (request, .commit user adminCount) → s.users.get user.id = some row →
    row.isActiveAdmin = true → request.body.demotes user row →
    (row.role = user.role ∧ row.isActive = user.isActive) ∧ ∀ n ∈ adminCount, n ≤ s.users.adminCount

/-- A request that may commit, and would take away the administrator it has read, has counted at
    least two. -/
def Checked (request : Request) : Phase → Prop
  | .commit user adminCount =>
      user.isActiveAdmin = true → request.body.demotes user user → ∃ n, adminCount = some n ∧ 2 ≤ n
  | _ => True

structure State.Safe (s : State) : Prop where
  admin : s.users.HasAdmin
  checked : ∀ r ∈ s.requests, Checked r.1 r.2

/-- An update that takes the administrator it has read away asks for it, so it is guarded. -/
theorem guarded_of_demotes {values : AdminUserUpdate} {u : User} (ha : u.isActiveAdmin = true)
    (hd : (Body.update values).demotes u u) :
    values.role = some (some .user) ∨ values.isActive = some (some false) := by
  obtain ⟨hrole, hactive⟩ : u.role = .admin ∧ u.isActive = true := by
    simpa [User.isActiveAdmin] using ha
  have hd : ((values.changes u).apply u).isActiveAdmin = false := hd
  by_cases hr : values.role = some (some .user)
  · exact .inl hr
  · refine .inr ?_
    have hkeep : (columnChange values.role u.role).apply u.role = .admin := by
      rw [hrole]
      unfold columnChange
      match hv : values.role with
      | none => rfl
      | some none => rfl
      | some (some .admin) => rfl
      | some (some .user) => exact absurd hv hr
    by_contra hact
    have hkeep' : (columnChange values.isActive u.isActive).apply u.isActive = true := by
      rw [hactive]
      unfold columnChange
      match hv : values.isActive with
      | none => rfl
      | some none => rfl
      | some (some true) => rfl
      | some (some false) => exact absurd hv hact
    rw [User.isActiveAdmin, Changes.apply, AdminUserUpdate.changes] at hd
    simp only at hd
    rw [hkeep, hkeep'] at hd
    exact absurd hd (by decide)

theorem checked_afterLoad (request : Request) (currentAdmin user : User) :
    Checked request (afterLoad request currentAdmin user) := by
  unfold afterLoad
  cases hb : request.body with
  | delete =>
    simp only
    split
    · trivial
    · split
      · trivial
      · rename_i hrole
        intro ha _
        simp [User.isActiveAdmin] at ha
        exact absurd ha.1 hrole
  | update values =>
    simp only
    split
    · trivial
    · rename_i hguard
      intro ha hd
      rw [hb] at hd
      have hrole : user.role = .admin := by
        simp [User.isActiveAdmin] at ha
        exact ha.1
      exact absurd ⟨hrole, guarded_of_demotes ha hd⟩ hguard

theorem checked_afterCount (request : Request) (user : User) (n : Nat) :
    Checked request (afterCount request user n) := by
  unfold afterCount
  cases request.body with
  | delete =>
    simp only
    split
    · trivial
    · rename_i hguard
      intro ha _
      have hactive : user.isActive = true := by
        simp [User.isActiveAdmin] at ha
        exact ha.2
      exact ⟨n, rfl, by
        by_contra hlt
        exact hguard ⟨hactive, by omega⟩⟩
  | update values =>
    simp only
    split
    · trivial
    · rename_i hguard
      intro _ _
      exact ⟨n, rfl, by omega⟩

/-! ## The write -/

/-- The row as the write sees it decides whether it takes an administrator away. -/
theorem demotes_congr {body : Body} {user row : User}
    (hr : row.role = user.role) (ha : row.isActive = user.isActive) :
    body.demotes user row ↔ body.demotes user user := by
  cases body with
  | delete => exact Iff.rfl
  | update values =>
    unfold Body.demotes
    simp only [Changes.apply, User.isActiveAdmin, hr, ha]

/-- A write that was checked and not disturbed leaves an administrator. -/
theorem hasAdmin_commit {t : Users} {request : Request} {user : User} (h : t.HasAdmin)
    (hother : ∀ row, t.get user.id = some row → row.isActiveAdmin = true →
      request.body.demotes user row → ∃ u ∈ t.rows, u.isActiveAdmin = true ∧ u.id ≠ user.id) :
    (commit t request user).1.HasAdmin := by
  -- an active administrator that the write leaves alone
  have hwitness : ∃ u ∈ t.rows, u.isActiveAdmin = true ∧
      (u.id = user.id → ¬ request.body.demotes user u) := by
    obtain ⟨u, hu, ha⟩ := h
    by_cases hid : u.id = user.id
    · by_cases hd : request.body.demotes user u
      · have hget : t.get user.id = some u := by
          cases hg : t.get user.id with
          | none =>
            have := List.find?_eq_none.mp hg u hu
            exact absurd hid (by simpa using this)
          | some v =>
            obtain ⟨hv, hvid⟩ := Users.mem_of_get hg
            rw [Users.eq_of_id hv hu (hvid.trans hid.symm)]
        obtain ⟨v, hv, hva, hvid⟩ := hother u hget ha hd
        exact ⟨v, hv, hva, fun e => absurd e hvid⟩
      · exact ⟨u, hu, ha, fun _ => hd⟩
    · exact ⟨u, hu, ha, fun e => absurd e hid⟩
  obtain ⟨u, hu, ha, hkeep⟩ := hwitness
  unfold commit
  cases hb : request.body with
  | delete =>
    rw [hb] at hkeep
    exact Users.HasAdmin.delete hu ha fun e => hkeep e trivial
  | update values =>
    rw [hb] at hkeep
    simp only
    split
    · exact ⟨u, hu, ha⟩
    · split
      · exact ⟨u, hu, ha⟩
      · split
        · refine Users.HasAdmin.update (values.changes user).apply (fun _ => rfl) hu ha ?_
          intro hid
          exact Bool.of_not_eq_false (hkeep hid)
        · exact ⟨u, hu, ha⟩

/-- One statement of one request -/
theorem safe_advance {s : State} {i : Nat} {request : Request} {phase next : Phase} {t : Users}
    (h : s.Safe) (hok : Undisturbed s (.proceed i)) (hr : s.requests[i]? = some (request, phase))
    (ha : advance s.users request phase = some (t, next)) : t.HasAdmin ∧ Checked request next := by
  cases phase with
  | authenticate =>
    simp only [advance] at ha
    split at ha
    · split at ha
      · cases ha
        exact ⟨h.admin, trivial⟩
      · split at ha
        · cases ha
          exact ⟨h.admin, trivial⟩
        · cases ha
          exact ⟨h.admin, trivial⟩
    · cases ha
      exact ⟨h.admin, trivial⟩
  | load currentAdmin =>
    simp only [advance] at ha
    split at ha
    · cases ha
      exact ⟨h.admin, checked_afterLoad request currentAdmin _⟩
    · cases ha
      exact ⟨h.admin, trivial⟩
  | count user =>
    cases ha
    exact ⟨h.admin, checked_afterCount request user _⟩
  | commit user adminCount =>
    cases ha
    refine ⟨hasAdmin_commit h.admin ?_, trivial⟩
    intro row hrow hadmin hd
    obtain ⟨⟨hrole, hactive⟩, hle⟩ := hok i request user adminCount row rfl hr hrow hadmin hd
    have hread : user.isActiveAdmin = true := by
      rw [User.isActiveAdmin, hrole, hactive] at hadmin
      exact hadmin
    have hdu := (demotes_congr hrole hactive).mp hd
    obtain ⟨n, rfl, hn⟩ := h.checked _ (List.mem_of_getElem? hr) hread hdu
    exact Users.exists_other user.id (Nat.le_trans hn (hle n rfl))
  | finished response => simp [advance] at ha

theorem Safe.step {s s' : State} {a : Action} (h : s.Safe) (hok : Undisturbed s a)
    (hs : userAdministration.step s a = some s') : s'.Safe := by
  cases a with
  | arrive request =>
    simp only [userAdministration, Option.some.injEq] at hs
    subst hs
    refine ⟨h.admin, ?_⟩
    intro r hr
    rcases List.mem_append.mp hr with hr | hr
    · exact h.checked r hr
    · rw [List.mem_singleton] at hr
      subst hr
      trivial
  | proceed i =>
    simp only [userAdministration, Option.bind_eq_some_iff, Option.map_eq_some_iff] at hs
    obtain ⟨⟨request, phase⟩, hr, ⟨t, next⟩, ha, rfl⟩ := hs
    obtain ⟨hadmin, hchecked⟩ := safe_advance h hok hr ha
    refine ⟨hadmin, ?_⟩
    intro r hmem
    rcases List.mem_or_eq_of_mem_set hmem with hmem | rfl
    · exact h.checked r hmem
    · exact hchecked
  | abort i =>
    simp only [userAdministration, Option.some.injEq] at hs
    subst hs
    exact ⟨h.admin, fun r hr => h.checked r (List.mem_of_mem_eraseIdx hr)⟩

/-- **There is always an administrator while no removal is disturbed.** -/
theorem always_an_admin (users : Users) (hadmin : users.HasAdmin) (s : State)
    (h : userAdministration.Reach Undisturbed ⟨users, []⟩ s) : s.users.HasAdmin := by
  have hsafe : s.Safe := h.invariant ⟨hadmin, fun r hr => absurd hr (by simp)⟩
    fun s a s' hi hok hs => Safe.step hi hok hs
  exact hsafe.admin

def twoAdmins : Users :=
  ⟨[⟨"a", "Ann", .admin, true⟩, ⟨"b", "Ben", .admin, true⟩], by decide⟩

/-- Two administrators deactivate each other at once. -/
theorem no_admin_left :
    ¬ ∀ s, userAdministration.Reach Lts.Anything ⟨twoAdmins, []⟩ s → s.users.HasAdmin := by
  intro h
  let deactivate : Body := .update ⟨none, none, some (some false), fun _ h => absurd h (by simp)⟩
  obtain ⟨s, hs, hp⟩ := Lts.exists_of_run userAdministration ⟨twoAdmins, []⟩
    [.arrive ⟨"a", "b", deactivate⟩, .arrive ⟨"b", "a", deactivate⟩,
      .proceed 0, .proceed 0, .proceed 0, .proceed 1, .proceed 1, .proceed 1,
      .proceed 0, .proceed 1]
    (P := fun s => s.users.rows.all fun u => !u.isActiveAdmin) (by decide)
  obtain ⟨u, hu, ha⟩ := h s hs
  have := List.all_eq_true.mp hp u hu
  simp [ha] at this

/-- `Undisturbed`, as a check of every write to a row of an active administrator -/
def undisturbed (s : State) : Action → Bool
  | .proceed i =>
      match s.requests[i]? with
      | some (_, .commit user adminCount) =>
          (s.users.get user.id).all fun row => !row.isActiveAdmin ||
            (row.role == user.role && row.isActive == user.isActive &&
              adminCount.all fun n => n ≤ s.users.adminCount)
      | _ => true
  | _ => true

theorem undisturbed_of_check {s : State} {a : Action} (h : undisturbed s a = true) :
    Undisturbed s a := by
  intro i request user adminCount row ha hr hrow hadmin _
  subst ha
  simp only [undisturbed, hr, hrow, Option.all_some, hadmin, Bool.not_true, Bool.false_or,
    Bool.and_eq_true, beq_iff_eq, Option.all_eq_true, decide_eq_true_eq] at h
  exact h

def threeAdmins : Users :=
  ⟨[⟨"a", "Ann", .admin, true⟩, ⟨"b", "Ben", .admin, true⟩, ⟨"c", "Cay", .admin, true⟩], by decide⟩

/-- Ann deletes Ben while Cay takes Ann's role away. Both have read their targets when the first of
    them commits, and the second one counts after that. -/
theorem always_an_admin_delete :
    ∃ s, userAdministration.Reach Undisturbed ⟨threeAdmins, []⟩ s ∧ s.users.rows.length = 2 ∧
      s.users.adminCount = 1 ∧ s.users.HasAdmin := by
  have hrun : (userAdministration.runChecked undisturbed
      [.arrive ⟨"a", "b", .delete⟩,
        .arrive ⟨"c", "a", .update ⟨none, some (some .user), none, fun _ h => absurd h (by simp)⟩⟩,
        .proceed 0, .proceed 1, .proceed 0, .proceed 1, .proceed 0, .proceed 0, .proceed 1,
        .proceed 1] ⟨threeAdmins, []⟩).any
      (fun s => s.users.rows.length == 2 && s.users.adminCount == 1) = true := by decide
  obtain ⟨s, hs, hp⟩ := (Option.any_eq_true ..).mp hrun
  obtain ⟨hlength, hcount⟩ := Bool.and_eq_true_iff.mp hp
  have hreach := Lts.Reach.start.of_runChecked (fun _ _ => undisturbed_of_check) hs
  exact ⟨s, hreach, beq_iff_eq.mp hlength, beq_iff_eq.mp hcount,
    always_an_admin threeAdmins ⟨_, List.mem_cons_self, rfl⟩ s hreach⟩

end Admin

end HyChat
