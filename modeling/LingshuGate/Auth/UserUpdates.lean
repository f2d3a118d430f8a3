import LingshuGate.Lib.Threads
import LingshuGate.Auth.Tokens

/-!
# Updating users (`access_routes.py`, `auth.py`, `access_control.py`)

| here | there |
| --- | --- |
| `UserUpdate`              | `PATCH /v1/access/users/{user_id}` and its `UserUpdateRequest` (access_routes.py:291) |
| `.getUser` … `.countAdmins` | `validate_admin_transition` (auth.py:707) |
| `.selectRoles` … `.insertRoles` | `set_user_roles` (access_control.py:281) |
| `.readUser` … `.reload`   | `update_user` (auth.py:685) |
| `advance`                 | one statement: each runs in a transaction of its own |

The check that an administrator remains and the writes it is about are different transactions. Between them another
request may write: `admin_lost` is two administrators who disable each other. `admin_remains` says what a statement
must find for the check to be true when it matters.

`plan` is the order in which the database returns rows it was asked for without `ORDER BY`. The display name and the
time of the update are left out: nothing here reads them.
-/

namespace LingshuGate.AuthStore

open Lib Lib.Py AccessControl

/-! ## The tables -/

/-- `DELETE FROM user_roles WHERE user_id = ?`. -/
def AuthDb.deleteUserRoles (db : AuthDb) (userId : String) : AuthDb :=
  { db with access := { db.access with userRoles := db.access.userRoles.filter (·.1 ≠ userId) } }

/-- `INSERT INTO user_roles (user_id, role_id) VALUES (?, ?)`. -/
def AuthDb.insertUserRole (db : AuthDb) (userId roleId : String) : AuthDb :=
  { db with access := { db.access with userRoles := db.access.userRoles ++ [(userId, roleId)] } }

/-- `UPDATE users SET … status = ? … WHERE id = ?`. -/
def AuthDb.setUserStatus (db : AuthDb) (userId : String) (status : UserStatus) : AuthDb :=
  { db with users := db.users.map fun u => if u.id = userId then { u with status := status } else u }

/-- `DELETE FROM auth_sessions WHERE user_id = ?`. -/
def AuthDb.deleteSessions (db : AuthDb) (userId : String) : AuthDb :=
  { db with sessions := db.sessions.filter (·.userId ≠ userId) }

/-- `roles.code = 'admin'` of a role id. -/
def AuthDb.isAdminRole (db : AuthDb) (roleId : String) : Bool :=
  db.access.roles.any fun role => role.id = roleId && role.code = "admin"

/-- The user has the admin role. -/
def AuthDb.isAdmin (db : AuthDb) (userId : String) : Bool :=
  db.access.userRoles.any fun ur => ur.1 = userId && db.isAdminRole ur.2

def AuthDb.isActive (db : AuthDb) (userId : String) : Bool :=
  db.users.any fun u => u.id = userId && u.status = .active

/-- `SELECT COUNT(DISTINCT users.id) … WHERE users.status = 'active' AND roles.code = 'admin' AND users.id <> ?`. -/
def AuthDb.otherAdmins (db : AuthDb) (userId : String) : Nat :=
  ((db.users.filter fun u => u.status = .active && db.isAdmin u.id && u.id ≠ userId).map User.id).dedup.length

/-- Some active user has the admin role. -/
def AuthDb.HasAdmin (db : AuthDb) : Prop := ∃ userId, db.isActive userId = true ∧ db.isAdmin userId = true

/-! ## A request -/

/-- The user of the path and the body; a status outside `USER_STATUSES` was refused before the first statement. -/
structure UserUpdate where
  userId : String
  status : Option UserStatus := none
  roles : Option (List String) := none
  deriving DecidableEq

/-- Where a request is: the statement it runs next, with what it has read. -/
inductive UpdatePc where
  | getUser
  | userRoles (status : UserStatus)
  | countAdmins
  | selectRoles (codes : List String)
  | deleteRoles (roleIds : List String)
  | insertRoles (roleIds : List String)
  | readUser
  | writeUser (status : UserStatus)
  | deleteSessions
  | reload
  | reloadRoles (status : UserStatus)
  | done (result : Except HttpError (UserStatus × List String))

def UpdatePc.isDone : UpdatePc → Bool
  | .done _ => true
  | _ => false

/-- `KeyError` of `get_user`, as a 404. -/
def userNotFound (userId : String) : HttpError := ⟨404, "'user not found: " ++ userId ++ "'"⟩

/-- `sorted({str(code).strip() for code in role_codes if str(code).strip()})`. -/
def roleCodes (roles : List String) : List String :=
  ((roles.map strip).filter (· ≠ "")).dedup.insertionSort (· ≤ ·)

/-- After the check: the roles, if any are given, then the status. -/
def UserUpdate.afterCheck (r : UserUpdate) : UpdatePc :=
  match r.roles with
  | none => .readUser
  | some roles =>
    if roleCodes roles = [] then .done (.error ⟨400, "at least one role is required"⟩) else .selectRoles (roleCodes roles)

/-- `validate_admin_transition` needs no count: the user is no admin, or stays an active one. -/
def UserUpdate.keepsAdmin (r : UserUpdate) (status : UserStatus) (current : List String) : Bool :=
  !current.contains "admin" || (r.status.getD status = .active && (r.roles.getD current).contains "admin")

local instance lawful_pair : LawfulBEq (String × String) := inferInstance

/-- One statement of a request. -/
def advance (plan : List Role → List Role) (db : AuthDb) (r : UserUpdate) : UpdatePc → AuthDb × UpdatePc
  | .getUser => match db.users.find? (·.id = r.userId) with
    | none => (db, .done (.error (userNotFound r.userId)))
    | some u => (db, .userRoles u.status)
  | .userRoles status =>
    if r.keepsAdmin status (rolesForUser db r.userId) then (db, r.afterCheck) else (db, .countAdmins)
  | .countAdmins =>
    if db.otherAdmins r.userId = 0 then
      (db, .done (.error ⟨400, "the last active admin cannot be disabled or lose the admin role"⟩))
    else (db, r.afterCheck)
  | .selectRoles codes =>
    let rows := plan (db.access.roles.filter fun role => codes.contains role.code && role.enabled)
    if rows.length = codes.length then (db, .deleteRoles (rows.map Role.id))
    else
      let unknown := codes.filter fun code => !(rows.map Role.code).contains code
      (db, .done (.error ⟨400, "unknown or disabled role(s): " ++ ", ".intercalate unknown⟩))
  | .deleteRoles roleIds => (db.deleteUserRoles r.userId, .insertRoles roleIds)
  | .insertRoles [] => (db, .readUser)
  | .insertRoles (roleId :: roleIds) =>
    -- `PRIMARY KEY(user_id, role_id)`
    if (r.userId, roleId) ∈ db.access.userRoles then
      (db, .done (.error ⟨500, "UNIQUE constraint failed: user_roles.user_id, user_roles.role_id"⟩))
    else (db.insertUserRole r.userId roleId, .insertRoles roleIds)
  | .readUser => match db.users.find? (·.id = r.userId) with
    | none => (db, .done (.error (userNotFound r.userId)))
    | some u => (db, .writeUser (r.status.getD u.status))
  | .writeUser status =>
    (db.setUserStatus r.userId status, if status = .active then .reload else .deleteSessions)
  | .deleteSessions => (db.deleteSessions r.userId, .reload)
  | .reload => match db.users.find? (·.id = r.userId) with
    | none => (db, .done (.error (userNotFound r.userId)))
    | some u => (db, .reloadRoles u.status)
  | .reloadRoles status => (db, .done (.ok (status, rolesForUser db r.userId)))
  | .done result => (db, .done result)

/-! ## Requests interleaved -/

/-- A request in progress. -/
abbrev Updating := UserUpdate × UpdatePc

abbrev Updates := Pool AuthDb Updating

/-- A statement of a thread; there is nothing to be met but the database. -/
def updateStatement (plan : List Role → List Role) (db : AuthDb) (p : Updating) (_ : Unit) : AuthDb × Updating :=
  ((advance plan db p.1 p.2).1, (p.1, (advance plan db p.1 p.2).2))

def UpdateStep (plan : List Role → List Role) : Updates → Pool.Event Updating Unit → Updates → Prop :=
  Pool.Step (fun p => p.2 = .getUser) (Pool.ofFun (updateStatement plan))

/-- A request has deleted the user's roles and has still to insert the admin role. -/
def Restoring (w : Updates) (userId : String) : Prop :=
  ∃ p ∈ w.threads, p.1.userId = userId ∧ ∃ roleIds, p.2 = .insertRoles roleIds ∧ roleIds.any w.shared.isAdminRole = true

/-- The user is an active administrator, if only a request gets on with its inserts. -/
def Administers (w : Updates) (userId : String) : Prop :=
  w.shared.isActive userId = true ∧ (w.shared.isAdmin userId = true ∨ Restoring w userId)

/-- The statement may end what makes its user an active administrator: it deletes the roles of a user and will not
insert admin again, it writes another status than active, or it is an insert that fails before that of admin. -/
def Lapses (db : AuthDb) (p : Updating) : Bool :=
  match p.2 with
  | .deleteRoles roleIds => !roleIds.any db.isAdminRole
  | .writeUser status => status ≠ .active
  | .insertRoles (roleId :: roleIds) => (p.1.userId, roleId) ∈ db.access.userRoles && roleIds.any db.isAdminRole
  | _ => false

/-- What `validate_admin_transition` counted is still there: another active administrator. -/
def ChecksHold (w : Updates) : Pool.Event Updating Unit → Prop
  | .start _ => True
  | .act i _ => ∀ p, w.threads[i]? = some p → Lapses w.shared p = true →
    ∃ userId, userId ≠ p.1.userId ∧ Administers w userId

/-- The statements that find their check still true. -/
def CheckedStep (plan : List Role → List Role) (w : Updates) (e : Pool.Event Updating Unit) (w' : Updates) : Prop :=
  UpdateStep plan w e w' ∧ ChecksHold w e

/-! ## What a statement changes -/

variable {plan : List Role → List Role} {db : AuthDb} {r : UserUpdate} {pc : UpdatePc} {w w' : Updates} {userId : String}

theorem AuthDb.isAdmin_iff : db.isAdmin userId = true ↔
    ∃ roleId, (userId, roleId) ∈ db.access.userRoles ∧ db.isAdminRole roleId = true := by
  simp only [AuthDb.isAdmin, List.any_eq_true, Bool.and_eq_true, decide_eq_true_eq]
  constructor
  · rintro ⟨⟨u, roleId⟩, hmem, rfl, hrole⟩
    exact ⟨roleId, hmem, hrole⟩
  · rintro ⟨roleId, hmem, hrole⟩
    exact ⟨(userId, roleId), hmem, rfl, hrole⟩

theorem AuthDb.isAdmin_deleteUserRoles {u : String} (hne : userId ≠ u) (h : db.isAdmin userId = true) :
    (db.deleteUserRoles u).isAdmin userId = true := by
  rw [isAdmin_iff] at h ⊢
  obtain ⟨roleId, hmem, hrole⟩ := h
  refine ⟨roleId, ?_, hrole⟩
  simp [deleteUserRoles, hmem, hne]

theorem AuthDb.isAdmin_insertUserRole {u roleId : String} (h : db.isAdmin userId = true) :
    (db.insertUserRole u roleId).isAdmin userId = true := by
  rw [isAdmin_iff] at h ⊢
  obtain ⟨id, hmem, hrole⟩ := h
  exact ⟨id, List.mem_append_left _ hmem, hrole⟩

theorem AuthDb.isAdmin_inserted {roleId : String} (h : db.isAdminRole roleId = true) :
    (db.insertUserRole userId roleId).isAdmin userId = true := by
  rw [isAdmin_iff]
  exact ⟨roleId, by simp [insertUserRole], h⟩

theorem AuthDb.isActive_iff : db.isActive userId = true ↔ ∃ u ∈ db.users, u.id = userId ∧ u.status = .active := by
  simp [AuthDb.isActive]

theorem AuthDb.isActive_setUserStatus {u : String} {status : UserStatus} (h : db.isActive userId = true)
    (hkeep : userId ≠ u ∨ status = .active) : (db.setUserStatus u status).isActive userId = true := by
  rw [isActive_iff] at h ⊢
  obtain ⟨x, hx, hid, hstatus⟩ := h
  refine ⟨_, List.mem_map_of_mem hx, ?_⟩
  split
  · rename_i heq
    refine ⟨hid, ?_⟩
    rcases hkeep with hne | hactive
    · exact absurd (hid.symm.trans heq) hne
    · exact hactive
  · exact ⟨hid, hstatus⟩

/-- The statements that write roles or users. -/
def UpdatePc.writes : UpdatePc → Bool
  | .deleteRoles _ | .insertRoles _ | .writeUser _ | .deleteSessions => true
  | _ => false

theorem advance_reads (h : pc.writes = false) : (advance plan db r pc).1 = db := by
  cases pc with
  | getUser | readUser | reload | userRoles | countAdmins | selectRoles =>
    simp only [advance]
    split <;> rfl
  | reloadRoles | done => rfl
  | _ => cases h

/-- No statement changes the roles. -/
theorem advance_isAdminRole : (advance plan db r pc).1.isAdminRole = db.isAdminRole := by
  by_cases hw : pc.writes = true
  · cases pc with
    | insertRoles roleIds =>
      cases roleIds with
      | nil => rfl
      | cons id ids =>
        simp only [advance]
        split <;> rfl
    | deleteRoles | writeUser | deleteSessions => rfl
    | _ => cases hw
  · rw [advance_reads (by simpa using hw)]

/-- A statement leaves the users it is not about alone. -/
theorem advance_others (hne : userId ≠ r.userId) : (db.isActive userId = true → (advance plan db r pc).1.isActive userId = true) ∧
      (db.isAdmin userId = true → (advance plan db r pc).1.isAdmin userId = true) := by
  by_cases hw : pc.writes = true
  · cases pc with
    | deleteRoles => exact ⟨id, AuthDb.isAdmin_deleteUserRoles hne⟩
    | insertRoles roleIds =>
      cases roleIds with
      | nil => exact ⟨id, id⟩
      | cons roleId ids =>
        simp only [advance]
        split
        · exact ⟨id, id⟩
        · exact ⟨id, AuthDb.isAdmin_insertUserRole⟩
    | writeUser => exact ⟨fun h => AuthDb.isActive_setUserStatus h (.inl hne), id⟩
    | deleteSessions => exact ⟨id, id⟩
    | _ => cases hw
  · rw [advance_reads (by simpa using hw)]
    exact ⟨id, id⟩

/-! ## Who administers after a statement -/

variable {i : Nat}

theorem mem_set_of_ne {α : Type} {l : List α} {p q p' : α} (hq : q ∈ l) (hp : l[i]? = some p) (hne : q ≠ p) : q ∈ l.set i p' := by
  obtain ⟨j, hj⟩ := List.mem_iff_getElem?.mp hq
  have hij : i ≠ j := by
    rintro rfl
    rw [hp] at hj
    exact hne (Option.some.inj hj).symm
  exact List.mem_iff_getElem?.mpr ⟨j, by rw [List.getElem?_set_ne hij, hj]⟩

theorem mem_set_self {α : Type} {l : List α} {p p' : α} (hp : l[i]? = some p) : p' ∈ l.set i p' := by
  obtain ⟨hlt, -⟩ := List.getElem?_eq_some_iff.mp hp
  exact List.mem_iff_getElem?.mpr ⟨i, by simp [List.getElem?_set_self hlt]⟩

variable {p : Updating}

/-- A request goes on restoring while another makes its statement. -/
theorem Restoring.act {p' : UpdatePc} (hp : w.threads[i]? = some p) {q : Updating}
    (hq : q ∈ w.threads) (hne : q ≠ p) {roleIds : List String} (hpc : q.2 = .insertRoles roleIds)
    (hadmin : roleIds.any w.shared.isAdminRole = true) :
    Restoring ⟨(advance plan w.shared p.1 p.2).1, w.threads.set i (p.1, p')⟩ q.1.userId := by
  refine ⟨q, mem_set_of_ne hq hp hne, rfl, roleIds, hpc, ?_⟩
  rwa [advance_isAdminRole]

theorem Administers.others (hp : w.threads[i]? = some p) {p' : UpdatePc} (hne : userId ≠ p.1.userId) (h : Administers w userId) :
    Administers ⟨(advance plan w.shared p.1 p.2).1, w.threads.set i (p.1, p')⟩ userId := by
  obtain ⟨hactive, hadmin⟩ := h
  refine ⟨(advance_others hne).1 hactive, ?_⟩
  rcases hadmin with hadmin | ⟨q, hq, rfl, roleIds, hpc, hroles⟩
  · exact .inl ((advance_others hne).2 hadmin)
  · refine .inr (Restoring.act hp hq ?_ hpc hroles)
    rintro rfl
    exact hne rfl

/-- What makes the user of the statement an administrator outlives it, unless it lapses. -/
theorem Administers.own (hp : w.threads[i]? = some p) (hkeeps : Lapses w.shared p = false) (h : Administers w p.1.userId) :
    Administers ⟨(advance plan w.shared p.1 p.2).1, w.threads.set i (p.1, (advance plan w.shared p.1 p.2).2)⟩ p.1.userId := by
  obtain ⟨r, pc⟩ := p
  obtain ⟨hactive, hadmin⟩ := h
  -- a restoring request other than this one goes on
  have hother : (∀ roleIds, pc = .insertRoles roleIds → roleIds.any w.shared.isAdminRole = false) → Restoring w r.userId →
      Restoring ⟨(advance plan w.shared r pc).1, w.threads.set i (r, (advance plan w.shared r pc).2)⟩ r.userId := by
    rintro hnot ⟨q, hq, hid, roleIds, hpc, hroles⟩
    rw [← hid]
    refine Restoring.act hp hq ?_ hpc hroles
    rintro rfl
    rw [hnot roleIds hpc] at hroles
    cases hroles
  by_cases hwrites : pc.writes = false
  · rw [advance_reads hwrites] at hother ⊢
    refine ⟨hactive, hadmin.imp_right (hother ?_)⟩
    rintro ids rfl
    cases hwrites
  cases pc with
  | deleteRoles roleIds =>
    refine ⟨hactive, .inr ⟨_, mem_set_self hp, rfl, roleIds, rfl, ?_⟩⟩
    rw [advance_isAdminRole]
    simpa [Lapses] using hkeeps
  | insertRoles roleIds =>
    cases roleIds with
    | nil => exact ⟨hactive, hadmin.imp_right (hother fun ids hids => by cases hids; rfl)⟩
    | cons roleId ids =>
      by_cases hrow : (r.userId, roleId) ∈ w.shared.access.userRoles
      · -- the insert fails: admin is not among the later ones
        have hlater : ids.any w.shared.isAdminRole = false := by simpa [Lapses, hrow] using hkeeps
        simp only [advance, if_pos hrow] at hother ⊢
        refine ⟨hactive, ?_⟩
        by_cases hrole : w.shared.isAdminRole roleId = true
        · exact .inl (AuthDb.isAdmin_iff.mpr ⟨roleId, hrow, hrole⟩)
        · refine hadmin.imp_right (hother ?_)
          intro ids' hids
          obtain rfl := UpdatePc.insertRoles.inj hids
          simpa [hrole] using hlater
      simp only [advance, if_neg hrow] at hother ⊢
      refine ⟨hactive, ?_⟩
      by_cases hrole : w.shared.isAdminRole roleId = true
      · exact .inl (AuthDb.isAdmin_inserted hrole)
      by_cases hlater : ids.any w.shared.isAdminRole = true
      · exact .inr ⟨_, mem_set_self hp, rfl, ids, rfl, hlater⟩
      · refine hadmin.imp AuthDb.isAdmin_insertUserRole (hother ?_)
        intro ids' hids
        obtain rfl := UpdatePc.insertRoles.inj hids
        simpa [hrole] using hlater
  | writeUser status =>
    have hstatus : status = .active := by simpa [Lapses] using hkeeps
    exact ⟨AuthDb.isActive_setUserStatus hactive (.inr hstatus), hadmin.imp_right (hother fun ids hids => by cases hids)⟩
  | deleteSessions => exact ⟨hactive, hadmin.imp_right (hother fun ids hids => by cases hids)⟩
  | _ => exact absurd rfl hwrites

/-- A checked step leaves an administrator. -/
theorem CheckedStep.administers {e : Pool.Event Updating Unit} (hs : CheckedStep plan w e w')
    (h : ∃ userId, Administers w userId) : ∃ userId, Administers w' userId := by
  obtain ⟨hstep, hcheck⟩ := hs
  cases hstep with
  | start hp =>
    obtain ⟨userId, hactive, hadmin⟩ := h
    refine ⟨userId, hactive, hadmin.imp_right ?_⟩
    rintro ⟨q, hq, hrest⟩
    exact ⟨q, List.mem_append_left _ hq, hrest⟩
  | @act i p p' e db' hp hact =>
    obtain ⟨rfl, rfl⟩ := Prod.mk.inj hact
    cases hlapses : Lapses w.shared p with
    | true =>
      obtain ⟨userId, hne, hother⟩ := hcheck p hp hlapses
      exact ⟨userId, hother.others hp hne⟩
    | false =>
      obtain ⟨userId, hadministers⟩ := h
      by_cases hid : userId = p.1.userId
      · subst hid
        exact ⟨_, hadministers.own hp hlapses⟩
      · exact ⟨userId, hadministers.others hp hid⟩

/-- **An administrator remains** in every run in which what the check counted is still there when a statement takes an
administrator away: whenever no request is in progress, some active user has the admin role. -/
theorem admin_remains {tr : List (Pool.Event Updating Unit)} (h : Run (CheckedStep plan) ⟨db, []⟩ tr w)
    (hadmin : db.HasAdmin) (hidle : ∀ p ∈ w.threads, p.2.isDone = true) : w.shared.HasAdmin := by
  obtain ⟨userId, hactive, hadmin⟩ := hadmin
  have hinv : ∃ userId, Administers w userId :=
    h.invariant ⟨userId, hactive, .inl hadmin⟩ fun _ _ _ hI hs => hs.administers hI
  obtain ⟨userId, hactive, hadmin | ⟨p, hp, -, roleIds, hpc, -⟩⟩ := hinv
  · exact ⟨userId, hactive, hadmin⟩
  · have hdone := hidle p hp
    rw [hpc] at hdone
    cases hdone

/-! ## Two administrators -/

/-- The count of `validate_admin_transition`, taken again where it matters. -/
def countsAgain (w : Updates) : Pool.Event Updating Unit → Bool
  | .start _ => true
  | .act i _ => (w.threads[i]?).all fun p => !Lapses w.shared p || w.shared.otherAdmins p.1.userId ≠ 0

theorem ChecksHold.of_count {e : Pool.Event Updating Unit} (h : countsAgain w e = true) : ChecksHold w e := by
  cases e with
  | start => trivial
  | act i e =>
    intro p hp hlapses
    simp only [countsAgain, hp, Option.all_some, hlapses, Bool.not_true, Bool.false_or] at h
    have hcount : w.shared.otherAdmins p.1.userId ≠ 0 := of_decide_eq_true h
    obtain ⟨userId, hmem⟩ := List.exists_mem_of_length_pos (Nat.pos_of_ne_zero hcount)
    simp only [List.mem_dedup, List.mem_map, List.mem_filter, Bool.and_eq_true, decide_eq_true_eq] at hmem
    obtain ⟨u, ⟨hu, ⟨hactive, hadmin⟩, hne⟩, rfl⟩ := hmem
    exact ⟨u.id, hne, AuthDb.isActive_iff.mpr ⟨u, hu, rfl, hactive⟩, .inl hadmin⟩

theorem AuthDb.hasAdmin_iff : db.HasAdmin ↔ (db.users.any fun u => u.status = .active && db.isAdmin u.id) = true := by
  simp only [AuthDb.HasAdmin, isActive_iff, List.any_eq_true, Bool.and_eq_true, decide_eq_true_eq]
  constructor
  · rintro ⟨_, ⟨u, hu, rfl, hactive⟩, hadmin⟩
    exact ⟨u, hu, hactive, hadmin⟩
  · rintro ⟨u, hu, hactive, hadmin⟩
    exact ⟨u.id, ⟨u, hu, rfl, hactive⟩, hadmin⟩

def adminsDb : AuthDb where
  access := { roles := [⟨"r1", "admin", true, true⟩, ⟨"r2", "viewer", true, true⟩], userRoles := [("a", "r1"), ("b", "r1")] }
  users := [⟨"a", "alice", .active, false⟩, ⟨"b", "bob", .active, false⟩]

def disable (userId : String) : Updating := (⟨userId, some .disabled, none⟩, .getUser)

/-- Bob is disabled, by a request that runs alone. -/
def disableBob : List (Pool.Event Updating Unit) := .start (disable "b") :: List.replicate 8 (.act 0 ())

/-- Both are checked before either is disabled. -/
def disableBoth : List (Pool.Event Updating Unit) :=
  [Pool.Event.start (disable "a"), Pool.Event.start (disable "b")] ++ List.replicate 3 (Pool.Event.act 0 ()) ++
    List.replicate 8 (Pool.Event.act 1 ()) ++ List.replicate 5 (Pool.Event.act 0 ())

theorem admin_remains_alice : (Pool.play (updateStatement id) ⟨adminsDb, []⟩ disableBob).shared.HasAdmin := by
  have hrun : Run (fun w e w' => UpdateStep id w e w' ∧ countsAgain w e = true) ⟨adminsDb, []⟩ disableBob
      (Pool.play (updateStatement id) ⟨adminsDb, []⟩ disableBob) := by
    refine Pool.play_run (by simp [Pool.Playable, disableBob, disable]) ?_
    simp only [disableBob, List.replicate, Pool.Along]
    decide +kernel
  have hchecked : Run (CheckedStep id) ⟨adminsDb, []⟩ disableBob _ :=
    hrun.mono fun _ _ _ hs => ⟨hs.1, ChecksHold.of_count hs.2⟩
  exact admin_remains hchecked (AuthDb.hasAdmin_iff.mpr (by decide)) (by decide +kernel)

theorem admin_lost : adminsDb.HasAdmin ∧ ∃ w, Run (UpdateStep id) ⟨adminsDb, []⟩ disableBoth w ∧
    (∀ p ∈ w.threads, p.2.isDone = true) ∧ ¬ w.shared.HasAdmin := by
  refine ⟨AuthDb.hasAdmin_iff.mpr (by decide), Pool.play (updateStatement id) ⟨adminsDb, []⟩ disableBoth, ?_, ?_, ?_⟩
  · have hrun : Run (fun w e w' => UpdateStep id w e w' ∧ True) ⟨adminsDb, []⟩ disableBoth _ :=
      Pool.play_run (by simp [Pool.Playable, disableBoth, disable]) (Pool.along_true _)
    exact hrun.mono fun _ _ _ hs => hs.1
  · decide +kernel
  · rw [AuthDb.hasAdmin_iff]
    decide +kernel

end LingshuGate.AuthStore
