import Mathlib.Data.List.Dedup
import NestApp.Schema

/-!
# `Rbac.Database` — users, roles and permissions, with their foreign keys

The tables of the access-control services. `Rbac` carries the foreign keys of the two join tables as
fields, so a dangling join row cannot be built; the deletes cascade as the schema's `ON DELETE CASCADE`
does. The time stamps of these tables are read by no service and left out.

What a user may do is the relation `Grants`, through both joins; `loadPermissionRules` computes it.
`Change U R` says what a write can change: the roles of the users in `U`, and what the roles in `R`
carry. Each write has one lemma that names its `U` and `R`; whose rights it can change follows from
that (`Change.grants`).
-/

namespace NestApp

open Sql

/-! ## Rows

Columns as in the entities; actions and subjects are the values that the check constraints of
`permissions` admit. -/

inductive PermissionAction where
  | manage | create | read | update | delete
deriving DecidableEq, Repr

def PermissionAction.text : PermissionAction → String
  | .manage => "manage"
  | .create => "create"
  | .read   => "read"
  | .update => "update"
  | .delete => "delete"

inductive PermissionSubject where
  | user | role | permission | notification | metric
deriving DecidableEq, Repr

def PermissionSubject.text : PermissionSubject → String
  | .user         => "User"
  | .role         => "Role"
  | .permission   => "Permission"
  | .notification => "Notification"
  | .metric       => "Metric"

/-- A rule: an action on a subject. `manage` on a subject includes the others only by what CASL makes of
    it. -/
structure PermissionRule where
  action  : PermissionAction
  subject : PermissionSubject
deriving DecidableEq

/-- `` `${action}:${subject}` `` -/
def permissionKey (rule : PermissionRule) : String := rule.action.text ++ ":" ++ rule.subject.text

/-- A row of `roles`. A system role can neither be renamed nor removed by the services. -/
structure Role where
  id          : Uuid
  name        : String
  description : Option String
  isSystem    : Bool
deriving DecidableEq

/-- A row of `permissions`; action and subject together are unique. -/
structure Permission where
  id          : Uuid
  action      : PermissionAction
  subject     : PermissionSubject
  description : Option String
deriving DecidableEq

def Permission.rule (p : Permission) : PermissionRule := ⟨p.action, p.subject⟩

/-- A row of `user_roles`; its key is the pair. -/
structure UserRole where
  userId : Uuid
  roleId : Uuid
deriving DecidableEq

/-- A row of `role_permissions`; its key is the pair. -/
structure RolePermission where
  roleId       : Uuid
  permissionId : Uuid
deriving DecidableEq

instance : Keyed Role Uuid := ⟨Role.id⟩
instance : Keyed Permission Uuid := ⟨Permission.id⟩
instance : Keyed UserRole (Uuid × Uuid) := ⟨fun r => (r.userId, r.roleId)⟩
instance : Keyed RolePermission (Uuid × Uuid) := ⟨fun r => (r.roleId, r.permissionId)⟩

@[simp] theorem key_role (r : Role) : key r = r.id := rfl
@[simp] theorem key_permission (p : Permission) : key p = p.id := rfl
@[simp] theorem key_userRole (r : UserRole) : key r = (r.userId, r.roleId) := rfl
@[simp] theorem key_rolePermission (r : RolePermission) : key r = (r.roleId, r.permissionId) := rfl

/-! ## The database

The foreign keys are fields of the structure, so a table of join rows comes with the proof that both
ends of each row are there. `Grants` is the meaning of these tables, and the only thing most properties
speak about. -/

/-- The tables, with the foreign keys of the join tables. -/
structure Rbac where
  users           : Table User
  roles           : Table Role
  permissions     : Table Permission
  userRoles       : Table UserRole
  rolePermissions : Table RolePermission
  /-- `user_roles.user_id` -/
  userOf       : ∀ r ∈ userRoles.rows, (users.get r.userId).isSome
  /-- `user_roles.role_id` -/
  roleOf       : ∀ r ∈ userRoles.rows, (roles.get r.roleId).isSome
  /-- `role_permissions.role_id` -/
  ownerOf      : ∀ r ∈ rolePermissions.rows, (roles.get r.roleId).isSome
  /-- `role_permissions.permission_id` -/
  permissionOf : ∀ r ∈ rolePermissions.rows, (permissions.get r.permissionId).isSome

namespace Rbac

/-- User `u` has role `r`. -/
def HasRole (db : Rbac) (u r : Uuid) : Prop := ⟨u, r⟩ ∈ db.userRoles.rows

/-- Permission `p` is attached to role `r`. -/
def Attached (db : Rbac) (r p : Uuid) : Prop := ⟨r, p⟩ ∈ db.rolePermissions.rows

/-- Permission `p` is the given rule. -/
def RuleOf (db : Rbac) (p : Uuid) (rule : PermissionRule) : Prop :=
  ∃ row, db.permissions.get p = some row ∧ row.rule = rule

/-- Role `r` carries a rule: one of its permissions is that rule. -/
def Carries (db : Rbac) (r : Uuid) (rule : PermissionRule) : Prop :=
  ∃ p, db.Attached r p ∧ db.RuleOf p rule

instance (db : Rbac) (r : Uuid) (rule : PermissionRule) : Decidable (db.Carries r rule) :=
  decidable_of_iff
    (∃ rp ∈ db.rolePermissions.rows, rp.roleId = r ∧
      (db.permissions.get rp.permissionId).map Permission.rule = some rule)
    ⟨fun ⟨rp, hrp, hr, hrule⟩ => ⟨rp.permissionId, hr ▸ hrp, Option.map_eq_some_iff.mp hrule⟩,
      fun ⟨p, hatt, hrule⟩ => ⟨⟨r, p⟩, hatt, rfl, Option.map_eq_some_iff.mpr hrule⟩⟩

/-- **What a user may do**: the rules reached through `user_roles`, `role_permissions` and
    `permissions`. -/
def Grants (db : Rbac) (u : Uuid) (rule : PermissionRule) : Prop :=
  ∃ r, db.HasRole u r ∧ db.Carries r rule

/-- `loadPermissionRules`: the distinct rules of the inner joins. -/
def loadPermissionRules (db : Rbac) (userId : Uuid) : List PermissionRule :=
  (db.permissions.rows.flatMap fun p =>
    (db.rolePermissions.rows.filter fun rp => rp.permissionId = p.id).flatMap fun rp =>
      (db.userRoles.rows.filter fun ur => ur.roleId = rp.roleId && ur.userId = userId).map
        fun _ => p.rule).dedup

/-- `findUserIdsWithRole` -/
def findUserIdsWithRole (db : Rbac) (roleId : Uuid) : List Uuid :=
  (db.userRoles.rows.filter fun ur => ur.roleId = roleId).map UserRole.userId

/-- `findUserIdsWithPermission` -/
def findUserIdsWithPermission (db : Rbac) (permissionId : Uuid) : List Uuid :=
  (db.userRoles.rows.flatMap fun ur =>
    (db.rolePermissions.rows.filter fun rp => rp.roleId = ur.roleId && rp.permissionId =
      permissionId).map
      fun _ => ur.userId).dedup

variable {db : Rbac} {u r p k : Uuid} {rule : PermissionRule}

/-- **The query computes the relation**: a rule is loaded iff a role of the user has a permission with
    it. -/
theorem mem_loadPermissionRules : rule ∈ db.loadPermissionRules u ↔ db.Grants u rule := by
  simp only [loadPermissionRules, List.mem_dedup, List.mem_flatMap, List.mem_map,
    List.mem_filter, Bool.and_eq_true,
    decide_eq_true_eq]
  constructor
  · rintro ⟨p, hp, rp, ⟨hrp, hperm⟩, ur, ⟨hur, hrole, huser⟩, rfl⟩
    refine ⟨ur.roleId, ?_, p.id, ?_, p, Table.get_of_mem hp, rfl⟩
    · rw [HasRole, ← huser]
      exact hur
    · rw [Attached, hrole, ← hperm]
      exact hrp
  · rintro ⟨r, hrole, p, hatt, row, hrow, rfl⟩
    exact ⟨row, Table.get_mem hrow, ⟨r, p⟩, ⟨hatt, (Table.get_key hrow).symm⟩, ⟨u, r⟩,
      ⟨hrole, rfl, rfl⟩, rfl⟩

theorem mem_findUserIdsWithRole : u ∈ db.findUserIdsWithRole r ↔ db.HasRole u r := by
  simp only [findUserIdsWithRole, List.mem_map, List.mem_filter, decide_eq_true_eq]
  constructor
  · rintro ⟨ur, ⟨hur, rfl⟩, rfl⟩
    exact hur
  · intro h
    exact ⟨⟨u, r⟩, ⟨h, rfl⟩, rfl⟩

theorem mem_findUserIdsWithPermission :
    u ∈ db.findUserIdsWithPermission p ↔ ∃ r, db.HasRole u r ∧ db.Attached r p := by
  simp only [findUserIdsWithPermission, List.mem_dedup, List.mem_flatMap, List.mem_map, List.mem_filter,
    Bool.and_eq_true, decide_eq_true_eq]
  constructor
  · rintro ⟨ur, hur, rp, ⟨hrp, hrole, rfl⟩, rfl⟩
    refine ⟨ur.roleId, hur, ?_⟩
    rw [Attached, ← hrole]
    exact hrp
  · rintro ⟨r, hrole, hatt⟩
    exact ⟨⟨u, r⟩, hrole, ⟨r, p⟩, ⟨hatt, rfl, rfl⟩, rfl⟩

/-! ## Writes

`INSERT` and `UPDATE` ask the unique indexes and answer `none` where one is violated; a `DELETE`
cascades. Each write has to show that the foreign keys still hold, once. -/

/-- The partial unique index on `email` admits the row: no other account in use has its address. -/
def emailFree (db : Rbac) (env : Env) (row : User) : Bool :=
  db.users.rows.all fun u => env.citextLower u.email ≠ env.citextLower row.email || u.deletedAt.isSome

/-- The unique index on `roles.name` admits the row. -/
def nameFree (db : Rbac) (row : Role) : Bool :=
  db.roles.rows.all fun r => r.name ≠ row.name || r.id = row.id

/-- The unique index on `(action, subject)` admits the row. -/
def ruleFree (db : Rbac) (row : Permission) : Bool :=
  db.permissions.rows.all fun p => p.rule ≠ row.rule || p.id = row.id

/-- Store a version of a user. -/
def putUser (db : Rbac) (row : User) : Rbac :=
  { db with
    users  := db.users.put row
    userOf := fun r hr => Table.isSome_put (db.userOf r hr) }

/-- Store a version of a role. -/
def putRole (db : Rbac) (row : Role) : Rbac :=
  { db with
    roles   := db.roles.put row
    roleOf  := fun r hr => Table.isSome_put (db.roleOf r hr)
    ownerOf := fun r hr => Table.isSome_put (db.ownerOf r hr) }

/-- Store a version of a permission. -/
def putPermission (db : Rbac) (row : Permission) : Rbac :=
  { db with
    permissions  := db.permissions.put row
    permissionOf := fun r hr => Table.isSome_put (db.permissionOf r hr) }

/-- `INSERT INTO users` (`none`: a unique index is violated). -/
def insertUser (db : Rbac) (env : Env) (row : User) : Option Rbac :=
  if (db.users.get row.id).isNone ∧ db.emailFree env row then some (db.putUser row) else none

/-- `INSERT INTO roles` -/
def insertRole (db : Rbac) (row : Role) : Option Rbac :=
  if (db.roles.get row.id).isNone ∧ db.nameFree row then some (db.putRole row) else none

/-- `UPDATE roles` -/
def updateRole (db : Rbac) (row : Role) : Option Rbac :=
  if db.nameFree row then some (db.putRole row) else none

/-- `INSERT INTO permissions` -/
def insertPermission (db : Rbac) (row : Permission) : Option Rbac :=
  if (db.permissions.get row.id).isNone ∧ db.ruleFree row then some (db.putPermission row) else none

/-- `DELETE FROM roles`, cascading to both join tables. -/
def deleteRole (db : Rbac) (id : Uuid) : Rbac :=
  { db with
    roles           := db.roles.erase id
    userRoles       := db.userRoles.filter fun r => r.roleId ≠ id
    rolePermissions := db.rolePermissions.filter fun r => r.roleId ≠ id
    userOf          := fun r hr => db.userOf r (Table.mem_filter.mp hr).1
    roleOf := fun r hr => by
      obtain ⟨hmem, hne⟩ := Table.mem_filter.mp hr
      rw [Table.get_erase, if_neg (by simpa using hne)]
      exact db.roleOf r hmem
    ownerOf := fun r hr => by
      obtain ⟨hmem, hne⟩ := Table.mem_filter.mp hr
      rw [Table.get_erase, if_neg (by simpa using hne)]
      exact db.ownerOf r hmem
    permissionOf := fun r hr => db.permissionOf r (Table.mem_filter.mp hr).1 }

/-- `DELETE FROM permissions`, cascading to `role_permissions`. -/
def deletePermission (db : Rbac) (id : Uuid) : Rbac :=
  { db with
    permissions     := db.permissions.erase id
    rolePermissions := db.rolePermissions.filter fun r => r.permissionId ≠ id
    ownerOf         := fun r hr => db.ownerOf r (Table.mem_filter.mp hr).1
    permissionOf := fun r hr => by
      obtain ⟨hmem, hne⟩ := Table.mem_filter.mp hr
      rw [Table.get_erase, if_neg (by simpa using hne)]
      exact db.permissionOf r hmem }

/-- `DELETE FROM user_roles WHERE user_id = userId` -/
def deleteUserRoles (db : Rbac) (userId : Uuid) : Rbac :=
  { db with
    userRoles := db.userRoles.filter fun r => r.userId ≠ userId
    userOf    := fun r hr => db.userOf r (Table.mem_filter.mp hr).1
    roleOf    := fun r hr => db.roleOf r (Table.mem_filter.mp hr).1 }

/-- `DELETE FROM role_permissions WHERE role_id = roleId` -/
def deleteRolePermissions (db : Rbac) (roleId : Uuid) : Rbac :=
  { db with
    rolePermissions := db.rolePermissions.filter fun r => r.roleId ≠ roleId
    ownerOf         := fun r hr => db.ownerOf r (Table.mem_filter.mp hr).1
    permissionOf    := fun r hr => db.permissionOf r (Table.mem_filter.mp hr).1 }

/-- Save one row of `user_roles` (`none`: a foreign key is violated). -/
def insertUserRole (db : Rbac) (userId roleId : Uuid) : Option Rbac :=
  if h : (db.users.get userId).isSome ∧ (db.roles.get roleId).isSome then
    some { db with
      userRoles := db.userRoles.put ⟨userId, roleId⟩
      userOf := fun r hr => by
        rcases Table.mem_put.mp hr with rfl | ⟨hmem, -⟩
        · exact h.1
        · exact db.userOf r hmem
      roleOf := fun r hr => by
        rcases Table.mem_put.mp hr with rfl | ⟨hmem, -⟩
        · exact h.2
        · exact db.roleOf r hmem }
  else none

/-- Save one row of `role_permissions` (`none`: a foreign key is violated). -/
def insertRolePermission (db : Rbac) (roleId permissionId : Uuid) : Option Rbac :=
  if h : (db.roles.get roleId).isSome ∧ (db.permissions.get permissionId).isSome then
    some { db with
      rolePermissions := db.rolePermissions.put ⟨roleId, permissionId⟩
      ownerOf := fun r hr => by
        rcases Table.mem_put.mp hr with rfl | ⟨hmem, -⟩
        · exact h.1
        · exact db.ownerOf r hmem
      permissionOf := fun r hr => by
        rcases Table.mem_put.mp hr with rfl | ⟨hmem, -⟩
        · exact h.2
        · exact db.permissionOf r hmem }
  else none

/-! ## What a write can change

One relation for all writes, with two sets as parameters: the users whose roles may change, and the
roles whose permissions may. A cache entry may become wrong only for somebody these sets reach. -/

/-- Between `db` and `db'` only the users in `U` may gain roles, only they and the holders of a role in
    `R` may lose roles, and only the roles in `R` may carry something else. The rows of the other system
    roles stay. -/
structure Change (U R : Uuid → Prop) (db db' : Rbac) : Prop where
  hasRole : ∀ {u r}, ¬ U u → ¬ R r → (db'.HasRole u r ↔ db.HasRole u r)
  lost    : ∀ {u r}, ¬ U u → db'.HasRole u r → db.HasRole u r
  carries : ∀ {r}, ¬ R r → ∀ rule, db'.Carries r rule ↔ db.Carries r rule
  system  : ∀ {r row}, ¬ R r → db.roles.get r = some row → row.isSystem = true →
    db'.roles.get r = some row

/-- No user, or no role. -/
abbrev Nobody : Uuid → Prop := fun _ => False

namespace Change

variable {U R U' R' : Uuid → Prop} {db' db'' : Rbac}

theorem trans (h : Change U R db db') (h' : Change U R db' db'') : Change U R db db'' where
  hasRole hu hr := (h'.hasRole hu hr).trans (h.hasRole hu hr)
  lost hu hd := h.lost hu (h'.lost hu hd)
  carries hr rule := (h'.carries hr rule).trans (h.carries hr rule)
  system hr hrow hsys := h'.system hr (h.system hr hrow hsys) hsys

theorem mono (h : Change U R db db') (hU : ∀ u, U u → U' u) (hR : ∀ r, R r → R' r) :
    Change U' R' db db' where
  hasRole hu hr := h.hasRole (fun h' => hu (hU _ h')) fun h' => hr (hR _ h')
  lost hu := h.lost fun h' => hu (hU _ h')
  carries hr := h.carries fun h' => hr (hR _ h')
  system hr := h.system fun h' => hr (hR _ h')

/-- **Whose rights a write can change**: those of the users in `U`, and of the holders of a role in
    `R`. -/
theorem grants (h : Change U R db db') (hu : ¬ U u) (hheld : ∀ r, R r → ¬ db.HasRole u r)
    (rule : PermissionRule) :
    db'.Grants u rule ↔ db.Grants u rule := by
  constructor
  · rintro ⟨r, hrole, hrule⟩
    -- a role held after the write was held before it, so it is outside `R`
    have hrole' := h.lost hu hrole
    have hr : ¬ R r := fun hr => hheld r hr hrole'
    exact ⟨r, hrole', (h.carries hr rule).mp hrule⟩
  · rintro ⟨r, hrole, hrule⟩
    have hr : ¬ R r := fun hr => hheld r hr hrole
    exact ⟨r, (h.hasRole hu hr).mpr hrole, (h.carries hr rule).mpr hrule⟩

end Change

theorem change_putUser (row : User) : Change Nobody Nobody db (db.putUser row) where
  hasRole _ _ := .rfl
  lost _ h := h
  carries _ _ := .rfl
  system _ hrow _ := hrow

/-- Writing a role that is not a system role. -/
theorem change_putRole {row : Role} (h : ∀ old, db.roles.get row.id = some old → old.isSystem = false) :
    Change Nobody Nobody db (db.putRole row) where
  hasRole _ _ := .rfl
  lost _ h := h
  carries _ _ := .rfl
  system {r old} _ hold hsys := by
    have hne : r ≠ row.id := by
      rintro rfl
      rw [h old hold] at hsys
      cases hsys
    have hkept : (db.roles.put row).get r = some old := by rw [Table.get_put_of_ne _ _ hne, hold]
    exact hkept

/-- Writing a permission does not change what a role carries, as long as the permission stays the same
    rule: an attached permission has a row. -/
theorem change_putPermission {row : Permission}
    (h : ∀ old, db.permissions.get row.id = some old → old.rule = row.rule) :
    Change Nobody Nobody db (db.putPermission row) where
  hasRole _ _ := .rfl
  lost _ h := h
  carries {r} _ rule := by
    refine exists_congr fun p => and_congr_right fun hatt => ?_
    have hatt : db.Attached r p := hatt
    show (∃ new, (db.permissions.put row).get p = some new ∧ new.rule = rule) ↔ db.RuleOf p rule
    rw [Table.get_put]
    by_cases hp : p = row.id
    · -- the foreign key gives the attached permission a row, so only its rule matters
      obtain ⟨old, hold⟩ := Option.isSome_iff_exists.mp (db.permissionOf _ hatt)
      simp only [hp] at hold ⊢
      simp [RuleOf, hold, h old hold]
    · simp [hp, RuleOf]
  system _ hrow _ := hrow

/-- The cascade filters by the role: the join rows of the others stay. -/
theorem change_deleteRole {id : Uuid} : Change Nobody (· = id) db (db.deleteRole id) where
  hasRole {u r} _ hr := by
    show ⟨u, r⟩ ∈ (db.userRoles.filter fun row => row.roleId ≠ id).rows ↔ db.HasRole u r
    simp [Table.mem_filter, HasRole, show r ≠ id from hr]
  lost _ h := (Table.mem_filter.mp h).1
  carries {r} hr rule := by
    refine exists_congr fun p => and_congr_left fun _ => ?_
    show ⟨r, p⟩ ∈ (db.rolePermissions.filter fun row => row.roleId ≠ id).rows ↔ db.Attached r p
    simp [Table.mem_filter, Attached, show r ≠ id from hr]
  system {r row} hr hrow _ := by
    have hkept : (db.roles.erase id).get r = some row := by rw [Table.get_erase, if_neg hr, hrow]
    exact hkept

theorem insertUser_some {env : Env} {row : User} {db' : Rbac} (h : db.insertUser env row = some db') :
    db.users.get row.id = none ∧ db' = db.putUser row := by
  unfold insertUser at h
  split at h
  · next hfree =>
    cases h
    exact ⟨Option.isNone_iff_eq_none.mp hfree.1, rfl⟩
  · cases h

theorem change_insertRole {row : Role} {db' : Rbac} (h : db.insertRole row = some db') :
    Change Nobody Nobody db db' := by
  unfold insertRole at h
  split at h
  · next hfree =>
    cases h
    exact change_putRole fun old hold => by simp [hold] at hfree
  · cases h

theorem change_updateRole {row : Role} {db' : Rbac} (h : db.updateRole row = some db')
    (hold : ∀ old, db.roles.get row.id = some old → old.isSystem = false) :
      Change Nobody Nobody db db' := by
  unfold updateRole at h
  split at h
  · cases h
    exact change_putRole hold
  · cases h

theorem change_insertPermission {row : Permission} {db' : Rbac}
    (h : db.insertPermission row = some db') :
    Change Nobody Nobody db db' := by
  unfold insertPermission at h
  split at h
  · next hfree =>
    cases h
    exact change_putPermission fun old hold => by simp [hold] at hfree
  · cases h

/-- Deleting a permission reaches, by the cascade, every role it is attached to. -/
theorem change_deletePermission {id : Uuid} :
    Change Nobody (db.Attached · id) db (db.deletePermission id) where
  hasRole _ _ := .rfl
  lost _ h := h
  carries {r} hr rule := by
    refine exists_congr fun p => ?_
    have hatt : (db.deletePermission id).Attached r p ↔ db.Attached r p ∧ p ≠ id := by
      simp [Attached, deletePermission]
    have hne : db.Attached r p → p ≠ id := by
      -- a role outside the reach of the cascade does not have the permission
      rintro h rfl
      exact hr h
    have hrule : p ≠ id → ((db.deletePermission id).RuleOf p rule ↔ db.RuleOf p rule) := by
      intro hp
      simp [RuleOf, deletePermission, Table.get_erase, hp]
    rw [hatt]
    constructor
    · rintro ⟨⟨ha, hp⟩, hr'⟩
      exact ⟨ha, (hrule hp).mp hr'⟩
    · rintro ⟨ha, hr'⟩
      exact ⟨⟨ha, hne ha⟩, (hrule (hne ha)).mpr hr'⟩
  system _ hrow _ := hrow

theorem change_deleteUserRoles {userId : Uuid} :
    Change (· = userId) Nobody db (db.deleteUserRoles userId) where
  hasRole {u r} hu _ := by
    show ⟨u, r⟩ ∈ (db.userRoles.filter fun row => row.userId ≠ userId).rows ↔ db.HasRole u r
    simp [Table.mem_filter, HasRole, show u ≠ userId from hu]
  lost _ h := (Table.mem_filter.mp h).1
  carries _ _ := .rfl
  system _ hrow _ := hrow

theorem change_deleteRolePermissions {roleId : Uuid} :
    Change Nobody (· = roleId) db (db.deleteRolePermissions roleId) where
  hasRole _ _ := .rfl
  lost _ h := h
  carries {r} hr rule := by
    refine exists_congr fun p => and_congr_left fun _ => ?_
    show ⟨r, p⟩ ∈ (db.rolePermissions.filter fun row => row.roleId ≠ roleId).rows ↔ db.Attached r p
    simp [Table.mem_filter, Attached, show r ≠ roleId from hr]
  system _ hrow _ := hrow

theorem change_insertUserRole {db' : Rbac} {userId roleId : Uuid}
    (h : db.insertUserRole userId roleId = some db') :
    Change (· = userId) Nobody db db' := by
  unfold insertUserRole at h
  split at h
  · cases h
    have hiff : ∀ {u r}, u ≠ userId →
      ((⟨u, r⟩ : UserRole) ∈ (db.userRoles.put ⟨userId, roleId⟩).rows ↔ db.HasRole u r) := by
      intro u r hu
      simp [Table.mem_put, HasRole, hu]
    constructor
    · intro u r hu _
      exact hiff hu
    · intro u r hu h
      exact (hiff hu).mp h
    · intro r _ rule
      exact .rfl
    · intro r row _ hrow _
      exact hrow
  · cases h

theorem change_insertRolePermission {db' : Rbac} {roleId permissionId : Uuid}
    (h : db.insertRolePermission roleId permissionId = some db') :
      Change Nobody (· = roleId) db db' := by
  unfold insertRolePermission at h
  split at h
  · cases h
    constructor
    · intro u r _ _
      exact .rfl
    · intro u r _ h
      exact h
    · intro r hr rule
      refine exists_congr fun p => and_congr_left fun _ => ?_
      simp [Attached, Table.mem_put, show r ≠ roleId from hr]
    · intro r row _ hrow _
      exact hrow
  · cases h

theorem userRoles_insertRolePermission {db' : Rbac} {roleId permissionId : Uuid}
    (h : db.insertRolePermission roleId permissionId = some db') : db'.userRoles = db.userRoles := by
  unfold insertRolePermission at h
  split at h
  · cases h
    rfl
  · cases h

end Rbac

end NestApp
