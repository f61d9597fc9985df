import NestApp.Http.App
import NestApp.Lib.Along

/-!
# `Http.Writes` — what each handler can write

A handler behind a permission writes the tables of its subject only (`Within`, `handle_guarded`). The
others need no permission: of the access-control tables, all they write is a new account with the
default role, or the password of the account whose reset link they present (`OpenWrite`,
`handle_open`). Each service has one lemma, by the rules of `Along`.

The handlers are covered one by one, each by the lemma of its service. What is left of them for the
modules on runs are the two statements `handle_guarded` and `handle_open`: a property that every open
write keeps, and that the writes within a table keep, is kept by the application.
-/

namespace NestApp

open Sql Prog

theorem Accounts.insertResetToken_some {s s' : Accounts} {row : PasswordResetToken}
    (h : s.insertResetToken row = some s') :
    ¬ s.resetTokens.Taken PasswordResetToken.tokenHash row.id row.tokenHash ∧
      s' = { s with resetTokens := s.resetTokens.put row } := by
  unfold Accounts.insertResetToken at h
  split at h
  · next hfree =>
    cases h
    exact ⟨hfree.1, rfl⟩
  · cases h

theorem Accounts.world_insertResetToken {s s' : Accounts} {row : PasswordResetToken}
    (h : s.insertResetToken row = some s') :
    s'.world = s.world := by
  obtain ⟨-, rfl⟩ := Accounts.insertResetToken_some h
  rfl

namespace Http

/-! ## The tables a service writes

The parts of the database, and the relation of two databases that agree outside some of them. A delete
reaches further than its own table, by the cascades of the foreign keys. -/

/-- The tables of the access control. -/
inductive Part where
  | users | roles | permissions | userRoles | rolePermissions
deriving DecidableEq

/-- At most the tables named have changed. The others are the same, row by row. -/
structure Within (parts : List Part) (db db' : Rbac) : Prop where
  users           : .users ∉ parts → db'.users = db.users
  roles           : .roles ∉ parts → db'.roles = db.roles
  permissions     : .permissions ∉ parts → db'.permissions = db.permissions
  userRoles       : .userRoles ∉ parts → db'.userRoles = db.userRoles
  rolePermissions : .rolePermissions ∉ parts → db'.rolePermissions = db.rolePermissions

/-- The tables behind a permission. -/
def partsOf : PermissionSubject → List Part
  | .user         => [.users, .userRoles]
  | .role         => [.roles, .userRoles, .rolePermissions]
  | .permission   => [.permissions, .rolePermissions]
  | .notification => []
  | .metric       => []

variable {parts : List Part} {db db' : Rbac}

theorem Within.rfl : Within parts db db :=
  ⟨fun _ => .refl _, fun _ => .refl _, fun _ => .refl _, fun _ => .refl _, fun _ => .refl _⟩

theorem Within.trans {db'' : Rbac} (h : Within parts db db') (h' : Within parts db' db'') :
    Within parts db db'' where
  users hn           := (h'.users hn).trans (h.users hn)
  roles hn           := (h'.roles hn).trans (h.roles hn)
  permissions hn     := (h'.permissions hn).trans (h.permissions hn)
  userRoles hn       := (h'.userRoles hn).trans (h.userRoles hn)
  rolePermissions hn := (h'.rolePermissions hn).trans (h.rolePermissions hn)

section Writes

variable {userId roleId permissionId : Uuid}

theorem within_putUser (h : .users ∈ parts) (row : User) : Within parts db (db.putUser row) :=
  { (Within.rfl : Within parts db db) with users := fun hn => absurd h hn }

theorem within_putRole (h : .roles ∈ parts) (row : Role) : Within parts db (db.putRole row) :=
  { (Within.rfl : Within parts db db) with roles := fun hn => absurd h hn }

theorem within_putPermission (h : .permissions ∈ parts) (row : Permission) :
    Within parts db (db.putPermission row) :=
  { (Within.rfl : Within parts db db) with permissions := fun hn => absurd h hn }

theorem within_deleteUserRoles (h : .userRoles ∈ parts) : Within parts db (db.deleteUserRoles userId) :=
  { (Within.rfl : Within parts db db) with userRoles := fun hn => absurd h hn }

theorem within_deleteRolePermissions (h : .rolePermissions ∈ parts) :
    Within parts db (db.deleteRolePermissions roleId) :=
  { (Within.rfl : Within parts db db) with rolePermissions := fun hn => absurd h hn }

/-- The cascade of a role. -/
theorem within_deleteRole (hroles : .roles ∈ parts) (huser : .userRoles ∈ parts)
    (hrole : .rolePermissions ∈ parts) :
    Within parts db (db.deleteRole roleId) :=
  { (Within.rfl : Within parts db db) with
    roles           := fun hn => absurd hroles hn
    userRoles       := fun hn => absurd huser hn
    rolePermissions := fun hn => absurd hrole hn }

/-- The cascade of a permission. -/
theorem within_deletePermission (hpermissions : .permissions ∈ parts)
    (hrole : .rolePermissions ∈ parts) :
    Within parts db (db.deletePermission permissionId) :=
  { (Within.rfl : Within parts db db) with
    permissions     := fun hn => absurd hpermissions hn
    rolePermissions := fun hn => absurd hrole hn }

/-- An insertion that succeeds writes its own table; so do those below. -/
theorem within_insertUser {env : Env} {row : User} (h : .users ∈ parts)
    (hdb : db.insertUser env row = some db') :
    Within parts db db' := by
  obtain ⟨-, rfl⟩ := Rbac.insertUser_some hdb
  exact within_putUser h row

theorem within_insertRole {row : Role} (h : .roles ∈ parts) (hdb : db.insertRole row = some db') :
    Within parts db db' := by
  unfold Rbac.insertRole at hdb
  split at hdb
  · cases hdb
    exact within_putRole h row
  · cases hdb

theorem within_updateRole {row : Role} (h : .roles ∈ parts) (hdb : db.updateRole row = some db') :
    Within parts db db' := by
  unfold Rbac.updateRole at hdb
  split at hdb
  · cases hdb
    exact within_putRole h row
  · cases hdb

theorem within_insertPermission {row : Permission} (h : .permissions ∈ parts)
    (hdb : db.insertPermission row = some db') :
    Within parts db db' := by
  unfold Rbac.insertPermission at hdb
  split at hdb
  · cases hdb
    exact within_putPermission h row
  · cases hdb

theorem within_insertUserRole (h : .userRoles ∈ parts)
    (hdb : db.insertUserRole userId roleId = some db') :
    Within parts db db' := by
  unfold Rbac.insertUserRole at hdb
  split at hdb
  · cases hdb
    exact { (Within.rfl : Within parts db db) with userRoles := fun hn => absurd h hn }
  · cases hdb

theorem within_insertRolePermission (h : .rolePermissions ∈ parts)
    (hdb : db.insertRolePermission roleId permissionId = some db') : Within parts db db' := by
  unfold Rbac.insertRolePermission at hdb
  split at hdb
  · cases hdb
    exact { (Within.rfl : Within parts db db) with rolePermissions := fun hn => absurd h hn }
  · cases hdb

end Writes

/-- The same, for the states of the services. -/
def Touches (parts : List Part) (w w' : World) : Prop := Within parts w.db w'.db

instance : IsPreorder World (Touches parts) where
  refl _ := Within.rfl
  trans _ _ _ := Within.trans

/-! ## The services

For each method of the access-control services, what it may write. The proofs follow the statements of
the method. -/

section Services

variable {env : Env} {o : Choice}

/-- A single statement, whether it succeeds or not. -/
theorem along_save {f : Rbac → Option Rbac} {e : Failure}
    (hf : ∀ {db db'}, f db = some db' → Within parts db db') :
    Along (Touches parts) (save f e) :=
  Along.of_triple fun _ => save_spec Within.rfl fun _ hdb => hf hdb

theorem along_transaction {α : Type} {body : Service α} (h : Along (Touches parts) body) :
    Along (Touches parts) (transaction body) := Along.transaction h fun _ _ _ => Within.rfl

theorem along_modify {f : Rbac → Rbac} (hf : ∀ db, Within parts db (f db)) :
    Along (Touches parts) (modify fun w => { w with db := f w.db } : Service Unit) :=
      Along.modify fun w => hf w.db

theorem within_foldlM {insert : Rbac → Uuid → Option Rbac}
    (hinsert : ∀ {db id db'}, insert db id = some db' → Within parts db db') (l : List Uuid)
    {db db' : Rbac}
    (h : l.foldlM insert db = some db') : Within parts db db' := by
  induction l generalizing db with
  | nil =>
      cases h
      exact Within.rfl
  | cons id l ih =>
      rw [List.foldlM_cons] at h
      obtain ⟨db₁, hone, hrest⟩ := Option.bind_eq_some_iff.mp h
      exact (hinsert hone).trans (ih hrest)

/-- A replacement writes the join table that its two statements write. -/
theorem along_replaceJoinRows {referenced : Rbac → List Uuid} {delete : Rbac → Rbac}
    {insert : Rbac → Uuid → Option Rbac}
    (ids : List String) (label : String) (hdelete : ∀ db, Within parts db (delete db))
    (hinsert : ∀ {db id db'}, insert db id = some db' → Within parts db db') :
    Along (Touches parts) (replaceJoinRows referenced delete insert ids label) := by
  refine Along.bind (Along.gets _) fun existing => Along.bind (Along.throwIf _ _) fun _ => ?_
  exact Along.bind (along_modify hdelete) fun _ => along_save (within_foldlM hinsert _)

namespace PermissionsService

open NestApp.PermissionsService

/-- A lookup of rules writes the cache, and no table. -/
theorem along_getPermissionRulesForUser (userId : String) :
    Along (Touches parts) (getPermissionRulesForUser userId) := by
  refine Along.bind (Along.modify fun _ => Within.rfl) fun _ =>
    Along.bind (Along.gets _) fun cached => ?_
  cases cached with
  | some rules => exact Along.pure rules
  | none =>
      refine Along.bind (Along.gets _) fun rules => ?_
      exact Along.bind (Along.modify fun _ => Within.rfl) fun _ => Along.pure rules

theorem along_invalidateUsers (userIds : List Uuid) : Along (Touches parts) (invalidateUsers userIds) :=
  Along.modify fun _ => Within.rfl

theorem along_invalidateUser (userId : String) : Along (Touches parts) (invalidateUser userId) :=
  Along.modify fun _ => Within.rfl

theorem along_createPermission (input : CreatePermissionInput) :
    Along (Touches (partsOf .permission)) (createPermission o input) := by
  refine Along.bind (Along.bind (Along.gets _) fun _ => Along.throwIf _ _) fun _ => ?_
  exact Along.bind (Along.mapError (along_save (within_insertPermission (by decide))))
    fun _ => Along.pure _

theorem along_updatePermission (id : String) (description : Option String) :
    Along (Touches (partsOf .permission)) (updatePermission id description) := by
  refine Along.bind (Along.gets _) fun _ => Along.bind (Along.orThrow _ _) fun _ => ?_
  exact Along.bind (along_modify fun _ => within_putPermission (by decide) _) fun _ => Along.pure _

/-- A permission is removed with its join rows. -/
theorem along_removePermission (id : String) :
    Along (Touches (partsOf .permission)) (removePermission id) := by
  refine Along.bind (Along.gets _) fun _ => Along.bind (Along.orThrow _ _) fun _ =>
    Along.bind (Along.gets _) fun userIds => ?_
  exact Along.bind (along_modify fun _ => within_deletePermission (by decide) (by decide)) fun _ =>
    along_invalidateUsers userIds

end PermissionsService

namespace RolesService

open NestApp.RolesService

theorem along_getOrThrow (id : String) : Along (Touches parts) (getOrThrow id) :=
  Along.bind (Along.gets _) fun _ => Along.orThrow _ _

theorem along_create (dto : CreateRoleDto) : Along (Touches (partsOf .role)) (create o dto) := by
  refine Along.bind (Along.gets _) fun _ => Along.bind (Along.throwIf _ _) fun _ => ?_
  exact Along.bind (Along.mapError (along_save (within_insertRole (by decide)))) fun _ =>
    along_getOrThrow _

theorem along_rename (role : Role) (name : Option (Option String)) :
    Along (Touches parts) (rename role name) := by
  unfold rename
  split
  · exact Along.pure role
  · exact Along.throw _
  · split
    · exact Along.pure role
    · exact Along.bind (Along.gets _) fun _ => Along.bind (Along.throwIf _ _) fun _ => Along.pure _

theorem along_update (id : String) (dto : UpdateRoleDto) :
    Along (Touches (partsOf .role)) (update id dto) := by
  refine Along.bind (along_getOrThrow id) fun role => Along.bind (Along.throwIf _ _) fun _ => ?_
  refine Along.bind (along_rename role dto.name) fun renamed => ?_
  exact Along.bind (Along.mapError (along_save (within_updateRole (by decide)))) fun _ =>
    along_getOrThrow id

/-- A role is removed with its join rows, on both of its sides. -/
theorem along_remove (id : String) : Along (Touches (partsOf .role)) (remove id) := by
  refine Along.bind (along_getOrThrow id) fun role => Along.bind (Along.throwIf _ _) fun _ => ?_
  refine Along.bind (Along.gets _) fun userIds => ?_
  exact Along.bind (along_modify fun _ => within_deleteRole (by decide) (by decide) (by decide)) fun _ =>
    PermissionsService.along_invalidateUsers userIds

theorem along_setPermissions (id : String) (permissionIds : List String) :
    Along (Touches (partsOf .role)) (setPermissions id permissionIds) := by
  refine Along.bind (along_getOrThrow id) fun role => Along.bind (Along.throwIf _ _) fun _ => ?_
  have hreplace : Along (Touches (partsOf .role)) (replacePermissions role.id permissionIds) :=
    along_transaction (along_replaceJoinRows _ _ (fun _ => within_deleteRolePermissions (by decide))
      (within_insertRolePermission (by decide)))
  refine Along.bind hreplace fun _ => Along.bind (Along.gets _) fun userIds => ?_
  exact Along.bind (PermissionsService.along_invalidateUsers userIds) fun _ => along_getOrThrow id

end RolesService

namespace UsersService

open NestApp.UsersService

theorem along_findWithRolesOrFail (id : String) : Along (Touches parts) (findWithRolesOrFail id) :=
  Along.bind (Along.gets _) fun _ => Along.orThrow _ _

theorem along_assignRoles (h : .userRoles ∈ parts) (userId : String) (roleIds : List String) :
    Along (Touches parts) (assignRoles userId roleIds) :=
  along_replaceJoinRows _ _ (fun _ => within_deleteUserRoles h) (within_insertUserRole h)

theorem along_assignFirstRoles (h : .userRoles ∈ parts) (userId : Uuid) (roleIds : List String) :
    Along (Touches parts) (assignFirstRoles userId roleIds) := by
  unfold assignFirstRoles
  split
  · exact along_assignRoles h userId.text roleIds
  · refine Along.bind (Along.gets _) fun _ => Along.bind (Along.orThrow _ _) fun role => ?_
    exact along_save (within_insertUserRole h)

theorem along_create (dto : CreateUserDto) : Along (Touches (partsOf .user)) (create env o dto) := by
  refine Along.bind (Along.gets _) fun _ => Along.bind (Along.throwIf _ _) fun _ => ?_
  have hcreate : ∀ row roleIds,
    Along (Touches (partsOf .user)) (createUserInTransaction env row roleIds) :=
    fun row roleIds => along_transaction
      (Along.bind (along_save (within_insertUser (by decide))) fun _ =>
      Along.bind (along_assignFirstRoles (by decide) row.id roleIds) fun _ => Along.pure row)
  exact Along.bind (Along.mapError (hcreate _ _)) fun user => along_findWithRolesOrFail user.id.text

theorem along_update (id : String) (dto : UpdateUserDto) (actingUserId : Option String) :
    Along (Touches (partsOf .user)) (update o id dto actingUserId) := by
  refine Along.bind (Along.throwIf _ _) fun _ => Along.bind (along_findWithRolesOrFail id) fun row => ?_
  refine Along.bind (Along.orThrow _ _) fun user => ?_
  exact Along.bind (along_modify fun _ => within_putUser (by decide) _) fun _ =>
    along_findWithRolesOrFail id

theorem along_setRoles (h : .userRoles ∈ parts) (userId : String) (roleIds : List String) :
    Along (Touches parts) (setRoles userId roleIds) := by
  refine Along.bind (along_transaction (along_assignRoles h userId roleIds)) fun _ => ?_
  exact Along.bind (PermissionsService.along_invalidateUser userId) fun _ =>
    along_findWithRolesOrFail userId

end UsersService

end Services

/-! ## Requests without a permission

Registration, login, refresh, logout and the two requests about passwords. Their writes are listed, and
a request makes a sequence of them. -/

/-- The person of an account: everything but the password. -/
def SamePerson (row row' : User) : Prop :=
  row' = { row with passwordHash := row'.passwordHash, updatedAt := row'.updatedAt }

/-- **What needs no permission**: accounts may be new, and passwords set; what was there otherwise
    stays, the roles of every account included. -/
structure PublicChange (db db' : Rbac) : Prop where
  roles           : db'.roles = db.roles
  permissions     : db'.permissions = db.permissions
  rolePermissions : db'.rolePermissions = db.rolePermissions
  userRoles       : ∀ u r, (db.users.get u).isSome → (db'.HasRole u r ↔ db.HasRole u r)
  users           : ∀ u row, db.users.get u = some row → ∃ row', db'.users.get u = some row' ∧
    SamePerson row row'

theorem PublicChange.rfl : PublicChange db db :=
  ⟨.refl _, .refl _, .refl _, fun _ _ _ => .rfl, fun _ row h => ⟨row, h, .refl row⟩⟩

theorem PublicChange.trans {db'' : Rbac} (h : PublicChange db db') (h' : PublicChange db' db'') :
    PublicChange db db'' where
  roles           := h'.roles.trans h.roles
  permissions     := h'.permissions.trans h.permissions
  rolePermissions := h'.rolePermissions.trans h.rolePermissions
  userRoles u r hu := by
    obtain ⟨row, hrow⟩ := Option.isSome_iff_exists.mp hu
    obtain ⟨row', hrow', -⟩ := h.users u row hrow
    exact (h'.userRoles u r (Option.isSome_iff_exists.mpr ⟨row', hrow'⟩)).trans (h.userRoles u r hu)
  users u row hrow := by
    obtain ⟨row', hrow', hsame⟩ := h.users u row hrow
    obtain ⟨row'', hrow'', hsame'⟩ := h'.users u row' hrow'
    refine ⟨row'', hrow'', ?_⟩
    rw [SamePerson] at hsame hsame' ⊢
    rw [hsame', hsame]

/-- Nothing is written. -/
theorem Within.publicChange (h : Within [] db db') : PublicChange db db' where
  roles           := h.roles (by decide)
  permissions     := h.permissions (by decide)
  rolePermissions := h.rolePermissions (by decide)
  userRoles u r _ := by rw [Rbac.HasRole, h.userRoles (by decide), Rbac.HasRole]
  users u row hrow := by
    rw [h.users (by decide)]
    exact ⟨row, hrow, .refl row⟩

/-- A password is set. -/
theorem publicChange_withPassword {row : User} (hrow : db.users.get row.id = some row)
    (passwordHash : String) (now : Nat) :
    PublicChange db (db.putUser (ResetPassword.withPassword passwordHash now row)) :=
  { (PublicChange.rfl : PublicChange db db) with
    users := fun u old hold => by
      show ∃ row', (db.users.put (ResetPassword.withPassword passwordHash now row)).get u = some row' ∧ _
      rw [Table.get_put]
      split
      · next hu =>
        obtain rfl : u = row.id := hu
        obtain rfl : row = old := Option.some.inj (hrow.symm.trans hold)
        exact ⟨_, rfl, rfl⟩
      · exact ⟨old, hold, .refl old⟩ }

/-- The account inserted, with the role it is given. -/
structure Registered (env : Env) (row : User) (w w' : World) : Prop where
  new   : w.db.users.get row.id = none
  free  : w.db.emailFree env row = true
  given : ∃ role db', w.db.roles.find? (fun r => r.name = "user") = some role ∧
    (w.db.putUser row).insertUserRole row.id role.id = some db' ∧ w' = { w with db := db' }

theorem emailFree_of_insertUser {env : Env} {row : User} (h : db.insertUser env row = some db') :
    db.emailFree env row = true := by
  unfold Rbac.insertUser at h
  split at h
  · next hfree => exact hfree.2
  · cases h

/-- Where it succeeds, the account has been registered; where it fails, nothing has been written. -/
theorem createWithDefaultRole_registers (env : Env) (fault : Option DbCall) (row : User) (w : World) :
    Triple (· = w) (NestApp.UsersService.createWithDefaultRole env fault row)
      (fun user w' => user = row ∧ Registered env row w w') (· = w) := by
  refine transaction_spec ?_
  refine statement_single ⟨rfl, rfl⟩ fun _ => Triple.return_single ?_
  refine statement_single ⟨rfl, rfl⟩ fun _ => save_single ⟨rfl, rfl⟩ fun db hdb => ?_
  refine statement_single ⟨rfl, rfl⟩ fun _ =>
    Triple.gets_single (Triple.orThrow_single ⟨rfl, rfl⟩ fun role hrole => ?_)
  refine statement_single ⟨rfl, rfl⟩ fun _ => Triple.return_single ?_
  refine statement_single ⟨rfl, rfl⟩ fun _ => save_single ⟨rfl, rfl⟩ fun db' hdb' => ?_
  refine statement_single ⟨rfl, rfl⟩ fun _ => Triple.return_single ?_
  obtain ⟨hnew, rfl⟩ := Rbac.insertUser_some hdb
  exact Triple.pure_single ⟨rfl, hnew, emailFree_of_insertUser hdb, role, db', hrole, hdb', rfl⟩

/-- The rows of `user_roles` after one is saved. -/
theorem hasRole_insertUserRole {userId roleId u r : Uuid}
    (h : db.insertUserRole userId roleId = some db') :
    db'.HasRole u r ↔ (u = userId ∧ r = roleId) ∨ db.HasRole u r := by
  unfold Rbac.insertUserRole at h
  split at h
  · cases h
    show (⟨u, r⟩ : UserRole) ∈ (db.userRoles.put ⟨userId, roleId⟩).rows ↔ _
    rw [Table.mem_put, UserRole.mk.injEq, key_userRole, key_userRole, ne_eq, Prod.mk.injEq, Rbac.HasRole]
    by_cases heq : u = userId ∧ r = roleId <;> simp [heq]
  · cases h

/-- The role of a new account, and of nobody else. -/
theorem Registered.hasRole {env : Env} {row : User} {w w' : World} (h : Registered env row w w')
    {u r : Uuid} :
    w'.db.HasRole u r ↔ w.db.HasRole u r ∨
      (u = row.id ∧ ∃ role, w.db.roles.find? (fun r => r.name = "user") = some role ∧ r = role.id) := by
  obtain ⟨-, -, role, db', hrole, hdb', rfl⟩ := h
  rw [hasRole_insertUserRole hdb', hrole]
  show _ ∨ w.db.HasRole u r ↔ _
  simp only [Option.some.injEq, exists_eq_left']
  exact Or.comm

theorem Registered.users {env : Env} {row : User} {w w' : World} (h : Registered env row w w') :
    w'.db.users = w.db.users.put row := by
  obtain ⟨-, -, role, db', -, hdb', rfl⟩ := h
  have hwithin : Within [.userRoles] _ _ := within_insertUserRole (by decide) hdb'
  exact hwithin.users (by decide)

theorem Registered.within {env : Env} {row : User} {w w' : World} (h : Registered env row w w') :
    Within (partsOf .user) w.db w'.db := by
  obtain ⟨-, -, role, db', -, hdb', rfl⟩ := h
  exact (within_putUser (by decide) row).trans (within_insertUserRole (by decide) hdb')

/-- A registration is a public change: the account is new, and its role goes to nobody else. -/
theorem Registered.publicChange {env : Env} {row : User} {w w' : World} (h : Registered env row w w') :
    PublicChange w.db w'.db where
  roles           := h.within.roles (by decide)
  permissions     := h.within.permissions (by decide)
  rolePermissions := h.within.rolePermissions (by decide)
  userRoles u r hu := by
    rw [h.hasRole, or_iff_left]
    -- the account that gains a role had no row
    rintro ⟨rfl, -⟩
    rw [h.new] at hu
    cases hu
  users u old hold := by
    have hne : u ≠ row.id := Table.ne_of_get_none hold h.new
    rw [h.users, Table.get_put_of_ne _ _ hne]
    exact ⟨old, hold, .refl old⟩

/-- The token of a reset link. -/
def Route.presentedLink : Route → Option String
  | .resetPassword dto => some dto.token
  | _                  => none

/-- One write of a request without a permission; `link` is the reset token the request presents.
    Accounts are registered, sessions written, links used up, issued and mailed, and a password is
    set. -/
inductive OpenWrite (env : Env) (link : Option String) (s : Accounts) : Accounts → Prop where
  | registered {row : User} {w' : World} (h : Registered env row s.world w') :
      OpenWrite env link s { s with world := w' }
  | sessions (refreshTokens : Table RefreshToken) :
      OpenWrite env link s { s with refreshTokens := refreshTokens }
  | linksUsed (userId : Uuid) (now : Nat) : OpenWrite env link s (s.useLinks userId now)
  | linkIssued {row : PasswordResetToken} {s' : Accounts}
      (h : s.insertResetToken row = some s') : OpenWrite env link s s'
  /-- the token of a link, to the address of its account -/
  | mailed {record : PasswordResetToken} {user : User} {token : String}
      (hrecord : record ∈ s.resetTokens.rows)
      (hhash : record.tokenHash = env.hashToken token)
      (huser : s.world.db.users.get record.userId = some user) :
      OpenWrite env link s { s with
        mailQueue := MailService.enqueue s.mailQueue (MailService.job env user.email token) }
  /-- the password of the account whose link is presented -/
  | password {record : PasswordResetToken} {user : User} {token : String}
      (hlink : link = some token) (hrecord : record ∈ s.resetTokens.rows)
      (hhash : record.tokenHash = env.hashToken token) (hunused : record.usedAt = none)
      (huser : s.world.db.users.get record.userId = some user) (hlive : user.deletedAt = none)
      (passwordHash : String) (now : Nat) :
      OpenWrite env link s { s.putUser (ResetPassword.withPassword passwordHash now user) with
        resetTokens := s.resetTokens.put (markUsed now record) }

/-- **What a request without a permission writes**: accounts registered, sessions and reset links, and
    the password of an account whose link it presents, one after the other. The cache is not written. -/
def Open (env : Env) (link : Option String) : Accounts → Accounts → Prop :=
  Relation.ReflTransGen (OpenWrite env link)

variable {env : Env} {link : Option String}

instance : IsPreorder Accounts (Open env link) where
  refl _ := .refl
  trans _ _ _ := Relation.ReflTransGen.trans

/-- Every open write is a public change. This is all that `complete_mediation` says of them. -/
theorem OpenWrite.publicChange {s s' : Accounts} (h : OpenWrite env link s s') :
    PublicChange s.world.db s'.world.db := by
  cases h with
  | registered h => exact h.publicChange
  | sessions | linksUsed | mailed => exact .rfl
  | linkIssued h =>
      rw [Accounts.world_insertResetToken h]
      exact .rfl
  | password _ _ _ _ huser =>
      refine publicChange_withPassword ?_ _ _
      have hid : _ = _ := Table.get_key huser
      rwa [← hid] at huser

/-- What every such write keeps to, and what composes, a request keeps to. -/
theorem Open.fold {R : Accounts → Accounts → Prop} [IsPreorder Accounts R]
    (hR : ∀ s s', OpenWrite env link s s' → R s s')
    {s s' : Accounts} (h : Open env link s s') : R s s' := by
  induction h with
  | refl => exact refl_of R _
  | tail _ hone ih => exact trans_of R ih (hR _ _ hone)

theorem Open.publicChange {s s' : Accounts} (h : Open env link s s') :
    PublicChange s.world.db s'.world.db := by
  have _ : IsPreorder Accounts fun s s' => PublicChange s.world.db s'.world.db :=
    { refl := fun _ => .rfl
      trans := fun _ _ _ => .trans }
  exact h.fold (R := fun s s' => PublicChange s.world.db s'.world.db) fun _ _ hone => hone.publicChange

section Flows

variable {o oSession : Choice} {fault : Option DbCall} {metadata : SessionMetadata}
  {α : Type} {s s' : Accounts}

/-- Only sessions are written. -/
def Sessions (s s' : Accounts) : Prop := s' = { s with refreshTokens := s'.refreshTokens }

instance : IsPreorder Accounts Sessions where
  refl _ := rfl
  trans s s' s'' h h' := by
    unfold Sessions at h h' ⊢
    rw [h', h]

theorem Sessions.open (h : Sessions s s') : Open env link s s' := by
  rw [h]
  exact .single (.sessions _)

theorem along_sessions {m : AccountService α} (h : Along Sessions m) : Along (Open env link) m :=
  h.mono fun _ _ => Sessions.open

theorem along_accountTransaction {body : AccountService α} (h : Along Sessions body) :
    Along Sessions (accountTransaction body) :=
  Along.transaction h fun s s' hsessions => by
    unfold Sessions at hsessions ⊢
    rw [hsessions]

theorem along_insertRefreshToken (row : RefreshToken) :
    Along Sessions (insertRow fault .insertRefreshToken (·.insertRefreshToken row)) := by
  intro s
  by_cases h : fault = some .insertRefreshToken ∨ s.insertRefreshToken row = none
  · obtain ⟨e, hrun⟩ := insertRow_fails (·.insertRefreshToken row) h
    rw [hrun]
    exact refl_of Sessions s
  · obtain ⟨hfault, hinserted⟩ := not_or.mp h
    obtain ⟨s', hs'⟩ := Option.ne_none_iff_exists'.mp hinserted
    rw [insertRow_done hfault hs']
    unfold Accounts.insertRefreshToken at hs'
    split at hs'
    · cases hs'
      exact rfl
    · cases hs'

theorem along_createSession (user : User) :
    Along Sessions (AuthService.createSession env o fault user metadata) :=
  Along.bind (along_insertRefreshToken _) fun _ => Along.pure _

/-- What is only read. -/
theorem along_findByEmail (email : String) :
    Along Sessions (onWorld (statement fault .findByEmail
      (NestApp.UsersService.findByEmail env email))) := by
  have hfind : Along (Eq : World → World →
    Prop) (statement fault .findByEmail (NestApp.UsersService.findByEmail env email)) := by
    unfold statement
    split
    · exact Along.throw _
    · exact Along.gets _
  refine Along.zoom hfind ?_
  rintro s w rfl
  exact rfl

/-- A registration makes an account, and then a session; the second may fail. -/
theorem along_register (dto : RegisterDto) :
    Along (Open env link) (AuthService.register env o oSession fault dto metadata) := by
  refine Along.bind (along_sessions (along_findByEmail _)) fun existing =>
    Along.bind (Along.throwIf _ _) fun _ => ?_
  have hcreate : Along (fun w w' => w' = w ∨ ∃ row, Registered env row w w')
      (NestApp.UsersService.createWithDefaultRole env fault (Session.newUser env o dto)) := by
    refine Along.of_triple fun w =>
      Triple.conseq (createWithDefaultRole_registers env fault _ w) (fun _ h => h) ?_ ?_
    · rintro user w' ⟨-, h⟩
      exact .inr ⟨_, h⟩
    · intro w' h
      exact .inl h
  refine Along.bind (Along.zoom (Along.mapError hcreate) ?_) fun user =>
    along_sessions (along_createSession user)
  rintro s w' (rfl | ⟨row, h⟩)
  · exact .refl
  · exact .single (.registered h)

theorem along_login (dto : LoginDto) : Along Sessions (AuthService.login env o dto metadata) := by
  have hfind : Along Sessions (onWorld (statement none .findByEmail
      (NestApp.UsersService.findByEmail env (normalizeEmail env dto.email)))) := along_findByEmail _
  refine Along.bind hfind fun found => Along.bind (Along.orThrow _ _) fun user => ?_
  exact Along.bind (Along.throwIf _ _) fun _ => Along.bind (Along.throwIf _ _) fun _ =>
    along_createSession user

theorem along_refresh (cookie : Option String) :
    Along Sessions (AuthService.refresh env o cookie metadata) := by
  have htokens : ∀ f : Accounts → Accounts, (∀ s, Sessions s (f s)) →
    Along Sessions (modify f : AccountService Unit) :=
    fun f hf => Along.modify hf
  have hjudge : ∀ p, Along Sessions (AuthService.judge env o p) := by
    intro p
    unfold AuthService.judge
    split
    · exact Along.bind (htokens _ fun _ => rfl) fun _ => Along.pure _
    · split
      · exact Along.bind (htokens _ fun _ => rfl) fun _ => Along.pure _
      · refine Along.bind (Along.gets _) fun owner => ?_
        split
        · exact Along.pure _
        · refine Along.bind (along_insertRefreshToken _) fun _ => ?_
          exact Along.bind (htokens _ fun _ => rfl) fun _ => Along.pure _
  have hanswer : ∀ outcome, Along Sessions (AuthService.answer outcome) := by
    intro outcome
    unfold AuthService.answer
    split
    · exact Along.pure _
    · exact Along.throw _
  unfold AuthService.refresh
  split
  · exact Along.throw _
  · exact Along.throw _
  · refine Along.bind (along_accountTransaction (Along.bind (Along.gets _) fun found => ?_)) hanswer
    split
    · exact Along.pure _
    · exact hjudge _

theorem along_logout (cookie : Option String) : Along Sessions (AuthService.logout env o cookie) := by
  unfold AuthService.logout
  split
  · exact Along.pure _
  · exact Along.pure _
  · refine Along.bind (Along.gets _) fun found => ?_
    split
    · exact Along.pure _
    · exact Along.modify fun _ => rfl

/-- A link is issued, then mailed to the address of its account. -/
theorem issueLink_open (driver : MailDriver) (queueAccepts : Bool) {user : User}
    (huser : s.world.db.users.get user.id = some user) :
    Open env link s (AuthService.issueLink env driver o queueAccepts fault user metadata s).2 := by
  refine Triple.final (P := (· = s)) (E := Open env link s) ?_ rfl
  refine statement_single .refl fun _ => Triple.modify_single ?_
  have hused : Open env link s (s.useLinks user.id o.now) := .single (.linksUsed _ _)
  refine statement_single hused fun _ => ?_
  simp only [bind_assoc]
  refine Triple.gets_single (Triple.orThrow_single hused fun s' hs' => Triple.modify_single ?_)
  have hissued : Open env link s s' := hused.tail (.linkIssued hs')
  have hlink : ForgotPassword.newToken env o user metadata ∈ s'.resetTokens.rows := by
    obtain ⟨-, rfl⟩ := Accounts.insertResetToken_some hs'
    exact Table.mem_put.mpr (.inl rfl)
  unfold MailService.sendPasswordReset
  cases driver with
  | console => exact Triple.pure_single hissued
  | smtp =>
      rintro _ rfl
      cases queueAccepts with
      | false => exact hissued
      | true => exact hissued.tail (.mailed hlink rfl (by rwa [Accounts.world_insertResetToken hs']))

/-- A request for a link: the older links, the new one, and the mail. -/
theorem along_forgotPassword (driver : MailDriver) (queueAccepts : Bool) (dto : ForgotPasswordDto) :
    Along (Open env link) (AuthService.forgotPassword env driver o queueAccepts fault dto metadata) := by
  intro s
  by_cases hfault : fault = some .findByEmail
  · rw [AuthService.forgotPassword_unread driver o queueAccepts metadata hfault]
    exact .refl
  · cases howner : AuthService.linkOwner env dto s.world with
    | none =>
        rw [AuthService.forgotPassword_silent driver o queueAccepts metadata hfault howner]
        exact .refl
    | some user =>
        rw [AuthService.forgotPassword_issues driver o queueAccepts metadata hfault howner]
        obtain ⟨hfound, -⟩ := Option.filter_eq_some_iff.mp howner
        exact issueLink_open driver queueAccepts (Table.get_of_mem (Table.find?_some hfound).1)

/-- The link presented opens the account: it is unused and runs still, and its account is active. These
    are the checks of `resetPassword`, on the row of the link. -/
structure Opens (env : Env) (now : Nat) (token : String) (s : Accounts) (record : PasswordResetToken)
    (user : User) : Prop where
  stored : record ∈ s.resetTokens.rows
  hash   : record.tokenHash = env.hashToken token
  unused : record.usedAt = none
  runs   : ¬ record.expiresAt < now
  owner  : s.world.db.users.get record.userId = some user
  live   : user.deletedAt = none
  active : user.status = .active

/-- The tables once a password is set: the link is used up, and every session of the account ends. -/
def reset (passwordHash : String) (now : Nat) (record : PasswordResetToken) (user : User)
    (s : Accounts) : Accounts :=
  Accounts.revokeTokens { s.putUser (ResetPassword.withPassword passwordHash now user) with
    resetTokens := s.resetTokens.put (markUsed now record) } user.id now

/-- A reset writes nothing, or the password of the account whose link is presented. -/
theorem resetPassword_cases (dto : ResetPasswordDto) :
    (AuthService.resetPassword env o dto s).2 = s ∨
      ∃ record user, Opens env o.now dto.token s record user ∧
      (AuthService.resetPassword env o dto s).2 =
        reset (env.hashPassword o.salt dto.newPassword) o.now record user s := by
  refine Triple.final (P := (· = s)) (E := fun s' => s' = s ∨
    ∃ record user, Opens env o.now dto.token s record user ∧
    s' = reset (env.hashPassword o.salt dto.newPassword) o.now record user s) ?_ rfl
  -- nothing is thrown after the first write
  refine Triple.transaction s ?_ fun s' (hs' : s' = s) => ?_
  · refine Triple.gets_single
      (Triple.orThrow_single rfl fun record hrecord => Triple.throwIf_single rfl fun hvalid => ?_)
    refine Triple.gets_single
      (Triple.orThrow_single rfl fun user huser => Triple.throwIf_single rfl fun hactive => ?_)
    refine Triple.modify_single
      (Triple.modify_single (Triple.modify fun s' hs' => .inr ⟨record, user, ?_, ?_⟩))
    · obtain ⟨hmem, hhash⟩ := Table.find?_some hrecord
      obtain ⟨hget, hlive⟩ := Option.filter_eq_some_iff.mp huser
      have hunused : record.usedAt = none := by
        by_contra hused
        exact hvalid (.inl (Option.isSome_iff_ne_none.mpr hused))
      exact ⟨hmem, of_decide_eq_true hhash, hunused, fun hexpired => hvalid (.inr hexpired), hget,
        Option.isNone_iff_eq_none.mp hlive, not_not.mp hactive⟩
    · subst hs'
      rfl
  · subst hs'
    exact .inl rfl

/-- A reset: the link presented, the password, and the sessions of the account. -/
theorem along_resetPassword (dto : ResetPasswordDto) :
    Along (Open env (some dto.token)) (AuthService.resetPassword env o dto) := by
  intro s
  rcases resetPassword_cases dto with hsame | ⟨record, user, hopens, hwritten⟩
  · rw [hsame]
    exact .refl
  · rw [hwritten]
    exact .tail (.single (.password rfl hopens.stored hopens.hash hopens.unused hopens.owner
      hopens.live _ _)) (.sessions _)

end Flows

/-! ## The handlers

Each route, put to the lemma of its service: with a permission, or without. -/

section Handlers

variable {app : App} {x : Draw} {actor : Option User} {metadata : SessionMetadata}

theorem along_sessionBody {R : Accounts → Accounts → Prop} [IsPreorder Accounts R]
    (withRoles : Bool) (refreshToken : String)
    (userId : Uuid) : Along R (sessionBody withRoles refreshToken userId) :=
  Along.bind (Along.gets _) fun _ => Along.bind (Along.orThrow _ _) fun _ => Along.pure _

/-- **A handler without a permission** makes open writes, one after the other, and nothing else. -/
theorem handle_open {route : Route} (h : route.required = none) :
    Along (Open app.env route.presentedLink) (handle app x actor metadata route) := by
  cases route with
  | ping => exact Along.pure _
  | health => exact Along.pure _
  | register dto => exact Along.bind (along_register dto) fun _ => along_sessionBody _ _ _
  | login dto => exact Along.bind (along_sessions (along_login dto)) fun _ => along_sessionBody _ _ _
  | refresh cookie =>
      exact Along.bind (along_sessions (along_refresh cookie)) fun _ => along_sessionBody _ _ _
  | logout cookie => exact Along.bind (along_sessions (along_logout cookie)) fun _ => Along.pure _
  | forgotPassword dto => exact Along.bind (along_forgotPassword _ _ dto) fun _ => Along.pure _
  | resetPassword dto => exact Along.bind (along_resetPassword dto) fun _ => Along.pure _
  | getMe => exact Along.bind (Along.orThrow _ _) fun _ => Along.pure _
  | metrics | findAllUsers | findUser | createUser | updateUser | removeUser | setRoles |
      findAllRoles | createRole
  | updateRole | removeRole | setPermissions | findAllPermissions | createPermission | updatePermission
  | removePermission => cases h

/-- **Only the tables of a subject are written**: with an account its sessions and links, and no mail is
    sent. This is what a handler behind a permission keeps to. -/
structure Confined (subject : PermissionSubject) (s s' : Accounts) : Prop where
  within    : Within (partsOf subject) s.world.db s'.world.db
  tokens    : subject ≠ .user → s'.refreshTokens = s.refreshTokens ∧ s'.resetTokens = s.resetTokens
  mailQueue : s'.mailQueue = s.mailQueue

instance (subject : PermissionSubject) : IsPreorder Accounts (Confined subject) where
  refl _ := ⟨.rfl, fun _ => ⟨rfl, rfl⟩, rfl⟩
  trans _ _ _ h h' := by
    refine ⟨h.within.trans h'.within, fun hne => ?_, h'.mailQueue.trans h.mailQueue⟩
    exact ⟨(h'.tokens hne).1.trans (h.tokens hne).1, (h'.tokens hne).2.trans (h.tokens hne).2⟩

variable {subject : PermissionSubject}

theorem confined_onWorld {α : Type} {m : Service α} (h : Along (Touches (partsOf subject)) m) :
    Along (Confined subject) (onWorld m) := Along.zoom h fun _ _ hw => ⟨hw, fun _ => ⟨rfl, rfl⟩, rfl⟩

theorem confined_userBody {m : Service User} (h : Along (Touches (partsOf subject)) m) :
    Along (Confined subject) (userBody m) := Along.bind (confined_onWorld h) fun _ => Along.gets _

theorem confined_roleBody {m : Service Role} (h : Along (Touches (partsOf subject)) m) :
    Along (Confined subject) (roleBody app.order m) :=
      Along.bind (confined_onWorld h) fun _ => Along.gets _

/-- A deletion ends the sessions and the links of the account. -/
theorem confined_softDelete (o : Choice) (id : String) (actingUserId : Option String) :
    Along (Confined .user) (Accounts.softDelete o id actingUserId) := by
  refine Along.bind (Along.throwIf _ _) fun _ => ?_
  refine Along.bind (confined_onWorld (UsersService.along_findWithRolesOrFail id)) fun row => ?_
  have hrestore : ∀ s s', Confined .user s s' → Confined .user s { s' with
      world := { s'.world with db := s.world.db },
      refreshTokens := s.refreshTokens, resetTokens := s.resetTokens } :=
    fun _ _ h => ⟨.rfl, fun _ => ⟨rfl, rfl⟩, h.mailQueue⟩
  have hwrite : ∀ f : Accounts → Accounts, (∀ s, Within [.users, .userRoles] s.world.db (f s).world.db) →
      (∀ s, (f s).mailQueue = s.mailQueue) → Along (Confined .user) (modify f : AccountService Unit) :=
    fun _ hdb hmail => Along.modify fun s => ⟨hdb s, fun hne => absurd rfl hne, hmail s⟩
  refine Along.bind (Along.transaction ?_ hrestore) fun _ =>
    confined_onWorld (PermissionsService.along_invalidateUser id)
  refine Along.bind (hwrite _ (fun s => within_putUser (by decide) _) fun _ => rfl) fun _ => ?_
  exact Along.bind (hwrite _ (fun _ => .rfl) fun _ => rfl) fun _ => hwrite _ (fun _ => .rfl) fun _ => rfl

/-- **A handler behind a permission** writes the tables of its subject. -/
theorem handle_guarded {route : Route} (h : route.required = some [⟨.manage, subject⟩]) :
    Along (Confined subject) (handle app x actor metadata route) := by
  cases route with
  | ping | health | register | login | refresh | logout | forgotPassword | resetPassword | getMe =>
      cases h
  | metrics => cases h; exact Along.pure _
  | findAllUsers query => cases h; exact Along.gets _
  | findUser id => cases h; exact confined_userBody (UsersService.along_findWithRolesOrFail id)
  | createUser dto => cases h; exact confined_userBody (UsersService.along_create dto)
  | updateUser id dto => cases h; exact confined_userBody (UsersService.along_update id dto _)
  | removeUser id => cases h; exact Along.bind (confined_softDelete _ id _) fun _ => Along.pure _
  | setRoles id roleIds =>
      cases h; exact confined_userBody (UsersService.along_setRoles (by decide) id roleIds)
  | findAllRoles => cases h; exact Along.gets _
  | createRole dto => cases h; exact confined_roleBody (RolesService.along_create dto)
  | updateRole id dto => cases h; exact confined_roleBody (RolesService.along_update id dto)
  | removeRole id =>
      cases h; exact Along.bind (confined_onWorld (RolesService.along_remove id)) fun _ => Along.pure _
  | setPermissions id permissionIds =>
      cases h; exact confined_roleBody (RolesService.along_setPermissions id permissionIds)
  | findAllPermissions => cases h; exact Along.gets _
  | createPermission input =>
      cases h; exact Along.bind (confined_onWorld (PermissionsService.along_createPermission input))
        fun _ => Along.pure _
  | updatePermission id description =>
      cases h
      exact Along.bind (confined_onWorld (PermissionsService.along_updatePermission id description))
        fun _ => Along.pure _
  | removePermission id =>
      cases h; exact Along.bind (confined_onWorld (PermissionsService.along_removePermission id))
        fun _ => Along.pure _

end Handlers

end Http

end NestApp
