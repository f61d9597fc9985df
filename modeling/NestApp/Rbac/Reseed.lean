import NestApp.Auth.Accounts
import NestApp.Rbac.Seed

/-!
# `Rbac.Reseed` — what the seeding script does to the accounts when it runs again

The script runs at every start of the container. Its administrator is looked up by address among the
accounts in use; it never writes an existing account. A soft-deleted account is not found, so the
script creates it anew, with the configured password (`reseed_restores_deleted_admin`).

`reseed_leaves_accounts`: a completed script leaves the accounts alone iff the address is that of an
account in use. No other request takes the address away, so it stays in use over every run without a
`softDelete` of that account.

That nobody's request takes the address of the administrator away is shown service by service: none of
them writes the address of an existing account, and only `softDelete` takes an account out of use.
-/

namespace NestApp

open Sql Prog

variable {env : Env} {adminEmail : String} {o : Choice}

/-! ## The property

What an operator expects of a restart: the accounts are as they were, and the address still belongs to
somebody. -/

/-- No account is added and no password changed. -/
def AccountsKept (db db' : Rbac) : Prop :=
  ∀ k, (db'.users.get k).map User.passwordHash = (db.users.get k).map User.passwordHash

/-- The address is that of an account in use. -/
def InUse (env : Env) (email : String) (users : Table User) : Prop :=
  ∃ u ∈ users.rows, env.citextLower u.email = env.citextLower email ∧ u.deletedAt = none

instance (email : String) (users : Table User) : Decidable (InUse env email users) := by
  unfold InUse
  infer_instance

variable {users : Table User} {row old : User}

/-- A new account leaves the others. -/
theorem InUse.insert (h : InUse env adminEmail users) (hnew : users.get row.id = none) :
    InUse env adminEmail (users.put row) := by
  obtain ⟨u, hu, hemail, hlive⟩ := h
  have hne : u.id ≠ row.id := Table.ne_of_get_none (Table.get_of_mem hu) hnew
  exact ⟨u, Table.mem_put.mpr (.inr ⟨hu, hne⟩), hemail, hlive⟩

/-- An account that is rewritten: it keeps its address and stays in use, or it is not the one looked
    for. -/
theorem InUse.rewrite (h : InUse env adminEmail users) (row : User) (hrow : users.get row.id = some old)
    (hkeeps : old.deletedAt = none → env.citextLower old.email = env.citextLower adminEmail →
      row.email = old.email ∧ row.deletedAt = none) : InUse env adminEmail (users.put row) := by
  obtain ⟨u, hu, hemail, hlive⟩ := h
  by_cases hid : u.id = row.id
  · have hget : users.get row.id = some u := hid ▸ Table.get_of_mem hu
    obtain rfl : u = old := Option.some.inj (hget.symm.trans hrow)
    obtain ⟨hsame, hstays⟩ := hkeeps hlive hemail
    exact ⟨row, Table.mem_put.mpr (.inl rfl), hsame ▸ hemail, hstays⟩
  · exact ⟨u, Table.mem_put.mpr (.inr ⟨hu, hid⟩), hemail, hlive⟩

/-! ## The writes that leave `users`

Most of the script is about roles and permissions, so it leaves the accounts alone for a simple reason.
-/

namespace Rbac

variable {db db' : Rbac} {userId roleId permissionId : Uuid}

theorem users_insertRole {role : Role} (h : db.insertRole role = some db') : db'.users = db.users := by
  unfold insertRole at h
  split at h
  · cases h
    rfl
  · cases h

theorem users_updateRole {role : Role} (h : db.updateRole role = some db') : db'.users = db.users := by
  unfold updateRole at h
  split at h
  · cases h
    rfl
  · cases h

theorem users_insertPermission {permission : Permission}
    (h : db.insertPermission permission = some db') :
    db'.users = db.users := by
  unfold insertPermission at h
  split at h
  · cases h
    rfl
  · cases h

theorem users_insertUserRole (h : db.insertUserRole userId roleId = some db') :
    db'.users = db.users := by
  unfold insertUserRole at h
  split at h
  · cases h
    rfl
  · cases h

theorem users_insertRolePermission (h : db.insertRolePermission roleId permissionId = some db') :
    db'.users = db.users := by
  unfold insertRolePermission at h
  split at h
  · cases h
    rfl
  · cases h

/-- A fold of writes that leave `users`. -/
theorem users_foldlM {α : Type} {f : Rbac → α → Option Rbac}
    (hf : ∀ {db a db'}, f db a = some db' → db'.users = db.users)
    (l : List α) {db db' : Rbac} (h : l.foldlM f db = some db') : db'.users = db.users := by
  induction l generalizing db with
  | nil =>
      cases h
      rfl
  | cons a l ih =>
      rw [List.foldlM_cons] at h
      obtain ⟨db₁, hone, hrest⟩ := Option.bind_eq_some_iff.mp h
      exact (ih hrest).trans (hf hone)

end Rbac

/-! ## The script

Step by step in the order of `seed`. Everything up to the administrator leaves the accounts; there the
address decides. -/

namespace Rbac

variable {generate : Nat → Uuid} {db db' : Rbac} {now : Nat} {passwordHash : String}

theorem users_seedPermissions (h : db.seedPermissions generate = some db') : db'.users = db.users := by
  refine users_foldlM (f := seedPermission generate) ?_ _ h
  intro db rule db' h
  unfold seedPermission at h
  split at h
  · cases h
    rfl
  · exact users_insertPermission h

theorem users_seedRolePermission {roleId : Uuid} {rule : PermissionRule}
    (h : db.seedRolePermission roleId rule = some db') : db'.users = db.users := by
  unfold seedRolePermission at h
  split at h
  · cases h
    rfl
  · split at h
    · cases h
      rfl
    · exact users_insertRolePermission h

/-- The role is found or inserted, then its permissions are attached. -/
theorem seedRole_eq (role : SeedRole) : db.seedRole generate role =
    (if (db.findRole role.name).isSome then some db
      else db.insertRole ⟨generate db.generated, role.name, some role.description,
        role.isSystem⟩).bind fun db =>
        (db.findRole role.name).bind fun row =>
          role.permissions.foldlM (seedRolePermission row.id) db := by
  unfold seedRole
  split <;> rfl

theorem users_seedRole {role : SeedRole} (h : db.seedRole generate role = some db') :
    db'.users = db.users := by
  rw [seedRole_eq] at h
  obtain ⟨db₁, hinsert, hrest⟩ := Option.bind_eq_some_iff.mp h
  obtain ⟨row, -, hfold⟩ := Option.bind_eq_some_iff.mp hrest
  have hsame : db₁.users = db.users := by
    split at hinsert
    · cases hinsert
      rfl
    · exact users_insertRole hinsert
  exact (users_foldlM (f := seedRolePermission row.id) users_seedRolePermission _ hfold).trans hsame

/-- The seeding of roles and permissions leaves the accounts. -/
theorem users_seedRoles (h : db.seedRoles generate = some db') : db'.users = db.users :=
  users_foldlM (f := seedRole generate) users_seedRole _ h

/-- The administrator is found or inserted, then given the role. -/
theorem seedBootstrapAdmin_eq : db.seedBootstrapAdmin generate env now adminEmail passwordHash =
    let admin := (db.findByEmail env adminEmail).getD
      ⟨generate db.generated, adminEmail, passwordHash, none, none, .active, none, now, now, none⟩
    (if (db.findByEmail env adminEmail).isSome then some db else db.insertUser env admin).bind fun db =>
      (db.findRole "admin").bind fun role =>
        if (db.userRoles.get (admin.id, role.id)).isSome then some db
          else db.insertUserRole admin.id role.id := by
  unfold seedBootstrapAdmin findByEmail
  dsimp only
  split <;> rfl

/-- The script finds the administrator iff the address is in use. -/
theorem findByEmail_isSome : (db.findByEmail env adminEmail).isSome ↔ InUse env adminEmail db.users := by
  rw [findByEmail, Table.find?, List.find?_isSome]
  simp [InUse]

/-- **The administrator**: an account in use is left alone, else one is inserted under a new id. -/
theorem users_seedBootstrapAdmin
    (h : db.seedBootstrapAdmin generate env now adminEmail passwordHash = some db') :
    (InUse env adminEmail db.users ∧ db'.users = db.users) ∨
      (¬ InUse env adminEmail db.users ∧ ∃ admin, admin.email = adminEmail ∧
        admin.passwordHash = passwordHash ∧
        admin.deletedAt = none ∧ db.users.get admin.id = none ∧ db'.users = db.users.put admin) := by
  rw [seedBootstrapAdmin_eq] at h
  obtain ⟨db₁, hinsert, hrest⟩ := Option.bind_eq_some_iff.mp h
  obtain ⟨role, -, hlink⟩ := Option.bind_eq_some_iff.mp hrest
  have hsame : db'.users = db₁.users := by
    split at hlink
    · cases hlink
      rfl
    · exact users_insertUserRole hlink
  rw [hsame]
  by_cases hinUse : InUse env adminEmail db.users
  · refine .inl ⟨hinUse, ?_⟩
    rw [if_pos (findByEmail_isSome.mpr hinUse)] at hinsert
    cases hinsert
    rfl
  · have hnone := mt findByEmail_isSome.mp hinUse
    rw [if_neg hnone] at hinsert
    obtain ⟨hnew, rfl⟩ := insertUser_some hinsert
    rw [Option.not_isSome_iff_eq_none.mp hnone] at hnew ⊢
    exact .inr ⟨hinUse, _, rfl, rfl, rfl, hnew, rfl⟩

/-- The whole script writes `users` only for its administrator. -/
theorem users_seed (h : db.seed generate env now adminEmail passwordHash = some db') :
    (InUse env adminEmail db.users ∧ db'.users = db.users) ∨
      (¬ InUse env adminEmail db.users ∧ ∃ admin, admin.email = adminEmail ∧
        admin.passwordHash = passwordHash ∧
        admin.deletedAt = none ∧ db.users.get admin.id = none ∧ db'.users = db.users.put admin) := by
  unfold seed at h
  obtain ⟨db₁, hpermissions, hrest⟩ := Option.bind_eq_some_iff.mp h
  obtain ⟨db₂, hroles, hadmin⟩ := Option.bind_eq_some_iff.mp hrest
  have hsame : db₂.users = db.users :=
    (users_seedRoles hroles).trans (users_seedPermissions hpermissions)
  have hseeded := users_seedBootstrapAdmin hadmin
  rw [hsame] at hseeded
  exact hseeded

/-- After the script the address is in use. -/
theorem inUse_seed (h : db.seed generate env now adminEmail passwordHash = some db') :
    InUse env adminEmail db'.users := by
  rcases users_seed h with ⟨hinUse, hsame⟩ | ⟨-, admin, hemail, -, hlive, -, hput⟩
  · rw [hsame]
    exact hinUse
  · rw [hput]
    exact ⟨admin, Table.mem_put.mpr (.inl rfl), by rw [hemail], hlive⟩

/-- **The script leaves the accounts alone** iff the address is that of an account in use. -/
theorem accountsKept_seed (h : db.seed generate env now adminEmail passwordHash = some db') :
    AccountsKept db db' ↔ InUse env adminEmail db.users := by
  rcases users_seed h with ⟨hinUse, hsame⟩ | ⟨hnot, admin, -, -, -, hnew, hput⟩
  · refine ⟨fun _ => hinUse, fun _ k => ?_⟩
    rw [hsame]
  · refine ⟨fun hkept => ?_, fun hinUse => absurd hinUse hnot⟩
    -- the row inserted was not there
    have hrow := hkept admin.id
    rw [hput, hnew, Table.get_put, key_user, if_pos rfl] at hrow
    cases hrow

end Rbac

/-! ## The services that leave `users`

Each service that writes no row of `users` keeps whatever is said about that table. The lemmas go by
the constructors of the programs. -/

section Leave

variable {I : Table User → Prop} {α : Type}

/-- A statement keeps what its write keeps. -/
theorem keeps_save {f : Rbac → Option Rbac} {e : Failure}
    (hf : ∀ {db db'}, f db = some db' → I db.users → I db'.users) :
      Keeps (fun w => I w.db.users) (save f e) := by
  refine Triple.of_single fun w hw => save_spec hw fun db hdb => ?_
  exact hf hdb hw

/-- A statement that leaves `users` keeps whatever holds of it. -/
theorem keeps_save_other {f : Rbac → Option Rbac} {e : Failure}
    (hf : ∀ {db db'}, f db = some db' → db'.users = db.users) :
    Keeps (fun w => I w.db.users) (save f e) := by
  refine keeps_save fun hdb hI => ?_
  rw [hf hdb]
  exact hI

theorem keeps_transaction {body : Service α} (h : Keeps (fun w => I w.db.users) body) :
    Keeps (fun w => I w.db.users) (transaction body) := Keeps.transaction h fun _ _ hI => hI

/-- A replacement of join rows leaves the accounts. -/
theorem keeps_replaceJoinRows {referenced : Rbac → List Uuid} {delete : Rbac → Rbac}
    {insert : Rbac → Uuid → Option Rbac}
    (ids : List String) (label : String) (hdelete : ∀ db, (delete db).users = db.users)
    (hinsert : ∀ {db id db'}, insert db id = some db' → db'.users = db.users) :
    Keeps (fun w => I w.db.users) (replaceJoinRows referenced delete insert ids label) := by
  refine Keeps.bind (Keeps.gets _) fun existing => Keeps.bind (Keeps.throwIf _ _) fun _ => ?_
  refine Keeps.bind (Keeps.modify fun w hI => ?_) fun _ => keeps_save_other fun h =>
    Rbac.users_foldlM hinsert _ h
  rw [hdelete]
  exact hI

namespace PermissionsService

theorem keeps_getPermissionRulesForUser (userId : String) :
    Keeps (fun w => I w.db.users) (getPermissionRulesForUser userId) := by
  refine Keeps.bind (Keeps.modify fun _ hI => hI) fun _ => Keeps.bind (Keeps.gets _) fun cached => ?_
  cases cached with
  | some rules => exact Keeps.pure rules
  | none =>
      refine Keeps.bind (Keeps.gets _) fun rules => ?_
      exact Keeps.bind (Keeps.modify fun _ hI => hI) fun _ => Keeps.pure rules

theorem keeps_invalidateUser (userId : String) : Keeps (fun w => I w.db.users) (invalidateUser userId) :=
  Keeps.modify fun _ hI => hI

theorem keeps_createPermission (input : CreatePermissionInput) :
    Keeps (fun w => I w.db.users) (createPermission o input) := by
  refine Keeps.bind (Keeps.bind (Keeps.gets _) fun _ => Keeps.throwIf _ _) fun _ => ?_
  exact Keeps.bind (Keeps.mapError (keeps_save_other Rbac.users_insertPermission)) fun _ => Keeps.pure _

theorem keeps_updatePermission (id : String) (description : Option String) :
    Keeps (fun w => I w.db.users) (updatePermission id description) := by
  refine Keeps.bind (Keeps.gets _) fun _ => Keeps.bind (Keeps.orThrow _ _) fun _ => ?_
  exact Keeps.bind (Keeps.modify fun _ hI => hI) fun _ => Keeps.pure _

theorem keeps_removePermission (id : String) : Keeps (fun w => I w.db.users) (removePermission id) := by
  refine Keeps.bind (Keeps.gets _) fun _ => Keeps.bind (Keeps.orThrow _ _) fun _ =>
    Keeps.bind (Keeps.gets _) fun _ => ?_
  exact Keeps.bind (Keeps.modify fun _ hI => hI) fun _ => Keeps.modify fun _ hI => hI

end PermissionsService

namespace RolesService

theorem keeps_getOrThrow (id : String) : Keeps (fun w => I w.db.users) (getOrThrow id) :=
  Keeps.bind (Keeps.gets _) fun _ => Keeps.orThrow _ _

theorem keeps_create (dto : CreateRoleDto) : Keeps (fun w => I w.db.users) (create o dto) := by
  refine Keeps.bind (Keeps.gets _) fun _ => Keeps.bind (Keeps.throwIf _ _) fun _ => ?_
  exact Keeps.bind (Keeps.mapError (keeps_save_other Rbac.users_insertRole)) fun _ => keeps_getOrThrow _

theorem keeps_rename (role : Role) (name : Option (Option String)) :
    Keeps (fun w => I w.db.users) (rename role name) := by
  unfold rename
  split
  · exact Keeps.pure role
  · exact Keeps.throw _
  · split
    · exact Keeps.pure role
    · exact Keeps.bind (Keeps.gets _) fun _ => Keeps.bind (Keeps.throwIf _ _) fun _ => Keeps.pure _

theorem keeps_update (id : String) (dto : UpdateRoleDto) :
    Keeps (fun w => I w.db.users) (update id dto) := by
  refine Keeps.bind (keeps_getOrThrow id) fun role => Keeps.bind (Keeps.throwIf _ _) fun _ => ?_
  refine Keeps.bind (keeps_rename role dto.name) fun renamed => ?_
  exact Keeps.bind (Keeps.mapError (keeps_save_other Rbac.users_updateRole)) fun _ => keeps_getOrThrow id

theorem keeps_remove (id : String) : Keeps (fun w => I w.db.users) (remove id) := by
  refine Keeps.bind (keeps_getOrThrow id) fun role => Keeps.bind (Keeps.throwIf _ _) fun _ => ?_
  refine Keeps.bind (Keeps.gets _) fun _ => Keeps.bind (Keeps.modify fun _ hI => hI) fun _ => ?_
  exact Keeps.modify fun _ hI => hI

theorem keeps_setPermissions (id : String) (permissionIds : List String) :
    Keeps (fun w => I w.db.users) (setPermissions id permissionIds) := by
  refine Keeps.bind (keeps_getOrThrow id) fun role => Keeps.bind (Keeps.throwIf _ _) fun _ => ?_
  have hreplace : Keeps (fun w => I w.db.users) (replacePermissions role.id permissionIds) :=
    keeps_transaction (keeps_replaceJoinRows _ _ (fun _ => rfl) Rbac.users_insertRolePermission)
  refine Keeps.bind hreplace fun _ => Keeps.bind (Keeps.gets _) fun _ => ?_
  exact Keeps.bind (Keeps.modify fun _ hI => hI) fun _ => keeps_getOrThrow id

end RolesService

namespace UsersService

theorem keeps_findByEmail (email : String) : Keeps (fun w => I w.db.users) (findByEmail env email) :=
  Keeps.gets _

theorem keeps_findWithRolesOrFail (id : String) :
    Keeps (fun w => I w.db.users) (findWithRolesOrFail id) :=
  Keeps.bind (Keeps.gets _) fun _ => Keeps.orThrow _ _

theorem keeps_assignRoles (userId : String) (roleIds : List String) :
    Keeps (fun w => I w.db.users) (assignRoles userId roleIds) :=
  keeps_replaceJoinRows _ _ (fun _ => rfl) Rbac.users_insertUserRole

theorem keeps_setRoles (userId : String) (roleIds : List String) :
    Keeps (fun w => I w.db.users) (setRoles userId roleIds) := by
  refine Keeps.bind (keeps_transaction (keeps_assignRoles userId roleIds)) fun _ => ?_
  exact Keeps.bind (Keeps.modify fun _ hI => hI) fun _ => keeps_findWithRolesOrFail userId

end UsersService

end Leave

/-! ## The services that write `users`

A new account, an edit, and a deletion: the first two leave the address in use. -/

namespace UsersService

theorem keeps_assignFirstRoles {I : Table User → Prop} (userId : Uuid) (roleIds : List String) :
    Keeps (fun w => I w.db.users) (assignFirstRoles userId roleIds) := by
  unfold assignFirstRoles
  split
  · exact keeps_assignRoles userId.text roleIds
  · refine Keeps.bind (Keeps.gets _) fun _ => Keeps.bind (Keeps.orThrow _ _) fun role => ?_
    exact keeps_save_other Rbac.users_insertUserRole

/-- A new account takes no address out of use. -/
theorem keeps_insertUser (row : User) :
    Keeps (fun w => InUse env adminEmail w.db.users) (save (·.insertUser env row) .uniqueViolation) := by
  refine keeps_save fun hdb hI => ?_
  obtain ⟨hnew, rfl⟩ := Rbac.insertUser_some hdb
  exact hI.insert hnew

/-- A creation that is rolled back leaves all as it was. -/
theorem keeps_createUserInTransaction (row : User) (roleIds : List String) :
    Keeps (fun w => InUse env adminEmail w.db.users) (createUserInTransaction env row roleIds) := by
  refine keeps_transaction (Keeps.bind (keeps_insertUser row) fun _ => ?_)
  exact Keeps.bind (keeps_assignFirstRoles row.id roleIds) fun _ => Keeps.pure row

theorem keeps_create (dto : CreateUserDto) :
    Keeps (fun w => InUse env adminEmail w.db.users) (create env o dto) := by
  refine Keeps.bind (Keeps.gets _) fun _ => Keeps.bind (Keeps.throwIf _ _) fun _ => ?_
  refine Keeps.bind (Keeps.mapError (keeps_createUserInTransaction _ _)) fun user => ?_
  exact keeps_findWithRolesOrFail user.id.text

theorem keeps_register (dto : RegisterDto) :
    Keeps (fun w => InUse env adminEmail w.db.users) (register env o dto) := by
  refine Keeps.bind (Keeps.gets _) fun _ => Keeps.bind (Keeps.throwIf _ _) fun _ => ?_
  exact Keeps.mapError (keeps_createUserInTransaction _ _)

/-- The address is not among the columns `update` writes. -/
theorem keeps_update (id : String) (dto : UpdateUserDto) (actingUserId : Option String) :
    Keeps (fun w => InUse env adminEmail w.db.users) (update o id dto actingUserId) := by
  refine Triple.of_single fun w hI => Triple.throwIf_single hI fun _ => ?_
  refine Triple.bind (findWithRolesOrFail_spec hI) fun row => Triple.of_single fun w' ⟨hw, hrow⟩ => ?_
  subst hw
  refine Triple.orThrow_single hI fun user huser => Triple.modify_single ?_
  refine findWithRolesOrFail_last ?_
  have hedits := dto.apply_edits huser
  have hid : row.id = .cast id := Table.get_key hrow
  have hrow' : w'.db.users.get row.id = some row := hid ▸ hrow
  have hsaved := Update.saved_edits hedits o.now
  exact hI.rewrite (Update.saved o.now user row) (hsaved.id ▸ hrow') fun hlive _ =>
    ⟨hsaved.email, hsaved.deletedAt.trans hlive⟩

/-- The deletion is refused, or its target is not the account with the address. -/
def Spares (env : Env) (adminEmail : String) (id : String) (actingUserId : Option String)
    (w : World) : Prop :=
  some id = actingUserId ∨ ∀ u, w.db.users.get (.cast id) = some u → u.deletedAt = none →
    env.citextLower u.email ≠ env.citextLower adminEmail

variable {w : World} {id : String} {actingUserId : Option String}

/-- The row `softDelete` writes leaves the address in use. -/
theorem Spares.deleted (h : Spares env adminEmail id actingUserId w)
    (hother : some id ≠ actingUserId) {row : User}
    (hrow : w.db.users.get (.cast id) = some row) (now : Nat) (hI : InUse env adminEmail w.db.users) :
    InUse env adminEmail (w.db.users.put (SoftDelete.withDeletedAt now row)) := by
  have hid : row.id = .cast id := Table.get_key hrow
  have hspared := h.resolve_left hother row hrow
  have hrow' : w.db.users.get row.id = some row := hid ▸ hrow
  exact hI.rewrite (SoftDelete.withDeletedAt now row) hrow' fun hlive hemail =>
    absurd hemail (hspared hlive)

theorem keeps_softDelete (hspare : Spares env adminEmail id actingUserId w) :
    Triple (fun w' => w' = w ∧ InUse env adminEmail w.db.users) (softDelete o id actingUserId)
      (fun _ w' => InUse env adminEmail w'.db.users) fun w' => InUse env adminEmail w'.db.users := by
  refine Triple.of_single fun w' ⟨hw, hI⟩ => ?_
  subst hw
  refine Triple.throwIf_single hI fun hother => Triple.bind (findWithRolesOrFail_spec hI) fun row =>
    Triple.of_single fun w'' ⟨hw, hrow⟩ => ?_
  subst hw
  have hinvalidate : Keeps (fun w => InUse env adminEmail w.db.users)
    (PermissionsService.invalidateUser id) :=
    PermissionsService.keeps_invalidateUser id
  refine Triple.bind ?_ fun _ => hinvalidate
  refine Triple.transaction w'' (Triple.modify (E := fun _ => True) fun w' hw => ?_) fun _ _ => hI
  subst hw
  exact hspare.deleted hother hrow o.now hI

end UsersService

/-! ## Every request of the access-control services

Put together, for a request of any kind. -/

/-- A request keeps the address in use, unless it deletes the account. -/
theorem inUse_run {w : World} (request : Request)
    (hspare : ∀ id actingUserId, request = .softDelete id actingUserId →
      UsersService.Spares env adminEmail id actingUserId w)
    (hI : InUse env adminEmail w.db.users) : InUse env adminEmail (request.run env o w).db.users := by
  cases request with
  | getPermissionRulesForUser userId =>
      exact (PermissionsService.keeps_getPermissionRulesForUser userId).final hI
  | register dto => exact (UsersService.keeps_register dto).final hI
  | createUser dto => exact (UsersService.keeps_create dto).final hI
  | updateUser id dto actingUserId => exact (UsersService.keeps_update id dto actingUserId).final hI
  | softDelete id actingUserId =>
      exact (UsersService.keeps_softDelete (hspare id actingUserId rfl)).final ⟨rfl, hI⟩
  | setRoles userId roleIds => exact (UsersService.keeps_setRoles userId roleIds).final hI
  | createRole dto => exact (RolesService.keeps_create dto).final hI
  | updateRole id dto => exact (RolesService.keeps_update id dto).final hI
  | removeRole id => exact (RolesService.keeps_remove id).final hI
  | setPermissions id permissionIds =>
      exact (RolesService.keeps_setPermissions id permissionIds).final hI
  | createPermission input => exact (PermissionsService.keeps_createPermission input).final hI
  | updatePermission id description =>
      exact (PermissionsService.keeps_updatePermission id description).final hI
  | removePermission id => exact (PermissionsService.keeps_removePermission id).final hI

/-! ## The account flows

The same for the programs with tokens and mails, at every fault. -/

section Flows

variable {I : Table User → Prop} {α : Type}

theorem keeps_onWorld {m : Service α} (h : Keeps (fun w => I w.db.users) m) :
    Keeps (fun s => I s.world.db.users) (onWorld m) := Keeps.zoom h fun _ _ => rfl

theorem keeps_statement {σ : Type} {J : σ → Prop} {m : Prog σ Failure α} (fault : Option DbCall)
    (call : DbCall)
    (h : Keeps J m) : Keeps J (statement fault call m) := by
  unfold statement
  split
  · exact Keeps.throw _
  · exact h

theorem keeps_accountTransaction {body : AccountService α}
    (h : Keeps (fun s => I s.world.db.users) body) :
    Keeps (fun s => I s.world.db.users) (accountTransaction body) := Keeps.transaction h fun _ _ hI => hI

/-- An `INSERT` into a token table leaves the users. -/
theorem keeps_insertRow (fault : Option DbCall) (call : DbCall) {insert : Accounts → Option Accounts}
    (hinsert : ∀ {s s'}, insert s = some s' → s'.world = s.world) :
    Keeps (fun s => I s.world.db.users) (insertRow fault call insert) := by
  refine keeps_statement fault call (Triple.of_single fun s hI => ?_)
  refine Triple.gets_single (Triple.orThrow_single hI fun s' hs' => Triple.modify fun _ _ => ?_)
  rw [hinsert hs']
  exact hI

namespace AuthService

theorem world_insertRefreshToken {row : RefreshToken} {s s' : Accounts}
    (h : s.insertRefreshToken row = some s') :
    s'.world = s.world := by
  unfold Accounts.insertRefreshToken at h
  split at h
  · cases h
    rfl
  · cases h

theorem world_insertResetToken {row : PasswordResetToken} {s s' : Accounts}
    (h : s.insertResetToken row = some s') :
    s'.world = s.world := by
  unfold Accounts.insertResetToken at h
  split at h
  · cases h
    rfl
  · cases h

theorem keeps_createSession (fault : Option DbCall) (user : User) (metadata : SessionMetadata) :
    Keeps (fun s => I s.world.db.users) (createSession env o fault user metadata) :=
  Keeps.bind (keeps_insertRow fault _ world_insertRefreshToken) fun _ => Keeps.pure _

theorem keeps_login (dto : LoginDto) (metadata : SessionMetadata) :
    Keeps (fun s => I s.world.db.users) (login env o dto metadata) := by
  refine Keeps.bind (keeps_onWorld (UsersService.keeps_findByEmail _)) fun _ => ?_
  refine Keeps.bind (Keeps.orThrow _ _) fun user => Keeps.bind (Keeps.throwIf _ _) fun _ => ?_
  exact Keeps.bind (Keeps.throwIf _ _) fun _ => keeps_createSession none user metadata

theorem keeps_forgotPassword (driver : MailDriver) (queueAccepts : Bool) (fault : Option DbCall)
    (dto : ForgotPasswordDto)
    (metadata : SessionMetadata) :
    Keeps (fun s => I s.world.db.users)
      (forgotPassword env driver o queueAccepts fault dto metadata) := by
  refine Keeps.bind (keeps_onWorld (keeps_statement fault _ (UsersService.keeps_findByEmail _)))
    fun found => ?_
  split
  · exact Keeps.pure ()
  · next user _ =>
    refine Keeps.bind (keeps_statement fault _ (Keeps.modify fun _ hI => hI)) fun _ => ?_
    refine Keeps.bind (keeps_insertRow fault _ world_insertResetToken) fun _ => ?_
    -- the mail is no concern of the tables
    intro s hI
    obtain ⟨mailQueue, hmail⟩ :=
      MailService.sendPasswordReset_ok env driver queueAccepts user.email o.token s
    rw [hmail]
    exact hI

/-- The address is not among the columns `resetPassword` writes. -/
theorem keeps_resetPassword (dto : ResetPasswordDto) :
    Keeps (fun s => InUse env adminEmail s.world.db.users) (resetPassword env o dto) := by
  refine keeps_accountTransaction (Triple.of_single fun s hI => ?_)
  refine Triple.gets_single
    (Triple.orThrow_single hI fun record _ => Triple.throwIf_single hI fun _ => ?_)
  refine Triple.gets_single
    (Triple.orThrow_single hI fun user huser => Triple.throwIf_single hI fun _ => ?_)
  refine Triple.modify_single (Triple.modify_single (Triple.modify fun s' hs' => ?_))
  subst hs'
  obtain ⟨hrow, -⟩ := Option.filter_eq_some_iff.mp huser
  have hid : user.id = record.userId := Table.get_key hrow
  have hrow' : s.world.db.users.get user.id = some user := hid ▸ hrow
  exact hI.rewrite (ResetPassword.withPassword _ _ user) hrow' fun hlive _ => ⟨rfl, hlive⟩

theorem keeps_register (oSession : Choice) (fault : Option DbCall) (dto : RegisterDto)
    (metadata : SessionMetadata) :
    Keeps (fun s => InUse env adminEmail s.world.db.users)
      (register env o oSession fault dto metadata) := by
  refine Keeps.bind (keeps_onWorld (keeps_statement fault _ (UsersService.keeps_findByEmail _))) fun _ =>
    ?_
  refine Keeps.bind (Keeps.throwIf _ _) fun _ => ?_
  refine Keeps.bind (keeps_onWorld (Keeps.mapError ?_)) fun user =>
    keeps_createSession fault user metadata
  refine keeps_transaction (Keeps.bind (keeps_statement fault _ (Keeps.pure ())) fun _ => ?_)
  refine Keeps.bind (keeps_statement fault _ (UsersService.keeps_insertUser _)) fun _ => ?_
  refine Keeps.bind (keeps_statement fault _ (Keeps.gets _)) fun _ =>
    Keeps.bind (Keeps.orThrow _ _) fun role => ?_
  refine Keeps.bind (keeps_statement fault _ (Keeps.pure ())) fun _ => ?_
  refine Keeps.bind (keeps_statement fault _ (keeps_save_other Rbac.users_insertUserRole)) fun _ => ?_
  exact Keeps.bind (keeps_statement fault _ (Keeps.pure ())) fun _ => Keeps.pure _

end AuthService

theorem Accounts.keeps_softDelete {s : Accounts} {id : String} {actingUserId : Option String}
    (hspare : UsersService.Spares env adminEmail id actingUserId s.world) :
    Triple (fun s' => s' = s ∧ InUse env adminEmail s.world.db.users)
      (Accounts.softDelete o id actingUserId)
      (fun _ s' => InUse env adminEmail s'.world.db.users) fun s' =>
        InUse env adminEmail s'.world.db.users := by
  refine Triple.of_single fun s' ⟨hs, hI⟩ => ?_
  subst hs
  refine Triple.throwIf_single hI fun hother => ?_
  have hinvalidate : Keeps (fun s => InUse env adminEmail s.world.db.users)
    (onWorld (PermissionsService.invalidateUser id)) :=
    keeps_onWorld (PermissionsService.keeps_invalidateUser id)
  have hfind : Triple (· = s') (onWorld (UsersService.findWithRolesOrFail id))
      (fun row s'' => s'' = s' ∧ s'.world.db.users.get (.cast id) = some row)
      fun s'' => InUse env adminEmail s''.world.db.users := by
    have hspec : Triple (· = s'.world) (UsersService.findWithRolesOrFail id)
        (fun row w' => w' = s'.world ∧ s'.world.db.users.get (.cast id) = some row) (· = s'.world) :=
      UsersService.findWithRolesOrFail_spec rfl
    refine Triple.conseq (Triple.zoom hspec) (fun _ hs => hs) ?_ ?_
    · rintro row _ ⟨w', ⟨rfl, hrow⟩, rfl⟩
      exact ⟨rfl, hrow⟩
    · rintro _ ⟨w', rfl, rfl⟩
      exact hI
  refine Triple.bind hfind fun row => Triple.of_single fun s'' ⟨hs, hrow⟩ => ?_
  subst hs
  refine Triple.bind ?_ fun _ => hinvalidate
  refine Triple.transaction s'' (Triple.modify_single (Triple.modify_single
    (Triple.modify (E := fun _ => True) fun s' hs' => ?_))) fun _ _ => hI
  subst hs'
  exact hspare.deleted hother hrow o.now hI

end Flows

/-! ## Runs

Requests and restarts in any order. The address stays in use from the first seeding on. -/

/-- The requests that reach the accounts; the driver and the answer of the mail queue, and a statement
    that fails. -/
inductive AccountRequest where
  | register (oSession : Choice) (fault : Option DbCall) (dto : RegisterDto) (metadata : SessionMetadata)
  | login (dto : LoginDto) (metadata : SessionMetadata)
  | forgotPassword (driver : MailDriver) (queueAccepts : Bool) (fault : Option DbCall)
      (dto : ForgotPasswordDto)
      (metadata : SessionMetadata)
  | resetPassword (dto : ResetPasswordDto)
  | softDelete (id : String) (actingUserId : Option String)
  /-- a request of the access-control services -/
  | rbac (request : Request)

/-- What a request leaves, whatever it is answered. -/
def AccountRequest.run (env : Env) (o : Choice) (s : Accounts) : AccountRequest → Accounts
  | .register oSession fault dto metadata => (AuthService.register env o oSession fault dto metadata s).2
  | .login dto metadata => (AuthService.login env o dto metadata s).2
  | .forgotPassword driver queueAccepts fault dto metadata =>
      (AuthService.forgotPassword env driver o queueAccepts fault dto metadata s).2
  | .resetPassword dto => (AuthService.resetPassword env o dto s).2
  | .softDelete id actingUserId => (Accounts.softDelete o id actingUserId s).2
  | .rbac request => { s with world := request.run env o s.world }

/-- The request does not delete the account with the address. -/
def AccountRequest.Spares (env : Env) (adminEmail : String) (w : World) : AccountRequest → Prop
  | .softDelete id actingUserId | .rbac (.softDelete id actingUserId) =>
      UsersService.Spares env adminEmail id actingUserId w
  | _ => True

/-- One step of a deployment: a request that satisfies `ok`, or a restart with the script running to its
    end. -/
inductive Accounts.Step (env : Env) (adminEmail : String) (ok : World → AccountRequest → Prop)
    (s : Accounts) :
    Accounts → Prop where
  | request (o : Choice) (request : AccountRequest) (h : ok s.world request) : s.Step env adminEmail ok
      (request.run env o s)
  | restart (generate : Nat → Uuid) (now : Nat) (passwordHash : String) (db : Rbac)
      (h : s.world.db.seed generate env now adminEmail passwordHash = some db) :
      s.Step env adminEmail ok { s with world := { s.world with db := db } }

/-- A run that begins after a completed script. -/
def Accounts.Reached (env : Env) (adminEmail : String) (ok : World → AccountRequest → Prop)
    (s : Accounts) : Prop :=
  ∃ (db₀ : Rbac) (generate : Nat → Uuid) (now : Nat) (passwordHash : String) (s₀ : Accounts),
    db₀.seed generate env now adminEmail passwordHash = some s₀.world.db ∧
      Relation.ReflTransGen (Accounts.Step env adminEmail ok) s₀ s

variable {s s' : Accounts}

/-- **One step** keeps the address in use. -/
theorem Accounts.Step.inUse (h : s.Step env adminEmail (AccountRequest.Spares env adminEmail) s')
    (hI : InUse env adminEmail s.world.db.users) : InUse env adminEmail s'.world.db.users := by
  cases h with
  | restart generate now passwordHash db hseed => exact Rbac.inUse_seed hseed
  | request o request hspare =>
      cases request with
      | register oSession fault dto metadata =>
          exact (AuthService.keeps_register oSession fault dto metadata).final hI
      | login dto metadata => exact (AuthService.keeps_login dto metadata).final hI
      | forgotPassword driver queueAccepts fault dto metadata =>
          exact (AuthService.keeps_forgotPassword driver queueAccepts fault dto metadata).final hI
      | resetPassword dto => exact (AuthService.keeps_resetPassword dto).final hI
      | softDelete id actingUserId => exact (Accounts.keeps_softDelete hspare).final ⟨rfl, hI⟩
      | rbac request =>
          refine inUse_run request (fun id actingUserId hrequest => ?_) hI
          subst hrequest
          exact hspare

/-- **A run** keeps it in use: any requests that spare the administrator, and any restarts. -/
theorem Accounts.Reached.inUse (h : s.Reached env adminEmail (AccountRequest.Spares env adminEmail)) :
    InUse env adminEmail s.world.db.users := by
  obtain ⟨db₀, generate, now, passwordHash, s₀, hseed, hrun⟩ := h
  have hstart := Rbac.inUse_seed hseed
  induction hrun with
  | refl => exact hstart
  | tail _ hstep ih => exact hstep.inUse ih

/-- **Re-seeding leaves the accounts alone**: in any state, iff the configured address is that of an
    account in use; and so in every state reached, after a first seeding, by requests none of which
    deletes that account. -/
theorem reseed_leaves_accounts (env : Env) (adminEmail : String) :
    (∀ generate now passwordHash (db db' : Rbac),
      db.seed generate env now adminEmail passwordHash = some db' →
        (AccountsKept db db' ↔ InUse env adminEmail db.users)) ∧
      ∀ s : Accounts, s.Reached env adminEmail (AccountRequest.Spares env adminEmail) →
        ∀ generate now passwordHash db',
          s.world.db.seed generate env now adminEmail passwordHash = some db' →
          AccountsKept s.world.db db' :=
  ⟨fun _ _ _ _ _ hseed => Rbac.accountsKept_seed hseed,
    fun _ hrun _ _ _ _ hseed => (Rbac.accountsKept_seed hseed).mpr hrun.inUse⟩

/-! ## Two deployments -/

/-- The seeded deployment, without tokens and mails. -/
def freshAccounts : Accounts := ⟨seededWorld, .empty, .empty, []⟩

/-- The requests, one after the other. -/
def Accounts.after (s : Accounts) (l : List (Choice × AccountRequest)) : Accounts :=
  l.foldl (fun s r => r.2.run toyEnv r.1 s) s

theorem reached_after {ok : World → AccountRequest → Prop} (l : List (Choice × AccountRequest))
    (h : ∀ w, ∀ r ∈ l, ok w r.2) : (freshAccounts.after l).Reached toyEnv "a@b.co" ok := by
  have hseed : Rbac.empty.seed seedId toyEnv 0 "a@b.co" "hash" = some seededDb := by
    obtain ⟨db, hdb⟩ := Option.isSome_iff_exists.mp
      (show (Rbac.empty.seed seedId toyEnv 0 "a@b.co" "hash").isSome = true by decide +kernel)
    rw [seededDb, hdb]
    rfl
  refine ⟨.empty, seedId, 0, "hash", freshAccounts, hseed, ?_⟩
  generalize freshAccounts = s
  induction l generalizing s with
  | nil => exact .refl
  | cons r l ih =>
      have hfirst : s.Step toyEnv "a@b.co" ok (r.2.run toyEnv r.1 s) :=
        .request r.1 r.2 (h _ r List.mem_cons_self)
      exact .head hfirst (ih (fun w r' hr' => h w r' (List.mem_cons_of_mem _ hr')) _)

/-- A second administrator deletes the first. -/
def replacement : List (Choice × AccountRequest) :=
  [(.at 1 uuidA "" uuidA,
    .register (.at 1 uuidB "session" uuidA) none ⟨"c@d.co", "password", none, none⟩ ⟨none, none⟩),
    (.at 2 uuidC "" uuidA, .rbac (.setRoles uuidA.text [(seedId 6).text])),
    (.at 3 uuidC "" uuidA, .softDelete (seedId 8).text (some uuidA.text))]

/-- **The script restores a deleted administrator**, with the configured password. -/
theorem reseed_restores_deleted_admin : ∃ s : Accounts, s.Reached toyEnv "a@b.co" (fun _ _ => True) ∧
    ∃ db', s.world.db.seed seedId toyEnv 4 "a@b.co" "hash" = some db' ∧
      ¬ AccountsKept s.world.db db' := by
  obtain ⟨db', hseed⟩ := Option.isSome_iff_exists.mp
    (show ((freshAccounts.after replacement).world.db.seed seedId toyEnv 4 "a@b.co"
      "hash").isSome = true by
      decide +kernel)
  refine ⟨_, reached_after replacement fun _ _ _ => trivial, db', hseed, ?_⟩
  rw [Rbac.accountsKept_seed hseed]
  decide +kernel

/-- An administrator who is suspended and asks for a link is still found. -/
theorem reseed_leaves_accounts_suspended : ∃ s : Accounts,
    s.Reached toyEnv "a@b.co" (AccountRequest.Spares toyEnv "a@b.co") ∧
      ∃ db', s.world.db.seed seedId toyEnv 4 "a@b.co" "hash" = some db' ∧
        AccountsKept s.world.db db' := by
  let requests : List (Choice × AccountRequest) :=
    [(.at 1 uuidA "link" uuidA, .forgotPassword .console true none ⟨"a@b.co"⟩ ⟨none, none⟩),
      (.at 2 uuidA "" uuidA,
        .rbac (.updateUser (seedId 8).text ⟨none, none, some (some .suspended)⟩ none))]
  obtain ⟨db', hseed⟩ := Option.isSome_iff_exists.mp
    (show ((freshAccounts.after requests).world.db.seed seedId toyEnv 4 "a@b.co" "hash").isSome = true by
      decide +kernel)
  have hrun : (freshAccounts.after requests).Reached toyEnv "a@b.co"
    (AccountRequest.Spares toyEnv "a@b.co") := by
    refine reached_after requests fun w r hr => ?_
    simp only [requests, List.mem_cons, List.not_mem_nil, or_false] at hr
    rcases hr with rfl | rfl <;> trivial
  exact ⟨_, hrun, db', hseed, (reseed_leaves_accounts toyEnv "a@b.co").2 _ hrun _ _ _ _ hseed⟩

end NestApp
