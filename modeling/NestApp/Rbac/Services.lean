import NestApp.Lib.Prog
import NestApp.Rbac.Database
import NestApp.Users.Update

/-!
# `Rbac.Services` — `PermissionsService`, `RolesService` and `UsersService`, call by call

The services as programs over the access-control tables and the permission cache in Redis: one
statement or Redis command after the other, with the errors they throw. `transaction` restores the
tables if its body throws; the cache is outside every transaction. The token tables `register` and
`softDelete` also write are not part of this state.

An id arrives as the text of the request. The database casts it; the cache key is built from the text.

A service is written in the order of its statements, with the message of each error. Log lines are left
out; Redis does not fail here, as each command catches its own failure and goes on (`Rbac.Staleness`
has them fail).
-/

namespace NestApp

open Sql Prog

/-! ## State and errors

What a call can see and what it can end with. A failure that is not an `HttpException` reaches the
client as a 500. -/

/-- The tables, the permission cache, and — read by no service — the users whose rules were asked for. -/
structure World where
  db    : Rbac
  cache : String → Option (List PermissionRule)
  asked : List Uuid

/-- What a call can end with instead of a result. -/
inductive Failure where
  | http (e : HttpException)
  /-- a `QueryFailedError` with code 23505 -/
  | uniqueViolation
  /-- an error the services do not map: another constraint, a missing default role, a `TypeError` -/
  | unexpected
deriving DecidableEq

abbrev Service (α : Type) : Type := Prog World Failure α

/-- `dataSource.transaction` -/
def transaction {α : Type} (body : Service α) : Service α :=
  Prog.transaction (fun before after => { after with db := before.db }) body

/-- A statement of the database that may violate a constraint. -/
def save (f : Rbac → Option Rbac) (e : Failure) : Service Unit := do
  let saved ← gets fun w => f w.db
  let db ← orThrow saved e
  modify fun w => { w with db := db }

def rethrowConflictOrOriginal (conflictMessage : String) : Failure → Failure
  | .uniqueViolation => .http (.conflict conflictMessage)
  | error            => error

/-- `manager.find(referencedEntity, { where: { id: In(distinctIds) } })` -/
def existingIds (referenced : List Uuid) (distinctIds : List String) : List Uuid :=
  referenced.filter (· ∈ distinctIds.map Uuid.cast)

/-- The ids named are those whose text is not the canonical text of an existing one. -/
def unknownIds (label : String) (existing : List Uuid) (distinctIds : List String) : Failure :=
  let missing := distinctIds.filter (· ∉ existing.map Uuid.text)
  .http (.badRequest ("Unknown " ++ label ++ " id(s): " ++ String.intercalate ", " missing))

/-- `replaceJoinRows`, for the referenced ids, the `DELETE` and the `INSERT` of one owner. -/
def replaceJoinRows (referenced : Rbac → List Uuid) (delete : Rbac → Rbac)
    (insert : Rbac → Uuid → Option Rbac)
    (ids : List String) (label : String) : Service Unit := do
  let distinctIds := ids.eraseDups
  let existing ← gets fun w => existingIds (referenced w.db) distinctIds
  -- two spellings of one id are two distinct texts but one row, and count as unknown
  throwIf (existing.length ≠ distinctIds.length) (unknownIds label existing distinctIds)
  modify fun w => { w with db := delete w.db }
  save (fun db => (distinctIds.map Uuid.cast).foldlM insert db) .unexpected

/-! ## `PermissionsService`

The cache and the permissions. A lookup reads the cache first. A removal deletes the entries of the
users it concerns afterwards, in one `DEL`; a new permission, or a new description, concerns nobody. -/

structure CreatePermissionInput where
  action      : PermissionAction
  subject     : PermissionSubject
  description : Option String
deriving DecidableEq

namespace PermissionsService

/-- `permissions:user:<userId>`, from the id as the caller spells it. -/
def cacheKey (userId : String) : String := "rbac:perms:" ++ userId

/-- `GET` of an entry. Here an entry is the list of rules itself; how its text is read is in
    `Rbac.Guard`. -/
def safeGet (key : String) : Service (Option (List PermissionRule)) := gets fun w => w.cache key

/-- `SET … PX`. An entry that expires is an event of a run (`Rbac.Outcome`), so the lifetime is not part
    of the entry. -/
def safeSet (key : String) (rules : List PermissionRule) : Service Unit :=
  modify fun w => { w with cache := Function.update w.cache key (some rules) }

/-- One `DEL` for all keys; none for an empty list. -/
def safeDelBatch (keys : List String) : Service Unit :=
  modify fun w => { w with cache := fun key => if key ∈ keys then none else w.cache key }

def safeDel (key : String) : Service Unit := safeDelBatch [key]

/-- The rules in the cache, or those of the tables, which are then stored. Between the two nothing is
    locked. -/
def getPermissionRulesForUser (userId : String) : Service (List PermissionRule) := do
  -- a record for the statements only: the service keeps no such list
  modify fun w => { w with asked := Uuid.cast userId :: w.asked }
  let cached ← safeGet (cacheKey userId)
  match cached with
  | some rules => return rules
  | none => do
      let rules ← gets fun w => w.db.loadPermissionRules (.cast userId)
      safeSet (cacheKey userId) rules
      return rules

/-- The entry of one user is deleted, under the id as it was given. -/
def invalidateUser (userId : String) : Service Unit := safeDel (cacheKey userId)

/-- The entries of all users listed, whose ids come from the database. -/
def invalidateUsers (userIds : List Uuid) : Service Unit :=
  safeDelBatch (userIds.map fun userId => cacheKey userId.text)

def findPermissionById (id : String) : Service (Option Permission) :=
  gets fun w => w.db.permissions.get (.cast id)

def alreadyExists (rule : PermissionRule) : String :=
  "Permission \"" ++ permissionKey rule ++ "\" already exists"

def assertUniquePermission (action : PermissionAction) (subject : PermissionSubject) : Service Unit := do
  let existing ← gets fun w => w.db.permissions.find? fun p => p.rule = ⟨action, subject⟩
  throwIf existing.isSome (.http (.conflict (alreadyExists ⟨action, subject⟩)))

/-- A new permission, unless action and subject are taken: asked first, and enforced by the unique
    index. -/
def createPermission (o : Choice) (input : CreatePermissionInput) : Service Permission := do
  assertUniquePermission input.action input.subject
  let row : Permission := ⟨o.id, input.action, input.subject, input.description⟩
  (save (·.insertPermission row) .uniqueViolation).mapError
    (rethrowConflictOrOriginal (alreadyExists ⟨input.action, input.subject⟩))
  return row

/-- Only the description changes, so nobody's rights do and no entry is deleted. An unknown id is
    answered with 400. -/
def updatePermission (id : String) (description : Option String) : Service Permission := do
  let permission ← findPermissionById id
  let permission ← orThrow permission (.http (.badRequest "Permission not found"))
  let row := { permission with description := description }
  modify fun w => { w with db := w.db.putPermission row }
  return row

/-- The permission and, by the cascade, its place in every role. The users concerned are looked up
    before the deletion. -/
def removePermission (id : String) : Service Unit := do
  let permission ← findPermissionById id
  let _ ← orThrow permission (.http (.badRequest "Permission not found"))
  -- the holders are looked up before the cascade removes the join rows
  let userIds ← gets fun w => w.db.findUserIdsWithPermission (.cast id)
  modify fun w => { w with db := w.db.deletePermission (.cast id) }
  invalidateUsers userIds

end PermissionsService

/-! ## `RolesService`

Roles and what they carry. System roles are protected by `assertMutable`, at the start of each call
that changes a role. -/

structure CreateRoleDto where
  name        : String
  description : Option String
deriving DecidableEq

/-- An absent field is `none`, an explicit `null` is `some none`. -/
structure UpdateRoleDto where
  name        : Option (Option String)
  description : Option (Option String)
deriving DecidableEq

namespace RolesService

def alreadyExists (name : String) : String := "Role \"" ++ name ++ "\" already exists"

/-- `roleRepository.existsBy({ name })` -/
def existsByName (name : String) : Service Bool :=
  gets fun w => (w.db.roles.find? fun r => r.name = name).isSome

/-- A role with its permissions, or 404. -/
def getOrThrow (id : String) : Service Role := do
  let role ← gets fun w => w.db.roles.get (.cast id)
  orThrow role (.http (.notFound "Role not found"))

/-- 403 for a system role, with the action in the message. -/
def assertMutable (role : Role) (action : String) : Service Unit :=
  throwIf role.isSystem (.http (.forbidden ("System role \"" ++ role.name ++ "\" cannot be " ++ action)))

def create (o : Choice) (dto : CreateRoleDto) : Service Role := do
  let name := trim dto.name
  let taken ← existsByName name
  throwIf taken (.http (.conflict (alreadyExists name)))
  let row : Role := ⟨o.id, name, trimOrNull dto.description, false⟩
  (save (·.insertRole row) .uniqueViolation).mapError (rethrowConflictOrOriginal (alreadyExists name))
  getOrThrow row.id.text

/-- The assignment of `dto.name`; `null.trim()` is a `TypeError`. -/
def rename (role : Role) : Option (Option String) → Service Role
  | none => pure role
  | some none => throw .unexpected
  | some (some name) =>
      if trim name = role.name then pure role
      else do
        let taken ← existsByName (trim name)
        throwIf taken (.http (.conflict (alreadyExists (trim name))))
        return { role with name := trim name }

/-- The assignment of `dto.description`. -/
def describe (role : Role) : Option (Option String) → Role
  | none             => role
  | some description => { role with description := trimOrNull description }

def update (id : String) (dto : UpdateRoleDto) : Service Role := do
  let role ← getOrThrow id
  assertMutable role "update"
  let renamed ← rename role dto.name
  let row := describe renamed dto.description
  (save (·.updateRole row) .uniqueViolation).mapError
    (rethrowConflictOrOriginal (alreadyExists row.name))
  getOrThrow id

/-- The role and, by the cascades, its rows in both join tables. Its users are looked up before. -/
def remove (id : String) : Service Unit := do
  let role ← getOrThrow id
  assertMutable role "delete"
  let userIds ← gets fun w => w.db.findUserIdsWithRole (.cast id)
  modify fun w => { w with db := w.db.deleteRole (.cast id) }
  PermissionsService.invalidateUsers userIds

/-- The transaction of `setPermissions`. -/
def replacePermissions (roleId : Uuid) (permissionIds : List String) : Service Unit :=
  transaction
    (replaceJoinRows (fun db => db.permissions.rows.map Permission.id) (·.deleteRolePermissions roleId)
      (·.insertRolePermission roleId) permissionIds "permission")

/-- The permissions of a role, replaced as a whole; the entries of its users are deleted afterwards. -/
def setPermissions (id : String) (permissionIds : List String) : Service Role := do
  let role ← getOrThrow id
  assertMutable role "modify permissions of"
  replacePermissions role.id permissionIds
  -- here the lookup comes after the write, which leaves `user_roles` alone
  let userIds ← gets fun w => w.db.findUserIdsWithRole role.id
  PermissionsService.invalidateUsers userIds
  getOrThrow id

end RolesService

/-! ## `UsersService`

Accounts, as far as the access-control tables go. A user is created together with its first roles. -/

structure CreateUserDto extends RegisterDto where
  roleIds : Option (List String)
deriving DecidableEq

namespace UsersService

def findByEmail (env : Env) (email : String) : Service (Option User) :=
  gets fun w => w.db.users.find? fun u => env.citextLower u.email = env.citextLower email &&
    u.deletedAt.isNone

/-- A user in use with the roles, or 404. -/
def findWithRolesOrFail (id : String) : Service User := do
  let user ← gets fun w => (w.db.users.get (.cast id)).filter fun u => u.deletedAt.isNone
  orThrow user (.http (.notFound "User not found"))

/-- The first roles of a new user. An id that is not the canonical text of a role is answered with
    400. -/
def assignRoles (userId : String) (roleIds : List String) : Service Unit :=
  replaceJoinRows (fun db => db.roles.rows.map Role.id) (·.deleteUserRoles (.cast userId))
    (·.insertUserRole (.cast userId)) roleIds "role"

/-- The roles of a new user: those given, or the default role. -/
def assignFirstRoles (userId : Uuid) (roleIds : List String) : Service Unit :=
  if roleIds ≠ [] then assignRoles userId.text roleIds
  else do
    let found ← gets fun w => w.db.roles.find? fun r => r.name = "user"
    let defaultRole ← orThrow found .unexpected
    save (·.insertUserRole userId defaultRole.id) .unexpected

/-- The row of the user and the rows of its roles, in one transaction. -/
def createUserInTransaction (env : Env) (row : User) (roleIds : List String) : Service User :=
  transaction do
    save (·.insertUser env row) .uniqueViolation
    assignFirstRoles row.id roleIds
    return row

def create (env : Env) (o : Choice) (dto : CreateUserDto) : Service User := do
  let existing ← findByEmail env (normalizeEmail env dto.email)
  throwIf existing.isSome (.http (.conflict "Email is already registered"))
  let user ← (createUserInTransaction env (Session.newUser env o dto.toRegisterDto)
    (dto.roleIds.getD [])).mapError
    (rethrowConflictOrOriginal "Email is already registered")
  findWithRolesOrFail user.id.text

/-- `AuthService.register`, up to the session it then opens. -/
def register (env : Env) (o : Choice) (dto : RegisterDto) : Service User := do
  let existing ← findByEmail env (normalizeEmail env dto.email)
  throwIf existing.isSome (.http (.conflict "Email is already registered"))
  (createUserInTransaction env (Session.newUser env o dto) []).mapError
    (rethrowConflictOrOriginal "Email is already registered")

def update (o : Choice) (id : String) (dto : UpdateUserDto) (actingUserId : Option String) :
    Service User := do
  throwIf (some id = actingUserId ∧ dto.status.isSome)
    (.http (.badRequest "Cannot change your own status"))
  let row ← findWithRolesOrFail id
  let user ← orThrow (dto.apply row) .unexpected
  modify fun w => { w with db := w.db.putUser (Update.saved o.now user row) }
  findWithRolesOrFail id

/-- 400 for the acting account, 404 for an account that is not in use; else the row is marked and the
    entry deleted. -/
def softDelete (o : Choice) (id : String) (actingUserId : Option String) : Service Unit := do
  throwIf (some id = actingUserId) (.http (.badRequest "Cannot delete your own account"))
  let row ← findWithRolesOrFail id
  transaction (modify fun w => { w with db := w.db.putUser (SoftDelete.withDeletedAt o.now row) })
  PermissionsService.invalidateUser id

/-- The roles of a user, replaced as a whole; then the entry is deleted and the user read back, which is
    where a deleted user is noticed. -/
def setRoles (userId : String) (roleIds : List String) : Service User := do
  transaction (assignRoles userId roleIds)
  PermissionsService.invalidateUser userId
  findWithRolesOrFail userId

end UsersService

end NestApp
