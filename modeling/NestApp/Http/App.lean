import NestApp.Auth.Rotation
import NestApp.Lib.Pool
import NestApp.Rbac.Guard
import NestApp.Realtime.Bearer
import NestApp.Users.FindAll

/-!
# `Http.App` — the application as a client sees it

Every route of the controllers, with what its decorators say (`isPublic`, `required`) and what it does
(`handle`). A request is a call of a pool: its first step is `guards` (`JwtAuthGuard`, then
`PermissionsGuard`), its second the pipes and the handler. Between the two, other requests do theirs,
and Redis may drop an entry of the permission cache.

The bodies are validated; a path parameter is checked by `ParseUUIDPipe`, after the guards. The
throttlers only refuse requests, and a refused request is one that is not made.

Each handler is one step. What happens when two of them overlap between their own statements is the
subject of `Auth.Service`, `Users.Update`, `Rbac.RoleLocks` and the modules on top of them; here the
question is what the guards, the handlers and the cache come to together.
-/

namespace NestApp

open Sql Prog

namespace Http

/-! ## Serializers

What an answer shows of a row: nothing of a password hash, and the roles by their names. The time
stamps of roles and permissions are left out. -/

structure RoleName where
  id   : Uuid
  name : String
deriving DecidableEq

structure SafeUser where
  id              : Uuid
  email           : String
  firstName       : Option String
  lastName        : Option String
  status          : UserStatus
  emailVerifiedAt : Option Nat
  createdAt       : Nat
  roles           : Option (List RoleName)
deriving DecidableEq

/-- `roles` is left out for a user without roles, and where they were not loaded. -/
def serializeUser (user : User) (userRoles : List Role) : SafeUser where
  id              := user.id
  email           := user.email
  firstName       := user.firstName
  lastName        := user.lastName
  status          := user.status
  emailVerifiedAt := user.emailVerifiedAt
  createdAt       := user.createdAt
  roles           := if userRoles = [] then none
    else some (userRoles.map fun role => ⟨role.id, role.name⟩)

/-- A permission as an answer shows it, without `createdAt` and `updatedAt`. -/
structure SafePermission where
  id          : Uuid
  rule        : PermissionRule
  description : Option String
deriving DecidableEq

def serializePermission (permission : Permission) : SafePermission :=
  ⟨permission.id, permission.rule, permission.description⟩

/-- A role as an answer shows it, without `createdAt` and `updatedAt`. -/
structure SafeRole where
  id          : Uuid
  name        : String
  description : Option String
  isSystem    : Bool
  permissions : List PermissionRule
deriving DecidableEq

/-- `a.localeCompare(b) <= 0` and the order of the database's `varchar` columns. Both depend on the
    locale, and nothing is assumed of them. -/
structure Collations where
  locale   : String → String → Bool
  database : String → String → Bool

def serializeRole (order : Collations) (role : Role) (rolePermissions : List Permission) : SafeRole where
  id          := role.id
  name        := role.name
  description := role.description
  isSystem    := role.isSystem
  permissions := (rolePermissions.map Permission.rule).mergeSort fun a b =>
    order.locale (permissionKey a) (permissionKey b)

/-- The permissions of a role, through `role_permissions`. -/
def permissionsOf (db : Rbac) (roleId : Uuid) : List Permission :=
  (db.rolePermissions.rows.filter fun rp => rp.roleId = roleId).filterMap fun rp =>
    db.permissions.get rp.permissionId

/-! ## Routes

A route carries its path parameter and its validated body. What its decorators say is a function of the
route. -/

/-- The routes of the controllers. A cookie is the value of the refresh cookie, if the request has
    one. -/
inductive Route where
  | ping
  | health
  | metrics
  | register (dto : RegisterDto)
  | login (dto : LoginDto)
  | refresh (cookie : Option String)
  | logout (cookie : Option String)
  | forgotPassword (dto : ForgotPasswordDto)
  | resetPassword (dto : ResetPasswordDto)
  | getMe
  | findAllUsers (query : ListUsersQueryDto)
  | findUser (id : String)
  | createUser (dto : CreateUserDto)
  | updateUser (id : String) (dto : UpdateUserDto)
  | removeUser (id : String)
  | setRoles (id : String) (roleIds : List String)
  | findAllRoles
  | createRole (dto : CreateRoleDto)
  | updateRole (id : String) (dto : UpdateRoleDto)
  | removeRole (id : String)
  | setPermissions (id : String) (permissionIds : List String)
  | findAllPermissions
  | createPermission (input : CreatePermissionInput)
  | updatePermission (id : String) (description : Option String)
  | removePermission (id : String)

namespace Route

/-- `@Public()` -/
def isPublic : Route → Bool
  | .ping | .health | .register _ | .login _ | .refresh _ | .logout _ | .forgotPassword _ |
      .resetPassword _ => true
  | _ => false

/-- `@RequirePermissions(…)`: the permissions without which `PermissionsGuard` refuses the request. -/
def required : Route → Option (List PermissionRule)
  | .findAllUsers _ | .findUser _ | .createUser _ | .updateUser .. | .removeUser _ | .setRoles .. =>
      some [⟨.manage, .user⟩]
  | .findAllRoles | .createRole _ | .updateRole .. | .removeRole _ | .setPermissions .. =>
      some [⟨.manage, .role⟩]
  | .findAllPermissions | .createPermission _ | .updatePermission .. | .removePermission _ =>
      some [⟨.manage, .permission⟩]
  | .metrics => some [⟨.manage, .metric⟩]
  | _ => none

/-- `@Param('id', ParseUUIDPipe)` -/
def idParam : Route → Option String
  | .findUser id | .updateUser id _ | .removeUser id | .setRoles id _ | .updateRole id _ | .removeRole id
  | .setPermissions id _ | .updatePermission id _ | .removePermission id => some id
  | _ => none

end Route

structure Request where
  route         : Route
  authorization : Option String
  metadata      : SessionMetadata

/-- What a handler returns. -/
inductive Body where
  | empty
  /-- the cookie set and the user; the access token is signed for the user's id and address -/
  | session (refreshToken : String) (user : SafeUser)
  | user (user : SafeUser)
  | users (items : List SafeUser) (total page limit : Nat)
  | role (role : SafeRole)
  | roles (roles : List SafeRole)
  | permission (permission : SafePermission)
  | permissions (permissions : List SafePermission)
deriving DecidableEq

/-! ## The application

The guards and the handlers over the services of the other modules. The state is that of the services:
the tables, the sessions and links, the mails, and the permission cache. -/

/-- The libraries and the configuration: the environment of the services, the JWT library with its
    secret, CASL, the mail driver, and what depends on the locale. -/
structure App where
  env    : Env
  jwt    : Realtime.Jwt
  casl   : Casl
  driver : MailDriver
  fold   : Like.CaseFold
  order  : Collations
  /-- `ParseUUIDPipe` lets the text pass -/
  isUuid : String → Bool

/-- What one step is given from outside: generated values, a failing statement, the answer of the mail
    queue and the order in which the database finds rows that its `ORDER BY` does not tell apart. -/
structure Draw where
  o            : Choice
  oSession     : Choice
  fault        : Option DbCall
  queueAccepts : Bool
  rank         : Uuid → Nat

/-- `JwtAuthGuard`: a public route is reached without a user. Elsewhere the token must verify, and its
    account be in use and active. -/
def jwtAuthGuard (app : App) (x : Draw) (request : Request) (db : Rbac) : Except Failure (Option User) :=
  if request.route.isPublic then .ok none
  else (Realtime.JwtAuthGuard.canActivate app.jwt db x.o.now request.authorization).map some

/-- `PermissionsGuard`, over the rules of the cache: a lookup that finds no entry loads the rules from
    the tables and stores them. -/
def permissionsGuard (casl : Casl) (required : Option (List PermissionRule)) (user : Option User) :
    Service Unit :=
  match required with
  | none | some [] => return
  | some rules => do
      let user ← orThrow user (.http (.unauthorized "Unauthorized"))
      let granted ← PermissionsService.getPermissionRulesForUser user.id.text
      let ability := casl.createMongoAbility (granted.map PermissionRule.ability)
      throwIf (rules.length > 0 ∧
        rules.any (fun rule => !casl.can ability rule.action.text rule.subject.text))
        PermissionsGuard.insufficientPermissions

/-- The guards of a request: the user it is carried on with. -/
def guards (app : App) (x : Draw) (request : Request) : AccountService (Option User) := do
  let found ← gets fun s => jwtAuthGuard app x request s.world.db
  match found with
  | .error e => throw e
  | .ok user => do
      onWorld (permissionsGuard app.casl request.route.required user)
      return user

/-- `toAuthResponse`, and the cookie: the row of the user is as the service has read it. -/
def sessionBody (withRoles : Bool) (refreshToken : String) (userId : Uuid) : AccountService Body := do
  let found ← gets fun s => (s.world.db.users.get userId).map fun user =>
    serializeUser user (if withRoles then s.world.db.rolesOf userId else [])
  let user ← orThrow found .unexpected
  return .session refreshToken user

/-- A user that a service returns with the roles loaded. -/
def userBody (m : Service User) : AccountService Body := do
  let user ← onWorld m
  gets fun s => .user (serializeUser user (s.world.db.rolesOf user.id))

def roleBody (order : Collations) (m : Service Role) : AccountService Body := do
  let role ← onWorld m
  gets fun s => .role (serializeRole order role (permissionsOf s.world.db role.id))

/-- `order: { createdAt: 'DESC' }` -/
def newestFirst (rank : Uuid → Nat) (users : List User) : List User :=
  users.mergeSort fun a b =>
    a.createdAt > b.createdAt || (a.createdAt = b.createdAt && rank a.id ≤ rank b.id)

def usersBody (app : App) (x : Draw) (query : ListUsersQueryDto) (db : Rbac) : Body :=
  let ordered := newestFirst x.rank (UsersService.matching app.fold db query.q)
  let page := UsersService.findAll app.fold db (UsersService.answersOf db query ordered) query
  .users (page.items.map fun item => serializeUser item.user item.userRoles) page.total
    page.page page.limit

def rolesBody (order : Collations) (db : Rbac) : Body :=
  let roles := db.roles.rows.mergeSort fun a b => order.database a.name b.name
  .roles (roles.map fun role => serializeRole order role (permissionsOf db role.id))

/-- `order: { subject: 'ASC', action: 'ASC' }` -/
def permissionsBody (order : Collations) (db : Rbac) : Body :=
  let bySubject (a b : Permission) : Bool :=
    if a.subject = b.subject then order.database a.action.text b.action.text
      else order.database a.subject.text b.subject.text
  .permissions ((db.permissions.rows.mergeSort bySubject).map serializePermission)

/-- The handlers. `ping`, `health` and `metrics` answer about the process and read nothing of the
    accounts: their bodies are left out, and so is the check of the error rate that `metrics` makes
    (`Shared.ErrorRateMonitor`). -/
def handle (app : App) (x : Draw) (actor : Option User) (metadata : SessionMetadata) :
    Route → AccountService Body
  | .ping | .health | .metrics => return .empty
  | .register dto => do
      let token ← AuthService.register app.env x.o x.oSession x.fault dto metadata
      -- the entity just saved, without its roles
      sessionBody false x.oSession.token token.userId
  | .login dto => do
      let token ← AuthService.login app.env x.o dto metadata
      sessionBody true x.o.token token.userId
  | .refresh cookie => do
      let session ← AuthService.refresh app.env x.o cookie metadata
      sessionBody false x.o.token session.1.id
  | .logout cookie => do
      AuthService.logout app.env x.o cookie
      return .empty
  | .forgotPassword dto => do
      AuthService.forgotPassword app.env app.driver x.o x.queueAccepts x.fault dto metadata
      return .empty
  | .resetPassword dto => do
      AuthService.resetPassword app.env x.o dto
      return .empty
  | .getMe => do
      let user ← orThrow actor .unexpected
      return .user (serializeUser user [])
  | .findAllUsers query => gets fun s => usersBody app x query s.world.db
  | .findUser id => userBody (UsersService.findWithRolesOrFail id)
  | .createUser dto => userBody (UsersService.create app.env x.o dto)
  | .updateUser id dto => userBody (UsersService.update x.o id dto (actor.map fun user => user.id.text))
  | .removeUser id => do
      Accounts.softDelete x.o id (actor.map fun user => user.id.text)
      return .empty
  | .setRoles id roleIds => userBody (UsersService.setRoles id roleIds)
  | .findAllRoles => gets fun s => rolesBody app.order s.world.db
  | .createRole dto => roleBody app.order (RolesService.create x.o dto)
  | .updateRole id dto => roleBody app.order (RolesService.update id dto)
  | .removeRole id => do
      onWorld (RolesService.remove id)
      return .empty
  | .setPermissions id permissionIds => roleBody app.order (RolesService.setPermissions id permissionIds)
  | .findAllPermissions => gets fun s => permissionsBody app.order s.world.db
  | .createPermission input => do
      let permission ← onWorld (PermissionsService.createPermission x.o input)
      return .permission (serializePermission permission)
  | .updatePermission id description => do
      let permission ← onWorld (PermissionsService.updatePermission id description)
      return .permission (serializePermission permission)
  | .removePermission id => do
      onWorld (PermissionsService.removePermission id)
      return .empty

def uuidExpected : Failure := .http (.badRequest "Validation failed (uuid is expected)")

/-- The pipe of the path parameter, then the handler. A path parameter that is no UUID is refused here,
    after the guards. -/
def serve (app : App) (x : Draw) (actor : Option User) (request : Request) : AccountService Body := do
  throwIf (request.route.idParam.any fun id => !app.isUuid id) uuidExpected
  handle app x actor request.metadata request.route

/-! ## Requests in flight

A pool of calls over that state. A call is stepped when the schedule says so, with a draw of its own. -/

/-- A request, before its guards, after them and answered; and an entry of the cache that expires. An
    answered request keeps its answer. -/
inductive Call where
  | arrived (request : Request)
  | admitted (request : Request) (actor : Option User)
  | answered (response : Except Failure Body)
  | entry (key : String)
  | expired

/-- The cache without an entry. -/
def dropEntry (s : Accounts) (key : String) : Accounts :=
  { s with world := s.world.wrote s.world.db [key] }

def exec {C : Type} (app : App) : Pool.Code Accounts Call Draw C := fun _ s call x =>
  match call with
  | .arrived request =>
      match guards app x request s with
      | (.ok actor, s') => some (s', .admitted request actor)
      | (.error e, s')  => some (s', .answered (.error e))
  | .admitted request actor =>
      let done := serve app x actor request s
      some (done.2, .answered done.1)
  | .entry key => some (dropEntry s key, .expired)
  | .answered _ | .expired => none

abbrev State (C : Type) := Pool.Config Accounts Call C

/-- A call that has not begun. -/
def Call.begins : Call → Prop
  | .arrived _ | .entry _ => True
  | _                     => False

end Http

end NestApp
