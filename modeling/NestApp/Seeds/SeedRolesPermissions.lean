import NestApp.Rbac.Postgres
import NestApp.Rbac.Seed

/-!
# `Seeds.SeedRolesPermissions` — the seeding script, for any list of seed roles

`database/seeds/seed-roles-permissions.ts`, run on the tables as the migrations define them: a
`Database` carries its foreign keys and its unique constraints, an `INSERT` that would break one is
refused, and a `varchar(n)` column refuses a text that does not fit. The texts of a permission are
texts here: what may stand in the column is the `CHECK` constraint's business.

The script inserts and never updates. `Session.written` keeps the databases the run went through, one
for each write; a run that is stopped leaves one of them behind. A script that fails (`Failure`) exits
with a status and leaves what it has written.

Nothing of the outside is fixed: the ids, the salt and the clock of a run are given with it
(`Generated`), and two runs need not have the same ones. The seed roles are an argument too;
`SEED_ROLES` is the list that is deployed.
-/

namespace NestApp
namespace Seeds

open Sql Prog

/-! ## Seed roles

The list the script is written for. `permissionKey` is the key by which permissions are remembered from
one loop to the next. -/

structure SeedPermission where
  action  : String
  subject : String
deriving DecidableEq

structure SeedRole where
  name        : String
  description : String
  isSystem    : Bool
  permissions : List SeedPermission

/-- `` `${action}:${subject}` `` -/
def permissionKey (permission : SeedPermission) : String :=
  permission.action ++ ":" ++ permission.subject

/-- `Object.values(PermissionAction)`, the values the `CHECK` constraint admits. -/
def PERMISSION_ACTIONS : List String := ["manage", "create", "read", "update", "delete"]

def SEED_ROLES : List SeedRole :=
  [{ name := "admin", description := "Full system administration access", isSystem := true,
     permissions := [⟨"manage", "User"⟩, ⟨"manage", "Role"⟩, ⟨"manage", "Permission"⟩,
       ⟨"manage", "Metric"⟩] },
   { name := "user", description := "Default registered user", isSystem := true,
     permissions := [⟨"read", "User"⟩, ⟨"read", "Role"⟩] }]

/-- The list of `Rbac.Seed`, in texts. -/
example : SEED_ROLES = NestApp.SEED_ROLES.map fun role =>
    ⟨role.name, role.description, role.isSystem,
      role.permissions.map fun rule => ⟨rule.action.text, rule.subject.text⟩⟩ := rfl

/-! ## Tables

The rows, and a database as a structure that carries its constraints: the columns that are unique, and
the foreign keys of the two join tables. A row that would break one of them cannot be inserted. -/

structure Permission where
  id          : Uuid
  action      : String
  subject     : String
  description : Option String
deriving DecidableEq

def Permission.rule (p : Permission) : SeedPermission := ⟨p.action, p.subject⟩

instance : Keyed Permission Uuid := ⟨Permission.id⟩

@[simp] theorem key_permission (p : Permission) : key p = p.id := rfl

/-- What a `varchar(n)` column stores of a text: blanks past the limit are cut off, any other excess is
    refused, and so is U+0000. The length is counted in characters, not in code units. -/
def varchar (n : Nat) (text : String) : Option String :=
  if hasNul text then none
  else if text.length ≤ n then some text
  else if (text.toList.drop n).all (· = ' ') then some (String.ofList (text.toList.take n))
  else none

/-- A `varchar(n)` column that may be `NULL`. -/
def varcharOrNull (n : Nat) : Option String → Option (Option String)
  | none      => some none
  | some text => (varchar n text).map some

/-- A unique column stays unique under a new row whose value is free. -/
theorem unique_put {R K V : Type} [Keyed R K] [DecidableEq K] {t : Table R} {row : R}
    {P : R → Prop} {column : R → V}
    (hunique : ∀ a ∈ t.rows, ∀ b ∈ t.rows, P a → P b → column a = column b → a = b)
    (hnew : t.get (key row) = none) (hfree : P row → ∀ a ∈ t.rows, P a → column a ≠ column row) :
    ∀ a ∈ (t.put row).rows, ∀ b ∈ (t.put row).rows, P a → P b → column a = column b → a = b := by
  rw [Table.rows_put_new hnew]
  intro a ha b hb hPa hPb heq
  cases List.mem_append.mp ha with
  | inl hold =>
      cases List.mem_append.mp hb with
      | inl hold' => exact hunique a hold b hold' hPa hPb heq
      | inr hrow =>
          rw [List.mem_singleton] at hrow
          subst hrow
          exact absurd heq (hfree hPb a hold hPa)
  | inr hrow =>
      rw [List.mem_singleton] at hrow
      subst hrow
      cases List.mem_append.mp hb with
      | inl hold => exact absurd heq.symm (hfree hPa b hold hPb)
      | inr hrow' => exact (List.mem_singleton.mp hrow').symm

/-- The tables the script reads and writes, with their constraints: unique addresses among accounts in
    use, unique role names, unique pairs of action and subject, and join rows whose two sides exist. -/
@[ext] structure Database (env : Env) where
  users           : Table User
  roles           : Table Role
  permissions     : Table Permission
  userRoles       : Table UserRole
  rolePermissions : Table RolePermission
  /-- `user_roles.user_id` -/
  userOf       : ∀ r ∈ userRoles.rows, (users.get r.userId).isSome
  /-- `user_roles.role_id` -/
  roleOf       : ∀ r ∈ userRoles.rows, (roles.get r.roleId).isSome
  /-- `role_permissions.role_id` -/
  ownerOf      : ∀ r ∈ rolePermissions.rows, (roles.get r.roleId).isSome
  /-- `role_permissions.permission_id` -/
  permissionOf : ∀ r ∈ rolePermissions.rows, (permissions.get r.permissionId).isSome
  /-- `UQ_users_email_active` -/
  uniqueEmail  : ∀ a ∈ users.rows, ∀ b ∈ users.rows, a.deletedAt = none → b.deletedAt = none →
    env.citextLower a.email = env.citextLower b.email → a = b
  /-- `roles.name` is unique -/
  uniqueName   : ∀ a ∈ roles.rows, ∀ b ∈ roles.rows, a.name = b.name → a = b
  /-- `UQ_permissions_action_subject` -/
  uniqueRule   : ∀ a ∈ permissions.rows, ∀ b ∈ permissions.rows, a.rule = b.rule → a = b

variable {env : Env}

namespace Database

def empty : Database env where
  users           := .empty
  roles           := .empty
  permissions     := .empty
  userRoles       := .empty
  rolePermissions := .empty
  userOf          := Rbac.empty.userOf
  roleOf          := Rbac.empty.roleOf
  ownerOf         := Rbac.empty.ownerOf
  permissionOf    := fun _ h => absurd h List.not_mem_nil
  uniqueEmail     := fun _ h => absurd h List.not_mem_nil
  uniqueName      := fun _ h => absurd h List.not_mem_nil
  uniqueRule      := fun _ h => absurd h List.not_mem_nil

/-- No row has this id. -/
def Unused (db : Database env) (id : Uuid) : Prop :=
  db.users.get id = none ∧ db.roles.get id = none ∧ db.permissions.get id = none

/-- The live account with an e-mail address, as `citext` compares it. -/
def Holds (env : Env) (email : String) (u : User) : Prop :=
  u.deletedAt = none ∧ env.citextLower u.email = env.citextLower email

instance (email : String) (u : User) : Decidable (Holds env email u) :=
  inferInstanceAs (Decidable (_ ∧ _))

/-! ## `INSERT`

One statement for each table; `none` is a refused one. -/

/-- `INSERT INTO users` -/
def insertUser (db : Database env) (row : User) : Option (Database env) :=
  if h : db.users.get row.id = none ∧
    (row.deletedAt = none → ∀ u ∈ db.users.rows, ¬ Holds env row.email u) then
    some { db with
      users       := db.users.put row
      userOf      := fun r hr => Table.isSome_put (db.userOf r hr)
      uniqueEmail := fun a ha b hb hlive hlive' => unique_put (P := fun u => u.deletedAt = none)
        (fun a ha b hb hlive hlive' => db.uniqueEmail a ha b hb hlive hlive') h.1
        (fun hrow a ha hlive heq => h.2 hrow a ha ⟨hlive, heq⟩) a ha b hb hlive hlive' }
  else none

/-- `INSERT INTO roles` -/
def insertRole (db : Database env) (row : Role) : Option (Database env) := do
  let name ← varchar 50 row.name
  let description ← varcharOrNull 255 row.description
  let row := { row with name, description }
  if h : db.roles.get row.id = none ∧ ∀ r ∈ db.roles.rows, r.name ≠ row.name then
    some { db with
      roles      := db.roles.put row
      roleOf     := fun r hr => Table.isSome_put (db.roleOf r hr)
      ownerOf    := fun r hr => Table.isSome_put (db.ownerOf r hr)
      uniqueName := fun a ha b hb => unique_put (P := fun _ => True)
        (fun a ha b hb _ _ => db.uniqueName a ha b hb) h.1
          (fun _ a ha _ => h.2 a ha) a ha b hb trivial trivial }
  else none

/-- `INSERT INTO permissions` -/
def insertPermission (db : Database env) (row : Permission) : Option (Database env) := do
  let action ← varchar 20 row.action
  let subject ← varchar 100 row.subject
  let row := { row with action, subject }
  if h : db.permissions.get row.id = none ∧ action ∈ PERMISSION_ACTIONS ∧
    ∀ p ∈ db.permissions.rows, p.rule ≠ row.rule then
    some { db with
      permissions  := db.permissions.put row
      permissionOf := fun r hr => Table.isSome_put (db.permissionOf r hr)
      uniqueRule   := fun a ha b hb => unique_put (P := fun _ => True)
        (fun a ha b hb _ _ => db.uniqueRule a ha b hb) h.1
          (fun _ a ha _ => h.2.2 a ha) a ha b hb trivial trivial }
  else none

/-- `INSERT INTO user_roles` -/
def insertUserRole (db : Database env) (row : UserRole) : Option (Database env) :=
  if h : db.userRoles.get (key row) = none ∧ (db.users.get row.userId).isSome ∧
    (db.roles.get row.roleId).isSome then
    some { db with
      userRoles := db.userRoles.put row
      userOf    := fun r hr => by
        cases Table.mem_put.mp hr with
        | inl heq => exact heq ▸ h.2.1
        | inr hold => exact db.userOf r hold.1
      roleOf    := fun r hr => by
        cases Table.mem_put.mp hr with
        | inl heq => exact heq ▸ h.2.2
        | inr hold => exact db.roleOf r hold.1 }
  else none

/-- `INSERT INTO role_permissions` -/
def insertRolePermission (db : Database env) (row : RolePermission) : Option (Database env) :=
  if h : db.rolePermissions.get (key row) = none ∧ (db.roles.get row.roleId).isSome ∧
      (db.permissions.get row.permissionId).isSome then
    some { db with
      rolePermissions := db.rolePermissions.put row
      ownerOf         := fun r hr => by
        cases Table.mem_put.mp hr with
        | inl heq => exact heq ▸ h.2.1
        | inr hold => exact db.ownerOf r hold.1
      permissionOf    := fun r hr => by
        cases Table.mem_put.mp hr with
        | inl heq => exact heq ▸ h.2.2
        | inr hold => exact db.permissionOf r hold.1 }
  else none

end Database

/-! ## The script

The loops of the script as structural recursions over the seed roles, in a monad with failure over the
databases of the run. Every `await` that writes is one `write`. -/

/-- What a run is given from outside: the ids that `uuid_generate_v4()` returns, which no row has yet,
    the salt of a password hash, and the clock. Another run is given others. -/
structure Generated (env : Env) where
  id    : Database env → Uuid
  fresh : ∀ db : Database env, db.Unused (id db)
  salt  : String
  now   : Database env → Nat

/-- Why a run fails: a statement that is refused, or no role for the administrator. -/
inductive Failure where
  /-- a statement is refused -/
  | queryFailed
  /-- `findOneByOrFail` -/
  | entityNotFound
deriving DecidableEq

/-- The database, and what it was after each write of the run. Nothing is in a transaction, so each of
    these is what a crash may leave. -/
structure Session (env : Env) where
  db      : Database env
  written : List (Database env)

/-- `ADMIN_EMAIL` and `ADMIN_PASSWORD`. An environment variable contains no U+0000. -/
structure AdminEnv where
  email    : Option String
  password : Option String

/-- Neither is missing or empty. -/
def AdminEnv.given (admin : AdminEnv) : Option (String × String) :=
  match admin.email, admin.password with
  | some email, some password => if email = "" ∨ password = "" then none else some (email, password)
  | _, _ => none

/-- `permissionMap`: the row saved or found for a key. It is filled by the first loop and read by the
    second. -/
abbrev PermissionMap := String → Option Permission

abbrev Script (env : Env) (α : Type) := Prog (Session env) Failure α

/-- A write: the statement is refused, or the database is a new one. -/
def write (insert : Database env → Option (Database env)) : Script env Unit := do
  let db ← gets Session.db
  let db' ← orThrow (insert db) .queryFailed
  modify fun s => ⟨db', s.written ++ [db']⟩

/-- `let row = await find; if (!row) row = await save;`, the shape of every step of the script. -/
def findOrSave {α : Type} (find : Script env (Option α)) (save : Script env α) : Script env α := do
  match ← find with
  | some row => pure row
  | none => save

/-- A parameter of a query: a text with U+0000 is refused. -/
def bindText (text : String) : Script env Unit := throwIf (hasNul text = true) .queryFailed

variable (g : Generated env)

def findPermission (seed : SeedPermission) : Script env (Option Permission) := do
  bindText seed.action
  bindText seed.subject
  gets fun s => s.db.permissions.find? fun p => p.action = seed.action && p.subject = seed.subject

/-- `permissionRepository.save(permissionRepository.create(seedPermission))` -/
def savePermission (seed : SeedPermission) : Script env Permission := do
  let db ← gets Session.db
  let permission : Permission := ⟨g.id db, seed.action, seed.subject, none⟩
  write (·.insertPermission permission)
  pure permission

/-- One turn of the inner loop of `seedPermissions`. -/
def seedPermission (permissionMap : PermissionMap) (seed : SeedPermission) : Script env PermissionMap :=
  if (permissionMap (permissionKey seed)).isSome then pure permissionMap
  else do
    let permission ← findOrSave (findPermission seed) (savePermission g seed)
    pure (Function.update permissionMap (permissionKey seed) (some permission))

def seedPermissions (seeds : List SeedRole) : Script env PermissionMap :=
  seeds.foldlM (fun permissionMap role => role.permissions.foldlM
    (seedPermission g) permissionMap) fun _ => none

def findRole (name : String) : Script env (Option Role) := do
  bindText name
  gets fun s => s.db.roles.find? fun r => r.name = name

def saveRole (seed : SeedRole) : Script env Role := do
  let db ← gets Session.db
  let role : Role := ⟨g.id db, seed.name, some seed.description, seed.isSystem⟩
  write (·.insertRole role)
  pure role

/-- One turn of the inner loop of `seedRoles`. -/
def seedRolePermission (permissionMap : PermissionMap) (role : Role) (seed : SeedPermission) :
    Script env Unit :=
  match permissionMap (permissionKey seed) with
  | none => pure ()
  | some permission => do
      let existing ← gets fun s => s.db.rolePermissions.get (role.id, permission.id)
      if existing.isNone then write (·.insertRolePermission ⟨role.id, permission.id⟩)

/-- One turn of the outer loop of `seedRoles`. -/
def seedRole (permissionMap : PermissionMap) (seed : SeedRole) : Script env Unit := do
  let role ← findOrSave (findRole seed.name) (saveRole g seed)
  forM seed.permissions (seedRolePermission permissionMap role)

def seedRoles (seeds : List SeedRole) (permissionMap : PermissionMap) : Script env Unit :=
  forM seeds (seedRole g permissionMap)

def findUser (email : String) : Script env (Option User) :=
  gets fun s => s.db.users.find? fun u => Database.Holds env email u

/-- The hash is stored whatever its length: argon2 writes some hundred characters. -/
def saveUser (email password : String) : Script env User := do
  let db ← gets Session.db
  let user : User := ⟨g.id db, email, env.hashPassword g.salt password, none, none, .active,
    none, g.now db, g.now db, none⟩
  write (·.insertUser user)
  pure user

def seedBootstrapAdmin (admin : AdminEnv) : Script env Unit :=
  match admin.given with
  | none => pure ()
  | some (adminEmail, adminPassword) => do
      let user ← findOrSave (findUser adminEmail) (saveUser g adminEmail adminPassword)
      let adminRole ← findRole "admin"
      let adminRole ← orThrow adminRole .entityNotFound
      let existing ← gets fun s => s.db.userRoles.get (user.id, adminRole.id)
      if existing.isNone then write (·.insertUserRole ⟨user.id, adminRole.id⟩)

def seed (seeds : List SeedRole) (admin : AdminEnv) : Script env Unit := do
  let permissionMap ← seedPermissions g seeds
  seedRoles g seeds permissionMap
  seedBootstrapAdmin g admin

/-- A run of the script. -/
def runSeed (seeds : List SeedRole) (admin : AdminEnv) (db : Database env) :
    Except Failure Unit × Session env :=
  seed g seeds admin ⟨db, []⟩

/-- The database in the end. -/
def seeded (seeds : List SeedRole) (admin : AdminEnv) (db : Database env) : Database env :=
  (runSeed g seeds admin db).2.db

/-- What a run that is stopped may leave behind: the database before the first write, or after one of
    them. A statement that is under way when the process ends has happened or has not. -/
def stops (seeds : List SeedRole) (admin : AdminEnv) (db : Database env) : List (Database env) :=
  db :: (runSeed g seeds admin db).2.written

end Seeds
end NestApp
