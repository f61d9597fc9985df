import NestApp.Rbac.Outcome

/-!
# `Rbac.Seed` — the roles and permissions a deployment starts with

The seeding script `seed-roles-permissions`: what exists is left as it is, the rest is inserted.
`generate n` is the id the database generates for the `n`-th row of the database; `none` is a script
that fails.

Here the script is the way to a deployment to start from, on an empty schema and without failures. What
it does to a database that has been used, and when it is stopped, is in `Rbac.Reseed` and
`Seeds.Resumption`.
-/

namespace NestApp

open Sql

structure SeedRole where
  name        : String
  description : String
  isSystem    : Bool
  permissions : List PermissionRule

def SEED_ROLES : List SeedRole :=
  [{ name := "admin", description := "Full system administration access", isSystem := true,
     permissions := [⟨.manage, .user⟩, ⟨.manage, .role⟩, ⟨.manage, .permission⟩, ⟨.manage, .metric⟩] },
   { name := "user", description := "Default registered user", isSystem := true,
     permissions := [⟨.read, .user⟩, ⟨.read, .role⟩] }]

namespace Rbac

def empty : Rbac where
  users           := .empty
  roles           := .empty
  permissions     := .empty
  userRoles       := .empty
  rolePermissions := .empty
  userOf          := fun _ h => absurd h List.not_mem_nil
  roleOf          := fun _ h => absurd h List.not_mem_nil
  ownerOf         := fun _ h => absurd h List.not_mem_nil
  permissionOf    := fun _ h => absurd h List.not_mem_nil

/-- The number of ids generated so far. -/
def generated (db : Rbac) : Nat :=
  db.users.rows.length + db.roles.rows.length + db.permissions.rows.length

def findPermission (db : Rbac) (rule : PermissionRule) : Option Permission :=
  db.permissions.find? fun p => p.rule = rule

def findRole (db : Rbac) (name : String) : Option Role := db.roles.find? fun r => r.name = name

variable (generate : Nat → Uuid)

def seedPermission (db : Rbac) (rule : PermissionRule) : Option Rbac :=
  if (db.findPermission rule).isSome then some db
  else db.insertPermission ⟨generate db.generated, rule.action, rule.subject, none⟩

def seedPermissions (db : Rbac) : Option Rbac :=
  (SEED_ROLES.flatMap SeedRole.permissions).foldlM (seedPermission generate) db

/-- Attach a seeded permission to a role, unless it is. -/
def seedRolePermission (roleId : Uuid) (db : Rbac) (rule : PermissionRule) : Option Rbac :=
  match db.findPermission rule with
  | none => some db
  | some permission =>
      if (db.rolePermissions.get (roleId, permission.id)).isSome then some db
      else db.insertRolePermission roleId permission.id

def seedRole (db : Rbac) (role : SeedRole) : Option Rbac := do
  let db ← if (db.findRole role.name).isSome then some db
    else db.insertRole ⟨generate db.generated, role.name, some role.description, role.isSystem⟩
  let row ← db.findRole role.name
  role.permissions.foldlM (seedRolePermission row.id) db

def seedRoles (db : Rbac) : Option Rbac := SEED_ROLES.foldlM (seedRole generate) db

/-- The bootstrap administrator: an account with the `admin` role. -/
def seedBootstrapAdmin (env : Env) (now : Nat) (adminEmail passwordHash : String)
    (db : Rbac) : Option Rbac := do
  let found := db.users.find? fun u => env.citextLower u.email = env.citextLower adminEmail &&
    u.deletedAt.isNone
  let admin := found.getD ⟨generate db.generated, adminEmail, passwordHash, none, none,
    .active, none, now, now, none⟩
  let db ← if found.isSome then some db else db.insertUser env admin
  let adminRole ← db.findRole "admin"
  if (db.userRoles.get (admin.id, adminRole.id)).isSome then some db
    else db.insertUserRole admin.id adminRole.id

def seed (env : Env) (now : Nat) (adminEmail passwordHash : String) (db : Rbac) : Option Rbac := do
  let db ← db.seedPermissions generate
  let db ← db.seedRoles generate
  db.seedBootstrapAdmin generate env now adminEmail passwordHash

end Rbac

/-! ## A seeded deployment

The result on an empty schema, by evaluation. The examples of this development begin here. -/

/-- The ids generated during the seeding. -/
def seedIds : List Uuid :=
  [⟨"6f2a5b7c-8d1e-4f3a-9b2c-1d2e3f4a5b00", by decide +kernel⟩,
    ⟨"6f2a5b7c-8d1e-4f3a-9b2c-1d2e3f4a5b01", by decide +kernel⟩,
    ⟨"6f2a5b7c-8d1e-4f3a-9b2c-1d2e3f4a5b02", by decide +kernel⟩,
    ⟨"6f2a5b7c-8d1e-4f3a-9b2c-1d2e3f4a5b03", by decide +kernel⟩,
    ⟨"6f2a5b7c-8d1e-4f3a-9b2c-1d2e3f4a5b04", by decide +kernel⟩,
    ⟨"6f2a5b7c-8d1e-4f3a-9b2c-1d2e3f4a5b05", by decide +kernel⟩,
    ⟨"6f2a5b7c-8d1e-4f3a-9b2c-1d2e3f4a5b06", by decide +kernel⟩,
    ⟨"6f2a5b7c-8d1e-4f3a-9b2c-1d2e3f4a5b07", by decide +kernel⟩,
    ⟨"6f2a5b7c-8d1e-4f3a-9b2c-1d2e3f4a5b08", by decide +kernel⟩]

def seedId (n : Nat) : Uuid := seedIds.getD n ⟨"", by decide +kernel⟩

/-- The database after the seeding script, on an empty schema. -/
def seededDb : Rbac := ((Rbac.empty.seed seedId toyEnv 0 "a@b.co" "hash").getD .empty)

/-- The deployment as it starts: seeded tables and an empty cache. -/
def seededWorld : World := ⟨seededDb, fun _ => none, []⟩

/-- A call whose generated values do not matter. -/
def Event.plain (request : Request) : Event := .call (.at 1 uuidA "" uuidA) request

end NestApp
