import NestApp.Lib.Ddl

/-!
# `Migrations` — reverting a migration in a database that has been used

The three migrations as the lists of their statements. `InitSchema` and `PasswordResetTokens` only
create, after the two extensions, and their `down` drops what they created, in the reverse order.
`UserEmailPartialUnique` gives up the constraint `UNIQUE ("email")` for a unique index over the
accounts that are not deleted; its `down` adds the constraint again.

Between `up` and `down` the application has worked, so the rows are others. `migrations_revert`: the
newest migration can be reverted iff no two accounts share an address, the deleted ones included —
which the application allows, as a deleted account frees its address. Once it is, the other two can be
reverted in any case. `email_index_applies`: in the other direction the rows never stand in the way.

The texts of the statements are taken apart into the constructors of `Lib.Ddl`: names, types, lengths,
defaults and `ON DELETE` are those of the source. What the library knows of creating and dropping is
used as it is; the addresses are what is particular to this repository.
-/

namespace NestApp

open Ddl

namespace Migrations

/-! ## The tables

Column by column, in the order of `CREATE TABLE`. A check constraint and the primary key stand in the
statement itself; foreign keys are added by statements of their own at the end of the migration. -/

def idColumn : Column := ⟨"id", .uuid, true, some "uuid_generate_v4()"⟩

def createdAtColumn : Column := ⟨"created_at", .timestamptz, true, some "now()"⟩

def updatedAtColumn : Column := ⟨"updated_at", .timestamptz, true, some "now()"⟩

def permissions : TableDef where
  name    := "permissions"
  columns := [
    idColumn,
    ⟨"action", .varchar 20, true, none⟩,
    ⟨"subject", .varchar 100, true, none⟩,
    ⟨"description", .varchar 255, false, none⟩,
    createdAtColumn,
    updatedAtColumn]

def permissionsConstraints : List (String × Constraint) := [
  ("UQ_permissions_action_subject", .unique ["action", "subject"]),
  ("CHK_permissions_action_valid", .check "action" ["manage", "create", "read", "update", "delete"]),
  ("PK_920331560282b8bd21bb02290df", .primaryKey ["id"])]

def rolePermissions : TableDef where
  name    := "role_permissions"
  columns := [⟨"role_id", .uuid, true, none⟩, ⟨"permission_id", .uuid, true, none⟩, createdAtColumn]

def roles : TableDef where
  name    := "roles"
  columns := [
    idColumn,
    ⟨"name", .varchar 50, true, none⟩,
    ⟨"description", .varchar 255, false, none⟩,
    ⟨"is_system", .boolean, true, some "false"⟩,
    createdAtColumn,
    updatedAtColumn]

def rolesConstraints : List (String × Constraint) := [
  ("UQ_648e3f5447f725579d7d4ffdfb7", .unique ["name"]),
  ("PK_c1433d71a4838793a49dcad46ab", .primaryKey ["id"])]

def userRoles : TableDef where
  name    := "user_roles"
  columns := [⟨"user_id", .uuid, true, none⟩, ⟨"role_id", .uuid, true, none⟩, createdAtColumn]

def users : TableDef where
  name    := "users"
  columns := [
    idColumn,
    ⟨"email", .citext, true, none⟩,
    ⟨"password_hash", .varchar 255, true, none⟩,
    ⟨"first_name", .varchar 100, false, none⟩,
    ⟨"last_name", .varchar 100, false, none⟩,
    ⟨"status", .varchar 20, true, some "'active'"⟩,
    ⟨"email_verified_at", .timestamptz, false, none⟩,
    createdAtColumn,
    updatedAtColumn,
    ⟨"deleted_at", .timestamptz, false, none⟩]

/-- `UNIQUE ("email")`, over all accounts. -/
def emailConstraint : NamedConstraint := ⟨"users", "UQ_97672ac88f789774dd47f7c8be3", .unique ["email"]⟩

def usersConstraints : List (String × Constraint) := [
  (emailConstraint.name, emailConstraint.constraint),
  ("CHK_users_status_valid", .check "status" ["active", "inactive", "suspended"]),
  ("PK_a3ffb1c0c8416b9fc6f907b7433", .primaryKey ["id"])]

def refreshTokens : TableDef where
  name    := "refresh_tokens"
  columns := [
    idColumn,
    ⟨"token_hash", .varchar 255, true, none⟩,
    ⟨"user_id", .uuid, true, none⟩,
    ⟨"family_id", .uuid, true, none⟩,
    ⟨"expires_at", .timestamptz, true, none⟩,
    ⟨"revoked_at", .timestamptz, false, none⟩,
    ⟨"replaced_by_token_id", .uuid, false, none⟩,
    ⟨"ip_address", .varchar 45, false, none⟩,
    ⟨"user_agent", .text, false, none⟩,
    ⟨"used_at", .timestamptz, false, none⟩,
    createdAtColumn]

def refreshTokensConstraints : List (String × Constraint) := [
  ("UQ_a7838d2ba25be1342091b6695f1", .unique ["token_hash"]),
  ("PK_7d8bee0204106019488c4c50ffa", .primaryKey ["id"])]

def passwordResetTokens : TableDef where
  name    := "password_reset_tokens"
  columns := [
    idColumn,
    ⟨"user_id", .uuid, true, none⟩,
    ⟨"token_hash", .varchar 64, true, none⟩,
    ⟨"expires_at", .timestamptz, true, none⟩,
    ⟨"used_at", .timestamptz, false, none⟩,
    ⟨"ip_address", .varchar 45, false, none⟩,
    createdAtColumn]

def passwordResetTokensConstraints : List (String × Constraint) := [
  ("UQ_91185d86d5d7557b19abbb2868b", .unique ["token_hash"]),
  ("PK_d16bebd73e844c48bca50ff8d3d", .primaryKey ["id"])]

/-- A plain index on one column. -/
def index (name table column : String) : Index := ⟨name, table, [column], false, none⟩

/-- `REFERENCES … ("id") ON DELETE CASCADE ON UPDATE NO ACTION` -/
def references (table name column refTable : String) : NamedConstraint :=
  ⟨table, name, .foreignKey column refTable "id" .cascade .noAction⟩

/-! ## The migrations

Each is the list of the statements of `up` and the list of those of `down`, in the order of the source.
-/

/-- `MigrationInterface` -/
structure Migration where
  name : String
  up   : List Statement
  down : List Statement

/-- `1787036058541-InitSchema`: the extensions, the tables of accounts, roles and permissions, their
    indexes, and the foreign keys. -/
def InitSchema : Migration where
  name := "InitSchema1787036058541"
  up   := [
    .createExtension "uuid-ossp",
    .createExtension "citext",
    .createTable permissions permissionsConstraints,
    .createTable rolePermissions
      [("PK_25d24010f53bb80b78e412c9656", .primaryKey ["role_id", "permission_id"])],
    .createIndex (index "IDX_role_permissions_permission_id" "role_permissions" "permission_id"),
    .createTable roles rolesConstraints,
    .createTable userRoles [("PK_23ed6f04fe43066df08379fd034", .primaryKey ["user_id", "role_id"])],
    .createIndex (index "IDX_user_roles_role_id" "user_roles" "role_id"),
    .createTable users usersConstraints,
    .createTable refreshTokens refreshTokensConstraints,
    .createIndex (index "IDX_refresh_tokens_expires_at" "refresh_tokens" "expires_at"),
    .createIndex (index "IDX_refresh_tokens_family_id" "refresh_tokens" "family_id"),
    .createIndex (index "IDX_refresh_tokens_user_id" "refresh_tokens" "user_id"),
    .addConstraint (references "role_permissions" "FK_178199805b901ccd220ab7740ec" "role_id" "roles"),
    .addConstraint (references "role_permissions" "FK_17022daf3f885f7d35423e9971e"
      "permission_id" "permissions"),
    .addConstraint (references "user_roles" "FK_87b8888186ca9769c960e926870" "user_id" "users"),
    .addConstraint (references "user_roles" "FK_b23c65e50a758245a33ee35fda1" "role_id" "roles"),
    .addConstraint (references "refresh_tokens" "FK_3ddc983c5f7bcf132fd8732c3f4" "user_id" "users")]
  down := [
    .dropConstraint "refresh_tokens" "FK_3ddc983c5f7bcf132fd8732c3f4",
    .dropConstraint "user_roles" "FK_b23c65e50a758245a33ee35fda1",
    .dropConstraint "user_roles" "FK_87b8888186ca9769c960e926870",
    .dropConstraint "role_permissions" "FK_17022daf3f885f7d35423e9971e",
    .dropConstraint "role_permissions" "FK_178199805b901ccd220ab7740ec",
    .dropIndex "IDX_refresh_tokens_user_id",
    .dropIndex "IDX_refresh_tokens_family_id",
    .dropIndex "IDX_refresh_tokens_expires_at",
    .dropTable "refresh_tokens",
    .dropTable "users",
    .dropIndex "IDX_user_roles_role_id",
    .dropTable "user_roles",
    .dropTable "roles",
    .dropIndex "IDX_role_permissions_permission_id",
    .dropTable "role_permissions",
    .dropTable "permissions"]

/-- `1787040302988-PasswordResetTokens`: one table with its index and its foreign key. -/
def PasswordResetTokens : Migration where
  name := "PasswordResetTokens1787040302988"
  up   := [
    .createTable passwordResetTokens passwordResetTokensConstraints,
    .createIndex (index "IDX_password_reset_tokens_expires_at" "password_reset_tokens" "expires_at"),
    .createIndex (index "IDX_password_reset_tokens_user_id" "password_reset_tokens" "user_id"),
    .addConstraint (references "password_reset_tokens" "FK_52ac39dd8a28730c63aeb428c9c"
      "user_id" "users")]
  down := [
    .dropConstraint "password_reset_tokens" "FK_52ac39dd8a28730c63aeb428c9c",
    .dropIndex "IDX_password_reset_tokens_user_id",
    .dropIndex "IDX_password_reset_tokens_expires_at",
    .dropTable "password_reset_tokens"]

/-- `CREATE UNIQUE INDEX … WHERE "deleted_at" IS NULL` -/
def emailIndex : Index := ⟨"UQ_users_email_active", "users", ["email"], true, some "deleted_at"⟩

/-- `1787126937497-UserEmailPartialUnique`: the unique constraint goes, a unique index over the accounts
    in use comes. `down` is the reverse. -/
def UserEmailPartialUnique : Migration where
  name := "UserEmailPartialUnique1787126937497"
  up   := [.dropConstraint "users" "UQ_97672ac88f789774dd47f7c8be3", .createIndex emailIndex]
  down := [.dropIndex "UQ_users_email_active", .addConstraint emailConstraint]

/-! ## What creates, and what drops

The first two migrations are lists of creations behind two `CREATE EXTENSION`, and their `down` is the
same list backwards, each statement undone. That is a fact about the texts, checked by evaluation;
everything after it is `run_undo`. -/

/-- The statements of the first two migrations, after the extensions. -/
def creations : List Statement := InitSchema.up.drop 2 ++ PasswordResetTokens.up

/-- The database with the two extensions. -/
def extended (db : Database) : Database :=
  { db with schema := { db.schema with
    extensions := insert "citext" (insert "uuid-ossp" db.schema.extensions) } }

theorem creations_create : ∀ st ∈ creations, st.creates = true := by decide +kernel

theorem reverts_drop : ∀ st ∈ PasswordResetTokens.down ++ InitSchema.down, st.drops = true := by
  decide +kernel

/-- The statements of `down` are those that undo, in the reverse order. -/
theorem reverts_eq : PasswordResetTokens.down ++ InitSchema.down = creations.reverse.map
    Statement.undo := by decide +kernel

variable {lower : String → String} {db db₀ db₁ : Database}

theorem up_eq : InitSchema.up ++ PasswordResetTokens.up =
    .createExtension "uuid-ossp" :: .createExtension "citext" :: creations := by decide +kernel

theorem run_up (db : Database) :
    run lower db (InitSchema.up ++ PasswordResetTokens.up) = run lower (extended db) creations := by
  rw [up_eq, run, exec, Option.bind_some, run, exec, Option.bind_some]
  generalize creations = sts
  rfl

theorem wellFormed_extended (hwf : WellFormed lower db) : WellFormed lower (extended db) :=
  wellFormed_createExtension (wellFormed_createExtension hwf)

/-- After the first two migrations there are the accounts, and their addresses are unique. -/
theorem users_created (hup : run lower db₀ (InitSchema.up ++ PasswordResetTokens.up) = some db₁) :
    users ∈ db₁.schema.tables ∧ emailConstraint ∈ db₁.schema.constraints := by
  rw [run_up] at hup
  have hthere : .createTable users usersConstraints ∈ creations := by decide +kernel
  obtain ⟨htable, hconstraints⟩ := run_created creations_create hthere hup
  exact ⟨htable, hconstraints _ List.mem_cons_self⟩

/-! ## Addresses

The constraint and the index speak about the same column and differ in which rows they compare. `UNIQUE
("email")` is about all accounts, the index about those that are not deleted, so the constraint implies
the index and not the other way round. -/

/-- No two accounts have one address, up to case. -/
def Unshared (lower : String → String) (rows : List Row) : Prop :=
  rows.Pairwise fun r r' => ∀ email email', r "email" = some email → r' "email" = some email' →
    lower email ≠ lower email'

/-- The comparison of addresses is that of `citext`. -/
theorem fold_email (husers : users ∈ db.schema.tables) : db.fold lower "users" "email" = lower := by
  have hcitext : db.schema.isCitext "users" "email" :=
    ⟨users, husers, rfl, _, .tail _ (.head _), rfl, rfl⟩
  rw [Database.fold, if_pos hcitext]

theorem not_clash_iff (husers : users ∈ db.schema.tables) (r r' : Row) :
    ¬ Clash (db.fold lower "users") ["email"] r r' ↔
      ∀ email email', r "email" = some email → r' "email" = some email' →
        lower email ≠ lower email' := by
  simp only [Clash, List.mem_singleton, forall_eq, fold_email husers, Option.isSome_map]
  constructor
  · rintro hno email email' hemail hemail' heq
    exact hno ⟨by rw [hemail]; rfl, by rw [hemail, hemail', Option.map_some, Option.map_some, heq]⟩
  · rintro hdistinct ⟨hsome, heq⟩
    obtain ⟨email, hemail⟩ := Option.isSome_iff_exists.mp hsome
    rw [hemail, Option.map_some] at heq
    obtain ⟨email', hemail', hsame⟩ := Option.map_eq_some_iff.mp heq.symm
    exact hdistinct email email' hemail hemail' hsame.symm

/-- What `UNIQUE ("email")` says. -/
theorem holds_emailConstraint (husers : users ∈ db.schema.tables) :
    db.holds lower emailConstraint.table emailConstraint.constraint ↔
      Unshared lower (db.rows "users") := by
  show Distinct (db.fold lower "users") ["email"] (db.rows "users") ↔ _
  unfold Distinct Unshared
  simp only [not_clash_iff husers]

/-- Unique among all accounts, the addresses are unique among those not deleted. -/
theorem indexHolds_emailIndex (husers : users ∈ db.schema.tables)
    (h : Unshared lower (db.rows "users")) :
    db.indexHolds lower emailIndex := by
  intro _
  have hdistinct : Distinct (db.fold lower "users") ["email"] (db.rows "users") :=
    (holds_emailConstraint husers).mpr h
  exact List.Pairwise.filter _ hdistinct

/-! ## The newest migration

Its two statements in either direction. `up` only needs what the constraint has guaranteed; `down` has
to check all rows, those of deleted accounts included. -/

/-- The two statements of `up`, one after the other. -/
theorem run_emailUp (h : run lower db UserEmailPartialUnique.up = some db₁) :
    ∃ db', exec lower db (.dropConstraint emailConstraint.table emailConstraint.name) = some db' ∧
      exec lower db' (.createIndex emailIndex) = some db₁ := by
  obtain ⟨db', hdropped, hrest⟩ := Option.bind_eq_some_iff.mp h
  obtain ⟨db'', hcreated, hnil⟩ := Option.bind_eq_some_iff.mp hrest
  cases hnil
  exact ⟨db', hdropped, hcreated⟩

/-- **The newest migration is undone** iff no two accounts share an address, and the schema is that of
    before. -/
theorem run_emailDown (hwf : WellFormed lower db₀) (hemail : emailConstraint ∈ db₀.schema.constraints)
    (husers : users ∈ db₀.schema.tables) (hup : run lower db₀ UserEmailPartialUnique.up = some db₁)
    (hschema : db.schema = db₁.schema) [Decidable (Unshared lower (db.rows "users"))] :
    run lower db UserEmailPartialUnique.down =
      if Unshared lower (db.rows "users") then some ⟨db₀.schema, db.rows⟩ else none := by
  obtain ⟨db', hdropped, hcreated⟩ := run_emailUp hup
  have hwf' := exec_wellFormed hwf hdropped
  -- the index is dropped here as it is there
  obtain ⟨other, hother, hother_schema, -⟩ := exec_drops rfl hschema (exec_undo hwf' rfl hcreated)
  have hrows : other.rows = db.rows := by rw [exec_dropIndex hother]
  have hschema' : db'.schema = db₀.schema.withoutConstraint emailConstraint.table
    emailConstraint.name := by
    rw [exec_dropConstraint hdropped]
  have hback := addConstraint_back hwf hemail rfl (hother_schema.trans hschema')
  have husers' : users ∈ other.schema.tables := by
    rw [hother_schema, hschema']
    exact husers
  have hrun : run lower db UserEmailPartialUnique.down = exec lower other
    (.addConstraint emailConstraint) := by
    show (exec lower db (.dropIndex emailIndex.name)).bind _ = _
    rw [show exec lower db (.dropIndex emailIndex.name) = some other from hother, Option.bind_some]
    show (exec lower other (.addConstraint emailConstraint)).bind some = _
    exact Option.bind_fun_some _
  rw [hrun, hback, hrows]
  refine if_congr ?_ rfl rfl
  rw [holds_emailConstraint husers', hrows]

end Migrations

open Migrations in
/-- **When the migrations can be reverted.** They were applied to some database, and the application has
    worked on one with the schema they gave, so that the rows may be any that it admits. The newest
    migration can be reverted iff no two accounts share an address up to case, deleted accounts
    included; the rows stay. The other two can then be reverted in any case: the schema is the one of
    before, with the two extensions, and the tables that were there before keep their rows. -/
theorem migrations_revert {lower : String → String} {db₀ db₁ db : Database} (hwf : WellFormed lower db₀)
    (hup : run lower db₀
      (InitSchema.up ++ PasswordResetTokens.up ++ UserEmailPartialUnique.up) = some db₁)
    (hschema : db.schema = db₁.schema) :
    ((run lower db UserEmailPartialUnique.down).isSome = true ↔ Unshared lower (db.rows "users")) ∧
    ∀ db₂, run lower db UserEmailPartialUnique.down = some db₂ → db₂.rows = db.rows ∧
      ∃ db₃, run lower db₂ (PasswordResetTokens.down ++ InitSchema.down) = some db₃ ∧
        db₃.schema = (extended db₀).schema ∧ ∀ table, db₀.schema.hasTable table →
          db₃.rows table = db.rows table := by
  classical
  rw [run_append] at hup
  obtain ⟨dbA, hcreated, hlast⟩ := Option.bind_eq_some_iff.mp hup
  obtain ⟨husers, hemail⟩ := users_created hcreated
  rw [run_up] at hcreated
  have hwf₀ := wellFormed_extended hwf
  have hwfA := run_wellFormed hwf₀ hcreated
  rw [run_emailDown hwfA hemail husers hlast hschema]
  refine ⟨by simp, fun db₂ hdown => ?_⟩
  obtain ⟨-, heq⟩ := Option.ite_none_right_eq_some.mp hdown
  obtain rfl := Option.some.inj heq
  refine ⟨rfl, ?_⟩
  -- over the rows that `up` left, `down` undoes it; over these rows it drops the same
  have hundone := run_undo hwf₀ creations_create hcreated
  rw [← reverts_eq] at hundone
  have hsame : (Database.mk dbA.schema db.rows).schema = dbA.schema := rfl
  obtain ⟨db₃, hrun, hschema₃, hrows⟩ := run_drops reverts_drop hsame hundone
  exact ⟨db₃, hrun, hschema₃, hrows⟩

open Migrations in
/-- **The newest migration can be applied to any rows.** Where all three were applied to some database,
    the third can be applied to every well-formed database with the schema of the first two, and the
    rows stay. -/
theorem email_index_applies {lower : String → String} {db₀ dbA db₁ db : Database}
    (hcreated : run lower db₀ (InitSchema.up ++ PasswordResetTokens.up) = some dbA)
    (hlast : run lower dbA UserEmailPartialUnique.up = some db₁) (hdb : WellFormed lower db)
    (hschema : db.schema = dbA.schema) :
    ∃ db', run lower db UserEmailPartialUnique.up = some db' ∧ db'.schema = db₁.schema ∧
      db'.rows = db.rows := by
  obtain ⟨husers, hemail⟩ := users_created hcreated
  obtain ⟨dbB, hdropped, hindexed⟩ := run_emailUp hlast
  obtain ⟨other, hother, hother_schema, -⟩ := exec_drops rfl hschema hdropped
  obtain rfl := exec_dropConstraint hother
  have husers' : users ∈ db.schema.tables := by rwa [hschema]
  have hunshared : Unshared lower (db.rows "users") := by
    rw [← hschema] at hemail
    exact (holds_emailConstraint husers').mp (hdb.holds _ hemail)
  have hcreate := exec_createIndex_of_holds hindexed hother_schema
    (indexHolds_emailIndex husers' hunshared)
  refine ⟨⟨db₁.schema, db.rows⟩, ?_, rfl, rfl⟩
  show (exec lower db (.dropConstraint emailConstraint.table emailConstraint.name)).bind _ = _
  rw [hother, Option.bind_some]
  show (exec lower _ (.createIndex emailIndex)).bind some = _
  rw [hcreate, Option.bind_some]

/-! ## An address that is used again

The databases of the examples: an empty one, two accounts, and an account that was deleted and
registered again. -/

namespace Migrations

def noTables : Database := ⟨⟨∅, ∅, ∅, ∅⟩, fun _ => []⟩

theorem wellFormed_noTables : WellFormed lower noTables := by
  refine ⟨?_, ?_, fun _ _ => rfl, ?_, ?_, ?_, ?_, ?_⟩
  all_goals
    intro x hx
    cases hx

/-- An account, as far as the constraints go. -/
def userRow (id email status : String) (deletedAt : Option String) : Row := fun column =>
  if column = "id" then some id
  else if column = "email" then some email
  else if column = "status" then some status
  else if column = "deleted_at" then deletedAt
  else none

/-- Ann has deleted her account, and registered again with her address. -/
def registeredAgain : List Row :=
  [userRow "1" "ann@b.co" "active" (some "2026-01-01"), userRow "2" "Ann@b.co" "active" none]

theorem not_unshared_registeredAgain : ¬ Unshared String.toLower registeredAgain := by
  intro h
  obtain ⟨hfirst, -⟩ := List.pairwise_cons.mp h
  exact hfirst _ List.mem_cons_self "ann@b.co" "Ann@b.co" rfl rfl (by decide +kernel)

/-- Two accounts with addresses of their own. -/
def twoUsers (table : String) : List Row :=
  if table = "users" then
    [userRow "1" "ann@b.co" "active" none, userRow "2" "bob@b.co" "suspended" none] else []

/-- The schema after the first two migrations. -/
def firstSchema : Schema :=
  ((run String.toLower noTables (InitSchema.up ++ PasswordResetTokens.up)).map Database.schema).getD
    noTables.schema

theorem wellFormed_twoUsers : WellFormed String.toLower ⟨firstSchema, twoUsers⟩ := by
  refine ⟨by decide +kernel, by decide +kernel, fun table htable => if_neg ?_, by decide +kernel,
    by decide +kernel, by decide +kernel, by decide +kernel, by decide +kernel⟩
  rintro rfl
  have hthere : firstSchema.hasTable "users" := by decide +kernel
  exact htable hthere

end Migrations

open Migrations in
/-- The migrations are applied to an empty database. With Ann's two accounts the newest one cannot be
    reverted. -/
theorem migrations_revert_registeredAgain : ∃ db₁,
    run String.toLower noTables
      (InitSchema.up ++ PasswordResetTokens.up ++ UserEmailPartialUnique.up) = some db₁ ∧
      run String.toLower ⟨db₁.schema, fun table => if table = "users" then registeredAgain else []⟩
        UserEmailPartialUnique.down = none := by
  have happlied : (run String.toLower noTables
      (InitSchema.up ++ PasswordResetTokens.up ++ UserEmailPartialUnique.up)).isSome = true := by
        decide +kernel
  obtain ⟨db₁, hup⟩ := Option.isSome_iff_exists.mp happlied
  refine ⟨db₁, hup, ?_⟩
  let rows (table : String) : List Row := if table = "users" then registeredAgain else []
  have hsame : (Database.mk db₁.schema rows).schema = db₁.schema := rfl
  have hrevert := (migrations_revert wellFormed_noTables hup hsame).1
  rw [← Option.not_isSome_iff_eq_none, hrevert]
  exact not_unshared_registeredAgain

open Migrations in
/-- The newest migration is applied with two accounts in the table. -/
theorem email_index_applies_twoUsers :
    ∃ db', run String.toLower ⟨firstSchema, twoUsers⟩ UserEmailPartialUnique.up = some db' ∧
      db'.rows = twoUsers := by
  have hcreated : (run String.toLower noTables (InitSchema.up ++ PasswordResetTokens.up)).isSome =
    true := by decide +kernel
  obtain ⟨dbA, hdbA⟩ := Option.isSome_iff_exists.mp hcreated
  have happlied : ((run String.toLower noTables (InitSchema.up ++ PasswordResetTokens.up)).bind fun db =>
      run String.toLower db UserEmailPartialUnique.up).isSome = true := by decide +kernel
  rw [hdbA] at happlied
  obtain ⟨db₁, hlast⟩ := Option.isSome_iff_exists.mp happlied
  have hschema : firstSchema = dbA.schema := by
    rw [firstSchema, hdbA]
    rfl
  obtain ⟨db', hrun, -, hrows⟩ := email_index_applies hdbA hlast wellFormed_twoUsers hschema
  exact ⟨db', hrun, hrows⟩

end NestApp
