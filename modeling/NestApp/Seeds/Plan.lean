import NestApp.Lib.Ensure
import NestApp.Seeds.SeedRolesPermissions

/-!
# `Seeds.Plan` — what the seeding script wants to be there

The script as a list of goals (`plan`) on the database read without its generated values
(`Database.view`): ids give way to what they stand for, the e-mail address of a user, the name of a
role, the action and subject of a permission. A goal is met where its row is there (`met_*`), and an
insertion of the script creates the row of one goal and changes no other (`Creates`). Rows are only
added (`Database.Extends`), so two databases that extend a third and have one view are the same but for
the generated values of the new rows.

The plan is the specification of the script, in terms of rows and not of statements. It is a function
of the seed roles and of the address of the administrator alone.
-/

namespace NestApp
namespace Seeds

open Sql Prog

variable {env : Env}

/-! ## The database without its generated values

Two runs of the script generate different ids, so databases are compared by what their rows stand for.
The view keeps the order of insertion, and with it the number of rows. -/

/-- A user without its id, password hash and time stamps. The address is the one that was given, in its
    own spelling. -/
structure Account where
  email           : String
  firstName       : Option String
  lastName        : Option String
  status          : UserStatus
  emailVerifiedAt : Option Nat
  deletedAt       : Option Nat
deriving DecidableEq

def account (u : User) : Account :=
  ⟨u.email, u.firstName, u.lastName, u.status, u.emailVerifiedAt, u.deletedAt⟩

/-- What identifies a user: the address, and for a deleted one when it was deleted. -/
def userKey (env : Env) (u : User) : String × Option Nat := (env.citextLower u.email, u.deletedAt)

/-- The tables in the order of insertion; a join row names its two sides by what identifies them. Two
    databases of one view hold the same accounts, roles, permissions and links. -/
structure View where
  users           : List Account
  roles           : List (String × Option String × Bool)
  permissions     : List (SeedPermission × Option String)
  userRoles       : List (Option (String × Option Nat) × Option String)
  rolePermissions : List (Option String × Option SeedPermission)
deriving DecidableEq

namespace Database

def view (db : Database env) : View where
  users           := db.users.rows.map account
  roles           := db.roles.rows.map fun r => (r.name, r.description, r.isSystem)
  permissions     := db.permissions.rows.map fun p => (p.rule, p.description)
  userRoles       := db.userRoles.rows.map fun l =>
    ((db.users.get l.userId).map (userKey env), (db.roles.get l.roleId).map Role.name)
  rolePermissions := db.rolePermissions.rows.map fun l =>
    ((db.roles.get l.roleId).map Role.name, (db.permissions.get l.permissionId).map Permission.rule)

/-- The number of rows. -/
def size (db : Database env) : Nat :=
  db.users.rows.length + db.roles.rows.length + db.permissions.rows.length + db.userRoles.rows.length +
    db.rolePermissions.rows.length

/-- **Rows are only added**: every table keeps its rows as they are, and new ones follow. So whatever
    was in the database before the script is untouched. -/
structure Extends (db db' : Database env) : Prop where
  users           : db.users.rows <+: db'.users.rows
  roles           : db.roles.rows <+: db'.roles.rows
  permissions     : db.permissions.rows <+: db'.permissions.rows
  userRoles       : db.userRoles.rows <+: db'.userRoles.rows
  rolePermissions : db.rolePermissions.rows <+: db'.rolePermissions.rows

theorem Extends.refl (db : Database env) : db.Extends db :=
  ⟨List.prefix_rfl, List.prefix_rfl, List.prefix_rfl, List.prefix_rfl, List.prefix_rfl⟩

theorem Extends.trans {a b c : Database env} (h : a.Extends b) (h' : b.Extends c) : a.Extends c :=
  ⟨h.users.trans h'.users, h.roles.trans h'.roles, h.permissions.trans h'.permissions,
    h.userRoles.trans h'.userRoles,
    h.rolePermissions.trans h'.rolePermissions⟩

/-- Equal views have equally many rows. -/
theorem size_view {db db' : Database env} (h : db.view = db'.view) : db.size = db'.size := by
  have husers : db.users.rows.length = db'.users.rows.length := by
    simpa [view] using congrArg (List.length ∘ View.users) h
  have hroles : db.roles.rows.length = db'.roles.rows.length := by
    simpa [view] using congrArg (List.length ∘ View.roles) h
  have hpermissions : db.permissions.rows.length = db'.permissions.rows.length := by
    simpa [view] using congrArg (List.length ∘ View.permissions) h
  have huserRoles : db.userRoles.rows.length = db'.userRoles.rows.length := by
    simpa [view] using congrArg (List.length ∘ View.userRoles) h
  have hrolePermissions : db.rolePermissions.rows.length = db'.rolePermissions.rows.length := by
    simpa [view] using congrArg (List.length ∘ View.rolePermissions) h
  simp only [size]
  omega

/-- A database that has grown by no row is the same. -/
theorem Extends.eq_of_size {db db' : Database env} (h : db.Extends db') (hsize : db.size = db'.size) :
    db' = db := by
  have husers := h.users.length_le
  have hroles := h.roles.length_le
  have hpermissions := h.permissions.length_le
  have huserRoles := h.userRoles.length_le
  have hrolePermissions := h.rolePermissions.length_le
  simp only [size] at hsize
  have users := Table.ext (h.users.eq_of_length (by omega))
  have roles := Table.ext (h.roles.eq_of_length (by omega))
  have permissions := Table.ext (h.permissions.eq_of_length (by omega))
  have userRoles := Table.ext (h.userRoles.eq_of_length (by omega))
  have rolePermissions := Table.ext (h.rolePermissions.eq_of_length (by omega))
  exact (Database.ext users roles permissions userRoles rolePermissions).symm

end Database

/-! ## The plan

Goals are worked through from the first to the last; `act` does what one of them needs on a view.
`Lib.Ensure` has the general facts about such lists. -/

/-- What the script wants to be there: a permission, a role, a link between the two, the account of the
    administrator, and its role. -/
inductive Goal where
  | permission (rule : SeedPermission)
  | role (seed : SeedRole)
  | link (name : String) (rule : SeedPermission)
  | admin (email : String)
  | adminRole (email : String)

/-- There is nothing left to do. Without a role of the name `admin`, nobody can be given it. -/
def met (env : Env) : Goal → View → Prop
  | .permission rule, V => ∃ p ∈ V.permissions, p.1 = rule
  | .role seed, V       => ∃ r ∈ V.roles, r.1 = seed.name
  | .link name rule, V  => (some name, some rule) ∈ V.rolePermissions
  | .admin email, V     =>
      ∃ a ∈ V.users, a.deletedAt = none ∧ env.citextLower a.email = env.citextLower email
  | .adminRole email, V =>
      (∃ r ∈ V.roles, r.1 = "admin") → (some (env.citextLower email, none), some "admin") ∈ V.userRoles

/-- The row a goal is about. -/
def create (env : Env) : Goal → View → View
  | .permission rule, V => { V with permissions := V.permissions ++ [(rule, none)] }
  | .role seed, V       =>
      { V with roles := V.roles ++ [(seed.name, some seed.description, seed.isSystem)] }
  | .link name rule, V  => { V with rolePermissions := V.rolePermissions ++ [(some name, some rule)] }
  | .admin email, V     => { V with users := V.users ++ [⟨email, none, none, .active, none, none⟩] }
  | .adminRole email, V =>
      { V with userRoles := V.userRoles ++ [(some (env.citextLower email, none), some "admin")] }

open Classical in
/-- Create what is missing, and leave what is there. -/
noncomputable def act (env : Env) (goal : Goal) (V : View) : View :=
  if met env goal V then V else create env goal V

/-- Work through a list of goals. -/
noncomputable def after (env : Env) (goals : List Goal) (V : View) : View := Ensure.run (act env) goals V

/-- `seedPermissions` -/
def permissionGoals (seed : SeedRole) : List Goal := seed.permissions.map .permission

/-- `seedRoles` -/
def roleGoals (seed : SeedRole) : List Goal := .role seed :: seed.permissions.map (.link seed.name)

/-- `seedBootstrapAdmin` -/
def adminGoals (admin : AdminEnv) : List Goal :=
  match admin.given with
  | none => []
  | some (email, _) => [.admin email, .adminRole email]

def plan (seeds : List SeedRole) (admin : AdminEnv) : List Goal :=
  seeds.flatMap permissionGoals ++ seeds.flatMap roleGoals ++ adminGoals admin

theorem ensures : Ensure.Ensures (act env) (met env) where
  idle goal V h := if_pos h
  meets goal V := by
    unfold act
    split
    · next h => exact h
    · cases goal <;> simp [met, create]

/-- A goal that stays met as rows are added. -/
def Goal.Steady : Goal → Prop
  | .adminRole _ => False
  | _            => True

theorem steady_kept {goal : Goal} (hsteady : goal.Steady) (other : Goal) (V : View)
    (h : met env goal V) :
    met env goal (act env other V) := by
  unfold act
  split
  · exact h
  · cases goal with
    | adminRole email => exact hsteady.elim
    | link name rule =>
        cases other <;> first | exact h | exact List.mem_append_left _ h
    | permission rule | role seed | admin email =>
        obtain ⟨row, hrow, hvalue⟩ := h
        cases other <;> first | exact ⟨row, hrow, hvalue⟩ |
          exact ⟨row, List.mem_append_left _ hrow, hvalue⟩

theorem steady_roles (seeds : List SeedRole) :
    ∀ goal ∈ seeds.flatMap permissionGoals ++ seeds.flatMap roleGoals, goal.Steady := by
  intro goal hgoal
  cases List.mem_append.mp hgoal with
  | inl h =>
      obtain ⟨seed, _, hmem⟩ := List.mem_flatMap.mp h
      obtain ⟨rule, _, rfl⟩ := List.mem_map.mp hmem
      trivial
  | inr h =>
      obtain ⟨seed, _, hmem⟩ := List.mem_flatMap.mp h
      cases List.mem_cons.mp hmem with
      | inl heq => exact heq ▸ trivial
      | inr hlink =>
          obtain ⟨rule, _, rfl⟩ := List.mem_map.mp hlink
          trivial

/-- Only the last goal of a plan depends on another: no goal comes after it. -/
theorem ordered (seeds : List SeedRole) (admin : AdminEnv) :
    Ensure.Ordered (act env) (met env) (plan seeds admin) := by
  have hsteady := steady_roles seeds
  unfold plan adminGoals
  cases admin.given with
  | none =>
      rw [List.append_nil]
      exact Ensure.ordered_of_kept fun goal hgoal => steady_kept (hsteady goal hgoal)
  | some given =>
      have hfirst : ∀ goal ∈ seeds.flatMap permissionGoals ++ seeds.flatMap roleGoals ++
        [.admin given.1], goal.Steady := by
        intro goal hgoal
        cases List.mem_append.mp hgoal with
        | inl h => exact hsteady goal h
        | inr h => exact List.mem_singleton.mp h ▸ trivial
      have hlast : Ensure.Ordered (act env) (met env)
          (seeds.flatMap permissionGoals ++ seeds.flatMap roleGoals ++ [.admin given.1] ++
            [.adminRole given.1]) :=
        Ensure.ordered_snoc (fun goal hgoal => steady_kept (hfirst goal hgoal)) _
      rw [List.append_assoc, List.singleton_append] at hlast
      exact hlast

/-! ## Texts that fit their columns

Under these hypotheses no `INSERT` of the script is refused for the length of a text. The seed roles
that are deployed meet them. -/

structure SeedPermission.Fits (seed : SeedPermission) : Prop where
  action  : seed.action ∈ PERMISSION_ACTIONS
  subject : hasNul seed.subject = false ∧ seed.subject.length ≤ 100

structure SeedRole.Fits (seed : SeedRole) : Prop where
  name        : hasNul seed.name = false ∧ seed.name.length ≤ 50
  description : hasNul seed.description = false ∧ seed.description.length ≤ 255
  permissions : ∀ p ∈ seed.permissions, p.Fits

theorem varchar_of_fits {n : Nat} {text : String} (h : hasNul text = false ∧ text.length ≤ n) :
    varchar n text = some text := by
  simp [varchar, h.1, h.2]

theorem varcharOrNull_of_fits {n : Nat} {text : String} (h : hasNul text = false ∧ text.length ≤ n) :
    varcharOrNull n (some text) = some (some text) := by
  rw [varcharOrNull, varchar_of_fits h]
  rfl

theorem action_plain : ∀ action ∈ PERMISSION_ACTIONS,
    hasNul action = false ∧ action.length ≤ 20 ∧ ':' ∉ action.toList := by
  decide +kernel

theorem eq_of_append_cons {α : Type} {c : α} {l l' r r' : List α} (hl : c ∉ l) (hl' : c ∉ l')
    (h : l ++ c :: r = l' ++ c :: r') : l = l' ∧ r = r' := by
  induction l generalizing l' with
  | nil =>
      cases l' with
      | nil => exact ⟨rfl, List.tail_eq_of_cons_eq h⟩
      | cons d rest => exact absurd (List.head_eq_of_cons_eq h ▸ List.mem_cons_self) hl'
  | cons d rest ih =>
      cases l' with
      | nil => exact absurd (List.head_eq_of_cons_eq h ▸ List.mem_cons_self) hl
      | cons d' rest' =>
          obtain ⟨hd, htail⟩ := List.cons_eq_cons.mp h
          obtain ⟨hrest, hr⟩ := ih (fun hmem => hl (List.mem_cons_of_mem d hmem))
            (fun hmem => hl' (List.mem_cons_of_mem d' hmem)) htail
          exact ⟨hd ▸ hrest ▸ rfl, hr⟩

/-- The key tells two permissions apart: no action contains the colon. -/
theorem permissionKey_inj {a b : SeedPermission} (ha : a.action ∈ PERMISSION_ACTIONS)
    (hb : b.action ∈ PERMISSION_ACTIONS)
    (h : permissionKey a = permissionKey b) : a = b := by
  have hchars := congrArg String.toList h
  simp only [permissionKey, String.toList_append, List.append_assoc] at hchars
  obtain ⟨haction, hsubject⟩ :=
    eq_of_append_cons (action_plain a.action ha).2.2 (action_plain b.action hb).2.2 hchars
  cases a with
  | mk action subject =>
      cases b with
      | mk action' subject' =>
          obtain rfl : action = action' := String.toList_inj.mp haction
          obtain rfl : subject = subject' := String.toList_inj.mp hsubject
          rfl

/-! ## One insertion

A statement that succeeds changes one table by one row at its end, and so the view by the row of one
goal. -/

/-- The new database has one row more, the one the goal is about. Its view is that of the old one after
    the goal. -/
structure Creates (goal : Goal) (db db' : Database env) : Prop where
  grown : db.Extends db'
  view  : db'.view = create env goal db.view
  size  : db'.size = db.size + 1

theorem get_put_of_isSome {R K : Type} [Keyed R K] [DecidableEq K] {t : Table R} {row : R} {k : K}
    (hnew : t.get (key row) = none) (hk : (t.get k).isSome) : (t.put row).get k = t.get k := by
  apply Table.get_put_of_ne
  rintro rfl
  rw [hnew] at hk
  exact Bool.false_ne_true hk

theorem rows_grown {R K : Type} [Keyed R K] [DecidableEq K] {t : Table R} (row : R)
    (hnew : t.get (key row) = none) :
    t.rows <+: (t.put row).rows ∧ (t.put row).rows.length = t.rows.length + 1 ∧
      row ∈ (t.put row).rows := by
  rw [Table.rows_put_new hnew]
  exact ⟨List.prefix_append _ _, List.length_append, List.mem_append_right _ List.mem_cons_self⟩

variable {db : Database env}

theorem insertPermission_creates {id : Uuid} {seed : SeedPermission} (hid : db.Unused id)
    (hfits : seed.Fits)
    (hnew : ∀ p ∈ db.permissions.rows, p.rule ≠ seed) :
    ∃ db', db.insertPermission ⟨id, seed.action, seed.subject, none⟩ = some db' ∧
      Creates (.permission seed) db db' ∧
      ⟨id, seed.action, seed.subject, none⟩ ∈ db'.permissions.rows := by
  obtain ⟨hnul, hlength, -⟩ := action_plain seed.action hfits.action
  have hrows := rows_grown (⟨id, seed.action, seed.subject, none⟩ : Permission) hid.2.2
  have hput := Table.rows_put_new (r := (⟨id, seed.action, seed.subject, none⟩ : Permission)) hid.2.2
  unfold Database.insertPermission
  rw [varchar_of_fits ⟨hnul, hlength⟩, varchar_of_fits hfits.subject]
  refine ⟨_, dif_pos ⟨hid.2.2, hfits.action, hnew⟩, ⟨?_, ?_, ?_⟩, hrows.2.2⟩
  · exact { Database.Extends.refl db with permissions := hrows.1 }
  · have hlinks : ∀ l ∈ db.rolePermissions.rows,
        (db.permissions.put ⟨id, seed.action, seed.subject, none⟩).get l.permissionId =
          db.permissions.get l.permissionId :=
      fun l hl => get_put_of_isSome hid.2.2 (db.permissionOf l hl)
    simp only [Database.view, create, hput, List.map_append, List.map_cons, List.map_nil,
      View.mk.injEq, true_and]
    refine ⟨rfl, List.map_congr_left fun l hl => ?_⟩
    rw [hlinks l hl]
  · simp only [Database.size, hrows.2.1]
    omega

theorem insertRole_creates {id : Uuid} {seed : SeedRole} (hid : db.Unused id) (hfits : seed.Fits)
    (hnew : ∀ r ∈ db.roles.rows, r.name ≠ seed.name) :
    ∃ db', db.insertRole ⟨id, seed.name, some seed.description, seed.isSystem⟩ = some db' ∧
      Creates (.role seed) db db' ∧
        ⟨id, seed.name, some seed.description, seed.isSystem⟩ ∈ db'.roles.rows := by
  have hrows := rows_grown (⟨id, seed.name, some seed.description, seed.isSystem⟩ : Role) hid.2.1
  have hput := Table.rows_put_new
    (r := (⟨id, seed.name, some seed.description, seed.isSystem⟩ : Role)) hid.2.1
  unfold Database.insertRole
  rw [varchar_of_fits hfits.name, varcharOrNull_of_fits hfits.description]
  refine ⟨_, dif_pos ⟨hid.2.1, hnew⟩, ⟨?_, ?_, ?_⟩, hrows.2.2⟩
  · exact { Database.Extends.refl db with roles := hrows.1 }
  · simp only [Database.view, create, hput, List.map_append, List.map_cons, List.map_nil,
      View.mk.injEq, true_and]
    constructor
    · refine List.map_congr_left fun l hl => ?_
      rw [get_put_of_isSome hid.2.1 (db.roleOf l hl)]
    · refine List.map_congr_left fun l hl => ?_
      rw [get_put_of_isSome hid.2.1 (db.ownerOf l hl)]
  · simp only [Database.size, hrows.2.1]
    omega

theorem insertRolePermission_creates {role : Role} {permission : Permission}
    (hrole : role ∈ db.roles.rows)
    (hpermission : permission ∈ db.permissions.rows)
    (hnew : db.rolePermissions.get (role.id, permission.id) = none) :
    ∃ db', db.insertRolePermission ⟨role.id, permission.id⟩ = some db' ∧
      Creates (.link role.name permission.rule) db db' := by
  have hroleGet : db.roles.get role.id = some role := Table.get_of_mem hrole
  have hpermissionGet : db.permissions.get permission.id = some permission :=
    Table.get_of_mem hpermission
  have hrows := rows_grown (⟨role.id, permission.id⟩ : RolePermission) hnew
  have hput := Table.rows_put_new (r := (⟨role.id, permission.id⟩ : RolePermission)) hnew
  unfold Database.insertRolePermission
  refine ⟨_, dif_pos ⟨hnew, Option.isSome_of_eq_some hroleGet,
    Option.isSome_of_eq_some hpermissionGet⟩, ⟨?_, ?_, ?_⟩⟩
  · exact { Database.Extends.refl db with rolePermissions := hrows.1 }
  · simp only [Database.view, create, hput, List.map_append, List.map_cons, List.map_nil,
      hroleGet, hpermissionGet,
      Option.map_some]
  · simp only [Database.size, hrows.2.1]
    omega

theorem insertUser_creates {id : Uuid} {email passwordHash : String} {now : Nat} (hid : db.Unused id)
    (hnew : ∀ u ∈ db.users.rows, ¬ Database.Holds env email u) :
    ∃ db', db.insertUser ⟨id, email, passwordHash, none, none, .active, none,
      now, now, none⟩ = some db' ∧
      Creates (.admin email) db db' ∧
      ⟨id, email, passwordHash, none, none, .active, none, now, now, none⟩ ∈ db'.users.rows := by
  have hrows := rows_grown
    (⟨id, email, passwordHash, none, none, .active, none, now, now, none⟩ : User) hid.1
  have hput := Table.rows_put_new
    (r := (⟨id, email, passwordHash, none, none, .active, none, now, now, none⟩ : User)) hid.1
  unfold Database.insertUser
  refine ⟨_, dif_pos ⟨hid.1, fun _ => hnew⟩, ⟨?_, ?_, ?_⟩, hrows.2.2⟩
  · exact { Database.Extends.refl db with users := hrows.1 }
  · simp only [Database.view, create, hput, List.map_append, List.map_cons, List.map_nil,
      View.mk.injEq, true_and, and_true]
    refine ⟨rfl, List.map_congr_left fun l hl => ?_⟩
    rw [get_put_of_isSome hid.1 (db.userOf l hl)]
  · simp only [Database.size, hrows.2.1]
    omega

theorem insertUserRole_creates {user : User} {role : Role} {email : String}
    (huser : user ∈ db.users.rows)
    (hholds : Database.Holds env email user) (hrole : role ∈ db.roles.rows) (hname : role.name = "admin")
    (hnew : db.userRoles.get (user.id, role.id) = none) :
    ∃ db', db.insertUserRole ⟨user.id, role.id⟩ = some db' ∧ Creates (.adminRole email) db db' := by
  have huserGet : db.users.get user.id = some user := Table.get_of_mem huser
  have hroleGet : db.roles.get role.id = some role := Table.get_of_mem hrole
  have hrows := rows_grown (⟨user.id, role.id⟩ : UserRole) hnew
  have hput := Table.rows_put_new (r := (⟨user.id, role.id⟩ : UserRole)) hnew
  unfold Database.insertUserRole
  refine ⟨_, dif_pos ⟨hnew, Option.isSome_of_eq_some huserGet,
    Option.isSome_of_eq_some hroleGet⟩, ⟨?_, ?_, ?_⟩⟩
  · exact { Database.Extends.refl db with userRoles := hrows.1 }
  · simp only [Database.view, create, hput, List.map_append, List.map_cons, List.map_nil,
      huserGet, hroleGet,
      Option.map_some, userKey, hholds.1, hholds.2, hname]
  · simp only [Database.size, hrows.2.1]
    omega

/-! ## A goal that is met has its row

Read backwards: from the goals being met to rows of the database, which is what the properties of the
seeding are about. -/

theorem met_permission {rule : SeedPermission} :
    met env (.permission rule) db.view ↔ ∃ p ∈ db.permissions.rows, p.rule = rule := by
  simp [met, Database.view]

theorem view_role {name : String} : (∃ r ∈ db.view.roles, r.1 = name) ↔ ∃ r ∈ db.roles.rows,
    r.name = name := by
  simp [Database.view]

theorem met_role {seed : SeedRole} : met env (.role seed) db.view ↔ ∃ r ∈ db.roles.rows,
    r.name = seed.name :=
  view_role

theorem met_admin {email : String} : met env (.admin email) db.view ↔ ∃ u ∈ db.users.rows,
    Database.Holds env email u := by
  simp [met, Database.view, account, Database.Holds]

/-- The only row of a role and the only row of a permission are linked. -/
theorem met_link {role : Role} {permission : Permission} (hrole : role ∈ db.roles.rows)
    (hpermission : permission ∈ db.permissions.rows) :
    met env (.link role.name permission.rule) db.view ↔
      ∃ row, db.rolePermissions.get (role.id, permission.id) = some row := by
  constructor
  · intro h
    obtain ⟨row, hrow, heq⟩ := List.mem_map.mp h
    obtain ⟨hname, hrule⟩ := Prod.mk.inj heq
    obtain ⟨role', hget, hname'⟩ := Option.map_eq_some_iff.mp hname
    obtain ⟨permission', hget', hrule'⟩ := Option.map_eq_some_iff.mp hrule
    have hsame : role' = role := db.uniqueName role' (Table.get_mem hget) role hrole hname'
    have hsame' : permission' = permission :=
      db.uniqueRule permission' (Table.get_mem hget') permission hpermission hrule'
    have hid : row.roleId = role.id := by rw [← hsame, ← key_role, Table.get_key hget]
    have hid' : row.permissionId = permission.id := by
      rw [← hsame', ← key_permission, Table.get_key hget']
    refine ⟨row, Table.get_eq_some.mpr ⟨hrow, ?_⟩⟩
    rw [key_rolePermission, hid, hid']
  · rintro ⟨row, hget⟩
    obtain ⟨hrow, hkey⟩ := Table.get_eq_some.mp hget
    obtain ⟨hid, hid'⟩ := Prod.mk.inj hkey
    have hroleGet : db.roles.get role.id = some role := Table.get_of_mem hrole
    have hpermissionGet : db.permissions.get permission.id = some permission :=
      Table.get_of_mem hpermission
    refine List.mem_map.mpr ⟨row, hrow, ?_⟩
    rw [hid, hid', hroleGet, hpermissionGet]
    rfl

/-- The only account with the address and the only role `admin` are linked. -/
theorem met_adminRole {user : User} {role : Role} {email : String} (huser : user ∈ db.users.rows)
    (hholds : Database.Holds env email user) (hrole : role ∈ db.roles.rows)
    (hadmin : role.name = "admin") :
    met env (.adminRole email) db.view ↔ ∃ row, db.userRoles.get (user.id, role.id) = some row := by
  have hthere : ∃ r ∈ db.view.roles, r.1 = "admin" := ⟨_, List.mem_map_of_mem hrole, hadmin⟩
  constructor
  · intro h
    obtain ⟨row, hrow, heq⟩ := List.mem_map.mp (h hthere)
    obtain ⟨hkey, hname⟩ := Prod.mk.inj heq
    obtain ⟨user', hget, hkey'⟩ := Option.map_eq_some_iff.mp hkey
    obtain ⟨role', hget', hname'⟩ := Option.map_eq_some_iff.mp hname
    obtain ⟨hemail, hlive⟩ := Prod.mk.inj hkey'
    have hsame : user' = user :=
      db.uniqueEmail user' (Table.get_mem hget) user huser hlive hholds.1 (hemail.trans hholds.2.symm)
    have hsame' : role' = role :=
      db.uniqueName role' (Table.get_mem hget') role hrole (hname'.trans hadmin.symm)
    have hid : row.userId = user.id := by rw [← hsame, ← key_user, Table.get_key hget]
    have hid' : row.roleId = role.id := by rw [← hsame', ← key_role, Table.get_key hget']
    refine ⟨row, Table.get_eq_some.mpr ⟨hrow, ?_⟩⟩
    rw [key_userRole, hid, hid']
  · rintro ⟨row, hget⟩ _
    obtain ⟨hrow, hkey⟩ := Table.get_eq_some.mp hget
    obtain ⟨hid, hid'⟩ := Prod.mk.inj hkey
    have huserGet : db.users.get user.id = some user := Table.get_of_mem huser
    have hroleGet : db.roles.get role.id = some role := Table.get_of_mem hrole
    refine List.mem_map.mpr ⟨row, hrow, ?_⟩
    rw [hid, hid', huserGet, hroleGet]
    simp only [Option.map_some, userKey, hholds.1, hholds.2, hadmin]

end Seeds
end NestApp
