import NestApp.Rbac.Postgres

/-!
# `Rbac.Patch` — what the three `PATCH` endpoints write

A `PATCH` is read as a partial assignment of cells — a row and a business column — to values: the
fields present in the body name cells, each with the value given, trimmed and with `null` for a blank
text (`Patch.given`). The endpoint *touches only what it names* when, on success, every cell named has
its value and every other cell is as before.

`patches_touch_named`: `PATCH /users/:id` always does. `PATCH /roles/:id` stores a blank name as `""`,
so it does unless it is given one that is not refused. `PATCH /permissions/:id` passes an absent
description on as `null`, and stores a present one untrimmed. Two assignments of disjoint cells commute
(`commute`).
-/

namespace NestApp

open Sql Prog Postgres

/-! ## Cells

The columns a client means when it speaks of a user, a role or a permission, and the rows of the join
tables. Time stamps are no cells. -/

/-- The columns of `users`, but for the id and `updated_at`. -/
inductive UserColumn where
  | email | passwordHash | firstName | lastName | status | emailVerifiedAt | createdAt | deletedAt
deriving DecidableEq

/-- The columns of `roles`, but for the id and the time stamps. -/
inductive RoleColumn where
  | name | description | isSystem
deriving DecidableEq

/-- The columns of `permissions`, but for the id and the time stamps. -/
inductive PermissionColumn where
  | action | subject | description
deriving DecidableEq

/-- A business column of a row, or a row of a join table. -/
inductive Cell where
  | user (id : Uuid) (column : UserColumn)
  | role (id : Uuid) (column : RoleColumn)
  | permission (id : Uuid) (column : PermissionColumn)
  | userRole (userId roleId : Uuid)
  | rolePermission (roleId permissionId : Uuid)
deriving DecidableEq

/-- The value of a cell, by the type of its column. -/
inductive Value where
  | text (value : Option String)
  | status (value : Option UserStatus)
  | time (value : Option Nat)
  | action (value : PermissionAction)
  | subject (value : PermissionSubject)
  | flag (value : Bool)
deriving DecidableEq

def UserColumn.read (user : User) : UserColumn → Value
  | .email           => .text (some user.email)
  | .passwordHash    => .text (some user.passwordHash)
  | .firstName       => .text user.firstName
  | .lastName        => .text user.lastName
  | .status          => .status (some user.status)
  | .emailVerifiedAt => .time user.emailVerifiedAt
  | .createdAt       => .time (some user.createdAt)
  | .deletedAt       => .time user.deletedAt

def RoleColumn.read (role : Role) : RoleColumn → Value
  | .name        => .text (some role.name)
  | .description => .text role.description
  | .isSystem    => .flag role.isSystem

def PermissionColumn.read (permission : Permission) : PermissionColumn → Value
  | .action      => .action permission.action
  | .subject     => .subject permission.subject
  | .description => .text permission.description

/-- The value of a cell; a cell of a missing row has none. -/
def Rbac.read (db : Rbac) : Cell → Option Value
  | .user id column                     => (db.users.get id).map column.read
  | .role id column                     => (db.roles.get id).map column.read
  | .permission id column               => (db.permissions.get id).map column.read
  | .userRole userId roleId             =>
      some (.flag ((⟨userId, roleId⟩ : UserRole) ∈ db.userRoles.rows))
  | .rolePermission roleId permissionId =>
      some (.flag ((⟨roleId, permissionId⟩ : RolePermission) ∈ db.rolePermissions.rows))

/-! ## Requests

The three bodies as partial assignments. What a field gives is what the API says about it: a trimmed
text, or `null` for a blank one. -/

/-- A request to one of the three endpoints, with the parameters of its route. -/
inductive Patch where
  | user (id : String) (dto : UpdateUserDto) (actingUserId : Option String)
  | role (id : String) (dto : UpdateRoleDto)
  | permission (id : String) (dto : UpdatePermissionDto)

/-- The value of a text field: trimmed, and `null` for a blank text. -/
def givenText (field : Option (Option String)) : Option Value :=
  field.map fun value => .text (trimOrNull value)

def UpdateUserDto.given (dto : UpdateUserDto) : UserColumn → Option Value
  | .firstName => givenText dto.firstName
  | .lastName  => givenText dto.lastName
  | .status    => dto.status.map .status
  | _          => none

def UpdateRoleDto.given (dto : UpdateRoleDto) : RoleColumn → Option Value
  | .name        => givenText dto.name
  | .description => givenText dto.description
  | .isSystem    => none

def Postgres.UpdatePermissionDto.given (dto : UpdatePermissionDto) : PermissionColumn → Option Value
  | .description => givenText dto.description
  | _            => none

namespace Patch

/-- The value the body gives to a cell, if it names it. -/
def given : Patch → Cell → Option Value
  | .user id dto _, .user u column           => if u = .cast id then dto.given column else none
  | .role id dto, .role r column             => if r = .cast id then dto.given column else none
  | .permission id dto, .permission p column => if p = .cast id then dto.given column else none
  | _, _                                     => none

/-- The handler's call. -/
def call (o : Choice) : Patch → Service Unit
  | .user id dto actingUserId => do
      let _ ← updateUser o id dto actingUserId
      return ()
  | .role id dto => do
      let _ ← updateRole id dto
      return ()
  | .permission id dto => do
      let _ ← updatePermission id dto
      return ()

/-- The request succeeds and leaves the world `w'`. -/
def Succeeds (o : Choice) (patch : Patch) (w w' : World) : Prop := patch.call o w = (.ok (), w')

/-- On success, the cells named have the values given and the others keep theirs. -/
def TouchesNamed (o : Choice) (patch : Patch) (w : World) : Prop :=
  ∀ w', patch.Succeeds o w w' → ∀ cell, w'.db.read cell = (patch.given cell).or (w.db.read cell)

/-- The role can be changed as the body says. -/
def RoleAccepted (dto : UpdateRoleDto) (role : Role) (name : String) (db : Rbac) : Prop :=
  role.isSystem = false ∧ Renames db role name ∧
    (roleColumns (some role.name) role.description (updatedRole role name dto)).any
      TextColumn.refuses = false ∧
    db.nameFree (updatedRole role name dto) = true

/-- The body is written as given: a role gets no blank name, and the description of a permission is
    present and as `trimOrNull` leaves it, or is `null` anyway. -/
def AsGiven (db : Rbac) : Patch → Prop
  | .user .. => True
  | .role id dto =>
      ∀ role text, db.roles.get (.cast id) = some role → dto.name = some (some text) → trim text = "" →
      ¬ RoleAccepted dto role "" db
  | .permission id dto => ∀ permission, db.permissions.get (.cast id) = some permission →
      (descriptionColumn permission dto).refuses = false →
        match dto.description with
        | none => permission.description = none
        | some description => trimOrNull description = description

variable {o : Choice} {w w' : World} {db : Rbac} {id : String} {acting : Option String}

/-! ## One row

Each endpoint writes one row, so a cell of another row keeps its value for a simple reason. -/

theorem succeeds_iff {α : Type} {m : Service α} :
    (do let _ ← m; return () : Service Unit) w = (.ok (), w') ↔
    ∃ a, m w = (.ok a, w') := by
  cases hms : m w with
  | mk r t =>
      cases r with
      | error e =>
          rw [bind_error hms]
          simp
      | ok a =>
          rw [bind_ok hms]
          constructor
          · intro h
            cases h
            exact ⟨a, rfl⟩
          · rintro ⟨b, h⟩
            cases h
            rfl

/-- What is read after a row of `users` is stored. -/
theorem read_putUser (row : User) (cell : Cell) : (db.putUser row).read cell =
    match cell with
    | .user id column => if id = row.id then some (column.read row) else db.read (.user id column)
    | other           => db.read other := by
  cases cell with
  | user id column =>
      show ((db.users.put row).get id).map column.read =
        if id = row.id then some (column.read row) else (db.users.get id).map column.read
      rw [Table.get_put, key_user]
      split
      · rfl
      · rfl
  | role | permission | userRole | rolePermission => rfl

theorem read_putRole (row : Role) (cell : Cell) : (db.putRole row).read cell =
    match cell with
    | .role id column => if id = row.id then some (column.read row) else db.read (.role id column)
    | other           => db.read other := by
  cases cell with
  | role id column =>
      show ((db.roles.put row).get id).map column.read =
        if id = row.id then some (column.read row) else (db.roles.get id).map column.read
      rw [Table.get_put, key_role]
      split
      · rfl
      · rfl
  | user | permission | userRole | rolePermission => rfl

theorem read_putPermission (row : Permission) (cell : Cell) : (db.putPermission row).read cell =
    match cell with
    | .permission id column =>
        if id = row.id then some (column.read row) else db.read (.permission id column)
    | other                 => db.read other := by
  cases cell with
  | permission id column =>
      show ((db.permissions.put row).get id).map column.read =
        if id = row.id then some (column.read row) else (db.permissions.get id).map column.read
      rw [Table.get_put, key_permission]
      split
      · rfl
      · rfl
  | user | role | userRole | rolePermission => rfl

/-! ## Users

`save` writes the columns that differ from the row it reads again. Alone, that row is the one the
entity was made from. -/

theorem given_user {dto : UpdateUserDto} {column : UserColumn} :
    (Patch.user id dto acting).given (.user (.cast id) column) = dto.given column := if_pos rfl

/-- A name after its assignment. -/
theorem text_assignName {field : Option (Option String)} {old new : Option String}
    (h : UpdateUserDto.assignName field old = some new) :
      some (.text new) = (givenText field).or (some (.text old)) := by
  cases field with
  | none =>
      obtain rfl := UpdateUserDto.assignName_none h
      rfl
  | some value =>
      cases value with
      | none => cases h
      | some text =>
          cases h
          rfl

/-- **The entity after the assignments**, column by column: the value given, or the one that was
    there. -/
theorem read_apply {dto : UpdateUserDto} {row user : User} (h : dto.apply row = some user)
    (column : UserColumn) :
    some (column.read user) = (dto.given column).or (some (column.read row)) := by
  simp only [UpdateUserDto.apply, Option.bind_eq_bind, Option.bind_eq_some_iff, Option.pure_def,
    Option.some.injEq] at h
  obtain ⟨firstName, hfirst, lastName, hlast, status, hstatus, rfl⟩ := h
  cases column with
  | firstName => exact text_assignName hfirst
  | lastName => exact text_assignName hlast
  | status =>
      show some (Value.status (some status)) = (dto.status.map .status).or
        (some (.status (some row.status)))
      cases hfield : dto.status with
      | none =>
          rw [hfield] at hstatus
          cases hstatus
          rfl
      | some value =>
          rw [hfield] at hstatus
          obtain rfl : value = some status := hstatus
          rfl
  | email | passwordHash | emailVerifiedAt | createdAt | deletedAt => rfl

/-- `save` writes the entity: where it differs from the row it is the entity, elsewhere they are the
    same. -/
theorem read_saved (now : Nat) (row user : User) (column : UserColumn) :
    column.read (Update.saved now user row) = column.read user := by
  unfold Update.saved
  split
  · next hsame => rw [hsame]
  have hwrite : ∀ {α : Type} [DecidableEq α] (a b : α), Update.writeColumn a b b = a := by
    intro α _ a b
    unfold Update.writeColumn
    split
    · next h => exact h.symm
    · rfl
  cases column <;> simp [UserColumn.read, Update.saveColumns, hwrite]

/-- A patch of an account touches what it names, always. -/
theorem touchesNamed_user {dto : UpdateUserDto} : TouchesNamed o (.user id dto acting) w := by
  intro w' hs cell
  obtain ⟨a, hrun⟩ := succeeds_iff.mp hs
  by_cases hrefused : (some id = acting ∧ dto.status.isSome) ∨
      ∀ user, w.db.users.get (.cast id) = some user → user.deletedAt.isSome
  · obtain ⟨e, he⟩ := updateUser_refused (o := o) hrefused
    cases he.symm.trans hrun
  · simp only [not_or, not_forall] at hrefused
    obtain ⟨hself, row, hrow, hlive⟩ := hrefused
    have hlive' : row.deletedAt = none := by simpa using hlive
    cases happly : dto.apply row with
    | none => cases (updateUser_crashes hself hrow hlive' happly).symm.trans hrun
    | some user =>
        cases htexts : (nameColumns row user).any TextColumn.refuses with
        | true => cases (updateUser_unstorable hself hrow hlive' happly htexts).symm.trans hrun
        | false =>
            have hdone := (updateUser_done (o := o) hself hrow hlive' happly htexts).symm.trans hrun
            obtain rfl : _ = w' := congrArg Prod.snd hdone
            have hid : (Update.saved o.now user row).id = .cast id :=
              (Update.saved_edits (UpdateUserDto.apply_edits happly) o.now).id.trans (Table.get_key hrow)
            rw [read_putUser]
            cases cell with
            | user u column =>
                show (if u = _ then _ else _) = _
                by_cases hu : u = .cast id
                · subst hu
                  rw [if_pos hid.symm, given_user, read_saved, read_apply happly column]
                  show _ = (dto.given column).or ((w.db.users.get (.cast id)).map column.read)
                  rw [hrow]
                  rfl
                · rw [if_neg (by rw [hid]; exact hu)]
                  show _ = (if u = .cast id then _ else _ : Option Value).or _
                  rw [if_neg hu]
                  rfl
            | role | permission | userRole | rolePermission => rfl

/-! ## Roles

A name that is given is trimmed and stored, also when nothing is left of it. -/

theorem trimOrNull_blank {text : String} (h : trim text = "") : trimOrNull (some text) = none := by
  simp [trimOrNull, h]

theorem trimOrNull_text {text : String} (h : trim text ≠ "") :
    trimOrNull (some text) = some (trim text) := by
  unfold trimOrNull
  rw [Option.map_some]
  split
  · next heq => exact absurd (Option.some.inj heq) h
  · rfl

section Role

variable {dto : UpdateRoleDto} {role : Role} {name : String}

theorem given_role {column : RoleColumn} :
    (Patch.role id dto).given (.role (.cast id) column) = dto.given column :=
  if_pos rfl

/-- **When the update succeeds**, and what it leaves: the role is there and no system role, and its name
    is free. -/
theorem role_succeeds {a : Role} (h : updateRole id dto w = (.ok a, w')) :
    ∃ role name, w.db.roles.get (.cast id) = some role ∧ nameAfter role dto.name = some name ∧
      RoleAccepted dto role name w.db ∧
        w' = { w with db := w.db.putRole (updatedRole role name dto) } := by
  by_cases hrefused : ∀ role, w.db.roles.get (.cast id) = some role → role.isSystem = true
  · obtain ⟨e, he⟩ := updateRole_refused dto hrefused
    cases he.symm.trans h
  · simp only [not_forall, Bool.not_eq_true] at hrefused
    obtain ⟨role, hrole, hsys⟩ := hrefused
    cases hname : nameAfter role dto.name with
    | none => cases (updateRole_rename hrole hsys (rename_null hname)).symm.trans h
    | some name =>
        by_cases hrenames : Renames w.db role name
        · cases htexts : (roleColumns (some role.name) role.description (updatedRole role name dto)).any
            TextColumn.refuses with
          | true => cases (updateRole_unstorable hrole hsys hname hrenames htexts).symm.trans h
          | false =>
              cases hfree : w.db.nameFree (updatedRole role name dto) with
              | false =>
                  obtain ⟨e, he⟩ := updateRole_conflict hrole hsys hname hrenames htexts hfree
                  cases he.symm.trans h
              | true =>
                  have hdone := (updateRole_done hrole hsys hname hrenames htexts hfree).symm.trans h
                  exact ⟨role, name, hrole, hname, ⟨hsys, hrenames, htexts, hfree⟩,
                    (congrArg Prod.snd hdone).symm⟩
        · -- the lookup of the new name ends the call
          simp only [Renames, not_or, not_and] at hrenames
          obtain ⟨hne, htaken⟩ := hrenames
          cases hnul : hasNul name with
          | true => cases (updateRole_rename hrole hsys (rename_nul hname hne hnul)).symm.trans h
          | false =>
              cases (updateRole_rename hrole hsys
              (rename_taken hname hne hnul (htaken hnul))).symm.trans h

/-- The columns of the row saved, apart from a name that is given and blank. -/
theorem read_updatedRole (hname : nameAfter role dto.name = some name)
    (hblank : ∀ text, dto.name = some (some text) → trim text ≠ "") (column : RoleColumn) :
    some (column.read (updatedRole role name dto)) = (dto.given column).or
      (some (column.read role)) := by
  cases column with
  | name =>
      show some (Value.text (some (updatedRole role name dto).name)) = (givenText dto.name).or _
      rw [updatedRole_name]
      cases hfield : dto.name with
      | none =>
          rw [hfield] at hname
          cases hname
          rfl
      | some value =>
          cases value with
          | none =>
              rw [hfield] at hname
              cases hname
          | some text =>
              rw [hfield] at hname
              cases hname
              show _ = some (Value.text (trimOrNull (some text)))
              rw [trimOrNull_text (hblank text hfield)]
  | description =>
      show some (Value.text (updatedRole role name dto).description) = (givenText dto.description).or _
      unfold updatedRole
      cases dto.description <;> rfl
  | isSystem =>
      show some (Value.flag (updatedRole role name dto).isSystem) = _
      unfold updatedRole
      cases dto.description <;> rfl

/-- A patch of a role does so iff its body is written as given. -/
theorem touchesNamed_role : TouchesNamed o (.role id dto) w ↔ (Patch.role id dto).AsGiven w.db := by
  constructor
  · -- a blank name that is accepted is stored as the empty text
    rintro htouches role text hrole hfield hblank ⟨hsys, hrenames, htexts, hfree⟩
    have hname : nameAfter role dto.name = some "" := by
      rw [hfield]
      exact congrArg some hblank
    have hdone := updateRole_done hrole hsys hname hrenames htexts hfree
    have hcell := htouches _ (succeeds_iff.mpr ⟨_, hdone⟩) (.role (.cast id) .name)
    rw [read_putRole, given_role] at hcell
    have hid : role.id = .cast id := Table.get_key hrole
    have hnamed : dto.given .name = some (.text none) := by
      show givenText dto.name = _
      rw [hfield]
      exact congrArg (fun value => some (Value.text value)) (trimOrNull_blank hblank)
    simp [hid, hnamed, RoleColumn.read] at hcell
  · intro hgiven w' hs cell
    obtain ⟨a, hrun⟩ := succeeds_iff.mp hs
    obtain ⟨role, name, hrole, hname, haccepted, rfl⟩ := role_succeeds hrun
    have hid : (updatedRole role name dto).id = .cast id := updatedRole_id.trans (Table.get_key hrole)
    have hblank : ∀ text, dto.name = some (some text) → trim text ≠ "" := by
      intro text hfield hblank
      rw [hfield] at hname
      obtain rfl : "" = name := hblank.symm.trans (Option.some.inj hname)
      exact hgiven role text hrole hfield hblank haccepted
    rw [read_putRole]
    cases cell with
    | role r column =>
        show (if r = _ then _ else _) = _
        by_cases hr : r = .cast id
        · subst hr
          rw [if_pos hid.symm, given_role, read_updatedRole hname hblank column]
          show _ = (dto.given column).or ((w.db.roles.get (.cast id)).map column.read)
          rw [hrole]
          rfl
        · rw [if_neg (by rw [hid]; exact hr)]
          show _ = (if r = .cast id then _ else _ : Option Value).or _
          rw [if_neg hr]
          rfl
    | user | permission | userRole | rolePermission => rfl

end Role

/-! ## Permissions

The controller hands on `dto.description`, and the service writes it in any case. -/

section Permission

variable {dto : UpdatePermissionDto} {permission : Permission}

theorem given_permission {column : PermissionColumn} :
    (Patch.permission id dto).given (.permission (.cast id) column) = dto.given column := if_pos rfl

/-- When the update of a permission succeeds, and what it leaves. -/
theorem permission_succeeds {a : Permission} (h : updatePermission id dto w = (.ok a, w')) :
    ∃ permission, w.db.permissions.get (.cast id) = some permission ∧
      (descriptionColumn permission dto).refuses = false ∧
      w' = { w with db := w.db.putPermission (updatedPermission permission dto) } := by
  cases hrow : w.db.permissions.get (.cast id) with
  | none => cases (updatePermission_missing hrow).symm.trans h
  | some permission =>
      cases htexts : (descriptionColumn permission dto).refuses with
      | true => cases (updatePermission_unstorable hrow htexts).symm.trans h
      | false =>
          have hdone := (updatePermission_done hrow htexts).symm.trans h
          exact ⟨permission, rfl, htexts, (congrArg Prod.snd hdone).symm⟩

/-- The description saved is the one asked for. -/
theorem read_description : some (Value.text (dto.description.getD none)) =
      (givenText dto.description).or (some (.text permission.description)) ↔
    match dto.description with
    | none => permission.description = none
    | some description => trimOrNull description = description := by
  cases dto.description with
  | none =>
      show some (Value.text none) = some (.text permission.description) ↔ permission.description = none
      rw [Option.some.injEq, Value.text.injEq, eq_comm]
  | some description =>
      show some (Value.text description) = some (.text (trimOrNull description)) ↔ _
      rw [Option.some.injEq, Value.text.injEq, eq_comm]

/-- A patch of a permission does so iff its body is written as given. -/
theorem touchesNamed_permission :
    TouchesNamed o (.permission id dto) w ↔ (Patch.permission id dto).AsGiven w.db := by
  constructor
  · intro htouches permission hrow htexts
    have hcell := htouches _ (succeeds_iff.mpr ⟨_, updatePermission_done hrow htexts⟩)
      (.permission (.cast id) .description)
    have hid : permission.id = .cast id := Table.get_key hrow
    rw [read_putPermission, given_permission] at hcell
    rw [← read_description]
    simpa [hid, Rbac.read, hrow, PermissionColumn.read, updatedPermission,
      UpdatePermissionDto.given] using hcell
  · intro hgiven w' hs cell
    obtain ⟨a, hrun⟩ := succeeds_iff.mp hs
    obtain ⟨permission, hrow, htexts, rfl⟩ := permission_succeeds hrun
    have hid : (updatedPermission permission dto).id = .cast id := Table.get_key hrow
    rw [read_putPermission]
    cases cell with
    | permission p column =>
        show (if p = _ then _ else _) = _
        by_cases hp : p = .cast id
        · subst hp
          rw [if_pos hid.symm, given_permission]
          show _ = (dto.given column).or ((w.db.permissions.get (.cast id)).map column.read)
          rw [hrow]
          cases column with
          | action | subject => rfl
          | description => exact read_description.mpr (hgiven permission hrow htexts)
        · rw [if_neg (by rw [hid]; exact hp)]
          show _ = (if p = .cast id then _ else _ : Option Value).or _
          rw [if_neg hp]
          rfl
    | user | role | userRole | rolePermission => rfl

end Permission

/-! ## Exactly

For all three at once, and what follows: the empty body, and two bodies with no cell in common. -/

/-- The body names no cell that the other body names. -/
def Disjoint (patch other : Patch) : Prop := ∀ cell, patch.given cell = none ∨ other.given cell = none

/-- The three kinds of patches together. -/
theorem touchesNamed_iff (o : Choice) (patch : Patch) (w : World) :
    TouchesNamed o patch w ↔ patch.AsGiven w.db := by
  cases patch with
  | user id dto acting => exact iff_of_true touchesNamed_user trivial
  | role id dto => exact touchesNamed_role
  | permission id dto => exact touchesNamed_permission

/-- **Assignments of disjoint cells commute**, up to the time of the last change. -/
theorem commute {patch other : Patch} {o₁ o₂ o₃ o₄ : Choice} {w₁ w₁₂ w₂ w₂₁ : World}
    (hdisjoint : patch.Disjoint other)
    (h₁ : patch.Succeeds o₁ w w₁) (h₁₂ : other.Succeeds o₂ w₁ w₁₂) (h₂ : other.Succeeds o₃ w w₂)
    (h₂₁ : patch.Succeeds o₄ w₂ w₂₁) (ht₁ : TouchesNamed o₁ patch w) (ht₁₂ : TouchesNamed o₂ other w₁)
    (ht₂ : TouchesNamed o₃ other w) (ht₂₁ : TouchesNamed o₄ patch w₂) (cell : Cell) :
    w₁₂.db.read cell = w₂₁.db.read cell := by
  rw [ht₁₂ w₁₂ h₁₂ cell, ht₁ w₁ h₁ cell, ht₂₁ w₂₁ h₂₁ cell, ht₂ w₂ h₂ cell]
  rcases hdisjoint cell with hnone | hnone <;> rw [hnone] <;> simp

/-- **A `PATCH` touches only what it names, iff its body is written as given**; then one that names
    nothing changes nothing, and two with disjoint fields commute. -/
theorem patches_touch_named (patch : Patch) (o : Choice) (w : World) :
    (TouchesNamed o patch w ↔ patch.AsGiven w.db) ∧
      (patch.AsGiven w.db → (∀ cell, patch.given cell = none) → ∀ w', patch.Succeeds o w w' →
        ∀ cell, w'.db.read cell = w.db.read cell) ∧
      ∀ (other : Patch) (o₂ o₃ o₄ : Choice) (w₁ w₁₂ w₂ w₂₁ : World), patch.Disjoint other →
        patch.Succeeds o w w₁ → other.Succeeds o₂ w₁ w₁₂ → other.Succeeds o₃ w w₂ →
          patch.Succeeds o₄ w₂ w₂₁ →
        patch.AsGiven w.db → other.AsGiven w₁.db → other.AsGiven w.db → patch.AsGiven w₂.db →
        ∀ cell, w₁₂.db.read cell = w₂₁.db.read cell := by
  refine ⟨touchesNamed_iff o patch w, ?_, ?_⟩
  · intro hgiven hnothing w' hs cell
    have htouches := (touchesNamed_iff o patch w).mpr hgiven w' hs cell
    rwa [hnothing cell, Option.none_or] at htouches
  · intro other o₂ o₃ o₄ w₁ w₁₂ w₂ w₂₁ hdisjoint h₁ h₁₂ h₂ h₂₁ hg₁ hg₁₂ hg₂ hg₂₁
    exact commute hdisjoint h₁ h₁₂ h₂ h₂₁ ((touchesNamed_iff o patch w).mpr hg₁)
      ((touchesNamed_iff o₂ other w₁).mpr hg₁₂)
      ((touchesNamed_iff o₃ other w).mpr hg₂) ((touchesNamed_iff o₄ patch w₂).mpr hg₂₁)

/-- A permission with a description. -/
def described : Permission := ⟨uuidA, .read, .user, some "Read any user"⟩

/-- `PATCH /permissions/:id` with the empty body erases the description. -/
theorem empty_patch_erases : ¬ ∀ (patch : Patch) (o : Choice) (w : World), TouchesNamed o patch w := by
  intro h
  let w : World := ⟨Rbac.empty.putPermission described, fun _ => none, []⟩
  let patch : Patch := .permission uuidA.text ⟨none⟩
  have hrow : w.db.permissions.get (.cast uuidA.text) = some described := by
    rw [Uuid.cast_text]
    rfl
  have hgiven := (touchesNamed_iff (.at 0 uuidB "" uuidB) patch w).mp
    (h patch _ w) described hrow (by decide)
  exact absurd hgiven (by decide)

end Patch

end NestApp
