import NestApp.Auth.HalfDone
import NestApp.Users.SetRoles

/-!
# `Rbac.Postgres` — the services over columns that refuse some texts

A `varchar(n)` refuses a text of more than `n` characters, and PostgreSQL refuses U+0000 in any text,
also in one that a query only compares. The services of `Rbac.Services` leave this out; here the five
endpoints that take texts from a body are written with it. A refused text is a `QueryFailedError` that
no service maps.

Up to a refused text each program is its service (`updateUser_refines` and the like), and its result is
given as an equation, case by case, in the order in which the statements are sent.
-/

namespace NestApp

open Sql Prog

/-! ## Texts

A column refuses a text by its length in characters or for U+0000; an unchanged column is not sent, so
it refuses nothing. A comparison sends its text too. -/

/-- Does the text contain U+0000? -/
def hasNul (text : String) : Bool := text.toList.any (· = Char.ofNat 0)

/-- A nullable `varchar(maxLength)` that a statement may write. -/
structure TextColumn where
  maxLength : Nat
  old       : Option String
  new       : Option String

/-- The new text is sent, as it differs from the old one, and the column does not take it. -/
def TextColumn.refuses (column : TextColumn) : Bool :=
  column.new ≠ column.old && column.new.any fun text => hasNul text || column.maxLength < text.length

namespace Postgres

variable {σ : Type}

/-- The texts of an `INSERT` or `UPDATE`. -/
def writeTexts (columns : List TextColumn) : Prog σ Failure Unit :=
  throwIf (columns.any TextColumn.refuses) .unexpected

/-- A text compared in a `SELECT`. -/
def compareText (text : String) : Prog σ Failure Unit := throwIf (hasNul text) .unexpected

/-! ## The services

The five endpoints with a body, statement by statement as in `Rbac.Services`, and in front of each
statement the texts it sends. -/

/-- The columns `UsersService.update` may write. -/
def nameColumns (row user : User) : List TextColumn :=
  [⟨100, row.firstName, user.firstName⟩, ⟨100, row.lastName, user.lastName⟩]

/-- `UsersService.update` -/
def updateUser (o : Choice) (id : String) (dto : UpdateUserDto) (actingUserId : Option String) :
    Service User := do
  throwIf (some id = actingUserId ∧ dto.status.isSome)
    (.http (.badRequest "Cannot change your own status"))
  let row ← UsersService.findWithRolesOrFail id
  let user ← orThrow (dto.apply row) .unexpected
  writeTexts (nameColumns row user)
  modify fun w => { w with db := w.db.putUser (Update.saved o.now user row) }
  UsersService.findWithRolesOrFail id

def existsByName (name : String) : Service Bool := do
  compareText name
  RolesService.existsByName name

/-- The assignment of `dto.name`. -/
def rename (role : Role) : Option (Option String) → Service Role
  | none => pure role
  | some none => throw .unexpected
  | some (some name) =>
      if trim name = role.name then pure role
      else do
        let taken ← existsByName (trim name)
        throwIf taken (.http (.conflict (RolesService.alreadyExists (trim name))))
        return { role with name := trim name }

/-- The columns `RolesService.create` and `update` may write. -/
def roleColumns (oldName oldDescription : Option String) (row : Role) : List TextColumn :=
  [⟨50, oldName, some row.name⟩, ⟨255, oldDescription, row.description⟩]

/-- `RolesService.update` -/
def updateRole (id : String) (dto : UpdateRoleDto) : Service Role := do
  let role ← RolesService.getOrThrow id
  RolesService.assertMutable role "update"
  let renamed ← rename role dto.name
  let row := RolesService.describe renamed dto.description
  writeTexts (roleColumns (some role.name) role.description row)
  (save (·.updateRole row) .uniqueViolation).mapError
    (rethrowConflictOrOriginal (RolesService.alreadyExists row.name))
  RolesService.getOrThrow id

/-- `RolesService.create` -/
def createRole (o : Choice) (dto : CreateRoleDto) : Service Role := do
  let name := trim dto.name
  let taken ← existsByName name
  throwIf taken (.http (.conflict (RolesService.alreadyExists name)))
  let row : Role := ⟨o.id, name, trimOrNull dto.description, false⟩
  writeTexts (roleColumns none none row)
  (save (·.insertRole row) .uniqueViolation).mapError
    (rethrowConflictOrOriginal (RolesService.alreadyExists name))
  RolesService.getOrThrow row.id.text

/-- The texts of a new account; its email has passed `@IsEmail`, which admits no U+0000, and `citext`
    has no limit. -/
def newUserColumns (row : User) : List TextColumn :=
  [⟨100, none, row.firstName⟩, ⟨100, none, row.lastName⟩]

/-- `UsersService.create` -/
def createUser (env : Env) (o : Choice) (dto : CreateUserDto) : Service User := do
  let existing ← UsersService.findByEmail env (normalizeEmail env dto.email)
  throwIf existing.isSome (.http (.conflict "Email is already registered"))
  writeTexts (newUserColumns (Session.newUser env o dto.toRegisterDto))
  let user ← (UsersService.createUserInTransaction env (Session.newUser env o dto.toRegisterDto)
    (dto.roleIds.getD [])).mapError
    (rethrowConflictOrOriginal "Email is already registered")
  UsersService.findWithRolesOrFail user.id.text

/-- `AuthService.register` -/
def register (env : Env) (o oSession : Choice) (dto : RegisterDto) (metadata : SessionMetadata) :
    AccountService RefreshToken := do
  let existing ← onWorld (UsersService.findByEmail env (normalizeEmail env dto.email))
  throwIf existing.isSome (.http (.conflict "Email is already registered"))
  writeTexts (newUserColumns (Session.newUser env o dto))
  let user ← onWorld ((UsersService.createWithDefaultRole env none (Session.newUser env o dto)).mapError
    (rethrowConflictOrOriginal "Email is already registered"))
  AuthService.createSession env oSession none user metadata

structure UpdatePermissionDto where
  /-- absent is `none`, an explicit `null` is `some none` -/
  description : Option (Option String)
deriving DecidableEq

/-- `PermissionsController.update` and the service it calls: an absent description is passed on as
    `null`. -/
def updatePermission (id : String) (dto : UpdatePermissionDto) : Service Permission := do
  let description := dto.description.getD none
  let permission ← PermissionsService.findPermissionById id
  let permission ← orThrow permission (.http (.badRequest "Permission not found"))
  let row := { permission with description := description }
  writeTexts [⟨255, permission.description, row.description⟩]
  modify fun w => { w with db := w.db.putPermission row }
  return row

variable {env : Env} {o oSession : Choice} {w : World} {id : String} {acting : Option String}

theorem writeTexts_refused {α : Type} {columns : List TextColumn} {k : Unit → Prog σ Failure α} {s : σ}
    (h : columns.any TextColumn.refuses = true) :
      (writeTexts columns >>= k) s = (.error .unexpected, s) :=
  throwIf_bind_true h

theorem writeTexts_taken {α : Type} {columns : List TextColumn} {k : Unit → Prog σ Failure α} {s : σ}
    (h : columns.any TextColumn.refuses = false) : (writeTexts columns >>= k) s = k () s :=
  throwIf_bind_false (by rw [h]; exact Bool.false_ne_true)

/-! ## The services without refused texts

Two ways of running a program side by side with its service. What comes before a refused text only
reads, so a refusal leaves nothing behind. -/

/-- A program that writes nothing before it returns. -/
def Reads {α : Type} (m : Prog σ Failure α) : Prop := ∀ s a t, m s = (.ok a, t) → t = s

namespace Reads

variable {α β : Type} {m : Prog σ Failure α} {f : α → Prog σ Failure β}

theorem pure (a : α) : Reads (pure a : Prog σ Failure α) := by
  intro s b t h
  cases h
  rfl

theorem throw (e : Failure) : Reads (throw e : Prog σ Failure α) := by
  intro s b t h
  cases h

theorem gets (g : σ → α) : Reads (gets g : Prog σ Failure α) := by
  intro s b t h
  cases h
  rfl

theorem throwIf (c : Prop) [Decidable c] (e : Failure) : Reads (throwIf c e : Prog σ Failure Unit) := by
  unfold Prog.throwIf
  split
  · exact throw e
  · exact pure ()

theorem orThrow (a : Option α) (e : Failure) : Reads (orThrow a e : Prog σ Failure α) := by
  cases a with
  | none => exact throw e
  | some a => exact pure a

theorem bind (hm : Reads m) (hf : ∀ a, Reads (f a)) : Reads (m >>= f) := by
  intro s b t h
  cases hms : m s with
  | mk r s' =>
      cases r with
      | error e =>
          rw [bind_error hms] at h
          cases h
      | ok a =>
          obtain rfl := hm s a s' hms
          rw [bind_ok hms] at h
          exact hf a _ b t h

end Reads

/-- The program is the service, up to a text that is refused before anything is written: it does what
    the service does, or it throws and leaves the state as it was. -/
def Refines {α : Type} (m service : Prog σ Failure α) : Prop :=
  ∀ s, m s = (.error .unexpected, s) ∨ m s = service s

namespace Refines

variable {α β : Type} {m service : Prog σ Failure α} {f g : α → Prog σ Failure β}

theorem refl (m : Prog σ Failure α) : Refines m m := fun _ => .inr rfl

/-- A read, and what follows it. -/
theorem bind (hm : Refines m service) (hreads : Reads service) (h : ∀ a, Refines (f a) (g a)) :
    Refines (m >>= f) (service >>= g) := by
  intro s
  rcases hm s with hrefused | hsame
  · exact .inl (bind_error hrefused)
  · cases hs : service s with
    | mk r t =>
        rw [hs] at hsame
        cases r with
        | error e => exact .inr ((bind_error hsame).trans (bind_error hs).symm)
        | ok a =>
            obtain rfl := hreads s a t hs
            rw [bind_ok hsame, bind_ok hs]
            exact h a _

theorem writeTexts {columns : List TextColumn} (h : Refines m service) :
    Refines (writeTexts columns >>= fun _ => m) service := by
  intro s
  cases htexts : columns.any TextColumn.refuses with
  | true => exact .inl (writeTexts_refused htexts)
  | false =>
      rw [writeTexts_taken htexts]
      exact h s

theorem existsByName (name : String) : Refines (existsByName name) (RolesService.existsByName name) := by
  intro w
  cases hnul : hasNul name with
  | true => exact .inl (throwIf_bind_true hnul)
  | false => exact .inr (throwIf_bind_false (by rw [hnul]; exact Bool.false_ne_true))

end Refines

theorem reads_findWithRolesOrFail (id : String) : Reads (UsersService.findWithRolesOrFail id) :=
  .bind (.gets _) fun _ => .orThrow _ _

theorem reads_getOrThrow (id : String) : Reads (RolesService.getOrThrow id) :=
  .bind (.gets _) fun _ => .orThrow _ _

/-- **Up to refused texts this is `UsersService.update`**; likewise below for the other services. -/
theorem updateUser_refines (o : Choice) (id : String) (dto : UpdateUserDto) (acting : Option String) :
    Refines (updateUser o id dto acting) (UsersService.update o id dto acting) :=
  .bind (.refl _) (.throwIf _ _) fun _ => .bind (.refl _) (reads_findWithRolesOrFail id) fun _ =>
    .bind (.refl _) (.orThrow _ _) fun _ => .writeTexts (.refl _)

theorem rename_refines (role : Role) (field : Option (Option String)) :
    Refines (rename role field) (RolesService.rename role field) := by
  cases field with
  | none => exact .refl _
  | some value =>
      cases value with
      | none => exact .refl _
      | some text =>
          rw [rename, RolesService.rename]
          split
          · exact .refl _
          · exact .bind (.existsByName _) (.gets _) fun _ => .refl _

theorem reads_rename (role : Role) (field : Option (Option String)) :
    Reads (RolesService.rename role field) := by
  cases field with
  | none => exact .pure role
  | some value =>
      cases value with
      | none => exact .throw _
      | some text =>
          rw [RolesService.rename]
          split
          · exact .pure role
          · exact .bind (.gets _) fun _ => .bind (.throwIf _ _) fun _ => .pure _

theorem updateRole_refines (id : String) (dto : UpdateRoleDto) :
    Refines (updateRole id dto) (RolesService.update id dto) :=
  .bind (.refl _) (reads_getOrThrow id) fun role => .bind (.refl _) (.throwIf _ _) fun _ =>
    .bind (rename_refines role dto.name) (reads_rename role dto.name) fun _ => .writeTexts (.refl _)

theorem createRole_refines (o : Choice) (dto : CreateRoleDto) :
    Refines (createRole o dto) (RolesService.create o dto) :=
  .bind (.existsByName _) (.gets _) fun _ => .bind (.refl _) (.throwIf _ _) fun _ =>
    .writeTexts (.refl _)

theorem createUser_refines (env : Env) (o : Choice) (dto : CreateUserDto) :
    Refines (createUser env o dto) (UsersService.create env o dto) :=
  .bind (.refl _) (.gets _) fun _ => .bind (.refl _) (.throwIf _ _) fun _ => .writeTexts (.refl _)

theorem register_refines (env : Env) (o oSession : Choice) (dto : RegisterDto)
    (metadata : SessionMetadata) :
    Refines (register env o oSession dto metadata)
      (AuthService.register env o oSession none dto metadata) := by
  have hreads : Reads (onWorld (UsersService.findByEmail env (normalizeEmail env dto.email))) := by
    intro s a t h
    rw [onWorld_eq (UsersService.findByEmail_run ..)] at h
    cases h
    rfl
  unfold AuthService.register
  rw [statement_of_ne (by simp)]
  exact .bind (.refl _) hreads fun _ => .bind (.refl _) (.throwIf _ _) fun _ => .writeTexts (.refl _)

/-- The service is called with the description, or with `null`. -/
theorem updatePermission_refines (id : String) (dto : UpdatePermissionDto) :
    Refines (updatePermission id dto)
      (PermissionsService.updatePermission id (dto.description.getD none)) :=
  .bind (.refl _) (.gets _) fun _ => .bind (.refl _) (.orThrow _ _) fun _ => .writeTexts (.refl _)

/-! ## `updateUser`

The result of the call in each case, in the order of the checks: the own status, the account, the
assignments, the texts. -/

section UpdateUser

variable {dto : UpdateUserDto} {row user : User}

/-- The request is refused before any assignment: a change of the own status, or no such account. -/
theorem updateUser_refused (h : (some id = acting ∧ dto.status.isSome) ∨
      ∀ user, w.db.users.get (.cast id) = some user → user.deletedAt.isSome) :
    ∃ e, updateUser o id dto acting w = (.error (.http e), w) := by
  unfold updateUser
  by_cases hself : some id = acting ∧ dto.status.isSome
  · exact ⟨_, throwIf_bind_true hself⟩
  · rw [throwIf_bind_false hself]
    exact ⟨_, bind_error (UsersService.findWithRolesOrFail_none (h.resolve_left hself))⟩

/-- The assignments fail: a method of `null` is called, or `null` assigned to `status`. -/
theorem updateUser_crashes (hself : ¬ (some id = acting ∧ dto.status.isSome))
    (hrow : w.db.users.get (.cast id) = some row) (hlive : row.deletedAt = none)
    (happly : dto.apply row = none) :
    updateUser o id dto acting w = (.error .unexpected, w) := by
  unfold updateUser
  rw [throwIf_bind_false hself, bind_ok (UsersService.findWithRolesOrFail_some hrow hlive),
    happly, orThrow_bind_none]

theorem updateUser_unstorable (hself : ¬ (some id = acting ∧ dto.status.isSome))
    (hrow : w.db.users.get (.cast id) = some row) (hlive : row.deletedAt = none)
    (happly : dto.apply row = some user)
    (htexts : (nameColumns row user).any TextColumn.refuses = true) :
    updateUser o id dto acting w = (.error .unexpected, w) := by
  unfold updateUser
  rw [throwIf_bind_false hself, bind_ok (UsersService.findWithRolesOrFail_some hrow hlive),
    happly, orThrow_bind_some,
    writeTexts_refused htexts]

theorem updateUser_done (hself : ¬ (some id = acting ∧ dto.status.isSome))
    (hrow : w.db.users.get (.cast id) = some row) (hlive : row.deletedAt = none)
    (happly : dto.apply row = some user)
    (htexts : (nameColumns row user).any TextColumn.refuses = false) :
    updateUser o id dto acting w = (.ok (Update.saved o.now user row),
      { w with db := w.db.putUser (Update.saved o.now user row) }) := by
  have hedits := UpdateUserDto.apply_edits happly
  have hsaved : dto.Edits row (Update.saved o.now user row) := Update.saved_edits hedits o.now
  unfold updateUser
  rw [throwIf_bind_false hself, bind_ok (UsersService.findWithRolesOrFail_some hrow hlive),
    happly, orThrow_bind_some,
    writeTexts_taken htexts, modify_bind]
  refine UsersService.findWithRolesOrFail_some ?_ (hsaved.deletedAt.trans hlive)
  show (w.db.users.put (Update.saved o.now user row)).get (.cast id) = _
  rw [Table.get_put]
  exact if_pos ((Table.get_key hrow).symm.trans hsaved.id.symm)

end UpdateUser

/-! ## `updateRole`

Renaming asks the table first, so a new name is compared before it is written; its length matters only
when it is. -/

section UpdateRole

variable {dto : UpdateRoleDto} {role : Role} {field : Option (Option String)} {name : String}

/-- The name after the assignment (`none`: a method of `null` is called). -/
def nameAfter (role : Role) : Option (Option String) → Option String
  | none             => some role.name
  | some none        => none
  | some (some name) => some (trim name)

/-- The row handed to `save`. -/
def updatedRole (role : Role) (name : String) (dto : UpdateRoleDto) : Role :=
  RolesService.describe { role with name := name } dto.description

/-- The lookup of the new name does not end the call: there is none, or its text is taken and no role
    has the name. -/
def Renames (db : Rbac) (role : Role) (name : String) : Prop :=
  name = role.name ∨ hasNul name = false ∧ db.roles.find? (fun r => r.name = name) = none

instance (db : Rbac) (role : Role) (name : String) : Decidable (Renames db role name) := by
  unfold Renames
  infer_instance

theorem existsByName_nul (h : hasNul name = true) : existsByName name w = (.error .unexpected, w) :=
  throwIf_bind_true h

theorem existsByName_ok (h : hasNul name = false) :
    existsByName name w = (.ok (w.db.roles.find? fun r => r.name = name).isSome, w) :=
  throwIf_bind_false (by rw [h]; exact Bool.false_ne_true)

theorem rename_text (role : Role) (text : String) : rename role (some (some text)) =
    if trim text = role.name then pure role
    else do
      let taken ← existsByName (trim text)
      throwIf taken (.http (.conflict (RolesService.alreadyExists (trim text))))
      return { role with name := trim text } := rfl

/-- A field that is given and renames the role. -/
theorem rename_given (hname : nameAfter role field = some name) (hne : name ≠ role.name) :
    ∃ text, field = some (some text) ∧ trim text = name := by
  cases field with
  | none => exact absurd (Option.some.inj hname).symm hne
  | some value =>
      cases value with
      | none => cases hname
      | some text => exact ⟨text, rfl, Option.some.inj hname⟩

theorem rename_ok (hname : nameAfter role field = some name) (h : Renames w.db role name) :
    rename role field w = (.ok { role with name := name }, w) := by
  by_cases heq : name = role.name
  · subst heq
    cases field with
    | none => rfl
    | some value =>
        cases value with
        | none => cases hname
        | some text =>
            rw [rename_text, if_pos (Option.some.inj hname)]
            rfl
  · obtain ⟨text, rfl, rfl⟩ := rename_given hname heq
    obtain ⟨hnul, hfree⟩ := h.resolve_left heq
    rw [rename_text, if_neg heq, bind_ok (existsByName_ok hnul), hfree, throwIf_bind_false (by simp)]
    rfl

theorem rename_nul (hname : nameAfter role field = some name) (hne : name ≠ role.name)
    (hnul : hasNul name = true) :
    rename role field w = (.error .unexpected, w) := by
  obtain ⟨text, rfl, rfl⟩ := rename_given hname hne
  rw [rename_text, if_neg hne, bind_error (existsByName_nul hnul)]

theorem rename_taken (hname : nameAfter role field = some name) (hne : name ≠ role.name)
    (hnul : hasNul name = false)
    (htaken : w.db.roles.find? (fun r => r.name = name) ≠ none) :
    rename role field w = (.error (.http (.conflict (RolesService.alreadyExists name))), w) := by
  obtain ⟨text, rfl, rfl⟩ := rename_given hname hne
  rw [rename_text, if_neg hne, bind_ok (existsByName_ok hnul),
    throwIf_bind_true (Option.isSome_iff_ne_none.mpr htaken)]

theorem rename_null (hname : nameAfter role field = none) :
    rename role field w = (.error .unexpected, w) := by
  cases field with
  | none => cases hname
  | some value =>
      cases value with
      | none => rfl
      | some text => cases hname

theorem getOrThrow_some (hrole : w.db.roles.get (.cast id) = some role) :
    RolesService.getOrThrow id w = (.ok role, w) := by
  unfold RolesService.getOrThrow
  rw [gets_bind, hrole]
  rfl

theorem getOrThrow_none (hrole : w.db.roles.get (.cast id) = none) :
    RolesService.getOrThrow id w = (.error (.http (.notFound "Role not found")), w) := by
  unfold RolesService.getOrThrow
  rw [gets_bind, hrole]
  rfl

/-- The request is refused before any assignment: no such role, or a system role. -/
theorem updateRole_refused (dto : UpdateRoleDto)
    (h : ∀ role, w.db.roles.get (.cast id) = some role → role.isSystem = true) :
    ∃ e, updateRole id dto w = (.error (.http e), w) := by
  unfold updateRole
  cases hrole : w.db.roles.get (.cast id) with
  | none =>
      exact ⟨_, bind_error (getOrThrow_none hrole)⟩
  | some role =>
      rw [bind_ok (getOrThrow_some hrole)]
      exact ⟨_, throwIf_bind_true (h role hrole)⟩

/-- The role may be changed, and its name can be assigned: what is left is the `UPDATE`. -/
theorem updateRole_saves (hrole : w.db.roles.get (.cast id) = some role) (hsys : role.isSystem = false)
    (hname : nameAfter role dto.name = some name) (hrenames : Renames w.db role name) :
    updateRole id dto w =
      (do
        writeTexts (roleColumns (some role.name) role.description (updatedRole role name dto))
        (save (·.updateRole (updatedRole role name dto)) .uniqueViolation).mapError
          (rethrowConflictOrOriginal (RolesService.alreadyExists (updatedRole role name dto).name))
        RolesService.getOrThrow id : Service Role) w := by
  unfold updateRole RolesService.assertMutable
  rw [bind_ok (getOrThrow_some hrole), throwIf_bind_false (by rw [hsys]; exact Bool.false_ne_true),
    bind_ok (rename_ok hname hrenames)]
  rfl

/-- The name cannot be assigned: the call ends there. -/
theorem updateRole_rename {e : Failure} (hrole : w.db.roles.get (.cast id) = some role)
    (hsys : role.isSystem = false)
    (h : rename role dto.name w = (.error e, w)) : updateRole id dto w = (.error e, w) := by
  unfold updateRole RolesService.assertMutable
  rw [bind_ok (getOrThrow_some hrole),
    throwIf_bind_false (by rw [hsys]; exact Bool.false_ne_true), bind_error h]

theorem updateRole_unstorable (hrole : w.db.roles.get (.cast id) = some role)
    (hsys : role.isSystem = false)
    (hname : nameAfter role dto.name = some name) (hrenames : Renames w.db role name)
    (htexts : (roleColumns (some role.name) role.description (updatedRole role name dto)).any
      TextColumn.refuses = true) :
    updateRole id dto w = (.error .unexpected, w) := by
  rw [updateRole_saves hrole hsys hname hrenames, writeTexts_refused htexts]

@[simp] theorem updatedRole_id : (updatedRole role name dto).id = role.id := RolesService.describe_id _ _

@[simp] theorem updatedRole_name : (updatedRole role name dto).name = name := by
  unfold updatedRole
  cases dto.description <;> rfl

theorem updateRole_conflict (hrole : w.db.roles.get (.cast id) = some role)
    (hsys : role.isSystem = false)
    (hname : nameAfter role dto.name = some name) (hrenames : Renames w.db role name)
    (htexts : (roleColumns (some role.name) role.description (updatedRole role name dto)).any
      TextColumn.refuses = false)
    (hfree : w.db.nameFree (updatedRole role name dto) = false) :
    ∃ e, updateRole id dto w = (.error (.http e), w) := by
  have hnone : w.db.updateRole (updatedRole role name dto) = none := by
    rw [Rbac.updateRole, if_neg (by rw [hfree]; exact Bool.false_ne_true)]
  rw [updateRole_saves hrole hsys hname hrenames, writeTexts_taken htexts,
    bind_error (mapError_error (save_error hnone))]
  exact ⟨_, rfl⟩

theorem updateRole_done (hrole : w.db.roles.get (.cast id) = some role) (hsys : role.isSystem = false)
    (hname : nameAfter role dto.name = some name) (hrenames : Renames w.db role name)
    (htexts : (roleColumns (some role.name) role.description (updatedRole role name dto)).any
      TextColumn.refuses = false)
    (hfree : w.db.nameFree (updatedRole role name dto) = true) :
    updateRole id dto w =
      (.ok (updatedRole role name dto), { w with db := w.db.putRole (updatedRole role name dto) }) := by
  have hsome : w.db.updateRole (updatedRole role name dto) =
    some (w.db.putRole (updatedRole role name dto)) := by
    rw [Rbac.updateRole, if_pos hfree]
  rw [updateRole_saves hrole hsys hname hrenames, writeTexts_taken htexts,
    bind_ok (mapError_ok (save_ok hsome))]
  refine getOrThrow_some ?_
  show (w.db.roles.put (updatedRole role name dto)).get (.cast id) = _
  rw [Table.get_put, key_role, updatedRole_id]
  exact if_pos (Table.get_key hrole).symm

end UpdateRole

/-! ## `createRole`

As for an update, but every text is new. -/

section CreateRole

variable {dto : CreateRoleDto} {role : Role}

/-- The row inserted. -/
def newRole (o : Choice) (dto : CreateRoleDto) : Role :=
  ⟨o.id, trim dto.name, trimOrNull dto.description, false⟩

/-- The lookup of the name does not end the call. -/
def NameAdmitted (db : Rbac) (name : String) : Prop :=
  hasNul name = false ∧ db.roles.find? (fun r => r.name = name) = none

instance (db : Rbac) (name : String) : Decidable (NameAdmitted db name) := by
  unfold NameAdmitted
  infer_instance

theorem createRole_nul (hnul : hasNul (trim dto.name) = true) :
    createRole o dto w = (.error .unexpected, w) := by
  unfold createRole
  rw [bind_error (existsByName_nul hnul)]

theorem createRole_taken (hnul : hasNul (trim dto.name) = false)
    (htaken : w.db.roles.find? (fun r => r.name = trim dto.name) ≠ none) :
    createRole o dto w =
      (.error (.http (.conflict (RolesService.alreadyExists (trim dto.name)))), w) := by
  unfold createRole
  rw [bind_ok (existsByName_ok hnul), throwIf_bind_true (Option.isSome_iff_ne_none.mpr htaken)]

/-- What is left is the `INSERT`. -/
theorem createRole_saves (h : NameAdmitted w.db (trim dto.name)) :
    createRole o dto w =
      (do
        writeTexts (roleColumns none none (newRole o dto))
        (save (·.insertRole (newRole o dto)) .uniqueViolation).mapError
          (rethrowConflictOrOriginal (RolesService.alreadyExists (trim dto.name)))
        RolesService.getOrThrow o.id.text : Service Role) w := by
  unfold createRole newRole
  rw [bind_ok (existsByName_ok h.1), throwIf_bind_false (by simp [h.2])]

theorem createRole_unstorable (h : NameAdmitted w.db (trim dto.name))
    (htexts : (roleColumns none none (newRole o dto)).any TextColumn.refuses = true) :
    createRole o dto w = (.error .unexpected, w) := by
  rw [createRole_saves h, writeTexts_refused htexts]

theorem createRole_conflict (h : NameAdmitted w.db (trim dto.name))
    (htexts : (roleColumns none none (newRole o dto)).any TextColumn.refuses = false)
    (hid : w.db.roles.get o.id ≠ none) : ∃ e, createRole o dto w = (.error (.http e), w) := by
  have hnone : w.db.insertRole (newRole o dto) = none := by
    rw [Rbac.insertRole, if_neg fun hfree => hid (Option.isNone_iff_eq_none.mp hfree.1)]
  rw [createRole_saves h, writeTexts_taken htexts, bind_error (mapError_error (save_error hnone))]
  exact ⟨_, rfl⟩

theorem createRole_done (h : NameAdmitted w.db (trim dto.name))
    (htexts : (roleColumns none none (newRole o dto)).any TextColumn.refuses = false)
    (hid : w.db.roles.get o.id = none) :
    createRole o dto w = (.ok (newRole o dto), { w with db := w.db.putRole (newRole o dto) }) := by
  have hfree : w.db.nameFree (newRole o dto) = true := by
    rw [Rbac.nameFree, List.all_eq_true]
    intro r hr
    have hne : ¬ decide (r.name = trim dto.name) = true := List.find?_eq_none.mp h.2 r hr
    rw [decide_eq_true_eq] at hne
    simp [newRole, hne]
  have hsome : w.db.insertRole (newRole o dto) = some (w.db.putRole (newRole o dto)) := by
    rw [Rbac.insertRole, if_pos ⟨Option.isNone_iff_eq_none.mpr hid, hfree⟩]
  rw [createRole_saves h, writeTexts_taken htexts, bind_ok (mapError_ok (save_ok hsome))]
  refine getOrThrow_some ?_
  show (w.db.roles.put (newRole o dto)).get (.cast o.id.text) = _
  rw [Table.get_put, key_role, Uuid.cast_text]
  exact if_pos rfl

end CreateRole

/-! ## `createUser` and `register`

The address has passed its own check by then. What can fail unexpectedly is a name, and the default
role. -/

section CreateUser

variable {dto : CreateUserDto} {row : User} {roleIds : List String}

/-- The indexes admit the row of the new user. -/
def Admits (env : Env) (db : Rbac) (row : User) : Prop :=
  db.users.get row.id = none ∧ db.findByEmail env row.email = none

instance (env : Env) (db : Rbac) (row : User) : Decidable (Admits env db row) := by
  unfold Admits
  infer_instance

/-- No roles are given, and the default one is missing. -/
def LacksRole (db : Rbac) (roleIds : List String) : Prop :=
  roleIds = [] ∧ db.roles.find? (fun r => r.name = "user") = none

instance (db : Rbac) (roleIds : List String) : Decidable (LacksRole db roleIds) := by
  unfold LacksRole
  infer_instance

theorem insertUser_admitted (h : Admits env w.db row) :
    w.db.insertUser env row = some (w.db.putUser row) := by
  rw [Rbac.insertUser, if_pos ⟨Option.isNone_iff_eq_none.mpr h.1, AuthService.emailFree_iff.mpr h.2⟩]

theorem get_putUser (db : Rbac) (row : User) : (db.putUser row).users.get row.id = some row := by
  show (db.users.put row).get row.id = some row
  rw [Table.get_put, key_user, if_pos rfl]

/-- The row is not admitted. -/
theorem createUserInTransaction_violates (roleIds : List String) (h : ¬ Admits env w.db row) :
    UsersService.createUserInTransaction env row roleIds w = (.error .uniqueViolation, w) := by
  have hnone : w.db.insertUser env row = none := by
    rw [Rbac.insertUser, if_neg]
    rintro ⟨hid, hfree⟩
    exact h ⟨Option.isNone_iff_eq_none.mp hid, AuthService.emailFree_iff.mp hfree⟩
  unfold UsersService.createUserInTransaction
  exact transaction_rolls_back (bind_error (save_error hnone))

/-- `findOneByOrFail` finds no default role. -/
theorem createUserInTransaction_lacks (h : Admits env w.db row) (hlacks : LacksRole w.db roleIds) :
    UsersService.createUserInTransaction env row roleIds w = (.error .unexpected, w) := by
  have hroles : UsersService.assignFirstRoles row.id roleIds { w with db := w.db.putUser row } =
      (.error .unexpected, { w with db := w.db.putUser row }) := by
    unfold UsersService.assignFirstRoles
    rw [if_neg (not_not.mpr hlacks.1), gets_bind]
    show (orThrow (w.db.roles.find? fun r => r.name = "user") Failure.unexpected >>= _) _ = _
    rw [hlacks.2, orThrow_bind_none]
  unfold UsersService.createUserInTransaction
  refine @transaction_rolls_back _ _ _ _ { w with db := w.db.putUser row } ?_
  rw [bind_ok (save_ok (insertUser_admitted h)), bind_error hroles]

theorem isSome_putUser (db : Rbac) (row : User) : ((db.putUser row).users.get row.id).isSome := by
  rw [get_putUser]
  rfl

/-- The default role is assigned. -/
theorem assignFirstRoles_default (row : User) (h : w.db.roles.find? (fun r => r.name = "user") ≠ none) :
    ∃ db, UsersService.assignFirstRoles row.id [] { w with db := w.db.putUser row } =
      (.ok (), { w with db := db }) ∧
      db.users = w.db.users.put row ∧ db.roles = w.db.roles := by
  obtain ⟨role, hrole⟩ := Option.ne_none_iff_exists'.mp h
  have hget : (w.db.putUser row).roles.get role.id = some role :=
    Table.get_of_mem (Table.find?_some hrole).1
  have hinsert : ∃ db, (w.db.putUser row).insertUserRole row.id role.id = some db ∧
      db.users = w.db.users.put row ∧ db.roles = w.db.roles := by
    rw [Rbac.insertUserRole, dif_pos ⟨isSome_putUser w.db row, by rw [hget]; rfl⟩]
    exact ⟨_, rfl, rfl, rfl⟩
  obtain ⟨db, hdb, husers, hroles⟩ := hinsert
  refine ⟨db, ?_, husers, hroles⟩
  unfold UsersService.assignFirstRoles
  rw [if_neg (not_not.mpr rfl), gets_bind]
  show (orThrow (w.db.roles.find? fun r => r.name = "user") Failure.unexpected >>= _) _ = _
  rw [hrole, orThrow_bind_some]
  exact save_ok hdb

/-- The roles given are assigned, or one of the ids is unknown. -/
theorem assignFirstRoles_given (hne : roleIds ≠ []) :
    (∃ db, UsersService.assignFirstRoles row.id roleIds { w with db := w.db.putUser row } =
      (.ok (), { w with db := db }) ∧
      db.users = w.db.users.put row ∧ db.roles = w.db.roles) ∨
    ∃ message w', UsersService.assignFirstRoles row.id roleIds { w with db := w.db.putUser row } =
      (.error (.http (.badRequest message)), w') := by
  unfold UsersService.assignFirstRoles
  rw [if_pos hne]
  have howner : row.id ∈ JoinTable.userRoles.owners (w.db.putUser row) := by
    show row.id ∈ (w.db.putUser row).users.rows.map key
    exact Table.mem_map_key.mpr (isSome_putUser w.db row)
  by_cases hgood : (∀ id ∈ roleIds, Uuid.cast id ∈ JoinTable.userRoles.referenced (w.db.putUser row)) ∧
    OneSpelling roleIds
  · obtain ⟨db, hdone, hsame, -⟩ :=
      JoinTable.replace_done (w := { w with db := w.db.putUser row }) hgood.1 hgood.2 (.inl howner)
    refine .inl ⟨db, ?_, hsame.users, hsame.roles⟩
    rw [← Uuid.cast_text row.id, ← JoinTable.replace_userRoles] at hdone
    exact of_transaction_ok hdone
  · obtain ⟨message, hrefused⟩ :=
      JoinTable.replace_refused (w := { w with db := w.db.putUser row }) row.id hgood
    rw [← Uuid.cast_text row.id, ← JoinTable.replace_userRoles] at hrefused
    obtain ⟨w', hw'⟩ := of_transaction_error hrefused
    exact .inr ⟨message, w', hw'⟩

/-- The roles are assigned: the transaction commits. -/
theorem createUserInTransaction_done {db : Rbac} (h : Admits env w.db row)
    (hdone : UsersService.assignFirstRoles row.id roleIds { w with db := w.db.putUser row } =
      (.ok (), { w with db := db })) :
    UsersService.createUserInTransaction env row roleIds w = (.ok row, { w with db := db }) := by
  unfold UsersService.createUserInTransaction
  refine transaction_commits ?_
  rw [bind_ok (save_ok (insertUser_admitted h)), bind_ok hdone]
  rfl

theorem createUserInTransaction_default (h : Admits env w.db row)
    (hrole : w.db.roles.find? (fun r => r.name = "user") ≠ none) :
    ∃ db, UsersService.createUserInTransaction env row [] w = (.ok row, { w with db := db }) ∧
      db.users = w.db.users.put row ∧ db.roles = w.db.roles := by
  obtain ⟨db, hdone, hkept⟩ := assignFirstRoles_default row hrole
  exact ⟨db, createUserInTransaction_done h hdone, hkept⟩

/-- **The transaction of an admitted user with a role to give**: it commits, or an id is unknown. -/
theorem createUserInTransaction_answers (h : Admits env w.db row) (hrole : ¬ LacksRole w.db roleIds) :
    (∃ db, UsersService.createUserInTransaction env row roleIds w = (.ok row, { w with db := db }) ∧
      db.users = w.db.users.put row ∧ db.roles = w.db.roles) ∨
    ∃ message, UsersService.createUserInTransaction env row roleIds w =
      (.error (.http (.badRequest message)), w) := by
  have hroles : (∃ db, UsersService.assignFirstRoles row.id roleIds { w with db := w.db.putUser row } =
        (.ok (), { w with db := db }) ∧ db.users = w.db.users.put row ∧ db.roles = w.db.roles) ∨
      ∃ message w', UsersService.assignFirstRoles row.id roleIds { w with db := w.db.putUser row } =
        (.error (.http (.badRequest message)), w') := by
    by_cases hnil : roleIds = []
    · subst hnil
      exact .inl (assignFirstRoles_default row fun hmissing => hrole ⟨rfl, hmissing⟩)
    · exact assignFirstRoles_given hnil
  obtain ⟨db, hdone, hkept⟩ | ⟨message, w', hrefused⟩ := hroles
  · exact .inl ⟨db, createUserInTransaction_done h hdone, hkept⟩
  · refine .inr ⟨message, ?_⟩
    have hcache : w'.cache = w.cache ∧ w'.asked = w.asked := by
      have hspec := UsersService.assignFirstRoles_spec row.id roleIds
        (w := { w with db := w.db.putUser row }) _ rfl
      rw [hrefused] at hspec
      exact hspec
    have hbody : (do
        save (·.insertUser env row) .uniqueViolation
        UsersService.assignFirstRoles row.id roleIds
        return row : Service User) w = (.error (.http (.badRequest message)), w') := by
      rw [bind_ok (save_ok (insertUser_admitted h)), bind_error hrefused]
    unfold UsersService.createUserInTransaction
    rw [transaction_rolls_back hbody]
    obtain ⟨db, cache, asked⟩ := w'
    obtain ⟨rfl, rfl⟩ := hcache
    rfl

/-- The address is free, and then a text is refused or the default role is not found. -/
def CreationCrashes (env : Env) (o : Choice) (dto : RegisterDto) (roleIds : List String)
    (db : Rbac) : Prop :=
  db.findByEmail env (normalizeEmail env dto.email) = none ∧
    ((newUserColumns (Session.newUser env o dto)).any TextColumn.refuses = true ∨
      db.users.get o.id = none ∧ LacksRole db roleIds)

theorem createUser_crashes (h : CreationCrashes env o dto.toRegisterDto (dto.roleIds.getD []) w.db) :
    createUser env o dto w = (.error .unexpected, w) := by
  obtain ⟨hemail, hcrash⟩ := h
  unfold createUser
  rw [bind_ok (UsersService.findByEmail_run ..), throwIf_bind_false (by simp [hemail])]
  by_cases htexts : (newUserColumns (Session.newUser env o dto.toRegisterDto)).any
    TextColumn.refuses = true
  · exact writeTexts_refused htexts
  · obtain ⟨hid, hrole⟩ := hcrash.resolve_left htexts
    rw [writeTexts_taken (Bool.not_eq_true _ ▸ htexts)]
    exact bind_error (mapError_error (createUserInTransaction_lacks ⟨hid, hemail⟩ hrole))

/-- Otherwise the account is created, or the call throws an `HttpException`; no role changes. -/
theorem createUser_answers (h : ¬ CreationCrashes env o dto.toRegisterDto (dto.roleIds.getD []) w.db) :
    (∃ user db, createUser env o dto w = (.ok user, { w with db := db }) ∧ db.roles = w.db.roles) ∨
      ∃ e, createUser env o dto w = (.error (.http e), w) := by
  unfold createUser
  rw [bind_ok (UsersService.findByEmail_run ..)]
  cases hemail : w.db.findByEmail env (normalizeEmail env dto.email) with
  | some user => exact .inr ⟨_, throwIf_bind_true rfl⟩
  | none =>
      rw [throwIf_bind_false (by simp)]
      have htexts : (newUserColumns (Session.newUser env o dto.toRegisterDto)).any
        TextColumn.refuses = false :=
        Bool.eq_false_iff.mpr fun htexts => h ⟨hemail, .inl htexts⟩
      rw [writeTexts_taken htexts]
      by_cases hid : w.db.users.get o.id = none
      · have hrole : ¬ LacksRole w.db (dto.roleIds.getD []) :=
          fun hlacks => h ⟨hemail, .inr ⟨hid, hlacks⟩⟩
        have hadmits : Admits env w.db (Session.newUser env o dto.toRegisterDto) := ⟨hid, hemail⟩
        rcases createUserInTransaction_answers hadmits hrole with ⟨db, hdone, husers, hroles⟩ |
          ⟨message, hrefused⟩
        · refine .inl ⟨Session.newUser env o dto.toRegisterDto, db, ?_, hroles⟩
          rw [bind_ok (mapError_ok hdone)]
          refine UsersService.findWithRolesOrFail_some ?_ rfl
          show db.users.get (.cast (Session.newUser env o dto.toRegisterDto).id.text) = _
          rw [husers, Uuid.cast_text]
          exact get_putUser w.db _
        · exact .inr ⟨_, bind_error (mapError_error hrefused)⟩
      · exact .inr ⟨_, bind_error
          (mapError_error (createUserInTransaction_violates _ fun hadmits => hid hadmits.1))⟩

end CreateUser

section Register

variable {dto : RegisterDto} {metadata : SessionMetadata} {s : Accounts}

theorem register_crashes (oSession : Choice) (metadata : SessionMetadata)
    (h : CreationCrashes env o dto [] s.world.db) :
    register env o oSession dto metadata s = (.error .unexpected, s) := by
  obtain ⟨hemail, hcrash⟩ := h
  unfold register
  rw [bind_ok (onWorld_eq (UsersService.findByEmail_run ..)), throwIf_bind_false (by simp [hemail])]
  by_cases htexts : (newUserColumns (Session.newUser env o dto)).any TextColumn.refuses = true
  · exact writeTexts_refused htexts
  · obtain ⟨hid, hrole⟩ := hcrash.resolve_left htexts
    rw [writeTexts_taken (Bool.not_eq_true _ ▸ htexts), UsersService.createWithDefaultRole_none]
    have hadmits : Admits env s.world.db (Session.newUser env o dto) := ⟨hid, hemail⟩
    exact bind_error (onWorld_eq (mapError_error (createUserInTransaction_lacks hadmits hrole)))

/-- Neither that nor an admitted row: the call throws an `HttpException`. -/
theorem register_conflict (oSession : Choice) (metadata : SessionMetadata)
    (h : ¬ CreationCrashes env o dto [] s.world.db)
    (hadmits : ¬ Admits env s.world.db (Session.newUser env o dto)) :
    ∃ e, register env o oSession dto metadata s = (.error (.http e), s) := by
  unfold register
  rw [bind_ok (onWorld_eq (UsersService.findByEmail_run ..))]
  cases hemail : s.world.db.findByEmail env (normalizeEmail env dto.email) with
  | some user => exact ⟨_, throwIf_bind_true rfl⟩
  | none =>
      have htexts : (newUserColumns (Session.newUser env o dto)).any TextColumn.refuses = false :=
        Bool.eq_false_iff.mpr fun htexts => h ⟨hemail, .inl htexts⟩
      rw [throwIf_bind_false (by simp), writeTexts_taken htexts, UsersService.createWithDefaultRole_none]
      have hviolates := createUserInTransaction_violates [] hadmits
      exact ⟨_, bind_error (onWorld_eq (mapError_error hviolates))⟩

/-- The account is created: what is left is its session. -/
theorem register_session (oSession : Choice) (metadata : SessionMetadata)
    (h : ¬ CreationCrashes env o dto [] s.world.db)
    (hadmits : Admits env s.world.db (Session.newUser env o dto)) :
    ∃ db, register env o oSession dto metadata s =
        AuthService.createSession env oSession none (Session.newUser env o dto) metadata
          { s with world := { s.world with db := db } } ∧
        (db.users.get o.id).isSome ∧ db.roles = s.world.db.roles := by
  have htexts : (newUserColumns (Session.newUser env o dto)).any TextColumn.refuses = false :=
    Bool.eq_false_iff.mpr fun htexts => h ⟨hadmits.2, .inl htexts⟩
  have hrole : s.world.db.roles.find? (fun r => r.name = "user") ≠ none :=
    fun hmissing => h ⟨hadmits.2, .inr ⟨hadmits.1, rfl, hmissing⟩⟩
  obtain ⟨db, hdone, husers, hroles⟩ := createUserInTransaction_default hadmits hrole
  refine ⟨db, ?_, ?_, hroles⟩
  · have hemail : s.world.db.findByEmail env (normalizeEmail env dto.email) = none := hadmits.2
    unfold register
    rw [bind_ok (onWorld_eq (UsersService.findByEmail_run ..)), throwIf_bind_false (by simp [hemail]),
      writeTexts_taken htexts, UsersService.createWithDefaultRole_none,
        bind_ok (onWorld_eq (mapError_ok hdone))]
  · rw [husers]
    exact isSome_putUser s.world.db (Session.newUser env o dto)

end Register

/-! ## `updatePermission`

One text, the description; an absent one is written as `null`. -/

section UpdatePermission

variable {dto : UpdatePermissionDto} {permission : Permission}

/-- The row saved. -/
def updatedPermission (permission : Permission) (dto : UpdatePermissionDto) : Permission :=
  { permission with description := dto.description.getD none }

/-- The one text written. -/
def descriptionColumn (permission : Permission) (dto : UpdatePermissionDto) : TextColumn :=
  ⟨255, permission.description, dto.description.getD none⟩

theorem updatePermission_missing (h : w.db.permissions.get (.cast id) = none) :
    updatePermission id dto w = (.error (.http (.badRequest "Permission not found")), w) := by
  unfold updatePermission PermissionsService.findPermissionById
  rw [gets_bind, h, orThrow_bind_none]

theorem updatePermission_unstorable (h : w.db.permissions.get (.cast id) = some permission)
    (htexts : (descriptionColumn permission dto).refuses = true) :
    updatePermission id dto w = (.error .unexpected, w) := by
  unfold updatePermission PermissionsService.findPermissionById
  rw [gets_bind, h, orThrow_bind_some]
  exact writeTexts_refused (by simpa [descriptionColumn] using htexts)

theorem updatePermission_done (h : w.db.permissions.get (.cast id) = some permission)
    (htexts : (descriptionColumn permission dto).refuses = false) :
    updatePermission id dto w = (.ok (updatedPermission permission dto),
      { w with db := w.db.putPermission (updatedPermission permission dto) }) := by
  unfold updatePermission PermissionsService.findPermissionById
  rw [gets_bind, h, orThrow_bind_some]
  exact writeTexts_taken (by simpa [descriptionColumn] using htexts)

end UpdatePermission

end Postgres

end NestApp
