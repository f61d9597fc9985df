import NestApp.Auth.Enumeration
import NestApp.Rbac.Postgres

/-!
# `Rbac.Bodies` — what the endpoints do with a body that the validation accepts

The DTOs bound the texts and let `null` through wherever `@IsOptional` stands. `Body` is such a body,
accepted by class-validator, which is a parameter (`ClassValidator`): nothing is assumed about how it
measures a text, and it does not measure as PostgreSQL does. A body is *handled* if the call returns or
throws an `HttpException`, and every version of a role it stores has a name (`Handled`).

`bodies_handled`: whatever the validator, a body is handled iff it does not break the service
(`Breaks`). It breaks where a `null` for a name or a status of a user, or for the name of a role, is
dereferenced or violates `NOT NULL`; where a column refuses a text, for U+0000 or for its length in
characters; where a name of white space only becomes the empty name of a role; where the default role
of a new account is missing; and where the row of a new session is refused.
-/

namespace NestApp

open Sql Prog Postgres

/-! ## Accepted bodies

The decorators of the DTOs as predicates. `@IsOptional` skips the others for `null`, so `null` is
accepted wherever it stands. The measure of a text is that of the library. -/

/-- class-validator, as far as the DTOs use it. Its `length` is its own measure: it leaves out the
    presentation selectors of an emoji, which a column counts as characters. -/
structure ClassValidator where
  length  : String → Nat
  isEmail : String → Bool
  isUuid4 : String → Bool

variable (lib : ClassValidator)

/-- `@IsOptional() @IsString() @MaxLength(max)`, for a field that may be absent or `null`. -/
def MaxLength (max : Nat) (field : Option (Option String)) : Prop :=
  ∀ text, field = some (some text) → lib.length text ≤ max

/-- `@IsOptional() @IsString() @MinLength(min)` -/
def MinLength (min : Nat) (field : Option (Option String)) : Prop :=
  ∀ text, field = some (some text) → min ≤ lib.length text

def UpdateUserDto.Accepted (dto : UpdateUserDto) : Prop :=
  MaxLength lib 100 dto.firstName ∧ MaxLength lib 100 dto.lastName

def UpdateRoleDto.Accepted (dto : UpdateRoleDto) : Prop :=
  MinLength lib 1 dto.name ∧ MaxLength lib 50 dto.name ∧ MaxLength lib 255 dto.description

def CreateRoleDto.Accepted (dto : CreateRoleDto) : Prop :=
  1 ≤ lib.length dto.name ∧ lib.length dto.name ≤ 50 ∧ MaxLength lib 255 (some dto.description)

/-- `UserProfileDto` -/
def RegisterDto.Accepted (dto : RegisterDto) : Prop :=
  lib.isEmail dto.email = true ∧ lib.length dto.email ≤ 255 ∧
    8 ≤ lib.length dto.password ∧ lib.length dto.password ≤ 100 ∧
    MaxLength lib 100 (some dto.firstName) ∧ MaxLength lib 100 (some dto.lastName)

def CreateUserDto.Accepted (dto : CreateUserDto) : Prop :=
  dto.toRegisterDto.Accepted lib ∧ ∀ ids ∈ dto.roleIds, ids.length ≤ 50 ∧
    ∀ id ∈ ids, lib.isUuid4 id = true

/-- A validated body, with the parameters of its route. -/
inductive Body where
  | updateUser (id : String) (dto : { dto : UpdateUserDto // dto.Accepted lib })
      (actingUserId : Option String)
  | updateRole (id : String) (dto : { dto : UpdateRoleDto // dto.Accepted lib })
  | createRole (dto : { dto : CreateRoleDto // dto.Accepted lib })
  | createUser (dto : { dto : CreateUserDto // dto.Accepted lib })
  | register (dto : { dto : RegisterDto // dto.Accepted lib }) (metadata : SessionMetadata)

namespace Body

variable {lib : ClassValidator}

/-- The result is not looked at. -/
def discard {α : Type} (m : AccountService α) : AccountService Unit := do
  let _ ← m
  return ()

/-- The service call of the endpoint. -/
def call (env : Env) (o oSession : Choice) : Body lib → AccountService Unit
  | .updateUser id dto actingUserId => discard (onWorld (Postgres.updateUser o id dto actingUserId))
  | .updateRole id dto              => discard (onWorld (Postgres.updateRole id dto))
  | .createRole dto                 => discard (onWorld (Postgres.createRole o dto))
  | .createUser dto                 => discard (onWorld (Postgres.createUser env o dto))
  | .register dto metadata          => discard (Postgres.register env o oSession dto metadata)

/-- The call returns or throws an `HttpException`, and every version of a role it stores has a name. -/
structure Handled (env : Env) (o oSession : Choice) (body : Body lib) (s : Accounts) : Prop where
  answered : ∀ failure, (body.call env o oSession s).1 = .error failure → ∃ e, failure = .http e
  named    : ∀ role ∈ (body.call env o oSession s).2.world.db.roles.rows, role ∉ s.world.db.roles.rows →
    role.name ≠ ""

/-! ## What breaks the service

For each endpoint the bodies, and the states, in which the call ends in something else than an answer.
The conditions follow the statements of the service: what an earlier check answers cannot break
anything. -/

/-- The text sent for the field, which differs from the one in place, is refused by a `varchar(max)`: it
    has U+0000, or more than `max` characters. -/
def Unstorable (max : Nat) (old : Option String) (field : Option (Option String)) : Prop :=
  ∃ value text, field = some value ∧ trimOrNull value = some text ∧ old ≠ some text ∧
    (hasNul text = true ∨ max < text.length)

/-- A body for which the call ends with an unexpected error, or stores a role without a name. -/
def Breaks (env : Env) (o oSession : Choice) (s : Accounts) : Body lib → Prop
  | .updateUser id dto acting =>
      ¬ (some id = acting ∧ dto.1.status.isSome) ∧
        ∃ row, s.world.db.users.get (.cast id) = some row ∧ row.deletedAt = none ∧
          (dto.1.firstName = some none ∨ dto.1.lastName = some none ∨ dto.1.status = some none ∨
            Unstorable 100 row.firstName dto.1.firstName ∨ Unstorable 100 row.lastName dto.1.lastName)
  | .updateRole id dto =>
      ∃ role, s.world.db.roles.get (.cast id) = some role ∧ role.isSystem = false ∧
        (dto.1.name = some none ∨
          ∃ name, nameAfter role dto.1.name = some name ∧
            (name ≠ role.name ∧ hasNul name = true ∨
              Renames s.world.db role name ∧
                (name ≠ role.name ∧ 50 < name.length ∨
                  Unstorable 255 role.description dto.1.description ∨
                  name = "" ∧ updatedRole role name dto ≠ role ∧
                    s.world.db.nameFree (updatedRole role name dto) = true)))
  | .createRole dto =>
      hasNul (trim dto.1.name) = true ∨
        NameAdmitted s.world.db (trim dto.1.name) ∧
          (50 < (trim dto.1.name).length ∨ Unstorable 255 none (some dto.1.description) ∨
            trim dto.1.name = "" ∧ s.world.db.roles.get o.id = none)
  | .createUser dto =>
      s.world.db.findByEmail env (normalizeEmail env dto.1.email) = none ∧
        (Unstorable 100 none (some dto.1.firstName) ∨ Unstorable 100 none (some dto.1.lastName) ∨
          s.world.db.users.get o.id = none ∧ LacksRole s.world.db (dto.1.roleIds.getD []))
  | .register dto metadata =>
      s.world.db.findByEmail env (normalizeEmail env dto.1.email) = none ∧
        (Unstorable 100 none (some dto.1.firstName) ∨ Unstorable 100 none (some dto.1.lastName) ∨
          s.world.db.users.get o.id = none ∧
            (LacksRole s.world.db [] ∨
              -- the row of the session is refused: the generated token, or the id of the row, is in
              -- use, or the
              -- address of the client does not fit its column
              s.refreshTokens.Taken RefreshToken.tokenHash oSession.id (env.hashToken oSession.token) ∨
              fitsIpAddress metadata.ipAddress = false))

variable {env : Env} {o oSession : Choice} {s s' : Accounts} {w' : World} {body : Body lib}

/-! ## Columns

Whether a column refuses a field, said of the field as it was sent. -/

/-- What a column refuses of a text that is sent. -/
theorem refuses_sent (max : Nat) (old value : Option String) :
    (TextColumn.mk max old (trimOrNull value)).refuses = true ↔ Unstorable max old (some value) := by
  unfold TextColumn.refuses Unstorable
  rw [Bool.and_eq_true, decide_eq_true_eq, Option.any_eq_true]
  constructor
  · rintro ⟨hne, text, htext, hrefused⟩
    rw [Bool.or_eq_true, decide_eq_true_eq] at hrefused
    exact ⟨value, text, rfl, htext, fun he => hne (htext.trans he.symm), hrefused⟩
  · rintro ⟨_, text, hvalue, htext, hne, hrefused⟩
    cases hvalue
    refine ⟨fun he => hne (he.symm.trans htext), text, htext, ?_⟩
    rw [Bool.or_eq_true, decide_eq_true_eq]
    exact hrefused

theorem not_unstorable_none {max : Nat} {old : Option String} : ¬ Unstorable max old none := by
  rintro ⟨value, text, hvalue, -⟩
  cases hvalue

/-! ## Results

From the equation for the result of a call to whether it was handled. -/

theorem discard_ok {α : Type} {m : AccountService α} {a : α} (h : m s = (.ok a, s')) :
    discard m s = (.ok (), s') :=
  bind_ok h

theorem discard_error {α : Type} {m : AccountService α} {e : Failure} (h : m s = (.error e, s')) :
    discard m s = (.error e, s') := bind_error h

/-- An `HttpException` with nothing written. -/
theorem handled_of_http {e : HttpException} (h : body.call env o oSession s = (.error (.http e), s)) :
    body.Handled env o oSession s where
  answered failure hfailure := by
    rw [h] at hfailure
    cases hfailure
    exact ⟨e, rfl⟩
  named role hrole hnew := by
    rw [h] at hrole
    exact absurd hrole hnew

/-- A return, where the roles are as before. -/
theorem handled_of_ok (h : body.call env o oSession s = (.ok (), s'))
    (hroles : s'.world.db.roles = s.world.db.roles) :
    body.Handled env o oSession s where
  answered failure hfailure := by
    rw [h] at hfailure
    cases hfailure
  named role hrole hnew := by
    rw [h] at hrole
    have hold : role ∈ s.world.db.roles.rows := by
      rw [← hroles]
      exact hrole
    exact absurd hold hnew

/-- A return, with one role written. -/
theorem handled_of_putRole {row : Role} (h : body.call env o oSession s =
      (.ok (), { s with world := { s.world with db := s.world.db.putRole row } })) :
    body.Handled env o oSession s ↔ ¬ (row.name = "" ∧ row ∉ s.world.db.roles.rows) := by
  constructor
  · rintro hhandled ⟨hblank, hnew⟩
    refine hhandled.named row ?_ hnew hblank
    rw [h]
    exact Table.mem_put.mpr (.inl rfl)
  · intro hnot
    refine ⟨fun failure hfailure => ?_, fun role hrole hnew hblank => ?_⟩
    · rw [h] at hfailure
      cases hfailure
    · rw [h] at hrole
      rcases Table.mem_put.mp hrole with rfl | ⟨hold, -⟩
      · exact hnot ⟨hblank, hnew⟩
      · exact hnew hold

theorem not_handled {e : Failure} (h : body.call env o oSession s = (.error e, s'))
    (he : ∀ exception, e ≠ .http exception) :
    ¬ body.Handled env o oSession s := by
  intro hhandled
  obtain ⟨exception, hhttp⟩ := hhandled.answered e (congrArg Prod.fst h)
  exact he exception hhttp

theorem not_handled_of_unexpected (h : body.call env o oSession s = (.error .unexpected, s')) :
    ¬ body.Handled env o oSession s := not_handled h (by simp)

/-! ## `PATCH /users/:id`

Three fields, each of which may be `null`; the status has no method that is called, so it fails later,
at the column. -/

section UpdateUser

variable {dto : UpdateUserDto} {row user : User} {field : Option (Option String)}
  {old new : Option String}

theorem assignName_eq_none : UpdateUserDto.assignName field old = none ↔ field = some none := by
  cases field with
  | none => simp [UpdateUserDto.assignName]
  | some value => cases value <;> simp [UpdateUserDto.assignName]

theorem assignStatus_eq_none {field : Option (Option UserStatus)} {old : UserStatus} :
    UpdateUserDto.assignStatus field old = none ↔ field = some none := by
  cases field with
  | none => simp [UpdateUserDto.assignStatus]
  | some value => cases value <;> simp [UpdateUserDto.assignStatus]

/-- The entity after the assignments, field by field. -/
theorem apply_eq_some : dto.apply row = some user ↔ ∃ firstName lastName status,
    UpdateUserDto.assignName dto.firstName row.firstName = some firstName ∧
      UpdateUserDto.assignName dto.lastName row.lastName = some lastName ∧
      UpdateUserDto.assignStatus dto.status row.status = some status ∧
      { row with firstName := firstName, lastName := lastName, status := status } = user := by
  simp only [UpdateUserDto.apply, Option.bind_eq_bind, Option.bind_eq_some_iff, Option.pure_def,
    Option.some.injEq]
  constructor
  · rintro ⟨firstName, hfirst, lastName, hlast, status, hstatus, hrow⟩
    exact ⟨firstName, lastName, status, hfirst, hlast, hstatus, hrow⟩
  · rintro ⟨firstName, lastName, status, hfirst, hlast, hstatus, hrow⟩
    exact ⟨firstName, hfirst, lastName, hlast, status, hstatus, hrow⟩

/-- The assignments fail on an explicit `null`. -/
theorem apply_eq_none : dto.apply row = none ↔
    dto.firstName = some none ∨ dto.lastName = some none ∨ dto.status = some none := by
  constructor
  · intro h
    by_contra hno
    simp only [not_or] at hno
    obtain ⟨hfirst, hlast, hstatus⟩ := hno
    obtain ⟨firstName, hfirst'⟩ := Option.ne_none_iff_exists'.mp (mt assignName_eq_none.mp hfirst)
    obtain ⟨lastName, hlast'⟩ := Option.ne_none_iff_exists'.mp (mt assignName_eq_none.mp hlast)
    obtain ⟨status, hstatus'⟩ := Option.ne_none_iff_exists'.mp (mt assignStatus_eq_none.mp hstatus)
    cases h.symm.trans (apply_eq_some.mpr ⟨firstName, lastName, status, hfirst', hlast', hstatus', rfl⟩)
  · intro hnull
    rw [Option.eq_none_iff_forall_ne_some]
    intro user huser
    obtain ⟨firstName, lastName, status, hfirst, hlast, hstatus, -⟩ := apply_eq_some.mp huser
    rcases hnull with h | h | h
    · rw [assignName_eq_none.mpr h] at hfirst
      cases hfirst
    · rw [assignName_eq_none.mpr h] at hlast
      cases hlast
    · rw [assignStatus_eq_none.mpr h] at hstatus
      cases hstatus

/-- The column refuses the name to be written iff the given one cannot be stored there. -/
theorem refuses_assignName (max : Nat) (h : UpdateUserDto.assignName field old = some new) :
    (TextColumn.mk max old new).refuses = true ↔ Unstorable max old field := by
  cases field with
  | none =>
      obtain rfl := UpdateUserDto.assignName_none h
      exact iff_of_false (by simp [TextColumn.refuses]) not_unstorable_none
  | some value =>
      cases value with
      | none => cases h
      | some text =>
          cases h
          exact refuses_sent max old (some text)

theorem refuses_nameColumns (h : dto.apply row = some user) :
    (nameColumns row user).any TextColumn.refuses = true ↔
      Unstorable 100 row.firstName dto.firstName ∨ Unstorable 100 row.lastName dto.lastName := by
  obtain ⟨firstName, lastName, status, hfirst, hlast, -, rfl⟩ := apply_eq_some.mp h
  have hcolumns := or_congr (refuses_assignName 100 hfirst) (refuses_assignName 100 hlast)
  simpa [nameColumns] using hcolumns

/-- `PATCH /users/:id` is handled iff it does not break. -/
theorem handled_updateUser (id : String) (dto : { dto : UpdateUserDto // dto.Accepted lib })
    (acting : Option String) :
    (updateUser id dto acting).Handled env o oSession s ↔ ¬
    (updateUser id dto acting).Breaks env o oSession s := by
  by_cases hrefused : (some id = acting ∧ dto.1.status.isSome) ∨
      ∀ user, s.world.db.users.get (.cast id) = some user → user.deletedAt.isSome
  · obtain ⟨e, he⟩ := updateUser_refused (o := o) hrefused
    refine iff_of_true (handled_of_http (discard_error (onWorld_eq he))) ?_
    rintro ⟨hself, row, hrow, hlive, -⟩
    have hgone := hrefused.resolve_left hself row hrow
    rw [hlive] at hgone
    cases hgone
  · simp only [not_or, not_forall] at hrefused
    obtain ⟨hself, row, hrow, hdeleted⟩ := hrefused
    have hlive : row.deletedAt = none := by simpa using hdeleted
    -- the row is unique, so the condition is about it
    have hbreaks : (updateUser id dto acting).Breaks env o oSession s ↔
        dto.1.firstName = some none ∨ dto.1.lastName = some none ∨ dto.1.status = some none ∨
          Unstorable 100 row.firstName dto.1.firstName ∨ Unstorable 100 row.lastName dto.1.lastName := by
      constructor
      · rintro ⟨-, row', hrow', -, h⟩
        rw [hrow] at hrow'
        cases hrow'
        exact h
      · exact fun h => ⟨hself, row, hrow, hlive, h⟩
    rw [hbreaks]
    cases happly : dto.1.apply row with
    | none =>
        have hrun := discard_error (onWorld_eq (updateUser_crashes (o := o) hself hrow hlive happly))
        have hnull := apply_eq_none.mp happly
        exact iff_of_false (not_handled_of_unexpected hrun) fun h => h (by tauto)
    | some user =>
        have hnull := mt apply_eq_none.mpr (by rw [happly]; simp)
        cases htexts : (nameColumns row user).any TextColumn.refuses with
        | true =>
            have hrun := discard_error
              (onWorld_eq (updateUser_unstorable (o := o) hself hrow hlive happly htexts))
            have hunstorable := (refuses_nameColumns happly).mp htexts
            exact iff_of_false (not_handled_of_unexpected hrun) fun h => h (by tauto)
        | false =>
            have hrun := discard_ok
              (onWorld_eq (updateUser_done (o := o) hself hrow hlive happly htexts))
            have hstorable := mt (refuses_nameColumns happly).mpr
              (by rw [htexts]; exact Bool.false_ne_true)
            exact iff_of_true (handled_of_ok hrun rfl) (by tauto)

end UpdateUser

/-! ## `PATCH /roles/:id` and `POST /roles`

The name is trimmed after the validation, so it may be empty by then, and nothing looks at it again. -/

section Roles

variable {role : Role} {name : String}

theorem nameAfter_eq_none {field : Option (Option String)} :
    nameAfter role field = none ↔ field = some none := by
  cases field with
  | none => simp [nameAfter]
  | some value => cases value <;> simp [nameAfter]

/-- Once the name is assigned, its length and the description can be refused. -/
theorem refuses_updatedRole {dto : UpdateRoleDto} {db : Rbac} (hrenames : Renames db role name) :
    (roleColumns (some role.name) role.description (updatedRole role name dto)).any
      TextColumn.refuses = true ↔
      name ≠ role.name ∧ 50 < name.length ∨ Unstorable 255 role.description dto.description := by
  have hnamed : (TextColumn.mk 50 (some role.name) (some name)).refuses = true ↔
      name ≠ role.name ∧ 50 < name.length := by
    unfold TextColumn.refuses
    by_cases heq : name = role.name
    · simp [heq]
    · have hnul := (hrenames.resolve_left heq).1
      simp [hnul, heq]
  have hdescribed : (TextColumn.mk 255 role.description
    (updatedRole role name dto).description).refuses = true ↔
      Unstorable 255 role.description dto.description := by
    unfold updatedRole
    cases hfield : dto.description with
    | none =>
        exact iff_of_false (by simp [TextColumn.refuses, RolesService.describe]) not_unstorable_none
    | some value => exact refuses_sent 255 role.description value
  have hcolumns := or_congr hnamed hdescribed
  simpa [roleColumns] using hcolumns

/-- `PATCH /roles/:id` is handled iff it does not break. -/
theorem handled_updateRole (id : String) (dto : { dto : UpdateRoleDto // dto.Accepted lib }) :
    (updateRole id dto).Handled env o oSession s ↔ ¬ (updateRole id dto).Breaks env o oSession s := by
  by_cases hrefused : ∀ role, s.world.db.roles.get (.cast id) = some role → role.isSystem = true
  · obtain ⟨e, he⟩ := updateRole_refused dto.1 hrefused
    refine iff_of_true (handled_of_http (discard_error (onWorld_eq he))) ?_
    rintro ⟨role, hrole, hsys, -⟩
    rw [hrefused role hrole] at hsys
    cases hsys
  · simp only [not_forall, Bool.not_eq_true] at hrefused
    obtain ⟨role, hrole, hsys⟩ := hrefused
    have hbreaks : (updateRole id dto).Breaks env o oSession s ↔
        dto.1.name = some none ∨ ∃ name, nameAfter role dto.1.name = some name ∧
          (name ≠ role.name ∧ hasNul name = true ∨ Renames s.world.db role name ∧
            (name ≠ role.name ∧ 50 < name.length ∨ Unstorable 255 role.description dto.1.description ∨
              name = "" ∧ updatedRole role name dto ≠ role ∧
                s.world.db.nameFree (updatedRole role name dto) = true)) := by
      constructor
      · rintro ⟨role', hrole', -, h⟩
        rw [hrole] at hrole'
        cases hrole'
        exact h
      · exact fun h => ⟨role, hrole, hsys, h⟩
    rw [hbreaks]
    cases hname : nameAfter role dto.1.name with
    | none =>
        have hrun := discard_error (onWorld_eq (updateRole_rename hrole hsys (rename_null hname)))
        exact iff_of_false (not_handled_of_unexpected hrun) fun h =>
          h (.inl (nameAfter_eq_none.mp hname))
    | some name =>
        have hnull : dto.1.name ≠ some none := mt nameAfter_eq_none.mpr (by rw [hname]; simp)
        have hone : ∀ {P : String → Prop}, (∃ n, some name = some n ∧ P n) ↔ P name := by simp
        rw [or_iff_right hnull, hone]
        by_cases hrenames : Renames s.world.db role name
        · have hnul : ¬ (name ≠ role.name ∧ hasNul name = true) := by
            rintro ⟨hne, hnul⟩
            rw [(hrenames.resolve_left hne).1] at hnul
            cases hnul
          rw [or_iff_right hnul, and_iff_right hrenames, ← or_assoc, ← refuses_updatedRole hrenames]
          cases htexts : (roleColumns (some role.name) role.description (updatedRole role name dto)).any
            TextColumn.refuses with
          | true =>
              have hrun := discard_error
                (onWorld_eq (updateRole_unstorable hrole hsys hname hrenames htexts))
              exact iff_of_false (not_handled_of_unexpected hrun) fun h => h (.inl rfl)
          | false =>
              rw [or_iff_right Bool.false_ne_true]
              cases hfree : s.world.db.nameFree (updatedRole role name dto) with
              | false =>
                  obtain ⟨e, he⟩ := updateRole_conflict hrole hsys hname hrenames htexts hfree
                  refine iff_of_true (handled_of_http (discard_error (onWorld_eq he))) ?_
                  rintro ⟨-, -, h⟩
                  cases h
              | true =>
                  have hrun : (updateRole id dto).call env o oSession s = (.ok (),
                      { s with world := { s.world with
                        db := s.world.db.putRole (updatedRole role name dto) } }) :=
                    discard_ok (onWorld_eq (updateRole_done hrole hsys hname hrenames htexts hfree))
                  -- the version in place has the same id
                  have hold : updatedRole role name dto ∉ s.world.db.roles.rows ↔
                    updatedRole role name dto ≠ role := by
                    refine not_congr ⟨fun hmem => ?_, fun he => ?_⟩
                    · exact Table.eq_of_key_eq hmem (Table.get_mem hrole) updatedRole_id
                    · rw [he]
                      exact Table.get_mem hrole
                  rw [handled_of_putRole hrun, updatedRole_name, hold]
                  simp
        · simp only [Renames, not_or, not_and] at hrenames
          obtain ⟨hne, htaken⟩ := hrenames
          cases hnul : hasNul name with
          | true =>
              have hrun := discard_error
                (onWorld_eq (updateRole_rename hrole hsys (rename_nul hname hne hnul)))
              exact iff_of_false (not_handled_of_unexpected hrun) fun h => h (.inl ⟨hne, rfl⟩)
          | false =>
              have hrun := discard_error
                (onWorld_eq (updateRole_rename hrole hsys (rename_taken hname hne hnul (htaken hnul))))
              refine iff_of_true (handled_of_http hrun) ?_
              rintro (⟨-, h⟩ | ⟨hrenames, -⟩)
              · cases h
              · exact htaken hnul (hrenames.resolve_left hne).2

theorem refuses_newRole {dto : CreateRoleDto} (hnul : hasNul (trim dto.name) = false) :
    (roleColumns none none (newRole o dto)).any TextColumn.refuses = true ↔
      50 < (trim dto.name).length ∨ Unstorable 255 none (some dto.description) := by
  have hnamed : (TextColumn.mk 50 none (some (trim dto.name))).refuses = true ↔
    50 < (trim dto.name).length := by
    simp [TextColumn.refuses, hnul]
  have hcolumns := or_congr hnamed (refuses_sent 255 none dto.description)
  simpa [roleColumns, newRole] using hcolumns

/-- `POST /roles` is handled iff it does not break. -/
theorem handled_createRole (dto : { dto : CreateRoleDto // dto.Accepted lib }) :
    (createRole dto).Handled env o oSession s ↔ ¬ (createRole dto).Breaks env o oSession s := by
  show _ ↔ ¬ (_ ∨ NameAdmitted s.world.db (trim dto.1.name) ∧ _)
  cases hnul : hasNul (trim dto.1.name) with
  | true =>
      have hrun := discard_error (onWorld_eq (createRole_nul (o := o) (w := s.world) hnul))
      exact iff_of_false (not_handled_of_unexpected hrun) fun h => h (.inl rfl)
  | false =>
      rw [or_iff_right Bool.false_ne_true]
      by_cases htaken : s.world.db.roles.find? (fun r => r.name = trim dto.1.name) = none
      · have hadmitted : NameAdmitted s.world.db (trim dto.1.name) := ⟨hnul, htaken⟩
        rw [and_iff_right hadmitted, ← or_assoc, ← refuses_newRole (o := o) hnul]
        cases htexts : (roleColumns none none (newRole o dto.1)).any TextColumn.refuses with
        | true =>
            have hrun := discard_error (onWorld_eq (createRole_unstorable hadmitted htexts))
            exact iff_of_false (not_handled_of_unexpected hrun) fun h => h (.inl rfl)
        | false =>
            rw [or_iff_right Bool.false_ne_true]
            by_cases hid : s.world.db.roles.get o.id = none
            · have hrun : (createRole dto).call env o oSession s = (.ok (),
                  { s with world := { s.world with db := s.world.db.putRole (newRole o dto) } }) :=
                discard_ok (onWorld_eq (createRole_done hadmitted htexts hid))
              have hnew : newRole o dto ∉ s.world.db.roles.rows :=
                fun hmem => Table.get_eq_none.mp hid _ hmem rfl
              rw [handled_of_putRole hrun, and_iff_left hnew, and_iff_left hid]
              rfl
            · obtain ⟨e, he⟩ := createRole_conflict hadmitted htexts hid
              exact iff_of_true (handled_of_http (discard_error (onWorld_eq he))) fun h => hid h.2
      · have hrun := discard_error (onWorld_eq (createRole_taken (o := o) hnul htaken))
        exact iff_of_true (handled_of_http hrun) fun h => htaken h.1.2

end Roles

/-! ## `POST /users` and `POST /auth/register`

The two share the transaction; a registration also needs a row for its session. -/

section Users

theorem refuses_newUser (dto : RegisterDto) :
    (newUserColumns (Session.newUser env o dto)).any TextColumn.refuses = true ↔
      Unstorable 100 none (some dto.firstName) ∨ Unstorable 100 none (some dto.lastName) := by
  have hcolumns := or_congr (refuses_sent 100 none dto.firstName) (refuses_sent 100 none dto.lastName)
  simpa [newUserColumns, Session.newUser] using hcolumns

/-- When the creation of an account crashes: the address is free, and a name does not fit or the role is
    missing. -/
theorem creationCrashes_iff (dto : RegisterDto) (roleIds : List String) (db : Rbac) :
    CreationCrashes env o dto roleIds db ↔ db.findByEmail env (normalizeEmail env dto.email) = none ∧
      (Unstorable 100 none (some dto.firstName) ∨ Unstorable 100 none (some dto.lastName) ∨
        db.users.get o.id = none ∧ LacksRole db roleIds) := by
  unfold CreationCrashes
  rw [refuses_newUser, or_assoc]

/-- `POST /users` is handled iff it does not break. -/
theorem handled_createUser (dto : { dto : CreateUserDto // dto.Accepted lib }) :
    (createUser dto).Handled env o oSession s ↔ ¬ (createUser dto).Breaks env o oSession s := by
  have hbreaks : (createUser dto).Breaks env o oSession s ↔
      CreationCrashes env o dto.1.toRegisterDto (dto.1.roleIds.getD []) s.world.db :=
        (creationCrashes_iff _ _ _).symm
  rw [hbreaks]
  by_cases hcrash : CreationCrashes env o dto.1.toRegisterDto (dto.1.roleIds.getD []) s.world.db
  · have hrun := discard_error (onWorld_eq (createUser_crashes hcrash))
    exact iff_of_false (not_handled_of_unexpected hrun) fun h => h hcrash
  · refine iff_of_true ?_ hcrash
    obtain ⟨user, db, hdone, hroles⟩ | ⟨e, he⟩ := createUser_answers hcrash
    · exact handled_of_ok (discard_ok (onWorld_eq hdone)) hroles
    · exact handled_of_http (discard_error (onWorld_eq he))

/-- `POST /auth/register` is handled iff it does not break. -/
theorem handled_register (dto : { dto : RegisterDto // dto.Accepted lib }) (metadata : SessionMetadata) :
    (register dto metadata).Handled env o oSession s ↔ ¬
    (register dto metadata).Breaks env o oSession s := by
  have hbreaks : (register dto metadata).Breaks env o oSession s ↔
    CreationCrashes env o dto [] s.world.db ∨
      Admits env s.world.db (Session.newUser env o dto) ∧
        (s.refreshTokens.Taken RefreshToken.tokenHash oSession.id (env.hashToken oSession.token) ∨
          fitsIpAddress metadata.ipAddress = false) := by
    rw [creationCrashes_iff]
    show _ ∧ _ ↔ _ ∨ (_ ∧ s.world.db.findByEmail env (normalizeEmail env dto.1.email) = none) ∧ _
    tauto
  rw [hbreaks]
  by_cases hcrash : CreationCrashes env o dto [] s.world.db
  · have hrun := discard_error (register_crashes oSession metadata hcrash)
    exact iff_of_false (not_handled_of_unexpected hrun) fun h => h (.inl hcrash)
  · rw [or_iff_right hcrash]
    by_cases hadmits : Admits env s.world.db (Session.newUser env o dto)
    · obtain ⟨db, hrun, hrow, hroles⟩ :=
        register_session oSession metadata hcrash hadmits
      rw [and_iff_right hadmits]
      have hnone := AuthService.insertRefreshToken_eq_none
        (s := { s with world := { s.world with db := db } })
        (Session.newToken env oSession (Session.newUser env o dto) metadata) hrow
      by_cases hlost : s.refreshTokens.Taken RefreshToken.tokenHash oSession.id
        (env.hashToken oSession.token) ∨
          fitsIpAddress metadata.ipAddress = false
      · -- the row of the session is refused
        refine iff_of_false ?_ fun h => h hlost
        have hinsert : insertRow none .insertRefreshToken
            (·.insertRefreshToken (Session.newToken env oSession (Session.newUser env o dto) metadata))
            { s with world := { s.world with db := db } } =
              (.error .uniqueViolation, { s with world := { s.world with db := db } }) := by
          rw [insertRow, statement_of_ne (by simp), gets_bind, hnone.mpr hlost, orThrow_bind_none]
        exact not_handled (discard_error (hrun.trans (bind_error hinsert))) (by simp)
      · refine iff_of_true ?_ hlost
        simp only [not_or, Bool.not_eq_false] at hlost
        let row := Session.newToken env oSession (Session.newUser env o dto) metadata
        let created : Accounts := { s with world := { s.world with db := db } }
        have hinsert : created.insertRefreshToken row = some { created with
          refreshTokens := created.refreshTokens.put row } := by
          rw [Accounts.insertRefreshToken, if_pos ⟨hlost.1, hrow, hlost.2⟩]
        have hsession : AuthService.createSession env oSession none
          (Session.newUser env o dto) metadata created =
            (.ok row, { created with refreshTokens := created.refreshTokens.put row }) :=
          bind_ok (insertRow_done (by simp) hinsert)
        exact handled_of_ok (discard_ok (hrun.trans hsession)) hroles
    · obtain ⟨e, he⟩ := register_conflict oSession metadata hcrash hadmits
      exact iff_of_true (handled_of_http (discard_error he)) fun h => hadmits h.1

end Users

/-! ## Exactly

The endpoints together, and three bodies that break. -/

/-- **A validated body is handled iff it does not break the service**, in every state of the database
    and whatever class-validator measures. -/
theorem bodies_handled (lib : ClassValidator) (env : Env) (o oSession : Choice)
    (body : Body lib) (s : Accounts) :
    body.Handled env o oSession s ↔ ¬ body.Breaks env o oSession s := by
  cases body with
  | updateUser id dto acting => exact handled_updateUser id dto acting
  | updateRole id dto => exact handled_updateRole id dto
  | createRole dto => exact handled_createRole dto
  | createUser dto => exact handled_createUser dto
  | register dto metadata => exact handled_register dto metadata

/-- class-validator's `length`: the presentation selectors U+FE0E and U+FE0F are not counted. -/
def presentationLength (text : String) : Nat :=
  (text.toList.filter fun c => c ≠ Char.ofNat 0xFE0E ∧ c ≠ Char.ofNat 0xFE0F).length

/-- A validator that counts as the library does, and passes everything else. -/
def toyValidator : ClassValidator where
  length    := presentationLength
  isEmail _ := true
  isUuid4 _ := true

/-- `PATCH /users/:id` with `{ "firstName": null }`. -/
def nullName : Body toyValidator :=
  .updateUser uuidA.text ⟨⟨some none, none, none⟩, by simp [UpdateUserDto.Accepted, MaxLength]⟩ none

/-- `POST /roles` with `{ "name": " " }`. -/
def blankRole : Body toyValidator := .createRole ⟨⟨" ", none⟩, by decide, by decide, by simp [MaxLength]⟩

/-- A red heart as one sees it: the character U+2764 and the presentation selector U+FE0F. -/
def heart : List Char := [Char.ofNat 0x2764, Char.ofNat 0xFE0F]

/-- Sixty red hearts: 60 for the validator, 120 characters for the column. -/
def hearts : String := String.ofList (List.replicate 60 heart).flatten

theorem mem_hearts {c : Char} (hc : c ∈ hearts.toList) : c ∈ heart := by
  rw [hearts, String.toList_ofList, List.mem_flatten] at hc
  obtain ⟨cs, hcs, hc⟩ := hc
  exact List.eq_of_mem_replicate hcs ▸ hc

theorem length_hearts : hearts.length = 120 := by
  rw [hearts, String.length_ofList, List.length_flatten, List.map_replicate, List.sum_replicate]
  rfl

theorem presentationLength_hearts : presentationLength hearts = 60 := by
  have hone : (heart.filter fun c => c ≠ Char.ofNat 0xFE0E ∧ c ≠ Char.ofNat 0xFE0F) =
    [Char.ofNat 0x2764] := by
    decide +kernel
  rw [presentationLength, hearts, String.toList_ofList, List.filter_flatten, List.map_replicate, hone,
    List.length_flatten, List.map_replicate, List.sum_replicate]
  rfl

theorem trimOrNull_hearts : trimOrNull (some hearts) = some hearts := by
  have htrim : trim hearts = hearts := by
    refine trim_of_no_blanks fun c hc => ?_
    have hboth : ∀ c ∈ heart, isTrimmed c = false := by simp [heart, isTrimmed]
    exact hboth c (mem_hearts hc)
  have hne : hearts ≠ "" := fun he => by
    have hlength := length_hearts
    rw [he] at hlength
    cases hlength
  unfold trimOrNull
  rw [Option.map_some, htrim]
  split
  · next heq => exact absurd (Option.some.inj heq) hne
  · rfl

theorem accepted_hearts : (UpdateUserDto.mk (some (some hearts)) none none).Accepted toyValidator := by
  constructor
  · intro text htext
    have he : hearts = text := Option.some.inj (Option.some.inj htext)
    show presentationLength text ≤ 100
    rw [← he, presentationLength_hearts]
    omega
  · simp [MaxLength]

/-- `PATCH /users/:id` with the hearts for a first name. -/
def longName : Body toyValidator :=
  .updateUser uuidA.text ⟨⟨some (some hearts), none, none⟩, accepted_hearts⟩ none

/-- `null.trim()` ends the first request with a `TypeError`; the second stores a role without a name;
    the third is accepted, as its first name has length 60 for the validator, and refused by the
    `varchar(100)`. -/
theorem bodies_break :
    ¬ nullName.Handled toyEnv (.at 0 uuidB "" uuidB) (.at 0 uuidC "t" uuidC) onlyAlice ∧
      ¬ blankRole.Handled toyEnv (.at 0 uuidB "" uuidB) (.at 0 uuidC "t" uuidC) onlyAlice ∧
      ¬ longName.Handled toyEnv (.at 0 uuidB "" uuidB) (.at 0 uuidC "t" uuidC) onlyAlice := by
  have halice : onlyAlice.world.db.users.get (.cast uuidA.text) = some alice := by
    rw [Uuid.cast_text]
    rfl
  refine ⟨?_, ?_, ?_⟩
  · exact mt (handled_updateUser _ _ _).mp (not_not.mpr ⟨by simp, alice, halice, rfl, .inl rfl⟩)
  · exact mt (handled_createRole _).mp (not_not.mpr (.inr ⟨by decide, .inr (.inr ⟨by decide, rfl⟩)⟩))
  · have hlong : Unstorable 100 alice.firstName (some (some hearts)) :=
      ⟨some hearts, hearts, rfl, trimOrNull_hearts, Option.some_ne_none hearts |>.symm,
        .inr (by rw [length_hearts]; omega)⟩
    exact mt (handled_updateUser _ _ _).mp
      (not_not.mpr ⟨by simp, alice, halice, rfl, .inr (.inr (.inr (.inl hlong)))⟩)

end Body

end NestApp
