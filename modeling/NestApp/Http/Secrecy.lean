import NestApp.Http.Mediation
import NestApp.Lib.Coupled

/-!
# `Http.Secrecy` — nothing an answer says depends on a password hash

Two deployments with other hashes, and with another way of hashing, are given the same requests, the
same generated values and the same schedule. As long as a password is right in one where it is right in
the other (`SameVerdicts`), every request is answered alike, and the mails queued are the same:
`hashes_stay_secret`. Beyond the verdicts of `verifyPassword` no answer tells anything about a hash.

`Alike` is the relation between the two deployments. Each service is coupled with itself for it, by the
rules of `Coupled`.

The relation is about the accounts; the roles, the permissions, the sessions and the links of the two
deployments are equal. So whatever is read of these is the same on both sides, and only where an
account is read the relation counts.
-/

namespace NestApp

open Sql Prog

/-- The same environment, with another way of hashing passwords. -/
def Env.withHashing (env : Env) (hashPassword : String → String → String)
    (verifyPassword : String → String → Bool) : Env :=
  { env with
    hashPassword   := hashPassword
    verifyPassword := verifyPassword }

/-- Two hashes that `ρ` relates have the same passwords, and the two hashes of a password are related.
    The hypothesis says nothing about what the hashes look like. -/
structure SameVerdicts (ρ : String → String → Prop) (env env' : Env) : Prop where
  verify : ∀ {hash hash'}, ρ hash hash' →
    ∀ password, env.verifyPassword hash password = env'.verifyPassword hash' password
  hash   : ∀ salt password, ρ (env.hashPassword salt password) (env'.hashPassword salt password)

namespace Http

/-! ## The relation

Two accounts are alike if they differ in their hashes at most, and these are related by `ρ`. The
relation is lifted to tables, databases and states. -/

section Relation

variable (ρ : String → String → Prop)

/-- The same account, with related hashes. -/
structure Alike (u u' : User) : Prop where
  rest : u' = { u with passwordHash := u'.passwordHash }
  hash : ρ u.passwordHash u'.passwordHash

/-- Two databases that differ in the hashes of their accounts only: the accounts are alike, row by row,
    and the other tables are the same. -/
structure AlikeDb (db db' : Rbac) : Prop where
  users           : Table.RowWise (Alike ρ) db.users db'.users
  roles           : db.roles = db'.roles
  permissions     : db.permissions = db'.permissions
  userRoles       : db.userRoles = db'.userRoles
  rolePermissions : db.rolePermissions = db'.rolePermissions

/-- The same cache over alike databases. -/
structure AlikeWorld (w w' : World) : Prop where
  db    : AlikeDb ρ w.db w'.db
  cache : w.cache = w'.cache
  asked : w.asked = w'.asked

/-- The same sessions, links and mails over alike databases. -/
structure AlikeAccounts (s s' : Accounts) : Prop where
  world         : AlikeWorld ρ s.world s'.world
  refreshTokens : s.refreshTokens = s'.refreshTokens
  resetTokens   : s.resetTokens = s'.resetTokens
  mailQueue     : s.mailQueue = s'.mailQueue

end Relation

variable {ρ : String → String → Prop} {u u' : User} {db db' : Rbac} {w w' : World}

theorem Alike.id (h : Alike ρ u u') : u'.id = u.id := by rw [h.rest]

theorem Alike.key (h : Alike ρ u u') : key u' = key u := h.id

theorem Alike.status (h : Alike ρ u u') : u'.status = u.status := by rw [h.rest]

theorem Alike.email (h : Alike ρ u u') : u'.email = u.email := by rw [h.rest]

theorem Alike.deletedAt (h : Alike ρ u u') : u'.deletedAt = u.deletedAt := by rw [h.rest]

/-- What is built from an account without its hash is the same. -/
theorem Alike.congr {α : Type} {f : User → α} (h : Alike ρ u u')
    (hf : ∀ hash, f { u with passwordHash := hash } = f u) :
    f u = f u' := (hf u'.passwordHash).symm.trans (congrArg f h.rest.symm)

section Option

variable {α β : Type} {Q : α → β → Prop} {o : Option α} {o' : Option β}

theorem rel_isSome (h : Option.Rel Q o o') : o.isSome = o'.isSome := by
  cases h <;> rfl

theorem rel_filter {p : α → Bool} {q : β → Bool} (h : Option.Rel Q o o')
    (hp : ∀ a b, Q a b → p a = q b) :
    Option.Rel Q (o.filter p) (o'.filter q) := by
  cases h with
  | none => exact .none
  | some h =>
      rw [Option.filter_some, Option.filter_some, hp _ _ h]
      split
      · exact .some h
      · exact .none

theorem rel_mono {Q' : α → β → Prop} (h : Option.Rel Q o o') (hQ : ∀ a b, Q a b → Q' a b) :
    Option.Rel Q' o o' := by
  cases h with
  | none => exact .none
  | some h => exact .some (hQ _ _ h)

theorem rel_of_eq {o o' : Option α} (h : o = o') : Option.Rel (· = ·) o o' := by
  subst h
  cases o with
  | none => exact .none
  | some a => exact .some rfl

end Option

/-! ## The tables

Every lookup finds alike accounts on both sides, or none; every insertion succeeds on both sides or on
neither. -/

section Tables

variable {userId roleId permissionId : Uuid}

theorem AlikeDb.get (h : AlikeDb ρ db db') (id : Uuid) :
    Option.Rel (Alike ρ) (db.users.get id) (db'.users.get id) :=
  rel_mono (h.users.get_rel id) fun _ _ hr => hr.2

/-- The account in use with an address is found on both sides, or on neither. -/
theorem AlikeDb.findByEmail (h : AlikeDb ρ db db') (env : Env) (email : String) :
    Option.Rel (Alike ρ) (db.findByEmail env email) (db'.findByEmail env email) := by
  refine rel_mono (h.users.find? fun u u' _ hu => ?_) fun _ _ hr => hr.2
  rw [hu.email, hu.deletedAt]

theorem AlikeDb.live (h : AlikeDb ρ db db') (id : Uuid) :
    Option.Rel (Alike ρ) ((db.users.get id).filter fun u => u.deletedAt.isNone)
      ((db'.users.get id).filter fun u => u.deletedAt.isNone) :=
  rel_filter (h.get id) fun _ _ hu => by rw [hu.deletedAt]

theorem AlikeDb.putUser (h : AlikeDb ρ db db') (hu : Alike ρ u u') :
    AlikeDb ρ (db.putUser u) (db'.putUser u') where
  users           := h.users.put hu.key hu
  roles           := h.roles
  permissions     := h.permissions
  userRoles       := h.userRoles
  rolePermissions := h.rolePermissions

theorem AlikeDb.putRole (h : AlikeDb ρ db db') (row : Role) :
    AlikeDb ρ (db.putRole row) (db'.putRole row) :=
  { h with roles := congrArg (·.put row) h.roles }

theorem AlikeDb.putPermission (h : AlikeDb ρ db db') (row : Permission) :
    AlikeDb ρ (db.putPermission row) (db'.putPermission row) :=
  { h with permissions := congrArg (·.put row) h.permissions }

theorem AlikeDb.deleteRole (h : AlikeDb ρ db db') :
    AlikeDb ρ (db.deleteRole roleId) (db'.deleteRole roleId) where
  users           := h.users
  roles           := congrArg (·.erase roleId) h.roles
  permissions     := h.permissions
  userRoles       := congrArg (·.filter fun r => r.roleId ≠ roleId) h.userRoles
  rolePermissions := congrArg (·.filter fun r => r.roleId ≠ roleId) h.rolePermissions

theorem AlikeDb.deletePermission (h : AlikeDb ρ db db') :
    AlikeDb ρ (db.deletePermission permissionId) (db'.deletePermission permissionId) where
  users           := h.users
  roles           := h.roles
  permissions     := congrArg (·.erase permissionId) h.permissions
  userRoles       := h.userRoles
  rolePermissions := congrArg (·.filter fun r => r.permissionId ≠ permissionId) h.rolePermissions

theorem AlikeDb.deleteUserRoles (h : AlikeDb ρ db db') :
    AlikeDb ρ (db.deleteUserRoles userId) (db'.deleteUserRoles userId) :=
  { h with userRoles := congrArg (·.filter fun r => r.userId ≠ userId) h.userRoles }

theorem AlikeDb.deleteRolePermissions (h : AlikeDb ρ db db') :
    AlikeDb ρ (db.deleteRolePermissions roleId) (db'.deleteRolePermissions roleId) :=
  { h with rolePermissions := congrArg (·.filter fun r => r.roleId ≠ roleId) h.rolePermissions }

/-- A write that a condition on the tables guards. -/
theorem rel_guard {c c' : Prop} [Decidable c] [Decidable c'] (hc : c ↔ c') (h : AlikeDb ρ db db') :
    Option.Rel (AlikeDb ρ) (if c then some db else none) (if c' then some db' else none) := by
  by_cases hcond : c
  · rw [if_pos hcond, if_pos (hc.mp hcond)]
    exact .some h
  · rw [if_neg hcond, if_neg fun h => hcond (hc.mpr h)]
    exact .none

/-- An account is inserted on both sides or on neither: the conditions look at ids and addresses. -/
theorem AlikeDb.insertUser {env : Env} (h : AlikeDb ρ db db') (hu : Alike ρ u u') :
    Option.Rel (AlikeDb ρ) (db.insertUser env u) (db'.insertUser env u') := by
  refine rel_guard (and_congr ?_ ?_) (h.putUser hu)
  · have hsome := h.users.isSome_get u.id
    rw [hu.id, ← Option.not_isSome, ← Option.not_isSome, hsome]
  · have hfree : db.emailFree env u = db'.emailFree env u' :=
      List.Forall₂.all_eq h.users fun r r' hr => by rw [hr.2.email, hr.2.deletedAt, hu.email]
    rw [hfree]

theorem AlikeDb.insertRole (h : AlikeDb ρ db db') (row : Role) :
    Option.Rel (AlikeDb ρ) (db.insertRole row) (db'.insertRole row) :=
  rel_guard (by rw [Rbac.nameFree, Rbac.nameFree, h.roles]) (h.putRole row)

theorem AlikeDb.updateRole (h : AlikeDb ρ db db') (row : Role) :
    Option.Rel (AlikeDb ρ) (db.updateRole row) (db'.updateRole row) :=
  rel_guard (by rw [Rbac.nameFree, Rbac.nameFree, h.roles]) (h.putRole row)

theorem AlikeDb.insertPermission (h : AlikeDb ρ db db') (row : Permission) :
    Option.Rel (AlikeDb ρ) (db.insertPermission row) (db'.insertPermission row) :=
  rel_guard (by rw [Rbac.ruleFree, Rbac.ruleFree, h.permissions]) (h.putPermission row)

theorem AlikeDb.insertUserRole (h : AlikeDb ρ db db') :
    Option.Rel (AlikeDb ρ) (db.insertUserRole userId roleId) (db'.insertUserRole userId roleId) := by
  have hcond : ((db.users.get userId).isSome ∧ (db.roles.get roleId).isSome) ↔
      ((db'.users.get userId).isSome ∧ (db'.roles.get roleId).isSome) := by
    rw [h.users.isSome_get, h.roles]
  unfold Rbac.insertUserRole
  by_cases hc : (db.users.get userId).isSome ∧ (db.roles.get roleId).isSome
  · rw [dif_pos hc, dif_pos (hcond.mp hc)]
    exact .some { h with userRoles := congrArg (·.put ⟨userId, roleId⟩) h.userRoles }
  · rw [dif_neg hc, dif_neg fun h => hc (hcond.mpr h)]
    exact .none

theorem AlikeDb.insertRolePermission (h : AlikeDb ρ db db') :
    Option.Rel (AlikeDb ρ) (db.insertRolePermission roleId permissionId)
      (db'.insertRolePermission roleId permissionId) := by
  have hcond : ((db.roles.get roleId).isSome ∧ (db.permissions.get permissionId).isSome) ↔
      ((db'.roles.get roleId).isSome ∧ (db'.permissions.get permissionId).isSome) := by
    rw [h.roles, h.permissions]
  unfold Rbac.insertRolePermission
  by_cases hc : (db.roles.get roleId).isSome ∧ (db.permissions.get permissionId).isSome
  · rw [dif_pos hc, dif_pos (hcond.mp hc)]
    exact .some { h with rolePermissions := congrArg (·.put ⟨roleId, permissionId⟩) h.rolePermissions }
  · rw [dif_neg hc, dif_neg fun h => hc (hcond.mpr h)]
    exact .none

theorem AlikeDb.foldlM {insert : Rbac → Uuid → Option Rbac}
    (hinsert : ∀ {db db' id}, AlikeDb ρ db db' → Option.Rel (AlikeDb ρ) (insert db id) (insert db' id))
    (l : List Uuid)
    (h : AlikeDb ρ db db') : Option.Rel (AlikeDb ρ) (l.foldlM insert db) (l.foldlM insert db') := by
  induction l generalizing db db' with
  | nil => exact .some h
  | cons id l ih =>
      rw [List.foldlM_cons, List.foldlM_cons]
      have hone : Option.Rel (AlikeDb ρ) (insert db id) (insert db' id) := hinsert h
      generalize insert db id = o at hone ⊢
      generalize insert db' id = o' at hone ⊢
      cases hone with
      | none => exact .none
      | some h => exact ih h

end Tables

/-! ## The access-control services

Each method against itself. No one of them looks at a hash. -/

section Services

variable {α : Type} {f : Rbac → Option Rbac} {g : Rbac → Rbac}

/-- Programs that return the same value, with the rest of both. -/
theorem coupled_bind {σ τ β γ : Type} {S : σ → τ → Prop} {A : β → γ → Prop} {m : Prog σ Failure α}
    {n : Prog τ Failure α}
    {k : α → Prog σ Failure β} {l : α → Prog τ Failure γ} (h : Coupled S (· = ·) m n)
    (hk : ∀ a, Coupled S A (k a) (l a)) :
    Coupled S A (m >>= k) (n >>= l) := by
  refine Coupled.bind h ?_
  rintro a _ rfl
  exact hk a

theorem coupled_modify (h : ∀ {db db'}, AlikeDb ρ db db' → AlikeDb ρ (g db) (g db')) :
    Coupled (AlikeWorld ρ) (· = ·) (modify fun w => { w with db := g w.db } : Service Unit)
      (modify fun w => { w with db := g w.db }) := Coupled.modify fun _ _ hw => { hw with db := h hw.db }

/-- A statement that both sides perform, or both refuse. -/
theorem coupled_save {f' : Rbac → Option Rbac}
    (h : ∀ {db db'}, AlikeDb ρ db db' → Option.Rel (AlikeDb ρ) (f db) (f' db'))
    (e : Failure) : Coupled (AlikeWorld ρ) (· = ·) (save f e) (save f' e) := by
  refine Coupled.bind (A := Option.Rel (AlikeDb ρ)) (Coupled.gets fun _ _ hw => h hw.db) fun _ _ ho => ?_
  exact Coupled.bind (Coupled.orThrow ho e) fun _ _ hdb => Coupled.modify fun _ _ hw =>
    { hw with db := hdb }

theorem coupled_transaction {β : Type} {A : α → β → Prop} {m : Service α} {n : Service β}
    (h : Coupled (AlikeWorld ρ) A m n) :
    Coupled (AlikeWorld ρ) A (transaction m) (transaction n) :=
  Coupled.transaction h fun _ _ _ _ hw hw' => { hw' with db := hw.db }

/-- The replacement of join rows looks at no account. -/
theorem coupled_replaceJoinRows {referenced : Rbac → List Uuid} {insert : Rbac → Uuid → Option Rbac}
    (ids : List String)
    (label : String) (hreferenced : ∀ {db db'}, AlikeDb ρ db db' → referenced db = referenced db')
    (hdelete : ∀ {db db'}, AlikeDb ρ db db' → AlikeDb ρ (g db) (g db'))
    (hinsert : ∀ {db db' id}, AlikeDb ρ db db' → Option.Rel (AlikeDb ρ) (insert db id) (insert db' id)) :
    Coupled (AlikeWorld ρ) (· = ·) (replaceJoinRows referenced g insert ids label)
      (replaceJoinRows referenced g insert ids label) := by
  refine coupled_bind (Coupled.gets fun _ _ hw => by rw [hreferenced hw.db]) fun existing => ?_
  refine coupled_bind (Coupled.throwIf .rfl _) fun _ => coupled_bind (coupled_modify hdelete) fun _ => ?_
  exact coupled_save (fun h => AlikeDb.foldlM @hinsert _ h) _

namespace PermissionsService

open NestApp.PermissionsService

theorem coupled_safeDelBatch (keys : List String) :
    Coupled (AlikeWorld ρ) (· = ·) (safeDelBatch keys) (safeDelBatch keys) :=
  Coupled.modify fun _ _ hw => { hw with cache := by rw [hw.cache] }

theorem loadPermissionRules_alike (h : AlikeDb ρ db db') (id : Uuid) :
    db.loadPermissionRules id = db'.loadPermissionRules id := by
  rw [Rbac.loadPermissionRules, Rbac.loadPermissionRules, h.permissions, h.rolePermissions, h.userRoles]

/-- The rules of a user are the same on both sides, from the cache or from the tables. -/
theorem coupled_getPermissionRulesForUser (userId : String) :
    Coupled (AlikeWorld ρ) (· = ·) (getPermissionRulesForUser userId)
      (getPermissionRulesForUser userId) := by
  refine coupled_bind (Coupled.modify fun _ _ hw => { hw with
    asked := congrArg (Uuid.cast userId :: ·) hw.asked }) fun _ => ?_
  refine coupled_bind (Coupled.gets fun _ _ hw => congrFun hw.cache _) fun cached => ?_
  cases cached with
  | some rules => exact Coupled.pure rfl
  | none =>
      refine coupled_bind (Coupled.gets fun _ _ hw => loadPermissionRules_alike hw.db _) fun rules => ?_
      exact coupled_bind (Coupled.modify fun _ _ hw => { hw with cache := by rw [hw.cache] }) fun _ =>
        Coupled.pure rfl

theorem coupled_createPermission (o : Choice) (input : CreatePermissionInput) :
    Coupled (AlikeWorld ρ) (· = ·) (createPermission o input) (createPermission o input) := by
  have hunique : Coupled (AlikeWorld ρ) (· = ·) (assertUniquePermission input.action input.subject)
      (assertUniquePermission input.action input.subject) :=
    coupled_bind (Coupled.gets fun _ _ hw => by rw [hw.db.permissions]) fun _ => Coupled.throwIf .rfl _
  refine coupled_bind hunique fun _ => coupled_bind (Coupled.mapError _ (coupled_save ?_ _)) fun _ =>
    Coupled.pure rfl
  exact fun h => h.insertPermission _

theorem coupled_updatePermission (id : String) (description : Option String) :
    Coupled (AlikeWorld ρ) (· = ·) (updatePermission id description)
      (updatePermission id description) := by
  refine coupled_bind (Coupled.gets fun _ _ hw => by rw [hw.db.permissions]) fun found => ?_
  refine coupled_bind (Coupled.orThrow (rel_of_eq rfl) _) fun row => ?_
  exact coupled_bind (coupled_modify fun h => h.putPermission _) fun _ => Coupled.pure rfl

theorem coupled_removePermission (id : String) :
    Coupled (AlikeWorld ρ) (· = ·) (removePermission id) (removePermission id) := by
  refine coupled_bind (Coupled.gets fun _ _ hw => by rw [hw.db.permissions]) fun found => ?_
  refine coupled_bind (Coupled.orThrow (rel_of_eq rfl) _) fun row => ?_
  refine coupled_bind (Coupled.gets fun _ _ hw => ?_) fun userIds => ?_
  · rw [Rbac.findUserIdsWithPermission, Rbac.findUserIdsWithPermission, hw.db.userRoles,
      hw.db.rolePermissions]
  · exact coupled_bind (coupled_modify AlikeDb.deletePermission) fun _ => coupled_safeDelBatch _

end PermissionsService

namespace RolesService

open NestApp.RolesService

theorem coupled_getOrThrow (id : String) :
    Coupled (AlikeWorld ρ) (· = ·) (getOrThrow id) (getOrThrow id) :=
  coupled_bind (Coupled.gets fun _ _ hw => by rw [hw.db.roles]) fun _ =>
    Coupled.orThrow (rel_of_eq rfl) _

theorem coupled_existsByName (name : String) :
    Coupled (AlikeWorld ρ) (· = ·) (existsByName name) (existsByName name) :=
  Coupled.gets fun _ _ hw => by rw [hw.db.roles]

theorem findUserIdsWithRole_alike (h : AlikeDb ρ db db') (id : Uuid) :
    db.findUserIdsWithRole id = db'.findUserIdsWithRole id := by
  rw [Rbac.findUserIdsWithRole, Rbac.findUserIdsWithRole, h.userRoles]

theorem coupled_create (o : Choice) (dto : CreateRoleDto) :
    Coupled (AlikeWorld ρ) (· = ·) (create o dto) (create o dto) := by
  refine coupled_bind (coupled_existsByName _) fun _ => coupled_bind (Coupled.throwIf .rfl _) fun _ => ?_
  refine coupled_bind (Coupled.mapError _ (coupled_save ?_ _)) fun _ => coupled_getOrThrow _
  exact fun h => h.insertRole _

theorem coupled_rename (role : Role) (name : Option (Option String)) :
    Coupled (AlikeWorld ρ) (· = ·) (rename role name) (rename role name) := by
  unfold rename
  split
  · exact Coupled.pure rfl
  · exact Coupled.throw _
  · refine Coupled.branch (Coupled.pure rfl) (coupled_bind (coupled_existsByName _) fun _ => ?_)
    exact coupled_bind (Coupled.throwIf .rfl _) fun _ => Coupled.pure rfl

theorem coupled_update (id : String) (dto : UpdateRoleDto) :
    Coupled (AlikeWorld ρ) (· = ·) (update id dto) (update id dto) := by
  refine coupled_bind (coupled_getOrThrow id) fun role =>
    coupled_bind (Coupled.throwIf .rfl _) fun _ => ?_
  refine coupled_bind (coupled_rename role dto.name) fun renamed => ?_
  refine coupled_bind (Coupled.mapError _ (coupled_save ?_ _)) fun _ => coupled_getOrThrow id
  exact fun h => h.updateRole _

theorem coupled_remove (id : String) : Coupled (AlikeWorld ρ) (· = ·) (remove id) (remove id) := by
  refine coupled_bind (coupled_getOrThrow id) fun role =>
    coupled_bind (Coupled.throwIf .rfl _) fun _ => ?_
  refine coupled_bind (Coupled.gets fun _ _ hw => findUserIdsWithRole_alike hw.db _) fun userIds => ?_
  exact coupled_bind (coupled_modify AlikeDb.deleteRole) fun _ =>
    PermissionsService.coupled_safeDelBatch _

theorem coupled_setPermissions (id : String) (permissionIds : List String) :
    Coupled (AlikeWorld ρ) (· = ·) (setPermissions id permissionIds)
      (setPermissions id permissionIds) := by
  refine coupled_bind (coupled_getOrThrow id) fun role =>
    coupled_bind (Coupled.throwIf .rfl _) fun _ => ?_
  have hreplace : Coupled (AlikeWorld ρ) (· = ·) (replacePermissions role.id permissionIds)
      (replacePermissions role.id permissionIds) :=
    coupled_transaction (coupled_replaceJoinRows _ _ (fun h => by
      rw [h.permissions]) AlikeDb.deleteRolePermissions
      AlikeDb.insertRolePermission)
  refine coupled_bind hreplace fun _ =>
    coupled_bind (Coupled.gets fun _ _ hw => findUserIdsWithRole_alike hw.db _) fun userIds => ?_
  exact coupled_bind (PermissionsService.coupled_safeDelBatch _) fun _ => coupled_getOrThrow id

end RolesService

namespace UsersService

open NestApp.UsersService

theorem coupled_findByEmail (env : Env) (email : String) :
    Coupled (AlikeWorld ρ) (Option.Rel (Alike ρ)) (findByEmail env email) (findByEmail env email) :=
  Coupled.gets fun _ _ hw => hw.db.findByEmail env email

theorem coupled_findWithRolesOrFail (id : String) :
    Coupled (AlikeWorld ρ) (Alike ρ) (findWithRolesOrFail id) (findWithRolesOrFail id) :=
  Coupled.bind (A := Option.Rel (Alike ρ)) (Coupled.gets fun _ _ hw => hw.db.live _) fun _ _ ho =>
    Coupled.orThrow ho _

theorem coupled_assignRoles (userId : String) (roleIds : List String) :
    Coupled (AlikeWorld ρ) (· = ·) (assignRoles userId roleIds) (assignRoles userId roleIds) :=
  coupled_replaceJoinRows _ _ (fun h => by rw [h.roles]) AlikeDb.deleteUserRoles AlikeDb.insertUserRole

theorem coupled_assignFirstRoles (userId : Uuid) (roleIds : List String) :
    Coupled (AlikeWorld ρ) (· = ·) (assignFirstRoles userId roleIds)
      (assignFirstRoles userId roleIds) := by
  refine Coupled.branch (coupled_assignRoles _ _) (coupled_bind (Coupled.gets fun _ _ hw => by
    rw [hw.db.roles]) fun found => ?_)
  exact coupled_bind (Coupled.orThrow (rel_of_eq rfl) _) fun role =>
    coupled_save AlikeDb.insertUserRole _

/-- An account is made on both sides with its own hash, and given the same roles. -/
theorem coupled_createUserInTransaction (env : Env) (hu : Alike ρ u u') (roleIds : List String) :
    Coupled (AlikeWorld ρ) (Alike ρ) (createUserInTransaction env u roleIds)
      (createUserInTransaction env u' roleIds) := by
  refine coupled_transaction (coupled_bind (coupled_save (fun h => h.insertUser hu) _) fun _ => ?_)
  rw [hu.id]
  exact coupled_bind (coupled_assignFirstRoles _ _) fun _ => Coupled.pure hu

theorem coupled_update (o : Choice) (id : String) (dto : UpdateUserDto) (actingUserId : Option String) :
    Coupled (AlikeWorld ρ) (Alike ρ) (update o id dto actingUserId) (update o id dto actingUserId) := by
  refine coupled_bind (Coupled.throwIf .rfl _) fun _ =>
    Coupled.bind (coupled_findWithRolesOrFail id) fun row row' hrow => ?_
  -- the fields of the DTO do not touch the hash, and `save` writes what they touch
  have happly : Option.Rel
    (fun user user' => Alike ρ (Update.saved o.now user row) (Update.saved o.now user' row'))
      (dto.apply row) (dto.apply row') := by
    rw [hrow.rest]
    simp only [UpdateUserDto.apply, Option.bind_eq_bind, Option.pure_def]
    cases UpdateUserDto.assignName dto.firstName row.firstName with
    | none => exact .none
    | some firstName =>
        cases UpdateUserDto.assignName dto.lastName row.lastName with
        | none => exact .none
        | some lastName =>
            cases UpdateUserDto.assignStatus dto.status row.status with
            | none => exact .none
            | some status =>
                refine .some ?_
                unfold Update.saved
                by_cases hsame : firstName = row.firstName ∧ lastName = row.lastName ∧
                  status = row.status
                · -- neither deployment has anything to write
                  obtain ⟨rfl, rfl, rfl⟩ := hsame
                  rw [if_pos rfl, if_pos rfl]
                  exact ⟨rfl, hrow.hash⟩
                · rw [if_neg fun h => hsame ⟨congrArg User.firstName h, congrArg User.lastName h,
                    congrArg User.status h⟩,
                    if_neg fun h => hsame ⟨congrArg User.firstName h, congrArg User.lastName h,
                      congrArg User.status h⟩]
                  constructor
                  · simp [Update.saveColumns, Update.writeColumn]
                  · simpa [Update.saveColumns, Update.writeColumn] using hrow.hash
  refine Coupled.bind (Coupled.orThrow happly _) fun user user' huser => ?_
  exact coupled_bind (Coupled.modify fun _ _ hw => { hw with db := hw.db.putUser huser }) fun _ =>
    coupled_findWithRolesOrFail id

theorem coupled_setRoles (userId : String) (roleIds : List String) :
    Coupled (AlikeWorld ρ) (Alike ρ) (setRoles userId roleIds) (setRoles userId roleIds) := by
  refine coupled_bind (coupled_transaction (coupled_assignRoles userId roleIds)) fun _ => ?_
  exact coupled_bind (PermissionsService.coupled_safeDelBatch _) fun _ =>
    coupled_findWithRolesOrFail userId

end UsersService

end Services

/-! ## The account flows

Here passwords are hashed and verified. `login` is the only method whose course depends on a hash, by
way of the verdict. -/

section Flows

variable {α β : Type} {A : α → β → Prop} {env : Env} {hashPassword : String → String → String}
  {verifyPassword : String → String → Bool} {o oSession : Choice} {fault : Option DbCall}
  {metadata : SessionMetadata}

theorem coupled_onWorld {m : Service α} {n : Service β} (h : Coupled (AlikeWorld ρ) A m n) :
    Coupled (AlikeAccounts ρ) A (onWorld m) (onWorld n) :=
  Coupled.zoom h (fun _ _ hs => hs.world) fun _ _ _ _ hs hw => { hs with world := hw }

theorem coupled_accountTransaction {m : AccountService α} {n : AccountService β}
    (h : Coupled (AlikeAccounts ρ) A m n) :
    Coupled (AlikeAccounts ρ) A (accountTransaction m) (accountTransaction n) :=
  Coupled.transaction h fun _ _ _ _ hs hs' =>
    ⟨{ hs'.world with db := hs.world.db }, hs.refreshTokens, hs.resetTokens, hs'.mailQueue⟩

theorem coupled_statement {σ τ : Type} {S : σ → τ → Prop} {m : Prog σ Failure α}
    {n : Prog τ Failure β} {call : DbCall}
    (h : Coupled S A m n) : Coupled S A (statement fault call m) (statement fault call n) :=
  Coupled.branch (Coupled.throw _) h

theorem coupled_insertRow {call : DbCall} {insert insert' : Accounts → Option Accounts}
    (h : ∀ s s', AlikeAccounts ρ s s' → Option.Rel (AlikeAccounts ρ) (insert s) (insert' s')) :
    Coupled (AlikeAccounts ρ) (· = ·) (insertRow fault call insert) (insertRow fault call insert') := by
  refine coupled_statement
    (Coupled.bind (A := Option.Rel (AlikeAccounts ρ)) (Coupled.gets h) fun _ _ ho => ?_)
  exact Coupled.bind (Coupled.orThrow ho _) fun _ _ hs => Coupled.modify fun _ _ _ => hs

theorem insertRefreshToken_alike (row : RefreshToken) {s s' : Accounts} (h : AlikeAccounts ρ s s') :
    Option.Rel (AlikeAccounts ρ) (s.insertRefreshToken row) (s'.insertRefreshToken row) := by
  have hcond : (¬ s.refreshTokens.Taken RefreshToken.tokenHash row.id row.tokenHash ∧
        (s.world.db.users.get row.userId).isSome ∧ fitsIpAddress row.ipAddress = true) ↔
      (¬ s'.refreshTokens.Taken RefreshToken.tokenHash row.id row.tokenHash ∧
        (s'.world.db.users.get row.userId).isSome ∧ fitsIpAddress row.ipAddress = true) := by
    rw [h.refreshTokens, h.world.db.users.isSome_get]
  unfold Accounts.insertRefreshToken
  split
  · next hc =>
    rw [if_pos (hcond.mp hc)]
    exact .some { h with refreshTokens := congrArg (·.put row) h.refreshTokens }
  · next hc =>
    rw [if_neg fun hc' => hc (hcond.mpr hc')]
    exact .none

theorem insertResetToken_alike (row : PasswordResetToken) {s s' : Accounts} (h : AlikeAccounts ρ s s') :
    Option.Rel (AlikeAccounts ρ) (s.insertResetToken row) (s'.insertResetToken row) := by
  have hcond : (¬ s.resetTokens.Taken PasswordResetToken.tokenHash row.id row.tokenHash ∧
        (s.world.db.users.get row.userId).isSome ∧ fitsIpAddress row.ipAddress = true) ↔
      (¬ s'.resetTokens.Taken PasswordResetToken.tokenHash row.id row.tokenHash ∧
        (s'.world.db.users.get row.userId).isSome ∧ fitsIpAddress row.ipAddress = true) := by
    rw [h.resetTokens, h.world.db.users.isSome_get]
  unfold Accounts.insertResetToken
  split
  · next hc =>
    rw [if_pos (hcond.mp hc)]
    exact .some { h with resetTokens := congrArg (·.put row) h.resetTokens }
  · next hc =>
    rw [if_neg fun hc' => hc (hcond.mpr hc')]
    exact .none

section Tokens

variable {s s' : Accounts} (h : AlikeAccounts ρ s s')

include h

theorem AlikeAccounts.putRefreshToken (row : RefreshToken) :
    AlikeAccounts ρ (s.putRefreshToken row) (s'.putRefreshToken row) :=
  { h with refreshTokens := by rw [Accounts.putRefreshToken, Accounts.putRefreshToken, h.refreshTokens] }

theorem AlikeAccounts.revokeFamily (familyId : Uuid) (now : Nat) :
    AlikeAccounts ρ (s.revokeFamily familyId now) (s'.revokeFamily familyId now) :=
  { h with refreshTokens := by rw [Accounts.revokeFamily, Accounts.revokeFamily, h.refreshTokens] }

theorem AlikeAccounts.revokeTokens (userId : Uuid) (now : Nat) :
    AlikeAccounts ρ (s.revokeTokens userId now) (s'.revokeTokens userId now) :=
  { h with refreshTokens := by rw [Accounts.revokeTokens, Accounts.revokeTokens, h.refreshTokens] }

theorem AlikeAccounts.useLinks (userId : Uuid) (now : Nat) :
    AlikeAccounts ρ (s.useLinks userId now) (s'.useLinks userId now) :=
  { h with resetTokens := by rw [Accounts.useLinks, Accounts.useLinks, h.resetTokens] }

theorem AlikeAccounts.putUser (hu : Alike ρ u u') : AlikeAccounts ρ (s.putUser u) (s'.putUser u') :=
  { h with world := { h.world with db := h.world.db.putUser hu } }

end Tokens

/-- A new account, hashed in two ways. -/
theorem newUser_alike (hv : SameVerdicts ρ env (env.withHashing hashPassword verifyPassword))
    (o : Choice) (dto : RegisterDto) :
    Alike ρ (Session.newUser env o dto)
      (Session.newUser (env.withHashing hashPassword verifyPassword) o dto) :=
  ⟨rfl, hv.hash o.salt dto.password⟩

theorem coupled_createWithDefaultRole (hu : Alike ρ u u') :
    Coupled (AlikeWorld ρ) (Alike ρ) (NestApp.UsersService.createWithDefaultRole env fault u)
      (NestApp.UsersService.createWithDefaultRole (env.withHashing hashPassword verifyPassword)
        fault u') := by
  have hsql : ∀ call, Coupled (AlikeWorld ρ) (· = ·) (statement fault call (pure ()) : Service Unit)
      (statement fault call (pure ())) := fun call => coupled_statement (Coupled.pure rfl)
  refine coupled_transaction (coupled_bind (hsql _) fun _ => ?_)
  refine coupled_bind (coupled_statement (coupled_save (fun h => h.insertUser hu) _)) fun _ => ?_
  refine coupled_bind (coupled_statement (Coupled.gets fun _ _ hw => by rw [hw.db.roles]))
    fun found => ?_
  refine coupled_bind (Coupled.orThrow (rel_of_eq rfl) _) fun role => coupled_bind (hsql _) fun _ => ?_
  rw [hu.id]
  refine coupled_bind (coupled_statement (coupled_save AlikeDb.insertUserRole _)) fun _ => ?_
  exact coupled_bind (hsql _) fun _ => Coupled.pure hu

/-- `UsersService.create`, for an administrator. -/
theorem coupled_create (hv : SameVerdicts ρ env (env.withHashing hashPassword verifyPassword))
    (dto : CreateUserDto) :
    Coupled (AlikeWorld ρ) (Alike ρ) (NestApp.UsersService.create env o dto)
      (NestApp.UsersService.create (env.withHashing hashPassword verifyPassword) o dto) := by
  refine Coupled.bind (UsersService.coupled_findByEmail env _) fun found found' hfound => ?_
  refine coupled_bind (Coupled.throwIf (by rw [rel_isSome hfound]) _) fun _ => ?_
  refine Coupled.bind (Coupled.mapError _ (UsersService.coupled_createUserInTransaction env
    (newUser_alike hv o _) _))
    fun user user' huser => ?_
  rw [huser.id]
  exact UsersService.coupled_findWithRolesOrFail _

theorem coupled_createSession (hu : Alike ρ u u') :
    Coupled (AlikeAccounts ρ) (· = ·) (AuthService.createSession env o fault u metadata)
      (AuthService.createSession (env.withHashing hashPassword verifyPassword) o fault u' metadata) := by
  have hrow : Session.newToken env o u metadata =
      Session.newToken (env.withHashing hashPassword verifyPassword) o u' metadata :=
    hu.congr (f := fun user => Session.newToken env o user metadata) fun _ => rfl
  unfold AuthService.createSession
  rw [hrow]
  exact coupled_bind (coupled_insertRow fun _ _ hs => insertRefreshToken_alike _ hs) fun _ =>
    Coupled.pure rfl

/-- A registration hashes the password on each side in its own way; the two hashes are related by
    hypothesis. -/
theorem coupled_register (hv : SameVerdicts ρ env (env.withHashing hashPassword verifyPassword))
    (dto : RegisterDto) :
    Coupled (AlikeAccounts ρ) (· = ·) (AuthService.register env o oSession fault dto metadata)
      (AuthService.register (env.withHashing hashPassword verifyPassword) o oSession fault
        dto metadata) := by
  refine Coupled.bind (coupled_onWorld (coupled_statement (UsersService.coupled_findByEmail env _)))
    fun _ _ hfound => ?_
  refine coupled_bind (Coupled.throwIf (by rw [rel_isSome hfound]) _) fun _ => ?_
  refine Coupled.bind (coupled_onWorld
    (Coupled.mapError _ (coupled_createWithDefaultRole (newUser_alike hv o dto))))
    fun _ _ huser => coupled_createSession huser

/-- The one place where a hash is looked at. -/
theorem coupled_login (hv : SameVerdicts ρ env (env.withHashing hashPassword verifyPassword))
    (dto : LoginDto) :
    Coupled (AlikeAccounts ρ) (· = ·) (AuthService.login env o dto metadata)
      (AuthService.login (env.withHashing hashPassword verifyPassword) o dto metadata) := by
  refine Coupled.bind (coupled_onWorld (UsersService.coupled_findByEmail env _)) fun _ _ hfound => ?_
  refine Coupled.bind (Coupled.orThrow hfound _) fun user user' huser => ?_
  refine coupled_bind (Coupled.throwIf (by rw [hv.verify huser.hash]) _) fun _ => ?_
  exact coupled_bind (Coupled.throwIf (by rw [huser.status]) _) fun _ => coupled_createSession huser

/-- What a refresh answers with. -/
abbrev AlikeSession (ρ : String → String → Prop) (a b : User × RefreshToken) : Prop :=
  Alike ρ a.1 b.1 ∧ a.2 = b.2

/-- A refresh goes by the session and by the status of its account. -/
theorem coupled_refresh (cookie : Option String) :
    Coupled (AlikeAccounts ρ) (AlikeSession ρ) (AuthService.refresh env o cookie metadata)
      (AuthService.refresh (env.withHashing hashPassword verifyPassword) o cookie metadata) := by
  let R : Refresh.Outcome → Refresh.Outcome → Prop :=
    fun r r' => Answer (AlikeSession ρ) r.response r'.response
  have hanswer : ∀ r r', R r r' →
    Coupled (AlikeAccounts ρ) (AlikeSession ρ) (AuthService.answer r) (AuthService.answer r') := by
    intro r r' (hr : Answer (AlikeSession ρ) r.response r'.response)
    unfold AuthService.answer
    generalize r.response = q at hr ⊢
    generalize r'.response = q' at hr ⊢
    cases hr with
    | ok h => exact Coupled.pure h
    | error e => exact Coupled.throw _
  have hjudge : ∀ p, Coupled (AlikeAccounts ρ) R (AuthService.judge env o p)
      (AuthService.judge (env.withHashing hashPassword verifyPassword) o p) := by
    intro p
    refine Coupled.branch (coupled_bind (Coupled.modify fun _ _ hs => hs.revokeFamily _ _)
      fun _ => Coupled.pure (.error _)) ?_
    refine Coupled.branch (coupled_bind (Coupled.modify fun _ _ hs => hs.putRefreshToken _)
      fun _ => Coupled.pure (.error _)) ?_
    refine Coupled.bind (A := Option.Rel (Alike ρ)) (Coupled.gets fun _ _ hs => hs.world.db.live _)
      fun owner owner' howner => ?_
    have hactive := rel_filter (p := fun user => decide (user.status = .active))
      (q := fun user => decide (user.status = .active))
      howner fun _ _ hu => by rw [hu.status]
    generalize owner.filter _ = user at hactive ⊢
    generalize owner'.filter _ = user' at hactive ⊢
    cases hactive with
    | none => exact Coupled.pure (.error _)
    | @some user user' huser =>
        have hnext : Refresh.nextToken env o p user =
            Refresh.nextToken (env.withHashing hashPassword verifyPassword) o p user' :=
          huser.congr (f := fun user => Refresh.nextToken env o p user) fun _ => rfl
        show Coupled (AlikeAccounts ρ) R (AuthService.rotateToken env o p user)
          (AuthService.rotateToken _ o p user')
        unfold AuthService.rotateToken
        rw [hnext]
        refine coupled_bind (coupled_insertRow fun _ _ hs => insertRefreshToken_alike _ hs) fun _ => ?_
        exact coupled_bind (Coupled.modify fun _ _ hs => hs.putRefreshToken _) fun _ =>
          Coupled.pure (.ok ⟨huser, rfl⟩)
  unfold AuthService.refresh
  split
  · exact Coupled.throw _
  · exact Coupled.throw _
  · refine Coupled.bind (A := R)
      (coupled_accountTransaction (coupled_bind (Coupled.gets fun _ _ hs => ?_) fun found => ?_)) hanswer
    · rw [Accounts.findRefreshToken, Accounts.findRefreshToken, hs.refreshTokens]
      rfl
    · cases found with
      | none => exact Coupled.pure (.error _)
      | some stored => exact hjudge _

theorem coupled_logout (cookie : Option String) :
    Coupled (AlikeAccounts ρ) (· = ·) (AuthService.logout env o cookie)
      (AuthService.logout (env.withHashing hashPassword verifyPassword) o cookie) := by
  unfold AuthService.logout
  split
  · exact Coupled.pure rfl
  · exact Coupled.pure rfl
  · refine coupled_bind (Coupled.gets fun _ _ hs => ?_) fun found => ?_
    · rw [Accounts.findRefreshToken, Accounts.findRefreshToken, hs.refreshTokens]
      rfl
    · split
      · exact Coupled.pure rfl
      · exact Coupled.modify fun _ _ hs => hs.putRefreshToken _

/-- A link goes to the address of the account, which is the same. -/
theorem coupled_forgotPassword (driver : MailDriver) (queueAccepts : Bool) (dto : ForgotPasswordDto) :
    Coupled (AlikeAccounts ρ) (· = ·)
      (AuthService.forgotPassword env driver o queueAccepts fault dto metadata)
      (AuthService.forgotPassword (env.withHashing hashPassword verifyPassword) driver o
        queueAccepts fault dto metadata) := by
  refine Coupled.bind (coupled_onWorld (coupled_statement (UsersService.coupled_findByEmail env _)))
    fun found found' hfound => ?_
  have hactive := rel_filter (p := fun user => decide (user.status = .active))
    (q := fun user => decide (user.status = .active))
    hfound fun _ _ hu => by rw [hu.status]
  generalize found.filter _ = user at hactive ⊢
  generalize found'.filter _ = user' at hactive ⊢
  cases hactive with
  | none => exact Coupled.pure rfl
  | @some user user' huser =>
      have hrow : ForgotPassword.newToken env o user metadata =
          ForgotPassword.newToken (env.withHashing hashPassword verifyPassword) o user' metadata :=
        huser.congr (f := fun user => ForgotPassword.newToken env o user metadata) fun _ => rfl
      show Coupled (AlikeAccounts ρ) (· = ·)
        (AuthService.issueLink env driver o queueAccepts fault user metadata)
        (AuthService.issueLink _ driver o queueAccepts fault user' metadata)
      unfold AuthService.issueLink
      rw [hrow, huser.id, huser.email]
      refine coupled_bind (coupled_statement (Coupled.modify fun _ _ hs => hs.useLinks _ _)) fun _ => ?_
      refine coupled_bind (coupled_insertRow fun _ _ hs => insertResetToken_alike _ hs) fun _ => ?_
      cases driver with
      | console => exact Coupled.pure rfl
      | smtp =>
          refine Coupled.tryCatch (Coupled.branch (Coupled.modify fun _ _ hs => ?_) (Coupled.throw _))
            fun _ => Coupled.pure rfl
          exact { hs with mailQueue := by rw [hs.mailQueue]; rfl }

/-- A reset hashes the new password on each side; everything else goes by the link. -/
theorem coupled_resetPassword (hv : SameVerdicts ρ env (env.withHashing hashPassword verifyPassword))
    (dto : ResetPasswordDto) :
    Coupled (AlikeAccounts ρ) (· = ·) (AuthService.resetPassword env o dto)
      (AuthService.resetPassword (env.withHashing hashPassword verifyPassword) o dto) := by
  refine coupled_accountTransaction (coupled_bind (Coupled.gets fun _ _ hs => by
    rw [hs.resetTokens]; rfl) fun found => ?_)
  refine coupled_bind (Coupled.orThrow (rel_of_eq rfl) _) fun record =>
    coupled_bind (Coupled.throwIf .rfl _) fun _ => ?_
  refine Coupled.bind (A := Option.Rel (Alike ρ)) (Coupled.gets fun _ _ hs => hs.world.db.live _)
    fun _ _ howner => ?_
  refine Coupled.bind (Coupled.orThrow howner _) fun user user' huser => ?_
  refine coupled_bind (Coupled.throwIf (by rw [huser.status]) _) fun _ => ?_
  refine coupled_bind (Coupled.modify fun _ _ hs => hs.putUser
    ⟨?_, hv.hash o.salt dto.newPassword⟩) fun _ => ?_
  · rw [huser.rest]
    rfl
  · rw [huser.id]
    refine coupled_bind (Coupled.modify fun _ _ hs => { hs with resetTokens := ?_ }) fun _ => ?_
    · rw [hs.resetTokens]
    · exact Coupled.modify fun _ _ hs => hs.revokeTokens _ _

theorem coupled_softDelete (id : String) (actingUserId : Option String) :
    Coupled (AlikeAccounts ρ) (· = ·) (Accounts.softDelete o id actingUserId)
      (Accounts.softDelete o id actingUserId) := by
  refine coupled_bind (Coupled.throwIf .rfl _) fun _ => ?_
  refine Coupled.bind (coupled_onWorld (UsersService.coupled_findWithRolesOrFail id))
    fun row row' hrow => ?_
  refine coupled_bind (coupled_accountTransaction ?_) fun _ =>
    coupled_onWorld (PermissionsService.coupled_safeDelBatch _)
  refine coupled_bind (Coupled.modify fun _ _ hs => hs.putUser ⟨?_, hrow.hash⟩) fun _ => ?_
  · rw [hrow.rest]
    rfl
  · exact coupled_bind (Coupled.modify fun _ _ hs => hs.revokeTokens _ _) fun _ =>
      Coupled.modify fun _ _ hs => hs.useLinks _ _

end Flows

/-! ## The handlers

What an answer shows of an account is a function of the account without its hash. -/

/-- The same application, with another way of hashing passwords. -/
def App.withHashing (app : App) (hashPassword : String → String → String)
    (verifyPassword : String → String → Bool) : App :=
  { app with env := app.env.withHashing hashPassword verifyPassword }

section Handlers

variable {app : App} {x : Draw} {hashPassword : String → String → String}
  {verifyPassword : String → String → Bool}
  {actor actor' : Option User} {metadata : SessionMetadata}

/-- The tokens and the account they name are what the guard goes by. -/
theorem jwtAuthGuard_alike (h : AlikeDb ρ db db') (request : Request) :
    Answer (Option.Rel (Alike ρ)) (jwtAuthGuard app x request db)
      (jwtAuthGuard (app.withHashing hashPassword verifyPassword) x request db') := by
  have hactive : ∀ sub, Answer (Alike ρ) (Realtime.AccessTokenIdentityService.findActiveUserById db sub)
      (Realtime.AccessTokenIdentityService.findActiveUserById db' sub) := by
    intro sub
    unfold Realtime.AccessTokenIdentityService.findActiveUserById
    cases sub with
    | text id =>
        have hlive := h.live (.cast id)
        simp only [Realtime.findById]
        generalize (db.users.get (.cast id)).filter (fun user => user.deletedAt.isNone) = o at hlive ⊢
        generalize (db'.users.get (.cast id)).filter (fun user => user.deletedAt.isNone) = o' at hlive ⊢
        cases hlive with
        | none => exact .error _
        | some hu =>
            simp only [hu.status]
            split
            · exact .ok hu
            · exact .error _
    | undefined | null | bool | number | composite => exact .error _
  unfold jwtAuthGuard
  split
  · exact .ok .none
  · show Answer _ ((Realtime.JwtAuthGuard.canActivate app.jwt db x.o.now request.authorization).map some)
      ((Realtime.JwtAuthGuard.canActivate app.jwt db' x.o.now request.authorization).map some)
    unfold Realtime.JwtAuthGuard.canActivate
    split
    · exact .error _
    · next payload _ =>
      unfold Realtime.JwtAccessStrategy.validate
      by_cases htruthy : payload.sub.truthy = true
      · simp only [if_pos htruthy]
        have hrel := hactive payload.sub
        generalize Realtime.AccessTokenIdentityService.findActiveUserById db payload.sub = r at hrel ⊢
        generalize Realtime.AccessTokenIdentityService.findActiveUserById db' payload.sub = r' at hrel ⊢
        cases hrel with
        | error e => exact .error _
        | ok hu => exact .ok (.some hu)
      · simp only [if_neg htruthy]
        exact .error _

/-- The guards let the same requests pass on both sides, for alike users. -/
theorem coupled_guards (request : Request) :
    Coupled (AlikeAccounts ρ) (Option.Rel (Alike ρ)) (guards app x request)
    (guards (app.withHashing hashPassword verifyPassword) x request) := by
  have hguard : ∀ required user user', Option.Rel (Alike ρ) user user' →
      Coupled (AlikeWorld ρ) (· = ·) (permissionsGuard app.casl required user)
        (permissionsGuard app.casl required user') := by
    intro required user user' huser
    unfold permissionsGuard
    split
    · exact Coupled.pure rfl
    · exact Coupled.pure rfl
    · refine Coupled.bind (Coupled.orThrow huser _) fun user user' hu => ?_
      rw [hu.id]
      exact coupled_bind (PermissionsService.coupled_getPermissionRulesForUser _) fun _ =>
        Coupled.throwIf .rfl _
  refine Coupled.bind (A := Answer (Option.Rel (Alike ρ)))
    (Coupled.gets fun _ _ hs => jwtAuthGuard_alike hs.world.db request)
    fun found found' hfound => ?_
  cases hfound with
  | error e => exact Coupled.throw _
  | ok huser => exact coupled_bind (coupled_onWorld (hguard _ _ _ huser)) fun _ => Coupled.pure huser

/-- What an answer shows of an account, without its hash. -/
theorem serializeUser_alike (h : Alike ρ u u') (roles : List Role) :
    serializeUser u roles = serializeUser u' roles :=
  h.congr (f := fun user => serializeUser user roles) fun _ => rfl

theorem rolesOf_alike (h : AlikeDb ρ db db') (id : Uuid) : db.rolesOf id = db'.rolesOf id := by
  rw [Rbac.rolesOf, Rbac.rolesOf, h.userRoles, h.roles]

theorem permissionsOf_alike (h : AlikeDb ρ db db') (id : Uuid) :
    permissionsOf db id = permissionsOf db' id := by
  rw [permissionsOf, permissionsOf, h.rolePermissions, h.permissions]

theorem coupled_sessionBody (withRoles : Bool) (refreshToken : String) (userId : Uuid) :
    Coupled (AlikeAccounts ρ) (· = ·) (sessionBody withRoles refreshToken userId)
      (sessionBody withRoles refreshToken userId) := by
  refine coupled_bind (Coupled.gets fun s s' hs => ?_) fun _ =>
    coupled_bind (Coupled.orThrow (rel_of_eq rfl) _) fun _ =>
    Coupled.pure rfl
  rw [rolesOf_alike hs.world.db]
  have hget := hs.world.db.get userId
  generalize s.world.db.users.get userId = o at hget ⊢
  generalize s'.world.db.users.get userId = o' at hget ⊢
  cases hget with
  | none => rfl
  | some hu => exact congrArg some (serializeUser_alike hu _)

theorem coupled_userBody {m n : Service User} (h : Coupled (AlikeWorld ρ) (Alike ρ) m n) :
    Coupled (AlikeAccounts ρ) (· = ·) (userBody m) (userBody n) := by
  refine Coupled.bind (coupled_onWorld h) fun user user' hu => Coupled.gets fun s s' hs => ?_
  rw [rolesOf_alike hs.world.db, hu.id, serializeUser_alike hu]

theorem coupled_roleBody {order : Collations} {m : Service Role}
    (h : Coupled (AlikeWorld ρ) (· = ·) m m) :
    Coupled (AlikeAccounts ρ) (· = ·) (roleBody order m) (roleBody order m) := by
  refine coupled_bind (coupled_onWorld h) fun role => Coupled.gets fun s s' hs => ?_
  rw [permissionsOf_alike hs.world.db]

/-- An account without its hash: what the lists are sorted and shown by. -/
def withoutHash (user : User) : User := { user with passwordHash := "" }

theorem Alike.withoutHash (h : Alike ρ u u') : withoutHash u = withoutHash u' := by
  rw [h.rest]
  rfl

/-- Two lists that are one without the hashes are sorted alike. -/
theorem newestFirst_alike (rank : Uuid → Nat) {l l' : List User}
    (h : List.Forall₂ (fun u u' => withoutHash u = withoutHash u') l l') :
    List.Forall₂ (fun u u' => withoutHash u = withoutHash u') (newestFirst rank l)
      (newestFirst rank l') := by
  have hmap : ∀ l, (newestFirst rank l).map withoutHash = newestFirst rank (l.map withoutHash) :=
    fun l => List.map_mergeSort fun _ _ _ _ => rfl
  rw [← List.forall₂_map_left_iff (f := withoutHash) (R := fun a u' => a = withoutHash u'),
    ← List.forall₂_map_right_iff (f := withoutHash) (R := fun a b => a = b),
      List.forall₂_eq_eq_eq, hmap, hmap,
    h.map_eq fun _ _ hu => hu]

/-- The list of accounts is searched, sorted and cut into pages without a look at the hashes. -/
theorem usersBody_alike (h : AlikeDb ρ db db') (query : ListUsersQueryDto) :
    usersBody app x query db = usersBody (app.withHashing hashPassword verifyPassword) x query db' := by
  have hrows : List.Forall₂ (fun u u' => withoutHash u = withoutHash u') db.users.rows db'.users.rows :=
    List.Forall₂.imp (fun _ _ hr => hr.2.withoutHash) h.users
  have hshown : ∀ {u u' : User} {α : Type} (f : User → α), (∀ user, f (withoutHash user) = f user) →
      withoutHash u = withoutHash u' → f u = f u' := by
    intro u u' α f hf hu
    rw [← hf u, hu, hf u']
  have hmatching : List.Forall₂ (fun u u' => withoutHash u = withoutHash u')
      (UsersService.matching app.fold db query.q) (UsersService.matching app.fold db' query.q) := by
    refine hrows.filter fun u u' hu => ?_
    exact hshown (fun user => user.deletedAt.isNone && UsersService.isMatch app.fold query.q user)
      (fun _ => rfl) hu
  have hpage : List.Forall₂ (fun u u' => withoutHash u = withoutHash u')
      (UsersService.pageOf query (newestFirst x.rank (UsersService.matching app.fold db query.q)))
      (UsersService.pageOf query (newestFirst x.rank (UsersService.matching app.fold db' query.q))) :=
    List.forall₂_take _ (List.forall₂_drop _ (newestFirst_alike x.rank hmatching))
  have hids := hpage.map_eq (f := User.id) (g := User.id) fun _ _ hu => hshown User.id (fun _ => rfl) hu
  -- the roles joined are those loaded for the ids of the page
  have hloaded : List.Forall₂ (fun a b : UserWithRoles => a.user.id = b.user.id ∧
    a.userRoles = b.userRoles)
      (UsersService.answersOf db query
        (newestFirst x.rank (UsersService.matching app.fold db query.q))).loaded
      (UsersService.answersOf db' query
        (newestFirst x.rank (UsersService.matching app.fold db' query.q))).loaded := by
    refine List.forall₂_map_left_iff.mpr (List.forall₂_map_right_iff.mpr ?_)
    refine List.Forall₂.imp (fun u u' hu => ?_) (hrows.filter fun u u' hu => ?_)
    · have hid : u.id = u'.id := hshown User.id (fun _ => rfl) hu
      exact ⟨hid, by rw [rolesOf_alike h, hid]⟩
    · rw [hids, hshown User.deletedAt (fun _ => rfl) hu, hshown User.id (fun _ => rfl) hu]
  have hroles : ∀ id, UsersService.rolesById (UsersService.answersOf db query
        (newestFirst x.rank (UsersService.matching app.fold db query.q))).loaded id =
      UsersService.rolesById (UsersService.answersOf db' query
        (newestFirst x.rank (UsersService.matching app.fold db' query.q))).loaded id := by
    intro id
    have hfound := (List.rel_reverse hloaded).find? (p := fun u => decide (u.user.id = id))
      (q := fun u => decide (u.user.id = id))
      fun a b hab => by rw [hab.1]
    unfold UsersService.rolesById
    generalize List.find? _ _ = o at hfound ⊢
    generalize List.find? _ _ = o' at hfound ⊢
    cases hfound with
    | none => rfl
    | some hab => exact congrArg some hab.2
  show Body.users _ _ _ _ = Body.users _ _ _ _
  congr 1
  · show List.map _ (List.map _ _) = List.map _ (List.map _ _)
    rw [List.map_map, List.map_map]
    refine hpage.map_eq fun u u' hu => ?_
    have hid : u.id = u'.id := hshown User.id (fun _ => rfl) hu
    simp only [Function.comp_apply, hroles, hid]
    exact hshown (fun user => serializeUser user _) (fun _ => rfl) hu
  · exact hmatching.length_eq

theorem rolesBody_alike (h : AlikeDb ρ db db') (order : Collations) :
    rolesBody order db = rolesBody order db' := by
  have hpermissions : permissionsOf db = permissionsOf db' := funext fun id => permissionsOf_alike h id
  rw [rolesBody, rolesBody, h.roles, hpermissions]

theorem permissionsBody_alike (h : AlikeDb ρ db db') (order : Collations) :
    permissionsBody order db = permissionsBody order db' := by
  rw [permissionsBody, permissionsBody, h.permissions]

/-- **A handler answers alike**, and leaves alike states, on either side of the relation. -/
theorem coupled_handle (hv : SameVerdicts ρ app.env (app.env.withHashing hashPassword verifyPassword))
    (hactor : Option.Rel (Alike ρ) actor actor') (route : Route) :
    Coupled (AlikeAccounts ρ) (· = ·) (handle app x actor metadata route)
      (handle (app.withHashing hashPassword verifyPassword) x actor' metadata route) := by
  have hid : (actor.map fun user => user.id.text) = actor'.map fun user => user.id.text := by
    cases hactor with
    | none => rfl
    | some hu => rw [Option.map_some, Option.map_some, hu.id]
  cases route with
  | ping | health | metrics => exact Coupled.pure rfl
  | register dto =>
      exact coupled_bind (coupled_register hv dto) fun _ => coupled_sessionBody _ _ _
  | login dto => exact coupled_bind (coupled_login hv dto) fun _ => coupled_sessionBody _ _ _
  | refresh cookie =>
      refine Coupled.bind (coupled_refresh cookie) fun session session' hsession => ?_
      show Coupled _ _ (sessionBody false x.o.token session.1.id)
        (sessionBody false x.o.token session'.1.id)
      rw [hsession.1.id]
      exact coupled_sessionBody _ _ _
  | logout cookie => exact coupled_bind (coupled_logout cookie) fun _ => Coupled.pure rfl
  | forgotPassword dto => exact coupled_bind (coupled_forgotPassword _ _ dto) fun _ => Coupled.pure rfl
  | resetPassword dto => exact coupled_bind (coupled_resetPassword hv dto) fun _ => Coupled.pure rfl
  | getMe =>
      refine Coupled.bind (Coupled.orThrow hactor _) fun user user' hu => ?_
      show Coupled _ _ (pure (Body.user (serializeUser user [])))
        (pure (Body.user (serializeUser user' [])))
      rw [serializeUser_alike hu]
      exact Coupled.pure rfl
  | findAllUsers query => exact Coupled.gets fun _ _ hs => usersBody_alike hs.world.db query
  | findUser id => exact coupled_userBody (UsersService.coupled_findWithRolesOrFail id)
  | createUser dto => exact coupled_userBody (coupled_create hv dto)
  | updateUser id dto =>
      show Coupled _ _ (userBody (NestApp.UsersService.update x.o id dto _))
        (userBody (NestApp.UsersService.update x.o id dto _))
      rw [hid]
      exact coupled_userBody (UsersService.coupled_update x.o id dto _)
  | removeUser id =>
      show Coupled _ _ (Accounts.softDelete x.o id _ >>= _) (Accounts.softDelete x.o id _ >>= _)
      rw [hid]
      exact coupled_bind (coupled_softDelete id _) fun _ => Coupled.pure rfl
  | setRoles id roleIds => exact coupled_userBody (UsersService.coupled_setRoles id roleIds)
  | findAllRoles => exact Coupled.gets fun _ _ hs => rolesBody_alike hs.world.db _
  | createRole dto => exact coupled_roleBody (RolesService.coupled_create x.o dto)
  | updateRole id dto => exact coupled_roleBody (RolesService.coupled_update id dto)
  | removeRole id =>
      exact coupled_bind (coupled_onWorld (RolesService.coupled_remove id)) fun _ => Coupled.pure rfl
  | setPermissions id permissionIds =>
      exact coupled_roleBody (RolesService.coupled_setPermissions id permissionIds)
  | findAllPermissions => exact Coupled.gets fun _ _ hs => permissionsBody_alike hs.world.db _
  | createPermission input =>
      exact coupled_bind (coupled_onWorld (PermissionsService.coupled_createPermission x.o input))
        fun _ => Coupled.pure rfl
  | updatePermission id description =>
      exact coupled_bind (coupled_onWorld (PermissionsService.coupled_updatePermission id description))
        fun _ => Coupled.pure rfl
  | removePermission id =>
      exact coupled_bind (coupled_onWorld (PermissionsService.coupled_removePermission id)) fun _ =>
        Coupled.pure rfl

end Handlers

/-! ## Runs

Both deployments follow one schedule: the calls of the two pools stay at the same points, with alike
states. -/

section Runs

/-- Two calls at the same point, for the same account. -/
inductive AlikeCall (ρ : String → String → Prop) : Call → Call → Prop where
  | arrived (request : Request) : AlikeCall ρ (.arrived request) (.arrived request)
  | admitted (request : Request) {actor actor' : Option User}
      (hactor : Option.Rel (Alike ρ) actor actor') :
      AlikeCall ρ (.admitted request actor) (.admitted request actor')
  | answered (response : Except Failure Body) : AlikeCall ρ (.answered response) (.answered response)
  | entry (key : String) : AlikeCall ρ (.entry key) (.entry key)
  | expired : AlikeCall ρ .expired .expired

variable {C : Type} [DecidableEq C] {app : App} {hashPassword : String → String → String}
  {verifyPassword : String → String → Bool} {s s' t : State C} {c : C} {x : Draw}

/-- Two states of the application that differ in hashes only, with every call at the same point. -/
structure AlikeState (ρ : String → String → Prop) (s s' : State C) : Prop where
  shared : AlikeAccounts ρ s.shared s'.shared
  calls  : ∀ c, AlikeCall ρ (s.calls c) (s'.calls c)

omit [DecidableEq C] in
/-- One step of a call, on both sides. -/
theorem exec_alike (hv : SameVerdicts ρ app.env (app.env.withHashing hashPassword verifyPassword))
    {a a' : Accounts}
    {call call' : Call} (ha : AlikeAccounts ρ a a') (hcall : AlikeCall ρ call call') :
    Option.Rel (fun r r' => AlikeAccounts ρ r.1 r'.1 ∧ AlikeCall ρ r.2 r'.2) (exec app c a call x)
      (exec (app.withHashing hashPassword verifyPassword) c a' call' x) := by
  cases hcall with
  | arrived request =>
      have hguarded : Coupled (AlikeAccounts ρ) (Option.Rel (Alike ρ)) (guards app x request)
          (guards (app.withHashing hashPassword verifyPassword) x request) := coupled_guards request
      obtain ⟨hanswer, hshared⟩ := hguarded a a' ha
      simp only [exec]
      cases hguards : guards app x request a with
      | mk r b =>
          cases hguards' : guards (app.withHashing hashPassword verifyPassword) x request a' with
          | mk r' b' =>
              rw [hguards, hguards'] at hanswer hshared
              cases hanswer with
              | ok hactor => exact .some ⟨hshared, .admitted request hactor⟩
              | error e => exact .some ⟨hshared, .answered _⟩
  | admitted request hactor =>
      have hserve : Coupled (AlikeAccounts ρ) (· = ·) (serve app x _ request)
          (serve (app.withHashing hashPassword verifyPassword) x _ request) :=
        coupled_bind (Coupled.throwIf .rfl _) fun _ => coupled_handle hv hactor request.route
      obtain ⟨hanswer, hshared⟩ := hserve a a' ha
      refine .some ⟨hshared, ?_⟩
      rw [hanswer.eq]
      exact .answered _
  | entry key =>
      have hworld : AlikeWorld ρ (dropEntry a key).world (dropEntry a' key).world :=
        { ha.world with cache := by rw [dropEntry, dropEntry, World.wrote, World.wrote, ha.world.cache] }
      exact .some ⟨{ ha with world := hworld }, .expired⟩
  | answered | expired => exact .none

/-- One step of the pool: both sides can make it or neither can. -/
theorem step_alike (hv : SameVerdicts ρ app.env (app.env.withHashing hashPassword verifyPassword))
    (h : AlikeState ρ s s') :
    Option.Rel (AlikeState ρ) (Pool.step (exec app) s c x)
      (Pool.step (exec (app.withHashing hashPassword verifyPassword)) s' c x) := by
  have hexec := exec_alike (c := c) (x := x) hv h.shared (h.calls c)
  unfold Pool.step
  generalize exec app c s.shared (s.calls c) x = o at hexec ⊢
  generalize exec (app.withHashing hashPassword verifyPassword) c s'.shared
    (s'.calls c) x = o' at hexec ⊢
  cases hexec with
  | none => exact .none
  | some hr =>
      refine .some ⟨hr.1, fun d => ?_⟩
      by_cases hd : d = c
      · subst hd
        simpa using hr.2
      · simpa [Function.update_of_ne hd] using h.calls d

/-- **No answer depends on a password hash.** Two deployments that differ in their hashes and in how
    they hash, but agree on which passwords are right, run the same schedule of requests: each request
    is answered alike, and the same mails are queued, the same sessions and reset links stored. -/
theorem hashes_stay_secret
    (hv : SameVerdicts ρ app.env (app.env.withHashing hashPassword verifyPassword))
    (h : AlikeState ρ s s') {schedule : List (C × Draw)}
    (hrun : Pool.replay (exec app) Pool.anyStep s schedule = some t) :
    ∃ t', Pool.replay (exec (app.withHashing hashPassword verifyPassword)) Pool.anyStep
      s' schedule = some t' ∧
      (∀ c response, t.calls c = .answered response ↔ t'.calls c = .answered response) ∧
      t.shared.mailQueue = t'.shared.mailQueue ∧ t.shared.refreshTokens = t'.shared.refreshTokens ∧
      t.shared.resetTokens = t'.shared.resetTokens := by
  have hreplay : ∃ t', Pool.replay (exec (app.withHashing hashPassword verifyPassword))
    Pool.anyStep s' schedule = some t' ∧
      AlikeState ρ t t' := by
    induction schedule generalizing s s' with
    | nil =>
        cases hrun
        exact ⟨s', rfl, h⟩
    | cons cx rest ih =>
        obtain ⟨c, x⟩ := cx
        simp only [Pool.replay, Pool.anyStep] at hrun ⊢
        obtain ⟨v, hstep, hrest⟩ := Option.bind_eq_some_iff.mp hrun
        have hone := step_alike (c := c) (x := x) hv h
        rw [hstep] at hone
        generalize Pool.step (exec (app.withHashing hashPassword verifyPassword)) s' c x = o at hone ⊢
        cases hone with
        | some hv' => exact ih hv' hrest
  obtain ⟨t', hrun', halike⟩ := hreplay
  refine ⟨t', hrun', fun c response => ?_, halike.shared.mailQueue, halike.shared.refreshTokens,
    halike.shared.resetTokens⟩
  have hcall := halike.calls c
  generalize t.calls c = call at hcall ⊢
  generalize t'.calls c = call' at hcall ⊢
  cases hcall with
  | admitted =>
      constructor
      · intro h; cases h
      · intro h; cases h
  | arrived | answered | entry | expired => exact .rfl

/-- The seeded deployment, hashed in another way. The passwords are the same. -/
def salted : Accounts := freshAccounts.putUser { seededAdmin with passwordHash := "salt" ++ "hash" }

def saltedHash (_ password : String) : String := "salt" ++ password

def saltedVerify (hash password : String) : Bool := hash = "salt" ++ password

/-- The call was answered with the body. -/
def Call.returned (body : Body) : Call → Bool
  | .answered (.ok found) => decide (found = body)
  | _                     => false

theorem Call.eq_of_returned {body : Body} {call : Call} (h : call.returned body = true) :
    call = .answered (.ok body) := by
  unfold Call.returned at h
  split at h
  · rw [of_decide_eq_true h]
  · cases h

/-- The administrator logs in, in two deployments with different hashes. -/
theorem hashes_stay_secret_login : ∃ (t t' : State (Fin 1)) (token : String) (user : SafeUser),
    t.calls 0 = .answered (.ok (.session token user)) ∧
      t'.calls 0 = .answered (.ok (.session token user)) ∧
      t.shared.world.db.users.get (seedId 8) ≠ t'.shared.world.db.users.get (seedId 8) := by
  let ρ : String → String → Prop := fun hash hash' => hash' = "salt" ++ hash
  let s : State (Fin 1) := arriving 1 [.plain none (.login ⟨"a@b.co", "hash"⟩)]
  let s' : State (Fin 1) := { s with shared := salted }
  have hv : SameVerdicts ρ toyApp.env (toyApp.env.withHashing saltedHash saltedVerify) := by
    refine ⟨fun {hash hash'} hρ password => ?_, fun _ _ => rfl⟩
    obtain rfl : hash' = "salt" ++ hash := hρ
    simp [toyApp, toyEnv, Env.withHashing, saltedVerify]
  have halike : AlikeState ρ s s' := by
    have hrows' : salted.world.db.users.rows =
      [{ seededAdmin with passwordHash := "salt" ++ "hash" }] := by decide +kernel
    refine ⟨⟨⟨⟨?_, rfl, rfl, rfl, rfl⟩, rfl, rfl⟩, rfl, rfl, rfl⟩, fun c => ?_⟩
    · show List.Forall₂ _ freshAccounts.world.db.users.rows salted.world.db.users.rows
      rw [rows_seededAdmin, hrows']
      exact .cons ⟨rfl, rfl, rfl⟩ .nil
    · obtain rfl : c = 0 := Subsingleton.elim c 0
      exact .arrived _
  have hlogin : (Pool.replay (exec toyApp) Pool.anyStep s [(0, .at 1 uuidA),
    (0, .at 1 uuidA)]).any (fun t =>
      (t.calls 0).returned
        (.session "token" (serializeUser seededAdmin (seededDb.rolesOf (seedId 8)))) &&
        decide (t.shared.world.db.users.get (seedId 8) = some seededAdmin)) = true := by decide +kernel
  have hsalted : (Pool.replay (exec (toyApp.withHashing saltedHash saltedVerify)) Pool.anyStep s'
      [(0, .at 1 uuidA), (0, .at 1 uuidA)]).all (fun t' =>
        decide (t'.shared.world.db.users.get (seedId 8) ≠ some seededAdmin)) = true := by decide +kernel
  obtain ⟨t, hrun, hchecks⟩ := (Option.any_eq_true _ _).mp hlogin
  obtain ⟨hreturned, hrow⟩ := Bool.and_eq_true_iff.mp hchecks
  obtain ⟨t', hrun', hanswers, -⟩ := hashes_stay_secret hv halike hrun
  have hanswer := Call.eq_of_returned hreturned
  refine ⟨t, t', _, _, hanswer, (hanswers 0 _).mp hanswer, ?_⟩
  rw [of_decide_eq_true hrow]
  rw [hrun'] at hsalted
  exact (of_decide_eq_true hsalted).symm

end Runs

end Http

end NestApp
