import Mathlib.Logic.Relation
import NestApp.Rbac.Services

/-!
# `Rbac.Outcome` — what one call of the services can do

`Outcome o w request` is the set of worlds in which `request`, run alone from `w`, can end — by
returning or by throwing. Each service has one lemma that places its triple in it; the properties of
whole runs read `Outcome` only. A write is recorded with the keys deleted after it and with what it can
change (`Rbac.Change`).
-/

namespace NestApp

open Sql Prog

/-! ## Requests and runs

A run is a sequence of events: a call from start to end, or an entry that expires. Overlapping calls
are the subject of `Rbac.Recache` and `Rbac.Staleness`. -/

/-- A call of one of the three services, with its arguments as the controller hands them on. -/
inductive Request where
  | getPermissionRulesForUser (userId : String)
  | register (dto : RegisterDto)
  | createUser (dto : CreateUserDto)
  | updateUser (id : String) (dto : UpdateUserDto) (actingUserId : Option String)
  | softDelete (id : String) (actingUserId : Option String)
  | setRoles (userId : String) (roleIds : List String)
  | createRole (dto : CreateRoleDto)
  | updateRole (id : String) (dto : UpdateRoleDto)
  | removeRole (id : String)
  | setPermissions (id : String) (permissionIds : List String)
  | createPermission (input : CreatePermissionInput)
  | updatePermission (id : String) (description : Option String)
  | removePermission (id : String)

/-- The world a request leaves. -/
def Request.run (env : Env) (o : Choice) (w : World) : Request → World
  | .getPermissionRulesForUser userId      => (PermissionsService.getPermissionRulesForUser userId w).2
  | .register dto                          => (UsersService.register env o dto w).2
  | .createUser dto                        => (UsersService.create env o dto w).2
  | .updateUser id dto actingUserId        => (UsersService.update o id dto actingUserId w).2
  | .softDelete id actingUserId            => (UsersService.softDelete o id actingUserId w).2
  | .setRoles userId roleIds               => (UsersService.setRoles userId roleIds w).2
  | .createRole dto                        => (RolesService.create o dto w).2
  | .updateRole id dto                     => (RolesService.update id dto w).2
  | .removeRole id                         => (RolesService.remove id w).2
  | .setPermissions id permissionIds       => (RolesService.setPermissions id permissionIds w).2
  | .createPermission input                => (PermissionsService.createPermission o input w).2
  | .updatePermission id description       => (PermissionsService.updatePermission id description w).2
  | .removePermission id                   => (PermissionsService.removePermission id w).2

/-- The requests that insert a user. -/
def Request.createsUser : Request → Bool
  | .register _ | .createUser _ => true
  | _                           => false

/-- What happens between two states: a call, from start to end, or the expiry of a cache entry. -/
inductive Event where
  | call (o : Choice) (request : Request)
  | expire (key : String)

/-- The tables are now `db`, and the keys are deleted from the cache. -/
def World.wrote (w : World) (db : Rbac) (keys : List String) : World :=
  ⟨db, fun key => if key ∈ keys then none else w.cache key, w.asked⟩

def World.next (env : Env) (w : World) : Event → World
  | .call o request => request.run env o w
  | .expire key     => w.wrote w.db [key]

/-- The states reached from `w` by events that satisfy `ok` where they happen. -/
def Reaches (env : Env) (ok : World → Event → Prop) : World → World → Prop :=
  Relation.ReflTransGen fun w w' => ∃ e, ok w e ∧ w.next env e = w'

/-! ## Outcomes

Everything a call can do to the world, in a form that says what a property needs: which rows of which
kind were written, whose entries were deleted, and whose rights may have changed. -/

/-- **What one call can do**: nothing; look the rules of a user up, in the cache or in the tables;
    insert a user with roles; replace the roles of a user; or make a write that takes rights from the
    holders of some roles `R` only, deleting the cache entries of all of them. Only `removePermission`
    reaches a system role. -/
inductive Outcome (o : Choice) (w : World) : Request → World → Prop where
  | unchanged {request} : Outcome o w request w
  | hit (userId : String) :
      Outcome o w (.getPermissionRulesForUser userId) { w with asked := .cast userId :: w.asked }
  | loaded (userId : String) : Outcome o w (.getPermissionRulesForUser userId)
      { w with
        asked := .cast userId :: w.asked
        cache := Function.update w.cache (PermissionsService.cacheKey userId)
          (some (w.db.loadPermissionRules (.cast userId))) }
  | userCreated {request} {db' : Rbac} (creates : request.createsUser)
      (change : Rbac.Change (· = o.id) Rbac.Nobody w.db db') : Outcome o w request { w with db := db' }
  | rolesSet (userId : String) (roleIds : List String) (db' : Rbac)
      (change : Rbac.Change (· = .cast userId) Rbac.Nobody w.db db') :
      Outcome o w (.setRoles userId roleIds) (w.wrote db' [PermissionsService.cacheKey userId])
  | wrote {request} (R : Uuid → Prop) (db' : Rbac) (keys : List String)
      (change : Rbac.Change Rbac.Nobody R w.db db')
      (invalidated : ∀ r u, R r → w.db.HasRole u r → PermissionsService.cacheKey u.text ∈ keys)
      (system : ∀ r row, R r → w.db.roles.get r = some row → row.isSystem = true →
        ∃ id, request = .removePermission id ∧ w.db.Attached r (.cast id)) :
      Outcome o w request (w.wrote db' keys)

variable {env : Env} {o : Choice} {w : World} {request : Request}

theorem wrote_nil (db : Rbac) : w.wrote db [] = { w with db := db } := by
  simp [World.wrote]

/-- A write that changes nobody's rights. -/
theorem Outcome.rows {db' : Rbac} (change : Rbac.Change Rbac.Nobody Rbac.Nobody w.db db')
    (keys : List String) :
    Outcome o w request (w.wrote db' keys) :=
  .wrote Rbac.Nobody db' keys change (fun _ _ h => h.elim) fun _ _ h => h.elim

/-- The same, with no key deleted. -/
theorem Outcome.rows' {db' : Rbac} (change : Rbac.Change Rbac.Nobody Rbac.Nobody w.db db') :
    Outcome o w request { w with db := db' } :=
  wrote_nil (w := w) db' ▸ Outcome.rows change []

/-! ## The shared helpers

A save, a transaction and `replaceJoinRows`, each with its triple. The services below are put together
from these. -/

section Helpers

variable {α : Type} {Q : α → World → Prop} {E : World → Prop}

theorem save_spec {f : Rbac → Option Rbac} {e : Failure} {Q : Unit → World → Prop} (hn : E w)
    (hs : ∀ db, f w.db = some db → Q () { w with db := db }) : Triple (· = w) (save f e) Q E :=
  Triple.gets_single (Triple.orThrow_single hn fun db hdb => Triple.modify fun _ hw => hw ▸ hs db hdb)

theorem save_single {f : Rbac → Option Rbac} {e : Failure} {k : Unit → Service α} (hn : E w)
    (hs : ∀ db, f w.db = some db → Triple (· = { w with db := db }) (k ()) Q E) :
    Triple (· = w) (save f e >>= k) Q E :=
  Triple.bind (Q := fun _ w' => ∃ db, f w.db = some db ∧ w' = { w with db := db })
    (save_spec hn fun db hdb => ⟨db, hdb, rfl⟩) fun _ => Triple.of_single fun _ ⟨db, hdb, hw⟩ =>
      hw ▸ hs db hdb

theorem save_ok {f : Rbac → Option Rbac} {e : Failure} {db : Rbac} (h : f w.db = some db) :
    save f e w = (.ok (), { w with db := db }) := by
  show (orThrow (f w.db) e >>= _) w = _
  rw [h, orThrow_bind_some]
  rfl

theorem save_error {f : Rbac → Option Rbac} {e : Failure} (h : f w.db = none) :
    save f e w = (.error e, w) := by
  show (orThrow (f w.db) e >>= _) w = _
  rw [h, orThrow_bind_none]

theorem transaction_commits {body : Service α} {a : α} {w' : World} (h : body w = (.ok a, w')) :
    transaction body w = (.ok a, w') := Prog.transaction_ok h

theorem transaction_rolls_back {body : Service α} {e : Failure} {w' : World}
    (h : body w = (.error e, w')) :
    transaction body w = (.error e, { w' with db := w.db }) := Prog.transaction_error h

/-- A transaction either makes the changes of its body, or none. -/
theorem transaction_spec {body : Service α}
    (h : Triple (· = w) body Q fun w' => w'.cache = w.cache ∧ w'.asked = w.asked) :
    Triple (· = w) (transaction body) Q (· = w) := by
  refine Triple.transaction w h ?_
  rintro ⟨db', cache', asked'⟩ ⟨rfl, rfl⟩
  rfl

/-- What leaves the world alone when it throws ends, by throwing, in an outcome of any request. -/
theorem throws_unchanged {body : Service α} (h : Triple (· = w) body Q (· = w)) :
    Triple (· = w) body Q (Outcome o w request) := by
  refine Triple.conseq h (fun _ hw => hw) (fun _ _ hq => hq) ?_
  rintro _ rfl
  exact .unchanged

/-- `replaceJoinRows` makes the changes of its `DELETE` and of its `INSERT`s, whatever can be said of
    these in sequence. -/
theorem replaceJoinRows_spec (C : Rbac → Rbac → Prop) {referenced : Rbac → List Uuid}
    {delete : Rbac → Rbac}
    {insert : Rbac → Uuid → Option Rbac} {ids : List String} {label : String}
    (hdelete : ∀ db, C db (delete db)) (hinsert : ∀ {db id db'}, insert db id = some db' → C db db')
    (htrans : ∀ {db db' db''}, C db db' → C db' db'' → C db db'') :
    Triple (· = w) (replaceJoinRows referenced delete insert ids label)
      (fun _ w' => ∃ db', C w.db db' ∧ w' = { w with db := db' })
      fun w' => w'.cache = w.cache ∧ w'.asked = w.asked := by
  have hall : ∀ (l : List Uuid) {db db' db'' : Rbac}, C db db' → l.foldlM insert db' = some db'' →
    C db db'' := by
    intro l
    -- the rows are saved one after the other; a failed one ends the fold
    induction l with
    | nil =>
        intro db db' db'' hC h
        cases h
        exact hC
    | cons id l ih =>
        intro db db' db'' hC h
        obtain ⟨db₁, hone, hrest⟩ := Option.bind_eq_some_iff.mp ((List.foldlM_cons ..).symm.trans h)
        exact ih (htrans hC (hinsert hone)) hrest
  refine Triple.gets_single (Triple.throwIf_single ⟨rfl, rfl⟩ fun _ => Triple.modify_single ?_)
  exact save_spec ⟨rfl, rfl⟩ fun db hdb => ⟨db, hall _ (hdelete w.db) hdb, rfl⟩

end Helpers

/-! ## `PermissionsService`

A lookup writes one entry; the mutators write one permission, and a removal deletes entries behind it. -/

namespace PermissionsService

theorem getPermissionRulesForUser_outcome (userId : String) :
    Triple (· = w) (getPermissionRulesForUser userId)
      (fun _ => Outcome o w (.getPermissionRulesForUser userId))
      (Outcome o w (.getPermissionRulesForUser userId)) := by
  refine Triple.modify_single (Triple.gets_single ?_)
  cases w.cache (cacheKey userId) with
  | some rules => exact Triple.pure_single (.hit userId)
  | none => exact Triple.gets_single (Triple.modify_single (Triple.pure_single (.loaded userId)))

theorem assertUniquePermission_spec {action : PermissionAction} {subject : PermissionSubject}
    {E : World → Prop}
    (hE : E w) : Triple (· = w) (assertUniquePermission action subject) (fun _ => (· = w)) E :=
  Triple.gets_single (Triple.throwIf_last hE fun _ => rfl)

theorem createPermission_outcome (input : CreatePermissionInput) :
    Triple (· = w) (createPermission o input) (fun _ => Outcome o w (.createPermission input))
      (Outcome o w (.createPermission input)) := by
  refine Triple.bind (assertUniquePermission_spec .unchanged) fun _ =>
    Triple.bind (Triple.mapError (save_spec .unchanged fun db' hdb => ?_)) fun _ =>
      Triple.pure fun _ h => h
  exact .rows' (Rbac.change_insertPermission hdb)

theorem updatePermission_outcome (id : String) (description : Option String) :
    Triple (· = w) (updatePermission id description)
      (fun _ => Outcome o w (.updatePermission id description))
      (Outcome o w (.updatePermission id description)) := by
  refine Triple.gets_single (Triple.orThrow_single .unchanged fun old hold => Triple.modify_single ?_)
  refine Triple.pure_single (.rows' (Rbac.change_putPermission fun old' hold' => ?_))
  -- the row written is the row read, with another description
  have hid : old.id = .cast id := Table.get_key hold
  obtain rfl : old = old' := Option.some.inj (hold.symm.trans (hid ▸ hold'))
  rfl

theorem removePermission_outcome (id : String) :
    Triple (· = w) (removePermission id) (fun _ => Outcome o w (.removePermission id))
      (Outcome o w (.removePermission id)) := by
  refine Triple.gets_single (Triple.orThrow_single .unchanged fun row _ => Triple.gets_single ?_)
  refine Triple.modify_single (Triple.modify fun _ hw => hw ▸ ?_)
  -- the write reaches the roles that have the permission, and the holders found are theirs
  refine .wrote (w.db.Attached · (.cast id)) _ _ Rbac.change_deletePermission (fun r u hatt hrole => ?_)
    fun r row hatt _ _ => ⟨id, rfl, hatt⟩
  exact List.mem_map.mpr ⟨u, Rbac.mem_findUserIdsWithPermission.mpr ⟨r, hrole, hatt⟩, rfl⟩

end PermissionsService

/-! ## `RolesService`

A call that changes a role starts with `getOrThrow` and `assertMutable`, so what it writes is no system
role; nor is a new one. -/

namespace RolesService

theorem getOrThrow_spec {id : String} {E : World → Prop} (hE : E w) : Triple (· = w) (getOrThrow id)
    (fun role w' => w' = w ∧ w.db.roles.get (.cast id) = some role) E :=
  Triple.gets_single (Triple.orThrow_last hE fun _ h => ⟨rfl, h⟩)

/-- A role that may be changed is in the table, and is no system role. -/
theorem mutable_spec {id action : String} {α : Type} {Q : α → World → Prop} {E : World → Prop}
    {f : Role → Service α}
    (hE : E w) (hf : ∀ role, w.db.roles.get (.cast id) = some role → role.isSystem = false →
      Triple (· = w) (f role) Q E) :
    Triple (· = w)
      (do
        let role ← getOrThrow id
        assertMutable role action
        f role) Q E := by
  refine Triple.bind (getOrThrow_spec hE) fun role => Triple.of_single fun w' ⟨hw, hrole⟩ => ?_
  subst hw
  exact Triple.throwIf_single hE fun h => hf role hrole (by simpa using h)

/-- Nothing else happens in `getOrThrow`, at the end of a service. -/
theorem getOrThrow_last {id : String} {E : World → Prop} (hE : E w) :
    Triple (· = w) (getOrThrow id) (fun _ => E) E :=
  Triple.conseq (getOrThrow_spec hE) (fun _ h => h) (fun _ _ h => h.1 ▸ hE) fun _ h => h

theorem create_outcome (dto : CreateRoleDto) :
    Triple (· = w) (create o dto) (fun _ => Outcome o w (.createRole dto))
      (Outcome o w (.createRole dto)) := by
  refine Triple.gets_single (Triple.throwIf_single .unchanged fun _ =>
    Triple.bind (Triple.mapError (save_spec .unchanged fun db' hdb => ?_)) fun _ =>
      Triple.of_single fun w' hw' => getOrThrow_last hw')
  exact .rows' (Rbac.change_insertRole hdb)

/-- Renaming and describing a role keep its id. -/
theorem rename_spec {role : Role} {name : Option (Option String)} {E : World → Prop} (hE : E w) :
    Triple (· = w) (rename role name) (fun renamed w' => w' = w ∧ renamed.id = role.id) E := by
  cases name with
  | none => exact Triple.pure_single ⟨rfl, rfl⟩
  | some name =>
      cases name with
      | none => exact Triple.throw_single hE
      | some name =>
          simp only [rename]
          split
          · exact Triple.pure_single ⟨rfl, rfl⟩
          · exact Triple.gets_single (Triple.throwIf_single hE fun _ => Triple.pure_single ⟨rfl, rfl⟩)

@[simp] theorem describe_id (role : Role) (description : Option (Option String)) :
    (describe role description).id = role.id := by
  cases description <;> rfl

theorem update_outcome (id : String) (dto : UpdateRoleDto) :
    Triple (· = w) (update id dto) (fun _ => Outcome o w (.updateRole id dto))
      (Outcome o w (.updateRole id dto)) := by
  refine mutable_spec .unchanged fun role hrole hsys => ?_
  refine Triple.bind (rename_spec .unchanged) fun renamed => Triple.of_single fun w' ⟨hw, hid⟩ => ?_
  subst hw
  refine Triple.bind (Triple.mapError (save_spec .unchanged fun db' hdb => ?_)) fun _ =>
    Triple.of_single fun w' hw' => getOrThrow_last hw'
  -- the row overwritten is the one `assertMutable` has checked
  refine .rows' (Rbac.change_updateRole hdb fun old hold => ?_)
  rw [describe_id, hid, show role.id = .cast id from Table.get_key hrole, hrole] at hold
  exact Option.some.inj hold ▸ hsys

theorem remove_outcome (id : String) :
    Triple (· = w) (remove id) (fun _ => Outcome o w (.removeRole id))
      (Outcome o w (.removeRole id)) := by
  refine mutable_spec .unchanged fun role hrole hsys => ?_
  refine Triple.gets_single (Triple.modify_single (Triple.modify fun _ hw => hw ▸ ?_))
  refine .wrote (· = .cast id) _ _ Rbac.change_deleteRole ?_ ?_
  · rintro r u rfl hhas
    exact List.mem_map.mpr ⟨u, Rbac.mem_findUserIdsWithRole.mpr hhas, rfl⟩
  · rintro r row rfl hrow hsys'
    rw [hrole] at hrow
    exact absurd (hsys.symm.trans (Option.some.inj hrow ▸ hsys')) Bool.false_ne_true

/-- The transaction changes what the role carries; it writes no row of `user_roles`. -/
theorem replacePermissions_spec (roleId : Uuid) (permissionIds : List String) :
    Triple (· = w) (replacePermissions roleId permissionIds)
      (fun _ w' => ∃ db', (Rbac.Change Rbac.Nobody (· = roleId) w.db db' ∧
        db'.userRoles = w.db.userRoles) ∧
        w' = { w with db := db' })
      (· = w) :=
  transaction_spec (replaceJoinRows_spec
    (fun db db' => Rbac.Change Rbac.Nobody (· = roleId) db db' ∧ db'.userRoles = db.userRoles)
    (fun _ => ⟨Rbac.change_deleteRolePermissions, rfl⟩)
    (fun h => ⟨Rbac.change_insertRolePermission h, Rbac.userRoles_insertRolePermission h⟩)
    fun h h' => ⟨h.1.trans h'.1, h'.2.trans h.2⟩)

theorem setPermissions_outcome (id : String) (permissionIds : List String) :
    Triple (· = w) (setPermissions id permissionIds)
      (fun _ => Outcome o w (.setPermissions id permissionIds))
      (Outcome o w (.setPermissions id permissionIds)) := by
  refine mutable_spec .unchanged fun role hrole hsys => ?_
  have htx := replacePermissions_spec (w := w) role.id permissionIds
  refine Triple.bind (throws_unchanged htx) fun _ =>
    Triple.of_single fun w' ⟨db', ⟨hchange, hroles⟩, hw'⟩ => ?_
  subst hw'
  have hid : role.id = .cast id := Table.get_key hrole
  refine Triple.gets_single
    (Triple.modify_single (getOrThrow_last (.wrote (· = role.id) db' _ hchange ?_ ?_)))
  · -- the holders looked up after the write are those of before it: `user_roles` was not written
    rintro r u rfl hhas
    exact List.mem_map.mpr ⟨u, Rbac.mem_findUserIdsWithRole.mpr (by rwa [Rbac.HasRole, hroles]), rfl⟩
  · rintro r row rfl hrow hsys'
    rw [hid, hrole] at hrow
    exact absurd (hsys.symm.trans (Option.some.inj hrow ▸ hsys')) Bool.false_ne_true

end RolesService

/-! ## `UsersService`

Creating a user changes the rights of a user nobody has asked for yet; `setRoles` those of one user,
whose entry it deletes under the key it was given. -/

namespace UsersService

theorem findWithRolesOrFail_spec {id : String} {E : World → Prop} (hE : E w) :
    Triple (· = w) (findWithRolesOrFail id)
    (fun user w' => w' = w ∧ w.db.users.get (.cast id) = some user) E :=
  Triple.gets_single (Triple.orThrow_last hE fun _ h => ⟨rfl, (Option.filter_eq_some_iff.mp h).1⟩)

theorem findWithRolesOrFail_last {id : String} {E : World → Prop} (hE : E w) :
    Triple (· = w) (findWithRolesOrFail id) (fun _ => E) E :=
  Triple.conseq (findWithRolesOrFail_spec hE) (fun _ h => h) (fun _ _ h => h.1 ▸ hE) fun _ h => h

theorem assignRoles_spec (userId : String) (roleIds : List String) :
    Triple (· = w) (assignRoles userId roleIds)
      (fun _ w' => ∃ db', Rbac.Change (· = .cast userId) Rbac.Nobody w.db db' ∧
        w' = { w with db := db' })
      fun w' => w'.cache = w.cache ∧ w'.asked = w.asked :=
  replaceJoinRows_spec (Rbac.Change (· = .cast userId) Rbac.Nobody)
    (fun _ => Rbac.change_deleteUserRoles)
    Rbac.change_insertUserRole .trans

theorem assignFirstRoles_spec (userId : Uuid) (roleIds : List String) :
    Triple (· = w) (assignFirstRoles userId roleIds)
      (fun _ w' => ∃ db', Rbac.Change (· = userId) Rbac.Nobody w.db db' ∧ w' = { w with db := db' })
      fun w' => w'.cache = w.cache ∧ w'.asked = w.asked := by
  unfold assignFirstRoles
  split
  · simpa using assignRoles_spec (w := w) userId.text roleIds
  · exact Triple.gets_single (Triple.orThrow_single ⟨rfl, rfl⟩ fun role _ =>
      save_spec ⟨rfl, rfl⟩ fun db' hdb => ⟨db', Rbac.change_insertUserRole hdb, rfl⟩)

theorem createUserInTransaction_spec (env : Env) (row : User) (roleIds : List String) :
    Triple (· = w) (createUserInTransaction env row roleIds)
      (fun user w' => user = row ∧ ∃ db', Rbac.Change (· = row.id) Rbac.Nobody w.db db' ∧
        w' = { w with db := db' })
      (· = w) := by
  refine transaction_spec (save_single ⟨rfl, rfl⟩ fun db hdb => ?_)
  refine Triple.bind (assignFirstRoles_spec row.id roleIds) fun _ =>
    Triple.pure fun w' ⟨db', hchange, hw'⟩ => ⟨rfl, db', ?_, hw'⟩
  -- the new user has no roles yet; those assigned next are the only change
  have hinsert : Rbac.Change (· = row.id) Rbac.Nobody w.db db :=
    (Rbac.insertUser_some hdb).2 ▸ (Rbac.change_putUser row).mono (fun _ h => h.elim) fun _ h => h
  exact hinsert.trans hchange

/-- Both requests that create a user run this transaction. -/
theorem createUserInTransaction_outcome (env : Env) (dto : RegisterDto) (roleIds : List String)
    (hcreates : request.createsUser) :
    Triple (· = w) (createUserInTransaction env (Session.newUser env o dto) roleIds)
      (fun _ => Outcome o w request)
      (Outcome o w request) := by
  refine Triple.conseq (throws_unchanged (createUserInTransaction_spec env _ roleIds))
    (fun _ h => h) ?_ fun _ h => h
  rintro user _ ⟨-, db', hchange, rfl⟩
  exact .userCreated hcreates hchange

theorem create_outcome (dto : CreateUserDto) :
    Triple (· = w) (create env o dto) (fun _ => Outcome o w (.createUser dto))
      (Outcome o w (.createUser dto)) := by
  refine Triple.gets_single (Triple.throwIf_single .unchanged fun _ => ?_)
  refine Triple.bind (Triple.mapError (createUserInTransaction_outcome env _ _ rfl)) fun user => ?_
  exact Triple.of_single fun w' hw' => findWithRolesOrFail_last hw'

theorem register_outcome (dto : RegisterDto) :
    Triple (· = w) (register env o dto) (fun _ => Outcome o w (.register dto))
      (Outcome o w (.register dto)) := by
  refine Triple.gets_single (Triple.throwIf_single .unchanged fun _ => ?_)
  exact Triple.mapError (createUserInTransaction_outcome env dto [] rfl)

theorem update_outcome (id : String) (dto : UpdateUserDto) (actingUserId : Option String) :
    Triple (· = w) (update o id dto actingUserId)
      (fun _ => Outcome o w (.updateUser id dto actingUserId))
      (Outcome o w (.updateUser id dto actingUserId)) := by
  refine Triple.throwIf_single .unchanged fun _ =>
    Triple.bind (findWithRolesOrFail_spec .unchanged) fun row =>
    Triple.of_single fun w' ⟨hw, _⟩ => ?_
  subst hw
  refine Triple.orThrow_single .unchanged fun user _ => Triple.modify_single ?_
  exact findWithRolesOrFail_last (.rows' (Rbac.change_putUser _))

theorem setRoles_outcome (userId : String) (roleIds : List String) :
    Triple (· = w) (setRoles userId roleIds) (fun _ => Outcome o w (.setRoles userId roleIds))
      (Outcome o w (.setRoles userId roleIds)) := by
  have htx := transaction_spec (assignRoles_spec (w := w) userId roleIds)
  refine Triple.bind (throws_unchanged htx) fun _ => Triple.of_single fun w' ⟨db', hchange, hw'⟩ => ?_
  subst hw'
  exact Triple.modify_single (findWithRolesOrFail_last (.rolesSet userId roleIds db' hchange))

theorem softDelete_outcome (id : String) (actingUserId : Option String) :
    Triple (· = w) (softDelete o id actingUserId) (fun _ => Outcome o w (.softDelete id actingUserId))
      (Outcome o w (.softDelete id actingUserId)) := by
  refine Triple.throwIf_single .unchanged fun _ =>
    Triple.bind (findWithRolesOrFail_spec .unchanged) fun row =>
    Triple.of_single fun w' ⟨hw, _⟩ => ?_
  subst hw
  have htx : Triple (· = w')
      (transaction (modify fun w => { w with db := w.db.putUser (SoftDelete.withDeletedAt o.now row) }))
      (fun _ => (· = { w' with db := w'.db.putUser (SoftDelete.withDeletedAt o.now row) })) (· = w') :=
    transaction_spec (Triple.modify fun _ h => h ▸ rfl)
  refine Triple.bind (throws_unchanged htx) fun _ => Triple.modify fun _ h => ?_
  subst h
  -- the rights of a deleted account stay in the tables, and its cache entry is dropped
  exact .rows (Rbac.change_putUser _) _

end UsersService

/-! ## Every request

The lemma the modules on whole runs begin with. -/

/-- **One call**, whatever its arguments, ends in one of its outcomes. -/
theorem outcome_run (env : Env) (o : Choice) (w : World) (request : Request) :
    Outcome o w request (request.run env o w) := by
  cases request with
  | getPermissionRulesForUser userId =>
      exact (PermissionsService.getPermissionRulesForUser_outcome userId).final rfl
  | register dto => exact (UsersService.register_outcome dto).final rfl
  | createUser dto => exact (UsersService.create_outcome dto).final rfl
  | updateUser id dto actingUserId => exact (UsersService.update_outcome id dto actingUserId).final rfl
  | softDelete id actingUserId => exact (UsersService.softDelete_outcome id actingUserId).final rfl
  | setRoles userId roleIds => exact (UsersService.setRoles_outcome userId roleIds).final rfl
  | createRole dto => exact (RolesService.create_outcome dto).final rfl
  | updateRole id dto => exact (RolesService.update_outcome id dto).final rfl
  | removeRole id => exact (RolesService.remove_outcome id).final rfl
  | setPermissions id permissionIds =>
      exact (RolesService.setPermissions_outcome id permissionIds).final rfl
  | createPermission input => exact (PermissionsService.createPermission_outcome input).final rfl
  | updatePermission id description =>
      exact (PermissionsService.updatePermission_outcome id description).final rfl
  | removePermission id => exact (PermissionsService.removePermission_outcome id).final rfl

/-- The invariants of a run: those that every event allowed by `ok` keeps. -/
theorem Reaches.invariant {ok : World → Event → Prop} {I : World → Prop} {w₀ : World}
    (h : Reaches env ok w₀ w)
    (hstart : I w₀) (hcall : ∀ {w w' o request}, I w → ok w (.call o request) →
      Outcome o w request w' → I w')
    (hexpire : ∀ {w key}, I w → I (w.wrote w.db [key])) : I w := by
  induction h with
  | refl => exact hstart
  | tail _ hstep ih =>
      obtain ⟨e, hok, rfl⟩ := hstep
      cases e with
      | call o request => exact hcall ih hok (outcome_run env o _ request)
      | expire key => exact hexpire ih

/-! ## Given runs -/

/-- Every event of the list satisfies `ok` where it happens. -/
def allowedRun (env : Env) (ok : World → Event → Prop) [∀ w e, Decidable (ok w e)] :
    World → List Event → Bool
  | _, []          => true
  | w, e :: events => decide (ok w e) && allowedRun env ok (w.next env e) events

theorem reaches_events (env : Env) (ok : World → Event → Prop) [∀ w e, Decidable (ok w e)] (w : World)
    (events : List Event) (h : allowedRun env ok w events = true) :
      Reaches env ok w (events.foldl (World.next env) w) := by
  induction events generalizing w with
  | nil => exact .refl
  | cons e events ih =>
      obtain ⟨hok, hrest⟩ := (Bool.and_eq_true _ _ ▸ h : decide (ok w e) = true ∧ _)
      exact .head ⟨e, of_decide_eq_true hok, rfl⟩ (ih _ hrest)

end NestApp
