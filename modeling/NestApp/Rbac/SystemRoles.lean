import NestApp.Rbac.Seed

/-!
# `Rbac.SystemRoles` — what keeps a system role as it was seeded

`assertMutable` guards the three mutators of `RolesService`. A role's permissions can also be reached
from the other side: `removePermission` deletes the row in `permissions`, and the foreign key cascades
to `role_permissions`, whatever roles the permission is attached to
(`remove_permission_empties_system_role`).

`system_roles_immutable`: as long as no permission attached to a system role is removed, every such
role keeps its row and exactly its rules, over every run of the three services.

The services never write a system role, and the only service that reaches one does so through a
cascade, without knowing which roles it empties. So the condition is about the permission that is
removed, not about the role.
-/

namespace NestApp

open Sql

/-- The system roles of `before` are in `after` as they were: the same row, carrying the same rules. -/
def SystemRolesKept (before after : Rbac) : Prop :=
  ∀ r row, before.roles.get r = some row → row.isSystem = true →
    after.roles.get r = some row ∧ ∀ rule, after.Carries r rule ↔ before.Carries r rule

/-- The event does not remove a permission attached to a system role. -/
def Event.sparesSystemRoles (w : World) : Event → Prop
  | .call _ (.removePermission id) =>
      ∀ row ∈ w.db.roles.rows, row.isSystem = true → ¬ w.db.Attached row.id (.cast id)
  | _ => True

variable {env : Env} {o : Choice} {w w' w₀ : World} {request : Request}

/-- A write keeps the system roles outside its reach. -/
theorem SystemRolesKept.change {db₀ db db' : Rbac} {U R : Uuid → Prop} (h : SystemRolesKept db₀ db)
    (hc : Rbac.Change U R db db')
    (hR : ∀ r row, R r → db.roles.get r = some row → row.isSystem = true → False) :
      SystemRolesKept db₀ db' := by
  intro r row hrow hsys
  obtain ⟨hkept, hrules⟩ := h r row hrow hsys
  have hr : ¬ R r := fun hr => hR r row hr hkept hsys
  exact ⟨hc.system hr hkept hsys, fun rule => (hc.carries hr rule).trans (hrules rule)⟩

/-- **One call keeps them**, unless it removes one of their permissions. -/
theorem Outcome.systemRolesKept {db₀ : Rbac} (hout : Outcome o w request w')
    (h : SystemRolesKept db₀ w.db)
    (hspare : (Event.call o request).sparesSystemRoles w) : SystemRolesKept db₀ w'.db := by
  cases hout with
  | unchanged => exact h
  | hit userId => exact h
  | loaded userId => exact h
  | userCreated _ change => exact h.change change fun _ _ hr => hr.elim
  | rolesSet _ _ _ change => exact h.change change fun _ _ hr => hr.elim
  | wrote R db' keys change _ system =>
      refine h.change change fun r row hr hrow hsys => ?_
      -- only `removePermission` reaches a system role, and the condition excludes it
      obtain ⟨id, rfl, hatt⟩ := system r row hr hrow hsys
      have hid : row.id = r := Table.get_key hrow
      exact hspare row (Table.get_mem hrow) hsys (hid ▸ hatt)

/-- **System roles are immutable**: over every run in which no permission attached to a system role is
    removed, the system roles of the first state keep their rows and carry exactly the rules they
    carried. -/
theorem system_roles_immutable (h : Reaches env (fun w e => e.sparesSystemRoles w) w₀ w) :
    SystemRolesKept w₀.db w.db :=
  h.invariant (fun _ _ hrow _ => ⟨hrow, fun _ => .rfl⟩)
    (fun hI hok hout => hout.systemRolesKept hI hok) fun hI => hI

/-! ## Runs

Two removals in the seeded deployment, of a permission a system role carries and of one that only an
ordinary role could carry. -/

instance (w : World) (e : Event) : Decidable (e.sparesSystemRoles w) := by
  unfold Event.sparesSystemRoles Rbac.Attached
  split <;> infer_instance

/-- **The cascade reaches a system role**: removing `read:User` from a seeded database takes it from the
    role `user`. -/
theorem remove_permission_empties_system_role : ∃ w : World,
    Reaches toyEnv (fun _ _ => True) seededWorld w ∧ ¬ SystemRolesKept seededWorld.db w.db := by
  have hrun := reaches_events toyEnv (fun _ _ => True) seededWorld
    [.plain (.removePermission (seedId 4).text)]
    (by decide +kernel)
  refine ⟨_, hrun, fun h => ?_⟩
  obtain ⟨-, hrules⟩ :=
    h (seedId 7) ⟨seedId 7, "user", some "Default registered user", true⟩ (by decide +kernel) rfl
  exact absurd ((hrules ⟨.read, .user⟩).mpr (by decide +kernel)) (by decide +kernel)

/-- A permission created through the API can be removed: the system roles stay. -/
theorem system_roles_immutable_removal : ∃ w : World,
    Reaches toyEnv (fun w e => e.sparesSystemRoles w) seededWorld w ∧
      SystemRolesKept seededWorld.db w.db := by
  have hrun := reaches_events toyEnv (fun w e => e.sparesSystemRoles w) seededWorld
    [.plain (.createPermission ⟨.create, .notification, none⟩), .plain (.removePermission uuidA.text),
      .plain (.removeRole (seedId 7).text), .plain (.setPermissions (seedId 7).text [])]
        (by decide +kernel)
  exact ⟨_, hrun, system_roles_immutable hrun⟩

end NestApp
