import NestApp.Lib.Deadlock
import NestApp.Rbac.JoinRows

/-!
# `Rbac.RoleLocks` — `setRoles` and `roles.remove`, with the locks of the foreign keys

`setRoles` is `replaceJoinRows` (`Rbac.JoinRows`) over `user_roles`, and the rows it inserts are
checked against `roles` at the end of the `INSERT`: the role is locked against deletion, up to the
commit. `remove` deletes the row of the role; the cascades then delete its rows in `role_permissions`
and in `user_roles`, in the same transaction.

The two take their locks in opposite orders: `setRoles` has deleted the row of the user and the role
when it needs the role, `remove` has the role when it needs that row. `UPDATE`s and `DELETE`s reach
their rows in any order, so a removal and a `setRoles` that keeps away from the role can still meet in
a circle of four.

`AccessInvariant` says what the lock order needs of a state, and `AccessInvariant.rank_lt` derives the
order. It holds in every run in which no two `setRoles` of one user overlap, no `setRoles` that asks
for a role overlaps its removal, and the rows of `user_roles` are deleted in one common order
(`accessLockOrder`).
-/

namespace NestApp

open Sql JoinRows

namespace RoleLocks

variable {C : Type}

/-- `roles` and the join tables, with the locks of the transactions in flight. -/
structure Tables (C : Type) where
  roles           : Table Role
  /-- the transaction that deletes the role -/
  deleting        : Uuid → Option C
  /-- the transactions that have inserted a row with this role -/
  sharing         : Uuid → List C
  userRoles       : Heap JoinRow C
  rolePermissions : Heap JoinRow C

namespace Tables

variable [DecidableEq C]

/-- `COMMIT` of transaction `c`. -/
def commit (t : Tables C) (c : C) : Tables C where
  roles           := t.roles.filter fun r => t.deleting r.id ≠ some c
  deleting id     := if t.deleting id = some c then none else t.deleting id
  sharing id      := (t.sharing id).filter fun d => d ≠ c
  userRoles       := t.userRoles.commit c
  rolePermissions := t.rolePermissions.commit c

/-- `ROLLBACK` of transaction `c`. -/
def rollback (t : Tables C) (c : C) : Tables C where
  roles           := t.roles
  deleting id     := if t.deleting id = some c then none else t.deleting id
  sharing id      := (t.sharing id).filter fun d => d ≠ c
  userRoles       := t.userRoles.rollback c
  rolePermissions := t.rolePermissions.rollback c

end Tables

/-- The references of the rows a transaction has inserted. -/
def insertedBy [DecidableEq C] (heap : Heap JoinRow C) (c : C) : List Uuid :=
  (heap.versions.rows.filter fun v => v.inserting = some c).map fun v => v.row.ref

def ofRef (ref : Uuid) (row : JoinRow) : Bool := row.ref = ref

/-! ## `setRoles`

Validation, `DELETE` over the rows of the user, `INSERT` of the rows asked for, and then the foreign
keys, which lock user and role for as long as the transaction lasts. Nothing locks the user in front of
this. -/

/-- The points of `setRoles` between two statements. -/
inductive SetRoles where
  | replace (pc : JoinRows.Pc)
  /-- the `INSERT` still has to check the references `todo` -/
  | check (owner : Uuid) (ids : List String) (todo : List Uuid)

/-- One step; `known` is whether `users` has a row for the owner. -/
def SetRoles.step [DecidableEq C] (c : C) (t : Tables C) (tid : Nat) (known : Bool) :
    SetRoles → Option (Tables C × SetRoles)
  | .replace (.insert owner ids []) => some (t, .check owner ids (insertedBy t.userRoles c))
  | .replace pc =>
      (JoinRows.step (t.roles.rows.map Role.id) "role" c t.userRoles tid pc).map fun r =>
        ({ t with userRoles := r.1 }, .replace r.2)
  | .check owner ids [] => some (t.commit c, .replace (.done owner ids))
  | .check owner ids (ref :: rest) =>
      -- nobody deletes a row of `users`, so its lock is never waited for
      if known = false then some (t.rollback c, .replace (.failed .unexpected))
      else if (t.deleting ref).isSome then none
      else if (t.roles.get ref).isNone then some (t.rollback c, .replace (.failed .unexpected))
      else some ({ t with sharing := Function.update t.sharing ref (c :: t.sharing ref) },
        .check owner ids rest)

/-! ## `roles.remove`

The role is looked up and checked outside of any transaction. The `DELETE` of its row comes first, and
the cascades follow in the same statement: `role_permissions`, then `user_roles`. -/

/-- The points of `remove`. The ids of the users are those found before the deletion, whose cache
    entries go afterwards. -/
inductive Removal where
  | start (id : String)
  | findUsers (id : Uuid)
  | delete (id : Uuid) (userIds : List Uuid)
  /-- the role is deleted: about to start the cascade to `role_permissions` -/
  | deletePermissions (id : Uuid) (userIds : List Uuid)
  | sweepPermissions (id : Uuid) (userIds : List Uuid) (todo : List Nat)
  /-- about to start the cascade to `user_roles` -/
  | deleteUsers (id : Uuid) (userIds : List Uuid)
  | sweepUsers (id : Uuid) (userIds : List Uuid) (todo : List Nat)
  /-- the cache entries of these users are deleted next -/
  | done (userIds : List Uuid)
  | failed (e : Failure)

def Removal.step [DecidableEq C] (c : C) (t : Tables C) (tid : Nat) :
    Removal → Option (Tables C × Removal)
  | .start id =>
      match t.roles.get (Uuid.cast id) with
      | none      => some (t, .failed (.http (.notFound "Role not found")))
      | some role =>
          if role.isSystem then
            some (t, .failed (.http (.forbidden ("System role \"" ++ role.name ++
              "\" cannot be delete"))))
          else some (t, .findUsers (Uuid.cast id))
  | .findUsers id =>
      some (t, .delete id ((t.userRoles.versions.rows.filter fun v => ofRef id v.row && v.visible c).map
        fun v => v.row.owner))
  | .delete id userIds =>
      -- wait for the transactions that delete the role or refer to it
      if (t.deleting id).isSome || !(t.sharing id).isEmpty then none
      else if (t.roles.get id).isNone then some (t, .done userIds)
      else some ({ t with deleting := Function.update t.deleting id (some c) },
        .deletePermissions id userIds)
  | .deletePermissions id userIds =>
      some (t, .sweepPermissions id userIds (t.rolePermissions.select c (ofOwner id)))
  | .sweepPermissions id userIds todo =>
      if todo = [] then some (t, .deleteUsers id userIds)
      else if tid ∈ todo then
        (t.rolePermissions.delete c (ofOwner id) tid).map fun heap =>
          ({ t with rolePermissions := heap }, .sweepPermissions id userIds (todo.filter (· ≠ tid)))
      else none
  | .deleteUsers id userIds => some (t, .sweepUsers id userIds (t.userRoles.select c (ofRef id)))
  | .sweepUsers id userIds todo =>
      -- one statement in autocommit mode, with its cascades
      if todo = [] then some (t.commit c, .done userIds)
      else if tid ∈ todo then
        (t.userRoles.delete c (ofRef id) tid).map fun heap =>
          ({ t with userRoles := heap }, .sweepUsers id userIds (todo.filter (· ≠ tid)))
      else none
  | .done _ | .failed _ => none

/-! ## Calls

The two operations in one pool. An error of the infrastructure stops a call anywhere and rolls it back.
-/

inductive AccessCall where
  | setRoles (pc : SetRoles)
  | removeRole (pc : Removal)

/-- Run the next statement, or its next row `tid`; `known` is whether `users` has a row for the user. Or
    stop, rolling back. -/
inductive AccessAct where
  | run (tid : Nat) (known : Bool)
  | abort

def AccessCall.finished : AccessCall → Bool
  | .setRoles (.replace pc)                                => pc.finished
  | .removeRole (.done _) | .removeRole (.failed _) => true
  | _                                                      => false

/-- The call after an error of the infrastructure. -/
def AccessCall.aborted : AccessCall → AccessCall
  | .setRoles _   => .setRoles (.replace (.failed .unexpected))
  | .removeRole _ => .removeRole (.failed .unexpected)

def exec [DecidableEq C] : Pool.Code (Tables C) AccessCall AccessAct C := fun c t call a =>
  match a, call with
  | .abort, call                    => if call.finished then none else some (t.rollback c, call.aborted)
  | .run tid known, .setRoles pc    => (pc.step c t tid known).map fun r => (r.1, .setRoles r.2)
  | .run tid _, .removeRole pc      => (pc.step c t tid).map fun r => (r.1, .removeRole r.2)

abbrev AccessState (C : Type) := Pool.Config (Tables C) AccessCall C

/-! ## Rows, requested and held

What a statement waits for are versions: a `DELETE` waits for a version somebody else is deleting, an
`INSERT` for one that somebody else inserts or deletes under the same key, and a reference for the
deletion of the role. -/

/-- What is locked: roles, and versions of rows in the two join tables. -/
inductive AccessRow where
  | role (id : Uuid)
  /-- a version of a row, by its place -/
  | userRole (tid : Nat)
  | rolePermission (tid : Nat)
deriving DecidableEq

/-- The versions a `DELETE` locks among those it has yet to reach. -/
def wanted [DecidableEq C] (heap : Heap JoinRow C) (c : C) (p : JoinRow → Bool)
    (todo : List Nat) : List Nat :=
  todo.filter fun tid => (heap.versions.get tid).any fun v => p v.row && v.deleting ≠ some c

/-- The locks the next statement of a call takes. A unique index waits for whoever inserts or deletes
    the row. -/
def AccessCall.requests [DecidableEq C] (c : C) (t : Tables C) : AccessCall → List (AccessRow × LockMode)
  | .setRoles (.replace (.sweep owner _ todo)) =>
      (wanted t.userRoles c (ofOwner owner) todo).map fun tid => (.userRole tid, .forUpdate)
  | .setRoles (.replace (.insert owner _ (ref :: _))) =>
      (t.userRoles.conflicts c ⟨owner, ref⟩).map fun v => (.userRole v.tid, .forUpdate)
  | .setRoles (.check _ _ (ref :: _)) => [(.role ref, .keyShare)]
  | .removeRole (.delete id _)        => [(.role id, .forUpdate)]
  | .removeRole (.sweepPermissions id _ todo) =>
      (wanted t.rolePermissions c (ofOwner id) todo).map fun tid => (.rolePermission tid, .forUpdate)
  | .removeRole (.sweepUsers id _ todo) =>
      (wanted t.userRoles c (ofRef id) todo).map fun tid => (.userRole tid, .forUpdate)
  | _ => []

/-- The transaction has inserted or deleted the version at a place. -/
def MarkedAt (heap : Heap JoinRow C) (c : C) (tid : Nat) : Prop :=
  ∃ v, heap.versions.get tid = some v ∧ v.Marked c

/-- The rows a transaction holds. -/
def Tables.Holds (t : Tables C) (c : C) : AccessRow → LockMode → Prop
  | .role id, m            =>
      (t.deleting id = some c ∧ m = .forUpdate) ∨ (c ∈ t.sharing id ∧ m = .keyShare)
  | .userRole tid, m       => MarkedAt t.userRoles c tid ∧ m = .forUpdate
  | .rolePermission tid, m => MarkedAt t.rolePermissions c tid ∧ m = .forUpdate

/-- The locks of a state. -/
def accessLocks [DecidableEq C] (s : AccessState C) : Locks C AccessRow where
  holds c        := s.shared.Holds c
  requests c r m := (r, m) ∈ (s.calls c).requests c s.shared

/-! ## The condition

Three ways of overlapping are excluded, and an order of rows is asked for. None of them is enforced by
the code; a circle of waits in a run without them is in `LockCycles`. -/

/-- The user whose roles a call is replacing, from its `DELETE` to its end. -/
def AccessCall.replaces : AccessCall → Option Uuid
  | .setRoles (.replace pc)       => pc.inFlight
  | .setRoles (.check owner _ _)  => some owner
  | .removeRole _                 => none

/-- The roles it asks for. -/
def AccessCall.asks : AccessCall → List Uuid
  | .setRoles (.replace (.sweep _ ids _)) | .setRoles (.replace (.select _ ids)) |
      .setRoles (.replace (.insert _ ids _))
  | .setRoles (.check _ ids _) => ids.map Uuid.cast
  | _ => []

/-- The role a call has deleted, up to its end. -/
def AccessCall.removes : AccessCall → Option Uuid
  | .removeRole (.deletePermissions id _) | .removeRole (.sweepPermissions id _ _) |
      .removeRole (.deleteUsers id _)
  | .removeRole (.sweepUsers id _ _) => some id
  | _ => none

/-- A `setRoles` begins its `DELETE` while no other one of the user, and no removal of a role it asks
    for, is in progress; a removal deletes the role while no `setRoles` that asks for it is in progress;
    and the rows of `user_roles` are deleted in the order of `place`. -/
def accessLockOrder [DecidableEq C] (place : Nat → Nat) :
    Pool.Allowed (Tables C) AccessCall AccessAct C := fun s c a =>
  match a, s.calls c with
  | .run _ _, .setRoles (.replace (.delete owner ids)) =>
      (∀ d, (s.calls d).replaces ≠ some owner) ∧ ∀ d, ∀ ref ∈ ids.map Uuid.cast,
        (s.calls d).removes ≠ some ref
  | .run tid _, .setRoles (.replace (.sweep _ _ todo)) => TakesFirst place todo tid
  | .run _ _, .removeRole (.delete id _)               => ∀ d, id ∉ (s.calls d).asks
  | .run tid _, .removeRole (.sweepUsers _ _ todo)     => TakesFirst place todo tid
  | _, _                                               => True

/-! ## The outline

For each program point: what the call has marked, and what it has yet to reach. Marks of others can
only be on rows it does not need, or in front of those it needs. -/

/-- The versions a transaction has marked stand before those it has yet to reach. -/
def InOrder (place : Nat → Nat) (heap : Heap JoinRow C) (c : C) (todo : List Nat) : Prop :=
  ∀ v ∈ heap.versions.rows, v.Marked c → ∀ j ∈ todo, place v.tid < place j

/-- The transaction has touched no row. -/
def Unmarked (heap : Heap JoinRow C) (c : C) : Prop := ∀ v ∈ heap.versions.rows, ¬ v.Marked c

/-- What a call knows about the rows it has yet to reach. -/
def Outline (place : Nat → Nat) (c : C) (t : Tables C) : AccessCall → Prop
  | .setRoles (.replace (.sweep _ _ todo))        => InOrder place t.userRoles c todo
  | .setRoles (.replace (.insert _ ids rest))     => ∀ ref ∈ rest, ref ∈ ids.map Uuid.cast
  | .setRoles (.check _ ids todo)                 => ∀ ref ∈ todo, ref ∈ ids.map Uuid.cast
  | .removeRole (.deletePermissions ..) | .removeRole (.sweepPermissions ..) |
      .removeRole (.deleteUsers ..) =>
      Unmarked t.userRoles c
  | .removeRole (.sweepUsers _ _ todo)            => InOrder place t.userRoles c todo
  | _                                             => True

/-- The call is checking the references of the rows it has inserted. -/
def AccessCall.checks : AccessCall → Bool
  | .setRoles (.check ..) => true
  | _                     => false

/-- A call's locks are those of its program point. -/
structure Own (place : Nat → Nat) (c : C) (t : Tables C) (call : AccessCall) : Prop where
  deleting        : ∀ r, t.deleting r = some c ↔ call.removes = some r
  sharing         : ∀ {r}, c ∈ t.sharing r → call.checks = true
  userRoles       : ∀ {v}, v ∈ t.userRoles.versions.rows → v.Marked c →
    call.replaces = some v.row.owner ∨ call.removes = some v.row.ref
  asked           : ∀ {v}, v ∈ t.userRoles.versions.rows → v.inserting = some c → v.row.ref ∈ call.asks
  rolePermissions : ∀ {v}, v ∈ t.rolePermissions.versions.rows → v.Marked c →
    call.removes = some v.row.owner
  outline         : Outline place c t call

/-- What a step of `c` leaves alone: the locks of the others. -/
structure Moved (c : C) (t t' : Tables C) : Prop where
  deleting        : ∀ {d r}, d ≠ c → (t'.deleting r = some d ↔ t.deleting r = some d)
  sharing         : ∀ {d r}, d ≠ c → d ∈ t'.sharing r → d ∈ t.sharing r
  userRoles       : Heap.Grants c t.userRoles t'.userRoles
  rolePermissions : Heap.Grants c t.rolePermissions t'.rolePermissions

section Outlines

variable {place : Nat → Nat} {c d : C} {t t' : Tables C} {call call' : AccessCall}
  {tid : Nat} {known : Bool}

theorem Moved.refl : Moved c t t := ⟨fun _ => .rfl, fun _ h => h, .refl, .refl⟩

theorem InOrder.frame {heap heap' : Heap JoinRow C} {todo : List Nat} (h : InOrder place heap c todo)
    (hg : Heap.Grants d heap heap') (hd : c ≠ d) : InOrder place heap' c todo := by
  intro v hv hm j hj
  obtain ⟨v₀, hv₀, htid, -, hm₀, -⟩ := hg hd hv hm
  rw [← htid]
  exact h v₀ hv₀ hm₀ j hj

theorem Unmarked.frame {heap heap' : Heap JoinRow C} (h : Unmarked heap c)
    (hg : Heap.Grants d heap heap') (hd : c ≠ d) :
    Unmarked heap' c := by
  intro v hv hm
  obtain ⟨v₀, hv₀, -, -, hm₀, -⟩ := hg hd hv hm
  exact h v₀ hv₀ hm₀

theorem Outline.frame (h : Outline place c t call) (hm : Moved d t t') (hd : c ≠ d) :
    Outline place c t' call := by
  cases call with
  | setRoles pc =>
      cases pc with
      | replace pc =>
          cases pc with
          | sweep owner ids todo => exact InOrder.frame h hm.userRoles hd
          | _ => exact h
      | check owner ids todo => exact h
  | removeRole pc =>
      cases pc with
      | deletePermissions id userIds => exact Unmarked.frame h hm.userRoles hd
      | sweepPermissions id userIds todo => exact Unmarked.frame h hm.userRoles hd
      | deleteUsers id userIds => exact Unmarked.frame h hm.userRoles hd
      | sweepUsers id userIds todo => exact InOrder.frame h hm.userRoles hd
      | _ => exact h

/-- The steps of the others leave a call's locks alone. -/
theorem Own.frame (h : Own place c t call) (hm : Moved d t t') (hd : c ≠ d) : Own place c t' call where
  deleting r := (hm.deleting hd).trans (h.deleting r)
  sharing hs := h.sharing (hm.sharing hd hs)
  userRoles hv hmark := by
    obtain ⟨v₀, hv₀, -, hrow, hm₀, -⟩ := hm.userRoles hd hv hmark
    rw [← hrow]
    exact h.userRoles hv₀ hm₀
  asked hv hins := by
    obtain ⟨v₀, hv₀, -, hrow, -, hins₀⟩ := hm.userRoles hd hv (.inl hins)
    rw [← hrow]
    exact h.asked hv₀ (hins₀ hins)
  rolePermissions hv hmark := by
    obtain ⟨v₀, hv₀, -, hrow, hm₀, -⟩ := hm.rolePermissions hd hv hmark
    rw [← hrow]
    exact h.rolePermissions hv₀ hm₀
  outline := h.outline.frame hm hd

/-- A statement that takes no lock. -/
theorem Own.quiet (h : Own place c t call) (hreplaces : call'.replaces = call.replaces)
    (hremoves : call'.removes = call.removes)
    (hasks : ∀ r ∈ call.asks, r ∈ call'.asks) (hchecks : call.checks = true → call'.checks = true)
    (hout : Outline place c t call') : Own place c t call' where
  deleting r := by
    rw [hremoves]
    exact h.deleting r
  sharing hs := hchecks (h.sharing hs)
  userRoles hv hm := by
    rw [hreplaces, hremoves]
    exact h.userRoles hv hm
  asked hv hi := hasks _ (h.asked hv hi)
  rolePermissions hv hm := by
    rw [hremoves]
    exact h.rolePermissions hv hm
  outline := hout

/-- A call that has not begun to write has touched nothing. -/
theorem Own.unmarked (h : Own place c t call) (hreplaces : call.replaces = none)
    (hremoves : call.removes = none) :
    Unmarked t.userRoles c := by
  intro v hv hm
  rcases h.userRoles hv hm with ho | hr
  · rw [hreplaces] at ho
    cases ho
  · rw [hremoves] at hr
    cases hr

variable [DecidableEq C]

theorem moved_commit : Moved c t (t.commit c) where
  deleting {d r} hd := by
    simp only [Tables.commit]
    split
    · next hc => simp [hc, Ne.symm hd]
    · rfl
  sharing _ hs := (List.mem_filter.mp hs).1
  userRoles := Heap.grants_commit
  rolePermissions := Heap.grants_commit

theorem moved_rollback : Moved c t (t.rollback c) where
  deleting {d r} hd := by
    simp only [Tables.rollback]
    split
    · next hc => simp [hc, Ne.symm hd]
    · rfl
  sharing _ hs := (List.mem_filter.mp hs).1
  userRoles := Heap.grants_rollback
  rolePermissions := Heap.grants_rollback

/-- A transaction that ends holds nothing. -/
theorem own_commit (hremoves : call.removes = none) (hout : Outline place c (t.commit c) call) :
    Own place c (t.commit c) call where
  deleting r := by
    rw [hremoves]
    simp only [Tables.commit]
    split
    · simp
    · next hc => simp [hc]
  sharing hs := by simpa using (List.mem_filter.mp hs).2
  userRoles hv hm := (Heap.not_marked_commit hv hm).elim
  asked hv hi := (Heap.not_marked_commit hv (.inl hi)).elim
  rolePermissions hv hm := (Heap.not_marked_commit hv hm).elim
  outline := hout

theorem own_rollback (hremoves : call.removes = none) (hout : Outline place c (t.rollback c) call) :
    Own place c (t.rollback c) call where
  deleting r := by
    rw [hremoves]
    simp only [Tables.rollback]
    split
    · simp
    · next hc => simp [hc]
  sharing hs := by simpa using (List.mem_filter.mp hs).2
  userRoles hv hm := (Heap.not_marked_rollback hv hm).elim
  asked hv hi := (Heap.not_marked_rollback hv (.inl hi)).elim
  rolePermissions hv hm := (Heap.not_marked_rollback hv hm).elim
  outline := hout

/-- A `DELETE` in `user_roles` that reaches a row of the call. -/
theorem Own.delete {heap : Heap JoinRow C} {p : JoinRow → Bool} (h : Own place c t call)
    (hd : t.userRoles.delete c p tid = some heap)
    (hp : ∀ row, p row = true → call.replaces = some row.owner ∨ call.removes = some row.ref)
    (hreplaces : call'.replaces = call.replaces) (hremoves : call'.removes = call.removes)
    (hasks : ∀ r ∈ call.asks, r ∈ call'.asks) (hchecks : call.checks = true → call'.checks = true)
    (hout : Outline place c { t with userRoles := heap } call') :
    Moved c t { t with userRoles := heap } ∧ Own place c { t with userRoles := heap } call' := by
  have hmarked : ∀ v ∈ heap.versions.rows, v.Marked c → call.replaces = some v.row.owner ∨
    call.removes = some v.row.ref :=
    Heap.marked_delete_all (Q := fun row => call.replaces = some row.owner ∨
      call.removes = some row.ref) hd
      (fun _ hv hm => h.userRoles hv hm) hp
  have hasked : ∀ v ∈ heap.versions.rows, v.inserting = some c → v.row.ref ∈ call.asks :=
    Heap.inserting_delete_all (Q := fun row => row.ref ∈ call.asks) hd fun _ hv hi => h.asked hv hi
  refine ⟨⟨fun _ => .rfl, fun _ hs => hs, Heap.grants_delete hd, .refl⟩, fun r => ?_,
    fun hs => hchecks (h.sharing hs),
    fun hv hm => ?_, fun hv hi => hasks _ (hasked _ hv hi), fun hv hm => ?_, hout⟩
  · rw [hremoves]
    exact h.deleting r
  · rw [hreplaces, hremoves]
    exact hmarked _ hv hm
  · rw [hremoves]
    exact h.rolePermissions hv hm

omit [DecidableEq C] in
/-- An `INSERT` in `user_roles` of a row that the call asks for. -/
theorem Own.insert {row : JoinRow} (h : Own place c t call) (hrow : call.replaces = some row.owner)
    (hask : row.ref ∈ call.asks)
    (hreplaces : call'.replaces = call.replaces) (hremoves : call'.removes = call.removes)
    (hasks : ∀ r ∈ call.asks, r ∈ call'.asks) (hchecks : call.checks = true → call'.checks = true)
    (hout : Outline place c { t with userRoles := t.userRoles.insert c row } call') :
    Moved c t { t with userRoles := t.userRoles.insert c row } ∧
      Own place c { t with userRoles := t.userRoles.insert c row } call' := by
  have hmarked : ∀ v ∈ (t.userRoles.insert c row).versions.rows, v.Marked c →
      call.replaces = some v.row.owner ∨ call.removes = some v.row.ref :=
    Heap.marked_insert_all (Q := fun row => call.replaces = some row.owner ∨ call.removes = some row.ref)
      (fun _ hv hm => h.userRoles hv hm) (.inl hrow)
  have hasked : ∀ v ∈ (t.userRoles.insert c row).versions.rows, v.inserting = some c →
    v.row.ref ∈ call.asks :=
    Heap.inserting_insert_all (Q := fun row => row.ref ∈ call.asks) (fun _ hv hi => h.asked hv hi) hask
  refine ⟨⟨fun _ => .rfl, fun _ hs => hs, Heap.grants_insert, .refl⟩, fun r => ?_,
    fun hs => hchecks (h.sharing hs),
    fun hv hm => ?_, fun hv hi => hasks _ (hasked _ hv hi), fun hv hm => ?_, hout⟩
  · rw [hremoves]
    exact h.deleting r
  · rw [hreplaces, hremoves]
    exact hmarked _ hv hm
  · rw [hremoves]
    exact h.rolePermissions hv hm

/-- One more version is deleted, before the others. -/
theorem InOrder.delete {heap heap' : Heap JoinRow C} {p : JoinRow → Bool} {todo : List Nat}
    (h : InOrder place heap c todo)
    (hd : heap.delete c p tid = some heap') (hfirst : TakesFirst place todo tid) :
    InOrder place heap' c (todo.filter (· ≠ tid)) := by
  intro v hv hm j hj
  obtain ⟨hleft, hne⟩ := List.mem_filter.mp hj
  rcases Heap.marked_delete hd hv hm with ⟨-, rfl, -⟩ | ⟨v₀, hv₀, htid, -, hm₀, -⟩
  · exact hfirst j ((List.mem_erase_of_ne (by simpa using hne)).mpr hleft)
  · rw [← htid]
    exact h v₀ hv₀ hm₀ j hleft

omit [DecidableEq C] in
theorem Unmarked.inOrder {heap : Heap JoinRow C} {todo : List Nat} (h : Unmarked heap c) :
    InOrder place heap c todo :=
  fun v hv hm => absurd hm (h v hv)

/-! ### Own steps -/

theorem SetRoles.step_own {pc pc' : SetRoles} (hs : pc.step c t tid known = some (t', pc'))
    (h : Own place c t (.setRoles pc))
    (hfirst : ∀ owner ids todo, pc = .replace (.sweep owner ids todo) → TakesFirst place todo tid) :
    Moved c t t' ∧ Own place c t' (.setRoles pc') := by
  cases pc with
  | replace pc =>
      cases pc with
      | start owner ids =>
          obtain ⟨⟨heap, pc₁⟩, hstep, hres⟩ := Option.map_eq_some_iff.mp hs
          cases hres
          simp only [JoinRows.step] at hstep
          split at hstep
          · cases hstep
            exact ⟨.refl, h.quiet rfl rfl (fun _ hr => hr) id trivial⟩
          · cases hstep
            exact ⟨.refl, h.quiet rfl rfl (fun _ hr => hr) id trivial⟩
      | delete owner ids =>
          cases hs
          have hnone : Unmarked t.userRoles c := h.unmarked rfl rfl
          refine ⟨.refl, h.deleting, fun hs => absurd (h.sharing hs) (by simp [AccessCall.checks]),
            fun hv hm => absurd hm (hnone _ hv), fun hv hi => absurd (.inl hi) (hnone _ hv),
              h.rolePermissions, ?_⟩
          exact hnone.inOrder
      | sweep owner ids todo =>
          simp only [SetRoles.step, JoinRows.step] at hs
          split at hs
          · cases hs
            exact ⟨.refl, h.quiet rfl rfl (fun _ hr => hr) id trivial⟩
          · split at hs
            · simp only [Option.map_map] at hs
              obtain ⟨heap, hd, hres⟩ := Option.map_eq_some_iff.mp hs
              cases hres
              exact h.delete hd (fun row hp => .inl (congrArg some (of_decide_eq_true hp).symm)) rfl rfl
                (fun _ hr => hr) id
                (InOrder.delete h.outline hd (hfirst owner ids todo rfl))
            · cases hs
      | select owner ids =>
          cases hs
          exact ⟨.refl, h.quiet rfl rfl (fun _ hr => hr) id fun ref hr => mem_missingRows hr⟩
      | insert owner ids rest =>
          cases rest with
          | nil =>
              cases hs
              refine ⟨.refl, h.quiet rfl rfl (fun _ hr => hr) (fun _ => rfl) fun ref hr => ?_⟩
              obtain ⟨v, hv, rfl⟩ := List.mem_map.mp hr
              obtain ⟨hmem, hi⟩ := List.mem_filter.mp hv
              exact h.asked hmem (of_decide_eq_true hi)
          | cons ref rest =>
              have hout : ∀ r ∈ ref :: rest, r ∈ ids.map Uuid.cast := h.outline
              simp only [SetRoles.step, JoinRows.step] at hs
              split at hs
              · cases hs
                exact h.insert rfl (hout ref List.mem_cons_self) rfl rfl (fun _ hr => hr) id
                  fun r hr => hout r (List.mem_cons_of_mem _ hr)
              · split at hs
                · cases hs
                  refine ⟨⟨fun _ => .rfl, fun _ hs => hs, Heap.grants_rollback, .refl⟩, h.deleting,
                    fun hs => absurd (h.sharing hs) (by simp [AccessCall.checks]),
                      fun hv hm => ?_, fun hv hi => ?_,
                    h.rolePermissions, trivial⟩
                  · exact (Heap.not_marked_rollback hv hm).elim
                  · exact (Heap.not_marked_rollback hv (.inl hi)).elim
                · cases hs
      | done | failed => cases hs
  | check owner ids todo =>
      cases todo with
      | nil =>
          cases hs
          exact ⟨moved_commit, own_commit rfl trivial⟩
      | cons ref rest =>
          simp only [SetRoles.step] at hs
          split at hs
          · cases hs
            exact ⟨moved_rollback, own_rollback rfl trivial⟩
          · split at hs
            · cases hs
            · split at hs
              · cases hs
                exact ⟨moved_rollback, own_rollback rfl trivial⟩
              · cases hs
                have hothers : ∀ {d r}, d ≠ c →
                  d ∈ Function.update t.sharing ref (c :: t.sharing ref) r → d ∈ t.sharing r := by
                  intro d r hne hd
                  by_cases hr : r = ref
                  · subst hr
                    rw [Function.update_self] at hd
                    exact (List.mem_cons.mp hd).resolve_left hne
                  · rwa [Function.update_of_ne hr] at hd
                exact ⟨⟨fun _ => .rfl, hothers, .refl, .refl⟩, h.deleting, fun _ => rfl,
                  h.userRoles, h.asked,
                  h.rolePermissions, fun r hr => h.outline r (List.mem_cons_of_mem _ hr)⟩

theorem Removal.step_own {pc pc' : Removal} (hs : pc.step c t tid = some (t', pc'))
    (h : Own place c t (.removeRole pc))
    (hfirst : ∀ id userIds todo, pc = .sweepUsers id userIds todo → TakesFirst place todo tid) :
    Moved c t t' ∧ Own place c t' (.removeRole pc') := by
  have hnoshare : ∀ {r}, c ∉ t.sharing r := fun hs => absurd (h.sharing hs) (by simp [AccessCall.checks])
  cases pc with
  | start id =>
      simp only [Removal.step] at hs
      split at hs
      · cases hs
        exact ⟨.refl, h.quiet rfl rfl (fun _ hr => hr) (fun hx => hx) trivial⟩
      · split at hs
        · cases hs
          exact ⟨.refl, h.quiet rfl rfl (fun _ hr => hr) (fun hx => hx) trivial⟩
        · cases hs
          exact ⟨.refl, h.quiet rfl rfl (fun _ hr => hr) (fun hx => hx) trivial⟩
  | findUsers id =>
      cases hs
      exact ⟨.refl, h.quiet rfl rfl (fun _ hr => hr) (fun hx => hx) trivial⟩
  | delete id userIds =>
      have hnone : Unmarked t.userRoles c := h.unmarked rfl rfl
      simp only [Removal.step] at hs
      split at hs
      · cases hs
      · next hfree =>
        split at hs
        · cases hs
          exact ⟨.refl, h.quiet rfl rfl (fun _ hr => hr) (fun hx => hx) trivial⟩
        · cases hs
          -- the role was free, and is the transaction's now
          have hrow : t.deleting id = none := by
            simp only [Bool.or_eq_true, not_or, Bool.not_eq_true, Option.isSome_eq_false_iff,
              Option.isNone_iff_eq_none] at hfree
            exact hfree.1
          refine ⟨⟨fun {d r} hne => ?_, fun _ hs => hs, .refl, .refl⟩, fun r => ?_,
            fun hs => absurd hs hnoshare,
            fun hv hm => absurd hm (hnone _ hv), fun hv hi => absurd (.inl hi) (hnone _ hv),
              fun hv hm => ?_, hnone⟩
          · by_cases hr : r = id
            · subst hr
              simp [hrow, Ne.symm hne]
            · show Function.update t.deleting id (some c) r = some d ↔ t.deleting r = some d
              rw [Function.update_of_ne hr]
          · by_cases hr : r = id
            · subst hr
              simp [AccessCall.removes]
            · show Function.update t.deleting id (some c) r = some c ↔ some id = some r
              rw [Function.update_of_ne hr, h.deleting r]
              simp [AccessCall.removes, Ne.symm hr]
          · exact absurd (h.rolePermissions hv hm) (by simp [AccessCall.removes])
  | deletePermissions id userIds =>
      cases hs
      exact ⟨.refl, h.quiet rfl rfl (fun _ hr => hr) (fun hx => hx) h.outline⟩
  | sweepPermissions id userIds todo =>
      simp only [Removal.step] at hs
      split at hs
      · cases hs
        exact ⟨.refl, h.quiet rfl rfl (fun _ hr => hr) (fun hx => hx) h.outline⟩
      · split at hs
        · obtain ⟨heap, hd, hres⟩ := Option.map_eq_some_iff.mp hs
          cases hres
          have hmarked := Heap.marked_delete_all (Q := fun row : JoinRow => some id = some row.owner) hd
            (fun _ hv hm => h.rolePermissions hv hm) fun row hp =>
              congrArg some (of_decide_eq_true hp).symm
          exact ⟨⟨fun _ => .rfl, fun _ hs => hs, .refl, Heap.grants_delete hd⟩, h.deleting,
            fun hs => absurd hs hnoshare,
            h.userRoles, h.asked, fun hv hm => hmarked _ hv hm, h.outline⟩
        · cases hs
  | deleteUsers id userIds =>
      cases hs
      exact ⟨.refl, h.quiet rfl rfl (fun _ hr => hr) (fun hx => hx) (Unmarked.inOrder h.outline)⟩
  | sweepUsers id userIds todo =>
      simp only [Removal.step] at hs
      split at hs
      · cases hs
        exact ⟨moved_commit, own_commit rfl trivial⟩
      · split at hs
        · obtain ⟨heap, hd, hres⟩ := Option.map_eq_some_iff.mp hs
          cases hres
          exact h.delete hd (fun row hp => .inr (congrArg some (of_decide_eq_true hp).symm)) rfl rfl
            (fun _ hr => hr)
            (fun hx => hx) (InOrder.delete h.outline hd (hfirst id userIds todo rfl))
        · cases hs
  | done | failed => cases hs

end Outlines

/-! ## The invariant

The outlines of all calls and, from the condition, that no two of them work on the same user or role in
the ways that were excluded. -/

/-- **The invariant**: what each call holds and in which order, and that no two calls replace the roles
    of one user, or give away a role that is being removed. -/
structure AccessInvariant (place : Nat → Nat) (s : AccessState C) : Prop where
  own       : ∀ c, Own place c s.shared (s.calls c)
  exclusive : ∀ {c d userId}, (s.calls c).replaces = some userId →
    (s.calls d).replaces = some userId → c = d
  apart     : ∀ {c d roleId}, roleId ∈ (s.calls c).asks → (s.calls d).removes ≠ some roleId

section Invariant

variable [DecidableEq C] {place : Nat → Nat} {s t : AccessState C} {c d : C}
  {tables tables' : Tables C} {call' : AccessCall}
  {a : AccessAct} {userId roleId : Uuid}

/-- **Own step.** The call keeps its outline, and leaves the rows that others have marked. -/
theorem exec_own (hcond : accessLockOrder place s c a) (h : Own place c s.shared (s.calls c))
    (hstep : exec c s.shared (s.calls c) a = some (tables, call')) : Moved c s.shared tables ∧
      Own place c tables call' := by
  unfold accessLockOrder at hcond
  generalize s.calls c = call at *
  cases a with
  | abort =>
      simp only [exec] at hstep
      split at hstep
      · cases hstep
      · cases hstep
        refine ⟨moved_rollback, ?_⟩
        cases call with
        | setRoles pc => exact own_rollback rfl trivial
        | removeRole pc => exact own_rollback rfl trivial
  | run tid known =>
      cases call with
      | setRoles pc =>
          obtain ⟨⟨t₁, pc'⟩, hs, hres⟩ := Option.map_eq_some_iff.mp hstep
          cases hres
          refine SetRoles.step_own hs h fun owner ids todo he => ?_
          subst he
          exact hcond
      | removeRole pc =>
          obtain ⟨⟨t₁, pc'⟩, hs, hres⟩ := Option.map_eq_some_iff.mp hstep
          cases hres
          refine Removal.step_own hs h fun id userIds todo he => ?_
          subst he
          exact hcond

/-- A `setRoles` goes on with its user and its roles, or begins its `DELETE`. -/
theorem SetRoles.step_asks {pc pc' : SetRoles} {tid : Nat} {known : Bool}
    (hs : pc.step c tables tid known = some (tables', pc')) :
    (∃ owner ids todo, pc = .replace (.delete owner ids) ∧ pc' = .replace (.sweep owner ids todo)) ∨
      ((AccessCall.setRoles pc').replaces = none ∨
        (AccessCall.setRoles pc').replaces = (AccessCall.setRoles pc).replaces) ∧
      ((AccessCall.setRoles pc').asks = [] ∨
        (AccessCall.setRoles pc').asks = (AccessCall.setRoles pc).asks) := by
  cases pc with
  | replace pc =>
      cases pc with
      | start owner ids =>
          obtain ⟨⟨heap, pc₁⟩, hstep, hres⟩ := Option.map_eq_some_iff.mp hs
          cases hres
          simp only [JoinRows.step] at hstep
          split at hstep <;> (cases hstep; exact .inr ⟨.inl rfl, .inl rfl⟩)
      | delete owner ids =>
          cases hs
          exact .inl ⟨owner, ids, _, rfl, rfl⟩
      | sweep owner ids todo =>
          simp only [SetRoles.step, JoinRows.step] at hs
          split at hs
          · cases hs
            exact .inr ⟨.inr rfl, .inr rfl⟩
          · split at hs
            · simp only [Option.map_map] at hs
              obtain ⟨heap, -, hres⟩ := Option.map_eq_some_iff.mp hs
              cases hres
              exact .inr ⟨.inr rfl, .inr rfl⟩
            · cases hs
      | select owner ids =>
          cases hs
          exact .inr ⟨.inr rfl, .inr rfl⟩
      | insert owner ids rest =>
          cases rest with
          | nil =>
              cases hs
              exact .inr ⟨.inr rfl, .inr rfl⟩
          | cons ref rest =>
              simp only [SetRoles.step, JoinRows.step] at hs
              split at hs
              · cases hs
                exact .inr ⟨.inr rfl, .inr rfl⟩
              · split at hs
                · cases hs
                  exact .inr ⟨.inl rfl, .inl rfl⟩
                · cases hs
      | done | failed => cases hs
  | check owner ids todo =>
      cases todo with
      | nil =>
          cases hs
          exact .inr ⟨.inl rfl, .inl rfl⟩
      | cons ref rest =>
          simp only [SetRoles.step] at hs
          split at hs
          · cases hs
            exact .inr ⟨.inl rfl, .inl rfl⟩
          · split at hs
            · cases hs
            · split at hs
              · cases hs
                exact .inr ⟨.inl rfl, .inl rfl⟩
              · cases hs
                exact .inr ⟨.inr rfl, .inr rfl⟩

/-- A removal goes on with its role, or deletes it. -/
theorem Removal.step_removes {pc pc' : Removal} {tid : Nat}
    (hs : pc.step c tables tid = some (tables', pc')) :
    (∃ id userIds, pc = .delete id userIds ∧ pc' = .deletePermissions id userIds) ∨
      (AccessCall.removeRole pc').removes = none ∨
      (AccessCall.removeRole pc').removes = (AccessCall.removeRole pc).removes := by
  cases pc with
  | start id =>
      simp only [Removal.step] at hs
      split at hs
      · cases hs
        exact .inr (.inl rfl)
      · split at hs <;> (cases hs; exact .inr (.inl rfl))
  | findUsers id =>
      cases hs
      exact .inr (.inl rfl)
  | delete id userIds =>
      simp only [Removal.step] at hs
      split at hs
      · cases hs
      · split at hs
        · cases hs
          exact .inr (.inl rfl)
        · cases hs
          exact .inl ⟨id, userIds, rfl, rfl⟩
  | deletePermissions id userIds =>
      cases hs
      exact .inr (.inr rfl)
  | sweepPermissions id userIds todo =>
      simp only [Removal.step] at hs
      split at hs
      · cases hs
        exact .inr (.inr rfl)
      · split at hs
        · obtain ⟨heap, -, hres⟩ := Option.map_eq_some_iff.mp hs
          cases hres
          exact .inr (.inr rfl)
        · cases hs
  | deleteUsers id userIds =>
      cases hs
      exact .inr (.inr rfl)
  | sweepUsers id userIds todo =>
      simp only [Removal.step] at hs
      split at hs
      · cases hs
        exact .inr (.inl rfl)
      · split at hs
        · obtain ⟨heap, -, hres⟩ := Option.map_eq_some_iff.mp hs
          cases hres
          exact .inr (.inr rfl)
        · cases hs
  | done | failed => cases hs

/-- The user a call replaces the roles of, after a step. -/
theorem exec_replaces (hcond : accessLockOrder place s c a)
    (h : exec c s.shared (s.calls c) a = some (tables', call'))
    (hu : call'.replaces = some userId) :
    (s.calls c).replaces = some userId ∨ ∀ d, (s.calls d).replaces ≠ some userId := by
  unfold accessLockOrder at hcond
  generalize s.calls c = call at *
  cases a with
  | abort =>
      simp only [exec] at h
      split at h
      · cases h
      · cases h
        cases call <;> cases hu
  | run tid known =>
      cases call with
      | setRoles pc =>
          obtain ⟨⟨t₁, pc'⟩, hs, hres⟩ := Option.map_eq_some_iff.mp h
          cases hres
          rcases SetRoles.step_asks hs with ⟨owner, ids, todo, rfl, rfl⟩ | ⟨hnone | hsame, -⟩
          · cases hu
            exact .inr hcond.1
          · rw [hnone] at hu
            cases hu
          · exact .inl (hsame ▸ hu)
      | removeRole pc =>
          obtain ⟨r, -, hres⟩ := Option.map_eq_some_iff.mp h
          cases hres
          cases hu

/-- The roles a call asks for, after a step. -/
theorem exec_asks (hcond : accessLockOrder place s c a)
    (h : exec c s.shared (s.calls c) a = some (tables', call'))
    (hr : roleId ∈ call'.asks) : call'.removes = none ∧
      (roleId ∈ (s.calls c).asks ∨ ∀ d, (s.calls d).removes ≠ some roleId) := by
  unfold accessLockOrder at hcond
  generalize s.calls c = call at *
  cases a with
  | abort =>
      simp only [exec] at h
      split at h
      · cases h
      · cases h
        cases call <;> exact absurd hr List.not_mem_nil
  | run tid known =>
      cases call with
      | setRoles pc =>
          obtain ⟨⟨t₁, pc'⟩, hs, hres⟩ := Option.map_eq_some_iff.mp h
          cases hres
          refine ⟨rfl, ?_⟩
          rcases SetRoles.step_asks hs with ⟨owner, ids, todo, rfl, rfl⟩ | ⟨-, hnone | hsame⟩
          · exact .inr fun d => hcond.2 d roleId hr
          · rw [hnone] at hr
            exact absurd hr List.not_mem_nil
          · exact .inl (hsame ▸ hr)
      | removeRole pc =>
          obtain ⟨r, -, hres⟩ := Option.map_eq_some_iff.mp h
          cases hres
          exact absurd hr List.not_mem_nil

/-- The role a call has deleted, after a step. -/
theorem exec_removes (hcond : accessLockOrder place s c a)
    (h : exec c s.shared (s.calls c) a = some (tables', call'))
    (hr : call'.removes = some roleId) : (s.calls c).removes = some roleId ∨
      ∀ d, roleId ∉ (s.calls d).asks := by
  unfold accessLockOrder at hcond
  generalize s.calls c = call at *
  cases a with
  | abort =>
      simp only [exec] at h
      split at h
      · cases h
      · cases h
        cases call <;> cases hr
  | run tid known =>
      cases call with
      | setRoles pc =>
          obtain ⟨r, -, hres⟩ := Option.map_eq_some_iff.mp h
          cases hres
          cases hr
      | removeRole pc =>
          obtain ⟨⟨t₁, pc'⟩, hs, hres⟩ := Option.map_eq_some_iff.mp h
          cases hres
          rcases Removal.step_removes hs with ⟨id, userIds, rfl, rfl⟩ | hnone | hsame
          · cases hr
            exact .inr hcond
          · rw [hnone] at hr
            cases hr
          · exact .inl (hsame ▸ hr)

theorem AccessInvariant.step (h : AccessInvariant place s) (hcond : accessLockOrder place s c a)
    (hst : Pool.step exec s c a = some t) : AccessInvariant place t := by
  obtain ⟨tables', call', hc, rfl⟩ := Pool.step_cases hst
  obtain ⟨hmoved, hown⟩ := exec_own hcond (h.own c) hc
  constructor
  · intro d
    show Own place d tables' (Function.update s.calls c call' d)
    by_cases hd : d = c
    · subst hd
      rw [Function.update_self]
      exact hown
    · rw [Function.update_of_ne hd]
      exact (h.own d).frame hmoved hd
  · intro d e userId hd he
    change (Function.update s.calls c call' d).replaces = _ at hd
    change (Function.update s.calls c call' e).replaces = _ at he
    -- the user is the call's already, or nobody's
    have hclash : ∀ {e}, e ≠ c → call'.replaces = some userId →
      (s.calls e).replaces = some userId → False := by
      intro e hec hu he
      rcases exec_replaces hcond hc hu with hold | hnobody
      · exact hec (h.exclusive he hold)
      · exact hnobody e he
    by_cases hdc : d = c <;> by_cases hec : e = c
    · rw [hdc, hec]
    · rw [hdc, Function.update_self] at hd
      rw [Function.update_of_ne hec] at he
      exact (hclash hec hd he).elim
    · rw [hec, Function.update_self] at he
      rw [Function.update_of_ne hdc] at hd
      exact (hclash hdc he hd).elim
    · rw [Function.update_of_ne hdc] at hd
      rw [Function.update_of_ne hec] at he
      exact h.exclusive hd he
  · intro d e roleId hd he
    change roleId ∈ (Function.update s.calls c call' d).asks at hd
    change (Function.update s.calls c call' e).removes = _ at he
    by_cases hdc : d = c <;> by_cases hec : e = c
    · rw [hdc, Function.update_self] at hd
      rw [hec, Function.update_self, (exec_asks hcond hc hd).1] at he
      cases he
    · rw [hdc, Function.update_self] at hd
      rw [Function.update_of_ne hec] at he
      rcases (exec_asks hcond hc hd).2 with hold | hnobody
      · exact h.apart hold he
      · exact hnobody e he
    · rw [Function.update_of_ne hdc] at hd
      rw [hec, Function.update_self] at he
      rcases exec_removes hcond hc he with hold | hnobody
      · exact h.apart hd hold
      · exact hnobody d hd
    · rw [Function.update_of_ne hdc] at hd
      rw [Function.update_of_ne hec] at he
      exact h.apart hd he

end Invariant

/-! ## The order

Only waits for versions of `user_roles` can be on a circle, and there the place of the first version a
call has yet to reach is its rank. -/

/-- The versions of `user_roles` a call has yet to reach. -/
def AccessCall.versionsLeft : AccessCall → List Nat
  | .setRoles (.replace (.sweep _ _ todo)) | .removeRole (.sweepUsers _ _ todo) => todo
  | _ => []

/-- The place of a call in the lock order: the first version it has yet to reach. -/
noncomputable def accessRank (place : Nat → Nat) (s : AccessState C) (c : C) : Nat :=
  leastPlace place (s.calls c).versionsLeft

namespace AccessInvariant

variable [DecidableEq C] {place : Nat → Nat} {s : AccessState C} {c d : C} {tid : Nat}
  {heap : Heap JoinRow C}
  {p : JoinRow → Bool} {todo : List Nat} {m : LockMode} {row : AccessRow}

/-- The version wanted satisfies the condition of the statement. -/
theorem wanted_spec (hw : tid ∈ wanted heap c p todo) (hd : MarkedAt heap d tid) :
    tid ∈ todo ∧ ∃ v ∈ heap.versions.rows, v.tid = tid ∧ p v.row = true ∧ v.Marked d := by
  obtain ⟨htodo, hany⟩ := List.mem_filter.mp hw
  obtain ⟨v, hv, hm⟩ := hd
  rw [hv] at hany
  have hp : p v.row = true := by
    simp only [Option.any_some, Bool.and_eq_true] at hany
    exact hany.1
  exact ⟨htodo, v, Table.get_mem hv, Table.get_key hv, hp, hm⟩

omit [DecidableEq C] in
/-- A call that has not begun to write holds nothing. -/
theorem not_holds (h : AccessInvariant place s) (hreplaces : (s.calls c).replaces = none)
    (hremoves : (s.calls c).removes = none) (hchecks : (s.calls c).checks = false) :
      ¬ s.shared.Holds c row m := by
  have hown := h.own c
  intro hh
  cases row with
  | role id =>
      rcases hh with ⟨hdel, -⟩ | ⟨hshare, -⟩
      · have hr := (hown.deleting id).mp hdel
        rw [hremoves] at hr
        cases hr
      · have hc := hown.sharing hshare
        rw [hchecks] at hc
        cases hc
  | userRole tid =>
      obtain ⟨⟨v, hv, hm⟩, -⟩ := hh
      exact hown.unmarked hreplaces hremoves v (Table.get_mem hv) hm
  | rolePermission tid =>
      obtain ⟨⟨v, hv, hm⟩, -⟩ := hh
      have hr := hown.rolePermissions (Table.get_mem hv) hm
      rw [hremoves] at hr
      cases hr

/-- A call that waits, and is waited for, waits for a row of `user_roles` it has yet to reach. -/
theorem version_of_waits (h : AccessInvariant place s) (hw : (accessLocks s).Waits c d)
    (hwaited : ∃ b, (accessLocks s).Waits b c) :
    ∃ tid ∈ (s.calls c).versionsLeft, MarkedAt s.shared.userRoles d tid := by
  obtain ⟨hne, row, m, m', hreq, hhold, hconf⟩ := hw
  obtain ⟨b, -, row₁, m₁, m₂, -, hheld, -⟩ := hwaited
  have hown := h.own c
  have hnot : (s.calls c).replaces = none → (s.calls c).removes = none → (s.calls c).checks = false →
      ¬ s.shared.Holds c row₁ m₂ := h.not_holds
  have hexclusive : ∀ {u}, (s.calls c).replaces = some u → (s.calls d).replaces = some u → c = d :=
    fun hc hd => h.exclusive hc hd
  have hapart : ∀ {r}, r ∈ (s.calls c).asks → (s.calls d).removes ≠ some r := fun hr => h.apart hr
  simp only [accessLocks] at hreq hhold hheld
  generalize s.calls c = call at *
  cases call with
  | setRoles pc =>
      cases pc with
      | replace pc =>
          cases pc with
          | sweep owner ids todo =>
              obtain ⟨tid, htid, he⟩ := List.mem_map.mp hreq
              cases he
              exact ⟨tid, (wanted_spec htid hhold.1).1, hhold.1⟩
          | insert owner ids rest =>
              cases rest with
              | nil => exact absurd hreq List.not_mem_nil
              | cons ref rest =>
                  obtain ⟨v, hv, he⟩ := List.mem_map.mp hreq
                  cases he
                  obtain ⟨hmem, hp⟩ := List.mem_filter.mp hv
                  obtain ⟨⟨v', hv', hm⟩, -⟩ := hhold
                  obtain rfl := Option.some.inj (hv'.symm.trans (Table.get_of_mem hmem))
                  simp only [Bool.and_eq_true, decide_eq_true_eq] at hp
                  -- the row is one of the user whose roles the call replaces, and of a role it asks for
                  rcases (h.own d).userRoles hmem hm with ho | hr
                  · rw [hp.1] at ho
                    exact absurd (hexclusive rfl ho) hne
                  · rw [hp.1] at hr
                    exact absurd hr (hapart (hown.outline ref List.mem_cons_self))
          | _ => exact absurd hreq List.not_mem_nil
      | check owner ids todo =>
          cases todo with
          | nil => exact absurd hreq List.not_mem_nil
          | cons ref rest =>
              cases List.mem_singleton.mp hreq
              rcases hhold with ⟨hdel, -⟩ | ⟨-, rfl⟩
              · exact absurd (((h.own d).deleting ref).mp hdel)
                  (hapart (hown.outline ref List.mem_cons_self))
              · cases hconf
  | removeRole pc =>
      cases pc with
      | delete id userIds => exact (hnot rfl rfl rfl hheld).elim
      | sweepPermissions id userIds todo =>
          obtain ⟨tid, htid, he⟩ := List.mem_map.mp hreq
          cases he
          obtain ⟨-, v, hv, -, hp, hm⟩ := wanted_spec htid hhold.1
          -- a row of the role is deleted by its removal only
          have hr := (h.own d).rolePermissions hv hm
          rw [show v.row.owner = id from of_decide_eq_true hp] at hr
          have hd := ((h.own d).deleting id).mpr hr
          have hc := (hown.deleting id).mpr rfl
          exact absurd (Option.some.inj (hc.symm.trans hd)) hne
      | sweepUsers id userIds todo =>
          obtain ⟨tid, htid, he⟩ := List.mem_map.mp hreq
          cases he
          exact ⟨tid, (wanted_spec htid hhold.1).1, hhold.1⟩
      | _ => exact absurd hreq List.not_mem_nil

omit [DecidableEq C] in
theorem inOrder (h : AccessInvariant place s) (htid : tid ∈ (s.calls c).versionsLeft) :
    InOrder place s.shared.userRoles c (s.calls c).versionsLeft := by
  have hout := (h.own c).outline
  generalize s.calls c = call at *
  cases call with
  | setRoles pc =>
      cases pc with
      | replace pc =>
          cases pc with
          | sweep owner ids todo => exact hout
          | _ => exact absurd htid List.not_mem_nil
      | check owner ids todo => exact absurd htid List.not_mem_nil
  | removeRole pc =>
      cases pc with
      | sweepUsers id userIds todo => exact hout
      | _ => exact absurd htid List.not_mem_nil

/-- **The rank grows** along the waits of calls that wait and are waited for. -/
theorem rank_lt (h : AccessInvariant place s) (hin : (accessLocks s).Inner c d) :
    accessRank place s c < accessRank place s d := by
  obtain ⟨tid, htid, v, hv, hm⟩ := h.version_of_waits hin.waits hin.waitedFor
  obtain ⟨e, he⟩ := hin.waiting
  obtain ⟨tid', htid', -⟩ := h.version_of_waits he ⟨c, hin.waits⟩
  have hbefore := h.inOrder htid' v (Table.get_mem hv) hm
  rw [show v.tid = tid from Table.get_key hv] at hbefore
  exact leastPlace_lt htid (List.ne_nil_of_mem htid') hbefore

end AccessInvariant

/-- No call has begun to write. -/
structure Tables.Unlocked (t : Tables C) : Prop where
  deleting        : ∀ r, t.deleting r = none
  sharing         : ∀ r, t.sharing r = []
  userRoles       : ∀ v ∈ t.userRoles.versions.rows, v.inserting = none ∧ v.deleting = none
  rolePermissions : ∀ v ∈ t.rolePermissions.versions.rows, v.inserting = none ∧ v.deleting = none

/-- A request whose execution has not begun, or a call that has ended. -/
def AccessCall.Idle : AccessCall → Prop
  | .setRoles (.replace (.start ..)) | .setRoles (.replace (.failed _)) | .removeRole (.start _) => True
  | _ => False

theorem Tables.Unlocked.invariant {place : Nat → Nat} {s : AccessState C} (h : s.shared.Unlocked)
    (hidle : ∀ c, (s.calls c).Idle) : AccessInvariant place s := by
  have hcalls : ∀ c, (s.calls c).replaces = none ∧ (s.calls c).removes = none ∧ (s.calls c).asks = [] ∧
      ∀ t, Outline place c t (s.calls c) := by
    intro c
    have hc := hidle c
    generalize s.calls c = call at *
    cases call with
    | setRoles pc =>
        cases pc with
        | replace pc =>
            cases pc with
            | start owner ids => exact ⟨rfl, rfl, rfl, fun _ => trivial⟩
            | failed e => exact ⟨rfl, rfl, rfl, fun _ => trivial⟩
            | _ => exact hc.elim
        | check owner ids todo => exact hc.elim
    | removeRole pc =>
        cases pc with
        | start id => exact ⟨rfl, rfl, rfl, fun _ => trivial⟩
        | _ => exact hc.elim
  have hunmarked : ∀ {heap : Heap JoinRow C},
    (∀ v ∈ heap.versions.rows, v.inserting = none ∧ v.deleting = none) →
      ∀ c, ∀ v ∈ heap.versions.rows, ¬ v.Marked c := by
    intro heap hheap c v hv hm
    obtain ⟨hi, hd⟩ := hheap v hv
    rcases hm with hm | hm
    · rw [hi] at hm
      cases hm
    · rw [hd] at hm
      cases hm
  constructor
  · intro c
    obtain ⟨-, hremoves, -, hout⟩ := hcalls c
    refine ⟨fun r => ?_, fun {r} hs => ?_, fun hv hm => absurd hm (hunmarked h.userRoles c _ hv),
      fun hv hi => absurd (.inl hi) (hunmarked h.userRoles c _ hv),
      fun hv hm => absurd hm (hunmarked h.rolePermissions c _ hv), hout _⟩
    · rw [h.deleting r, hremoves]
      simp
    · rw [h.sharing r] at hs
      exact absurd hs List.not_mem_nil
  · intro c d userId hc
    rw [(hcalls c).1] at hc
    cases hc
  · intro c d roleId hc
    rw [(hcalls c).2.2.1] at hc
    exact absurd hc List.not_mem_nil

end RoleLocks

end NestApp
