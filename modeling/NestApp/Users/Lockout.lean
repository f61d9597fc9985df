import NestApp.Rbac.JoinRows
import NestApp.Users.Update

/-!
# `Users.Lockout` — can administrators lock everybody out?

`PATCH`, `DELETE` and `PUT …/roles` on a user ask for `manage:User` in the guards, before the handler
begins. `update` refuses to change the status of the acting account and `softDelete` to delete it, but
`setRoles` takes any account: the last administrator can give away the right
(`administrator_locks_everyone_out`). Two administrators can also delete each other, as the guards of
both requests run before either commits (`administrators_delete_each_other`).

`administration_survives`: somebody keeps the right as long as every write that takes it from an
account is made by somebody else who still has it. The requests are the calls of `Users.Update`,
`Users.SoftDelete` and `Rbac.JoinRows`, interleaved; what a call is about to commit to is its `target`,
and nobody else's rights change (`Moves.administers`).
-/

namespace NestApp

open Sql

namespace Lockout

/-! ## Calls

A request is made by an account and goes through the guards in a step of its own. Whether the acting
account is still there when the handler runs is not asked again. -/

/-- The accounts, with the tokens, and the rows of `user_roles`. -/
structure Server (C : Type) where
  db        : Db C
  userRoles : Heap JoinRows.JoinRow C

inductive Request where
  | update (id : String) (dto : UpdateUserDto)
  | softDelete (id : String)
  | setRoles (id : String) (roleIds : List String)

/-- A request, made by the account `actor`. -/
inductive Call where
  | guards (actor : Uuid) (request : Request)
  | refused (e : HttpException)
  | update (actor : Uuid) (pc : Update.Pc)
  | softDelete (actor : Uuid) (pc : SoftDelete.Pc)
  | setRoles (actor : Uuid) (pc : JoinRows.Pc)
  | aborted

/-- Run the next statement, or its next row (`tid` is the version a `DELETE` visits); or stop, rolling
    back. -/
inductive CallAct where
  | run (o : Choice) (tid : Nat)
  | abort

/-- What the controller calls: `@CurrentUser('id')` is the id as the database prints it, the path is as
    the client spells it. -/
def Request.start (actor : Uuid) : Request → Call
  | .update id dto       => .update actor (.start id dto (some actor.text))
  | .softDelete id       => .softDelete actor (.start id (some actor.text))
  | .setRoles id roleIds => .setRoles actor (.start (.cast id) roleIds)

def Call.finished : Call → Bool
  | .refused _ | .aborted => true
  | .update _ pc          => (AdminCall.update pc).finished
  | .softDelete _ pc      => (NestApp.Call.softDelete pc).finished
  | .setRoles _ pc        => pc.finished
  | .guards ..            => false

/-- Who makes the request. -/
def Call.actor : Call → Option Uuid
  | .guards actor _ | .update actor _ | .softDelete actor _ | .setRoles actor _ => some actor
  | .refused _ | .aborted => none

variable {C : Type}

/-- The role gives `manage:User`. -/
def Manages (access : Rbac) (roleId : Uuid) : Prop := access.Carries roleId ⟨.manage, .user⟩

/-- The account is active and not deleted. -/
def Active (users : Table User) (u : Uuid) : Prop :=
  (users.get u).any (fun row => row.status = .active && row.deletedAt.isNone) = true

/-- The account holds `manage:User` through some role. -/
def Holds (access : Rbac) (userRoles : Heap JoinRows.JoinRow C) (u : Uuid) : Prop :=
  ∃ v ∈ userRoles.versions.rows, v.inserting = none ∧ v.row.owner = u ∧ Manages access v.row.ref

/-- **An administrator**: active, not deleted, and holding `manage:User`. All three have to hold, as the
    guards ask for all three. -/
def Administers (access : Rbac) (sv : Server C) (u : Uuid) : Prop :=
  Active sv.db.users.table u ∧ Holds access sv.userRoles u

section

variable (access : Rbac)

instance (roleId : Uuid) : Decidable (Manages access roleId) :=
  inferInstanceAs (Decidable (access.Carries roleId ⟨.manage, .user⟩))

instance (users : Table User) (u : Uuid) : Decidable (Active users u) :=
  inferInstanceAs (Decidable (_ = true))

instance [DecidableEq C] (userRoles : Heap JoinRows.JoinRow C) (u : Uuid) :
    Decidable (Holds access userRoles u) :=
  inferInstanceAs (Decidable (∃ v ∈ userRoles.versions.rows, _))

instance [DecidableEq C] (sv : Server C) (u : Uuid) : Decidable (Administers access sv u) :=
  inferInstanceAs (Decidable (_ ∧ _))

variable [DecidableEq C]

/-- The next step of `setRoles`. A row for an account that does not exist violates the foreign key. -/
def stepSetRoles (c : C) (sv : Server C) (tid : Nat) (pc : JoinRows.Pc) :
    Option (Heap JoinRows.JoinRow C × JoinRows.Pc) :=
  match pc with
  | .insert owner _ (_ :: _) =>
      if (sv.db.users.table.get owner).isNone then some (sv.userRoles.rollback c, .failed .unexpected)
      else JoinRows.step (access.roles.rows.map Role.id) "role" c sv.userRoles tid pc
  | pc => JoinRows.step (access.roles.rows.map Role.id) "role" c sv.userRoles tid pc

/-- `access` has the roles and their permissions, which these requests do not change. -/
def exec : Pool.Code (Server C) Call CallAct C := fun c sv call a =>
  match a, call with
  -- `JwtAuthGuard`, then `PermissionsGuard`: both let an administrator pass
  | .run _ _, .guards actor request =>
      if ¬ Active sv.db.users.table actor then
        some (sv, .refused (.unauthorized "Account is not active"))
      else if Holds access sv.userRoles actor then some (sv, request.start actor)
      else some (sv, .refused (.forbidden "Insufficient permissions"))
  | .run o _, .update actor pc =>
      (Update.step c sv.db o pc).map fun r => ({ sv with db := r.1 }, .update actor r.2)
  | .run o _, .softDelete actor pc =>
      (SoftDelete.step c sv.db o pc).map fun r => ({ sv with db := r.1 }, .softDelete actor r.2)
  | .run _ tid, .setRoles actor pc =>
      (stepSetRoles access c sv tid pc).map fun r => ({ sv with userRoles := r.1 }, .setRoles actor r.2)
  | .run _ _, .refused _ | .run _ _, .aborted => none
  | .abort, call =>
      if call.finished then none else some (⟨sv.db.rollback c, sv.userRoles.rollback c⟩, .aborted)

end

abbrev State (C : Type) := Pool.Config (Server C) Call C

/-! ## The condition

`accountable` looks at the write that is about to be committed and at the state in front of it, not at
what the guards have seen. That is the gap in the code: the guards ran earlier. -/

/-- The account whose rights the next step of the call may commit a change of. -/
def Call.target : Call → Option Uuid
  | .update _ (.write _ _ user _)               => some user.id
  | .softDelete _ (.sweepResetTokens id [] _)   => some id
  | .setRoles _ (.insert owner _ [])            => some owner
  | _                                           => none

/-- The write leaves the account its rights: the entity saved is active, the transaction sees a role
    that gives the right. -/
def Call.Spares (access : Rbac) [DecidableEq C] (c : C) (sv : Server C) : Call → Prop
  | .update _ (.write _ _ user _)    => user.status = .active
  | .setRoles _ (.insert owner _ []) =>
      ∃ v ∈ sv.userRoles.versions.rows, v.row.owner = owner ∧ v.visible c = true ∧
        Manages access v.row.ref
  | _ => False

/-- A write that takes the right from an administrator is made by somebody else who is an administrator
    then. -/
def accountable (access : Rbac) [DecidableEq C] : Pool.Allowed (Server C) Call CallAct C := fun s c a =>
  match a, (s.calls c).target, (s.calls c).actor with
  | .run _ _, some u, some actor => Administers access s.shared u →
      (s.calls c).Spares access c s.shared ∨ (actor ≠ u ∧ Administers access s.shared actor)
  | _, _, _ => True

/-! ## What a step commits

A step changes the rights of one account at most, its target. For everybody else being an administrator
is a matter of rows that the step does not touch. -/

section

variable [DecidableEq C] {access : Rbac} {c d : C} {sv sv' : Server C} {db db' : Db C}
  {call call' : Call} {a : CallAct} {o : Choice} {tid : Nat} {u k : Uuid}
  {users users' : Table User} {row : User} {heap heap' : Heap JoinRows.JoinRow C}

omit [DecidableEq C] in
theorem active_iff : Active users u ↔ ∃ row, users.get u = some row ∧ row.status = .active ∧
    row.deletedAt = none := by
  simp [Active, Option.any_eq_true]

omit [DecidableEq C] in
theorem Active.put_of_ne (h : Active users u) (hne : u ≠ row.id) : Active (users.put row) u := by
  obtain ⟨r, hr, hactive⟩ := active_iff.mp h
  have hget : (users.put row).get u = some r := (Table.get_put_of_ne _ _ hne).trans hr
  exact active_iff.mpr ⟨r, hget, hactive⟩

omit [DecidableEq C] in
theorem holds_iff : Holds access heap u ↔ ∃ r, heap.Committed ⟨u, r⟩ ∧ Manages access r := by
  constructor
  · rintro ⟨v, hv, hins, rfl, hmanages⟩
    exact ⟨v.row.ref, ⟨v, hv, hins, rfl⟩, hmanages⟩
  · rintro ⟨r, ⟨v, hv, hins, hrow⟩, hmanages⟩
    exact ⟨v, hv, hins, congrArg _ hrow, by rwa [hrow]⟩

omit [DecidableEq C] in
theorem Holds.congr (h : Holds access heap u)
    (hrows : ∀ r, heap.Committed ⟨u, r⟩ → heap'.Committed ⟨u, r⟩) :
    Holds access heap' u := by
  obtain ⟨r, hr, hmanages⟩ := holds_iff.mp h
  exact holds_iff.mpr ⟨r, hrows r hr, hmanages⟩

/-- What one step may commit: a change of the rights of its target, who keeps them if the write spares
    it. -/
structure Commits (access : Rbac) (c : C) (sv sv' : Server C) (call : Call) : Prop where
  active : ∀ {u}, call.target ≠ some u → Active sv.db.users.table u → Active sv'.db.users.table u
  holds  : ∀ {u}, call.target ≠ some u → Holds access sv.userRoles u → Holds access sv'.userRoles u
  spared : ∀ {u}, call.target = some u → call.Spares access c sv → Administers access sv u →
    Administers access sv' u

/-- A step that commits nothing. -/
theorem Commits.nothing (husers : sv'.db.users.table = sv.db.users.table)
    (hrows : ∀ row, sv'.userRoles.Committed row ↔ sv.userRoles.Committed row) :
      Commits access c sv sv' call := by
  have hactive : ∀ {u}, Active sv.db.users.table u → Active sv'.db.users.table u := by
    intro u h
    rw [husers]
    exact h
  have hholds : ∀ {u}, Holds access sv.userRoles u → Holds access sv'.userRoles u := fun h =>
    h.congr fun _ => (hrows _).mpr
  exact ⟨fun _ => hactive, fun _ => hholds, fun _ _ h => ⟨hactive h.1, hholds h.2⟩⟩

theorem Commits.others (h : Commits access c sv sv' call) (hu : call.target ≠ some u)
    (hadmin : Administers access sv u) :
    Administers access sv' u := ⟨h.active hu hadmin.1, h.holds hu hadmin.2⟩

/-! ### `update` -/

/-- The entity an update saves was loaded without a deletion date. -/
def UpdateOk : Update.Pc → Prop
  | .save _ _ user | .write _ _ user _ => user.deletedAt = none
  | _ => True

/-- One row is locked, written and committed. -/
theorem frame_save (hav : db.users.Available c row.id) :
    Db.Frame c db { db with users := (db.users.lock c row.id).commit c [.put row] } := by
  have howned : (db.users.lock c row.id).Owned c [.put row] := .cons Store.lock_owner_self .nil
  refine ⟨(Store.frame_lock hav).trans (Store.frame_commit howned), .refl, .refl,
    fun hi => hi, fun {k} hk => ?_⟩
  rw [Store.commit_table, Table.get_view_put]
  split
  · rfl
  · exact hk

/-- What an update can do: write no row, save the entity over its row, or insert it where there is no
    row. -/
theorem update_cases {pc pc' : Update.Pc} (hs : Update.step c db o pc = some (db', pc'))
    (hok : UpdateOk pc) :
    UpdateOk pc' ∧ Db.Frame c db db' ∧ (db'.users.table = db.users.table ∨
      (∃ id dto user row current, pc = .write id dto user row ∧
        db.users.table.get user.id = some current ∧
        db'.users.table = db.users.table.put (Update.saveColumns o.now user row current)) ∨
      ∃ user, db.users.table.get user.id = none ∧ db'.users.table = db.users.table.put user) := by
  cases pc with
  | start id dto actingUserId =>
      simp only [Update.step] at hs
      split at hs
      · cases hs
        exact ⟨trivial, .refl, .inl rfl⟩
      · split at hs
        · cases hs
          exact ⟨trivial, .refl, .inl rfl⟩
        · next row hfind =>
          split at hs
          · cases hs
            exact ⟨trivial, .refl, .inl rfl⟩
          · next user happly =>
            cases hs
            have hloaded : row.deletedAt = none := by simpa using (Option.filter_eq_some_iff.mp hfind).2
            exact ⟨(UpdateUserDto.apply_edits happly).deletedAt.trans hloaded, .refl, .inl rfl⟩
  | save id dto user =>
      simp only [Update.step] at hs
      split at hs
      · split at hs
        · cases hs
          exact ⟨trivial, .refl, .inl rfl⟩
        · cases hs
          exact ⟨hok, .refl, .inl rfl⟩
      · obtain ⟨⟨st, ws⟩, hins, hres⟩ := Option.map_eq_some_iff.mp hs
        cases hres
        obtain ⟨hnew, hfree, rfl, rfl⟩ := Store.insert_cases hins
        exact ⟨trivial, frame_save (.inl hfree), .inr (.inr ⟨user, hnew, rfl⟩)⟩
  | write id dto user row =>
      obtain ⟨⟨st, ws⟩, hv, hres⟩ := Option.map_eq_some_iff.mp hs
      cases hres
      refine ⟨trivial, ?_⟩
      obtain ⟨hav, ⟨current, hcurrent, -, rfl, rfl⟩ | ⟨-, rfl, rfl⟩⟩ := Store.visit_cases hv
      · have hid : (Update.saveColumns o.now user row current).id = user.id := Table.get_key hcurrent
        refine ⟨?_, .inr (.inl ⟨id, dto, user, row, current, rfl, hcurrent, rfl⟩)⟩
        rw [← hid] at hav ⊢
        exact frame_save hav
      · -- the row is gone: `UPDATE` finds nothing
        exact ⟨⟨Store.frame_commit .nil, .refl, .refl, fun hi => hi, fun hk => hk⟩, .inl rfl⟩
  | reload id =>
      simp only [Update.step] at hs
      split at hs
      all_goals
        cases hs
        exact ⟨trivial, .refl, .inl rfl⟩
  | done | failed | crashed => cases hs

omit [DecidableEq C] in
/-- An entity that is active and not deleted suspends nobody. -/
theorem Active.saveColumns {current : User} (h : Active users current.id)
    (hget : users.get current.id = some current) {now : Nat}
    {user : User} (hstatus : user.status = .active) (hdeleted : user.deletedAt = none) :
    Active (users.put (Update.saveColumns now user row current)) current.id := by
  obtain ⟨r, hr, hactive, hlive⟩ := active_iff.mp h
  obtain rfl := Option.some.inj (hget.symm.trans hr)
  have hcolumn : ∀ {α : Type} [DecidableEq α] {entity row current : α}, entity = current →
      Update.writeColumn entity row current = current := by
    intro α _ entity row current heq
    unfold Update.writeColumn
    split
    · rfl
    · exact heq
  refine active_iff.mpr ⟨_, (Table.get_put _ _ _).trans (if_pos rfl), ?_, ?_⟩
  · exact (hcolumn (hstatus.trans hactive.symm)).trans hactive
  · exact (hcolumn (hdeleted.trans hlive.symm)).trans hlive

/-- **A step of an update**: it commits nothing, or one row, whose status and deletion the condition
    speaks of. -/
theorem update_commits {actor : Uuid} {pc pc' : Update.Pc}
    (hs : Update.step c sv.db o pc = some (db', pc'))
    (hok : UpdateOk pc) : Commits access c sv { sv with db := db' } (.update actor pc) := by
  obtain ⟨-, -, hkept | ⟨id, dto, user, row, current, rfl, hcurrent, htable⟩ | ⟨user, hnew, htable⟩⟩ :=
    update_cases hs hok
  · exact .nothing hkept fun _ => .rfl
  · have hid : current.id = user.id := Table.get_key hcurrent
    refine ⟨fun {u} hu hactive => ?_, fun _ h => h, fun {u} hu hspared hadmin => ⟨?_, hadmin.2⟩⟩
    · have hne : u ≠ (Update.saveColumns o.now user row current).id := by
        intro heq
        exact hu (congrArg some (heq.trans hid)).symm
      rw [htable]
      exact hactive.put_of_ne hne
    · obtain rfl : user.id = u := Option.some.inj hu
      have hactive := hadmin.1
      rw [htable, ← hid]
      rw [← hid] at hactive hcurrent
      exact hactive.saveColumns hcurrent hspared hok
  · have hactive : ∀ {u}, Active sv.db.users.table u → Active db'.users.table u := by
      intro u h
      obtain ⟨r, hr, -⟩ := active_iff.mp h
      rw [htable]
      exact h.put_of_ne (Table.ne_of_get_none hr hnew)
    -- nobody's rights change, the target's neither
    exact ⟨fun _ => hactive, fun _ h => h, fun _ _ hadmin => ⟨hactive hadmin.1, hadmin.2⟩⟩

/-! ### `softDelete` -/

/-- **A step of a deletion**: its commit takes one account out of use, and nothing else shows. -/
theorem softDelete_commits {actor : Uuid} {pc pc' : SoftDelete.Pc}
    (hs : SoftDelete.step c sv.db o pc = some (db', pc'))
    (hok : SoftDelete.Ok c sv.db pc) :
      Commits access c sv { sv with db := db' } (.softDelete actor pc) := by
  rcases SoftDelete.step_cases hs hok with ⟨hi, -, -⟩ | ⟨id, tx, rfl, rfl, rfl⟩
  · exact .nothing hi.usersTable fun _ => .rfl
  · obtain ⟨-, x, now, hid, -, hput⟩ := hok
    have htable : (sv.db.commit c tx).users.table = sv.db.users.table.put
      (SoftDelete.withDeletedAt now x) := by
      show sv.db.users.table.view tx.users = _
      rw [hput]
      rfl
    refine ⟨fun {u} hu hactive => ?_, fun _ h => h, fun _ hspared => hspared.elim⟩
    have hne : u ≠ (SoftDelete.withDeletedAt now x).id := by
      intro heq
      exact hu (congrArg some (heq.trans hid)).symm
    show Active (sv.db.commit c tx).users.table u
    rw [htable]
    exact hactive.put_of_ne hne

/-! ### `setRoles` -/

/-- What a step of `setRoles` does to the rows: it touches those of its owner, and what is committed
    changes with the last step only. -/
structure Replaces (c : C) (heap heap' : Heap JoinRows.JoinRow C) (pc pc' : JoinRows.Pc) : Prop where
  rows      : Heap.Local c (fun row => pc.inFlight = some row.owner) heap heap'
  marks     : ∀ v ∈ heap'.versions.rows, v.Marked c → pc'.inFlight = some v.row.owner
  committed : (∀ row, heap'.Committed row ↔ heap.Committed row) ∨
    ∃ owner ids, pc = .insert owner ids [] ∧ heap' = heap.commit c

/-- A transaction that fails. -/
theorem Replaces.fail {pc : JoinRows.Pc}
    (hmarks : ∀ v ∈ heap.versions.rows, v.Marked c → pc.inFlight = some v.row.owner)
    {e : Failure} : Replaces c heap (heap.rollback c) pc (.failed e) :=
  ⟨Heap.local_rollback hmarks, fun _ hv hm => (Heap.not_marked_rollback hv hm).elim,
    .inl fun _ => Heap.committed_rollback⟩

/-- A statement that touches no row. -/
theorem Replaces.quiet {pc pc' : JoinRows.Pc}
    (hmarks : ∀ v ∈ heap.versions.rows, v.Marked c → pc.inFlight = some v.row.owner)
    (hflight : ∀ owner, pc.inFlight = some owner → pc'.inFlight = some owner) :
      Replaces c heap heap pc pc' :=
  ⟨.refl, fun v hv hm => hflight _ (hmarks v hv hm), .inl fun _ => .rfl⟩

theorem step_replaces {referenced : List Uuid} {label : String} {pc pc' : JoinRows.Pc}
    (hs : JoinRows.step referenced label c heap tid pc = some (heap', pc'))
    (hmarks : ∀ v ∈ heap.versions.rows, v.Marked c → pc.inFlight = some v.row.owner) :
      Replaces c heap heap' pc pc' := by
  -- the marks a statement leaves are on rows of the owner
  have hown : ∀ {owner heap'}, pc.inFlight = some owner →
    Heap.Local c (fun row => pc.inFlight = some row.owner) heap heap' →
      ∀ v ∈ heap'.versions.rows, v.Marked c → some owner = some v.row.owner := by
    intro owner heap' hflight hlocal v hv hm
    rcases hlocal.marks hv hm with ⟨-, hrow⟩ | ⟨v₀, hv₀, hrow, hm₀⟩
    · exact hflight.symm.trans hrow
    · rw [← hrow]
      exact hflight.symm.trans (hmarks v₀ hv₀ hm₀)
  cases pc with
  | start owner ids =>
      simp only [JoinRows.step] at hs
      split at hs
      all_goals
        cases hs
        exact .quiet hmarks fun _ ho => (Option.some_ne_none _ ho.symm).elim
  | delete owner ids =>
      cases hs
      exact .quiet hmarks fun _ ho => (Option.some_ne_none _ ho.symm).elim
  | sweep owner ids todo =>
      simp only [JoinRows.step] at hs
      split at hs
      · cases hs
        exact .quiet hmarks fun _ ho => ho
      · split at hs
        · obtain ⟨heap₁, hd, hres⟩ := Option.map_eq_some_iff.mp hs
          cases hres
          have hlocal : Heap.Local c (fun row => some owner = some row.owner) heap heap' :=
            (Heap.local_delete hd).mono fun row hrow => congrArg some (of_decide_eq_true hrow).symm
          exact ⟨hlocal, hown rfl hlocal, .inl fun _ => Heap.committed_delete hd⟩
        · cases hs
  | select owner ids =>
      cases hs
      exact .quiet hmarks fun _ ho => ho
  | insert owner ids rest =>
      cases rest with
      | nil =>
          cases hs
          exact ⟨Heap.local_commit hmarks, fun _ hv hm => (Heap.not_marked_commit hv hm).elim,
            .inr ⟨owner, ids, rfl, rfl⟩⟩
      | cons ref rest =>
          simp only [JoinRows.step] at hs
          split at hs
          · cases hs
            have hlocal : Heap.Local c (fun row => some owner = some row.owner) heap
              (heap.insert c ⟨owner, ref⟩) :=
              Heap.local_insert rfl
            exact ⟨hlocal, hown rfl hlocal, .inl fun _ => Heap.committed_insert⟩
          · split at hs
            · cases hs
              exact .fail hmarks
            · cases hs
  | done | failed => cases hs

theorem stepSetRoles_replaces {pc pc' : JoinRows.Pc}
    (hs : stepSetRoles access c sv tid pc = some (heap', pc'))
    (hmarks : ∀ v ∈ sv.userRoles.versions.rows, v.Marked c → pc.inFlight = some v.row.owner) :
    Replaces c sv.userRoles heap' pc pc' := by
  unfold stepSetRoles at hs
  split at hs
  · split at hs
    · cases hs
      exact .fail hmarks
    · exact step_replaces hs hmarks
  · exact step_replaces hs hmarks

/-- **A step of a replacement**: its commit gives the account new roles, and nothing else shows. -/
theorem setRoles_commits {actor : Uuid} {pc pc' : JoinRows.Pc}
    (h : Replaces c sv.userRoles heap' pc pc') :
    Commits access c sv { sv with userRoles := heap' } (.setRoles actor pc) := by
  rcases h.committed with hsame | ⟨owner, ids, rfl, rfl⟩
  · exact .nothing rfl hsame
  · refine ⟨fun _ hactive => hactive, fun {u} hu hholds => ?_,
      fun {u} hu hspared hadmin => ⟨hadmin.1, ?_⟩⟩
    · refine hholds.congr fun r => (h.rows.committed fun ho => hu ?_).mpr
      exact ho
    · -- the role the transaction sees is committed now
      obtain ⟨v, hv, rfl, hvisible, hmanages⟩ := hspared
      obtain rfl : v.row.owner = u := Option.some.inj hu
      simp only [Version.visible, Bool.and_eq_true, Bool.or_eq_true, decide_eq_true_eq] at hvisible
      exact holds_iff.mpr ⟨v.row.ref,
        Heap.committed_commit.mpr ⟨v, hv, hvisible.2, hvisible.1, rfl⟩, hmanages⟩

/-! ## Every step

The invariant is small: outlines, and which account's rows are marked. What administrators there are
follows step by step from `accountable`. -/

/-- What a call knows. -/
def CallOk (c : C) (db : Db C) : Call → Prop
  | .update _ pc     => UpdateOk pc
  | .softDelete _ pc => SoftDelete.Ok c db pc
  | _                => True

/-- The account whose roles a call is replacing. -/
def Call.replacing : Call → Option Uuid
  | .setRoles _ pc => pc.inFlight
  | _              => none

/-- **The invariant**: every call is at a point its outline allows, and only `setRoles` has marked rows,
    of its owner. -/
structure Sound (sv : Server C) (calls : C → Call) : Prop where
  outlines : ∀ c, CallOk c sv.db (calls c)
  marks    : ∀ {v c}, v ∈ sv.userRoles.versions.rows → v.Marked c →
    (calls c).replacing = some v.row.owner

/-- What one step of a call does to the invariant's parts. -/
structure Moves (access : Rbac) (c : C) (sv sv' : Server C) (call call' : Call) : Prop where
  outline : CallOk c sv'.db call'
  frame   : Db.Frame c sv.db sv'.db
  rows    : Heap.Local c (fun row => call.replacing = some row.owner) sv.userRoles sv'.userRoles
  marks   : ∀ v ∈ sv'.userRoles.versions.rows, v.Marked c → call'.replacing = some v.row.owner
  commits : Commits access c sv sv' call

omit [DecidableEq C] in
theorem start_ok {actor : Uuid} {request : Request} :
    CallOk c db (request.start actor) ∧ (request.start actor).replacing = none := by
  cases request <;> exact ⟨trivial, rfl⟩

/-- **Own step.** The three services and the abort, put into one statement about the tables and the
    call. -/
theorem exec_moves (h : exec access c sv call a = some (sv', call')) (hok : CallOk c sv.db call)
    (hmarks : ∀ v ∈ sv.userRoles.versions.rows, v.Marked c → call.replacing = some v.row.owner) :
    Moves access c sv sv' call call' := by
  -- a call that replaces no roles has marked no row
  have hunmarked : call.replacing = none → ∀ v ∈ sv.userRoles.versions.rows, ¬ v.Marked c := by
    intro hnone v hv hm
    rw [hmarks v hv hm] at hnone
    cases hnone
  cases a with
  | abort =>
      simp only [exec] at h
      split at h
      · cases h
      · cases h
        exact ⟨trivial, Db.frame_rollback, Heap.local_rollback hmarks,
          fun _ hv hm => (Heap.not_marked_rollback hv hm).elim,
          .nothing rfl fun _ => Heap.committed_rollback⟩
  | run o tid =>
      cases call with
      | guards actor request =>
          simp only [exec] at h
          split at h
          · cases h
            exact ⟨trivial, .refl, .refl, fun v hv hm => (hunmarked rfl v hv hm).elim,
              .nothing rfl fun _ => .rfl⟩
          · split at h
            · cases h
              exact ⟨start_ok.1, .refl, .refl, fun v hv hm => (hunmarked rfl v hv hm).elim,
                .nothing rfl fun _ => .rfl⟩
            · cases h
              exact ⟨trivial, .refl, .refl, fun v hv hm => (hunmarked rfl v hv hm).elim,
                .nothing rfl fun _ => .rfl⟩
      | update actor pc =>
          obtain ⟨⟨db', pc'⟩, hs, hres⟩ := Option.map_eq_some_iff.mp h
          cases hres
          obtain ⟨hok', hframe, -⟩ := update_cases hs hok
          exact ⟨hok', hframe, .refl, fun v hv hm => (hunmarked rfl v hv hm).elim, update_commits hs hok⟩
      | softDelete actor pc =>
          obtain ⟨⟨db', pc'⟩, hs, hres⟩ := Option.map_eq_some_iff.mp h
          cases hres
          obtain ⟨hok', hframe, -⟩ := SoftDelete.step_ok hs hok
          exact ⟨hok', hframe, .refl, fun v hv hm => (hunmarked rfl v hv hm).elim,
            softDelete_commits hs hok⟩
      | setRoles actor pc =>
          obtain ⟨⟨heap', pc'⟩, hs, hres⟩ := Option.map_eq_some_iff.mp h
          cases hres
          have hreplaces := stepSetRoles_replaces hs hmarks
          exact ⟨trivial, .refl, hreplaces.rows, hreplaces.marks, setRoles_commits hreplaces⟩
      | refused | aborted => cases h

omit [DecidableEq C] in
theorem CallOk.frame (h : CallOk c db call) (hf : Db.Frame d db db') (hd : c ≠ d) :
    CallOk c db' call := by
  cases call with
  | softDelete actor pc => exact SoftDelete.Ok.frame h hf hd
  | update actor pc => exact h
  | guards | refused | setRoles | aborted => trivial

/-- **One step keeps the invariant**: the call that moves by its own step, the others because their rows
    stay. -/
theorem Sound.step {calls : C → Call} (h : Sound sv calls) (hm : Moves access c sv sv' (calls c) call') :
    Sound sv' (Function.update calls c call') := by
  constructor
  · intro d
    by_cases hd : d = c
    · subst hd
      rw [Function.update_self]
      exact hm.outline
    · rw [Function.update_of_ne hd]
      exact (h.outlines d).frame hm.frame hd
  · intro v d hv hmark
    by_cases hd : d = c
    · subst hd
      rw [Function.update_self]
      exact hm.marks v hv hmark
    · rw [Function.update_of_ne hd]
      rcases hm.rows.marks hv hmark with ⟨heq, -⟩ | ⟨v₀, hv₀, hrow, hmark₀⟩
      · exact absurd heq hd
      · rw [← hrow]
        exact h.marks hv₀ hmark₀

theorem exec_abort (h : exec access c sv call .abort = some (sv', call')) :
    sv' = ⟨sv.db.rollback c, sv.userRoles.rollback c⟩ := by
  simp only [exec] at h
  split at h
  · cases h
  · cases h
    rfl

omit [DecidableEq C] in
theorem actor_of_target (h : call.target = some u) : ∃ actor, call.actor = some actor := by
  cases call with
  | update actor pc => exact ⟨actor, rfl⟩
  | softDelete actor pc => exact ⟨actor, rfl⟩
  | setRoles actor pc => exact ⟨actor, rfl⟩
  | guards | refused | aborted => cases h

/-- **An accountable step leaves an administrator**: the one there was, or the actor of the call. -/
theorem exec_administers {calls : C → Call} (h : exec access c sv (calls c) a = some (sv', call'))
    (hm : Moves access c sv sv' (calls c) call') (hok : accountable access ⟨sv, calls⟩ c a)
    (hsome : ∃ u, Administers access sv u) : ∃ u, Administers access sv' u := by
  obtain ⟨u, hu⟩ := hsome
  cases a with
  | abort =>
      obtain rfl := exec_abort h
      have hnothing : Commits access c sv ⟨sv.db.rollback c, sv.userRoles.rollback c⟩ .aborted :=
        .nothing rfl fun _ => Heap.committed_rollback
      exact ⟨u, hnothing.others (Option.some_ne_none u).symm hu⟩
  | run o tid =>
      by_cases htarget : (calls c).target = some u
      · obtain ⟨actor, hactor⟩ := actor_of_target htarget
        simp only [accountable, htarget, hactor] at hok
        rcases hok hu with hspared | ⟨hne, hadmin⟩
        · exact ⟨u, hm.commits.spared htarget hspared hu⟩
        · have hother : (calls c).target ≠ some actor := by
            rw [htarget]
            intro heq
            exact hne (Option.some.inj heq).symm
          exact ⟨actor, hm.commits.others hother hadmin⟩
      · exact ⟨u, hm.commits.others htarget hu⟩

/-- The start: requests whose guards have not run, and no transaction in progress on `user_roles`. -/
structure Initial (s : State C) : Prop where
  requests : ∀ c, ∃ actor request, s.calls c = .guards actor request
  rows     : ∀ v ∈ s.shared.userRoles.versions.rows, v.inserting = none ∧ v.deleting = none

omit [DecidableEq C] in
theorem Initial.sound {s : State C} (h : Initial s) : Sound s.shared s.calls := by
  constructor
  · intro c
    obtain ⟨actor, request, hc⟩ := h.requests c
    rw [hc]
    trivial
  · intro v c hv hm
    obtain ⟨hins, hdel⟩ := h.rows v hv
    rcases hm with hm | hm
    · cases hins.symm.trans hm
    · cases hdel.symm.trans hm

end

end Lockout

open Lockout in
/-- **Administration survives**: in every run in which each write that takes `manage:User` from an
    administrator is made by another account that is an administrator at that moment, somebody is an
    administrator in the end if somebody was in the beginning. -/
theorem administration_survives {C : Type} [DecidableEq C] (access : Rbac) {s t : Lockout.State C}
    (hi : Lockout.Initial s)
    (h : Pool.Run (Lockout.exec access) (accountable access) s t)
    (hsome : ∃ u, Administers access s.shared u) :
    ∃ u, Administers access t.shared u := by
  have hinv : Sound t.shared t.calls ∧ ∃ u, Administers access t.shared u := by
    refine h.invariant (I := fun t => Sound t.shared t.calls ∧ ∃ u, Administers access t.shared u) ?_
      ⟨hi.sound, hsome⟩
    rintro t c a u ⟨hsound, hsome⟩ hok hst
    obtain ⟨sv, call, hexec, rfl⟩ := Pool.step_cases hst
    have hmoves := exec_moves hexec (hsound.outlines c) fun v hv hm => hsound.marks hv hm
    exact ⟨hsound.step hmoves, exec_administers hexec hmoves hok hsome⟩
  exact hinv.2

/-! ## Runs -/

namespace Lockout

instance [DecidableEq C] (access : Rbac) (c : C) (sv : Server C) (call : Call) :
    Decidable (call.Spares access c sv) := by
  unfold Call.Spares
  split <;> infer_instance

instance [DecidableEq C] (access : Rbac) (s : State C) (c : C) (a : CallAct) :
    Decidable (accountable access s c a) := by
  unfold accountable
  split <;> infer_instance

theorem Administers.row {access : Rbac} {sv : Server C} {u : Uuid} (h : Administers access sv u) :
    ∃ row ∈ sv.db.users.table.rows, Administers access sv row.id := by
  obtain ⟨row, hrow, -⟩ := active_iff.mp h.1
  obtain ⟨hmem, rfl⟩ := Table.get_eq_some.mp hrow
  exact ⟨row, hmem, h⟩

/-- Nobody is an administrator of a seeded deployment any more. -/
def nobody {n : Nat} (s : State (Fin n)) : Bool :=
  decide (∀ row ∈ s.shared.db.users.table.rows, ¬ Administers seededDb s.shared row.id)

theorem nobody_iff {n : Nat} {s : State (Fin n)} (h : nobody s = true) :
    ¬ ∃ u, Administers seededDb s.shared u := by
  rintro ⟨u, hu⟩
  obtain ⟨row, hrow, hadmin⟩ := hu.row
  exact of_decide_eq_true h row hrow hadmin

/-- The accounts `users`, whose roles are the rows of `userRoles`. -/
def accounts (n : Nat) (users : Table User) (userRoles : Heap JoinRows.JoinRow (Fin n)) :
    Server (Fin n) where
  db := {
    users         := ⟨users, fun _ => none⟩
    refreshTokens := ⟨Table.empty, fun _ => none⟩
    resetTokens   := ⟨Table.empty, fun _ => none⟩
    hashIndex     := fun _ => none }
  userRoles := userRoles

/-- The only administrator asks for the role `user` instead of its own. -/
def ownRoles : State (Fin 1) where
  shared  := accounts 1 seededDb.users ⟨Table.empty.put ⟨0, ⟨seedId 8, seedId 6⟩, none, none⟩, 1, by
    decide +kernel⟩
  calls _ := .guards (seedId 8) (.setRoles (seedId 8).text [(seedId 7).text])

theorem initial_ownRoles : Initial ownRoles := ⟨fun _ => ⟨_, _, rfl⟩, by decide +kernel⟩

/-- Two administrators, each of whom deletes the account of the other. -/
def eachOther : State (Fin 2) where
  shared := accounts 2
    (seededDb.users.put ⟨uuidA, "b@b.co", "hash", none, none, .active, none, 0, 0, none⟩)
    ⟨(Table.empty.put ⟨0, ⟨seedId 8, seedId 6⟩, none, none⟩).put ⟨1, ⟨uuidA, seedId 6⟩, none, none⟩,
      2, by decide +kernel⟩
  calls c := if c.val = 0 then .guards (seedId 8) (.softDelete uuidA.text)
    else .guards uuidA (.softDelete (seedId 8).text)

theorem initial_eachOther : Initial eachOther := by
  refine ⟨fun c => ?_, by decide +kernel⟩
  unfold eachOther
  by_cases hc : c.val = 0
  · exact ⟨_, _, if_pos hc⟩
  · exact ⟨_, _, if_neg hc⟩

/-- Call by call, one step each. -/
def turns (n : Nat) (cs : List Nat) : List (Fin n × CallAct) :=
  Pool.turns n (cs.map fun c => (c, .run (.at 1 uuidA "" uuidA) 0))

end Lockout

/-- **The last administrator gives the right away**: nothing in `setRoles` asks whose roles are
    replaced. -/
theorem administrator_locks_everyone_out : ∃ s t : Lockout.State (Fin 1), Lockout.Initial s ∧
    (∃ u, Lockout.Administers seededDb s.shared u) ∧ Pool.Steps (Lockout.exec seededDb) s t ∧
    ¬ ∃ u, Lockout.Administers seededDb t.shared u := by
  have hrun : (Pool.replay (Lockout.exec seededDb) Pool.anyStep Lockout.ownRoles
      (Lockout.turns 1 [0, 0, 0, 0, 0, 0, 0, 0])).any Lockout.nobody = true := by decide +kernel
  obtain ⟨t, hr, hnobody⟩ := Pool.exists_run_of_replay hrun
  exact ⟨_, t, Lockout.initial_ownRoles, ⟨seedId 8, by decide +kernel⟩, hr, Lockout.nobody_iff hnobody⟩

/-- **Two administrators delete each other**: the guards of both requests run before either account is
    deleted. -/
theorem administrators_delete_each_other : ∃ s t : Lockout.State (Fin 2), Lockout.Initial s ∧
    (∃ u, Lockout.Administers seededDb s.shared u) ∧ Pool.Steps (Lockout.exec seededDb) s t ∧
    ¬ ∃ u, Lockout.Administers seededDb t.shared u := by
  have hrun : (Pool.replay (Lockout.exec seededDb) Pool.anyStep Lockout.eachOther
      (Lockout.turns 2 [0, 1, 0, 0, 0, 0, 0, 0, 1, 1, 1, 1, 1, 1])).any Lockout.nobody = true := by
        decide +kernel
  obtain ⟨t, hr, hnobody⟩ := Pool.exists_run_of_replay hrun
  exact ⟨_, t, Lockout.initial_eachOther, ⟨seedId 8, by decide +kernel⟩, hr, Lockout.nobody_iff hnobody⟩

/-- One of the two deletions alone: the guards of the other refuse. -/
theorem administration_survives_deletion : ∃ t : Lockout.State (Fin 2),
    Pool.Run (Lockout.exec seededDb) (Lockout.accountable seededDb) Lockout.eachOther t ∧
      (t.calls 1).finished = true ∧
    ∃ u, Lockout.Administers seededDb t.shared u := by
  have hrun : (Pool.replay (Lockout.exec seededDb) (Lockout.accountable seededDb) Lockout.eachOther
      (Lockout.turns 2 [0, 0, 0, 0, 0, 0, 0, 1])).any (fun t => (t.calls 1).finished) = true := by
        decide +kernel
  obtain ⟨t, hr, hfinished⟩ := Pool.exists_run_of_replay hrun
  exact ⟨t, hr, hfinished, administration_survives seededDb Lockout.initial_eachOther hr ⟨seedId 8, by
    decide +kernel⟩⟩

end NestApp
