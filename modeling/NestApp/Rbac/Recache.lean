import NestApp.Lib.Pool
import NestApp.Rbac.CacheCoherence

/-!
# `Rbac.Recache` — a permission lookup that interleaves with a mutator

`getPermissionRulesForUser` is three steps: `GET`, the query, `SET`. A mutator looks the affected users
up, writes, and deletes their entries one key at a time. Each step is one statement or one Redis
command, taken from `Rbac.Services`. A lookup that runs its query before the write and its `SET` after
the `DEL` puts the old rules back (`recache_restores_revoked_rules`).

`no_stale_recache`: if no lookup of a user still holds rules loaded before the write when the user's
key is deleted, then after the mutator every entry holds the current rules. The invariant is that an
entry, and what a lookup is about to store, is current — or stale with its key still to be deleted
(`Pc.Pending`).
-/

namespace NestApp

open Sql Prog PermissionsService

namespace Recache

/-! ## Steps

A statement or a Redis command is a step. The mutators are those of `Rbac.Services`, cut between their
statements, so a lookup may stand anywhere in between. -/

/-- The tables and the cache, and whether the mutator's write is committed (read by no call). -/
structure Shared where
  world   : World
  written : Bool

/-- The query with which a mutator answers, after its keys are deleted. -/
inductive Reload where
  | nothing
  | role (id : String)
  | user (id : String)

/-- The points of a lookup and of the mutators. A mutator has three phases: reading, the write, and the
    deletion of keys. -/
inductive Pc where
  -- `getPermissionRulesForUser`, called with the `user.id` of the authenticated account
  | get (userId : Uuid)
  | load (userId : Uuid)
  /-- about to store the rules; `current` tells whether they were loaded after the write -/
  | set (userId : Uuid) (rules : List PermissionRule) (current : Bool)
  | returned (rules : List PermissionRule)
  -- the mutators
  | removePermission (id : String)
  | findHolders (id : String)
  | deletePermission (id : String) (userIds : List Uuid)
  | removeRole (id : String)
  | findMembers (id : String)
  | deleteRole (id : String) (userIds : List Uuid)
  | setPermissions (id : String) (permissionIds : List String)
  | replacePermissions (id : String) (roleId : Uuid) (permissionIds : List String)
  | findMembersAfter (id : String) (roleId : Uuid)
  | setRoles (userId : String) (roleIds : List String)
  | invalidate (keys : List String) (reload : Reload)
  | finished
  | failed (e : Failure)

/-- One step of a call, or the expiry of a cache entry. -/
inductive CacheAct where
  | run
  | expire (key : String)

/-- Continue after a statement that returned or threw. -/
def Pc.after {α : Type} (next : α → Pc) : Except Failure α → Pc
  | .ok a    => next a
  | .error e => .failed e

/-- Statements that only read. -/
def Shared.read {α : Type} (sh : Shared) (body : Service α) (next : α → Pc) : Shared × Pc :=
  (sh, .after next (body sh.world).1)

/-- The write of a mutator: a statement or a transaction. -/
def Shared.write {α : Type} (sh : Shared) (body : Service α) (next : α → Pc) : Shared × Pc :=
  match body sh.world with
  | (.ok a, w)    => (⟨w, true⟩, next a)
  | (.error e, w) => (⟨w, sh.written⟩, .failed e)

def keysOf (userIds : List Uuid) : List String := userIds.map fun userId => cacheKey userId.text

/-- The role a mutator may change. -/
def mutableRole (id : String) (action : String) : Service Role := do
  let role ← RolesService.getOrThrow id
  RolesService.assertMutable role action
  return role

def answer : Reload → Service Unit
  | .nothing => pure ()
  | .role id => do
      let _ ← RolesService.getOrThrow id
      return ()
  | .user id => do
      let _ ← UsersService.findWithRolesOrFail id
      return ()

def step (sh : Shared) : Pc → Option (Shared × Pc)
  | .get userId =>
      match sh.world.cache (cacheKey userId.text) with
      | some rules => some (sh, .returned rules)
      | none       => some (sh, .load userId)
  | .load userId => some (sh, .set userId (sh.world.db.loadPermissionRules userId) sh.written)
  | .set userId rules _ =>
      some (⟨(safeSet (cacheKey userId.text) rules sh.world).2, sh.written⟩, .returned rules)
  | .removePermission id =>
      some (sh.read
        (do
          let permission ← findPermissionById id
          orThrow permission (.http (.badRequest "Permission not found")))
        fun _ => .findHolders id)
  | .findHolders id => some (sh, .deletePermission id (sh.world.db.findUserIdsWithPermission (.cast id)))
  | .deletePermission id userIds =>
      some (sh.write (modify fun w => { w with db := w.db.deletePermission (.cast id) })
        fun _ => .invalidate (keysOf userIds) .nothing)
  | .removeRole id => some (sh.read (mutableRole id "delete") fun _ => .findMembers id)
  | .findMembers id => some (sh, .deleteRole id (sh.world.db.findUserIdsWithRole (.cast id)))
  | .deleteRole id userIds =>
      some (sh.write (modify fun w => { w with db := w.db.deleteRole (.cast id) })
        fun _ => .invalidate (keysOf userIds) .nothing)
  | .setPermissions id permissionIds =>
      some (sh.read (mutableRole id "modify permissions of") fun role =>
        .replacePermissions id role.id permissionIds)
  | .replacePermissions id roleId permissionIds =>
      some (sh.write (RolesService.replacePermissions roleId permissionIds)
        fun _ => .findMembersAfter id roleId)
  | .findMembersAfter id roleId =>
      some (sh, .invalidate (keysOf (sh.world.db.findUserIdsWithRole roleId)) (.role id))
  | .setRoles userId roleIds =>
      some (sh.write (transaction (UsersService.assignRoles userId roleIds)) fun _ =>
        .invalidate [cacheKey userId] (.user userId))
  | .invalidate [] reload => some (sh.read (answer reload) fun _ => .finished)
  | .invalidate (key :: keys) reload =>
      some (⟨(safeDel key sh.world).2, sh.written⟩, .invalidate keys reload)
  | .returned _ | .finished | .failed _ => none

def exec {C : Type} : Pool.Code Shared Pc CacheAct C := fun _ sh pc a =>
  match a with
  | .run        => step sh pc
  | .expire key => some (⟨(safeDel key sh.world).2, sh.written⟩, pc)

abbrev State (C : Type) := Pool.Config Shared Pc C

/-! ## The condition

At the moment a key is deleted, nobody may be about to store old rules under it. In the code nothing
ensures this: a lookup does not know of the deletion. -/

/-- A lookup about to store, under this key, rules loaded before the write. -/
def Pc.holdsOld (key : String) : Pc → Bool
  | .set userId _ current => !current && cacheKey userId.text = key
  | _                     => false

/-- No key is deleted while a lookup holds old rules for it, and `setRoles` spells the user's id as the
    database prints it. -/
def noStaleSet {C : Type} : Pool.Allowed Shared Pc CacheAct C := fun s c a =>
  match a, s.calls c with
  | .run, .invalidate (key :: _) _ => ∀ d, (s.calls d).holdsOld key = false
  | .run, .setRoles userId _       => (Uuid.cast userId).text = userId
  | _, _                           => True

/-! ## The invariant

For each user: the entry, and what any lookup is about to store, is current; or the mutator will still
delete the key. Before the write everything is current anyway, so only the time from the write to the
last deletion matters. -/

def Pc.isReader : Pc → Bool
  | .get _ | .load _ | .set _ _ _ | .returned _ => true
  | _                                           => false

/-- The mutator has not written yet. -/
def Pc.beforeWrite : Pc → Bool
  | .removePermission _ | .findHolders _ | .deletePermission _ _ | .removeRole _ |
      .findMembers _ | .deleteRole _ _
  | .setPermissions _ _ | .replacePermissions _ _ _ | .setRoles _ _ => true
  | _ => false

/-- The entry of user `u` is still going to be deleted by the mutator. -/
def Pc.Pending (db : Rbac) (u : Uuid) : Pc → Prop
  | .findMembersAfter _ roleId => db.HasRole u roleId
  | .invalidate keys _         => cacheKey u.text ∈ keys
  | _                          => False

/-- The users captured before a delete are all those it affects. -/
def Pc.Captured (db : Rbac) : Pc → Prop
  | .deletePermission id userIds => ∀ u r, db.HasRole u r → db.Attached r (.cast id) → u ∈ userIds
  | .deleteRole id userIds       => ∀ u, db.HasRole u (.cast id) → u ∈ userIds
  | _                            => True

/-- These rules are the current ones. -/
def Current (db : Rbac) (u : Uuid) (rules : List PermissionRule) : Prop :=
  ∀ rule, rule ∈ rules ↔ db.Grants u rule

/-- **The invariant**, for the mutator `m`: what is stored, and what a lookup is about to store, is
    current, or its key is still to be deleted. -/
structure Tracked {C : Type} (m : C) (sh : Shared) (calls : C → Pc) : Prop where
  readers  : ∀ c, c ≠ m → (calls c).isReader = true
  mutator  : (calls m).isReader = false
  unwritten : (calls m).beforeWrite = true → sh.written = false
  captured : (calls m).Captured sh.world.db
  entry    : ∀ {u rules}, sh.world.cache (cacheKey u.text) = some rules →
    Current sh.world.db u rules ∨ (calls m).Pending sh.world.db u
  held     : ∀ {c u rules current}, calls c = .set u rules current →
    (current = true → sh.written = true) ∧
      (Current sh.world.db u rules ∨ (current = false ∧ (calls m).Pending sh.world.db u))

variable {C : Type} [DecidableEq C] {m c d : C} {s t : State C} {sh : Shared} {calls : C → Pc}
  {pc pc' : Pc} {db db' : Rbac} {u : Uuid}
  {rules : List PermissionRule} {a : CacheAct}

theorem Current.congr (h : Current db u rules) (hdb : ∀ rule, db'.Grants u rule ↔ db.Grants u rule) :
    Current db' u rules := fun rule => (h rule).trans (hdb rule).symm

theorem safeDel_some {w : World} {key key' : String} (h : (safeDel key w).2.cache key' = some rules) :
    key' ≠ key ∧ w.cache key' = some rules := by
  have h : (if key' ∈ [key] then none else w.cache key') = some rules := h
  simpa [ite_eq_iff] using h

theorem not_pending_of_beforeWrite (h : pc.beforeWrite = true) : ¬ pc.Pending db u := by
  cases pc <;> first | exact fun hp => hp | cases h

/-- The lookups are not moved by a step of the mutator. -/
theorem held_of_update (hr : pc'.isReader = false) {current : Bool}
    (hset : Function.update calls m pc' c = .set u rules current) :
      c ≠ m ∧ calls c = .set u rules current := by
  have hc : c ≠ m := by
    rintro rfl
    rw [Function.update_self] at hset
    rw [hset] at hr
    cases hr
  exact ⟨hc, (Function.update_of_ne hc _ _).symm.trans hset⟩

theorem readers_update (h : Tracked m sh calls) :
    ∀ c, c ≠ m → (Function.update calls m pc' c).isReader = true := by
  intro c hc
  rw [Function.update_of_ne hc]
  exact h.readers c hc

/-! ## Steps of the mutator

It reads, writes once, and deletes keys. A write may make entries stale, and then their keys are among
those it has captured. -/

/-- What a step that only reads may do to the mutator's own state. -/
structure Quiet (db : Rbac) (pc pc' : Pc) : Prop where
  mutator   : pc'.isReader = false
  unwritten : pc'.beforeWrite = true → pc.beforeWrite = true
  captured  : pc'.Captured db
  pending   : ∀ u, pc.Pending db u → pc'.Pending db u

/-- A step that only reads. -/
theorem Tracked.quiet (h : Tracked m sh calls) (hpc : calls m = pc) (hq : Quiet sh.world.db pc pc') :
    Tracked m sh (Function.update calls m pc') := by
  subst hpc
  constructor
  · exact readers_update h
  · rw [Function.update_self]
    exact hq.mutator
  · rw [Function.update_self]
    intro hb'
    exact h.unwritten (hq.unwritten hb')
  · rw [Function.update_self]
    exact hq.captured
  · intro u rules hentry
    rw [Function.update_self]
    exact (h.entry hentry).imp id (hq.pending u)
  · intro c u rules current hset
    obtain ⟨-, hold⟩ := held_of_update hq.mutator hset
    obtain ⟨hloaded, hstate⟩ := h.held hold
    rw [Function.update_self]
    exact ⟨hloaded, hstate.imp id fun ⟨hold, hp⟩ => ⟨hold, hq.pending u hp⟩⟩

/-- The write: the users whose rights it changes have their keys still to be deleted. -/
theorem Tracked.write (h : Tracked m sh calls) (hr : pc'.isReader = false)
    (hbefore : (calls m).beforeWrite = true)
    (hafter : pc'.beforeWrite = false) (hc : pc'.Captured db')
    (hdb : ∀ u, (∀ rule, db'.Grants u rule ↔ sh.world.db.Grants u rule) ∨ pc'.Pending db' u) :
    Tracked m ⟨{ sh.world with db := db' }, true⟩ (Function.update calls m pc') := by
  have hcurrent : ∀ {u rules}, Current sh.world.db u rules → Current db' u rules ∨
    pc'.Pending db' u := by
    intro u rules hcur
    exact (hdb u).imp hcur.congr id
  constructor
  · exact readers_update h
  · rw [Function.update_self]
    exact hr
  · rw [Function.update_self, hafter]
    intro hb'
    cases hb'
  · rw [Function.update_self]
    exact hc
  · intro u rules hentry
    rw [Function.update_self]
    exact hcurrent ((h.entry hentry).resolve_right (not_pending_of_beforeWrite hbefore))
  · intro c u rules current hset
    obtain ⟨-, hold⟩ := held_of_update hr hset
    rw [Function.update_self]
    obtain ⟨hloaded, hstate⟩ := h.held hold
    -- before the write no lookup has loaded the new rules
    have hold' : current = false := by
      cases current with
      | false => rfl
      | true => exact absurd ((h.unwritten hbefore).symm.trans (hloaded rfl)) Bool.false_ne_true
    have hcur : Current sh.world.db u rules :=
      hstate.resolve_right fun hp => not_pending_of_beforeWrite hbefore hp.2
    exact ⟨fun _ => rfl, (hcurrent hcur).imp id fun hp => ⟨hold', hp⟩⟩

/-- Deleting one key, while no lookup holds old rules for it. -/
theorem Tracked.delete (h : Tracked m sh calls) {key : String} {keys : List String} {reload : Reload}
    (hpc : calls m = .invalidate (key :: keys) reload) (hcond : ∀ d, (calls d).holdsOld key = false) :
    Tracked m ⟨(safeDel key sh.world).2, sh.written⟩
      (Function.update calls m (.invalidate keys reload)) := by
  -- the other keys are still in the list
  have hrest : ∀ {u : Uuid}, cacheKey u.text ≠ key → (calls m).Pending sh.world.db u →
    cacheKey u.text ∈ keys := by
    intro u hne hp
    rw [hpc] at hp
    exact (List.mem_cons.mp hp).resolve_left hne
  constructor
  · exact readers_update h
  · rw [Function.update_self]
    rfl
  · rw [Function.update_self]
    intro hb'
    cases hb'
  · rw [Function.update_self]
    trivial
  · intro u rules hentry
    rw [Function.update_self]
    obtain ⟨hne, hentry⟩ := safeDel_some hentry
    exact (h.entry hentry).imp id (hrest hne)
  · intro c u rules current hset
    obtain ⟨-, hold⟩ := held_of_update rfl hset
    rw [Function.update_self]
    refine ⟨(h.held hold).1, ?_⟩
    rcases (h.held hold).2 with hcur | ⟨rfl, hp⟩
    · exact .inl hcur
    · -- old rules are held for another key only, and that one is still to come
      have hne : cacheKey u.text ≠ key := by simpa [hold, Pc.holdsOld] using hcond c
      exact .inr ⟨rfl, hrest hne hp⟩

omit [DecidableEq C] in
/-- An entry that expires. -/
theorem Tracked.expire (h : Tracked m sh calls) (key : String) :
    Tracked m ⟨(safeDel key sh.world).2, sh.written⟩ calls := by
  refine ⟨h.readers, h.mutator, h.unwritten, h.captured, ?_, h.held⟩
  intro u rules hentry
  exact h.entry (safeDel_some hentry).2

/-! ## Every step

One lemma for each kind of statement of a mutator, and their combination. -/

/-- A failed call: nothing is pending, as long as nothing was. -/
theorem quiet_failed {e : Failure} (h : ∀ u, ¬ pc.Pending db u) : Quiet db pc (.failed e) :=
  ⟨rfl, (fun hb => nomatch hb), trivial, fun u hp => (h u hp).elim⟩

/-- A statement of the mutator that only reads, and may throw. -/
theorem Tracked.read_step {α : Type} {body : Service α} {next : α → Pc} (h : Tracked m sh calls)
    (hpc : calls m = pc) (hp : ∀ u, ¬ pc.Pending sh.world.db u)
    (hq : ∀ a, Quiet sh.world.db pc (next a)) :
    Tracked m (sh.read body next).1 (Function.update calls m (sh.read body next).2) := by
  unfold Shared.read
  cases (body sh.world).1 with
  | ok a => exact h.quiet hpc (hq a)
  | error e => exact h.quiet hpc (quiet_failed hp)

/-- The write of the mutator, from what its statement is known to do. -/
theorem Tracked.write_step {body : Service Unit} {next : Unit → Pc} {D : Rbac → Prop}
    (h : Tracked m sh calls) (hpc : calls m = pc) (hbefore : pc.beforeWrite = true)
    (hafter : (next ()).beforeWrite = false) (hr : (next ()).isReader = false)
    (hc : ∀ db', (next ()).Captured db')
    (hbody : Triple (· = sh.world) body (fun _ w' => ∃ db', D db' ∧
      w' = { sh.world with db := db' }) (· = sh.world))
    (hdb : ∀ db', D db' → ∀ u,
      (∀ rule, db'.Grants u rule ↔ sh.world.db.Grants u rule) ∨ (next ()).Pending db' u) :
    Tracked m (sh.write body next).1 (Function.update calls m (sh.write body next).2) := by
  subst hpc
  have hw := hbody sh.world rfl
  unfold Shared.write
  cases hb : body sh.world with
  | mk r w =>
      rw [hb] at hw
      cases r with
      | ok a =>
          obtain ⟨db', hD, rfl⟩ := hw
          exact h.write hr hbefore hafter (hc db') (hdb db' hD)
      | error e =>
          obtain rfl : w = sh.world := hw
          exact h.quiet rfl (quiet_failed fun u => not_pending_of_beforeWrite hbefore)

theorem mem_keysOf {userIds : List Uuid} (h : u ∈ userIds) : cacheKey u.text ∈ keysOf userIds :=
  List.mem_map_of_mem h

/-- **A step of the mutator**: it reads, it makes its one write, or it deletes a key that is pending. -/
theorem Tracked.mutator_step {r : Shared × Pc} (h : Tracked m sh calls) (hs : step sh (calls m) = some r)
    (hcond : noStaleSet ⟨sh, calls⟩ m .run) : Tracked m r.1 (Function.update calls m r.2) := by
  have hreader := h.mutator
  have hcapt := h.captured
  simp only [noStaleSet] at hcond
  -- one case for each statement: reads are `quiet`, the write goes through `write_step`, a `DEL`
  -- through `delete`
  generalize hpc : calls m = pc at hs hreader hcapt hcond
  cases pc with
  | get | load | set | returned => cases hreader
  | finished | failed => cases hs
  | removePermission id =>
      cases hs
      exact h.read_step hpc (fun _ hp => hp) fun _ => ⟨rfl, fun _ => rfl, trivial, fun _ hp => hp⟩
  | findHolders id =>
      cases hs
      refine h.quiet hpc ⟨rfl, fun _ => rfl, fun u r hrole hatt => ?_, fun _ hp => hp.elim⟩
      exact Rbac.mem_findUserIdsWithPermission.mpr ⟨r, hrole, hatt⟩
  | deletePermission id userIds =>
      cases hs
      refine h.write_step (D := (· = sh.world.db.deletePermission (.cast id))) hpc rfl rfl rfl
        (fun _ => trivial)
        (Triple.modify fun _ hw => hw ▸ ⟨_, rfl, rfl⟩) ?_
      rintro _ rfl u
      by_cases hu : ∃ r, sh.world.db.Attached r (.cast id) ∧ sh.world.db.HasRole u r
      · obtain ⟨r, hatt, hrole⟩ := hu
        exact .inr (mem_keysOf (hcapt u r hrole hatt))
      · exact .inl (Rbac.change_deletePermission.grants (fun hn => hn) fun r hatt hrole => hu
          ⟨r, hatt, hrole⟩)
  | removeRole id =>
      cases hs
      exact h.read_step hpc (fun _ hp => hp) fun _ => ⟨rfl, fun _ => rfl, trivial, fun _ hp => hp⟩
  | findMembers id =>
      cases hs
      refine h.quiet hpc ⟨rfl, fun _ => rfl, fun u hrole => ?_, fun _ hp => hp.elim⟩
      exact Rbac.mem_findUserIdsWithRole.mpr hrole
  | deleteRole id userIds =>
      cases hs
      refine h.write_step (D := (· = sh.world.db.deleteRole (.cast id))) hpc rfl rfl rfl
        (fun _ => trivial)
        (Triple.modify fun _ hw => hw ▸ ⟨_, rfl, rfl⟩) ?_
      rintro _ rfl u
      by_cases hu : sh.world.db.HasRole u (.cast id)
      · exact .inr (mem_keysOf (hcapt u hu))
      · exact .inl (Rbac.change_deleteRole.grants (fun hn => hn) fun r hr hrole => hu (hr ▸ hrole))
  | setPermissions id permissionIds =>
      cases hs
      exact h.read_step hpc (fun _ hp => hp) fun _ => ⟨rfl, fun _ => rfl, trivial, fun _ hp => hp⟩
  | replacePermissions id roleId permissionIds =>
      cases hs
      refine h.write_step hpc rfl rfl rfl (fun _ => trivial)
        (RolesService.replacePermissions_spec roleId permissionIds)
        ?_
      -- the holders are looked up afterwards, so until then they are pending as holders
      rintro db' ⟨hchange, hroles⟩ u
      by_cases hu : sh.world.db.HasRole u roleId
      · refine .inr ?_
        rwa [Pc.Pending, Rbac.HasRole, hroles]
      · exact .inl (hchange.grants (fun hn => hn) fun r hr hrole => hu (hr ▸ hrole))
  | findMembersAfter id roleId =>
      cases hs
      refine h.quiet hpc ⟨rfl, (fun hb => by cases hb), trivial, fun u hp => ?_⟩
      exact mem_keysOf (Rbac.mem_findUserIdsWithRole.mpr hp)
  | setRoles userId roleIds =>
      cases hs
      refine h.write_step hpc rfl rfl rfl (fun _ => trivial)
        (transaction_spec (UsersService.assignRoles_spec userId roleIds)) ?_
      intro db' hchange u
      by_cases hu : u = .cast userId
      · subst hu
        exact .inr (by simp [Pc.Pending, hcond])
      · exact .inl (hchange.grants hu fun _ hr => hr.elim)
  | invalidate keys reload =>
      cases keys with
      | nil =>
          cases hs
          exact h.read_step hpc (fun _ hp => List.not_mem_nil hp) fun _ =>
            ⟨rfl, (fun hb => by cases hb), trivial, fun _ hp => (List.not_mem_nil hp).elim⟩
      | cons key keys =>
          cases hs
          exact h.delete hpc hcond

/-! ## Steps of a lookup

A lookup loads what the tables give at that moment. If the write is behind it, these are the current
rules; if not, the key is still to be deleted. -/

/-- A lookup moves; what it stores, or is about to store, is accounted for. -/
theorem Tracked.move_reader {cache' : String → Option (List PermissionRule)}
    (h : Tracked m sh calls) (hc : c ≠ m)
    (hr : pc'.isReader = true)
    (hentry : ∀ {u : Uuid} {rules}, cache' (cacheKey u.text) = some rules →
      sh.world.cache (cacheKey u.text) = some rules ∨ Current sh.world.db u rules ∨
        (calls m).Pending sh.world.db u)
    (hheld : ∀ {u rules current}, pc' = .set u rules current →
      (current = true → sh.written = true) ∧ Current sh.world.db u rules) :
    Tracked m ⟨{ sh.world with cache := cache' }, sh.written⟩ (Function.update calls c pc') := by
  have hm : Function.update calls c pc' m = calls m := Function.update_of_ne hc.symm _ _
  constructor
  · intro d hd
    by_cases hdc : d = c
    · rw [hdc, Function.update_self]
      exact hr
    · rw [Function.update_of_ne hdc]
      exact h.readers d hd
  · rw [hm]
    exact h.mutator
  · rw [hm]
    exact h.unwritten
  · rw [hm]
    exact h.captured
  · intro u rules he
    rw [hm]
    rcases hentry he with hold | hnew
    · exact h.entry hold
    · exact hnew
  · intro d u rules current hset
    rw [hm]
    by_cases hdc : d = c
    · rw [hdc, Function.update_self] at hset
      exact ⟨(hheld hset).1, .inl (hheld hset).2⟩
    · rw [Function.update_of_ne hdc] at hset
      exact h.held hset

/-- **A step of a lookup**: what it stores it has loaded, from the tables as they are, or from older
    ones while its key is pending. -/
theorem Tracked.reader_step {r : Shared × Pc} (h : Tracked m sh calls) (hc : c ≠ m)
    (hs : step sh (calls c) = some r) : Tracked m r.1 (Function.update calls c r.2) := by
  have hreader := h.readers c hc
  generalize hpc : calls c = pc at hs hreader
  cases pc with
  | get userId =>
      simp only [step] at hs
      split at hs
      · cases hs
        exact h.move_reader hc rfl .inl fun he => nomatch he
      · cases hs
        exact h.move_reader hc rfl .inl fun he => nomatch he
  | load userId =>
      cases hs
      refine h.move_reader hc rfl .inl fun he => ?_
      cases he
      exact ⟨id, fun _ => Rbac.mem_loadPermissionRules⟩
  | set userId rules current =>
      cases hs
      refine h.move_reader hc rfl (fun {u rules'} he => ?_) fun he => nomatch he
      have he : Function.update sh.world.cache (cacheKey userId.text) (some rules) (cacheKey u.text) =
        some rules' := he
      by_cases hkey : cacheKey u.text = cacheKey userId.text
      · rw [hkey, Function.update_self] at he
        obtain rfl : rules = rules' := Option.some.inj he
        obtain rfl : u = userId := by
          rw [← Uuid.cast_text u, ← Uuid.cast_text userId, cacheKey_inj.mp hkey]
        -- what is stored is current, or its key is still to be deleted
        exact .inr ((h.held hpc).2.imp id And.right)
      · rw [Function.update_of_ne hkey] at he
        exact .inl he
  | returned => cases hs
  | _ => cases hreader

/-! ## Runs -/

/-- **Every step** of the pool keeps the invariant, under the condition. -/
theorem tracked_step (h : Tracked m s.shared s.calls) (hcond : noStaleSet s c a)
    (hst : Pool.step exec s c a = some t) : Tracked m t.shared t.calls := by
  obtain ⟨sh', pc', hc, rfl⟩ := Pool.step_cases hst
  cases a with
  | expire key =>
      cases hc
      rw [Function.update_eq_self]
      exact h.expire key
  | run =>
      by_cases hcm : c = m
      · subst hcm
        exact h.mutator_step hc hcond
      · exact h.reader_step hcm hc

/-- A mutator, at its first step. -/
def Pc.IsMutation : Pc → Prop
  | .removePermission _ | .removeRole _ | .setPermissions _ _ | .setRoles _ _ => True
  | _ => False

/-- The start: one mutator `m`, every other call a lookup, and the entries current. -/
structure Initial (m : C) (s : State C) : Prop where
  mutator : (s.calls m).IsMutation
  lookups : ∀ c, c ≠ m → ∃ userId, s.calls c = .get userId
  written : s.shared.written = false
  current : ∀ u rules, s.shared.world.cache (cacheKey u.text) = some rules →
    Current s.shared.world.db u rules

omit [DecidableEq C] in
theorem Initial.tracked (h : Initial m s) : Tracked m s.shared s.calls := by
  have hm := h.mutator
  constructor
  · intro c hc
    obtain ⟨userId, hget⟩ := h.lookups c hc
    rw [hget]
    rfl
  · cases hpc : s.calls m <;> simp [hpc, Pc.IsMutation, Pc.isReader] at hm ⊢
  · intro _
    exact h.written
  · cases hpc : s.calls m <;> simp [hpc, Pc.IsMutation, Pc.Captured] at hm ⊢
  · intro u rules hentry
    exact .inl (h.current u rules hentry)
  · -- no lookup has loaded anything yet
    intro c u rules current hset
    by_cases hc : c = m
    · rw [hc] at hset
      rw [hset] at hm
      exact hm.elim
    · obtain ⟨userId, hget⟩ := h.lookups c hc
      cases hget.symm.trans hset

def Pc.done : Pc → Bool
  | .returned _ | .finished | .failed _ => true
  | _                                   => false

end Recache

/-- **No stale re-caching**: with any number of lookups beside one mutator, entries expiring at any
    time, and no lookup holding old rules for a key when it is deleted, once the mutator is done every
    entry holds the rules the tables give. -/
theorem no_stale_recache {C : Type} [DecidableEq C] {m : C} {s t : Recache.State C}
    (hi : Recache.Initial m s)
    (h : Pool.Run Recache.exec Recache.noStaleSet s t) (hdone : (t.calls m).done = true) :
    ∀ u rules, t.shared.world.cache (cacheKey u.text) = some rules →
      ∀ rule, rule ∈ rules ↔ t.shared.world.db.Grants u rule := by
  have htracked : Recache.Tracked m t.shared t.calls :=
    h.invariant (I := fun t => Recache.Tracked m t.shared t.calls)
      (fun hI hok hst => Recache.tracked_step hI hok hst) hi.tracked
  intro u rules hentry
  -- a mutator that is done has no key left to delete
  refine (htracked.entry hentry).resolve_right fun hp => ?_
  cases hpc : t.calls m <;> rw [hpc] at hp hdone <;> first | exact hp | cases hdone

/-! ## Runs -/

namespace Recache

instance {n : Nat} (s : State (Fin n)) (c : Fin n) (a : CacheAct) : Decidable (noStaleSet s c a) := by
  unfold noStaleSet
  split <;> infer_instance

/-- A lookup of the administrator's rules beside the removal of `manage:User`. -/
def lookupAndRemoval : State (Fin 2) where
  shared  := ⟨seededWorld, false⟩
  calls c := if c.val = 0 then .get (seedId 8) else .removePermission (seedId 0).text

theorem initial_lookupAndRemoval : Initial 1 lookupAndRemoval where
  mutator := trivial
  lookups c hc := ⟨seedId 8, if_pos (by omega)⟩
  written := rfl
  current _ _ h := nomatch h

/-- A schedule of single steps. -/
def turns (cs : List Nat) : List (Fin 2 × CacheAct) := Pool.turns 2 (cs.map fun c => (c, .run))

/-- Both calls are done, and the administrator's entry grants what the tables do not. -/
def revokedRuleCached (s : State (Fin 2)) : Bool :=
  decide (∀ c, (s.calls c).done = true) &&
    (s.shared.world.cache (cacheKey (seedId 8).text)).any (⟨.manage, .user⟩ ∈ ·) &&
    !decide (⟨.manage, .user⟩ ∈ s.shared.world.db.loadPermissionRules (seedId 8))

theorem revokedRuleCached_iff {s : State (Fin 2)} (h : revokedRuleCached s = true) :
    (∀ c, (s.calls c).done = true) ∧ ∃ rules, s.shared.world.cache
    (cacheKey (seedId 8).text) = some rules ∧
      ⟨.manage, .user⟩ ∈ rules ∧ ¬ s.shared.world.db.Grants (seedId 8) ⟨.manage, .user⟩ := by
  simp only [revokedRuleCached, Bool.and_eq_true, Option.any_eq_true, decide_eq_true_eq,
    Bool.not_eq_true',
    decide_eq_false_iff_not, Rbac.mem_loadPermissionRules] at h
  obtain ⟨⟨hdone, rules, hentry, hmem⟩, hnot⟩ := h
  exact ⟨hdone, rules, hentry, hmem, hnot⟩

end Recache

/-- **The removed rule comes back**: the lookup runs its query, the permission is removed and the entry
    deleted, and the lookup stores what it had loaded. -/
theorem recache_restores_revoked_rules : ∃ s t : Recache.State (Fin 2), Recache.Initial 1 s ∧
    Pool.Steps Recache.exec s t ∧ (∀ c, (t.calls c).done = true) ∧
    ∃ u rules, t.shared.world.cache (cacheKey u.text) = some rules ∧
      ∃ rule ∈ rules, ¬ t.shared.world.db.Grants u rule := by
  have hrun : (Pool.replay Recache.exec Pool.anyStep Recache.lookupAndRemoval
      (Recache.turns [0, 0, 1, 1, 1, 1, 1, 0])).any Recache.revokedRuleCached = true := by decide +kernel
  obtain ⟨t, hr, hcheck⟩ := Pool.exists_run_of_replay hrun
  obtain ⟨hdone, rules, hentry, hmem, hnot⟩ := Recache.revokedRuleCached_iff hcheck
  exact ⟨_, t, Recache.initial_lookupAndRemoval, hr, hdone, seedId 8, rules, hentry, _, hmem, hnot⟩

/-- A lookup that stores its rules before the key is deleted does no harm. -/
theorem no_stale_recache_early : ∃ t : Recache.State (Fin 2),
    Pool.Run Recache.exec Recache.noStaleSet Recache.lookupAndRemoval t ∧ (t.calls 1).done = true ∧
    ∀ u rules, t.shared.world.cache (cacheKey u.text) = some rules →
      ∀ rule, rule ∈ rules ↔ t.shared.world.db.Grants u rule := by
  have hrun : (Pool.replay Recache.exec Recache.noStaleSet Recache.lookupAndRemoval
      (Recache.turns [0, 0, 1, 1, 1, 0, 1, 1])).any (fun t => (t.calls 1).done) = true := by
        decide +kernel
  obtain ⟨t, hr, hdone⟩ := Pool.exists_run_of_replay hrun
  exact ⟨t, hr, hdone, no_stale_recache Recache.initial_lookupAndRemoval hr hdone⟩

end NestApp
