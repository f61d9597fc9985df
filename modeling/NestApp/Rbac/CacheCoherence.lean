import NestApp.Rbac.Seed

/-!
# `Rbac.CacheCoherence` — the permission cache over whole runs

Between two calls, a cache entry should hold the rules the tables give the user. Every mutator deletes
the entries of the users whose rights it changes, but `setRoles` builds the key from the id *as the
request spells it*: `ParseUUIDPipe` lets upper case pass, the database casts it, and the entry under
the canonical key stays (`set_roles_leaves_stale_entry`). The other mutators take the ids from the
database.

`permission_cache_coherent`: with ids spelled as the database prints them, every reachable cache is
coherent. The invariant adds to coherence that keys are spelled canonically, and that an entry is about
a user whose rules have been asked for: the id of a new user has no entry.
-/

namespace NestApp

open Sql Prog PermissionsService

/-- Every entry holds the current rules of its user. -/
def Coherent (w : World) : Prop :=
  ∀ userId rules, w.cache (cacheKey userId) = some rules → ∀ rule, rule ∈ rules ↔
    w.db.Grants (.cast userId) rule

/-- `getPermissionRulesForUser` returns the current rules of a user. -/
def ReturnsCurrent (w : World) (userId : String) : Prop :=
  ∃ rules, (getPermissionRulesForUser userId w).1 = .ok rules ∧ ∀ rule, rule ∈ rules ↔
    w.db.Grants (.cast userId) rule

/-- The id generated for a new user is fresh: nobody has asked for its rules. -/
def Event.freshId (w : World) : Event → Prop
  | .call o request => request.createsUser → o.id ∉ w.asked
  | .expire _       => True

/-- The id a request turns into a key is spelled as the database prints it. -/
def Event.canonicalId : Event → Prop
  | .call _ (.getPermissionRulesForUser userId) => (Uuid.cast userId).text = userId
  | .call _ (.setRoles userId _)                => (Uuid.cast userId).text = userId
  | _                                           => True

/-! ## The invariant

An entry may be looked at in two ways: as what `GET` answers for a key, and as what was true for a user
when it was stored. The invariant says that the two agree now, for every key. -/

/-- **The invariant**: entries are current, they stand under canonical keys, and they are about users
    whose rules have been asked for. -/
structure CacheInvariant (w : World) : Prop where
  coherent  : Coherent w
  canonical : ∀ {userId rules}, w.cache (cacheKey userId) = some rules → (Uuid.cast userId).text = userId
  asked     : ∀ {userId rules}, w.cache (cacheKey userId) = some rules → .cast userId ∈ w.asked

theorem cacheKey_inj {a b : String} : cacheKey a = cacheKey b ↔ a = b := by
  simp [cacheKey]

variable {env : Env} {o : Choice} {w w' : World} {request : Request}

theorem wrote_some {db : Rbac} {keys : List String} {key : String} {rules : List PermissionRule}
    (h : (w.wrote db keys).cache key = some rules) : key ∉ keys ∧ w.cache key = some rules := by
  simpa [World.wrote, ite_eq_iff] using h

/-- Deleting the entries of everybody whose rights changed keeps the invariant. -/
theorem CacheInvariant.wrote (h : CacheInvariant w) {db : Rbac} {keys : List String}
    (hkeys : ∀ u : Uuid, cacheKey u.text ∈ keys ∨ u ∉ w.asked ∨ ∀ rule, db.Grants u rule ↔
      w.db.Grants u rule) :
    CacheInvariant (w.wrote db keys) where
  coherent := by
    intro userId rules hentry rule
    obtain ⟨hkey, hentry⟩ := wrote_some hentry
    rw [h.coherent userId rules hentry rule]
    -- the entry is still there, so its user's rights are those of before
    rcases hkeys (.cast userId) with hdel | hnew | hsame
    · rw [h.canonical hentry] at hdel
      exact absurd hdel hkey
    · exact absurd (h.asked hentry) hnew
    · exact (hsame rule).symm
  canonical hentry := h.canonical (wrote_some hentry).2
  asked hentry := h.asked (wrote_some hentry).2

/-- Asking for a user's rules, without touching an entry. -/
theorem CacheInvariant.ask (h : CacheInvariant w) (u : Uuid) :
    CacheInvariant { w with asked := u :: w.asked } :=
  ⟨h.coherent, h.canonical, fun hentry => List.mem_cons_of_mem _ (h.asked hentry)⟩

/-- Storing the rules just loaded, under a canonical key. -/
theorem CacheInvariant.store (h : CacheInvariant w) {userId : String}
    (hid : (Uuid.cast userId).text = userId)
    (hasked : .cast userId ∈ w.asked) : CacheInvariant
      { w with
        cache := Function.update w.cache (cacheKey userId)
          (some (w.db.loadPermissionRules (.cast userId))) } := by
  have hcases : ∀ {userId' rules}, Function.update w.cache (cacheKey userId)
      (some (w.db.loadPermissionRules (.cast userId))) (cacheKey userId') = some rules →
      (userId' = userId ∧ rules = w.db.loadPermissionRules (.cast userId)) ∨
        w.cache (cacheKey userId') = some rules := by
    intro userId' rules hentry
    by_cases he : userId' = userId
    · subst he
      rw [Function.update_self] at hentry
      exact .inl ⟨rfl, (Option.some.inj hentry).symm⟩
    · rw [Function.update_of_ne fun hk => he (cacheKey_inj.mp hk)] at hentry
      exact .inr hentry
  constructor
  · intro userId' rules hentry rule
    rcases hcases hentry with ⟨rfl, rfl⟩ | hold
    · exact Rbac.mem_loadPermissionRules
    · exact h.coherent userId' rules hold rule
  · intro userId' rules hentry
    rcases hcases hentry with ⟨rfl, -⟩ | hold
    · exact hid
    · exact h.canonical hold
  · intro userId' rules hentry
    rcases hcases hentry with ⟨rfl, -⟩ | hold
    · exact hasked
    · exact h.asked hold

/-- **One call keeps the invariant**, if the ids it is given are canonical and the one it generates is
    fresh: the keys of the users whose rules have changed are deleted before it returns. -/
theorem Outcome.cacheInvariant (hout : Outcome o w request w') (h : CacheInvariant w)
    (hfresh : (Event.call o request).freshId w) (hid : (Event.call o request).canonicalId) :
      CacheInvariant w' := by
  cases hout with
  | unchanged => exact h
  | hit userId => exact h.ask _
  | loaded userId => exact (h.ask (.cast userId)).store hid List.mem_cons_self
  | userCreated creates change =>
      rw [← wrote_nil]
      refine h.wrote fun u => ?_
      by_cases hu : u = o.id
      · exact .inr (.inl (hu ▸ hfresh creates))
      · exact .inr (.inr (change.grants hu fun _ h => h.elim))
  | rolesSet userId roleIds db' change =>
      refine h.wrote fun u => ?_
      by_cases hu : u = .cast userId
      · -- with a canonical spelling the key deleted is the key of the entry
        exact .inl (by simp [hu, show (Uuid.cast userId).text = userId from hid])
      · exact .inr (.inr (change.grants hu fun _ h => h.elim))
  | wrote R db' keys change invalidated _ =>
      refine h.wrote fun u => ?_
      -- a holder of a role in `R` has lost the entry; the rights of the others are unchanged
      by_cases hu : ∃ r, R r ∧ w.db.HasRole u r
      · obtain ⟨r, hr, hhas⟩ := hu
        exact .inl (invalidated r u hr hhas)
      · exact .inr (.inr (change.grants (fun h => h) fun r hr hhas => hu ⟨r, hr, hhas⟩))

/-- In a coherent cache the rules returned are the current ones, from an entry or from the tables. -/
theorem getPermissionRulesForUser_current (h : Coherent w) (userId : String) :
    Triple (· = w) (getPermissionRulesForUser userId)
      (fun rules _ => ∀ rule, rule ∈ rules ↔ w.db.Grants (.cast userId) rule) fun _ => False := by
  refine Triple.modify_single (Triple.gets_single ?_)
  cases hentry : w.cache (cacheKey userId) with
  | some rules => exact Triple.pure_single (h userId rules hentry)
  | none =>
      exact Triple.gets_single
        (Triple.modify_single (Triple.pure_single fun _ => Rbac.mem_loadPermissionRules))

theorem Coherent.returnsCurrent (h : Coherent w) (userId : String) : ReturnsCurrent w userId :=
  (getPermissionRulesForUser_current h userId).returns rfl

/-- **The permission cache stays coherent**: from an empty cache, over every run of calls and expiries
    in which new users get fresh ids and the ids turned into keys are spelled canonically, every entry
    holds the current rules, and so every lookup returns them. -/
theorem permission_cache_coherent {db : Rbac}
    (h : Reaches env (fun w e => e.freshId w ∧ e.canonicalId) ⟨db, fun _ => none, []⟩ w) :
    Coherent w ∧ ∀ userId, ReturnsCurrent w userId := by
  have hinv : CacheInvariant w := by
    refine h.invariant ⟨?_, ?_, ?_⟩ (fun hI hok hout => hout.cacheInvariant hI hok.1 hok.2) fun hI =>
      hI.wrote fun u => .inr (.inr fun _ => .rfl)
    all_goals
      intro userId rules hentry
      cases hentry
  exact ⟨hinv.coherent, hinv.coherent.returnsCurrent⟩

/-! ## Runs

One administrator is cached and then demoted, by a path that spells the id in upper case or as the
database prints it. -/

instance (w : World) (e : Event) : Decidable (e.freshId w) := by
  unfold Event.freshId
  split <;> infer_instance

instance (e : Event) : Decidable e.canonicalId := by
  unfold Event.canonicalId
  split <;> infer_instance

theorem getPermissionRulesForUser_hit {userId : String} {rules : List PermissionRule}
    (h : w.cache (cacheKey userId) = some rules) :
      (getPermissionRulesForUser userId w).1 = .ok rules := by
  have hit : Triple (· = w) (getPermissionRulesForUser userId) (fun found _ => found = rules)
    fun _ => False := by
    refine Triple.modify_single (Triple.gets_single ?_)
    rw [h]
    exact Triple.pure_single rfl
  obtain ⟨found, hok, rfl⟩ := hit.returns rfl
  exact hok

/-- The administrator's rules are cached, and the administrator is made a plain user. The path of the
    second request spells the id as given. -/
def demotion (userId : String) : List Event :=
  [.plain (.getPermissionRulesForUser (seedId 8).text), .plain (.setRoles userId [(seedId 7).text])]

/-- **A demoted administrator stays one**: the request spells the id in upper case, and the rules
    returned for the account are those of before. -/
theorem set_roles_leaves_stale_entry : ∃ (w : World) (rules : List PermissionRule),
    Reaches toyEnv (fun w e => e.freshId w) seededWorld w ∧
    w.cache (cacheKey (seedId 8).text) = some rules ∧
    (getPermissionRulesForUser (seedId 8).text w).1 = .ok rules ∧
    ⟨.manage, .user⟩ ∈ rules ∧ ¬ w.db.Grants (seedId 8) ⟨.manage, .user⟩ := by
  have hrun := reaches_events toyEnv (fun w e => e.freshId w) seededWorld
    (demotion "6F2A5B7C-8D1E-4F3A-9B2C-1D2E3F4A5B08") (by decide +kernel)
  have hentry : ((demotion "6F2A5B7C-8D1E-4F3A-9B2C-1D2E3F4A5B08").foldl
    (World.next toyEnv) seededWorld).cache
      (cacheKey (seedId 8).text) = some (seededDb.loadPermissionRules (seedId 8)) := by decide +kernel
  exact ⟨_, _, hrun, hentry, getPermissionRulesForUser_hit hentry, by decide +kernel,
    fun h => absurd (Rbac.mem_loadPermissionRules.mpr h) (by decide +kernel)⟩

/-- Spelled as the database prints it, the same request takes the rights. -/
theorem permission_cache_coherent_demotion : ∃ w : World,
    Reaches toyEnv (fun w e => e.freshId w ∧ e.canonicalId) seededWorld w ∧
    (Coherent w ∧ ∀ userId, ReturnsCurrent w userId) ∧ ¬ w.db.Grants (seedId 8) ⟨.manage, .user⟩ := by
  have hrun := reaches_events toyEnv (fun w e => e.freshId w ∧ e.canonicalId) seededWorld
    (demotion (seedId 8).text) (by decide +kernel)
  exact ⟨_, hrun, permission_cache_coherent hrun,
    fun h => absurd (Rbac.mem_loadPermissionRules.mpr h) (by decide +kernel)⟩

end NestApp
