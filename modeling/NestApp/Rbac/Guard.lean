import NestApp.Lib.Json
import NestApp.Rbac.CacheCoherence

/-!
# `Rbac.Guard` — `PermissionsGuard.canActivate`, from the tables to the decision

The guard of a route asks for the rules of the user, builds an ability from them and checks every rule
the route requires. The rules come from the three-table query, in the order the database likes, or from
the text an earlier call stored in Redis. The ability is CASL's, a parameter here with what its
documentation says of unconditional rules.

`authorization_is_reachability`: the decision is that of the relation `Allows`, through `user_roles`
and `role_permissions`. Neither the order of the rows nor the round trip through the cache matters, and
more rights never refuse what fewer rights admit.
-/

namespace NestApp

open Sql Prog

/-! ## CASL

The library is a parameter, and `Casl.Unconditional` is what its documentation says about rules without
conditions. Nothing is assumed about rules of any other kind, as the application builds none. -/

/-- A rule as CASL is given it. -/
structure AbilityRule where
  action  : String
  subject : String
deriving DecidableEq

/-- The ability library: `createMongoAbility` and `ability.can`. -/
structure Casl where
  Ability            : Type
  createMongoAbility : List AbilityRule → Ability
  can                : Ability → String → String → Bool

/-- Rules without conditions: one must match, `manage` stands for every action and `all` for every
    subject. -/
def Casl.Unconditional (casl : Casl) : Prop :=
  ∀ rules action subject, casl.can (casl.createMongoAbility rules) action subject = true ↔
    ∃ r ∈ rules, (r.action = action ∨ r.action = "manage") ∧ (r.subject = subject ∨ r.subject = "all")

/-! ## The rules, as JSON

An entry is a text, so what comes back from Redis need not be what was stored. The round trip is that
of `Lib.Json`, for lists of objects with two members. -/

def PermissionRule.json (rule : PermissionRule) : Json :=
  .obj [("action", .str rule.action.text), ("subject", .str rule.subject.text)]

/-- The rule, as CASL is given it. -/
def PermissionRule.ability (rule : PermissionRule) : AbilityRule := ⟨rule.action.text, rule.subject.text⟩

def rulesJson (rules : List PermissionRule) : Json := .arr (rules.map PermissionRule.json)

/-- `if (cached)` -/
def truthy : Json → Bool
  | .null | .bool false => false
  | .str s              => s ≠ ""
  | _                   => true

def asString : Json → Option String
  | .str s => some s
  | _      => none

/-- `({ action: rule.action, subject: rule.subject })` -/
def abilityRule (rule : Json) : Option AbilityRule := do
  let action ← (rule.field "action").bind asString
  let subject ← (rule.field "subject").bind asString
  return ⟨action, subject⟩

/-- `rules.map(…)` (`none`: the value is not a list of rules). -/
def abilityRules : Json → Option (List AbilityRule)
  | .arr rules => rules.mapM abilityRule
  | _          => none

/-! ## The guard

The statements of the guard and of the lookup under it, over the texts of the cache. Redis failures are
caught and count as no entry. -/

/-- The tables, and the texts stored in Redis. -/
structure Backend where
  db    : Rbac
  redis : String → Option String

abbrev Guarded (α : Type) : Type := Prog Backend Failure α

namespace PermissionsGuard

open PermissionsService (cacheKey)

/-- `safeGet`: an empty text and a text that is no JSON count as no entry. -/
def safeGet (key : String) : Guarded (Option Json) :=
  gets fun s => ((s.redis key).filter (· ≠ "")).bind Json.parse

def safeSet (key : String) (rules : List PermissionRule) : Guarded Unit :=
  modify fun s => { s with redis := Function.update s.redis key (some (rulesJson rules).stringify) }

/-- `order` is the order in which the database returns the rows. -/
def getPermissionRulesForUser (order : List PermissionRule → List PermissionRule)
    (userId : String) : Guarded Json := do
  let cached ← safeGet (cacheKey userId)
  match cached.filter truthy with
  | some rules => return rules
  | none => do
      let rules ← gets fun s => order (s.db.loadPermissionRules (.cast userId))
      safeSet (cacheKey userId) rules
      return rulesJson rules

variable (casl : Casl)

def getAbilityForUser (order : List PermissionRule → List PermissionRule) (userId : String) :
    Guarded casl.Ability := do
  let rules ← getPermissionRulesForUser order userId
  let rules ← orThrow (abilityRules rules) .unexpected
  return casl.createMongoAbility rules

def insufficientPermissions : Failure := .http (.forbidden "Insufficient permissions")

def assertPermissionRules (ability : casl.Ability) (rules : List PermissionRule) : Guarded Unit :=
  throwIf (rules.length > 0 ∧
    rules.any (fun rule => !casl.can ability rule.action.text rule.subject.text))
    insufficientPermissions

/-- `required` is what `@RequirePermissions` has put on the route, `user` what the authentication has
    put on the request. -/
def canActivate (order : List PermissionRule → List PermissionRule)
    (required : Option (List PermissionRule))
    (user : Option User) : Guarded Bool :=
  match required with
  | none | some [] => return true
  | some rules => do
      let user ← orThrow user (.http (.unauthorized "Unauthorized"))
      let ability ← getAbilityForUser casl order user.id.text
      assertPermissionRules casl ability rules
      return true

end PermissionsGuard

/-! ## The cache

What Redis may hold for a user while the tables stay as they are: nothing, or what an earlier lookup
stored. The order of the rows is whatever the database made it then. -/

namespace PermissionsGuard

open PermissionsService (cacheKey)

/-- The database returns the rows of a query in some order. -/
def Reorders (order : List PermissionRule → List PermissionRule) : Prop := ∀ l, (order l).Perm l

/-- What Redis can hold, in one database state, from a time on when it had no entry for the user: calls
    store entries, and entries expire. -/
inductive EarlierCalls (db : Rbac) (user : User) : (String → Option String) → Prop where
  | start {redis} (h : redis (cacheKey user.id.text) = none) : EarlierCalls db user redis
  | call {redis} (h : EarlierCalls db user redis) {order} (horder : Reorders order) (userId : String) :
      EarlierCalls db user (getPermissionRulesForUser order userId ⟨db, redis⟩).2.redis
  | expire {redis} (h : EarlierCalls db user redis) (key : String) : EarlierCalls db user
      (Function.update redis key none)

variable {db : Rbac} {redis : String → Option String} {user : User}
  {order : List PermissionRule → List PermissionRule}
  {userId : String}

/-- An entry with the rules of a user, as the tables have them. -/
def Entry (db : Rbac) (userId : String) (text : Option String) : Prop :=
  ∃ rows : List PermissionRule, rows.Perm (db.loadPermissionRules (.cast userId)) ∧
    text = some (rulesJson rows).stringify

theorem safeGet_none (h : redis (cacheKey userId) = none) :
    safeGet (cacheKey userId) ⟨db, redis⟩ = (.ok none, ⟨db, redis⟩) := by
  show (Except.ok (((redis (cacheKey userId)).filter _).bind Json.parse), _) = _
  rw [h]
  rfl

/-- **The round trip**: an entry is read back as the rules it was written from. -/
theorem safeGet_entry {rows : List PermissionRule}
    (h : redis (cacheKey userId) = some (rulesJson rows).stringify) :
    safeGet (cacheKey userId) ⟨db, redis⟩ = (.ok (some (rulesJson rows)), ⟨db, redis⟩) := by
  show (Except.ok (((redis (cacheKey userId)).filter _).bind Json.parse), _) = _
  rw [h, Option.filter_some, if_pos (by simpa using Json.stringify_ne_empty _),
    Option.bind_some, Json.parse_stringify]

/-- No entry: the rules are loaded and stored. -/
theorem getPermissionRulesForUser_miss (db : Rbac) (order : List PermissionRule → List PermissionRule)
    (h : redis (cacheKey userId) = none) :
    getPermissionRulesForUser order userId ⟨db, redis⟩ =
      (.ok (rulesJson (order (db.loadPermissionRules (.cast userId)))),
        ⟨db, Function.update redis (cacheKey userId)
          (some (rulesJson (order (db.loadPermissionRules (.cast userId)))).stringify)⟩) := by
  rw [getPermissionRulesForUser, bind_ok (safeGet_none h)]
  rfl

/-- An entry is returned as it is, also an empty one. -/
theorem getPermissionRulesForUser_entry {rows : List PermissionRule}
    (h : redis (cacheKey userId) = some (rulesJson rows).stringify) :
    getPermissionRulesForUser order userId ⟨db, redis⟩ = (.ok (rulesJson rows), ⟨db, redis⟩) := by
  rw [getPermissionRulesForUser, bind_ok (safeGet_entry h)]
  rfl

/-- A call writes no entry but that of its user. -/
theorem getPermissionRulesForUser_other (s : Backend) {key : String} (h : key ≠ cacheKey userId) :
    (getPermissionRulesForUser order userId s).2.redis key = s.redis key := by
  have htriple : Triple (· = s) (getPermissionRulesForUser order userId)
    (fun _ s' => s'.redis key = s.redis key)
      fun s' => s'.redis key = s.redis key := by
    refine Triple.gets_single ?_
    split
    · exact Triple.pure_single rfl
    · exact Triple.gets_single (Triple.modify_single (Triple.pure_single (Function.update_of_ne h _ _)))
  exact htriple.final rfl

/-- **The entry of the user**, after the earlier calls: none, or the rules the tables give. -/
theorem EarlierCalls.entry (h : EarlierCalls db user redis) :
    redis (cacheKey user.id.text) = none ∨ Entry db user.id.text (redis (cacheKey user.id.text)) := by
  induction h with
  | start h => exact .inl h
  | expire _ key ih =>
      by_cases hkey : cacheKey user.id.text = key
      · subst hkey
        exact .inl (Function.update_self _ _ _)
      · rw [Function.update_of_ne hkey]
        exact ih
  | @call redis _ order horder userId ih =>
      by_cases hkey : cacheKey user.id.text = cacheKey userId
      case neg =>
        rw [getPermissionRulesForUser_other ⟨db, redis⟩ hkey]
        exact ih
      case pos =>
        obtain rfl : user.id.text = userId := cacheKey_inj.mp hkey
        rcases ih with hnone | ⟨rows, hrows, hentry⟩
        · rw [getPermissionRulesForUser_miss db order hnone]
          exact .inr ⟨_, horder _, Function.update_self _ _ _⟩
        · rw [getPermissionRulesForUser_entry hentry]
          exact .inr ⟨rows, hrows, hentry⟩

/-- The rules a call returns are those of the tables, in some order. -/
theorem getPermissionRulesForUser_rules (h : EarlierCalls db user redis) (horder : Reorders order) :
    ∃ (rows : List PermissionRule) (s : Backend), rows.Perm (db.loadPermissionRules user.id) ∧
      getPermissionRulesForUser order user.id.text ⟨db, redis⟩ = (.ok (rulesJson rows), s) := by
  rcases h.entry with hnone | ⟨rows, hrows, hentry⟩
  · have hperm := horder (db.loadPermissionRules (.cast user.id.text))
    have hmiss := getPermissionRulesForUser_miss db order hnone
    rw [Uuid.cast_text] at hperm hmiss
    exact ⟨_, _, hperm, hmiss⟩
  · rw [Uuid.cast_text] at hrows
    exact ⟨rows, _, hrows, getPermissionRulesForUser_entry hentry⟩

/-- The texts of a cache. -/
def texts (cache : String → Option (List PermissionRule)) (key : String) : Option String :=
  (cache key).map fun rules => (rulesJson rules).stringify

/-- **The texts and the rules**: on the texts of a cache the lookup is `getPermissionRulesForUser` on
    the rules. -/
theorem getPermissionRulesForUser_texts (w : World) (userId : String) :
    getPermissionRulesForUser id userId ⟨w.db, texts w.cache⟩ =
      ((PermissionsService.getPermissionRulesForUser userId w).1.map rulesJson,
        ⟨(PermissionsService.getPermissionRulesForUser userId w).2.db,
          texts (PermissionsService.getPermissionRulesForUser userId w).2.cache⟩) := by
  cases hentry : w.cache (cacheKey userId) with
  | some rules =>
      have htyped : PermissionsService.getPermissionRulesForUser userId w =
          (.ok rules, { w with asked := .cast userId :: w.asked }) := by
        rw [PermissionsService.getPermissionRulesForUser, modify_bind, PermissionsService.safeGet,
          gets_bind, hentry]
        rfl
      rw [getPermissionRulesForUser_entry (congrArg (Option.map _) hentry), htyped]
      rfl
  | none =>
      have htyped : PermissionsService.getPermissionRulesForUser userId w =
          (.ok (w.db.loadPermissionRules (.cast userId)),
            { w with
              asked := .cast userId :: w.asked
              cache := Function.update w.cache (cacheKey userId)
                (some (w.db.loadPermissionRules (.cast userId))) }) := by
        rw [PermissionsService.getPermissionRulesForUser, modify_bind, PermissionsService.safeGet,
          gets_bind, hentry]
        rfl
      have hupdate := Function.apply_update
        (fun _ => Option.map fun rules => (rulesJson rules).stringify) w.cache
        (cacheKey userId) (some (w.db.loadPermissionRules (.cast userId)))
      rw [getPermissionRulesForUser_miss w.db id (congrArg (Option.map _) hentry), htyped]
      congr 2
      funext key
      exact (hupdate key).symm

/-! ## The ability

The ability does not depend on the order of its rules, as none of them forbids anything. -/

theorem abilityRules_rulesJson (rows : List PermissionRule) :
    abilityRules (rulesJson rows) = some (rows.map PermissionRule.ability) := by
  show (rows.map PermissionRule.json).mapM abilityRule = _
  have hone : ∀ r : PermissionRule, abilityRule r.json = some r.ability := fun _ => rfl
  induction rows with
  | nil => rfl
  | cons r rows ih => rw [List.map_cons, List.mapM_cons, hone, ih, List.map_cons]; rfl

end PermissionsGuard

/-! ## What a user may do

The relation the decision is compared with, without cache, order or library. -/

/-- **The user may do what a rule says**: one of the user's roles has a permission on its subject, for
    its action or for `manage`. -/
def Rbac.Allows (db : Rbac) (u : Uuid) (rule : PermissionRule) : Prop :=
  ∃ r p, db.HasRole u r ∧ db.Attached r p ∧
    ∃ row, db.permissions.get p = some row ∧ row.subject = rule.subject ∧
      (row.action = rule.action ∨ row.action = .manage)

namespace Rbac

variable {db db' : Rbac} {u u' : Uuid} {rule : PermissionRule}

/-- A rule is allowed iff one with its subject is granted. -/
theorem allows_iff :
    db.Allows u rule ↔ ∃ granted, db.Grants u granted ∧ granted.subject = rule.subject ∧
      (granted.action = rule.action ∨ granted.action = .manage) := by
  constructor
  · rintro ⟨r, p, hrole, hatt, row, hrow, hsubject, haction⟩
    exact ⟨row.rule, ⟨r, hrole, p, hatt, row, hrow, rfl⟩, hsubject, haction⟩
  · rintro ⟨granted, ⟨r, hrole, p, hatt, row, hrow, rfl⟩, hsubject, haction⟩
    exact ⟨r, p, hrole, hatt, row, hrow, hsubject, haction⟩

theorem Allows.mono (h : db.Allows u rule) (hgrants : ∀ rule, db.Grants u rule → db'.Grants u' rule) :
    db'.Allows u' rule := by
  rw [allows_iff] at h ⊢
  obtain ⟨granted, hgranted, hrest⟩ := h
  exact ⟨granted, hgrants granted hgranted, hrest⟩

/-- Assigning a role takes no right away. -/
theorem grants_insertUserRole {userId roleId : Uuid} (h : db.insertUserRole userId roleId = some db')
    (hgrants : db.Grants u rule) : db'.Grants u rule := by
  obtain ⟨r, hrole, hcarries⟩ := hgrants
  unfold insertUserRole at h
  split at h
  · cases h
    refine ⟨r, ?_, hcarries⟩
    show ⟨u, r⟩ ∈ (db.userRoles.put ⟨userId, roleId⟩).rows
    rw [Table.mem_put]
    by_cases heq : (⟨u, r⟩ : UserRole) = ⟨userId, roleId⟩
    · exact .inl heq
    · refine .inr ⟨hrole, fun hkey => heq ?_⟩
      obtain ⟨rfl, rfl⟩ := Prod.mk.inj hkey
      rfl
  · cases h

/-- Attaching a permission takes no right away. -/
theorem grants_insertRolePermission {roleId permissionId : Uuid}
    (h : db.insertRolePermission roleId permissionId = some db')
    (hgrants : db.Grants u rule) : db'.Grants u rule := by
  obtain ⟨r, hrole, p, hatt, hrule⟩ := hgrants
  unfold insertRolePermission at h
  split at h
  · cases h
    refine ⟨r, hrole, p, ?_, hrule⟩
    show ⟨r, p⟩ ∈ (db.rolePermissions.put ⟨roleId, permissionId⟩).rows
    rw [Table.mem_put]
    by_cases heq : (⟨r, p⟩ : RolePermission) = ⟨roleId, permissionId⟩
    · exact .inl heq
    · refine .inr ⟨hatt, fun hkey => heq ?_⟩
      obtain ⟨rfl, rfl⟩ := Prod.mk.inj hkey
      rfl
  · cases h

end Rbac

theorem PermissionAction.text_inj {a b : PermissionAction} : a.text = b.text ↔ a = b := by
  cases a <;> cases b <;> decide

theorem PermissionSubject.text_inj {a b : PermissionSubject} : a.text = b.text ↔ a = b := by
  cases a <;> cases b <;> decide

/-- No permission is about `all`. -/
theorem PermissionSubject.text_ne_all (a : PermissionSubject) : a.text ≠ "all" := by
  cases a <;> decide

/-! ## The decision

The guard computes the relation, whatever is in the cache; so it depends on the reachable pairs only,
and grows with them. -/

namespace PermissionsGuard

variable {casl : Casl} {db : Rbac} {u : Uuid} {rows : List PermissionRule}
  {required : List PermissionRule}

/-- The ability built from the rules of a user allows what the tables allow. -/
theorem can_iff (hcasl : casl.Unconditional) (hrows : rows.Perm (db.loadPermissionRules u))
    (rule : PermissionRule) :
    casl.can (casl.createMongoAbility (rows.map PermissionRule.ability)) rule.action.text
      rule.subject.text = true ↔
      db.Allows u rule := by
  rw [hcasl, Rbac.allows_iff]
  have hmanage : ("manage" : String) = PermissionAction.manage.text := rfl
  have hmem : ∀ granted, granted ∈ rows ↔ db.Grants u granted := by
    intro granted
    rw [hrows.mem_iff, Rbac.mem_loadPermissionRules]
  constructor
  · rintro ⟨_, hmem', haction, hsubject⟩
    obtain ⟨granted, hgranted, rfl⟩ := List.mem_map.mp hmem'
    refine ⟨granted, (hmem granted).mp hgranted, ?_, ?_⟩
    · exact PermissionSubject.text_inj.mp (hsubject.resolve_right (PermissionSubject.text_ne_all _))
    · rw [hmanage] at haction
      exact haction.imp PermissionAction.text_inj.mp PermissionAction.text_inj.mp
  · rintro ⟨granted, hgranted, hsubject, haction⟩
    refine ⟨granted.ability, List.mem_map_of_mem ((hmem granted).mpr hgranted), ?_,
      .inl (congrArg PermissionSubject.text hsubject)⟩
    rw [hmanage]
    exact haction.imp (congrArg PermissionAction.text) (congrArg PermissionAction.text)

/-- `assertPermissionRules` lets pass if every rule is allowed. -/
theorem assertPermissionRules_passes (hcasl : casl.Unconditional)
    (hrows : rows.Perm (db.loadPermissionRules u))
    (hall : ∀ rule ∈ required, db.Allows u rule) (s : Backend) :
    assertPermissionRules casl (casl.createMongoAbility (rows.map PermissionRule.ability)) required s =
      (.ok (), s) := by
  rw [assertPermissionRules, throwIf, if_neg]
  · rfl
  · rintro ⟨-, hsome⟩
    obtain ⟨rule, hrule, hcannot⟩ := List.any_eq_true.mp hsome
    rw [(can_iff hcasl hrows rule).mpr (hall rule hrule)] at hcannot
    cases hcannot

/-- One rule that is not allowed is enough to refuse. -/
theorem assertPermissionRules_refuses (hcasl : casl.Unconditional)
    (hrows : rows.Perm (db.loadPermissionRules u))
    {rule : PermissionRule} (hrule : rule ∈ required) (hnot : ¬ db.Allows u rule) (s : Backend) :
    assertPermissionRules casl (casl.createMongoAbility (rows.map PermissionRule.ability)) required s =
      (.error insufficientPermissions, s) := by
  rw [assertPermissionRules, throwIf, if_pos]
  · rfl
  · refine ⟨List.length_pos_of_mem hrule, List.any_eq_true.mpr ⟨rule, hrule, ?_⟩⟩
    rw [Bool.eq_false_iff.mpr (mt (can_iff hcasl hrows rule).mp hnot)]
    rfl

variable {redis : String → Option String} {user : User}
  {order : List PermissionRule → List PermissionRule}

/-- The guard reaches its last statement with the ability of the user. -/
theorem canActivate_eq (casl : Casl) (hne : required ≠ []) (hearlier : EarlierCalls db user redis)
    (horder : Reorders order) :
    ∃ (rows : List PermissionRule) (s : Backend), rows.Perm (db.loadPermissionRules user.id) ∧
      canActivate casl order (some required) (some user) ⟨db, redis⟩ =
        (assertPermissionRules casl
          (casl.createMongoAbility (rows.map PermissionRule.ability)) required >>=
          fun _ => pure true) s := by
  obtain ⟨rows, s, hrows, hrules⟩ := getPermissionRulesForUser_rules hearlier horder
  refine ⟨rows, s, hrows, ?_⟩
  have hability : getAbilityForUser casl order user.id.text ⟨db, redis⟩ =
      (.ok (casl.createMongoAbility (rows.map PermissionRule.ability)), s) := by
    rw [getAbilityForUser, bind_ok hrules, abilityRules_rulesJson]
    rfl
  cases required with
  | nil => exact absurd rfl hne
  | cons rule required =>
      rw [canActivate, orThrow_bind_some, bind_ok hability]
      exact hne

/-- **The guard admits** a request whose rules are all allowed. -/
theorem canActivate_admits (hcasl : casl.Unconditional) (hne : required ≠ [])
    (hearlier : EarlierCalls db user redis)
    (horder : Reorders order) (hall : ∀ rule ∈ required, db.Allows user.id rule) :
    (canActivate casl order (some required) (some user) ⟨db, redis⟩).1 = .ok true := by
  obtain ⟨rows, s, hrows, hrun⟩ := canActivate_eq casl hne hearlier horder
  rw [hrun, bind_ok (assertPermissionRules_passes hcasl hrows hall s)]
  rfl

/-- **It refuses** any other, with the one message for all of them. -/
theorem canActivate_refuses (hcasl : casl.Unconditional) (hne : required ≠ [])
    (hearlier : EarlierCalls db user redis)
    (horder : Reorders order) (hnot : ¬ ∀ rule ∈ required, db.Allows user.id rule) :
    (canActivate casl order (some required) (some user) ⟨db, redis⟩).1 =
      .error insufficientPermissions := by
  obtain ⟨rows, s, hrows, hrun⟩ := canActivate_eq casl hne hearlier horder
  push Not at hnot
  obtain ⟨rule, hrule, hnot⟩ := hnot
  rw [hrun, bind_error (assertPermissionRules_refuses hcasl hrows hrule hnot s)]

/-- An authenticated request: the tables, what Redis holds after earlier calls in the same database
    state, and the order in which the database returns rows. -/
structure Situation where
  db       : Rbac
  redis    : String → Option String
  user     : User
  order    : List PermissionRule → List PermissionRule
  earlier  : EarlierCalls db user redis
  reorders : Reorders order

namespace Situation

/-- What the guard answers on a route that requires `required`. -/
def decision (x : Situation) (casl : Casl) (required : List PermissionRule) : Except Failure Bool :=
  (canActivate casl x.order (some required) (some x.user) ⟨x.db, x.redis⟩).1

def Allows (x : Situation) (rule : PermissionRule) : Prop := x.db.Allows x.user.id rule

/-- The (action, subject) pairs the user reaches. -/
def Reaches (x : Situation) (rule : PermissionRule) : Prop := x.db.Grants x.user.id rule

/-- `y` is `x` with one more role of a user or one more permission of a role. -/
def Extends (x y : Situation) : Prop :=
  y.user = x.user ∧ ((∃ userId roleId, x.db.insertUserRole userId roleId = some y.db) ∨
    ∃ roleId permissionId, x.db.insertRolePermission roleId permissionId = some y.db)

variable {x y : Situation}

theorem decision_iff (hcasl : casl.Unconditional) (hne : required ≠ []) :
    x.decision casl required = .ok true ↔ ∀ rule ∈ required, x.Allows rule := by
  constructor
  · intro hok
    by_contra hnot
    have hrefused := canActivate_refuses hcasl hne x.earlier x.reorders hnot
    rw [decision, hrefused] at hok
    cases hok
  · exact canActivate_admits hcasl hne x.earlier x.reorders

theorem decision_refuses (hcasl : casl.Unconditional) (hne : required ≠ [])
    (h : x.decision casl required ≠ .ok true) :
    x.decision casl required = .error insufficientPermissions :=
  canActivate_refuses hcasl hne x.earlier x.reorders fun hall => h ((decision_iff hcasl hne).mpr hall)

/-- More rights refuse nothing. -/
theorem decision_mono (hcasl : casl.Unconditional) (hne : required ≠ [])
    (hreaches : ∀ rule, x.Reaches rule → y.Reaches rule)
    (h : x.decision casl required = .ok true) : y.decision casl required = .ok true := by
  rw [decision_iff hcasl hne] at h ⊢
  intro rule hrule
  have hallows : x.db.Allows x.user.id rule := h rule hrule
  exact hallows.mono hreaches

theorem Extends.reaches (h : Extends x y) {rule : PermissionRule} (hreaches : x.Reaches rule) :
    y.Reaches rule := by
  obtain ⟨huser, hwrite⟩ := h
  unfold Reaches at hreaches ⊢
  rw [huser]
  rcases hwrite with ⟨userId, roleId, hwrite⟩ | ⟨roleId, permissionId, hwrite⟩
  · exact Rbac.grants_insertUserRole hwrite hreaches
  · exact Rbac.grants_insertRolePermission hwrite hreaches

end Situation

end PermissionsGuard

open PermissionsGuard in
/-- **Authorization is reachability**: on a route that requires at least one rule the guard admits a
    request iff every rule is allowed through the roles of its user, and else throws 403; its decision
    depends only on the pairs the user reaches, more of them never refuse, and neither does an
    additional role or permission. -/
theorem authorization_is_reachability (casl : Casl) (hcasl : casl.Unconditional)
    (required : List PermissionRule)
    (hne : required ≠ []) :
    (∀ x : Situation, (x.decision casl required = .ok true ↔ ∀ rule ∈ required, x.Allows rule) ∧
        (x.decision casl required ≠ .ok true →
          x.decision casl required = .error (.http (.forbidden "Insufficient permissions")))) ∧
      (∀ x y : Situation, (∀ rule, x.Reaches rule ↔ y.Reaches rule) →
        x.decision casl required = y.decision casl required) ∧
      (∀ x y : Situation, (∀ rule, x.Reaches rule → y.Reaches rule) →
        x.decision casl required = .ok true → y.decision casl required = .ok true) ∧
      ∀ x y : Situation, x.Extends y → x.decision casl required = .ok true →
        y.decision casl required = .ok true := by
  refine ⟨fun x => ⟨Situation.decision_iff hcasl hne, Situation.decision_refuses hcasl hne⟩,
    fun x y hsame => ?_,
    fun x y => Situation.decision_mono hcasl hne, fun x y hextends =>
      Situation.decision_mono hcasl hne fun _ => hextends.reaches⟩
  by_cases hok : x.decision casl required = .ok true
  · rw [hok, Situation.decision_mono hcasl hne (fun rule => (hsame rule).mp) hok]
  · have hok' : y.decision casl required ≠ .ok true := fun h =>
      hok (Situation.decision_mono hcasl hne (fun rule => (hsame rule).mpr) h)
    rw [Situation.decision_refuses hcasl hne hok, Situation.decision_refuses hcasl hne hok']

/-! ## A route of the users controller

The administrator of the seeded deployment asks for a route that requires `delete:User`, and has
`manage:User`. -/

def matchesRule (rules : List AbilityRule) (action subject : String) : Bool :=
  rules.any fun r => (r.action = action ∨ r.action = "manage") ∧
    (r.subject = subject ∨ r.subject = "all")

/-- An ability that is its list of rules. -/
def ruleList : Casl := ⟨List AbilityRule, fun rules => rules, matchesRule⟩

theorem ruleList_unconditional : ruleList.Unconditional := by
  intro rules action subject
  show matchesRule rules action subject = true ↔ _
  simp only [matchesRule, List.any_eq_true, decide_eq_true_eq]

/-- The administrator of a seeded deployment, whose rules nobody has asked for. -/
def administrator : PermissionsGuard.Situation where
  db       := seededDb
  redis    := fun _ => none
  user     := ⟨seedId 8, "a@b.co", "hash", none, none, .active, none, 0, 0, none⟩
  order    := List.reverse
  earlier  := .start rfl
  reorders := List.reverse_perm

/-- The administrator may delete an account: the right to manage accounts is enough. -/
theorem authorization_is_reachability_delete :
    administrator.decision ruleList [⟨.delete, .user⟩] = .ok true := by
  refine ((authorization_is_reachability ruleList ruleList_unconditional [⟨.delete, .user⟩]
    (List.cons_ne_nil _ _)).1
    administrator).1.mpr fun rule hrule => ?_
  obtain rfl := List.mem_singleton.mp hrule
  have hgrants : seededDb.Grants (seedId 8) ⟨.manage, .user⟩ :=
    Rbac.mem_loadPermissionRules.mp (by decide +kernel)
  exact Rbac.allows_iff.mpr ⟨_, hgrants, rfl, .inr rfl⟩

end NestApp
