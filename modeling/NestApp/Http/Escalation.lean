import NestApp.Http.Mediation

/-!
# `Http.Escalation` — nobody gains a right without an administrator

A right is **in effect** for an account where the tables grant it or an entry of the cache holds it:
that is what the guard goes by. `NoGain` says that between two states no right has come into effect
beyond those of the first (`World.Own`): the rights in effect there, and those of the default role for
accounts that were not there yet.

Every handler keeps to it but those that manage accounts or roles, and these run for a user whose right
to do so was in effect. So the first of them in a run was made for somebody who owned the right at the
start: `escalation_needs_administrator`.

The rights of a cache entry count as in effect, because the guard goes by them for as long as the entry
lives. So a stale entry never makes a right appear that nobody had.
-/

namespace NestApp

open Sql Prog PermissionsService

/-- The right the guard goes by: from the tables, or from an entry of the cache. An entry may be older
    than the tables. -/
def World.InEffect (w : World) (u : Uuid) (rule : PermissionRule) : Prop :=
  w.db.Grants u rule ∨ ∃ rules, w.cache (cacheKey u.text) = some rules ∧ rule ∈ rules

/-- The rights of an account as things are: those in effect, and for an account to come those of the
    default role. -/
def World.Own (w : World) (u : Uuid) (rule : PermissionRule) : Prop :=
  w.InEffect u rule ∨ w.db.users.get u = none ∧
    ∃ role, w.db.roles.find? (fun r => r.name = "user") = some role ∧ w.db.Carries role.id rule

namespace Http

/-- **No right comes into effect** that is not one of the rights as things were. The relation is
    reflexive and transitive, so it composes along the steps of a service. -/
structure NoGain (w w' : World) : Prop where
  roles   : w'.db.roles = w.db.roles
  users   : ∀ {u}, (w.db.users.get u).isSome → (w'.db.users.get u).isSome
  hasRole : ∀ {u r}, w'.db.HasRole u r → w.db.HasRole u r ∨ w.db.users.get u = none ∧
    ∃ role, w.db.roles.find? (fun r => r.name = "user") = some role ∧ r = role.id
  carries : ∀ {r rule}, w'.db.Carries r rule → w.db.Carries r rule
  cached  : ∀ {u rules rule}, w'.cache (cacheKey u.text) = some rules → rule ∈ rules → w.Own u rule

variable {w w' w'' : World} {u : Uuid} {rule : PermissionRule}

namespace NoGain

/-- A right in effect afterwards. -/
theorem inEffect (h : NoGain w w') (heffect : w'.InEffect u rule) : w.Own u rule := by
  rcases heffect with ⟨r, hrole, hcarries⟩ | ⟨rules, hentry, hrule⟩
  · rcases h.hasRole hrole with hheld | ⟨hnew, role, hdefault, rfl⟩
    · exact .inl (.inl ⟨r, hheld, h.carries hcarries⟩)
    · exact .inr ⟨hnew, role, hdefault, h.carries hcarries⟩
  · exact h.cached hentry hrule

theorem own (h : NoGain w w') (hown : w'.Own u rule) : w.Own u rule := by
  rcases hown with heffect | ⟨hnew, role, hdefault, hcarries⟩
  · exact h.inEffect heffect
  · -- an account that is not there now was not there before
    have hnew' : w.db.users.get u = none := by
      rw [← Option.not_isSome_iff_eq_none] at hnew ⊢
      exact fun hu => hnew (h.users hu)
    rw [h.roles] at hdefault
    exact .inr ⟨hnew', role, hdefault, h.carries hcarries⟩

theorem rfl : NoGain w w where
  roles           := .refl _
  users hu        := hu
  hasRole hr      := .inl hr
  carries hr      := hr
  cached hentry h := .inl (.inr ⟨_, hentry, h⟩)

theorem trans (h : NoGain w w') (h' : NoGain w' w'') : NoGain w w'' where
  roles    := h'.roles.trans h.roles
  users hu := h'.users (h.users hu)
  hasRole hr := by
    rcases h'.hasRole hr with hheld | ⟨hnew, role, hdefault, heq⟩
    · exact h.hasRole hheld
    · rw [h.roles] at hdefault
      refine .inr ⟨?_, role, hdefault, heq⟩
      rw [← Option.not_isSome_iff_eq_none] at hnew ⊢
      exact fun hu => hnew (h.users hu)
  carries hr        := h.carries (h'.carries hr)
  cached hentry hin := h.own (h'.cached hentry hin)

/-- The tables are the same, and what the cache has more was loaded from them. -/
theorem of_cache (hdb : w'.db = w.db) (hcache : ∀ u rules, w'.cache (cacheKey u.text) = some rules →
    w.cache (cacheKey u.text) = some rules ∨ rules = w.db.loadPermissionRules u) : NoGain w w' where
  roles      := by rw [hdb]
  users hu   := by rwa [hdb]
  hasRole hr := by rw [hdb] at hr; exact .inl hr
  carries hr := by rwa [hdb] at hr
  cached {u rules rule} hentry hin := by
    rcases hcache u rules hentry with hold | rfl
    · exact .inl (.inr ⟨rules, hold, hin⟩)
    · exact .inl (.inl (Rbac.mem_loadPermissionRules.mp hin))

/-- An entry is stored with rules that were the user's own. -/
theorem safeSet (h : NoGain w w') {rules : List PermissionRule} (hown : ∀ rule ∈ rules, w.Own u rule) :
    NoGain w (PermissionsService.safeSet (cacheKey u.text) rules w').2 := by
  refine { h with cached := fun {u' entry rule} hentry hin => ?_ }
  replace hentry : Function.update w'.cache (cacheKey u.text) (some rules) (cacheKey u'.text) =
    some entry := hentry
  by_cases hu : cacheKey u'.text = cacheKey u.text
  · rw [hu, Function.update_self] at hentry
    obtain rfl : u' = u := Uuid.ext (cacheKey_inj.mp hu)
    rw [← Option.some.inj hentry] at hin
    exact hown rule hin
  · rw [Function.update_of_ne hu] at hentry
    exact h.cached hentry hin

/-- The accounts and roles are the same, the permissions of each role at most those of before, and the
    cache has lost entries at most. -/
theorem of_permissions (h : Within (partsOf .permission) w.db w'.db)
    (hcarries : ∀ {r rule}, w'.db.Carries r rule → w.db.Carries r rule)
    (hcache : ∀ {key rules}, w'.cache key = some rules → w.cache key = some rules) : NoGain w w' where
  roles := h.roles (by decide)
  users hu := by rwa [h.users (by decide)]
  hasRole hr := by
    rw [Rbac.HasRole, h.userRoles (by decide)] at hr
    exact .inl hr
  carries         := hcarries
  cached hentry h := .inl (.inr ⟨_, hcache hentry, h⟩)

end NoGain

instance : IsPreorder World NoGain where
  refl _ := NoGain.rfl
  trans _ _ _ := NoGain.trans

/-- The same, for the states of the application. -/
def Gainless (s s' : Accounts) : Prop := NoGain s.world s'.world

instance : IsPreorder Accounts Gainless where
  refl _ := NoGain.rfl
  trans _ _ _ := NoGain.trans

/-! ## The guards

The guards may fill the cache, with rules that the tables grant at that moment: nothing comes into
effect by it. -/

theorem getPermissionRulesForUser_inEffect (u : Uuid) : Triple (· = w) (getPermissionRulesForUser u.text)
    (fun rules w' => NoGain w w' ∧ ∀ rule ∈ rules, w.InEffect u rule) fun _ => False := by
  refine Triple.modify_single (Triple.gets_single ?_)
  cases hentry : w.cache (cacheKey u.text) with
  | some rules =>
      exact Triple.pure_single ⟨.of_cache rfl fun _ _ => .inl, fun rule h => .inr ⟨rules, hentry, h⟩⟩
  | none =>
      refine Triple.gets_single
        (Triple.modify_single (Triple.pure_single ⟨.of_cache rfl fun u' rules h => ?_, ?_⟩))
      · -- the entry stored is of the user asked for
        simp only [Uuid.cast_text] at h
        by_cases hu : cacheKey u'.text = cacheKey u.text
        · rw [hu, Function.update_self] at h
          obtain rfl : u' = u := Uuid.ext (cacheKey_inj.mp hu)
          exact .inr (Option.some.inj h).symm
        · rw [Function.update_of_ne hu] at h
          exact .inl h
      · intro rule h
        simp only [Uuid.cast_text] at h
        exact .inl (Rbac.mem_loadPermissionRules.mp h)

variable {app : App} {x : Draw} {actor : Option User} {metadata : SessionMetadata}

theorem guards_gainless (request : Request) : Along Gainless (guards app x request) := by
  refine along_guards (T := NoGain) (fun _ _ h => h) (fun user => Along.of_triple fun w => ?_) request
  exact Triple.conseq (getPermissionRulesForUser_inEffect user.id) (fun _ h => h)
    (fun _ _ h => h.1) fun _ h => h.elim

/-- What was authorized was in effect. -/
theorem Authorized.inEffect {request : Request} {user : User}
    (h : Authorized app x w request user rule) :
    w.InEffect user.id rule := by
  obtain ⟨granted, hlookup, hin⟩ := h.rules
  obtain ⟨granted', hlookup', heffect⟩ :=
    (getPermissionRulesForUser_inEffect (w := w) user.id).returns rfl
  rw [hlookup] at hlookup'
  obtain rfl := Except.ok.inj hlookup'
  exact heffect.2 rule hin

/-! ## The handlers

Those that need no permission, and those that manage permissions only. A new permission belongs to no
role yet, and the rule of a permission never changes. -/

theorem carries_congr {db db' : Rbac} (hpermissions : db'.permissions = db.permissions)
    (hattached : db'.rolePermissions = db.rolePermissions) {r : Uuid} : db'.Carries r rule ↔
      db.Carries r rule := by
  simp only [Rbac.Carries, Rbac.Attached, Rbac.RuleOf, hpermissions, hattached]

/-- A new account has the default role; a password is no right. -/
theorem OpenWrite.gainless {env : Env} {link : Option String} {s s' : Accounts}
    (h : OpenWrite env link s s') : Gainless s s' := by
  cases h with
  | registered h =>
      rename_i row w'
      have hcarries : ∀ {r rule}, w'.db.Carries r rule ↔ s.world.db.Carries r rule :=
        carries_congr (h.within.permissions (by decide)) (h.within.rolePermissions (by decide))
      refine ⟨h.within.roles (by decide), fun hu => ?_, fun hr => ?_, fun hr => hcarries.mp hr,
        fun hentry hin => ?_⟩
      · rw [h.users]
        exact Table.isSome_put hu
      · refine (h.hasRole.mp hr).imp_right ?_
        rintro ⟨rfl, hdefault⟩
        exact ⟨h.new, hdefault⟩
      · obtain ⟨-, -, _, _, -, -, rfl⟩ := h
        exact .inl (.inr ⟨_, hentry, hin⟩)
  | sessions | linksUsed | mailed => exact NoGain.rfl
  | linkIssued h =>
      rw [Gainless, Accounts.world_insertResetToken h]
      exact NoGain.rfl
  | password =>
      exact { (NoGain.rfl : NoGain s.world s.world) with users := fun hu => Table.isSome_put hu }

theorem Open.gainless {env : Env} {link : Option String} {s s' : Accounts} (h : Open env link s s') :
    Gainless s s' :=
  h.fold fun _ _ => OpenWrite.gainless

/-- The permissions left by a delete are of before. -/
theorem carries_deletePermission {db : Rbac} {id r : Uuid}
    (h : (db.deletePermission id).Carries r rule) :
    db.Carries r rule := by
  obtain ⟨p, hatt, row, hrow, hrule⟩ := h
  refine ⟨p, (Table.mem_filter.mp hatt).1, row, ?_, hrule⟩
  have hrow : (db.permissions.erase id).get p = some row := hrow
  rw [Table.get_erase] at hrow
  split at hrow
  · cases hrow
  · exact hrow

section Permissions

variable {o : Choice}

/-- A new permission is one of no role. -/
theorem gainless_createPermission (input : CreatePermissionInput) :
    Along NoGain (createPermission o input) := by
  refine Along.bind (Along.bind (Along.gets _) fun _ => Along.throwIf _ _) fun _ => ?_
  refine Along.bind (Along.mapError (Along.of_triple fun w => ?_)) fun _ => Along.pure _
  refine save_spec .rfl fun db hdb => .of_permissions (within_insertPermission (by decide) hdb) ?_ id
  exact fun {r rule} h => ((Rbac.change_insertPermission hdb).carries id rule).mp h

/-- Another description leaves the rule. -/
theorem gainless_updatePermission (id : String) (description : Option String) :
    Along NoGain (updatePermission id description) := by
  refine Along.of_triple fun w => ?_
  refine Triple.gets_single
    (Triple.orThrow_single .rfl fun old hold => Triple.modify_single (Triple.pure_single ?_))
  refine .of_permissions (within_putPermission (by decide) _) (fun {r rule} h => ?_) fun h => h
  refine ((Rbac.change_putPermission fun old' hold' => ?_).carries (fun h => h) rule).mp h
  have hid : old.id = .cast id := Table.get_key hold
  obtain rfl : old = old' := Option.some.inj (hold.symm.trans (hid ▸ hold'))
  exact .refl _

theorem gainless_removePermission (id : String) : Along NoGain (removePermission id) := by
  refine Along.of_triple fun w => ?_
  refine Triple.gets_single (Triple.orThrow_single .rfl fun row _ => Triple.gets_single ?_)
  refine Triple.modify_single (Triple.modify fun w' hw => ?_)
  subst hw
  refine .of_permissions (within_deletePermission (by decide) (by decide)) carries_deletePermission
    fun {key rules} h => ?_
  exact (ite_eq_iff.mp h).elim (fun h => nomatch h.2) And.right

end Permissions

theorem gainless_onWorld {α : Type} {m : Service α} (h : Along NoGain m) : Along Gainless (onWorld m) :=
  Along.zoom h fun _ _ hw => hw

/-- **A handler that manages neither accounts nor roles** brings no right into effect. -/
theorem handle_gainless {request : Request} (huser : request.route.required ≠ some [⟨.manage, .user⟩])
    (hrole : request.route.required ≠ some [⟨.manage, .role⟩]) :
      Along Gainless (serve app x actor request) := by
  refine serve_along ?_
  cases hroute : request.route with
  | ping | health | register | login | refresh | logout | forgotPassword | resetPassword | getMe =>
      exact (handle_open rfl).mono fun _ _ => Open.gainless
  | metrics => exact Along.pure _
  | findAllUsers | findUser | createUser | updateUser | removeUser | setRoles =>
      rw [hroute] at huser
      exact absurd rfl huser
  | findAllRoles | createRole | updateRole | removeRole | setPermissions =>
      rw [hroute] at hrole
      exact absurd rfl hrole
  | findAllPermissions => exact Along.gets _
  | createPermission input =>
      exact Along.bind (gainless_onWorld (gainless_createPermission input)) fun _ => Along.pure _
  | updatePermission id description =>
      exact Along.bind (gainless_onWorld (gainless_updatePermission id description))
        fun _ => Along.pure _
  | removePermission id =>
      exact Along.bind (gainless_onWorld (gainless_removePermission id)) fun _ => Along.pure _

/-! ## Runs

The invariant is that nothing has been gained and that no privileged request is past its guards. The
one step that can break it is the guards of such a request, and these are the administrator's. -/

section Runs

variable {C : Type} [DecidableEq C] {first t t' : State C} {c : C}

/-- **An administrator has acted**: the run contains guards that have let a request pass that manages
    accounts or roles, for somebody whose right to do so was in effect there, and was the user's own at
    the start. The request is one that has arrived in the run. -/
def Administered (app : App) (first t : State C) : Prop :=
  ∃ (t₀ t₁ : State C) (c : C) (x : Draw) (request : Request) (user : User) (subject : PermissionSubject),
    Pool.Steps (exec app) first t₀ ∧ Pool.step (exec app) t₀ c x = some t₁ ∧ Pool.Steps (exec app) t₁ t ∧
    t₀.calls c = .arrived request ∧ request.route.required = some [⟨.manage, subject⟩] ∧
    (subject = .user ∨ subject = .role) ∧
      Authorized app x t₀.shared.world request user ⟨.manage, subject⟩ ∧
    first.shared.world.Own user.id ⟨.manage, subject⟩

theorem Administered.step (h : Administered app first t) (hstep : Pool.step (exec app) t c x = some t') :
    Administered app first t' := by
  obtain ⟨t₀, t₁, c₀, x₀, request, user, subject, hrun₀, hstep₀, hrun₁, hrest⟩ := h
  exact ⟨t₀, t₁, c₀, x₀, request, user, subject, hrun₀, hstep₀, .tail hrun₁ trivial hstep, hrest⟩

/-- The call is no request past its guards to manage accounts or roles. -/
def Call.Unprivileged (call : Call) : Prop := ∀ request actor, call = .admitted request actor →
  request.route.required ≠ some [⟨.manage, .user⟩] ∧ request.route.required ≠ some [⟨.manage, .role⟩]

theorem Call.Unprivileged.of_begins {call : Call} (h : call.begins) : call.Unprivileged := by
  rintro request actor rfl
  exact h.elim

omit [DecidableEq C] in
/-- **One step of a call** brings no right into effect, unless it is the guards of an administrator's
    request. -/
theorem exec_gainless (hcasl : app.casl.Unconditional) {s s' : Accounts} {call call' : Call}
    (hcall : call.Unprivileged)
    (hexec : exec app c s call x = some (s', call')) :
    (∃ (request : Request) (user : User) (subject : PermissionSubject), call = .arrived request ∧
      request.route.required = some [⟨.manage, subject⟩] ∧ (subject = .user ∨ subject = .role) ∧
      Authorized app x s.world request user ⟨.manage, subject⟩) ∨
    (Gainless s s' ∧ call'.Unprivileged) := by
  rcases exec_cases hexec with ⟨request, actor, rfl, hguards, rfl⟩ | ⟨request, e, -, hguards, rfl⟩ |
    ⟨request, actor, rfl, hserve, rfl⟩ | ⟨key, -, rfl, rfl⟩
  · by_cases hmanage : ∃ subject : PermissionSubject, (subject = .user ∨ subject = .role) ∧
        request.route.required = some [⟨.manage, subject⟩]
    · obtain ⟨subject, hsubject, hrequired⟩ := hmanage
      obtain ⟨user, -, hauthorized⟩ := guards_authorized hcasl hrequired hguards
      exact .inl ⟨request, user, subject, rfl, hrequired, hsubject, hauthorized⟩
    · right
      constructor
      · have hgainless : Gainless s (guards app x request s).2 := guards_gainless request s
        rw [hguards] at hgainless
        exact hgainless
      · intro request' actor' hsame
        cases hsame
        exact ⟨fun hrequired => hmanage ⟨.user, .inl rfl, hrequired⟩,
          fun hrequired => hmanage ⟨.role, .inr rfl, hrequired⟩⟩
  · refine .inr ⟨?_, fun _ _ hsame => by cases hsame⟩
    have hgainless : Gainless s (guards app x request s).2 := guards_gainless request s
    rw [hguards] at hgainless
    exact hgainless
  · refine .inr ⟨?_, fun _ _ hsame => by cases hsame⟩
    obtain ⟨huser, hrole⟩ := hcall request actor rfl
    have hgainless : Gainless s (serve app x actor request s).2 := handle_gainless huser hrole s
    rw [hserve] at hgainless
    exact hgainless
  · refine .inr ⟨.of_cache rfl fun u rules hentry => .inl ?_, fun _ _ hsame => by cases hsame⟩
    exact (wrote_some hentry).2

/-- Nothing has been gained, and no request to manage accounts or roles is past its guards. It holds at
    the start and is kept by every step but one kind. -/
structure Quiet (first t : State C) : Prop where
  gainless : Gainless first.shared t.shared
  calls    : ∀ c, (t.calls c).Unprivileged

/-- One step keeps it so, unless it is the guards of an administrator's request. -/
theorem Quiet.step (hcasl : app.casl.Unconditional) (hrun : Pool.Steps (exec app) first t)
    (h : Quiet first t)
    (hstep : Pool.step (exec app) t c x = some t') : Administered app first t' ∨ Quiet first t' := by
  have hstep' := hstep
  obtain ⟨sh, l, hexec, rfl⟩ := Pool.step_cases hstep
  rcases exec_gainless hcasl (h.calls c) hexec with
    ⟨request, user, subject, hcall, hrequired, hsubject, hauthorized⟩ | ⟨hgainless, hunprivileged⟩
  · exact .inl ⟨t, _, c, x, request, user, subject, hrun, hstep', .refl, hcall, hrequired,
      hsubject, hauthorized,
      h.gainless.inEffect hauthorized.inEffect⟩
  · refine .inr ⟨h.gainless.trans hgainless, fun d => ?_⟩
    by_cases hd : d = c
    · subst hd
      simpa using hunprivileged
    · simpa [Function.update_of_ne hd] using h.calls d

/-- **Nobody gains a right without an administrator.** In every run of requests and cache expiries, a
    right in effect is one the account had at the start (or will have had from the default role), or
    somebody who had at the start the right to manage accounts or roles has used it. -/
theorem escalation_needs_administrator (hcasl : app.casl.Unconditional)
    (hfirst : ∀ c, (first.calls c).begins)
    (hrun : Pool.Steps (exec app) first t) {u : Uuid} {rule : PermissionRule}
    (heffect : t.shared.world.InEffect u rule) :
    first.shared.world.Own u rule ∨ Administered app first t := by
  have hquiet : Administered app first t ∨ Quiet first t := by
    clear heffect
    induction hrun with
    | refl => exact .inr ⟨NoGain.rfl, fun c => .of_begins (hfirst c)⟩
    | tail hrun _ hstep ih =>
        rcases ih with hadministered | hquiet
        · exact .inl (hadministered.step hstep)
        · exact hquiet.step hcasl hrun hstep
  exact hquiet.symm.imp_left fun h => h.gainless.inEffect heffect

/-- An account registers, and the administrator makes it another administrator. The schedule of the
    witness. -/
def promotion : List Request :=
  [.plain none (.register ⟨"new@b.co", "password", none, none⟩),
    .plain (some "admin") (.setRoles uuidA.text [(seedId 6).text])]

/-- The right of the new account is not its own: an administrator has acted. -/
theorem escalation_needs_administrator_promotion : ∃ t : State (Fin 2),
    t.shared.world.InEffect uuidA ⟨.manage, .user⟩ ∧
      ¬ (arriving 2 promotion).shared.world.Own uuidA ⟨.manage, .user⟩ ∧
      Administered toyApp (arriving 2 promotion) t := by
  have hreplay : (Pool.replay (exec toyApp) Pool.anyStep (arriving 2 promotion)
      [(0, .at 1 uuidA), (0, .at 1 uuidA), (1, .at 2 uuidB), (1, .at 3 uuidB)]).any (fun t =>
        decide (⟨.manage, .user⟩ ∈ t.shared.world.db.loadPermissionRules uuidA)) = true := by
          decide +kernel
  obtain ⟨t, hrun, hgranted⟩ := Pool.exists_run_of_replay hreplay
  have heffect : t.shared.world.InEffect uuidA ⟨.manage, .user⟩ :=
    .inl (Rbac.mem_loadPermissionRules.mp (of_decide_eq_true hgranted))
  have hown : ¬ (arriving 2 promotion).shared.world.Own uuidA ⟨.manage, .user⟩ := by
    have hdefault : ((seededDb.roles.find? fun r => r.name = "user").all fun role =>
        !decide (seededDb.Carries role.id ⟨.manage, .user⟩)) = true := by decide +kernel
    rintro ((hgrants | ⟨rules, hentry, -⟩) | ⟨-, role, hrole, hcarries⟩)
    · exact absurd (Rbac.mem_loadPermissionRules.mpr hgrants) (by decide +kernel)
    · cases hentry
    · replace hrole : seededDb.roles.find? (fun r => r.name = "user") = some role := hrole
      have hcarries : seededDb.Carries role.id ⟨.manage, .user⟩ := hcarries
      simp [hrole, hcarries] at hdefault
  exact ⟨t, heffect, hown,
    (escalation_needs_administrator ruleList_unconditional
      (begins_arriving promotion) hrun heffect).resolve_left hown⟩

end Runs

end Http

end NestApp
