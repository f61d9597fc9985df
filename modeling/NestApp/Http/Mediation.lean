import NestApp.Http.Writes
import NestApp.Rbac.Reseed

/-!
# `Http.Mediation` — every write to the access-control tables is authorized

A handler runs only after the guards of the same request, and what they let pass they have seen: an
active account whose rules, as looked up at that moment, hold the permission of the route
(`Authorized`). Between the guards and the handler other requests run, so the right may be gone when it
is used; that it was there is what holds.

`complete_mediation`: over every interleaving of requests and cache expiries, a step either makes a
public change, or is the handler of an authorized request and stays within the tables of its
permission.

The granularity is that of the requests: guards and handler are one step each. A right that is taken
away between the two is used once more, and the theorem says of the request that it was authorized
earlier in the run, not that it still is.
-/

namespace NestApp

open Sql Prog

namespace Http

variable {app : App} {x : Draw} {actor : Option User} {w w' : World} {s s' : Accounts}

/-! ## What the guards have seen

The guards read the account and the rules, and may fill the cache. They write no table. -/

/-- **The request is authorized** for a rule: its token is that of an active account, and the rules
    looked up for the account hold the rule. The lookup is the one the guards make, through the
    cache. -/
structure Authorized (app : App) (x : Draw) (w : World) (request : Request) (user : User)
    (rule : PermissionRule) : Prop where
  token  : Realtime.JwtAuthGuard.canActivate app.jwt w.db x.o.now request.authorization = .ok user
  row    : user ∈ w.db.users.rows
  active : user.status = .active ∧ user.deletedAt = none
  rules  : ∃ granted, (PermissionsService.getPermissionRulesForUser user.id.text w).1 = .ok granted ∧
    rule ∈ granted

/-- The guard lets pass if the ability built from the rules looked up allows what is required. -/
theorem permissionsGuard_ok {casl : Casl} {rule : PermissionRule} {user : Option User}
    (h : permissionsGuard casl (some [rule]) user w = (.ok (), w')) :
    ∃ found granted, user = some found ∧
      (PermissionsService.getPermissionRulesForUser found.id.text w).1 = .ok granted ∧
      casl.can (casl.createMongoAbility (granted.map PermissionRule.ability)) rule.action.text
        rule.subject.text = true := by
  cases user with
  | none => cases h
  | some found =>
      refine ⟨found, ?_⟩
      rw [permissionsGuard, orThrow_bind_some] at h
      · cases hlookup : PermissionsService.getPermissionRulesForUser found.id.text w with
        | mk r w₁ =>
            cases r with
            | error e =>
                rw [bind_error hlookup] at h
                cases h
            | ok granted =>
                refine ⟨granted, rfl, rfl, ?_⟩
                rw [bind_ok hlookup] at h
                by_contra hcannot
                rw [throwIf, if_pos (by simpa using hcannot)] at h
                cases h
      · simp

/-- CASL, asked for `manage` on a subject, finds that rule. -/
theorem mem_of_can {casl : Casl} (hcasl : casl.Unconditional) {granted : List PermissionRule}
    {subject : PermissionSubject}
    (h : casl.can (casl.createMongoAbility (granted.map PermissionRule.ability))
      PermissionAction.manage.text subject.text = true) :
    ⟨.manage, subject⟩ ∈ granted := by
  obtain ⟨_, hmem, haction, hsubject⟩ := (hcasl _ _ _).mp h
  obtain ⟨⟨action, subject'⟩, hgranted, rfl⟩ := List.mem_map.mp hmem
  have haction' : action = .manage := PermissionAction.text_inj.mp (haction.elim id id)
  have hsubject' : subject' = subject :=
    PermissionSubject.text_inj.mp (hsubject.resolve_right (PermissionSubject.text_ne_all _))
  rw [haction', hsubject'] at hgranted
  exact hgranted

/-- A route with a permission is no public route. -/
theorem not_public {route : Route} {rules : List PermissionRule} (h : route.required = some rules) :
    route.isPublic = false := by
  cases route with
  | ping | health | register | login | refresh | logout | forgotPassword | resetPassword => cases h
  | _ => rfl

/-- **The guards have seen** that the request is authorized. -/
theorem guards_authorized (hcasl : app.casl.Unconditional) {request : Request}
    {subject : PermissionSubject}
    (hrequired : request.route.required = some [⟨.manage, subject⟩])
    (h : guards app x request s = (.ok actor, s')) :
    ∃ user, actor = some user ∧ Authorized app x s.world request user ⟨.manage, subject⟩ := by
  rw [guards, gets_bind, jwtAuthGuard, if_neg (by simp [not_public hrequired])] at h
  cases hjwt : Realtime.JwtAuthGuard.canActivate app.jwt s.world.db x.o.now request.authorization with
  | error e =>
      rw [hjwt] at h
      cases h
  | ok user =>
      rw [hjwt] at h
      replace h : (onWorld (permissionsGuard app.casl request.route.required (some user)) >>= fun _ =>
        (pure (some user) : AccountService (Option User))) s = (.ok actor, s') := h
      cases hguard : permissionsGuard app.casl request.route.required (some user) s.world with
      | mk r w₁ =>
          cases r with
          | error e =>
              rw [bind_error (onWorld_eq hguard)] at h
              cases h
          | ok _ =>
              rw [bind_ok (onWorld_eq hguard)] at h
              obtain rfl : some user = actor := Except.ok.inj (congrArg Prod.fst h)
              rw [hrequired] at hguard
              obtain ⟨found, granted, hfound, hlookup, hcan⟩ := permissionsGuard_ok hguard
              obtain rfl : user = found := Option.some.inj hfound
              obtain ⟨token, -, hverify⟩ := Realtime.canActivate_ok.mp hjwt
              obtain ⟨payload, -, -, hactive⟩ := Realtime.verifyToken_ok.mp hverify
              obtain ⟨hrow, hstatus, hlive⟩ := Realtime.findActiveUserById_ok hactive
              exact ⟨user, rfl, hjwt, hrow, ⟨hstatus, hlive⟩, granted, hlookup, mem_of_can hcasl hcan⟩

/-- What a lookup of rules does to the state, the guards do. -/
theorem along_guards {R : Accounts → Accounts → Prop} [IsPreorder Accounts R]
    {T : World → World → Prop} [IsPreorder World T]
    (hT : ∀ s w, T s.world w → R s { s with world := w })
    (hlookup : ∀ user : User, Along T (PermissionsService.getPermissionRulesForUser user.id.text))
    (request : Request) :
    Along R (guards app x request) := by
  have hguard : ∀ required user, Along T (permissionsGuard app.casl required user) := by
    intro required user
    unfold permissionsGuard
    split
    · exact Along.pure _
    · exact Along.pure _
    · refine Along.bind (Along.orThrow _ _) fun user => ?_
      exact Along.bind (hlookup user) fun _ => Along.throwIf _ _
  refine Along.bind (Along.gets _) fun found => ?_
  cases found with
  | error e => exact Along.throw _
  | ok user => exact Along.bind (Along.zoom (hguard _ _) hT) fun _ => Along.pure _

/-- The tables are the same, and the mails: at most the cache has changed. -/
structure SameTables (s s' : Accounts) : Prop where
  within : Within [] s.world.db s'.world.db
  others : s' = { s with world := s'.world }

instance : IsPreorder Accounts SameTables where
  refl _ := ⟨.rfl, rfl⟩
  trans _ _ _ h h' := ⟨h.within.trans h'.within, by rw [h'.others, h.others]⟩

/-- The guards write no table. -/
theorem guards_same (request : Request) : Along SameTables (guards app x request) :=
  along_guards (T := Touches []) (fun _ _ h => ⟨h, rfl⟩)
    (fun _ => PermissionsService.along_getPermissionRulesForUser _) request

/-! ## Runs

First where a request past its guards comes from, then what one step can do; both together are the
theorem. -/

variable {C : Type} [DecidableEq C] {first t u : State C} {c : C}

omit [DecidableEq C] in
/-- The cases of a step: the guards, the handler, or an entry that expires. The facts about runs go by
    these. -/
theorem exec_cases {call call' : Call} (h : exec app c s call x = some (s', call')) :
    (∃ request actor, call = .arrived request ∧ guards app x request s = (.ok actor, s') ∧
      call' = .admitted request actor) ∨
    (∃ request e, call = .arrived request ∧ guards app x request s = (.error e, s') ∧
      call' = .answered (.error e)) ∨
    (∃ request actor, call = .admitted request actor ∧ (serve app x actor request s).2 = s' ∧
      call' = .answered (serve app x actor request s).1) ∨
    ∃ key, call = .entry key ∧ s' = dropEntry s key ∧ call' = .expired := by
  cases call with
  | arrived request =>
      cases hguards : guards app x request s with
      | mk r s₁ =>
          cases r with
          | ok actor =>
              simp only [exec, hguards] at h
              cases h
              exact .inl ⟨request, actor, rfl, hguards, rfl⟩
          | error e =>
              simp only [exec, hguards] at h
              cases h
              exact .inr (.inl ⟨request, e, rfl, hguards, rfl⟩)
  | admitted request actor =>
      cases h
      exact .inr (.inr (.inl ⟨request, actor, rfl, rfl, rfl⟩))
  | entry key =>
      cases h
      exact .inr (.inr (.inr ⟨key, rfl, rfl, rfl⟩))
  | answered | expired => cases h

theorem serve_along {R : Accounts → Accounts → Prop} [IsPreorder Accounts R] {request : Request}
    (h : Along R (handle app x actor request.metadata request.route)) :
      Along R (serve app x actor request) :=
  Along.bind (Along.throwIf _ _) fun _ => h

/-- The permission of a route is one rule: to manage its subject. -/
theorem required_cases (route : Route) :
    route.required = none ∨ ∃ subject, route.required = some [⟨.manage, subject⟩] := by
  cases route with
  | ping | health | register | login | refresh | logout | forgotPassword | resetPassword | getMe =>
      exact .inl rfl
  | metrics => exact .inr ⟨.metric, rfl⟩
  | findAllUsers | findUser | createUser | updateUser | removeUser | setRoles => exact .inr ⟨.user, rfl⟩
  | findAllRoles | createRole | updateRole | removeRole | setPermissions => exact .inr ⟨.role, rfl⟩
  | findAllPermissions | createPermission | updatePermission | removePermission =>
      exact .inr ⟨.permission, rfl⟩

/-- **A request that was let pass was authorized**, earlier in the run: it arrived, and its guards are
    the step in which it was. By induction on the run, from the step that let it pass. -/
theorem admitted_authorized (hcasl : app.casl.Unconditional) (hfirst : ∀ c, (first.calls c).begins)
    (hrun : Pool.Steps (exec app) first t) {request : Request} {subject : PermissionSubject}
    (hrequired : request.route.required = some [⟨.manage, subject⟩])
    (hcall : t.calls c = .admitted request actor) :
    ∃ user t₀ x₀ t₁, actor = some user ∧ Pool.Steps (exec app) first t₀ ∧
      Pool.step (exec app) t₀ c x₀ = some t₁ ∧
      Pool.Steps (exec app) t₁ t ∧ t₀.calls c = .arrived request ∧
      Authorized app x₀ t₀.shared.world request user ⟨.manage, subject⟩ := by
  obtain ⟨t₀, x₀, t₁, hrun₀, -, hstep, ⟨harrived, user, huser, hauthorized⟩, hrun₁⟩ := hrun.happened
    (P := fun call => call = .admitted request actor)
    (E := fun t₀ x₀ _ => t₀.calls c = .arrived request ∧
      ∃ user, actor = some user ∧ Authorized app x₀ t₀.shared.world request user ⟨.manage, subject⟩)
    (fun h => by have := hfirst c; rw [h] at this; exact this)
    (fun {t₀ x₀ t₁} _ _ hstep hadmitted => by
      -- only the guards make a call an admitted one
      obtain ⟨sh, l, hexec, rfl⟩ := Pool.step_cases hstep
      rw [show l = .admitted request actor by simpa using hadmitted] at hexec
      rcases exec_cases hexec with ⟨request', actor', hcall', hguards, hsame⟩ | ⟨_, _, _, _, hsame⟩ |
        ⟨_, _, _, _, hsame⟩ | ⟨_, _, _, hsame⟩
      · cases hsame
        exact .inr ⟨hcall', guards_authorized hcasl hrequired hguards⟩
      all_goals cases hsame)
    hcall
  exact ⟨user, t₀, x₀, t₁, huser, hrun₀, hstep, hrun₁, harrived, hauthorized⟩

/-- **What a step does**: the guards of a request and an entry that expires write no table, a handler
    writes what its route may write. -/
theorem step_effect (hstep : Pool.step (exec app) t c x = some u) :
    SameTables t.shared u.shared ∨
    ∃ request actor, t.calls c = .admitted request actor ∧
      (serve app x actor request t.shared).2 = u.shared ∧
      (request.route.required = none ∧ Open app.env request.route.presentedLink t.shared u.shared ∨
        ∃ subject, request.route.required = some [⟨.manage, subject⟩] ∧
          Confined subject t.shared u.shared) := by
  obtain ⟨sh, l, hexec, rfl⟩ := Pool.step_cases hstep
  rcases exec_cases hexec with ⟨request, actor, -, hguards, -⟩ | ⟨request, e, -, hguards, -⟩ |
    ⟨request, actor, hcall, rfl, -⟩ | ⟨key, -, rfl, -⟩
  · left
    have hsame : SameTables t.shared (guards app x request t.shared).2 := guards_same request t.shared
    rw [hguards] at hsame
    exact hsame
  · left
    have hsame : SameTables t.shared (guards app x request t.shared).2 := guards_same request t.shared
    rw [hguards] at hsame
    exact hsame
  · right
    refine ⟨request, actor, hcall, rfl, ?_⟩
    rcases required_cases request.route with hnone | ⟨subject, hrequired⟩
    · exact .inl ⟨hnone, serve_along (handle_open hnone) t.shared⟩
    · exact .inr ⟨subject, hrequired, serve_along (handle_guarded hrequired) t.shared⟩
  · exact .inl ⟨.rfl, rfl⟩

/-- **Complete mediation**: in every run of requests and cache expiries, a step adds accounts or sets
    passwords at most, or it is the handler of a request whose route has a permission: the step then
    writes the tables of that permission only, and the request was authorized for it, as an active
    account, in an earlier step of its own. -/
theorem complete_mediation (hcasl : app.casl.Unconditional) (hfirst : ∀ c, (first.calls c).begins)
    (hrun : Pool.Steps (exec app) first t) (hstep : Pool.step (exec app) t c x = some u) :
    PublicChange t.shared.world.db u.shared.world.db ∨
      ∃ request user subject, t.calls c = .admitted request (some user) ∧
        request.route.required = some [⟨.manage, subject⟩] ∧
        Confined subject t.shared u.shared ∧
        ∃ t₀ x₀ t₁, Pool.Steps (exec app) first t₀ ∧ Pool.step (exec app) t₀ c x₀ = some t₁ ∧
          Pool.Steps (exec app) t₁ t ∧
            Authorized app x₀ t₀.shared.world request user ⟨.manage, subject⟩ := by
  rcases step_effect hstep with hsame |
    ⟨request, actor, hcall, -, ⟨-, hopen⟩ | ⟨subject, hrequired, hconfined⟩⟩
  · exact .inl hsame.within.publicChange
  · exact .inl hopen.publicChange
  · right
    obtain ⟨user, t₀, x₀, t₁, rfl, hrun₀, hstep₀, hrun₁, -, hauthorized⟩ :=
      admitted_authorized hcasl hfirst hrun hrequired hcall
    exact ⟨request, user, subject, hcall, hrequired, hconfined, t₀, x₀, t₁, hrun₀, hstep₀,
      hrun₁, hauthorized⟩

/-! ## A request of the administrator

A seeded deployment with a library that knows the administrator's token: the administrator creates a
role. -/

/-- A library that knows two tokens: the administrator's, and that of an account with the id `a`. Every
    other text is no token. -/
def twoTokens : Realtime.Jwt where
  verify token _ :=
    if token = "admin" then some ⟨.text (seedId 8).text⟩
    else if token = "new" then some ⟨.text uuidA.text⟩
    else none
  compact token now payload h := by
    have hwords : ∀ text ∈ ["admin", "new"], text ≠ "" ∧
      (text.toList.all fun c => !isTrimmed c) = true := by decide +kernel
    have hmem : token ∈ ["admin", "new"] := by
      split at h
      · next htoken => simp [htoken]
      · split at h
        · next htoken => simp [htoken]
        · cases h
    exact ⟨(hwords token hmem).1, by simpa using List.all_eq_true.mp (hwords token hmem).2⟩

def toyApp : App where
  env    := toyEnv
  jwt    := twoTokens
  casl   := ruleList
  driver := .smtp
  fold   := .ascii
  order  := ⟨fun _ _ => true, fun _ _ => true⟩
  isUuid := fun _ => true

/-- The administrator's row as the seeding script inserts it. -/
def seededAdmin : User := ⟨seedId 8, "a@b.co", "hash", none, none, .active, none, 0, 0, none⟩

theorem rows_seededAdmin : freshAccounts.world.db.users.rows = [seededAdmin] := by decide +kernel

/-- Values for one step. -/
def Draw.at (now : Nat) (id : Uuid) : Draw where
  o            := .at now id "token" uuidA
  oSession     := .at now uuidB "session" uuidA
  fault        := none
  queueAccepts := true
  rank         := fun _ => 0

/-- A request with a token, or without. -/
def Request.plain (token : Option String) (route : Route) : Request :=
  ⟨route, token.map ("Bearer " ++ ·), ⟨none, none⟩⟩

/-- The seeded deployment, and requests that arrive. -/
def arriving (n : Nat) (requests : List Request) : State (Fin n) where
  shared := freshAccounts
  calls c := ((requests[c.val]?).map Call.arrived).getD (.entry "")

theorem begins_arriving {n : Nat} (requests : List Request) (c : Fin n) :
    ((arriving n requests).calls c).begins := by
  show (((requests[c.val]?).map Call.arrived).getD (.entry "")).begins
  cases requests[c.val]? <;> trivial

/-- The administrator creates a role: its guards have authorized it. -/
theorem complete_mediation_create_role : ∃ (t u : State (Fin 1)) (x : Draw),
    Pool.step (exec toyApp) t 0 x = some u ∧ ¬ PublicChange t.shared.world.db u.shared.world.db ∧
      ∃ (t₀ : State (Fin 1)) (x₀ : Draw) (request : Request) (user : User) (subject : PermissionSubject),
        Authorized toyApp x₀ t₀.shared.world request user ⟨.manage, subject⟩ := by
  let first := arriving 1 [.plain (some "admin") (.createRole ⟨"editor", none⟩)]
  have hreplay : ((Pool.step (exec toyApp) first 0 (.at 1 uuidA)).any fun t =>
      (Pool.step (exec toyApp) t 0 (.at 2 uuidA)).any fun u =>
        decide (u.shared.world.db.roles.rows.length ≠ t.shared.world.db.roles.rows.length)) = true := by
          decide +kernel
  obtain ⟨t, ht, hrest⟩ := (Option.any_eq_true _ _).mp hreplay
  obtain ⟨u, hu, hroles⟩ := (Option.any_eq_true _ _).mp hrest
  have hpublic : ¬ PublicChange t.shared.world.db u.shared.world.db := by
    intro h
    rw [h.roles] at hroles
    exact of_decide_eq_true hroles rfl
  obtain ⟨request, user, subject, -, -, -, t₀, x₀, -, -, -, -, hauthorized⟩ :=
    (complete_mediation ruleList_unconditional (begins_arriving _)
      (Pool.Run.single trivial ht) hu).resolve_left hpublic
  exact ⟨t, u, _, hu, hpublic, t₀, x₀, request, user, subject, hauthorized⟩

end Http

end NestApp
