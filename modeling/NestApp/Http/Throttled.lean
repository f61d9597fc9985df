import NestApp.Http.Mediation
import NestApp.Lib.FixedWindow
import NestApp.Shared.ResilientThrottler

/-!
# `Http.Throttled` — the two walls around the guards

The order of the global guards: the throttler counts a request for its address, the token is verified,
the second throttler counts it for its user, and the permission of the route is checked last. Both
walls count in one storage, a bucket for each handler and address or user.

* `throttled_refines` — the walls take nothing but requests away: what the application does behind them
  is a run of the application without them, so that what holds of all its runs holds here;
* `walls_hold` — of the requests to a handler, those from one address that get as far as the token, and
  those of one user that get past the guards, are held to what the storages hold a bucket to, whatever
  Redis and the other instances do.

Nothing is assumed about the storages but a bound on what they let pass, one for Redis and one for the
memory of the process, since a failing Redis hands a bucket over to the memory in the middle of a
window.
-/

namespace NestApp

open Sql Prog ResilientThrottlerStorage
open ThrottlerStorage (InOrder Uniform passes)

namespace Http

/-- `THROTTLE_LIMIT`, and `THROTTLE_TTL` in seconds. -/
structure ThrottlerConfig where
  limit : Nat
  ttl   : Nat

/-- What `generateKey` hashes: the controller with its handler, and the tracker. The tracker is an
    address or a user. -/
structure Bucket where
  handler : String
  tracker : String
deriving DecidableEq

namespace Route

/-- `context.getClass().name` and `context.getHandler().name` -/
def handler : Route → String
  | .ping                => "HealthController-ping"
  | .health              => "HealthController-check"
  | .metrics             => "MetricsController-metrics"
  | .register _          => "AuthController-register"
  | .login _             => "AuthController-login"
  | .refresh _           => "AuthController-refresh"
  | .logout _            => "AuthController-logout"
  | .forgotPassword _    => "AuthController-forgotPassword"
  | .resetPassword _     => "AuthController-resetPassword"
  | .getMe               => "UsersController-getMe"
  | .findAllUsers _      => "UsersController-findAll"
  | .findUser _          => "UsersController-findOne"
  | .createUser _        => "UsersController-create"
  | .updateUser ..       => "UsersController-update"
  | .removeUser _        => "UsersController-remove"
  | .setRoles ..         => "UsersController-setRoles"
  | .findAllRoles        => "RolesController-findAll"
  | .createRole _        => "RolesController-create"
  | .updateRole ..       => "RolesController-update"
  | .removeRole _        => "RolesController-remove"
  | .setPermissions ..   => "RolesController-setPermissions"
  | .findAllPermissions  => "PermissionsController-findAll"
  | .createPermission _  => "PermissionsController-create"
  | .updatePermission .. => "PermissionsController-update"
  | .removePermission _  => "PermissionsController-remove"

/-- The limit and the window, in milliseconds: `@SkipThrottle()`, `@Throttle(AUTH_ENDPOINT_THROTTLE)`,
    or those configured. -/
def throttle (config : ThrottlerConfig) : Route → Option (Nat × Nat)
  | .ping | .health | .metrics => none
  | .register _ | .login _ | .refresh _ | .forgotPassword _ | .resetPassword _ => some (5, 60 * 1000)
  | _ => some (config.limit, config.ttl * 1000)

end Route

/-- What a throttler counts a request as, unless the route is skipped. The block lasts as long as the
    window. -/
def hitOf (config : ThrottlerConfig) (route : Route) (tracker : String) (now : Nat) :
    Option (Hit Bucket) :=
  (route.throttle config).map fun (limit, ttl) =>
    ⟨⟨route.handler, tracker⟩, ttl, limit, ttl, "default", now⟩

/-- `req.ip` -/
def Request.ip (request : Request) : String := request.metadata.ipAddress.getD "undefined"

/-! ## Steps

A request is counted twice at most: on its way to the token, and on its way to the handler. A refusal
is an answer, and the application behind has not seen the request. -/

/-- The application behind its walls: the accounts, and the storage that both walls count in. -/
structure Throttled (redis memory : ThrottlerStorage Bucket) where
  accounts : Accounts
  storage  : ResilientThrottlerStorage redis memory

structure ThrottledDraw extends Draw where
  /-- what becomes of the command to Redis -/
  attempt : RedisOutcome

inductive ThrottledCall where
  | arrived (request : Request)
  /-- past `ThrottlerGuard` -/
  | counted (request : Request)
  /-- past all guards, answered by one of the later ones, or no request -/
  | past (call : Call)
  /-- answered with 429 -/
  | refused (request : Request)
  /-- a request that another instance counts -/
  | elsewhere (route : Route) (tracker : String)
  | done

variable {redis memory : ThrottlerStorage Bucket}

/-- A throttler lets pass what it does not count. -/
def wall (attempt : RedisOutcome) (hit : Option (Hit Bucket))
    (s : ResilientThrottlerStorage redis memory) :
    Bool × ResilientThrottlerStorage redis memory :=
  match hit with
  | none     => (true, s)
  | some hit => (!(increment attempt hit s).1.isBlocked, (increment attempt hit s).2)

/-- `UserThrottlerGuard`, behind `JwtAuthGuard`: a request without a user is skipped. -/
def userHit (app : App) (config : ThrottlerConfig) (x : Draw) (request : Request)
    (db : Rbac) : Option (Hit Bucket) :=
  match jwtAuthGuard app x request db with
  | .ok (some user) => hitOf config request.route user.id.text x.o.now
  | _               => none

def throttledExec {C : Type} (app : App) (config : ThrottlerConfig) :
    Pool.Code (Throttled redis memory) ThrottledCall ThrottledDraw C := fun c s call x =>
  match call with
  | .arrived request =>
      let counted := wall x.attempt (hitOf config request.route request.ip x.o.now) s.storage
      some ({ s with storage := counted.2 }, if counted.1 then .counted request else .refused request)
  | .counted request =>
      let counted := wall x.attempt (userHit app config x.toDraw request s.accounts.world.db) s.storage
      if counted.1 then (exec app c s.accounts (.arrived request) x.toDraw).map fun r =>
        (⟨r.1, counted.2⟩, .past r.2)
      else some ({ s with storage := counted.2 }, .refused request)
  | .past call =>
      (exec app c s.accounts call x.toDraw).map fun r => ({ s with accounts := r.1 }, .past r.2)
  | .elsewhere route tracker =>
      match hitOf config route tracker x.o.now with
      | none     => some (s, .done)
      | some hit => some ({ s with storage := elsewhere hit s.storage }, .done)
  | .refused _ | .done => none

abbrev ThrottledState (redis memory : ThrottlerStorage Bucket) (C : Type) := Pool.Config
    (Throttled redis memory) ThrottledCall C

/-! ## The application without the walls

The simulation: a step of the throttled application is a step of the plain one, or does not show there.
-/

/-- A request that is refused has not been seen. -/
def ThrottledCall.plain : ThrottledCall → Call
  | .arrived request | .counted request | .refused request => .arrived request
  | .past call                                             => call
  | .elsewhere _ _ | .done                                 => .expired

def plain {C : Type} (t : ThrottledState redis memory C) : State C where
  shared  := t.shared.accounts
  calls c := (t.calls c).plain

variable {C : Type} [DecidableEq C] {app : App} {config : ThrottlerConfig}
  {t u first : ThrottledState redis memory C} {c : C}
  {x : ThrottledDraw}

theorem plain_update (shared : Throttled redis memory) (calls : C → ThrottledCall)
    (call : ThrottledCall) :
    plain ⟨shared, Function.update calls c call⟩ =
      ⟨shared.accounts, Function.update (fun d => (calls d).plain) c call.plain⟩ := by
  unfold plain
  congr 1
  funext d
  by_cases hd : d = c
  · subst hd
    simp
  · simp [Function.update_of_ne hd]

/-- A step that leaves the accounts and the request does not show. -/
theorem plain_stutters {s : ResilientThrottlerStorage redis memory} {call : ThrottledCall}
    (hplain : call.plain = (t.calls c).plain) :
    plain ⟨{ t.shared with storage := s }, Function.update t.calls c call⟩ = plain t := by
  rw [plain_update, hplain]
  unfold plain
  congr 1
  exact Function.update_eq_self c _

/-- A step behind the walls is one of the application. -/
theorem plain_steps {s : ResilientThrottlerStorage redis memory} {accounts' : Accounts}
    {call' : Call} {request : Call}
    (hplain : (t.calls c).plain = request)
    (hexec : exec app c t.shared.accounts request x.toDraw = some (accounts', call')) :
    Pool.step (exec app) (plain t) c x.toDraw =
      some (plain ⟨⟨accounts', s⟩, Function.update t.calls c (.past call')⟩) := by
  rw [plain_update, Pool.step]
  show (exec app c t.shared.accounts (t.calls c).plain x.toDraw).map _ = _
  rw [hplain, hexec]
  rfl

/-- **The walls only take requests away.** Each run behind the walls is one of the application, once the
    requests that were refused are left out. -/
theorem throttled_refines (hrun : Pool.Steps (throttledExec app config) first t) :
    Pool.Steps (exec app) (plain first) (plain t) := by
  refine hrun.project fun {t c x u} _ hstep => ?_
  obtain ⟨shared, call, hexec, rfl⟩ := Pool.step_cases hstep
  cases hcall : t.calls c with
  | arrived request =>
      rw [hcall] at hexec
      simp only [throttledExec, Option.some.injEq] at hexec
      cases hexec
      refine .inl (plain_stutters ?_)
      rw [hcall]
      split <;> rfl
  | counted request =>
      rw [hcall] at hexec
      simp only [throttledExec] at hexec
      split at hexec
      · obtain ⟨⟨accounts', call'⟩, hhttp, heq⟩ := Option.map_eq_some_iff.mp hexec
        cases heq
        exact .inr ⟨x.toDraw, trivial, plain_steps (by rw [hcall]; rfl) hhttp⟩
      · cases hexec
        exact .inl (plain_stutters (by rw [hcall]; rfl))
  | past request =>
      rw [hcall] at hexec
      obtain ⟨⟨accounts', call'⟩, hhttp, heq⟩ := Option.map_eq_some_iff.mp hexec
      cases heq
      exact .inr ⟨x.toDraw, trivial, plain_steps (by rw [hcall]; rfl) hhttp⟩
  | elsewhere route tracker =>
      rw [hcall] at hexec
      simp only [throttledExec] at hexec
      split at hexec
      · cases hexec
        exact .inl (plain_stutters (by rw [hcall]; rfl))
      · cases hexec
        exact .inl (plain_stutters (by rw [hcall]; rfl))
  | refused | done =>
      rw [hcall] at hexec
      cases hexec

/-! ## What is counted

The hits that the steps make, and the buckets whose walls they get requests past. That every admission
was a hit with an answer is what connects the two. -/

/-- The hit that a step makes. -/
def made (app : App) (config : ThrottlerConfig) (t : ThrottledState redis memory C) (c : C)
    (x : ThrottledDraw) :
    Option (Counting Bucket) :=
  match t.calls c with
  | .arrived request         =>
      (hitOf config request.route request.ip x.o.now).map (.increment x.attempt)
  | .counted request         =>
      (userHit app config x.toDraw request t.shared.accounts.world.db).map (.increment x.attempt)
  | .elsewhere route tracker => (hitOf config route tracker x.o.now).map .elsewhere
  | _                        => none

/-- The bucket whose wall a step gets a request past: that of its address on the way to the token, and
    that of its user on the way to the handler. -/
def letIn (before after : ThrottledCall) : Option Bucket :=
  match before, after with
  | .arrived request, .counted _                      => some ⟨request.route.handler, request.ip⟩
  | .counted _, .past (.admitted request (some user)) => some ⟨request.route.handler, user.id.text⟩
  | _, _                                              => none

/-- The hits in a schedule. -/
def hits (app : App) (config : ThrottlerConfig) :
    ThrottledState redis memory C → List (C × ThrottledDraw) → List (Counting Bucket)
  | _, []             => []
  | t, (c, x) :: rest =>
      match Pool.step (throttledExec app config) t c x with
      | none   => []
      | some u => (made app config t c x).toList ++ hits app config u rest

/-- The requests let in, in a schedule: the bucket and the time. -/
def admissions (app : App) (config : ThrottlerConfig) :
    ThrottledState redis memory C → List (C × ThrottledDraw) → List (Bucket × Nat)
  | _, []             => []
  | t, (c, x) :: rest =>
      match Pool.step (throttledExec app config) t c x with
      | none   => []
      | some u =>
          ((letIn (t.calls c) (u.calls c)).map fun bucket => (bucket, x.o.now)).toList ++
            admissions app config u rest

theorem hitOf_some {route : Route} {tracker : String} {now : Nat} {hit : Hit Bucket}
    (h : hitOf config route tracker now = some hit) :
      ∃ limit ttl, route.throttle config = some (limit, ttl) ∧
      hit = ⟨⟨route.handler, tracker⟩, ttl, limit, ttl, "default", now⟩ := by
  obtain ⟨⟨limit, ttl⟩, hthrottle, heq⟩ := Option.map_eq_some_iff.mp h
  exact ⟨limit, ttl, hthrottle, heq.symm⟩

/-- The throttling of a route, by its handler. -/
def throttleOf (config : ThrottlerConfig) (handler : String) : Option (Nat × Nat) :=
  if handler ∈ ["HealthController-ping", "HealthController-check", "MetricsController-metrics"] then none
  else if handler ∈ ["AuthController-register", "AuthController-login", "AuthController-refresh",
      "AuthController-forgotPassword", "AuthController-resetPassword"] then some (5, 60 * 1000)
  else some (config.limit, config.ttl * 1000)

theorem throttle_eq (config : ThrottlerConfig) (route : Route) :
    route.throttle config = throttleOf config route.handler := by
  cases route with
  | _ => simp [Route.throttle, throttleOf, Route.handler]

omit [DecidableEq C] in
/-- Every hit is that of a route, at the time of the step. -/
theorem made_some {count : Counting Bucket} (h : made app config t c x = some count) :
    ∃ route tracker, hitOf config route tracker x.o.now = some count.hit := by
  unfold made at h
  split at h
  · obtain ⟨hit, hhit, rfl⟩ := Option.map_eq_some_iff.mp h
    exact ⟨_, _, hhit⟩
  · next request _ =>
    obtain ⟨hit, hhit, rfl⟩ := Option.map_eq_some_iff.mp h
    unfold userHit at hhit
    split at hhit
    · exact ⟨_, _, hhit⟩
    · cases hhit
  · obtain ⟨hit, hhit, rfl⟩ := Option.map_eq_some_iff.mp h
    exact ⟨_, _, hhit⟩
  · cases h

theorem wall_storage (attempt : RedisOutcome) (hit : Option (Hit Bucket))
    (s : ResilientThrottlerStorage redis memory) :
    (wall attempt hit s).2 = (hit.map (Counting.increment attempt)).toList.foldl after s := by
  cases hit with
  | none => rfl
  | some hit => rfl

/-- **A step changes the storage** by its hit, and a step without a hit leaves it. -/
theorem step_storage (h : Pool.step (throttledExec app config) t c x = some u) :
    u.shared.storage = (made app config t c x).toList.foldl after t.shared.storage := by
  obtain ⟨shared, call, hexec, rfl⟩ := Pool.step_cases h
  unfold made
  cases hcall : t.calls c with
  | arrived request =>
      rw [hcall] at hexec
      simp only [throttledExec, Option.some.injEq] at hexec
      cases hexec
      exact wall_storage ..
  | counted request =>
      rw [hcall] at hexec
      simp only [throttledExec] at hexec
      split at hexec
      · obtain ⟨⟨accounts', call'⟩, -, heq⟩ := Option.map_eq_some_iff.mp hexec
        cases heq
        exact wall_storage ..
      · cases hexec
        exact wall_storage ..
  | past request =>
      rw [hcall] at hexec
      obtain ⟨⟨accounts', call'⟩, -, heq⟩ := Option.map_eq_some_iff.mp hexec
      cases heq
      rfl
  | elsewhere route tracker =>
      rw [hcall] at hexec
      simp only [throttledExec] at hexec
      cases hhit : hitOf config route tracker x.o.now with
      | none =>
          rw [hhit] at hexec
          cases hexec
          simp only [hhit]
          rfl
      | some hit =>
          rw [hhit] at hexec
          cases hexec
          simp only [hhit]
          rfl
  | refused | done =>
      rw [hcall] at hexec
      cases hexec

/-- What passes a wall is not blocked. -/
theorem wall_passes {attempt : RedisOutcome} {hit : Hit Bucket}
    {s : ResilientThrottlerStorage redis memory}
    (h : (wall attempt (some hit) s).1 = true) : (increment attempt hit s).1.isBlocked = false := by
  simpa [wall] using h

/-- The guards carry a request on with the user of its token. -/
theorem jwtAuthGuard_of_guards {request : Request} {x : Draw} {actor : Option User} {s s' : Accounts}
    (h : guards app x request s = (.ok actor, s')) :
      jwtAuthGuard app x request s.world.db = .ok actor := by
  rw [guards, gets_bind] at h
  cases hjwt : jwtAuthGuard app x request s.world.db with
  | error e =>
      rw [hjwt] at h
      cases h
  | ok found =>
      rw [hjwt] at h
      obtain ⟨_, s₂, -, hreturn⟩ := of_bind_ok h
      cases hreturn
      rfl

/-- **Whoever is let in was counted**, and not blocked: the step is the hit. -/
theorem letIn_made {bucket : Bucket} {limit ttl : Nat}
    (h : Pool.step (throttledExec app config) t c x = some u)
    (hin : letIn (t.calls c) (u.calls c) = some bucket)
    (hthrottle : throttleOf config bucket.handler = some (limit, ttl)) :
    ∃ hit, made app config t c x = some (.increment x.attempt hit) ∧ hit.key = bucket ∧
      hit.now = x.o.now ∧
      (increment x.attempt hit t.shared.storage).1.isBlocked = false := by
  obtain ⟨shared, call, hexec, rfl⟩ := Pool.step_cases h
  replace hin : letIn (t.calls c) call = some bucket := by simpa using hin
  cases hcall : t.calls c with
  | arrived request =>
      rw [hcall] at hexec hin
      simp only [throttledExec, Option.some.injEq] at hexec
      cases hexec
      by_cases hpass : (wall x.attempt (hitOf config request.route request.ip x.o.now)
        t.shared.storage).1 = true
      · rw [if_pos hpass] at hin
        cases hin
        have hhit : hitOf config request.route request.ip x.o.now =
            some ⟨⟨request.route.handler, request.ip⟩, ttl, limit, ttl, "default", x.o.now⟩ := by
          rw [hitOf, throttle_eq, hthrottle]
          rfl
        rw [hhit] at hpass
        refine ⟨_, ?_, rfl, rfl, wall_passes hpass⟩
        rw [made, hcall]
        simp only [hhit]
        rfl
      · rw [if_neg hpass] at hin
        cases hin
  | counted request =>
      rw [hcall] at hexec hin
      simp only [throttledExec] at hexec
      split at hexec
      · next hpass =>
        obtain ⟨⟨accounts', call'⟩, hhttp, heq⟩ := Option.map_eq_some_iff.mp hexec
        cases heq
        rcases exec_cases hhttp with ⟨request', actor, heq, hguards, rfl⟩ | ⟨_, _, -, -, rfl⟩ |
          ⟨_, _, heq, -, -⟩ |
          ⟨_, heq, -, -⟩
        · cases heq
          cases actor with
          | none => cases hin
          | some user =>
              cases hin
              have hhit : userHit app config x.toDraw request t.shared.accounts.world.db =
                  some ⟨⟨request.route.handler, user.id.text⟩, ttl, limit, ttl, "default", x.o.now⟩ := by
                rw [userHit, jwtAuthGuard_of_guards hguards]
                simp only [hitOf, throttle_eq]
                rw [hthrottle]
                rfl
              rw [hhit] at hpass
              refine ⟨_, ?_, rfl, rfl, wall_passes hpass⟩
              rw [made, hcall]
              simp only [hhit]
              rfl
        · cases hin
        · cases heq
        · cases heq
      · cases hexec
        cases hin
  | past | elsewhere | refused | done =>
      rw [hcall] at hin
      cases hin

/-! ## Schedules

Over a whole schedule: the hits reach the storage in the order of time, each bucket with one limit and
one window, and an admission is an answer of the storage. -/

variable {q : List (C × ThrottledDraw)}

/-- The hits come at the times of the steps. -/
theorem hits_inOrder (hsorted : q.Pairwise fun move later => move.2.o.now ≤ later.2.o.now)
    (t : ThrottledState redis memory C) : InOrder ((hits app config t q).map Counting.hit) := by
  have hsub : ((hits app config t q).map fun count => count.hit.now).Sublist
    (q.map fun move => move.2.o.now) := by
    clear hsorted
    induction q generalizing t with
    | nil => exact .slnil
    | cons move rest ih =>
        obtain ⟨c, x⟩ := move
        rw [hits]
        cases Pool.step (throttledExec app config) t c x with
        | none => exact List.nil_sublist _
        | some u =>
            simp only
            cases hmade : made app config t c x with
            | none => exact (ih u).cons _
            | some count =>
                obtain ⟨route, tracker, hhit⟩ := made_some hmade
                obtain ⟨limit, ttl, -, heq⟩ := hitOf_some hhit
                have hnow : count.hit.now = x.o.now := by rw [heq]
                simp only [Option.toList_some, List.cons_append, List.nil_append, List.map_cons, hnow]
                exact (ih u).cons_cons _
  rw [InOrder, List.pairwise_map]
  exact List.pairwise_map.mp (List.Pairwise.sublist hsub (List.pairwise_map.mpr hsorted))

/-- A bucket is always counted with the limit and the window of its handler. -/
theorem hits_uniform {bucket : Bucket} {limit ttl : Nat}
    (hthrottle : throttleOf config bucket.handler = some (limit, ttl))
    (t : ThrottledState redis memory C) :
      Uniform bucket ttl limit ((hits app config t q).map Counting.hit) := by
  intro hit hhit hkey
  obtain ⟨count, hcount, rfl⟩ := List.mem_map.mp hhit
  clear hhit
  induction q generalizing t with
  | nil => exact absurd hcount List.not_mem_nil
  | cons move rest ih =>
      obtain ⟨c, x⟩ := move
      rw [hits] at hcount
      cases hstep : Pool.step (throttledExec app config) t c x with
      | none =>
          rw [hstep] at hcount
          exact absurd hcount List.not_mem_nil
      | some u =>
          rw [hstep] at hcount
          rcases List.mem_append.mp hcount with hmade | hrest
          · obtain ⟨route, tracker, hhit⟩ := made_some (Option.mem_toList.mp hmade)
            obtain ⟨limit', ttl', hroute, heq⟩ := hitOf_some hhit
            rw [heq] at hkey ⊢
            rw [throttle_eq, show route.handler =
              bucket.handler from congrArg Bucket.handler hkey, hthrottle] at hroute
            cases hroute
            exact ⟨rfl, rfl⟩
          · exact ih u hrest

/-- The hits before a step change the storage, not what comes behind. -/
theorem countP_answers_append (p : Hit Bucket × ThrottlerStorageRecord → Bool)
    (s : ResilientThrottlerStorage redis memory)
    (count : Option (Counting Bucket)) (rest : List (Counting Bucket)) :
    (answers (count.toList.foldl after s) rest).countP p ≤
      (answers s (count.toList ++ rest)).countP p := by
  cases count with
  | none => exact le_rfl
  | some count =>
      cases count with
      | elsewhere hit => exact le_rfl
      | increment attempt hit =>
          show (answers (increment attempt hit s).2 rest).countP p ≤
            ((hit, (increment attempt hit s).1) :: answers (increment attempt hit s).2 rest).countP p
          rw [List.countP_cons]
          exact Nat.le_add_right _ _

/-- **Whoever is let in has an answer of the storage.** So a cap on the answers is one on the
    admissions. -/
theorem countP_admissions_le {bucket : Bucket} {limit ttl : Nat}
    (hthrottle : throttleOf config bucket.handler = some (limit, ttl)) (start width : Nat)
    (t : ThrottledState redis memory C) (q : List (C × ThrottledDraw)) :
    (admissions app config t q).countP
    (fun a => decide (a.1 = bucket ∧ start ≤ a.2 ∧ a.2 ≤ start + width)) ≤
      (answers t.shared.storage (hits app config t q)).countP (passes bucket start width) := by
  induction q generalizing t with
  | nil => exact Nat.zero_le _
  | cons move rest ih =>
      obtain ⟨c, x⟩ := move
      rw [hits, admissions]
      cases hstep : Pool.step (throttledExec app config) t c x with
      | none => exact Nat.zero_le _
      | some u =>
          have hrest := ih u
          rw [step_storage hstep] at hrest
          simp only
          by_cases hin : letIn (t.calls c) (u.calls c) = some bucket
          · obtain ⟨hit, hmade, hkey, hnow, hpassed⟩ := letIn_made hstep hin hthrottle
            rw [hmade] at hrest ⊢
            simp only [hin, Option.map_some, Option.toList_some, List.singleton_append,
              List.countP_cons, answers,
              passes, hkey, hnow, hpassed, Bool.not_false, Bool.and_true, List.foldl_cons,
                List.foldl_nil, after]
              at hrest ⊢
            omega
          · -- somebody else is let in, or nobody
            have hhead : (((letIn (t.calls c) (u.calls c)).map fun other =>
              (other, x.o.now)).toList).countP
                (fun a => decide (a.1 = bucket ∧ start ≤ a.2 ∧ a.2 ≤ start + width)) = 0 := by
              rw [List.countP_eq_zero]
              intro a ha
              obtain ⟨other, hother, rfl⟩ := Option.map_eq_some_iff.mp (Option.mem_toList.mp ha)
              have hne : other ≠ bucket := by
                rintro rfl
                exact hin hother
              simp [hne]
            rw [List.countP_append, hhead, Nat.zero_add]
            exact hrest.trans (countP_answers_append _ _ _ _)

/-- **Both walls hold.** In every schedule of requests in the order of time, with any failures of Redis
    and any requests at other instances: of the requests to a handler from one address that get to the
    authentication, and of those of one user that get past the guards, at most `b + b'` do so in an
    interval as long as the window of the handler, if Redis lets pass at most `b` hits on a bucket and
    the memory at most `b'`. -/
theorem walls_hold (hstorage : first.shared.storage = .new) {bucket : Bucket} {limit ttl b b' : Nat}
    (hthrottle : throttleOf config bucket.handler = some (limit, ttl)) (hredis : redis.Caps ttl limit b)
    (hmemory : memory.Caps ttl limit b')
    (hsorted : q.Pairwise fun move later => move.2.o.now ≤ later.2.o.now)
    (start : Nat) :
    (admissions app config first q).countP
    (fun a => decide (a.1 = bucket ∧ start ≤ a.2 ∧ a.2 ≤ start + ttl)) ≤ b + b' := by
  have hadmitted : _ ≤ (answers first.shared.storage (hits app config first q)).countP
    (passes bucket start ttl) :=
    countP_admissions_le hthrottle start ttl first q
  rw [hstorage] at hadmitted
  exact hadmitted.trans
    (answers_capped hredis hmemory (hits_inOrder hsorted first) (hits_uniform hthrottle first) start)

/-! ## A client with many addresses

Two addresses, one user: the wall of the addresses does not hold it, the wall of the user does. -/

/-- The administrator asks for its profile from two addresses. -/
def rotating : ThrottledState ThrottlerStorage.windowStorage ThrottlerStorage.windowStorage (Fin 2) where
  shared  := ⟨freshAccounts, .new⟩
  calls c := .arrived ⟨.getMe, some "Bearer admin",
    ⟨some (["203.0.113.10", "203.0.113.11"].get c), none⟩⟩

def ThrottledDraw.at (now : Nat) (attempt : RedisOutcome) : ThrottledDraw := ⟨.at now uuidA, attempt⟩

/-- One request a minute: Redis counts the first one, and does not answer to the user's second one. -/
def rotatingMoves : List (Fin 2 × ThrottledDraw) := Pool.turns 2
  [(0, .at 1 .answered), (0, .at 1 .answered), (1, .at 2 .answered), (1, .at 2 .unreachable)]

def adminBucket : Bucket := ⟨"UsersController-getMe", (seedId 8).text⟩

def ThrottledCall.isAdmitted : ThrottledCall → Bool
  | .past (.admitted _ _) => true
  | _                     => false

/-- Behind the walls, both requests are past the guards of the application. -/
theorem throttled_refines_rotating : ∃ t, Pool.Steps (throttledExec toyApp ⟨1, 60⟩) rotating t ∧
    (∀ c, (t.calls c).isAdmitted = true) ∧ Pool.Steps (exec toyApp) (plain rotating) (plain t) := by
  have hreplay : (Pool.replay (throttledExec toyApp ⟨1, 60⟩) Pool.anyStep rotating rotatingMoves).any
      (fun t => decide (∀ c, (t.calls c).isAdmitted = true)) = true := by decide +kernel
  obtain ⟨t, hrun, hadmitted⟩ := Pool.exists_run_of_replay hreplay
  exact ⟨t, hrun, of_decide_eq_true hadmitted, throttled_refines hrun⟩

/-- Two requests of the user are let in, the second one by the memory, of the four that the storages
    allow. -/
theorem walls_hold_rotating :
    (admissions toyApp ⟨1, 60⟩ rotating rotatingMoves).countP
        (fun a => decide (a.1 = adminBucket ∧ 1 ≤ a.2 ∧ a.2 ≤ 1 + 60000)) = 2 ∧
      (admissions toyApp ⟨1, 60⟩ rotating rotatingMoves).countP
        (fun a => decide (a.1 = adminBucket ∧ 1 ≤ a.2 ∧ a.2 ≤ 1 + 60000)) ≤ 2 * 1 + 2 * 1 := by
  have hnew : rotating.shared.storage = .new := rfl
  have hlimit : 1 ≤ 1 := le_rfl
  have hwindow : 0 < 60000 := by decide
  exact ⟨by decide +kernel, walls_hold hnew (by decide +kernel)
    (ThrottlerStorage.windowStorage_caps hlimit hwindow)
    (ThrottlerStorage.windowStorage_caps hlimit hwindow) (by decide +kernel) 1⟩

end Http

end NestApp
