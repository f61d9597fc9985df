import NestApp.Common.WsThrottleGuard
import NestApp.Http.Escalation

/-!
# `Process` — requests and sockets over one set of accounts

The application as it runs: the REST controllers and the notifications gateway in one process. A token
presented by a socket is verified against the accounts that requests are changing meanwhile, and the
rules a broadcast is checked by are those of the cache that the guards of requests fill. The handler of
a message gives way where it awaits its rules: at the `GET`, at the query of the tables and at the
`SET`. So the tables and the cache may change between the lookup of a right and the message that goes
out by it.

* `change_of_exec` — a step of a socket is one of the gateway by itself (`Realtime.Change`), with the
  users as their tokens are signed, or one of a handler that awaits its rules;
* `broadcasts_are_authorized` — what is broadcast was sent by a user whose token the guard of the same
  message has verified as that of an active account, and whose right was in effect when the handler
  looked it up, after that guard. So nobody gains the right to broadcast without an administrator
  either.

The requests of the REST side keep their two steps, guards and handler.
-/

namespace NestApp

open Sql Prog Realtime

/-- The process and its database: the accounts with their cache, the namespace of the sockets, and the
    counters of the throttle. -/
structure Process (S P : Type) where
  accounts : Accounts
  gateway  : Namespace S P
  /-- `socket.data._wsThrottle` -/
  throttle : S → Option ThrottleState

/-- A token has one payload; what changes is whether it verifies. -/
def Realtime.Jwt.Fixed (jwt : Jwt) : Prop :=
  ∀ {token now now' payload payload'}, jwt.verify token now = some payload →
    jwt.verify token now' = some payload' →
    payload = payload'

namespace Process

inductive Call (S P : Type) where
  | request (call : Http.Call)
  | socket (pc : Pc S P)
  -- the handler of a message, in `getPermissionRulesForUser`
  /-- Redis has no entry: the tables are to be asked -/
  | load (socket : S) (userId : Uuid) (dto : P)
  /-- the `SET` is on its way -/
  | store (socket : S) (userId : Uuid) (rules : List PermissionRule) (dto : P)
  /-- the rules are there -/
  | decide (socket : S) (rules : List PermissionRule) (dto : P)

variable {S P C : Type} [DecidableEq S]

/-! ## Steps

A step is one of a request, one of a socket, or one of a handler of a message. The last kind is split
at its awaits. -/

/-- The user a token is verified as. -/
def verified (app : Http.App) (db : Rbac) (now : Nat) (token : String) : Option Uuid :=
  (AccessTokenIdentityService.verifyToken app.jwt db now token).toOption.map User.id

def broadcastEvent : String := "notifications:broadcast"

/-- The messages of a socket are counted here, and its other steps are the gateway's. -/
def socketStep (app : Http.App) (x : Http.Draw) (p : Process S P) (pc : Pc S P) :
    Option (Process S P × Pc S P) :=
  match pc with
  | .receive socket _ =>
      let counted := WsThrottleGuard.canActivate (gatewayThrottle broadcastEvent) broadcastEvent x.o.now
        (p.throttle socket)
      (Realtime.step app.casl (fun _ => none) ⟨WsThrottleGuard.isAccepted counted.1,
        []⟩ p.gateway pc).map fun r =>
        ({ p with gateway := r.1, throttle := Function.update p.throttle socket counted.2 }, r.2)
  | pc =>
      (Realtime.step app.casl (verified app p.accounts.world.db x.o.now)
        ⟨true, []⟩ p.gateway pc).map fun r =>
        ({ p with gateway := r.1 }, r.2)

/-- The handler begins: it reads the user of the socket, and Redis answers the `GET`. -/
def getRules (p : Process S P) (socket : S) (dto : P) : Call S P :=
  match (p.gateway.sockets.get socket).bind Socket.user with
  | none      => .socket (.failed "Cannot read properties of undefined")
  | some user =>
      match p.accounts.world.cache (PermissionsService.cacheKey user.text) with
      | some rules => .decide socket rules dto
      | none       => .load socket user dto

/-- Redis executes the `SET`. -/
def setRules (p : Process S P) (userId : Uuid) (rules : List PermissionRule) : Process S P :=
  let world := (PermissionsService.safeSet (PermissionsService.cacheKey userId.text) rules
    p.accounts.world).2
  { p with accounts := { p.accounts with world := world } }

def exec (app : Http.App) : Pool.Code (Process S P) (Call S P) Http.Draw C := fun c p call x =>
  match call with
  | .request call =>
      (Http.exec app c p.accounts call x).map fun r => ({ p with accounts := r.1 }, .request r.2)
  | .socket (.broadcast socket dto)  => some (p, getRules p socket dto)
  | .load socket userId dto          =>
      some (p, .store socket userId (p.accounts.world.db.loadPermissionRules userId) dto)
  | .store socket userId rules dto   => some (setRules p userId rules, .decide socket rules dto)
  -- the rules decide, and the message goes out in the same turn of the event loop
  | .decide socket rules dto =>
      (Realtime.step app.casl (fun _ => none) ⟨true, rules⟩ p.gateway
        (.broadcast socket dto)).map fun r =>
        ({ p with gateway := r.1 }, .socket r.2)
  | .socket pc => (socketStep app x p pc).map fun r => (r.1, .socket r.2)

abbrev State (S P C : Type) := Pool.Config (Process S P) (Call S P) C

omit [DecidableEq S] in
/-- A call that comes from outside: a request, an entry that expires, a connection, a message or the end
    of a connection. -/
def Call.begins : Call S P → Prop
  | .request call                                                  => call.begins
  | .socket (.connect _ _) | .socket (.receive _ _) | .socket (.disconnect _) => True
  | _                                                              => False

/-- A process that has just started. -/
structure Started (first : State S P C) : Prop where
  sockets    : first.shared.gateway.sockets.rows = []
  deliveries : first.shared.gateway.deliveries = []
  throttle   : first.shared.throttle = WsThrottleGuard.initial
  calls      : ∀ c, (first.calls c).begins

variable {app : Http.App} {x : Http.Draw} {p p' : Process S P} {pc pc' : Pc S P}

/-! ## The gateway

The gateway was studied by itself in `Realtime.Gateway`, with the users of its tokens fixed. Here
accounts come and go, so a token verifies at one time and not at another; but it is signed for one
user, which is all that module needs. -/

/-- The user a token is signed for: of all the accounts it could be verified as, there is one id. -/
noncomputable def signed (jwt : Jwt) (token : String) : Option Uuid :=
  open Classical in
  if h : ∃ (db : Rbac) (now : Nat) (user : User),
    AccessTokenIdentityService.verifyToken jwt db now token = .ok user then
    some h.choose_spec.choose_spec.choose.id
  else none

/-- The id of a user found is the subject of the payload. -/
theorem id_of_verifyToken {jwt : Jwt} {db : Rbac} {now : Nat} {token : String} {user : User}
    (h : AccessTokenIdentityService.verifyToken jwt db now token = .ok user) :
    ∃ payload id, jwt.verify token now = some payload ∧ payload.sub = .text id ∧ user.id = .cast id := by
  obtain ⟨payload, hverify, -, hactive⟩ := verifyToken_ok.mp h
  cases hsub : payload.sub with
  | text id =>
      refine ⟨payload, id, hverify, hsub, ?_⟩
      rw [hsub, AccessTokenIdentityService.findActiveUserById] at hactive
      cases hfind : findById db (.text id) with
      | error e =>
          rw [hfind] at hactive
          cases hactive
      | ok found =>
          rw [hfind] at hactive
          cases found with
          | none => cases hactive
          | some found =>
              simp only at hactive
              split at hactive
              · cases hactive
                obtain ⟨hget, -⟩ := Option.filter_eq_some_iff.mp (Except.ok.inj hfind)
                exact Table.get_key hget
              · cases hactive
  | undefined | null | bool | number | composite =>
      rw [hsub] at hactive
      cases hactive

theorem signed_of_verifyToken {jwt : Jwt} (hjwt : jwt.Fixed) {db : Rbac} {now : Nat}
    {token : String} {user : User}
    (h : AccessTokenIdentityService.verifyToken jwt db now token = .ok user) :
      signed jwt token = some user.id := by
  have hsome : ∃ (db : Rbac) (now : Nat) (user : User),
      AccessTokenIdentityService.verifyToken jwt db now token = .ok user := ⟨db, now, user, h⟩
  rw [signed, dif_pos hsome]
  obtain ⟨payload, id, hverify, hsub, hid⟩ := id_of_verifyToken h
  obtain ⟨payload', id', hverify', hsub', hid'⟩ :=
    id_of_verifyToken hsome.choose_spec.choose_spec.choose_spec
  -- two verifications of one token
  rw [hjwt hverify hverify'] at hsub
  cases hsub.symm.trans hsub'
  rw [hid, hid']

theorem verified_some {db : Rbac} {now : Nat} {token : String} {u : Uuid} :
    verified app db now token = some u ↔
    ∃ user, AccessTokenIdentityService.verifyToken app.jwt db now token = .ok user ∧ user.id = u := by
  unfold verified
  cases AccessTokenIdentityService.verifyToken app.jwt db now token with
  | error e => simp [Except.toOption]
  | ok user => simp [Except.toOption]

/-- To authenticate by what is verified is to authenticate by what is signed, if that is accepted. -/
theorem authenticate_verified (hjwt : app.jwt.Fixed) (db : Rbac) (now : Nat) (ns : Namespace S P)
    (s : Socket S) :
    ∃ accepted, ns.authenticate (verified app db now) ⟨true, []⟩ s = ns.authenticate
      (signed app.jwt) ⟨accepted, []⟩ s := by
  unfold Namespace.authenticate
  cases hverified : (extractToken s.handshake).bind (verified app db now) with
  | some u =>
      obtain ⟨token, htoken, hu⟩ := Option.bind_eq_some_iff.mp hverified
      obtain ⟨user, hverify, rfl⟩ := verified_some.mp hu
      refine ⟨true, ?_⟩
      rw [htoken, Option.bind_some, signed_of_verifyToken hjwt hverify]
  | none =>
      refine ⟨false, ?_⟩
      cases (extractToken s.handshake).bind (signed app.jwt) with
      | some u => simp
      | none => simp

/-- A step of the gateway by what is verified is one by what is signed. -/
theorem step_signed (hjwt : app.jwt.Fixed) (db : Rbac) (now : Nat) (ns : Namespace S P) (pc : Pc S P) :
    ∃ accepted, Realtime.step app.casl (verified app db now) ⟨true, []⟩ ns pc =
      Realtime.step app.casl (signed app.jwt) ⟨accepted, []⟩ ns pc := by
  cases pc with
  | handleConnection socket =>
      cases hs : ns.sockets.get socket with
      | none => exact ⟨true, by simp [Realtime.step, hs]⟩
      | some s =>
          obtain ⟨accepted, heq⟩ := authenticate_verified hjwt db now ns s
          exact ⟨accepted, by simp only [Realtime.step, hs, Option.map_some, heq]⟩
  | canActivate socket dto =>
      cases hs : ns.sockets.get socket with
      | none => exact ⟨true, by simp [Realtime.step, hs]⟩
      | some s =>
          obtain ⟨accepted, heq⟩ := authenticate_verified hjwt db now ns s
          exact ⟨accepted, by simp only [Realtime.step, hs, Option.map_some, heq]⟩
  | connect | join | receive | broadcast | sendToUser | broadcastToAll | disconnect | done | failed =>
      exact ⟨true, rfl⟩

/-- **A step of a socket** other than its handlers' is one of the gateway alone. -/
theorem socketStep_signed (hjwt : app.jwt.Fixed) (h : socketStep app x p pc = some (p', pc')) :
    p'.accounts = p.accounts ∧
      ∃ accepted, Realtime.step app.casl (signed app.jwt) ⟨accepted, []⟩ p.gateway pc =
        some (p'.gateway, pc') := by
  have hgateway : ∀ {pc : Pc S P},
      (Realtime.step app.casl (verified app p.accounts.world.db x.o.now) ⟨true, []⟩ p.gateway pc).map
        (fun r => ({ p with gateway := r.1 }, r.2)) = some (p', pc') →
      p'.accounts = p.accounts ∧
        ∃ accepted, Realtime.step app.casl (signed app.jwt) ⟨accepted, []⟩ p.gateway pc =
          some (p'.gateway, pc') := by
    intro pc hmap
    obtain ⟨⟨ns', pc''⟩, hstep, heq⟩ := Option.map_eq_some_iff.mp hmap
    cases heq
    obtain ⟨accepted, hsigned⟩ := step_signed hjwt p.accounts.world.db x.o.now p.gateway pc
    exact ⟨rfl, accepted, hsigned.symm.trans hstep⟩
  cases pc with
  | receive socket dto =>
      obtain ⟨⟨ns', pc''⟩, hstep, heq⟩ := Option.map_eq_some_iff.mp h
      cases heq
      exact ⟨rfl, _, hstep⟩
  | connect | handleConnection | join | canActivate | broadcast | sendToUser | broadcastToAll |
      disconnect => exact hgateway h
  | done | failed => cases h

/-! ## The handler of a message

The `GET`, and where it finds no entry the query of the tables and the `SET`; then the decision, with
the emission. Each is a step of its own. -/

/-- **What a step of a handler does.** Nothing is sent but by rules that it has, and these are those of
    an entry of the cache or of the tables, for the user of the socket. -/
inductive Handling (casl : Casl) (p : Process S P) : Call S P → Process S P → Call S P → Prop where
  | crashed {socket dto message} : Handling casl p (.socket (.broadcast socket dto)) p
      (.socket (.failed message))
  | hit {socket dto s user rules} (hs : p.gateway.sockets.get socket = some s)
      (huser : s.user = some user)
      (hentry : p.accounts.world.cache (PermissionsService.cacheKey user.text) = some rules) :
      Handling casl p (.socket (.broadcast socket dto)) p (.decide socket rules dto)
  | miss {socket dto s user} (hs : p.gateway.sockets.get socket = some s) (huser : s.user = some user) :
      Handling casl p (.socket (.broadcast socket dto)) p (.load socket user dto)
  | loaded {socket user dto} : Handling casl p (.load socket user dto) p
      (.store socket user (p.accounts.world.db.loadPermissionRules user) dto)
  | stored {socket user rules dto} :
      Handling casl p (.store socket user rules dto) (setRules p user rules) (.decide socket rules dto)
  | refused {socket rules dto message} : Handling casl p (.decide socket rules dto) p
      (.socket (.failed message))
  | sent {socket rules dto} (hmay : mayBroadcast casl rules = true) : Handling casl p
      (.decide socket rules dto)
      { p with gateway := p.gateway.broadcastToAll "notifications:new" dto } (.socket .done)

theorem handling_getRules (casl : Casl) (p : Process S P) (socket : S) (dto : P) :
    Handling casl p (.socket (.broadcast socket dto)) p (getRules p socket dto) := by
  unfold getRules
  split
  · exact .crashed
  · next user huser =>
    obtain ⟨s, hs, hsuser⟩ := Option.bind_eq_some_iff.mp huser
    split
    · next rules hentry => exact .hit hs hsuser hentry
    · exact .miss hs hsuser

theorem handling_decide {casl : Casl} {subject : String → Option Uuid} {socket : S}
    {rules : List PermissionRule} {dto : P} {call' : Call S P}
    (h : (Realtime.step casl subject ⟨true, rules⟩ p.gateway (.broadcast socket dto)).map
      (fun r => (({ p with gateway := r.1 } : Process S P), Call.socket r.2)) = some (p', call')) :
    Handling casl p (.decide socket rules dto) p' call' := by
  obtain ⟨⟨ns', pc''⟩, hstep, heq⟩ := Option.map_eq_some_iff.mp h
  simp only [Realtime.step] at hstep
  split at hstep
  · next hmay =>
    cases hstep
    cases heq
    exact .sent hmay
  · cases hstep
    cases heq
    exact .refused

/-- **The cases of a step**: one of a request, one of a handler, or one of a socket. -/
theorem exec_cases {c : C} {call call' : Call S P} (h : exec app c p call x = some (p', call')) :
    (∃ request request' s', call = .request request ∧
      Http.exec app c p.accounts request x = some (s', request') ∧
      p' = { p with accounts := s' } ∧ call' = .request request') ∨
    Handling app.casl p call p' call' ∨
    ∃ pc pc', call = .socket pc ∧ (∀ socket dto, pc ≠ .broadcast socket dto) ∧
      socketStep app x p pc = some (p', pc') ∧ call' = .socket pc' := by
  have hsocket : ∀ {pc : Pc S P}, (∀ socket dto, pc ≠ .broadcast socket dto) →
      (socketStep app x p pc).map (fun r => (r.1, Call.socket r.2)) = some (p', call') →
        ∃ pc₀ pc', Call.socket pc = .socket pc₀ ∧ (∀ socket dto, pc₀ ≠ .broadcast socket dto) ∧
          socketStep app x p pc₀ = some (p', pc') ∧ call' = .socket pc' := by
    intro pc hother hmap
    obtain ⟨⟨p'', pc'⟩, hstep, heq⟩ := Option.map_eq_some_iff.mp hmap
    cases heq
    exact ⟨pc, pc', rfl, hother, hstep, rfl⟩
  cases call with
  | request request =>
      obtain ⟨⟨s', request'⟩, hhttp, heq⟩ := Option.map_eq_some_iff.mp h
      cases heq
      exact .inl ⟨request, request', s', rfl, hhttp, rfl, rfl⟩
  | load socket userId dto =>
      cases h
      exact .inr (.inl .loaded)
  | store socket userId rules dto =>
      cases h
      exact .inr (.inl .stored)
  | decide socket rules dto => exact .inr (.inl (handling_decide h))
  | socket pc =>
      cases pc with
      | broadcast socket dto =>
          cases h
          exact .inr (.inl (handling_getRules _ _ _ _))
      | connect | handleConnection | join | receive | canActivate | sendToUser |
          broadcastToAll | disconnect | done | failed =>
          exact .inr (.inr (hsocket (fun _ _ h => by cases h) h))

/-- A handler leaves the sockets as they are. -/
theorem Handling.sockets {casl : Casl} {call call' : Call S P} (h : Handling casl p call p' call') :
    p'.gateway.sockets = p.gateway.sockets := by
  cases h with
  | crashed | hit | miss | loaded | stored | refused | sent => rfl

/-- A handler delivers nothing but by rules that allow it. -/
theorem Handling.deliveries {casl : Casl} {call call' : Call S P} (h : Handling casl p call p' call')
    (hnew : p'.gateway.deliveries ≠ p.gateway.deliveries) :
      ∃ socket rules dto, call = .decide socket rules dto ∧
      mayBroadcast casl rules = true ∧
        p'.gateway = p.gateway.broadcastToAll "notifications:new" dto := by
  cases h with
  | crashed | hit | miss | loaded | stored | refused => exact absurd rfl hnew
  | sent hmay => exact ⟨_, _, _, rfl, hmay, rfl⟩

/-- CASL, asked for the right to manage notifications, finds that rule. -/
theorem mem_of_mayBroadcast {casl : Casl} (hcasl : casl.Unconditional) {rules : List PermissionRule}
    (h : mayBroadcast casl rules = true) : ⟨.manage, .notification⟩ ∈ rules := by
  have hcan := List.all_eq_true.mp h ⟨.manage, .notification⟩ (List.mem_singleton.mpr rfl)
  exact Http.mem_of_can hcasl hcan

/-! ## What the gateway stores

Whatever a step of the gateway does, no socket loses its handshake. So a token that was verified once
is found again by the guard of a later message. -/

variable {ns ns' : Namespace S P} {subject : String → Option Uuid} {o : GatewayChoice}
  {s : Socket S} {socket : S} {dto : P}

/-- What the gateway offers other services, and nobody calls. -/
def internal : Pc S P → Bool
  | .sendToUser _ _ _ | .broadcastToAll _ _ => true
  | _                                       => false

/-- At most one socket is stored, new or with the handshake it had. The others are as they were. -/
inductive Stored (ns : Namespace S P) : Namespace S P → Prop where
  | kept : Stored ns ns
  | put (s : Socket S) (handshake : ∀ old, ns.sockets.get s.id = some old →
      s.handshake = old.handshake) :
      Stored ns (ns.update s)

/-- A socket is written back as it was found, but for the fields a step changes. -/
theorem Stored.back {s' : Socket S} (hs : ns.sockets.get socket = some s) (hid : s'.id = s.id)
    (hsame : s'.handshake = s.handshake) : Stored ns (ns.update s') := by
  refine .put s' fun old hold => ?_
  have hkey : s.id = socket := Table.get_key hs
  rw [hid, hkey, hs] at hold
  cases hold
  exact hsame

theorem stored_authenticate (hs : ns.sockets.get socket = some s) :
    Stored ns (ns.authenticate subject o s).1 := by
  unfold Namespace.authenticate
  split
  · split
    · exact .back hs rfl rfl
    · exact .back hs rfl rfl
  · exact .back hs rfl rfl

/-- **A step of the gateway** that is no emission stores one socket at most. -/
theorem step_stored {casl : Casl} (h : Realtime.step casl subject o ns pc = some (ns', pc'))
    (hpc : internal pc = false)
    (hother : ∀ socket dto, pc ≠ .broadcast socket dto) : Stored ns ns' ∧ internal pc' = false := by
  cases pc with
  | connect socket handshake =>
      simp only [Realtime.step] at h
      split at h
      · cases h
      · next hnew =>
        -- the socket is new
        have hnone : ns.sockets.get socket = none := by simpa using hnew
        have hold : ∀ old, ns.sockets.get socket = some old → handshake = old.handshake := by
          simp [hnone]
        split at h
        · cases h
          exact ⟨.put _ hold, rfl⟩
        · cases h
          exact ⟨.put _ hold, rfl⟩
  | handleConnection socket =>
      obtain ⟨s, hs, hres⟩ := Option.map_eq_some_iff.mp h
      have hstored : Stored ns (ns.authenticate subject o s).1 := stored_authenticate hs
      split at hres
      all_goals
        next heq =>
          cases hres
          rw [heq] at hstored
          exact ⟨hstored, rfl⟩
  | canActivate socket dto =>
      obtain ⟨s, hs, hres⟩ := Option.map_eq_some_iff.mp h
      have hstored : Stored ns (ns.authenticate subject o s).1 := stored_authenticate hs
      split at hres
      all_goals
        next heq =>
          cases hres
          rw [heq] at hstored
          exact ⟨hstored, rfl⟩
  | join socket =>
      obtain ⟨s, hs, hres⟩ := Option.map_eq_some_iff.mp h
      split at hres
      · cases hres
        unfold Namespace.join
        split
        · exact ⟨.back hs rfl rfl, rfl⟩
        · exact ⟨.kept, rfl⟩
      · cases hres
        exact ⟨.kept, rfl⟩
  | disconnect socket =>
      obtain ⟨s, hs, hres⟩ := Option.map_eq_some_iff.mp h
      cases hres
      exact ⟨.back hs rfl rfl, rfl⟩
  | receive socket dto =>
      simp only [Realtime.step] at h
      split at h
      · cases h
      · split at h
        all_goals
          cases h
          exact ⟨.kept, rfl⟩
  | broadcast socket dto => exact absurd rfl (hother socket dto)
  | sendToUser | broadcastToAll => cases hpc
  | done | failed => cases h

theorem Stored.deliveries (h : Stored ns ns') : ns'.deliveries = ns.deliveries := by
  cases h with
  | kept => rfl
  | put => rfl

/-- Every socket is still there, with its handshake. -/
def SameHandshakes (ns ns' : Namespace S P) : Prop :=
  ∀ socket s, ns.sockets.get socket = some s → ∃ s', ns'.sockets.get socket = some s' ∧
    s'.handshake = s.handshake

instance : IsPreorder (Namespace S P) SameHandshakes where
  refl _ _ s hs := ⟨s, hs, rfl⟩
  trans _ _ _ h h' _ _ hs := by
    obtain ⟨s', hs', hsame⟩ := h _ _ hs
    obtain ⟨s'', hs'', hsame'⟩ := h' _ _ hs'
    exact ⟨s'', hs'', hsame'.trans hsame⟩

theorem Stored.sameHandshakes (h : Stored ns ns') : SameHandshakes ns ns' := by
  cases h with
  | kept => exact refl_of SameHandshakes ns
  | put s handshake =>
      intro socket old hold
      by_cases hsocket : socket = s.id
      · subst hsocket
        exact ⟨s, by simp [Namespace.update, Table.get_put], handshake old hold⟩
      · refine ⟨old, ?_, rfl⟩
        show (ns.sockets.put s).get socket = some old
        rw [Table.get_put_of_ne _ _ hsocket, hold]

/-! ## Who sends

The guard of a message verifies the token of its socket anew, also where the socket is authenticated
already. -/

/-- **The token of a socket is verified** as that of an active account. -/
structure Authenticated (app : Http.App) (x : Http.Draw) (p : Process S P) (socket : S)
    (user : User) : Prop where
  token  : ∃ s token, p.gateway.sockets.get socket = some s ∧ extractToken s.handshake = some token ∧
    AccessTokenIdentityService.verifyToken app.jwt p.accounts.world.db x.o.now token = .ok user
  row    : user ∈ p.accounts.world.db.users.rows
  active : user.status = .active ∧ user.deletedAt = none

/-- Where `authenticate` accepts, the token has been verified. -/
theorem authenticate_verified_ok (hs : p.gateway.sockets.get socket = some s)
    (h : p.gateway.authenticate (verified app p.accounts.world.db x.o.now) ⟨true, []⟩ s = (ns', true)) :
    ∃ user, Authenticated app x p socket user := by
  unfold Namespace.authenticate at h
  cases hverified : (extractToken s.handshake).bind (verified app p.accounts.world.db x.o.now) with
  | none =>
      rw [hverified] at h
      cases h
  | some u =>
      obtain ⟨token, htoken, hu⟩ := Option.bind_eq_some_iff.mp hverified
      obtain ⟨user, hverify, -⟩ := verified_some.mp hu
      obtain ⟨payload, -, -, hactive⟩ := verifyToken_ok.mp hverify
      obtain ⟨hrow, hstatus, hlive⟩ := findActiveUserById_ok hactive
      exact ⟨user, ⟨s, token, hs, htoken, hverify⟩, hrow, hstatus, hlive⟩

/-- **A message gets to its handler** by its own guard, which verifies the token. -/
theorem socketStep_to_broadcast (h : socketStep app x p pc = some (p', .broadcast socket dto))
    (hother : ∀ k message, pc ≠ .broadcast k message) :
    pc = .canActivate socket dto ∧ ∃ user, Authenticated app x p socket user := by
  cases pc with
  | canActivate socket' dto' =>
      obtain ⟨⟨ns', pc''⟩, hstep, heq⟩ := Option.map_eq_some_iff.mp h
      cases heq
      obtain ⟨s, hs, hres⟩ := Option.map_eq_some_iff.mp hstep
      split at hres
      · next heq =>
        cases hres
        exact ⟨rfl, authenticate_verified_ok hs heq⟩
      · cases hres
  | broadcast socket' dto' => exact absurd rfl (hother socket' dto')
  | receive socket' dto' =>
      obtain ⟨⟨ns', pc''⟩, hstep, heq⟩ := Option.map_eq_some_iff.mp h
      cases heq
      simp only [Realtime.step] at hstep
      split at hstep
      · cases hstep
      · split at hstep <;> cases hstep
  | connect socket' handshake =>
      obtain ⟨⟨ns', pc''⟩, hstep, heq⟩ := Option.map_eq_some_iff.mp h
      cases heq
      simp only [Realtime.step] at hstep
      split at hstep
      · cases hstep
      · split at hstep <;> cases hstep
  | handleConnection socket' | join socket' =>
      obtain ⟨⟨ns', pc''⟩, hstep, heq⟩ := Option.map_eq_some_iff.mp h
      cases heq
      obtain ⟨s, hs, hres⟩ := Option.map_eq_some_iff.mp hstep
      split at hres <;> cases hres
  | disconnect socket' =>
      obtain ⟨⟨ns', pc''⟩, hstep, heq⟩ := Option.map_eq_some_iff.mp h
      cases heq
      obtain ⟨s, hs, hres⟩ := Option.map_eq_some_iff.mp hstep
      cases hres
  | sendToUser | broadcastToAll | done | failed => cases h

/-! ## Runs

What holds of the gateway by itself holds here, as each step of a socket is one of the gateway. -/

section Runs

variable [DecidableEq C] {first t u : State S P C} {c : C}

/-- A call that no other service makes of the gateway. -/
def Call.External : Call S P → Prop
  | .socket pc => internal pc = false
  | _          => True

/-- What holds of the gateway in every state of a run: the rooms and users of the sockets are those of
    their tokens. -/
structure Sound (jwt : Jwt) (t : State S P C) : Prop where
  sockets  : SocketsOk (signed jwt) t.shared.gateway
  external : ∀ c, (t.calls c).External

omit [DecidableEq C] in
/-- **One step of a call** keeps the gateway sound, and the handshakes. -/
theorem exec_sound (hjwt : app.jwt.Fixed) (hok : SocketsOk (signed app.jwt) p.gateway)
    {call call' : Call S P}
    (hexternal : call.External) (h : exec app c p call x = some (p', call')) :
    SocketsOk (signed app.jwt) p'.gateway ∧ call'.External ∧ SameHandshakes p.gateway p'.gateway := by
  rcases exec_cases h with ⟨_, _, s', -, -, rfl, rfl⟩ | hhandling | ⟨pc, pc', rfl, hother, hsocket, rfl⟩
  · exact ⟨hok, trivial, refl_of SameHandshakes _⟩
  · have hsockets := hhandling.sockets
    refine ⟨?_, ?_, ?_⟩
    · unfold SocketsOk
      rwa [hsockets]
    · cases hhandling with
      | crashed | refused | sent => rfl
      | hit | miss | loaded | stored => trivial
    · unfold SameHandshakes
      rw [hsockets]
      exact fun socket s hs => ⟨s, hs, rfl⟩
  · obtain ⟨-, accepted, hstep⟩ := socketStep_signed hjwt hsocket
    obtain ⟨hstored, hinternal⟩ := step_stored hstep hexternal hother
    exact ⟨(step_change hok hstep).socketsOk hok, hinternal, hstored.sameHandshakes⟩

theorem Sound.step (hjwt : app.jwt.Fixed) (h : Sound app.jwt t)
    (hstep : Pool.step (exec app) t c x = some u) :
    Sound app.jwt u ∧ SameHandshakes t.shared.gateway u.shared.gateway := by
  obtain ⟨p', call', hexec, rfl⟩ := Pool.step_cases hstep
  obtain ⟨hsockets, hexternal, hsame⟩ := exec_sound hjwt h.sockets (h.external c) hexec
  refine ⟨⟨hsockets, ?_⟩, hsame⟩
  exact (Function.forall_update_iff t.calls fun _ call => call.External).mpr ⟨hexternal,
    fun d _ => h.external d⟩

omit [DecidableEq S] [DecidableEq C] in
theorem Started.sound (h : Started first) (jwt : Jwt) : Sound jwt first where
  sockets s hs := by
    rw [h.sockets] at hs
    cases hs
  external c := by
    have hbegins := h.calls c
    cases hcall : first.calls c with
    | request | load | store | decide => trivial
    | socket pc =>
        rw [hcall] at hbegins
        cases pc with
        | connect | receive | disconnect => rfl
        | _ => exact hbegins.elim

theorem sound_of_run (hjwt : app.jwt.Fixed) (h : Sound app.jwt first)
    (hrun : Pool.Steps (exec app) first t) :
    Sound app.jwt t := hrun.invariant (fun hI _ hstep => (hI.step hjwt hstep).1) h

theorem sameHandshakes_of_run (hjwt : app.jwt.Fixed) (h : Sound app.jwt first)
    (hrun : Pool.Steps (exec app) first t) :
    SameHandshakes first.shared.gateway t.shared.gateway := by
  induction hrun with
  | refl => exact refl_of SameHandshakes _
  | tail hrun _ hstep ih =>
      exact trans_of SameHandshakes ih ((sound_of_run hjwt h hrun).step hjwt hstep).2

/-- A socket has the user its token was verified as, however long ago. -/
theorem user_of_authenticated (hjwt : app.jwt.Fixed) (hsound : Sound app.jwt t) {user : User}
    (h : Authenticated app x t.shared socket user) (hrun : Pool.Steps (exec app) t u)
    (hs : u.shared.gateway.sockets.get socket = some s) {id : Uuid} (hid : s.user = some id) :
      id = user.id := by
  obtain ⟨s₀, token, hs₀, htoken, hverify⟩ := h.token
  obtain ⟨s', hs', hsame⟩ := sameHandshakes_of_run hjwt hsound hrun socket s₀ hs₀
  obtain rfl : s = s' := Option.some.inj (hs.symm.trans hs')
  have hsigned := ((sound_of_run hjwt hsound hrun).sockets s (Table.get_mem hs)).user hid
  rw [hsame, htoken, Option.bind_some, signed_of_verifyToken hjwt hverify] at hsigned
  exact (Option.some.inj hsigned).symm

/-! ## An administrator

The result on rights of `Http.Escalation`, for a process in which handlers of messages fill the cache
as well. -/

/-- **An administrator has acted**: the run contains guards that have let a request pass that manages
    accounts or roles, for somebody whose right to do so was the user's own at the start. -/
def Administered (app : Http.App) (first t : State S P C) : Prop :=
  ∃ (t₀ t₁ : State S P C) (c : C) (x : Http.Draw) (request : Http.Request) (user : User)
    (subject : PermissionSubject),
    Pool.Steps (exec app) first t₀ ∧ Pool.step (exec app) t₀ c x = some t₁ ∧ Pool.Steps (exec app) t₁ t ∧
    t₀.calls c = .request (.arrived request) ∧ request.route.required = some [⟨.manage, subject⟩] ∧
    (subject = .user ∨ subject = .role) ∧
    Http.Authorized app x t₀.shared.accounts.world request user ⟨.manage, subject⟩ ∧
    first.shared.accounts.world.Own user.id ⟨.manage, subject⟩

theorem Administered.step (h : Administered app first t) (hstep : Pool.step (exec app) t c x = some u) :
    Administered app first u := by
  obtain ⟨t₀, t₁, c₀, x₀, request, user, subject, hrun₀, hstep₀, hrun₁, hrest⟩ := h
  exact ⟨t₀, t₁, c₀, x₀, request, user, subject, hrun₀, hstep₀, .tail hrun₁ trivial hstep, hrest⟩

/-- The call brings no right into effect: it is no request past its guards to manage accounts or roles,
    and the rules it is about to store were the user's own at the start. -/
def Call.Quiet (w : World) : Call S P → Prop
  | .request call             => call.Unprivileged
  | .store _ userId rules _   => ∀ rule ∈ rules, w.Own userId rule
  | _                         => True

/-- Nothing has been gained, and no call is about to. -/
structure Quiet (first t : State S P C) : Prop where
  gainless : Http.Gainless first.shared.accounts t.shared.accounts
  calls    : ∀ c, (t.calls c).Quiet first.shared.accounts.world

/-- A handler brings no right into effect. -/
theorem Handling.gainless {casl : Casl} {s : Accounts} {call call' : Call S P}
    (hgain : Http.Gainless s p.accounts)
    (hcall : call.Quiet s.world) (h : Handling casl p call p' call') :
    Http.Gainless s p'.accounts ∧ call'.Quiet s.world := by
  cases h with
  | crashed | hit | miss | refused | sent => exact ⟨hgain, trivial⟩
  | loaded =>
      refine ⟨hgain, fun rule hrule => hgain.inEffect (.inl ?_)⟩
      exact Rbac.mem_loadPermissionRules.mp hrule
  | stored => exact ⟨Http.NoGain.safeSet hgain hcall, trivial⟩

/-- One step keeps it so, unless it is the guards of an administrator's request. -/
theorem Quiet.step (hcasl : app.casl.Unconditional) (hjwt : app.jwt.Fixed)
    (hrun : Pool.Steps (exec app) first t)
    (h : Quiet first t) (hstep : Pool.step (exec app) t c x = some u) :
      Administered app first u ∨ Quiet first u := by
  obtain ⟨p', call', hexec, rfl⟩ := Pool.step_cases hstep
  have hquiet : Http.Gainless first.shared.accounts p'.accounts ∧
    call'.Quiet first.shared.accounts.world →
      Quiet first ⟨p', Function.update t.calls c call'⟩ := by
    rintro ⟨hgainless, hcall'⟩
    refine ⟨hgainless, ?_⟩
    exact (Function.forall_update_iff t.calls fun _ call => call.Quiet _).mpr
      ⟨hcall', fun d _ => h.calls d⟩
  have hcall := h.calls c
  rcases exec_cases hexec with ⟨call, call', s', heq, hhttp, rfl, rfl⟩ | hhandling |
    ⟨pc, pc', -, -, hsocket, rfl⟩
  · rw [heq] at hcall
    rcases Http.exec_gainless hcasl hcall hhttp with
      ⟨request, user, subject, rfl, hrequired, hsubject, hauthorized⟩ | ⟨hgainless, hunprivileged⟩
    · exact .inl ⟨t, _, c, x, request, user, subject, hrun, hstep, .refl, heq, hrequired,
        hsubject, hauthorized,
        h.gainless.inEffect hauthorized.inEffect⟩
    · exact .inr (hquiet ⟨h.gainless.trans hgainless, hunprivileged⟩)
  · exact .inr (hquiet (hhandling.gainless h.gainless hcall))
  · refine .inr (hquiet ⟨?_, trivial⟩)
    rw [(socketStep_signed hjwt hsocket).1]
    exact h.gainless

/-- **Over requests and sockets alike**, a right in effect is one the account had at the start, or an
    administrator has acted. -/
theorem own_or_administered (hcasl : app.casl.Unconditional) (hjwt : app.jwt.Fixed)
    (hfirst : Started first)
    (hrun : Pool.Steps (exec app) first t) {id : Uuid} {rule : PermissionRule}
    (heffect : t.shared.accounts.world.InEffect id rule) :
    first.shared.accounts.world.Own id rule ∨ Administered app first t := by
  have hquiet : Administered app first t ∨ Quiet first t := by
    clear heffect
    induction hrun with
    | refl =>
        refine .inr ⟨Http.NoGain.rfl, fun c => ?_⟩
        have hbegins := hfirst.calls c
        cases hcall : first.calls c with
        | request call =>
            rw [hcall] at hbegins
            exact Http.Call.Unprivileged.of_begins hbegins
        | store =>
            rw [hcall] at hbegins
            exact hbegins.elim
        | socket | load | decide => trivial
    | tail hrun _ hstep ih =>
        rcases ih with hadministered | hquiet
        · exact .inl (hadministered.step hstep)
        · exact hquiet.step hcasl hjwt hrun hstep
  exact hquiet.symm.imp_left fun h => h.gainless.inEffect heffect

/-! ## Who is heard

What a call knows that handles a message: what its guard has seen, and then what it has looked up. Each
of these is a step of the run. -/

/-- **A message has passed its guard**, which has verified the token of its socket as that of an active
    account. -/
def Heard (app : Http.App) (first t : State S P C) (c : C) (socket : S) (dto : P) (user : User) : Prop :=
  ∃ t₀ x₀ t₁, Pool.Steps (exec app) first t₀ ∧ t₀.calls c = .socket (.canActivate socket dto) ∧
    Pool.step (exec app) t₀ c x₀ = some t₁ ∧ Pool.Steps (exec app) t₁ t ∧
      Authenticated app x₀ t₀.shared socket user

/-- **The handler has looked up the rules** of the user, in a step of its own after the guard: they were
    in effect there. -/
def LookedUp (app : Http.App) (first t : State S P C) (c : C) (socket : S) (dto : P) (user : User)
    (rules : List PermissionRule) : Prop :=
  ∃ t₂ x₂ t₃, Heard app first t₂ c socket dto user ∧
    (t₂.calls c = .socket (.broadcast socket dto) ∨ t₂.calls c = .load socket user.id dto) ∧
    Pool.step (exec app) t₂ c x₂ = some t₃ ∧ Pool.Steps (exec app) t₃ t ∧
    ∀ rule ∈ rules, t₂.shared.accounts.world.InEffect user.id rule

theorem Heard.steps {user : User} (h : Heard app first t c socket dto user)
    (hrun : Pool.Steps (exec app) t u) :
    Heard app first u c socket dto user := by
  obtain ⟨t₀, x₀, t₁, hrun₀, hcall, hstep, hrun₁, hauthenticated⟩ := h
  exact ⟨t₀, x₀, t₁, hrun₀, hcall, hstep, hrun₁.trans hrun, hauthenticated⟩

theorem Heard.run {user : User} (h : Heard app first t c socket dto user) :
    Pool.Steps (exec app) first t := by
  obtain ⟨t₀, x₀, t₁, hrun₀, -, hstep, hrun₁, -⟩ := h
  exact (Pool.Run.tail hrun₀ trivial hstep).trans hrun₁

theorem LookedUp.steps {user : User} {rules : List PermissionRule}
    (h : LookedUp app first t c socket dto user rules)
    (hrun : Pool.Steps (exec app) t u) : LookedUp app first u c socket dto user rules := by
  obtain ⟨t₂, x₂, t₃, hheard, hcall, hstep, hrun₃, heffect⟩ := h
  exact ⟨t₂, x₂, t₃, hheard, hcall, hstep, hrun₃.trans hrun, heffect⟩

/-- What a call that handles a message knows: after the guard, that it was heard; after the lookup, that
    the rules it has were in effect. -/
def Knows (app : Http.App) (first t : State S P C) (c : C) : Call S P → Prop
  | .socket (.broadcast socket dto) => ∃ user, Heard app first t c socket dto user
  | .load socket userId dto         => ∃ user, Heard app first t c socket dto user ∧ user.id = userId
  | .store socket _ rules dto       => ∃ user, LookedUp app first t c socket dto user rules
  | .decide socket rules dto        => ∃ user, LookedUp app first t c socket dto user rules
  | _                               => True

theorem Knows.steps {call : Call S P} (h : Knows app first t c call) (hrun : Pool.Steps (exec app) t u) :
    Knows app first u c call := by
  cases call with
  | request => trivial
  | load =>
      obtain ⟨user, hheard, hid⟩ := h
      exact ⟨user, hheard.steps hrun, hid⟩
  | store | decide =>
      obtain ⟨user, hlooked⟩ := h
      exact ⟨user, hlooked.steps hrun⟩
  | socket pc =>
      cases pc with
      | broadcast =>
          obtain ⟨user, hheard⟩ := h
          exact ⟨user, hheard.steps hrun⟩
      | _ => trivial

/-- The user of a socket whose message was heard. -/
theorem Heard.user (hjwt : app.jwt.Fixed) (hfirst : Started first) {user : User}
    (h : Heard app first t c socket dto user)
    (hs : t.shared.gateway.sockets.get socket = some s) {id : Uuid} (hid : s.user = some id) :
      user.id = id := by
  obtain ⟨t₀, x₀, t₁, hrun₀, -, hstep, hrun₁, hauthenticated⟩ := h
  have hsound := sound_of_run hjwt (hfirst.sound app.jwt) hrun₀
  have hrun : Pool.Steps (exec app) t₀ t := (Pool.Run.single trivial hstep).trans hrun₁
  exact (user_of_authenticated hjwt hsound hauthenticated hrun hs hid).symm

/-- **One step of a handler** adds to what it knows. -/
theorem Handling.knows (hjwt : app.jwt.Fixed) (hfirst : Started first) {call' : Call S P}
    (h : Knows app first t c (t.calls c))
    (hstep : Pool.step (exec app) t c x = some u)
    (hhandling : Handling app.casl t.shared (t.calls c) p' call') :
    Knows app first u c call' := by
  have hrun : Pool.Steps (exec app) t u := .single trivial hstep
  generalize hcall : t.calls c = call at h hhandling
  cases hhandling with
  | crashed | refused | sent => trivial
  | hit hs huser hentry =>
      obtain ⟨user, hheard⟩ := h
      refine ⟨user, t, x, u, hheard, .inl hcall, hstep, .refl, fun rule hrule => ?_⟩
      rw [hheard.user hjwt hfirst hs huser]
      exact .inr ⟨_, hentry, hrule⟩
  | miss hs huser =>
      obtain ⟨user, hheard⟩ := h
      exact ⟨user, hheard.steps hrun, hheard.user hjwt hfirst hs huser⟩
  | loaded =>
      obtain ⟨user, hheard, rfl⟩ := h
      refine ⟨user, t, x, u, hheard, .inr hcall, hstep, .refl, fun rule hrule => .inl ?_⟩
      exact Rbac.mem_loadPermissionRules.mp hrule
  | stored =>
      obtain ⟨user, hlooked⟩ := h
      exact ⟨user, hlooked.steps hrun⟩

/-- **In every state of a run** a call that handles a message knows where it stands. -/
theorem knows_of_run (hjwt : app.jwt.Fixed) (hfirst : Started first)
    (hrun : Pool.Steps (exec app) first t) :
    ∀ c, Knows app first t c (t.calls c) := by
  induction hrun with
  | refl =>
      intro c
      have hbegins := hfirst.calls c
      cases hcall : first.calls c with
      | request => trivial
      | load | store | decide =>
          rw [hcall] at hbegins
          exact hbegins.elim
      | socket pc =>
          rw [hcall] at hbegins
          cases pc with
          | broadcast => exact hbegins.elim
          | _ => trivial
  | @tail t u c x hrun _ hstep ih =>
      have hsingle : Pool.Steps (exec app) t u := .single trivial hstep
      obtain ⟨p', call', hexec, hu⟩ := Pool.step_cases hstep
      have hcalls : u.calls = Function.update t.calls c call' := by rw [hu]
      rw [hcalls]
      refine (Function.forall_update_iff t.calls fun d call => Knows app first u d call).mpr
        ⟨?_, fun d _ => (ih d).steps hsingle⟩
      rcases exec_cases hexec with ⟨_, _, _, _, _, _, rfl⟩ | hhandling |
        ⟨pc, pc', hcall, hother, hsocket, rfl⟩
      · trivial
      · exact hhandling.knows hjwt hfirst (ih c) hstep
      · cases pc' with
        | broadcast socket dto =>
            -- the message comes to its handler from its guard
            obtain ⟨rfl, user, hauthenticated⟩ := socketStep_to_broadcast hsocket hother
            exact ⟨user, t, x, u, hrun, hcall, hstep, .refl, hauthenticated⟩
        | _ => trivial

/-- **Whoever broadcasts may do so**: in every run of a process that has just started, a step that
    delivers anything is the end of the handler of a message. The token of its socket was verified by
    the guard of this message, as that of an active account; after that the handler looked up the rules
    of this account, in a step of its own, and there the right to manage notifications was in effect;
    and the account had the right at the start (or has it from the default role), or before that lookup
    an administrator has acted. Between the lookup and the message the right may have been taken
    away. -/
theorem broadcasts_are_authorized (hcasl : app.casl.Unconditional) (hjwt : app.jwt.Fixed)
    (hfirst : Started first)
    (hrun : Pool.Steps (exec app) first t) (hstep : Pool.step (exec app) t c x = some u)
    (hnew : u.shared.gateway.deliveries ≠ t.shared.gateway.deliveries) :
    ∃ socket dto user, (∃ rules, t.calls c = .decide socket rules dto) ∧
      u.shared.gateway = t.shared.gateway.broadcastToAll "notifications:new" dto ∧
      ∃ t₂ x₂ t₃, Heard app first t₂ c socket dto user ∧
        (t₂.calls c = .socket (.broadcast socket dto) ∨ t₂.calls c = .load socket user.id dto) ∧
        Pool.step (exec app) t₂ c x₂ = some t₃ ∧ Pool.Steps (exec app) t₃ t ∧
        t₂.shared.accounts.world.InEffect user.id ⟨.manage, .notification⟩ ∧
        (first.shared.accounts.world.Own user.id ⟨.manage, .notification⟩ ∨
          Administered app first t₂) := by
  have hknows := knows_of_run hjwt hfirst hrun c
  have hexternal := (sound_of_run hjwt (hfirst.sound app.jwt) hrun).external c
  obtain ⟨p', call', hexec, rfl⟩ := Pool.step_cases hstep
  rcases exec_cases hexec with ⟨_, _, _, -, -, rfl, -⟩ | hhandling | ⟨pc, pc', hcall, hother, hsocket, -⟩
  · exact absurd rfl hnew
  · obtain ⟨socket, rules, dto, hcall, hmay, hsent⟩ := hhandling.deliveries hnew
    rw [hcall] at hknows
    obtain ⟨user, t₂, x₂, t₃, hheard, hcall₂, hstep₂, hrun₃, heffect⟩ := hknows
    have hright := heffect _ (mem_of_mayBroadcast hcasl hmay)
    exact ⟨socket, dto, user, ⟨rules, hcall⟩, hsent, t₂, x₂, t₃, hheard, hcall₂, hstep₂, hrun₃, hright,
      own_or_administered hcasl hjwt hfirst hheard.run hright⟩
  · rw [hcall] at hexternal
    obtain ⟨-, accepted, hgateway⟩ := socketStep_signed hjwt hsocket
    exact absurd (step_stored hgateway hexternal hother).1.deliveries hnew

end Runs

/-! ## A right to broadcast

A run in which nobody may broadcast at the start, and somebody does at the end: an administrator has
made it so. -/

theorem twoTokens_fixed : Http.twoTokens.Fixed := by
  intro token now now' payload payload' h h'
  exact Option.some.inj (h.symm.trans h')

/-- The administrator creates a role that manages notifications and gives it to an account that has
    registered; the account connects and sends a message. -/
def herald : State Nat String (Fin 7) where
  shared := ⟨freshAccounts, ⟨.empty, []⟩, WsThrottleGuard.initial⟩
  calls c := ([
    .request (.arrived (.plain (some "admin") (.createPermission ⟨.manage, .notification, none⟩))),
    .request (.arrived (.plain (some "admin") (.createRole ⟨"herald", none⟩))),
    .request (.arrived (.plain (some "admin") (.setPermissions uuidC.text [uuidB.text]))),
    .request (.arrived (.plain none (.register ⟨"new@b.co", "password", none, none⟩))),
    .request (.arrived (.plain (some "admin") (.setRoles uuidA.text [uuidC.text]))),
    .socket (.connect 0 ⟨some "new", none⟩),
    .socket (.receive 0 "news")] : List (Call Nat String)).get c

/-- One after the other, up to the last step of the handler of the message. -/
def heraldMoves : List (Fin 7 × Http.Draw) :=
  [(0, .at 1 uuidB), (0, .at 1 uuidB), (1, .at 2 uuidC), (1, .at 2 uuidC), (2, .at 3 uuidC),
    (2, .at 3 uuidC),
    (3, .at 4 uuidA), (3, .at 4 uuidA), (4, .at 5 uuidC), (4, .at 5 uuidC), (5, .at 6 uuidC),
      (5, .at 6 uuidC),
    (5, .at 6 uuidC), (6, .at 7 uuidC), (6, .at 7 uuidC), (6, .at 7 uuidC), (6, .at 7 uuidC),
      (6, .at 7 uuidC)]

theorem started_herald : Started herald where
  sockets    := rfl
  deliveries := rfl
  throttle   := rfl
  calls c    := by fin_cases c <;> trivial

/-- At the start nobody may broadcast. -/
theorem not_own_herald (id : Uuid) : ¬ herald.shared.accounts.world.Own id ⟨.manage, .notification⟩ := by
  have hrules : ∀ row ∈ seededDb.permissions.rows, row.rule ≠ ⟨.manage, .notification⟩ := by
    decide +kernel
  have hcarries : ∀ r, ¬ seededDb.Carries r ⟨.manage, .notification⟩ := by
    rintro r ⟨p, -, row, hrow, hrule⟩
    exact hrules row (Table.get_mem hrow) hrule
  rintro ((⟨r, -, h⟩ | ⟨rules, hentry, -⟩) | ⟨-, role, -, h⟩)
  · exact hcarries r h
  · cases hentry
  · exact hcarries role.id h

/-- The message reaches its own sender: an administrator has acted, before the handler looked up the
    rules. -/
theorem broadcasts_are_authorized_herald : ∃ (t u : State Nat String (Fin 7)) (x : Http.Draw),
    Pool.step (exec Http.toyApp) t 6 x = some u ∧
      u.shared.gateway.deliveries ≠ t.shared.gateway.deliveries ∧
      ∃ t₂, Pool.Steps (exec Http.toyApp) t₂ t ∧ Administered Http.toyApp herald t₂ := by
  have hreplay : (Pool.replay (exec Http.toyApp) Pool.anyStep herald heraldMoves).any (fun t =>
      (Pool.step (exec Http.toyApp) t 6 (.at 7 uuidC)).any fun u =>
        decide (u.shared.gateway.deliveries.length ≠ t.shared.gateway.deliveries.length)) = true := by
          decide +kernel
  obtain ⟨t, hrun, hrest⟩ := Pool.exists_run_of_replay hreplay
  obtain ⟨u, hu, hlonger⟩ := (Option.any_eq_true _ _).mp hrest
  have hnew : u.shared.gateway.deliveries ≠ t.shared.gateway.deliveries :=
    fun hsame => of_decide_eq_true hlonger (congrArg List.length hsame)
  obtain ⟨-, -, user, -, -, t₂, x₂, t₃, -, -, hstep₂, hrun₃, -, horigin⟩ :=
    broadcasts_are_authorized ruleList_unconditional twoTokens_fixed started_herald hrun hu hnew
  exact ⟨t, u, _, hu, hnew, t₂, (Pool.Run.single trivial hstep₂).trans hrun₃,
    horigin.resolve_left (not_own_herald user.id)⟩

end Process

end NestApp
