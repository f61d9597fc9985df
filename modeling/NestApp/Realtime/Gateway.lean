import NestApp.Lib.Pool
import NestApp.Rbac.Guard

/-!
# `Realtime.Gateway` — who receives a notification

The notifications gateway over the primitives of the socket server: a socket enters the namespace first
and is authenticated afterwards, because no guard runs on a connection. `server.to(room).emit` reaches
the sockets of a room, `server.emit` every socket in the namespace — also one whose token is still
being verified (`broadcast_reaches_pending_socket`).

`send_to_user_addressee` needs no condition: a socket joins the room of the user it was authenticated
as, so a targeted event reaches nobody else. `notifications_reach_authenticated`: as long as nothing is
broadcast while a `handleConnection` awaits the first authentication of its socket, every event reaches
authenticated sockets only. The invariant behind it is `Attended`: a socket in the namespace is
authenticated, or a `handleConnection` is about to authenticate or disconnect it.

The steps are those of the event loop: everything between two awaits of a handler is one step. A
broadcast that CASL refuses emits nothing, so the condition is about the steps that emit.
-/

namespace NestApp

open Sql

namespace Realtime

/-! ## Sockets

A socket object lives longer than its membership of the namespace: handlers keep a reference to it and
may change its data after it has left. Both are therefore parts of the state. -/

/-- What a socket presents when it connects: a token in `auth`, or an authorization header. -/
structure Handshake where
  /-- `client.handshake.auth.token` -/
  authToken     : Option String
  /-- `client.handshake.headers.authorization` -/
  authorization : Option String
deriving DecidableEq

/-- A connection, identified by `socket.id`. The object outlives its membership of the namespace. -/
structure Socket (S : Type) where
  id        : S
  handshake : Handshake
  connected : Bool
  rooms     : List String
  /-- `socket.data.user.id`: set by `authenticate`, right before it returns `true` -/
  user      : Option Uuid

instance {S : Type} : Keyed (Socket S) S := ⟨Socket.id⟩

@[simp] theorem key_socket {S : Type} (s : Socket S) : key s = s.id := rfl

/-- An event that reached a socket; `user` is the socket's user at that moment, and `none` if nobody had
    accepted its token by then. -/
structure Delivery (S P : Type) where
  socket    : S
  event     : String
  payload   : P
  /-- the `userId` of `sendToUser`, or nobody in particular -/
  addressee : Option String
  user      : Option Uuid

/-- The sockets of the namespace, in and out of it, and what was delivered so far. -/
structure Namespace (S P : Type) where
  sockets    : Table (Socket S)
  deliveries : List (Delivery S P)

/-- What a step is given from outside: whether the throttle and the token verification accept, and the
    rules `getPermissionRulesForUser` returns. -/
structure GatewayChoice where
  accepted : Bool
  rules    : List PermissionRule

variable {S P : Type}

/-! ## The gateway

The methods of the gateway and of the guard it calls, over the namespace. The throttle, the
verification of a token and the rules of the user come from outside. -/

def userRoom (userId : String) : String := "user:" ++ userId

/-- `authorization.slice('Bearer '.length)`, if it has that prefix. -/
def bearerToken (authorization : String) : Option String :=
  if "Bearer ".isPrefixOf authorization then
    some (String.ofList (authorization.toList.drop "Bearer ".length)) else none

/-- `extractToken`: an empty token counts as none. -/
def extractToken (handshake : Handshake) : Option String :=
  match handshake.authToken.filter (· ≠ "") with
  | some token => some token
  | none       => (handshake.authorization.bind bearerToken).filter (· ≠ "")

/-- `assertPermissionRules` lets the request pass. -/
def assertPermissionRules (casl : Casl) (ability : casl.Ability) (rules : List PermissionRule) : Bool :=
  rules.all fun rule => casl.can ability rule.action.text rule.subject.text

/-- The check of the handler, with the ability that `getAbilityForUser` builds from the rules of the
    user. -/
def mayBroadcast (casl : Casl) (rules : List PermissionRule) : Bool :=
  assertPermissionRules casl (casl.createMongoAbility (rules.map PermissionRule.ability))
    [⟨.manage, .notification⟩]

namespace Namespace

/-- Deliver to the sockets in the namespace that satisfy `selected`. -/
def emit (ns : Namespace S P) (selected : Socket S → Bool) (addressee : Option String)
    (event : String) (payload : P) :
    Namespace S P :=
  { ns with
    deliveries := ns.deliveries ++
      (ns.sockets.rows.filter fun s => s.connected && selected s).map fun s =>
        ⟨s.id, event, payload, addressee, s.user⟩ }

def sendToUser (ns : Namespace S P) (userId event : String) (payload : P) : Namespace S P :=
  ns.emit (fun s => userRoom userId ∈ s.rooms) (some userId) event payload

def broadcastToAll (ns : Namespace S P) (event : String) (payload : P) : Namespace S P :=
  ns.emit (fun _ => true) none event payload

variable [DecidableEq S]

/-- Change one socket. -/
def update (ns : Namespace S P) (s : Socket S) : Namespace S P := { ns with sockets := ns.sockets.put s }

/-- `socket.join(userRoom(socket.data.user.id))`; a socket that has left does not join. -/
def join (ns : Namespace S P) (s : Socket S) (user : Uuid) : Namespace S P :=
  if s.connected then ns.update { s with rooms := userRoom user.text :: s.rooms } else ns

/-- `client.disconnect(true)`: the socket leaves its rooms and the namespace. -/
def disconnect (ns : Namespace S P) (s : Socket S) : Namespace S P :=
  ns.update { s with connected := false, rooms := [] }

/-- The end of `authenticate`. `subject` is the user a token is signed for; `verifyToken` also fails
    when the token has expired or the account is not active. -/
def authenticate (subject : String → Option Uuid) (o : GatewayChoice) (ns : Namespace S P)
    (s : Socket S) :
    Namespace S P × Bool :=
  match (extractToken s.handshake).bind subject with
  | some user =>
      if o.accepted then (ns.update { s with user := some user }, true) else (ns.disconnect s, false)
  | none      => (ns.disconnect s, false)

end Namespace

/-! ## Steps

A connection and its end, a message, and an emission by another service. Connections and messages await
at some points, and there the others go on. -/

/-- The points of the calls: a connection before and after its token is verified and its room joined, a
    message before the throttle, before the guard and before the handler, an emission, and the end of a
    connection. -/
inductive Pc (S P : Type) where
  | connect (socket : S) (handshake : Handshake)
  /-- `handleConnection` awaits `authenticate` -/
  | handleConnection (socket : S)
  | join (socket : S)
  /-- a `notifications:broadcast` message arrives -/
  | receive (socket : S) (dto : P)
  /-- `WsJwtGuard.canActivate` awaits `authenticate` -/
  | canActivate (socket : S) (dto : P)
  /-- the handler awaits `getAbilityForUser` -/
  | broadcast (socket : S) (dto : P)
  | sendToUser (userId event : String) (payload : P)
  | broadcastToAll (event : String) (payload : P)
  | disconnect (socket : S)
  | done
  | failed (message : String)

variable [DecidableEq S]

def step (casl : Casl) (subject : String → Option Uuid) (o : GatewayChoice) (ns : Namespace S P) :
    Pc S P → Option (Namespace S P × Pc S P)
  | .connect socket handshake =>
      if (ns.sockets.get socket).isSome then none
      -- without a token `authenticate` disconnects before its first `await`
      else if (extractToken handshake).isNone then
        some (ns.disconnect ⟨socket, handshake, true, [], none⟩, .done)
      else some (ns.update ⟨socket, handshake, true, [], none⟩, .handleConnection socket)
  | .handleConnection socket => (ns.sockets.get socket).map fun s =>
      match ns.authenticate subject o s with
      | (ns', true)  => (ns', .join socket)
      | (ns', false) => (ns', .done)
  | .join socket => (ns.sockets.get socket).map fun s =>
      match s.user with
      | some user => (ns.join s user, .done)
      | none      => (ns, .failed "Cannot read properties of undefined")
  | .receive socket dto =>
      if (ns.sockets.get socket).any Socket.connected = false then none
      else if o.accepted then some (ns, .canActivate socket dto)
      else some (ns, .failed "Socket event \"notifications:broadcast\" rate limit exceeded")
  | .canActivate socket dto => (ns.sockets.get socket).map fun s =>
      match ns.authenticate subject o s with
      | (ns', true)  => (ns', .broadcast socket dto)
      | (ns', false) => (ns', .failed "Forbidden resource")
  | .broadcast _ dto =>
      if mayBroadcast casl o.rules then
        some (ns.broadcastToAll "notifications:new" dto, .done)
      else some (ns, .failed "Insufficient permissions")
  | .sendToUser userId event payload => some (ns.sendToUser userId event payload, .done)
  | .broadcastToAll event payload => some (ns.broadcastToAll event payload, .done)
  | .disconnect socket => (ns.sockets.get socket).map fun s => (ns.disconnect s, .done)
  | .done | .failed _ => none

def exec {C : Type} (casl : Casl) (subject : String → Option Uuid) :
    Pool.Code (Namespace S P) (Pc S P) GatewayChoice C := fun _ ns pc o => step casl subject o ns pc

abbrev State (S P C : Type) := Pool.Config (Namespace S P) (Pc S P) C

omit [DecidableEq S] in
/-- The step reaches every socket in the namespace: a broadcast that is not refused, or one from another
    service. -/
def Pc.emitsToAll (casl : Casl) (o : GatewayChoice) : Pc S P → Bool
  | .broadcast _ _      => mayBroadcast casl o.rules
  | .broadcastToAll _ _ => true
  | _                   => false

/-- In the namespace, and not authenticated so far. -/
def Socket.unauthenticated {S : Type} (s : Socket S) : Bool := s.connected && s.user.isNone

/-- The call is a `handleConnection` that awaits the first authentication of its socket. -/
def Namespace.awaits (ns : Namespace S P) : Pc S P → Bool
  | .handleConnection socket => (ns.sockets.get socket).any Socket.unauthenticated
  | _                        => false

/-- Nothing is emitted to all sockets while a `handleConnection` awaits the first authentication of its
    socket. A broadcast that is refused is no matter. -/
def noPendingAuthentication {C : Type} (casl : Casl) :
    Pool.Allowed (Namespace S P) (Pc S P) GatewayChoice C :=
  fun s c o => (s.calls c).emitsToAll casl o = true → ∀ d, s.shared.awaits (s.calls d) = false

/-! ## The invariant

A socket's user never changes to another one, since a token is signed for one user and the handshake
stays. So the rooms of a socket are those of one user, whenever it is looked at. -/

/-- A socket's user is the one its token is signed for, and its rooms are that user's. -/
structure Socket.Ok (subject : String → Option Uuid) (s : Socket S) : Prop where
  user  : ∀ {u}, s.user = some u → (extractToken s.handshake).bind subject = some u
  rooms : ∀ room ∈ s.rooms, ∃ u, s.user = some u ∧ room = userRoom u.text

def SocketsOk (subject : String → Option Uuid) (ns : Namespace S P) : Prop :=
  ∀ s ∈ ns.sockets.rows, s.Ok subject

/-- The socket whose `handleConnection` the call is. -/
def Pc.connecting : Pc S P → Option S
  | .handleConnection socket => some socket
  | _                        => none

/-- What one step of a call can do to the namespace. A `handleConnection` ends by changing its own
    socket; a socket that is changed is authenticated or out of the namespace afterwards, unless it has
    just entered. Everything a proof about runs needs of a step is here. -/
inductive Change (casl : Casl) (o : GatewayChoice) (subject : String → Option Uuid)
    (pc : Pc S P) (ns : Namespace S P) (pc' : Pc S P) :
    Namespace S P → Prop where
  | kept (other : pc.connecting = none) : Change casl o subject pc ns pc' ns
  | updated (s : Socket S) (ok : s.Ok subject)
      (attended : s.unauthenticated = true → pc' = .handleConnection s.id)
      (own : ∀ socket, pc.connecting = some socket →
        socket = s.id) : Change casl o subject pc ns pc' (ns.update s)
  | sent (userId event : String) (payload : P) (other : pc.connecting = none) :
      Change casl o subject pc ns pc' (ns.sendToUser userId event payload)
  | broadcast (event : String) (payload : P) (emits : pc.emitsToAll casl o = true) :
      Change casl o subject pc ns pc' (ns.broadcastToAll event payload)

variable {C : Type} {casl : Casl} {subject : String → Option Uuid} {o : GatewayChoice}
  {ns ns' : Namespace S P} {pc pc' : Pc S P}
  {s : Socket S} {u : Uuid}

theorem userRoom_inj {a b : String} : userRoom a = userRoom b ↔ a = b := by
  simp [userRoom]

omit [DecidableEq S] in
theorem Socket.Ok.disconnected (h : s.Ok subject) :
    Socket.Ok subject { s with connected := false, rooms := [] } :=
  ⟨h.user, fun _ hr => absurd hr List.not_mem_nil⟩

omit [DecidableEq S] in
/-- A second authentication is as the same user. -/
theorem Socket.Ok.authenticated (h : s.Ok subject)
    (hu : (extractToken s.handshake).bind subject = some u) :
    Socket.Ok subject { s with user := some u } := by
  refine ⟨fun he => hu.trans he, fun room hr => ⟨u, rfl, ?_⟩⟩
  obtain ⟨u', hu', rfl⟩ := h.rooms room hr
  -- the room was joined as the user the token is signed for
  rw [Option.some.inj ((h.user hu').symm.trans hu)]

omit [DecidableEq S] in
theorem Socket.Ok.entered {socket : S} {handshake : Handshake} :
    Socket.Ok subject ⟨socket, handshake, true, [], none⟩ :=
  ⟨(fun he => nomatch he), fun _ hr => absurd hr List.not_mem_nil⟩

omit [DecidableEq S] in
theorem own_of_other (h : pc.connecting = none) :
    ∀ socket, pc.connecting = some socket → socket = s.id := by
  intro socket hc
  rw [h] at hc
  cases hc

theorem change_disconnect (h : s.Ok subject)
    (own : ∀ socket, pc.connecting = some socket → socket = s.id) :
    Change casl o subject pc ns pc' (ns.disconnect s) :=
  .updated _ h.disconnected (fun ha => nomatch ha) own

theorem change_authenticate (h : s.Ok subject)
    (own : ∀ socket, pc.connecting = some socket → socket = s.id) :
    Change casl o subject pc ns pc' (ns.authenticate subject o s).1 := by
  unfold Namespace.authenticate
  split
  · next user hu =>
    split
    · refine .updated _ (h.authenticated hu) (fun ha => ?_) own
      simp [Socket.unauthenticated] at ha
    · exact change_disconnect h own
  · exact change_disconnect h own

theorem change_join (h : s.Ok subject) (hu : s.user = some u) (other : pc.connecting = none) :
    Change casl o subject pc ns pc' (ns.join s u) := by
  unfold Namespace.join
  split
  · refine .updated _ ⟨h.user, fun room hr => ?_⟩ (fun ha => ?_) (own_of_other other)
    · rcases List.mem_cons.mp hr with rfl | hr
      · exact ⟨u, hu, rfl⟩
      · exact h.rooms room hr
    · simp [Socket.unauthenticated, hu] at ha
  · exact .kept other

/-- **One step** of a call, as a `Change` of the namespace. All later facts about steps go by its
    cases. -/
theorem step_change (hok : SocketsOk subject ns) (hs : step casl subject o ns pc = some (ns', pc')) :
    Change casl o subject pc ns pc' ns' := by
  have hget : ∀ {socket s}, ns.sockets.get socket = some s → s.Ok subject :=
    fun hg => hok _ (Table.get_mem hg)
  cases pc with
  | connect socket handshake =>
      simp only [step] at hs
      split at hs
      · cases hs
      · split at hs <;> cases hs
        · exact change_disconnect .entered (own_of_other rfl)
        · exact .updated _ .entered (fun _ => rfl) (own_of_other rfl)
  | handleConnection socket =>
      obtain ⟨s, hg, hres⟩ := Option.map_eq_some_iff.mp hs
      have hc : Change casl o subject (.handleConnection socket) ns pc'
        (ns.authenticate subject o s).1 :=
        change_authenticate (hget hg) fun _ he => by cases he; exact (Table.get_key hg).symm
      split at hres <;> next heq =>
        rw [heq] at hc
        cases hres
        exact hc
  | join socket =>
      obtain ⟨s, hg, hres⟩ := Option.map_eq_some_iff.mp hs
      split at hres
      · next user hu =>
        cases hres
        exact change_join (hget hg) hu rfl
      · cases hres
        exact .kept rfl
  | receive socket dto =>
      simp only [step] at hs
      split at hs
      · cases hs
      · split at hs <;> (cases hs; exact .kept rfl)
  | canActivate socket dto =>
      obtain ⟨s, hg, hres⟩ := Option.map_eq_some_iff.mp hs
      have hc : Change casl o subject (.canActivate socket dto) ns pc' (ns.authenticate subject o s).1 :=
        change_authenticate (hget hg) (own_of_other rfl)
      split at hres <;> next heq =>
        rw [heq] at hc
        cases hres
        exact hc
  | broadcast socket dto =>
      simp only [step] at hs
      split at hs
      · next hmay =>
        cases hs
        exact .broadcast _ _ hmay
      · cases hs
        exact .kept rfl
  | sendToUser userId event payload =>
      cases hs
      exact .sent userId event payload rfl
  | broadcastToAll event payload =>
      cases hs
      exact .broadcast event payload rfl
  | disconnect socket =>
      obtain ⟨s, hg, hres⟩ := Option.map_eq_some_iff.mp hs
      cases hres
      exact change_disconnect (hget hg) (own_of_other rfl)
  | done | failed => cases hs

theorem Change.socketsOk (h : Change casl o subject pc ns pc' ns') (hok : SocketsOk subject ns) :
    SocketsOk subject ns' := by
  cases h with
  | kept => exact hok
  | updated s ok =>
      intro s' hs'
      -- the socket stored, or one left as it was
      rcases Table.mem_put.mp hs' with rfl | ⟨hs', -⟩
      · exact ok
      · exact hok s' hs'
  | sent => exact hok
  | broadcast => exact hok

/-- **Where an unauthenticated socket comes from**: the call has just let it in, or it was there before
    and is not the one the call was authenticating. -/
theorem Change.unauthenticated (h : Change casl o subject pc ns pc' ns') (hs : s ∈ ns'.sockets.rows)
    (hun : s.unauthenticated = true) : pc' = .handleConnection s.id ∨
      (s ∈ ns.sockets.rows ∧ pc ≠ .handleConnection s.id) := by
  cases h with
  | kept other =>
      refine .inr ⟨hs, ?_⟩
      rintro rfl
      cases other
  | updated s' ok attended own =>
      rcases Table.mem_put.mp hs with rfl | ⟨hs, hne⟩
      · exact .inl (attended hun)
      · refine .inr ⟨hs, ?_⟩
        rintro rfl
        exact hne (own _ rfl)
  | sent userId event payload other =>
      refine .inr ⟨hs, ?_⟩
      rintro rfl
      cases other
  | broadcast event payload emits =>
      refine .inr ⟨hs, ?_⟩
      rintro rfl
      cases emits

/-! ## Deliveries

A step that emits delivers to the sockets that are in the namespace, or in the room, at that moment.
What was delivered stays delivered. -/

/-- A delivery to a socket that was authenticated — for a targeted event, as its addressee. -/
structure Delivery.Ok (d : Delivery S P) : Prop where
  authenticated : d.user.isSome
  addressee     : ∀ {userId}, d.addressee = some userId → ∃ u, d.user = some u ∧ u.text = userId

omit [DecidableEq S] in
theorem mem_emit {selected : Socket S → Bool} {addressee : Option String} {event : String} {payload : P}
    {d : Delivery S P} : d ∈ (ns.emit selected addressee event payload).deliveries ↔ d ∈ ns.deliveries ∨
      ∃ s ∈ ns.sockets.rows, (s.connected = true ∧ selected s = true) ∧
        ⟨s.id, event, payload, addressee, s.user⟩ = d := by
  simp [Namespace.emit, and_assoc]

omit [DecidableEq S] in
/-- A targeted event reaches sockets of the addressee only. -/
theorem sendToUser_ok (hok : SocketsOk subject ns) {userId event : String} {payload : P}
    {d : Delivery S P}
    (hd : d ∈ (ns.sendToUser userId event payload).deliveries) : d ∈ ns.deliveries ∨ d.Ok := by
  refine (mem_emit.mp hd).imp id ?_
  rintro ⟨s, hs, ⟨-, hroom⟩, rfl⟩
  -- a socket in the room was authenticated as the user the room is named after
  obtain ⟨u, hu, he⟩ := (hok s hs).rooms _ (of_decide_eq_true hroom)
  refine ⟨by simp [hu], fun ha => ⟨u, hu, ?_⟩⟩
  exact (userRoom_inj.mp he).symm.trans (Option.some.inj ha)

/-- **What a step delivers**: a targeted event to its addressee, and a broadcast to everybody in the
    namespace. -/
theorem Change.deliveries (h : Change casl o subject pc ns pc' ns') (hok : SocketsOk subject ns)
    {d : Delivery S P}
    (hd : d ∈ ns'.deliveries) : d ∈ ns.deliveries ∨ d.Ok ∨
      (pc.emitsToAll casl o = true ∧ d.addressee = none ∧
        ∃ s ∈ ns.sockets.rows, s.connected = true ∧ d.user = s.user) := by
  cases h with
  | kept => exact .inl hd
  | updated => exact .inl hd
  | sent => exact (sendToUser_ok hok hd).imp id .inl
  | broadcast event payload emits =>
      refine (mem_emit.mp hd).imp id fun ⟨s, hs, hc, he⟩ => .inr ⟨emits, ?_, s, hs, hc.1, ?_⟩
      all_goals
        cases he
        rfl

/-! ## Runs

From an empty namespace, with any calls. The first property needs the invariant about rooms only; the
second one needs the condition. -/

/-- The start: nobody is connected. The calls may be any, and about any sockets. -/
structure Initial (s : State S P C) : Prop where
  sockets    : s.shared.sockets.rows = []
  deliveries : s.shared.deliveries = []

/-- A socket in the namespace that is not authenticated has a `handleConnection` to wait for. That call
    will authenticate it or disconnect it, but nothing says when. -/
def Attended (s : State S P C) : Prop :=
  ∀ socket ∈ s.shared.sockets.rows, socket.unauthenticated = true →
    ∃ c, s.calls c = .handleConnection socket.id

omit [DecidableEq S] in
theorem Initial.no_deliveries {s₀ : State S P C} (hi : Initial s₀) {d : Delivery S P}
    (hd : d ∈ s₀.shared.deliveries) :
    False := by
  rw [hi.deliveries] at hd
  cases hd

variable [DecidableEq C] {s₀ t : State S P C}
  {ok : Pool.Allowed (Namespace S P) (Pc S P) GatewayChoice C}

theorem reachable_socketsOk (hi : Initial s₀) (h : Pool.Run (exec casl subject) ok s₀ t) :
    SocketsOk subject t.shared := by
  refine h.invariant (I := fun t => SocketsOk subject t.shared) (fun {v c a w} hI _ hst => ?_) ?_
  · obtain ⟨ns', pc', hc, rfl⟩ := Pool.step_cases hst
    exact (step_change hI hc).socketsOk hI
  · intro s hs
    rw [hi.sockets] at hs
    cases hs

theorem reachable_attended (hi : Initial s₀) (h : Pool.Run (exec casl subject) ok s₀ t) :
    Attended t := by
  refine h.invariant_with (J := fun t => SocketsOk subject t.shared)
    (fun hr => reachable_socketsOk hi hr)
    (fun {v c a w} hJ hI _ hst => ?_) ?_
  · obtain ⟨ns', pc', hc, rfl⟩ := Pool.step_cases hst
    intro s hs hun
    rcases (step_change hJ hc).unauthenticated hs hun with he | ⟨hs, hne⟩
    · exact ⟨c, by simpa using he⟩
    · -- the `handleConnection` it waited for is another call, which has not moved
      obtain ⟨d, hd⟩ := hI s hs hun
      have hdc : d ≠ c := by
        rintro rfl
        exact hne hd
      exact ⟨d, by simpa [Function.update_of_ne hdc] using hd⟩
  · intro s hs
    rw [hi.sockets] at hs
    cases hs

omit [DecidableEq C] in
/-- Under the condition, everybody a broadcast reaches is authenticated. -/
theorem Attended.authenticated {c : C} {a : GatewayChoice} (h : Attended t)
    (hcond : noPendingAuthentication casl t c a)
    (hemit : (t.calls c).emitsToAll casl a = true) (hs : s ∈ t.shared.sockets.rows)
    (hconn : s.connected = true) :
    s.user.isSome := by
  cases hu : s.user with
  | some _ => rfl
  | none =>
      have hun : s.unauthenticated = true := by simp [Socket.unauthenticated, hconn, hu]
      obtain ⟨d, hd⟩ := h s hs hun
      -- the condition: no `handleConnection` awaits the first authentication of this socket
      have hno := hcond hemit d
      rw [hd, Namespace.awaits, show t.shared.sockets.get s.id = some s from Table.get_of_mem hs] at hno
      simp [hun] at hno

end Realtime

open Realtime in
/-- **A targeted event reaches its addressee only**, in every run. No condition is needed for this. -/
theorem send_to_user_addressee {S P C : Type} [DecidableEq S] [DecidableEq C] {casl : Casl}
    {subject : String → Option Uuid}
    {s t : Realtime.State S P C} (hi : Realtime.Initial s)
    (h : Pool.Steps (Realtime.exec casl subject) s t) :
    ∀ d ∈ t.shared.deliveries, ∀ userId, d.addressee = some userId → ∃ u, d.user = some u ∧
      u.text = userId := by
  refine h.invariant_with (J := fun t => SocketsOk subject t.shared)
    (I := fun t => ∀ d ∈ t.shared.deliveries, ∀ userId, d.addressee = some userId →
      ∃ u, d.user = some u ∧ u.text = userId)
    (fun hr => reachable_socketsOk hi hr) (fun {v c a w} hJ hI _ hst => ?_) fun d hd =>
      (hi.no_deliveries hd).elim
  obtain ⟨ns', pc', hc, rfl⟩ := Pool.step_cases hst
  intro d hd userId ha
  rcases (step_change hJ hc).deliveries hJ hd with hold | hd | ⟨-, hn, -⟩
  · exact hI d hold userId ha
  · exact hd.addressee ha
  · cases hn.symm.trans ha

open Realtime in
/-- **Notifications reach authenticated sockets only**: in every run in which nothing is emitted to all
    sockets while a `handleConnection` awaits the first authentication of its socket, every event is
    delivered to a socket `authenticate` has accepted, and a targeted one to a socket it has accepted as
    the addressee. -/
theorem notifications_reach_authenticated {S P C : Type} [DecidableEq S] [DecidableEq C] {casl : Casl}
    {subject : String → Option Uuid} {s t : Realtime.State S P C} (hi : Realtime.Initial s)
    (h : Pool.Run (Realtime.exec casl subject) (noPendingAuthentication casl) s t) :
    ∀ d ∈ t.shared.deliveries, d.user.isSome ∧
      ∀ userId, d.addressee = some userId → ∃ u, d.user = some u ∧ u.text = userId := by
  have hall : ∀ d ∈ t.shared.deliveries, d.Ok := by
    refine h.invariant_with (J := fun t => SocketsOk subject t.shared ∧ Attended t)
      (I := fun t => ∀ d ∈ t.shared.deliveries, d.Ok)
      (fun hr => ⟨reachable_socketsOk hi hr, reachable_attended hi hr⟩)
        (fun {v c a w} hJ hI hcond hst => ?_)
      fun d hd => (hi.no_deliveries hd).elim
    obtain ⟨ns', pc', hc, rfl⟩ := Pool.step_cases hst
    intro d hd
    rcases (step_change hJ.1 hc).deliveries hJ.1 hd with hold | hd | ⟨hemit, hn, s, hs, hconn, hu⟩
    · exact hI d hold
    · exact hd
    · exact ⟨hu ▸ hJ.2.authenticated hcond hemit hs hconn, fun ha => nomatch hn.symm.trans ha⟩
  exact fun d hd => ⟨(hall d hd).authenticated, fun _ ha => (hall d hd).addressee ha⟩

/-! ## The race

Two sockets connect, one of them with a forged token, and the other sends a broadcast before that token
has been looked at. -/

namespace Realtime

instance {S P : Type} [DecidableEq S] {n : Nat} (s : State S P (Fin n)) (c : Fin n) (o : GatewayChoice) :
    Decidable (noPendingAuthentication ruleList s c o) :=
  inferInstanceAs (Decidable ((s.calls c).emitsToAll ruleList o = true →
    ∀ d : Fin n, s.shared.awaits (s.calls d) = false))

def adminUser : Uuid := ⟨"aaaaaaaa-aaaa-4aaa-8aaa-aaaaaaaaaaaa", by decide +kernel⟩

/-- One token is signed, for the administrator. -/
def signed (token : String) : Option Uuid := if token = "signed" then some adminUser else none

/-- Socket 0 presents the signed token, socket 1 a forged one, and socket 0 asks for a broadcast. -/
def threeEvents : State Nat String (Fin 3) where
  shared := ⟨.empty, []⟩
  calls  := fun c => [.connect 0 ⟨some "signed", none⟩, .connect 1 ⟨some "forged", none⟩,
    .receive 0 "news"].get c

theorem initial_threeEvents : Initial threeEvents := ⟨rfl, rfl⟩

def accept : GatewayChoice := ⟨true, [⟨.manage, .notification⟩]⟩

/-- Socket 1 has entered the namespace, and its token is not verified yet when the broadcast goes out. -/
def broadcastFirst : List (Fin 3 × GatewayChoice) := Pool.turns 3
  [(0, accept), (0, accept), (0, accept), (1, accept), (2, accept), (2, accept), (2, accept)]

/-- The forged token is rejected before the broadcast. -/
def verifiedFirst : List (Fin 3 × GatewayChoice) := Pool.turns 3
  [(0, accept), (0, accept), (0, accept), (1, accept), (1, accept), (2, accept),
    (2, accept), (2, accept)]

end Realtime

open Realtime in
/-- Without the condition, a socket whose token is forged receives a notification. -/
theorem broadcast_reaches_pending_socket : ∃ s t : Realtime.State Nat String (Fin 3),
    Realtime.Initial s ∧ Pool.Steps (Realtime.exec ruleList signed) s t ∧
      ∃ d ∈ t.shared.deliveries, d.socket = 1 ∧ d.user = none := by
  have hrun : (Pool.replay (Realtime.exec ruleList signed) Pool.anyStep threeEvents broadcastFirst).any
      (fun t => t.shared.deliveries.any fun d => decide (d.socket = 1 ∧ d.user = none)) = true := by
    decide +kernel
  obtain ⟨t, hr, hcheck⟩ := Pool.exists_run_of_replay hrun
  obtain ⟨d, hd, hcheck⟩ := List.any_eq_true.mp hcheck
  exact ⟨_, t, initial_threeEvents, hr, d, hd, of_decide_eq_true hcheck⟩

open Realtime in
theorem notifications_reach_authenticated_verified : ∃ t : Realtime.State Nat String (Fin 3),
    Pool.Run (Realtime.exec ruleList signed) (noPendingAuthentication ruleList) threeEvents t ∧
      t.shared.deliveries.length = 1 ∧
      ∀ d ∈ t.shared.deliveries, d.user.isSome ∧
        ∀ userId, d.addressee = some userId → ∃ u, d.user = some u ∧ u.text = userId := by
  have hrun : (Pool.replay (Realtime.exec ruleList signed)
    (noPendingAuthentication ruleList) threeEvents verifiedFirst).any
      (fun t => decide (t.shared.deliveries.length = 1)) = true := by
    decide +kernel
  obtain ⟨t, hr, hlen⟩ := Pool.exists_run_of_replay hrun
  exact ⟨t, hr, of_decide_eq_true hlen, notifications_reach_authenticated initial_threeEvents hr⟩

end NestApp
