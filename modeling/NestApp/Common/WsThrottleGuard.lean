import Mathlib.Algebra.Order.Ring.Rat
import NestApp.Lib.FixedWindow

/-!
# `Common.WsThrottleGuard` — the throttle of socket events

A handler with `@WsThrottle` counts its event in the data of the socket, in an entry per event name. An
event name is the pattern of a handler, and no property of `Object.prototype`: an entry is there iff
the guard made it. Times are exact.

`ws_throttle`: for each socket and each event the guard is a fixed-window counter, whatever else
happens on this or another socket.

The entry of an event is made by its first message and replaced when its window has ended; it is never
removed. A message that is refused is counted as well, and does not move the window.
-/

namespace NestApp

open FixedWindow

structure WsThrottleOptions where
  limit    : Nat
  windowMs : ℚ

/-- The entry of an event: `count` and `resetAt`. -/
abbrev ThrottleEntry := Entry ℚ

/-- `data._wsThrottle` -/
abbrev ThrottleState := String → Option ThrottleEntry

/-- What the guard throws, with the message of its event. -/
structure WsException where
  message : String
deriving DecidableEq

namespace WsThrottleGuard

/-- `canActivate` for a client with the given data (`none`: no event was counted on the socket so far).
    `options` is the metadata of the handler. -/
def canActivate (options : Option WsThrottleOptions) (eventName : String) (now : ℚ)
    (data : Option ThrottleState) :
    Except WsException Bool × Option ThrottleState :=
  match options with
  | none         => (.ok true, data)
  | some options =>
      let state : ThrottleState := data.getD fun _ => none
      match state eventName with
      | none       =>
          (.ok true, some (Function.update state eventName (some ⟨1, now + options.windowMs⟩)))
      | some entry =>
          if entry.resetAt ≤ now then
            (.ok true, some (Function.update state eventName (some ⟨1, now + options.windowMs⟩)))
          else
            let entry' : ThrottleEntry := { entry with count := entry.count + 1 }
            let state' := Function.update state eventName (some entry')
            if options.limit < entry'.count then
              (.error ⟨"Socket event \"" ++ eventName ++ "\" rate limit exceeded"⟩, some state')
            else (.ok true, some state')

/-! ## Runs

Messages on any sockets, for any events, at any times. The handlers of other events bring their own
metadata, or none. -/

/-- A message on a socket. -/
structure Invocation (Socket : Type) where
  socket    : Socket
  eventName : String
  now       : ℚ

variable {Socket : Type} [DecidableEq Socket]

/-- The invocations with their outcomes, on sockets with the given data. -/
def run (options : String → Option WsThrottleOptions) :
    (Socket → Option ThrottleState) → List (Invocation Socket) → List
    (Invocation Socket × Except WsException Bool)
  | _, []                  => []
  | data, call :: calls =>
      let outcome := canActivate (options call.eventName) call.eventName call.now (data call.socket)
      (call, outcome.1) :: run options (Function.update data call.socket outcome.2) calls

/-- The invocation is of the event, on the socket. -/
def isOf (socket : Socket) (eventName : String) (call : Invocation Socket) : Bool :=
  decide (call.socket = socket ∧ call.eventName = eventName)

/-- The handler runs. -/
def isAccepted : Except WsException Bool → Bool
  | .ok answer => answer
  | .error _   => false

/-- The decisions on an event of a socket, each with its time. -/
def decisionsOf (socket : Socket) (eventName : String)
    (outcomes : List (Invocation Socket × Except WsException Bool)) :
    List (ℚ × Bool) :=
  (outcomes.filter fun outcome => isOf socket eventName outcome.1).map fun outcome =>
    (outcome.1.now, isAccepted outcome.2)

/-- The times of an event on a socket. -/
def timesOf (socket : Socket) (eventName : String) (calls : List (Invocation Socket)) : List ℚ :=
  (calls.filter (isOf socket eventName)).map Invocation.now

/-- No socket has counted anything. -/
def initial : Socket → Option ThrottleState := fun _ => none

/-- The entry of an event in the data of a socket. -/
def entryOf (data : Option ThrottleState) (eventName : String) : Option ThrottleEntry :=
  data.bind fun state => state eventName

/-! ## One invocation

The entry of the event is read and written, and no other entry of the socket is touched. -/

section Step

variable {options : WsThrottleOptions} {eventName other : String} {now : ℚ} {data : Option ThrottleState}

theorem getD_eq (data : Option ThrottleState) (eventName : String) :
    (data.getD fun _ => none) eventName = entryOf data eventName := by
  cases data with
  | none       => rfl
  | some state => rfl

/-- **Step lemma**: a throttled event goes by its own entry. -/
theorem canActivate_step (options : WsThrottleOptions) (eventName : String) (now : ℚ)
    (data : Option ThrottleState) :
    isAccepted (canActivate (some options) eventName now data).1 =
        (step options.limit options.windowMs (entryOf data eventName) now).2 ∧
      entryOf (canActivate (some options) eventName now data).2 eventName =
        some (step options.limit options.windowMs (entryOf data eventName) now).1 := by
  unfold canActivate
  simp only [getD_eq]
  cases hentry : entryOf data eventName with
  | none       => simp [step, entryOf, isAccepted]
  | some entry =>
      by_cases hreset : entry.resetAt ≤ now
      · simp [step, entryOf, isAccepted, hreset]
      · by_cases hlimit : options.limit < entry.count + 1
        · have hle : ¬ entry.count + 1 ≤ options.limit := by omega
          simp [step, entryOf, isAccepted, hreset, hlimit, hle]
        · have hle : entry.count + 1 ≤ options.limit := by omega
          simp [step, entryOf, isAccepted, hreset, hlimit, hle]

/-- **Frame**: the entries of other events stay. -/
theorem entryOf_canActivate_other (options : Option WsThrottleOptions) (h : other ≠ eventName) :
    entryOf (canActivate options eventName now data).2 other = entryOf data other := by
  have hupdate : ∀ entry,
    entryOf (some (Function.update (data.getD fun _ => none) eventName (some entry))) other =
      entryOf data other := by
    intro entry
    show Function.update (data.getD fun _ => none) eventName (some entry) other = _
    rw [Function.update_of_ne h, getD_eq]
  cases options with
  | none         => rfl
  | some options =>
      unfold canActivate
      simp only
      split
      · exact hupdate _
      · split_ifs
        · exact hupdate _
        · exact hupdate _
        · exact hupdate _

/-- An invocation is accepted, or rejected with the message of its event. -/
theorem canActivate_outcome (options : Option WsThrottleOptions) (eventName : String)
    (now : ℚ) (data : Option ThrottleState) :
    (canActivate options eventName now data).1 = .ok true ∨
      (canActivate options eventName now data).1 =
        .error ⟨"Socket event \"" ++ eventName ++ "\" rate limit exceeded"⟩ := by
  unfold canActivate
  cases options with
  | none         => exact .inl rfl
  | some options =>
      simp only
      split
      · exact .inl rfl
      · split_ifs
        · exact .inl rfl
        · exact .inr rfl
        · exact .inl rfl

end Step

/-! ## Whole runs

Event by event: the messages of an event on a socket meet their own counter, so the run of the guard is
a family of fixed-window counters. -/

section Run

variable {options : String → Option WsThrottleOptions} {throttle : WsThrottleOptions}
  {socket : Socket} {eventName : String}

/-- Other messages leave the entry of the event on the socket. -/
theorem entryOf_update_other {data : Socket → Option ThrottleState} {call : Invocation Socket}
    (h : isOf socket eventName call = false) :
    entryOf (Function.update data call.socket
      (canActivate (options call.eventName) call.eventName call.now (data call.socket)).2
        socket) eventName =
      entryOf (data socket) eventName := by
  by_cases hsocket : call.socket = socket
  · subst hsocket
    have hevent : eventName ≠ call.eventName := by
      rintro rfl
      simp [isOf] at h
    rw [Function.update_self, entryOf_canActivate_other _ hevent]
  · rw [Function.update_of_ne (Ne.symm hsocket)]

theorem decisionsOf_cons (outcome : Invocation Socket × Except WsException Bool)
    (outcomes : List (Invocation Socket × Except WsException Bool)) :
    decisionsOf socket eventName (outcome :: outcomes) =
      if isOf socket eventName outcome.1 then
        (outcome.1.now, isAccepted outcome.2) :: decisionsOf socket eventName outcomes
      else decisionsOf socket eventName outcomes := by
  unfold decisionsOf
  rw [List.filter_cons]
  split
  · rw [List.map_cons]
  · rfl

theorem timesOf_cons (call : Invocation Socket) (calls : List (Invocation Socket)) :
    timesOf socket eventName (call :: calls) =
      if isOf socket eventName call then call.now :: timesOf socket eventName calls
        else timesOf socket eventName calls := by
  unfold timesOf
  rw [List.filter_cons]
  split
  · rw [List.map_cons]
  · rfl

/-- **Run lemma**: the decisions on a throttled event are those of its own counter. -/
theorem decisionsOf_run (hoptions : options eventName = some throttle)
    (data : Socket → Option ThrottleState)
    (calls : List (Invocation Socket)) :
    decisionsOf socket eventName (run options data calls) =
      decisions throttle.limit throttle.windowMs (entryOf (data socket) eventName)
        (timesOf socket eventName calls) := by
  induction calls generalizing data with
  | nil => rfl
  | cons call calls ih =>
      rw [run, decisionsOf_cons, timesOf_cons, ih]
      cases hof : isOf socket eventName call with
      | true =>
          obtain ⟨rfl, rfl⟩ := of_decide_eq_true hof
          obtain ⟨hdecision, hentry⟩ :=
            canActivate_step throttle call.eventName call.now (data call.socket)
          rw [hoptions, if_pos rfl, if_pos rfl, Function.update_self, hdecision, hentry]
          rfl
      | false => rw [if_neg Bool.false_ne_true, if_neg Bool.false_ne_true, entryOf_update_other hof]

end Run

end WsThrottleGuard

open WsThrottleGuard

/-- **The throttle of an event on a socket**: the first calls of each window up to the limit are
    accepted, all others are rejected, and no other event or socket has a part in it. So an interval as
    long as a window has at most twice the limit of accepted calls. -/
theorem ws_throttle {Socket : Type} [DecidableEq Socket] {options : String → Option WsThrottleOptions}
    {throttle : WsThrottleOptions} {socket : Socket} {eventName : String}
    {calls : List (Invocation Socket)}
    (hoptions : options eventName = some throttle) (hlimit : 1 ≤ throttle.limit)
    (hwindow : 0 < throttle.windowMs)
    (hsorted : calls.Pairwise fun call later => call.now ≤ later.now) :
    Windows throttle.windowMs (timesOf socket eventName calls)
      (windows throttle.windowMs (timesOf socket eventName calls)) ∧
      decisionsOf socket eventName (run options initial calls) =
        (windows throttle.windowMs (timesOf socket eventName calls)).flatMap
          (verdicts throttle.limit 0) ∧
      (∀ w ∈ windows throttle.windowMs (timesOf socket eventName calls),
        ∃ start, (verdicts throttle.limit 0 w).head? = some (start, true)) ∧
      (∀ a, (accepted (decisionsOf socket eventName (run options initial calls))).countP
        (fun t => decide (a ≤ t ∧ t ≤ a + throttle.windowMs)) ≤ 2 * throttle.limit) ∧
      ∀ (options' : String → Option WsThrottleOptions) (calls' : List (Invocation Socket)),
        options' eventName = some throttle →
        calls'.filter (isOf socket eventName) = calls.filter (isOf socket eventName) →
        decisionsOf socket eventName (run options' initial calls') =
          decisionsOf socket eventName (run options initial calls) := by
  have htimes : (timesOf socket eventName calls).Pairwise (· ≤ ·) :=
    List.pairwise_map.mpr (hsorted.sublist List.filter_sublist)
  have hwindows := windows_spec hwindow htimes
  have hrun : decisionsOf socket eventName (run options initial calls) =
      decisions throttle.limit throttle.windowMs none (timesOf socket eventName calls) :=
        decisionsOf_run hoptions initial calls
  refine ⟨hwindows, ?_, ?_, ?_, ?_⟩
  · rw [hrun, decisions_eq hlimit]
  · intro w hw
    obtain ⟨start, hstart⟩ := hwindows.opened w hw
    cases w with
    | nil => cases hstart
    | cons first w =>
        have hfirst : decide (0 < throttle.limit) = true := decide_eq_true hlimit
        rw [verdicts, hfirst]
        exact ⟨first, rfl⟩
  · intro a
    rw [hrun, accepted_decisions hlimit]
    exact hwindows.toApart.countP_le throttle.limit a
  · intro options' calls' hoptions' hsame
    rw [hrun, decisionsOf_run hoptions' initial calls', timesOf, timesOf, hsame]
    rfl

/-- The metadata of the gateway. -/
def gatewayThrottle (eventName : String) : Option WsThrottleOptions :=
  if eventName = "notifications:broadcast" then some ⟨10, 60000⟩ else none

theorem ws_throttle_broadcast :
    (accepted (decisionsOf 0 "notifications:broadcast" (run gatewayThrottle initial
    (List.replicate 30 ⟨0, "notifications:broadcast", 0⟩)))).countP
      (fun t => decide (0 ≤ t ∧ t ≤ 0 + 60000)) ≤ 2 * 10 :=
  (ws_throttle (show gatewayThrottle "notifications:broadcast" = some ⟨10, 60000⟩ from if_pos rfl)
    (by decide) (by decide)
    (List.pairwise_replicate.mpr (.inr le_rfl))).2.2.2.1 0

end NestApp
