import NestApp.Process

/-!
# `BroadcastRate` — how many messages of a socket go out

The throttle of a message handler keeps its counter in the data of the socket, while everything else in
the process goes on. `received` lists the messages of a socket that came to the throttle in a schedule,
with its decisions.

* `received_decisions` — the decisions are those of a counter of the socket's own;
* `broadcasts_are_rare` — in any sixty seconds at most twenty messages of one socket are broadcast.

A counter that starts a new window with the first message after the old one has ended lets pass up to
twice its limit in an interval as long as a window: at the end of the one and at the beginning of the
next.
-/

namespace NestApp

open Sql Prog Realtime FixedWindow

namespace Process

variable {S P C : Type} [DecidableEq S] [DecidableEq C]

omit [DecidableEq S] in
/-- The socket whose message the call is about to count. -/
def Call.arrivesOn : Call S P → Option S
  | .socket (.receive k _) => some k
  | _                      => none

/-- The decision of the throttle on a message. -/
def counted (x : Http.Draw) (p : Process S P) (socket : S) :
    Except WsException Bool × Option ThrottleState :=
  WsThrottleGuard.canActivate (gatewayThrottle broadcastEvent) broadcastEvent x.o.now (p.throttle socket)

/-- The messages on a socket in a schedule: the call, the time, and whether the throttle lets it pass.
    Refused messages are listed, too. -/
def received (app : Http.App) (socket : S) : State S P C → List (C × Http.Draw) → List (C × ℚ × Bool)
  | _, []             => []
  | t, (c, x) :: rest =>
      match Pool.step (exec app) t c x with
      | none   => []
      | some u =>
          if (t.calls c).arrivesOn = some socket then
            (c, x.o.now, WsThrottleGuard.isAccepted (counted x t.shared socket).1) ::
              received app socket u rest
          else received app socket u rest

/-- The limit and the window of `@WsThrottle` on the handler of a broadcast. -/
def broadcastThrottle : WsThrottleOptions := ⟨10, 60000⟩

variable {app : Http.App} {x : Http.Draw} {p p' : Process S P} {pc pc' : Pc S P} {socket : S} {dto : P}
  {t u : State S P C} {c d : C} {q rest : List (C × Http.Draw)}

/-- The counter of a socket. -/
def entryOn (p : Process S P) (socket : S) : Option ThrottleEntry :=
  WsThrottleGuard.entryOf (p.throttle socket) broadcastEvent

omit [DecidableEq S] in
theorem gatewayThrottle_broadcast : gatewayThrottle broadcastEvent = some broadcastThrottle := if_pos rfl

/-! ## One step

The counter of a socket is written by the throttle alone, and by nothing that the requests or the other
handlers do. -/

/-- **A message is counted** on its own socket, and goes on to its guard if it is accepted. -/
theorem socketStep_receive (h : socketStep app x p (.receive socket dto) = some (p', pc')) :
    p'.throttle = Function.update p.throttle socket (counted x p socket).2 ∧
      pc' = if WsThrottleGuard.isAccepted (counted x p socket).1 then .canActivate socket dto
        else .failed "Socket event \"notifications:broadcast\" rate limit exceeded" := by
  obtain ⟨⟨ns', pc''⟩, hstep, heq⟩ := Option.map_eq_some_iff.mp h
  cases heq
  refine ⟨rfl, ?_⟩
  simp only [Realtime.step] at hstep
  split at hstep
  · cases hstep
  · split at hstep
    · next haccepted =>
      cases hstep
      exact (if_pos haccepted).symm
    · next hrejected =>
      cases hstep
      exact (if_neg hrejected).symm

/-- The other steps of a socket leave the counters. -/
theorem socketStep_throttle (h : socketStep app x p pc = some (p', pc'))
    (hother : (Call.socket pc).arrivesOn = none) :
    p'.throttle = p.throttle := by
  cases pc with
  | receive socket dto => cases hother
  | connect | handleConnection | join | canActivate | broadcast | disconnect =>
      obtain ⟨r, -, heq⟩ := Option.map_eq_some_iff.mp h
      cases heq
      rfl
  | sendToUser | broadcastToAll =>
      cases h
      rfl
  | done | failed => cases h

/-- A handler counts nothing. -/
theorem Handling.throttle {casl : Casl} {call call' : Call S P} (h : Handling casl p call p' call') :
    p'.throttle = p.throttle ∧ call.arrivesOn = none := by
  cases h with
  | crashed | hit | miss | loaded | stored | refused | sent => exact ⟨rfl, rfl⟩

/-- What a step does to the counter of a socket. -/
theorem step_entryOn (h : Pool.step (exec app) t c x = some u) :
    entryOn u.shared socket =
      if (t.calls c).arrivesOn = some socket then
        some (FixedWindow.step 10 60000 (entryOn t.shared socket) (x.o.now : ℚ)).1
      else entryOn t.shared socket := by
  obtain ⟨p', call', hexec, rfl⟩ := Pool.step_cases h
  rcases exec_cases hexec with ⟨_, _, s', hcall, -, rfl, -⟩ | hhandling | ⟨pc, pc', hcall, -, hsocket, -⟩
  · rw [hcall]
    rfl
  · obtain ⟨hthrottle, hnone⟩ := hhandling.throttle
    rw [hnone, if_neg (by simp)]
    show WsThrottleGuard.entryOf (p'.throttle socket) broadcastEvent = _
    rw [hthrottle]
    rfl
  · rw [hcall]
    cases hon : (Call.socket pc).arrivesOn with
    | none =>
        rw [if_neg (by simp)]
        show WsThrottleGuard.entryOf (p'.throttle socket) broadcastEvent = _
        rw [socketStep_throttle hsocket hon]
        rfl
    | some k =>
        cases pc with
        | receive k' dto =>
            obtain rfl : k' = k := Option.some.inj hon
            have hthrottle := (socketStep_receive hsocket).1
            show WsThrottleGuard.entryOf (p'.throttle socket) broadcastEvent = _
            rw [hthrottle]
            by_cases hk : k' = socket
            · subst hk
              rw [if_pos rfl, Function.update_self, counted, gatewayThrottle_broadcast]
              exact (WsThrottleGuard.canActivate_step broadcastThrottle broadcastEvent x.o.now
                (t.shared.throttle k')).2
            · rw [if_neg (by simpa using hk), Function.update_of_ne (Ne.symm hk)]
              rfl
        | _ => cases hon

/-- A message that is counted goes on to its guard, or the call has failed. -/
theorem step_receive (h : Pool.step (exec app) t c x = some u)
    (hon : (t.calls c).arrivesOn = some socket) :
    ∃ dto : P, u.calls c = .socket (if WsThrottleGuard.isAccepted (counted x t.shared socket).1 then
      .canActivate socket dto
        else .failed "Socket event \"notifications:broadcast\" rate limit exceeded") := by
  obtain ⟨p', call', hexec, rfl⟩ := Pool.step_cases h
  rcases exec_cases hexec with ⟨_, _, _, hcall, -, -, -⟩ | hhandling | ⟨pc, pc', hcall, -, hsocket, rfl⟩
  · rw [hcall] at hon
    cases hon
  · rw [hhandling.throttle.2] at hon
    cases hon
  · rw [hcall] at hon
    cases pc with
    | receive k dto =>
        obtain rfl : k = socket := Option.some.inj hon
        refine ⟨dto, ?_⟩
        rw [← (socketStep_receive hsocket).2]
        exact Function.update_self ..
    | _ => cases hon

/-! ## Schedules

From single steps to a schedule: the decisions are those of a counter that is given the times of the
messages (`Lib.FixedWindow`). -/

/-- **The decisions on the messages of a socket** are those of one fixed-window counter. -/
theorem received_decisions (app : Http.App) (socket : S) (t : State S P C) (q : List (C × Http.Draw)) :
    (received app socket t q).map Prod.snd =
      decisions 10 60000 (entryOn t.shared socket)
        ((received app socket t q).map fun message => message.2.1) := by
  induction q generalizing t with
  | nil => rfl
  | cons move rest ih =>
      obtain ⟨c, x⟩ := move
      rw [received]
      cases hstep : Pool.step (exec app) t c x with
      | none => rfl
      | some u =>
          have hentry : entryOn u.shared socket = if (t.calls c).arrivesOn = some socket then
              some (FixedWindow.step 10 60000 (entryOn t.shared socket) (x.o.now : ℚ)).1
            else entryOn t.shared socket := step_entryOn hstep
          by_cases hon : (t.calls c).arrivesOn = some socket
          · rw [if_pos hon] at hentry
            have haccepted := (WsThrottleGuard.canActivate_step broadcastThrottle broadcastEvent x.o.now
              (t.shared.throttle socket)).1
            simp only [if_pos hon, List.map_cons]
            rw [ih u, hentry, decisions, counted, gatewayThrottle_broadcast, haccepted]
            rfl
          · rw [if_neg hon] at hentry
            simp only [if_neg hon]
            rw [ih u, hentry]

/-- The messages come in the order of time. -/
theorem received_sorted (app : Http.App) (socket : S) (t : State S P C)
    (hsorted : q.Pairwise fun move later => move.2.o.now ≤ later.2.o.now) :
    ((received app socket t q).map fun message => message.2.1).Pairwise (· ≤ ·) := by
  have hsub : ((received app socket t q).map fun message => message.2.1).Sublist
    (q.map fun move => (move.2.o.now : ℚ)) := by
    clear hsorted
    induction q generalizing t with
    | nil => exact .slnil
    | cons move rest ih =>
        obtain ⟨c, x⟩ := move
        rw [received]
        cases Pool.step (exec app) t c x with
        | none => exact List.nil_sublist _
        | some u =>
            by_cases hon : (t.calls c).arrivesOn = some socket
            · simp only [if_pos hon, List.map_cons]
              exact (ih u).cons_cons _
            · simp only [if_neg hon, List.map_cons]
              exact (ih u).cons _
  refine List.Pairwise.sublist hsub (List.pairwise_map.mpr (hsorted.imp fun hle => ?_))
  exact_mod_cast hle

/-- A call that is answered or has failed stays as it is. -/
theorem calls_of_halted (hrun : Pool.Steps (exec app) t u) {final : Call S P}
    (hfinal : t.calls c = final)
    (hend : final = .socket .done ∨ ∃ message, final = .socket (.failed message)) :
      u.calls c = final := by
  have hhalted := hrun.halted (F := fun call => call = .socket .done ∨
    ∃ message, call = .socket (.failed message))
    (c := c) (fun {c sh l a r} hexec hl => by
      rcases hl with rfl | ⟨message, rfl⟩
      · cases hexec
      · cases hexec) (hfinal ▸ hend)
  exact hhalted.trans hfinal

/-- A message that was broadcast was accepted. -/
theorem accepted_of_done (hrun : Pool.replay (exec app) Pool.anyStep t q = some u)
    (hdone : u.calls d = .socket .done)
    {now : ℚ} {passed : Bool} (hreceived : (d, now, passed) ∈ received app socket t q) :
      passed = true := by
  induction q generalizing t with
  | nil => exact absurd hreceived List.not_mem_nil
  | cons move rest ih =>
      obtain ⟨c, x⟩ := move
      simp only [Pool.replay, Pool.anyStep] at hrun
      obtain ⟨v, hstep, hrest⟩ := Option.bind_eq_some_iff.mp hrun
      rw [received, hstep] at hreceived
      by_cases hon : (t.calls c).arrivesOn = some socket
      · simp only [if_pos hon, List.mem_cons] at hreceived
        rcases hreceived with heq | hreceived
        · cases heq
          obtain ⟨dto, hcall⟩ := step_receive hstep hon
          by_contra hrejected
          rw [if_neg hrejected] at hcall
          -- a call that has failed stays so
          have hfailed := calls_of_halted (Pool.run_of_replay hrest) hcall (.inr ⟨_, rfl⟩)
          rw [hfailed] at hdone
          cases hdone
        · exact ih hrest hreceived
      · simp only [if_neg hon] at hreceived
        exact ih hrest hreceived

/-- Every message that was broadcast came to the throttle. -/
theorem received_of_done (hrun : Pool.replay (exec app) Pool.anyStep t q = some u)
    (hon : (t.calls d).arrivesOn = some socket)
    (hdone : u.calls d = .socket .done) : ∃ now, (d, now, true) ∈ received app socket t q := by
  induction q generalizing t with
  | nil =>
      obtain rfl : t = u := by simpa [Pool.replay] using hrun
      rw [hdone] at hon
      cases hon
  | cons move rest ih =>
      have hall := hrun
      obtain ⟨c, x⟩ := move
      simp only [Pool.replay, Pool.anyStep] at hrun
      obtain ⟨v, hstep, hrest⟩ := Option.bind_eq_some_iff.mp hrun
      by_cases hd : d = c
      · subst hd
        have hmem : (d, (x.o.now : ℚ), WsThrottleGuard.isAccepted (counted x t.shared socket).1) ∈
            received app socket t ((d, x) :: rest) := by
          rw [received, hstep]
          simp only [if_pos hon]
          exact List.mem_cons_self
        have haccepted := accepted_of_done hall hdone hmem
        rw [haccepted] at hmem
        exact ⟨x.o.now, hmem⟩
      · obtain ⟨now, hmem⟩ := ih hrest (by rw [Pool.step_calls_ne hstep hd]; exact hon)
        refine ⟨now, ?_⟩
        rw [received, hstep]
        by_cases hother : (t.calls c).arrivesOn = some socket
        · simp only [if_pos hother]
          exact List.mem_cons_of_mem _ hmem
        · simp only [if_neg hother]
          exact hmem

/-- **A socket is heard twenty times a minute at most.** In every schedule of requests and socket events
    in the order of time, each message of a socket that was broadcast has passed the throttle, and of
    those that did so within sixty seconds there are at most twenty, whatever else goes on in the
    process. -/
theorem broadcasts_are_rare {first : State S P C} (hfirst : Started first)
    (hrun : Pool.replay (exec app) Pool.anyStep first q = some t)
    (hsorted : q.Pairwise fun move later => move.2.o.now ≤ later.2.o.now) (socket : S) :
    (∀ c, (first.calls c).arrivesOn = some socket → t.calls c = .socket .done →
      ∃ now, (c, now, true) ∈ received app socket first q) ∧
    ∀ (start : ℚ) (sent : List C), sent.Nodup →
      (∀ c ∈ sent, t.calls c = .socket .done ∧
        ∃ now passed, (c, now, passed) ∈ received app socket first q ∧ start ≤ now ∧
          now ≤ start + 60000) →
      sent.length ≤ 20 := by
  refine ⟨fun c => received_of_done hrun, fun start sent hnodup hsent => ?_⟩
  let messages := received app socket first q
  let within (now : ℚ) : Bool := decide (start ≤ now ∧ now ≤ start + 60000)
  have hentry : entryOn first.shared socket = none := by
    rw [entryOn, hfirst.throttle]
    rfl
  have hdecisions : messages.map Prod.snd = decisions 10 60000 none
    (messages.map fun message => message.2.1) := by
    rw [← hentry]
    exact received_decisions app socket first q
  have hwidth : (0 : ℚ) < 60000 := by norm_num
  have hwindows := windows_spec hwidth (received_sorted app socket first hsorted)
  have hbound : (accepted (messages.map Prod.snd)).countP within ≤ 2 * 10 := by
    rw [hdecisions, accepted_decisions (by decide)]
    exact hwindows.toApart.countP_le 10 start
  -- each of the messages is an accepted one of the interval
  have hsubset : sent ⊆ (messages.filter fun message => message.2.2 && within message.2.1).map
    Prod.fst := by
    intro c hc
    obtain ⟨hdone, now, passed, hmem, hinterval⟩ := hsent c hc
    obtain rfl := accepted_of_done hrun hdone hmem
    refine List.mem_map.mpr ⟨(c, now, true), List.mem_filter.mpr ⟨hmem, ?_⟩, rfl⟩
    simpa [within] using hinterval
  have hlength : (messages.filter fun message => message.2.2 && within message.2.1).length =
      (accepted (messages.map Prod.snd)).countP within := by
    rw [accepted, List.filter_map, List.map_map, List.countP_map, List.countP_filter,
      List.countP_eq_length_filter]
    congr 2
    funext message
    exact Bool.and_comm ..
  calc sent.length ≤ ((messages.filter fun message => message.2.2 && within message.2.1).map
    Prod.fst).length :=
        (List.subperm_of_subset hnodup hsubset).length_le
    _ = (accepted (messages.map Prod.snd)).countP within := by rw [List.length_map, hlength]
    _ ≤ 2 * 10 := hbound

def Call.isDone : Call Nat String → Bool
  | .socket .done => true
  | _             => false

/-- The one message that the herald sends has come to the throttle at 7. -/
theorem broadcasts_are_rare_herald : ∃ t, Pool.replay (exec Http.toyApp) Pool.anyStep herald
      (heraldMoves ++ [(6, .at 7 uuidC)]) = some t ∧ t.calls 6 = .socket .done ∧
    (∃ now, (6, now, true) ∈ received Http.toyApp 0 herald (heraldMoves ++ [(6, .at 7 uuidC)])) ∧
    ([6] : List (Fin 7)).length ≤ 20 := by
  have hreplay : (Pool.replay (exec Http.toyApp) Pool.anyStep herald
    (heraldMoves ++ [(6, .at 7 uuidC)])).any
      (fun t => (t.calls 6).isDone) = true := by decide +kernel
  have hreceived : (6, 7, true) ∈ received Http.toyApp 0 herald (heraldMoves ++ [(6, .at 7 uuidC)]) := by
    decide +kernel
  obtain ⟨t, hrun, hdone⟩ := (Option.any_eq_true _ _).mp hreplay
  have hcall : t.calls 6 = .socket .done := by
    unfold Call.isDone at hdone
    split at hdone
    · assumption
    · cases hdone
  obtain ⟨hmessages, hrare⟩ := broadcasts_are_rare started_herald hrun (by decide +kernel) 0
  refine ⟨t, hrun, hcall, hmessages 6 rfl hcall, hrare 0 [6] (by decide) fun c hc => ?_⟩
  obtain rfl : c = 6 := List.mem_singleton.mp hc
  exact ⟨hcall, 7, true, hreceived, by norm_num, by norm_num⟩

end Process

end NestApp
