import NestApp.Shared.Metrics

/-!
# `Shared.ErrorRateMonitor` — the alert on the 5xx rate

`check` runs from the poll timer and from `GET /metrics`, between the requests that are recorded. It
reads the clock twice: for the window and for the cooldown. `now - lastAlertAt < alertCooldownMs` makes
it quiet, but for the escalation: the rate exceeds a *fixed* level, `errorRateThreshold + 0.2`. A rate
that stays above this level is escalated at every check, without climbing (`sustained_rate_repeats`).

Threshold, level and rate are doubles. The literal `0.2` and the sum are rounded, so a rate that is the
decimal sum may exceed the level: with a threshold of 0.7 a rate of 0.9 does.

`no_alert_spam`: these are the only repeated alerts. Two consecutive alerts are a cooldown apart, or
the rate has climbed, iff no check inside the cooldown measures more than the level and no more than
the last alert reported.
-/

namespace NestApp

open MetricsService Js

/-! ## The monitor

`check` compares three things: the number of samples, the rate against the threshold, and the time
since the last alert. Only the last two interact, through the escalation. -/

/-- The configuration, as the schema admits it: the threshold is a double between 0 and 1, the other
    values are positive integers. -/
structure MetricsConfig where
  errorRateThreshold : ℚ
  windowMs           : Nat
  minSamples         : Nat
  alertCooldownMs    : Nat
  threshold_double : nearest errorRateThreshold = errorRateThreshold
  threshold_nonneg : 0 ≤ errorRateThreshold
  threshold_le     : errorRateThreshold ≤ 1
  windowMs_pos     : 0 < windowMs
  minSamples_pos   : 0 < minSamples
  cooldown_pos     : 0 < alertCooldownMs

/-- An alert sent: when, and the rate it reports. -/
structure Alert where
  time    : Int
  rate    : ℚ
  samples : Nat
deriving DecidableEq

/-- `Math.round` -/
def mathRound (x : ℚ) : Int := ⌊x + 1 / 2⌋

/-- The text handed to `alertingService.notify`. Products and quotients are doubles, too. -/
def Alert.message (config : MetricsConfig) (alert : Alert) : String :=
  ":rotating_light: 5xx error rate " ++ toString (mathRound (nearest (alert.rate * 100))) ++ "% (" ++
    toString alert.samples ++ " requests) over the last " ++
    toString (mathRound (nearest ((config.windowMs : ℚ) / 1000))) ++ "s - threshold " ++
    toString (mathRound (nearest (config.errorRateThreshold * 100))) ++ "%. Check /health and /metrics."

namespace ErrorRateMonitor

/-- The field of the monitor, and the alerts sent so far, the newest first. -/
structure State where
  lastAlertAt : Int
  alerts      : List Alert

def initial : State := ⟨0, []⟩

/-- The rate beyond which an alert inside the cooldown is an escalation: `errorRateThreshold + 0.2`. The
    literal is the double nearest to a fifth, and the sum of the two doubles is rounded again. -/
def escalationLevel (config : MetricsConfig) : ℚ := nearest (config.errorRateThreshold + nearest (1 / 5))

/-- The level is not below the threshold: adding a positive double and rounding keeps the order. -/
theorem threshold_le_escalationLevel (config : MetricsConfig) :
    config.errorRateThreshold ≤ escalationLevel config := by
  have hfifth : ((0 : ℤ) : ℚ) ≤ nearest (1 / 5) := le_nearest (by norm_num) (by norm_num)
  rw [Int.cast_zero] at hfifth
  calc config.errorRateThreshold = nearest config.errorRateThreshold := config.threshold_double.symm
    _ ≤ escalationLevel config := nearest_mono (le_add_of_nonneg_right hfifth)

/-- With a threshold of 0.7 the rounded level is below the double nearest to 0.9. -/
example : nearest (nearest (7 / 10) + nearest (1 / 5)) < nearest (9 / 10) := by decide +kernel

/-- `check`: `measured` is what `recentErrorRate` returned, `now` the clock read after it. It alerts, or
    it leaves the state as it is. -/
def check (config : MetricsConfig) (measured : ErrorRate) (now : Int) (m : State) : State :=
  if measured.samples < config.minSamples then m
  else if measured.rate ≤ config.errorRateThreshold then m
  else
    let reArm : Int := config.alertCooldownMs * 2
    let withinCooldown : Bool := now - m.lastAlertAt < config.alertCooldownMs
    let escalated : Bool := now - m.lastAlertAt < reArm && escalationLevel config < measured.rate
    if withinCooldown && !escalated then m
    else { lastAlertAt := now, alerts := ⟨now, measured.rate, measured.samples⟩ :: m.alerts }

/-! ## Runs

Requests and checks in any order and at any times, also when the clock is set back. The monitor and the
metrics are one state, as a check measures what was recorded. -/

/-- A request is recorded, or a check runs, which reads the clock for the window and then for the
    cooldown. -/
inductive Event where
  | record (call : RecordCall)
  | check (measuredAt now : Int)

structure Service where
  metrics : MetricsService.State
  monitor : State

def Service.initial : Service := ⟨MetricsService.initial, ErrorRateMonitor.initial⟩

variable (config : MetricsConfig)

/-- What a check at time `measuredAt` measures. -/
def Service.measure (s : Service) (measuredAt : Int) : ErrorRate :=
  recentErrorRate s.metrics config.windowMs measuredAt

def step (s : Service) : Event → Service
  | .record call          => { s with metrics := MetricsService.record s.metrics call }
  | .check measuredAt now =>
      { s with monitor := check config (s.measure config measuredAt) now s.monitor }

def run (s : Service) (events : List Event) : Service := events.foldl (step config) s

/-- `P` holds of every check of the run, where it begins. -/
def EveryCheck (P : Service → Int → Int → Prop) : Service → List Event → Prop
  | _, []                             => True
  | s, .record call :: events         => EveryCheck P (step config s (.record call)) events
  | s, .check measuredAt now :: events =>
      P s measuredAt now ∧ EveryCheck P (step config s (.check measuredAt now)) events

/-! ## The law

What is asked of the alerts that were sent, and the kind of check that breaks it. -/

/-- The newer of two consecutive alerts is inside the cooldown of the older. -/
def InCooldown (newer older : Alert) : Prop := newer.time - older.time < config.alertCooldownMs

/-- No check measures a rate above the one the last alert reported. -/
def NeverClimbs : Service → List Event → Prop :=
  EveryCheck config fun s measuredAt _ => ∀ last, s.monitor.alerts.head? = some last →
    (s.measure config measuredAt).rate ≤ last.rate

/-- Consecutive alerts are a cooldown apart while the rate does not climb; an alert inside the cooldown
    needs a climb. Both are about neighbours in the list of alerts. -/
structure NoSpam (events : List Event) : Prop where
  spaced  : NeverClimbs config .initial events →
    (run config .initial events).monitor.alerts.IsChain fun newer older =>
      ¬ InCooldown config newer older
  climbed : (run config .initial events).monitor.alerts.IsChain fun newer older =>
    InCooldown config newer older → older.rate < newer.rate

/-- A check that alerts again: inside the cooldown it measures a rate above the escalation level that
    has not climbed. -/
def Repeats (s : Service) (measuredAt now : Int) : Prop :=
  config.minSamples ≤ (s.measure config measuredAt).samples ∧
    escalationLevel config < (s.measure config measuredAt).rate ∧
    ∃ last, s.monitor.alerts.head? = some last ∧ now - last.time < config.alertCooldownMs ∧
      (s.measure config measuredAt).rate ≤ last.rate

/-! ## What a check does

On enough samples, a check inside the cooldown alerts iff the rate is above the level, and one outside
iff it is above the threshold. -/

variable {config} {measured : ErrorRate} {now measuredAt : Int} {m : State} {s : Service}
  {events : List Event}

/-- The check alerts. -/
def Sends (config : MetricsConfig) (measured : ErrorRate) (now : Int) (m : State) : Prop :=
  config.minSamples ≤ measured.samples ∧ config.errorRateThreshold < measured.rate ∧
    (now - m.lastAlertAt < config.alertCooldownMs → escalationLevel config < measured.rate)

/-- The last alert is the one the cooldown counts from. -/
def Consistent (m : State) : Prop := ∀ last, m.alerts.head? = some last → m.lastAlertAt = last.time

theorem consistent_initial : Consistent initial := by
  intro last h
  cases h

/-- The re-arm time is twice the cooldown, so inside the cooldown only the level counts. -/
theorem check_sends (h : Sends config measured now m) :
    check config measured now m = ⟨now, ⟨now, measured.rate, measured.samples⟩ :: m.alerts⟩ := by
  obtain ⟨hsamples, hrate, hlevel⟩ := h
  unfold check
  rw [if_neg (not_lt.mpr hsamples), if_neg (not_le.mpr hrate)]
  refine if_neg ?_
  rw [Bool.and_eq_true, Bool.not_eq_true', decide_eq_true_eq]
  rintro ⟨hwithin, hquiet⟩
  rw [Bool.and_eq_false_iff, decide_eq_false_iff_not, decide_eq_false_iff_not] at hquiet
  rcases hquiet with hlate | hlow
  · have hpos := config.cooldown_pos
    omega
  · exact hlow (hlevel hwithin)

theorem check_quiet (h : ¬ Sends config measured now m) : check config measured now m = m := by
  unfold check
  by_cases hsamples : measured.samples < config.minSamples
  · rw [if_pos hsamples]
  by_cases hrate : measured.rate ≤ config.errorRateThreshold
  · rw [if_neg hsamples, if_pos hrate]
  rw [if_neg hsamples, if_neg hrate]
  refine if_pos ?_
  have hwithin : now - m.lastAlertAt < config.alertCooldownMs ∧
    ¬ escalationLevel config < measured.rate := by
    by_contra hno
    refine h ⟨not_lt.mp hsamples, not_le.mp hrate, fun hwithin => ?_⟩
    by_contra hlow
    exact hno ⟨hwithin, hlow⟩
  simp [hwithin.1, hwithin.2]

theorem consistent_check (h : Consistent m) : Consistent (check config measured now m) := by
  by_cases hsends : Sends config measured now m
  · rw [check_sends hsends]
    intro last hlast
    cases hlast
    rfl
  · rw [check_quiet hsends]
    exact h

/-- A check that repeats an alert is one that alerts. -/
theorem Repeats.sends (h : Repeats config s measuredAt now) :
    Sends config (s.measure config measuredAt) now s.monitor := by
  obtain ⟨hsamples, hlevel, -⟩ := h
  exact ⟨hsamples, (threshold_le_escalationLevel config).trans_lt hlevel, fun _ => hlevel⟩

/-! ## One step and runs

An alert is compared with the one before. A check adds one alert at most, so the law of the list is
kept or broken at its head. -/

/-- An alert inside the cooldown of the one before reports a higher rate. -/
def Climbed (config : MetricsConfig) (newer older : Alert) : Prop :=
  InCooldown config newer older → older.rate < newer.rate

/-- **Step.** A check keeps the law iff it does not repeat. -/
theorem climbed_check (hc : Consistent s.monitor) :
    (step config s (.check measuredAt now)).monitor.alerts.IsChain (Climbed config) ↔
      s.monitor.alerts.IsChain (Climbed config) ∧ ¬ Repeats config s measuredAt now := by
  show (check config (s.measure config measuredAt) now s.monitor).alerts.IsChain (Climbed config) ↔ _
  by_cases hsends : Sends config (s.measure config measuredAt) now s.monitor
  · rw [check_sends hsends]
    cases halerts : s.monitor.alerts with
    | nil =>
        have hno : ¬ Repeats config s measuredAt now := by
          rintro ⟨-, -, last, hlast, -⟩
          rw [halerts] at hlast
          cases hlast
        exact ⟨fun _ => ⟨.nil, hno⟩, fun _ => .singleton _⟩
    | cons last rest =>
        have hlast : s.monitor.alerts.head? = some last := by rw [halerts]; rfl
        rw [List.isChain_cons_cons, and_comm]
        refine and_congr_right fun _ => ?_
        rw [Climbed, InCooldown]
        constructor
        · rintro hclimb ⟨-, -, last', hlast', hcooldown, hle⟩
          obtain rfl := Option.some.inj (hlast.symm.trans hlast')
          exact absurd (hclimb hcooldown) (not_lt.mpr hle)
        · intro hno hcooldown
          by_contra hle
          have hlevel := hsends.2.2 (by rwa [hc last hlast])
          exact hno ⟨hsends.1, hlevel, last, hlast, hcooldown, not_lt.mp hle⟩
  · rw [check_quiet hsends]
    exact ⟨fun h => ⟨h, fun hrepeats => hsends hrepeats.sends⟩, fun h => h.1⟩

/-- **Run.** The law holds at the end iff it held at the beginning and no check repeats. -/
theorem climbed_run (hc : Consistent s.monitor) :
    (run config s events).monitor.alerts.IsChain (Climbed config) ↔
      s.monitor.alerts.IsChain (Climbed config) ∧
        EveryCheck config (fun s measuredAt now => ¬ Repeats config s measuredAt now) s events := by
  induction events generalizing s with
  | nil => exact (and_iff_left trivial).symm
  | cons event events ih =>
      cases event with
      | record call => exact ih (s := step config s (.record call)) hc
      | check measuredAt now =>
          have hrun := ih (s := step config s (.check measuredAt now)) (consistent_check hc)
          rw [climbed_check hc, and_assoc] at hrun
          exact hrun

/-- While the rate does not climb, no alert reports a higher rate than the one before. -/
theorem not_higher_run (h : NeverClimbs config s events)
    (hs : s.monitor.alerts.IsChain fun newer older => newer.rate ≤ older.rate) :
    (run config s events).monitor.alerts.IsChain fun newer older => newer.rate ≤ older.rate := by
  induction events generalizing s with
  | nil => exact hs
  | cons event events ih =>
      cases event with
      | record call => exact ih (s := step config s (.record call)) h hs
      | check measuredAt now =>
          refine ih (s := step config s (.check measuredAt now)) h.2 ?_
          show (check config (s.measure config measuredAt) now s.monitor).alerts.IsChain _
          by_cases hsends : Sends config (s.measure config measuredAt) now s.monitor
          · rw [check_sends hsends, List.isChain_cons]
            exact ⟨fun last hlast => h.1 last hlast, hs⟩
          · rw [check_quiet hsends]
            exact hs

end ErrorRateMonitor

open ErrorRateMonitor in
/-- **No alert is repeated** iff no check inside the cooldown measures a rate above the escalation level
    that has not climbed above the last alert. -/
theorem no_alert_spam (config : MetricsConfig) (events : List Event) :
    NoSpam config events ↔ EveryCheck config
      (fun s measuredAt now => ¬ Repeats config s measuredAt now) .initial events := by
  have hclimbed := @climbed_run config .initial events consistent_initial
  rw [and_iff_right .nil] at hclimbed
  rw [← hclimbed]
  refine ⟨fun h => h.climbed, fun h => ⟨fun hnever => ?_, h⟩⟩
  have hle := not_higher_run hnever .nil
  refine List.isChain_iff_forall_rel_of_append_cons_cons.mpr fun newer older l₁ l₂ hsplit hcooldown => ?_
  have hlaw := List.isChain_iff_forall_rel_of_append_cons_cons.mp h hsplit
  have hrate := List.isChain_iff_forall_rel_of_append_cons_cons.mp hle hsplit
  exact absurd (hlaw hcooldown) (not_lt.mpr hrate)

namespace ErrorRateMonitor

/-- A threshold of 10 %, a window of five minutes and a cooldown of one minute. -/
def toyConfig : MetricsConfig where
  errorRateThreshold := nearest (1 / 10)
  windowMs           := 300000
  minSamples         := 1
  alertCooldownMs    := 60000
  threshold_double   := nearest_nearest _
  threshold_nonneg   := (nearest_mem_unit (by norm_num) (by norm_num)).1
  threshold_le       := (nearest_mem_unit (by norm_num) (by norm_num)).2.1
  windowMs_pos       := by decide
  minSamples_pos     := by decide
  cooldown_pos       := by decide

/-- One request fails, and the rate is checked twice within a millisecond. -/
def sustained : List Event :=
  [.record ⟨"/users", 500, 1, 100000⟩, .check 100001 100001, .check 100002 100002]

end ErrorRateMonitor

open ErrorRateMonitor in
/-- **A sustained rate repeats**: at a constant 100 % the second check alerts again, although the rate
    never climbs. -/
theorem sustained_rate_repeats :
    NeverClimbs toyConfig .initial sustained ∧ ¬ NoSpam toyConfig sustained := by
  have halerts : (run toyConfig .initial sustained).monitor.alerts =
    [⟨100002, 1, 1⟩, ⟨100001, 1, 1⟩] := by decide +kernel
  refine ⟨?_, fun h => ?_⟩
  · have hfirst : (run toyConfig .initial (sustained.take 1)).monitor.alerts = [] := by decide +kernel
    have hsecond : (run toyConfig .initial (sustained.take 2)).monitor.alerts = [⟨100001, 1, 1⟩] := by
      decide +kernel
    have hrate : ((run toyConfig .initial (sustained.take 2)).measure toyConfig 100002).rate ≤ 1 := by
      decide +kernel
    refine ⟨fun last hlast => ?_, fun last hlast => ?_, trivial⟩
    · rw [show (step toyConfig Service.initial (.record ⟨"/users", 500, 1, 100000⟩)).monitor.alerts =
        [] from hfirst] at hlast
      cases hlast
    · obtain rfl : (⟨100001, 1, 1⟩ : Alert) = last :=
        Option.some.inj ((congrArg List.head? hsecond).symm.trans hlast)
      exact hrate
  · have hclimbed := h.climbed
    rw [halerts, List.isChain_cons_cons] at hclimbed
    have hcooldown : InCooldown toyConfig ⟨100002, 1, 1⟩ ⟨100001, 1, 1⟩ := by
      unfold InCooldown
      decide +kernel
    exact lt_irrefl _ (hclimbed.1 hcooldown)

end NestApp
