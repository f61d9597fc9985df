import Mathlib
import NestApp.Lib.Number
import NestApp.Lib.RingBuffer
import NestApp.Lib.Table

/-!
# `Shared.Metrics` — `MetricsService`

The in-memory request metrics: a bounded table of route counters and the sliding window of samples.
Times and durations are whole milliseconds, read off a clock that may be set back. Counters are natural
numbers. What the service computes besides counting is a double: the sum of the durations of a route,
the beginning of the window, and the error rate.

`error_window`: the window is the end of the call history, whatever the times and however often the
buffer has wrapped around. The error rate is the double nearest to the fraction of 5xx answers among
the samples of the window; a third is no double, so it is not always the fraction itself
(`third_is_rounded`).
-/

namespace NestApp

open Sql Js

/-- The counters of a route. -/
structure RouteMetric where
  /-- the key of the entry in the map -/
  route        : String
  count        : Nat
  errors       : Nat
  latencySumMs : Number
  latencyMinMs : Int
  latencyMaxMs : Int
deriving DecidableEq

instance : Keyed RouteMetric String := ⟨RouteMetric.route⟩

@[simp] theorem key_routeMetric (m : RouteMetric) : key m = m.route := rfl

/-- A sample of the ring: when, and with what status. -/
structure WindowSample where
  timestamp  : Int
  route      : String
  statusCode : Nat
deriving DecidableEq

/-- What `recentErrorRate` returns. The rate is a double between 0 and 1. -/
structure ErrorRate where
  rate    : ℚ
  samples : Nat

/-- A completed request, as the interceptor reports it at time `now`. -/
structure RecordCall where
  route      : String
  statusCode : Nat
  durationMs : Int
  now        : Int

def RecordCall.sample (call : RecordCall) : WindowSample := ⟨call.now, call.route, call.statusCode⟩

namespace MetricsService

def MAX_ROUTES : Nat := 500

def WINDOW_CAPACITY : Nat := 20000

/-- The fields of the service. The slots of the ring are `samples`, its `next` is `nextSampleIndex`. -/
structure State where
  routes        : Table RouteMetric
  samples       : RingBuffer WindowSample WINDOW_CAPACITY
  totalRequests : Nat

def initial : State where
  routes        := Table.empty
  samples       := .empty (by decide)
  totalRequests := 0

/-- Append while there is room, and overwrite the oldest slot afterwards. -/
def pushSample (s : State) (route : String) (statusCode : Nat) (now : Int) : State :=
  { s with samples := s.samples.push ⟨now, route, statusCode⟩ }

/-- The counters of a route after its first record. -/
def firstRecord (route : String) (statusCode : Nat) (durationMs : Int) : RouteMetric where
  route        := route
  count        := 1
  errors       := if 500 ≤ statusCode then 1 else 0
  latencySumMs := .finite durationMs
  latencyMinMs := durationMs
  latencyMaxMs := durationMs

/-- The counters after one more record. The sum of the durations is a double. -/
def addRecord (metric : RouteMetric) (statusCode : Nat) (durationMs : Int) : RouteMetric :=
  { metric with
    count        := metric.count + 1
    errors       := if 500 ≤ statusCode then metric.errors + 1 else metric.errors
    latencySumMs := metric.latencySumMs.add (.finite durationMs)
    latencyMinMs := min metric.latencyMinMs durationMs
    latencyMaxMs := max metric.latencyMaxMs durationMs }

/-- The route counters after a record: a full table drops a new route. -/
def recordRoute (routes : Table RouteMetric) (route : String) (statusCode : Nat)
    (durationMs : Int) : Table RouteMetric :=
  match routes.get route with
  | some metric => routes.put (addRecord metric statusCode durationMs)
  | none        =>
      if routes.rows.length < MAX_ROUTES then
        routes.put (firstRecord route statusCode durationMs) else routes

/-- One completed request: the total, the counters of its route, and a sample. -/
def record (s : State) (call : RecordCall) : State :=
  pushSample
    { s with
      totalRequests := s.totalRequests + 1
      routes        := recordRoute s.routes call.route call.statusCode call.durationMs }
    call.route call.statusCode call.now

/-- The loop of `recentErrorRate`: `total` and `errors` so far. -/
def countSample (cutoff : ℚ) (counts : Nat × Nat) (sample : WindowSample) : Nat × Nat :=
  if (sample.timestamp : ℚ) < cutoff then counts
  else (counts.1 + 1, if 500 ≤ sample.statusCode then counts.2 + 1 else counts.2)

/-- `errors / total`, a double. The division needs a divisor. -/
def quotient (errors total : Nat) (_ : total ≠ 0) : ℚ := nearest ((errors : ℚ) / total)

/-- The samples that are not older than the window, and the share of errors among them. `cutoff` is a
    double as well: the difference is rounded. Without samples the rate is 0, and nothing is divided. -/
def recentErrorRate (s : State) (windowMs : ℚ) (now : Int) : ErrorRate :=
  let cutoff := nearest (now - windowMs)
  let counts := s.samples.slots.foldl (countSample cutoff) (0, 0)
  { rate    := if h : counts.1 = 0 then 0 else quotient counts.2 counts.1 h
    samples := counts.1 }

/-! ## The window

The history of all calls stands behind the buffer: its slots are the last samples, in an order that
does not matter to a count. What `recentErrorRate` counts in its loop is therefore what one counts in
the history. -/

/-- The sample is not older than the double the window begins at. -/
def inWindow (windowMs : ℚ) (now : Int) (sample : WindowSample) : Bool :=
  nearest ((now : ℚ) - windowMs) ≤ sample.timestamp

/-- A 5xx answer. -/
def isError (sample : WindowSample) : Bool := 500 ≤ sample.statusCode

/-- The service after a sequence of calls. -/
def recordAll (calls : List RecordCall) : State := calls.foldl record initial

/-- The last samples recorded, as many as the window holds. -/
def lastSamples (calls : List RecordCall) : List WindowSample :=
  (calls.map RecordCall.sample).drop (calls.length - WINDOW_CAPACITY)

/-- How many of the last samples are not older than the window. -/
def windowTotal (calls : List RecordCall) (windowMs : ℚ) (now : Int) : Nat :=
  (lastSamples calls).countP fun sample => nearest ((now : ℚ) - windowMs) ≤ sample.timestamp

/-- How many of these are 5xx answers. -/
def windowErrors (calls : List RecordCall) (windowMs : ℚ) (now : Int) : Nat :=
  (lastSamples calls).countP fun sample =>
    decide (nearest ((now : ℚ) - windowMs) ≤ sample.timestamp) && decide (500 ≤ sample.statusCode)

variable {s : State} {calls : List RecordCall} {windowMs : ℚ} {now : Int}

@[simp] theorem record_samples (s : State) (call : RecordCall) :
    (record s call).samples = s.samples.push call.sample := rfl

theorem foldl_record_samples (s : State) (calls : List RecordCall) :
    (calls.foldl record s).samples = (calls.map RecordCall.sample).foldl RingBuffer.push s.samples := by
  induction calls generalizing s with
  | nil => rfl
  | cons call calls ih =>
      rw [List.foldl_cons, ih, record_samples]
      rfl

/-- **The buffer is the end of the history**, read from the slot overwritten next. -/
theorem holds_recordAll (calls : List RecordCall) :
    (recordAll calls).samples.Holds (calls.map RecordCall.sample) := by
  unfold recordAll
  rw [foldl_record_samples]
  have hempty : initial.samples.Holds [] := RingBuffer.holds_empty _
  have hrun := hempty.foldl (calls.map RecordCall.sample)
  rwa [List.nil_append] at hrun

theorem samples_perm (calls : List RecordCall) :
    (recordAll calls).samples.slots.Perm (lastSamples calls) := by
  have hperm := (holds_recordAll calls).perm
  rwa [List.length_map] at hperm

/-- The loop counts the samples of the window, and the errors among them. -/
theorem foldl_countSample (samples : List WindowSample) (total errors : Nat) :
    samples.foldl (countSample (nearest ((now : ℚ) - windowMs))) (total, errors) =
      (total + samples.countP (inWindow windowMs now),
        errors + samples.countP fun sample => inWindow windowMs now sample && isError sample) := by
  induction samples generalizing total errors with
  | nil => rfl
  | cons sample samples ih =>
      rw [List.foldl_cons, List.countP_cons, List.countP_cons, countSample]
      by_cases hold : (sample.timestamp : ℚ) < nearest (now - windowMs)
      · have hout : inWindow windowMs now sample = false := decide_eq_false (not_le.mpr hold)
        rw [if_pos hold, ih, hout]
        simp
      · have hin : inWindow windowMs now sample = true := decide_eq_true (not_lt.mp hold)
        rw [if_neg hold, ih, hin]
        by_cases herror : 500 ≤ sample.statusCode
        · simp [isError, herror]
          omega
        · simp [isError, herror]
          omega

/-- The fraction that a part is of the whole. -/
theorem div_mem_unit {errors total : Nat} (hle : errors ≤ total) :
    (0 : ℚ) ≤ errors / total ∧ (errors : ℚ) / total ≤ 1 := by
  have hle' : (errors : ℚ) ≤ total := by exact_mod_cast hle
  exact ⟨by positivity, div_le_one_of_le₀ hle' (Nat.cast_nonneg total)⟩

/-- Rounding does not leave the unit interval, and moves a rational of it by less than what 53 bits can
    tell. -/
theorem nearest_mem_unit {x : ℚ} (h0 : 0 ≤ x) (h1 : x ≤ 1) :
    0 ≤ nearest x ∧ nearest x ≤ 1 ∧ |nearest x - x| ≤ 1 / 2 ^ 53 := by
  have hlo : ((0 : ℤ) : ℚ) ≤ nearest x := le_nearest (by norm_num) (by exact_mod_cast h0)
  have hhi : nearest x ≤ (1 : ℤ) := nearest_le (by norm_num) (by exact_mod_cast h1)
  refine ⟨by exact_mod_cast hlo, by exact_mod_cast hhi, ?_⟩
  have hlog : Int.log 2 |x| ≤ 0 := by
    rcases h0.eq_or_lt with rfl | hpos
    · simp
    · rw [abs_of_pos hpos]
      have hone := Int.log_mono_right (b := 2) hpos h1
      rwa [Int.log_one_right] at hone
  have hexp : (2 : ℚ) ^ exponent x ≤ 2 ^ (-52 : ℤ) := by
    apply zpow_le_zpow_right₀ (by norm_num)
    unfold exponent
    omega
  calc |nearest x - x| ≤ 2 ^ exponent x / 2 := abs_nearest_sub_le x
    _ ≤ 2 ^ (-52 : ℤ) / 2 := div_le_div_of_nonneg_right hexp (by norm_num)
    _ = 1 / 2 ^ 53 := by norm_num

theorem recentErrorRate_samples (s : State) (windowMs : ℚ) (now : Int) :
    (recentErrorRate s windowMs now).samples = s.samples.slots.countP (inWindow windowMs now) := by
  simp only [recentErrorRate, foldl_countSample, Nat.zero_add]

/-- The rate of a window: the rounded fraction of the errors among its samples. Without samples both are
    zero. -/
theorem recentErrorRate_rate (s : State) (windowMs : ℚ) (now : Int) :
    (recentErrorRate s windowMs now).rate =
      nearest ((s.samples.slots.countP fun sample => inWindow windowMs now sample &&
        isError sample : ℚ) /
        s.samples.slots.countP (inWindow windowMs now)) := by
  simp only [recentErrorRate, foldl_countSample, Nat.zero_add]
  split
  · next hnone =>
    have hzero : nearest ((0 : ℤ) : ℚ) = (0 : ℤ) := nearest_intCast (by norm_num)
    rw [hnone, Nat.cast_zero, div_zero]
    exact_mod_cast hzero.symm
  · rfl

/-- The errors of a window are samples of it. -/
theorem countP_errors_le (samples : List WindowSample) :
    (samples.countP fun sample => inWindow windowMs now sample && isError sample) ≤ samples.countP
    (inWindow windowMs now) :=
  List.countP_mono_left fun sample _ h => by
    rw [Bool.and_eq_true] at h
    exact h.1

/-- Where the window begins at a whole millisecond, nothing is rounded. -/
theorem inWindow_of_whole {k : ℤ} (hwhole : windowMs = k) (hrange : |now - k| ≤ 2 ^ 53) :
    inWindow windowMs now = fun sample => decide (now - k ≤ sample.timestamp) := by
  have hcutoff : nearest ((now : ℚ) - windowMs) = ((now - k : ℤ) : ℚ) := by
    rw [hwhole, ← Int.cast_sub, nearest_intCast hrange]
  funext sample
  rw [inWindow, hcutoff]
  exact decide_eq_decide.mpr Int.cast_le

end MetricsService

open MetricsService in
/-- **The error window is a faithful ring buffer.** Its slots are the last samples recorded. The error
    rate counts those that are not older than the window, and is their fraction of 5xx answers, rounded
    to a double: between 0 and 1, zero for an empty window, and off by at most `2 ^ -53`. A window of
    whole milliseconds is counted exactly. -/
theorem error_window (calls : List RecordCall) (windowMs : ℚ) (now : Int) :
    ((recordAll calls).samples.slots : Multiset WindowSample) = lastSamples calls ∧
      (lastSamples calls).length = min calls.length WINDOW_CAPACITY ∧
      (recentErrorRate (recordAll calls) windowMs now).samples = windowTotal calls windowMs now ∧
      (∀ k : ℤ, windowMs = k → |now - k| ≤ 2 ^ 53 →
        windowTotal calls windowMs now = (lastSamples calls).countP fun sample =>
          now - k ≤ sample.timestamp) ∧
      (recentErrorRate (recordAll calls) windowMs now).rate =
        nearest ((windowErrors calls windowMs now : ℚ) / windowTotal calls windowMs now) ∧
      (windowTotal calls windowMs now = 0 → (recentErrorRate (recordAll calls) windowMs now).rate = 0) ∧
      |(recentErrorRate (recordAll calls) windowMs now).rate -
        (windowErrors calls windowMs now : ℚ) / windowTotal calls windowMs now| ≤ 1 / 2 ^ 53 ∧
      0 ≤ (recentErrorRate (recordAll calls) windowMs now).rate ∧
      (recentErrorRate (recordAll calls) windowMs now).rate ≤ 1 := by
  have hperm := samples_perm calls
  have hrate : (recentErrorRate (recordAll calls) windowMs now).rate =
      nearest ((windowErrors calls windowMs now : ℚ) / windowTotal calls windowMs now) := by
    rw [recentErrorRate_rate, hperm.countP_eq, hperm.countP_eq]
    rfl
  have hle : windowErrors calls windowMs now ≤ windowTotal calls windowMs now :=
    countP_errors_le (lastSamples calls)
  obtain ⟨hnonneg, hone⟩ := div_mem_unit hle
  obtain ⟨hlo, hhi, hoff⟩ := nearest_mem_unit hnonneg hone
  rw [hrate]
  refine ⟨Multiset.coe_eq_coe.mpr hperm, ?_, ?_, fun k hwhole hrange => ?_, rfl,
    fun hnone => ?_, hoff, hlo, hhi⟩
  · rw [lastSamples, List.length_drop, List.length_map]
    omega
  · rw [recentErrorRate_samples, hperm.countP_eq]
    rfl
  · exact congrArg (List.countP · (lastSamples calls)) (inWindow_of_whole hwhole hrange)
  · have hzero : nearest ((0 : ℤ) : ℚ) = (0 : ℤ) := nearest_intCast (by norm_num)
    rw [hnone, Nat.cast_zero, div_zero]
    exact_mod_cast hzero

namespace MetricsService

/-- Three requests, of which one fails. -/
def threeCalls : List RecordCall :=
  [⟨"/users", 500, 1, 10⟩, ⟨"/users", 200, 1, 20⟩, ⟨"/users", 200, 1, 30⟩]

end MetricsService

open MetricsService in
/-- **A third is rounded**: one of three requests failed, and the rate is not the exact fraction. -/
theorem third_is_rounded :
    (recentErrorRate (recordAll threeCalls) 60000 40).samples = 3 ∧
      (lastSamples threeCalls).countP isError = 1 ∧
      (recentErrorRate (recordAll threeCalls) 60000 40).rate ≠ 1 / 3 := by
  decide +kernel

end NestApp
