import NestApp.Shared.Metrics

/-!
# `Shared.RouteTable` — the route counters, and `MetricsService.snapshot`

The table is a fold over the calls: it tracks the first `MAX_ROUTES` distinct routes for good (nothing
is evicted), and the row of a route summarizes all its records, from the first one on (`Summarizes`).

The sum of the durations is a double. It is the exact sum, and the average lies between the minimum and
the maximum, as long as the sums stay in the range of the exact integers (`SumsExact`); `route_table`
proves this for every history, and `five_long_requests` leaves the range.
-/

namespace NestApp

open Sql Js

/-- An entry of `perRoute`. -/
structure RouteSnapshot where
  route  : String
  count  : Nat
  errors : Nat
  avgMs  : Number
  minMs  : Int
  maxMs  : Int
deriving DecidableEq

/-- `sampledSince` and `sampledAt` are the times that the texts stand for. -/
structure SnapshotWindow where
  windowMs     : ℚ
  sampledSince : Int
  sampledAt    : Int
  errorRate    : Number
  samples      : Nat

/-- What `GET /metrics` answers. -/
structure MetricsSnapshot where
  totalRequests : Nat
  trackedRoutes : Nat
  window        : SnapshotWindow
  perRoute      : List RouteSnapshot

namespace MetricsService

/-- The entry of one route, with its average. -/
def routeSnapshot (m : RouteMetric) : RouteSnapshot where
  route  := m.route
  count  := m.count
  errors := m.errors
  avgMs  := if m.count = 0 then .finite 0 else (m.latencySumMs.div m.count).round
  minMs  := m.latencyMinMs
  maxMs  := m.latencyMaxMs

/-- The snapshot, and the fields it leaves behind. `windowStartMs` is when the service was made; the
    clock is read twice, for the default of `now` and in `recentErrorRate`. -/
def snapshot (s : State) (windowStartMs : Int) (windowMs : ℚ) (now clock : Int) :
    MetricsSnapshot × State :=
  let recent   := recentErrorRate s windowMs clock
  let perRoute := (s.routes.rows.map routeSnapshot).mergeSort fun a b => decide (b.count ≤ a.count)
  ({ totalRequests := s.totalRequests
     trackedRoutes := perRoute.length
     window        :=
       { windowMs     := windowMs
         sampledSince := windowStartMs
         sampledAt    := now
         errorRate    := ((Number.finite recent.rate).mul (.finite 1000)).round.div 1000
         samples      := recent.samples }
     perRoute      := perRoute }, s)

/-! ## What a row stands for

A row is compared with the records of its route in the whole history, not with the ones the table
happened to see: that no record is lost is part of the property. -/

/-- The first distinct routes, in the order of their first records. -/
def trackedRoutes (calls : List RecordCall) : List String :=
  (calls.map RecordCall.route).eraseDups.take MAX_ROUTES

/-- The records of a route. -/
def recordsOf (route : String) (calls : List RecordCall) : List RecordCall :=
  calls.filter fun call => call.route = route

/-- The route was recorded, and is not tracked. Its records count in the total only. -/
def Dropped (route : String) (calls : List RecordCall) : Prop :=
  route ∈ calls.map RecordCall.route ∧ route ∉ trackedRoutes calls

/-- Every sum on the way is an exact integer. -/
def SumsExact (durations : List Int) : Prop := ∀ first, first <+: durations → |first.sum| ≤ 2 ^ 53

def durations (records : List RecordCall) : List Int := records.map RecordCall.durationMs

/-- The row summarizes the records: how many there are, how many of them are errors, the sum of the
    durations, and the least and the greatest one. -/
structure Summarizes (m : RouteMetric) (records : List RecordCall) : Prop where
  count  : m.count = records.length
  errors : m.errors = records.countP fun call => isError call.sample
  least  : IsLeast {d | d ∈ durations records} m.latencyMinMs
  most   : IsGreatest {d | d ∈ durations records} m.latencyMaxMs
  sum    : SumsExact (durations records) → m.latencySumMs = .finite ((durations records).sum : ℤ)

/-- The history behind the fields of the service: the routes that are tracked, each with the records its
    row summarizes, and the number of all calls. -/
structure Tracks (s : State) (calls : List RecordCall) : Prop where
  routes     : s.routes.rows.map key = trackedRoutes calls
  summarizes : ∀ m ∈ s.routes.rows, Summarizes m (recordsOf m.route calls)
  total      : s.totalRequests = calls.length

section Rows

variable {m : RouteMetric} {records calls : List RecordCall} {call : RecordCall}
  {ds : List Int} {d : Int} {route : String}

theorem SumsExact.init (h : SumsExact (ds ++ [d])) : SumsExact ds := fun first hfirst =>
  h first (hfirst.trans (List.prefix_append ds [d]))

theorem SumsExact.sum_le (h : SumsExact ds) : |ds.sum| ≤ 2 ^ 53 := h ds ⟨[], ds.append_nil⟩

@[simp] theorem durations_append (records : List RecordCall) (call : RecordCall) :
    durations (records ++ [call]) = durations records ++ [call.durationMs] := by
  rw [durations, List.map_append]
  rfl

/-- The first record of a route. -/
theorem summarizes_firstRecord (call : RecordCall) :
    Summarizes (firstRecord call.route call.statusCode call.durationMs) [call] where
  count  := rfl
  errors := by
    rw [List.countP_singleton]
    by_cases herror : 500 ≤ call.statusCode
    · simp [firstRecord, isError, RecordCall.sample, herror]
    · simp [firstRecord, isError, RecordCall.sample, herror]
  least  := by simp [firstRecord, durations]
  most   := by simp [firstRecord, durations]
  sum    := by simp [firstRecord, durations]

/-- **Step lemma**: one more record of the route. -/
theorem Summarizes.addRecord (h : Summarizes m records) (call : RecordCall) :
    Summarizes (addRecord m call.statusCode call.durationMs) (records ++ [call]) where
  count := by
    rw [List.length_append, ← h.count]
    rfl
  errors := by
    rw [List.countP_append, ← h.errors, List.countP_singleton]
    by_cases herror : 500 ≤ call.statusCode
    · simp [MetricsService.addRecord, isError, RecordCall.sample, herror]
    · simp [MetricsService.addRecord, isError, RecordCall.sample, herror]
  least := by
    have hset : {d | d ∈ durations (records ++ [call])} = insert call.durationMs
      {d | d ∈ durations records} := by
      ext d
      simp [or_comm]
    rw [hset]
    have hmin := h.least.insert call.durationMs
    rwa [min_comm] at hmin
  most := by
    have hset : {d | d ∈ durations (records ++ [call])} = insert call.durationMs
      {d | d ∈ durations records} := by
      ext d
      simp [or_comm]
    rw [hset]
    have hmax := h.most.insert call.durationMs
    rwa [max_comm] at hmax
  sum hexact := by
    rw [durations_append] at hexact ⊢
    have hsum := hexact.sum_le
    rw [List.sum_append, List.sum_singleton] at hsum ⊢
    have hrow : (MetricsService.addRecord m call.statusCode call.durationMs).latencySumMs =
        m.latencySumMs.add (.finite call.durationMs) := rfl
    rw [hrow, h.sum hexact.init, ← Number.ofRat_intCast hsum]
    push_cast
    rfl

/-! ## The history

One call at a time. Three cases: the route is tracked, there is room for it, or it is dropped; and a
route that is dropped once is dropped for good, as the table never gets room again. -/

theorem recordsOf_append_self (calls : List RecordCall) (call : RecordCall) :
    recordsOf call.route (calls ++ [call]) = recordsOf call.route calls ++ [call] := by
  simp [recordsOf]

theorem recordsOf_append_other (h : call.route ≠ route) :
    recordsOf route (calls ++ [call]) = recordsOf route calls := by
  simp [recordsOf, h]

theorem recordsOf_eq_nil (h : route ∉ calls.map RecordCall.route) : recordsOf route calls = [] := by
  rw [recordsOf, List.filter_eq_nil_iff]
  intro call hcall he
  exact h (List.mem_map.mpr ⟨call, hcall, by simpa using he⟩)

theorem mem_of_tracked (h : route ∈ trackedRoutes calls) : route ∈ calls.map RecordCall.route :=
  List.mem_eraseDups.mp (List.mem_of_mem_take h)

/-- One more route at the end: it is new, or it was there before. -/
theorem eraseDups_append_singleton (routes : List String) (route : String) :
    (routes ++ [route]).eraseDups = if route ∈ routes then routes.eraseDups
      else routes.eraseDups ++ [route] := by
  rw [List.eraseDups_append, List.removeAll, List.filter_singleton]
  by_cases h : route ∈ routes
  · simp [h]
  · simp [h, List.eraseDups_cons]

theorem trackedRoutes_seen (h : call.route ∈ calls.map RecordCall.route) :
    trackedRoutes (calls ++ [call]) = trackedRoutes calls := by
  rw [trackedRoutes, List.map_append, List.map_singleton, eraseDups_append_singleton, if_pos h]
  rfl

/-- A table with room has seen no other routes. -/
theorem mem_tracked_of_room (hroom : (trackedRoutes calls).length < MAX_ROUTES)
    (h : route ∈ calls.map RecordCall.route) :
    route ∈ trackedRoutes calls := by
  unfold trackedRoutes at hroom ⊢
  rw [List.length_take] at hroom
  rw [List.take_of_length_le (by omega)]
  exact List.mem_eraseDups.mpr h

theorem trackedRoutes_room (hroom : (trackedRoutes calls).length < MAX_ROUTES)
    (h : call.route ∉ calls.map RecordCall.route) :
    trackedRoutes (calls ++ [call]) = trackedRoutes calls ++ [call.route] := by
  unfold trackedRoutes at hroom ⊢
  rw [List.length_take] at hroom
  have hlen : (calls.map RecordCall.route).eraseDups.length < MAX_ROUTES := by omega
  rw [List.map_append, List.map_singleton, eraseDups_append_singleton, if_neg h,
    List.take_of_length_le hlen.le,
    List.take_of_length_le]
  rw [List.length_append, List.length_singleton]
  exact hlen

/-- A full table keeps its routes. -/
theorem trackedRoutes_full (hfull : ¬ (trackedRoutes calls).length < MAX_ROUTES) :
    trackedRoutes (calls ++ [call]) = trackedRoutes calls := by
  by_cases h : call.route ∈ calls.map RecordCall.route
  · exact trackedRoutes_seen h
  · unfold trackedRoutes at hfull ⊢
    rw [List.length_take] at hfull
    rw [List.map_append, List.map_singleton, eraseDups_append_singleton, if_neg h,
      List.take_append_of_le_length (by omega)]

end Rows

theorem tracks_initial : Tracks initial [] where
  routes     := rfl
  summarizes := fun _ h => absurd h List.not_mem_nil
  total      := rfl

section Step

variable {s : State} {calls : List RecordCall} {call : RecordCall} {m : RouteMetric} {route : String}

@[simp] theorem record_routes (s : State) (call : RecordCall) :
    (record s call).routes = recordRoute s.routes call.route call.statusCode call.durationMs := rfl

@[simp] theorem record_totalRequests (s : State) (call : RecordCall) :
    (record s call).totalRequests = s.totalRequests + 1 :=
  rfl

theorem Tracks.get_isSome (h : Tracks s calls) :
    (s.routes.get route).isSome ↔ route ∈ trackedRoutes calls := by
  rw [← Table.mem_map_key, h.routes]

/-- The table is as long as the list of its routes. -/
theorem Tracks.length_rows (h : Tracks s calls) :
    s.routes.rows.length = (trackedRoutes calls).length := by
  rw [← h.routes, List.length_map]

/-- The rows of other routes have no new record. -/
theorem Tracks.other (h : Tracks s calls) (hm : m ∈ s.routes.rows) (hroute : call.route ≠ m.route) :
    Summarizes m (recordsOf m.route (calls ++ [call])) := by
  rw [recordsOf_append_other hroute]
  exact h.summarizes m hm

/-- A record of a tracked route changes its row. -/
theorem Tracks.record_tracked (h : Tracks s calls) (hget : s.routes.get call.route = some m) :
    Tracks (record s call) (calls ++ [call]) := by
  have htracked : call.route ∈ trackedRoutes calls := h.get_isSome.mp (by rw [hget]; rfl)
  have hkey : m.route = call.route := Table.get_key hget
  have hput : (record s call).routes = s.routes.put (addRecord m call.statusCode call.durationMs) := by
    rw [record_routes, recordRoute, hget]
  refine ⟨?_, ?_, ?_⟩
  · have hold : s.routes.get (key (addRecord m call.statusCode call.durationMs)) = some m := by
      rw [← hget, ← hkey]
      rfl
    rw [hput, Table.rows_put_old hold, List.map_map,
      trackedRoutes_seen (mem_of_tracked htracked), ← h.routes]
    exact List.map_congr_left fun x _ => Table.key_swap _ x
  · intro m' hm'
    rw [hput] at hm'
    rcases Table.mem_put.mp hm' with rfl | ⟨hm', hne⟩
    · -- the row of the record
      have hroute : (addRecord m call.statusCode call.durationMs).route = call.route := hkey
      rw [hroute, recordsOf_append_self]
      have hsum := h.summarizes m (Table.get_mem hget)
      rw [hkey] at hsum
      exact hsum.addRecord call
    · exact h.other hm' fun he => hne (he.symm.trans hkey.symm)
  · rw [record_totalRequests, h.total, List.length_append]
    rfl

/-- A record of another route, while there is room, adds a row. -/
theorem Tracks.record_room (h : Tracks s calls) (hget : s.routes.get call.route = none)
    (hroom : s.routes.rows.length < MAX_ROUTES) : Tracks (record s call) (calls ++ [call]) := by
  have hroom' := hroom
  rw [h.length_rows] at hroom'
  have hnew : call.route ∉ calls.map RecordCall.route := by
    intro hmem
    have hsome := h.get_isSome.mpr (mem_tracked_of_room hroom' hmem)
    rw [hget] at hsome
    cases hsome
  have hput : (record s call).routes = s.routes.put
    (firstRecord call.route call.statusCode call.durationMs) := by
    rw [record_routes, recordRoute, hget]
    exact if_pos hroom
  refine ⟨?_, ?_, ?_⟩
  · have hnone : s.routes.get (key (firstRecord call.route call.statusCode call.durationMs)) = none :=
      hget
    rw [hput, Table.rows_put_new hnone, List.map_append, h.routes, trackedRoutes_room hroom' hnew]
    rfl
  · intro m' hm'
    rw [hput] at hm'
    rcases Table.mem_put.mp hm' with rfl | ⟨hm', hne⟩
    · have hroute : (firstRecord call.route call.statusCode call.durationMs).route = call.route := rfl
      rw [hroute, recordsOf_append_self, recordsOf_eq_nil hnew]
      exact summarizes_firstRecord call
    · exact h.other hm' fun he => hne he.symm
  · rw [record_totalRequests, h.total, List.length_append]
    rfl

/-- A record of another route, when the table is full, is dropped. -/
theorem Tracks.record_full (h : Tracks s calls) (hget : s.routes.get call.route = none)
    (hfull : ¬ s.routes.rows.length < MAX_ROUTES) : Tracks (record s call) (calls ++ [call]) := by
  have hsame : (record s call).routes = s.routes := by
    rw [record_routes, recordRoute, hget]
    exact if_neg hfull
  rw [h.length_rows] at hfull
  refine ⟨?_, ?_, ?_⟩
  · rw [hsame, h.routes, trackedRoutes_full hfull]
  · intro m' hm'
    rw [hsame] at hm'
    refine h.other hm' fun he => ?_
    exact Table.get_eq_none.mp hget m' hm' he.symm
  · rw [record_totalRequests, h.total, List.length_append]
    rfl

/-- **Step lemma**: `record` keeps the table a fold of the history. -/
theorem Tracks.record (h : Tracks s calls) (call : RecordCall) :
    Tracks (record s call) (calls ++ [call]) := by
  cases hget : s.routes.get call.route with
  | some m => exact h.record_tracked hget
  | none =>
      by_cases hroom : s.routes.rows.length < MAX_ROUTES
      · exact h.record_room hget hroom
      · exact h.record_full hget hroom

end Step

/-- **Run lemma.** After any list of records, every row of the table stands for the records of its
    route. -/
theorem tracks_recordAll (calls : List RecordCall) : Tracks (recordAll calls) calls := by
  induction calls using List.reverseRecOn with
  | nil => exact tracks_initial
  | append_singleton calls call ih =>
      rw [recordAll, List.foldl_concat]
      exact ih.record call

/-- The drop is for good. -/
theorem Dropped.append {route : String} {calls : List RecordCall} (h : Dropped route calls)
    (later : List RecordCall) :
    Dropped route (calls ++ later) := by
  induction later using List.reverseRecOn with
  | nil => rwa [List.append_nil]
  | append_singleton later call ih =>
      obtain ⟨hseen, hout⟩ := ih
      rw [← List.append_assoc]
      refine ⟨?_, ?_⟩
      · rw [List.map_append]
        exact List.mem_append_left _ hseen
      · -- a table with room would track it
        have hfull : ¬ (trackedRoutes (calls ++ later)).length < MAX_ROUTES := fun hroom =>
          hout (mem_tracked_of_room hroom hseen)
        rwa [trackedRoutes_full hfull]

/-! ## The average

`Math.round` of the quotient of two doubles. While the sum is exact the quotient lies between the
minimum and the maximum, and rounding to an integer does not leave an interval with integral ends. -/

section Average

variable {m : RouteMetric} {records : List RecordCall}

theorem Summarizes.count_pos (h : Summarizes m records) : 0 < m.count := by
  rw [h.count]
  obtain ⟨call, hcall, -⟩ := List.mem_map.mp h.least.1
  exact List.length_pos_of_mem hcall

/-- The sum lies between as many minima and as many maxima. -/
theorem Summarizes.sum_bounds (h : Summarizes m records) :
    m.count * m.latencyMinMs ≤ (durations records).sum ∧
      (durations records).sum ≤ m.count * m.latencyMaxMs := by
  have hlen : (durations records).length = m.count := by rw [durations, List.length_map, h.count]
  have hmin := List.card_nsmul_le_sum (durations records) m.latencyMinMs fun d hd => h.least.2 hd
  have hmax := List.sum_le_card_nsmul (durations records) m.latencyMaxMs fun d hd => h.most.2 hd
  rw [hlen, nsmul_eq_mul] at hmin hmax
  exact ⟨hmin, hmax⟩

theorem Summarizes.errors_le (h : Summarizes m records) : m.errors ≤ m.count := by
  rw [h.errors, h.count]
  exact List.countP_le_length

/-- **The average**, rounded, lies between the minimum and the maximum. -/
theorem Summarizes.avgMs (h : Summarizes m records) (hexact : SumsExact (durations records)) :
    ∃ avg : ℤ, (routeSnapshot m).avgMs = .finite avg ∧ m.latencyMinMs ≤ avg ∧ avg ≤ m.latencyMaxMs := by
  have hcount := h.count_pos
  have hpos : (0 : ℚ) < m.count := by exact_mod_cast hcount
  obtain ⟨hmin, hmax⟩ := h.sum_bounds
  have havg : (routeSnapshot m).avgMs = (Number.ofRat ((durations records).sum / m.count)).round := by
    have hne : m.count ≠ 0 := hcount.ne'
    simp only [routeSnapshot, if_neg hne, h.sum hexact]
    rfl
  rw [havg]
  apply Number.round_ofRat
  · -- a divisor of at least one makes nothing larger
    have hone : (1 : ℚ) ≤ m.count := by exact_mod_cast hcount
    have hsum : |((durations records).sum : ℚ)| ≤ 2 ^ 53 := by exact_mod_cast hexact.sum_le
    rw [abs_div, Nat.abs_cast]
    exact (div_le_self (abs_nonneg _) hone).trans hsum
  · rw [le_div_iff₀ hpos, mul_comm]
    exact_mod_cast hmin
  · rw [div_le_iff₀ hpos, mul_comm]
    exact_mod_cast hmax

end Average

/-! ## The snapshot

The rows, sorted by their counts. What the entries are does not depend on the order, so the property
speaks about each of them. -/

section Snapshot

variable {s : State} {calls : List RecordCall} {windowStartMs now clock : Int} {windowMs : ℚ}
  {r : RouteSnapshot}

theorem perRoute_perm (s : State) (windowStartMs : Int) (windowMs : ℚ) (now clock : Int) :
    (snapshot s windowStartMs windowMs now clock).1.perRoute.Perm (s.routes.rows.map routeSnapshot) :=
  List.mergeSort_perm _ _

/-- An entry of the snapshot is the row of a route. -/
theorem exists_row (h : r ∈ (snapshot s windowStartMs windowMs now clock).1.perRoute) :
    ∃ m ∈ s.routes.rows, routeSnapshot m = r :=
  List.mem_map.mp ((perRoute_perm s windowStartMs windowMs now clock).mem_iff.mp h)

theorem perRoute_sorted (s : State) (windowStartMs : Int) (windowMs : ℚ) (now clock : Int) :
    (snapshot s windowStartMs windowMs now clock).1.perRoute.Pairwise fun a b => b.count ≤ a.count := by
  have hsorted := @List.pairwise_mergeSort _ (fun a b : RouteSnapshot => decide (b.count ≤ a.count))
    (fun a b c hab hbc => by
      rw [decide_eq_true_eq] at hab hbc ⊢
      exact hbc.trans hab)
    (fun a b => by
      rw [Bool.or_eq_true, decide_eq_true_eq, decide_eq_true_eq]
      exact (le_total a.count b.count).symm)
    (s.routes.rows.map routeSnapshot)
  exact hsorted.imp fun h => decide_eq_true_eq.mp h

/-- Every tracked route, once. -/
theorem Tracks.perRoute_routes (h : Tracks s calls) (windowStartMs : Int) (windowMs : ℚ)
    (now clock : Int) :
    ((snapshot s windowStartMs windowMs now clock).1.perRoute.map RouteSnapshot.route).Perm
    (trackedRoutes calls) := by
  have hperm := (perRoute_perm s windowStartMs windowMs now clock).map RouteSnapshot.route
  rw [List.map_map] at hperm
  rwa [← h.routes]

theorem Tracks.nodup (h : Tracks s calls) : (trackedRoutes calls).Nodup := by
  rw [← h.routes]
  exact s.routes.nodup

end Snapshot

end MetricsService

open MetricsService

/-- **The route table is an exact bounded fold**: the first 500 distinct routes are tracked for good,
    each row summarizes all records of its route, and the rest shows in the total only. -/
theorem route_table (calls : List RecordCall) (windowStartMs : Int) (windowMs : ℚ) (now clock : Int) :
    (recordAll calls).routes.rows.map key = (calls.map RecordCall.route).eraseDups.take MAX_ROUTES ∧
      (∀ m ∈ (recordAll calls).routes.rows, Summarizes m (recordsOf m.route calls)) ∧
      (recordAll calls).totalRequests = calls.length ∧
      (∀ route later, Dropped route calls → (recordAll (calls ++ later)).routes.get route = none) ∧
      (snapshot (recordAll calls) windowStartMs windowMs now clock).2 = recordAll calls ∧
      ((snapshot (recordAll calls) windowStartMs windowMs now clock).1.perRoute.map
        RouteSnapshot.route).Perm
        (trackedRoutes calls) ∧
      (trackedRoutes calls).Nodup ∧
      (snapshot (recordAll calls) windowStartMs windowMs now clock).1.perRoute.Pairwise
        (fun a b => b.count ≤ a.count) ∧
      ∀ r ∈ (snapshot (recordAll calls) windowStartMs windowMs now clock).1.perRoute,
        r.errors ≤ r.count ∧
        (SumsExact (durations (recordsOf r.route calls)) →
          ∃ avg : ℤ, r.avgMs = .finite avg ∧ r.minMs ≤ avg ∧ avg ≤ r.maxMs) := by
  have htracks := tracks_recordAll calls
  refine ⟨htracks.routes, htracks.summarizes, htracks.total, ?_, rfl, htracks.perRoute_routes _ _ _ _,
    htracks.nodup,
    perRoute_sorted _ _ _ _ _, ?_⟩
  · intro route later hdropped
    rw [← Option.not_isSome_iff_eq_none, (tracks_recordAll _).get_isSome]
    exact (hdropped.append later).2
  · intro r hr
    obtain ⟨m, hm, rfl⟩ := exists_row hr
    have hsummary := htracks.summarizes m hm
    exact ⟨hsummary.errors_le, hsummary.avgMs⟩

def threeRequests : List RecordCall :=
  [⟨"/users/:id", 200, 10, 0⟩, ⟨"/users/:id", 500, 20, 0⟩, ⟨"/users/:id", 200, 30, 0⟩]

theorem route_table_three_requests : ∀ r ∈ (snapshot (recordAll threeRequests) 0 60000 0 0).1.perRoute,
    r.errors ≤ r.count ∧ ∃ avg : ℤ, r.avgMs = .finite avg ∧ r.minMs ≤ avg ∧ avg ≤ r.maxMs := by
  intro r hr
  obtain ⟨-, -, -, -, -, -, -, -, hentries⟩ := route_table threeRequests 0 60000 0 0
  obtain ⟨herrors, havg⟩ := hentries r hr
  refine ⟨herrors, havg ?_⟩
  have hroutes : ∀ r ∈ (snapshot (recordAll threeRequests) 0 60000 0 0).1.perRoute,
      durations (recordsOf r.route threeRequests) = [10, 20, 30] := by decide +kernel
  rw [hroutes r hr]
  intro first hfirst
  rw [← List.mem_inits] at hfirst
  revert first
  decide

/-- Five requests of the largest safe integer: the sum is not an exact integer any more. -/
def longRequests : List RecordCall := List.replicate 5 ⟨"/users/:id", 200, 9007199254740991, 0⟩

/-- The average of five equal durations lies below each of them. -/
theorem five_long_requests :
    (snapshot (recordAll longRequests) 0 300000 0 0).1.perRoute =
        [⟨"/users/:id", 5, 0, .finite 9007199254740990, 9007199254740991, 9007199254740991⟩] ∧
      ((recordAll longRequests).routes.rows.map RouteMetric.latencySumMs) ≠
        [.finite ((durations (recordsOf "/users/:id" longRequests)).sum : ℤ)] := by
  decide +kernel

end NestApp
