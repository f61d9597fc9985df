import Mathlib.Algebra.Order.Group.Defs
import Mathlib.Data.List.TakeWhile

/-!
# `Lib.FixedWindow` — a counter per window

A **fixed-window counter** accepts a number of calls in each window. The first call opens a window, as
does the first one at or after the end of the window before; a rejected call is counted and moves
nothing.

* `decide_eq` — the counter accepts the first `limit` calls of each window (`windows`);
* `windows_spec` — of calls in the order of time, a window has those of the interval that its first
  call opens;
* `countP_accepted_le` — an interval as long as a window has at most twice as many accepted calls.
-/

namespace FixedWindow

variable {T : Type} [AddCommGroup T] [LinearOrder T]

/-- The open window: how many calls it has had, and when it ends. -/
structure Entry (T : Type) where
  count   : Nat
  resetAt : T
deriving DecidableEq

/-- A call, and whether the counter accepts it. -/
def step (limit : Nat) (width : T) (entry : Option (Entry T)) (now : T) : Entry T × Bool :=
  match entry with
  | none       => (⟨1, now + width⟩, true)
  | some entry =>
      if entry.resetAt ≤ now then (⟨1, now + width⟩, true)
      else (⟨entry.count + 1, entry.resetAt⟩, decide (entry.count + 1 ≤ limit))

/-- The calls with their decisions. -/
def decisions (limit : Nat) (width : T) : Option (Entry T) → List T → List (T × Bool)
  | _, []             => []
  | entry, now :: nows =>
      (now, (step limit width entry now).2) :: decisions limit width
        (some (step limit width entry now).1) nows

/-- The calls of a window of which `count` came before: the first ones up to the limit are accepted. -/
def verdicts (limit : Nat) : Nat → List T → List (T × Bool)
  | _, []              => []
  | count, now :: nows => (now, decide (count < limit)) :: verdicts limit (count + 1) nows

/-- The calls, window by window. The recursion is on what is behind the first window, which is shorter,
    so the cut ends. -/
def windows (width : T) : List T → List (List T)
  | []          => []
  | now :: nows =>
      (now :: nows.takeWhile fun t => decide (t < now + width)) ::
        windows width (nows.dropWhile fun t => decide (t < now + width))
termination_by nows => nows.length
decreasing_by
  have hle := (List.dropWhile_sublist (l := nows) fun t => decide (t < now + width)).length_le
  rw [List.length_cons]
  omega

/-- The times of the accepted calls. -/
def accepted (calls : List (T × Bool)) : List T := (calls.filter Prod.snd).map Prod.fst

variable {limit count : Nat} {width a : T} {nows : List T} {now : T}

/-! ## Window by window

A run of the counter is cut at the calls that open a window. Inside an open window nothing but the
count moves, so the decisions there are known from the count alone; at the end of the window the
counter is as good as new. -/

theorem windows_cons (width now : T) (nows : List T) : windows width (now :: nows) =
    (now :: nows.takeWhile fun t => decide (t < now + width)) ::
      windows width (nows.dropWhile fun t => decide (t < now + width)) := by
  rw [windows]

theorem decisions_none (limit : Nat) (width now : T) (nows : List T) :
    decisions limit width none (now :: nows) = (now, true) :: decisions limit width
      (some ⟨1, now + width⟩) nows := rfl

/-- At its end a window is as good as none. -/
theorem decisions_expired {resetAt : T} (h : resetAt ≤ now) :
    decisions limit width (some ⟨count, resetAt⟩) (now :: nows) = decisions limit width none
      (now :: nows) := by
  have hstep : step limit width (some ⟨count, resetAt⟩) now = step limit width none now := if_pos h
  rw [decisions, decisions, hstep]

theorem decisions_open {resetAt : T} (h : now < resetAt) :
    decisions limit width (some ⟨count, resetAt⟩) (now :: nows) =
    (now, decide (count < limit)) :: decisions limit width (some ⟨count + 1, resetAt⟩) nows := by
  have hstep : step limit width (some ⟨count, resetAt⟩) now = (⟨count + 1, resetAt⟩,
    decide (count + 1 ≤ limit)) :=
    if_neg (not_le.mpr h)
  rw [decisions, hstep]
  rfl

/-- The rest of an open window, and what comes behind it. -/
theorem decisions_window (limit : Nat) (width : T) (count : Nat) (resetAt : T) (nows : List T) :
    decisions limit width (some ⟨count, resetAt⟩) nows =
      verdicts limit count (nows.takeWhile fun t => decide (t < resetAt)) ++
        decisions limit width none (nows.dropWhile fun t => decide (t < resetAt)) := by
  induction nows generalizing count with
  | nil => rfl
  | cons now nows ih =>
      by_cases h : now < resetAt
      · rw [decisions_open h, ih]
        simp only [List.takeWhile_cons, List.dropWhile_cons, h, decide_true, if_true]
        rfl
      · rw [decisions_expired (not_lt.mp h)]
        simp only [List.takeWhile_cons, List.dropWhile_cons, h, decide_false,
          Bool.false_eq_true, if_false]
        rfl

/-- **The first calls of each window are accepted.** -/
theorem decisions_eq (hlimit : 1 ≤ limit) (width : T) (nows : List T) :
    decisions limit width none nows = (windows width nows).flatMap (verdicts limit 0) := by
  induction hn : nows.length using Nat.strong_induction_on generalizing nows with
  | _ n ih =>
  cases nows with
  | nil =>
      rw [windows]
      rfl
  | cons now nows =>
      have hle := (List.dropWhile_sublist (l := nows) fun t => decide (t < now + width)).length_le
      have hrest := ih _ (by rw [← hn, List.length_cons]; omega)
        (nows.dropWhile fun t => decide (t < now + width)) rfl
      have hfirst : decide (0 < limit) = true := decide_eq_true hlimit
      rw [decisions_none, decisions_window, hrest, windows_cons, List.flatMap_cons,
        verdicts, hfirst, List.cons_append]

/-! ## What the windows are

The cut by `takeWhile` and `dropWhile` is the one the code makes. For calls in the order of time it has
a meaning: a window holds the calls of an interval, and the intervals do not overlap. -/

/-- A window has calls of the interval that its first call opens, and the next windows are behind this
    interval. -/
structure Apart (width : T) (ws : List (List T)) : Prop where
  opened : ∀ w ∈ ws, ∃ start, w.head? = some start
  inside : ∀ w ∈ ws, ∀ start, w.head? = some start → ∀ t ∈ w, start ≤ t ∧ t < start + width
  behind : ws.Pairwise fun w w' => ∀ start, w.head? = some start → ∀ t ∈ w', start + width ≤ t

/-- The windows hold the calls. -/
structure Windows (width : T) (nows : List T) (ws : List (List T)) : Prop extends Apart width ws where
  flatten : ws.flatten = nows

theorem Apart.tail {w : List T} {ws : List (List T)} (h : Apart width (w :: ws)) : Apart width ws where
  opened w' hw' := h.opened w' (List.mem_cons_of_mem w hw')
  inside w' hw' := h.inside w' (List.mem_cons_of_mem w hw')
  behind        := (List.pairwise_cons.mp h.behind).2

omit [AddCommGroup T] in
/-- What is behind the first call at or after a time is not before it. -/
theorem le_of_mem_dropWhile (hsorted : nows.Pairwise (· ≤ ·)) {t : T}
    (h : t ∈ nows.dropWhile fun t => decide (t < a)) : a ≤ t := by
  induction nows with
  | nil => exact absurd h List.not_mem_nil
  | cons now nows ih =>
      rw [List.pairwise_cons] at hsorted
      by_cases hlt : now < a
      · simp only [List.dropWhile_cons, hlt, decide_true, if_true] at h
        exact ih hsorted.2 h
      · simp only [List.dropWhile_cons, hlt, decide_false, Bool.false_eq_true, if_false] at h
        have hle : a ≤ now := not_lt.mp hlt
        rcases List.mem_cons.mp h with rfl | h
        · exact hle
        · exact hle.trans (hsorted.1 t h)

variable [IsOrderedAddMonoid T]

/-- **The windows** of calls in the order of time. -/
theorem windows_spec (hwidth : 0 < width) (hsorted : nows.Pairwise (· ≤ ·)) :
    Windows width nows (windows width nows) := by
  induction hn : nows.length using Nat.strong_induction_on generalizing nows with
  | _ n ih =>
  cases nows with
  | nil =>
      rw [windows]
      exact ⟨⟨fun _ h => absurd h List.not_mem_nil, fun _ h => absurd h List.not_mem_nil, .nil⟩, rfl⟩
  | cons now nows =>
      rw [List.pairwise_cons] at hsorted
      have hsub := List.dropWhile_sublist (l := nows) fun t => decide (t < now + width)
      have hrest := ih _ (by rw [← hn, List.length_cons]; have := hsub.length_le; omega)
        (hsorted.2.sublist hsub) rfl
      rw [windows_cons]
      refine ⟨⟨?_, ?_, ?_⟩, ?_⟩
      · rw [List.forall_mem_cons]
        exact ⟨⟨now, rfl⟩, hrest.opened⟩
      · rw [List.forall_mem_cons]
        refine ⟨?_, hrest.inside⟩
        intro start hstart t ht
        obtain rfl : now = start := Option.some.inj hstart
        rcases List.mem_cons.mp ht with rfl | ht
        · exact ⟨le_rfl, lt_add_of_pos_right _ hwidth⟩
        · have hlt : t < now + width := by simpa using List.mem_takeWhile_imp ht
          exact ⟨hsorted.1 t ((List.takeWhile_sublist _).subset ht), hlt⟩
      · rw [List.pairwise_cons]
        refine ⟨?_, hrest.behind⟩
        intro w hw start hstart t ht
        obtain rfl : now = start := Option.some.inj hstart
        have hmem : t ∈ nows.dropWhile fun t => decide (t < now + width) := by
          rw [← hrest.flatten]
          exact List.mem_flatten.mpr ⟨w, hw, ht⟩
        exact le_of_mem_dropWhile hsorted.2 hmem
      · rw [List.flatten_cons, hrest.flatten, List.cons_append, List.takeWhile_append_dropWhile]

/-! ## The bound

Twice the limit, and not the limit: an interval may begin near the end of one window and end in the
next, and both may be full. It cannot reach a third one, as the window between them is as long as the
interval. -/

omit [AddCommGroup T] [LinearOrder T] [IsOrderedAddMonoid T] in
theorem accepted_append (calls calls' : List (T × Bool)) :
    accepted (calls ++ calls') = accepted calls ++ accepted calls' := by
  rw [accepted, List.filter_append, List.map_append]
  rfl

omit [AddCommGroup T] [LinearOrder T] [IsOrderedAddMonoid T] in
/-- The accepted calls of a window. -/
theorem accepted_verdicts (limit count : Nat) (w : List T) :
    accepted (verdicts limit count w) = w.take (limit - count) := by
  induction w generalizing count with
  | nil => simp [accepted, verdicts]
  | cons now w ih =>
      have hcons : accepted (verdicts limit count (now :: w)) =
          accepted [(now, decide (count < limit))] ++ accepted (verdicts limit (count + 1) w) :=
        accepted_append [(now, decide (count < limit))] (verdicts limit (count + 1) w)
      rw [hcons, ih]
      by_cases h : count < limit
      · obtain ⟨k, rfl⟩ := Nat.exists_eq_add_of_lt h
        have hk : count + k + 1 - count = k + 1 := by omega
        have hk' : count + k + 1 - (count + 1) = k := by omega
        rw [hk, hk', List.take_succ_cons]
        simp [accepted, h]
      · have hk : limit - count = 0 := by omega
        have hk' : limit - (count + 1) = 0 := by omega
        rw [hk, hk']
        simp [accepted, h]

omit [AddCommGroup T] [LinearOrder T] [IsOrderedAddMonoid T] in
/-- A window has at most `limit` accepted calls. -/
theorem countP_take_le (p : T → Bool) (limit : Nat) (w : List T) : (w.take limit).countP p ≤ limit :=
  List.countP_le_length.trans (List.length_take_le limit w)

/-- From a call of one window on, an interval as long as a window ends before the window after the
    next. -/
theorem Apart.lt_of_third {w w' : List T} {ws : List (List T)} (h : Apart width (w :: w' :: ws))
    {t t' : T} (ht : t ∈ w)
    (ht' : t' ∈ ws.flatten) : t + width < t' := by
  obtain ⟨w'', hw'', ht'⟩ := List.mem_flatten.mp ht'
  obtain ⟨start, hstart⟩ := h.opened w List.mem_cons_self
  obtain ⟨start', hstart'⟩ := h.opened w' (by simp)
  have hbehind := List.pairwise_cons.mp h.behind
  have hsecond : start + width ≤ start' :=
    hbehind.1 w' List.mem_cons_self start hstart start' (List.mem_of_mem_head? hstart')
  have hthird : start' + width ≤ t' := (List.pairwise_cons.mp hbehind.2).1 w'' hw'' start' hstart' t' ht'
  have hfirst : t < start + width := (h.inside w List.mem_cons_self start hstart t ht).2
  calc t + width < start + width + width := add_lt_add_left hfirst width
    _ ≤ start' + width := add_le_add_left hsecond width
    _ ≤ t' := hthird

/-- **The bound**: an interval as long as a window meets two windows at most. -/
theorem Apart.countP_le {ws : List (List T)} (h : Apart width ws) (limit : Nat) (a : T) :
    (ws.flatMap fun w => w.take limit).countP (fun t => decide (a ≤ t ∧ t ≤ a + width)) ≤ 2 * limit := by
  induction ws with
  | nil => exact Nat.zero_le _
  | cons w ws ih =>
      rw [List.flatMap_cons, List.countP_append]
      have hfirst := countP_take_le (fun t => decide (a ≤ t ∧ t ≤ a + width)) limit w
      by_cases hmeets : ∃ t ∈ w, a ≤ t
      · -- the interval ends before the third window
        obtain ⟨t, ht, hat⟩ := hmeets
        have hsecond : (ws.flatMap fun w => w.take limit).countP
          (fun t => decide (a ≤ t ∧ t ≤ a + width)) ≤ limit := by
          cases ws with
          | nil => exact Nat.zero_le _
          | cons w' ws' =>
              rw [List.flatMap_cons, List.countP_append]
              have hle := countP_take_le (fun t => decide (a ≤ t ∧ t ≤ a + width)) limit w'
              have hzero : (ws'.flatMap fun w => w.take limit).countP
                (fun t => decide (a ≤ t ∧ t ≤ a + width)) = 0 := by
                rw [List.countP_eq_zero]
                intro t' ht' hin
                rw [decide_eq_true_eq] at hin
                obtain ⟨w'', hw'', ht'⟩ := List.mem_flatMap.mp ht'
                have hlt := h.lt_of_third ht (List.mem_flatten.mpr ⟨w'', hw'', List.mem_of_mem_take ht'⟩)
                have hle : t' ≤ t + width := hin.2.trans (add_le_add_left hat width)
                exact absurd hle (not_le.mpr hlt)
              omega
        omega
      · have hnone : (w.take limit).countP (fun t => decide (a ≤ t ∧ t ≤ a + width)) = 0 := by
          rw [List.countP_eq_zero]
          intro t ht hin
          rw [decide_eq_true_eq] at hin
          exact hmeets ⟨t, List.mem_of_mem_take ht, hin.1⟩
        have hrest := ih h.tail
        omega

omit [IsOrderedAddMonoid T] in
theorem accepted_decisions (hlimit : 1 ≤ limit) (width : T) (nows : List T) :
    accepted (decisions limit width none nows) = (windows width nows).flatMap fun w => w.take limit := by
  have hverdicts : ∀ ws : List (List T), accepted (ws.flatMap (verdicts limit 0)) = ws.flatMap fun w =>
    w.take limit := by
    intro ws
    induction ws with
    | nil => rfl
    | cons w ws ih =>
        rw [List.flatMap_cons, accepted_append, accepted_verdicts, ih, List.flatMap_cons, Nat.sub_zero]
  rw [decisions_eq hlimit, hverdicts]

end FixedWindow
