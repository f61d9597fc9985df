import Mathlib.Data.List.Chain
import Mathlib.Algebra.Order.Ring.Int
import NestApp.Lib.FixedWindow

/-!
# `Shared.ResilientThrottler` — counting requests while Redis comes and goes

`ResilientThrottlerStorage` counts a request in Redis, or in the memory of the process where Redis does
not answer. The two storages are those of the throttler packages and parameters here; Redis is shared
with the other instances of the application, and a request that it counts may get no answer.

* `countP_answers_le` — what is let pass is let pass by Redis or by the memory, each of which has seen
  a part of the hits;
* `answers_capped` — so a key is held to the sum of what the two storages hold it to;
* `logged_alternates` — an outage is logged once, and so is its end;
* `windowStorage_caps` — a storage with a window for each key caps a key at twice its limit.

Whether a request that Redis has counted without answering is counted again in the memory is up to the
failure. So both storages may have seen a hit, and the sum of the two bounds is what is left to
promise.
-/

namespace NestApp

/-- The arguments of `increment`, and the time. -/
structure Hit (K : Type) where
  key           : K
  ttl           : Nat
  limit         : Nat
  blockDuration : Nat
  throttlerName : String
  now           : Nat

/-- What a storage answers: the hits counted in the window, and whether the request is blocked. -/
structure ThrottlerStorageRecord where
  totalHits         : Nat
  timeToExpire      : Nat
  isBlocked         : Bool
  timeToBlockExpire : Nat

/-- A storage of the throttler: a state, and what a hit does to it. Nothing else is known about the two
    storages. -/
structure ThrottlerStorage (K : Type) where
  State     : Type
  initial   : State
  increment : Hit K → State → ThrottlerStorageRecord × State

namespace ThrottlerStorage

variable {K : Type} [DecidableEq K]

/-- The answers to hits. -/
def answers (storage : ThrottlerStorage K) :
    storage.State → List (Hit K) → List (Hit K × ThrottlerStorageRecord)
  | _, []          => []
  | s, hit :: hits =>
      (hit, (storage.increment hit s).1) :: answers storage (storage.increment hit s).2 hits

/-- A hit on the key is let pass, in the `width` milliseconds from `start` on. -/
def passes (key : K) (start width : Nat) (answer : Hit K × ThrottlerStorageRecord) : Bool :=
  decide (answer.1.key = key ∧ start ≤ answer.1.now ∧ answer.1.now ≤ start + width) &&
    !answer.2.isBlocked

/-- A key that is always counted with one limit and one window. -/
def Uniform (key : K) (ttl limit : Nat) (hits : List (Hit K)) : Prop :=
  ∀ hit ∈ hits, hit.key = key → hit.ttl = ttl ∧ hit.limit = limit

def InOrder (hits : List (Hit K)) : Prop := hits.Pairwise fun hit later => hit.now ≤ later.now

/-- **The storage caps a key**: of hits in the order of time, at most `bound` are let pass in an
    interval as long as the window. -/
def Caps (storage : ThrottlerStorage K) (ttl limit bound : Nat) : Prop :=
  ∀ key hits, InOrder hits → Uniform key ttl limit hits → ∀ start,
    (storage.answers storage.initial hits).countP (passes key start ttl) ≤ bound

end ThrottlerStorage

open ThrottlerStorage

/-! ## The storage

`increment` asks Redis, and the memory when Redis throws. A flag remembers which of the two it was, for
the log. -/

/-- What becomes of a command to Redis: it is executed and answered, executed without an answer, or not
    executed. -/
inductive RedisOutcome where
  | answered
  | lost
  | unreachable
deriving DecidableEq

inductive ThrottlerLog where
  /-- `Redis throttling storage unavailable` -/
  | unavailable
  /-- `Redis throttling storage recovered` -/
  | recovered
deriving DecidableEq

structure ResilientThrottlerStorage {K : Type} (redis memory : ThrottlerStorage K) where
  redisStorage    : redis.State
  inMemoryStorage : memory.State
  usingFallback   : Bool
  logged          : List ThrottlerLog

namespace ResilientThrottlerStorage

variable {K : Type} {redis memory : ThrottlerStorage K}

def new : ResilientThrottlerStorage redis memory := ⟨redis.initial, memory.initial, false, []⟩

/-- `increment`: Redis if it answers, and otherwise the memory. The log gets a line when the source of
    the answers changes. -/
def increment (attempt : RedisOutcome) (hit : Hit K) (s : ResilientThrottlerStorage redis memory) :
    ThrottlerStorageRecord × ResilientThrottlerStorage redis memory :=
  let executed := redis.increment hit s.redisStorage
  match attempt with
  | .answered =>
      (executed.1, { s with
        redisStorage  := executed.2
        usingFallback := false
        logged        := if s.usingFallback then s.logged ++ [.recovered] else s.logged })
  | .lost | .unreachable =>
      let counted := memory.increment hit s.inMemoryStorage
      (counted.1, { s with
        redisStorage    := if attempt = .lost then executed.2 else s.redisStorage
        inMemoryStorage := counted.2
        usingFallback   := true
        logged          := if s.usingFallback then s.logged else s.logged ++ [.unavailable] })

/-- Another instance counts a hit in Redis. -/
def elsewhere (hit : Hit K) (s : ResilientThrottlerStorage redis memory) :
    ResilientThrottlerStorage redis memory :=
  { s with redisStorage := (redis.increment hit s.redisStorage).2 }

/-! ## Sequences of hits

The hits of this instance and of others in the order in which Redis sees them. What each storage has
counted is a part of them. -/

inductive Counting (K : Type) where
  | increment (attempt : RedisOutcome) (hit : Hit K)
  | elsewhere (hit : Hit K)

def Counting.hit : Counting K → Hit K
  | .increment _ hit | .elsewhere hit => hit

def after (s : ResilientThrottlerStorage redis memory) :
    Counting K → ResilientThrottlerStorage redis memory
  | .increment attempt hit => (increment attempt hit s).2
  | .elsewhere hit         => elsewhere hit s

/-- The answers to the hits of this instance. -/
def answers : ResilientThrottlerStorage redis memory → List (Counting K) →
    List (Hit K × ThrottlerStorageRecord)
  | _, []                              => []
  | s, .increment attempt hit :: events =>
      (hit, (increment attempt hit s).1) :: answers (increment attempt hit s).2 events
  | s, .elsewhere hit :: events         => answers (elsewhere hit s) events

/-- What Redis has counted. -/
def redisHits : List (Counting K) → List (Hit K)
  | []                                  => []
  | .increment .unreachable _ :: events => redisHits events
  | .increment _ hit :: events          => hit :: redisHits events
  | .elsewhere hit :: events            => hit :: redisHits events

/-- What the memory has counted. -/
def memoryHits : List (Counting K) → List (Hit K)
  | []                               => []
  | .increment .answered _ :: events => memoryHits events
  | .increment _ hit :: events       => hit :: memoryHits events
  | .elsewhere _ :: events           => memoryHits events

variable {s : ResilientThrottlerStorage redis memory} {events : List (Counting K)}

/-- **An answer is one of Redis or of the memory.** -/
theorem countP_answers_le (p : Hit K × ThrottlerStorageRecord → Bool)
    (s : ResilientThrottlerStorage redis memory)
    (events : List (Counting K)) : (answers s events).countP p ≤
      (redis.answers s.redisStorage (redisHits events)).countP p +
        (memory.answers s.inMemoryStorage (memoryHits events)).countP p := by
  induction events generalizing s with
  | nil => simp [answers]
  | cons event events ih =>
      cases event with
      | elsewhere hit =>
          have hrest := ih (elsewhere hit s)
          simp only [answers, redisHits, memoryHits, ThrottlerStorage.answers,
            List.countP_cons, elsewhere] at hrest ⊢
          omega
      | increment attempt hit =>
          have hrest := ih (increment attempt hit s).2
          cases attempt with
          | answered =>
              simp only [answers, redisHits, memoryHits, ThrottlerStorage.answers,
                List.countP_cons, increment] at hrest ⊢
              omega
          | lost =>
              simp only [answers, redisHits, memoryHits, ThrottlerStorage.answers,
                List.countP_cons, increment, if_true] at hrest ⊢
              omega
          | unreachable =>
              simp only [answers, redisHits, memoryHits, ThrottlerStorage.answers,
                List.countP_cons, increment, reduceCtorEq,
                if_false] at hrest ⊢
              omega

theorem redisHits_sublist (events : List (Counting K)) :
    (redisHits events).Sublist (events.map Counting.hit) := by
  induction events with
  | nil => exact .slnil
  | cons event events ih =>
      cases event with
      | elsewhere hit => exact ih.cons_cons hit
      | increment attempt hit =>
          cases attempt with
          | answered | lost => exact ih.cons_cons hit
          | unreachable => exact ih.cons hit

theorem memoryHits_sublist (events : List (Counting K)) :
    (memoryHits events).Sublist (events.map Counting.hit) := by
  induction events with
  | nil => exact .slnil
  | cons event events ih =>
      cases event with
      | elsewhere hit => exact ih.cons hit
      | increment attempt hit =>
          cases attempt with
          | answered => exact ih.cons hit
          | lost | unreachable => exact ih.cons_cons hit

/-- **However Redis fails and recovers**, a key is held to what Redis and the memory hold it to
    together. Other instances that count in the same Redis can only take hits away from this one. -/
theorem answers_capped [DecidableEq K] {key : K} {ttl limit b b' : Nat} (hredis : redis.Caps ttl limit b)
    (hmemory : memory.Caps ttl limit b') (horder : InOrder (events.map Counting.hit))
    (huniform : Uniform key ttl limit (events.map Counting.hit)) (start : Nat) :
    (answers (new : ResilientThrottlerStorage redis memory) events).countP
    (passes key start ttl) ≤ b + b' := by
  have hcapped : ∀ {storage : ThrottlerStorage K} {bound} {hits : List (Hit K)},
    storage.Caps ttl limit bound →
      hits.Sublist (events.map Counting.hit) →
      (storage.answers storage.initial hits).countP (passes key start ttl) ≤ bound := by
    intro storage bound hits hcaps hsub
    exact hcaps key hits (List.Pairwise.sublist hsub horder)
      (fun hit hhit => huniform hit (hsub.subset hhit)) start
  have hinterleaved :=
    countP_answers_le (passes key start ttl) (new : ResilientThrottlerStorage redis memory) events
  have hbyRedis := hcapped hredis (redisHits_sublist events)
  have hbyMemory := hcapped hmemory (memoryHits_sublist events)
  simp only [new] at hinterleaved ⊢
  omega

/-! ## The log

One line when the fallback begins and one when it ends. The flag and the last line always agree. -/

/-- The log says where the requests are counted. -/
structure Logged (s : ResilientThrottlerStorage redis memory) : Prop where
  alternates : s.logged.IsChain (· ≠ ·)
  last       : s.logged.getLast? = some .unavailable ↔ s.usingFallback = true

theorem Logged.after (h : Logged s) (event : Counting K) : Logged (s.after event) := by
  have hsnoc : ∀ line, s.logged.getLast? ≠ some line → (s.logged ++ [line]).IsChain (· ≠ ·) := by
    intro line hlast
    rw [List.isChain_append]
    refine ⟨h.alternates, .singleton line, fun x hx y hy => ?_⟩
    rintro rfl
    obtain rfl : line = x := by simpa using hy
    exact hlast hx
  cases event with
  | elsewhere hit => exact ⟨h.alternates, h.last⟩
  | increment attempt hit =>
      cases hfallback : s.usingFallback with
      | true =>
          have hlast := h.last.mpr hfallback
          cases attempt with
          | answered =>
              refine ⟨?_, ?_⟩
              · simp only [ResilientThrottlerStorage.after, increment, hfallback, if_true]
                exact hsnoc .recovered (by simp [hlast])
              · simp [ResilientThrottlerStorage.after, increment, hfallback]
          | lost | unreachable =>
              refine ⟨?_, ?_⟩
              · simpa [ResilientThrottlerStorage.after, increment, hfallback] using h.alternates
              · simp [ResilientThrottlerStorage.after, increment, hfallback, hlast]
      | false =>
          have hlast : s.logged.getLast? ≠ some .unavailable := by
            intro hlast
            rw [h.last.mp hlast] at hfallback
            cases hfallback
          cases attempt with
          | answered =>
              refine ⟨?_, ?_⟩
              · simpa [ResilientThrottlerStorage.after, increment, hfallback] using h.alternates
              · simp [ResilientThrottlerStorage.after, increment, hfallback, hlast]
          | lost | unreachable =>
              refine ⟨?_, ?_⟩
              · simp only [ResilientThrottlerStorage.after, increment, hfallback,
                  Bool.false_eq_true, if_false]
                exact hsnoc .unavailable hlast
              · simp [ResilientThrottlerStorage.after, increment, hfallback]

/-- **An outage is logged once**, and so is its end: the two lines alternate. -/
theorem logged_alternates (events : List (Counting K)) :
    Logged (events.foldl after (new : ResilientThrottlerStorage redis memory)) := by
  have hfold : ∀ s : ResilientThrottlerStorage redis memory, Logged s →
    Logged (events.foldl after s) := by
    induction events with
    | nil => exact fun _ h => h
    | cons event events ih => exact fun s h => ih _ (h.after event)
  exact hfold new ⟨.nil, by simp [new]⟩

end ResilientThrottlerStorage

/-! ## A storage with windows

A concrete storage, with a fixed window for each key. It shows that the bounds assumed of a storage can
be met, and by which number. -/

namespace ThrottlerStorage

open FixedWindow

variable {K : Type} [DecidableEq K]

/-- A storage with a fixed window for each key. -/
def windowStorage : ThrottlerStorage K where
  State   := K → Option (Entry ℤ)
  initial := fun _ => none
  increment hit s :=
    let counted := FixedWindow.step hit.limit (hit.ttl : ℤ) (s hit.key) hit.now
    (⟨counted.1.count, (counted.1.resetAt - hit.now).toNat, !counted.2, if counted.2 then
      0 else hit.blockDuration⟩,
      Function.update s hit.key (some counted.1))

/-- The hits on a key, with their answers. -/
def decisionsOn (key : K) (answers : List (Hit K × ThrottlerStorageRecord)) : List (ℤ × Bool) :=
  (answers.filter fun answer => decide (answer.1.key = key)).map fun answer =>
    ((answer.1.now : ℤ), !answer.2.isBlocked)

/-- The times of the hits on a key. -/
def timesOn (key : K) (hits : List (Hit K)) : List ℤ :=
  (hits.filter fun hit => decide (hit.key = key)).map fun hit => (hit.now : ℤ)

variable {key : K} {ttl limit : Nat} {hits : List (Hit K)}

/-- **A key has its own counter**, whatever is counted under other keys in between. -/
theorem decisionsOn_answers (huniform : Uniform key ttl limit hits) (s : K → Option (Entry ℤ)) :
    decisionsOn key (windowStorage.answers s hits) = decisions limit (ttl : ℤ) (s key)
      (timesOn key hits) := by
  induction hits generalizing s with
  | nil => rfl
  | cons hit hits ih =>
      have hrest := ih fun later hlater => huniform later (List.mem_cons_of_mem _ hlater)
      by_cases hkey : hit.key = key
      · obtain ⟨rfl, rfl⟩ := huniform hit List.mem_cons_self hkey
        subst hkey
        simp only [decisionsOn, timesOn, ThrottlerStorage.answers, windowStorage,
          List.filter_cons, decide_true, if_true,
          List.map_cons, Bool.not_not, decisions, List.cons.injEq, true_and] at hrest ⊢
        rw [hrest, Function.update_self]
      · simp only [decisionsOn, timesOn, ThrottlerStorage.answers, windowStorage,
          List.filter_cons, hkey, decide_false,
          Bool.false_eq_true, if_false] at hrest ⊢
        rw [hrest, Function.update_of_ne (Ne.symm hkey)]

/-- **A window caps a key** at twice the limit, since two windows may touch in an interval. -/
theorem windowStorage_caps (hlimit : 1 ≤ limit) (httl : 0 < ttl) :
    (windowStorage : ThrottlerStorage K).Caps ttl limit (2 * limit) := by
  intro key hits horder huniform start
  have hsorted : (timesOn key hits).Pairwise (· ≤ ·) := by
    refine List.pairwise_map.mpr ((List.Pairwise.filter _ horder).imp fun hle => ?_)
    exact_mod_cast hle
  have hwidth : (0 : ℤ) < ttl := by exact_mod_cast httl
  have hbound := (windows_spec hwidth hsorted).toApart.countP_le limit (start : ℤ)
  have hanswers : decisionsOn key (windowStorage.answers windowStorage.initial hits) =
      decisions limit (ttl : ℤ) none (timesOn key hits) := decisionsOn_answers huniform fun _ => none
  rw [← accepted_decisions hlimit, ← hanswers] at hbound
  refine le_trans (le_of_eq ?_) hbound
  simp only [accepted, decisionsOn, List.countP_eq_length_filter, List.filter_map,
    List.length_map, List.filter_filter]
  congr 2
  funext answer
  rw [Bool.eq_iff_iff]
  simp only [passes, Function.comp_apply, Bool.and_eq_true, decide_eq_true_eq]
  constructor
  · rintro ⟨⟨hkey, hfrom, hto⟩, hpassed⟩
    exact ⟨⟨by exact_mod_cast hfrom, by exact_mod_cast hto⟩, hpassed, hkey⟩
  · rintro ⟨⟨hfrom, hto⟩, hpassed, hkey⟩
    exact ⟨⟨hkey, by exact_mod_cast hfrom, by exact_mod_cast hto⟩, hpassed⟩

end ThrottlerStorage

end NestApp
