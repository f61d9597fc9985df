import Mathlib.Order.Nat
import NestApp.Lib.Pool

/-!
# `Realtime.RedisIoAdapter` — the clients of the Socket.IO adapter

`attachRedisAdapter` duplicates the Redis client twice, waits for the two pings, and stores the pair;
when a step fails it schedules another attempt. Each attempt is a call, so attempts interleave with
`dispose` and with the life of the main client.

What keeps it together is that there is at most one of: the call of `createIOServer` still to come, a
retry that is scheduled, an attempt that pings, the attached pair (`Single`). So at most one pair is
ever attached. The clients are accounted for (`clients_accounted`), except in three cases, in which the
code drops one: the second `duplicate()` throws after the first gave a client, `dispose` meets an
attached pair and leaves the status, and a ping succeeds after `dispose`.

Times, pings and retries are events that may come in any order. A client counts as connected from its
duplication to its disconnection, whoever still knows it; so a client that nobody stores and that is
connected is one that has been leaked.
-/

namespace NestApp

/-! ## `RealtimeAdapterStatus`

What the health probe reads: attached, or degraded since the first failure, or neither. -/

structure RealtimeAdapterStatus where
  attached       : Bool
  degradedReason : Option String
  degradedSince  : Option String
deriving DecidableEq

namespace RealtimeAdapterStatus

def new : RealtimeAdapterStatus := ⟨false, none, none⟩

def isAttached (status : RealtimeAdapterStatus) : Bool := status.attached

def markAttached (_ : RealtimeAdapterStatus) : RealtimeAdapterStatus := ⟨true, none, none⟩

/-- The time of the first reason is kept. -/
def markDegraded (status : RealtimeAdapterStatus) (reason now : String) : RealtimeAdapterStatus :=
  ⟨false, some reason, if status.degradedReason = none then some now else status.degradedSince⟩

end RealtimeAdapterStatus

namespace RedisIoAdapter

/-! ## The adapter

The fields of the adapter and the clients it has made. A scheduled retry and the listener for `ready`
are part of the state, as each leads to another attempt. -/

/-- A caught error, and the time it is caught. -/
structure Fault where
  reason : String
  time   : String
deriving DecidableEq

/-- What calls `attachRedisAdapter`. -/
inductive Cause where
  | createIOServer
  /-- the callback of a `setTimeout` -/
  | timer
  /-- a listener of `'ready'` -/
  | ready
deriving DecidableEq

/-- What the two calls of `duplicate()` do. -/
inductive Duplication where
  | both
  | firstThrows (fault : Fault)
  | secondThrows (fault : Fault)
deriving DecidableEq

/-- Redis clients are numbered in the order in which they are duplicated. -/
structure Adapter where
  redisAttached : Bool
  pubClient     : Option Nat
  subClient     : Option Nat
  status        : RealtimeAdapterStatus
  /-- `redisClient.status === 'ready'` -/
  ready         : Bool
  /-- retries by `setTimeout` -/
  timers        : Nat
  /-- retries by `once('ready')` -/
  listeners     : Nat
  /-- `createIOServer` was called -/
  created       : Bool
  /-- `dispose` was called -/
  disposed      : Bool
  duplicated    : Nat
  /-- the duplicated clients that are not disconnected -/
  connected     : Nat → Bool
  /-- the pairs that were given to `server.adapter` -/
  pairs         : List (Nat × Nat)

namespace Adapter

/-- `redisClient.duplicate()` -/
def duplicate (ad : Adapter) : Adapter × Nat :=
  ({ ad with
      duplicated := ad.duplicated + 1
      connected  := Function.update ad.connected ad.duplicated true }, ad.duplicated)

/-- `client.disconnect()` -/
def disconnect (ad : Adapter) (client : Nat) : Adapter :=
  { ad with connected := Function.update ad.connected client false }

def degrade (ad : Adapter) (fault : Fault) : Adapter :=
  let ad := { ad with status := ad.status.markDegraded fault.reason fault.time }
  if ad.ready then { ad with timers := ad.timers + 1 } else { ad with listeners := ad.listeners + 1 }

/-- The end of `attachRedisAdapter`, after the pings. -/
def attach (ad : Adapter) (pub sub : Nat) : Adapter :=
  { ad with
    pairs := ad.pairs ++ [(pub, sub)], pubClient := some pub, subClient := some sub,
    redisAttached := true, status := ad.status.markAttached }

/-- The cause happens; a timer and a listener are there once. -/
def take (ad : Adapter) : Cause → Option Adapter
  | .createIOServer => if ad.created then none else some { ad with created := true }
  | .timer          => if ad.timers = 0 then none else some { ad with timers := ad.timers - 1 }
  | .ready          =>
      if ad.ready = false ∨
      ad.listeners = 0 then none else some { ad with listeners := ad.listeners - 1 }

def dispose (ad : Adapter) : Adapter :=
  let ad := { ad with disposed := true }
  let ad := match ad.pubClient with
    | some pub => { ad.disconnect pub with pubClient := none }
    | none     => ad
  match ad.subClient with
  | some sub => { ad.disconnect sub with subClient := none }
  | none     => ad

end Adapter

/-! ## The steps

An attempt up to its `await`, the end of the race between its pings and an error, and `dispose`. -/

/-- An attempt, a call of `attachRedisAdapter`. -/
inductive Pc where
  | idle
  /-- waits for `Promise.race` -/
  | pinging (pub sub : Nat)
  | finished
deriving DecidableEq

inductive Act where
  | attempt (cause : Cause) (duplication : Duplication)
  | pong
  /-- a ping fails, or the race times out -/
  | pingFails (fault : Fault)
  /-- the status of the main client changes -/
  | redis (ready : Bool)
  | dispose
deriving DecidableEq

/-- `attachRedisAdapter`, up to its `await`. -/
def attachRedisAdapter (ad : Adapter) (duplication : Duplication) : Adapter × Pc :=
  if ad.redisAttached then (ad, .finished)
  else match duplication with
    | .both               =>
        let (ad, pub) := ad.duplicate
        let (ad, sub) := ad.duplicate
        (ad, .pinging pub sub)
    | .firstThrows fault  => (ad.degrade fault, .finished)
    | .secondThrows fault =>
        -- the first client is neither stored nor disconnected
        let (ad, _) := ad.duplicate
        (ad.degrade fault, .finished)

def exec {C : Type} : Pool.Code Adapter Pc Act C := fun _ ad pc a =>
  match a, pc with
  | .attempt cause duplication, .idle  => (ad.take cause).map fun ad => attachRedisAdapter ad duplication
  | .pong, .pinging pub sub            => some (ad.attach pub sub, .finished)
  | .pingFails fault, .pinging pub sub =>
      some (((ad.disconnect pub).disconnect sub).degrade fault, .finished)
  | .redis ready, pc                   => some ({ ad with ready := ready }, pc)
  | .dispose, pc                       => some (ad.dispose, pc)
  | _, _                               => none

abbrev State (C : Type) := Pool.Config Adapter Pc C

/-- The constructor; attempts are yet to come. -/
def new {C : Type} (ready : Bool) : State C :=
  ⟨⟨false, none, none, .new, ready, 0, 0, false, false, 0, fun _ => false, []⟩, fun _ => .idle⟩

/-- No attempt is pending. -/
def Quiescent {C : Type} (s : State C) : Prop := ∀ c pub sub, s.calls c ≠ .pinging pub sub

/-! ## Conditions on the steps of a run

The three ways of losing a client, each as a condition that excludes it. -/

/-- No second `duplicate()` throws. -/
def NoHalfPair {C : Type} : Pool.Allowed Adapter Pc Act C :=
  fun _ _ a => ∀ cause fault, a ≠ .attempt cause (.secondThrows fault)

/-- `dispose` meets no attached pair. -/
def NoPairDisposed {C : Type} : Pool.Allowed Adapter Pc Act C :=
  fun s _ a => a = .dispose → s.shared.pubClient = none

/-- After `dispose`, no ping race succeeds. -/
def NoLatePong {C : Type} : Pool.Allowed Adapter Pc Act C :=
  fun s _ a => a = .pong → s.shared.disposed = false

/-! ## What a step can do

A step spends a token or moves one: the call to come, a retry, an attempt that pings, the attached
pair. -/

namespace Adapter

/-- What can lead to a further attempt, and the pair that is attached: at most one of them. -/
def tokens (ad : Adapter) : Nat :=
  (if ad.created then 0 else 1) + ad.timers + ad.listeners + if ad.redisAttached then 1 else 0

/-- The client is stored. -/
def Stores (ad : Adapter) (client : Nat) : Prop :=
  ad.pubClient = some client ∨ ad.subClient = some client

end Adapter

/-- What a step can do. -/
inductive Moves (ad : Adapter) : Pc → Act → Adapter → Pc → Prop where
  | attempt {cause ad₀} (duplication : Duplication) (h : ad.take cause = some ad₀) :
      Moves ad .idle (.attempt cause duplication) (attachRedisAdapter ad₀ duplication).1
        (attachRedisAdapter ad₀ duplication).2
  | pong {pub sub} : Moves ad (.pinging pub sub) .pong (ad.attach pub sub) .finished
  | pingFails {pub sub} (fault : Fault) :
      Moves ad (.pinging pub sub) (.pingFails fault)
        (((ad.disconnect pub).disconnect sub).degrade fault) .finished
  | redis {pc} (ready : Bool) : Moves ad pc (.redis ready) { ad with ready := ready } pc
  | dispose {pc} : Moves ad pc .dispose ad.dispose pc

variable {C : Type} {ad ad' : Adapter} {pc pc' : Pc} {a : Act} {c : C} {s t u : State C}

theorem exec_moves (h : exec c ad pc a = some (ad', pc')) : Moves ad pc a ad' pc' := by
  cases a with
  | attempt cause duplication =>
      cases pc with
      | idle =>
          obtain ⟨ad₀, htake, hattach⟩ := Option.map_eq_some_iff.mp h
          have hmove := Moves.attempt duplication htake
          rwa [hattach] at hmove
      | pinging pub sub => cases h
      | finished => cases h
  | pong =>
      cases pc with
      | pinging pub sub =>
          cases h
          exact .pong
      | idle => cases h
      | finished => cases h
  | pingFails fault =>
      cases pc with
      | pinging pub sub =>
          cases h
          exact .pingFails fault
      | idle => cases h
      | finished => cases h
  | redis ready =>
      cases h
      exact .redis ready
  | dispose =>
      cases h
      exact .dispose

namespace Adapter

/-- A cause is a token, and nothing else changes. -/
theorem take_spec {cause : Cause} {ad₀ : Adapter} (h : ad.take cause = some ad₀) :
    ad.tokens = ad₀.tokens + 1 ∧
      ∃ timers listeners created,
        ad₀ = { ad with timers := timers, listeners := listeners, created := created } := by
  cases cause with
  | createIOServer =>
      simp only [take] at h
      split at h
      · cases h
      · next hcreated =>
        cases h
        refine ⟨?_, _, _, _, rfl⟩
        simp only [tokens, hcreated, if_true]
        simp only [Bool.false_eq_true, if_false]
        omega
  | timer =>
      simp only [take] at h
      split at h
      · cases h
      · cases h
        refine ⟨?_, _, _, _, rfl⟩
        simp only [tokens]
        omega
  | ready =>
      simp only [take] at h
      split at h
      · cases h
      · cases h
        refine ⟨?_, _, _, _, rfl⟩
        simp only [tokens]
        omega

@[simp] theorem disconnect_tokens (client : Nat) : (ad.disconnect client).tokens = ad.tokens := rfl

@[simp] theorem duplicate_tokens : ad.duplicate.1.tokens = ad.tokens := rfl

@[simp] theorem degrade_tokens (fault : Fault) : (ad.degrade fault).tokens = ad.tokens + 1 := by
  unfold degrade tokens
  cases ad.ready <;> simp only [Bool.false_eq_true, if_true, if_false] <;> omega

theorem attach_tokens {pub sub : Nat} (h : ad.tokens = 0) : (ad.attach pub sub).tokens = 1 := by
  unfold attach tokens at *
  simp only [if_true]
  omega

theorem redisAttached_of_tokens (h : ad.tokens = 0) : ad.redisAttached = false := by
  unfold tokens at h
  cases hattached : ad.redisAttached with
  | false => rfl
  | true =>
      simp only [hattached, if_true] at h
      omega

/-- Beyond the retry, only the status changes. -/
theorem degrade_eq (ad : Adapter) (fault : Fault) : ∃ timers listeners, ad.degrade fault = { ad with
    status := ad.status.markDegraded fault.reason fault.time,
    timers := timers, listeners := listeners } := by
  unfold degrade
  cases ad.ready <;> exact ⟨_, _, rfl⟩

/-- `dispose` disconnects what is stored, and forgets it. -/
theorem dispose_eq (ad : Adapter) : ad.dispose = { ad with
    disposed := true, pubClient := none, subClient := none, connected := ad.dispose.connected } := by
  unfold dispose
  cases ad.pubClient <;> cases ad.subClient <;> simp [disconnect]

theorem dispose_connected {client : Nat} :
    ad.dispose.connected client = true ↔ ad.connected client = true ∧ ¬ ad.Stores client := by
  unfold dispose Stores
  cases ad.pubClient <;> cases ad.subClient <;> simp [disconnect, Function.update_apply] <;> grind

end Adapter

/-- What an attempt does before its `await`. -/
theorem attachRedisAdapter_cases (h : ad.redisAttached = false) (duplication : Duplication) :
    (duplication = .both ∧ attachRedisAdapter ad duplication =
        (ad.duplicate.1.duplicate.1, .pinging ad.duplicated (ad.duplicated + 1))) ∨
      (∃ fault, duplication = .firstThrows fault ∧
        attachRedisAdapter ad duplication = (ad.degrade fault, .finished)) ∨
      ∃ fault, duplication = .secondThrows fault ∧
        attachRedisAdapter ad duplication = (ad.duplicate.1.degrade fault, .finished) := by
  unfold attachRedisAdapter
  rw [if_neg (by simp [h])]
  cases duplication with
  | both => exact .inl ⟨rfl, rfl⟩
  | firstThrows fault => exact .inr (.inl ⟨fault, rfl, rfl⟩)
  | secondThrows fault => exact .inr (.inr ⟨fault, rfl, rfl⟩)

/-! ## At most one attempt, retry or pair

By counting tokens: there was one at the start, and no step makes a second. -/

/-- The flag, the status and the stored clients are those of the pair that was attached, until `dispose`
    takes the clients. -/
structure Adapter.Consistent (ad : Adapter) : Prop where
  status   : ad.status.attached = ad.redisAttached
  detached : ad.redisAttached = false → ad.pairs = [] ∧ ad.pubClient = none ∧ ad.subClient = none
  attached : ad.redisAttached = true → ∃ pub sub, ad.pairs = [(pub, sub)] ∧
    (ad.pubClient = some pub ∧ ad.subClient = some sub ∨ ad.pubClient = none ∧ ad.subClient = none)

/-- **The invariant**: one token at most, and none while an attempt pings, so that there is one attempt
    at a time. -/
structure Single (t : State C) : Prop where
  tokens     : t.shared.tokens ≤ 1
  pinging    : ∀ {c pub sub}, t.calls c = .pinging pub sub → t.shared.tokens = 0
  unique     : ∀ {c d pub sub pub' sub'}, t.calls c = .pinging pub sub →
    t.calls d = .pinging pub' sub' → c = d
  consistent : t.shared.Consistent

theorem Adapter.Consistent.degrade (h : ad.Consistent) (hdetached : ad.redisAttached = false)
    (fault : Fault) :
    (ad.degrade fault).Consistent := by
  obtain ⟨timers, listeners, heq⟩ := ad.degrade_eq fault
  rw [heq]
  exact ⟨hdetached.symm, h.detached, h.attached⟩

theorem Adapter.Consistent.dispose (h : ad.Consistent) : ad.dispose.Consistent := by
  rw [ad.dispose_eq]
  refine ⟨h.status, fun hdetached => ⟨(h.detached hdetached).1, rfl, rfl⟩, fun hattached => ?_⟩
  obtain ⟨pub, sub, hpairs, -⟩ := h.attached hattached
  exact ⟨pub, sub, hpairs, .inr ⟨rfl, rfl⟩⟩

theorem Adapter.Consistent.attach (h : ad.Consistent) (hdetached : ad.redisAttached = false)
    (pub sub : Nat) :
    (ad.attach pub sub).Consistent := by
  have hpairs : (ad.attach pub sub).pairs = [(pub, sub)] := by
    show ad.pairs ++ [(pub, sub)] = [(pub, sub)]
    rw [(h.detached hdetached).1, List.nil_append]
  constructor
  · rfl
  · intro hattached
    cases hattached
  · exact fun _ => ⟨pub, sub, hpairs, .inl ⟨rfl, rfl⟩⟩

theorem Single.of_quiescent (htokens : t.shared.tokens ≤ 1) (hconsistent : t.shared.Consistent)
    (h : Quiescent t) : Single t :=
  ⟨htokens, fun hc => absurd hc (h _ _ _), fun hc => absurd hc (h _ _ _), hconsistent⟩

theorem Single.of_pinging (htokens : t.shared.tokens = 0) (hconsistent : t.shared.Consistent)
    (h : ∀ d, d ≠ c → ∀ pub sub, t.calls d ≠ .pinging pub sub) : Single t := by
  have hc : ∀ {d pub sub}, t.calls d = .pinging pub sub → d = c := by
    intro d pub sub hd
    by_contra hne
    exact h d hne pub sub hd
  exact ⟨htokens.le.trans (Nat.zero_le 1), fun _ => htokens,
    fun hd hd' => (hc hd).trans (hc hd').symm, hconsistent⟩

/-- While a token is out, nobody pings. -/
theorem Single.quiescent (hI : Single t) (h : t.shared.tokens ≠ 0) : Quiescent t :=
  fun _ _ _ hc => h (hI.pinging hc)

/-- The token an attempt takes was the only one, and nobody pings. -/
theorem Single.taken {cause : Cause} {ad₀ : Adapter} (hI : Single t)
    (h : t.shared.take cause = some ad₀) :
    ad₀.tokens = 0 ∧ Quiescent t := by
  have htokens := (Adapter.take_spec h).1
  have hle := hI.tokens
  exact ⟨by omega, hI.quiescent (by omega)⟩

/-- When the attempt that pings is over, nobody does. -/
theorem Single.quiescent_update [DecidableEq C] {pub sub : Nat} (hI : Single t)
    (hc : t.calls c = .pinging pub sub) (ad : Adapter) :
    Quiescent (⟨ad, Function.update t.calls c .finished⟩ : State C) := by
  intro d pub' sub' hd
  rcases eq_or_ne d c with rfl | hne
  · cases (Function.update_self ..).symm.trans hd
  · exact hne (hI.unique ((Function.update_of_ne hne ..).symm.trans hd) hc)

/-- **One step keeps it.** An attempt takes the token; it puts one back when it is over, if it plans a
    retry. -/
theorem Single.step [DecidableEq C] (hI : Single t) (hst : Pool.step exec t c a = some u) :
    Single u := by
  obtain ⟨ad, pc, hexec, rfl⟩ := Pool.step_cases hst
  have hmove := exec_moves hexec
  generalize hpc : t.calls c = pc₀ at hmove
  cases hmove with
  | @attempt cause ad₀ duplication htake =>
      obtain ⟨hzero, hquiet⟩ := hI.taken htake
      obtain ⟨-, timers, listeners, created, hsame⟩ := Adapter.take_spec htake
      have hconsistent : ad₀.Consistent := by
        rw [hsame]
        exact ⟨hI.consistent.status, hI.consistent.detached, hI.consistent.attached⟩
      have hdetached := Adapter.redisAttached_of_tokens hzero
      have hothers : ∀ pc d, d ≠ c → ∀ pub sub, Function.update t.calls c pc d ≠ .pinging pub sub := by
        intro pc d hne pub sub
        rw [Function.update_of_ne hne]
        exact hquiet d pub sub
      have hall : Quiescent (⟨ad₀, Function.update t.calls c .finished⟩ : State C) := by
        intro d pub sub
        rcases eq_or_ne d c with rfl | hne
        · intro hd
          cases (Function.update_self ..).symm.trans hd
        · exact hothers _ d hne pub sub
      rcases attachRedisAdapter_cases hdetached duplication with ⟨-, hattach⟩ |
        ⟨fault, -, hattach⟩ | ⟨fault, -, hattach⟩ <;>
        rw [hattach]
      · exact .of_pinging hzero ⟨hconsistent.status, hconsistent.detached,
          hconsistent.attached⟩ (hothers _)
      · refine .of_quiescent ?_ (hconsistent.degrade hdetached fault) hall
        exact (Adapter.degrade_tokens fault).le.trans (by rw [hzero])
      · have hduplicated : ad₀.duplicate.1.Consistent :=
          ⟨hconsistent.status, hconsistent.detached, hconsistent.attached⟩
        refine .of_quiescent ?_ (hduplicated.degrade hdetached fault) hall
        exact (Adapter.degrade_tokens fault).le.trans (by rw [Adapter.duplicate_tokens, hzero])
  | @pong pub sub =>
      have hzero := hI.pinging hpc
      have hdetached := Adapter.redisAttached_of_tokens hzero
      exact .of_quiescent (Adapter.attach_tokens hzero).le (hI.consistent.attach hdetached pub sub)
        (hI.quiescent_update hpc _)
  | @pingFails pub sub fault =>
      have hzero := hI.pinging hpc
      have hdetached := Adapter.redisAttached_of_tokens hzero
      have hdisconnected : ((t.shared.disconnect pub).disconnect sub).Consistent :=
        ⟨hI.consistent.status, hI.consistent.detached, hI.consistent.attached⟩
      refine .of_quiescent ?_ (hdisconnected.degrade hdetached fault) (hI.quiescent_update hpc _)
      rw [Adapter.degrade_tokens, Adapter.disconnect_tokens, Adapter.disconnect_tokens, hzero]
  | redis ready =>
      rw [← hpc, Function.update_eq_self]
      exact ⟨hI.tokens, hI.pinging, hI.unique, hI.consistent.status, hI.consistent.detached,
        hI.consistent.attached⟩
  | dispose =>
      rw [← hpc, Function.update_eq_self]
      have htokens : t.shared.dispose.tokens = t.shared.tokens := by rw [t.shared.dispose_eq]; rfl
      exact ⟨htokens.trans_le hI.tokens, fun hc => htokens.trans (hI.pinging hc), hI.unique,
        hI.consistent.dispose⟩

theorem single_of_run [DecidableEq C] {ready : Bool} (h : Pool.Steps exec (new ready) t) : Single t := by
  refine h.invariant (fun hI _ hst => hI.step hst) (.of_quiescent le_rfl ?_ fun c pub sub hc => by
    cases hc)
  exact ⟨rfl, fun _ => ⟨rfl, rfl, rfl⟩, fun h => by cases h⟩

/-! ## Every connected client is stored, or is being pinged

Clients are numbered in the order of their duplication, so those of an attempt are known by their
numbers. -/

/-- **The invariant** of the runs in which no second `duplicate()` throws: a connected client is stored,
    or belongs to the attempt that pings. -/
def Owned (t : State C) : Prop :=
  ∀ x, t.shared.connected x = true → t.shared.Stores x ∨ ∃ c pub sub, t.calls c = .pinging pub sub ∧
    (x = pub ∨ x = sub)

/-- **One step keeps it**, as the clients that an attempt disconnects are those of its own pair. -/
theorem Owned.step [DecidableEq C] (hJ : Single t) (hI : Owned t) (hok : NoHalfPair t c a)
    (hst : Pool.step exec t c a = some u) : Owned u := by
  obtain ⟨ad, pc, hexec, rfl⟩ := Pool.step_cases hst
  have hmove := exec_moves hexec
  generalize hpc : t.calls c = pc₀ at hmove
  intro x hx
  cases hmove with
  | @attempt cause ad₀ duplication htake =>
      obtain ⟨hzero, hquiet⟩ := hJ.taken htake
      obtain ⟨-, timers, listeners, created, hsame⟩ := Adapter.take_spec htake
      have hstored : ad₀.connected x = true → ad₀.Stores x := by
        rw [hsame]
        intro hx
        rcases hI x hx with hstores | ⟨d, pub, sub, hd, -⟩
        · exact hstores
        · exact absurd hd (hquiet d pub sub)
      rcases attachRedisAdapter_cases (Adapter.redisAttached_of_tokens hzero) duplication with
        ⟨-, hattach⟩ | ⟨fault, -, hattach⟩ | ⟨fault, hsecond, -⟩
      · rw [hattach] at hx ⊢
        have hcases : x = ad₀.duplicated + 1 ∨ x = ad₀.duplicated ∨ ad₀.connected x = true := by
          simp only [Adapter.duplicate, Function.update_apply] at hx
          grind
        rcases hcases with hsub | hpub | hx
        · exact .inr ⟨c, _, _, Function.update_self .., .inr hsub⟩
        · exact .inr ⟨c, _, _, Function.update_self .., .inl hpub⟩
        · exact .inl (hstored hx)
      · rw [hattach] at hx ⊢
        obtain ⟨timers, listeners, hdegrade⟩ := ad₀.degrade_eq fault
        simp only [hdegrade] at hx ⊢
        exact .inl (hstored hx)
      · exact absurd (congrArg (Act.attempt cause) hsecond) (hok cause fault)
  | @pong pub sub =>
      have hdetached := Adapter.redisAttached_of_tokens (hJ.pinging hpc)
      rcases hI x hx with hstores | ⟨d, pub', sub', hd, hx'⟩
      · -- nothing is stored yet
        obtain ⟨-, hpub, hsub⟩ := hJ.consistent.detached hdetached
        unfold Adapter.Stores at hstores
        rw [hpub, hsub] at hstores
        rcases hstores with h | h <;> cases h
      · obtain rfl := hJ.unique hd hpc
        cases hd.symm.trans hpc
        exact .inl (hx'.imp (fun h => congrArg some h.symm) fun h => congrArg some h.symm)
  | @pingFails pub sub fault =>
      obtain ⟨timers, listeners, hdegrade⟩ := ((t.shared.disconnect pub).disconnect sub).degrade_eq fault
      simp only [hdegrade] at hx ⊢
      have hcases : x ≠ pub ∧ x ≠ sub ∧ t.shared.connected x = true := by
        simp only [Adapter.disconnect, Function.update_apply] at hx
        grind
      obtain ⟨hpub, hsub, hx⟩ := hcases
      rcases hI x hx with hstores | ⟨d, pub', sub', hd, hx'⟩
      · exact .inl hstores
      · obtain rfl := hJ.unique hd hpc
        cases hd.symm.trans hpc
        exact absurd hx' (not_or.mpr ⟨hpub, hsub⟩)
  | redis ready =>
      rw [← hpc, Function.update_eq_self]
      exact hI x hx
  | dispose =>
      rw [← hpc, Function.update_eq_self]
      obtain ⟨hx, hnot⟩ := Adapter.dispose_connected.mp hx
      exact .inr ((hI x hx).resolve_left hnot)

theorem owned_of_run [DecidableEq C] {ready : Bool}
    (h : Pool.Run exec NoHalfPair (new ready) t) : Owned t := by
  refine h.invariant_with (fun h => single_of_run h.steps) (fun hJ hI hok hst => hI.step hJ hok hst) ?_
  intro x hx
  cases hx

/-! ## The status and `dispose`

The flag and the status follow the pair that was attached until `dispose` takes it. -/

/-- The flags and the stored clients are the same. -/
structure Adapter.Keeps (ad ad' : Adapter) : Prop where
  redisAttached : ad'.redisAttached = ad.redisAttached
  pubClient     : ad'.pubClient = ad.pubClient
  subClient     : ad'.subClient = ad.subClient
  disposed      : ad'.disposed = ad.disposed

theorem Adapter.degrade_keeps (fault : Fault) : ad.Keeps (ad.degrade fault) := by
  obtain ⟨timers, listeners, heq⟩ := ad.degrade_eq fault
  rw [heq]
  exact ⟨rfl, rfl, rfl, rfl⟩

theorem attachRedisAdapter_keeps (duplication : Duplication) :
    ad.Keeps (attachRedisAdapter ad duplication).1 := by
  cases hattached : ad.redisAttached with
  | true =>
      unfold attachRedisAdapter
      rw [if_pos hattached]
      exact ⟨rfl, rfl, rfl, rfl⟩
  | false =>
      rcases attachRedisAdapter_cases hattached duplication with ⟨-, hattach⟩ |
        ⟨fault, -, hattach⟩ | ⟨fault, -, hattach⟩ <;>
        rw [hattach]
      · exact ⟨rfl, rfl, rfl, rfl⟩
      · exact Adapter.degrade_keeps fault
      · have hkeeps : ad.duplicate.1.Keeps (ad.duplicate.1.degrade fault) := Adapter.degrade_keeps fault
        exact ⟨hkeeps.redisAttached, hkeeps.pubClient, hkeeps.subClient, hkeeps.disposed⟩

/-- Only a ping race that succeeds stores clients, and only `dispose` takes them. -/
theorem Moves.keeps (h : Moves ad pc a ad' pc') :
    ad.Keeps ad' ∨ (a = .pong ∧ ∃ pub sub, ad' = ad.attach pub sub) ∨
      (a = .dispose ∧ ad' = ad.dispose) := by
  cases h with
  | @attempt cause ad₀ duplication htake =>
      have hkeeps : ad₀.Keeps (attachRedisAdapter ad₀ duplication).1 :=
        attachRedisAdapter_keeps duplication
      obtain ⟨-, timers, listeners, created, rfl⟩ := Adapter.take_spec htake
      exact .inl ⟨hkeeps.redisAttached, hkeeps.pubClient, hkeeps.subClient, hkeeps.disposed⟩
  | pong => exact .inr (.inl ⟨rfl, _, _, rfl⟩)
  | @pingFails pub sub fault =>
      have hkeeps : ((ad.disconnect pub).disconnect sub).Keeps
        (((ad.disconnect pub).disconnect sub).degrade fault) :=
        Adapter.degrade_keeps fault
      exact .inl ⟨hkeeps.redisAttached, hkeeps.pubClient, hkeeps.subClient, hkeeps.disposed⟩
  | redis ready => exact .inl ⟨rfl, rfl, rfl, rfl⟩
  | dispose => exact .inr (.inr ⟨rfl, rfl⟩)

/-- As long as `dispose` meets no pair, the pair that was attached is stored. -/
theorem stored_of_run [DecidableEq C] {ready : Bool} (h : Pool.Run exec NoPairDisposed (new ready) t)
    (hattached : t.shared.redisAttached = true) : t.shared.pubClient ≠ none := by
  refine h.invariant (I := fun t => t.shared.redisAttached = true → t.shared.pubClient ≠ none) ?_
    (fun h => by cases h) hattached
  intro t c a u hI hok hst hattached
  obtain ⟨ad, pc, hexec, rfl⟩ := Pool.step_cases hst
  rcases (exec_moves hexec).keeps with hkeeps | ⟨-, pub, sub, rfl⟩ | ⟨ha, rfl⟩
  · rw [hkeeps.pubClient]
    exact hI (hkeeps.redisAttached.symm.trans hattached)
  · exact Option.some_ne_none pub
  · rw [Adapter.dispose_eq] at hattached
    exact absurd (hok ha) (hI hattached)

/-- After `dispose`, nothing is stored any more, as long as no ping race succeeds. -/
theorem released_of_run [DecidableEq C] {ready : Bool} (h : Pool.Run exec NoLatePong (new ready) t)
    (hdisposed : t.shared.disposed = true) : t.shared.pubClient = none ∧ t.shared.subClient = none := by
  refine h.invariant (I := fun t => t.shared.disposed = true → t.shared.pubClient = none ∧
    t.shared.subClient = none) ?_
    (fun _ => ⟨rfl, rfl⟩) hdisposed
  intro t c a u hI hok hst hdisposed
  obtain ⟨ad, pc, hexec, rfl⟩ := Pool.step_cases hst
  rcases (exec_moves hexec).keeps with hkeeps | ⟨ha, pub, sub, rfl⟩ | ⟨-, rfl⟩
  · rw [hkeeps.pubClient, hkeeps.subClient]
    exact hI (hkeeps.disposed.symm.trans hdisposed)
  · have hnot : t.shared.disposed = false := hok ha
    exact absurd (hnot.symm.trans hdisposed) Bool.false_ne_true
  · rw [Adapter.dispose_eq]
    exact ⟨rfl, rfl⟩

/-- **The clients are accounted for**, in every interleaving of attempts, retries and `dispose`:
    * at most one pair is attached in the whole run;
    * unless a second `duplicate()` throws, a client that is connected while no attempt is pending is a
      stored one;
    * unless `dispose` meets an attached pair, the status is attached iff an attached pair is stored;
    * unless a second `duplicate()` throws, or a ping race succeeds after `dispose`, no client is
      connected once `dispose` was called and no attempt is pending. -/
theorem clients_accounted {C : Type} [DecidableEq C] (ready : Bool) :
    (∀ t : State C, Pool.Steps exec (new ready) t → t.shared.pairs.length ≤ 1) ∧
      (∀ t : State C, Pool.Run exec NoHalfPair (new ready) t → Quiescent t →
        ∀ client, t.shared.connected client = true → t.shared.Stores client) ∧
      (∀ t : State C, Pool.Run exec NoPairDisposed (new ready) t →
        (t.shared.status.isAttached = true ↔
          ∃ pub sub, t.shared.pubClient = some pub ∧ t.shared.subClient = some sub ∧
            (pub, sub) ∈ t.shared.pairs)) ∧
      ∀ t : State C, Pool.Run exec (fun s c a => NoHalfPair s c a ∧ NoLatePong s c a) (new ready) t →
        t.shared.disposed = true → Quiescent t → ∀ client, t.shared.connected client = false := by
  have howned : ∀ t : State C, Pool.Run exec NoHalfPair (new ready) t → Quiescent t →
      ∀ client, t.shared.connected client = true → t.shared.Stores client := by
    intro t hrun hquiet client hconnected
    rcases owned_of_run hrun client hconnected with hstores | ⟨c, pub, sub, hc, -⟩
    · exact hstores
    · exact absurd hc (hquiet c pub sub)
  refine ⟨fun t hrun => ?_, howned, fun t hrun => ?_, fun t hrun hdisposed hquiet client => ?_⟩
  · have hconsistent := (single_of_run hrun).consistent
    cases hattached : t.shared.redisAttached with
    | false =>
        rw [(hconsistent.detached hattached).1]
        exact Nat.zero_le 1
    | true =>
        obtain ⟨pub, sub, hpairs, -⟩ := hconsistent.attached hattached
        rw [hpairs]
        exact le_rfl
  · have hconsistent := (single_of_run hrun.steps).consistent
    have hstatus : t.shared.status.isAttached = t.shared.redisAttached := hconsistent.status
    rw [hstatus]
    constructor
    · intro hattached
      obtain ⟨pub, sub, hpairs, ⟨hpub, hsub⟩ | ⟨hpub, -⟩⟩ := hconsistent.attached hattached
      · exact ⟨pub, sub, hpub, hsub, by rw [hpairs]; exact List.mem_singleton_self _⟩
      · exact absurd hpub (stored_of_run hrun hattached)
    · rintro ⟨pub, sub, hpub, -, -⟩
      cases hattached : t.shared.redisAttached with
      | false =>
          obtain ⟨-, hnone, -⟩ := hconsistent.detached hattached
          cases hpub.symm.trans hnone
      | true => rfl
  · obtain ⟨hpub, hsub⟩ := released_of_run (hrun.mono fun _ _ _ h => h.2) hdisposed
    cases hconnected : t.shared.connected client with
    | false => rfl
    | true =>
        rcases howned t (hrun.mono fun _ _ _ h => h.1) hquiet client hconnected with hstored | hstored
        · cases hpub.symm.trans hstored
        · cases hsub.symm.trans hstored

/-- Client 0 is connected and not stored, and the attempt is over. -/
def leaks {C : Type} (c : C) (t : State C) : Bool :=
  t.shared.connected 0 && decide (t.calls c = .finished) && t.shared.pubClient.isNone &&
    t.shared.subClient.isNone

/-- The first attempt gets one client, and the second `duplicate()` throws: nothing disconnects the
    client. -/
theorem client_leaks : ¬ ∀ t : State (Fin 1), Pool.Steps exec (new true) t → Quiescent t →
    ∀ client, t.shared.connected client = true → t.shared.Stores client := by
  intro hclaim
  have hrun : (Pool.replay exec Pool.anyStep (new true) (Pool.turns 1
      [(0, .attempt .createIOServer (.secondThrows ⟨"ENOMEM", "2026-01-01T00:00:00.000Z"⟩))])).any
        (leaks 0) = true := by decide +kernel
  obtain ⟨t, hr, hleaks⟩ := Pool.exists_run_of_replay hrun
  unfold leaks at hleaks
  simp only [Bool.and_eq_true, decide_eq_true_eq, Option.isNone_iff_eq_none] at hleaks
  obtain ⟨⟨⟨hconnected, hfinished⟩, hpub⟩, hsub⟩ := hleaks
  have hquiet : Quiescent t := by
    intro c pub sub hc
    rw [Subsingleton.elim c 0, hfinished] at hc
    cases hc
  rcases hclaim t hr hquiet 0 hconnected with hstored | hstored
  · cases hpub.symm.trans hstored
  · cases hsub.symm.trans hstored

end RedisIoAdapter

end NestApp
