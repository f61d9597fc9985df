import Mathlib.Data.List.Nodup
import Mathlib.Data.List.Perm.Subperm
import Mathlib.Order.Nat
import Mathlib.Tactic.Choose
import NestApp.Lib.Pool

/-!
# `Realtime.ConnectLimit` — the limit on new sockets of an address

`checkConnectRateLimit` counts the attempts of an address in a Redis key: `INCR`, and after the first
of a window an `EXPIRE` of 60 seconds, as a second command. Whatever fails, the attempt is admitted,
and nothing repairs the key. So there are two ways to a key that never expires: an `EXPIRE` that fails
before it executes, and an `INCR` that creates the key while its answer is lost (sent again, it counts
2, and only the count 1 sets the expiry).

`no_permanent_ban`: in every run in which neither happens, each key of an address with no check in
flight expires in at most 60 seconds, and an address that stayed away for 60 seconds is admitted; in
every run in which no command fails, a counting window admits at most `limit` attempts.
`limit_bans_forever` is a run with a failing `EXPIRE`.

Redis executes one command at a time, and a command that failed for its caller may have been executed.
A check is a call with its own place in the code, so the checks of one address interleave, and the
count each has been given is a ticket it holds.
-/

namespace NestApp

namespace ConnectLimit

/-! ## Redis

Keys with a count and, perhaps, a time at which they go. A key that has gone is as good as none. -/

/-- `CONNECT_RATE_WINDOW_SECONDS` -/
def connectRateWindowSeconds : Nat := 60

/-- The window in milliseconds. -/
def connectRateWindow : Nat := connectRateWindowSeconds * 1000

def connectKey (address : String) : String := "ws:connect:" ++ address

structure RedisKey where
  value  : Nat
  /-- the clock reading from which the key is gone (`none`: it stays) -/
  expiry : Option Nat
  /-- which counting window of the key this is -/
  window : Nat
deriving DecidableEq

structure Server where
  now     : Nat
  keys    : String → Option RedisKey
  /-- how many counting windows of a key have begun -/
  windows : String → Nat

namespace Server

def get (sv : Server) (key : String) : Option RedisKey :=
  (sv.keys key).filter fun k => k.expiry.all (sv.now < ·)

def put (sv : Server) (key : String) (k : RedisKey) : Server :=
  { sv with keys := Function.update sv.keys key (some k) }

/-- `INCR`, with the key it leaves: an existing expiry is kept. -/
def incr (sv : Server) (key : String) : Server × RedisKey :=
  match sv.get key with
  | some k =>
      let k' := { k with value := k.value + 1 }
      (sv.put key k', k')
  | none   =>
      let k' := ⟨1, none, sv.windows key⟩
      ({ sv.put key k' with windows := Function.update sv.windows key (sv.windows key + 1) }, k')

/-- `EXPIRE key 60` -/
def expire (sv : Server) (key : String) : Server :=
  match sv.get key with
  | some k => sv.put key { k with expiry := some (sv.now + connectRateWindow) }
  | none   => sv

end Server

/-! ## `checkConnectRateLimit`

`INCR`, then `EXPIRE` for whoever counted 1, then the decision. Any failure admits. -/

/-- An answered `INCR`: the number it counted, and in which window. -/
structure Ticket where
  window  : Nat
  current : Nat
deriving DecidableEq

inductive Pc where
  | start (address : String)
  /-- waits for `INCR` -/
  | incr (address : String)
  /-- waits for `EXPIRE` -/
  | expire (address : String) (ticket : Ticket)
  /-- `next()` was called, with no error if the attempt is admitted -/
  | done (address : String) (ticket : Option Ticket) (admitted : Bool)
deriving DecidableEq

inductive Act where
  /-- the socket connects -/
  | connect
  /-- Redis executes the command and answers -/
  | answered
  /-- Redis executes the command, but the answer is lost, and the client sends the command again -/
  | executes
  /-- the command rejects -/
  | fails
  | tick (ms : Nat)
deriving DecidableEq

def exec {C : Type} (limit : Nat) : Pool.Code Server Pc Act C := fun _ sv pc a =>
  match a, pc with
  | .connect, .start address          => some (sv, .incr address)
  | .answered, .incr address          =>
      let (sv', k) := sv.incr (connectKey address)
      if k.value = 1 then some (sv', .expire address ⟨k.window, k.value⟩)
      else some (sv', .done address (some ⟨k.window, k.value⟩) (k.value ≤ limit))
  | .answered, .expire address ticket =>
      some (sv.expire (connectKey address), .done address (some ticket) (ticket.current ≤ limit))
  | .executes, .incr address          => some ((sv.incr (connectKey address)).1, .incr address)
  | .executes, .expire address ticket => some (sv.expire (connectKey address), .expire address ticket)
  -- the `catch`: log and allow
  | .fails, .incr address             => some (sv, .done address none true)
  | .fails, .expire address ticket    => some (sv, .done address (some ticket) true)
  | .tick ms, pc                      => some ({ sv with now := sv.now + ms }, pc)
  | _, _                              => none

namespace Pc

def address : Pc → String
  | start address | incr address | expire address _ | done address _ _ => address

/-- The check has been called and has not called `next()`. -/
def inFlight : Pc → Bool
  | incr _ | expire _ _      => true
  | start _ | done _ _ _ => false

def ticket : Pc → Option Ticket
  | expire _ ticket   => some ticket
  | done _ ticket _   => ticket
  | start _ | incr _ => none

end Pc

abbrev State (C : Type) := Pool.Config Server Pc C

/-- No key, and no socket has connected: call `c` is the attempt of a socket from `addresses c`. -/
def boot {C : Type} (addresses : C → String) (now : Nat) : State C :=
  ⟨⟨now, fun _ => none, fun _ => 0⟩, fun c => .start (addresses c)⟩

/-- The address has no check in flight. -/
def Settled {C : Type} (s : State C) (address : String) : Prop :=
  ∀ c, (s.calls c).address = address → (s.calls c).inFlight = false

/-- Every live key of the address expires in at most 60 seconds. -/
def Expires (sv : Server) (address : String) : Prop :=
  ∀ k, sv.get (connectKey address) = some k → ∃ e, k.expiry = some e ∧ e ≤ sv.now + connectRateWindow

/-! ## Conditions on the steps of a run

Three conditions for three parts of the property: that an expiry is not lost, that nothing fails at
all, and that an address stays away. -/

/-- The step does not lose the expiry of a key: an `INCR` whose answer is lost does not create the key,
    and an `EXPIRE` does not fail before it has executed. -/
def KeepsExpiry {C : Type} : Pool.Allowed Server Pc Act C := fun s c a =>
  match a, s.calls c with
  | .executes, .incr address       => s.shared.get (connectKey address) ≠ none
  | .fails, .expire address ticket =>
      ∀ k, s.shared.get (connectKey address) = some k → k.window = ticket.window → k.expiry ≠ none
  | _, _                           => True

/-- No command fails. -/
def NoFailure {C : Type} : Pool.Allowed Server Pc Act C := fun _ _ a => a ≠ .executes ∧ a ≠ .fails

/-- No check of the address gets an answer: it makes no attempt, or is about to. -/
def Away {C : Type} (address : String) : Pool.Allowed Server Pc Act C := fun s c a =>
  (s.calls c).address = address → (s.calls c).inFlight = true → ∃ ms, a = .tick ms

/-! ## What a step can do

Each command and what it leaves of the key, and of the keys of others. -/

/-- What `INCR` can do. -/
inductive Incr (sv : Server) (key : String) : Server → RedisKey → Prop where
  | counts {k} (h : sv.get key = some k) :
      Incr sv key (sv.put key { k with value := k.value + 1 }) { k with value := k.value + 1 }
  | creates (h : sv.get key = none) :
      Incr sv key { sv.put key ⟨1, none, sv.windows key⟩ with
        windows := Function.update sv.windows key (sv.windows key + 1) }
        ⟨1, none, sv.windows key⟩

/-- What a step can do. -/
inductive Moves (limit : Nat) (sv : Server) : Pc → Act → Server → Pc → Prop where
  | connect {address} : Moves limit sv (.start address) .connect sv (.incr address)
  | first {address sv' k} (h : Incr sv (connectKey address) sv' k) (hvalue : k.value = 1) :
      Moves limit sv (.incr address) .answered sv' (.expire address ⟨k.window, k.value⟩)
  | later {address sv' k} (h : Incr sv (connectKey address) sv' k) (hvalue : k.value ≠ 1) :
      Moves limit sv (.incr address) .answered sv'
        (.done address (some ⟨k.window, k.value⟩) (k.value ≤ limit))
  | expire {address ticket} :
      Moves limit sv (.expire address ticket) .answered (sv.expire (connectKey address))
        (.done address (some ticket) (ticket.current ≤ limit))
  | incrLost {address sv' k} (h : Incr sv (connectKey address) sv' k) :
      Moves limit sv (.incr address) .executes sv' (.incr address)
  | expireLost {address ticket} :
      Moves limit sv (.expire address ticket) .executes (sv.expire (connectKey address))
        (.expire address ticket)
  | incrFails {address} : Moves limit sv (.incr address) .fails sv (.done address none true)
  | expireFails {address ticket} :
      Moves limit sv (.expire address ticket) .fails sv (.done address (some ticket) true)
  | tick {pc} (ms : Nat) : Moves limit sv pc (.tick ms) { sv with now := sv.now + ms } pc

variable {C : Type} {limit : Nat} {sv sv' : Server} {pc pc' : Pc} {a : Act} {c d : C}
  {key address : String} {k : RedisKey} {ticket : Ticket}

theorem connectKey_inj {a b : String} : connectKey a = connectKey b ↔ a = b := by
  unfold connectKey
  constructor
  · intro h
    have hlist := congrArg String.toList h
    rw [String.toList_append, String.toList_append] at hlist
    exact String.ext (List.append_cancel_left hlist)
  · rintro rfl
    rfl

namespace Server

theorem get_eq_some : sv.get key = some k ↔ sv.keys key = some k ∧ ∀ e,
    k.expiry = some e → sv.now < e := by
  unfold get
  rw [Option.filter_eq_some_iff]
  refine and_congr_right fun _ => ?_
  cases k.expiry <;> simp

/-- A key without an expiry is live. -/
theorem get_of_expiry_none (h : sv.keys key = some k) (he : k.expiry = none) : sv.get key = some k := by
  rw [get_eq_some]
  refine ⟨h, fun e he' => ?_⟩
  rw [he] at he'
  cases he'

@[simp] theorem put_now : (sv.put key k).now = sv.now := rfl

@[simp] theorem put_windows : (sv.put key k).windows = sv.windows := rfl

@[simp] theorem put_keys : (sv.put key k).keys = Function.update sv.keys key (some k) := rfl

theorem incr_cases (sv : Server) (key : String) : Incr sv key (sv.incr key).1 (sv.incr key).2 := by
  unfold incr
  cases h : sv.get key with
  | some k => exact .counts h
  | none => exact .creates h

theorem expire_cases (sv : Server) (key : String) :
    (∃ k, sv.get key = some k ∧
      sv.expire key = sv.put key { k with expiry := some (sv.now + connectRateWindow) }) ∨
      (sv.get key = none ∧ sv.expire key = sv) := by
  unfold expire
  cases h : sv.get key with
  | some k => exact .inl ⟨k, rfl, rfl⟩
  | none => exact .inr ⟨rfl, rfl⟩

end Server

theorem exec_moves (h : exec limit c sv pc a = some (sv', pc')) : Moves limit sv pc a sv' pc' := by
  cases a with
  | tick ms =>
      cases h
      exact .tick ms
  | answered =>
      cases pc with
      | incr address =>
          have hincr := sv.incr_cases (connectKey address)
          simp only [exec] at h
          split at h
          · next hvalue =>
            cases h
            exact .first hincr hvalue
          · next hvalue =>
            cases h
            exact .later hincr hvalue
      | expire address ticket =>
          cases h
          exact .expire
      | start address => cases h
      | done address ticket admitted => cases h
  | connect =>
      cases pc with
      | start address =>
          cases h
          exact .connect
      | incr address => cases h
      | expire address ticket => cases h
      | done address ticket admitted => cases h
  | executes =>
      cases pc with
      | incr address =>
          cases h
          exact .incrLost (sv.incr_cases (connectKey address))
      | expire address ticket =>
          cases h
          exact .expireLost
      | start address => cases h
      | done address ticket admitted => cases h
  | fails =>
      cases pc with
      | incr address =>
          cases h
          exact .incrFails
      | expire address ticket =>
          cases h
          exact .expireFails
      | start address => cases h
      | done address ticket admitted => cases h

theorem Incr.now (h : Incr sv key sv' k) : sv'.now = sv.now := by
  cases h <;> rfl

theorem Incr.keys (h : Incr sv key sv' k) : sv'.keys = Function.update sv.keys key (some k) := by
  cases h <;> rfl

theorem Incr.keys_ne {key' : String} (h : Incr sv key sv' k) (hkey : key' ≠ key) :
    sv'.keys key' = sv.keys key' := by
  rw [h.keys, Function.update_of_ne hkey]

theorem Server.expire_now : (sv.expire key).now = sv.now := by
  rcases sv.expire_cases key with ⟨k, -, h⟩ | ⟨-, h⟩ <;> rw [h]
  rfl

theorem Moves.address_eq (h : Moves limit sv pc a sv' pc') : pc'.address = pc.address := by
  cases h <;> rfl

theorem Moves.now_le (h : Moves limit sv pc a sv' pc') : sv.now ≤ sv'.now := by
  cases h with
  | first hincr | later hincr | incrLost hincr => exact hincr.now.ge
  | expire | expireLost => exact Server.expire_now.ge
  | connect | incrFails | expireFails => exact le_rfl
  | tick ms => exact Nat.le_add_right _ _

theorem Server.expire_keys_ne {key' : String} (hkey : key' ≠ key) :
    (sv.expire key).keys key' = sv.keys key' := by
  rcases sv.expire_cases key with ⟨k, -, h⟩ | ⟨-, h⟩
  · rw [h, Server.put_keys, Function.update_of_ne hkey]
  · rw [h]

/-- A check touches no key but that of its address. -/
theorem Moves.keys_ne (h : Moves limit sv pc a sv' pc') (hkey : key ≠ connectKey pc.address) :
    sv'.keys key = sv.keys key := by
  cases h with
  | connect | incrFails | expireFails | tick => rfl
  | first hincr | later hincr | incrLost hincr => exact hincr.keys_ne hkey
  | expire | expireLost => exact Server.expire_keys_ne hkey

/-- A step in which no check gets an answer touches no key. -/
theorem Moves.keys_idle (h : Moves limit sv pc a sv' pc')
    (hidle : pc.inFlight = true → ∃ ms, a = .tick ms) :
    sv'.keys = sv.keys := by
  cases h with
  | connect | incrFails | expireFails | tick => rfl
  | first | later | incrLost | expire | expireLost =>
      obtain ⟨ms, ha⟩ := hidle rfl
      cases ha

theorem Server.expire_windows : (sv.expire key).windows = sv.windows := by
  rcases sv.expire_cases key with ⟨k, -, h⟩ | ⟨-, h⟩ <;> rw [h]
  rfl

theorem Incr.windows_le {key' : String} (h : Incr sv key sv' k) :
    sv.windows key' ≤ sv'.windows key' := by
  cases h with
  | counts => exact le_rfl
  | creates =>
      show sv.windows key' ≤ Function.update sv.windows key (sv.windows key + 1) key'
      rcases eq_or_ne key' key with rfl | hne
      · rw [Function.update_self]
        exact Nat.le_succ _
      · rw [Function.update_of_ne hne]

theorem Moves.windows_le (h : Moves limit sv pc a sv' pc') : sv.windows key ≤ sv'.windows key := by
  cases h with
  | first hincr | later hincr | incrLost hincr => exact hincr.windows_le
  | expire | expireLost => exact (congrFun Server.expire_windows key).ge
  | connect | incrFails | expireFails | tick => exact le_rfl

/-- Where the ticket found after a step comes from. -/
theorem Moves.ticket_cases (h : Moves limit sv pc a sv' pc') (hticket : pc'.ticket = some ticket) :
    pc.ticket = some ticket ∨ ∃ k, Incr sv (connectKey pc.address) sv' k ∧
      ticket = ⟨k.window, k.value⟩ := by
  cases h with
  | connect | incrLost | incrFails => cases hticket
  | expire | expireLost | expireFails | tick => exact .inl hticket
  | @first _ _ k h _ =>
      cases hticket
      exact .inr ⟨k, h, rfl⟩
  | @later _ _ k h _ =>
      cases hticket
      exact .inr ⟨k, h, rfl⟩

/-- Where the key found after a step comes from. -/
theorem Moves.key_cases (h : Moves limit sv pc a sv' pc')
    (hkey : sv'.keys (connectKey address) = some k) :
    (sv.keys (connectKey address) = some k ∧
        ∀ ticket, pc = .expire address ticket → k.expiry = none → pc' = pc ∨ a = .fails) ∨
      (∃ k₀, sv.get (connectKey address) = some k₀ ∧ pc = .incr address ∧
        k = { k₀ with value := k₀.value + 1 }) ∨
      (sv.get (connectKey address) = none ∧ pc = .incr address ∧
        k = ⟨1, none, sv.windows (connectKey address)⟩ ∧
        (a = .executes ∨ pc' = .expire address ⟨k.window, 1⟩) ∧
        sv'.windows (connectKey address) = sv.windows (connectKey address) + 1) ∨
      ∃ k₀ ticket, sv.get (connectKey address) = some k₀ ∧ pc = .expire address ticket ∧
        k = { k₀ with expiry := some (sv.now + connectRateWindow) } := by
  by_cases haddress : pc.address = address
  · subst haddress
    cases h with
    | connect | incrFails => exact .inl ⟨hkey, fun ticket h => by cases h⟩
    | tick => exact .inl ⟨hkey, fun ticket h _ => .inl rfl⟩
    | expireFails => exact .inl ⟨hkey, fun ticket h _ => .inr rfl⟩
    | @first address _ k' hincr hvalue =>
        have hk : k' = k := by simpa [hincr.keys, Pc.address] using hkey
        subst hk
        cases hincr with
        | counts hget => exact .inr (.inl ⟨_, hget, rfl, rfl⟩)
        | creates hget => exact .inr (.inr (.inl ⟨hget, rfl, rfl, .inr rfl, Function.update_self ..⟩))
    | @later address _ k' hincr hvalue =>
        have hk : k' = k := by simpa [hincr.keys, Pc.address] using hkey
        subst hk
        cases hincr with
        | counts hget => exact .inr (.inl ⟨_, hget, rfl, rfl⟩)
        | creates hget => exact absurd rfl hvalue
    | @incrLost address _ k' hincr =>
        have hk : k' = k := by simpa [hincr.keys, Pc.address] using hkey
        subst hk
        cases hincr with
        | counts hget => exact .inr (.inl ⟨_, hget, rfl, rfl⟩)
        | creates hget => exact .inr (.inr (.inl ⟨hget, rfl, rfl, .inl rfl, Function.update_self ..⟩))
    | @expire address ticket =>
        rcases sv.expire_cases (connectKey address) with ⟨k₀, hget, heq⟩ | ⟨hget, heq⟩
        · have hk : { k₀ with expiry := some (sv.now + connectRateWindow) } = k := by
            simpa [heq, Pc.address] using hkey
          exact .inr (.inr (.inr ⟨k₀, ticket, hget, rfl, hk.symm⟩))
        · have hkey' : sv.keys (connectKey address) = some k := by simpa [heq, Pc.address] using hkey
          refine .inl ⟨hkey', fun _ _ hnone => ?_⟩
          rw [Server.get_of_expiry_none hkey' hnone] at hget
          cases hget
    | @expireLost address ticket =>
        rcases sv.expire_cases (connectKey address) with ⟨k₀, hget, heq⟩ | ⟨hget, heq⟩
        · have hk : { k₀ with expiry := some (sv.now + connectRateWindow) } = k := by
            simpa [heq, Pc.address] using hkey
          exact .inr (.inr (.inr ⟨k₀, ticket, hget, rfl, hk.symm⟩))
        · exact .inl ⟨by simpa [heq, Pc.address] using hkey, fun _ _ _ => .inl rfl⟩
  · have hne : connectKey address ≠ connectKey pc.address :=
      fun heq => haddress (connectKey_inj.mp heq).symm
    refine .inl ⟨(h.keys_ne hne).symm.trans hkey, ?_⟩
    rintro ticket rfl
    exact absurd rfl haddress

/-! ## Every key expires, or waits for its expiry

Between `INCR` and `EXPIRE` a key has no expiry, and then the check that created it is about to set
one. Under the condition it does. -/

variable {s t u : State C}

/-- The key expires in at most 60 seconds, or the check that created it is about to set its expiry. -/
def Guarded (t : State C) (address : String) (k : RedisKey) : Prop :=
  (∃ e, k.expiry = some e ∧ e ≤ t.shared.now + connectRateWindow) ∨
    (k.expiry = none ∧ ∃ c ticket, t.calls c = .expire address ticket ∧ ticket.window = k.window)

/-- **The invariant** of the runs in which every `EXPIRE` gets through: no key is left behind without an
    expiry. -/
def AllGuarded (t : State C) : Prop :=
  ∀ address k, t.shared.keys (connectKey address) = some k → Guarded t address k

theorem Guarded.mono {k' : RedisKey} (h : Guarded t address k) (hexpiry : k'.expiry = k.expiry)
    (hwindow : k'.window = k.window)
    (hnow : t.shared.now ≤ u.shared.now)
    (hcalls : ∀ d ticket, t.calls d = .expire address ticket → ticket.window = k.window →
      k.expiry = none →
      u.calls d = .expire address ticket) :
    Guarded u address k' := by
  unfold Guarded
  rw [hexpiry, hwindow]
  rcases h with ⟨e, he, hle⟩ | ⟨hnone, d, ticket, hd, hticket⟩
  · have hle' : e ≤ u.shared.now + connectRateWindow := hle.trans (Nat.add_le_add_right hnow _)
    exact .inl ⟨e, he, hle'⟩
  · exact .inr ⟨hnone, d, ticket, hcalls d ticket hd hticket hnone, hticket⟩

/-- **One step keeps it**, by what the step does to the keys: a key is new, counted once more, given its
    expiry, or gone. -/
theorem AllGuarded.step [DecidableEq C] (hI : AllGuarded t) (hok : KeepsExpiry t c a)
    (hst : Pool.step (exec limit) t c a = some u) : AllGuarded u := by
  obtain ⟨sv, pc, hexec, rfl⟩ := Pool.step_cases hst
  have hmove := exec_moves hexec
  intro address k hkey
  -- as long as `c` keeps waiting for its `EXPIRE`, whoever has to set the expiry of the key still has to
  have hcalls : ∀ {d ticket}, t.calls d = .expire address ticket →
    (d = c → pc = .expire address ticket) →
      Function.update t.calls c pc d = .expire address ticket := by
    intro d ticket hd hc
    by_cases hdc : d = c
    · rw [hdc, Function.update_self]
      exact hc hdc
    · rw [Function.update_of_ne hdc]
      exact hd
  rcases hmove.key_cases hkey with ⟨hkey', hwaits⟩ | ⟨k₀, hget, hpc, rfl⟩ |
    ⟨hget, hpc, rfl, ha, -⟩ | ⟨k₀, ticket, hget, hpc, rfl⟩
  · -- the key of before: only a failing `EXPIRE` could leave it without an expiry
    refine (hI address k hkey').mono rfl rfl hmove.now_le fun d ticket hd hticket hnone => hcalls hd ?_
    rintro rfl
    rcases hwaits ticket hd hnone with hpc | rfl
    · exact hpc.trans hd
    · unfold KeepsExpiry at hok
      rw [hd] at hok
      exact absurd hnone (hok k (Server.get_of_expiry_none hkey' hnone) hticket.symm)
  · -- `INCR` keeps the expiry of a live key
    have hguarded := hI address k₀ (Server.get_eq_some.mp hget).1
    refine hguarded.mono rfl rfl hmove.now_le fun d ticket hd _ _ => hcalls hd ?_
    rintro rfl
    cases hpc.symm.trans hd
  · rcases ha with rfl | hpc'
    · unfold KeepsExpiry at hok
      rw [hpc] at hok
      exact absurd hget hok
    · exact .inr ⟨rfl, c, _, (Function.update_self ..).trans hpc', rfl⟩
  · exact .inl ⟨_, rfl, Nat.add_le_add_right hmove.now_le _⟩

theorem allGuarded_of_run [DecidableEq C] {addresses : C → String} {now : Nat}
    (h : Pool.Run (exec limit) KeepsExpiry (boot addresses now) t) : AllGuarded t := by
  refine h.invariant (fun hI hok hst => hI.step hok hst) ?_
  intro address k hkey
  cases hkey

/-- With no check in flight, the key expires. -/
theorem AllGuarded.expires (hI : AllGuarded t) (hsettled : Settled t address)
    (hkey : t.shared.keys (connectKey address) = some k) : ∃ e, k.expiry = some e ∧
      e ≤ t.shared.now + connectRateWindow := by
  rcases hI address k hkey with hexpiry | ⟨-, c, ticket, hc, -⟩
  · exact hexpiry
  · have hidle := hsettled c (by rw [hc]; rfl)
    rw [hc] at hidle
    cases hidle

/-! ## An address that stayed away is admitted

Its key expires in the meantime, so the next check counts 1. -/

/-- The key of an address that stays away is as it was. -/
theorem keys_of_away [DecidableEq C] (h : Pool.Run (exec limit) (Away address) t u) :
    u.shared.keys (connectKey address) = t.shared.keys (connectKey address) := by
  refine h.invariant (I := fun u => u.shared.keys (connectKey address) = t.shared.keys
    (connectKey address)) ?_ rfl
  intro u c a v hI haway hst
  obtain ⟨sv, pc, hexec, rfl⟩ := Pool.step_cases hst
  have hmove := exec_moves hexec
  by_cases haddress : (u.calls c).address = address
  · exact (congrFun (hmove.keys_idle (haway haddress)) _).trans hI
  · have hne : connectKey address ≠ connectKey (u.calls c).address :=
      fun heq => haddress (connectKey_inj.mp heq).symm
    exact (hmove.keys_ne hne).trans hI

/-- A check that is going to admit its attempt. -/
def Pc.admits (limit : Nat) : Pc → Prop
  | expire _ ticket    => ticket.current ≤ limit
  | done _ _ admitted => admitted = true
  | start _ | incr _  => False

theorem Moves.admits (h : Moves limit sv pc a sv' pc') (hpc : pc.admits limit) : pc'.admits limit := by
  cases h with
  | connect | first | later | incrLost | incrFails => exact hpc.elim
  | expire => exact decide_eq_true hpc
  | expireLost | tick => exact hpc
  | expireFails => rfl

theorem admits_of_run [DecidableEq C] (h : Pool.Steps (exec limit) t u) (hc : (t.calls c).admits limit) :
    (u.calls c).admits limit := by
  refine h.invariant (I := fun u => (u.calls c).admits limit) ?_ hc
  intro u d a v hI _ hst
  obtain ⟨sv, pc, hexec, rfl⟩ := Pool.step_cases hst
  by_cases hdc : c = d
  · subst hdc
    show (Function.update u.calls c pc c).admits limit
    rw [Function.update_self]
    exact (exec_moves hexec).admits hI
  · show (Function.update u.calls d pc c).admits limit
    rw [Function.update_of_ne hdc]
    exact hI

/-- The first command of a check that finds no live key. -/
theorem Moves.admits_of_get_none (h : Moves limit sv pc a sv' pc') (hpc : pc = .incr address)
    (hpc' : pc' ≠ .incr address)
    (hget : sv.get (connectKey address) = none) (hlimit : 1 ≤ limit) : pc'.admits limit := by
  subst hpc
  cases h with
  | @first _ _ k h hvalue => exact hvalue.le.trans hlimit
  | later h hvalue =>
      cases h with
      | counts hget' =>
          rw [hget] at hget'
          cases hget'
      | creates => exact absurd rfl hvalue
  | incrLost => exact absurd rfl hpc'
  | incrFails => rfl
  | tick => exact absurd rfl hpc'

/-! ## A window admits at most `limit` attempts

Tickets are numbered, and no number is given twice in one window. An attempt is admitted by its number.
-/

/-- The tickets of a key are numbers its windows have counted, and no two are the same. -/
structure Counted (t : State C) : Prop where
  key      : ∀ {address k}, t.shared.keys (connectKey address) = some k →
    k.window < t.shared.windows (connectKey address) ∧ 1 ≤ k.value
  ticket   : ∀ {c T}, (t.calls c).ticket = some T →
    T.window < t.shared.windows (connectKey (t.calls c).address) ∧ 1 ≤ T.current
  counted  : ∀ {c T k}, (t.calls c).ticket = some T →
    t.shared.keys (connectKey (t.calls c).address) = some k →
    T.window = k.window → T.current ≤ k.value
  distinct : ∀ {c d T}, (t.calls c).ticket = some T → (t.calls d).ticket = some T →
    (t.calls c).address = (t.calls d).address → c = d

/-- A number just counted is no ticket yet. -/
theorem Counted.fresh {T : Ticket} (hI : Counted t)
    (hincr : Incr t.shared (connectKey (t.calls d).address) sv' k)
    (hT : (t.calls d).ticket = some T) : T ≠ ⟨k.window, k.value⟩ := by
  rintro rfl
  cases hincr with
  | @counts k₀ hget =>
      have hle := hI.counted hT (Server.get_eq_some.mp hget).1 rfl
      exact absurd hle (Nat.not_succ_le_self _)
  | creates => exact absurd (hI.ticket hT).1 (lt_irrefl _)

/-- **One step keeps it.** A number just counted is larger than those counted before, so it is no ticket
    yet. -/
theorem Counted.step [DecidableEq C] (hI : Counted t) (hst : Pool.step (exec limit) t c a = some u) :
    Counted u := by
  obtain ⟨sv, pc, hexec, rfl⟩ := Pool.step_cases hst
  have hmove := exec_moves hexec
  have haddress : ∀ d, (Function.update t.calls c pc d).address = (t.calls d).address := by
    intro d
    rcases eq_or_ne d c with rfl | hdc
    · rw [Function.update_self, hmove.address_eq]
    · rw [Function.update_of_ne hdc]
  -- a ticket is one of before, or a number the moving check has just counted
  have hticket : ∀ {d T}, (Function.update t.calls c pc d).ticket = some T →
    (t.calls d).ticket = some T ∨
      d = c ∧ ∃ k, Incr t.shared (connectKey (t.calls c).address) sv k ∧ T = ⟨k.window, k.value⟩ := by
    intro d T hT
    rcases eq_or_ne d c with rfl | hdc
    · rw [Function.update_self] at hT
      exact (hmove.ticket_cases hT).imp_right fun h => ⟨rfl, h⟩
    · rw [Function.update_of_ne hdc] at hT
      exact .inl hT
  have hkey : ∀ {address k}, sv.keys (connectKey address) = some k →
    k.window < sv.windows (connectKey address) ∧ 1 ≤ k.value := by
    intro address k hk
    have hwindows : t.shared.windows (connectKey address) ≤ sv.windows (connectKey address) :=
      hmove.windows_le
    rcases hmove.key_cases hk with ⟨hk', -⟩ | ⟨k₀, hget, -, rfl⟩ | ⟨-, -, rfl, -, hnew⟩ |
      ⟨k₀, _, hget, -, rfl⟩
    · exact ⟨(hI.key hk').1.trans_le hwindows, (hI.key hk').2⟩
    · exact ⟨(hI.key (Server.get_eq_some.mp hget).1).1.trans_le hwindows, Nat.le_add_left _ _⟩
    · exact ⟨(Nat.lt_succ_self _).trans_eq hnew.symm, le_rfl⟩
    · have hold := hI.key (Server.get_eq_some.mp hget).1
      exact ⟨hold.1.trans_le hwindows, hold.2⟩
  constructor
  · exact hkey
  · intro d T hT
    rw [haddress]
    rcases hticket hT with hT | ⟨rfl, k, hincr, rfl⟩
    · exact ⟨(hI.ticket hT).1.trans_le hmove.windows_le, (hI.ticket hT).2⟩
    · exact hkey (by rw [hincr.keys, Function.update_self])
  · intro d T k hT hk hwindow
    rw [haddress] at hk
    rcases hticket hT with hT | ⟨rfl, k', hincr, rfl⟩
    · rcases hmove.key_cases hk with ⟨hk', -⟩ | ⟨k₀, hget, -, rfl⟩ | ⟨-, -, rfl, -, -⟩ |
        ⟨k₀, _, hget, -, rfl⟩
      · exact hI.counted hT hk' hwindow
      · exact (hI.counted hT (Server.get_eq_some.mp hget).1 hwindow).trans (Nat.le_succ _)
      · exact absurd (hI.ticket hT).1 (hwindow.ge.not_gt)
      · have hle : T.current ≤ k₀.value := hI.counted hT (Server.get_eq_some.mp hget).1 hwindow
        exact hle
    · have hk' : k' = k := by simpa [hincr.keys] using hk
      rw [hk']
  · intro d d' T hT hT' heq
    rw [haddress, haddress] at heq
    rcases hticket hT with hold | ⟨hd, k, hincr, hnew⟩ <;> rcases hticket hT' with hold' |
      ⟨hd', k', hincr', hnew'⟩
    · exact hI.distinct hold hold' heq
    · subst hd'
      rw [← heq] at hincr'
      exact absurd hnew' (hI.fresh hincr' hold)
    · subst hd
      rw [heq] at hincr
      exact absurd hnew (hI.fresh hincr hold')
    · exact hd.trans hd'.symm

/-- While no command fails, an admitted attempt has a number up to `limit`. -/
theorem Moves.within_limit (h : Moves limit sv pc a sv' pc') (hlost : a ≠ .fails)
    (hpc : ∀ {address ticket}, pc = .done address ticket true → ∀ T, ticket = some T → T.current ≤ limit)
    {ticket : Option Ticket} (hpc' : pc' = .done address ticket true) : ∀ T, ticket = some T →
      T.current ≤ limit := by
  intro T hT
  cases h with
  | connect | first | incrLost | expireLost => cases hpc'
  | incrFails | expireFails => exact absurd rfl hlost
  | tick => exact hpc hpc' T hT
  | @later _ _ k _ _ =>
      injection hpc' with _ hticket hadmitted
      obtain rfl := Option.some.inj (hticket.trans hT)
      exact of_decide_eq_true hadmitted
  | @expire _ ticket' =>
      injection hpc' with _ hticket hadmitted
      obtain rfl := Option.some.inj (hticket.trans hT)
      exact of_decide_eq_true hadmitted

theorem counted_of_run [DecidableEq C] {addresses : C → String} {now : Nat}
    (h : Pool.Steps (exec limit) (boot addresses now) t) : Counted t := by
  refine h.invariant (fun hI _ hst => hI.step hst) ?_
  constructor
  · intro address k hkey
    cases hkey
  · intro c T hT
    cases hT
  · intro c T k hT
    cases hT
  · intro c d T hT
    cases hT

theorem within_limit_of_run [DecidableEq C] {addresses : C → String} {now : Nat}
    (h : Pool.Run (exec limit) NoFailure (boot addresses now) t) {T : Ticket}
    (hc : t.calls c = .done address (some T) true) :
    T.current ≤ limit := by
  have hall : ∀ d address ticket, t.calls d = .done address ticket true → ∀ T, ticket = some T →
    T.current ≤ limit := by
    refine h.invariant (I := fun t => ∀ d address ticket, t.calls d = .done address ticket true →
      ∀ T, ticket = some T → T.current ≤ limit) ?_ ?_
    · intro t c a u hI hok hst d address ticket hd
      obtain ⟨sv, pc, hexec, rfl⟩ := Pool.step_cases hst
      rcases eq_or_ne d c with rfl | hdc
      · have hpc : pc = .done address ticket true := (Function.update_self ..).symm.trans hd
        exact (exec_moves hexec).within_limit hok.2 (fun hd => hI d _ _ hd) hpc
      · exact hI d address ticket ((Function.update_of_ne hdc ..).symm.trans hd)
    · intro d address ticket hd
      cases hd
  exact hall c address (some T) hc T rfl

/-- Distinct numbers up to `limit`. -/
theorem Counted.length_le (hI : Counted t) {w : Nat}
    (hlimit : ∀ {c T}, t.calls c = .done address (some T) true → T.current ≤ limit)
    {l : List C} (hnodup : l.Nodup) (hl : ∀ c ∈ l, ∃ n, t.calls c = .done address (some ⟨w, n⟩) true) :
      l.length ≤ limit := by
  choose! n hdone using hl
  have hticket : ∀ c ∈ l, (t.calls c).ticket = some ⟨w, n c⟩ := fun c hc => by rw [hdone c hc]; rfl
  have hmap : (l.map n).Nodup := by
    refine hnodup.map_on fun c hc d hd heq => ?_
    refine hI.distinct (hticket c hc) (heq ▸ hticket d hd) ?_
    rw [hdone c hc, hdone d hd]
    rfl
  have hsub : l.map n ⊆ List.range' 1 limit := by
    intro m hm
    obtain ⟨c, hc, rfl⟩ := List.mem_map.mp hm
    rw [List.mem_range'_1]
    have hone : 1 ≤ n c := (hI.ticket (hticket c hc)).2
    have hle : n c ≤ limit := hlimit (hdone c hc)
    omega
  have hlength := (hmap.subperm hsub).length_le
  rwa [List.length_map, List.length_range'] at hlength

/-- **No permanent ban**: take any interleaving of connection attempts, and any failures of commands.
    * As long as no step loses the expiry of a key, every key of an address with no check in flight
      expires in at most 60 seconds. If the address then stays away for 60 seconds, its next attempt to
      get an answer is admitted.
    * While no command fails, a counting window admits at most `limit` attempts. -/
theorem no_permanent_ban {C : Type} [DecidableEq C] (limit : Nat) (addresses : C → String)
    (now : Nat) (address : String) :
    (∀ t, Pool.Run (exec limit) KeepsExpiry (boot addresses now) t → Settled t address →
        Expires t.shared address ∧
          ∀ u, Pool.Run (exec limit) (Away address) t u →
            t.shared.now + connectRateWindow ≤ u.shared.now →
            ∀ c a v, Pool.step (exec limit) u c a = some v → u.calls c = .incr address →
              v.calls c ≠ .incr address → 1 ≤ limit →
              ∀ w, Pool.Steps (exec limit) v w → (w.calls c).admits limit) ∧
      ∀ t, Pool.Run (exec limit) NoFailure (boot addresses now) t → ∀ window (l : List C), l.Nodup →
        (∀ c ∈ l, ∃ n, t.calls c = .done address (some ⟨window, n⟩) true) → l.length ≤ limit := by
  refine ⟨fun t hrun hsettled => ?_, fun t hrun window l hnodup hl => ?_⟩
  · have hexpires := fun k => (allGuarded_of_run hrun).expires (k := k) hsettled
    refine ⟨fun k hget => hexpires k (Server.get_eq_some.mp hget).1,
      fun u haway hnow c a v hst hc hc' hlimit w hw => ?_⟩
    have hgone : u.shared.get (connectKey address) = none := by
      rw [Option.eq_none_iff_forall_ne_some]
      intro k hget
      obtain ⟨hkey, hlive⟩ := Server.get_eq_some.mp hget
      rw [keys_of_away haway] at hkey
      obtain ⟨e, he, hle⟩ := hexpires k hkey
      have hlater := hlive e he
      omega
    obtain ⟨sv, pc, hexec, rfl⟩ := Pool.step_cases hst
    have hpc : Function.update u.calls c pc c = pc := Function.update_self ..
    refine admits_of_run hw ?_
    show (Function.update u.calls c pc c).admits limit
    rw [hpc]
    exact (exec_moves hexec).admits_of_get_none hc (fun h => hc' (hpc.trans h)) hgone hlimit
  · exact (counted_of_run hrun.steps).length_le (fun hc => within_limit_of_run hrun hc) hnodup hl

/-- The key of the address is live and has no expiry, and the check is over. -/
def bans {C : Type} (address : String) (c : C) (t : State C) : Bool :=
  !(t.calls c).inFlight && (t.shared.get (connectKey address)).any fun k => k.expiry.isNone

/-- One socket, whose `EXPIRE` fails: the key stays, and counts every attempt to come. -/
theorem limit_bans_forever : ¬ ∀ t :
    State (Fin 1), Pool.Steps (exec 1) (boot (fun _ => "192.0.2.1") 0) t →
    Settled t "192.0.2.1" → Expires t.shared "192.0.2.1" := by
  intro hclaim
  have hrun : (Pool.replay (exec 1) Pool.anyStep (boot (fun _ => "192.0.2.1") 0)
      (Pool.turns 1 [(0, .connect), (0, .answered), (0, .fails)])).any (bans "192.0.2.1" 0) = true := by
        decide +kernel
  obtain ⟨t, hr, hbans⟩ := Pool.exists_run_of_replay hrun
  unfold bans at hbans
  rw [Bool.and_eq_true, Bool.not_eq_true', Option.any_eq_true] at hbans
  obtain ⟨hidle, k, hget, hnone⟩ := hbans
  have hsettled : Settled t "192.0.2.1" := fun c _ => Subsingleton.elim 0 c ▸ hidle
  obtain ⟨e, he, -⟩ := hclaim t hr hsettled k hget
  rw [he] at hnone
  cases hnone

end ConnectLimit

end NestApp
