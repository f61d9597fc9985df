import NestApp.Rbac.Recache

/-!
# `Rbac.Staleness` — how old the rules of a lookup can be, when Redis fails

Every deletion of a cache entry is best effort: a `DEL` that fails is logged, and lookups that overlap
overwrite each other's entries. What is left is the expiry. Here any number of lookups interleave with
the mutators, any Redis command may fail, and a `SET` may execute late, after its caller has been told
that it failed.

`bounded_staleness`: the rules a lookup returns are those the tables gave at some instant, either of
its own query, or of the query of another lookup whose `SET` executed less than the time to live before
the `GET`. The history is the schedule of the run, and the invariant `Known` ties every entry, and all
rules a lookup holds, to the query they come from.

The property speaks about the past of a run, so a run comes with its schedule (`Lib.Pool`, `Trace`),
and an instant is a beginning of it. Time is the clock of the server, which only `tick` moves on.
-/

namespace NestApp

open Sql PermissionsService

namespace Staleness

/-! ## Redis, the tables and the clock

An entry remembers when it was set; `GET` finds it for the time to live. Redis and the process are
taken to have one clock. -/

/-- What Redis stores under a key, and when it was set. -/
structure Entry where
  rules : List PermissionRule
  setAt : Nat

structure Server where
  now     : Nat
  db      : Rbac
  entries : String → Option Entry

namespace Server

/-- A `GET` finds an entry for `ttl` milliseconds: it was set with `PX ttl`. -/
def get (ttl : Nat) (sv : Server) (key : String) : Option Entry :=
  (sv.entries key).filter fun e => sv.now < e.setAt + ttl

def set (sv : Server) (key : String) (rules : List PermissionRule) : Server :=
  { sv with entries := Function.update sv.entries key (some ⟨rules, sv.now⟩) }

def del (sv : Server) (key : String) : Server :=
  { sv with entries := Function.update sv.entries key none }

/-- What the statements of a mutator see. -/
def world (ttl : Nat) (sv : Server) : World := ⟨sv.db, fun key => (sv.get ttl key).map Entry.rules, []⟩

end Server

/-! ## The calls

Lookups and mutators as before, with Redis failing at any command. A `SET` that was answered with an
error may have been executed, or be executed later. -/

inductive Pc where
  -- `getPermissionRulesForUser`
  | get (userId : String)
  | load (userId : String)
  | set (userId : String) (rules : List PermissionRule)
  /-- returned the rules of its own query -/
  | loaded (userId : String) (rules : List PermissionRule)
  /-- returned the rules of an entry -/
  | cached (userId : String) (rules : List PermissionRule)
  | threw (userId : String)
  -- the mutators, as in `Rbac.Recache`
  | mutator (pc : Recache.Pc)

inductive Act where
  /-- the statement or the command is answered -/
  | run
  /-- the query of `loadPermissionRules` is answered with these rows -/
  | rows (rules : List PermissionRule)
  | queryFails
  /-- the Redis command is answered with an error, which `safeGet`, `safeSet`, `safeDel` and
  `safeDelBatch` catch -/
  | redisFails
  /-- Redis executes a `SET` it was sent: before the answer, after the answer is lost, or once more
  when it is sent again -/
  | setExecutes
  /-- any other transaction commits -/
  | commit (db : Rbac)
  /-- Redis drops an entry, or executes a `DEL` late -/
  | del (key : String)
  | tick (ms : Nat)

/-- The `SET` a lookup has sent. -/
def Pc.sent : Pc → Option (String × List PermissionRule)
  | .set userId rules | .loaded userId rules => some (userId, rules)
  | _ => none

/-- The rules a lookup returned. -/
def Pc.returned : Pc → Option (String × List PermissionRule)
  | .loaded userId rules | .cached userId rules => some (userId, rules)
  | _ => none

def run (ttl : Nat) (sv : Server) : Pc → Option (Server × Pc)
  | .get userId =>
      match sv.get ttl (cacheKey userId) with
      | some e => some (sv, .cached userId e.rules)
      | none   => some (sv, .load userId)
  | .set userId rules => some (sv, .loaded userId rules)
  | .mutator (.invalidate (key :: keys) reload) => some (sv.del key, .mutator (.invalidate keys reload))
  | .mutator pc =>
      if pc.isReader then none
      else (Recache.step ⟨sv.world ttl, false⟩ pc).map fun r =>
        ({ sv with db := r.1.world.db }, .mutator r.2)
  | _ => none

def redisFails : Pc → Option Pc
  | .get userId                                  => some (.load userId)
  | .set userId rules                            => some (.loaded userId rules)
  | .mutator (.invalidate (_ :: keys) reload)    => some (.mutator (.invalidate keys reload))
  | _                                            => none

def exec {C : Type} (ttl : Nat) : Pool.Code Server Pc Act C := fun _ sv pc a =>
  match a with
  | .run        => run ttl sv pc
  | .rows rules =>
      match pc with
      | .load userId =>
          if rules.Perm (sv.db.loadPermissionRules (.cast userId)) then
          some (sv, .set userId rules) else none
      | _            => none
  | .queryFails =>
      match pc with
      | .load userId => some (sv, .threw userId)
      | _            => none
  | .redisFails  => (redisFails pc).map fun pc' => (sv, pc')
  | .setExecutes => pc.sent.map fun r => (sv.set (cacheKey r.1) r.2, pc)
  | .commit db   => some ({ sv with db := db }, pc)
  | .del key     => some (sv.del key, pc)
  | .tick ms     => some ({ sv with now := sv.now + ms }, pc)

/-- What a step can do. -/
inductive Moves (ttl : Nat) (sv : Server) : Pc → Act → Server → Pc → Prop where
  | hit {userId e} (h : sv.entries (cacheKey userId) = some e) (hlive : sv.now < e.setAt + ttl) :
      Moves ttl sv (.get userId) .run sv (.cached userId e.rules)
  | miss {userId a} : Moves ttl sv (.get userId) a sv (.load userId)
  | rows {userId rules} (h : rules.Perm (sv.db.loadPermissionRules (.cast userId))) :
      Moves ttl sv (.load userId) (.rows rules) sv (.set userId rules)
  | threw {userId} : Moves ttl sv (.load userId) .queryFails sv (.threw userId)
  | returned {userId rules a} : Moves ttl sv (.set userId rules) a sv (.loaded userId rules)
  | executes {pc userId rules} (h : pc.sent = some (userId, rules)) :
      Moves ttl sv pc .setExecutes (sv.set (cacheKey userId) rules) pc
  | mutated {pc pc' a} (db : Rbac) : Moves ttl sv (.mutator pc) a { sv with db := db } (.mutator pc')
  | invalidated {pc pc' a} (key : String) : Moves ttl sv (.mutator pc) a (sv.del key) (.mutator pc')
  | commit {pc} (db : Rbac) : Moves ttl sv pc (.commit db) { sv with db := db } pc
  | del {pc} (key : String) : Moves ttl sv pc (.del key) (sv.del key) pc
  | tick {pc} (ms : Nat) : Moves ttl sv pc (.tick ms) { sv with now := sv.now + ms } pc

variable {C : Type} {ttl : Nat} {sv sv' : Server} {pc pc' : Pc} {a : Act} {c d : C}

theorem run_moves (h : run ttl sv pc = some (sv', pc')) : Moves ttl sv pc .run sv' pc' := by
  unfold run at h
  split at h
  · split at h
    · next userId e hentry =>
        cases h
        obtain ⟨hentry, hlive⟩ := Option.filter_eq_some_iff.mp hentry
        exact .hit hentry (of_decide_eq_true hlive)
    · cases h
      exact .miss
  · cases h
    exact .returned
  · cases h
    exact .invalidated _
  · split at h
    · cases h
    · obtain ⟨r, -, hr⟩ := Option.map_eq_some_iff.mp h
      cases hr
      exact .mutated _
  · cases h

theorem redisFails_moves (h : redisFails pc = some pc') : Moves ttl sv pc .redisFails sv pc' := by
  unfold redisFails at h
  split at h
  · cases h
    exact .miss
  · cases h
    exact .returned
  · cases h
    exact .mutated sv.db
  · cases h

/-- **What a step can do**: ask Redis, load, store, change the tables, delete a key, or let time pass. -/
theorem exec_moves (h : exec ttl c sv pc a = some (sv', pc')) : Moves ttl sv pc a sv' pc' := by
  unfold exec at h
  cases a with
  | run => exact run_moves h
  | rows rules =>
      cases pc with
      | load userId =>
          obtain ⟨hrows, h⟩ := Option.ite_none_right_eq_some.mp h
          cases h
          exact .rows hrows
      | _ => cases h
  | queryFails =>
      cases pc with
      | load userId =>
          cases h
          exact .threw
      | _ => cases h
  | redisFails =>
      obtain ⟨pc'', hpc, hr⟩ := Option.map_eq_some_iff.mp h
      cases hr
      exact redisFails_moves hpc
  | setExecutes =>
      obtain ⟨⟨userId, rules⟩, hsent, hr⟩ := Option.map_eq_some_iff.mp h
      cases hr
      exact .executes hsent
  | commit db =>
      cases h
      exact .commit db
  | del key =>
      cases h
      exact .del key
  | tick ms =>
      cases h
      exact .tick ms

namespace Moves

variable {userId key : String} {rules : List PermissionRule} {e : Entry}

theorem now_le (h : Moves ttl sv pc a sv' pc') : sv.now ≤ sv'.now := by
  cases h with
  | tick ms => exact Nat.le_add_right _ ms
  | _ => exact Nat.le_refl _

/-- The rules a lookup holds are those its query gave. -/
theorem sent (h : Moves ttl sv pc a sv' pc') (hsent : pc'.sent = some (userId, rules)) :
    pc.sent = some (userId, rules) ∨
      (a = .rows rules ∧ pc = .load userId ∧ rules.Perm (sv.db.loadPermissionRules (.cast userId))) := by
  cases h with
  | rows hrows =>
      cases hsent
      exact .inr ⟨rfl, rfl, hrows⟩
  | hit | miss | threw | mutated | invalidated => cases hsent
  | returned | executes | commit | del | tick => exact .inl hsent

/-- An entry is what a `SET` stored. -/
theorem entry (h : Moves ttl sv pc a sv' pc') (he : sv'.entries key = some e) :
    sv.entries key = some e ∨
      (a = .setExecutes ∧ e.setAt = sv.now ∧ ∃ userId, key = cacheKey userId ∧
        pc.sent = some (userId, e.rules)) := by
  -- a deletion leaves the other entries
  have hdel : ∀ {key'}, (sv.del key').entries key = some e → sv.entries key = some e := by
    intro key' hkept
    by_cases hkey : key = key'
    · subst hkey
      rw [show (sv.del key).entries key = none from Function.update_self _ _ _] at hkept
      cases hkept
    · rwa [show (sv.del key').entries key = sv.entries key from Function.update_of_ne hkey _ _] at hkept
  cases h with
  | @executes _ userId rules hsent =>
      by_cases hkey : key = cacheKey userId
      · subst hkey
        rw [show (sv.set (cacheKey userId) rules).entries (cacheKey userId) =
          _ from Function.update_self _ _ _] at he
        cases he
        exact .inr ⟨rfl, rfl, userId, rfl, hsent⟩
      · rw [show (sv.set (cacheKey userId) rules).entries key =
          _ from Function.update_of_ne hkey _ _] at he
        exact .inl he
  | invalidated | del => exact .inl (hdel he)
  | hit | miss | rows | threw | returned | mutated | commit | tick => exact .inl he

/-- The rules returned from an entry were in Redis, and not expired, at the `GET`. -/
theorem cached (h : Moves ttl sv pc a sv' pc') (hpc : pc' = .cached userId rules) :
    pc = .cached userId rules ∨
      (a = .run ∧ pc = .get userId ∧ ∃ e, sv.entries (cacheKey userId) = some e ∧
        e.rules = rules ∧ sv.now < e.setAt + ttl) := by
  cases h with
  | hit hentry hlive =>
      cases hpc
      exact .inr ⟨rfl, rfl, _, hentry, rfl, hlive⟩
  | miss | rows | threw | returned | mutated | invalidated => cases hpc
  | executes | commit | del | tick => exact .inl hpc

/-- A lookup that is still to ask Redis has not asked the tables. -/
theorem waiting (h : Moves ttl sv pc a sv' pc') (hpc : pc' = .get userId) :
    pc = .get userId ∧ ∀ rules, a ≠ .rows rules := by
  cases h with
  | hit | miss | rows | threw | returned | mutated | invalidated => cases hpc
  | executes | commit | del | tick => exact ⟨hpc, fun _ => Act.noConfusion⟩

/-- Only the query throws. -/
theorem failed (h : Moves ttl sv pc a sv' pc') (hpc : pc' = .threw userId) :
    pc = .threw userId ∨ a = .queryFails := by
  cases h with
  | threw => exact .inr rfl
  | hit | miss | rows | returned | mutated | invalidated => cases hpc
  | executes | commit | del | tick => exact .inl hpc

end Moves

/-! ## The history

Three predicates on a run: a query gave these rules, a `SET` stored them, a `GET` found them in time.
The invariant says that whatever is in Redis or in the hands of a lookup has such a past. -/

abbrev State (C : Type) := Pool.Config Server Pc C

abbrev Schedule (C : Type) := List (C × Act)

variable [DecidableEq C]

/-- In the run of `q`, the query of call `c` at the instant `p` gave the rules `R` of the user. -/
structure Loads (ttl : Nat) (s : State C) (q p : Schedule C) (u : State C) (c : C) (userId : String)
    (R : List PermissionRule) : Prop where
  happens : Pool.Happens (exec ttl) s q p u c (.rows R)
  call    : u.calls c = .load userId
  rules   : ∀ rule, rule ∈ R ↔ u.shared.db.Grants (.cast userId) rule

/-- In the run of `q`, the `SET` with the rules that call `d` loaded at the instant `p` executed at the
    time `w`. -/
def Fills (ttl : Nat) (s : State C) (q : Schedule C) (d : C) (userId : String) (R : List PermissionRule)
    (p : Schedule C) (w : Nat) : Prop :=
  ∃ p' u u', Loads ttl s p' p u d userId R ∧ u.shared.now ≤ w ∧
    Pool.Happens (exec ttl) s q p' u' d .setExecutes ∧ u'.shared.now = w

/-- In the run of `q`, the `GET` of call `c` found the rules that call `d` loaded at the instant `p`,
    less than the time to live after their `SET`. -/
def Served (ttl : Nat) (s : State C) (q : Schedule C) (c d : C) (userId : String)
    (R : List PermissionRule)
    (p : Schedule C) : Prop :=
  ∃ r v w, Pool.Happens (exec ttl) s q r v c .run ∧ v.calls c = .get userId ∧
    Fills ttl s r d userId R p w ∧ v.shared.now < w + ttl

variable {s t u : State C} {p q r : Schedule C} {userId : String} {R : List PermissionRule} {w : Nat}

theorem Loads.mono (h : Loads ttl s q p u c userId R) (hq : q <+: r) : Loads ttl s r p u c userId R :=
  ⟨h.happens.mono hq, h.call, h.rules⟩

theorem Fills.mono (h : Fills ttl s q d userId R p w) (hq : q <+: r) : Fills ttl s r d userId R p w := by
  obtain ⟨p', u, u', hload, hle, hset, hw⟩ := h
  exact ⟨p', u, u', hload, hle, hset.mono hq, hw⟩

theorem Served.mono (h : Served ttl s q c d userId R p) (hq : q <+: r) :
    Served ttl s r c d userId R p := by
  obtain ⟨r', v, w, hget, hcall, hfill, hlt⟩ := h
  exact ⟨r', v, w, hget.mono hq, hcall, hfill, hlt⟩

/-- Every lookup starts with its `GET`, and Redis holds no entry. -/
structure Starts (s : State C) : Prop where
  calls   : ∀ c, (∃ userId, s.calls c = .get userId) ∨ ∃ pc, s.calls c = .mutator pc
  entries : s.shared.entries = fun _ => none

/-- **The invariant**: all rules in Redis, and all rules a lookup holds, come from a query of the run. -/
structure Known (ttl : Nat) (s : State C) (q : Schedule C) (t : State C) : Prop where
  sent    : ∀ {c userId R}, (t.calls c).sent = some (userId, R) →
    ∃ p u, Loads ttl s q p u c userId R ∧ u.shared.now ≤ t.shared.now
  entry   : ∀ {userId e}, t.shared.entries (cacheKey userId) = some e →
    ∃ d p, Fills ttl s q d userId e.rules p e.setAt
  cached  : ∀ {c userId R}, t.calls c = .cached userId R → ∃ d p, d ≠ c ∧ Served ttl s q c d userId R p
  waiting : ∀ {c userId R}, t.calls c = .get userId → (c, .rows R) ∉ q
  failed  : ∀ {c userId}, t.calls c = .threw userId →
    ∃ p u, Pool.Happens (exec ttl) s q p u c .queryFails

theorem Starts.known (h : Starts s) (ttl : Nat) : Known ttl s [] s := by
  have hcall : ∀ {c : C} {pc : Pc}, s.calls c = pc → (∃ userId, pc = .get userId) ∨
    ∃ pc', pc = .mutator pc' := by
    rintro c pc rfl
    exact h.calls c
  constructor
  · intro c userId R hsent
    rcases h.calls c with ⟨userId', hpc⟩ | ⟨pc', hpc⟩ <;> rw [hpc] at hsent <;> cases hsent
  · intro userId e hentry
    rw [h.entries] at hentry
    cases hentry
  · intro c userId R hpc
    rcases hcall hpc with ⟨userId', hpc⟩ | ⟨pc', hpc⟩ <;> cases hpc
  · intro c userId R _ hmem
    cases hmem
  · intro c userId hpc
    rcases hcall hpc with ⟨userId', hpc⟩ | ⟨pc', hpc⟩ <;> cases hpc

/-- A lookup that is still to ask Redis is not the one whose `SET` is found. -/
theorem Fills.ne (hfill : Fills ttl s q d userId R p w) (hwaiting : ∀ R, (c, .rows R) ∉ q) : d ≠ c := by
  rintro rfl
  obtain ⟨p', u, u', hload, -, hset, -⟩ := hfill
  have hmem : (d, Act.rows R) ∈ p' :=
    hload.happens.earlier.subset (List.mem_append_right _ (List.mem_singleton_self _))
  exact hwaiting R (hset.earlier.subset (List.mem_append_left _ hmem))

/-- **One step keeps the invariant.** Rules are new with the query that loads them; from there they go
    to Redis and back. -/
theorem Known.step (hI : Known ttl s q t) (hrun : Pool.Trace (exec ttl) s q t)
    (hst : Pool.step (exec ttl) t c a = some u) :
    Known ttl s (q ++ [(c, a)]) u := by
  obtain ⟨sv, pc, hexec, rfl⟩ := Pool.step_cases hst
  have hmove := exec_moves hexec
  have hq : q <+: q ++ [(c, a)] := List.prefix_append _ _
  have hhappens : Pool.Happens (exec ttl) s (q ++ [(c, a)]) q t c a := hrun.happens c a
  -- the local state of `c` is the new one, that of any other call the old one
  have hcalls : ∀ d, (d = c ∧ Function.update t.calls c pc d = pc) ∨
    (d ≠ c ∧ Function.update t.calls c pc d = t.calls d) := by
    intro d
    by_cases hd : d = c
    · exact .inl ⟨hd, by rw [hd, Function.update_self]⟩
    · exact .inr ⟨hd, Function.update_of_ne hd _ _⟩
  constructor
  · intro d userId R hsent
    have hold : (t.calls d).sent = some (userId, R) →
        ∃ p u, Loads ttl s (q ++ [(c, a)]) p u d userId R ∧ u.shared.now ≤ sv.now := by
      intro hsent
      obtain ⟨p, u, hload, hle⟩ := hI.sent hsent
      exact ⟨p, u, hload.mono hq, hle.trans hmove.now_le⟩
    rcases hcalls d with ⟨rfl, hd⟩ | ⟨-, hd⟩
    · rcases hmove.sent ((congrArg Pc.sent hd).symm.trans hsent) with hsent | ⟨rfl, hpc, hrows⟩
      · exact hold hsent
      · refine ⟨q, t, ⟨hhappens, hpc, fun rule => ?_⟩, hmove.now_le⟩
        rw [hrows.mem_iff, Rbac.mem_loadPermissionRules]
    · exact hold ((congrArg Pc.sent hd).symm.trans hsent)
  · intro userId e hentry
    rcases hmove.entry hentry with hentry | ⟨rfl, hnow, userId', hkey, hsent⟩
    · obtain ⟨d, p, hfill⟩ := hI.entry hentry
      exact ⟨d, p, hfill.mono hq⟩
    · obtain rfl := cacheKey_inj.mp hkey
      obtain ⟨p, u, hload, hle⟩ := hI.sent hsent
      rw [hnow]
      exact ⟨c, p, q, u, t, hload, hle, hhappens, rfl⟩
  · intro d userId R hcached
    have hold : t.calls d = .cached userId R → ∃ d' p, d' ≠ d ∧
      Served ttl s (q ++ [(c, a)]) d d' userId R p := by
      intro hcached
      obtain ⟨d', p, hne, hserved⟩ := hI.cached hcached
      exact ⟨d', p, hne, hserved.mono hq⟩
    rcases hcalls d with ⟨rfl, hd⟩ | ⟨-, hd⟩
    · rcases hmove.cached (hd.symm.trans hcached) with hcached | ⟨rfl, hget, e, hentry, rfl, hlive⟩
      · exact hold hcached
      · obtain ⟨d', p, hfill⟩ := hI.entry hentry
        exact ⟨d', p, hfill.ne fun R => hI.waiting hget, q, t, e.setAt, hhappens, hget, hfill, hlive⟩
    · exact hold (hd.symm.trans hcached)
  · intro d userId R hget hmem
    have hold : t.calls d = .get userId → (d, Act.rows R) ≠ (c, a) → False := by
      intro hget hne
      rcases List.mem_append.mp hmem with hmem | hmem
      · exact hI.waiting hget hmem
      · exact hne (List.mem_singleton.mp hmem)
    rcases hcalls d with ⟨rfl, hd⟩ | ⟨hne, hd⟩
    · obtain ⟨hget, ha⟩ := hmove.waiting (hd.symm.trans hget)
      exact hold hget fun heq => ha R (Prod.mk.inj heq).2.symm
    · exact hold (hd.symm.trans hget) fun heq => hne (Prod.mk.inj heq).1
  · intro d userId hthrew
    have hold : t.calls d = .threw userId →
      ∃ p u, Pool.Happens (exec ttl) s (q ++ [(c, a)]) p u d .queryFails := by
      intro hthrew
      obtain ⟨p, u, hfails⟩ := hI.failed hthrew
      exact ⟨p, u, hfails.mono hq⟩
    rcases hcalls d with ⟨rfl, hd⟩ | ⟨-, hd⟩
    · rcases hmove.failed (hd.symm.trans hthrew) with hthrew | rfl
      · exact hold hthrew
      · exact ⟨q, t, hhappens⟩
    · exact hold (hd.symm.trans hthrew)

/-- **Every run keeps it**, by induction on the schedule, which is what the invariant speaks about. -/
theorem known_of_trace (hstart : Starts s) (hrun : Pool.Trace (exec ttl) s q t) : Known ttl s q t := by
  induction hrun with
  | nil => exact hstart.known ttl
  | snoc hrun hst ih => exact ih.step hrun hst

/-- The rules a lookup returned are those of its own query, or were served from an entry. -/
theorem Known.returned (hI : Known ttl s q t) (h : (t.calls c).returned = some (userId, R)) :
    (∃ p u, Loads ttl s q p u c userId R) ∨ ∃ d p, d ≠ c ∧ Served ttl s q c d userId R p := by
  generalize hpc : t.calls c = pc at h
  cases pc with
  | loaded userId' R' =>
      cases h
      obtain ⟨p, u, hload, -⟩ := hI.sent (c := c) (by rw [hpc]; rfl)
      exact .inl ⟨p, u, hload⟩
  | cached userId' R' =>
      cases h
      exact .inr (hI.cached hpc)
  | _ => cases h

/-- From the instant `p` on, the tables do not grant the rule. -/
def Revoked (ttl : Nat) (s : State C) (q p : Schedule C) (u : Uuid) (rule : PermissionRule) : Prop :=
  ∀ p' t', p <+: p' → p' <+: q → Pool.Trace (exec ttl) s p' t' → ¬ t'.shared.db.Grants u rule

/-- A query that gave the rule was before the revocation. -/
theorem Loads.before_revocation {rule : PermissionRule} {p₀ : Schedule C}
    (hload : Loads ttl s q p u c userId R)
    (hmem : rule ∈ R) (hp₀ : p₀ <+: q) (hrevoked : Revoked ttl s q p₀ (.cast userId) rule) :
    p ++ [(c, .rows R)] <+: p₀ := by
  have hearlier := hload.happens.earlier
  rcases List.prefix_or_prefix_of_prefix hp₀ hearlier with hafter | hbefore
  · rcases List.prefix_concat_iff.mp hafter with heq | hafter
    · exact heq ▸ List.prefix_rfl
    · have hgrants := (hload.rules rule).mp hmem
      exact absurd hgrants
        (hrevoked p u hafter ((List.prefix_append _ _).trans hearlier) hload.happens.trace)
  · exact hbefore

/-- **Bounded staleness**: in every run of lookups and mutators, whatever fails in Redis, the rules a
    lookup returns are those the tables gave at the instant of its own query, or of the query of another
    lookup whose `SET` executed less than `ttl` before the `GET`. A lookup throws only when its query
    does. A lookup called after a revocation returns the revoked rule only from an entry loaded before
    the revocation, less than `ttl` after its `SET`. -/
theorem bounded_staleness {C : Type} [DecidableEq C] (ttl : Nat) (s t : State C)
    (q : Schedule C) (hstart : Starts s)
    (hrun : Pool.Trace (exec ttl) s q t) (c : C) :
    (∀ userId R, (t.calls c).returned = some (userId, R) →
        (∃ p u, Loads ttl s q p u c userId R) ∨ ∃ d p, d ≠ c ∧ Served ttl s q c d userId R p) ∧
      (∀ userId, t.calls c = .threw userId → ∃ p u, Pool.Happens (exec ttl) s q p u c .queryFails) ∧
      ∀ userId R rule p₀ u₀, (t.calls c).returned = some (userId, R) → rule ∈ R →
        p₀ <+: q → Pool.Trace (exec ttl) s p₀ u₀ → u₀.calls c = .get userId →
          Revoked ttl s q p₀ (.cast userId) rule →
        ∃ d p, Served ttl s q c d userId R p ∧ p ++ [(d, .rows R)] <+: p₀ := by
  have hI := known_of_trace hstart hrun
  refine ⟨fun userId R => hI.returned, fun userId => hI.failed, ?_⟩
  intro userId R rule p₀ u₀ hreturned hmem hp₀ hrun₀ hget hrevoked
  rcases hI.returned hreturned with ⟨p, u, hload⟩ | ⟨d, p, -, hserved⟩
  · -- a query of its own would have been before its call
    have hbefore := hload.before_revocation hmem hp₀ hrevoked
    have hearlier : (c, Act.rows R) ∈ p₀ :=
      hbefore.subset (List.mem_append_right _ (List.mem_singleton_self _))
    exact absurd hearlier ((known_of_trace hstart hrun₀).waiting hget)
  · refine ⟨d, p, hserved, ?_⟩
    obtain ⟨r, v, w, hgets, -, hfill, -⟩ := hserved
    obtain ⟨p', u, u', hload, -, hset, -⟩ := hfill
    have hload : Loads ttl s q p u d userId R :=
      hload.mono (((List.prefix_append _ _).trans hset.earlier).trans
        ((List.prefix_append _ _).trans hgets.earlier))
    exact hload.before_revocation hmem hp₀ hrevoked

/-! ## A run

Two lookups and a demotion whose `DEL` fails: the second lookup is answered from the entry, half a
second later. -/

/-- Two lookups of the administrator's rules beside the request that makes the administrator a plain
    user. -/
def lookupsAndDemotion : State (Fin 3) where
  shared  := ⟨0, seededDb, fun _ => none⟩
  calls c := if c.val = 1 then .mutator (.setRoles (seedId 8).text [(seedId 7).text])
    else .get (seedId 8).text

theorem starts_lookupsAndDemotion : Starts lookupsAndDemotion where
  calls c := by
    unfold lookupsAndDemotion
    by_cases hc : c.val = 1
    · exact .inr ⟨_, if_pos hc⟩
    · exact .inl ⟨_, if_neg hc⟩
  entries := rfl

def administratorRules : List PermissionRule := seededDb.loadPermissionRules (seedId 8)

/-- The first lookup runs its query, the roles are replaced and the `DEL` fails, the `SET` of the first
    lookup executes although it is answered with an error, and the second lookup asks half a second
    later. -/
def failingRedis : Schedule (Fin 3) :=
  Pool.turns 3 [(0, .run), (0, .rows administratorRules), (1, .run), (1, .redisFails),
    (0, .redisFails), (0, .setExecutes),
    (2, .tick 500), (2, .run)]

/-- The second lookup returned a rule the tables do not grant any more. -/
def returnedStale (t : State (Fin 3)) : Bool :=
  decide ((t.calls 2).returned = some ((seedId 8).text, administratorRules)) &&
    !decide (⟨.manage, .user⟩ ∈ t.shared.db.loadPermissionRules (seedId 8))

/-- A stale answer, half a second after the `SET` of the rules that were loaded before. -/
theorem bounded_staleness_failing_redis : ∃ t : State (Fin 3),
    Pool.Trace (exec 1000) lookupsAndDemotion failingRedis t ∧
    ¬ t.shared.db.Grants (seedId 8) ⟨.manage, .user⟩ ∧
    ((∃ p u, Loads 1000 lookupsAndDemotion failingRedis p u 2 (seedId 8).text administratorRules) ∨
      ∃ d p, d ≠ 2 ∧ Served 1000 lookupsAndDemotion failingRedis 2 d
        (seedId 8).text administratorRules p) := by
  have hrun : (Pool.replay (exec 1000) Pool.anyStep lookupsAndDemotion failingRedis).any
    returnedStale = true := by
    decide +kernel
  obtain ⟨t, htrace, hcheck⟩ := Pool.exists_trace_of_replay hrun
  simp only [returnedStale, Bool.and_eq_true, decide_eq_true_eq, Bool.not_eq_true',
    decide_eq_false_iff_not,
    Rbac.mem_loadPermissionRules] at hcheck
  obtain ⟨hreturned, hrevoked⟩ := hcheck
  exact ⟨t, htrace, hrevoked,
    (bounded_staleness 1000 lookupsAndDemotion t failingRedis starts_lookupsAndDemotion htrace 2).1
      _ _ hreturned⟩

end Staleness

end NestApp
