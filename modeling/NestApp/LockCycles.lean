import NestApp.Auth.LockRank
import NestApp.Rbac.RoleLocks

/-!
# `LockCycles` — the account operations, `setRoles` and `roles.remove` over one database

The account tables and the tables of the roles meet in one place: a row `setRoles` inserts refers to
its user. This lock is a key share, and no operation locks a row of `users` against it. So a
transaction never waits for one of the other side (`waits_cases`), and the order of the whole is that
of the two sides (`Auth.LockRank`, `RoleLocks.accessRank`).

`no_lock_cycle`: in every run that keeps to the lock order of both sides, no transactions wait for each
other in a circle. In a run that does not, they can (`lock_cycles`): `resetPassword` and `softDelete`
lock the user and the link in opposite orders, and so do `setRoles` and `remove` with the role and the
row of `user_roles`.

The two halves were analysed apart, each with its own invariant and its own rank. What is added here is
that they really are halves: every run of the whole projects to a run of each side, and every wait
stays on the side it is on.
-/

namespace NestApp

open Sql JoinRows RoleLocks

namespace LockCycles

variable {C : Type}

/-! ## The calls over one database

Seven operations: those of the accounts, and the two on roles. They share the table of users, which
`setRoles` refers to and the account operations write. -/

/-- The tables of the accounts and those of the roles. -/
structure AllTables (C : Type) where
  account : Db C
  access  : Tables C

inductive ServiceCall where
  | account (call : Call)
  | access (call : AccessCall)

inductive ServiceAct where
  | account (a : Act)
  | access (a : RowAct)

/-- The user the rows inserted by a `setRoles` refer to, while they are checked. -/
def referredUser : AccessCall → Option Uuid
  | .setRoles (.check owner _ _) => some owner
  | _                            => none

/-- The action of the call, where the foreign key finds the user. -/
def accessAct (db : Db C) (call : AccessCall) : RowAct → AccessAct
  | .run tid => .run tid ((referredUser call).all fun id => (db.users.table.get id).isSome)
  | .abort   => .abort

def exec [DecidableEq C] (env : Env) : Pool.Code (AllTables C) ServiceCall ServiceAct C :=
  fun c tables call a =>
  match call, a with
  | .account call, .account a =>
      (NestApp.exec env c tables.account call a).map fun r =>
        ({ tables with account := r.1 }, .account r.2)
  | .access call, .access a =>
      (RoleLocks.exec c tables.access call (accessAct tables.account call a)).map fun r =>
        ({ tables with access := r.1 }, .access r.2)
  | _, _ => none

abbrev State (C : Type) := Pool.Config (AllTables C) ServiceCall C

/-! ## The two sides of a state

A state of the whole is a state of each side, with the calls of the other side as calls that have
nothing to do. -/

/-- The account operation of a call. One of the other side counts as a logout without a token, which has
    nothing to do. -/
def ServiceCall.onAccount : ServiceCall → Call
  | .account call => call
  | .access _     => .logout (.start none)

def ServiceCall.onAccess : ServiceCall → AccessCall
  | .account _   => .setRoles (.replace (.failed .unexpected))
  | .access call => call

def accountSide (s : State C) : NestApp.State C where
  shared  := s.shared.account
  calls c := (s.calls c).onAccount

def accessSide (s : State C) : AccessState C where
  shared  := s.shared.access
  calls c := (s.calls c).onAccess

/-- The steps keep to the lock orders of both sides. -/
def inLockOrder [DecidableEq C] (env : Env) (place : Uuid → Nat) (rowPlace : Nat → Nat) :
    Pool.Allowed (AllTables C) ServiceCall ServiceAct C := fun s c a =>
  match a with
  | .account a => NestApp.inLockOrder env place (accountSide s) c a
  | .access a  =>
      accessLockOrder rowPlace (accessSide s) c (accessAct s.shared.account (s.calls c).onAccess a)

/-- Nothing has begun: there are no tokens, and nothing is locked. -/
structure Initial (s : State C) : Prop where
  account         : NestApp.Initial (accountSide s)
  accountUnlocked : s.shared.account.Unlocked
  access          : ∀ c, (s.calls c).onAccess.Idle
  accessUnlocked  : s.shared.access.Unlocked

/-! ## Locks

The union of the locks of both sides, and the one lock that crosses: the key share a row of
`user_roles` takes on its user. -/

inductive DbRow where
  | account (row : AccountRow)
  | access (row : AccessRow)
deriving DecidableEq

/-- The locks of a state. A `setRoles` locks its user for the rows it has inserted. -/
def locks [DecidableEq C] (env : Env) (s : State C) : Locks C DbRow where
  holds c
    | .account row, m => (accountLocks env (accountSide s)).holds c row m ∨
        ∃ id, referredUser (s.calls c).onAccess = some id ∧ (∃ ref, c ∈ s.shared.access.sharing ref) ∧
          row = .user id ∧
          m = .keyShare
    | .access row, m => (accessLocks (accessSide s)).holds c row m
  requests c
    | .account row, m => (accountLocks env (accountSide s)).requests c row m ∨
        ∃ id, referredUser (s.calls c).onAccess = some id ∧ row = .user id ∧ m = .keyShare
    | .access row, m => (accessLocks (accessSide s)).requests c row m

section Sides

variable [DecidableEq C] {env : Env} {place : Uuid → Nat} {rowPlace : Nat → Nat}
  {s t : State C} {c d : C}

/-! ### Runs

Schedules on a small database, first one in which nobody waits in a circle, then the two circles. -/

theorem accountSide_update {tables : AllTables C} {calls : C → ServiceCall} {call : ServiceCall} :
    accountSide ⟨tables, Function.update calls c call⟩ =
      ⟨tables.account, Function.update (fun d => (calls d).onAccount) c call.onAccount⟩ := by
  show (⟨_, _⟩ : NestApp.State C) = _
  congr 1
  exact Function.comp_update ServiceCall.onAccount calls c call

theorem accessSide_update {tables : AllTables C} {calls : C → ServiceCall} {call : ServiceCall} :
    accessSide ⟨tables, Function.update calls c call⟩ =
      ⟨tables.access, Function.update (fun d => (calls d).onAccess) c call.onAccess⟩ := by
  show (⟨_, _⟩ : AccessState C) = _
  congr 1
  exact Function.comp_update ServiceCall.onAccess calls c call

/-- The account side of a run is a run of the account operations. -/
theorem run_accountSide (hr : Pool.Run (exec env) (inLockOrder env place rowPlace) s t) :
    Pool.Run (NestApp.exec env) (NestApp.inLockOrder env place) (accountSide s) (accountSide t) := by
  refine hr.project fun {s c a u} hcond hst => ?_
  obtain ⟨tables, call', hc, rfl⟩ := Pool.step_cases hst
  rw [accountSide_update]
  cases hcall : s.calls c with
  | account call =>
      rw [hcall] at hc
      cases a with
      | access a => cases hc
      | account a =>
          obtain ⟨⟨db', l⟩, hs, hres⟩ := Option.map_eq_some_iff.mp hc
          cases hres
          refine .inr ⟨a, hcond, ?_⟩
          have hside : (accountSide s).calls c = call := by
            show (s.calls c).onAccount = call
            rw [hcall]
            rfl
          unfold Pool.step
          rw [hside]
          show Option.map _ (NestApp.exec env c s.shared.account call a) = _
          rw [hs]
          rfl
  | access call =>
      rw [hcall] at hc
      cases a with
      | account a => cases hc
      | access a =>
          obtain ⟨⟨t', l⟩, hs, hres⟩ := Option.map_eq_some_iff.mp hc
          cases hres
          left
          show (⟨s.shared.account, _⟩ : NestApp.State C) = ⟨s.shared.account, _⟩
          congr 1
          refine Function.update_eq_self_iff.mpr ?_
          rw [hcall]
          rfl

/-- The access side of a run is a run of `setRoles` and `remove`. -/
theorem run_accessSide (hr : Pool.Run (exec env) (inLockOrder env place rowPlace) s t) :
    Pool.Run RoleLocks.exec (accessLockOrder rowPlace) (accessSide s) (accessSide t) := by
  refine hr.project fun {s c a u} hcond hst => ?_
  obtain ⟨tables, call', hc, rfl⟩ := Pool.step_cases hst
  rw [accessSide_update]
  cases hcall : s.calls c with
  | access call =>
      rw [hcall] at hc
      cases a with
      | account a => cases hc
      | access a =>
          obtain ⟨⟨t', l⟩, hs, hres⟩ := Option.map_eq_some_iff.mp hc
          cases hres
          have hside : (s.calls c).onAccess = call := by
            rw [hcall]
            rfl
          refine .inr ⟨_, hcond, ?_⟩
          unfold Pool.step
          show Option.map _ (RoleLocks.exec c s.shared.access (s.calls c).onAccess _) = _
          rw [hside, hs]
          rfl
  | account call =>
      rw [hcall] at hc
      cases a with
      | access a => cases hc
      | account a =>
          obtain ⟨⟨db', l⟩, hs, hres⟩ := Option.map_eq_some_iff.mp hc
          cases hres
          left
          show (⟨s.shared.access, _⟩ : AccessState C) = ⟨s.shared.access, _⟩
          congr 1
          refine Function.update_eq_self_iff.mpr ?_
          rw [hcall]
          rfl

theorem reachable_account (hr : Pool.Run (exec env) (inLockOrder env place rowPlace) s t)
    (hi : Initial s) :
    LockInvariant env place (accountSide t) :=
  reachable_lockInvariant (run_accountSide hr) hi.account hi.accountUnlocked

theorem reachable_access (hr : Pool.Run (exec env) (inLockOrder env place rowPlace) s t)
    (hi : Initial s) :
    AccessInvariant rowPlace (accessSide t) :=
  (run_accessSide hr).invariant (fun h hcond hst => h.step hcond hst)
    (hi.accessUnlocked.invariant hi.access)

/-! ### Waits -/

omit [DecidableEq C] in
/-- No operation locks a user against a row that refers to it. -/
theorem requests_user {db : Db C} {call : Call} {id : Uuid} {m : LockMode}
    (h : (.user id, m) ∈ call.requests env db) :
    m.conflicts .keyShare = false := by
  unfold Call.requests at h
  split at h
  all_goals first
    | rcases List.mem_singleton.mp h with ⟨⟩
      rfl
    | (split at h <;> simp at h)
    | simp at h

/-- A transaction waits for one of its own side. -/
theorem waits_cases (h : (locks env t).Waits c d) :
    (accountLocks env (accountSide t)).Waits c d ∨ (accessLocks (accessSide t)).Waits c d := by
  obtain ⟨hne, row, m, m', hreq, hhold, hconf⟩ := h
  cases row with
  | access row => exact .inr ⟨hne, row, m, m', hreq, hhold, hconf⟩
  | account row =>
      left
      rcases hreq with hreq | ⟨id, -, rfl, rfl⟩
      · rcases hhold with hhold | ⟨id, -, -, rfl, rfl⟩
        · exact ⟨hne, row, m, m', hreq, hhold, hconf⟩
        · rw [requests_user hreq] at hconf
          cases hconf
      · rcases hhold with hhold | ⟨id', -, -, -, rfl⟩
        · rw [LockInvariant.not_conflicts_keyShare hhold] at hconf
          cases hconf
        · cases hconf

omit [DecidableEq C] in
/-- Who waits on the account side, or is waited for there, is an account operation. -/
theorem account_of_waits (h : LockInvariant env place (accountSide t))
    (hw : (accountLocks env (accountSide t)).Waits c d) :
    (∃ call, t.calls c = .account call) ∧ ∃ call, t.calls d = .account call := by
  obtain ⟨-, row, m, m', hreq, hhold, -⟩ := hw
  constructor
  · cases hc : t.calls c with
    | account call => exact ⟨call, rfl⟩
    | access call =>
        have hside : (accountSide t).calls c = .logout (.start none) := congrArg ServiceCall.onAccount hc
        simp only [accountLocks, hside] at hreq
        exact absurd hreq List.not_mem_nil
  · cases hd : t.calls d with
    | account call => exact ⟨call, rfl⟩
    | access call =>
        -- the other side has locked nothing here
        have hside : (accountSide t).calls d = .logout (.start none) := congrArg ServiceCall.onAccount hd
        rcases LockInvariant.owner_of_holds hhold with ho | ⟨id, -, href, -⟩
        · refine absurd ho (LockInvariant.not_owner (h.covered d) ?_ ?_ ?_)
          · rw [hside]
            rfl
          · rw [hside]
            rfl
          · rw [hside]
            rfl
        · rw [hside] at href
          cases href

/-- Who waits for a role or a join row, or is waited for there, is `setRoles` or `remove`. -/
theorem access_of_waits (h : AccessInvariant rowPlace (accessSide t))
    (hw : (accessLocks (accessSide t)).Waits c d) :
    (∃ call, t.calls c = .access call) ∧ ∃ call, t.calls d = .access call := by
  obtain ⟨-, row, m, m', hreq, hhold, -⟩ := hw
  constructor
  · cases hc : t.calls c with
    | access call => exact ⟨call, rfl⟩
    | account call =>
        have hside : (accessSide t).calls c = .setRoles (.replace (.failed .unexpected)) :=
          congrArg ServiceCall.onAccess hc
        simp only [accessLocks, hside] at hreq
        exact absurd hreq List.not_mem_nil
  · cases hd : t.calls d with
    | access call => exact ⟨call, rfl⟩
    | account call =>
        have hside : (accessSide t).calls d = .setRoles (.replace (.failed .unexpected)) :=
          congrArg ServiceCall.onAccess hd
        refine absurd hhold (h.not_holds ?_ ?_ ?_)
        · rw [hside]
          rfl
        · rw [hside]
          rfl
        · rw [hside]
          rfl

/-- The place of a call in the lock order of its side. -/
noncomputable def callRank (place : Uuid → Nat) (rowPlace : Nat → Nat) (t : State C)
    (c : C) : Nat ×ₗ Nat :=
  match t.calls c with
  | .account _ => rank place (accountSide t) c
  | .access _  => toLex (0, accessRank rowPlace (accessSide t) c)

/-- The waits of a circle stay on one side, and the rank grows along them. -/
theorem callRank_lt (hacc : LockInvariant env place (accountSide t))
    (hrow : AccessInvariant rowPlace (accessSide t))
    (hin : (locks env t).Inner c d) : callRank place rowPlace t c < callRank place rowPlace t d := by
  obtain ⟨hcd, ⟨b, hbc⟩, e, hde⟩ := hin
  rcases waits_cases hcd with hcd | hcd
  · obtain ⟨⟨call, hc⟩, call', hd⟩ := account_of_waits hacc hcd
    -- the waits before and after this one are on the same side
    have hbc : (accountLocks env (accountSide t)).Waits b c := by
      refine (waits_cases hbc).resolve_right fun hw => ?_
      obtain ⟨call'', hc'⟩ := (access_of_waits hrow hw).2
      rw [hc] at hc'
      cases hc'
    have hde : (accountLocks env (accountSide t)).Waits d e := by
      refine (waits_cases hde).resolve_right fun hw => ?_
      obtain ⟨call'', hd'⟩ := (access_of_waits hrow hw).1
      rw [hd] at hd'
      cases hd'
    simp only [callRank, hc, hd]
    exact hacc.rank_lt ⟨hcd, ⟨b, hbc⟩, e, hde⟩
  · obtain ⟨⟨call, hc⟩, call', hd⟩ := access_of_waits hrow hcd
    have hbc : (accessLocks (accessSide t)).Waits b c := by
      refine (waits_cases hbc).resolve_left fun hw => ?_
      obtain ⟨call'', hc'⟩ := (account_of_waits hacc hw).2
      rw [hc] at hc'
      cases hc'
    have hde : (accessLocks (accessSide t)).Waits d e := by
      refine (waits_cases hde).resolve_left fun hw => ?_
      obtain ⟨call'', hd'⟩ := (account_of_waits hacc hw).1
      rw [hd] at hd'
      cases hd'
    simp only [callRank, hc, hd]
    exact Prod.Lex.toLex_lt_toLex.mpr (.inr ⟨rfl, hrow.rank_lt ⟨hcd, ⟨b, hbc⟩, e, hde⟩⟩)

end Sides

/-- **No lock cycle**: in a run that keeps to the lock order, no transactions wait for each other in a
    circle. -/
theorem no_lock_cycle [DecidableEq C] {env : Env} {place : Uuid → Nat} {rowPlace : Nat → Nat}
    {s t : State C} (hi : Initial s)
    (hr : Pool.Run (exec env) (inLockOrder env place rowPlace) s t) : ¬ (locks env t).Deadlocked :=
  Locks.not_deadlocked_of_rank (callRank place rowPlace t) fun hin =>
    callRank_lt (reachable_account hr hi) (reachable_access hr hi) hin

/-! ## Runs -/

instance {n : Nat} (env : Env) (place : Uuid → Nat) (rowPlace : Nat → Nat) (s : State (Fin n))
    (c : Fin n) (a : ServiceAct) :
    Decidable (inLockOrder env place rowPlace s c a) := by
  unfold inLockOrder
  split
  · unfold NestApp.inLockOrder
    split
    · split <;> infer_instance
    all_goals infer_instance
  · unfold accessLockOrder
    split <;> infer_instance

/-- A role, which the account `alice` has. -/
def editor : Role := ⟨uuidE, "editor", none, false⟩

/-- Only `alice` exists, and `requests` have come in. -/
def deployment (n : Nat) (requests : List ServiceCall) : State (Fin n) where
  shared := {
    account := (boot n []).shared
    access  := {
      roles           := Table.empty.put editor
      deleting        := fun _ => none
      sharing         := fun _ => []
      userRoles       := ⟨⟨[⟨0, ⟨uuidA, uuidE⟩, none, none⟩], by simp⟩, 1, by simp⟩
      rolePermissions := ⟨Table.empty, 0, by simp [Table.empty]⟩ } }
  calls c := requests.getD c (.account (.logout (.start none)))

/-- A link for `alice`, its use, and the deletion of the account. -/
def resetAndDelete : List ServiceCall :=
  [.account (.forgotPassword (.start ⟨"a@b.co"⟩ ⟨none, none⟩)),
    .account (.resetPassword (.start ⟨"R", "new"⟩)),
    .account (.softDelete (.start "a" none))]

/-- The role is given again, and deleted. -/
def assignAndRemove : List ServiceCall :=
  [.access (.setRoles (.replace (.start uuidA ["e"]))), .access (.removeRole (.start "e"))]

theorem initial_deployment {n : Nat} {requests : List ServiceCall}
    (h : ∀ call ∈ requests, call.onAccount.IsRequest ∧ call.onAccess.Idle) :
      Initial (deployment n requests) := by
  have hcalls : ∀ c : Fin n, ((deployment n requests).calls c).onAccount.IsRequest ∧
      ((deployment n requests).calls c).onAccess.Idle := by
    intro c
    change (requests.getD c.val _).onAccount.IsRequest ∧ (requests.getD c.val _).onAccess.Idle
    rw [List.getD_eq_getElem?_getD]
    cases hc : requests[c.val]? with
    | none => exact ⟨trivial, trivial⟩
    | some call => exact h call (List.mem_of_getElem? hc)
  refine ⟨⟨fun c => (hcalls c).1, rfl, rfl⟩, ⟨fun _ => rfl, fun _ => rfl, fun _ => rfl⟩,
    fun c => (hcalls c).2,
    ⟨fun _ => rfl, fun _ => rfl, by simp [deployment], by simp [deployment, Table.empty]⟩⟩

/-- The actions of an account operation, in a schedule. -/
def moves (c : Nat) (choices : List Choice) : List (Nat × ServiceAct) :=
  choices.map fun o => (c, .account (.run o))

/-- The actions of `setRoles` and `remove`. -/
def rowMoves (c : Nat) (n : Nat) : List (Nat × ServiceAct) := List.replicate n (c, .access (.run 0))

/-- `c` is about to update the row of the user, which `d` has updated. -/
def userWait {C : Type} [DecidableEq C] (c d : C) (userId : Uuid) (t : State C) : Bool :=
  let s := accountSide t
  decide ((.user userId, .noKeyUpdate) ∈ (s.calls c).requests toyEnv s.shared) &&
    decide (s.shared.users.owner userId = some d)

/-- `c` is about to update a link, which `d` has selected. -/
def linkWait {C : Type} [DecidableEq C] (c d : C) (linkId : Uuid) (t : State C) : Bool :=
  let s := accountSide t
  decide ((.resetToken linkId, .noKeyUpdate) ∈ (s.calls c).requests toyEnv s.shared) &&
    decide (s.shared.resetTokens.owner linkId = some d) &&
    decide ((s.calls d).link.map PasswordResetToken.id = some linkId)

/-- `c` refers to the role, which `d` has deleted; `d` is about to delete a version of a join row, which
    `c` has deleted. -/
def roleCircle {C : Type} [DecidableEq C] (c d : C) (roleId : Uuid) (tid : Nat) (t : State C) : Bool :=
  let s := accessSide t
  decide ((.role roleId, .keyShare) ∈ (s.calls c).requests c s.shared) &&
    decide (s.shared.deleting roleId = some d) &&
    decide ((.userRole tid, .forUpdate) ∈ (s.calls d).requests d s.shared) &&
    (s.shared.userRoles.versions.get tid).any fun v => decide (v.deleting = some c)

section Waits

variable {C : Type} [DecidableEq C] {c d : C} {t : State C} {userId linkId roleId : Uuid} {tid : Nat}

theorem waits_of_user (hne : c ≠ d) (h : userWait c d userId t = true) : (locks toyEnv t).Waits c d := by
  simp only [userWait, Bool.and_eq_true, decide_eq_true_eq] at h
  obtain ⟨hreq, howner⟩ := h
  exact ⟨hne, .account (.user userId), .noKeyUpdate, .noKeyUpdate, .inl hreq,
    .inl (.inl ⟨howner, rfl⟩), rfl⟩

theorem waits_of_link (hne : c ≠ d) (h : linkWait c d linkId t = true) : (locks toyEnv t).Waits c d := by
  simp only [linkWait, Bool.and_eq_true, decide_eq_true_eq] at h
  obtain ⟨⟨hreq, howner⟩, hlink⟩ := h
  exact ⟨hne, .account (.resetToken linkId), .noKeyUpdate, .forUpdate, .inl hreq,
    .inl ⟨howner, (if_pos hlink).symm⟩, rfl⟩

theorem deadlocked_of_role (hne : c ≠ d) (h : roleCircle c d roleId tid t = true) :
    (locks toyEnv t).Deadlocked := by
  simp only [roleCircle, Bool.and_eq_true, decide_eq_true_eq, Option.any_eq_true] at h
  obtain ⟨⟨⟨hreq, hdeleting⟩, hreq'⟩, v, hv, hmark⟩ := h
  have hcd : (locks toyEnv t).Waits c d :=
    ⟨hne, .access (.role roleId), .keyShare, .forUpdate, hreq, .inl ⟨hdeleting, rfl⟩, rfl⟩
  have hdc : (locks toyEnv t).Waits d c :=
    ⟨hne.symm, .access (.userRole tid), .forUpdate, .forUpdate, hreq', ⟨⟨v, hv, .inr hmark⟩, rfl⟩, rfl⟩
  exact .of_waits hcd hdc

end Waits

/-- The link is issued; the reset takes `n` steps, and then the deletion `m`. -/
def resetThenDelete (n m : Nat) : List (Nat × ServiceAct) :=
  moves 0 (List.replicate 3 (.at 1 uuidA "" uuidA) ++ [.at 2 uuidB "R" uuidA]) ++
    moves 1 (List.replicate n (.at 3 uuidA "" uuidA)) ++
      moves 2 (List.replicate m (.at 3 uuidA "" uuidA))

theorem initial_resetAndDelete : Initial (deployment 3 resetAndDelete) :=
  initial_deployment (by simp [resetAndDelete, ServiceCall.onAccount, ServiceCall.onAccess,
    Call.IsRequest, AccessCall.Idle])

theorem initial_assignAndRemove : Initial (deployment 2 assignAndRemove) :=
  initial_deployment (by simp [assignAndRemove, ServiceCall.onAccount, ServiceCall.onAccess,
    Call.IsRequest, AccessCall.Idle])

/-- A deletion that waits for a reset, which waits for nobody. -/
theorem no_lock_cycle_one_waits : ∃ s t : State (Fin 3), Initial s ∧
    Pool.Run (exec toyEnv) (inLockOrder toyEnv (fun _ => 0) fun _ => 0) s t ∧
      (locks toyEnv t).Waits 2 1 ∧
      ¬ (locks toyEnv t).Deadlocked := by
  have hrun : (Pool.replay (exec toyEnv) (inLockOrder toyEnv (fun _ => 0) fun _ => 0)
    (deployment 3 resetAndDelete)
      (Pool.turns 3 (resetThenDelete 5 1))).any (userWait 2 1 uuidA) = true := by
    decide +kernel
  obtain ⟨t, hr, hcheck⟩ := Pool.exists_run_of_replay hrun
  exact ⟨_, t, initial_resetAndDelete, hr, waits_of_user (by decide) hcheck,
    no_lock_cycle initial_resetAndDelete hr⟩

/-- **Locks in opposite orders**: a `resetPassword` and a `softDelete` of the user wait for each other,
    and so do a `setRoles` and a `remove` of the role. -/
theorem lock_cycles :
    (∃ s t : State (Fin 3), Initial s ∧ Pool.Steps (exec toyEnv) s t ∧ (locks toyEnv t).Deadlocked) ∧
      ∃ s t : State (Fin 2), Initial s ∧ Pool.Steps (exec toyEnv) s t ∧ (locks toyEnv t).Deadlocked := by
  constructor
  · have hrun : (Pool.replay (exec toyEnv) Pool.anyStep (deployment 3 resetAndDelete)
        (Pool.turns 3 (resetThenDelete 2 5))).any
          (fun t => userWait 1 2 uuidA t && linkWait 2 1 uuidB t) = true := by
      decide +kernel
    obtain ⟨t, hr, hcheck⟩ := Pool.exists_run_of_replay hrun
    obtain ⟨huser, hlink⟩ := Bool.and_eq_true_iff.mp hcheck
    exact ⟨_, t, initial_resetAndDelete, hr,
      .of_waits (waits_of_user (by decide) huser) (waits_of_link (by decide) hlink)⟩
  · have hrun : (Pool.replay (exec toyEnv) Pool.anyStep (deployment 2 assignAndRemove)
        (Pool.turns 2 (rowMoves 0 7 ++ rowMoves 1 6))).any (roleCircle 0 1 uuidE 0) = true := by
      decide +kernel
    obtain ⟨t, hr, hcheck⟩ := Pool.exists_run_of_replay hrun
    exact ⟨_, t, initial_assignAndRemove, hr, deadlocked_of_role (by decide) hcheck⟩

end LockCycles

end NestApp
