import NestApp.Auth.Service

/-!
# `Auth.Locks` — which rows an account operation has locked

A call has locked the rows its transaction buffers (`Call.tx`), the refresh token `refresh` was
presented and the link `resetPassword` was given (`Call.presented`, `Call.link`), which these two
select `FOR UPDATE`, and no other row. `reachable_covered` is this invariant; `exec_covered` is its
step: only the call that moves gains locks, and it gains those of its new program point.

That a call has locked nothing else is as important as that it has locked these: a transaction that
waits can only be waited for because of a row listed here, so the search for a circle of waits is a
search through the program points.
-/

namespace NestApp

open Sql

variable {C : Type}

/-- Nobody but `c` gains a lock. -/
structure Db.Grants (c : C) (db db' : Db C) : Prop where
  users         : db.users.Grants c db'.users
  refreshTokens : db.refreshTokens.Grants c db'.refreshTokens
  resetTokens   : db.resetTokens.Grants c db'.resetTokens

/-- The rows `c` has locked are those of the buffer, the refresh token `presented` and the link
    `record`. -/
structure Tx.Covers (db : Db C) (c : C) (tx : Tx) (presented record : Option Uuid) : Prop where
  users         : db.users.Covered c tx.users none
  refreshTokens : db.refreshTokens.Covered c tx.refreshTokens presented
  resetTokens   : db.resetTokens.Covered c tx.resetTokens record

variable {c d : C} {db db' : Db C}

section Statements

variable {tx tx' : Tx} {presented record : Option Uuid} {k : Uuid}

theorem Db.Grants.refl : Db.Grants c db db := ⟨.refl, .refl, .refl⟩

theorem Db.Grants.trans {db'' : Db C} (h : Db.Grants c db db') (h' : Db.Grants c db' db'') :
    Db.Grants c db db'' :=
  ⟨h.users.trans h'.users, h.refreshTokens.trans h'.refreshTokens, h.resetTokens.trans h'.resetTokens⟩

theorem Tx.Covers.frame (h : Tx.Covers db c tx presented record) (hg : Db.Grants d db db') (hd : c ≠ d) :
    Tx.Covers db' c tx presented record :=
  ⟨h.users.frame hg.users hd, h.refreshTokens.frame hg.refreshTokens hd,
    h.resetTokens.frame hg.resetTokens hd⟩

/-! ## Statements

How the locks of a transaction grow, statement by statement. A `COMMIT` and a `ROLLBACK` give up all of
them at once. -/

variable [DecidableEq C]

theorem Db.grants_commit : Db.Grants c db (db.commit c tx) :=
  ⟨Store.grants_commit, Store.grants_commit, Store.grants_commit⟩

theorem Db.grants_rollback : Db.Grants c db (db.rollback c) :=
  ⟨Store.grants_release, Store.grants_release, Store.grants_release⟩

theorem Db.covers_commit : Tx.Covers (db.commit c tx) c {} none none :=
  ⟨Store.covered_commit, Store.covered_commit, Store.covered_commit⟩

theorem Db.covers_rollback : Tx.Covers (db.rollback c) c {} none none :=
  ⟨Store.covered_release, Store.covered_release, Store.covered_release⟩

theorem Tx.Covers.updateUser {f : User → User} (hc : Tx.Covers db c tx presented record)
    (h : db.updateUser c tx k f = some (db', tx')) (hkey : ∀ u, (f u).id = u.id) :
    Db.Grants c db db' ∧ Tx.Covers db' c tx' presented record := by
  simp only [Db.updateUser, Option.map_eq_some_iff, Prod.mk.injEq] at h
  obtain ⟨⟨st, ws⟩, hv, rfl, rfl⟩ := h
  exact ⟨⟨Store.grants_visit hv, .refl, .refl⟩, hc.users.visit hv hkey, hc.refreshTokens, hc.resetTokens⟩

theorem Tx.Covers.updateRefreshToken {p : RefreshToken → Bool} {f : RefreshToken → RefreshToken}
    (hc : Tx.Covers db c tx presented record) (h : db.updateRefreshToken c tx k p f = some (db', tx'))
    (hkey : ∀ r, (f r).id = r.id) : Db.Grants c db db' ∧ Tx.Covers db' c tx' presented record := by
  simp only [Db.updateRefreshToken, Option.map_eq_some_iff, Prod.mk.injEq] at h
  obtain ⟨⟨st, ws⟩, hv, rfl, rfl⟩ := h
  exact ⟨⟨.refl, Store.grants_visit hv, .refl⟩, hc.users, hc.refreshTokens.visit hv hkey, hc.resetTokens⟩

theorem Tx.Covers.updateResetToken {p : PasswordResetToken → Bool}
    {f : PasswordResetToken → PasswordResetToken}
    (hc : Tx.Covers db c tx presented record) (h : db.updateResetToken c tx k p f = some (db', tx'))
    (hkey : ∀ r, (f r).id = r.id) : Db.Grants c db db' ∧ Tx.Covers db' c tx' presented record := by
  simp only [Db.updateResetToken, Option.map_eq_some_iff, Prod.mk.injEq] at h
  obtain ⟨⟨st, ws⟩, hv, rfl, rfl⟩ := h
  exact ⟨⟨.refl, .refl, Store.grants_visit hv⟩, hc.users, hc.refreshTokens, hc.resetTokens.visit hv hkey⟩

omit [DecidableEq C] in
theorem Tx.Covers.insertRefreshToken {row : RefreshToken} (hc : Tx.Covers db c tx presented record)
    (h : db.insertRefreshToken c tx row = some (db', tx')) :
    Db.Grants c db db' ∧ Tx.Covers db' c tx' presented record := by
  unfold Db.insertRefreshToken at h
  split at h
  · simp only [Option.map_eq_some_iff, Prod.mk.injEq] at h
    obtain ⟨⟨st, ws⟩, hv, rfl, rfl⟩ := h
    obtain ⟨hg, hrow⟩ := hc.refreshTokens.insert hv
    exact ⟨⟨.refl, hg, .refl⟩, hc.users, hrow, hc.resetTokens⟩
  · cases h

end Statements

/-! ## The locks of a call

For each program point the buffer the call is in, and what it has selected. Each operation has one
lemma, and `exec_covered` puts them together. -/

/-- The buffer of the transaction a call is in. -/
def Call.tx : Call → Tx
  | .refresh (.sweep _ _ tx) | .refresh (.linkNext _ _ _ tx) | .refresh (.commit _ tx _)           => tx
  | .forgotPassword (.sweep _ _ _ tx)                                                              => tx
  | .resetPassword (.markUsed _ _ _ tx) | .resetPassword (.revokeAll _ _ _ tx) |
      .resetPassword (.sweep _ _ _ _ tx) => tx
  | .softDelete (.revokeAll _ tx) | .softDelete (.sweepRefreshTokens _ _ tx)                       => tx
  | .softDelete (.invalidateAll _ tx) | .softDelete (.sweepResetTokens _ _ tx)                     => tx
  | _                                                                                              => {}

/-- The refresh token a call has selected `FOR UPDATE`. -/
def Call.presented : Call → Option RefreshToken
  | .refresh (.theft p) | .refresh (.sweep p _ _) | .refresh (.expired p) | .refresh (.findUser p)
  | .refresh (.insertNext p _) | .refresh (.linkNext p _ _ _) | .refresh (.commit p _ _) => some p.stored
  | _ => none

/-- The reset link a call has selected `FOR UPDATE`. -/
def Call.link : Call → Option PasswordResetToken
  | .resetPassword (.findUser _ record) | .resetPassword (.setPassword _ record _) |
      .resetPassword (.markUsed record _ _ _)
  | .resetPassword (.revokeAll record _ _ _) | .resetPassword (.sweep record _ _ _ _) => some record
  | _ => none

/-- A call has locked what it buffers and what it has selected. -/
def Call.Covered (c : C) (db : Db C) (call : Call) : Prop :=
  call.tx.Covers db c (call.presented.map RefreshToken.id) (call.link.map PasswordResetToken.id)

variable [DecidableEq C] {env : Env} {call call' : Call} {a : Act} {o : Choice}

namespace Refresh

variable {pc pc' : Pc}

omit [DecidableEq C] in
theorem classify_covers {now : Nat} {p : Presented} (h : Tx.Covers db c {} (some p.stored.id) none) :
    (Call.refresh (classify now p)).Covered c db := by
  unfold classify
  split
  · exact h
  · split
    · exact h
    · exact h

theorem step_covered (hs : step env c db o pc = some (db', pc')) (hc : (Call.refresh pc).Covered c db) :
    Db.Grants c db db' ∧ (Call.refresh pc').Covered c db' := by
  cases pc with
  | start presented metadata =>
      rcases presented with _ | token
      · cases hs
        exact ⟨.refl, hc⟩
      · by_cases ht : token = ""
        · subst ht
          cases hs
          exact ⟨.refl, hc⟩
        · simp only [step, Option.map_eq_some_iff] at hs
          obtain ⟨⟨st, found⟩, hsel, hres⟩ := hs
          obtain ⟨hg, hrow⟩ := Store.covered_selectForUpdate hc.refreshTokens hsel
          cases found with
          | none =>
              cases hres
              exact ⟨.refl, hc⟩
          | some stored =>
              cases hres
              exact ⟨⟨.refl, hg, .refl⟩, classify_covers ⟨hc.users, hrow, hc.resetTokens⟩⟩
  | theft p =>
      cases hs
      exact ⟨.refl, hc⟩
  | sweep p todo tx =>
      simp only [step] at hs
      split at hs
      · cases hs
        exact ⟨.refl, hc⟩
      · split at hs
        · obtain ⟨⟨db₁, tx₁⟩, hupd, hres⟩ := Option.map_eq_some_iff.mp hs
          cases hres
          exact hc.updateRefreshToken hupd fun _ => rfl
        · cases hs
  | expired p =>
      obtain ⟨⟨db₁, tx₁⟩, hupd, hres⟩ := Option.map_eq_some_iff.mp hs
      cases hres
      exact hc.updateRefreshToken hupd fun _ => rfl
  | findUser p =>
      simp only [step] at hs
      split at hs
      · split at hs
        · cases hs
          exact ⟨.refl, hc⟩
        · cases hs
          exact ⟨.refl, hc⟩
      · cases hs
        exact ⟨.refl, hc⟩
  | insertNext p user =>
      obtain ⟨⟨db₁, tx₁⟩, hins, hres⟩ := Option.map_eq_some_iff.mp hs
      cases hres
      exact hc.insertRefreshToken hins
  | linkNext p user next tx =>
      obtain ⟨⟨db₁, tx₁⟩, hupd, hres⟩ := Option.map_eq_some_iff.mp hs
      cases hres
      exact hc.updateRefreshToken hupd fun _ => rfl
  | commit p tx outcome =>
      cases hs
      exact ⟨Db.grants_commit, Db.covers_commit⟩
  | done | failed => cases hs

end Refresh

namespace ResetPassword

variable {pc pc' : Pc}

theorem step_covered (hs : step env c db o pc = some (db', pc'))
    (hc : (Call.resetPassword pc).Covered c db) :
    Db.Grants c db db' ∧ (Call.resetPassword pc').Covered c db' := by
  cases pc with
  | start dto =>
      obtain ⟨⟨st, found⟩, hsel, hres⟩ := Option.map_eq_some_iff.mp hs
      obtain ⟨hg, hrow⟩ := Store.covered_selectForUpdate hc.resetTokens hsel
      cases found with
      | none =>
          cases hres
          exact ⟨.refl, hc⟩
      | some record =>
          simp only at hres
          split at hres
          · cases hres
            exact ⟨Db.grants_rollback, Db.covers_rollback⟩
          · cases hres
            exact ⟨⟨.refl, .refl, hg⟩, hc.users, hc.refreshTokens, hrow⟩
  | findUser dto record =>
      simp only [step] at hs
      split at hs
      · split at hs
        · cases hs
          exact ⟨.refl, hc⟩
        · cases hs
          exact ⟨Db.grants_rollback, Db.covers_rollback⟩
      · cases hs
        exact ⟨Db.grants_rollback, Db.covers_rollback⟩
  | setPassword dto record user =>
      obtain ⟨⟨db₁, tx₁⟩, hupd, hres⟩ := Option.map_eq_some_iff.mp hs
      cases hres
      exact hc.updateUser hupd fun _ => rfl
  | markUsed record user passwordHash tx =>
      obtain ⟨⟨db₁, tx₁⟩, hupd, hres⟩ := Option.map_eq_some_iff.mp hs
      cases hres
      exact hc.updateResetToken hupd fun _ => rfl
  | revokeAll record user passwordHash tx =>
      cases hs
      exact ⟨.refl, hc⟩
  | sweep record user passwordHash todo tx =>
      simp only [step] at hs
      split at hs
      · cases hs
        exact ⟨Db.grants_commit, Db.covers_commit⟩
      · split at hs
        · obtain ⟨⟨db₁, tx₁⟩, hupd, hres⟩ := Option.map_eq_some_iff.mp hs
          cases hres
          exact hc.updateRefreshToken hupd fun _ => rfl
        · cases hs
  | done | failed => cases hs

end ResetPassword

namespace SoftDelete

variable {pc pc' : Pc}

theorem step_covered (hs : step c db o pc = some (db', pc')) (hc : (Call.softDelete pc).Covered c db) :
    Db.Grants c db db' ∧ (Call.softDelete pc').Covered c db' := by
  cases pc with
  | start id actingUserId =>
      simp only [step] at hs
      split at hs
      · cases hs
        exact ⟨.refl, hc⟩
      · split at hs
        · cases hs
          exact ⟨.refl, hc⟩
        · cases hs
          exact ⟨.refl, hc⟩
  | delete id =>
      obtain ⟨⟨db₁, tx₁⟩, hupd, hres⟩ := Option.map_eq_some_iff.mp hs
      cases hres
      exact hc.updateUser hupd fun _ => rfl
  | revokeAll id tx =>
      cases hs
      exact ⟨.refl, hc⟩
  | sweepRefreshTokens id todo tx =>
      simp only [step] at hs
      split at hs
      · cases hs
        exact ⟨.refl, hc⟩
      · split at hs
        · obtain ⟨⟨db₁, tx₁⟩, hupd, hres⟩ := Option.map_eq_some_iff.mp hs
          cases hres
          exact hc.updateRefreshToken hupd fun _ => rfl
        · cases hs
  | invalidateAll id tx =>
      cases hs
      exact ⟨.refl, hc⟩
  | sweepResetTokens id todo tx =>
      simp only [step] at hs
      split at hs
      · cases hs
        exact ⟨Db.grants_commit, Db.covers_commit⟩
      · split at hs
        · obtain ⟨⟨db₁, tx₁⟩, hupd, hres⟩ := Option.map_eq_some_iff.mp hs
          cases hres
          exact hc.updateResetToken hupd fun _ => rfl
        · cases hs
  | done | failed => cases hs

end SoftDelete

namespace ForgotPassword

variable {pc pc' : Pc}

theorem step_covered (hs : step env c db o pc = some (db', pc'))
    (hc : (Call.forgotPassword pc).Covered c db) :
    Db.Grants c db db' ∧ (Call.forgotPassword pc').Covered c db' := by
  cases pc with
  | start dto metadata =>
      simp only [step] at hs
      split at hs
      · cases hs
        exact ⟨.refl, hc⟩
      · split at hs
        · cases hs
          exact ⟨.refl, hc⟩
        · cases hs
          exact ⟨.refl, hc⟩
  | invalidate user metadata =>
      cases hs
      exact ⟨.refl, hc⟩
  | sweep user metadata todo tx =>
      simp only [step] at hs
      split at hs
      · cases hs
        exact ⟨Db.grants_commit, Db.covers_commit⟩
      · split at hs
        · obtain ⟨⟨db₁, tx₁⟩, hupd, hres⟩ := Option.map_eq_some_iff.mp hs
          cases hres
          exact hc.updateResetToken hupd fun _ => rfl
        · cases hs
  | save user metadata =>
      -- one statement in autocommit mode: its lock is gone when it ends
      obtain ⟨⟨st, ws⟩, hins, hres⟩ := Option.map_eq_some_iff.mp hs
      cases hres
      obtain ⟨hg, -⟩ := hc.resetTokens.insert hins
      exact ⟨⟨.refl, .refl, hg.trans Store.grants_commit⟩, hc.users, hc.refreshTokens,
        Store.covered_commit⟩
  | done => cases hs

end ForgotPassword

namespace Session

variable {pc pc' : Pc}

theorem step_covered (hs : step env c db o pc = some (db', pc')) (hc : (Call.session pc).Covered c db) :
    Db.Grants c db db' ∧ (Call.session pc').Covered c db' := by
  rcases step_cases hs with ⟨rfl, -⟩ | ⟨dto, metadata, -, rfl, -, -, rfl⟩ |
    ⟨user, metadata, db₁, -, rfl, -, hins, rfl⟩
  · exact ⟨.refl, hc⟩
  · exact ⟨⟨Store.grants_lock.trans Store.grants_commit, .refl, .refl⟩, Store.covered_commit,
      hc.refreshTokens,
      hc.resetTokens⟩
  · obtain ⟨hg, -⟩ := Tx.Covers.insertRefreshToken hc hins
    exact ⟨hg.trans Db.grants_commit, Db.covers_commit⟩

end Session

namespace Logout

variable {pc pc' : Pc}

theorem step_covered (hs : step env c db o pc = some (db', pc')) (hc : (Call.logout pc).Covered c db) :
    Db.Grants c db db' ∧ (Call.logout pc').Covered c db' := by
  cases pc with
  | start presented =>
      rcases presented with _ | token
      · cases hs
        exact ⟨.refl, hc⟩
      · by_cases ht : token = ""
        · subst ht
          cases hs
          exact ⟨.refl, hc⟩
        · simp only [step] at hs
          split at hs
          · cases hs
            exact ⟨.refl, hc⟩
          · split at hs
            · cases hs
              exact ⟨.refl, hc⟩
            · cases hs
              exact ⟨.refl, hc⟩
  | revoke id =>
      obtain ⟨⟨db₁, tx₁⟩, hupd, hres⟩ := Option.map_eq_some_iff.mp hs
      cases hres
      obtain ⟨hg, -⟩ := Tx.Covers.updateRefreshToken hc hupd fun _ => rfl
      exact ⟨hg.trans Db.grants_commit, Db.covers_commit⟩
  | done => cases hs

end Logout

/-- **Own step**: only the call that moves gains locks, and it has those of its new program point. -/
theorem exec_covered (h : exec env c db call a = some (db', call')) (hc : call.Covered c db) :
    Db.Grants c db db' ∧ call'.Covered c db' := by
  rcases exec_cases h with ⟨-, -, rfl, rfl⟩ | ⟨o, pc, pc', -, rfl, rfl, hs⟩ |
    ⟨o, pc, pc', -, rfl, rfl, hs⟩ |
    ⟨o, pc, pc', -, rfl, rfl, hs⟩ | ⟨o, pc, pc', -, rfl, rfl, hs⟩ | ⟨o, pc, pc', -, rfl, rfl, hs⟩ |
    ⟨o, pc, pc', -, rfl, rfl, hs⟩
  · exact ⟨Db.grants_rollback, Db.covers_rollback⟩
  · exact Session.step_covered hs hc
  · exact Refresh.step_covered hs hc
  · exact Logout.step_covered hs hc
  · exact ForgotPassword.step_covered hs hc
  · exact ResetPassword.step_covered hs hc
  · exact SoftDelete.step_covered hs hc

/-- Nobody has locked anything. -/
structure Db.Unlocked (db : Db C) : Prop where
  users         : ∀ k, db.users.owner k = none
  refreshTokens : ∀ k, db.refreshTokens.owner k = none
  resetTokens   : ∀ k, db.resetTokens.owner k = none

omit [DecidableEq C] in
theorem Db.Unlocked.covered (h : db.Unlocked) : call.Covered c db :=
  ⟨fun k ho => absurd ho (by simp [h.users k]), fun k ho => absurd ho (by simp [h.refreshTokens k]),
    fun k ho => absurd ho (by simp [h.resetTokens k])⟩

variable {s t : State C} {ok : StepCondition C}

/-- **Every reachable call** has locked what it buffers and what it has selected, and nothing else. -/
theorem reachable_covered (hr : Pool.Run (exec env) ok s t) (hunlocked : s.shared.Unlocked) (c : C) :
    (t.calls c).Covered c t.shared := by
  refine (hr.local_invariant (G := fun _ => True) (L := fun c db call => call.Covered c db)
    (J := fun _ => True)
    (fun _ => trivial) ?_ ?_ ⟨trivial, fun c => hunlocked.covered⟩).2 c
  · intro t c a db' call' _ _ hL _ hstep
    exact ⟨trivial, (exec_covered hstep (hL c)).2⟩
  · intro t c a db' call' d _ _ hL _ hstep hd
    exact (hL d).frame (exec_covered hstep (hL c)).1 hd

end NestApp
