import NestApp.Auth.Database

/-!
# `Users.SoftDelete` — `UsersService.softDelete`

One transaction: mark the user as deleted, revoke the live refresh tokens, invalidate the unused reset
links. The id comes from the URL: the guard against deleting oneself compares texts, the database
compares values.

The account is read before the transaction begins, so two deletions of one account may both find it.
The second one writes its `deleted_at` again, and revokes what has come up in between.
-/

namespace NestApp

open Sql

variable {C : Type} [DecidableEq C]

namespace SoftDelete

inductive Pc where
  | start (id : String) (actingUserId : Option String)
  | delete (id : Uuid)
  /-- about to start the `UPDATE` on `refresh_tokens` -/
  | revokeAll (id : Uuid) (tx : Tx)
  | sweepRefreshTokens (id : Uuid) (todo : List Uuid) (tx : Tx)
  /-- about to start the `UPDATE` on `password_reset_tokens` -/
  | invalidateAll (id : Uuid) (tx : Tx)
  | sweepResetTokens (id : Uuid) (todo : List Uuid) (tx : Tx)
  | done (id : Uuid)
  | failed (e : HttpException)

/-- `manager.softDelete(User, id)` -/
def withDeletedAt (now : Nat) (u : User) : User := { u with deletedAt := some now, updatedAt := now }

theorem rewritten_withDeletedAt (now : Nat) (u : User) : Rewritten u (withDeletedAt now u) :=
  ⟨_, _, _, rfl, fun _ => rfl⟩

def step (c : C) (db : Db C) (o : Choice) : Pc → Option (Db C × Pc)
  | .start id actingUserId =>
      if some id = actingUserId then some (db, .failed (.badRequest "Cannot delete your own account"))
      -- this check runs before the transaction, which locks the row only in its first statement
      else if (db.findUser {} (Uuid.cast id)).isSome then some (db, .delete (Uuid.cast id))
      else some (db, .failed (.notFound "User not found"))
  | .delete id =>
      (db.updateUser c {} id (withDeletedAt o.now)).map fun r => (r.1, .revokeAll id r.2)
  | .revokeAll id tx =>
      some (db, .sweepRefreshTokens id (db.refreshTokens.table.select (liveOfUser id)) tx)
  | .sweepRefreshTokens id todo tx =>
      if todo = [] then some (db, .invalidateAll id tx)
      else if o.row ∈ todo then
        (db.updateRefreshToken c tx o.row (liveOfUser id) (revoke o.now)).map fun r =>
          (r.1, .sweepRefreshTokens id (todo.erase o.row) r.2)
      else none
  | .invalidateAll id tx =>
      some (db, .sweepResetTokens id (db.resetTokens.table.select (unusedOfUser id)) tx)
  | .sweepResetTokens id todo tx =>
      -- one commit for the deletion, the revocations and the links
      if todo = [] then some (db.commit c tx, .done id)
      else if o.row ∈ todo then
        (db.updateResetToken c tx o.row (unusedOfUser id) (markUsed o.now)).map fun r =>
          (r.1, .sweepResetTokens id (todo.erase o.row) r.2)
      else none
  | .done _ | .failed _ => none

/-- The buffer marks user `id` as deleted and does nothing else on `users`. -/
def DeletesUser (c : C) (db : Db C) (tx : Tx) (id : Uuid) : Prop :=
  ∃ u now, u.id = id ∧ tx.StoresUser db c u (withDeletedAt now u)

/-- What the call knows at each point. -/
def Ok (c : C) (db : Db C) : Pc → Prop
  | .start .. | .done _ | .failed _ => True
  | .delete id => (db.users.table.get id).isSome
  | .revokeAll id tx | .sweepRefreshTokens id _ tx | .invalidateAll id tx | .sweepResetTokens id _ tx =>
      tx.Marks db c ∧ DeletesUser c db tx id

variable {c d : C} {db db' : Db C} {o : Choice} {pc pc' : Pc} {id : Uuid} {tx tx' : Tx}

omit [DecidableEq C] in
theorem DeletesUser.frame (h : DeletesUser c db tx id) (hf : Db.Frame d db db') (hd : c ≠ d) :
    DeletesUser c db' tx id := by
  obtain ⟨u, now, hu, hs⟩ := h
  exact ⟨u, now, hu, hs.frame hf hd⟩

omit [DecidableEq C] in
theorem DeletesUser.inTx (h : DeletesUser c db tx id) (hi : Db.InTx c db db')
    (htx : tx'.users = tx.users) : DeletesUser c db' tx' id := by
  obtain ⟨u, now, hu, hs⟩ := h
  exact ⟨u, now, hu, hs.inTx hi htx⟩

omit [DecidableEq C] in
theorem Ok.frame (h : Ok c db pc) (hf : Db.Frame d db db') (hd : c ≠ d) : Ok c db' pc := by
  cases pc with
  | start | done | failed => trivial
  | delete id => exact hf.userRows h
  | revokeAll id tx => exact ⟨h.1.frame hf hd, h.2.frame hf hd⟩
  | sweepRefreshTokens id todo tx => exact ⟨h.1.frame hf hd, h.2.frame hf hd⟩
  | invalidateAll id tx => exact ⟨h.1.frame hf hd, h.2.frame hf hd⟩
  | sweepResetTokens id todo tx => exact ⟨h.1.frame hf hd, h.2.frame hf hd⟩

/-- **What a step can do**: run a statement, inside the transaction or before it, or commit. -/
theorem step_cases (hs : step c db o pc = some (db', pc')) (hok : Ok c db pc) :
    (Db.InTx c db db' ∧ Ok c db' pc' ∧ ∀ id, pc' ≠ .done id) ∨
      ∃ id tx, pc = .sweepResetTokens id [] tx ∧ pc' = .done id ∧ db' = db.commit c tx := by
  cases pc with
  | start id actingUserId =>
      refine .inl ?_
      simp only [step] at hs
      split at hs
      · cases hs; exact ⟨.refl, trivial, by simp⟩
      · split at hs
        · next hfind =>
          cases hs
          obtain ⟨u, hu⟩ := Option.isSome_iff_exists.mp hfind
          exact ⟨.refl, Db.findUser_isSome hu, by simp⟩
        · cases hs; exact ⟨.refl, trivial, by simp⟩
  | delete id =>
      obtain ⟨⟨db₁, tx₁⟩, hupd, hres⟩ := Option.map_eq_some_iff.mp hs
      cases hres
      have hm := Tx.Marks.empty.updateUser (rewritten_withDeletedAt _) hupd
      -- rows are never removed, so the row found by the check is still there
      obtain ⟨u, hh, hid, rfl⟩ := Db.updateUser_stores hupd hok
      exact .inl ⟨Db.updateUser_inTx hupd, ⟨hm, u, o.now, hid, hh, rfl⟩, by simp⟩
  | revokeAll id tx => cases hs; exact .inl ⟨.refl, hok, by simp⟩
  | sweepRefreshTokens id todo tx =>
      refine .inl ?_
      simp only [step] at hs
      split at hs
      · cases hs; exact ⟨.refl, hok, by simp⟩
      · split at hs
        · obtain ⟨⟨db₁, tx₁⟩, hupd, hres⟩ := Option.map_eq_some_iff.mp hs
          cases hres
          have hi := Db.updateRefreshToken_inTx hupd
          exact ⟨hi, ⟨hok.1.revoke hupd, hok.2.inTx hi (Db.updateRefreshToken_others hupd).1⟩, by simp⟩
        · cases hs
  | invalidateAll id tx => cases hs; exact .inl ⟨.refl, hok, by simp⟩
  | sweepResetTokens id todo tx =>
      simp only [step] at hs
      split at hs
      · next htodo =>
        subst htodo
        cases hs
        exact .inr ⟨id, tx, rfl, rfl, rfl⟩
      · split at hs
        · obtain ⟨⟨db₁, tx₁⟩, hupd, hres⟩ := Option.map_eq_some_iff.mp hs
          cases hres
          have hi := Db.updateResetToken_inTx hupd
          exact .inl ⟨hi, ⟨hok.1.markUsed hupd, hok.2.inTx hi (Db.updateResetToken_others hupd).1⟩, by
            simp⟩
        · cases hs
  | done | failed => cases hs

/-- **Own step.** The outline is kept, the others' locks are respected, and what is committed are
    versions of rows. -/
theorem step_ok (hs : step c db o pc = some (db', pc')) (hok : Ok c db pc) :
    Ok c db' pc' ∧ Db.Frame c db db' ∧ Db.Versions db db' := by
  rcases step_cases hs hok with ⟨hi, hok', -⟩ | ⟨id, tx, rfl, rfl, rfl⟩
  · exact ⟨hok', hi.frame, hi.versions⟩
  · exact ⟨trivial, hok.1.frame_commit, hok.1.versions⟩

end SoftDelete

end NestApp
