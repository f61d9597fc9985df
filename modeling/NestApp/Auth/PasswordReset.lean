import NestApp.Auth.Database

/-!
# `Auth.PasswordReset` — `AuthService.forgotPassword` and `resetPassword`

`forgotPassword` runs its statements in autocommit mode: the `UPDATE` that invalidates the earlier
links and the `INSERT` of the new one are two transactions. `resetPassword` is one transaction that
locks the token row first; an exception inside it rolls it back.

Both look the account up by different keys: `forgotPassword` by the address, among the accounts in use,
and `resetPassword` by the link, whose account may have been deleted or deactivated since. The outline
of a reset is about its link, locked from the first statement on, and about the row of its user once
the password is written; that of a request says only what is in the buffer of its `UPDATE`.
-/

namespace NestApp

open Sql

variable {C : Type} [DecidableEq C]

/-! ## `forgotPassword`

A request without an account to answer for ends at once, with the same answer. Otherwise the `UPDATE`
and the `INSERT` follow, each committed by itself. The mail is no part of this model. -/

namespace ForgotPassword

inductive Pc where
  | start (dto : ForgotPasswordDto) (metadata : SessionMetadata)
  /-- about to start the `UPDATE` that invalidates the earlier links -/
  | invalidate (user : User) (metadata : SessionMetadata)
  | sweep (user : User) (metadata : SessionMetadata) (todo : List Uuid) (tx : Tx)
  /-- about to insert the new link -/
  | save (user : User) (metadata : SessionMetadata)
  | done (resetToken : Option PasswordResetToken)

/-- The row `forgotPassword` inserts. -/
def newToken (env : Env) (o : Choice) (user : User) (metadata : SessionMetadata) :
    PasswordResetToken where
  id        := o.id
  userId    := user.id
  tokenHash := env.hashToken o.token
  expiresAt := o.now + env.resetTokenTtlMs
  usedAt    := none
  ipAddress := metadata.ipAddress
  createdAt := o.now

def step (env : Env) (c : C) (db : Db C) (o : Choice) : Pc → Option (Db C × Pc)
  | .start dto metadata =>
      -- an unknown address and an inactive account get the same silent answer
      match db.findByEmail env (normalizeEmail env dto.email) with
      | none => some (db, .done none)
      | some user =>
          if user.status = .active then some (db, .invalidate user metadata) else some (db, .done none)
  | .invalidate user metadata =>
      -- the statement works on the rows its snapshot selects, in any order
      some (db, .sweep user metadata (db.resetTokens.table.select (unusedOfUser user.id)) {})
  | .sweep user metadata todo tx =>
      -- the `UPDATE` is committed before the `INSERT` starts
      if todo = [] then some (db.commit c tx, .save user metadata)
      else if o.row ∈ todo then
        (db.updateResetToken c tx o.row (unusedOfUser user.id) (markUsed o.now)).map fun r =>
          (r.1, .sweep user metadata (todo.erase o.row) r.2)
      else none
  | .save user metadata =>
      (db.resetTokens.insert c [] (newToken env o user metadata)).map fun r =>
        ({ db with resetTokens := r.1.commit c r.2 }, .done (some (newToken env o user metadata)))
  | .done _ => none

/-- What the call knows at each point. -/
def Ok (c : C) (db : Db C) : Pc → Prop
  | .sweep _ _ _ tx => tx.Marks db c ∧ tx.users = [] ∧ tx.refreshTokens = []
  | _               => True

variable {env : Env} {c d : C} {db db' : Db C} {o : Choice} {pc pc' : Pc}

omit [DecidableEq C] in
theorem Ok.frame (h : Ok c db pc) (hf : Db.Frame d db db') (hd : c ≠ d) : Ok c db' pc := by
  cases pc with
  -- only a buffer speaks about rows, and those it speaks about are locked
  | sweep user metadata todo tx => exact ⟨h.1.frame hf hd, h.2⟩
  | start | invalidate | save | done => trivial

/-- **What a step can do**: nothing, mark links, or insert the new link. -/
theorem step_cases (hs : step env c db o pc = some (db', pc')) (hok : Ok c db pc) :
    (Db.Frame c db db' ∧ Db.Versions db db' ∧ db'.users.table = db.users.table ∧
        db'.refreshTokens.table = db.refreshTokens.table ∧ Ok c db' pc' ∧ ∀ t, pc' ≠ .done (some t)) ∨
      ∃ user metadata, pc = .save user metadata ∧ pc' = .done (some (newToken env o user metadata)) ∧
        db.resetTokens.table.get o.id = none ∧ db.resetTokens.owner o.id = none ∧
        db' = { db with
          resetTokens := (db.resetTokens.lock c o.id).commit c
            [.put (newToken env o user metadata)] } := by
  cases pc with
  | start dto metadata =>
      refine .inl ?_
      simp only [step] at hs
      split at hs
      · cases hs; exact ⟨.refl, .refl, rfl, rfl, trivial, by simp⟩
      · split at hs <;> (cases hs; exact ⟨.refl, .refl, rfl, rfl, trivial, by simp⟩)
  | invalidate user metadata =>
      cases hs
      exact .inl ⟨.refl, .refl, rfl, rfl, ⟨.empty, rfl, rfl⟩, by simp⟩
  | sweep user metadata todo tx =>
      obtain ⟨hm, hu, hr⟩ := hok
      refine .inl ?_
      simp only [step] at hs
      split at hs
      · cases hs
        exact ⟨hm.frame_commit, hm.versions, by
          simp [Db.commit, hu], by simp [Db.commit, hr], trivial, by simp⟩
      · split at hs
        · obtain ⟨⟨db₁, tx₁⟩, hupd, hres⟩ := Option.map_eq_some_iff.mp hs
          cases hres
          have hi := Db.updateResetToken_inTx hupd
          obtain ⟨hu', hr'⟩ := Db.updateResetToken_others hupd
          exact ⟨hi.frame, hi.versions, hi.usersTable, hi.refreshTokensTable,
            ⟨hm.markUsed hupd, hu'.trans hu, hr'.trans hr⟩, by simp⟩
        · cases hs
  | save user metadata =>
      obtain ⟨⟨st, ws⟩, hins, hres⟩ := Option.map_eq_some_iff.mp hs
      obtain ⟨hnew, hfree, rfl, rfl⟩ := Store.insert_cases hins
      cases hres
      exact .inr ⟨user, metadata, rfl, rfl, hnew, hfree, rfl⟩
  | done => cases hs

/-- **Own step** of a request for a link: the outline is kept, and the locks of the others are
    respected. -/
theorem step_ok (hs : step env c db o pc = some (db', pc')) (hok : Ok c db pc) :
    Ok c db' pc' ∧ Db.Frame c db db' := by
  rcases step_cases hs hok with ⟨hf, -, -, -, hok', -⟩ | ⟨user, metadata, -, rfl, -, hfree, rfl⟩
  · exact ⟨hok', hf⟩
  -- the row inserted was free, so no other transaction holds it
  · refine ⟨trivial, .refl, .refl, (Store.frame_lock (.inl hfree)).trans (Store.frame_commit ?_), id, id⟩
    exact .cons Store.lock_owner_self .nil

end ForgotPassword

/-! ## `resetPassword`

The row of the link is locked by the first statement and marked by the second to last, in one
transaction. Between the two the account is looked up, and its new password hashed and written. -/

namespace ResetPassword

inductive Pc where
  | start (dto : ResetPasswordDto)
  | findUser (dto : ResetPasswordDto) (record : PasswordResetToken)
  | setPassword (dto : ResetPasswordDto) (record : PasswordResetToken) (user : User)
  | markUsed (record : PasswordResetToken) (user : User) (passwordHash : String) (tx : Tx)
  /-- about to start the `UPDATE` that revokes every live refresh token of the user -/
  | revokeAll (record : PasswordResetToken) (user : User) (passwordHash : String) (tx : Tx)
  | sweep (record : PasswordResetToken) (user : User) (passwordHash : String)
      (todo : List Uuid) (tx : Tx)
  | done (record : PasswordResetToken) (user : User) (passwordHash : String)
  | failed (e : HttpException)

/-- `{ passwordHash }` -/
def withPassword (passwordHash : String) (now : Nat) (u : User) : User :=
  { u with passwordHash := passwordHash, updatedAt := now }

theorem rewritten_withPassword (passwordHash : String) (now : Nat) (u : User) :
    Rewritten u (withPassword passwordHash now u) := ⟨_, _, _, rfl, id⟩

def invalidToken : HttpException := .badRequest "Invalid or expired reset token"

def step (env : Env) (c : C) (db : Db C) (o : Choice) : Pc → Option (Db C × Pc)
  | .start dto =>
      (db.resetTokens.selectForUpdate c fun r => r.tokenHash = env.hashToken dto.token).map fun found =>
        match found.2 with
        | none        => (db, .failed invalidToken)
        | some record =>
            -- an exception inside the transaction rolls it back, and the row lock goes
            if record.usedAt.isSome || record.expiresAt < o.now then
              (db.rollback c, .failed invalidToken)
            else ({ db with resetTokens := found.1 }, .findUser dto record)
  | .findUser dto record =>
      match db.findUser {} record.userId with
      | some user =>
          if user.status = .active then some (db, .setPassword dto record user)
          else some (db.rollback c, .failed invalidToken)
      | none => some (db.rollback c, .failed invalidToken)
  | .setPassword dto record user =>
      (db.updateUser c {} user.id
        (withPassword (env.hashPassword o.salt dto.newPassword) o.now)).map fun r =>
        (r.1, .markUsed record user (env.hashPassword o.salt dto.newPassword) r.2)
  | .markUsed record user passwordHash tx =>
      -- one link is used up; the other links of the user are left as they are
      (db.updateResetToken c tx record.id (fun _ => true) (NestApp.markUsed o.now)).map fun r =>
        (r.1, .revokeAll record user passwordHash r.2)
  | .revokeAll record user passwordHash tx =>
      some (db, .sweep record user passwordHash (db.refreshTokens.table.select (liveOfUser user.id)) tx)
  | .sweep record user passwordHash todo tx =>
      -- only here do the password, the mark on the link and the revocations become visible
      if todo = [] then some (db.commit c tx, .done record user passwordHash)
      else if o.row ∈ todo then
        (db.updateRefreshToken c tx o.row (liveOfUser user.id) (revoke o.now)).map fun r =>
          (r.1, .sweep record user passwordHash (todo.erase o.row) r.2)
      else none
  | .done .. | .failed _ => none

/-- The token row is locked, unused and unchanged since it was read. -/
def Held (c : C) (db : Db C) (record : PasswordResetToken) : Prop :=
  db.resetTokens.Holds c record ∧ record.usedAt = none

/-- The buffer sets the password of `user` and nothing else on `users`. -/
def SetsPassword (c : C) (db : Db C) (tx : Tx) (user : User) (passwordHash : String) : Prop :=
  ∃ u now, u.id = user.id ∧ tx.StoresUser db c u (withPassword passwordHash now u)

/-- What the call knows at each point. -/
def Ok (c : C) (db : Db C) : Pc → Prop
  | .start .. | .done .. | .failed _ => True
  | .findUser _ record => Held c db record
  | .setPassword _ record user =>
      Held c db record ∧ user.id = record.userId ∧ (db.users.table.get user.id).isSome
  | .markUsed record user passwordHash tx =>
      Held c db record ∧ user.id = record.userId ∧ tx.Marks db c ∧
        SetsPassword c db tx user passwordHash ∧ tx.resetTokens = [] ∧ tx.refreshTokens = []
  | .revokeAll record user passwordHash tx =>
      Held c db record ∧ user.id = record.userId ∧ tx.Marks db c ∧
        SetsPassword c db tx user passwordHash ∧
        (∃ now, tx.resetTokens = [.put (NestApp.markUsed now record)]) ∧ tx.refreshTokens = []
  | .sweep record user passwordHash _ tx =>
      Held c db record ∧ user.id = record.userId ∧ tx.Marks db c ∧
        SetsPassword c db tx user passwordHash ∧
          ∃ now, tx.resetTokens = [.put (NestApp.markUsed now record)]

variable {env : Env} {c d : C} {db db' : Db C} {o : Choice} {pc pc' : Pc} {record : PasswordResetToken}
  {user : User} {passwordHash : String} {tx tx' : Tx}

omit [DecidableEq C] in
theorem Held.frame (h : Held c db record) (hf : Db.Frame d db db') (hd : c ≠ d) :
    Held c db' record := by
  obtain ⟨hh, hunused⟩ := h
  exact ⟨hh.frame hf.resetTokens hd, hunused⟩

omit [DecidableEq C] in
theorem Held.inTx (h : Held c db record) (hi : Db.InTx c db db') : Held c db' record := by
  obtain ⟨hh, hunused⟩ := h
  exact ⟨hi.holdsResetToken hh, hunused⟩

omit [DecidableEq C] in
theorem SetsPassword.frame (h : SetsPassword c db tx user passwordHash) (hf : Db.Frame d db db')
    (hd : c ≠ d) : SetsPassword c db' tx user passwordHash := by
  -- the buffered row is locked by `c`, so the step of `d` leaves it alone
  obtain ⟨u, now, hu, hs⟩ := h
  exact ⟨u, now, hu, hs.frame hf hd⟩

omit [DecidableEq C] in
theorem SetsPassword.inTx (h : SetsPassword c db tx user passwordHash) (hi : Db.InTx c db db')
    (htx : tx'.users = tx.users) : SetsPassword c db' tx' user passwordHash := by
  obtain ⟨u, now, hu, hs⟩ := h
  exact ⟨u, now, hu, hs.inTx hi htx⟩

omit [DecidableEq C] in
theorem Ok.frame (h : Ok c db pc) (hf : Db.Frame d db db') (hd : c ≠ d) : Ok c db' pc := by
  cases pc with
  | start | done | failed => trivial
  | findUser dto record => exact Held.frame h hf hd
  | setPassword dto record user =>
      obtain ⟨hr, hu, hrow⟩ := h
      exact ⟨hr.frame hf hd, hu, hf.userRows hrow⟩
  | markUsed record user passwordHash tx =>
      obtain ⟨hr, hu, hm, hp, htx⟩ := h
      exact ⟨hr.frame hf hd, hu, hm.frame hf hd, hp.frame hf hd, htx⟩
  | revokeAll record user passwordHash tx =>
      obtain ⟨hr, hu, hm, hp, htx⟩ := h
      exact ⟨hr.frame hf hd, hu, hm.frame hf hd, hp.frame hf hd, htx⟩
  | sweep record user passwordHash todo tx =>
      obtain ⟨hr, hu, hm, hp, htx⟩ := h
      exact ⟨hr.frame hf hd, hu, hm.frame hf hd, hp.frame hf hd, htx⟩

/-- **What a step can do**: run a statement inside the transaction, roll back, or commit. -/
theorem step_cases (hs : step env c db o pc = some (db', pc')) (hok : Ok c db pc) :
    (Db.InTx c db db' ∧ Ok c db' pc' ∧ ∀ r u h, pc' ≠ .done r u h) ∨
      (db' = db.rollback c ∧ pc' = .failed invalidToken) ∨
      ∃ record user passwordHash tx, pc = .sweep record user passwordHash [] tx ∧
        pc' = .done record user passwordHash ∧ db' = db.commit c tx := by
  cases pc with
  | start dto =>
      obtain ⟨⟨st, found⟩, hsel, hres⟩ := Option.map_eq_some_iff.mp hs
      cases found with
      | none => cases hres; exact .inl ⟨.refl, trivial, by simp⟩
      | some record =>
          simp only at hres
          split at hres
          · cases hres; exact .inr (.inl ⟨rfl, rfl⟩)
          · next hfresh =>
            cases hres
            simp only [Bool.or_eq_true, not_or, Bool.not_eq_true, Option.isSome_eq_false_iff,
              Option.isNone_iff_eq_none] at hfresh
            -- the row found is the locked one, and it was not used
            obtain ⟨hf, ht, ho⟩ := Store.selectForUpdate_frame hsel
            rcases Store.selectForUpdate_cases hsel with ⟨hn, -⟩ | ⟨r, hr, -, -, -, hh⟩
            · cases hn
            · cases hr
              exact .inl ⟨⟨⟨.refl, .refl, hf, id, id⟩, rfl, rfl, ht, id, id, ho⟩, ⟨hh, hfresh.1⟩, by
                simp⟩
  | findUser dto record =>
      simp only [step] at hs
      split at hs
      · next user hfind =>
        split at hs
        · cases hs
          -- the user found is the owner of the link
          have hid := Db.findUser_id hfind
          exact .inl ⟨.refl, ⟨hok, hid, hid ▸ Db.findUser_isSome hfind⟩, by simp⟩
        · cases hs; exact .inr (.inl ⟨rfl, rfl⟩)
      · cases hs; exact .inr (.inl ⟨rfl, rfl⟩)
  | setPassword dto record user =>
      obtain ⟨hr, hu, hrow⟩ := hok
      obtain ⟨⟨db₁, tx₁⟩, hupd, hres⟩ := Option.map_eq_some_iff.mp hs
      cases hres
      have hi := Db.updateUser_inTx hupd
      have hm := Tx.Marks.empty.updateUser (rewritten_withPassword _ _) hupd
      obtain ⟨u, hh, hid, rfl⟩ := Db.updateUser_stores hupd hrow
      exact .inl ⟨hi, ⟨hr.inTx hi, hu, hm, ⟨u, o.now, hid, hh, rfl⟩, rfl, rfl⟩, by simp⟩
  | markUsed record user passwordHash tx =>
      obtain ⟨hr, hu, hm, hp, htx, htx'⟩ := hok
      obtain ⟨⟨db₁, tx₁⟩, hupd, hres⟩ := Option.map_eq_some_iff.mp hs
      cases hres
      have hi := Db.updateResetToken_inTx hupd
      obtain ⟨husers, hrefresh⟩ := Db.updateResetToken_others hupd
      -- the buffer had no link, so it now holds the used version of this one
      have hput : tx₁.resetTokens = [.put (NestApp.markUsed o.now record)] := by
        rw [Db.updateResetToken_put hupd (by rw [htx]; exact hr.1.1) rfl, htx]
      exact .inl ⟨hi, ⟨hr.inTx hi, hu, hm.markUsed hupd, hp.inTx hi husers, ⟨o.now, hput⟩,
        hrefresh.trans htx'⟩, by simp⟩
  | revokeAll record user passwordHash tx =>
      cases hs
      obtain ⟨hr, hu, hm, hp, htx, -⟩ := hok
      exact .inl ⟨.refl, ⟨hr, hu, hm, hp, htx⟩, by simp⟩
  | sweep record user passwordHash todo tx =>
      obtain ⟨hr, hu, hm, hp, now, htx⟩ := hok
      simp only [step] at hs
      split at hs
      · next htodo =>
        subst htodo
        cases hs
        exact .inr (.inr ⟨record, user, passwordHash, tx, rfl, rfl, rfl⟩)
      · split at hs
        · obtain ⟨⟨db₁, tx₁⟩, hupd, hres⟩ := Option.map_eq_some_iff.mp hs
          cases hres
          have hi := Db.updateRefreshToken_inTx hupd
          obtain ⟨husers, hreset⟩ := Db.updateRefreshToken_others hupd
          exact .inl ⟨hi, ⟨hr.inTx hi, hu, hm.revoke hupd, hp.inTx hi husers, now, hreset.trans htx⟩, by
            simp⟩
        · cases hs
  | done | failed => cases hs

/-- **Own step** of a reset: its buffer holds versions of the rows it has locked, and the commit
    publishes them at once. -/
theorem step_ok (hs : step env c db o pc = some (db', pc')) (hok : Ok c db pc) :
    Ok c db' pc' ∧ Db.Frame c db db' := by
  rcases step_cases hs hok with ⟨hi, hok', -⟩ | ⟨rfl, rfl⟩ | ⟨record, user, hash, tx, rfl, rfl, rfl⟩
  · exact ⟨hok', hi.frame⟩
  · exact ⟨trivial, Db.frame_rollback⟩
  · exact ⟨trivial, hok.2.2.1.frame_commit⟩

theorem step_versions (hs : step env c db o pc = some (db', pc')) (hok : Ok c db pc) :
    Db.Versions db db' := by
  rcases step_cases hs hok with ⟨hi, -, -⟩ | ⟨rfl, -⟩ | ⟨record, user, hash, tx, rfl, -, rfl⟩
  · exact hi.versions
  · exact Db.versions_rollback
  · exact hok.2.2.1.versions

end ResetPassword

end NestApp
