import NestApp.Auth.Database

/-!
# `Auth.Session` — `AuthService.login`, `register`, `createSession` and `logout`

The operations that open a session, and the one that closes it. None of them runs in a transaction with
locks kept between two statements: `login` reads the user, verifies the password and inserts the first
token of a new family in separate steps; `logout` reads the token and revokes it in separate steps. The
transaction of `register` inserts a user (its `user_roles` row is in no table of this database) and is
one step.

Between the steps of `login` the account may change: the password that was verified may be replaced,
and the account be deactivated or deleted, before the token of the new session is inserted. Nothing in
the code looks again, and the modules on forced logins and provenance say what follows from that.
-/

namespace NestApp

open Sql

variable {C : Type} [DecidableEq C]

namespace Session

inductive Pc where
  | login (dto : LoginDto) (metadata : SessionMetadata)
  | register (dto : RegisterDto) (metadata : SessionMetadata)
  | createUser (dto : RegisterDto) (metadata : SessionMetadata)
  | createSession (user : User) (metadata : SessionMetadata)
  | done (user : User) (refreshToken : RefreshToken)
  | failed (e : HttpException)

/-- The user `register` inserts. -/
def newUser (env : Env) (o : Choice) (dto : RegisterDto) : User where
  id              := o.id
  email           := normalizeEmail env dto.email
  passwordHash    := env.hashPassword o.salt dto.password
  firstName       := trimOrNull dto.firstName
  lastName        := trimOrNull dto.lastName
  status          := .active
  emailVerifiedAt := none
  createdAt       := o.now
  updatedAt       := o.now
  deletedAt       := none

/-- The token `createSession` inserts: the first of a new family. Its expiry is counted from the time at
    which it is made. -/
def newToken (env : Env) (o : Choice) (user : User) (metadata : SessionMetadata) : RefreshToken where
  id                := o.id
  tokenHash         := env.hashToken o.token
  userId            := user.id
  familyId          := o.familyId
  expiresAt         := o.now + env.refreshExpiresInMs
  revokedAt         := none
  replacedByTokenId := none
  ipAddress         := metadata.ipAddress
  userAgent         := metadata.userAgent
  usedAt            := none
  createdAt         := o.now

def step (env : Env) (c : C) (db : Db C) (o : Choice) : Pc → Option (Db C × Pc)
  | .login dto metadata =>
      match db.findByEmail env (normalizeEmail env dto.email) with
      | none => some (db, .failed (.unauthorized "Invalid credentials"))
      | some user =>
          if env.verifyPassword user.passwordHash dto.password = false then
            some (db, .failed (.unauthorized "Invalid credentials"))
          else if user.status ≠ .active then some (db, .failed (.unauthorized "Account is not active"))
          else some (db, .createSession user metadata)
  | .register dto metadata =>
      if (db.findByEmail env (normalizeEmail env dto.email)).isSome then
        some (db, .failed (.conflict "Email is already registered"))
      else some (db, .createUser dto metadata)
  | .createUser dto metadata =>
      -- the partial unique index on `email` raises 23505, which is answered with 409
      if (db.findByEmail env (newUser env o dto).email).isSome then
        some (db, .failed (.conflict "Email is already registered"))
      else
        (db.users.insert c [] (newUser env o dto)).map fun r =>
          ({ db with users := r.1.commit c r.2 }, .createSession (newUser env o dto) metadata)
  | .createSession user metadata =>
      -- `randomUUID()` is fresh
      if ∀ r ∈ db.refreshTokens.table.rows, r.familyId ≠ o.familyId then
        (db.insertRefreshToken c {} (newToken env o user metadata)).map fun r =>
          (r.1.commit c r.2, .done user (newToken env o user metadata))
      else none
  | .done .. | .failed _ => none

variable {env : Env} {c : C} {db db' : Db C} {o : Choice} {pc pc' : Pc}

/-- **What a step can do**: nothing to the database, insert a user, or open a session. -/
theorem step_cases (hs : step env c db o pc = some (db', pc')) :
    (db' = db ∧ ∀ user row, pc' ≠ .done user row) ∨
      (∃ dto metadata, pc = .createUser dto metadata ∧
        pc' = .createSession (newUser env o dto) metadata ∧
        db.users.table.get o.id = none ∧ db.users.owner o.id = none ∧
        db' = { db with users := (db.users.lock c o.id).commit c [.put (newUser env o dto)] }) ∨
      ∃ user metadata db₁, pc = .createSession user metadata ∧
        pc' = .done user (newToken env o user metadata) ∧
        (∀ r ∈ db.refreshTokens.table.rows, r.familyId ≠ o.familyId) ∧
        db.insertRefreshToken c {} (newToken env o user metadata)
          = some (db₁, { refreshTokens := [.put (newToken env o user metadata)] }) ∧
        db' = db₁.commit c { refreshTokens := [.put (newToken env o user metadata)] } := by
  cases pc with
  | login dto metadata =>
      refine .inl ?_
      simp only [step] at hs
      split at hs
      · cases hs; simp
      · split at hs
        · cases hs; simp
        · split at hs <;> (cases hs; simp)
  | register dto metadata =>
      refine .inl ?_
      simp only [step] at hs
      split at hs <;> (cases hs; simp)
  | createUser dto metadata =>
      simp only [step] at hs
      split at hs
      · cases hs; exact .inl ⟨rfl, by simp⟩
      · obtain ⟨⟨st, ws⟩, hins, hres⟩ := Option.map_eq_some_iff.mp hs
        obtain ⟨hnew, hfree, rfl, rfl⟩ := Store.insert_cases hins
        cases hres
        exact .inr (.inl ⟨dto, metadata, rfl, rfl, hnew, hfree, rfl⟩)
  | createSession user metadata =>
      simp only [step] at hs
      split at hs
      · next hfam =>
        obtain ⟨⟨db₁, tx⟩, hins, hres⟩ := Option.map_eq_some_iff.mp hs
        obtain ⟨-, -, -, -, rfl⟩ := Db.insertRefreshToken_cases hins
        cases hres
        exact .inr (.inr ⟨user, metadata, db₁, rfl, rfl, hfam, hins, rfl⟩)
      · cases hs
  | done | failed => cases hs

theorem step_frame (hs : step env c db o pc = some (db', pc')) : Db.Frame c db db' := by
  rcases step_cases hs with ⟨rfl, -⟩ | ⟨dto, metadata, -, -, -, hfree, rfl⟩ |
    ⟨user, metadata, db₁, -, -, -, hins, rfl⟩
  · exact .refl
  -- one statement in autocommit mode: lock, store and release
  · refine ⟨(Store.frame_lock (.inl hfree)).trans (Store.frame_commit ?_), .refl, .refl,
      id, fun hk => ?_⟩
    · exact .cons Store.lock_owner_self .nil
    · rw [Store.commit_table, Table.get_view_put]
      split
      · rfl
      · exact hk
  · obtain ⟨-, -, hlock, -, -⟩ := Db.insertRefreshToken_cases hins
    exact (Db.insertRefreshToken_inTx hins).frame.trans
      (Db.frame_commit ⟨.nil, .cons hlock .nil, .nil⟩ rfl)

/-- The table after a session was opened: one new row, at the end. -/
theorem opened_tokens {row : RefreshToken} {db₁ : Db C} {tx : Tx}
    (h : db.insertRefreshToken c {} row = some (db₁, tx)) :
    (db₁.commit c { refreshTokens := [.put row] }).refreshTokens.table =
      db.refreshTokens.table.put row := by
  simp [Db.commit, Table.view_cons, Table.write, (Db.insertRefreshToken_inTx h).refreshTokensTable]

/-- **What a step commits.** Nothing on the tokens, or the first token of a family that had none. -/
theorem step_tokens (hs : step env c db o pc = some (db', pc')) :
    (db'.refreshTokens.table = db.refreshTokens.table ∧ ∀ user row, pc' ≠ .done user row) ∨
      ∃ user metadata row, pc = .createSession user metadata ∧ pc' = .done user row ∧
        row = newToken env o user metadata ∧
        (∀ r ∈ db.refreshTokens.table.rows, r.familyId ≠ row.familyId) ∧
        db.refreshTokens.table.get row.id = none ∧ db.hashIndex row.tokenHash = none ∧
        db'.refreshTokens.table = db.refreshTokens.table.put row ∧
        db'.hashIndex row.tokenHash = some row.id := by
  rcases step_cases hs with ⟨rfl, hpc'⟩ | ⟨dto, metadata, -, rfl, -, -, rfl⟩ |
    ⟨user, metadata, db₁, rfl, rfl, hfam, hins, rfl⟩
  · exact .inl ⟨rfl, hpc'⟩
  · exact .inl ⟨rfl, by simp⟩
  · obtain ⟨hnew, hidx, -, hidx', -⟩ := Db.insertRefreshToken_cases hins
    exact .inr ⟨user, metadata, _, rfl, rfl, rfl, hfam, hnew, hidx, opened_tokens hins, hidx'⟩

/-- The users in place are kept as they are; no reset token is touched. -/
theorem step_others (hs : step env c db o pc = some (db', pc')) :
    (∀ k u, db.users.table.get k = some u → db'.users.table.get k = some u) ∧
      db'.resetTokens.table = db.resetTokens.table := by
  rcases step_cases hs with ⟨rfl, -⟩ | ⟨dto, metadata, -, -, hnew, -, rfl⟩ |
    ⟨user, metadata, db₁, -, -, -, hins, rfl⟩
  · exact ⟨fun _ _ hu => hu, rfl⟩
  · refine ⟨fun k u hu => ?_, rfl⟩
    -- the id of the new user was free
    have hne : k ≠ o.id := Table.ne_of_get_none hu hnew
    have hold : (db.users.table.put (newUser env o dto)).get k = some u := by
      rw [Table.get_put_of_ne _ _ hne, hu]
    exact hold
  · have hi := Db.insertRefreshToken_inTx hins
    simp [Db.commit, hi.usersTable, hi.resetTokensTable]

end Session

namespace Logout

inductive Pc where
  | start (presentedToken : Option String)
  | revoke (id : Uuid)
  | done

def step (env : Env) (c : C) (db : Db C) (o : Choice) : Pc → Option (Db C × Pc)
  | .start none | .start (some "") => some (db, .done)
  | .start (some token) =>
      match db.refreshTokens.table.find? fun r => r.tokenHash = env.hashToken token with
      | none => some (db, .done)
      | some stored => if stored.revokedAt.isSome then some (db, .done) else some (db, .revoke stored.id)
  | .revoke id =>
      (db.updateRefreshToken c {} id (fun _ => true) (NestApp.revoke o.now)).map fun r =>
        (r.1.commit c r.2, .done)
  | .done => none

variable {env : Env} {c : C} {db db' : Db C} {o : Choice} {pc pc' : Pc}

/-- `logout` only revokes tokens, at most the presented one. -/
theorem step_versions (hs : step env c db o pc = some (db', pc')) :
    Db.Frame c db db' ∧ db'.users.table = db.users.table ∧ Db.Versions db db' := by
  have hrefl : Db.Frame c db db ∧ db.users.table = db.users.table ∧ Db.Versions db db :=
    ⟨.refl, rfl, .refl⟩
  cases pc with
  | start presented =>
      rcases presented with _ | token
      · cases hs; exact hrefl
      · by_cases ht : token = ""
        · subst ht; cases hs; exact hrefl
        · simp only [step] at hs
          split at hs
          · cases hs; exact hrefl
          · split at hs <;> (cases hs; exact hrefl)
  | revoke id =>
      obtain ⟨⟨db₁, tx⟩, hupd, hres⟩ := Option.map_eq_some_iff.mp hs
      cases hres
      have hi := Db.updateRefreshToken_inTx hupd
      have hm : Tx.Marks db₁ c tx := Tx.Marks.empty.revoke hupd
      refine ⟨hi.frame.trans hm.frame_commit, ?_, hi.versions_trans hm.versions⟩
      simp [Db.commit, (Db.updateRefreshToken_others hupd).1, hi.usersTable]
  | done => cases hs

end Logout

end NestApp
