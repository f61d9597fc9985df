import NestApp.Lib.Pool
import NestApp.Lib.ReadCommitted
import NestApp.Schema

/-!
# `Auth.Database` — the tables the account operations share

The shared state of the account operations: the tables `users`, `refresh_tokens` and
`password_reset_tokens`, each with its row locks, and the unique index on `refresh_tokens.token_hash`.
A transaction buffers its writes in a `Tx`. `Choice` collects everything an operation does not decide
itself: the clock, generated values, and the order in which an `UPDATE` reaches its rows.

Two features of the schema matter for the interleavings. A hash that was inserted is not inserted
again, also while the insertion is not committed: the unique index makes the second one wait or fail.
(Here a hash stays in the index even after a rollback, as no generated token comes twice.) And no
statement of these operations removes a row of `users`, so what a call has found is found again,
perhaps marked as deleted.
-/

namespace NestApp

open Sql

/-- What the environment decides at one step: the time, the values that are generated, and the order in
    which an `UPDATE` visits its rows. Nothing is assumed about them unless a theorem says so. -/
structure Choice where
  /-- `Date.now()` -/
  now      : Nat
  /-- the id the database generates for an inserted row -/
  id       : Uuid
  /-- `randomUUID()` -/
  familyId : Uuid
  /-- `randomBytes(32).toString('hex')` -/
  token    : String
  /-- the salt of `argon2.hash` -/
  salt     : String
  /-- the row an `UPDATE` visits next -/
  row      : Uuid

/-- One action of a call: run its next statement, or stop with an error of the infrastructure (a lost
    connection, a deadlock, a crash), which rolls its transaction back. -/
inductive Act where
  | run (o : Choice)
  | abort

variable {C : Type}

/-- The database, with the locks of the transactions in flight. Each table is a store of its own; a
    commit publishes the buffers of all three in one step. -/
structure Db (C : Type) where
  users         : Store User C
  refreshTokens : Store RefreshToken C
  resetTokens   : Store PasswordResetToken C
  /-- the unique index on `token_hash`: the row each hash was generated for -/
  hashIndex     : String → Option Uuid

/-- The uncommitted writes of a transaction, table by table. The transaction reads the committed rows
    through them. -/
structure Tx where
  users         : List (Write User Uuid) := []
  refreshTokens : List (Write RefreshToken Uuid) := []
  resetTokens   : List (Write PasswordResetToken Uuid) := []

namespace Db

/-- `findOne(User, { where: { id } })` in transaction `tx`: soft-deleted rows are left out. -/
def findUser (db : Db C) (tx : Tx) (id : Uuid) : Option User :=
  ((db.users.table.view tx.users).get id).filter fun u => u.deletedAt.isNone

/-- `usersService.findByEmail`: `email` is a `citext` column. -/
def findByEmail (db : Db C) (env : Env) (email : String) : Option User :=
  db.users.table.find? fun u => env.citextLower u.email = env.citextLower email && u.deletedAt.isNone

variable [DecidableEq C]

/-- `COMMIT` of transaction `c`. -/
def commit (db : Db C) (c : C) (tx : Tx) : Db C :=
  { db with
    users         := db.users.commit c tx.users
    refreshTokens := db.refreshTokens.commit c tx.refreshTokens
    resetTokens   := db.resetTokens.commit c tx.resetTokens }

/-- `ROLLBACK` of transaction `c`. -/
def rollback (db : Db C) (c : C) : Db C :=
  { db with
    users         := db.users.release c
    refreshTokens := db.refreshTokens.release c
    resetTokens   := db.resetTokens.release c }

/-- `INSERT INTO refresh_tokens`: the hash must not have been used before. -/
def insertRefreshToken (db : Db C) (c : C) (tx : Tx) (row : RefreshToken) : Option (Db C × Tx) :=
  if db.hashIndex row.tokenHash = none then
    (db.refreshTokens.insert c tx.refreshTokens row).map fun r =>
      ({ db with
          refreshTokens := r.1
          hashIndex     := Function.update db.hashIndex row.tokenHash (some row.id) },
        { tx with refreshTokens := r.2 })
  else none

/-- One row of an `UPDATE` on `users`. -/
def updateUser (db : Db C) (c : C) (tx : Tx) (id : Uuid) (f : User → User) : Option (Db C × Tx) :=
  (db.users.visit c tx.users id (fun _ => true) f).map fun r =>
    ({ db with users := r.1 }, { tx with users := r.2 })

/-- One row of an `UPDATE` on `refresh_tokens`. -/
def updateRefreshToken (db : Db C) (c : C) (tx : Tx) (id : Uuid) (p : RefreshToken → Bool)
    (f : RefreshToken → RefreshToken) : Option (Db C × Tx) :=
  (db.refreshTokens.visit c tx.refreshTokens id p f).map fun r =>
    ({ db with refreshTokens := r.1 }, { tx with refreshTokens := r.2 })

/-- One row of an `UPDATE` on `password_reset_tokens`. -/
def updateResetToken (db : Db C) (c : C) (tx : Tx) (id : Uuid) (p : PasswordResetToken → Bool)
    (f : PasswordResetToken → PasswordResetToken) : Option (Db C × Tx) :=
  (db.resetTokens.visit c tx.resetTokens id p f).map fun r =>
    ({ db with resetTokens := r.1 }, { tx with resetTokens := r.2 })

end Db

/-! ## The rows the statements select and the versions they store

The `where` objects and the `set` objects of `auth.service.ts`, under the names of what they do. Each
new version keeps the key of the row, which `Table.update` asks for. -/

/-- `{ familyId, revokedAt: IsNull() }` -/
def liveInFamily (familyId : Uuid) (r : RefreshToken) : Bool :=
  r.familyId = familyId && r.revokedAt.isNone

/-- `{ userId, revokedAt: IsNull() }` -/
def liveOfUser (userId : Uuid) (r : RefreshToken) : Bool := r.userId = userId && r.revokedAt.isNone

/-- `{ userId, usedAt: IsNull() }` -/
def unusedOfUser (userId : Uuid) (r : PasswordResetToken) : Bool := r.userId = userId && r.usedAt.isNone

/-- `{ revokedAt: new Date() }` -/
def revoke (now : Nat) (r : RefreshToken) : RefreshToken := { r with revokedAt := some now }

/-- `{ usedAt: new Date() }` -/
def markUsed (now : Nat) (r : PasswordResetToken) : PasswordResetToken := { r with usedAt := some now }

/-- `{ usedAt: new Date(), revokedAt: new Date(), replacedByTokenId: nextToken.id }` -/
def rotate (now : Nat) (next : Uuid) (r : RefreshToken) : RefreshToken :=
  { r with usedAt := some now, revokedAt := some now, replacedByTokenId := some next }

/-- The newer version of a refresh token differs at most in `revokedAt`, and does not clear it. -/
def Revoked (r r' : RefreshToken) : Prop :=
  ∃ ts, r' = { r with revokedAt := ts } ∧ (r.revokedAt.isSome → ts.isSome)

/-- The newer version of a reset token differs at most in `usedAt`, and does not clear it. -/
def Used (r r' : PasswordResetToken) : Prop :=
  ∃ ts, r' = { r with usedAt := ts } ∧ (r.usedAt.isSome → ts.isSome)

theorem Revoked.refl (r : RefreshToken) : Revoked r r := ⟨r.revokedAt, rfl, id⟩

theorem Revoked.trans {r r' r'' : RefreshToken} (h : Revoked r r') (h' : Revoked r' r'') :
    Revoked r r'' := by
  obtain ⟨ts, rfl, hts⟩ := h
  obtain ⟨ts', rfl, hts'⟩ := h'
  exact ⟨ts', rfl, fun hr => hts' (hts hr)⟩

theorem revoked_revoke (now : Nat) (r : RefreshToken) : Revoked r (revoke now r) :=
  ⟨some now, rfl, fun _ => rfl⟩

theorem Used.refl (r : PasswordResetToken) : Used r r := ⟨r.usedAt, rfl, id⟩

theorem Used.trans {r r' r'' : PasswordResetToken} (h : Used r r') (h' : Used r' r'') : Used r r'' := by
  obtain ⟨ts, rfl, hts⟩ := h
  obtain ⟨ts', rfl, hts'⟩ := h'
  exact ⟨ts', rfl, fun hr => hts' (hts hr)⟩

theorem used_markUsed (now : Nat) (r : PasswordResetToken) : Used r (markUsed now r) :=
  ⟨some now, rfl, fun _ => rfl⟩

@[simp] theorem liveInFamily_revoke (f : Uuid) (now : Nat) (r : RefreshToken) :
    liveInFamily f (revoke now r) = false := by simp [liveInFamily, revoke]

@[simp] theorem liveOfUser_revoke (u : Uuid) (now : Nat) (r : RefreshToken) :
    liveOfUser u (revoke now r) = false := by simp [liveOfUser, revoke]

@[simp] theorem unusedOfUser_markUsed (u : Uuid) (now : Nat) (r : PasswordResetToken) :
    unusedOfUser u (markUsed now r) = false := by simp [unusedOfUser, markUsed]

/-! ## Frames

What a call may rely on between two of its statements. The tables are framed row by row, by the locks;
the set of hashes only grows. -/

/-- What a step of `c` leaves alone: the rows locked by other calls, and the hashes already generated.
    No user row is ever removed (`softDelete` only marks it). -/
structure Db.Frame (c : C) (db db' : Db C) : Prop where
  users         : db.users.Frame c db'.users
  refreshTokens : db.refreshTokens.Frame c db'.refreshTokens
  resetTokens   : db.resetTokens.Frame c db'.resetTokens
  hashIndex     : ∀ {h id}, db.hashIndex h = some id → db'.hashIndex h = some id
  userRows      : ∀ {k}, (db.users.table.get k).isSome → (db'.users.table.get k).isSome

/-- Every buffered write is backed by a lock. So no other transaction has written the row meanwhile, and
    the commit overwrites nothing. -/
structure Tx.Owned (db : Db C) (c : C) (tx : Tx) : Prop where
  users         : db.users.Owned c tx.users
  refreshTokens : db.refreshTokens.Owned c tx.refreshTokens
  resetTokens   : db.resetTokens.Owned c tx.resetTokens

variable {c d : C} {db db' : Db C} {tx tx' : Tx}

theorem Db.Frame.refl : Db.Frame c db db := ⟨.refl, .refl, .refl, id, id⟩

theorem Db.Frame.trans {db'' : Db C} (h : Db.Frame c db db') (h' : Db.Frame c db' db'') :
    Db.Frame c db db'' where
  users         := h.users.trans h'.users
  refreshTokens := h.refreshTokens.trans h'.refreshTokens
  resetTokens   := h.resetTokens.trans h'.resetTokens
  hashIndex hi  := h'.hashIndex (h.hashIndex hi)
  userRows hk   := h'.userRows (h.userRows hk)

theorem Tx.Owned.empty : Tx.Owned db c {} := ⟨.nil, .nil, .nil⟩

theorem Tx.Owned.frame (h : Tx.Owned db c tx) (hf : Db.Frame d db db') (hd : c ≠ d) :
    Tx.Owned db' c tx where
  users         := h.users.frame hf.users hd
  refreshTokens := h.refreshTokens.frame hf.refreshTokens hd
  resetTokens   := h.resetTokens.frame hf.resetTokens hd

variable [DecidableEq C]

theorem Db.frame_rollback : Db.Frame c db (db.rollback c) where
  users         := Store.frame_release
  refreshTokens := Store.frame_release
  resetTokens   := Store.frame_release
  hashIndex hi  := hi
  userRows hk   := hk

/-- The commit of a buffer without writes on `users`. -/
theorem Db.frame_commit (h : Tx.Owned db c tx) (hu : tx.users = []) :
    Db.Frame c db (db.commit c tx) where
  users         := Store.frame_commit h.users
  refreshTokens := Store.frame_commit h.refreshTokens
  resetTokens   := Store.frame_commit h.resetTokens
  hashIndex hi  := hi
  userRows hk   := by simpa [Db.commit, hu] using hk

/-! ## Statements inside a transaction

Nothing is published before the commit: a statement takes locks and fills the buffer. -/

/-- What a statement of transaction `c` does to the database: no table changes, no lock of `c` is lost.
    Its writes are in the buffer, and reach the table with the commit. -/
structure Db.InTx (c : C) (db db' : Db C) : Prop where
  frame              : Db.Frame c db db'
  usersTable         : db'.users.table = db.users.table
  refreshTokensTable : db'.refreshTokens.table = db.refreshTokens.table
  resetTokensTable   : db'.resetTokens.table = db.resetTokens.table
  userLock           : ∀ {k}, db.users.owner k = some c → db'.users.owner k = some c
  refreshTokenLock   : ∀ {k}, db.refreshTokens.owner k = some c → db'.refreshTokens.owner k = some c
  resetTokenLock     : ∀ {k}, db.resetTokens.owner k = some c → db'.resetTokens.owner k = some c

omit [DecidableEq C] in
theorem Db.InTx.refl : Db.InTx c db db := ⟨.refl, rfl, rfl, rfl, id, id, id⟩

omit [DecidableEq C] in
theorem Db.InTx.holdsUser {u : User} (h : Db.InTx c db db') (hu : db.users.Holds c u) :
    db'.users.Holds c u := by
  refine ⟨?_, h.userLock hu.2⟩
  rw [h.usersTable]
  exact hu.1

omit [DecidableEq C] in
theorem Db.InTx.holdsRefreshToken {r : RefreshToken} (h : Db.InTx c db db')
    (hr : db.refreshTokens.Holds c r) : db'.refreshTokens.Holds c r := by
  refine ⟨?_, h.refreshTokenLock hr.2⟩
  rw [h.refreshTokensTable]
  exact hr.1

omit [DecidableEq C] in
theorem Db.InTx.holdsResetToken {r : PasswordResetToken} (h : Db.InTx c db db')
    (hr : db.resetTokens.Holds c r) : db'.resetTokens.Holds c r := by
  refine ⟨?_, h.resetTokenLock hr.2⟩
  rw [h.resetTokensTable]
  exact hr.1

omit [DecidableEq C] in
theorem Tx.Owned.inTx (h : Tx.Owned db c tx) (hi : Db.InTx c db db') : Tx.Owned db' c tx where
  users w hw         := hi.userLock (h.users w hw)
  refreshTokens w hw := hi.refreshTokenLock (h.refreshTokens w hw)
  resetTokens w hw   := hi.resetTokenLock (h.resetTokens w hw)

theorem Db.updateUser_inTx {k : Uuid} {f : User → User}
    (h : db.updateUser c tx k f = some (db', tx')) : Db.InTx c db db' := by
  simp only [Db.updateUser, Option.map_eq_some_iff, Prod.mk.injEq] at h
  obtain ⟨⟨st, ws⟩, hv, rfl, rfl⟩ := h
  have ht : st.table = db.users.table := Store.visit_table hv
  have hframe : Db.Frame c db { db with users := st } :=
    ⟨Store.visit_frame hv, .refl, .refl, id, by simp [ht]⟩
  exact ⟨hframe, ht, rfl, rfl, Store.visit_owner hv, id, id⟩

theorem Db.updateRefreshToken_inTx {k : Uuid} {p : RefreshToken → Bool}
    {f : RefreshToken → RefreshToken} (h : db.updateRefreshToken c tx k p f = some (db', tx')) :
    Db.InTx c db db' := by
  simp only [Db.updateRefreshToken, Option.map_eq_some_iff, Prod.mk.injEq] at h
  obtain ⟨⟨st, ws⟩, hv, rfl, rfl⟩ := h
  have hframe : Db.Frame c db { db with refreshTokens := st } :=
    ⟨.refl, Store.visit_frame hv, .refl, id, id⟩
  exact ⟨hframe, rfl, Store.visit_table hv, rfl, id, Store.visit_owner hv, id⟩

theorem Db.updateResetToken_inTx {k : Uuid} {p : PasswordResetToken → Bool}
    {f : PasswordResetToken → PasswordResetToken}
    (h : db.updateResetToken c tx k p f = some (db', tx')) : Db.InTx c db db' := by
  simp only [Db.updateResetToken, Option.map_eq_some_iff, Prod.mk.injEq] at h
  obtain ⟨⟨st, ws⟩, hv, rfl, rfl⟩ := h
  have hframe : Db.Frame c db { db with resetTokens := st } :=
    ⟨.refl, .refl, Store.visit_frame hv, id, id⟩
  exact ⟨hframe, rfl, rfl, Store.visit_table hv, id, id, Store.visit_owner hv⟩

theorem Db.updateRefreshToken_others {k : Uuid} {p : RefreshToken → Bool}
    {f : RefreshToken → RefreshToken} (h : db.updateRefreshToken c tx k p f = some (db', tx')) :
    tx'.users = tx.users ∧ tx'.resetTokens = tx.resetTokens := by
  simp only [Db.updateRefreshToken, Option.map_eq_some_iff, Prod.mk.injEq] at h
  obtain ⟨-, -, -, rfl⟩ := h
  exact ⟨rfl, rfl⟩

theorem Db.updateResetToken_others {k : Uuid} {p : PasswordResetToken → Bool}
    {f : PasswordResetToken → PasswordResetToken}
    (h : db.updateResetToken c tx k p f = some (db', tx')) :
    tx'.users = tx.users ∧ tx'.refreshTokens = tx.refreshTokens := by
  simp only [Db.updateResetToken, Option.map_eq_some_iff, Prod.mk.injEq] at h
  obtain ⟨-, -, -, rfl⟩ := h
  exact ⟨rfl, rfl⟩

/-- The `UPDATE` of a user by id, as the first write of its transaction: it locks the row and stores one
    version of it. -/
theorem Db.updateUser_stores {k : Uuid} {f : User → User}
    (h : db.updateUser c {} k f = some (db', tx')) (hrow : (db.users.table.get k).isSome) :
    ∃ u, db'.users.Holds c u ∧ u.id = k ∧ tx' = { users := [.put (f u)] } := by
  simp only [Db.updateUser, Option.map_eq_some_iff, Prod.mk.injEq] at h
  obtain ⟨⟨st, ws⟩, hv, rfl, rfl⟩ := h
  obtain ⟨u, hu⟩ := Option.isSome_iff_exists.mp hrow
  have hk : u.id = k := Table.get_key hu
  -- the row is there, so the statement cannot have skipped it
  obtain ⟨-, ⟨x, hx, -, rfl, rfl⟩ | ⟨hno, -, -⟩⟩ := Store.visit_cases hv
  · rw [Table.view_nil, hu] at hx
    obtain rfl := Option.some.inj hx
    exact ⟨u, ⟨(congrArg _ hk).trans hu, (congrArg _ hk).trans Store.lock_owner_self⟩, hk, rfl⟩
  · exact absurd (hno u hu) (by simp)

/-- The `UPDATE` of a row by its id stores a version of the row in view. -/
theorem Db.updateRefreshToken_put {k : Uuid} {p : RefreshToken → Bool} {f : RefreshToken → RefreshToken}
    {r : RefreshToken} (h : db.updateRefreshToken c tx k p f = some (db', tx'))
    (hr : (db.refreshTokens.table.view tx.refreshTokens).get k = some r) (hp : p r = true) :
    tx' = { tx with refreshTokens := .put (f r) :: tx.refreshTokens } := by
  simp only [Db.updateRefreshToken, Option.map_eq_some_iff, Prod.mk.injEq] at h
  obtain ⟨⟨st, ws⟩, hv, -, rfl⟩ := h
  obtain ⟨-, ⟨x, hx, -, -, rfl⟩ | ⟨hno, -, -⟩⟩ := Store.visit_cases hv
  · rw [Option.some.inj (hr.symm.trans hx)]
  · rw [hno r hr] at hp
    cases hp

theorem Db.updateResetToken_put {k : Uuid} {p : PasswordResetToken → Bool}
    {f : PasswordResetToken → PasswordResetToken} {r : PasswordResetToken}
    (h : db.updateResetToken c tx k p f = some (db', tx'))
    (hr : (db.resetTokens.table.view tx.resetTokens).get k = some r) (hp : p r = true) :
    tx' = { tx with resetTokens := .put (f r) :: tx.resetTokens } := by
  simp only [Db.updateResetToken, Option.map_eq_some_iff, Prod.mk.injEq] at h
  obtain ⟨⟨st, ws⟩, hv, -, rfl⟩ := h
  obtain ⟨-, ⟨x, hx, -, -, rfl⟩ | ⟨hno, -, -⟩⟩ := Store.visit_cases hv
  · rw [Option.some.inj (hr.symm.trans hx)]
  · rw [hno r hr] at hp
    cases hp

omit [DecidableEq C] in
theorem Db.findUser_id {k : Uuid} {u : User} (h : db.findUser tx k = some u) : u.id = k :=
  Table.get_key (Option.filter_eq_some_iff.mp h).1

omit [DecidableEq C] in
theorem Db.findUser_isSome {k : Uuid} {u : User} (h : db.findUser {} k = some u) :
    (db.users.table.get k).isSome :=
  Option.isSome_iff_exists.mpr ⟨u, (Option.filter_eq_some_iff.mp h).1⟩

omit [DecidableEq C] in
theorem Db.insertRefreshToken_inTx {row : RefreshToken}
    (h : db.insertRefreshToken c tx row = some (db', tx')) : Db.InTx c db db' := by
  unfold Db.insertRefreshToken at h
  split at h
  · next hfresh =>
    simp only [Option.map_eq_some_iff, Prod.mk.injEq] at h
    obtain ⟨⟨st, ws⟩, hv, rfl, rfl⟩ := h
    obtain ⟨-, hfree, rfl, -⟩ := Store.insert_cases hv
    refine ⟨⟨.refl, Store.frame_lock (.inl hfree), .refl, ?_, id⟩, rfl, rfl, rfl, id,
      Store.lock_owner_of_owner, id⟩
    intro x k hx
    -- the index entry added is one of a hash nobody had
    have hne : x ≠ row.tokenHash := by
      rintro rfl
      rw [hfresh] at hx
      cases hx
    simpa [Function.update_of_ne hne] using hx
  · cases h

omit [DecidableEq C] in
/-- The row inserted was new, is locked until the commit, and owns its hash. -/
theorem Db.insertRefreshToken_cases {row : RefreshToken}
    (h : db.insertRefreshToken c tx row = some (db', tx')) :
    db.refreshTokens.table.get row.id = none ∧ db.hashIndex row.tokenHash = none ∧
      db'.refreshTokens.owner row.id = some c ∧ db'.hashIndex row.tokenHash = some row.id ∧
      tx' = { tx with refreshTokens := .put row :: tx.refreshTokens } := by
  unfold Db.insertRefreshToken at h
  split at h
  · next hfresh =>
    simp only [Option.map_eq_some_iff, Prod.mk.injEq] at h
    obtain ⟨⟨st, ws⟩, hv, rfl, rfl⟩ := h
    obtain ⟨hnew, -, rfl, rfl⟩ := Store.insert_cases hv
    exact ⟨hnew, hfresh, Store.lock_owner_self, by simp, rfl⟩
  · cases h

/-! ## Buffers that only store new versions

Apart from inserts, the writes of the operations are new versions of rows: refresh tokens get
`revokedAt`, reset tokens `usedAt`, users a password hash or `deletedAt`. -/

/-- The newer version of a user differs at most in the password hash and in the time stamps, and does
    not undo a deletion. -/
def Rewritten (u u' : User) : Prop :=
  ∃ hash deleted updated,
    u' = { u with passwordHash := hash, deletedAt := deleted, updatedAt := updated } ∧
    (u.deletedAt.isSome → deleted.isSome)

theorem Rewritten.refl (u : User) : Rewritten u u := ⟨_, _, _, rfl, id⟩

theorem Rewritten.trans {u u' u'' : User} (h : Rewritten u u') (h' : Rewritten u' u'') :
    Rewritten u u'' := by
  obtain ⟨_, _, _, rfl, hd⟩ := h
  obtain ⟨_, _, _, rfl, hd'⟩ := h'
  exact ⟨_, _, _, rfl, fun hu => hd' (hd hu)⟩

theorem Rewritten.id_eq {u u' : User} (h : Rewritten u u') : u'.id = u.id := by
  obtain ⟨_, _, _, rfl, -⟩ := h
  rfl

/-- The buffer stores new versions of rows it has locked, and adds none. This is so of every transaction
    but a rotation. -/
structure Tx.Marks (db : Db C) (c : C) (tx : Tx) : Prop where
  owned         : Tx.Owned db c tx
  users         : Table.Updates Rewritten db.users.table tx.users
  refreshTokens : Table.Updates Revoked db.refreshTokens.table tx.refreshTokens
  resetTokens   : Table.Updates Used db.resetTokens.table tx.resetTokens

omit [DecidableEq C] in
theorem Tx.Marks.empty : Tx.Marks db c {} := ⟨.empty, .nil, .nil, .nil⟩

omit [DecidableEq C] in
theorem Tx.Marks.frame (h : Tx.Marks db c tx) (hf : Db.Frame d db db') (hd : c ≠ d) :
    Tx.Marks db' c tx where
  owned         := h.owned.frame hf hd
  users         := Store.updates_frame h.users h.owned.users hf.users hd
  refreshTokens := Store.updates_frame h.refreshTokens h.owned.refreshTokens hf.refreshTokens hd
  resetTokens   := Store.updates_frame h.resetTokens h.owned.resetTokens hf.resetTokens hd

theorem Tx.Marks.updateUser {k : Uuid} {f : User → User} (hm : Tx.Marks db c tx)
    (hf : ∀ u, Rewritten u (f u)) (h : db.updateUser c tx k f = some (db', tx')) :
      Tx.Marks db' c tx' := by
  simp only [Db.updateUser, Option.map_eq_some_iff, Prod.mk.injEq] at h
  obtain ⟨⟨st, ws⟩, hv, rfl, rfl⟩ := h
  -- a new version keeps the id
  have hkey : ∀ u, key (f u) = key u := fun u => (hf u).id_eq
  have howned : Tx.Owned { db with users := st } c { tx with users := ws } :=
    ⟨Store.visit_owned hv hkey hm.owned.users, hm.owned.refreshTokens, hm.owned.resetTokens⟩
  exact ⟨howned, Store.visit_updates hv hkey hf Rewritten.trans hm.users, hm.refreshTokens,
    hm.resetTokens⟩

theorem Tx.Marks.revoke {k : Uuid} {p : RefreshToken → Bool} {now : Nat} (hm : Tx.Marks db c tx)
    (h : db.updateRefreshToken c tx k p (revoke now) = some (db', tx')) : Tx.Marks db' c tx' := by
  simp only [Db.updateRefreshToken, Option.map_eq_some_iff, Prod.mk.injEq] at h
  obtain ⟨⟨st, ws⟩, hv, rfl, rfl⟩ := h
  have howned : Tx.Owned { db with refreshTokens := st } c { tx with refreshTokens := ws } :=
    ⟨hm.owned.users, Store.visit_owned hv (fun _ => rfl) hm.owned.refreshTokens, hm.owned.resetTokens⟩
  have hupdates : Table.Updates Revoked st.table ws :=
    Store.visit_updates hv (fun _ => rfl) (revoked_revoke now) Revoked.trans hm.refreshTokens
  exact ⟨howned, hm.users, hupdates, hm.resetTokens⟩

theorem Tx.Marks.markUsed {k : Uuid} {p : PasswordResetToken → Bool} {now : Nat} (hm : Tx.Marks db c tx)
    (h : db.updateResetToken c tx k p (markUsed now) = some (db', tx')) : Tx.Marks db' c tx' := by
  simp only [Db.updateResetToken, Option.map_eq_some_iff, Prod.mk.injEq] at h
  obtain ⟨⟨st, ws⟩, hv, rfl, rfl⟩ := h
  have howned : Tx.Owned { db with resetTokens := st } c { tx with resetTokens := ws } :=
    ⟨hm.owned.users, hm.owned.refreshTokens, Store.visit_owned hv (fun _ => rfl) hm.owned.resetTokens⟩
  have hupdates : Table.Updates Used st.table ws :=
    Store.visit_updates hv (fun _ => rfl) (used_markUsed now) Used.trans hm.resetTokens
  exact ⟨howned, hm.users, hm.refreshTokens, hupdates⟩

/-- The buffer stores exactly one user version: `u'` for the locked row `u`. -/
def Tx.StoresUser (db : Db C) (c : C) (tx : Tx) (u u' : User) : Prop :=
  db.users.Holds c u ∧ tx.users = [.put u']

omit [DecidableEq C] in
theorem Tx.StoresUser.frame {u u' : User} (h : Tx.StoresUser db c tx u u') (hf : Db.Frame d db db')
    (hd : c ≠ d) : Tx.StoresUser db' c tx u u' := by
  obtain ⟨hh, htx⟩ := h
  exact ⟨hh.frame hf.users hd, htx⟩

omit [DecidableEq C] in
theorem Tx.StoresUser.inTx {u u' : User} (h : Tx.StoresUser db c tx u u') (hi : Db.InTx c db db')
    (htx : tx'.users = tx.users) : Tx.StoresUser db' c tx' u u' := by
  obtain ⟨hh, hput⟩ := h
  exact ⟨hi.holdsUser hh, htx.trans hput⟩

/-- What is committed, table by table: every row, in place, in a new version. No row appears and none
    goes. -/
structure Db.Versions (db db' : Db C) : Prop where
  users         : Table.RowWise Rewritten db.users.table db'.users.table
  refreshTokens : Table.RowWise Revoked db.refreshTokens.table db'.refreshTokens.table
  resetTokens   : Table.RowWise Used db.resetTokens.table db'.resetTokens.table

omit [DecidableEq C] in
theorem Db.Versions.refl : Db.Versions db db :=
  ⟨.refl Rewritten.refl _, .refl Revoked.refl _, .refl Used.refl _⟩

theorem Db.versions_rollback : Db.Versions db (db.rollback c) :=
  ⟨.refl Rewritten.refl _, .refl Revoked.refl _, .refl Used.refl _⟩

omit [DecidableEq C] in
theorem Db.InTx.versions (h : Db.InTx c db db') : Db.Versions db db' := by
  constructor
  · rw [h.usersTable]
    exact .refl Rewritten.refl _
  · rw [h.refreshTokensTable]
    exact .refl Revoked.refl _
  · rw [h.resetTokensTable]
    exact .refl Used.refl _

omit [DecidableEq C] in
theorem Db.InTx.versions_trans {db'' : Db C} (h : Db.InTx c db db') (hv : Db.Versions db' db'') :
    Db.Versions db db'' := by
  constructor
  · rw [← h.usersTable]
    exact hv.users
  · rw [← h.refreshTokensTable]
    exact hv.refreshTokens
  · rw [← h.resetTokensTable]
    exact hv.resetTokens

omit [DecidableEq C] in
theorem Db.Versions.userRows (h : Db.Versions db db') {k : Uuid} (hk : (db.users.table.get k).isSome) :
    (db'.users.table.get k).isSome := by
  obtain ⟨u, hu⟩ := Option.isSome_iff_exists.mp hk
  obtain ⟨u', hu', -⟩ := h.users.get hu
  simp [hu']

/-- Committing such a buffer stores new versions. -/
theorem Tx.Marks.versions (hm : Tx.Marks db c tx) : Db.Versions db (db.commit c tx) where
  users         := hm.users.rowWise Rewritten.refl
  refreshTokens := hm.refreshTokens.rowWise Revoked.refl
  resetTokens   := hm.resetTokens.rowWise Used.refl

theorem Tx.Marks.frame_commit (hm : Tx.Marks db c tx) : Db.Frame c db (db.commit c tx) where
  users         := Store.frame_commit hm.owned.users
  refreshTokens := Store.frame_commit hm.owned.refreshTokens
  resetTokens   := Store.frame_commit hm.owned.resetTokens
  hashIndex hi  := hi
  userRows hk   := hm.versions.userRows hk

end NestApp
