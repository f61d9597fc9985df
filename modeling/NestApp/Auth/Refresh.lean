import NestApp.Auth.Database

/-!
# `Auth.Refresh` — `AuthService.refresh`

The transaction of `refresh`, one statement a step. `SELECT … FOR UPDATE` locks the presented row, and
the lock is kept until the commit; the theft branch is an `UPDATE` over the family (a sweep), the last
branch inserts the next token and links the presented one to it.

`Ok` is the proof outline: what the call knows at each point. The presented row stays as it was read
(`Presented.Held`), since it is locked; the buffer holds revocations only, or exactly one rotation.
`step_ok` keeps the outline, `Ok.frame` says that the other calls cannot disturb it, and `step_tokens`
reads off what one step does to the committed tokens.

The order of the checks is that of the source: a revoked or used token is a theft whatever else is
wrong with it, then come the expiry and the account. What the transaction returns is thrown outside of
it, so a detected theft commits its revocations.
-/

namespace NestApp

open Sql

namespace Refresh

/-- How the transaction ends. Only `ok` hands out a token; the others are answered with 401, and `theft`
    has revoked the family by then. -/
inductive Outcome where
  | invalid
  | theft
  | expired
  | inactive
  | ok (user : User) (next : RefreshToken)
deriving DecidableEq

/-- The cookie value, the request metadata and the row found for it. -/
structure Presented where
  token    : String
  metadata : SessionMetadata
  stored   : RefreshToken
deriving DecidableEq

/-- The points of `refresh` between two statements. The theft branch stays at one of them until its
    `UPDATE` has visited every row it selected. -/
inductive Pc where
  | start (presentedToken : Option String) (metadata : SessionMetadata)
  /-- about to start the `UPDATE` over the family -/
  | theft (p : Presented)
  /-- that `UPDATE` under way: `todo` are the rows it still has to visit -/
  | sweep (p : Presented) (todo : List Uuid) (tx : Tx)
  | expired (p : Presented)
  | findUser (p : Presented)
  | insertNext (p : Presented) (user : User)
  | linkNext (p : Presented) (user : User) (next : RefreshToken) (tx : Tx)
  | commit (p : Presented) (tx : Tx) (outcome : Outcome)
  | done (token : String) (stored : Option RefreshToken) (outcome : Outcome)
  | failed (e : HttpException)

/-- The branch taken on the row found, in the order in which the source checks: a revoked or used token
    is a theft, then comes the expiry, and the account last. -/
def classify (now : Nat) (p : Presented) : Pc :=
  if p.stored.revokedAt.isSome || p.stored.usedAt.isSome then .theft p
  else if p.stored.expiresAt < now then .expired p
  else .findUser p

/-- The token the presented one is rotated to. -/
def nextToken (env : Env) (o : Choice) (p : Presented) (user : User) : RefreshToken where
  id                := o.id
  tokenHash         := env.hashToken o.token
  userId            := user.id
  familyId          := p.stored.familyId
  expiresAt         := o.now + env.refreshExpiresInMs
  revokedAt         := none
  replacedByTokenId := none
  ipAddress         := p.metadata.ipAddress
  userAgent         := p.metadata.userAgent
  usedAt            := none
  createdAt         := o.now

variable {C : Type} [DecidableEq C]

/-- One step of `refresh`. -/
def step (env : Env) (c : C) (db : Db C) (o : Choice) : Pc → Option (Db C × Pc)
  | .start none _ | .start (some "") _ => some (db, .failed (.unauthorized "Missing refresh token"))
  | .start (some token) metadata =>
      (db.refreshTokens.selectForUpdate c fun r => r.tokenHash = env.hashToken token).map fun found =>
        match found.2 with
        | none        => (db, .done token none .invalid)
        | some stored => ({ db with refreshTokens := found.1 }, classify o.now ⟨token, metadata, stored⟩)
  | .theft p =>
      -- the rows of the family, as the statement sees them when it starts
      some (db, .sweep p (db.refreshTokens.table.select (liveInFamily p.stored.familyId)) {})
  | .sweep p todo tx =>
      if todo = [] then some (db, .commit p tx .theft)
      else if o.row ∈ todo then
        (db.updateRefreshToken c tx o.row (liveInFamily p.stored.familyId) (revoke o.now)).map fun r =>
          (r.1, .sweep p (todo.erase o.row) r.2)
      else none
  | .expired p =>
      (db.updateRefreshToken c {} p.stored.id (fun _ => true) (revoke o.now)).map fun r =>
        (r.1, .commit p r.2 .expired)
  | .findUser p =>
      -- a plain read: the user row is not locked
      match db.findUser {} p.stored.userId with
      | some user =>
          if user.status = .active then some (db, .insertNext p user)
            else some (db, .commit p {} .inactive)
      | none => some (db, .commit p {} .inactive)
  | .insertNext p user =>
      (db.insertRefreshToken c {} (nextToken env o p user)).map fun r =>
        (r.1, .linkNext p user (nextToken env o p user) r.2)
  | .linkNext p user next tx =>
      (db.updateRefreshToken c tx p.stored.id (fun _ => true) (rotate o.now next.id)).map fun r =>
        (r.1, .commit p r.2 (.ok user next))
  | .commit p tx outcome => some (db.commit c tx, .done p.token (some p.stored) outcome)
  | .done .. | .failed _ => none

/-- What `refresh` answers: every outcome but `ok` is thrown, after the commit. -/
def Outcome.response : Outcome → Except HttpException (User × RefreshToken)
  | .invalid      => .error (.unauthorized "Invalid refresh token")
  | .theft        => .error (.unauthorized "Invalid refresh token")
  | .expired      => .error (.unauthorized "Refresh token expired")
  | .inactive     => .error (.unauthorized "Account is not active")
  | .ok user next => .ok (user, next)

/-! ## The proof outline

From the first statement to the commit the presented row is locked, which makes it the one thing the
call knows for certain. Everything else it has read may be out of date by then: that the account was
active, and that the family had other live tokens. -/

/-- The presented row is locked, and still as it was read. -/
def Presented.Held (env : Env) (c : C) (db : Db C) (p : Presented) : Prop :=
  db.refreshTokens.Holds c p.stored ∧ p.stored.tokenHash = env.hashToken p.token

/-- `next` is inserted but not committed: a live token of the same user and family, under a new id. -/
structure IsNext (c : C) (db : Db C) (p : Presented) (user : User) (next : RefreshToken) : Prop where
  user      : user.id = p.stored.userId
  userId    : next.userId = p.stored.userId
  familyId  : next.familyId = p.stored.familyId
  live      : next.Live
  last      : next.replacedByTokenId = none
  new       : db.refreshTokens.table.get next.id = none
  locked    : db.refreshTokens.owner next.id = some c
  hashIndex : db.hashIndex next.tokenHash = some next.id

/-- The buffer of a rotation. -/
def rotation (now : Nat) (stored next : RefreshToken) : Tx :=
  { refreshTokens := [.put (rotate now next.id stored), .put next] }

/-- What the call knows at each point. -/
def Ok (env : Env) (c : C) (db : Db C) : Pc → Prop
  | .start .. | .done .. | .failed _ => True
  | .theft p                  => p.Held env c db
  | .sweep p _ tx             => p.Held env c db ∧ tx.Marks db c ∧ tx.users = []
  | .expired p | .findUser p  => p.Held env c db ∧ p.stored.Live
  | .insertNext p user        => p.Held env c db ∧ p.stored.Live ∧ user.id = p.stored.userId
  | .linkNext p user next tx  =>
      p.Held env c db ∧ p.stored.Live ∧ IsNext c db p user next ∧ tx = { refreshTokens := [.put next] }
  | .commit p tx (.ok user next) =>
      p.Held env c db ∧ p.stored.Live ∧ IsNext c db p user next ∧ ∃ now, tx = rotation now p.stored next
  | .commit p tx _            => p.Held env c db ∧ tx.Marks db c ∧ tx.users = []

variable {env : Env} {c d : C} {db db' : Db C} {o : Choice} {pc pc' : Pc} {p : Presented} {user : User}
  {next : RefreshToken} {tx : Tx} {token : String} {stored : Option RefreshToken}

omit [DecidableEq C]

theorem Presented.Held.inTx (h : p.Held env c db) (hi : Db.InTx c db db') : p.Held env c db' := by
  obtain ⟨hh, hhash⟩ := h
  exact ⟨hi.holdsRefreshToken hh, hhash⟩

theorem Presented.Held.frame (h : p.Held env c db) (hf : Db.Frame d db db') (hd : c ≠ d) :
    p.Held env c db' := by
  obtain ⟨hh, hhash⟩ := h
  exact ⟨hh.frame hf.refreshTokens hd, hhash⟩

theorem IsNext.frame (h : IsNext c db p user next) (hf : Db.Frame d db db') (hd : c ≠ d) :
    IsNext c db' p user next :=
  { h with
    new       := (hf.refreshTokens.row hd h.locked).trans h.new
    locked    := hf.refreshTokens.held hd h.locked
    hashIndex := hf.hashIndex h.hashIndex }

theorem IsNext.inTx (h : IsNext c db p user next) (hi : Db.InTx c db db') : IsNext c db' p user next :=
  { h with
    new       := hi.refreshTokensTable ▸ h.new
    locked    := hi.refreshTokenLock h.locked
    hashIndex := hi.frame.hashIndex h.hashIndex }

theorem IsNext.ne (h : IsNext c db p user next) (hp : p.Held env c db) : p.stored.id ≠ next.id := by
  have hs : db.refreshTokens.table.get p.stored.id = some p.stored := hp.1.1
  exact Table.ne_of_get_none hs h.new

theorem rotation_owned {now : Nat} (h : IsNext c db p user next) (hp : p.Held env c db) :
    (rotation now p.stored next).Owned db c where
  users         := .nil
  refreshTokens := .cons hp.1.2 (.cons h.locked .nil)
  resetTokens   := .nil

/-- The outline of a call survives the steps of the others. -/
theorem Ok.frame (h : Ok env c db pc) (hf : Db.Frame d db db') (hd : c ≠ d) : Ok env c db' pc := by
  cases pc with
  | start | done | failed => trivial
  | theft p => exact Presented.Held.frame h hf hd
  | sweep p todo tx => exact ⟨h.1.frame hf hd, h.2.1.frame hf hd, h.2.2⟩
  | expired p => exact ⟨h.1.frame hf hd, h.2⟩
  | findUser p => exact ⟨h.1.frame hf hd, h.2⟩
  | insertNext p user => exact ⟨h.1.frame hf hd, h.2⟩
  | linkNext p user next tx =>
      obtain ⟨hp, hl, hn, htx⟩ := h
      exact ⟨hp.frame hf hd, hl, hn.frame hf hd, htx⟩
  | commit p tx outcome =>
      cases outcome with
      | ok user next =>
          obtain ⟨hp, hl, hn, htx⟩ := h
          exact ⟨hp.frame hf hd, hl, hn.frame hf hd, htx⟩
      | invalid | theft | expired | inactive => exact ⟨h.1.frame hf hd, h.2.1.frame hf hd, h.2.2⟩

theorem classify_ok (h : p.Held env c db) (now : Nat) : Ok env c db (classify now p) := by
  unfold classify
  split
  · exact h
  · next hlive =>
    simp only [Bool.or_eq_true, not_or, Bool.not_eq_true, Option.isSome_eq_false_iff,
      Option.isNone_iff_eq_none] at hlive
    split
    · exact ⟨h, hlive⟩
    · exact ⟨h, hlive⟩

variable [DecidableEq C]

/-- Every statement but the commit publishes nothing. -/
theorem step_inTx (hs : step env c db o pc = some (db', pc'))
    (hpc : ∀ p tx outcome, pc ≠ .commit p tx outcome) : Db.InTx c db db' := by
  cases pc with
  | start presented metadata =>
      rcases presented with _ | token
      · cases hs
        exact .refl
      · by_cases ht : token = ""
        · subst ht
          cases hs
          exact .refl
        · simp only [step, Option.map_eq_some_iff] at hs
          obtain ⟨⟨st, found⟩, hsel, hres⟩ := hs
          obtain ⟨hf, ht, ho⟩ := Store.selectForUpdate_frame hsel
          cases found with
          | none => cases hres; exact .refl
          | some r => cases hres; exact ⟨⟨.refl, hf, .refl, id, id⟩, rfl, ht, rfl, id, ho, id⟩
  | theft p => cases hs; exact .refl
  | sweep p todo tx =>
      simp only [step] at hs
      split at hs
      · cases hs; exact .refl
      · split at hs
        · obtain ⟨r, hupd, hres⟩ := Option.map_eq_some_iff.mp hs
          cases hres
          exact Db.updateRefreshToken_inTx hupd
        · cases hs
  | expired p =>
      obtain ⟨r, hupd, hres⟩ := Option.map_eq_some_iff.mp hs
      cases hres
      exact Db.updateRefreshToken_inTx hupd
  | findUser p =>
      simp only [step] at hs
      split at hs
      · split at hs <;> (cases hs; exact .refl)
      · cases hs; exact .refl
  | insertNext p user =>
      obtain ⟨r, hins, hres⟩ := Option.map_eq_some_iff.mp hs
      cases hres
      exact Db.insertRefreshToken_inTx hins
  | linkNext p user next tx =>
      obtain ⟨r, hupd, hres⟩ := Option.map_eq_some_iff.mp hs
      cases hres
      exact Db.updateRefreshToken_inTx hupd
  | commit p tx outcome => exact absurd rfl (hpc p tx outcome)
  | done | failed => cases hs

/-- **Own step.** A step of `refresh` keeps the outline. -/
theorem step_ok (hs : step env c db o pc = some (db', pc')) (hok : Ok env c db pc) :
    Ok env c db' pc' := by
  cases pc with
  | start presented metadata =>
      rcases presented with _ | token
      · cases hs; trivial
      · by_cases ht : token = ""
        · subst ht; cases hs; trivial
        · simp only [step, Option.map_eq_some_iff] at hs
          obtain ⟨⟨st, found⟩, hsel, hres⟩ := hs
          rcases Store.selectForUpdate_cases hsel with ⟨rfl, rfl⟩ | ⟨r, rfl, hp, -, -, hh⟩
          · cases hres; trivial
          · cases hres
            exact classify_ok ⟨hh, by simpa using hp⟩ o.now
  | theft p => cases hs; exact ⟨hok, .empty, rfl⟩
  | sweep p todo tx =>
      obtain ⟨hp, hm, hu⟩ := hok
      have hi := step_inTx hs (by simp)
      simp only [step] at hs
      split at hs
      · cases hs; exact ⟨hp, hm, hu⟩
      · split at hs
        · obtain ⟨⟨db₁, tx₁⟩, hupd, hres⟩ := Option.map_eq_some_iff.mp hs
          cases hres
          exact ⟨hp.inTx hi, hm.revoke hupd, (Db.updateRefreshToken_others hupd).1.trans hu⟩
        · cases hs
  | expired p =>
      have hi := step_inTx hs (by simp)
      obtain ⟨⟨db₁, tx₁⟩, hupd, hres⟩ := Option.map_eq_some_iff.mp hs
      cases hres
      exact ⟨hok.1.inTx hi, Tx.Marks.empty.revoke hupd, (Db.updateRefreshToken_others hupd).1⟩
  | findUser p =>
      simp only [step] at hs
      split at hs
      · next user hfind =>
        split at hs
        · cases hs; exact ⟨hok.1, hok.2, Db.findUser_id hfind⟩
        · cases hs; exact ⟨hok.1, .empty, rfl⟩
      · cases hs; exact ⟨hok.1, .empty, rfl⟩
  | insertNext p user =>
      obtain ⟨hp, hl, hu⟩ := hok
      have hi := step_inTx hs (by simp)
      obtain ⟨⟨db₁, tx₁⟩, hins, hres⟩ := Option.map_eq_some_iff.mp hs
      cases hres
      obtain ⟨hnew, -, hlock, hidx, htx⟩ := Db.insertRefreshToken_cases hins
      have hnext : IsNext c db₁ p user (nextToken env o p user) := by
        refine ⟨hu, hu, rfl, ⟨rfl, rfl⟩, rfl, ?_, hlock, hidx⟩
        rw [hi.refreshTokensTable]
        exact hnew
      exact ⟨hp.inTx hi, hl, hnext, htx⟩
  | linkNext p user next tx =>
      obtain ⟨hp, hl, hn, rfl⟩ := hok
      have hi := step_inTx hs (by simp)
      obtain ⟨⟨db₁, tx₁⟩, hupd, hres⟩ := Option.map_eq_some_iff.mp hs
      cases hres
      -- under the insert, the presented row is still in view
      have hview : (db.refreshTokens.table.view [.put next]).get p.stored.id = some p.stored := by
        rw [Table.get_view_put, key_refreshToken, if_neg (hn.ne hp)]
        exact hp.1.1
      exact ⟨hp.inTx hi, hl, hn.inTx hi, o.now, Db.updateRefreshToken_put hupd hview rfl⟩
  | commit p tx outcome => cases hs; trivial
  | done | failed => cases hs

theorem step_frame (hs : step env c db o pc = some (db', pc')) (hok : Ok env c db pc) :
    Db.Frame c db db' := by
  by_cases hpc : ∃ p tx outcome, pc = .commit p tx outcome
  · obtain ⟨p, tx, outcome, rfl⟩ := hpc
    cases hs
    cases outcome with
    | ok user next =>
        obtain ⟨hp, -, hn, now, rfl⟩ := hok
        exact Db.frame_commit (rotation_owned hn hp) rfl
    | invalid | theft | expired | inactive => exact hok.2.1.frame_commit
  · exact (step_inTx hs fun p tx outcome he => hpc ⟨p, tx, outcome, he⟩).frame

/-- A step of `refresh` publishes no user and no reset token. -/
theorem step_others (hs : step env c db o pc = some (db', pc')) (hok : Ok env c db pc) :
    db'.users.table = db.users.table ∧
      Table.RowWise Used db.resetTokens.table db'.resetTokens.table := by
  by_cases hpc : ∃ p tx outcome, pc = .commit p tx outcome
  · obtain ⟨p, tx, outcome, rfl⟩ := hpc
    cases hs
    cases outcome with
    | ok user next =>
        obtain ⟨-, -, -, now, rfl⟩ := hok
        exact ⟨rfl, .refl Used.refl _⟩
    | invalid | theft | expired | inactive =>
        obtain ⟨-, hm, hu⟩ := hok
        exact ⟨by simp [Db.commit, hu], hm.versions.resetTokens⟩
  · have hi := step_inTx hs fun p tx outcome he => hpc ⟨p, tx, outcome, he⟩
    exact ⟨hi.usersTable, hi.versions.resetTokens⟩

/-- Only the commit of a rotation answers `ok`. -/
theorem step_accepts (hs : step env c db o pc = some (db', .done token stored (.ok user next))) :
    ∃ p tx, pc = .commit p tx (.ok user next) := by
  -- every other statement ends at a point that is not `done … ok`
  cases pc with
  | start presented metadata =>
      rcases presented with _ | token
      · cases hs
      · by_cases ht : token = ""
        · subst ht; cases hs
        · simp only [step, Option.map_eq_some_iff] at hs
          obtain ⟨⟨st, _ | r⟩, -, hres⟩ := hs
          · cases hres
          · simp only [Prod.mk.injEq, classify] at hres
            obtain ⟨-, hpc⟩ := hres
            split at hpc
            · cases hpc
            · split at hpc <;> cases hpc
  | theft p => cases hs
  | sweep p todo tx =>
      simp only [step] at hs
      split at hs
      · cases hs
      · split at hs
        · obtain ⟨r, -, hres⟩ := Option.map_eq_some_iff.mp hs
          cases hres
        · cases hs
  | expired p =>
      obtain ⟨r, -, hres⟩ := Option.map_eq_some_iff.mp hs
      cases hres
  | findUser p =>
      simp only [step] at hs
      split at hs
      · split at hs <;> cases hs
      · cases hs
  | insertNext p user =>
      obtain ⟨r, -, hres⟩ := Option.map_eq_some_iff.mp hs
      cases hres
  | linkNext p user next tx =>
      obtain ⟨r, -, hres⟩ := Option.map_eq_some_iff.mp hs
      cases hres
  | commit p tx outcome => cases hs; exact ⟨p, tx, rfl⟩
  | done | failed => cases hs

/-- **What a step commits.** Either tokens are only revoked and no new one is handed out, or this is the
    commit of a rotation: the presented token is linked to the next one. -/
theorem step_tokens (hs : step env c db o pc = some (db', pc')) (hok : Ok env c db pc) :
    (Table.RowWise Revoked db.refreshTokens.table db'.refreshTokens.table ∧
        ∀ token stored user next, pc' ≠ .done token stored (.ok user next)) ∨
      ∃ p user next now, pc = .commit p (rotation now p.stored next) (.ok user next) ∧
        pc' = .done p.token (some p.stored) (.ok user next) ∧
        db'.refreshTokens.table = (db.refreshTokens.table.put next).put
          (rotate now next.id p.stored) := by
  -- the commit of a rotation is the only step that stores anything but revocations
  by_cases hpc : ∃ p tx user next, pc = .commit p tx (.ok user next)
  · obtain ⟨p, tx, user, next, rfl⟩ := hpc
    obtain ⟨-, -, -, now, rfl⟩ := hok
    cases hs
    exact .inr ⟨p, user, next, now, rfl, rfl, rfl⟩
  · refine .inl ⟨?_, ?_⟩
    · by_cases hc : ∃ p tx outcome, pc = .commit p tx outcome
      · obtain ⟨p, tx, outcome, rfl⟩ := hc
        cases hs
        cases outcome with
        | ok user next => exact absurd ⟨p, tx, user, next, rfl⟩ hpc
        | invalid | theft | expired | inactive => exact hok.2.1.versions.refreshTokens
      · exact (step_inTx hs fun p tx outcome he => hc ⟨p, tx, outcome, he⟩).versions.refreshTokens
    · rintro token stored user next rfl
      obtain ⟨p, tx, rfl⟩ := step_accepts hs
      exact hpc ⟨p, tx, user, next, rfl⟩

end Refresh

end NestApp
