import NestApp.Auth.Family
import NestApp.Auth.Locks
import NestApp.Lib.Deadlock

/-!
# `Auth.LockOrder` — in which order the account operations lock their rows

`resetPassword` locks its link and then the user, `softDelete` locks the user and then the links: these
two can wait for each other. Two `UPDATE`s over the links of a user can, if they reach the links in
different orders.

Here is what the locks are (`accountLocks`), and what the lock order needs of a state
(`LockInvariant`): what a call has locked (`Auth.Locks`), what it knows about the rows it has yet to
reach (`Call.Ordered`), and that no user has a reset and a deletion in progress (`Apart`). The tokens
need the linear families. An `UPDATE` over a family, after a theft, has at most one token to revoke,
and it was inserted after the one presented; an `UPDATE` over the live tokens of a user has one token
of each family.

The invariant holds in every run in which a `resetPassword` and a `softDelete` of one user do not
overlap, and the `UPDATE`s over links reach them in one common order (`inLockOrder`). `Auth.LockRank`
derives the order.
-/

namespace NestApp

open Sql

variable {C : Type}

/-! ## Rows, requested and held

Locks are on rows of three tables, in the modes that `Lib.Deadlock` has. An inserted token does not
only lock itself: its foreign key takes a share lock on the user, which conflicts with the deletion of
that user and with nothing else. -/

/-- A row of one of the account tables. -/
inductive AccountRow where
  | user (id : Uuid)
  | refreshToken (id : Uuid)
  | resetToken (id : Uuid)
deriving DecidableEq

/-- The transaction that has locked a row for itself. -/
def Db.owner (db : Db C) : AccountRow → Option C
  | .user id         => db.users.owner id
  | .refreshToken id => db.refreshTokens.owner id
  | .resetToken id   => db.resetTokens.owner id

/-- The locks the next statement of a call takes. An inserted token refers to its user. -/
def Call.requests (env : Env) (db : Db C) : Call → List (AccountRow × LockMode)
  | .session (.createSession user _) => [(.user user.id, .keyShare)]
  | .refresh (.start (some token) _) =>
      if token = "" then []
      else ((db.refreshTokens.table.find? fun r => r.tokenHash = env.hashToken token).map fun r =>
        (.refreshToken r.id, .forUpdate)).toList
  | .refresh (.sweep _ todo _)       => todo.map fun id => (.refreshToken id, .noKeyUpdate)
  | .refresh (.expired p)            => [(.refreshToken p.stored.id, .noKeyUpdate)]
  | .refresh (.insertNext _ user)    => [(.user user.id, .keyShare)]
  | .refresh (.linkNext p _ _ _)     => [(.refreshToken p.stored.id, .noKeyUpdate)]
  | .logout (.revoke id)             => [(.refreshToken id, .noKeyUpdate)]
  | .forgotPassword (.sweep _ _ todo _) => todo.map fun id => (.resetToken id, .noKeyUpdate)
  | .forgotPassword (.save user _)   => [(.user user.id, .keyShare)]
  | .resetPassword (.start dto) =>
      ((db.resetTokens.table.find? fun r => r.tokenHash = env.hashToken dto.token).map fun r =>
        (.resetToken r.id, .forUpdate)).toList
  | .resetPassword (.setPassword _ _ user)    => [(.user user.id, .noKeyUpdate)]
  | .resetPassword (.markUsed record _ _ _)   => [(.resetToken record.id, .noKeyUpdate)]
  | .resetPassword (.sweep _ _ _ todo _)      => todo.map fun id => (.refreshToken id, .noKeyUpdate)
  | .softDelete (.delete id)                  => [(.user id, .noKeyUpdate)]
  | .softDelete (.sweepRefreshTokens _ todo _) => todo.map fun id => (.refreshToken id, .noKeyUpdate)
  | .softDelete (.sweepResetTokens _ todo _)  => todo.map fun id => (.resetToken id, .noKeyUpdate)
  | _ => []

/-- The user a token inserted by the transaction refers to. -/
def Call.refersTo : Call → Option Uuid
  | .refresh (.linkNext _ user _ _) | .refresh (.commit _ _ (.ok user _)) => some user.id
  | _ => none

/-- The rows a call holds, and how: a selected row `FOR UPDATE`, an updated one against other updates,
    the user of an inserted token against deletion. -/
def Call.Holds (c : C) (db : Db C) (call : Call) : AccountRow → LockMode → Prop
  | .user id, m =>
      (db.users.owner id = some c ∧ m = .noKeyUpdate) ∨ (call.refersTo = some id ∧ m = .keyShare)
  | .refreshToken id, m => db.refreshTokens.owner id = some c ∧
      m = if call.presented.map RefreshToken.id = some id then .forUpdate else .noKeyUpdate
  | .resetToken id, m => db.resetTokens.owner id = some c ∧
      m = if call.link.map PasswordResetToken.id = some id then .forUpdate else .noKeyUpdate

/-- The locks of a state: what each call holds, and what its next statement may need. A statement that
    reaches rows one by one may need each row it has left. -/
def accountLocks (env : Env) (s : State C) : Locks C AccountRow where
  holds c        := (s.calls c).Holds c s.shared
  requests c r m := (r, m) ∈ (s.calls c).requests env s.shared

/-! ## The condition

Two things have to be excluded, and both happen in the code. A reset and a deletion of one user take
link and user in opposite orders; and two `UPDATE`s over the links of one user may reach them in
different orders, as nothing in the statement fixes one. -/

/-- The user whose password the call is about to set: its link is locked. -/
def Call.resets (call : Call) : Option Uuid := call.link.map PasswordResetToken.userId

/-- The user the call is deleting: the row is locked. -/
def Call.deletes : Call → Option Uuid
  | .softDelete (.revokeAll id _) | .softDelete (.sweepRefreshTokens id _ _) |
      .softDelete (.invalidateAll id _)
  | .softDelete (.sweepResetTokens id _ _) => some id
  | _ => none

/-- A `resetPassword` locks a usable link only while no `softDelete` of its user is in progress, and the
    other way round; an `UPDATE` over the links of a user reaches them in the order of `place`. -/
def inLockOrder (env : Env) (place : Uuid → Nat) : StepCondition C := fun s c a =>
  match a, s.calls c with
  | .run o, .resetPassword (.start dto) =>
      match s.shared.resetTokens.table.find? fun r => r.tokenHash = env.hashToken dto.token with
      | some record =>
          (record.usedAt.isSome || record.expiresAt < o.now) = false →
            ∀ d, (s.calls d).deletes ≠ some record.userId
      | none => True
  | .run _, .softDelete (.delete id)                => ∀ d, (s.calls d).resets ≠ some id
  | .run o, .forgotPassword (.sweep _ _ todo _)     => TakesFirst place todo o.row
  | .run o, .softDelete (.sweepResetTokens _ todo _) => TakesFirst place todo o.row
  | _, _ => True

/-! ## Families and their last tokens

What the chains of `Auth.Family` say about locks: a theft revokes at most one token, the last of the
family, and it stands behind the token presented. -/

/-- A live token is the last of its family. -/
theorem Chained.live_last {t : Table RefreshToken} (h : Chained t) {r : RefreshToken} (hr : r ∈ t.rows)
    (hlive : r.revokedAt = none) :
    r.usedAt = none ∧ ∃ l₁ l₂, t.rows = l₁ ++ r :: l₂ ∧ ∀ x ∈ l₂, x.familyId ≠ r.familyId := by
  have hno : ∀ {b}, ¬ ReplacedBy r b := by
    intro b hb
    have hrevoked := hb.revokedAt
    rw [hlive] at hrevoked
    cases hrevoked
  have hmem : r ∈ familyOf t r.familyId := mem_familyOf.mpr ⟨hr, rfl⟩
  constructor
  · rcases (h r.familyId).next_or_last hmem with ⟨b, -, hb⟩ | ⟨hlatest, -⟩
    · exact absurd hb hno
    · exact hlatest.usedAt
  · obtain ⟨l₁, l₂, hrows⟩ := List.append_of_mem hr
    refine ⟨l₁, l₂, hrows, fun x hx hf => ?_⟩
    -- behind the last token of the family there is none of it
    have hchain := h r.familyId
    rw [familyOf, hrows, List.filter_append, List.filter_cons_of_pos (by simp)] at hchain
    have hnil := hchain.eq_nil_of_last hno
    exact List.filter_eq_nil_iff.mp hnil x hx (by simpa using hf)

/-- A family has one live token at most. -/
theorem Chained.live_unique {t : Table RefreshToken} (h : Chained t) {r r' : RefreshToken}
    (hr : r ∈ t.rows)
    (hr' : r' ∈ t.rows) (hlive : r.revokedAt = none) (hlive' : r'.revokedAt = none)
    (hf : r.familyId = r'.familyId) :
    r = r' := by
  refine (h r.familyId).eq_of_last (P := fun r => r.revokedAt = none) (fun hab hnone => ?_)
    (mem_familyOf.mpr ⟨hr, rfl⟩) hlive (mem_familyOf.mpr ⟨hr', hf.symm⟩) hlive'
  have hrevoked := hab.revokedAt
  rw [hnone] at hrevoked
  cases hrevoked

/-- A family belongs to one user. -/
theorem Chained.userId_eq {t : Table RefreshToken} (h : Chained t) {r r' : RefreshToken}
    (hr : r ∈ t.rows)
    (hr' : r' ∈ t.rows) (hf : r.familyId = r'.familyId) : r.userId = r'.userId :=
  (h r.familyId).map_eq (f := RefreshToken.userId) (fun hab => hab.userId) r
    (mem_familyOf.mpr ⟨hr, rfl⟩) r'
    (mem_familyOf.mpr ⟨hr', hf.symm⟩)

/-- The `UPDATE` over the family of a spent token finds at most one token, and a later one. -/
theorem Chained.select_family {t : Table RefreshToken} (h : Chained t) {stored : RefreshToken}
    (hstored : t.get stored.id = some stored) (hspent : stored.revokedAt.isSome ∨ stored.usedAt.isSome) :
    t.select (liveInFamily stored.familyId) = [] ∨
      ∃ x r, t.select (liveInFamily stored.familyId) = [x] ∧ t.get x = some r ∧
        r.familyId = stored.familyId ∧
        t.index stored.id < t.index x := by
  have hlive : ∀ r ∈ t.rows.filter (liveInFamily stored.familyId),
      r ∈ t.rows ∧ r.familyId = stored.familyId ∧ r.revokedAt = none := by
    intro r hr
    obtain ⟨hmem, hp⟩ := List.mem_filter.mp hr
    simp only [liveInFamily, Bool.and_eq_true, decide_eq_true_eq, Option.isNone_iff_eq_none] at hp
    exact ⟨hmem, hp.1, hp.2⟩
  have hnodup : (t.rows.filter (liveInFamily stored.familyId)).Nodup :=
    (List.Nodup.of_map _ t.nodup).filter _
  unfold Table.select
  generalize t.rows.filter (liveInFamily stored.familyId) = l at hlive hnodup
  cases l with
  | nil => exact .inl rfl
  | cons r l =>
      obtain ⟨hr, hf, hrlive⟩ := hlive r List.mem_cons_self
      right
      have hone : l = [] := by
        refine List.eq_nil_iff_forall_not_mem.mpr fun r' hr' => ?_
        obtain ⟨hmem', hf', hlive'⟩ := hlive r' (List.mem_cons_of_mem _ hr')
        obtain rfl := h.live_unique hr hmem' hrlive hlive' (hf.trans hf'.symm)
        exact (List.nodup_cons.mp hnodup).1 hr'
      refine ⟨r.id, r, by rw [hone]; rfl, Table.get_of_mem hr, hf, ?_⟩
      obtain ⟨hunused, l₁, l₂, hrows, hlast⟩ := h.live_last hr hrlive
      -- the spent token is not the live one, and none of the family stands behind that
      have hmem := Table.get_mem hstored
      rw [hrows, List.mem_append, List.mem_cons] at hmem
      rcases hmem with hbefore | rfl | hafter
      · exact Table.index_lt hrows hbefore
      · rcases hspent with hrevoked | hused
        · rw [hrlive] at hrevoked
          cases hrevoked
        · rw [hunused] at hused
          cases hused
      · exact absurd hf.symm (hlast stored hafter)

/-! ## `UPDATE`s under way

An `UPDATE` that has begun holds the rows it has reached and will need those it has left. For tokens
the two are kept apart by the families, for links by the order of `place`. -/

/-- An `UPDATE` over the live tokens of a user: the tokens it has buffered and those it has yet to reach
    are the user's, and one it has yet to reach is of a family of its own. -/
structure SweepsTokens (t : Table RefreshToken) (userId : Uuid) (ws : List (Write RefreshToken Uuid))
    (todo : List Uuid) :
    Prop where
  ofUser : ∀ {k}, k ∈ ws.map Write.target ∨ k ∈ todo → ∃ r, t.get k = some r ∧ r.userId = userId
  apart  : ∀ {k j r r'}, k ∈ ws.map Write.target ∨ k ∈ todo → j ∈ todo → k ≠ j →
    t.get k = some r → t.get j = some r' →
    r.familyId ≠ r'.familyId

/-- An `UPDATE` over the unused links of a user: it reaches them in the order of `place`. -/
structure SweepsLinks (place : Uuid → Nat) (t : Table PasswordResetToken) (userId : Uuid)
    (ws : List (Write PasswordResetToken Uuid)) (todo : List Uuid) : Prop where
  ofUser  : ∀ {k}, k ∈ todo → ∃ r, t.get k = some r ∧ r.userId = userId
  inOrder : ∀ {k j}, k ∈ ws.map Write.target → j ∈ todo → place k < place j

section Sweeps

variable {place : Uuid → Nat} {t t' : Table RefreshToken} {links links' : Table PasswordResetToken}
  {userId k : Uuid} {ws ws' : List (Write RefreshToken Uuid)}
  {ls ls' : List (Write PasswordResetToken Uuid)} {todo : List Uuid}

/-- The live tokens of a user, as an `UPDATE` on them is about to visit them: at most one of each
    family. -/
theorem Chained.sweepsTokens (h : Chained t) :
    SweepsTokens t userId [] (t.select (liveOfUser userId)) := by
  have hlive : ∀ {k r}, k ∈ t.select (liveOfUser userId) → t.get k = some r → r.userId = userId ∧
    r.revokedAt = none := by
    intro k r hk hr
    obtain ⟨r', hr', hp⟩ := Table.mem_select.mp hk
    obtain rfl := Option.some.inj (hr'.symm.trans hr)
    simpa [liveOfUser] using hp
  refine ⟨fun hk => ?_, fun {k j r r'} hk hj hne hr hr' hf => ?_⟩
  · obtain ⟨r, hr, -⟩ := Table.mem_select.mp (hk.resolve_left List.not_mem_nil)
    exact ⟨r, hr, (hlive (hk.resolve_left List.not_mem_nil) hr).1⟩
  · -- two live tokens of one family are one
    have heq := h.live_unique (Table.get_mem hr) (Table.get_mem hr')
      (hlive (hk.resolve_left List.not_mem_nil) hr).2
      (hlive hj hr').2 hf
    exact hne (((Table.get_key hr).symm.trans (congrArg key heq)).trans (Table.get_key hr'))

/-- One more token is reached. -/
theorem SweepsTokens.visit (h : SweepsTokens t userId ws todo) (hk : k ∈ todo)
    (hws : ∀ {j}, j ∈ ws'.map Write.target → j = k ∨ j ∈ ws.map Write.target) :
      SweepsTokens t userId ws' (todo.erase k) := by
  have hold : ∀ {j}, j ∈ ws'.map Write.target ∨ j ∈ todo.erase k → j ∈ ws.map Write.target ∨
    j ∈ todo := by
    intro j hj
    rcases hj with hj | hj
    · rcases hws hj with rfl | hj
      · exact .inr hk
      · exact .inl hj
    · exact .inr (List.mem_of_mem_erase hj)
  exact ⟨fun hj => h.ofUser (hold hj),
    fun hi hj hne hr hr' => h.apart (hold hi) (List.mem_of_mem_erase hj) hne hr hr'⟩

/-- Tokens keep their user and their family. -/
theorem SweepsTokens.advance (h : SweepsTokens t userId ws todo)
    (hkept : ∀ {k r}, t.get k = some r → ∃ r', t'.get k = some r' ∧ Advanced r r') :
      SweepsTokens t' userId ws todo := by
  refine ⟨fun hk => ?_, fun {k j r r'} hk hj hne hr hr' hf => ?_⟩
  · obtain ⟨r, hr, hu⟩ := h.ofUser hk
    obtain ⟨r', hr', hadv⟩ := hkept hr
    exact ⟨r', hr', hadv.userId.trans hu⟩
  · obtain ⟨x, hx, -⟩ := h.ofUser hk
    obtain ⟨y, hy, -⟩ := h.ofUser (.inr hj)
    obtain ⟨x', hx', hadv⟩ := hkept hx
    obtain ⟨y', hy', hadv'⟩ := hkept hy
    obtain rfl := Option.some.inj (hx'.symm.trans hr)
    obtain rfl := Option.some.inj (hy'.symm.trans hr')
    exact h.apart hk hj hne hx hy (hadv.familyId.symm.trans (hf.trans hadv'.familyId))

/-- The unused links of a user, as an `UPDATE` on them is about to visit them. -/
theorem sweepsLinks_start : SweepsLinks place links userId [] (links.select (unusedOfUser userId)) := by
  refine ⟨fun hk => ?_, fun hk => absurd hk List.not_mem_nil⟩
  obtain ⟨r, hr, hp⟩ := Table.mem_select.mp hk
  simp only [unusedOfUser, Bool.and_eq_true, decide_eq_true_eq] at hp
  exact ⟨r, hr, hp.1⟩

/-- One more link is reached, before the others. -/
theorem SweepsLinks.visit (h : SweepsLinks place links userId ls todo) (hfirst : TakesFirst place todo k)
    (hls : ∀ {j}, j ∈ ls'.map Write.target → j = k ∨ j ∈ ls.map Write.target) :
    SweepsLinks place links userId ls' (todo.erase k) := by
  refine ⟨fun hj => h.ofUser (List.mem_of_mem_erase hj), fun {i j} hi hj => ?_⟩
  rcases hls hi with rfl | hi
  · exact hfirst j hj
  · exact h.inOrder hi (List.mem_of_mem_erase hj)

/-- Links keep their user. -/
theorem SweepsLinks.advance (h : SweepsLinks place links userId ls todo)
    (hkept : ∀ {k r}, links.get k = some r → ∃ r', links'.get k = some r' ∧ r'.userId = r.userId) :
    SweepsLinks place links' userId ls todo := by
  refine ⟨fun hk => ?_, h.inOrder⟩
  obtain ⟨r, hr, hu⟩ := h.ofUser hk
  obtain ⟨r', hr', hu'⟩ := hkept hr
  exact ⟨r', hr', hu'.trans hu⟩

end Sweeps

/-! ## The outline

What a call knows about the rows it has yet to reach, point by point. It survives the steps of the
others because tokens and links are never removed and never change their user or family. -/

/-- What a call knows about the rows it has yet to reach. -/
def Call.Ordered (place : Uuid → Nat) (db : Db C) : Call → Prop
  | .refresh (.theft p)         => p.stored.revokedAt.isSome ∨ p.stored.usedAt.isSome
  | .refresh (.sweep p todo tx) =>
      todo = [] ∨ ∃ x r, todo = [x] ∧ tx = {} ∧ db.refreshTokens.table.get x = some r ∧
      r.familyId = p.stored.familyId ∧
        db.refreshTokens.table.index p.stored.id < db.refreshTokens.table.index x
  | .resetPassword (.sweep _ user _ todo tx) =>
      SweepsTokens db.refreshTokens.table user.id tx.refreshTokens todo
  | .softDelete (.revokeAll _ tx) => tx.refreshTokens = [] ∧ tx.resetTokens = []
  | .softDelete (.sweepRefreshTokens id todo tx) =>
      SweepsTokens db.refreshTokens.table id tx.refreshTokens todo ∧ tx.resetTokens = []
  | .softDelete (.invalidateAll id tx) =>
      SweepsTokens db.refreshTokens.table id tx.refreshTokens [] ∧ tx.resetTokens = []
  | .softDelete (.sweepResetTokens id todo tx) =>
      SweepsTokens db.refreshTokens.table id tx.refreshTokens [] ∧
      SweepsLinks place db.resetTokens.table id tx.resetTokens todo
  | .forgotPassword (.sweep user _ todo tx) =>
      SweepsLinks place db.resetTokens.table user.id tx.resetTokens todo
  | _ => True

/-- What a step does to the tokens and links that are there: it keeps them, with their user and family,
    and their order. -/
structure Db.Kept (db db' : Db C) : Prop where
  tokens : ∀ {k r}, db.refreshTokens.table.get k = some r →
    ∃ r', db'.refreshTokens.table.get k = some r' ∧ Advanced r r'
  grows  : Table.Grows db.refreshTokens.table db'.refreshTokens.table
  links  : ∀ {k r}, db.resetTokens.table.get k = some r →
    ∃ r', db'.resetTokens.table.get k = some r' ∧ r'.userId = r.userId

variable {env : Env} {place : Uuid → Nat} {c d : C} {db db' : Db C} {call call' : Call}
  {a : Act} {o : Choice}

theorem TokenStep.grows (h : TokenStep env c db db' call call') :
    Table.Grows db.refreshTokens.table db'.refreshTokens.table := by
  cases h with
  | revoked rows _ => exact Table.RowWise.grows rows
  | opened _ _ row _ _ _ _ _ _ table _ =>
      rw [table]
      exact Table.grows_put _ _
  | rotated p user next now _ _ _ table _ =>
      rw [table]
      exact (Table.grows_put _ next).trans (Table.grows_put _ _)

theorem LinkStep.kept (h : LinkStep db db' call call') {k : Uuid} {r : PasswordResetToken}
    (hr : db.resetTokens.table.get k = some r) : ∃ r', db'.resetTokens.table.get k = some r' ∧
      r'.userId = r.userId := by
  cases h with
  | used rows =>
      obtain ⟨r', hr', ts, rfl, -⟩ := rows.get hr
      exact ⟨_, hr', rfl⟩
  | issued user metadata row _ newId table =>
      have hne : k ≠ row.id := Table.ne_of_get_none hr newId
      refine ⟨r, ?_, rfl⟩
      rw [table, Table.get_put_of_ne _ _ hne]
      exact hr

/-- No step takes a token or a link to another user, or to another place in its family. -/
theorem exec_kept [DecidableEq C] (h : exec env c db call a = some (db', call'))
    (hok : CallOk env c db call) :
    Db.Kept db db' where
  tokens {k r} hr := by
    obtain ⟨r', hr', hadv⟩ := (exec_tokens h hok).kept (Table.get_mem hr)
    have hkey : key r' = k := hadv.id.trans (Table.get_key hr)
    exact ⟨r', Table.get_eq_some.mpr ⟨hr', hkey⟩, hadv⟩
  grows := (exec_tokens h hok).grows
  links hr := (exec_links h hok).kept hr

/-- The outline survives the steps of the others. -/
theorem Call.Ordered.frame (h : call.Ordered place db) (hok : CallOk env c db call)
    (hk : Db.Kept db db') :
    call.Ordered place db' := by
  cases call with
  | session | logout | aborted => trivial
  | refresh pc =>
      cases pc with
      | theft p => exact h
      | sweep p todo tx =>
          refine Or.imp id (fun ⟨x, r, htodo, htx, hr, hf, hlt⟩ => ?_) h
          obtain ⟨r', hr', hadv⟩ := hk.tokens hr
          have hstored : db.refreshTokens.table.get p.stored.id = some p.stored := hok.1.1.1
          refine ⟨x, r', htodo, htx, hr', hadv.familyId.trans hf, ?_⟩
          rw [hk.grows.index hstored, hk.grows.index hr]
          exact hlt
      | _ => trivial
  | forgotPassword pc =>
      cases pc with
      | sweep user metadata todo tx => exact SweepsLinks.advance h hk.links
      | _ => trivial
  | resetPassword pc =>
      cases pc with
      | sweep record user passwordHash todo tx => exact SweepsTokens.advance h hk.tokens
      | _ => trivial
  | softDelete pc =>
      cases pc with
      | revokeAll id tx => exact h
      | sweepRefreshTokens id todo tx => exact ⟨h.1.advance hk.tokens, h.2⟩
      | invalidateAll id tx => exact ⟨h.1.advance hk.tokens, h.2⟩
      | sweepResetTokens id todo tx => exact ⟨h.1.advance hk.tokens, h.2.advance hk.links⟩
      | _ => trivial

/-! ### Own steps -/

section OwnSteps

variable [DecidableEq C] {tx tx' : Tx} {k : Uuid}

theorem Db.updateUser_others {f : User → User} (h : db.updateUser c tx k f = some (db', tx')) :
    tx'.refreshTokens = tx.refreshTokens ∧ tx'.resetTokens = tx.resetTokens := by
  simp only [Db.updateUser, Option.map_eq_some_iff, Prod.mk.injEq] at h
  obtain ⟨-, -, -, rfl⟩ := h
  exact ⟨rfl, rfl⟩

/-- One row of the `UPDATE` is visited. -/
theorem SweepsTokens.update {userId : Uuid} {todo : List Uuid} {p : RefreshToken → Bool}
    {f : RefreshToken → RefreshToken}
    (h : SweepsTokens db.refreshTokens.table userId tx.refreshTokens todo) (hk : k ∈ todo)
    (hupd : db.updateRefreshToken c tx k p f = some (db', tx')) (hkey : ∀ r, (f r).id = r.id) :
    SweepsTokens db'.refreshTokens.table userId tx'.refreshTokens (todo.erase k) := by
  rw [(Db.updateRefreshToken_inTx hupd).refreshTokensTable]
  simp only [Db.updateRefreshToken, Option.map_eq_some_iff, Prod.mk.injEq] at hupd
  obtain ⟨⟨st, ws⟩, hv, -, rfl⟩ := hupd
  exact h.visit hk fun hj => Store.mem_visit hv hkey hj

/-- One row of the `UPDATE` is visited, the first of those left in the order of the condition. -/
theorem SweepsLinks.update {userId : Uuid} {todo : List Uuid} {p : PasswordResetToken → Bool}
    {f : PasswordResetToken → PasswordResetToken}
    (h : SweepsLinks place db.resetTokens.table userId tx.resetTokens todo)
    (hfirst : TakesFirst place todo k)
    (hupd : db.updateResetToken c tx k p f = some (db', tx')) (hkey : ∀ r, (f r).id = r.id) :
    SweepsLinks place db'.resetTokens.table userId tx'.resetTokens (todo.erase k) := by
  rw [(Db.updateResetToken_inTx hupd).resetTokensTable]
  simp only [Db.updateResetToken, Option.map_eq_some_iff, Prod.mk.injEq] at hupd
  obtain ⟨⟨st, ws⟩, hv, -, rfl⟩ := hupd
  exact h.visit hfirst fun hj => Store.mem_visit hv hkey hj

/-- A refresh takes the token presented, and a theft branch the live one of its family, which comes
    later in it. -/
theorem Refresh.step_ordered {pc pc' : Refresh.Pc} (hs : Refresh.step env c db o pc = some (db', pc'))
    (hok : Refresh.Ok env c db pc) (hchained : Chained db.refreshTokens.table)
    (h : (Call.refresh pc).Ordered place db) :
    (Call.refresh pc').Ordered place db' := by
  cases pc with
  | start presented metadata =>
      rcases presented with _ | token
      · cases hs
        trivial
      · by_cases ht : token = ""
        · subst ht
          cases hs
          trivial
        · simp only [step, Option.map_eq_some_iff] at hs
          obtain ⟨⟨st, found⟩, -, hres⟩ := hs
          cases found with
          | none =>
              cases hres
              trivial
          | some stored =>
              cases hres
              unfold classify
              split
              · next hspent => simpa [Call.Ordered] using hspent
              · split <;> trivial
  | theft p =>
      cases hs
      have hstored : db.refreshTokens.table.get p.stored.id = some p.stored := hok.1.1
      apply Or.imp id ?_ (hchained.select_family hstored h)
      rintro ⟨x, r, htodo, hr, hf, hlt⟩
      exact ⟨x, r, htodo, rfl, hr, hf, hlt⟩
  | sweep p todo tx =>
      simp only [step] at hs
      split at hs
      · cases hs
        trivial
      · split at hs
        · next hmem =>
          obtain ⟨⟨db₁, tx₁⟩, -, hres⟩ := Option.map_eq_some_iff.mp hs
          cases hres
          -- there was one token, and it was this one
          rcases h with hnil | ⟨x, r, rfl, -⟩
          · exact absurd hnil ‹_›
          · left
            rw [List.mem_singleton.mp hmem]
            simp
        · cases hs
  | expired p =>
      obtain ⟨⟨db₁, tx₁⟩, -, hres⟩ := Option.map_eq_some_iff.mp hs
      cases hres
      trivial
  | findUser p =>
      simp only [step] at hs
      split at hs
      · split at hs <;> (cases hs; trivial)
      · cases hs
        trivial
  | insertNext p user =>
      obtain ⟨⟨db₁, tx₁⟩, -, hres⟩ := Option.map_eq_some_iff.mp hs
      cases hres
      trivial
  | linkNext p user next tx =>
      obtain ⟨⟨db₁, tx₁⟩, -, hres⟩ := Option.map_eq_some_iff.mp hs
      cases hres
      trivial
  | commit p tx outcome =>
      cases hs
      trivial
  | done | failed => cases hs

/-- A reset takes its link, then the row of its user, then live tokens. -/
theorem ResetPassword.step_ordered {pc pc' : ResetPassword.Pc}
    (hs : ResetPassword.step env c db o pc = some (db', pc'))
    (hok : ResetPassword.Ok c db pc) (hchained : Chained db.refreshTokens.table)
    (h : (Call.resetPassword pc).Ordered place db) : (Call.resetPassword pc').Ordered place db' := by
  cases pc with
  | start dto =>
      obtain ⟨⟨st, found⟩, -, hres⟩ := Option.map_eq_some_iff.mp hs
      cases found with
      | none =>
          cases hres
          trivial
      | some record =>
          simp only at hres
          split at hres <;> (cases hres; trivial)
  | findUser dto record =>
      simp only [step] at hs
      split at hs
      · split at hs <;> (cases hs; trivial)
      · cases hs
        trivial
  | setPassword dto record user =>
      obtain ⟨⟨db₁, tx₁⟩, -, hres⟩ := Option.map_eq_some_iff.mp hs
      cases hres
      trivial
  | markUsed record user passwordHash tx =>
      obtain ⟨⟨db₁, tx₁⟩, -, hres⟩ := Option.map_eq_some_iff.mp hs
      cases hres
      trivial
  | revokeAll record user passwordHash tx =>
      cases hs
      obtain ⟨-, -, -, -, -, hnone⟩ := hok
      show SweepsTokens db.refreshTokens.table user.id tx.refreshTokens _
      rw [hnone]
      exact hchained.sweepsTokens
  | sweep record user passwordHash todo tx =>
      simp only [step] at hs
      split at hs
      · cases hs
        trivial
      · split at hs
        · next hmem =>
          obtain ⟨⟨db₁, tx₁⟩, hupd, hres⟩ := Option.map_eq_some_iff.mp hs
          cases hres
          exact SweepsTokens.update h hmem hupd fun _ => rfl
        · cases hs
  | done | failed => cases hs

/-- A deletion takes the row of its user, then live tokens, then unused links. -/
theorem SoftDelete.step_ordered {pc pc' : SoftDelete.Pc}
    (hs : SoftDelete.step c db o pc = some (db', pc'))
    (hchained : Chained db.refreshTokens.table)
    (hfirst : ∀ id todo tx, pc = .sweepResetTokens id todo tx → TakesFirst place todo o.row)
    (h : (Call.softDelete pc).Ordered place db) : (Call.softDelete pc').Ordered place db' := by
  cases pc with
  | start id actingUserId =>
      simp only [step] at hs
      split at hs
      · cases hs
        trivial
      · split at hs <;> (cases hs; trivial)
  | delete id =>
      obtain ⟨⟨db₁, tx₁⟩, hupd, hres⟩ := Option.map_eq_some_iff.mp hs
      cases hres
      exact Db.updateUser_others hupd
  | revokeAll id tx =>
      cases hs
      refine ⟨?_, h.2⟩
      rw [h.1]
      exact hchained.sweepsTokens
  | sweepRefreshTokens id todo tx =>
      simp only [step] at hs
      split at hs
      · next hnil =>
        cases hs
        subst hnil
        exact h
      · split at hs
        · next hmem =>
          obtain ⟨⟨db₁, tx₁⟩, hupd, hres⟩ := Option.map_eq_some_iff.mp hs
          cases hres
          exact ⟨SweepsTokens.update h.1 hmem hupd fun _ => rfl,
            (Db.updateRefreshToken_others hupd).2.trans h.2⟩
        · cases hs
  | invalidateAll id tx =>
      cases hs
      refine ⟨h.1, ?_⟩
      rw [h.2]
      exact sweepsLinks_start
  | sweepResetTokens id todo tx =>
      simp only [step] at hs
      split at hs
      · cases hs
        trivial
      · split at hs
        · obtain ⟨⟨db₁, tx₁⟩, hupd, hres⟩ := Option.map_eq_some_iff.mp hs
          cases hres
          refine ⟨?_, SweepsLinks.update h.2 (hfirst id todo tx rfl) hupd fun _ => rfl⟩
          rw [(Db.updateResetToken_inTx hupd).refreshTokensTable, (Db.updateResetToken_others hupd).2]
          exact h.1
        · cases hs
  | done | failed => cases hs

/-- A request for a link takes unused links only. -/
theorem ForgotPassword.step_ordered {pc pc' : ForgotPassword.Pc}
    (hs : ForgotPassword.step env c db o pc = some (db', pc'))
    (hfirst : ∀ user metadata todo tx, pc = .sweep user metadata todo tx → TakesFirst place todo o.row)
    (h : (Call.forgotPassword pc).Ordered place db) : (Call.forgotPassword pc').Ordered place db' := by
  cases pc with
  | start dto metadata =>
      simp only [step] at hs
      split at hs
      · cases hs
        trivial
      · split at hs <;> (cases hs; trivial)
  | invalidate user metadata =>
      cases hs
      exact sweepsLinks_start
  | sweep user metadata todo tx =>
      simp only [step] at hs
      split at hs
      · cases hs
        trivial
      · split at hs
        · obtain ⟨⟨db₁, tx₁⟩, hupd, hres⟩ := Option.map_eq_some_iff.mp hs
          cases hres
          exact SweepsLinks.update h (hfirst user metadata todo tx rfl) hupd fun _ => rfl
        · cases hs
  | save user metadata =>
      obtain ⟨⟨st, ws⟩, -, hres⟩ := Option.map_eq_some_iff.mp hs
      cases hres
      trivial
  | done => cases hs

end OwnSteps

/-! ## The invariant

The outline of every call, the locks of every call, and that no user has a reset and a deletion in
progress. The last part is what the condition gives. -/

section Invariant

variable [DecidableEq C] {s t u : State C} {userId : Uuid}

/-- **Own step** of the outline, where the call takes its rows in the order of the condition. -/
theorem exec_ordered (hcond : inLockOrder env place t c a) (hok : CallOk env c t.shared (t.calls c))
    (hchained : Chained t.shared.refreshTokens.table) (h : (t.calls c).Ordered place t.shared)
    (hstep : exec env c t.shared (t.calls c) a = some (db', call')) : call'.Ordered place db' := by
  unfold inLockOrder at hcond
  generalize t.calls c = call at *
  rcases exec_cases hstep with ⟨-, -, rfl, rfl⟩ | ⟨o, pc, pc', -, rfl, rfl, -⟩ |
    ⟨o, pc, pc', -, rfl, rfl, hs⟩ |
    ⟨o, pc, pc', -, rfl, rfl, -⟩ | ⟨o, pc, pc', rfl, rfl, rfl, hs⟩ | ⟨o, pc, pc', -, rfl, rfl, hs⟩ |
    ⟨o, pc, pc', rfl, rfl, rfl, hs⟩
  · trivial
  · trivial
  · exact Refresh.step_ordered hs hok hchained h
  · trivial
  · refine ForgotPassword.step_ordered hs (fun user metadata todo tx he => ?_) h
    subst he
    exact hcond
  · exact ResetPassword.step_ordered hs hok hchained h
  · refine SoftDelete.step_ordered hs hchained (fun id todo tx he => ?_) h
    subst he
    exact hcond

/-- A call has a usable link locked because it just locked it, or had before. -/
theorem exec_resets (h : exec env c db call a = some (db', call')) (hu : call'.resets = some userId) :
    call.resets = some userId ∨ ∃ o dto record, a = .run o ∧ call = .resetPassword (.start dto) ∧
      db.resetTokens.table.find? (fun r => r.tokenHash = env.hashToken dto.token) = some record ∧
      (record.usedAt.isSome || record.expiresAt < o.now) = false ∧ record.userId = userId := by
  rcases exec_cases h with ⟨-, -, -, rfl⟩ | ⟨o, pc, pc', -, rfl, rfl, hs⟩ |
    ⟨o, pc, pc', -, rfl, rfl, hs⟩ |
    ⟨o, pc, pc', -, rfl, rfl, hs⟩ | ⟨o, pc, pc', -, rfl, rfl, hs⟩ | ⟨o, pc, pc', rfl, rfl, rfl, hs⟩ |
    ⟨o, pc, pc', -, rfl, rfl, hs⟩
  · cases hu
  · cases hu
  · cases hu
  · cases hu
  · cases hu
  · cases pc with
    | start dto =>
        obtain ⟨⟨st, found⟩, hsel, hres⟩ := Option.map_eq_some_iff.mp hs
        cases found with
        | none =>
            cases hres
            cases hu
        | some record =>
            simp only at hres
            split at hres
            · cases hres
              cases hu
            · next husable =>
              cases hres
              refine .inr ⟨o, dto, record, rfl, rfl, ?_, by simpa using husable, Option.some.inj hu⟩
              unfold Store.selectForUpdate at hsel
              split at hsel
              · cases hsel
              · next r hr =>
                split at hsel
                · cases hsel
                  exact hr
                · cases hsel
    | findUser dto record =>
        simp only [ResetPassword.step] at hs
        split at hs
        · split at hs
          · cases hs
            exact .inl hu
          · cases hs
            cases hu
        · cases hs
          cases hu
    | setPassword dto record user =>
        obtain ⟨r, -, hres⟩ := Option.map_eq_some_iff.mp hs
        cases hres
        exact .inl hu
    | markUsed record user passwordHash tx =>
        obtain ⟨r, -, hres⟩ := Option.map_eq_some_iff.mp hs
        cases hres
        exact .inl hu
    | revokeAll record user passwordHash tx =>
        cases hs
        exact .inl hu
    | sweep record user passwordHash todo tx =>
        simp only [ResetPassword.step] at hs
        split at hs
        · cases hs
          cases hu
        · split at hs
          · obtain ⟨r, -, hres⟩ := Option.map_eq_some_iff.mp hs
            cases hres
            exact .inl hu
          · cases hs
    | done | failed => cases hs
  · cases hu

/-- A call is deleting a user because it just locked the row, or was before. -/
theorem exec_deletes (h : exec env c db call a = some (db', call')) (hu : call'.deletes = some userId) :
    call.deletes = some userId ∨ ∃ o, a = .run o ∧ call = .softDelete (.delete userId) := by
  rcases exec_cases h with ⟨-, -, -, rfl⟩ | ⟨o, pc, pc', -, rfl, rfl, hs⟩ |
    ⟨o, pc, pc', -, rfl, rfl, hs⟩ |
    ⟨o, pc, pc', -, rfl, rfl, hs⟩ | ⟨o, pc, pc', -, rfl, rfl, hs⟩ | ⟨o, pc, pc', -, rfl, rfl, hs⟩ |
    ⟨o, pc, pc', rfl, rfl, rfl, hs⟩
  · cases hu
  · cases hu
  · cases hu
  · cases hu
  · cases hu
  · cases hu
  · cases pc with
    | start id actingUserId =>
        simp only [SoftDelete.step] at hs
        split at hs
        · cases hs
          cases hu
        · split at hs <;> (cases hs; cases hu)
    | delete id =>
        obtain ⟨r, -, hres⟩ := Option.map_eq_some_iff.mp hs
        cases hres
        obtain rfl := Option.some.inj hu
        exact .inr ⟨o, rfl, rfl⟩
    | revokeAll id tx =>
        cases hs
        exact .inl hu
    | sweepRefreshTokens id todo tx =>
        simp only [SoftDelete.step] at hs
        split at hs
        · cases hs
          exact .inl hu
        · split at hs
          · obtain ⟨r, -, hres⟩ := Option.map_eq_some_iff.mp hs
            cases hres
            exact .inl hu
          · cases hs
    | invalidateAll id tx =>
        cases hs
        exact .inl hu
    | sweepResetTokens id todo tx =>
        simp only [SoftDelete.step] at hs
        split at hs
        · cases hs
          cases hu
        · split at hs
          · obtain ⟨r, -, hres⟩ := Option.map_eq_some_iff.mp hs
            cases hres
            exact .inl hu
          · cases hs
    | done | failed => cases hs

/-- No user has a password reset and a deletion in progress. -/
def Apart (calls : C → Call) : Prop :=
  ∀ {c d userId}, (calls c).resets = some userId → (calls d).deletes ≠ some userId

/-- A reset and a deletion of one user do not come together, by the condition. -/
theorem step_apart (h : Apart t.calls) (hcond : inLockOrder env place t c a)
    (hstep : exec env c t.shared (t.calls c) a = some (db', call')) :
      Apart (Function.update t.calls c call') := by
  intro d e userId hd he
  by_cases hdc : d = c <;> by_cases hec : e = c
  · -- one call is not both
    subst hdc
    rw [Function.update_self] at hd
    rw [hec, Function.update_self] at he
    cases call' with
    | resetPassword pc => cases he
    | _ => cases hd
  · subst hdc
    rw [Function.update_self] at hd
    rw [Function.update_of_ne hec] at he
    rcases exec_resets hstep hd with hold | ⟨o, dto, record, rfl, hcall, hfind, husable, rfl⟩
    · exact h hold he
    · simp only [inLockOrder, hcall, hfind] at hcond
      exact hcond husable e he
  · rw [Function.update_of_ne hdc] at hd
    rw [hec, Function.update_self] at he
    rcases exec_deletes hstep he with hold | ⟨o, rfl, hcall⟩
    · exact h hd hold
    · simp only [inLockOrder, hcall] at hcond
      exact hcond d hd
  · rw [Function.update_of_ne hdc] at hd
    rw [Function.update_of_ne hec] at he
    exact h hd he

/-- **The invariant**: the outlines of all calls, the locks that each of them holds, the order in which
    it takes them, and that no user has a reset and a deletion in progress. -/
structure LockInvariant (env : Env) (place : Uuid → Nat) (t : State C) : Prop where
  ok      : ∀ c, CallOk env c t.shared (t.calls c)
  chained : Chained t.shared.refreshTokens.table
  covered : ∀ c, (t.calls c).Covered c t.shared
  ordered : ∀ c, (t.calls c).Ordered place t.shared
  apart   : Apart t.calls

/-- **One step keeps it**: by the step of the call that moves, and for the others because what they rely
    on is kept. -/
theorem LockInvariant.step (h : LockInvariant env place t) (hcond : inLockOrder env place t c a)
    (hst : Pool.step (exec env) t c a = some u) : LockInvariant env place u := by
  obtain ⟨db', call', hc, rfl⟩ := Pool.step_cases hst
  have hown := exec_ok hc (h.ok c)
  have hcov := exec_covered hc (h.covered c)
  have hkept := exec_kept hc (h.ok c)
  refine ⟨fun d => ?_, (exec_tokens hc (h.ok c)).chained h.chained, fun d => ?_, fun d => ?_,
    step_apart h.apart hcond hc⟩
  · by_cases hd : d = c
    · subst hd
      simpa using hown.1
    · simpa [Function.update_of_ne hd] using (h.ok d).frame hown.2 hd
  · by_cases hd : d = c
    · subst hd
      simpa using hcov.2
    · show Call.Covered d db' (Function.update t.calls c call' d)
      rw [Function.update_of_ne hd]
      exact (h.covered d).frame hcov.1 hd
  · by_cases hd : d = c
    · subst hd
      simpa using exec_ordered hcond (h.ok d) h.chained (h.ordered d) hc
    · simpa [Function.update_of_ne hd] using (h.ordered d).frame (h.ok d) hkept

omit [DecidableEq C] in
theorem request_ordered (h : call.IsRequest) : call.Ordered place db := by
  cases call with
  | refresh pc => cases pc <;> trivial
  | forgotPassword pc => cases pc <;> trivial
  | resetPassword pc => cases pc <;> trivial
  | softDelete pc => cases pc <;> trivial
  | session | logout | aborted => trivial

omit [DecidableEq C] in
theorem request_resets (h : call.IsRequest) : call.resets = none := by
  cases call with
  | resetPassword pc =>
      cases pc with
      | start dto => rfl
      | _ => exact h.elim
  | _ => rfl

omit [DecidableEq C] in
theorem Initial.lockInvariant (hi : Initial s) (hunlocked : s.shared.Unlocked) :
    LockInvariant env place s where
  ok c      := callOk_request (hi.requests c)
  chained   := (initial_families hi : FamilyInvariant env s).chained
  covered c := hunlocked.covered
  ordered c := request_ordered (hi.requests c)
  apart {c d userId} hc := by
    rw [request_resets (hi.requests c)] at hc
    cases hc

/-- **Every reachable state** satisfies the invariant, in a run that keeps to the lock order. -/
theorem reachable_lockInvariant (hr : Pool.Run (exec env) (inLockOrder env place) s t) (hi : Initial s)
    (hunlocked : s.shared.Unlocked) : LockInvariant env place t :=
  hr.invariant (fun h hcond hst => h.step hcond hst) (hi.lockInvariant hunlocked)

end Invariant

end NestApp
