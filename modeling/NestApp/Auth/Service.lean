import NestApp.Auth.Refresh
import NestApp.Auth.Session
import NestApp.Auth.PasswordReset
import NestApp.Users.SoftDelete

/-!
# `Auth.Service` — the account operations, interleaved

A call is one execution of one operation; the pool of calls interleaves any number of them over the
database (`exec`). A run starts with calls that have not begun, over any `users` table, without tokens (`Initial`).

`CallOk` collects the proof outlines of the operations; `reachable_ok` is the interleaving rule applied
once: every call is at a point its outline allows, in every reachable state. `exec_tokens`,
`exec_users` and `exec_links` say, table by table, everything one step of one call can commit; the
later modules argue from these and never open an operation again.

An operation of this pool may stop at any point with an error of the infrastructure (`Act`), which
rolls its transaction back and leaves what it had committed before. So what holds in every run here
also holds when connections are lost.
-/

namespace NestApp

open Sql

variable {C : Type} [DecidableEq C]

/-- A call, at one of its program points. The points of an operation are those of the module that models
    it. -/
inductive Call where
  | session (pc : Session.Pc)
  | refresh (pc : Refresh.Pc)
  | logout (pc : Logout.Pc)
  | forgotPassword (pc : ForgotPassword.Pc)
  | resetPassword (pc : ResetPassword.Pc)
  | softDelete (pc : SoftDelete.Pc)
  | aborted

/-- A request whose execution has not begun. These are the calls that come from outside. -/
def Call.IsRequest : Call → Prop
  | .session (.login ..) | .session (.register ..) | .refresh (.start ..) | .logout (.start _)
  | .forgotPassword (.start ..) | .resetPassword (.start _) | .softDelete (.start ..) => True
  | _ => False

/-- The call has returned or thrown. -/
def Call.finished : Call → Bool
  | .session (.done ..) | .session (.failed _) | .refresh (.done ..) | .refresh (.failed _)
  | .logout .done | .forgotPassword (.done _) | .resetPassword (.done ..) | .resetPassword (.failed _)
  | .softDelete (.done _) | .softDelete (.failed _) | .aborted => true
  | _ => false

/-- The code of the calls. A call that aborts rolls back, wherever it stands: its process has died, or a
    statement was refused. -/
def exec (env : Env) : Pool.Code (Db C) Call Act C := fun c db call a =>
  match a, call with
  | .abort, call => if call.finished then none else some (db.rollback c, .aborted)
  | .run o, .session pc        => (Session.step env c db o pc).map fun r => (r.1, .session r.2)
  | .run o, .refresh pc        => (Refresh.step env c db o pc).map fun r => (r.1, .refresh r.2)
  | .run o, .logout pc         => (Logout.step env c db o pc).map fun r => (r.1, .logout r.2)
  | .run o, .forgotPassword pc =>
      (ForgotPassword.step env c db o pc).map fun r => (r.1, .forgotPassword r.2)
  | .run o, .resetPassword pc  =>
      (ResetPassword.step env c db o pc).map fun r => (r.1, .resetPassword r.2)
  | .run o, .softDelete pc     => (SoftDelete.step c db o pc).map fun r => (r.1, .softDelete r.2)
  | .run _, .aborted           => none

/-- The database and the calls over it. -/
abbrev State (C : Type) := Pool.Config (Db C) Call C

/-- A side condition on the steps of a run. -/
abbrev StepCondition (C : Type) := Pool.Allowed (Db C) Call Act C

/-- No tokens yet, any users; every call is still a request. So every token of a run was issued in it. -/
structure Initial (s : State C) : Prop where
  requests      : ∀ c, (s.calls c).IsRequest
  refreshTokens : s.shared.refreshTokens.table = Table.empty
  resetTokens   : s.shared.resetTokens.table = Table.empty

/-- The proof outline of a call: the one of the operation it executes, at the point it has reached. -/
def CallOk (env : Env) (c : C) (db : Db C) : Call → Prop
  | .refresh pc        => Refresh.Ok env c db pc
  | .forgotPassword pc => ForgotPassword.Ok c db pc
  | .resetPassword pc  => ResetPassword.Ok c db pc
  | .softDelete pc     => SoftDelete.Ok c db pc
  | _                  => True

variable {env : Env} {c d : C} {db db' : Db C} {call call' : Call} {a : Act} {o : Choice} {userId : Uuid}
  {hash : String}

/-- The cases of a step: an abort, or a step of the operation the call executes. -/
theorem exec_cases (h : exec env c db call a = some (db', call')) :
    (a = .abort ∧ call.finished = false ∧ db' = db.rollback c ∧ call' = .aborted) ∨
    (∃ o pc pc', a = .run o ∧ call = .session pc ∧ call' = .session pc' ∧
      Session.step env c db o pc = some (db', pc')) ∨
    (∃ o pc pc', a = .run o ∧ call = .refresh pc ∧ call' = .refresh pc' ∧
      Refresh.step env c db o pc = some (db', pc')) ∨
    (∃ o pc pc', a = .run o ∧ call = .logout pc ∧ call' = .logout pc' ∧
      Logout.step env c db o pc = some (db', pc')) ∨
    (∃ o pc pc', a = .run o ∧ call = .forgotPassword pc ∧ call' = .forgotPassword pc' ∧
      ForgotPassword.step env c db o pc = some (db', pc')) ∨
    (∃ o pc pc', a = .run o ∧ call = .resetPassword pc ∧ call' = .resetPassword pc' ∧
      ResetPassword.step env c db o pc = some (db', pc')) ∨
    (∃ o pc pc', a = .run o ∧ call = .softDelete pc ∧ call' = .softDelete pc' ∧
      SoftDelete.step c db o pc = some (db', pc')) := by
  cases a with
  | abort =>
      simp only [exec] at h
      split at h
      · cases h
      · next hf =>
        cases h
        exact .inl ⟨rfl, by simpa using hf, rfl, rfl⟩
  | run o =>
      cases call with
      | session pc =>
          obtain ⟨⟨db₁, pc'⟩, hs, hr⟩ := Option.map_eq_some_iff.mp h
          cases hr
          exact .inr (.inl ⟨o, pc, pc', rfl, rfl, rfl, hs⟩)
      | refresh pc =>
          obtain ⟨⟨db₁, pc'⟩, hs, hr⟩ := Option.map_eq_some_iff.mp h
          cases hr
          exact .inr (.inr (.inl ⟨o, pc, pc', rfl, rfl, rfl, hs⟩))
      | logout pc =>
          obtain ⟨⟨db₁, pc'⟩, hs, hr⟩ := Option.map_eq_some_iff.mp h
          cases hr
          exact .inr (.inr (.inr (.inl ⟨o, pc, pc', rfl, rfl, rfl, hs⟩)))
      | forgotPassword pc =>
          obtain ⟨⟨db₁, pc'⟩, hs, hr⟩ := Option.map_eq_some_iff.mp h
          cases hr
          exact .inr (.inr (.inr (.inr (.inl ⟨o, pc, pc', rfl, rfl, rfl, hs⟩))))
      | resetPassword pc =>
          obtain ⟨⟨db₁, pc'⟩, hs, hr⟩ := Option.map_eq_some_iff.mp h
          cases hr
          exact .inr (.inr (.inr (.inr (.inr (.inl ⟨o, pc, pc', rfl, rfl, rfl, hs⟩)))))
      | softDelete pc =>
          obtain ⟨⟨db₁, pc'⟩, hs, hr⟩ := Option.map_eq_some_iff.mp h
          cases hr
          exact .inr (.inr (.inr (.inr (.inr (.inr ⟨o, pc, pc', rfl, rfl, rfl, hs⟩)))))
      | aborted => cases h

theorem exec_abort (h : exec env c db call .abort = some (db', call')) :
    db' = db.rollback c ∧ call' = .aborted := by
  simp only [exec] at h
  split at h
  · cases h
  · cases h
    exact ⟨rfl, rfl⟩

/-- A call that has returned or thrown does nothing any more. -/
theorem exec_running (h : exec env c db call a = some (db', call')) : call.finished = false := by
  rcases exec_cases h with ⟨-, hf, -, -⟩ | ⟨o, pc, pc', -, rfl, -, hs⟩ | ⟨o, pc, pc', -, rfl, -, hs⟩ |
    ⟨o, pc, pc', -, rfl, -, hs⟩ | ⟨o, pc, pc', -, rfl, -, hs⟩ | ⟨o, pc, pc', -, rfl, -, hs⟩ |
    ⟨o, pc, pc', -, rfl, -, hs⟩
  -- a call that can be aborted is running; one that takes a step is at a point with a successor
  · exact hf
  · cases pc with
    | done | failed => cases hs
    | _ => rfl
  · cases pc with
    | done | failed => cases hs
    | _ => rfl
  · cases pc with
    | done => cases hs
    | _ => rfl
  · cases pc with
    | done => cases hs
    | _ => rfl
  · cases pc with
    | done | failed => cases hs
    | _ => rfl
  · cases pc with
    | done | failed => cases hs
    | _ => rfl

/-- **Own step.** A step keeps the outline of its call, and frames what the others have locked. With
    `CallOk.frame` this is all a run needs. -/
theorem exec_ok (h : exec env c db call a = some (db', call')) (hok : CallOk env c db call) :
    CallOk env c db' call' ∧ Db.Frame c db db' := by
  rcases exec_cases h with ⟨-, -, rfl, rfl⟩ | ⟨o, pc, pc', -, rfl, rfl, hs⟩ |
    ⟨o, pc, pc', -, rfl, rfl, hs⟩ |
    ⟨o, pc, pc', -, rfl, rfl, hs⟩ | ⟨o, pc, pc', -, rfl, rfl, hs⟩ | ⟨o, pc, pc', -, rfl, rfl, hs⟩ |
    ⟨o, pc, pc', -, rfl, rfl, hs⟩
  · exact ⟨trivial, Db.frame_rollback⟩
  · exact ⟨trivial, Session.step_frame hs⟩
  · exact ⟨Refresh.step_ok hs hok, Refresh.step_frame hs hok⟩
  · exact ⟨trivial, (Logout.step_versions hs).1⟩
  · exact ForgotPassword.step_ok hs hok
  · exact ResetPassword.step_ok hs hok
  · exact ⟨(SoftDelete.step_ok hs hok).1, (SoftDelete.step_ok hs hok).2.1⟩

omit [DecidableEq C] in
/-- The outline of a call survives the steps of the others. -/
theorem CallOk.frame (h : CallOk env c db call) (hf : Db.Frame d db db') (hd : c ≠ d) :
    CallOk env c db' call := by
  cases call with
  | refresh pc => exact Refresh.Ok.frame h hf hd
  | forgotPassword pc => exact ForgotPassword.Ok.frame h hf hd
  | resetPassword pc => exact ResetPassword.Ok.frame h hf hd
  | softDelete pc => exact SoftDelete.Ok.frame h hf hd
  | session | logout | aborted => trivial

omit [DecidableEq C] in
theorem callOk_request (h : call.IsRequest) : CallOk env c db call := by
  cases call with
  | refresh pc => cases pc <;> trivial
  | forgotPassword pc => cases pc <;> trivial
  | resetPassword pc => cases pc <;> trivial
  | softDelete pc => cases pc <;> trivial
  | session | logout | aborted => trivial

/-! ## What one step commits

Three lemmas, one for each table, list everything a step can publish. `TokenStep`, `UserStep` and
`LinkStep` are the only moves the later modules ever look at; that the operations make no others is
shown here once. -/

/-- The refresh token a call has handed out. Its row was committed before the answer. -/
def Call.issued : Call → Option RefreshToken
  | .session (.done _ row)            => some row
  | .refresh (.done _ _ (.ok _ next)) => some next
  | _                                 => none

theorem issued_session {pc : Session.Pc} (h : ∀ user row, pc ≠ .done user row) :
    (Call.session pc).issued = none := by
  cases pc with
  | done user row => exact absurd rfl (h user row)
  | _ => rfl

theorem issued_refresh {pc : Refresh.Pc}
    (h : ∀ token stored user next, pc ≠ .done token stored (.ok user next)) :
    (Call.refresh pc).issued = none := by
  cases pc with
  | done token stored outcome =>
      cases outcome with
      | ok user next => exact absurd rfl (h token stored user next)
      | _ => rfl
  | _ => rfl

/-- One step, on `refresh_tokens`: tokens are revoked, a family is opened, or a family is extended. The
    three exclude each other, and no step does more than one of them. -/
inductive TokenStep (env : Env) (c : C) (db db' : Db C) : Call → Call → Prop where
  | revoked {call call' : Call}
      (rows : Table.RowWise Revoked db.refreshTokens.table db'.refreshTokens.table)
      (noToken : call'.issued = none) : TokenStep env c db db' call call'
  | opened (user : User) (metadata : SessionMetadata) (row : RefreshToken)
      (userId : row.userId = user.id) (live : row.Live) (last : row.replacedByTokenId = none)
      (newFamily : ∀ r ∈ db.refreshTokens.table.rows, r.familyId ≠ row.familyId)
      (newId : db.refreshTokens.table.get row.id = none) (newHash : db.hashIndex row.tokenHash = none)
      (table : db'.refreshTokens.table = db.refreshTokens.table.put row)
      (hashIndex : db'.hashIndex row.tokenHash = some row.id) :
      TokenStep env c db db' (.session (.createSession user metadata)) (.session (.done user row))
  | rotated (p : Refresh.Presented) (user : User) (next : RefreshToken) (now : Nat)
      (held : p.Held env c db)
      (live : p.stored.Live) (isNext : Refresh.IsNext c db p user next)
      (table : db'.refreshTokens.table
        = (db.refreshTokens.table.put next).put (rotate now next.id p.stored))
      (hashIndex : db'.hashIndex next.tokenHash = some next.id) :
      TokenStep env c db db' (.refresh (.commit p (Refresh.rotation now p.stored next) (.ok user next)))
        (.refresh (.done p.token (some p.stored) (.ok user next)))

/-- **One step on `refresh_tokens`.** What the results about sessions use of a step is in `TokenStep`. -/
theorem exec_tokens (h : exec env c db call a = some (db', call')) (hok : CallOk env c db call) :
    TokenStep env c db db' call call' := by
  rcases exec_cases h with ⟨-, -, rfl, rfl⟩ | ⟨o, pc, pc', -, rfl, rfl, hs⟩ |
    ⟨o, pc, pc', -, rfl, rfl, hs⟩ |
    ⟨o, pc, pc', -, rfl, rfl, hs⟩ | ⟨o, pc, pc', -, rfl, rfl, hs⟩ | ⟨o, pc, pc', -, rfl, rfl, hs⟩ |
    ⟨o, pc, pc', -, rfl, rfl, hs⟩
  · exact .revoked Db.versions_rollback.refreshTokens rfl
  · rcases Session.step_tokens hs with ⟨ht, hpc⟩ |
      ⟨user, metadata, row, rfl, rfl, rfl, hfam, hnew, hidx, ht, hi⟩
    · exact .revoked (ht ▸ .refl Revoked.refl _) (issued_session hpc)
    · exact .opened user metadata _ rfl ⟨rfl, rfl⟩ rfl hfam hnew hidx ht hi
  · -- only the commit of a rotation adds a row; every other step revokes
    rcases Refresh.step_tokens hs hok with ⟨hrows, hpc⟩ | ⟨p, user, next, now, rfl, rfl, ht⟩
    · exact .revoked hrows (issued_refresh hpc)
    · have hf := Refresh.step_frame hs hok
      obtain ⟨hp, hl, hn, -⟩ := hok
      exact .rotated p user next now hp hl hn ht (hf.hashIndex hn.hashIndex)
  · exact .revoked (Logout.step_versions hs).2.2.refreshTokens rfl
  · rcases ForgotPassword.step_cases hs hok with ⟨-, hv, -⟩ | ⟨user, metadata, -, -, -, -, rfl⟩
    · exact .revoked hv.refreshTokens rfl
    · exact .revoked (.refl Revoked.refl _) rfl
  · exact .revoked (ResetPassword.step_versions hs hok).refreshTokens rfl
  · exact .revoked (SoftDelete.step_ok hs hok).2.2.refreshTokens rfl

/-- A rollback publishes nothing, whichever call it ends. -/
theorem tokenStep_rollback : TokenStep env c db (db.rollback c) .aborted .aborted :=
  .revoked Db.versions_rollback.refreshTokens rfl

/-- A later version of a refresh token: the same token, and revoked if it was. Whether it was used may
    have changed. -/
structure Advanced (r r' : RefreshToken) : Prop where
  id        : r'.id = r.id
  tokenHash : r'.tokenHash = r.tokenHash
  userId    : r'.userId = r.userId
  familyId  : r'.familyId = r.familyId
  revokedAt : r.revokedAt.isSome → r'.revokedAt.isSome

theorem Advanced.refl (r : RefreshToken) : Advanced r r := ⟨rfl, rfl, rfl, rfl, fun hr => hr⟩

theorem Advanced.trans {r r' r'' : RefreshToken} (h : Advanced r r') (h' : Advanced r' r'') :
    Advanced r r'' :=
  ⟨h'.id.trans h.id, h'.tokenHash.trans h.tokenHash, h'.userId.trans h.userId,
    h'.familyId.trans h.familyId, fun hr => h'.revokedAt (h.revokedAt hr)⟩

theorem Revoked.advanced {r r' : RefreshToken} (h : Revoked r r') : Advanced r r' := by
  obtain ⟨ts, rfl, hts⟩ := h
  exact ⟨rfl, rfl, rfl, rfl, hts⟩

theorem advanced_rotate (now : Nat) (k : Uuid) (r : RefreshToken) : Advanced r (rotate now k r) :=
  ⟨rfl, rfl, rfl, rfl, fun _ => rfl⟩

omit [DecidableEq C] in
/-- A token, once committed, stays: no step deletes one. -/
theorem TokenStep.kept (h : TokenStep env c db db' call call') {r : RefreshToken}
    (hr : r ∈ db.refreshTokens.table.rows) : ∃ r' ∈ db'.refreshTokens.table.rows, Advanced r r' := by
  have hget := Table.get_of_mem hr
  cases h with
  | revoked rows _ =>
      obtain ⟨r', hr', hrev⟩ := rows.get hget
      exact ⟨r', Table.get_mem hr', hrev.advanced⟩
  | opened user metadata row _ _ _ _ newId _ table _ =>
      refine ⟨r, ?_, .refl r⟩
      rw [table, Table.rows_put_new newId]
      exact List.mem_append_left _ hr
  | rotated p user next now held live isNext table _ =>
      -- the token presented is overwritten by its rotated version, every other row is kept
      by_cases hk : r.id = p.stored.id
      · have hr : r = p.stored := Table.eq_of_key_eq hr (Table.get_mem held.1.1) hk
        subst hr
        refine ⟨rotate now next.id p.stored, ?_, advanced_rotate _ _ _⟩
        rw [table]
        exact Table.mem_put.mpr (.inl rfl)
      · have hn : r.id ≠ next.id := Table.ne_of_get_none hget isNext.new
        refine ⟨r, Table.get_mem (k := r.id) ?_, .refl r⟩
        rw [table, Table.get_put_of_ne _ _ hk, Table.get_put_of_ne _ _ hn]
        exact hget

omit [DecidableEq C] in
/-- A committed token is a version of one committed before, or the one the call hands out: that one is
    live, and its hash is its own. -/
theorem TokenStep.origin (h : TokenStep env c db db' call call') {r' : RefreshToken}
    (hr' : r' ∈ db'.refreshTokens.table.rows) :
    (∃ r ∈ db.refreshTokens.table.rows, Advanced r r') ∨
      (call'.issued = some r' ∧ r'.Live ∧ db'.hashIndex r'.tokenHash = some r'.id) := by
  have hget := Table.get_of_mem hr'
  cases h with
  | revoked rows _ =>
      obtain ⟨r, hr, hrev⟩ := rows.get_new hget
      exact .inl ⟨r, Table.get_mem hr, hrev.advanced⟩
  | opened user metadata row _ live _ _ newId _ table hashIndex =>
      rw [table, Table.rows_put_new newId, List.mem_append, List.mem_singleton] at hr'
      rcases hr' with hr' | rfl
      · exact .inl ⟨r', hr', .refl r'⟩
      · exact .inr ⟨rfl, live, hashIndex⟩
  | rotated p user next now held live isNext table hashIndex =>
      -- the last write wins: first the rotated row, then the new one, then the old table
      rw [table, Table.get_put, Table.get_put] at hget
      split at hget
      · obtain rfl := Option.some.inj hget
        exact .inl ⟨p.stored, Table.get_mem held.1.1, advanced_rotate now next.id p.stored⟩
      · split at hget
        · obtain rfl := Option.some.inj hget
          exact .inr ⟨rfl, isNext.live, hashIndex⟩
        · exact .inl ⟨r', Table.get_mem hget, .refl r'⟩

omit [DecidableEq C] in
/-- A token handed out is the first of a new family, or extends the family of a live token. -/
theorem TokenStep.issued (h : TokenStep env c db db' call call') {r' : RefreshToken}
    (hi : call'.issued = some r') :
    (∃ user metadata, call = .session (.createSession user metadata) ∧ call' = .session (.done user r') ∧
        r'.userId = user.id ∧ ∀ r ∈ db.refreshTokens.table.rows, r.familyId ≠ r'.familyId) ∨
      ∃ p tx user, call = .refresh (.commit p tx (.ok user r')) ∧
        p.stored ∈ db.refreshTokens.table.rows ∧
        p.stored.Live ∧ r'.familyId = p.stored.familyId ∧ r'.userId = p.stored.userId := by
  cases h with
  | revoked _ noToken =>
      rw [noToken] at hi
      cases hi
  | opened user metadata row userId _ _ newFamily _ _ _ _ =>
      cases hi
      exact .inl ⟨user, metadata, rfl, rfl, userId, newFamily⟩
  | rotated p user next now held live isNext _ _ =>
      cases hi
      exact .inr ⟨p, _, user, rfl, Table.get_mem held.1.1, live, isNext.familyId, isNext.userId⟩

omit [DecidableEq C] in
/-- A live token was live before, or is handed out now. -/
theorem TokenStep.live_origin (h : TokenStep env c db db' call call') {r' : RefreshToken}
    (hr' : r' ∈ db'.refreshTokens.table.rows) (hlive : r'.revokedAt = none) :
    (∃ r ∈ db.refreshTokens.table.rows, Advanced r r' ∧ r.revokedAt = none) ∨
      call'.issued = some r' := by
  rcases h.origin hr' with ⟨r, hr, hadv⟩ | ⟨hissued, -, -⟩
  · refine .inl ⟨r, hr, hadv, ?_⟩
    cases hrev : r.revokedAt with
    | none => rfl
    | some _ => simpa [hlive] using hadv.revokedAt (by rw [hrev]; rfl)
  · exact .inr hissued

/-- One step, on `users`: a user is created, gets a new password, or is deleted. In each case the two
    points of the call say which. -/
inductive UserStep (env : Env) (db db' : Db C) : Call → Call → Prop where
  | kept {call call' : Call} (table : db'.users.table = db.users.table)
      (noReset : ∀ record user hash, call' ≠ .resetPassword (.done record user hash))
      (noDelete : ∀ id, call' ≠ .softDelete (.done id)) : UserStep env db db' call call'
  | created (dto : RegisterDto) (metadata : SessionMetadata) (user : User)
      (newId : db.users.table.get user.id = none) (table : db'.users.table = db.users.table.put user) :
      UserStep env db db' (.session (.createUser dto metadata)) (.session (.createSession user metadata))
  | reset (record : PasswordResetToken) (user u : User) (hash : String) (now : Nat) (tx : Tx)
      (row : db.users.table.get user.id = some u)
      (table : db'.users.table = db.users.table.put (ResetPassword.withPassword hash now u)) :
      UserStep env db db' (.resetPassword (.sweep record user hash [] tx))
        (.resetPassword (.done record user hash))
  | deleted (id : Uuid) (u : User) (now : Nat) (tx : Tx) (row : db.users.table.get id = some u)
      (table : db'.users.table = db.users.table.put (SoftDelete.withDeletedAt now u)) :
      UserStep env db db' (.softDelete (.sweepResetTokens id [] tx)) (.softDelete (.done id))

/-- **One step on `users`.** What the results about passwords use of a step is in `UserStep`. -/
theorem exec_users (h : exec env c db call a = some (db', call')) (hok : CallOk env c db call) :
    UserStep env db db' call call' := by
  rcases exec_cases h with ⟨-, -, rfl, rfl⟩ | ⟨o, pc, pc', -, rfl, rfl, hs⟩ |
    ⟨o, pc, pc', -, rfl, rfl, hs⟩ |
    ⟨o, pc, pc', -, rfl, rfl, hs⟩ | ⟨o, pc, pc', -, rfl, rfl, hs⟩ | ⟨o, pc, pc', -, rfl, rfl, hs⟩ |
    ⟨o, pc, pc', -, rfl, rfl, hs⟩
  · exact .kept rfl (by simp) (by simp)
  · rcases Session.step_cases hs with ⟨rfl, -⟩ | ⟨dto, metadata, rfl, rfl, hnew, -, rfl⟩ |
      ⟨user, metadata, db₁, -, -, -, hins, rfl⟩
    · exact .kept rfl (by simp) (by simp)
    · exact .created dto metadata _ hnew rfl
    · exact .kept (by simp [Db.commit, (Db.insertRefreshToken_inTx hins).usersTable]) (by simp) (by simp)
  · exact .kept (Refresh.step_others hs hok).1 (by simp) (by simp)
  · exact .kept (Logout.step_versions hs).2.1 (by simp) (by simp)
  · rcases ForgotPassword.step_cases hs hok with ⟨-, -, hu, -⟩ | ⟨user, metadata, -, -, -, -, rfl⟩
    · exact .kept hu (by simp) (by simp)
    · exact .kept rfl (by simp) (by simp)
  · rcases ResetPassword.step_cases hs hok with ⟨hi, -, hpc⟩ | ⟨rfl, rfl⟩ |
      ⟨record, user, hash, tx, rfl, rfl, rfl⟩
    · exact .kept hi.usersTable (by simpa using hpc) (by simp)
    · exact .kept rfl (by simp) (by simp)
    · obtain ⟨-, -, -, ⟨u, now, hu, hh, htx⟩, -⟩ := hok
      refine .reset record user u hash now tx (hu ▸ hh.1) ?_
      simp [Db.commit, htx, Table.view_cons, Table.write]
  · rcases SoftDelete.step_cases hs hok with ⟨hi, -, hpc⟩ | ⟨id, tx, rfl, rfl, rfl⟩
    · exact .kept hi.usersTable (by simp) (by simpa using hpc)
    · obtain ⟨-, u, now, hu, hh, htx⟩ := hok
      refine .deleted id u now tx (hu ▸ hh.1) ?_
      simp [Db.commit, htx, Table.view_cons, Table.write]

/-- The committed password hash of an account. -/
def Db.passwordHash (db : Db C) (userId : Uuid) : Option String :=
  (db.users.table.get userId).map User.passwordHash

omit [DecidableEq C] in
/-- The password hashes after one account is stored. -/
theorem passwordHash_put {x : User} (table : db'.users.table = db.users.table.put x) {k : Uuid} :
    db'.passwordHash k = if k = x.id then some x.passwordHash else db.passwordHash k := by
  rw [Db.passwordHash, table, Table.get_put, key_user]
  split
  · rfl
  · rfl

/-- Storing a version of one account leaves a version of every account. -/
theorem rewritten_put {users : Table User} {k k' : Uuid} {row x x' : User} (hx : users.get k' = some x)
    (hv : Rewritten x x') (hrow : users.get k = some row) :
    ∃ row', (users.put x').get k = some row' ∧ Rewritten row row' := by
  have hid : x'.id = k' := hv.id_eq.trans (Table.get_key hx)
  rw [Table.get_put, key_user, hid]
  by_cases hk : k = k'
  · -- `k` is the account stored
    rw [hk, hx] at hrow
    obtain rfl := Option.some.inj hrow
    rw [if_pos hk]
    exact ⟨x', rfl, hv⟩
  · rw [if_neg hk]
    exact ⟨row, hrow, .refl row⟩

omit [DecidableEq C] in
/-- A user row, once there, stays, in versions that never undo a deletion. -/
theorem UserStep.rewritten (h : UserStep env db db' call call') {k : Uuid} {row : User}
    (hrow : db.users.table.get k = some row) : ∃ row', db'.users.table.get k = some row' ∧
      Rewritten row row' := by
  cases h with
  | kept table _ _ => exact ⟨row, table ▸ hrow, .refl row⟩
  | created dto metadata user newId table =>
      have hne : k ≠ user.id := Table.ne_of_get_none hrow newId
      rw [table, Table.get_put_of_ne _ _ hne]
      exact ⟨row, hrow, .refl row⟩
  | reset record user x hash now tx old table =>
      rw [table]
      exact rewritten_put old (ResetPassword.rewritten_withPassword hash now x) hrow
  | deleted id x now tx old table =>
      rw [table]
      exact rewritten_put old (SoftDelete.rewritten_withDeletedAt now x) hrow

omit [DecidableEq C] in
/-- The commit of `softDelete` marks the account as deleted. -/
theorem UserStep.deletes {k : Uuid} (h : UserStep env db db' call (.softDelete (.done k))) :
    ∃ row, db'.users.table.get k = some row ∧ row.deletedAt.isSome := by
  cases h with
  | kept _ _ noDelete => exact absurd rfl (noDelete k)
  | deleted _ x now tx old table =>
      have hid : (SoftDelete.withDeletedAt now x).id = k := Table.get_key old
      refine ⟨SoftDelete.withDeletedAt now x, ?_, rfl⟩
      rw [table, Table.get_put, key_user, hid, if_pos rfl]

omit [DecidableEq C] in
/-- What a step does to the password of an account: nothing, unless it is the commit of a reset. -/
theorem UserStep.passwordHash (h : UserStep env db db' call call')
    (hp : db.passwordHash userId = some hash) :
    db'.passwordHash userId = some hash ∨
      ∃ record user hash' tx, call = .resetPassword (.sweep record user hash' [] tx) ∧
        call' = .resetPassword (.done record user hash') ∧ user.id = userId ∧
        db'.passwordHash userId = some hash' := by
  -- only the commit of a reset writes another hash, and only on its own user
  cases h with
  | kept table _ _ =>
      rw [Db.passwordHash, table]
      exact .inl hp
  | created dto metadata user newId table =>
      have hne : userId ≠ user.id := by
        rintro rfl
        rw [Db.passwordHash, newId] at hp
        cases hp
      rw [passwordHash_put table, if_neg hne]
      exact .inl hp
  | reset record user x hash' now tx old table =>
      have hid : (ResetPassword.withPassword hash' now x).id = user.id := Table.get_key old
      rw [passwordHash_put table, hid]
      by_cases hu : userId = user.id
      · rw [if_pos hu]
        exact .inr ⟨record, user, hash', tx, rfl, rfl, hu.symm, rfl⟩
      · rw [if_neg hu]
        exact .inl hp
  | deleted id x now tx old table =>
      have hid : (SoftDelete.withDeletedAt now x).id = id := Table.get_key old
      rw [passwordHash_put table, hid]
      by_cases hu : userId = id
      · -- the row stored has the hash of the row it replaces
        rw [if_pos hu]
        rw [Db.passwordHash, hu, old] at hp
        exact .inl hp
      · rw [if_neg hu]
        exact .inl hp

omit [DecidableEq C] in
/-- The commit of a reset sets the password. -/
theorem UserStep.reset_passwordHash {record : PasswordResetToken} {user : User}
    (h : UserStep env db db' call (.resetPassword (.done record user hash))) :
    db'.passwordHash user.id = some hash := by
  cases h with
  | kept _ noReset _ => exact absurd rfl (noReset record user hash)
  | reset _ _ x _ now tx old table =>
      have hid : (ResetPassword.withPassword hash now x).id = user.id := Table.get_key old
      rw [passwordHash_put table, hid, if_pos rfl]
      rfl

/-- One step, on `password_reset_tokens`: links are used up, or one is issued. -/
inductive LinkStep (db db' : Db C) : Call → Call → Prop where
  | used {call call' : Call} (rows : Table.RowWise Used db.resetTokens.table db'.resetTokens.table) :
      LinkStep db db' call call'
  | issued (user : User) (metadata : SessionMetadata) (row : PasswordResetToken)
      (userId : row.userId = user.id) (newId : db.resetTokens.table.get row.id = none)
      (table : db'.resetTokens.table = db.resetTokens.table.put row) :
      LinkStep db db' (.forgotPassword (.save user metadata)) (.forgotPassword (.done (some row)))

theorem linkStep_rollback : LinkStep db (db.rollback c) .aborted .aborted :=
  .used Db.versions_rollback.resetTokens

/-- **One step on `password_reset_tokens`.** -/
theorem exec_links (h : exec env c db call a = some (db', call')) (hok : CallOk env c db call) :
    LinkStep db db' call call' := by
  rcases exec_cases h with ⟨-, -, rfl, rfl⟩ | ⟨o, pc, pc', -, rfl, rfl, hs⟩ |
    ⟨o, pc, pc', -, rfl, rfl, hs⟩ |
    ⟨o, pc, pc', -, rfl, rfl, hs⟩ | ⟨o, pc, pc', -, rfl, rfl, hs⟩ | ⟨o, pc, pc', -, rfl, rfl, hs⟩ |
    ⟨o, pc, pc', -, rfl, rfl, hs⟩
  · exact .used Db.versions_rollback.resetTokens
  · exact .used ((Session.step_others hs).2 ▸ .refl Used.refl _)
  · exact .used (Refresh.step_others hs hok).2
  · exact .used (Logout.step_versions hs).2.2.resetTokens
  · rcases ForgotPassword.step_cases hs hok with ⟨-, hv, -⟩ | ⟨user, metadata, rfl, rfl, hnew, -, rfl⟩
    · exact .used hv.resetTokens
    · exact .issued user metadata _ rfl hnew rfl
  · exact .used (ResetPassword.step_versions hs hok).resetTokens
  · exact .used (SoftDelete.step_ok hs hok).2.2.resetTokens

variable {s t : State C} {ok : StepCondition C}

/-- **Every reachable call is at a point its outline allows**, whatever the tables were when the
    requests came in. -/
theorem reachable_callOk (hr : Pool.Run (exec env) ok s t) (hreq : ∀ c, (s.calls c).IsRequest) :
    ∀ c, CallOk env c t.shared (t.calls c) := by
  -- a call's own step re-establishes its outline, and a step of another call frames it
  refine (hr.local_invariant (G := fun _ => True) (L := fun c db call => CallOk env c db call)
    (J := fun _ => True) (fun _ => trivial) ?_ ?_ ⟨trivial, fun c => callOk_request (hreq c)⟩).2
  · intro t c a db' call' _ _ hL _ hstep
    exact ⟨trivial, (exec_ok hstep (hL c)).1⟩
  · intro t c a db' call' d _ _ hL _ hstep hd
    exact (hL d).frame (exec_ok hstep (hL c)).2 hd

theorem reachable_ok (hr : Pool.Run (exec env) ok s t) (hi : Initial s) :
    ∀ c, CallOk env c t.shared (t.calls c) :=
  reachable_callOk hr hi.requests

/-! ## Small instances

A deployment whose hashes are the values themselves, for runs on fixed requests. -/

def toyEnv : Env where
  toLowerCase        := String.toLower
  citextLower        := String.toLower
  hashToken          := fun token => token
  hashPassword       := fun _ password => password
  verifyPassword     := fun hash password => hash = password
  refreshExpiresInMs := 1000
  resetTokenTtlMs    := 1000

def uuidA : Uuid := ⟨"a", by decide +kernel⟩
def uuidB : Uuid := ⟨"b", by decide +kernel⟩
def uuidC : Uuid := ⟨"c", by decide +kernel⟩
def uuidD : Uuid := ⟨"d", by decide +kernel⟩
def uuidE : Uuid := ⟨"e", by decide +kernel⟩

/-- An active account whose password is `"old"`. -/
def alice : User where
  id              := uuidA
  email           := "a@b.co"
  passwordHash    := "old"
  firstName       := none
  lastName        := none
  status          := .active
  emailVerifiedAt := none
  createdAt       := 0
  updatedAt       := 0
  deletedAt       := none

/-- A choice at time `now`: the row id `id`, the token value `token`, the row to visit `row`. -/
def Choice.at (now : Nat) (id : Uuid) (token : String) (row : Uuid) : Choice where
  now      := now
  id       := id
  familyId := uuidA
  token    := token
  salt     := ""
  row      := row

/-- Only `alice` exists, and `requests` have come in. -/
def boot (n : Nat) (requests : List Call) : State (Fin n) where
  shared := {
    users         := ⟨Table.empty.put alice, fun _ => none⟩
    refreshTokens := ⟨Table.empty, fun _ => none⟩
    resetTokens   := ⟨Table.empty, fun _ => none⟩
    hashIndex     := fun _ => none }
  calls c := requests.getD c (.logout (.start none))

theorem initial_boot {n : Nat} {requests : List Call} (h : ∀ call ∈ requests, call.IsRequest) :
    Initial (boot n requests) where
  requests c := by
    change (requests.getD c.val (.logout (.start none))).IsRequest
    rw [List.getD_eq_getElem?_getD]
    cases hc : requests[c.val]? with
    | none => trivial
    | some call => exact h call (List.mem_of_getElem? hc)
  refreshTokens := rfl
  resetTokens   := rfl

/-- A finished call stays as it is. -/
theorem finished_stays (hr : Pool.Run (exec env) ok s t) (hf : (s.calls c).finished) :
    t.calls c = s.calls c :=
  hr.halted (F := fun call => call.finished) (fun hc => by simp [exec_running hc]) hf

end NestApp
