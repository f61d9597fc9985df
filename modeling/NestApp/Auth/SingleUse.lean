import NestApp.Auth.Service

/-!
# `Auth.SingleUse` — a reset link lets one reset succeed

`resetPassword` locks the row of its link before it looks at `usedAt`, and keeps the lock up to the
commit that marks the row; `forgotPassword` and `softDelete` mark rows without looking first, but their
`UPDATE`s wait for that lock and check `used_at IS NULL` again. So a row is unused whenever a reset
commits with it (`ResetCommit`), and used ever after.

`reset_tokens_single_use` collects what follows for every run, from any tables: one success a row, none
on a row that was used before, the password, the mark and the revocations in one commit, and no trace
of a reset or a deletion that fails.

Two things do not hold. The expiry is checked where the row is read, and the commit comes later, after
the hashing. And a `forgotPassword` that fails between its two statements has already marked the
earlier links.
-/

namespace NestApp

open Sql

/-! ## What the property speaks about

A success belongs to a row: the link the call has read and locked. The definitions here say when a call
has succeeded with a row, what its commit does to the tables, and when a call has failed. -/

/-- The link a reset has read and locked. -/
def ResetPassword.Pc.record : ResetPassword.Pc → Option PasswordResetToken
  | .findUser _ record | .setPassword _ record _ | .markUsed record _ _ _ | .revokeAll record _ _ _
  | .sweep record _ _ _ _ | .done record _ _ => some record
  | .start _ | .failed _ => none

def Call.record : Call → Option PasswordResetToken
  | .resetPassword pc => pc.record
  | _                 => none

/-- The call is a reset that has succeeded with the link of row `k`. -/
def Call.SucceededOn (call : Call) (k : Uuid) : Prop :=
  ∃ record user hash, call = .resetPassword (.done record user hash) ∧ record.id = k

/-- The call is `resetPassword` or `softDelete`: one transaction. -/
def Call.inOneTransaction : Call → Bool
  | .resetPassword _ | .softDelete _ => true
  | _                                => false

/-- The call has thrown, or was stopped. -/
def Call.Failed (call : Call) : Prop :=
  call.finished ∧ (∀ record user hash, call ≠ .resetPassword (.done record user hash)) ∧
    ∀ id, call ≠ .softDelete (.done id)

section

variable {C : Type}

/-- Row `k` of `password_reset_tokens` is marked as used. -/
def Db.LinkUsed (db : Db C) (k : Uuid) : Prop :=
  ∃ r, db.resetTokens.table.get k = some r ∧ r.usedAt.isSome

/-- No table differs; locks may. -/
structure SameTables (db db' : Db C) : Prop where
  users         : db'.users.table = db.users.table
  refreshTokens : db'.refreshTokens.table = db.refreshTokens.table
  resetTokens   : db'.resetTokens.table = db.resetTokens.table

/-- In state `t` call `c` reads the link it was given: unused, and not expired by the clock of that
    step. -/
structure ReadsLink (env : Env) (t : State C) (c : C) (a : Act)
    (record : PasswordResetToken) : Prop where
  request : ∃ dto, t.calls c = .resetPassword (.start dto) ∧ record.tokenHash = env.hashToken dto.token
  row     : t.shared.resetTokens.table.get record.id = some record
  unused  : record.usedAt = none
  fresh   : ∃ o, a = .run o ∧ o.now ≤ record.expiresAt

/-- **The commit of a reset**, between `t` and `u`: the link, unused before, is marked; the password of
    its user is set; refresh tokens are revoked; all in one step. -/
structure ResetCommit (t u : State C) (c : C) (record : PasswordResetToken) (hash : String) : Prop where
  running  : (t.calls c).finished = false
  done     : ∃ user, u.calls c = .resetPassword (.done record user hash) ∧ user.id = record.userId
  row      : t.shared.resetTokens.table.get record.id = some record
  unused   : record.usedAt = none
  used     : ∃ now, u.shared.resetTokens.table = t.shared.resetTokens.table.put (markUsed now record)
  password : ∃ user now, t.shared.users.table.get record.userId = some user ∧
    u.shared.users.table = t.shared.users.table.put (ResetPassword.withPassword hash now user)
  revoked  : Table.RowWise Revoked t.shared.refreshTokens.table u.shared.refreshTokens.table

variable [DecidableEq C] {env : Env} {c d : C} {db db' : Db C} {call call' : Call} {a : Act}
  {o : Choice} {s t u v : State C}
  {record : PasswordResetToken} {user : User} {hash : String} {k : Uuid} {ok : StepCondition C}

omit [DecidableEq C] in
theorem SameTables.of_inTx (h : Db.InTx c db db') : SameTables db db' :=
  ⟨h.usersTable, h.refreshTokensTable, h.resetTokensTable⟩

theorem sameTables_rollback : SameTables db (db.rollback c) := ⟨rfl, rfl, rfl⟩

/-! ## Steps

The step that makes a reset successful is its commit, and there the row goes from unused to used. Every
other step of such a call changes no table at all. -/

/-- A step that leaves a reset successful is its commit. -/
theorem commit_of_done (hst : Pool.step (exec env) t c a = some u)
    (hok : CallOk env c t.shared (t.calls c))
    (hdone : u.calls c = .resetPassword (.done record user hash)) : ResetCommit t u c record hash := by
  obtain ⟨db', call', hc, heq⟩ := Pool.step_cases hst
  have hcall : call' = .resetPassword (.done record user hash) := by
    rw [heq] at hdone
    simpa using hdone
  have hshared : u.shared = db' := by rw [heq]
  have hrunning := exec_running hc
  subst hcall
  rcases exec_cases hc with ⟨-, -, -, he⟩ | ⟨o, pc, pc', -, -, he, -⟩ | ⟨o, pc, pc', -, -, he, -⟩ |
    ⟨o, pc, pc', -, -, he, -⟩ | ⟨o, pc, pc', -, -, he, -⟩ | ⟨o, pc, pc', -, hpc, he, hs⟩ |
    ⟨o, pc, pc', -, -, he, -⟩
  case inr.inr.inr.inr.inr.inl =>
    cases he
    rw [hpc] at hok
    rcases ResetPassword.step_cases hs hok with ⟨-, -, hne⟩ | ⟨-, hf⟩ |
      ⟨record', user', hash', tx, rfl, hdone', rfl⟩
    · exact absurd rfl (hne record user hash)
    · cases hf
    · cases hdone'
      -- the outline of the call says what it holds and what its buffer stores
      obtain ⟨⟨hheld, hunused⟩, huser, hmarks, ⟨x, now, hx, hstored, hputUser⟩, now', hputLink⟩ := hok
      have hid : x.id = record.userId := hx.trans huser
      refine ⟨hrunning, ⟨user, hdone, huser⟩, hheld.1, hunused, ⟨now', ?_⟩, ⟨x, now, ?_, ?_⟩, ?_⟩
      · rw [hshared]
        simp [Db.commit, hputLink, Table.view_cons, Table.write]
      · rw [← hid]
        exact hstored.1
      · rw [hshared]
        simp [Db.commit, hputUser, Table.view_cons, Table.write]
      · rw [hshared]
        exact hmarks.versions.refreshTokens
  all_goals cases he

/-- **A step of `resetPassword` or `softDelete`** leaves the tables alone, or ends the call with
    success. -/
theorem step_inOneTransaction (hst : Pool.step (exec env) t c a = some u)
    (hok : CallOk env c t.shared (t.calls c))
    (hcall : (t.calls c).inOneTransaction) :
    ((u.calls c).inOneTransaction ∨ u.calls c = .aborted) ∧ (SameTables t.shared u.shared ∨
      (∃ record user hash, u.calls c = .resetPassword (.done record user hash)) ∨
        ∃ id, u.calls c = .softDelete (.done id)) := by
  obtain ⟨db', call', hc, rfl⟩ := Pool.step_cases hst
  simp only [Function.update_self]
  rcases exec_cases hc with ⟨-, -, rfl, rfl⟩ | ⟨o, pc, pc', -, hpc, -, -⟩ | ⟨o, pc, pc', -, hpc, -, -⟩ |
    ⟨o, pc, pc', -, hpc, -, -⟩ | ⟨o, pc, pc', -, hpc, -, -⟩ | ⟨o, pc, pc', -, hpc, rfl, hs⟩ |
    ⟨o, pc, pc', -, hpc, rfl, hs⟩
  · exact ⟨.inr rfl, .inl sameTables_rollback⟩
  case inr.inr.inr.inr.inr.inl =>
    rw [hpc] at hok
    refine ⟨.inl rfl, ?_⟩
    rcases ResetPassword.step_cases hs hok with ⟨hi, -, -⟩ | ⟨rfl, -⟩ |
      ⟨record, user, hash, tx, -, rfl, -⟩
    · exact .inl (.of_inTx hi)
    · exact .inl sameTables_rollback
    · exact .inr (.inl ⟨record, user, hash, rfl⟩)
  case inr.inr.inr.inr.inr.inr =>
    rw [hpc] at hok
    refine ⟨.inl rfl, ?_⟩
    rcases SoftDelete.step_cases hs hok with ⟨hi, -, -⟩ | ⟨id, tx, -, rfl, -⟩
    · exact .inl (.of_inTx hi)
    · exact .inr (.inr ⟨id, rfl⟩)
  all_goals
    rw [hpc] at hcall
    cases hcall

omit [DecidableEq C] in
/-- A used row stays used. -/
theorem LinkStep.linkUsed (h : LinkStep db db' call call') (hk : db.LinkUsed k) : db'.LinkUsed k := by
  obtain ⟨r, hr, hused⟩ := hk
  cases h with
  | used rows =>
      obtain ⟨r', hr', ts, rfl, hts⟩ := rows.get hr
      exact ⟨_, hr', hts hused⟩
  | issued user metadata row userId newId table =>
      have hne : k ≠ row.id := Table.ne_of_get_none hr newId
      refine ⟨r, ?_, hused⟩
      rw [table, Table.get_put_of_ne _ _ hne]
      exact hr

theorem linkUsed_step (hst : Pool.step (exec env) t c a = some u)
    (hok : CallOk env c t.shared (t.calls c))
    (hk : t.shared.LinkUsed k) : u.shared.LinkUsed k := by
  obtain ⟨db', call', hc, rfl⟩ := Pool.step_cases hst
  exact (exec_links hc hok).linkUsed hk

omit [DecidableEq C] in
/-- The row of a committed reset was not used before, and is now. -/
theorem ResetCommit.link (h : ResetCommit t u c record hash) :
    ¬ t.shared.LinkUsed record.id ∧ u.shared.LinkUsed record.id := by
  constructor
  · rintro ⟨r, hr, hused⟩
    rw [h.row] at hr
    rw [← Option.some.inj hr, h.unused] at hused
    cases hused
  · obtain ⟨now, htable⟩ := h.used
    refine ⟨markUsed now record, ?_, rfl⟩
    rw [htable, Table.get_put]
    exact if_pos rfl

/-! ## Runs

A used row stays used, and a success needs an unused one: so there is one success for each row, in any
run from any tables. -/

/-- A reset never succeeds on a row that is already used: in every later state the successes with that
    row are old ones. -/
theorem succeeded_before (hr : Pool.Run (exec env) ok t u)
    (hok : ∀ {v : State C}, Pool.Run (exec env) ok t v → ∀ c, CallOk env c v.shared (v.calls c))
    (hk : t.shared.LinkUsed k) :
    u.shared.LinkUsed k ∧ ∀ c, (u.calls c).SucceededOn k → t.calls c = u.calls c := by
  refine hr.invariant_with (I := fun v => v.shared.LinkUsed k ∧ ∀ c, (v.calls c).SucceededOn k →
    t.calls c = v.calls c)
    (J := fun v => ∀ c, CallOk env c v.shared (v.calls c)) hok ?_ ⟨hk, fun _ _ => rfl⟩
  rintro v d a w hJ ⟨hused, hold⟩ _ hst
  refine ⟨linkUsed_step hst (hJ d) hused, fun c hc => ?_⟩
  by_cases hcd : c = d
  · subst hcd
    -- its commit would have found the row unused
    obtain ⟨record, user, hash, hdone, rfl⟩ := hc
    exact absurd hused (commit_of_done hst (hJ c) hdone).link.1
  · rw [Pool.step_calls_ne hst hcd] at hc ⊢
    exact hold c hc

/-- **One success a row.** The row of a success is used, and no two calls share it. -/
theorem reachable_once (hr : Pool.Run (exec env) ok s t) (hreq : ∀ c, (s.calls c).IsRequest) :
    (∀ c k, (t.calls c).SucceededOn k → t.shared.LinkUsed k) ∧
      ∀ c d k, (t.calls c).SucceededOn k → (t.calls d).SucceededOn k → c = d := by
  refine hr.invariant_with
    (I := fun v => (∀ c k, (v.calls c).SucceededOn k → v.shared.LinkUsed k) ∧
      ∀ c d k, (v.calls c).SucceededOn k → (v.calls d).SucceededOn k → c = d)
    (J := fun v => ∀ c, CallOk env c v.shared (v.calls c)) (fun hr' => reachable_callOk hr' hreq) ?_ ?_
  · rintro v e a w hJ ⟨hused, honce⟩ _ hst
    -- a success of the call that moves is new, so it is the only one with its row
    have hnew : ∀ {k}, (w.calls e).SucceededOn k → ¬ v.shared.LinkUsed k ∧ w.shared.LinkUsed k := by
      rintro k ⟨record, user, hash, hdone, rfl⟩
      exact (commit_of_done hst (hJ e) hdone).link
    have hold : ∀ {c k}, c ≠ e → (w.calls c).SucceededOn k → (v.calls c).SucceededOn k := by
      intro c k hce hc
      rwa [Pool.step_calls_ne hst hce] at hc
    constructor
    · intro c k hc
      by_cases hce : c = e
      · subst hce
        exact (hnew hc).2
      · exact linkUsed_step hst (hJ e) (hused c k (hold hce hc))
    · intro c d k hc hd
      by_cases hce : c = e <;> by_cases hde : d = e
      · rw [hce, hde]
      · subst hce
        exact absurd (hused d k (hold hde hd)) (hnew hc).1
      · subst hde
        exact absurd (hused c k (hold hce hc)) (hnew hd).1
      · exact honce c d k (hold hce hc) (hold hde hd)
  · have hnone : ∀ c k, ¬ (s.calls c).SucceededOn k := by
      rintro c k ⟨record, user, hash, hdone, -⟩
      have hreqc := hreq c
      rw [hdone] at hreqc
      cases hreqc
    exact ⟨fun c k hc => absurd hc (hnone c k), fun c d k hc => absurd hc (hnone c k)⟩

/-! ## What a call has read

The expiry is compared with the clock when the row is read, in the first step of the transaction, and
never again. -/

/-- The link is read, and checked, in the first step; later steps keep it. -/
theorem ResetPassword.step_record {pc pc' : ResetPassword.Pc}
    (hs : ResetPassword.step env c db o pc = some (db', pc'))
    (h : pc'.record = some record) : pc.record = some record ∨
      ∃ dto, pc = .start dto ∧ record.tokenHash = env.hashToken dto.token ∧
        db.resetTokens.table.get record.id = some record ∧ record.usedAt = none ∧
          o.now ≤ record.expiresAt := by
  cases pc with
  | start dto =>
      obtain ⟨⟨st, found⟩, hsel, hres⟩ := Option.map_eq_some_iff.mp hs
      rcases Store.selectForUpdate_cases hsel with ⟨rfl, -⟩ | ⟨r, rfl, hp, -, -, hheld⟩
      · cases hres
        cases h
      · simp only at hres
        split at hres
        · cases hres
          cases h
        · next hfresh =>
          cases hres
          obtain rfl : r = record := Option.some.inj h
          simp only [Bool.or_eq_true, not_or, decide_eq_true_eq, Nat.not_lt,
            Option.not_isSome_iff_eq_none] at hfresh
          have hrow : db.resetTokens.table.get r.id = some r := by
            rw [← (Store.selectForUpdate_frame hsel).2.1]
            exact hheld.1
          exact .inr ⟨dto, rfl, by simpa using hp, hrow, hfresh.1, hfresh.2⟩
  | findUser dto r =>
      simp only [ResetPassword.step] at hs
      split at hs
      · split at hs
        · cases hs
          exact .inl h
        · cases hs
          cases h
      · cases hs
        cases h
  | setPassword dto r user =>
      obtain ⟨x, -, hres⟩ := Option.map_eq_some_iff.mp hs
      cases hres
      exact .inl h
  | markUsed r user hash tx =>
      obtain ⟨x, -, hres⟩ := Option.map_eq_some_iff.mp hs
      cases hres
      exact .inl h
  | revokeAll r user hash tx =>
      cases hs
      exact .inl h
  | sweep r user hash todo tx =>
      simp only [ResetPassword.step] at hs
      split at hs
      · cases hs
        exact .inl h
      · split at hs
        · obtain ⟨x, -, hres⟩ := Option.map_eq_some_iff.mp hs
          cases hres
          exact .inl h
        · cases hs
  | done | failed => cases hs

theorem step_record (hst : Pool.step (exec env) t c a = some u) (h : (u.calls c).record = some record) :
    (t.calls c).record = some record ∨ ReadsLink env t c a record := by
  obtain ⟨db', call', hc, rfl⟩ := Pool.step_cases hst
  simp only [Function.update_self] at h
  rcases exec_cases hc with ⟨-, -, -, rfl⟩ | ⟨o, pc, pc', -, -, rfl, -⟩ | ⟨o, pc, pc', -, -, rfl, -⟩ |
    ⟨o, pc, pc', -, -, rfl, -⟩ | ⟨o, pc, pc', -, -, rfl, -⟩ | ⟨o, pc, pc', ha, hpc, rfl, hs⟩ |
    ⟨o, pc, pc', -, -, rfl, -⟩
  case inr.inr.inr.inr.inr.inl =>
    rw [hpc]
    rcases ResetPassword.step_record hs h with hkept | ⟨dto, rfl, hhash, hrow, hunused, hfresh⟩
    · exact .inl hkept
    · exact .inr ⟨⟨dto, hpc, hhash⟩, hrow, hunused, o, ha, hfresh⟩
  all_goals cases h

/-! ## What a reset revokes

The tokens of the account that were there when the `UPDATE` began. A token is followed from there: it
is yet to be visited, or marked in the buffer, or revoked. -/

/-- The call has not yet begun the `UPDATE` on `refresh_tokens`. -/
def Call.beforeRevoking : Call → Bool
  | .resetPassword (.start _) | .resetPassword (.findUser ..) | .resetPassword (.setPassword ..)
  | .resetPassword (.markUsed ..) | .resetPassword (.revokeAll ..) => true
  | _ => false

/-- What a reset has to do about the refresh token with id `k`: while it visits rows the token is on its
    list or marked, and in the end it is revoked. -/
def TokenSwept (db : Db C) (k : Uuid) : Call → Prop
  | .resetPassword (.sweep _ user _ todo tx) =>
      db.refreshTokens.SweptAt tx.refreshTokens (liveOfUser user.id) todo k
  | .resetPassword (.done _ user _) =>
      ∀ r, db.refreshTokens.table.get k = some r → r.userId = user.id → r.revokedAt.isSome
  | _ => True

/-- **Own step.** The list begins with the live tokens of the account, and each visit takes one off
    it. -/
theorem step_tokenSwept {pc pc' : ResetPassword.Pc}
    (hs : ResetPassword.step env c db o pc = some (db', pc'))
    (hok : ResetPassword.Ok c db pc) (h : TokenSwept db k (.resetPassword pc)) :
      TokenSwept db' k (.resetPassword pc') := by
  cases pc with
  | start dto =>
      obtain ⟨⟨st, _ | r⟩, -, hres⟩ := Option.map_eq_some_iff.mp hs
      · cases hres; trivial
      · simp only at hres
        split at hres <;> (cases hres; trivial)
  | findUser dto record =>
      simp only [ResetPassword.step] at hs
      split at hs
      · split at hs <;> (cases hs; trivial)
      · cases hs; trivial
  | setPassword dto record user =>
      obtain ⟨r, -, hres⟩ := Option.map_eq_some_iff.mp hs
      cases hres; trivial
  | markUsed record user hash tx =>
      obtain ⟨r, -, hres⟩ := Option.map_eq_some_iff.mp hs
      cases hres; trivial
  | revokeAll record user hash tx =>
      cases hs
      obtain ⟨-, -, -, -, -, htx⟩ := hok
      -- the snapshot selects the token if it is live
      show db.refreshTokens.SweptAt tx.refreshTokens _ _ k
      rw [htx]
      exact Store.swept_start _ k
  | sweep record user hash todo tx =>
      simp only [ResetPassword.step] at hs
      split at hs
      · next htodo =>
        subst htodo
        cases hs
        intro r hr hu
        cases hrev : r.revokedAt with
        | some _ => rfl
        | none => exact absurd (h r hr (by simp [liveOfUser, hu, hrev])) List.not_mem_nil
      · split at hs
        · obtain ⟨⟨db₁, tx₁⟩, hupd, hres⟩ := Option.map_eq_some_iff.mp hs
          cases hres
          simp only [Db.updateRefreshToken, Option.map_eq_some_iff, Prod.mk.injEq] at hupd
          obtain ⟨⟨st, ws⟩, hv, rfl, rfl⟩ := hupd
          exact Store.SweptAt.visit h hv (fun _ => rfl) (liveOfUser_revoke _ _)
        · cases hs
  | done | failed => cases hs

omit [DecidableEq C] in
/-- **Step of another call.** The token was there before, so it is live only if it was. -/
theorem TokenSwept.frame {other other' : Call} {r : RefreshToken} (h : TokenSwept db k call)
    (hst : TokenStep env c db db' other other') (hr : db.refreshTokens.table.get k = some r) :
      TokenSwept db' k call := by
  obtain ⟨r', hr', hadv⟩ := hst.kept (Table.get_mem hr)
  have hk : r.id = k := Table.get_key hr
  have hget : db'.refreshTokens.table.get k = some r' := by
    rw [← hk, ← hadv.id]
    exact Table.get_of_mem hr'
  cases call with
  | resetPassword pc =>
      cases pc with
      | sweep record user hash todo tx =>
          refine Store.SweptAt.frame h fun x hx hp => ⟨r, hr, ?_⟩
          obtain rfl : r' = x := Option.some.inj (hget.symm.trans hx)
          simp only [liveOfUser, Bool.and_eq_true, decide_eq_true_eq, Option.isNone_iff_eq_none] at hp ⊢
          refine ⟨hadv.userId ▸ hp.1, ?_⟩
          cases hrev : r.revokedAt with
          | none => rfl
          | some _ => simpa [hp.2] using hadv.revokedAt (by rw [hrev]; rfl)
      | done record user hash =>
          intro x hx hu
          obtain rfl : r' = x := Option.some.inj (hget.symm.trans hx)
          exact hadv.revokedAt (h r hr (hadv.userId ▸ hu))
      | _ => trivial
  | _ => trivial

/-- **Run.** From a state before the `UPDATE` on, a token of that state is followed up to its
    revocation. -/
theorem reachable_tokenSwept {r : RefreshToken} (hr : Pool.Run (exec env) ok t u)
    (hok : ∀ {v : State C}, Pool.Run (exec env) ok t v → ∀ c, CallOk env c v.shared (v.calls c))
    (hget : t.shared.refreshTokens.table.get k = some r) (hbefore : (t.calls c).beforeRevoking) :
    (∃ r', u.shared.refreshTokens.table.get k = some r' ∧ Advanced r r') ∧ TokenSwept u.shared k
    (u.calls c) := by
  refine hr.invariant_with
    (I := fun v => (∃ r', v.shared.refreshTokens.table.get k = some r' ∧ Advanced r r') ∧
      TokenSwept v.shared k (v.calls c))
    (J := fun v => ∀ c, CallOk env c v.shared (v.calls c)) hok ?_ ⟨⟨r, hget, .refl r⟩, ?_⟩
  · rintro v d a w hJ ⟨⟨x, hx, hadv⟩, hswept⟩ _ hst
    obtain ⟨db', call', hc, rfl⟩ := Pool.step_cases hst
    have htoken := exec_tokens hc (hJ d)
    constructor
    · obtain ⟨x', hx', hadv'⟩ := htoken.kept (Table.get_mem hx)
      refine ⟨x', ?_, hadv.trans hadv'⟩
      have hk : x'.id = k := hadv'.id.trans (Table.get_key hx)
      rw [← hk]
      exact Table.get_of_mem hx'
    · by_cases hdc : c = d
      · subst hdc
        simp only [Function.update_self]
        have hokc := hJ c
        rcases exec_cases hc with ⟨-, -, -, rfl⟩ | ⟨o, pc, pc', -, -, rfl, -⟩ |
          ⟨o, pc, pc', -, -, rfl, -⟩ |
          ⟨o, pc, pc', -, -, rfl, -⟩ | ⟨o, pc, pc', -, -, rfl, -⟩ | ⟨o, pc, pc', -, hpc, rfl, hs⟩ |
          ⟨o, pc, pc', -, -, rfl, -⟩
        case inr.inr.inr.inr.inr.inl =>
          rw [hpc] at hokc hswept
          exact step_tokenSwept hs hokc hswept
        all_goals trivial
      · simp only [Function.update_of_ne hdc]
        exact hswept.frame htoken hx
  · cases hcall : t.calls c with
    | resetPassword pc =>
        rw [hcall] at hbefore
        cases pc with
        | sweep | done => cases hbefore
        | _ => trivial
    | _ => trivial

/-! ## A call that fails

`resetPassword` and `softDelete` are one transaction each. What they have written is in a buffer up to
the commit, and a call that fails throws the buffer away. -/

/-- A call of one transaction stays one, until it is stopped. -/
theorem reachable_inOneTransaction (hr : Pool.Run (exec env) ok s t) (hreq : ∀ c, (s.calls c).IsRequest)
    (hc : (s.calls c).inOneTransaction) : (t.calls c).inOneTransaction ∨ t.calls c = .aborted := by
  refine hr.invariant_with (I := fun v => (v.calls c).inOneTransaction ∨ v.calls c = .aborted)
    (J := fun v => ∀ c, CallOk env c v.shared (v.calls c))
    (fun hr' => reachable_callOk hr' hreq) ?_ (.inl hc)
  rintro v d a w hJ hI _ hst
  by_cases hcd : c = d
  · subst hcd
    rcases hI with htx | haborted
    · exact (step_inOneTransaction hst (hJ c) htx).1
    · -- a call that was stopped takes no step
      obtain ⟨db', call', hc', -⟩ := Pool.step_cases hst
      have hrunning := exec_running hc'
      rw [haborted] at hrunning
      cases hrunning
  · rwa [Pool.step_calls_ne hst hcd]

/-- A failed `resetPassword` or `softDelete` has changed no table in any of its steps. -/
theorem failed_sameTables (hs : Pool.Steps (exec env) s t) (hreq : ∀ c, (s.calls c).IsRequest)
    (hst : Pool.step (exec env) t c a = some u) (hu : Pool.Steps (exec env) u v)
    (hc : (s.calls c).inOneTransaction)
    (hfailed : (v.calls c).Failed) : SameTables t.shared u.shared := by
  obtain ⟨-, hreset, hdelete⟩ := hfailed
  have hok := reachable_callOk hs hreq c
  rcases reachable_inOneTransaction hs hreq hc with htx | haborted
  · rcases (step_inOneTransaction hst hok htx).2 with hsame | ⟨record, user, hash, hdone⟩ | ⟨id, hdone⟩
    · exact hsame
    -- a success is final
    · have hv := finished_stays hu (c := c) (by rw [hdone]; rfl)
      exact absurd (hv.trans hdone) (hreset record user hash)
    · have hv := finished_stays hu (c := c) (by rw [hdone]; rfl)
      exact absurd (hv.trans hdone) (hdelete id)
  · obtain ⟨db', call', hc', -⟩ := Pool.step_cases hst
    have hrunning := exec_running hc'
    rw [haborted] at hrunning
    cases hrunning

/-! ## The property

The parts above, collected for a run from `s` to `t`. It is stated over any tables to begin with, so it
may be used for a deployment that has been running before. -/

/-- **What a run does with reset links**, from the requests of `s` to the state `t`. `v` and `w` are the
    states before and after one step of the run. -/
structure SingleUse (env : Env) (s t : State C) : Prop where
  /-- a row lets at most one reset succeed -/
  once      : ∀ c d k, (t.calls c).SucceededOn k → (t.calls d).SucceededOn k → c = d
  /-- and none after it was marked, by whatever call -/
  unused    : ∀ v c k, Pool.Steps (exec env) s v → Pool.Steps (exec env) v t → v.shared.LinkUsed k →
    (t.calls c).SucceededOn k → v.calls c = t.calls c
  /-- a success has read its row unused and not expired, under the lock -/
  read      : ∀ c record user hash, t.calls c = .resetPassword (.done record user hash) →
    ∃ v a w, Pool.Steps (exec env) s v ∧ Pool.step (exec env) v c a = some w ∧
      ReadsLink env v c a record ∧
      Pool.Steps (exec env) w t
  /-- a success is one commit of password, mark and revocations -/
  committed : ∀ c record user hash, t.calls c = .resetPassword (.done record user hash) →
    ∃ v a w, Pool.Steps (exec env) s v ∧ Pool.step (exec env) v c a = some w ∧
      ResetCommit v w c record hash ∧
      Pool.Steps (exec env) w t
  /-- a reset does nothing else to the tables -/
  together  : ∀ v c a w pc, Pool.Steps (exec env) s v → Pool.step (exec env) v c a = some w →
    Pool.Steps (exec env) w t →
    v.calls c = .resetPassword pc → SameTables v.shared w.shared ∨
      ∃ record hash, ResetCommit v w c record hash
  /-- and no other step changes a password -/
  password  : ∀ v c a w userId hash, Pool.Steps (exec env) s v → Pool.step (exec env) v c a = some w →
    Pool.Steps (exec env) w t → v.shared.passwordHash userId = some hash →
      w.shared.passwordHash userId = some hash ∨
        ∃ record hash', ResetCommit v w c record hash' ∧ record.userId = userId
  /-- the refresh tokens of the user that were committed when the revoking `UPDATE` began are revoked -/
  revoked   : ∀ v c r record user hash, Pool.Steps (exec env) s v → Pool.Steps (exec env) v t →
    (v.calls c).beforeRevoking → r ∈ v.shared.refreshTokens.table.rows →
    t.calls c = .resetPassword (.done record user hash) → r.userId = record.userId →
      ∃ r' ∈ t.shared.refreshTokens.table.rows, Advanced r r' ∧ r'.revokedAt.isSome
  /-- a reset or a deletion that fails has changed no table -/
  failed    : ∀ v c a w, Pool.Steps (exec env) s v → Pool.step (exec env) v c a = some w →
    Pool.Steps (exec env) w t →
    (s.calls c).inOneTransaction → (t.calls c).Failed → SameTables v.shared w.shared

/-- The commit of a success, found in the run. -/
theorem committed_history (hr : Pool.Steps (exec env) s t) (hreq : ∀ c, (s.calls c).IsRequest)
    (hdone : t.calls c = .resetPassword (.done record user hash)) :
    ∃ v a w, Pool.Steps (exec env) s v ∧ Pool.step (exec env) v c a = some w ∧
      (ResetCommit v w c record hash ∧ user.id = record.userId) ∧ Pool.Steps (exec env) w t := by
  have hrequest : s.calls c ≠ .resetPassword (.done record user hash) := by
    intro h
    have hreqc := hreq c
    rw [h] at hreqc
    cases hreqc
  have hcommits : ∀ {v w : State C} {a : Act}, Pool.Steps (exec env) s v →
    Pool.step (exec env) v c a = some w →
      w.calls c = .resetPassword (.done record user hash) → ResetCommit v w c record hash ∧
        user.id = record.userId := by
    intro v w a hsv hst h
    have hcommit := commit_of_done hst (reachable_callOk hsv hreq c) h
    obtain ⟨user', hdone', hid⟩ := hcommit.done
    rw [h] at hdone'
    cases hdone'
    exact ⟨hcommit, hid⟩
  obtain ⟨v, a, w, hsv, -, hst, hE, hwt⟩ := hr.happened
    (P := fun call => call = .resetPassword (.done record user hash))
    (E := fun v _ w => ResetCommit v w c record hash ∧ user.id = record.userId) hrequest
    (fun hsv _ hst h => .inr (hcommits hsv hst h)) hdone
  exact ⟨v, a, w, hsv, hst, hE, hwt⟩

/-- A step of a reset does not turn it into a deletion. -/
theorem reset_not_deletion {pc : ResetPassword.Pc} {id : Uuid}
    (hst : Pool.step (exec env) t c a = some u)
    (hcall : t.calls c = .resetPassword pc) : u.calls c ≠ .softDelete (.done id) := by
  intro hdone
  obtain ⟨db', call', hc, rfl⟩ := Pool.step_cases hst
  simp only [Function.update_self] at hdone
  rw [hcall, hdone] at hc
  rcases exec_cases hc with ⟨-, -, -, he⟩ | ⟨o, pc₁, pc₂, -, -, he, -⟩ | ⟨o, pc₁, pc₂, -, -, he, -⟩ |
    ⟨o, pc₁, pc₂, -, -, he, -⟩ | ⟨o, pc₁, pc₂, -, -, he, -⟩ | ⟨o, pc₁, pc₂, -, -, he, -⟩ |
    ⟨o, pc₁, pc₂, -, he, -, -⟩
  all_goals cases he

theorem request_record (h : call.IsRequest) : call.record = none := by
  cases call with
  | resetPassword pc =>
      cases pc with
      | start => rfl
      | _ => cases h
  | _ => rfl

/-- **Reset tokens are single-use and their effects come together**, for every interleaving of the
    account operations, over any tables. -/
theorem reset_tokens_single_use (hreq : ∀ c, (s.calls c).IsRequest) (hr : Pool.Steps (exec env) s t) :
    SingleUse env s t where
  once := (reachable_once hr hreq).2
  unused := by
    intro v c k hsv hvt hk hc
    exact (succeeded_before hvt (fun hr' => reachable_callOk (hsv.trans hr') hreq) hk).2 c hc
  read := by
    intro c record user hash hdone
    have hnone : (s.calls c).record ≠ some record := by
      rw [request_record (hreq c)]
      simp
    obtain ⟨v, a, w, hsv, -, hst, hreads, hwt⟩ :=
      hr.happened (P := fun call => call.record = some record)
      (E := fun v a _ => ReadsLink env v c a record) hnone (fun _ _ hst h => step_record hst h)
        (by rw [hdone]; rfl)
    exact ⟨v, a, w, hsv, hst, hreads, hwt⟩
  committed := by
    intro c record user hash hdone
    obtain ⟨v, a, w, hsv, hst, ⟨hcommit, -⟩, hwt⟩ := committed_history hr hreq hdone
    exact ⟨v, a, w, hsv, hst, hcommit, hwt⟩
  together := by
    intro v c a w pc hsv hst _ hpc
    have hok := reachable_callOk hsv hreq c
    rcases (step_inOneTransaction hst hok (by rw [hpc]; rfl)).2 with hsame |
      ⟨record, user, hash, hdone⟩ | ⟨id, hdone⟩
    · exact .inl hsame
    · exact .inr ⟨record, hash, commit_of_done hst hok hdone⟩
    · exact absurd hdone (reset_not_deletion hst hpc)
  password := by
    intro v c a w userId hash hsv hst _ hpass
    have hok := reachable_callOk hsv hreq c
    obtain ⟨db', call', hc, heq⟩ := Pool.step_cases hst
    have hshared : w.shared = db' := by rw [heq]
    rcases (exec_users hc hok).passwordHash hpass with hkept |
      ⟨record, user, hash', tx, -, rfl, huser, -⟩
    · exact .inl (hshared ▸ hkept)
    · have hdone : w.calls c = .resetPassword (.done record user hash') := by
        rw [heq]
        simp
      have hcommit := commit_of_done hst hok hdone
      obtain ⟨user', hdone', hid⟩ := hcommit.done
      rw [hdone] at hdone'
      cases hdone'
      exact .inr ⟨record, hash', hcommit, hid.symm.trans huser⟩
  revoked := by
    intro v c r record user hash hsv hvt hbefore hmem hdone hu
    have hget := Table.get_of_mem hmem
    obtain ⟨⟨r', hr', hadv⟩, hswept⟩ :=
      reachable_tokenSwept hvt (fun hr' => reachable_callOk (hsv.trans hr') hreq) hget hbefore
    refine ⟨r', Table.get_mem hr', hadv, ?_⟩
    rw [hdone] at hswept
    -- the user whose tokens were swept is the user of the link
    obtain ⟨-, -, -, -, -, ⟨-, hsame⟩, -⟩ := committed_history hr hreq hdone
    exact hswept r' hr' (by rw [hadv.userId, hu, hsame])
  failed := by
    intro v c a w hsv hst hwt hc hfailed
    exact failed_sameTables hsv hreq hst hwt hc hfailed

end

/-! ## Runs -/

/-- A link is requested, with value `"R"`, and used. -/
def linkRequests : List Call :=
  [.forgotPassword (.start ⟨"a@b.co"⟩ ⟨none, none⟩), .resetPassword (.start ⟨"R", "new"⟩)]

/-- Everything but the commit of the reset. -/
def linkSchedule : List (Fin 2 × Act) := Pool.turns 2
  [(0, .run (.at 1 uuidA "" uuidA)), (0, .run (.at 1 uuidA "" uuidA)), (0, .run (.at 1 uuidA "" uuidA)),
   (0, .run (.at 1 uuidB "R" uuidA)),
   (1, .run (.at 2 uuidA "" uuidA)), (1, .run (.at 2 uuidA "" uuidA)), (1, .run (.at 2 uuidA "" uuidA)),
   (1, .run (.at 2 uuidA "" uuidA)), (1, .run (.at 2 uuidA "" uuidA))]

theorem initial_linkRequests : Initial (boot 2 linkRequests) :=
  initial_boot (by simp [linkRequests, Call.IsRequest])

/-- The link is used up by the reset. -/
theorem reset_tokens_single_use_once : ∃ t :
    State (Fin 2), Pool.Steps (exec toyEnv) (boot 2 linkRequests) t ∧
    t.shared.passwordHash uuidA = some "new" ∧ SingleUse toyEnv (boot 2 linkRequests) t := by
  have hrun : (Pool.replay (exec toyEnv) Pool.anyStep (boot 2 linkRequests)
      (linkSchedule ++ Pool.turns 2 [(1, .run (.at 2 uuidA "" uuidA))])).any
      (fun t : State (Fin 2) => t.shared.passwordHash uuidA = some "new") = true := by decide +kernel
  obtain ⟨t, hr, hnew⟩ := Pool.exists_run_of_replay hrun
  exact ⟨t, hr, by simpa using hnew, reset_tokens_single_use initial_linkRequests.requests hr⟩

/-- Every reset of the run commits before its link expires. -/
def CommitsInTime {C : Type} [DecidableEq C] (env : Env) (s t : State C) : Prop :=
  ∀ v c o w record hash, Pool.Steps (exec env) s v → Pool.step (exec env) v c (.run o) = some w →
    Pool.Steps (exec env) w t →
    ResetCommit v w c record hash → o.now ≤ record.expiresAt

/-- A call that fails, whatever it was, has changed no table. -/
def FailsWithoutTrace {C : Type} [DecidableEq C] (env : Env) (s t : State C) : Prop :=
  ∀ v c a w, Pool.Steps (exec env) s v → Pool.step (exec env) v c a = some w →
    Pool.Steps (exec env) w t →
    (t.calls c).Failed → SameTables v.shared w.shared

/-- The call is a successful reset whose link expires before `now`. -/
def Call.expiredAt (now : Nat) : Call → Bool
  | .resetPassword (.done record _ _) => record.expiresAt < now
  | _                                 => false

theorem Call.expiredAt_eq {now : Nat} {call : Call} (h : call.expiredAt now = true) :
    ∃ record user hash, call = .resetPassword (.done record user hash) ∧ record.expiresAt < now := by
  unfold Call.expiredAt at h
  split at h
  · exact ⟨_, _, _, rfl, by simpa using h⟩
  · cases h

/-- The link expires at 1001, between the read and the commit. -/
theorem reset_commits_late : ∃ s t : State (Fin 2),
    Initial s ∧ Pool.Steps (exec toyEnv) s t ∧ ¬ CommitsInTime toyEnv s t := by
  have hrun : (Pool.replay (exec toyEnv) Pool.anyStep (boot 2 linkRequests) linkSchedule).any
      (fun v : State (Fin 2) => (Pool.step (exec toyEnv) v 1 (.run (.at 5000 uuidA "" uuidA))).any
        fun t => (t.calls 1).expiredAt 5000) = true := by decide +kernel
  obtain ⟨v, hsv, hstep⟩ := Pool.exists_run_of_replay hrun
  obtain ⟨t, hst, hlate⟩ := (Option.any_eq_true _ _).mp hstep
  obtain ⟨record, user, hash, hdone, hexpired⟩ := Call.expiredAt_eq hlate
  have hcommit := commit_of_done hst (reachable_callOk hsv initial_linkRequests.requests 1) hdone
  refine ⟨_, t, initial_linkRequests, .tail hsv trivial hst, fun h => ?_⟩
  have hintime := h v 1 _ t record hash hsv hst .refl hcommit
  exact absurd hexpired (Nat.not_lt.mpr hintime)

/-- Two requests for a link. -/
def twoLinkRequests : List Call :=
  [.forgotPassword (.start ⟨"a@b.co"⟩ ⟨none, none⟩), .forgotPassword (.start ⟨"a@b.co"⟩ ⟨none, none⟩)]

/-- The first issues the link, the second is about to commit its `UPDATE`. -/
def twoLinkSchedule : List (Fin 2 × Act) := Pool.turns 2
  [(0, .run (.at 1 uuidA "" uuidA)), (0, .run (.at 1 uuidA "" uuidA)), (0, .run (.at 1 uuidA "" uuidA)),
   (0, .run (.at 1 uuidB "R" uuidA)),
   (1, .run (.at 2 uuidA "" uuidA)), (1, .run (.at 2 uuidA "" uuidA)), (1, .run (.at 2 uuidA "" uuidB))]

/-- The second request commits its `UPDATE` and then loses its connection. -/
theorem failed_request_uses_link : ∃ s t : State (Fin 2),
    Initial s ∧ Pool.Steps (exec toyEnv) s t ∧ ¬ FailsWithoutTrace toyEnv s t := by
  have hi : Initial (boot 2 twoLinkRequests) := initial_boot (by simp [twoLinkRequests, Call.IsRequest])
  have hrun : (Pool.replay (exec toyEnv) Pool.anyStep (boot 2 twoLinkRequests) twoLinkSchedule).any
      (fun v : State (Fin 2) => (Pool.step (exec toyEnv) v 1 (.run (.at 2 uuidA "" uuidA))).any fun w =>
        decide (w.shared.resetTokens.table.rows ≠ v.shared.resetTokens.table.rows) &&
          (Pool.step (exec toyEnv) w 1 .abort).any fun t => (t.calls 1).finished &&
            !(t.calls 1).inOneTransaction) = true := by decide +kernel
  obtain ⟨v, hsv, hstep⟩ := Pool.exists_run_of_replay hrun
  obtain ⟨w, hvw, hcheck⟩ := (Option.any_eq_true _ _).mp hstep
  simp only [Bool.and_eq_true, decide_eq_true_eq] at hcheck
  obtain ⟨hchanged, hlast⟩ := hcheck
  obtain ⟨t, hwt, hcheck⟩ := (Option.any_eq_true _ _).mp hlast
  simp only [Bool.and_eq_true, Bool.not_eq_true'] at hcheck
  have hfailed : (t.calls 1).Failed := by
    refine ⟨hcheck.1, ?_, ?_⟩
    · intro record user hash h
      rw [h] at hcheck
      cases hcheck.2
    · intro id h
      rw [h] at hcheck
      cases hcheck.2
  refine ⟨_, t, hi, .tail (.tail hsv trivial hvw) trivial hwt, fun h => ?_⟩
  have hsame := h v 1 _ w hsv hvw (.single trivial hwt) hfailed
  exact hchanged (congrArg Table.rows hsame.resetTokens)

/-- **What does not hold**: a reset can commit after its link has expired, and a call that fails can
    have changed a table. -/
theorem late_commit_and_half_done_request :
    (∃ s t : State (Fin 2), Initial s ∧ Pool.Steps (exec toyEnv) s t ∧ ¬ CommitsInTime toyEnv s t) ∧
      ∃ s t : State (Fin 2), Initial s ∧ Pool.Steps (exec toyEnv) s t ∧ ¬ FailsWithoutTrace toyEnv s t :=
  ⟨reset_commits_late, failed_request_uses_link⟩

end NestApp
