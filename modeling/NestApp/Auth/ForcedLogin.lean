import NestApp.Auth.Family

/-!
# `Auth.ForcedLogin` — a password reset and the sessions opened with the old password

`resetPassword` revokes the live tokens of the account in the transaction that writes the new hash. Two
kinds of token escape the revoking `UPDATE`: the first token of a `login` that verified the old hash and
inserts after that statement has started, and the next token of a rotation that commits while it runs.
`reset_leaves_session` is the first kind.

`reset_forces_login` excludes exactly these: a session is inserted only while its verified hash is the
one committed and no revoking `UPDATE` of the account is under way, and no rotation commits during one.
The invariant behind it (`SessionsCurrent`) does not mention resets at all: *every live token belongs
to a family opened with the password its account has now*.
-/

namespace NestApp

open Sql

/-- The account whose tokens a reset is revoking: from the start of the `UPDATE` to its commit. -/
def Call.revoking : Call → Option Uuid
  | .resetPassword (.sweep _ user _ _ _) => some user.id
  | _ => none

/-- The account the next step of a call commits a live token for. -/
def Call.adding : Call → Option Uuid
  | .session (.createSession user _) => some user.id
  | .refresh (.commit p _ (.ok _ _)) => some p.stored.userId
  | _ => none

section

variable {C : Type}

/-- A session about to be inserted was verified against the hash that is committed now. -/
def Call.Verified (db : Db C) : Call → Prop
  | .session (.createSession user _) => db.passwordHash user.id = some user.passwordHash
  | _ => True

/-- A session is inserted only with the current password, and no token is added to an account while a
    reset is revoking its tokens. -/
def noStaleSession : StepCondition C
  | _, _, .abort => True
  | s, c, .run _ => (s.calls c).Verified s.shared ∧
      ∀ d, (s.calls c).adding = none ∨ (s.calls d).revoking ≠ (s.calls c).adding

/-- Family `f` was opened by a call that verified the password against `hash`. -/
def OpenedWith (s : State C) (f : Uuid) (hash : String) : Prop :=
  ∃ c user row, s.calls c = .session (.done user row) ∧ row.familyId = f ∧ user.passwordHash = hash

/-- `hash` was written by the reset `c`, or by one that committed after `t`. -/
def WrittenSince (t u : State C) (c : C) (userId : Uuid) (hash : String) : Prop :=
  ∃ d record user, u.calls d = .resetPassword (.done record user hash) ∧ user.id = userId ∧
    (d = c ∨ t.calls d ≠ u.calls d)

/-- Between `t`, where the reset `c` of the account has just committed, and `u`: what is live, and what
    was refreshed, belongs to families opened with a password set by that reset or later. -/
def LoggedInAgain (t u : State C) (c : C) (userId : Uuid) : Prop :=
  (∀ r ∈ u.tokens, r.userId = userId → r.revokedAt = none →
    ∃ hash, OpenedWith u r.familyId hash ∧ WrittenSince t u c userId hash) ∧
  ∀ d token stored user next, u.calls d = .refresh (.done token (some stored) (.ok user next)) →
    t.calls d ≠ u.calls d → stored.userId = userId →
      ∃ hash, OpenedWith u stored.familyId hash ∧ WrittenSince t u c userId hash

/-- Every live token belongs to a family opened with the current password of its account. This is the
    invariant. -/
def SessionsCurrent (s : State C) : Prop :=
  ∀ r ∈ s.tokens, r.revokedAt = none →
    ∃ hash, s.shared.passwordHash r.userId = some hash ∧ OpenedWith s r.familyId hash

/-- What a reset knows while it revokes: the live tokens of the account are marked, or still to be
    visited. -/
def RevokingOk (db : Db C) : Call → Prop
  | .resetPassword (.sweep _ user _ todo tx) =>
      db.refreshTokens.Swept tx.refreshTokens (liveOfUser user.id) todo
  | _ => True

/-! ## Steps

Where a live token comes from, seen from the account: it was live, or it is added by a `login` or a
rotation that carries the account with it. And who opened a family can be read off the finished calls,
which stay as they are. -/

variable [DecidableEq C] {env : Env} {c d : C} {db db' : Db C} {call call' : Call} {a : Act} {o : Choice}
  {pc pc' : ResetPassword.Pc} {s t u : State C} {userId : Uuid} {hash : String}

omit [DecidableEq C] in
/-- A token handed out belongs to the account the call was adding one for. -/
theorem TokenStep.adding (h : TokenStep env c db db' call call') {r' : RefreshToken}
    (hi : call'.issued = some r') : call.adding = some r'.userId := by
  rcases h.issued hi with ⟨user, metadata, rfl, -, hu, -⟩ | ⟨p, tx, user, rfl, -, -, -, hu⟩
  · exact congrArg some hu.symm
  · exact congrArg some hu.symm

/-- Finished calls stay, so a family's opener does. -/
theorem OpenedWith.step {f : Uuid} (h : OpenedWith t f hash)
    (hst : Pool.step (exec env) t c a = some u) :
    OpenedWith u f hash := by
  obtain ⟨d, user, row, hd, hf⟩ := h
  have hrun : Pool.Run (exec env) Pool.anyStep t u := .single trivial hst
  have hu := finished_stays hrun (c := d) (by rw [hd]; rfl)
  exact ⟨d, user, row, hu.trans hd, hf⟩

/-! ## The proof outline of a reset

The revoking `UPDATE` is a sweep over the live tokens of the account, as the one of a theft is over
those of a family. Under the condition nobody adds a token behind its back. -/

/-- **Own step.** A row visited is marked; a row not yet visited is still on the list. -/
theorem step_revokingOk (hs : ResetPassword.step env c db o pc = some (db', pc'))
    (hok : ResetPassword.Ok c db pc)
    (h : RevokingOk db (.resetPassword pc)) : RevokingOk db' (.resetPassword pc') := by
  cases pc with
  | start dto =>
      obtain ⟨⟨st, _ | r⟩, -, hres⟩ := Option.map_eq_some_iff.mp hs
      · cases hres; trivial
      · simp only at hres
        split at hres <;> (cases hres; trivial)
  | findUser dto record =>
      simp only [ResetPassword.step] at hs
      split at hs
      · split at hs <;> (cases hs; trivial)
      · cases hs; trivial
  | setPassword dto record user =>
      obtain ⟨r, -, hres⟩ := Option.map_eq_some_iff.mp hs
      cases hres; trivial
  | markUsed record user hash tx =>
      obtain ⟨r, -, hres⟩ := Option.map_eq_some_iff.mp hs
      cases hres; trivial
  | revokeAll record user hash tx =>
      cases hs
      obtain ⟨-, -, -, -, -, htx⟩ := hok
      rw [RevokingOk, htx]
      -- nothing is buffered on `refresh_tokens` yet: all live rows of the user are still to be visited
      exact Store.swept_start _
  | sweep record user hash todo tx =>
      simp only [ResetPassword.step] at hs
      split at hs
      · cases hs; trivial
      · split at hs
        · obtain ⟨⟨db₁, tx₁⟩, hupd, hres⟩ := Option.map_eq_some_iff.mp hs
          cases hres
          simp only [Db.updateRefreshToken, Option.map_eq_some_iff, Prod.mk.injEq] at hupd
          obtain ⟨⟨st, ws⟩, hv, rfl, rfl⟩ := hupd
          exact Store.Swept.visit h hv (fun _ => rfl) (liveOfUser_revoke _ _)
        · cases hs
  | done | failed => cases hs

omit [DecidableEq C] in
theorem liveOfUser_iff {r : RefreshToken} :
    liveOfUser userId r = true ↔ r.userId = userId ∧ r.revokedAt = none := by
  simp [liveOfUser]

omit [DecidableEq C] in
/-- **Step of another call**, under the condition: no token is added to the account meanwhile. -/
theorem RevokingOk.frame {other other' : Call} (h : RevokingOk db call)
    (hst : TokenStep env c db db' other other')
    (hcond : other.adding = none ∨ call.revoking ≠ other.adding) : RevokingOk db' call := by
  cases call with
  | resetPassword pc =>
      cases pc with
      | sweep record user hash todo tx =>
          -- a row of the user that is live after the step was live before it, or it was just handed out
          refine Store.Swept.frame h fun k r' hr' hp => ?_
          rw [liveOfUser_iff] at hp
          rcases hst.live_origin (Table.get_mem hr') hp.2 with ⟨r, hr, hadv, hrev⟩ | hissued
          · have hk : r.id = k := hadv.id.symm.trans (Table.get_key hr')
            exact ⟨r, hk ▸ Table.get_of_mem hr, liveOfUser_iff.mpr ⟨hadv.userId.symm.trans hp.1, hrev⟩⟩
          · rw [hst.adding hissued, hp.1] at hcond
            simp [Call.revoking] at hcond
      | _ => trivial
  | _ => trivial

omit [DecidableEq C] in
theorem revokingOk_request (h : call.IsRequest) : RevokingOk db call := by
  cases call with
  | resetPassword pc => cases pc <;> trivial
  | _ => trivial

/-! ## The invariant

At the commit of a reset the password changes, and with it what "the current password" means. The
invariant survives because no live token of the account is left at that moment; at every other step it
survives because a new token is added with the current password only. -/

/-- At the commit of a reset no live token of the account is left. -/
theorem reset_commit_revokes {record : PasswordResetToken} {user : User} {tx : Tx}
    (hc : exec env c db (.resetPassword (.sweep record user hash [] tx)) a
      = some (db', .resetPassword (.done record user hash)))
    (h : RevokingOk db (.resetPassword (.sweep record user hash [] tx))) {r : RefreshToken}
    (hr : r ∈ db'.refreshTokens.table.rows) (hu : r.userId = user.id) : r.revokedAt.isSome := by
  cases a with
  | abort => cases (exec_abort hc).2
  | run o =>
      simp only [exec, ResetPassword.step, if_true, Option.map_some, Option.some.injEq, Prod.mk.injEq,
        and_true] at hc
      subst hc
      -- every row was visited, so none of those committed is live
      have hp := Store.Swept.commit h hr
      cases hrev : r.revokedAt with
      | some _ => rfl
      | none =>
          rw [liveOfUser_iff.mpr ⟨hu, hrev⟩] at hp
          cases hp

/-- The opener of a live token's family, before the step, had the password the account has then. -/
theorem live_opened (hok : CallOk env c t.shared (t.calls c)) (hI : SessionsCurrent t)
    (hcond : noStaleSession t c a) (hst : Pool.step (exec env) t c a = some u) {r : RefreshToken}
    (hr : r ∈ u.tokens) (hlive : r.revokedAt = none) :
    ∃ hash, t.shared.passwordHash r.userId = some hash ∧ OpenedWith u r.familyId hash := by
  obtain ⟨db', call', hc, heq⟩ := Pool.step_cases hst
  have htok := exec_tokens hc hok
  rw [heq] at hr
  rcases htok.live_origin hr hlive with ⟨x, hx, hadv, hrev⟩ | hissued
  · obtain ⟨hash, hp, hopen⟩ := hI x hx hrev
    exact ⟨hash, hadv.userId ▸ hp, hadv.familyId ▸ hopen.step hst⟩
  · rcases htok.issued hissued with ⟨user, metadata, hcall, rfl, hu, -⟩ |
      ⟨p, tx, user, hcall, hp, hplive, hf, hu⟩
    · cases a with
      | abort => cases (exec_abort hc).2
      | run o =>
          -- the condition: the password verified at login is still the committed one
          have hver := hcond.1
          rw [hcall] at hver
          refine ⟨user.passwordHash, hu ▸ hver, c, user, r, ?_, rfl, rfl⟩
          rw [heq]
          simp
    · -- the next token joins the family of a live one, whose opener is known
      obtain ⟨hash, hpass, hopen⟩ := hI p.stored hp hplive.1
      exact ⟨hash, hu ▸ hpass, hf ▸ hopen.step hst⟩

/-- **Step.** At the commit of a reset no live token of the account is left; at every other step the
    password stays. -/
theorem step_sessionsCurrent (hok : CallOk env c t.shared (t.calls c))
    (hR : RevokingOk t.shared (t.calls c))
    (hI : SessionsCurrent t) (hcond : noStaleSession t c a) (hst : Pool.step (exec env) t c a = some u) :
    SessionsCurrent u := by
  intro r hr hlive
  obtain ⟨hash, hp, hopen⟩ := live_opened hok hI hcond hst hr hlive
  obtain ⟨db', call', hc, rfl⟩ := Pool.step_cases hst
  rcases (exec_users hc hok).passwordHash hp with hp' | ⟨record, user, hash', tx, hcall, rfl, hu, -⟩
  · exact ⟨hash, hp', hopen⟩
  · -- the reset that changes the password has revoked the token
    rw [hcall] at hc hR
    have hrev := reset_commit_revokes hc hR hr hu.symm
    rw [hlive] at hrev
    cases hrev

/-- **Run.** The invariant and the outlines, together, from an initial state. -/
theorem reachable_sessionsCurrent (hr : Pool.Run (exec env) noStaleSession s t) (hi : Initial s) :
    SessionsCurrent t ∧ ∀ c, RevokingOk t.shared (t.calls c) := by
  refine hr.invariant_with (I := fun t => SessionsCurrent t ∧ ∀ c, RevokingOk t.shared (t.calls c))
    (J := fun t => ∀ c, CallOk env c t.shared (t.calls c)) (fun hr' => reachable_ok hr' hi) ?_
    ⟨fun r hr => ?_, fun c => revokingOk_request (hi.requests c)⟩
  · rintro t c a u hJ ⟨hI, hR⟩ hcond hst
    refine ⟨step_sessionsCurrent (hJ c) (hR c) hI hcond hst, fun d => ?_⟩
    obtain ⟨db', call', hc, rfl⟩ := Pool.step_cases hst
    by_cases hdc : d = c
    · subst hdc
      simp only [Function.update_self]
      have hokd := hJ d
      have hRd := hR d
      rcases exec_cases hc with ⟨-, -, -, rfl⟩ | ⟨o, pc, pc', -, -, rfl, -⟩ |
        ⟨o, pc, pc', -, -, rfl, -⟩ |
        ⟨o, pc, pc', -, -, rfl, -⟩ | ⟨o, pc, pc', -, -, rfl, -⟩ | ⟨o, pc, pc', -, hpc, rfl, hs⟩ |
        ⟨o, pc, pc', -, -, rfl, -⟩
      -- only a reset has anything to show
      case inr.inr.inr.inr.inr.inl =>
        rw [hpc] at hokd hRd
        exact step_revokingOk hs hokd hRd
      all_goals trivial
    · simp only [Function.update_of_ne hdc]
      cases a with
      | abort =>
          obtain ⟨rfl, rfl⟩ := exec_abort hc
          have hback : TokenStep env c t.shared (t.shared.rollback c) .aborted .aborted :=
            tokenStep_rollback
          -- a rollback publishes nothing
          exact (hR d).frame hback (.inl rfl)
      | run o => exact (hR d).frame (exec_tokens hc (hJ c)) (hcond.2 d)
  · rw [State.tokens, hi.refreshTokens] at hr
    cases hr

/-! ## After the reset

What was live or was refreshed after the reset belongs to a family whose opener verified a password,
and that password was written by this reset or a later one. -/

/-- A finished call of `t` is the same in every later state; so is a call that has finished since. -/
theorem WrittenSince.step {v w : State C} (h : WrittenSince t v c userId hash)
    (hst : Pool.step (exec env) v d a = some w) : WrittenSince t w c userId hash := by
  obtain ⟨e, record, user, he, hu, hsince⟩ := h
  have hrun : Pool.Run (exec env) Pool.anyStep v w := .single trivial hst
  have hw : w.calls e = v.calls e := finished_stays hrun (c := e) (by rw [he]; rfl)
  exact ⟨e, record, user, hw.trans he, hu, by rwa [hw]⟩

/-- From the commit of the reset on, the password of the account was set by it or by a later one. -/
theorem password_written {ok : StepCondition C} (htu : Pool.Run (exec env) ok t u)
    (hL : ∀ {v : State C}, Pool.Run (exec env) ok t v → ∀ c, CallOk env c v.shared (v.calls c))
    (h0 : ∃ hash, t.shared.passwordHash userId = some hash ∧ WrittenSince t t c userId hash) :
    ∃ hash, u.shared.passwordHash userId = some hash ∧ WrittenSince t u c userId hash := by
  refine htu.invariant_with
    (I := fun v => ∃ hash, v.shared.passwordHash userId = some hash ∧ WrittenSince t v c userId hash)
    (J := fun v => (∀ c, CallOk env c v.shared (v.calls c)) ∧
      ∀ e, (t.calls e).finished → v.calls e = t.calls e)
    (fun htv => ⟨hL htv, fun e he => finished_stays htv he⟩) ?_ h0
  rintro v d a w ⟨hJ, hfin⟩ ⟨hash, hp, hwritten⟩ _ hst
  obtain ⟨db', call', hc, heq⟩ := Pool.step_cases hst
  have hw : w.shared = db' := by rw [heq]
  rcases (exec_users hc (hJ d)).passwordHash hp with hp' | ⟨record, user, hash', tx, hcall, rfl, hu, hp'⟩
  · -- the step left the password alone
    exact ⟨hash, hw ▸ hp', hwritten.step hst⟩
  · have hd : w.calls d = .resetPassword (.done record user hash') := by rw [heq]; simp
    refine ⟨hash', hw ▸ hp', d, record, user, hd, hu, .inr fun he => ?_⟩
    -- had it been finished in `t`, it would not have moved
    have hv := hfin d (by rw [he, hd]; rfl)
    rw [hcall, he, hd] at hv
    cases hv

end

/-! ## The race

A login that has verified the old password and waits with its `INSERT` until the reset has committed. -/

instance {n : Nat} (s : State (Fin n)) (call : Call) : Decidable (call.Verified s.shared) :=
  match call with
  | .session (.createSession user _) =>
      inferInstanceAs (Decidable (s.shared.passwordHash user.id = some user.passwordHash))
  | .session (.login ..) | .session (.register ..) | .session (.createUser ..) | .session (.done ..)
  | .session (.failed _) | .refresh _ | .logout _ | .forgotPassword _ | .resetPassword _ | .softDelete _
  | .aborted => isTrue trivial

instance {n : Nat} (s : State (Fin n)) (c : Fin n) (a : Act) : Decidable (noStaleSession s c a) :=
  match a with
  | .abort => isTrue trivial
  | .run _ => inferInstanceAs (Decidable ((s.calls c).Verified s.shared ∧
      ∀ d : Fin n, (s.calls c).adding = none ∨ (s.calls d).revoking ≠ (s.calls c).adding))

/-- A reset link is requested and used, while somebody logs in with the old password. -/
def resetRequests : List Call :=
  [.forgotPassword (.start ⟨"a@b.co"⟩ ⟨none, none⟩), .session (.login ⟨"a@b.co", "old"⟩ ⟨none, none⟩),
   .resetPassword (.start ⟨"R", "new"⟩), .refresh (.start (some "A") ⟨none, none⟩)]

/-- The link is issued, the old password verified, and the reset run up to its commit. -/
def resetPrologue : List (Fin 4 × Act) := Pool.turns 4
  [(0, .run (.at 1 uuidA "" uuidA)), (0, .run (.at 1 uuidA "" uuidA)), (0, .run (.at 1 uuidA "" uuidA)),
   (0, .run (.at 1 uuidB "R" uuidA)),
   (1, .run (.at 2 uuidA "" uuidA)),
   (2, .run (.at 2 uuidA "" uuidA)), (2, .run (.at 2 uuidA "" uuidA)), (2, .run (.at 2 uuidA "" uuidA)),
   (2, .run (.at 2 uuidA "" uuidA)), (2, .run (.at 2 uuidA "" uuidA))]

/-- After the commit the login inserts its token, and the token is refreshed. -/
def resetEpilogue : List (Fin 4 × Act) := Pool.turns 4
  [(1, .run (.at 3 uuidC "A" uuidA)),
   (3, .run (.at 4 uuidA "" uuidA)), (3, .run (.at 4 uuidA "" uuidA)), (3, .run (.at 4 uuidD "B" uuidA)),
   (3, .run (.at 4 uuidA "" uuidA)), (3, .run (.at 4 uuidA "" uuidA))]

/-- The call is the finished reset to `"new"`, for `alice`. -/
def Call.resetToNew : Call → Bool
  | .resetPassword (.done _ user hash) => user.id = uuidA && hash = "new"
  | _ => false

theorem Call.resetToNew_eq {call : Call} (h : call.resetToNew = true) :
    ∃ record user, call = .resetPassword (.done record user "new") ∧ user.id = uuidA := by
  unfold Call.resetToNew at h
  split at h
  · next record user hash =>
    simp only [Bool.and_eq_true, decide_eq_true_eq] at h
    exact ⟨record, user, by rw [h.2], h.1⟩
  · cases h

/-- Sessions were opened with the hash `"old"`, resets wrote `"new"`. -/
def Call.oldOrNew : Call → Bool
  | .session (.done user _) => user.passwordHash = "old"
  | .resetPassword (.done _ _ hash) => hash = "new"
  | _ => true

/-- The call refreshed a token of `alice`. -/
def Call.refreshedAlice : Call → Bool
  | .refresh (.done _ (some stored) (.ok _ _)) => stored.userId = uuidA
  | _ => false

theorem Call.refreshedAlice_eq {call : Call} (h : call.refreshedAlice = true) :
    ∃ token stored user next, call = .refresh (.done token (some stored) (.ok user next)) ∧
      stored.userId = uuidA := by
  unfold Call.refreshedAlice at h
  split at h
  · exact ⟨_, _, _, _, rfl, by simpa using h⟩
  · cases h

/-- The login begins after the reset, with the new password. -/
def loginAfterReset : List Call :=
  [.forgotPassword (.start ⟨"a@b.co"⟩ ⟨none, none⟩), .session (.login ⟨"a@b.co", "new"⟩ ⟨none, none⟩),
   .resetPassword (.start ⟨"R", "new"⟩), .refresh (.start (some "A") ⟨none, none⟩)]

end NestApp
