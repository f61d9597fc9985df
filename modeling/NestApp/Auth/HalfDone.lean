import NestApp.Auth.Accounts
import NestApp.Rbac.Seed

/-!
# `Auth.HalfDone` — what a failing `register` or `forgotPassword` leaves behind

Both flows chain separately committed writes. `register` commits the new account and then inserts its
first session: if that `INSERT` fails the caller sees an error, but the address is taken.
`forgotPassword` commits the `UPDATE` that uses up the earlier links and then inserts the new one: if
that `INSERT` fails the user is left without any link (`half_done_flows`).

`failed_flows_leave_nothing`: these are the only two cases, whichever statement fails.
-/

namespace NestApp

open Sql Prog

/-! ## The property

Four tables are compared: users, their roles, refresh tokens and links. The mail queue is none of them,
and a job in it is not undone. -/

/-- The four tables of the account flows are as before. -/
structure Accounts.Untouched (s s' : Accounts) : Prop where
  users         : s'.world.db.users = s.world.db.users
  userRoles     : s'.world.db.userRoles = s.world.db.userRoles
  refreshTokens : s'.refreshTokens = s.refreshTokens
  resetTokens   : s'.resetTokens = s.resetTokens

/-- If the call throws, it leaves the tables as they were. -/
def LeavesNothing {α : Type} (m : AccountService α) (s : Accounts) : Prop :=
  ∀ e, (m s).1 = .error e → s.Untouched (m s).2

variable {env : Env} {o oSession : Choice} {fault : Option DbCall} {w : World}
  {s : Accounts} {α β : Type}

theorem Accounts.Untouched.refl : s.Untouched s := ⟨rfl, rfl, rfl, rfl⟩

/-- A call that throws where it started. -/
theorem leavesNothing_of_same {m : AccountService α} {e : Failure} (h : m s = (.error e, s)) :
    LeavesNothing m s := by
  intro _ _
  rw [h]
  exact .refl

theorem leavesNothing_of_ok {m : AccountService α} {a : α} {s' : Accounts} (h : m s = (.ok a, s')) :
    LeavesNothing m s := by
  intro e he
  rw [h] at he
  cases he

theorem leavesNothing_of_error {m : AccountService α} {e : Failure} {s' : Accounts}
    (h : m s = (.error e, s')) :
    LeavesNothing m s ↔ s.Untouched s' := by
  constructor
  · intro hleaves
    have hsame := hleaves e (congrArg Prod.fst h)
    rw [h] at hsame
    exact hsame
  · intro hsame _ _
    rw [h]
    exact hsame

/-! ## Creating the account

The transaction of `createWithDefaultRole` is the first half of a registration. It commits or it leaves
nothing, whatever fails in it. -/

namespace UsersService

/-- The statements of `createWithDefaultRole`. -/
def creationCalls : List DbCall :=
  [.begin, .insertUser, .findDefaultRole, .findUserRole, .insertUserRole, .commit]

/-- The account can be created: no statement fails, the indexes admit the row, and the default role
    exists. -/
def Creates (env : Env) (fault : Option DbCall) (row : User) (w : World) : Prop :=
  (∀ call ∈ creationCalls, fault ≠ some call) ∧ w.db.users.get row.id = none ∧
    w.db.emailFree env row = true ∧
    ∃ role, w.db.roles.find? (fun r => r.name = "user") = some role

variable {row : User}

/-- The transaction commits only if the account can be created; otherwise it leaves the world alone. -/
theorem createWithDefaultRole_spec (env : Env) (fault : Option DbCall) (row : User) :
    Triple (· = w) (createWithDefaultRole env fault row)
      (fun _ _ => Creates env fault row w) (· = w) := by
  refine transaction_spec ?_
  refine statement_single ⟨rfl, rfl⟩ fun hbegin => Triple.return_single ?_
  refine statement_single ⟨rfl, rfl⟩ fun hinsert => save_single ⟨rfl, rfl⟩ fun db hdb => ?_
  refine statement_single ⟨rfl, rfl⟩ fun hfind =>
    Triple.gets_single (Triple.orThrow_single ⟨rfl, rfl⟩ fun role hrole => ?_)
  refine statement_single ⟨rfl, rfl⟩ fun hlookup => Triple.return_single ?_
  refine statement_single ⟨rfl, rfl⟩ fun hlink => save_single ⟨rfl, rfl⟩ fun db' hdb' => ?_
  refine statement_single ⟨rfl, rfl⟩ fun hcommit => Triple.return_single ?_
  -- the unique indexes admitted the row
  have hadmitted : (w.db.users.get row.id).isNone ∧ w.db.emailFree env row := by
    by_contra h
    rw [Rbac.insertUser, if_neg h] at hdb
    cases hdb
  obtain ⟨hnew, rfl⟩ := Rbac.insertUser_some hdb
  refine Triple.pure fun _ _ => ⟨?_, hnew, hadmitted.2, role, hrole⟩
  simp [creationCalls, hbegin, hinsert, hfind, hlookup, hlink, hcommit]

/-- A user that exists can be given a role that exists; the users stay. -/
theorem insertUserRole_done {db : Rbac} {userId roleId : Uuid} (hu : (db.users.get userId).isSome)
    (hr : (db.roles.get roleId).isSome) :
    ∃ db', db.insertUserRole userId roleId = some db' ∧ db'.users = db.users := by
  rw [Rbac.insertUserRole, dif_pos ⟨hu, hr⟩]
  exact ⟨_, rfl, rfl⟩

/-- The account can be created: it is. -/
theorem createWithDefaultRole_done (h : Creates env fault row w) :
    ∃ db, createWithDefaultRole env fault row w = (.ok row, { w with db := db }) ∧
      db.users = w.db.users.put row := by
  obtain ⟨hcalls, hnew, hfree, role, hrole⟩ := h
  simp only [creationCalls, List.mem_cons, List.not_mem_nil, or_false,
    forall_eq_or_imp, forall_eq] at hcalls
  obtain ⟨hbegin, hinsert, hfind, hlookup, hlink, hcommit⟩ := hcalls
  have huser : w.db.insertUser env row = some (w.db.putUser row) := by
    rw [Rbac.insertUser, if_pos ⟨Option.isNone_iff_eq_none.mpr hnew, hfree⟩]
  have hrow : ((w.db.putUser row).users.get row.id).isSome := by
    show ((w.db.users.put row).get row.id).isSome
    rw [Table.get_put, key_user, if_pos rfl]
    rfl
  have hrow' : ((w.db.putUser row).roles.get role.id).isSome := by
    show (w.db.roles.get role.id).isSome
    have hget : w.db.roles.get role.id = some role := Table.get_of_mem (Table.find?_some hrole).1
    rw [hget]
    rfl
  obtain ⟨db, hdb, husers⟩ := insertUserRole_done hrow hrow'
  refine ⟨db, ?_, husers⟩
  rw [createWithDefaultRole, statement_of_ne hbegin, statement_of_ne hinsert, statement_of_ne hfind,
    statement_of_ne hlookup, statement_of_ne hcommit]
  refine transaction_commits ?_
  rw [return_bind, bind_ok (save_ok huser), gets_bind]
  show (orThrow (w.db.roles.find? fun r => r.name = "user") Failure.unexpected >>= _) _ = _
  rw [hrole, orThrow_bind_some, return_bind, statement_of_ne hlink, bind_ok (save_ok hdb)]
  rfl

end UsersService

/-! ## `register`

The second half is one `INSERT`, behind that commit. So a registration that throws leaves something
exactly when the account was created and its session was not. -/

namespace AuthService

variable {dto : RegisterDto} {metadata : SessionMetadata} {user : User}

/-- The account of the request can be created: no statement up to the commit fails. -/
def Registers (env : Env) (o : Choice) (fault : Option DbCall) (dto : RegisterDto) (w : World) : Prop :=
  fault ≠ some .findByEmail ∧ UsersService.Creates env fault (Session.newUser env o dto) w

/-- The row of the session is not inserted: the statement fails, its id or the hash of its token is in
    use, or the address of the client does not fit its column. -/
def SessionFails (env : Env) (o : Choice) (fault : Option DbCall) (metadata : SessionMetadata)
    (s : Accounts) : Prop :=
  fault = some .insertRefreshToken ∨
    s.refreshTokens.Taken RefreshToken.tokenHash o.id (env.hashToken o.token) ∨
    fitsIpAddress metadata.ipAddress = false

theorem insertRefreshToken_eq_none (row : RefreshToken) (hu : (s.world.db.users.get row.userId).isSome) :
    s.insertRefreshToken row = none ↔
      s.refreshTokens.Taken RefreshToken.tokenHash row.id row.tokenHash ∨
        fitsIpAddress row.ipAddress = false := by
  rw [Accounts.insertRefreshToken, ite_eq_right_iff, ← Bool.not_eq_true]
  simp only [hu, reduceCtorEq]
  tauto

theorem createSession_fails (metadata : SessionMetadata) (hu : (s.world.db.users.get user.id).isSome)
    (h : SessionFails env o fault metadata s) :
    ∃ e, createSession env o fault user metadata s = (.error e, s) := by
  have hnone := insertRefreshToken_eq_none (Session.newToken env o user metadata) hu
  have hinsert : fault = some .insertRefreshToken ∨
      s.insertRefreshToken (Session.newToken env o user metadata) = none := h.imp_right hnone.mpr
  obtain ⟨e, hfails⟩ := insertRow_fails (fun s => s.insertRefreshToken _) hinsert
  exact ⟨e, bind_error hfails⟩

theorem createSession_done (metadata : SessionMetadata) (hu : (s.world.db.users.get user.id).isSome)
    (h : ¬ SessionFails env o fault metadata s) :
    ∃ row s', createSession env o fault user metadata s = (.ok row, s') := by
  rw [SessionFails, not_or] at h
  have hnone := insertRefreshToken_eq_none (Session.newToken env o user metadata) hu
  have hsome := mt hnone.mp h.2
  obtain ⟨s', hs'⟩ := Option.ne_none_iff_exists'.mp hsome
  exact ⟨Session.newToken env o user metadata, s', bind_ok (insertRow_done h.1 hs')⟩

theorem emailFree_iff {row : User} :
    w.db.emailFree env row = true ↔ w.db.findByEmail env row.email = none := by
  rw [Rbac.emailFree, Rbac.findByEmail, Table.find?, List.all_eq_true, List.find?_eq_none]
  refine forall₂_congr fun u _ => ?_
  cases u.deletedAt <;> simp

/-- The address is taken. -/
theorem register_conflict (o oSession : Choice) (metadata : SessionMetadata)
    (hfind : fault ≠ some .findByEmail)
    (h : (s.world.db.findByEmail env (normalizeEmail env dto.email)).isSome) :
    register env o oSession fault dto metadata s =
      (.error (.http (.conflict "Email is already registered")), s) := by
  rw [register, statement_of_ne hfind, bind_ok (onWorld_eq (UsersService.findByEmail_run ..)),
    throwIf_bind_true h]

/-- The account is not created: the call throws, and nothing is written. -/
theorem register_refused (oSession : Choice) (metadata : SessionMetadata)
    (h : ¬ Registers env o fault dto s.world) :
    ∃ e, register env o oSession fault dto metadata s = (.error e, s) := by
  by_cases hfind : fault = some .findByEmail
  · refine ⟨.unexpected, ?_⟩
    rw [register, bind_error (onWorld_eq (statement_fault hfind))]
  · have hcreate : ¬ UsersService.Creates env fault (Session.newUser env o dto) s.world :=
      fun hc => h ⟨hfind, hc⟩
    by_cases hexisting : (s.world.db.findByEmail env (normalizeEmail env dto.email)).isSome
    · exact ⟨_, register_conflict o oSession metadata hfind hexisting⟩
    · rw [register, statement_of_ne hfind, bind_ok (onWorld_eq (UsersService.findByEmail_run ..)),
        throwIf_bind_false hexisting]
      have hspec := UsersService.createWithDefaultRole_spec env fault
        (Session.newUser env o dto) s.world rfl
      cases hrun : UsersService.createWithDefaultRole env fault (Session.newUser env o dto) s.world with
      | mk r w' =>
          rw [hrun] at hspec
          cases r with
          | ok user => exact absurd hspec hcreate
          | error e =>
              obtain rfl : w' = s.world := hspec
              exact ⟨_, bind_error (onWorld_eq (mapError_error hrun))⟩

/-- The account is created: what is left is its session. -/
theorem register_created (oSession : Choice) (metadata : SessionMetadata)
    (h : Registers env o fault dto s.world) :
    ∃ db, db.users = s.world.db.users.put (Session.newUser env o dto) ∧
      register env o oSession fault dto metadata s =
        createSession env oSession fault (Session.newUser env o dto) metadata { s with
          world := { s.world with db := db } } := by
  obtain ⟨hfind, hcreate⟩ := h
  obtain ⟨db, hdone, husers⟩ := UsersService.createWithDefaultRole_done hcreate
  have hnone : s.world.db.findByEmail env (normalizeEmail env dto.email) = none :=
    emailFree_iff.mp hcreate.2.2.1
  refine ⟨db, husers, ?_⟩
  rw [register, statement_of_ne hfind, bind_ok (onWorld_eq (UsersService.findByEmail_run ..)),
    throwIf_bind_false (by simp [hnone]), bind_ok (onWorld_eq (mapError_ok hdone))]

/-- **`register` leaves nothing behind** iff not only its session fails. -/
theorem register_leavesNothing :
    LeavesNothing (register env o oSession fault dto metadata) s ↔
      ¬ (Registers env o fault dto s.world ∧ SessionFails env oSession fault metadata s) := by
  by_cases h : Registers env o fault dto s.world
  case neg =>
    obtain ⟨e, hrun⟩ := register_refused oSession metadata h
    exact ⟨fun _ hboth => h hboth.1, fun _ => leavesNothing_of_same hrun⟩
  case pos =>
    obtain ⟨db, husers, hrun⟩ := register_created oSession metadata h
    have hrow : db.users.get o.id = some (Session.newUser env o dto) := by
      rw [husers, Table.get_put]
      exact if_pos rfl
    have hu : (db.users.get (Session.newUser env o dto).id).isSome :=
      Option.isSome_iff_exists.mpr ⟨_, hrow⟩
    by_cases hsession : SessionFails env oSession fault metadata s
    · -- the account is committed and its address taken
      obtain ⟨e, hfails⟩ :=
        createSession_fails (s := { s with world := { s.world with db := db } }) metadata hu hsession
      refine ⟨fun hleaves => ?_, fun hno => absurd ⟨h, hsession⟩ hno⟩
      have hsame : db.users = s.world.db.users :=
        ((leavesNothing_of_error (hrun.trans hfails)).mp hleaves).users
      have hnew : s.world.db.users.get o.id = none := h.2.2.1
      rw [hsame, hnew] at hrow
      cases hrow
    · obtain ⟨row, s', hdone⟩ :=
        createSession_done (s := { s with world := { s.world with db := db } }) metadata hu hsession
      exact ⟨fun _ hboth => hsession hboth.2, fun _ => leavesNothing_of_ok (hrun.trans hdone)⟩

end AuthService

/-! ## `forgotPassword`

The `UPDATE` on the earlier links commits by itself. It changes something only if the account has an
unused link, and it is in vain only if the new link is not stored. -/

namespace AuthService

variable {driver : MailDriver} {queueAccepts : Bool} {dto : ForgotPasswordDto}
  {metadata : SessionMetadata} {user : User}

/-- The user has a link that is not used. -/
def HasLink (user : User) (s : Accounts) : Prop :=
  ∃ r ∈ s.resetTokens.rows, unusedOfUser user.id r = true

/-- The row of the link is not inserted: the statement fails, its id or the hash of its token is in use,
    or the address of the client does not fit its column. -/
def LinkFails (env : Env) (o : Choice) (fault : Option DbCall) (metadata : SessionMetadata)
    (s : Accounts) : Prop :=
  fault = some .insertResetToken ∨
    s.resetTokens.Taken PasswordResetToken.tokenHash o.id (env.hashToken o.token) ∨
    fitsIpAddress metadata.ipAddress = false

/-- The links of the account are used up, and no new one is stored. -/
def LosesLinks (env : Env) (o : Choice) (fault : Option DbCall) (dto : ForgotPasswordDto)
    (metadata : SessionMetadata)
    (s : Accounts) : Prop :=
  ∃ user, linkOwner env dto s.world = some user ∧ fault ≠ some .findByEmail ∧
    fault ≠ some .invalidateResetTokens ∧
    HasLink user s ∧ LinkFails env o fault metadata s

/-- Using up the links changes the table iff there is one to use up. -/
theorem useLinks_untouched {now : Nat} : s.Untouched (s.useLinks user.id now) ↔ ¬ HasLink user s := by
  have htable : (s.useLinks user.id now).resetTokens = s.resetTokens ↔ ¬ HasLink user s := by
    show s.resetTokens.update (unusedOfUser user.id) (markUsed now) (key_markUsed now) =
      s.resetTokens ↔ _
    rw [Table.update_eq_self_iff, HasLink]
    push Not
    refine forall₂_congr fun r hr => ?_
    constructor
    · intro h hunused
      -- a used link is not an unused one
      have hused := h hunused
      have hnone := hunused
      rw [← hused] at hnone
      simp [unusedOfUser, markUsed] at hnone
    · intro h hunused
      exact absurd hunused h
  exact ⟨fun h => htable.mp h.resetTokens, fun h => ⟨rfl, rfl, rfl, htable.mpr h⟩⟩

theorem insertResetToken_eq_none (row : PasswordResetToken)
    (hu : (s.world.db.users.get row.userId).isSome) :
    s.insertResetToken row = none ↔
      s.resetTokens.Taken PasswordResetToken.tokenHash row.id row.tokenHash ∨
        fitsIpAddress row.ipAddress = false := by
  rw [Accounts.insertResetToken, ite_eq_right_iff, ← Bool.not_eq_true]
  simp only [hu, reduceCtorEq]
  tauto

theorem insertResetToken_world {row : PasswordResetToken} {s' : Accounts}
    (h : s.insertResetToken row = some s') :
    s'.world = s.world := by
  unfold Accounts.insertResetToken at h
  split at h
  · cases h
    rfl
  · cases h

/-- Once the links are used up, the new one is stored iff it could have been before. -/
theorem insertResetToken_useLinks (metadata : SessionMetadata) (now : Nat)
    (hu : (s.world.db.users.get user.id).isSome) :
    (s.useLinks user.id now).insertResetToken (ForgotPassword.newToken env o user metadata) = none ↔
      s.resetTokens.Taken PasswordResetToken.tokenHash o.id (env.hashToken o.token) ∨
        fitsIpAddress metadata.ipAddress = false := by
  rw [insertResetToken_eq_none (s := s.useLinks user.id now)
    (ForgotPassword.newToken env o user metadata) hu]
  exact or_congr_left (Table.taken_update (key_markUsed now) fun _ => rfl)

/-- The link is not stored: the call throws after the earlier links are used up. -/
theorem issueLink_fails (driver : MailDriver) (queueAccepts : Bool) (metadata : SessionMetadata)
    (hfault : fault ≠ some .invalidateResetTokens) (hu : (s.world.db.users.get user.id).isSome)
    (h : LinkFails env o fault metadata s) :
    ∃ e, issueLink env driver o queueAccepts fault user metadata s =
      (.error e, s.useLinks user.id o.now) := by
  have hinsert := h.imp_right (insertResetToken_useLinks metadata o.now hu).mpr
  obtain ⟨e, hfails⟩ := insertRow_fails (fun s => s.insertResetToken _) hinsert
  refine ⟨e, ?_⟩
  rw [issueLink, statement_of_ne hfault, modify_bind]
  exact bind_error hfails

/-- The link is stored: the call returns, whatever becomes of the mail. -/
theorem issueLink_done (driver : MailDriver) (queueAccepts : Bool) (metadata : SessionMetadata)
    (hfault : fault ≠ some .invalidateResetTokens) (hu : (s.world.db.users.get user.id).isSome)
    (h : ¬ LinkFails env o fault metadata s) :
    ∃ s', issueLink env driver o queueAccepts fault user metadata s = (.ok (), s') ∧
      s'.world = s.world := by
  rw [LinkFails, not_or] at h
  have hsome := mt (insertResetToken_useLinks metadata o.now hu).mp h.2
  obtain ⟨s', hs'⟩ := Option.ne_none_iff_exists'.mp hsome
  have hworld : s'.world = (s.useLinks user.id o.now).world := insertResetToken_world hs'
  obtain ⟨mailQueue, hmail⟩ :=
    MailService.sendPasswordReset_ok env driver queueAccepts user.email o.token s'
  refine ⟨{ s' with mailQueue := mailQueue }, ?_, hworld⟩
  rw [issueLink, statement_of_ne hfault, modify_bind, bind_ok (insertRow_done h.1 hs'), hmail]

/-- **`forgotPassword` leaves nothing behind** iff it does not use up a link for a new one that is not
    stored. -/
theorem forgotPassword_leavesNothing :
    LeavesNothing (forgotPassword env driver o queueAccepts fault dto metadata) s ↔
      ¬ LosesLinks env o fault dto metadata s := by
  by_cases hfind : fault = some .findByEmail
  · have hrun : forgotPassword env driver o queueAccepts fault dto metadata s =
      (.error .unexpected, s) :=
      forgotPassword_unread driver o queueAccepts metadata hfind
    exact ⟨fun _ ⟨_, _, h, _⟩ => h hfind, fun _ => leavesNothing_of_same hrun⟩
  cases howner : linkOwner env dto s.world with
  | none =>
      have hrun := forgotPassword_silent driver o queueAccepts metadata hfind howner
      refine ⟨fun _ ⟨user, huser, _⟩ => ?_, fun _ => leavesNothing_of_ok hrun⟩
      rw [howner] at huser
      cases huser
  | some user =>
      have hrun := forgotPassword_issues driver o queueAccepts metadata hfind howner
      have hu := linkOwner_isSome howner
      have hiff : LosesLinks env o fault dto metadata s ↔
          fault ≠ some .invalidateResetTokens ∧ HasLink user s ∧ LinkFails env o fault metadata s := by
        simp [LosesLinks, howner, hfind]
      rw [hiff]
      by_cases hfault : fault = some .invalidateResetTokens
      · have hfails : issueLink env driver o queueAccepts fault user metadata s =
          (.error .unexpected, s) :=
          bind_error (statement_fault hfault)
        exact ⟨fun _ h => h.1 hfault, fun _ => leavesNothing_of_same (hrun.trans hfails)⟩
      by_cases hlink : LinkFails env o fault metadata s
      · obtain ⟨e, hfails⟩ := issueLink_fails driver queueAccepts metadata hfault hu hlink
        rw [leavesNothing_of_error (hrun.trans hfails), useLinks_untouched]
        exact ⟨fun h hboth => h hboth.2.1, fun h hhas => h ⟨hfault, hhas, hlink⟩⟩
      · obtain ⟨s', hdone, -⟩ := issueLink_done driver queueAccepts metadata hfault hu hlink
        exact ⟨fun _ h => hlink h.2.2, fun _ => leavesNothing_of_ok (hrun.trans hdone)⟩

end AuthService

/-- **A failing account flow leaves the tables as they were**, whichever statement fails, with two
    exceptions: a registration whose account is created and whose session is not inserted, and a reset
    request that uses up a link and does not store the new one. -/
theorem failed_flows_leave_nothing (env : Env) (fault : Option DbCall) (metadata : SessionMetadata)
    (s : Accounts) :
    (∀ o oSession dto, LeavesNothing (AuthService.register env o oSession fault dto metadata) s ↔
        ¬ (AuthService.Registers env o fault dto s.world ∧
          AuthService.SessionFails env oSession fault metadata s)) ∧
      ∀ driver o queueAccepts dto,
        LeavesNothing (AuthService.forgotPassword env driver o queueAccepts fault dto metadata) s ↔
          ¬ AuthService.LosesLinks env o fault dto metadata s :=
  ⟨fun _ _ _ => AuthService.register_leavesNothing,
    fun _ _ _ _ => AuthService.forgotPassword_leavesNothing⟩

/-! ## Two failures

Both cases as runs from the seeded deployment, with what a retry meets afterwards. -/

/-- The seeded deployment, where the administrator has a link. -/
def seededAccounts : Accounts where
  world         := seededWorld
  refreshTokens := .empty
  resetTokens   := Table.empty.put ⟨uuidB, seedId 8, "link", 1000, none, none, 0⟩
  mailQueue     := []

def plainMetadata : SessionMetadata := ⟨none, none⟩

def newcomer : RegisterDto := ⟨"c@d.co", "password", none, none⟩

/-- The registration whose session is not inserted. -/
def halfRegister : AccountService RefreshToken :=
  AuthService.register toyEnv (.at 1 uuidA "" uuidA) (.at 1 uuidC "session" uuidA)
    (some .insertRefreshToken) newcomer
    plainMetadata

/-- The reset request whose link is not inserted. -/
def halfReset : AccountService Unit :=
  AuthService.forgotPassword toyEnv .console (.at 1 uuidC "new link" uuidA) true
    (some .insertResetToken) ⟨"a@b.co"⟩
    plainMetadata

/-- **A failed registration keeps the address, a failed reset request takes the link**: every retry of
    the first is answered with 409, and no link of the second can be used. -/
theorem half_done_flows :
    (¬ LeavesNothing halfRegister seededAccounts ∧
        ∀ o oSession, (AuthService.register toyEnv o oSession none newcomer plainMetadata
          (halfRegister seededAccounts).2).1 =
          .error (.http (.conflict "Email is already registered"))) ∧
      ¬ LeavesNothing halfReset seededAccounts ∧
        ∀ r ∈ (halfReset seededAccounts).2.resetTokens.rows, r.usedAt.isSome := by
  refine ⟨⟨?_, fun o oSession => ?_⟩, ?_, by decide +kernel⟩
  · rw [halfRegister, AuthService.register_leavesNothing, not_not]
    refine ⟨⟨by decide, by decide, by decide +kernel, by decide +kernel, ?_⟩, .inl rfl⟩
    exact Option.isSome_iff_exists.mp (by decide +kernel)
  · rw [AuthService.register_conflict o oSession plainMetadata (by decide) (by decide +kernel)]
  · rw [halfReset, AuthService.forgotPassword_leavesNothing, not_not]
    have hlinked : (AuthService.linkOwner toyEnv ⟨"a@b.co"⟩ seededAccounts.world).any
        (fun user => seededAccounts.resetTokens.rows.any (unusedOfUser user.id)) = true := by
          decide +kernel
    obtain ⟨user, howner, hlink⟩ := (Option.any_eq_true _ _).mp hlinked
    exact ⟨user, howner, by decide, by decide, List.any_eq_true.mp hlink, .inl rfl⟩

end NestApp
