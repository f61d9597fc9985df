import NestApp.Auth.PasswordReset
import NestApp.Auth.Session
import NestApp.Rbac.Services

/-!
# `Auth.Accounts` — the account flows, one call after the other

`AuthService.register`, `login`, `forgotPassword` and `resetPassword` and `UsersService.softDelete` as
programs over all the tables they write: the access-control tables, the refresh tokens, the reset
tokens and the mail queue. A call runs alone here; the overlapping calls are the subject of
`Auth.Service`.

Every statement sent to the database can fail: a `DbCall` names a statement, and the program given
`fault := some call` throws there. A failed statement has no effect, a failed `COMMIT` undoes its
transaction.

These programs and those of `Auth.Service` model the same source at two grains. Here a whole call is
one function of the state, which is what a property of one call needs: what it answers, what it leaves
behind when a statement fails, and what a later call then finds.
-/

namespace NestApp

open Sql Prog

/-! ## State

The access-control world of `Rbac.Services` with the two token tables and the mail queue. The tables of
tokens refer to the users by foreign keys, and an `INSERT` checks them. -/

/-- A `password-reset` job of the mail queue. It carries the token, which is stored nowhere else. -/
structure MailJob where
  jobId : String
  email : String
  token : String
deriving DecidableEq

inductive MailDriver where
  | console | smtp
deriving DecidableEq

/-- Everything the account flows read and write: the world of the services, the refresh tokens, the
    reset links and the mail queue. -/
structure Accounts where
  world         : World
  refreshTokens : Table RefreshToken
  resetTokens   : Table PasswordResetToken
  mailQueue     : List MailJob

theorem key_revoke (now : Nat) (r : RefreshToken) : key (revoke now r) = key r := rfl

theorem key_markUsed (now : Nat) (r : PasswordResetToken) : key (markUsed now r) = key r := rfl

abbrev AccountService (α : Type) : Type := Prog Accounts Failure α

/-- The column `ip_address`, a `character varying(45)`, takes the address of the client. Every IPv4 and
    IPv6 address fits; behind a `TRUST_PROXY` that trusts too much, `request.ip` is whatever the client
    writes into `X-Forwarded-For`. -/
def fitsIpAddress (ipAddress : Option String) : Bool := ipAddress.all fun address => address.length ≤ 45

namespace Accounts

/-- `INSERT INTO refresh_tokens`. It fails (`none`) where a unique index or the foreign key is violated,
    and where the address of the client is too long for its column. -/
def insertRefreshToken (s : Accounts) (row : RefreshToken) : Option Accounts :=
  if ¬ s.refreshTokens.Taken RefreshToken.tokenHash row.id row.tokenHash ∧
    (s.world.db.users.get row.userId).isSome ∧
      fitsIpAddress row.ipAddress = true then
    some { s with refreshTokens := s.refreshTokens.put row }
  else none

/-- `INSERT INTO password_reset_tokens`, which fails likewise. -/
def insertResetToken (s : Accounts) (row : PasswordResetToken) : Option Accounts :=
  if ¬ s.resetTokens.Taken PasswordResetToken.tokenHash row.id row.tokenHash ∧
    (s.world.db.users.get row.userId).isSome ∧
      fitsIpAddress row.ipAddress = true then
    some { s with resetTokens := s.resetTokens.put row }
  else none

/-- `UPDATE refresh_tokens SET revoked_at = now WHERE user_id = userId AND revoked_at IS NULL` -/
def revokeTokens (s : Accounts) (userId : Uuid) (now : Nat) : Accounts :=
  { s with refreshTokens := s.refreshTokens.update (liveOfUser userId) (revoke now) (key_revoke now) }

/-- `UPDATE password_reset_tokens SET used_at = now WHERE user_id = userId AND used_at IS NULL` -/
def useLinks (s : Accounts) (userId : Uuid) (now : Nat) : Accounts :=
  { s with resetTokens := s.resetTokens.update (unusedOfUser userId) (markUsed now) (key_markUsed now) }

def putUser (s : Accounts) (row : User) : Accounts :=
  { s with world := { s.world with db := s.world.db.putUser row } }

end Accounts

/-- A call of the access-control services, from a flow that has the token tables as well. -/
def onWorld {α : Type} (m : Service α) : AccountService α :=
  m.zoom Accounts.world fun s w => { s with world := w }

/-- `dataSource.transaction`, over all the tables. -/
def accountTransaction {α : Type} (body : AccountService α) : AccountService α :=
  Prog.transaction
    (fun before after =>
      { after with
        world         := { after.world with db := before.world.db }
        refreshTokens := before.refreshTokens
        resetTokens   := before.resetTokens })
    body

/-! ## Failing statements

The position of a fault is one statement of one call, named as the source has it. `none` is a database
that works. -/

/-- The statements `register` and `forgotPassword` send to the database. One of them may fail. -/
inductive DbCall where
  | findByEmail
  | begin | insertUser | findDefaultRole | findUserRole | insertUserRole | commit
  | insertRefreshToken
  | invalidateResetTokens | insertResetToken
deriving DecidableEq

/-- One statement: it fails if it is the one `fault` names. A statement that fails has written
    nothing. -/
def statement {σ α : Type} (fault : Option DbCall) (call : DbCall) (m : Prog σ Failure α) :
    Prog σ Failure α :=
  if fault = some call then throw .unexpected else m

/-- An `INSERT` outside any transaction. -/
def insertRow (fault : Option DbCall) (call : DbCall) (insert : Accounts → Option Accounts) :
    AccountService Unit :=
  statement fault call do
    let inserted ← gets insert
    let s ← orThrow inserted .uniqueViolation
    modify fun _ => s

variable {α β : Type} {fault : Option DbCall} {s : Accounts}

section Statement

variable {σ : Type} {call : DbCall} {m : Prog σ Failure α}

theorem statement_of_ne (h : fault ≠ some call) : statement fault call m = m := if_neg h

theorem statement_fault (h : fault = some call) {st : σ} :
    statement fault call m st = (.error .unexpected, st) := by
  rw [statement, if_pos h]
  rfl

/-- A statement either fails, with no effect, or is performed. -/
theorem statement_single {f : α → Prog σ Failure β} {R : β → σ → Prop} {E : σ → Prop}
    {st : σ} (hE : E st)
    (hf : fault ≠ some call → Triple (· = st) (m >>= f) R E) :
    Triple (· = st) (statement fault call m >>= f) R E := by
  by_cases h : fault = some call
  · rintro _ rfl
    rw [bind_error (statement_fault h)]
    exact hE
  · rw [statement_of_ne h]
    exact hf h

end Statement

section InsertRow

variable {call : DbCall}

theorem insertRow_fails (insert : Accounts → Option Accounts) (h : fault = some call ∨ insert s = none) :
    ∃ e, insertRow fault call insert s = (.error e, s) := by
  by_cases hfault : fault = some call
  · exact ⟨.unexpected, statement_fault hfault⟩
  · have hnone := h.resolve_left hfault
    refine ⟨.uniqueViolation, ?_⟩
    rw [insertRow, statement_of_ne hfault, gets_bind, hnone, orThrow_bind_none]

theorem insertRow_done {insert : Accounts → Option Accounts} {s' : Accounts}
    (hfault : fault ≠ some call) (h : insert s = some s') :
    insertRow fault call insert s = (.ok (), s') := by
  rw [insertRow, statement_of_ne hfault, gets_bind, h, orThrow_bind_some]
  rfl

end InsertRow

/-- A call of the access-control services, seen from the account flows. -/
theorem onWorld_eq {m : Service α} {r : Except Failure α} {w' : World} (h : m s.world = (r, w')) :
    onWorld m s = (r, { s with world := w' }) := zoom_eq h

/-! ## `UsersService`

What the account flows call there: the lookup by address, the transaction that creates an account with
the default role, and the deletion. -/

/-- The account in use with an address. -/
def Rbac.findByEmail (db : Rbac) (env : Env) (email : String) : Option User :=
  db.users.find? fun u => env.citextLower u.email = env.citextLower email && u.deletedAt.isNone

namespace UsersService

theorem findByEmail_run (env : Env) (email : String) (w : World) :
    findByEmail env email w = (.ok (w.db.findByEmail env email), w) := rfl

/-- The transaction of `createWithDefaultRole`. -/
def createWithDefaultRole (env : Env) (fault : Option DbCall) (row : User) : Service User :=
  transaction do
    statement fault .begin (pure ())
    statement fault .insertUser (save (·.insertUser env row) .uniqueViolation)
    let found ← statement fault .findDefaultRole
      (gets fun w => w.db.roles.find? fun r => r.name = "user")
    let defaultRole ← orThrow found .unexpected
    -- saving an entity with a composite key looks it up first
    statement fault .findUserRole (pure ())
    statement fault .insertUserRole (save (·.insertUserRole row.id defaultRole.id) .unexpected)
    statement fault .commit (pure ())
    return row

/-- Where no statement fails, this is the transaction of the access-control model without given roles. -/
theorem createWithDefaultRole_none (env : Env) (row : User) :
    createWithDefaultRole env none row = createUserInTransaction env row [] := by
  have hbody : ∀ call {α : Type} (m : Service α), statement none call m = m :=
    fun call _ m => statement_of_ne (by simp)
  rw [createWithDefaultRole, createUserInTransaction, assignFirstRoles, if_neg (by simp)]
  simp only [hbody, pure_bind, bind_assoc]

end UsersService

/-- `UsersService.softDelete`, with the token tables. -/
def Accounts.softDelete (o : Choice) (id : String) (actingUserId : Option String) :
    AccountService Unit := do
  throwIf (some id = actingUserId) (.http (.badRequest "Cannot delete your own account"))
  let row ← onWorld (UsersService.findWithRolesOrFail id)
  accountTransaction do
    modify fun s => s.putUser (SoftDelete.withDeletedAt o.now row)
    modify fun s => s.revokeTokens (.cast id) o.now
    modify fun s => s.useLinks (.cast id) o.now
  onWorld (PermissionsService.invalidateUser id)

/-! ## `MailService`

A job is identified by the hash of its token, so the same token is queued once. A queue that refuses a
job is logged and forgotten: the caller never learns of it. -/

namespace MailService

/-- The queue with a job: a job id already in it is not added again. -/
def enqueue (queue : List MailJob) (job : MailJob) : List MailJob :=
  if queue.any (·.jobId = job.jobId) then queue else queue ++ [job]

/-- `queue.add`, which Redis may refuse. -/
def add (accepts : Bool) (job : MailJob) : AccountService Unit :=
  if accepts then modify fun s => { s with mailQueue := enqueue s.mailQueue job } else throw .unexpected

/-- The job id is built from the hash of the token, so that one link is mailed once. -/
def job (env : Env) (email resetToken : String) : MailJob :=
  ⟨"pwreset-" ++ env.hashToken resetToken, email, resetToken⟩

def sendPasswordReset (env : Env) (driver : MailDriver) (accepts : Bool) (email resetToken : String) :
    AccountService Unit :=
  match driver with
  | .console => pure ()
  | .smtp    => Prog.tryCatch (add accepts (job env email resetToken)) fun _ => pure ()

/-- The mail is queued, logged or lost: the call does not throw, and the tables stay. -/
theorem sendPasswordReset_ok (env : Env) (driver : MailDriver) (accepts : Bool)
    (email resetToken : String)
    (s : Accounts) : ∃ mailQueue, sendPasswordReset env driver accepts email resetToken s =
      (.ok (), { s with mailQueue := mailQueue }) := by
  cases driver with
  | console => exact ⟨s.mailQueue, rfl⟩
  | smtp =>
      cases accepts with
      | false => exact ⟨s.mailQueue, rfl⟩
      | true => exact ⟨_, rfl⟩

end MailService

/-! ## `AuthService`

The flows themselves, in the order of their statements. -/

namespace AuthService

def createSession (env : Env) (o : Choice) (fault : Option DbCall) (user : User)
    (metadata : SessionMetadata) :
    AccountService RefreshToken := do
  let row := Session.newToken env o user metadata
  insertRow fault .insertRefreshToken (·.insertRefreshToken row)
  return row

/-- `o` holds what is generated for the user, `oSession` what is generated for the session. -/
def register (env : Env) (o oSession : Choice) (fault : Option DbCall) (dto : RegisterDto)
    (metadata : SessionMetadata) :
    AccountService RefreshToken := do
  let existing ← onWorld
    (statement fault .findByEmail (UsersService.findByEmail env (normalizeEmail env dto.email)))
  throwIf existing.isSome (.http (.conflict "Email is already registered"))
  let user ← onWorld ((UsersService.createWithDefaultRole env fault (Session.newUser env o dto)).mapError
    (rethrowConflictOrOriginal "Email is already registered"))
  createSession env oSession fault user metadata

def invalidCredentials : Failure := .http (.unauthorized "Invalid credentials")

/-- `login`: the address, then the password, then the status. An unknown address and a wrong password
    are answered alike; an account that is not active is told so, but only to somebody who has its
    password. -/
def login (env : Env) (o : Choice) (dto : LoginDto) (metadata : SessionMetadata) :
    AccountService RefreshToken := do
  let found ← onWorld (UsersService.findByEmail env (normalizeEmail env dto.email))
  let user ← orThrow found invalidCredentials
  throwIf (env.verifyPassword user.passwordHash dto.password = false) invalidCredentials
  throwIf (user.status ≠ .active) (.http (.unauthorized "Account is not active"))
  createSession env o none user metadata

/-- The account a reset link is sent to. -/
def linkOwner (env : Env) (dto : ForgotPasswordDto) (w : World) : Option User :=
  (w.db.findByEmail env (normalizeEmail env dto.email)).filter fun user => user.status = .active

/-- The new link: the earlier ones are used up first. There is no transaction around the three steps. -/
def issueLink (env : Env) (driver : MailDriver) (o : Choice) (queueAccepts : Bool)
    (fault : Option DbCall) (user : User)
    (metadata : SessionMetadata) : AccountService Unit := do
  statement fault .invalidateResetTokens (modify fun s => s.useLinks user.id o.now)
  insertRow fault .insertResetToken (·.insertResetToken (ForgotPassword.newToken env o user metadata))
  MailService.sendPasswordReset env driver queueAccepts user.email o.token

/-- `queueAccepts` says whether the mail queue takes the job. -/
def forgotPassword (env : Env) (driver : MailDriver) (o : Choice) (queueAccepts : Bool)
    (fault : Option DbCall)
    (dto : ForgotPasswordDto) (metadata : SessionMetadata) : AccountService Unit := do
  let found ← onWorld (statement fault .findByEmail
    (UsersService.findByEmail env (normalizeEmail env dto.email)))
  match found.filter fun user => user.status = .active with
  | none      => return
  | some user => issueLink env driver o queueAccepts fault user metadata

section ForgotPassword

variable {env : Env} {dto : ForgotPasswordDto} {user : User} (driver : MailDriver)
  (o : Choice) (queueAccepts : Bool)
  (metadata : SessionMetadata)

theorem forgotPassword_unread (h : fault = some .findByEmail) :
    forgotPassword env driver o queueAccepts fault dto metadata s = (.error .unexpected, s) :=
  bind_error (onWorld_eq (statement_fault h))

/-- An unknown address or an inactive account: the call returns. -/
theorem forgotPassword_silent (h : fault ≠ some .findByEmail)
    (howner : linkOwner env dto s.world = none) :
    forgotPassword env driver o queueAccepts fault dto metadata s = (.ok (), s) := by
  rw [linkOwner] at howner
  rw [forgotPassword, statement_of_ne h, bind_ok (onWorld_eq (UsersService.findByEmail_run ..)), howner]
  rfl

theorem forgotPassword_issues (h : fault ≠ some .findByEmail)
    (howner : linkOwner env dto s.world = some user) :
    forgotPassword env driver o queueAccepts fault dto metadata s =
      issueLink env driver o queueAccepts fault user metadata s := by
  rw [linkOwner] at howner
  rw [forgotPassword, statement_of_ne h, bind_ok (onWorld_eq (UsersService.findByEmail_run ..)), howner]

/-- The owner of a link has a row. -/
theorem linkOwner_isSome {w : World} (h : linkOwner env dto w = some user) :
    (w.db.users.get user.id).isSome := by
  obtain ⟨hfound, -⟩ := Option.filter_eq_some_iff.mp h
  have hget : w.db.users.get user.id = some user := Table.get_of_mem (Table.find?_some hfound).1
  rw [hget]
  rfl

end ForgotPassword

def invalidToken : Failure := .http ResetPassword.invalidToken

/-- `resetPassword`: the link must be unused and in its time, and its account in use and active. The
    password, the mark on the link and the revocations are one transaction. -/
def resetPassword (env : Env) (o : Choice) (dto : ResetPasswordDto) : AccountService Unit :=
  accountTransaction do
    let found ← gets fun s => s.resetTokens.find? fun r => r.tokenHash = env.hashToken dto.token
    let record ← orThrow found invalidToken
    throwIf (record.usedAt.isSome ∨ record.expiresAt < o.now) invalidToken
    let owner ← gets fun s => (s.world.db.users.get record.userId).filter fun u => u.deletedAt.isNone
    let user ← orThrow owner invalidToken
    throwIf (user.status ≠ .active) invalidToken
    modify fun s => s.putUser
      (ResetPassword.withPassword (env.hashPassword o.salt dto.newPassword) o.now user)
    modify fun s => { s with resetTokens := s.resetTokens.put (markUsed o.now record) }
    modify fun s => s.revokeTokens user.id o.now

end AuthService

end NestApp
