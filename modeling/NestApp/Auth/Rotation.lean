import NestApp.Auth.Accounts
import NestApp.Auth.Refresh

/-!
# `Auth.Rotation` — `AuthService.refresh` and `logout`, one call after the other

The two operations on the presented cookie, as programs over all the tables. `refresh` commits before
it throws: what its transaction returns is an outcome, and the outcome is what the call answers.

The branches of `judge` are those of `Refresh.classify`, where the same transaction is taken statement
by statement. There the question is what others do meanwhile; here, as part of a request, it is what
the call answers.
-/

namespace NestApp

open Sql Prog

namespace Accounts

/-- `UPDATE refresh_tokens SET revoked_at = now WHERE family_id = familyId AND revoked_at IS NULL` -/
def revokeFamily (s : Accounts) (familyId : Uuid) (now : Nat) : Accounts :=
  { s with
    refreshTokens := s.refreshTokens.update (liveInFamily familyId) (revoke now) (key_revoke now) }

def putRefreshToken (s : Accounts) (row : RefreshToken) : Accounts :=
  { s with refreshTokens := s.refreshTokens.put row }

/-- The row of a presented token. -/
def findRefreshToken (s : Accounts) (env : Env) (token : String) : Option RefreshToken :=
  s.refreshTokens.find? fun r => r.tokenHash = env.hashToken token

/-- The account in use with an id. -/
def findUser (s : Accounts) (id : Uuid) : Option User :=
  (s.world.db.users.get id).filter fun u => u.deletedAt.isNone

end Accounts

namespace AuthService

/-- The last branch: the next token is inserted and the presented one linked to it. -/
def rotateToken (env : Env) (o : Choice) (p : Refresh.Presented) (user : User) :
    AccountService Refresh.Outcome := do
  let next := Refresh.nextToken env o p user
  insertRow none .insertRefreshToken (·.insertRefreshToken next)
  modify fun s => s.putRefreshToken (rotate o.now next.id p.stored)
  return .ok user next

/-- The branches on the row found: a revoked or used token is a theft and revokes its family, an expired
    one is revoked by itself, and one whose account is gone or not active is refused. -/
def judge (env : Env) (o : Choice) (p : Refresh.Presented) : AccountService Refresh.Outcome :=
  if p.stored.revokedAt.isSome || p.stored.usedAt.isSome then do
    modify fun s => s.revokeFamily p.stored.familyId o.now
    return .theft
  else if p.stored.expiresAt < o.now then do
    modify fun s => s.putRefreshToken (revoke o.now p.stored)
    return .expired
  else do
    let owner ← gets fun s => s.findUser p.stored.userId
    match owner.filter fun user => user.status = .active with
    | none      => return .inactive
    | some user => rotateToken env o p user

/-- The transaction of `refresh`. -/
def refreshTransaction (env : Env) (o : Choice) (token : String) (metadata : SessionMetadata) :
    AccountService Refresh.Outcome :=
  accountTransaction do
    let found ← gets fun s => s.findRefreshToken env token
    match found with
    | none        => return .invalid
    | some stored => judge env o ⟨token, metadata, stored⟩

/-- What `refresh` answers, after the commit. -/
def answer : Refresh.Outcome → AccountService (User × RefreshToken) := fun outcome =>
  match outcome.response with
  | .ok session => pure session
  | .error e    => throw (.http e)

/-- `refresh`: the outcome of the transaction is committed first and thrown afterwards, so that a
    detected theft revokes the family although the call fails. -/
def refresh (env : Env) (o : Choice) (presentedToken : Option String) (metadata : SessionMetadata) :
    AccountService (User × RefreshToken) :=
  match presentedToken with
  | none | some "" => throw (.http (.unauthorized "Missing refresh token"))
  | some token     => refreshTransaction env o token metadata >>= answer

/-- Only the presented token is revoked: the others of its family stay. -/
def logout (env : Env) (o : Choice) (presentedToken : Option String) : AccountService Unit :=
  match presentedToken with
  | none | some "" => pure ()
  | some token     => do
      let found ← gets fun s => s.findRefreshToken env token
      match found.filter fun stored => stored.revokedAt.isNone with
      | none        => return
      | some stored => modify fun s => s.putRefreshToken (revoke o.now stored)

end AuthService

end NestApp
