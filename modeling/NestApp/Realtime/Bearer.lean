import NestApp.Realtime.Gateway
import NestApp.Rbac.Seed

/-!
# `Realtime.Bearer` — who a bearer header identifies, on REST and on a socket

REST takes the token from the header with `ExtractJwt.fromAuthHeaderAsBearerToken`, which reads two
words and compares the first with `bearer` in any letter case; `WsJwtGuard` wants the exact text
`Bearer ` and takes everything after it. From the token on, both resolve the user in the same way
(`canActivate_ok`, `authenticate_ok`), to an account that is active and not deleted.

`bearer_identifies`: the two accept the same users for a header iff a token that REST would accept is
written there as `Bearer token`, with this letter case, one blank and nothing else. The library's
tokens have no white space, so whatever a socket accepts REST accepts too.

The JWT library with its secret is a parameter. Nothing is assumed about which tokens it accepts, but
that a token is a text without white space; the payload may be any JSON value, and both sides treat one
without a subject as no identity.
-/

namespace NestApp

open Sql

namespace Realtime

/-! ## `passport-jwt`

The extractor of REST, as the package has it: a regular expression for two words, and a comparison that
ignores letter case. -/

/-- What the extractor makes of a header: the scheme and the value. -/
structure AuthHeader where
  scheme : String
  value  : String
deriving DecidableEq

/-- A character of a word: `\S` -/
def isWord (c : Char) : Bool := !isTrimmed c

/-- `/(\S+)\s+(\S+)/`: the first two words. -/
def parseAuthHeader (header : String) : Option AuthHeader :=
  let first := header.toList.dropWhile isTrimmed
  let second := (first.dropWhile isWord).dropWhile isTrimmed
  let scheme := String.ofList (first.takeWhile isWord)
  let value := String.ofList (second.takeWhile isWord)
  if scheme = "" ∨ value = "" then none else some ⟨scheme, value⟩

/-- `ExtractJwt.fromAuthHeaderAsBearerToken()` -/
def fromAuthHeaderAsBearerToken (authorization : Option String) : Option String :=
  (authorization.bind parseAuthHeader).bind fun header =>
    if header.scheme.toLower = "bearer" then some header.value else none

/-! ## Tokens and users

From a verified payload to a user: the subject must be a text the database takes for an id, and its
account active. -/

/-- A JSON value, as far as the services look into it. -/
inductive JsValue where
  | undefined | null
  | bool (value : Bool)
  | number (value : Rat)
  | text (value : String)
  /-- an array or an object -/
  | composite
deriving DecidableEq

/-- `!!value` -/
def JsValue.truthy : JsValue → Bool
  | .undefined | .null => false
  | .bool value        => value
  | .number value      => value ≠ 0
  | .text value        => value ≠ ""
  | .composite         => true

/-- A verified payload; one that is no object has no `sub`. -/
structure JwtPayload where
  sub : JsValue
deriving DecidableEq

/-- The JWT library with the secret and the expiry rules of the application. -/
structure Jwt where
  /-- what a token verifies to at a time -/
  verify : String → Nat → Option JwtPayload
  /-- a token that verifies is in the compact form, which has no white space -/
  compact : ∀ token now payload, verify token now = some payload → token ≠ "" ∧
    ∀ c ∈ token.toList, isTrimmed c = false

/-- `usersService.findById(sub)`: a value that is no text is no uuid, and the query fails. -/
def findById (db : Rbac) : JsValue → Except Failure (Option User)
  | .text id => .ok ((db.users.get (.cast id)).filter fun user => user.deletedAt.isNone)
  | _        => .error .unexpected

namespace AccessTokenIdentityService

def findActiveUserById (db : Rbac) (sub : JsValue) : Except Failure User :=
  match findById db sub with
  | .error e        => .error e
  | .ok none        => .error (.http (.unauthorized "Account is not active"))
  | .ok (some user) =>
      if user.status = .active then .ok user else .error (.http (.unauthorized "Account is not active"))

def verifyToken (jwt : Jwt) (db : Rbac) (now : Nat) (token : String) : Except Failure User :=
  match jwt.verify token now with
  | none         => .error (.http (.unauthorized "Invalid access token"))
  | some payload =>
      if payload.sub.truthy then findActiveUserById db payload.sub
      else .error (.http (.unauthorized "Invalid access token"))

end AccessTokenIdentityService

/-! ## REST

The strategy and the guard. A payload without a subject is answered like no token at all. -/

namespace JwtAccessStrategy

/-- `null` for a payload without a subject. -/
def validate (db : Rbac) (payload : JwtPayload) : Except Failure (Option User) :=
  if payload.sub.truthy then
    (AccessTokenIdentityService.findActiveUserById db payload.sub).map some else .ok none

end JwtAccessStrategy

/-- `JwtAuthGuard.canActivate` on a route that is not public: the user the request is carried on with. -/
def JwtAuthGuard.canActivate (jwt : Jwt) (db : Rbac) (now : Nat) (authorization : Option String) :
    Except Failure User :=
  match (fromAuthHeaderAsBearerToken authorization).bind fun token => jwt.verify token now with
  | none         => .error (.http (.unauthorized "Unauthorized"))
  | some payload =>
      match JwtAccessStrategy.validate db payload with
      | .error e        => .error e
      | .ok none        => .error (.http (.unauthorized "Unauthorized"))
      | .ok (some user) => .ok user

/-! ## Sockets

The guard of the gateway, with what it leaves on the client. A token may also come in the `auth`
object; then the header does not count. -/

/-- `client.handshake`, `client.data` and whether the client is connected. -/
structure AuthedSocket where
  handshake     : Handshake
  user          : Option User
  correlationId : Option String
  connected     : Bool

/-- `generated` is the correlation id that would be generated. -/
def WsJwtGuard.authenticate (jwt : Jwt) (db : Rbac) (now : Nat) (generated : String)
    (client : AuthedSocket) :
    AuthedSocket × Bool :=
  match extractToken client.handshake with
  | none       => ({ client with connected := false }, false)
  | some token =>
      match AccessTokenIdentityService.verifyToken jwt db now token with
      | .error _ => ({ client with connected := false }, false)
      | .ok user =>
          ({ client with
              user          := some user
              correlationId := some (client.correlationId.getD generated) }, true)

variable {jwt : Jwt} {db : Rbac} {now : Nat} {generated header token : String}
  {authorization : Option String}
  {client : AuthedSocket} {user : User} {sub : JsValue}

/-! ## From the token on

Both sides, reduced to one statement about the token: it is verified, and its account is active and not
deleted. -/

/-- **The users found are active and not deleted**, whatever the subject was. -/
theorem findActiveUserById_ok (h : AccessTokenIdentityService.findActiveUserById db sub = .ok user) :
    user ∈ db.users.rows ∧ user.status = .active ∧ user.deletedAt = none := by
  unfold AccessTokenIdentityService.findActiveUserById at h
  cases sub with
  | text id =>
      cases hfind : (db.users.get (.cast id)).filter fun user => user.deletedAt.isNone with
      | none =>
          rw [findById, hfind] at h
          cases h
      | some found =>
          rw [findById, hfind] at h
          obtain ⟨hget, hlive⟩ := Option.filter_eq_some_iff.mp hfind
          by_cases hactive : found.status = .active
          · simp only [hactive, if_true] at h
            cases h
            exact ⟨Table.get_mem hget, hactive, Option.isNone_iff_eq_none.mp hlive⟩
          · simp only [hactive, if_false] at h
            cases h
  | undefined | null | bool | number | composite => cases h

/-- What a token has to be for a user to be found. -/
theorem verifyToken_ok : AccessTokenIdentityService.verifyToken jwt db now token = .ok user ↔
    ∃ payload, jwt.verify token now = some payload ∧ payload.sub.truthy = true ∧
      AccessTokenIdentityService.findActiveUserById db payload.sub = .ok user := by
  unfold AccessTokenIdentityService.verifyToken
  cases jwt.verify token now with
  | none => simp
  | some payload =>
      cases htruthy : payload.sub.truthy with
      | true => simp [htruthy]
      | false => simp [htruthy]

/-- **REST accepts** the user of the token in the header. -/
theorem canActivate_ok : JwtAuthGuard.canActivate jwt db now authorization = .ok user ↔
    ∃ token, fromAuthHeaderAsBearerToken authorization = some token ∧
      AccessTokenIdentityService.verifyToken jwt db now token = .ok user := by
  unfold JwtAuthGuard.canActivate
  cases hextract : fromAuthHeaderAsBearerToken authorization with
  | none => simp
  | some token =>
      rw [Option.bind_some]
      simp only [Option.some.injEq, exists_eq_left', verifyToken_ok]
      cases jwt.verify token now with
      | none => simp
      | some payload =>
          simp only [JwtAccessStrategy.validate, Option.some.injEq, exists_eq_left']
          cases htruthy : payload.sub.truthy with
          | false => simp
          | true =>
              cases AccessTokenIdentityService.findActiveUserById db payload.sub with
              | error e => simp [Except.map]
              | ok found => simp [Except.map]

/-- **A socket is accepted** as the user of the token in its handshake. -/
theorem authenticate_ok : ((WsJwtGuard.authenticate jwt db now generated client).2 = true ∧
      (WsJwtGuard.authenticate jwt db now generated client).1.user = some user) ↔
    ∃ token, extractToken client.handshake = some token ∧
      AccessTokenIdentityService.verifyToken jwt db now token = .ok user := by
  unfold WsJwtGuard.authenticate
  cases extractToken client.handshake with
  | none => simp
  | some token =>
      cases hverify : AccessTokenIdentityService.verifyToken jwt db now token with
      | error e => simp [hverify]
      | ok found => simp [hverify]

/-! ## The header

The two extractors side by side. Whatever the socket side takes for a token is one for REST, as tokens
have no white space. -/

/-- A socket's token is what follows the text `Bearer `. -/
theorem extractToken_header : extractToken ⟨none, authorization⟩ = some token ↔
    authorization = some ("Bearer " ++ token) ∧ token ≠ "" := by
  have hbearer : ∀ header, bearerToken header = some token ↔ header = "Bearer " ++ token := by
    intro header
    unfold bearerToken String.isPrefixOf
    constructor
    · intro h
      split at h
      · next hstarts =>
          obtain ⟨rest, hrest⟩ := String.startsWith_string_iff.mp hstarts
          have htoken : rest = token.toList := by
            have hdrop := congrArg String.toList (Option.some.inj h)
            rwa [String.toList_ofList, ← hrest, show "Bearer ".length = "Bearer ".toList.length from rfl,
              List.drop_left] at hdrop
          rw [String.ext_iff, ← hrest, htoken, String.toList_append]
      · cases h
    · rintro rfl
      have hstarts : ("Bearer " ++ token).startsWith "Bearer " = true := by
        rw [String.startsWith_string_iff, String.toList_append]
        exact List.prefix_append _ _
      rw [if_pos hstarts, String.toList_append, show "Bearer ".length = "Bearer ".toList.length from rfl,
        List.drop_left,
        String.ofList_toList]
  simp only [extractToken, Option.filter_none, Option.filter_eq_some_iff,
    Option.bind_eq_some_iff, hbearer,
    decide_eq_true_eq]
  constructor
  · rintro ⟨⟨header, hheader, rfl⟩, hne⟩
    exact ⟨hheader, hne⟩
  · rintro ⟨hheader, hne⟩
    exact ⟨⟨_, hheader, rfl⟩, hne⟩

/-- **Written as a socket wants it**, a token without white space is what REST reads too. -/
theorem fromAuthHeader_bearer (hne : token ≠ "") (hword : ∀ c ∈ token.toList, isTrimmed c = false) :
    fromAuthHeaderAsBearerToken (some ("Bearer " ++ token)) = some token := by
  have hchars : ("Bearer " ++ token).toList = "Bearer".toList ++ ' ' :: token.toList := by
    rw [String.toList_append]
    rfl
  have hall : ∀ c ∈ token.toList, isWord c = true := by
    intro c hc
    rw [isWord, hword c hc]
    rfl
  have hstart : (token.toList).dropWhile isTrimmed = token.toList := by
    cases hl : token.toList with
    | nil => rfl
    | cons c l =>
        have hc : isTrimmed c = false := hword c (by rw [hl]; exact List.mem_cons_self)
        rw [List.dropWhile_cons_of_neg (by rw [hc]; exact Bool.false_ne_true)]
  have hparse : parseAuthHeader ("Bearer " ++ token) = some ⟨"Bearer", token⟩ := by
    unfold parseAuthHeader
    rw [hchars]
    have hfirst : ("Bearer".toList ++ ' ' :: token.toList).dropWhile isTrimmed =
      "Bearer".toList ++ ' ' :: token.toList := rfl
    have hscheme : ("Bearer".toList ++ ' ' :: token.toList).takeWhile isWord = "Bearer".toList := rfl
    have hrest : (("Bearer".toList ++ ' ' :: token.toList).dropWhile isWord).dropWhile isTrimmed =
        (token.toList).dropWhile isTrimmed := rfl
    simp only [hfirst, hscheme, hrest, hstart, List.takeWhile_eq_self_iff.mpr hall, String.ofList_toList]
    exact if_neg (by simp [hne])
  unfold fromAuthHeaderAsBearerToken
  rw [Option.bind_some, hparse, Option.bind_some]
  have hscheme : "Bearer".toLower = "bearer" := by decide +kernel
  exact if_pos hscheme

/-! ## Both sides

The equivalence, and the header in lower case that one side accepts. -/

/-- REST and sockets accept the header as the same users, and these are active and not deleted. For a
    header nobody accepts there is nothing to ask. -/
structure SameIdentity (jwt : Jwt) (db : Rbac) (now : Nat) (generated : String) (client : AuthedSocket)
    (authorization : Option String) : Prop where
  agree  : ∀ user,
    ((WsJwtGuard.authenticate jwt db now generated { client with
      handshake := ⟨none, authorization⟩ }).2 = true ∧
      (WsJwtGuard.authenticate jwt db now generated { client with
        handshake := ⟨none, authorization⟩ }).1.user = some user) ↔
    JwtAuthGuard.canActivate jwt db now authorization = .ok user
  active : ∀ user, JwtAuthGuard.canActivate jwt db now authorization = .ok user →
    user ∈ db.users.rows ∧ user.status = .active ∧ user.deletedAt = none

/-- **REST and sockets agree on a header iff a token REST accepts is written there exactly as `Bearer
    token`.** For every library, database and time. -/
theorem bearer_identifies (jwt : Jwt) (db : Rbac) (now : Nat) (generated : String)
    (client : AuthedSocket)
    (authorization : Option String) :
    SameIdentity jwt db now generated client authorization ↔
      ∀ token user, fromAuthHeaderAsBearerToken authorization = some token →
        AccessTokenIdentityService.verifyToken jwt db now token = .ok user →
          authorization = some ("Bearer " ++ token) := by
  have hcompact : ∀ token user, AccessTokenIdentityService.verifyToken jwt db now token = .ok user →
      token ≠ "" ∧ ∀ c ∈ token.toList, isTrimmed c = false := by
    intro token user hverify
    obtain ⟨payload, hpayload, -⟩ := verifyToken_ok.mp hverify
    exact jwt.compact token now payload hpayload
  constructor
  · intro h token user hrest hverify
    -- the socket accepts the user too, by a token that REST then reads in the header
    obtain ⟨token', hextract, hverify'⟩ :=
      authenticate_ok.mp ((h.agree user).mpr (canActivate_ok.mpr ⟨token, hrest, hverify⟩))
    obtain ⟨rfl, -⟩ := extractToken_header.mp hextract
    obtain ⟨hne, hword⟩ := hcompact token' user hverify'
    rw [fromAuthHeader_bearer hne hword] at hrest
    rw [Option.some.inj hrest]
  · intro hwritten
    refine ⟨fun user => ?_, fun user haccepted => ?_⟩
    · rw [authenticate_ok, canActivate_ok]
      constructor
      · rintro ⟨token, hextract, hverify⟩
        obtain ⟨rfl, -⟩ := extractToken_header.mp hextract
        obtain ⟨hne, hword⟩ := hcompact token user hverify
        exact ⟨token, fromAuthHeader_bearer hne hword, hverify⟩
      · rintro ⟨token, hrest, hverify⟩
        exact ⟨token, extractToken_header.mpr ⟨hwritten token user hrest hverify,
          (hcompact token user hverify).1⟩, hverify⟩
    · obtain ⟨token, -, hverify⟩ := canActivate_ok.mp haccepted
      obtain ⟨payload, -, -, hfind⟩ := verifyToken_ok.mp hverify
      exact findActiveUserById_ok hfind

/-- A library that verifies one token, signed for a user with the id `a`. -/
def oneToken : Jwt where
  verify token _ := if token = "tok" then some ⟨.text uuidA.text⟩ else none
  compact token _ _ h := by
    split at h
    · next htoken =>
        subst htoken
        have hwords : ("tok".toList.all fun c => !isTrimmed c) = true := by decide +kernel
        exact ⟨by decide, by simpa using List.all_eq_true.mp hwords⟩
    · cases h

/-- `bearer tok`, in lower case, is accepted by REST and refused on a socket. -/
theorem bearer_in_lower_case :
    ¬ ∀ (jwt : Jwt) (db : Rbac) (now : Nat) (generated : String) (client : AuthedSocket)
    (authorization : Option String), SameIdentity jwt db now generated client authorization := by
  intro h
  have hsame := h oneToken (Rbac.empty.putUser alice) 0 "id" ⟨⟨none, none⟩, none, none, true⟩
    (some "bearer tok")
  have hrest : JwtAuthGuard.canActivate oneToken (Rbac.empty.putUser alice) 0 (some "bearer tok") =
    .ok alice := by
    have hfind : findById (Rbac.empty.putUser alice) (.text uuidA.text) = .ok (some alice) := by
      show Except.ok (((Rbac.empty.putUser alice).users.get (.cast uuidA.text)).filter _) = _
      rw [Uuid.cast_text]
      rfl
    refine canActivate_ok.mpr ⟨"tok", by
      decide +kernel, verifyToken_ok.mpr ⟨⟨.text uuidA.text⟩, rfl, by decide, ?_⟩⟩
    unfold AccessTokenIdentityService.findActiveUserById
    rw [hfind]
    rfl
  have hsocket := (hsame.agree alice).mpr hrest
  exact absurd hsocket.1 (by decide +kernel)

end Realtime

end NestApp
