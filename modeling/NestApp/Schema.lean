import Mathlib
import NestApp.Lib.Table

/-!
# `Schema` — the entities of the accounts database

The TypeORM entities of `modules/users/entities` and `modules/auth/entities`, column by column, and the
values shared by the services: ids, timestamps, DTOs and HTTP exceptions. Timestamps are milliseconds.
A `uuid` column is compared by value, whatever letter case the text it was given in had, so a `Uuid`
here is its canonical lower-case text, the one the database prints.

The strings are those of JavaScript and of PostgreSQL where the two differ from Lean's: `trim` removes
the white space that `String.prototype.trim` removes, and letter case is folded by two functions of the
environment, one for the services and one for `citext`, which nothing says agree.
-/

namespace NestApp

open Sql

/-! ## Identifiers

Ids arrive as texts from paths, bodies and tokens, and PostgreSQL casts them. Where the code compares
ids as texts and the database compares them as values, the difference can be seen, so both are
modelled. -/

theorem toLower_toLower (s : String) : s.toLower.toLower = s.toLower := by
  simp [String.toLower, String.ext_iff]

/-- A value of a `uuid` column, as its canonical text. -/
@[ext] structure Uuid where
  text      : String
  canonical : text.toLower = text
deriving DecidableEq

/-- The value a `uuid` text denotes: letter case does not matter. -/
def Uuid.cast (text : String) : Uuid := ⟨text.toLower, toLower_toLower text⟩

/-- The canonical text denotes the value itself. -/
@[simp] theorem Uuid.cast_text (u : Uuid) : Uuid.cast u.text = u := by
  cases u with
  | mk text canonical => simp [Uuid.cast, canonical]

/-! ## Entities

One structure for each table, with the columns of the entity. Columns that may be `NULL` are options. -/

/-- The values of `users.status` (`CHK_users_status`). -/
inductive UserStatus where
  | active | inactive | suspended
deriving DecidableEq, Repr

/-- A row of `users`. `deletedAt` marks a soft-deleted account, whose row and address stay. -/
structure User where
  id              : Uuid
  email           : String
  passwordHash    : String
  firstName       : Option String
  lastName        : Option String
  status          : UserStatus
  emailVerifiedAt : Option Nat
  createdAt       : Nat
  updatedAt       : Nat
  deletedAt       : Option Nat
deriving DecidableEq

/-- A row of `refresh_tokens`. The token itself is not stored, only its SHA-256; `replacedByTokenId`
    links a rotated token to its successor in the family. -/
structure RefreshToken where
  id                : Uuid
  tokenHash         : String
  userId            : Uuid
  familyId          : Uuid
  expiresAt         : Nat
  revokedAt         : Option Nat
  replacedByTokenId : Option Uuid
  ipAddress         : Option String
  userAgent         : Option String
  usedAt            : Option Nat
  createdAt         : Nat
deriving DecidableEq

/-- A row of `password_reset_tokens`, of which only the hash of the token is stored. The token itself is
    in the mail. -/
structure PasswordResetToken where
  id        : Uuid
  userId    : Uuid
  tokenHash : String
  expiresAt : Nat
  usedAt    : Option Nat
  ipAddress : Option String
  createdAt : Nat
deriving DecidableEq

instance : Keyed User Uuid := ⟨User.id⟩
instance : Keyed RefreshToken Uuid := ⟨RefreshToken.id⟩
instance : Keyed PasswordResetToken Uuid := ⟨PasswordResetToken.id⟩

@[simp] theorem key_user (u : User) : key u = u.id := rfl
@[simp] theorem key_refreshToken (r : RefreshToken) : key r = r.id := rfl
@[simp] theorem key_resetToken (r : PasswordResetToken) : key r = r.id := rfl

/-- A live refresh token: neither revoked nor used. -/
def RefreshToken.Live (r : RefreshToken) : Prop := r.revokedAt = none ∧ r.usedAt = none

/-! ## Requests and exceptions

The bodies of the requests as the services get them, after validation and transformation, and the
exceptions the services throw. Messages are part of an exception: clients see them. -/

/-- What a session remembers of the request that began it: its address and its user agent, if there are
    any. -/
structure SessionMetadata where
  ipAddress : Option String
  userAgent : Option String
deriving DecidableEq

structure LoginDto where
  email    : String
  password : String
deriving DecidableEq

structure RegisterDto where
  email     : String
  password  : String
  firstName : Option String
  lastName  : Option String
deriving DecidableEq

structure ForgotPasswordDto where
  email : String
deriving DecidableEq

structure ResetPasswordDto where
  token       : String
  newPassword : String
deriving DecidableEq

/-- The HTTP exceptions of the services, with their messages. Whatever else is thrown becomes a 500, and
    its text is not shown. -/
inductive HttpException where
  | badRequest   (message : String)
  | unauthorized (message : String)
  | forbidden    (message : String)
  | notFound     (message : String)
  | conflict     (message : String)
deriving DecidableEq

/-! ## The environment, and strings -/

/-- What the operations are given from outside: the two ways of folding letter case, SHA-256, argon2 and
    the configured lifetimes. -/
structure Env where
  /-- `String.prototype.toLowerCase` -/
  toLowerCase        : String → String
  /-- `lower` in the collation of the database: two `citext` values are compared by it -/
  citextLower        : String → String
  hashToken          : String → String
  hashPassword       : String → String → String
  verifyPassword     : String → String → Bool
  refreshExpiresInMs : Nat
  resetTokenTtlMs    : Nat

/-- The white space and line terminators that `String.prototype.trim` removes. -/
def isTrimmed (c : Char) : Bool :=
  c.val ∈ [9, 10, 11, 12, 13, 32, 0xA0, 0x1680, 0x2028, 0x2029, 0x202F, 0x205F, 0x3000, 0xFEFF] ||
    (0x2000 ≤ c.val && c.val ≤ 0x200A)

/-- `text.trim()`. -/
def trim (text : String) : String :=
  String.ofList ((text.toList.dropWhile isTrimmed).reverse.dropWhile isTrimmed).reverse

/-- A text without white space is its own `trim`. -/
theorem trim_of_no_blanks {text : String} (h : ∀ c ∈ text.toList, isTrimmed c = false) :
    trim text = text := by
  have hdrop : ∀ cs : List Char, (∀ c ∈ cs, isTrimmed c = false) → cs.dropWhile isTrimmed = cs := by
    intro cs hcs
    cases cs with
    | nil       => rfl
    | cons c cs =>
        exact List.dropWhile_cons_of_neg (by rw [hcs c List.mem_cons_self]; exact Bool.false_ne_true)
  unfold trim
  rw [hdrop _ h, hdrop _ fun c hc => h c (List.mem_reverse.mp hc), List.reverse_reverse,
    String.ofList_toList]

/-- `email.trim().toLowerCase()`. -/
def normalizeEmail (env : Env) (email : String) : String := env.toLowerCase (trim email)

/-- `name?.trim() || null`. -/
def trimOrNull (name : Option String) : Option String :=
  match name.map trim with
  | some "" => none
  | other   => other

end NestApp
