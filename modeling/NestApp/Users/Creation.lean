import NestApp.Rbac.Replace
import NestApp.Rbac.Seed

/-!
# `Users.Creation` — accounts that are created at the same time

`AuthService.register` and `UsersService.create` ask whether the email is taken, hash the password, and
insert the user with its first roles in one transaction. What closes the gap is the unique index on the
emails of the accounts that are not deleted: an `INSERT` waits for another one of the same email, and
for a deletion that frees it, and then either goes through or raises 23505, which both services answer
with 409.

`accounts_are_exclusive` is about every interleaving of these calls with `softDelete`. A `create` reads
the account back after its commit: when a deletion was faster, the caller gets 404, and the row,
deleted, stays (`created_and_gone`).
-/

namespace NestApp

open Sql

namespace Creation

/-! ## Calls

Both services run the same transaction and differ in what stands around it: `register` gives the
default role and then opens a session, `create` gives the roles named and reads the account back. The
hash is a step of its own, as it takes long enough for anything to happen. -/

/-- What is asked for: a registration, or a creation by an administrator with a list of roles. A
    deletion is a call of its own. -/
inductive Request where
  | register (dto : RegisterDto) (metadata : SessionMetadata)
  | create (dto : CreateUserDto)

namespace Request

def dto : Request → RegisterDto
  | register dto _ => dto
  | create dto     => dto.toRegisterDto

/-- The roles to give; the default role if there are none. -/
def roleIds : Request → List String
  | register _ _ => []
  | create dto   => dto.roleIds.getD []

def email (env : Env) (r : Request) : String := normalizeEmail env r.dto.email

end Request

/-- The accounts, with the tokens, and the rows of `user_roles`. -/
structure Server (C : Type) where
  db        : Db C
  userRoles : List UserRole
  /-- what transactions in flight have entered into the unique index on `email` -/
  inserting : List (C × User)

/-- The points of the three operations. A transaction is between `insertUser` and its commit; the email
    is looked up before it. -/
inductive Pc where
  | start (r : Request)
  /-- in the transaction, before its first statement -/
  | insertUser (r : Request)
  | assignRoles (r : Request) (user : User)
  | commit (r : Request) (user : User) (roleIds : List Uuid)
  /-- `register` is to open the session, `create` to read the account back -/
  | committed (r : Request) (user : User)
  | done (r : Request) (user : User)
  /-- threw, after its commit if there is a user -/
  | failed (r : Request) (user : Option User) (e : Failure)
  | softDelete (pc : SoftDelete.Pc)

/-- What the unique index makes of an `INSERT`: it goes through, it fails, or it waits. -/
inductive IndexAnswer where
  | free | taken
  /-- another transaction decides -/
  | waits
deriving DecidableEq

variable {C : Type}

namespace Server

/-- What the partial unique index says to an `INSERT` with this email. -/
def emailIndex (env : Env) (sv : Server C) (email : String) : IndexAnswer :=
  if sv.inserting.any fun e => env.citextLower e.2.email = env.citextLower email then .waits
  else match sv.db.findByEmail env email with
    | none     => .free
    -- a locked row is about to be deleted, unless its transaction rolls back
    | some row => if (sv.db.users.owner row.id).isSome then .waits else .taken

variable [DecidableEq C]

def insertUser (sv : Server C) (c : C) (user : User) : Option (Server C) :=
  (sv.db.users.insert c [] user).map fun st =>
    { sv with db := { sv.db with users := st.1 }, inserting := (c, user) :: sv.inserting }

def rollback (sv : Server C) (c : C) : Server C :=
  { sv with db := sv.db.rollback c, inserting := sv.inserting.filter fun e => e.1 ≠ c }

def commit (sv : Server C) (c : C) (user : User) (roleIds : List Uuid) : Server C where
  db        := sv.db.commit c { users := [.put user] }
  userRoles := roleIds.map (⟨user.id, ·⟩) ++ sv.userRoles
  inserting := sv.inserting.filter fun e => e.1 ≠ c

end Server

def knownRoles (access : Rbac) : List Uuid := access.roles.rows.map Role.id

/-- `assignRoles` of a new user, or the default role: the roles whose rows are inserted. -/
def firstRoles (access : Rbac) (roleIds : List String) : Except Failure (List Uuid) :=
  if roleIds ≠ [] then
    let distinctIds := roleIds.eraseDups
    let existing := existingIds (knownRoles access) distinctIds
    if existing.length ≠ distinctIds.length then .error (unknownIds "role" existing distinctIds)
    else .ok (distinctIds.map Uuid.cast)
  else match access.roles.find? fun r => r.name = "user" with
    | some role => .ok [role.id]
    | none      => .error .unexpected

def alreadyRegistered : String := "Email is already registered"

/-- `access` has the roles, which these calls do not change. -/
def exec [DecidableEq C] (env : Env) (access : Rbac) : Pool.Code (Server C) Pc Choice C :=
  fun c sv pc o =>
  match pc with
  | .start r                  =>
      if (sv.db.findByEmail env (r.email env)).isSome then
        some (sv, .failed r none (.http (.conflict alreadyRegistered)))
      else some (sv, .insertUser r)
  | .insertUser r             =>
      match sv.emailIndex env (r.email env) with
      | .waits => none
      | .taken =>
          some (sv.rollback c,
          .failed r none (rethrowConflictOrOriginal alreadyRegistered .uniqueViolation))
      | .free  =>
          let user := Session.newUser env o r.dto
          (sv.insertUser c user).map fun sv' => (sv', .assignRoles r user)
  | .assignRoles r user       =>
      match firstRoles access r.roleIds with
      | .error e    =>
          some (sv.rollback c, .failed r none (rethrowConflictOrOriginal alreadyRegistered e))
      | .ok roleIds => some (sv, .commit r user roleIds)
  | .commit r user roleIds    => some (sv.commit c user roleIds, .committed r user)
  | .committed r user         =>
      match r with
      | .register _ metadata =>
          (Session.step env c sv.db o (.createSession user metadata)).map fun s =>
            ({ sv with db := s.1 }, .done r user)
      | .create _            =>
          -- `findWithRolesOrFail`
          if (sv.db.findUser {} user.id).isSome then some (sv, .done r user)
          else some (sv, .failed r (some user) (.http (.notFound "User not found")))
  | .softDelete pc            =>
      (SoftDelete.step c sv.db o pc).map fun s => ({ sv with db := s.1 }, .softDelete s.2)
  | .done _ _ | .failed _ _ _ => none

namespace Pc

def request : Pc → Option Request
  | start r | insertUser r | assignRoles r _ | commit r _ _ | committed r _ | done r _ | failed r _ _ =>
      some r
  | softDelete _ => none

/-- The account the call has committed. -/
def created : Pc → Option User
  | committed _ user | done _ user => some user
  | failed _ user _                => user
  | start _ | insertUser _ | assignRoles _ _ | commit _ _ _ | softDelete _ => none

end Pc

abbrev State (C : Type) := Pool.Config (Server C) Pc C

/-- Two values of the `citext` column are equal. -/
def SameEmail (env : Env) (a b : String) : Prop := env.citextLower a = env.citextLower b

/-- What the partial unique index on `email` guarantees. -/
def UniqueEmails (env : Env) (users : Table User) : Prop :=
  ∀ {k k' u u'}, users.get k = some u → users.get k' = some u' → u.deletedAt = none →
    u'.deletedAt = none →
    SameEmail env u.email u'.email → k = k'

/-- No call has begun. -/
structure Initial (env : Env) (s : State C) : Prop where
  calls     : ∀ c, (∃ r, s.calls c = .start r) ∨ ∃ id acting, s.calls c = .softDelete (.start id acting)
  inserting : s.shared.inserting = []
  unique    : UniqueEmails env s.shared.db.users.table

/-- The step does not commit the deletion of an account with this email. -/
def KeepsEmail (env : Env) (email : String) : Pool.Allowed (Server C) Pc Choice C := fun s c _ =>
  ∀ id tx row, s.calls c = .softDelete (.sweepResetTokens id [] tx) →
    s.shared.db.users.table.get id = some row →
    ¬ SameEmail env row.email email

/-- The list names existing roles, each in one spelling. -/
def Accepted (access : Rbac) (roleIds : List String) : Prop :=
  (∀ id ∈ roleIds, Uuid.cast id ∈ knownRoles access) ∧ OneSpelling roleIds

/-! ## What a step can do

The steps of the three operations, with everything they publish. A proof about runs looks at these
cases and not at the operations. -/

/-- What a step can do. -/
inductive Moves [DecidableEq C] (env : Env) (access : Rbac) (c : C) (sv : Server C) :
    Pc → Server C → Pc → Prop where
  | taken {r} (h : (sv.db.findByEmail env (r.email env)).isSome) :
      Moves env access c sv (.start r) sv (.failed r none (.http (.conflict alreadyRegistered)))
  | passes {r} : Moves env access c sv (.start r) sv (.insertUser r)
  | violates {r} (h : sv.emailIndex env (r.email env) = .taken) :
      Moves env access c sv (.insertUser r) (sv.rollback c)
        (.failed r none (.http (.conflict alreadyRegistered)))
  | inserts {r o sv'} (h : sv.emailIndex env (r.email env) = .free)
      (hinsert : sv.insertUser c (Session.newUser env o r.dto) = some sv') :
      Moves env access c sv (.insertUser r) sv' (.assignRoles r (Session.newUser env o r.dto))
  | refused {r user e} (h : firstRoles access r.roleIds = .error e) :
      Moves env access c sv (.assignRoles r user) (sv.rollback c)
        (.failed r none (rethrowConflictOrOriginal alreadyRegistered e))
  | assigns {r user roleIds} (h : firstRoles access r.roleIds = .ok roleIds) :
      Moves env access c sv (.assignRoles r user) sv (.commit r user roleIds)
  | commits {r user roleIds} :
      Moves env access c sv (.commit r user roleIds) (sv.commit c user roleIds) (.committed r user)
  | opens {r user db'} (hframe : Db.Frame c sv.db db') (htable : db'.users.table = sv.db.users.table) :
      Moves env access c sv (.committed r user) { sv with db := db' } (.done r user)
  | gone {dto user} (h : sv.db.findUser {} user.id = none) :
      Moves env access c sv (.committed (.create dto) user) sv
        (.failed (.create dto) (some user) (.http (.notFound "User not found")))
  | softDelete {o pc pc' db'} (h : SoftDelete.step c sv.db o pc = some (db', pc')) :
      Moves env access c sv (.softDelete pc) { sv with db := db' } (.softDelete pc')

/-- What a step does to the row of an account: nothing, insert it, or mark it as deleted. -/
inductive RowStep (sv sv' : Server C) (pc : Pc) (k : Uuid) : Prop where
  | same (h : sv'.db.users.table.get k = sv.db.users.table.get k)
  | created {r user roleIds} (hpc : pc = .commit r user roleIds) (hk : k = user.id)
      (h : sv'.db.users.table.get k = some user)
  | deleted {tx row now} (hpc : pc = .softDelete (.sweepResetTokens k [] tx))
      (hrow : sv.db.users.table.get k = some row)
      (h : sv'.db.users.table.get k = some (SoftDelete.withDeletedAt now row))

/-- What a step of `c` leaves alone. -/
structure Frame (c : C) (sv sv' : Server C) : Prop where
  db        : Db.Frame c sv.db sv'.db
  inserting : ∀ {d user}, d ≠ c → ((d, user) ∈ sv'.inserting ↔ (d, user) ∈ sv.inserting)
  userRoles : ∀ {row}, row ∈ sv.userRoles → row ∈ sv'.userRoles

/-- **The invariant of the index**: at most one of the live accounts and of the inserts in flight has an
    email. -/
structure Index (env : Env) (sv : Server C) : Prop where
  unique  : UniqueEmails env sv.db.users.table
  pending : ∀ {c d u v}, (c, u) ∈ sv.inserting → (d, v) ∈ sv.inserting →
    SameEmail env u.email v.email → c = d
  free    : ∀ {c u k row}, (c, u) ∈ sv.inserting → sv.db.users.table.get k = some row →
    row.deletedAt = none →
    ¬ SameEmail env row.email u.email

variable [DecidableEq C] {env : Env} {access : Rbac} {c d : C} {sv sv' : Server C}
  {pc pc' : Pc} {o : Choice}
  {r : Request} {user : User} {roleIds : List Uuid}

/-- Opening a session leaves the accounts alone. -/
theorem session_users {metadata : SessionMetadata} {db db' : Db C} {pc' : Session.Pc}
    (h : Session.step env c db o (.createSession user metadata) = some (db', pc')) :
      db'.users.table = db.users.table := by
  rcases Session.step_cases h with ⟨rfl, -⟩ | ⟨dto, metadata', hpc, -⟩ |
    ⟨user', metadata', db₁, -, -, -, hinsert, rfl⟩
  · rfl
  · cases hpc
  · simp [Db.commit, (Db.insertRefreshToken_inTx hinsert).usersTable]

theorem exec_moves (h : exec env access c sv pc o = some (sv', pc')) :
    Moves env access c sv pc sv' pc' := by
  cases pc with
  | start r =>
      simp only [exec] at h
      split at h
      · next htaken =>
        cases h
        exact .taken htaken
      · cases h
        exact .passes
  | insertUser r =>
      simp only [exec] at h
      cases hindex : sv.emailIndex env (r.email env) with
      | waits =>
          rw [hindex] at h
          cases h
      | taken =>
          rw [hindex] at h
          cases h
          exact .violates hindex
      | free =>
          rw [hindex] at h
          obtain ⟨sv'', hinsert, hres⟩ := Option.map_eq_some_iff.mp h
          cases hres
          exact .inserts hindex hinsert
  | assignRoles r user =>
      simp only [exec] at h
      cases hroles : firstRoles access r.roleIds with
      | error e =>
          rw [hroles] at h
          cases h
          exact .refused hroles
      | ok roleIds =>
          rw [hroles] at h
          cases h
          exact .assigns hroles
  | commit r user roleIds =>
      cases h
      exact .commits
  | committed r user =>
      cases r with
      | register dto metadata =>
          obtain ⟨⟨db', pc''⟩, hstep, hres⟩ := Option.map_eq_some_iff.mp h
          cases hres
          exact .opens (Session.step_frame hstep) (session_users hstep)
      | create dto =>
          simp only [exec] at h
          split at h
          · cases h
            exact .opens .refl rfl
          · next hnone =>
            cases h
            exact .gone (Option.not_isSome_iff_eq_none.mp hnone)
  | softDelete pc =>
      obtain ⟨⟨db', pc''⟩, hstep, hres⟩ := Option.map_eq_some_iff.mp h
      cases hres
      exact .softDelete hstep
  | done r user => cases h
  | failed r user e => cases h

/-! ## The first roles

The ids of the list are checked inside the transaction. A list that is not accepted ends it, so the
user that was inserted before is gone. -/

omit [DecidableEq C] in
theorem nodup_knownRoles : (knownRoles access).Nodup := access.roles.nodup

omit [DecidableEq C] in
/-- An accepted list gives the new user a role, any other list is answered with 400. -/
theorem firstRoles_cases (access : Rbac) (roleIds : List String) :
    (Accepted access roleIds ∧ ∃ ids, ids ≠ [] ∧ firstRoles access roleIds = .ok ids) ∨
      (¬ Accepted access roleIds ∧
        ∃ message, firstRoles access roleIds = .error (.http (.badRequest message))) ∨
      (access.roles.find? (fun r => r.name = "user") = none ∧
        firstRoles access roleIds = .error .unexpected) := by
  unfold firstRoles
  by_cases hnil : roleIds = []
  · subst hnil
    rw [if_neg (not_not.mpr rfl)]
    cases hrole : access.roles.find? fun r => r.name = "user" with
    | some role => exact .inl ⟨⟨by simp, by simp [OneSpelling]⟩, [role.id], by simp, rfl⟩
    | none => exact .inr (.inr ⟨rfl, rfl⟩)
  · rw [if_pos hnil]
    by_cases haccepted : Accepted access roleIds
    · have hlength := (length_existingIds nodup_knownRoles).mpr haccepted
      have hne : roleIds.eraseDups.map Uuid.cast ≠ [] := by
        obtain ⟨id, hid⟩ := List.exists_mem_of_ne_nil roleIds hnil
        exact List.ne_nil_of_mem (List.mem_map_of_mem (List.mem_eraseDups.mpr hid))
      exact .inl ⟨haccepted, _, hne, if_neg (not_not.mpr hlength)⟩
    · have hlength := mt (length_existingIds nodup_knownRoles).mp haccepted
      exact .inr (.inl ⟨haccepted, _, if_pos hlength⟩)

/-! ## The table of the accounts

The row an insert has locked and not committed is invisible to everybody but the index. -/

/-- What is known of a call at each point, as far as its own row goes. -/
def RowOk (c : C) (sv : Server C) : Pc → Prop
  | .assignRoles _ user | .commit _ user _ =>
      sv.db.users.owner user.id = some c ∧ sv.db.users.table.get user.id = none
  | .softDelete pc => SoftDelete.Ok c sv.db pc
  | _ => True

omit [DecidableEq C] in
theorem insertUser_cases (h : sv.insertUser c user = some sv') :
    sv.db.users.table.get user.id = none ∧ sv.db.users.owner user.id = none ∧
      sv' = { sv with db := { sv.db with
        users := sv.db.users.lock c user.id }, inserting := (c, user) :: sv.inserting } := by
  obtain ⟨⟨st, ws⟩, hinsert, rfl⟩ := Option.map_eq_some_iff.mp h
  obtain ⟨habsent, hfree, rfl, -⟩ := Store.insert_cases hinsert
  exact ⟨habsent, hfree, rfl⟩

theorem Moves.row (h : Moves env access c sv pc sv' pc') (hok : RowOk c sv pc) (k : Uuid) :
    RowStep sv sv' pc k := by
  cases h with
  | taken | passes | violates | refused | assigns | gone => exact .same rfl
  | inserts hindex hinsert =>
      obtain ⟨-, -, rfl⟩ := insertUser_cases hinsert
      exact .same rfl
  | opens hframe htable => exact .same (by rw [htable])
  | @commits r user roleIds =>
      have hget : (sv.commit c user roleIds).db.users.table.get k = if k = user.id then
        some user else sv.db.users.table.get k :=
        Table.get_view_put _ user [] k
      by_cases hk : k = user.id
      · exact .created rfl hk (hget.trans (if_pos hk))
      · exact .same (hget.trans (if_neg hk))
  | @softDelete o pc pc' db' h =>
      rcases SoftDelete.step_cases h hok with ⟨hin, -, -⟩ | ⟨id, tx, rfl, rfl, rfl⟩
      · exact .same (by rw [hin.usersTable])
      · obtain ⟨-, row, now, hid, ⟨hrow, -⟩, hput⟩ := hok
        have hget : (sv.db.commit c tx).users.table.get k =
            if k = row.id then some (SoftDelete.withDeletedAt now row) else sv.db.users.table.get k := by
          show (sv.db.users.table.view tx.users).get k = _
          rw [hput]
          exact Table.get_view_put _ (SoftDelete.withDeletedAt now row) [] k
        by_cases hk : k = row.id
        · subst hk
          subst hid
          exact .deleted rfl hrow (hget.trans (if_pos rfl))
        · exact .same (hget.trans (if_neg hk))

/-! ## Frames

What a call knows about its own row survives the steps of the others, because the row is locked up to
the commit and its id is its own. -/

theorem mem_rollback_inserting {x : C × User} :
    x ∈ (sv.inserting.filter fun e => e.1 ≠ c) ↔ x ∈ sv.inserting ∧ x.1 ≠ c := by
  rw [List.mem_filter, decide_eq_true_eq]

theorem Moves.frame (h : Moves env access c sv pc sv' pc') (hok : RowOk c sv pc) : Frame c sv sv' := by
  have hrefl : Frame c sv sv := ⟨.refl, fun _ => Iff.rfl, id⟩
  have hdrop : ∀ {d user}, d ≠ c →
    ((d, user) ∈ (sv.inserting.filter fun e => e.1 ≠ c) ↔ (d, user) ∈ sv.inserting) := by
    intro d user hd
    rw [mem_rollback_inserting]
    exact and_iff_left hd
  cases h with
  | taken | passes | assigns | gone => exact hrefl
  | violates | refused => exact ⟨Db.frame_rollback, hdrop, id⟩
  | inserts hindex hinsert =>
      obtain ⟨-, hfree, rfl⟩ := insertUser_cases hinsert
      refine ⟨⟨Store.frame_lock (.inl hfree), .refl, .refl, id, id⟩, fun hd => ?_, id⟩
      rw [List.mem_cons, or_iff_right]
      rintro heq
      exact hd (Prod.mk.inj heq).1
  | opens hframe htable => exact ⟨hframe, fun _ => Iff.rfl, id⟩
  | @commits r user roleIds =>
      have howned : sv.db.users.Owned c [.put user] := .cons hok.1 .nil
      refine ⟨⟨Store.frame_commit howned, Store.frame_commit .nil, Store.frame_commit .nil,
        id, fun {k} hk => ?_⟩, hdrop,
        fun hrow => List.mem_append_right _ hrow⟩
      show ((sv.db.users.table.view [.put user]).get k).isSome
      rw [Table.get_view_put]
      split
      · rfl
      · exact hk
  | softDelete h => exact ⟨(SoftDelete.step_ok h hok).2.1, fun _ => Iff.rfl, id⟩

omit [DecidableEq C] in
theorem RowOk.frame (h : RowOk d sv pc) (hf : Frame c sv sv') (hd : d ≠ c) : RowOk d sv' pc := by
  cases pc with
  | start | insertUser | committed | done | failed => trivial
  | assignRoles r user => exact ⟨hf.db.users.held hd h.1, (hf.db.users.row hd h.1).trans h.2⟩
  | commit r user roleIds => exact ⟨hf.db.users.held hd h.1, (hf.db.users.row hd h.1).trans h.2⟩
  | softDelete pc => exact SoftDelete.Ok.frame h hf.db hd

theorem Moves.rowOk (h : Moves env access c sv pc sv' pc') (hok : RowOk c sv pc) : RowOk c sv' pc' := by
  cases h with
  | taken | passes | violates | refused | commits | opens | gone => trivial
  | inserts hindex hinsert =>
      obtain ⟨habsent, -, rfl⟩ := insertUser_cases hinsert
      exact ⟨Store.lock_owner_self, habsent⟩
  | assigns => exact hok
  | softDelete h => exact (SoftDelete.step_ok h hok).1

/-! ## The index

The partial unique index compares the new address with those of accounts in use and of inserts in
flight. It answers at once, or it makes the statement wait for the transaction it depends on. -/

omit [DecidableEq C] in
/-- What the index knows when it admits an email. -/
theorem emailIndex_free {email : String} (h : sv.emailIndex env email = .free) :
    (∀ {d v}, (d, v) ∈ sv.inserting → ¬ SameEmail env v.email email) ∧
      ∀ {k row}, sv.db.users.table.get k = some row → row.deletedAt = none →
        ¬ SameEmail env row.email email := by
  unfold Server.emailIndex at h
  split at h
  · cases h
  · next hany =>
    refine ⟨fun {d v} hmem hsame => hany ?_, fun {k row} hrow hlive hsame => ?_⟩
    · rw [List.any_eq_true]
      exact ⟨(d, v), hmem, decide_eq_true hsame⟩
    · split at h
      · next hnone =>
        rw [Db.findByEmail, Table.find?, List.find?_eq_none] at hnone
        have hnot := hnone row (Table.get_eq_some.mp hrow).1
        rw [hlive] at hnot
        exact hnot (by simpa [SameEmail] using hsame)
      · split at h <;> cases h

omit [DecidableEq C] in
theorem emailIndex_taken {email : String} (h : sv.emailIndex env email = .taken) :
    (sv.db.findByEmail env email).isSome := by
  unfold Server.emailIndex at h
  split at h
  · cases h
  · cases hfind : sv.db.findByEmail env email with
    | some row => rfl
    | none =>
        rw [hfind] at h
        cases h

omit [DecidableEq C] in
/-- Fewer live accounts, and fewer inserts. -/
theorem Index.mono (hI : Index env sv)
    (hlive : ∀ {k row}, sv'.db.users.table.get k = some row → row.deletedAt = none →
      sv.db.users.table.get k = some row)
    (hinserting : ∀ {x}, x ∈ sv'.inserting → x ∈ sv.inserting) : Index env sv' where
  unique hu hu' hlu hlu'       := hI.unique (hlive hu hlu) (hlive hu' hlu') hlu hlu'
  pending hc hd                := hI.pending (hinserting hc) (hinserting hd)
  free hc hrow hlrow           := hI.free (hinserting hc) (hlive hrow hlrow) hlrow

/-! ## What a call knows

From the insert on a call has a user; from the commit on it has an account; after that only a deletion
can take it away, and then the row is there and marked. -/

/-- The user that is inserted, and not committed. -/
structure Pending (env : Env) (c : C) (sv : Server C) (r : Request) (user : User) : Prop where
  entry : (c, user) ∈ sv.inserting
  email : user.email = r.email env
  live  : user.deletedAt = none

/-- The account that was committed, with a role. It may have been deleted since. -/
structure Created (env : Env) (access : Rbac) (sv : Server C) (r : Request) (user : User) : Prop where
  row      : ∃ row, sv.db.users.table.get user.id = some row ∧ row.email = user.email
  email    : user.email = r.email env
  role     : ∃ roleId, ⟨user.id, roleId⟩ ∈ sv.userRoles
  accepted : Accepted access r.roleIds

/-- The row is there, and deleted. -/
def Gone (sv : Server C) (user : User) : Prop :=
  ∃ row, sv.db.users.table.get user.id = some row ∧ row.deletedAt.isSome

/-- Why a call throws without an account. -/
def Refusal (access : Rbac) (r : Request) (e : Failure) : Prop :=
  e = .http (.conflict alreadyRegistered) ∨
    (¬ Accepted access r.roleIds ∧ ∃ message, e = .http (.badRequest message)) ∨
    access.roles.find? (fun r => r.name = "user") = none ∧ e = .unexpected

/-- What a call knows at each point. -/
def Ok (env : Env) (access : Rbac) (c : C) (sv : Server C) : Pc → Prop
  | .start _ | .insertUser _ | .softDelete _  => True
  | .assignRoles r user                       => Pending env c sv r user
  | .commit r user roleIds                    =>
      Pending env c sv r user ∧ roleIds ≠ [] ∧ Accepted access r.roleIds
  | .committed r user | .done r user          => Created env access sv r user
  | .failed r none e                          => Refusal access r e
  | .failed r (some user) e                   =>
      Created env access sv r user ∧ Gone sv user ∧ (∃ dto, r = .create dto) ∧
        e = .http (.notFound "User not found")

/-- Accounts are not removed, keep their email, and stay deleted. -/
def Keeps (sv sv' : Server C) : Prop :=
  ∀ {k row}, sv.db.users.table.get k = some row →
    ∃ row', sv'.db.users.table.get k = some row' ∧ row'.email = row.email ∧
      (row.deletedAt.isSome → row'.deletedAt.isSome)

theorem Moves.keeps (h : Moves env access c sv pc sv' pc') (hok : RowOk c sv pc) : Keeps sv sv' := by
  intro k row hrow
  cases h.row hok k with
  | same hsame => exact ⟨row, hsame.trans hrow, rfl, id⟩
  | created hpc hk hnew =>
      subst hpc
      subst hk
      rw [hok.2] at hrow
      cases hrow
  | deleted hpc hold hnew =>
      obtain rfl := Option.some.inj (hold.symm.trans hrow)
      exact ⟨_, hnew, rfl, fun _ => rfl⟩

omit [DecidableEq C] in
theorem Created.mono (h : Created env access sv r user) (hk : Keeps sv sv')
    (hroles : ∀ {row}, row ∈ sv.userRoles → row ∈ sv'.userRoles) : Created env access sv' r user := by
  obtain ⟨⟨row, hrow, hemail⟩, hr, ⟨roleId, hrole⟩, haccepted⟩ := h
  obtain ⟨row', hrow', hemail', -⟩ := hk hrow
  exact ⟨⟨row', hrow', hemail'.trans hemail⟩, hr, ⟨roleId, hroles hrole⟩, haccepted⟩

omit [DecidableEq C] in
theorem Gone.mono (h : Gone sv user) (hk : Keeps sv sv') : Gone sv' user := by
  obtain ⟨row, hrow, hdeleted⟩ := h
  obtain ⟨row', hrow', -, hkept⟩ := hk hrow
  exact ⟨row', hrow', hkept hdeleted⟩

omit [DecidableEq C] in
theorem Ok.frame (h : Ok env access d sv pc) (hf : Frame c sv sv') (hk : Keeps sv sv')
    (hd : d ≠ c) : Ok env access d sv' pc := by
  have hpending : ∀ {r user}, Pending env d sv r user → Pending env d sv' r user :=
    fun hp => ⟨(hf.inserting hd).mpr hp.entry, hp.email, hp.live⟩
  cases pc with
  | start | insertUser | softDelete => trivial
  | assignRoles r user => exact hpending h
  | commit r user roleIds => exact ⟨hpending h.1, h.2⟩
  | committed r user => exact h.mono hk hf.userRoles
  | done r user => exact h.mono hk hf.userRoles
  | failed r user e =>
      cases user with
      | none => exact h
      | some user => exact ⟨h.1.mono hk hf.userRoles, h.2.1.mono hk, h.2.2⟩

theorem Moves.ok (h : Moves env access c sv pc sv' pc') (hrow : RowOk c sv pc)
    (hok : Ok env access c sv pc) :
    Ok env access c sv' pc' := by
  have hkeeps : Keeps sv sv' := h.keeps hrow
  have hroles : ∀ {row}, row ∈ sv.userRoles → row ∈ sv'.userRoles := (h.frame hrow).userRoles
  cases h with
  | taken | violates => exact .inl rfl
  | passes | softDelete => trivial
  | inserts hindex hinsert =>
      obtain ⟨-, -, rfl⟩ := insertUser_cases hinsert
      exact ⟨List.mem_cons_self, rfl, rfl⟩
  | @refused r user e hrefused =>
      rcases firstRoles_cases access r.roleIds with ⟨-, ids, -, hids⟩ | ⟨hnot, message, herror⟩ |
        ⟨hnone, herror⟩
      · cases hids.symm.trans hrefused
      · cases herror.symm.trans hrefused
        exact .inr (.inl ⟨hnot, message, rfl⟩)
      · cases herror.symm.trans hrefused
        exact .inr (.inr ⟨hnone, rfl⟩)
  | @assigns r user roleIds hassigns =>
      rcases firstRoles_cases access r.roleIds with ⟨haccepted, ids, hne, hids⟩ |
        ⟨-, message, herror⟩ | ⟨-, herror⟩
      · cases hids.symm.trans hassigns
        exact ⟨hok, hne, haccepted⟩
      · cases herror.symm.trans hassigns
      · cases herror.symm.trans hassigns
  | @commits r user roleIds =>
      obtain ⟨hpending, hne, haccepted⟩ := hok
      obtain ⟨roleId, hrole⟩ := List.exists_mem_of_ne_nil roleIds hne
      have hget : (sv.commit c user roleIds).db.users.table.get user.id = some user :=
        (Table.get_view_put _ user [] user.id).trans (if_pos rfl)
      exact ⟨⟨user, hget, rfl⟩, hpending.email,
        ⟨roleId, List.mem_append_left _ (List.mem_map_of_mem hrole)⟩, haccepted⟩
  | opens => exact Created.mono hok hkeeps hroles
  | @gone dto user hnone =>
      refine ⟨hok, ?_, ⟨dto, rfl⟩, rfl⟩
      obtain ⟨⟨row, hget, -⟩, -⟩ := hok
      have hfilter := Option.filter_eq_none_iff.mp hnone row hget
      exact ⟨row, hget, by simpa [Option.isSome_iff_ne_none] using hfilter⟩

/-- **One step keeps the index**: no two accounts in use have one address, and no insertion that is
    under way has the address of either. -/
theorem Moves.index (h : Moves env access c sv pc sv' pc') (hrow : RowOk c sv pc)
    (hok : Ok env access c sv pc)
    (hI : Index env sv) : Index env sv' := by
  cases h with
  | taken | passes | assigns | gone => exact hI
  | violates | refused => exact hI.mono (fun h _ => h) fun h => (mem_rollback_inserting.mp h).1
  | opens hframe htable =>
      refine hI.mono (fun {k row} h _ => ?_) id
      rw [← h, ← htable]
  | @softDelete o pc pc' db' h =>
      have hmove : Moves env access c sv (.softDelete pc) { sv with db := db' } (.softDelete pc') :=
        .softDelete h
      refine hI.mono (fun {k row} hget hlive => ?_) id
      cases hmove.row hrow k with
      | same hsame => exact hsame.symm.trans hget
      | created hpc => cases hpc
      | deleted hpc hold hnew =>
          cases hnew.symm.trans hget
          cases hlive
  | @inserts r o sv' hindex hinsert =>
      obtain ⟨-, -, rfl⟩ := insertUser_cases hinsert
      obtain ⟨hpending, hfree⟩ := emailIndex_free hindex
      refine ⟨hI.unique, fun {c' d u v} hu hv hsame => ?_, fun {c' u k row} hu hget hlive => ?_⟩
      · rcases List.mem_cons.mp hu with hnew | hold <;> rcases List.mem_cons.mp hv with hnew' | hold'
        · exact (Prod.mk.inj hnew).1.trans (Prod.mk.inj hnew').1.symm
        · obtain ⟨rfl, rfl⟩ := Prod.mk.inj hnew
          exact absurd hsame.symm (hpending hold')
        · obtain ⟨rfl, rfl⟩ := Prod.mk.inj hnew'
          exact absurd hsame (hpending hold)
        · exact hI.pending hold hold' hsame
      · rcases List.mem_cons.mp hu with hnew | hold
        · obtain ⟨rfl, rfl⟩ := Prod.mk.inj hnew
          exact hfree hget hlive
        · exact hI.free hold hget hlive
  | @commits r user roleIds =>
      have hentry := hok.1.entry
      -- a live row is the new one, or one of before
      have hlive : ∀ {k row}, (sv.commit c user roleIds).db.users.table.get k = some row →
          (k = user.id ∧ row = user) ∨ sv.db.users.table.get k = some row := by
        intro k row hget
        have hmove : Moves env access c sv (.commit r user roleIds) (sv.commit c user roleIds)
          (.committed r user) := .commits
        cases hmove.row hrow k with
        | same hsame => exact .inr (hsame.symm.trans hget)
        | created hpc hk hnew =>
            cases hpc
            exact .inl ⟨hk, (Option.some.inj (hnew.symm.trans hget)).symm⟩
        | deleted hpc => cases hpc
      refine ⟨fun {k k' u u'} hu hu' hl hl' hsame => ?_, fun {c' d u v} hu hv hsame => ?_,
        fun {c' u k row} hu hget hl hsame => ?_⟩
      · rcases hlive hu with ⟨hk, hnew⟩ | hold <;> rcases hlive hu' with ⟨hk', hnew'⟩ | hold'
        · exact hk.trans hk'.symm
        · rw [hnew] at hsame
          exact absurd hsame.symm (hI.free hentry hold' hl')
        · rw [hnew'] at hsame
          exact absurd hsame (hI.free hentry hold hl)
        · exact hI.unique hold hold' hl hl' hsame
      · exact hI.pending (mem_rollback_inserting.mp hu).1 (mem_rollback_inserting.mp hv).1 hsame
      · obtain ⟨hmem, hne⟩ := mem_rollback_inserting.mp hu
        rcases hlive hget with ⟨-, hnew⟩ | hold
        · rw [hnew] at hsame
          exact hne (hI.pending hmem hentry hsame.symm)
        · exact hI.free hmem hold hl hsame

/-! ## Runs

The three parts of the invariant together: the index, the outlines, and the rows that are kept. -/

variable {s t u : State C}

/-- **The invariant of every run**: the unique index, the row that each call has in flight, and what
    each call knows. -/
structure Sound (env : Env) (access : Rbac) (t : State C) : Prop where
  index : Index env t.shared
  rows  : ∀ c, RowOk c t.shared (t.calls c)
  calls : ∀ c, Ok env access c t.shared (t.calls c)

/-- **One step keeps it**: for the call that moves by `Moves`, for the others because rows are kept. -/
theorem Sound.step (hI : Sound env access t) (hst : Pool.step (exec env access) t c o = some u) :
    Sound env access u := by
  obtain ⟨sv, pc, hexec, rfl⟩ := Pool.step_cases hst
  have hmove := exec_moves hexec
  have hframe := hmove.frame (hI.rows c)
  have hkeeps : Keeps t.shared sv := hmove.keeps (hI.rows c)
  refine ⟨hmove.index (hI.rows c) (hI.calls c) hI.index, fun d => ?_, fun d => ?_⟩
  · by_cases hd : d = c
    · subst hd
      show RowOk d sv (Function.update t.calls d pc d)
      rw [Function.update_self]
      exact hmove.rowOk (hI.rows d)
    · show RowOk d sv (Function.update t.calls c pc d)
      rw [Function.update_of_ne hd]
      exact (hI.rows d).frame hframe hd
  · by_cases hd : d = c
    · subst hd
      show Ok env access d sv (Function.update t.calls d pc d)
      rw [Function.update_self]
      exact hmove.ok (hI.rows d) (hI.calls d)
    · show Ok env access d sv (Function.update t.calls c pc d)
      rw [Function.update_of_ne hd]
      exact (hI.calls d).frame hframe hkeeps hd

omit [DecidableEq C] in
theorem Initial.sound (h : Initial env s) : Sound env access s := by
  refine ⟨⟨h.unique, ?_, ?_⟩, fun c => ?_, fun c => ?_⟩
  · rw [h.inserting]
    intro c d u v hu
    cases hu
  · rw [h.inserting]
    intro c u k row hu
    cases hu
  · rcases h.calls c with ⟨r, hc⟩ | ⟨id, acting, hc⟩ <;> rw [hc] <;> trivial
  · rcases h.calls c with ⟨r, hc⟩ | ⟨id, acting, hc⟩ <;> rw [hc] <;> trivial

theorem sound_of_run (hs : Initial env s) (h : Pool.Steps (exec env access) s t) : Sound env access t :=
  h.invariant (fun hI _ hst => hI.step hst) hs.sound

/-! ## Whose rows they are

Rows are counted back to the calls that committed them, so that a call without an account has left
none. -/

/-- A call comes to have an account when it commits. -/
theorem Moves.created (h : Moves env access c sv pc sv' pc') (hcreated : pc'.created = some user) :
    pc.created = some user ∨ ∃ r roleIds, pc = .commit r user roleIds ∧
      sv' = sv.commit c user roleIds := by
  cases h with
  | taken | passes | violates | inserts | refused | assigns | softDelete => cases hcreated
  | opens | gone => exact .inl hcreated
  | commits =>
      cases hcreated
      exact .inr ⟨_, _, rfl, rfl⟩

/-- And keeps it. -/
theorem Moves.created_mono (h : Moves env access c sv pc sv' pc') (hcreated : pc.created = some user) :
    pc'.created = some user := by
  cases h with
  | taken | passes | violates | inserts | refused | assigns | commits | softDelete => cases hcreated
  | opens | gone => exact hcreated

theorem Moves.of_commit (h : Moves env access c sv (.commit r user roleIds) sv' pc') :
    sv' = sv.commit c user roleIds ∧ pc' = .committed r user := by
  cases h
  exact ⟨rfl, rfl⟩

/-- The rows of `user_roles` that a step adds are those of the account it commits. -/
theorem Moves.userRoles {row : UserRole} (h : Moves env access c sv pc sv' pc')
    (hrow : row ∈ sv'.userRoles) :
    row ∈ sv.userRoles ∨ ∃ r user roleIds, pc = .commit r user roleIds ∧ user.id = row.userId := by
  cases h with
  | taken | passes | violates | refused | assigns | opens | gone | softDelete => exact .inl hrow
  | inserts hindex hinsert =>
      obtain ⟨-, -, rfl⟩ := insertUser_cases hinsert
      exact .inl hrow
  | commits =>
      rcases List.mem_append.mp hrow with hnew | hold
      · obtain ⟨roleId, -, rfl⟩ := List.mem_map.mp hnew
        exact .inr ⟨_, _, _, rfl, rfl⟩
      · exact .inl hold

/-- Every row of the run is one of the start, or belongs to exactly one call. No two calls make one
    account. -/
structure Attributed (s t : State C) : Prop where
  kept     : ∀ {k}, (s.shared.db.users.table.get k).isSome → (t.shared.db.users.table.get k).isSome
  users    : ∀ {k row}, t.shared.db.users.table.get k = some row →
    (s.shared.db.users.table.get k).isSome ∨ ∃ c user, (t.calls c).created = some user ∧ user.id = k
  roles    : ∀ {row}, row ∈ t.shared.userRoles →
    row ∈ s.shared.userRoles ∨ ∃ c user, (t.calls c).created = some user ∧ user.id = row.userId
  fresh    : ∀ {c user}, (t.calls c).created = some user → s.shared.db.users.table.get user.id = none
  distinct : ∀ {c d user user'}, (t.calls c).created = some user → (t.calls d).created = some user' →
    user.id = user'.id → c = d

omit [DecidableEq C] in
theorem Initial.attributed (h : Initial env s) : Attributed s s := by
  have hnone : ∀ {c user}, (s.calls c).created ≠ some user := by
    intro c user hcreated
    rcases h.calls c with ⟨r, hc⟩ | ⟨id, acting, hc⟩ <;> rw [hc] at hcreated <;> cases hcreated
  refine ⟨id, fun hrow => .inl (by rw [hrow]; rfl), fun hrow => .inl hrow, fun h => absurd h hnone,
    fun h => absurd h hnone⟩

omit [DecidableEq C] in
theorem Sound.created_row (hI : Sound env access t) (h : (t.calls c).created = some user) :
    ∃ r, (t.calls c).request = some r ∧ Created env access t.shared r user := by
  have hok := hI.calls c
  generalize t.calls c = pc at h hok
  cases pc with
  | start | insertUser | assignRoles | commit | softDelete => cases h
  | committed r user' =>
      cases h
      exact ⟨r, rfl, hok⟩
  | done r user' =>
      cases h
      exact ⟨r, rfl, hok⟩
  | failed r user' e =>
      cases h
      exact ⟨r, rfl, hok.1⟩

/-- **One step keeps it.** A new row is the one of the call that commits. -/
theorem Attributed.step (hJ : Sound env access t) (hI : Attributed s t)
    (hst : Pool.step (exec env access) t c o = some u) :
    Attributed s u := by
  obtain ⟨sv, pc, hexec, rfl⟩ := Pool.step_cases hst
  have hmove := exec_moves hexec
  have hrow := hJ.rows c
  have hkeeps : Keeps t.shared sv := hmove.keeps hrow
  -- an account is one of before, or the one this step commits
  have hcreated : ∀ {d user}, (Function.update t.calls c pc d).created = some user →
    (t.calls d).created = some user ∨
      d = c ∧ ∃ r roleIds, t.calls c = .commit r user roleIds ∧ sv = t.shared.commit c user roleIds := by
    intro d user h
    rcases eq_or_ne d c with rfl | hd
    · rw [Function.update_self] at h
      exact (hmove.created h).imp_right fun hnew => ⟨rfl, hnew⟩
    · rw [Function.update_of_ne hd] at h
      exact .inl h
  have hmono : ∀ {d user}, (t.calls d).created = some user →
    (Function.update t.calls c pc d).created = some user := by
    intro d user h
    rcases eq_or_ne d c with rfl | hd
    · rw [Function.update_self]
      exact hmove.created_mono h
    · rw [Function.update_of_ne hd]
      exact h
  have habsent : ∀ {r user roleIds}, t.calls c = .commit r user roleIds →
    t.shared.db.users.table.get user.id = none := by
    intro r user roleIds hpc
    rw [hpc] at hrow
    exact hrow.2
  have hpresent : ∀ {d user}, (t.calls d).created = some user →
    ∃ row, t.shared.db.users.table.get user.id = some row := by
    intro d user h
    obtain ⟨r, -, ⟨row, hget, -⟩, -⟩ := hJ.created_row h
    exact ⟨row, hget⟩
  have hcommit : ∀ {r user roleIds}, t.calls c = .commit r user roleIds →
      ∃ d user', (Function.update t.calls c pc d).created = some user' ∧ user'.id = user.id := by
    intro r user roleIds hpc
    rw [hpc] at hmove
    refine ⟨c, user, ?_, rfl⟩
    rw [Function.update_self, hmove.of_commit.2]
    rfl
  constructor
  · intro k hk
    obtain ⟨row, hget⟩ := Option.isSome_iff_exists.mp (hI.kept hk)
    obtain ⟨row', hget', -⟩ := hkeeps hget
    exact Option.isSome_iff_exists.mpr ⟨row', hget'⟩
  · intro k row hget
    have hold : ∀ {row}, t.shared.db.users.table.get k = some row →
      (s.shared.db.users.table.get k).isSome ∨
        ∃ d user, (Function.update t.calls c pc d).created = some user ∧ user.id = k := by
      intro row hget
      rcases hI.users hget with hstart | ⟨d, user, hd, hid⟩
      · exact .inl hstart
      · exact .inr ⟨d, user, hmono hd, hid⟩
    cases hmove.row hrow k with
    | same hsame => exact hold (hsame.symm.trans hget)
    | created hpc hk hnew =>
        obtain ⟨d, user', hd, hid⟩ := hcommit hpc
        exact .inr ⟨d, user', hd, hid.trans hk.symm⟩
    | deleted hpc hget' hnew => exact hold hget'
  · intro row hmem
    rcases hmove.userRoles hmem with hmem | ⟨r, user, roleIds, hpc, hid⟩
    · rcases hI.roles hmem with hstart | ⟨d, user, hd, hid⟩
      · exact .inl hstart
      · exact .inr ⟨d, user, hmono hd, hid⟩
    · obtain ⟨d, user', hd, hid'⟩ := hcommit hpc
      exact .inr ⟨d, user', hd, hid'.trans hid⟩
  · intro d user h
    rcases hcreated h with h | ⟨-, r, roleIds, hpc, -⟩
    · exact hI.fresh h
    · rw [Option.eq_none_iff_forall_ne_some]
      intro row hget
      have hsome := hI.kept (Option.isSome_iff_exists.mpr ⟨row, hget⟩)
      rw [habsent hpc] at hsome
      cases hsome
  · intro d d' user user' h h' heq
    rcases hcreated h with hold | ⟨hd, r, roleIds, hpc, -⟩ <;> rcases hcreated h' with hold' |
      ⟨hd', r', roleIds', hpc', -⟩
    · exact hI.distinct hold hold' heq
    · obtain ⟨row, hget⟩ := hpresent hold
      cases (heq ▸ habsent hpc').symm.trans hget
    · obtain ⟨row, hget⟩ := hpresent hold'
      cases (heq ▸ habsent hpc).symm.trans hget
    · exact hd.trans hd'.symm

theorem attributed_of_run (hs : Initial env s) (h : Pool.Steps (exec env access) s t) : Attributed s t :=
  h.invariant_with (fun h => sound_of_run hs h) (fun hJ hI _ hst => hI.step hJ hst) hs.attributed

/-! ## At most one account between two deletions

Two commits for one address need a deletion between them: an account that is committed stays live until
a deletion of its address commits, and the index admits nobody else as long. -/

/-- As long as no account with the email is deleted, the accounts committed with it stay live. -/
theorem live_of_run {email : String} (ht : Sound env access t)
    (h : Pool.Run (exec env access) (KeepsEmail env email) t u)
    (hbefore : (t.calls c).created = none) (hcreated : (u.calls c).created = some user)
    (hsame : SameEmail env user.email email) :
    ∃ row, u.shared.db.users.table.get user.id = some row ∧ row.deletedAt = none ∧
      row.email = user.email := by
  have hall : ∀ user, (u.calls c).created = some user → SameEmail env user.email email →
      ∃ row, u.shared.db.users.table.get user.id = some row ∧ row.deletedAt = none ∧
        row.email = user.email := by
    refine h.invariant_with (I := fun u => ∀ user, (u.calls c).created = some user →
      SameEmail env user.email email →
      ∃ row, u.shared.db.users.table.get user.id = some row ∧ row.deletedAt = none ∧
        row.email = user.email)
      (J := Sound env access) (fun h => h.steps.invariant (fun hI _ hst => hI.step hst) ht) ?_ ?_
    · intro v d a w hJ hI hok hst user hcreated hsame
      obtain ⟨sv, pc, hexec, rfl⟩ := Pool.step_cases hst
      have hmove := exec_moves hexec
      have hrow := hJ.rows d
      have hold : (v.calls c).created = some user →
          ∃ row, sv.db.users.table.get user.id = some row ∧ row.deletedAt = none ∧
            row.email = user.email := by
        intro hcreated
        obtain ⟨row, hget, hlive, hemail⟩ := hI user hcreated hsame
        cases hmove.row hrow user.id with
        | same h => exact ⟨row, h.trans hget, hlive, hemail⟩
        | created hpc hk hnew =>
            rw [hpc] at hrow
            rw [hk, hrow.2] at hget
            cases hget
        | deleted hpc hget' hnew =>
            obtain rfl := Option.some.inj (hget.symm.trans hget')
            have hnot := hok _ _ row hpc hget
            rw [hemail] at hnot
            exact absurd hsame hnot
      rcases eq_or_ne c d with rfl | hne
      · rcases hmove.created ((congrArg Pc.created (Function.update_self ..)).symm.trans
          hcreated) with hcreated | ⟨r, roleIds, hpc, rfl⟩
        · exact hold hcreated
        · have hpending : Ok env access c v.shared (v.calls c) := hJ.calls c
          rw [hpc] at hpending
          exact ⟨user, (Table.get_view_put _ user [] user.id).trans (if_pos rfl), hpending.1.live, rfl⟩
      · exact hold ((congrArg Pc.created (Function.update_of_ne hne ..)).symm.trans hcreated)
    · intro user hcreated
      rw [hbefore] at hcreated
      cases hcreated
  exact hall user hcreated hsame

/-! ## Why a call is answered with 409

Two steps can give this answer, the lookup before the transaction and the `INSERT` itself. In both the
address is found in use in that very state. -/

theorem refusal_ne_conflict {e : Failure} (h : firstRoles access r.roleIds = .error e) :
    rethrowConflictOrOriginal alreadyRegistered e ≠ .http (.conflict alreadyRegistered) := by
  rcases firstRoles_cases access r.roleIds with ⟨-, ids, -, hids⟩ | ⟨-, message, herror⟩ | ⟨-, herror⟩
  · cases hids.symm.trans h
  · cases herror.symm.trans h
    simp [rethrowConflictOrOriginal]
  · cases herror.symm.trans h
    simp [rethrowConflictOrOriginal]

/-- **The step that answered the call with 409** found its email taken, in the pre-check or in the
    index. -/
structure RefusedAt (env : Env) (access : Rbac) (s t v w : State C) (c : C) (r : Request) : Prop where
  before : Pool.Steps (exec env access) s v
  step   : ∃ o, Pool.step (exec env access) v c o = some w
  after  : Pool.Steps (exec env access) w t
  asks   : v.calls c = .start r ∨ v.calls c = .insertUser r
  answer : w.calls c = .failed r none (.http (.conflict alreadyRegistered))
  taken  : (v.shared.db.findByEmail env (r.email env)).isSome

/-- A call is answered with 409 by a step that found its email taken. -/
theorem exists_refusedAt (hs : Initial env s) (h : Pool.Steps (exec env access) s t)
    (hc : t.calls c = .failed r none (.http (.conflict alreadyRegistered))) :
      ∃ v w, RefusedAt env access s t v w c r := by
  have hstart : ¬ s.calls c = .failed r none (.http (.conflict alreadyRegistered)) := by
    rcases hs.calls c with ⟨r', hc⟩ | ⟨id, acting, hc⟩ <;> rw [hc] <;> simp
  have hown : ∀ {v o w}, Pool.Steps (exec env access) s v → Pool.anyStep v c o →
    Pool.step (exec env access) v c o = some w →
      w.calls c = .failed r none (.http (.conflict alreadyRegistered)) →
      v.calls c = .failed r none (.http (.conflict alreadyRegistered)) ∨
        (v.calls c = .start r ∨ v.calls c = .insertUser r) ∧
          w.calls c = .failed r none (.http (.conflict alreadyRegistered)) ∧
          (v.shared.db.findByEmail env (r.email env)).isSome := by
    intro v o w hv _ hst hconflict
    obtain ⟨sv, pc, hexec, rfl⟩ := Pool.step_cases hst
    have hmove := exec_moves hexec
    have hpc : pc = .failed r none (.http (.conflict alreadyRegistered)) :=
      (Function.update_self ..).symm.trans hconflict
    generalize v.calls c = pc₀ at hmove ⊢
    cases hmove with
    | taken htaken =>
        cases hpc
        exact .inr ⟨.inl rfl, hconflict, htaken⟩
    | violates hindex =>
        cases hpc
        exact .inr ⟨.inr rfl, hconflict, emailIndex_taken hindex⟩
    | refused hrefused =>
        injection hpc with hr _ he
        subst hr
        exact absurd he (refusal_ne_conflict hrefused)
    | passes | inserts | assigns | commits | opens | gone | softDelete => cases hpc
  obtain ⟨v, o, w, hv, -, hst, ⟨hasks, hanswer, htaken⟩, hw⟩ :=
    h.happened (P := fun pc => pc = .failed r none (.http (.conflict alreadyRegistered)))
      (E := fun v _ w => (v.calls c = .start r ∨ v.calls c = .insertUser r) ∧
        w.calls c = .failed r none (.http (.conflict alreadyRegistered)) ∧
          (v.shared.db.findByEmail env (r.email env)).isSome)
      hstart hown hc
  exact ⟨v, w, hv, ⟨o, hst⟩, hw, hasks, hanswer, htaken⟩

/-! ## The property

Everything a caller or an operator can tell afterwards, call by call and row by row. -/

/-- What a run leaves behind, call by call. -/
structure Accounted (env : Env) (access : Rbac) (s t : State C) : Prop where
  /-- without an account, a call ends with 409, or with 400 for a list that is not accepted -/
  refused  : ∀ c r e, t.calls c = .failed r none e → e = .http (.conflict alreadyRegistered) ∨
    ¬ Accepted access r.roleIds ∧ ∃ message, e = .http (.badRequest message)
  /-- 409 says that the email was taken at the step that gave this answer -/
  conflict : ∀ c r, t.calls c = .failed r none (.http (.conflict alreadyRegistered)) →
    ∃ v w, RefusedAt env access s t v w c r
  /-- with an account, only a `create` throws: 404, when the account is deleted -/
  gone     : ∀ c r user e, t.calls c = .failed r (some user) e →
    (∃ dto, r = .create dto) ∧ e = .http (.notFound "User not found") ∧ Gone t.shared user
  /-- an account is there, has the normalised email and at least one role, and its list was accepted -/
  created  : ∀ c r user, (t.calls c).request = some r → (t.calls c).created = some user →
    (∃ row, t.shared.db.users.table.get user.id = some row) ∧ user.email = r.email env ∧
      (∃ roleId, ⟨user.id, roleId⟩ ∈ t.shared.userRoles) ∧ Accepted access r.roleIds
  /-- no other call leaves a row -/
  users    : ∀ k row, t.shared.db.users.table.get k = some row →
    (s.shared.db.users.table.get k).isSome ∨ ∃ c user, (t.calls c).created = some user ∧ user.id = k
  roles    : ∀ row ∈ t.shared.userRoles, row ∈ s.shared.userRoles ∨
    ∃ c user, (t.calls c).created = some user ∧ user.id = row.userId
  /-- and no two have the same one -/
  distinct : ∀ c d user user', (t.calls c).created = some user → (t.calls d).created = some user' →
    user.id = user'.id → c = d

/-- **Account creation is exclusive per email, and loses cleanly**, in every interleaving with
    deletions: while no account with the email is deleted, at most one call for it commits an account;
    and every call is accounted for. -/
theorem accounts_are_exclusive (env : Env) (access : Rbac) (s : State C) (hs : Initial env s)
    (hrole : (access.roles.find? fun r => r.name = "user").isSome) :
    (∀ t email u, Pool.Steps (exec env access) s t →
      Pool.Run (exec env access) (KeepsEmail env email) t u →
      ∀ c d r r', (u.calls c).request = some r → (u.calls d).request = some r' →
        SameEmail env (r.email env) email → SameEmail env (r'.email env) email →
        (t.calls c).created = none → (t.calls d).created = none →
        (u.calls c).created ≠ none → (u.calls d).created ≠ none → c = d) ∧
      ∀ t, Pool.Steps (exec env access) s t → Accounted env access s t := by
  refine ⟨?_, fun t ht => ?_⟩
  · intro t email u ht hu c d r r' hr hr' hsame hsame' hbefore hbefore' hcreated hcreated'
    obtain ⟨user, huser⟩ := Option.ne_none_iff_exists'.mp hcreated
    obtain ⟨user', huser'⟩ := Option.ne_none_iff_exists'.mp hcreated'
    have hsound := sound_of_run hs ht
    have hu' := ht.trans hu.steps
    have hsoundu := sound_of_run hs hu'
    -- the account has the email of its request
    have hemail : ∀ {c r user}, (u.calls c).request = some r → (u.calls c).created = some user →
      user.email = r.email env := by
      intro c r user hr huser
      obtain ⟨r₀, hr₀, hcreated⟩ := hsoundu.created_row huser
      cases hr.symm.trans hr₀
      exact hcreated.email
    obtain ⟨row, hget, hlive, hrow⟩ := live_of_run hsound hu hbefore huser (hemail hr huser ▸ hsame)
    obtain ⟨row', hget', hlive', hrow'⟩ :=
      live_of_run hsound hu hbefore' huser' (hemail hr' huser' ▸ hsame')
    have hrows : SameEmail env row.email row'.email := by
      rw [hrow, hrow', hemail hr huser, hemail hr' huser']
      exact hsame.trans hsame'.symm
    have hid := hsoundu.index.unique hget hget' hlive hlive' hrows
    exact (attributed_of_run hs hu').distinct huser huser' hid
  · have hsound := sound_of_run hs ht
    have hattributed := attributed_of_run hs ht
    refine ⟨fun c r e hc => ?_, fun c r hc => exists_refusedAt hs ht hc, fun c r user e hc => ?_,
      fun c r user hr huser => ?_,
      fun k row => hattributed.users, fun row => hattributed.roles, fun c d user user' =>
        hattributed.distinct⟩
    · have hok := hsound.calls c
      rw [hc] at hok
      rcases hok with hconflict | hrefused | ⟨hnone, -⟩
      · exact .inl hconflict
      · exact .inr hrefused
      · rw [hnone] at hrole
        cases hrole
    · have hok := hsound.calls c
      rw [hc] at hok
      exact ⟨hok.2.2.1, hok.2.2.2, hok.2.1⟩
    · obtain ⟨r₀, hr₀, ⟨row, hget, -⟩, hemail, hrole, haccepted⟩ := hsound.created_row huser
      cases hr.symm.trans hr₀
      exact ⟨⟨row, hget⟩, hemail, hrole, haccepted⟩

/-! ## Runs -/

/-- A new account, its deletion, and a request for an address in use with a role that does not exist. -/
def arrivals : State (Fin 3) where
  shared := {
    db := {
      users         := ⟨seededDb.users, fun _ => none⟩
      refreshTokens := ⟨Table.empty, fun _ => none⟩
      resetTokens   := ⟨Table.empty, fun _ => none⟩
      hashIndex     := fun _ => none }
    userRoles := seededDb.userRoles.rows
    inserting := [] }
  calls c :=
    match c.val with
    | 0 => .start (.create ⟨⟨" C@b.co", "secret", none, none⟩, none⟩)
    | 1 => .softDelete (.start uuidC.text none)
    | _ => .start (.create ⟨⟨"A@b.co ", "secret", none, none⟩, some [uuidA.text]⟩)

theorem initial_arrivals : Initial toyEnv arrivals := by
  refine ⟨fun c => ?_, rfl, ?_⟩
  · match c with
    | 0 => exact .inl ⟨_, rfl⟩
    | 1 => exact .inr ⟨_, _, rfl⟩
    | 2 => exact .inl ⟨_, rfl⟩
  · -- the seeded database has one account
    have hid : ∀ row ∈ seededDb.users.rows, row.id = seedId 8 := by decide +kernel
    intro k k' u u' hu hu' _ _ _
    rw [← Table.get_key hu, ← Table.get_key hu']
    exact (hid u (Table.get_eq_some.mp hu).1).trans (hid u' (Table.get_eq_some.mp hu').1).symm

def turns (cs : List Nat) : List (Fin 3 × Choice) :=
  Pool.turns 3 (cs.map fun c => (c, .at 1 uuidC "" uuidC))

/-- Call `c` committed its account and threw, call `d` is answered with 409. -/
def endsOtherwise (c d : C) (t : State C) : Bool :=
  match t.calls c, t.calls d with
  | .failed _ (some _) _, .failed r none e =>
      e = .http (.conflict alreadyRegistered) && decide (uuidA.text ∈ r.roleIds)
  | _, _ => false

omit [DecidableEq C] in
theorem endsOtherwise_iff (h : endsOtherwise c d t = true) :
    (∃ r user e, t.calls c = .failed r (some user) e) ∧
    ∃ r, t.calls d = .failed r none (.http (.conflict alreadyRegistered)) ∧ uuidA.text ∈ r.roleIds := by
  unfold endsOtherwise at h
  split at h
  · next r user e r' e' h0 h2 =>
    rw [Bool.and_eq_true, decide_eq_true_eq, decide_eq_true_eq] at h
    obtain ⟨rfl, hmem⟩ := h
    exact ⟨⟨r, user, e, h0⟩, r', h2, hmem⟩
  · cases h

theorem arrivals_endsOtherwise : (Pool.replay (exec toyEnv seededDb) Pool.anyStep arrivals
    (turns [0, 0, 0, 0, 1, 1, 1, 1, 1, 1, 0, 2])).any (endsOtherwise 0 2) = true := by decide +kernel

/-- **Two exits the index does not explain**: an account that is deleted before it is read back leaves
    its row, and an address in use is noticed before the roles are looked at. -/
theorem created_and_gone : ∃ t : State (Fin 3), Pool.Steps (exec toyEnv seededDb) arrivals t ∧
    (∃ r user, t.calls 0 = .failed r (some user) (.http (.notFound "User not found")) ∧
      arrivals.shared.db.users.table.get user.id = none ∧ (t.shared.db.users.table.get user.id).isSome) ∧
    ∃ r, t.calls 2 = .failed r none (.http (.conflict alreadyRegistered)) ∧ uuidA.text ∈ r.roleIds ∧
      Uuid.cast uuidA.text ∉ knownRoles seededDb := by
  obtain ⟨t, hr, hends⟩ := Pool.exists_run_of_replay arrivals_endsOtherwise
  obtain ⟨⟨r, user, e, h0⟩, r', h2, hmem⟩ := endsOtherwise_iff hends
  have hok := (sound_of_run initial_arrivals hr).calls 0
  rw [h0] at hok
  obtain ⟨-, ⟨row, hrow, -⟩, -, rfl⟩ := hok
  have hfresh := (attributed_of_run initial_arrivals hr).fresh (c := 0) (by rw [h0]; rfl)
  have hunknown : Uuid.cast uuidA.text ∉ knownRoles seededDb := by
    rw [Uuid.cast_text]
    decide +kernel
  exact ⟨t, hr, ⟨r, user, h0, hfresh, by rw [hrow]; rfl⟩, r', h2, hmem, hunknown⟩

/-- The calls of that run are accounted for. -/
theorem arrivals_accounted : ∃ t :
    State (Fin 3), Pool.Steps (exec toyEnv seededDb) arrivals t ∧ endsOtherwise 0 2 t = true ∧
    Accounted toyEnv seededDb arrivals t := by
  obtain ⟨t, hr, hends⟩ := Pool.exists_run_of_replay arrivals_endsOtherwise
  have hrole : (seededDb.roles.find? fun r => r.name = "user").isSome := by decide +kernel
  exact ⟨t, hr, hends, (accounts_are_exclusive toyEnv seededDb arrivals initial_arrivals hrole).2 t hr⟩

end Creation

end NestApp
