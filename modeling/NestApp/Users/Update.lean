import NestApp.Auth.Service

/-!
# `Users.Update` — `UsersService.update`, an unlocked read-modify-write

`update` loads the user, assigns the fields of the DTO and hands the entity to `repository.save`. That
call reads the row again — soft-deleted rows included — and writes every column in which the *entity*
differs from the row. A column somebody else committed between the two reads differs too, and is
written back: a reset password returns to the old hash (`update_restores_password`), a deleted account
is restored (`update_restores_account`).

`update_keeps_security_writes`: when nobody commits a write to the row between an update's read and its
re-read, an update changes the DTO's columns only, a password stays the one the reset wrote, and a
deleted account stays deleted. The fact carried from the read to the write is that the entity is the
row with the DTO applied (`Update.Ok`).

The second read of `save` is what makes the race: TypeORM compares the entity with the row as it is
then, and takes every difference for a change of the caller. So an edit of one column may write any
column, with the value it had at the first read.
-/

namespace NestApp

open Sql

/-- `UpdateUserDto`: an absent field is `none`, an explicit `null` is `some none` (`@IsOptional` lets it
    pass). -/
structure UpdateUserDto where
  firstName : Option (Option String)
  lastName  : Option (Option String)
  status    : Option (Option UserStatus)
deriving DecidableEq

namespace UpdateUserDto

/-- `dto.firstName.trim() || null`, for a field that may be absent: the column afterwards. -/
def assignName (field : Option (Option String)) (old : Option String) : Option (Option String) :=
  match field with
  | none             => some old
  | some none        => none
  | some (some name) => some (trimOrNull (some name))

/-- `user.status = dto.status`: `null` violates the column's `NOT NULL`. -/
def assignStatus (field : Option (Option UserStatus)) (old : UserStatus) : Option UserStatus :=
  match field with
  | none   => some old
  | some s => s

/-- Assign the fields present to the entity (`none`: the request ends with an unexpected error). -/
def apply (dto : UpdateUserDto) (user : User) : Option User := do
  let firstName ← assignName dto.firstName user.firstName
  let lastName ← assignName dto.lastName user.lastName
  let status ← assignStatus dto.status user.status
  return { user with firstName := firstName, lastName := lastName, status := status }

/-- `row'` is `row` up to the columns whose field is present in the DTO, and `updatedAt`. -/
structure Edits (dto : UpdateUserDto) (row row' : User) : Prop where
  id              : row'.id = row.id
  email           : row'.email = row.email
  passwordHash    : row'.passwordHash = row.passwordHash
  firstName       : dto.firstName = none → row'.firstName = row.firstName
  lastName        : dto.lastName = none → row'.lastName = row.lastName
  status          : dto.status = none → row'.status = row.status
  emailVerifiedAt : row'.emailVerifiedAt = row.emailVerifiedAt
  createdAt       : row'.createdAt = row.createdAt
  deletedAt       : row'.deletedAt = row.deletedAt

theorem assignName_none {old new : Option String} (h : assignName none old = some new) : new = old := by
  simpa [assignName] using h.symm

/-- The entity after the assignments differs from the row in the DTO's columns only. -/
theorem apply_edits {dto : UpdateUserDto} {row user : User} (h : dto.apply row = some user) :
    dto.Edits row user := by
  simp only [apply, Option.bind_eq_bind, Option.bind_eq_some_iff, Option.pure_def,
    Option.some.injEq] at h
  obtain ⟨firstName, hfirst, lastName, hlast, status, hstatus, rfl⟩ := h
  refine ⟨rfl, rfl, rfl, fun hn => ?_, fun hn => ?_, fun hn => ?_, rfl, rfl, rfl⟩
  · rw [hn] at hfirst
    exact assignName_none hfirst
  · rw [hn] at hlast
    exact assignName_none hlast
  · rw [hn] at hstatus
    exact (Option.some.inj hstatus).symm

end UpdateUserDto

namespace Update

/-- One column of `save`: written when the entity differs from the row read again, else left alone. -/
def writeColumn {α : Type} [DecidableEq α] (entity row current : α) : α :=
  if entity = row then current else entity

/-- The `UPDATE` of `save`: the columns in which the entity differs from `row`, which is the row as the
    second read finds it; `updated_at` is set with them. -/
def saveColumns (now : Nat) (entity row current : User) : User where
  id              := current.id
  email           := writeColumn entity.email row.email current.email
  passwordHash    := writeColumn entity.passwordHash row.passwordHash current.passwordHash
  firstName       := writeColumn entity.firstName row.firstName current.firstName
  lastName        := writeColumn entity.lastName row.lastName current.lastName
  status          := writeColumn entity.status row.status current.status
  emailVerifiedAt := writeColumn entity.emailVerifiedAt row.emailVerifiedAt current.emailVerifiedAt
  createdAt       := writeColumn entity.createdAt row.createdAt current.createdAt
  updatedAt       := writeColumn entity.updatedAt row.updatedAt now
  deletedAt       := writeColumn entity.deletedAt row.deletedAt current.deletedAt

/-- `save`, where nobody writes the row meanwhile: it reads the row again, and skips the `UPDATE` when
    nothing differs. -/
def saved (now : Nat) (entity row : User) : User :=
  if entity = row then row else saveColumns now entity row row

inductive Pc where
  | start (id : String) (dto : UpdateUserDto) (actingUserId : Option String)
  /-- about to call `save` on the mutated entity -/
  | save (id : Uuid) (dto : UpdateUserDto) (user : User)
  /-- `save` has read `row`; about to run its `UPDATE` -/
  | write (id : Uuid) (dto : UpdateUserDto) (user row : User)
  | reload (id : Uuid)
  | done (user : User)
  | failed (e : HttpException)
  /-- an error the service does not map: a `TypeError`, a constraint, the infrastructure -/
  | crashed

variable {C : Type} [DecidableEq C]

def step (c : C) (db : Db C) (o : Choice) : Pc → Option (Db C × Pc)
  | .start id dto actingUserId =>
      if some id = actingUserId ∧ dto.status ≠ none then
        some (db, .failed (.badRequest "Cannot change your own status"))
      else
        match db.findUser {} (Uuid.cast id) with
        | none      => some (db, .failed (.notFound "User not found"))
        | some user =>
            match dto.apply user with
            | none      => some (db, .crashed)
            | some user => some (db, .save (Uuid.cast id) dto user)
  | .save id dto user =>
      match db.users.table.get user.id with
      -- `save` reads without the soft-delete filter, and skips the `UPDATE` when nothing differs
      | some row => if user = row then some (db, .reload id) else some (db, .write id dto user row)
      -- no row with this id: `save` inserts the entity
      | none     =>
          (db.users.insert c [] user).map fun r => ({ db with users := r.1.commit c r.2 }, .reload id)
  | .write id _ user row =>
      (db.users.visit c [] user.id (fun _ => true) (saveColumns o.now user row)).map fun r =>
        ({ db with users := r.1.commit c r.2 }, .reload id)
  | .reload id =>
      match db.findUser {} id with
      | some user => some (db, .done user)
      | none      => some (db, .failed (.notFound "User not found"))
  | .done _ | .failed _ | .crashed => none

/-- What the update knows: from the read to the write, the entity is the row with the DTO applied. -/
def Ok (db : Db C) : Pc → Prop
  | .save _ dto user      => ∃ row, db.users.table.get user.id = some row ∧ dto.apply row = some user
  | .write _ dto user row => dto.apply row = some user ∧ (db.users.table.get user.id).isSome
  | _ => True

variable {c : C} {db db' : Db C} {o : Choice} {pc pc' : Pc} {dto : UpdateUserDto}
  {user row current : User}

/-- Against the row the entity was made from, `save` writes the DTO's columns only. -/
theorem saveColumns_edits (h : dto.Edits row user) (now : Nat) :
    dto.Edits current (saveColumns now user row current) where
  id              := rfl
  email           := if_pos h.email
  passwordHash    := if_pos h.passwordHash
  firstName hn    := if_pos (h.firstName hn)
  lastName hn     := if_pos (h.lastName hn)
  status hn       := if_pos (h.status hn)
  emailVerifiedAt := if_pos h.emailVerifiedAt
  createdAt       := if_pos h.createdAt
  deletedAt       := if_pos h.deletedAt

theorem saved_edits (h : dto.Edits row user) (now : Nat) : dto.Edits row (saved now user row) := by
  unfold saved
  split
  · next hsame => exact hsame ▸ h
  · exact saveColumns_edits h now

/-- **What a step can do**: nothing to the database, or write the DTO's columns of one row. -/
theorem step_cases (hs : step c db o pc = some (db', pc')) (hok : Ok db pc) :
    (db' = db ∧ Ok db pc') ∨
      ∃ id dto user row current, pc = .write id dto user row ∧ pc' = .reload id ∧
        db.users.table.get user.id = some current ∧ db.users.Available c user.id ∧
        db' = { db with users := (db.users.lock c
          user.id).commit c [.put (saveColumns o.now user row current)] } := by
  cases pc with
  | start id dto actingUserId =>
      refine .inl ?_
      simp only [step] at hs
      split at hs
      · cases hs; exact ⟨rfl, trivial⟩
      · split at hs
        · cases hs; exact ⟨rfl, trivial⟩
        · next row hfind =>
          split at hs
          · cases hs; exact ⟨rfl, trivial⟩
          · next user happly =>
            cases hs
            have hid : user.id = Uuid.cast id :=
              (UpdateUserDto.apply_edits happly).id.trans (Db.findUser_id hfind)
            exact ⟨rfl, row, hid ▸ (Option.filter_eq_some_iff.mp hfind).1, happly⟩
  | save id dto user =>
      obtain ⟨row, hrow, happly⟩ := hok
      refine .inl ?_
      -- the row read again is the row the entity was made from
      simp only [step, hrow] at hs
      split at hs
      · cases hs; exact ⟨rfl, trivial⟩
      · cases hs; exact ⟨rfl, happly, by simp [hrow]⟩
  | write id dto user row =>
      obtain ⟨happly, hrow⟩ := hok
      obtain ⟨current, hcurrent⟩ := Option.isSome_iff_exists.mp hrow
      obtain ⟨⟨st, ws⟩, hv, hres⟩ := Option.map_eq_some_iff.mp hs
      obtain ⟨hav, ⟨x, hx, -, rfl, rfl⟩ | ⟨hno, -, -⟩⟩ := Store.visit_cases hv
      · obtain rfl : current = x := Option.some.inj (hcurrent.symm.trans hx)
        cases hres
        exact .inr ⟨id, dto, user, row, current, rfl, rfl, hcurrent, hav, rfl⟩
      · exact absurd (hno current hcurrent) (by simp)
  | reload id =>
      refine .inl ?_
      simp only [step] at hs
      split at hs <;> (cases hs; exact ⟨rfl, trivial⟩)
  | done | failed | crashed => cases hs

end Update

/-! ## Updates among the account operations

The pool of `Auth.Service` with updates as further calls. An update holds no lock between its two
reads; the row is locked only for the `UPDATE` itself. -/

/-- A call of the pool: an account operation, or an update. -/
inductive AdminCall where
  | account (call : Call)
  | update (pc : Update.Pc)

namespace AdminCall

/-- The update has returned or thrown. -/
def finished : AdminCall → Bool
  | .account call => call.finished
  | .update (.done _) | .update (.failed _) | .update .crashed => true
  | .update _ => false

/-- A request whose execution has not begun. -/
def IsRequest : AdminCall → Prop
  | .account call => call.IsRequest
  | .update (.start ..) => True
  | .update _ => False

/-- The user row an update has read and will read again. -/
def reading : AdminCall → Option Uuid
  | .update (.save _ _ user) => some user.id
  | _ => none

/-- The user row the next step of a call commits a write to. -/
def writing : AdminCall → Option Uuid
  | .account (.resetPassword (.sweep _ user _ [] _)) => some user.id
  | .account (.softDelete (.sweepResetTokens id [] _)) => some id
  | .update (.write _ _ user _) => some user.id
  | _ => none

end AdminCall

/-- The code of the calls. -/
def execAdmin {C : Type} [DecidableEq C] (env : Env) : Pool.Code (Db C) AdminCall Act C :=
  fun c db call a =>
  match a, call with
  | a, .account call  => (exec env c db call a).map fun r => (r.1, .account r.2)
  | .run o, .update pc => (Update.step c db o pc).map fun r => (r.1, .update r.2)
  | .abort, .update pc =>
      if (AdminCall.update pc).finished then none else some (db.rollback c, .update .crashed)

section

variable {C : Type}

/-- The database and the calls over it. -/
abbrev AdminState (C : Type) := Pool.Config (Db C) AdminCall C

/-- Nobody commits a write to a user row between an update's read of it and its re-read. This speaks
    about every other call of the pool, other updates included. -/
def noWriteBetweenReads : Pool.Allowed (Db C) AdminCall Act C
  | _, _, .abort => True
  | s, c, .run _ => ∀ d, (s.calls c).writing = none ∨ (s.calls d).reading ≠ (s.calls c).writing

/-- The proof outline of a call. -/
def AdminOk (env : Env) (c : C) (db : Db C) : AdminCall → Prop
  | .account call => CallOk env c db call
  | .update pc    => Update.Ok db pc

variable [DecidableEq C] {env : Env} {c d : C} {db db' : Db C} {call call' : AdminCall}
  {a : Act} {o : Choice}
  {s t u : AdminState C} {k : Uuid} {row : User}

/-- One step, on `users`. -/
inductive AdminStep (env : Env) (db db' : Db C) : AdminCall → AdminCall → Prop where
  | account {call call' : Call} (step : UserStep env db db' call call') : AdminStep env db db'
      (.account call) (.account call')
  | kept {pc pc' : Update.Pc} (table : db'.users.table = db.users.table) : AdminStep env db db'
      (.update pc) (.update pc')
  | edited (id : Uuid) (dto : UpdateUserDto) (user row current row' : User)
      (old : db.users.table.get user.id = some current) (edits : dto.Edits current row')
      (table : db'.users.table = db.users.table.put row') :
      AdminStep env db db' (.update (.write id dto user row)) (.update (.reload id))

theorem execAdmin_abort (h : execAdmin env c db call .abort = some (db', call')) :
    db' = db.rollback c := by
  cases call with
  | account call =>
      obtain ⟨⟨db₁, call₁⟩, hc, hres⟩ := Option.map_eq_some_iff.mp h
      cases hres
      exact (exec_abort hc).1
  | update pc =>
      simp only [execAdmin] at h
      split at h
      · cases h
      · cases h; rfl

/-- **Own step.** The outline is kept, the others' locks are framed, and this is what happens to
    `users`. -/
theorem execAdmin_ok (h : execAdmin env c db call a = some (db', call')) (hok : AdminOk env c db call) :
    AdminOk env c db' call' ∧ Db.Frame c db db' ∧ AdminStep env db db' call call' := by
  cases call with
  | account call =>
      have h' : (exec env c db call a).map (fun r => (r.1, AdminCall.account r.2)) =
        some (db', call') := by
        cases a <;> exact h
      obtain ⟨⟨db₁, call₁⟩, hc, hres⟩ := Option.map_eq_some_iff.mp h'
      cases hres
      obtain ⟨hok', hframe⟩ := exec_ok hc hok
      exact ⟨hok', hframe, .account (exec_users hc hok)⟩
  -- an update commits its one write at once, so its outline speaks about no buffer
  | update pc =>
      cases a with
      | abort =>
          simp only [execAdmin] at h
          split at h
          · cases h
          · cases h
            exact ⟨trivial, Db.frame_rollback, .kept rfl⟩
      | run o =>
          obtain ⟨⟨db₁, pc'⟩, hs, hres⟩ := Option.map_eq_some_iff.mp h
          cases hres
          rcases Update.step_cases hs hok with ⟨rfl, hok'⟩ |
            ⟨id, dto, user, row, current, rfl, rfl, hcurrent, hav, rfl⟩
          · exact ⟨hok', .refl, .kept rfl⟩
          · have hid : current.id = user.id := Table.get_key hcurrent
            refine ⟨trivial, ⟨(Store.frame_lock hav).trans (Store.frame_commit ?_), .refl,
              .refl, fun hi => hi,
              fun {k} hk => ?_⟩, ?_⟩
            · refine .cons ?_ .nil
              rw [← hid]
              exact Store.lock_owner_self
            -- the row written is still there
            · rw [Store.commit_table, Table.get_view_put]
              split
              · rfl
              · exact hk
            · exact .edited id dto user row current _ hcurrent
                (Update.saveColumns_edits (UpdateUserDto.apply_edits hok.1) o.now) rfl

omit [DecidableEq C] in
/-- A row nobody is writing stays as it is. -/
theorem AdminStep.keeps_row (h : AdminStep env db db' call call')
    (hrow : db.users.table.get k = some row)
    (hk : call.writing ≠ some k) : db'.users.table.get k = some row := by
  cases h with
  | account step =>
      cases step with
      | kept table _ _ => rw [table, hrow]
      | created dto metadata user newId table =>
          have hne : k ≠ user.id := Table.ne_of_get_none hrow newId
          rw [table, Table.get_put_of_ne _ _ hne, hrow]
      | reset record user x hash now tx old table =>
          have hid : (ResetPassword.withPassword hash now x).id = user.id := Table.get_key old
          have hne : k ≠ (ResetPassword.withPassword hash now x).id := by
            rw [hid]
            rintro rfl
            exact hk rfl
          rw [table, Table.get_put_of_ne _ _ hne, hrow]
      | deleted id x now tx old table =>
          have hid : (SoftDelete.withDeletedAt now x).id = id := Table.get_key old
          have hne : k ≠ (SoftDelete.withDeletedAt now x).id := by
            rw [hid]
            rintro rfl
            exact hk rfl
          rw [table, Table.get_put_of_ne _ _ hne, hrow]
  | kept table => rw [table, hrow]
  | edited id dto user row' current new old edits table =>
      have hid : new.id = user.id := edits.id.trans (Table.get_key old)
      have hne : k ≠ new.id := by
        rw [hid]
        rintro rfl
        exact hk rfl
      rw [table, Table.get_put_of_ne _ _ hne, hrow]

omit [DecidableEq C] in
/-- **Step of another call**, under the condition: the row that `save` is about to compare with is not
    written meanwhile. -/
theorem AdminOk.frame {other other' : AdminCall} (h : AdminOk env c db call)
    (hf : Db.Frame d db db') (hd : c ≠ d)
    (hst : AdminStep env db db' other other')
    (hcond : other.writing = none ∨ call.reading ≠ other.writing) :
    AdminOk env c db' call := by
  cases call with
  | account call => exact CallOk.frame h hf hd
  | update pc =>
      cases pc with
      | save id dto user =>
          obtain ⟨row, hrow, happly⟩ := h
          refine ⟨row, hst.keeps_row hrow fun hw => ?_, happly⟩
          rw [hw] at hcond
          simp [AdminCall.reading] at hcond
      | write id dto user row => exact ⟨h.1, hf.userRows h.2⟩
      | _ => trivial

omit [DecidableEq C] in
theorem adminOk_request (h : call.IsRequest) : AdminOk env c db call := by
  cases call with
  | account call => exact callOk_request h
  | update pc => cases pc <;> trivial

/-- **Run.** Under the condition every update knows the row it has read to be the committed one. -/
theorem reachable_adminOk (hr : Pool.Run (execAdmin env) noWriteBetweenReads s t)
    (hi : ∀ c, (s.calls c).IsRequest) : ∀ c, AdminOk env c t.shared (t.calls c) := by
  refine (hr.local_invariant (G := fun _ => True) (L := fun c db call => AdminOk env c db call)
    (J := fun _ => True) (fun _ => trivial) ?_ ?_ ⟨trivial, fun c => adminOk_request (hi c)⟩).2
  · intro t c a db' call' _ _ hL _ hc
    exact ⟨trivial, (execAdmin_ok hc (hL c)).1⟩
  · intro t c a db' call' d _ _ hL hcond hc hdc
    obtain ⟨-, hframe, hst⟩ := execAdmin_ok hc (hL c)
    cases a with
    | abort =>
        obtain rfl := execAdmin_abort hc
        have hback : AdminStep env t.shared (t.shared.rollback c) (.update .crashed)
          (.update .crashed) := .kept rfl
        exact (hL d).frame hframe hdc hback (.inl rfl)
    | run o => exact (hL d).frame hframe hdc hst (hcond d)

/-! ## Security-relevant columns

The password hash and the mark of deletion, followed from the step that wrote them through every run
after it. -/

/-- `hash` was written by the reset `c`, or by one that committed after `t`. -/
def ResetSince (t u : AdminState C) (c : C) (userId : Uuid) (hash : String) : Prop :=
  ∃ d record user, u.calls d = .account (.resetPassword (.done record user hash)) ∧ user.id = userId ∧
    (d = c ∨ t.calls d ≠ u.calls d)

/-- What must hold of a step of call `c` from `t` to `u`, and of all runs `ok` after it: an update edits
    the DTO's columns of its user only, the password stays the one a reset wrote, a deleted account
    stays deleted. -/
structure SecurityWritesKept (env : Env) (ok : Pool.Allowed (Db C) AdminCall Act C)
    (t u : AdminState C) (c : C) :
    Prop where
  edits : ∀ id dto user row, t.calls c = .update (.write id dto user row) → ∀ k old,
    t.shared.users.table.get k = some old → ∃ new, u.shared.users.table.get k = some new ∧
      (new = old ∨ (k = user.id ∧ dto.Edits old new))
  password : ∀ record user hash, u.calls c = .account (.resetPassword (.done record user hash)) →
    ∀ v, Pool.Run (execAdmin env) ok u v →
      ∃ hash', v.shared.passwordHash user.id = some hash' ∧ ResetSince u v c user.id hash'
  deletion : ∀ id, u.calls c = .account (.softDelete (.done id)) → ∀ v, Pool.Run (execAdmin env) ok u v →
    ∃ row, v.shared.users.table.get id = some row ∧ row.deletedAt.isSome

/-! ### The conditional theorem -/

/-- A call that has returned or thrown does nothing any more. -/
theorem execAdmin_running (h : execAdmin env c db call a = some (db', call')) :
    call.finished = false := by
  cases call with
  | account call =>
      have h' : (exec env c db call a).map (fun r => (r.1, AdminCall.account r.2)) =
        some (db', call') := by
        cases a <;> exact h
      obtain ⟨⟨db₁, call₁⟩, hc, -⟩ := Option.map_eq_some_iff.mp h'
      exact exec_running hc
  | update pc =>
      cases a with
      | abort =>
          simp only [execAdmin] at h
          split at h
          · cases h
          · next hf => simpa using hf
      | run o =>
          cases pc with
          | done | failed | crashed => cases h
          | _ => rfl

theorem admin_finished_stays {ok : Pool.Allowed (Db C) AdminCall Act C}
    (hr : Pool.Run (execAdmin env) ok s t)
    (hf : (s.calls c).finished) : t.calls c = s.calls c :=
  hr.halted (F := fun call => call.finished) (fun hc => by simp [execAdmin_running hc]) hf

omit [DecidableEq C] in
theorem AdminStep.passwordHash (h : AdminStep env db db' call call') {hash : String}
    (hp : db.passwordHash k = some hash) :
    db'.passwordHash k = some hash ∨ ∃ record user hash' tx,
      call = .account (.resetPassword (.sweep record user hash' [] tx)) ∧
        call' = .account (.resetPassword (.done record user hash')) ∧ user.id = k ∧
        db'.passwordHash k = some hash' := by
  cases h with
  | account step =>
      rcases step.passwordHash hp with hp' | ⟨record, user, hash', tx, rfl, rfl, hu, hp'⟩
      · exact .inl hp'
      · exact .inr ⟨record, user, hash', tx, rfl, rfl, hu, hp'⟩
  | kept table =>
      rw [Db.passwordHash, table]
      exact .inl hp
  -- an edit keeps the hash of its own row, and touches no other row
  | edited id dto user row current row' old edits table =>
      have hid : row'.id = user.id := edits.id.trans (Table.get_key old)
      rw [passwordHash_put table, hid]
      by_cases hk : k = user.id
      · rw [if_pos hk, edits.passwordHash]
        rw [Db.passwordHash, hk, old] at hp
        exact .inl hp
      · rw [if_neg hk]
        exact .inl hp

omit [DecidableEq C] in
theorem AdminStep.deletedAt (h : AdminStep env db db' call call')
    (hrow : db.users.table.get k = some row) (hdel : row.deletedAt.isSome) :
    ∃ row', db'.users.table.get k = some row' ∧ row'.deletedAt.isSome := by
  cases h with
  | account step =>
      obtain ⟨row', hrow', hrew⟩ := step.rewritten hrow
      obtain ⟨_, _, _, rfl, hkeep⟩ := hrew
      exact ⟨_, hrow', hkeep hdel⟩
  | kept table => exact ⟨row, table ▸ hrow, hdel⟩
  | edited id dto user row₁ current row' old edits table =>
      have hid : row'.id = user.id := edits.id.trans (Table.get_key old)
      rw [table, Table.get_put, key_user, hid]
      by_cases hk : k = user.id
      · rw [hk, old] at hrow
        obtain rfl := Option.some.inj hrow
        rw [if_pos hk]
        refine ⟨row', rfl, ?_⟩
        rw [edits.deletedAt]
        exact hdel
      · rw [if_neg hk]
        exact ⟨row, hrow, hdel⟩

theorem ResetSince.step {v w : AdminState C} {hash : String} (h : ResetSince t v c k hash)
    (hst : Pool.step (execAdmin env) v d a = some w) : ResetSince t w c k hash := by
  obtain ⟨e, record, user, he, hu, hsince⟩ := h
  have hrun : Pool.Run (execAdmin env) Pool.anyStep v w := .single trivial hst
  have hw : w.calls e = v.calls e := admin_finished_stays hrun (c := e) (by rw [he]; rfl)
  exact ⟨e, record, user, hw.trans he, hu, by rwa [hw]⟩

/-- The password of an account, once written by a reset, is changed by later resets only. -/
theorem reset_stays {ok : Pool.Allowed (Db C) AdminCall Act C} {v : AdminState C}
    (huv : Pool.Run (execAdmin env) ok u v)
    (hL : ∀ {v}, Pool.Run (execAdmin env) ok u v → ∀ c, AdminOk env c v.shared (v.calls c))
    (h0 : ∃ hash, u.shared.passwordHash k = some hash ∧ ResetSince u u c k hash) :
    ∃ hash, v.shared.passwordHash k = some hash ∧ ResetSince u v c k hash := by
  refine huv.invariant_with
    (I := fun v => ∃ hash, v.shared.passwordHash k = some hash ∧ ResetSince u v c k hash)
    (J := fun v => (∀ c, AdminOk env c v.shared (v.calls c)) ∧
      ∀ e, (u.calls e).finished → v.calls e = u.calls e)
    (fun huv' => ⟨hL huv', fun e he => admin_finished_stays huv' he⟩) ?_ h0
  rintro v d a w ⟨hJ, hfin⟩ ⟨hash, hp, hsince⟩ _ hvw
  obtain ⟨db', call', hc, heq⟩ := Pool.step_cases hvw
  have hw : w.shared = db' := by rw [heq]
  rcases (execAdmin_ok hc (hJ d)).2.2.passwordHash hp with hp' |
    ⟨record, user, hash', tx, hcall, rfl, hu, hp'⟩
  · exact ⟨hash, hw ▸ hp', hsince.step hvw⟩
  · have hd : w.calls d = .account (.resetPassword (.done record user hash')) := by rw [heq]; simp
    refine ⟨hash', hw ▸ hp', d, record, user, hd, hu, .inr fun he => ?_⟩
    have hv := hfin d (by rw [he, hd]; rfl)
    rw [hcall, he, hd] at hv
    cases hv

/-- **An update keeps security-relevant writes**, in every run in which nobody commits a write to a user
    row between an update's read of it and its re-read. -/
theorem update_keeps_security_writes (hi : ∀ c, (s.calls c).IsRequest)
    (hr : Pool.Run (execAdmin env) noWriteBetweenReads s t) (hcond : noWriteBetweenReads t c a)
    (hst : Pool.step (execAdmin env) t c a = some u) :
      SecurityWritesKept env noWriteBetweenReads t u c := by
  have hL : ∀ {v}, Pool.Run (execAdmin env) noWriteBetweenReads u v →
    ∀ c, AdminOk env c v.shared (v.calls c) :=
    fun huv => reachable_adminOk ((Pool.Run.tail hr hcond hst).trans huv) hi
  obtain ⟨db', call', hc, rfl⟩ := Pool.step_cases hst
  obtain ⟨-, -, hstep⟩ := execAdmin_ok hc (reachable_adminOk hr hi c)
  refine ⟨?_, ?_, ?_⟩
  · intro id dto user row hcall k old hold
    rw [hcall] at hstep
    cases hstep with
    | kept table => exact ⟨old, table ▸ hold, .inl rfl⟩
    | edited _ _ _ _ current row' hcurrent edits table =>
        have hid : row'.id = user.id := edits.id.trans (Table.get_key hcurrent)
        rw [table, Table.get_put, key_user, hid]
        by_cases hk : k = user.id
        · rw [hk, hcurrent] at hold
          obtain rfl := Option.some.inj hold
          rw [if_pos hk]
          exact ⟨row', rfl, .inr ⟨hk, edits⟩⟩
        · rw [if_neg hk]
          exact ⟨old, hold, .inl rfl⟩
  · -- the commit of a reset: the outcome of later steps is followed along the run
    intro record user hash hdone v huv
    obtain rfl : call' = .account (.resetPassword (.done record user hash)) := by simpa using hdone
    refine reset_stays huv hL ⟨hash, ?_, c, record, user, by simp, rfl, .inl rfl⟩
    generalize t.calls c = call at hstep
    cases hstep with
    | account step => exact step.reset_passwordHash
  · intro id hdone v huv
    obtain rfl : call' = .account (.softDelete (.done id)) := by simpa using hdone
    generalize t.calls c = call at hstep
    have hdeleted : ∃ row, db'.users.table.get id = some row ∧ row.deletedAt.isSome := by
      cases hstep with
      | account step => exact step.deletes
    refine huv.invariant_with (I := fun v => ∃ row, v.shared.users.table.get id = some row ∧
      row.deletedAt.isSome)
      (J := fun v => ∀ c, AdminOk env c v.shared (v.calls c)) hL ?_ hdeleted
    rintro v d a w hJ ⟨row, hrow, hdel⟩ _ hvw
    obtain ⟨db₁, call₁, hc₁, rfl⟩ := Pool.step_cases hvw
    exact (execAdmin_ok hc₁ (hJ d)).2.2.deletedAt hrow hdel

end

/-! ## The races

Two runs, each with an edit of a first name that has read the row before the other call commits. -/

instance {n : Nat} (s : AdminState (Fin n)) (c : Fin n) (a : Act) :
    Decidable (noWriteBetweenReads s c a) :=
  match a with
  | .abort => isTrue trivial
  | .run _ => inferInstanceAs (Decidable (∀ d : Fin n,
      (s.calls c).writing = none ∨ (s.calls d).reading ≠ (s.calls c).writing))

/-- A reset link for `alice`, its use, an admin's edit of her first name, and the deletion of her
    account. -/
def adminRequests : List AdminCall :=
  [.account (.forgotPassword (.start ⟨"a@b.co"⟩ ⟨none, none⟩)),
    .account (.resetPassword (.start ⟨"R", "new"⟩)),
   .update (.start "a" ⟨some (some "Al"), none, none⟩ none), .account (.softDelete (.start "a" none))]

def bootAdmin : AdminState (Fin 4) where
  shared := (boot 4 []).shared
  calls c := adminRequests.get c

theorem requests_bootAdmin (c : Fin 4) : (bootAdmin.calls c).IsRequest := by
  match c with
  | 0 | 1 | 2 | 3 => trivial

/-- Call `c` executes one action, without choices that matter. -/
def plain (c : Nat) : Nat × Act := (c, .run (.at 2 uuidA "" uuidA))

/-- The link is issued, the user read by the update, and the reset run up to its commit. -/
def readThenReset : List (Fin 4 × Act) := Pool.turns 4
  [plain 0, plain 0, plain 0, (0, .run (.at 1 uuidB "R" uuidA)), plain 2, plain 1, plain 1,
    plain 1, plain 1, plain 1]

/-- The user is read by the update, and the deletion run up to its commit. -/
def readThenDelete : List (Fin 4 × Act) := Pool.turns 4
  [plain 2, plain 3, plain 3, plain 3, plain 3, plain 3]

/-- The call is the finished reset to `"new"`, for `alice`. -/
def AdminCall.resetToNew : AdminCall → Bool
  | .account (.resetPassword (.done _ user hash)) => user.id = uuidA && hash = "new"
  | _ => false

theorem AdminCall.resetToNew_eq {call : AdminCall} (h : call.resetToNew = true) :
    ∃ record user, call = .account (.resetPassword (.done record user "new")) ∧ user.id = uuidA := by
  unfold AdminCall.resetToNew at h
  split at h
  · next record user hash =>
    simp only [Bool.and_eq_true, decide_eq_true_eq] at h
    exact ⟨record, user, by rw [h.2], h.1⟩
  · cases h

/-- The resets that have finished wrote `"new"`. -/
def AdminCall.noOtherReset : AdminCall → Bool
  | .account (.resetPassword (.done _ _ hash)) => hash = "new"
  | _ => true

/-- The call is the finished deletion of `alice`. -/
def AdminCall.deletedAlice : AdminCall → Bool
  | .account (.softDelete (.done id)) => id = uuidA
  | _ => false

theorem AdminCall.deletedAlice_eq {call : AdminCall} (h : call.deletedAlice = true) :
    call = .account (.softDelete (.done uuidA)) := by
  unfold AdminCall.deletedAlice at h
  split at h
  · next id => rw [show id = uuidA by simpa using h]
  · cases h

/-- Without the condition, editing a first name restores the password that was just reset. -/
theorem update_restores_password : ∃ (s t u v : AdminState (Fin 4)) (c : Fin 4) (a : Act),
    (∀ c, (s.calls c).IsRequest) ∧ Pool.Steps (execAdmin toyEnv) s t ∧
      Pool.step (execAdmin toyEnv) t c a = some u ∧ Pool.Steps (execAdmin toyEnv) u v ∧
      u.shared.passwordHash uuidA = some "new" ∧ v.shared.passwordHash uuidA = some "old" ∧
      ¬ SecurityWritesKept toyEnv Pool.anyStep t u c := by
  have hrun : (Pool.replay (execAdmin toyEnv) Pool.anyStep bootAdmin readThenReset).any
      (fun t => (Pool.step (execAdmin toyEnv) t 1 (plain 1).2).any fun u =>
        (u.calls 1).resetToNew && decide (u.shared.passwordHash uuidA = some "new") &&
        (Pool.replay (execAdmin toyEnv) Pool.anyStep u (Pool.turns 4 [plain 2, plain 2])).any fun v =>
          decide (v.shared.passwordHash uuidA = some "old") &&
          decide (∀ d, (v.calls d).noOtherReset = true)) = true := by decide +kernel
  obtain ⟨t, hst, hstep⟩ := Pool.exists_run_of_replay hrun
  obtain ⟨u, htu, hcheck⟩ := (Option.any_eq_true _ _).mp hstep
  simp only [Bool.and_eq_true, decide_eq_true_eq] at hcheck
  obtain ⟨⟨hnew, hpass⟩, hrest⟩ := hcheck
  obtain ⟨v, huv, hafter⟩ := Pool.exists_run_of_replay hrest
  simp only [Bool.and_eq_true, decide_eq_true_eq] at hafter
  obtain ⟨record, user, hdone, hid⟩ := AdminCall.resetToNew_eq hnew
  refine ⟨bootAdmin, t, u, v, 1, _, requests_bootAdmin, hst, htu, huv, hpass, hafter.1, fun hkept => ?_⟩
  -- the hash is the old one again, but every reset wrote the new one
  obtain ⟨hash, hp, d, record', user', hd, -, -⟩ := hkept.password record user "new" hdone v huv
  rw [hid, hafter.1] at hp
  have hwas := hafter.2 d
  rw [hd, ← Option.some.inj hp] at hwas
  simp [AdminCall.noOtherReset] at hwas

/-- Without the condition, editing a first name restores the account that was just deleted. -/
theorem update_restores_account : ∃ (s t u v : AdminState (Fin 4)) (c : Fin 4) (a : Act),
    (∀ c, (s.calls c).IsRequest) ∧ Pool.Steps (execAdmin toyEnv) s t ∧
      Pool.step (execAdmin toyEnv) t c a = some u ∧ Pool.Steps (execAdmin toyEnv) u v ∧
      (v.shared.users.table.get uuidA).any (fun row => row.deletedAt.isNone) = true ∧
      ¬ SecurityWritesKept toyEnv Pool.anyStep t u c := by
  have hrun : (Pool.replay (execAdmin toyEnv) Pool.anyStep bootAdmin readThenDelete).any
      (fun t => (Pool.step (execAdmin toyEnv) t 3 (plain 3).2).any fun u => (u.calls 3).deletedAlice &&
        (Pool.replay (execAdmin toyEnv) Pool.anyStep u (Pool.turns 4 [plain 2, plain 2])).any fun v =>
          (v.shared.users.table.get uuidA).any fun row => row.deletedAt.isNone) = true := by
            decide +kernel
  obtain ⟨t, hst, hstep⟩ := Pool.exists_run_of_replay hrun
  obtain ⟨u, htu, hcheck⟩ := (Option.any_eq_true _ _).mp hstep
  simp only [Bool.and_eq_true] at hcheck
  obtain ⟨v, huv, hafter⟩ := Pool.exists_run_of_replay hcheck.2
  refine ⟨bootAdmin, t, u, v, 3, _, requests_bootAdmin, hst, htu, huv, hafter, fun hkept => ?_⟩
  obtain ⟨row, hrow, hdel⟩ := hkept.deletion uuidA (AdminCall.deletedAlice_eq hcheck.1) v huv
  -- the row the update wrote has no deletion date
  rw [hrow, Option.any_some, Option.isNone_iff_eq_none] at hafter
  rw [hafter] at hdel
  cases hdel

/-- The update reads the user after the reset has committed. -/
theorem update_keeps_reset_password : ∃ (s t u : AdminState (Fin 4)),
    Pool.Run (execAdmin toyEnv) noWriteBetweenReads s t ∧ (u.calls 1).resetToNew = true ∧
      SecurityWritesKept toyEnv noWriteBetweenReads t u 1 := by
  have hrun : (Pool.replay (execAdmin toyEnv) noWriteBetweenReads bootAdmin
      (readThenReset.filter fun ca => ca.1 ≠ 2)).any
      (fun t => decide (noWriteBetweenReads t 1 (plain 1).2) &&
        (Pool.step (execAdmin toyEnv) t 1 (plain 1).2).any fun u => (u.calls 1).resetToNew) = true := by
    decide +kernel
  obtain ⟨t, hst, hstep⟩ := Pool.exists_run_of_replay hrun
  simp only [Bool.and_eq_true, decide_eq_true_eq] at hstep
  obtain ⟨u, htu, hnew⟩ := (Option.any_eq_true _ _).mp hstep.2
  exact ⟨bootAdmin, t, u, hst, hnew, update_keeps_security_writes requests_bootAdmin hst hstep.1 htu⟩

end NestApp
