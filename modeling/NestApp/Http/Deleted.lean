import NestApp.Http.Mediation

/-!
# `Http.Deleted` — deletion is final

No route removes the row of an account, and none changes its id or its address (`Later`). A row with a
`deletedAt` is not written again: every service looks for accounts in use, and so do the guards. So
from the moment an account is deleted, in whatever state of a run that is, nobody further is let in as
it, and no further session is handed out for it (`deleted_accounts_stay_out`). What is under way at
that moment may still finish: a request past its guards runs its handler.

Each handler is one step here. A `PATCH` whose `save` overlaps with the deletion brings the account
back in the code, and `Users.Update` has that at the level of single statements.
-/

namespace NestApp

open Sql Prog

namespace Http

/-! ## Rows

A relation of two rows of one account, and of two tables of accounts. It composes, and every write of
the services is an instance of it. -/

/-- **What becomes of a row**: it stays the row of the same account, and once deleted it stays as it
    is. -/
structure Later (row row' : User) : Prop where
  id      : row'.id = row.id
  email   : row'.email = row.email
  deleted : row.deletedAt.isSome → row' = row

theorem Later.refl (row : User) : Later row row := ⟨rfl, rfl, fun _ => rfl⟩

theorem Later.trans {row row' row'' : User} (h : Later row row') (h' : Later row' row'') :
    Later row row'' := by
  refine ⟨h'.id.trans h.id, h'.email.trans h.email, fun hdeleted => ?_⟩
  have hsame := h.deleted hdeleted
  subst hsame
  exact h'.deleted hdeleted

/-- A row in use may become any row of the account. -/
theorem Later.of_live {row row' : User} (hlive : row.deletedAt = none) (hid : row'.id = row.id)
    (hemail : row'.email = row.email) :
    Later row row' := by
  refine ⟨hid, hemail, fun hdeleted => ?_⟩
  rw [hlive] at hdeleted
  cases hdeleted

/-- No account is lost. -/
def Aged (w w' : World) : Prop :=
  ∀ u row, w.db.users.get u = some row → ∃ row', w'.db.users.get u = some row' ∧ Later row row'

instance : IsPreorder World Aged where
  refl _ _ row hrow := ⟨row, hrow, .refl row⟩
  trans _ _ _ h h' := by
    intro u row hrow
    obtain ⟨row', hrow', hlater⟩ := h u row hrow
    obtain ⟨row'', hrow'', hlater'⟩ := h' u row' hrow'
    exact ⟨row'', hrow'', hlater.trans hlater'⟩

variable {w w' : World} {parts : List Part}

theorem aged_of_eq (h : w'.db.users = w.db.users) : Aged w w' := by
  intro u row hrow
  exact ⟨row, by rwa [h], .refl row⟩

theorem aged_of_touches (hparts : .users ∉ parts) (h : Touches parts w w') : Aged w w' :=
  aged_of_eq (h.users hparts)

/-- A row is written over the row of its account, which is in use. -/
theorem aged_putUser {row row' : User} (hrow : w.db.users.get row.id = some row)
    (hlater : Later row row') :
    Aged w { w with db := w.db.putUser row' } := by
  intro u old hold
  show ∃ new, (w.db.users.put row').get u = some new ∧ Later old new
  rw [Table.get_put]
  split
  · next hu =>
    replace hu : u = row'.id := hu
    rw [hu, hlater.id, hrow] at hold
    cases hold
    exact ⟨row', rfl, hlater⟩
  · exact ⟨old, hold, .refl old⟩

theorem aged_insertUser {env : Env} {row : User} {db : Rbac} (h : w.db.insertUser env row = some db) :
    Aged w { w with db := db } := by
  obtain ⟨hnew, rfl⟩ := Rbac.insertUser_some h
  intro u old hold
  have hne : u ≠ row.id := Table.ne_of_get_none hold hnew
  refine ⟨old, ?_, .refl old⟩
  show (w.db.users.put row).get u = some old
  rwa [Table.get_put_of_ne _ _ hne]

/-! ## The services

Each of them first reads the account it writes, among those in use, so that a deleted row is out of its
reach. -/

namespace UsersService

open NestApp.UsersService

variable {env : Env} {o : Choice}

theorem aged_create (dto : CreateUserDto) : Along Aged (create env o dto) := by
  refine Along.bind (Along.gets _) fun _ => Along.bind (Along.throwIf _ _) fun _ => ?_
  have hcreate : ∀ row roleIds, Along Aged (createUserInTransaction env row roleIds) := by
    intro row roleIds
    refine Along.transaction ?_ fun w _ _ => aged_of_eq rfl
    refine Along.bind (Along.of_triple fun w => save_spec (refl_of Aged w) fun _ hdb =>
      aged_insertUser hdb) fun _ => ?_
    have hroles : Along (Touches [.userRoles]) (assignFirstRoles row.id roleIds) :=
      along_assignFirstRoles (by decide) _ _
    exact Along.bind (hroles.mono fun _ _ => aged_of_touches (by decide)) fun _ => Along.pure row
  refine Along.bind (Along.mapError (hcreate _ _)) fun user => ?_
  exact Along.bind (Along.gets _) fun _ => Along.orThrow _ _

/-- A service that reads an account finds one in use. -/
theorem findWithRolesOrFail_aged {α : Type} {id : String} {f : User → Service α}
    (hf : ∀ w row, w.db.users.get row.id = some row → row.deletedAt = none →
      Triple (· = w) (f row) (fun _ => Aged w) (Aged w)) : Along Aged
        (findWithRolesOrFail id >>= f) := by
  refine Along.of_triple fun w => ?_
  rw [findWithRolesOrFail, bind_assoc]
  refine Triple.gets_single (Triple.orThrow_single (refl_of Aged w) fun row hfound => ?_)
  obtain ⟨hget, hlive⟩ := Option.filter_eq_some_iff.mp hfound
  have hid : row.id = .cast id := Table.get_key hget
  rw [← hid] at hget
  exact hf w row hget (Option.isNone_iff_eq_none.mp hlive)

theorem aged_update (id : String) (dto : UpdateUserDto) (actingUserId : Option String) :
    Along Aged (update o id dto actingUserId) := by
  refine Along.bind (Along.throwIf _ _) fun _ => findWithRolesOrFail_aged fun w row hrow hlive => ?_
  refine Triple.orThrow_single (refl_of Aged w) fun user huser => Triple.modify_single ?_
  have hedits : dto.Edits row (Update.saved o.now user row) :=
    Update.saved_edits (UpdateUserDto.apply_edits huser) o.now
  exact findWithRolesOrFail_last (aged_putUser hrow (.of_live hlive hedits.id hedits.email))

theorem aged_setRoles (userId : String) (roleIds : List String) :
    Along Aged (setRoles userId roleIds) := by
  have hroles : Along (Touches [.userRoles]) (setRoles userId roleIds) :=
    along_setRoles (by decide) userId roleIds
  exact hroles.mono fun _ _ => aged_of_touches (by decide)

end UsersService

/-- The same, over all the state. -/
def AgedRows (s s' : Accounts) : Prop := Aged s.world s'.world

instance : IsPreorder Accounts AgedRows where
  refl s := refl_of Aged s.world
  trans _ _ _ h h' := trans_of Aged h h'

variable {s s' : Accounts}

theorem aged_softDelete (o : Choice) (id : String) (actingUserId : Option String) :
    Along AgedRows (Accounts.softDelete o id actingUserId) := by
  refine Along.bind (Along.throwIf _ _) fun _ => ?_
  intro s
  cases hfound : (s.world.db.users.get (.cast id)).filter fun u => u.deletedAt.isNone with
  | none =>
      have hmissing : UsersService.findWithRolesOrFail id s.world =
        (.error (.http (.notFound "User not found")), s.world) := by
        rw [UsersService.findWithRolesOrFail, gets_bind, hfound]
        rfl
      rw [bind_error (onWorld_eq hmissing)]
      exact refl_of AgedRows s
  | some row =>
      have hread : UsersService.findWithRolesOrFail id s.world = (.ok row, s.world) := by
        rw [UsersService.findWithRolesOrFail, gets_bind, hfound]
        rfl
      rw [bind_ok (onWorld_eq hread)]
      obtain ⟨hget, hlive⟩ := Option.filter_eq_some_iff.mp hfound
      have hid : row.id = .cast id := Table.get_key hget
      rw [← hid] at hget
      have hwritten : Aged s.world { s.world with
        db := s.world.db.putUser (SoftDelete.withDeletedAt o.now row) } :=
        aged_putUser hget (.of_live (Option.isNone_iff_eq_none.mp hlive) rfl rfl)
      refine Triple.final (P := (· = s)) (E := AgedRows s) ?_ rfl
      refine Triple.bind (Triple.transaction s ?_ fun _ (hfailed : False) => hfailed.elim) fun _ =>
        Along.triple ?_
      · exact Triple.modify_single (Triple.modify_single (Triple.modify fun s' hs' => hs' ▸ hwritten))
      · exact Along.modify fun _ => aged_of_eq rfl

/-- **One write** of a request without a permission. -/
theorem OpenWrite.aged {env : Env} {link : Option String} (h : OpenWrite env link s s') :
    AgedRows s s' := by
  cases h with
  | registered h =>
      intro u old hold
      refine ⟨old, ?_, .refl old⟩
      have hne : u ≠ _ := Table.ne_of_get_none hold h.new
      rwa [h.users, Table.get_put_of_ne _ _ hne]
  | sessions | linksUsed | mailed => exact aged_of_eq rfl
  | linkIssued h => exact aged_of_eq (by rw [Accounts.world_insertResetToken h])
  | password _ _ _ _ huser hlive =>
      have hid : _ = _ := Table.get_key huser
      rw [← hid] at huser
      exact aged_putUser huser (.of_live hlive rfl rfl)

/-! ## The handlers

All of them, with a permission or without. -/

section Handlers

variable {app : App} {x : Draw} {actor : Option User} {metadata : SessionMetadata}

theorem aged_onWorld {α : Type} {m : Service α} (h : Along Aged m) : Along AgedRows (onWorld m) :=
  Along.zoom h fun _ _ hw => hw

theorem aged_userBody {m : Service User} (h : Along Aged m) : Along AgedRows (userBody m) :=
  Along.bind (aged_onWorld h) fun _ => Along.gets _

/-- **No handler loses an account**, or writes a deleted one. -/
theorem handle_aged (route : Route) : Along AgedRows (handle app x actor metadata route) := by
  rcases required_cases route with hnone | ⟨subject, hrequired⟩
  · exact (handle_open hnone).mono fun _ _ hopen => hopen.fold fun _ _ => OpenWrite.aged
  · by_cases hsubject : subject = .user
    · subst hsubject
      cases route with
      | findAllUsers query => exact Along.gets _
      | findUser id => exact aged_userBody (Along.bind (Along.gets _) fun _ => Along.orThrow _ _)
      | createUser dto => exact aged_userBody (UsersService.aged_create dto)
      | updateUser id dto => exact aged_userBody (UsersService.aged_update id dto _)
      | removeUser id => exact Along.bind (aged_softDelete _ id _) fun _ => Along.pure _
      | setRoles id roleIds => exact aged_userBody (UsersService.aged_setRoles id roleIds)
      | _ => cases hrequired
    · refine (handle_guarded hrequired).mono fun _ _ hconfined => aged_of_eq (hconfined.within.users ?_)
      cases subject with
      | user => exact absurd rfl hsubject
      | _ => decide

/-! ## Who is let in

The guards read the account afresh for each request. A login, a refresh and a registration hand out
sessions; each does so for an account in use, or for one it has just made. -/

/-- The user a request is carried on with is an account in use. -/
theorem guards_actor {request : Request} {user : User}
    (h : guards app x request s = (.ok (some user), s')) :
    user ∈ s.world.db.users.rows ∧ user.status = .active ∧ user.deletedAt = none := by
  rw [guards, gets_bind] at h
  cases hjwt : jwtAuthGuard app x request s.world.db with
  | error e =>
      rw [hjwt] at h
      cases h
  | ok actor =>
      rw [hjwt] at h
      obtain ⟨_, s₂, -, hreturn⟩ := of_bind_ok h
      cases hreturn
      unfold jwtAuthGuard at hjwt
      split at hjwt
      · cases hjwt
      · cases hcan : Realtime.JwtAuthGuard.canActivate app.jwt s.world.db x.o.now
          request.authorization with
        | error e =>
            rw [hcan] at hjwt
            cases hjwt
        | ok found =>
            rw [hcan] at hjwt
            cases hjwt
            obtain ⟨token, -, hverify⟩ := Realtime.canActivate_ok.mp hcan
            obtain ⟨payload, -, -, hactive⟩ := Realtime.verifyToken_ok.mp hverify
            exact Realtime.findActiveUserById_ok hactive

/-- An account that may have a session: it is in use, or it is made only now. -/
def MayEnter (s : Accounts) (u : Uuid) : Prop :=
  ∀ row, s.world.db.users.get u = some row → row.deletedAt = none

theorem sessionBody_user {withRoles : Bool} {refreshToken token : String} {userId : Uuid}
    {user : SafeUser}
    (h : sessionBody withRoles refreshToken userId s = (.ok (.session token user), s')) :
      user.id = userId := by
  rw [sessionBody, gets_bind] at h
  obtain ⟨safe, s₂, hsafe, hreturn⟩ := of_bind_ok h
  cases hreturn
  cases hrow : s.world.db.users.get userId with
  | none =>
      rw [hrow] at hsafe
      cases hsafe
  | some row =>
      rw [hrow] at hsafe
      cases hsafe
      exact Table.get_key hrow

/-- A lookup by address only reads. -/
theorem onWorld_findByEmail (env : Env) (email : String) :
    onWorld (NestApp.UsersService.findByEmail env email) =
    (gets fun s => s.world.db.findByEmail env email : AccountService (Option User)) := rfl

/-- The account a login is for is in use. -/
theorem login_owner {env : Env} {o : Choice} {dto : LoginDto} :
    Triple (· = s) (AuthService.login env o dto metadata)
    (fun token _ => MayEnter s token.userId) fun _ => True := by
  rw [AuthService.login, onWorld_findByEmail]
  refine Triple.gets_single (Triple.orThrow_single trivial fun user hfound => ?_)
  refine Triple.throwIf_single trivial fun _ => Triple.throwIf_single trivial fun _ => ?_
  refine statement_single trivial fun _ => ?_
  simp only [bind_assoc]
  refine Triple.gets_single
    (Triple.orThrow_single trivial fun s' _ => Triple.modify_single (Triple.pure_single ?_))
  obtain ⟨hmem, hmatch⟩ := Table.find?_some hfound
  intro row hrow
  have hget : s.world.db.users.get user.id = some user := Table.get_of_mem hmem
  replace hrow : s.world.db.users.get user.id = some row := hrow
  rw [hget] at hrow
  cases hrow
  exact Option.isNone_iff_eq_none.mp (Bool.and_eq_true_iff.mp hmatch).2

/-- A session is refreshed for an account in use. -/
theorem refreshTransaction_owner {env : Env} {o : Choice} {token : String} :
    Triple (· = s) (AuthService.refreshTransaction env o token metadata)
      (fun outcome _ => ∀ user next, outcome = .ok user next → MayEnter s user.id) fun _ => True := by
  refine Triple.transaction s ?_ fun _ (_ : True) => trivial
  refine Triple.gets_single ?_
  cases s.findRefreshToken env token with
  | none => exact Triple.pure_single fun _ _ h => by cases h
  | some stored =>
      show Triple (· = s) (AuthService.judge env o ⟨token, metadata, stored⟩) _ _
      unfold AuthService.judge
      split
      · exact Triple.modify_single (Triple.pure_single fun _ _ h => by cases h)
      · split
        · exact Triple.modify_single (Triple.pure_single fun _ _ h => by cases h)
        · refine Triple.gets_single ?_
          cases howner : (s.findUser stored.userId).filter fun user => user.status = .active with
          | none => exact Triple.pure_single fun _ _ h => by cases h
          | some user =>
              refine statement_single trivial fun _ => ?_
              simp only [bind_assoc]
              refine Triple.gets_single
                (Triple.orThrow_single trivial fun s' _ => Triple.modify_single ?_)
              refine Triple.modify_single (Triple.pure_single fun found next h => ?_)
              cases h
              obtain ⟨hfound, -⟩ := Option.filter_eq_some_iff.mp howner
              obtain ⟨hget, hlive⟩ := Option.filter_eq_some_iff.mp hfound
              have hid : user.id = stored.userId := Table.get_key hget
              intro row hrow
              rw [hid, hget] at hrow
              cases hrow
              exact Option.isNone_iff_eq_none.mp hlive

theorem refresh_owner {env : Env} {o : Choice} {cookie : Option String} :
    Triple (· = s) (AuthService.refresh env o cookie metadata)
      (fun session _ => MayEnter s session.1.id) fun _ => True := by
  unfold AuthService.refresh
  split
  · exact Triple.throw_single trivial
  · exact Triple.throw_single trivial
  · refine Triple.bind refreshTransaction_owner fun outcome => Triple.of_single fun s₁ howner => ?_
    cases outcome with
    | ok user next => exact Triple.pure_single (howner user next rfl)
    | invalid | theft | expired | inactive => exact Triple.throw_single trivial

/-- An account is registered under a new id. -/
theorem register_owner {env : Env} {o oSession : Choice} {fault : Option DbCall} {dto : RegisterDto} :
    Triple (· = s) (AuthService.register env o oSession fault dto metadata)
      (fun token _ => MayEnter s token.userId) fun _ => True := by
  have hcreate : ∀ s₁ : Accounts, s₁.world = s.world →
      Triple (· = s₁) (onWorld ((NestApp.UsersService.createWithDefaultRole env fault
        (Session.newUser env o dto)).mapError
        (rethrowConflictOrOriginal "Email is already registered"))) (fun user _ =>
          MayEnter s user.id) fun _ => True := by
    intro s₁ hsame
    refine Triple.conseq
      (Triple.zoom (Triple.mapError (createWithDefaultRole_registers env fault _ s₁.world)))
      (fun _ h => h) ?_ fun _ _ => trivial
    rintro user _ ⟨w', ⟨rfl, hregistered⟩, -⟩ row hrow
    rw [← hsame, hregistered.new] at hrow
    cases hrow
  refine Triple.bind (Q := fun _ s₁ => s₁.world = s.world) ?_ fun existing =>
    Triple.of_single fun s₁ hsame => ?_
  · have hread : Triple (Sessions s) (onWorld (statement fault .findByEmail
        (NestApp.UsersService.findByEmail env (normalizeEmail env dto.email))))
          (fun _ => Sessions s) (Sessions s) :=
      Along.triple (along_findByEmail _)
    refine Triple.conseq hread ?_ ?_ fun _ _ => trivial
    · rintro _ rfl
      exact refl_of Sessions _
    · intro _ s₁ h
      rw [h]
  · refine Triple.throwIf_single trivial fun _ => Triple.bind (hcreate s₁ hsame) fun user =>
      Triple.of_single fun s₂ huser => ?_
    refine statement_single trivial fun _ => ?_
    simp only [bind_assoc]
    exact Triple.gets_single
      (Triple.orThrow_single trivial fun s' _ => Triple.modify_single (Triple.pure_single huser))

/-- What holds of what a program returns. -/
theorem of_triple_ok {α : Type} {m : AccountService α} {Q : α → Accounts → Prop} {a : α}
    (hm : Triple (· = s) m Q fun _ => True) (h : m s = (.ok a, s')) : Q a s' := by
  have hs := hm s rfl
  rwa [h] at hs

/-- **A session is handed out** to an account in use, or to a new one. -/
theorem serve_session {request : Request} {token : String} {user : SafeUser}
    (h : serve app x actor request s = (.ok (.session token user), s')) : MayEnter s user.id := by
  obtain ⟨_, s₁, hpipe, hhandle⟩ := of_bind_ok h
  obtain rfl : s₁ = s := by
    unfold Prog.throwIf at hpipe
    split at hpipe
    · cases hpipe
    · cases hpipe
      rfl
  cases hroute : request.route with
  | register dto =>
      rw [hroute] at hhandle
      obtain ⟨token, s₂, hregister, hbody⟩ := of_bind_ok hhandle
      rw [sessionBody_user hbody]
      exact of_triple_ok register_owner hregister
  | login dto =>
      rw [hroute] at hhandle
      obtain ⟨token, s₂, hlogin, hbody⟩ := of_bind_ok hhandle
      rw [sessionBody_user hbody]
      exact of_triple_ok login_owner hlogin
  | refresh cookie =>
      rw [hroute] at hhandle
      obtain ⟨session, s₂, hrefresh, hbody⟩ := of_bind_ok hhandle
      rw [sessionBody_user hbody]
      exact of_triple_ok refresh_owner hrefresh
  | ping | health | metrics | findAllUsers | findAllRoles | findAllPermissions =>
      rw [hroute] at hhandle
      cases hhandle
  | logout | forgotPassword | resetPassword | getMe | findUser | createUser | updateUser |
      removeUser | setRoles | createRole
  | updateRole | removeRole | setPermissions | createPermission | updatePermission | removePermission =>
      rw [hroute] at hhandle
      obtain ⟨_, s₂, -, hbody⟩ := of_bind_ok hhandle
      cases hbody

end Handlers

/-! ## Runs

The theorem starts from any state of the application, not only from one in which nothing is under way:
requests past their guards are in the pool then, and are said to be so. -/

variable {app : App} {C : Type} [DecidableEq C] {mid t t' : State C} {c : C} {x : Draw}
  {u : Uuid} {row : User}

/-- A step loses no account. -/
theorem step_aged (hstep : Pool.step (exec app) t c x = some t') :
    Aged t.shared.world t'.shared.world := by
  rcases step_effect hstep with hsame | ⟨request, actor, -, hserve, -⟩
  · exact aged_of_eq (hsame.within.users (by decide))
  · rw [← hserve]
    exact serve_along (handle_aged _) t.shared

/-- **Nobody new is in as the account**: a request that is carried on with it, and an answer that holds
    a session of it, were so already in the state `mid`. In `mid` the account is deleted. -/
structure NobodyNew (mid t : State C) (u : Uuid) : Prop where
  admitted : ∀ {c request user}, t.calls c = .admitted request (some user) → user.id = u →
    mid.calls c = t.calls c
  answered : ∀ {c token user}, t.calls c = .answered (.ok (.session token user)) →
    user.id = u → mid.calls c = t.calls c

omit [DecidableEq C] in
theorem NobodyNew.refl (mid : State C) (u : Uuid) : NobodyNew mid mid u :=
  ⟨fun _ _ => rfl, fun _ _ => rfl⟩

/-- **One step** lets nobody in as a deleted account. -/
theorem NobodyNew.step (h : NobodyNew mid t u) (hrow : t.shared.world.db.users.get u = some row)
    (hdeleted : row.deletedAt.isSome) (hstep : Pool.step (exec app) t c x = some t') :
      NobodyNew mid t' u := by
  obtain ⟨sh, l, hexec, rfl⟩ := Pool.step_cases hstep
  -- the other calls are as before
  have hcalls : (∀ {request user}, l = .admitted request (some user) → user.id ≠ u) →
      (∀ {token user}, l = .answered (.ok (.session token user)) → user.id ≠ u) →
      NobodyNew mid ⟨sh, Function.update t.calls c l⟩ u := by
    intro hadmitted hanswered
    constructor
    · intro d request user hd hu
      by_cases heq : d = c
      · subst heq
        exact absurd hu (hadmitted (by simpa using hd))
      · have hsame : Function.update t.calls c l d = t.calls d := Function.update_of_ne heq _ _
        exact (h.admitted (hsame.symm.trans hd) hu).trans hsame.symm
    · intro d token user hd hu
      by_cases heq : d = c
      · subst heq
        exact absurd hu (hanswered (by simpa using hd))
      · have hsame : Function.update t.calls c l d = t.calls d := Function.update_of_ne heq _ _
        exact (h.answered (hsame.symm.trans hd) hu).trans hsame.symm
  rcases exec_cases hexec with ⟨request, actor, -, hguards, rfl⟩ | ⟨request, e, -, -, rfl⟩ |
    ⟨request, actor, -, hserve, rfl⟩ | ⟨key, -, -, rfl⟩
  · apply hcalls
    · rintro _ user hl rfl
      cases hl
      obtain ⟨hmem, -, hlive⟩ := guards_actor hguards
      have hget : t.shared.world.db.users.get user.id = some user := Table.get_of_mem hmem
      rw [hrow] at hget
      cases hget
      rw [hlive] at hdeleted
      cases hdeleted
    · intro token user hl
      cases hl
  · apply hcalls
    · intro _ user hl
      cases hl
    · intro token user hl
      cases hl
  · apply hcalls
    · intro _ user hl
      cases hl
    · rintro token user hl rfl
      have hanswer : serve app x actor request t.shared = (.ok (.session token user),
        (serve app x actor request t.shared).2) := by
        rw [← Call.answered.inj hl]
      have hlive := serve_session hanswer row hrow
      rw [hlive] at hdeleted
      cases hdeleted
  · apply hcalls
    · intro _ user hl
      cases hl
    · intro token user hl
      cases hl

/-- **Deletion is final.** From any state of the application on, deleted in whatever way the account has
    been: in every run of requests and cache expiries no account is lost and none changes its address; a
    deleted one keeps its row as it is, no further request is carried on as it, and no further session
    is handed out for it. -/
theorem deleted_accounts_stay_out (hrun : Pool.Steps (exec app) mid t) :
    ∀ u row, mid.shared.world.db.users.get u = some row →
      ∃ row', t.shared.world.db.users.get u = some row' ∧ row'.email = row.email ∧
        (row.deletedAt.isSome → row' = row ∧ NobodyNew mid t u) := by
  intro u row hrow
  induction hrun with
  | refl => exact ⟨row, hrow, rfl, fun _ => ⟨rfl, .refl mid u⟩⟩
  | tail _ _ hstep ih =>
      obtain ⟨row₁, hrow₁, hemail, hkept⟩ := ih
      obtain ⟨row₂, hrow₂, hlater⟩ := step_aged hstep u row₁ hrow₁
      refine ⟨row₂, hrow₂, hlater.email.trans hemail, fun hdeleted => ?_⟩
      obtain ⟨rfl, hnobody⟩ := hkept hdeleted
      exact ⟨hlater.deleted hdeleted, hnobody.step hrow₁ hdeleted hstep⟩

/-- An account registers and is deleted by the administrator; it comes back with its token and its
    password. All three are requests of one schedule. -/
def comeback : List Request :=
  [.plain none (.register ⟨"c@d.co", "new", none, none⟩), .plain (some "admin") (.removeUser uuidA.text),
    .plain (some "new") .getMe, .plain none (.login ⟨"c@d.co", "new"⟩)]

def Call.isRefused : Call → Bool
  | .answered (.error _) => true
  | _                    => false

theorem deleted_accounts_stay_out_comeback : ∃ mid t : State (Fin 4),
    Pool.Steps (exec toyApp) (arriving 4 comeback) mid ∧
      (mid.shared.world.db.users.get uuidA).any (·.deletedAt.isSome) = true ∧
      NobodyNew mid t uuidA ∧ (t.calls 2).isRefused = true ∧ (t.calls 3).isRefused = true := by
  have hreplay : (Pool.replay (exec toyApp) Pool.anyStep (arriving 4 comeback)
      [(0, .at 1 uuidA), (0, .at 2 uuidA), (1, .at 3 uuidB), (1, .at 4 uuidB)]).any (fun mid =>
        (mid.shared.world.db.users.get uuidA).any (·.deletedAt.isSome) &&
          (Pool.replay (exec toyApp) Pool.anyStep mid [(2, .at 5 uuidC), (3, .at 6 uuidC),
            (3, .at 7 uuidC)]).any fun t =>
            (t.calls 2).isRefused && (t.calls 3).isRefused) = true := by decide +kernel
  obtain ⟨mid, hmid, hrest⟩ := Pool.exists_run_of_replay hreplay
  obtain ⟨hgone, hlater⟩ := Bool.and_eq_true_iff.mp hrest
  obtain ⟨t, hrun, hrefused⟩ := Pool.exists_run_of_replay hlater
  obtain ⟨row, hrow, hdeleted⟩ := (Option.any_eq_true _ _).mp hgone
  obtain ⟨row', -, -, hkept⟩ := deleted_accounts_stay_out hrun uuidA row hrow
  exact ⟨mid, t, hmid, hgone, (hkept hdeleted).2, Bool.and_eq_true_iff.mp hrefused⟩

end Http

end NestApp
