import NestApp.Http.Takeover

/-!
# `Http.Recovery` — a forgotten password

The link that `forgotPassword` mails stays good until its time is up: in whatever order other requests
come, the only ways to lose it are a newer link, a reset of the account, and somebody who manages
accounts. The reset with its token then sets the password, and the next login goes by it.

The reset is stated by itself, as a handler that runs on a state (`Recovers`): a session that another
login inserts while it commits is outside of this, and `Auth.ForcedLogin` has it.
-/

namespace NestApp

open Sql Prog

namespace Http

variable {env : Env} {s s' : Accounts} {record : PasswordResetToken}

/-! ## What leaves the links

Only two of the open handlers write links. Those behind a permission leave the links of an account that
is in use. -/

/-- The links are the same, whatever else has changed. -/
def KeepsLinks (s s' : Accounts) : Prop := s'.resetTokens = s.resetTokens

instance : IsPreorder Accounts KeepsLinks where
  refl _ := rfl
  trans _ _ _ h h' := Eq.trans h' h

theorem Sessions.keepsLinks (h : Sessions s s') : KeepsLinks s s' := by
  unfold Sessions at h
  rw [h]
  exact rfl

theorem links_sessions {α : Type} {m : AccountService α} (h : Along Sessions m) : Along KeepsLinks m :=
  h.mono fun _ _ => Sessions.keepsLinks

theorem links_register {o oSession : Choice} {fault : Option DbCall} {metadata : SessionMetadata}
    (dto : RegisterDto) :
    Along KeepsLinks (AuthService.register env o oSession fault dto metadata) := by
  refine Along.bind (links_sessions (along_findByEmail _)) fun existing =>
    Along.bind (Along.throwIf _ _) fun _ => ?_
  have hworld : Along (fun _ _ : World => True)
    ((UsersService.createWithDefaultRole env fault (Session.newUser env o dto)).mapError
      (rethrowConflictOrOriginal "Email is already registered")) := fun _ => trivial
  exact Along.bind (Along.zoom hworld fun _ _ _ => rfl) fun user =>
    links_sessions (along_createSession user)

variable {app : App} {x : Draw} {actor : Option User} {metadata : SessionMetadata}

/-- Of the handlers without a permission, two write links. -/
theorem handle_keepsLinks {route : Route} (h : route.required = none)
    (hforgot : ∀ dto, route ≠ .forgotPassword dto)
    (hreset : ∀ dto, route ≠ .resetPassword dto) :
      Along KeepsLinks (handle app x actor metadata route) := by
  cases route with
  | ping | health => exact Along.pure _
  | register dto => exact Along.bind (links_register dto) fun _ => along_sessionBody _ _ _
  | login dto => exact Along.bind (links_sessions (along_login dto)) fun _ => along_sessionBody _ _ _
  | refresh cookie =>
      exact Along.bind (links_sessions (along_refresh cookie)) fun _ => along_sessionBody _ _ _
  | logout cookie => exact Along.bind (links_sessions (along_logout cookie)) fun _ => Along.pure _
  | forgotPassword dto => exact absurd rfl (hforgot dto)
  | resetPassword dto => exact absurd rfl (hreset dto)
  | getMe => exact Along.bind (Along.orThrow _ _) fun _ => Along.pure _
  | metrics | findAllUsers | findUser | createUser | updateUser | removeUser | setRoles |
      findAllRoles | createRole
  | updateRole | removeRole | setPermissions | findAllPermissions | createPermission | updatePermission
  | removePermission => cases h

/-! ## A request for a link

The older links of the account are used up, and the new one is stored with the hash of its token. The
mail carries the token itself. -/

section ForgotPassword

variable {driver : MailDriver} {o : Choice} {queueAccepts : Bool} {fault : Option DbCall}
  {dto : ForgotPasswordDto} {owner : User}

/-- A link issued leaves the links of the other accounts. -/
theorem issueLink_keeps (hrecord : record ∈ s.resetTokens.rows) (hother : owner.id ≠ record.userId) :
    record ∈ (AuthService.issueLink env driver o queueAccepts fault owner metadata
      s).2.resetTokens.rows := by
  refine Triple.final (P := (· = s)) (E := fun s' => record ∈ s'.resetTokens.rows) ?_ rfl
  refine statement_single hrecord fun _ => Triple.modify_single ?_
  have hused : record ∈ (s.useLinks owner.id o.now).resetTokens.rows := by
    refine List.mem_map.mpr ⟨record, hrecord, if_neg ?_⟩
    simp [unusedOfUser, hother.symm]
  refine statement_single hused fun _ => ?_
  simp only [bind_assoc]
  refine Triple.gets_single (Triple.orThrow_single hused fun s' hs' => Triple.modify_single ?_)
  have hissued : record ∈ s'.resetTokens.rows := by
    obtain ⟨hfree, rfl⟩ := Accounts.insertResetToken_some hs'
    refine Table.mem_put.mpr (.inr ⟨hused, fun hkey => hfree (.inl ?_)⟩)
    have hget := Table.get_of_mem hused
    rw [hkey] at hget
    exact Option.isSome_iff_exists.mpr ⟨record, hget⟩
  intro s₁ hs₁
  obtain ⟨mailQueue, hsent⟩ :=
    MailService.sendPasswordReset_ok env driver queueAccepts owner.email o.token s₁
  rw [hsent, show s₁ = s' from hs₁]
  exact hissued

theorem forgotPassword_keeps (hrecord : record ∈ s.resetTokens.rows)
    (hother : ∀ owner, AuthService.linkOwner env dto s.world = some owner → owner.id ≠ record.userId) :
    record ∈ (AuthService.forgotPassword env driver o queueAccepts fault dto metadata
      s).2.resetTokens.rows := by
  by_cases hfault : fault = some .findByEmail
  · rw [AuthService.forgotPassword_unread driver o queueAccepts metadata hfault]
    exact hrecord
  · cases howner : AuthService.linkOwner env dto s.world with
    | none =>
        rw [AuthService.forgotPassword_silent driver o queueAccepts metadata hfault howner]
        exact hrecord
    | some owner =>
        rw [AuthService.forgotPassword_issues driver o queueAccepts metadata hfault howner]
        exact issueLink_keeps hrecord (hother owner howner)

/-- **An answer without an error**: the link is stored, and a mail with its token waits for the address
    of the account. -/
theorem forgotPassword_mails (hmailed : Mailed env s)
    (hlabelled : ∀ job ∈ s.mailQueue, job = MailService.job env job.email job.token)
    (howner : AuthService.linkOwner env dto s.world = some owner)
    (hdone : AuthService.forgotPassword env .smtp o true fault dto metadata s = (.ok (), s')) :
    ForgotPassword.newToken env o owner metadata ∈ s'.resetTokens.rows ∧
      MailService.job env owner.email o.token ∈ s'.mailQueue := by
  have hfault : fault ≠ some .findByEmail := by
    intro hfault
    rw [AuthService.forgotPassword_unread .smtp o true metadata hfault] at hdone
    cases hdone
  rw [AuthService.forgotPassword_issues .smtp o true metadata hfault howner] at hdone
  -- neither statement has failed
  obtain ⟨⟨⟩, s₁, hused, hrest⟩ := of_bind_ok hdone
  obtain ⟨⟨⟩, s₂, hinserted, hsent⟩ := of_bind_ok hrest
  have hs₁ : s₁ = s.useLinks owner.id o.now := by
    by_cases h : fault = some .invalidateResetTokens
    · rw [statement_fault h] at hused
      cases hused
    · rw [statement_of_ne h] at hused
      cases hused
      rfl
  have hissued : s₁.insertResetToken (ForgotPassword.newToken env o owner metadata) = some s₂ := by
    by_cases h : fault = some .insertResetToken ∨
      s₁.insertResetToken (ForgotPassword.newToken env o owner metadata) = none
    · have hfails : ∃ e, insertRow fault .insertResetToken
        (·.insertResetToken (ForgotPassword.newToken env o owner metadata)) s₁ =
          (.error e, s₁) := insertRow_fails _ h
      obtain ⟨e, hfails⟩ := hfails
      rw [hfails] at hinserted
      cases hinserted
    · obtain ⟨hok, hinsert⟩ := not_or.mp h
      obtain ⟨s₃, hs₃⟩ := Option.ne_none_iff_exists'.mp hinsert
      rw [insertRow_done hok hs₃] at hinserted
      cases hinserted
      exact hs₃
  obtain ⟨hfree, hs₂⟩ := Accounts.insertResetToken_some hissued
  -- no mail waits under the id of this one: its token would have a link
  have hnew : ¬ s₂.mailQueue.any (·.jobId = (MailService.job env owner.email o.token).jobId) = true := by
    intro hany
    obtain ⟨job, hjob, hid⟩ := List.any_eq_true.mp hany
    rw [hs₂, hs₁] at hjob
    obtain ⟨r, hr, -, hhash, -, -⟩ := hmailed.addressed job hjob
    obtain ⟨r', hr', hsame, -⟩ := (sameLinks_useLinks owner.id o.now).kept r hr
    apply hfree
    right
    rw [hs₁]
    refine ⟨r', hr', ?_⟩
    have hids : "pwreset-" ++ env.hashToken job.token = "pwreset-" ++ env.hashToken o.token := by
      rw [decide_eq_true_eq, hlabelled job hjob] at hid
      exact hid
    rw [hsame, hhash]
    exact (String.append_right_inj _).mp hids
  have hs' : s' = { s₂ with
    mailQueue := s₂.mailQueue ++ [MailService.job env owner.email o.token] } := by
    have hqueue : MailService.enqueue s₂.mailQueue (MailService.job env owner.email o.token) =
        s₂.mailQueue ++ [MailService.job env owner.email o.token] := by
      rw [MailService.enqueue, if_neg hnew]
    rw [← hqueue]
    exact (Prod.mk.inj hsent).2.symm
  rw [hs', hs₂]
  exact ⟨Table.mem_put.mpr (.inl rfl), List.mem_append_right _ (List.mem_singleton.mpr rfl)⟩

end ForgotPassword

/-! ## The reset

On a link that is unused and in its time, for an account that is active. -/

/-- **A link that opens the account sets the password**, and the reset is answered without an error. -/
theorem resetPassword_opens {o : Choice} {dto : ResetPasswordDto} {user : User} (hmailed : Mailed env s)
    (hopens : Opens env o.now dto.token s record user) : AuthService.resetPassword env o dto s =
      (.ok (), reset (env.hashPassword o.salt dto.newPassword) o.now record user s) := by
  have hfind : s.resetTokens.find? (fun r => r.tokenHash = env.hashToken dto.token) = some record := by
    cases hfound : s.resetTokens.find? fun r => r.tokenHash = env.hashToken dto.token with
    | none =>
        have hnone := List.find?_eq_none.mp hfound record hopens.stored
        simp [hopens.hash] at hnone
    | some found =>
        obtain ⟨hmem, hhash⟩ := Table.find?_some hfound
        rw [hmailed.unique found hmem record hopens.stored
          ((of_decide_eq_true hhash).trans hopens.hash.symm)]
  have howner : (s.world.db.users.get record.userId).filter (fun u => u.deletedAt.isNone) =
    some user := by
    rw [hopens.owner, Option.filter_some, hopens.live]
    rfl
  have hvalid : ¬ (record.usedAt.isSome ∨ record.expiresAt < o.now) := by
    rw [hopens.unused]
    simp [hopens.runs]
  unfold AuthService.resetPassword accountTransaction
  apply transaction_ok
  rw [gets_bind, hfind, orThrow_bind_some, throwIf_bind_false hvalid, gets_bind, howner,
    orThrow_bind_some,
    throwIf_bind_false (by simp [hopens.active])]
  rfl

/-! ## Runs

The link of the theorem in a run: it stays as it is, or it is superseded, by one of three kinds of
events that the run contains. -/

variable {C : Type} [DecidableEq C] {first mid t t' : State C} {c : C} {u : Uuid} {row : User}

/-- **Another link of the account has been asked for**, by a request of the run that has passed its
    guards. -/
def Requested (app : App) (first t : State C) (u : Uuid) : Prop :=
  ∃ (t₀ t₁ : State C) (c : C) (x : Draw) (request : Request) (actor : Option User)
    (dto : ForgotPasswordDto) (owner : User),
    Pool.Steps (exec app) first t₀ ∧ Pool.step (exec app) t₀ c x = some t₁ ∧ Pool.Steps (exec app) t₁ t ∧
    t₀.calls c = .admitted request actor ∧ request.route = .forgotPassword dto ∧
    AuthService.linkOwner app.env dto t₀.shared.world = some owner ∧ owner.id = u

/-- **What takes a link out of use before its time**: somebody has managed accounts, a reset of the
    account has been made, or since `mid` another link of it has been asked for. Each of these is a
    request that has arrived in the run. -/
def Superseded (app : App) (first mid t : State C) (u : Uuid) (email : String) : Prop :=
  Managed app first t ∨ ByLink app first t u email ∨ Requested app mid t u

theorem Superseded.steps {email : String} (h : Superseded app first mid t u email)
    (hrun : Pool.Steps (exec app) t t') :
    Superseded app first mid t' u email := by
  rcases h with hmanaged |
    ⟨t₀, t₁, c, x, request, actor, dto, record, user, hrun₀, hstep₀, hrun₁, hrest⟩ |
    ⟨t₀, t₁, c, x, request, actor, dto, owner, hrun₀, hstep₀, hrun₁, hrest⟩
  · exact .inl (hmanaged.steps hrun)
  · exact .inr (.inl ⟨t₀, t₁, c, x, request, actor, dto, record, user, hrun₀, hstep₀,
      hrun₁.trans hrun, hrest⟩)
  · exact .inr (.inr ⟨t₀, t₁, c, x, request, actor, dto, owner, hrun₀, hstep₀, hrun₁.trans hrun, hrest⟩)

/-- A request for a link has no path parameter, and nothing to return. -/
theorem serve_forgotPassword {request : Request} {dto : ForgotPasswordDto}
    (hroute : request.route = .forgotPassword dto) :
    serve app x actor request s =
      ((AuthService.forgotPassword app.env app.driver x.o x.queueAccepts x.fault dto
        request.metadata s).1.map fun _ => .empty,
        (AuthService.forgotPassword app.env app.driver x.o x.queueAccepts x.fault dto
          request.metadata s).2) := by
  unfold serve
  rw [hroute, throwIf_bind_false (by simp [Route.idParam])]
  show (AuthService.forgotPassword app.env app.driver x.o x.queueAccepts x.fault dto request.metadata >>=
    fun _ => (pure .empty : AccountService Body)) s = _
  cases hforgot : AuthService.forgotPassword app.env app.driver x.o x.queueAccepts x.fault
    dto request.metadata s with
  | mk r s' =>
      cases r with
      | ok _ => rw [bind_ok hforgot]; rfl
      | error e => rw [bind_error hforgot]; rfl

/-- **One step** leaves the link, or takes it out of use. -/
theorem link_step (hcasl : app.casl.Unconditional) (hfirst : ∀ c, (first.calls c).begins)
    (hrun : Pool.Steps (exec app) first t) (hmid : Pool.Steps (exec app) mid t)
    (huntouched : Untouched app first t u row)
    (hrecord : record ∈ t.shared.resetTokens.rows) (hof : record.userId = u)
    (hstep : Pool.step (exec app) t c x = some t') :
    record ∈ t'.shared.resetTokens.rows ∨ Superseded app first mid t' u row.email := by
  rcases step_unmanaged hcasl hfirst hrun hstep with hmanaged | ⟨-, hlinks, -⟩ |
    ⟨request, actor, hcall, hserve, hnone, hopen⟩
  · exact .inr (.inl hmanaged)
  · left
    rwa [hlinks]
  · cases hroute : request.route with
    | forgotPassword dto =>
        by_cases hother : ∀ owner, AuthService.linkOwner app.env dto t.shared.world = some owner →
          owner.id ≠ record.userId
        · left
          rw [← hserve, serve_forgotPassword hroute]
          exact forgotPassword_keeps hrecord hother
        · right; right; right
          push Not at hother
          obtain ⟨owner, howner, hid⟩ := hother
          exact ⟨t, t', c, x, request, actor, dto, owner, hmid, hstep, .refl, hcall,
            hroute, howner, hid.trans hof⟩
    | resetPassword dto =>
        have hshared : t'.shared = (AuthService.resetPassword app.env x.o dto t.shared).2 := by
          rw [← hserve, serve_resetPassword hroute]
        rcases resetPassword_cases dto with hsame | ⟨presented, user, hopens, hwritten⟩
        · left
          rwa [hshared, hsame]
        · by_cases hu : presented.userId = u
          · obtain ⟨row', hrow', hperson⟩ := huntouched.person
            exact .inr (.inr (.inl (byLink_reset huntouched.mailed hrun hstep hcall hroute
              hopens hu hrow' hperson)))
          · left
            rw [hshared, hwritten]
            refine Table.mem_put.mpr (.inr ⟨hrecord, fun hkey => hu ?_⟩)
            obtain rfl : record = presented := Table.eq_of_key_eq hrecord hopens.stored hkey
            exact hof
    | _ =>
        left
        have hkeeps : KeepsLinks t.shared (serve app x actor request t.shared).2 := by
          refine serve_along (handle_keepsLinks hnone ?_ ?_) t.shared
          · intro dto heq
            rw [hroute] at heq
            cases heq
          · intro dto heq
            rw [hroute] at heq
            cases heq
        rw [hserve] at hkeeps
        rwa [show t'.shared.resetTokens = t.shared.resetTokens from hkeeps]

/-- **A whole run** leaves the link, or takes it out of use. -/
theorem link_stays (hcasl : app.casl.Unconditional) (hfirst : ∀ c, (first.calls c).begins)
    (hmailed : Mailed app.env first.shared)
    (hrow : first.shared.world.db.users.get u = some row) (hmid : Pool.Steps (exec app) first mid)
    (hrecord : record ∈ mid.shared.resetTokens.rows) (hof : record.userId = u)
    (hrun : Pool.Steps (exec app) mid t) :
    record ∈ t.shared.resetTokens.rows ∨ Superseded app first mid t u row.email := by
  induction hrun with
  | refl => exact .inl hrecord
  | tail hrun _ hstep ih =>
      rcases ih with hstays | hsuperseded
      · rcases managed_or_untouched hcasl hfirst hmailed hrow
          (hmid.trans hrun) with hmanaged | huntouched
        · exact .inr (Superseded.steps (.inl hmanaged) (.single trivial hstep))
        · exact link_step hcasl hfirst (hmid.trans hrun) hrun huntouched hstays hof hstep
      · exact .inr (hsuperseded.steps (.single trivial hstep))

/-- A mail waits under the id of its token, and none is taken back. Delivery is the business of the
    queue. -/
structure Queued (env : Env) (s s' : Accounts) : Prop where
  kept     : ∀ job ∈ s.mailQueue, job ∈ s'.mailQueue
  labelled : ∀ job ∈ s'.mailQueue, job ∈ s.mailQueue ∨ job = MailService.job env job.email job.token

instance : IsPreorder Accounts (Queued env) where
  refl _ := ⟨fun _ h => h, fun _ h => .inl h⟩
  trans _ _ _ h h' := by
    refine ⟨fun job hjob => h'.kept job (h.kept job hjob), fun job hjob => ?_⟩
    exact (h'.labelled job hjob).elim (h.labelled job) .inr

theorem queued_of_eq (h : s'.mailQueue = s.mailQueue) : Queued env s s' := by
  refine ⟨fun job hjob => by rwa [h], fun job hjob => .inl ?_⟩
  rwa [← h]

theorem OpenWrite.queued {link : Option String} (h : OpenWrite env link s s') : Queued env s s' := by
  cases h with
  | registered | sessions | linksUsed | password => exact queued_of_eq rfl
  | linkIssued h =>
      obtain ⟨-, rfl⟩ := Accounts.insertResetToken_some h
      exact queued_of_eq rfl
  | @mailed record user token _ _ _ =>
      by_cases hany : s.mailQueue.any (·.jobId = (MailService.job env user.email token).jobId) = true
      · apply queued_of_eq
        show MailService.enqueue _ _ = _
        rw [MailService.enqueue, if_pos hany]
      · have hqueue : MailService.enqueue s.mailQueue (MailService.job env user.email token) =
            s.mailQueue ++ [MailService.job env user.email token] := by
          rw [MailService.enqueue, if_neg hany]
        constructor
        · intro job hjob
          show job ∈ MailService.enqueue _ _
          rw [hqueue]
          exact List.mem_append_left _ hjob
        · intro job hjob
          replace hjob : job ∈ MailService.enqueue _ _ := hjob
          rw [hqueue, List.mem_append, List.mem_singleton] at hjob
          refine hjob.imp_right fun heq => ?_
          rw [heq]
          rfl

theorem step_queued (hstep : Pool.step (exec app) t c x = some t') :
    Queued app.env t.shared t'.shared := by
  rcases step_effect hstep with hsame | ⟨request, actor, -, -, ⟨-, hopen⟩ | ⟨subject, -, hconfined⟩⟩
  · apply queued_of_eq
    rw [hsame.others]
  · exact hopen.fold fun _ _ hone => hone.queued
  · exact queued_of_eq hconfined.mailQueue

theorem steps_queued (hrun : Pool.Steps (exec app) t t') : Queued app.env t.shared t'.shared := by
  induction hrun with
  | refl => exact refl_of _ _
  | tail _ _ hstep ih => exact trans_of _ ih (step_queued hstep)

/-- **The password is recovered** with a token, up to a time: a reset that runs by itself sets it,
    whatever it is set to, and ends every session the account has; and a login with the address of the
    account, in any spelling, goes by it. -/
def Recovers (app : App) (s : Accounts) (u : Uuid) (row : User) (token : String)
    (expiresAt : Nat) : Prop :=
  ∀ (o : Choice) (newPassword : String), o.now ≤ expiresAt → ∃ s',
    AuthService.resetPassword app.env o ⟨token, newPassword⟩ s = (.ok (), s') ∧
    s'.world.db.users.get u =
      some (ResetPassword.withPassword (app.env.hashPassword o.salt newPassword) o.now row) ∧
    (∀ r ∈ s'.refreshTokens.rows, r.userId = u → r.revokedAt.isSome) ∧
    ∀ (oLogin : Choice) (dto : LoginDto) (metadata : SessionMetadata),
      app.env.citextLower (normalizeEmail app.env dto.email) = app.env.citextLower row.email →
      AuthService.login app.env oLogin dto metadata s' =
        if app.env.verifyPassword (app.env.hashPassword o.salt newPassword) dto.password then
          AuthService.createSession app.env oLogin none
            (ResetPassword.withPassword (app.env.hashPassword o.salt newPassword) o.now row) metadata s'
        else (.error AuthService.invalidCredentials, s')

/-- An unused link of an active account recovers its password. -/
theorem recovers_of_link {token : String} (hmailed : Mailed app.env s)
    (hrow : s.world.db.users.get u = some row)
    (hlive : row.deletedAt = none) (hactive : row.status = .active)
    (hholder : SoleHolder app.env s.world.db u row.email)
    (hrecord : record ∈ s.resetTokens.rows) (hof : record.userId = u) (hunused : record.usedAt = none)
    (hhash : record.tokenHash = app.env.hashToken token) :
      Recovers app s u row token record.expiresAt := by
  intro o newPassword hruns
  have hid : row.id = u := Table.get_key hrow
  have hopens : Opens app.env o.now token s record row :=
    ⟨hrecord, hhash, hunused, Nat.not_lt.mpr hruns, by rw [hof]; exact hrow, hlive, hactive⟩
  have hopen : Open app.env (some token) s
    (AuthService.resetPassword app.env o ⟨token, newPassword⟩ s).2 :=
    along_resetPassword ⟨token, newPassword⟩ s
  have hdone : AuthService.resetPassword app.env o ⟨token, newPassword⟩ s =
      (.ok (), reset (app.env.hashPassword o.salt newPassword) o.now record row s) :=
        resetPassword_opens hmailed hopens
  rw [hdone] at hopen
  have hset : (reset (app.env.hashPassword o.salt newPassword) o.now record row s).world.db.users.get u =
      some (ResetPassword.withPassword (app.env.hashPassword o.salt newPassword) o.now row) := by
    show (s.world.db.users.put _).get u = _
    rw [Table.get_put]
    exact if_pos hid.symm
  refine ⟨_, hdone, hset, ?_, ?_⟩
  · intro r hr hru
    obtain ⟨r', hr', rfl⟩ := List.mem_map.mp hr
    split at hru
    · next hlive' =>
      rw [if_pos hlive']
      rfl
    · next hdead =>
      rw [if_neg hdead]
      rw [liveOfUser] at hdead
      rw [← hid] at hru
      simpa [hru, Option.isSome_iff_ne_none] using hdead
  · intro oLogin dto metadata hemail
    have hsole : SoleHolder app.env
      (reset (app.env.hashPassword o.salt newPassword) o.now record row s).world.db u row.email :=
      Open.soleHolder hopen hholder hrow hlive
    have hholder' : SoleHolder app.env
      (reset (app.env.hashPassword o.salt newPassword) o.now record row s).world.db u
        (ResetPassword.withPassword (app.env.hashPassword o.salt newPassword) o.now row).email := hsole
    rw [login_soleHolder hholder' hset hlive hemail]
    exact loginTo_active hactive

/-- **A forgotten password is recovered.** An active account, which alone holds its address, asks for a
    link with that address, in any spelling, and is answered without an error. Then a mail for the
    address of the account waits in the queue, and in every later state its token recovers the password
    until its time is up; or the link has been superseded: by a request of the run to manage accounts,
    by a reset of the account, or by another request for a link. -/
theorem forgotten_password_recovered (hcasl : app.casl.Unconditional)
    (hfirst : ∀ c, (first.calls c).begins)
    (hmailed : Mailed app.env first.shared)
    (hlabelled : ∀ job ∈ first.shared.mailQueue, job = MailService.job app.env job.email job.token)
    (hrow : first.shared.world.db.users.get u = some row) (hlive : row.deletedAt = none)
    (hactive : row.status = .active)
    (hholder : SoleHolder app.env first.shared.world.db u row.email) (hsmtp : app.driver = .smtp)
    {t₀ t₁ : State C} {request : Request} {dto : ForgotPasswordDto}
    (hrun₀ : Pool.Steps (exec app) first t₀)
    (hcall : t₀.calls c = .admitted request actor) (hroute : request.route = .forgotPassword dto)
    (haddress : app.env.citextLower (normalizeEmail app.env dto.email) = app.env.citextLower row.email)
    (hqueue : x.queueAccepts = true) (hstep : Pool.step (exec app) t₀ c x = some t₁)
    (hanswer : t₁.calls c = .answered (.ok .empty))
    (hrun : Pool.Steps (exec app) t₁ t) :
    (∃ job ∈ t.shared.mailQueue, job.email = row.email ∧ job.token = x.o.token ∧
      Recovers app t.shared u row job.token (x.o.now + app.env.resetTokenTtlMs)) ∨
    Superseded app first t₁ t u row.email := by
  have hbefore : Superseded app first t₁ t₀ u row.email → Superseded app first t₁ t u row.email := by
    intro h
    exact h.steps ((Pool.Run.single trivial hstep).trans hrun)
  rcases managed_or_untouched hcasl hfirst hmailed hrow hrun₀ with hmanaged | huntouched₀
  · exact .inr (hbefore (.inl hmanaged))
  rcases huntouched₀.row with hrow₀ | hlink
  · rcases managed_or_soleHolder hcasl hfirst hrow hlive hholder hrun₀ with hmanaged | ⟨-, hsole₀⟩
    · exact .inr (hbefore (.inl hmanaged))
    -- the request finds the account
    have howner : AuthService.linkOwner app.env dto t₀.shared.world = some row := by
      rw [AuthService.linkOwner, findByEmail_soleHolder hsole₀ hrow₀ hlive haddress,
        Option.filter_some, hactive]
      rfl
    have hlabelled₀ : ∀ job ∈ t₀.shared.mailQueue, job = MailService.job app.env job.email job.token :=
      fun job hjob =>
      ((steps_queued hrun₀).labelled job hjob).elim (hlabelled job) id
    -- its handler is the step
    have hdone : AuthService.forgotPassword app.env .smtp x.o true x.fault dto request.metadata
      t₀.shared = (.ok (), t₁.shared) := by
      obtain ⟨sh, l, hexec, rfl⟩ := Pool.step_cases hstep
      rw [hcall] at hexec
      cases hexec
      replace hanswer : (serve app x actor request t₀.shared).1 = .ok .empty := by simpa using hanswer
      rw [serve_forgotPassword hroute, hsmtp, hqueue] at hanswer ⊢
      cases hforgot : AuthService.forgotPassword app.env .smtp x.o true x.fault dto
        request.metadata t₀.shared with
      | mk r s' =>
          rw [hforgot] at hanswer
          cases r with
          | ok _ => rfl
          | error e => cases hanswer
    obtain ⟨hrecord, hjob⟩ := forgotPassword_mails huntouched₀.mailed hlabelled₀ howner hdone
    have hid : row.id = u := Table.get_key hrow
    have hrun₁ : Pool.Steps (exec app) first t₁ := .tail hrun₀ trivial hstep
    rcases managed_or_untouched hcasl hfirst hmailed hrow (hrun₁.trans hrun) with hmanaged | huntouched
    · exact .inr (.inl hmanaged)
    rcases huntouched.row with hrow' | hlink
    · rcases managed_or_soleHolder hcasl hfirst hrow hlive hholder
        (hrun₁.trans hrun) with hmanaged | ⟨-, hsole⟩
      · exact .inr (.inl hmanaged)
      refine (link_stays hcasl hfirst hmailed hrow hrun₁ hrecord hid hrun).imp_left fun hstays => ?_
      refine ⟨_, (steps_queued hrun).kept _ hjob, rfl, rfl, ?_⟩
      exact recovers_of_link huntouched.mailed hrow' hlive hactive hsole hstays hid rfl rfl
    · exact .inr (.inr (.inl hlink))
  · exact .inr (hbefore (.inr (.inl hlink)))

/-- The administrator asks for a link, and somebody registers. The registration is what other requests
    do meanwhile. -/
def askedForLink : List Request :=
  [.plain none (.forgotPassword ⟨" A@B.CO"⟩), .plain none (.register ⟨"c@d.co", "new", none, none⟩)]

/-- The request for the link has passed the guards. -/
def linkAdmitted : State (Fin 2) where
  shared := freshAccounts
  calls  := Function.update (arriving 2 askedForLink).calls 0
    (.admitted (.plain none (.forgotPassword ⟨" A@B.CO"⟩)) none)

def Call.isDone : Call → Bool
  | .answered (.ok .empty) => true
  | _                      => false

theorem answered_of_isDone {call : Call} (h : call.isDone = true) : call = .answered (.ok .empty) := by
  unfold Call.isDone at h
  split at h
  · rfl
  · cases h

theorem forgotten_password_recovered_newcomer : ∃ t₁ t :
    State (Fin 2), t.shared.world.db.users.rows.length = 2 ∧
    ((∃ job ∈ t.shared.mailQueue, job.email = "a@b.co" ∧ job.token = "token" ∧
        Recovers toyApp t.shared (seedId 8) seededAdmin job.token (2 + toyEnv.resetTokenTtlMs)) ∨
      Superseded toyApp (arriving 2 askedForLink) t₁ t (seedId 8) "a@b.co") := by
  have hadmitted : Pool.step (exec toyApp) (arriving 2 askedForLink) 0 (.at 1 uuidA) =
    some linkAdmitted := rfl
  have hreplay : ((Pool.step (exec toyApp) linkAdmitted 0 (.at 2 uuidA)).any
    fun t₁ => (t₁.calls 0).isDone &&
      (Pool.replay (exec toyApp) Pool.anyStep t₁ [(1, .at 3 uuidB), (1, .at 4 uuidB)]).any fun t =>
        decide (t.shared.world.db.users.rows.length = 2)) = true := by decide +kernel
  obtain ⟨t₁, hstep, hrest⟩ := (Option.any_eq_true _ _).mp hreplay
  obtain ⟨hdone, hlater⟩ := Bool.and_eq_true_iff.mp hrest
  obtain ⟨t, hrun, hlength⟩ := Pool.exists_run_of_replay hlater
  refine ⟨t₁, t, of_decide_eq_true hlength, ?_⟩
  exact forgotten_password_recovered ruleList_unconditional (begins_arriving askedForLink)
    (mailed_arriving askedForLink)
    (fun job hjob => by cases hjob) (get_seededAdmin askedForLink) rfl rfl
    (soleHolder_arriving askedForLink) rfl (.single trivial hadmitted) rfl rfl
    (by decide +kernel) rfl hstep (answered_of_isDone hdone) hrun

end Http

end NestApp
