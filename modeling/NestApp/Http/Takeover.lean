import NestApp.Http.Mediation

/-!
# `Http.Takeover` — who can change an account

The row of an account, its password included, is changed by somebody who manages accounts, or by
whoever presents a reset link of the account. A link is known from the mail it was sent with, and
`Mailed` says where such mails have gone: to the address of the account, and nowhere else.

Two theorems about every run: what has happened where the row of an account is not what it was, and
what a login with its address comes to otherwise. Both end in the same two exceptions, `Managed` and
`ByLink`, and each of these is an event of the run: a request that has arrived.
-/

namespace NestApp

open Sql Prog

namespace Http

/-- **Every mail has gone to the account of its link**: a token hash belongs to one link, and a mail
    with a token of that hash is addressed to the account of the link. The queue keeps what was put into
    it. -/
structure Mailed (env : Env) (s : Accounts) : Prop where
  unique    : ∀ r ∈ s.resetTokens.rows, ∀ r' ∈ s.resetTokens.rows, r.tokenHash = r'.tokenHash → r = r'
  addressed : ∀ job ∈ s.mailQueue, ∃ r ∈ s.resetTokens.rows, ∃ row,
    r.tokenHash = env.hashToken job.token ∧
    s.world.db.users.get r.userId = some row ∧ row.email = job.email

/-- The links are the same up to whether they are used. -/
structure SameLinks (links links' : Table PasswordResetToken) : Prop where
  old : ∀ r' ∈ links'.rows, ∃ r ∈ links.rows, r.id = r'.id ∧ r.tokenHash = r'.tokenHash
  kept : ∀ r ∈ links.rows, ∃ r' ∈ links'.rows, r'.tokenHash = r.tokenHash ∧ r'.userId = r.userId

/-- Every account is there still, up to its password. -/
def SamePersons (db db' : Rbac) : Prop :=
  ∀ u row, db.users.get u = some row → ∃ row', db'.users.get u = some row' ∧ SamePerson row row'

variable {env : Env} {link : Option String} {s s' : Accounts}

theorem SamePerson.email {row row' : User} (h : SamePerson row row') : row'.email = row.email := by
  unfold SamePerson at h
  rw [h]

theorem SamePerson.trans {row row' row'' : User} (h : SamePerson row row')
    (h' : SamePerson row' row'') : SamePerson row row'' := by
  unfold SamePerson at h h' ⊢
  rw [h', h]

theorem samePersons_of_eq {db db' : Rbac} (h : db'.users = db.users) : SamePersons db db' := by
  intro u row hrow
  exact ⟨row, by rwa [h], rfl⟩

theorem SameLinks.rfl {links : Table PasswordResetToken} : SameLinks links links :=
  ⟨fun r h => ⟨r, h, .refl _, .refl _⟩, fun r h => ⟨r, h, .refl _, .refl _⟩⟩

theorem sameLinks_useLinks (userId : Uuid) (now : Nat) :
    SameLinks s.resetTokens (s.useLinks userId now).resetTokens := by
  have hcolumns : ∀ r, (if unusedOfUser userId r then markUsed now r else r).id = r.id ∧
      (if unusedOfUser userId r then markUsed now r else r).tokenHash = r.tokenHash ∧
      (if unusedOfUser userId r then markUsed now r else r).userId = r.userId := by
    intro r
    split
    · exact ⟨rfl, rfl, rfl⟩
    · exact ⟨rfl, rfl, rfl⟩
  constructor
  · intro r' hr'
    obtain ⟨r, hr, rfl⟩ := List.mem_map.mp hr'
    exact ⟨r, hr, (hcolumns r).1.symm, (hcolumns r).2.1.symm⟩
  · intro r hr
    exact ⟨_, List.mem_map.mpr ⟨r, hr, rfl⟩, (hcolumns r).2⟩

theorem sameLinks_put {record : PasswordResetToken} (hrecord : record ∈ s.resetTokens.rows) (now : Nat) :
    SameLinks s.resetTokens (s.resetTokens.put (markUsed now record)) := by
  constructor
  · intro r' hr'
    rcases Table.mem_put.mp hr' with rfl | ⟨hr', -⟩
    · exact ⟨record, hrecord, rfl, rfl⟩
    · exact ⟨r', hr', rfl, rfl⟩
  · intro r hr
    by_cases hkey : key r = key (markUsed now record)
    · obtain rfl : r = record := Table.eq_of_key_eq hr hrecord hkey
      exact ⟨markUsed now r, Table.mem_put.mpr (.inl rfl), rfl, rfl⟩
    · exact ⟨r, Table.mem_put.mpr (.inr ⟨hr, hkey⟩), rfl, rfl⟩

/-- What keeps the links, the addresses and the mails keeps it. -/
theorem Mailed.congr (h : Mailed env s) (hlinks : SameLinks s.resetTokens s'.resetTokens)
    (hpersons : SamePersons s.world.db s'.world.db) (hmail : s'.mailQueue = s.mailQueue) :
      Mailed env s' := by
  constructor
  · intro r hr r' hr' heq
    obtain ⟨q, hq, hid, hhash⟩ := hlinks.old r hr
    obtain ⟨q', hq', hid', hhash'⟩ := hlinks.old r' hr'
    have hsame : q = q' := h.unique q hq q' hq' (by rw [hhash, hhash', heq])
    apply Table.eq_of_key_eq hr hr'
    show r.id = r'.id
    rw [← hid, ← hid', hsame]
  · intro job hjob
    rw [hmail] at hjob
    obtain ⟨r, hr, row, hhash, hrow, hemail⟩ := h.addressed job hjob
    obtain ⟨r', hr', hhash', hid'⟩ := hlinks.kept r hr
    obtain ⟨row', hrow', hsame⟩ := hpersons _ _ hrow
    exact ⟨r', hr', row', hhash'.trans hhash, by rwa [hid'], hsame.email.trans hemail⟩

/-- A link issued has a hash of its own. -/
theorem Mailed.linkIssued {row : PasswordResetToken} (h : Mailed env s)
    (hissued : s.insertResetToken row = some s') :
    Mailed env s' := by
  obtain ⟨hfree, rfl⟩ := Accounts.insertResetToken_some hissued
  rw [Table.Taken, not_or] at hfree
  obtain ⟨hnew, hhash⟩ := hfree
  have hne : ∀ r ∈ s.resetTokens.rows, r.tokenHash ≠ row.tokenHash := fun r hr heq => hhash ⟨r, hr, heq⟩
  constructor
  · intro r hr r' hr' heq
    rcases Table.mem_put.mp hr with hr | ⟨hr, -⟩ <;> rcases Table.mem_put.mp hr' with hr' | ⟨hr', -⟩
    · rw [hr, hr']
    · rw [hr] at heq
      exact absurd heq.symm (hne r' hr')
    · rw [hr'] at heq
      exact absurd heq (hne r hr)
    · exact h.unique r hr r' hr' heq
  · intro job hjob
    obtain ⟨r, hr, owner, hrest⟩ := h.addressed job hjob
    refine ⟨r, Table.mem_put.mpr (.inr ⟨hr, fun hkey => hnew ?_⟩), owner, hrest⟩
    have hget : s.resetTokens.get row.id = some r := by
      rw [← show key r = row.id from hkey]
      exact Table.get_of_mem hr
    rw [hget]
    rfl

/-- **One write** of a request without a permission. -/
theorem OpenWrite.keepsMailed (hwrite : OpenWrite env link s s') (h : Mailed env s) : Mailed env s' := by
  have hpersons := hwrite.publicChange.users
  cases hwrite with
  | registered => exact h.congr .rfl hpersons rfl
  | sessions => exact h.congr .rfl hpersons rfl
  | linksUsed userId now => exact h.congr (sameLinks_useLinks userId now) hpersons rfl
  | linkIssued hissued => exact h.linkIssued hissued
  | password _ hrecord _ _ _ _ _ now => exact h.congr (sameLinks_put hrecord now) hpersons rfl
  | mailed hrecord hhash huser =>
      refine ⟨h.unique, fun job hjob => ?_⟩
      unfold MailService.enqueue at hjob
      split at hjob
      · exact h.addressed job hjob
      · rcases List.mem_append.mp hjob with hold | hnew
        · exact h.addressed job hold
        · rw [List.mem_singleton.mp hnew]
          exact ⟨_, hrecord, _, hhash, huser, rfl⟩

theorem Open.keepsMailed (hopen : Open env link s s') (h : Mailed env s) : Mailed env s' := by
  induction hopen with
  | refl => exact h
  | tail _ hone ih => exact hone.keepsMailed ih

/-- A request that presents no link leaves the rows of all accounts. -/
theorem Open.keepsRows (hopen : Open env none s s') {u : Uuid} {row : User}
    (hrow : s.world.db.users.get u = some row) :
    s'.world.db.users.get u = some row := by
  induction hopen with
  | refl => exact hrow
  | tail _ hone ih =>
      cases hone with
      | registered h => rwa [h.users, Table.get_put_of_ne _ _ (Table.ne_of_get_none ih h.new)]
      | sessions | linksUsed | mailed => exact ih
      | linkIssued h => rwa [Accounts.world_insertResetToken h]
      | password hlink => cases hlink

/-! ## Runs

By induction on the run: as long as nobody who manages accounts has acted, each step makes public
changes only, and the one of these that touches a row is a reset. -/

variable {app : App} {C : Type} [DecidableEq C] {first t t' : State C} {c : C} {x : Draw}
  {u : Uuid} {row : User}

/-- **Somebody who manages accounts has acted**: a request to do so has arrived in the run, its guards
    have authorized it for the user of its token, and its handler has run. Without such a request the
    statement is false. -/
def Managed (app : App) (first t : State C) : Prop :=
  ∃ (t₀ t₁ t₂ t₃ : State C) (c : C) (x x' : Draw) (request : Request) (user : User),
    Pool.Steps (exec app) first t₀ ∧ Pool.step (exec app) t₀ c x = some t₁ ∧
      Pool.Steps (exec app) t₁ t₂ ∧
    Pool.step (exec app) t₂ c x' = some t₃ ∧ Pool.Steps (exec app) t₃ t ∧
    t₀.calls c = .arrived request ∧ t₂.calls c = .admitted request (some user) ∧
    request.route.required = some [⟨.manage, .user⟩] ∧
      Authorized app x t₀.shared.world request user ⟨.manage, .user⟩

/-- **A link of the account has been presented**, and whatever mail had its token went to the address of
    the account. The link was unused, and in its time. -/
def ByLink (app : App) (first t : State C) (u : Uuid) (email : String) : Prop :=
  ∃ (t₀ t₁ : State C) (c : C) (x : Draw) (request : Request) (actor : Option User)
    (dto : ResetPasswordDto)
    (record : PasswordResetToken) (user : User),
    Pool.Steps (exec app) first t₀ ∧ Pool.step (exec app) t₀ c x = some t₁ ∧ Pool.Steps (exec app) t₁ t ∧
    t₀.calls c = .admitted request actor ∧ request.route = .resetPassword dto ∧
    Opens app.env x.o.now dto.token t₀.shared record user ∧ record.userId = u ∧
    ∀ job ∈ t₀.shared.mailQueue, app.env.hashToken job.token = app.env.hashToken dto.token →
      job.email = email

theorem Managed.steps (h : Managed app first t) (hrun : Pool.Steps (exec app) t t') :
    Managed app first t' := by
  obtain ⟨t₀, t₁, t₂, t₃, c₀, x₀, x₂, request, user, hrun₀, hstep₀, hrun₁, hstep₂, hrun₃, hrest⟩ := h
  exact ⟨t₀, t₁, t₂, t₃, c₀, x₀, x₂, request, user, hrun₀, hstep₀, hrun₁, hstep₂,
    hrun₃.trans hrun, hrest⟩

theorem Managed.step (h : Managed app first t) (hstep : Pool.step (exec app) t c x = some t') :
    Managed app first t' :=
  h.steps (.single trivial hstep)

theorem ByLink.step {email : String} (h : ByLink app first t u email)
    (hstep : Pool.step (exec app) t c x = some t') :
    ByLink app first t' u email := by
  obtain ⟨t₀, t₁, c₀, x₀, request, actor, dto, record, user, hrun₀, hstep₀, hrun₁, hrest⟩ := h
  exact ⟨t₀, t₁, c₀, x₀, request, actor, dto, record, user, hrun₀, hstep₀,
    .tail hrun₁ trivial hstep, hrest⟩

/-- A reset has no path parameter, and nothing to return. -/
theorem serve_resetPassword {s : Accounts} {request : Request} {actor : Option User}
    {dto : ResetPasswordDto}
    (hroute : request.route = .resetPassword dto) :
    (serve app x actor request s).2 = (AuthService.resetPassword app.env x.o dto s).2 := by
  unfold serve
  rw [hroute, throwIf_bind_false (by simp [Route.idParam])]
  show ((AuthService.resetPassword app.env x.o dto >>=
    fun _ => (pure .empty : AccountService Body)) s).2 = _
  cases hreset : AuthService.resetPassword app.env x.o dto s with
  | mk r s' =>
      cases r with
      | ok _ => rw [bind_ok hreset]; rfl
      | error e => rw [bind_error hreset]

/-- The account as it was, up to a password set by a link of it. -/
structure Untouched (app : App) (first t : State C) (u : Uuid) (row : User) : Prop where
  mailed : Mailed app.env t.shared
  person : ∃ row', t.shared.world.db.users.get u = some row' ∧ SamePerson row row'
  row    : t.shared.world.db.users.get u = some row ∨ ByLink app first t u row.email

/-- The row is kept, by whatever public change. -/
theorem Untouched.kept (h : Untouched app first t u row) (hstep : Pool.step (exec app) t c x = some t')
    (hmailed : Mailed app.env t'.shared) (hpersons : SamePersons t.shared.world.db t'.shared.world.db)
    (hrow : t.shared.world.db.users.get u = some row → t'.shared.world.db.users.get u = some row) :
    Untouched app first t' u row := by
  refine ⟨hmailed, ?_, h.row.imp hrow fun hlink => hlink.step hstep⟩
  obtain ⟨row', hrow', hsame⟩ := h.person
  obtain ⟨row'', hrow'', hsame'⟩ := hpersons u row' hrow'
  exact ⟨row'', hrow'', hsame.trans hsame'⟩

/-- A reset by a link of the account. The mails with its token have gone to the account. -/
theorem byLink_reset (hmailed : Mailed app.env t.shared) (hrun : Pool.Steps (exec app) first t)
    (hstep : Pool.step (exec app) t c x = some t') {request : Request} {actor : Option User}
    {dto : ResetPasswordDto}
    (hcall : t.calls c = .admitted request actor) (hroute : request.route = .resetPassword dto)
    {record : PasswordResetToken}
    {user row' : User} (hopens : Opens app.env x.o.now dto.token t.shared record user)
    (hu : record.userId = u)
    (hrow' : t.shared.world.db.users.get u = some row') (hperson : SamePerson row row') :
      ByLink app first t' u row.email := by
  refine ⟨t, t', c, x, request, actor, dto, record, user, hrun, hstep, .refl, hcall,
    hroute, hopens, hu, ?_⟩
  intro job hjob hhash
  obtain ⟨r, hr, owner, hr_hash, howner, hemail⟩ := hmailed.addressed job hjob
  obtain rfl : r = record :=
    hmailed.unique r hr record hopens.stored (by rw [hr_hash, hhash, hopens.hash])
  rw [hu, hrow'] at howner
  cases howner
  rw [← hemail, hperson.email]

/-- A reset changes the account of its link. -/
theorem Untouched.reset (h : Untouched app first t u row) (hrun : Pool.Steps (exec app) first t)
    (hstep : Pool.step (exec app) t c x = some t') {request : Request} {actor : Option User}
    {dto : ResetPasswordDto}
    (hcall : t.calls c = .admitted request actor) (hroute : request.route = .resetPassword dto)
    (hshared : t'.shared = (AuthService.resetPassword app.env x.o dto t.shared).2) :
      Untouched app first t' u row := by
  have hopen : Open app.env (some dto.token) t.shared t'.shared := by
    rw [hshared]
    exact along_resetPassword dto t.shared
  have hmailed := hopen.keepsMailed h.mailed
  rcases resetPassword_cases dto with hsame | ⟨record, user, hopens, hwritten⟩
  · refine h.kept hstep hmailed hopen.publicChange.users fun hrow => ?_
    rwa [hshared, hsame]
  · by_cases hu : record.userId = u
    · obtain ⟨row', hrow', hperson⟩ := h.person
      obtain ⟨row'', hrow'', hperson'⟩ := hopen.publicChange.users u row' hrow'
      refine ⟨hmailed, ⟨row'', hrow'', hperson.trans hperson'⟩, .inr ?_⟩
      exact byLink_reset h.mailed hrun hstep hcall hroute hopens hu hrow' hperson
    · refine h.kept hstep hmailed hopen.publicChange.users fun hrow => ?_
      have hid : user.id = record.userId := Table.get_key hopens.owner
      rw [hshared, hwritten]
      show (t.shared.world.db.users.put (ResetPassword.withPassword _ _ user)).get u = some row
      rwa [Table.get_put_of_ne]
      show u ≠ user.id
      rw [hid]
      exact fun heq => hu heq.symm

/-- A step that manages no account: it leaves the accounts, the links and the mails, or makes the writes
    of a request without a permission. -/
theorem step_unmanaged (hcasl : app.casl.Unconditional) (hfirst : ∀ c, (first.calls c).begins)
    (hrun : Pool.Steps (exec app) first t) (hstep : Pool.step (exec app) t c x = some t') :
    Managed app first t' ∨
    (t'.shared.world.db.users = t.shared.world.db.users ∧ t'.shared.resetTokens = t.shared.resetTokens ∧
      t'.shared.mailQueue = t.shared.mailQueue) ∨
    ∃ request actor, t.calls c = .admitted request actor ∧
      (serve app x actor request t.shared).2 = t'.shared ∧
      request.route.required = none ∧ Open app.env request.route.presentedLink t.shared t'.shared := by
  rcases step_effect hstep with hsame |
    ⟨request, actor, hcall, hserve, ⟨hnone, hopen⟩ | ⟨subject, hrequired, hconfined⟩⟩
  · right; left
    have hothers := hsame.others
    refine ⟨hsame.within.users (by decide), ?_, ?_⟩
    · rw [hothers]
    · rw [hothers]
  · exact .inr (.inr ⟨request, actor, hcall, hserve, hnone, hopen⟩)
  · by_cases hsubject : subject = .user
    · subst hsubject
      left
      obtain ⟨user, t₀, x₀, t₁, rfl, hrun₀, hstep₀, hrun₁, harrived, hauthorized⟩ :=
        admitted_authorized hcasl hfirst hrun hrequired hcall
      exact ⟨t₀, t₁, t, t', c, x₀, x, request, user, hrun₀, hstep₀, hrun₁, hstep, .refl,
        harrived, hcall, hrequired,
        hauthorized⟩
    · right; left
      refine ⟨?_, (hconfined.tokens hsubject).2, hconfined.mailQueue⟩
      apply hconfined.within.users
      cases subject with
      | user => exact absurd rfl hsubject
      | _ => decide

/-- **One step** keeps it so, unless it manages accounts. -/
theorem Untouched.step (hcasl : app.casl.Unconditional) (hfirst : ∀ c, (first.calls c).begins)
    (hrun : Pool.Steps (exec app) first t) (h : Untouched app first t u row)
    (hstep : Pool.step (exec app) t c x = some t') : Managed app first t' ∨
      Untouched app first t' u row := by
  rcases step_unmanaged hcasl hfirst hrun hstep with hmanaged | ⟨husers, hlinks, hmail⟩ |
    ⟨request, actor, hcall, hserve, -, hopen⟩
  · exact .inl hmanaged
  · right
    refine h.kept hstep ?_ (samePersons_of_eq husers) fun hrow => by rwa [husers]
    apply h.mailed.congr _ (samePersons_of_eq husers) hmail
    rw [hlinks]
    exact .rfl
  · right
    cases hroute : request.route with
    | resetPassword dto =>
        refine h.reset hrun hstep hcall hroute ?_
        rw [← hserve, serve_resetPassword hroute]
    | _ =>
        rw [hroute] at hopen
        refine h.kept hstep (hopen.keepsMailed h.mailed) hopen.publicChange.users fun hrow => ?_
        exact Open.keepsRows hopen hrow

theorem managed_or_untouched (hcasl : app.casl.Unconditional) (hfirst : ∀ c, (first.calls c).begins)
    (hmailed : Mailed app.env first.shared) (hrow : first.shared.world.db.users.get u = some row)
    (hrun : Pool.Steps (exec app) first t) : Managed app first t ∨ Untouched app first t u row := by
  induction hrun with
  | refl => exact .inr ⟨hmailed, ⟨row, hrow, rfl⟩, .inl hrow⟩
  | tail hrun _ hstep ih =>
      rcases ih with hmanaged | huntouched
      · exact .inl (hmanaged.step hstep)
      · exact huntouched.step hcasl hfirst hrun hstep

/-- **An account is changed by who manages accounts, or by its own mail.** In every run of requests and
    cache expiries, the row of an account (its password with it) is as it was; or a request of the run
    to manage accounts was authorized and handled; or a reset link of the account was presented, unused
    and in its time, and every mail with the token of that link had gone to the address of the
    account. -/
theorem takeover_needs_mailbox (hcasl : app.casl.Unconditional) (hfirst : ∀ c, (first.calls c).begins)
    (hmailed : Mailed app.env first.shared) (hrow : first.shared.world.db.users.get u = some row)
    (hrun : Pool.Steps (exec app) first t) :
    t.shared.world.db.users.get u = some row ∨ Managed app first t ∨ ByLink app first t u row.email := by
  rcases managed_or_untouched hcasl hfirst hmailed hrow hrun with hmanaged | huntouched
  · exact .inr (.inl hmanaged)
  · exact huntouched.row.imp_right .inr

/-- A fresh deployment has sent no mail. -/
theorem mailed_arriving {n : Nat} (requests : List Request) :
    Mailed toyApp.env (arriving n requests).shared := by
  constructor
  · intro r hr
    cases hr
  · intro job hjob
    cases hjob

theorem get_seededAdmin {n : Nat} (requests : List Request) :
    (arriving n requests).shared.world.db.users.get (seedId 8) = some seededAdmin := by
  have hmem : seededAdmin ∈ freshAccounts.world.db.users.rows := by simp [rows_seededAdmin]
  exact Table.get_of_mem hmem

/-- The administrator has forgotten the password. -/
def forgotten : List Request :=
  [.plain none (.forgotPassword ⟨"a@b.co"⟩), .plain none (.resetPassword ⟨"token", "new"⟩)]

theorem takeover_needs_mailbox_forgotten : ∃ t : State (Fin 2),
    t.shared.world.db.users.get (seedId 8) = some { seededAdmin with
      passwordHash := "new", updatedAt := 4 } ∧
    (Managed toyApp (arriving 2 forgotten) t ∨
      ByLink toyApp (arriving 2 forgotten) t (seedId 8) "a@b.co") := by
  have hreplay : (Pool.replay (exec toyApp) Pool.anyStep (arriving 2 forgotten)
      [(0, .at 1 uuidA), (0, .at 2 uuidA), (1, .at 3 uuidB), (1, .at 4 uuidB)]).any (fun t =>
        decide (t.shared.world.db.users.get (seedId 8) = some { seededAdmin with
          passwordHash := "new", updatedAt := 4 })) =
      true := by decide +kernel
  obtain ⟨t, hrun, hnew⟩ := Pool.exists_run_of_replay hreplay
  replace hnew : t.shared.world.db.users.get (seedId 8) = some { seededAdmin with
    passwordHash := "new", updatedAt := 4 } :=
    of_decide_eq_true hnew
  have hchanged : t.shared.world.db.users.get (seedId 8) ≠ some seededAdmin := by
    rw [hnew]
    decide
  refine ⟨t, hnew, Or.resolve_left ?_ hchanged⟩
  exact takeover_needs_mailbox ruleList_unconditional (begins_arriving forgotten)
    (mailed_arriving forgotten)
    (get_seededAdmin forgotten) hrun

/-! ## Logging in

A login goes by the address. Since no two accounts in use have one address, it is decided by the row of
its sole holder, and that row is the one of the theorem above. -/

/-- No other account in use has the address, in any spelling. -/
def SoleHolder (env : Env) (db : Rbac) (u : Uuid) (email : String) : Prop :=
  ∀ v row, db.users.get v = some row → row.deletedAt = none →
    env.citextLower row.email = env.citextLower email → v = u

/-- The unique index keeps an address in use from a second account. -/
theorem OpenWrite.soleHolder {email : String} (hwrite : OpenWrite env link s s')
    (h : SoleHolder env s.world.db u email)
    (hrow : s.world.db.users.get u = some row) (hlive : row.deletedAt = none)
    (hemail : env.citextLower row.email = env.citextLower email) :
      SoleHolder env s'.world.db u email := by
  cases hwrite with
  | @registered new w' hregistered =>
      intro v other hother hother_live hsame
      replace hother : w'.db.users.get v = some other := hother
      rw [hregistered.users, Table.get_put] at hother
      split at hother
      · cases hother
        have hfree := List.all_eq_true.mp hregistered.free row (Table.get_mem hrow)
        simp [hsame, hemail, hlive] at hfree
      · exact h v other hother hother_live hsame
  | sessions | linksUsed | mailed => exact h
  | linkIssued hissued => rwa [Accounts.world_insertResetToken hissued]
  | @password record user token _ _ _ _ hget _ passwordHash now =>
      intro v other hother hother_live hsame
      have hid : user.id = record.userId := Table.get_key hget
      replace hother : (s.world.db.users.put (ResetPassword.withPassword passwordHash now user)).get v =
        some other := hother
      rw [Table.get_put] at hother
      split at hother
      · next hv =>
        cases hother
        rw [show v = record.userId from hv.trans hid]
        exact h _ user hget hother_live hsame
      · exact h v other hother hother_live hsame

theorem Open.soleHolder (hopen : Open env link s s') (h : SoleHolder env s.world.db u row.email)
    (hrow : s.world.db.users.get u = some row) (hlive : row.deletedAt = none) :
      SoleHolder env s'.world.db u row.email := by
  induction hopen with
  | refl => exact h
  | tail hopen' hone ih =>
      obtain ⟨row', hrow', hsame⟩ := (Open.publicChange hopen').users u row hrow
      refine hone.soleHolder ih hrow' ?_ ?_
      · rw [hsame]
        exact hlive
      · rw [hsame.email]

/-- The address finds the account of its sole holder. -/
theorem findByEmail_soleHolder {db : Rbac} {email : String} (h : SoleHolder env db u row.email)
    (hrow : db.users.get u = some row) (hlive : row.deletedAt = none)
    (hemail : env.citextLower email = env.citextLower row.email) :
      db.findByEmail env email = some row := by
  unfold Rbac.findByEmail
  cases hfound : db.users.find? fun u => env.citextLower u.email = env.citextLower email &&
    u.deletedAt.isNone with
  | none =>
      have hnone := List.find?_eq_none.mp hfound row (Table.get_mem hrow)
      simp [hemail, hlive] at hnone
  | some found =>
      obtain ⟨hmem, hmatch⟩ := Table.find?_some hfound
      simp only [Bool.and_eq_true, decide_eq_true_eq, Option.isNone_iff_eq_none] at hmatch
      have hget : db.users.get found.id = some found := Table.get_of_mem hmem
      have hid : found.id = u := h _ found hget hmatch.2 (hmatch.1.trans hemail)
      rw [hid, hrow] at hget
      exact hget.symm

/-- What a login for the account of a row comes to: the password decides, and then the status. An
    account that is not active is refused with the right password, too. -/
def loginTo (env : Env) (o : Choice) (row : User) (password : String) (metadata : SessionMetadata) :
    AccountService RefreshToken :=
  if env.verifyPassword row.passwordHash password then
    if row.status = .active then AuthService.createSession env o none row metadata
    else throw (.http (.unauthorized "Account is not active"))
  else throw AuthService.invalidCredentials

theorem loginTo_active {o : Choice} {password : String} {metadata : SessionMetadata}
    (hactive : row.status = .active) :
    loginTo env o row password metadata s =
      if env.verifyPassword row.passwordHash password then
        AuthService.createSession env o none row metadata s
      else (.error AuthService.invalidCredentials, s) := by
  unfold loginTo
  rw [if_pos hactive]
  split <;> rfl

/-- A login with the address of an account is one for that account. -/
theorem login_soleHolder {o : Choice} {dto : LoginDto} {metadata : SessionMetadata}
    (h : SoleHolder env s.world.db u row.email) (hrow : s.world.db.users.get u = some row)
    (hlive : row.deletedAt = none)
    (hemail : env.citextLower (normalizeEmail env dto.email) = env.citextLower row.email) :
    AuthService.login env o dto metadata s = loginTo env o row dto.password metadata s := by
  unfold AuthService.login loginTo
  rw [bind_ok (onWorld_eq (UsersService.findByEmail_run ..)), findByEmail_soleHolder h hrow hlive hemail,
    orThrow_bind_some]
  by_cases hverify : env.verifyPassword row.passwordHash dto.password = true
  · rw [if_pos hverify, throwIf_bind_false (by simp [hverify])]
    by_cases hactive : row.status = .active
    · rw [if_pos hactive, throwIf_bind_false (by simp [hactive])]
    · rw [if_neg hactive, throwIf_bind_true hactive]
      rfl
  · rw [if_neg hverify, throwIf_bind_true (by simpa using hverify)]
    rfl

theorem managed_or_soleHolder (hcasl : app.casl.Unconditional) (hfirst : ∀ c, (first.calls c).begins)
    (hrow : first.shared.world.db.users.get u = some row) (hlive : row.deletedAt = none)
    (hholder : SoleHolder app.env first.shared.world.db u row.email)
    (hrun : Pool.Steps (exec app) first t) :
    Managed app first t ∨
      ((∃ row', t.shared.world.db.users.get u = some row' ∧ SamePerson row row') ∧
        SoleHolder app.env t.shared.world.db u row.email) := by
  induction hrun with
  | refl => exact .inr ⟨⟨row, hrow, rfl⟩, hholder⟩
  | tail hrun _ hstep ih =>
      rcases ih with hmanaged | ⟨⟨row', hrow', hsame⟩, hsole⟩
      · exact .inl (hmanaged.step hstep)
      · rcases step_unmanaged hcasl hfirst hrun hstep with hmanaged | ⟨husers, -, -⟩ |
          ⟨request, actor, -, -, -, hopen⟩
        · exact .inl hmanaged
        · right
          unfold SoleHolder
          rw [husers]
          exact ⟨⟨row', hrow', hsame⟩, hsole⟩
        · right
          obtain ⟨row'', hrow'', hsame'⟩ := hopen.publicChange.users u row' hrow'
          refine ⟨⟨row'', hrow'', hsame.trans hsame'⟩, ?_⟩
          rw [← hsame.email] at hsole ⊢
          exact hopen.soleHolder hsole hrow' (by rw [hsame]; exact hlive)

/-- **A login is decided by the account as it was.** In every run of requests and cache expiries, a
    login with the address of an account in use, in any spelling, is one for that account as it was at
    the start (`loginTo`): without the password it had it is refused, with it it is refused unless the
    account was active, and nobody else logs in by that address. Otherwise a request of the run to
    manage accounts was authorized and handled, or a link of the account was presented. -/
theorem credentials_decide_login (hcasl : app.casl.Unconditional) (hfirst : ∀ c, (first.calls c).begins)
    (hmailed : Mailed app.env first.shared) (hrow : first.shared.world.db.users.get u = some row)
    (hlive : row.deletedAt = none)
    (hholder : SoleHolder app.env first.shared.world.db u row.email)
    (hrun : Pool.Steps (exec app) first t) :
    (∀ (o : Choice) (dto : LoginDto) (metadata : SessionMetadata),
      app.env.citextLower (normalizeEmail app.env dto.email) = app.env.citextLower row.email →
      AuthService.login app.env o dto metadata t.shared =
        loginTo app.env o row dto.password metadata t.shared) ∨
    Managed app first t ∨ ByLink app first t u row.email := by
  rcases managed_or_soleHolder hcasl hfirst hrow hlive hholder hrun with hmanaged | ⟨-, hsole⟩
  · exact .inr (.inl hmanaged)
  · rcases managed_or_untouched hcasl hfirst hmailed hrow hrun with hmanaged | huntouched
    · exact .inr (.inl hmanaged)
    · rcases huntouched.row with hrow' | hlink
      · left
        intro o dto metadata hemail
        exact login_soleHolder hsole hrow' hlive hemail
      · exact .inr (.inr hlink)

theorem soleHolder_arriving {n : Nat} (requests : List Request) :
    SoleHolder toyApp.env (arriving n requests).shared.world.db (seedId 8) seededAdmin.email := by
  intro v other hget _ _
  have hmem : other ∈ freshAccounts.world.db.users.rows := Table.get_mem hget
  rw [rows_seededAdmin, List.mem_singleton] at hmem
  subst hmem
  exact (Table.get_key hget).symm

def newcomer : List Request := [.plain none (.register ⟨"c@d.co", "new", none, none⟩)]

/-- Somebody has registered: the administrator logs in as before. -/
theorem credentials_decide_login_newcomer : ∃ t :
    State (Fin 1), t.shared.world.db.users.rows.length = 2 ∧
    ((∀ (o : Choice) (metadata : SessionMetadata),
      AuthService.login toyEnv o ⟨" A@B.CO", "hash"⟩ metadata t.shared =
        AuthService.createSession toyEnv o none seededAdmin metadata t.shared) ∨
      Managed toyApp (arriving 1 newcomer) t ∨
        ByLink toyApp (arriving 1 newcomer) t (seedId 8) "a@b.co") := by
  have hreplay : (Pool.replay (exec toyApp) Pool.anyStep (arriving 1 newcomer)
    [(0, .at 1 uuidA), (0, .at 2 uuidA)]).any
      (fun t => decide (t.shared.world.db.users.rows.length = 2)) = true := by decide +kernel
  obtain ⟨t, hrun, hlength⟩ := Pool.exists_run_of_replay hreplay
  refine ⟨t, of_decide_eq_true hlength, ?_⟩
  refine (credentials_decide_login ruleList_unconditional (begins_arriving newcomer)
    (mailed_arriving newcomer)
    (get_seededAdmin newcomer) rfl (soleHolder_arriving newcomer) hrun).imp_left
      fun hlogin o metadata => ?_
  exact hlogin o ⟨" A@B.CO", "hash"⟩ metadata (by decide +kernel)

end Http

end NestApp
