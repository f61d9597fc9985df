import NestApp.Auth.HalfDone

/-!
# `Auth.Enumeration` — what `login` and `forgotPassword` tell about the registered addresses

A sequence of login and reset requests is run from two states, which may hold other users, other hashes
and other statuses. As long as no login presents a correct password, each request has one answer,
whatever the state: a login throws 401 "Invalid credentials", a reset request returns. So the two
sequences of answers are the same (`no_account_enumeration`).

The two runs do not stay alike: a reset request uses up and inserts links and queues a mail for a
registered address only. None of that is read by a later answer, since neither request writes `users`.

What is compared are answers, not times. The source runs a verification against a dummy hash for an
unknown address, so that both answers take about as long; that is outside this model.
-/

namespace NestApp

open Sql Prog AuthService

/-! ## Runs

A run is a list of requests, each with what is generated while it is served. The answer of the mail
queue is part of that, as it differs between a known and an unknown address. -/

inductive CredentialRequest where
  | login (dto : LoginDto) (metadata : SessionMetadata)
  | forgotPassword (dto : ForgotPasswordDto) (metadata : SessionMetadata)

/-- A request, what is generated while it is served, and whether the mail queue takes its job. -/
structure Attempt where
  request      : CredentialRequest
  o            : Choice
  queueAccepts : Bool

/-- The call of a request; what a login returns is left out. -/
def Attempt.call (env : Env) (driver : MailDriver) (a : Attempt) : AccountService Unit :=
  match a.request with
  | .login dto metadata => do
      let _ ← login env a.o dto metadata
      return
  | .forgotPassword dto metadata => forgotPassword env driver a.o a.queueAccepts none dto metadata

/-- What the caller sees, request by request. -/
def observe (env : Env) (driver : MailDriver) : Accounts → List Attempt → List (Except Failure Unit)
  | _, []     => []
  | s, a :: l => (a.call env driver s).1 :: observe env driver (a.call env driver s).2 l

/-- The login does not present the password of the account with its address. -/
def Attempt.Wrong (env : Env) (w : World) (a : Attempt) : Prop :=
  ∀ dto metadata user, a.request = .login dto metadata →
    w.db.findByEmail env (normalizeEmail env dto.email) = some user →
      env.verifyPassword user.passwordHash dto.password = false

/-- The database takes the row of a new link: what is generated for it is not in use, and `request.ip`
    is an address, so it fits its column. -/
def Attempt.Works (env : Env) (s : Accounts) (a : Attempt) : Prop :=
  match a.request with
  | .login ..                  => True
  | .forgotPassword _ metadata => ¬ LinkFails env a.o none metadata s

/-- The database works throughout the run. -/
def DatabaseWorks (env : Env) (driver : MailDriver) : Accounts → List Attempt → Prop
  | _, []     => True
  | s, a :: l => a.Works env s ∧ DatabaseWorks env driver (a.call env driver s).2 l

/-- The one answer to a request. -/
def CredentialRequest.answer : CredentialRequest → Except Failure Unit
  | .login ..          => .error invalidCredentials
  | .forgotPassword .. => .ok ()

variable {env : Env} {driver : MailDriver} {s : Accounts} {a : Attempt} {dto : LoginDto}
  {metadata : SessionMetadata}

/-! ## One request

The answer of each request is computed once, under the assumption that no password is right. It
mentions no table, which is the whole argument. -/

/-- A login with a wrong password: unknown and known addresses are answered alike, before the status is
    looked at. -/
theorem login_refused (o : Choice) (metadata : SessionMetadata)
    (h : ∀ user, s.world.db.findByEmail env (normalizeEmail env dto.email) = some user →
      env.verifyPassword user.passwordHash dto.password = false) :
    login env o dto metadata s = (.error invalidCredentials, s) := by
  rw [login, bind_ok (onWorld_eq (UsersService.findByEmail_run ..))]
  cases hfound : s.world.db.findByEmail env (normalizeEmail env dto.email) with
  | none => rw [orThrow_bind_none]
  | some user => rw [orThrow_bind_some, throwIf_bind_true (h user hfound)]

/-- A reset request returns and leaves the users alone. -/
theorem forgotPassword_ok {dto : ForgotPasswordDto} (o : Choice) (queueAccepts : Bool)
    (h : ¬ LinkFails env o none metadata s) :
    ∃ s', forgotPassword env driver o queueAccepts none dto metadata s = (.ok (), s') ∧
      s'.world = s.world := by
  cases howner : linkOwner env dto s.world with
  | none =>
      have hsilent : forgotPassword env driver o queueAccepts none dto metadata s = (.ok (), s) :=
        forgotPassword_silent driver o queueAccepts metadata (by simp) howner
      exact ⟨s, hsilent, rfl⟩
  | some user =>
      have hissues : forgotPassword env driver o queueAccepts none dto metadata s =
          issueLink env driver o queueAccepts none user metadata s :=
        forgotPassword_issues driver o queueAccepts metadata (by simp) howner
      obtain ⟨s', hdone, hworld⟩ :=
        issueLink_done driver queueAccepts metadata (by simp) (linkOwner_isSome howner) h
      exact ⟨s', hissues.trans hdone, hworld⟩

/-- **One request has one answer**, and the users stay. The answer is a function of the kind of the
    request alone. -/
theorem Attempt.answered (driver : MailDriver) (hwrong : a.Wrong env s.world)
    (hworks : a.Works env s) :
    ∃ s', a.call env driver s = (a.request.answer, s') ∧ s'.world = s.world := by
  unfold Attempt.call
  unfold Attempt.Works at hworks
  cases hrequest : a.request with
  | login dto metadata =>
      have hrefused := login_refused a.o metadata fun user => hwrong dto metadata user hrequest
      exact ⟨s, bind_error hrefused, rfl⟩
  | forgotPassword dto metadata =>
      rw [hrequest] at hworks
      exact forgotPassword_ok a.o a.queueAccepts hworks

/-! ## The sequence

By induction over the list: the first answer does not depend on the state, and the users stay, so the
assumption carries over to the rest. -/

/-- The answers of a run do not depend on the state. -/
theorem observe_eq_answers (l : List Attempt) (hwrong : ∀ a ∈ l, a.Wrong env s.world)
    (hworks : DatabaseWorks env driver s l) : observe env driver s l = l.map fun a =>
      a.request.answer := by
  induction l generalizing s with
  | nil => rfl
  | cons a l ih =>
      obtain ⟨hfree, hrest⟩ := hworks
      obtain ⟨s', hcall, hworld⟩ := Attempt.answered driver (hwrong a List.mem_cons_self) hfree
      rw [hcall] at hrest
      have hwrong' : ∀ b ∈ l, b.Wrong env s'.world := by
        intro b hb
        rw [hworld]
        exact hwrong b (List.mem_cons_of_mem _ hb)
      rw [observe, hcall, ih hwrong' hrest, List.map_cons]

/-- **No account enumeration**: two states, whatever their users, answer a sequence of login and reset
    requests alike, if in neither a login presents a correct password. What is generated during the two
    runs, and which jobs the mail queue takes, need not agree. -/
theorem no_account_enumeration (driver : MailDriver) (s₁ s₂ : Accounts) (l₁ l₂ : List Attempt)
    (hsame : l₁.map Attempt.request = l₂.map Attempt.request)
    (hwrong₁ : ∀ a ∈ l₁, a.Wrong env s₁.world) (hwrong₂ : ∀ a ∈ l₂, a.Wrong env s₂.world)
    (hworks₁ : DatabaseWorks env driver s₁ l₁) (hworks₂ : DatabaseWorks env driver s₂ l₂) :
    observe env driver s₁ l₁ = observe env driver s₂ l₂ := by
  calc observe env driver s₁ l₁
      = (l₁.map Attempt.request).map CredentialRequest.answer := by
          rw [observe_eq_answers l₁ hwrong₁ hworks₁, List.map_map]
          rfl
    _ = (l₂.map Attempt.request).map CredentialRequest.answer := by rw [hsame]
    _ = observe env driver s₂ l₂ := by
          rw [observe_eq_answers l₂ hwrong₂ hworks₂, List.map_map]
          rfl

/-! ## Probing one address

What an attacker would try: a wrong password, a reset request and the wrong password again. -/

instance (a : Attempt) : Decidable (a.Works env s) := by
  unfold Attempt.Works LinkFails
  split <;> infer_instance

/-- A deployment without users. -/
def noUsers : Accounts := ⟨⟨.empty, fun _ => none, []⟩, .empty, .empty, []⟩

/-- The same, with one user. -/
def onlyAlice : Accounts :=
  { noUsers with world := { noUsers.world with db := Rbac.empty.putUser alice } }

/-- A wrong password, a reset request and the wrong password again. -/
def probes (o : Choice) (queueAccepts : Bool) : List Attempt :=
  [⟨.login ⟨"a@b.co", "guess"⟩ plainMetadata, o, queueAccepts⟩,
    ⟨.forgotPassword ⟨"a@b.co"⟩ plainMetadata, o, queueAccepts⟩,
    ⟨.login ⟨"a@b.co", "guess"⟩ plainMetadata, o, queueAccepts⟩]

/-- With a mail queue that takes the job for the user, and one that refuses it. -/
theorem no_account_enumeration_probes :
    observe toyEnv .smtp noUsers (probes (.at 1 uuidB "link" uuidA) true) =
      observe toyEnv .smtp onlyAlice (probes (.at 2 uuidC "link'" uuidA) false) := by
  have hwrong : ∀ s : Accounts,
    s.world.db.users.rows.all (fun u => !toyEnv.verifyPassword u.passwordHash "guess") = true →
      ∀ o queueAccepts, ∀ a ∈ probes o queueAccepts, a.Wrong toyEnv s.world := by
    intro s hall o queueAccepts a ha dto metadata user hrequest hfound
    have hguess : dto.password = "guess" := by
      simp only [probes, List.mem_cons, List.not_mem_nil, or_false] at ha
      rcases ha with rfl | rfl | rfl <;> cases hrequest <;> rfl
    rw [hguess]
    simpa using List.all_eq_true.mp hall user (Table.find?_some hfound).1
  refine no_account_enumeration .smtp noUsers onlyAlice _ _ rfl (hwrong _ (by decide +kernel) _ _)
    (hwrong _ (by decide +kernel) _ _) ?_ ?_
  · exact ⟨by decide +kernel, by decide +kernel, by decide +kernel, trivial⟩
  · exact ⟨by decide +kernel, by decide +kernel, by decide +kernel, trivial⟩

end NestApp
