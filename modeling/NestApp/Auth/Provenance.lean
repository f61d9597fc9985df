import NestApp.Auth.Family

/-!
# `Auth.Provenance` — every session goes back to a password

`Earned` derives a refresh token: it was handed out to a call that opened a session (`Begins`: its own
password check of the account passed, or it has inserted the account), or to a call that presented the
value of a live token that was earned itself. `sessions_are_earned`: in every run the committed tokens
are earned, each along its family and for the account whose token it is. Nothing a call reads from the
others in between can hand it a session of another account.
-/

namespace NestApp

open Sql

section

variable {C : Type}

/-- In state `t` call `c` finds the account of the address given, and the password given is that of the
    account. -/
structure Authenticates (env : Env) (t : State C) (c : C) (dto : LoginDto) (user : User) : Prop where
  request  : ∃ metadata, t.calls c = .session (.login dto metadata)
  found    : t.shared.findByEmail env (normalizeEmail env dto.email) = some user
  password : env.verifyPassword user.passwordHash dto.password = true
  active   : user.status = .active

/-- Between `t` and `u` call `c` inserts the account, with the password given. -/
structure SignsUp (env : Env) (t u : State C) (c : C) (dto : RegisterDto) (user : User) : Prop where
  request : ∃ metadata o, t.calls c = .session (.createUser dto metadata) ∧
    user = Session.newUser env o dto
  new     : t.shared.users.table.get user.id = none
  row     : u.shared.users.table.get user.id = some user

/-- The step of call `c` that a session of the account begins with. -/
def Begins (env : Env) (t u : State C) (c : C) (user : User) : Prop :=
  (∃ dto, Authenticates env t c dto user) ∨ ∃ dto, SignsUp env t u c dto user

/-- The account a call has authenticated or inserted. -/
def Call.sessionUser : Call → Option User
  | .session (.createSession user _) | .session (.done user _) => some user
  | _                                                         => none

/-- **Where a token comes from**, in state `t`: the calls that handed out the tokens of its family, from
    the first one. A derivation is finite, so every session goes back to a call that checked a password
    or made the account. -/
inductive Earned (env : Env) (t : State C) : RefreshToken → Prop where
  | opened {c : C} {user : User} {row r : RefreshToken}
      (call : t.calls c = .session (.done user row)) (id : row.id = r.id)
      (familyId : row.familyId = r.familyId) (userId : user.id = r.userId) :
      Earned env t r
  | rotated {c : C} {token : String} {user : User} {stored next r : RefreshToken}
      (call : t.calls c = .refresh (.done token (some stored) (.ok user next))) (id : next.id = r.id)
      (presented : stored.tokenHash = env.hashToken token) (live : stored.Live)
      (familyId : stored.familyId = r.familyId) (userId : stored.userId = r.userId)
      (earlier : Earned env t stored) :
      Earned env t r

variable {env : Env} {s t u : State C} {c : C} {a : Act} {r r' : RefreshToken} {user : User}

/-- Versions of a token are earned together. -/
theorem Earned.version (h : Earned env t r) (hid : r'.id = r.id) (hfamily : r'.familyId = r.familyId)
    (huser : r'.userId = r.userId) : Earned env t r' := by
  cases h with
  | opened call id familyId userId =>
      exact .opened call (id.trans hid.symm) (familyId.trans hfamily.symm) (userId.trans huser.symm)
  | rotated call id presented live familyId userId earlier =>
      exact .rotated call (id.trans hid.symm) presented live (familyId.trans hfamily.symm)
        (userId.trans huser.symm) earlier

variable [DecidableEq C]

/-- The calls of a derivation have returned, so they stay. -/
theorem Earned.step (h : Earned env t r) (hst : Pool.step (exec env) t c a = some u) :
    Earned env u r := by
  have hrun : Pool.Steps (exec env) t u := .single trivial hst
  induction h with
  | @opened d _ _ _ call id familyId userId =>
      have hstays := finished_stays hrun (c := d) (by rw [call]; rfl)
      exact .opened (hstays.trans call) id familyId userId
  | @rotated d _ _ _ _ _ call id presented live familyId userId _ ih =>
      have hstays := finished_stays hrun (c := d) (by rw [call]; rfl)
      exact .rotated (hstays.trans call) id presented live familyId userId ih

/-! ## Steps

A token that is handed out in this step is earned by what its call knew before: a session by the
account it had authenticated or inserted, a rotation by the token it was presented, which was live and
so was earned. -/

/-- **One step**: the tokens committed stay earned, and the one handed out is. -/
theorem step_earned (hok : CallOk env c t.shared (t.calls c)) (hI : ∀ r ∈ t.tokens, Earned env t r)
    (hst : Pool.step (exec env) t c a = some u) : ∀ r ∈ u.tokens, Earned env u r := by
  obtain ⟨db', call', hexec, heq⟩ := Pool.step_cases hst
  have hcall : u.calls c = call' := by rw [heq]; simp
  have hshared : u.shared = db' := by rw [heq]
  intro r' hr'
  rw [State.tokens, hshared] at hr'
  have hget := Table.get_of_mem hr'
  have htokens := exec_tokens hexec hok
  generalize t.calls c = call at htokens
  cases htokens with
  | revoked rows _ =>
      obtain ⟨r, hr, hrev⟩ := rows.get_new hget
      have hadv := hrev.advanced
      exact ((hI r (Table.get_mem hr)).step hst).version hadv.id hadv.familyId hadv.userId
  | opened user metadata row userId live last newFamily newId newHash table hashIndex =>
      rw [table, Table.rows_put_new newId, List.mem_append, List.mem_singleton] at hr'
      rcases hr' with hr' | rfl
      · exact (hI r' hr').step hst
      · exact .opened hcall rfl rfl userId.symm
  | rotated p user next now held live isNext table hashIndex =>
      have hstored : Earned env u p.stored := (hI p.stored (Table.get_mem held.1.1)).step hst
      -- the presented token, the next one, and the others
      rw [table, Table.get_put, Table.get_put] at hget
      split at hget
      · obtain rfl := Option.some.inj hget
        exact hstored.version rfl rfl rfl
      · split at hget
        · obtain rfl := Option.some.inj hget
          exact .rotated hcall rfl held.2 live isNext.familyId.symm isNext.userId.symm hstored
        · exact (hI r' (Table.get_mem hget)).step hst

/-- A call learns the account of its session in the step that checks the password or inserts the
    account. -/
theorem step_sessionUser (hst : Pool.step (exec env) t c a = some u)
    (h : (u.calls c).sessionUser = some user) :
    (t.calls c).sessionUser = some user ∨ Begins env t u c user := by
  obtain ⟨db', call', hexec, rfl⟩ := Pool.step_cases hst
  simp only [Function.update_self] at h
  rcases exec_cases hexec with ⟨-, -, -, rfl⟩ | ⟨o, pc, pc', -, hpc, rfl, hs⟩ |
    ⟨o, pc, pc', -, -, rfl, -⟩ |
    ⟨o, pc, pc', -, -, rfl, -⟩ | ⟨o, pc, pc', -, -, rfl, -⟩ | ⟨o, pc, pc', -, -, rfl, -⟩ |
    ⟨o, pc, pc', -, -, rfl, -⟩
  case inr.inl =>
    cases pc with
    | login dto metadata =>
        simp only [Session.step] at hs
        split at hs
        · cases hs
          cases h
        · next found hfound =>
          split at hs
          · cases hs
            cases h
          · next hpassword =>
            split at hs
            · cases hs
              cases h
            · next hactive =>
              cases hs
              obtain rfl : found = user := Option.some.inj h
              exact .inr (.inl ⟨dto, ⟨metadata, hpc⟩, hfound, by
                simpa using hpassword, not_not.mp hactive⟩)
    | register dto metadata =>
        simp only [Session.step] at hs
        split at hs <;> (cases hs; cases h)
    | createUser dto metadata =>
        simp only [Session.step] at hs
        split at hs
        · -- the address is taken
          cases hs
          cases h
        · obtain ⟨⟨st, ws⟩, hins, hres⟩ := Option.map_eq_some_iff.mp hs
          obtain ⟨hnew, -, rfl, rfl⟩ := Store.insert_cases hins
          cases hres
          obtain rfl := Option.some.inj h
          refine .inr (.inr ⟨dto, ⟨metadata, o, hpc, rfl⟩, hnew, ?_⟩)
          show (((t.shared.users.lock c o.id).commit c [.put (Session.newUser env o dto)]).table).get _ =
            _
          rw [Store.commit_table, Table.get_view_put]
          exact if_pos rfl
    | createSession owner metadata =>
        simp only [Session.step] at hs
        split at hs
        · obtain ⟨_, -, hres⟩ := Option.map_eq_some_iff.mp hs
          cases hres
          rw [hpc]
          exact .inl h
        · cases hs
    | done | failed => cases hs
  all_goals cases h

/-! ## Runs

By induction over the run, for all tokens at once. Derivations refer to calls that have finished, and
finished calls stay as they are. -/

/-- **The account of a session was authenticated or inserted** by its own call, in a step of the run. -/
theorem session_begins (hreq : ∀ c, (s.calls c).IsRequest) (hr : Pool.Steps (exec env) s t)
    (h : (t.calls c).sessionUser = some user) :
    ∃ v a w, Pool.Steps (exec env) s v ∧ Pool.step (exec env) v c a = some w ∧ Begins env v w c user ∧
      Pool.Steps (exec env) w t := by
  have hnone : (s.calls c).sessionUser ≠ some user := by
    have hreqc := hreq c
    cases hcall : s.calls c with
    | session pc =>
        rw [hcall] at hreqc
        cases pc with
        | createSession | done => cases hreqc
        | _ => simp [Call.sessionUser]
    | _ => simp [Call.sessionUser]
  obtain ⟨v, a, w, hsv, -, hst, hbegins, hwt⟩ :=
    hr.happened (P := fun call => call.sessionUser = some user)
    (E := fun v _ w => Begins env v w c user) hnone (fun _ _ hst h => step_sessionUser hst h) h
  exact ⟨v, a, w, hsv, hst, hbegins, hwt⟩

/-- **Every session is earned.** For every interleaving of the account operations, a committed refresh
    token was handed out by a call that opened the session, or to one that presented the value of an
    earlier live token of the same family and account; and the call that opened the session has, in a
    step of the run, checked the password of that account or inserted it. -/
theorem sessions_are_earned (hi : Initial s) (hr : Pool.Steps (exec env) s t) :
    (∀ r ∈ t.tokens, Earned env t r) ∧
      ∀ c user row, t.calls c = .session (.done user row) →
        ∃ v a w, Pool.Steps (exec env) s v ∧ Pool.step (exec env) v c a = some w ∧
          Begins env v w c user ∧
          Pool.Steps (exec env) w t := by
  constructor
  · refine hr.invariant_with (I := fun t : State C => ∀ r ∈ t.tokens, Earned env t r)
      (J := fun t => ∀ c, CallOk env c t.shared (t.calls c)) (fun hr' => reachable_ok hr' hi) ?_
        fun r hmem => ?_
    · intro t c a u hJ hI _ hst
      exact step_earned (hJ c) hI hst
    · rw [State.tokens, hi.refreshTokens] at hmem
      cases hmem
  · intro c user row hdone
    exact session_begins hi.requests hr (by rw [hdone]; rfl)

end

/-- The token after a rotation is earned by the value of the first, and that one by the password. -/
theorem sessions_are_earned_rotation : ∃ t :
    State (Fin 2), Pool.Steps (exec toyEnv) (boot 2 rotationRequests) t ∧
    t.tokens.length = 2 ∧ ∀ r ∈ t.tokens, Earned toyEnv t r := by
  have hrun : (Pool.replay (exec toyEnv) Pool.anyStep (boot 2 rotationRequests) rotationSchedule).any
      (fun t : State (Fin 2) => t.tokens.length = 2) = true := by decide +kernel
  obtain ⟨t, hr, hlen⟩ := Pool.exists_run_of_replay hrun
  have hi : Initial (boot 2 rotationRequests) :=
    initial_boot (by simp [rotationRequests, Call.IsRequest])
  exact ⟨t, hr, by simpa using hlen, (sessions_are_earned hi hr).1⟩

end NestApp
