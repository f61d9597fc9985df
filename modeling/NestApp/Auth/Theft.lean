import NestApp.Auth.Family

/-!
# `Auth.Theft` — theft detection and the token a concurrent rotation adds

Presenting a spent token revokes its family: one `UPDATE` over the live rows of the family. That
statement sees the rows committed when it starts. A rotation of the same family that has inserted its
next token by then, but commits later, leaves a live row the `UPDATE` never visits: it waits for the
presented row of the rotation, finds it revoked, and goes on. `theft_is_not_final` is such a run — the
session of the thief survives its own detection, and is refreshed afterwards.

`theft_is_final` is the other half: when no rotation of a family commits while a theft `UPDATE` on it
is under way, a detected theft is the end of the family. The proof outline (`TheftOk`) is the sweep
invariant while the `UPDATE` runs, and `Dead` from its commit on.
-/

namespace NestApp

open Sql

/-- The family a theft `UPDATE` under way, or about to commit, kills. -/
def Call.killing : Call → Option Uuid
  | .refresh (.sweep p _ _) | .refresh (.commit p _ .theft) => some p.stored.familyId
  | _ => none

/-- The family the next step of a call extends by a new token. -/
def Call.extending : Call → Option Uuid
  | .refresh (.commit p _ (.ok _ _)) => some p.stored.familyId
  | _ => none

section

variable {C : Type}

/-- No rotation of a family commits while a theft `UPDATE` on it is under way. -/
def noRotationDuringTheft : StepCondition C
  | _, _, .abort => True
  | s, c, .run _ => ∀ d, (s.calls c).extending = none ∨ (s.calls d).killing ≠ (s.calls c).extending

/-- Family `f` exists and has no live token. Nothing that any of the operations does makes one of its
    tokens live again. -/
def Dead (t : Table RefreshToken) (f : Uuid) : Prop :=
  (∃ r ∈ t.rows, r.familyId = f) ∧ ∀ r ∈ t.rows, r.familyId = f → r.revokedAt.isSome

/-- From `t` on, where a theft on family `f` was detected, up to `u`: no live row of `f`, and no refresh
    of a token of `f` has been answered `ok` since. -/
def Killed (f : Uuid) (t u : State C) : Prop :=
  (∀ r ∈ u.tokens, r.familyId = f → r.revokedAt.isSome) ∧
    ∀ d token stored user next, u.calls d = .refresh (.done token (some stored) (.ok user next)) →
      stored.familyId = f → t.calls d = u.calls d

/-! ## Steps

A live token in a family that existed before is either an old one or the result of a rotation, and a
rotation needs a live token to begin with. So a family without live tokens can never have one again. -/

variable [DecidableEq C] {env : Env} {c d : C} {db db' : Db C} {call call' : Call} {a : Act} {o : Choice}
  {pc pc' : Refresh.Pc} {f : Uuid} {s t u : State C}

omit [DecidableEq C] in
/-- Where a live token of an existing family comes from: it was live before, or a rotation of the family
    commits, which needs a live token itself. -/
theorem TokenStep.live_origin_family (h : TokenStep env c db db' call call')
    (hfam : ∃ r ∈ db.refreshTokens.table.rows, r.familyId = f) {r' : RefreshToken}
    (hr' : r' ∈ db'.refreshTokens.table.rows) (hf : r'.familyId = f) (hlive : r'.revokedAt = none) :
    (∃ r ∈ db.refreshTokens.table.rows, r.id = r'.id ∧ r.familyId = f ∧ r.revokedAt = none) ∨
      (call.extending = some f ∧ ∃ r ∈ db.refreshTokens.table.rows, r.familyId = f ∧
        r.revokedAt = none) := by
  rcases h.live_origin hr' hlive with ⟨r, hr, hadv, hrev⟩ | hissued
  · exact .inl ⟨r, hr, hadv.id.symm, hadv.familyId.symm.trans hf, hrev⟩
  · rcases h.issued hissued with ⟨-, -, -, -, -, hnew⟩ | ⟨p, tx, user, rfl, hp, hplive, hpf, -⟩
    · obtain ⟨r, hr, hrf⟩ := hfam
      exact absurd (hrf.trans hf.symm) (hnew r hr)
    · have heq : p.stored.familyId = f := hpf.symm.trans hf
      exact .inr ⟨congrArg some heq, p.stored, hp, heq, hplive.1⟩

omit [DecidableEq C] in
/-- A dead family stays dead. -/
theorem TokenStep.dead (h : TokenStep env c db db' call call') (hd : Dead db.refreshTokens.table f) :
    Dead db'.refreshTokens.table f := by
  obtain ⟨hfam, hdead⟩ := hd
  -- a live token would have to come from a live token of the same family
  have hnone : ¬ ∃ r ∈ db.refreshTokens.table.rows, r.familyId = f ∧ r.revokedAt = none := by
    rintro ⟨r, hr, hrf, hlive⟩
    simpa [hlive] using hdead r hr hrf
  constructor
  · obtain ⟨r, hr, hrf⟩ := hfam
    obtain ⟨r', hr', hadv⟩ := h.kept hr
    exact ⟨r', hr', hadv.familyId.trans hrf⟩
  · intro r' hr' hrf
    cases hrev : r'.revokedAt with
    | some _ => rfl
    | none =>
        rcases h.live_origin_family hfam hr' hrf hrev with ⟨r, hr, -, hlive⟩ | ⟨-, hlive⟩
        · exact absurd ⟨r, hr, hlive⟩ hnone
        · exact absurd hlive hnone

/-! ## The proof outline

While the `UPDATE` of the theft branch runs, the rows it has still to visit cover every live row of the
family. The commit of a rotation in the same family would add a row outside this list; the condition
excludes just that. -/

/-- What a theft branch knows at each point: the tokens of the family are marked, or still to be
    visited; in the end the family is dead. -/
def TheftOk (db : Db C) : Call → Prop
  | .refresh (.sweep p todo tx) =>
      db.refreshTokens.Swept tx.refreshTokens (liveInFamily p.stored.familyId) todo
  | .refresh (.commit p tx .theft) =>
      db.refreshTokens.Swept tx.refreshTokens (liveInFamily p.stored.familyId) []
  | .refresh (.done _ (some stored) .theft) => Dead db.refreshTokens.table stored.familyId
  | _ => True

/-- **Own step.** A row visited is marked in the buffer, and the commit revokes all that are marked. -/
theorem step_theftOk (hs : Refresh.step env c db o pc = some (db', pc')) (hok : Refresh.Ok env c db pc)
    (h : TheftOk db (.refresh pc)) : TheftOk db' (.refresh pc') := by
  cases pc with
  | start presented metadata =>
      rcases presented with _ | token
      · cases hs; trivial
      · by_cases ht : token = ""
        · subst ht; cases hs; trivial
        · simp only [Refresh.step, Option.map_eq_some_iff] at hs
          obtain ⟨⟨st, _ | r⟩, -, hres⟩ := hs
          · cases hres; trivial
          · cases hres
            unfold Refresh.classify
            split
            · trivial
            · split <;> trivial
  | theft p =>
      cases hs
      -- every live row of the snapshot is still to be visited
      exact Store.swept_start _
  | sweep p todo tx =>
      simp only [Refresh.step] at hs
      split at hs
      · next htodo =>
        subst htodo
        cases hs
        exact h
      · split at hs
        · obtain ⟨⟨db₁, tx₁⟩, hupd, hres⟩ := Option.map_eq_some_iff.mp hs
          cases hres
          simp only [Db.updateRefreshToken, Option.map_eq_some_iff, Prod.mk.injEq] at hupd
          obtain ⟨⟨st, ws⟩, hv, rfl, rfl⟩ := hupd
          -- the row visited is revoked in the buffer, and no longer to be visited
          exact Store.Swept.visit h hv (fun _ => rfl) (liveInFamily_revoke _ _)
        · cases hs
  | expired p =>
      obtain ⟨r, -, hres⟩ := Option.map_eq_some_iff.mp hs
      cases hres; trivial
  | findUser p =>
      simp only [Refresh.step] at hs
      split at hs
      · split at hs <;> (cases hs; trivial)
      · cases hs; trivial
  | insertNext p user =>
      obtain ⟨r, -, hres⟩ := Option.map_eq_some_iff.mp hs
      cases hres; trivial
  | linkNext p user next tx =>
      obtain ⟨r, -, hres⟩ := Option.map_eq_some_iff.mp hs
      cases hres; trivial
  | commit p tx outcome =>
      cases hs
      cases outcome with
      | theft =>
          obtain ⟨hp, hm, -⟩ := hok
          -- all rows were visited, so what is committed has no live token of the family
          obtain ⟨r, hr, hrev⟩ := hm.versions.refreshTokens.get hp.1.1
          refine ⟨⟨r, Table.get_mem hr, hrev.advanced.familyId⟩, fun r hr hf => ?_⟩
          have hdead := Store.Swept.commit h hr
          cases hrev : r.revokedAt with
          | some _ => rfl
          | none => simp [liveInFamily, hf, hrev] at hdead
      | invalid | expired | inactive | ok => trivial
  | done | failed => cases hs

omit [DecidableEq C] in
/-- **Step of another call**, under the condition: no token is added to the family while its rows are
    visited. -/
theorem TheftOk.frame (hok : CallOk env d db (.refresh pc)) (h : TheftOk db (.refresh pc))
    (hst : TokenStep env c db db' call call')
    (hcond : call.extending = none ∨ Call.killing (.refresh pc) ≠ call.extending) :
    TheftOk db' (.refresh pc) := by
  have hframe : ∀ {p : Refresh.Presented} {tx : Tx} {todo : List Uuid}, p.Held env d db →
      Call.killing (.refresh pc) = some p.stored.familyId →
      db.refreshTokens.Swept tx.refreshTokens (liveInFamily p.stored.familyId) todo →
      db'.refreshTokens.Swept tx.refreshTokens (liveInFamily p.stored.familyId) todo := by
    intro p tx todo hp hkill hswept
    -- a row that is live after the step was live before it: the condition excludes the commit of a
    -- rotation
    refine hswept.frame fun k r' hr' hlive => ?_
    simp only [liveInFamily, Bool.and_eq_true, decide_eq_true_eq, Option.isNone_iff_eq_none] at hlive ⊢
    rcases hst.live_origin_family ⟨_, Table.get_mem hp.1.1, rfl⟩ (Table.get_mem hr') hlive.1 hlive.2 with
      ⟨r, hr, hid, hf, hrev⟩ | ⟨hext, -⟩
    · have hk : r.id = k := hid.trans (Table.get_key hr')
      exact ⟨r, hk ▸ Table.get_of_mem hr, hf, hrev⟩
    · rw [hext, hkill] at hcond
      simp at hcond
  cases pc with
  | sweep p todo tx => exact hframe hok.1 rfl h
  | commit p tx outcome =>
      cases outcome with
      | theft => exact hframe hok.1 rfl h
      | invalid | expired | inactive | ok => trivial
  | done token stored outcome =>
      cases outcome with
      | theft =>
          cases stored with
          | none => trivial
          | some stored => exact hst.dead h
      | invalid | expired | inactive | ok => cases stored <;> trivial
  | start | theft | expired | findUser | insertNext | linkNext | failed => trivial

omit [DecidableEq C] in
theorem theftOk_request (h : call.IsRequest) : TheftOk db call := by
  cases call with
  | refresh pc => cases pc <;> trivial
  | _ => trivial

/-- **Run.** Where the condition holds of every step, every theft branch knows what its outline says. -/
theorem reachable_theftOk (hr : Pool.Run (exec env) noRotationDuringTheft s t) (hi : Initial s) :
    ∀ c, TheftOk t.shared (t.calls c) := by
  refine (hr.local_invariant (G := fun _ => True) (L := fun _ db call => TheftOk db call)
    (J := fun t => ∀ c, CallOk env c t.shared (t.calls c)) (fun hr' => reachable_ok hr' hi) ?_ ?_
    ⟨trivial, fun c => theftOk_request (hi.requests c)⟩).2
  · intro t c a db' call' hJ _ hL _ hc
    refine ⟨trivial, ?_⟩
    rcases exec_cases hc with ⟨-, -, -, rfl⟩ | ⟨o, pc, pc', -, -, rfl, -⟩ |
      ⟨o, pc, pc', -, hpc, rfl, hs⟩ |
      ⟨o, pc, pc', -, -, rfl, -⟩ | ⟨o, pc, pc', -, -, rfl, -⟩ | ⟨o, pc, pc', -, -, rfl, -⟩ |
      ⟨o, pc, pc', -, -, rfl, -⟩
    -- only a refresh has anything to show
    case inr.inr.inl =>
      have hok := hJ c
      have hL := hL c
      rw [hpc] at hok hL
      exact step_theftOk hs hok hL
    all_goals trivial
  · intro t c a db' call' d hJ _ hL hcond hc _
    have hok := hJ d
    have hLd := hL d
    cases hd : t.calls d with
    | refresh pc =>
        rw [hd] at hok hLd
        cases a with
        | abort =>
            obtain ⟨rfl, rfl⟩ := exec_abort hc
            exact hLd.frame hok (tokenStep_rollback (c := c)) (.inl rfl)
        | run o => exact hLd.frame hok (exec_tokens hc (hJ c)) (hd ▸ hcond d)
    | _ => trivial

/-! ## A detected theft

The answer "reuse detected" is given after the commit. From that state on the family is dead, and a
dead family answers no refresh. -/

/-- Once a family is dead, no refresh of one of its tokens is answered `ok`. -/
theorem dead_killed {ok : StepCondition C} (htu : Pool.Run (exec env) ok t u)
    (hL : ∀ {v : State C}, Pool.Run (exec env) ok t v → ∀ c, CallOk env c v.shared (v.calls c))
    (hdead : Dead t.shared.refreshTokens.table f) : Killed f t u := by
  -- first along the run: the family stays dead
  have hstays : ∀ {v}, Pool.Run (exec env) ok t v → Dead v.shared.refreshTokens.table f := by
    intro v htv
    refine htv.invariant_with (I := fun v => Dead v.shared.refreshTokens.table f)
      (J := fun v => ∀ c, CallOk env c v.shared (v.calls c)) hL ?_ hdead
    intro v c a w hJ hI _ hst
    obtain ⟨db', call', hc, rfl⟩ := Pool.step_cases hst
    exact (exec_tokens hc (hJ c)).dead hI
  refine ⟨(hstays htu).2, ?_⟩
  refine htu.invariant_with
    -- then an acceptance that `t` does not have would have rotated a live token of it
    (I := fun v => ∀ d token stored user next,
      v.calls d = .refresh (.done token (some stored) (.ok user next)) → stored.familyId = f →
        t.calls d = v.calls d)
    (J := fun v => (∀ c, CallOk env c v.shared (v.calls c)) ∧ Dead v.shared.refreshTokens.table f)
    (fun htv => ⟨hL htv, hstays htv⟩) ?_ (fun _ _ _ _ _ _ _ => rfl)
  intro v c a w hJ hI _ hst d token stored user next hd hf
  obtain ⟨db', call', hc, rfl⟩ := Pool.step_cases hst
  by_cases hdc : d = c
  · subst hdc
    obtain rfl : call' = _ := by simpa using hd
    have htok := exec_tokens hc (hJ.1 d)
    generalize v.calls d = call at htok
    cases htok with
    | revoked _ noToken => cases noToken
    | rotated p _ _ _ held live _ _ _ =>
        -- the token presented would have to be live
        have hrev := hJ.2.2 p.stored (Table.get_mem held.1.1) hf
        rw [live.1] at hrev
        cases hrev
  · have hv : v.calls d = Function.update v.calls c call' d := (Function.update_of_ne hdc _ _).symm
    exact (hI d token stored user next (hv.trans hd) hf).trans hv

/-- **A detected theft kills the family**, in every run in which no rotation of a family commits while a
    theft `UPDATE` on it is under way. -/
theorem theft_is_final {token : String} {stored : RefreshToken} (hi : Initial s)
    (hst : Pool.Run (exec env) noRotationDuringTheft s t)
    (htu : Pool.Run (exec env) noRotationDuringTheft t u)
    (hc : t.calls c = .refresh (.done token (some stored) .theft)) : Killed stored.familyId t u := by
  refine dead_killed htu (fun htv => reachable_ok (hst.trans htv) hi) ?_
  have h := reachable_theftOk hst hi c
  rw [hc] at h
  exact h

end

/-! ## The race

Two rotations and a thief, step by step. The second rotation has inserted its token and not committed
when the theft is detected, so the `UPDATE` cannot see that row. -/

instance {n : Nat} (s : State (Fin n)) (c : Fin n) (a : Act) : Decidable (noRotationDuringTheft s c a) :=
  match a with
  | .abort => isTrue trivial
  | .run _ => inferInstanceAs (Decidable (∀ d : Fin n,
      (s.calls c).extending = none ∨ (s.calls d).killing ≠ (s.calls c).extending))

/-- The call detected a theft on the family `uuidA`. -/
def Call.detected : Call → Bool
  | .refresh (.done _ (some stored) .theft) => stored.familyId = uuidA
  | _ => false

/-- The call rotated a token of the family `uuidA`. -/
def Call.refreshed : Call → Bool
  | .refresh (.done _ (some stored) (.ok _ _)) => stored.familyId = uuidA
  | _ => false

theorem Call.detected_eq {call : Call} (h : call.detected = true) :
    ∃ token stored, call = .refresh (.done token (some stored) .theft) ∧ stored.familyId = uuidA := by
  unfold Call.detected at h
  split at h
  · exact ⟨_, _, rfl, by simpa using h⟩
  · cases h

theorem Call.refreshed_eq {call : Call} (h : call.refreshed = true) :
    ∃ token stored user next, call = .refresh (.done token (some stored) (.ok user next)) ∧
      stored.familyId = uuidA := by
  unfold Call.refreshed at h
  split at h
  · exact ⟨_, _, _, _, rfl, by simpa using h⟩
  · cases h

/-- A login hands out `A`; the owner refreshes `A` to `B` and `B` to `C`; a thief presents `A`, then
    `C`. -/
def theftRequests : List Call :=
  [.session (.login ⟨"a@b.co", "old"⟩ ⟨none, none⟩), .refresh (.start (some "A") ⟨none, none⟩),
   .refresh (.start (some "B") ⟨none, none⟩), .refresh (.start (some "A") ⟨none, none⟩),
   .refresh (.start (some "C") ⟨none, none⟩)]

/-- `A` has been rotated to `B`. -/
def theftPrologue : List (Fin 5 × Act) := Pool.turns 5
  [(0, .run (.at 1 uuidA "" uuidA)), (0, .run (.at 1 uuidB "A" uuidA)),
   (1, .run (.at 2 uuidA "" uuidA)), (1, .run (.at 2 uuidA "" uuidA)), (1, .run (.at 2 uuidC "B" uuidA)),
   (1, .run (.at 2 uuidA "" uuidA)), (1, .run (.at 2 uuidA "" uuidA))]

/-- The second rotation has inserted `C` when the theft `UPDATE` starts, and commits before that
    statement reaches the row of `B`. -/
def theftRace : List (Fin 5 × Act) := Pool.turns 5
  [(2, .run (.at 3 uuidA "" uuidA)), (2, .run (.at 3 uuidA "" uuidA)), (2, .run (.at 3 uuidD "C" uuidA)),
   (2, .run (.at 3 uuidA "" uuidA)),
   (3, .run (.at 3 uuidA "" uuidA)), (3, .run (.at 3 uuidA "" uuidA)),
   (2, .run (.at 3 uuidA "" uuidA)),
   (3, .run (.at 3 uuidA "" uuidC)), (3, .run (.at 3 uuidA "" uuidA)), (3, .run (.at 3 uuidA "" uuidA))]

/-- Afterwards `C` is refreshed. -/
def theftEpilogue : List (Fin 5 × Act) := Pool.turns 5
  [(4, .run (.at 4 uuidA "" uuidA)), (4, .run (.at 4 uuidA "" uuidA)), (4, .run (.at 4 uuidE "D" uuidA)),
   (4, .run (.at 4 uuidA "" uuidA)), (4, .run (.at 4 uuidA "" uuidA))]

/-- Without the condition, a family survives the detection of its theft. The rotation commits while the
    `UPDATE` is under way, and its token is not among the rows to be visited. -/
theorem theft_is_not_final :
    ∃ (s t u : State (Fin 5)) (c : Fin 5) (token : String) (stored : RefreshToken),
    Initial s ∧ Pool.Steps (exec toyEnv) s t ∧ Pool.Steps (exec toyEnv) t u ∧
      t.calls c = .refresh (.done token (some stored) .theft) ∧
      (∃ r ∈ t.tokens, r.familyId = stored.familyId ∧ r.revokedAt = none) ∧
        ¬ Killed stored.familyId t u := by
  have hrun : (Pool.replay (exec toyEnv) Pool.anyStep (boot 5 theftRequests)
    (theftPrologue ++ theftRace)).any
      (fun t : State (Fin 5) => (t.calls 3).detected && !(t.calls 4).refreshed &&
        t.tokens.any (fun r => r.familyId = uuidA && r.revokedAt.isNone) &&
        (Pool.replay (exec toyEnv) Pool.anyStep t theftEpilogue).any
          fun u : State (Fin 5) => (u.calls 4).refreshed) = true := by decide +kernel
  obtain ⟨t, hst, hcheck⟩ := Pool.exists_run_of_replay hrun
  simp only [Bool.and_eq_true] at hcheck
  obtain ⟨⟨⟨hdet, hbefore⟩, hlive⟩, hrest⟩ := hcheck
  -- from the state of the detection on, the survivor `C` is refreshed
  obtain ⟨u, htu, hafter⟩ := Pool.exists_run_of_replay hrest
  obtain ⟨token, stored, hc, hf⟩ := Call.detected_eq hdet
  refine ⟨_, t, u, 3, token, stored, initial_boot (by simp [theftRequests, Call.IsRequest]),
    hst, htu, hc, ?_, ?_⟩
  · obtain ⟨r, hr, hp⟩ := List.any_eq_true.mp hlive
    simp only [Bool.and_eq_true, decide_eq_true_eq, Option.isNone_iff_eq_none] at hp
    exact ⟨r, hr, hp.1.trans hf.symm, hp.2⟩
  · rintro ⟨-, hkilled⟩
    obtain ⟨token', stored', user, next, hd, hf'⟩ := Call.refreshed_eq hafter
    have heq := hkilled 4 token' stored' user next hd (hf'.trans hf.symm)
    rw [heq, hafter] at hbefore
    cases hbefore

/-- A theft detected after the rotation has committed. -/
def theftAlone : List (Fin 5 × Act) := Pool.turns 5
  [(3, .run (.at 3 uuidA "" uuidA)), (3, .run (.at 3 uuidA "" uuidA)), (3, .run (.at 3 uuidA "" uuidC)),
   (3, .run (.at 3 uuidA "" uuidA)), (3, .run (.at 3 uuidA "" uuidA))]

theorem theft_is_final_alone : ∃ s t : State (Fin 5), Pool.Run (exec toyEnv) noRotationDuringTheft s t ∧
    (t.calls 3).detected = true ∧ Killed uuidA t t := by
  have hrun : (Pool.replay (exec toyEnv) noRotationDuringTheft (boot 5 theftRequests)
      (theftPrologue ++ theftAlone)).any (fun t : State (Fin 5) => (t.calls 3).detected) = true := by
    decide +kernel
  obtain ⟨t, hst, hdet⟩ := Pool.exists_run_of_replay hrun
  obtain ⟨token, stored, hc, hf⟩ := Call.detected_eq hdet
  have hi : Initial (boot 5 theftRequests) := initial_boot (by simp [theftRequests, Call.IsRequest])
  exact ⟨_, t, hst, hdet, hf ▸ theft_is_final hi hst .refl hc⟩

end NestApp
