import NestApp.Lib.Linked
import NestApp.Auth.Service

/-!
# `Auth.ResetLinks` — usable password reset links

`forgotPassword` marks the earlier links of the account as used and then inserts the new one, in two
autocommitted statements. Two requests for one account that both run their `UPDATE` before either runs
its `INSERT` leave two usable links (`two_usable_links`, a double click is enough).

`one_usable_link`: when a link is inserted only while no other request for the account stands between the
start of its `UPDATE` and its `INSERT`, every link but the newest of an account is used. What carries the
proof is that such a request finds, and keeps, every earlier link marked (`LinkOk`).
-/

namespace NestApp

open Sql

/-- The account a request, between the start of its `UPDATE` and its `INSERT`, issues a link for. -/
def Call.issuing : Call → Option Uuid
  | .forgotPassword (.sweep user ..) | .forgotPassword (.save user _) => some user.id
  | _ => none

/-- The account the next step of a call inserts a link for. -/
def Call.saving : Call → Option Uuid
  | .forgotPassword (.save user _) => some user.id
  | _ => none

/-- A `forgotPassword` request has begun and has not returned. -/
def Call.inForgotPassword : Call → Bool
  | .forgotPassword (.start ..) | .forgotPassword (.done _) => false
  | .forgotPassword _ => true
  | _ => false

/-- A link that can still be used at time `now`. -/
def PasswordResetToken.Usable (now : Nat) (r : PasswordResetToken) : Prop :=
  r.usedAt = none ∧ now ≤ r.expiresAt

instance (now : Nat) (r : PasswordResetToken) : Decidable (r.Usable now) :=
  inferInstanceAs (Decidable (_ ∧ _))

section

variable {C : Type}

/-- A link is inserted only while no other request for the account is between its `UPDATE` and
    `INSERT`. -/
def noOverlappingIssue : StepCondition C
  | _, _, .abort => True
  | s, c, .run _ => ∀ d, (s.calls c).saving ≠ none → (s.calls d).issuing = (s.calls c).saving → d = c

/-- The links of account `userId`, in the order of creation. -/
def linksOf (t : Table PasswordResetToken) (userId : Uuid) : List PasswordResetToken :=
  t.rows.filter fun r => r.userId = userId

/-- With no request under way, an account has at most one usable link, the one created last. -/
def OneUsableLink (s : State C) : Prop :=
  (∀ c, (s.calls c).inForgotPassword = false) →
    ∀ now userId, ∀ r ∈ linksOf s.shared.resetTokens.table userId, r.Usable now →
      (linksOf s.shared.resetTokens.table userId).getLast? = some r ∧
      ∀ r' ∈ linksOf s.shared.resetTokens.table userId, r'.Usable now → r' = r

/-! ## Steps

Links are never unmarked, so the only step that can spoil the property is an `INSERT`. It does not, if
the account has no unused link at that moment. -/

/-- Every link of every account is used, but for the newest. This is the invariant, and it needs the
    condition. -/
def OldLinksUsed (t : Table PasswordResetToken) : Prop :=
  ∀ userId, Linked (fun a _ => a.usedAt.isSome) (fun _ => True) (linksOf t userId)

variable [DecidableEq C] {env : Env} {c d : C} {db db' : Db C} {call call' : Call} {a : Act} {o : Choice}
  {pc pc' : ForgotPassword.Pc} {s t u : State C}

omit [DecidableEq C] in
/-- Where an unused link comes from: it was unused before, or it is inserted now. -/
theorem LinkStep.unused_origin (h : LinkStep db db' call call') {r' : PasswordResetToken}
    (hr' : r' ∈ db'.resetTokens.table.rows) (hused : r'.usedAt = none) :
    (∃ r ∈ db.resetTokens.table.rows, r.id = r'.id ∧ r.userId = r'.userId ∧ r.usedAt = none) ∨
      call.saving = some r'.userId := by
  cases h with
  | used rows =>
      obtain ⟨r, hr, ts, rfl, hts⟩ := rows.get_new (Table.get_of_mem hr')
      refine .inl ⟨r, Table.get_mem hr, rfl, rfl, ?_⟩
      cases hru : r.usedAt with
      | none => rfl
      | some _ => simpa [show ts = none from hused] using hts (by rw [hru]; rfl)
  | issued user metadata row userId newId table =>
      rw [table, Table.rows_put_new newId, List.mem_append, List.mem_singleton] at hr'
      rcases hr' with hr' | rfl
      · exact .inl ⟨r', hr', rfl, rfl, hused⟩
      · exact .inr (congrArg some userId.symm)

omit [DecidableEq C] in
/-- **Step.** If the account of an inserted link has no unused one, the older links stay used. -/
theorem LinkStep.oldLinksUsed (h : LinkStep db db' call call') (hold : OldLinksUsed db.resetTokens.table)
    (hsave : ∀ userId, call.saving = some userId →
      ∀ r ∈ db.resetTokens.table.rows, r.userId = userId → r.usedAt.isSome) :
    OldLinksUsed db'.resetTokens.table := by
  intro userId
  cases h with
  | used rows =>
      -- a used link stays used, and no link changes its account
      refine (hold userId).forall₂ (List.rel_filter ?_ rows) ?_ (fun _ _ => trivial)
      · rintro r r' ⟨-, ts, rfl, -⟩
        rfl
      · rintro a b a' b' ha ⟨-, ts, rfl, hts⟩ -
        exact hts ha
  | issued user metadata row rowUser newId table =>
      rw [table, linksOf, Table.rows_put_new newId, List.filter_append]
      by_cases hu : row.userId = userId
      · simp only [hu, decide_true, List.filter_singleton]
        -- the new link is the last one, so only the older ones have to be used
        refine Linked.of_forall (fun a ha _ => ?_) trivial
        obtain ⟨hrows, hau⟩ := List.mem_filter.mp ha
        exact hsave userId (congrArg some (rowUser.symm.trans hu)) a hrows (by simpa using hau)
      · simpa [hu, linksOf] using hold userId

/-! ## The proof outline

Before its `UPDATE` has begun a request knows nothing; while it runs, every unused link of the account
is yet to be visited; after its commit there is none. Under the condition nobody else inserts one
meanwhile. -/

/-- What a request knows at each point: the earlier links are marked, or yet to be visited. -/
def LinkOk (db : Db C) : Call → Prop
  | .forgotPassword (.sweep user _ todo tx) =>
      db.resetTokens.Swept tx.resetTokens (unusedOfUser user.id) todo
  | .forgotPassword (.save user _) => ∀ r ∈ db.resetTokens.table.rows, unusedOfUser user.id r = false
  | _ => True

/-- **Own step.** A link visited is marked, and the commit uses up all that are marked. -/
theorem step_linkOk (hs : ForgotPassword.step env c db o pc = some (db', pc'))
    (h : LinkOk db (.forgotPassword pc)) : LinkOk db' (.forgotPassword pc') := by
  cases pc with
  | start dto metadata =>
      simp only [ForgotPassword.step] at hs
      split at hs
      · cases hs; trivial
      · split at hs <;> (cases hs; trivial)
  | invalidate user metadata =>
      cases hs
      -- every unused link of the snapshot is still to be visited
      exact Store.swept_start _
  | sweep user metadata todo tx =>
      simp only [ForgotPassword.step] at hs
      split at hs
      · next htodo =>
        subst htodo
        cases hs
        -- all links were visited, so none committed is unused
        exact fun r hr => Store.Swept.commit h hr
      · split at hs
        · obtain ⟨⟨db₁, tx₁⟩, hupd, hres⟩ := Option.map_eq_some_iff.mp hs
          cases hres
          simp only [Db.updateResetToken, Option.map_eq_some_iff, Prod.mk.injEq] at hupd
          obtain ⟨⟨st, ws⟩, hv, rfl, rfl⟩ := hupd
          exact Store.Swept.visit h hv (fun _ => rfl) (unusedOfUser_markUsed _ _)
        · cases hs
  | save user metadata =>
      obtain ⟨r, -, hres⟩ := Option.map_eq_some_iff.mp hs
      cases hres
      trivial
  | done => cases hs

omit [DecidableEq C] in
theorem unusedOfUser_iff {userId : Uuid} {r : PasswordResetToken} :
    unusedOfUser userId r = true ↔ r.userId = userId ∧ r.usedAt = none := by
  simp [unusedOfUser]

omit [DecidableEq C] in
/-- **Step of another call**, under the condition: no link of the account is inserted meanwhile. -/
theorem LinkOk.frame {other other' : Call} (h : LinkOk db call) (hst : LinkStep db db' other other')
    (hcond : other.saving = none ∨ call.issuing ≠ other.saving) : LinkOk db' call := by
  -- no unused link of the account appears
  have hnew : ∀ {userId}, call.issuing = some userId → ∀ r' ∈ db'.resetTokens.table.rows,
      unusedOfUser userId r' = true →
        ∃ r ∈ db.resetTokens.table.rows, r.id = r'.id ∧ unusedOfUser userId r = true := by
    intro userId hissue r' hr' hp
    rw [unusedOfUser_iff] at hp
    rcases hst.unused_origin hr' hp.2 with ⟨r, hr, hid, hu, hused⟩ | hsave
    · exact ⟨r, hr, hid, unusedOfUser_iff.mpr ⟨hu.trans hp.1, hused⟩⟩
    · rw [hissue, hsave, hp.1] at hcond
      simp at hcond
  cases call with
  | forgotPassword pc =>
      cases pc with
      | sweep user metadata todo tx =>
          refine Store.Swept.frame h fun k r' hr' hp => ?_
          obtain ⟨r, hr, hid, hp'⟩ := hnew rfl r' (Table.get_mem hr') hp
          have hk : r.id = k := hid.trans (Table.get_key hr')
          exact ⟨r, hk ▸ Table.get_of_mem hr, hp'⟩
      | save user metadata =>
          intro r' hr'
          cases hp : unusedOfUser user.id r' with
          | false => rfl
          | true =>
              obtain ⟨r, hr, -, hp'⟩ := hnew rfl r' hr' hp
              rw [h r hr] at hp'
              cases hp'
      | start | invalidate | done => trivial
  | _ => trivial

omit [DecidableEq C] in
theorem linkOk_request (h : call.IsRequest) : LinkOk db call := by
  cases call with
  | forgotPassword pc => cases pc <;> trivial
  | _ => trivial

omit [DecidableEq C] in
/-- What `LinkOk` says at the `INSERT`. -/
theorem LinkOk.saving (h : LinkOk db call) {userId : Uuid} (hs : call.saving = some userId)
    {r : PasswordResetToken} (hr : r ∈ db.resetTokens.table.rows) (hu : r.userId = userId) :
    r.usedAt.isSome := by
  unfold Call.saving at hs
  split at hs
  · next user metadata =>
    cases hs
    cases hused : r.usedAt with
    | some _ => rfl
    | none =>
        have hp := h r hr
        rw [unusedOfUser_iff.mpr ⟨hu, hused⟩] at hp
        cases hp
  · cases hs

/-- **Run.** Where requests of one account do not overlap, only the newest link of an account is
    unused. -/
theorem reachable_links (hr : Pool.Run (exec env) noOverlappingIssue s t) (hi : Initial s) :
    OldLinksUsed t.shared.resetTokens.table ∧ ∀ c, LinkOk t.shared (t.calls c) := by
  refine hr.local_invariant (G := fun db => OldLinksUsed db.resetTokens.table)
    (L := fun _ db call => LinkOk db call) (J := fun t => ∀ c, CallOk env c t.shared (t.calls c))
    (fun hr' => reachable_ok hr' hi) ?_ ?_ ⟨?_, fun c => linkOk_request (hi.requests c)⟩
  · intro t c a db' call' hJ hG hL _ hc
    refine ⟨(exec_links hc (hJ c)).oldLinksUsed hG fun userId hs r hr hu => (hL c).saving hs hr hu, ?_⟩
    rcases exec_cases hc with ⟨-, -, -, rfl⟩ | ⟨o, pc, pc', -, -, rfl, -⟩ | ⟨o, pc, pc', -, -, rfl, -⟩ |
      ⟨o, pc, pc', -, -, rfl, -⟩ | ⟨o, pc, pc', -, hpc, rfl, hs⟩ | ⟨o, pc, pc', -, -, rfl, -⟩ |
      ⟨o, pc, pc', -, -, rfl, -⟩
    -- only a request for a link has anything to show
    case inr.inr.inr.inr.inl =>
      have hLc := hL c
      rw [hpc] at hLc
      exact step_linkOk hs hLc
    all_goals trivial
  · intro t c a db' call' d hJ _ hL hcond hc hdc
    cases a with
    | abort =>
        obtain ⟨rfl, rfl⟩ := exec_abort hc
        exact (hL d).frame (linkStep_rollback (c := c)) (.inl rfl)
    | run o =>
        refine (hL d).frame (exec_links hc (hJ c)) ?_
        -- either the step inserts no link, or the condition keeps the two requests apart
        by_cases hs : (t.calls c).saving = none
        · exact .inl hs
        · exact .inr fun he => hdc (hcond d hs he)
  · intro userId
    rw [linksOf, hi.resetTokens]
    exact .nil

/-- **At most one usable link**, in every run in which links are inserted only while no other request
    for the account is between its `UPDATE` and its `INSERT`. -/
theorem one_usable_link (hi : Initial s) (hr : Pool.Run (exec env) noOverlappingIssue s t) :
    OneUsableLink t := by
  intro _ now userId r hr₁ husable
  have hchain := (reachable_links hr hi).1 userId
  have hno : ∀ {a b : PasswordResetToken}, a.usedAt.isSome → ¬ a.Usable now := by
    intro a _ ha hu
    rw [hu.1] at ha
    cases ha
  constructor
  · obtain ⟨l, hl⟩ := hchain.eq_last (P := fun r => r.Usable now) (fun {a b} => hno (b := b)) hr₁ husable
    rw [hl, List.getLast?_append, List.getLast?_singleton]
    rfl
  · intro r' hr' husable'
    exact hchain.eq_of_last (P := fun r => r.Usable now)
      (fun {a b} => hno (b := b)) hr' husable' hr₁ husable

end

/-! ## The race

A double click: both requests mark what they find, and then both insert. -/

instance {n : Nat} (s : State (Fin n)) (c : Fin n) (a : Act) : Decidable (noOverlappingIssue s c a) :=
  match a with
  | .abort => isTrue trivial
  | .run _ => inferInstanceAs (Decidable (∀ d : Fin n,
      (s.calls c).saving ≠ none → (s.calls d).issuing = (s.calls c).saving → d = c))

/-- Two clicks on "forgot password". -/
def doubleClick : List Call :=
  [.forgotPassword (.start ⟨"a@b.co"⟩ ⟨none, none⟩), .forgotPassword (.start ⟨"a@b.co"⟩ ⟨none, none⟩)]

/-- Both requests run their `UPDATE` before either inserts. -/
def overlapping : List (Fin 2 × Act) := Pool.turns 2
  [(0, .run (.at 1 uuidA "" uuidA)), (1, .run (.at 1 uuidA "" uuidA)),
   (0, .run (.at 1 uuidA "" uuidA)), (0, .run (.at 1 uuidA "" uuidA)),
   (1, .run (.at 1 uuidA "" uuidA)), (1, .run (.at 1 uuidA "" uuidA)),
   (0, .run (.at 2 uuidB "R" uuidA)), (1, .run (.at 2 uuidC "S" uuidA))]

/-- Without the condition, an account can have two usable links: each of two requests uses up the older
    ones before the other has inserted its own. -/
theorem two_usable_links : ∃ s t : State (Fin 2),
    Initial s ∧ Pool.Steps (exec toyEnv) s t ∧ ¬ OneUsableLink t := by
  have hrun : (Pool.replay (exec toyEnv) Pool.anyStep (boot 2 doubleClick) overlapping).any
      (fun t : State (Fin 2) => decide (∀ c, (t.calls c).inForgotPassword = false) &&
        (linksOf t.shared.resetTokens.table uuidA).any fun r => decide (r.Usable 5) &&
          (linksOf t.shared.resetTokens.table uuidA).any fun r' =>
            decide (r'.Usable 5 ∧ r' ≠ r)) = true := by
    decide +kernel
  obtain ⟨t, hr, hcheck⟩ := Pool.exists_run_of_replay hrun
  simp only [Bool.and_eq_true, decide_eq_true_eq, List.any_eq_true] at hcheck
  -- both calls have returned, and two different links are usable
  obtain ⟨hidle, r, hmem, husable, r', hmem', husable', hne⟩ := hcheck
  refine ⟨_, t, initial_boot (by simp [doubleClick, Call.IsRequest]), hr, fun hone => ?_⟩
  exact hne ((hone hidle 5 uuidA r hmem husable).2 r' hmem' husable')

/-- The second request begins after the first has returned. -/
def oneAfterTheOther : List (Fin 2 × Act) := Pool.turns 2
  [(0, .run (.at 1 uuidA "" uuidA)), (0, .run (.at 1 uuidA "" uuidA)), (0, .run (.at 1 uuidA "" uuidA)),
   (0, .run (.at 2 uuidB "R" uuidA)),
   (1, .run (.at 3 uuidA "" uuidA)), (1, .run (.at 3 uuidA "" uuidA)), (1, .run (.at 3 uuidA "" uuidB)),
   (1, .run (.at 3 uuidA "" uuidA)), (1, .run (.at 4 uuidC "S" uuidA))]

theorem one_usable_link_sequential : ∃ s t : State (Fin 2),
    Pool.Run (exec toyEnv) noOverlappingIssue s t ∧
      (linksOf t.shared.resetTokens.table uuidA).length = 2 ∧
      OneUsableLink t := by
  have hrun : (Pool.replay (exec toyEnv) noOverlappingIssue (boot 2 doubleClick) oneAfterTheOther).any
      (fun t : State (Fin 2) => (linksOf t.shared.resetTokens.table uuidA).length = 2) = true := by
    decide +kernel
  obtain ⟨t, hr, hlen⟩ := Pool.exists_run_of_replay hrun
  have hi : Initial (boot 2 doubleClick) := initial_boot (by simp [doubleClick, Call.IsRequest])
  exact ⟨_, t, hr, by simpa using hlen, one_usable_link hi hr⟩

end NestApp
