import Mathlib.Data.Prod.Lex
import NestApp.Auth.LockOrder

/-!
# `Auth.LockRank` — the order of the calls that wait and are waited for

`LockInvariant.rank_lt`: what a call waits for is locked by a call of a higher rank. From below:
* a theft (`refresh`) whose family an `UPDATE` over the tokens of the user has passed;
* `softDelete`, in its `UPDATE` over the refresh tokens;
* the `UPDATE`s over links, by the first link they have yet to reach;
* `resetPassword`, before it has the user, and then in its `UPDATE` over the refresh tokens;
* a theft whose family no such `UPDATE` has passed.

Two thefts about one family are in the order of the tokens they were presented. Two `UPDATE`s over the
tokens of one user do not run at a time, for they have the user locked (`not_reached`).

The rank is a pair of a level and, within a level, the place of the first row a call still needs. Most
of the module shows who can be waited for at all: a call that holds nothing is on no circle, and
neither is one that waits for nobody who waits.
-/

namespace NestApp

open Sql

variable {C : Type}

/-- The rows a call waits for while it holds others. -/
def Call.queue : Call → List AccountRow
  | .refresh (.sweep _ todo _) | .resetPassword (.sweep _ _ _ todo _) |
      .softDelete (.sweepRefreshTokens _ todo _) =>
      todo.map .refreshToken
  | .forgotPassword (.sweep _ _ todo _) | .softDelete (.sweepResetTokens _ todo _) =>
      todo.map .resetToken
  | .resetPassword (.setPassword _ _ user) => [.user user.id]
  | _ => []

/-- The user whose tokens a call is revoking. -/
def Call.revokes : Call → Option Uuid
  | .resetPassword (.sweep _ user _ _ _) => some user.id
  | .softDelete (.sweepRefreshTokens id _ _) | .softDelete (.invalidateAll id _) |
      .softDelete (.sweepResetTokens id _ _) =>
      some id
  | _ => none

/-- The tokens it has yet to reach. -/
def Call.tokensLeft : Call → List Uuid
  | .resetPassword (.sweep _ _ _ todo _) | .softDelete (.sweepRefreshTokens _ todo _) => todo
  | _ => []

/-- A token of the family has been reached by an `UPDATE` over the tokens of its user. -/
def Reached (t : State C) (familyId : Uuid) : Prop :=
  ∃ c k r, (t.calls c).revokes.isSome ∧ t.shared.refreshTokens.owner k = some c ∧
    t.shared.refreshTokens.table.get k = some r ∧ r.familyId = familyId

open Classical in
/-- The place of a call in the lock order: first by its level, then by the first row it has yet to
    reach. Calls at the same place do not wait for each other. -/
noncomputable def rank (place : Uuid → Nat) (t : State C) (c : C) : Nat ×ₗ Nat :=
  match t.calls c with
  | .refresh (.sweep p _ _)               =>
      toLex (if Reached t p.stored.familyId then 0 else 5,
        t.shared.refreshTokens.table.index p.stored.id)
  | .softDelete (.sweepRefreshTokens ..)  => toLex (1, 0)
  | .forgotPassword (.sweep _ _ todo _)   => toLex (2, leastPlace place todo)
  | .softDelete (.sweepResetTokens _ todo _) => toLex (2, leastPlace place todo)
  | .resetPassword (.setPassword ..)      => toLex (3, 0)
  | .resetPassword (.sweep ..)            => toLex (4, 0)
  | _                                     => toLex (0, 0)

/-- A higher level is a higher place. -/
theorem level_lt {i j n m : Nat} (h : i < j) : toLex (i, n) < toLex (j, m) :=
  Prod.Lex.toLex_lt_toLex.mpr (.inl h)

namespace LockInvariant

variable {env : Env} {place : Uuid → Nat} {t : State C} {c d : C} {k : Uuid} {row : AccountRow}
  {m : LockMode}

/-- What a call holds is what it owns, or the user its token refers to. -/
theorem owner_of_holds {call : Call} {db : Db C} (h : call.Holds c db row m) :
    db.owner row = some c ∨ ∃ id, row = .user id ∧ call.refersTo = some id ∧ m = .keyShare := by
  cases row with
  | user id =>
      rcases h with ⟨ho, -⟩ | ⟨href, hm⟩
      · exact .inl ho
      · exact .inr ⟨id, rfl, href, hm⟩
  | refreshToken id => exact .inl h.1
  | resetToken id => exact .inl h.1

/-- Nobody holds a user against an insert that refers to it. -/
theorem not_conflicts_keyShare {call : Call} {db : Db C} (h : call.Holds c db (.user k) m) :
    LockMode.keyShare.conflicts m = false := by
  rcases h with ⟨-, rfl⟩ | ⟨-, rfl⟩
  · rfl
  · rfl

/-- A call that buffers nothing and has selected nothing owns nothing. -/
theorem not_owner (h : (t.calls c).Covered c t.shared) (htx : (t.calls c).tx = {})
    (hp : (t.calls c).presented = none)
    (hrec : (t.calls c).link = none) : t.shared.owner row ≠ some c := by
  intro ho
  unfold Call.Covered at h
  rw [htx, hp, hrec] at h
  cases row with
  | user id => exact (h.users ho).elim List.not_mem_nil (by simp)
  | refreshToken id => exact (h.refreshTokens ho).elim List.not_mem_nil (by simp)
  | resetToken id => exact (h.resetTokens ho).elim List.not_mem_nil (by simp)

/-- A call that waits, and is waited for, waits for a row of its queue. -/
theorem queue_of_waits (h : LockInvariant env place t) (hw : (accountLocks env t).Waits c d)
    (hwaited : ∃ b, (accountLocks env t).Waits b c) :
      ∃ row ∈ (t.calls c).queue, t.shared.owner row = some d := by
  obtain ⟨hne, row, m, m', hreq, hhold, hconf⟩ := hw
  -- it holds something, for somebody waits for it
  have hidle : (t.calls c).tx = {} → (t.calls c).presented = none → (t.calls c).link = none →
      (t.calls c).refersTo = none → False := by
    intro htx hp hrec href
    obtain ⟨b, -, row', m₁, m₂, -, hhold', -⟩ := hwaited
    rcases owner_of_holds hhold' with ho | ⟨id, -, hid, -⟩
    · exact not_owner (h.covered c) htx hp hrec ho
    · rw [href] at hid
      cases hid
  have hok := h.ok c
  -- an inserted token waits for nobody
  have hinsert : ∀ {id}, (row, m) = (.user id, LockMode.keyShare) → False := by
    intro id he
    cases he
    rw [not_conflicts_keyShare hhold] at hconf
    cases hconf
  have hself : t.shared.owner row = some c → (∀ id, row ≠ .user id) → False := by
    intro hc hrow
    rcases owner_of_holds hhold with ho | ⟨id, hid, -⟩
    · exact hne (Option.some.inj (hc.symm.trans ho))
    · exact hrow id hid
  simp only [accountLocks] at hreq hhold
  generalize t.calls c = call at *
  cases call with
  | session pc =>
      cases pc with
      | createSession user metadata => exact (hinsert (List.mem_singleton.mp hreq)).elim
      | _ => exact absurd hreq List.not_mem_nil
  | refresh pc =>
      cases pc with
      | start presented metadata => exact (hidle rfl rfl rfl rfl).elim
      | sweep p todo tx =>
          obtain ⟨id, hid, he⟩ := List.mem_map.mp hreq
          cases he
          exact ⟨_, List.mem_map_of_mem hid, hhold.1⟩
      | expired p =>
          cases List.mem_singleton.mp hreq
          exact (hself hok.1.1.2 (by simp)).elim
      | insertNext p user => exact (hinsert (List.mem_singleton.mp hreq)).elim
      | linkNext p user next tx =>
          cases List.mem_singleton.mp hreq
          exact (hself hok.1.1.2 (by simp)).elim
      | _ => exact absurd hreq List.not_mem_nil
  | logout pc => exact (hidle rfl rfl rfl rfl).elim
  | forgotPassword pc =>
      cases pc with
      | sweep user metadata todo tx =>
          obtain ⟨id, hid, he⟩ := List.mem_map.mp hreq
          cases he
          exact ⟨_, List.mem_map_of_mem hid, hhold.1⟩
      | save user metadata => exact (hinsert (List.mem_singleton.mp hreq)).elim
      | _ => exact absurd hreq List.not_mem_nil
  | resetPassword pc =>
      cases pc with
      | start dto => exact (hidle rfl rfl rfl rfl).elim
      | setPassword dto record user =>
          cases List.mem_singleton.mp hreq
          rcases hhold with ⟨ho, -⟩ | ⟨-, rfl⟩
          · exact ⟨_, List.mem_singleton.mpr rfl, ho⟩
          · cases hconf
      | markUsed record user passwordHash tx =>
          cases List.mem_singleton.mp hreq
          exact (hself hok.1.1.2 (by simp)).elim
      | sweep record user passwordHash todo tx =>
          obtain ⟨id, hid, he⟩ := List.mem_map.mp hreq
          cases he
          exact ⟨_, List.mem_map_of_mem hid, hhold.1⟩
      | _ => exact absurd hreq List.not_mem_nil
  | softDelete pc =>
      cases pc with
      | delete id => exact (hidle rfl rfl rfl rfl).elim
      | sweepRefreshTokens id todo tx =>
          obtain ⟨id, hid, he⟩ := List.mem_map.mp hreq
          cases he
          exact ⟨_, List.mem_map_of_mem hid, hhold.1⟩
      | sweepResetTokens id todo tx =>
          obtain ⟨id, hid, he⟩ := List.mem_map.mp hreq
          cases he
          exact ⟨_, List.mem_map_of_mem hid, hhold.1⟩
      | _ => exact absurd hreq List.not_mem_nil
  | aborted => exact absurd hreq List.not_mem_nil

/-- A call that revokes the tokens of a user has locked the user, and keeps to `SweepsTokens`. -/
theorem revokes_spec (h : LockInvariant env place t) {userId : Uuid}
    (hr : (t.calls c).revokes = some userId) :
    t.shared.users.owner userId = some c ∧
      SweepsTokens t.shared.refreshTokens.table userId (t.calls c).tx.refreshTokens
        (t.calls c).tokensLeft := by
  have hok := h.ok c
  have hord := h.ordered c
  generalize t.calls c = call at *
  cases call with
  | resetPassword pc =>
      cases pc with
      | sweep record user passwordHash todo tx =>
          obtain rfl := Option.some.inj hr
          obtain ⟨-, -, -, ⟨u, now, hu, hh, -⟩, -⟩ := hok
          exact ⟨hu ▸ hh.2, hord⟩
      | _ => cases hr
  | softDelete pc =>
      cases pc with
      | sweepRefreshTokens id todo tx =>
          obtain rfl := Option.some.inj hr
          obtain ⟨-, u, now, hu, hh, -⟩ := hok
          exact ⟨hu ▸ hh.2, hord.1⟩
      | invalidateAll id tx =>
          obtain rfl := Option.some.inj hr
          obtain ⟨-, u, now, hu, hh, -⟩ := hok
          exact ⟨hu ▸ hh.2, hord.1⟩
      | sweepResetTokens id todo tx =>
          obtain rfl := Option.some.inj hr
          obtain ⟨-, u, now, hu, hh, -⟩ := hok
          exact ⟨hu ▸ hh.2, hord.1⟩
      | _ => cases hr
  | _ => cases hr

/-- Who has locked a refresh token, and waits: a theft that presented it, or an `UPDATE` over the tokens
    of the user that has reached it. -/
theorem owns_refreshToken (h : LockInvariant env place t) (hq : row ∈ (t.calls c).queue)
    (ho : t.shared.refreshTokens.owner k = some c) :
    (∃ p todo tx, t.calls c = .refresh (.sweep p todo tx) ∧ k = p.stored.id) ∨
      (t.calls c).revokes.isSome ∧ k ∈ (t.calls c).tx.refreshTokens.map Write.target := by
  have hcov := (h.covered c).refreshTokens ho
  have hok := h.ok c
  have hord := h.ordered c
  generalize t.calls c = call at *
  cases call with
  | refresh pc =>
      cases pc with
      | sweep p todo tx =>
          left
          refine ⟨p, todo, tx, rfl, ?_⟩
          rcases hord with rfl | ⟨x, r, rfl, rfl, -⟩
          · exact absurd hq List.not_mem_nil
          · exact (Option.some.inj (hcov.resolve_left List.not_mem_nil)).symm
      | _ => exact absurd hq List.not_mem_nil
  | resetPassword pc =>
      cases pc with
      | setPassword dto record user => exact (hcov.elim List.not_mem_nil (by simp [Call.presented])).elim
      | sweep record user passwordHash todo tx =>
          exact .inr ⟨rfl, hcov.resolve_right (by simp [Call.presented])⟩
      | _ => exact absurd hq List.not_mem_nil
  | softDelete pc =>
      cases pc with
      | sweepRefreshTokens id todo tx => exact .inr ⟨rfl, hcov.resolve_right (by simp [Call.presented])⟩
      | sweepResetTokens id todo tx => exact .inr ⟨rfl, hcov.resolve_right (by simp [Call.presented])⟩
      | _ => exact absurd hq List.not_mem_nil
  | forgotPassword pc =>
      cases pc with
      | sweep user metadata todo tx =>
          have hnone : tx.refreshTokens = [] := hok.2.2
          rw [show (Call.forgotPassword (.sweep user metadata todo tx)).tx = tx from rfl, hnone] at hcov
          exact (hcov.elim List.not_mem_nil (by simp [Call.presented])).elim
      | _ => exact absurd hq List.not_mem_nil
  | session | logout | aborted => exact absurd hq List.not_mem_nil

/-- A token in somebody's queue is not reached by another `UPDATE` over the tokens of its user, nor is
    its family. -/
theorem not_reached (h : LockInvariant env place t) {userId : Uuid} {stored : RefreshToken}
    (hr : (t.calls c).revokes = some userId) (hk : stored.id ∈ (t.calls c).tokensLeft)
    (hstored : t.shared.refreshTokens.table.get stored.id = some stored)
    (hother : t.shared.refreshTokens.owner stored.id ≠ some c) : ¬ Reached t stored.familyId := by
  rintro ⟨d, j, r, hd, ho, hj, hf⟩
  obtain ⟨hlock, hsweep⟩ := h.revokes_spec hr
  obtain ⟨userId', hd⟩ := Option.isSome_iff_exists.mp hd
  obtain ⟨hlock', hsweep'⟩ := h.revokes_spec hd
  have hnone : (t.calls d).presented = none := by
    generalize t.calls d = call at hd
    cases call with
    | refresh pc => cases hd
    | _ => rfl
  have hmem : j ∈ (t.calls d).tx.refreshTokens.map Write.target :=
    ((h.covered d).refreshTokens ho).resolve_right (by simp [hnone])
  -- both calls revoke the tokens of the user of the family, whose row one of them has locked
  obtain ⟨r', hr', hu'⟩ := hsweep'.ofUser (.inl hmem)
  obtain rfl := Option.some.inj (hr'.symm.trans hj)
  obtain ⟨x, hx, hu⟩ := hsweep.ofUser (.inr hk)
  obtain rfl := Option.some.inj (hx.symm.trans hstored)
  have husers : r'.userId = x.userId := h.chained.userId_eq (Table.get_mem hj) (Table.get_mem hx) hf
  have huser : userId' = userId := hu'.symm.trans (husers.trans hu)
  obtain rfl : d = c := Option.some.inj (hlock'.symm.trans (huser ▸ hlock))
  have hne : j ≠ x.id := by
    rintro rfl
    exact hother ho
  exact hsweep.apart (.inl hmem) hk hne hj hx hf

/-- Who has locked a user, and waits: a reset that has set the password, or a deletion. -/
theorem owns_user (h : LockInvariant env place t) (hq : row ∈ (t.calls c).queue)
    (ho : t.shared.users.owner k = some c) :
    (∃ record user passwordHash todo tx,
      t.calls c = .resetPassword (.sweep record user passwordHash todo tx)) ∨
      (t.calls c).deletes = some k := by
  have hcov := ((h.covered c).users ho).resolve_right (by simp)
  have hok := h.ok c
  have hord := h.ordered c
  generalize t.calls c = call at *
  cases call with
  | refresh pc =>
      cases pc with
      | sweep p todo tx =>
          rcases hord with rfl | ⟨x, r, rfl, rfl, -⟩
          · exact absurd hq List.not_mem_nil
          · exact absurd hcov List.not_mem_nil
      | _ => exact absurd hq List.not_mem_nil
  | resetPassword pc =>
      cases pc with
      | setPassword dto record user => exact absurd hcov List.not_mem_nil
      | sweep record user passwordHash todo tx => exact .inl ⟨record, user, passwordHash, todo, tx, rfl⟩
      | _ => exact absurd hq List.not_mem_nil
  | softDelete pc =>
      -- the buffer marks one user as deleted
      have hone : ∀ {id tx}, SoftDelete.DeletesUser c t.shared tx id →
        k ∈ tx.users.map Write.target → id = k := by
        rintro id tx ⟨u, now, rfl, -, htx⟩ hmem
        rw [htx] at hmem
        exact (List.mem_singleton.mp hmem).symm
      cases pc with
      | sweepRefreshTokens id todo tx => exact .inr (congrArg some (hone hok.2 hcov))
      | sweepResetTokens id todo tx => exact .inr (congrArg some (hone hok.2 hcov))
      | _ => exact absurd hq List.not_mem_nil
  | forgotPassword pc =>
      cases pc with
      | sweep user metadata todo tx =>
          have hnone : tx.users = [] := hok.2.1
          rw [show (Call.forgotPassword (.sweep user metadata todo tx)).tx = tx from rfl, hnone] at hcov
          exact absurd hcov List.not_mem_nil
      | _ => exact absurd hq List.not_mem_nil
  | session | logout | aborted => exact absurd hq List.not_mem_nil

/-- The link a reset was given is locked as it was read. -/
theorem record_get (h : LockInvariant env place t) {record : PasswordResetToken}
    (hr : (t.calls c).link = some record) :
    t.shared.resetTokens.table.get record.id = some record := by
  have hok := h.ok c
  generalize t.calls c = call at *
  cases call with
  | resetPassword pc =>
      cases pc with
      | findUser dto record =>
          obtain rfl := Option.some.inj hr
          exact hok.1.1
      | setPassword dto record user =>
          obtain rfl := Option.some.inj hr
          exact hok.1.1.1
      | markUsed record user passwordHash tx =>
          obtain rfl := Option.some.inj hr
          exact hok.1.1.1
      | revokeAll record user passwordHash tx =>
          obtain rfl := Option.some.inj hr
          exact hok.1.1.1
      | sweep record user passwordHash todo tx =>
          obtain rfl := Option.some.inj hr
          exact hok.1.1.1
      | _ => cases hr
  | _ => cases hr

/-- Who has locked a link, and waits: the reset it was given to, or an `UPDATE` over links that has
    reached it. -/
theorem owns_resetToken (h : LockInvariant env place t) (hq : row ∈ (t.calls c).queue)
    (ho : t.shared.resetTokens.owner k = some c) :
    (∃ record, (t.calls c).link = some record ∧ record.id = k ∧ ∀ n, toLex (2, n) < rank place t c) ∨
      ∃ todo, rank place t c = toLex (2, leastPlace place todo) ∧ todo ≠ [] ∧
        ∀ j ∈ todo, place k < place j := by
  have hcov := (h.covered c).resetTokens ho
  have hok := h.ok c
  have hord := h.ordered c
  unfold rank
  generalize t.calls c = call at *
  cases call with
  | refresh pc =>
      cases pc with
      | sweep p todo tx =>
          rcases hord with rfl | ⟨x, r, rfl, rfl, -⟩
          · exact absurd hq List.not_mem_nil
          · exact (hcov.elim List.not_mem_nil (by simp [Call.link])).elim
      | _ => exact absurd hq List.not_mem_nil
  | resetPassword pc =>
      cases pc with
      | setPassword dto record user =>
          refine .inl ⟨record, rfl, Option.some.inj (hcov.resolve_left List.not_mem_nil), fun n => ?_⟩
          exact level_lt (by decide)
      | sweep record user passwordHash todo tx =>
          obtain ⟨-, -, -, -, now, htx⟩ := hok
          refine .inl ⟨record, rfl, ?_, fun n => level_lt (by decide)⟩
          rcases hcov with hmem | hrecord
          · rw [show (Call.resetPassword (.sweep record user passwordHash todo tx)).tx =
              tx from rfl, htx] at hmem
            exact (List.mem_singleton.mp hmem).symm
          · exact Option.some.inj hrecord
      | _ => exact absurd hq List.not_mem_nil
  | softDelete pc =>
      cases pc with
      | sweepRefreshTokens id todo tx =>
          rw [show (Call.softDelete (.sweepRefreshTokens id todo tx)).tx = tx from rfl, hord.2] at hcov
          exact (hcov.elim List.not_mem_nil (by simp [Call.link])).elim
      | sweepResetTokens id todo tx =>
          refine .inr ⟨todo, rfl, ?_,
            fun j hj => hord.2.inOrder (hcov.resolve_right (by simp [Call.link])) hj⟩
          rintro rfl
          exact absurd hq List.not_mem_nil
      | _ => exact absurd hq List.not_mem_nil
  | forgotPassword pc =>
      cases pc with
      | sweep user metadata todo tx =>
          refine .inr ⟨todo, rfl, ?_,
            fun j hj => hord.inOrder (hcov.resolve_right (by simp [Call.link])) hj⟩
          rintro rfl
          exact absurd hq List.not_mem_nil
      | _ => exact absurd hq List.not_mem_nil
  | session | logout | aborted => exact absurd hq List.not_mem_nil

/-! ### The rank grows -/

theorem lt_rank_of_revokes (hr : (t.calls c).revokes.isSome) (hq : row ∈ (t.calls c).queue) (n : Nat) :
    toLex (0, n) < rank place t c := by
  unfold rank
  generalize t.calls c = call at *
  cases call with
  | resetPassword pc =>
      cases pc with
      | sweep record user passwordHash todo tx => exact level_lt (by decide)
      | _ => cases hr
  | softDelete pc =>
      cases pc with
      | sweepRefreshTokens id todo tx => exact level_lt (by decide)
      | sweepResetTokens id todo tx => exact level_lt (by decide)
      | invalidateAll id tx => exact absurd hq List.not_mem_nil
      | _ => cases hr
  | _ => cases hr

/-- A theft waits for the token after the one it was presented. -/
theorem theft_lt (h : LockInvariant env place t) {p : Refresh.Presented} {todo : List Uuid} {tx : Tx}
    (hc : t.calls c = .refresh (.sweep p todo tx)) (hk : k ∈ todo)
    (ho : t.shared.refreshTokens.owner k = some d)
    (hq : row ∈ (t.calls d).queue) : rank place t c < rank place t d := by
  have hord := h.ordered c
  rw [hc] at hord
  rcases hord with rfl | ⟨x, r, rfl, rfl, hr, hf, hlt⟩
  · exact absurd hk List.not_mem_nil
  obtain rfl := List.mem_singleton.mp hk
  rcases h.owns_refreshToken hq ho with ⟨p', todo', tx', hd, rfl⟩ | ⟨hrev, -⟩
  · -- another theft: it was presented the later token, of the same family
    have hok := h.ok d
    rw [hd] at hok
    have hstored : t.shared.refreshTokens.table.get p'.stored.id = some p'.stored := hok.1.1.1
    obtain rfl : r = p'.stored := Option.some.inj (hr.symm.trans hstored)
    simp only [rank, hc, hd]
    refine Prod.Lex.toLex_lt_toLex.mpr (.inr ⟨?_, hlt⟩)
    rw [hf]
  · -- an `UPDATE` that has reached the family
    have hreached : Reached t p.stored.familyId := ⟨d, k, r, hrev, ho, hr, hf⟩
    have hrank : rank place t c = toLex (0, t.shared.refreshTokens.table.index p.stored.id) := by
      simp only [rank, hc, if_pos hreached]
    rw [hrank]
    exact lt_rank_of_revokes hrev hq _

/-- An `UPDATE` over the tokens of a user waits for thefts about families it has yet to reach. -/
theorem revoke_lt (h : LockInvariant env place t) {userId : Uuid}
    (hr : (t.calls c).revokes = some userId)
    (hk : k ∈ (t.calls c).tokensLeft) (ho : t.shared.refreshTokens.owner k = some d) (hne : c ≠ d)
    (hq : row ∈ (t.calls d).queue) {i n : Nat} (hi : i < 5) : toLex (i, n) < rank place t d := by
  rcases h.owns_refreshToken hq ho with ⟨p, todo, tx, hd, rfl⟩ | ⟨hrev, hmem⟩
  · have hok := h.ok d
    rw [hd] at hok
    have hstored : t.shared.refreshTokens.table.get p.stored.id = some p.stored := hok.1.1.1
    have hnot : ¬ Reached t p.stored.familyId := by
      refine h.not_reached hr hk hstored ?_
      rw [ho]
      simpa using Ne.symm hne
    simp only [rank, hd, if_neg hnot]
    exact level_lt hi
  · -- another `UPDATE` would have the user locked as well
    exfalso
    obtain ⟨hlock, hsweep⟩ := h.revokes_spec hr
    obtain ⟨userId', hrev⟩ := Option.isSome_iff_exists.mp hrev
    obtain ⟨hlock', hsweep'⟩ := h.revokes_spec hrev
    obtain ⟨r, hget, hu⟩ := hsweep.ofUser (.inr hk)
    obtain ⟨r', hget', hu'⟩ := hsweep'.ofUser (.inl hmem)
    obtain rfl := Option.some.inj (hget'.symm.trans hget)
    have huser : userId' = userId := hu'.symm.trans hu
    exact hne (Option.some.inj ((huser ▸ hlock).symm.trans hlock'))

/-- **The rank grows** along the waits of calls that wait and are waited for. -/
theorem rank_lt (h : LockInvariant env place t) (hin : (accountLocks env t).Inner c d) :
    rank place t c < rank place t d := by
  obtain ⟨row, hrow, ho⟩ := h.queue_of_waits hin.waits hin.waitedFor
  obtain ⟨e, he⟩ := hin.waiting
  obtain ⟨row', hq, -⟩ := h.queue_of_waits he ⟨c, hin.waits⟩
  have hne : c ≠ d := hin.waits.1
  have hord := h.ordered c
  have hok := h.ok c
  cases hc : t.calls c with
  | refresh pc =>
      rw [hc] at hrow
      cases pc with
      | sweep p todo tx =>
          obtain ⟨k, hk, rfl⟩ := List.mem_map.mp hrow
          exact h.theft_lt hc hk ho hq
      | _ => exact absurd hrow List.not_mem_nil
  | resetPassword pc =>
      rw [hc] at hrow hok
      cases pc with
      | setPassword dto record user =>
          obtain rfl := List.mem_singleton.mp hrow
          have hrank : rank place t c = toLex (3, 0) := by simp only [rank, hc]
          rw [hrank]
          rcases h.owns_user hq ho with ⟨record', user', passwordHash, todo, tx, hd⟩ | hdel
          · have hrank' : rank place t d = toLex (4, 0) := by simp only [rank, hd]
            rw [hrank']
            exact level_lt (by decide)
          · -- a deletion of the user would overlap
            have hresets : (t.calls c).resets = some user.id := by
              rw [hc, hok.2.1]
              rfl
            exact absurd hdel (h.apart hresets)
      | sweep record user passwordHash todo tx =>
          obtain ⟨k, hk, rfl⟩ := List.mem_map.mp hrow
          have hrank : rank place t c = toLex (4, 0) := by simp only [rank, hc]
          rw [hrank]
          have hrevokes : (t.calls c).revokes = some user.id := by
            rw [hc]
            rfl
          have hleft : k ∈ (t.calls c).tokensLeft := by
            rw [hc]
            exact hk
          exact h.revoke_lt hrevokes hleft ho hne hq (by decide)
      | _ => exact absurd hrow List.not_mem_nil
  | softDelete pc =>
      rw [hc] at hrow hord
      cases pc with
      | sweepRefreshTokens id todo tx =>
          obtain ⟨k, hk, rfl⟩ := List.mem_map.mp hrow
          have hrank : rank place t c = toLex (1, 0) := by simp only [rank, hc]
          rw [hrank]
          have hrevokes : (t.calls c).revokes = some id := by
            rw [hc]
            rfl
          have hleft : k ∈ (t.calls c).tokensLeft := by
            rw [hc]
            exact hk
          exact h.revoke_lt hrevokes hleft ho hne hq (by decide)
      | sweepResetTokens id todo tx =>
          obtain ⟨k, hk, rfl⟩ := List.mem_map.mp hrow
          have hrank : rank place t c = toLex (2, leastPlace place todo) := by simp only [rank, hc]
          rw [hrank]
          rcases h.owns_resetToken hq ho with ⟨record, hrec, rfl, -⟩ | ⟨todo', hrank', hnil, hbefore⟩
          · -- a reset with a link of the user would overlap
            obtain ⟨r, hr, hu⟩ := hord.2.ofUser hk
            obtain rfl := Option.some.inj (hr.symm.trans (h.record_get hrec))
            have hresets : (t.calls d).resets = some id := by
              rw [Call.resets, hrec, ← hu]
              rfl
            exact absurd (by rw [hc]; rfl) (h.apart (d := c) hresets)
          · rw [hrank']
            exact Prod.Lex.toLex_lt_toLex.mpr (.inr ⟨rfl, leastPlace_lt hk hnil hbefore⟩)
      | _ => exact absurd hrow List.not_mem_nil
  | forgotPassword pc =>
      rw [hc] at hrow
      cases pc with
      | sweep user metadata todo tx =>
          obtain ⟨k, hk, rfl⟩ := List.mem_map.mp hrow
          have hrank : rank place t c = toLex (2, leastPlace place todo) := by simp only [rank, hc]
          rw [hrank]
          rcases h.owns_resetToken hq ho with ⟨-, -, -, hlt⟩ | ⟨todo', hrank', hnil, hbefore⟩
          · exact hlt _
          · rw [hrank']
            exact Prod.Lex.toLex_lt_toLex.mpr (.inr ⟨rfl, leastPlace_lt hk hnil hbefore⟩)
      | _ => exact absurd hrow List.not_mem_nil
  | session | logout | aborted =>
      rw [hc] at hrow
      exact absurd hrow List.not_mem_nil

end LockInvariant

end NestApp
