import NestApp.Lib.Linked
import NestApp.Auth.Service

/-!
# `Auth.Family` — a family of refresh tokens is one linear chain

`createSession` opens a family with one token; every rotation appends the next one and links the
presented token to it. Seen family by family, a step of any of the operations is one of three moves
(`FamilyStep`): revoke some tokens in place, open an empty family, or extend the family at its end. The
last move is only possible at the last token because only that one can be live — which is the invariant
itself (`Chained`, `TokenStep.family`).

`reachable_families` adds what ties the chains to the calls: the first token of a family is the one a
`createSession` call handed out, hashes are unique, and a token value that was accepted is spent.
-/

namespace NestApp

open Sql

/-! ## Chains

A family is the list of its tokens in the order of insertion. It is linked: each token but the last
points to its successor and is revoked, and the last one points nowhere. A revocation rewrites the list
in place, and a rotation makes it one longer. -/

/-- The tokens of family `f`, in the order of insertion. -/
def familyOf (t : Table RefreshToken) (f : Uuid) : List RefreshToken :=
  t.rows.filter fun r => r.familyId = f

/-- `a` was rotated to `b`. -/
structure ReplacedBy (a b : RefreshToken) : Prop where
  usedAt            : a.usedAt.isSome
  revokedAt         : a.revokedAt.isSome
  replacedByTokenId : a.replacedByTokenId = some b.id
  userId            : b.userId = a.userId

/-- The token was never rotated. -/
structure Latest (a : RefreshToken) : Prop where
  usedAt            : a.usedAt = none
  replacedByTokenId : a.replacedByTokenId = none

/-- Every family is one linear chain. Only the last token of a chain can be live, so a family has at
    most one live token. -/
def Chained (t : Table RefreshToken) : Prop := ∀ f, Linked ReplacedBy Latest (familyOf t f)

/-- One step, seen from one family: its tokens are revoked in place, it is opened, or a live token is
    rotated. -/
inductive FamilyStep : List RefreshToken → List RefreshToken → Prop where
  | revoked {l l' : List RefreshToken}
      (rows : List.Forall₂ (fun r r' => key r' = key r ∧ Revoked r r') l l') :
      FamilyStep l l'
  | opened (row : RefreshToken) (latest : Latest row) : FamilyStep [] [row]
  | rotated (l : List RefreshToken) (stored next : RefreshToken) (now : Nat)
      (userId : next.userId = stored.userId)
      (latest : Latest next) : FamilyStep (l ++ [stored]) (l ++ [rotate now next.id stored, next])

theorem FamilyStep.refl (l : List RefreshToken) : FamilyStep l l :=
  .revoked (List.forall₂_same.mpr fun r _ => ⟨rfl, Revoked.refl r⟩)

/-- **Step.** A family stays a chain. -/
theorem FamilyStep.linked {l l' : List RefreshToken} (h : FamilyStep l l')
    (hl : Linked ReplacedBy Latest l) :
    Linked ReplacedBy Latest l' := by
  cases h with
  | revoked rows =>
      -- revoking touches none of the fields that link one token to the next
      refine hl.forall₂ rows ?_ ?_
      · rintro a b a' b' hab ⟨-, ts, rfl, hts⟩ ⟨hkey, ts', rfl, -⟩
        exact ⟨hab.usedAt, hts hab.revokedAt, hab.replacedByTokenId, hab.userId⟩
      · rintro a a' ha ⟨-, ts, rfl, -⟩
        exact ⟨ha.usedAt, ha.replacedByTokenId⟩
  | opened row latest => exact .last latest
  | rotated l stored next now userId latest =>
      exact hl.extend (fun hx => ⟨hx.usedAt, hx.revokedAt, hx.replacedByTokenId, hx.userId⟩)
        ⟨rfl, rfl, rfl, userId⟩ latest

/-- The first token of a family stays the first. -/
theorem FamilyStep.head {l l' : List RefreshToken} (h : FamilyStep l l') (hl : l ≠ []) :
    l'.head?.map RefreshToken.id = l.head?.map RefreshToken.id := by
  cases h with
  | revoked rows =>
      cases rows with
      | nil => rfl
      | cons hr _ => exact congrArg some hr.1
  | opened row _ => exact absurd rfl hl
  | rotated l stored next now _ _ => cases l <;> rfl

variable {C : Type} [DecidableEq C] {env : Env} {c d : C} {db db' : Db C} {call call' : Call}

theorem mem_familyOf {t : Table RefreshToken} {f : Uuid} {r : RefreshToken} :
    r ∈ familyOf t f ↔ r ∈ t.rows ∧ r.familyId = f := by simp [familyOf]

/-- The rows after a rotation: the presented token in place, the next one at the end. -/
theorem rows_rotated {t : Table RefreshToken} {stored stored' next : RefreshToken}
    (hs : t.get stored.id = some stored) (hs' : stored'.id = stored.id) (hn : t.get next.id = none) :
    ∃ l₁ l₂, t.rows = l₁ ++ stored :: l₂ ∧
      ((t.put next).put stored').rows = l₁ ++ stored' :: (l₂ ++ [next]) := by
  have hne : stored.id ≠ next.id := Table.ne_of_get_none hs hn
  -- `stored'` overwrites the presented token, which `next` left in place
  have hget : (t.put next).get (key stored') = some stored := by
    rw [key_refreshToken, hs', Table.get_put_of_ne t next hne, hs]
  obtain ⟨l₁, l₂, hold, hnew⟩ := Table.rows_put_split hget
  rw [Table.rows_put_new hn] at hold
  -- the last row is `next`, so it lies behind the presented token
  rcases List.eq_nil_or_concat l₂ with rfl | ⟨l₂, x, rfl⟩
  · have heq := List.append_inj_right' hold rfl
    exact absurd (congrArg RefreshToken.id (List.singleton_inj.mp heq)).symm hne
  · rw [List.concat_eq_append] at hold hnew
    have hold' : t.rows ++ [next] = (l₁ ++ stored :: l₂) ++ [x] := by simpa using hold
    obtain rfl : next = x := List.singleton_inj.mp (List.append_inj_right' hold' rfl)
    exact ⟨l₁, l₂, List.append_inj_left' hold' rfl, hnew⟩

omit [DecidableEq C] in
/-- **A step of the operations is a step of every family**: of the one it is about, and of all others as
    well. -/
theorem TokenStep.family (h : TokenStep env c db db' call call') (hc : Chained db.refreshTokens.table)
    (f : Uuid) : FamilyStep (familyOf db.refreshTokens.table f)
      (familyOf db'.refreshTokens.table f) := by
  cases h with
  | revoked rows _ =>
      -- row by row the family id is kept, so the two filters select the same positions
      refine .revoked (List.rel_filter ?_ rows)
      rintro r r' ⟨-, ts, rfl, -⟩
      rfl
  | opened user metadata row _ live last newFamily newId _ table _ =>
      rw [table, familyOf, familyOf, Table.rows_put_new newId, List.filter_append]
      by_cases hf : row.familyId = f
      · subst hf
        -- `randomUUID()` gave an id no family has
        have hempty : db.refreshTokens.table.rows.filter (fun r => r.familyId = row.familyId) = [] :=
          List.filter_eq_nil_iff.mpr fun r hr => by simpa using newFamily r hr
        simp only [hempty, decide_true, List.filter_singleton, List.nil_append]
        exact .opened row ⟨live.2, last⟩
      · simpa [hf] using FamilyStep.refl _
  | rotated p user next now held live isNext table _ =>
      have hid : (rotate now next.id p.stored).id = p.stored.id := rfl
      obtain ⟨l₁, l₂, hold, hnew⟩ := rows_rotated held.1.1 hid isNext.new
      have hchain := hc f
      rw [familyOf, hold, List.filter_append, List.filter_cons] at hchain
      rw [table, familyOf, familyOf, hold, hnew, List.filter_append, List.filter_append,
        List.filter_cons,
        List.filter_cons, List.filter_append, List.filter_singleton]
      by_cases hf : p.stored.familyId = f
      · -- the presented token is live, so it is the last of its family
        have hnext : next.familyId = f := isNext.familyId.trans hf
        have hrot : (rotate now next.id p.stored).familyId = f := hf
        simp only [hf, hnext, hrot, decide_true, if_true] at hchain ⊢
        have hlast := hchain.eq_nil_of_last fun hab => by simpa [live.2] using hab.usedAt
        rw [hlast]
        exact .rotated _ p.stored next now isNext.userId ⟨isNext.live.2, isNext.last⟩
      · have hnext : next.familyId ≠ f := fun he => hf (isNext.familyId.symm.trans he)
        have hrot : (rotate now next.id p.stored).familyId ≠ f := hf
        simpa [hf, hnext, hrot] using FamilyStep.refl _

omit [DecidableEq C] in
theorem TokenStep.chained (h : TokenStep env c db db' call call') (hc : Chained db.refreshTokens.table) :
    Chained db'.refreshTokens.table := fun f => (h.family hc f).linked (hc f)

omit [DecidableEq C] in
/-- The first token of a family comes from `createSession`. -/
theorem TokenStep.opener (h : TokenStep env c db db' call call') {f : Uuid}
    (hempty : familyOf db.refreshTokens.table f = []) {r : RefreshToken}
    (hr : r ∈ familyOf db'.refreshTokens.table f) : ∃ user, call' = .session (.done user r) := by
  have hnone : ∀ x ∈ db.refreshTokens.table.rows, x.familyId ≠ f := by
    intro x hx hf
    have hmem := mem_familyOf.mpr ⟨hx, hf⟩
    rw [hempty] at hmem
    cases hmem
  obtain ⟨hrows, hf⟩ := mem_familyOf.mp hr
  -- the token is in no earlier family, so the step handed it out; a rotation would have needed a member
  rcases h.origin hrows with ⟨x, hx, hadv⟩ | ⟨hissued, -, -⟩
  · exact absurd (hadv.familyId.symm.trans hf) (hnone x hx)
  · rcases h.issued hissued with ⟨user, -, -, hcall, -⟩ | ⟨p, -, -, -, hp, -, hpf, -⟩
    · exact ⟨user, hcall⟩
    · exact absurd (hpf.symm.trans hf) (hnone p.stored hp)

/-! ## Chains and calls

The table alone does not say which calls have handed out a token. The invariant ties each family to the
`createSession` that opened it and each hash to the one call that generated it, so that a token value
that was accepted once is known to be spent. -/

/-- The committed refresh tokens. -/
def State.tokens (s : State C) : List RefreshToken := s.shared.refreshTokens.table.rows

/-- A `createSession` call handed out the token with id `k`. -/
def OpenedAs (s : State C) (k : Uuid) : Prop :=
  ∃ c user row, s.calls c = .session (.done user row) ∧ row.id = k

/-- Call `c` presented `token` and was answered `ok`. A finished call keeps its answer, so this stays. -/
def Accepted (s : State C) (c : C) (token : String) : Prop :=
  ∃ stored user next, s.calls c = .refresh (.done token stored (.ok user next))

/-- The invariant: chains, each begun by `createSession`; hashes name one token; accepted values are
    spent. -/
structure FamilyInvariant (env : Env) (s : State C) : Prop where
  chained : Chained s.shared.refreshTokens.table
  hashes  : ∀ r ∈ s.tokens, s.shared.hashIndex r.tokenHash = some r.id
  roots   : ∀ k, OpenedAs s k ↔
    ∃ f, (familyOf s.shared.refreshTokens.table f).head?.map RefreshToken.id = some k
  spent   : ∀ c token, Accepted s c token →
    ∃ r ∈ s.tokens, r.tokenHash = env.hashToken token ∧ r.revokedAt.isSome
  once    : ∀ c d token, Accepted s c token → Accepted s d token → c = d

variable {s t u : State C} {a : Act}

omit [DecidableEq C] in
theorem initial_families (hi : Initial s) : FamilyInvariant env s := by
  have hrows : s.tokens = [] := by rw [State.tokens, hi.refreshTokens]; rfl
  have hfamily : ∀ f, familyOf s.shared.refreshTokens.table f = [] := by
    intro f
    rw [familyOf, show s.shared.refreshTokens.table.rows = [] from hrows]
    rfl
  have haccepted : ∀ c token, ¬ Accepted s c token := by
    rintro c token ⟨stored, user, next, hc⟩
    have hreq := hi.requests c
    rw [hc] at hreq
    exact hreq
  refine ⟨fun f => (hfamily f).symm ▸ .nil, by simp [hrows], fun k => ⟨?_, ?_⟩,
    fun c token h => absurd h (haccepted c token), fun c d token h => absurd h (haccepted c token)⟩
  · -- no call has started, so none has handed out a token
    rintro ⟨c, user, row, hc, -⟩
    have hreq := hi.requests c
    rw [hc] at hreq
    exact hreq.elim
  · rintro ⟨f, hf⟩
    rw [hfamily f] at hf
    cases hf

omit [DecidableEq C] in
/-- Two tokens with one hash are one token. -/
theorem FamilyInvariant.eq_of_hash (h : FamilyInvariant env s) {r r' : RefreshToken} (hr : r ∈ s.tokens)
    (hr' : r' ∈ s.tokens) (heq : r.tokenHash = r'.tokenHash) : r = r' := by
  refine Table.eq_of_key_eq hr hr' ?_
  have hidx := h.hashes r hr
  rw [heq, h.hashes r' hr'] at hidx
  exact (Option.some.inj hidx).symm

/-- The calls that handed out a first token stay the openers of exactly the families there are. -/
theorem step_roots (hok : CallOk env c t.shared (t.calls c)) (h : FamilyInvariant env t)
    (hc : exec env c t.shared (t.calls c) a = some (db', call')) (k : Uuid) :
    OpenedAs ⟨db', Function.update t.calls c call'⟩ k ↔
      ∃ f, (familyOf db'.refreshTokens.table f).head?.map RefreshToken.id = some k := by
  have htok := exec_tokens hc hok
  have hstep := htok.family h.chained
  constructor
  · rintro ⟨d, user, row, hd, rfl⟩
    by_cases hdc : d = c
    · subst hdc
      obtain rfl : call' = .session (.done user row) := by simpa using hd
      generalize t.calls d = call at htok
      cases htok with
      | revoked _ noToken => cases noToken
      | opened _ metadata _ _ _ _ newFamily newId _ table _ =>
          refine ⟨row.familyId, ?_⟩
          have hempty : familyOf t.shared.refreshTokens.table row.familyId = [] :=
            List.filter_eq_nil_iff.mpr fun r hr => by simpa using newFamily r hr
          rw [table, familyOf, Table.rows_put_new newId, List.filter_append]
          rw [familyOf] at hempty
          simp [hempty]
    · replace hd : t.calls d = _ := (Function.update_of_ne hdc call' t.calls).symm.trans hd
      -- another call opened the family before, and its first token stays the first
      obtain ⟨f, hf⟩ := (h.roots row.id).mp ⟨d, user, row, hd, rfl⟩
      refine ⟨f, ((hstep f).head ?_).trans hf⟩
      intro hnil
      rw [hnil] at hf
      cases hf
  · rintro ⟨f, hf⟩
    by_cases hnil : familyOf t.shared.refreshTokens.table f = []
    · obtain ⟨r, hr, rfl⟩ := Option.map_eq_some_iff.mp hf
      -- the family is new, so this step opened it
      obtain ⟨user, rfl⟩ := htok.opener hnil (List.mem_of_mem_head? hr)
      exact ⟨c, user, r, by simp, rfl⟩
    · obtain ⟨d, user, row, hd, hk⟩ := (h.roots k).mpr ⟨f, ((hstep f).head hnil).symm.trans hf⟩
      refine ⟨d, user, row, ?_, hk⟩
      -- `d` has returned, so it is not the call that steps
      have hne : d ≠ c := by
        rintro rfl
        have hrun := exec_running hc
        rw [hd] at hrun
        cases hrun
      exact (Function.update_of_ne hne _ _).trans hd

/-- An acceptance is an old one, or the rotation of a live token under way — which is now spent. -/
theorem step_accepted (hok : CallOk env c t.shared (t.calls c))
    (hc : exec env c t.shared (t.calls c) a = some (db', call')) {token : String}
    (h : Accepted ⟨db', Function.update t.calls c call'⟩ d token) :
    (d ≠ c ∧ Accepted t d token) ∨
      (d = c ∧ (∃ r ∈ t.tokens, r.tokenHash = env.hashToken token ∧ r.Live) ∧
        ∃ r ∈ db'.refreshTokens.table.rows, r.tokenHash = env.hashToken token ∧ r.revokedAt.isSome) := by
  obtain ⟨stored, user, next, hd⟩ := h
  by_cases hdc : d = c
  · subst hdc
    obtain rfl : call' = .refresh (.done token stored (.ok user next)) := by simpa using hd
    have htok := exec_tokens hc hok
    generalize t.calls d = call at htok
    cases htok with
    | revoked _ noToken => cases noToken
    | rotated p _ _ now held live _ table _ =>
        refine .inr ⟨rfl, ⟨p.stored, Table.get_mem held.1.1, held.2, live⟩,
          rotate now next.id p.stored, ?_,
          held.2, rfl⟩
        rw [table]
        exact Table.mem_put.mpr (.inl rfl)
  · replace hd : t.calls d = _ := (Function.update_of_ne hdc call' t.calls).symm.trans hd
    exact .inl ⟨hdc, stored, user, next, hd⟩

/-- **Step.** Every family stays a chain, with its opener and the calls that were accepted accounted
    for. -/
theorem step_families (hok : CallOk env c t.shared (t.calls c)) (h : FamilyInvariant env t)
    (hst : Pool.step (exec env) t c a = some u) : FamilyInvariant env u := by
  obtain ⟨db', call', hc, rfl⟩ := Pool.step_cases hst
  have hframe := (exec_ok hc hok).2
  have htok := exec_tokens hc hok
  -- a value accepted before is spent: no token still live has its hash
  have hspent : ∀ {d token}, Accepted t d token →
      ¬ ∃ r ∈ t.tokens, r.tokenHash = env.hashToken token ∧ r.Live := by
    rintro d token hacc ⟨r, hr, hhash, hlive⟩
    obtain ⟨x, hx, hhash', hrev⟩ := h.spent d token hacc
    obtain rfl := h.eq_of_hash hr hx (hhash.trans hhash'.symm)
    rw [hlive.1] at hrev
    cases hrev
  refine ⟨htok.chained h.chained, ?_, step_roots hok h hc, ?_, ?_⟩
  · intro r' hr'
    rcases htok.origin hr' with ⟨r, hr, hadv⟩ | ⟨-, -, hidx⟩
    · rw [hadv.tokenHash, hadv.id]
      exact hframe.hashIndex (h.hashes r hr)
    · exact hidx
  · intro d token hacc
    rcases step_accepted hok hc hacc with ⟨-, hacc'⟩ | ⟨-, -, hr⟩
    · obtain ⟨r, hr, hhash, hrev⟩ := h.spent d token hacc'
      obtain ⟨r', hr', hadv⟩ := htok.kept hr
      exact ⟨r', hr', hadv.tokenHash.trans hhash, hadv.revokedAt hrev⟩
    · exact hr
  · -- two acceptances of one value: the later would have needed a token that is both live and spent
    intro d e token hd he
    rcases step_accepted hok hc hd with ⟨-, hd'⟩ | ⟨rfl, hlive, -⟩
    · rcases step_accepted hok hc he with ⟨-, he'⟩ | ⟨-, hlive, -⟩
      · exact h.once d e token hd' he'
      · exact absurd hlive (hspent hd')
    · rcases step_accepted hok hc he with ⟨-, he'⟩ | ⟨rfl, -, -⟩
      · exact absurd hlive (hspent he')
      · rfl

/-- **Run.** The invariant holds in every state of a run, whatever the order of the steps. -/
theorem reachable_families {ok : StepCondition C} (hr : Pool.Run (exec env) ok s t) (hi : Initial s) :
    FamilyInvariant env t :=
  hr.invariant_with (J := fun t => ∀ c, CallOk env c t.shared (t.calls c))
    (fun hr' => reachable_ok hr' hi)
    (fun hJ h _ hst => step_families (hJ _) h hst) (initial_families hi)

/-- A token, once committed, stays, and stays revoked once it is. -/
theorem tokens_advance {ok : StepCondition C} (hi : Initial s) (hst : Pool.Run (exec env) ok s t)
    (htu : Pool.Run (exec env) ok t u) {r : RefreshToken} (hr : r ∈ t.tokens) :
    ∃ r' ∈ u.tokens, Advanced r r' := by
  refine htu.relates (R := fun (t u : State C) => ∀ r ∈ t.tokens, ∃ r' ∈ u.tokens, Advanced r r')
    (fun t r hr => ⟨r, hr, .refl r⟩) ?_ (J := fun t => ∀ c, CallOk env c t.shared (t.calls c))
    (fun hr' => reachable_ok (hst.trans hr') hi) ?_ r hr
  · intro t u v htu huv r hr
    obtain ⟨r', hr', hadv⟩ := htu r hr
    obtain ⟨r'', hr'', hadv'⟩ := huv r' hr'
    exact ⟨r'', hr'', hadv.trans hadv'⟩
  · intro t c a u hL _ hstep r hr
    obtain ⟨db', call', hc, rfl⟩ := Pool.step_cases hstep
    exact (exec_tokens hc (hL c)).kept hr

/-! ## The families of a reachable state -/

/-- `q` is linked to `r`: `r` replaced it. -/
def Replaces (s : State C) (r q : RefreshToken) : Prop := q ∈ s.tokens ∧ q.replacedByTokenId = some r.id

/-- Every `familyId` is one linear chain, with at most one live token. -/
structure LinearFamilies (s : State C) : Prop where
  oneLive : ∀ r ∈ s.tokens, ∀ r' ∈ s.tokens, r.familyId = r'.familyId →
    r.revokedAt = none → r'.revokedAt = none → r = r'
  used : ∀ r ∈ s.tokens, r.usedAt.isSome → r.revokedAt.isSome ∧
    ∃ next ∈ s.tokens, r.replacedByTokenId = some next.id ∧ next.familyId = r.familyId ∧
      next.userId = r.userId
  replacesOne : ∀ r ∈ s.tokens, ∀ q q', Replaces s r q → Replaces s r q' → q = q'
  /-- the token of `createSession` replaces none, every other one exactly one, of its own family -/
  origin : ∀ r ∈ s.tokens, (OpenedAs s r.id ∧ ∀ q, ¬ Replaces s r q) ∨
    (¬ OpenedAs s r.id ∧ ∃ q, Replaces s r q ∧ q.familyId = r.familyId ∧ ∀ q', Replaces s r q' → q' = q)
  oneRoot : ∀ r ∈ s.tokens, ∃ root ∈ s.tokens, root.familyId = r.familyId ∧ OpenedAs s root.id ∧
    ∀ root' ∈ s.tokens, root'.familyId = r.familyId → OpenedAs s root'.id → root' = root
  chain : ∀ f, Linked ReplacedBy Latest (familyOf s.shared.refreshTokens.table f)

section

omit [DecidableEq C]

theorem nodup_familyOf (t : Table RefreshToken) (f : Uuid) :
    ((familyOf t f).map RefreshToken.id).Nodup :=
  t.nodup.sublist (List.filter_sublist.map _)

theorem FamilyInvariant.next_mem (h : FamilyInvariant env s) {q : RefreshToken}
    (hq : q ∈ s.tokens) {k : Uuid}
    (hk : q.replacedByTokenId = some k) :
    ∃ next ∈ s.tokens, next.id = k ∧ next.familyId = q.familyId ∧ ReplacedBy q next := by
  have hmem : q ∈ familyOf s.shared.refreshTokens.table q.familyId := mem_familyOf.mpr ⟨hq, rfl⟩
  rcases (h.chained q.familyId).next_or_last hmem with ⟨next, hnext, hrep⟩ | ⟨hlatest, -⟩
  · obtain ⟨hrows, hf⟩ := mem_familyOf.mp hnext
    exact ⟨next, hrows, Option.some.inj (hrep.replacedByTokenId.symm.trans hk), hf, hrep⟩
  · rw [hlatest.replacedByTokenId] at hk
    cases hk

/-- A token is linked to inside its own family. -/
theorem FamilyInvariant.replaces_family (h : FamilyInvariant env s) {r q : RefreshToken}
    (hr : r ∈ s.tokens)
    (hq : Replaces s r q) : q ∈ familyOf s.shared.refreshTokens.table r.familyId := by
  obtain ⟨next, hnext, hid, hf, -⟩ := h.next_mem hq.1 hq.2
  obtain rfl : next = r := Table.eq_of_key_eq hnext hr hid
  exact mem_familyOf.mpr ⟨hq.1, hf.symm⟩

theorem FamilyInvariant.replaces_unique (h : FamilyInvariant env s) {r q q' : RefreshToken}
    (hr : r ∈ s.tokens)
    (hq : Replaces s r q) (hq' : Replaces s r q') : q = q' :=
  -- along a chain the links point to different tokens
  List.inj_on_of_nodup_map
    ((h.chained r.familyId).nodup_next ReplacedBy.replacedByTokenId Latest.replacedByTokenId
      (nodup_familyOf _ _))
    (h.replaces_family hr hq) (h.replaces_family hr hq') (hq.2.trans hq'.2.symm)

/-- The first token of a family replaces none. -/
theorem FamilyInvariant.head_replaces (h : FamilyInvariant env s) {r : RefreshToken} (hr : r ∈ s.tokens)
    (hhead : (familyOf s.shared.refreshTokens.table r.familyId).head? = some r) (q : RefreshToken) :
    ¬ Replaces s r q := by
  intro hq
  have hmem := h.replaces_family hr hq
  have hchain := h.chained r.familyId
  have hnodup := nodup_familyOf s.shared.refreshTokens.table r.familyId
  obtain ⟨l, hl⟩ : ∃ l, familyOf s.shared.refreshTokens.table r.familyId = r :: l :=
    ⟨_, (List.cons_head?_tail hhead).symm⟩
  rw [hl] at hmem hchain hnodup
  exact hchain.next_ne_head ReplacedBy.replacedByTokenId Latest.replacedByTokenId hnodup hmem hq.2

/-- The token `createSession` handed out is the first of its family. -/
theorem FamilyInvariant.opened_iff (h : FamilyInvariant env s) {r : RefreshToken} (hr : r ∈ s.tokens) :
    OpenedAs s r.id ↔ (familyOf s.shared.refreshTokens.table r.familyId).head? = some r := by
  rw [h.roots r.id]
  constructor
  · rintro ⟨f, hf⟩
    obtain ⟨x, hx, hid⟩ := Option.map_eq_some_iff.mp hf
    obtain ⟨hrows, hxf⟩ := mem_familyOf.mp (List.mem_of_mem_head? hx)
    obtain rfl : x = r := Table.eq_of_key_eq hrows hr hid
    rw [hxf]
    exact hx
  · intro hhead
    exact ⟨r.familyId, by rw [hhead]; rfl⟩

/-- **The chains, as a reader of the table finds them.** The list of a family is gone from the
    statement; what is left is about rows and their links. -/
theorem FamilyInvariant.linear (h : FamilyInvariant env s) : LinearFamilies s where
  oneLive r hr r' hr' hf hlive hlive' :=
    (h.chained r.familyId).eq_of_last (P := fun x => x.revokedAt = none)
      -- only the last token of a chain can be live
      (fun hab hnone => by simpa [hnone] using hab.revokedAt)
      (mem_familyOf.mpr ⟨hr, rfl⟩) hlive (mem_familyOf.mpr ⟨hr', hf.symm⟩) hlive'
  used r hr hused := by
    rcases (h.chained r.familyId).next_or_last (mem_familyOf.mpr ⟨hr, rfl⟩) with
      ⟨next, hnext, hrep⟩ | ⟨hlatest, -⟩
    · obtain ⟨hrows, hf⟩ := mem_familyOf.mp hnext
      exact ⟨hrep.revokedAt, next, hrows, hrep.replacedByTokenId, hf, hrep.userId⟩
    · rw [hlatest.usedAt] at hused
      cases hused
  replacesOne r hr q q' hq hq' := h.replaces_unique hr hq hq'
  origin r hr := by
    rcases (h.chained r.familyId).head_or_prev (mem_familyOf.mpr ⟨hr, rfl⟩) with hhead | ⟨q, hq, hrep⟩
    · exact .inl ⟨(h.opened_iff hr).mpr hhead, h.head_replaces hr hhead⟩
    · obtain ⟨hrows, hf⟩ := mem_familyOf.mp hq
      have hqr : Replaces s r q := ⟨hrows, hrep.replacedByTokenId⟩
      refine .inr ⟨fun hopen => ?_, q, hqr, hf, fun q' hq' => h.replaces_unique hr hq' hqr⟩
      exact h.head_replaces hr ((h.opened_iff hr).mp hopen) q hqr
  oneRoot r hr := by
    have hmem : r ∈ familyOf s.shared.refreshTokens.table r.familyId := mem_familyOf.mpr ⟨hr, rfl⟩
    obtain ⟨root, hroot⟩ : ∃ root,
      (familyOf s.shared.refreshTokens.table r.familyId).head? = some root :=
      ⟨_, List.head?_eq_some_head (List.ne_nil_of_mem hmem)⟩
    obtain ⟨hrows, hf⟩ := mem_familyOf.mp (List.mem_of_mem_head? hroot)
    refine ⟨root, hrows, hf, (h.opened_iff hrows).mpr (hf ▸ hroot), fun root' hrows' hf' hopen => ?_⟩
    have hhead := (h.opened_iff hrows').mp hopen
    rw [hf', hroot] at hhead
    exact (Option.some.inj hhead).symm
  chain := h.chained

end

/-- **Refresh-token families.** In every reachable state each family is one linear chain with at most
    one live token; a revoked token stays revoked; and no token value is accepted twice. -/
theorem refresh_token_families (hi : Initial s) (hr : Pool.Steps (exec env) s t) :
    LinearFamilies t ∧
      (∀ u : State C, Pool.Steps (exec env) t u → ∀ r ∈ t.tokens, r.revokedAt.isSome →
        ∃ r' ∈ u.tokens, r'.id = r.id ∧ r'.revokedAt.isSome) ∧
      ∀ c d token, Accepted t c token → Accepted t d token → c = d := by
  have hinv := reachable_families hr hi
  refine ⟨hinv.linear, ?_, hinv.once⟩
  intro u hu r hmem hrev
  obtain ⟨r', hr', hadv⟩ := tokens_advance hi hr hu hmem
  exact ⟨r', hr', hadv.id, hadv.revokedAt hrev⟩

/-- A login hands out the token `A`, a refresh rotates it to `B`. -/
def rotationRequests : List Call :=
  [.session (.login ⟨"a@b.co", "old"⟩ ⟨none, none⟩), .refresh (.start (some "A") ⟨none, none⟩)]

def rotationSchedule : List (Fin 2 × Act) := Pool.turns 2
  [(0, .run (.at 1 uuidA "" uuidA)), (0, .run (.at 1 uuidB "A" uuidA)),
   (1, .run (.at 2 uuidA "" uuidA)), (1, .run (.at 2 uuidA "" uuidA)), (1, .run (.at 2 uuidC "B" uuidA)),
   (1, .run (.at 2 uuidA "" uuidA)), (1, .run (.at 2 uuidA "" uuidA))]

theorem refresh_token_families_rotation : ∃ t : State (Fin 2),
    Pool.Steps (exec toyEnv) (boot 2 rotationRequests) t ∧ t.tokens.length = 2 ∧ LinearFamilies t := by
  have hrun : (Pool.replay (exec toyEnv) Pool.anyStep (boot 2 rotationRequests) rotationSchedule).any
      (fun t : State (Fin 2) => t.tokens.length = 2) = true := by decide +kernel
  obtain ⟨t, hr, hlen⟩ := Pool.exists_run_of_replay hrun
  have hi : Initial (boot 2 rotationRequests) :=
    initial_boot (by simp [rotationRequests, Call.IsRequest])
  exact ⟨t, hr, by simpa using hlen, (refresh_token_families hi hr).1⟩

end NestApp
