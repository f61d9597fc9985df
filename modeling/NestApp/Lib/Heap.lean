import NestApp.Lib.Table

/-!
# `Lib.Heap` — row versions under READ COMMITTED

A **heap** holds the versions of rows, each at a place of its own that is never used again. A version
knows which transaction in progress inserts it and which deletes it; a deleted version is gone when the
deleting transaction commits, an inserted one when the inserting transaction rolls back. A statement
sees the versions that are *visible* to its transaction when it begins.

Unlike a table of rows that are updated in place (`Lib.ReadCommitted`), a row deleted by one
transaction and inserted again is another version: a `DELETE` that waits for the first does not reach
the second.

`Heap.Local c P` is the frame: a step of transaction `c` that touches rows satisfying `P` only.
-/

namespace Sql

/-- One version of a row: its place, the row, and the transactions in progress that insert it and delete
    it. `none` for the inserting transaction means that the version is committed. -/
structure Version (R C : Type) where
  tid       : Nat
  row       : R
  /-- the transaction in progress that inserts it -/
  inserting : Option C
  /-- the transaction in progress that deletes it -/
  deleting  : Option C

instance {R C : Type} : Keyed (Version R C) Nat := ⟨Version.tid⟩

@[simp] theorem key_version {R C : Type} (v : Version R C) : key v = v.tid := rfl

/-- The versions, and the next free place. -/
structure Heap (R C : Type) where
  versions : Table (Version R C)
  next     : Nat
  fresh    : ∀ v ∈ versions.rows, v.tid < next

variable {R C : Type}

namespace Version

/-- Transaction `c` has touched the version and is still in progress: it inserts the version, or deletes
    it. -/
def Marked (c : C) (v : Version R C) : Prop := v.inserting = some c ∨ v.deleting = some c

variable [DecidableEq C]

/-- The version is visible to a statement of transaction `c`: it is committed or `c` inserts it, and `c`
    has not deleted it. That somebody else is deleting it does not matter before the commit. -/
def visible (c : C) (v : Version R C) : Bool :=
  (v.inserting = none || v.inserting = some c) && v.deleting ≠ some c

/-- The version after `COMMIT` of `c`. -/
def commit (c : C) (v : Version R C) : Option (Version R C) :=
  if v.deleting = some c then none
  else some { v with inserting := if v.inserting = some c then none else v.inserting }

/-- The version after `ROLLBACK` of `c`. -/
def rollback (c : C) (v : Version R C) : Option (Version R C) :=
  if v.inserting = some c then none
  else some { v with deleting := if v.deleting = some c then none else v.deleting }

/-- The version after transaction `c` has deleted the one at `tid`. -/
def mark (c : C) (tid : Nat) (v : Version R C) : Option (Version R C) :=
  some (if v.tid = tid then { v with deleting := some c } else v)

end Version

namespace Heap

/-- The row is in the database, as far as it is committed. -/
def Committed (h : Heap R C) (row : R) : Prop := ∃ v ∈ h.versions.rows, v.inserting = none ∧ v.row = row

variable [DecidableEq C]

instance [DecidableEq R] (h : Heap R C) (row : R) : Decidable (h.Committed row) :=
  inferInstanceAs (Decidable (∃ v ∈ h.versions.rows, v.inserting = none ∧ v.row = row))

/-- Replace or drop every version, at its place. -/
def rewrite (h : Heap R C) (f : Version R C → Option (Version R C))
    (hf : ∀ {v v'}, f v = some v' → v'.tid = v.tid) :
    Heap R C where
  versions := h.versions.filterMap f hf
  next     := h.next
  fresh v' hv' := by
    obtain ⟨v, hv, hf'⟩ := Table.mem_filterMap.mp hv'
    rw [hf hf']
    exact h.fresh v hv

omit [DecidableEq C] in
theorem mem_rewrite {h : Heap R C} {f : Version R C → Option (Version R C)}
    {hf : ∀ {v v'}, f v = some v' → v'.tid = v.tid} {v' : Version R C} :
    v' ∈ (h.rewrite f hf).versions.rows ↔ ∃ v ∈ h.versions.rows, f v = some v' := List.mem_filterMap

theorem commit_tid {c : C} {v v' : Version R C} (h : v.commit c = some v') : v'.tid = v.tid := by
  unfold Version.commit at h
  split at h <;> cases h
  rfl

theorem rollback_tid {c : C} {v v' : Version R C} (h : v.rollback c = some v') : v'.tid = v.tid := by
  unfold Version.rollback at h
  split at h <;> cases h
  rfl

omit [DecidableEq C] in
theorem mark_tid {c : C} {tid : Nat} {v v' : Version R C} (h : v.mark c tid = some v') :
    v'.tid = v.tid := by
  cases h
  split <;> rfl

/-- `COMMIT` -/
def commit (h : Heap R C) (c : C) : Heap R C := h.rewrite (·.commit c) commit_tid

/-- `ROLLBACK` -/
def rollback (h : Heap R C) (c : C) : Heap R C := h.rewrite (·.rollback c) rollback_tid

/-- The places of the visible versions a statement selects. -/
def select (h : Heap R C) (c : C) (p : R → Bool) : List Nat :=
  h.versions.select fun v => p v.row && v.visible c

/-- A `DELETE` reaches a version of its snapshot: it is gone, or marked, or — while another transaction
    is deleting it — waited for (`none`). -/
def delete (h : Heap R C) (c : C) (p : R → Bool) (tid : Nat) : Option (Heap R C) :=
  match h.versions.get tid with
  | none => some h
  | some v =>
      -- a version the transaction has deleted before is not visible to it
      if p v.row = false ∨ v.deleting = some c then some h
      else if v.deleting = none then some (h.rewrite (·.mark c tid) mark_tid)
      else none

/-- Store a new version. -/
def insert (h : Heap R C) (c : C) (row : R) : Heap R C where
  versions := h.versions.put ⟨h.next, row, some c, none⟩
  next     := h.next + 1
  fresh v hv := by
    rcases Table.mem_put.mp hv with rfl | ⟨hv, -⟩
    · exact Nat.lt_succ_self _
    · exact Nat.lt_succ_of_lt (h.fresh v hv)

/-- The versions a unique index finds for a row, but for those the transaction itself has deleted. An
    `INSERT` waits for each of them that belongs to a transaction in progress, and fails on one that is
    committed. -/
def conflicts (h : Heap R C) [DecidableEq R] (c : C) (row : R) : List (Version R C) :=
  h.versions.rows.filter fun v => v.row = row && v.deleting ≠ some c

/-! ## What the operations do, version by version

Each operation is described by what it does to one version at its place. Nothing is ever removed from
the heap but by a transaction that ends, so a statement that remembers places may come back to them
later. -/

variable {h h' : Heap R C} {c d : C} {p : R → Bool} {tid : Nat} {row : R} {v v' : Version R C}

omit [DecidableEq C] in
theorem mem_insert : v ∈ (h.insert c row).versions.rows ↔ v = ⟨h.next, row, some c, none⟩ ∨
    v ∈ h.versions.rows := by
  rw [insert, Table.mem_put]
  exact or_congr_right (and_iff_left_of_imp fun hv => Nat.ne_of_lt (h.fresh v hv))

theorem mem_commit : v' ∈ (h.commit c).versions.rows ↔
    ∃ v ∈ h.versions.rows, v.deleting ≠ some c ∧
      v' = { v with inserting := if v.inserting = some c then none else v.inserting } := by
  simp [commit, rewrite, Version.commit, eq_comm]

theorem mem_rollback : v' ∈ (h.rollback c).versions.rows ↔
    ∃ v ∈ h.versions.rows, v.inserting ≠ some c ∧
      v' = { v with deleting := if v.deleting = some c then none else v.deleting } := by
  simp [rollback, rewrite, Version.rollback, eq_comm]

/-- A `DELETE` marks the version, if it is there and satisfies the condition. -/
theorem delete_some (hd : h.delete c p tid = some h') :
    (h' = h ∧ ∀ v ∈ h.versions.rows, v.tid = tid → p v.row = true → v.deleting = some c) ∨
    (∃ v ∈ h.versions.rows, v.tid = tid ∧ p v.row = true ∧ v.deleting = none) ∧
      ∀ v', v' ∈ h'.versions.rows ↔
        ∃ v ∈ h.versions.rows, v' = if v.tid = tid then { v with deleting := some c } else v := by
  unfold delete at hd
  cases hget : h.versions.get tid with
  | none =>
      rw [hget] at hd
      cases hd
      exact .inl ⟨rfl, fun v hv ht => absurd ht (Table.get_eq_none.mp hget v hv)⟩
  | some v =>
      rw [hget] at hd
      obtain ⟨hv, ht⟩ := Table.get_eq_some.mp hget
      -- a place holds one version
      have huniq : ∀ v' ∈ h.versions.rows, v'.tid = tid → v' = v := fun v' hv' ht' =>
        h.versions.eq_of_key_eq hv' hv (ht'.trans ht.symm)
      simp only at hd
      split at hd
      · next hskip =>
        cases hd
        refine .inl ⟨rfl, fun v' hv' ht' hp => ?_⟩
        rw [huniq v' hv' ht'] at hp ⊢
        exact hskip.resolve_left (by simp [hp])
      · next hskip =>
        split at hd
        · next hfree =>
          cases hd
          refine .inr ⟨⟨v, hv, ht, by simpa using fun hp => hskip (.inl hp), hfree⟩, fun v' => ?_⟩
          rw [mem_rewrite]
          exact exists_congr fun v => and_congr_right fun _ => Option.some_inj.trans eq_comm
        · cases hd

/-! ## Frames

`Local c P` is all a proof about `c` needs of the steps of the others, and all the others need of the
steps of `c`: it touches rows satisfying `P` only, and takes no mark from anybody else. The four kinds
of steps are local in this sense, each with its own condition. -/

/-- A step of transaction `c` that touches rows satisfying `P` only: the other versions stay, no mark of
    another transaction is set, and `c` marks versions of such rows only. -/
structure Local (c : C) (P : R → Prop) (h h' : Heap R C) : Prop where
  other : ∀ {v}, ¬ P v.row → (v ∈ h'.versions.rows ↔ v ∈ h.versions.rows)
  marks : ∀ {v' d}, v' ∈ h'.versions.rows → v'.Marked d → (d = c ∧ P v'.row) ∨
    ∃ v ∈ h.versions.rows, v.row = v'.row ∧ v.Marked d

omit [DecidableEq C] in
theorem Local.refl {P : R → Prop} : Local c P h h := ⟨fun _ => .rfl, fun hv hm => .inr ⟨_, hv, rfl, hm⟩⟩

omit [DecidableEq C] in
theorem Local.mono {P Q : R → Prop} (hl : Local c P h h') (hPQ : ∀ r, P r → Q r) : Local c Q h h' :=
  ⟨fun hv => hl.other fun hP => hv (hPQ _ hP), fun hv hm => (hl.marks hv hm).imp (And.imp id (hPQ _)) id⟩

omit [DecidableEq C] in
theorem Local.committed {P : R → Prop} (hl : Local c P h h') (hrow : ¬ P row) :
    h'.Committed row ↔ h.Committed row := by
  refine exists_congr fun v => ⟨fun ⟨hv, hi, hr⟩ => ?_, fun ⟨hv, hi, hr⟩ => ?_⟩
  · exact ⟨(hl.other (hr ▸ hrow)).mp hv, hi, hr⟩
  · exact ⟨(hl.other (hr ▸ hrow)).mpr hv, hi, hr⟩

/-! ### `DELETE` -/

theorem local_delete (hd : h.delete c p tid = some h') : Local c (fun r => p r = true) h h' := by
  rcases delete_some hd with ⟨rfl, -⟩ | ⟨⟨v₀, hv₀, ht₀, hp₀, -⟩, hmem⟩
  · exact .refl
  have huniq : ∀ v ∈ h.versions.rows, v.tid = tid → v = v₀ := fun v hv ht =>
    h.versions.eq_of_key_eq hv hv₀ (ht.trans ht₀.symm)
  constructor
  · intro v hv
    rw [hmem]
    constructor
    · rintro ⟨v₁, hv₁, rfl⟩
      split at hv
      · next ht => exact absurd (huniq v₁ hv₁ ht ▸ hp₀) hv
      · next ht => rwa [if_neg ht]
    · intro hin
      refine ⟨v, hin, (if_neg fun ht => ?_).symm⟩
      exact hv (huniq v hin ht ▸ hp₀)
  · intro v' d hv' hm
    obtain ⟨v, hv, rfl⟩ := (hmem v').mp hv'
    split at hm
    · next ht =>
      rw [if_pos ht]
      rcases hm with hi | hdel
      · exact .inr ⟨v, hv, rfl, .inl hi⟩
      · exact .inl ⟨(Option.some.inj hdel).symm, huniq v hv ht ▸ hp₀⟩
    · next ht =>
      rw [if_neg ht]
      exact .inr ⟨v, hv, rfl, hm⟩

theorem committed_delete (hd : h.delete c p tid = some h') : h'.Committed row ↔ h.Committed row := by
  rcases delete_some hd with ⟨rfl, -⟩ | ⟨-, hmem⟩
  · rfl
  constructor
  · rintro ⟨v', hv', hi, rfl⟩
    obtain ⟨v, hv, rfl⟩ := (hmem v').mp hv'
    refine ⟨v, hv, ?_, ?_⟩
    · split at hi <;> exact hi
    · split <;> rfl
  · rintro ⟨v, hv, hi, rfl⟩
    refine ⟨_, (hmem _).mpr ⟨v, hv, rfl⟩, ?_, ?_⟩
    · split <;> exact hi
    · split <;> rfl

/-! ### `INSERT` -/

omit [DecidableEq C] in
theorem local_insert {P : R → Prop} (hrow : P row) : Local c P h (h.insert c row) := by
  constructor
  · intro v hv
    rw [mem_insert]
    exact or_iff_right fun he => hv (he ▸ hrow)
  · intro v' d hv' hm
    rcases mem_insert.mp hv' with rfl | hv
    · refine .inl ⟨?_, hrow⟩
      rcases hm with hi | hdel
      · exact (Option.some.inj hi).symm
      · cases hdel
    · exact .inr ⟨v', hv, rfl, hm⟩

omit [DecidableEq C] in
theorem committed_insert {r : R} : (h.insert c row).Committed r ↔ h.Committed r := by
  constructor
  · rintro ⟨v, hv, hi, hr⟩
    rcases mem_insert.mp hv with rfl | hv
    · cases hi
    · exact ⟨v, hv, hi, hr⟩
  · rintro ⟨v, hv, hi, hr⟩
    exact ⟨v, mem_insert.mpr (.inr hv), hi, hr⟩

/-! ### `COMMIT` and `ROLLBACK` -/

theorem not_marked_commit (hv : v ∈ (h.commit c).versions.rows) : ¬ v.Marked c := by
  obtain ⟨v₀, -, hdel, rfl⟩ := mem_commit.mp hv
  -- its insertions are unmarked by the commit, its deletions gone
  rintro (hi | hd)
  · split at hi <;> [cases hi; exact absurd hi ‹_›]
  · exact hdel hd

theorem not_marked_rollback (hv : v ∈ (h.rollback c).versions.rows) : ¬ v.Marked c := by
  obtain ⟨v₀, -, hins, rfl⟩ := mem_rollback.mp hv
  rintro (hi | hd)
  · exact hins hi
  · split at hd <;> [cases hd; exact absurd hd ‹_›]

/-- A transaction ends: what it has not marked stays. -/
theorem local_commit {P : R → Prop} (hmarks : ∀ v ∈ h.versions.rows, v.Marked c → P v.row) :
    Local c P h (h.commit c) := by
  constructor
  · intro v hv
    rw [mem_commit]
    constructor
    · rintro ⟨v₀, hv₀, -, rfl⟩
      rwa [if_neg fun hi => hv (hmarks v₀ hv₀ (.inl hi))]
    · intro hin
      exact ⟨v, hin, fun hd => hv (hmarks v hin (.inr hd)), by
        rw [if_neg fun hi => hv (hmarks v hin (.inl hi))]⟩
  · intro v' d hv' hm
    obtain ⟨v, hv, -, rfl⟩ := mem_commit.mp hv'
    refine .inr ⟨v, hv, rfl, hm.imp (fun hi => ?_) id⟩
    split at hi
    · cases hi
    · exact hi

theorem local_rollback {P : R → Prop} (hmarks : ∀ v ∈ h.versions.rows, v.Marked c → P v.row) :
    Local c P h (h.rollback c) := by
  constructor
  · intro v hv
    rw [mem_rollback]
    constructor
    · rintro ⟨v₀, hv₀, -, rfl⟩
      rwa [if_neg fun hd => hv (hmarks v₀ hv₀ (.inr hd))]
    · intro hin
      exact ⟨v, hin, fun hi => hv (hmarks v hin (.inl hi)), by
        rw [if_neg fun hd => hv (hmarks v hin (.inr hd))]⟩
  · intro v' d hv' hm
    obtain ⟨v, hv, -, rfl⟩ := mem_rollback.mp hv'
    refine .inr ⟨v, hv, rfl, hm.imp id fun hd => ?_⟩
    split at hd
    · cases hd
    · exact hd

/-- What is committed by `c`: what was, but for its deletions, and its insertions. -/
theorem committed_commit : (h.commit c).Committed row ↔
    ∃ v ∈ h.versions.rows, v.deleting ≠ some c ∧ (v.inserting = none ∨ v.inserting = some c) ∧
      v.row = row := by
  constructor
  · rintro ⟨v', hv', hi, rfl⟩
    obtain ⟨v, hv, hd, rfl⟩ := mem_commit.mp hv'
    refine ⟨v, hv, hd, ?_, rfl⟩
    split at hi
    · next hc => exact .inr hc
    · exact .inl hi
  · rintro ⟨v, hv, hd, hi, rfl⟩
    refine ⟨_, mem_commit.mpr ⟨v, hv, hd, rfl⟩, ?_, rfl⟩
    rcases hi with hi | hi <;> simp [hi]

theorem committed_rollback : (h.rollback c).Committed row ↔ h.Committed row := by
  constructor
  · rintro ⟨v', hv', hi, rfl⟩
    obtain ⟨v, hv, -, rfl⟩ := mem_rollback.mp hv'
    exact ⟨v, hv, hi, rfl⟩
  · rintro ⟨v, hv, hi, rfl⟩
    exact ⟨_, mem_rollback.mpr ⟨v, hv, by simp [hi], rfl⟩, hi, rfl⟩

/-! ## Who has marked what

The marks of a transaction say which rows it has deleted and which it is inserting. These lemmas say
where marks come from, so that an invariant can tie the marks of a call to its program counter. -/

/-- Nobody but `c` gains a mark. -/
def Grants (c : C) (h h' : Heap R C) : Prop := ∀ ⦃v' d⦄, d ≠ c → v' ∈ h'.versions.rows → v'.Marked d →
  ∃ v ∈ h.versions.rows, v.tid = v'.tid ∧ v.row = v'.row ∧ v.Marked d ∧
    (v'.inserting = some d → v.inserting = some d)

omit [DecidableEq C] in
theorem Grants.refl : Grants c h h := fun v _ _ hv hm => ⟨v, hv, rfl, rfl, hm, id⟩

/-- What a transaction has marked after a `DELETE` reached a version. -/
theorem marked_delete (hd : h.delete c p tid = some h') (hv : v' ∈ h'.versions.rows) (hm : v'.Marked d) :
    (d = c ∧ v'.tid = tid ∧ p v'.row = true ∧ v'.inserting ≠ some d) ∨
      ∃ v ∈ h.versions.rows, v.tid = v'.tid ∧
      v.row = v'.row ∧ v.Marked d ∧ (v'.inserting = some d → v.inserting = some d) := by
  rcases delete_some hd with ⟨rfl, -⟩ | ⟨⟨v₀, hv₀, ht₀, hp₀, -⟩, hmem⟩
  · exact .inr ⟨v', hv, rfl, rfl, hm, id⟩
  obtain ⟨v, hold, rfl⟩ := (hmem v').mp hv
  by_cases ht : v.tid = tid
  · obtain rfl : v = v₀ := h.versions.eq_of_key_eq hold hv₀ (ht.trans ht₀.symm)
    rw [if_pos ht] at hm ⊢
    by_cases hi : v.inserting = some d
    · exact .inr ⟨v, hold, rfl, rfl, .inl hi, fun _ => hi⟩
    · rcases hm with hi' | hdel
      · exact absurd hi' hi
      · exact .inl ⟨(Option.some.inj hdel).symm, ht, hp₀, hi⟩
  · rw [if_neg ht] at hm ⊢
    exact .inr ⟨v, hold, rfl, rfl, hm, id⟩

theorem grants_delete (hd : h.delete c p tid = some h') : Grants c h h' := fun _ _ hne hv hm =>
  (marked_delete hd hv hm).resolve_left fun hown => hne hown.1

omit [DecidableEq C] in
/-- What a transaction has marked after an `INSERT`. -/
theorem marked_insert (hv : v' ∈ (h.insert c row).versions.rows) (hm : v'.Marked d) :
    (d = c ∧ v'.row = row) ∨ v' ∈ h.versions.rows := by
  rcases mem_insert.mp hv with rfl | hv
  · refine .inl ⟨?_, rfl⟩
    rcases hm with hi | hdel
    · exact (Option.some.inj hi).symm
    · cases hdel
  · exact .inr hv

omit [DecidableEq C] in
theorem grants_insert : Grants c h (h.insert c row) := by
  intro v' d hne hv hm
  have hold := (marked_insert hv hm).resolve_left fun hown => hne hown.1
  exact ⟨v', hold, rfl, rfl, hm, id⟩

/-! ### What holds of the marked rows

A property of the rows a transaction has marked, or is inserting, stays one if the condition of a
`DELETE`, or the row of an `INSERT`, has it. -/

variable {Q : R → Prop}

theorem marked_delete_all (hd : h.delete c p tid = some h')
    (hold : ∀ v ∈ h.versions.rows, v.Marked d → Q v.row)
    (hp : ∀ row, p row = true → Q row) : ∀ v ∈ h'.versions.rows, v.Marked d → Q v.row := by
  intro v hv hm
  rcases marked_delete hd hv hm with ⟨-, -, hrow, -⟩ | ⟨v₀, hv₀, -, hrow, hm₀, -⟩
  · exact hp v.row hrow
  · rw [← hrow]
    exact hold v₀ hv₀ hm₀

theorem inserting_delete_all (hd : h.delete c p tid = some h')
    (hold : ∀ v ∈ h.versions.rows, v.inserting = some d → Q v.row) :
    ∀ v ∈ h'.versions.rows, v.inserting = some d → Q v.row := by
  intro v hv hi
  rcases marked_delete hd hv (.inl hi) with ⟨-, -, -, hno⟩ | ⟨v₀, hv₀, -, hrow, -, hi₀⟩
  · exact absurd hi hno
  · rw [← hrow]
    exact hold v₀ hv₀ (hi₀ hi)

omit [DecidableEq C] in
theorem marked_insert_all (hold : ∀ v ∈ h.versions.rows, v.Marked d → Q v.row) (hrow : Q row) :
    ∀ v ∈ (h.insert c row).versions.rows, v.Marked d → Q v.row := by
  intro v hv hm
  rcases marked_insert hv hm with ⟨-, heq⟩ | hv₀
  · exact heq ▸ hrow
  · exact hold v hv₀ hm

omit [DecidableEq C] in
theorem inserting_insert_all (hold : ∀ v ∈ h.versions.rows, v.inserting = some d → Q v.row)
    (hrow : Q row) :
    ∀ v ∈ (h.insert c row).versions.rows, v.inserting = some d → Q v.row := by
  intro v hv hi
  rcases marked_insert hv (.inl hi) with ⟨-, heq⟩ | hv₀
  · exact heq ▸ hrow
  · exact hold v hv₀ hi

theorem grants_commit : Grants c h (h.commit c) := by
  intro v' d hne hv hm
  obtain ⟨v, hold, -, rfl⟩ := mem_commit.mp hv
  have hins : ∀ {e}, (if v.inserting = some c then none else v.inserting) = some e →
    v.inserting = some e := by
    intro e he
    split at he
    · cases he
    · exact he
  exact ⟨v, hold, rfl, rfl, hm.imp hins id, hins⟩

theorem grants_rollback : Grants c h (h.rollback c) := by
  intro v' d hne hv hm
  obtain ⟨v, hold, -, rfl⟩ := mem_rollback.mp hv
  refine ⟨v, hold, rfl, rfl, hm.imp id fun hd => ?_, id⟩
  split at hd
  · cases hd
  · exact hd

end Heap

end Sql
