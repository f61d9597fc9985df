import NestApp.Lib.Table

/-!
# `Lib.ReadCommitted` — row locks and write buffers under READ COMMITTED

A `Store` is a table as committed, with the write lock of each row. A transaction keeps its own writes in
a buffer; a statement of transaction `c` reads `st.table.view ws`: what is committed when the statement
runs, under the transaction's own writes. `UPDATE … WHERE` is a **sweep**:
* when it starts, it selects the keys of the rows its condition holds of (`Table.select`);
* it then visits these rows one at a time (`Store.visit`): a row locked by another transaction has to be
  waited for, and the condition is checked again on the version found then;
* rows committed after it started are not visited.

`Store.commit` publishes a buffer and releases the locks of its transaction. The facts a proof uses:
* `Frame` — what a step of one transaction leaves alone: rows locked by somebody else;
* `Owned` / `Table.Updates` — a buffer is backed by locks, and stores versions of the committed rows;
* `Swept` — every row that still satisfies the condition is yet to be visited; at the end of the sweep
  there is none left, *provided nobody committed such a row in between*.
-/

namespace Sql

variable {R K C : Type} [Keyed R K] [DecidableEq K]

/-- A table as committed, and who has each of its rows locked. What is written and not committed is no
    part of it: it is in the buffers of the transactions. -/
structure Store (R : Type) {K : Type} [Keyed R K] (C : Type) where
  table : Table R
  owner : K → Option C

namespace Store

/-- `c` may lock row `k`: nobody holds it, or `c` does. -/
def Available (st : Store R C) (c : C) (k : K) : Prop := st.owner k = none ∨ st.owner k = some c

instance [DecidableEq C] (st : Store R C) (c : C) (k : K) : Decidable (st.Available c k) :=
  inferInstanceAs (Decidable (_ ∨ _))

def lock (st : Store R C) (c : C) (k : K) : Store R C :=
  { st with owner := Function.update st.owner k (some c) }

/-- Release every lock of `c`. -/
def release [DecidableEq C] (st : Store R C) (c : C) : Store R C :=
  { st with owner := fun k => if st.owner k = some c then none else st.owner k }

/-- Publish the buffer of `c` and release its locks, in one step: nobody sees half a transaction. -/
def commit [DecidableEq C] (st : Store R C) (c : C) (ws : List (Write R K)) : Store R C :=
  { table := st.table.view ws, owner := (st.release c).owner }

/-- `UPDATE` reaches row `k`: wait for its lock, re-check the condition `p`, store the new version.
    `none` says that the row is locked by somebody else, and that the statement has to wait. -/
def visit [DecidableEq C] (st : Store R C) (c : C) (ws : List (Write R K)) (k : K) (p : R → Bool)
    (f : R → R) : Option (Store R C × List (Write R K)) :=
  if st.Available c k then
    -- the version found now, not the one the statement selected
    match (st.table.view ws).get k with
    | some r => if p r then some (st.lock c k, .put (f r) :: ws) else some (st, ws)
    | none   => some (st, ws)
  else none

/-- `INSERT` of one row under a key nobody uses. -/
def insert (st : Store R C) (c : C) (ws : List (Write R K)) (r : R) :
    Option (Store R C × List (Write R K)) :=
  if st.table.get (key r) = none ∧ st.owner (key r) = none then
    some (st.lock c (key r), .put r :: ws)
  else none

/-- `SELECT … LIMIT 1 FOR UPDATE`: wait for the lock of the row found, and lock it. The row returned is
    the committed one, under the writes of the transaction itself. -/
def selectForUpdate [DecidableEq C] (st : Store R C) (c : C) (p : R → Bool) :
    Option (Store R C × Option R) :=
  match st.table.find? p with
  | none   => some (st, none)
  | some r => if st.Available c (key r) then some (st.lock c (key r), some r) else none

/-- `c` has row `r` locked, in its committed version. -/
def Holds (st : Store R C) (c : C) (r : R) : Prop :=
  st.table.get (key r) = some r ∧ st.owner (key r) = some c

/-! ## Frames

A proof about one transaction has to know that the steps of the others do not disturb it. The only
thing it may rely on is its locks: `Frame c` says that whatever somebody other than `c` has locked is
still locked, by the same transaction and in the same committed version. -/

/-- What a step of `c` leaves alone: rows locked by others stay locked and stay as committed. -/
structure Frame (c : C) (st st' : Store R C) : Prop where
  held : ∀ {d k}, d ≠ c → st.owner k = some d → st'.owner k = some d
  row  : ∀ {d k}, d ≠ c → st.owner k = some d → st'.table.get k = st.table.get k

/-- Every row of the buffer is locked by its transaction. -/
def Owned (st : Store R C) (c : C) (ws : List (Write R K)) : Prop := ∀ w ∈ ws, st.owner w.target = some c

variable {st st' st'' : Store R C} {c d : C} {k : K} {ws ws' : List (Write R K)}

theorem Frame.refl : Frame c st st := ⟨fun _ h => h, fun _ _ => rfl⟩

theorem Frame.trans (h : Frame c st st') (h' : Frame c st' st'') : Frame c st st'' where
  held hd ho := h'.held hd (h.held hd ho)
  row hd ho := (h'.row hd (h.held hd ho)).trans (h.row hd ho)

@[simp] theorem lock_table : (st.lock c k).table = st.table := rfl

@[simp] theorem lock_owner_self : (st.lock c k).owner k = some c := by simp [lock]

theorem lock_owner_of_owner {j : K} (h : st.owner j = some c) : (st.lock c k).owner j = some c := by
  by_cases hj : j = k
  · subst hj; simp
  · simpa [lock, Function.update_of_ne hj] using h

theorem frame_lock (h : st.Available c k) : Frame c st (st.lock c k) where
  held {d j} hd ho := by
    have hj : j ≠ k := by
      rintro rfl
      rcases h with h | h
      · rw [h] at ho; cases ho
      · exact hd (Option.some.inj (ho.symm.trans h))
    simpa [lock, Function.update_of_ne hj] using ho
  row _ _ := rfl

section Commit

variable [DecidableEq C]

omit [DecidableEq K] in
@[simp] theorem release_table : (st.release c).table = st.table := rfl

theorem frame_release : Frame c st (st.release c) where
  held {d j} hd ho := by
    have hne : st.owner j ≠ some c := fun h => hd (Option.some.inj (ho.symm.trans h))
    simpa [release, hne] using ho
  row _ _ := rfl

@[simp] theorem commit_table : (st.commit c ws).table = st.table.view ws := rfl

/-- A commit frames the rows of the others when its buffer is backed by locks. -/
theorem frame_commit (h : st.Owned c ws) : Frame c st (st.commit c ws) where
  held hd ho := frame_release.held hd ho
  row {d j} hd ho := by
    refine Table.get_view_of_not_mem fun hmem => ?_
    obtain ⟨w, hw, rfl⟩ := List.mem_map.mp hmem
    exact hd (Option.some.inj (ho.symm.trans (h w hw)))

end Commit

/-! ## Locked rows

A row selected `FOR UPDATE` is read once and then relied on until the transaction ends. `Holds` is that
knowledge, and `Holds.frame` says that no step of another transaction takes it away. -/

theorem Holds.frame {r : R} (h : st.Holds c r) (hf : Frame d st st') (hd : c ≠ d) : st'.Holds c r :=
  ⟨(hf.row hd h.2).trans h.1, hf.held hd h.2⟩

/-- What a locking `SELECT` can do: find nothing, or find a committed row and lock it. -/
theorem selectForUpdate_cases [DecidableEq C] {p : R → Bool} {found : Option R}
    (h : st.selectForUpdate c p = some (st', found)) :
    (found = none ∧ st' = st) ∨
      ∃ r, found = some r ∧ p r = true ∧ st.Available c (key r) ∧ st' = st.lock c (key r) ∧
        st'.Holds c r := by
  unfold selectForUpdate at h
  split at h
  · simp only [Option.some.injEq, Prod.mk.injEq] at h
    exact .inl ⟨h.2.symm, h.1.symm⟩
  · next r hr =>
    split at h
    · next hav =>
      simp only [Option.some.injEq, Prod.mk.injEq] at h
      obtain ⟨hmem, hp⟩ := Table.find?_some hr
      refine .inr ⟨r, h.2.symm, hp, hav, h.1.symm, ?_⟩
      rw [← h.1]
      exact ⟨Table.get_of_mem hmem, lock_owner_self⟩
    · cases h

theorem selectForUpdate_frame [DecidableEq C] {p : R → Bool} {found : Option R}
    (h : st.selectForUpdate c p = some (st', found)) :
    Frame c st st' ∧ st'.table = st.table ∧ ∀ {j}, st.owner j = some c → st'.owner j = some c := by
  rcases selectForUpdate_cases h with ⟨-, rfl⟩ | ⟨r, -, -, hav, rfl, -⟩
  · exact ⟨.refl, rfl, id⟩
  · exact ⟨frame_lock hav, rfl, lock_owner_of_owner⟩

/-! ## Buffers backed by locks

Every row in the buffer of a transaction is locked by it, from the statement that wrote it to the end.
So the committed versions below the buffer cannot move, and a buffer that was one of updates stays one.
-/

omit [DecidableEq K] in
theorem Owned.nil : st.Owned c [] := fun _ h => absurd h (by simp)

omit [DecidableEq K] in
theorem Owned.cons {w : Write R K} (hw : st.owner w.target = some c) (h : st.Owned c ws) :
    st.Owned c (w :: ws) := by
  intro v hv
  rcases List.mem_cons.mp hv with rfl | hv
  · exact hw
  · exact h v hv

theorem Owned.frame (h : st.Owned c ws) (hf : Frame d st st') (hd : c ≠ d) : st'.Owned c ws :=
  fun w hw => hf.held hd (h w hw)

theorem Owned.lock (h : st.Owned c ws) : (st.lock c k).Owned c ws :=
  fun w hw => lock_owner_of_owner (h w hw)

/-- A buffer of updates stays one while the others act: its rows are locked. -/
theorem updates_frame {Q : R → R → Prop} (h : Table.Updates Q st.table ws) (ho : st.Owned c ws)
    (hf : Frame d st st') (hd : c ≠ d) : Table.Updates Q st'.table ws := by
  intro w hw
  obtain ⟨r, r', rfl, hr, hQ⟩ := h w hw
  exact ⟨r, r', rfl, (hf.row hd (ho _ hw)).trans hr, hQ⟩

/-! ## One row of an `UPDATE`

The condition was evaluated when the statement began; it is evaluated again on the version found once
the row is free. A row that no longer satisfies it is locked and skipped. -/

section Visit

variable [DecidableEq C] {p : R → Bool} {f : R → R}

/-- What visiting a row can do: lock it and store a new version, or skip it. -/
theorem visit_cases (h : st.visit c ws k p f = some (st', ws')) : st.Available c k ∧
      ((∃ r, (st.table.view ws).get k = some r ∧ p r = true ∧ st' = st.lock c k ∧
        ws' = .put (f r) :: ws) ∨
       ((∀ r, (st.table.view ws).get k = some r → p r = false) ∧ st' = st ∧ ws' = ws)) := by
  unfold visit at h
  split at h
  · next hav =>
    refine ⟨hav, ?_⟩
    split at h
    · next r hr =>
      split at h
      · next hp =>
        simp only [Option.some.injEq, Prod.mk.injEq] at h
        exact .inl ⟨r, hr, hp, h.1.symm, h.2.symm⟩
      · next hp =>
        simp only [Option.some.injEq, Prod.mk.injEq] at h
        refine .inr ⟨fun x hx => ?_, h.1.symm, h.2.symm⟩
        rw [hr] at hx
        simpa [Option.some.inj hx] using hp
    · next hn =>
      simp only [Option.some.injEq, Prod.mk.injEq] at h
      refine .inr ⟨fun x hx => ?_, h.1.symm, h.2.symm⟩
      rw [hn] at hx
      cases hx
  · cases h

theorem visit_frame (h : st.visit c ws k p f = some (st', ws')) : Frame c st st' := by
  obtain ⟨hav, ⟨r, -, -, rfl, -⟩ | ⟨-, rfl, -⟩⟩ := visit_cases h
  · exact frame_lock hav
  · exact Frame.refl

theorem visit_table (h : st.visit c ws k p f = some (st', ws')) : st'.table = st.table := by
  obtain ⟨-, ⟨r, -, -, rfl, -⟩ | ⟨-, rfl, -⟩⟩ := visit_cases h <;> rfl

theorem visit_owner (h : st.visit c ws k p f = some (st', ws')) {j : K}
    (hj : st.owner j = some c) : st'.owner j = some c := by
  obtain ⟨-, ⟨r, -, -, rfl, -⟩ | ⟨-, rfl, -⟩⟩ := visit_cases h
  · exact lock_owner_of_owner hj
  · exact hj

theorem visit_owned (h : st.visit c ws k p f = some (st', ws'))
    (hkey : ∀ r, key (f r) = key r) (ho : st.Owned c ws) : st'.Owned c ws' := by
  obtain ⟨-, ⟨r, hr, -, rfl, rfl⟩ | ⟨-, rfl, rfl⟩⟩ := visit_cases h
  · refine Owned.cons ?_ ho.lock
    rw [Write.target_put, hkey, Table.get_key hr]
    exact lock_owner_self
  · exact ho

theorem visit_updates {Q : R → R → Prop}
    (h : st.visit c ws k p f = some (st', ws')) (hkey : ∀ r, key (f r) = key r)
    (hQ : ∀ r, Q r (f r)) (htrans : ∀ {r r' r''}, Q r r' → Q r' r'' → Q r r'')
    (hu : Table.Updates Q st.table ws) : Table.Updates Q st'.table ws' := by
  rw [visit_table h]
  obtain ⟨-, ⟨r, hr, -, -, rfl⟩ | ⟨-, -, rfl⟩⟩ := visit_cases h
  · have hk : key (f r) = k := (hkey r).trans (Table.get_key hr)
    -- a second write of the transaction to the row starts from its first
    rcases hu.get_view k with heq | ⟨x, x', hx, hx', hQx⟩
    · exact hu.cons (hk ▸ heq.symm.trans hr) (hQ r)
    · obtain rfl : x' = r := Option.some.inj (hx'.symm.trans hr)
      exact hu.cons (hk ▸ hx) (htrans hQx (hQ x'))
  · exact hu

end Visit

/-! ## `INSERT`

A new row is locked by the transaction that inserts it, and nobody else sees it before the commit. The
key is one that nobody uses, committed or not. -/

theorem insert_cases {r : R} (h : st.insert c ws r = some (st', ws')) :
    st.table.get (key r) = none ∧ st.owner (key r) = none ∧
      st' = st.lock c (key r) ∧ ws' = .put r :: ws := by
  unfold insert at h
  split at h
  · next hn =>
    simp only [Option.some.injEq, Prod.mk.injEq] at h
    exact ⟨hn.1, hn.2, h.1.symm, h.2.symm⟩
  · cases h

/-! ## Sweeps

An `UPDATE … WHERE` that has begun is described by the keys it has still to visit. The invariant of the
loop is that these cover every row that satisfies the condition in the view of the transaction. It
breaks only if somebody else commits a new such row behind the snapshot, and then the row is missed for
good: that is the one premise of `Swept.frame`. -/

/-- In the view of the transaction, every row that satisfies the condition is yet to be visited. The
    statement is done when nothing is left to visit, and then no row satisfies the condition. -/
def Swept (st : Store R C) (ws : List (Write R K)) (p : R → Bool) (todo : List K) : Prop :=
  ∀ k r, (st.table.view ws).get k = some r → p r = true → k ∈ todo

theorem swept_start (p : R → Bool) : st.Swept ws p ((st.table.view ws).select p) :=
  fun _ r hr hp => Table.mem_select.mpr ⟨r, hr, hp⟩

/-- The same for one row: if it satisfies the condition, it is yet to be visited. -/
def SweptAt (st : Store R C) (ws : List (Write R K)) (p : R → Bool) (todo : List K) (k : K) : Prop :=
  ∀ r, (st.table.view ws).get k = some r → p r = true → k ∈ todo

theorem SweptAt.visit [DecidableEq C] {p : R → Bool} {f : R → R} {todo : List K} {j : K}
    (h : st.SweptAt ws p todo j)
    (hv : st.visit c ws k p f = some (st', ws')) (hkey : ∀ r, key (f r) = key r)
    (hp : ∀ r, p (f r) = false) : st'.SweptAt ws' p (todo.erase k) j := by
  intro r hr hpr
  rw [visit_table hv] at hr
  -- the row visited does not satisfy the condition any more, and was skipped if it never did
  have hjk : j ≠ k := by
    rintro rfl
    obtain ⟨-, ⟨x, hx, -, -, rfl⟩ | ⟨hno, -, rfl⟩⟩ := visit_cases hv
    · rw [Table.get_view_put, if_pos ((hkey x).trans (Table.get_key hx)).symm] at hr
      rw [← Option.some.inj hr, hp x] at hpr
      cases hpr
    · rw [hno r hr] at hpr
      cases hpr
  refine (List.mem_erase_of_ne hjk).mpr (h r ?_ hpr)
  obtain ⟨-, ⟨x, hx, -, -, rfl⟩ | ⟨-, -, rfl⟩⟩ := visit_cases hv
  · rwa [Table.get_view_put, if_neg (fun he => hjk (he.trans ((hkey x).trans (Table.get_key hx))))] at hr
  · exact hr

/-- A step of another transaction that makes the row satisfy the condition only if it did. -/
theorem SweptAt.frame {p : R → Bool} {todo : List K} (h : st.SweptAt ws p todo k)
    (hnew : ∀ r', st'.table.get k = some r' → p r' = true → ∃ r, st.table.get k = some r ∧ p r = true) :
    st'.SweptAt ws p todo k := by
  intro r hr hp
  -- a row the transaction has written itself is as it was; the others are the committed ones
  by_cases hk : k ∈ ws.map Write.target
  · have hview : (st'.table.view ws).get k = (st.table.view ws).get k := Table.get_view_of_mem hk
    exact h r (hview.symm.trans hr) hp
  · rw [Table.get_view_of_not_mem hk] at hr
    obtain ⟨r₀, hr₀, hp₀⟩ := hnew r hr hp
    exact h r₀ ((Table.get_view_of_not_mem hk).trans hr₀) hp₀

theorem Swept.visit [DecidableEq C] {p : R → Bool} {f : R → R} {todo : List K} (h : st.Swept ws p todo)
    (hv : st.visit c ws k p f = some (st', ws')) (hkey : ∀ r, key (f r) = key r)
    (hp : ∀ r, p (f r) = false) : st'.Swept ws' p (todo.erase k) :=
  fun j => SweptAt.visit (h j) hv hkey hp

/-- A sweep survives a step of another transaction that commits no new row satisfying the condition. -/
theorem Swept.frame {p : R → Bool} {todo : List K} (h : st.Swept ws p todo)
    (hnew : ∀ k r', st'.table.get k = some r' → p r' = true →
      ∃ r, st.table.get k = some r ∧ p r = true) :
    st'.Swept ws p todo :=
  fun k => SweptAt.frame (h k) (hnew k)

/-- **A finished sweep leaves no row behind**: once its buffer is committed, the condition holds
    nowhere. -/
theorem Swept.commit [DecidableEq C] {p : R → Bool} (h : st.Swept ws p []) {r : R}
    (hr : r ∈ (st.commit c ws).table.rows) :
    p r = false := by
  cases hp : p r with
  | false => rfl
  | true => exact absurd (h (key r) r (Table.get_of_mem hr) hp) (by simp)

/-! ## Who holds what

`Owned` says that a buffer is backed by locks. In the other direction, a transaction has no locks but
those of its buffer and of the row it selected `FOR UPDATE`. -/

/-- Nobody but `c` gains a lock. -/
def Grants (c : C) (st st' : Store R C) : Prop :=
  ∀ ⦃d k⦄, d ≠ c → st'.owner k = some d → st.owner k = some d

/-- The rows `c` has locked are those it buffers, and the selected one. -/
def Covered (st : Store R C) (c : C) (ws : List (Write R K)) (selected : Option K) : Prop :=
  ∀ ⦃k⦄, st.owner k = some c → k ∈ ws.map Write.target ∨ selected = some k

variable {selected : Option K}

omit [DecidableEq K] in
theorem Grants.refl : Grants c st st := fun _ _ _ h => h

omit [DecidableEq K] in
theorem Grants.trans (h : Grants c st st') (h' : Grants c st' st'') : Grants c st st'' :=
  fun _ _ hd ho => h hd (h' hd ho)

omit [DecidableEq K] in
/-- The steps of the others leave the locks of `c` covered. -/
theorem Covered.frame (h : st.Covered c ws selected) (hg : Grants d st st') (hd : c ≠ d) :
    st'.Covered c ws selected :=
  fun _ ho => h (hg hd ho)

theorem grants_lock : Grants c st (st.lock c k) := by
  intro d j hd ho
  by_cases hj : j = k
  · subst hj
    rw [lock_owner_self] at ho
    exact absurd (Option.some.inj ho).symm hd
  · simpa [lock, Function.update_of_ne hj] using ho

/-- What `c` has locked after one more lock. -/
theorem lock_owner_cases {j : K} (h : (st.lock c k).owner j = some c) : j = k ∨ st.owner j = some c := by
  by_cases hj : j = k
  · exact .inl hj
  · right
    simpa [lock, Function.update_of_ne hj] using h

section

variable [DecidableEq C]

omit [DecidableEq K] in
theorem grants_release : Grants c st (st.release c) := by
  intro d k hd ho
  simp only [release] at ho
  split at ho
  · cases ho
  · exact ho

theorem grants_commit : Grants c st (st.commit c ws) := grants_release

omit [DecidableEq K] in
/-- A transaction that ends has no locks. -/
theorem covered_release : (st.release c).Covered c ([] : List (Write R K)) none := by
  intro k ho
  simp only [release] at ho
  split at ho
  · cases ho
  · next hne => exact absurd ho hne

theorem covered_commit : (st.commit c ws).Covered c ([] : List (Write R K)) none := by
  have hreleased : (st.release c).Covered c ([] : List (Write R K)) none := covered_release
  exact hreleased

theorem grants_visit {p : R → Bool} {f : R → R} (h : st.visit c ws k p f = some (st', ws')) :
    Grants c st st' := by
  obtain ⟨-, ⟨r, -, -, rfl, -⟩ | ⟨-, rfl, -⟩⟩ := visit_cases h
  · exact grants_lock
  · exact .refl

/-- `UPDATE` locks the row it buffers. -/
theorem Covered.visit {p : R → Bool} {f : R → R} (hc : st.Covered c ws selected)
    (h : st.visit c ws k p f = some (st', ws')) (hkey : ∀ r, key (f r) = key r) :
      st'.Covered c ws' selected := by
  obtain ⟨-, ⟨r, hr, -, rfl, rfl⟩ | ⟨-, rfl, rfl⟩⟩ := visit_cases h
  · intro j ho
    have htarget : (Write.put (f r) : Write R K).target = k := (hkey r).trans (Table.get_key hr)
    rw [List.map_cons, List.mem_cons, htarget]
    rcases lock_owner_cases ho with hj | ho
    · exact .inl (.inl hj)
    · exact (hc ho).imp .inr id
  · exact hc

/-- `UPDATE` buffers at most the row it reaches. -/
theorem mem_visit {p : R → Bool} {f : R → R} (h : st.visit c ws k p f = some (st', ws'))
    (hkey : ∀ r, key (f r) = key r)
    {j : K} (hj : j ∈ ws'.map Write.target) : j = k ∨ j ∈ ws.map Write.target := by
  obtain ⟨-, ⟨r, hr, -, -, rfl⟩ | ⟨-, -, rfl⟩⟩ := visit_cases h
  · have htarget : (Write.put (f r) : Write R K).target = k := (hkey r).trans (Table.get_key hr)
    rw [List.map_cons, List.mem_cons, htarget] at hj
    exact hj
  · exact .inr hj

/-- `SELECT … FOR UPDATE` locks the row it finds. -/
theorem covered_selectForUpdate {p : R → Bool} {found : Option R}
    (hc : st.Covered c ([] : List (Write R K)) none)
    (h : st.selectForUpdate c p = some (st', found)) :
    Grants c st st' ∧ st'.Covered c ([] : List (Write R K)) (found.map key) := by
  rcases selectForUpdate_cases h with ⟨rfl, rfl⟩ | ⟨r, rfl, -, -, rfl, -⟩
  · exact ⟨.refl, hc⟩
  · refine ⟨grants_lock, fun j ho => ?_⟩
    rcases lock_owner_cases ho with rfl | ho
    · exact .inr rfl
    · exact (hc ho).imp id fun hno => absurd hno (by simp)

end

/-- `INSERT` locks the row it buffers. -/
theorem Covered.insert {r : R} (hc : st.Covered c ws selected) (h : st.insert c ws r = some (st', ws')) :
    Grants c st st' ∧ st'.Covered c ws' selected := by
  obtain ⟨-, -, rfl, rfl⟩ := insert_cases h
  refine ⟨grants_lock, fun j ho => ?_⟩
  rw [List.map_cons, List.mem_cons]
  rcases lock_owner_cases ho with rfl | ho
  · exact .inl (.inl rfl)
  · exact (hc ho).imp .inr id

end Store

end Sql
