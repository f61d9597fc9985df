import Mathlib.Data.List.Nodup

/-!
# `Lib.Table` — keyed tables, in insertion order

A table is a list of rows with distinct primary keys; the list order is the order of insertion, an update
replaces a row in place. `Table.get_*` say what each operation does to a lookup, `Table.rows_*` what it
does to the rows in order. A **write** is one row-level change (`put` a row version, `erase` a key), and
`Table.view` overlays a buffer of writes — newest first — on a table.
-/

namespace Sql

/-- Rows that carry a primary key. The key is a function of the row and not a field of the table, so
    that a row found by any condition still knows where it is stored. -/
class Keyed (R : Type) (K : outParam Type) where
  key : R → K

export Keyed (key)

/-- A table: rows with distinct keys. That they are distinct is a field, so a table with two rows under
    one key cannot be built and no lemma has to assume it. -/
structure Table (R : Type) {K : Type} [Keyed R K] where
  rows  : List R
  nodup : (rows.map key).Nodup

/-- One row-level change. -/
inductive Write (R : Type) (K : Type) where
  | put (r : R)
  | erase (k : K)

variable {R K : Type} [Keyed R K]

namespace Table

@[ext] theorem ext {t t' : Table R} (h : t.rows = t'.rows) : t = t' := by
  cases t; cases t'; cases h; rfl

theorem eq_of_key_eq {t : Table R} {a b : R} (ha : a ∈ t.rows) (hb : b ∈ t.rows)
    (h : key a = key b) : a = b :=
  List.inj_on_of_nodup_map t.nodup ha hb h

/-- The keys of the rows that satisfy `p`: what a statement with the condition `p` selects when it
    begins. It visits these rows afterwards one by one, and finds them as they are by then. -/
def select (t : Table R) (p : R → Bool) : List K := (t.rows.filter p).map key

/-- The first row that satisfies `p`. -/
def find? (t : Table R) (p : R → Bool) : Option R := t.rows.find? p

theorem find?_some {t : Table R} {p : R → Bool} {r : R} (h : t.find? p = some r) :
    r ∈ t.rows ∧ p r = true :=
  ⟨List.mem_of_find?_eq_some h, List.find?_some h⟩

/-- The table without rows. -/
def empty : Table R := ⟨[], List.nodup_nil⟩

variable [DecidableEq K]

/-- The row with key `k`. -/
def get (t : Table R) (k : K) : Option R := t.rows.find? fun r => key r = k

theorem get_eq_some {t : Table R} {k : K} {r : R} : t.get k = some r ↔ r ∈ t.rows ∧ key r = k := by
  constructor
  · intro h
    exact ⟨List.mem_of_find?_eq_some h, by simpa using List.find?_some h⟩
  · rintro ⟨hr, rfl⟩
    cases hf : t.rows.find? (fun r' => key r' = key r) with
    | none => exact absurd (List.find?_eq_none.mp hf r hr) (by simp)
    | some r' =>
        have hk : key r' = key r := by simpa using List.find?_some hf
        have heq : r' = r := t.eq_of_key_eq (List.mem_of_find?_eq_some hf) hr hk
        rw [get, hf, heq]

theorem get_key {t : Table R} {k : K} {r : R} (h : t.get k = some r) : key r = k := (get_eq_some.mp h).2

theorem get_mem {t : Table R} {k : K} {r : R} (h : t.get k = some r) : r ∈ t.rows := (get_eq_some.mp h).1

theorem get_of_mem {t : Table R} {r : R} (h : r ∈ t.rows) : t.get (key r) = some r :=
  get_eq_some.mpr ⟨h, rfl⟩

theorem get_eq_none {t : Table R} {k : K} : t.get k = none ↔ ∀ r ∈ t.rows, key r ≠ k := by
  simp [get, List.find?_eq_none]

/-- The keys of the rows are the keys that have a row. -/
theorem mem_map_key {t : Table R} {k : K} : k ∈ t.rows.map key ↔ (t.get k).isSome := by
  rw [List.mem_map, Option.isSome_iff_exists]
  exact exists_congr fun r => get_eq_some.symm

@[simp] theorem get_empty (k : K) : (empty : Table R).get k = none := rfl

theorem mem_select {t : Table R} {p : R → Bool} {k : K} :
    k ∈ t.select p ↔ ∃ r, t.get k = some r ∧ p r = true := by
  simp only [select, List.mem_map, List.mem_filter]
  constructor
  · rintro ⟨r, ⟨hr, hp⟩, rfl⟩
    exact ⟨r, get_of_mem hr, hp⟩
  · rintro ⟨r, hr, hp⟩
    exact ⟨r, ⟨get_mem hr, hp⟩, get_key hr⟩

/-! ## `put` — update in place, or append

A version with a key in use takes the place of the old version, as `UPDATE` does for everybody who
reads the rows in the order of insertion; any other version is a new last row. So `put` models both
`INSERT` and `UPDATE`, and which of the two it was is read off `get`. -/

/-- Replace the row that has the key of `r`. -/
def swap (r : R) (x : R) : R := if key x = key r then r else x

@[simp] theorem key_swap (r x : R) : key (swap r x) = key x := by
  unfold swap
  split
  · next h => exact h.symm
  · rfl

/-- Store the row version `r`: in place of the row with its key, or as a new last row. The keys stay
    distinct in either case. -/
def put (t : Table R) (r : R) : Table R :=
  if h : t.get (key r) = none then
    ⟨t.rows ++ [r], by
      rw [List.map_append, List.nodup_append]
      refine ⟨t.nodup, by simp, ?_⟩
      intro a ha b hb
      obtain ⟨x, hx, rfl⟩ := List.mem_map.mp ha
      obtain rfl : b = key r := by simpa using hb
      exact get_eq_none.mp h x hx⟩
  else
    ⟨t.rows.map (swap r), by
      rw [List.map_map, show (key ∘ swap r) = (key : R → K) from funext (key_swap r)]
      exact t.nodup⟩

theorem rows_put_new {t : Table R} {r : R} (h : t.get (key r) = none) :
    (t.put r).rows = t.rows ++ [r] := by
  rw [put, dif_pos h]

theorem rows_put_old {t : Table R} {r x : R} (h : t.get (key r) = some x) :
    (t.put r).rows = t.rows.map (swap r) := by
  rw [put, dif_neg (by simp [h])]

/-- An update in place, row by row. -/
theorem rows_put_split {t : Table R} {r x : R} (h : t.get (key r) = some x) :
    ∃ l₁ l₂, t.rows = l₁ ++ x :: l₂ ∧ (t.put r).rows = l₁ ++ r :: l₂ := by
  obtain ⟨l₁, l₂, hrows⟩ := List.append_of_mem (get_mem h)
  have hkey : key x = key r := get_key h
  have hnodup := t.nodup
  rw [hrows, List.map_append, List.map_cons, List.nodup_middle, List.nodup_cons,
    ← List.map_append] at hnodup
  -- the keys are distinct, so `swap` moves no other row
  have hother : ∀ y ∈ l₁ ++ l₂, swap r y = y := by
    intro y hy
    refine if_neg fun he => hnodup.1 ?_
    exact hkey.trans he.symm ▸ List.mem_map_of_mem hy
  have hmap : ∀ l : List R, (∀ y ∈ l, y ∈ l₁ ++ l₂) → l.map (swap r) = l := fun l hl =>
    (List.map_congr_left fun y hy => hother y (hl y hy)).trans l.map_id
  refine ⟨l₁, l₂, hrows, ?_⟩
  rw [rows_put_old h, hrows, List.map_append, List.map_cons,
    hmap l₁ fun y hy => List.mem_append_left _ hy,
    hmap l₂ fun y hy => List.mem_append_right _ hy, swap, if_pos hkey]

theorem get_put (t : Table R) (r : R) (k : K) :
    (t.put r).get k = if k = key r then some r else t.get k := by
  cases h : t.get (key r) with
  | none =>
      by_cases hk : k = key r
      · rw [if_pos hk, get_eq_some, rows_put_new h]
        exact ⟨by simp, hk.symm⟩
      · rw [if_neg hk, get, get, rows_put_new h, List.find?_append]
        simp [Ne.symm hk]
  | some x =>
      by_cases hk : k = key r
      · rw [if_pos hk, get_eq_some, rows_put_old h]
        refine ⟨List.mem_map.mpr ⟨x, get_mem h, ?_⟩, hk.symm⟩
        rw [swap, if_pos (get_key h)]
      · rw [if_neg hk]
        cases hg : t.get k with
        | none =>
            rw [get_eq_none, rows_put_old h]
            intro y hy
            obtain ⟨z, hz, rfl⟩ := List.mem_map.mp hy
            rw [key_swap]
            exact get_eq_none.mp hg z hz
        | some y =>
            rw [get_eq_some, rows_put_old h]
            refine ⟨List.mem_map.mpr ⟨y, get_mem hg, ?_⟩, get_key hg⟩
            rw [swap, if_neg (fun hy => hk ((get_key hg).symm.trans hy))]

/-! ## `erase`

Deleting is a filter on keys, so the order of the rows that stay is untouched. `filterMap` is the
general form: every row is dropped or gets a new version under its old key, which is what `UPDATE …
WHERE` and `DELETE … WHERE` come to when they run alone. -/

/-- Delete the row with key `k`. -/
def erase (t : Table R) (k : K) : Table R :=
  ⟨t.rows.filter fun r => key r ≠ k, t.nodup.sublist (List.filter_sublist.map key)⟩

theorem get_erase (t : Table R) (k k' : K) :
    (t.erase k).get k' = if k' = k then none else t.get k' := by
  by_cases hk : k' = k
  · rw [if_pos hk, get_eq_none]
    intro r hr
    have := (List.mem_filter.mp hr).2
    simpa [hk] using this
  · rw [if_neg hk]
    cases hg : t.get k' with
    | none =>
        rw [get_eq_none] at hg ⊢
        exact fun r hr => hg r (List.mem_filter.mp hr).1
    | some r =>
        rw [get_eq_some]
        refine ⟨List.mem_filter.mpr ⟨get_mem hg, ?_⟩, get_key hg⟩
        simpa [get_key hg] using hk

/-- Keep the rows that satisfy `p`. -/
def filter (t : Table R) (p : R → Bool) : Table R :=
  ⟨t.rows.filter p, t.nodup.sublist (List.filter_sublist.map key)⟩

omit [DecidableEq K] in
@[simp] theorem mem_filter {t : Table R} {p : R → Bool} {r : R} :
    r ∈ (t.filter p).rows ↔ r ∈ t.rows ∧ p r = true := List.mem_filter

omit [DecidableEq K] in
theorem map_key_filterMap {f : R → Option R} (hf : ∀ {r r'}, f r = some r' → key r' = key r)
    (l : List R) :
    ((l.filterMap f).map key).Sublist (l.map key) := by
  induction l with
  | nil => exact .slnil
  | cons r l ih =>
      cases hr : f r with
      | none =>
          rw [List.filterMap_cons_none hr]
          exact ih.cons _
      | some r' =>
          rw [List.filterMap_cons_some hr, List.map_cons, List.map_cons, hf hr]
          exact ih.cons_cons _

/-- Replace or drop every row, keeping the keys. -/
def filterMap (t : Table R) (f : R → Option R)
    (hf : ∀ {r r'}, f r = some r' → key r' = key r) : Table R :=
  ⟨t.rows.filterMap f, t.nodup.sublist (map_key_filterMap hf t.rows)⟩

omit [DecidableEq K] in
@[simp] theorem mem_filterMap {t : Table R} {f : R → Option R}
    {hf : ∀ {r r'}, f r = some r' → key r' = key r} {r' : R} :
    r' ∈ (t.filterMap f hf).rows ↔ ∃ r ∈ t.rows, f r = some r' := List.mem_filterMap

/-- `UPDATE … WHERE p`: every row that satisfies `p` gets its new version. -/
def update (t : Table R) (p : R → Bool) (f : R → R) (hf : ∀ r, key (f r) = key r) : Table R :=
  ⟨t.rows.map fun r => if p r then f r else r, by
    have hkey : ∀ r, key (if p r then f r else r) = key r := by
      intro r
      split
      · exact hf r
      · rfl
    rw [List.map_map, show (key ∘ fun r => if p r then f r else r) = (key : R → K) from funext hkey]
    exact t.nodup⟩

omit [DecidableEq K] in
theorem rows_update (t : Table R) (p : R → Bool) (f : R → R) (hf : ∀ r, key (f r) = key r) :
    (t.update p f hf).rows = t.rows.map fun r => if p r then f r else r := rfl

omit [DecidableEq K] in
/-- An `UPDATE` leaves the table as it was iff it changes none of the rows it finds. -/
theorem update_eq_self_iff {t : Table R} {p : R → Bool} {f : R → R} {hf : ∀ r, key (f r) = key r} :
    t.update p f hf = t ↔ ∀ r ∈ t.rows, p r = true → f r = r := by
  have hrow : ∀ r, (if p r then f r else r) = r ↔ (p r = true → f r = r) := by
    intro r
    by_cases hp : p r = true
    · simp [hp]
    · simp [hp]
  constructor
  · intro h r hr
    have hrows : t.rows.map (fun r => if p r then f r else r) = t.rows.map id := by
      rw [← rows_update t p f hf, h, List.map_id]
    exact (hrow r).mp (List.map_eq_map_iff.mp hrows r hr)
  · intro h
    apply ext
    rw [rows_update]
    exact (List.map_eq_map_iff.mpr fun r hr => (hrow r).mpr (h r hr)).trans (List.map_id _)

theorem get_update (t : Table R) (p : R → Bool) (f : R → R) (hf : ∀ r, key (f r) = key r) (k : K) :
    (t.update p f hf).get k = (t.get k).map fun r => if p r then f r else r := by
  have hkey : ∀ r, key (if p r then f r else r) = key r := by
    intro r
    split
    · exact hf r
    · rfl
  rw [get, get, rows_update, List.find?_map]
  congr 2
  funext r
  show decide (key (if p r then f r else r) = k) = decide (key r = k)
  rw [hkey]

/-- A new row cannot have the key `k`, or the value `v` in a unique column: one in place does. This is
    the check of an `INSERT` against a primary key and one unique index. -/
def Taken {V : Type} (t : Table R) (column : R → V) (k : K) (v : V) : Prop :=
  (t.get k).isSome ∨ ∃ r ∈ t.rows, column r = v

instance {V : Type} [DecidableEq V] (t : Table R) (column : R → V) (k : K) (v : V) :
    Decidable (t.Taken column k v) := by
  unfold Taken
  infer_instance

/-- An `UPDATE` of other columns frees no value and takes none. -/
theorem taken_update {V : Type} {t : Table R} {column : R → V} {k : K} {v : V} {p : R → Bool} {f : R → R}
    (hf : ∀ r, key (f r) = key r) (hcolumn : ∀ r, column (f r) = column r) :
    (t.update p f hf).Taken column k v ↔ t.Taken column k v := by
  have hkept : ∀ r, column (if p r then f r else r) = column r := by
    intro r
    split
    · exact hcolumn r
    · rfl
  refine or_congr ?_ ?_
  · rw [get_update, Option.isSome_map]
  · rw [rows_update]
    constructor
    · rintro ⟨r', hr', hv⟩
      obtain ⟨r, hr, rfl⟩ := List.mem_map.mp hr'
      exact ⟨r, hr, (hkept r).symm.trans hv⟩
    · rintro ⟨r, hr, hv⟩
      exact ⟨_, List.mem_map_of_mem hr, (hkept r).trans hv⟩

theorem mem_put {t : Table R} {r x : R} : x ∈ (t.put r).rows ↔ x = r ∨ (x ∈ t.rows ∧ key x ≠ key r) := by
  have hiff : ∀ {t : Table R}, x ∈ t.rows ↔ t.get (key x) = some x :=
    fun {t} => ⟨get_of_mem, get_mem⟩
  rw [hiff, get_put]
  by_cases hk : key x = key r
  · simp [hk, eq_comm]
  · have hne : x ≠ r := fun he => hk (he ▸ rfl)
    simp [hk, hne, hiff]

/-- Storing a row leaves the rows under other keys. -/
theorem get_put_of_ne (t : Table R) (r : R) {k : K} (h : k ≠ key r) : (t.put r).get k = t.get k := by
  rw [get_put, if_neg h]

/-- A key with a row is not a key without one. -/
theorem ne_of_get_none {t : Table R} {r : R} {k k' : K} (h : t.get k = some r)
    (h' : t.get k' = none) : k ≠ k' := by
  rintro rfl
  rw [h'] at h
  cases h

theorem isSome_put {t : Table R} {r : R} {k : K} (h : (t.get k).isSome) : ((t.put r).get k).isSome := by
  rw [get_put]
  split
  · rfl
  · exact h

end Table

/-! ## Buffers of writes

What a transaction has written and not yet committed is a list of writes, the newest first. It reads
the table under its buffer, and `COMMIT` stores that view. The lemmas say that a lookup in the view
depends on the last write for its key only, and on the table where there is none. -/

namespace Write

/-- The row a write is about. -/
def target : Write R K → K
  | .put r   => key r
  | .erase k => k

/-- The version of its row that a write leaves. -/
def version : Write R K → Option R
  | .put r   => some r
  | .erase _ => none

@[simp] theorem target_put (r : R) : (Write.put r : Write R K).target = key r := rfl
@[simp] theorem target_erase (k : K) : (Write.erase k : Write R K).target = k := rfl

end Write

namespace Table

variable [DecidableEq K]

/-- Perform one write. -/
def write (t : Table R) : Write R K → Table R
  | .put r   => t.put r
  | .erase k => t.erase k

/-- The table under a buffer of writes, the newest first. -/
def view (t : Table R) : List (Write R K) → Table R
  | []      => t
  | w :: ws => (t.view ws).write w

@[simp] theorem view_nil (t : Table R) : t.view [] = t := rfl

theorem view_cons (t : Table R) (w : Write R K) (ws : List (Write R K)) :
    t.view (w :: ws) = (t.view ws).write w := rfl

theorem get_write (t : Table R) (w : Write R K) (k : K) :
    (t.write w).get k = if k = w.target then w.version else t.get k := by
  cases w with
  | put r   => exact t.get_put r k
  | erase j => exact t.get_erase j k

theorem get_view_put (t : Table R) (r : R) (ws : List (Write R K)) (k : K) :
    (t.view (.put r :: ws)).get k = if k = key r then some r else (t.view ws).get k :=
  get_put _ r k

/-- A buffer does not touch the rows it has no write for. -/
theorem get_view_of_not_mem {t : Table R} {ws : List (Write R K)} {k : K}
    (h : k ∉ ws.map Write.target) : (t.view ws).get k = t.get k := by
  induction ws with
  | nil => rfl
  | cons w ws ih =>
      simp only [List.map_cons, List.mem_cons, not_or] at h
      rw [view_cons, get_write, if_neg h.1, ih h.2]

/-- Where a buffer has a write, the view does not depend on the table below. -/
theorem get_view_of_mem {t t' : Table R} {ws : List (Write R K)} {k : K}
    (h : k ∈ ws.map Write.target) : (t.view ws).get k = (t'.view ws).get k := by
  induction ws with
  | nil => simp at h
  | cons w ws ih =>
      rw [view_cons, view_cons, get_write, get_write]
      -- the newest write to `k` decides, whatever lies below
      by_cases hk : k = w.target
      · rw [if_pos hk, if_pos hk]
      · rw [if_neg hk, if_neg hk]
        exact ih ((List.mem_cons.mp h).resolve_left hk)

/-! ## Row-wise relations

A buffer that stores, for existing rows only, versions related to them by `Q` relates the two tables row
by row, in order. -/

/-- Every write of the buffer stores a version that `Q` relates to the row of `t` it replaces. A buffer
    like this inserts nothing and deletes nothing, so it changes the table row by row. -/
def Updates (Q : R → R → Prop) (t : Table R) (ws : List (Write R K)) : Prop :=
  ∀ w ∈ ws, ∃ r r', w = .put r' ∧ t.get (key r') = some r ∧ Q r r'

theorem Updates.nil {Q : R → R → Prop} {t : Table R} : Updates Q t [] := fun _ h => absurd h (by simp)

theorem Updates.cons {Q : R → R → Prop} {t : Table R} {ws : List (Write R K)} {r r' : R}
    (hr : t.get (key r') = some r) (hQ : Q r r') (h : Updates Q t ws) : Updates Q t (.put r' :: ws) := by
  intro w hw
  rcases List.mem_cons.mp hw with rfl | hw
  · exact ⟨r, r', rfl, hr, hQ⟩
  · exact h w hw

theorem Updates.tail {Q : R → R → Prop} {t : Table R} {ws : List (Write R K)} {w : Write R K}
    (h : Updates Q t (w :: ws)) : Updates Q t ws := fun v hv => h v (List.mem_cons_of_mem _ hv)

/-- The view of a buffer of updates, looked up: the row itself, or a version `Q` relates to it. -/
theorem Updates.get_view {Q : R → R → Prop} {t : Table R} {ws : List (Write R K)} (h : Updates Q t ws)
    (k : K) : (t.view ws).get k = t.get k ∨
      ∃ r r', t.get k = some r ∧ (t.view ws).get k = some r' ∧ Q r r' := by
  induction ws with
  | nil => exact .inl rfl
  | cons w ws ih =>
      obtain ⟨r, r', rfl, hr, hQ⟩ := h w List.mem_cons_self
      rw [view_cons, get_write]
      -- either the newest write is about `k`, or the older ones decide
      by_cases hk : k = key r'
      · subst hk
        exact .inr ⟨r, r', hr, by simp [Write.version], hQ⟩
      · rw [if_neg (by simpa using hk)]
        exact ih h.tail

/-- The rows of the two tables are related by `Q` one by one, in order; no row is added or dropped. -/
def RowWise (Q : R → R → Prop) (t t' : Table R) : Prop :=
  List.Forall₂ (fun r r' => key r' = key r ∧ Q r r') t.rows t'.rows

/-- With `Q` reflexive, a buffer of updates changes the table row by row. -/
theorem Updates.rowWise {Q : R → R → Prop} (hrefl : ∀ r, Q r r) {t : Table R} {ws : List (Write R K)}
    (h : Updates Q t ws) : RowWise Q t (t.view ws) := by
  -- the view is a map over the rows: every write is an update in place
  have hrows : ∃ g : R → R, (t.view ws).rows = t.rows.map g ∧ ∀ r, key (g r) = key r := by
    induction ws with
    | nil => exact ⟨id, by simp, fun _ => rfl⟩
    | cons w ws ih =>
        obtain ⟨r, r', rfl, hr, -⟩ := h w List.mem_cons_self
        obtain ⟨g, hg, hk⟩ := ih h.tail
        have hin : ∃ x, (t.view ws).get (key r') = some x :=
          ⟨g r, get_eq_some.mpr ⟨hg ▸ List.mem_map_of_mem (get_mem hr), (hk r).trans (get_key hr)⟩⟩
        refine ⟨swap r' ∘ g, ?_, fun x => (key_swap _ _).trans (hk x)⟩
        rw [view_cons, write, rows_put_old hin.choose_spec, hg, List.map_map]
  obtain ⟨g, hg, hk⟩ := hrows
  rw [RowWise, hg, List.forall₂_map_right_iff, List.forall₂_same]
  intro r hr
  refine ⟨hk r, ?_⟩
  have hgr : (t.view ws).get (key r) = some (g r) :=
    get_eq_some.mpr ⟨hg ▸ List.mem_map_of_mem hr, hk r⟩
  -- what the map does to `r` is what a lookup of its key finds
  rcases h.get_view (key r) with heq | ⟨x, x', hx, hx', hQ⟩
  · rw [hgr, get_of_mem hr] at heq
    rw [Option.some.inj heq]
    exact hrefl r
  · obtain rfl : r = x := Option.some.inj ((get_of_mem hr).symm.trans hx)
    rw [Option.some.inj (hgr.symm.trans hx')]
    exact hQ

omit [DecidableEq K] in
theorem RowWise.refl {Q : R → R → Prop} (hrefl : ∀ r, Q r r) (t : Table R) : RowWise Q t t :=
  List.forall₂_same.mpr fun r _ => ⟨rfl, hrefl r⟩

/-- Every old row has its new version. -/
theorem RowWise.get {Q : R → R → Prop} {t t' : Table R} (h : RowWise Q t t') {k : K} {r : R}
    (hr : t.get k = some r) : ∃ r', t'.get k = some r' ∧ Q r r' := by
  obtain ⟨hmem, hk⟩ := get_eq_some.mp hr
  obtain ⟨i, hi, rfl⟩ := List.getElem_of_mem hmem
  obtain ⟨hlen, hget⟩ := List.forall₂_iff_get.mp h
  have hi' : i < t'.rows.length := hlen ▸ hi
  obtain ⟨hkey, hQ⟩ := hget i hi hi'
  exact ⟨t'.rows[i], get_eq_some.mpr ⟨List.getElem_mem hi', hkey.trans hk⟩, hQ⟩

/-- Every new row is a version of an old one. -/
theorem RowWise.get_new {Q : R → R → Prop} {t t' : Table R} (h : RowWise Q t t') {k : K} {r' : R}
    (hr : t'.get k = some r') : ∃ r, t.get k = some r ∧ Q r r' := by
  obtain ⟨hmem, hk⟩ := get_eq_some.mp hr
  obtain ⟨i, hi, rfl⟩ := List.getElem_of_mem hmem
  obtain ⟨hlen, hget⟩ := List.forall₂_iff_get.mp h
  have hi' : i < t.rows.length := hlen ▸ hi
  obtain ⟨hkey, hQ⟩ := hget i hi' hi
  exact ⟨t.rows[i], get_eq_some.mpr ⟨List.getElem_mem hi', hkey.symm.trans hk⟩, hQ⟩

/-! ## The order of insertion

A listing without `ORDER BY` ties, and a search for the first match, go by the place of a row. Updates
keep the place and inserts append, so the order of two rows never changes once both are there: that is
`Grows`, and `index` is the place itself. -/

/-- The later table has the rows of the earlier one in place, and others behind them. -/
def Grows (t t' : Table R) : Prop := t.rows.map key <+: t'.rows.map key

omit [DecidableEq K] in
theorem Grows.refl (t : Table R) : Grows t t := List.prefix_rfl

omit [DecidableEq K] in
theorem RowWise.grows {Q : R → R → Prop} {t t' : Table R} (h : RowWise Q t t') : Grows t t' := by
  have hkeys : t.rows.map key = t'.rows.map key := by
    rw [← List.forall₂_eq_eq_eq, List.forall₂_map_left_iff, List.forall₂_map_right_iff]
    exact h.imp fun _ _ hr => hr.1.symm
  exact ⟨[], by rw [List.append_nil, hkeys]⟩

theorem grows_put (t : Table R) (r : R) : Grows t (t.put r) := by
  unfold Grows
  cases h : t.get (key r) with
  | none =>
      rw [rows_put_new h, List.map_append]
      exact List.prefix_append _ _
  | some x =>
      have hkeys : (t.put r).rows.map key = t.rows.map key := by
        rw [rows_put_old h, List.map_map, show (key ∘ swap r) = (key : R → K) from funext (key_swap r)]
      exact ⟨[], by rw [List.append_nil, hkeys]⟩

/-- The place of a row in the order of insertion: how many rows stand before it. A row that is not there
    is behind all the others. -/
def index (t : Table R) (k : K) : Nat := (t.rows.map key).idxOf k

theorem Grows.index {t t' : Table R} (h : Grows t t') {k : K} {r : R} (hk : t.get k = some r) :
    t'.index k = t.index k := by
  obtain ⟨ks, hks⟩ := h
  have hmem : k ∈ t.rows.map key := mem_map_key.mpr (by rw [hk]; rfl)
  rw [Table.index, Table.index, ← hks, List.idxOf_append_of_mem hmem]

/-- A row that stands before another was inserted before it. -/
theorem index_lt {t : Table R} {l₁ l₂ : List R} {a b : R} (h : t.rows = l₁ ++ b :: l₂) (ha : a ∈ l₁) :
    t.index (key a) < t.index (key b) := by
  have hnodup := t.nodup
  rw [h, List.map_append, List.map_cons, List.nodup_middle, List.nodup_cons] at hnodup
  have hkey : key a ∈ l₁.map key := List.mem_map_of_mem ha
  have hb : key b ∉ l₁.map key := fun hmem => hnodup.1 (List.mem_append_left _ hmem)
  unfold Table.index
  rw [h, List.map_append, List.map_cons, List.idxOf_append_of_mem hkey, List.idxOf_append_of_notMem hb]
  have hlt := List.idxOf_lt_length_of_mem hkey
  omega

end Table

end Sql
