import Mathlib.Data.List.Sort
import Mathlib.Data.List.Nodup

/-!
# `Lib.Paging` — pages of a sorted list, one query each

A query with `ORDER BY key DESC` answers with *some* sorted list of its rows (`Ordering`): rows with
the same key come in any order, and in another order the next time. Pages taken by `OFFSET` from one
such answer each always have the right keys (`keys_concat`), but a row can be on two pages or on none.

`concat_perm_iff`: whatever the answers, the pages hold every row once, iff no page boundary falls
between two rows with the same key (`NoTie`).
-/

namespace Paging

variable {R κ : Type} [LinearOrder κ] {key : R → κ} {rows l l' : List R} {limit n : Nat}

/-- A possible answer to `ORDER BY key DESC`. -/
structure Ordering (key : R → κ) (rows l : List R) : Prop where
  perm   : l.Perm rows
  sorted : l.Pairwise fun a b => key b ≤ key a

/-- `OFFSET k * limit LIMIT limit` -/
def page (l : List R) (limit k : Nat) : List R := (l.drop (k * limit)).take limit

/-- The number of pages. -/
def pages (total limit : Nat) : Nat := (total + limit - 1) / limit

/-- The first `n` pages, each from an answer of its own. -/
def concat (answers : Nat → List R) (limit n : Nat) : List R :=
  (List.range n).flatMap fun k => page (answers k) limit k

/-- The keys of the rows, in the order every answer has them. -/
def sortedKeys (key : R → κ) (rows : List R) : List κ := (rows.map key).mergeSort fun a b => b ≤ a

/-- No page boundary falls between two rows with the same key. -/
def NoTie (key : R → κ) (rows : List R) (limit : Nat) : Prop :=
  ∀ k < pages rows.length limit, 0 < k →
    (sortedKeys key rows)[k * limit - 1]? ≠ (sortedKeys key rows)[k * limit]?

instance (key : R → κ) (rows : List R) (limit : Nat) : Decidable (NoTie key rows limit) :=
  inferInstanceAs (Decidable (∀ k < pages rows.length limit, 0 < k → _))

/-! ## Page arithmetic

Pages `0` to `n - 1` of one list, put together, are its first `n * limit` rows. With an answer of its
own for each page there is no such list, and only the keys are left to argue with. -/

theorem lt_pages_iff (h : 0 < limit) {total k : Nat} : k < pages total limit ↔ k * limit < total := by
  rw [pages, Nat.lt_iff_add_one_le, Nat.le_div_iff_mul_le h, Nat.add_one_mul]
  omega

/-- The pages reach the end. -/
theorem le_pages_mul (h : 0 < limit) (total : Nat) : total ≤ pages total limit * limit := by
  have hlt : ¬ pages total limit < pages total limit ↔ ¬ pages total limit * limit < total :=
    (lt_pages_iff h).not
  have hle := hlt.mp (lt_irrefl _)
  omega

theorem concat_succ (answers : Nat → List R) (limit n : Nat) :
    concat answers limit (n + 1) = concat answers limit n ++ page (answers n) limit n := by
  rw [concat, List.range_succ, List.flatMap_append]
  simp [concat]

/-- The next page continues the rows before it. -/
theorem take_append_page (l : List R) (limit n : Nat) :
    l.take (n * limit) ++ page l limit n = l.take ((n + 1) * limit) := by
  rw [page, Nat.add_one_mul, List.take_add]

theorem map_page {β : Type} (f : R → β) (l : List R) (limit k : Nat) :
    (page l limit k).map f = page (l.map f) limit k := by
  rw [page, page, List.map_take, List.map_drop]

/-- Pages of one and the same list. -/
theorem concat_const (l : List R) (limit n : Nat) :
    concat (fun _ => l) limit n = l.take (n * limit) := by
  induction n with
  | zero => simp [concat]
  | succ n ih => rw [concat_succ, ih, take_append_page]

theorem map_concat {β : Type} (f : R → β) (answers : Nat → List R) (limit n : Nat) :
    (concat answers limit n).map f = concat (fun k => (answers k).map f) limit n := by
  rw [concat, concat, List.map_flatMap]
  simp only [map_page]

/-! ## What all answers have in common

Two sorted lists of the same rows have the same keys in the same places, because the sorted list of
keys is determined. So an answer may be described by how it orders rows with one key, and by nothing
else. -/

theorem pairwise_sortedKeys (key : R → κ) (rows : List R) :
    (sortedKeys key rows).Pairwise fun a b => b ≤ a := by
  have hsorted := @List.pairwise_mergeSort κ (fun a b => decide (b ≤ a))
    (fun a b c hab hbc => by simpa using (of_decide_eq_true hbc).trans (of_decide_eq_true hab))
    (fun a b => by simpa using le_total b a) (rows.map key)
  exact hsorted.imp of_decide_eq_true

/-- **Every answer has the same keys in the same order.** Only rows of one key may stand in another
    order. -/
theorem Ordering.map_key (h : Ordering key rows l) : l.map key = sortedKeys key rows := by
  refine @List.Perm.eq_of_pairwise κ (fun a b => b ≤ a) _ _ ?_ ?_ (pairwise_sortedKeys key rows) ?_
  · exact fun a b _ _ hab hba => le_antisymm hba hab
  · exact List.pairwise_map.mpr h.sorted
  · exact (h.perm.map key).trans (List.mergeSort_perm _ _).symm

theorem Ordering.getElem?_key (h : Ordering key rows l) (i : Nat) :
    (sortedKeys key rows)[i]? = l[i]?.map key := by
  rw [← h.map_key, List.getElem?_map]

/-- There is an answer. -/
theorem ordering_mergeSort (key : R → κ) (rows : List R) :
    Ordering key rows (rows.mergeSort fun a b => key b ≤ key a) where
  perm   := List.mergeSort_perm _ _
  sorted := by
    have hsorted := @List.pairwise_mergeSort R (fun a b => decide (key b ≤ key a))
      (fun a b c hab hbc => by simpa using (of_decide_eq_true hbc).trans (of_decide_eq_true hab))
      (fun a b => by simpa using le_total (key b) (key a)) rows
    exact hsorted.imp of_decide_eq_true

/-- **The keys of the pages**, whatever the answers: put together, they are the keys in order. -/
theorem keys_concat {answers : Nat → List R} (h : ∀ k, Ordering key rows (answers k)) (limit n : Nat) :
    (concat answers limit n).map key = (sortedKeys key rows).take (n * limit) := by
  rw [map_concat, ← concat_const]
  simp only [fun k => (h k).map_key]

theorem sorted_concat {answers : Nat → List R} (h : ∀ k, Ordering key rows (answers k)) (limit n : Nat) :
    (concat answers limit n).Pairwise fun a b => key b ≤ key a := by
  rw [← List.pairwise_map (f := key) (R := fun a b => b ≤ a), keys_concat h]
  exact (pairwise_sortedKeys key rows).sublist (List.take_sublist _ _)

/-! ## Without a tie at a boundary

Where the keys on the two sides of a boundary differ, the rows before it are those with a key at least
that of the last of them, whatever the answer. The induction adds one page at a time and changes the
answer in between. -/

/-- The rows before a boundary without a tie are those whose key is at least that of the last of them. -/
theorem Ordering.take_eq_filter (h : Ordering key rows l) {last next : κ} (hn : 0 < n)
    (hlast : (sortedKeys key rows)[n - 1]? = some last) (hnext : (sortedKeys key rows)[n]? = some next)
    (hne : last ≠ next) : l.take n = l.filter fun r => decide (last ≤ key r) := by
  rw [h.getElem?_key] at hlast hnext
  obtain ⟨x, hx, rfl⟩ := Option.map_eq_some_iff.mp hlast
  obtain ⟨y, hy, rfl⟩ := Option.map_eq_some_iff.mp hnext
  obtain ⟨hxlt, rfl⟩ := List.getElem?_eq_some_iff.mp hx
  obtain ⟨hylt, rfl⟩ := List.getElem?_eq_some_iff.mp hy
  have hsorted := List.pairwise_iff_getElem.mp h.sorted
  have hlt : key l[n] < key l[n - 1] := lt_of_le_of_ne (hsorted _ _ hxlt hylt (by omega)) (Ne.symm hne)
  have hbefore : ∀ r ∈ l.take n, decide (key l[n - 1] ≤ key r) = true := by
    intro r hr
    obtain ⟨i, hi, rfl⟩ := List.getElem_of_mem hr
    rw [List.length_take] at hi
    rw [List.getElem_take, decide_eq_true_eq]
    rcases Nat.lt_or_ge i (n - 1) with hlt | hge
    · exact hsorted i (n - 1) (by omega) hxlt hlt
    · obtain rfl : i = n - 1 := by omega
      exact le_refl _
  have hafter : ∀ r ∈ l.drop n, ¬ decide (key l[n - 1] ≤ key r) = true := by
    intro r hr
    obtain ⟨i, hi, rfl⟩ := List.getElem_of_mem hr
    rw [List.length_drop] at hi
    rw [List.getElem_drop, decide_eq_true_eq, not_le]
    refine lt_of_le_of_lt ?_ hlt
    rcases Nat.eq_zero_or_pos i with rfl | hpos
    · exact le_refl _
    · exact hsorted n (n + i) hylt (by omega) (by omega)
  have hsplit := List.filter_append (p := fun r => decide (key l[n - 1] ≤ key r)) (l.take n) (l.drop n)
  rw [List.take_append_drop, List.filter_eq_self.mpr hbefore, List.filter_eq_nil_iff.mpr hafter,
    List.append_nil] at hsplit
  exact hsplit.symm

/-- All answers have the same rows before such a boundary. -/
theorem Ordering.take_perm (h : Ordering key rows l) (h' : Ordering key rows l')
    (hne : 0 < n → n < rows.length → (sortedKeys key rows)[n - 1]? ≠ (sortedKeys key rows)[n]?) :
    (l.take n).Perm (l'.take n) := by
  have hlen : l.length = rows.length := h.perm.length_eq
  have hlen' : l'.length = rows.length := h'.perm.length_eq
  rcases Nat.eq_zero_or_pos n with rfl | hpos
  · simp
  · rcases Nat.lt_or_ge n rows.length with hlt | hge
    · have hkeys : (sortedKeys key rows).length = rows.length := by
        rw [← h.map_key, List.length_map, hlen]
      have hlast := List.getElem?_eq_getElem (l := sortedKeys key rows) (i := n - 1) (by omega)
      have hnext := List.getElem?_eq_getElem (l := sortedKeys key rows) (i := n) (by omega)
      have htie := hne hpos hlt
      rw [hlast, hnext] at htie
      have hkey := fun he => htie (congrArg some he)
      rw [h.take_eq_filter hpos hlast hnext hkey, h'.take_eq_filter hpos hlast hnext hkey]
      exact (h.perm.trans h'.perm.symm).filter _
    · rw [List.take_of_length_le (by omega), List.take_of_length_le (by omega)]
      exact h.perm.trans h'.perm.symm

/-- **Without ties the pages are the rows**, by induction over the pages. -/
theorem concat_perm_take {answers : Nat → List R} (h : ∀ k, Ordering key rows (answers k))
    (hlimit : 0 < limit)
    (htie : NoTie key rows limit) (hl : Ordering key rows l) (n : Nat) :
    (concat answers limit n).Perm (l.take (n * limit)) := by
  -- at a boundary, the answer of the next page can take over from the one before
  have hcut : ∀ {l l' : List R}, Ordering key rows l → Ordering key rows l' → ∀ n,
      (l.take (n * limit)).Perm (l'.take (n * limit)) := by
    intro l l' hl hl' n
    refine hl.take_perm hl' fun hpos hlt => ?_
    exact htie n ((lt_pages_iff hlimit).mpr hlt) (Nat.pos_of_mul_pos_right hpos)
  induction n generalizing l with
  | zero => simp [concat]
  | succ n ih =>
      rw [concat_succ]
      have hnext := (ih (h n)).append_right (page (answers n) limit n)
      rw [take_append_page] at hnext
      exact hnext.trans (hcut (h n) hl (n + 1))

/-! ## With one

Two neighbours with one key may change places between two queries. At a boundary this puts one of them
on both pages and the other on none. -/

/-- Two neighbours with the same key can change places. -/
theorem Ordering.swap {before after : List R} {x y : R}
    (h : Ordering key rows (before ++ x :: y :: after))
    (hkey : key x = key y) : Ordering key rows (before ++ y :: x :: after) where
  perm   := ((List.Perm.swap x y after).append_left before).trans h.perm
  sorted := by
    have hkeys : (before ++ y :: x :: after).map key = (before ++ x :: y :: after).map key := by
      simp [hkey]
    rw [← List.pairwise_map (f := key) (R := fun a b => b ≤ a), hkeys]
    exact List.pairwise_map.mpr h.sorted

/-- **A tie at a boundary**: two answers put one row on both sides of it. -/
theorem exists_page_twice (hlimit : 0 < limit) {k : Nat} (hk : k < pages rows.length limit)
    (hpos : 0 < k)
    (htie : (sortedKeys key rows)[k * limit - 1]? = (sortedKeys key rows)[k * limit]?) :
    ∃ l l', Ordering key rows l ∧ Ordering key rows l' ∧ ∃ x, x ∈ page l limit (k - 1) ∧
      x ∈ page l' limit k := by
  have hl := ordering_mergeSort key rows
  generalize rows.mergeSort (fun a b => key b ≤ key a) = l at hl
  have hlen : l.length = rows.length := hl.perm.length_eq
  have hlt : k * limit < l.length := hlen ▸ (lt_pages_iff hlimit).mp hk
  obtain ⟨n, hn⟩ : ∃ n, k * limit = n + 1 := Nat.exists_eq_succ_of_ne_zero (Nat.mul_pos hpos hlimit).ne'
  have hprev : (k - 1) * limit + limit = n + 1 := by
    rw [← Nat.add_one_mul, Nat.sub_add_cancel hpos, hn]
  rw [hn, Nat.add_sub_cancel, hl.getElem?_key, hl.getElem?_key, List.getElem?_eq_getElem (by omega),
    List.getElem?_eq_getElem (by omega)] at htie
  have hsplit : l = l.take n ++ l[n] :: l[n + 1] :: l.drop (n + 2) := by
    rw [← List.drop_eq_getElem_cons, ← List.drop_eq_getElem_cons, List.take_append_drop]
  refine ⟨l, l.take n ++ l[n + 1] :: l[n] :: l.drop (n + 2), hl, ?_, l[n], ?_, ?_⟩
  · refine Ordering.swap ?_ (Option.some.inj htie)
    rw [← hsplit]
    exact hl
  · -- the last row of page `k - 1`
    rw [page, List.mem_iff_getElem?]
    refine ⟨limit - 1, ?_⟩
    rw [List.getElem?_take_of_lt (by omega), List.getElem?_drop]
    rw [show (k - 1) * limit + (limit - 1) = n by omega]
    exact List.getElem?_eq_getElem _
  · -- the first row of page `k` of the other answer
    rw [page, List.mem_iff_getElem?]
    refine ⟨0, ?_⟩
    rw [List.getElem?_take_of_lt hlimit, List.getElem?_drop, hn, List.getElem?_append_right (by simp)]
    simp [Nat.min_eq_left (show n ≤ l.length by omega)]

/-! ## Exactly -/

/-- **The pages hold every row once, whatever the answers, iff there is no tie at a boundary.** -/
theorem concat_perm_iff (hlimit : 0 < limit) (hnodup : rows.Nodup) :
    (∀ answers : Nat → List R, (∀ k, Ordering key rows (answers k)) →
      (concat answers limit (pages rows.length limit)).Perm rows) ↔ NoTie key rows limit := by
  constructor
  · intro h k hk hpos htie
    obtain ⟨l, l', hl, hl', x, hx, hx'⟩ := exists_page_twice hlimit hk hpos htie
    let answers : Nat → List R := fun j => if j = k then l' else l
    have hperm := h answers fun j => by
      show Ordering key rows (if j = k then l' else l)
      split
      · exact hl'
      · exact hl
    have hdisjoint := (List.nodup_flatMap.mp (hperm.nodup_iff.mpr hnodup)).2
    have hpages := List.pairwise_iff_getElem.mp hdisjoint (k - 1) k (by rw [List.length_range]; omega)
      (by rw [List.length_range]; exact hk) (by omega)
    simp only [List.getElem_range] at hpages
    refine hpages (a := x) ?_ ?_
    · show x ∈ page (if k - 1 = k then l' else l) limit (k - 1)
      rw [if_neg (by omega)]
      exact hx
    · show x ∈ page (if k = k then l' else l) limit k
      rw [if_pos rfl]
      exact hx'
  · intro htie answers h
    have hperm := concat_perm_take h hlimit htie (h 0) (pages rows.length limit)
    have hend : (answers 0).length ≤ pages rows.length limit * limit := by
      rw [(h 0).perm.length_eq]
      exact le_pages_mul hlimit rows.length
    rw [List.take_of_length_le hend] at hperm
    exact hperm.trans (h 0).perm

end Paging
