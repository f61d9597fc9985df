import Mathlib.Data.List.Forall2
import Mathlib.Data.List.Nodup

/-!
# `Lib.Linked` — lists in which every element points to the next

A list is **linked** by `R` up to `E` when each element is `R`-related to the next and the last one
satisfies `E`. Such a list grows at its end (`Linked.extend`) and may be rewritten element by element
(`Linked.forall₂`). When `R` says that a *pointer* of the first element names the key of the second,
and `E` that the pointer is unset, no two elements share a pointer and only the first is pointed to by
none (`nodup_next`, `next_ne_head`).
-/

variable {α : Type}

/-- Each element is `R`-related to the next, the last one satisfies `E`. The empty list is linked. -/
inductive Linked (R : α → α → Prop) (E : α → Prop) : List α → Prop where
  | nil : Linked R E []
  | last {a} (ha : E a) : Linked R E [a]
  | link {a b l} (hab : R a b) (hl : Linked R E (b :: l)) : Linked R E (a :: b :: l)

namespace Linked

variable {R : α → α → Prop} {E : α → Prop} {l : List α} {a b : α}

/-- An element is related to a later one, or is the last. -/
theorem next_or_last (h : Linked R E l) (ha : a ∈ l) :
    (∃ b ∈ l, R a b) ∨ (E a ∧ ∃ l', l = l' ++ [a]) := by
  induction h with
  | nil => cases ha
  | last hE =>
      obtain rfl : a = _ := by simpa using ha
      exact .inr ⟨hE, [], rfl⟩
  | @link x y l hxy hl ih =>
      rcases List.mem_cons.mp ha with rfl | ha
      · exact .inl ⟨y, by simp, hxy⟩
      · rcases ih ha with ⟨b, hb, hab⟩ | ⟨hE, l', hl'⟩
        · exact .inl ⟨b, List.mem_cons_of_mem _ hb, hab⟩
        · exact .inr ⟨hE, x :: l', by rw [hl']; rfl⟩

/-- A property that excludes having a successor holds of the last element only. -/
theorem eq_last (h : Linked R E l) {P : α → Prop} (hP : ∀ {a b}, R a b → ¬ P a)
    (ha : a ∈ l) (hPa : P a) :
    ∃ l', l = l' ++ [a] := by
  rcases h.next_or_last ha with ⟨b, -, hab⟩ | ⟨-, hl'⟩
  · exact absurd hPa (hP hab)
  · exact hl'

theorem eq_of_last (h : Linked R E l) {P : α → Prop} (hP : ∀ {a b}, R a b → ¬ P a)
    (ha : a ∈ l) (hPa : P a)
    (hb : b ∈ l) (hPb : P b) : a = b := by
  obtain ⟨l₁, rfl⟩ := h.eq_last hP ha hPa
  obtain ⟨l₂, h₂⟩ := h.eq_last hP hb hPb
  simpa using congrArg List.getLast? h₂

/-- An element without a successor is the last. -/
theorem eq_nil_of_last {l₁ l₂ : List α} (h : Linked R E (l₁ ++ a :: l₂))
    (hP : ∀ {b}, ¬ R a b) : l₂ = [] := by
  -- on what stands before `a`: at `a` itself a successor would be related to it
  induction l₁ with
  | nil =>
      cases h with
      | last _ => rfl
      | link hab _ => exact absurd hab hP
  | cons x l₁ ih =>
      cases l₁ with
      | nil =>
          cases h with
          | link _ hl => exact ih hl
      | cons y l₁ =>
          cases h with
          | link _ hl => exact ih hl

/-- What each element hands on to the next is the same for all. -/
theorem map_eq {γ : Type} {f : α → γ} (h : Linked R E l) (hf : ∀ {a b}, R a b → f b = f a) :
    ∀ x ∈ l, ∀ y ∈ l, f x = f y := by
  induction h with
  | nil =>
      intro x hx
      cases hx
  | @last z _ =>
      intro x hx y hy
      rw [List.mem_singleton.mp hx, List.mem_singleton.mp hy]
  | @link z w l hzw _ ih =>
      have hfirst : ∀ x ∈ z :: w :: l, f x = f w := by
        intro x hx
        rcases List.mem_cons.mp hx with rfl | hx
        · exact (hf hzw).symm
        · exact ih x hx w List.mem_cons_self
      intro x hx y hy
      rw [hfirst x hx, hfirst y hy]

/-- An element is the first, or a successor of another. -/
theorem head_or_prev (h : Linked R E l) (hb : b ∈ l) : l.head? = some b ∨ ∃ a ∈ l, R a b := by
  induction h with
  | nil => cases hb
  | last _ =>
      obtain rfl : b = _ := by simpa using hb
      exact .inl rfl
  | @link x y l hxy hl ih =>
      rcases List.mem_cons.mp hb with rfl | hb
      · exact .inl rfl
      · rcases ih hb with hy | ⟨a, ha, hab⟩
        · obtain rfl : y = b := by simpa using hy
          exact .inr ⟨x, by simp, hxy⟩
        · exact .inr ⟨a, List.mem_cons_of_mem _ ha, hab⟩

/-- A list whose elements all relate to anything can be extended by any last element. -/
theorem of_forall (h : ∀ a ∈ l, ∀ b, R a b) (hb : E b) : Linked R E (l ++ [b]) := by
  induction l with
  | nil => exact .last hb
  | cons a l ih =>
      have htail := ih fun x hx => h x (List.mem_cons_of_mem _ hx)
      cases l with
      | nil => exact .link (h a (by simp) b) htail
      | cons c l => exact .link (h a (by simp) c) htail

/-- Grow by one element: the last one is rewritten so that it is related to the new last one. -/
theorem extend {a' : α} (h : Linked R E (l ++ [a])) (hprev : ∀ {x}, R x a → R x a')
    (hab : R a' b) (hb : E b) :
    Linked R E (l ++ [a', b]) := by
  -- on the elements before the last; only the link into the last one is touched
  induction l with
  | nil => exact .link hab (.last hb)
  | cons x l ih =>
      cases l with
      | nil =>
          cases h with
          | link hxa _ => exact .link (hprev hxa) (.link hab (.last hb))
      | cons y l =>
          cases h with
          | link hxy hl => exact .link hxy (ih hl)

/-- Rewrite element by element. -/
theorem forall₂ {Q : α → α → Prop} {l' : List α} (h : Linked R E l) (hl : List.Forall₂ Q l l')
    (hR : ∀ {a b a' b'}, R a b → Q a a' → Q b b' → R a' b') (hE : ∀ {a a'}, E a → Q a a' → E a') :
    Linked R E l' := by
  induction h generalizing l' with
  | nil =>
      cases hl
      exact .nil
  | last ha =>
      obtain _ | ⟨hQ, hnil⟩ := hl
      cases hnil
      exact .last (hE ha hQ)
  | link hab _ ih =>
      obtain _ | ⟨hQa, htail⟩ := hl
      obtain _ | ⟨hQb, htail'⟩ := htail
      exact .link (hR hab hQa hQb) (ih (.cons hQb htail'))

/-! ## Pointers

With `R` as "the pointer of the first is the key of the second" a linked list is a chain of references.
Its pointers are then the keys without the first one, so they are as distinct as the keys are. -/

variable {K : Type} {key : α → K} {next : α → Option K}

/-- The pointers of a linked list are the keys from the second on, and then none. -/
theorem map_next (h : Linked R E (a :: l)) (hR : ∀ {a b}, R a b → next a = some (key b))
    (hE : ∀ {a}, E a → next a = none) : (a :: l).map next = (l.map key).map some ++ [none] := by
  induction l generalizing a with
  | nil =>
      cases h with
      | last ha => simp [hE ha]
  | cons b l ih =>
      cases h with
      | link hab hl =>
          rw [List.map_cons, ih hl, hR hab]
          rfl

/-- No two elements have the same pointer. -/
theorem nodup_next (h : Linked R E l) (hR : ∀ {a b}, R a b → next a = some (key b))
    (hE : ∀ {a}, E a → next a = none) (hk : (l.map key).Nodup) : (l.map next).Nodup := by
  cases l with
  | nil => exact List.nodup_nil
  | cons a l =>
      -- the pointers are the keys of the tail, which are distinct, and `none`
      rw [h.map_next hR hE, List.nodup_append]
      refine ⟨(List.nodup_cons.mp hk).2.map fun _ _ heq => Option.some.inj heq, by simp, ?_⟩
      intro x hx y hy
      obtain ⟨k, -, rfl⟩ := List.mem_map.mp hx
      simp [List.mem_singleton.mp hy]

/-- The first element is pointed to by none. -/
theorem next_ne_head (h : Linked R E (a :: l)) (hR : ∀ {a b}, R a b → next a = some (key b))
    (hE : ∀ {a}, E a → next a = none) (hk : ((a :: l).map key).Nodup) (hb : b ∈ a :: l) :
    next b ≠ some (key a) := by
  intro heq
  -- a pointer to the head would make the head a key of the tail
  have hmem : some (key a) ∈ (a :: l).map next := heq ▸ List.mem_map_of_mem hb
  rw [h.map_next hR hE] at hmem
  have ha : key a ∈ l.map key := by simpa using hmem
  exact (List.nodup_cons.mp hk).1 ha

end Linked
