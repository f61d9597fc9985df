import Mathlib.Data.List.Forall2
import NestApp.Lib.Prog
import NestApp.Lib.Table

/-!
# `Lib.Coupled` — two programs that cannot be told apart

`Coupled S A m n`: run from states related by `S`, the two programs end in states related by `S`, and
throw the same or return values related by `A`. The rules go by the constructors of a program, so a
program that reads a secret only where a rule allows it is coupled with itself for every pair of states
that agree but for the secret.

The second part is about the tables of two runs: rows related one by one (`Table.RowWise`) are found,
kept and stored together.
-/

namespace Prog

variable {σ τ σ' τ' ε α β α' β' : Type} {S : σ → τ → Prop} {A : α → β → Prop} {B : α' → β' → Prop}
  {m : Prog σ ε α}
  {n : Prog τ ε β}

/-- Two answers: the same exception, or related values. -/
inductive Answer (A : α → β → Prop) : Except ε α → Except ε β → Prop where
  | ok {a : α} {b : β} (h : A a b) : Answer A (.ok a) (.ok b)
  | error (e : ε) : Answer A (.error e) (.error e)

/-- Related values that are equal are equal answers. -/
theorem Answer.eq {a b : Except ε α} (h : Answer (· = ·) a b) : a = b := by
  cases h with
  | ok h => rw [h]
  | error e => rfl

/-- From related states: related answers, and related states. Two programs that are coupled for every
    pair of related states cannot be told apart by anybody who sees answers only, however often they are
    run. -/
def Coupled (S : σ → τ → Prop) (A : α → β → Prop) (m : Prog σ ε α) (n : Prog τ ε β) : Prop :=
  ∀ s t, S s t → Answer A (m s).1 (n t).1 ∧ S (m s).2 (n t).2

namespace Coupled

theorem pure {a : α} {b : β} (h : A a b) : Coupled S A (pure a : Prog σ ε α) (pure b) :=
  fun _ _ hs => ⟨.ok h, hs⟩

theorem throw (e : ε) : Coupled S A (throw e : Prog σ ε α) (throw e) := fun _ _ hs => ⟨.error e, hs⟩

theorem gets {f : σ → α} {g : τ → β} (h : ∀ s t, S s t → A (f s) (g t)) :
    Coupled S A (gets f : Prog σ ε α) (gets g) := fun s t hs => ⟨.ok (h s t hs), hs⟩

theorem modify {f : σ → σ} {g : τ → τ} (h : ∀ s t, S s t → S (f s) (g t)) :
    Coupled S (· = ·) (modify f : Prog σ ε Unit) (modify g) := fun s t hs => ⟨.ok rfl, h s t hs⟩

/-- One after the other: what the second programs do with related values is coupled. -/
theorem bind {f : α → Prog σ ε α'} {g : β → Prog τ ε β'} (h : Coupled S A m n)
    (hf : ∀ a b, A a b → Coupled S B (f a) (g b)) : Coupled S B (m >>= f) (n >>= g) := by
  intro s t hs
  obtain ⟨hanswer, hst⟩ := h s t hs
  cases hm : m s with
  | mk r s' =>
      cases hn : n t with
      | mk q t' =>
          rw [hm, hn] at hanswer hst
          cases hanswer with
          | error e =>
              rw [bind_error hm, bind_error hn]
              exact ⟨.error e, hst⟩
          | ok hab =>
              rw [bind_ok hm, bind_ok hn]
              exact hf _ _ hab s' t' hst

theorem orThrow {o : Option α} {o' : Option β} (h : Option.Rel A o o') (e : ε) :
    Coupled S A (orThrow o e : Prog σ ε α) (orThrow o' e) := by
  cases h with
  | none => exact throw e
  | some h => exact pure h

theorem throwIf {c c' : Prop} [Decidable c] [Decidable c'] (h : c ↔ c') (e : ε) :
    Coupled S (· = ·) (throwIf c e : Prog σ ε Unit) (throwIf c' e) := by
  unfold Prog.throwIf
  by_cases hc : c
  · rw [if_pos hc, if_pos (h.mp hc)]
    exact throw e
  · rw [if_neg hc, if_neg fun hc' => hc (h.mpr hc')]
    exact pure rfl

theorem mapError (f : ε → ε) (h : Coupled S A m n) : Coupled S A (mapError f m) (mapError f n) := by
  intro s t hs
  obtain ⟨hanswer, hst⟩ := h s t hs
  unfold Prog.mapError
  cases hm : m s with
  | mk r s' =>
      cases hn : n t with
      | mk q t' =>
          rw [hm, hn] at hanswer hst
          cases hanswer with
          | error e => exact ⟨.error _, hst⟩
          | ok hab => exact ⟨.ok hab, hst⟩

theorem tryCatch {f : ε → Prog σ ε α} {g : ε → Prog τ ε β} (h : Coupled S A m n)
    (hf : ∀ e, Coupled S A (f e) (g e)) : Coupled S A (tryCatch m f) (tryCatch n g) := by
  intro s t hs
  obtain ⟨hanswer, hst⟩ := h s t hs
  unfold Prog.tryCatch
  cases hm : m s with
  | mk r s' =>
      cases hn : n t with
      | mk q t' =>
          rw [hm, hn] at hanswer hst
          cases hanswer with
          | error e => exact hf e s' t' hst
          | ok hab => exact ⟨.ok hab, hst⟩

/-- Programs on a part of the state. -/
theorem zoom {S' : σ' → τ' → Prop} {get : σ' → σ} {set : σ' → σ → σ'} {get' : τ' → τ}
    {set' : τ' → τ → τ'}
    (h : Coupled S A m n) (hget : ∀ s t, S' s t → S (get s) (get' t))
    (hset : ∀ s t x y, S' s t → S x y → S' (set s x) (set' t y)) :
    Coupled S' A (zoom get set m) (zoom get' set' n) := by
  intro s t hs
  obtain ⟨hanswer, hst⟩ := h (get s) (get' t) (hget s t hs)
  unfold Prog.zoom
  cases hm : m (get s) with
  | mk r x =>
      cases hn : n (get' t) with
      | mk q y =>
          rw [hm, hn] at hanswer hst
          exact ⟨hanswer, hset s t x y hs hst⟩

theorem transaction {restore : σ → σ → σ} {restore' : τ → τ → τ} (h : Coupled S A m n)
    (hrestore : ∀ s t s' t', S s t → S s' t' → S (restore s s') (restore' t t')) :
    Coupled S A (transaction restore m) (transaction restore' n) := by
  intro s t hs
  obtain ⟨hanswer, hst⟩ := h s t hs
  unfold Prog.transaction
  cases hm : m s with
  | mk r s' =>
      cases hn : n t with
      | mk q t' =>
          rw [hm, hn] at hanswer hst
          cases hanswer with
          | error e => exact ⟨.error e, hrestore s t s' t' hs hst⟩
          | ok hab => exact ⟨.ok hab, hst⟩

theorem mono {A' : α → β → Prop} (h : Coupled S A m n) (hA : ∀ a b, A a b → A' a b) :
    Coupled S A' m n := by
  intro s t hs
  obtain ⟨hanswer, hst⟩ := h s t hs
  refine ⟨?_, hst⟩
  generalize (m s).1 = r at hanswer ⊢
  generalize (n t).1 = q at hanswer ⊢
  cases hanswer with
  | error e => exact .error e
  | ok hab => exact .ok (hA _ _ hab)

/-- A branch on something both programs see. A branch on a secret is not covered by any rule: there the
    two programs may part. -/
theorem branch {c : Prop} [Decidable c] {m' : Prog σ ε α} {n' : Prog τ ε β} (h : Coupled S A m n)
    (h' : Coupled S A m' n') : Coupled S A (if c then m else m') (if c then n else n') := by
  split
  · exact h
  · exact h'

end Coupled

end Prog

namespace List

variable {α β : Type} {Q : α → β → Prop} {l : List α} {l' : List β}

/-- The first element found, in two lists related one by one. -/
theorem Forall₂.find? {p : α → Bool} {q : β → Bool} (h : Forall₂ Q l l')
    (hp : ∀ a b, Q a b → p a = q b) :
    Option.Rel Q (l.find? p) (l'.find? q) := by
  induction h with
  | nil => exact .none
  | cons hab _ ih =>
      rw [List.find?_cons, List.find?_cons, ← hp _ _ hab]
      split
      · exact .some hab
      · exact ih

theorem Forall₂.filter {p : α → Bool} {q : β → Bool} (h : Forall₂ Q l l')
    (hp : ∀ a b, Q a b → p a = q b) :
    Forall₂ Q (l.filter p) (l'.filter q) :=
  List.rel_filter (fun a b hab => iff_of_eq (congrArg (· = true) (hp a b hab))) h

theorem Forall₂.all_eq {p : α → Bool} {q : β → Bool} (h : Forall₂ Q l l')
    (hp : ∀ a b, Q a b → p a = q b) :
    l.all p = l'.all q := by
  induction h with
  | nil => rfl
  | cons hab _ ih => rw [List.all_cons, List.all_cons, hp _ _ hab, ih]

theorem Forall₂.map_eq {γ : Type} {f : α → γ} {g : β → γ} (h : Forall₂ Q l l')
    (hf : ∀ a b, Q a b → f a = g b) :
    l.map f = l'.map g := by
  induction h with
  | nil => rfl
  | cons hab _ ih => rw [List.map_cons, List.map_cons, hf _ _ hab, ih]

end List

namespace Sql

namespace Table

variable {R K : Type} [Keyed R K] {Q : R → R → Prop} {t t' : Table R}

/-- Rows that two conditions tell apart alike are found together. -/
theorem RowWise.find? {p q : R → Bool} (h : RowWise Q t t')
    (hp : ∀ r r', key r' = key r → Q r r' → p r = q r') :
    Option.Rel (fun r r' => key r' = key r ∧ Q r r') (t.find? p) (t'.find? q) :=
  List.Forall₂.find? h fun r r' hr => hp r r' hr.1 hr.2

variable [DecidableEq K]

theorem RowWise.get_rel (h : RowWise Q t t') (k : K) :
    Option.Rel (fun r r' => key r' = key r ∧ Q r r') (t.get k) (t'.get k) :=
  List.Forall₂.find? h fun r r' hr => by rw [hr.1]

theorem RowWise.isSome_get (h : RowWise Q t t') (k : K) : (t.get k).isSome = (t'.get k).isSome := by
  have hrel := h.get_rel k
  generalize t.get k = o at hrel ⊢
  generalize t'.get k = o' at hrel ⊢
  cases hrel <;> rfl

/-- Related rows, stored in both. -/
theorem RowWise.put (h : RowWise Q t t') {r r' : R} (hkey : key r' = key r) (hr : Q r r') :
    RowWise Q (t.put r) (t'.put r') := by
  have hsome := h.isSome_get (key r)
  unfold RowWise
  cases hget : t.get (key r) with
  | none =>
      have hget' : t'.get (key r') = none := by
        rw [hget, ← hkey] at hsome
        exact Option.isSome_eq_false_iff.mp hsome.symm |> Option.isNone_iff_eq_none.mp
      rw [rows_put_new hget, rows_put_new hget']
      exact List.rel_append h (.cons ⟨hkey, hr⟩ .nil)
  | some x =>
      obtain ⟨x', hget'⟩ : ∃ x', t'.get (key r') = some x' := by
        rw [hget, ← hkey] at hsome
        exact Option.isSome_iff_exists.mp hsome.symm
      rw [rows_put_old hget, rows_put_old hget', List.forall₂_map_left_iff, List.forall₂_map_right_iff]
      -- the row of the key is replaced on both sides
      refine List.Forall₂.imp (fun y y' hy => ?_) h
      rw [swap, swap, hy.1, hkey]
      split
      · exact ⟨hkey, hr⟩
      · exact hy

end Table

end Sql
