import Mathlib.Order.RelClasses
import NestApp.Lib.Prog

/-!
# `Lib.Along` — programs that move the state along a preorder

`Along R m`: whether the program returns or throws, the state it leaves is one `R` leads to from the
state it began in. `R` says what a program may change, as one relation between the two ends; being a
preorder is what makes a sequence of allowed changes an allowed change. A frame ("everything else is
unchanged") is such an `R`.
-/

namespace Prog

variable {σ τ ε α β : Type} {R R' : σ → σ → Prop} {m : Prog σ ε α} {f : α → Prog σ ε β}

/-- The program moves the state along `R`, however it ends. Where `R` is a preorder, a program that is a
    sequence of such parts is one itself (`Along.bind`), and loops and branches follow from that. -/
def Along (R : σ → σ → Prop) (m : Prog σ ε α) : Prop := ∀ s, R s (m s).2

namespace Along

theorem mono (h : Along R m) (hR : ∀ s s', R s s' → R' s s') : Along R' m := fun s => hR _ _ (h s)

theorem of_triple (h : ∀ s, Triple (· = s) m (fun _ => R s) (R s)) : Along R m :=
  fun s => (h s).final rfl

theorem modify {g : σ → σ} (h : ∀ s, R s (g s)) : Along R (modify g : Prog σ ε Unit) := h

theorem mapError {g : ε → ε} (h : Along R m) : Along R (mapError g m) := by
  intro s
  have hm := h s
  unfold Prog.mapError
  cases hms : m s with
  | mk r s' =>
      rw [hms] at hm
      cases r <;> exact hm

/-- A program on a part of the state. -/
theorem zoom {get : σ → τ} {set : σ → τ → σ} {T : τ → τ → Prop} {n : Prog τ ε α} (h : Along T n)
    (hset : ∀ s t, T (get s) t → R s (set s t)) : Along R (zoom get set n) := by
  intro s
  have hn := h (get s)
  unfold Prog.zoom
  cases hns : n (get s) with
  | mk r t =>
      rw [hns] at hn
      exact hset s t hn

/-- A transaction that is rolled back leaves what `restore` brings back. So `R` has to lead there from
    the state before, whatever the body has done. -/
theorem transaction {restore : σ → σ → σ} (h : Along R m)
    (hrestore : ∀ s s', R s s' → R s (restore s s')) :
    Along R (transaction restore m) := by
  intro s
  have hm := h s
  unfold Prog.transaction
  cases hms : m s with
  | mk r s' =>
      rw [hms] at hm
      cases r with
      | ok a => exact hm
      | error e => exact hrestore s s' hm

section Refl

variable [Std.Refl R]

theorem pure (a : α) : Along R (pure a : Prog σ ε α) := fun s => refl_of R s

theorem throw (e : ε) : Along R (throw e : Prog σ ε α) := fun s => refl_of R s

theorem gets (g : σ → α) : Along R (gets g : Prog σ ε α) := fun s => refl_of R s

theorem orThrow (o : Option α) (e : ε) : Along R (orThrow o e : Prog σ ε α) := by
  cases o with
  | none => exact throw e
  | some a => exact pure a

theorem throwIf (c : Prop) [Decidable c] (e : ε) : Along R (throwIf c e : Prog σ ε Unit) := by
  unfold Prog.throwIf
  split
  · exact throw e
  · exact pure ()

end Refl

section Trans

variable [IsTrans σ R]

/-- One allowed change after the other. -/
theorem bind (hm : Along R m) (hf : ∀ a, Along R (f a)) : Along R (m >>= f) := by
  intro s
  have h := hm s
  cases hms : m s with
  | mk r s' =>
      rw [hms] at h
      cases r with
      | error e =>
          rw [bind_error hms]
          exact h
      | ok a =>
          rw [bind_ok hms]
          exact trans_of R h (hf a s')

/-- What is reached already, and then goes along. -/
theorem triple {s₀ : σ} (h : Along R m) : Triple (R s₀) m (fun _ => R s₀) (R s₀) := by
  intro s hs
  have hm := h s
  cases hms : m s with
  | mk r s' =>
      rw [hms] at hm
      cases r with
      | error e => exact trans_of R hs hm
      | ok a => exact trans_of R hs hm

theorem tryCatch {handler : ε → Prog σ ε α} (h : Along R m) (hh : ∀ e, Along R (handler e)) :
    Along R (tryCatch m handler) := by
  intro s
  have hm := h s
  unfold Prog.tryCatch
  cases hms : m s with
  | mk r s' =>
      rw [hms] at hm
      cases r with
      | ok a => exact hm
      | error e => exact trans_of R hm (hh e s')

end Trans

end Along

end Prog
