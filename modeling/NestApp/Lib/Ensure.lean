import Mathlib.Data.List.Infix

/-!
# `Lib.Ensure` — find or create, as a list of goals

An installer works through a list of **goals**: what is met is left alone, the rest is created. `act i`
is what the installer does for goal `i`, `met i` says that there is nothing left to do. `Ensures` are
the two laws of one goal; `Ordered` says that no later goal of a list undoes an earlier one. Then every
goal is met in the end (`met_run`), a second run does nothing (`run_run`), and neither does it matter
where an earlier run stopped (`run_resume`).
-/

namespace Ensure

variable {ι σ : Type} {act : ι → σ → σ} {met : ι → σ → Prop} {goals done : List ι} {s : σ}

/-- Nothing is done for a goal that is met, and what is done for a goal meets it. These are the two laws
    of "find or create". -/
structure Ensures (act : ι → σ → σ) (met : ι → σ → Prop) : Prop where
  idle  : ∀ i s, met i s → act i s = s
  meets : ∀ i s, met i (act i s)

/-- No later goal undoes an earlier one. Goals may depend on earlier ones, so the list has an order that
    is not arbitrary. -/
def Ordered (act : ι → σ → σ) (met : ι → σ → Prop) (goals : List ι) : Prop :=
  goals.Pairwise fun i j => ∀ s, met i s → met i (act j s)

/-- Work through a list of goals. -/
def run (act : ι → σ → σ) (goals : List ι) (s : σ) : σ := goals.foldl (fun s i => act i s) s

@[simp] theorem run_nil : run act [] s = s := rfl

@[simp] theorem run_cons {i : ι} : run act (i :: goals) s = run act goals (act i s) := rfl

theorem run_append : run act (done ++ goals) s = run act goals (run act done s) := List.foldl_append

theorem run_snoc {i : ι} : run act (goals ++ [i]) s = act i (run act goals s) := by
  rw [run_append, run_cons, run_nil]

/-- Where every goal is met, nothing is done. -/
theorem run_of_met (h : Ensures act met) (hmet : ∀ i ∈ goals, met i s) : run act goals s = s := by
  induction goals with
  | nil => rfl
  | cons i rest ih =>
      rw [run_cons, h.idle i s (hmet i List.mem_cons_self)]
      exact ih fun j hj => hmet j (List.mem_cons_of_mem i hj)

/-- What holds of a goal stays, through goals that all keep it. -/
theorem kept_run {i : ι} (hkeep : ∀ j ∈ goals, ∀ s, met i s → met i (act j s)) (hmet : met i s) :
    met i (run act goals s) := by
  induction goals generalizing s with
  | nil => exact hmet
  | cons j rest ih =>
      rw [run_cons]
      apply ih
      · intro k hk
        exact hkeep k (List.mem_cons_of_mem j hk)
      · exact hkeep j List.mem_cons_self s hmet

/-- In the end every goal is met. -/
theorem met_run (h : Ensures act met) (hordered : Ordered act met goals) :
    ∀ i ∈ goals, met i (run act goals s) := by
  induction goals generalizing s with
  | nil => exact fun i hi => absurd hi List.not_mem_nil
  | cons j rest ih =>
      obtain ⟨hj, hrest⟩ := List.pairwise_cons.mp hordered
      intro i hi
      rw [run_cons]
      cases List.mem_cons.mp hi with
      | inl heq =>
          subst heq
          exact kept_run hj (h.meets i s)
      | inr hmem => exact ih hrest i hmem

/-! ## Goals that nothing undoes -/

theorem ordered_of_kept (h : ∀ i ∈ goals, ∀ j s, met i s → met i (act j s)) : Ordered act met goals := by
  induction goals with
  | nil => exact List.Pairwise.nil
  | cons i rest ih =>
      apply List.Pairwise.cons
      · intro j _
        exact h i List.mem_cons_self j
      · exact ih fun j hj => h j (List.mem_cons_of_mem i hj)

/-- The last goal may depend on the others. -/
theorem ordered_snoc (h : ∀ i ∈ goals, ∀ j s, met i s → met i (act j s)) (last : ι) :
    Ordered act met (goals ++ [last]) := by
  refine List.pairwise_append.mpr ⟨ordered_of_kept h, List.pairwise_singleton _ _, ?_⟩
  intro i hi j _
  exact h i hi j

/-! ## Runs -/

/-- **Idempotence**: a second run does nothing. -/
theorem run_run (h : Ensures act met) (hordered : Ordered act met goals) :
    run act goals (run act goals s) = run act goals s :=
  run_of_met h (met_run h hordered)

/-- **Resumption**: a run from where an earlier one stopped ends as the earlier one would have ended. -/
theorem run_resume (h : Ensures act met) (hordered : Ordered act met goals) (hdone : done <+: goals) :
    run act goals (run act done s) = run act goals s := by
  obtain ⟨rest, rfl⟩ := hdone
  have hfirst : Ordered act met done :=
    List.Pairwise.sublist (List.sublist_append_left done rest) hordered
  rw [run_append, run_run h hfirst, ← run_append]

end Ensure
