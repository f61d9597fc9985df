import Mathlib.Logic.Function.Basic

/-!
# `Lib.Pool` — calls that interleave over one shared state

A **pool** is a family of sequential calls, indexed by `C`, that read and write one shared state. Each
call is at a *local* state (its program counter together with its local variables), and one step of the
pool lets one call execute one atomic action. Which call moves, and every value the environment picks for
it, is the argument of the step, so a scheduler is just a list of pairs.

The rules below are the ones a safety proof needs:
* `Run.invariant` / `Run.invariant_with` — an invariant of every step is an invariant of every run;
* `Run.local_invariant` — the interleaving rule: a global invariant plus one assertion per call, shown to
  hold after the call's **own** step and to survive a step of any **other** call;
* `Run.project` — a run of the pool is a run of a component of it;
* `Run.relates` — a reflexive, transitive relation kept by every step relates the ends of every run;
* `Run.happened` — what a call knows at the end of a run, it learnt in one of its own steps;
* `Trace` / `Happens` — a run with its schedule, where the instants of the run are the beginnings of
  the schedule.

A run carries a side condition `ok` on its steps, so "every run whose steps all meet the condition" is a
`Run` too; `Steps` is the unconditional one.
-/

namespace Pool

variable {Sh Lo Act C : Type}

/-- The code of the calls: what call `c`, at local state `l`, does to the shared state under action `a`
    (`none`: the action is not enabled, for example because it waits for a lock). -/
abbrev Code (Sh Lo Act C : Type) := C → Sh → Lo → Act → Option (Sh × Lo)

/-- The shared state together with the local state of every call. There is no queue and no clock: what a
    call may do next depends on these two alone, and time is a value the environment hands to a step. -/
structure Config (Sh Lo C : Type) where
  shared : Sh
  calls  : C → Lo

variable [DecidableEq C]

/-- Call `c` executes action `a`. -/
def step (code : Code Sh Lo Act C) (s : Config Sh Lo C) (c : C) (a : Act) : Option (Config Sh Lo C) :=
  (code c s.shared (s.calls c) a).map fun r => ⟨r.1, Function.update s.calls c r.2⟩

/-- A side condition on steps: the state before the step, the call that moves and its action. -/
abbrev Allowed (Sh Lo Act C : Type) := Config Sh Lo C → C → Act → Prop

/-- The condition every step meets. -/
def anyStep : Allowed Sh Lo Act C := fun _ _ _ => True

instance (s : Config Sh Lo C) (c : C) (a : Act) : Decidable (anyStep s c a) := isTrue trivial

/-- Execute a schedule, as long as its steps meet `ok`. It is computable, so a concrete run is found by
    evaluating a list of pairs, and `run_of_replay` makes it a `Run`. -/
def replay (code : Code Sh Lo Act C) (ok : Allowed Sh Lo Act C) [∀ s c a, Decidable (ok s c a)] :
    Config Sh Lo C → List (C × Act) → Option (Config Sh Lo C)
  | s, []             => some s
  | s, (c, a) :: rest => if ok s c a then (step code s c a).bind fun t => replay code ok t rest else none

/-- A schedule of `n` calls, written with their numbers. -/
def turns (n : Nat) (moves : List (Nat × Act)) : List (Fin n × Act) :=
  moves.filterMap fun m => if h : m.1 < n then some (⟨m.1, h⟩, m.2) else none

/-- Runs all of whose steps meet `ok`. -/
inductive Run (code : Code Sh Lo Act C) (ok : Allowed Sh Lo Act C) :
    Config Sh Lo C → Config Sh Lo C → Prop where
  | refl {s} : Run code ok s s
  | tail {s t u c a} : Run code ok s t → ok t c a → step code t c a = some u → Run code ok s u

/-- Unconditional runs. -/
abbrev Steps (code : Code Sh Lo Act C) : Config Sh Lo C → Config Sh Lo C → Prop := Run code anyStep

variable {code : Code Sh Lo Act C} {ok : Allowed Sh Lo Act C} {s t u : Config Sh Lo C} {c : C} {a : Act}

/-- What one step can do: the code of the moving call fired, and only that call's local state moved. -/
theorem step_cases (h : step code s c a = some u) :
    ∃ sh l, code c s.shared (s.calls c) a = some (sh, l) ∧ u = ⟨sh, Function.update s.calls c l⟩ := by
  unfold step at h
  cases hc : code c s.shared (s.calls c) a with
  | none => simp [hc] at h
  | some r => exact ⟨r.1, r.2, rfl, by simpa [hc] using h.symm⟩

theorem step_calls_ne (h : step code s c a = some u) {d : C} (hd : d ≠ c) : u.calls d = s.calls d := by
  obtain ⟨sh, l, -, rfl⟩ := step_cases h
  simp [Function.update_of_ne hd]

/-! ## Runs compose

Runs are built at their end, so that an induction has the last step at hand; these lemmas give the
other shapes, and turn a schedule that has been executed into a run. -/

theorem Run.single (hok : ok s c a) (h : step code s c a = some u) : Run code ok s u :=
  .tail .refl hok h

theorem Run.trans (h₁ : Run code ok s t) (h₂ : Run code ok t u) : Run code ok s u := by
  induction h₂ with
  | refl => exact h₁
  | tail _ hok hst ih => exact .tail ih hok hst

theorem Run.mono {ok' : Allowed Sh Lo Act C} (himp : ∀ s c a, ok s c a → ok' s c a)
    (h : Run code ok s t) : Run code ok' s t := by
  induction h with
  | refl => exact .refl
  | tail _ hok hst ih => exact .tail ih (himp _ _ _ hok) hst

/-- A conditional run is a run. -/
theorem Run.steps (h : Run code ok s t) : Steps code s t := h.mono fun _ _ _ _ => trivial

/-- A schedule that executes is a run. -/
theorem run_of_replay [∀ s c a, Decidable (ok s c a)] {schedule : List (C × Act)}
    (h : replay code ok s schedule = some u) : Run code ok s u := by
  induction schedule generalizing s with
  | nil =>
      obtain rfl : s = u := by simpa [replay] using h
      exact .refl
  | cons ca rest ih =>
      obtain ⟨c, a⟩ := ca
      simp only [replay] at h
      split at h
      · next hok =>
        obtain ⟨t, hst, hrest⟩ := Option.bind_eq_some_iff.mp h
        exact (Run.single hok hst).trans (ih hrest)
      · cases h

/-- A schedule whose last state passes a check reaches such a state. -/
theorem exists_run_of_replay [∀ s c a, Decidable (ok s c a)] {schedule : List (C × Act)}
    {check : Config Sh Lo C → Bool} (h : (replay code ok s schedule).any check = true) :
    ∃ u, Run code ok s u ∧ check u = true := by
  rw [Option.any_eq_true] at h
  obtain ⟨u, hu, hcheck⟩ := h
  exact ⟨u, run_of_replay hu, hcheck⟩

/-! ## Invariants of runs

The rules by which a fact about one step becomes a fact about every run. Each of them is one induction,
done here once; a development then proves step lemmas only. -/

/-- **Invariant rule.** What the first state has and every allowed step keeps, every state of an allowed
    run has. -/
theorem Run.invariant {I : Config Sh Lo C → Prop}
    (hstep : ∀ {s c a u}, I s → ok s c a → step code s c a = some u → I u)
    (h : Run code ok s t) (h0 : I s) : I t := by
  induction h with
  | refl => exact h0
  | tail _ hok hst ih => exact hstep ih hok hst

/-- **Invariant rule, relative to an established invariant.** `J` is known to hold in every state of the
    run; the step lemma for `I` may use it before the step. -/
theorem Run.invariant_with {I J : Config Sh Lo C → Prop} (h : Run code ok s t)
    (hJ : ∀ {t}, Run code ok s t → J t)
    (hstep : ∀ {t c a u}, J t → I t → ok t c a → step code t c a = some u → I u) (h0 : I s) : I t := by
  induction h with
  | refl => exact h0
  | tail hr hok hst ih => exact hstep (hJ hr) ih hok hst

/-- **Interleaving rule.** `G` speaks about the shared state, `L c` about call `c`. The moving call must
    re-establish `G` and its own assertion; the assertion of every other call must survive the step. -/
theorem Run.local_invariant {G : Sh → Prop} {L : C → Sh → Lo → Prop} {J : Config Sh Lo C → Prop}
    (h : Run code ok s t) (hJ : ∀ {t}, Run code ok s t → J t)
    (hown : ∀ {t c a sh l}, J t → G t.shared → (∀ d, L d t.shared (t.calls d)) → ok t c a →
      code c t.shared (t.calls c) a = some (sh, l) → G sh ∧ L c sh l)
    (hother : ∀ {t c a sh l d}, J t → G t.shared → (∀ d, L d t.shared (t.calls d)) → ok t c a →
      code c t.shared (t.calls c) a = some (sh, l) → d ≠ c → L d sh (t.calls d))
    (h0 : G s.shared ∧ ∀ d, L d s.shared (s.calls d)) :
    G t.shared ∧ ∀ d, L d t.shared (t.calls d) := by
  refine h.invariant_with (I := fun t => G t.shared ∧ ∀ d, L d t.shared (t.calls d)) hJ ?_ h0
  rintro t c a u hJt ⟨hG, hL⟩ hok hst
  obtain ⟨sh, l, hc, rfl⟩ := step_cases hst
  obtain ⟨hG', hL'⟩ := hown hJt hG hL hok hc
  refine ⟨hG', fun d => ?_⟩
  by_cases hd : d = c
  · subst hd; simpa using hL'
  · simpa [Function.update_of_ne hd] using hother hJt hG hL hok hc hd

/-- **Projection rule.** Where every step is a step of another pool, or does not show in it, every run
    is a run of that pool. -/
theorem Run.project {Sh' Lo' Act' : Type} {code' : Code Sh' Lo' Act' C} {ok' : Allowed Sh' Lo' Act' C}
    {f : Config Sh Lo C → Config Sh' Lo' C}
    (hstep : ∀ {s c a u}, ok s c a → step code s c a = some u →
      f u = f s ∨ ∃ a', ok' (f s) c a' ∧ step code' (f s) c a' = some (f u))
    (h : Run code ok s t) : Run code' ok' (f s) (f t) := by
  induction h with
  | refl => exact .refl
  | tail _ hok hst ih =>
      rcases hstep hok hst with heq | ⟨a', hok', hst'⟩
      · rw [heq]
        exact ih
      · exact .tail ih hok' hst'

/-- A reflexive, transitive relation kept by every step relates the ends of a run. -/
theorem Run.relates {R : Config Sh Lo C → Config Sh Lo C → Prop} (hrefl : ∀ s, R s s)
    (htrans : ∀ {s t u}, R s t → R t u → R s u) (h : Run code ok s t)
    {J : Config Sh Lo C → Prop} (hJ : ∀ {t}, Run code ok s t → J t)
    (hstep : ∀ {s c a u}, J s → ok s c a → step code s c a = some u → R s u) : R s t := by
  induction h with
  | refl => exact hrefl _
  | tail hr hok hst ih => exact htrans ih (hstep (hJ hr) hok hst)

/-- **History rule.** What call `c` has come to know during the run, it learnt in one of its own steps:
    if `P` begins to hold of its local state only in a step described by `E`, the run contains such a
    step. -/
theorem Run.happened {P : Lo → Prop} {E : Config Sh Lo C → Act → Config Sh Lo C → Prop}
    (h : Run code ok s t)
    (h0 : ¬ P (s.calls c))
    (hown : ∀ {t a u}, Run code ok s t → ok t c a → step code t c a = some u → P (u.calls c) →
      P (t.calls c) ∨ E t a u)
    (hP : P (t.calls c)) :
    ∃ t₀ a t₁, Run code ok s t₀ ∧ ok t₀ c a ∧ step code t₀ c a = some t₁ ∧ E t₀ a t₁ ∧
      Run code ok t₁ t := by
  induction h with
  | refl => exact absurd hP h0
  | @tail t u d a hr hok hst ih =>
      have hearlier : P (t.calls c) →
          ∃ t₀ a t₁, Run code ok s t₀ ∧ ok t₀ c a ∧ step code t₀ c a = some t₁ ∧ E t₀ a t₁ ∧
            Run code ok t₁ u := by
        intro hPt
        obtain ⟨t₀, b, t₁, hr₀, hok₀, hst₀, hE, hr₁⟩ := ih hPt
        exact ⟨t₀, b, t₁, hr₀, hok₀, hst₀, hE, .tail hr₁ hok hst⟩
      by_cases hd : d = c
      · subst hd
        rcases hown hr hok hst hP with hPt | hE
        · exact hearlier hPt
        · exact ⟨t, a, u, hr, hok, hst, hE, .refl⟩
      · rw [step_calls_ne hst (Ne.symm hd)] at hP
        exact hearlier hP

/-- A call that can do nothing any more stays as it is. -/
theorem Run.halted {F : Lo → Prop} (hF : ∀ {c sh l a r}, code c sh l a = some r → ¬ F l)
    (h : Run code ok s t) (hc : F (s.calls c)) : t.calls c = s.calls c := by
  induction h with
  | refl => rfl
  | tail _ _ hst ih =>
      obtain ⟨sh, l, hcode, rfl⟩ := step_cases hst
      -- the call that moved cannot be `c`: its state allows no step
      refine (Function.update_of_ne ?_ _ _).trans ih
      rintro rfl
      exact hF hcode (ih ▸ hc)

/-! ## Histories

A property that speaks about earlier moments ("was answered at most so long after", "had been loaded
before") needs the schedule, not just the state it ends in. A moment of a run is a beginning of its
schedule. -/

/-- The run of a schedule. Its instants are the lists the schedule begins with. -/
inductive Trace (code : Code Sh Lo Act C) (s : Config Sh Lo C) :
    List (C × Act) → Config Sh Lo C → Prop where
  | nil : Trace code s [] s
  | snoc {p t u c a} : Trace code s p t → step code t c a = some u → Trace code s (p ++ [(c, a)]) u

/-- In the run of `q`, call `c` executes `a` at the instant `p`, in state `t`. -/
structure Happens (code : Code Sh Lo Act C) (s : Config Sh Lo C) (q p : List (C × Act))
    (t : Config Sh Lo C) (c : C)
    (a : Act) : Prop where
  trace   : Trace code s p t
  earlier : p ++ [(c, a)] <+: q

variable {p q r : List (C × Act)}

theorem Trace.steps (h : Trace code s q t) : Steps code s t := by
  induction h with
  | nil => exact .refl
  | snoc _ hst ih => exact .tail ih trivial hst

theorem Trace.last (h : Trace code s (q ++ [(c, a)]) u) :
    ∃ t, Trace code s q t ∧ step code t c a = some u := by
  generalize hq : q ++ [(c, a)] = q' at h
  cases h with
  | nil => exact absurd hq (List.append_ne_nil_of_right_ne_nil _ (List.cons_ne_nil _ _))
  | snoc h hst =>
      obtain ⟨rfl, hlast⟩ := List.append_inj' hq rfl
      obtain ⟨rfl, rfl⟩ := Prod.mk.inj (List.head_eq_of_cons_eq hlast)
      exact ⟨_, h, hst⟩

/-- A run is at every instant in some state. -/
theorem Trace.instant (h : Trace code s q t) (hp : p <+: q) : ∃ u, Trace code s p u := by
  induction h generalizing p with
  | nil =>
      rw [List.prefix_nil.mp hp]
      exact ⟨s, .nil⟩
  | snoc h hst ih =>
      rcases List.prefix_concat_iff.mp hp with rfl | hp
      · exact ⟨_, .snoc h hst⟩
      · exact ih hp

theorem Happens.mono (h : Happens code s q p t c a) (hq : q <+: r) : Happens code s r p t c a :=
  ⟨h.trace, h.earlier.trans hq⟩

/-- The last step of a run. -/
theorem Trace.happens (h : Trace code s q t) (c : C) (a : Act) :
    Happens code s (q ++ [(c, a)]) q t c a :=
  ⟨h, List.prefix_rfl⟩

/-- A schedule that executes has a trace. -/
theorem Trace.replay (h : Trace code s q t) (hreplay : replay code anyStep t r = some u) :
    Trace code s (q ++ r) u := by
  induction r generalizing q t with
  | nil =>
      obtain rfl : t = u := by simpa [Pool.replay] using hreplay
      rw [List.append_nil]
      exact h
  | cons ca rest ih =>
      obtain ⟨c, a⟩ := ca
      simp only [Pool.replay, anyStep] at hreplay
      obtain ⟨v, hst, hrest⟩ := Option.bind_eq_some_iff.mp hreplay
      have := ih (h.snoc hst) hrest
      rwa [List.append_assoc] at this

/-- A schedule whose last state passes a check. -/
theorem exists_trace_of_replay {check : Config Sh Lo C → Bool}
    (h : (replay code anyStep s q).any check = true) :
    ∃ u, Trace code s q u ∧ check u = true := by
  rw [Option.any_eq_true] at h
  obtain ⟨u, hu, hcheck⟩ := h
  exact ⟨u, Trace.nil.replay hu, hcheck⟩

end Pool
