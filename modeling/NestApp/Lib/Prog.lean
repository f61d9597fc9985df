import Mathlib.Logic.Basic

/-!
# `Lib.Prog` — programs with a state and exceptions, and their triples

A `Prog σ ε α` reads and writes a state `σ` and returns an `α` or throws an `ε`; a throw keeps the state
reached, as an exception in a service does with what was already written. `Prog.transaction` undoes the
part of the state a given function restores.

`Triple P m Q E` is the usual triple with a second postcondition: from a state satisfying `P`, `m` either
returns `a` in a state satisfying `Q a`, or throws in a state satisfying `E`. The rules follow the
constructors; `Keeps I` is the triple of an invariant.
-/

/-- A program over the state `σ`: it returns or throws, and leaves a state either way. It is a plain
    function, so a program can be run on a concrete state by evaluation. -/
def Prog (σ ε α : Type) : Type := σ → Except ε α × σ

namespace Prog

variable {σ ε α β : Type}

instance : Monad (Prog σ ε) where
  pure a := fun s => (.ok a, s)
  bind m f := fun s =>
    match m s with
    | (.ok a, s')    => f a s'
    | (.error e, s') => (.error e, s')

instance : LawfulMonad (Prog σ ε) :=
  LawfulMonad.mk' (Prog σ ε)
    (fun m => by
      funext s
      show (match m s with | (.ok a, s') => (Except.ok a, s') | (.error e, s') => (.error e, s')) = m s
      split <;> next h => exact h.symm)
    (fun _ _ => rfl)
    (fun m f g => by
      funext s
      show (match (match m s with | (.ok a, s') => f a s' | (.error e, s') => (.error e, s')) with
        | (.ok b, s') => g b s' | (.error e, s') => (.error e, s')) = match m s with
        | (.ok a, s') =>
            (match f a s' with | (.ok b, s'') => g b s'' | (.error e, s'') => (.error e, s''))
        | (.error e, s') => (.error e, s')
      cases m s with
      | mk r s' => cases r <;> rfl)

def throw (e : ε) : Prog σ ε α := fun s => (.error e, s)

/-- A value read off the state. -/
def gets (f : σ → α) : Prog σ ε α := fun s => (.ok (f s), s)

def modify (f : σ → σ) : Prog σ ε Unit := fun s => (.ok (), f s)

/-- Throw unless the option holds a value. -/
def orThrow (o : Option α) (e : ε) : Prog σ ε α :=
  match o with
  | some a => pure a
  | none   => throw e

/-- Throw if the condition holds. -/
def throwIf (c : Prop) [Decidable c] (e : ε) : Prog σ ε Unit := if c then throw e else pure ()

/-- `try { … } catch (error) { throw f(error) }` -/
def mapError (f : ε → ε) (m : Prog σ ε α) : Prog σ ε α := fun s =>
  match m s with
  | (.ok a, s')    => (.ok a, s')
  | (.error e, s') => (.error (f e), s')

/-- `try { … } catch (error) { … }` -/
def tryCatch (m : Prog σ ε α) (handler : ε → Prog σ ε α) : Prog σ ε α := fun s =>
  match m s with
  | (.ok a, s')    => (.ok a, s')
  | (.error e, s') => handler e s'

/-- Run a program on a part of the state. -/
def zoom {τ : Type} (get : σ → τ) (set : σ → τ → σ) (m : Prog τ ε α) : Prog σ ε α := fun s =>
  match m (get s) with
  | (r, t) => (r, set s t)

/-- Run `m`; if it throws, `restore` the state from the one before. -/
def transaction (restore : σ → σ → σ) (m : Prog σ ε α) : Prog σ ε α := fun s =>
  match m s with
  | (.ok a, s')    => (.ok a, s')
  | (.error e, s') => (.error e, restore s s')

/-! ## Triples

One rule for each way of building a program. A rule for `bind` carries the assertion between the two
parts; what may be thrown in the first part is thrown by the whole, so the second postcondition is
shared. -/

/-- From `P`, the program returns in `Q` or throws in `E`. There is no third way: a program of this kind
    always ends. -/
def Triple (P : σ → Prop) (m : Prog σ ε α) (Q : α → σ → Prop) (E : σ → Prop) : Prop :=
  ∀ s, P s →
    match m s with
    | (.ok a, s')    => Q a s'
    | (.error _, s') => E s'

/-- The program keeps `I`, whether it returns or throws. What was written before a throw is still there,
    so an invariant has to survive a throw at every point. -/
def Keeps (I : σ → Prop) (m : Prog σ ε α) : Prop := Triple I m (fun _ => I) I

variable {P : σ → Prop} {Q : α → σ → Prop} {R : β → σ → Prop} {E : σ → Prop} {m : Prog σ ε α}
  {f : α → Prog σ ε β}

theorem Triple.pure {a : α} (h : ∀ s, P s → Q a s) : Triple P (pure a : Prog σ ε α) Q E := h

theorem Triple.throw {e : ε} (h : ∀ s, P s → E s) : Triple P (throw e : Prog σ ε α) Q E := h

theorem Triple.gets {g : σ → α} (h : ∀ s, P s → Q (g s) s) : Triple P (gets g : Prog σ ε α) Q E := h

theorem Triple.modify {g : σ → σ} {Q : Unit → σ → Prop} (h : ∀ s, P s → Q () (g s)) :
    Triple P (modify g : Prog σ ε Unit) Q E := h

/-- However the program ends, it leaves a state satisfying `E`. -/
theorem Triple.final (h : Triple P m (fun _ => E) E) {s : σ} (hs : P s) : E (m s).2 := by
  have hm := h s hs
  cases hms : m s with
  | mk r s' =>
      rw [hms] at hm
      cases r with
      | error e => exact hm
      | ok a => exact hm

/-- A program that cannot throw returns. -/
theorem Triple.returns (h : Triple P m Q fun _ => False) {s : σ} (hs : P s) :
    ∃ a, (m s).1 = .ok a ∧ Q a (m s).2 := by
  have hm := h s hs
  cases hms : m s with
  | mk r s' =>
      rw [hms] at hm
      cases r with
      | error e => exact hm.elim
      | ok a => exact ⟨a, rfl, hm⟩

theorem Triple.mapError {g : ε → ε} (h : Triple P m Q E) : Triple P (mapError g m) Q E := by
  intro s hs
  have hm := h s hs
  unfold Prog.mapError
  cases hms : m s with
  | mk r s' =>
      rw [hms] at hm
      cases r with
      | error e => exact hm
      | ok a => exact hm

/-- Sequential composition. -/
theorem Triple.bind (hm : Triple P m Q E) (hf : ∀ a, Triple (Q a) (f a) R E) :
    Triple P (m >>= f) R E := by
  intro s hs
  have h := hm s hs
  -- `m >>= f` by definition: run `m`, and `f` only after a result
  change match (match m s with | (.ok a, s') => f a s' | (.error e, s') => (.error e, s')) with
    | (.ok a, s') => R a s' | (.error _, s') => E s'
  cases hms : m s with
  | mk r s' =>
      rw [hms] at h
      cases r with
      | error e => exact h
      | ok a => exact hf a s' h

theorem Triple.conseq {P' : σ → Prop} {Q' : α → σ → Prop} {E' : σ → Prop} (h : Triple P m Q E)
    (hP : ∀ s, P' s → P s) (hQ : ∀ a s, Q a s → Q' a s) (hE : ∀ s, E s → E' s) : Triple P' m Q' E' := by
  intro s hs
  have hm := h s (hP s hs)
  cases hms : m s with
  | mk r s' =>
      rw [hms] at hm
      cases r with
      | error e => exact hE s' hm
      | ok a => exact hQ a s' hm

/-- Reading a value: the rest of the program may assume where it was read. -/
theorem Triple.gets_bind {g : σ → α} (h : ∀ a, Triple (fun s => P s ∧ g s = a) (f a) R E) :
    Triple P (Prog.gets g >>= f) R E :=
  Triple.bind (Q := fun a s => P s ∧ g s = a) (Triple.gets fun _ hs => ⟨hs, rfl⟩) h

theorem Triple.orThrow_bind {o : Option α} {e : ε} (hn : ∀ s, P s → E s)
    (hs : ∀ a, o = some a → Triple P (f a) R E) : Triple P (orThrow o e >>= f) R E := by
  cases o with
  | none => exact Triple.bind (Q := fun _ _ => False) (Triple.throw hn) fun _ _ h => h.elim
  | some a =>
      exact Triple.bind (Q := fun x s => x = a ∧ P s) (Triple.pure fun _ hP => ⟨rfl, hP⟩) fun x s hx =>
      hx.1 ▸ hs a rfl s hx.2

theorem Triple.throwIf_bind {c : Prop} [Decidable c] {e : ε} {k : Unit → Prog σ ε β}
    (hc : ∀ s, P s → E s)
    (hn : ¬ c → Triple P (k ()) R E) : Triple P (throwIf c e >>= k) R E := by
  unfold throwIf
  split
  · exact Triple.bind (Q := fun _ _ => False) (Triple.throw hc) fun _ _ h => h.elim
  · next h => exact Triple.bind (Q := fun _ s => P s) (Triple.pure fun _ hP => hP) fun _ => hn h

theorem Triple.modify_bind {g : σ → σ} {k : Unit → Prog σ ε β} {P' : σ → Prop} (hg : ∀ s, P s → P' (g s))
    (hk : Triple P' (k ()) R E) : Triple P (Prog.modify g >>= k) R E :=
  Triple.bind (Q := fun _ => P') (Triple.modify hg) fun _ => hk

theorem Triple.transaction {restore : σ → σ → σ} {E' : σ → Prop} (s₀ : σ)
    (h : Triple (fun s => s = s₀) m Q E')
    (hE : ∀ s', E' s' → E (restore s₀ s')) : Triple (fun s => s = s₀) (transaction restore m) Q E := by
  rintro s rfl
  have hm := h s rfl
  unfold Prog.transaction
  cases hms : m s with
  | mk r s' =>
      rw [hms] at hm
      cases r with
      | error e => exact hE s' hm
      | ok a => exact hm

/-! ## Loops

`I done` describes the state when the elements in `done` have had their turn. -/

/-- `for (const x of l) acc = await f(acc, x)` -/
theorem Triple.fold {γ : Type} {I : List γ → α → σ → Prop} {f : α → γ → Prog σ ε α} {l : List γ}
    (hf : ∀ done x rest a, l = done ++ x :: rest →
      Triple (I done a) (f a x) (I (done ++ [x])) E) (a : α) :
    Triple (I [] a) (l.foldlM f a) (I l) E := by
  -- the induction is on what is left of the list
  suffices h : ∀ rest done a, l = done ++ rest →
    Triple (I done a) (rest.foldlM f a) (I l) E from h l [] a rfl
  intro rest
  induction rest with
  | nil =>
      intro done a hl
      rw [List.append_nil] at hl
      rw [List.foldlM_nil, hl]
      exact Triple.pure fun _ hs => hs
  | cons x rest ih =>
      intro done a hl
      rw [List.foldlM_cons]
      refine Triple.bind (hf done x rest a hl) fun b => ?_
      apply ih
      rw [hl, List.append_assoc, List.singleton_append]

/-- `for (const x of l) await k(x)` -/
theorem Triple.forEach {γ : Type} {I : List γ → σ → Prop} {k : γ → Prog σ ε PUnit} {l : List γ}
    (hk : ∀ done x rest, l = done ++ x :: rest → Triple (I done) (k x) (fun _ => I (done ++ [x])) E) :
    Triple (I []) (forM l k) (fun _ => I l) E := by
  suffices h : ∀ rest done, l = done ++ rest →
    Triple (I done) (forM rest k) (fun _ => I l) E from h l [] rfl
  intro rest
  induction rest with
  | nil =>
      intro done hl
      rw [List.append_nil] at hl
      rw [List.forM_nil, hl]
      exact Triple.pure fun _ hs => hs
  | cons x rest ih =>
      intro done hl
      rw [List.forM_cons]
      refine Triple.bind (hk done x rest hl) fun _ => ?_
      apply ih
      rw [hl, List.append_assoc, List.singleton_append]

/-! ## From one state

Symbolic execution: where a program starts in a known state, reading and writing are computed. -/

section Single

variable {s : σ}

/-- A triple holds if it holds from every state of its precondition. -/
theorem Triple.of_single (h : ∀ s, P s → Triple (· = s) m Q E) : Triple P m Q E :=
  fun s hs => h s hs s rfl

theorem Triple.pure_single {a : α} (h : Q a s) : Triple (· = s) (Pure.pure a : Prog σ ε α) Q E :=
  Triple.pure fun _ hs => hs ▸ h

theorem Triple.return_single {a : α} (h : Triple (· = s) (f a) R E) :
    Triple (· = s) ((Pure.pure a : Prog σ ε α) >>= f) R E := h

theorem Triple.throw_single {e : ε} (h : E s) : Triple (· = s) (Prog.throw e : Prog σ ε α) Q E :=
  Triple.throw fun _ hs => hs ▸ h

theorem Triple.gets_single {g : σ → α} (h : Triple (· = s) (f (g s)) R E) :
    Triple (· = s) (Prog.gets g >>= f) R E :=
  Triple.gets_bind fun _ => Triple.of_single fun _ ⟨hs, ha⟩ => by
    subst hs ha
    exact h

theorem Triple.modify_single {g : σ → σ} {k : Unit → Prog σ ε β} (h : Triple (· = g s) (k ()) R E) :
    Triple (· = s) (Prog.modify g >>= k) R E :=
  Triple.bind (Q := fun _ s' => s' = g s) (Triple.modify fun _ hs => hs ▸ rfl) fun _ => h

theorem Triple.orThrow_single {o : Option α} {e : ε} (hn : E s)
    (hs : ∀ a, o = some a → Triple (· = s) (f a) R E) :
    Triple (· = s) (orThrow o e >>= f) R E :=
  Triple.orThrow_bind (fun _ h => h ▸ hn) hs

theorem Triple.throwIf_single {c : Prop} [Decidable c] {e : ε} {k : Unit → Prog σ ε β} (hc : E s)
    (hn : ¬ c → Triple (· = s) (k ()) R E) : Triple (· = s) (throwIf c e >>= k) R E :=
  Triple.throwIf_bind (fun _ h => h ▸ hc) hn

theorem Triple.orThrow_last {o : Option α} {e : ε} (hn : E s) (hs : ∀ a, o = some a → Q a s) :
    Triple (· = s) (orThrow o e : Prog σ ε α) Q E := by
  cases o with
  | none => exact Triple.throw_single hn
  | some a => exact Triple.pure_single (hs a rfl)

theorem Triple.throwIf_last {c : Prop} [Decidable c] {e : ε} {Q : Unit → σ → Prop} (hc : E s)
    (hn : ¬ c → Q () s) :
    Triple (· = s) (throwIf c e) Q E := by
  unfold throwIf
  split
  · exact Triple.throw_single hc
  · next h => exact Triple.pure_single (hn h)

end Single

/-- A program on a part of the state changes that part only. -/
theorem Triple.zoom {τ : Type} {get : σ → τ} {set : σ → τ → σ} {m : Prog τ ε α}
    {Q : α → τ → Prop} {E : τ → Prop}
    {s : σ} (h : Triple (· = get s) m Q E) :
    Triple (· = s) (zoom get set m) (fun a s' => ∃ t, Q a t ∧ s' = set s t) fun s' => ∃ t, E t ∧
      s' = set s t := by
  rintro _ rfl
  have hm := h _ rfl
  unfold Prog.zoom
  cases hms : m (get _) with
  | mk r t =>
      rw [hms] at hm
      cases r with
      | error e => exact ⟨t, hm, rfl⟩
      | ok a => exact ⟨t, hm, rfl⟩

/-! ## Invariants

`Keeps I` is the triple whose three assertions are `I`. A program is shown to keep an invariant by its
constructors, with no assertion to be found in between. -/

namespace Keeps

variable {I : σ → Prop}

theorem pure (a : α) : Keeps I (pure a : Prog σ ε α) := Triple.pure fun _ h => h

theorem throw (e : ε) : Keeps I (throw e : Prog σ ε α) := Triple.throw fun _ h => h

theorem gets (g : σ → α) : Keeps I (gets g : Prog σ ε α) := Triple.gets fun _ h => h

theorem modify {g : σ → σ} (h : ∀ s, I s → I (g s)) : Keeps I (modify g : Prog σ ε Unit) :=
  Triple.modify h

theorem bind (hm : Keeps I m) (hf : ∀ a, Keeps I (f a)) : Keeps I (m >>= f) := Triple.bind hm hf

theorem orThrow (o : Option α) (e : ε) : Keeps I (orThrow o e : Prog σ ε α) := by
  cases o with
  | none => exact throw e
  | some a => exact pure a

theorem throwIf (c : Prop) [Decidable c] (e : ε) : Keeps I (throwIf c e : Prog σ ε Unit) := by
  unfold Prog.throwIf
  split
  · exact throw e
  · exact pure ()

theorem mapError {g : ε → ε} (h : Keeps I m) : Keeps I (mapError g m) := Triple.mapError h

theorem tryCatch {handler : ε → Prog σ ε α} (h : Keeps I m) (hh : ∀ e, Keeps I (handler e)) :
    Keeps I (tryCatch m handler) := by
  intro s hs
  have hm := h s hs
  unfold Prog.tryCatch
  cases hms : m s with
  | mk r s' =>
      rw [hms] at hm
      cases r with
      | error e => exact hh e s' hm
      | ok a => exact hm

theorem transaction {restore : σ → σ → σ} (h : Keeps I m) (hrestore : ∀ s s', I s → I (restore s s')) :
    Keeps I (transaction restore m) := by
  intro s hs
  have hm := h s hs
  unfold Prog.transaction
  cases hms : m s with
  | mk r s' =>
      rw [hms] at hm
      cases r with
      | error e => exact hrestore s s' hs
      | ok a => exact hm

/-- What a program keeps of a part of the state. -/
theorem zoom {τ : Type} {get : σ → τ} {set : σ → τ → σ} {m : Prog τ ε α} {J : τ → Prop} (h : Keeps J m)
    (hget : ∀ s t, get (set s t) = t) : Keeps (fun s => J (get s)) (zoom get set m) := by
  refine Triple.of_single fun s hs => ?_
  have hset : ∀ t, J t → J (get (set s t)) := by
    intro t ht
    rw [hget]
    exact ht
  have hpart : Triple (· = get s) m (fun _ => J) J :=
    Triple.conseq h (fun _ ht => ht ▸ hs) (fun _ _ ht => ht) fun _ ht => ht
  refine Triple.conseq (Triple.zoom hpart) (fun _ hs' => hs') ?_ ?_
  · rintro _ _ ⟨t, ht, rfl⟩
    exact hset t ht
  · rintro _ ⟨t, ht, rfl⟩
    exact hset t ht

theorem final (h : Keeps I m) {s : σ} (hs : I s) : I (m s).2 := Triple.final h hs

end Keeps

/-! ## Execution

The result of a program from a known state, as an equation: what the first statement does decides what
is left to run. -/

section Execution

variable {s s' : σ}

theorem bind_ok {a : α} (h : m s = (.ok a, s')) : (m >>= f) s = f a s' := by
  show (match m s with | (.ok a, s') => f a s' | (.error e, s') => (.error e, s')) = f a s'
  rw [h]

theorem bind_error {e : ε} (h : m s = (.error e, s')) : (m >>= f) s = (.error e, s') := by
  show (match m s with | (.ok a, s') => f a s' | (.error e, s') => (.error e, s')) = (.error e, s')
  rw [h]

/-- What returns has returned at every step. -/
theorem of_bind_ok {b : β} {s'' : σ} (h : (m >>= f) s = (.ok b, s'')) :
    ∃ a s', m s = (.ok a, s') ∧ f a s' = (.ok b, s'') := by
  cases hm : m s with
  | mk r s' =>
      cases r with
      | error e =>
          rw [bind_error hm] at h
          cases h
      | ok a =>
          rw [bind_ok hm] at h
          exact ⟨a, s', rfl, h⟩

theorem return_bind (a : α) : ((pure a : Prog σ ε α) >>= f) s = f a s := rfl

theorem gets_bind (g : σ → α) : (gets g >>= f) s = f (g s) s := rfl

theorem modify_bind (g : σ → σ) {k : Unit → Prog σ ε β} : (modify g >>= k) s = k () (g s) := rfl

theorem throwIf_bind_true {c : Prop} [Decidable c] {e : ε} {k : Unit → Prog σ ε β} (h : c) :
    (throwIf c e >>= k) s = (.error e, s) := by
  rw [throwIf, if_pos h]
  rfl

theorem throwIf_bind_false {c : Prop} [Decidable c] {e : ε} {k : Unit → Prog σ ε β} (h : ¬ c) :
    (throwIf c e >>= k) s = k () s := by
  rw [throwIf, if_neg h]
  rfl

theorem orThrow_bind_some {a : α} {e : ε} : (orThrow (some a) e >>= f) s = f a s := rfl

theorem orThrow_bind_none {e : ε} : (orThrow none e >>= f) s = (.error e, s) := rfl

theorem mapError_ok {g : ε → ε} {a : α} (h : m s = (.ok a, s')) : mapError g m s = (.ok a, s') := by
  rw [mapError, h]

theorem mapError_error {g : ε → ε} {e : ε} (h : m s = (.error e, s')) :
    mapError g m s = (.error (g e), s') := by
  rw [mapError, h]

theorem zoom_eq {τ : Type} {get : σ → τ} {set : σ → τ → σ} {m : Prog τ ε α} {r : Except ε α} {t : τ}
    (h : m (get s) = (r, t)) : zoom get set m s = (r, set s t) := by
  rw [zoom, h]

theorem transaction_ok {restore : σ → σ → σ} {a : α} (h : m s = (.ok a, s')) :
    transaction restore m s = (.ok a, s') := by
  rw [transaction, h]

theorem transaction_error {restore : σ → σ → σ} {e : ε} (h : m s = (.error e, s')) :
    transaction restore m s = (.error e, restore s s') := by
  rw [transaction, h]

/-- A transaction that commits ran its body to the end. -/
theorem of_transaction_ok {restore : σ → σ → σ} {a : α} (h : transaction restore m s = (.ok a, s')) :
    m s = (.ok a, s') := by
  unfold transaction at h
  cases hms : m s with
  | mk r t =>
      rw [hms] at h
      cases r with
      | error e => cases h
      | ok b => exact h

/-- A transaction that throws has the error of its body. -/
theorem of_transaction_error {restore : σ → σ → σ} {e : ε}
    (h : transaction restore m s = (.error e, s')) :
    ∃ t, m s = (.error e, t) := by
  unfold transaction at h
  cases hms : m s with
  | mk r t =>
      rw [hms] at h
      cases r with
      | error e' =>
          cases h
          exact ⟨t, rfl⟩
      | ok a => cases h

end Execution

end Prog
