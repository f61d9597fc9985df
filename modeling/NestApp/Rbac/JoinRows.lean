import NestApp.Lib.Heap
import NestApp.Lib.Pool
import NestApp.Rbac.Seed

/-!
# `Rbac.JoinRows` — `replaceJoinRows`, statement by statement

`setRoles` and `setPermissions` replace the join rows of one owner in a transaction: validate,
`DELETE`, look for rows already there (the query `save` begins with), `INSERT`, commit. Nothing locks
the owner. The rows are those of `user_roles` (a user and a role) or `role_permissions` (a role and a
permission); the owner exists.

A `DELETE` that begins before another replacement of the owner commits does not see the rows that one
inserts, and both sets remain (`replacements_merge`).

`replacements_do_not_merge`: as long as a `DELETE` begins only while no other replacement of the owner
is between its `DELETE` and its `COMMIT`, what is committed for an owner is exactly what one successful
replacement asked for. Every transaction then finds the owner's rows unmarked, marks them all, and
inserts its own (`Phase`).
-/

namespace NestApp

open Sql

namespace JoinRows

/-! ## Steps

One statement, or one row of a `DELETE` or `INSERT`, a step. `DELETE` works on the versions it saw when
it began; `save` looks for rows already there first and inserts the others. -/

/-- A row of a join table, by its primary key. -/
structure JoinRow where
  owner : Uuid
  ref   : Uuid
deriving DecidableEq

inductive Pc where
  | start (owner : Uuid) (ids : List String)
  | delete (owner : Uuid) (ids : List String)
  /-- the `DELETE` still has to reach the versions at the places `todo` -/
  | sweep (owner : Uuid) (ids : List String) (todo : List Nat)
  | select (owner : Uuid) (ids : List String)
  | insert (owner : Uuid) (ids : List String) (rest : List Uuid)
  | done (owner : Uuid) (ids : List String)
  | failed (e : Failure)

/-- Run the next statement, or its next row (`tid` is the version a `DELETE` visits); or stop, rolling
    back. -/
inductive RowAct where
  | run (tid : Nat)
  | abort

variable {C : Type} [DecidableEq C]

def ofOwner (owner : Uuid) (row : JoinRow) : Bool := row.owner = owner

/-- The ids `save` finds no row for. -/
def missingRows (heap : Heap JoinRow C) (c : C) (owner : Uuid) (ids : List String) : List Uuid :=
  (ids.eraseDups.map Uuid.cast).filter fun ref =>
    !heap.versions.rows.any fun v => v.row = ⟨owner, ref⟩ && v.visible c

def step (referenced : List Uuid) (label : String) (c : C) (heap : Heap JoinRow C) (tid : Nat) :
    Pc → Option (Heap JoinRow C × Pc)
  | .start owner ids =>
      let existing := existingIds referenced ids.eraseDups
      if existing.length ≠ ids.eraseDups.length then
        some (heap, .failed (unknownIds label existing ids.eraseDups))
      else some (heap, .delete owner ids)
  | .delete owner ids => some (heap, .sweep owner ids (heap.select c (ofOwner owner)))
  | .sweep owner ids todo =>
      if todo = [] then some (heap, .select owner ids)
      else if tid ∈ todo then
        (heap.delete c (ofOwner owner) tid).map fun heap' =>
          (heap', .sweep owner ids (todo.filter (· ≠ tid)))
      else none
  | .select owner ids => some (heap, .insert owner ids (missingRows heap c owner ids))
  | .insert owner ids [] => some (heap.commit c, .done owner ids)
  | .insert owner ids (ref :: rest) =>
      let conflicts := heap.conflicts c ⟨owner, ref⟩
      if conflicts.isEmpty then some (heap.insert c ⟨owner, ref⟩, .insert owner ids rest)
      -- the unique index waits for the transactions that insert or delete the row, then raises 23505
      else if conflicts.all fun v => (v.inserting = none || v.inserting = some c) &&
        v.deleting = none then
        some (heap.rollback c, .failed .uniqueViolation)
      else none
  | .done _ _ | .failed _ => none

def Pc.finished : Pc → Bool
  | .done _ _ | .failed _ => true
  | _                     => false

def exec (referenced : List Uuid) (label : String) : Pool.Code (Heap JoinRow C) Pc RowAct C :=
  fun c heap pc a =>
  match a with
  | .abort   => if pc.finished then none else some (heap.rollback c, .failed .unexpected)
  | .run tid => step referenced label c heap tid pc

abbrev State (C : Type) := Pool.Config (Heap JoinRow C) Pc C

/-! ## The condition

Only the beginning of a `DELETE` is restricted. Everything after that, however slow, may overlap with
replacements of other owners. -/

/-- The owner whose rows the transaction is replacing, from its `DELETE` to its end. -/
def Pc.inFlight : Pc → Option Uuid
  | .sweep owner _ _ | .select owner _ | .insert owner _ _ => some owner
  | _                                                      => none

/-- A `DELETE` begins while no other transaction is replacing the rows of the owner. -/
def noOverlappingReplace : Pool.Allowed (Heap JoinRow C) Pc RowAct C := fun s c a =>
  match a, s.calls c with
  | .run _, .delete owner _ => ∀ d, (s.calls d).inFlight ≠ some owner
  | _, _                    => True

/-! ## The invariant

Owner by owner: at most one transaction has marked versions, and it is in one of the phases. What is
committed for the owner changes at its commit only, and then all at once. -/

/-- What a transaction knows about the versions of its owner's rows. -/
def Phase (heap : Heap JoinRow C) (c : C) : Pc → Prop
  | .sweep owner _ todo => ∀ v ∈ heap.versions.rows, v.row.owner = owner →
      v.inserting = none ∧ (v.deleting = some c ∨ v.tid ∈ todo)
  | .select owner _ =>
      ∀ v ∈ heap.versions.rows, v.row.owner = owner → v.inserting = none ∧ v.deleting = some c
  | .insert owner ids rest =>
      (∀ v ∈ heap.versions.rows, v.row.owner = owner →
        (v.inserting = none ∧ v.deleting = some c) ∨
          (v.inserting = some c ∧ v.deleting = none ∧ v.row.ref ∈ ids.map Uuid.cast)) ∧
      (∀ ref ∈ ids.map Uuid.cast, ref ∈ rest ∨
        ∃ v ∈ heap.versions.rows, v.row = ⟨owner, ref⟩ ∧ v.inserting = some c ∧ v.deleting = none) ∧
      ∀ ref ∈ rest, ref ∈ ids.map Uuid.cast
  | _ => True

/-- What is committed for the owner of a successful replacement is what one successful replacement asked
    for. -/
def Settled (heap : Heap JoinRow C) (calls : C → Pc) : Prop :=
  ∀ c owner ids, calls c = .done owner ids → ∃ d ids', calls d = .done owner ids' ∧
    ∀ ref, heap.Committed ⟨owner, ref⟩ ↔ ref ∈ ids'.map Uuid.cast

/-- **The invariant**: one replacement of an owner at a time, and only it has marked the owner's
    versions. -/
structure Serial (heap : Heap JoinRow C) (calls : C → Pc) : Prop where
  exclusive : ∀ {c d owner}, (calls c).inFlight = some owner → (calls d).inFlight = some owner → c = d
  marks     : ∀ {v c}, v ∈ heap.versions.rows → v.Marked c → (calls c).inFlight = some v.row.owner
  phase     : ∀ c, Phase heap c (calls c)
  settled   : Settled heap calls

section

variable {referenced : List Uuid} {label : String} {c d : C} {heap heap' : Heap JoinRow C}
  {calls : C → Pc} {pc pc' : Pc}
  {owner : Uuid} {ids : List String} {tid : Nat}

omit [DecidableEq C] in
/-- A transaction's knowledge survives changes to the rows of other owners. -/
theorem Phase.frame (h : Phase heap c pc)
    (hsame : ∀ v, pc.inFlight = some v.row.owner → (v ∈ heap'.versions.rows ↔ v ∈ heap.versions.rows)) :
    Phase heap' c pc := by
  cases pc with
  | sweep owner ids todo => exact fun v hv ho => h v ((hsame v (congrArg some ho.symm)).mp hv) ho
  | select owner ids => exact fun v hv ho => h v ((hsame v (congrArg some ho.symm)).mp hv) ho
  | insert owner ids rest =>
      obtain ⟨hall, hins, hrest⟩ := h
      refine ⟨fun v hv ho => hall v ((hsame v (congrArg some ho.symm)).mp hv) ho,
        fun ref href => ?_, hrest⟩
      refine (hins ref href).imp id fun ⟨v, hv, hrow, hmark⟩ => ⟨v, (hsame v ?_).mpr hv, hrow, hmark⟩
      rw [hrow]
      rfl
  | start | delete | done | failed => trivial

/-- **One transaction moves**: it touches the rows of the owner it is replacing, and nothing else. -/
theorem Serial.move (h : Serial heap calls)
    (hlocal : Heap.Local c (fun row => (calls c).inFlight = some row.owner) heap heap')
    (hflight : ∀ owner, pc'.inFlight = some owner → (calls c).inFlight = some owner ∨
      ∀ d, (calls d).inFlight ≠ some owner)
    (hmarks : ∀ v ∈ heap'.versions.rows, v.Marked c → pc'.inFlight = some v.row.owner)
    (hphase : Phase heap' c pc')
    (hsettled : Settled heap' (Function.update calls c pc')) :
      Serial heap' (Function.update calls c pc') := by
  -- the transaction goes on with its owner, or starts where nobody else is
  have hclash : ∀ {d owner}, d ≠ c → pc'.inFlight = some owner →
    (calls d).inFlight = some owner → False := by
    intro d owner hd ho hdo
    rcases hflight owner ho with hown | hfree
    · exact hd (h.exclusive hdo hown)
    · exact hfree d hdo
  refine ⟨?_, ?_, ?_, hsettled⟩
  · intro d e owner hd he
    by_cases hdc : d = c <;> by_cases hec : e = c
    · rw [hdc, hec]
    · rw [hdc, Function.update_self] at hd
      rw [Function.update_of_ne hec] at he
      exact (hclash hec hd he).elim
    · rw [hec, Function.update_self] at he
      rw [Function.update_of_ne hdc] at hd
      exact (hclash hdc he hd).elim
    · rw [Function.update_of_ne hdc] at hd
      rw [Function.update_of_ne hec] at he
      exact h.exclusive hd he
  · intro v d hv hm
    by_cases hdc : d = c
    · subst hdc
      rw [Function.update_self]
      exact hmarks v hv hm
    · rw [Function.update_of_ne hdc]
      rcases hlocal.marks hv hm with ⟨he, -⟩ | ⟨v₀, hv₀, hrow, hm₀⟩
      · exact absurd he hdc
      · rw [← hrow]
        exact h.marks hv₀ hm₀
  · intro d
    by_cases hdc : d = c
    · subst hdc
      rw [Function.update_self]
      exact hphase
    · rw [Function.update_of_ne hdc]
      -- another transaction is replacing another owner's rows, which were not touched
      refine (h.phase d).frame fun v hd => hlocal.other fun hc => ?_
      exact hdc (h.exclusive hd hc)

/-- A step that commits nothing keeps the invariant's last part. -/
theorem Settled.kept (h : Settled heap calls) (hrows : ∀ row, heap'.Committed row ↔ heap.Committed row)
    (hpc : ∀ owner ids, calls c ≠ .done owner ids) (hpc' : ∀ owner ids, pc' ≠ .done owner ids) :
    Settled heap' (Function.update calls c pc') := by
  intro d owner ids hd
  have hdc : d ≠ c := by
    rintro rfl
    rw [Function.update_self] at hd
    exact hpc' owner ids hd
  rw [Function.update_of_ne hdc] at hd
  obtain ⟨e, ids', he, hcommitted⟩ := h d owner ids hd
  have hec : e ≠ c := fun heq => hpc owner ids' (heq ▸ he)
  exact ⟨e, ids', (Function.update_of_ne hec _ _).trans he, fun ref => (hrows _).trans (hcommitted ref)⟩

/-- A statement that writes nothing. -/
theorem Serial.quiet (h : Serial heap calls)
    (hflight : ∀ owner, pc'.inFlight = some owner → (calls c).inFlight = some owner ∨
      ∀ d, (calls d).inFlight ≠ some owner)
    (hmarks : ∀ owner, (calls c).inFlight = some owner → pc'.inFlight = some owner)
    (hphase : Phase heap c pc')
    (hpc : ∀ owner ids, calls c ≠ .done owner ids) (hpc' : ∀ owner ids, pc' ≠ .done owner ids) :
    Serial heap (Function.update calls c pc') :=
  h.move .refl hflight (fun _ hv hm => hmarks _ (h.marks hv hm)) hphase
    (h.settled.kept (fun _ => .rfl) hpc hpc')

/-- A transaction that fails. -/
theorem Serial.fail (h : Serial heap calls) {e : Failure}
    (hpc : ∀ owner ids, calls c ≠ .done owner ids) :
    Serial (heap.rollback c) (Function.update calls c (.failed e)) :=
  h.move (Heap.local_rollback fun _ hv hm => h.marks hv hm) (fun _ ho => nomatch ho)
    (fun _ hv hm => (Heap.not_marked_rollback hv hm).elim) trivial
    (h.settled.kept (fun _ => Heap.committed_rollback) hpc fun _ _ he => nomatch he)

omit [DecidableEq C] in
/-- Where nobody replaces the rows of an owner, their versions are unmarked. -/
theorem Serial.unmarked (h : Serial heap calls) (hfree : ∀ d, (calls d).inFlight ≠ some owner)
    {v : Version JoinRow C}
    (hv : v ∈ heap.versions.rows) (ho : v.row.owner = owner) : v.inserting = none ∧
      v.deleting = none := by
  have hnone : ∀ {o : Option C}, (∀ d, o = some d → v.Marked d) → o = none := by
    intro o hm
    cases o with
    | none => rfl
    | some d =>
        have hflight := h.marks hv (hm d rfl)
        rw [ho] at hflight
        exact absurd hflight (hfree d)
  exact ⟨hnone fun d => .inl, hnone fun d => .inr⟩

/-- **The commit**: the owner's rows are those the transaction inserted. -/
theorem Serial.commit (h : Serial heap calls) (hpc : calls c = .insert owner ids []) :
    Serial (heap.commit c) (Function.update calls c (.done owner ids)) := by
  have hflight : (calls c).inFlight = some owner := by rw [hpc]; rfl
  have hlocal : Heap.Local c (fun row => (calls c).inFlight = some row.owner) heap (heap.commit c) :=
    Heap.local_commit fun _ hv hm => h.marks hv hm
  refine h.move hlocal (fun _ ho => nomatch ho)
    (fun _ hv hm => (Heap.not_marked_commit hv hm).elim) trivial ?_
  have hphase := h.phase c
  rw [hpc] at hphase
  obtain ⟨hall, hins, -⟩ := hphase
  have hcommitted : ∀ ref, (heap.commit c).Committed ⟨owner, ref⟩ ↔ ref ∈ ids.map Uuid.cast := by
    intro ref
    -- committed now: what was committed and not deleted by `c`, and what `c` inserted
    rw [Heap.committed_commit]
    constructor
    · rintro ⟨v, hv, hdel, -, hrow⟩
      rcases hall v hv (congrArg JoinRow.owner hrow) with ⟨-, hd⟩ | ⟨-, -, href⟩
      · exact absurd hd hdel
      · exact (show v.row.ref = ref from congrArg JoinRow.ref hrow) ▸ href
    · intro href
      obtain ⟨v, hv, hrow, hi, hd⟩ := (hins ref href).resolve_left List.not_mem_nil
      exact ⟨v, hv, by simp [hd], .inr hi, hrow⟩
  -- the committed rows of the other owners are as they were
  intro d owner' ids' hd
  by_cases ho : owner' = owner
  · subst ho
    exact ⟨c, ids, Function.update_self .., hcommitted⟩
  · have hdc : d ≠ c := by
      rintro rfl
      rw [Function.update_self] at hd
      exact ho (Pc.done.inj hd).1.symm
    rw [Function.update_of_ne hdc] at hd
    obtain ⟨e, ids'', he, hrows⟩ := h.settled d owner' ids' hd
    have hec : e ≠ c := by
      rintro rfl
      cases hpc.symm.trans he
    refine ⟨e, ids'', (Function.update_of_ne hec _ _).trans he,
      fun ref => (hlocal.committed ?_).trans (hrows ref)⟩
    exact fun hf => ho (Option.some.inj (hf.symm.trans hflight))

theorem mem_missingRows {ref : Uuid} (h : ref ∈ missingRows heap c owner ids) :
    ref ∈ ids.map Uuid.cast := by
  have hmem := (List.mem_filter.mp h).1
  obtain ⟨id, hid, rfl⟩ := List.mem_map.mp hmem
  exact List.mem_map_of_mem (List.mem_eraseDups.mp hid)

/-- Where every version of the owner is being deleted, `save` finds none. -/
theorem missingRows_all
    (h : ∀ v ∈ heap.versions.rows, v.row.owner = owner → v.deleting = some c) {ref : Uuid}
    (href : ref ∈ ids.map Uuid.cast) : ref ∈ missingRows heap c owner ids := by
  obtain ⟨id, hid, rfl⟩ := List.mem_map.mp href
  refine List.mem_filter.mpr ⟨List.mem_map_of_mem (List.mem_eraseDups.mpr hid), ?_⟩
  simp only [Bool.not_eq_true', List.any_eq_false, Bool.and_eq_true, decide_eq_true_eq,
    not_and, Bool.not_eq_true]
  intro v hv hrow
  simp [Version.visible, h v hv (congrArg JoinRow.owner hrow)]

/-- The `DELETE` reaches one more version. -/
theorem sweep_visit {todo : List Nat} (h : Phase heap c (.sweep owner ids todo))
    (hd : heap.delete c (ofOwner owner) tid = some heap') :
    Phase heap' c (.sweep owner ids (todo.filter (· ≠ tid))) := by
  intro v' hv' ho
  rcases Heap.delete_some hd with ⟨rfl, hgone⟩ | ⟨-, hmem⟩
  · obtain ⟨hins, hdel⟩ := h v' hv' ho
    refine ⟨hins, hdel.elim .inl fun htodo => ?_⟩
    by_cases ht : v'.tid = tid
    · exact .inl (hgone v' hv' ht (by simp [ofOwner, ho]))
    · exact .inr (List.mem_filter.mpr ⟨htodo, by simpa using ht⟩)
  · obtain ⟨v, hv, rfl⟩ := (hmem v').mp hv'
    split at ho
    · next ht =>
      rw [if_pos ht]
      exact ⟨(h v hv ho).1, .inl rfl⟩
    · next ht =>
      rw [if_neg ht]
      exact (h v hv ho).imp id (Or.imp id fun htodo => List.mem_filter.mpr ⟨htodo, by simpa using ht⟩)

omit [DecidableEq C] in
/-- The `INSERT` stores one more row. -/
theorem insert_one {ref : Uuid} {rest : List Uuid} (h : Phase heap c (.insert owner ids (ref :: rest))) :
    Phase (heap.insert c ⟨owner, ref⟩) c (.insert owner ids rest) := by
  obtain ⟨hall, hins, hrest⟩ := h
  refine ⟨?_, ?_, fun r hr => hrest r (List.mem_cons_of_mem _ hr)⟩
  · intro v hv ho
    rcases Heap.mem_insert.mp hv with rfl | hv
    · exact .inr ⟨rfl, rfl, hrest ref List.mem_cons_self⟩
    · exact hall v hv ho
  · intro r hr
    rcases hins r hr with hmem | ⟨v, hv, hrow⟩
    · rcases List.mem_cons.mp hmem with rfl | hmem
      · exact .inr ⟨_, Heap.mem_insert.mpr (.inl rfl), rfl, rfl, rfl⟩
      · exact .inl hmem
    · exact .inr ⟨v, Heap.mem_insert.mpr (.inr hv), hrow⟩

/-- **Every statement** keeps the invariant, under the condition. -/
theorem Serial.step {r : Heap JoinRow C × Pc} (h : Serial heap calls)
    (hs : step referenced label c heap tid (calls c) = some r)
    (hcond : noOverlappingReplace ⟨heap, calls⟩ c (.run tid)) :
    Serial r.1 (Function.update calls c r.2) := by
  have hphase := h.phase c
  simp only [noOverlappingReplace] at hcond
  generalize hpc : calls c = pc at hs hphase hcond
  cases pc with
  | start owner ids =>
      simp only [JoinRows.step] at hs
      split at hs
      all_goals
        cases hs
        refine h.quiet (fun _ ho => nomatch ho) (fun _ ho => ?_) trivial (by simp [hpc]) (by simp)
        rw [hpc] at ho
        cases ho
  | delete owner ids =>
      cases hs
      refine h.quiet (fun o ho => .inr ?_) (fun _ ho => ?_) (fun v hv ho => ?_) (by simp [hpc]) (by simp)
      · cases ho
        exact hcond
      · rw [hpc] at ho
        cases ho
      · obtain ⟨hins, hdel⟩ := h.unmarked hcond hv ho
        -- an unmarked version is visible, so the snapshot of the `DELETE` has it
        refine ⟨hins, .inr (Table.mem_select.mpr ⟨v, Table.get_of_mem hv, ?_⟩)⟩
        simp [ofOwner, Version.visible, ho, hins, hdel]
  | sweep owner ids todo =>
      have hflight : (calls c).inFlight = some owner := by rw [hpc]; rfl
      simp only [JoinRows.step] at hs
      split at hs
      · next hnil =>
        cases hs
        subst hnil
        refine h.quiet (fun o ho => .inl (hflight.trans ho)) (fun o ho => hflight.symm.trans ho)
          (fun v hv ho => ?_)
          (by simp [hpc]) (by simp)
        exact ⟨(hphase v hv ho).1, (hphase v hv ho).2.resolve_right List.not_mem_nil⟩
      · split at hs
        · obtain ⟨heap', hd, rfl⟩ := Option.map_eq_some_iff.mp hs
          have hlocal : Heap.Local c (fun row => (calls c).inFlight = some row.owner) heap heap' :=
            (Heap.local_delete hd).mono fun row hrow =>
              hflight.trans (congrArg some (of_decide_eq_true hrow).symm)
          -- the version deleted is one of the owner; the marks it leaves are the transaction's own
          refine h.move hlocal (fun o ho => .inl (hflight.trans ho)) (fun v hv hm => ?_)
            (fun v' hv' ho => ?_)
            (h.settled.kept (fun _ => Heap.committed_delete hd) (by simp [hpc]) (by simp))
          · rw [show Pc.inFlight (.sweep owner ids _) = (calls c).inFlight from hflight.symm]
            rcases hlocal.marks hv hm with ⟨-, ho⟩ | ⟨v₀, hv₀, hrow, hm₀⟩
            · exact ho
            · exact hrow ▸ h.marks hv₀ hm₀
          · exact sweep_visit hphase hd v' hv' ho
        · cases hs
  | select owner ids =>
      have hflight : (calls c).inFlight = some owner := by rw [hpc]; rfl
      cases hs
      refine h.quiet (fun o ho => .inl (hflight.trans ho))
        (fun o ho => hflight.symm.trans ho) ⟨?_, ?_, ?_⟩
        (by simp [hpc]) (by simp)
      · exact fun v hv ho => .inl (hphase v hv ho)
      · -- every old row is being deleted, so every id is to be inserted
        exact fun ref href => .inl (missingRows_all (fun v hv ho => (hphase v hv ho).2) href)
      · exact fun ref href => mem_missingRows href
  | insert owner ids rest =>
      have hflight : (calls c).inFlight = some owner := by rw [hpc]; rfl
      cases rest with
      | nil =>
          cases hs
          exact h.commit hpc
      | cons ref rest =>
          simp only [JoinRows.step] at hs
          split at hs
          · cases hs
            have hlocal : Heap.Local c (fun row => (calls c).inFlight = some row.owner) heap
                (heap.insert c ⟨owner, ref⟩) := Heap.local_insert hflight
            refine h.move hlocal (fun o ho => .inl (hflight.trans ho)) (fun v hv hm => ?_)
              (insert_one hphase)
              (h.settled.kept (fun _ => Heap.committed_insert) (by simp [hpc]) (by simp))
            rw [show Pc.inFlight (.insert owner ids rest) = (calls c).inFlight from hflight.symm]
            rcases hlocal.marks hv hm with ⟨-, ho⟩ | ⟨v₀, hv₀, hrow, hm₀⟩
            · exact ho
            · exact hrow ▸ h.marks hv₀ hm₀
          · split at hs
            · cases hs
              exact h.fail (by simp [hpc])
            · cases hs
  | done | failed => cases hs

/-! ## Runs

From requests that have not begun to any state. What a call was asked for is read off its program
point. -/

/-- What the call was asked to do; a failed call has forgotten. -/
def Pc.request : Pc → Option (Uuid × List String)
  | .start owner ids | .delete owner ids | .sweep owner ids _ | .select owner ids |
      .insert owner ids _ | .done owner ids =>
      some (owner, ids)
  | .failed _ => none

theorem request_step {r : Heap JoinRow C × Pc}
    (hs : JoinRows.step referenced label c heap tid pc = some r) :
    r.2.request = none ∨ r.2.request = pc.request := by
  cases pc with
  | start owner ids =>
      simp only [JoinRows.step] at hs
      split at hs
      · cases hs
        exact .inl rfl
      · cases hs
        exact .inr rfl
  | delete owner ids => cases hs; exact .inr rfl
  | sweep owner ids todo =>
      simp only [JoinRows.step] at hs
      split at hs
      · cases hs
        exact .inr rfl
      · split at hs
        · obtain ⟨heap', -, rfl⟩ := Option.map_eq_some_iff.mp hs
          exact .inr rfl
        · cases hs
  | select owner ids => cases hs; exact .inr rfl
  | insert owner ids rest =>
      cases rest with
      | nil => cases hs; exact .inr rfl
      | cons ref rest =>
          simp only [JoinRows.step] at hs
          split at hs
          · cases hs
            exact .inr rfl
          · split at hs
            · cases hs
              exact .inl rfl
            · cases hs
  | done | failed => cases hs

/-- The start: call `c` is to replace the rows of `owner c` by `ids c`, and no transaction is in
    progress. -/
structure Initial (owner : C → Uuid) (ids : C → List String) (s : State C) : Prop where
  calls : ∀ c, s.calls c = .start (owner c) (ids c)
  rows  : ∀ v ∈ s.shared.versions.rows, v.inserting = none ∧ v.deleting = none

omit [DecidableEq C] in
theorem Initial.serial {owner : C → Uuid} {ids : C → List String} {s : State C}
    (h : Initial owner ids s) :
    Serial s.shared s.calls := by
  constructor
  · intro c d o hc
    rw [h.calls c] at hc
    cases hc
  · intro v c hv hm
    obtain ⟨hi, hd⟩ := h.rows v hv
    rcases hm with hm | hm
    · cases hi.symm.trans hm
    · cases hd.symm.trans hm
  · intro c
    rw [h.calls c]
    trivial
  · intro c o l hc
    rw [h.calls c] at hc
    cases hc

theorem exec_abort {r : Heap JoinRow C × Pc} (hs : exec referenced label c heap pc .abort = some r) :
    pc.finished = false ∧ r = (heap.rollback c, .failed .unexpected) := by
  simp only [exec] at hs
  split at hs
  · cases hs
  · next hf => exact ⟨by simpa using hf, (Option.some.inj hs).symm⟩

theorem serial_exec {s t : State C} {a : RowAct} (h : Serial s.shared s.calls)
    (hcond : noOverlappingReplace s c a)
    (hst : Pool.step (exec referenced label) s c a = some t) : Serial t.shared t.calls := by
  obtain ⟨heap', pc', hc, rfl⟩ := Pool.step_cases hst
  cases a with
  | run tid => exact h.step hc hcond
  | abort =>
      obtain ⟨hf, hres⟩ := exec_abort hc
      cases hres
      exact h.fail fun o l ho => by simp [ho, Pc.finished] at hf

theorem request_exec {s t : State C} {a : RowAct}
    (hst : Pool.step (exec referenced label) s c a = some t) (d : C) :
    (t.calls d).request = none ∨ (t.calls d).request = (s.calls d).request := by
  obtain ⟨heap', pc', hc, rfl⟩ := Pool.step_cases hst
  by_cases hdc : d = c
  · subst hdc
    simp only [Function.update_self]
    cases a with
    | run tid => exact request_step hc
    | abort =>
        cases (exec_abort hc).2
        exact .inl rfl
  · exact .inr (congrArg Pc.request (Function.update_of_ne hdc _ _))

end

def Pc.succeeded : Pc → Bool
  | .done _ _ => true
  | _         => false

end JoinRows

/-- **Replacements do not merge**: if every `DELETE` begins while no other replacement of the owner is
    between its `DELETE` and its `COMMIT`, then the rows committed for an owner, once a replacement has
    succeeded, are exactly the ids that one of the successful replacements was given. -/
theorem replacements_do_not_merge {C : Type} [DecidableEq C] {owner : C → Uuid} {ids : C → List String}
    {referenced : List Uuid} {label : String} {s t : JoinRows.State C}
    (hi : JoinRows.Initial owner ids s)
    (h : Pool.Run (JoinRows.exec referenced label) JoinRows.noOverlappingReplace s t) :
    ∀ c, (t.calls c).succeeded = true → ∃ d, (t.calls d).succeeded = true ∧ owner d = owner c ∧
      ∀ ref, t.shared.Committed ⟨owner c, ref⟩ ↔ ref ∈ (ids d).map Uuid.cast := by
  have hserial : JoinRows.Serial t.shared t.calls :=
    h.invariant (I := fun t => JoinRows.Serial t.shared t.calls)
      (fun hI hok hst => JoinRows.serial_exec hI hok hst) hi.serial
  have hrequest : ∀ c, (t.calls c).request = none ∨ (t.calls c).request = some (owner c, ids c) := by
    refine h.invariant (I := fun t => ∀ c, (t.calls c).request = none ∨
      (t.calls c).request = some (owner c, ids c))
      (fun hI _ hst d => ?_) fun c => .inr (by rw [hi.calls c]; rfl)
    rcases JoinRows.request_exec hst d with hn | hsame
    · exact .inl hn
    · rw [hsame]
      exact hI d
  -- a call that succeeded did so with the request it started with
  have hdone : ∀ {c o l}, t.calls c = .done o l → o = owner c ∧ l = ids c := by
    intro c o l hc
    have hreq := (hrequest c).resolve_left (by simp [hc, JoinRows.Pc.request])
    rw [hc] at hreq
    exact Prod.mk.inj (Option.some.inj hreq)
  intro c hc
  cases hpc : t.calls c with
  | done o l =>
      obtain ⟨rfl, rfl⟩ := hdone hpc
      obtain ⟨d, l', hd, hrows⟩ := hserial.settled c _ _ hpc
      obtain ⟨ho, rfl⟩ := hdone hd
      exact ⟨d, by rw [hd]; rfl, ho.symm, hrows⟩
  | _ => simp [hpc, JoinRows.Pc.succeeded] at hc

/-! ## Runs -/

namespace JoinRows

instance {n : Nat} (s : State (Fin n)) (c : Fin n) (a : RowAct) :
    Decidable (noOverlappingReplace s c a) := by
  unfold noOverlappingReplace
  split <;> infer_instance

/-- Both replacements are about the administrator's roles, here a third one. -/
def administrator : Fin 2 → Uuid := fun _ => seedId 8

/-- One asks for the role `admin`, the other for the role `user`. -/
def requestedRoles (c : Fin 2) : List String := [if c.val = 0 then (seedId 6).text else (seedId 7).text]

def twoReplacements : State (Fin 2) where
  shared  := ⟨Table.empty.put ⟨0, ⟨seedId 8, seedId 5⟩, none, none⟩, 1, by decide +kernel⟩
  calls c := .start (administrator c) (requestedRoles c)

theorem initial_twoReplacements : Initial administrator requestedRoles twoReplacements :=
  ⟨fun _ => rfl, by decide +kernel⟩

/-- A schedule in which a `DELETE` visits the version at the given place. -/
def turns (tid : Nat) (cs : List Nat) : List (Fin 2 × RowAct) :=
  Pool.turns 2 (cs.map fun c => (c, .run tid))

end JoinRows

/-- **Two replacements merge**: the second `DELETE` begins before the first commits and waits for the
    old row; it never sees the row inserted meanwhile. Both calls succeed, and the account has both
    roles. -/
theorem replacements_merge : ∃ s t : JoinRows.State (Fin 2),
    JoinRows.Initial JoinRows.administrator JoinRows.requestedRoles s ∧
    Pool.Steps (JoinRows.exec [seedId 5, seedId 6, seedId 7] "role") s t ∧
      (∀ c, (t.calls c).succeeded = true) ∧
    ¬ ∃ d, ∀ ref, t.shared.Committed ⟨seedId 8, ref⟩ ↔
      ref ∈ (JoinRows.requestedRoles d).map Uuid.cast := by
  have hrun : (Pool.replay (JoinRows.exec [seedId 5, seedId 6, seedId 7] "role") Pool.anyStep
    JoinRows.twoReplacements
      (JoinRows.turns 0 [0, 1, 0, 1, 0, 0, 0, 0, 0, 1, 1, 1, 1, 1])).any
        (fun t => decide (∀ c, (t.calls c).succeeded = true) &&
        decide (t.shared.Committed ⟨seedId 8, seedId 6⟩) &&
          decide (t.shared.Committed ⟨seedId 8, seedId 7⟩)) = true := by
    decide +kernel
  obtain ⟨t, hr, hcheck⟩ := Pool.exists_run_of_replay hrun
  simp only [Bool.and_eq_true, decide_eq_true_eq] at hcheck
  obtain ⟨⟨hboth, hadmin⟩, huser⟩ := hcheck
  refine ⟨_, t, JoinRows.initial_twoReplacements, hr, hboth, fun ⟨d, hd⟩ => ?_⟩
  match d with
  | 0 => exact absurd ((hd (seedId 7)).mp huser) (by decide +kernel)
  | 1 => exact absurd ((hd (seedId 6)).mp hadmin) (by decide +kernel)

/-- One replacement after the other leaves the roles of the second. -/
theorem replacements_do_not_merge_sequential : ∃ t : JoinRows.State (Fin 2),
    Pool.Run (JoinRows.exec [seedId 5, seedId 6, seedId 7] "role") JoinRows.noOverlappingReplace
      JoinRows.twoReplacements t ∧
    (t.calls 1).succeeded = true ∧ ∃ d, (t.calls d).succeeded = true ∧
      JoinRows.administrator d = seedId 8 ∧
      ∀ ref, t.shared.Committed ⟨seedId 8, ref⟩ ↔ ref ∈ (JoinRows.requestedRoles d).map Uuid.cast := by
  have hrun : (Pool.replay (JoinRows.exec [seedId 5, seedId 6, seedId 7] "role")
    JoinRows.noOverlappingReplace
      JoinRows.twoReplacements
      (JoinRows.turns 0 [0, 1, 0, 0, 0, 0, 0, 0] ++ JoinRows.turns 1 [1, 1, 1, 1, 1, 1])).any
        (fun t => (t.calls 1).succeeded) = true := by
    decide +kernel
  obtain ⟨t, hr, hdone⟩ := Pool.exists_run_of_replay hrun
  exact ⟨t, hr, hdone, replacements_do_not_merge JoinRows.initial_twoReplacements hr 1 hdone⟩

end NestApp
