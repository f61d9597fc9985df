import Mathlib.Order.Lattice.Nat
import Mathlib.Data.Prod.Lex
import Mathlib.Logic.Relation

/-!
# `Lib.Deadlock` — row locks, and transactions that wait for each other

`Locks` says which rows each transaction holds and which ones its next statement needs, in the row-lock
modes of the database. A transaction **waits for** another one that holds a row it needs in a
conflicting mode, and a state is **deadlocked** when the waits-for relation has a cycle.

On a cycle everybody waits and is waited for, so only the edges between such transactions matter
(`Locks.Inner`). `not_deadlocked_of_rank` is the rule: a rank that grows along these edges excludes
cycles. `leastPlace_lt` supplies the rank of a statement that takes its locks in order: the place of
the first row it still needs.
-/

namespace Sql

/-- The row-lock modes, weakest first. -/
inductive LockMode where
  /-- a foreign key of an inserted row refers to the row -/
  | keyShare
  | share
  /-- `UPDATE` of columns that are no key -/
  | noKeyUpdate
  /-- `DELETE`, and `SELECT … FOR UPDATE` -/
  | forUpdate
deriving DecidableEq

/-- Two transactions cannot hold one row in these modes. -/
def LockMode.conflicts : LockMode → LockMode → Bool
  | .keyShare, .forUpdate | .forUpdate, .keyShare                                                      =>
      true
  | .share, .noKeyUpdate | .noKeyUpdate, .share | .share, .forUpdate | .forUpdate, .share              =>
      true
  | .noKeyUpdate, .noKeyUpdate | .noKeyUpdate, .forUpdate | .forUpdate, .noKeyUpdate                   =>
      true
  | .forUpdate, .forUpdate                                                                             =>
      true
  | _, _                                                                                               =>
      false

/-- The locks of a state: what the transactions `C` hold, and what their next statements may need. A
    statement that reaches its rows one by one may need any of those it has left. -/
structure Locks (C Row : Type) where
  holds    : C → Row → LockMode → Prop
  requests : C → Row → LockMode → Prop

namespace Locks

variable {C Row : Type} (l : Locks C Row)

/-- `c` needs a row that `d` holds. -/
def Waits (c d : C) : Prop :=
  c ≠ d ∧ ∃ row m m', l.requests c row m ∧ l.holds d row m' ∧ m.conflicts m' = true

/-- Some transactions wait for each other in a circle. The database breaks such a circle by rolling one
    of them back; here it is what must not come about. -/
def Deadlocked : Prop := ∃ c, Relation.TransGen l.Waits c c

/-- A wait of a transaction somebody waits for, for one that waits itself. Only such waits are on a
    circle, so a rank has to grow along these only. -/
structure Inner (c d : C) : Prop where
  waits     : l.Waits c d
  waitedFor : ∃ b, l.Waits b c
  waiting   : ∃ e, l.Waits d e

variable {l} {c d e : C}

/-- Two transactions that wait for each other. -/
theorem Deadlocked.of_waits (h : l.Waits c d) (h' : l.Waits d c) : l.Deadlocked :=
  ⟨c, .tail (.single h) h'⟩

/-- The waits on a path between two waits are inner ones. -/
theorem transGen_inner (h : Relation.TransGen l.Waits c d) (hin : ∃ b, l.Waits b c)
    (hout : ∃ e, l.Waits d e) :
    Relation.TransGen l.Inner c d := by
  induction h with
  | single h => exact .single ⟨h, hin, hout⟩
  | @tail d e hpath h ih =>
      -- `d` waits for `e`, and the path reached it by a wait
      obtain ⟨b, -, hb⟩ := Relation.TransGen.tail'_iff.mp hpath
      exact (ih ⟨e, h⟩).tail ⟨h, ⟨b, hb⟩, hout⟩

/-- **No cycle**, where a rank grows along the inner waits. -/
theorem not_deadlocked_of_rank {α : Type} [Preorder α] (rank : C → α)
    (h : ∀ {c d}, l.Inner c d → rank c < rank d) :
    ¬ l.Deadlocked := by
  rintro ⟨c, hcycle⟩
  obtain ⟨b, -, hb⟩ := Relation.TransGen.tail'_iff.mp hcycle
  obtain ⟨d, hd, -⟩ := Relation.TransGen.head'_iff.mp hcycle
  have hinner := transGen_inner hcycle ⟨b, hb⟩ ⟨d, hd⟩
  have hgrows : ∀ {x y}, Relation.TransGen l.Inner x y → rank x < rank y := by
    intro x y hpath
    induction hpath with
    | single h' => exact h h'
    | tail _ h' ih => exact ih.trans (h h')
  exact lt_irrefl _ (hgrows hinner)

end Locks

/-! ## Rows taken in order

A statement that takes several locks takes them in some order, and a fixed order of the rows gives it a
rank: the place of the first row it still needs. Two statements that go by the same order cannot wait
for each other. -/

/-- The place of the first row a statement still has to take. -/
noncomputable def leastPlace {K : Type} (place : K → Nat) (todo : List K) : Nat :=
  sInf {n | ∃ k ∈ todo, place k = n}

/-- `d` took a row before all those it still needs, so it is further than a statement that still needs
    this row. -/
theorem leastPlace_lt {K : Type} {place : K → Nat} {todo todo' : List K} {k : K}
    (hk : k ∈ todo) (hne : todo' ≠ [])
    (hbefore : ∀ y ∈ todo', place k < place y) : leastPlace place todo < leastPlace place todo' := by
  have hle : leastPlace place todo ≤ place k := Nat.sInf_le ⟨k, hk, rfl⟩
  have hmem : leastPlace place todo' ∈ {n | ∃ k ∈ todo', place k = n} := by
    obtain ⟨y, hy⟩ := List.exists_mem_of_ne_nil _ hne
    exact Nat.sInf_mem ⟨_, y, hy, rfl⟩
  obtain ⟨y, hy, heq⟩ := hmem
  have hlt := hbefore y hy
  omega

/-- The statement takes a row before all the rows it takes later. -/
def TakesFirst {K : Type} [DecidableEq K] (place : K → Nat) (todo : List K) (k : K) : Prop :=
  ∀ y ∈ todo.erase k, place k < place y

instance {K : Type} [DecidableEq K] (place : K → Nat) (todo : List K) (k : K) :
    Decidable (TakesFirst place todo k) :=
  inferInstanceAs (Decidable (∀ y ∈ todo.erase k, place k < place y))

end Sql
