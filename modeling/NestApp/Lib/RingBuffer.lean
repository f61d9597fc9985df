import Mathlib.Data.List.Rotate

/-!
# `Lib.RingBuffer` — a bounded history in an array that wraps around

A **ring** appends while it has room and afterwards overwrites one slot after the other.
`RingBuffer.Holds` ties it to the history of everything pushed: read from the next slot to be
overwritten, round the end, the slots are the last `capacity` elements, in order. `Holds.push` keeps
that, and `Holds.perm` forgets where the slots begin.
-/

variable {α : Type}

/-- The slots, and the one overwritten next. While there is room the index is not used: slots are
    appended. -/
structure RingBuffer (α : Type) (capacity : Nat) where
  slots     : List α
  next      : Nat
  length_le : slots.length ≤ capacity
  next_lt   : next < capacity
  /-- nothing is overwritten while there is room -/
  room      : slots.length < capacity → next = 0

namespace RingBuffer

variable {capacity : Nat} {r : RingBuffer α capacity} {history : List α} {x : α}

def empty (h : 0 < capacity) : RingBuffer α capacity where
  slots     := []
  next      := 0
  length_le := Nat.zero_le _
  next_lt   := h
  room _    := rfl

/-- Append, or overwrite the next slot. -/
def push (r : RingBuffer α capacity) (x : α) : RingBuffer α capacity :=
  if h : r.slots.length < capacity then
    { r with
      slots     := r.slots ++ [x]
      length_le := by
        rw [List.length_append]
        exact h
      room _    := r.room h }
  else
    { slots     := r.slots.set r.next x
      next      := (r.next + 1) % capacity
      length_le := by
        rw [List.length_set]
        exact r.length_le
      next_lt   := Nat.mod_lt _ (Nat.zero_lt_of_lt r.next_lt)
      room hlt  := absurd (by rwa [List.length_set] at hlt) h }

/-- The slots, oldest first, are the end of the history. Oldest first means from the slot that is
    overwritten next, round the end of the array. -/
def Holds (r : RingBuffer α capacity) (history : List α) : Prop :=
  r.slots.rotate r.next = history.drop (history.length - capacity)

theorem holds_empty (h : 0 < capacity) : (empty h : RingBuffer α capacity).Holds [] := by
  show ([] : List α).rotate 0 = [].drop _
  rw [List.rotate_zero, List.drop_nil]

theorem Holds.length (h : r.Holds history) : r.slots.length = min history.length capacity := by
  have hlen := congrArg List.length h
  rw [List.length_rotate, List.length_drop] at hlen
  omega

/-- Overwriting a slot and moving on drops the oldest element and adds the newest. -/
theorem rotate_set {l : List α} {n : Nat} (hn : n < l.length) :
    (l.set n x).rotate (n + 1) = (l.rotate n).tail ++ [x] := by
  have hset : n + 1 ≤ (l.set n x).length := by
    rw [List.length_set]
    exact hn
  have hdrop : (l.set n x).drop (n + 1) = l.drop (n + 1) := List.drop_set_of_lt (Nat.lt_succ_self n)
  have htake : (l.set n x).take (n + 1) = l.take n ++ [x] := by
    rw [List.take_set, List.take_add_one, List.getElem?_eq_getElem hn, Option.toList_some]
    rw [List.set_append_right _ _ (by rw [List.length_take]; omega)]
    have hzero : n - (l.take n).length = 0 := by
      rw [List.length_take]
      omega
    rw [hzero, List.set_cons_zero]
  rw [List.rotate_eq_drop_append_take hset, hdrop, htake, List.rotate_eq_drop_append_take hn.le,
    List.drop_eq_getElem_cons hn, List.cons_append, List.tail_cons, List.append_assoc]

/-- **One push.** Either the array grows, or the oldest slot is overwritten and the next one becomes the
    oldest. -/
theorem Holds.push (h : r.Holds history) (x : α) : (r.push x).Holds (history ++ [x]) := by
  have hlen := h.length
  unfold RingBuffer.push Holds
  by_cases hroom : r.slots.length < capacity
  · -- all of the history is still there
    have hshort : history.length < capacity := by omega
    have hslots : r.slots = history := by
      have hall := h
      rw [Holds, r.room hroom, List.rotate_zero, Nat.sub_eq_zero_of_le hshort.le, List.drop_zero] at hall
      exact hall
    have hdrop : (history ++ [x]).length - capacity = 0 := by
      rw [List.length_append, List.length_singleton]
      omega
    rw [dif_pos hroom, hdrop, List.drop_zero]
    show (r.slots ++ [x]).rotate r.next = history ++ [x]
    rw [r.room hroom, List.rotate_zero, hslots]
  · have hfull : r.slots.length = capacity := by
      have hle := r.length_le
      omega
    have hlong : capacity ≤ history.length := by omega
    have hpos : 0 < capacity := Nat.zero_lt_of_lt r.next_lt
    rw [dif_neg hroom]
    show (r.slots.set r.next x).rotate ((r.next + 1) % capacity) = _
    have hmod : (r.slots.set r.next x).rotate ((r.next + 1) % capacity) =
      (r.slots.set r.next x).rotate (r.next + 1) := by
      have hsetlen : (r.slots.set r.next x).length = capacity := by rw [List.length_set, hfull]
      have hrotate := List.rotate_mod (r.slots.set r.next x) (r.next + 1)
      rwa [hsetlen] at hrotate
    have hdrop : (history ++ [x]).length - capacity = (history.length - capacity) + 1 := by
      rw [List.length_append, List.length_singleton]
      omega
    rw [hmod, rotate_set (by rw [hfull]; exact r.next_lt), h, hdrop, List.tail_drop,
      List.drop_append_of_le_length (by omega)]

/-- **A run of pushes** holds the end of the whole history, as long as the buffer. -/
theorem Holds.foldl (h : r.Holds history) (xs : List α) :
    (xs.foldl RingBuffer.push r).Holds (history ++ xs) := by
  induction xs generalizing r history with
  | nil =>
      rw [List.append_nil]
      exact h
  | cons x xs ih =>
      have hstep := ih (h.push x)
      rw [List.append_assoc] at hstep
      exact hstep

/-- The slots are the end of the history, in some order. -/
theorem Holds.perm (h : r.Holds history) : r.slots.Perm (history.drop (history.length - capacity)) := by
  rw [← h]
  exact (List.rotate_perm r.slots r.next).symm

end RingBuffer
