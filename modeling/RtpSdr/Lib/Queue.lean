import Mathlib.Data.List.Basic

/-!
# Bounded first-in first-out queues

The abstract purpose of a ring buffer: a list that never holds more than `c`
elements. A full queue can refuse a new element or give up its oldest one.
-/
namespace RtpSdr.Lib.Queue

variable {α : Type} {c : Nat}

/-- A queue of at most `c` elements, the oldest first. -/
structure BoundedQueue (α : Type) (c : Nat) where
  items : List α
  bound : items.length ≤ c

namespace BoundedQueue

def empty : BoundedQueue α c := ⟨[], Nat.zero_le c⟩

/-- Append, unless the queue is full. -/
def tryPut (q : BoundedQueue α c) (a : α) : Bool × BoundedQueue α c :=
  if h : q.items.length < c then
    (true, ⟨q.items ++ [a], by rw [List.length_append, List.length_singleton]; omega⟩)
  else (false, q)

/-- Append, and drop what is then too much at the front. -/
def put (q : BoundedQueue α c) (a : α) : BoundedQueue α c where
  items := (q.items ++ [a]).drop (q.items.length + 1 - c)
  bound := by
    rw [List.length_drop, List.length_append, List.length_singleton]
    omega

def get (q : BoundedQueue α c) : Option α × BoundedQueue α c :=
  (q.items.head?, ⟨q.items.tail, by
    have := q.bound
    rw [List.length_tail]
    omega⟩)

/-- The `n` oldest elements, if the queue is not empty and has that many. -/
def peek (q : BoundedQueue α c) (n : Nat) : Option (List α) :=
  if q.items ≠ [] ∧ n ≤ q.items.length then some (q.items.take n) else none

variable {q : BoundedQueue α c}

theorem tryPut_of_lt (a : α) (h : q.items.length < c) :
    (q.tryPut a).1 = true ∧ (q.tryPut a).2.items = q.items ++ [a] := by
  rw [tryPut, dif_pos h]
  exact ⟨rfl, rfl⟩

theorem tryPut_of_full (a : α) (h : ¬ q.items.length < c) : q.tryPut a = (false, q) := dif_neg h

theorem put_of_lt (a : α) (h : q.items.length < c) : (q.put a).items = q.items ++ [a] := by
  change (q.items ++ [a]).drop (q.items.length + 1 - c) = _
  rw [show q.items.length + 1 - c = 0 from by omega, List.drop_zero]

/-- A full queue loses exactly its oldest element. -/
theorem put_of_full {b : α} {rest : List α} (a : α) (hq : q.items = b :: rest)
    (h : q.items.length = c) : (q.put a).items = rest ++ [a] := by
  change (q.items ++ [a]).drop (q.items.length + 1 - c) = _
  rw [show q.items.length + 1 - c = 1 from by omega, hq]
  rfl

end BoundedQueue

end RtpSdr.Lib.Queue
