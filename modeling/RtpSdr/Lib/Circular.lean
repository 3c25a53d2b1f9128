import Mathlib.Data.List.Basic

/-!
# Circular storage

A queue of fewer than `m` elements stored in the first `m` cells of an array,
from position `t` on and around the end. `Stored` relates the cells to the queue;
the lemmas follow what an append, a removal and a write outside the queue do.
-/
namespace RtpSdr.Lib.Circular

variable {α : Type} {m t i j : Nat} {cells q : List α} {a : α}

/-- The position after `v`. -/
def next (m v : Nat) : Nat := if v + 1 = m then 0 else v + 1

/-- The position `i` places after `t`. -/
def slot (m t i : Nat) : Nat := if t + i < m then t + i else t + i - m

theorem next_lt (ht : t < m) : next m t < m := by
  unfold next
  split <;> omega

theorem slot_lt (ht : t < m) (hi : i ≤ m) : slot m t i < m := by
  unfold slot
  split <;> omega

theorem slot_zero (ht : t < m) : slot m t 0 = t := by
  rw [slot, Nat.add_zero, if_pos ht]

theorem next_slot (ht : t < m) (hi : i < m) : next m (slot m t i) = slot m t (i + 1) := by
  unfold next slot
  split <;> split <;> split <;> omega

theorem slot_next (hi : i < m) : slot m (next m t) i = slot m t (i + 1) := by
  unfold next slot
  split <;> split <;> split <;> omega

theorem slot_inj (hi : i < m) (hj : j < m) (h : slot m t i = slot m t j) : i = j := by
  unfold slot at h
  split at h <;> split at h <;> omega

/-- The queue `q` lies in the cells from `t` on. -/
def Stored (m : Nat) (cells : List α) (t : Nat) (q : List α) : Prop :=
  ∀ i, i < q.length → cells[slot m t i]? = q[i]?

theorem stored_nil (m : Nat) (cells : List α) (t : Nat) : Stored m cells t [] := by
  intro i hi
  exact absurd hi (Nat.not_lt_zero i)

/-- A write beyond the queue. -/
theorem stored_set_outside (h : Stored m cells t q) (hj : q.length ≤ j) (hjm : j < m) :
    Stored m (cells.set (slot m t j) a) t q := by
  intro i hi
  have hne : slot m t j ≠ slot m t i := by
    intro he
    have := slot_inj hjm (by omega) he
    omega
  rw [List.getElem?_set_ne hne, h i hi]

/-- The cell behind the queue becomes part of it. -/
theorem stored_append (h : Stored m cells t q) (ha : cells[slot m t q.length]? = some a) :
    Stored m cells t (q ++ [a]) := by
  intro i hi
  rw [List.length_append, List.length_singleton] at hi
  by_cases hlast : i = q.length
  · rw [hlast, ha, List.getElem?_append_right (Nat.le_refl _), Nat.sub_self]
    rfl
  · rw [List.getElem?_append_left (by omega)]
    exact h i (by omega)

theorem stored_push (h : Stored m cells t q) (ht : t < m) (hq : q.length < m)
    (hm : m ≤ cells.length) :
    Stored m (cells.set (slot m t q.length) a) t (q ++ [a]) := by
  apply stored_append (stored_set_outside h (Nat.le_refl _) hq)
  have := slot_lt ht (Nat.le_of_lt hq)
  rw [List.getElem?_set_self (by omega)]

theorem stored_head (h : Stored m cells t (a :: q)) (ht : t < m) : cells[t]? = some a := by
  have := h 0 (by simp)
  rwa [slot_zero ht] at this

theorem stored_tail (h : Stored m cells t (a :: q)) (hq : q.length < m) :
    Stored m cells (next m t) q := by
  intro i hi
  rw [slot_next (by omega)]
  exact h (i + 1) (by simpa using hi)

end RtpSdr.Lib.Circular
