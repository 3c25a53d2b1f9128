import Mathlib.Dynamics.PeriodicPts.Defs
import Mathlib.Algebra.Group.Hom.Defs
import Mathlib.Data.Fintype.EquivFin
import Mathlib.Tactic.Common

/-!
# Multiplication by logarithm tables

A finite field of `N + 1` elements can be given by its addition and by the
additive map "times the generator" whose orbit from one has full length `N`.
Products are then sums of logarithms. The laws below are the ones a table
implementation needs; they use nothing of the table but `log (exp i) = i`.
-/
namespace RtpSdr.Lib.LogTable

open Function

/-- Multiplication by a generator, as an additive map of full period from `one`. -/
structure Generator (F : Type*) [AddCommGroup F] [Fintype F] where
  shift : F →+ F
  one : F
  one_ne : one ≠ 0
  order : Nat
  period : minimalPeriod shift one = order
  card : Fintype.card F = order + 1

namespace Generator

variable {F : Type*} [AddCommGroup F] [Fintype F] (G : Generator F)

def exp (n : Nat) : F := G.shift^[n] G.one

theorem order_pos : 0 < G.order := by
  have hc : 1 < Fintype.card F := Fintype.one_lt_card_iff.mpr ⟨G.one, 0, G.one_ne⟩
  have h := G.card
  omega

theorem exp_zero : G.exp 0 = G.one := rfl

theorem shift_exp (m n : Nat) : G.shift^[m] (G.exp n) = G.exp (m + n) :=
  (iterate_add_apply _ _ _ _).symm

theorem exp_mod (n : Nat) : G.exp (n % G.order) = G.exp n := by
  rw [← G.period]
  exact iterate_mod_minimalPeriod_eq

theorem iterate_shift_zero (n : Nat) : G.shift^[n] 0 = 0 :=
  iterate_fixed (map_zero G.shift) n

theorem iterate_shift_add (n : Nat) (a b : F) :
    G.shift^[n] (a + b) = G.shift^[n] a + G.shift^[n] b := by
  induction n generalizing a b with
  | zero => rfl
  | succ n ih => rw [iterate_succ_apply, iterate_succ_apply, iterate_succ_apply, map_add, ih]

theorem exp_ne_zero (n : Nat) : G.exp n ≠ 0 := by
  intro h
  have hback : G.shift^[n * G.order - n] (G.exp n) = G.exp (n * G.order) := by
    rw [shift_exp, Nat.sub_add_cancel (Nat.le_mul_of_pos_right n G.order_pos)]
  rw [h, iterate_shift_zero, ← exp_mod, Nat.mul_mod_left, exp_zero] at hback
  exact G.one_ne hback.symm

theorem exp_inj {i j : Nat} (hi : i < G.order) (hj : j < G.order) (h : G.exp i = G.exp j) :
    i = j := by
  rw [← G.period] at hi hj
  exact iterate_injOn_Iio_minimalPeriod hi hj h

/-- The orbit of one is every element but zero. -/
theorem exists_exp [DecidableEq F] {a : F} (ha : a ≠ 0) : ∃ i < G.order, G.exp i = a := by
  have hsub : (Finset.range G.order).image G.exp ⊆ Finset.univ.erase 0 := by
    intro x hx
    obtain ⟨i, -, rfl⟩ := Finset.mem_image.mp hx
    exact Finset.mem_erase.mpr ⟨G.exp_ne_zero i, Finset.mem_univ _⟩
  have hcard : ((Finset.range G.order).image G.exp).card = (Finset.univ.erase (0 : F)).card := by
    rw [Finset.card_image_of_injOn, Finset.card_range, Finset.card_erase_of_mem (Finset.mem_univ _),
      Finset.card_univ, G.card, Nat.add_sub_cancel]
    · intro i hi j hj
      exact G.exp_inj (Finset.mem_range.mp hi) (Finset.mem_range.mp hj)
  have hmem : a ∈ (Finset.range G.order).image G.exp := by
    rw [Finset.eq_of_subset_of_card_le hsub hcard.ge]
    exact Finset.mem_erase.mpr ⟨ha, Finset.mem_univ _⟩
  obtain ⟨i, hi, hia⟩ := Finset.mem_image.mp hmem
  exact ⟨i, Finset.mem_range.mp hi, hia⟩

section Mul

variable [DecidableEq F] {log : F → Nat} (hlog : ∀ i < G.order, log (G.exp i) = i)

/-- The product a pair of logarithm tables computes. -/
def mul (log : F → Nat) (a b : F) : F :=
  if a = 0 ∨ b = 0 then 0 else G.exp ((log a + log b) % G.order)

include hlog

theorem log_lt {a : F} (ha : a ≠ 0) : log a < G.order := by
  obtain ⟨i, hi, rfl⟩ := G.exists_exp ha
  rwa [hlog i hi]

theorem exp_log {a : F} (ha : a ≠ 0) : G.exp (log a) = a := by
  obtain ⟨i, hi, rfl⟩ := G.exists_exp ha
  rw [hlog i hi]

omit hlog in
theorem mul_zero (a : F) : G.mul log a 0 = 0 := if_pos (.inr rfl)

omit hlog in
theorem zero_mul (a : F) : G.mul log 0 a = 0 := if_pos (.inl rfl)

/-- A product with a non-zero left factor is that many shifts of the right one. -/
theorem mul_eq_shift {a : F} (ha : a ≠ 0) (b : F) : G.mul log a b = G.shift^[log a] b := by
  by_cases hb : b = 0
  · rw [hb, mul_zero, iterate_shift_zero]
  · rw [mul, if_neg (by tauto), exp_mod, ← shift_exp, G.exp_log hlog hb]

/-- Exponents add. -/
theorem exp_mul_exp (m n : Nat) : G.mul log (G.exp m) (G.exp n) = G.exp (m + n) := by
  have hlt : m % G.order < G.order := Nat.mod_lt _ G.order_pos
  rw [← G.exp_mod m, G.mul_eq_shift hlog (G.exp_ne_zero _), hlog _ hlt, shift_exp,
    ← G.exp_mod (_ + n), Nat.mod_add_mod, exp_mod]

omit hlog in
theorem mul_comm (a b : F) : G.mul log a b = G.mul log b a := by
  simp only [mul, Nat.add_comm (log a), or_comm (a := a = 0)]

theorem mul_add (a b c : F) : G.mul log a (b + c) = G.mul log a b + G.mul log a c := by
  by_cases ha : a = 0
  · simp only [ha, zero_mul, add_zero]
  · simp only [G.mul_eq_shift hlog ha, iterate_shift_add]

theorem one_mul (a : F) : G.mul log G.one a = a := by
  have h0 : log G.one = 0 := by rw [← G.exp_zero, hlog 0 G.order_pos]
  rw [G.mul_eq_shift hlog G.one_ne, h0, iterate_zero, id]

omit hlog in
theorem mul_ne_zero (log : F → Nat) {a b : F} (ha : a ≠ 0) (hb : b ≠ 0) : G.mul log a b ≠ 0 := by
  rw [mul, if_neg (by tauto)]
  exact G.exp_ne_zero _

theorem log_mul {a b : F} (ha : a ≠ 0) (hb : b ≠ 0) :
    log (G.mul log a b) = (log a + log b) % G.order := by
  rw [mul, if_neg (by tauto), hlog _ (Nat.mod_lt _ G.order_pos)]

theorem mul_assoc (a b c : F) : G.mul log (G.mul log a b) c = G.mul log a (G.mul log b c) := by
  by_cases ha : a = 0
  · simp only [ha, zero_mul]
  by_cases hb : b = 0
  · simp only [hb, zero_mul, mul_zero]
  by_cases hc : c = 0
  · simp only [hc, mul_zero]
  have hl : G.mul log (G.mul log a b) c = G.exp (log a + log b + log c) := by
    rw [mul, if_neg (by have := G.mul_ne_zero log ha hb; tauto), G.log_mul hlog ha hb,
      Nat.mod_add_mod, exp_mod]
  have hr : G.mul log a (G.mul log b c) = G.exp (log a + (log b + log c)) := by
    rw [mul, if_neg (by have := G.mul_ne_zero log hb hc; tauto), G.log_mul hlog hb hc,
      Nat.add_mod_mod, exp_mod]
  rw [hl, hr, Nat.add_assoc]

/-- The power that completes the period is the inverse. -/
theorem mul_inv_cancel {a : F} (ha : a ≠ 0) : G.mul log a (G.exp (G.order - log a)) = G.one := by
  rw [G.mul_eq_shift hlog ha, shift_exp, Nat.add_sub_cancel' (G.log_lt hlog ha).le, ← exp_mod,
    Nat.mod_self, exp_zero]

end Mul

end Generator

end RtpSdr.Lib.LogTable
