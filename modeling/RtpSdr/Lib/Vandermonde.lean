import Mathlib.Algebra.BigOperators.Field
import Mathlib.LinearAlgebra.Vandermonde
import Mathlib.LinearAlgebra.Matrix.NonsingularInverse
import Mathlib.Algebra.Polynomial.BigOperators
import Mathlib.Algebra.Polynomial.Inductions
import Mathlib.Algebra.Polynomial.Eval.Degree

/-!
# Inverting a Vandermonde matrix by synthetic division

The columns of the inverse are the coefficient lists of the Lagrange polynomials
of the nodes. They come from the master polynomial of all nodes, built one
linear factor at a time, divided by one factor with Horner's rule. The lemmas
state these recurrences coefficient by coefficient, as a program carries them
out.
-/
namespace RtpSdr.Lib.Vandermonde

open Polynomial Finset

variable {K : Type*} [Field K]

/-- The product of the first `m` linear factors. -/
noncomputable def master (p : Nat → K) (m : Nat) : K[X] := ∏ i ∈ range m, (X - C (p i))

/-- The product of the first `m` linear factors without that of `r`. -/
noncomputable def quotient (p : Nat → K) (m r : Nat) : K[X] :=
  ∏ i ∈ (range m).erase r, (X - C (p i))

theorem monic_master (p : Nat → K) (m : Nat) : (master p m).Monic :=
  monic_prod_of_monic _ _ fun i _ => monic_X_sub_C (p i)

theorem natDegree_master (p : Nat → K) (m : Nat) : (master p m).natDegree = m := by
  rw [master, natDegree_prod_of_monic _ _ fun i _ => monic_X_sub_C (p i)]
  simp

theorem master_succ (p : Nat → K) (m : Nat) :
    master p (m + 1) = master p m * (X - C (p m)) := prod_range_succ _ _

/-- Another factor, in the alignment that keeps the leading coefficient in place. -/
theorem coeff_master_succ (p : Nat → K) {k m : Nat} (hm : m < k) (j : Nat) :
    (X ^ (k - (m + 1)) * master p (m + 1)).coeff j
      = (X ^ (k - m) * master p m).coeff j - p m * (X ^ (k - m) * master p m).coeff (j + 1) := by
  obtain ⟨d, hd⟩ : ∃ d, k - m = d + 1 := ⟨k - m - 1, by omega⟩
  rw [show k - (m + 1) = d from by omega, hd, master_succ, pow_succ]
  have h1 : X ^ d * (master p m * (X - C (p m)))
      = X ^ d * X * master p m - C (p m) * (X ^ d * master p m) := by ring
  have h2 : (X ^ d * X * master p m).coeff (j + 1) = (X ^ d * master p m).coeff j := by
    rw [show X ^ d * X * master p m = X ^ d * master p m * X from by ring, coeff_mul_X]
  rw [h1, coeff_sub, coeff_C_mul, h2]

theorem coeff_master_top (p : Nat → K) (m : Nat) {k : Nat} (hm : m ≤ k) :
    (X ^ (k - m) * master p m).coeff k = 1 := by
  have hk : k = m + (k - m) := by omega
  rw [mul_comm]
  conv_lhs => rw [hk, show m + (k - m) - m = k - m from by omega]
  rw [coeff_mul_X_pow]
  have := monic_master p m
  rwa [Monic, leadingCoeff, natDegree_master] at this

theorem coeff_master_low (p : Nat → K) {k m j : Nat} (hj : j < k - m) :
    (X ^ (k - m) * master p m).coeff j = 0 := by
  rw [mul_comm, coeff_mul_X_pow', if_neg (by omega)]

section Quotient

variable (p : Nat → K) {k r : Nat} (hr : r < k)

theorem monic_quotient (k r : Nat) : (quotient p k r).Monic :=
  monic_prod_of_monic _ _ fun i _ => monic_X_sub_C (p i)

include hr

theorem natDegree_quotient : (quotient p k r).natDegree = k - 1 := by
  rw [quotient, natDegree_prod_of_monic _ _ fun i _ => monic_X_sub_C (p i)]
  simp [card_erase_of_mem (mem_range.mpr hr)]

theorem master_eq : master p k = (X - C (p r)) * quotient p k r :=
  (mul_prod_erase _ _ (mem_range.mpr hr)).symm

theorem coeff_quotient_top : (quotient p k r).coeff (k - 1) = 1 := by
  have := monic_quotient p k r
  rwa [Monic, leadingCoeff, natDegree_quotient p hr] at this

/-- One step of the synthetic division. -/
theorem coeff_quotient (i : Nat) :
    (quotient p k r).coeff i
      = (master p k).coeff (i + 1) + p r * (quotient p k r).coeff (i + 1) := by
  rw [master_eq p hr, sub_mul, coeff_sub, coeff_X_mul, coeff_C_mul, sub_add_cancel]

end Quotient

/-- The value of the tail of a polynomial from degree `j` on, as Horner's rule builds it. -/
noncomputable def tail (q : K[X]) (j : Nat) : K[X] := divX^[j] q

theorem coeff_tail (q : K[X]) (j n : Nat) : (tail q j).coeff n = q.coeff (n + j) := by
  induction j generalizing n with
  | zero => rfl
  | succ j ih =>
    rw [tail, Function.iterate_succ_apply', coeff_divX]
    exact (ih _).trans (by ring_nf)

theorem eval_tail (q : K[X]) (x : K) (j : Nat) :
    (tail q j).eval x = x * (tail q (j + 1)).eval x + q.coeff j := by
  conv_lhs => rw [← divX_mul_X_add (tail q j)]
  rw [eval_add, eval_mul, eval_X, eval_C, coeff_tail, Nat.zero_add, mul_comm,
    show (tail q j).divX = tail q (j + 1) from (Function.iterate_succ_apply' _ _ _).symm]

theorem eval_tail_top (q : K[X]) (x : K) (hq : q.Monic) : (tail q q.natDegree).eval x = 1 := by
  have h : tail q q.natDegree = 1 := by
    ext n
    rw [coeff_tail, coeff_one]
    by_cases hn : n = 0
    · rw [if_pos hn, hn, Nat.zero_add]
      exact hq
    · rw [if_neg hn]
      exact coeff_eq_zero_of_natDegree_lt (by omega)
  rw [h, eval_one]

theorem eval_quotient_ne (p : Nat → K) {k i r : Nat} (hi : i < k) (hir : i ≠ r) :
    (quotient p k r).eval (p i) = 0 := by
  rw [quotient, eval_prod]
  exact prod_eq_zero (mem_erase.mpr ⟨hir, mem_range.mpr hi⟩) (by simp)

theorem eval_quotient_self {p : Nat → K} {k r : Nat} (hr : r < k)
    (hp : ∀ i < k, ∀ j < k, p i = p j → i = j) : (quotient p k r).eval (p r) ≠ 0 := by
  rw [quotient, eval_prod]
  refine prod_ne_zero_iff.mpr fun i hi => ?_
  obtain ⟨hir, hik⟩ := mem_erase.mp hi
  rw [eval_sub, eval_X, eval_C, sub_ne_zero]
  exact fun h => hir (hp r hr i (mem_range.mp hik) h).symm

/-- The matrix of Lagrange coefficients. -/
noncomputable def lagrange (p : Nat → K) (k : Nat) : Matrix (Fin k) (Fin k) K :=
  fun j r => (quotient p k r).coeff j / (quotient p k r).eval (p r)

theorem vandermonde_mul_lagrange {p : Nat → K} {k : Nat}
    (hp : ∀ i < k, ∀ j < k, p i = p j → i = j) :
    Matrix.vandermonde (fun i : Fin k => p i) * lagrange p k = 1 := by
  ext i r
  have hsum : (Matrix.vandermonde (fun i : Fin k => p i) * lagrange p k) i r
      = (quotient p k r).eval (p i) / (quotient p k r).eval (p r) := by
    have hdeg : (quotient p k r).natDegree < k := by
      rw [natDegree_quotient p r.isLt]
      exact Nat.sub_one_lt_of_lt r.isLt
    rw [eval_eq_sum_range' hdeg, Finset.sum_div, Matrix.mul_apply, Finset.sum_range]
    refine Finset.sum_congr rfl fun j _ => ?_
    rw [Matrix.vandermonde_apply, lagrange, mul_comm ((quotient p k r).coeff j), mul_div_assoc]
  rw [hsum]
  by_cases h : i = r
  · rw [h, div_self (eval_quotient_self r.isLt hp), Matrix.one_apply_eq]
  · rw [eval_quotient_ne p i.isLt (fun e => h (Fin.ext e)), zero_div, Matrix.one_apply_ne h]

end RtpSdr.Lib.Vandermonde
