import Mathlib.LinearAlgebra.Matrix.ToLinearEquiv
import Mathlib.LinearAlgebra.Matrix.NonsingularInverse

/-!
# In-place Gauss-Jordan inversion

One array serves for both halves of the augmented matrix: the columns that have
had their pivot hold the accumulated row operations, the others what is left of
the input. `Reduced S A a` says so. A pivot step and an exchange of two rows
without a pivot preserve it, and with every pivot done the array is a left
inverse. The columns are then put in the order of the original rows.
-/
namespace RtpSdr.Lib.GaussJordan

open Matrix Equiv

variable {ι K : Type*} [DecidableEq ι] [Field K]

/-- The row operations so far: stored in the pivoted columns, the identity elsewhere. -/
def operations (S : Finset ι) (a : Matrix ι ι K) : Matrix ι ι K :=
  fun i j => if j ∈ S then a i j else (1 : Matrix ι ι K) i j

/-- The input so far: the identity in the pivoted columns, stored elsewhere. -/
def remainder (S : Finset ι) (a : Matrix ι ι K) : Matrix ι ι K :=
  fun i j => if j ∈ S then (1 : Matrix ι ι K) i j else a i j

variable [Fintype ι]

def Reduced (S : Finset ι) (A a : Matrix ι ι K) : Prop :=
  operations S a * A = remainder S a

theorem reduced_empty (A : Matrix ι ι K) : Reduced ∅ A A := by
  have hl : operations ∅ A = 1 := by ext i j; simp [operations]
  have hr : remainder ∅ A = A := by ext i j; simp [remainder]
  rw [Reduced, hl, hr, Matrix.one_mul]

theorem mul_eq_one_of_reduced {A a : Matrix ι ι K} (h : Reduced Finset.univ A a) : a * A = 1 := by
  have hl : operations Finset.univ a = a := by ext i j; simp [operations]
  have hr : remainder Finset.univ a = 1 := by ext i j; simp [remainder]
  rwa [Reduced, hl, hr] at h

/-! ## The pivot step -/

/-- The elimination of row `p` on a matrix `m`, with the pivot column taken from `a`. -/
def eliminate (p : ι) (a m : Matrix ι ι K) : Matrix ι ι K :=
  fun i j => if i = p then (a p p)⁻¹ * m p j else m i j - a i p * ((a p p)⁻¹ * m p j)

theorem eliminate_mul (p : ι) (a m n : Matrix ι ι K) :
    eliminate p a (m * n) = eliminate p a m * n := by
  ext i j
  by_cases hi : i = p
  · simp only [eliminate, if_pos hi, mul_apply, Finset.mul_sum, mul_assoc]
  · simp only [eliminate, if_neg hi, mul_apply, Finset.mul_sum, mul_assoc, sub_mul,
      Finset.sum_sub_distrib]

/-- What the step leaves in the array. -/
def pivot (p : ι) (a : Matrix ι ι K) : Matrix ι ι K :=
  fun i j =>
    if i = p then (if j = p then (a p p)⁻¹ else (a p p)⁻¹ * a p j)
    else if j = p then -(a i p * (a p p)⁻¹) else a i j - a i p * ((a p p)⁻¹ * a p j)

omit [Fintype ι] in
theorem operations_pivot {S : Finset ι} {a : Matrix ι ι K} {p : ι} (hp : p ∉ S) :
    operations (insert p S) (pivot p a) = eliminate p a (operations S a) := by
  ext i j
  by_cases hj : j = p
  · subst hj
    by_cases hi : i = j <;> simp [operations, pivot, eliminate, hp, hi]
  · by_cases hS : j ∈ S
    · by_cases hi : i = p <;> simp [operations, pivot, eliminate, hj, hS, hi]
    · have hpj : p ≠ j := fun h => hj h.symm
      by_cases hi : i = p <;> simp [operations, eliminate, hj, hS, hi, hpj]

omit [Fintype ι] in
theorem remainder_pivot {S : Finset ι} {a : Matrix ι ι K} {p : ι} (hp : p ∉ S)
    (h0 : a p p ≠ 0) : remainder (insert p S) (pivot p a) = eliminate p a (remainder S a) := by
  ext i j
  by_cases hj : j = p
  · subst hj
    by_cases hi : i = j
    · subst hi
      simp [remainder, eliminate, hp, h0]
    · simp [remainder, eliminate, hp, hi, h0]
  · by_cases hS : j ∈ S
    · have hpj : p ≠ j := fun h => hp (h ▸ hS)
      by_cases hi : i = p <;> simp [remainder, eliminate, hS, hi, hpj]
    · by_cases hi : i = p <;> simp [remainder, pivot, eliminate, hj, hS, hi]

theorem reduced_pivot {S : Finset ι} {A a : Matrix ι ι K} {p : ι} (hp : p ∉ S) (h0 : a p p ≠ 0)
    (h : Reduced S A a) : Reduced (insert p S) A (pivot p a) := by
  rw [Reduced, operations_pivot hp, ← eliminate_mul, h, remainder_pivot hp h0]

/-! ## Exchanging rows -/

/-- Rows without a pivot may be permuted, in the array and in the input alike. -/
theorem reduced_permute {S : Finset ι} {A a : Matrix ι ι K} {σ : Perm ι}
    (hσ : ∀ j ∈ S, σ j = j) (h : Reduced S A a) :
    Reduced S (A.submatrix σ id) (a.submatrix σ id) := by
  have hmem (j : ι) : σ j ∈ S ↔ j ∈ S := by
    constructor
    · intro hj
      have := σ.injective (hσ _ hj)
      rwa [this] at hj
    · intro hj
      rwa [hσ j hj]
  have hl : operations S (a.submatrix σ id) = (operations S a).submatrix σ σ := by
    ext i j
    by_cases hj : j ∈ S
    · simp [operations, hj, hσ j hj]
    · simp [operations, hj, hmem, one_apply]
  have hr : remainder S (a.submatrix σ id) = (remainder S a).submatrix σ id := by
    ext i j
    by_cases hj : j ∈ S
    · have hone : (1 : Matrix ι ι K) i j = (1 : Matrix ι ι K) (σ i) j := by
        have : (σ i = j) = (i = j) := by rw [← σ.injective.eq_iff (a := i), hσ j hj]
        simp only [one_apply, this]
      change (if j ∈ S then _ else _) = (if j ∈ S then _ else _)
      rw [if_pos hj, if_pos hj]
      exact hone
    · simp [remainder, hj]
  rw [Reduced, hl, hr, submatrix_mul_equiv, h]

omit [Fintype ι] in
theorem swap_fixes {S : Finset ι} {r p : ι} (hr : r ∉ S) (hp : p ∉ S) :
    ∀ j ∈ S, swap r p j = j := fun _ hj =>
  swap_apply_of_ne_of_ne (fun h => hr (h ▸ hj)) (fun h => hp (h ▸ hj))

/-! ## Singular inputs -/

/-- A row with nothing left outside the pivoted columns is a dependency of the input. -/
theorem det_eq_zero_of_reduced {S : Finset ι} {A a : Matrix ι ι K} {i : ι} (hi : i ∉ S)
    (hz : ∀ j, j ∉ S → a i j = 0) (h : Reduced S A a) : A.det = 0 := by
  rw [← exists_vecMul_eq_zero_iff]
  refine ⟨operations S a i, ?_, ?_⟩
  · intro h0
    have := congrFun h0 i
    simp [operations, hi] at this
  · have hrow : operations S a i ᵥ* A = remainder S a i := by
      rw [← h]
      rfl
    rw [hrow]
    ext j
    by_cases hj : j ∈ S
    · have hij : i ≠ j := fun e => hi (e ▸ hj)
      simp [remainder, hj, one_apply, hij]
    · simp [remainder, hj, hz j hj]

/-! ## The order of the columns -/

/-- The exchanges of a run, composed in the order they were made. -/
def scramble (σ : Nat → Perm ι) : Nat → Perm ι
  | 0 => 1
  | n + 1 => scramble σ n * σ n

omit [DecidableEq ι] [Field K] [Fintype ι] in
theorem scramble_congr {σ τ : Nat → Perm ι} (n : Nat) (h : ∀ t, t < n → σ t = τ t) :
    scramble σ n = scramble τ n := by
  induction n with
  | zero => rfl
  | succ n ih =>
    rw [scramble, scramble, ih fun t ht => h t (Nat.lt_succ_of_lt ht), h n (Nat.lt_succ_self n)]

omit [Fintype ι] [DecidableEq ι] [Field K] in
/-- Undoing one more exchange on the columns. -/
theorem submatrix_scramble (σ : Nat → Perm ι) (n : Nat) (b : Matrix ι ι K) :
    b.submatrix id (scramble σ (n + 1)).symm
      = (b.submatrix id (σ n).symm).submatrix id (scramble σ n).symm := rfl

/-- A left inverse of the permuted input, its columns permuted back, is one of the input. -/
theorem mul_eq_one_of_permuted {A b : Matrix ι ι K} {π : Perm ι}
    (h : b * A.submatrix π id = 1) : b.submatrix id π.symm * A = 1 := by
  have hb : b.submatrix id π.symm * A = b * A.submatrix π id := by
    ext i j
    simp only [mul_apply, submatrix_apply, id_eq]
    exact (sum_comp π fun x => b i (π.symm x) * A x j).symm.trans (by simp)
  rw [hb, h]

end RtpSdr.Lib.GaussJordan
