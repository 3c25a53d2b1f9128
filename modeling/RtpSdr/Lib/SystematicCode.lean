import Mathlib.LinearAlgebra.Lagrange
import Mathlib.LinearAlgebra.Matrix.ToLinearEquiv
import Mathlib.LinearAlgebra.Vandermonde
import Mathlib.LinearAlgebra.Matrix.NonsingularInverse

/-!
# Systematic codes from a Vandermonde matrix

A message of `k` symbols is encoded by the rows of `V * V_top⁻¹`, one row for
each node. The first `k` rows repeat the message, and any `k` distinct rows
determine it.
-/
namespace RtpSdr.Lib.SystematicCode

open Matrix Polynomial

variable {K : Type*} [Field K] {k : Nat}

/-- The rows that a selection `e` of packets has in the code with nodes `x`. -/
noncomputable def rows (x : Nat → K) (k : Nat) (e : Fin k → Nat) : Matrix (Fin k) (Fin k) K :=
  vandermonde (fun i => x (e i)) * (vandermonde fun i : Fin k => x i)⁻¹

/-- The row of one packet. -/
noncomputable def generator (x : Nat → K) (k j : Nat) (i : Fin k) : K :=
  ∑ t : Fin k, x j ^ (t : Nat) * (vandermonde fun i : Fin k => x i)⁻¹ t i

theorem rows_eq_generator (x : Nat → K) (e : Fin k → Nat) (r i : Fin k) :
    rows x k e r i = generator x k (e r) i := rfl

/-- The nodes of the first `n` packets are distinct. -/
def Distinct (x : Nat → K) (n : Nat) : Prop := ∀ i < n, ∀ j < n, x i = x j → i = j

variable {x : Nat → K} {n : Nat} {e : Fin k → Nat}

theorem det_vandermonde_select (hx : Distinct x n) (he : ∀ i, e i < n)
    (hinj : Function.Injective e) : (vandermonde fun i => x (e i)).det ≠ 0 :=
  det_vandermonde_ne_zero_iff.mpr fun i j h => hinj (hx _ (he i) _ (he j) h)

theorem det_vandermonde_top (hx : Distinct x n) (hk : k ≤ n) :
    (vandermonde fun i : Fin k => x i).det ≠ 0 :=
  det_vandermonde_select hx (fun i => i.isLt.trans_le hk) Fin.val_injective

/-- Any `k` distinct rows are independent. -/
theorem det_rows_ne_zero (hx : Distinct x n) (hk : k ≤ n) (he : ∀ i, e i < n)
    (hinj : Function.Injective e) : (rows x k e).det ≠ 0 := by
  have hu : IsUnit (vandermonde fun i : Fin k => x i).det := (det_vandermonde_top hx hk).isUnit
  rw [rows, det_mul, det_nonsing_inv]
  exact mul_ne_zero (det_vandermonde_select hx he hinj) hu.ringInverse.ne_zero

/-- A packet below `k` repeats its message symbol. -/
theorem generator_top (hx : Distinct x n) (hk : k ≤ n) (i j : Fin k) :
    generator x k i j = (1 : Matrix (Fin k) (Fin k) K) i j := by
  have hu : IsUnit (vandermonde fun i : Fin k => x i).det := (det_vandermonde_top hx hk).isUnit
  have htop : rows x k (fun i : Fin k => (i : Nat)) = 1 := mul_nonsing_inv _ hu
  rw [← htop, rows_eq_generator]

theorem rows_top (hx : Distinct x n) (hk : k ≤ n) {r i : Fin k} (h : e r = i) (j : Fin k) :
    rows x k e r j = (1 : Matrix (Fin k) (Fin k) K) i j := by
  rw [rows_eq_generator, h, generator_top hx hk]

/-! ## Evaluation -/

theorem eval_eq_sum_fin {P : K[X]} (hP : P.degree < k) (y : K) :
    P.eval y = ∑ t : Fin k, y ^ (t : Nat) * P.coeff t := by
  have hsum := sum_fin (fun t a => a * y ^ t) (fun t => zero_mul _) hP
  rw [eval_eq_sum, ← hsum]
  exact Finset.sum_congr rfl fun t _ => mul_comm _ _

/-- Encoding is evaluation: what the first `k` values of a polynomial of degree below `k`
encode to is its value at the node of the packet. -/
theorem sum_generator_eval (hx : Distinct x n) (hk : k ≤ n) {P : K[X]} (hP : P.degree < k)
    (j : Nat) : ∑ i : Fin k, generator x k j i * P.eval (x i) = P.eval (x j) := by
  have hu : IsUnit (vandermonde fun i : Fin k => x i).det := (det_vandermonde_top hx hk).isUnit
  have hvalues : (fun i : Fin k => P.eval (x i))
      = (vandermonde fun i : Fin k => x i) *ᵥ fun t : Fin k => P.coeff t :=
    funext fun i => eval_eq_sum_fin hP (x i)
  calc ∑ i : Fin k, generator x k j i * P.eval (x i)
      = (fun t : Fin k => x j ^ (t : Nat)) ᵥ* (vandermonde fun i : Fin k => x i)⁻¹
          ⬝ᵥ fun i : Fin k => P.eval (x i) := rfl
    _ = (fun t : Fin k => x j ^ (t : Nat)) ⬝ᵥ fun t : Fin k => P.coeff t := by
        rw [hvalues, dotProduct_mulVec, vecMul_vecMul, nonsing_inv_mul _ hu, vecMul_one]
    _ = P.eval (x j) := (eval_eq_sum_fin hP (x j)).symm

/-- The message is interpolated by exactly one polynomial of degree below `k`. -/
theorem existsUnique_interpolation (hx : Distinct x n) (hk : k ≤ n) (s : Nat → K) :
    ∃! P : K[X], P.degree < k ∧ ∀ i, i < k → P.eval (x i) = s i := by
  have hinj : Set.InjOn x (Finset.range k) := fun i hi j hj h =>
    hx i ((Finset.mem_range.mp hi).trans_le hk) j ((Finset.mem_range.mp hj).trans_le hk) h
  have hiff (P : K[X]) := Lagrange.eq_interpolate_iff (r := s) (f := P) hinj
  simp only [Finset.card_range, Finset.mem_range] at hiff
  exact ⟨_, (hiff _).mpr rfl, fun P hP => (hiff P).mp hP⟩

/-! ### How far apart encodings are -/

/-- Different polynomials of degree below `k` agree at fewer than `k` nodes. -/
theorem card_agree_lt (hx : Distinct x n) {P Q : K[X]} (hP : P.degree < k) (hQ : Q.degree < k)
    (hne : P ≠ Q) {J : Finset Nat} (hJ : ∀ j ∈ J, j < n ∧ P.eval (x j) = Q.eval (x j)) :
    J.card < k := by
  by_contra hge
  have hcard : (k : WithBot Nat) ≤ J.card := by exact_mod_cast Nat.le_of_not_lt hge
  have hinj : Set.InjOn x J := fun i hi j hj h => hx i (hJ i hi).1 j (hJ j hj).1 h
  exact hne (eq_of_degrees_lt_of_eval_index_eq J hinj (hP.trans_le hcard)
    (hQ.trans_le hcard) fun j hj => (hJ j hj).2)

/-- Fewer than `k` nodes are the zeros of a polynomial of degree below `k`. -/
theorem exists_zero_iff (hx : Distinct x n) {J : Finset Nat} (hJ : ∀ j ∈ J, j < n)
    (hcard : J.card < k) :
    ∃ P : K[X], P.degree < k ∧ ∀ j, j < n → (P.eval (x j) = 0 ↔ j ∈ J) := by
  refine ⟨Lagrange.nodal J x, ?_, fun j hj => ⟨fun h0 => ?_, Lagrange.eval_nodal_at_node⟩⟩
  · rw [Lagrange.degree_nodal]
    exact_mod_cast hcard
  · by_contra hmem
    refine Lagrange.eval_nodal_not_at_node (fun i hi h => ?_) h0
    exact hmem (hx j hj i (hJ i hi) h ▸ hi)

/-! ## Exchanging a packet -/

/-- A selection with packet `r` in the place of its `c`-th one. -/
def replaced (e : Fin k → Nat) (c : Fin k) (r : Nat) : Fin k → Nat := Function.update e c r

theorem replaced_self (e : Fin k → Nat) (c : Fin k) (r : Nat) : replaced e c r c = r :=
  Function.update_self _ _ _

theorem replaced_ne {c i : Fin k} (r : Nat) (h : i ≠ c) : replaced e c r i = e i :=
  Function.update_of_ne h _ _

theorem replaced_lt {c : Fin k} {r : Nat} (he : ∀ i, e i < n) (hr : r < n) (i : Fin k) :
    replaced e c r i < n := by
  by_cases hi : i = c
  · rwa [hi, replaced_self]
  · rw [replaced_ne r hi]
    exact he i

theorem replaced_injective {c : Fin k} {r : Nat} (hinj : Function.Injective e)
    (hr : ∀ i, e i ≠ r) : Function.Injective (replaced e c r) := by
  intro i j hij
  by_cases hi : i = c <;> by_cases hj : j = c
  · rw [hi, hj]
  · rw [hi, replaced_self, replaced_ne r hj] at hij
    exact absurd hij.symm (hr j)
  · rw [hj, replaced_self, replaced_ne r hi] at hij
    exact absurd hij (hr i)
  · rw [replaced_ne r hi, replaced_ne r hj] at hij
    exact hinj hij

/-- A message whose symbol at `r` is zero, as the code sees it with `r` among the received. -/
theorem rows_replaced_mulVec (hx : Distinct x n) (hk : k ≤ n) {c r : Fin k} {s : Fin k → K}
    (hs : rows x k e *ᵥ s = Pi.single c 1) (h0 : s r = 0) :
    rows x k (replaced e c r) *ᵥ s = 0 := by
  ext i
  by_cases hi : i = c
  · have hrow : rows x k (replaced e c r) i = (1 : Matrix (Fin k) (Fin k) K) r :=
      funext (rows_top hx hk (hi ▸ replaced_self e c r))
    have hone : (1 : Matrix (Fin k) (Fin k) K) r ⬝ᵥ s = s r := congrFun (one_mulVec s) r
    rw [mulVec, hrow, hone, h0, Pi.zero_apply]
  · have hrow : rows x k (replaced e c r) i = rows x k e i :=
      funext fun j => by rw [rows_eq_generator, rows_eq_generator, replaced_ne _ hi]
    rw [mulVec, hrow, ← mulVec, hs, Pi.single_eq_of_ne hi, Pi.zero_apply]

/-- A packet that was not received depends on every packet that was: with any one of
them taken out, the rest and the missing one are still independent. -/
theorem decode_ne_zero (hx : Distinct x n) (hk : k ≤ n) (he : ∀ i, e i < n)
    (hinj : Function.Injective e) {b : Matrix (Fin k) (Fin k) K} (hb : b * rows x k e = 1)
    {r : Fin k} (hr : ∀ i, e i ≠ r) (c : Fin k) : b r c ≠ 0 := by
  intro h0
  have hs : rows x k e *ᵥ (fun i => b i c) = Pi.single c 1 := by
    have hright : rows x k e * b = 1 := mul_eq_one_comm.mp hb
    have hcol : rows x k e *ᵥ (fun i => b i c) = fun i => (rows x k e * b) i c := rfl
    rw [hcol, hright]
    ext i
    rw [one_apply, Pi.single_apply]
  have hzero := rows_replaced_mulVec hx hk hs h0
  have hdet := det_rows_ne_zero hx hk (replaced_lt (c := c) he (r.isLt.trans_le hk))
    (replaced_injective hinj hr)
  have hs0 : (fun i => b i c) = 0 := by
    by_contra hne
    exact hdet (exists_mulVec_eq_zero_iff.mp ⟨_, hne, hzero⟩)
  rw [hs0, mulVec_zero] at hs
  have hc := congrFun hs c
  rw [Pi.single_eq_same, Pi.zero_apply] at hc
  exact zero_ne_one hc

end RtpSdr.Lib.SystematicCode
