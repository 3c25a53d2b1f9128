import RtpSdr.Fec.MatrixInv
import RtpSdr.Fec.VandermondeInv

/-!
# What `matrix_inv` decides

A matrix that an `int` can index is inverted, or found singular. Beyond that size
every run computes the position of the last element at the latest, and that one
overflows: no pivot is ever found in the last row or column.
-/
namespace RtpSdr.Fec.Inverse

open RtpSdr.Lib.Checked
open RtpSdr.Lib.Memory
open RtpSdr.Fec.Galois
open RtpSdr.Fec.Field
open RtpSdr.Fec.Matrix
open RtpSdr.Fec.MatrixInv
open RtpSdr.Fec.VandermondeInv

/-! ## Beyond the range of `int` -/

section Large

variable {k : Nat} {a : List Gf} {ipiv : List Nat}

theorem last_overflows (hk : 0 < k) (hbig : 2 ^ 31 < k * k) :
    ¬ (k - 1) * k + (k - 1) < 2 ^ 31 := by
  have hle : k ≤ k * k := Nat.le_mul_of_pos_left k hk
  rw [Nat.sub_mul, Nat.one_mul]
  omega

/-- No column was counted twice, and the last one not at all. -/
structure Fresh (k : Nat) (ipiv : List Nat) : Prop where
  count : ∀ i, ipiv.getD i 0 ≤ 1
  last : ipiv.getD (k - 1) 0 = 0

theorem Fresh.set (h : Fresh k ipiv) {i : Nat} (hi : i < ipiv.length) (hlast : i ≠ k - 1) :
    Fresh k (ipiv.set i 1) where
  count j := by
    rw [getD_set hi]
    split
    · exact Nat.le_refl 1
    · exact h.count j
  last := by
    rw [getD_set hi, if_neg hlast, h.last]

/-- A position that the search returns. -/
structure Found (a : List Gf) (ipiv : List Nat) (k row i : Nat) : Prop where
  col : i < k
  unused : ipiv.getD i 0 = 0
  small : row * k + i < 2 ^ 31
  ne_zero : a.getD (row * k + i) 0 ≠ 0

/-- A row that was searched to its end has its last position in range. -/
theorem searchRow_returns (hf : Fresh k ipiv) {row : Nat} {d : Step Unit (Option (Nat × Nat))}
    (hrun : searchRow a ipiv k row = .ok d) :
    (d = .next () ∧ (0 < k → row * k + (k - 1) < 2 ^ 31)) ∨
      ∃ i, d = .leave (some (row, i)) ∧ Found a ipiv k row i := by
  have hloop := forLeave_outcome (I := fun t _ => k - 1 < t → row * k + (k - 1) < 2 ^ 31)
    (Q := fun x => ∃ i, x = some (row, i) ∧ Found a ipiv k row i)
    (fun h => absurd h (Nat.not_lt_zero _)) ?_ ?_ hrun
  · rcases hloop with ⟨_, rfl, hI⟩ | ⟨_, rfl, i, rfl, hfound⟩
    · exact .inl ⟨rfl, fun hk => hI (by omega)⟩
    · exact .inr ⟨i, rfl, hfound⟩
  · intro i _ _ hi hI hpass hlast
    by_cases hik : k - 1 < i
    · exact hI hik
    -- the last column is unused, so its element is read
    · obtain ⟨p, hp, hpass⟩ := bind_eq_ok.mp hpass
      have hp := (load_getD_eq 0 hp).2
      rw [show i = k - 1 from by omega] at hp hpass
      rw [hf.last] at hp
      rw [← hp, if_pos rfl] at hpass
      obtain ⟨pos, hpos, -⟩ := bind_eq_ok.mp hpass
      exact (position_eq_ok hpos).2
  · intro i _ x hi _ hpass
    obtain ⟨p, hp, hpass⟩ := bind_eq_ok.mp hpass
    have hp := (load_getD_eq 0 hp).2
    by_cases h0 : p = 0
    · rw [if_pos h0] at hpass
      obtain ⟨pos, hpos, hpass⟩ := bind_eq_ok.mp hpass
      obtain ⟨rfl, hsmall⟩ := position_eq_ok hpos
      obtain ⟨y, hy, hpass⟩ := bind_eq_ok.mp hpass
      have hy := (load_getD_eq 0 hy).2
      by_cases hne : y ≠ 0
      · rw [if_pos hne] at hpass
        cases hpass
        exact ⟨i, rfl, hi, hp.trans h0, hsmall, hy ▸ hne⟩
      · rw [if_neg hne] at hpass
        cases hpass
    · have := hf.count i
      rw [if_neg h0, if_neg (by omega)] at hpass
      cases hpass

theorem searchMatrix_returns (hf : Fresh k ipiv) (hk : 0 < k) (hbig : 2 ^ 31 < k * k)
    {r : Option (Nat × Nat)} (hrun : searchMatrix a ipiv k = .ok r) :
    ∃ row i, r = some (row, i) ∧ row < k ∧ Found a ipiv k row i := by
  obtain ⟨d, hd, hrun⟩ := bind_eq_ok.mp hrun
  have hloop := forLeave_outcome (I := fun t _ => t < k)
    (Q := fun x => ∃ row i, x = some (row, i) ∧ row < k ∧ Found a ipiv k row i) hk ?_ ?_ hd
  · rcases hloop with ⟨_, rfl, hlt⟩ | ⟨x, rfl, hx⟩
    · exact absurd hlt (Nat.lt_irrefl k)
    · cases hrun
      exact hx
  · intro row _ _ hrow _ hpass
    by_cases hlast : row = k - 1
    · obtain ⟨p, hp, hpass⟩ := bind_eq_ok.mp hpass
      have hp := (load_getD_eq 0 hp).2
      rw [hlast, hf.last] at hp
      rw [← hp, if_pos Nat.zero_ne_one, hlast] at hpass
      rcases searchRow_returns hf hpass with ⟨-, hsmall⟩ | ⟨i, hi, -⟩
      · exact absurd (hsmall hk) (last_overflows hk hbig)
      · cases hi
    · omega
  · intro row _ x hrow _ hpass
    obtain ⟨p, hp, hpass⟩ := bind_eq_ok.mp hpass
    by_cases h1 : p ≠ 1
    · rw [if_pos h1] at hpass
      rcases searchRow_returns hf hpass with ⟨hn, -⟩ | ⟨i, hi, hfound⟩
      · cases hn
      · cases hi
        exact ⟨row, i, rfl, hrow, hfound⟩
    · rw [if_neg h1] at hpass
      cases hpass

theorem findPivot_returns (hf : Fresh k ipiv) (hk : 0 < k) (hbig : 2 ^ 31 < k * k) {col : Nat}
    (hcol : col < k) {r : Option (Nat × Nat)} (hrun : findPivot a ipiv k col = .ok r) :
    col ≠ k - 1 ∧ ∃ row i, r = some (row, i) ∧ row < k ∧ Found a ipiv k row i := by
  obtain ⟨p, hp, hrun⟩ := bind_eq_ok.mp hrun
  have hp := (load_getD_eq 0 hp).2
  dsimp only at hrun
  by_cases h1 : p ≠ 1
  · have hcount := hf.count col
    rw [if_pos h1] at hrun
    obtain ⟨pos, hpos, hrun⟩ := bind_eq_ok.mp hrun
    obtain ⟨rfl, hsmall⟩ := position_eq_ok hpos
    obtain ⟨x, hx, hrun⟩ := bind_eq_ok.mp hrun
    have hx := (load_getD_eq 0 hx).2
    rw [ok_bind] at hrun
    constructor
    · intro hlast
      exact last_overflows hk hbig (hlast ▸ hsmall)
    · by_cases hne : x ≠ 0
      · rw [decide_eq_true hne, if_pos rfl] at hrun
        cases hrun
        exact ⟨col, col, rfl, hcol, hcol, by omega, hsmall, hx ▸ hne⟩
      · rw [decide_eq_false hne, if_neg Bool.false_ne_true] at hrun
        exact searchMatrix_returns hf hk hbig hrun
  · constructor
    · intro hlast
      rw [hlast, hf.last] at hp
      omega
    · rw [if_neg h1, ok_bind, if_neg Bool.false_ne_true] at hrun
      exact searchMatrix_returns hf hk hbig hrun

theorem swapRows_returns {irow icol : Nat} (hne : irow ≠ icol) (hcol : icol < k)
    {a' : List Gf} (hrun : swapRows k irow icol a = .ok a') :
    irow * k + (k - 1) < 2 ^ 31 ∧ icol * k + (k - 1) < 2 ^ 31 ∧
      a'.getD (icol * k + icol) 0 = a.getD (irow * k + icol) 0 := by
  have hloop := forUp_returns (I := fun i (t : List Gf) =>
    (k - 1 < i → irow * k + (k - 1) < 2 ^ 31 ∧ icol * k + (k - 1) < 2 ^ 31) ∧
      (∀ j, i ≤ j → j < k → cell t k irow j = cell a k irow j) ∧
        (icol < i → cell t k icol icol = cell a k irow icol)) ?_ ?_ hrun
  · exact ⟨(hloop.1 (by omega)).1, (hloop.1 (by omega)).2, hloop.2.2 hcol⟩
  · exact ⟨fun h => absurd h (Nat.not_lt_zero _), fun _ _ _ => rfl,
      fun h => absurd h (Nat.not_lt_zero _)⟩
  · intro i t u hi hI hpass
    obtain ⟨hlast, hrow, hdone⟩ := hI
    obtain ⟨p, hp, hpass⟩ := bind_eq_ok.mp hpass
    obtain ⟨rfl, hsmall⟩ := position_eq_ok hp
    obtain ⟨q, hq, hpass⟩ := bind_eq_ok.mp hpass
    obtain ⟨rfl, hsmall'⟩ := position_eq_ok hq
    obtain ⟨tmp, htmp, hpass⟩ := bind_eq_ok.mp hpass
    have htmp := (load_getD_eq 0 htmp).2
    obtain ⟨x, -, hpass⟩ := bind_eq_ok.mp hpass
    obtain ⟨t₁, hstore, hpass⟩ := bind_eq_ok.mp hpass
    obtain ⟨hlt, rfl⟩ := store_eq_ok hstore
    obtain ⟨hlt', rfl⟩ := store_eq_ok hpass
    refine ⟨fun h => ?_, fun j hj hjk => ?_, fun hlt'' => ?_⟩
    · by_cases hik : k - 1 < i
      · exact hlast hik
      · rw [show k - 1 = i from by omega]
        exact ⟨hsmall, hsmall'⟩
    · rw [cell_set _ hlt' hi hjk, if_neg fun h => hne h.1, cell_set _ hlt hi hjk,
        if_neg (by omega), hrow j (by omega) hjk]
    · rw [cell_set _ hlt' hi hcol]
      by_cases hc : icol = i
      · rw [if_pos ⟨rfl, hc⟩, ← htmp, hc]
        exact hrow i (Nat.le_refl i) hi
      · rw [if_neg fun h => hc h.2, cell_set _ hlt hi hcol, if_neg fun h => hne h.1.symm]
        exact hdone (by omega)

/-- What a pass that returns has done to a matrix of that size. -/
theorem invColumn_returns {s : InvState} (hf : Fresh k s.ipiv) (hk : 0 < k)
    (hbig : 2 ^ 31 < k * k) {col : Nat} (hcol : col < k) {d : Step InvState (List Gf)}
    (hrun : invColumn k col s = .ok d) :
    col ≠ k - 1 ∧ ∃ s', d = .next s' ∧ Fresh k s'.ipiv := by
  obtain ⟨r, hr, hrun⟩ := bind_eq_ok.mp hrun
  obtain ⟨hlast, row, i, rfl, hrow, hfound⟩ := findPivot_returns hf hk hbig hcol hr
  refine ⟨hlast, ?_⟩
  dsimp only at hrun
  obtain ⟨p, hp, hrun⟩ := bind_eq_ok.mp hrun
  have hp := (load_getD_eq 0 hp).2
  rw [hfound.unused] at hp
  subst hp
  obtain ⟨ipiv', hipiv, hrun⟩ := bind_eq_ok.mp hrun
  obtain ⟨hi, rfl⟩ := store_eq_ok hipiv
  obtain ⟨a₁, hswap, hrun⟩ := bind_eq_ok.mp hrun
  obtain ⟨_, -, hrun⟩ := bind_eq_ok.mp hrun
  obtain ⟨_, -, hrun⟩ := bind_eq_ok.mp hrun
  obtain ⟨pivotRow, hpivot, hrun⟩ := bind_eq_ok.mp hrun
  obtain ⟨rfl, -⟩ := position_eq_ok hpivot
  have hkey : i ≠ k - 1 ∧ a₁.getD (i * k + i) 0 = s.a.getD (row * k + i) 0 := by
    unfold pivotToDiagonal at hswap
    by_cases hri : row ≠ i
    · rw [if_pos hri] at hswap
      obtain ⟨-, hsmall, hcell⟩ := swapRows_returns hri hfound.col hswap
      exact ⟨fun hik => last_overflows hk hbig (hik ▸ hsmall), hcell⟩
    · rw [if_neg hri] at hswap
      cases hswap
      rw [not_not.mp hri]
      refine ⟨fun hik => ?_, rfl⟩
      have hsmall := hfound.small
      rw [not_not.mp hri, hik] at hsmall
      exact last_overflows hk hbig hsmall
  obtain ⟨r, hr, hrun⟩ := bind_eq_ok.mp hrun
  cases r with
  | none =>
    obtain ⟨c, hc, hr⟩ := bind_eq_ok.mp hr
    have hc := (load_getD_eq 0 hc).2
    rw [Nat.add_zero, hkey.2] at hc
    rw [if_neg (hc ▸ hfound.ne_zero)] at hr
    by_cases h1 : c ≠ 1
    · rw [if_pos h1] at hr
      obtain ⟨_, -, hr⟩ := bind_eq_ok.mp hr
      obtain ⟨_, -, hr⟩ := bind_eq_ok.mp hr
      cases hr
    · rw [if_neg h1] at hr
      cases hr
  | some a₂ =>
    obtain ⟨_, -, hrun⟩ := bind_eq_ok.mp hrun
    obtain ⟨_, -, hrun⟩ := bind_eq_ok.mp hrun
    obtain ⟨_, -, hrun⟩ := bind_eq_ok.mp hrun
    cases hrun
    exact ⟨_, rfl, hf.set hi hkey.1⟩

theorem matrixInv_ne_ok (hbig : 2 ^ 31 < k * k) (r : Int × List Gf) :
    matrixInv a k ≠ .ok r := by
  intro hrun
  have hk : 0 < k := by
    apply Nat.pos_of_ne_zero
    intro h0
    rw [h0] at hbig
    omega
  obtain ⟨d, hd, -⟩ := bind_eq_ok.mp hrun
  have hloop := forLeave_outcome (I := fun col (s : InvState) => col < k ∧ Fresh k s.ipiv)
    (Q := fun _ => False) ⟨hk, fun i => ?_, ?_⟩ ?_ ?_ hd
  · rcases hloop with ⟨_, -, hlt, -⟩ | ⟨_, -, hfalse⟩
    · exact Nat.lt_irrefl k hlt
    · exact hfalse
  · rw [initState, getD_replicate_default]
    exact Nat.zero_le 1
  · exact getD_replicate_default _ _ _
  · intro col s s' hcol hI hpass
    obtain ⟨hlast, _, hs', hf⟩ := invColumn_returns hI.2 hk hbig hcol hpass
    cases hs'
    exact ⟨by omega, hf⟩
  · intro col s a' hcol hI hpass
    obtain ⟨-, _, hs', -⟩ := invColumn_returns hI.2 hk hbig hcol hpass
    cases hs'

end Large

/-! ## The inverse in the array -/

section Inverse

variable {k : Nat} {a b c : List Gf} {m m' : Matrix (Fin k) (Fin k) Gf}

/-- The matrix that an array holds. -/
def matrixOf (k : Nat) (a : List Gf) : Matrix (Fin k) (Fin k) Gf := fun i j => cell a k i j

theorem holds_matrixOf (h : a.length = k * k) : Holds k a (matrixOf k a) := ⟨h, fun _ _ => rfl⟩

/-- An array is determined by the matrix it holds. -/
theorem Holds.unique (ha : Holds k a m) (hb : Holds k b m) : a = b := by
  refine ext_getD 0 (ha.length.trans hb.length.symm) fun p hp => ?_
  rw [ha.length] at hp
  have hk : 0 < k := by
    apply Nat.pos_of_ne_zero
    intro h0
    rw [h0] at hp
    omega
  have hcell := (ha.cell ⟨p / k, Nat.div_lt_of_lt_mul hp⟩ ⟨p % k, Nat.mod_lt p hk⟩).trans
    (hb.cell _ _).symm
  simp only [Matrix.cell, Nat.mul_comm _ k, Nat.div_add_mod] at hcell
  exact hcell

theorem matrixMul_holds (ha : Holds k a m) (hb : Holds k b m') (hc : c.length = k * k) :
    ∃ c', matrixMul a b c k k k = .ok c' ∧ Holds k c' (m * m') := by
  obtain ⟨c', hmul, hl, hcell⟩ := matrixMul_ok ha.length.ge hb.length.ge hc.ge
  refine ⟨c', hmul, hl.trans hc, fun i j => ?_⟩
  rw [hcell i j j.isLt, if_pos i.isLt, Finset.sum_range, Matrix.mul_apply]
  exact Finset.sum_congr rfl fun t _ => by rw [ha.cell i t, hb.cell t j]

/-- Whatever `c` held, `matrix_mul(a, b, c, k, k, k)` leaves the identity in it. -/
def MulIsOne (k : Nat) (a b : List Gf) : Prop :=
  ∀ c, c.length = k * k → ∃ c', matrixMul a b c k k k = .ok c' ∧ Holds k c' 1

/-- The array `b` holds the two-sided inverse of the matrix in `a`. -/
structure IsInverse (k : Nat) (a b : List Gf) : Prop where
  length : b.length = k * k
  right : MulIsOne k a b
  left : MulIsOne k b a

theorem isInverse_of_mul (ha : Holds k a m) (hb : Holds k b m') (h : m' * m = 1) :
    IsInverse k a b where
  length := hb.length
  right c hc := by
    rw [← mul_eq_one_comm.mp h]
    exact matrixMul_holds ha hb hc
  left c hc := by
    rw [← h]
    exact matrixMul_holds hb ha hc

/-- `matrix_inv(a, k)` stays within the rows and columns of the matrix, returns one exactly
when it is nonsingular, and has then inverted it. -/
structure Inverts (k : Nat) (a : List Gf) : Prop where
  found : ∀ col s row i, col < k → forLeave (invColumn k) col (initState a k) = .ok (.next s) →
    findPivot s.a s.ipiv k col = .ok (some (row, i)) → row < k ∧ i < k
  recorded : ∀ col s t, col ≤ k → forLeave (invColumn k) col (initState a k) = .ok (.next s) →
    t < col → s.indxr.getD t 0 < k ∧ s.indxc.getD t 0 < k
  decides : ∃ r a', matrixInv a k = .ok (r, a') ∧ (r = 1 ↔ (matrixOf k a).det ≠ 0) ∧
    (r = 1 → IsInverse k a a')

theorem running_of_next (hfit : k * k ≤ 2 ^ 31) (h : Holds k a m) {col : Nat} (hcol : col ≤ k)
    {s : InvState} (hrun : forLeave (invColumn k) col (initState a k) = .ok (.next s)) :
    ∃ S σ m', Running m col S σ m' s := by
  rcases passes_ok hfit h hcol with ⟨t, ht, hrunning⟩ | ⟨_, hleave, -⟩
  · cases ht.symm.trans hrun
    exact hrunning
  · cases hleave.symm.trans hrun

theorem inverts_of_fits (hfit : k * k ≤ 2 ^ 31) (ha : a.length = k * k) : Inverts k a where
  found col s row i hcol hrun hfind := by
    obtain ⟨S, _, _, hs⟩ := running_of_next hfit (holds_matrixOf ha) hcol.le hrun
    rcases findPivot_ok hfit hs.holds hs.counts ⟨col, hcol⟩ with ⟨hnone, -⟩ | ⟨r, p, hsome, -⟩
    · cases hnone.symm.trans hfind
    · cases hsome.symm.trans hfind
      exact ⟨r.isLt, p.isLt⟩
  recorded col s t hcol hrun ht := by
    obtain ⟨_, _, _, hs⟩ := running_of_next hfit (holds_matrixOf ha) hcol hrun
    obtain ⟨r, p, hr, hp, -⟩ := hs.swaps t ht
    rw [hr, hp]
    exact ⟨r.isLt, p.isLt⟩
  decides := by
    have hh := holds_matrixOf ha
    rcases matrixInv_ok hfit hh with ⟨a', m, hrun, hm, hone⟩ | ⟨a', hrun, hdet⟩
    · refine ⟨1, a', hrun, iff_of_true rfl ?_, fun _ => isInverse_of_mul hh hm hone⟩
      have hdets : m.det * (matrixOf k a).det = 1 := by rw [← Matrix.det_mul, hone, Matrix.det_one]
      exact right_ne_zero_of_mul_eq_one hdets
    · exact ⟨0, a', hrun, iff_of_false zero_ne_one (not_not.mpr hdet),
        fun h => absurd h zero_ne_one⟩

/-- `matrix_inv` is right about every matrix whose positions fit an `int`, and about no other. -/
theorem inverts_iff (ha : a.length = k * k) : Inverts k a ↔ k * k ≤ 2 ^ 31 := by
  constructor
  · intro h
    by_contra hbig
    obtain ⟨r, a', hrun, -⟩ := h.decides
    exact matrixInv_ne_ok (Nat.lt_of_not_le hbig) _ hrun
  · intro hfit
    exact inverts_of_fits hfit ha

/-- Two rows that have to be exchanged: zero cannot be the pivot of the first. -/
def offDiagonal : List Gf := ([0, 3, 2, 1] : List UInt8)

theorem inverts_offDiagonal : offDiagonal.length = 2 * 2 ∧ Inverts 2 offDiagonal ∧
    matrixInv offDiagonal 2 = .ok (1, ([122, 142, 244, 0] : List UInt8)) ∧
    IsInverse 2 offDiagonal ([122, 142, 244, 0] : List UInt8) := by
  have hinverts : Inverts 2 offDiagonal := (inverts_iff rfl).mpr (by decide)
  have hrun : matrixInv offDiagonal 2 = .ok (1, ([122, 142, 244, 0] : List UInt8)) := by
    decide +kernel
  obtain ⟨r, a, hinv, -, hinverse⟩ := hinverts.decides
  cases hinv.symm.trans hrun
  exact ⟨rfl, hinverts, hrun, hinverse rfl⟩

/-- The smallest matrix that is too large. -/
theorem inverts_fails : ¬ Inverts 46341 (List.replicate (46341 * 46341) 0) := fun h =>
  have hrun := h.decides.choose_spec.choose_spec.1
  matrixInv_ne_ok (by decide) _ hrun

/-! ## The fast path -/

/-- On a Vandermonde matrix of distinct nodes both functions leave the same inverse. -/
theorem matrixInvVandermonde_agrees (hk : 2 ≤ k) {p : Fin k → Gf} (hp : Function.Injective p)
    (ha : Holds k a (Matrix.vandermonde p)) :
    ∃ b, matrixInvVandermonde a k = .ok (1, b) ∧ matrixInv a k = .ok (1, b) ∧ IsInverse k a b := by
  have hcard : k ≤ 256 := by
    have := Fintype.card_le_of_injective p hp
    rwa [Fintype.card_fin, Gf.card] at this
  have hfit : k * k ≤ 2 ^ 31 := (Nat.mul_le_mul hcard hcard).trans (by decide)
  obtain ⟨x, hx⟩ : ∃ x : Nat → Gf, ∀ i : Fin k, x i = p i :=
    ⟨fun i => if h : i < k then p ⟨i, h⟩ else 0, fun i => dif_pos i.isLt⟩
  have hinj (i : Nat) (hi : i < k) (j : Nat) (hj : j < k) (hij : x i = x j) : i = j := by
    rw [hx ⟨i, hi⟩, hx ⟨j, hj⟩] at hij
    exact Fin.val_eq_of_eq (hp hij)
  have hnodes : (fun i : Fin k => x i) = p := funext hx
  obtain ⟨b, hfast, hl, hcell, -⟩ := matrixInvVandermonde_ok (x := x) (by omega) hinj ha.length.ge
    fun i j hi hj => by rw [hx ⟨i, hi⟩]; exact ha.cell ⟨i, hi⟩ ⟨j, hj⟩
  rw [if_neg (by omega)] at hfast
  rw [hnodes] at hcell
  have hb : Holds k b (Matrix.vandermonde p)⁻¹ := ⟨hl.trans ha.length, hcell⟩
  have hdet : (Matrix.vandermonde p).det ≠ 0 := Matrix.det_vandermonde_ne_zero_iff.mpr hp
  rcases matrixInv_ok hfit ha with ⟨b', m, hslow, hb', hone⟩ | ⟨_, -, h0⟩
  · have hm : m = (Matrix.vandermonde p)⁻¹ := (Matrix.inv_eq_left_inv hone).symm
    rw [Holds.unique hb' (hm ▸ hb)] at hslow
    exact ⟨b, hfast, hslow, isInverse_of_mul ha hb (hm ▸ hone)⟩
  · exact absurd h0 hdet

theorem matrixInvVandermonde_agrees_zeroOne :
    (2 ≤ 2 ∧ Function.Injective ![(0 : Gf), 1] ∧
        Holds 2 [1, 0, 1, 1] (Matrix.vandermonde ![(0 : Gf), 1])) ∧
      ∃ b, matrixInvVandermonde [1, 0, 1, 1] 2 = .ok (1, b) ∧
        matrixInv [1, 0, 1, 1] 2 = .ok (1, b) ∧ IsInverse 2 [1, 0, 1, 1] b := by
  have hp : Function.Injective ![(0 : Gf), 1] := by decide
  have ha : Holds 2 [1, 0, 1, 1] (Matrix.vandermonde ![(0 : Gf), 1]) :=
    ⟨rfl, by simp [Fin.forall_fin_two, Matrix.vandermonde_apply, cell]⟩
  exact ⟨⟨Nat.le_refl 2, hp, ha⟩, matrixInvVandermonde_agrees (Nat.le_refl 2) hp ha⟩

end Inverse

end RtpSdr.Fec.Inverse
