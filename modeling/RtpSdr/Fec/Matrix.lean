import Mathlib.Algebra.BigOperators.Intervals
import RtpSdr.Lib.Memory
import RtpSdr.Fec.Field

/-!
# Row operations and products of `fec_galois.c` and `fec_matrix.c`

A matrix is a flat row-major array. `cell` reads it by row and column; each loop
of the source has a lemma that gives every cell it leaves.
-/
namespace RtpSdr.Fec.Matrix

open RtpSdr.Lib.Checked
open RtpSdr.Lib.Memory
open RtpSdr.Fec.Galois
open RtpSdr.Fec.Field

/-- `gf_add_mul(a, b, c, k)`: `a` starts at `off` of the object `mem`, and `src`
reads `b`, which may lie in the same object. `k` is an `int`. -/
def gfAddMul (src : List Gf → Nat → Exec Gf) (off : Nat) (c : Gf) (k : Int) (mem : List Gf) :
    Exec (List Gf) :=
  forUp (fun i mem => do
    let x ← load mem (off + i)
    let y ← src mem i
    store mem (off + i) (GF_ADD x (GF_MUL c y))) k.toNat mem

/-- The innermost loop of `matrix_mul`: `pa` walks along a row, `pb` down a column. -/
def mulEntry (a b : List Gf) (k m row col : Nat) : Exec Gf :=
  forUp (fun i acc => do
    let x ← load a (row * k + i)
    let y ← load b (col + i * m)
    .ok (GF_ADD acc (GF_MUL x y))) k 0

def mulRow (a b : List Gf) (k m row : Nat) (c : List Gf) : Exec (List Gf) :=
  forUp (fun col c => do
    let acc ← mulEntry a b k m row col
    store c (row * m + col) acc) m c

/-- `matrix_mul(a, b, c, n, k, m)`. -/
def matrixMul (a b c : List Gf) (n : Int) (k m : Nat) : Exec (List Gf) :=
  forUp (mulRow a b k m) n.toNat c

/-- `row * k + col` as an `int`. -/
def position (k row col : Nat) : Exec Nat :=
  if row * k + col < 2 ^ 31 then .ok (row * k + col) else .error .overflow

/-- `rows` rows of `k` cells, computed by `g` and stored from row `r` on. -/
def fillRows (g : Nat → Nat → Exec Gf) (k r rows : Nat) (a : List Gf) : Exec (List Gf) :=
  forUp (fun row a => forUp (fun col a => do
    let x ← g row col
    store a ((r + row) * k + col) x) k a) rows a

/-! ## Reading by row and column -/

def cell (a : List Gf) (k i j : Nat) : Gf := a.getD (i * k + j) 0

theorem index_inj {k i j i' j' : Nat} (hj : j < k) (hj' : j' < k)
    (h : i * k + j = i' * k + j') : i = i' ∧ j = j' := by
  have hk : 0 < k := by omega
  have hi : i = i' := by
    have hd := congrArg (· / k) h
    simpa [Nat.mul_comm _ k, Nat.mul_add_div hk, Nat.div_eq_of_lt hj, Nat.div_eq_of_lt hj'] using hd
  exact ⟨hi, by subst hi; omega⟩

theorem row_end_le {m k i : Nat} (hi : i < m) : i * k + k ≤ m * k := by
  have h := Nat.mul_le_mul_right k (Nat.succ_le_of_lt hi)
  rwa [Nat.succ_mul] at h

theorem row_disjoint {k i p j : Nat} (hip : p ≠ i) (hj : j < k) :
    p * k + j < i * k ∨ i * k + k ≤ p * k + j := by
  rcases Nat.lt_or_gt_of_ne hip with h | h
  · have := row_end_le (k := k) h
    omega
  · have := row_end_le (k := k) h
    omega

theorem index_lt {m k i j : Nat} (hi : i < m) (hj : j < k) : i * k + j < m * k := by
  have := row_end_le (k := k) hi
  omega

/-- In a matrix that an `int` can index no position overflows. -/
theorem position_of_le {k i j : Nat} (hk : k * k ≤ 2 ^ 31) (hi : i < k) (hj : j < k) :
    position k i j = .ok (i * k + j) :=
  if_pos ((index_lt hi hj).trans_le hk)

theorem position_eq_ok {k i j p : Nat} (h : position k i j = .ok p) :
    p = i * k + j ∧ i * k + j < 2 ^ 31 := by
  unfold position at h
  by_cases hlt : i * k + j < 2 ^ 31
  · rw [if_pos hlt] at h
    exact ⟨(Except.ok.inj h).symm, hlt⟩
  · rw [if_neg hlt] at h
    cases h

theorem cell_set {a : List Gf} {k r c i j : Nat} (v : Gf) (hr : r * k + c < a.length)
    (hc : c < k) (hj : j < k) :
    cell (a.set (r * k + c) v) k i j = if i = r ∧ j = c then v else cell a k i j := by
  unfold cell
  rw [getD_set hr]
  by_cases h : i = r ∧ j = c
  · rw [if_pos h, if_pos (by rw [h.1, h.2])]
  · rw [if_neg h, if_neg fun e => h ⟨(index_inj hc hj e).1.symm, (index_inj hc hj e).2.symm⟩]

theorem load_cell {a : List Gf} {k i j : Nat} (h : i * k + j < a.length) :
    load a (i * k + j) = .ok (cell a k i j) := load_of_lt 0 h

theorem cell_drop (a : List Gf) (k r i j : Nat) :
    cell (a.drop (r * k)) k i j = cell a k (r + i) j := by
  rw [cell, cell, List.getD_eq_getElem?_getD, List.getElem?_drop, ← List.getD_eq_getElem?_getD,
    ← Nat.add_assoc, ← Nat.add_mul]

theorem cell_append {a b : List Gf} {k r i j : Nat} (ha : a.length = r * k) (hj : j < k) :
    cell (a ++ b) k i j = if i < r then cell a k i j else cell b k (i - r) j := by
  unfold cell
  rw [List.getD_eq_getElem?_getD, List.getElem?_append, ha]
  by_cases hi : i < r
  · rw [if_pos hi, if_pos (index_lt hi hj), List.getD_eq_getElem?_getD]
  · have hle : r * k ≤ i * k := Nat.mul_le_mul_right k (Nat.le_of_not_lt hi)
    rw [if_neg hi, if_neg (by omega), List.getD_eq_getElem?_getD, Nat.sub_mul]
    congr 2
    omega

/-- A row copied into a matrix. -/
theorem cell_put {a ys : List Gf} {k r i j : Nat} (hys : ys.length = k)
    (hr : r * k + k ≤ a.length) (hj : j < k) :
    cell (put a (r * k) ys) k i j = if i = r then ys.getD j 0 else cell a k i j := by
  unfold cell
  rw [getD_put (by omega), hys]
  by_cases hi : i = r
  · rw [if_pos hi, if_pos (by subst hi; omega), hi, Nat.add_sub_cancel_left]
  · have hd := row_disjoint (i := r) (p := i) hi hj
    rw [if_neg hi, if_neg (by omega)]

theorem fillRows_ok {g : Nat → Nat → Exec Gf} {f : Nat → Nat → Gf} {k r n : Nat} {a : List Gf}
    (hg : ∀ i j, i < n → j < k → g i j = .ok (f i j)) (ha : (r + n) * k ≤ a.length) :
    ∃ a', fillRows g k r n a = .ok a' ∧ a'.length = a.length ∧ ∀ i j, j < k →
      cell a' k i j = if r ≤ i ∧ i < r + n then f (i - r) j else cell a k i j := by
  refine forUp_invariant (I := fun row (t : List Gf) => t.length = a.length ∧ ∀ i j, j < k →
      cell t k i j = if r ≤ i ∧ i < r + row then f (i - r) j else cell a k i j) n
    ⟨rfl, fun i j _ => (if_neg (by omega)).symm⟩ ?_
  rintro row t hrow ⟨hl, ht⟩
  have hinner : ∃ t', forUp (fun col a => do
        let x ← g row col
        store a ((r + row) * k + col) x) k t = .ok t' ∧ t'.length = a.length ∧ ∀ i j, j < k →
      cell t' k i j = if i = r + row ∧ j < k then f row j else cell t k i j := by
    refine forUp_invariant (I := fun col (t' : List Gf) => t'.length = a.length ∧ ∀ i j, j < k →
        cell t' k i j = if i = r + row ∧ j < col then f row j else cell t k i j) k
      ⟨hl, fun i j _ => (if_neg (by omega)).symm⟩ ?_
    rintro col t' hcol ⟨hl', ht'⟩
    have hlt : (r + row) * k + col < t'.length := by
      have := index_lt (m := r + n) (i := r + row) (by omega) hcol
      omega
    refine ⟨_, by rw [bind_of_ok (hg row col hrow hcol), store_of_lt _ hlt],
      by rw [List.length_set, hl'], fun i j hj => ?_⟩
    rw [cell_set _ hlt hcol hj, ht' i j hj]
    by_cases hnew : i = r + row ∧ j = col
    · rw [if_pos hnew, if_pos (by omega), hnew.2]
    · rw [if_neg hnew]
      by_cases hold : i = r + row ∧ j < col
      · rw [if_pos hold, if_pos (by omega)]
      · rw [if_neg hold, if_neg (by omega)]
  obtain ⟨t', ht', hl', hc'⟩ := hinner
  refine ⟨t', ht', hl', fun i j hj => ?_⟩
  rw [hc' i j hj, ht i j hj]
  by_cases hi : i = r + row
  · rw [if_pos ⟨hi, hj⟩, if_pos (by omega), hi, Nat.add_sub_cancel_left]
  · rw [if_neg fun h => hi h.1]
    by_cases hin : r ≤ i ∧ i < r + row
    · rw [if_pos hin, if_pos (by omega)]
    · rw [if_neg hin, if_neg (by omega)]

/-! ## Adding a multiple -/

/-- The loop leaves `a + c * b` in the first `k` places of `a`, when what it reads as
`b` does not change while it runs. -/
theorem gfAddMul_ok {s : List Gf → Nat → Exec Gf} {o k : Nat} {c : Gf} {a : List Gf}
    (y : Nat → Gf) (ho : o + k ≤ a.length)
    (hs : ∀ i t, i < k → t.length = a.length →
      (∀ m, (m < o ∨ o + i ≤ m) → t.getD m 0 = a.getD m 0) → s t i = .ok (y i)) :
    ∃ a', gfAddMul s o c k a = .ok a' ∧ a'.length = a.length ∧
      ∀ m, a'.getD m 0 =
        if o ≤ m ∧ m < o + k then a.getD m 0 + c * y (m - o) else a.getD m 0 := by
  refine forUp_invariant (I := fun i (t : List Gf) => t.length = a.length ∧ ∀ m, t.getD m 0 =
      if o ≤ m ∧ m < o + i then a.getD m 0 + c * y (m - o) else a.getD m 0)
    k ⟨rfl, fun m => by rw [if_neg (by omega)]⟩ ?_
  rintro i t hi ⟨hl, hc⟩
  have hlt : o + i < t.length := by omega
  have hsame : ∀ m, (m < o ∨ o + i ≤ m) → t.getD m 0 = a.getD m 0 := by
    intro m hm
    rw [hc m, if_neg (by omega)]
  refine ⟨t.set (o + i) (t.getD (o + i) 0 + c * y i), ?_, ?_, ?_⟩
  · rw [bind_of_ok (load_of_lt 0 hlt), bind_of_ok (hs i t hi hl hsame), store_of_lt _ hlt]
    rfl
  · rw [List.length_set, hl]
  · intro m
    rw [getD_set hlt]
    by_cases hm : o + i = m
    · rw [if_pos hm, if_pos (by omega), hsame _ (.inr le_rfl), ← hm, Nat.add_sub_cancel_left]
    · rw [if_neg hm, hc m]
      by_cases hin : o ≤ m ∧ m < o + i
      · rw [if_pos hin, if_pos (by omega)]
      · rw [if_neg hin, if_neg (by omega)]

/-- A loop that adds a multiple of one row after the other to the same destination, none
of them overlapping it. -/
theorem addRows_ok {b : Nat → List Gf → Exec (List Gf)} {s : Nat → List Gf → Nat → Exec Gf}
    {o w k : Nat} {a : List Gf} (c : Nat → Gf) (y : Nat → Nat → Gf) (ho : o + w ≤ a.length)
    (hb : ∀ i t, i < k → b i t = gfAddMul (s i) o (c i) w t)
    (hs : ∀ i t j, i < k → j < w → t.length = a.length →
      (∀ m, (m < o ∨ o + w ≤ m) → t.getD m 0 = a.getD m 0) → s i t j = .ok (y i j)) :
    ∃ a', forUp b k a = .ok a' ∧ a'.length = a.length ∧ ∀ m, a'.getD m 0 =
      if o ≤ m ∧ m < o + w then a.getD m 0 + ∑ i ∈ Finset.range k, c i * y i (m - o)
      else a.getD m 0 := by
  refine forUp_invariant (I := fun i (t : List Gf) => t.length = a.length ∧ ∀ m, t.getD m 0 =
      if o ≤ m ∧ m < o + w then a.getD m 0 + ∑ i ∈ Finset.range i, c i * y i (m - o)
      else a.getD m 0) k ⟨rfl, fun m => by simp⟩ ?_
  rintro i t hi ⟨hl, ht⟩
  have hout (m : Nat) (hm : m < o ∨ o + w ≤ m) : t.getD m 0 = a.getD m 0 := by
    rw [ht m, if_neg (by omega)]
  obtain ⟨t', ht', hl', hc⟩ := gfAddMul_ok (s := s i) (o := o) (c := c i) (y i)
    (hl ▸ ho) fun j u hj hu hsame => hs i u j hi hj (hu.trans hl) fun m hm =>
      (hsame m (by omega)).trans (hout m hm)
  refine ⟨t', (hb i t hi).trans ht', hl'.trans hl, fun m => ?_⟩
  rw [hc m, ht m]
  by_cases hin : o ≤ m ∧ m < o + w
  · rw [if_pos hin, if_pos hin, if_pos hin, Finset.sum_range_succ, add_assoc]
  · rw [if_neg hin, if_neg hin, if_neg hin]

/-! ## The product -/

theorem forUp_sum {k : Nat} {body : Nat → Gf → Exec Gf} (f : Nat → Gf)
    (hbody : ∀ i acc, i < k → body i acc = .ok (acc + f i)) :
    forUp body k 0 = .ok (∑ i ∈ Finset.range k, f i) :=
  forUp_eq (fun i => ∑ j ∈ Finset.range i, f j) k fun i hi => by
    rw [hbody i _ hi, Finset.sum_range_succ]

section Product

variable {a b c : List Gf} {n k m : Nat}

theorem mulEntry_ok (ha : n * k ≤ a.length) (hb : k * m ≤ b.length) {row col : Nat}
    (hrow : row < n) (hcol : col < m) :
    mulEntry a b k m row col = .ok (∑ t ∈ Finset.range k, cell a k row t * cell b m t col) := by
  refine forUp_sum _ fun i acc hi => ?_
  have h1 := index_lt hrow hi
  have h2 := index_lt hi hcol
  rw [bind_of_ok (load_cell (by omega)), Nat.add_comm col, bind_of_ok (load_cell (by omega))]
  simp

theorem mulRow_ok (ha : n * k ≤ a.length) (hb : k * m ≤ b.length) (hc : n * m ≤ c.length)
    {row : Nat} (hrow : row < n) :
    ∃ c', mulRow a b k m row c = .ok c' ∧ c'.length = c.length ∧
      ∀ i j, j < m → cell c' m i j =
        if i = row ∧ j < m then ∑ t ∈ Finset.range k, cell a k i t * cell b m t j
        else cell c m i j := by
  refine forUp_invariant (I := fun col (t : List Gf) => t.length = c.length ∧
      ∀ i j, j < m → cell t m i j =
        if i = row ∧ j < col then ∑ t ∈ Finset.range k, cell a k i t * cell b m t j
        else cell c m i j) m ⟨rfl, fun i j _ => by rw [if_neg (by omega)]⟩ ?_
  rintro col t hcol ⟨hl, ht⟩
  have hlt : row * m + col < t.length := by have := index_lt hrow hcol; omega
  refine ⟨_, by rw [bind_of_ok (mulEntry_ok ha hb hrow hcol), store_of_lt _ hlt],
    by rw [List.length_set, hl], fun i j hj => ?_⟩
  rw [cell_set _ hlt hcol hj, ht i j hj]
  by_cases hnew : i = row ∧ j = col
  · rw [if_pos hnew, if_pos (by omega), hnew.1, hnew.2]
  · rw [if_neg hnew]
    by_cases hold : i = row ∧ j < col
    · rw [if_pos hold, if_pos (by omega)]
    · rw [if_neg hold, if_neg (by omega)]

theorem matrixMul_ok (ha : n * k ≤ a.length) (hb : k * m ≤ b.length) (hc : n * m ≤ c.length) :
    ∃ c', matrixMul a b c n k m = .ok c' ∧ c'.length = c.length ∧ ∀ i j, j < m → cell c' m i j =
      if i < n then ∑ t ∈ Finset.range k, cell a k i t * cell b m t j else cell c m i j := by
  refine forUp_invariant (I := fun row (t : List Gf) => t.length = c.length ∧
      ∀ i j, j < m → cell t m i j =
        if i < row then ∑ t ∈ Finset.range k, cell a k i t * cell b m t j else cell c m i j)
    n ⟨rfl, fun i j _ => by rw [if_neg (by omega)]⟩ ?_
  rintro row t hrow ⟨hl, ht⟩
  obtain ⟨t', ht', hl', hc'⟩ := mulRow_ok ha hb (hl ▸ hc) hrow
  refine ⟨t', ht', hl'.trans hl, fun i j hj => ?_⟩
  rw [hc' i j hj, ht i j hj]
  by_cases hi : i = row
  · rw [if_pos ⟨hi, hj⟩, if_pos (by omega)]
  · rw [if_neg fun h => hi h.1]
    by_cases hlt : i < row
    · rw [if_pos hlt, if_pos (by omega)]
    · rw [if_neg hlt, if_neg (by omega)]

end Product

end RtpSdr.Fec.Matrix
