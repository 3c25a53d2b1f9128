import RtpSdr.Lib.GaussJordan
import RtpSdr.Fec.Matrix

/-!
# `matrix_inv` is Gauss-Jordan inversion

The source works in place on one flat array, with `ipiv`, `indxr`, `indxc` and
`id_row` as bookkeeping. Each of its loops is a definition of its own below. One
pass of the column loop is one exchange and one pivot step of
`RtpSdr.Lib.GaussJordan` on the matrix the array holds, so the function returns
one exactly on the nonsingular matrices, with the inverse in the array.
-/
namespace RtpSdr.Fec.MatrixInv

open Equiv
open RtpSdr.Lib.Checked
open RtpSdr.Lib.Memory
open RtpSdr.Lib.GaussJordan
open RtpSdr.Fec.Galois
open RtpSdr.Fec.Field
open RtpSdr.Fec.Matrix

/-- The arrays of `matrix_inv`. -/
structure InvState where
  a : List Gf
  idRow : List Gf
  ipiv : List Nat
  indxc : List Nat
  indxr : List Nat

/-- One row of the pivot search: `goto found_pivot` leaves with the position, the
`return 0` on a column counted twice with none. -/
def searchRow (a : List Gf) (ipiv : List Nat) (k row : Nat) :
    Exec (Step Unit (Option (Nat × Nat))) :=
  forLeave (fun i _ => do
    let p ← load ipiv i
    if p = 0 then do
      let pos ← position k row i
      let x ← load a pos
      if x ≠ 0 then .ok (.leave (some (row, i))) else .ok (.next ())
    else if p > 1 then .ok (.leave none) else .ok (.next ())) k ()

def searchMatrix (a : List Gf) (ipiv : List Nat) (k : Nat) : Exec (Option (Nat × Nat)) := do
  let r ← forLeave (fun row _ => do
    let p ← load ipiv row
    if p ≠ 1 then searchRow a ipiv k row else .ok (.next ())) k ()
  match r with
  | .next _ => .ok none
  | .leave found => .ok found

/-- The pivot of one pass: the diagonal element if it can be used, else the first that can. -/
def findPivot (a : List Gf) (ipiv : List Nat) (k col : Nat) : Exec (Option (Nat × Nat)) := do
  let p ← load ipiv col
  let diagonal ← if p ≠ 1 then do
      let pos ← position k col col
      let x ← load a pos
      .ok (decide (x ≠ 0))
    else .ok false
  if diagonal then .ok (some (col, col)) else searchMatrix a ipiv k

def swapRows (k irow icol : Nat) (a : List Gf) : Exec (List Gf) :=
  forUp (fun i a => do
    let p ← position k irow i
    let q ← position k icol i
    let tmp ← load a p
    let x ← load a q
    let a ← store a p x
    store a q tmp) k a

/-- Swap rows so the pivot is on the diagonal. -/
def pivotToDiagonal (k irow icol : Nat) (a : List Gf) : Exec (List Gf) :=
  if irow ≠ icol then swapRows k irow icol a else .ok a

/-- Divide the pivot row by the pivot; none is the `return 0` on a zero pivot. -/
def dividePivot (k pivotRow icol : Nat) (a : List Gf) : Exec (Option (List Gf)) := do
  let c ← load a (pivotRow + icol)
  if c = 0 then .ok none
  else if c ≠ 1 then do
    let a ← store a (pivotRow + icol) 1
    let a ← forUp (fun i a => do
      let x ← load a (pivotRow + i)
      store a (pivotRow + i) (GF_MUL (GF_INV c) x)) k a
    .ok (some a)
  else .ok (some a)

/-- One row of the reduction: zero its pivot column, then subtract the pivot row. -/
def reduceRow (k pivotRow icol i : Nat) (a : List Gf) : Exec (List Gf) :=
  if i ≠ icol then do
    let c ← load a (i * k + icol)
    let a ← store a (i * k + icol) 0
    gfAddMul (fun mem j => load mem (pivotRow + j)) (i * k) c k a
  else .ok a

/-- The reduction, skipped when the pivot row is the identity row. -/
def reduceRows (k pivotRow icol : Nat) (idRow a : List Gf) : Exec (List Gf) := do
  let pivot ← slice a pivotRow k
  let identity ← slice idRow 0 k
  if pivot ≠ identity then forUp (reduceRow k pivotRow icol) k a else .ok a

/-- One pass of the column loop; `return 0` leaves with the array as it is then. -/
def invColumn (k col : Nat) (s : InvState) : Exec (Step InvState (List Gf)) := do
  match ← findPivot s.a s.ipiv k col with
  | none => .ok (.leave s.a)
  | some (irow, icol) => do
    let p ← load s.ipiv icol
    let ipiv ← store s.ipiv icol (p + 1)
    let a ← pivotToDiagonal k irow icol s.a
    let indxr ← store s.indxr col irow
    let indxc ← store s.indxc col icol
    let pivotRow ← position k icol 0
    match ← dividePivot k pivotRow icol a with
    | none => .ok (.leave a)
    | some a => do
      let idRow ← store s.idRow icol 1
      let a ← reduceRows k pivotRow icol idRow a
      let idRow ← store idRow icol 0
      .ok (.next ⟨a, idRow, ipiv, indxc, indxr⟩)

def swapColumns (k r c : Nat) (a : List Gf) : Exec (List Gf) :=
  forUp (fun row a => do
    let p ← position k row r
    let q ← position k row c
    let tmp ← load a p
    let x ← load a q
    let a ← store a p x
    store a q tmp) k a

/-- `for (col = k - 1; col >= 0; col--)`: the exchanges undone, last first. -/
def descramble (k : Nat) (indxr indxc : List Nat) (a : List Gf) : Exec (List Gf) :=
  forUp (fun t a => do
    let r ← load indxr (k - 1 - t)
    let c ← load indxc (k - 1 - t)
    if r ≠ c then swapColumns k r c a else .ok a) k a

/-- The arrays before the first pass. -/
def initState (a : List Gf) (k : Nat) : InvState :=
  ⟨a, List.replicate k 0, List.replicate k 0, List.replicate k 0, List.replicate k 0⟩

/-- `matrix_inv(a, k)`: the result and the array afterwards. A position in the array is
an `int` wherever the source computes one; where it walks a pointer there is none. -/
def matrixInv (a : List Gf) (k : Nat) : Exec (Int × List Gf) := do
  match ← forLeave (invColumn k) k (initState a k) with
  | .leave a => .ok (0, a)
  | .next s => do
    let a ← descramble k s.indxr s.indxc s.a
    .ok (1, a)

/-! ## The array as a matrix -/

/-- The array holds the `k` by `k` matrix `m`. -/
structure Holds (k : Nat) (a : List Gf) (m : Matrix (Fin k) (Fin k) Gf) : Prop where
  length : a.length = k * k
  cell : ∀ i j : Fin k, cell a k i j = m i j

variable {k : Nat} {a : List Gf} {m : Matrix (Fin k) (Fin k) Gf}

theorem Holds.lt (h : Holds k a m) (i j : Fin k) : i * k + j < a.length :=
  h.length ▸ index_lt i.isLt j.isLt

theorem Holds.load (h : Holds k a m) (i j : Fin k) : load a (i * k + j) = .ok (m i j) := by
  rw [load_cell (h.lt i j), h.cell]

/-- A store updates one entry. -/
theorem Holds.set (h : Holds k a m) (i j : Fin k) (v : Gf) :
    Holds k (a.set (i * k + j) v) (fun x y => if x = i ∧ y = j then v else m x y) where
  length := by rw [List.length_set, h.length]
  cell x y := by
    rw [cell_set v (h.lt i j) j.isLt y.isLt, h.cell]
    simp only [Fin.val_inj]

theorem Holds.store (h : Holds k a m) (i j : Fin k) (v : Gf) :
    store a (i * k + j) v = .ok (a.set (i * k + j) v) := store_of_lt v (h.lt i j)

theorem Holds.congr (h : Holds k a m) {m' : Matrix (Fin k) (Fin k) Gf}
    (he : ∀ i j, m i j = m' i j) : Holds k a m' :=
  ⟨h.length, fun i j => (h.cell i j).trans (he i j)⟩

/-! ## The parts of a pass -/

theorem swapRows_ok (hfit : k * k ≤ 2 ^ 31) (h : Holds k a m) (r p : Fin k) :
    ∃ a', swapRows k r p a = .ok a' ∧ Holds k a' (m.submatrix (swap r p) id) := by
  have hloop : ∃ a', swapRows k r p a = .ok a' ∧
      Holds k a' (fun i j => if (j : Nat) < k then m (swap r p i) j else m i j) := by
    refine forUp_invariant (I := fun t b =>
      Holds k b (fun i j => if (j : Nat) < t then m (swap r p i) j else m i j)) k
      (h.congr fun i j => (if_neg (by omega)).symm) ?_
    intro t b ht hb
    have hr := hb.load r ⟨t, ht⟩
    have hp := hb.load p ⟨t, ht⟩
    simp only [lt_irrefl, if_false] at hr hp
    have hb' := hb.set r ⟨t, ht⟩ (m p ⟨t, ht⟩)
    refine ⟨_, ?_, (hb'.set p ⟨t, ht⟩ (m r ⟨t, ht⟩)).congr fun i j => ?_⟩
    · rw [bind_of_ok (position_of_le hfit r.isLt ht), bind_of_ok (position_of_le hfit p.isLt ht),
        bind_of_ok hr, bind_of_ok hp, bind_of_ok (hb.store r ⟨t, ht⟩ _)]
      exact hb'.store p ⟨t, ht⟩ _
    · by_cases hj : j = ⟨t, ht⟩
      · subst hj
        by_cases hip : i = p
        · simp [hip]
        · by_cases hir : i = r
          · subst hir
            simp [hip]
          · simp [hip, hir, swap_apply_of_ne_of_ne hir hip]
      · have hne : (j : Nat) ≠ t := fun e => hj (Fin.ext e)
        have : (j : Nat) < t ↔ (j : Nat) < t + 1 := by omega
        simp [hj, this]
  obtain ⟨a', ha', hh⟩ := hloop
  exact ⟨a', ha', hh.congr fun i j => by simp⟩

theorem pivotToDiagonal_ok (hfit : k * k ≤ 2 ^ 31) (h : Holds k a m) (r p : Fin k) :
    ∃ a', pivotToDiagonal k r p a = .ok a' ∧ Holds k a' (m.submatrix (swap r p) id) := by
  unfold pivotToDiagonal
  by_cases hrp : r = p
  · exact ⟨a, by simp [hrp], h.congr fun i j => by simp [hrp]⟩
  · obtain ⟨a', ha', hh⟩ := swapRows_ok hfit h r p
    exact ⟨a', by rw [if_pos fun e => hrp (Fin.ext e), ha'], hh⟩

theorem dividePivot_ok (h : Holds k a m) (p : Fin k) (h0 : m p p ≠ 0) :
    ∃ a', dividePivot k (p * k) p a = .ok (some a') ∧ Holds k a' (fun i j =>
      if i = p then (if j = p then (m p p)⁻¹ else (m p p)⁻¹ * m p j) else m i j) := by
  unfold dividePivot
  rw [bind_of_ok (h.load p p), if_neg h0]
  by_cases h1 : m p p = 1
  · rw [if_neg (not_not.mpr h1)]
    refine ⟨a, rfl, h.congr fun i j => ?_⟩
    by_cases hi : i = p
    · by_cases hj : j = p
      · simp [hi, hj, h1]
      · simp [hi, hj, h1]
    · simp [hi]
  · rw [if_pos h1, bind_of_ok (h.store p p 1)]
    have hone := h.set p p 1
    have hloop : ∃ a', forUp (fun i a => do
          let x ← load a (p * k + i)
          store a (p * k + i) (GF_MUL (GF_INV (m p p)) x)) k (a.set (p * k + p) 1) = .ok a' ∧
        Holds k a' (fun i j => if i = p ∧ (j : Nat) < k then
          (m p p)⁻¹ * (if j = p then 1 else m p j) else if i = p ∧ j = p then 1 else m i j) := by
      refine forUp_invariant (I := fun t b => Holds k b (fun i j => if i = p ∧ (j : Nat) < t then
        (m p p)⁻¹ * (if j = p then 1 else m p j) else if i = p ∧ j = p then 1 else m i j)) k
        (hone.congr fun i j => (if_neg (by omega)).symm) ?_
      intro t b ht hb
      have hx := hb.load p ⟨t, ht⟩
      simp only [lt_irrefl, and_false, if_false, true_and] at hx
      refine ⟨_, by rw [bind_of_ok hx]; exact hb.store p ⟨t, ht⟩ _,
        (hb.set p ⟨t, ht⟩ _).congr fun i j => ?_⟩
      by_cases hi : i = p
      · by_cases hj : j = ⟨t, ht⟩
        · subst hj
          simp [hi]
        · have hne : (j : Nat) ≠ t := fun e => hj (Fin.ext e)
          have : (j : Nat) < t ↔ (j : Nat) < t + 1 := by omega
          simp [hi, hj, this]
      · simp [hi]
    obtain ⟨a', ha', hh⟩ := hloop
    refine ⟨a', by rw [bind_of_ok ha'], hh.congr fun i j => ?_⟩
    by_cases hi : i = p
    · by_cases hj : j = p
      · simp [hi, hj]
      · simp [hi, hj]
    · simp [hi]

/-- Row `x` once the pivot row `p` has been subtracted from it. -/
def reduced (m : Matrix (Fin k) (Fin k) Gf) (p x y : Fin k) : Gf :=
  (if y = p then 0 else m x y) + m x p * m p y

theorem reduceRow_ok (h : Holds k a m) {i p : Fin k} (hip : i ≠ p) :
    ∃ a', reduceRow k (p * k) p i a = .ok a' ∧
      Holds k a' (fun x y => if x = i then reduced m p i y else m x y) := by
  have hz := h.set i p 0
  have hpi : p ≠ i := fun e => hip e.symm
  have hoff : i * k + k ≤ (a.set (i * k + p) 0).length := by
    rw [hz.length]
    exact row_end_le i.isLt
  obtain ⟨a', ha', hl, hc⟩ := gfAddMul_ok (o := i * k) (c := m i p)
    (s := fun mem j => load mem (p * k + j)) (fun j => cell a k p j) hoff (by
      intro j t hj hlen hsame
      have hlt := hz.lt p ⟨j, hj⟩
      have hd := row_disjoint (k := k) (i := i) (p := p) (fun e => hpi (Fin.ext e)) hj
      rw [load_of_lt 0 (by rw [hlen]; exact hlt), hsame _ (by omega)]
      refine congrArg _ ((hz.cell p ⟨j, hj⟩).trans ?_)
      simp only [hpi, false_and, if_false]
      exact (h.cell p ⟨j, hj⟩).symm)
  refine ⟨a', ?_, by rw [hl, hz.length], fun x y => ?_⟩
  · unfold reduceRow
    rw [if_pos (fun e => hip (Fin.ext e)), bind_of_ok (h.load i p), bind_of_ok (h.store i p 0), ha']
  · change a'.getD (x * k + y) 0 = _
    rw [hc]
    by_cases hx : x = i
    · subst hx
      rw [if_pos ⟨by omega, by omega⟩, Nat.add_sub_cancel_left]
      have hcell := hz.cell x y
      have hrow := h.cell p y
      simp only [cell] at hcell hrow ⊢
      rw [hcell, hrow]
      simp [reduced]
    · have hd := row_disjoint (k := k) (i := i) (p := x) (fun e => hx (Fin.ext e)) y.isLt
      rw [if_neg (by omega)]
      refine (hz.cell x y).trans ?_
      simp [hx]

theorem reduceLoop_ok (h : Holds k a m) (p : Fin k) :
    ∃ a', forUp (reduceRow k (p * k) p) k a = .ok a' ∧
      Holds k a' (fun x y => if x = p then m p y else reduced m p x y) := by
  have hloop : ∃ a', forUp (reduceRow k (p * k) p) k a = .ok a' ∧
      Holds k a' (fun x y => if x ≠ p ∧ (x : Nat) < k then reduced m p x y else m x y) := by
    refine forUp_invariant (I := fun t b =>
      Holds k b (fun x y => if x ≠ p ∧ (x : Nat) < t then reduced m p x y else m x y)) k
      (h.congr fun x y => (if_neg (by omega)).symm) ?_
    intro t b ht hb
    by_cases htp : (⟨t, ht⟩ : Fin k) = p
    · refine ⟨b, if_neg (by simp [← htp]), hb.congr fun x y => ?_⟩
      by_cases hx : x = p
      · simp [hx]
      · have hne : (x : Nat) ≠ t := fun e => hx (htp ▸ Fin.ext e)
        have : (x : Nat) < t ↔ (x : Nat) < t + 1 := by omega
        simp [hx, this]
    · obtain ⟨b', hb', hh⟩ := reduceRow_ok hb htp
      refine ⟨b', hb', hh.congr fun x y => ?_⟩
      by_cases hx : x = ⟨t, ht⟩
      · subst hx
        simp [reduced, htp]
      · have hne : (x : Nat) ≠ t := fun e => hx (Fin.ext e)
        have : (x : Nat) < t ↔ (x : Nat) < t + 1 := by omega
        simp [hx, this]
  obtain ⟨a', ha', hh⟩ := hloop
  refine ⟨a', ha', hh.congr fun x y => ?_⟩
  by_cases hx : x = p
  · simp [hx]
  · simp [hx]

/-- Skipping the reduction when the pivot row is the identity row changes nothing. -/
theorem reduceRows_ok (h : Holds k a m) (p : Fin k) :
    ∃ a', reduceRows k (p * k) p ((List.replicate k 0).set p 1) a = .ok a' ∧
      Holds k a' (fun x y => if x = p then m p y else reduced m p x y) := by
  have hrow : (p : Nat) * k + k ≤ a.length := by
    rw [h.length]
    exact row_end_le p.isLt
  unfold reduceRows
  rw [bind_of_ok (slice_of_le hrow), bind_of_ok (slice_of_le (by simp))]
  by_cases hid : (a.drop (p * k)).take k = (((List.replicate k 0).set p 1).drop 0).take k
  · rw [if_neg (not_not.mpr hid)]
    have hone (y : Fin k) : m p y = if y = p then 1 else 0 := by
      have := congrArg (fun l => l.getD (y : Nat) 0) hid
      simp only [List.getD_eq_getElem?_getD, List.getElem?_take, y.isLt, if_true,
        List.getElem?_drop, Nat.zero_add] at this
      rw [← h.cell p y, cell, List.getD_eq_getElem?_getD, this]
      have hset : ((List.replicate k (0 : Gf)).set p 1).getD y 0
          = if (p : Nat) = y then 1 else (List.replicate k 0).getD y 0 := getD_set (by simp)
      rw [List.getD_eq_getElem?_getD] at hset
      rw [hset]
      simp [List.getD_eq_getElem?_getD, Fin.val_inj, eq_comm]
    refine ⟨a, rfl, h.congr fun x y => ?_⟩
    by_cases hx : x = p
    · simp [hx]
    · by_cases hy : y = p
      · simp [hx, hy, reduced, hone p]
      · simp [hx, hy, reduced, hone y]
  · rw [if_pos hid]
    exact reduceLoop_ok h p

/-! ## The pivot search -/

/-- `ipiv` counts each column of `S` once and no other. -/
structure Counts (k : Nat) (ipiv : List Nat) (S : Finset (Fin k)) : Prop where
  length : ipiv.length = k
  count : ∀ j : Fin k, ipiv.getD j 0 = if j ∈ S then 1 else 0

variable {ipiv : List Nat} {S : Finset (Fin k)}

theorem Counts.load (h : Counts k ipiv S) (j : Fin k) :
    load ipiv j = .ok (if j ∈ S then 1 else 0) := by
  rw [load_of_lt 0 (h.length ▸ j.isLt), h.count]

theorem Counts.insert (h : Counts k ipiv S) {p : Fin k} (hp : p ∉ S) :
    Counts k (ipiv.set p 1) (insert p S) where
  length := by rw [List.length_set, h.length]
  count j := by
    rw [getD_set (h.length ▸ p.isLt), h.count]
    by_cases hj : j = p
    · simp [hj]
    · have : (p : Nat) ≠ j := fun e => hj (Fin.ext e.symm)
      simp [hj, this]

/-- An element that can be the pivot of the next pass. -/
def Usable (S : Finset (Fin k)) (m : Matrix (Fin k) (Fin k) Gf) (r p : Fin k) : Prop :=
  r ∉ S ∧ p ∉ S ∧ m r p ≠ 0

theorem searchRow_ok (hfit : k * k ≤ 2 ^ 31) (h : Holds k a m) (hc : Counts k ipiv S)
    {r : Fin k} (hr : r ∉ S) :
    (searchRow a ipiv k r = .ok (.next ()) ∧ ∀ p, ¬ Usable S m r p) ∨
      ∃ p : Fin k, searchRow a ipiv k r = .ok (.leave (some (↑r, ↑p))) ∧ Usable S m r p := by
  have hloop := forLeave_invariant (s := ()) (b := fun i _ => do
      let p ← load ipiv i
      if p = 0 then do
        let pos ← position k r i
        let x ← load a pos
        if x ≠ 0 then .ok (.leave (some ((r : Nat), i))) else .ok (.next ())
      else if p > 1 then .ok (.leave none) else .ok (.next ()))
    (I := fun t _ => ∀ p : Fin k, (p : Nat) < t → ¬ Usable S m r p)
    (Q := fun x => ∃ p : Fin k, x = some (↑r, ↑p) ∧ Usable S m r p) k
    (fun p hp => absurd hp (Nat.not_lt_zero _)) ?_
  · rcases hloop with ⟨_, hn, hI⟩ | ⟨x, hx, p, rfl, hu⟩
    · exact .inl ⟨hn, fun p => hI p p.isLt⟩
    · exact .inr ⟨p, hx, hu⟩
  intro t _ ht hI
  have hnext (hnot : ¬ Usable S m r ⟨t, ht⟩) (p : Fin k) (hp : (p : Nat) < t + 1) :
      ¬ Usable S m r p := by
    rcases Nat.lt_or_eq_of_le (Nat.le_of_lt_succ hp) with hlt | heq
    · exact hI p hlt
    · rwa [show p = ⟨t, ht⟩ from Fin.ext heq]
  simp only [bind_of_ok (hc.load ⟨t, ht⟩)]
  by_cases hS : (⟨t, ht⟩ : Fin k) ∈ S
  · refine .inl ⟨(), by simp [hS], hnext fun hu => hu.2.1 hS⟩
  · simp only [if_neg hS, if_true, bind_of_ok (position_of_le hfit r.isLt ht),
      bind_of_ok (h.load r ⟨t, ht⟩)]
    by_cases hx : m r ⟨t, ht⟩ = 0
    · refine .inl ⟨(), by simp [hx], hnext fun hu => hu.2.2 hx⟩
    · exact .inr ⟨_, if_pos hx, ⟨t, ht⟩, rfl, hr, hS, hx⟩

theorem searchMatrix_ok (hfit : k * k ≤ 2 ^ 31) (h : Holds k a m) (hc : Counts k ipiv S) :
    (searchMatrix a ipiv k = .ok none ∧ ∀ r p, ¬ Usable S m r p) ∨
      ∃ r p : Fin k, searchMatrix a ipiv k = .ok (some (↑r, ↑p)) ∧ Usable S m r p := by
  have hloop := forLeave_invariant (s := ()) (b := fun row _ => do
      let p ← load ipiv row
      if p ≠ 1 then searchRow a ipiv k row else .ok (.next ()))
    (I := fun t _ => ∀ r : Fin k, (r : Nat) < t → ∀ p, ¬ Usable S m r p)
    (Q := fun x => ∃ r p : Fin k, x = some (↑r, ↑p) ∧ Usable S m r p) k
    (fun r hr => absurd hr (Nat.not_lt_zero _)) ?_
  · rcases hloop with ⟨_, hn, hI⟩ | ⟨x, hx, r, p, rfl, hu⟩
    · exact .inl ⟨by rw [searchMatrix, bind_of_ok hn], fun r => hI r r.isLt⟩
    · exact .inr ⟨r, p, by rw [searchMatrix, bind_of_ok hx], hu⟩
  intro t _ ht hI
  have hnext (hnot : ∀ p, ¬ Usable S m ⟨t, ht⟩ p) (r : Fin k) (hr : (r : Nat) < t + 1) :
      ∀ p, ¬ Usable S m r p := by
    rcases Nat.lt_or_eq_of_le (Nat.le_of_lt_succ hr) with hlt | heq
    · exact hI r hlt
    · rwa [show r = ⟨t, ht⟩ from Fin.ext heq]
  simp only [bind_of_ok (hc.load ⟨t, ht⟩)]
  by_cases hS : (⟨t, ht⟩ : Fin k) ∈ S
  · exact .inl ⟨(), by simp [hS], hnext fun p hu => hu.1 hS⟩
  · simp only [if_neg hS, ne_eq, zero_ne_one, not_false_eq_true, if_true]
    rcases searchRow_ok hfit h hc hS with ⟨hn, hnot⟩ | ⟨p, hx, hu⟩
    · exact .inl ⟨(), hn, hnext hnot⟩
    · exact .inr ⟨_, hx, ⟨t, ht⟩, p, rfl, hu⟩

theorem findPivot_ok (hfit : k * k ≤ 2 ^ 31) (h : Holds k a m) (hc : Counts k ipiv S)
    (col : Fin k) :
    (findPivot a ipiv k col = .ok none ∧ ∀ r p, ¬ Usable S m r p) ∨
      ∃ r p : Fin k, findPivot a ipiv k col = .ok (some (↑r, ↑p)) ∧ Usable S m r p := by
  unfold findPivot
  rw [bind_of_ok (hc.load col)]
  by_cases hS : col ∈ S
  · simp only [if_pos hS, ne_eq, not_true_eq_false, if_false, ok_bind, Bool.false_eq_true]
    exact searchMatrix_ok hfit h hc
  · simp only [if_neg hS, ne_eq, zero_ne_one, not_false_eq_true, if_true, ok_bind,
      bind_of_ok (position_of_le hfit col.isLt col.isLt), bind_of_ok (h.load col col)]
    by_cases hx : m col col = 0
    · simp only [hx, not_true_eq_false, decide_false, Bool.false_eq_true, if_false]
      exact searchMatrix_ok hfit h hc
    · exact .inr ⟨col, col, by simp [hx], hS, hS, hx⟩

/-! ## The run -/

/-- The state before pass `col`: the columns of `S` have had their pivot, after the
exchanges `σ`, which `indxr` and `indxc` record. -/
structure Running (A : Matrix (Fin k) (Fin k) Gf) (col : Nat) (S : Finset (Fin k))
    (σ : Nat → Perm (Fin k)) (m : Matrix (Fin k) (Fin k) Gf) (s : InvState) : Prop where
  holds : Holds k s.a m
  reduced : Reduced S (A.submatrix (scramble σ col) id) m
  card : S.card = col
  counts : Counts k s.ipiv S
  idRow : s.idRow = List.replicate k 0
  indxr : s.indxr.length = k
  indxc : s.indxc.length = k
  swaps : ∀ t, t < col → ∃ r p : Fin k,
    s.indxr.getD t 0 = r ∧ s.indxc.getD t 0 = p ∧ σ t = swap r p

variable {A : Matrix (Fin k) (Fin k) Gf} {col : Nat} {σ : Nat → Perm (Fin k)} {s : InvState}

/-- Dividing the pivot row and reducing the others is a pivot step. -/
theorem reduced_eq_pivot (m : Matrix (Fin k) (Fin k) Gf) (p x y : Fin k) :
    (let d : Matrix (Fin k) (Fin k) Gf := fun i j =>
      if i = p then (if j = p then (m p p)⁻¹ else (m p p)⁻¹ * m p j) else m i j
     if x = p then d p y else reduced d p x y) = pivot p m x y := by
  by_cases hx : x = p
  · simp [hx, pivot]
  · by_cases hy : y = p
    · simp [hx, hy, pivot, reduced, CharTwo.neg_eq]
    · simp [hx, hy, pivot, reduced, CharTwo.sub_eq_add]

/-- No pivot left: some row has none, and nothing outside the pivoted columns. -/
theorem Running.det_eq_zero (h : Running A col S σ m s) (hcol : col < k)
    (hnone : ∀ r p, ¬ Usable S m r p) : A.det = 0 := by
  have hS : S ≠ Finset.univ := by
    intro e
    have := h.card
    rw [e, Finset.card_univ, Fintype.card_fin] at this
    omega
  obtain ⟨i, hi⟩ := not_forall.mp fun hall => hS (Finset.eq_univ_iff_forall.mpr hall)
  have hdet := det_eq_zero_of_reduced hi
    (fun j hj => not_not.mp fun hx => hnone i j ⟨hi, hj, hx⟩) h.reduced
  rw [Matrix.det_permute] at hdet
  rcases Int.units_eq_one_or (Perm.sign (scramble σ col)) with e | e
  · simpa [e] using hdet
  · simpa [e] using hdet

theorem invColumn_ok (hfit : k * k ≤ 2 ^ 31) (h : Running A col S σ m s) (hcol : col < k) :
    (∃ s', invColumn k col s = .ok (.next s') ∧ ∃ S' σ' m', Running A (col + 1) S' σ' m' s') ∨
      ∃ a', invColumn k col s = .ok (.leave a') ∧ A.det = 0 := by
  rcases findPivot_ok hfit h.holds h.counts ⟨col, hcol⟩ with ⟨hn, hnone⟩ | ⟨r, p, hp, hr, hpS, h0⟩
  · exact .inr ⟨s.a, by rw [invColumn, bind_of_ok hn], h.det_eq_zero hcol hnone⟩
  left
  have hpiv : m.submatrix (swap r p) id p p ≠ 0 := by simpa using h0
  obtain ⟨a₁, ha₁, hh₁⟩ := pivotToDiagonal_ok hfit h.holds r p
  obtain ⟨a₂, ha₂, hh₂⟩ := dividePivot_ok hh₁ p hpiv
  obtain ⟨a₃, ha₃, hh₃⟩ := reduceRows_ok hh₂ p
  have hi : (p : Nat) < s.idRow.length := by rw [h.idRow, List.length_replicate]; exact p.isLt
  refine ⟨⟨a₃, (s.idRow.set p 1).set p 0, s.ipiv.set p 1, s.indxc.set col p, s.indxr.set col r⟩,
    ?_, insert p S, Function.update σ col (swap r p), _,
    { holds := hh₃.congr (reduced_eq_pivot _ p)
      reduced := ?_
      card := by rw [Finset.card_insert_of_notMem hpS, h.card]
      counts := h.counts.insert hpS
      idRow := ?_
      indxr := by rw [List.length_set, h.indxr]
      indxc := by rw [List.length_set, h.indxc]
      swaps := ?_ }⟩
  · have hload := h.counts.load p
    rw [if_neg hpS] at hload
    rw [invColumn, bind_of_ok hp]
    simp only [bind_of_ok hload, bind_of_ok ha₁]
    rw [bind_of_ok (store_of_lt _ (h.counts.length ▸ p.isLt)),
      bind_of_ok (store_of_lt _ (h.indxr ▸ hcol)), bind_of_ok (store_of_lt _ (h.indxc ▸ hcol)),
      bind_of_ok (position_of_le hfit p.isLt p.pos), Nat.add_zero]
    simp only [bind_of_ok ha₂]
    rw [bind_of_ok (store_of_lt _ hi)]
    rw [h.idRow] at hi ⊢
    rw [bind_of_ok ha₃, bind_of_ok (store_of_lt _ (by rwa [List.length_set]))]
  · have hscr : scramble (Function.update σ col (swap r p)) (col + 1)
        = scramble σ col * swap r p := by
      rw [scramble, Function.update_self]
      congr 1
      exact scramble_congr col fun t ht => Function.update_of_ne (by omega) _ _
    have hsub : A.submatrix (scramble σ col * swap r p) id
        = (A.submatrix (scramble σ col) id).submatrix (swap r p) id := rfl
    have hperm := reduced_permute (swap_fixes hr hpS) h.reduced
    rw [hscr, hsub]
    exact reduced_pivot hpS hpiv hperm
  · change (s.idRow.set p 1).set p 0 = _
    rw [h.idRow, List.set_set, List.set_replicate_self]
  · intro t ht
    rw [getD_set (h.indxr ▸ hcol), getD_set (h.indxc ▸ hcol)]
    by_cases htc : col = t
    · rw [if_pos htc, if_pos htc, ← htc, Function.update_self]
      exact ⟨r, p, rfl, rfl, rfl⟩
    · rw [if_neg htc, if_neg htc, Function.update_of_ne (fun e => htc e.symm)]
      exact h.swaps t (by omega)

/-! ## Descrambling -/

theorem swapColumns_ok (hfit : k * k ≤ 2 ^ 31) (h : Holds k a m) (r p : Fin k) :
    ∃ a', swapColumns k r p a = .ok a' ∧ Holds k a' (m.submatrix id (swap r p)) := by
  have hloop : ∃ a', swapColumns k r p a = .ok a' ∧
      Holds k a' (fun i j => if (i : Nat) < k then m i (swap r p j) else m i j) := by
    refine forUp_invariant (I := fun t b =>
      Holds k b (fun i j => if (i : Nat) < t then m i (swap r p j) else m i j)) k
      (h.congr fun i j => (if_neg (by omega)).symm) ?_
    intro t b ht hb
    have hr := hb.load ⟨t, ht⟩ r
    have hp := hb.load ⟨t, ht⟩ p
    simp only [lt_irrefl, if_false] at hr hp
    have hb' := hb.set ⟨t, ht⟩ r (m ⟨t, ht⟩ p)
    refine ⟨_, ?_, (hb'.set ⟨t, ht⟩ p (m ⟨t, ht⟩ r)).congr fun i j => ?_⟩
    · rw [bind_of_ok (position_of_le hfit ht r.isLt), bind_of_ok (position_of_le hfit ht p.isLt),
        bind_of_ok hr, bind_of_ok hp, bind_of_ok (hb.store ⟨t, ht⟩ r _)]
      exact hb'.store ⟨t, ht⟩ p _
    · by_cases hi : i = ⟨t, ht⟩
      · subst hi
        by_cases hjp : j = p
        · simp [hjp]
        · by_cases hjr : j = r
          · subst hjr
            simp [hjp]
          · simp [hjp, hjr, swap_apply_of_ne_of_ne hjr hjp]
      · have hne : (i : Nat) ≠ t := fun e => hi (Fin.ext e)
        have : (i : Nat) < t ↔ (i : Nat) < t + 1 := by omega
        simp [hi, this]
  obtain ⟨a', ha', hh⟩ := hloop
  exact ⟨a', ha', hh.congr fun i j => by simp⟩

theorem descramble_ok (hfit : k * k ≤ 2 ^ 31) (h : Running A k S σ m s) :
    ∃ a', descramble k s.indxr s.indxc s.a = .ok a' ∧
      Holds k a' (m.submatrix id (scramble σ k).symm) := by
  have hloop : ∃ a', descramble k s.indxr s.indxc s.a = .ok a' ∧ ∃ b, Holds k a' b ∧
      b.submatrix id (scramble σ (k - k)).symm = m.submatrix id (scramble σ k).symm := by
    refine forUp_invariant (I := fun t a' => ∃ b, Holds k a' b ∧
      b.submatrix id (scramble σ (k - t)).symm = m.submatrix id (scramble σ k).symm) k
      ⟨m, h.holds, rfl⟩ ?_
    rintro t c ht ⟨b, hb, heq⟩
    obtain ⟨r, p, hr, hp, hσ⟩ := h.swaps (k - 1 - t) (by omega)
    have hrl : load s.indxr (k - 1 - t) = .ok (r : Nat) := by
      rw [load_of_lt 0 (by rw [h.indxr]; omega), hr]
    have hpl : load s.indxc (k - 1 - t) = .ok (p : Nat) := by
      rw [load_of_lt 0 (by rw [h.indxc]; omega), hp]
    rw [show k - t = k - 1 - t + 1 from by omega, submatrix_scramble, hσ, symm_swap] at heq
    rw [show k - (t + 1) = k - 1 - t from by omega]
    simp only [bind_of_ok hrl, bind_of_ok hpl]
    by_cases hrp : r = p
    · refine ⟨c, by simp [hrp], b, hb, ?_⟩
      simpa [hrp] using heq
    · obtain ⟨c', hc', hh⟩ := swapColumns_ok hfit hb r p
      exact ⟨c', by rw [if_pos fun e => hrp (Fin.ext e), hc'], _, hh, heq⟩
  obtain ⟨a', ha', b, hb, heq⟩ := hloop
  rw [Nat.sub_self] at heq
  exact ⟨a', ha', heq ▸ hb⟩

/-! ## The function -/

/-- The column loop after `col` passes. -/
theorem passes_ok (hfit : k * k ≤ 2 ^ 31) (h : Holds k a A) (hcol : col ≤ k) :
    (∃ s, forLeave (invColumn k) col (initState a k) = .ok (.next s) ∧
        ∃ S σ m, Running A col S σ m s) ∨
      ∃ a', forLeave (invColumn k) col (initState a k) = .ok (.leave a') ∧ A.det = 0 := by
  refine forLeave_invariant (I := fun col s => ∃ S σ m, Running A col S σ m s)
    (Q := fun _ => A.det = 0) col
    ⟨∅, fun _ => 1, A,
      { holds := h
        reduced := reduced_empty A
        card := rfl
        counts := ⟨List.length_replicate, fun j => by simp [initState]⟩
        idRow := rfl
        indxr := List.length_replicate
        indxc := List.length_replicate
        swaps := fun t ht => absurd ht (Nat.not_lt_zero t) }⟩ ?_
  rintro i s hi ⟨S, σ, m, hs⟩
  exact invColumn_ok hfit hs (hi.trans_le hcol)

/-- `matrix_inv` returns one with the inverse in the array, or zero on a singular matrix. -/
theorem matrixInv_ok (hfit : k * k ≤ 2 ^ 31) (h : Holds k a A) :
    (∃ a' m, matrixInv a k = .ok (1, a') ∧ Holds k a' m ∧ m * A = 1) ∨
      ∃ a', matrixInv a k = .ok (0, a') ∧ A.det = 0 := by
  unfold matrixInv
  rcases passes_ok hfit h (Nat.le_refl k) with ⟨s, hs, S, σ, m, hI⟩ | ⟨a', ha', hdet⟩
  · left
    obtain ⟨a', ha', hh⟩ := descramble_ok hfit hI
    have hS : S = Finset.univ := by
      rw [← Finset.card_eq_iff_eq_univ, hI.card, Fintype.card_fin]
    refine ⟨a', _, ?_, hh, mul_eq_one_of_permuted (mul_eq_one_of_reduced (hS ▸ hI.reduced))⟩
    simp only [bind_of_ok hs, bind_of_ok ha']
  · exact .inr ⟨a', by simp only [bind_of_ok ha'], hdet⟩

end RtpSdr.Fec.MatrixInv
