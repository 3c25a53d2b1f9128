import RtpSdr.Lib.Vandermonde
import RtpSdr.Fec.Matrix

/-!
# `matrix_inv_vandermonde` by synthetic division

The function reads the nodes off the second column, builds the coefficients of
their master polynomial in `c`, and divides by one linear factor per column with
the quotient in `b` and its value in `t`. The recurrences are those of
`RtpSdr.Lib.Vandermonde`, so the array ends up with the Lagrange coefficients.
-/
namespace RtpSdr.Fec.VandermondeInv

open Polynomial
open RtpSdr.Lib.Checked
open RtpSdr.Lib.Memory
open RtpSdr.Lib.Vandermonde
open RtpSdr.Fec.Galois
open RtpSdr.Fec.Field
open RtpSdr.Fec.Matrix

/-- `c` cleared and the nodes read into `p`. -/
def readNodes (a : List Gf) (k : Nat) (c p : List Gf) : Exec (List Gf × List Gf) :=
  forUp (fun i s => do
    let c ← store s.1 i 0
    let x ← load a (1 + i * k)
    let p ← store s.2 i x
    .ok (c, p)) k (c, p)

/-- The factor of node `i + 1` multiplied into `c`. -/
def addFactor (p : List Gf) (k i : Nat) (c : List Gf) : Exec (List Gf) := do
  let x ← load p (i + 1)
  let c ← forUp (fun t c => do
    let y ← load c (k - 1 - (i + 1) + t)
    let z ← load c (k - 1 - (i + 1) + t + 1)
    store c (k - 1 - (i + 1) + t) (GF_ADD y (GF_MUL x z))) (i + 1) c
  let y ← load c (k - 1)
  store c (k - 1) (GF_ADD y x)

def buildMaster (p : List Gf) (k : Nat) (c : List Gf) : Exec (List Gf) := do
  let x ← load p 0
  let c ← store c (k - 1) x
  forUp (addFactor p k) (k - 1) c

/-- The synthetic division: the quotient in `b`, its value at `x` in `t`. -/
def divide (c : List Gf) (k : Nat) (x : Gf) (b : List Gf) : Exec (List Gf × Gf) := do
  let b ← store b (k - 1) 1
  forUp (fun j s => do
    let y ← load c (k - 2 - j + 1)
    let z ← load s.1 (k - 2 - j + 1)
    let b ← store s.1 (k - 2 - j) (GF_ADD y (GF_MUL x z))
    .ok (b, GF_ADD (GF_MUL x s.2) (GF_ADD y (GF_MUL x z)))) (k - 1) (b, 1)

/-- One pass of the row loop: column `row` of the result. -/
def invRow (p c : List Gf) (k row : Nat) (s : List Gf × List Gf) :
    Exec (List Gf × List Gf) := do
  let x ← load p row
  let (b, t) ← divide c k x s.2
  let a ← forUp (fun col a => do
    let y ← load b col
    store a (col * k + row) (GF_MUL (GF_INV t) y)) k s.1
  .ok (a, b)

/-- `matrix_inv_vandermonde(a, k)`: the result and the array afterwards. -/
def matrixInvVandermonde (a : List Gf) (k : Nat) : Exec (Int × List Gf) :=
  if k = 1 then .ok (0, a)
  else do
    let zero := List.replicate k 0
    let (c, p) ← readNodes a k zero zero
    let c ← buildMaster p k c
    let s ← forUp (invRow p c k) k (a, zero)
    .ok (1, s.1)

/-! ## The nodes and their master polynomial -/

variable {k : Nat} {a b c p : List Gf} {x : Nat → Gf}

/-- A list holds the first `k` values of a function. -/
structure Lists (k : Nat) (xs : List Gf) (f : Nat → Gf) : Prop where
  length : xs.length = k
  get : ∀ i, i < k → xs.getD i 0 = f i

theorem Lists.load {f : Nat → Gf} (h : Lists k c f) {i : Nat} (hi : i < k) :
    load c i = .ok (f i) := by
  rw [load_of_lt 0 (h.length ▸ hi), h.get i hi]

theorem Lists.store {f : Nat → Gf} (h : Lists k c f) {i : Nat} (hi : i < k) (v : Gf) :
    store c i v = .ok (c.set i v) := store_of_lt v (h.length ▸ hi)

theorem Lists.set {f g : Nat → Gf} (h : Lists k c f) {i : Nat} {v : Gf} (hi : i < k)
    (hg : ∀ j, j < k → (if i = j then v else f j) = g j) : Lists k (c.set i v) g where
  length := by rw [List.length_set, h.length]
  get j hj := by rw [getD_set (h.length ▸ hi), h.get j hj, hg j hj]

theorem readNodes_ok (ha : ∀ i, i < k → load a (1 + i * k) = .ok (x i)) :
    ∃ c p, readNodes a k (List.replicate k 0) (List.replicate k 0) = .ok (c, p) ∧
      Lists k c (fun _ => 0) ∧ Lists k p x := by
  have hloop : ∃ s, readNodes a k (List.replicate k 0) (List.replicate k 0) = .ok s ∧
      Lists k s.1 (fun _ => 0) ∧ Lists k s.2 (fun i => if i < k then x i else 0) := by
    have hz : Lists k (List.replicate k (0 : Gf)) (fun _ => 0) :=
      ⟨List.length_replicate, fun i hi => by simp [hi]⟩
    refine forUp_invariant (I := fun i (s : List Gf × List Gf) =>
      Lists k s.1 (fun _ => 0) ∧ Lists k s.2 (fun j => if j < i then x j else 0)) k
      ⟨hz, hz.length, fun i hi => (hz.get i hi).trans (if_neg (Nat.not_lt_zero i)).symm⟩ ?_
    rintro i ⟨c, p⟩ hi ⟨hc, hp⟩
    refine ⟨(c.set i 0, p.set i (x i)), ?_, hc.set hi fun j _ => ite_self 0,
      hp.set hi fun j _ => ?_⟩
    · rw [bind_of_ok (hc.store hi 0), bind_of_ok (ha i hi), bind_of_ok (hp.store hi _)]
    · by_cases hj : i = j
      · rw [if_pos hj, if_pos (by omega), hj]
      · rw [if_neg hj]
        by_cases hlt : j < i
        · rw [if_pos hlt, if_pos (by omega)]
        · rw [if_neg hlt, if_neg (by omega)]
  obtain ⟨⟨c, p⟩, hs, hc, hp⟩ := hloop
  exact ⟨c, p, hs, hc, hp.length, fun i hi => (hp.get i hi).trans (if_pos hi)⟩

/-- What `c` holds after `m` factors: the leading coefficients end at index `k`. -/
noncomputable def partialMaster (x : Nat → Gf) (k m j : Nat) : Gf :=
  (X ^ (k - m) * master x m).coeff j

theorem partialMaster_succ {m : Nat} (hm : m < k) (j : Nat) :
    partialMaster x k (m + 1) j = partialMaster x k m j + x m * partialMaster x k m (j + 1) := by
  rw [partialMaster, coeff_master_succ x hm j, CharTwo.sub_eq_add]
  rfl

theorem partialMaster_top {m : Nat} (hm : m ≤ k) : partialMaster x k m k = 1 :=
  coeff_master_top x m hm

theorem partialMaster_low {m j : Nat} (hj : j < k - m) : partialMaster x k m j = 0 :=
  coeff_master_low x hj

theorem addFactor_ok (hp : Lists k p x) {i : Nat} (hi : i + 1 < k)
    (hc : Lists k c (partialMaster x k (i + 1))) :
    ∃ c', addFactor p k i c = .ok c' ∧ Lists k c' (partialMaster x k (i + 2)) := by
  have hloop : ∃ c', forUp (fun t c => do
        let y ← load c (k - 1 - (i + 1) + t)
        let z ← load c (k - 1 - (i + 1) + t + 1)
        store c (k - 1 - (i + 1) + t) (GF_ADD y (GF_MUL (x (i + 1)) z))) (i + 1) c = .ok c' ∧
      Lists k c' (fun j => if k - 1 - (i + 1) ≤ j ∧ j < k - 1 - (i + 1) + (i + 1)
        then partialMaster x k (i + 2) j else partialMaster x k (i + 1) j) := by
    refine forUp_invariant (I := fun t c' => Lists k c' (fun j =>
      if k - 1 - (i + 1) ≤ j ∧ j < k - 1 - (i + 1) + t
        then partialMaster x k (i + 2) j else partialMaster x k (i + 1) j)) (i + 1)
      ⟨hc.length, fun j hj => (hc.get j hj).trans (if_neg (by omega)).symm⟩ ?_
    intro t c' ht hc'
    have hy := hc'.load (i := k - 1 - (i + 1) + t) (by omega)
    have hz := hc'.load (i := k - 1 - (i + 1) + t + 1) (by omega)
    rw [if_neg (by omega)] at hy hz
    refine ⟨_, by rw [bind_of_ok hy, bind_of_ok hz, hc'.store (by omega)],
      hc'.set (by omega) fun j _ => ?_⟩
    rw [GF_ADD_eq_add, GF_MUL_eq_mul, ← partialMaster_succ hi]
    by_cases hj : k - 1 - (i + 1) + t = j
    · rw [if_pos hj, if_pos (by omega), hj]
    · rw [if_neg hj]
      by_cases hin : k - 1 - (i + 1) ≤ j ∧ j < k - 1 - (i + 1) + t
      · rw [if_pos hin, if_pos (by omega)]
      · rw [if_neg hin, if_neg (by omega)]
  obtain ⟨c', hc', hl⟩ := hloop
  have hy := hl.load (i := k - 1) (by omega)
  rw [if_neg (by omega)] at hy
  have hlast :
      partialMaster x k (i + 1) (k - 1) + x (i + 1) = partialMaster x k (i + 2) (k - 1) := by
    rw [partialMaster_succ hi, show k - 1 + 1 = k from by omega, partialMaster_top (by omega),
      mul_one]
  refine ⟨c'.set (k - 1) (partialMaster x k (i + 2) (k - 1)), ?_, hl.set (by omega) fun j hj => ?_⟩
  · unfold addFactor
    rw [bind_of_ok (hp.load hi), bind_of_ok hc', bind_of_ok hy, hl.store (by omega), ← hlast]
    rfl
  · by_cases hkj : k - 1 = j
    · rw [if_pos hkj, hkj]
    · rw [if_neg hkj]
      by_cases hlow : k - 1 - (i + 1) ≤ j
      · rw [if_pos ⟨hlow, by omega⟩]
      · rw [if_neg fun h => hlow h.1, partialMaster_low (by omega), partialMaster_low (by omega)]

theorem buildMaster_ok (hk : 0 < k) (hp : Lists k p x) (hc : Lists k c (fun _ => 0)) :
    ∃ c', buildMaster p k c = .ok c' ∧ Lists k c' (fun j => (master x k).coeff j) := by
  have hstart : Lists k (c.set (k - 1) (x 0)) (partialMaster x k 1) := by
    have hx : x 0 = partialMaster x k 1 (k - 1) := by
      rw [partialMaster_succ hk, show k - 1 + 1 = k from by omega, partialMaster_top (by omega),
        partialMaster_low (by omega), mul_one, zero_add]
    refine hc.set (by omega) fun j hj => ?_
    by_cases hkj : k - 1 = j
    · rw [if_pos hkj, hx, hkj]
    · rw [if_neg hkj, partialMaster_low (by omega)]
  have hloop : ∃ c', forUp (addFactor p k) (k - 1) (c.set (k - 1) (x 0)) = .ok c' ∧
      Lists k c' (partialMaster x k (k - 1 + 1)) :=
    forUp_invariant (I := fun i c' => Lists k c' (partialMaster x k (i + 1))) (k - 1) hstart
      fun i t hi ht => addFactor_ok hp (by omega) ht
  obtain ⟨c', hc', hl⟩ := hloop
  refine ⟨c', by rw [buildMaster, bind_of_ok (hp.load hk), bind_of_ok (hc.store (by omega) _), hc'],
    hl.length, fun j hj => ?_⟩
  rw [hl.get j hj, partialMaster, show k - 1 + 1 = k from by omega, Nat.sub_self, pow_zero, one_mul]

/-! ## One column of the inverse -/

theorem divide_ok (hc : Lists k c fun j => (master x k).coeff j) (hb : b.length = k) {r : Nat}
    (hr : r < k) :
    ∃ b' t, divide c k (x r) b = .ok (b', t) ∧ Lists k b' (fun j => (quotient x k r).coeff j) ∧
      t = (quotient x k r).eval (x r) := by
  have htop : (tail (quotient x k r) (k - 1)).eval (x r) = 1 := by
    have := eval_tail_top (quotient x k r) (x r) (monic_quotient x k r)
    rwa [natDegree_quotient x hr] at this
  have hstart : load (b.set (k - 1) 1) (k - 1) = .ok ((quotient x k r).coeff (k - 1)) := by
    rw [load_of_lt 0 (by rw [List.length_set]; omega), getD_set (by omega), if_pos rfl,
      coeff_quotient_top x hr]
  have hloop : ∃ s, divide c k (x r) b = .ok s ∧ s.1.length = k ∧
      (∀ i, k - 1 - (k - 1) ≤ i → i < k → load s.1 i = .ok ((quotient x k r).coeff i)) ∧
        s.2 = (tail (quotient x k r) (k - 1 - (k - 1))).eval (x r) := by
    rw [divide, bind_of_ok (store_of_lt 1 (by omega))]
    refine forUp_invariant (I := fun j (s : List Gf × Gf) => s.1.length = k ∧
      (∀ i, k - 1 - j ≤ i → i < k → load s.1 i = .ok ((quotient x k r).coeff i)) ∧
        s.2 = (tail (quotient x k r) (k - 1 - j)).eval (x r)) (k - 1)
      ⟨by rw [List.length_set, hb], fun i hi hik => ?_, htop.symm⟩ ?_
    · rwa [show i = k - 1 from by omega]
    · rintro j ⟨b', t⟩ hj ⟨hl, hload, ht⟩
      simp only at hl hload ht
      have hq : (master x k).coeff (k - 2 - j + 1) + x r * (quotient x k r).coeff (k - 2 - j + 1)
          = (quotient x k r).coeff (k - 2 - j) := (coeff_quotient x hr _).symm
      have hlt : k - 2 - j < b'.length := by omega
      refine ⟨(b'.set (k - 2 - j) ((quotient x k r).coeff (k - 2 - j)),
        x r * t + (quotient x k r).coeff (k - 2 - j)), ?_, by rw [List.length_set, hl], ?_, ?_⟩
      · rw [bind_of_ok (hc.load (by omega)), bind_of_ok (hload _ (by omega) (by omega)),
          GF_ADD_eq_add, GF_MUL_eq_mul, hq, bind_of_ok (store_of_lt _ hlt)]
        rfl
      · intro i hi hik
        rw [load_of_lt 0 (by rw [List.length_set]; omega), getD_set hlt]
        by_cases hij : k - 2 - j = i
        · rw [if_pos hij, hij]
        · rw [if_neg hij, ← load_of_lt 0 (by omega)]
          exact hload i (by omega) hik
      · rw [show k - 1 - (j + 1) = k - 2 - j from by omega, eval_tail,
          show k - 2 - j + 1 = k - 1 - j from by omega, ← ht]
  obtain ⟨⟨b', t⟩, hs, hl, hload, ht⟩ := hloop
  simp only at hl hload ht
  refine ⟨b', t, hs, ⟨hl, fun i hi => ?_⟩, by rw [ht, Nat.sub_self]; rfl⟩
  have := hload i (by omega) hi
  rw [load_of_lt 0 (by omega)] at this
  exact Except.ok.inj this

/-- The entry of the inverse, in the form the code computes it. -/
noncomputable def entry (x : Nat → Gf) (k i r : Nat) : Gf :=
  ((quotient x k r).eval (x r))⁻¹ * (quotient x k r).coeff i

theorem invRow_ok (hp : Lists k p x) (hc : Lists k c fun j => (master x k).coeff j)
    (hb : b.length = k) (ha : k * k ≤ a.length) {r : Nat} (hr : r < k) :
    ∃ s, invRow p c k r (a, b) = .ok s ∧ s.2.length = k ∧ s.1.length = a.length ∧
      ∀ i j, j < k → cell s.1 k i j = if i < k ∧ j = r then entry x k i r else cell a k i j := by
  obtain ⟨b', t, hd, hb', ht⟩ := divide_ok hc hb hr
  have hloop : ∃ a', forUp (fun col a => do
        let y ← load b' col
        store a (col * k + r) (GF_MUL (GF_INV t) y)) k a = .ok a' ∧ a'.length = a.length ∧
      ∀ i j, j < k → cell a' k i j = if i < k ∧ j = r then entry x k i r else cell a k i j := by
    refine forUp_invariant (I := fun col (a' : List Gf) => a'.length = a.length ∧
      ∀ i j, j < k → cell a' k i j = if i < col ∧ j = r then entry x k i r else cell a k i j) k
      ⟨rfl, fun i j _ => (if_neg (by omega)).symm⟩ ?_
    rintro col a' hcol ⟨hl, hcell⟩
    have hlt : col * k + r < a'.length := by have := index_lt hcol hr; omega
    refine ⟨_, by rw [bind_of_ok (hb'.load hcol), store_of_lt _ hlt],
      by rw [List.length_set, hl], fun i j hj => ?_⟩
    rw [cell_set _ hlt hr hj, hcell i j hj, GF_MUL_eq_mul, GF_INV_eq_inv, ht]
    by_cases hi : i = col ∧ j = r
    · rw [if_pos hi, if_pos (by omega), hi.1]
      rfl
    · rw [if_neg hi]
      by_cases hin : i < col ∧ j = r
      · rw [if_pos hin, if_pos (by omega)]
      · rw [if_neg hin, if_neg (by omega)]
  obtain ⟨a', ha', hl, hcell⟩ := hloop
  refine ⟨(a', b'), ?_, hb'.length, hl, hcell⟩
  rw [invRow, bind_of_ok (hp.load hr)]
  simp only [bind_of_ok hd, bind_of_ok ha']

/-! ## The inverse -/

theorem entry_eq_inv (hx : ∀ i < k, ∀ j < k, x i = x j → i = j) (i j : Fin k) :
    entry x k i j = (Matrix.vandermonde fun i : Fin k => x i)⁻¹ i j := by
  rw [Matrix.inv_eq_right_inv (vandermonde_mul_lagrange hx), lagrange, entry, div_eq_inv_mul]

/-- The rows below the first `k` are left alone; with `k = 1` there is nothing to do and
the function returns zero. -/
theorem matrixInvVandermonde_ok (hk : 0 < k) (hx : ∀ i < k, ∀ j < k, x i = x j → i = j)
    (ha : k * k ≤ a.length) (hcell : ∀ i j, i < k → j < k → cell a k i j = x i ^ j) :
    ∃ a', matrixInvVandermonde a k = .ok (if k = 1 then 0 else 1, a') ∧ a'.length = a.length ∧
      (∀ i j : Fin k, cell a' k i j = (Matrix.vandermonde fun i : Fin k => x i)⁻¹ i j) ∧
      ∀ i j, k ≤ i → j < k → cell a' k i j = cell a k i j := by
  unfold matrixInvVandermonde
  by_cases h1 : k = 1
  · rw [if_pos h1, if_pos h1]
    refine ⟨a, rfl, rfl, fun i j => ?_, fun i j _ _ => rfl⟩
    subst h1
    have hone : (Matrix.vandermonde fun i : Fin 1 => x i) = 1 := by
      ext i j
      rw [Matrix.vandermonde_apply, Subsingleton.elim j i, Matrix.one_apply_eq,
        show (i : Nat) = 0 from by omega, pow_zero]
    rw [hone, inv_one, hcell i j i.isLt j.isLt, Subsingleton.elim j i, Matrix.one_apply_eq,
      show (i : Nat) = 0 from by omega, pow_zero]
  · rw [if_neg h1, if_neg h1]
    have hnode (i : Nat) (hi : i < k) : load a (1 + i * k) = .ok (x i) := by
      have := index_lt hi (j := 1) (k := k) (by omega)
      rw [Nat.add_comm, load_cell (by omega), hcell i 1 hi (by omega), pow_one]
    obtain ⟨c₀, p, hread, hc₀, hp⟩ := readNodes_ok hnode
    obtain ⟨c, hmaster, hc⟩ := buildMaster_ok hk hp hc₀
    have hloop : ∃ s, forUp (invRow p c k) k (a, List.replicate k 0) = .ok s ∧
        s.2.length = k ∧ s.1.length = a.length ∧ ∀ i j, j < k → cell s.1 k i j =
          if i < k ∧ j < k then entry x k i j else cell a k i j := by
      refine forUp_invariant (I := fun r (s : List Gf × List Gf) =>
        s.2.length = k ∧ s.1.length = a.length ∧ ∀ i j, j < k → cell s.1 k i j =
          if i < k ∧ j < r then entry x k i j else cell a k i j) k
        ⟨List.length_replicate, rfl, fun i j _ => (if_neg (by omega)).symm⟩ ?_
      rintro r ⟨a', b⟩ hr ⟨hb, hl, hcell'⟩
      obtain ⟨s, hs, hsb, hsl, hsc⟩ := invRow_ok hp hc hb (hl ▸ ha) hr
      refine ⟨s, hs, hsb, hsl.trans hl, fun i j hj => ?_⟩
      rw [hsc i j hj, hcell' i j hj]
      by_cases hij : i < k ∧ j = r
      · rw [if_pos hij, if_pos (by omega), hij.2]
      · rw [if_neg hij]
        by_cases hin : i < k ∧ j < r
        · rw [if_pos hin, if_pos (by omega)]
        · rw [if_neg hin, if_neg (by omega)]
    obtain ⟨s, hs, _, hl, hall⟩ := hloop
    refine ⟨s.1, ?_, hl, fun i j => ?_, fun i j hi hj => ?_⟩
    · simp only [bind_of_ok hread, bind_of_ok hmaster, bind_of_ok hs]
    · rw [hall i j j.isLt, if_pos ⟨i.isLt, j.isLt⟩, entry_eq_inv hx]
    · rw [hall i j hj, if_neg (by omega)]

end RtpSdr.Fec.VandermondeInv
