import RtpSdr.Lib.SystematicCode
import RtpSdr.Fec.VandermondeInv

/-!
# The generator matrix and the encoder of `fec.c`

`fec_new` multiplies the lower rows of a Vandermonde matrix by the inverse of its
upper square and puts the identity on top. The rows it leaves are those of the
systematic code of `RtpSdr.Lib.SystematicCode` with nodes 0 and the powers of
alpha.
-/
namespace RtpSdr.Fec.Code

open RtpSdr.Lib.Checked
open RtpSdr.Lib.Memory
open RtpSdr.Lib.SystematicCode
open RtpSdr.Fec.Galois
open RtpSdr.Fec.Field
open RtpSdr.Fec.Matrix
open RtpSdr.Fec.VandermondeInv

/-- `fec_t`. -/
structure FecT where
  k : UInt32
  n : UInt32
  genMatrix : List Gf

/-- An `unsigned int` where an `int` is expected. -/
def toInt (x : UInt32) : Int := x.toInt32.toInt

/-- `gf_polys`, its entries read as field elements. -/
def polys : List Gf := gfPolys

/-- `gf_polys[(row * col) % 255]`. -/
def power (row col : Nat) : Exec Gf :=
  load polys (UInt32.ofNat row * UInt32.ofNat col % 255).toNat

/-- `tmp` filled with powers of field elements; the first row is that of zero. -/
def fillTmp (k n : UInt32) : Exec (List Gf) := do
  let tmp ← store (List.replicate (k * n).toNat 0) 0 1
  let tmp ← forUp (fun col tmp => store tmp (col + 1) 0) (k.toNat - 1) tmp
  fillRows power k.toNat 1 (n - 1).toNat tmp

/-- `fec_new(k, n)`. Every cell of the two arrays is written before it is read. -/
def fecNew (k n : UInt32) : Exec FecT := do
  cassert (decide (k ≤ n) || literal "k is too big")
  cassert (decide (k ≤ 256) || literal "k is too big")
  cassert (decide (n ≤ 256) || literal "n is too big")
  let tmp ← fillTmp k n
  let (_, tmp) ← matrixInvVandermonde tmp k.toNat
  let gen := List.replicate (k.toNat * n.toNat) 0
  let low ← matrixMul (tmp.drop (k * k).toNat) tmp (gen.drop (k * k).toNat) (toInt (n - k))
    k.toNat k.toNat
  let gen ← fillRows (fun row col => .ok (if col = row then 1 else 0)) k.toNat 0 k.toNat
    (gen.take (k * k).toNat ++ low)
  .ok ⟨k, n, gen⟩

/-- `fec_encode(fec, src, dst, idx, len)`: the destination afterwards. -/
def fecEncode (fec : FecT) (src : List (List Gf)) (dst : List Gf) (idx len : UInt32) :
    Exec (List Gf) := do
  cassert (decide (idx < fec.n) || literal "Index of output packet to high")
  if idx < fec.k then do
    let pkt ← load src idx.toNat
    let bytes ← slice pkt 0 len.toNat
    blit dst 0 bytes
  else do
    let dst ← blit dst 0 (List.replicate len.toNat 0)
    forUp (fun i dst => do
      let pkt ← load src i
      let c ← load fec.genMatrix ((idx * fec.k).toNat + i)
      gfAddMul (fun _ j => load pkt j) 0 c (toInt len) dst) fec.k.toNat dst

/-! ## The generator matrix -/

/-- The node of a packet: zero, then the powers of alpha. -/
def node : Nat → Gf
  | 0 => 0
  | r + 1 => gen.exp r

theorem distinct_node : Distinct node 256 := by
  intro i hi j hj h
  cases i with
  | zero =>
    cases j with
    | zero => rfl
    | succ j => exact absurd h.symm (gen.exp_ne_zero j)
  | succ i =>
    cases j with
    | zero => exact absurd h (gen.exp_ne_zero i)
    | succ j => rw [alpha_inj (by omega) (by omega) h]

theorem distinct_of_le {n : Nat} (hn : n ≤ 256) : Distinct node n :=
  fun i hi j hj => distinct_node i (by omega) j (by omega)

theorem polys_ok {i : Nat} (hi : i < 255) : load polys i = .ok (gen.exp i) := by
  have hlen : polys.length = 256 := filled_initEnd.polys_length
  rw [load_of_lt 0 (by omega)]
  exact congrArg Except.ok (gfPolys_getD hi)

theorem power_ok {row col : Nat} (hr : row ≤ 255) (hc : col ≤ 255) :
    power row col = .ok (node (row + 1) ^ col) := by
  have hle : row * col ≤ 255 * 255 := Nat.mul_le_mul hr hc
  have hrow : row % 2 ^ 32 = row := Nat.mod_eq_of_lt (by omega)
  have hcol : col % 2 ^ 32 = col := Nat.mod_eq_of_lt (by omega)
  have hprod : row * col % 2 ^ 32 = row * col := Nat.mod_eq_of_lt (by omega)
  have hidx : (UInt32.ofNat row * UInt32.ofNat col % 255).toNat = row * col % 255 := by
    rw [UInt32.toNat_mod, UInt32.toNat_mul, UInt32.toNat_ofNat', UInt32.toNat_ofNat', hrow, hcol,
      hprod]
    rfl
  have hpow : gen.exp (row * col % 255) = node (row + 1) ^ col :=
    (gen.exp_mod _).trans (exp_pow row col).symm
  rw [power, hidx, polys_ok (Nat.mod_lt _ (by decide)), hpow]

/-- A parameter structure with the matrix of the systematic code. -/
structure Generates (fec : FecT) (k n : Nat) : Prop where
  toNat_k : fec.k.toNat = k
  toNat_n : fec.n.toNat = n
  length : fec.genMatrix.length = n * k
  cell : ∀ j, j < n → ∀ i : Fin k, cell fec.genMatrix k j i = generator node k j i

theorem toInt_eq (x : UInt32) :
    toInt x = if x.toNat < 2 ^ 31 then (x.toNat : Int) else (x.toNat : Int) - 2 ^ 32 := by
  have h := BitVec.toInt_eq_toNat_cond x.toBitVec
  have hlt : 2 * x.toBitVec.toNat < 2 ^ 32 ↔ x.toNat < 2 ^ 31 := by
    change 2 * x.toNat < 2 ^ 32 ↔ _
    omega
  simp only [hlt] at h
  exact h

theorem toInt_of_lt {x : UInt32} (h : x.toNat < 2 ^ 31) : toInt x = x.toNat := by
  rw [toInt_eq, if_pos h]

theorem toNat_toInt_of_le {x : UInt32} (h : 2 ^ 31 ≤ x.toNat) : (toInt x).toNat = 0 := by
  have := x.toNat_lt
  rw [toInt_eq, if_neg (by omega)]
  omega

section New

variable {k n : UInt32} (hk : 1 ≤ k.toNat) (hkn : k.toNat ≤ n.toNat) (hn : n.toNat ≤ 256)

include hkn hn

theorem toNat_prod : (k * n).toNat = n.toNat * k.toNat := by
  have := Nat.mul_le_mul (hkn.trans hn) hn
  rw [UInt32.toNat_mul, Nat.mod_eq_of_lt (by omega), Nat.mul_comm]

theorem toNat_square : (k * k).toNat = k.toNat * k.toNat := by
  have := Nat.mul_le_mul (hkn.trans hn) (hkn.trans hn)
  rw [UInt32.toNat_mul, Nat.mod_eq_of_lt (by omega)]

include hk

/-- The rows of the Vandermonde matrix, before its top is inverted. -/
theorem fillTmp_ok :
    ∃ tmp, fillTmp k n = .ok tmp ∧ tmp.length = n.toNat * k.toNat ∧
      ∀ i j, i < n.toNat → j < k.toNat → Matrix.cell tmp k.toNat i j = node i ^ j := by
  have hsub : (n - 1).toNat = n.toNat - 1 :=
    UInt32.toNat_sub_of_le _ _ (UInt32.le_iff_toNat_le.mpr (by change 1 ≤ _; omega))
  unfold fillTmp
  rw [toNat_prod hkn hn, hsub]
  generalize k.toNat = K at *
  generalize n.toNat = N at *
  have hnk : K ≤ N * K := Nat.le_mul_of_pos_left K (by omega)
  have hlt : 0 < (List.replicate (N * K) (0 : Gf)).length := by
    rw [List.length_replicate]; omega
  have hfirst : ∃ tmp, forUp (fun col tmp => store tmp (col + 1) 0) (K - 1)
      ((List.replicate (N * K) (0 : Gf)).set 0 1) = .ok tmp ∧ tmp.length = N * K ∧
        tmp.getD 0 0 = 1 ∧ ∀ i, 0 < i → tmp.getD i 0 = 0 := by
    refine forUp_invariant (I := fun _ (tmp : List Gf) => tmp.length = N * K ∧
      tmp.getD 0 0 = 1 ∧ ∀ i, 0 < i → tmp.getD i 0 = 0) (K - 1)
      ⟨by rw [List.length_set, List.length_replicate], ?_, fun i hi => ?_⟩ ?_
    · rw [getD_set hlt, if_pos rfl]
    · rw [getD_set hlt, if_neg (by omega), List.getD_eq_getElem?_getD, List.getElem?_replicate]
      split <;> rfl
    · rintro col tmp hcol ⟨hl, h0, hrest⟩
      refine ⟨_, store_of_lt 0 (by omega), by rw [List.length_set, hl], ?_, fun i hi => ?_⟩
      · rw [getD_set (by omega), if_neg (by omega), h0]
      · rw [getD_set (by omega), hrest i hi, ite_self]
  obtain ⟨tmp₁, h₁, hl₁, hzero, hrest⟩ := hfirst
  obtain ⟨tmp, h₂, hl₂, hc⟩ := fillRows_ok (f := fun i j => node (i + 1) ^ j) (k := K) (r := 1)
    (n := N - 1) (a := tmp₁) (fun i j hi hj => power_ok (by omega) (by omega))
    (by rw [hl₁, show 1 + (N - 1) = N from by omega])
  refine ⟨tmp, by rw [bind_of_ok (store_of_lt 1 hlt), bind_of_ok h₁, h₂], hl₂.trans hl₁,
    fun i j hi hj => ?_⟩
  rw [hc i j hj]
  by_cases h0 : i = 0
  · rw [if_neg (by omega), h0, Matrix.cell, Nat.zero_mul, Nat.zero_add]
    cases j with
    | zero => rw [hzero, pow_zero]
    | succ j =>
      rw [hrest _ (Nat.succ_pos j)]
      exact (zero_pow (Nat.succ_ne_zero j)).symm
  · rw [if_pos (by omega)]
    simp only [show i - 1 + 1 = i from by omega]

/-- For the parameters it is meant for, `fec_new` builds the systematic code. -/
theorem fecNew_ok :
    ∃ fec, fecNew k n = .ok fec ∧ fec.k = k ∧ fec.n = n ∧ Generates fec k.toNat n.toNat := by
  have hkk : k.toNat * k.toNat ≤ n.toNat * k.toNat := Nat.mul_le_mul_right _ hkn
  have hdiff : toInt (n - k) = ((n.toNat - k.toNat : Nat) : Int) := by
    have hs := UInt32.toNat_sub_of_le _ _ (UInt32.le_iff_toNat_le.mpr hkn)
    rw [toInt_of_lt (by omega), hs]
  obtain ⟨tmp, htmp, hl, hcell⟩ := fillTmp_ok hk hkn hn
  have hassert (c : Bool) (t : String) : cassert (c || literal t) = .ok () := by simp [literal]
  unfold fecNew
  rw [bind_of_ok (hassert _ _), bind_of_ok (hassert _ _), bind_of_ok (hassert _ _),
    bind_of_ok htmp, toNat_square hkn hn, hdiff]
  generalize hK : k.toNat = K at *
  generalize hN : n.toNat = N at *
  obtain ⟨inv, hinv, hli, htop, hlow⟩ := matrixInvVandermonde_ok (x := node) hk
    (fun i hi j hj => distinct_node i (by omega) j (by omega)) (by omega)
    (fun i j hi hj => hcell i j (by omega) hj)
  have hbelow : (N - K) * K = N * K - K * K := Nat.sub_mul N K K
  obtain ⟨low, hmul, hll, hprodCell⟩ := matrixMul_ok (n := N - K) (k := K) (m := K)
    (a := inv.drop (K * K)) (b := inv) (c := (List.replicate (K * N) 0).drop (K * K))
    (by rw [List.length_drop]; omega) (by omega)
    (by rw [List.length_drop, List.length_replicate, Nat.mul_comm K N]; omega)
  have hpart : ((List.replicate (K * N) (0 : Gf)).take (K * K)).length = K * K := by
    rw [List.length_take, List.length_replicate, Nat.mul_comm K N]; omega
  have hwhole : ((List.replicate (K * N) (0 : Gf)).take (K * K) ++ low).length = N * K := by
    rw [List.length_append, hpart, hll, List.length_drop, List.length_replicate,
      Nat.mul_comm K N]
    omega
  obtain ⟨gen, hgen, hlg, hgc⟩ := fillRows_ok (g := fun row col => .ok (if col = row then 1 else 0))
    (f := fun row col => if col = row then 1 else 0) (k := K) (r := 0) (n := K)
    (a := (List.replicate (K * N) 0).take (K * K) ++ low) (fun _ _ _ _ => rfl)
    (by rw [hwhole, Nat.zero_add]; exact hkk)
  refine ⟨⟨k, n, gen⟩, ?_, rfl, rfl, hK, hN, hlg.trans hwhole, fun j hj i => ?_⟩
  · simp only [bind_of_ok hinv, bind_of_ok hmul, bind_of_ok hgen]
  · change Matrix.cell gen K j i = _
    rw [hgc j i i.isLt, cell_append hpart i.isLt]
    by_cases hjK : j < K
    · rw [if_pos ⟨Nat.zero_le j, by omega⟩, Nat.sub_zero]
      have htopRow := generator_top (distinct_of_le hn) hkn ⟨j, hjK⟩ i
      rw [htopRow, Matrix.one_apply]
      simp only [Fin.ext_iff, eq_comm]
    · rw [if_neg (by omega), if_neg hjK, hprodCell _ _ i.isLt, if_pos (by omega), Finset.sum_range]
      refine Finset.sum_congr rfl fun t _ => ?_
      rw [cell_drop, show K + (j - K) = j from by omega, hlow _ _ (by omega) t.isLt,
        hcell _ _ hj t.isLt, htop t i]

end New

/-! ## The encoder -/

section Encode

variable {fec : FecT} {k n : Nat} {src : List (List Gf)} {dst : List Gf} {idx len : UInt32}

/-- The `i`-th source packet. -/
def packet (src : List (List Gf)) (i : Nat) : List Gf := src.getD i []

/-- What byte `b` of packet `j` is worth, where the encoder covers the whole length. -/
noncomputable def symbol (src : List (List Gf)) (k j b : Nat) : Gf :=
  ∑ i : Fin k, generator node k j i * (packet src i).getD b 0

theorem symbol_source (hkn : k ≤ n) (hn : n ≤ 256) {i : Nat} (hi : i < k) (b : Nat) :
    symbol src k i b = (packet src i).getD b 0 := by
  have htop (t : Fin k) := generator_top (distinct_of_le hn) hkn ⟨i, hi⟩ t
  simp only at htop
  simp only [symbol, htop]
  exact congrFun (Matrix.one_mulVec fun t : Fin k => (packet src t).getD b 0) ⟨i, hi⟩

theorem fecEncode_source (hg : Generates fec k n) (hi : idx.toNat < k) (hsrc : src.length = k)
    (hpkt : (packet src idx.toNat).length = len.toNat) (hdst : dst.length = len.toNat) :
    fecEncode fec src dst idx len = .ok (packet src idx.toNat) := by
  have hlt : idx < fec.k := UInt32.lt_iff_toNat_lt.mpr (by rw [hg.toNat_k]; exact hi)
  unfold fecEncode
  rw [bind_of_ok (show cassert (_ || literal _) = .ok () by simp [literal]), if_pos hlt,
    bind_of_ok (load_of_lt [] (hsrc ▸ hi))]
  change slice (packet src idx.toNat) 0 len.toNat >>= _ = _
  rw [← hpkt, bind_of_ok (slice_self _), blit_of_le (by omega), put_zero,
    List.drop_eq_nil_of_le (by omega), List.append_nil]

theorem fecEncode_parity (src : List (List Gf)) (dst : List Gf) (idx len : UInt32)
    (hg : Generates fec k n) (hk : k ≤ 256) (hn : n ≤ 256)
    (hi : k ≤ idx.toNat) (hin : idx.toNat < n) (hsrc : src.length = k)
    (hpkt : ∀ i, i < k → (packet src i).length = len.toNat) (hdst : dst.length = len.toNat) :
    ∃ out, fecEncode fec src dst idx len = .ok out ∧ out.length = len.toNat ∧
      ∀ b, b < len.toNat →
        out.getD b 0 = if len.toNat < 2 ^ 31 then symbol src k idx.toNat b else 0 := by
  have hge : ¬ idx < fec.k := fun h => by
    have := UInt32.lt_iff_toNat_lt.mp h
    rw [hg.toNat_k] at this
    omega
  have hrow : (idx * fec.k).toNat = idx.toNat * k := by
    have := Nat.mul_le_mul (hin.le.trans hn) hk
    rw [UInt32.toNat_mul, hg.toNat_k, Nat.mod_eq_of_lt (by omega)]
  have hzero : put dst 0 (List.replicate len.toNat 0) = List.replicate len.toNat 0 := by
    rw [put_zero, List.drop_eq_nil_of_le (by simp [hdst]), List.append_nil]
  unfold fecEncode
  rw [bind_of_ok (show cassert (_ || literal _) = .ok () by simp [literal]), if_neg hge,
    bind_of_ok (blit_of_le (by simp [hdst])), hzero, hrow, hg.toNat_k]
  generalize hw : (toInt len).toNat = w
  have hwl : w = if len.toNat < 2 ^ 31 then len.toNat else 0 := by
    rw [← hw]
    split
    · rename_i h
      rw [toInt_of_lt h]
      rfl
    · rename_i h
      exact toNat_toInt_of_le (by omega)
  obtain ⟨out, hout, hl, hc⟩ := addRows_ok (o := 0) (w := w) (k := k)
    (a := List.replicate len.toNat 0) (b := fun i dst => do
      let pkt ← load src i
      let c ← load fec.genMatrix (idx.toNat * k + i)
      gfAddMul (fun _ j => load pkt j) 0 c (toInt len) dst)
    (s := fun i _ j => load (packet src i) j)
    (fun i => Matrix.cell fec.genMatrix k idx.toNat i) (fun i j => (packet src i).getD j 0)
    (by rw [List.length_replicate, hwl]; split <;> omega)
    (fun i t hi => by
      have hlt := index_lt hin hi
      simp only [bind_of_ok (load_of_lt [] (hsrc ▸ hi)),
        bind_of_ok (load_cell (a := fec.genMatrix) (by rw [hg.length]; exact hlt))]
      unfold gfAddMul
      rw [hw, Int.toNat_natCast]
      rfl)
    (fun i t j hi hj _ _ => load_of_lt 0 (by rw [hpkt i hi]; rw [hwl] at hj; split at hj <;> omega))
  refine ⟨out, hout, by rw [hl, List.length_replicate], fun b hb => ?_⟩
  rw [hc b, List.getD_eq_getElem?_getD, List.getElem?_replicate, if_pos hb, hwl]
  by_cases hlen : len.toNat < 2 ^ 31
  · rw [if_pos hlen, if_pos hlen, if_pos ⟨Nat.zero_le b, by omega⟩, Option.getD_some, zero_add,
      Finset.sum_range, symbol]
    exact Finset.sum_congr rfl fun i _ => by rw [hg.cell _ hin]; rfl
  · rw [if_neg hlen, if_neg hlen, if_neg (by omega), Option.getD_some]

end Encode

end RtpSdr.Fec.Code
