import RtpSdr.Fec.MatrixInv
import RtpSdr.Fec.Shuffle

/-!
# `fec_decode`

The generator rows of the received packets are inverted, and each missing source
packet is rebuilt in its row of the buffer from the rows that were received. A
rebuilt row is never read again: after the shuffle no index names it.
-/
namespace RtpSdr.Fec.Decode

open RtpSdr.Lib.Checked
open RtpSdr.Lib.Memory
open RtpSdr.Lib.SystematicCode
open RtpSdr.Fec.Galois
open RtpSdr.Fec.Field
open RtpSdr.Fec.Matrix
open RtpSdr.Fec.MatrixInv
open RtpSdr.Fec.Code
open RtpSdr.Fec.Shuffle

/-- `fec_decode_matrix(fec, matrix, idxs)`: the result and the matrix afterwards. -/
def fecDecodeMatrix (fec : FecT) (matrix : List Gf) (idxs : List UInt32) :
    Exec (Int × List Gf) := do
  let matrix ← forUp (fun i matrix => do
    let x ← load idxs i
    cassert (decide (x < fec.n) || literal "index of packet to high for FEC")
    let row ← slice fec.genMatrix (x * fec.k).toNat fec.k.toNat
    blit matrix (i * fec.k.toNat) row) fec.k.toNat matrix
  let (r, matrix) ← matrixInv matrix fec.k.toNat
  .ok (if r = 0 then 0 else 1, matrix)

/-- One pass of the row loop of `fec_decode`. -/
def rebuildRow (fec : FecT) (dec : List Gf) (idxs : List UInt32) (len : UInt32) (row : Nat)
    (pkts : List Gf) : Exec (List Gf) := do
  let x ← load idxs row
  if x ≥ fec.k then do
    let pkts ← blit pkts (UInt32.ofNat row * len).toNat (List.replicate len.toNat 0)
    forUp (fun col pkts => do
      let y ← load idxs col
      let c ← load dec (UInt32.ofNat row * fec.k + UInt32.ofNat col).toNat
      gfAddMul (fun mem j => load mem ((y * len).toNat + j)) (UInt32.ofNat row * len).toNat c
        (toInt len) pkts) fec.k.toNat pkts
  else .ok pkts

/-- `fec_decode(fec, pkts, idxs, len)`: the result, the packets and the indices. -/
def fecDecode (fec : FecT) (pkts : List Gf) (idxs : List UInt32) (len : UInt32) :
    Exec (Int × List Gf × List UInt32) := do
  let (r, idxs) ← fecShuffle fec idxs
  if r = 0 then .ok (0, pkts, idxs)
  else do
    let (r, dec) ← fecDecodeMatrix fec (List.replicate (fec.k * fec.k).toNat 0) idxs
    if r = 0 then .ok (0, pkts, idxs)
    else do
      let pkts ← forUp (rebuildRow fec dec idxs len) fec.k.toNat pkts
      .ok (1, pkts, idxs)

/-! ## The decoding matrix -/

variable {fec : FecT} {k n : Nat} {xs : List UInt32}

theorem load_idx (hl : xs.length = k) {i : Nat} (hi : i < k) : load xs i = .ok (xs.getD i 0) :=
  load_of_lt 0 (hl ▸ hi)

theorem toNat_mul_k (hg : Generates fec k n) (hk : k ≤ 256) {x : UInt32} (hx : x.toNat ≤ 256) :
    (x * fec.k).toNat = x.toNat * k := by
  have := Nat.mul_le_mul hx hk
  rw [UInt32.toNat_mul, hg.toNat_k, Nat.mod_eq_of_lt (by omega)]

theorem copyRows_ok (hg : Generates fec k n) (hk : k ≤ 256) (hn : n ≤ 256) (hl : xs.length = k)
    (hlt : ∀ i, i < k → idxAt xs i < n) :
    ∃ a, forUp (fun i matrix => do
        let x ← load xs i
        cassert (decide (x < fec.n) || literal "index of packet to high for FEC")
        let row ← slice fec.genMatrix (x * fec.k).toNat k
        blit matrix (i * k) row) k (List.replicate (k * k) 0) = .ok a ∧
      Holds k a (rows node k fun r : Fin k => idxAt xs r) := by
  have hloop : ∃ a, forUp (fun i matrix => do
        let x ← load xs i
        cassert (decide (x < fec.n) || literal "index of packet to high for FEC")
        let row ← slice fec.genMatrix (x * fec.k).toNat k
        blit matrix (i * k) row) k (List.replicate (k * k) 0) = .ok a ∧ a.length = k * k ∧
      ∀ r j, r < k → j < k → cell a k r j = cell fec.genMatrix k (idxAt xs r) j := by
    refine forUp_invariant (I := fun i (a : List Gf) => a.length = k * k ∧
      ∀ r j, r < i → j < k → cell a k r j = cell fec.genMatrix k (idxAt xs r) j) k
      ⟨List.length_replicate, fun r j hr => absurd hr (Nat.not_lt_zero r)⟩ ?_
    rintro i a hi ⟨hla, hc⟩
    have hend := row_end_le (k := k) (hlt i hi)
    have hoff : ((xs.getD i 0) * fec.k).toNat = idxAt xs i * k :=
      toNat_mul_k hg hk ((hlt i hi).le.trans hn)
    have hrow : ((fec.genMatrix.drop (idxAt xs i * k)).take k).length = k := by
      rw [List.length_take, List.length_drop, hg.length]
      omega
    have hdst : i * k + k ≤ a.length := hla ▸ row_end_le hi
    refine ⟨put a (i * k) ((fec.genMatrix.drop (idxAt xs i * k)).take k), ?_,
      by rw [length_put (by rw [hrow]; exact hdst), hla], fun r j hr hj => ?_⟩
    · rw [bind_of_ok (load_idx hl hi), bind_of_ok (show cassert (_ || literal _) = .ok () by
        simp [literal]), hoff, bind_of_ok (slice_of_le (hg.length ▸ hend)),
        blit_of_le (by rw [hrow]; exact hdst)]
    · rw [cell_put hrow hdst hj]
      by_cases hri : r = i
      · rw [if_pos hri, hri, List.getD_eq_getElem?_getD, List.getElem?_take, if_pos hj,
          List.getElem?_drop, ← List.getD_eq_getElem?_getD]
        rfl
      · rw [if_neg hri]
        exact hc r j (by omega) hj
  obtain ⟨a, ha, hla, hc⟩ := hloop
  refine ⟨a, ha, hla, fun i j => ?_⟩
  rw [hc i j i.isLt j.isLt, hg.cell _ (hlt i i.isLt), rows_eq_generator]

/-- The matrix `fec_decode_matrix` leaves inverts the rows of the packets it was given. -/
theorem fecDecodeMatrix_ok (hg : Generates fec k n) (hk : k ≤ 256) (hn : n ≤ 256)
    (hl : xs.length = k) (hlt : ∀ i, i < k → idxAt xs i < n) :
    (∃ dec m, fecDecodeMatrix fec (List.replicate (k * k) 0) xs = .ok (1, dec) ∧ Holds k dec m ∧
        m * rows node k (fun r : Fin k => idxAt xs r) = 1) ∨
      ∃ dec, fecDecodeMatrix fec (List.replicate (k * k) 0) xs = .ok (0, dec) ∧
        (rows node k fun r : Fin k => idxAt xs r).det = 0 := by
  obtain ⟨a, ha, hh⟩ := copyRows_ok hg hk hn hl hlt
  unfold fecDecodeMatrix
  rw [hg.toNat_k, bind_of_ok ha]
  have hfit : k * k ≤ 2 ^ 31 := (Nat.mul_le_mul hk hk).trans (by decide)
  rcases matrixInv_ok hfit hh with ⟨dec, m, hdec, hm, hinv⟩ | ⟨dec, hdec, hdet⟩
  · exact .inl ⟨dec, m, by simp only [bind_of_ok hdec]; rfl, hm, hinv⟩
  · exact .inr ⟨dec, by simp only [bind_of_ok hdec]; rfl, hdet⟩

/-! ## Rebuilding the missing rows -/

theorem toNat_ofNat_mul {r : Nat} {w : UInt32} (hr : r ≤ 256) (h : r * w.toNat < 2 ^ 32) :
    (UInt32.ofNat r * w).toNat = r * w.toNat := by
  rw [UInt32.toNat_mul, UInt32.toNat_ofNat', Nat.mod_eq_of_lt (a := r) (by omega),
    Nat.mod_eq_of_lt h]

theorem toNat_dec_index (hg : Generates fec k n) (hk : k ≤ 256) {r c : Nat} (hr : r < k)
    (hc : c < k) : (UInt32.ofNat r * fec.k + UInt32.ofNat c).toNat = r * k + c := by
  have h1 := index_lt hr hc
  have h2 := Nat.mul_le_mul hk hk
  rw [UInt32.toNat_add, toNat_ofNat_mul (by omega) (by rw [hg.toNat_k]; omega), hg.toNat_k,
    UInt32.toNat_ofNat', Nat.mod_eq_of_lt (a := c) (by omega), Nat.mod_eq_of_lt (by omega)]

/-- A coefficient of the decoding matrix. -/
theorem load_dec {dec : List Gf} (hg : Generates fec k n) (hk : k ≤ 256)
    (hdec : dec.length = k * k) {r c : Nat} (hr : r < k) (hc : c < k) :
    load dec (UInt32.ofNat r * fec.k + UInt32.ofNat c).toNat = .ok (cell dec k r c) := by
  rw [toNat_dec_index hg hk hr hc]
  exact load_cell (hdec ▸ index_lt hr hc)

/-- No offset into the buffer wraps, and the length is positive as an `int`. -/
structure Fits (k : Nat) (xs : List UInt32) (len : UInt32) : Prop where
  length : len.toNat < 2 ^ 31
  offset : ∀ c, c < k → idxAt xs c * len.toNat < 2 ^ 32

variable {len : UInt32} {dec mem : List Gf}

theorem rebuildRow_ok (hg : Generates fec k n) (hk : k ≤ 256) (hkn : k ≤ n) (hl : xs.length = k)
    (hlt : ∀ i, i < k → idxAt xs i < n) (hdec : dec.length = k * k)
    (hmem : mem.length = n * len.toNat) (hfit : Fits k xs len) {r : Nat} (hr : r < k)
    (hmiss : k ≤ idxAt xs r) (hne : ∀ c, c < k → idxAt xs c ≠ r) :
    ∃ mem', rebuildRow fec dec xs len r mem = .ok mem' ∧ mem'.length = mem.length ∧
      ∀ j b, b < len.toNat → cell mem' len.toNat j b =
        if j = r then ∑ c ∈ Finset.range k, cell dec k r c * cell mem len.toNat (idxAt xs c) b
        else cell mem len.toNat j b := by
  have hsub : r * len.toNat ≤ idxAt xs r * len.toNat := Nat.mul_le_mul_right _ (by omega)
  have hoff : (UInt32.ofNat r * len).toNat = r * len.toNat :=
    toNat_ofNat_mul (by omega) (hsub.trans_lt (hfit.offset r hr))
  have hge : xs.getD r 0 ≥ fec.k := by
    rw [ge_iff_le, UInt32.le_iff_toNat_le, hg.toNat_k]
    exact hmiss
  have hend : r * len.toNat + len.toNat ≤ mem.length := hmem ▸ row_end_le (by omega)
  have hzl : (List.replicate len.toNat (0 : Gf)).length = len.toNat := List.length_replicate
  unfold rebuildRow
  rw [bind_of_ok (load_idx hl hr), if_pos hge, hoff, bind_of_ok (blit_of_le (by omega)), hg.toNat_k]
  have hcell (j b : Nat) (hb : b < len.toNat) :
      cell (put mem (r * len.toNat) (List.replicate len.toNat 0)) len.toNat j b =
        if j = r then 0 else cell mem len.toNat j b := by
    rw [cell_put hzl hend hb, List.getD_eq_getElem?_getD, List.getElem?_replicate, if_pos hb,
      Option.getD_some]
  obtain ⟨mem', h, hl', hc⟩ := addRows_ok (o := r * len.toNat) (w := len.toNat) (k := k)
    (a := put mem (r * len.toNat) (List.replicate len.toNat 0)) (b := fun col pkts => do
      let y ← load xs col
      let c ← load dec (UInt32.ofNat r * fec.k + UInt32.ofNat col).toNat
      gfAddMul (fun mem j => load mem ((y * len).toNat + j)) (r * len.toNat) c (toInt len) pkts)
    (s := fun c t j => load t (idxAt xs c * len.toNat + j))
    (fun c => cell dec k r c) (fun c j => cell mem len.toNat (idxAt xs c) j)
    (by rw [length_put (by omega)]; exact hend)
    (fun c t hc => by
      have hidx : (xs.getD c 0 * len).toNat = idxAt xs c * len.toNat := by
        rw [UInt32.toNat_mul]
        exact Nat.mod_eq_of_lt (hfit.offset c hc)
      simp only [bind_of_ok (load_idx hl hc), bind_of_ok (load_dec hg hk hdec hr hc), hidx,
        toInt_of_lt hfit.length])
    (fun c t j hc hj htl hsame => by
      have hlt' := index_lt (hlt c hc) hj
      have hpl : (put mem (r * len.toNat) (List.replicate len.toNat 0)).length = mem.length :=
        length_put (by omega)
      rw [load_of_lt 0 (by omega), hsame _ (row_disjoint (hne c hc) hj)]
      exact congrArg _ ((hcell _ _ hj).trans (if_neg (hne c hc))))
  refine ⟨mem', h, hl'.trans (length_put (by omega)), fun j b hb => ?_⟩
  have hpos := hc (j * len.toNat + b)
  change cell mem' len.toNat j b = _ at hpos
  rw [hpos]
  by_cases hj : j = r
  · rw [if_pos (by subst hj; omega), if_pos hj]
    have := hcell j b hb
    rw [if_pos hj] at this
    change cell (put mem _ _) len.toNat j b + _ = _
    rw [this, zero_add, hj, Nat.add_sub_cancel_left]
  · have hd := row_disjoint (i := r) (p := j) hj hb
    rw [if_neg (by omega), if_neg hj]
    exact (hcell j b hb).trans (if_neg hj)

/-- After the shuffle no index names a missing row. -/
theorem missing_ne (hplaced : ∀ j, j < k → Placed k xs j) {r c : Nat} (hc : c < k)
    (hr : k ≤ idxAt xs r) (hrk : r < k) : idxAt xs c ≠ r := by
  intro h
  rcases hplaced c hc with hge | heq
  · omega
  · rw [heq] at h
    rw [h] at heq
    omega

/-- The row loop rebuilds every missing row from the buffer as it was. -/
theorem rebuildRows_ok (hg : Generates fec k n) (hk : k ≤ 256) (hkn : k ≤ n) (hl : xs.length = k)
    (hlt : ∀ i, i < k → idxAt xs i < n) (hdec : dec.length = k * k)
    (hmem : mem.length = n * len.toNat) (hplaced : ∀ j, j < k → Placed k xs j)
    (hfit : ∀ r, r < k → k ≤ idxAt xs r → Fits k xs len) :
    ∃ mem', forUp (rebuildRow fec dec xs len) k mem = .ok mem' ∧ mem'.length = mem.length ∧
      ∀ j b, b < len.toNat → cell mem' len.toNat j b =
        if j < k ∧ k ≤ idxAt xs j then
          ∑ c ∈ Finset.range k, cell dec k j c * cell mem len.toNat (idxAt xs c) b
        else cell mem len.toNat j b := by
  refine forUp_invariant (I := fun r (t : List Gf) => t.length = mem.length ∧
      ∀ j b, b < len.toNat → cell t len.toNat j b =
        if j < r ∧ k ≤ idxAt xs j then
          ∑ c ∈ Finset.range k, cell dec k j c * cell mem len.toNat (idxAt xs c) b
        else cell mem len.toNat j b) k ⟨rfl, fun j b _ => (if_neg (by omega)).symm⟩ ?_
  rintro r t hr ⟨htl, ht⟩
  by_cases hmiss : k ≤ idxAt xs r
  · have hne (c : Nat) (hc : c < k) : idxAt xs c ≠ r := missing_ne hplaced hc hmiss hr
    obtain ⟨t', ht', htl', hc⟩ := rebuildRow_ok hg hk hkn hl hlt hdec (htl.trans hmem)
      (hfit r hr hmiss) hr hmiss hne
    refine ⟨t', ht', htl'.trans htl, fun j b hb => ?_⟩
    rw [hc j b hb]
    by_cases hj : j = r
    · rw [if_pos hj, if_pos (by subst hj; omega), hj]
      refine Finset.sum_congr rfl fun c hc => ?_
      have hc := Finset.mem_range.mp hc
      rw [ht _ b hb, if_neg]
      rintro ⟨hcr, hcm⟩
      -- an index below `r` is that of a row which was received
      exact missing_ne hplaced hc hcm (by omega) rfl
    · rw [if_neg hj, ht j b hb]
      by_cases hold : j < r ∧ k ≤ idxAt xs j
      · rw [if_pos hold, if_pos (by omega)]
      · rw [if_neg hold, if_neg (by omega)]
  · have hlow : ¬ xs.getD r 0 ≥ fec.k := by
      rw [ge_iff_le, UInt32.le_iff_toNat_le, hg.toNat_k]
      exact hmiss
    refine ⟨t, by rw [rebuildRow, bind_of_ok (load_idx hl hr), if_neg hlow], htl,
      fun j b hb => ?_⟩
    rw [ht j b hb]
    by_cases hold : j < r ∧ k ≤ idxAt xs j
    · rw [if_pos hold, if_pos (by omega)]
    · have : ¬ (j < r + 1 ∧ k ≤ idxAt xs j) := by
        rintro ⟨hj, hj'⟩
        have : j = r := by omega
        exact hmiss (this ▸ hj')
      rw [if_neg hold, if_neg this]

/-! ## The decoder -/

variable {idxs : List UInt32} {src : List (List Gf)} {buf : List Gf}

/-- What `fec_decode` is called with: `k` distinct packets of the code. -/
structure Selection (k n : Nat) (idxs : List UInt32) : Prop where
  length : idxs.length = k
  nodup : idxs.Nodup
  lt : ∀ x ∈ idxs, x.toNat < n

theorem idxAt_mem (hl : xs.length = k) {i : Nat} (hi : i < k) : xs.getD i 0 ∈ xs := by
  rw [List.getD_eq_getElem?_getD, List.getElem?_eq_getElem (hl ▸ hi), Option.getD_some]
  exact List.getElem_mem _

theorem idxAt_inj (hl : xs.length = k) (hnd : xs.Nodup) {i j : Nat} (hi : i < k) (hj : j < k)
    (h : idxAt xs i = idxAt xs j) : i = j := by
  have hx := UInt32.toNat_inj.mp h
  rw [List.getD_eq_getElem?_getD, List.getElem?_eq_getElem (hl ▸ hi), Option.getD_some,
    List.getD_eq_getElem?_getD, List.getElem?_eq_getElem (hl ▸ hj), Option.getD_some] at hx
  exact (hnd.getElem_inj_iff).mp hx

/-- The state in which `fec_decode` reaches its row loop. -/
structure Ready (k n : Nat) (idxs xs : List UInt32) (dec : List Gf)
    (m : Matrix (Fin k) (Fin k) Gf) : Prop where
  perm : xs.Perm idxs
  selection : Selection k n xs
  placed : ∀ j, j < k → Placed k xs j
  holds : Holds k dec m
  inverse : m * rows node k (fun r : Fin k => idxAt xs r) = 1

theorem Ready.lt {m : Matrix (Fin k) (Fin k) Gf} (h : Ready k n idxs xs dec m) {i : Nat}
    (hi : i < k) : idxAt xs i < n :=
  h.selection.lt _ (idxAt_mem h.selection.length hi)

/-- On distinct packets of the code both checks of `fec_decode` succeed. -/
theorem fecDecode_ready (hg : Generates fec k n) (hkn : k ≤ n) (hn : n ≤ 256)
    (hsel : Selection k n idxs) (buf : List Gf) (len : UInt32) :
    ∃ xs dec m, Ready k n idxs xs dec m ∧ fecDecode fec buf idxs len =
      forUp (rebuildRow fec dec xs len) k buf >>= fun pkts => .ok (1, pkts, xs) := by
  obtain ⟨⟨r, xs⟩, hs, hperm, hres⟩ := fecShuffle_ok (hsel.length.trans hg.toNat_k.symm)
  simp only [hg.toNat_k] at hperm hres
  have hxs : Selection k n xs :=
    ⟨hperm.length_eq.trans hsel.length, hperm.nodup_iff.mpr hsel.nodup,
      fun x hx => hsel.lt x (hperm.mem_iff.mp hx)⟩
  have hconf : ¬ Conflict k idxs := by
    rintro ⟨v, _, hv⟩
    have := List.nodup_iff_count_le_one.mp hsel.nodup v
    omega
  obtain ⟨rfl, hplaced⟩ := hres.resolve_right fun h => hconf h.2
  have hlt (i : Nat) (hi : i < k) : idxAt xs i < n := hxs.lt _ (idxAt_mem hxs.length hi)
  have hdet := det_rows_ne_zero (e := fun r : Fin k => idxAt xs r) (distinct_of_le hn) hkn
    (fun i => hlt i i.isLt)
    (fun i j h => Fin.ext (idxAt_inj hxs.length hxs.nodup i.isLt j.isLt h))
  rcases fecDecodeMatrix_ok hg (hkn.trans hn) hn hxs.length hlt with
    ⟨dec, m, hdec, hm, hinv⟩ | ⟨_, _, h0⟩
  · refine ⟨xs, dec, m, ⟨hperm, hxs, hplaced, hm, hinv⟩, ?_⟩
    have hsq : (fec.k * fec.k).toNat = k * k := by
      rw [toNat_mul_k hg (hkn.trans hn) (by rw [hg.toNat_k]; omega), hg.toNat_k]
    unfold fecDecode
    simp only [bind_of_ok hs, hsq, hg.toNat_k, bind_of_ok hdec, one_ne_zero, if_false]
  · exact absurd h0 hdet

/-- Inverting the rows of the received packets gives back the source packets. -/
theorem recover {m : Matrix (Fin k) (Fin k) Gf} (h : Ready k n idxs xs dec m) (b : Nat)
    (r : Fin k) :
    ∑ c ∈ Finset.range k, cell dec k r c * symbol src k (idxAt xs c) b
      = (packet src r).getD b 0 := by
  have hvec : ∑ c ∈ Finset.range k, cell dec k r c * symbol src k (idxAt xs c) b
      = (m * rows node k (fun r : Fin k => idxAt xs r)).mulVec
          (fun i : Fin k => (packet src i).getD b 0) r := by
    rw [Finset.sum_range, ← Matrix.mulVec_mulVec]
    exact Finset.sum_congr rfl fun c _ => by rw [h.holds.cell]; rfl
  rw [hvec, h.inverse, Matrix.one_mulVec]

/-- From any `k` packets of the code `fec_decode` rebuilds the source packets in their rows
and leaves the others as they are, where the offsets fit their types. -/
theorem fecDecode_ok (src : List (List Gf)) (buf : List Gf) (len : UInt32)
    (hg : Generates fec k n) (hkn : k ≤ n) (hn : n ≤ 256)
    (hsel : Selection k n idxs) (hbuf : buf.length = n * len.toNat)
    (hfit : (∀ x ∈ idxs, x.toNat < k) ∨
      (len.toNat < 2 ^ 31 ∧ ∀ x ∈ idxs, x.toNat * len.toNat < 2 ^ 32))
    (hrecv : ∀ x ∈ idxs, ∀ b, b < len.toNat →
      cell buf len.toNat x.toNat b = symbol src k x.toNat b) :
    ∃ buf' xs, fecDecode fec buf idxs len = .ok (1, buf', xs) ∧ buf'.length = buf.length ∧
      (∀ i b, i < k → b < len.toNat → cell buf' len.toNat i b = (packet src i).getD b 0) ∧
      ∀ j b, b < len.toNat → ((∃ x ∈ idxs, x.toNat = j) ∨ k ≤ j) →
        cell buf' len.toNat j b = cell buf len.toNat j b := by
  obtain ⟨xs, dec, m, hr, hrun⟩ := fecDecode_ready hg hkn hn hsel buf len
  have hmem (i : Nat) (hi : i < k) : xs.getD i 0 ∈ idxs :=
    hr.perm.mem_iff.mp (idxAt_mem hr.selection.length hi)
  have hfits (r : Nat) (hrk : r < k) (hmiss : k ≤ idxAt xs r) : Fits k xs len := by
    rcases hfit with hlow | ⟨hlen, hoff⟩
    · have := hlow _ (hmem r hrk)
      change idxAt xs r < k at this
      omega
    · exact ⟨hlen, fun c hc => hoff _ (hmem c hc)⟩
  obtain ⟨buf', hbuf', hl', hc⟩ := rebuildRows_ok hg (hkn.trans hn) hkn hr.selection.length
    (fun i hi => hr.lt hi) hr.holds.length hbuf hr.placed hfits
  refine ⟨buf', xs, by rw [hrun, bind_of_ok hbuf'], hl', fun i b hi hb => ?_, fun j b hb hj => ?_⟩
  · have hgot (c : Nat) (hck : c < k) :
        cell buf len.toNat (idxAt xs c) b = symbol src k (idxAt xs c) b :=
      hrecv _ (hmem c hck) b hb
    rw [hc i b hb]
    by_cases hmiss : k ≤ idxAt xs i
    · rw [if_pos ⟨hi, hmiss⟩, ← recover hr b ⟨i, hi⟩]
      exact Finset.sum_congr rfl fun c hck => by rw [hgot c (Finset.mem_range.mp hck)]
    · have heq : idxAt xs i = i := (hr.placed i hi).resolve_left hmiss
      have hsrc := hgot i hi
      rw [heq, symbol_source hkn hn hi] at hsrc
      rw [if_neg fun h => hmiss h.2, hsrc]
  · rw [hc j b hb, if_neg]
    rintro ⟨hjk, hmiss⟩
    rcases hj with ⟨x, hx, rfl⟩ | hge
    · obtain ⟨c, hck, hcx⟩ := List.mem_iff_getElem.mp (hr.perm.mem_iff.mpr hx)
      refine missing_ne hr.placed (hr.selection.length ▸ hck) hmiss hjk ?_
      rw [idxAt, List.getD_eq_getElem?_getD, List.getElem?_eq_getElem hck, Option.getD_some, hcx]
    · omega

end RtpSdr.Fec.Decode
