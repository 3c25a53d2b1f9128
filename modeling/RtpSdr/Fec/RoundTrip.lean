import RtpSdr.Fec.Decode

/-!
# When `fec_decode` undoes `fec_encode`

The lengths are `unsigned int` in the interface, but `gf_add_mul` takes an `int`,
and the row offsets are products of two `unsigned int`. Where parity is needed,
the packets come back exactly for lengths and offsets within these types. Beyond
them the decoder reads and writes other rows than the received ones.
-/
namespace RtpSdr.Fec.RoundTrip

open RtpSdr.Lib.Checked
open RtpSdr.Lib.Memory
open RtpSdr.Lib.SystematicCode
open RtpSdr.Fec.Galois
open RtpSdr.Fec.Field
open RtpSdr.Fec.Matrix
open RtpSdr.Fec.MatrixInv
open RtpSdr.Fec.Code
open RtpSdr.Fec.Shuffle
open RtpSdr.Fec.Decode

/-- Row `j` of a buffer of packets of `len` bytes. -/
def row (buf : List Gf) (len j : Nat) : List Gf := (buf.drop (j * len)).take len

/-- Row `j` of the buffer is what `fec_encode` writes for packet `j`. -/
def Received (fec : FecT) (src : List (List Gf)) (buf : List Gf) (len j : UInt32) : Prop :=
  ∃ dst, dst.length = len.toNat ∧
    fecEncode fec src dst j len = .ok (row buf len.toNat j.toNat)

/-- Any `k` source packets survive the loss of all packets but those of `idxs`. -/
def ErasureRoundTrip (k n len : UInt32) (idxs : List UInt32) : Prop :=
  ∃ fec, fecNew k n = .ok fec ∧ ∀ (src : List (List Gf)) (buf : List Gf),
    src.length = k.toNat → (∀ pkt ∈ src, pkt.length = len.toNat) →
    buf.length = n.toNat * len.toNat → (∀ j ∈ idxs, Received fec src buf len j) →
    ∃ buf' idxs', fecDecode fec buf idxs len = .ok (1, buf', idxs') ∧
      buf'.length = buf.length ∧
      (∀ i, i < k.toNat → row buf' len.toNat i = packet src i) ∧
      ∀ j, j < n.toNat → ((∃ x ∈ idxs, x.toNat = j) ∨ k.toNat ≤ j) →
        row buf' len.toNat j = row buf len.toNat j

/-- The lengths and offsets that the types can carry. -/
def WithinTypes (k len : UInt32) (idxs : List UInt32) : Prop :=
  (∀ x ∈ idxs, x.toNat < k.toNat) ∨
    (len.toNat < 2 ^ 31 ∧ ∀ x ∈ idxs, x.toNat * len.toNat < 2 ^ 32)

/-! ## Rows and cells -/

variable {buf buf' : List Gf} {n L : Nat}

theorem length_row (hbuf : buf.length = n * L) {j : Nat} (hj : j < n) :
    (row buf L j).length = L := by
  have := row_end_le (k := L) hj
  rw [row, List.length_take, List.length_drop]
  omega

theorem getD_row (buf : List Gf) (j : Nat) {b : Nat} (hb : b < L) :
    (row buf L j).getD b 0 = cell buf L j b := by
  rw [row, cell, List.getD_eq_getElem?_getD, List.getElem?_take, if_pos hb, List.getElem?_drop,
    List.getD_eq_getElem?_getD]

theorem row_eq (hbuf : buf.length = n * L) {j : Nat} (hj : j < n) {xs : List Gf}
    (hl : xs.length = L) : row buf L j = xs ↔ ∀ b, b < L → cell buf L j b = xs.getD b 0 := by
  constructor
  · rintro rfl b hb
    rw [getD_row buf j hb]
  · intro h
    refine ext_getD 0 ((length_row hbuf hj).trans hl.symm) fun b hb => ?_
    rw [length_row hbuf hj] at hb
    rw [getD_row buf j hb, h b hb]

/-! ## What the encoder puts into a row -/

variable {fec : FecT} {k : Nat} {src : List (List Gf)} {len idx : UInt32}

theorem length_packet (hsrc : src.length = k) (hpkt : ∀ pkt ∈ src, pkt.length = len.toNat) {i : Nat}
    (hi : i < k) : (packet src i).length = len.toNat := by
  rw [packet, List.getD_eq_getElem?_getD, List.getElem?_eq_getElem (hsrc ▸ hi), Option.getD_some]
  exact hpkt _ (List.getElem_mem _)

theorem received_iff (hg : Generates fec k n) (hkn : k ≤ n) (hn : n ≤ 256) (hsrc : src.length = k)
    (hpkt : ∀ pkt ∈ src, pkt.length = len.toNat) (hbuf : buf.length = n * len.toNat)
    (hidx : idx.toNat < n) :
    Received fec src buf len idx ↔ ∀ b, b < len.toNat → cell buf len.toNat idx.toNat b =
      if idx.toNat < k ∨ len.toNat < 2 ^ 31 then symbol src k idx.toNat b else 0 := by
  have hpl (i : Nat) (hi : i < k) := length_packet hsrc hpkt hi
  by_cases hi : idx.toNat < k
  · have hrow := row_eq hbuf hidx (hpl _ hi)
    simp only [hi, true_or, if_true, symbol_source hkn hn hi]
    rw [← hrow]
    constructor
    · rintro ⟨dst, hdst, h⟩
      rw [fecEncode_source hg hi hsrc (hpl _ hi) hdst] at h
      exact (Except.ok.inj h).symm
    · intro h
      exact ⟨List.replicate len.toNat 0, List.length_replicate,
        h ▸ fecEncode_source hg hi hsrc (hpl _ hi) List.length_replicate⟩
  · simp only [hi, false_or]
    constructor
    · rintro ⟨dst, hdst, h⟩ b hb
      obtain ⟨out, hout, hl, hc⟩ :=
        fecEncode_parity src dst idx len hg (hkn.trans hn) hn (Nat.le_of_not_lt hi) hidx hsrc hpl
          hdst
      rw [hout] at h
      rw [(row_eq hbuf hidx hl).mp (Except.ok.inj h).symm b hb, hc b hb]
    · intro h
      obtain ⟨out, hout, hl, hc⟩ := fecEncode_parity src (List.replicate len.toNat 0) idx
        len hg (hkn.trans hn) hn (Nat.le_of_not_lt hi) hidx hsrc hpl List.length_replicate
      refine ⟨_, List.length_replicate, hout.trans (congrArg _ ?_)⟩
      exact ((row_eq hbuf hidx hl).mpr fun b hb => (h b hb).trans (hc b hb).symm).symm

/-! ## Beyond the types -/

/-- Adding multiples of zeros to zeros. -/
theorem gfAddMul_still {srcAt : List Gf → Nat → Exec Gf} {off : Nat} {c : Gf} {w : Int}
    {mem : List Gf} (hoff : off + w.toNat ≤ mem.length)
    (hz : ∀ j, j < w.toNat → mem.getD (off + j) 0 = 0)
    (hs : ∀ j, j < w.toNat → srcAt mem j = .ok 0) : gfAddMul srcAt off c w mem = .ok mem := by
  refine forUp_eq (fun _ => mem) _ fun j hj => ?_
  have hlt : off + j < mem.length := by omega
  have hx : load mem (off + j) = .ok 0 := by rw [load_of_lt 0 hlt, hz j hj]
  rw [bind_of_ok hx, bind_of_ok (hs j hj), store_of_lt _ hlt]
  refine congrArg _ (ext_getD 0 List.length_set fun i _ => ?_)
  rw [getD_set hlt]
  by_cases hi : off + j = i
  · rw [if_pos hi, ← hi, hz j hj, GF_ADD_eq_add, GF_MUL_eq_mul, mul_zero, add_zero]
  · rw [if_neg hi]

/-- An offset that wraps is a smaller one. -/
theorem toNat_mul_le (x w : UInt32) : (x * w).toNat ≤ x.toNat * w.toNat := by
  rw [UInt32.toNat_mul]
  exact Nat.mod_le _ _

theorem toNat_ofNat_mul_le (r : Nat) (w : UInt32) :
    (UInt32.ofNat r * w).toNat ≤ r * w.toNat ∧ (UInt32.ofNat r * w).toNat < 2 ^ 32 := by
  refine ⟨?_, UInt32.toNat_lt _⟩
  have hle : (UInt32.ofNat r).toNat ≤ r := UInt32.toNat_ofNat' ▸ Nat.mod_le _ _
  exact (toNat_mul_le _ w).trans (Nat.mul_le_mul_right _ hle)

theorem toNat_toInt_le (w : UInt32) : (toInt w).toNat ≤ w.toNat := by
  by_cases h : w.toNat < 2 ^ 31
  · rw [toInt_of_lt h, Int.toNat_natCast]
  · rw [toNat_toInt_of_le (Nat.le_of_not_lt h)]
    exact Nat.zero_le _

/-- Offsets below `2 ^ 32` reach no byte from `2 ^ 32 + len - 1` on: with zeros before it
the row loop changes nothing. -/
theorem rebuildRows_still {xs : List UInt32} {dec : List Gf} (hg : Generates fec k n)
    (hk : k ≤ 256) (hkn : k ≤ n) (hl : xs.length = k) (hlt : ∀ i, i < k → idxAt xs i < n)
    (hdec : dec.length = k * k) (hbuf : buf.length = n * len.toNat)
    (hz : ∀ p, p + 1 < 2 ^ 32 + len.toNat → buf.getD p 0 = 0) :
    forUp (rebuildRow fec dec xs len) k buf = .ok buf := by
  refine forUp_eq (fun _ => buf) k fun r hr => ?_
  unfold rebuildRow
  rw [bind_of_ok (load_idx hl hr)]
  split
  · obtain ⟨hle, hoff⟩ := toNat_ofNat_mul_le r len
    have hend := row_end_le (k := len.toNat) (hr.trans_le hkn)
    have hdst : (UInt32.ofNat r * len).toNat + len.toNat ≤ buf.length := by omega
    have hw := toNat_toInt_le len
    have hput : put buf (UInt32.ofNat r * len).toNat (List.replicate len.toNat 0) = buf := by
      refine ext_getD 0 (length_put (by simpa using hdst)) fun p _ => ?_
      rw [getD_put (by simpa using hdst), List.length_replicate]
      by_cases hp : (UInt32.ofNat r * len).toNat ≤ p ∧ p < (UInt32.ofNat r * len).toNat + len.toNat
      · rw [if_pos hp, getD_replicate (by omega), hz p (by omega)]
      · rw [if_neg hp]
    rw [bind_of_ok (blit_of_le (by simpa using hdst)), hput, hg.toNat_k]
    refine forUp_eq (fun _ => buf) k fun c hc => ?_
    rw [bind_of_ok (load_idx hl hc), bind_of_ok (load_dec hg hk hdec hr hc)]
    refine gfAddMul_still (by omega) (fun j hj => hz _ (by omega)) fun j hj => ?_
    have hcend := row_end_le (k := len.toNat) (hlt c hc)
    have hcoff : (xs.getD c 0 * len).toNat ≤ idxAt xs c * len.toNat := toNat_mul_le _ len
    have hclt := (xs.getD c 0 * len).toNat_lt
    rw [load_of_lt 0 (by omega), hz _ (by omega)]
  · rfl

/-! ## Within the types -/

section Bounds

variable {kw nw : UInt32} {idxs : List UInt32}

theorem erasureRoundTrip_of_withinTypes (hk : 1 ≤ kw.toNat) (hkn : kw.toNat ≤ nw.toNat)
    (hn : nw.toNat ≤ 256) (hsel : Selection kw.toNat nw.toNat idxs)
    (h : WithinTypes kw len idxs) : ErasureRoundTrip kw nw len idxs := by
  obtain ⟨fec, hfec, _, _, hg⟩ := fecNew_ok hk hkn hn
  refine ⟨fec, hfec, fun src buf hsrc hpkt hbuf hrecv => ?_⟩
  have hcells : ∀ x ∈ idxs, ∀ b, b < len.toNat →
      cell buf len.toNat x.toNat b = symbol src kw.toNat x.toNat b := by
    intro x hx b hb
    have hok : x.toNat < kw.toNat ∨ len.toNat < 2 ^ 31 := h.imp (fun hlow => hlow x hx) And.left
    rw [(received_iff hg hkn hn hsrc hpkt hbuf (hsel.lt x hx)).mp (hrecv x hx) b hb, if_pos hok]
  obtain ⟨buf', xs, hrun, hl, hsource, hsame⟩ :=
    fecDecode_ok src buf len hg hkn hn hsel hbuf h hcells
  have hbuf' := hl.trans hbuf
  refine ⟨buf', xs, hrun, hl, fun i hi => ?_, fun j hj hkeep => ?_⟩
  · exact (row_eq hbuf' (by omega) (length_packet hsrc hpkt hi)).mpr fun b hb => hsource i b hi hb
  · refine (row_eq hbuf' hj (length_row hbuf hj)).mpr fun b hb => ?_
    rw [hsame j b hb hkeep, getD_row buf j hb]

/-- A message the decoder misses: its parity lies where no offset reaches. -/
theorem not_erasureRoundTrip (hk : 1 ≤ kw.toNat) (hkn : kw.toNat ≤ nw.toNat)
    (hn : nw.toNat ≤ 256) (hsel : Selection kw.toNat nw.toNat idxs)
    (src : List (List Gf)) (buf : List Gf) (hsrc : src.length = kw.toNat)
    (hpkt : ∀ pkt ∈ src, pkt.length = len.toNat) (hbuf : buf.length = nw.toNat * len.toNat)
    (hz : ∀ p, p + 1 < 2 ^ 32 + len.toNat → buf.getD p 0 = 0)
    (hrecv : ∀ x ∈ idxs, ∀ b, b < len.toNat → cell buf len.toNat x.toNat b =
      if x.toNat < kw.toNat ∨ len.toNat < 2 ^ 31 then symbol src kw.toNat x.toNat b else 0)
    {r b : Nat} (hr : r < kw.toNat) (hb : b < len.toNat)
    (hne : (packet src r).getD b 0 ≠ cell buf len.toNat r b) :
    ¬ ErasureRoundTrip kw nw len idxs := by
  rintro ⟨fec, hfec, hall⟩
  obtain ⟨fec', hfec', _, _, hg⟩ := fecNew_ok hk hkn hn
  rw [hfec] at hfec'
  obtain rfl := Except.ok.inj hfec'
  obtain ⟨xs, dec, m, hready, hrun⟩ := fecDecode_ready hg hkn hn hsel buf len
  obtain ⟨buf', xs', hdec, _, hsource, _⟩ := hall src buf hsrc hpkt hbuf fun x hx =>
    (received_iff hg hkn hn hsrc hpkt hbuf (hsel.lt x hx)).mpr (hrecv x hx)
  rw [hrun, bind_of_ok (rebuildRows_still hg (hkn.trans hn) hkn hready.selection.length
    (fun i hi => hready.lt hi) hready.holds.length hbuf hz)] at hdec
  obtain rfl : buf = buf' := congrArg (·.2.1) (Except.ok.inj hdec)
  exact hne (by rw [← hsource r hr, getD_row buf r hb])

/-- A packet of parity among the received ones leaves a source packet missing. -/
theorem exists_missing {xs : List UInt32} {dec : List Gf} {m : Matrix (Fin k) (Fin k) Gf}
    (h : Ready k n idxs xs dec m) {x : UInt32} (hx : x ∈ idxs) (hxk : k ≤ x.toNat) :
    ∃ r, r < k ∧ ∀ c, c < k → idxAt xs c ≠ r := by
  obtain ⟨r, hr, hrx⟩ := List.mem_iff_getElem.mp (h.perm.mem_iff.mpr hx)
  have hrk : r < k := h.selection.length ▸ hr
  have hat : idxAt xs r = x.toNat := by
    rw [idxAt, List.getD_eq_getElem?_getD, List.getElem?_eq_getElem hr, Option.getD_some, hrx]
  exact ⟨r, hrk, fun c hc => missing_ne h.placed hc (hat ▸ hxk) hrk⟩

theorem exists_idxAt {xs : List UInt32} {dec : List Gf} {m : Matrix (Fin k) (Fin k) Gf}
    (h : Ready k n idxs xs dec m) {x : UInt32} (hx : x ∈ idxs) :
    ∃ c, c < k ∧ idxAt xs c = x.toNat := by
  obtain ⟨c, hc, hcx⟩ := List.mem_iff_getElem.mp (h.perm.mem_iff.mpr hx)
  refine ⟨c, h.selection.length ▸ hc, ?_⟩
  rw [idxAt, List.getD_eq_getElem?_getD, List.getElem?_eq_getElem hc, Option.getD_some, hcx]

/-- The source packets that are zero but for the last byte of each. -/
def lastBytes (k len : Nat) (v : Nat → Gf) : List (List Gf) :=
  (List.range k).map fun i => (List.replicate len 0).set (len - 1) (v i)

theorem length_lastBytes (k L : Nat) (v : Nat → Gf) : (lastBytes k L v).length = k := by
  rw [lastBytes, List.length_map, List.length_range]

theorem length_of_mem_lastBytes {v : Nat → Gf} {pkt : List Gf} (h : pkt ∈ lastBytes k L v) :
    pkt.length = L := by
  obtain ⟨i, _, rfl⟩ := List.mem_map.mp h
  rw [List.length_set, List.length_replicate]

theorem getD_lastBytes (v : Nat → Gf) (hL : 0 < L) {i : Nat} (hi : i < k) (b : Nat) :
    (packet (lastBytes k L v) i).getD b 0 = if L - 1 = b then v i else 0 := by
  have hp : packet (lastBytes k L v) i = (List.replicate L 0).set (L - 1) (v i) :=
    getD_map_range _ _ hi
  rw [hp, getD_set (by rw [List.length_replicate]; omega), getD_replicate_default]

/-- A length that is negative as an `int`: all parity is zero. -/
theorem not_erasureRoundTrip_of_length (hk : 1 ≤ kw.toNat) (hkn : kw.toNat ≤ nw.toNat)
    (hn : nw.toNat ≤ 256) (hsel : Selection kw.toNat nw.toNat idxs) {x : UInt32} (hx : x ∈ idxs)
    (hxk : kw.toNat ≤ x.toNat) (hlen : 2 ^ 31 ≤ len.toNat) :
    ¬ ErasureRoundTrip kw nw len idxs := by
  obtain ⟨fec, _, _, _, hg⟩ := fecNew_ok hk hkn hn
  obtain ⟨xs, dec, m, hready, _⟩ := fecDecode_ready hg hkn hn hsel [] len
  obtain ⟨r, hr, hmiss⟩ := exists_missing hready hx hxk
  have hL : 0 < len.toNat := by omega
  refine not_erasureRoundTrip (r := r) (b := len.toNat - 1) hk hkn hn hsel
    (lastBytes kw.toNat len.toNat fun i => if i = r then 1 else 0)
    (List.replicate (nw.toNat * len.toNat) 0) (length_lastBytes _ _ _)
    (fun pkt => length_of_mem_lastBytes) List.length_replicate
    (fun p _ => getD_replicate_default _ _ _) (fun y hy b hb => ?_) hr (by omega) ?_
  · rw [cell, getD_replicate_default]
    by_cases hyk : y.toNat < kw.toNat
    · obtain ⟨c, hc, hcy⟩ := exists_idxAt hready hy
      have hyr : y.toNat ≠ r := hcy ▸ hmiss c hc
      rw [if_pos (Or.inl hyk), symbol_source hkn hn hyk, getD_lastBytes _ hL hyk]
      simp only [hyr, if_false, ite_self]
    · rw [if_neg (by omega)]
  · rw [getD_lastBytes _ hL hr, if_pos rfl, if_pos rfl, cell, getD_replicate_default]
    exact one_ne_zero

/-- A row whose offset wraps: the message whose only parity is at the end of that row. -/
theorem not_erasureRoundTrip_of_offset (hk : 1 ≤ kw.toNat) (hkn : kw.toNat ≤ nw.toNat)
    (hn : nw.toNat ≤ 256) (hsel : Selection kw.toNat nw.toNat idxs) {x y : UInt32} (hx : x ∈ idxs)
    (hxk : kw.toNat ≤ x.toNat) (hy : y ∈ idxs) (hwrap : 2 ^ 32 ≤ y.toNat * len.toNat)
    (hlen : len.toNat < 2 ^ 31) : ¬ ErasureRoundTrip kw nw len idxs := by
  obtain ⟨fec, _, _, _, hg⟩ := fecNew_ok hk hkn hn
  obtain ⟨xs, dec, m, hready, _⟩ := fecDecode_ready hg hkn hn hsel [] len
  obtain ⟨r, hr, hmiss⟩ := exists_missing hready hx hxk
  obtain ⟨c, hc, hcy⟩ := exists_idxAt hready hy
  rw [← hcy] at hwrap
  have hL : 0 < len.toNat := by
    refine Nat.pos_of_ne_zero fun h => ?_
    rw [h, Nat.mul_zero] at hwrap
    omega
  have hlast : idxAt xs c * len.toNat + (len.toNat - 1)
      < (List.replicate (nw.toNat * len.toNat) (0 : Gf)).length := by
    rw [List.length_replicate]
    exact index_lt (hready.lt hc) (by omega)
  have hcell (j b : Nat) (hb : b < len.toNat) : cell ((List.replicate (nw.toNat * len.toNat) 0).set
      (idxAt xs c * len.toNat + (len.toNat - 1)) 1) len.toNat j b
        = if j = idxAt xs c ∧ b = len.toNat - 1 then 1 else 0 := by
    rw [cell_set 1 hlast (by omega) hb, cell, getD_replicate_default]
  refine not_erasureRoundTrip (r := r) (b := len.toNat - 1) hk hkn hn hsel
    (lastBytes kw.toNat len.toNat fun i => cell dec kw.toNat i c)
    ((List.replicate (nw.toNat * len.toNat) 0).set
      (idxAt xs c * len.toNat + (len.toNat - 1)) 1) (length_lastBytes _ _ _)
    (fun pkt => length_of_mem_lastBytes) (by rw [List.length_set, List.length_replicate])
    (fun p hp => ?_) (fun z hz b hb => ?_) hr (by omega) ?_
  · rw [getD_set hlast, if_neg (by omega), getD_replicate_default]
  · obtain ⟨q, hq, hqz⟩ := exists_idxAt hready hz
    rw [hcell _ b hb, if_pos (Or.inr hlen), ← hqz]
    by_cases hb' : len.toNat - 1 = b
    · have hone : symbol (lastBytes kw.toNat len.toNat fun i => cell dec kw.toNat i c) kw.toNat
          (idxAt xs q) b = (1 : Matrix (Fin kw.toNat) (Fin kw.toNat) Gf) ⟨q, hq⟩ ⟨c, hc⟩ := by
        rw [← mul_eq_one_comm.mp hready.inverse, Matrix.mul_apply]
        refine Finset.sum_congr rfl fun i _ => ?_
        rw [getD_lastBytes _ hL i.isLt, if_pos hb', ← hready.holds.cell, rows_eq_generator]
      rw [hone, Matrix.one_apply]
      simp only [Fin.mk.injEq, hb'.symm, and_true]
      by_cases hqc : q = c
      · rw [if_pos hqc, if_pos (congrArg _ hqc)]
      · rw [if_neg hqc, if_neg fun e => hqc
          (idxAt_inj hready.selection.length hready.selection.nodup hq hc e)]
    · rw [if_neg fun h => hb' h.2.symm, symbol]
      exact (Finset.sum_eq_zero fun i _ => by
        rw [getD_lastBytes _ hL i.isLt, if_neg hb', mul_zero]).symm
  · rw [getD_lastBytes _ hL hr, if_pos rfl, hcell r _ (by omega),
      if_neg fun h => hmiss c hc h.1.symm]
    have hne := decode_ne_zero (e := fun r : Fin kw.toNat => idxAt xs r) (distinct_of_le hn) hkn
      (fun i => hready.lt i.isLt) (fun i j h => Fin.ext
        (idxAt_inj hready.selection.length hready.selection.nodup i.isLt j.isLt h))
      hready.inverse (r := ⟨r, hr⟩) (fun i => hmiss i i.isLt) ⟨c, hc⟩
    rwa [← hready.holds.cell] at hne

end Bounds

/-- The packets come back exactly within the types. -/
theorem erasureRoundTrip_iff {k n len : UInt32} {idxs : List UInt32} (hk : 1 ≤ k.toNat)
    (hkn : k.toNat ≤ n.toNat) (hn : n.toNat ≤ 256) (hl : idxs.length = k.toNat)
    (hnd : idxs.Nodup) (hlt : ∀ x ∈ idxs, x.toNat < n.toNat) :
    ErasureRoundTrip k n len idxs ↔ WithinTypes k len idxs := by
  refine ⟨fun h => ?_, erasureRoundTrip_of_withinTypes hk hkn hn ⟨hl, hnd, hlt⟩⟩
  by_contra hnot
  obtain ⟨hlow, hwide⟩ := not_or.mp hnot
  obtain ⟨x, hx⟩ := not_forall.mp hlow
  obtain ⟨hx, hxk⟩ := Classical.not_imp.mp hx
  by_cases hlen : len.toNat < 2 ^ 31
  · obtain ⟨y, hy⟩ := not_forall.mp fun hall => hwide ⟨hlen, hall⟩
    obtain ⟨hy, hwrap⟩ := Classical.not_imp.mp hy
    exact not_erasureRoundTrip_of_offset hk hkn hn ⟨hl, hnd, hlt⟩ hx (Nat.le_of_not_lt hxk) hy
      (Nat.le_of_not_lt hwrap) hlen h
  · exact not_erasureRoundTrip_of_length hk hkn hn ⟨hl, hnd, hlt⟩ hx (Nat.le_of_not_lt hxk)
      (Nat.le_of_not_lt hlen) h

theorem erasureRoundTrip_short : ErasureRoundTrip 4 8 4 [3, 5, 1, 0] :=
  (erasureRoundTrip_iff (by decide) (by decide) (by decide) (by decide) (by decide)
    (by simp)).mpr (.inr (by simp))

/-- Two packets of 2 GiB, the first lost: the parity is all zero. -/
theorem erasureRoundTrip_fails : ¬ ∀ (k n len : UInt32) (idxs : List UInt32), 1 ≤ k.toNat →
    k.toNat ≤ n.toNat → n.toNat ≤ 256 → idxs.length = k.toNat → idxs.Nodup →
    (∀ x ∈ idxs, x.toNat < n.toNat) → ErasureRoundTrip k n len idxs := fun h =>
  not_erasureRoundTrip_of_length (x := 1)
    (by decide) (by decide) (by decide) ⟨by decide, by decide, by simp⟩ (by decide)
    (by decide) (by decide) (h 1 2 2147483648 [1] (by decide) (by decide) (by decide) (by decide)
      (by decide) (by simp))

end RtpSdr.Fec.RoundTrip
