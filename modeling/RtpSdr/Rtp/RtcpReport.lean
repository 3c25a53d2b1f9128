import RtpSdr.Rtp.RtcpHeader

/-!
# Report blocks: `rtcp_report.c`

Twenty-four bytes for each source. The cumulative loss is a signed bit-field of 24
bits, the one field whose bytes are not those of its C type.
-/
namespace RtpSdr.Rtp.RtcpReport

open RtpSdr.Lib.Checked
open RtpSdr.Lib.Memory
open RtpSdr.Lib.BigEndian
open RtpSdr.Rtp.Util
open RtpSdr.Rtp.RtcpHeader

/-- `rtcp_report`; `lost` is the signed bit-field. -/
structure RtcpReportT where
  ssrc : UInt32
  fraction : UInt8
  lost : BitVec 24
  lastSeq : UInt32
  jitter : UInt32
  lsr : UInt32
  dlsr : UInt32
deriving DecidableEq, Repr

/-- `sizeof(rtcp_report)`. -/
def sizeofReport : Nat := 24

section Source

/-- A report with the bytes of `calloc`. -/
def zeroReport : RtcpReportT := ⟨0, 0, 0, 0, 0, 0, 0⟩

/-- The report goes to `buffer + off`. The result and the buffer afterwards. -/
def rtcpReportSerialize (report : RtcpReportT) (buffer : List UInt8) (off size : Nat) :
    Exec (Int × List UInt8) :=
  if size < 24 then .ok (RTCP_ERROR, buffer)
  else do
    let buffer ← writeU32 buffer off report.ssrc
    let buffer ← store buffer (off + 4) report.fraction
    let buffer ← writeS24S32 buffer (off + 5) (Int32.ofInt report.lost.toInt)
    let buffer ← writeU32 buffer (off + 8) report.lastSeq
    let buffer ← writeU32 buffer (off + 12) report.jitter
    let buffer ← writeU32 buffer (off + 16) report.lsr
    let buffer ← writeU32 buffer (off + 20) report.dlsr
    .ok (24, buffer)

/-- The report is read from `buffer + off`. The result and the report afterwards. -/
def rtcpReportParse (report : RtcpReportT) (buffer : List UInt8) (off size : Nat) :
    Exec (Int × RtcpReportT) :=
  if size < 24 then .ok (RTCP_ERROR, report)
  else do
    let ssrc ← readU32 buffer off
    let fraction ← load buffer (off + 4)
    let lost ← readS24 buffer (off + 5)
    let lastSeq ← readU32 buffer (off + 8)
    let jitter ← readU32 buffer (off + 12)
    let lsr ← readU32 buffer (off + 16)
    let dlsr ← readU32 buffer (off + 20)
    .ok (RTCP_OK, ⟨ssrc, fraction, BitVec.ofInt 24 lost.toInt, lastSeq, jitter, lsr, dlsr⟩)

end Source

/-- A report on the wire. -/
def reportBytes (report : RtcpReportT) : List UInt8 :=
  bytes 4 report.ssrc.toNat ++ [report.fraction] ++ bytes 3 report.lost.toNat
    ++ bytes 4 report.lastSeq.toNat ++ bytes 4 report.jitter.toNat ++ bytes 4 report.lsr.toNat
    ++ bytes 4 report.dlsr.toNat

@[simp] theorem length_reportBytes (report : RtcpReportT) : (reportBytes report).length = 24 := by
  simp [reportBytes]

variable {report : RtcpReportT} {xs rest : List UInt8} {off size : Nat}

/-! ## The signed field -/

/-- The lowest three bytes of the sign-extended field are the field. -/
theorem bytes_lost (lost : BitVec 24) :
    bytes 3 (Int32.ofInt lost.toInt).toUInt32.toNat = bytes 3 lost.toNat := by
  have hlt := lost.isLt
  have hval : (Int32.ofInt lost.toInt).toUInt32.toNat % 256 ^ 3 = lost.toNat := by
    change (BitVec.ofInt 32 lost.toInt).toNat % 256 ^ 3 = _
    rw [BitVec.toNat_ofInt, BitVec.toInt_eq_toNat_cond]
    split <;> omega
  rw [← bytes_mod 3 (Int32.ofInt lost.toInt).toUInt32.toNat, hval]

theorem readS24_drop (lost : BitVec 24) (h : xs.drop off = bytes 3 lost.toNat ++ rest) :
    ∃ v, readS24 xs off = .ok v ∧ BitVec.ofInt 24 v.toInt = lost := by
  have hlt := lost.isLt
  obtain ⟨u, hu, hval⟩ := readU24_drop hlt h
  rw [readS24, bind_of_ok hu]
  by_cases hpos : u < 0x800000
  · rw [if_pos hpos]
    refine ⟨_, rfl, ?_⟩
    have hpos' : u.toNat < 0x800000 := UInt32.lt_iff_toNat_lt.mp hpos
    have hint : u.toInt32.toInt = (lost.toNat : Int) := by
      change u.toBitVec.toInt = _
      rw [BitVec.toInt_eq_toNat_of_lt (by change 2 * u.toNat < _; omega)]
      exact congrArg Int.ofNat hval
    rw [hint, BitVec.ofInt_natCast, BitVec.ofNat_toNat, BitVec.setWidth_eq]
  · rw [if_neg hpos]
    refine ⟨_, rfl, ?_⟩
    have hneg : (0x800000 : UInt32).toNat ≤ u.toNat :=
      Nat.le_of_not_lt (mt UInt32.lt_iff_toNat_lt.mpr hpos)
    change 0x800000 ≤ u.toNat at hneg
    have hmag : ((~~~u &&& 0xffffff) + 1).toNat = 2 ^ 24 - lost.toNat := by
      rw [UInt32.toNat_add, UInt32.toNat_and, UInt32.toNat_not]
      change ((4294967295 - u.toNat &&& (2 ^ 24 - 1)) + 1) % 2 ^ 32 = _
      rw [and_mask]
      omega
    have hint : ((~~~u &&& 0xffffff) + 1).toInt32.toInt = 2 ^ 24 - (lost.toNat : Int) := by
      change ((~~~u &&& 0xffffff) + 1).toBitVec.toInt = _
      have hnat : ((~~~u &&& 0xffffff) + 1).toBitVec.toNat = 2 ^ 24 - lost.toNat := hmag
      rw [BitVec.toInt_eq_toNat_of_lt (by rw [hnat]; omega), hnat]
      omega
    rw [Int32.toInt_mul, hint, ← BitVec.toNat_inj, BitVec.toNat_ofInt,
      show (-1 : Int32).toInt = -1 from rfl, Int.bmod_eq_of_le_mul_two (by omega) (by omega)]
    omega

/-! ## The block -/

theorem rtcpReportSerialize_eq (xs : List UInt8) (off : Nat) (hsize : 24 ≤ size) :
    rtcpReportSerialize report xs off size = (do
      let buffer ← blit xs off (reportBytes report)
      .ok (24, buffer)) := by
  rw [rtcpReportSerialize, if_neg (by omega)]
  simp only [store_eq_blit, writeU32_eq, writeS24S32, writeU24_eq, bytes_lost]
  rw [blit_bind_blit _ _ _ _ (by simp), blit_bind_blit _ _ _ _ (by simp),
    blit_bind_blit _ _ _ _ (by simp), blit_bind_blit _ _ _ _ (by simp),
    blit_bind_blit _ _ _ _ (by simp), blit_bind_blit _ _ _ _ (by simp)]
  rfl

theorem rtcpReportParse_drop (report₀ : RtcpReportT) (hsize : 24 ≤ size)
    (h : xs.drop off = reportBytes report ++ rest) :
    rtcpReportParse report₀ xs off size = .ok (RTCP_OK, report) := by
  have d0 : xs.drop off = bytes 4 report.ssrc.toNat ++ (report.fraction ::
      (bytes 3 report.lost.toNat ++ (bytes 4 report.lastSeq.toNat ++ (bytes 4 report.jitter.toNat
        ++ (bytes 4 report.lsr.toNat ++ (bytes 4 report.dlsr.toNat ++ rest)))))) := by
    rw [h]
    simp [reportBytes]
  have d4 := drop_add _ d0
  have d5 := drop_cons d4
  have d8 := drop_add _ d5
  have d12 := drop_add _ d8
  have d16 := drop_add _ d12
  have d20 := drop_add _ d16
  simp only [length_bytes, Nat.add_assoc, Nat.reduceAdd] at d4 d5 d8 d12 d16 d20
  obtain ⟨lost, hlost, hval⟩ := readS24_drop _ d5
  rw [rtcpReportParse, if_neg (by omega), bind_of_ok (readU32_drop _ d0),
    bind_of_ok (load_drop d4), bind_of_ok hlost, bind_of_ok (readU32_drop _ d8),
    bind_of_ok (readU32_drop _ d12), bind_of_ok (readU32_drop _ d16),
    bind_of_ok (readU32_drop _ d20), hval]

/-- Twenty-four bytes are those of a report. -/
theorem exists_report (h : 24 ≤ xs.length) : ∃ report, xs = reportBytes report ++ xs.drop 24 := by
  obtain ⟨ws, hws, hxs⟩ := exists_words xs 1 (by omega)
  obtain ⟨vs, hvs, hys⟩ := exists_words (xs.drop 8) 4 (by rw [List.length_drop]; omega)
  have hmid : 4 ≤ (xs.drop 4).length := by
    rw [List.length_drop]
    omega
  match ws, hws, vs, hvs, hm : xs.drop 4, hmid with
  | [ssrc], _, [lastSeq, jitter, lsr, dlsr], _, fraction :: tail, hmid =>
    obtain ⟨n, hn, htail⟩ := exists_bytes (k := 3) tail (by simpa using hmid)
    have hrest : tail.drop 3 = xs.drop 8 := by
      rw [← drop_cons hm, List.drop_drop]
    have hlost : (BitVec.ofNat 24 n).toNat = n := by
      rw [BitVec.toNat_ofNat]
      exact Nat.mod_eq_of_lt hn
    refine ⟨⟨ssrc, fraction, BitVec.ofNat 24 n, lastSeq, jitter, lsr, dlsr⟩, ?_⟩
    rw [List.drop_drop] at hys
    rw [reportBytes, hlost]
    simp only [words, List.flatMap_cons, List.flatMap_nil, List.append_nil,
      List.append_assoc] at hys hxs
    simp only [List.append_assoc, List.cons_append, List.nil_append]
    rw [← hys, ← hrest, ← htail, ← hm]
    exact hxs

/-! ## Lists of reports -/

def reportsBytes (reports : List RtcpReportT) : List UInt8 := reports.flatMap reportBytes

@[simp] theorem reportsBytes_nil : reportsBytes [] = [] := rfl

theorem reportsBytes_concat (reports : List RtcpReportT) (report : RtcpReportT) :
    reportsBytes (reports ++ [report]) = reportsBytes reports ++ reportBytes report := by
  rw [reportsBytes, reportsBytes, List.flatMap_append, List.flatMap_singleton]

@[simp] theorem length_reportsBytes (reports : List RtcpReportT) :
    (reportsBytes reports).length = 24 * reports.length := by
  induction reports with
  | nil => rfl
  | cons r rs ih =>
    rw [reportsBytes, List.flatMap_cons, List.length_append, length_reportBytes, ← reportsBytes, ih,
      List.length_cons]
    omega

theorem exists_reports (xs : List UInt8) (n : Nat) (h : 24 * n ≤ xs.length) :
    ∃ reports, reports.length = n ∧ xs = reportsBytes reports ++ xs.drop (24 * n) := by
  induction n generalizing xs with
  | zero => exact ⟨[], rfl, by simp⟩
  | succ n ih =>
    obtain ⟨r, hr⟩ := exists_report (show 24 ≤ xs.length from by omega)
    obtain ⟨rs, hlen, hrs⟩ :=
      ih (xs.drop 24) (by rw [List.length_drop]; omega)
    refine ⟨r :: rs, by rw [List.length_cons, hlen], ?_⟩
    rw [List.drop_drop] at hrs
    rw [reportsBytes, List.flatMap_cons, ← reportsBytes, List.append_assoc, Nat.mul_succ,
      Nat.add_comm, ← hrs]
    exact hr

end RtpSdr.Rtp.RtcpReport
