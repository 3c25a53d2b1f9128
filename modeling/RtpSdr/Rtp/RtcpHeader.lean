import RtpSdr.Rtp.Util

/-!
# The RTCP header: `rtcp_header.c`

Four bytes that every RTCP packet begins with. Every four bytes are those of a
header, and a header is determined by its bytes.
-/
namespace RtpSdr.Rtp.RtcpHeader

open RtpSdr.Lib.Checked
open RtpSdr.Lib.Memory
open RtpSdr.Lib.BigEndian
open RtpSdr.Rtp.Util

def RTCP_OK : Int := 0
def RTCP_ERROR : Int := -1

def RTCP_SR : UInt8 := 200
def RTCP_RR : UInt8 := 201
def RTCP_SDES : UInt8 := 202

/-- `rtcp_header`, with the names of `common`. -/
structure RtcpHeaderT where
  version : BitVec 2
  p : BitVec 1
  count : BitVec 5
  pt : UInt8
  length : UInt16
deriving DecidableEq, Repr

section Source

/-- The first byte: version, padding flag and count. -/
def flags (header : RtcpHeaderT) : UInt8 :=
  UInt8.ofNat ((header.version.toNat <<< 6) ||| (header.p.toNat <<< 5) ||| header.count.toNat)

/-- The result and the buffer afterwards. -/
def rtcpHeaderSerialize (header : RtcpHeaderT) (buffer : List UInt8) (size : Nat) :
    Exec (Int × List UInt8) :=
  if size < 4 then .ok (RTCP_ERROR, buffer)
  else do
    let buffer ← store buffer 0 (flags header)
    let buffer ← store buffer 1 header.pt
    let buffer ← writeU16 buffer 2 header.length
    .ok (4, buffer)

/-- The result, the packet type or an error, and the header afterwards. -/
def rtcpHeaderParse (header : RtcpHeaderT) (buffer : List UInt8) (size : Nat) :
    Exec (Int × RtcpHeaderT) :=
  if size < 4 then .ok (RTCP_ERROR, header)
  else do
    let b0 ← load buffer 0
    let b1 ← load buffer 1
    let length ← readU16 buffer 2
    let header : RtcpHeaderT :=
      { version := BitVec.ofNat 2 ((b0 >>> 6) &&& 0x3).toNat
        p := BitVec.ofNat 1 ((b0 >>> 5) &&& 0x1).toNat
        count := BitVec.ofNat 5 (b0 &&& 0x1f).toNat
        pt := b1
        length := length }
    if header.version ≠ 2 then .ok (RTCP_ERROR, header)
    else .ok (header.pt.toNat, header)

end Source

/-- A header on the wire. -/
def headerBytes (header : RtcpHeaderT) : List UInt8 :=
  flags header :: header.pt :: bytes 2 header.length.toNat

@[simp] theorem length_headerBytes (header : RtcpHeaderT) : (headerBytes header).length = 4 := by
  simp [headerBytes]

variable {header : RtcpHeaderT} {buffer rest : List UInt8} {size : Nat}

theorem toNat_flags (header : RtcpHeaderT) :
    (flags header).toNat
      = header.version.toNat * 64 + header.p.toNat * 32 + header.count.toNat := by
  have hv := header.version.isLt
  have hp := header.p.isLt
  have hc := header.count.isLt
  rw [flags, UInt8.toNat_ofNat', Nat.shiftLeft_eq, Nat.shiftLeft_eq, or_eq_add (by omega),
    show header.version.toNat * 2 ^ 6 + header.p.toNat * 2 ^ 5
      = (header.version.toNat * 2 + header.p.toNat) * 2 ^ 5 from by omega, or_eq_add hc]
  omega

theorem rtcpHeaderSerialize_eq (buffer : List UInt8) (hsize : 4 ≤ size) :
    rtcpHeaderSerialize header buffer size = (do
      let buffer ← blit buffer 0 (headerBytes header)
      .ok (4, buffer)) := by
  rw [rtcpHeaderSerialize, if_neg (by omega)]
  simp only [store_eq_blit, writeU16_eq]
  rw [blit_bind_blit _ _ _ _ (by rfl), blit_bind_blit _ _ _ _ (by rfl)]
  rfl

/-- The bit-fields a first byte stands for. -/
theorem toNat_fields (b0 : UInt8) :
    ((b0 >>> 6) &&& 0x3).toNat = b0.toNat / 64 ∧ ((b0 >>> 5) &&& 0x1).toNat = b0.toNat / 32 % 2 ∧
      (b0 &&& 0x1f).toNat = b0.toNat % 32 := by
  have hb := b0.toNat_lt
  refine ⟨?_, ?_, ?_⟩
  · rw [UInt8.toNat_and, UInt8.toNat_shiftRight, Nat.shiftRight_eq_div_pow]
    change b0.toNat / 64 &&& (2 ^ 2 - 1) = _
    rw [and_mask]
    omega
  · rw [UInt8.toNat_and, UInt8.toNat_shiftRight, Nat.shiftRight_eq_div_pow]
    exact and_mask _ 1
  · rw [UInt8.toNat_and]
    exact and_mask _ 5

/-- A serialized header is read back. -/
theorem rtcpHeaderParse_drop (header₀ : RtcpHeaderT) (hsize : 4 ≤ size) (rest : List UInt8) :
    rtcpHeaderParse header₀ (headerBytes header ++ rest) size
      = .ok (if header.version ≠ 2 then RTCP_ERROR else header.pt.toNat, header) := by
  have hv := header.version.isLt
  have hp := header.p.isLt
  have hc := header.count.isLt
  have h0 : load (headerBytes header ++ rest) 0 = .ok (flags header) := rfl
  have h1 : load (headerBytes header ++ rest) 1 = .ok header.pt := rfl
  have h2 : readU16 (headerBytes header ++ rest) 2 = .ok header.length :=
    readU16_drop header.length (rfl : _ = _ ++ rest)
  obtain ⟨e0, e1, e2⟩ := toNat_fields (flags header)
  have hversion : BitVec.ofNat 2 ((flags header >>> 6) &&& 0x3).toNat = header.version := by
    rw [← BitVec.toNat_inj, e0, toNat_flags, BitVec.toNat_ofNat]
    omega
  have hpad : BitVec.ofNat 1 ((flags header >>> 5) &&& 0x1).toNat = header.p := by
    rw [← BitVec.toNat_inj, e1, toNat_flags, BitVec.toNat_ofNat]
    omega
  have hcount : BitVec.ofNat 5 (flags header &&& 0x1f).toNat = header.count := by
    rw [← BitVec.toNat_inj, e2, toNat_flags, BitVec.toNat_ofNat]
    omega
  rw [rtcpHeaderParse, if_neg (by omega), bind_of_ok h0, bind_of_ok h1, bind_of_ok h2, hversion,
    hpad, hcount]
  dsimp only
  split <;> rfl

theorem rtcpHeaderParse_ok (header₀ : RtcpHeaderT) (hsize : 4 ≤ size) (rest : List UInt8)
    (hv : header.version = 2) :
    rtcpHeaderParse header₀ (headerBytes header ++ rest) size = .ok (header.pt.toNat, header) := by
  rw [rtcpHeaderParse_drop header₀ hsize, if_neg (not_not.mpr hv)]

/-- Four bytes are those of a header. -/
theorem exists_header (buffer : List UInt8) (h : 4 ≤ buffer.length) :
    ∃ header, buffer = headerBytes header ++ buffer.drop 4 := by
  match buffer, h with
  | b0 :: b1 :: tail, h =>
    simp only [List.length_cons] at h
    obtain ⟨n, hn, htail⟩ := exists_bytes (k := 2) tail (by omega)
    have hval : (UInt16.ofNat n).toNat = n := by
      rw [UInt16.toNat_ofNat']
      exact Nat.mod_eq_of_lt hn
    refine ⟨⟨BitVec.ofNat 2 (b0.toNat / 64), BitVec.ofNat 1 (b0.toNat / 32),
      BitVec.ofNat 5 b0.toNat, b1, UInt16.ofNat n⟩, ?_⟩
    have hb := b0.toNat_lt
    have hflags : flags ⟨BitVec.ofNat 2 (b0.toNat / 64), BitVec.ofNat 1 (b0.toNat / 32),
        BitVec.ofNat 5 b0.toNat, b1, UInt16.ofNat n⟩ = b0 := by
      rw [← UInt8.toNat_inj, toNat_flags]
      simp only [BitVec.toNat_ofNat]
      omega
    rw [headerBytes, hflags]
    simp only [hval, List.cons_append, List.drop_succ_cons]
    rw [← htail]

/-- What the first four bytes of a buffer say. -/
theorem fields_of_headerBytes (h : buffer = headerBytes header ++ rest) :
    (buffer.getD 0 0).toNat
        = header.version.toNat * 64 + header.p.toNat * 32 + header.count.toNat ∧
      buffer.getD 1 0 = header.pt ∧ value ((buffer.drop 2).take 2) = header.length.toNat := by
  have hlt := header.length.toNat_lt
  rw [h]
  refine ⟨toNat_flags header, rfl, ?_⟩
  change value ((bytes 2 header.length.toNat ++ rest).take 2) = _
  rw [List.take_left' (length_bytes 2 _), value_bytes (by omega)]

/-! ## What a parser sees of the header -/

/-- The count of a buffer's header. -/
def countOf (buffer : List UInt8) : Nat := (buffer.getD 0 0).toNat % 32

/-- The bytes that a buffer's header declares. -/
def declared (buffer : List UInt8) : Nat := (value ((buffer.drop 2).take 2) + 1) * 4

/-- A buffer that is no packet of a type: too short for a header, or the header is not its. -/
def Refused (pt : UInt8) (buffer : List UInt8) : Prop :=
  buffer.length < 4 ∨ (buffer.getD 0 0).toNat / 64 ≠ 2 ∨ buffer.getD 1 0 ≠ pt

instance (pt : UInt8) (buffer : List UInt8) : Decidable (Refused pt buffer) :=
  inferInstanceAs (Decidable (_ ∨ _ ∨ _))

theorem rtcpHeaderParse_refused {pt : UInt8} (h : Refused pt buffer) (header₀ : RtcpHeaderT) :
    ∃ r header', rtcpHeaderParse header₀ buffer buffer.length = .ok (r, header') ∧
      r ≠ pt.toNat := by
  have herror : RTCP_ERROR ≠ (pt.toNat : Int) := fun he => by
    have hneg : RTCP_ERROR < 0 := by decide
    omega
  by_cases hshort : buffer.length < 4
  · exact ⟨RTCP_ERROR, header₀, by rw [rtcpHeaderParse, if_pos hshort], herror⟩
  · obtain ⟨header, hheader⟩ := exists_header buffer (by omega)
    obtain ⟨hflags, htype, -⟩ := fields_of_headerBytes hheader
    refine ⟨_, header, by rw [hheader]; exact rtcpHeaderParse_drop header₀ (by simp) _, ?_⟩
    by_cases hversion : header.version ≠ 2
    · rw [if_pos hversion]
      exact herror
    · have hp := header.p.isLt
      have hc := header.count.isLt
      rw [not_not.mp hversion] at hflags
      change _ = 2 * 64 + _ + _ at hflags
      rw [Refused, htype] at h
      rw [if_neg hversion]
      intro he
      have hpt : header.pt = pt := UInt8.toNat_inj.mp (Int.ofNat_inj.mp he)
      rcases h with h | h | h
      · exact hshort h
      · omega
      · exact h hpt

theorem rtcpHeaderParse_accepted {pt : UInt8} (h : ¬ Refused pt buffer) :
    ∃ header, buffer = headerBytes header ++ buffer.drop 4 ∧ header.version = 2 ∧
      header.pt = pt ∧ header.count.toNat = countOf buffer ∧
      (header.length.toNat + 1) * 4 = declared buffer ∧
      ∀ header₀ size, 4 ≤ size →
        rtcpHeaderParse header₀ buffer size = .ok (pt.toNat, header) := by
  rw [Refused, not_or, not_or, not_not, not_not] at h
  obtain ⟨hlen, hversion, hpt⟩ := h
  obtain ⟨header, hheader⟩ := exists_header buffer (by omega)
  obtain ⟨hflags, htype, hlength⟩ := fields_of_headerBytes hheader
  have hv := header.version.isLt
  have hp := header.p.isLt
  have hc := header.count.isLt
  have hversion' : header.version = 2 := by
    rw [← BitVec.toNat_inj]
    change header.version.toNat = 2
    omega
  rw [htype] at hpt
  refine ⟨header, hheader, hversion', hpt, ?_, by rw [declared, hlength], ?_⟩
  · rw [countOf]
    omega
  · intro header₀ size hsize
    rw [hheader, ← hpt]
    exact rtcpHeaderParse_ok header₀ hsize _ hversion'

/-- What follows a header has no part in it. -/
theorem rtcpHeaderParse_append (header₀ : RtcpHeaderT) (ys : List UInt8) {size' : Nat}
    (hsize : 4 ≤ size) (hsize' : 4 ≤ size') :
    Below (rtcpHeaderParse header₀ buffer size) (rtcpHeaderParse header₀ (buffer ++ ys) size') := by
  rw [rtcpHeaderParse, rtcpHeaderParse, if_neg (by omega), if_neg (by omega)]
  apply Below.bind (load_append 0 ys)
  intro b0
  apply Below.bind (load_append 1 ys)
  intro b1
  exact Below.bind (readU16_append 2 ys) fun length => Below.refl _

end RtpSdr.Rtp.RtcpHeader
