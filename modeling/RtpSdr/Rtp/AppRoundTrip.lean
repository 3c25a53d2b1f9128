import RtpSdr.Rtp.AppOutput

/-!
# The round trip of application packets

The length of the data goes over the wire only in words: what comes back is the data
with the zeros that fill its last word.
-/
namespace RtpSdr.Rtp.AppRoundTrip

open RtpSdr.Lib.Checked
open RtpSdr.Lib.Memory
open RtpSdr.Lib.BigEndian
open RtpSdr.Rtp.Util
open RtpSdr.Rtp.RtcpHeader
open RtpSdr.Rtp.App
open RtpSdr.Rtp.AppOutput
open RtpSdr.Rtp.Sdes (roundUp roundUp_spec)

/-- The zeros that fill the last word of `n` bytes. -/
def padding (n : Nat) : List UInt8 := List.replicate ((4 - n % 4) % 4) 0

/-- An initialised packet with its two words, before it gets data. -/
def addressed (subtype : UInt8) (ssrc name : UInt32) : RtcpApp :=
  { rtcpAppInit rtcpAppCreate subtype with ssrc := ssrc, name := name }

/-- The packet once the data is set. -/
def carrying (subtype : UInt8) (ssrc name : UInt32) (data : List UInt8) : RtcpApp :=
  (rtcpAppSetData (addressed subtype ssrc name) data).2

variable {packet : RtcpApp} {data : List UInt8}

theorem encode_eq (h : Block packet data) :
    encode packet data = fixedBytes packet ++ (data ++ padding data.length) := by
  have hround := roundUp_spec (12 + packet.appSize)
  rw [← need, h.appSize] at hround
  have hpad : need packet - (12 + data.length) = (4 - data.length % 4) % 4 := by omega
  rw [encode, padding, hpad, List.append_assoc]

/-- A packet whose header says its length is read back, its data filled up. -/
theorem rtcpAppParse_encode (packet₀ : RtcpApp) (h : Block packet data)
    (hversion : packet.header.version = 2) (hpt : packet.header.pt = RTCP_APP)
    (hlength : (packet.header.length.toNat + 1) * 4 = need packet) (hnull : packet₀.appSize = 0) :
    ∃ packet', rtcpAppParse packet₀ (encode packet data) (need packet) = .ok (RTCP_OK, packet') ∧
      packet'.header = packet.header ∧ packet'.ssrc = packet.ssrc ∧ packet'.name = packet.name ∧
      Block packet' (data ++ padding data.length) := by
  have hlen := length_encode h
  have hfixed := length_fixedBytes packet
  have hround := roundUp_spec (12 + packet.appSize)
  rw [← need, h.appSize] at hround
  have heq := encode_eq h
  have d0 : encode packet data = headerBytes packet.header ++ (bytes 4 packet.ssrc.toNat
      ++ (bytes 4 packet.name.toNat ++ (data ++ padding data.length))) := by
    rw [heq, fixedBytes]
    simp only [List.append_assoc]
  have d4 := drop_add _ (show (encode packet data).drop 0 = _ from d0)
  have d8 := drop_add _ d4
  have d12 := drop_add _ d8
  simp only [length_headerBytes, length_bytes, Nat.zero_add, Nat.reduceAdd] at d4 d8 d12
  have htail : (data ++ padding data.length).length = need packet - 12 := by
    rw [← d12, List.length_drop, hlen]
  have hheader := rtcpHeaderParse_ok packet₀.header (show 4 ≤ need packet by omega)
    (bytes 4 packet.ssrc.toNat ++ (bytes 4 packet.name.toNat ++ (data ++ padding data.length)))
    hversion
  rw [← d0] at hheader
  rw [rtcpAppParse, bind_of_ok hheader]
  dsimp only
  rw [if_neg (by rw [hpt]; exact fun hne => hne rfl), bind_of_ok (readU32_drop _ d4),
    bind_of_ok (readU32_drop _ d8), parseData]
  dsimp only
  rw [hlength]
  by_cases hdata : need packet > 12
  · have hsub : sizeSub (need packet) 12 = need packet - 12 :=
      sizeSub_of_le (by omega) (by have := packet.header.length.toNat_lt; omega)
    have hslice : slice (encode packet data) 12 (need packet - 12)
        = .ok (data ++ padding data.length) := by
      rw [slice_of_le (by omega), d12, ← htail, List.take_length]
    rw [if_pos hdata, hsub, bind_of_ok hslice]
    exact ⟨_, rfl, rfl, rfl, rfl, htail.symm, fun _ => rfl⟩
  · have hnil : data ++ padding data.length = [] :=
      List.eq_nil_of_length_eq_zero (by omega)
    rw [if_neg hdata, hnil]
    exact ⟨_, rfl, rfl, rfl, rfl, hnull, fun hne => absurd rfl hne⟩

/-- The packet before its header length is brought up to date. -/
def loaded (subtype : UInt8) (ssrc name : UInt32) (data : List UInt8) : RtcpApp :=
  { addressed subtype ssrc name with appSize := data.length, appData := .obj data }

theorem carrying_eq (subtype : UInt8) (ssrc name : UInt32) (data : List UInt8) :
    carrying subtype ssrc name data = withLength (loaded subtype ssrc name data)
      (UInt16.ofNat (sizeSub (rtcpAppSize (loaded subtype ssrc name data) / 4) 1)) := rfl

theorem carrying_block (subtype : UInt8) (ssrc name : UInt32) (data : List UInt8) :
    Block (carrying subtype ssrc name data) data := by
  rw [carrying_eq]
  exact block_withLength ⟨rfl, fun _ => rfl⟩ _

theorem need_carrying (subtype : UInt8) (ssrc name : UInt32) (data : List UInt8) :
    need (carrying subtype ssrc name data) = roundUp (12 + data.length) := by
  rw [need, (carrying_block subtype ssrc name data).appSize]

/-- The header of the packet says its length, which sixteen bits hold. -/
theorem length_carrying (subtype : UInt8) (ssrc name : UInt32)
    (hsize : roundUp (12 + data.length) ≤ 262144) :
    ((carrying subtype ssrc name data).header.length.toNat + 1) * 4
      = need (carrying subtype ssrc name data) := by
  have hround := roundUp_spec (12 + data.length)
  have hneed := need_carrying subtype ssrc name data
  have hbytes := rtcpAppSize_eq_need (carrying_block subtype ssrc name data) (by omega)
  rw [hneed] at hbytes ⊢
  rw [carrying_eq, size_withLength] at hbytes
  rw [carrying_eq, withLength_length, hbytes, sizeSub_of_le (by omega) (by omega),
    UInt16.toNat_ofNat']
  omega

theorem count_carrying {subtype : UInt8} (ssrc name : UInt32) (hsubtype : subtype.toNat ≤ 31) :
    (carrying subtype ssrc name data).header.count.toNat = subtype.toNat := by
  rw [carrying_eq]
  change (BitVec.ofNat 5 (subtype &&& 0x1f).toNat).toNat = _
  rw [UInt8.toNat_and, BitVec.toNat_ofNat]
  change (subtype.toNat &&& (2 ^ 5 - 1)) % 2 ^ 5 = _
  rw [and_mask]
  omega

/-- Whatever the buffer held, a packet with data comes back with the zeros of its last word. -/
theorem rtcpApp_roundTrips (subtype : UInt8) (ssrc name : UInt32) (data buffer : List UInt8)
    (hsubtype : subtype.toNat ≤ 31) (hsize : roundUp (12 + data.length) ≤ 262144)
    (hroom : rtcpAppSize (carrying subtype ssrc name data) ≤ buffer.length) :
    (rtcpAppSetData (addressed subtype ssrc name) data).1 = RTCP_OK ∧
    ∃ (n : Nat) (sent : List UInt8) (packet' : RtcpApp),
      rtcpAppSerialize (carrying subtype ssrc name data) buffer buffer.length = .ok (n, sent) ∧
      n = rtcpAppSize (carrying subtype ssrc name data) ∧
      rtcpAppParse rtcpAppCreate (sent.take n) n = .ok (RTCP_OK, packet') ∧
      packet'.header.count.toNat = subtype.toNat ∧ packet'.ssrc = ssrc ∧ packet'.name = name ∧
      Block packet' (data ++ padding data.length) := by
  have hblock := carrying_block subtype ssrc name data
  have hneed := need_carrying subtype ssrc name data
  have hbytes := rtcpAppSize_eq_need hblock (by omega)
  rw [hbytes] at hroom ⊢
  have hsent := rtcpAppSerialize_ok hblock hroom (by omega)
  rw [castInt_of_lt (by omega)] at hsent
  have hversion : (carrying subtype ssrc name data).header.version = 2 := by
    rw [carrying_eq, withLength_version]
    rfl
  have hpt : (carrying subtype ssrc name data).header.pt = RTCP_APP := by
    rw [carrying_eq, withLength_pt]
    rfl
  have hlength := length_carrying subtype ssrc name hsize
  obtain ⟨packet', hparse, hheader, hssrc, hname, hdata⟩ :=
    rtcpAppParse_encode rtcpAppCreate hblock hversion hpt hlength rfl
  rw [carrying_eq, withLength_ssrc] at hssrc
  rw [carrying_eq, withLength_name] at hname
  refine ⟨rfl, _, _, packet', hsent, rfl, ?_, ?_, hssrc, hname, hdata⟩
  · rw [List.take_left' (length_encode hblock)]
    exact hparse
  · rw [hheader]
    exact count_carrying ssrc name hsubtype

/-- Three bytes of data in a buffer of ones. -/
theorem rtcpApp_roundTrips_three :
    (rtcpAppSetData (addressed 5 7 9) [1, 2, 3]).1 = RTCP_OK ∧
    ∃ (n : Nat) (sent : List UInt8) (packet' : RtcpApp),
      rtcpAppSerialize (carrying 5 7 9 [1, 2, 3]) (List.replicate 20 1)
        (List.replicate 20 (1 : UInt8)).length = .ok (n, sent) ∧
      n = rtcpAppSize (carrying 5 7 9 [1, 2, 3]) ∧
      rtcpAppParse rtcpAppCreate (sent.take n) n = .ok (RTCP_OK, packet') ∧
      packet'.header.count.toNat = (5 : UInt8).toNat ∧ packet'.ssrc = 7 ∧ packet'.name = 9 ∧
      Block packet' ([1, 2, 3] ++ padding 3) :=
  rtcpApp_roundTrips 5 7 9 [1, 2, 3] (List.replicate 20 1) (by decide) (by decide)
    (by rw [rtcpAppSize_eq_need (carrying_block _ _ _ _) (by decide)]; decide)

end RtpSdr.Rtp.AppRoundTrip
