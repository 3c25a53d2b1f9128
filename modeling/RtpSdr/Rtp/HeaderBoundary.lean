import RtpSdr.Rtp.HeaderAccept
import RtpSdr.Rtp.Packet

/-!
# Where a parsed header ends

The parser reads an extension wherever the flag is set. `rtp_header_size` counts
it only if it has words, so a header whose extension is empty is four bytes longer
in the buffer than its size, and the payload of the packet begins inside it.
-/
namespace RtpSdr.Rtp.HeaderBoundary

open RtpSdr.Lib.Checked
open RtpSdr.Lib.Memory
open RtpSdr.Lib.BigEndian
open RtpSdr.Rtp.Util
open RtpSdr.Rtp.Header
open RtpSdr.Rtp.HeaderAccept
open RtpSdr.Rtp.Packet

/-- The header bytes of a buffer, by the fields parsed from it. -/
def consumed (header : RtpHeader) : Nat :=
  12 + 4 * header.cc.toNat + if header.x ≠ 0 then 4 + 4 * header.extCount.toNat else 0

/-- The size of a header that is parsed from the buffer is the number of its bytes there, and
the payload of the parsed packet is what follows them. -/
def SizeAgrees (buffer : List UInt8) : Prop :=
  ∀ header, rtpHeaderParse rtpHeaderCreate buffer buffer.length = .ok (RTP_OK, header) →
    rtpHeaderSize header = consumed header ∧
      ∃ packet, rtpPacketParse rtpPacketCreate buffer buffer.length = .ok (RTP_OK, packet) ∧
        packet.header = header ∧ packet.payloadSize = buffer.length - consumed header ∧
        packet.payloadData = .obj (buffer.drop (consumed header))

/-- The buffer begins with a header that the parser accepts. -/
def Accepted (buffer : List UInt8) : Prop :=
  FixedPart buffer ∧ needed buffer (byteAt buffer 0 % 8) ≤ buffer.length

/-- The flag announces an extension, and its length word is zero. -/
def EmptyExtension (buffer : List UInt8) : Prop :=
  byteAt buffer 0 / 16 % 2 = 1 ∧ extWords buffer (byteAt buffer 0 % 8) = 0

variable {header header' : RtpHeader} {buffer : List UInt8} {r : Int}

/-! ## The fields of a parsed header -/

theorem parseExt_returns (hrun : parseExt header buffer = .ok header') :
    header'.cc = header.cc ∧ header'.x = header.x ∧ header'.csrc = header.csrc ∧
      (header.x ≠ 0 → header'.extData.isSet = true ∧
        header'.extCount.toNat = extWords buffer header.cc.toNat) := by
  unfold parseExt at hrun
  by_cases hx : header.x ≠ 0
  · rw [if_pos hx] at hrun
    obtain ⟨extId, -, hrun⟩ := bind_eq_ok.mp hrun
    obtain ⟨extCount, hcount, hrun⟩ := bind_eq_ok.mp hrun
    obtain ⟨extData, -, hrun⟩ := bind_eq_ok.mp hrun
    cases hrun
    refine ⟨rfl, rfl, rfl, fun _ => ⟨rfl, ?_⟩⟩
    have hlen : 12 + 4 * header.cc.toNat + 2 + 2 ≤ buffer.length := by
      by_contra hshort
      rw [readU16_fault (by omega)] at hcount
      cases hcount
    obtain ⟨v, hv, hvalue⟩ := readU16_ok _ _ hlen
    cases hv.symm.trans hcount
    exact hvalue
  · rw [if_neg hx] at hrun
    cases hrun
    exact ⟨rfl, rfl, rfl, fun h => absurd h hx⟩

/-- A header as the parser leaves it. -/
structure Parsed (buffer : List UInt8) (header : RtpHeader) : Prop where
  cc : header.cc.toNat = byteAt buffer 0 % 8
  x : header.x ≠ 0 ↔ byteAt buffer 0 / 16 % 2 = 1
  csrc : header.cc ≠ 0 → header.csrc.isSet = true
  extended : header.x ≠ 0 → header.extData.isSet = true ∧
    header.extCount.toNat = extWords buffer (byteAt buffer 0 % 8)

theorem parsed_of_run
    (hrun : rtpHeaderParse rtpHeaderCreate buffer buffer.length = .ok (RTP_OK, header)) :
    Accepted buffer ∧ Parsed buffer header := by
  obtain ⟨hstop, -, hfault⟩ := rtpHeaderParse_outcome buffer
  have hfixed : FixedPart buffer := by
    by_contra hnot
    obtain ⟨header', hrun'⟩ := hstop hnot
    cases hrun'.symm.trans hrun
  have hneeded : needed buffer (byteAt buffer 0 % 8) ≤ buffer.length := by
    by_contra hlt
    cases (hfault hfixed (Nat.lt_of_not_le hlt)).symm.trans hrun
  refine ⟨⟨hfixed, hneeded⟩, ?_⟩
  obtain ⟨b0, b1, seq, ts, ssrc, rest, hbuffer⟩ := exists_fixed hfixed.1
  have hb0 : byteAt buffer 0 = b0.toNat := by
    rw [hbuffer]
    rfl
  have hb1 : byteAt buffer 1 = b1.toNat := by
    rw [hbuffer]
    rfl
  have hannounced : Announced b0 b1 := by
    have h := hfixed.2
    rwa [hb0, hb1] at h
  rw [(rtpHeaderParse_fixed hbuffer hfixed.1).1 hannounced] at hrun
  obtain ⟨h₁, hcsrc, hrun⟩ := bind_eq_ok.mp hrun
  obtain ⟨h₂, hext, hrun⟩ := bind_eq_ok.mp hrun
  cases hrun
  obtain ⟨hcc₁, hx₁, hset⟩ := parseCsrc_returns hcsrc
  obtain ⟨hcc₂, hx₂, hcsrc₂, hextended⟩ := parseExt_returns hext
  have hcc : header.cc.toNat = byteAt buffer 0 % 8 := by
    rw [hcc₂, hcc₁, cc_fixedHeader, hb0]
  constructor
  · exact hcc
  · rw [hx₂, hx₁, hb0]
    exact x_fixedHeader b0 b1 seq ts ssrc
  · intro hne
    rw [hcsrc₂]
    exact hset (by rwa [hcc₂, hcc₁] at hne)
  · intro hne
    rw [← hcc, hcc₂]
    exact hextended (hx₂ ▸ hne)

/-! ## The size -/

/-- The size of a parsed header leaves an empty extension out. -/
theorem Parsed.size_eq (h : Parsed buffer header) : rtpHeaderSize header =
    12 + 4 * header.cc.toNat +
      if header.x ≠ 0 ∧ header.extCount ≠ 0 then 4 + 4 * header.extCount.toNat else 0 := by
  unfold rtpHeaderSize
  simp only [size_csrc h.csrc]
  by_cases hx : header.x ≠ 0
  · rw [(h.extended hx).1, decide_eq_true hx]
    by_cases hcount : header.extCount ≠ 0
    · rw [decide_eq_true hcount, if_pos (by decide), if_pos ⟨hx, hcount⟩]
      omega
    · rw [decide_eq_false hcount, if_neg (by decide), if_neg fun hh => hcount hh.2, Nat.add_zero]
  · rw [decide_eq_false hx, Bool.false_and, Bool.false_and, if_neg (by decide),
      if_neg fun hh => hx hh.1, Nat.add_zero]

theorem Parsed.extCount_eq_zero (h : Parsed buffer header) (hx : header.x ≠ 0) :
    header.extCount = 0 ↔ EmptyExtension buffer := by
  rw [EmptyExtension, and_iff_right (h.x.mp hx), ← (h.extended hx).2, ← UInt16.toNat_inj]
  rfl

theorem Parsed.size_eq_consumed_iff (h : Parsed buffer header) :
    rtpHeaderSize header = consumed header ↔ ¬ EmptyExtension buffer := by
  rw [h.size_eq, consumed]
  by_cases hx : header.x ≠ 0
  · rw [← h.extCount_eq_zero hx, if_pos hx]
    by_cases hcount : header.extCount ≠ 0
    · rw [if_pos ⟨hx, hcount⟩]
      exact iff_of_true rfl hcount
    · rw [if_neg fun hh => hcount hh.2]
      exact iff_of_false (by omega) hcount
  · rw [if_neg fun hh => hx hh.1, if_neg hx]
    exact iff_of_true rfl fun he => hx (h.x.mpr he.1)

theorem Parsed.consumed_eq (h : Parsed buffer header) :
    consumed header = needed buffer (byteAt buffer 0 % 8) := by
  rw [consumed, needed, h.cc]
  by_cases hx : header.x ≠ 0
  · rw [if_pos hx, if_pos (h.x.mp hx), (h.extended hx).2]
  · rw [if_neg hx, if_neg (mt h.x.mpr hx)]

/-! ## The payload -/

theorem rtpPacketParse_payload (hlen : buffer.length < 2 ^ 64)
    (hrun : rtpHeaderParse rtpHeaderCreate buffer buffer.length = .ok (RTP_OK, header))
    (hsize : rtpHeaderSize header ≤ buffer.length) :
    rtpPacketParse rtpPacketCreate buffer buffer.length = .ok (RTP_OK,
      ⟨header, buffer.length - rtpHeaderSize header,
        .obj (buffer.drop (rtpHeaderSize header))⟩) := by
  have hslice : slice buffer (rtpHeaderSize header) (buffer.length - rtpHeaderSize header)
      = .ok (buffer.drop (rtpHeaderSize header)) := by
    rw [slice_of_le (by omega), List.take_of_length_le (by rw [List.length_drop])]
  rw [rtpPacketParse, show rtpPacketCreate.header = rtpHeaderCreate from rfl, bind_of_ok hrun]
  dsimp only
  rw [if_neg (by decide), sizeSub_of_le hsize hlen, rtpPacketSetPayload_of_null rfl,
    bind_of_ok hslice]
  rfl

theorem accepted_parses (h : Accepted buffer) :
    ∃ header, rtpHeaderParse rtpHeaderCreate buffer buffer.length = .ok (RTP_OK, header) :=
  (rtpHeaderParse_outcome buffer).2.1 h.1 h.2

/-- An accepted header of four more bytes than its size. -/
theorem not_sizeAgrees (haccepted : Accepted buffer) (hempty : EmptyExtension buffer) :
    ¬ SizeAgrees buffer := by
  intro h
  obtain ⟨header, hrun⟩ := accepted_parses haccepted
  exact (parsed_of_run hrun).2.size_eq_consumed_iff.mp (h header hrun).1 hempty

/-- The size and the bytes of a parsed header agree unless its extension is empty. -/
theorem sizeAgrees_iff (hlen : buffer.length < 2 ^ 64) :
    SizeAgrees buffer ↔ (Accepted buffer → ¬ EmptyExtension buffer) := by
  constructor
  · intro h haccepted hempty
    exact not_sizeAgrees haccepted hempty h
  · intro h header hrun
    obtain ⟨haccepted, hparsed⟩ := parsed_of_run hrun
    have hsize := hparsed.size_eq_consumed_iff.mpr (h haccepted)
    have hle : rtpHeaderSize header ≤ buffer.length := by
      rw [hsize, hparsed.consumed_eq]
      exact haccepted.2
    refine ⟨hsize, _, rtpPacketParse_payload hlen hrun hle, rfl, ?_, ?_⟩
    · rw [hsize]
    · rw [hsize]

/-- One contributing source, an extension of one word and a byte of payload. -/
theorem sizeAgrees_extended :
    Accepted [0x91, 0, 0, 1, 0, 0, 0, 0, 0, 0, 0, 9, 0, 0, 0, 7, 0, 5, 0, 1, 1, 2, 3, 4, 42] ∧
    SizeAgrees [0x91, 0, 0, 1, 0, 0, 0, 0, 0, 0, 0, 9, 0, 0, 0, 7, 0, 5, 0, 1, 1, 2, 3, 4, 42] :=
  ⟨⟨⟨by decide, by decide, by decide⟩, by decide⟩,
    (sizeAgrees_iff (by decide)).mpr fun _ hempty => absurd hempty.2 (by decide)⟩

/-- A header with an extension of no words: its size is 12, and it fills all sixteen bytes. -/
theorem sizeAgrees_fails : ¬ SizeAgrees [0x90, 0, 0, 0, 0, 0, 0, 0, 0, 0, 0, 0, 0, 0, 0, 0] :=
  not_sizeAgrees ⟨⟨by decide, by decide, by decide⟩, by decide⟩ ⟨by decide, by decide⟩

end RtpSdr.Rtp.HeaderBoundary
