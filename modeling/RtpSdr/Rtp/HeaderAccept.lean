import RtpSdr.Rtp.Header

/-!
# What the header parser accepts

The length a header needs is in the header itself: the list of contributing
sources comes with a count, the extension behind it with another. The parser
keeps three of the four bits of the first count, and its check of the length is
made before either list is known, so the lists are read without one.
-/
namespace RtpSdr.Rtp.HeaderAccept

open RtpSdr.Lib.Checked
open RtpSdr.Lib.Memory
open RtpSdr.Lib.BigEndian
open RtpSdr.Rtp.Util
open RtpSdr.Rtp.Header

def byteAt (buffer : List UInt8) (i : Nat) : Nat := (buffer.getD i 0).toNat

/-- The checks that concern the fixed part only. -/
def FixedPart (buffer : List UInt8) : Prop :=
  12 ≤ buffer.length ∧ byteAt buffer 0 / 64 = 2 ∧
    ¬ (71 < byteAt buffer 1 % 128 ∧ byteAt buffer 1 % 128 < 96)

/-- The extension length word behind `cc` contributing sources. -/
def extWords (buffer : List UInt8) (cc : Nat) : Nat :=
  value ((buffer.drop (12 + 4 * cc + 2)).take 2)

/-- The length of a header with `cc` contributing sources. -/
def needed (buffer : List UInt8) (cc : Nat) : Nat :=
  12 + 4 * cc + if byteAt buffer 0 / 16 % 2 = 1 then 4 + 4 * extWords buffer cc else 0

/-- The buffer begins with a complete header; the count has four bits. -/
def Complete (buffer : List UInt8) : Prop :=
  FixedPart buffer ∧ needed buffer (byteAt buffer 0 % 16) ≤ buffer.length

/-- The parser stays inside the buffer and returns `RTP_OK` for the complete headers. -/
def ParsesExactly (buffer : List UInt8) : Prop :=
  ∃ r header, rtpHeaderParse rtpHeaderCreate buffer buffer.length = .ok (r, header) ∧
    (r = RTP_OK ↔ Complete buffer)

variable {header : RtpHeader} {buffer : List UInt8}

theorem parseCsrc_ok (h : 12 + 4 * header.cc.toNat ≤ buffer.length) :
    ∃ header', parseCsrc header buffer = .ok header' ∧ header'.cc = header.cc ∧
      header'.x = header.x := by
  unfold parseCsrc
  by_cases hcc : header.cc = 0
  · exact ⟨header, if_neg (not_not.mpr hcc), rfl, rfl⟩
  · obtain ⟨csrc, _, hread, _⟩ := readWords_ok _ _ _ h
    exact ⟨{ header with csrc := .obj csrc }, by rw [if_pos hcc, bind_of_ok hread], rfl, rfl⟩

theorem parseCsrc_fault (h12 : 12 ≤ buffer.length)
    (h : buffer.length < 12 + 4 * header.cc.toNat) :
    parseCsrc header buffer = .error .bounds := by
  have hcc : header.cc ≠ 0 := by
    intro h0
    rw [h0] at h
    exact absurd h (by change ¬ buffer.length < 12; omega)
  rw [parseCsrc, if_pos hcc, readWords_fault h12 h, error_bind]

theorem parseExt_ok (h : header.x ≠ 0 →
      12 + 4 * header.cc.toNat + 4 + 4 * extWords buffer header.cc.toNat ≤ buffer.length) :
    ∃ header', parseExt header buffer = .ok header' := by
  unfold parseExt
  by_cases hx : header.x = 0
  · exact ⟨header, if_neg (not_not.mpr hx)⟩
  · have hlen := h hx
    obtain ⟨id, hid, _⟩ := readU16_ok buffer (12 + 4 * header.cc.toNat) (by omega)
    obtain ⟨count, hcount, hval⟩ :=
      readU16_ok buffer (12 + 4 * header.cc.toNat + 2) (by omega)
    obtain ⟨ws, _, hws, _⟩ := readWords_ok buffer (12 + 4 * header.cc.toNat + 4)
      count.toNat (by rw [hval]; exact hlen)
    exact ⟨_, by rw [if_pos hx, bind_of_ok hid, bind_of_ok hcount, bind_of_ok hws]⟩

theorem parseExt_fault (hx : header.x ≠ 0) (hcsrc : 12 + 4 * header.cc.toNat ≤ buffer.length)
    (h : buffer.length < 12 + 4 * header.cc.toNat + 4 + 4 * extWords buffer header.cc.toNat) :
    parseExt header buffer = .error .bounds := by
  rw [parseExt, if_pos hx]
  dsimp only
  by_cases hid : 12 + 4 * header.cc.toNat + 2 ≤ buffer.length
  · obtain ⟨id, hid, _⟩ := readU16_ok _ _ hid
    rw [bind_of_ok hid]
    by_cases hcount : 12 + 4 * header.cc.toNat + 2 + 2 ≤ buffer.length
    · obtain ⟨count, hcount', hval⟩ := readU16_ok _ _ hcount
      rw [bind_of_ok hcount', readWords_fault hcount (by rw [hval]; exact h), error_bind]
    · rw [readU16_fault (by omega), error_bind]
  · rw [readU16_fault (by omega), error_bind]

/-- The lists are read if they lie inside the buffer, and past its end otherwise. -/
theorem parseLists_outcome (h12 : 12 ≤ buffer.length)
    (hx : header.x ≠ 0 ↔ byteAt buffer 0 / 16 % 2 = 1) :
    (needed buffer header.cc.toNat ≤ buffer.length →
      ∃ header', parseLists header buffer = .ok (RTP_OK, header')) ∧
    (buffer.length < needed buffer header.cc.toNat →
      parseLists header buffer = .error .bounds) := by
  have hneeded : needed buffer header.cc.toNat = 12 + 4 * header.cc.toNat +
      if header.x ≠ 0 then 4 + 4 * extWords buffer header.cc.toNat else 0 := by
    unfold needed
    simp only [hx]
  rw [hneeded]
  by_cases hcsrc : 12 + 4 * header.cc.toNat ≤ buffer.length
  · obtain ⟨header₁, hrun, hcc, hx₁⟩ := parseCsrc_ok hcsrc
    constructor
    · intro h
      have hext : header₁.x ≠ 0 →
          12 + 4 * header₁.cc.toNat + 4 + 4 * extWords buffer header₁.cc.toNat ≤ buffer.length := by
        intro hx'
        rw [hx₁] at hx'
        rw [if_pos hx'] at h
        rw [hcc]
        omega
      obtain ⟨header₂, hrun₂⟩ := parseExt_ok hext
      exact ⟨header₂, by rw [parseLists, bind_of_ok hrun, bind_of_ok hrun₂]⟩
    · intro h
      by_cases hx' : header.x = 0
      · rw [if_neg (not_not.mpr hx')] at h
        omega
      · rw [if_pos hx'] at h
        have hfault : parseExt header₁ buffer = .error .bounds :=
          parseExt_fault (by rwa [hx₁]) (by rwa [hcc]) (by rw [hcc]; omega)
        rw [parseLists, bind_of_ok hrun, hfault, error_bind]
  · constructor
    · intro h
      split at h <;> omega
    · intro _
      rw [parseLists, parseCsrc_fault h12 (by omega), error_bind]

/-! ## The fixed part -/

theorem cc_fixedHeader (b0 b1 : UInt8) (seq : UInt16) (ts ssrc : UInt32) :
    (fixedHeader b0 b1 seq ts ssrc).cc.toNat = b0.toNat % 8 := toNat_maskedCc b0

theorem x_fixedHeader (b0 b1 : UInt8) (seq : UInt16) (ts ssrc : UInt32) :
    (fixedHeader b0 b1 seq ts ssrc).x ≠ 0 ↔ b0.toNat / 16 % 2 = 1 := by
  have h : ((b0 >>> 4) &&& 0x1).toNat = b0.toNat / 16 % 2 := bit_toNat b0 4 (by decide)
  change BitVec.ofNat 1 ((b0 >>> 4) &&& 0x1).toNat ≠ 0 ↔ _
  rw [h, Ne, ← BitVec.toNat_inj, BitVec.toNat_ofNat]
  change ¬ b0.toNat / 16 % 2 % 2 ^ 1 = 0 ↔ _
  omega

/-- Twelve bytes are a fixed part. -/
theorem exists_fixed (h : 12 ≤ buffer.length) :
    ∃ (b0 b1 : UInt8) (seq : UInt16) (ts ssrc : UInt32) (rest : List UInt8),
      buffer = b0 :: b1 :: (bytes 2 seq.toNat ++ (bytes 4 ts.toNat ++
        (bytes 4 ssrc.toNat ++ rest))) := by
  match buffer, h with
  | b0 :: b1 :: tail, h =>
    simp only [List.length_cons] at h
    obtain ⟨seq, hseq, htail⟩ := exists_bytes (k := 2) tail (by omega)
    obtain ⟨ws, hlen, hws⟩ := exists_words (tail.drop 2) 2
      (by rw [List.length_drop]; omega)
    match ws, hlen with
    | [ts, ssrc], _ =>
      have hval : (UInt16.ofNat seq).toNat = seq := by
        rw [UInt16.toNat_ofNat']
        exact Nat.mod_eq_of_lt hseq
      refine ⟨b0, b1, UInt16.ofNat seq, ts, ssrc, (tail.drop 2).drop (4 * 2), ?_⟩
      rw [hval, ← List.append_assoc (bytes 4 _), show bytes 4 ts.toNat ++ bytes 4 ssrc.toNat
        = words [ts, ssrc] from by simp [words], ← hws, ← htail]

theorem rtpHeaderParse_short (h : buffer.length < 12) :
    rtpHeaderParse rtpHeaderCreate buffer buffer.length = .ok (RTP_ERROR, rtpHeaderCreate) := by
  rw [rtpHeaderParse, if_pos h]

/-- The parser on every buffer. -/
theorem rtpHeaderParse_outcome (buffer : List UInt8) :
    (¬ FixedPart buffer → ∃ header,
      rtpHeaderParse rtpHeaderCreate buffer buffer.length = .ok (RTP_ERROR, header)) ∧
    (FixedPart buffer → needed buffer (byteAt buffer 0 % 8) ≤ buffer.length → ∃ header,
      rtpHeaderParse rtpHeaderCreate buffer buffer.length = .ok (RTP_OK, header)) ∧
    (FixedPart buffer → buffer.length < needed buffer (byteAt buffer 0 % 8) →
      rtpHeaderParse rtpHeaderCreate buffer buffer.length = .error .bounds) := by
  by_cases h12 : 12 ≤ buffer.length
  · obtain ⟨b0, b1, seq, ts, ssrc, rest, hbuffer⟩ := exists_fixed h12
    have hb0 : byteAt buffer 0 = b0.toNat := by rw [hbuffer]; rfl
    have hb1 : byteAt buffer 1 = b1.toNat := by rw [hbuffer]; rfl
    have hfixed : FixedPart buffer ↔ Announced b0 b1 := by
      rw [FixedPart, hb0, hb1]
      exact and_iff_right h12
    obtain ⟨hgo, hstop⟩ := rtpHeaderParse_fixed hbuffer h12
    have hx := x_fixedHeader b0 b1 seq ts ssrc
    rw [← hb0] at hx
    obtain ⟨hok, hfault⟩ := parseLists_outcome h12 hx
    rw [cc_fixedHeader, ← hb0] at hok hfault
    rw [hfixed]
    refine ⟨hstop, fun ha h => ?_, fun ha h => ?_⟩
    · rw [hgo ha]
      exact hok h
    · rw [hgo ha]
      exact hfault h
  · have hnot : ¬ FixedPart buffer := fun h => h12 h.1
    exact ⟨fun _ => ⟨_, rtpHeaderParse_short (by omega)⟩, fun h => absurd h hnot,
      fun h => absurd h hnot⟩

/-- The parser is exact on a buffer unless it gets to the lists and one of the two
readings of the count finds them incomplete. -/
theorem parsesExactly_iff (buffer : List UInt8) :
    ParsesExactly buffer ↔ (FixedPart buffer →
      needed buffer (byteAt buffer 0 % 8) ≤ buffer.length ∧
      needed buffer (byteAt buffer 0 % 16) ≤ buffer.length) := by
  obtain ⟨hstop, hok, hfault⟩ := rtpHeaderParse_outcome buffer
  constructor
  · intro hexact hfixed
    obtain ⟨r, header, hrun, hiff⟩ := hexact
    have hread : needed buffer (byteAt buffer 0 % 8) ≤ buffer.length := by
      by_contra hlt
      rw [hfault hfixed (by omega)] at hrun
      cases hrun
    obtain ⟨header', hrun'⟩ := hok hfixed hread
    rw [hrun'] at hrun
    cases hrun
    exact ⟨hread, (hiff.mp rfl).2⟩
  · intro h
    by_cases hfixed : FixedPart buffer
    · obtain ⟨header, hrun⟩ := hok hfixed (h hfixed).1
      exact ⟨RTP_OK, header, hrun, fun _ => ⟨hfixed, (h hfixed).2⟩, fun _ => rfl⟩
    · obtain ⟨header, hrun⟩ := hstop hfixed
      exact ⟨RTP_ERROR, header, hrun, fun he => absurd he (by decide),
        fun hc => absurd hc.1 hfixed⟩

/-- Twelve bytes that announce one contributing source: the parser reads past them. -/
theorem parsesExactly_fails :
    ¬ ParsesExactly [0x81, 0, 0, 0, 0, 0, 0, 0, 0, 0, 0, 0] := by
  rintro ⟨r, header, hrun, _⟩
  exact nomatch hrun

end RtpSdr.Rtp.HeaderAccept
