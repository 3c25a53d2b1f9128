import RtpSdr.Rtp.AppRoundTrip
import RtpSdr.Rtp.ByeOutput
import RtpSdr.Rtp.ParseSafe

/-!
# RTCP packets that come back as they were

Reports, application packets and BYE packets: the parsers take everything from the buffer that the
serializers write, and whatever is read without leaving the buffer is written again byte by byte. A
BYE packet with a message never is.
-/
namespace RtpSdr.Rtp.RtcpRelay

open RtpSdr.Lib.Checked
open RtpSdr.Lib.Memory
open RtpSdr.Lib.BigEndian
open RtpSdr.Lib.Output
open RtpSdr.Rtp.Util
open RtpSdr.Rtp.EntryList
open RtpSdr.Rtp.RtcpHeader
open RtpSdr.Rtp.App (RtcpApp RTCP_APP rtcpAppParse rtcpAppCreate rtcpAppSerialize rtcpAppSize
  parseData)
open RtpSdr.Rtp.Bye (RtcpBye RTCP_BYE rtcpByeParse rtcpByeCreate rtcpByeSerialize rtcpByeSize)
open RtpSdr.Rtp.Sdes (roundUp roundUp_of_aligned)
open RtpSdr.Rtp.ReportPacket
open RtpSdr.Rtp.ParseSafe
open RtpSdr.Rtp.SrRr

variable {buffer : List UInt8}

/-- The parser accepts a packet, without leaving the buffer; it lies at the front, and the
serializer writes it as it lies there. -/
def Relays {α : Type} (parsed : Exec (Int × α)) (size : α → Nat)
    (serialize : α → List UInt8 → Nat → Exec (Int × List UInt8)) (buffer : List UInt8) : Prop :=
  ∃ packet, parsed = .ok (RTCP_OK, packet) ∧ size packet ≤ buffer.length ∧
    Writes (runOf fun out => serialize packet out out.length) (buffer.take (size packet))

/-- A BYE packet is the whole buffer. -/
def RelaysBye (buffer : List UInt8) : Prop :=
  ∃ packet, rtcpByeParse rtcpByeCreate buffer buffer.length = .ok (RTCP_OK, .obj packet) ∧
    rtcpByeSize packet = .ok buffer.length ∧
    Writes (runOf fun out => rtcpByeSerialize packet out out.length) buffer

/-- A parser that returns the type of the packet found the header at the front. -/
theorem header_of_parse {pt : UInt8} {header₀ header : RtcpHeaderT} {r : Int}
    (hrun : rtcpHeaderParse header₀ buffer buffer.length = .ok (r, header)) (hr : r = pt.toNat) :
    ¬ Refused pt buffer ∧ (header.length.toNat + 1) * 4 = declared buffer ∧
      buffer = headerBytes header ++ buffer.drop 4 := by
  by_cases hrefused : Refused pt buffer
  · obtain ⟨r', header', hrun', hne⟩ := rtcpHeaderParse_refused hrefused header₀
    cases hrun'.symm.trans hrun
    exact absurd hr hne
  · obtain ⟨header', hbuffer, -, -, -, hlength, hparse⟩ := rtcpHeaderParse_accepted hrefused
    have hlen : 4 ≤ buffer.length := by
      rw [hbuffer, List.length_append, length_headerBytes]
      omega
    cases (hparse header₀ _ hlen).symm.trans hrun
    exact ⟨hrefused, hlength, hbuffer⟩

/-! ## Reports -/

section Reports

variable {φ : Type} {k : Kind φ}

/-- A packet of the right type is read up to its extension. -/
theorem parse_accepted (h : ¬ Refused k.pt buffer) (hfixed : k.fixedSize ≤ buffer.length)
    (hlt : buffer.length < 2 ^ 64) (packet : ReportPacketT φ) :
    (∃ packet', parse k packet buffer buffer.length = .ok (RTCP_ERROR, packet')) ∨
    room k buffer ≤ buffer.length ∧
      ∃ packet', (packet'.header.length.toNat + 1) * 4 = declared buffer ∧
        parse k packet buffer buffer.length = parseExt packet' buffer (room k buffer) := by
  have h4 := four_le_fixedSize k
  obtain ⟨header, -, -, -, hcount, hlength, hparse⟩ := rtcpHeaderParse_accepted h
  obtain ⟨fields, hread⟩ := read_ok hfixed
  rw [parse, bind_of_ok (hparse packet.header _ (by omega))]
  dsimp only
  rw [if_neg (not_not.mpr rfl), bind_of_ok hread, room, ← hcount]
  by_cases hzero : header.count ≠ 0
  · rw [if_pos hzero]
    have hbelow : Below (parseReportsExact k header.count.toNat buffer buffer.length) _ :=
      parseReportsExact_below header.count.toNat hlt
    rcases parseReportsExact_outcome hfixed header.count.toNat with ⟨reports, hrun, hin⟩ |
      ⟨reports, hrun, -⟩
    · rw [bind_of_ok (hbelow _ hrun)]
      exact .inr ⟨hin, _, hlength, rfl⟩
    · rw [bind_of_ok (hbelow _ hrun)]
      exact .inl ⟨_, rfl⟩
  · rw [if_neg hzero, not_not.mp hzero]
    exact .inr ⟨hfixed, _, hlength, rfl⟩

/-- The parser accepts only what ends, as its header says, in the buffer and behind the reports. -/
theorem parse_returns (hread : buffer.length < k.fixedSize → ∃ e, k.read buffer = .error e)
    (hlt : buffer.length < 2 ^ 64) {packet : ReportPacketT φ}
    (hrun : parse k (create k) buffer buffer.length = .ok (RTCP_OK, packet)) :
    ¬ Refused k.pt buffer ∧ room k buffer ≤ declared buffer ∧ declared buffer ≤ buffer.length := by
  by_cases hrefused : Refused k.pt buffer
  · obtain ⟨packet', hexact⟩ := parseExact_refused hrefused (create k)
    cases (parseExact_below _ hlt _ hexact).symm.trans hrun
  refine ⟨hrefused, ?_⟩
  by_cases hfixed : k.fixedSize ≤ buffer.length
  · rcases parse_accepted hrefused hfixed hlt (create k) with ⟨_, herror⟩ |
      ⟨hin, packet', hlength, hext⟩
    · cases herror.symm.trans hrun
    · rw [hext, parseExt, hlength] at hrun
      have hshort := packet'.header.length.toNat_lt
      by_cases hroom : room k buffer ≤ declared buffer
      · refine ⟨hroom, ?_⟩
        rw [sizeSub_of_le hroom (by omega)] at hrun
        by_cases hnone : declared buffer - room k buffer ≠ 0
        · rw [if_pos hnone] at hrun
          obtain ⟨ext, hslice, -⟩ := bind_eq_ok.mp hrun
          have := slice_eq_ok hslice
          omega
        · omega
      · have hwraps : sizeSub (declared buffer) (room k buffer)
            = declared buffer + 2 ^ 64 - room k buffer := by
          unfold sizeSub
          omega
        rw [hwraps, if_pos (by omega)] at hrun
        obtain ⟨ext, hslice, -⟩ := bind_eq_ok.mp hrun
        have := slice_eq_ok hslice
        omega
  · obtain ⟨e, he⟩ := hread (by omega)
    have hlen : 4 ≤ buffer.length := by
      rw [Refused] at hrefused
      omega
    obtain ⟨header, -, -, -, -, -, hparse⟩ := rtcpHeaderParse_accepted hrefused
    rw [parse, bind_of_ok (hparse _ _ hlen)] at hrun
    dsimp only at hrun
    rw [if_neg (not_not.mpr rfl), he, error_bind] at hrun
    cases hrun

/-- It accepts all of these. -/
theorem parse_ok (hlt : buffer.length < 2 ^ 64) (hrefused : ¬ Refused k.pt buffer)
    (hroom : room k buffer ≤ declared buffer) (hin : declared buffer ≤ buffer.length) :
    ∃ packet, parse k (create k) buffer buffer.length = .ok (RTCP_OK, packet) := by
  have hfixed : k.fixedSize ≤ buffer.length := by
    rw [room] at hroom
    omega
  rcases parseExact_accepted hrefused hfixed (create k) with ⟨hout, -⟩ | ⟨-, packet, hlength, hext⟩
  · exact absurd hout (by omega)
  · obtain ⟨packet', hrun⟩ := parseExtExact_ok hlength hroom hin
    exact ⟨packet', parseExact_below _ hlt _ (hext.trans hrun)⟩

/-- A report packet that is accepted is written as it was read. -/
theorem parse_relays (hread : buffer.length < k.fixedSize → ∃ e, k.read buffer = .error e)
    (hlt : buffer.length < 2 ^ 64) {packet : ReportPacketT φ}
    (hrun : parse k (create k) buffer buffer.length = .ok (RTCP_OK, packet)) :
    size k packet ≤ buffer.length ∧
      Writes (runOf fun out => serialize k packet out out.length)
        (buffer.take (size k packet)) := by
  obtain ⟨hrefused, hroom, hin⟩ := parse_returns hread hlt hrun
  have h4 := four_le_fixedSize k
  obtain ⟨header, hbuffer, -⟩ := rtcpHeaderParse_accepted hrefused
  have hfront : buffer.take (declared buffer)
      = headerBytes header ++ (buffer.drop 4).take (declared buffer - 4) := by
    have hlen := length_headerBytes header
    generalize declared buffer = n at hroom hin
    rw [hbuffer, List.take_append, hlen, List.take_of_length_le (by rw [room] at hroom; omega),
      ← hbuffer]
  obtain ⟨hflags, hpt, hlength⟩ := fields_of_headerBytes hbuffer
  obtain ⟨hflags', hpt', hlength'⟩ := fields_of_headerBytes hfront
  have htake : (buffer.take (declared buffer)).length = declared buffer := by
    rw [List.length_take]
    omega
  rw [Refused, not_or, not_or, not_not, not_not] at hrefused
  have hwhole : Whole k (buffer.take (declared buffer)) := by
    refine ⟨?_, ?_, ?_, ?_⟩
    · rw [hflags', ← hflags]
      exact hrefused.2.1
    · rw [hpt', ← hpt]
      exact hrefused.2.2
    · rw [hlength', ← hlength, htake]
      rfl
    · rw [hflags', ← hflags, htake]
      exact hroom
  obtain ⟨c, hfit, hc⟩ := hwhole.exists_content
  have hsize : c.size k = declared buffer := by
    rw [← length_encode, ← hc, htake]
  have hparse := parse_encode (create k) hfit (buffer.drop (declared buffer))
    (hsize ▸ hin) hlt
  rw [← hc, List.take_append_drop] at hparse
  cases hparse.symm.trans hrun
  have hholds := holds_parsed k (create k) c
  rw [hholds.size_eq hfit, hsize]
  refine ⟨hin, ?_⟩
  intro out hroom' hout
  rw [htake] at hroom' ⊢
  rw [hc, ← hsize]
  exact serialize_ok hholds hfit (hsize ▸ hroom') hout (hsize ▸ hroom')

theorem report_relays_iff (hread : buffer.length < k.fixedSize → ∃ e, k.read buffer = .error e)
    (hlt : buffer.length < 2 ^ 64) :
    Relays (parse k (create k) buffer buffer.length) (size k) (serialize k) buffer ↔
      ¬ Refused k.pt buffer ∧ room k buffer ≤ declared buffer ∧
        declared buffer ≤ buffer.length := by
  constructor
  · rintro ⟨packet, hrun, -⟩
    exact parse_returns hread hlt hrun
  · rintro ⟨hrefused, hroom, hin⟩
    obtain ⟨packet, hrun⟩ := parse_ok hlt hrefused hroom hin
    exact ⟨packet, hrun, parse_relays hread hlt hrun⟩

end Reports

/-! ## Application packets -/

/-- The two words behind the header, and the data. -/
theorem rtcpAppParse_returns {packet : RtcpApp} (hlt : buffer.length < 2 ^ 64)
    (hrun : rtcpAppParse rtcpAppCreate buffer buffer.length = .ok (RTCP_OK, packet)) :
    ¬ Refused RTCP_APP buffer ∧ declared buffer ≤ buffer.length ∧
      ∃ data rest, AppOutput.Block packet data ∧ data.length % 4 = 0 ∧
        buffer = AppOutput.fixedBytes packet ++ (data ++ rest) := by
  obtain ⟨⟨r, header⟩, hheader, hrun⟩ := bind_eq_ok.mp hrun
  dsimp only at hrun
  by_cases hpt : r = RTCP_APP.toNat
  · rw [if_neg (not_not_intro hpt)] at hrun
    obtain ⟨hrefused, hdeclared, hbuffer⟩ := header_of_parse hheader hpt
    refine ⟨hrefused, ?_⟩
    obtain ⟨ssrc, hssrc, hrun⟩ := bind_eq_ok.mp hrun
    obtain ⟨name, hname, hrun⟩ := bind_eq_ok.mp hrun
    have hlen : 12 ≤ buffer.length := by
      by_contra hshort
      rw [readU32_fault (by omega)] at hname
      cases hname
    obtain ⟨ws, hws, hwords⟩ := exists_words (buffer.drop 4) 2 (by rw [List.length_drop]; omega)
    match ws, hws with
    | [a, b], _ =>
      rw [words_cons, words_cons, words_nil, List.append_nil, List.append_assoc,
        List.drop_drop] at hwords
      cases (readU32_drop a hwords).symm.trans hssrc
      cases (readU32_drop b (drop_add _ hwords)).symm.trans hname
      have hfront : buffer = headerBytes header ++ bytes 4 ssrc.toNat ++ bytes 4 name.toNat
          ++ buffer.drop 12 := by
        rw [List.append_assoc, List.append_assoc, ← hwords, ← hbuffer]
      rw [parseData] at hrun
      dsimp only at hrun
      by_cases hlength : (header.length.toNat + 1) * 4 > 12
      · rw [if_pos hlength] at hrun
        obtain ⟨data, hslice, hrun⟩ := bind_eq_ok.mp hrun
        have hsize := length_of_slice hslice
        have hlt' := header.length.toNat_lt
        rw [sizeSub_of_le (by omega) (by omega)] at hsize hslice
        cases hrun
        have hle := slice_eq_ok hslice
        refine ⟨by omega, data, buffer.drop (12 + data.length), ⟨?_, fun _ => rfl⟩, by omega, ?_⟩
        · dsimp only
          rw [sizeSub_of_le (by omega) (by omega), hsize]
        · have htake : data ++ buffer.drop (12 + data.length) = buffer.drop 12 := by
            rw [slice_of_le hle, ← hsize] at hslice
            rw [← List.drop_drop]
            nth_rewrite 1 [← Except.ok.inj hslice]
            exact List.take_append_drop _ _
          rw [htake]
          exact hfront
      · rw [if_neg hlength] at hrun
        cases hrun
        exact ⟨by omega, [], buffer.drop 12, ⟨rfl, fun h => absurd rfl h⟩, rfl, hfront⟩
  · rw [if_pos hpt] at hrun
    cases hrun

theorem rtcpAppParse_ok (hrefused : ¬ Refused RTCP_APP buffer) (hfixed : 12 ≤ buffer.length)
    (hin : declared buffer ≤ buffer.length) :
    ∃ packet, rtcpAppParse rtcpAppCreate buffer buffer.length = .ok (RTCP_OK, packet) := by
  obtain ⟨header, hlength, hparse⟩ := rtcpAppParseExact_accepted hrefused rtcpAppCreate
  obtain ⟨ssrc, hssrc⟩ := readU32_inside (show 4 + 4 ≤ buffer.length by omega)
  obtain ⟨name, hname⟩ := readU32_inside (show 8 + 4 ≤ buffer.length by omega)
  obtain ⟨packet, hdata⟩ := parseDataExact_ok { rtcpAppCreate with
    header := header, ssrc := ssrc, name := name } hlength hin
  rw [bind_of_ok hssrc, bind_of_ok hname, hdata] at hparse
  exact ⟨packet, rtcpAppParseExact_below _ _ hparse⟩

/-- An application packet that is accepted is written as it was read. -/
theorem rtcpAppParse_relays (hlt : buffer.length < 2 ^ 31) {packet : RtcpApp}
    (hrun : rtcpAppParse rtcpAppCreate buffer buffer.length = .ok (RTCP_OK, packet)) :
    rtcpAppSize packet ≤ buffer.length ∧
      Writes (runOf fun out => rtcpAppSerialize packet out out.length)
        (buffer.take (rtcpAppSize packet)) := by
  obtain ⟨-, -, data, rest, hblock, haligned, hbuffer⟩ := rtcpAppParse_returns (by omega) hrun
  have hfixed := AppOutput.length_fixedBytes packet
  have hneed : AppOutput.need packet = 12 + data.length := by
    rw [AppOutput.need, hblock.appSize, roundUp_of_aligned (by omega)]
  have hlen := congrArg List.length hbuffer
  rw [List.length_append, List.length_append, hfixed] at hlen
  have hsize := AppOutput.rtcpAppSize_eq_need hblock (by omega)
  have hencode : AppOutput.encode packet data = buffer.take (rtcpAppSize packet) := by
    rw [hsize, hneed, AppOutput.encode, hneed, Nat.sub_self, List.replicate_zero, List.append_nil]
    rw [hbuffer, ← List.append_assoc, List.take_left' (by rw [List.length_append, hfixed])]
  have hfront : (AppOutput.encode packet data).length = rtcpAppSize packet := by
    rw [AppOutput.length_encode hblock, hsize]
  refine ⟨by omega, ?_⟩
  rw [← hencode]
  intro out hroom hout
  rw [hfront] at hroom ⊢
  have hserialize := AppOutput.rtcpAppSerialize_ok hblock (hsize ▸ hroom) (by omega)
  rw [castInt_of_lt (by omega), hfront, ← hsize] at hserialize
  exact hserialize

theorem rtcpApp_relays_iff (hlt : buffer.length < 2 ^ 31) :
    Relays (rtcpAppParse rtcpAppCreate buffer buffer.length) rtcpAppSize rtcpAppSerialize buffer ↔
      ¬ Refused RTCP_APP buffer ∧ 12 ≤ buffer.length ∧ declared buffer ≤ buffer.length := by
  constructor
  · rintro ⟨packet, hrun, -⟩
    obtain ⟨hrefused, hin, data, rest, -, -, hbuffer⟩ := rtcpAppParse_returns (by omega) hrun
    refine ⟨hrefused, ?_, hin⟩
    rw [hbuffer, List.length_append, AppOutput.length_fixedBytes]
    exact Nat.le_add_right 12 _
  · rintro ⟨hrefused, hfixed, hin⟩
    obtain ⟨packet, hrun⟩ := rtcpAppParse_ok hrefused hfixed hin
    exact ⟨packet, hrun, rtcpAppParse_relays hlt hrun⟩

/-! ## BYE packets -/

/-- A buffer with room for its sources is read up to the message. -/
theorem rtcpByeParse_accepted (hrefused : ¬ Refused RTCP_BYE buffer)
    (hfits : 4 + 4 * countOf buffer ≤ buffer.length) :
    ∃ header srcIds p, Held header.count p srcIds ∧ srcIds.length = countOf buffer ∧
      buffer = headerBytes header ++ words srcIds ++ buffer.drop (4 + 4 * countOf buffer) ∧
      rtcpByeParse rtcpByeCreate buffer buffer.length
        = Bye.parseMessage ⟨header, p, .null⟩ buffer buffer.length (4 + 4 * countOf buffer) := by
  obtain ⟨header, hbuffer, hversion, hpt, hheader, -, -⟩ := rtcpHeaderParse_accepted hrefused
  obtain ⟨srcIds, hcount, hwords⟩ :=
    exists_words (buffer.drop 4) (countOf buffer) (by rw [List.length_drop]; omega)
  rw [hwords, ← List.append_assoc, List.drop_drop] at hbuffer
  have hheld : header.count.toNat = srcIds.length := hheader.trans hcount.symm
  obtain ⟨p, hsome, -, hparse⟩ := Bye.rtcpByeParse_sources rtcpByeCreate buffer.length hversion
    hpt hheld (buffer.drop (4 + 4 * countOf buffer)) (by omega)
  rw [← hbuffer, hcount] at hparse
  exact ⟨header, srcIds, p, ⟨hheld, hsome⟩, hcount, hbuffer, hparse⟩

/-- The sources reach to the end of the buffer, and there is no message. -/
theorem rtcpByeParse_returns {packet : RtcpBye}
    (hrun : rtcpByeParse rtcpByeCreate buffer buffer.length = .ok (RTCP_OK, .obj packet)) :
    ¬ Refused RTCP_BYE buffer ∧ buffer.length = 4 + 4 * countOf buffer ∧
      ∃ srcIds, Bye.Holds packet ⟨srcIds, none⟩ ∧
        buffer = headerBytes packet.header ++ words srcIds := by
  by_cases hrefused : Refused RTCP_BYE buffer
  · obtain ⟨r, header, hheader, hr⟩ := rtcpHeaderParse_refused hrefused rtcpByeCreate.header
    rw [rtcpByeParse] at hrun
    split at hrun
    · cases hrun
    · rw [bind_of_ok hheader] at hrun
      dsimp only at hrun
      rw [if_pos hr] at hrun
      cases hrun
  have hfits : 4 + 4 * countOf buffer ≤ buffer.length := by
    by_contra hshort
    obtain ⟨header, hbuffer, -, -, hcount, -, hheader⟩ := rtcpHeaderParse_accepted hrefused
    have hlen : 4 ≤ buffer.length := by
      rw [hbuffer, List.length_append, length_headerBytes]
      omega
    have hne : header.count ≠ 0 := by
      intro hzero
      rw [hzero] at hcount
      rw [← hcount] at hshort
      exact hshort hlen
    rw [rtcpByeParse, if_neg (by omega), bind_of_ok (hheader _ _ hlen)] at hrun
    dsimp only at hrun
    rw [if_neg (not_not_intro rfl), if_pos hne, hcount, if_pos (by omega)] at hrun
    cases hrun
  obtain ⟨header, srcIds, p, hheld, hcount, hbuffer, hparse⟩ :=
    rtcpByeParse_accepted hrefused hfits
  rw [hparse] at hrun
  by_cases hmessage : 4 + 4 * countOf buffer < buffer.length
  · rw [Bye.parseMessage_fault _ hmessage (Nat.le_refl _)] at hrun
    cases hrun
  · rw [Bye.parseMessage_none _ (by omega)] at hrun
    cases hrun
    refine ⟨hrefused, by omega, srcIds, ⟨hheld, rfl, fun _ htext => by cases htext⟩, ?_⟩
    rw [List.drop_eq_nil_of_le (by omega), List.append_nil] at hbuffer
    exact hbuffer

theorem rtcpByeParse_ok (hrefused : ¬ Refused RTCP_BYE buffer)
    (hwhole : buffer.length = 4 + 4 * countOf buffer) :
    ∃ packet, rtcpByeParse rtcpByeCreate buffer buffer.length = .ok (RTCP_OK, .obj packet) := by
  obtain ⟨header, srcIds, p, -, -, -, hparse⟩ := rtcpByeParse_accepted hrefused hwhole.ge
  rw [Bye.parseMessage_none _ hwhole.le] at hparse
  exact ⟨_, hparse⟩

/-- A BYE packet that is accepted is written as it was read. -/
theorem rtcpByeParse_relays {packet : RtcpBye}
    (hrun : rtcpByeParse rtcpByeCreate buffer buffer.length = .ok (RTCP_OK, .obj packet)) :
    rtcpByeSize packet = .ok buffer.length ∧
      Writes (runOf fun out => rtcpByeSerialize packet out out.length) buffer := by
  obtain ⟨-, -, srcIds, hholds, hbuffer⟩ := rtcpByeParse_returns hrun
  have hencode : Bye.encode packet.header ⟨srcIds, none⟩ = buffer := by
    rw [Bye.encode, Bye.messageBytes, List.append_nil, hbuffer]
  have hsize : (⟨srcIds, none⟩ : Bye.Content).size = buffer.length := by
    rw [← hencode, Bye.length_encode]
    rfl
  have hcount := packet.header.count.isLt
  have hlen : srcIds.length < 32 := hholds.srcIds.count ▸ hcount
  refine ⟨by rw [Bye.rtcpByeSize_ok hholds, hsize], ?_⟩
  intro out hroom _
  have hnone (text : List UInt8) (htext : (none : Option (List UInt8)) = some text) :
      text.length ≤ 255 := by
    cases htext
  have hserialize := Bye.rtcpByeSerialize_ok hholds (hsize ▸ hroom) (hsize ▸ hroom) hnone
  have hbound : buffer.length < 2 ^ 31 := by
    rw [← hsize]
    change 4 + srcIds.length * 4 < 2 ^ 31
    omega
  rw [hencode, hsize, castInt_of_lt hbound] at hserialize
  exact hserialize

theorem rtcpBye_relays_iff :
    RelaysBye buffer ↔ ¬ Refused RTCP_BYE buffer ∧ buffer.length = 4 + 4 * countOf buffer := by
  constructor
  · rintro ⟨packet, hrun, -⟩
    obtain ⟨hrefused, hwhole, -⟩ := rtcpByeParse_returns hrun
    exact ⟨hrefused, hwhole⟩
  · rintro ⟨hrefused, hwhole⟩
    obtain ⟨packet, hrun⟩ := rtcpByeParse_ok hrefused hwhole
    exact ⟨packet, hrun, rtcpByeParse_relays hrun⟩

/-- Reports and application packets come back where they end, as their headers declare, in the
buffer and behind their fixed parts; a BYE packet where its sources are the rest of the buffer. -/
theorem packets_relay_iff (buffer : List UInt8) (hlt : buffer.length < 2 ^ 31) :
    (Relays (rtcpSrParse rtcpSrCreate buffer buffer.length) rtcpSrSize rtcpSrSerialize buffer ↔
      ¬ Refused RTCP_SR buffer ∧ room srKind buffer ≤ declared buffer ∧
        declared buffer ≤ buffer.length) ∧
    (Relays (rtcpRrParse rtcpRrCreate buffer buffer.length) rtcpRrSize rtcpRrSerialize buffer ↔
      ¬ Refused RTCP_RR buffer ∧ room rrKind buffer ≤ declared buffer ∧
        declared buffer ≤ buffer.length) ∧
    (Relays (rtcpAppParse rtcpAppCreate buffer buffer.length) rtcpAppSize rtcpAppSerialize
        buffer ↔
      ¬ Refused RTCP_APP buffer ∧ 12 ≤ buffer.length ∧ declared buffer ≤ buffer.length) ∧
    (RelaysBye buffer ↔
      ¬ Refused RTCP_BYE buffer ∧ buffer.length = 4 + 4 * countOf buffer) :=
  ⟨report_relays_iff readSrFields_short (by omega), report_relays_iff readRrFields_short (by omega),
    rtcpApp_relays_iff hlt, rtcpBye_relays_iff⟩

/-- A sender report with a report and a word of extension, a receiver report with two reports and
two bytes behind it, an application packet with one word of data and four bytes behind it, and a
BYE packet of two sources; but not the BYE packet with a message, and not the receiver report whose
header declares three words that are not there. -/
theorem packets_relay_iff_several :
    Relays (rtcpSrParse rtcpSrCreate ([0x81, 200, 0, 13, 0, 0, 0, 7] ++ List.replicate 48 5) 56)
      rtcpSrSize rtcpSrSerialize ([0x81, 200, 0, 13, 0, 0, 0, 7] ++ List.replicate 48 5) ∧
    Relays (rtcpRrParse rtcpRrCreate ([0x82, 201, 0, 13, 0, 0, 0, 7] ++ List.replicate 50 5) 58)
      rtcpRrSize rtcpRrSerialize ([0x82, 201, 0, 13, 0, 0, 0, 7] ++ List.replicate 50 5) ∧
    Relays (rtcpAppParse rtcpAppCreate
        [0x81, 204, 0, 3, 0, 0, 0, 7, 97, 98, 99, 100, 1, 2, 3, 4, 5, 6, 7, 8] 20)
      rtcpAppSize rtcpAppSerialize
        [0x81, 204, 0, 3, 0, 0, 0, 7, 97, 98, 99, 100, 1, 2, 3, 4, 5, 6, 7, 8] ∧
    RelaysBye [0x82, 203, 0, 2, 0, 0, 0, 7, 0, 0, 0, 9] ∧
    ¬ RelaysBye [0x81, 203, 0, 2, 0, 0, 0, 7, 1, 65, 0, 0] ∧
    ¬ Relays (rtcpRrParse rtcpRrCreate [0x80, 201, 0, 4, 0, 0, 0, 7] 8)
      rtcpRrSize rtcpRrSerialize [0x80, 201, 0, 4, 0, 0, 0, 7] := by
  refine ⟨?_, ?_, ?_, ?_, ?_, ?_⟩
  · exact (packets_relay_iff _ (by decide)).1.mpr (by decide)
  · exact (packets_relay_iff _ (by decide)).2.1.mpr (by decide)
  · exact (packets_relay_iff _ (by decide)).2.2.1.mpr (by decide)
  · exact (packets_relay_iff _ (by decide)).2.2.2.mpr (by decide)
  · exact fun h => absurd ((packets_relay_iff _ (by decide)).2.2.2.mp h) (by decide)
  · exact fun h => absurd ((packets_relay_iff _ (by decide)).2.1.mp h) (by decide)

end RtpSdr.Rtp.RtcpRelay
