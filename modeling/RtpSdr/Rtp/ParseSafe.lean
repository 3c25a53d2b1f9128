import RtpSdr.Rtp.App
import RtpSdr.Rtp.SrRr

/-!
# What the parsers of SR, RR and APP read

The parsers trust the header: its length says where the extension or the data ends, and
no one compares it with the size of the buffer. They stay inside the buffer exactly where
the three agree, or where the reports already do not fit.
-/
namespace RtpSdr.Rtp.ParseSafe

open RtpSdr.Lib.Checked
open RtpSdr.Lib.Memory
open RtpSdr.Lib.BigEndian
open RtpSdr.Rtp.Util
open RtpSdr.Rtp.RtcpHeader
open RtpSdr.Rtp.RtcpReport
open RtpSdr.Rtp.ReportPacket
open RtpSdr.Rtp.SrRr
open RtpSdr.Rtp.App

section Exact

/-! The parsers once more, with their subtractions checked. -/

variable {φ : Type} (k : Kind φ)

def parseReportsExact (count : Nat) (buffer : List UInt8) (bufferSize : Nat) :
    Exec (Step (Nat × List RtcpReportT) (List RtcpReportT)) :=
  forLeave (fun i s => do
    let report ← load s.2 i
    let left ← subExact bufferSize s.1
    let (r, report) ← rtcpReportParse report buffer s.1 left
    let reports ← store s.2 i report
    if r < 0 then .ok (.leave reports)
    else .ok (.next (s.1 + sizeofReport, reports)))
    count (k.fixedSize, List.replicate count zeroReport)

def parseExtExact (packet : ReportPacketT φ) (buffer : List UInt8) (offset : Nat) :
    Exec (Int × ReportPacketT φ) := do
  let extSize ← subExact ((packet.header.length.toNat + 1) * 4) offset
  if extSize ≠ 0 then do
    let ext ← slice buffer offset extSize
    .ok (RTCP_OK, { packet with extSize := extSize, extData := .obj ext })
  else .ok (RTCP_OK, { packet with extSize := extSize })

def parseExact (packet : ReportPacketT φ) (buffer : List UInt8) (bufferSize : Nat) :
    Exec (Int × ReportPacketT φ) := do
  let (pt, header) ← rtcpHeaderParse packet.header buffer bufferSize
  let packet := { packet with header := header }
  if pt ≠ k.pt.toNat then .ok (RTCP_ERROR, packet)
  else do
    let fields ← k.read buffer
    let packet := { packet with fields := fields }
    if packet.header.count ≠ 0 then do
      let loop ← parseReportsExact k packet.header.count.toNat buffer bufferSize
      match loop with
      | .leave reports => .ok (RTCP_ERROR, { packet with reports := .obj reports })
      | .next (offset, reports) =>
        parseExtExact { packet with reports := .obj reports } buffer offset
    else parseExtExact packet buffer k.fixedSize

def parseDataExact (packet : RtcpApp) (buffer : List UInt8) : Exec (Int × RtcpApp) :=
  let length := (packet.header.length.toNat + 1) * 4
  if length > 12 then do
    let appSize ← subExact length 12
    let data ← slice buffer 12 appSize
    .ok (RTCP_OK, { packet with appSize := appSize, appData := .obj data })
  else .ok (RTCP_OK, packet)

def rtcpAppParseExact (packet : RtcpApp) (buffer : List UInt8) (size : Nat) :
    Exec (Int × RtcpApp) := do
  let (pt, header) ← rtcpHeaderParse packet.header buffer size
  let packet := { packet with header := header }
  if pt ≠ RTCP_APP.toNat then .ok (RTCP_ERROR, packet)
  else do
    let ssrc ← readU32 buffer 4
    let name ← readU32 buffer 8
    parseDataExact { packet with ssrc := ssrc, name := name } buffer

end Exact

section Below

variable {φ : Type} {k : Kind φ} {buffer : List UInt8} {size : Nat}

theorem parseReportsExact_below (count : Nat) (hlt : size < 2 ^ 64) :
    Below (parseReportsExact k count buffer size) (parseReports k count buffer size) := by
  apply Below.forLeave
  intro i s
  apply Below.bind (Below.refl _)
  intro report
  exact below_subExact _ hlt

theorem parseExtExact_below (packet : ReportPacketT φ) (offset : Nat) :
    Below (parseExtExact packet buffer offset) (parseExt packet buffer offset) := by
  have hlt := packet.header.length.toNat_lt
  exact below_subExact _ (by omega)

/-- Where no subtraction wraps, the two parsers do the same. -/
theorem parseExact_below (packet : ReportPacketT φ) (hlt : size < 2 ^ 64) :
    Below (parseExact k packet buffer size) (parse k packet buffer size) := by
  apply Below.bind (Below.refl _)
  intro result
  apply Below.ite (Below.refl _)
  apply Below.bind (Below.refl _)
  intro fields
  apply Below.ite
  · apply Below.bind (parseReportsExact_below _ hlt)
    intro loop
    cases loop with
    | next s => exact parseExtExact_below _ _
    | leave reports => exact Below.refl _
  · exact parseExtExact_below _ _

theorem rtcpAppParseExact_below (packet : RtcpApp) :
    Below (rtcpAppParseExact packet buffer size) (rtcpAppParse packet buffer size) := by
  apply Below.bind (Below.refl _)
  intro result
  have hlt := result.2.length.toNat_lt
  apply Below.ite (Below.refl _)
  apply Below.bind (Below.refl _)
  intro ssrc
  apply Below.bind (Below.refl _)
  intro name
  apply Below.ite _ (Below.refl _)
  exact below_subExact _ (by dsimp only; omega)

end Below

/-! ## Sender and receiver reports -/

section Reports

variable {φ : Type} {k : Kind φ} {buffer : List UInt8}

/-- The bytes in front of the extension. -/
def room (k : Kind φ) (buffer : List UInt8) : Nat := k.fixedSize + 24 * countOf buffer

/-- The parser returns, with its subtractions checked as without, and accepts only what the
header and the buffer leave room for. -/
def ReportSafe (k : Kind φ) (buffer : List UInt8) : Prop :=
  ∀ packet, ∃ r packet', parse k packet buffer buffer.length = .ok (r, packet') ∧
    parseExact k packet buffer buffer.length = .ok (r, packet') ∧
    (r = RTCP_OK → room k buffer ≤ declared buffer ∧ declared buffer ≤ buffer.length)

/-- The fixed part is there, and either the reports are not or the packet ends, as its header
declares, behind them and in the buffer. -/
def ReportDelimited (k : Kind φ) (buffer : List UInt8) : Prop :=
  k.fixedSize ≤ buffer.length ∧ (buffer.length < room k buffer ∨
    (room k buffer ≤ declared buffer ∧ declared buffer ≤ buffer.length))

theorem read_ok (h : k.fixedSize ≤ buffer.length) : ∃ f, k.read buffer = .ok f := by
  have hk := k.length_eq
  have h4 := four_le_fixedSize k
  obtain ⟨ws, hws, hwords⟩ := exists_words (buffer.drop 4) ((k.fixedSize - 4) / 4)
    (by rw [List.length_drop]; omega)
  obtain ⟨f, hf⟩ := k.exists_encode ws (by omega)
  exact ⟨f, k.read_drop f buffer _ (by rw [hf]; exact hwords)⟩

/-- A report that lies inside the buffer is read. -/
theorem rtcpReportParse_inside {off size : Nat} (report : RtcpReportT) (hsize : 24 ≤ size)
    (h : off + 24 ≤ buffer.length) :
    ∃ report', rtcpReportParse report buffer off size = .ok (RTCP_OK, report') := by
  obtain ⟨report', hreport⟩ := exists_report (show 24 ≤ (buffer.drop off).length by
    rw [List.length_drop]
    omega)
  exact ⟨report', rtcpReportParse_drop report hsize hreport⟩

/-- The loop goes to the end where the reports lie in the buffer, and leaves where they do not. -/
theorem parseReportsExact_outcome (hfixed : k.fixedSize ≤ buffer.length) (count : Nat) :
    (∃ reports, parseReportsExact k count buffer buffer.length
        = .ok (.next (k.fixedSize + 24 * count, reports)) ∧
      k.fixedSize + 24 * count ≤ buffer.length) ∨
    ∃ reports, parseReportsExact k count buffer buffer.length = .ok (.leave reports) ∧
      buffer.length < k.fixedSize + 24 * count := by
  have hloop := forLeave_invariant (b := fun i s => do
      let report ← load s.2 i
      let left ← subExact buffer.length s.1
      let (r, report) ← rtcpReportParse report buffer s.1 left
      let reports ← store s.2 i report
      if r < 0 then Except.ok (Step.leave reports)
      else .ok (.next (s.1 + sizeofReport, reports)))
    (s := (k.fixedSize, List.replicate count zeroReport))
    (I := fun i s => s.1 = k.fixedSize + 24 * i ∧ s.1 ≤ buffer.length ∧ s.2.length = count)
    (Q := fun _ : List RtcpReportT => buffer.length < k.fixedSize + 24 * count) count
    ⟨rfl, hfixed, List.length_replicate⟩ (by
      intro i s hi h
      obtain ⟨hoff, hin, hlen⟩ := h
      have hleft : subExact buffer.length s.1 = .ok (buffer.length - s.1) := if_pos hin
      rw [bind_of_ok (load_of_lt zeroReport (by omega)), bind_of_ok hleft]
      by_cases hroom : buffer.length - s.1 < 24
      · right
        refine ⟨s.2.set i (s.2.getD i zeroReport), ?_, by omega⟩
        rw [rtcpReportParse, if_pos hroom, ok_bind]
        dsimp only
        rw [bind_of_ok (store_of_lt _ (by omega)), if_pos (by decide)]
      · left
        obtain ⟨report, hreport⟩ := rtcpReportParse_inside (s.2.getD i zeroReport)
          (show 24 ≤ buffer.length - s.1 by omega) (show s.1 + 24 ≤ buffer.length by omega)
        refine ⟨(s.1 + sizeofReport, s.2.set i report), ?_, ?_, ?_, ?_⟩
        · rw [bind_of_ok hreport]
          dsimp only
          rw [bind_of_ok (store_of_lt _ (by omega)), if_neg (by decide)]
        · rw [sizeofReport]
          omega
        · rw [sizeofReport]
          omega
        · rw [List.length_set]
          exact hlen)
  rcases hloop with ⟨s, hrun, hoff, hin, -⟩ | ⟨reports, hrun, hout⟩
  · rw [hoff] at hin
    exact .inl ⟨s.2, by rw [parseReportsExact, hrun, ← hoff], hin⟩
  · exact .inr ⟨reports, hrun, hout⟩

theorem parseExtExact_ok {packet : ReportPacketT φ} {offset : Nat}
    (hlength : (packet.header.length.toNat + 1) * 4 = declared buffer)
    (hroom : offset ≤ declared buffer) (hin : declared buffer ≤ buffer.length) :
    ∃ packet', parseExtExact packet buffer offset = .ok (RTCP_OK, packet') := by
  have hsub : subExact (declared buffer) offset = .ok (declared buffer - offset) := if_pos hroom
  rw [parseExtExact, hlength, bind_of_ok hsub]
  by_cases hext : declared buffer - offset ≠ 0
  · rw [if_pos hext, bind_of_ok (slice_of_le (by omega))]
    exact ⟨_, rfl⟩
  · rw [if_neg hext]
    exact ⟨_, rfl⟩

theorem parseExtExact_fault {packet : ReportPacketT φ} {offset : Nat}
    (hlength : (packet.header.length.toNat + 1) * 4 = declared buffer)
    (hoff : offset ≤ buffer.length)
    (hout : ¬ (offset ≤ declared buffer ∧ declared buffer ≤ buffer.length)) :
    ∃ e, parseExtExact packet buffer offset = .error e := by
  rw [parseExtExact, hlength]
  by_cases hroom : offset ≤ declared buffer
  · have hsub : subExact (declared buffer) offset = .ok (declared buffer - offset) := if_pos hroom
    have hslice : slice buffer offset (declared buffer - offset) = .error .bounds :=
      if_neg (by omega)
    rw [bind_of_ok hsub, if_pos (by omega), hslice]
    exact ⟨_, rfl⟩
  · have hsub : subExact (declared buffer) offset = .error .overflow := if_neg hroom
    rw [hsub]
    exact ⟨_, rfl⟩

theorem parseExact_refused (h : Refused k.pt buffer) (packet : ReportPacketT φ) :
    ∃ packet', parseExact k packet buffer buffer.length = .ok (RTCP_ERROR, packet') := by
  obtain ⟨r, header, hparse, hr⟩ := rtcpHeaderParse_refused h packet.header
  rw [parseExact, bind_of_ok hparse]
  dsimp only
  rw [if_pos hr]
  exact ⟨_, rfl⟩

/-- A packet of the right type is read up to its extension. -/
theorem parseExact_accepted (h : ¬ Refused k.pt buffer) (hfixed : k.fixedSize ≤ buffer.length)
    (packet : ReportPacketT φ) :
    (buffer.length < room k buffer ∧
      ∃ packet', parseExact k packet buffer buffer.length = .ok (RTCP_ERROR, packet')) ∨
    room k buffer ≤ buffer.length ∧
      ∃ packet', (packet'.header.length.toNat + 1) * 4 = declared buffer ∧
        parseExact k packet buffer buffer.length
          = parseExtExact packet' buffer (room k buffer) := by
  have h4 := four_le_fixedSize k
  obtain ⟨header, -, -, -, hcount, hlength, hparse⟩ := rtcpHeaderParse_accepted h
  obtain ⟨fields, hread⟩ := read_ok hfixed
  rw [parseExact, bind_of_ok (hparse packet.header _ (by omega))]
  dsimp only
  rw [if_neg (not_not.mpr rfl), bind_of_ok hread, room, ← hcount]
  by_cases hzero : header.count ≠ 0
  · rw [if_pos hzero]
    rcases parseReportsExact_outcome hfixed header.count.toNat with ⟨reports, hrun, hin⟩ |
      ⟨reports, hrun, hout⟩
    · rw [bind_of_ok hrun]
      exact .inr ⟨hin, _, hlength, rfl⟩
    · rw [bind_of_ok hrun]
      exact .inl ⟨hout, _, rfl⟩
  · rw [if_neg hzero, not_not.mp hzero]
    exact .inr ⟨hfixed, _, hlength, rfl⟩

theorem parseExact_short (h : ¬ Refused k.pt buffer)
    (hread : ∃ e, k.read buffer = .error e) (packet : ReportPacketT φ) :
    ∃ e, parseExact k packet buffer buffer.length = .error e := by
  have hlen : 4 ≤ buffer.length := by
    rw [Refused] at h
    omega
  obtain ⟨header, -, -, -, -, -, hparse⟩ := rtcpHeaderParse_accepted h
  obtain ⟨e, he⟩ := hread
  rw [parseExact, bind_of_ok (hparse packet.header _ hlen)]
  dsimp only
  rw [if_neg (not_not.mpr rfl), he]
  exact ⟨e, rfl⟩

/-- `read` is the code that reads the fields, which stops at the end of the buffer. -/
theorem reportSafe_iff (hread : buffer.length < k.fixedSize → ∃ e, k.read buffer = .error e)
    (hlt : buffer.length < 2 ^ 64) :
    ReportSafe k buffer ↔ Refused k.pt buffer ∨ ReportDelimited k buffer := by
  have hexact (packet : ReportPacketT φ) {r : Int} {packet' : ReportPacketT φ}
      (hrun : parseExact k packet buffer buffer.length = .ok (r, packet')) :=
    parseExact_below packet hlt (r, packet') hrun
  by_cases hrefused : Refused k.pt buffer
  · refine ⟨fun _ => .inl hrefused, fun _ packet => ?_⟩
    obtain ⟨packet', hrun⟩ := parseExact_refused hrefused packet
    exact ⟨_, packet', hexact packet hrun, hrun, fun h => absurd h (by decide)⟩
  rw [or_iff_right hrefused]
  constructor
  · intro hsafe
    obtain ⟨r, packet', -, hrun, -⟩ := hsafe (create k)
    by_cases hfixed : k.fixedSize ≤ buffer.length
    · refine ⟨hfixed, ?_⟩
      rcases parseExact_accepted hrefused hfixed (create k) with ⟨hout, -⟩ |
        ⟨hin, packet₁, hlength, hext⟩
      · exact .inl hout
      · refine .inr ?_
        by_contra hnot
        obtain ⟨e, he⟩ := parseExtExact_fault hlength hin hnot
        rw [hext, he] at hrun
        cases hrun
    · obtain ⟨e, he⟩ := parseExact_short hrefused (hread (by omega)) (create k)
      rw [he] at hrun
      cases hrun
  · intro hdelimited packet
    obtain ⟨hfixed, hcases⟩ := hdelimited
    rcases parseExact_accepted hrefused hfixed packet with ⟨hout, packet', hrun⟩ |
      ⟨hin, packet₁, hlength, hext⟩
    · exact ⟨_, packet', hexact packet hrun, hrun, fun h => absurd h (by decide)⟩
    · rcases hcases with hout | ⟨hroom, hbuffer⟩
      · omega
      · obtain ⟨packet', hrun⟩ := parseExtExact_ok hlength hroom hbuffer
        rw [← hext] at hrun
        exact ⟨_, packet', hexact packet hrun, hrun, fun _ => ⟨hroom, hbuffer⟩⟩

theorem readSrFields_short (h : buffer.length < 28) : ∃ e, readSrFields buffer = .error e := by
  cases hread : readSrFields buffer with
  | error e => exact ⟨e, rfl⟩
  | ok f =>
    simp only [readSrFields, bind_eq_ok] at hread
    obtain ⟨-, -, -, -, -, -, -, -, -, -, byteCount, hlast, -⟩ := hread
    rw [readU32_fault h] at hlast
    cases hlast

theorem readRrFields_short (h : buffer.length < 8) : ∃ e, readRrFields buffer = .error e :=
  ⟨_, by rw [readRrFields, readU32_fault h, error_bind]⟩

end Reports

/-! ## Application packets -/

section App

variable {buffer : List UInt8}

def AppSafe (buffer : List UInt8) : Prop :=
  ∀ packet, ∃ r packet', rtcpAppParse packet buffer buffer.length = .ok (r, packet') ∧
    rtcpAppParseExact packet buffer buffer.length = .ok (r, packet') ∧
    (r = RTCP_OK → 12 ≤ declared buffer ∧ declared buffer ≤ buffer.length)

theorem rtcpAppParseExact_refused (h : Refused RTCP_APP buffer) (packet : RtcpApp) :
    ∃ packet', rtcpAppParseExact packet buffer buffer.length = .ok (RTCP_ERROR, packet') := by
  obtain ⟨r, header, hparse, hr⟩ := rtcpHeaderParse_refused h packet.header
  rw [rtcpAppParseExact, bind_of_ok hparse]
  dsimp only
  rw [if_pos hr]
  exact ⟨_, rfl⟩

/-- A packet of the right type is read up to its data, or the buffer ends before. -/
theorem rtcpAppParseExact_accepted (h : ¬ Refused RTCP_APP buffer) (packet : RtcpApp) :
    ∃ header, (header.length.toNat + 1) * 4 = declared buffer ∧
      rtcpAppParseExact packet buffer buffer.length = (do
        let ssrc ← readU32 buffer 4
        let name ← readU32 buffer 8
        parseDataExact { packet with header := header, ssrc := ssrc, name := name } buffer) := by
  have hlen : 4 ≤ buffer.length := by
    rw [Refused] at h
    omega
  obtain ⟨header, -, -, -, -, hlength, hparse⟩ := rtcpHeaderParse_accepted h
  refine ⟨header, hlength, ?_⟩
  rw [rtcpAppParseExact, bind_of_ok (hparse packet.header _ hlen)]
  dsimp only
  rw [if_neg (not_not.mpr rfl)]

theorem parseDataExact_ok (packet : RtcpApp)
    (hlength : (packet.header.length.toNat + 1) * 4 = declared buffer)
    (hin : declared buffer ≤ buffer.length) :
    ∃ packet', parseDataExact packet buffer = .ok (RTCP_OK, packet') := by
  rw [parseDataExact, hlength]
  by_cases hdata : declared buffer > 12
  · have hsub : subExact (declared buffer) 12 = .ok (declared buffer - 12) := if_pos (by omega)
    rw [if_pos hdata, bind_of_ok hsub, bind_of_ok (slice_of_le (by omega))]
    exact ⟨_, rfl⟩
  · rw [if_neg hdata]
    exact ⟨_, rfl⟩

theorem parseDataExact_fault (packet : RtcpApp)
    (hlength : (packet.header.length.toNat + 1) * 4 = declared buffer)
    (hout : buffer.length < declared buffer) (hroom : 12 ≤ buffer.length) :
    ∃ e, parseDataExact packet buffer = .error e := by
  have hsub : subExact (declared buffer) 12 = .ok (declared buffer - 12) := if_pos (by omega)
  have hslice : slice buffer 12 (declared buffer - 12) = .error .bounds := if_neg (by omega)
  rw [parseDataExact, hlength, if_pos (by omega), bind_of_ok hsub, hslice]
  exact ⟨_, rfl⟩

theorem appSafe_iff : AppSafe buffer ↔
    Refused RTCP_APP buffer ∨ (12 ≤ declared buffer ∧ declared buffer ≤ buffer.length) := by
  have hexact (packet : RtcpApp) {r : Int} {packet' : RtcpApp}
      (hrun : rtcpAppParseExact packet buffer buffer.length = .ok (r, packet')) :=
    rtcpAppParseExact_below packet (r, packet') hrun
  by_cases hrefused : Refused RTCP_APP buffer
  · refine ⟨fun _ => .inl hrefused, fun _ packet => ?_⟩
    obtain ⟨packet', hrun⟩ := rtcpAppParseExact_refused hrefused packet
    exact ⟨_, packet', hexact packet hrun, hrun, fun h => absurd h (by decide)⟩
  rw [or_iff_right hrefused]
  constructor
  · intro hsafe
    obtain ⟨r, packet', -, hrun, hok⟩ := hsafe rtcpAppCreate
    obtain ⟨header, hlength, hparse⟩ := rtcpAppParseExact_accepted hrefused rtcpAppCreate
    rw [hparse] at hrun
    obtain ⟨ssrc, -, hname⟩ := bind_eq_ok.mp hrun
    obtain ⟨name, hread, hdata⟩ := bind_eq_ok.mp hname
    have hfixed : 12 ≤ buffer.length := by
      by_contra hshort
      rw [readU32_fault (by omega)] at hread
      cases hread
    have hin : declared buffer ≤ buffer.length := by
      by_contra hout
      obtain ⟨e, he⟩ := parseDataExact_fault { rtcpAppCreate with
        header := header, ssrc := ssrc, name := name } hlength (by omega) hfixed
      rw [he] at hdata
      cases hdata
    obtain ⟨packet₁, hdata'⟩ := parseDataExact_ok { rtcpAppCreate with
      header := header, ssrc := ssrc, name := name } hlength hin
    rw [hdata'] at hdata
    cases hdata
    exact hok rfl
  · intro hin packet
    obtain ⟨header, hlength, hparse⟩ := rtcpAppParseExact_accepted hrefused packet
    obtain ⟨ssrc, hssrc⟩ := readU32_inside (show 4 + 4 ≤ buffer.length by omega)
    obtain ⟨name, hname⟩ := readU32_inside (show 8 + 4 ≤ buffer.length by omega)
    obtain ⟨packet', hdata⟩ := parseDataExact_ok { packet with
      header := header, ssrc := ssrc, name := name } hlength hin.2
    rw [bind_of_ok hssrc, bind_of_ok hname, hdata] at hparse
    exact ⟨_, packet', hexact packet hparse, hparse, fun _ => hin⟩

end App

/-! ## The three parsers -/

/-- The parsers are safe exactly on what they refuse for its header and on what the header, the
count and the size of the buffer agree about. -/
theorem parsers_safe_iff (buffer : List UInt8) (hlt : buffer.length < 2 ^ 64) :
    (ReportSafe srKind buffer ↔ Refused RTCP_SR buffer ∨ ReportDelimited srKind buffer) ∧
    (ReportSafe rrKind buffer ↔ Refused RTCP_RR buffer ∨ ReportDelimited rrKind buffer) ∧
    (AppSafe buffer ↔
      Refused RTCP_APP buffer ∨ (12 ≤ declared buffer ∧ declared buffer ≤ buffer.length)) := by
  refine ⟨?_, ?_, ?_⟩
  · exact reportSafe_iff readSrFields_short hlt
  · exact reportSafe_iff readRrFields_short hlt
  · exact appSafe_iff

/-- A sender report and a receiver report with a report and a word of extension, and an
application packet with a word of data, all as long as their headers say. -/
theorem parsers_safe_whole :
    ReportSafe srKind ([0x81, 200, 0, 13, 0, 0, 0, 7] ++ List.replicate 48 5) ∧
    ReportSafe rrKind ([0x81, 201, 0, 8, 0, 0, 0, 7] ++ List.replicate 28 5) ∧
    AppSafe [0x81, 204, 0, 3, 0, 0, 0, 7, 65, 66, 67, 68, 1, 2, 3, 4] :=
  ⟨(parsers_safe_iff _ (by decide)).1.mpr (.inr ⟨by decide, .inr ⟨by decide, by decide⟩⟩),
    (parsers_safe_iff _ (by decide)).2.1.mpr (.inr ⟨by decide, .inr ⟨by decide, by decide⟩⟩),
    (parsers_safe_iff _ (by decide)).2.2.mpr (.inr ⟨by decide, by decide⟩)⟩

/-- A receiver report whose header declares three words of extension that are not there. -/
theorem parsers_safe_fails : ¬ ReportSafe rrKind [0x80, 201, 0, 4, 0, 0, 0, 7] := by
  intro h
  rcases (reportSafe_iff readRrFields_short (by decide)).mp h with hrefused | hdelimited
  · exact absurd hrefused (by decide)
  · rcases hdelimited.2 with hout | hin
    · exact absurd hout (by decide)
    · exact absurd hin.2 (by decide)

end RtpSdr.Rtp.ParseSafe
