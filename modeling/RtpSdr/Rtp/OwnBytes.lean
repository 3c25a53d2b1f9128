import RtpSdr.Rtp.AppOutput
import RtpSdr.Rtp.ByeOutput
import RtpSdr.Rtp.PacketOutput
import RtpSdr.Rtp.ReportOutput
import RtpSdr.Rtp.SdesOutput

/-!
# What serialized packets show

The six serializers side by side, for the packets that any calls leave: those that a parser has
failed on are among them, and they may count more entries than they have. The application
packet alone needs no condition. The receiver report and the goodbye packet also count bytes
that they do not write, and the RTP packet is not written at all when the loop over its
extension does not end.
-/
namespace RtpSdr.Rtp.OwnBytes

open RtpSdr.Lib.Checked
open RtpSdr.Lib.Memory
open RtpSdr.Rtp.EntryList
open RtpSdr.Rtp.ReportPacket
open RtpSdr.Rtp.RtcpReport (RtcpReportT)
open RtpSdr.Rtp.SrRr
open RtpSdr.Rtp.Sdes (RtcpSdes rtcpSdesCreate)
open RtpSdr.Rtp.Bye (RtcpBye rtcpByeCreate)
open RtpSdr.Rtp.App (RtcpApp rtcpAppCreate)
open RtpSdr.Rtp.Packet (RtpPacket rtpPacketCreate)

/-- For all packets that a program can hold: what each serializer shows is the packet's own,
exactly as long as the entries that are counted are there, an extension or a message ends on a
word, and an extension of an RTP packet can be written. -/
theorem serializers_own_iff (sr : ReportPacketT SrFields) (rr : ReportPacketT RrFields)
    (sdes : RtcpSdes) (bye : RtcpBye) (app : RtcpApp) (rtp : RtpPacket)
    (hsr : Reached (ReportOutput.use srKind) rtcpSrCreate sr)
    (hrr : Reached (ReportOutput.use rrKind) rtcpRrCreate rr)
    (hsdes : Reached SdesOutput.use rtcpSdesCreate sdes)
    (hbye : Reached ByeOutput.use rtcpByeCreate bye)
    (happ : Reached AppOutput.use rtcpAppCreate app)
    (hrtp : Reached PacketOutput.use rtpPacketCreate rtp) :
    (ReportOutput.OwnBytes srKind sr ↔ 2 ^ 64 ≤ ReportOutput.need srKind sr ∨
      Covered sr.header.count sr.reports) ∧
    (ReportOutput.OwnBytes rrKind rr ↔ 2 ^ 64 ≤ ReportOutput.need rrKind rr ∨
      Covered rr.header.count rr.reports ∧
        (rr.extSize % 4 = 0 ∨ 2 ^ 31 ≤ ReportOutput.need rrKind rr)) ∧
    (SdesOutput.OwnBytes sdes ↔ Covered sdes.header.count sdes.srcs) ∧
    (ByeOutput.OwnBytes bye ↔ ByeOutput.TooLarge bye ∨
      Covered bye.header.count bye.srcIds ∧ ByeOutput.Filled bye) ∧
    AppOutput.OwnBytes app ∧
    (PacketOutput.OwnBytes rtp ↔ 2 ^ 64 ≤ PacketOutput.need rtp ∨ PacketOutput.Writable rtp) := by
  obtain ⟨_, hsrExt⟩ := ReportOutput.reached_extended hsr
  obtain ⟨_, hrrExt⟩ := ReportOutput.reached_extended hrr
  obtain ⟨_, hbyeMessage⟩ := ByeOutput.reached_message hbye
  obtain ⟨_, happBlock⟩ := AppOutput.reached_block happ
  refine ⟨?_, ?_, ?_, ?_, ?_, ?_⟩
  · have hmod : sr.extSize % 4 = 0 := by
      rw [hsrExt.extSize]
      exact hsrExt.checked rfl
    rw [ReportOutput.ownBytes_iff hsrExt, and_iff_left (.inl hmod)]
  · exact ReportOutput.ownBytes_iff hrrExt
  · exact SdesOutput.ownBytes_iff (SdesOutput.reached_sound hsdes)
  · exact ByeOutput.ownBytes_iff hbyeMessage
  · exact AppOutput.ownBytes happBlock
  · exact PacketOutput.ownBytes_iff (PacketOutput.reached_sound hrtp)

/-! ### Packets with contents, and packets that fail -/

/-- A report about the source 7. -/
def oneReport : RtcpReportT := ⟨7, 3, 5, 100, 2, 0, 0⟩

/-- A sender report with a report and an extension of a word. -/
def srUses : List (ReportOutput.Use SrFields) :=
  [.init, .call (.mutate (.assign ⟨1, 2, 3, 4, 5, 6⟩)), .call (.mutate (.addReport oneReport)),
    .call (.mutate (.setExt [1, 2, 3, 4]))]

/-- A receiver report with a report and an extension of five bytes. -/
def rrUses : List (ReportOutput.Use RrFields) :=
  [.init, .call (.mutate (.addReport oneReport)), .call (.mutate (.setExt [1, 2, 3, 4, 5]))]

/-- A source with a name of two characters. -/
def sdesUses : List SdesOutput.Use :=
  [.init, .call (.addEntry 7), .call (.setItem 7 1 [97, 98, 0] [])]

/-- A source that leaves, and why. -/
def byeUses : List ByeOutput.Use :=
  [.init, .call (.addSource 7), .call (.setMessage [98, 121, 101])]

def appUses : List AppOutput.Use :=
  [.init 3, .call (.assign 7 1), .call (.setData [1, 2, 3, 4, 5])]

/-- A packet with a source, an extension of two words and a payload. -/
def rtpUses : List PacketOutput.Use :=
  [.init 96 7 1 2, .assign 1 0 96 1 2 7, .addCsrc 8, .setExt 5 [1, 2] 2, .setPayload [9, 9, 9] 0 3]

theorem serializers_own_contents :
    ∃ sr rr sdes bye app rtp,
      runAll (ReportOutput.use srKind) rtcpSrCreate srUses = .ok sr ∧
      runAll (ReportOutput.use rrKind) rtcpRrCreate rrUses = .ok rr ∧
      runAll SdesOutput.use rtcpSdesCreate sdesUses = .ok sdes ∧
      runAll ByeOutput.use rtcpByeCreate byeUses = .ok bye ∧
      runAll AppOutput.use rtcpAppCreate appUses = .ok app ∧
      runAll PacketOutput.use rtpPacketCreate rtpUses = .ok rtp ∧
      (ReportOutput.OwnBytes srKind sr ↔ 2 ^ 64 ≤ ReportOutput.need srKind sr ∨
        Covered sr.header.count sr.reports) ∧
      (ReportOutput.OwnBytes rrKind rr ↔ 2 ^ 64 ≤ ReportOutput.need rrKind rr ∨
        Covered rr.header.count rr.reports ∧
          (rr.extSize % 4 = 0 ∨ 2 ^ 31 ≤ ReportOutput.need rrKind rr)) ∧
      (SdesOutput.OwnBytes sdes ↔ Covered sdes.header.count sdes.srcs) ∧
      (ByeOutput.OwnBytes bye ↔ ByeOutput.TooLarge bye ∨
        Covered bye.header.count bye.srcIds ∧ ByeOutput.Filled bye) ∧
      AppOutput.OwnBytes app ∧
      (PacketOutput.OwnBytes rtp ↔
        2 ^ 64 ≤ PacketOutput.need rtp ∨ PacketOutput.Writable rtp) := by
  obtain ⟨sr, hsr⟩ := exists_ok_of_isOk
    (show (runAll (ReportOutput.use srKind) rtcpSrCreate srUses).isOk = true by decide +kernel)
  obtain ⟨rr, hrr⟩ := exists_ok_of_isOk
    (show (runAll (ReportOutput.use rrKind) rtcpRrCreate rrUses).isOk = true by decide +kernel)
  obtain ⟨sdes, hsdes⟩ := exists_ok_of_isOk
    (show (runAll SdesOutput.use rtcpSdesCreate sdesUses).isOk = true by decide +kernel)
  obtain ⟨bye, hbye⟩ := exists_ok_of_isOk
    (show (runAll ByeOutput.use rtcpByeCreate byeUses).isOk = true by decide +kernel)
  obtain ⟨app, happ⟩ := exists_ok_of_isOk
    (show (runAll AppOutput.use rtcpAppCreate appUses).isOk = true by decide +kernel)
  obtain ⟨rtp, hrtp⟩ := exists_ok_of_isOk
    (show (runAll PacketOutput.use rtpPacketCreate rtpUses).isOk = true by decide +kernel)
  refine ⟨sr, rr, sdes, bye, app, rtp, hsr, hrr, hsdes, hbye, happ, hrtp, ?_⟩
  exact serializers_own_iff sr rr sdes bye app rtp (Reached.start.runAll hsr)
    (Reached.start.runAll hrr) (Reached.start.runAll hsdes) (Reached.start.runAll hbye)
    (Reached.start.runAll happ) (Reached.start.runAll hrtp)

/-- A receiver report with an extension of five bytes. -/
def oddReport : ReportPacketT RrFields :=
  (rtcpRrSetExt (rtcpRrInit rtcpRrCreate) [1, 2, 3, 4, 5]).2

theorem reached_oddReport : Reached (ReportOutput.use rrKind) rtcpRrCreate oddReport := by
  apply Reached.call (.call (.mutate (.setExt [1, 2, 3, 4, 5])))
  · exact Reached.call .init .start rfl
  · rfl

/-- A sender report that a parser of a receiver report was given. -/
def misread : List (ReportOutput.Use SrFields) := [.init, .parse [0x85, 0xc9, 0, 0] 4]

/-- The last three bytes of sixteen are those of the buffer. A sender report that was not parsed
counts five reports and has none: it is not serialized. -/
theorem serializers_own_fails :
    (Reached (ReportOutput.use rrKind) rtcpRrCreate oddReport ∧
      rtcpRrSerialize oddReport (.replicate 16 0) 16
        = .ok (16, [0x80, 0xc9, 0, 3, 0, 0, 0, 0, 1, 2, 3, 4, 5, 0, 0, 0]) ∧
      rtcpRrSerialize oddReport (.replicate 16 1) 16
        = .ok (16, [0x80, 0xc9, 0, 3, 0, 0, 0, 0, 1, 2, 3, 4, 5, 1, 1, 1]) ∧
      ¬ ReportOutput.OwnBytes rrKind oddReport) ∧
    ∃ sr, runAll (ReportOutput.use srKind) rtcpSrCreate misread = .ok sr ∧
      rtcpSrSerialize sr (.replicate 148 0) 148 = .error .pointer ∧
      ¬ ReportOutput.OwnBytes srKind sr := by
  constructor
  · obtain ⟨_, hext⟩ := ReportOutput.reached_extended reached_oddReport
    refine ⟨reached_oddReport, by decide +kernel, by decide +kernel, fun hown => ?_⟩
    have hcond := (ReportOutput.ownBytes_iff hext).mp hown
    exact absurd hcond (by decide)
  · have hrun : runAll (ReportOutput.use srKind) rtcpSrCreate misread = .ok _ := rfl
    refine ⟨_, hrun, by decide +kernel, fun hown => ?_⟩
    obtain ⟨_, hext⟩ := ReportOutput.reached_extended (Reached.start.runAll hrun)
    have hcond := (ReportOutput.ownBytes_iff hext).mp hown
    exact absurd hcond (by decide)

end RtpSdr.Rtp.OwnBytes
