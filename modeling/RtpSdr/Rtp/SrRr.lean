import RtpSdr.Rtp.ReportHistory

/-!
# Sender reports and receiver reports: `rtcp_sr.c` and `rtcp_rr.c`

The two kinds of report packet, with the functions of their files.
-/
namespace RtpSdr.Rtp.SrRr

open RtpSdr.Lib.Checked
open RtpSdr.Lib.Memory
open RtpSdr.Lib.BigEndian
open RtpSdr.Rtp.Util
open RtpSdr.Rtp.RtcpHeader
open RtpSdr.Rtp.RtcpReport
open RtpSdr.Rtp.ReportPacket
open RtpSdr.Rtp.ReportHistory

/-- The fields of `rtcp_sr` behind the header. -/
structure SrFields where
  ssrc : UInt32
  ntpSec : UInt32
  ntpFrac : UInt32
  rtpTs : UInt32
  pktCount : UInt32
  byteCount : UInt32
deriving DecidableEq, Repr

/-- The field of `rtcp_rr` behind the header. -/
structure RrFields where
  ssrc : UInt32
deriving DecidableEq, Repr

section Source

def writeSrFields (f : SrFields) (buffer : List UInt8) : Exec (List UInt8) := do
  let buffer ← writeU32 buffer 4 f.ssrc
  let buffer ← writeU32 buffer 8 f.ntpSec
  let buffer ← writeU32 buffer 12 f.ntpFrac
  let buffer ← writeU32 buffer 16 f.rtpTs
  let buffer ← writeU32 buffer 20 f.pktCount
  writeU32 buffer 24 f.byteCount

def readSrFields (buffer : List UInt8) : Exec SrFields := do
  let ssrc ← readU32 buffer 4
  let ntpSec ← readU32 buffer 8
  let ntpFrac ← readU32 buffer 12
  let rtpTs ← readU32 buffer 16
  let pktCount ← readU32 buffer 20
  let byteCount ← readU32 buffer 24
  .ok ⟨ssrc, ntpSec, ntpFrac, rtpTs, pktCount, byteCount⟩

def writeRrFields (f : RrFields) (buffer : List UInt8) : Exec (List UInt8) :=
  writeU32 buffer 4 f.ssrc

def readRrFields (buffer : List UInt8) : Exec RrFields := do
  let ssrc ← readU32 buffer 4
  .ok ⟨ssrc⟩

end Source

/-- The words of a sender report behind the header. -/
def SrFields.encode (f : SrFields) : List UInt32 :=
  [f.ssrc, f.ntpSec, f.ntpFrac, f.rtpTs, f.pktCount, f.byteCount]

def RrFields.encode (f : RrFields) : List UInt32 := [f.ssrc]

theorem writeSrFields_eq (f : SrFields) (buffer : List UInt8) :
    writeSrFields f buffer = blit buffer 4 (words f.encode) := by
  have hwords : words f.encode
      = bytes 4 f.ssrc.toNat ++ bytes 4 f.ntpSec.toNat ++ bytes 4 f.ntpFrac.toNat
        ++ bytes 4 f.rtpTs.toNat ++ bytes 4 f.pktCount.toNat ++ bytes 4 f.byteCount.toNat := by
    simp [words, SrFields.encode]
  rw [hwords, ← blit_blit]
  simp only [writeSrFields, writeU32_eq]
  rw [blit_bind_blit _ _ _ _ (by rfl), blit_bind_blit _ _ _ _ (by rfl),
    blit_bind_blit _ _ _ _ (by rfl), blit_bind_blit _ _ _ _ (by rfl)]
  rfl

theorem readSrFields_drop (f : SrFields) (buffer rest : List UInt8)
    (h : buffer.drop 4 = words f.encode ++ rest) : readSrFields buffer = .ok f := by
  have d4 : buffer.drop 4 = bytes 4 f.ssrc.toNat ++ (bytes 4 f.ntpSec.toNat ++
      (bytes 4 f.ntpFrac.toNat ++ (bytes 4 f.rtpTs.toNat ++ (bytes 4 f.pktCount.toNat ++
        (bytes 4 f.byteCount.toNat ++ rest))))) := by
    rw [h]
    simp [words, SrFields.encode]
  have d8 := drop_add _ d4
  have d12 := drop_add _ d8
  have d16 := drop_add _ d12
  have d20 := drop_add _ d16
  have d24 := drop_add _ d20
  simp only [length_bytes, Nat.reduceAdd] at d8 d12 d16 d20 d24
  rw [readSrFields, bind_of_ok (readU32_drop _ d4), bind_of_ok (readU32_drop _ d8),
    bind_of_ok (readU32_drop _ d12), bind_of_ok (readU32_drop _ d16),
    bind_of_ok (readU32_drop _ d20), bind_of_ok (readU32_drop _ d24)]

theorem exists_srFields (ws : List UInt32) (h : ws.length = 6) : ∃ f : SrFields, f.encode = ws := by
  rcases ws with _ | ⟨a, _ | ⟨b, _ | ⟨c, _ | ⟨d, _ | ⟨e, _ | ⟨f, ws⟩⟩⟩⟩⟩⟩ <;>
    simp only [List.length_cons, List.length_nil] at h <;> try omega
  obtain rfl : ws = [] := List.eq_nil_of_length_eq_zero (by omega)
  exact ⟨⟨a, b, c, d, e, f⟩, rfl⟩

theorem writeRrFields_eq (f : RrFields) (buffer : List UInt8) :
    writeRrFields f buffer = blit buffer 4 (words f.encode) := by
  rw [writeRrFields, writeU32_eq, RrFields.encode, words_cons, words_nil, List.append_nil]

theorem readRrFields_drop (f : RrFields) (buffer rest : List UInt8)
    (h : buffer.drop 4 = words f.encode ++ rest) : readRrFields buffer = .ok f := by
  rw [RrFields.encode, words_cons, words_nil, List.append_nil] at h
  rw [readRrFields, bind_of_ok (readU32_drop _ h)]

theorem exists_rrFields (ws : List UInt32) (h : ws.length = 1) : ∃ f : RrFields, f.encode = ws := by
  obtain ⟨a, rfl⟩ := List.length_eq_one_iff.mp h
  exact ⟨⟨a⟩, rfl⟩

def srKind : Kind SrFields where
  pt := RTCP_SR
  length := 6
  fixedSize := 28
  zero := ⟨0, 0, 0, 0, 0, 0⟩
  write := writeSrFields
  read := readSrFields
  checksExt := true
  encode := SrFields.encode
  length_encode _ := rfl
  write_eq := writeSrFields_eq
  read_drop := readSrFields_drop
  exists_encode ws h := exists_srFields ws (by omega)
  length_eq := rfl

def rrKind : Kind RrFields where
  pt := RTCP_RR
  length := 1
  fixedSize := 8
  zero := ⟨0⟩
  write := writeRrFields
  read := readRrFields
  checksExt := false
  encode := RrFields.encode
  length_encode _ := rfl
  write_eq := writeRrFields_eq
  read_drop := readRrFields_drop
  exists_encode ws h := exists_rrFields ws (by omega)
  length_eq := rfl

section Source

def rtcpSrCreate : ReportPacketT SrFields := create srKind
def rtcpSrInit : ReportPacketT SrFields → ReportPacketT SrFields := init srKind
def rtcpSrSize : ReportPacketT SrFields → Nat := size srKind
def rtcpSrSerialize : ReportPacketT SrFields → List UInt8 → Nat → Exec (Int × List UInt8) :=
  serialize srKind
def rtcpSrParse :
    ReportPacketT SrFields → List UInt8 → Nat → Exec (Int × ReportPacketT SrFields) := parse srKind
def rtcpSrFindReport : ReportPacketT SrFields → UInt32 → Exec (Option Nat) := findReport
def rtcpSrAddReport :
    ReportPacketT SrFields → RtcpReportT → Exec (Int × ReportPacketT SrFields) := addReport srKind
def rtcpSrSetExt : ReportPacketT SrFields → List UInt8 → Int × ReportPacketT SrFields :=
  setExt srKind
def rtcpSrClearExt : ReportPacketT SrFields → ReportPacketT SrFields := clearExt srKind

def rtcpRrCreate : ReportPacketT RrFields := create rrKind
def rtcpRrInit : ReportPacketT RrFields → ReportPacketT RrFields := init rrKind
def rtcpRrSize : ReportPacketT RrFields → Nat := size rrKind
def rtcpRrSerialize : ReportPacketT RrFields → List UInt8 → Nat → Exec (Int × List UInt8) :=
  serialize rrKind
def rtcpRrParse :
    ReportPacketT RrFields → List UInt8 → Nat → Exec (Int × ReportPacketT RrFields) := parse rrKind
def rtcpRrFindReport : ReportPacketT RrFields → UInt32 → Exec (Option Nat) := findReport
def rtcpRrAddReport :
    ReportPacketT RrFields → RtcpReportT → Exec (Int × ReportPacketT RrFields) := addReport rrKind
def rtcpRrSetExt : ReportPacketT RrFields → List UInt8 → Int × ReportPacketT RrFields :=
  setExt rrKind
def rtcpRrClearExt : ReportPacketT RrFields → ReportPacketT RrFields := clearExt rrKind

end Source

/-- Serializing and parsing undo each other, for what the mutators build and for what the
wire can carry, in both kinds of report packet. -/
theorem codecs_inverse :
    (BuiltRoundTrips srKind ∧ ∀ buffer, Whole srKind buffer →
      ∃ packet, rtcpSrParse rtcpSrCreate buffer buffer.length = .ok (RTCP_OK, packet) ∧
        ∀ out : List UInt8, buffer.length ≤ out.length → out.length < 2 ^ 64 →
          rtcpSrSerialize packet out out.length
            = .ok (buffer.length, buffer ++ out.drop buffer.length)) ∧
    (BuiltRoundTrips rrKind ∧ ∀ buffer, Whole rrKind buffer →
      ∃ packet, rtcpRrParse rtcpRrCreate buffer buffer.length = .ok (RTCP_OK, packet) ∧
        ∀ out : List UInt8, buffer.length ≤ out.length → out.length < 2 ^ 64 →
          rtcpRrSerialize packet out out.length
            = .ok (buffer.length, buffer ++ out.drop buffer.length)) :=
  ⟨⟨builtRoundTrips srKind, fun _ h => h.serialize_parse⟩,
    builtRoundTrips rrKind, fun _ h => h.serialize_parse⟩

end RtpSdr.Rtp.SrRr
