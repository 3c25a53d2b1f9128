import RtpSdr.Rtp.EntryList
import RtpSdr.Rtp.RtcpReport

/-!
# Sender and receiver reports: what `rtcp_sr.c` and `rtcp_rr.c` share

The two packets differ in the words behind the header; the reports and the extension
that follow are handled by the same code. The extension has no length of its own on
the wire: it is what the header's length leaves.
-/
namespace RtpSdr.Rtp.ReportPacket

open RtpSdr.Lib.Checked
open RtpSdr.Lib.Memory
open RtpSdr.Lib.BigEndian
open RtpSdr.Rtp.RtcpHeader
open RtpSdr.Rtp.RtcpReport
open RtpSdr.Rtp.EntryList

/-- What the two packets differ in: the type, the words behind the header with the code
that writes and reads them, and whether `set_ext` looks at the size of the extension. -/
structure Kind (φ : Type) where
  pt : UInt8
  /-- The header length `init` stores. -/
  length : UInt16
  /-- The bytes in front of the reports. -/
  fixedSize : Nat
  zero : φ
  write : φ → List UInt8 → Exec (List UInt8)
  read : List UInt8 → Exec φ
  checksExt : Bool
  encode : φ → List UInt32
  length_encode : ∀ f, 4 + 4 * (encode f).length = fixedSize
  write_eq : ∀ f buffer, write f buffer = blit buffer 4 (words (encode f))
  read_drop : ∀ f buffer rest, buffer.drop 4 = words (encode f) ++ rest → read buffer = .ok f
  exists_encode : ∀ ws : List UInt32, 4 + 4 * ws.length = fixedSize → ∃ f, encode f = ws
  length_eq : (length.toNat + 1) * 4 = fixedSize

/-- `rtcp_sr` and `rtcp_rr`; `fields` are the words behind the header. -/
structure ReportPacketT (φ : Type) where
  header : RtcpHeaderT
  fields : φ
  reports : Ptr (List RtcpReportT)
  extSize : Nat
  extData : Ptr (List UInt8)

section Source

variable {φ : Type} (k : Kind φ)

def create : ReportPacketT φ := ⟨⟨0, 0, 0, 0, 0⟩, k.zero, .null, 0, .null⟩

def init (packet : ReportPacketT φ) : ReportPacketT φ :=
  { packet with header := { packet.header with version := 2, pt := k.pt, length := k.length } }

def size (packet : ReportPacketT φ) : Nat :=
  let size := k.fixedSize + packet.header.count.toNat * sizeofReport
  if packet.extData.isSet && decide (packet.extSize ≠ 0) then
    let size := sizeAdd size packet.extSize
    if size % 4 ≠ 0 then sizeAdd size (4 - size % 4) else size
  else size

/-- The loop over the reports: the offset and the buffer, or the buffer at an error. -/
def serializeReports (packet : ReportPacketT φ) (buffer : List UInt8) (size : Nat) :
    Exec (Step (Nat × List UInt8) (List UInt8)) :=
  forLeave (fun i s => do
    let reports ← packet.reports.deref
    let report ← load reports i
    let (result, buffer) ← rtcpReportSerialize report s.2 s.1 (sizeSub size s.1)
    if result < 0 then .ok (.leave buffer)
    else .ok (.next (s.1 + result.toNat, buffer))) packet.header.count.toNat (k.fixedSize, buffer)

/-- The result and the buffer afterwards. -/
def serialize (packet : ReportPacketT φ) (buffer : List UInt8) (bufferSize : Nat) :
    Exec (Int × List UInt8) :=
  if bufferSize < size k packet then .ok (RTCP_ERROR, buffer)
  else do
    let (r, buffer) ← rtcpHeaderSerialize packet.header buffer bufferSize
    if r < 0 then .ok (RTCP_ERROR, buffer)
    else do
      let buffer ← k.write packet.fields buffer
      let loop ← serializeReports k packet buffer bufferSize
      match loop with
      | .leave buffer => .ok (RTCP_ERROR, buffer)
      | .next (offset, buffer) =>
        if packet.extData.isSet then do
          let ext ← packet.extData.read packet.extSize
          let buffer ← blit buffer offset ext
          .ok (castInt (size k packet), buffer)
        else .ok (castInt (size k packet), buffer)

/-- The loop over the reports, which `calloc` has cleared. -/
def parseReports (count : Nat) (buffer : List UInt8) (bufferSize : Nat) :
    Exec (Step (Nat × List RtcpReportT) (List RtcpReportT)) :=
  forLeave (fun i s => do
    let report ← load s.2 i
    let (r, report) ← rtcpReportParse report buffer s.1 (sizeSub bufferSize s.1)
    let reports ← store s.2 i report
    if r < 0 then .ok (.leave reports)
    else .ok (.next (s.1 + sizeofReport, reports)))
    count (k.fixedSize, List.replicate count zeroReport)

/-- The end of the parser: the extension is what the header's length leaves. -/
def parseExt (packet : ReportPacketT φ) (buffer : List UInt8) (offset : Nat) :
    Exec (Int × ReportPacketT φ) :=
  let length := (packet.header.length.toNat + 1) * 4
  let extSize := sizeSub length offset
  if extSize ≠ 0 then do
    let ext ← slice buffer offset extSize
    .ok (RTCP_OK, { packet with extSize := extSize, extData := .obj ext })
  else .ok (RTCP_OK, { packet with extSize := extSize })

/-- The result and the packet afterwards. -/
def parse (packet : ReportPacketT φ) (buffer : List UInt8) (bufferSize : Nat) :
    Exec (Int × ReportPacketT φ) := do
  let (pt, header) ← rtcpHeaderParse packet.header buffer bufferSize
  let packet := { packet with header := header }
  if pt ≠ k.pt.toNat then .ok (RTCP_ERROR, packet)
  else do
    let fields ← k.read buffer
    let packet := { packet with fields := fields }
    if packet.header.count ≠ 0 then do
      let loop ← parseReports k packet.header.count.toNat buffer bufferSize
      match loop with
      | .leave reports => .ok (RTCP_ERROR, { packet with reports := .obj reports })
      | .next (offset, reports) => parseExt { packet with reports := .obj reports } buffer offset
    else parseExt packet buffer k.fixedSize

end Source

/-! ## The content of a packet -/

/-- The fields, the reports and the extension of a packet, with its padding flag. -/
structure Content (φ : Type) where
  p : BitVec 1
  fields : φ
  reports : List RtcpReportT
  ext : List UInt8

section Content

variable {φ : Type} (k : Kind φ)

def Content.size (c : Content φ) : Nat := k.fixedSize + 24 * c.reports.length + c.ext.length

/-- The header the content determines. -/
def Content.header (c : Content φ) : RtcpHeaderT where
  version := 2
  p := c.p
  count := BitVec.ofNat 5 c.reports.length
  pt := k.pt
  length := UInt16.ofNat (c.size k / 4 - 1)

def Content.encode (c : Content φ) : List UInt8 :=
  headerBytes (c.header k) ++ words (k.encode c.fields) ++ reportsBytes c.reports ++ c.ext

/-- The count, the length and the alignment that the wire format can express. -/
structure Content.Fits (c : Content φ) : Prop where
  reports : c.reports.length ≤ 31
  ext : c.ext.length % 4 = 0
  size : c.size k ≤ 262144

/-- The packet structure holds the content: a list that is empty needs no array. -/
structure Holds (packet : ReportPacketT φ) (c : Content φ) : Prop where
  header : packet.header = c.header k
  fields : packet.fields = c.fields
  reports : c.reports ≠ [] → packet.reports = .obj c.reports
  extSize : packet.extSize = c.ext.length
  extData : c.ext ≠ [] → packet.extData = .obj c.ext

end Content

variable {φ : Type} {k : Kind φ} {packet : ReportPacketT φ} {c : Content φ}

theorem length_words_encode (k : Kind φ) (f : φ) :
    (words (k.encode f)).length = k.fixedSize - 4 := by
  have := k.length_encode f
  rw [length_words]
  omega

theorem four_le_fixedSize (k : Kind φ) : 4 ≤ k.fixedSize := by
  have := k.length_encode k.zero
  omega

@[simp] theorem length_encode (c : Content φ) : (c.encode k).length = c.size k := by
  have := four_le_fixedSize k
  simp only [Content.encode, List.length_append, length_headerBytes, length_words_encode,
    length_reportsBytes, Content.size]
  omega

theorem Content.Fits.count (hfit : c.Fits k) : (c.header k).count.toNat = c.reports.length := by
  have := hfit.reports
  rw [Content.header, BitVec.toNat_ofNat]
  exact Nat.mod_eq_of_lt (by omega)

/-- The header's length determines the size. -/
theorem Content.Fits.length (hfit : c.Fits k) :
    ((c.header k).length.toNat + 1) * 4 = c.size k := by
  have hsize := hfit.size
  have hext := hfit.ext
  have hk := k.length_eq
  have hdef : c.size k = k.fixedSize + 24 * c.reports.length + c.ext.length := rfl
  rw [Content.header, UInt16.toNat_ofNat']
  omega

/-- The size the code computes. -/
theorem size_of_content (hcount : packet.header.count.toNat = c.reports.length)
    (hextSize : packet.extSize = c.ext.length) (hextData : c.ext ≠ [] → packet.extData = .obj c.ext)
    (hext : c.ext.length % 4 = 0) (hlt : c.size k < 2 ^ 64) : size k packet = c.size k := by
  have hk := k.length_eq
  have hdef : c.size k = k.fixedSize + 24 * c.reports.length + c.ext.length := rfl
  rw [size, hcount, hextSize, sizeofReport]
  by_cases he : c.ext = []
  · rw [he] at hdef
    rw [he, decide_eq_false (by simp), Bool.and_false, if_neg (by decide), hdef, List.length_nil]
    omega
  · have hpos := List.length_pos_iff.mpr he
    rw [hextData he, decide_eq_true (by omega), if_pos (by simp), sizeAdd_of_lt (by omega)]
    dsimp only
    rw [if_neg (by omega), hdef]
    omega

theorem Holds.size_eq (h : Holds k packet c) (hfit : c.Fits k) : size k packet = c.size k :=
  size_of_content (by rw [h.header, hfit.count]) h.extSize h.extData hfit.ext
    (by have := hfit.size; omega)

/-! ## Serializing -/

/-- The lists of a packet, whatever its header says besides their number. -/
structure Lists (packet : ReportPacketT φ) (reports : List RtcpReportT) (ext : List UInt8) :
    Prop where
  reports : Held packet.header.count packet.reports reports
  extSize : packet.extSize = ext.length
  extData : ext ≠ [] → packet.extData = .obj ext

/-- The bytes the serializer writes: all but those that fill the packet up. -/
def written (k : Kind φ) (packet : ReportPacketT φ) (reports : List RtcpReportT)
    (ext : List UInt8) : List UInt8 :=
  headerBytes packet.header ++ words (k.encode packet.fields) ++ reportsBytes reports ++ ext

theorem length_written (k : Kind φ) (packet : ReportPacketT φ) (reports : List RtcpReportT)
    (ext : List UInt8) :
    (written k packet reports ext).length = k.fixedSize + 24 * reports.length + ext.length := by
  have := four_le_fixedSize k
  simp only [written, List.length_append, length_headerBytes, length_words_encode,
    length_reportsBytes]
  omega

theorem Holds.lists (h : Holds k packet c) (hfit : c.Fits k) :
    Lists packet c.reports c.ext :=
  ⟨⟨by rw [h.header, hfit.count], h.reports⟩, h.extSize, h.extData⟩

variable {reports : List RtcpReportT} {ext : List UInt8}

theorem serializeReports_ok (h : Lists packet reports ext) {w : List UInt8}
    (zs : List UInt8) (hw : w.length = k.fixedSize) (hzs : 24 * reports.length ≤ zs.length)
    {bufferSize : Nat} (hsize : k.fixedSize + 24 * reports.length ≤ bufferSize)
    (hlt : bufferSize < 2 ^ 64) :
    serializeReports k packet (w ++ zs) bufferSize
      = .ok (.next (k.fixedSize + 24 * reports.length,
          w ++ reportsBytes reports ++ zs.drop (24 * reports.length))) := by
  have hloop := forLeave_eq (ρ := List UInt8) (b := fun i s => do
      let reports ← packet.reports.deref
      let report ← load reports i
      let (result, buffer) ← rtcpReportSerialize report s.2 s.1 (sizeSub bufferSize s.1)
      if result < 0 then .ok (.leave buffer)
      else .ok (.next (s.1 + result.toNat, buffer)))
    (fun i => (k.fixedSize + 24 * i, w ++ reportsBytes (reports.take i) ++ zs.drop (24 * i)))
    reports.length (by
      intro i hi
      have hne : reports ≠ [] := List.ne_nil_of_length_pos (by omega)
      have hlen : (w ++ reportsBytes (reports.take i)).length = k.fixedSize + 24 * i := by
        rw [List.length_append, hw, length_reportsBytes, List.length_take]
        omega
      have hcopy := blit_append hlen (length_reportBytes reports[i])
        (show 24 ≤ (zs.drop (24 * i)).length by rw [List.length_drop]; omega)
      rw [List.drop_drop] at hcopy
      rw [h.reports.deref hne, ok_bind,
        bind_of_ok (load_of_getElem? (List.getElem?_eq_getElem hi)),
        rtcpReportSerialize_eq _ _ (by rw [sizeSub_of_le (by omega) hlt]; omega), hcopy]
      rw [List.take_succ_eq_append_getElem hi, reportsBytes_concat, ← List.append_assoc w,
        Nat.mul_succ, ← Nat.add_assoc]
      rfl)
  rw [List.take_length] at hloop
  rw [serializeReports, h.reports.count, ← hloop]
  simp

/-- What is written goes to the front of the buffer; the bytes behind it keep what it held. -/
theorem serialize_lists (h : Lists packet reports ext)
    (hroom : k.fixedSize + 24 * reports.length + ext.length ≤ size k packet)
    {buffer : List UInt8} {bufferSize : Nat} (hsize : size k packet ≤ bufferSize)
    (hlt : bufferSize < 2 ^ 64) (hbuffer : size k packet ≤ buffer.length) :
    serialize k packet buffer bufferSize = .ok (castInt (size k packet),
      written k packet reports ext ++ buffer.drop (written k packet reports ext).length) := by
  have hk := four_le_fixedSize k
  have hheader := blit_append List.length_nil (length_headerBytes packet.header)
    (show 4 ≤ buffer.length by omega)
  have hfields := blit_append (length_headerBytes packet.header)
    (length_words_encode k packet.fields)
    (show _ ≤ (buffer.drop 4).length by rw [List.length_drop]; omega)
  rw [List.drop_drop, show 4 + (k.fixedSize - 4) = k.fixedSize from by omega] at hfields
  have hfixed : (headerBytes packet.header ++ words (k.encode packet.fields)).length
      = k.fixedSize := by
    rw [List.length_append, length_headerBytes, length_words_encode]
    omega
  have hreports := serializeReports_ok (k := k) h (buffer.drop k.fixedSize) hfixed
    (by rw [List.length_drop]; omega) (show _ ≤ bufferSize by omega) hlt
  rw [List.drop_drop] at hreports
  have hbefore : (headerBytes packet.header ++ words (k.encode packet.fields)
      ++ reportsBytes reports).length = k.fixedSize + 24 * reports.length := by
    rw [List.length_append, hfixed, length_reportsBytes]
  have hext := blit_append hbefore (show ext.length = _ from rfl)
    (show _ ≤ (buffer.drop (k.fixedSize + 24 * reports.length)).length by
      rw [List.length_drop]
      omega)
  rw [List.drop_drop] at hext
  rw [serialize, if_neg (by omega), rtcpHeaderSerialize_eq _ (by omega)]
  rw [show blit buffer 0 (headerBytes packet.header) = _ from hheader, ok_bind, ok_bind]
  dsimp only
  rw [if_neg (by decide), k.write_eq, List.nil_append, bind_of_ok hfields, bind_of_ok hreports,
    length_written]
  dsimp only
  cases hset : packet.extData.isSet with
  | true => rw [if_pos rfl, h.extSize, Ptr.read_of_obj h.extData, ok_bind, hext, ok_bind, written]
  | false =>
    have he : ext = [] := by
      by_contra hne
      rw [h.extData hne] at hset
      cases hset
    rw [if_neg (by decide), written, he, List.append_nil, List.length_nil, Nat.add_zero]

/-- The packet's bytes go to the front of the buffer. -/
theorem serialize_ok (h : Holds k packet c) (hfit : c.Fits k) {buffer : List UInt8}
    {bufferSize : Nat} (hsize : c.size k ≤ bufferSize) (hlt : bufferSize < 2 ^ 64)
    (hbuffer : c.size k ≤ buffer.length) :
    serialize k packet buffer bufferSize
      = .ok (c.size k, c.encode k ++ buffer.drop (c.size k)) := by
  have hsame : written k packet c.reports c.ext = c.encode k := by
    rw [written, h.header, h.fields, Content.encode]
  have hcast : castInt (c.size k) = c.size k := castInt_of_lt (by have := hfit.size; omega)
  have hrun := serialize_lists (h.lists hfit) (by rw [h.size_eq hfit, Content.size])
    (by rwa [h.size_eq hfit]) hlt (by rwa [h.size_eq hfit])
  rwa [hsame, length_encode, h.size_eq hfit, hcast] at hrun

/-! ## Parsing -/

theorem parseReports_ok {buffer rest : List UInt8} {reports : List RtcpReportT}
    (h : buffer.drop k.fixedSize = reportsBytes reports ++ rest) {bufferSize : Nat}
    (hsize : k.fixedSize + 24 * reports.length ≤ bufferSize) (hlt : bufferSize < 2 ^ 64) :
    parseReports k reports.length buffer bufferSize
      = .ok (.next (k.fixedSize + 24 * reports.length, reports)) := by
  have hloop := forLeave_eq (ρ := List RtcpReportT) (b := fun i s => do
      let report ← load s.2 i
      let (r, report) ← rtcpReportParse report buffer s.1 (sizeSub bufferSize s.1)
      let reports ← store s.2 i report
      if r < 0 then .ok (.leave reports)
      else .ok (.next (s.1 + sizeofReport, reports)))
    (fun i => (k.fixedSize + 24 * i,
      reports.take i ++ List.replicate (reports.length - i) zeroReport))
    reports.length (by
      intro i hi
      have htake : (reports.take i).length = i := by
        rw [List.length_take]
        omega
      have hi' := drop_flatMap h hi
      rw [← reportsBytes, length_reportsBytes, htake] at hi'
      rw [bind_of_ok (load_filling htake hi), bind_of_ok (rtcpReportParse_drop _
        (by rw [sizeSub_of_le (by omega) hlt]; omega) hi')]
      dsimp only
      rw [bind_of_ok (store_filling _ htake hi), if_neg (by decide), sizeofReport, Nat.mul_succ,
        ← Nat.add_assoc, List.take_succ_eq_append_getElem hi])
  rw [List.take_length, Nat.sub_self, List.replicate_zero, List.append_nil] at hloop
  rw [parseReports, ← hloop]
  simp

theorem parseExt_ok (packet : ReportPacketT φ) {buffer rest : List UInt8} {offset : Nat}
    {ext : List UInt8} (h : buffer.drop offset = ext ++ rest) (hoff : offset ≤ buffer.length)
    (hlength : (packet.header.length.toNat + 1) * 4 = offset + ext.length) :
    parseExt packet buffer offset = .ok (RTCP_OK, { packet with
      extSize := ext.length, extData := if ext = [] then packet.extData else .obj ext }) := by
  have hsub : sizeSub ((packet.header.length.toNat + 1) * 4) offset = ext.length := by
    have := packet.header.length.toNat_lt
    rw [sizeSub_of_le (by omega) (by omega)]
    omega
  rw [parseExt, hsub]
  by_cases he : ext = []
  · rw [if_pos he, he]
    rfl
  · have hpos := List.length_pos_iff.mpr he
    rw [if_neg he, if_pos (by omega), bind_of_ok (slice_drop h hoff)]

/-- The packet after its bytes were read: what they do not hold it keeps. -/
def parsed (k : Kind φ) (packet : ReportPacketT φ) (c : Content φ) : ReportPacketT φ where
  header := c.header k
  fields := c.fields
  reports := if c.reports = [] then packet.reports else .obj c.reports
  extSize := c.ext.length
  extData := if c.ext = [] then packet.extData else .obj c.ext

theorem holds_parsed (k : Kind φ) (packet : ReportPacketT φ) (c : Content φ) :
    Holds k (parsed k packet c) c := by
  constructor
  · rfl
  · rfl
  · exact fun hne => if_neg hne
  · rfl
  · exact fun hne => if_neg hne

/-- The bytes of a packet, followed by anything, are read back. -/
theorem parse_encode (packet : ReportPacketT φ) (hfit : c.Fits k) (rest : List UInt8)
    {bufferSize : Nat} (hsize : c.size k ≤ bufferSize) (hlt : bufferSize < 2 ^ 64) :
    parse k packet (c.encode k ++ rest) bufferSize = .ok (RTCP_OK, parsed k packet c) := by
  have hk := four_le_fixedSize k
  have hdef : c.size k = k.fixedSize + 24 * c.reports.length + c.ext.length := rfl
  have hbuffer : c.encode k ++ rest = headerBytes (c.header k) ++ (words (k.encode c.fields) ++
      (reportsBytes c.reports ++ (c.ext ++ rest))) := by simp [Content.encode]
  have hheader : rtcpHeaderParse packet.header (c.encode k ++ rest) bufferSize
      = .ok (k.pt.toNat, c.header k) := by
    rw [hbuffer, rtcpHeaderParse_ok _ (by omega) _ rfl]
    rfl
  have d4 : (c.encode k ++ rest).drop 4 = words (k.encode c.fields) ++
      (reportsBytes c.reports ++ (c.ext ++ rest)) := by
    rw [hbuffer]
    exact List.drop_left' (length_headerBytes _)
  have dfixed := drop_add _ d4
  rw [length_words_encode, show 4 + (k.fixedSize - 4) = k.fixedSize from by omega] at dfixed
  have dext := drop_add _ dfixed
  rw [length_reportsBytes] at dext
  have hoff : k.fixedSize + 24 * c.reports.length ≤ (c.encode k ++ rest).length := by
    rw [List.length_append, length_encode]
    omega
  have hlength := hfit.length
  rw [hdef] at hlength
  rw [parse, bind_of_ok hheader]
  dsimp only
  rw [if_neg (not_not.mpr rfl), bind_of_ok (k.read_drop c.fields _ _ d4), parsed]
  by_cases hr : c.reports = []
  · have hcount : (c.header k).count = 0 := by
      rw [← BitVec.toNat_inj, hfit.count, hr]
      rfl
    rw [hr, List.length_nil, Nat.mul_zero, Nat.add_zero] at dext hoff hlength
    rw [if_neg (not_not.mpr hcount), if_pos hr]
    exact parseExt_ok { packet with header := c.header k, fields := c.fields } dext hoff hlength
  · have hcount : (c.header k).count ≠ 0 := by
      intro hzero
      have := hfit.count
      rw [hzero] at this
      exact hr (List.length_eq_zero_iff.mp this.symm)
    rw [if_pos hcount, if_neg hr, hfit.count, bind_of_ok (parseReports_ok dfixed (by omega) hlt)]
    exact parseExt_ok { packet with
      header := c.header k, fields := c.fields, reports := .obj c.reports } dext hoff hlength

/-! ## Bytes that are a packet -/

/-- The buffer is one packet of this kind: version 2, the type, a length that is its own
size, and room for as many reports as it counts. -/
def Whole (k : Kind φ) (buffer : List UInt8) : Prop :=
  (buffer.getD 0 0).toNat / 64 = 2 ∧ buffer.getD 1 0 = k.pt ∧
    (value ((buffer.drop 2).take 2) + 1) * 4 = buffer.length ∧
    k.fixedSize + 24 * ((buffer.getD 0 0).toNat % 32) ≤ buffer.length

/-- Such a buffer is the bytes of a content. -/
theorem Whole.exists_content {buffer : List UInt8} (h : Whole k buffer) :
    ∃ c : Content φ, c.Fits k ∧ buffer = c.encode k := by
  obtain ⟨hversion, hpt, hlength, hroom⟩ := h
  have hk := k.length_eq
  have h4 := four_le_fixedSize k
  obtain ⟨header, hheader⟩ := exists_header buffer (by omega)
  obtain ⟨hflags, htype, hlen⟩ := fields_of_headerBytes hheader
  have hv := header.version.isLt
  have hp := header.p.isLt
  have hc := header.count.isLt
  have hl := header.length.toNat_lt
  rw [hflags] at hversion hroom
  rw [htype] at hpt
  rw [hlen] at hlength
  have hmod : (header.version.toNat * 64 + header.p.toNat * 32 + header.count.toNat) % 32
      = header.count.toNat := by omega
  rw [hmod] at hroom
  obtain ⟨ws, hws, hwords⟩ := exists_words (buffer.drop 4) ((k.fixedSize - 4) / 4)
    (by rw [List.length_drop]; omega)
  obtain ⟨f, hf⟩ := k.exists_encode ws (by omega)
  obtain ⟨rs, hrs, hreports⟩ := exists_reports (buffer.drop k.fixedSize)
    header.count.toNat (by rw [List.length_drop]; omega)
  have hext : (buffer.drop (k.fixedSize + 24 * header.count.toNat)).length
      = buffer.length - (k.fixedSize + 24 * header.count.toNat) := List.length_drop
  have hsize : k.fixedSize + 24 * rs.length
      + (buffer.drop (k.fixedSize + 24 * header.count.toNat)).length = buffer.length := by
    rw [hrs, hext]
    omega
  refine ⟨⟨header.p, f, rs, buffer.drop (k.fixedSize + 24 * header.count.toNat)⟩, ?_, ?_⟩
  · constructor
    · change rs.length ≤ 31
      omega
    · change (buffer.drop (k.fixedSize + 24 * header.count.toNat)).length % 4 = 0
      omega
    · change k.fixedSize + 24 * rs.length
        + (buffer.drop (k.fixedSize + 24 * header.count.toNat)).length ≤ 262144
      omega
  · have hsame : Content.header k ⟨header.p, f, rs,
        buffer.drop (k.fixedSize + 24 * header.count.toNat)⟩ = header := by
      have hversion' : header.version = 2 := by
        rw [← BitVec.toNat_inj]
        change header.version.toNat = 2
        omega
      have hcount : BitVec.ofNat 5 rs.length = header.count := by
        rw [hrs, BitVec.ofNat_toNat, BitVec.setWidth_eq]
      have hlength' : UInt16.ofNat (buffer.length / 4 - 1) = header.length := by
        rw [← UInt16.toNat_inj, UInt16.toNat_ofNat']
        omega
      rw [Content.header, Content.size, hsize, hcount, hlength', ← hversion', ← hpt]
    rw [List.drop_drop] at hwords hreports
    rw [show 4 + 4 * ((k.fixedSize - 4) / 4) = k.fixedSize from by omega] at hwords
    rw [Content.encode, hsame, hf, List.append_assoc, List.append_assoc, ← hreports, ← hwords,
      ← hheader]

/-- The parser accepts such a buffer, and serializing what it found gives it back. -/
theorem Whole.serialize_parse {buffer : List UInt8} (h : Whole k buffer) :
    ∃ packet, parse k (create k) buffer buffer.length = .ok (RTCP_OK, packet) ∧
      ∀ out : List UInt8, buffer.length ≤ out.length → out.length < 2 ^ 64 →
        serialize k packet out out.length
          = .ok (buffer.length, buffer ++ out.drop buffer.length) := by
  obtain ⟨c, hfit, hbuffer⟩ := h.exists_content
  have hsize : buffer.length = c.size k := by rw [hbuffer, length_encode]
  have hle := hfit.size
  have hparse := parse_encode (create k) hfit [] (Nat.le_refl (c.size k)) (by omega)
  rw [List.append_nil, ← hbuffer] at hparse
  refine ⟨_, by rw [hsize]; exact hparse, fun out hout hlt => ?_⟩
  rw [serialize_ok (holds_parsed k _ c) hfit (by omega) hlt (by omega), ← hbuffer, hsize]

end RtpSdr.Rtp.ReportPacket
