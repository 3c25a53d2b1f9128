import RtpSdr.Rtp.EntryList
import RtpSdr.Rtp.Sdes

/-!
# Goodbye packets: `rtcp_bye.c`

A list of sources and a reason for leaving. The reason is a C string in memory and
carries its length on the wire, where it is filled up to a word. The parser puts the
terminator one byte behind the block it has reserved.
-/
namespace RtpSdr.Rtp.Bye

open RtpSdr.Lib.Checked
open RtpSdr.Lib.Memory
open RtpSdr.Lib.BigEndian
open RtpSdr.Rtp.Util
open RtpSdr.Rtp.RtcpHeader
open RtpSdr.Rtp.EntryList
open RtpSdr.Rtp.Sdes (roundUp roundUp_spec)

def RTCP_BYE : UInt8 := 203

/-- `rtcp_bye`. -/
structure RtcpBye where
  header : RtcpHeaderT
  srcIds : Ptr (List UInt32)
  message : Ptr (List UInt8)

section Source

def rtcpByeCreate : RtcpBye := ⟨⟨0, 0, 0, 0, 0⟩, .null, .null⟩

def rtcpByeInit (packet : RtcpBye) : RtcpBye :=
  { packet with header := { packet.header with version := 2, pt := RTCP_BYE } }

def rtcpByeSize (packet : RtcpBye) : Exec Nat :=
  let size := 4 + packet.header.count.toNat * 4
  if packet.message.isSet then do
    let message ← packet.message.deref
    let length ← strlen message
    .ok (roundUp (size + (1 + length)))
  else .ok size

/-- The loop over the sources. -/
def serializeSources (packet : RtcpBye) (buffer : List UInt8) : Exec (List UInt8) :=
  forUp (fun i buffer => do
    let srcIds ← packet.srcIds.deref
    let srcId ← load srcIds i
    writeU32 buffer (4 + i * 4) srcId) packet.header.count.toNat buffer

/-- The message goes to `buffer + offset`; the result for a packet of `packetSize` bytes. -/
def serializeMessage (message buffer : List UInt8) (offset packetSize : Nat) :
    Exec (Int × List UInt8) := do
  let length ← strlen message
  if length > 0xff then .ok (RTCP_ERROR, buffer)
  else do
    let buffer ← store buffer offset (UInt8.ofNat length)
    let text ← slice message 0 length
    let buffer ← blit buffer (offset + 1) text
    .ok (castInt packetSize, buffer)

/-- The result and the buffer afterwards. -/
def rtcpByeSerialize (packet : RtcpBye) (buffer : List UInt8) (size : Nat) :
    Exec (Int × List UInt8) := do
  let packetSize ← rtcpByeSize packet
  if size < packetSize then .ok (RTCP_ERROR, buffer)
  else do
    let (r, buffer) ← rtcpHeaderSerialize packet.header buffer size
    if r < 0 then .ok (RTCP_ERROR, buffer)
    else do
      let buffer ← serializeSources packet buffer
      if packet.message.isSet then do
        let message ← packet.message.deref
        serializeMessage message buffer (4 + packet.header.count.toNat * 4) packetSize
      else .ok (castInt packetSize, buffer)

/-- The end of the parser: a message, if anything is left behind `offset`. -/
def parseMessage (packet : RtcpBye) (buffer : List UInt8) (size offset : Nat) :
    Exec (Int × Ptr RtcpBye) :=
  if size > offset then do
    let b ← load buffer offset
    let length := if b.toNat > size - (offset + 1) then size - (offset + 1) else b.toNat
    let message := realloc [] (length + 1) 0
    let text ← slice buffer (offset + 1) length
    let message ← blit message 0 text
    let message ← store message (length + 1) 0
    .ok (RTCP_OK, .obj { packet with message := .obj message })
  else .ok (RTCP_OK, .obj packet)

/-- The result and the packet afterwards, which one of the errors frees. -/
def rtcpByeParse (packet : RtcpBye) (buffer : List UInt8) (size : Nat) :
    Exec (Int × Ptr RtcpBye) :=
  if size < 4 then .ok (RTCP_ERROR, .obj packet)
  else do
    let (pt, header) ← rtcpHeaderParse packet.header buffer size
    let packet := { packet with header := header }
    if pt ≠ RTCP_BYE.toNat then .ok (RTCP_ERROR, .obj packet)
    else if packet.header.count ≠ 0 then
      if size < 4 + 4 * packet.header.count.toNat then .ok (RTCP_ERROR, .freed)
      else do
        let srcIds ← readWords buffer 4 packet.header.count.toNat
        parseMessage { packet with srcIds := .obj srcIds } buffer size
          (4 + 4 * packet.header.count.toNat)
    else parseMessage packet buffer size 4

def rtcpByeFindSource (packet : RtcpBye) (srcId : UInt32) : Exec (Option Nat) :=
  find packet.srcIds packet.header.count.toNat (· == srcId)

def withLength (packet : RtcpBye) (length : UInt16) : RtcpBye :=
  { packet with header := { packet.header with length := length } }

/-- The update of the header length. -/
def updateLength (packet : RtcpBye) : Exec RtcpBye := do
  let size ← rtcpByeSize packet
  .ok (withLength packet (UInt16.ofNat (sizeSub (size / 4) 1)))

/-- The result and the packet afterwards. -/
def rtcpByeAddSource (packet : RtcpBye) (srcId : UInt32) : Exec (Int × RtcpBye) := do
  let added ← addEntry packet.header.count packet.srcIds 0 (· == srcId) srcId
  match added with
  | none => .ok (RTCP_ERROR, packet)
  | some (count, srcIds) => do
    let packet ← updateLength { packet with
      header := { packet.header with count := count }, srcIds := .obj srcIds }
    .ok (RTCP_OK, packet)

/-- `behind` are the words that the move may read behind the array. -/
def rtcpByeRemoveSource (packet : RtcpBye) (srcId : UInt32) (behind : List UInt32) :
    Exec RtcpBye := do
  let found ← rtcpByeFindSource packet srcId
  match found with
  | none => .ok packet
  | some index => do
    let (count, srcIds) ← removeEntry packet.header.count packet.srcIds behind 0 index
    updateLength { packet with
      header := { packet.header with count := count }, srcIds := srcIds }

/-- The result and the packet afterwards; `message` is the block the argument points to. -/
def rtcpByeSetMessage (packet : RtcpBye) (message : List UInt8) : Exec (Int × RtcpBye) :=
  if packet.message.isSet then .ok (RTCP_ERROR, packet)
  else do
    let size ← strlen message
    let text ← slice message 0 size
    let block ← blit (realloc [] (size + 1) 0) 0 (text ++ [0])
    let packet ← updateLength { packet with message := .obj block }
    .ok (RTCP_OK, packet)

def rtcpByeClearMessage (packet : RtcpBye) : Exec RtcpBye :=
  updateLength { packet with message := .null }

end Source

section WithLength

variable (packet : RtcpBye) (length : UInt16)

@[simp] theorem withLength_version :
    (withLength packet length).header.version = packet.header.version := rfl

@[simp] theorem withLength_p : (withLength packet length).header.p = packet.header.p := rfl

@[simp] theorem withLength_pt : (withLength packet length).header.pt = packet.header.pt := rfl

@[simp] theorem withLength_count :
    (withLength packet length).header.count = packet.header.count := rfl

@[simp] theorem withLength_length : (withLength packet length).header.length = length := rfl

@[simp] theorem withLength_srcIds : (withLength packet length).srcIds = packet.srcIds := rfl

@[simp] theorem withLength_message : (withLength packet length).message = packet.message := rfl

end WithLength

/-! ## The content of a packet -/

/-- The sources and the message. -/
structure Content where
  srcIds : List UInt32
  message : Option (List UInt8)

/-- The message's part of a packet that is `size` bytes without it. -/
def sizeWith (size : Nat) : Option (List UInt8) → Nat
  | none => size
  | some text => roundUp (size + (1 + text.length))

def Content.size (c : Content) : Nat := sizeWith (4 + c.srcIds.length * 4) c.message

def messagePtr : Option (List UInt8) → Ptr (List UInt8)
  | none => .null
  | some text => .obj (text ++ [0])

/-- The packet structure holds the content. -/
structure Holds (packet : RtcpBye) (c : Content) : Prop where
  srcIds : Held packet.header.count packet.srcIds c.srcIds
  message : packet.message = messagePtr c.message
  noNul : ∀ text, c.message = some text → 0 ∉ text

/-- A message in front of a length byte. -/
def messageBytes : Option (List UInt8) → List UInt8
  | none => []
  | some text => UInt8.ofNat text.length :: text

/-- What is written of a packet: everything but the bytes behind the message. -/
def encode (header : RtcpHeaderT) (c : Content) : List UInt8 :=
  headerBytes header ++ words c.srcIds ++ messageBytes c.message

variable {packet : RtcpBye} {c : Content}

theorem rtcpByeSize_ok (h : Holds packet c) : rtcpByeSize packet = .ok c.size := by
  rw [rtcpByeSize, h.message, h.srcIds.count, Content.size]
  cases hmessage : c.message with
  | none => rfl
  | some text =>
    rw [messagePtr, if_pos (Ptr.isSet_obj _), Ptr.deref_obj, ok_bind,
      bind_of_ok (strlen_append [] (h.noNul text hmessage)), sizeWith]

/-- The header length has no part in the content. -/
theorem holds_withLength (h : Holds packet c) (length : UInt16) :
    Holds (withLength packet length) c := by
  constructor
  · rw [withLength_count, withLength_srcIds]
    exact h.srcIds
  · rw [withLength_message]
    exact h.message
  · exact h.noNul

theorem length_encode (header : RtcpHeaderT) (c : Content) :
    (encode header c).length = 4 + c.srcIds.length * 4 + (messageBytes c.message).length := by
  rw [encode, List.length_append, List.length_append, length_headerBytes, length_words]
  omega

theorem length_encode_le (header : RtcpHeaderT) (c : Content) :
    (encode header c).length ≤ c.size := by
  rw [length_encode, Content.size]
  cases c.message with
  | none => exact Nat.le_refl _
  | some text =>
    have hround := roundUp_spec (4 + c.srcIds.length * 4 + (1 + text.length))
    rw [sizeWith, messageBytes, List.length_cons]
    omega

/-! ## Serializing -/

theorem serializeSources_ok (h : Holds packet c) {w zs : List UInt8} (hw : w.length = 4)
    (hzs : 4 * c.srcIds.length ≤ zs.length) :
    serializeSources packet (w ++ zs)
      = .ok (w ++ words c.srcIds ++ zs.drop (4 * c.srcIds.length)) := by
  rw [← writeWords_ok c.srcIds hw hzs, serializeSources, h.srcIds.count]
  cases hnil : c.srcIds with
  | nil => rfl
  | cons srcId srcIds =>
    rw [← hnil, h.srcIds.entries (by rw [hnil]; exact List.cons_ne_nil _ _)]
    rfl

theorem serializeMessage_ok {text w zs : List UInt8} (hzero : 0 ∉ text) (hlen : text.length ≤ 255)
    {offset : Nat} (hw : w.length = offset) (hzs : 1 + text.length ≤ zs.length)
    (packetSize : Nat) :
    serializeMessage (text ++ [0]) (w ++ zs) offset packetSize
      = .ok (castInt packetSize, w ++ messageBytes (some text) ++ zs.drop (1 + text.length)) := by
  have hslice : slice (text ++ [0]) 0 text.length = .ok text :=
    slice_drop (show (text ++ [0]).drop 0 = text ++ [0] from rfl) (Nat.zero_le _)
  have hlength : blit (w ++ zs) offset [UInt8.ofNat text.length]
      = .ok (w ++ [UInt8.ofNat text.length] ++ zs.drop 1) := blit_append hw rfl (by omega)
  have htext : blit (w ++ [UInt8.ofNat text.length] ++ zs.drop 1) (offset + 1) text
      = .ok (w ++ [UInt8.ofNat text.length] ++ text ++ (zs.drop 1).drop text.length) :=
    blit_append (by rw [List.length_append, hw]; rfl) rfl (by rw [List.length_drop]; omega)
  rw [serializeMessage, bind_of_ok (strlen_append [] hzero), if_neg (by omega), store_eq_blit,
    bind_of_ok hlength, bind_of_ok hslice, bind_of_ok htext, List.drop_drop, messageBytes,
    List.append_assoc w]
  rfl

theorem serializeMessage_long {text : List UInt8} (hzero : 0 ∉ text) (hlen : 255 < text.length)
    (buffer : List UInt8) (offset packetSize : Nat) :
    serializeMessage (text ++ [0]) buffer offset packetSize = .ok (RTCP_ERROR, buffer) := by
  rw [serializeMessage, bind_of_ok (strlen_append [] hzero), if_pos hlen]

/-- The buffer once the header and the sources are in front of it. -/
def withSources (packet : RtcpBye) (srcIds : List UInt32) (buffer : List UInt8) : List UInt8 :=
  headerBytes packet.header ++ words srcIds ++ buffer.drop (4 + srcIds.length * 4)

/-- What remains behind the sources is the message. -/
theorem rtcpByeSerialize_sources (h : Holds packet c) {buffer : List UInt8} {size : Nat}
    (hbuffer : c.size ≤ buffer.length) (hsize : c.size ≤ size) :
    rtcpByeSerialize packet buffer size = match c.message with
      | none => .ok (castInt c.size, withSources packet c.srcIds buffer)
      | some text => serializeMessage (text ++ [0]) (withSources packet c.srcIds buffer)
          (4 + c.srcIds.length * 4) c.size := by
  have hle := length_encode_le packet.header c
  have hencode := length_encode packet.header c
  have hheader : rtcpHeaderSerialize packet.header buffer size
      = .ok (4, headerBytes packet.header ++ buffer.drop 4) := by
    rw [rtcpHeaderSerialize_eq buffer (by omega), blit_of_le (by rw [length_headerBytes]; omega),
      ok_bind, put_zero, length_headerBytes]
  have hsources := serializeSources_ok h (length_headerBytes packet.header)
    (show 4 * c.srcIds.length ≤ (buffer.drop 4).length by rw [List.length_drop]; omega)
  rw [List.drop_drop, Nat.mul_comm 4] at hsources
  rw [rtcpByeSerialize, bind_of_ok (rtcpByeSize_ok h), if_neg (by omega), bind_of_ok hheader]
  dsimp only
  rw [if_neg (by decide), bind_of_ok hsources, h.message, ← withSources, h.srcIds.count]
  cases c.message with
  | none => rw [messagePtr, if_neg (by decide)]
  | some text => rw [messagePtr, if_pos (Ptr.isSet_obj _), Ptr.deref_obj, ok_bind]

/-- The bytes behind the message keep what the buffer held. -/
theorem rtcpByeSerialize_ok (h : Holds packet c) {buffer : List UInt8} {size : Nat}
    (hbuffer : c.size ≤ buffer.length) (hsize : c.size ≤ size)
    (hlen : ∀ text, c.message = some text → text.length ≤ 255) :
    rtcpByeSerialize packet buffer size = .ok (castInt c.size,
      encode packet.header c ++ buffer.drop (encode packet.header c).length) := by
  have hle := length_encode_le packet.header c
  have hencode := length_encode packet.header c
  have hwords : (headerBytes packet.header ++ words c.srcIds).length = 4 + c.srcIds.length * 4 := by
    rw [List.length_append, length_headerBytes, length_words]
    omega
  rw [rtcpByeSerialize_sources h hbuffer hsize, hencode, encode]
  cases hmessage : c.message with
  | none => rw [messageBytes, List.append_nil, List.length_nil, Nat.add_zero, withSources]
  | some text =>
    rw [hmessage, messageBytes, List.length_cons] at hencode
    dsimp only
    rw [withSources, serializeMessage_ok (h.noNul text hmessage) (hlen text hmessage) hwords
        (by rw [List.length_drop]; omega), List.drop_drop]
    congr 4
    rw [messageBytes, List.length_cons]
    omega

/-- A message that is too long is refused behind the sources. -/
theorem rtcpByeSerialize_long (h : Holds packet c) {buffer : List UInt8} {size : Nat}
    (hbuffer : c.size ≤ buffer.length) (hsize : c.size ≤ size) {text : List UInt8}
    (hmessage : c.message = some text) (hlen : 255 < text.length) :
    rtcpByeSerialize packet buffer size
      = .ok (RTCP_ERROR, withSources packet c.srcIds buffer) := by
  rw [rtcpByeSerialize_sources h hbuffer hsize, hmessage]
  exact serializeMessage_long (h.noNul text hmessage) hlen _ _ _

/-! ## Parsing -/

section Parse

variable {buffer : List UInt8} {size offset : Nat}

theorem parseMessage_none (packet : RtcpBye) (h : size ≤ offset) :
    parseMessage packet buffer size offset = .ok (RTCP_OK, .obj packet) := if_neg (by omega)

/-- The terminator is stored behind the block, whatever the message. -/
theorem parseMessage_fault (packet : RtcpBye) (h : offset < size) (hsize : size ≤ buffer.length) :
    parseMessage packet buffer size offset = .error .bounds := by
  rw [parseMessage, if_pos h, bind_of_ok (load_of_lt 0 (by omega))]
  generalize buffer.getD offset 0 = b
  dsimp only
  generalize hlength : (if b.toNat > size - (offset + 1) then size - (offset + 1) else b.toNat)
    = length
  have hle : length ≤ size - (offset + 1) := by
    rw [← hlength]
    split <;> omega
  have hblock : (realloc [] (length + 1) 0 : List UInt8).length = length + 1 := by simp [realloc]
  have htext : ((buffer.drop (offset + 1)).take length).length = length := by
    rw [List.length_take, List.length_drop]
    omega
  have hput : (put (realloc [] (length + 1) 0) 0 ((buffer.drop (offset + 1)).take length)).length
      = length + 1 := by
    rw [length_put (by omega), hblock]
  have hstore : store (put (realloc [] (length + 1) 0) 0
      ((buffer.drop (offset + 1)).take length)) (length + 1) 0 = .error .bounds :=
    if_neg (by omega)
  rw [bind_of_ok (slice_of_le (by omega)), bind_of_ok (blit_of_le (by omega)), hstore, error_bind]

/-- The header and the sources are read back. -/
theorem rtcpByeParse_sources (packet : RtcpBye) (size : Nat) {header : RtcpHeaderT}
    {srcIds : List UInt32} (hversion : header.version = 2) (hpt : header.pt = RTCP_BYE)
    (hcount : header.count.toNat = srcIds.length) (rest : List UInt8)
    (hsize : 4 + 4 * srcIds.length ≤ size) :
    ∃ p, (srcIds ≠ [] → p = .obj srcIds) ∧ (srcIds = [] → p = packet.srcIds) ∧
      rtcpByeParse packet (headerBytes header ++ words srcIds ++ rest) size
        = parseMessage ⟨header, p, packet.message⟩ (headerBytes header ++ words srcIds ++ rest) size
          (4 + 4 * srcIds.length) := by
  have hheader : rtcpHeaderParse packet.header (headerBytes header ++ words srcIds ++ rest) size
      = .ok (header.pt.toNat, header) := by
    rw [List.append_assoc, rtcpHeaderParse_ok packet.header (by omega) _ hversion]
  have hdrop : (headerBytes header ++ words srcIds ++ rest).drop 4 = words srcIds ++ rest := by
    rw [List.append_assoc, List.drop_left' (length_headerBytes header)]
  rw [rtcpByeParse, if_neg (by omega), bind_of_ok hheader]
  dsimp only
  rw [if_neg (by rw [hpt]; exact not_not.mpr rfl), hcount]
  by_cases hzero : header.count = 0
  · have hnil : srcIds = [] := (held_obj hcount).eq_nil hzero
    subst hnil
    refine ⟨packet.srcIds, fun h => absurd rfl h, fun _ => rfl, ?_⟩
    rw [if_neg (not_not.mpr hzero)]
    rfl
  · refine ⟨.obj srcIds, fun _ => rfl, fun hnil => ?_, ?_⟩
    · rw [hnil] at hcount
      exact absurd (BitVec.eq_of_toNat_eq hcount) hzero
    · rw [if_pos hzero, if_neg (by omega), bind_of_ok (readWords_drop srcIds hdrop)]

/-- A call that parses a message does not return. -/
theorem parseMessage_returns {r : Int} {p : Ptr RtcpBye}
    (hrun : parseMessage packet buffer size offset = .ok (r, p)) : p = .obj packet := by
  by_cases hlt : offset < size
  · rw [parseMessage, if_pos hlt] at hrun
    obtain ⟨b, -, hrun⟩ := bind_eq_ok.mp hrun
    obtain ⟨text, hslice, hrun⟩ := bind_eq_ok.mp hrun
    obtain ⟨block, hblit, hrun⟩ := bind_eq_ok.mp hrun
    obtain ⟨block', hstore, -⟩ := bind_eq_ok.mp hrun
    have hlen := length_of_blit hblit
    have hlast := (store_eq_ok hstore).1
    rw [hlen, realloc, List.take_nil, List.nil_append, List.length_replicate, List.length_nil]
      at hlast
    omega
  · rw [parseMessage_none packet (by omega)] at hrun
    cases hrun
    rfl

end Parse

end RtpSdr.Rtp.Bye
