import RtpSdr.Lib.Output
import RtpSdr.Rtp.HeaderEdit
import RtpSdr.Rtp.Packet

/-!
# What a serialized RTP packet shows of the buffer

Nothing, where there is a serialized packet: the header is cleared before it is written. Not
every packet is serialized. The loop over 256 extension words or more, which counts in a byte,
does not end. A parser that fails leaves a count of sources that belongs to no list: the
serializer reads behind a list that is shorter, and where there is none it puts the extension
behind the room for one, which the size does not count.
-/
namespace RtpSdr.Rtp.PacketOutput

open RtpSdr.Lib.Checked
open RtpSdr.Lib.Memory
open RtpSdr.Lib.BigEndian (length_bytes)
open RtpSdr.Lib.Output
open RtpSdr.Rtp.Util
open RtpSdr.Rtp.EntryList
open RtpSdr.Rtp.Header
open RtpSdr.Rtp.HeaderEdit
open RtpSdr.Rtp.Packet

/-! ## The packets of a program -/

/-- What a program does with a packet. Fields that no function sets are assigned. -/
inductive Use where
  | init (pt : UInt8) (ssrc : UInt32) (seq : UInt16) (ts : UInt32)
  | assign (x m : BitVec 1) (pt : BitVec 7) (seq : UInt16) (ts ssrc : UInt32)
  | addCsrc (csrc : UInt32)
  | removeCsrc (csrc : UInt32) (behind : List UInt32)
  | setExt (id : UInt16) (data : List UInt32) (count : UInt16)
  | clearExt
  | setPayload (data : List UInt8) (off size : Nat)
  | clearPayload
  | parse (buffer : List UInt8) (size : Nat)

def withHeader (packet : RtpPacket) (header : RtpHeader) : RtpPacket :=
  { packet with header := header }

/-- The packet afterwards, whatever the call returned. -/
def use (packet : RtpPacket) : Use → Exec RtpPacket
  | .init pt ssrc seq ts => .ok (withHeader packet (rtpHeaderInit packet.header pt ssrc seq ts))
  | .assign x m pt seq ts ssrc => .ok (withHeader packet { packet.header with
      x := x, m := m, pt := pt, seq := seq, ts := ts, ssrc := ssrc })
  | .addCsrc csrc => do
    let (_, header) ← rtpHeaderAddCsrc packet.header csrc
    .ok (withHeader packet header)
  | .removeCsrc csrc behind => do
    let header ← rtpHeaderRemoveCsrc packet.header csrc behind
    .ok (withHeader packet header)
  | .setExt id data count => do
    let (_, header) ← rtpHeaderSetExt packet.header id data count
    .ok (withHeader packet header)
  | .clearExt => do
    let header ← rtpHeaderClearExt packet.header
    .ok (withHeader packet header)
  | .setPayload data off size => do
    let (_, packet) ← rtpPacketSetPayload packet data off size
    .ok packet
  | .clearPayload => .ok (rtpPacketClearPayload packet)
  | .parse buffer size => do
    let (_, packet) ← rtpPacketParse packet buffer size
    .ok packet

/-- The header has as many extension words as it counts. -/
structure Extended (header : RtpHeader) (ws : List UInt32) : Prop where
  extCount : header.extCount.toNat = ws.length
  extData : ws ≠ [] → header.extData = .obj ws

structure Block (packet : RtpPacket) (payload : List UInt8) : Prop where
  payloadSize : packet.payloadSize = payload.length
  payloadData : payload ≠ [] → packet.payloadData = .obj payload

structure Sound (packet : RtpPacket) : Prop where
  ext : ∃ ws, Extended packet.header ws
  block : ∃ payload, Block packet payload

variable {header header' : RtpHeader} {packet packet' : RtpPacket} {csrc ws : List UInt32}
  {payload : List UInt8}

/-- The other fields have no part in it. -/
theorem Extended.of_eq (h : Extended header ws) (hcount : header'.extCount = header.extCount)
    (hdata : header'.extData = header.extData) : Extended header' ws := by
  constructor
  · rw [hcount]
    exact h.extCount
  · rw [hdata]
    exact h.extData

theorem sound_withHeader (h : Sound packet) (hext : ∃ ws, Extended header ws) :
    Sound (withHeader packet header) := by
  obtain ⟨payload, hblock⟩ := h.block
  exact ⟨hext, payload, hblock.payloadSize, hblock.payloadData⟩

/-! ### The header -/

theorem addCsrc_extended (h : Extended header ws) {id : UInt32} {r : Int}
    (hrun : rtpHeaderAddCsrc header id = .ok (r, header')) : Extended header' ws := by
  obtain ⟨added, -, hrun⟩ := bind_eq_ok.mp hrun
  cases added with
  | none =>
    cases hrun
    exact h
  | some added =>
    cases hrun
    exact h.of_eq rfl rfl

theorem removeCsrc_extended (h : Extended header ws) {id : UInt32} {behind : List UInt32}
    (hrun : rtpHeaderRemoveCsrc header id behind = .ok header') : Extended header' ws := by
  obtain ⟨found, -, hrun⟩ := bind_eq_ok.mp hrun
  cases found with
  | none =>
    cases hrun
    exact h
  | some index =>
    obtain ⟨removed, -, hrun⟩ := bind_eq_ok.mp hrun
    cases hrun
    exact h.of_eq rfl rfl

theorem setExt_extended (h : Extended header ws) {id count : UInt16} {data : List UInt32} {r : Int}
    (hrun : rtpHeaderSetExt header id data count = .ok (r, header')) :
    ∃ ws', Extended header' ws' := by
  rw [rtpHeaderSetExt] at hrun
  cases hset : header.extData.isSet with
  | true =>
    rw [hset, if_pos rfl] at hrun
    cases hrun
    exact ⟨ws, h⟩
  | false =>
    rw [hset, if_neg (by decide)] at hrun
    obtain ⟨words, hslice, hrun⟩ := bind_eq_ok.mp hrun
    cases hrun
    exact ⟨words, (length_of_slice hslice).symm, fun _ => rfl⟩

theorem clearExt_extended (h : Extended header ws)
    (hrun : rtpHeaderClearExt header = .ok header') : ∃ ws', Extended header' ws' := by
  rw [rtpHeaderClearExt] at hrun
  cases hset : header.extData.isSet with
  | true =>
    rw [hset, if_pos rfl] at hrun
    obtain ⟨extData, -, hrun⟩ := bind_eq_ok.mp hrun
    cases hrun
    exact ⟨[], rfl, fun hne => absurd rfl hne⟩
  | false =>
    rw [hset, if_neg (by decide)] at hrun
    cases hrun
    exact ⟨ws, h⟩

theorem parseCsrc_extended (h : Extended header ws) {buffer : List UInt8}
    (hrun : parseCsrc header buffer = .ok header') : Extended header' ws := by
  rw [parseCsrc] at hrun
  by_cases hcc : header.cc ≠ 0
  · rw [if_pos hcc] at hrun
    obtain ⟨csrc, -, hrun⟩ := bind_eq_ok.mp hrun
    cases hrun
    exact h.of_eq rfl rfl
  · rw [if_neg hcc] at hrun
    cases hrun
    exact h

theorem parseExt_extended (h : Extended header ws) {buffer : List UInt8}
    (hrun : parseExt header buffer = .ok header') : ∃ ws', Extended header' ws' := by
  rw [parseExt] at hrun
  by_cases hx : header.x ≠ 0
  · rw [if_pos hx] at hrun
    obtain ⟨id, -, hrun⟩ := bind_eq_ok.mp hrun
    obtain ⟨count, -, hrun⟩ := bind_eq_ok.mp hrun
    obtain ⟨words, hread, hrun⟩ := bind_eq_ok.mp hrun
    cases hrun
    exact ⟨words, (length_of_readWords hread).symm, fun _ => rfl⟩
  · rw [if_neg hx] at hrun
    cases hrun
    exact ⟨ws, h⟩

/-- The parser replaces the words of the header by those it reads, or keeps them. -/
theorem headerParse_extended (h : Extended header ws) {buffer : List UInt8} {size : Nat} {r : Int}
    (hrun : rtpHeaderParse header buffer size = .ok (r, header')) :
    ∃ ws', Extended header' ws' := by
  rw [rtpHeaderParse] at hrun
  split at hrun
  · cases hrun
    exact ⟨ws, h⟩
  · obtain ⟨b0, -, hrun⟩ := bind_eq_ok.mp hrun
    dsimp only at hrun
    split at hrun
    · cases hrun
      exact ⟨ws, h.of_eq rfl rfl⟩
    · obtain ⟨b1, -, hrun⟩ := bind_eq_ok.mp hrun
      split at hrun
      · cases hrun
        exact ⟨ws, h.of_eq rfl rfl⟩
      · obtain ⟨seq, -, hrun⟩ := bind_eq_ok.mp hrun
        obtain ⟨ts, -, hrun⟩ := bind_eq_ok.mp hrun
        obtain ⟨ssrc, -, hrun⟩ := bind_eq_ok.mp hrun
        split at hrun
        · cases hrun
          exact ⟨ws, h.of_eq rfl rfl⟩
        · obtain ⟨h₁, hcsrc, hrun⟩ := bind_eq_ok.mp hrun
          obtain ⟨h₂, hext, hrun⟩ := bind_eq_ok.mp hrun
          cases hrun
          have hext₁ : Extended h₁ ws := by
            refine parseCsrc_extended ?_ hcsrc
            exact h.of_eq rfl rfl
          exact parseExt_extended hext₁ hext

/-! ### The packet -/

theorem setPayload_sound (h : Sound packet) {data : List UInt8} {off size : Nat} {r : Int}
    (hrun : rtpPacketSetPayload packet data off size = .ok (r, packet')) : Sound packet' := by
  rw [rtpPacketSetPayload] at hrun
  cases hset : packet.payloadData.isSet with
  | true =>
    rw [hset, if_pos rfl] at hrun
    cases hrun
    exact h
  | false =>
    rw [hset, if_neg (by decide)] at hrun
    obtain ⟨bytes, hslice, hrun⟩ := bind_eq_ok.mp hrun
    cases hrun
    exact ⟨h.ext, bytes, (length_of_slice hslice).symm, fun _ => rfl⟩

theorem clearPayload_sound (h : Sound packet) : Sound (rtpPacketClearPayload packet) := by
  rw [rtpPacketClearPayload]
  cases packet.payloadData.isSet with
  | true =>
    rw [if_pos rfl]
    exact ⟨h.ext, [], rfl, fun hne => absurd rfl hne⟩
  | false =>
    rw [if_neg (by decide)]
    exact h

theorem parse_sound (h : Sound packet) {buffer : List UInt8} {size : Nat} {r : Int}
    (hrun : rtpPacketParse packet buffer size = .ok (r, packet')) : Sound packet' := by
  obtain ⟨ws, hext⟩ := h.ext
  obtain ⟨⟨r, header⟩, hheader, hrun⟩ := bind_eq_ok.mp hrun
  have hsound : Sound (withHeader packet header) :=
    sound_withHeader h (headerParse_extended hext hheader)
  dsimp only at hrun
  by_cases hr : r < 0
  · rw [if_pos hr] at hrun
    cases hrun
    exact hsound
  · rw [if_neg hr] at hrun
    obtain ⟨⟨r', packet₁⟩, hset, hrun⟩ := bind_eq_ok.mp hrun
    cases hrun
    exact setPayload_sound hsound hset

theorem use_sound (h : Sound packet) {u : Use} (hrun : use packet u = .ok packet') :
    Sound packet' := by
  obtain ⟨ws, hext⟩ := h.ext
  cases u with
  | init pt ssrc seq ts =>
    cases hrun
    exact sound_withHeader h ⟨ws, hext.of_eq rfl rfl⟩
  | assign x m pt seq ts ssrc =>
    cases hrun
    exact sound_withHeader h ⟨ws, hext.of_eq rfl rfl⟩
  | addCsrc id =>
    obtain ⟨⟨r, header⟩, hadd, hrun⟩ := bind_eq_ok.mp hrun
    cases hrun
    exact sound_withHeader h ⟨ws, addCsrc_extended hext hadd⟩
  | removeCsrc id behind =>
    obtain ⟨header, hremove, hrun⟩ := bind_eq_ok.mp hrun
    cases hrun
    exact sound_withHeader h ⟨ws, removeCsrc_extended hext hremove⟩
  | setExt id data count =>
    obtain ⟨⟨r, header⟩, hset, hrun⟩ := bind_eq_ok.mp hrun
    cases hrun
    exact sound_withHeader h (setExt_extended hext hset)
  | clearExt =>
    obtain ⟨header, hclear, hrun⟩ := bind_eq_ok.mp hrun
    cases hrun
    exact sound_withHeader h (clearExt_extended hext hclear)
  | setPayload data off size =>
    obtain ⟨⟨r, packet₁⟩, hset, hrun⟩ := bind_eq_ok.mp hrun
    cases hrun
    exact setPayload_sound h hset
  | clearPayload =>
    cases hrun
    exact clearPayload_sound h
  | parse buffer size =>
    obtain ⟨⟨r, packet₁⟩, hparse, hrun⟩ := bind_eq_ok.mp hrun
    cases hrun
    exact parse_sound h hparse

theorem reached_sound (h : Reached use rtpPacketCreate packet) : Sound packet :=
  h.invariant ⟨⟨[], rfl, fun hne => absurd rfl hne⟩, [], rfl, fun hne => absurd rfl hne⟩
    fun _ _ _ hs hrun => use_sound hs hrun

/-! ## What the serializer shows -/

/-- The size of a packet in bytes, as a natural number. -/
def need (packet : RtpPacket) : Nat := rtpHeaderSize packet.header + packet.payloadSize

/-- The bytes that a serialized packet shows are its own. The loop over the extension is
granted as many passes as it needs. -/
def OwnBytes (packet : RtpPacket) : Prop :=
  Independent (fun buffer r => ∃ fuel, rtpPacketSerialize fuel packet buffer buffer.length = .ok r)
    (Enough (.ok (need packet)))

/-- The header without what the serializer does not look at. -/
def normal (header : RtpHeader) : RtpHeader :=
  { header with version := 2, p := 0, x := if header.extCount = 0 then 0 else header.x }

/-- The extension of a header that the serializer writes. -/
def extOf (header : RtpHeader) (ws : List UInt32) : Option (UInt16 × List UInt32) :=
  if header.x ≠ 0 ∧ header.extCount ≠ 0 then some (header.extId, ws) else none

def contentOf (header : RtpHeader) (csrc ws : List UInt32) : Content :=
  ⟨header.m, header.pt, header.seq, header.ts, header.ssrc, csrc, extOf header ws⟩

/-- An extension that is written is announced and has words. -/
theorem extOf_eq_some {id : UInt16} {us : List UInt32} (he : extOf header ws = some (id, us)) :
    (header.x ≠ 0 ∧ header.extCount ≠ 0) ∧ id = header.extId ∧ us = ws := by
  rw [extOf] at he
  by_cases hext : header.x ≠ 0 ∧ header.extCount ≠ 0
  · rw [if_pos hext] at he
    cases he
    exact ⟨hext, rfl, rfl⟩
  · rw [if_neg hext] at he
    cases he

theorem normal_extended (header : RtpHeader) :
    (decide ((normal header).x ≠ 0) && decide ((normal header).extCount ≠ 0))
      = (decide (header.x ≠ 0) && decide (header.extCount ≠ 0)) := by
  change (decide ((if header.extCount = 0 then 0 else header.x) ≠ 0)
    && decide (header.extCount ≠ 0)) = _
  by_cases hcount : header.extCount = 0
  · rw [decide_eq_false (not_not.mpr hcount), Bool.and_false, Bool.and_false]
  · rw [if_neg hcount]

theorem rtpHeaderSize_normal (header : RtpHeader) :
    rtpHeaderSize (normal header) = rtpHeaderSize header := by
  simp only [rtpHeaderSize, normal_extended]
  rfl

theorem rtpHeaderSerialize_normal (fuel : Nat) (header : RtpHeader) (buffer : List UInt8)
    (size : Nat) :
    rtpHeaderSerialize fuel (normal header) buffer size
      = rtpHeaderSerialize fuel header buffer size := by
  have hext (b : List UInt8) :
      serializeExt fuel (normal header) b = serializeExt fuel header b := by
    simp only [serializeExt, normal_extended]
    rfl
  simp only [rtpHeaderSerialize, rtpHeaderSize_normal, hext]
  rfl

theorem bit_eq_one {b : BitVec 1} (h : b ≠ 0) : b = 1 := by
  have hlt := b.isLt
  rw [Ne, ← BitVec.toNat_inj] at h
  rw [← BitVec.toNat_inj]
  change b.toNat ≠ 0 at h
  change b.toNat = 1
  omega

/-- Extension words that are not announced need not be there. -/
theorem holds_normal (hcsrc : Held header.cc header.csrc csrc)
    (hwords : header.x ≠ 0 → header.extCount.toNat = ws.length ∧
      (ws ≠ [] → header.extData = .obj ws)) :
    Holds (normal header) (contentOf header csrc ws) := by
  constructor
  · rfl
  · rfl
  · rfl
  · rfl
  · rfl
  · rfl
  · rfl
  · exact hcsrc.count
  · exact hcsrc.entries
  · intro hplain
    change (if header.extCount = 0 then 0 else header.x) = 0
    by_cases hcount : header.extCount = 0
    · rw [if_pos hcount]
    · rw [if_neg hcount]
      by_contra hx
      rw [contentOf, extOf, if_pos ⟨hx, hcount⟩] at hplain
      cases hplain
  · intro id words hsome
    obtain ⟨hext, rfl, rfl⟩ := extOf_eq_some hsome
    obtain ⟨hcount, hdata⟩ := hwords hext.1
    have hne : words ≠ [] := by
      intro hnil
      rw [hnil] at hcount
      exact hext.2 (UInt16.toNat_inj.mp hcount)
    refine ⟨?_, rfl, hcount, hne, hdata hne⟩
    change (if header.extCount = 0 then 0 else header.x) = 1
    rw [if_neg hext.2]
    exact bit_eq_one hext.1

theorem Extended.holds (h : Extended header ws) (hcsrc : Held header.cc header.csrc csrc) :
    Holds (normal header) (contentOf header csrc ws) :=
  holds_normal hcsrc fun _ => ⟨h.extCount, h.extData⟩

/-- The packet with its normal header. -/
theorem rtpPacketSerialize_normal (fuel : Nat) (packet : RtpPacket) (buffer : List UInt8)
    (size : Nat) :
    rtpPacketSerialize fuel (withHeader packet (normal packet.header)) buffer size
      = rtpPacketSerialize fuel packet buffer size := by
  simp only [rtpPacketSerialize, rtpPacketSize, withHeader, rtpHeaderSize_normal,
    rtpHeaderSerialize_normal]
  rfl

theorem need_eq {c : Content} (hholds : Holds (normal packet.header) c)
    (hblock : Block packet payload) : need packet = c.size + payload.length := by
  rw [need, ← rtpHeaderSize_normal, hholds.size_eq, hblock.payloadSize]

/-! ### A packet that has its sources -/

/-- An extension that can be written is written, and the packet goes to the front of the buffer
as a whole. -/
theorem ownBytes_held (h : Extended packet.header ws) (hblock : Block packet payload)
    (hcsrc : Held packet.header.cc packet.header.csrc csrc)
    (hshort : packet.header.x = 0 ∨ packet.header.extCount = 0 ∨
      packet.header.extCount.toNat < 256) : OwnBytes packet := by
  have hholds := h.holds hcsrc
  have hcarries : Carries (withHeader packet (normal packet.header))
      (contentOf packet.header csrc ws) payload :=
    ⟨hholds, hblock.payloadSize, hblock.payloadData⟩
  have hwords : ∀ id words, (contentOf packet.header csrc ws).ext = some (id, words) →
      words.length ≤ 255 := by
    intro id words hsome
    obtain ⟨⟨hx, hne⟩, -, rfl⟩ := extOf_eq_some hsome
    have hcount := h.extCount
    rcases hshort with hzero | hzero | hlt
    · exact absurd hzero hx
    · exact absurd hzero hne
    · omega
  have hneed := need_eq hholds hblock
  generalize contentOf packet.header csrc ws = c at hcarries hwords hneed
  have hlen : (encode c ++ payload).length = need packet := by
    rw [List.length_append, length_encode, hneed]
  have hrun (buffer : List UInt8) (henough : need packet ≤ buffer.length ∧ buffer.length < 2 ^ 64) :
      rtpPacketSerialize 256 packet buffer buffer.length = .ok (castInt (need packet),
        encode c ++ payload ++ buffer.drop (encode c ++ payload).length) := by
    rw [← rtpPacketSerialize_normal, hlen, hneed]
    exact rtpPacketSerialize_cast hcarries hwords (by omega) (by omega)
  rw [OwnBytes, enough_ok]
  apply independent_of_front
  · exact fun buffer henough => ⟨256, hrun buffer henough⟩
  · rw [hlen]
    exact toNat_castInt_le _

/-- The packet without the sources that it does not count. -/
def counted (packet : RtpPacket) : RtpPacket :=
  withHeader packet { packet.header with
    csrc := .obj (packet.header.csrc.elements.take packet.header.cc.toNat) }

theorem size_counted (hset : packet.header.csrc.isSet = true) :
    rtpHeaderSize packet.header = rtpHeaderSize (counted packet).header := by
  rw [rtpHeaderSize, rtpHeaderSize, hset]
  rfl

theorem need_counted (hset : packet.header.csrc.isSet = true) :
    need packet = need (counted packet) := by
  rw [need, need, size_counted hset]
  rfl

/-- They are not serialized. -/
theorem serialize_counted (hset : packet.header.csrc.isSet = true)
    (hcount : Covered packet.header.cc packet.header.csrc) (fuel : Nat) (buffer : List UInt8)
    (size : Nat) :
    rtpPacketSerialize fuel packet buffer size
      = rtpPacketSerialize fuel (counted packet) buffer size := by
  have hcsrc (buffer : List UInt8) :
      serializeCsrc packet.header buffer = serializeCsrc (counted packet).header buffer := by
    have hloop (buffer : List UInt8) := forUp_congr packet.header.cc.toNat buffer
      fun i (buffer : List UInt8) hi =>
        hcount.bind_load hi fun w => writeU32 buffer (12 + i * 4) w
    rw [serializeCsrc, serializeCsrc, hset]
    simp only [hloop]
    rfl
  simp only [rtpPacketSerialize, rtpPacketSize, rtpHeaderSerialize, size_counted hset, hcsrc]
  rfl

/-- The packet with a count of no sources. -/
def uncounted (packet : RtpPacket) : RtpPacket :=
  withHeader packet { packet.header with cc := 0 }

theorem serializeCsrc_unlisted (hset : header.csrc.isSet = false) (buffer : List UInt8) :
    serializeCsrc header buffer = .ok buffer := by
  rw [serializeCsrc, hset, Bool.and_false]
  rfl

section Plain

variable (hplain : header.x = 0 ∨ header.extCount = 0)
include hplain

theorem not_extended : (decide (header.x ≠ 0) && decide (header.extCount ≠ 0)) = false := by
  rcases hplain with hzero | hzero
  · rw [hzero]
    rfl
  · rw [hzero, Bool.and_comm]
    rfl

theorem serializeExt_plain (fuel : Nat) (buffer : List UInt8) :
    serializeExt fuel header buffer = .ok buffer := by
  rw [serializeExt, not_extended hplain]
  rfl

theorem size_plain (hset : header.csrc.isSet = false) : rtpHeaderSize header = 12 := by
  rw [rtpHeaderSize, not_extended hplain, hset]
  rfl

end Plain

section Uncounted

variable (hset : packet.header.csrc.isSet = false)
  (hplain : packet.header.x = 0 ∨ packet.header.extCount = 0)
include hset hplain

theorem size_uncounted : rtpHeaderSize packet.header = rtpHeaderSize (uncounted packet).header := by
  have hsame : rtpHeaderSize (uncounted packet).header = 12 := size_plain hplain hset
  rw [size_plain hplain hset, hsame]

theorem need_uncounted : need packet = need (uncounted packet) := by
  rw [need, need, size_uncounted hset hplain]
  rfl

/-- Without a list the count has no part in a packet that has no extension to write. -/
theorem serialize_uncounted (fuel : Nat) (buffer : List UInt8) (size : Nat) :
    rtpPacketSerialize fuel packet buffer size
      = rtpPacketSerialize fuel (uncounted packet) buffer size := by
  have hcsrc (buffer : List UInt8) :
      serializeCsrc (uncounted packet).header buffer = .ok buffer := by
    apply serializeCsrc_unlisted
    exact hset
  have hext (buffer : List UInt8) :
      serializeExt fuel (uncounted packet).header buffer = .ok buffer := by
    apply serializeExt_plain
    exact hplain
  simp only [rtpPacketSerialize, rtpPacketSize, rtpHeaderSerialize, size_uncounted hset hplain,
    serializeCsrc_unlisted hset, serializeExt_plain hplain, hcsrc, hext]
  rfl

end Uncounted

/-! ### A packet that counts sources and has no list of them -/

/-- Words behind a gap, of which a front as long as they are is kept. -/
theorem take_gap {zs es : List UInt8} (hlen : es.length = zs.length) (rest behind : List UInt8)
    (n : Nat) : ((zs ++ rest).take n ++ es ++ behind).take zs.length
      = (zs.take n ++ es).take zs.length := by
  by_cases hn : n ≤ zs.length
  · rw [List.take_append_of_le_length hn, List.take_append_of_le_length]
    rw [List.length_append, List.length_take]
    omega
  · have hall : zs.take n = zs := List.take_of_length_le (by omega)
    have hgap : (zs ++ rest).take n = zs ++ rest.take (n - zs.length) := by
      rw [List.take_append, hall]
    rw [hgap, hall, List.append_assoc, List.append_assoc, List.take_left, List.take_left]

theorem ne_nil_of_count (hcount : header.extCount ≠ 0) (h : Extended header ws) : ws ≠ [] := by
  rintro rfl
  exact hcount (UInt16.toNat_inj.mp h.extCount)

/-- The fixed part, then cleared bytes in place of the sources, then the extension as far as the
size goes. -/
def unlistedBytes (header : RtpHeader) (ws : List UInt32) : List UInt8 :=
  (UInt8.ofNat (2 <<< 6) ||| UInt8.ofNat 16) :: fixedBytes header
    ++ ((List.replicate (4 * (1 + ws.length)) 0).take (4 * header.cc.toNat)
      ++ extBytes (some (header.extId, ws))).take (4 * (1 + ws.length))

theorem length_unlistedBytes (header : RtpHeader) (ws : List UInt32) :
    (unlistedBytes header ws).length = 12 + 4 * (1 + ws.length) := by
  have hlen := length_extBytes_some header.extId ws
  rw [unlistedBytes, List.length_append, List.length_cons, length_fixedBytes, List.length_take,
    List.length_append]
  omega

section Unlisted

variable (hset : header.csrc.isSet = false) (hx : header.x ≠ 0) (hcount : header.extCount ≠ 0)
  (h : Extended header ws)
include hset hx hcount h

theorem size_unlisted : rtpHeaderSize header = 12 + 4 * (1 + ws.length) := by
  have hne := ne_nil_of_count hcount h
  rw [rtpHeaderSize, hset, decide_eq_true hx, decide_eq_true hcount, h.extData hne, Ptr.isSet_obj,
    h.extCount]
  rfl

/-- The extension goes behind the room for the sources. -/
theorem rtpHeaderSerialize_unlisted (hlong : ws.length ≤ 255) {buffer : List UInt8}
    (hroom : 12 + 4 * (1 + ws.length) + 4 * header.cc.toNat ≤ buffer.length) :
    ∃ out, rtpHeaderSerialize 256 header buffer buffer.length
        = .ok (castInt (12 + 4 * (1 + ws.length)), out) ∧ out.length = buffer.length ∧
      out.take (12 + 4 * (1 + ws.length)) = unlistedBytes header ws := by
  have hsize := size_unlisted hset hx hcount h
  have hne := ne_nil_of_count hcount h
  have hhead : ((UInt8.ofNat (2 <<< 6) ||| UInt8.ofNat 16) :: fixedBytes header).length = 12 := by
    rw [List.length_cons, length_fixedBytes]
  have hcleared : (cleared header buffer).drop 12
      = List.replicate (4 * (1 + ws.length)) 0 ++ buffer.drop (12 + 4 * (1 + ws.length)) := by
    rw [cleared, hsize, List.drop_append_of_le_length (by rw [List.length_replicate]; omega),
      List.drop_replicate, Nat.add_sub_cancel_left]
  have helen := length_extBytes_some header.extId ws
  rw [unlistedBytes]
  have hzlen : (List.replicate (4 * (1 + ws.length)) (0 : UInt8)).length = 4 * (1 + ws.length) :=
    List.length_replicate
  generalize List.replicate (4 * (1 + ws.length)) (0 : UInt8) = zs at hcleared hzlen ⊢
  have hrlen : (buffer.drop (12 + 4 * (1 + ws.length))).length
      = buffer.length - (12 + 4 * (1 + ws.length)) := List.length_drop
  generalize buffer.drop (12 + 4 * (1 + ws.length)) = rest at hcleared hrlen
  have hcsrc : serializeCsrc header (UInt8.ofNat (2 <<< 6) :: (fixedBytes header ++ (zs ++ rest)))
      = .ok (UInt8.ofNat (2 <<< 6) :: (fixedBytes header ++ (zs ++ rest))) :=
    serializeCsrc_unlisted hset _
  have hgap : ((zs ++ rest).take (4 * header.cc.toNat)).length = 4 * header.cc.toNat := by
    rw [List.length_take, List.length_append]
    omega
  have hext := serializeExt_words hx h.extCount hne (h.extData hne) hlong
    (b := UInt8.ofNat (2 <<< 6)) (t := fixedBytes header ++ (zs ++ rest).take (4 * header.cc.toNat))
    ((zs ++ rest).drop (4 * header.cc.toNat)) (by rw [List.length_append, length_fixedBytes, hgap])
    (by rw [List.length_drop, List.length_append]; omega)
  rw [List.append_assoc, List.take_append_drop, List.append_assoc, List.append_assoc] at hext
  have hroom' : rtpHeaderSize header ≤ buffer.length := by omega
  have hrun := rtpHeaderSerialize_eq 256 hroom' hroom'
  rw [hcleared, bind_of_ok hcsrc, bind_of_ok hext, hsize] at hrun
  refine ⟨_, hrun, ?_, ?_⟩
  · simp only [List.length_cons, List.length_append, length_fixedBytes, hgap, helen,
      List.length_drop]
    omega
  · rw [← List.cons_append, ← hhead, List.take_length_add_append, ← hzlen, ← List.append_assoc,
      take_gap (helen.trans hzlen.symm)]

end Unlisted

/-- The last words of the extension make way for the payload: all of it is in the buffer if the
payload is as long as the room for the sources. -/
theorem ownBytes_unlisted (hset : packet.header.csrc.isSet = false) (hx : packet.header.x ≠ 0)
    (hcount : packet.header.extCount ≠ 0) (hlong : packet.header.extCount.toNat < 256)
    (h : Extended packet.header ws) (hblock : Block packet payload)
    (hroom : 4 * packet.header.cc.toNat ≤ packet.payloadSize) : OwnBytes packet := by
  have hsize := size_unlisted hset hx hcount h
  have hwords := h.extCount
  have hpayload := hblock.payloadSize
  have hneed : need packet = 12 + 4 * (1 + ws.length) + payload.length := by
    rw [need, hsize, hpayload]
  have hlen : (unlistedBytes packet.header ws ++ payload).length = need packet := by
    rw [List.length_append, length_unlistedBytes, hneed]
  rw [OwnBytes, enough_ok]
  apply independent_of_take
  · intro buffer henough
    have htotal : rtpPacketSize packet = need packet := by
      rw [rtpPacketSize, sizeAdd_of_lt (by rw [hsize]; omega), need]
    obtain ⟨out, hheader, holen, htake⟩ := rtpHeaderSerialize_unlisted hset hx hcount h (by omega)
      (show _ ≤ buffer.length by omega)
    refine ⟨put out (12 + 4 * (1 + ws.length)) payload, ⟨256, ?_⟩, ?_⟩
    · rw [rtpPacketSerialize, htotal, if_neg (by omega), bind_of_ok hheader,
        castInt_of_lt (by omega)]
      dsimp only
      rw [if_neg (by omega), hpayload, bind_of_ok (Ptr.read_of_obj hblock.payloadData),
        Int.toNat_natCast, bind_of_ok (blit_of_le (by omega))]
    · rw [put, htake, List.take_left]
  · rw [hlen]
    exact toNat_castInt_le _

/-! ### Any packet -/

/-- The lists are written into a buffer as long as the caller's. -/
theorem serialize_parts (hlt : need packet < 2 ^ 64) {fuel : Nat} {buffer : List UInt8}
    (hroom : need packet ≤ buffer.length) {r : Int × List UInt8}
    (hrun : rtpPacketSerialize fuel packet buffer buffer.length = .ok r) :
    ∃ b b₁ b₂, b.length = buffer.length ∧ serializeCsrc packet.header b = .ok b₁ ∧
      serializeExt fuel packet.header b₁ = .ok b₂ := by
  have htwelve := twelve_le_size packet.header
  have htotal : rtpPacketSize packet = need packet := by
    rw [rtpPacketSize, sizeAdd_of_lt hlt, need]
  have hsize : rtpHeaderSize packet.header ≤ buffer.length := by
    rw [need] at hroom
    omega
  have hclen := length_cleared hsize
  rw [rtpPacketSerialize, htotal, if_neg (by omega), rtpHeaderSerialize_eq _ hsize hsize] at hrun
  obtain ⟨⟨offset, out⟩, hheader, -⟩ := bind_eq_ok.mp hrun
  obtain ⟨b₁, hcsrc, hheader⟩ := bind_eq_ok.mp hheader
  obtain ⟨b₂, hext, -⟩ := bind_eq_ok.mp hheader
  refine ⟨_, b₁, b₂, ?_, hcsrc, hext⟩
  rw [List.length_cons, List.length_append, length_fixedBytes, List.length_drop, hclen]
  omega

/-- Every source that is counted is read, where there is a list. -/
theorem covered_of_serializeCsrc {b b' : List UInt8} (hrun : serializeCsrc header b = .ok b')
    (hset : header.csrc.isSet = true) : Covered header.cc header.csrc := by
  by_cases hcc : header.cc = 0
  · rw [Covered, hcc, toNat_zero]
    exact Nat.zero_le _
  · rw [serializeCsrc, hset, decide_eq_true hcc, if_pos (by decide)] at hrun
    obtain ⟨_, -, hrun⟩ := bind_eq_ok.mp hrun
    obtain ⟨_, -, hrun⟩ := bind_eq_ok.mp hrun
    refine forUp_returns (I := fun i _ => i ≤ header.csrc.elements.length) (Nat.zero_le _) ?_ hrun
    intro i s s' _ _ hbody
    obtain ⟨csrc, hderef, hbody⟩ := bind_eq_ok.mp hbody
    obtain ⟨w, hload, -⟩ := bind_eq_ok.mp hbody
    rw [Ptr.deref_eq_ok hderef, Ptr.elements_obj]
    exact (load_eq_ok hload).1

/-- An extension that is written lies inside the buffer. -/
theorem room_of_serializeExt {fuel : Nat} {b b' : List UInt8} (hx : header.x ≠ 0)
    (hcount : header.extCount ≠ 0) (hset : header.extData.isSet = true)
    (hrun : serializeExt fuel header b = .ok b') :
    12 + 4 * header.cc.toNat + 4 * (1 + header.extCount.toNat) ≤ b.length := by
  have hcount0 : header.extCount.toNat ≠ 0 := fun hzero => hcount (UInt16.toNat_inj.mp hzero)
  rw [serializeExt, decide_eq_true hx, decide_eq_true hcount, hset, if_pos (by decide)] at hrun
  obtain ⟨b0, -, hrun⟩ := bind_eq_ok.mp hrun
  obtain ⟨b₁, hflag, hrun⟩ := bind_eq_ok.mp hrun
  obtain ⟨b₂, hid, hrun⟩ := bind_eq_ok.mp hrun
  obtain ⟨b₃, hnumber, hrun⟩ := bind_eq_ok.mp hrun
  rw [store_eq_blit] at hflag
  rw [writeU16_eq] at hid hnumber
  have hlen₁ := length_of_blit hflag
  have hlen₂ := length_of_blit hid
  have hlen₃ := length_of_blit hnumber
  refine loopFuel_returns (I := fun s => s.2.length = b.length ∧ (s.1.toNat ≠ 0 →
      12 + 4 * header.cc.toNat + 4 * (1 + s.1.toNat) ≤ b.length))
    (Q := fun _ => 12 + 4 * header.cc.toNat + 4 * (1 + header.extCount.toNat) ≤ b.length)
    ?_ ?_ ⟨hlen₃.trans (hlen₂.trans hlen₁), fun hne => absurd rfl hne⟩ hrun
  · intro s s' hs hbody
    rw [writeExtWords] at hbody
    by_cases hlt : s.1.toNat < header.extCount.toNat
    · rw [if_pos hlt] at hbody
      obtain ⟨ws, -, hbody⟩ := bind_eq_ok.mp hbody
      obtain ⟨w, -, hbody⟩ := bind_eq_ok.mp hbody
      obtain ⟨b₄, hword, hbody⟩ := bind_eq_ok.mp hbody
      cases hbody
      rw [writeU32_eq] at hword
      have hlen₄ := length_of_blit hword
      refine ⟨hlen₄.trans hs.1, fun _ => ?_⟩
      have hnext : (s.1 + 1).toNat ≤ s.1.toNat + 1 := by
        rw [UInt8.toNat_add]
        exact Nat.mod_le _ _
      by_contra hout
      dsimp only at hout
      rw [blit_fault (by rw [length_bytes]; omega)] at hword
      cases hword
    · rw [if_neg hlt] at hbody
      cases hbody
  · intro s r hs hbody
    rw [writeExtWords] at hbody
    by_cases hlt : s.1.toNat < header.extCount.toNat
    · rw [if_pos hlt] at hbody
      obtain ⟨ws, -, hbody⟩ := bind_eq_ok.mp hbody
      obtain ⟨w, -, hbody⟩ := bind_eq_ok.mp hbody
      obtain ⟨b₄, -, hbody⟩ := bind_eq_ok.mp hbody
      cases hbody
    · have hend := hs.2 (by omega)
      omega

/-- What the serializer can write of a packet. A list of sources holds all that are counted.
An extension has at most 255 words, and without a list the payload covers the words that go
over the size. -/
structure Writable (packet : RtpPacket) : Prop where
  csrc : packet.header.csrc.isSet = true → Covered packet.header.cc packet.header.csrc
  ext : packet.header.x = 0 ∨ packet.header.extCount = 0 ∨ packet.header.extCount.toNat < 256 ∧
    (packet.header.csrc.isSet = true ∨ 4 * packet.header.cc.toNat ≤ packet.payloadSize)

theorem writable_of_ownBytes (h : Sound packet) (hlt : need packet < 2 ^ 64)
    (hown : OwnBytes packet) : Writable packet := by
  obtain ⟨ws, hext⟩ := h.ext
  obtain ⟨buffer, r, hlen, ⟨fuel, hrun⟩⟩ := exists_run_of_independent hown hlt 0
  obtain ⟨b, b₁, b₂, hblen, hcsrc, hwords⟩ := serialize_parts hlt hlen.ge hrun
  refine ⟨covered_of_serializeCsrc hcsrc, ?_⟩
  by_cases hx : packet.header.x = 0
  · exact .inl hx
  · by_cases hcount : packet.header.extCount = 0
    · exact .inr (.inl hcount)
    · have hset : packet.header.extData.isSet = true := by
        rw [hext.extData (ne_nil_of_count hcount hext), Ptr.isSet_obj]
      refine .inr (.inr ⟨?_, ?_⟩)
      · by_contra hlong
        exact serializeExt_diverges hx (by omega) hset _ _ _ hwords
      · cases hlist : packet.header.csrc.isSet with
        | true => exact .inl rfl
        | false =>
          have hroom := room_of_serializeExt hx hcount hset hwords
          have hsame : b₁ = b := by
            rw [serializeCsrc_unlisted hlist] at hcsrc
            cases hcsrc
            rfl
          rw [hsame, hblen, hlen, need, size_unlisted hlist hx hcount hext, hext.extCount] at hroom
          exact .inr (by omega)

theorem ownBytes_congr (hneed : need packet = need packet')
    (hrun : ∀ fuel buffer size, rtpPacketSerialize fuel packet buffer size
      = rtpPacketSerialize fuel packet' buffer size) : OwnBytes packet ↔ OwnBytes packet' := by
  rw [OwnBytes, OwnBytes, hneed]
  simp only [hrun]

theorem ownBytes_of_writable (h : Sound packet) (hwritable : Writable packet) :
    OwnBytes packet := by
  obtain ⟨ws, hext⟩ := h.ext
  obtain ⟨payload, hblock⟩ := h.block
  have hshort : packet.header.x = 0 ∨ packet.header.extCount = 0 ∨
      packet.header.extCount.toNat < 256 :=
    hwritable.ext.imp_right fun hext => hext.imp_right And.left
  cases hset : packet.header.csrc.isSet with
  | true =>
    have hcovered := hwritable.csrc hset
    rw [ownBytes_congr (need_counted hset) (serialize_counted hset hcovered)]
    have hext' : Extended (counted packet).header ws := hext.of_eq rfl rfl
    exact ownBytes_held hext' ⟨hblock.payloadSize, hblock.payloadData⟩ hcovered.held hshort
  | false =>
    by_cases hplain : packet.header.x = 0 ∨ packet.header.extCount = 0
    · rw [ownBytes_congr (need_uncounted hset hplain) (serialize_uncounted hset hplain)]
      have hext' : Extended (uncounted packet).header ws := hext.of_eq rfl rfl
      exact ownBytes_held hext' ⟨hblock.payloadSize, hblock.payloadData⟩ (held_nil _) hshort
    · rw [not_or] at hplain
      rcases hwritable.ext with hzero | hzero | hlong
      · exact absurd hzero hplain.1
      · exact absurd hzero hplain.2
      · rw [hset] at hlong
        exact ownBytes_unlisted hset hplain.1 hplain.2 hlong.1 hext hblock
          (hlong.2.resolve_left (by decide))

/-- A packet shows its own bytes only, if the serializer can write it. -/
theorem ownBytes_iff (h : Sound packet) :
    OwnBytes packet ↔ 2 ^ 64 ≤ need packet ∨ Writable packet := by
  by_cases hlt : need packet < 2 ^ 64
  · rw [or_iff_right (Nat.not_le.mpr hlt)]
    exact ⟨writable_of_ownBytes h hlt, ownBytes_of_writable h⟩
  · have hlarge := Nat.le_of_not_lt hlt
    exact iff_of_true (independent_of_large hlarge) (.inl hlarge)

end RtpSdr.Rtp.PacketOutput
