import RtpSdr.Rtp.Header

/-!
# RTP packets: `rtp_packet.c`

A header and a payload. A packet comes back from the bytes it is serialized to as
long as its counts fit the three bits and the eight bits the code keeps of them.
-/
namespace RtpSdr.Rtp.Packet

open RtpSdr.Lib.Checked
open RtpSdr.Lib.Memory
open RtpSdr.Rtp.Util
open RtpSdr.Rtp.Header

/-- `rtp_packet`. -/
structure RtpPacket where
  header : RtpHeader
  payloadSize : Nat
  payloadData : Ptr (List UInt8)

section Source

/-- `rtp_packet_create`. -/
def rtpPacketCreate : RtpPacket := ⟨rtpHeaderCreate, 0, .null⟩

def rtpPacketSize (packet : RtpPacket) : Nat :=
  sizeAdd (rtpHeaderSize packet.header) packet.payloadSize

/-- The result and the buffer afterwards. -/
def rtpPacketSerialize (fuel : Nat) (packet : RtpPacket) (buffer : List UInt8) (size : Nat) :
    Exec (Int × List UInt8) :=
  if size < rtpPacketSize packet then .ok (RTP_ERROR, buffer)
  else do
    let (offset, buffer) ← rtpHeaderSerialize fuel packet.header buffer size
    if offset < 0 then .ok (offset, buffer)
    else do
      let payload ← packet.payloadData.read packet.payloadSize
      let buffer ← blit buffer offset.toNat payload
      .ok (castInt (rtpPacketSize packet), buffer)

/-- `data` is what lies from `off` on in an object. -/
def rtpPacketSetPayload (packet : RtpPacket) (data : List UInt8) (off size : Nat) :
    Exec (Int × RtpPacket) :=
  if packet.payloadData.isSet then .ok (RTP_ERROR, packet)
  else do
    let bytes ← slice data off size
    .ok (0, { packet with payloadSize := size, payloadData := .obj bytes })

def rtpPacketClearPayload (packet : RtpPacket) : RtpPacket :=
  if packet.payloadData.isSet then { packet with payloadData := .null, payloadSize := 0 }
  else packet

/-- The result and the packet afterwards. -/
def rtpPacketParse (packet : RtpPacket) (buffer : List UInt8) (size : Nat) :
    Exec (Int × RtpPacket) := do
  let (r, header) ← rtpHeaderParse packet.header buffer size
  let packet := { packet with header := header }
  if r < 0 then .ok (RTP_ERROR, packet)
  else do
    let headerSize := rtpHeaderSize packet.header
    let (_, packet) ← rtpPacketSetPayload packet buffer headerSize (sizeSub size headerSize)
    .ok (RTP_OK, packet)

end Source

/-- The packet structure holds a header's content and a payload. -/
structure Carries (packet : RtpPacket) (c : Content) (payload : List UInt8) : Prop where
  header : Holds packet.header c
  payloadSize : packet.payloadSize = payload.length
  payloadData : payload ≠ [] → packet.payloadData = .obj payload

/-- Serialized into any buffer that is large enough, the packet is read back from exactly
the number of bytes the call returned. -/
def RoundTrips (packet : RtpPacket) (c : Content) (payload : List UInt8) : Prop :=
  ∀ buffer : List UInt8, rtpPacketSize packet ≤ buffer.length →
    ∃ fuel n bytes packet',
      rtpPacketSerialize fuel packet buffer buffer.length = .ok (n, bytes) ∧ 0 ≤ n ∧
      rtpPacketParse rtpPacketCreate (bytes.take n.toNat) n.toNat = .ok (RTP_OK, packet') ∧
      Carries packet' c payload

variable {packet : RtpPacket} {c : Content} {payload : List UInt8}

theorem rtpPacketSetPayload_of_null (hnull : packet.payloadData = .null) (data : List UInt8)
    (off size : Nat) :
    rtpPacketSetPayload packet data off size = (do
      let bytes ← slice data off size
      .ok (0, { packet with payloadSize := size, payloadData := .obj bytes })) := by
  rw [rtpPacketSetPayload, hnull]
  rfl

/-- The packet's bytes go to the front of the buffer. -/
theorem rtpPacketSerialize_cast (h : Carries packet c payload)
    (hext : ∀ id ws, c.ext = some (id, ws) → ws.length ≤ 255)
    (hsize : c.size + payload.length < 2 ^ 64) {buffer : List UInt8}
    (hbuffer : c.size + payload.length ≤ buffer.length) :
    rtpPacketSerialize 256 packet buffer buffer.length
      = .ok (castInt (c.size + payload.length),
        encode c ++ payload ++ buffer.drop (c.size + payload.length)) := by
  have htotal : rtpPacketSize packet = c.size + payload.length := by
    rw [rtpPacketSize, h.header.size_eq, h.payloadSize, sizeAdd_of_lt (by omega)]
  have hheader := rtpHeaderSerialize_ok h.header hext buffer
    (show c.size ≤ buffer.length from by omega) (by omega)
  rw [castInt_of_lt (h.header.size_le.trans_lt (by omega))] at hheader
  have hcopy := blit_append (length_encode c) (show payload.length = _ from rfl)
    (show _ ≤ (buffer.drop c.size).length by rw [List.length_drop]; omega)
  rw [List.drop_drop] at hcopy
  rw [rtpPacketSerialize, htotal, if_neg (by omega), bind_of_ok hheader]
  dsimp only
  rw [if_neg (by omega), h.payloadSize, bind_of_ok (Ptr.read_of_obj h.payloadData),
    Int.toNat_natCast, bind_of_ok hcopy]

theorem rtpPacketSerialize_ok (h : Carries packet c payload)
    (hext : ∀ id ws, c.ext = some (id, ws) → ws.length ≤ 255)
    (hsize : c.size + payload.length < 2 ^ 31) {buffer : List UInt8}
    (hbuffer : c.size + payload.length ≤ buffer.length) :
    rtpPacketSerialize 256 packet buffer buffer.length = .ok (c.size + payload.length,
      encode c ++ payload ++ buffer.drop (c.size + payload.length)) := by
  rw [rtpPacketSerialize_cast h hext (by omega) hbuffer, castInt_of_lt hsize, Int.natCast_add]

theorem rtpPacketParse_encode (h : Carries packet c payload)
    (hpt : ¬ (71 < c.pt.toNat ∧ c.pt.toNat < 96)) (hc : c.csrc.length ≤ 7)
    (hsize : c.size + payload.length < 2 ^ 31) :
    ∃ packet', rtpPacketParse rtpPacketCreate (encode c ++ payload) (c.size + payload.length)
        = .ok (RTP_OK, packet') ∧ Carries packet' c payload := by
  obtain ⟨header', hrun, hholds⟩ := rtpHeaderParse_encode h.header hpt hc payload
    (c.size + payload.length) (by unfold Content.size; omega)
  have hrest : sizeSub (c.size + payload.length) (rtpHeaderSize header') = payload.length := by
    rw [hholds.size_eq, sizeSub_of_le (by omega) (by omega)]
    omega
  have hslice :
      slice (encode c ++ payload) (rtpHeaderSize header') payload.length = .ok payload := by
    rw [hholds.size_eq, slice_of_le (by rw [List.length_append, length_encode]),
      List.drop_left' (length_encode c), List.take_length]
  refine ⟨⟨header', payload.length, .obj payload⟩, ?_, hholds, rfl, fun _ => rfl⟩
  rw [rtpPacketParse, show rtpPacketCreate.header = rtpHeaderCreate from rfl, bind_of_ok hrun]
  dsimp only
  rw [if_neg (by decide), hrest, rtpPacketSetPayload_of_null rfl, bind_of_ok hslice]
  rfl

/-- What any packet the parser accepts satisfies. -/
theorem rtpPacketParse_bounds {buffer : List UInt8} {size : Nat}
    (h : rtpPacketParse rtpPacketCreate buffer size = .ok (RTP_OK, packet)) :
    packet.header.cc.toNat ≤ 7 ∧
      rtpHeaderSize packet.header + packet.payloadSize ≤ buffer.length := by
  obtain ⟨⟨r, header⟩, hparse, h⟩ := bind_eq_ok.mp h
  dsimp only at h
  split at h
  · cases h
  · obtain ⟨⟨r', packet'⟩, hset, h⟩ := bind_eq_ok.mp h
    cases h
    rw [rtpPacketSetPayload_of_null rfl] at hset
    obtain ⟨bytes, hslice, hset⟩ := bind_eq_ok.mp hset
    cases hset
    exact ⟨rtpHeaderParse_cc_le hparse, slice_eq_ok hslice⟩

theorem rtpPacketSerialize_lt {fuel size : Nat} {buffer bytes : List UInt8} {n : Int}
    (h : rtpPacketSerialize fuel packet buffer size = .ok (n, bytes)) : n < 2 ^ 31 := by
  unfold rtpPacketSerialize at h
  split at h
  · cases h
    change (-1 : Int) < 2 ^ 31
    omega
  · obtain ⟨⟨offset, _⟩, _, h⟩ := bind_eq_ok.mp h
    dsimp only at h
    split at h
    · cases h
      omega
    · obtain ⟨_, _, h⟩ := bind_eq_ok.mp h
      obtain ⟨_, _, h⟩ := bind_eq_ok.mp h
      rw [← (Prod.mk.inj (Except.ok.inj h)).1]
      exact (castInt_bounds _).2

theorem rtpPacketSerialize_diverges (h : Carries packet c payload) {id : UInt16} {ws : List UInt32}
    (he : c.ext = some (id, ws)) (hlen : 256 ≤ ws.length) (fuel : Nat) {buffer : List UInt8}
    (hsize : c.size + payload.length ≤ buffer.length) (r : Int × List UInt8) :
    rtpPacketSerialize fuel packet buffer buffer.length ≠ .ok r := by
  have hle : rtpPacketSize packet ≤ buffer.length := by
    rw [rtpPacketSize, h.header.size_eq, h.payloadSize]
    exact (sizeAdd_le _ _).trans hsize
  intro hrun
  rw [rtpPacketSerialize, if_neg (by omega)] at hrun
  obtain ⟨r', hheader, _⟩ := bind_eq_ok.mp hrun
  exact rtpHeaderSerialize_diverges h.header he hlen fuel (by omega) r' hheader

/-- What a round trip through one buffer, zeroed and of the packet's size, shows. -/
theorem RoundTrips.bounds (h : Carries packet c payload) (hround : RoundTrips packet c payload) :
    c.csrc.length ≤ 7 ∧ (∀ id ws, c.ext = some (id, ws) → ws.length ≤ 255) ∧
      c.size + payload.length < 2 ^ 31 := by
  have hbuffer : (List.replicate (c.size + payload.length) (0 : UInt8)).length
      = c.size + payload.length := List.length_replicate
  have hle :
      rtpPacketSize packet ≤ (List.replicate (c.size + payload.length) (0 : UInt8)).length := by
    rw [hbuffer, rtpPacketSize, h.header.size_eq, h.payloadSize]
    exact sizeAdd_le _ _
  obtain ⟨fuel, n, bytes, packet', hser, hn, hparse, hcarries⟩ := hround _ hle
  obtain ⟨hcc, hfits⟩ := rtpPacketParse_bounds hparse
  refine ⟨?_, ?_, ?_⟩
  · rw [hcarries.header.cc] at hcc
    exact hcc
  · intro id ws he
    by_contra hlong
    exact rtpPacketSerialize_diverges h he (by omega) fuel (by rw [hbuffer]) _ hser
  · have hlt := rtpPacketSerialize_lt hser
    rw [hcarries.header.size_eq, hcarries.payloadSize, List.length_take] at hfits
    omega

/-- A packet round-trips exactly if its contributing sources fit three bits, its extension
words eight bits and its size an `int`. -/
theorem roundTrips_iff (h : Carries packet c payload)
    (hpt : ¬ (71 < c.pt.toNat ∧ c.pt.toNat < 96)) :
    RoundTrips packet c payload ↔ c.csrc.length ≤ 7 ∧
      (∀ id ws, c.ext = some (id, ws) → ws.length ≤ 255) ∧ c.size + payload.length < 2 ^ 31 := by
  constructor
  · exact RoundTrips.bounds h
  · rintro ⟨hc, hext, hsize⟩ buffer hbuffer
    rw [rtpPacketSize, h.header.size_eq, h.payloadSize, sizeAdd_of_lt (by omega)] at hbuffer
    obtain ⟨packet', hparse, hcarries⟩ := rtpPacketParse_encode h hpt hc hsize
    refine ⟨256, _, _, packet', rtpPacketSerialize_ok h hext hsize hbuffer, by omega, ?_, hcarries⟩
    have hn : ((c.size : Int) + payload.length).toNat = c.size + payload.length := by omega
    rw [hn, List.take_left' (by rw [List.length_append, length_encode])]
    exact hparse

/-- One source, one extension word and two bytes of payload. -/
def smallContent : Content := ⟨1, 96, 7, 8, 9, [10], some (11, [12])⟩

def smallPacket : RtpPacket where
  header :=
    { rtpHeaderCreate with
      version := 2, x := 1, cc := 1, m := 1, pt := 96, seq := 7, ts := 8, ssrc := 9
      csrc := .obj [10], extId := 11, extCount := 1, extData := .obj [12] }
  payloadSize := 2
  payloadData := .obj [13, 14]

theorem smallPacket_carries : Carries smallPacket smallContent [13, 14] where
  header := by
    constructor
    case extended =>
      intro id ws he
      cases he
      exact ⟨rfl, rfl, rfl, List.cons_ne_nil _ _, rfl⟩
    case plain => exact fun he => nomatch he
    all_goals first | rfl | exact fun _ => rfl
  payloadSize := rfl
  payloadData := fun _ => rfl

theorem roundTrips_small : RoundTrips smallPacket smallContent [13, 14] :=
  (roundTrips_iff smallPacket_carries (by decide)).mpr
    ⟨by decide, by intro id ws he; cases he; decide, by decide⟩

/-- Eight contributing sources. -/
def crowdedContent : Content := ⟨0, 96, 7, 8, 9, [1, 2, 3, 4, 5, 6, 7, 8], none⟩

def crowdedPacket : RtpPacket where
  header :=
    { rtpHeaderCreate with
      version := 2, cc := 8, pt := 96, seq := 7, ts := 8, ssrc := 9
      csrc := .obj [1, 2, 3, 4, 5, 6, 7, 8] }
  payloadSize := 0
  payloadData := .null

theorem crowdedPacket_carries : Carries crowdedPacket crowdedContent [] where
  header := by
    constructor
    case extended => exact fun _ _ he => nomatch he
    all_goals first | rfl | exact fun _ => rfl
  payloadSize := rfl
  payloadData := fun hne => absurd rfl hne

/-- The eight sources are written and the count beside them is zero. -/
theorem roundTrips_fails :
    Carries crowdedPacket crowdedContent [] ∧ ¬ RoundTrips crowdedPacket crowdedContent [] :=
  ⟨crowdedPacket_carries, fun h =>
    absurd (RoundTrips.bounds crowdedPacket_carries h).1 (by decide)⟩

end RtpSdr.Rtp.Packet
