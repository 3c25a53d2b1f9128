import RtpSdr.Lib.Output
import RtpSdr.Rtp.App

/-!
# What a serialized application packet shows of the buffer

Nothing: the serializer clears as many bytes as it counts before it writes the first.
-/
namespace RtpSdr.Rtp.AppOutput

open RtpSdr.Lib.Checked
open RtpSdr.Lib.Memory
open RtpSdr.Lib.Output
open RtpSdr.Lib.BigEndian
open RtpSdr.Rtp.Util
open RtpSdr.Rtp.RtcpHeader
open RtpSdr.Rtp.App
open RtpSdr.Rtp.Sdes (roundUp roundUp_spec roundUp_sizeAdd)

/-! ## The packets of a program -/

/-- What a program does with a packet. -/
inductive Use where
  | init (subtype : UInt8)
  | call (op : Op)
  | parse (buffer : List UInt8) (size : Nat)

/-- The packet afterwards, whatever the call returned. -/
def use (packet : RtcpApp) : Use → Exec RtcpApp
  | .init subtype => .ok (rtcpAppInit packet subtype)
  | .call op => perform packet op
  | .parse buffer size => do
    let (_, packet) ← rtcpAppParse packet buffer size
    .ok packet

/-- The packet has a block of as many bytes as it says. -/
structure Block (packet : RtcpApp) (data : List UInt8) : Prop where
  appSize : packet.appSize = data.length
  appData : data ≠ [] → packet.appData = .obj data

variable {packet packet' : RtcpApp} {data : List UInt8}

theorem block_nil (hsize : packet.appSize = 0) : Block packet [] :=
  ⟨hsize, fun hne => absurd rfl hne⟩

theorem block_withLength (h : Block packet data) (length : UInt16) :
    Block (withLength packet length) data := by
  constructor
  · rw [withLength_appSize]
    exact h.appSize
  · rw [withLength_appData]
    exact h.appData

theorem perform_block (h : ∃ data, Block packet data) {op : Op}
    (hrun : perform packet op = .ok packet') : ∃ data, Block packet' data := by
  cases op with
  | setData data =>
    cases hrun
    rw [rtcpAppSetData]
    cases packet.appData.isSet with
    | true => exact h
    | false =>
      rw [if_neg (by decide), updateLength]
      exact ⟨data, block_withLength ⟨rfl, fun _ => rfl⟩ _⟩
  | clearData =>
    cases hrun
    rw [rtcpAppClearData, updateLength]
    cases packet.appData.isSet with
    | true =>
      rw [if_pos rfl]
      exact ⟨[], block_withLength (block_nil rfl) _⟩
    | false =>
      obtain ⟨data, hblock⟩ := h
      rw [if_neg (by decide)]
      exact ⟨data, block_withLength hblock _⟩
  | assign ssrc name =>
    cases hrun
    obtain ⟨data, hblock⟩ := h
    exact ⟨data, hblock.appSize, hblock.appData⟩

/-- A packet without data keeps the block it had, as does one that is not parsed. -/
theorem parse_block (h : Block packet data) {buffer : List UInt8} {size : Nat} {r : Int}
    (hrun : rtcpAppParse packet buffer size = .ok (r, packet')) :
    ∃ data', Block packet' data' := by
  obtain ⟨⟨pt, header⟩, -, hrun⟩ := bind_eq_ok.mp hrun
  dsimp only at hrun
  by_cases hpt : pt ≠ RTCP_APP.toNat
  · rw [if_pos hpt] at hrun
    cases hrun
    exact ⟨data, h.appSize, h.appData⟩
  · rw [if_neg hpt] at hrun
    obtain ⟨ssrc, -, hrun⟩ := bind_eq_ok.mp hrun
    obtain ⟨name, -, hrun⟩ := bind_eq_ok.mp hrun
    rw [parseData] at hrun
    by_cases hlength : (header.length.toNat + 1) * 4 > 12
    · rw [if_pos hlength] at hrun
      obtain ⟨data, hslice, hrun⟩ := bind_eq_ok.mp hrun
      cases hrun
      exact ⟨data, (length_of_slice hslice).symm, fun _ => rfl⟩
    · rw [if_neg hlength] at hrun
      cases hrun
      exact ⟨data, h.appSize, h.appData⟩

theorem use_block (h : ∃ data, Block packet data) {u : Use} (hrun : use packet u = .ok packet') :
    ∃ data, Block packet' data := by
  cases u with
  | init subtype =>
    cases hrun
    obtain ⟨data, hblock⟩ := h
    exact ⟨data, hblock.appSize, hblock.appData⟩
  | call op => exact perform_block h hrun
  | parse buffer size =>
    obtain ⟨⟨r, packet₁⟩, hparse, hrun⟩ := bind_eq_ok.mp hrun
    cases hrun
    obtain ⟨data, hblock⟩ := h
    exact parse_block hblock hparse

theorem reached_block (h : Reached use rtcpAppCreate packet) : ∃ data, Block packet data :=
  h.invariant ⟨[], block_nil rfl⟩ fun _ _ _ hs hrun => use_block hs hrun

/-! ## What the serializer shows -/

/-- The size of a packet in bytes, as a natural number. -/
def need (packet : RtcpApp) : Nat := roundUp (12 + packet.appSize)

/-- The bytes that a serialized packet shows are its own. -/
def OwnBytes (packet : RtcpApp) : Prop :=
  Independent (runOf fun buffer => rtcpAppSerialize packet buffer buffer.length)
    (Enough (.ok (need packet)))

/-- The words in front of the data. -/
def fixedBytes (packet : RtcpApp) : List UInt8 :=
  headerBytes packet.header ++ bytes 4 packet.ssrc.toNat ++ bytes 4 packet.name.toNat

/-- The packet on the wire, filled up with zeros. -/
def encode (packet : RtcpApp) (data : List UInt8) : List UInt8 :=
  fixedBytes packet ++ data ++ List.replicate (need packet - (12 + data.length)) 0

theorem length_fixedBytes (packet : RtcpApp) : (fixedBytes packet).length = 12 := by
  simp [fixedBytes]

theorem length_encode (h : Block packet data) : (encode packet data).length = need packet := by
  have hround := roundUp_spec (12 + packet.appSize)
  have hsize := h.appSize
  rw [← need] at hround
  rw [encode, List.length_append, List.length_append, length_fixedBytes, List.length_replicate]
  omega

theorem rtcpAppSize_eq_need (h : Block packet data) (hlt : need packet < 2 ^ 64) :
    rtcpAppSize packet = need packet := by
  have hset : packet.appSize ≠ 0 → packet.appData.isSet = true := by
    intro hne
    rw [h.appSize, Ne, List.length_eq_zero_iff] at hne
    rw [h.appData hne, Ptr.isSet_obj]
  exact roundUp_sizeAdd (show 12 % 4 = 0 by decide) hset hlt

/-- The packet's bytes go to the front of the buffer, all that it counts. -/
theorem rtcpAppSerialize_ok (h : Block packet data) {buffer : List UInt8}
    (hbuffer : need packet ≤ buffer.length) (hlt : need packet < 2 ^ 64) :
    rtcpAppSerialize packet buffer buffer.length = .ok (castInt (need packet),
      encode packet data ++ buffer.drop (encode packet data).length) := by
  have hround := roundUp_spec (12 + packet.appSize)
  have hsize := h.appSize
  rw [← need] at hround
  -- the buffer after `memset`
  generalize hz : List.replicate (need packet) 0 ++ buffer.drop (need packet) = z
  have hzlen : z.length = buffer.length := by
    rw [← hz, List.length_append, List.length_replicate, List.length_drop]
    omega
  have hfixed : blit z 0 (headerBytes packet.header ++ bytes 4 packet.ssrc.toNat
      ++ bytes 4 packet.name.toNat) = .ok (fixedBytes packet ++ z.drop 12) := by
    have hle := length_fixedBytes packet
    rw [← fixedBytes, blit_of_le (by omega), put_zero, hle]
  have hdata : blit (fixedBytes packet ++ z.drop 12) 12 data
      = .ok (fixedBytes packet ++ data ++ (z.drop 12).drop data.length) :=
    blit_append (length_fixedBytes packet) rfl (by rw [List.length_drop]; omega)
  have hrest : (z.drop 12).drop data.length
      = List.replicate (need packet - (12 + data.length)) 0 ++ buffer.drop (need packet) := by
    rw [List.drop_drop, ← hz, List.drop_append_of_le_length (by rw [List.length_replicate]; omega),
      List.drop_replicate]
  rw [length_encode h, encode, List.append_assoc _ (List.replicate _ _), ← hrest]
  rw [rtcpAppSerialize, rtcpAppSize_eq_need h hlt, if_neg (by omega),
    bind_of_ok (blit_of_le (by rw [List.length_replicate]; omega)), put_zero,
    List.length_replicate, hz, rtcpHeaderSerialize_eq _ (by omega)]
  simp only [bind_assoc, ok_bind, writeU32_eq, if_neg (show ¬ (4 : Int) < 0 by decide)]
  rw [blit_bind_blit _ _ _ _ (by rw [length_headerBytes]), blit_bind_blit _ _ _ _ (by simp),
    bind_of_ok hfixed]
  cases hset : packet.appData.isSet with
  | true => rw [if_pos rfl, h.appSize, bind_of_ok (Ptr.read_of_obj h.appData), bind_of_ok hdata]
  | false =>
    have hnil : data = [] := by
      by_contra hne
      rw [h.appData hne] at hset
      cases hset
    rw [if_neg (by decide), hnil, List.append_nil, List.length_nil, List.drop_zero]

theorem ownBytes (h : Block packet data) : OwnBytes packet := by
  rw [OwnBytes, enough_ok]
  apply independent_of_front
  · intro buffer henough
    exact rtcpAppSerialize_ok h henough.1 (Nat.lt_of_le_of_lt henough.1 henough.2)
  · rw [length_encode h]
    exact toNat_castInt_le _

end RtpSdr.Rtp.AppOutput
