import RtpSdr.Fec.Group
import RtpSdr.Rtp.Util

/-!
# FEC datagrams: `fec_pkt.c`, `fec_pack.c`

A datagram is fourteen header bytes and the payload behind them. `encode` gives
those bytes in closed form: packing writes them, unpacking reads them, and every
fourteen bytes that open with the magic are the header of some packet.
-/
namespace RtpSdr.Fec.Pkt

open RtpSdr.Lib.Checked
open RtpSdr.Lib.Memory
open RtpSdr.Lib.BigEndian
open RtpSdr.Fec.Group (FecPktHdr FecPkt)
open RtpSdr.Rtp.Util (readU16 readU32 readU16_drop readU32_drop shiftLeft_of_lt)

section Source

def FEC_PKT_SIZE : Nat := 65535
def FEC_PKT_HDR_SIZE : Nat := 14
def FEC_PKT_PAYLOAD_SIZE : Nat := FEC_PKT_SIZE - FEC_PKT_HDR_SIZE
def FEC_PKT_MAGIC : UInt8 := 0xfe

/-- The buffer and the offset of the pointer that the packing macros advance. -/
structure Cursor where
  data : List UInt8
  ptr : Nat

def UINT8_PACK (c : Cursor) (i : UInt8) : Exec Cursor := do
  let data ← store c.data c.ptr i
  .ok ⟨data, c.ptr + 1⟩

def UINT16_PACK (c : Cursor) (i : UInt16) : Exec Cursor := do
  let c ← UINT8_PACK c ((i >>> 8) &&& 0xFF).toUInt8
  UINT8_PACK c (i &&& 0xFF).toUInt8

/-- The argument is an `unsigned long`. -/
def UINT32_PACK (c : Cursor) (i : UInt64) : Exec Cursor := do
  let c ← UINT8_PACK c ((i >>> 24) &&& 0xFF).toUInt8
  let c ← UINT8_PACK c ((i >>> 16) &&& 0xFF).toUInt8
  let c ← UINT8_PACK c ((i >>> 8) &&& 0xFF).toUInt8
  UINT8_PACK c (i &&& 0xFF).toUInt8

/-- `*(ptr++) & 0xFF` as the `int` it is promoted to. -/
def unpackByte (data : List UInt8) (ptr : Nat) : Exec Int32 := do
  let b ← load data ptr
  .ok (b.toUInt32 &&& 0xFF).toInt32

def uint16Unpack (data : List UInt8) (ptr : Nat) : Exec UInt32 := do
  let b0 ← unpackByte data ptr
  let i : Int32 := b0 <<< 8
  let b1 ← unpackByte data (ptr + 1)
  .ok (i ||| b1).toUInt32

/-- The first shift may set the sign bit of the `int`. -/
def uint32Unpack (data : List UInt8) (ptr : Nat) : Exec UInt32 := do
  let b0 ← unpackByte data ptr
  let i : Int32 := b0 <<< 24
  let b1 ← unpackByte data (ptr + 1)
  let i := i ||| b1 <<< 16
  let b2 ← unpackByte data (ptr + 2)
  let i := i ||| b2 <<< 8
  let b3 ← unpackByte data (ptr + 3)
  .ok (i ||| b3).toUInt32

def fecPktInit (pkt : FecPkt) : FecPkt :=
  { pkt with
    hdr := { pkt.hdr with magic := FEC_PKT_MAGIC, version := 1, len := 0, groupSeq := 0 }
    payload := FEC_PKT_HDR_SIZE }

def fecPktPack (pkt : FecPkt) : Exec FecPkt := do
  let c ← UINT8_PACK ⟨pkt.data, 0⟩ pkt.hdr.magic
  let c ← UINT8_PACK c pkt.hdr.version
  let c ← UINT8_PACK c pkt.hdr.groupSeq
  let c ← UINT8_PACK c pkt.hdr.packetSeq
  let c ← UINT8_PACK c pkt.hdr.fecK
  let c ← UINT8_PACK c pkt.hdr.fecN
  let c ← UINT16_PACK c pkt.hdr.fecLen
  let c ← UINT16_PACK c pkt.hdr.len
  let c ← UINT32_PACK c pkt.hdr.groupTstamp
  .ok { pkt with data := c.data }

/-- The packet afterwards and the bytes handed to `send`, whose result is returned. -/
def fecPktSend (pkt : FecPkt) : Exec (FecPkt × List UInt8) := do
  let pkt ← fecPktPack pkt
  let bytes ← slice pkt.data 0 (FEC_PKT_HDR_SIZE + pkt.hdr.len.toNat)
  .ok (pkt, bytes)

/-- `read(fd, data, size)`: an error, or the datagram as far as it fits. -/
def readSocket (data : List UInt8) (size : Nat) : Option (List UInt8) → Exec (Int × List UInt8)
  | none => .ok (-1, data)
  | some datagram => do
    let data ← blit data 0 (datagram.take size)
    .ok ((datagram.take size).length, data)

/-- `fec_pkt_read(pkt, fd)` where `fd` has `input` to read. -/
def fecPktRead (pkt : FecPkt) (input : Option (List UInt8)) : Exec (Int × FecPkt) := do
  let (len, data) ← readSocket pkt.data FEC_PKT_SIZE input
  let pkt := { pkt with data := data }
  if len = 0 then .ok (0, pkt)
  else if len = -1 then .ok (-1, pkt)
  else if len < FEC_PKT_HDR_SIZE then .ok (-1, pkt)
  else do
    let magic ← load data 0
    let pkt := { pkt with hdr := { pkt.hdr with magic := magic } }
    if magic ≠ FEC_PKT_MAGIC then .ok (-1, pkt)
    else do
      let version ← load data 1
      let groupSeq ← load data 2
      let packetSeq ← load data 3
      let fecK ← load data 4
      let fecN ← load data 5
      let fecLen ← uint16Unpack data 6
      let hdrLen ← uint16Unpack data 8
      let groupTstamp ← uint32Unpack data 10
      let pkt := { pkt with
        hdr := ⟨magic, version, groupSeq, packetSeq, fecK, fecN, fecLen.toUInt16,
          hdrLen.toUInt16, groupTstamp.toUInt64⟩ }
      if (pkt.hdr.len.toNat : Int) ≠ len - FEC_PKT_HDR_SIZE then .ok (-1, pkt)
      else .ok (1, { pkt with payload := FEC_PKT_HDR_SIZE })

end Source

/-! ## The header's bytes -/

/-- What the fourteen bytes say of a header: of the timestamp, the lowest four bytes. -/
def headerBytes (hdr : FecPktHdr) : List UInt8 :=
  [hdr.magic, hdr.version, hdr.groupSeq, hdr.packetSeq, hdr.fecK, hdr.fecN] ++
    bytes 2 hdr.fecLen.toNat ++ bytes 2 hdr.len.toNat ++ bytes 4 hdr.groupTstamp.toNat

theorem length_headerBytes (hdr : FecPktHdr) : (headerBytes hdr).length = FEC_PKT_HDR_SIZE := by
  simp only [headerBytes, List.length_append, length_bytes]
  rfl

/-- The timestamp that arrives. -/
theorem headerBytes_mod (hdr : FecPktHdr) :
    headerBytes { hdr with groupTstamp := hdr.groupTstamp.toUInt32.toUInt64 }
      = headerBytes hdr := by
  have hmod : hdr.groupTstamp.toUInt32.toUInt64.toNat = hdr.groupTstamp.toNat % 256 ^ 4 := by
    rw [UInt32.toNat_toUInt64, UInt64.toNat_toUInt32]
    rfl
  rw [headerBytes, headerBytes, hmod, bytes_mod]

/-- Fourteen bytes are those of a header. -/
theorem exists_header {datagram : List UInt8} (h : FEC_PKT_HDR_SIZE ≤ datagram.length) :
    ∃ hdr, hdr.groupTstamp.toNat < 2 ^ 32 ∧
      datagram = headerBytes hdr ++ datagram.drop FEC_PKT_HDR_SIZE := by
  change 14 ≤ datagram.length at h
  match datagram with
  | magic :: version :: groupSeq :: packetSeq :: fecK :: fecN :: rest =>
    simp only [List.length_cons] at h
    obtain ⟨fecLen, hfecLen, hrest⟩ := exists_bytes (k := 2) rest (by omega)
    obtain ⟨len, hlen, hrest'⟩ :=
      exists_bytes (k := 2) (rest.drop 2) (by rw [List.length_drop]; omega)
    rw [List.drop_drop] at hrest'
    obtain ⟨tstamp, htstamp, hrest''⟩ :=
      exists_bytes (k := 4) (rest.drop (2 + 2)) (by rw [List.length_drop]; omega)
    rw [List.drop_drop] at hrest''
    have hfecLen' : (UInt16.ofNat fecLen).toNat = fecLen := by
      rw [UInt16.toNat_ofNat']
      exact Nat.mod_eq_of_lt hfecLen
    have hlen' : (UInt16.ofNat len).toNat = len := by
      rw [UInt16.toNat_ofNat']
      exact Nat.mod_eq_of_lt hlen
    have htstamp' : (UInt64.ofNat tstamp).toNat = tstamp := by
      rw [UInt64.toNat_ofNat']
      exact Nat.mod_eq_of_lt (Nat.lt_trans htstamp (by decide))
    refine ⟨⟨magic, version, groupSeq, packetSeq, fecK, fecN, .ofNat fecLen, .ofNat len,
      .ofNat tstamp⟩, by rw [htstamp']; exact htstamp, ?_⟩
    have hcons : rest = bytes 2 fecLen ++ (bytes 2 len ++ (bytes 4 tstamp ++ rest.drop 8)) := by
      rw [← hrest'', ← hrest', ← hrest]
    rw [headerBytes, hfecLen', hlen', htstamp']
    simp only [List.cons_append, List.nil_append, List.append_assoc, List.cons.injEq, true_and]
    exact hcons

/-! ## Packing -/

/-- The cursor behind what has been written of `data`. -/
def written (data bs : List UInt8) : Cursor := ⟨put data 0 bs, bs.length⟩

variable {data bs rest : List UInt8} {ptr : Nat}

theorem UINT8_PACK_written (i : UInt8) (h : bs.length < data.length) :
    UINT8_PACK (written data bs) i = .ok (written data (bs ++ [i])) := by
  have hput : put (put data 0 bs) (0 + bs.length) [i] = put data 0 (bs ++ [i]) :=
    put_put [i] (by omega)
  rw [Nat.zero_add] at hput
  rw [UINT8_PACK, written, store_eq_blit, blit_of_le, hput]
  · rw [written, List.length_append]
    rfl
  · rw [length_put (by omega)]
    exact h

theorem UINT16_PACK_written (i : UInt16) (h : bs.length + 1 < data.length) :
    UINT16_PACK (written data bs) i = .ok (written data (bs ++ bytes 2 i.toNat)) := by
  have hlow (a : UInt16) : (a &&& 0xFF).toUInt8 = UInt8.ofNat a.toNat := by
    rw [← UInt8.toNat_inj, UInt16.toNat_toUInt8, UInt16.toNat_and, UInt8.toNat_ofNat']
    change (a.toNat &&& (2 ^ 8 - 1)) % 2 ^ 8 = a.toNat % 2 ^ 8
    rw [and_mask, Nat.mod_mod]
  have hhigh : (i >>> 8).toNat = i.toNat / 256 := by
    rw [UInt16.toNat_shiftRight, Nat.shiftRight_eq_div_pow]
    rfl
  rw [UINT16_PACK, hlow, hlow, hhigh, bind_of_ok (UINT8_PACK_written _ (by omega)),
    UINT8_PACK_written _ (by rw [List.length_append]; exact h), List.append_assoc]
  rfl

theorem UINT32_PACK_written (i : UInt64) (h : bs.length + 3 < data.length) :
    UINT32_PACK (written data bs) i = .ok (written data (bs ++ bytes 4 i.toNat)) := by
  have hlow (a : UInt64) : (a &&& 0xFF).toUInt8 = UInt8.ofNat a.toNat := by
    rw [← UInt8.toNat_inj, UInt64.toNat_toUInt8, UInt64.toNat_and, UInt8.toNat_ofNat']
    change (a.toNat &&& (2 ^ 8 - 1)) % 2 ^ 8 = a.toNat % 2 ^ 8
    rw [and_mask, Nat.mod_mod]
  have hshift (k : UInt64) (hk : k.toNat < 64) :
      (i >>> k).toNat = i.toNat / 2 ^ k.toNat := by
    rw [UInt64.toNat_shiftRight, Nat.shiftRight_eq_div_pow, Nat.mod_eq_of_lt hk]
  have hbytes : bytes 4 i.toNat = [UInt8.ofNat (i.toNat / 2 ^ 24)] ++
      ([UInt8.ofNat (i.toNat / 2 ^ 16)] ++ ([UInt8.ofNat (i.toNat / 2 ^ 8)] ++
        [UInt8.ofNat i.toNat])) := by
    rw [show i.toNat / 2 ^ 24 = i.toNat / 256 / 256 / 256 from by omega,
      show i.toNat / 2 ^ 16 = i.toNat / 256 / 256 from by omega]
    rfl
  have hlen1 (a : UInt8) : (bs ++ [a]).length = bs.length + 1 := List.length_append
  have hlen2 (a b : UInt8) : (bs ++ [a] ++ [b]).length = bs.length + 2 := by
    rw [List.length_append, hlen1]
    rfl
  have hlen3 (a b d : UInt8) : (bs ++ [a] ++ [b] ++ [d]).length = bs.length + 3 := by
    rw [List.length_append, hlen2]
    rfl
  rw [UINT32_PACK, hlow, hlow, hlow, hlow, hshift 24 (by decide), hshift 16 (by decide),
    hshift 8 (by decide), bind_of_ok (UINT8_PACK_written _ (by omega)),
    bind_of_ok (UINT8_PACK_written _ (by rw [hlen1]; omega)),
    bind_of_ok (UINT8_PACK_written _ (by rw [hlen2]; omega)),
    UINT8_PACK_written _ (by rw [hlen3]; omega), hbytes]
  simp only [List.append_assoc]
  rfl

theorem fecPktPack_ok (pkt : FecPkt) (h : FEC_PKT_HDR_SIZE ≤ pkt.data.length) :
    fecPktPack pkt = .ok { pkt with data := put pkt.data 0 (headerBytes pkt.hdr) } := by
  change 14 ≤ pkt.data.length at h
  have hstart : (⟨pkt.data, 0⟩ : Cursor) = written pkt.data [] := by rw [written, put_nil]; rfl
  rw [fecPktPack, hstart, bind_of_ok (UINT8_PACK_written _ (by simp; omega)),
    bind_of_ok (UINT8_PACK_written _ (by simp; omega)),
    bind_of_ok (UINT8_PACK_written _ (by simp; omega)),
    bind_of_ok (UINT8_PACK_written _ (by simp; omega)),
    bind_of_ok (UINT8_PACK_written _ (by simp; omega)),
    bind_of_ok (UINT8_PACK_written _ (by simp; omega)),
    bind_of_ok (UINT16_PACK_written _ (by simp; omega)),
    bind_of_ok (UINT16_PACK_written _ (by simp; omega)),
    bind_of_ok (UINT32_PACK_written _ (by simp; omega))]
  rfl

theorem fecPktSend_ok (pkt : FecPkt) (hdata : pkt.data.length = FEC_PKT_SIZE)
    (hlen : pkt.hdr.len.toNat ≤ FEC_PKT_PAYLOAD_SIZE) :
    fecPktSend pkt = .ok ({ pkt with data := put pkt.data 0 (headerBytes pkt.hdr) },
      headerBytes pkt.hdr ++ (pkt.data.drop FEC_PKT_HDR_SIZE).take pkt.hdr.len.toNat) := by
  change pkt.data.length = 65535 at hdata
  change pkt.hdr.len.toNat ≤ 65521 at hlen
  have hhdr : (headerBytes pkt.hdr).length = 14 := length_headerBytes _
  have hslice : slice (put pkt.data 0 (headerBytes pkt.hdr)) 0 (14 + pkt.hdr.len.toNat)
      = .ok (headerBytes pkt.hdr ++ (pkt.data.drop 14).take pkt.hdr.len.toNat) := by
    rw [slice_of_le (by rw [length_put (by omega)]; omega), List.drop_zero, put_zero,
      List.take_append, hhdr, Nat.add_sub_cancel_left, List.take_of_length_le (by omega)]
  rw [fecPktSend, bind_of_ok (fecPktPack_ok pkt (by rw [hdata]; decide))]
  dsimp only [FEC_PKT_HDR_SIZE]
  rw [bind_of_ok hslice]

/-! ## Unpacking -/

theorem unpackByte_eq (data : List UInt8) (ptr : Nat) :
    unpackByte data ptr = (load data ptr >>= fun b => .ok b.toUInt32.toInt32) := by
  have hmask (b : UInt8) : b.toUInt32 &&& 0xFF = b.toUInt32 := by
    rw [← UInt32.toNat_inj, UInt32.toNat_and, UInt8.toNat_toUInt32]
    change b.toNat &&& (2 ^ 8 - 1) = b.toNat
    rw [and_mask, Nat.mod_eq_of_lt b.toNat_lt]
  simp only [unpackByte, hmask]

/-- The two families of readers agree. -/
theorem uint32Unpack_eq (data : List UInt8) (ptr : Nat) :
    uint32Unpack data ptr = readU32 data ptr := by
  simp only [uint32Unpack, unpackByte_eq, readU32, bind_assoc, ok_bind]
  rfl

theorem uint16Unpack_eq (data : List UInt8) (ptr : Nat) :
    uint16Unpack data ptr = (readU16 data ptr >>= fun v => .ok v.toUInt32) := by
  simp only [uint16Unpack, unpackByte_eq, readU16, bind_assoc, ok_bind]
  refine bind_congr fun b0 => bind_congr fun b1 => ?_
  have h0 := b0.toNat_lt
  have hor : b0.toUInt32 <<< 8 ||| b1.toUInt32
      = (b0.toUInt16 <<< 8 ||| b1.toUInt16).toUInt32 := by
    rw [← UInt32.toNat_inj]
    simp only [UInt32.toNat_or, UInt32.toNat_shiftLeft, UInt8.toNat_toUInt32,
      UInt16.toNat_toUInt32, UInt16.toNat_or, UInt16.toNat_shiftLeft, UInt8.toNat_toUInt16]
    change b0.toNat <<< 8 % 2 ^ 32 ||| b1.toNat = b0.toNat <<< 8 % 2 ^ 16 ||| b1.toNat
    rw [shiftLeft_of_lt (by omega), shiftLeft_of_lt (by omega)]
  rw [← hor]
  rfl

theorem uint16Unpack_drop (v : UInt16) (h : data.drop ptr = bytes 2 v.toNat ++ rest) :
    ∃ u, uint16Unpack data ptr = .ok u ∧ u.toUInt16 = v :=
  ⟨v.toUInt32, by rw [uint16Unpack_eq, bind_of_ok (readU16_drop v h)], by simp⟩

theorem uint32Unpack_drop (v : UInt64) (hv : v.toNat < 2 ^ 32)
    (h : data.drop ptr = bytes 4 v.toNat ++ rest) :
    ∃ u, uint32Unpack data ptr = .ok u ∧ u.toUInt64 = v := by
  have hu : v.toUInt32.toNat = v.toNat := by
    rw [UInt64.toNat_toUInt32, Nat.mod_eq_of_lt hv]
  refine ⟨v.toUInt32, ?_, ?_⟩
  · rw [uint32Unpack_eq]
    rw [← hu] at h
    exact readU32_drop v.toUInt32 h
  · rw [← UInt64.toNat_inj, UInt32.toNat_toUInt64, hu]

/-- A datagram that fits is what the buffer begins with. -/
theorem readSocket_ok {size : Nat} {datagram : List UInt8} (hsize : datagram.length ≤ size)
    (hdata : datagram.length ≤ data.length) :
    readSocket data size (some datagram) = .ok (datagram.length, put data 0 datagram) := by
  rw [readSocket, List.take_of_length_le hsize, bind_of_ok (blit_of_le (by omega))]

theorem fecPktRead_short (pkt : FecPkt) {datagram : List UInt8}
    (hdata : pkt.data.length = FEC_PKT_SIZE) (hpos : datagram ≠ [])
    (hlen : datagram.length < FEC_PKT_HDR_SIZE) :
    ∃ got, fecPktRead pkt (some datagram) = .ok (-1, got) := by
  have hpos := List.length_pos_of_ne_nil hpos
  have hfits : FEC_PKT_HDR_SIZE ≤ FEC_PKT_SIZE := by decide
  rw [fecPktRead, bind_of_ok (readSocket_ok (by omega) (by omega))]
  dsimp only
  rw [if_neg (by omega), if_neg (by omega), if_pos (by omega)]
  exact ⟨_, rfl⟩

/-- A datagram that opens with a header is read up to the two checks. -/
theorem fecPktRead_header (pkt : FecPkt) (hdr : FecPktHdr) (payload : List UInt8)
    (hdata : pkt.data.length = FEC_PKT_SIZE) (htstamp : hdr.groupTstamp.toNat < 2 ^ 32)
    (hlen : (headerBytes hdr ++ payload).length ≤ FEC_PKT_SIZE) :
    ∃ got, fecPktRead pkt (some (headerBytes hdr ++ payload))
        = .ok (if hdr.magic = FEC_PKT_MAGIC ∧ hdr.len.toNat = payload.length then 1 else -1, got) ∧
      (hdr.magic = FEC_PKT_MAGIC → hdr.len.toNat = payload.length →
        got = ⟨hdr, put pkt.data 0 (headerBytes hdr ++ payload), FEC_PKT_HDR_SIZE⟩) := by
  have hhdr : (headerBytes hdr ++ payload).length = FEC_PKT_HDR_SIZE + payload.length := by
    rw [List.length_append, length_headerBytes]
  have hpos : 0 < FEC_PKT_HDR_SIZE := by decide
  have hput : (put pkt.data 0 (headerBytes hdr ++ payload)).drop 0
      = headerBytes hdr ++ (payload ++ pkt.data.drop (headerBytes hdr ++ payload).length) := by
    rw [put_zero, List.drop_zero, List.append_assoc]
  rw [fecPktRead, bind_of_ok (readSocket_ok hlen (by rw [hdata]; exact hlen))]
  dsimp only
  rw [hhdr, if_neg (by omega), if_neg (by omega), if_neg (by omega)]
  generalize put pkt.data 0 (headerBytes hdr ++ payload) = data at hput
  generalize payload ++ pkt.data.drop (headerBytes hdr ++ payload).length = rest at hput
  rw [headerBytes, List.append_assoc, List.append_assoc, List.append_assoc] at hput
  have hversion := drop_cons hput
  have hgroupSeq := drop_cons hversion
  have hpacketSeq := drop_cons hgroupSeq
  have hfecK := drop_cons hpacketSeq
  have hfecN := drop_cons hfecK
  have hfecLen := drop_cons hfecN
  rw [List.append_eq, List.nil_append] at hfecLen
  have hhdrLen := drop_add _ hfecLen
  rw [length_bytes] at hhdrLen
  have hgroupTstamp := drop_add _ hhdrLen
  rw [length_bytes] at hgroupTstamp
  rw [bind_of_ok (load_drop hput)]
  by_cases hmagic : hdr.magic = FEC_PKT_MAGIC
  · obtain ⟨fecLen, hreadLen, hfecLen⟩ := uint16Unpack_drop _ hfecLen
    obtain ⟨hdrLen, hreadHdrLen, hhdrLen⟩ := uint16Unpack_drop _ hhdrLen
    obtain ⟨tstamp, hreadTstamp, htstamp⟩ := uint32Unpack_drop _ htstamp hgroupTstamp
    rw [if_neg (not_not.mpr hmagic), bind_of_ok (load_drop hversion),
      bind_of_ok (load_drop hgroupSeq), bind_of_ok (load_drop hpacketSeq),
      bind_of_ok (load_drop hfecK), bind_of_ok (load_drop hfecN), bind_of_ok hreadLen,
      bind_of_ok hreadHdrLen, bind_of_ok hreadTstamp, hfecLen, hhdrLen, htstamp]
    by_cases hlen : hdr.len.toNat = payload.length
    · rw [if_neg (by omega), if_pos ⟨hmagic, hlen⟩]
      exact ⟨_, rfl, fun _ _ => rfl⟩
    · rw [if_pos (by omega), if_neg (fun h => hlen h.2)]
      exact ⟨_, rfl, fun _ h => absurd h hlen⟩
  · rw [if_pos hmagic, if_neg (fun h => hmagic h.1)]
    exact ⟨_, rfl, fun h => absurd h hmagic⟩

theorem head_headerBytes (hdr : FecPktHdr) (payload : List UInt8) :
    (headerBytes hdr ++ payload).head? = some hdr.magic := rfl

/-- The length field stands at offset eight. -/
theorem lengthField (hdr : FecPktHdr) (payload : List UInt8) :
    value (((headerBytes hdr ++ payload).drop 8).take 2) = hdr.len.toNat := by
  have hdrop : (headerBytes hdr ++ payload).drop 8
      = bytes 2 hdr.len.toNat ++ (bytes 4 hdr.groupTstamp.toNat ++ payload) := by
    rw [headerBytes, List.append_assoc, List.append_assoc]
    exact List.drop_left' rfl
  rw [hdrop, List.take_left' (length_bytes 2 _), value_bytes hdr.len.toNat_lt]

/-- What an application does between `fec_pkt_init` and `fec_pkt_send`: it sets the header
and stores the payload where `pkt->payload` points. -/
def prepare (pkt : FecPkt) (hdr : FecPktHdr) (payload : List UInt8) : Exec FecPkt := do
  let data ← blit pkt.data pkt.payload payload
  .ok { pkt with hdr := hdr, data := data }

/-- A prepared packet hands its header and its payload to `send`. -/
theorem fecPktSend_prepare (pkt : FecPkt) (hdr : FecPktHdr) (payload : List UInt8)
    (hdata : pkt.data.length = FEC_PKT_SIZE) (hlen : hdr.len.toNat = payload.length)
    (hfits : payload.length ≤ FEC_PKT_PAYLOAD_SIZE) :
    ∃ sent, (prepare (fecPktInit pkt) hdr payload >>= fecPktSend)
      = .ok (sent, headerBytes hdr ++ payload) := by
  have hsize : FEC_PKT_SIZE = FEC_PKT_HDR_SIZE + FEC_PKT_PAYLOAD_SIZE := rfl
  have hroom : FEC_PKT_HDR_SIZE + payload.length ≤ pkt.data.length := by omega
  have hprepare : prepare (fecPktInit pkt) hdr payload
      = .ok ⟨hdr, put pkt.data FEC_PKT_HDR_SIZE payload, FEC_PKT_HDR_SIZE⟩ := by
    rw [prepare, fecPktInit, bind_of_ok (blit_of_le hroom)]
  have hpayload : ((put pkt.data FEC_PKT_HDR_SIZE payload).drop FEC_PKT_HDR_SIZE).take
      payload.length = payload := by
    rw [put, List.append_assoc, List.drop_left' (by rw [List.length_take]; omega), List.take_left]
  rw [bind_of_ok hprepare, fecPktSend_ok _ (by rw [length_put hroom]; exact hdata)
    (show hdr.len.toNat ≤ FEC_PKT_PAYLOAD_SIZE by omega)]
  dsimp only
  rw [hlen, hpayload]
  exact ⟨_, rfl⟩

/-- What was sent is read back, with the time stamp that the wire has room for. -/
theorem send_read (pkt src : FecPkt) (hdata : pkt.data.length = FEC_PKT_SIZE) (hdr : FecPktHdr)
    (payload : List UInt8) (hsrc : src.data.length = FEC_PKT_SIZE)
    (hmagic : hdr.magic = FEC_PKT_MAGIC) (hlen : hdr.len.toNat = payload.length)
    (hfits : payload.length ≤ FEC_PKT_PAYLOAD_SIZE) :
    ∃ sent datagram got, (prepare (fecPktInit src) hdr payload >>= fecPktSend)
        = .ok (sent, datagram) ∧
      datagram.length = FEC_PKT_HDR_SIZE + payload.length ∧
      fecPktRead pkt (some datagram) = .ok (1, got) ∧
      got.hdr = { hdr with groupTstamp := hdr.groupTstamp.toUInt32.toUInt64 } ∧
      slice got.data got.payload hdr.len.toNat = .ok payload := by
  have hsize : FEC_PKT_SIZE = FEC_PKT_HDR_SIZE + FEC_PKT_PAYLOAD_SIZE := rfl
  obtain ⟨sent, hsend⟩ := fecPktSend_prepare src hdr payload hsrc hlen hfits
  have hhdr := length_headerBytes hdr
  rw [← headerBytes_mod] at hsend hhdr
  generalize harrived : { hdr with groupTstamp := hdr.groupTstamp.toUInt32.toUInt64 } = arrived
    at hsend hhdr
  have htstamp : arrived.groupTstamp.toNat < 2 ^ 32 := by
    rw [← harrived]
    exact UInt32.toNat_lt _
  have hmagic' : arrived.magic = FEC_PKT_MAGIC := by rw [← harrived]; exact hmagic
  have hlen' : arrived.len.toNat = payload.length := by rw [← harrived]; exact hlen
  have hwhole : (headerBytes arrived ++ payload).length = FEC_PKT_HDR_SIZE + payload.length := by
    rw [List.length_append, hhdr]
  obtain ⟨got, hread, hgot⟩ := fecPktRead_header pkt arrived payload hdata htstamp (by omega)
  rw [if_pos ⟨hmagic', hlen'⟩] at hread
  refine ⟨sent, _, got, hsend, hwhole, hread, ?_, ?_⟩
  · rw [hgot hmagic' hlen']
  · have hpayload : (put pkt.data 0 (headerBytes arrived ++ payload)).drop FEC_PKT_HDR_SIZE
        = payload ++ pkt.data.drop (headerBytes arrived ++ payload).length := by
      rw [put_zero, List.append_assoc, List.drop_left' hhdr]
    rw [hgot hmagic' hlen', hlen]
    apply slice_drop hpayload
    rw [length_put (by omega)]
    omega

/-- A datagram with room for a header is accepted exactly if it has the magic byte and the length
that it says, and then it is what packing gives back. -/
theorem read_header (pkt : FecPkt) (hdata : pkt.data.length = FEC_PKT_SIZE) (hdr : FecPktHdr)
    (htstamp : hdr.groupTstamp.toNat < 2 ^ 32) (payload : List UInt8)
    (hfits : (headerBytes hdr ++ payload).length ≤ FEC_PKT_SIZE) :
    ∃ r got, fecPktRead pkt (some (headerBytes hdr ++ payload)) = .ok (r, got) ∧
      (r = 1 ↔ FEC_PKT_HDR_SIZE ≤ (headerBytes hdr ++ payload).length ∧
        (headerBytes hdr ++ payload).head? = some FEC_PKT_MAGIC ∧
        value (((headerBytes hdr ++ payload).drop 8).take 2)
          = (headerBytes hdr ++ payload).length - FEC_PKT_HDR_SIZE) ∧
      (r = 1 → ∃ packed, fecPktPack got = .ok packed ∧
        packed.data.take (headerBytes hdr ++ payload).length = headerBytes hdr ++ payload) := by
  obtain ⟨got, hread, hgot⟩ := fecPktRead_header pkt hdr payload hdata htstamp hfits
  have hwhole : (headerBytes hdr ++ payload).length = FEC_PKT_HDR_SIZE + payload.length := by
    rw [List.length_append, length_headerBytes]
  have haccepted : (hdr.magic = FEC_PKT_MAGIC ∧ hdr.len.toNat = payload.length) ↔
      FEC_PKT_HDR_SIZE ≤ (headerBytes hdr ++ payload).length ∧
      (headerBytes hdr ++ payload).head? = some FEC_PKT_MAGIC ∧
      value (((headerBytes hdr ++ payload).drop 8).take 2)
        = (headerBytes hdr ++ payload).length - FEC_PKT_HDR_SIZE := by
    rw [head_headerBytes, lengthField, hwhole, Nat.add_sub_cancel_left, Option.some.injEq]
    exact ⟨fun h => ⟨Nat.le_add_right _ _, h⟩, fun h => h.2⟩
  refine ⟨_, got, hread, ?_, ?_⟩
  · rw [← haccepted]
    by_cases h : hdr.magic = FEC_PKT_MAGIC ∧ hdr.len.toNat = payload.length
    · rw [if_pos h]
      exact ⟨fun _ => h, fun _ => rfl⟩
    · rw [if_neg h]
      exact ⟨fun hr => by omega, fun hacc => absurd hacc h⟩
  · intro hr
    by_cases h : hdr.magic = FEC_PKT_MAGIC ∧ hdr.len.toNat = payload.length
    · have hgot := hgot h.1 h.2
      have hroom : (put pkt.data 0 (headerBytes hdr ++ payload)).length = FEC_PKT_SIZE := by
        rw [length_put (by omega), hdata]
      subst hgot
      refine ⟨_, fecPktPack_ok _ (by rw [hroom]; decide), ?_⟩
      dsimp only
      rw [put_zero (put _ _ _), put_zero, List.append_assoc, List.drop_left,
        ← List.append_assoc, List.take_left]
    · rw [if_neg h] at hr
      omega

/-- The datagram codec is exact in both directions. What a prepared packet sends is read back
with its header, the timestamp modulo 2^32, and its payload; and a datagram is accepted if and
only if it is a header with the magic and a length field that fits, in which case packing
gives it back. -/
theorem datagram_exact (pkt : FecPkt) (hdata : pkt.data.length = FEC_PKT_SIZE) :
    (∀ (src : FecPkt) (hdr : FecPktHdr) (payload : List UInt8),
      src.data.length = FEC_PKT_SIZE → hdr.magic = FEC_PKT_MAGIC →
      hdr.len.toNat = payload.length → payload.length ≤ FEC_PKT_PAYLOAD_SIZE →
      ∃ sent datagram got, (prepare (fecPktInit src) hdr payload >>= fecPktSend)
          = .ok (sent, datagram) ∧
        datagram.length = FEC_PKT_HDR_SIZE + payload.length ∧
        fecPktRead pkt (some datagram) = .ok (1, got) ∧
        got.hdr = { hdr with groupTstamp := hdr.groupTstamp.toUInt32.toUInt64 } ∧
        slice got.data got.payload hdr.len.toNat = .ok payload) ∧
    (∀ datagram : List UInt8, 1 ≤ datagram.length → datagram.length ≤ FEC_PKT_SIZE →
      ∃ r got, fecPktRead pkt (some datagram) = .ok (r, got) ∧
        (r = 1 ↔ FEC_PKT_HDR_SIZE ≤ datagram.length ∧ datagram.head? = some FEC_PKT_MAGIC ∧
          value ((datagram.drop 8).take 2) = datagram.length - FEC_PKT_HDR_SIZE) ∧
        (r = 1 → ∃ packed, fecPktPack got = .ok packed ∧
          packed.data.take datagram.length = datagram)) := by
  constructor
  · intro src hdr payload hsrc hmagic hlen hfits
    exact send_read pkt src hdata hdr payload hsrc hmagic hlen hfits
  · intro datagram hpos hfits
    by_cases hshort : datagram.length < FEC_PKT_HDR_SIZE
    · obtain ⟨got, hread⟩ := fecPktRead_short pkt hdata (List.ne_nil_of_length_pos hpos) hshort
      refine ⟨-1, got, hread, ⟨fun h => by omega, fun h => by omega⟩, fun h => by omega⟩
    · obtain ⟨hdr, htstamp, heq⟩ := exists_header (Nat.le_of_not_lt hshort)
      generalize datagram.drop FEC_PKT_HDR_SIZE = payload at heq
      subst heq
      exact read_header pkt hdata hdr htstamp payload hfits

/-- Three bytes of payload with the top bits of the timestamp set, an accepted datagram of two,
and one of a single byte. -/
theorem datagram_exact_three :
    (∃ sent datagram got,
      (prepare (fecPktInit ⟨⟨0, 0, 0, 0, 0, 0, 0, 0, 0⟩, List.replicate 65535 0, 0⟩)
        ⟨0xfe, 1, 255, 7, 4, 8, 0xffff, 3, 0x1ffffffff⟩ [7, 8, 9] >>= fecPktSend)
          = .ok (sent, datagram) ∧
      datagram.length = 17 ∧
      fecPktRead ⟨⟨0, 0, 0, 0, 0, 0, 0, 0, 0⟩, List.replicate 65535 0, 0⟩ (some datagram)
        = .ok (1, got) ∧
      got.hdr = ⟨0xfe, 1, 255, 7, 4, 8, 0xffff, 3, 0xffffffff⟩ ∧
      slice got.data got.payload 3 = .ok [7, 8, 9]) ∧
    (∃ got packed, fecPktRead ⟨⟨0, 0, 0, 0, 0, 0, 0, 0, 0⟩, List.replicate 65535 0, 0⟩
        (some [0xfe, 1, 255, 7, 4, 8, 2, 0, 0, 2, 1, 2, 3, 4, 5, 6]) = .ok (1, got) ∧
      fecPktPack got = .ok packed ∧
      packed.data.take 16 = [0xfe, 1, 255, 7, 4, 8, 2, 0, 0, 2, 1, 2, 3, 4, 5, 6]) ∧
    ∃ r got, fecPktRead ⟨⟨0, 0, 0, 0, 0, 0, 0, 0, 0⟩, List.replicate 65535 0, 0⟩ (some [0xfe])
      = .ok (r, got) ∧ r ≠ 1 := by
  have hexact := datagram_exact ⟨⟨0, 0, 0, 0, 0, 0, 0, 0, 0⟩, List.replicate 65535 0, 0⟩
    List.length_replicate
  refine ⟨?_, ?_, ?_⟩
  · exact hexact.1 _ ⟨0xfe, 1, 255, 7, 4, 8, 0xffff, 3, 0x1ffffffff⟩ [7, 8, 9]
      List.length_replicate rfl rfl (by decide)
  · obtain ⟨r, got, hread, hiff, hpacks⟩ :=
      hexact.2 [0xfe, 1, 255, 7, 4, 8, 2, 0, 0, 2, 1, 2, 3, 4, 5, 6] (by decide) (by decide)
    obtain rfl := hiff.mpr (by decide)
    obtain ⟨packed, hpack, htake⟩ := hpacks rfl
    exact ⟨got, packed, hread, hpack, htake⟩
  · obtain ⟨r, got, hread, hiff, -⟩ := hexact.2 [0xfe] (by decide) (by decide)
    exact ⟨r, got, hread, fun h => absurd (hiff.mp h).1 (by decide)⟩

end RtpSdr.Fec.Pkt
