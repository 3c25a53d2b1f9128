import Mathlib.Tactic.IntervalCases
import RtpSdr.Rtp.Util

/-!
# The RTP header: `rtp_header.c`

Fixed fields, a list of contributing sources and an extension. The bit-fields of
`struct rtp_header` are bit vectors of their width; a list the code has not
allocated is a null pointer.
-/
namespace RtpSdr.Rtp.Header

open RtpSdr.Lib.Checked
open RtpSdr.Lib.Memory
open RtpSdr.Lib.BigEndian
open RtpSdr.Rtp.Util

/-- `rtp_header`. -/
structure RtpHeader where
  version : BitVec 2
  p : BitVec 1
  x : BitVec 1
  cc : BitVec 4
  m : BitVec 1
  pt : BitVec 7
  seq : UInt16
  ts : UInt32
  ssrc : UInt32
  csrc : Ptr (List UInt32)
  extId : UInt16
  extCount : UInt16
  extData : Ptr (List UInt32)

section Source

/-- `rtp_header_create`: the structure is cleared. -/
def rtpHeaderCreate : RtpHeader where
  version := 0
  p := 0
  x := 0
  cc := 0
  m := 0
  pt := 0
  seq := 0
  ts := 0
  ssrc := 0
  csrc := .null
  extId := 0
  extCount := 0
  extData := .null

def rtpHeaderSize (header : RtpHeader) : Nat :=
  let size := 12
  let size := if header.csrc.isSet && decide (header.cc ≠ 0) then size + 4 * header.cc.toNat
    else size
  if decide (header.x ≠ 0) && decide (header.extCount ≠ 0) && header.extData.isSet then
    size + 4 * (1 + header.extCount.toNat)
  else size

/-- The second byte: the marker and the payload type. -/
def typeByte (header : RtpHeader) : UInt8 :=
  UInt8.ofNat (((header.m.toNat &&& 1) <<< 7) ||| (header.pt.toNat &&& 0x7f))

/-- The contributing sources in `rtp_header_serialize`; the count is masked to three bits. -/
def serializeCsrc (header : RtpHeader) (buffer : List UInt8) : Exec (List UInt8) :=
  if decide (header.cc ≠ 0) && header.csrc.isSet then do
    let b0 ← load buffer 0
    let buffer ← store buffer 0 (b0 ||| UInt8.ofNat (header.cc.toNat &&& 0x7))
    forUp (fun i buffer => do
      let csrc ← header.csrc.deref
      let w ← load csrc i
      writeU32 buffer (12 + i * 4) w) header.cc.toNat buffer
  else .ok buffer

/-- The extension words in `rtp_header_serialize`; the loop counter is a `uint8_t`. -/
def writeExtWords (header : RtpHeader) (extData : Nat) (s : UInt8 × List UInt8) :
    Exec (Step (UInt8 × List UInt8) (List UInt8)) :=
  if s.1.toNat < header.extCount.toNat then do
    let ext ← header.extData.deref
    let w ← load ext s.1.toNat
    let buffer ← writeU32 s.2 (extData + s.1.toNat * 4) w
    .ok (.next (s.1 + 1, buffer))
  else .ok (.leave s.2)

/-- The extension in `rtp_header_serialize`. -/
def serializeExt (fuel : Nat) (header : RtpHeader) (buffer : List UInt8) : Exec (List UInt8) :=
  if decide (header.x ≠ 0) && decide (header.extCount ≠ 0) && header.extData.isSet then do
    let b0 ← load buffer 0
    let buffer ← store buffer 0 (b0 ||| UInt8.ofNat (1 <<< 4))
    let extHdr := 12 + 4 * header.cc.toNat
    let buffer ← writeU16 buffer extHdr header.extId
    let buffer ← writeU16 buffer (extHdr + 2) header.extCount
    loopFuel (writeExtWords header (extHdr + 4)) fuel (0, buffer)
  else .ok buffer

/-- The result and the buffer afterwards. -/
def rtpHeaderSerialize (fuel : Nat) (header : RtpHeader) (buffer : List UInt8) (size : Nat) :
    Exec (Int × List UInt8) :=
  if size < rtpHeaderSize header then .ok (RTP_ERROR, buffer)
  else do
    let buffer ← blit buffer 0 (List.replicate (rtpHeaderSize header) 0)
    let buffer ← store buffer 0 (UInt8.ofNat (2 <<< 6))
    let buffer ← store buffer 1 (typeByte header)
    let buffer ← writeU16 buffer 2 header.seq
    let buffer ← writeU32 buffer 4 header.ts
    let buffer ← writeU32 buffer 8 header.ssrc
    let buffer ← serializeCsrc header buffer
    let buffer ← serializeExt fuel header buffer
    .ok (castInt (rtpHeaderSize header), buffer)

/-- The contributing sources in `rtp_header_parse`. -/
def parseCsrc (header : RtpHeader) (buffer : List UInt8) : Exec RtpHeader :=
  if header.cc ≠ 0 then do
    let csrc ← readWords buffer 12 header.cc.toNat
    .ok { header with csrc := .obj csrc }
  else .ok header

/-- The extension in `rtp_header_parse`. -/
def parseExt (header : RtpHeader) (buffer : List UInt8) : Exec RtpHeader :=
  if header.x ≠ 0 then do
    let extHdr := 12 + 4 * header.cc.toNat
    let extId ← readU16 buffer extHdr
    let extCount ← readU16 buffer (extHdr + 2)
    let extData ← readWords buffer (extHdr + 4) extCount.toNat
    .ok { header with extId := extId, extCount := extCount, extData := .obj extData }
  else .ok header

/-- The result and the header afterwards. -/
def rtpHeaderParse (header : RtpHeader) (buffer : List UInt8) (size : Nat) :
    Exec (Int × RtpHeader) :=
  if size < 12 then .ok (RTP_ERROR, header)
  else do
    let b0 ← load buffer 0
    let header := { header with version := BitVec.ofNat 2 ((b0 >>> 6) &&& 0x3).toNat }
    if header.version ≠ 2 then .ok (RTP_ERROR, header)
    else do
      let b1 ← load buffer 1
      let header := { header with pt := BitVec.ofNat 7 (b1 &&& 0x7f).toNat }
      if header.pt.toNat < 96 ∧ header.pt.toNat > 71 then .ok (RTP_ERROR, header)
      else do
        let seq ← readU16 buffer 2
        let ts ← readU32 buffer 4
        let ssrc ← readU32 buffer 8
        let header := { header with
          x := BitVec.ofNat 1 ((b0 >>> 4) &&& 0x1).toNat
          cc := BitVec.ofNat 4 (b0 &&& 0x7).toNat
          m := BitVec.ofNat 1 ((b1 >>> 7) &&& 0x1).toNat
          seq := seq
          ts := ts
          ssrc := ssrc }
        if size < rtpHeaderSize header then .ok (RTP_ERROR, header)
        else do
          let header ← parseCsrc header buffer
          let header ← parseExt header buffer
          .ok (RTP_OK, header)

end Source

/-! ## What a header says and its bytes -/

/-- The fields of a header, with its lists. -/
structure Content where
  m : BitVec 1
  pt : BitVec 7
  seq : UInt16
  ts : UInt32
  ssrc : UInt32
  csrc : List UInt32
  ext : Option (UInt16 × List UInt32)

/-- The header structure holds the content: a list that is empty needs no array. -/
structure Holds (header : RtpHeader) (c : Content) : Prop where
  version : header.version = 2
  p : header.p = 0
  m : header.m = c.m
  pt : header.pt = c.pt
  seq : header.seq = c.seq
  ts : header.ts = c.ts
  ssrc : header.ssrc = c.ssrc
  cc : header.cc.toNat = c.csrc.length
  csrc : c.csrc ≠ [] → header.csrc = .obj c.csrc
  plain : c.ext = none → header.x = 0
  extended : ∀ id ws, c.ext = some (id, ws) → header.x = 1 ∧ header.extId = id ∧
    header.extCount.toNat = ws.length ∧ ws ≠ [] ∧ header.extData = .obj ws

/-- The bytes of the extension. -/
def extBytes : Option (UInt16 × List UInt32) → List UInt8
  | none => []
  | some (id, ws) => bytes 2 id.toNat ++ bytes 2 ws.length ++ words ws

/-- The first byte as the code writes it: the count keeps its lowest three bits. -/
def flagByte (c : Content) : UInt8 :=
  UInt8.ofNat (128 + (if c.ext.isSome then 16 else 0) + c.csrc.length % 8)

/-- The fixed part from the second byte on. -/
def fixedTail (c : Content) : List UInt8 :=
  UInt8.ofNat (c.m.toNat * 128 + c.pt.toNat) ::
    (bytes 2 c.seq.toNat ++ bytes 4 c.ts.toNat ++ bytes 4 c.ssrc.toNat)

/-- The whole header on the wire. -/
def encode (c : Content) : List UInt8 :=
  flagByte c :: fixedTail c ++ words c.csrc ++ extBytes c.ext

def Content.size (c : Content) : Nat := 12 + 4 * c.csrc.length + (extBytes c.ext).length

@[simp] theorem length_fixedTail (c : Content) : (fixedTail c).length = 11 := by
  simp [fixedTail]

@[simp] theorem length_encode (c : Content) : (encode c).length = c.size := by
  simp [encode, Content.size]
  omega

variable {header : RtpHeader} {c : Content} {buffer : List UInt8}

theorem Holds.csrc_le (h : Holds header c) : c.csrc.length ≤ 15 := by
  have := header.cc.isLt
  have := h.cc
  omega

theorem Holds.cc_ne_zero (h : Holds header c) : header.cc ≠ 0 ↔ c.csrc ≠ [] := by
  rw [Ne, ← BitVec.toNat_inj, h.cc, Ne, ← List.length_eq_zero_iff]
  rfl

theorem length_extBytes_some (id : UInt16) (ws : List UInt32) :
    (extBytes (some (id, ws))).length = 4 * (1 + ws.length) := by
  simp [extBytes]
  omega

theorem Holds.extCount_ne_zero (h : Holds header c) {id : UInt16} {ws : List UInt32}
    (he : c.ext = some (id, ws)) : header.extCount ≠ 0 := by
  obtain ⟨_, _, hcount, hne, _⟩ := h.extended id ws he
  intro h0
  rw [h0] at hcount
  exact hne (List.length_eq_zero_iff.mp hcount.symm)

/-- The part of the size up to the extension, where the list is there if it has elements. -/
theorem size_csrc (hset : header.cc ≠ 0 → header.csrc.isSet = true) :
    (if header.csrc.isSet && decide (header.cc ≠ 0) then 12 + 4 * header.cc.toNat else 12)
      = 12 + 4 * header.cc.toNat := by
  by_cases hcc : header.cc ≠ 0
  · rw [hset hcc, decide_eq_true hcc, if_pos (by decide)]
  · rw [decide_eq_false hcc, Bool.and_false, if_neg (by decide), not_not.mp hcc]
    rfl

/-- The size the code computes is the number of bytes of the header. -/
theorem Holds.size_eq (h : Holds header c) : rtpHeaderSize header = c.size := by
  have hset : header.cc ≠ 0 → header.csrc.isSet = true := by
    intro hcc
    rw [h.csrc (h.cc_ne_zero.mp hcc)]
    rfl
  have hcsrc := size_csrc hset
  rw [h.cc] at hcsrc
  unfold rtpHeaderSize Content.size
  simp only [h.cc, hcsrc]
  cases he : c.ext with
  | none => simp [h.plain he, extBytes]
  | some e =>
    obtain ⟨hx, _, hcount, _, hdata⟩ := h.extended e.1 e.2 he
    rw [decide_eq_true (by rw [hx]; decide), decide_eq_true (h.extCount_ne_zero he), hdata,
      if_pos (by simp), hcount, length_extBytes_some]

/-- The counts are bounded by the widths of their fields. -/
theorem Holds.size_le (h : Holds header c) : c.size ≤ 262216 := by
  have hcsrc := h.csrc_le
  rw [Content.size]
  cases he : c.ext with
  | none =>
    rw [extBytes, List.length_nil]
    omega
  | some e =>
    have hcount := (h.extended e.1 e.2 he).2.2.1
    have hlt := header.extCount.toNat_lt
    rw [length_extBytes_some]
    omega

/-! ## Serializing -/

theorem load_zero (b : UInt8) (bs : List UInt8) : load (b :: bs) 0 = .ok b := rfl

theorem store_zero (a b : UInt8) (bs : List UInt8) : store (b :: bs) 0 a = .ok (a :: bs) := rfl

theorem typeByte_eq (h : Holds header c) :
    typeByte header = UInt8.ofNat (c.m.toNat * 128 + c.pt.toNat) := by
  have hpt := c.pt.isLt
  have hm := c.m.isLt
  rw [typeByte, h.m, h.pt, show 0x7f = 2 ^ 7 - 1 from rfl, and_mask, show c.m.toNat &&& 1 =
    c.m.toNat % 2 ^ 1 from and_mask _ 1, Nat.shiftLeft_eq, or_eq_add (by omega)]
  congr 1
  omega

theorem serializeCsrc_ok (h : Holds header c) {b : UInt8} {t : List UInt8} (zs : List UInt8)
    (ht : t.length = 11) (hzs : 4 * c.csrc.length ≤ zs.length) :
    serializeCsrc header (b :: (t ++ zs)) = .ok ((b ||| UInt8.ofNat (c.csrc.length &&& 0x7)) ::
      (t ++ words c.csrc ++ zs.drop (4 * c.csrc.length))) := by
  unfold serializeCsrc
  by_cases hc : c.csrc = []
  · rw [decide_eq_false (mt h.cc_ne_zero.mp (not_not.mpr hc)), Bool.false_and,
      if_neg (by decide), hc]
    simp
  · have hloop := writeWords_ok c.csrc
      (show ((b ||| UInt8.ofNat (c.csrc.length &&& 0x7)) :: t).length = 12 by
        rw [List.length_cons, ht]) hzs
    rw [decide_eq_true (h.cc_ne_zero.mpr hc), h.csrc hc, if_pos (by simp), load_zero, ok_bind,
      store_zero, ok_bind, h.cc]
    exact hloop

/-- Up to 255 words the `uint8_t` counter ends the loop. -/
theorem writeExtWords_ok {ws : List UInt32} (hcount : header.extCount.toNat = ws.length)
    (hdata : header.extData = .obj ws) (hlen : ws.length ≤ 255) {off : Nat} (w zs : List UInt8)
    (hoff : w.length = off) (hzs : 4 * ws.length ≤ zs.length) :
    loopFuel (writeExtWords header off) 256 (0, w ++ zs)
      = .ok (w ++ words ws ++ zs.drop (4 * ws.length)) := by
  rw [← withWords_length]
  obtain ⟨r, hr, hres⟩ := loopFuel_variant (b := writeExtWords header off)
    (I := fun s => s.1.toNat ≤ ws.length ∧ s.2 = withWords w zs ws s.1.toNat)
    (Q := fun r => r = withWords w zs ws ws.length) (fun s => ws.length - s.1.toNat)
    (by
      intro s hs
      obtain ⟨hle, hbuf⟩ := hs
      unfold writeExtWords
      rw [hcount, hdata, hbuf]
      by_cases hi : s.1.toNat < ws.length
      · have hnext : (s.1 + 1).toNat = s.1.toNat + 1 := by
          rw [UInt8.toNat_add]
          change (s.1.toNat + 1) % 256 = _
          omega
        refine .inl ⟨(s.1 + 1, withWords w zs ws (s.1.toNat + 1)), ?_, ?_, ?_⟩
        · rw [if_pos hi, Ptr.deref_obj, ok_bind,
            bind_of_ok (load_of_getElem? (List.getElem?_eq_getElem hi)),
            bind_of_ok (writeU32_withWords hoff hi hzs)]
        · rw [hnext]
          exact ⟨hi, rfl⟩
        · rw [hnext]
          omega
      · refine .inr ⟨_, by rw [if_neg hi], ?_⟩
        rw [show s.1.toNat = ws.length from by omega])
    256 (0, w ++ zs) ⟨Nat.zero_le _, (withWords_zero w zs ws).symm⟩
    (by change ws.length - 0 < 256; omega)
  rw [hr, hres]

/-- The extension goes behind as many words as the header counts sources. -/
theorem serializeExt_words (hx : header.x ≠ 0) {ws : List UInt32}
    (hcount : header.extCount.toNat = ws.length) (hne : ws ≠ []) (hdata : header.extData = .obj ws)
    (hlen : ws.length ≤ 255) {b : UInt8} {t : List UInt8} (zs : List UInt8)
    (ht : t.length = 11 + 4 * header.cc.toNat) (hzs : 4 * (1 + ws.length) ≤ zs.length) :
    serializeExt 256 header (b :: (t ++ zs))
      = .ok ((b ||| UInt8.ofNat 16) ::
        (t ++ extBytes (some (header.extId, ws)) ++ zs.drop (4 * (1 + ws.length)))) := by
  have hcount0 : header.extCount ≠ 0 := by
    intro hzero
    rw [hzero] at hcount
    exact hne (List.eq_nil_of_length_eq_zero hcount.symm)
  have hhead : ((b ||| UInt8.ofNat 16) :: t).length = 12 + 4 * header.cc.toNat := by
    rw [List.length_cons, ht]
    omega
  have hids : ((b ||| UInt8.ofNat 16) :: t
      ++ (bytes 2 header.extId.toNat ++ bytes 2 ws.length)).length
      = 12 + 4 * header.cc.toNat + 4 := by
    rw [List.length_append, hhead, List.length_append, length_bytes, length_bytes]
  have hloop := writeExtWords_ok hcount hdata hlen _ (zs.drop 4) hids
    (by rw [List.length_drop]; omega)
  have hblit := blit_append hhead
    (show (bytes 2 header.extId.toNat ++ bytes 2 ws.length).length = 4 by
      rw [List.length_append, length_bytes, length_bytes])
    (show 4 ≤ zs.length by omega)
  rw [serializeExt, decide_eq_true hx, decide_eq_true hcount0, hdata, if_pos (by simp), load_zero,
    ok_bind, store_zero, ok_bind]
  simp only [writeU16_eq, hcount]
  rw [blit_bind_blit _ _ _ _ (by rw [length_bytes])]
  rw [show (b ||| UInt8.ofNat (1 <<< 4)) :: (t ++ zs)
      = (b ||| UInt8.ofNat 16) :: t ++ zs from rfl,
    hblit, ok_bind, hloop, List.drop_drop, Nat.mul_add]
  simp [extBytes]

theorem serializeExt_ok (h : Holds header c)
    (hext : ∀ id ws, c.ext = some (id, ws) → ws.length ≤ 255) {b : UInt8} {t : List UInt8}
    (zs : List UInt8) (ht : t.length = 11 + 4 * c.csrc.length)
    (hzs : (extBytes c.ext).length ≤ zs.length) :
    serializeExt 256 header (b :: (t ++ zs))
      = .ok ((b ||| UInt8.ofNat (if c.ext.isSome then 16 else 0)) ::
        (t ++ extBytes c.ext ++ zs.drop (extBytes c.ext).length)) := by
  cases he : c.ext with
  | none =>
    rw [serializeExt, decide_eq_false (not_not.mpr (h.plain he)), Bool.false_and, Bool.false_and,
      if_neg (by decide)]
    simp [extBytes]
  | some e =>
    obtain ⟨id, ws⟩ := e
    obtain ⟨hx, rfl, hcount, hne, hdata⟩ := h.extended id ws he
    rw [he, length_extBytes_some] at hzs
    rw [length_extBytes_some]
    exact serializeExt_words (by rw [hx]; decide) hcount hne hdata (hext _ ws he) zs
      (by rw [ht, h.cc]) hzs

/-- From 256 words on the counter never reaches the end. -/
theorem serializeExt_diverges (hx : header.x ≠ 0) (hcount : 256 ≤ header.extCount.toNat)
    (hset : header.extData.isSet = true) (fuel : Nat) (b b' : List UInt8) :
    serializeExt fuel header b ≠ .ok b' := by
  have hcount0 : header.extCount ≠ 0 := by
    intro hzero
    rw [hzero] at hcount
    exact absurd hcount (by decide)
  have hloop (off : Nat) (s : UInt8 × List UInt8) (b : List UInt8) :
      writeExtWords header off s ≠ .ok (.leave b) := by
    have hi := s.1.toNat_lt
    intro hleave
    rw [writeExtWords, if_pos (by omega)] at hleave
    obtain ⟨_, _, hleave⟩ := bind_eq_ok.mp hleave
    obtain ⟨_, _, hleave⟩ := bind_eq_ok.mp hleave
    obtain ⟨_, _, hleave⟩ := bind_eq_ok.mp hleave
    cases hleave
  intro hrun
  rw [serializeExt, decide_eq_true hx, decide_eq_true hcount0, hset, if_pos (by simp)] at hrun
  obtain ⟨_, _, hrun⟩ := bind_eq_ok.mp hrun
  obtain ⟨_, _, hrun⟩ := bind_eq_ok.mp hrun
  obtain ⟨_, _, hrun⟩ := bind_eq_ok.mp hrun
  obtain ⟨_, _, hrun⟩ := bind_eq_ok.mp hrun
  exact loopFuel_ne_ok (hloop _) _ _ _ hrun

/-- The flags the code puts together with `|` are those of the first byte. -/
theorem flagByte_eq (hc : c.csrc.length ≤ 15) :
    UInt8.ofNat (2 <<< 6) ||| UInt8.ofNat (c.csrc.length &&& 0x7)
      ||| UInt8.ofNat (if c.ext.isSome then 16 else 0) = flagByte c := by
  unfold flagByte
  generalize c.csrc.length = n at hc
  generalize c.ext.isSome = x
  have : n < 16 := by omega
  interval_cases n <;> cases x <;> rfl

/-- The fixed part from the second byte on, as it is written. -/
def fixedBytes (header : RtpHeader) : List UInt8 :=
  typeByte header ::
    (bytes 2 header.seq.toNat ++ bytes 4 header.ts.toNat ++ bytes 4 header.ssrc.toNat)

theorem length_fixedBytes (header : RtpHeader) : (fixedBytes header).length = 11 := by
  simp [fixedBytes]

theorem Holds.fixedBytes_eq (h : Holds header c) : fixedBytes header = fixedTail c := by
  rw [fixedBytes, typeByte_eq h, h.seq, h.ts, h.ssrc, fixedTail]

theorem twelve_le_size (header : RtpHeader) : 12 ≤ rtpHeaderSize header := by
  rw [rtpHeaderSize]
  split <;> split <;> omega

/-- The buffer after `memset`. -/
def cleared (header : RtpHeader) (buffer : List UInt8) : List UInt8 :=
  List.replicate (rtpHeaderSize header) 0 ++ buffer.drop (rtpHeaderSize header)

theorem length_cleared {buffer : List UInt8} (h : rtpHeaderSize header ≤ buffer.length) :
    (cleared header buffer).length = buffer.length := by
  rw [cleared, List.length_append, List.length_replicate, List.length_drop]
  omega

/-- The lists follow the fixed part. -/
theorem rtpHeaderSerialize_eq (fuel : Nat) {buffer : List UInt8} {size : Nat}
    (hsize : rtpHeaderSize header ≤ size) (hbuffer : rtpHeaderSize header ≤ buffer.length) :
    rtpHeaderSerialize fuel header buffer size = (do
      let buffer ← serializeCsrc header
        (UInt8.ofNat (2 <<< 6) :: (fixedBytes header ++ (cleared header buffer).drop 12))
      let buffer ← serializeExt fuel header buffer
      .ok (castInt (rtpHeaderSize header), buffer)) := by
  have htwelve := twelve_le_size header
  have hlen := length_cleared hbuffer
  have hfixed : blit (cleared header buffer) 0 ([UInt8.ofNat (2 <<< 6)] ++ [typeByte header]
        ++ bytes 2 header.seq.toNat ++ bytes 4 header.ts.toNat ++ bytes 4 header.ssrc.toNat)
      = .ok (UInt8.ofNat (2 <<< 6) :: (fixedBytes header ++ (cleared header buffer).drop 12)) := by
    rw [blit_of_le (by simp; omega), put_zero]
    simp [fixedBytes]
  rw [rtpHeaderSerialize, if_neg (by omega),
    bind_of_ok (blit_of_le (by rw [List.length_replicate]; omega)), put_zero,
    List.length_replicate, ← cleared]
  simp only [store_eq_blit, writeU16_eq, writeU32_eq]
  rw [blit_bind_blit _ _ _ _ (by rfl), blit_bind_blit _ _ _ _ (by simp),
    blit_bind_blit _ _ _ _ (by simp), blit_bind_blit _ _ _ _ (by simp), bind_of_ok hfixed]

/-- With at most 255 extension words the header's bytes go to the front of the buffer. -/
theorem rtpHeaderSerialize_ok (h : Holds header c)
    (hext : ∀ id ws, c.ext = some (id, ws) → ws.length ≤ 255) (buffer : List UInt8)
    {size : Nat} (hsize : c.size ≤ size) (hbuffer : c.size ≤ buffer.length) :
    rtpHeaderSerialize 256 header buffer size
      = .ok (castInt c.size, encode c ++ buffer.drop c.size) := by
  have hcsize : c.size = 12 + 4 * c.csrc.length + (extBytes c.ext).length := rfl
  have hlen := length_cleared (h.size_eq.symm ▸ hbuffer)
  have hcsrc := serializeCsrc_ok h (b := UInt8.ofNat (2 <<< 6)) ((cleared header buffer).drop 12)
    (length_fixedTail c) (by rw [List.length_drop]; omega)
  have htail : (fixedTail c ++ words c.csrc).length = 11 + 4 * c.csrc.length := by simp
  have hext' := serializeExt_ok h hext
    (b := UInt8.ofNat (2 <<< 6) ||| UInt8.ofNat (c.csrc.length &&& 0x7))
    (((cleared header buffer).drop 12).drop (4 * c.csrc.length)) htail
    (by simp only [List.length_drop]; omega)
  have hrest : (((cleared header buffer).drop 12).drop (4 * c.csrc.length)).drop
      (extBytes c.ext).length = buffer.drop c.size := by
    rw [List.drop_drop, List.drop_drop, ← Nat.add_assoc, ← hcsize, cleared, h.size_eq]
    exact List.drop_left' List.length_replicate
  rw [rtpHeaderSerialize_eq _ (h.size_eq.symm ▸ hsize) (h.size_eq.symm ▸ hbuffer),
    h.fixedBytes_eq, bind_of_ok hcsrc, bind_of_ok hext', flagByte_eq h.csrc_le, hrest, h.size_eq]
  rfl

/-- From 256 words on it does not return. -/
theorem rtpHeaderSerialize_diverges (h : Holds header c) {id : UInt16} {ws : List UInt32}
    (he : c.ext = some (id, ws)) (hlen : 256 ≤ ws.length) (fuel : Nat) {size : Nat}
    (hsize : c.size ≤ size) (r : Int × List UInt8) :
    rtpHeaderSerialize fuel header buffer size ≠ .ok r := by
  obtain ⟨hx, _, hcount, _, hdata⟩ := h.extended id ws he
  have hset : header.extData.isSet = true := by rw [hdata, Ptr.isSet_obj]
  intro hrun
  rw [rtpHeaderSerialize, h.size_eq, if_neg (by omega)] at hrun
  obtain ⟨_, _, hrun⟩ := bind_eq_ok.mp hrun
  obtain ⟨_, _, hrun⟩ := bind_eq_ok.mp hrun
  obtain ⟨_, _, hrun⟩ := bind_eq_ok.mp hrun
  obtain ⟨_, _, hrun⟩ := bind_eq_ok.mp hrun
  obtain ⟨_, _, hrun⟩ := bind_eq_ok.mp hrun
  obtain ⟨_, _, hrun⟩ := bind_eq_ok.mp hrun
  obtain ⟨_, _, hrun⟩ := bind_eq_ok.mp hrun
  obtain ⟨_, hlast, _⟩ := bind_eq_ok.mp hrun
  exact serializeExt_diverges (by rw [hx]; decide) (by omega) hset _ _ _ hlast

/-- More passes write what fewer wrote. -/
theorem rtpHeaderSerialize_below (header : RtpHeader) (buffer : List UInt8) (size : Nat) {n m : Nat}
    (hle : n ≤ m) :
    Below (rtpHeaderSerialize n header buffer size) (rtpHeaderSerialize m header buffer size) := by
  have hext (b : List UInt8) : Below (serializeExt n header b) (serializeExt m header b) := by
    refine Below.ite (Below.bind (Below.refl _) fun b0 => ?_) (Below.refl _)
    refine Below.bind (Below.refl _) fun b => Below.bind (Below.refl _) fun b => ?_
    exact Below.bind (Below.refl _) fun b => below_loopFuel _ hle _
  refine Below.ite (Below.refl _) (Below.bind (Below.refl _) fun b => ?_)
  refine Below.bind (Below.refl _) fun b => Below.bind (Below.refl _) fun b => ?_
  refine Below.bind (Below.refl _) fun b => Below.bind (Below.refl _) fun b => ?_
  refine Below.bind (Below.refl _) fun b => Below.bind (Below.refl _) fun b => ?_
  exact Below.bind (hext b) fun b => Below.refl _

/-! ## Parsing -/

/-- The header after its fixed part has been read. -/
def fixedHeader (b0 b1 : UInt8) (seq : UInt16) (ts ssrc : UInt32) : RtpHeader :=
  { rtpHeaderCreate with
    version := BitVec.ofNat 2 ((b0 >>> 6) &&& 0x3).toNat
    pt := BitVec.ofNat 7 (b1 &&& 0x7f).toNat
    x := BitVec.ofNat 1 ((b0 >>> 4) &&& 0x1).toNat
    cc := BitVec.ofNat 4 (b0 &&& 0x7).toNat
    m := BitVec.ofNat 1 ((b1 >>> 7) &&& 0x1).toNat
    seq := seq
    ts := ts
    ssrc := ssrc }

/-- The lists behind the fixed part. -/
def parseLists (header : RtpHeader) (buffer : List UInt8) : Exec (Int × RtpHeader) := do
  let header ← parseCsrc header buffer
  let header ← parseExt header buffer
  .ok (RTP_OK, header)

/-- The two checks the parser makes on the first two bytes. -/
def Announced (b0 b1 : UInt8) : Prop :=
  b0.toNat / 64 = 2 ∧ ¬ (71 < b1.toNat % 128 ∧ b1.toNat % 128 < 96)

theorem version_eq (b0 : UInt8) :
    BitVec.ofNat 2 ((b0 >>> 6) &&& 0x3).toNat = 2 ↔ b0.toNat / 64 = 2 := by
  have hb := b0.toNat_lt
  have h : ((b0 >>> 6) &&& 0x3).toNat = b0.toNat / 64 := by
    rw [UInt8.toNat_and, UInt8.toNat_shiftRight, Nat.shiftRight_eq_div_pow]
    change b0.toNat / 64 &&& (2 ^ 2 - 1) = _
    rw [and_mask]
    omega
  rw [h, ← BitVec.toNat_inj, BitVec.toNat_ofNat, Nat.mod_eq_of_lt (by omega)]
  rfl

theorem toNat_pt (b1 : UInt8) :
    (BitVec.ofNat 7 (b1 &&& 0x7f).toNat).toNat = b1.toNat % 128 := by
  rw [UInt8.toNat_and, BitVec.toNat_ofNat]
  change (b1.toNat &&& (2 ^ 7 - 1)) % 2 ^ 7 = b1.toNat % 2 ^ 7
  rw [and_mask, Nat.mod_mod]

/-- The parser on a buffer that has its fixed part. -/
theorem rtpHeaderParse_fixed {b0 b1 : UInt8} {seq : UInt16} {ts ssrc : UInt32}
    {rest : List UInt8}
    (hbuffer : buffer = b0 :: b1 :: (bytes 2 seq.toNat ++ (bytes 4 ts.toNat ++
      (bytes 4 ssrc.toNat ++ rest)))) {size : Nat} (hsize : 12 ≤ size) :
    (Announced b0 b1 → rtpHeaderParse rtpHeaderCreate buffer size
      = parseLists (fixedHeader b0 b1 seq ts ssrc) buffer) ∧
    (¬ Announced b0 b1 → ∃ header,
      rtpHeaderParse rtpHeaderCreate buffer size = .ok (RTP_ERROR, header)) := by
  have h0 : load buffer 0 = .ok b0 := by rw [hbuffer]; rfl
  have h1 : load buffer 1 = .ok b1 := by rw [hbuffer]; rfl
  have d2 : buffer.drop 2
      = bytes 2 seq.toNat ++ (bytes 4 ts.toNat ++ (bytes 4 ssrc.toNat ++ rest)) := by
    rw [hbuffer]
    rfl
  have d4 := drop_add _ d2
  rw [length_bytes] at d4
  have d8 := drop_add _ d4
  rw [length_bytes] at d8
  unfold rtpHeaderParse
  rw [if_neg (by omega), bind_of_ok h0]
  dsimp only
  by_cases hv : b0.toNat / 64 = 2
  · rw [if_neg (not_not.mpr ((version_eq b0).mpr hv)), bind_of_ok h1, toNat_pt]
    by_cases hpt : b1.toNat % 128 < 96 ∧ b1.toNat % 128 > 71
    · rw [if_pos hpt]
      exact ⟨fun ha => absurd ⟨hpt.2, hpt.1⟩ ha.2, fun _ => ⟨_, rfl⟩⟩
    · rw [if_neg hpt, bind_of_ok (readU16_drop seq d2), bind_of_ok (readU32_drop ts d4),
        bind_of_ok (readU32_drop ssrc d8)]
      refine ⟨fun _ => ?_, fun hn => absurd ⟨hv, fun hp => hpt ⟨hp.2, hp.1⟩⟩ hn⟩
      -- no list has been allocated yet, so the size check sees the fixed part only
      rw [if_neg (by simp [rtpHeaderSize, rtpHeaderCreate]; omega)]
      rfl
  · rw [if_pos (mt (version_eq b0).mp hv)]
    exact ⟨fun ha => absurd ha.1 hv, fun _ => ⟨_, rfl⟩⟩

/-- The list is read wherever the count is not zero. -/
theorem parseCsrc_returns {header' : RtpHeader} (hrun : parseCsrc header buffer = .ok header') :
    header'.cc = header.cc ∧ header'.x = header.x ∧
      (header.cc ≠ 0 → header'.csrc.isSet = true) := by
  unfold parseCsrc at hrun
  by_cases hcc : header.cc ≠ 0
  · rw [if_pos hcc] at hrun
    obtain ⟨csrc, -, hrun⟩ := bind_eq_ok.mp hrun
    cases hrun
    exact ⟨rfl, rfl, fun _ => rfl⟩
  · rw [if_neg hcc] at hrun
    cases hrun
    exact ⟨rfl, rfl, fun h => absurd h hcc⟩

theorem parseExt_cc {header' : RtpHeader} (h : parseExt header buffer = .ok header') :
    header'.cc = header.cc := by
  unfold parseExt at h
  split at h
  · obtain ⟨_, _, h⟩ := bind_eq_ok.mp h
    obtain ⟨_, _, h⟩ := bind_eq_ok.mp h
    obtain ⟨_, _, h⟩ := bind_eq_ok.mp h
    cases h
    rfl
  · cases h
    rfl

theorem toNat_maskedCc (b0 : UInt8) : (BitVec.ofNat 4 (b0 &&& 0x7).toNat).toNat = b0.toNat % 8 := by
  rw [UInt8.toNat_and, BitVec.toNat_ofNat]
  change (b0.toNat &&& (2 ^ 3 - 1)) % 2 ^ 4 = _
  rw [and_mask]
  omega

/-- No parsed header has more than seven contributing sources. -/
theorem rtpHeaderParse_cc_le {size : Nat} {r : Int} {header : RtpHeader}
    (h : rtpHeaderParse rtpHeaderCreate buffer size = .ok (r, header)) : header.cc.toNat ≤ 7 := by
  have hzero : rtpHeaderCreate.cc.toNat = 0 := rfl
  unfold rtpHeaderParse at h
  split at h
  · cases h
    exact Nat.zero_le 7
  · obtain ⟨b0, _, h⟩ := bind_eq_ok.mp h
    have hcc : (BitVec.ofNat 4 (b0 &&& 0x7).toNat).toNat ≤ 7 := by
      rw [toNat_maskedCc]
      omega
    dsimp only at h
    split at h
    · cases h
      exact Nat.zero_le 7
    · obtain ⟨b1, _, h⟩ := bind_eq_ok.mp h
      split at h
      · cases h
        exact Nat.zero_le 7
      · obtain ⟨_, _, h⟩ := bind_eq_ok.mp h
        obtain ⟨_, _, h⟩ := bind_eq_ok.mp h
        obtain ⟨_, _, h⟩ := bind_eq_ok.mp h
        split at h
        · cases h
          exact hcc
        · obtain ⟨h₁, hcsrc, h⟩ := bind_eq_ok.mp h
          obtain ⟨h₂, hext, h⟩ := bind_eq_ok.mp h
          cases h
          rw [parseExt_cc hext, (parseCsrc_returns hcsrc).1]
          exact hcc

/-! ## Parsing what was serialized -/

theorem flagByte_toNat (hc : c.csrc.length ≤ 7) :
    (flagByte c).toNat = 128 + (if c.ext.isSome then 16 else 0) + c.csrc.length := by
  rw [flagByte, UInt8.toNat_ofNat']
  split <;> omega

theorem bit_toNat (a : UInt8) (k : UInt8) (hk : k.toNat < 8) :
    ((a >>> k) &&& 0x1).toNat = a.toNat / 2 ^ k.toNat % 2 := by
  rw [UInt8.toNat_and, UInt8.toNat_shiftRight, Nat.mod_eq_of_lt hk, Nat.shiftRight_eq_div_pow]
  exact and_mask _ 1

/-- A header before its lists are read. -/
def plainHeader (c : Content) : RtpHeader :=
  { rtpHeaderCreate with
    version := 2
    pt := c.pt
    x := if c.ext.isSome then 1 else 0
    cc := BitVec.ofNat 4 c.csrc.length
    m := c.m
    seq := c.seq
    ts := c.ts
    ssrc := c.ssrc }

/-- The fixed part of a serialized header read back. -/
theorem fixedHeader_encode (hc : c.csrc.length ≤ 7) :
    fixedHeader (flagByte c) (UInt8.ofNat (c.m.toNat * 128 + c.pt.toNat)) c.seq c.ts c.ssrc
      = plainHeader c := by
  have hflag := flagByte_toNat hc
  have hpt := c.pt.isLt
  have hm := c.m.isLt
  have htype :
      (UInt8.ofNat (c.m.toNat * 128 + c.pt.toNat)).toNat = c.m.toNat * 128 + c.pt.toNat := by
    rw [UInt8.toNat_ofNat']
    omega
  have hversion : BitVec.ofNat 2 ((flagByte c >>> 6) &&& 0x3).toNat = 2 := by
    rw [version_eq, hflag]
    split <;> omega
  have hpt' :
      BitVec.ofNat 7 (UInt8.ofNat (c.m.toNat * 128 + c.pt.toNat) &&& 0x7f).toNat = c.pt := by
    rw [← BitVec.toNat_inj, toNat_pt, htype]
    omega
  have hx : BitVec.ofNat 1 ((flagByte c >>> 4) &&& 0x1).toNat = if c.ext.isSome then 1 else 0 := by
    rw [bit_toNat _ _ (by decide), hflag, ← BitVec.toNat_inj, BitVec.toNat_ofNat]
    change (128 + (if c.ext.isSome then 16 else 0) + c.csrc.length) / 16 % 2 % 2 = _
    cases c.ext.isSome with
    | true => exact (by omega : (128 + 16 + c.csrc.length) / 16 % 2 % 2 = 1)
    | false => exact (by omega : (128 + 0 + c.csrc.length) / 16 % 2 % 2 = 0)
  have hcc : BitVec.ofNat 4 (flagByte c &&& 0x7).toNat = BitVec.ofNat 4 c.csrc.length := by
    rw [← BitVec.toNat_inj, toNat_maskedCc, hflag, BitVec.toNat_ofNat]
    split <;> omega
  have hm' : BitVec.ofNat 1 ((UInt8.ofNat (c.m.toNat * 128 + c.pt.toNat) >>> 7) &&& 0x1).toNat
      = c.m := by
    rw [bit_toNat _ _ (by decide), htype, ← BitVec.toNat_inj, BitVec.toNat_ofNat]
    change (c.m.toNat * 128 + c.pt.toNat) / 128 % 2 % 2 = _
    omega
  rw [fixedHeader, plainHeader, hversion, hpt', hx, hcc, hm']

theorem drop_encode (c : Content) (rest : List UInt8) :
    (encode c ++ rest).drop 12 = words c.csrc ++ (extBytes c.ext ++ rest) := by
  rw [encode, List.append_assoc, List.append_assoc]
  exact List.drop_left' (by simp)

theorem parseCsrc_encode (rest : List UInt8) (hcc : header.cc.toNat = c.csrc.length)
    (hnull : header.csrc = .null) :
    ∃ p, parseCsrc header (encode c ++ rest) = .ok { header with csrc := p } ∧
      (c.csrc ≠ [] → p = .obj c.csrc) := by
  unfold parseCsrc
  by_cases hc : c.csrc = []
  · have hzero : header.cc = 0 := by
      rw [← BitVec.toNat_inj, hcc, hc]
      rfl
    exact ⟨.null, by rw [if_neg (not_not.mpr hzero), ← hnull], fun hne => absurd hc hne⟩
  · have hne : header.cc ≠ 0 := by
      intro hzero
      rw [hzero] at hcc
      exact hc (List.length_eq_zero_iff.mp hcc.symm)
    have hread := readWords_drop c.csrc (drop_encode c rest)
    exact ⟨.obj c.csrc, by rw [if_pos hne, hcc, bind_of_ok hread], fun _ => rfl⟩

theorem parseExt_encode (rest : List UInt8) (hcc : header.cc.toNat = c.csrc.length)
    (hx : header.x = if c.ext.isSome then 1 else 0)
    (hlen : ∀ id ws, c.ext = some (id, ws) → ws.length < 65536) :
    ∃ id count p, parseExt header (encode c ++ rest)
        = .ok { header with extId := id, extCount := count, extData := p } ∧
      ∀ id' ws, c.ext = some (id', ws) → id = id' ∧ count.toNat = ws.length ∧ p = .obj ws := by
  unfold parseExt
  cases he : c.ext with
  | none =>
    rw [he] at hx
    refine ⟨header.extId, header.extCount, header.extData, ?_, fun _ _ hsome => nomatch hsome⟩
    rw [if_neg (by rw [hx]; decide)]
  | some e =>
    obtain ⟨id, ws⟩ := e
    rw [he] at hx
    have hcount : (UInt16.ofNat ws.length).toNat = ws.length := by
      rw [UInt16.toNat_ofNat']
      exact Nat.mod_eq_of_lt (hlen id ws he)
    have d0 := drop_add _ (drop_encode c rest)
    rw [length_words, he, extBytes, List.append_assoc, List.append_assoc] at d0
    have d1 := drop_add _ d0
    rw [length_bytes, ← hcount] at d1
    have d2 := drop_add _ d1
    rw [length_bytes] at d2
    refine ⟨id, UInt16.ofNat ws.length, .obj ws, ?_, ?_⟩
    · rw [if_pos (by rw [hx, Option.isSome_some, if_pos rfl]; decide)]
      dsimp only
      rw [hcc, bind_of_ok (readU16_drop id d0), bind_of_ok (readU16_drop _ d1), hcount,
        bind_of_ok (readWords_drop ws d2)]
    · intro id' ws' hsome
      cases hsome
      exact ⟨rfl, hcount, rfl⟩

/-- A serialized header with at most seven contributing sources is read back. -/
theorem rtpHeaderParse_encode (h : Holds header c)
    (hpt : ¬ (71 < c.pt.toNat ∧ c.pt.toNat < 96)) (hc : c.csrc.length ≤ 7) (rest : List UInt8)
    (size : Nat) (hsize : 12 ≤ size) :
    ∃ header', rtpHeaderParse rtpHeaderCreate (encode c ++ rest) size = .ok (RTP_OK, header') ∧
      Holds header' c := by
  have hflag := flagByte_toNat hc
  have hptlt := c.pt.isLt
  have hm := c.m.isLt
  have hbuffer : encode c ++ rest = flagByte c :: UInt8.ofNat (c.m.toNat * 128 + c.pt.toNat) ::
      (bytes 2 c.seq.toNat ++ (bytes 4 c.ts.toNat ++ (bytes 4 c.ssrc.toNat ++
        (words c.csrc ++ (extBytes c.ext ++ rest))))) := by simp [encode, fixedTail]
  have hannounced : Announced (flagByte c) (UInt8.ofNat (c.m.toNat * 128 + c.pt.toNat)) := by
    constructor
    · rw [hflag]
      split <;> omega
    · rw [UInt8.toNat_ofNat']
      omega
  have hcc : (BitVec.ofNat 4 c.csrc.length).toNat = c.csrc.length := by
    rw [BitVec.toNat_ofNat]
    exact Nat.mod_eq_of_lt (by omega)
  have hlen : ∀ id ws, c.ext = some (id, ws) → ws.length < 65536 := by
    intro id ws he
    have hcount := (h.extended id ws he).2.2.1
    have := header.extCount.toNat_lt
    omega
  obtain ⟨p, hcsrc, hp⟩ :=
    parseCsrc_encode (c := c) rest hcc (rfl : (plainHeader c).csrc = .null)
  obtain ⟨id, count, q, hext, hq⟩ :=
    parseExt_encode (c := c) rest hcc (rfl : { plainHeader c with csrc := p }.x = _) hlen
  refine ⟨{ plainHeader c with csrc := p, extId := id, extCount := count, extData := q }, ?_, ?_⟩
  · rw [(rtpHeaderParse_fixed hbuffer hsize).1 hannounced, fixedHeader_encode hc, parseLists,
      bind_of_ok hcsrc, bind_of_ok hext]
  · constructor
    · rfl
    · rfl
    · rfl
    · rfl
    · rfl
    · rfl
    · rfl
    · exact hcc
    · exact hp
    · intro he
      change (if c.ext.isSome then (1 : BitVec 1) else 0) = 0
      rw [he]
      rfl
    · intro id' ws he
      obtain ⟨hid, hcount, hdata⟩ := hq id' ws he
      refine ⟨?_, hid, hcount, (h.extended id' ws he).2.2.2.1, hdata⟩
      change (if c.ext.isSome then (1 : BitVec 1) else 0) = 1
      rw [he]
      rfl

end RtpSdr.Rtp.Header
