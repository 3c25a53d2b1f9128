import RtpSdr.Rtp.HeaderBoundary
import RtpSdr.Rtp.PacketOutput

/-!
# RTP packets that come back as they were

A datagram that is parsed and serialized again. Every accepted datagram has its parts where the
format says, and the packet that is read holds them all except the padding flag, the highest bit of
the count and an extension without words.
-/
namespace RtpSdr.Rtp.Relay

open RtpSdr.Lib.Checked
open RtpSdr.Lib.Memory
open RtpSdr.Lib.BigEndian
open RtpSdr.Lib.Output
open RtpSdr.Rtp.Util
open RtpSdr.Rtp.EntryList
open RtpSdr.Rtp.Header
open RtpSdr.Rtp.HeaderAccept
open RtpSdr.Rtp.HeaderBoundary
open RtpSdr.Rtp.Packet
open RtpSdr.Rtp.PacketOutput

/-- The packet that is read from the datagram is written as the same datagram. -/
def Relays (buffer : List UInt8) : Prop :=
  ∃ packet, rtpPacketParse rtpPacketCreate buffer buffer.length = .ok (RTP_OK, packet) ∧
    Writes (fun out r => ∃ fuel, rtpPacketSerialize fuel packet out out.length = .ok r) buffer

/-! ## The parts of a datagram -/

/-- What lies in an accepted datagram, in the order of the format. -/
structure Wire where
  b0 : UInt8
  b1 : UInt8
  seq : UInt16
  ts : UInt32
  ssrc : UInt32
  csrc : List UInt32
  ext : Option (UInt16 × List UInt32)
  payload : List UInt8

namespace Wire

def tail (w : Wire) : List UInt8 :=
  bytes 2 w.seq.toNat ++ (bytes 4 w.ts.toNat ++ (bytes 4 w.ssrc.toNat ++
    (words w.csrc ++ (extBytes w.ext ++ w.payload))))

def bytes (w : Wire) : List UInt8 := w.b0 :: w.b1 :: w.tail

def extWords (w : Wire) : List UInt32 := (w.ext.map (·.2)).getD []

/-- The first two bytes announce what follows. -/
structure Fits (w : Wire) : Prop where
  announced : Announced w.b0 w.b1
  csrc : w.csrc.length = w.b0.toNat % 8
  ext : w.ext.isSome = true ↔ w.b0.toNat / 16 % 2 = 1
  words : w.extWords.length < 65536

end Wire

variable {w : Wire} {header : RtpHeader} {buffer : List UInt8}

/-- An extension that lies in the buffer as a whole. -/
theorem exists_ext (rest : List UInt8) (h : 4 ≤ rest.length)
    (hwords : 4 + 4 * value ((rest.drop 2).take 2) ≤ rest.length) :
    ∃ id ws payload, ws.length = value ((rest.drop 2).take 2) ∧
      rest = extBytes (some (id, ws)) ++ payload := by
  obtain ⟨id, hid, hrest⟩ := exists_bytes (k := 2) rest (by omega)
  obtain ⟨n, hn, hrest'⟩ := exists_bytes (k := 2) (rest.drop 2) (by rw [List.length_drop]; omega)
  have hcount : value ((rest.drop 2).take 2) = n := by
    rw [hrest', List.take_left' (length_bytes 2 n), value_bytes hn]
  rw [hcount] at hwords ⊢
  obtain ⟨ws, hlen, hws⟩ := exists_words ((rest.drop 2).drop 2) n (by
    rw [List.drop_drop, List.length_drop]
    omega)
  have hval : (UInt16.ofNat id).toNat = id := by
    rw [UInt16.toNat_ofNat']
    exact Nat.mod_eq_of_lt hid
  refine ⟨UInt16.ofNat id, ws, ((rest.drop 2).drop 2).drop (4 * n), hlen, ?_⟩
  rw [extBytes, hval, hlen, List.append_assoc, List.append_assoc, ← hws, ← hrest', ← hrest]

theorem accepted_wire (h : Accepted buffer) : ∃ w : Wire, w.Fits ∧ buffer = w.bytes := by
  obtain ⟨hfixed, hneeded⟩ := h
  obtain ⟨b0, b1, seq, ts, ssrc, rest, hbuffer⟩ := exists_fixed hfixed.1
  have hb0 : byteAt buffer 0 = b0.toNat := by
    rw [hbuffer]
    rfl
  have hb1 : byteAt buffer 1 = b1.toNat := by
    rw [hbuffer]
    rfl
  have hdrop : buffer.drop 12 = rest := by
    rw [hbuffer]
    rfl
  have hlength : buffer.length = 12 + rest.length := by
    rw [← hdrop, List.length_drop]
    have := hfixed.1
    omega
  have hannounced : Announced b0 b1 := by
    have h := hfixed.2
    rwa [hb0, hb1] at h
  rw [hb0, needed, hb0, hlength] at hneeded
  obtain ⟨csrc, hcsrc, hrest⟩ := exists_words rest (b0.toNat % 8) (by omega)
  by_cases hx : b0.toNat / 16 % 2 = 1
  · have hcount : extWords buffer (b0.toNat % 8) =
        value (((rest.drop (4 * (b0.toNat % 8))).drop 2).take 2) := by
      rw [extWords, Nat.add_assoc, ← List.drop_drop, hdrop, List.drop_drop]
    rw [if_pos hx, hcount] at hneeded
    obtain ⟨id, ws, payload, hws, hext⟩ := exists_ext (rest.drop (4 * (b0.toNat % 8)))
      (by rw [List.length_drop]; omega) (by rw [List.length_drop]; omega)
    have hlt := value_lt (((rest.drop (4 * (b0.toNat % 8))).drop 2).take 2)
    have htwo := List.length_take_le 2 ((rest.drop (4 * (b0.toNat % 8))).drop 2)
    have hbound := Nat.pow_le_pow_right (show 0 < 256 by decide) htwo
    refine ⟨⟨b0, b1, seq, ts, ssrc, csrc, some (id, ws), payload⟩, ?_, ?_⟩
    · exact ⟨hannounced, hcsrc, iff_of_true rfl hx, by
        change ws.length < 65536
        omega⟩
    · rw [hbuffer, Wire.bytes, Wire.tail, hrest, hext]
  · generalize rest.drop (4 * (b0.toNat % 8)) = payload at hrest
    refine ⟨⟨b0, b1, seq, ts, ssrc, csrc, none, payload⟩, ?_, ?_⟩
    · exact ⟨hannounced, hcsrc, iff_of_false Bool.false_ne_true hx, Nat.zero_lt_succ _⟩
    · rw [hbuffer, hrest]
      rfl

/-! ## What is read -/

/-- The header holds what the datagram says. -/
structure Reads (header : RtpHeader) (w : Wire) : Prop where
  m : header.m.toNat = w.b1.toNat / 128
  pt : header.pt.toNat = w.b1.toNat % 128
  seq : header.seq = w.seq
  ts : header.ts = w.ts
  ssrc : header.ssrc = w.ssrc
  csrc : Held header.cc header.csrc w.csrc
  x : header.x ≠ 0 ↔ w.ext.isSome = true
  ext : ∀ id ws, w.ext = some (id, ws) →
    header.extId = id ∧ header.extCount.toNat = ws.length ∧ header.extData = .obj ws

theorem parseCsrc_wire (hdrop : buffer.drop 12 = words w.csrc ++ (extBytes w.ext ++ w.payload))
    (hcc : header.cc.toNat = w.csrc.length) :
    ∃ p, parseCsrc header buffer = .ok { header with csrc := p } ∧ Held header.cc p w.csrc := by
  rw [parseCsrc]
  by_cases hzero : header.cc = 0
  · rw [if_neg (not_not_intro hzero)]
    have hnil : w.csrc = [] := by
      apply List.eq_nil_of_length_eq_zero
      rw [← hcc, hzero]
      rfl
    exact ⟨header.csrc, rfl, by rw [hnil, hzero]; exact held_nil _⟩
  · rw [if_pos hzero, hcc, bind_of_ok (readWords_drop w.csrc hdrop)]
    exact ⟨.obj w.csrc, rfl, held_obj hcc⟩

theorem parseExt_wire (header : RtpHeader) (hw : w.Fits)
    (hdrop : buffer.drop 12 = words w.csrc ++ (extBytes w.ext ++ w.payload))
    (hcc : header.cc.toNat = w.csrc.length) (hx : header.x ≠ 0 ↔ w.ext.isSome = true) :
    ∃ id count p, parseExt header buffer
        = .ok { header with extId := id, extCount := count, extData := p } ∧
      ∀ id' ws, w.ext = some (id', ws) → id = id' ∧ count.toNat = ws.length ∧ p = .obj ws := by
  rw [parseExt]
  have hwords := hw.words
  cases hext : w.ext with
  | none =>
    rw [hext] at hx
    rw [if_neg (fun h => Bool.false_ne_true (hx.mp h))]
    refine ⟨header.extId, header.extCount, header.extData, rfl, ?_⟩
    intro id' ws' h
    cases h
  | some e =>
    obtain ⟨id, ws⟩ := e
    rw [hext] at hx
    rw [Wire.extWords, hext] at hwords
    change ws.length < 65536 at hwords
    have hcount : (UInt16.ofNat ws.length).toNat = ws.length := by
      rw [UInt16.toNat_ofNat']
      exact Nat.mod_eq_of_lt hwords
    have d0 := drop_add _ hdrop
    rw [length_words, hext, extBytes, List.append_assoc, List.append_assoc] at d0
    have d1 := drop_add _ d0
    rw [length_bytes, ← hcount] at d1
    have d2 := drop_add _ d1
    rw [length_bytes] at d2
    refine ⟨id, UInt16.ofNat ws.length, .obj ws, ?_, ?_⟩
    · rw [if_pos (hx.mpr rfl)]
      dsimp only
      rw [hcc, bind_of_ok (readU16_drop id d0), bind_of_ok (readU16_drop _ d1), hcount,
        bind_of_ok (readWords_drop ws d2)]
    · intro id' ws' h
      cases h
      exact ⟨rfl, hcount, rfl⟩

theorem rtpHeaderParse_wire (hw : w.Fits) :
    ∃ header, rtpHeaderParse rtpHeaderCreate w.bytes w.bytes.length = .ok (RTP_OK, header) ∧
      Reads header w := by
  have hsize : 12 ≤ w.bytes.length := by
    rw [Wire.bytes, Wire.tail]
    simp
    omega
  have hdrop : w.bytes.drop 12 = words w.csrc ++ (extBytes w.ext ++ w.payload) := rfl
  have hparse := (rtpHeaderParse_fixed (rfl : w.bytes = _) hsize).1 hw.announced
  have hcc : (fixedHeader w.b0 w.b1 w.seq w.ts w.ssrc).cc.toNat = w.csrc.length :=
    (cc_fixedHeader ..).trans hw.csrc.symm
  have hx : (fixedHeader w.b0 w.b1 w.seq w.ts w.ssrc).x ≠ 0 ↔ w.ext.isSome = true :=
    (x_fixedHeader ..).trans hw.ext.symm
  have hb1 := w.b1.toNat_lt
  obtain ⟨p, hcsrc, hheld⟩ := parseCsrc_wire hdrop hcc
  obtain ⟨id, count, q, hext, hread⟩ := parseExt_wire
    { fixedHeader w.b0 w.b1 w.seq w.ts w.ssrc with csrc := p } hw hdrop hcc hx
  refine ⟨_, by rw [hparse, parseLists, bind_of_ok hcsrc, bind_of_ok hext], ?_⟩
  constructor
  · change (BitVec.ofNat 1 ((w.b1 >>> 7) &&& 0x1).toNat).toNat = _
    rw [bit_toNat _ _ (by decide), BitVec.toNat_ofNat]
    change w.b1.toNat / 128 % 2 % 2 = _
    omega
  · exact toNat_pt w.b1
  · rfl
  · rfl
  · rfl
  · exact hheld
  · exact hx
  · exact hread

/-! ## What is written -/

/-- The extension that is written: one without words is not. -/
def keptExt (w : Wire) : Option (UInt16 × List UInt32) := w.ext.filter fun e => e.2 ≠ []

theorem Reads.extOf_eq (h : Reads header w) : extOf header w.extWords = keptExt w := by
  rw [extOf, keptExt, Wire.extWords]
  cases hext : w.ext with
  | none =>
    have hx := h.x
    rw [hext] at hx
    rw [if_neg (fun hh => Bool.false_ne_true (hx.mp hh.1))]
    rfl
  | some e =>
    obtain ⟨id, ws⟩ := e
    obtain ⟨hid, hcount, hdata⟩ := h.ext id ws hext
    have hx := h.x
    rw [hext] at hx
    by_cases hws : ws = []
    · have hzero : header.extCount = 0 := by
        rw [← UInt16.toNat_inj, hcount, hws]
        rfl
      rw [if_neg (fun hh => hh.2 hzero), Option.filter_some, if_neg (by simp [hws])]
    · have hne : header.extCount ≠ 0 := by
        intro hzero
        rw [hzero] at hcount
        exact hws (List.eq_nil_of_length_eq_zero hcount.symm)
      rw [if_pos ⟨hx.mpr rfl, hne⟩, Option.filter_some, if_pos (by simp [hws]), hid]
      rfl

/-- What is written for a datagram. -/
def kept (w : Wire) : Content where
  m := BitVec.ofNat 1 (w.b1.toNat / 128)
  pt := BitVec.ofNat 7 (w.b1.toNat % 128)
  seq := w.seq
  ts := w.ts
  ssrc := w.ssrc
  csrc := w.csrc
  ext := keptExt w

theorem Reads.content_eq (h : Reads header w) :
    contentOf header w.csrc w.extWords = kept w := by
  have hm : header.m = BitVec.ofNat 1 (w.b1.toNat / 128) := by
    rw [← h.m, BitVec.ofNat_toNat, BitVec.setWidth_eq]
  have hpt : header.pt = BitVec.ofNat 7 (w.b1.toNat % 128) := by
    rw [← h.pt, BitVec.ofNat_toNat, BitVec.setWidth_eq]
  rw [contentOf, kept, h.extOf_eq, hm, hpt, h.seq, h.ts, h.ssrc]

theorem Reads.holds (h : Reads header w) : Holds (normal header) (kept w) := by
  rw [← h.content_eq]
  refine holds_normal h.csrc fun hx => ?_
  obtain ⟨⟨id, ws⟩, hext⟩ := Option.isSome_iff_exists.mp (h.x.mp hx)
  obtain ⟨-, hcount, hdata⟩ := h.ext id ws hext
  rw [Wire.extWords, hext]
  exact ⟨hcount, fun _ => hdata⟩

theorem fixedTail_kept (w : Wire) : fixedTail (kept w) =
    w.b1 :: (bytes 2 w.seq.toNat ++ bytes 4 w.ts.toNat ++ bytes 4 w.ssrc.toNat) := by
  have hb1 := w.b1.toNat_lt
  have htype : UInt8.ofNat ((kept w).m.toNat * 128 + (kept w).pt.toNat) = w.b1 := by
    rw [← UInt8.toNat_inj, UInt8.toNat_ofNat', kept, BitVec.toNat_ofNat, BitVec.toNat_ofNat]
    omega
  rw [fixedTail, htype]
  rfl

/-- The first byte as it is written is the first byte as it was read. -/
theorem flagByte_kept_iff (hw : w.Fits) :
    flagByte (kept w) = w.b0 ↔ w.b0.toNat / 32 % 2 = 0 ∧ w.b0.toNat / 8 % 2 = 0 ∧
      (w.b0.toNat / 16 % 2 = 1 → w.extWords ≠ []) := by
  have hversion := hw.announced.1
  have hb0 := w.b0.toNat_lt
  have hlen : (kept w).csrc.length = w.b0.toNat % 8 := hw.csrc
  have hsome : (kept w).ext.isSome = true ↔ w.b0.toNat / 16 % 2 = 1 ∧ w.extWords ≠ [] := by
    rw [← hw.ext, kept, keptExt, Wire.extWords]
    cases w.ext with
    | none => simp
    | some e => simp
  rw [← UInt8.toNat_inj, flagByte_toNat (by omega), hlen]
  by_cases hext : (kept w).ext.isSome = true
  · obtain ⟨hx, hne⟩ := hsome.mp hext
    rw [if_pos hext]
    constructor
    · intro heq
      exact ⟨by omega, by omega, fun _ => hne⟩
    · rintro ⟨hp, hcc, -⟩
      omega
  · rw [if_neg hext]
    have hnot := mt hsome.mpr hext
    constructor
    · intro heq
      exact ⟨by omega, by omega, fun hx => absurd hx (by omega)⟩
    · rintro ⟨hp, hcc, hne⟩
      have hx : ¬ w.b0.toNat / 16 % 2 = 1 := fun hx => hnot ⟨hx, hne hx⟩
      omega

theorem keptExt_eq (hw : w.Fits) (hne : w.b0.toNat / 16 % 2 = 1 → w.extWords ≠ []) :
    keptExt w = w.ext := by
  rw [← hw.ext, Wire.extWords] at hne
  rw [keptExt]
  cases hext : w.ext with
  | none => rfl
  | some e =>
    rw [hext] at hne
    have hsome : e.2 ≠ [] := hne rfl
    rw [Option.filter_some, if_pos (decide_eq_true hsome)]

theorem size_kept_le (w : Wire) : (kept w).size ≤ w.bytes.length := by
  have hle : (extBytes (keptExt w)).length ≤ (extBytes w.ext).length := by
    rw [keptExt]
    cases hext : w.ext with
    | none => exact Nat.le_refl _
    | some e =>
      rw [Option.filter_some]
      split
      · exact Nat.le_refl _
      · exact Nat.zero_le _
  rw [Content.size, Wire.bytes, Wire.tail]
  simp only [List.length_cons, List.length_append, length_bytes, length_words]
  change 12 + 4 * w.csrc.length + (extBytes (keptExt w)).length ≤ _
  omega

/-- Behind the first byte a datagram whose extension is kept is written as it was. -/
theorem encode_kept_iff (hw : w.Fits) :
    encode (kept w) ++ w.bytes.drop (kept w).size = w.bytes ↔ flagByte (kept w) = w.b0 := by
  constructor
  · intro heq
    exact (List.cons.inj heq).1
  · intro heq
    have hext := keptExt_eq hw ((flagByte_kept_iff hw).mp heq).2.2
    have hbytes : w.bytes = encode (kept w) ++ w.payload := by
      rw [encode, heq, fixedTail_kept, show (kept w).ext = keptExt w from rfl, hext]
      simp only [Wire.bytes, Wire.tail, kept, List.cons_append, List.append_assoc]
    have hdrop : w.bytes.drop (kept w).size = w.payload := by
      rw [hbytes]
      exact List.drop_left' (length_encode _)
    rw [hdrop, ← hbytes]

/-! ## Both ways -/

theorem rtpPacketSerialize_mono {n m : Nat} (hle : n ≤ m) (packet : RtpPacket) (out : List UInt8)
    (size : Nat) :
    Below (rtpPacketSerialize n packet out size) (rtpPacketSerialize m packet out size) := by
  have hext (buffer : List UInt8) :
      Below (serializeExt n packet.header buffer) (serializeExt m packet.header buffer) := by
    rw [serializeExt, serializeExt]
    refine Below.ite ?_ (Below.refl _)
    repeat refine Below.bind (Below.refl _) fun _ => ?_
    exact below_loopFuel _ hle _
  have hheader : Below (rtpHeaderSerialize n packet.header out size)
      (rtpHeaderSerialize m packet.header out size) := by
    rw [rtpHeaderSerialize, rtpHeaderSerialize]
    refine Below.ite (Below.refl _) ?_
    iterate 7 refine Below.bind (Below.refl _) fun _ => ?_
    exact Below.bind (hext _) fun _ => Below.refl _
  rw [rtpPacketSerialize, rtpPacketSerialize]
  exact Below.ite (Below.refl _) (Below.bind hheader fun _ => Below.refl _)

/-- What is read from a datagram that fits. -/
theorem rtpPacketParse_wire (hw : w.Fits) (hlen : w.bytes.length < 2 ^ 64) :
    ∃ packet, rtpPacketParse rtpPacketCreate w.bytes w.bytes.length = .ok (RTP_OK, packet) ∧
      Carries (withHeader packet (normal packet.header)) (kept w)
        (w.bytes.drop (kept w).size) := by
  obtain ⟨header, hheader, hreads⟩ := rtpHeaderParse_wire hw
  have hsize : rtpHeaderSize header = (kept w).size := by
    rw [← rtpHeaderSize_normal, hreads.holds.size_eq]
  have hparse := rtpPacketParse_payload hlen hheader (hsize ▸ size_kept_le w)
  refine ⟨_, hparse, hreads.holds, ?_, fun _ => ?_⟩
  · rw [List.length_drop, ← hsize]
    rfl
  · rw [← hsize]
    rfl

theorem keptExt_words_iff (w : Wire) :
    (∀ id ws, keptExt w = some (id, ws) → ws.length ≤ 255) ↔ w.extWords.length ≤ 255 := by
  rw [keptExt, Wire.extWords]
  cases w.ext with
  | none => exact iff_of_true (fun _ _ h => nomatch h) (Nat.zero_le _)
  | some e =>
    obtain ⟨id, ws⟩ := e
    rw [Option.filter_some]
    by_cases hws : ws = []
    · rw [hws]
      exact iff_of_true (fun _ _ h => nomatch h) (Nat.zero_le _)
    · rw [if_pos (decide_eq_true hws)]
      constructor
      · exact fun h => h id ws rfl
      · intro h id' ws' heq
        cases heq
        exact h

theorem relays_wire_iff (hw : w.Fits) (hlen : w.bytes.length < 2 ^ 31) :
    Relays w.bytes ↔ flagByte (kept w) = w.b0 ∧ w.extWords.length ≤ 255 := by
  obtain ⟨packet, hparse, hcarries⟩ := rtpPacketParse_wire hw (by omega)
  have hle := size_kept_le w
  have htotal : (kept w).size + (w.bytes.drop (kept w).size).length = w.bytes.length := by
    rw [List.length_drop]
    omega
  have hfront : (encode (kept w) ++ w.bytes.drop (kept w).size).length = w.bytes.length := by
    rw [List.length_append, length_encode, htotal]
  -- with few enough words the packet is written, whatever its first byte
  have hwrites (hext : ∀ id ws, keptExt w = some (id, ws) → ws.length ≤ 255) :
      Writes (fun out r => ∃ fuel, rtpPacketSerialize fuel packet out out.length = .ok r)
        (encode (kept w) ++ w.bytes.drop (kept w).size) := by
    intro out hroom _
    rw [hfront] at hroom ⊢
    have hrun := rtpPacketSerialize_ok hcarries hext (htotal ▸ hlen) (htotal.symm ▸ hroom)
    rw [rtpPacketSerialize_normal, ← Int.natCast_add, htotal] at hrun
    exact ⟨256, hrun⟩
  constructor
  · rintro ⟨packet', hparse', hwritten⟩
    cases hparse'.symm.trans hparse
    have hext : ∀ id ws, keptExt w = some (id, ws) → ws.length ≤ 255 := by
      intro id ws hsome
      by_contra hlong
      obtain ⟨fuel, hrun⟩ := hwritten w.bytes (Nat.le_refl _) (by omega)
      rw [← rtpPacketSerialize_normal] at hrun
      exact rtpPacketSerialize_diverges hcarries hsome (by omega) fuel (Nat.le_of_eq htotal) _ hrun
    have hdet : ∀ (out : List UInt8) r r',
        (∃ fuel, rtpPacketSerialize fuel packet out out.length = .ok r) →
        (∃ fuel, rtpPacketSerialize fuel packet out out.length = .ok r') → r = r' := by
      rintro out r r' ⟨n, hn⟩ ⟨m, hm⟩
      have hn' := rtpPacketSerialize_mono (Nat.le_max_left n m) packet out out.length r hn
      have hm' := rtpPacketSerialize_mono (Nat.le_max_right n m) packet out out.length r' hm
      exact Except.ok.inj (hn'.symm.trans hm')
    have heq := (hwrites hext).unique hdet hwritten (x := 0) (by omega) (by omega)
    exact ⟨(encode_kept_iff hw).mp heq, (keptExt_words_iff w).mp hext⟩
  · rintro ⟨hflag, hwords⟩
    have hwritten := hwrites ((keptExt_words_iff w).mpr hwords)
    rw [(encode_kept_iff hw).mpr hflag] at hwritten
    exact ⟨packet, hparse, hwritten⟩

theorem extWords_wire (hw : w.Fits) (hx : w.b0.toNat / 16 % 2 = 1) :
    extWords w.bytes (w.b0.toNat % 8) = w.extWords.length := by
  obtain ⟨⟨id, ws⟩, hext⟩ := Option.isSome_iff_exists.mp (hw.ext.mpr hx)
  have hwords := hw.words
  rw [Wire.extWords, hext] at hwords ⊢
  have d0 : w.bytes.drop 12 = words w.csrc ++ (extBytes w.ext ++ w.payload) := rfl
  have d1 := drop_add _ d0
  rw [length_words, hw.csrc, hext, extBytes, List.append_assoc, List.append_assoc] at d1
  have d2 := drop_add _ d1
  rw [length_bytes] at d2
  rw [extWords, d2, List.take_left' (length_bytes 2 _), value_bytes hwords]
  rfl

theorem accepted_of_parse {packet : RtpPacket}
    (h : rtpPacketParse rtpPacketCreate buffer buffer.length = .ok (RTP_OK, packet)) :
    Accepted buffer := by
  obtain ⟨hstop, -, hfault⟩ := rtpHeaderParse_outcome buffer
  obtain ⟨⟨r, header⟩, hheader, hrest⟩ := bind_eq_ok.mp h
  have hfixed : FixedPart buffer := by
    by_contra hnot
    obtain ⟨header', hrun⟩ := hstop hnot
    cases hrun.symm.trans hheader
    dsimp only at hrest
    rw [if_pos (by decide)] at hrest
    cases hrest
  refine ⟨hfixed, ?_⟩
  by_contra hshort
  cases (hfault hfixed (Nat.lt_of_not_le hshort)).symm.trans hheader

/-- A datagram is written as it was read exactly if it is accepted, its padding flag and the
highest bit of its count are clear, and an extension that is announced has 1 to 255 words. -/
theorem relays_iff (buffer : List UInt8) (hlen : buffer.length < 2 ^ 31) :
    Relays buffer ↔ Accepted buffer ∧ byteAt buffer 0 / 32 % 2 = 0 ∧ byteAt buffer 0 / 8 % 2 = 0 ∧
      (byteAt buffer 0 / 16 % 2 = 1 →
        1 ≤ extWords buffer (byteAt buffer 0 % 8) ∧
          extWords buffer (byteAt buffer 0 % 8) ≤ 255) := by
  have hiff (haccepted : Accepted buffer) : Relays buffer ↔
      byteAt buffer 0 / 32 % 2 = 0 ∧ byteAt buffer 0 / 8 % 2 = 0 ∧
        (byteAt buffer 0 / 16 % 2 = 1 →
          1 ≤ extWords buffer (byteAt buffer 0 % 8) ∧
            extWords buffer (byteAt buffer 0 % 8) ≤ 255) := by
    obtain ⟨w, hw, rfl⟩ := accepted_wire haccepted
    rw [relays_wire_iff hw hlen, flagByte_kept_iff hw, show byteAt w.bytes 0 = w.b0.toNat from rfl,
      and_assoc, and_assoc]
    refine and_congr_right fun _ => and_congr_right fun _ => ?_
    by_cases hx : w.b0.toNat / 16 % 2 = 1
    · have hone : 1 ≤ w.extWords.length ↔ w.extWords ≠ [] := List.length_pos_iff
      rw [extWords_wire hw hx, hone]
      exact ⟨fun h _ => ⟨h.1 hx, h.2⟩, fun h => ⟨fun _ => (h hx).1, (h hx).2⟩⟩
    · have hnone : w.extWords = [] := by
        rw [Wire.extWords, Option.not_isSome_iff_eq_none.mp (mt hw.ext.mp hx)]
        rfl
      rw [hnone]
      exact ⟨fun _ h => absurd h hx, fun _ => ⟨fun h => absurd h hx, Nat.zero_le _⟩⟩
  constructor
  · intro h
    have haccepted : Accepted buffer := by
      obtain ⟨packet, hparse, -⟩ := h
      exact accepted_of_parse hparse
    exact ⟨haccepted, (hiff haccepted).mp h⟩
  · rintro ⟨haccepted, hrest⟩
    exact (hiff haccepted).mpr hrest

/-- A plain datagram, and one whose padding flag is lost. -/
theorem relays_iff_padded :
    Relays [0x80, 96, 0, 7, 0, 0, 0, 8, 0, 0, 0, 9, 1, 2] ∧
      ¬ Relays [0xa0, 96, 0, 7, 0, 0, 0, 8, 0, 0, 0, 9, 1, 1] := by
  constructor
  · rw [relays_iff _ (by decide)]
    exact ⟨⟨⟨by decide, by decide, by decide⟩, by decide⟩, by decide, by decide,
      fun h => absurd h (by decide)⟩
  · rw [relays_iff _ (by decide)]
    exact fun h => absurd h.2.1 (by decide)

end RtpSdr.Rtp.Relay
