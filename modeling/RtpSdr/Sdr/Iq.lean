import RtpSdr.Rtp.HeaderEdit
import RtpSdr.Sdr.Rbuf

/-!
# Sessions and their samples: `rtp_sdr_iq.c`

A sample is a pair of four-byte unions, of which each payload type uses one member. The
loops that put samples into a datagram and take them out of one are written once for
each type; `sampleBytes` and `decoded` are what one pass of them does.
-/
namespace RtpSdr.Sdr.Iq

open RtpSdr.Lib.Checked
open RtpSdr.Lib.Memory
open RtpSdr.Lib.BigEndian
open RtpSdr.Rtp.Util
open RtpSdr.Rtp.Header
open RtpSdr.Rtp.HeaderEdit
open RtpSdr.Sdr.Rbuf

def RTP_PACKET_LENGTH : Nat := 4096

/-- `iq_type_t`. -/
inductive IqType where
  | pt8
  | pt16
  | pt24
  | pt32
deriving DecidableEq, Repr

/-- The payload type of the enumeration. -/
def IqType.payloadType : IqType → UInt8
  | pt8 => 97
  | pt16 => 98
  | pt24 => 99
  | pt32 => 100

/-- `iq_t`: the four bytes of each union as a little-endian machine reads them. -/
structure IqT where
  i : UInt32
  q : UInt32
deriving DecidableEq, Repr

section Members

/-! The members of a union. An assignment to a short one keeps the other bytes. -/

def s8 (c : UInt32) : Int8 := c.toUInt8.toInt8

def s16 (c : UInt32) : Int16 := c.toUInt16.toInt16

def s24S32 (c : UInt32) : Int32 := c.toInt32

def setS8 (c : UInt32) (v : UInt8) : UInt32 := (c &&& 0xffffff00) ||| v.toUInt32

def setS16 (c : UInt32) (v : UInt16) : UInt32 := (c &&& 0xffff0000) ||| v.toUInt32

def setS24S32 (v : Int32) : UInt32 := v.toUInt32

end Members

section Source

/-- One pass of the loop of a type in `rcp_iq_transmit`: the datagram and `header_size`. -/
def writeSample (type : IqType) (s : List UInt8 × Nat) (iq : IqT) : Exec (List UInt8 × Nat) :=
  match type with
  | .pt8 => do
    let data ← store s.1 s.2 (s8 iq.i).toUInt8
    let data ← store data (s.2 + 1) (s8 iq.q).toUInt8
    .ok (data, s.2 + 2)
  | .pt16 => do
    let data ← writeU16 s.1 s.2 (s16 iq.i).toUInt16
    let data ← writeU16 data (s.2 + 2) (s16 iq.q).toUInt16
    .ok (data, s.2 + 4)
  | .pt24 | .pt32 => do
    let data ← writeS24S32 s.1 s.2 (s24S32 iq.i)
    let data ← writeS24S32 data (s.2 + 4) (s24S32 iq.q)
    .ok (data, s.2 + 8)

/-- The loop over the first `packetLen` samples of a frame. -/
def writeSamples (type : IqType) (data : List UInt8) (headerSize : Nat) (iqFrame : List IqT)
    (packetLen : Nat) : Exec (List UInt8 × Nat) :=
  forUp (fun n s => do
    let iq ← load iqFrame n
    writeSample type s iq) packetLen (data, headerSize)

/-- One pass of the loop of a type in `rcp_iq_receive`: `pos` and `iq_data`, which keeps what
the pass does not assign. -/
def readSample (type : IqType) (payload : List UInt8) (s : Nat × IqT) : Exec (Nat × IqT) :=
  match type with
  | .pt8 => do
    let b ← load payload s.1
    let i := setS8 s.2.i b
    let b ← load payload (s.1 + 1)
    .ok (s.1 + 2, ⟨setS8 i b, s.2.q⟩)
  | .pt16 => do
    let i ← readU16 payload s.1
    let q ← readU16 payload (s.1 + 2)
    .ok (s.1 + 4, ⟨setS16 s.2.i i, setS16 s.2.q q⟩)
  | .pt24 => do
    let i ← readS24 payload s.1
    let q ← readS24 payload (s.1 + 4)
    .ok (s.1 + 8, ⟨setS24S32 i, setS24S32 q⟩)
  | .pt32 => do
    let i ← readU32 payload s.1
    let q ← readU32 payload (s.1 + 4)
    .ok (s.1 + 8, ⟨setS24S32 i.toInt32, setS24S32 q.toInt32⟩)

/-- `n` passes, from `iq_data` as it is, and the samples they hand to the ring buffer. -/
def readSamples (type : IqType) (payload : List UInt8) (n : Nat) (iqData : IqT) :
    Exec ((Nat × IqT) × List IqT) :=
  forUp (fun _ s => do
    let t ← readSample type payload s.1
    .ok (t, s.2 ++ [t.2])) n ((0, iqData), [])

end Source

/-! ## What a sample says -/

def IqType.bits : IqType → Nat
  | pt8 => 8
  | pt16 => 16
  | pt24 => 24
  | pt32 => 32

/-- The number in the member that a type uses. -/
def value : IqType → UInt32 → Int
  | .pt8, c => (s8 c).toInt
  | .pt16, c => (s16 c).toInt
  | .pt24, c => (s24S32 c).toInt
  | .pt32, c => (s24S32 c).toInt

/-- The number lies in the type's signed range. -/
def InRange (type : IqType) (c : UInt32) : Prop :=
  -2 ^ (type.bits - 1) ≤ value type c ∧ value type c < 2 ^ (type.bits - 1)

def values (type : IqType) (iq : IqT) : Int × Int := (value type iq.i, value type iq.q)

/-! ## What is written -/

/-- The bytes from one sample to the next. -/
def stride : IqType → Nat
  | .pt8 => 2
  | .pt16 => 4
  | .pt24 => 8
  | .pt32 => 8

/-- A sample in the datagram. Of the four bytes for a long member the last keeps what the
buffer, here `zs`, held. -/
def sampleBytes (type : IqType) (iq : IqT) (zs : List UInt8) : List UInt8 :=
  match type with
  | .pt8 => [iq.i.toUInt8, iq.q.toUInt8]
  | .pt16 => bytes 2 iq.i.toUInt16.toNat ++ bytes 2 iq.q.toUInt16.toNat
  | .pt24 | .pt32 =>
    bytes 3 iq.i.toNat ++ [zs.getD 3 0] ++ (bytes 3 iq.q.toNat ++ [zs.getD 7 0])

/-- Samples one behind the other over a buffer that held `zs`. -/
def payloadBytes (type : IqType) : List IqT → List UInt8 → List UInt8
  | [], _ => []
  | iq :: iqs, zs => sampleBytes type iq zs ++ payloadBytes type iqs (zs.drop (stride type))

@[simp] theorem length_sampleBytes (type : IqType) (iq : IqT) (zs : List UInt8) :
    (sampleBytes type iq zs).length = stride type := by
  cases type <;> simp [sampleBytes, stride]

variable {type : IqType} {w zs rest : List UInt8} {pos : Nat} {iqs : List IqT}

/-- Three bytes are written and the fourth is passed over. -/
theorem writeS24S32_ok (c : UInt32) (hw : w.length = pos) (hzs : 4 ≤ zs.length) :
    writeS24S32 (w ++ zs) pos (s24S32 c)
      = .ok (w ++ (bytes 3 c.toNat ++ [zs.getD 3 0]) ++ zs.drop 4) := by
  have hsplit : zs.drop 3 = zs.getD 3 0 :: zs.drop 4 := by
    rw [List.drop_eq_getElem_cons (by omega), List.getD_eq_getElem _ _ (by omega)]
  have hblit := blit_append hw (length_bytes 3 c.toNat) (show 3 ≤ zs.length by omega)
  rw [writeS24S32, writeU24_eq]
  change blit (w ++ zs) pos (bytes 3 c.toNat) = _
  rw [hblit, hsplit]
  simp only [List.append_assoc, List.cons_append, List.nil_append]

/-- A long member of a type takes two such steps. -/
theorem writeLong_ok (i q : UInt32) (hw : w.length = pos) (hzs : 8 ≤ zs.length) :
    (do
      let data ← writeS24S32 (w ++ zs) pos (s24S32 i)
      let data ← writeS24S32 data (pos + 4) (s24S32 q)
      .ok (data, pos + 8) : Exec (List UInt8 × Nat))
      = .ok (w ++ (bytes 3 i.toNat ++ [zs.getD 3 0] ++ (bytes 3 q.toNat ++ [zs.getD 7 0]))
        ++ zs.drop 8, pos + 8) := by
  have hlen : (w ++ (bytes 3 i.toNat ++ [zs.getD 3 0])).length = pos + 4 := by
    simp only [List.length_append, length_bytes, List.length_singleton]
    omega
  have hgap : (zs.drop 4).getD 3 0 = zs.getD 7 0 := by
    rw [List.getD_eq_getElem?_getD, List.getElem?_drop, List.getD_eq_getElem?_getD]
  have hq := writeS24S32_ok q hlen
    (show 4 ≤ (zs.drop 4).length by rw [List.length_drop]; omega)
  rw [List.drop_drop, hgap] at hq
  rw [bind_of_ok (writeS24S32_ok i hw (by omega)), bind_of_ok hq, List.append_assoc w]

theorem writeSample_ok (iq : IqT) (hw : w.length = pos) (hzs : stride type ≤ zs.length) :
    writeSample type (w ++ zs, pos) iq
      = .ok (w ++ sampleBytes type iq zs ++ zs.drop (stride type), pos + stride type) := by
  cases type with
  | pt8 =>
    have hi : blit (w ++ zs) pos [iq.i.toUInt8] = .ok (w ++ [iq.i.toUInt8] ++ zs.drop 1) :=
      blit_append hw rfl (Nat.le_of_succ_le hzs)
    have hq := blit_append
      (show (w ++ [iq.i.toUInt8]).length = pos + 1 by rw [List.length_append, hw]; rfl)
      (show [iq.q.toUInt8].length = 1 from rfl)
      (show 1 ≤ (zs.drop 1).length by rw [List.length_drop]; exact Nat.le_sub_of_add_le hzs)
    rw [List.drop_drop] at hq
    simp only [writeSample, store_eq_blit]
    change (blit (w ++ zs) pos [iq.i.toUInt8] >>= fun data =>
      blit data (pos + 1) [iq.q.toUInt8] >>= fun data => .ok (data, pos + 2)) = _
    rw [bind_of_ok hi, bind_of_ok hq, List.append_assoc w]
    rfl
  | pt16 =>
    have hi := blit_append hw (length_bytes 2 iq.i.toUInt16.toNat)
      (show 2 ≤ zs.length from Nat.le_trans (by decide) hzs)
    have hq := blit_append
      (show (w ++ bytes 2 iq.i.toUInt16.toNat).length = pos + 2 by
        rw [List.length_append, hw, length_bytes])
      (length_bytes 2 iq.q.toUInt16.toNat)
      (show 2 ≤ (zs.drop 2).length by rw [List.length_drop]; exact Nat.le_sub_of_add_le hzs)
    rw [List.drop_drop] at hq
    simp only [writeSample, writeU16_eq]
    change (blit (w ++ zs) pos (bytes 2 iq.i.toUInt16.toNat) >>= fun data =>
      blit data (pos + 2) (bytes 2 iq.q.toUInt16.toNat) >>= fun data => .ok (data, pos + 4)) = _
    rw [bind_of_ok hi, bind_of_ok hq, List.append_assoc w]
    rfl
  | pt24 => exact writeLong_ok iq.i iq.q hw hzs
  | pt32 => exact writeLong_ok iq.i iq.q hw hzs

theorem writeSamples_ok (type : IqType) (iqs more : List IqT) (hw : w.length = pos)
    (hzs : stride type * iqs.length ≤ zs.length) :
    writeSamples type (w ++ zs) pos (iqs ++ more) iqs.length
      = .ok (w ++ payloadBytes type iqs zs ++ zs.drop (stride type * iqs.length),
        pos + stride type * iqs.length) := by
  induction iqs generalizing w zs pos with
  | nil => simp [writeSamples, payloadBytes]
  | cons iq iqs ih =>
    rw [List.length_cons, Nat.mul_succ] at hzs ⊢
    have hlen : (w ++ sampleBytes type iq zs).length = pos + stride type := by
      rw [List.length_append, length_sampleBytes, hw]
    have hfirst : writeSample type (w ++ zs, pos) iq = .ok (w ++ sampleBytes type iq zs
        ++ zs.drop (stride type), pos + stride type) := writeSample_ok iq hw (by omega)
    have hothers := ih hlen (show stride type * iqs.length ≤ (zs.drop (stride type)).length by
      rw [List.length_drop]
      omega)
    rw [List.drop_drop] at hothers
    rw [writeSamples, forUp_succ_left]
    change (writeSample type (w ++ zs, pos) iq >>= fun s =>
      writeSamples type s.1 s.2 (iqs ++ more) iqs.length) = _
    rw [bind_of_ok hfirst]
    dsimp only
    rw [hothers, payloadBytes, List.append_assoc w, Nat.add_assoc, Nat.add_comm (stride type)]

/-! ## What is read -/

/-- The word that three bytes of a member and the byte behind them are read as. -/
def withStale (c : UInt32) (stale : UInt8) : UInt32 :=
  UInt32.ofNat (c.toNat % 2 ^ 24 * 256 + stale.toNat)

/-- The sample that is read where `iq` was written over `zs`, into an `iqData` that may keep
some of its bytes. -/
def decoded (type : IqType) (iq : IqT) (zs : List UInt8) (iqData : IqT) : IqT :=
  match type with
  | .pt8 => ⟨setS8 (setS8 iqData.i iq.i.toUInt8) iq.q.toUInt8, iqData.q⟩
  | .pt16 => ⟨setS16 iqData.i iq.i.toUInt16, setS16 iqData.q iq.q.toUInt16⟩
  | .pt24 => iq
  | .pt32 => ⟨withStale iq.i (zs.getD 3 0), withStale iq.q (zs.getD 7 0)⟩

/-- The samples that are read one behind the other. -/
def received (type : IqType) : List IqT → List UInt8 → IqT → List IqT
  | [], _, _ => []
  | iq :: iqs, zs, iqData => decoded type iq zs iqData ::
    received type iqs (zs.drop (stride type)) (decoded type iq zs iqData)

theorem toNat_withStale (c : UInt32) (stale : UInt8) :
    (withStale c stale).toNat = c.toNat % 2 ^ 24 * 256 + stale.toNat := by
  have hstale := stale.toNat_lt
  rw [withStale, UInt32.toNat_ofNat']
  exact Nat.mod_eq_of_lt (by omega)

theorem bytes_low (c : UInt32) : bytes 3 c.toNat = bytes 3 (c.toNat % 2 ^ 24) :=
  (bytes_mod 3 c.toNat).symm

/-- A number of 24 bits survives as its three lowest bytes. -/
theorem readS24_ok {xs : List UInt8} {c : UInt32} (hc : InRange .pt24 c)
    (h : xs.drop pos = bytes 3 c.toNat ++ rest) : readS24 xs pos = .ok (s24S32 c) := by
  have hlt := c.toNat_lt
  have hvalue : (c.toNat < 2 ^ 23) ∨ (2 ^ 32 - 2 ^ 23 ≤ c.toNat) := by
    obtain ⟨hlow, hhigh⟩ := hc
    change -2 ^ 23 ≤ c.toBitVec.toInt at hlow
    change c.toBitVec.toInt < 2 ^ 23 at hhigh
    rw [BitVec.toInt_eq_toNat_cond] at hlow hhigh
    change -2 ^ 23 ≤ if 2 * c.toNat < 2 ^ 32 then (c.toNat : Int) else c.toNat - (2 ^ 32 : Nat)
      at hlow
    change (if 2 * c.toNat < 2 ^ 32 then (c.toNat : Int) else c.toNat - (2 ^ 32 : Nat)) < 2 ^ 23
      at hhigh
    split at hlow <;> omega
  rw [bytes_low] at h
  obtain ⟨u, hread, hu⟩ := readU24_drop (Nat.mod_lt _ (by decide)) h
  rw [readS24, bind_of_ok hread]
  by_cases hpos : u < 0x800000
  · have hpos' : u.toNat < 0x800000 := UInt32.lt_iff_toNat_lt.mp hpos
    have huc : u = c := by
      rw [← UInt32.toNat_inj]
      omega
    rw [if_pos hpos, huc]
    rfl
  · have hneg : (0x800000 : UInt32).toNat ≤ u.toNat :=
      Nat.le_of_not_lt (mt UInt32.lt_iff_toNat_lt.mpr hpos)
    change 0x800000 ≤ u.toNat at hneg
    have hult := u.toNat_lt
    have hmag : ((~~~u &&& 0xffffff) + 1).toNat = 2 ^ 32 - c.toNat := by
      rw [UInt32.toNat_add, UInt32.toNat_and, UInt32.toNat_not]
      change ((2 ^ 32 - 1 - u.toNat &&& (2 ^ 24 - 1)) + 1) % 2 ^ 32 = _
      rw [and_mask]
      omega
    have hminus : (-1 * ((~~~u &&& 0xffffff) + 1).toInt32 : Int32).toUInt32 = c := by
      rw [Int32.toUInt32_mul, UInt32.toUInt32_toInt32, ← UInt32.toNat_inj, UInt32.toNat_mul, hmag]
      change 4294967295 * (2 ^ 32 - c.toNat) % 2 ^ 32 = c.toNat
      omega
    rw [if_neg hpos, Except.ok.injEq, s24S32, ← hminus]
    rfl

theorem bytes_four (n : Nat) : bytes 4 n = bytes 3 (n / 256) ++ [UInt8.ofNat n] := rfl

theorem readU32_stale {xs : List UInt8} (c : UInt32) (stale : UInt8)
    (h : xs.drop pos = bytes 3 c.toNat ++ stale :: rest) :
    readU32 xs pos = .ok (withStale c stale) := by
  have hstale := stale.toNat_lt
  have hdiv : (withStale c stale).toNat / 256 = c.toNat % 2 ^ 24 := by
    rw [toNat_withStale]
    omega
  have hlow : UInt8.ofNat (withStale c stale).toNat = stale := by
    rw [← UInt8.toNat_inj, UInt8.toNat_ofNat', toNat_withStale]
    omega
  have hbytes : bytes 4 (withStale c stale).toNat = bytes 3 c.toNat ++ [stale] := by
    rw [bytes_four, hdiv, hlow, ← bytes_low]
  have hdrop : xs.drop pos = bytes 4 (withStale c stale).toNat ++ rest := by
    rw [h, hbytes, List.append_assoc]
    rfl
  exact readU32_drop _ hdrop

theorem readSample_ok {xs : List UInt8} {iq iqData : IqT}
    (hi : InRange type iq.i) (hq : InRange type iq.q)
    (h : xs.drop pos = sampleBytes type iq zs ++ rest) :
    readSample type xs (pos, iqData) = .ok (pos + stride type, decoded type iq zs iqData) := by
  cases type with
  | pt8 =>
    have h0 : xs.drop pos = iq.i.toUInt8 :: iq.q.toUInt8 :: rest := h
    rw [readSample, bind_of_ok (load_drop h0), bind_of_ok (load_drop (drop_cons h0))]
    rfl
  | pt16 =>
    rw [sampleBytes, List.append_assoc] at h
    have hsecond := drop_add _ h
    rw [length_bytes] at hsecond
    rw [readSample, bind_of_ok (readU16_drop _ h), bind_of_ok (readU16_drop _ hsecond)]
    rfl
  | pt24 =>
    rw [sampleBytes, List.append_assoc] at h
    have hsecond := drop_add _ h
    rw [List.length_append, length_bytes, List.length_singleton, List.append_assoc] at hsecond
    rw [List.append_assoc] at h
    rw [readSample, bind_of_ok (readS24_ok hi h), bind_of_ok (readS24_ok hq hsecond)]
    rfl
  | pt32 =>
    rw [sampleBytes, List.append_assoc] at h
    have hsecond := drop_add _ h
    rw [List.length_append, length_bytes, List.length_singleton, List.append_assoc] at hsecond
    rw [List.append_assoc] at h
    rw [readSample, bind_of_ok (readU32_stale iq.i _ h), bind_of_ok (readU32_stale iq.q _ hsecond)]
    rfl

/-- The loop from any position, with the samples read before. -/
theorem readLoop_ok {xs : List UInt8} (iqData : IqT) (out : List IqT)
    (hrange : ∀ iq ∈ iqs, InRange type iq.i ∧ InRange type iq.q)
    (h : xs.drop pos = payloadBytes type iqs zs ++ rest) :
    ∃ s, forUp (fun _ s => do
      let t ← readSample type xs s.1
      .ok (t, s.2 ++ [t.2])) iqs.length ((pos, iqData), out)
        = .ok (s, out ++ received type iqs zs iqData) := by
  induction iqs generalizing zs pos iqData out with
  | nil => exact ⟨_, by rw [received, List.append_nil]; rfl⟩
  | cons iq iqs ih =>
    obtain ⟨hi, hq⟩ := hrange iq List.mem_cons_self
    rw [payloadBytes, List.append_assoc] at h
    have hothers := drop_add _ h
    rw [length_sampleBytes] at hothers
    obtain ⟨s, hs⟩ := ih (decoded type iq zs iqData) (out ++ [decoded type iq zs iqData])
      (fun iq' h' => hrange iq' (List.mem_cons_of_mem iq h')) hothers
    refine ⟨s, ?_⟩
    rw [List.length_cons, forUp_succ_left, bind_assoc, bind_of_ok (readSample_ok hi hq h), ok_bind,
      hs, received, List.append_assoc]
    rfl

/-! ## Agreement of the two ends -/

/-- Samples written into any buffer with room behind a header, and read from there into any
`iq_data`, come back with the same numbers in the same order. -/
def Agrees (type : IqType) (iqs : List IqT) : Prop :=
  ∀ (data : List UInt8) (headerSize : Nat) (iqData : IqT),
    headerSize + stride type * iqs.length ≤ data.length →
    ∃ bytes pos s out, writeSamples type data headerSize iqs iqs.length = .ok (bytes, pos) ∧
      readSamples type (bytes.drop headerSize) iqs.length iqData = .ok (s, out) ∧
      out.map (values type) = iqs.map (values type)

/-- What is read is determined by what was written, by the buffer and by `iq_data`. -/
theorem transfer (hrange : ∀ iq ∈ iqs, InRange type iq.i ∧ InRange type iq.q)
    {data : List UInt8} {headerSize : Nat} (iqData : IqT)
    (hdata : headerSize + stride type * iqs.length ≤ data.length) :
    ∃ bytes pos s, writeSamples type data headerSize iqs iqs.length = .ok (bytes, pos) ∧
      readSamples type (bytes.drop headerSize) iqs.length iqData
        = .ok (s, received type iqs (data.drop headerSize) iqData) := by
  have hw : (data.take headerSize).length = headerSize := by
    rw [List.length_take]
    omega
  have hwrite := writeSamples_ok type iqs [] hw
    (show stride type * iqs.length ≤ (data.drop headerSize).length by rw [List.length_drop]; omega)
  rw [List.take_append_drop, List.append_nil] at hwrite
  obtain ⟨s, hread⟩ := readLoop_ok iqData [] hrange
    (show (payloadBytes type iqs (data.drop headerSize)
      ++ (data.drop headerSize).drop (stride type * iqs.length)).drop 0 = _ from rfl)
  refine ⟨_, _, s, hwrite, ?_⟩
  rw [List.append_assoc, List.drop_left' hw]
  exact hread

theorem s16_setS16 (c v : UInt32) : s16 (setS16 c v.toUInt16) = s16 v := by
  have hhigh : (0xffff0000 : UInt32).toUInt16 = 0 := rfl
  rw [s16, setS16, UInt32.toUInt16_or, UInt32.toUInt16_and, hhigh, UInt16.and_zero,
    UInt16.zero_or, UInt16.toUInt16_toUInt32]
  rfl

/-- The types whose passes write and read the same bytes. -/
theorem received_values (htype : type = .pt16 ∨ type = .pt24) (iqs : List IqT) (zs : List UInt8)
    (iqData : IqT) : (received type iqs zs iqData).map (values type) = iqs.map (values type) := by
  induction iqs generalizing zs iqData with
  | nil => rfl
  | cons iq iqs ih =>
    rw [received, List.map_cons, List.map_cons, ih]
    rcases htype with rfl | rfl
    · rw [decoded, values, value, value, s16_setS16, s16_setS16]
      rfl
    · rfl

theorem inRange_pt8 (c : UInt32) : InRange .pt8 c := ⟨(s8 c).le_toInt, (s8 c).toInt_lt⟩

theorem inRange_pt32 (c : UInt32) : InRange .pt32 c := ⟨(s24S32 c).le_toInt, (s24S32 c).toInt_lt⟩

/-- Agreement speaks of the samples that `transfer` finds. -/
theorem Agrees.received (hagrees : Agrees type iqs)
    (hrange : ∀ iq ∈ iqs, InRange type iq.i ∧ InRange type iq.q) (data : List UInt8)
    (hdata : stride type * iqs.length ≤ data.length) (iqData : IqT) :
    (received type iqs data iqData).map (values type) = iqs.map (values type) := by
  obtain ⟨bytes, pos, s, hwrite, hread⟩ := transfer hrange iqData
    (show 0 + stride type * iqs.length ≤ data.length by omega)
  obtain ⟨bytes', pos', s', out, hwrite', hread', hout⟩ := hagrees data 0 iqData (by omega)
  obtain ⟨rfl, rfl⟩ := Prod.mk.inj (Except.ok.inj (hwrite.symm.trans hwrite'))
  obtain ⟨rfl, rfl⟩ := Prod.mk.inj (Except.ok.inj (hread.symm.trans hread'))
  exact hout

/-- An 8-bit pass never assigns `q`. -/
theorem not_agrees_pt8 (iq : IqT) (iqs : List IqT) : ¬ Agrees .pt8 (iq :: iqs) := by
  intro hagrees
  have hout := hagrees.received (fun iq _ => ⟨inRange_pt8 iq.i, inRange_pt8 iq.q⟩)
    (List.replicate (stride .pt8 * (iq :: iqs).length) 0)
    (by rw [List.length_replicate]) ⟨0, iq.q + 1⟩
  have hq : value .pt8 (iq.q + 1) = value .pt8 iq.q := (Prod.mk.inj (List.cons.inj hout).1).2
  have hbyte : (iq.q + 1).toUInt8 = iq.q.toUInt8 :=
    congrArg Int8.toUInt8 (Int8.toInt_inj.mp hq)
  have hnat := congrArg UInt8.toNat hbyte
  rw [UInt32.toNat_toUInt8, UInt32.toNat_toUInt8, UInt32.toNat_add] at hnat
  change (iq.q.toNat + 1) % 2 ^ 32 % 2 ^ 8 = iq.q.toNat % 2 ^ 8 at hnat
  omega

/-- A 32-bit pass takes its lowest byte from what the buffer held. -/
theorem not_agrees_pt32 (iq : IqT) (iqs : List IqT) : ¬ Agrees .pt32 (iq :: iqs) := by
  intro hagrees
  have hout := hagrees.received (fun iq _ => ⟨inRange_pt32 iq.i, inRange_pt32 iq.q⟩)
    (List.replicate (stride .pt32 * (iq :: iqs).length) (iq.i.toUInt8 + 1))
    (by rw [List.length_replicate]) ⟨0, 0⟩
  have hi := (Prod.mk.inj (List.cons.inj hout).1).1
  rw [decoded, getD_replicate (by rw [List.length_cons]; simp only [stride]; omega)] at hi
  have hword : withStale iq.i (iq.i.toUInt8 + 1) = iq.i :=
    congrArg Int32.toUInt32 (Int32.toInt_inj.mp hi)
  have hnat := congrArg UInt32.toNat hword
  rw [toNat_withStale, UInt8.toNat_add, UInt32.toNat_toUInt8] at hnat
  change _ + (iq.i.toNat % 2 ^ 8 + 1) % 2 ^ 8 = _ at hnat
  omega

/-- The two ends agree exactly on the samples of 16 and of 24 bits. -/
theorem agrees_iff (type : IqType) (iqs : List IqT)
    (hrange : ∀ iq ∈ iqs, InRange type iq.i ∧ InRange type iq.q) :
    Agrees type iqs ↔ type = .pt16 ∨ type = .pt24 ∨ iqs = [] := by
  have hagrees (hsame : ∀ zs iqData, (received type iqs zs iqData).map (values type)
      = iqs.map (values type)) : Agrees type iqs := by
    intro data headerSize iqData hdata
    obtain ⟨bytes, pos, s, hwrite, hread⟩ := transfer hrange iqData hdata
    exact ⟨bytes, pos, s, _, hwrite, hread, hsame _ _⟩
  constructor
  · intro h
    cases iqs with
    | nil => exact .inr (.inr rfl)
    | cons iq iqs =>
      cases type with
      | pt8 => exact absurd h (not_agrees_pt8 iq iqs)
      | pt16 => exact .inl rfl
      | pt24 => exact .inr (.inl rfl)
      | pt32 => exact absurd h (not_agrees_pt32 iq iqs)
  · rintro (htype | htype | rfl)
    · exact hagrees (received_values (.inl htype) iqs)
    · exact hagrees (received_values (.inr htype) iqs)
    · exact hagrees fun _ _ => rfl

/-- The largest and the smallest number of 24 bits. -/
theorem agrees_extremes : Agrees .pt24 [⟨0x7fffff, 0xff800000⟩] :=
  (agrees_iff .pt24 [⟨0x7fffff, 0xff800000⟩] (by
    intro iq h
    rw [List.mem_singleton] at h
    subst h
    constructor <;> constructor <;> decide)).mpr (.inr (.inl rfl))

/-- One sample of 8 bits and one of 32. -/
theorem agrees_fails : ¬ Agrees .pt8 [⟨1, 2⟩] ∧ ¬ Agrees .pt32 [⟨1, 2⟩] :=
  ⟨not_agrees_pt8 ⟨1, 2⟩ [], not_agrees_pt32 ⟨1, 2⟩ []⟩

end RtpSdr.Sdr.Iq
