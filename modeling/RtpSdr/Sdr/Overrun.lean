import Mathlib.Data.List.DropRight
import RtpSdr.Sdr.Receive
import RtpSdr.Sdr.Sequence

/-!
# The receiver at the end of its array

A pass of the receiver takes a whole sample, and there is a pass for each byte behind the header.
The passes stay inside the local array only where the datagram leaves most of it free, and what
`rcp_iq_transmit` sends fills all of it.
-/
namespace RtpSdr.Sdr.Overrun

open RtpSdr.Lib.Checked
open RtpSdr.Lib.Memory
open RtpSdr.Lib.BigEndian
open RtpSdr.Rtp.Util
open RtpSdr.Rtp.Header
open RtpSdr.Rtp.HeaderAccept
open RtpSdr.Rtp.HeaderBoundary
open RtpSdr.Sdr.Rbuf
open RtpSdr.Sdr.Iq
open RtpSdr.Sdr.Transmit
open RtpSdr.Sdr.Datagram
open RtpSdr.Sdr.Sequence
open RtpSdr.Sdr.Receive

/-- The bytes up to the last one a pass reads; the spare byte of 24 bits is skipped. -/
def reach : IqType → Nat
  | .pt8 => 2
  | .pt16 => 4
  | .pt24 => 7
  | .pt32 => 8

/-- The numbers a pass leaves in `iq_data`. For 8 bits both bytes go to the same component, the
second over the first, and the other one stays as it is. -/
def passValues (type : IqType) (bs : List UInt8) (iqData : IqT) : Int × Int :=
  match type with
  | .pt8 => (signed ((bs.drop 1).take 1), value .pt8 iqData.q)
  | .pt16 | .pt24 | .pt32 => ownValues type bs

variable {type : IqType} {xs : List UInt8} {pos : Nat}

/-! ## One pass -/

theorem signed_take {k n : Nat} {bs rest : List UInt8} (hn : n < 256 ^ k)
    (h : bs = bytes k n ++ rest) : signed (bs.take k) = (BitVec.ofNat (8 * k) n).toInt := by
  rw [h, List.take_left' (length_bytes k n), signed, value_bytes hn, length_bytes]

/-- Three bytes in two's complement. -/
theorem readS24_inside (xs : List UInt8) (pos : Nat) (h : pos + 3 ≤ xs.length) :
    ∃ v, readS24 xs pos = .ok v ∧ v.toInt = signed ((xs.drop pos).take 3) := by
  obtain ⟨n, hn, hxs⟩ := exists_bytes (k := 3) (xs.drop pos) (by rw [List.length_drop]; omega)
  have hwide : (BitVec.ofNat 24 n).toNat = n := by
    rw [BitVec.toNat_ofNat]
    exact Nat.mod_eq_of_lt hn
  -- the number with its sign in the bytes above
  let c : UInt32 := ⟨(BitVec.ofNat 24 n).signExtend 32⟩
  have hc : value .pt24 c = (BitVec.ofNat 24 n).toInt := BitVec.toInt_signExtend_of_le (by decide)
  have hlow : c.toNat % 2 ^ 24 = n := by
    have hlt := c.toNat_lt
    have hsame : c.toBitVec.toInt = (BitVec.ofNat 24 n).toInt := hc
    rw [BitVec.toInt_eq_toNat_cond, BitVec.toInt_eq_toNat_cond, hwide] at hsame
    change (if 2 * c.toNat < 2 ^ 32 then (c.toNat : Int) else c.toNat - (2 ^ 32 : Nat)) = _ at hsame
    split at hsame <;> split at hsame <;> omega
  have hrange : InRange .pt24 c := by
    rw [InRange, hc]
    exact ⟨BitVec.le_toInt _, BitVec.toInt_lt⟩
  have hdrop : xs.drop pos = bytes 3 c.toNat ++ (xs.drop pos).drop 3 := by
    rw [bytes_low, hlow]
    exact hxs
  refine ⟨s24S32 c, readS24_ok hrange hdrop, ?_⟩
  rw [signed_take hn hxs]
  exact hc

theorem readU24_fault (h : xs.length < pos + 3) : readU24 xs pos = .error .bounds := by
  have hlast : load xs (pos + 2) = .error .bounds := load_of_le (by omega)
  unfold readU24
  rcases load_cases xs pos with ⟨a, ha⟩ | he
  · rcases load_cases xs (pos + 1) with ⟨b, hb⟩ | he
    · rw [bind_of_ok ha, bind_of_ok hb, hlast, error_bind]
    · rw [bind_of_ok ha, he, error_bind]
  · rw [he, error_bind]

theorem readS24_fault (h : xs.length < pos + 3) : readS24 xs pos = .error .bounds := by
  rw [readS24, readU24_fault h, error_bind]

theorem value_setS8 (c : UInt32) (b : UInt8) : value .pt8 (setS8 c b) = signed [b] := by
  have hbyte : (setS8 c b).toUInt8 = b := by
    have hmask : (0xffffff00 : UInt32).toUInt8 = 0 := rfl
    rw [setS8, UInt32.toUInt8_or, UInt32.toUInt8_and, hmask, UInt8.and_zero, UInt8.zero_or,
      UInt8.toUInt8_toUInt32]
  change (s8 _).toInt = _
  rw [s8, hbyte, signed]
  change b.toBitVec.toInt = (BitVec.ofNat 8 (0 * 256 + b.toNat)).toInt
  rw [Nat.zero_mul, Nat.zero_add]
  exact congrArg BitVec.toInt (BitVec.ofNat_toNat 8 b.toBitVec).symm

theorem value_setS16 (c : UInt32) {v : UInt16} {bs : List UInt8} (hlen : bs.length = 2)
    (h : v.toNat = Lib.BigEndian.value bs) : value .pt16 (setS16 c v) = signed bs := by
  have hhalf : (setS16 c v).toUInt16 = v := by
    have hmask : (0xffff0000 : UInt32).toUInt16 = 0 := rfl
    rw [setS16, UInt32.toUInt16_or, UInt32.toUInt16_and, hmask, UInt16.and_zero, UInt16.zero_or,
      UInt16.toUInt16_toUInt32]
  change (s16 _).toInt = _
  rw [s16, hhalf, signed, hlen, ← h]
  exact congrArg BitVec.toInt (BitVec.ofNat_toNat 16 v.toBitVec).symm

theorem readU32_value (xs : List UInt8) (pos : Nat) (h : pos + 4 ≤ xs.length) :
    ∃ v, readU32 xs pos = .ok v ∧ v.toInt32.toInt = signed ((xs.drop pos).take 4) := by
  obtain ⟨n, hn, hxs⟩ := exists_bytes (k := 4) (xs.drop pos) (by rw [List.length_drop]; omega)
  have hv : (UInt32.ofNat n).toNat = n := by
    rw [UInt32.toNat_ofNat']
    exact Nat.mod_eq_of_lt hn
  refine ⟨UInt32.ofNat n, readU32_drop _ (hv ▸ hxs), ?_⟩
  rw [signed_take hn hxs]
  rfl

/-- The second component of a sample. -/
theorem take_drop_take {n k l : Nat} (bs : List UInt8) (h : k + l ≤ n) :
    ((bs.take n).drop k).take l = (bs.drop k).take l := by
  rw [List.drop_take, List.take_take, Nat.min_eq_left (by omega)]

/-- A pass inside the payload. -/
theorem readSample_inside (iq : IqT) (h : pos + reach type ≤ xs.length) :
    ∃ iq', readSample type xs (pos, iq) = .ok (pos + stride type, iq') ∧
      values type iq' = passValues type ((xs.drop pos).take (stride type)) iq ∧
      (type = .pt8 → iq'.q = iq.q) := by
  cases type with
  | pt8 =>
    rw [reach] at h
    have h0 := load_of_lt 0 (show pos < xs.length by omega)
    have h1 := load_of_lt 0 (show pos + 1 < xs.length by omega)
    have hsecond : (((xs.drop pos).take 2).drop 1).take 1 = [xs.getD (pos + 1) 0] := by
      rw [take_drop_take _ (by omega), List.drop_drop, List.drop_eq_getElem_cons (by omega),
        List.getD_eq_getElem]
      rfl
    refine ⟨⟨setS8 (setS8 iq.i (xs.getD pos 0)) (xs.getD (pos + 1) 0), iq.q⟩, ?_, ?_, fun _ => rfl⟩
    · rw [readSample, bind_of_ok h0]
      dsimp only
      rw [bind_of_ok h1]
      rfl
    · rw [passValues, stride, hsecond]
      exact Prod.ext (value_setS8 _ _) rfl
  | pt16 =>
    rw [reach] at h
    obtain ⟨i, hi, hival⟩ := readU16_ok xs pos (by omega)
    obtain ⟨q, hq, hqval⟩ := readU16_ok xs (pos + 2) (by omega)
    have hlen (k : Nat) (hk : k + 2 ≤ xs.length) : ((xs.drop k).take 2).length = 2 := by
      rw [List.length_take, List.length_drop]
      omega
    refine ⟨_, by rw [readSample, bind_of_ok hi, bind_of_ok hq]; rfl, ?_,
      fun htype => absurd htype (by decide)⟩
    have hfirst : ((xs.drop pos).take 4).take 2 = (xs.drop pos).take 2 := List.take_take
    have hsecond : (((xs.drop pos).take 4).drop 2).take 2 = (xs.drop (pos + 2)).take 2 := by
      rw [take_drop_take _ (by omega), List.drop_drop]
    refine Prod.ext ?_ ?_
    · exact (value_setS16 _ (hlen _ (by omega)) hival).trans (congrArg signed hfirst.symm)
    · exact (value_setS16 _ (hlen _ (by omega)) hqval).trans (congrArg signed hsecond.symm)
  | pt24 =>
    rw [reach] at h
    obtain ⟨i, hi, hival⟩ := readS24_inside xs pos (by omega)
    obtain ⟨q, hq, hqval⟩ := readS24_inside xs (pos + 4) (by omega)
    refine ⟨_, by rw [readSample, bind_of_ok hi, bind_of_ok hq]; rfl, ?_,
      fun htype => absurd htype (by decide)⟩
    have hfirst : ((xs.drop pos).take 8).take 3 = (xs.drop pos).take 3 := List.take_take
    have hsecond : (((xs.drop pos).take 8).drop 4).take 3 = (xs.drop (pos + 4)).take 3 := by
      rw [take_drop_take _ (by omega), List.drop_drop]
    refine Prod.ext ?_ ?_
    · exact hival.trans (congrArg signed hfirst.symm)
    · exact hqval.trans (congrArg signed hsecond.symm)
  | pt32 =>
    rw [reach] at h
    obtain ⟨i, hi, hival⟩ := readU32_value xs pos (by omega)
    obtain ⟨q, hq, hqval⟩ := readU32_value xs (pos + 4) (by omega)
    refine ⟨_, by rw [readSample, bind_of_ok hi, bind_of_ok hq]; rfl, ?_,
      fun htype => absurd htype (by decide)⟩
    have hfirst : ((xs.drop pos).take 8).take 4 = (xs.drop pos).take 4 := List.take_take
    have hsecond : (((xs.drop pos).take 8).drop 4).take 4 = (xs.drop (pos + 4)).take 4 := by
      rw [take_drop_take _ (by omega), List.drop_drop]
    refine Prod.ext ?_ ?_
    · exact hival.trans (congrArg signed hfirst.symm)
    · exact hqval.trans (congrArg signed hsecond.symm)

/-- A pass that does not end inside the payload does not end. -/
theorem readSample_fault (iq : IqT) (h : xs.length < pos + reach type) :
    readSample type xs (pos, iq) = .error .bounds := by
  cases type with
  | pt8 =>
    rw [reach] at h
    have hlast : load xs (pos + 1) = .error .bounds := load_of_le (by omega)
    rw [readSample]
    rcases load_cases xs pos with ⟨b, hb⟩ | he
    · rw [bind_of_ok hb]
      dsimp only
      rw [hlast, error_bind]
    · rw [he, error_bind]
  | pt16 =>
    rw [reach] at h
    have hlast : readU16 xs (pos + 2) = .error .bounds := readU16_fault (by omega)
    rw [readSample]
    by_cases hfirst : pos + 2 ≤ xs.length
    · obtain ⟨i, hi, -⟩ := readU16_ok xs pos hfirst
      rw [bind_of_ok hi, hlast, error_bind]
    · rw [readU16_fault (by omega), error_bind]
  | pt24 =>
    rw [reach] at h
    have hlast : readS24 xs (pos + 4) = .error .bounds := readS24_fault (by omega)
    rw [readSample]
    by_cases hfirst : pos + 3 ≤ xs.length
    · obtain ⟨i, hi, -⟩ := readS24_inside xs pos hfirst
      rw [bind_of_ok hi, hlast, error_bind]
    · rw [readS24_fault (by omega), error_bind]
  | pt32 =>
    rw [reach] at h
    have hlast : readU32 xs (pos + 4) = .error .bounds := readU32_fault (by omega)
    rw [readSample]
    by_cases hfirst : pos + 4 ≤ xs.length
    · obtain ⟨i, hi⟩ := readU32_inside hfirst
      rw [bind_of_ok hi, hlast, error_bind]
    · rw [readU32_fault (by omega), error_bind]

/-! ## The loop -/

variable {payload : List UInt8} {iqData : IqT} {buffer : RbufT IqT} {q : List IqT}

/-- A buffer that gives up its oldest element keeps the last ones. -/
theorem rtake_concat {α : Type} {cap : Nat} (xs : List α) (a : α) (hcap : 0 < cap) :
    (if (xs.rtake cap).length < cap then xs.rtake cap ++ [a] else (xs.rtake cap).tail ++ [a])
      = (xs ++ [a]).rtake cap := by
  have hwhole : (xs ++ [a]).rtake cap = xs.drop (xs.length + 1 - cap) ++ [a] := by
    rw [List.rtake, List.length_append, List.length_singleton, List.drop_append_of_le_length]
    omega
  rw [hwhole, List.rtake, List.length_drop, List.tail_drop]
  by_cases hroom : xs.length < cap
  · rw [if_pos (by omega), Nat.sub_eq_zero_of_le (Nat.le_of_lt hroom), Nat.sub_eq_zero_of_le hroom]
  · rw [if_neg (by omega), Nat.sub_add_comm (Nat.le_of_not_lt hroom)]

/-- The first `n` passes stay inside the payload. -/
def Fits (type : IqType) (n : Nat) (payload : List UInt8) : Prop :=
  n = 0 ∨ stride type * (n - 1) + reach type ≤ payload.length

/-- What the loop has done after `n` passes. -/
structure Passed (type : IqType) (payload : List UInt8) (iqData : IqT) (buffer : RbufT IqT)
    (q : List IqT) (n : Nat) (s : (Nat × IqT) × RbufT IqT × List IqT) : Prop where
  pos : s.1.1 = stride type * n
  kept : type = .pt8 → s.1.2.q = iqData.q
  count : s.2.2.length = n
  values : ∀ i sample, s.2.2[i]? = some sample → values type sample
    = passValues type ((payload.drop (stride type * i)).take (stride type)) iqData
  max : s.2.1.max = buffer.max
  queue : Represents s.2.1 ((q ++ s.2.2).rtake (buffer.max.toNat - 1))

theorem passValues_kept {iq : IqT} (bs : List UInt8) (h : type = .pt8 → iq.q = iqData.q) :
    passValues type bs iq = passValues type bs iqData := by
  cases type with
  | pt8 => rw [passValues, passValues, h rfl]
  | pt16 => rfl
  | pt24 => rfl
  | pt32 => rfl

theorem passed_zero (h : Represents buffer q) :
    Passed type payload iqData buffer q 0 ((0, iqData), buffer, []) where
  pos := (Nat.mul_zero _).symm
  kept := fun _ => rfl
  count := rfl
  values := by
    intro i sample hsome
    cases hsome
  max := rfl
  queue := by
    have hfits := h.fits
    rw [List.append_nil, List.rtake, Nat.sub_eq_zero_of_le (by omega)]
    exact h

/-- One pass more, which must stay inside the payload. -/
theorem receiveSample_passed {n : Nat} {s : (Nat × IqT) × RbufT IqT × List IqT}
    (h : Passed type payload iqData buffer q n s)
    (hinside : stride type * n + reach type ≤ payload.length) :
    ∃ s', receiveSample type payload s = .ok s' ∧
      Passed type payload iqData buffer q (n + 1) s' := by
  obtain ⟨⟨pos, iq⟩, buffer', samples⟩ := s
  obtain ⟨hpos, hkept, hcount, hvalues, hmax, hqueue⟩ := h
  obtain rfl : pos = stride type * n := hpos
  obtain ⟨iq', hread, hnew, hq⟩ := readSample_inside iq hinside
  obtain ⟨buffer'', hput, hmax', hrep⟩ := rbufPut_ok hqueue iq'
  have hone : 0 < buffer.max.toNat - 1 := by
    have := hqueue.one_lt
    rw [hmax] at this
    omega
  rw [hmax, rtake_concat _ _ hone, List.append_assoc] at hrep
  refine ⟨_, by rw [receiveSample, bind_of_ok hread, bind_of_ok hput], ?_, ?_, ?_, ?_, ?_, hrep⟩
  · exact (Nat.mul_succ _ _).symm
  · exact fun htype => (hq htype).trans (hkept htype)
  · rw [List.length_append, hcount]
    rfl
  · intro i sample hsome
    by_cases hi : i < samples.length
    · rw [List.getElem?_append_left hi] at hsome
      exact hvalues i sample hsome
    · rw [List.getElem?_append_right (Nat.le_of_not_lt hi), List.getElem?_singleton] at hsome
      split at hsome
      · obtain rfl := Option.some.inj hsome
        rw [show i = n from by change samples.length = n at hcount; omega, hnew,
          passValues_kept _ hkept]
      · cases hsome
  · exact hmax'.trans hmax

theorem receiveLoop_outcome (type : IqType) (payload : List UInt8) (iqData : IqT)
    (h : Represents buffer q) (n : Nat) :
    (Fits type n payload → ∃ s, forUp (fun _ s => receiveSample type payload s) n
        ((0, iqData), buffer, []) = .ok s ∧ Passed type payload iqData buffer q n s) ∧
      (¬ Fits type n payload → forUp (fun _ s => receiveSample type payload s) n
        ((0, iqData), buffer, []) = .error .bounds) := by
  induction n with
  | zero => exact ⟨fun _ => ⟨_, rfl, passed_zero h⟩, fun hnot => absurd (.inl rfl) hnot⟩
  | succ n ih =>
    have hsucc : Fits type (n + 1) payload ↔ stride type * n + reach type ≤ payload.length :=
      or_iff_right (Nat.succ_ne_zero n)
    rw [hsucc]
    by_cases hfits : Fits type n payload
    · obtain ⟨s, hrun, hpassed⟩ := ih.1 hfits
      rw [forUp_succ, bind_of_ok hrun]
      refine ⟨receiveSample_passed hpassed, fun hnot => ?_⟩
      have hfault := readSample_fault s.1.2 (show payload.length < s.1.1 + reach type by
        rw [hpassed.pos]
        omega)
      rw [receiveSample, hfault, error_bind]
    · rw [forUp_succ, ih.2 hfits, error_bind]
      refine ⟨fun hinside => absurd (.inr ?_) hfits, fun _ => rfl⟩
      have hle := Nat.mul_le_mul_left (stride type) (Nat.sub_le n 1)
      omega

/-! ## A datagram -/

/-- The passes for a datagram end inside the array. -/
def StaysInside (type : IqType) (packetLen headerSize : Nat) : Prop :=
  packetLen ≤ headerSize ∨
    headerSize + stride type * (packetLen - headerSize - 1) + reach type ≤ RTP_PACKET_LENGTH

instance (type : IqType) (packetLen headerSize : Nat) :
    Decidable (StaysInside type packetLen headerSize) := inferInstanceAs (Decidable (_ ∨ _))

/-- A call that puts `n` samples behind those of the buffer, each from the bytes of its own pass,
and keeps as many as the buffer takes. -/
structure Takes (session : SessionIq) (headerSize n : Nat) (data : List UInt8) (iqData : IqT)
    (q : List IqT) (r : Received) : Prop where
  result : r.result = RTP_SDR_OK
  others : r.session = { session with rxHeader := .null, rxIqBuffer := r.session.rxIqBuffer }
  count : r.samples.length = n
  values : ∀ i sample, r.samples[i]? = some sample → values session.rxType sample
    = passValues session.rxType ((data.drop (headerSize + stride session.rxType * i)).take
      (stride session.rxType)) iqData
  queue : Represents r.session.rxIqBuffer
    ((q ++ r.samples).rtake (session.rxIqBuffer.max.toNat - 1))

variable {session : SessionIq} {data : List UInt8} {packetLen : Nat} {header : RtpHeader}

theorem headerSize_le (hdata : packetLen ≤ data.length)
    (hparse : rtpHeaderParse rtpHeaderCreate data packetLen = .ok (RTP_OK, header)) :
    rtpHeaderSize header ≤ data.length := by
  obtain ⟨-, haccepted, hparsed⟩ := parsed_of_accept hdata hparse
  have hneeded := haccepted.2
  rw [← hparsed.consumed_eq, consumed] at hneeded
  rw [hparsed.size_eq]
  by_cases hx : header.x ≠ 0
  · rw [if_pos hx] at hneeded
    split
    · exact hneeded
    · omega
  · rw [if_neg hx] at hneeded
    rw [if_neg fun h => hx h.1]
    exact hneeded

theorem staysInside_iff {headerSize : Nat} (type : IqType) (hdata : data.length = RTP_PACKET_LENGTH)
    (hsize : headerSize ≤ data.length) :
    StaysInside type packetLen headerSize ↔
      Fits type (packetLen - headerSize) (data.drop headerSize) := by
  have hreach : 0 < reach type := by cases type <;> decide
  rw [StaysInside, Fits, List.length_drop, hdata, Nat.sub_eq_zero_iff_le]
  rw [hdata] at hsize
  exact or_congr_right (by omega)

/-- Of a datagram with a header that the parser accepts, a call takes as many samples as there are
bytes behind the header, or reads on behind the array. -/
theorem receive_outcome (iqData : IqT) (hbuffer : Represents session.rxIqBuffer q)
    (hdata : data.length = RTP_PACKET_LENGTH) (hfits : packetLen ≤ RTP_PACKET_LENGTH)
    (hparse : rtpHeaderParse rtpHeaderCreate data packetLen = .ok (RTP_OK, header)) :
    (StaysInside session.rxType packetLen (rtpHeaderSize header) →
      ∃ r, rcpIqReceive session packetLen data iqData = .ok r ∧
        Takes session (rtpHeaderSize header) (packetLen - rtpHeaderSize header) data iqData q r) ∧
    (¬ StaysInside session.rxType packetLen (rtpHeaderSize header) →
      rcpIqReceive session packetLen data iqData = .error .bounds) := by
  have hsize := headerSize_le (by omega) hparse
  have hint : rtpHeaderSize header < 2 ^ 31 :=
    Nat.lt_of_le_of_lt hsize (by rw [hdata]; decide)
  have hcount : ((packetLen : Int) - castInt (rtpHeaderSize header)).toNat
      = packetLen - rtpHeaderSize header := by
    rw [castInt_of_lt hint]
    omega
  obtain ⟨hgo, hstop⟩ := receiveLoop_outcome session.rxType (data.drop (rtpHeaderSize header))
    iqData hbuffer (packetLen - rtpHeaderSize header)
  rw [staysInside_iff session.rxType hdata hsize, rcpIqReceive, if_neg (by omega),
    Int.toNat_natCast, bind_of_ok hparse]
  dsimp only
  rw [if_neg (by decide), hcount, castInt_of_lt hint, Int.toNat_natCast]
  constructor
  · intro hinside
    obtain ⟨s, hloop, hpassed⟩ := hgo hinside
    refine ⟨_, by rw [bind_of_ok hloop], rfl, rfl, hpassed.count, ?_, hpassed.queue⟩
    intro i sample hsome
    rw [hpassed.values i sample hsome, List.drop_drop]
  · intro hnot
    rw [hstop hnot, error_bind]

/-- A call stays inside its array exactly where the passes for the datagram do; it returns then,
and the ring buffer holds the last of its samples and of the new ones. -/
theorem receive_inside_iff (iqData : IqT) (hbuffer : Represents session.rxIqBuffer q)
    (hdata : data.length = RTP_PACKET_LENGTH) (hfits : packetLen ≤ RTP_PACKET_LENGTH)
    (hparse : rtpHeaderParse rtpHeaderCreate data packetLen = .ok (RTP_OK, header)) :
    ((∃ r, rcpIqReceive session packetLen data iqData = .ok r) ↔
      StaysInside session.rxType packetLen (rtpHeaderSize header)) ∧
    ∀ r, rcpIqReceive session packetLen data iqData = .ok r →
      Takes session (rtpHeaderSize header) (packetLen - rtpHeaderSize header) data iqData q r := by
  obtain ⟨hgo, hstop⟩ := receive_outcome iqData hbuffer hdata hfits hparse
  have hiff : (∃ r, rcpIqReceive session packetLen data iqData = .ok r) ↔
      StaysInside session.rxType packetLen (rtpHeaderSize header) :=
    exists_ok_iff (fun hinside => (hgo hinside).imp fun _ h => h.1) fun hnot => ⟨_, hstop hnot⟩
  refine ⟨hiff, fun r hrun => ?_⟩
  obtain ⟨r', hrun', htakes⟩ := hgo (hiff.mp ⟨r, hrun⟩)
  obtain rfl := Except.ok.inj (hrun'.symm.trans hrun)
  exact htakes

/-- Two bytes behind a header, where each sample has four: one sample of the datagram and of the
array behind it, and another of the array. -/
theorem receive_inside_iff_plainData :
    ((∃ r, rcpIqReceive (supplied .pt16) 14 plainData ⟨0, 0⟩ = .ok r) ↔ StaysInside .pt16 14 12) ∧
    ∀ r, rcpIqReceive (supplied .pt16) 14 plainData ⟨0, 0⟩ = .ok r →
      Takes (supplied .pt16) 12 2 plainData ⟨0, 0⟩ [] r := by
  have hbuffer : Represents (supplied .pt16).rxIqBuffer [] :=
    ⟨by decide, by decide, by decide, by decide, by decide, nofun⟩
  exact receive_inside_iff ⟨0, 0⟩ hbuffer length_plainData (by decide) (parse_plainData (by decide))

/-! ## What the other end sends -/

/-- A datagram that fills the array and has a header of less than a third of it. -/
structure FillsArray (datagram : List UInt8) : Prop where
  length : datagram.length = RTP_PACKET_LENGTH
  header : ∃ header, rtpHeaderParse rtpHeaderCreate datagram RTP_PACKET_LENGTH
    = .ok (RTP_OK, header) ∧ rtpHeaderSize header ≤ 1096

/-- What the parser accepts of the header of a session. -/
def Readable (c : Content) : Prop :=
  c.csrc.length ≤ 7 ∧ ¬ (71 < c.pt.toNat ∧ c.pt.toNat < 96)

variable {c : Content}

theorem length_payloadBytes (type : IqType) (iqs : List IqT) (zs : List UInt8) :
    (payloadBytes type iqs zs).length = stride type * iqs.length := by
  induction iqs generalizing zs with
  | nil => rfl
  | cons iq iqs ih =>
    rw [payloadBytes, List.length_append, length_sampleBytes, ih, List.length_cons, Nat.mul_succ,
      Nat.add_comm]

theorem sampleCount_le (type : IqType) : sampleCount type ≤ 2 := by
  cases type <;> decide

theorem fillsArray_datagramOf (h : CanSend session c) (hreadable : Readable c)
    (hq : 2 ≤ q.length) (hdata : data.length = RTP_PACKET_LENGTH) :
    FillsArray (datagramOf session c q data) := by
  have hsize := h.size_le
  have hwritten := written_le session.txType
  have hcount := sampleCount_le session.txType
  constructor
  · rw [datagramOf, List.length_append, List.length_append, length_encode, length_payloadBytes,
      List.length_take, List.length_drop, hdata, Nat.min_eq_left (by omega)]
    change c.size + written session.txType
      + (RTP_PACKET_LENGTH - (c.size + written session.txType)) = _
    rw [RTP_PACKET_LENGTH]
    omega
  · obtain ⟨header, hparse, hholds⟩ := rtpHeaderParse_encode h.next.shows hreadable.2 hreadable.1
      (payloadBytes session.txType (q.take (sampleCount session.txType)) []
        ++ data.drop (c.size + written session.txType)) RTP_PACKET_LENGTH (by decide)
    rw [← List.append_assoc] at hparse
    refine ⟨header, hparse, ?_⟩
    rw [hholds.size_eq]
    exact hsize

/-- Whatever type the receiver expects, the passes for such a datagram leave the array. -/
theorem receive_fillsArray {datagram : List UInt8} (h : FillsArray datagram)
    (hbuffer : Represents session.rxIqBuffer q) (iqData : IqT) :
    rcpIqReceive session RTP_PACKET_LENGTH datagram iqData = .error .bounds := by
  obtain ⟨hlen, header, hparse, hsize⟩ := h
  refine (receive_outcome iqData hbuffer hlen (Nat.le_refl _) hparse).2 ?_
  have hstride := stride_pos session.rxType
  have hmul := Nat.mul_le_mul_right (RTP_PACKET_LENGTH - rtpHeaderSize header - 1) hstride
  rw [StaysInside, RTP_PACKET_LENGTH]
  rw [RTP_PACKET_LENGTH] at hmul
  omega

/-! ## Runs -/

/-- The session can send what the parser reads, and all that is on the wire fills an array. -/
structure Floods (s : SessionIq × Trace) : Prop where
  canSend : ∃ c, CanSend s.1 c ∧ Readable c
  buffer : ∃ q, Represents s.1.txIqBuffer q
  wire : ∀ datagram ∈ s.2.wire, FillsArray datagram

/-- A call that changes the buffer only. -/
theorem floods_buffer {s : SessionIq × Trace} {buffer : RbufT IqT} (h : Floods s)
    (hbuffer : Represents buffer q) :
    Floods ({ s.1 with txIqBuffer := buffer }, s.2) where
  canSend := h.canSend.imp fun _ hc => ⟨⟨hc.1.shows, hc.1.ext⟩, hc.2⟩
  buffer := ⟨q, hbuffer⟩
  wire := h.wire

theorem act_floods {s : SessionIq × Trace} (h : Floods s) (a : Action) :
    ∃ s', act 256 s a = .ok s' ∧ Floods s' := by
  obtain ⟨c, hc, hreadable⟩ := h.canSend
  obtain ⟨q, hq⟩ := h.buffer
  cases a with
  | put data =>
    obtain ⟨buffer, hput, -, hrep⟩ := rbufPut_ok hq data
    have hfloods := floods_buffer h hrep
    exact ⟨_, by rw [act, bind_of_ok hput], hfloods⟩
  | tryPut data =>
    by_cases hroom : q.length < s.1.txIqBuffer.max.toNat - 1
    · have hfloods := floods_buffer h (represents_push hq hroom data)
      refine ⟨_, ?_, hfloods⟩
      rw [act, bind_of_ok (rbufTryPut_ok hq hroom data)]
    · have hfloods := floods_buffer h hq
      refine ⟨_, ?_, hfloods⟩
      rw [act, bind_of_ok (rbufTryPut_full hq hroom data)]
  | transmit data iqFrame sent =>
    by_cases hfed : 2 ≤ q.length
    · have hrun := rcpIqTransmit_sends hc hq hfed data.length_toList iqFrame.length_toList sent
      refine ⟨(withHeader s.1 (nextHeader s.1),
        { s.2 with wire := s.2.wire ++ [datagramOf s.1 c q data.toList] }),
        by rw [act, bind_of_ok hrun], ⟨_, hc.next, hreadable⟩, ⟨q, hq⟩, ?_⟩
      intro datagram hin
      rcases List.mem_append.mp hin with hin | hin
      · exact h.wire datagram hin
      · rw [List.mem_singleton.mp hin]
        exact fillsArray_datagramOf hc hreadable hfed data.length_toList
    · have hrun := rcpIqTransmit_refused hc hq (Nat.lt_of_not_le hfed) data.length_toList
        iqFrame.toList sent
      exact ⟨(withHeader s.1 (nextHeader s.1),
        { s.2 with refused := s.2.refused ++ [(s.1.txHeader, nextHeader s.1)] }),
        by rw [act, bind_of_ok hrun]; rfl, ⟨_, hc.next, hreadable⟩, ⟨q, hq⟩, h.wire⟩

theorem run_floods {s : SessionIq × Trace} (h : Floods s) (actions : List Action) :
    ∃ s', runAll (act 256) s actions = .ok s' ∧ Floods s' := by
  induction actions generalizing s with
  | nil => exact ⟨s, rfl, h⟩
  | cons a actions ih =>
    obtain ⟨t, hact, hfloods⟩ := act_floods h a
    obtain ⟨s', hrun, hfloods'⟩ := ih hfloods
    exact ⟨s', by rw [runAll_cons, bind_of_ok hact, hrun], hfloods'⟩

/-- No datagram that a session sends in any run can be received: every call on one, for any type
and any state of the receiver's buffer, reads on behind its array. -/
theorem sent_overruns (h : CanSend session c) (hreadable : Readable c)
    (hbuffer : Represents session.txIqBuffer q) (actions : List Action) :
    ∃ s, runAll (act 256) (session, ⟨[], []⟩) actions = .ok s ∧
      ∀ datagram ∈ s.2.wire, ∀ (receiver : SessionIq) (q' : List IqT) (iqData : IqT),
        Represents receiver.rxIqBuffer q' →
        rcpIqReceive receiver datagram.length datagram iqData = .error .bounds := by
  have hfloods : Floods (session, ⟨[], []⟩) := ⟨⟨c, h, hreadable⟩, ⟨q, hbuffer⟩, nofun⟩
  obtain ⟨s, hrun, hfloods'⟩ := run_floods hfloods actions
  refine ⟨s, hrun, fun datagram hin receiver q' iqData hq' => ?_⟩
  have hfills := hfloods'.wire datagram hin
  rw [hfills.length]
  exact receive_fillsArray hfills hq' iqData

theorem sent_overruns_twice :
    ∃ s, runAll (act 256) (drained .pt16, ⟨[], []⟩) [.put ⟨5, 6⟩, .put ⟨7, 8⟩,
        .transmit (.replicate _ 0) (.replicate _ ⟨0, 0⟩) 4096, .put ⟨9, 10⟩,
        .transmit (.replicate _ 0) (.replicate _ ⟨0, 0⟩) 4096] = .ok s ∧
      ∀ datagram ∈ s.2.wire, ∀ (receiver : SessionIq) (q' : List IqT) (iqData : IqT),
        Represents receiver.rxIqBuffer q' →
        rcpIqReceive receiver datagram.length datagram iqData = .error .bounds := by
  obtain ⟨c, hholds, hcsrc, hext⟩ := plain_init .pt16 1 2 3
  have hsend : CanSend (drained .pt16) c :=
    ⟨shows_of_holds hholds, fun id ws he => absurd (hext.symm.trans he) (by simp)⟩
  refine sent_overruns hsend ⟨by rw [hcsrc]; decide, ?_⟩
    (represents_reset (supplied_represents .pt16)) _
  rw [← hholds.pt]
  decide

end RtpSdr.Sdr.Overrun
