import RtpSdr.Rtp.HeaderBoundary
import RtpSdr.Sdr.Datagram

/-!
# Receiving samples: `rcp_iq_receive`

The loops of the four types count the bytes of the payload and read a whole sample in each pass.
They end in time only where there is no payload.
-/
namespace RtpSdr.Sdr.Receive

open RtpSdr.Lib.Checked
open RtpSdr.Lib.Memory
open RtpSdr.Lib.BigEndian
open RtpSdr.Rtp.Util
open RtpSdr.Rtp.Header
open RtpSdr.Rtp.HeaderAccept
open RtpSdr.Rtp.HeaderBoundary
open RtpSdr.Sdr.Rbuf
open RtpSdr.Sdr.Iq
open RtpSdr.Sdr.Transmit
open RtpSdr.Sdr.Datagram

/-- The code -2 in a `uint8_t`. -/
def RTP_SDR_WARNING : UInt8 := 254

/-- What a call does: its result, the session, and the samples it put into the buffer. -/
structure Received where
  result : UInt8
  session : SessionIq
  samples : List IqT

section Source

/-- One pass of the loop of a type: `pos` and `iq_data`, the ring buffer and the samples put. -/
def receiveSample (type : IqType) (payload : List UInt8)
    (s : (Nat × IqT) × RbufT IqT × List IqT) : Exec ((Nat × IqT) × RbufT IqT × List IqT) := do
  let t ← readSample type payload s.1
  let rxIqBuffer ← rbufPut s.2.1 t.2
  .ok (t, rxIqBuffer, s.2.2 ++ [t.2])

/-- `packetLen` is the result of `rtp_socket_recv`, `data` what the local array holds then and
`iqData` what `iq_data` holds. The header is freed at the end. -/
def rcpIqReceive (session : SessionIq) (packetLen : Int) (data : List UInt8) (iqData : IqT) :
    Exec Received :=
  if packetLen < 0 then .ok ⟨RTP_SDR_WARNING, session, []⟩
  else do
    let (r, header) ← rtpHeaderParse rtpHeaderCreate data packetLen.toNat
    if r < 0 then .ok ⟨RTP_SDR_WARNING, { session with rxHeader := .obj header }, []⟩
    else do
      let headerSize := castInt (rtpHeaderSize header)
      let payload := data.drop headerSize.toNat
      let payloadSize := packetLen - headerSize
      let (_, rxIqBuffer, samples) ← forUp (fun _ s => receiveSample session.rxType payload s)
        payloadSize.toNat ((0, iqData), session.rxIqBuffer, [])
      .ok ⟨RTP_SDR_OK, { session with rxHeader := .null, rxIqBuffer := rxIqBuffer }, samples⟩

end Source

/-! ## What a datagram says -/

/-- The number that big-endian bytes stand for in two's complement. -/
def signed (bs : List UInt8) : Int := (BitVec.ofNat (8 * bs.length) (value bs)).toInt

/-- The two numbers in the bytes of a sample; a component of 24 bits has a byte to spare. -/
def ownValues (type : IqType) (bs : List UInt8) : Int × Int :=
  (signed (bs.take (type.bits / 8)), signed ((bs.drop (stride type / 2)).take (type.bits / 8)))

example : ownValues .pt24 [0xff, 0xff, 0xfe, 0, 0, 1, 0, 9] = (-2, 256) := by decide

/-- The call reads none of the array behind the datagram, and puts as many samples into the buffer
as the payload has, each with the numbers of its own bytes. -/
structure Decodes (session : SessionIq) (packetLen headerSize : Nat) (data : List UInt8)
    (iqData : IqT) : Prop where
  inside : ∃ r, rcpIqReceive session packetLen (data.take packetLen) iqData = .ok r
  decoded : ∃ r, rcpIqReceive session packetLen data iqData = .ok r ∧
    r.samples.length = (packetLen - headerSize) / stride session.rxType ∧
    runAll rbufPut session.rxIqBuffer r.samples = .ok r.session.rxIqBuffer ∧
    ∀ i sample, r.samples[i]? = some sample → values session.rxType sample
      = ownValues session.rxType ((data.drop (headerSize + stride session.rxType * i)).take
        (stride session.rxType))

variable {session : SessionIq} {data : List UInt8} {iqData : IqT} {packetLen : Nat}
  {header : RtpHeader}

/-! ## The header in the array and in the datagram -/

/-- The parser looks at the length only to see whether there is a fixed part. -/
theorem parsed_of_accept (hdata : packetLen ≤ data.length)
    (hparse : rtpHeaderParse rtpHeaderCreate data packetLen = .ok (RTP_OK, header)) :
    12 ≤ packetLen ∧ Accepted data ∧ Parsed data header := by
  have hlen : 12 ≤ packetLen := by
    by_contra hshort
    rw [rtpHeaderParse, if_pos (Nat.lt_of_not_le hshort)] at hparse
    have hcode : RTP_ERROR = RTP_OK := congrArg Prod.fst (Except.ok.inj hparse)
    exact absurd hcode (by decide)
  obtain ⟨b0, b1, seq, ts, ssrc, rest, hbuffer⟩ := exists_fixed (Nat.le_trans hlen hdata)
  obtain ⟨hgo, hstop⟩ := rtpHeaderParse_fixed hbuffer hlen
  have hannounced : Announced b0 b1 := by
    by_contra hnot
    obtain ⟨header', herror⟩ := hstop hnot
    have hcode : RTP_ERROR = RTP_OK :=
      congrArg Prod.fst (Except.ok.inj (herror.symm.trans hparse))
    exact absurd hcode (by decide)
  refine ⟨hlen, parsed_of_run ?_⟩
  rw [(rtpHeaderParse_fixed hbuffer (Nat.le_trans hlen hdata)).1 hannounced, ← hgo hannounced,
    hparse]

theorem byteAt_take {i : Nat} (h : i < packetLen) :
    byteAt (data.take packetLen) i = byteAt data i := by
  rw [byteAt, byteAt, List.getD_eq_getElem?_getD, List.getElem?_take_of_lt h,
    List.getD_eq_getElem?_getD]

theorem extWords_take {cc : Nat} (h : 12 + 4 * cc + 4 ≤ packetLen) :
    extWords (data.take packetLen) cc = extWords data cc := by
  rw [extWords, List.drop_take, List.take_take, Nat.min_eq_left (by omega), extWords]

theorem fixedPart_take (hdata : packetLen ≤ data.length) (hlen : 12 ≤ packetLen)
    (h : FixedPart data) : FixedPart (data.take packetLen) := by
  refine ⟨by rw [List.length_take]; omega, ?_⟩
  rw [byteAt_take (by omega), byteAt_take (by omega)]
  exact h.2

/-- A header that lies in the datagram is parsed there too. -/
theorem parse_take (hdata : packetLen ≤ data.length) (haccepted : Accepted data)
    (hneeded : needed data (byteAt data 0 % 8) ≤ packetLen) :
    ∃ header', rtpHeaderParse rtpHeaderCreate (data.take packetLen) packetLen
        = .ok (RTP_OK, header') ∧
      Parsed (data.take packetLen) header' ∧
      needed (data.take packetLen) (byteAt (data.take packetLen) 0 % 8) =
        needed data (byteAt data 0 % 8) := by
  have hle : 12 + 4 * (byteAt data 0 % 8) ≤ packetLen := Nat.le_trans (Nat.le_add_right _ _) hneeded
  have hlength : (data.take packetLen).length = packetLen := by
    rw [List.length_take, Nat.min_eq_left hdata]
  have h0 : byteAt (data.take packetLen) 0 = byteAt data 0 := byteAt_take (by omega)
  have hsame : needed (data.take packetLen) (byteAt data 0 % 8)
      = needed data (byteAt data 0 % 8) := by
    rw [needed] at hneeded
    rw [needed, needed, h0]
    by_cases hx : byteAt data 0 / 16 % 2 = 1
    · rw [if_pos hx] at hneeded
      rw [if_pos hx, if_pos hx, extWords_take (by omega)]
    · rw [if_neg hx, if_neg hx]
  have hfixed := fixedPart_take hdata (by omega) haccepted.1
  obtain ⟨header', hrun⟩ := accepted_parses
    (show Accepted (data.take packetLen) from
      ⟨hfixed, by rw [h0, hsame, hlength]; exact hneeded⟩)
  have hparsed := (parsed_of_run hrun).2
  rw [hlength] at hrun
  exact ⟨header', hrun, hparsed, by rw [h0, hsame]⟩

/-- The parser gets to an extension, empty or not. -/
theorem needed_extended (cc : Nat) (hx : byteAt data 0 / 16 % 2 = 1) :
    12 + 4 * cc + 4 ≤ needed data cc := by
  rw [needed, if_pos hx]
  omega

/-! ## The loop -/

theorem receiveLoop_count {type : IqType} {payload : List UInt8} {n : Nat}
    {s s' : (Nat × IqT) × RbufT IqT × List IqT} (hnil : s.2.2 = [])
    (hrun : forUp (fun _ s => receiveSample type payload s) n s = .ok s') : s'.2.2.length = n := by
  refine forUp_returns (I := fun i t => t.2.2.length = i) (by rw [hnil]; rfl) ?_ hrun
  intro i t u _ hlen hpass
  obtain ⟨sample, -, hpass⟩ := bind_eq_ok.mp hpass
  obtain ⟨buffer, -, hpass⟩ := bind_eq_ok.mp hpass
  cases hpass
  rw [List.length_append, hlen]
  rfl

/-- Each byte behind the header is a pass, and each pass puts a sample. -/
theorem rcpIqReceive_count {r : Received} (hfits : packetLen < 2 ^ 31)
    (hparse : rtpHeaderParse rtpHeaderCreate data packetLen = .ok (RTP_OK, header))
    (hsize : rtpHeaderSize header ≤ packetLen)
    (hrun : rcpIqReceive session packetLen data iqData = .ok r) :
    r.samples.length = packetLen - rtpHeaderSize header := by
  rw [rcpIqReceive, if_neg (by omega), Int.toNat_natCast, bind_of_ok hparse] at hrun
  dsimp only at hrun
  rw [if_neg (by decide), castInt_of_lt (by omega), Int.toNat_natCast] at hrun
  obtain ⟨s, hloop, hret⟩ := bind_eq_ok.mp hrun
  cases hret
  have hcount := receiveLoop_count rfl hloop
  change s.2.2.length = _
  omega

/-- A datagram that ends with its header puts nothing into the buffer. -/
theorem rcpIqReceive_headerOnly (hfits : packetLen < 2 ^ 31)
    (hparse : rtpHeaderParse rtpHeaderCreate data packetLen = .ok (RTP_OK, header))
    (hsize : packetLen = rtpHeaderSize header) (session : SessionIq) (iqData : IqT) :
    rcpIqReceive session packetLen data iqData
      = .ok ⟨RTP_SDR_OK, { session with rxHeader := .null }, []⟩ := by
  rw [rcpIqReceive, if_neg (by omega), Int.toNat_natCast, bind_of_ok hparse]
  dsimp only
  rw [if_neg (by decide), ← hsize, castInt_of_lt hfits, Int.sub_self]
  rfl

/-! ## Decoding -/

theorem stride_pos (type : IqType) : 2 ≤ stride type := by
  cases type <;> decide

/-- What the array decodes to if the datagram is its header, which lies inside. -/
theorem decodes_headerOnly (hdata : packetLen ≤ data.length) (hfits : packetLen < 2 ^ 31)
    (hparse : rtpHeaderParse rtpHeaderCreate data packetLen = .ok (RTP_OK, header))
    (hsize : packetLen = rtpHeaderSize header) (hext : ¬ EmptyExtension data)
    (session : SessionIq) (iqData : IqT) :
    Decodes session packetLen (rtpHeaderSize header) data iqData := by
  obtain ⟨hlen, haccepted, hparsed⟩ := parsed_of_accept hdata hparse
  have hneeded : needed data (byteAt data 0 % 8) = packetLen := by
    rw [← hparsed.consumed_eq, ← hparsed.size_eq_consumed_iff.mpr hext, hsize]
  obtain ⟨header', hparse', hparsed', hsame⟩ :=
    parse_take hdata haccepted (Nat.le_of_eq hneeded)
  constructor
  · have hsize' : packetLen = rtpHeaderSize header' := by
      rw [hparsed'.size_eq_consumed_iff.mpr ?_, hparsed'.consumed_eq, hsame, hneeded]
      rintro ⟨hx, hnone⟩
      have h0 : byteAt (data.take packetLen) 0 = byteAt data 0 := byteAt_take (by omega)
      rw [h0] at hx hnone
      have hle : 12 + 4 * (byteAt data 0 % 8) + 4 ≤ packetLen :=
        Nat.le_trans (needed_extended _ hx) (Nat.le_of_eq hneeded)
      exact hext ⟨hx, (extWords_take hle).symm.trans hnone⟩
    exact ⟨_, rcpIqReceive_headerOnly hfits hparse' hsize' session iqData⟩
  · refine ⟨_, rcpIqReceive_headerOnly hfits hparse hsize session iqData, ?_, rfl, ?_⟩
    · rw [← hsize, Nat.sub_self, Nat.zero_div]
      rfl
    · intro i sample hsome
      cases hsome

theorem emptyExtension_iff (h : Parsed data header) :
    EmptyExtension data ↔ header.x ≠ 0 ∧ header.extCount = 0 := by
  constructor
  · intro hempty
    have hx := h.x.mpr hempty.1
    exact ⟨hx, (h.extCount_eq_zero hx).mpr hempty⟩
  · rintro ⟨hx, hcount⟩
    exact (h.extCount_eq_zero hx).mp hcount

/-- A payload of any length takes more passes than it has samples, and an extension without words
is read behind the datagram. -/
theorem headerOnly_of_decodes (hdata : packetLen ≤ data.length) (hfits : packetLen < 2 ^ 31)
    (hparse : rtpHeaderParse rtpHeaderCreate data packetLen = .ok (RTP_OK, header))
    (hsize : rtpHeaderSize header ≤ packetLen)
    (h : Decodes session packetLen (rtpHeaderSize header) data iqData) :
    packetLen = rtpHeaderSize header ∧ ¬ EmptyExtension data := by
  obtain ⟨hlen, haccepted, hparsed⟩ := parsed_of_accept hdata hparse
  obtain ⟨⟨r, hinside⟩, r', hrun, hsamples, -, -⟩ := h
  have hcount := rcpIqReceive_count hfits hparse hsize hrun
  have heq : packetLen = rtpHeaderSize header := by
    have hhalf := Nat.div_le_div_left (stride_pos session.rxType) (by decide)
      (a := packetLen - rtpHeaderSize header)
    omega
  refine ⟨heq, fun hempty => ?_⟩
  have hlength : (data.take packetLen).length = packetLen := by
    rw [List.length_take, Nat.min_eq_left hdata]
  have h0 : byteAt (data.take packetLen) 0 = byteAt data 0 := byteAt_take (by omega)
  obtain ⟨hx, hnone⟩ := (emptyExtension_iff hparsed).mp hempty
  have hshort : packetLen = 12 + 4 * (byteAt data 0 % 8) := by
    rw [heq, hparsed.size_eq, if_neg (fun hboth => hboth.2 hnone), hparsed.cc, Nat.add_zero]
  have hbehind : (data.take packetLen).length
      < needed (data.take packetLen) (byteAt (data.take packetLen) 0 % 8) := by
    have hle := needed_extended (byteAt (data.take packetLen) 0 % 8)
      (show byteAt (data.take packetLen) 0 / 16 % 2 = 1 by rw [h0]; exact hempty.1)
    rw [h0] at hle ⊢
    omega
  have hfault := (rtpHeaderParse_outcome _).2.2 (fixedPart_take hdata hlen haccepted.1) hbehind
  rw [hlength] at hfault
  rw [rcpIqReceive, if_neg (by omega), Int.toNat_natCast, hfault] at hinside
  cases hinside

/-- A datagram that the parser accepts is decoded exactly when it ends with its header and has no
extension without words: there must be no payload. -/
theorem decodes_iff (session : SessionIq) (iqData : IqT) (hdata : data.length = RTP_PACKET_LENGTH)
    (hfits : packetLen ≤ RTP_PACKET_LENGTH)
    (hparse : rtpHeaderParse rtpHeaderCreate data packetLen = .ok (RTP_OK, header))
    (hsize : rtpHeaderSize header ≤ packetLen) :
    Decodes session packetLen (rtpHeaderSize header) data iqData ↔
      packetLen = rtpHeaderSize header ∧ ¬ (header.x ≠ 0 ∧ header.extCount = 0) := by
  have hle : packetLen ≤ data.length := by omega
  have hint : packetLen < 2 ^ 31 := Nat.lt_of_le_of_lt hfits (by decide)
  rw [← emptyExtension_iff (parsed_of_accept hle hparse).2.2]
  constructor
  · exact headerOnly_of_decodes hle hint hparse hsize
  · rintro ⟨heq, hext⟩
    exact decodes_headerOnly hle hint hparse heq hext session iqData

/-! ## A datagram in the array -/

/-- An array of zeros behind a header of twelve bytes. -/
def plainData : List UInt8 :=
  0x80 :: 0 :: (bytes 2 (0 : UInt16).toNat ++ (bytes 4 (0 : UInt32).toNat ++
    (bytes 4 (0 : UInt32).toNat ++ List.replicate 4084 0)))

theorem length_plainData : plainData.length = RTP_PACKET_LENGTH := by
  simp only [plainData, List.length_cons, List.length_append, length_bytes, List.length_replicate]
  rfl

theorem parse_plainData {n : Nat} (h : 12 ≤ n) : rtpHeaderParse rtpHeaderCreate plainData n
    = .ok (RTP_OK, fixedHeader 0x80 0 0 0 0) := by
  rw [plainData, (rtpHeaderParse_fixed rfl h).1 ⟨by decide, by decide⟩]
  rfl

/-- With four bytes of payload, one sample of 16 bits, nothing is decoded; without a payload the
datagram is. -/
theorem decodes_iff_plainData :
    ¬ Decodes (supplied .pt16) 16 12 plainData ⟨0, 0⟩ ∧
      Decodes (supplied .pt16) 12 12 plainData ⟨0, 0⟩ := by
  have hiff (packetLen : Nat) (hle : 12 ≤ packetLen) (hfits : packetLen ≤ RTP_PACKET_LENGTH) :=
    decodes_iff (supplied .pt16) ⟨0, 0⟩ length_plainData hfits (parse_plainData hle) hle
  constructor
  · intro h
    exact absurd ((hiff 16 (by decide) (by decide)).mp h).1 (by decide)
  · exact (hiff 12 (by decide) (by decide)).mpr ⟨rfl, fun hext => hext.1 rfl⟩

/-- One sample of 16 bits behind the header. -/
theorem decodes_fails :
    ¬ ∀ (session : SessionIq) (iqData : IqT) (data : List UInt8) (packetLen : Nat)
        (header : RtpHeader), data.length = RTP_PACKET_LENGTH → packetLen ≤ RTP_PACKET_LENGTH →
      rtpHeaderParse rtpHeaderCreate data packetLen = .ok (RTP_OK, header) →
      rtpHeaderSize header ≤ packetLen →
      Decodes session packetLen (rtpHeaderSize header) data iqData := by
  intro h
  have hparse := parse_plainData (show 12 ≤ 16 by decide)
  have hsize : rtpHeaderSize (fixedHeader 0x80 0 0 0 0) = 12 := rfl
  have hdecodes := h (supplied .pt16) ⟨0, 0⟩ plainData 16 _ length_plainData (by decide) hparse
    (by rw [hsize]; decide)
  have heq := (headerOnly_of_decodes (by rw [length_plainData]; decide) (by decide) hparse
    (by rw [hsize]; decide) hdecodes).1
  exact absurd heq (by rw [hsize]; decide)

end RtpSdr.Sdr.Receive
