import RtpSdr.Rtp.PacketOutput
import RtpSdr.Sdr.Transmit

/-!
# What a transmitted datagram says

`rcp_iq_transmit` hands the whole of its local array to the socket. It writes the header and
at most four bytes of samples there; the bytes behind them go out as they are. A header with an
extension of more than 255 words that fits into the array is never finished; one that does not fit
is not written at all, which the call does not ask.
-/
namespace RtpSdr.Sdr.Datagram

open RtpSdr.Lib.Checked
open RtpSdr.Lib.Memory
open RtpSdr.Rtp.Util
open RtpSdr.Rtp.Header
open RtpSdr.Rtp.HeaderEdit
open RtpSdr.Rtp.PacketOutput (normal rtpHeaderSize_normal rtpHeaderSerialize_normal)
open RtpSdr.Sdr.Rbuf
open RtpSdr.Sdr.Iq
open RtpSdr.Sdr.Transmit

/-- What the serializer writes of the header is `c`: its lists have the lengths that it counts. -/
def Shows (header : RtpHeader) (c : Content) : Prop := Holds (normal header) c

/-- The session's header shows `c`, and the loop over its extension ends. -/
structure CanSend (session : SessionIq) (c : Content) : Prop where
  shows : Shows session.txHeader c
  ext : ∀ id ws, c.ext = some (id, ws) → ws.length ≤ 255

/-- The words of the extension. -/
def extLength (c : Content) : Nat :=
  match c.ext with
  | none => 0
  | some (_, ws) => ws.length

/-- What the header of the next datagram says. -/
def nextContent (session : SessionIq) (c : Content) : Content :=
  { c with seq := (nextHeader session).seq, ts := (nextHeader session).ts }

variable {session : SessionIq} {c : Content} {q : List IqT} {data : List UInt8}
  {iqFrame : List IqT} {error : Int} {header : RtpHeader}

/-! ## What is written of a header -/

/-- A header that holds `c` shows it. -/
theorem shows_of_holds (h : Holds header c) : Shows header c := by
  have hkept : header.x = 0 ∨ header.extCount ≠ 0 → (normal header).x = header.x := by
    intro hx
    by_cases hcount : header.extCount = 0
    · rw [hx.resolve_right (not_not.mpr hcount)]
      exact if_pos hcount
    · exact if_neg hcount
  refine ⟨rfl, rfl, h.m, h.pt, h.seq, h.ts, h.ssrc, h.cc, h.csrc, fun hnone => ?_,
    fun id ws he => ?_⟩
  · rw [hkept (.inl (h.plain hnone)), h.plain hnone]
  · obtain ⟨hx, hid, hcount, hne, hdata⟩ := h.extended id ws he
    exact ⟨by rw [hkept (.inr (h.extCount_ne_zero he)), hx], hid, hcount, hne, hdata⟩

theorem Shows.size_eq (h : Shows header c) : rtpHeaderSize header = c.size := by
  rw [← rtpHeaderSize_normal]
  exact Holds.size_eq h

theorem shows_next (h : Shows session.txHeader c) :
    Shows (nextHeader session) (nextContent session c) := by
  obtain ⟨hversion, hp, hm, hpt, -, -, hssrc, hcc, hcsrc, hplain, hextended⟩ := h
  exact ⟨hversion, hp, hm, hpt, rfl, rfl, hssrc, hcc, hcsrc, hplain, hextended⟩

theorem CanSend.next (h : CanSend session c) :
    CanSend (withHeader session (nextHeader session)) (nextContent session c) :=
  ⟨shows_next h.shows, h.ext⟩

/-- A header that can be sent leaves most of the datagram to the samples. -/
theorem CanSend.size_le (h : CanSend session c) : c.size ≤ 1096 := by
  have hcsrc := Holds.csrc_le h.shows
  rw [Content.size]
  cases he : c.ext with
  | none =>
    rw [extBytes, List.length_nil]
    omega
  | some e =>
    have hcount := h.ext e.1 e.2 he
    rw [length_extBytes_some]
    omega

theorem canSend_of_le (h : Shows session.txHeader c) (hle : extLength c ≤ 255) :
    CanSend session c := by
  refine ⟨h, fun id ws he => ?_⟩
  rw [extLength, he] at hle
  exact hle

theorem CanSend.extLength_le (h : CanSend session c) : extLength c ≤ 255 := by
  rw [extLength]
  split
  · exact Nat.zero_le _
  · rename_i id ws he
    exact h.ext id ws he

/-- A header that does not fit into the array has a long extension. -/
theorem extLength_of_size (h : Shows session.txHeader c) (hsize : RTP_PACKET_LENGTH < c.size) :
    255 < extLength c := by
  by_contra hle
  have := (canSend_of_le h (Nat.le_of_not_lt hle)).size_le
  rw [RTP_PACKET_LENGTH] at hsize
  omega

theorem CanSend.serialize (h : CanSend session c) (hdata : data.length = RTP_PACKET_LENGTH) :
    rtpHeaderSerialize 256 (nextHeader session) data RTP_PACKET_LENGTH
      = .ok ((c.size : Int), encode (nextContent session c) ++ data.drop c.size) := by
  have hnext := h.next
  have hsize : (nextContent session c).size = c.size := rfl
  have hle : c.size ≤ RTP_PACKET_LENGTH := Nat.le_trans h.size_le (by decide)
  have hrun := rtpHeaderSerialize_ok hnext.shows hnext.ext data (hsize ▸ hle)
    (by rw [hsize, hdata]; exact hle)
  rw [rtpHeaderSerialize_normal, hsize, castInt_of_lt (by have := h.size_le; omega)] at hrun
  exact hrun

/-! ## One call -/

/-- With less than two samples nothing is handed to the socket. -/
theorem rcpIqTransmit_refused (h : CanSend session c) (hbuffer : Represents session.txIqBuffer q)
    (hq : q.length < 2) (hdata : data.length = RTP_PACKET_LENGTH) (iqFrame : List IqT)
    (error : Int) :
    rcpIqTransmit 256 session data iqFrame error
      = .ok ⟨RTP_SDR_ERROR, withHeader session (nextHeader session), [], none⟩ :=
  rcpIqTransmit_of_few (h.serialize hdata) hbuffer hq iqFrame error

/-- The samples of a call, and the bytes they take. -/
def sampleCount (type : IqType) : Nat := (packetLen type 2).toNat

def written (type : IqType) : Nat := stride type * sampleCount type

theorem written_le (type : IqType) : written type ≤ 4 := by
  cases type <;> decide

/-- The short types write every byte of their samples. -/
theorem payloadBytes_short {type : IqType} (htype : type = .pt8 ∨ type = .pt16) (iqs : List IqT)
    (zs zs' : List UInt8) : payloadBytes type iqs zs = payloadBytes type iqs zs' := by
  induction iqs generalizing zs zs' with
  | nil => rfl
  | cons iq iqs ih =>
    rw [payloadBytes, payloadBytes, ih (zs.drop (stride type)) (zs'.drop (stride type))]
    rcases htype with rfl | rfl
    · rfl
    · rfl

/-- The long types write no sample at all. -/
theorem payload_eq (type : IqType) (q : List IqT) (zs zs' : List UInt8) :
    payloadBytes type (q.take (sampleCount type)) zs
      = payloadBytes type (q.take (sampleCount type)) zs' := by
  cases type with
  | pt8 => exact payloadBytes_short (.inl rfl) _ _ _
  | pt16 => exact payloadBytes_short (.inr rfl) _ _ _
  | pt24 => rfl
  | pt32 => rfl

/-- The datagram of a call: the header and the samples, and behind them what the array held. -/
def datagramOf (session : SessionIq) (c : Content) (q : List IqT) (data : List UInt8) :
    List UInt8 :=
  encode (nextContent session c)
    ++ payloadBytes session.txType (q.take (sampleCount session.txType)) []
    ++ data.drop (c.size + written session.txType)

theorem rcpIqTransmit_sends (h : CanSend session c) (hbuffer : Represents session.txIqBuffer q)
    (hq : 2 ≤ q.length) (hdata : data.length = RTP_PACKET_LENGTH) (hframe : iqFrame.length = 2)
    (error : Int) :
    rcpIqTransmit 256 session data iqFrame error
      = .ok ⟨if error < 0 then RTP_SDR_ERROR else RTP_SDR_OK,
        withHeader session (nextHeader session), q.take (sampleCount session.txType),
        some (datagramOf session c q data)⟩ := by
  have hroom : c.size + 16 ≤ RTP_PACKET_LENGTH :=
    Nat.le_trans (Nat.add_le_add_right h.size_le 16) (by decide)
  have hw : (encode (nextContent session c)).length = c.size := length_encode _
  have hrun := rcpIqTransmit_of_serialize (n := sampleCount session.txType) hw hroom
    (h.serialize hdata) hbuffer hq hdata hframe rfl error
  rw [payload_eq _ _ _ []] at hrun
  exact hrun

/-! ## Long extensions -/

/-- The types of which a call writes no sample: a quarter of two is none. -/
def Long (type : IqType) : Prop := type = .pt24 ∨ type = .pt32

instance (type : IqType) : Decidable (Long type) := inferInstanceAs (Decidable (_ ∨ _))

theorem long_iff (type : IqType) : Long type ↔ packetLen type (sizeofInt / 2) = 0 := by
  cases type <;> decide

/-- A call that finds its samples comes to the socket. -/
def Sends (session : SessionIq) (c : Content) : Prop :=
  extLength c ≤ 255 ∨ RTP_PACKET_LENGTH < c.size ∧ Long session.txType

/-- The result of `rtp_header_serialize` for a header that does not fit. -/
theorem serialize_tooLong (h : Shows session.txHeader c) (hsize : RTP_PACKET_LENGTH < c.size)
    (fuel : Nat) (data : List UInt8) :
    rtpHeaderSerialize fuel (nextHeader session) data RTP_PACKET_LENGTH
      = .ok (RTP_ERROR, data) := by
  have heq : rtpHeaderSize (nextHeader session) = c.size := (shows_next h).size_eq
  rw [rtpHeaderSerialize, heq, if_pos hsize]

/-- The result is the place of the first sample. -/
theorem rcpIqTransmit_tooLong (h : Shows session.txHeader c) (hsize : RTP_PACKET_LENGTH < c.size)
    (hbuffer : Represents session.txIqBuffer q) (hq : 2 ≤ q.length) (hframe : iqFrame.length = 2)
    (fuel : Nat) (data : List UInt8) (error : Int) :
    rcpIqTransmit fuel session data iqFrame error =
      if Long session.txType then
        .ok ⟨if error < 0 then RTP_SDR_ERROR else RTP_SDR_OK,
          withHeader session (nextHeader session), [], some data⟩
      else .error .bounds := by
  rw [rcpIqTransmit]
  change (rtpHeaderSerialize fuel (nextHeader session) data RTP_PACKET_LENGTH >>= _) = _
  rw [bind_of_ok (serialize_tooLong h hsize fuel data)]
  dsimp only
  rw [bind_of_ok (peek_two hbuffer hq hframe)]
  dsimp only
  rw [if_neg (by decide)]
  by_cases hlong : Long session.txType
  · have hnone := (long_iff _).mp hlong
    rw [if_neg (fun hneg => hneg.2 hnone), if_pos hlong, hnone]
    change (writeSamples session.txType data _ _ 0 >>= _) = _
    rw [writeSamples, forUp_zero, ok_bind]
    by_cases herror : error < 0
    · rw [if_pos herror, if_pos herror]
      rfl
    · rw [if_neg herror, if_neg herror]
      rfl
  · rw [if_pos ⟨by decide, mt (long_iff _).mpr hlong⟩, if_neg hlong]

/-- The loop over the extension does not end. -/
theorem rcpIqTransmit_diverges (h : Shows session.txHeader c) (hext : 255 < extLength c)
    (hsize : c.size ≤ RTP_PACKET_LENGTH) (fuel : Nat) (t : Sent) :
    rcpIqTransmit fuel session data iqFrame error ≠ .ok t := by
  intro hrun
  obtain ⟨r, hserialize, -⟩ := bind_eq_ok.mp hrun
  cases he : c.ext with
  | none =>
    rw [extLength, he] at hext
    exact absurd hext (by decide)
  | some e =>
    rw [extLength, he] at hext
    rw [← rtpHeaderSerialize_normal] at hserialize
    exact rtpHeaderSerialize_diverges (shows_next h) he hext fuel hsize r hserialize

/-! ## Two contents of the array -/

/-- The two calls hand the same bytes to the socket, whatever their local arrays held. -/
def SentAlike (session : SessionIq) (data data' : Vector UInt8 RTP_PACKET_LENGTH) : Prop :=
  ∀ (iqFrame iqFrame' : Vector IqT 2) (error error' : Int), ∃ fuel t t' datagram,
    rcpIqTransmit fuel session data.toList iqFrame.toList error = .ok t ∧
    rcpIqTransmit fuel session data'.toList iqFrame'.toList error' = .ok t' ∧
    t.datagram = some datagram ∧ t'.datagram = some datagram

/-- The bytes of the array that a call writes: the header, unless it does not fit, and behind it
the samples. -/
def writtenTo (session : SessionIq) (c : Content) : Nat :=
  if c.size ≤ RTP_PACKET_LENGTH then c.size + written session.txType else 0

/-- The datagram of a call that comes to the socket. -/
def outgoing (session : SessionIq) (c : Content) (q : List IqT) (data : List UInt8) :
    List UInt8 :=
  if c.size ≤ RTP_PACKET_LENGTH then datagramOf session c q data else data

theorem rcpIqTransmit_outgoing (h : Shows session.txHeader c) (hsends : Sends session c)
    (hbuffer : Represents session.txIqBuffer q) (hq : 2 ≤ q.length)
    (hdata : data.length = RTP_PACKET_LENGTH) (hframe : iqFrame.length = 2) (error : Int) :
    ∃ t, rcpIqTransmit 256 session data iqFrame error = .ok t ∧
      t.datagram = some (outgoing session c q data) := by
  by_cases hsize : c.size ≤ RTP_PACKET_LENGTH
  · have hc := canSend_of_le h (hsends.resolve_right fun hlong => absurd hsize (by omega))
    refine ⟨_, rcpIqTransmit_sends hc hbuffer hq hdata hframe error, ?_⟩
    rw [outgoing, if_pos hsize]
  · rcases hsends with hle | ⟨hlt, hlong⟩
    · exact absurd (extLength_of_size h (Nat.lt_of_not_le hsize)) (by omega)
    · have hrun := rcpIqTransmit_tooLong h hlt hbuffer hq hframe 256 data error
      rw [if_pos hlong] at hrun
      refine ⟨_, hrun, ?_⟩
      rw [outgoing, if_neg hsize]

/-- No other call returns. -/
theorem rcpIqTransmit_mute (h : Shows session.txHeader c) (hmute : ¬ Sends session c)
    (hbuffer : Represents session.txIqBuffer q) (hq : 2 ≤ q.length) (hframe : iqFrame.length = 2)
    (fuel : Nat) (t : Sent) : rcpIqTransmit fuel session data iqFrame error ≠ .ok t := by
  rw [Sends, not_or, not_and] at hmute
  by_cases hsize : c.size ≤ RTP_PACKET_LENGTH
  · exact rcpIqTransmit_diverges h (Nat.lt_of_not_le hmute.1) hsize fuel t
  · have hlt := Nat.lt_of_not_le hsize
    intro hrun
    rw [rcpIqTransmit_tooLong h hlt hbuffer hq hframe fuel data error, if_neg (hmute.2 hlt)] at hrun
    cases hrun

theorem outgoing_inj {data' : List UInt8} :
    outgoing session c q data = outgoing session c q data' ↔
      data.drop (writtenTo session c) = data'.drop (writtenTo session c) := by
  rw [outgoing, outgoing, writtenTo]
  by_cases hsize : c.size ≤ RTP_PACKET_LENGTH
  · rw [if_pos hsize, if_pos hsize, if_pos hsize]
    exact List.append_right_inj _
  · rw [if_neg hsize, if_neg hsize, if_neg hsize]
    rfl

theorem sentAlike_iff_drop (h : Shows session.txHeader c)
    (hbuffer : Represents session.txIqBuffer q) (hq : 2 ≤ q.length)
    (data data' : Vector UInt8 RTP_PACKET_LENGTH) :
    SentAlike session data data' ↔ Sends session c ∧
      data.toList.drop (writtenTo session c) = data'.toList.drop (writtenTo session c) := by
  by_cases hsends : Sends session c
  · rw [and_iff_right hsends, ← outgoing_inj (q := q)]
    have hrun (xs : Vector UInt8 RTP_PACKET_LENGTH) (iqFrame : Vector IqT 2) (error : Int) :=
      rcpIqTransmit_outgoing h hsends hbuffer hq xs.length_toList iqFrame.length_toList error
    constructor
    · intro halike
      obtain ⟨fuel, t, t', datagram, ht, ht', hd, hd'⟩ :=
        halike (.replicate _ ⟨0, 0⟩) (.replicate _ ⟨0, 0⟩) 0 0
      obtain ⟨u, hu, hud⟩ := hrun data (.replicate _ ⟨0, 0⟩) 0
      obtain ⟨u', hu', hud'⟩ := hrun data' (.replicate _ ⟨0, 0⟩) 0
      rw [eq_of_fuel (fun _ _ hle => rcpIqTransmit_below _ _ _ _ hle) ht hu] at hd
      rw [eq_of_fuel (fun _ _ hle => rcpIqTransmit_below _ _ _ _ hle) ht' hu'] at hd'
      exact Option.some.inj ((hud.symm.trans hd).trans (hd'.symm.trans hud'))
    · intro heq iqFrame iqFrame' error error'
      obtain ⟨u, hu, hud⟩ := hrun data iqFrame error
      obtain ⟨u', hu', hud'⟩ := hrun data' iqFrame' error'
      rw [← heq] at hud'
      exact ⟨256, u, u', _, hu, hu', hud, hud'⟩
  · refine iff_of_false (fun halike => ?_) (fun hboth => hsends hboth.1)
    obtain ⟨fuel, t, -, -, ht, -⟩ := halike (.replicate _ ⟨0, 0⟩) (.replicate _ ⟨0, 0⟩) 0 0
    exact rcpIqTransmit_mute h hsends hbuffer hq Vector.length_toList fuel t ht

/-- The array is longer than all that is written to it. -/
theorem writtenTo_lt (h : Shows session.txHeader c) (hsends : Sends session c) :
    writtenTo session c < RTP_PACKET_LENGTH := by
  rw [writtenTo]
  by_cases hsize : c.size ≤ RTP_PACKET_LENGTH
  · have hc := canSend_of_le h (hsends.resolve_right fun hlong => absurd hsize (by omega))
    have hle := hc.size_le
    have hwritten := written_le session.txType
    rw [if_pos hsize, RTP_PACKET_LENGTH]
    omega
  · rw [if_neg hsize]
    decide

/-- Zeros and ones differ in what is left unwritten. -/
theorem unwritten_ne (h : Shows session.txHeader c) (hsends : Sends session c) :
    (List.replicate RTP_PACKET_LENGTH (0 : UInt8)).drop (writtenTo session c) ≠
      (List.replicate RTP_PACKET_LENGTH (1 : UInt8)).drop (writtenTo session c) := by
  intro heq
  have hlt := writtenTo_lt h hsends
  rw [List.drop_replicate, List.drop_replicate] at heq
  obtain ⟨n, hn⟩ := Nat.exists_eq_succ_of_ne_zero (Nat.sub_ne_zero_of_lt hlt)
  rw [hn, List.replicate_succ, List.replicate_succ] at heq
  exact absurd (List.cons.inj heq).1 (by decide)

theorem not_sentAlike (h : Shows session.txHeader c) (hbuffer : Represents session.txIqBuffer q)
    (hq : 2 ≤ q.length) : ¬ SentAlike session (.replicate _ 0) (.replicate _ 1) := by
  intro halike
  obtain ⟨hsends, heq⟩ := (sentAlike_iff_drop h hbuffer hq _ _).mp halike
  rw [Vector.toList_replicate, Vector.toList_replicate] at heq
  exact unwritten_ne h hsends heq

/-- With two samples buffered, the datagram is the same exactly where the call comes to the socket
and the two contents agree on all that it leaves unwritten; no session determines its datagram. -/
theorem sentAlike_iff (h : Shows session.txHeader c) (hbuffer : Represents session.txIqBuffer q)
    (hq : 2 ≤ q.length) :
    (∀ data data' : Vector UInt8 RTP_PACKET_LENGTH, SentAlike session data data' ↔
      Sends session c ∧
        data.toList.drop (writtenTo session c) = data'.toList.drop (writtenTo session c)) ∧
    ¬ ∀ data data' : Vector UInt8 RTP_PACKET_LENGTH, SentAlike session data data' :=
  ⟨sentAlike_iff_drop h hbuffer hq, fun hall => not_sentAlike h hbuffer hq (hall _ _)⟩

/-- A session with two samples in a buffer of four cells. -/
def supplied (type : IqType) : SessionIq where
  txHeader := rtpHeaderInit rtpHeaderCreate type.payloadType 1 2 3
  rxHeader := .null
  txFrameSamples := 960
  rxFrameSamples := 960
  txIqBuffer := ⟨sbufType type, [⟨5, 6⟩, ⟨7, 8⟩, ⟨0, 0⟩, ⟨0, 0⟩], 2, 0, 4⟩
  rxIqBuffer := ⟨sbufType type, [⟨0, 0⟩, ⟨0, 0⟩, ⟨0, 0⟩, ⟨0, 0⟩], 0, 0, 4⟩
  txType := type
  rxType := type

theorem supplied_represents (type : IqType) :
    Represents (supplied type).txIqBuffer [⟨5, 6⟩, ⟨7, 8⟩] where
  one_lt := show 1 < 4 by decide
  length := show 4 ≤ 4 by decide
  tail_lt := show 0 < 4 by decide
  fits := show 2 < 4 by decide
  head_eq := show 2 = Lib.Circular.slot 4 0 2 by decide
  stored := by
    intro i hi
    match i, hi with
    | 0, _ => rfl
    | 1, _ => rfl

theorem supplied_canSend (type : IqType) : ∃ c, CanSend (supplied type) c := by
  obtain ⟨c, hholds, -, hext⟩ := plain_init type 1 2 3
  exact ⟨c, shows_of_holds hholds, fun id ws he => absurd (hext.symm.trans he) (by simp)⟩

theorem sentAlike_iff_supplied :
    ∃ c, Shows (supplied .pt16).txHeader c ∧
      (∀ data data' : Vector UInt8 RTP_PACKET_LENGTH, SentAlike (supplied .pt16) data data' ↔
        Sends (supplied .pt16) c ∧ data.toList.drop (writtenTo (supplied .pt16) c)
          = data'.toList.drop (writtenTo (supplied .pt16) c)) ∧
      ¬ ∀ data data' : Vector UInt8 RTP_PACKET_LENGTH, SentAlike (supplied .pt16) data data' := by
  obtain ⟨c, h⟩ := supplied_canSend .pt16
  exact ⟨c, h.shows, sentAlike_iff h.shows (supplied_represents .pt16) (by decide)⟩

/-- The array holds zeros, or ones, when the call begins: two datagrams. -/
theorem sentAlike_fails :
    (∃ t t' datagram datagram',
      rcpIqTransmit 256 (supplied .pt8) (.replicate RTP_PACKET_LENGTH 0) (.replicate 2 ⟨0, 0⟩) 0
        = .ok t ∧
      rcpIqTransmit 256 (supplied .pt8) (.replicate RTP_PACKET_LENGTH 1) (.replicate 2 ⟨0, 0⟩) 0
        = .ok t' ∧
      t.datagram = some datagram ∧ t'.datagram = some datagram' ∧ datagram ≠ datagram') ∧
    ¬ SentAlike (supplied .pt8) (.replicate _ 0) (.replicate _ 1) := by
  obtain ⟨c, h⟩ := supplied_canSend .pt8
  have hsends : Sends (supplied .pt8) c := .inl h.extLength_le
  have hrun (b : UInt8) : ∃ t, rcpIqTransmit 256 (supplied .pt8) (.replicate RTP_PACKET_LENGTH b)
      (.replicate 2 ⟨0, 0⟩) 0 = .ok t ∧ t.datagram
        = some (outgoing (supplied .pt8) c [⟨5, 6⟩, ⟨7, 8⟩] (.replicate RTP_PACKET_LENGTH b)) :=
    rcpIqTransmit_outgoing h.shows hsends (supplied_represents .pt8) (by decide)
      List.length_replicate List.length_replicate 0
  obtain ⟨t, ht, hd⟩ := hrun 0
  obtain ⟨t', ht', hd'⟩ := hrun 1
  refine ⟨⟨t, t', _, _, ht, ht', hd, hd', fun heq => ?_⟩,
    not_sentAlike h.shows (supplied_represents .pt8) (by decide)⟩
  exact unwritten_ne h.shows hsends (outgoing_inj.mp heq)

end RtpSdr.Sdr.Datagram
