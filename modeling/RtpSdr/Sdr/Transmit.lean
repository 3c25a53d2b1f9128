import RtpSdr.Sdr.Iq

/-!
# Sending samples: `rcp_iq_transmit`

A call looks at the front of the ring buffer and leaves it there. As the frame has the
size of an `int` halved, two samples suffice for a call to succeed; over any run, what the
successful calls carry is sent again by the next.
-/
namespace RtpSdr.Sdr.Transmit

open RtpSdr.Lib.Checked
open RtpSdr.Lib.Memory
open RtpSdr.Rtp.Header
open RtpSdr.Rtp.HeaderEdit
open RtpSdr.Sdr.Rbuf
open RtpSdr.Sdr.Iq

def RTP_SDR_OK : UInt8 := 0

/-- The error code -1 in the `uint8_t` the functions return. -/
def RTP_SDR_ERROR : UInt8 := 255

/-- What `session_iq_s` holds for transmitting and for receiving. -/
structure SessionIq where
  txHeader : RtpHeader
  rxHeader : Ptr RtpHeader
  txFrameSamples : Int32
  rxFrameSamples : Int32
  txIqBuffer : RbufT IqT
  rxIqBuffer : RbufT IqT
  txType : IqType
  rxType : IqType

/-- The ring buffer's own name for a type; it is stored and never read. -/
def sbufType : IqType → SbufType
  | .pt8 => .s8
  | .pt16 => .s16
  | .pt24 => .s24
  | .pt32 => .s32

section Source

/-- `(sample_rate * duration) / 1000` as an `int32_t`. -/
def frameSamples (sampleRate duration : UInt32) : Int32 := ((sampleRate * duration) / 1000).toInt32

/-- `rcp_iq_init`; the last three arguments are the results of `rand`. -/
def rcpIqInit (txtype rxtype : IqType) (txSampleRate rxSampleRate duration : UInt32)
    (txBuffer rxBuffer : List IqT) (bufferSize : UInt64) (ssrc : UInt32) (seq : UInt16)
    (ts : UInt32) : Exec SessionIq := do
  let txIqBuffer ← rbufInit txBuffer bufferSize (sbufType txtype)
  let rxIqBuffer ← rbufInit rxBuffer bufferSize (sbufType rxtype)
  .ok {
    txHeader := rtpHeaderInit rtpHeaderCreate txtype.payloadType ssrc seq ts
    rxHeader := .null
    txFrameSamples := frameSamples txSampleRate duration
    rxFrameSamples := frameSamples rxSampleRate duration
    txIqBuffer := txIqBuffer
    rxIqBuffer := rxIqBuffer
    txType := txtype
    rxType := rxtype }

/-- `sizeof(RTP_PACKET_LENGTH - header_size)`, the size of an `int`. -/
def sizeofInt : UInt32 := 4

/-- `packet_len` for a frame of `iqLen` samples. -/
def packetLen (type : IqType) (iqLen : UInt32) : UInt32 :=
  match type with
  | .pt8 => iqLen
  | .pt16 => iqLen / 2
  | .pt24 | .pt32 => iqLen / 4

/-- What a call does: its result, the session, and what it handed to the socket: the samples it
wrote and the datagram, nothing where it did not come that far. -/
structure Sent where
  result : UInt8
  session : SessionIq
  samples : List IqT
  datagram : Option (List UInt8)

/-- `data` and `iqFrame` are what the local arrays hold, `error` is the result of
`rtp_socket_send`. The pause at the end takes time and changes nothing. -/
def rcpIqTransmit (fuel : Nat) (session : SessionIq) (data : List UInt8) (iqFrame : List IqT)
    (error : Int) : Exec Sent := do
  let txHeader := { session.txHeader with
    seq := session.txHeader.seq + 1
    ts := session.txHeader.ts + session.txFrameSamples.toUInt32 }
  let session := { session with txHeader := txHeader }
  let (headerSize, data) ← rtpHeaderSerialize fuel session.txHeader data RTP_PACKET_LENGTH
  let iqLen := sizeofInt / 2
  let (r, iqFrame) ← rbufPeek session.txIqBuffer iqFrame iqLen
  if r = RTP_SDR_RBUF_ERROR then .ok ⟨RTP_SDR_ERROR, session, [], none⟩
  else if headerSize < 0 ∧ packetLen session.txType iqLen ≠ 0 then .error .bounds
  else do
    let n := (packetLen session.txType iqLen).toNat
    let (data, _) ← writeSamples session.txType data headerSize.toNat iqFrame n
    if error < 0 then .ok ⟨RTP_SDR_ERROR, session, iqFrame.take n, some data⟩
    else .ok ⟨RTP_SDR_OK, session, iqFrame.take n, some data⟩

end Source

/-! ## Runs -/

/-- A call: a sample that is offered, or a transmission with what its local arrays hold and the
number of bytes the socket takes. -/
inductive Op where
  | tryPut (data : IqT)
  | transmit (data : Vector UInt8 RTP_PACKET_LENGTH) (iqFrame : Vector IqT 2) (sent : Nat)

/-- The samples that were put, and those that each successful call carried. -/
structure Log where
  put : List IqT
  carried : List (List IqT)

def perform (fuel : Nat) (s : SessionIq × Log) : Op → Exec (SessionIq × Log)
  | .tryPut data => do
    let (r, txIqBuffer) ← rbufTryPut s.1.txIqBuffer data
    let session := { s.1 with txIqBuffer := txIqBuffer }
    if r = RTP_SDR_RBUF_OK then .ok (session, { s.2 with put := s.2.put ++ [data] })
    else .ok (session, s.2)
  | .transmit data iqFrame sent => do
    let t ← rcpIqTransmit fuel s.1 data.toList iqFrame.toList sent
    if t.result = RTP_SDR_OK then
      .ok (t.session, { s.2 with carried := s.2.carried ++ [t.samples] })
    else .ok (t.session, s.2)

/-- Every sample is sent once and in order: what the successful calls carried, none of them
nothing, followed by what is left in the buffer, is what was put. -/
def SentOnce (s : SessionIq × Log) : Prop :=
  (∀ samples ∈ s.2.carried, samples ≠ []) ∧
    ∃ left, Represents s.1.txIqBuffer left ∧ s.2.carried.flatten ++ left = s.2.put

/-- What the calls do to the log of a buffer of `max` cells. -/
def step (type : IqType) (max : Nat) (log : Log) : Op → Log
  | .tryPut data =>
    if log.put.length < max - 1 then { log with put := log.put ++ [data] } else log
  | .transmit _ _ _ =>
    if 2 ≤ log.put.length then
      { log with carried := log.carried ++ [log.put.take (packetLen type 2).toNat] }
    else log

/-- A transmission finds less than two samples in the buffer. -/
def Starved (log : Log) : Op → Prop
  | .tryPut _ => True
  | .transmit _ _ _ => log.put.length < 2

variable {fuel : Nat} {session : SessionIq} {data : List UInt8} {iqFrame : List IqT} {error : Int}
  {q : List IqT}

/-- A header of fixed fields takes twelve bytes of the datagram. -/
theorem serialize_plain {header : RtpHeader} {c : Content} (h : Holds header c)
    (hcsrc : c.csrc = []) (hext : c.ext = none) (hdata : data.length = RTP_PACKET_LENGTH) :
    ∃ w, w.length = 12 ∧ rtpHeaderSerialize fuel header data RTP_PACKET_LENGTH
      = .ok (12, w ++ data.drop 12) := by
  have hsize : c.size = 12 := by
    rw [Content.size, hcsrc, hext]
    rfl
  have hlen := length_encode c
  refine ⟨encode c, by rw [hlen, hsize], ?_⟩
  rw [rtpHeaderSerialize_fuel (h.plain hext) fuel 256,
    rtpHeaderSerialize_ok h (fun id ws he => by rw [hext] at he; cases he) data
      (by rw [hsize]; decide) (by rw [hsize, hdata]; decide), hsize, castInt_of_lt (by omega)]
  rfl

/-- The header of the next datagram. -/
def nextHeader (session : SessionIq) : RtpHeader :=
  { session.txHeader with
    seq := session.txHeader.seq + 1
    ts := session.txHeader.ts + session.txFrameSamples.toUInt32 }

def withHeader (session : SessionIq) (header : RtpHeader) : SessionIq :=
  { session with txHeader := header }

/-- A session whose header has fixed fields only. -/
def Plain (session : SessionIq) : Prop :=
  ∃ c : Content, Holds session.txHeader c ∧ c.csrc = [] ∧ c.ext = none

theorem plain_next (h : Plain session) : Plain (withHeader session (nextHeader session)) := by
  obtain ⟨c, hholds, hcsrc, hext⟩ := h
  obtain ⟨hversion, hp, hm, hpt, -, -, hssrc, hcc, hlist, hplain, hextended⟩ := hholds
  exact ⟨{ c with seq := (nextHeader session).seq, ts := (nextHeader session).ts },
    ⟨hversion, hp, hm, hpt, rfl, rfl, hssrc, hcc, hlist, hplain, hextended⟩, hcsrc, hext⟩

theorem serialize_next (h : Plain session) (fuel : Nat) (hdata : data.length = RTP_PACKET_LENGTH) :
    ∃ w, w.length = 12 ∧ rtpHeaderSerialize fuel (nextHeader session) data RTP_PACKET_LENGTH
      = .ok (12, w ++ data.drop 12) := by
  obtain ⟨c, hholds, hcsrc, hext⟩ := plain_next h
  exact serialize_plain hholds hcsrc hext hdata

/-- With less than two samples a call returns an error once the header is written. -/
theorem rcpIqTransmit_of_few {r : Int × List UInt8}
    (hserialize : rtpHeaderSerialize fuel (nextHeader session) data RTP_PACKET_LENGTH = .ok r)
    (hbuffer : Represents session.txIqBuffer q) (hq : q.length < 2) (iqFrame : List IqT)
    (error : Int) :
    rcpIqTransmit fuel session data iqFrame error
      = .ok ⟨RTP_SDR_ERROR, withHeader session (nextHeader session), [], none⟩ := by
  have hpeek : rbufPeek session.txIqBuffer iqFrame (sizeofInt / 2)
      = .ok (RTP_SDR_RBUF_ERROR, iqFrame) := rbufPeek_of_lt hbuffer (.inr hq)
  rw [rcpIqTransmit]
  change (rtpHeaderSerialize fuel (nextHeader session) data RTP_PACKET_LENGTH >>= _) = _
  rw [bind_of_ok hserialize]
  dsimp only
  rw [bind_of_ok hpeek]
  rfl

/-- Whatever comes of a call that returns, it has moved the header on. -/
theorem rcpIqTransmit_header {t : Sent}
    (hrun : rcpIqTransmit fuel session data iqFrame error = .ok t) :
    t.session = withHeader session (nextHeader session) := by
  obtain ⟨⟨headerSize, data'⟩, -, hrun⟩ := bind_eq_ok.mp hrun
  obtain ⟨⟨r, iqFrame'⟩, -, hrun⟩ := bind_eq_ok.mp hrun
  dsimp only at hrun
  split at hrun
  · cases hrun
    rfl
  · split at hrun
    · cases hrun
    · obtain ⟨⟨data'', pos⟩, -, hrun⟩ := bind_eq_ok.mp hrun
      dsimp only at hrun
      split at hrun <;> cases hrun <;> rfl

/-- More passes send what fewer sent. -/
theorem rcpIqTransmit_below (session : SessionIq) (data : List UInt8) (iqFrame : List IqT)
    (error : Int) {n m : Nat} (hle : n ≤ m) :
    Below (rcpIqTransmit n session data iqFrame error)
      (rcpIqTransmit m session data iqFrame error) :=
  Below.bind (rtpHeaderSerialize_below _ _ _ hle) fun _ => Below.refl _

theorem rcpIqTransmit_starved (fuel : Nat) (iqFrame : List IqT) (error : Int)
    (h : Plain session) (hbuffer : Represents session.txIqBuffer q)
    (hq : q.length < 2) (hdata : data.length = RTP_PACKET_LENGTH) :
    rcpIqTransmit fuel session data iqFrame error
      = .ok ⟨RTP_SDR_ERROR, withHeader session (nextHeader session), [], none⟩ := by
  obtain ⟨w, -, hserialize⟩ := serialize_next h fuel hdata
  exact rcpIqTransmit_of_few hserialize hbuffer hq iqFrame error

theorem packetLen_le (type : IqType) : (packetLen type 2).toNat ≤ 2 := by
  cases type <;> decide

theorem stride_le (type : IqType) : stride type ≤ 8 := by
  cases type <;> decide

theorem peek_two (hbuffer : Represents session.txIqBuffer q) (hq : 2 ≤ q.length)
    (hframe : iqFrame.length = 2) :
    rbufPeek session.txIqBuffer iqFrame (sizeofInt / 2) = .ok (RTP_SDR_RBUF_OK, q.take 2) := by
  have hne : q ≠ [] := List.ne_nil_of_length_pos (by omega)
  have hpeek := rbufPeek_of_le (n := 2) hbuffer hne hq (Nat.le_of_eq hframe.symm)
  have hrest : iqFrame.drop (2 : UInt32).toNat = [] :=
    List.drop_eq_nil_of_le (Nat.le_of_eq hframe)
  rw [hrest, List.append_nil] at hpeek
  exact hpeek

/-- With two samples a call writes the first of them behind the header, and keeps both. -/
theorem rcpIqTransmit_of_serialize {w : List UInt8} {size n : Nat} (hw : w.length = size)
    (hsize : size + 16 ≤ RTP_PACKET_LENGTH)
    (hserialize : rtpHeaderSerialize fuel (nextHeader session) data RTP_PACKET_LENGTH
      = .ok ((size : Int), w ++ data.drop size))
    (hbuffer : Represents session.txIqBuffer q) (hq : 2 ≤ q.length)
    (hdata : data.length = RTP_PACKET_LENGTH) (hframe : iqFrame.length = 2)
    (hn : (packetLen session.txType 2).toNat = n) (error : Int) :
    rcpIqTransmit fuel session data iqFrame error
      = .ok ⟨if error < 0 then RTP_SDR_ERROR else RTP_SDR_OK,
        withHeader session (nextHeader session), q.take n,
        some (w ++ payloadBytes session.txType (q.take n) (data.drop size)
          ++ data.drop (size + stride session.txType * n))⟩ := by
  have hle : n ≤ 2 := hn ▸ packetLen_le session.txType
  have htake : (q.take 2).take n = q.take n := by
    rw [List.take_take, Nat.min_eq_left hle]
  have hlen : (q.take n).length = n := by
    rw [List.length_take]
    omega
  have hroom : stride session.txType * (q.take n).length ≤ (data.drop size).length := by
    have := Nat.mul_le_mul (stride_le session.txType) hle
    rw [hlen, List.length_drop, hdata]
    omega
  have hwrite := writeSamples_ok session.txType (q.take n) ((q.take 2).drop n) hw hroom
  rw [hlen, ← htake, List.take_append_drop, htake, List.drop_drop] at hwrite
  have hcount : (packetLen session.txType (sizeofInt / 2)).toNat = n := hn
  rw [rcpIqTransmit]
  change (rtpHeaderSerialize fuel (nextHeader session) data RTP_PACKET_LENGTH >>= _) = _
  rw [bind_of_ok hserialize]
  dsimp only
  rw [bind_of_ok (peek_two hbuffer hq hframe)]
  dsimp only
  rw [if_neg (by decide), if_neg (fun hneg => absurd hneg.1 (by omega)), hcount,
    Int.toNat_natCast, bind_of_ok hwrite, htake]
  by_cases herror : error < 0
  · rw [if_pos herror, if_pos herror]
    rfl
  · rw [if_neg herror, if_neg herror]
    rfl

theorem rcpIqTransmit_supplied (fuel : Nat) (h : Plain session)
    (hbuffer : Represents session.txIqBuffer q) (hq : 2 ≤ q.length)
    (hdata : data.length = RTP_PACKET_LENGTH) (hframe : iqFrame.length = 2) (herror : 0 ≤ error) :
    ∃ datagram, rcpIqTransmit fuel session data iqFrame error
      = .ok ⟨RTP_SDR_OK, withHeader session (nextHeader session),
        q.take (packetLen session.txType 2).toNat, some datagram⟩ := by
  obtain ⟨w, hw, hserialize⟩ := serialize_next h fuel hdata
  have hrun :=
    rcpIqTransmit_of_serialize hw (by decide) hserialize hbuffer hq hdata hframe rfl error
  rw [if_neg (by omega)] at hrun
  exact ⟨_, hrun⟩

/-! ## The log of a run -/

/-- The session's buffer holds every sample that was put, and the log is as the calls leave it. -/
structure Follows (type : IqType) (max : Nat) (s : SessionIq × Log) (log : Log) : Prop where
  log_eq : s.2 = log
  type_eq : s.1.txType = type
  max_eq : s.1.txIqBuffer.max.toNat = max
  buffer : Represents s.1.txIqBuffer log.put
  plain : Plain s.1

variable {type : IqType} {max : Nat} {s : SessionIq × Log} {log : Log}

theorem plain_init (type : IqType) (ssrc : UInt32) (seq : UInt16) (ts : UInt32) :
    ∃ c : Content, Holds (rtpHeaderInit rtpHeaderCreate type.payloadType ssrc seq ts) c ∧
      c.csrc = [] ∧ c.ext = none := by
  refine ⟨⟨0, BitVec.ofNat 7 (type.payloadType.toNat &&& 0x7f), seq, ts, ssrc, [], none⟩, ?_,
    rfl, rfl⟩
  exact ⟨rfl, rfl, rfl, rfl, rfl, rfl, rfl, rfl, fun h => absurd rfl h, fun _ => rfl,
    fun _ _ h => nomatch h⟩

theorem rcpIqInit_follows (type rxtype : IqType) (txRate rxRate duration : UInt32)
    (txBuffer rxBuffer : List IqT) (size : UInt64) (ssrc : UInt32) (seq : UInt16) (ts : UInt32)
    (hsize : 1 < size.toNat) (htx : size.toNat ≤ txBuffer.length)
    (hrx : size.toNat ≤ rxBuffer.length) :
    ∃ session, rcpIqInit type rxtype txRate rxRate duration txBuffer rxBuffer size ssrc seq ts
        = .ok session ∧
      Follows type size.toNat (session, ⟨[], []⟩) ⟨[], []⟩ := by
  obtain ⟨tx, htx, hrep, hmax⟩ := rbufInit_ok (sbufType type) hsize htx
  obtain ⟨rx, hrx, -, -⟩ := rbufInit_ok (sbufType rxtype) hsize hrx
  refine ⟨_, by rw [rcpIqInit, bind_of_ok htx, bind_of_ok hrx], ?_⟩
  exact ⟨rfl, rfl, congrArg UInt64.toNat hmax, hrep, plain_init type ssrc seq ts⟩

theorem perform_follows (h : Follows type max s log) (op : Op) :
    ∃ s', perform fuel s op = .ok s' ∧ Follows type max s' (step type max log op) := by
  obtain ⟨session, log'⟩ := s
  obtain ⟨hlog, htype, hmax, hbuffer, hplain⟩ := h
  dsimp only at hlog htype hmax hbuffer hplain
  subst hlog htype hmax
  cases op with
  | tryPut data =>
    rw [step]
    by_cases hroom : log'.put.length < session.txIqBuffer.max.toNat - 1
    · rw [if_pos hroom, perform, bind_of_ok (rbufTryPut_ok hbuffer hroom data)]
      dsimp only
      rw [if_pos rfl]
      exact ⟨_, rfl, rfl, rfl, rfl, represents_push hbuffer hroom data, hplain⟩
    · rw [if_neg hroom, perform, bind_of_ok (rbufTryPut_full hbuffer hroom data)]
      dsimp only
      rw [if_neg (by decide)]
      exact ⟨_, rfl, rfl, rfl, rfl, hbuffer, hplain⟩
  | transmit data iqFrame sent =>
    rw [step]
    by_cases hq : 2 ≤ log'.put.length
    · obtain ⟨datagram, hrun⟩ := rcpIqTransmit_supplied fuel hplain hbuffer hq
        (data.length_toList) (iqFrame.length_toList) (Int.natCast_nonneg sent)
      rw [if_pos hq, perform, bind_of_ok hrun]
      dsimp only
      rw [if_pos rfl]
      exact ⟨_, rfl, rfl, rfl, rfl, hbuffer, plain_next hplain⟩
    · have hrun := rcpIqTransmit_starved fuel iqFrame.toList sent hplain hbuffer (by omega)
        data.length_toList
      rw [if_neg hq, perform, bind_of_ok hrun]
      dsimp only
      rw [if_neg (by decide)]
      exact ⟨_, rfl, rfl, rfl, rfl, hbuffer, plain_next hplain⟩

theorem run_follows (fuel : Nat) (h : Follows type max s log) (ops : List Op) :
    ∃ s', runAll (perform fuel) s ops = .ok s' ∧
      Follows type max s' (ops.foldl (step type max) log) := by
  have halways : Along (step type max) (fun _ _ => True) log ops :=
    along_of_forall (fun _ _ => trivial) ops
  exact runAll_along (R := Follows type max) (fun _ _ op h _ _ => perform_follows h op) ops h
    halways halways

/-- A call that succeeds is never taken back. -/
theorem carried_nil_iff (log : Log) (ops : List Op) :
    (ops.foldl (step type max) log).carried = [] ↔
      log.carried = [] ∧ Along (step type max) Starved log ops := by
  induction ops generalizing log with
  | nil => exact ⟨fun h => ⟨h, trivial⟩, fun h => h.1⟩
  | cons op ops ih =>
    rw [List.foldl_cons, ih, Along]
    cases op with
    | tryPut data =>
      have hsame : (step type max log (.tryPut data)).carried = log.carried := by
        rw [step]
        split <;> rfl
      rw [hsame]
      exact ⟨fun h => ⟨h.1, trivial, h.2⟩, fun h => ⟨h.1, h.2.2⟩⟩
    | transmit data iqFrame sent =>
      rw [Starved, step]
      by_cases hq : 2 ≤ log.put.length
      · rw [if_pos hq]
        constructor
        · intro h
          exact absurd h.1 (by simp)
        · intro h
          omega
      · rw [if_neg hq]
        exact ⟨fun h => ⟨h.1, by omega, h.2⟩, fun h => ⟨h.1, h.2.2⟩⟩

/-- As nothing leaves the buffer, only a log without successful calls is right. -/
theorem sentOnce_iff_carried (h : Follows type max s log) : SentOnce s ↔ log.carried = [] := by
  obtain ⟨rfl, -, -, hbuffer, -⟩ := h
  constructor
  · rintro ⟨hne, left, hleft, hput⟩
    have hlen := congrArg List.length hput
    rw [List.length_append, ← hleft.size_eq, hbuffer.size_eq] at hlen
    have hflatten : s.2.carried.flatten = [] := List.eq_nil_of_length_eq_zero (by omega)
    apply List.eq_nil_iff_forall_not_mem.mpr
    intro samples hin
    exact hne samples hin (List.flatten_eq_nil_iff.mp hflatten samples hin)
  · intro hnil
    refine ⟨fun samples hin => ?_, s.2.put, hbuffer, by rw [hnil]; rfl⟩
    rw [hnil] at hin
    cases hin

/-- A run sends every sample once if and only if each of its transmissions finds less than two
samples in the buffer, so that none of them succeeds. -/
theorem sentOnce_iff (fuel : Nat) (type rxtype : IqType) (txRate rxRate duration : UInt32)
    {txBuffer rxBuffer : List IqT} {size : UInt64} (ssrc : UInt32) (seq : UInt16) (ts : UInt32)
    (hsize : 1 < size.toNat) (htx : size.toNat ≤ txBuffer.length)
    (hrx : size.toNat ≤ rxBuffer.length) (ops : List Op) :
    (∃ session s, rcpIqInit type rxtype txRate rxRate duration txBuffer rxBuffer size ssrc seq ts
        = .ok session ∧
      runAll (perform fuel) (session, ⟨[], []⟩) ops = .ok s ∧ SentOnce s) ↔
      Along (step type size.toNat) Starved ⟨[], []⟩ ops := by
  obtain ⟨session, hinit, hfollows⟩ := rcpIqInit_follows type rxtype txRate rxRate duration _ _ _
    ssrc seq ts hsize htx hrx
  obtain ⟨s, hrun, hfollows'⟩ := run_follows fuel hfollows ops
  have hiff := (sentOnce_iff_carried hfollows').trans (carried_nil_iff ⟨[], []⟩ ops)
  constructor
  · rintro ⟨session', s', hinit', hrun', honce⟩
    obtain rfl := Except.ok.inj (hinit.symm.trans hinit')
    obtain rfl := Except.ok.inj (hrun.symm.trans hrun')
    exact (hiff.mp honce).2
  · intro halong
    exact ⟨session, s, hinit, hrun, hiff.mpr ⟨rfl, halong⟩⟩

/-- One sample is put and a transmission finds too few. -/
theorem sentOnce_one :
    ∃ session s, rcpIqInit .pt16 .pt16 48000 48000 20 (List.replicate 4 ⟨0, 0⟩)
        (List.replicate 4 ⟨0, 0⟩) 4 1 2 3 = .ok session ∧
      runAll (perform 1) (session, ⟨[], []⟩)
        [.tryPut ⟨5, 6⟩, .transmit (.replicate _ 0) (.replicate _ ⟨0, 0⟩) 4096] = .ok s ∧
      SentOnce s :=
  (sentOnce_iff 1 .pt16 .pt16 48000 48000 20 1 2 3 (by decide) (by decide) (by decide)
    [.tryPut ⟨5, 6⟩, .transmit (.replicate _ 0) (.replicate _ ⟨0, 0⟩) 4096]).mpr
    ⟨trivial, by simp [Along, Starved, step]⟩

/-- Two samples of 8 bits are put and sent, and are still in the buffer. -/
theorem sentOnce_fails :
    ∃ session s, rcpIqInit .pt8 .pt8 48000 48000 20 (List.replicate 4 ⟨0, 0⟩)
        (List.replicate 4 ⟨0, 0⟩) 4 1 2 3 = .ok session ∧
      runAll (perform 1) (session, ⟨[], []⟩) [.tryPut ⟨5, 6⟩, .tryPut ⟨7, 8⟩,
        .transmit (.replicate _ 0) (.replicate _ ⟨0, 0⟩) 4096] = .ok s ∧
      ¬ SentOnce s := by
  obtain ⟨session, hinit, hfollows⟩ := rcpIqInit_follows .pt8 .pt8 48000 48000 20
    (List.replicate 4 ⟨0, 0⟩) (List.replicate 4 ⟨0, 0⟩) 4 1 2 3 (by decide) (by decide) (by decide)
  obtain ⟨s, hrun, hfollows'⟩ := run_follows 1 hfollows [.tryPut ⟨5, 6⟩,
    .tryPut ⟨7, 8⟩, .transmit (.replicate _ 0) (.replicate _ ⟨0, 0⟩) 4096]
  refine ⟨session, s, hinit, hrun, fun honce => ?_⟩
  have hnil := (sentOnce_iff_carried hfollows').mp honce
  simp [step] at hnil

end RtpSdr.Sdr.Transmit
