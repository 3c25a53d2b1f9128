import Mathlib.Data.List.Chain
import RtpSdr.Sdr.Datagram

/-!
# The sequence numbers of a session

A transmission moves the sequence number and the time stamp on before it looks at the buffer, so
one that finds too few samples uses up a number. As no transmission takes a sample out of the
buffer, this can only happen before the first datagram: those on the wire follow each other, where
the header is written. One that does not fit is not, and the numbers on the wire are then what the
local array of the call holds.
-/
namespace RtpSdr.Sdr.Sequence

open RtpSdr.Lib.Checked
open RtpSdr.Lib.Memory
open RtpSdr.Lib.BigEndian
open RtpSdr.Rtp.Util
open RtpSdr.Rtp.Header
open RtpSdr.Sdr.Rbuf
open RtpSdr.Sdr.Iq
open RtpSdr.Sdr.Transmit
open RtpSdr.Sdr.Datagram

/-- A sample that is put or offered, or a transmission with what its local arrays hold and the
number of bytes the socket takes. -/
inductive Action where
  | put (data : IqT)
  | tryPut (data : IqT)
  | transmit (data : Vector UInt8 RTP_PACKET_LENGTH) (iqFrame : Vector IqT 2) (sent : Nat)

/-- The datagrams on the wire, and the header before and after each transmission that handed
nothing to the socket. -/
structure Trace where
  wire : List (List UInt8)
  refused : List (RtpHeader × RtpHeader)

def act (fuel : Nat) (s : SessionIq × Trace) : Action → Exec (SessionIq × Trace)
  | .put data => do
    let txIqBuffer ← rbufPut s.1.txIqBuffer data
    .ok ({ s.1 with txIqBuffer := txIqBuffer }, s.2)
  | .tryPut data => do
    let (_, txIqBuffer) ← rbufTryPut s.1.txIqBuffer data
    .ok ({ s.1 with txIqBuffer := txIqBuffer }, s.2)
  | .transmit data iqFrame sent => do
    let t ← rcpIqTransmit fuel s.1 data.toList iqFrame.toList sent
    match t.datagram with
    | some datagram => .ok (t.session, { s.2 with wire := s.2.wire ++ [datagram] })
    | none => .ok (t.session,
        { s.2 with refused := s.2.refused ++ [(s.1.txHeader, t.session.txHeader)] })

/-- The numbers of a datagram, where `rtp_header_parse` reads them. -/
def seqOf (datagram : List UInt8) : Exec UInt16 := readU16 datagram 2

def tsOf (datagram : List UInt8) : Exec UInt32 := readU32 datagram 4

/-- The next sequence number, and a frame later. -/
def Consecutive (frame : UInt32) (d d' : List UInt8) : Prop :=
  ∃ seq ts, seqOf d = .ok seq ∧ tsOf d = .ok ts ∧ seqOf d' = .ok (seq + 1) ∧
    tsOf d' = .ok (ts + frame)

/-- A transmission that sends nothing leaves the numbers of the header, and the datagrams on the
wire follow each other. -/
def Counted (frame : UInt32) (trace : Trace) : Prop :=
  (∀ header ∈ trace.refused, header.2.seq = header.1.seq ∧ header.2.ts = header.1.ts) ∧
    trace.wire.IsChain (Consecutive frame)

/-- The run comes to its end, and its numbers are right. -/
def KeepsCount (session : SessionIq) (actions : List Action) : Prop :=
  ∃ fuel s, runAll (act fuel) (session, ⟨[], []⟩) actions = .ok s ∧
    Counted session.txFrameSamples.toUInt32 s.2

/-- What the calls do to the number of samples in a buffer that takes `capacity`. -/
def fill (capacity : Nat) (n : Nat) : Action → Nat
  | .put _ | .tryPut _ => if n < capacity then n + 1 else n
  | .transmit _ _ _ => n

/-- A transmission finds its two samples. -/
def Fed (n : Nat) : Action → Prop
  | .put _ | .tryPut _ => True
  | .transmit _ _ _ => 2 ≤ n

/-- What the local array of a transmission holds. -/
def Action.array? : Action → Option (List UInt8)
  | .put _ | .tryPut _ => none
  | .transmit data _ _ => some data.toList

def arrays (actions : List Action) : List (List UInt8) := actions.filterMap Action.array?

variable {session : SessionIq} {c : Content} {q : List IqT} {capacity n : Nat} {frame : UInt32}

/-! ## The numbers on the wire -/

theorem drop_datagramOf (session : SessionIq) (c : Content) (q : List IqT) (data : List UInt8) :
    ∃ rest, (datagramOf session c q data).drop 2 = bytes 2 (nextHeader session).seq.toNat
      ++ (bytes 4 (nextHeader session).ts.toNat ++ rest) := by
  refine ⟨bytes 4 c.ssrc.toNat ++ (words c.csrc ++ (extBytes c.ext
    ++ (payloadBytes session.txType (q.take (sampleCount session.txType)) []
      ++ data.drop (c.size + written session.txType)))), ?_⟩
  simp [datagramOf, encode, fixedTail, nextContent]

theorem seqOf_datagramOf (session : SessionIq) (c : Content) (q : List IqT) (data : List UInt8) :
    seqOf (datagramOf session c q data) = .ok (nextHeader session).seq := by
  obtain ⟨rest, hdrop⟩ := drop_datagramOf session c q data
  exact readU16_drop _ hdrop

theorem tsOf_datagramOf (session : SessionIq) (c : Content) (q : List IqT) (data : List UInt8) :
    tsOf (datagramOf session c q data) = .ok (nextHeader session).ts := by
  obtain ⟨rest, hdrop⟩ := drop_datagramOf session c q data
  have hts := drop_add _ hdrop
  rw [length_bytes] at hts
  exact readU32_drop _ hts

/-! ## Any run -/

variable {s s' : SessionIq × Trace} {a : Action} {fuel : Nat} {actions : List Action}

theorem act_below (s : SessionIq × Trace) (a : Action) {n m : Nat} (hle : n ≤ m) :
    Below (act n s a) (act m s a) := by
  cases a with
  | put data => exact Below.refl _
  | tryPut data => exact Below.refl _
  | transmit data iqFrame sent =>
    exact Below.bind (rcpIqTransmit_below _ _ _ _ hle) fun _ => Below.refl _

/-- A sample changes the buffer only. -/
theorem act_stores (hq : Represents s.1.txIqBuffer q) (fuel : Nat) (hnone : a.array? = none) :
    ∃ buffer q', act fuel s a = .ok ({ s.1 with txIqBuffer := buffer }, s.2) ∧
      Represents buffer q' ∧ buffer.max = s.1.txIqBuffer.max ∧
      q'.length = fill (s.1.txIqBuffer.max.toNat - 1) q.length a := by
  have hone := hq.one_lt
  have hfits := hq.fits
  cases a with
  | put data =>
    obtain ⟨buffer, hput, hmax, hrep⟩ := rbufPut_ok hq data
    refine ⟨buffer, _, by rw [act, bind_of_ok hput], hrep, hmax, ?_⟩
    rw [fill]
    split
    · rw [List.length_append, List.length_singleton]
    · rw [List.length_append, List.length_singleton, List.length_tail]
      omega
  | tryPut data =>
    rw [fill]
    by_cases hroom : q.length < s.1.txIqBuffer.max.toNat - 1
    · rw [if_pos hroom]
      refine ⟨_, q ++ [data], ?_, represents_push hq hroom data, rfl, ?_⟩
      · rw [act, bind_of_ok (rbufTryPut_ok hq hroom data)]
      · rw [List.length_append, List.length_singleton]
    · rw [if_neg hroom]
      exact ⟨_, q, by rw [act, bind_of_ok (rbufTryPut_full hq hroom data)], hq, rfl, rfl⟩
  | transmit data iqFrame sent => cases hnone

theorem fed_of_stores (hnone : a.array? = none) (n : Nat) : Fed n a := by
  cases a with
  | put data => trivial
  | tryPut data => trivial
  | transmit data iqFrame sent => cases hnone

theorem le_fill (capacity n : Nat) (a : Action) : n ≤ fill capacity n a := by
  cases a with
  | put data =>
    rw [fill]
    split <;> omega
  | tryPut data =>
    rw [fill]
    split <;> omega
  | transmit data iqFrame sent => exact Nat.le_refl n

/-- Each transmission either sends a datagram or moves the numbers of the header on for nothing. -/
theorem run_moved (hrun : runAll (act fuel) (session, ⟨[], []⟩) actions = .ok s) :
    (∀ header ∈ s.2.refused, header.2.seq = header.1.seq + 1) ∧
      s.2.wire.length + s.2.refused.length = (arrays actions).length := by
  refine runAll_history (I := fun hist (s : SessionIq × Trace) =>
    (∀ header ∈ s.2.refused, header.2.seq = header.1.seq + 1) ∧
      s.2.wire.length + s.2.refused.length = (arrays hist).length) ⟨?_, rfl⟩ ?_ actions hrun
  · intro header hin
    cases hin
  · rintro hist s s' a - ⟨hmoved, hcount⟩ hact
    rw [arrays] at hcount ⊢
    rw [List.filterMap_append, List.length_append, ← hcount]
    cases a with
    | put data =>
      obtain ⟨buffer, -, hact⟩ := bind_eq_ok.mp hact
      cases hact
      exact ⟨hmoved, rfl⟩
    | tryPut data =>
      obtain ⟨buffer, -, hact⟩ := bind_eq_ok.mp hact
      cases hact
      exact ⟨hmoved, rfl⟩
    | transmit data iqFrame sent =>
      obtain ⟨t, ht, hact⟩ := bind_eq_ok.mp hact
      have hnext := rcpIqTransmit_header ht
      cases hdatagram : t.datagram with
      | some datagram =>
        rw [hdatagram] at hact
        cases hact
        refine ⟨hmoved, ?_⟩
        rw [List.length_append, List.length_singleton, Nat.add_right_comm]
        rfl
      | none =>
        rw [hdatagram] at hact
        cases hact
        refine ⟨fun header hin => ?_, ?_⟩
        · rcases List.mem_append.mp hin with hin | hin
          · exact hmoved header hin
          · obtain rfl := List.mem_singleton.mp hin
            rw [hnext]
            rfl
        · rw [List.length_append, List.length_singleton, ← Nat.add_assoc]
          rfl

/-- A number that was moved on for nothing is lost. -/
theorem counted_iff (hrun : runAll (act fuel) (session, ⟨[], []⟩) actions = .ok s) :
    Counted frame s.2 ↔ s.2.refused = [] ∧ s.2.wire.IsChain (Consecutive frame) := by
  have hmoved := (run_moved hrun).1
  refine and_congr_left fun _ => ⟨fun hsame => ?_, fun hnil header hin => ?_⟩
  · apply List.eq_nil_iff_forall_not_mem.mpr
    intro header hin
    have hseq := (hmoved header hin).symm.trans (hsame header hin).1
    exact absurd (UInt16.add_eq_left.mp hseq) (by decide)
  · rw [hnil] at hin
    cases hin

theorem keepsCount_of_run (hrun : runAll (act 256) (session, ⟨[], []⟩) actions = .ok s) :
    KeepsCount session actions ↔ s.2.refused = [] ∧
      s.2.wire.IsChain (Consecutive session.txFrameSamples.toUInt32) := by
  rw [← counted_iff hrun]
  constructor
  · rintro ⟨fuel, s', hrun', hcounted⟩
    have hmono (n m : Nat) (hle : n ≤ m) :
        Below (runAll (act n) (session, ⟨[], []⟩) actions)
          (runAll (act m) (session, ⟨[], []⟩) actions) :=
      runAll_below (fun s a => act_below s a hle) _ actions
    rwa [← eq_of_fuel hmono hrun' hrun]
  · intro hcounted
    exact ⟨256, s, hrun, hcounted⟩

/-- A run that is followed step by step, with what it did, has refused nothing exactly if nothing
was refused before and each of its transmissions finds two samples. -/
theorem run_fed {I : List Action → SessionIq × Trace → Nat → Prop}
    (hact : ∀ hist s n a, I hist s n → ∃ s', act 256 s a = .ok s' ∧
      I (hist ++ [a]) s' (fill capacity n a) ∧
      (s'.2.refused = [] ↔ s.2.refused = [] ∧ Fed n a))
    (hist : List Action) (h : I hist s n) (as : List Action) :
    ∃ s', runAll (act 256) s as = .ok s' ∧ I (hist ++ as) s' (as.foldl (fill capacity) n) ∧
      (s'.2.refused = [] ↔ s.2.refused = [] ∧ Along (fill capacity) Fed n as) := by
  induction as generalizing s n hist with
  | nil => exact ⟨s, rfl, by rwa [List.append_nil], (and_iff_left trivial).symm⟩
  | cons a as ih =>
    obtain ⟨t, hstep, hI, hrefused⟩ := hact hist s n a h
    obtain ⟨s', hrun, hI', hrefused'⟩ := ih (hist ++ [a]) hI
    refine ⟨s', by rw [runAll_cons, bind_of_ok hstep, hrun], ?_, ?_⟩
    · rwa [List.append_assoc, List.singleton_append] at hI'
    · rw [hrefused', hrefused, Along, and_assoc]

/-- One step: a sample leaves the trace as it is, a transmission refuses what finds no samples. -/
theorem act_fed {R : SessionIq × Trace → Prop} (a : Action)
    (hstores : a.array? = none → ∃ s', act 256 s a = .ok s' ∧ R s' ∧ s'.2 = s.2)
    (htransmit : ∀ data iqFrame sent, a = .transmit data iqFrame sent →
      ∃ s', act 256 s a = .ok s' ∧ R s' ∧ (s'.2.refused = [] ↔ s.2.refused = [] ∧ 2 ≤ n)) :
    ∃ s', act 256 s a = .ok s' ∧ R s' ∧ (s'.2.refused = [] ↔ s.2.refused = [] ∧ Fed n a) := by
  have hfed (hnone : a.array? = none) : ∃ s', act 256 s a = .ok s' ∧ R s' ∧
      (s'.2.refused = [] ↔ s.2.refused = [] ∧ Fed n a) := by
    obtain ⟨s', hact, hR, hsame⟩ := hstores hnone
    exact ⟨s', hact, hR, by rw [hsame, and_iff_left (fed_of_stores hnone n)]⟩
  cases a with
  | put data => exact hfed rfl
  | tryPut data => exact hfed rfl
  | transmit data iqFrame sent => exact htransmit data iqFrame sent rfl

/-- Without a transmission nothing is sent and nothing refused. -/
theorem run_stores (hbuffer : Represents session.txIqBuffer q) (harrays : arrays actions = []) :
    KeepsCount session actions := by
  have hnone (a : Action) (hin : a ∈ actions) : a.array? = none :=
    List.filterMap_eq_nil_iff.mp harrays a hin
  obtain ⟨s, hrun, -, htrace⟩ := runAll_invariant (f := act 256)
    (I := fun _ (s : SessionIq × Trace) => (∃ q, Represents s.1.txIqBuffer q) ∧ s.2 = ⟨[], []⟩)
    (P := fun a => a.array? = none) (by
      rintro - s a hnone ⟨⟨q, hq⟩, htrace⟩
      obtain ⟨buffer, q', hact, hrep, -⟩ := act_stores hq 256 hnone
      exact ⟨_, hact, ⟨q', hrep⟩, htrace⟩)
    actions [] hnone (show _ ∧ (session, (⟨[], []⟩ : Trace)).2 = ⟨[], []⟩ from ⟨⟨q, hbuffer⟩, rfl⟩)
  rw [keepsCount_of_run hrun, htrace]
  exact ⟨rfl, .nil⟩

/-! ## Headers that are written -/

/-- The last datagram carries the numbers of the header. -/
def AtHeader (header : RtpHeader) (wire : List (List UInt8)) : Prop :=
  ∀ d ∈ wire.getLast?, seqOf d = .ok header.seq ∧ tsOf d = .ok header.ts

/-- The buffer holds `n` samples, two of them once something was sent. -/
structure Keeps (capacity : Nat) (frame : UInt32) (s : SessionIq × Trace) (n : Nat) : Prop where
  canSend : ∃ c, CanSend s.1 c
  buffer : ∃ q, Represents s.1.txIqBuffer q ∧ q.length = n
  capacity_eq : s.1.txIqBuffer.max.toNat - 1 = capacity
  frame_eq : s.1.txFrameSamples.toUInt32 = frame
  chain : s.2.wire.IsChain (Consecutive frame)
  last : AtHeader s.1.txHeader s.2.wire
  supplied : s.2.wire ≠ [] → 2 ≤ n

theorem act_keeps_stores (h : Keeps capacity frame s n) (hnone : a.array? = none) :
    ∃ s', act 256 s a = .ok s' ∧ Keeps capacity frame s' (fill capacity n a) ∧ s'.2 = s.2 := by
  obtain ⟨q, hq, hlen⟩ := h.buffer
  obtain ⟨buffer, q', hact, hrep, hmax, hlen'⟩ := act_stores hq 256 hnone
  rw [h.capacity_eq, hlen] at hlen'
  refine ⟨_, hact, ?_, rfl⟩
  exact {
    canSend := h.canSend.imp fun _ hc => ⟨hc.shows, hc.ext⟩
    buffer := ⟨q', hrep, hlen'⟩
    capacity_eq := by rw [← h.capacity_eq, ← hmax]
    frame_eq := h.frame_eq
    chain := h.chain
    last := h.last
    supplied := fun hne => Nat.le_trans (h.supplied hne) (le_fill capacity n a) }

/-- The datagram of a call behind those before it, whose last one carries the numbers that the
header still has. -/
theorem chain_datagramOf {wire : List (List UInt8)} (hchain : wire.IsChain (Consecutive frame))
    (hlast : AtHeader session.txHeader wire) (hframe : session.txFrameSamples.toUInt32 = frame)
    (c : Content) (q : List IqT) (data : List UInt8) :
    (wire ++ [datagramOf session c q data]).IsChain (Consecutive frame) ∧
      AtHeader (nextHeader session) (wire ++ [datagramOf session c q data]) := by
  have hseq := seqOf_datagramOf session c q data
  have hts := tsOf_datagramOf session c q data
  constructor
  · refine hchain.append (.singleton _) fun d hd d' hd' => ?_
    obtain rfl := Option.some.inj hd'
    obtain ⟨hseqd, htsd⟩ := hlast d hd
    refine ⟨_, _, hseqd, htsd, hseq, ?_⟩
    rw [hts, ← hframe]
    rfl
  · intro d hd
    rw [List.getLast?_concat] at hd
    obtain rfl := Option.some.inj hd
    exact ⟨hseq, hts⟩

/-- A transmission that finds too few samples. -/
theorem act_refused (h : CanSend s.1 c) (hbuffer : Represents s.1.txIqBuffer q)
    (hfew : q.length < 2) (data : Vector UInt8 RTP_PACKET_LENGTH) (iqFrame : Vector IqT 2)
    (sent : Nat) :
    act 256 s (.transmit data iqFrame sent) = .ok (withHeader s.1 (nextHeader s.1),
      { s.2 with refused := s.2.refused ++ [(s.1.txHeader, nextHeader s.1)] }) := by
  rw [act, bind_of_ok
    (rcpIqTransmit_refused h hbuffer hfew data.length_toList iqFrame.toList sent)]
  rfl

theorem act_keeps_transmit (h : Keeps capacity frame s n) (data : Vector UInt8 RTP_PACKET_LENGTH)
    (iqFrame : Vector IqT 2) (sent : Nat) :
    ∃ s', act 256 s (.transmit data iqFrame sent) = .ok s' ∧ Keeps capacity frame s' n ∧
      (s'.2.refused = [] ↔ s.2.refused = [] ∧ 2 ≤ n) := by
  obtain ⟨session, trace⟩ := s
  obtain ⟨⟨c, hc⟩, ⟨q, hq, hlen⟩, hcap, hframe, hchain, hlast, hsupplied⟩ := h
  by_cases hfed : 2 ≤ n
  · have hrun := rcpIqTransmit_sends hc hq (by omega) data.length_toList iqFrame.length_toList sent
    obtain ⟨hchain', hlast'⟩ := chain_datagramOf hchain hlast hframe c q data.toList
    refine ⟨(_, { trace with wire := _ }), by rw [act, bind_of_ok hrun], ?_, ?_⟩
    · exact ⟨⟨_, hc.next⟩, ⟨q, hq, hlen⟩, hcap, hframe, hchain', hlast', fun _ => hfed⟩
    · exact (and_iff_left hfed).symm
  · have hnone : trace.wire = [] := by
      by_contra hne
      exact hfed (hsupplied hne)
    refine ⟨_, act_refused hc hq (by omega) data iqFrame sent, ?_, ?_⟩
    · refine ⟨⟨_, hc.next⟩, ⟨q, hq, hlen⟩, hcap, hframe, hchain, ?_, hsupplied⟩
      -- nothing is on the wire yet
      intro d hd
      rw [show trace.wire = [] from hnone] at hd
      cases hd
    · exact iff_of_false (fun hnil => absurd hnil (by simp)) (fun hboth => hfed hboth.2)

theorem run_keeps (h : Keeps capacity frame s n) (as : List Action) :
    ∃ s', runAll (act 256) s as = .ok s' ∧ Keeps capacity frame s' (as.foldl (fill capacity) n) ∧
      (s'.2.refused = [] ↔ s.2.refused = [] ∧ Along (fill capacity) Fed n as) := by
  refine run_fed (I := fun _ s n => Keeps capacity frame s n) ?_ [] h as
  intro _ s n a hs
  refine act_fed a (act_keeps_stores hs) ?_
  rintro data iqFrame sent rfl
  exact act_keeps_transmit hs data iqFrame sent

/-- A session before its run. -/
theorem keeps_start (h : CanSend session c) (hbuffer : Represents session.txIqBuffer q) :
    Keeps (session.txIqBuffer.max.toNat - 1) session.txFrameSamples.toUInt32
      (session, ⟨[], []⟩) q.length where
  canSend := ⟨c, h⟩
  buffer := ⟨q, hbuffer, rfl⟩
  capacity_eq := rfl
  frame_eq := rfl
  chain := .nil
  last := by
    intro d hd
    cases hd
  supplied := fun hne => absurd rfl hne

/-! ## Headers that are not written -/

/-- The header does not fit and no sample is written: what was sent is what the arrays held. -/
structure Blind (capacity : Nat) (s : SessionIq × Trace) (n : Nat) (hist : List Action) :
    Prop where
  header : ∃ c, Shows s.1.txHeader c ∧ RTP_PACKET_LENGTH < c.size
  long : Long s.1.txType
  buffer : ∃ q, Represents s.1.txIqBuffer q ∧ q.length = n
  capacity_eq : s.1.txIqBuffer.max.toNat - 1 = capacity
  wire : s.2.refused = [] → s.2.wire = arrays hist

variable {hist : List Action}

theorem arrays_concat (hist : List Action) (a : Action) :
    arrays (hist ++ [a]) = arrays hist ++ a.array?.toList := by
  rw [arrays, List.filterMap_append, ← arrays]
  cases a <;> rfl

theorem act_blind_stores (h : Blind capacity s n hist) (hnone : a.array? = none) :
    ∃ s', act 256 s a = .ok s' ∧ Blind capacity s' (fill capacity n a) (hist ++ [a]) ∧
      s'.2 = s.2 := by
  obtain ⟨q, hq, hlen⟩ := h.buffer
  obtain ⟨buffer, q', hact, hrep, hmax, hlen'⟩ := act_stores hq 256 hnone
  rw [h.capacity_eq, hlen] at hlen'
  refine ⟨_, hact, ?_, rfl⟩
  exact {
    header := h.header
    long := h.long
    buffer := ⟨q', hrep, hlen'⟩
    capacity_eq := by rw [← h.capacity_eq, ← hmax]
    wire := by
      intro hnil
      rw [arrays_concat, hnone, Option.toList_none, List.append_nil]
      exact h.wire hnil }

theorem act_blind_transmit (h : Blind capacity s n hist) (data : Vector UInt8 RTP_PACKET_LENGTH)
    (iqFrame : Vector IqT 2) (sent : Nat) :
    ∃ s', act 256 s (.transmit data iqFrame sent) = .ok s' ∧
      Blind capacity s' n (hist ++ [.transmit data iqFrame sent]) ∧
      (s'.2.refused = [] ↔ s.2.refused = [] ∧ 2 ≤ n) := by
  obtain ⟨session, trace⟩ := s
  obtain ⟨⟨c, hc, hsize⟩, hlong, ⟨q, hq, hlen⟩, hcap, hwire⟩ := h
  have hnext : Shows (nextHeader session) (nextContent session c) := shows_next hc
  by_cases hfed : 2 ≤ n
  · have hrun := rcpIqTransmit_tooLong hc hsize hq (by omega) iqFrame.length_toList
      256 data.toList sent
    rw [if_pos hlong] at hrun
    refine ⟨(_, { trace with wire := _ }), by rw [act, bind_of_ok hrun], ?_, ?_⟩
    · refine ⟨⟨_, hnext, hsize⟩, hlong, ⟨q, hq, hlen⟩, hcap, fun hnil => ?_⟩
      rw [arrays_concat, ← hwire hnil]
      rfl
    · exact (and_iff_left hfed).symm
  · have hrun := rcpIqTransmit_of_few (serialize_tooLong hc hsize 256 data.toList) hq (by omega)
      iqFrame.toList sent
    refine ⟨_, by rw [act, bind_of_ok hrun], ?_, ?_⟩
    · exact ⟨⟨_, hnext, hsize⟩, hlong, ⟨q, hq, hlen⟩, hcap, fun hnil => absurd hnil (by simp)⟩
    · exact iff_of_false (fun hnil => absurd hnil (by simp)) (fun hboth => hfed hboth.2)

theorem run_blind (h : Blind capacity s n hist) (as : List Action) :
    ∃ s', runAll (act 256) s as = .ok s' ∧
      Blind capacity s' (as.foldl (fill capacity) n) (hist ++ as) ∧
      (s'.2.refused = [] ↔ s.2.refused = [] ∧ Along (fill capacity) Fed n as) := by
  refine run_fed (I := fun hist s n => Blind capacity s n hist) ?_ hist h as
  intro hist s n a hs
  refine act_fed a (act_blind_stores hs) ?_
  rintro data iqFrame sent rfl
  exact act_blind_transmit hs data iqFrame sent

/-- Where no call comes to the socket, every transmission of a run was refused. -/
theorem run_mute (h : Shows session.txHeader c) (hmute : ¬ Sends session c)
    (hbuffer : Represents session.txIqBuffer q)
    (hrun : runAll (act fuel) (session, ⟨[], []⟩) actions = .ok s) : s.2.wire = [] := by
  refine (runAll_history (I := fun _ (s : SessionIq × Trace) =>
    (∃ c, Shows s.1.txHeader c ∧ ¬ Sends s.1 c) ∧ (∃ q, Represents s.1.txIqBuffer q) ∧
      s.2.wire = []) ⟨⟨c, h, hmute⟩, ⟨q, hbuffer⟩, rfl⟩ ?_ actions hrun).2.2
  rintro - s s' a - ⟨⟨c, hc, hnot⟩, ⟨q, hq⟩, hwire⟩ hact
  have hstores (hnone : a.array? = none) : (∃ c, Shows s'.1.txHeader c ∧ ¬ Sends s'.1 c) ∧
      (∃ q, Represents s'.1.txIqBuffer q) ∧ s'.2.wire = [] := by
    obtain ⟨buffer, q', hact', hrep, -⟩ := act_stores hq fuel hnone
    obtain rfl := Except.ok.inj (hact'.symm.trans hact)
    exact ⟨⟨c, hc, hnot⟩, ⟨q', hrep⟩, hwire⟩
  cases a with
  | put data => exact hstores rfl
  | tryPut data => exact hstores rfl
  | transmit data iqFrame sent =>
    obtain ⟨t, ht, hact⟩ := bind_eq_ok.mp hact
    have hfew : q.length < 2 := by
      by_contra hfed
      exact rcpIqTransmit_mute hc hnot hq (Nat.le_of_not_lt hfed) iqFrame.length_toList fuel t ht
    obtain ⟨r, hserialize, -⟩ := bind_eq_ok.mp ht
    obtain rfl := Except.ok.inj
      ((rcpIqTransmit_of_few hserialize hq hfew iqFrame.toList sent).symm.trans ht)
    obtain rfl := Except.ok.inj hact
    exact ⟨⟨_, shows_next hc, hnot⟩, ⟨q, hq⟩, hwire⟩

/-! ## Runs -/

/-- Whatever state a session is in, a run keeps count in three cases. There is no transmission; or
each finds its two samples, and the extension has at most 255 words; or each finds them, a header
that does not fit goes out as what the array held, with no sample behind it, and the arrays happen
to count. Where the extension has at most 255 words, the datagrams follow each other in any case. -/
theorem keepsCount_iff (h : Shows session.txHeader c) (hbuffer : Represents session.txIqBuffer q)
    (actions : List Action) :
    (KeepsCount session actions ↔ arrays actions = [] ∨
      Along (fill (session.txIqBuffer.max.toNat - 1)) Fed q.length actions ∧
        (extLength c ≤ 255 ∨ RTP_PACKET_LENGTH < c.size ∧ Long session.txType ∧
          (arrays actions).IsChain (Consecutive session.txFrameSamples.toUInt32))) ∧
    (extLength c ≤ 255 → ∃ s, runAll (act 256) (session, ⟨[], []⟩) actions = .ok s ∧
      s.2.wire.IsChain (Consecutive session.txFrameSamples.toUInt32)) := by
  have hwritten (hle : extLength c ≤ 255) := run_keeps (keeps_start (canSend_of_le h hle) hbuffer)
    actions
  refine ⟨?_, fun hle => ?_⟩
  · by_cases hnone : arrays actions = []
    · exact iff_of_true (run_stores hbuffer hnone) (.inl hnone)
    rw [or_iff_right hnone]
    by_cases hle : extLength c ≤ 255
    · obtain ⟨s, hrun, hkeeps, hrefused⟩ := hwritten hle
      rw [keepsCount_of_run hrun, and_iff_left hkeeps.chain, hrefused, and_iff_right rfl,
        and_iff_left (.inl hle)]
    rw [or_iff_right hle]
    by_cases hsends : RTP_PACKET_LENGTH < c.size ∧ Long session.txType
    · have hblind : Blind (session.txIqBuffer.max.toNat - 1) (session, ⟨[], []⟩) q.length [] :=
        ⟨⟨c, h, hsends.1⟩, hsends.2, ⟨q, hbuffer, rfl⟩, rfl, fun _ => rfl⟩
      obtain ⟨s, hrun, hblind', hrefused⟩ := run_blind hblind actions
      rw [and_iff_right rfl] at hrefused
      rw [keepsCount_of_run hrun, and_iff_right hsends.1, and_iff_right hsends.2, ← hrefused]
      refine and_congr_right fun hnil => ?_
      rw [hblind'.wire hnil, List.nil_append]
    · refine iff_of_false ?_ fun hright => hsends ⟨hright.2.1, hright.2.2.1⟩
      rintro ⟨fuel, s, hrun, hcounted⟩
      have hwire := run_mute h (not_or.mpr ⟨hle, hsends⟩) hbuffer hrun
      have hlen := (run_moved hrun).2
      rw [hwire, ((counted_iff hrun).mp hcounted).1] at hlen
      exact hnone (List.eq_nil_of_length_eq_zero hlen.symm)
  · obtain ⟨s, hrun, hkeeps, -⟩ := hwritten hle
    exact ⟨s, hrun, hkeeps.chain⟩

/-- The session with its buffer emptied. -/
def drained (type : IqType) : SessionIq :=
  { supplied type with txIqBuffer := rbufReset (supplied type).txIqBuffer }

theorem drained_canSend (type : IqType) : ∃ c, CanSend (drained type) c := by
  obtain ⟨c, hshows, hext⟩ := supplied_canSend type
  exact ⟨c, hshows, hext⟩

/-- Two samples and a transmission, twice. -/
def twice : List Action := [.put ⟨5, 6⟩, .tryPut ⟨7, 8⟩,
  .transmit (.replicate _ 0) (.replicate _ ⟨0, 0⟩) 4096, .put ⟨9, 10⟩,
  .transmit (.replicate _ 0) (.replicate _ ⟨0, 0⟩) 4096]

theorem keepsCount_iff_twice : KeepsCount (drained .pt16) twice := by
  obtain ⟨c, h⟩ := drained_canSend .pt16
  have hbuffer := represents_reset (supplied_represents .pt16)
  have hle : extLength c ≤ 255 := h.extLength_le
  refine (keepsCount_iff h.shows hbuffer twice).1.mpr (.inr ⟨?_, .inl hle⟩)
  exact ⟨trivial, trivial, show 2 ≤ 2 by decide, trivial, show 2 ≤ 3 by decide, trivial⟩

/-- A sample and a transmission. -/
def starved : List Action :=
  [.put ⟨5, 6⟩, .transmit (.replicate _ 0) (.replicate _ ⟨0, 0⟩) 4096]

/-- The buffer is not empty, as the loop in the test program asks, and the call finds too few: it
hands nothing to the socket, and a number is gone. -/
theorem keepsCount_fails :
    (∃ session header, runAll (act 256) (drained .pt16, ⟨[], []⟩) starved
        = .ok (session, ⟨[], [((drained .pt16).txHeader, header)]⟩) ∧
      header.seq = (drained .pt16).txHeader.seq + 1) ∧
    ¬ KeepsCount (drained .pt16) starved := by
  obtain ⟨c, h⟩ := drained_canSend .pt16
  have hbuffer := represents_reset (supplied_represents .pt16)
  obtain ⟨buffer, q, hput, hq, -, hlen⟩ := act_stores (s := (drained .pt16, ⟨[], []⟩))
    (a := .put ⟨5, 6⟩) hbuffer 256 rfl
  have hfew : q.length < 2 := by
    rw [hlen]
    decide
  have hnext : CanSend { drained .pt16 with txIqBuffer := buffer } c := ⟨h.shows, h.ext⟩
  have hsend := act_refused (s := ({ drained .pt16 with txIqBuffer := buffer }, ⟨[], []⟩)) hnext hq
    hfew (.replicate _ 0) (.replicate _ ⟨0, 0⟩) 4096
  have hrun : runAll (act 256) (drained .pt16, ⟨[], []⟩) starved
      = .ok (withHeader { drained .pt16 with txIqBuffer := buffer } (nextHeader (drained .pt16)),
        ⟨[], [((drained .pt16).txHeader, nextHeader (drained .pt16))]⟩) := by
    rw [starved, runAll_cons, bind_of_ok hput, runAll_cons]
    exact bind_of_ok hsend
  refine ⟨⟨_, _, hrun, rfl⟩, fun hkeeps => ?_⟩
  exact absurd ((keepsCount_of_run hrun).mp hkeeps).1 (List.cons_ne_nil _ _)

end RtpSdr.Sdr.Sequence
