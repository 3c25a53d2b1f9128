import RtpSdr.Fec.Pkt
import RtpSdr.Fec.Recovery

/-!
# A group over a network

The sender makes the packets of a group one after the other, as the test program of
`fec_group.c` does, and sends each. The receiver reads whatever the network delivers, inserts what
is a packet and decodes when it likes.
-/
namespace RtpSdr.Fec.Transfer

open RtpSdr.Lib.Checked
open RtpSdr.Lib.Memory
open RtpSdr.Lib.BigEndian
open RtpSdr.Fec.Galois
open RtpSdr.Fec.Code
open RtpSdr.Fec.Decode
open RtpSdr.Fec.RoundTrip
open RtpSdr.Fec.Group
open RtpSdr.Fec.Pkt
open RtpSdr.Fec.Recovery

section Source

/-- Field elements as bytes; both are `unsigned char`. -/
def plainBytes (xs : List Gf) : List UInt8 := xs

/-- The loop body: packet `i` of a group, `fec_encode` writing where the payload goes. -/
def makePacket (fec : FecT) (p : Params) (payloads : List (List Gf)) (pkt : FecPkt) (i : Nat) :
    Exec FecPkt := do
  let pkt := fecPktInit pkt
  let pkt := { pkt with hdr := { pkt.hdr with
    packetSeq := UInt8.ofNat i
    fecK := p.k
    fecN := p.n
    fecLen := p.len + 2
    groupTstamp := p.tstamp } }
  let dst ← slice (gfBytes pkt.data) pkt.payload p.len.toNat
  let out ← fecEncode fec (padded p payloads) dst (UInt32.ofNat i) p.len.toUInt32
  let data ← blit pkt.data pkt.payload (plainBytes out)
  let len := if i < p.k.toNat then UInt16.ofNat (payloads.getD i []).length else p.len
  .ok { pkt with data := data, hdr := { pkt.hdr with len } }

/-- The datagrams of a group; `blank` is what the stack holds where a packet is declared. -/
def sendGroup (p : Params) (payloads : List (List Gf)) (blank : Nat → FecPkt) :
    Exec (List (List UInt8)) := do
  cassert (decide (p.len.toNat < FEC_PKT_PAYLOAD_SIZE))
  let fec ← fecNew p.k.toUInt32 p.n.toUInt32
  forUp (fun i sent => do
    let pkt ← makePacket fec p payloads (blank i) i
    let (_, datagram) ← fecPktSend pkt
    .ok (sent ++ [datagram])) p.n.toNat []

/-- What the receiver does: `fec_pkt_read` and an insertion of what it accepts, or a decode. -/
inductive Event where
  | read (input : Option (List UInt8))
  | decode
deriving DecidableEq

def receive (rcv : FecPkt × FecGroup) : Event → Exec (FecPkt × FecGroup)
  | .read input => do
    let (r, pkt) ← fecPktRead rcv.1 input
    if r = 1 then do
      let group ← fecGroupInsertPkt rcv.2 pkt
      .ok (pkt, group)
    else .ok (pkt, rcv.2)
  | .decode => do
    let (_, group) ← fecGroupDecode rcv.2
    .ok (rcv.1, group)

end Source

/-! ## What is sent -/

/-- The header of packet `i`. -/
def header (p : Params) (payloads : List (List Gf)) (i : Nat) : FecPktHdr where
  magic := FEC_PKT_MAGIC
  version := 1
  groupSeq := 0
  packetSeq := UInt8.ofNat i
  fecK := p.k
  fecN := p.n
  fecLen := p.len + 2
  len := if i < p.k.toNat then UInt16.ofNat (payloads.getD i []).length else p.len
  groupTstamp := p.tstamp

/-- What packet `i` carries: its payload, or the parity that the encoder computes. -/
structure Carries (p : Params) (payloads : List (List Gf)) (i : Nat) (bytes : List UInt8) :
    Prop where
  source : i < p.k.toNat → gfBytes bytes = payloads.getD i []
  parity : p.k.toNat ≤ i → ∃ fec dst, fecNew p.k.toUInt32 p.n.toUInt32 = .ok fec ∧
    dst.length = p.len.toNat ∧
    fecEncode fec (padded p payloads) dst (UInt32.ofNat i) p.len.toUInt32 = .ok (gfBytes bytes)
  length : bytes.length = (header p payloads i).len.toNat
  le : bytes.length ≤ p.len.toNat

variable {p : Params} {payloads : List (List Gf)} {i : Nat}

/-- The encoder's output for packet `i` begins with what the packet carries. -/
theorem encode_carries (hp : Payloads p payloads) {fec : FecT}
    (hfec : fecNew p.k.toUInt32 p.n.toUInt32 = .ok fec) (hi : i < p.n.toNat) {dst : List Gf}
    (hdst : dst.length = p.len.toNat) :
    ∃ out, fecEncode fec (padded p payloads) dst (UInt32.ofNat i) p.len.toUInt32 = .ok out ∧
      out.length = p.len.toNat ∧
      Carries p payloads i ((plainBytes out).take (header p payloads i).len.toNat) := by
  have hn := p.n.toNat_lt
  have hidx : (UInt32.ofNat i).toNat = i :=
    UInt32.toNat_ofNat_of_lt' (by rw [UInt32.size]; omega)
  obtain ⟨fec', hfec', hg⟩ := hp.fecNew_ok
  obtain rfl := Except.ok.inj (hfec.symm.trans hfec')
  by_cases hk : i < p.k.toNat
  · obtain ⟨hpos, hle⟩ := hp.getD hk
    have hlen : (header p payloads i).len.toNat = (payloads.getD i []).length := by
      have hfits := p.len.toNat_lt
      rw [header]
      dsimp only
      rw [if_pos hk, UInt16.toNat_ofNat_of_lt' (by rw [UInt16.size]; omega)]
    have hrow : (packet (padded p payloads) (UInt32.ofNat i).toNat)
        = paddedRow p.len.toNat (payloads.getD i []) := by rw [hidx, hp.packet hk]
    refine ⟨_, fecEncode_source hg (by rw [hidx]; exact hk)
      (by rw [padded, List.length_map, hp.length])
      (by rw [hrow, length_paddedRow hle, toNat_len]) (by rw [hdst, toNat_len]), ?_, ?_⟩
    · rw [hrow, length_paddedRow hle]
    · have htake : (plainBytes (paddedRow p.len.toNat (payloads.getD i []))).take
          (payloads.getD i []).length = plainBytes (payloads.getD i []) := List.take_left
      rw [hrow, hlen, htake]
      exact ⟨fun _ => rfl, fun h => absurd hk (Nat.not_lt.mpr h), hlen.symm, hle⟩
  · have hki := Nat.le_of_not_lt hk
    have hlen : (header p payloads i).len = p.len := if_neg hk
    obtain ⟨out, hout, hol, -⟩ := fecEncode_parity (padded p payloads) dst (UInt32.ofNat i)
      p.len.toUInt32 hg (hp.le.trans (by omega)) (by omega) (by rw [hidx]; exact hki)
      (by rw [hidx]; exact hi) (by rw [padded, List.length_map, hp.length])
      (fun j hj => by rw [hp.packet hj, length_paddedRow (hp.getD hj).2, toNat_len])
      (by rw [hdst, toNat_len])
    rw [toNat_len] at hol
    refine ⟨out, hout, hol, ?_⟩
    have htake : (plainBytes out).take out.length = plainBytes out := List.take_length
    rw [hlen, ← hol, htake]
    exact ⟨fun h => absurd h hk, fun _ => ⟨fec, dst, hfec, hdst, hout⟩, by rw [hlen]; exact hol,
      hol.le⟩

/-- The datagram of packet `i` with what it carries. -/
def datagramOf (p : Params) (payloads : List (List Gf)) (i : Nat) (bytes : List UInt8) :
    List UInt8 :=
  headerBytes (header p payloads i) ++ bytes

theorem sendPacket_ok (hp : Payloads p payloads) (hfit : p.len.toNat < FEC_PKT_PAYLOAD_SIZE)
    {fec : FecT} (hfec : fecNew p.k.toUInt32 p.n.toUInt32 = .ok fec) (hi : i < p.n.toNat)
    {pkt : FecPkt} (hpkt : pkt.data.length = FEC_PKT_SIZE) :
    ∃ made sent bytes, makePacket fec p payloads pkt i = .ok made ∧
      fecPktSend made = .ok (sent, datagramOf p payloads i bytes) ∧
      Carries p payloads i bytes := by
  have hsize : FEC_PKT_SIZE = FEC_PKT_HDR_SIZE + FEC_PKT_PAYLOAD_SIZE := rfl
  have hroom : FEC_PKT_HDR_SIZE + p.len.toNat ≤ pkt.data.length := by omega
  have hslice : slice (gfBytes pkt.data) FEC_PKT_HDR_SIZE p.len.toNat
      = .ok (((gfBytes pkt.data).drop FEC_PKT_HDR_SIZE).take p.len.toNat) := slice_of_le hroom
  have hdst : (((gfBytes pkt.data).drop FEC_PKT_HDR_SIZE).take p.len.toNat).length
      = p.len.toNat := by
    rw [List.length_take, List.length_drop, length_gfBytes]
    omega
  obtain ⟨out, hout, hol, hcarries⟩ := encode_carries hp hfec hi hdst
  have hle := hcarries.le
  have hlen := hcarries.length
  have hroom' : FEC_PKT_HDR_SIZE + (plainBytes out).length ≤ pkt.data.length := by
    change FEC_PKT_HDR_SIZE + out.length ≤ _
    omega
  have hmade : makePacket fec p payloads pkt i = .ok
      ⟨header p payloads i, put pkt.data FEC_PKT_HDR_SIZE (plainBytes out), FEC_PKT_HDR_SIZE⟩ := by
    rw [makePacket]
    dsimp only [fecPktInit]
    rw [bind_of_ok hslice, bind_of_ok hout, bind_of_ok (blit_of_le hroom')]
    rfl
  have hdrop : (put pkt.data FEC_PKT_HDR_SIZE (plainBytes out)).drop FEC_PKT_HDR_SIZE
      = plainBytes out ++ pkt.data.drop (FEC_PKT_HDR_SIZE + (plainBytes out).length) := by
    rw [put, List.append_assoc, List.drop_left' (by rw [List.length_take]; omega)]
  have hsend := fecPktSend_ok
    ⟨header p payloads i, put pkt.data FEC_PKT_HDR_SIZE (plainBytes out), FEC_PKT_HDR_SIZE⟩
    (by rw [← hpkt]; exact length_put hroom') (by dsimp only; rw [← hlen]; omega)
  dsimp only at hsend
  rw [hdrop, List.take_append_of_le_length (by
    change _ ≤ out.length
    rw [hol, ← hlen]
    exact hle)] at hsend
  exact ⟨_, _, _, hmade, hsend, hcarries⟩

/-- The datagrams of a group, each with what its packet carries. -/
structure Sent (p : Params) (payloads : List (List Gf)) (datagrams : List (List UInt8)) : Prop where
  length : datagrams.length = p.n.toNat
  datagram : ∀ i, i < p.n.toNat → ∃ bytes, Carries p payloads i bytes ∧
    datagrams.getD i [] = datagramOf p payloads i bytes

theorem sendGroup_ok (hp : Payloads p payloads) (hfit : p.len.toNat < FEC_PKT_PAYLOAD_SIZE)
    (blank : Nat → FecPkt) (hblank : ∀ i, (blank i).data.length = FEC_PKT_SIZE) :
    ∃ datagrams, sendGroup p payloads blank = .ok datagrams ∧ Sent p payloads datagrams := by
  obtain ⟨fec, hfec, -⟩ := hp.fecNew_ok
  have hassert : cassert (decide (p.len.toNat < FEC_PKT_PAYLOAD_SIZE)) = .ok () := by
    rw [decide_eq_true hfit]
    rfl
  rw [sendGroup, bind_of_ok hassert, bind_of_ok hfec]
  obtain ⟨datagrams, hrun, hlength, hsent⟩ := forUp_invariant
    (b := fun i sent => do
      let pkt ← makePacket fec p payloads (blank i) i
      let (_, datagram) ← fecPktSend pkt
      .ok (sent ++ [datagram]))
    (I := fun n sent => sent.length = n ∧ ∀ i, i < n → ∃ bytes, Carries p payloads i bytes ∧
      sent.getD i [] = datagramOf p payloads i bytes)
    (s := []) p.n.toNat ⟨rfl, fun i hi => absurd hi (Nat.not_lt_zero i)⟩ (by
      intro i sent hi h
      obtain ⟨hlength, hsent⟩ := h
      obtain ⟨made, out, bytes, hmade, hsend, hcarries⟩ :=
        sendPacket_ok hp hfit hfec hi (hblank i)
      refine ⟨_, by rw [bind_of_ok hmade, bind_of_ok hsend], ?_, fun j hj => ?_⟩
      · rw [List.length_append, hlength]
        rfl
      · by_cases hji : j < i
        · rw [List.getD_append _ _ _ _ (by omega)]
          exact hsent j hji
        · obtain rfl : j = i := by omega
          rw [List.getD_append_right _ _ _ _ (by omega), hlength, Nat.sub_self]
          exact ⟨bytes, hcarries, rfl⟩)
  exact ⟨datagrams, hrun, hlength, hsent⟩

/-! ## What arrives -/

/-- The number of packet `i` in its header. -/
theorem toNat_packetSeq (hi : i < p.n.toNat) : (UInt8.ofNat i).toNat = i := by
  have hn := p.n.toNat_lt
  exact UInt8.toNat_ofNat_of_lt' (by rw [UInt8.size]; omega)

/-- A datagram of the group is read as the packet it was made of. -/
theorem read_datagram {bytes : List UInt8} (hfit : p.len.toNat < FEC_PKT_PAYLOAD_SIZE)
    (htstamp : p.tstamp.toNat < 2 ^ 32) (hi : i < p.n.toNat) (hc : Carries p payloads i bytes)
    {pkt : FecPkt} (hpkt : pkt.data.length = FEC_PKT_SIZE) :
    ∃ got, fecPktRead pkt (some (datagramOf p payloads i bytes)) = .ok (1, got) ∧
      got.data.length = FEC_PKT_SIZE ∧ IsPacket p payloads got ∧
      got.hdr.packetSeq.toNat = i := by
  have hsize : FEC_PKT_SIZE = FEC_PKT_HDR_SIZE + FEC_PKT_PAYLOAD_SIZE := rfl
  have hle := hc.le
  have hwhole : (datagramOf p payloads i bytes).length = FEC_PKT_HDR_SIZE + bytes.length := by
    rw [datagramOf, List.length_append, length_headerBytes]
  obtain ⟨got, hread, hgot⟩ := fecPktRead_header pkt (header p payloads i) bytes hpkt htstamp
    (by change (datagramOf p payloads i bytes).length ≤ _; omega)
  rw [if_pos ⟨rfl, hc.length.symm⟩] at hread
  have hlength : (put pkt.data 0 (datagramOf p payloads i bytes)).length = FEC_PKT_SIZE := by
    rw [length_put (by omega), hpkt]
  obtain rfl := hgot rfl hc.length.symm
  have hseq : (header p payloads i).packetSeq.toNat = i := toNat_packetSeq hi
  have hcarried : carried ⟨header p payloads i, put pkt.data 0 (datagramOf p payloads i bytes),
      FEC_PKT_HDR_SIZE⟩ = gfBytes bytes := by
    rw [carried]
    dsimp only
    rw [← hc.length, put_zero, datagramOf]
    change ((headerBytes (header p payloads i) ++ bytes ++ _).drop FEC_PKT_HDR_SIZE).take
      bytes.length = bytes
    rw [List.append_assoc, List.drop_left' (length_headerBytes _), List.take_left]
  refine ⟨_, hread, hlength, ⟨?_, rfl, ?_, ?_, ?_⟩, hseq⟩
  · exact UInt8.lt_iff_toNat_lt.mpr (by rw [hseq]; exact hi)
  · change FEC_PKT_HDR_SIZE + (header p payloads i).len.toNat
      ≤ (put pkt.data 0 (datagramOf p payloads i bytes)).length
    rw [← hc.length, hlength]
    omega
  · intro hk
    have hki : i < p.k.toNat := by
      rw [← hseq]
      exact UInt8.lt_iff_toNat_lt.mp hk
    refine hcarried.trans ((hc.source hki).trans ?_)
    rw [hseq]
  · intro hk
    have hki : p.k.toNat ≤ i := by
      rw [← hseq]
      exact UInt8.le_iff_toNat_le.mp hk
    obtain ⟨fec, dst, hfec, hdst, hout⟩ := hc.parity hki
    refine ⟨fec, dst, hfec, hdst, ?_⟩
    have hidx : (header p payloads i).packetSeq.toUInt32 = UInt32.ofNat i := by
      rw [← UInt32.toNat_inj, UInt8.toNat_toUInt32, hseq,
        UInt32.toNat_ofNat_of_lt' (by have := p.n.toNat_lt; rw [UInt32.size]; omega)]
    refine Eq.trans ?_ (hout.trans (congrArg Except.ok hcarried.symm))
    rw [hidx]

/-- What `fec_pkt_read` does not accept: errors, the end of the stream and malformed datagrams. -/
def Rejected : Option (List UInt8) → Prop
  | none => True
  | some datagram => datagram.length ≤ FEC_PKT_SIZE ∧
    ¬(FEC_PKT_HDR_SIZE ≤ datagram.length ∧ datagram.head? = some FEC_PKT_MAGIC ∧
      value ((datagram.drop 8).take 2) = datagram.length - FEC_PKT_HDR_SIZE)

theorem readSocket_length {data data' : List UInt8} {size : Nat} {input : Option (List UInt8)}
    {len : Int} (h : readSocket data size input = .ok (len, data')) :
    data'.length = data.length := by
  cases input with
  | none =>
    cases h
    rfl
  | some datagram =>
    obtain ⟨copied, hcopy, hret⟩ := bind_eq_ok.mp h
    obtain rfl := (Prod.mk.inj (Except.ok.inj hret)).2
    exact length_of_blit hcopy

theorem fecPktRead_length {pkt got : FecPkt} {input : Option (List UInt8)} {r : Int}
    (h : fecPktRead pkt input = .ok (r, got)) : got.data.length = pkt.data.length := by
  obtain ⟨⟨len, data⟩, hsocket, h⟩ := bind_eq_ok.mp h
  rw [← readSocket_length hsocket]
  dsimp only at h
  split at h
  · cases h
    rfl
  split at h
  · cases h
    rfl
  split at h
  · cases h
    rfl
  obtain ⟨magic, -, h⟩ := bind_eq_ok.mp h
  split at h
  · cases h
    rfl
  obtain ⟨version, -, h⟩ := bind_eq_ok.mp h
  obtain ⟨groupSeq, -, h⟩ := bind_eq_ok.mp h
  obtain ⟨packetSeq, -, h⟩ := bind_eq_ok.mp h
  obtain ⟨fecK, -, h⟩ := bind_eq_ok.mp h
  obtain ⟨fecN, -, h⟩ := bind_eq_ok.mp h
  obtain ⟨fecLen, -, h⟩ := bind_eq_ok.mp h
  obtain ⟨hdrLen, -, h⟩ := bind_eq_ok.mp h
  obtain ⟨tstamp, -, h⟩ := bind_eq_ok.mp h
  split at h
  · cases h
    rfl
  · cases h
    rfl

theorem read_rejected {input : Option (List UInt8)} (h : Rejected input) {pkt : FecPkt}
    (hpkt : pkt.data.length = FEC_PKT_SIZE) :
    ∃ r got, fecPktRead pkt input = .ok (r, got) ∧ r ≠ 1 ∧ got.data.length = FEC_PKT_SIZE := by
  suffices hread : ∃ r got, fecPktRead pkt input = .ok (r, got) ∧ r ≠ 1 by
    obtain ⟨r, got, hread, hr⟩ := hread
    exact ⟨r, got, hread, hr, (fecPktRead_length hread).trans hpkt⟩
  cases input with
  | none => exact ⟨-1, _, rfl, by decide⟩
  | some datagram =>
    obtain ⟨hfits, hnot⟩ := h
    by_cases hempty : datagram = []
    · subst hempty
      have hnone : fecPktRead pkt (some []) = .ok (0, { pkt with data := put pkt.data 0 [] }) := by
        rw [fecPktRead, bind_of_ok (readSocket_ok (Nat.zero_le _) (Nat.zero_le _))]
        rfl
      exact ⟨0, _, hnone, by decide⟩
    · by_cases hshort : datagram.length < FEC_PKT_HDR_SIZE
      · obtain ⟨got, hread⟩ := fecPktRead_short pkt hpkt hempty hshort
        exact ⟨-1, got, hread, by decide⟩
      · obtain ⟨hdr, htstamp, heq⟩ := exists_header (Nat.le_of_not_lt hshort)
        generalize datagram.drop FEC_PKT_HDR_SIZE = payload at heq
        subst heq
        obtain ⟨r, got, hread, hiff, -⟩ := read_header pkt hpkt hdr htstamp payload hfits
        exact ⟨r, got, hread, fun hr => hnot (hiff.mp hr)⟩

/-! ## The network -/

/-- The network delivers datagrams that were sent, late, twice or never, and now and then
something that `fec_pkt_read` refuses. -/
def Delivers (datagrams : List (List UInt8)) : Event → Prop
  | .read input => Rejected input ∨ ∃ datagram ∈ datagrams, input = some datagram
  | .decode => True

/-- The packets delivered. -/
def delivered (datagrams : List (List UInt8)) (events : List Event) : Finset Nat :=
  (Finset.range datagrams.length).filter fun i =>
    Event.read (some (datagrams.getD i [])) ∈ events

variable {datagrams : List (List UInt8)} {hist : List Event}

/-- Packets of a group differ in the number in their headers. -/
theorem Sent.injective (h : Sent p payloads datagrams) {i j : Nat} (hi : i < p.n.toNat)
    (hj : j < p.n.toNat) (heq : datagrams.getD i [] = datagrams.getD j []) : i = j := by
  obtain ⟨bytes, -, hdatagram⟩ := h.datagram i hi
  obtain ⟨bytes', -, hdatagram'⟩ := h.datagram j hj
  have hseq : (datagramOf p payloads i bytes).getD 3 0
      = (datagramOf p payloads j bytes').getD 3 0 := by
    rw [← hdatagram, ← hdatagram', heq]
  change UInt8.ofNat i = UInt8.ofNat j at hseq
  rw [← toNat_packetSeq hi, ← toNat_packetSeq hj, hseq]

/-- A datagram of the group is no noise. -/
theorem Sent.not_rejected (h : Sent p payloads datagrams) (hi : i < p.n.toNat) :
    ¬ Rejected (some (datagrams.getD i [])) := by
  obtain ⟨bytes, hc, hdatagram⟩ := h.datagram i hi
  have hlength : (datagrams.getD i []).length = FEC_PKT_HDR_SIZE + bytes.length := by
    rw [hdatagram, datagramOf, List.length_append, length_headerBytes]
  intro hrejected
  refine hrejected.2 ⟨by omega, ?_, ?_⟩
  · rw [hdatagram, datagramOf, head_headerBytes]
    rfl
  · rw [hlength, hdatagram, datagramOf, lengthField, ← hc.length, Nat.add_sub_cancel_left]

theorem delivered_concat_datagram (h : Sent p payloads datagrams) (hi : i < p.n.toNat) :
    delivered datagrams (hist ++ [.read (some (datagrams.getD i []))])
      = insert i (delivered datagrams hist) := by
  ext j
  simp only [delivered, Finset.mem_filter, Finset.mem_range, Finset.mem_insert, List.mem_append,
    List.mem_singleton, Event.read.injEq, Option.some.injEq, h.length]
  constructor
  · rintro ⟨hj, hmem | heq⟩
    · exact .inr ⟨hj, hmem⟩
    · exact .inl (h.injective hj hi heq)
  · rintro (rfl | ⟨hj, hmem⟩)
    · exact ⟨hi, .inr rfl⟩
    · exact ⟨hj, .inl hmem⟩

theorem delivered_concat_other (h : Sent p payloads datagrams) {event : Event}
    (hevent : ∀ input, event = .read input → Rejected input) :
    delivered datagrams (hist ++ [event]) = delivered datagrams hist := by
  ext j
  simp only [delivered, Finset.mem_filter, Finset.mem_range, List.mem_append,
    List.mem_singleton, h.length]
  constructor
  · rintro ⟨hj, hmem | heq⟩
    · exact ⟨hj, hmem⟩
    · exact absurd (hevent _ heq.symm) (h.not_rejected hj)
  · rintro ⟨hj, hmem⟩
    exact ⟨hj, .inl hmem⟩

/-! ## The receiver -/

/-- The group has recovered from what was delivered so far. -/
structure Receiving (p : Params) (payloads : List (List Gf)) (datagrams : List (List UInt8))
    (hist : List Event) (rcv : FecPkt × FecGroup) : Prop where
  data : rcv.1.data.length = FEC_PKT_SIZE
  recovers : ∃ mem ls,
    Recovers p (padded p payloads) (delivered datagrams hist) mem ls rcv.2

theorem receive_step (hp : Payloads p payloads) (hfit : p.len.toNat < FEC_PKT_PAYLOAD_SIZE)
    (htstamp : p.tstamp.toNat < 2 ^ 32) (hsent : Sent p payloads datagrams) (event : Event)
    (hevent : Delivers datagrams event) {rcv : FecPkt × FecGroup}
    (h : Receiving p payloads datagrams hist rcv) :
    ∃ rcv', receive rcv event = .ok rcv' ∧
      Receiving p payloads datagrams (hist ++ [event]) rcv' ∧
      (rcv.2.decoded = 1 → rcv'.2.decoded = 1) := by
  obtain ⟨hdata, mem, ls, hr⟩ := h
  cases event with
  | read input =>
    rcases hevent with hrejected | ⟨datagram, hmem, rfl⟩
    · obtain ⟨r, got, hread, hr1, hgot⟩ := read_rejected hrejected hdata
      refine ⟨(got, rcv.2), ?_, ⟨hgot, mem, ls, ?_⟩, id⟩
      · rw [receive, bind_of_ok hread]
        exact if_neg hr1
      · rw [delivered_concat_other hsent (by rintro _ ⟨⟩; exact hrejected)]
        exact hr
    · obtain ⟨i, hi, rfl⟩ := List.mem_iff_getElem.mp hmem
      have hget : datagrams[i] = datagrams.getD i [] := by
        rw [List.getD_eq_getElem?_getD, List.getElem?_eq_getElem hi, Option.getD_some]
      rw [hsent.length] at hi
      rw [hget]
      obtain ⟨bytes, hc, hdatagram⟩ := hsent.datagram i hi
      obtain ⟨got, hread, hgot, hpacket, hseq⟩ := read_datagram hfit htstamp hi hc hdata
      obtain ⟨g', mem', ls', hins, hr', hdec⟩ := insertPkt_recovers hp hr hpacket
      refine ⟨(got, g'), ?_, ⟨hgot, mem', ls', ?_⟩, fun h1 => hdec.trans h1⟩
      · rw [receive, hdatagram, bind_of_ok hread]
        dsimp only
        rw [if_pos rfl, bind_of_ok hins]
      · rw [delivered_concat_datagram hsent hi, ← hseq]
        exact hr'
  | decode =>
    obtain ⟨r, g', mem', hrun, hr', -, hiff, hone⟩ := decode_recovers hp hr
    refine ⟨(rcv.1, g'), by rw [receive, bind_of_ok hrun], ⟨hdata, mem', ls, ?_⟩, fun h1 => ?_⟩
    · rw [delivered_concat_other hsent (by rintro _ ⟨⟩)]
      exact hr'
    · rcases hr.decoded with h0 | ⟨-, hcard, -⟩
      · omega
      · exact hone (hiff.mpr hcard)

theorem receive_run (hp : Payloads p payloads) (hfit : p.len.toNat < FEC_PKT_PAYLOAD_SIZE)
    (htstamp : p.tstamp.toNat < 2 ^ 32) (hsent : Sent p payloads datagrams)
    (more : List Event) (hmore : ∀ event ∈ more, Delivers datagrams event)
    {rcv : FecPkt × FecGroup} (h : Receiving p payloads datagrams hist rcv) :
    ∃ rcv', runAll receive rcv more = .ok rcv' ∧
      Receiving p payloads datagrams (hist ++ more) rcv' ∧
      (rcv.2.decoded = 1 → rcv'.2.decoded = 1) := by
  obtain ⟨rcv', hrun, hr, hdec⟩ := runAll_invariant (f := receive) (P := Delivers datagrams)
    (I := fun hist rcv' => Receiving p payloads datagrams hist rcv' ∧
      (rcv.2.decoded = 1 → rcv'.2.decoded = 1))
    (fun hist t event hevent ⟨hr, hdec⟩ => by
      obtain ⟨t', hrun, hr', hdec'⟩ := receive_step hp hfit htstamp hsent event hevent hr
      exact ⟨t', hrun, hr', fun h1 => hdec' (hdec h1)⟩)
    more hist hmore ⟨h, id⟩
  exact ⟨rcv', hrun, hr, hdec⟩

/-- The header has 32 bits for the time stamp, and a group with more of them refuses its own
packets. -/
theorem receive_late (hfit : p.len.toNat < FEC_PKT_PAYLOAD_SIZE)
    (htstamp : 2 ^ 32 ≤ p.tstamp.toNat) (hsent : Sent p payloads datagrams)
    {datagram : List UInt8} (hmem : datagram ∈ datagrams) {pkt : FecPkt}
    (hpkt : pkt.data.length = FEC_PKT_SIZE) {g : FecGroup} (hg : g.tstamp = p.tstamp) :
    receive (pkt, g) (.read (some datagram)) = .error .assertion := by
  have hsize : FEC_PKT_SIZE = FEC_PKT_HDR_SIZE + FEC_PKT_PAYLOAD_SIZE := rfl
  obtain ⟨i, hi, rfl⟩ := List.mem_iff_getElem.mp hmem
  obtain ⟨bytes, hc, hdatagram⟩ := hsent.datagram i (hsent.length ▸ hi)
  rw [List.getD_eq_getElem?_getD, List.getElem?_eq_getElem hi, Option.getD_some] at hdatagram
  have hle := hc.le
  generalize harrived : { header p payloads i with
    groupTstamp := p.tstamp.toUInt32.toUInt64 } = arrived
  have hbytes : headerBytes arrived = headerBytes (header p payloads i) := by
    rw [← harrived]
    exact headerBytes_mod (header p payloads i)
  have htime : arrived.groupTstamp = p.tstamp.toUInt32.toUInt64 := by rw [← harrived]
  have hmagic : arrived.magic = FEC_PKT_MAGIC := by rw [← harrived]; rfl
  have hlen : arrived.len.toNat = bytes.length := by rw [← harrived]; exact hc.length.symm
  obtain ⟨got, hread, hgot⟩ := fecPktRead_header pkt arrived bytes hpkt
    (by rw [htime]; exact UInt32.toNat_lt _)
    (by rw [List.length_append, length_headerBytes]; omega)
  rw [if_pos ⟨hmagic, hlen⟩, hbytes] at hread
  have hother : ¬ got.hdr.groupTstamp = g.tstamp := by
    intro heq
    rw [hgot hmagic hlen, hg, htime] at heq
    have hlt := UInt32.toNat_lt p.tstamp.toUInt32
    rw [← UInt32.toNat_toUInt64, heq] at hlt
    omega
  have hassert : fecGroupInsertPkt g got = .error .assertion := by
    have hfails : cassert false = .error .assertion := rfl
    rw [fecGroupInsertPkt, decide_eq_false hother, hfails]
    by_cases hseq : got.hdr.packetSeq < g.fecN
    · rw [decide_eq_true hseq, cassert_true, ok_bind]
      by_cases hlen : got.hdr.len ≤ g.fecLen
      · rw [decide_eq_true hlen, cassert_true, ok_bind, error_bind]
      · rw [decide_eq_false hlen, hfails, error_bind]
    · rw [decide_eq_false hseq, hfails, error_bind]
  rw [receive, hdatagram]
  change fecPktRead pkt (some (headerBytes (header p payloads i) ++ bytes)) >>= _ = _
  rw [bind_of_ok hread]
  dsimp only
  rw [if_pos rfl, hassert, error_bind]

/-- The datagrams of a group over a network that loses, repeats, reorders and adds noise: a decode
succeeds exactly if `fec_k` of them have arrived, and from then on the first `fec_k` rows are the
payloads, whatever else arrives. A group whose time stamp has more than 32 bits stops at the
first of its packets. -/
theorem transfer_recovers {p : Params} {payloads : List (List Gf)} (hp : Payloads p payloads)
    (hfit : p.len.toNat < FEC_PKT_PAYLOAD_SIZE) (blank : Nat → FecPkt)
    (hblank : ∀ i, (blank i).data.length = FEC_PKT_SIZE) (pkt : FecPkt)
    (hpkt : pkt.data.length = FEC_PKT_SIZE) (seq : UInt8) (block : Nat → Gf) :
    ∃ datagrams, sendGroup p payloads blank = .ok datagrams ∧
      datagrams.length = p.n.toNat ∧
      (p.tstamp.toNat < 2 ^ 32 → ∀ events, (∀ event ∈ events, Delivers datagrams event) →
        ∃ pkt' g r g',
          runAll receive (pkt, fecGroupInit p.k p.n seq p.tstamp p.len block) events
            = .ok (pkt', g) ∧
          fecGroupDecode g = .ok (r, g') ∧ (r = 0 ∨ r = 1) ∧
          (r = 1 ↔ p.k.toNat ≤ (delivered datagrams events).card) ∧
          (r = 1 → ∀ more, (∀ event ∈ more, Delivers datagrams event) →
            ∃ pkt'' g'' buf, runAll receive (pkt', g') more = .ok (pkt'', g'') ∧
              g''.buf = .obj buf ∧ ∀ i, i < p.k.toNat →
                row buf p.len.toNat i = paddedRow p.len.toNat (payloads.getD i []))) ∧
      (2 ^ 32 ≤ p.tstamp.toNat → ∀ datagram ∈ datagrams,
        receive (pkt, fecGroupInit p.k p.n seq p.tstamp p.len block) (.read (some datagram))
          = .error .assertion) := by
  obtain ⟨datagrams, hrun, hsent⟩ := sendGroup_ok hp hfit blank hblank
  refine ⟨datagrams, hrun, hsent.length, fun htstamp events hevents => ?_,
    fun htstamp datagram hmem => receive_late hfit htstamp hsent hmem hpkt rfl⟩
  have hstart : Receiving p payloads datagrams []
      (pkt, fecGroupInit p.k p.n seq p.tstamp p.len block) := by
    have hnone : delivered datagrams [] = arrived [] := by
      rw [delivered, Finset.filter_false_of_mem fun i _ => List.not_mem_nil]
      rfl
    exact ⟨hpkt, _, _, hnone ▸ init_recovers p payloads seq block⟩
  obtain ⟨⟨pkt', g⟩, hreceive, hr, -⟩ := receive_run hp hfit htstamp hsent events hevents hstart
  rw [List.nil_append] at hr
  obtain ⟨hdata, mem, ls, hrec⟩ := hr
  obtain ⟨r, g', mem', hdec, hrec', h01, hiff, hone⟩ := decode_recovers hp hrec
  refine ⟨pkt', g, r, g', hreceive, hdec, h01, hiff, fun h1 more hmore => ?_⟩
  have hreceiving : Receiving p payloads datagrams events (pkt', g') := ⟨hdata, mem', ls, hrec'⟩
  obtain ⟨⟨pkt'', g''⟩, hrun', ⟨-, mem'', ls'', hr''⟩, hkeep⟩ :=
    receive_run hp hfit htstamp hsent more hmore hreceiving
  exact ⟨pkt'', g'', mem'', hrun', hr''.tracks.buf, fun i hi =>
    hr''.rows_eq hp (hkeep (hone h1)) hi⟩

/-- Noise, the parity packet, a decode too early, a packet and the parity packet once more. -/
def deliveries (datagrams : List (List UInt8)) : List Event :=
  [.read (some [0xfe]), .read (some (datagrams.getD 2 [])), .decode,
    .read (some (datagrams.getD 0 [])), .read (some (datagrams.getD 2 []))]

theorem transfer_recovers_twoOfThree :
    ∃ datagrams, sendGroup ⟨2, 3, 4, 0⟩ [gfBytes [7, 9], gfBytes [5]]
        (fun _ => ⟨⟨0, 0, 0, 0, 0, 0, 0, 0, 0⟩, List.replicate 65535 0, 0⟩) = .ok datagrams ∧
      datagrams.length = 3 ∧
      ∃ pkt' g r g', runAll receive
          (⟨⟨0, 0, 0, 0, 0, 0, 0, 0, 0⟩, List.replicate 65535 0, 0⟩,
            fecGroupInit 2 3 0 0 4 fun _ => 0) (deliveries datagrams) = .ok (pkt', g) ∧
        fecGroupDecode g = .ok (r, g') ∧ (r = 0 ∨ r = 1) ∧
        (r = 1 ↔ 2 ≤ (delivered datagrams (deliveries datagrams)).card) := by
  have hpayloads : Payloads ⟨2, 3, 4, 0⟩ [gfBytes [7, 9], gfBytes [5]] :=
    ⟨by decide, by decide, rfl, by decide⟩
  obtain ⟨datagrams, hsend, hlength, hrun, -⟩ := transfer_recovers hpayloads
    (by decide) (fun _ => ⟨⟨0, 0, 0, 0, 0, 0, 0, 0, 0⟩, List.replicate 65535 0, 0⟩)
    (fun _ => List.length_replicate) ⟨⟨0, 0, 0, 0, 0, 0, 0, 0, 0⟩, List.replicate 65535 0, 0⟩
    List.length_replicate 0 (fun _ => 0)
  have hsent (i : Nat) (hi : i < UInt8.toNat 3) : datagrams.getD i [] ∈ datagrams := by
    rw [List.getD_eq_getElem?_getD, List.getElem?_eq_getElem (hlength ▸ hi), Option.getD_some]
    exact List.getElem_mem _
  have hdelivers : ∀ event ∈ deliveries datagrams, Delivers datagrams event := by
    rw [deliveries, List.forall_mem_cons, List.forall_mem_cons, List.forall_mem_cons,
      List.forall_mem_cons, List.forall_mem_singleton]
    refine ⟨.inl ⟨by decide, fun h => absurd h.1 (by decide)⟩, ?_, trivial, ?_, ?_⟩
    · exact .inr ⟨_, hsent 2 (by decide), rfl⟩
    · exact .inr ⟨_, hsent 0 (by decide), rfl⟩
    · exact .inr ⟨_, hsent 2 (by decide), rfl⟩
  obtain ⟨pkt', g, r, g', hreceive, hdec, h01, hiff, -⟩ := hrun (by decide) _ hdelivers
  exact ⟨datagrams, hsend, hlength, pkt', g, r, g', hreceive, hdec, h01, hiff⟩

end RtpSdr.Fec.Transfer
