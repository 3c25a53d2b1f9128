import RtpSdr.Fec.Group

/-!
# A group recovers its payloads from any `k` of its packets

Whatever order the packets of a group arrive in, with duplicates, losses and
decodes in between, each row that was received or rebuilt holds the packet the
encoder made for it. A packet that arrives after the group was decoded is written
over its rebuilt row, which holds the same bytes.
-/
namespace RtpSdr.Fec.Recovery

open RtpSdr.Lib.Checked
open RtpSdr.Lib.Memory
open RtpSdr.Fec.Galois
open RtpSdr.Fec.Field
open RtpSdr.Fec.Matrix
open RtpSdr.Fec.Code
open RtpSdr.Fec.Shuffle
open RtpSdr.Fec.Decode
open RtpSdr.Fec.RoundTrip
open RtpSdr.Fec.Group

/-- The payloads padded with zeros to the block length, as they are encoded. -/
def padded (p : Params) (payloads : List (List Gf)) : List (List Gf) :=
  payloads.map (paddedRow p.len.toNat)

/-- Packet `seq` of a group: a payload with its own length, or a whole block of parity. -/
structure IsPacket (p : Params) (payloads : List (List Gf)) (pkt : FecPkt) : Prop where
  seq : pkt.hdr.packetSeq < p.n
  tstamp : pkt.hdr.groupTstamp = p.tstamp
  payload : pkt.payload + pkt.hdr.len.toNat ≤ pkt.data.length
  source : pkt.hdr.packetSeq < p.k →
    carried pkt = payloads.getD pkt.hdr.packetSeq.toNat []
  parity : p.k ≤ pkt.hdr.packetSeq → ∃ fec dst, fecNew p.k.toUInt32 p.n.toUInt32 = .ok fec ∧
    dst.length = p.len.toNat ∧ fecEncode fec (padded p payloads) dst
      pkt.hdr.packetSeq.toUInt32 p.len.toUInt32 = .ok (carried pkt)

/-- The calls on a group. -/
inductive GroupOp where
  | insert (pkt : FecPkt)
  | decode

def groupStep (g : FecGroup) : GroupOp → Exec FecGroup
  | .insert pkt => fecGroupInsertPkt g pkt
  | .decode => do
    let (_, g) ← fecGroupDecode g
    .ok g

/-- The sequence number of an insertion. -/
def seqOf? : GroupOp → Option Nat
  | .insert pkt => some pkt.hdr.packetSeq.toNat
  | .decode => none

/-- The distinct packets inserted. -/
def arrived (ops : List GroupOp) : Finset Nat := (ops.filterMap seqOf?).toFinset

def LegalOp (p : Params) (payloads : List (List Gf)) : GroupOp → Prop
  | .insert pkt => IsPacket p payloads pkt
  | .decode => True

/-! ## The invariant -/

/-- Every packet of `S` is in its row, and a decoded group has all its source rows. -/
structure Recovers (p : Params) (src : List (List Gf)) (S : Finset Nat) (mem : List Gf)
    (ls : List UInt32) (g : FecGroup) : Prop where
  tracks : Tracks p S mem ls g
  rows : ∀ i ∈ S, ∀ b, b < p.len.toNat → cell mem p.len.toNat i b = symbol src p.k.toNat i b
  decoded : g.decoded = 0 ∨ (g.decoded = 1 ∧ p.k.toNat ≤ S.card ∧ ∀ i, i < p.k.toNat →
    ∀ b, b < p.len.toNat → cell mem p.len.toNat i b = symbol src p.k.toNat i b)

variable {p : Params} {payloads : List (List Gf)} {S : Finset Nat} {mem : List Gf}
  {ls : List UInt32} {g : FecGroup} {pkt : FecPkt}

/-- The payloads of a group: one for each source packet, none of them empty. -/
structure Payloads (p : Params) (payloads : List (List Gf)) : Prop where
  pos : 1 ≤ p.k.toNat
  le : p.k.toNat ≤ p.n.toNat
  length : payloads.length = p.k.toNat
  bounds : ∀ x ∈ payloads, 1 ≤ x.length ∧ x.length ≤ p.len.toNat

theorem Payloads.getD (h : Payloads p payloads) {i : Nat} (hi : i < p.k.toNat) :
    1 ≤ (payloads.getD i []).length ∧ (payloads.getD i []).length ≤ p.len.toNat := by
  rw [List.getD_eq_getElem?_getD, List.getElem?_eq_getElem (h.length ▸ hi), Option.getD_some]
  exact h.bounds _ (List.getElem_mem _)

theorem Payloads.packet (h : Payloads p payloads) {i : Nat} (hi : i < p.k.toNat) :
    packet (padded p payloads) i = paddedRow p.len.toNat (payloads.getD i []) := by
  rw [Code.packet, padded, List.getD_eq_getElem?_getD, List.getElem?_map,
    List.getD_eq_getElem?_getD, List.getElem?_eq_getElem (h.length ▸ hi)]
  rfl

theorem Payloads.len_pos (h : Payloads p payloads) : 1 ≤ p.len.toNat := by
  have := h.getD h.pos
  omega

theorem toNat_k (p : Params) : p.k.toUInt32.toNat = p.k.toNat := rfl
theorem toNat_n (p : Params) : p.n.toUInt32.toNat = p.n.toNat := rfl
theorem toNat_len (p : Params) : p.len.toUInt32.toNat = p.len.toNat := rfl

theorem Payloads.fecNew_ok (h : Payloads p payloads) :
    ∃ fec, fecNew p.k.toUInt32 p.n.toUInt32 = .ok fec ∧ Generates fec p.k.toNat p.n.toNat := by
  have hn := p.n.toNat_lt
  obtain ⟨fec, hfec, _, _, hg⟩ := Code.fecNew_ok (k := p.k.toUInt32) (n := p.n.toUInt32)
    (by rw [toNat_k]; exact h.pos) (by rw [toNat_k, toNat_n]; exact h.le)
    (by rw [toNat_n]; omega)
  exact ⟨fec, hfec, hg⟩

/-- A row written by an insertion holds what the encoder made for it. -/
theorem IsPacket.row (hp : Payloads p payloads) (h : IsPacket p payloads pkt) :
    pkt.hdr.len ≠ 0 ∧ pkt.hdr.len ≤ p.len ∧ ∀ b, b < p.len.toNat →
      (paddedRow p.len.toNat (carried pkt)).getD b 0
        = symbol (padded p payloads) p.k.toNat pkt.hdr.packetSeq.toNat b := by
  have hn := p.n.toNat_lt
  have hlen : (carried pkt).length = pkt.hdr.len.toNat := by
    have := h.payload
    rw [carried, List.length_take, List.length_drop, length_gfBytes]
    omega
  have hbounds : 1 ≤ (carried pkt).length ∧ (carried pkt).length ≤ p.len.toNat → pkt.hdr.len ≠ 0 ∧
      pkt.hdr.len ≤ p.len := by
    rw [hlen]
    rintro ⟨h1, h2⟩
    refine ⟨fun h0 => ?_, UInt16.le_iff_toNat_le.mpr h2⟩
    rw [h0] at h1
    exact absurd h1 (by decide)
  by_cases hk : pkt.hdr.packetSeq < p.k
  · have hkn : pkt.hdr.packetSeq.toNat < p.k.toNat := UInt8.lt_iff_toNat_lt.mp hk
    have hsrc := h.source hk
    obtain ⟨h1, h2⟩ := hbounds (hsrc ▸ hp.getD hkn)
    refine ⟨h1, h2, fun b _ => ?_⟩
    rw [symbol_source hp.le (by omega) hkn, hp.packet hkn, hsrc]
  · have hkn : p.k.toNat ≤ pkt.hdr.packetSeq.toNat :=
      Nat.le_of_not_lt fun hlt => hk (UInt8.lt_iff_toNat_lt.mpr hlt)
    obtain ⟨fec, dst, hfec, hdst, henc⟩ := h.parity (UInt8.le_iff_toNat_le.mpr hkn)
    obtain ⟨fec', hfec', hg⟩ := hp.fecNew_ok
    obtain rfl := Except.ok.inj (hfec.symm.trans hfec')
    obtain ⟨out, hout, hol, hoc⟩ := fecEncode_parity (padded p payloads) dst
      pkt.hdr.packetSeq.toUInt32 p.len.toUInt32 hg
      (hp.le.trans (by omega)) (by omega) hkn (UInt8.lt_iff_toNat_lt.mp h.seq)
      (by rw [padded, List.length_map, hp.length])
      (fun i hi => by rw [hp.packet hi, length_paddedRow (hp.getD hi).2, toNat_len])
      (by rw [hdst, toNat_len])
    obtain rfl := Except.ok.inj (hout.symm.trans henc)
    rw [toNat_len] at hol
    obtain ⟨h1, h2⟩ := hbounds (by rw [hol]; exact ⟨hp.len_pos, le_rfl⟩)
    refine ⟨h1, h2, fun b hb => ?_⟩
    have hlen31 : p.len.toUInt32.toNat < 2 ^ 31 := by
      have := p.len.toNat_lt
      rw [toNat_len]
      omega
    rw [paddedRow, hol, Nat.sub_self, List.replicate_zero, List.append_nil,
      hoc b (by rw [toNat_len]; exact hb), if_pos hlen31]
    rfl

theorem IsPacket.legal (hp : Payloads p payloads) (h : IsPacket p payloads pkt) : Legal p pkt :=
  ⟨h.seq, (h.row hp).2.1, h.tstamp, h.payload⟩

/-! ## One call -/

theorem insertPkt_recovers (hp : Payloads p payloads)
    (h : Recovers p (padded p payloads) S mem ls g) (hpkt : IsPacket p payloads pkt) :
    ∃ g' mem' ls', fecGroupInsertPkt g pkt = .ok g' ∧
      Recovers p (padded p payloads) (insert pkt.hdr.packetSeq.toNat S) mem' ls' g' ∧
      g'.decoded = g.decoded := by
  obtain ⟨hne, hle, hrow⟩ := hpkt.row hp
  have hlegal := hpkt.legal hp
  obtain ⟨g', mem', ls', hrun, htr, hdec, hmem⟩ :=
    insertPkt_tracks h.tracks hlegal (.inl hne)
  have hcell (i b : Nat) (hb : b < p.len.toNat) (hi : i = pkt.hdr.packetSeq.toNat ∨
      cell mem p.len.toNat i b = symbol (padded p payloads) p.k.toNat i b) :
      cell mem' p.len.toNat i b = symbol (padded p payloads) p.k.toNat i b := by
    by_cases hS : pkt.hdr.packetSeq.toNat ∈ S
    · rw [hmem, if_pos hS]
      rcases hi with rfl | hi
      · exact h.rows _ hS b hb
      · exact hi
    · have hpl : (paddedRow p.len.toNat (carried pkt)).length = p.len.toNat :=
        length_paddedRow (by rw [length_carried hlegal]; exact UInt16.le_iff_toNat_le.mp hle)
      rw [hmem, if_neg hS, cell_put hpl (h.tracks.mem_length ▸ row_end_le hlegal.seq_lt) hb]
      by_cases his : i = pkt.hdr.packetSeq.toNat
      · rw [if_pos his, hrow b hb, his]
      · rw [if_neg his]
        exact hi.resolve_left his
  refine ⟨g', mem', ls', hrun, ⟨htr, fun i hi b hb => ?_, ?_⟩, hdec⟩
  · rcases Finset.mem_insert.mp hi with rfl | hi
    · exact hcell _ b hb (.inl rfl)
    · exact hcell i b hb (.inr (h.rows i hi b hb))
  · rw [hdec]
    rcases h.decoded with h0 | ⟨h1, hcard, hall⟩
    · exact .inl h0
    · exact .inr ⟨h1, hcard.trans (Finset.card_le_card (Finset.subset_insert _ _)),
        fun i hi b hb => hcell i b hb (.inr (hall i hi b hb))⟩

/-- A decode succeeds exactly when `fec_k` packets have arrived. -/
theorem decode_recovers (hp : Payloads p payloads)
    (h : Recovers p (padded p payloads) S mem ls g) :
    ∃ r g' mem', fecGroupDecode g = .ok (r, g') ∧
      Recovers p (padded p payloads) S mem' ls g' ∧ (r = 0 ∨ r = 1) ∧
      (r = 1 ↔ p.k.toNat ≤ S.card) ∧ (r = 1 → g'.decoded = 1) := by
  have hn := p.n.toNat_lt
  have hlen := p.len.toNat_lt
  unfold fecGroupDecode
  rcases h.decoded with h0 | ⟨h1, hcard, _⟩
  · rw [if_neg (not_not.mpr h0)]
    have hge : g.rcvdPkts ≥ g.fecK ↔ p.k.toNat ≤ S.card := by
      rw [ge_iff_le, UInt8.le_iff_toNat_le, h.tracks.count, h.tracks.fecK]
    rcases scanIdxs_ok h.tracks.toMarks hp.pos with ⟨hcard, idxs, hscan, hsel, hmem⟩ | ⟨hlt, _⟩
    · obtain ⟨fec, hfec, hg⟩ := hp.fecNew_ok
      obtain ⟨mem', xs, hrun, hl', hsource, hsame⟩ := fecDecode_ok (padded p payloads) mem
        p.len.toUInt32 hg hp.le (by omega) hsel
        (by rw [h.tracks.mem_length, toNat_len])
        (.inr ⟨by rw [toNat_len]; omega, fun x hx => by
          have := Nat.mul_le_mul (hsel.lt x hx).le hlen.le
          rw [toNat_len]
          omega⟩)
        (fun x hx b hb => h.rows _ (hmem x hx) b hb)
      rw [toNat_len] at hsource hsame
      have hfirst (i : Nat) (hi : i < p.k.toNat) (b : Nat) (hb : b < p.len.toNat) :
          cell mem' p.len.toNat i b = symbol (padded p payloads) p.k.toNat i b := by
        rw [hsource i b hi hb, symbol_source hp.le (by omega) hi]
      refine ⟨1, { g with buf := .obj mem', decoded := 1 }, mem', ?_, ⟨?_, fun i hi b hb => ?_, ?_⟩,
        .inr rfl, iff_of_true rfl hcard, fun _ => rfl⟩
      · rw [if_pos (hge.mpr hcard)]
        simp only [bind_of_ok hscan, h.tracks.fecK, h.tracks.fecN, h.tracks.fecLen, h.tracks.buf,
          decide_true, cassert_true, ok_bind, bind_of_ok hfec, Ptr.deref_obj, bind_of_ok hrun,
          one_ne_zero, if_false]
      · exact { h.tracks with buf := rfl, mem_length := hl'.trans h.tracks.mem_length }
      · by_cases hik : i < p.k.toNat
        · exact hfirst i hik b hb
        · rw [hsame i b hb (.inr (Nat.le_of_not_lt hik)), h.rows i hi b hb]
      · exact .inr ⟨rfl, hcard, hfirst⟩
    · have hnot : ¬ p.k.toNat ≤ S.card := Nat.not_le_of_lt hlt
      exact ⟨0, g, mem, if_neg fun hle => hnot (hge.mp hle), h, .inl rfl,
        iff_of_false (by decide) hnot, fun h => absurd h (by decide)⟩
  · exact ⟨1, g, mem, if_pos (by rw [h1]; decide), h, .inr rfl, iff_of_true rfl hcard, fun _ => h1⟩

/-! ## Any sequence of calls -/

variable {ops more : List GroupOp}

theorem arrived_concat_insert (ops : List GroupOp) (pkt : FecPkt) :
    arrived (ops ++ [.insert pkt]) = insert pkt.hdr.packetSeq.toNat (arrived ops) := by
  ext x
  simp [arrived, seqOf?]

theorem arrived_concat_decode (ops : List GroupOp) : arrived (ops ++ [.decode]) = arrived ops := by
  have hnone : [GroupOp.decode].filterMap seqOf? = [] := rfl
  rw [arrived, List.filterMap_append, hnone, List.append_nil, arrived]

theorem groupStep_recovers (hp : Payloads p payloads) (op : GroupOp) (hop : LegalOp p payloads op)
    (h : Recovers p (padded p payloads) (arrived ops) mem ls g) :
    ∃ g' mem' ls', groupStep g op = .ok g' ∧
      Recovers p (padded p payloads) (arrived (ops ++ [op])) mem' ls' g' ∧
      (g.decoded = 1 → g'.decoded = 1) := by
  cases op with
  | insert pkt =>
    obtain ⟨g', mem', ls', hrun, hr, hdec⟩ := insertPkt_recovers hp h hop
    exact ⟨g', mem', ls', hrun, arrived_concat_insert ops pkt ▸ hr, fun h1 => hdec.trans h1⟩
  | decode =>
    obtain ⟨r, g', mem', hrun, hr, _, hiff, hone⟩ := decode_recovers hp h
    refine ⟨g', mem', ls, by simp only [groupStep, bind_of_ok hrun],
      (arrived_concat_decode ops).symm ▸ hr, fun h1 => hone (hiff.mpr ?_)⟩
    rcases h.decoded with h0 | ⟨_, hcard, _⟩
    · omega
    · exact hcard

theorem run_recovers (hp : Payloads p payloads) (more : List GroupOp)
    (hmore : ∀ op ∈ more, LegalOp p payloads op)
    (h : Recovers p (padded p payloads) (arrived ops) mem ls g) :
    ∃ g' mem' ls', runAll groupStep g more = .ok g' ∧
      Recovers p (padded p payloads) (arrived (ops ++ more)) mem' ls' g' ∧
      (g.decoded = 1 → g'.decoded = 1) := by
  obtain ⟨g', hrun, ⟨mem', ls', hr⟩, hdec⟩ := runAll_invariant (f := groupStep)
    (P := LegalOp p payloads) (I := fun ops g' =>
      (∃ mem ls, Recovers p (padded p payloads) (arrived ops) mem ls g') ∧
        (g.decoded = 1 → g'.decoded = 1))
    (fun hist t op hop ⟨⟨mem, ls, hr⟩, hdec⟩ => by
      obtain ⟨t', mem', ls', hrun, hr', hdec'⟩ := groupStep_recovers hp op hop hr
      exact ⟨t', hrun, ⟨mem', ls', hr'⟩, fun h1 => hdec' (hdec h1)⟩)
    more ops hmore ⟨⟨mem, ls, h⟩, id⟩
  exact ⟨g', mem', ls', hrun, hr, hdec⟩

theorem init_recovers (p : Params) (payloads : List (List Gf)) (seq : UInt8) (block : Nat → Gf) :
    Recovers p (padded p payloads) (arrived [])
      ((List.range (p.n.toNat * p.len.toNat)).map block) (List.replicate p.n.toNat 0)
      (fecGroupInit p.k p.n seq p.tstamp p.len block) :=
  ⟨tracks_init p seq block, fun i hi => absurd hi (Finset.notMem_empty i), .inl rfl⟩

/-- The rows of a decoded group are the padded payloads. -/
theorem Recovers.rows_eq (hp : Payloads p payloads)
    (h : Recovers p (padded p payloads) S mem ls g) (hdec : g.decoded = 1) {i : Nat}
    (hi : i < p.k.toNat) :
    row mem p.len.toNat i = paddedRow p.len.toNat (payloads.getD i []) := by
  have hn := p.n.toNat_lt
  rcases h.decoded with h0 | ⟨_, _, hall⟩
  · omega
  · refine (row_eq h.tracks.mem_length (hi.trans_le hp.le)
      (length_paddedRow (hp.getD hi).2)).mpr fun b hb => ?_
    rw [hall i hi b hb, symbol_source hp.le (by omega) hi, hp.packet hi]

/-- After any calls with packets of one group, a decode returns one exactly when `fec_k` of
them have arrived, and from then on the first `fec_k` rows are the padded payloads. -/
theorem group_recovers {p : Params} {payloads : List (List Gf)} (hp : Payloads p payloads)
    (seq : UInt8) (block : Nat → Gf) (ops : List GroupOp)
    (hops : ∀ op ∈ ops, LegalOp p payloads op) :
    ∃ g r g', runAll groupStep (fecGroupInit p.k p.n seq p.tstamp p.len block) ops = .ok g ∧
      fecGroupDecode g = .ok (r, g') ∧ (r = 0 ∨ r = 1) ∧
      (r = 1 ↔ p.k.toNat ≤ (arrived ops).card) ∧
      (r = 1 → ∀ more : List GroupOp, (∀ op ∈ more, LegalOp p payloads op) →
        ∃ g'' buf, runAll groupStep g' more = .ok g'' ∧ g''.buf = .obj buf ∧
          ∀ i, i < p.k.toNat →
            row buf p.len.toNat i = paddedRow p.len.toNat (payloads.getD i [])) := by
  obtain ⟨g, mem, ls, hrun, hr, _⟩ := run_recovers hp ops hops (init_recovers p payloads seq block)
  rw [List.nil_append] at hr
  obtain ⟨r, g', mem', hdec, hr', h01, hiff, hone⟩ := decode_recovers hp hr
  refine ⟨g, r, g', hrun, hdec, h01, hiff, fun h1 more hmore => ?_⟩
  obtain ⟨g'', mem'', ls'', hrun', hr'', hkeep⟩ := run_recovers hp more hmore hr'
  exact ⟨g'', mem'', hrun', hr''.tracks.buf, fun i hi =>
    hr''.rows_eq hp (hkeep (hone h1)) hi⟩

/-- Packet `seq` of a group of two payloads and one parity packet, with blocks of two. -/
def ofThree (seq : UInt8) (len : UInt16) (payload : List UInt8) : FecPkt :=
  ⟨⟨254, 1, 0, seq, 2, 3, 2, len, 0⟩, payload, 0⟩

theorem isPacket_first :
    IsPacket ⟨2, 3, 2, 0⟩ [gfBytes [7, 9], gfBytes [5]] (ofThree 0 2 [7, 9]) where
  seq := by decide
  tstamp := rfl
  payload := by decide
  source _ := rfl
  parity h := absurd h (by decide)

theorem isPacket_second :
    IsPacket ⟨2, 3, 2, 0⟩ [gfBytes [7, 9], gfBytes [5]] (ofThree 1 1 [5]) where
  seq := by decide
  tstamp := rfl
  payload := by decide
  source _ := rfl
  parity h := absurd h (by decide)

theorem isPacket_parity :
    IsPacket ⟨2, 3, 2, 0⟩ [gfBytes [7, 9], gfBytes [5]] (ofThree 2 2 [3, 27]) where
  seq := by decide
  tstamp := rfl
  payload := by decide
  source h := absurd h (by decide)
  parity _ := by
    have hrun : (do
        let fec ← fecNew 2 3
        fecEncode fec [gfBytes [7, 9], gfBytes [5, 0]] (gfBytes [0, 0]) 2 2)
          = .ok (gfBytes [3, 27]) := by decide +kernel
    obtain ⟨fec, hfec, hencode⟩ := bind_eq_ok.mp hrun
    exact ⟨fec, gfBytes [0, 0], hfec, rfl, hencode⟩

/-- The second packet is rebuilt from the parity, and comes late. -/
theorem group_recovers_twoOfThree :
    ∃ g g' g'' buf, runAll groupStep (fecGroupInit 2 3 0 0 2 fun _ => 0)
        [.insert (ofThree 2 2 [3, 27]), .decode, .insert (ofThree 0 2 [7, 9])] = .ok g ∧
      fecGroupDecode g = .ok (1, g') ∧
      runAll groupStep g' [.insert (ofThree 1 1 [5]), .decode] = .ok g'' ∧ g''.buf = .obj buf ∧
      row buf 2 0 = gfBytes [7, 9] ∧ row buf 2 1 = gfBytes [5, 0] := by
  obtain ⟨g, r, g', hrun, hdecode, -, hone, hrows⟩ := group_recovers
    (⟨by decide, by decide, rfl, by decide⟩ : Payloads ⟨2, 3, 2, 0⟩ [gfBytes [7, 9], gfBytes [5]])
    0 (fun _ => 0) [.insert (ofThree 2 2 [3, 27]), .decode, .insert (ofThree 0 2 [7, 9])]
    (List.forall_mem_cons.mpr ⟨isPacket_parity, List.forall_mem_cons.mpr ⟨trivial,
      List.forall_mem_singleton.mpr isPacket_first⟩⟩)
  obtain rfl := hone.mpr (by decide)
  obtain ⟨g'', buf, hmore, hbuf, hpayloads⟩ := hrows rfl [.insert (ofThree 1 1 [5]), .decode]
    (List.forall_mem_cons.mpr ⟨isPacket_second, List.forall_mem_singleton.mpr trivial⟩)
  exact ⟨g, g', g'', buf, hrun, hdecode, hmore, hbuf, hpayloads 0 (by decide),
    hpayloads 1 (by decide)⟩

end RtpSdr.Fec.Recovery
