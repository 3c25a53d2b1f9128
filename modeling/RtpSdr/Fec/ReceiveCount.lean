import RtpSdr.Fec.Group

/-!
# The receive count of a group

The count and the lengths agree as long as every packet that is new is not empty.
An empty one is counted but leaves its length zero: from then on the two records
differ, and `fec_group_decode` can find fewer packets than the count promises.
-/
namespace RtpSdr.Fec.ReceiveCount

open RtpSdr.Lib.Checked
open RtpSdr.Lib.Memory
open RtpSdr.Fec.Galois
open RtpSdr.Fec.Group

def seqOf (pkt : FecPkt) : Nat := pkt.hdr.packetSeq.toNat

/-- The distinct sequence numbers of the packets inserted. -/
def inserted (pkts : List FecPkt) : Finset Nat := (pkts.map seqOf).toFinset

/-- The entries of `lengths` that `fec_group_decode` regards as received. -/
def nonzero (ls : List UInt32) : Finset Nat :=
  (Finset.range ls.length).filter fun i => ls.getD i 0 > 0

/-- The count is the number of distinct packets inserted and of non-zero lengths, and the
scan of `fec_group_decode` finds as many packets as it asserts. -/
def InStep (pkts : List FecPkt) (g : FecGroup) : Prop :=
  g.rcvdPkts.toNat = (inserted pkts).card ∧
  (∃ ls, g.lengths = .obj ls ∧ g.rcvdPkts.toNat = (nonzero ls).card) ∧
  (g.rcvdPkts ≥ g.fecK → ∃ idxs, scanIdxs g = .ok (g.fecK.toNat, idxs))

/-- The records are in step after every packet. -/
def AlwaysInStep (init : FecGroup) (pkts : List FecPkt) : Prop :=
  ∀ pre, pre <+: pkts → ∃ g, runAll fecGroupInsertPkt init pre = .ok g ∧ InStep pre g

/-- An empty packet comes only after one that is not, with the same sequence number. -/
def Covered (pkts : List FecPkt) : Prop :=
  ∀ pre pkt post, pkts = pre ++ pkt :: post → pkt.hdr.len = 0 →
    ∃ q ∈ pre, q.hdr.len ≠ 0 ∧ seqOf q = seqOf pkt

variable {p : Params} {S : Finset Nat} {mem : List Gf} {ls : List UInt32} {g : FecGroup}
  {pkts pre : List FecPkt} {pkt : FecPkt}

theorem inserted_concat (pre : List FecPkt) (pkt : FecPkt) :
    inserted (pre ++ [pkt]) = insert (seqOf pkt) (inserted pre) := by
  ext x
  simp [inserted, eq_comm]

theorem mem_inserted {q : FecPkt} (h : q ∈ pkts) : seqOf q ∈ inserted pkts :=
  List.mem_toFinset.mpr (List.mem_map_of_mem h)

theorem mem_nonzero {i : Nat} : i ∈ nonzero ls ↔ i < ls.length ∧ ls.getD i 0 ≠ 0 := by
  simp only [nonzero, Finset.mem_filter, Finset.mem_range, gt_iff_lt, UInt32.pos_iff_ne_zero]

theorem nonzero_of_tracks (h : Tracks p S mem ls g) : nonzero ls = S := by
  ext i
  rw [mem_nonzero, h.ls_length]
  constructor
  · rintro ⟨hi, hne⟩
    by_contra hS
    exact hne ((h.received i hi).mpr hS)
  · intro hS
    exact ⟨h.lt i hS, fun h0 => (h.received i (h.lt i hS)).mp h0 hS⟩

theorem inStep_of_tracks (hk : 1 ≤ p.k.toNat) (h : Tracks p (inserted pkts) mem ls g) :
    InStep pkts g := by
  refine ⟨h.count, ⟨ls, h.lengths, by rw [nonzero_of_tracks h, h.count]⟩, fun hge => ?_⟩
  have hle : p.k.toNat ≤ (inserted pkts).card := by
    rw [← h.count, ← h.fecK]
    exact UInt8.le_iff_toNat_le.mp hge
  rcases scanIdxs_ok h.toMarks hk with ⟨_, idxs, hscan, _⟩ | ⟨hlt, _⟩
  · exact ⟨idxs, by rw [hscan, h.fecK]⟩
  · omega

theorem Covered.of_prefix (h : Covered pkts) (hpre : pre <+: pkts) : Covered pre := by
  obtain ⟨rest, rfl⟩ := hpre
  rintro before q after rfl h0
  exact h before q (after ++ rest) (by simp) h0

/-- The last packet of a covered sequence is not empty, or not new. -/
theorem Covered.last (h : Covered (pre ++ [pkt])) :
    pkt.hdr.len ≠ 0 ∨ seqOf pkt ∈ inserted pre := by
  by_cases h0 : pkt.hdr.len = 0
  · obtain ⟨q, hq, _, hseq⟩ := h pre pkt [] rfl h0
    exact .inr (hseq ▸ mem_inserted hq)
  · exact .inl h0

/-- Covered packets keep the records together. -/
theorem tracks_of_covered {init : FecGroup} {mem₀ : List Gf} {ls₀ : List UInt32}
    (hinit : Tracks p ∅ mem₀ ls₀ init) (pkts : List FecPkt) (hlegal : ∀ pkt ∈ pkts, Legal p pkt)
    (hcov : Covered pkts) :
    ∃ g mem ls, runAll fecGroupInsertPkt init pkts = .ok g ∧ Tracks p (inserted pkts) mem ls g := by
  induction pkts using List.reverseRecOn with
  | nil => exact ⟨init, mem₀, ls₀, rfl, hinit⟩
  | append_singleton pre pkt ih =>
    obtain ⟨g, mem, ls, hrun, htr⟩ := ih (fun q hq => hlegal q (List.mem_append_left _ hq))
      (hcov.of_prefix (List.prefix_append _ _))
    obtain ⟨g', mem', ls', hins, htr', _⟩ :=
      insertPkt_tracks htr (hlegal pkt (by simp)) hcov.last
    refine ⟨g', mem', ls', ?_, inserted_concat pre pkt ▸ htr'⟩
    rw [runAll_append [pkt] hrun, runAll_cons, bind_of_ok hins, runAll_nil]

theorem alwaysInStep_of_covered (hk : 1 ≤ p.k.toNat) {init : FecGroup} {mem₀ : List Gf}
    {ls₀ : List UInt32} (hinit : Tracks p ∅ mem₀ ls₀ init)
    (hlegal : ∀ pkt ∈ pkts, Legal p pkt) (hcov : Covered pkts) : AlwaysInStep init pkts := by
  intro pre hpre
  obtain ⟨g, mem, ls, hrun, htr⟩ := tracks_of_covered hinit pre
    (fun q hq => hlegal q (hpre.subset hq)) (hcov.of_prefix hpre)
  exact ⟨g, hrun, inStep_of_tracks hk htr⟩

/-- A new empty packet is counted, but its length stays zero. -/
theorem not_inStep_of_empty (h : Tracks p (inserted pre) mem ls g) (hpkt : Legal p pkt)
    (h0 : pkt.hdr.len = 0) (hnew : seqOf pkt ∉ inserted pre) {g' : FecGroup}
    (hrun : fecGroupInsertPkt g pkt = .ok g') : ¬ InStep (pre ++ [pkt]) g' := by
  rcases insertPkt_cases h.toMarks hpkt with ⟨hS, _⟩ | ⟨_, hcase⟩
  · exact absurd hS hnew
  · obtain rfl := Except.ok.inj (hrun.symm.trans hcase)
    rintro ⟨hcount, ⟨ls', hls', hnz⟩, _⟩
    obtain rfl := Ptr.obj.inj hls'
    have hsame : ls.set pkt.hdr.packetSeq.toNat pkt.hdr.len.toUInt32 = ls := by
      refine ext_getD 0 List.length_set fun i hi => ?_
      rw [getD_set (h.ls_length ▸ hpkt.seq_lt), h0]
      by_cases hseq : pkt.hdr.packetSeq.toNat = i
      · rw [if_pos hseq, ← hseq, (h.received _ hpkt.seq_lt).mpr hnew]
        rfl
      · rw [if_neg hseq]
    rw [hcount, hsame, nonzero_of_tracks h, inserted_concat,
      Finset.card_insert_of_notMem hnew] at hnz
    omega

/-- Records that stay in step have been sent covered packets. -/
theorem covered_of_alwaysInStep {init : FecGroup} {mem₀ : List Gf} {ls₀ : List UInt32}
    (hinit : Tracks p ∅ mem₀ ls₀ init) (pkts : List FecPkt) (hlegal : ∀ pkt ∈ pkts, Legal p pkt)
    (hstep : AlwaysInStep init pkts) : Covered pkts := by
  induction pkts using List.reverseRecOn with
  | nil =>
    rintro before q after h
    simp at h
  | append_singleton pre pkt ih =>
    have hlegal' : ∀ q ∈ pre, Legal p q := fun q hq => hlegal q (List.mem_append_left _ hq)
    have hcov : Covered pre :=
      ih hlegal' fun before hb => hstep before (hb.trans (List.prefix_append _ _))
    rintro before q after heq h0
    rcases List.eq_nil_or_concat after with rfl | ⟨after', last, rfl⟩
    · obtain ⟨rfl, hq⟩ := List.append_inj' heq rfl
      obtain rfl := List.singleton_inj.mp hq
      by_contra hnone
      -- an earlier packet of this number would itself have been preceded by one with bytes
      have hnew : seqOf pkt ∉ inserted pre := by
        intro hmem
        obtain ⟨q, hq, hseq⟩ := List.mem_map.mp (List.mem_toFinset.mp hmem)
        obtain ⟨b, a, rfl⟩ := List.append_of_mem hq
        by_cases hq0 : q.hdr.len = 0
        · obtain ⟨q', hq', hne, hseq'⟩ := hcov b q a rfl hq0
          exact hnone ⟨q', List.mem_append_left _ hq', hne, hseq'.trans hseq⟩
        · exact hnone ⟨q, hq, hq0, hseq⟩
      obtain ⟨g, mem, ls, hrun, htr⟩ := tracks_of_covered hinit pre hlegal' hcov
      obtain ⟨g', hrun', hin⟩ := hstep _ List.prefix_rfl
      rw [runAll_append [pkt] hrun, runAll_cons] at hrun'
      obtain ⟨u, hu, hu'⟩ := bind_eq_ok.mp hrun'
      obtain rfl := Except.ok.inj hu'
      exact not_inStep_of_empty htr (hlegal pkt (by simp)) h0 hnew hu hin
    · rw [List.concat_eq_append, ← List.cons_append, ← List.append_assoc] at heq
      exact hcov before q after' (List.append_inj' heq rfl).1 h0

/-- The records of a group stay in step exactly when no new packet is empty. -/
theorem alwaysInStep_iff (p : Params) (hk : 1 ≤ p.k.toNat) (seq : UInt8) (block : Nat → Gf)
    (pkts : List FecPkt) (hlegal : ∀ pkt ∈ pkts, Legal p pkt) :
    AlwaysInStep (fecGroupInit p.k p.n seq p.tstamp p.len block) pkts ↔ Covered pkts :=
  ⟨covered_of_alwaysInStep (tracks_init p seq block) pkts hlegal,
    alwaysInStep_of_covered hk (tracks_init p seq block) hlegal⟩

/-- A packet with one byte of payload. -/
def oneByte : FecPkt :=
  ⟨⟨254, 1, 0, 0, 1, 1, 100, 1, 0⟩, [254, 1, 0, 0, 1, 1, 0, 100, 0, 1, 0, 0, 0, 0, 7], 14⟩

theorem alwaysInStep_oneByte :
    AlwaysInStep (fecGroupInit 1 1 0 0 100 fun _ => 0) [oneByte] ↔ Covered [oneByte] :=
  alwaysInStep_iff ⟨1, 1, 100, 0⟩ (by decide) 0 (fun _ => 0) _ fun pkt h => by
    obtain rfl := List.mem_singleton.mp h
    exact ⟨by decide, by decide, rfl, by decide⟩

/-- A header without a payload, as the first packet of a group. -/
def headerOnly : FecPkt :=
  ⟨⟨254, 1, 0, 0, 1, 1, 100, 0, 0⟩, [254, 1, 0, 0, 1, 1, 0, 100, 0, 0, 0, 0, 0, 0], 14⟩

theorem headerOnly_out_of_step : ¬ ∀ (p : Params) (seq : UInt8) (block : Nat → Gf)
    (pkts : List FecPkt), 1 ≤ p.k.toNat → p.k.toNat ≤ p.n.toNat →
    (∀ pkt ∈ pkts, Legal p pkt) →
    AlwaysInStep (fecGroupInit p.k p.n seq p.tstamp p.len block) pkts := by
  intro h
  have hlegal : ∀ pkt ∈ [headerOnly], Legal ⟨1, 1, 100, 0⟩ pkt := by
    intro pkt hpkt
    obtain rfl := List.mem_singleton.mp hpkt
    exact ⟨by decide, by decide, rfl, by decide⟩
  have hcov := covered_of_alwaysInStep (tracks_init ⟨1, 1, 100, 0⟩ 0 fun _ => 0) _ hlegal
    (h ⟨1, 1, 100, 0⟩ 0 (fun _ => 0) _ (by decide) (by decide) hlegal)
  obtain ⟨q, hq, _⟩ := hcov [] headerOnly [] rfl rfl
  exact absurd hq List.not_mem_nil

end RtpSdr.Fec.ReceiveCount
