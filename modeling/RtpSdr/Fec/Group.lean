import RtpSdr.Fec.RoundTrip

/-!
# Groups of FEC packets: `fec_group.c`

A group collects packets until `fec_k` of them are there. That a packet was
received is recorded twice, as a non-zero length and in the count; `Tracks` ties
both to the set of packets that were inserted.
-/
namespace RtpSdr.Fec.Group

open RtpSdr.Lib.Checked
open RtpSdr.Lib.Memory
open RtpSdr.Fec.Galois
open RtpSdr.Fec.Field
open RtpSdr.Fec.Matrix
open RtpSdr.Fec.Code
open RtpSdr.Fec.Shuffle
open RtpSdr.Fec.Decode

/-- `fec_pkt_hdr_t`. -/
structure FecPktHdr where
  magic : UInt8
  version : UInt8
  groupSeq : UInt8
  packetSeq : UInt8
  fecK : UInt8
  fecN : UInt8
  fecLen : UInt16
  len : UInt16
  groupTstamp : UInt64

/-- `fec_pkt_t`; `payload` is the offset in `data` that the pointer has. -/
structure FecPkt where
  hdr : FecPktHdr
  data : List UInt8
  payload : Nat

/-- `fec_group_t`, without the `pkts` that nothing uses. -/
structure FecGroup where
  fecK : UInt8
  fecN : UInt8
  fecLen : UInt16
  seq : UInt8
  tstamp : UInt64
  rcvdPkts : UInt8
  buf : Ptr (List Gf)
  lengths : Ptr (List UInt32)
  decoded : Int

/-- `fec_group_init`; `block` is what `malloc` leaves in the buffer. -/
def fecGroupInit (fecK fecN seq : UInt8) (tstamp : UInt64) (fecLen : UInt16) (block : Nat → Gf) :
    FecGroup where
  fecK := fecK
  fecN := fecN
  seq := seq
  tstamp := tstamp
  fecLen := fecLen
  rcvdPkts := 0
  buf := .obj ((List.range (fecN.toNat * fecLen.toNat)).map block)
  lengths := .obj (List.replicate fecN.toNat 0)
  decoded := 0

/-- Bytes as field elements; both are `unsigned char`. -/
def gfBytes (bytes : List UInt8) : List Gf := bytes

theorem length_gfBytes (bytes : List UInt8) : (gfBytes bytes).length = bytes.length := rfl

/-- The `memset` behind a payload that is shorter than a row. -/
def padRow (off : Nat) (len fecLen : UInt16) (buf : List Gf) : Exec (List Gf) :=
  if len < fecLen then
    blit buf (off + len.toNat) (List.replicate (fecLen.toNat - len.toNat) 0)
  else .ok buf

def fecGroupInsertPkt (group : FecGroup) (pkt : FecPkt) : Exec FecGroup := do
  cassert (decide (pkt.hdr.packetSeq < group.fecN))
  cassert (decide (pkt.hdr.len ≤ group.fecLen))
  cassert (decide (pkt.hdr.groupTstamp = group.tstamp))
  let lengths ← group.lengths.deref
  let l ← load lengths pkt.hdr.packetSeq.toNat
  if l = 0 then do
    let buf ← group.buf.deref
    let bytes ← slice (gfBytes pkt.data) pkt.payload pkt.hdr.len.toNat
    let buf ← blit buf (pkt.hdr.packetSeq.toNat * group.fecLen.toNat) bytes
    let buf ← padRow (pkt.hdr.packetSeq.toNat * group.fecLen.toNat) pkt.hdr.len group.fecLen buf
    let lengths ← store lengths pkt.hdr.packetSeq.toNat pkt.hdr.len.toUInt32
    .ok { group with
      buf := .obj buf, lengths := .obj lengths, rcvdPkts := group.rcvdPkts + 1 }
  else .ok group

/-- One pass of the index scan: a packet received is entered, the last one wanted ends it. -/
def scanPass (group : FecGroup) (i : Nat) (s : Nat × List UInt32) :
    Exec (Step (Nat × List UInt32) (Nat × List UInt32)) := do
  let lengths ← group.lengths.deref
  let l ← load lengths i
  if l > 0 then do
    let idxs ← store s.2 s.1 (UInt32.ofNat i)
    if s.1 + 1 = group.fecK.toNat then .ok (.leave (s.1 + 1, idxs))
    else .ok (.next (s.1 + 1, idxs))
  else .ok (.next s)

/-- The index scan of `fec_group_decode`: the count `j` and the index array. -/
def scanIdxs (group : FecGroup) : Exec (Nat × List UInt32) := do
  let scan ← forLeave (scanPass group) group.fecN.toNat (0, List.replicate group.fecK.toNat 0)
  match scan with
  | .next s => .ok s
  | .leave s => .ok s

/-- `fec_group_decode(group)`: the result and the group afterwards. -/
def fecGroupDecode (group : FecGroup) : Exec (Int × FecGroup) :=
  if group.decoded ≠ 0 then .ok (1, group)
  else if group.rcvdPkts ≥ group.fecK then do
    let (j, idxs) ← scanIdxs group
    cassert (decide (j = group.fecK.toNat))
    let fec ← fecNew group.fecK.toUInt32 group.fecN.toUInt32
    let buf ← group.buf.deref
    let (r, buf, _) ← fecDecode fec buf idxs group.fecLen.toUInt32
    if r = 0 then .ok (0, { group with buf := .obj buf })
    else .ok (1, { group with buf := .obj buf, decoded := 1 })
  else .ok (0, group)

/-! ## What is recorded of the packets received -/

/-- The parameters of a group. -/
structure Params where
  k : UInt8
  n : UInt8
  len : UInt16
  tstamp : UInt64

/-- The group has the parameters `p`, the buffer `mem` and the lengths `ls`, non-zero at the
packets of `S`. -/
structure Marks (p : Params) (S : Finset Nat) (mem : List Gf) (ls : List UInt32)
    (g : FecGroup) : Prop where
  fecK : g.fecK = p.k
  fecN : g.fecN = p.n
  fecLen : g.fecLen = p.len
  tstamp : g.tstamp = p.tstamp
  buf : g.buf = .obj mem
  mem_length : mem.length = p.n.toNat * p.len.toNat
  lengths : g.lengths = .obj ls
  ls_length : ls.length = p.n.toNat
  lt : ∀ i ∈ S, i < p.n.toNat
  received : ∀ i, i < p.n.toNat → (ls.getD i 0 = 0 ↔ i ∉ S)

/-- The three records of what was received agree: the lengths mark the packets of `S`, and the
count is their number. -/
structure Tracks (p : Params) (S : Finset Nat) (mem : List Gf) (ls : List UInt32)
    (g : FecGroup) : Prop extends Marks p S mem ls g where
  count : g.rcvdPkts.toNat = S.card

variable {p : Params} {S : Finset Nat} {mem : List Gf} {ls : List UInt32} {g : FecGroup}
  {pkt : FecPkt}

theorem tracks_init (p : Params) (seq : UInt8) (block : Nat → Gf) :
    Tracks p ∅ ((List.range (p.n.toNat * p.len.toNat)).map block) (List.replicate p.n.toNat 0)
      (fecGroupInit p.k p.n seq p.tstamp p.len block) where
  fecK := rfl
  fecN := rfl
  fecLen := rfl
  tstamp := rfl
  buf := rfl
  mem_length := by rw [List.length_map, List.length_range]
  lengths := rfl
  ls_length := List.length_replicate
  lt := by simp
  received i _ := iff_of_true (getD_replicate_default _ _ _) (Finset.notMem_empty i)
  count := rfl

/-- A packet that passes the three assertions, with the payload its length announces. -/
structure Legal (p : Params) (pkt : FecPkt) : Prop where
  seq : pkt.hdr.packetSeq < p.n
  len : pkt.hdr.len ≤ p.len
  tstamp : pkt.hdr.groupTstamp = p.tstamp
  payload : pkt.payload + pkt.hdr.len.toNat ≤ pkt.data.length

theorem Legal.seq_lt (h : Legal p pkt) : pkt.hdr.packetSeq.toNat < p.n.toNat :=
  UInt8.lt_iff_toNat_lt.mp h.seq

/-- The bytes a legal packet carries. -/
def carried (pkt : FecPkt) : List Gf :=
  ((gfBytes pkt.data).drop pkt.payload).take pkt.hdr.len.toNat

theorem length_carried (h : Legal p pkt) : (carried pkt).length = pkt.hdr.len.toNat := by
  have := h.payload
  rw [carried, List.length_take, List.length_drop, length_gfBytes]
  omega

theorem slice_carried (h : Legal p pkt) :
    slice (gfBytes pkt.data) pkt.payload pkt.hdr.len.toNat = .ok (carried pkt) :=
  slice_of_le h.payload

/-- A row as an insertion leaves it: the payload, then zeros. -/
def paddedRow (len : Nat) (bytes : List Gf) : List Gf :=
  bytes ++ List.replicate (len - bytes.length) 0

theorem length_paddedRow {len : Nat} {bytes : List Gf} (h : bytes.length ≤ len) :
    (paddedRow len bytes).length = len := by
  rw [paddedRow, List.length_append, List.length_replicate]
  omega

/-! ## Inserting a packet -/

theorem writeRow_ok (hpkt : Legal p pkt) (hmem : mem.length = p.n.toNat * p.len.toNat) :
    (do
      let buf ← blit mem (pkt.hdr.packetSeq.toNat * p.len.toNat) (carried pkt)
      padRow (pkt.hdr.packetSeq.toNat * p.len.toNat) pkt.hdr.len p.len buf)
        = .ok (put mem (pkt.hdr.packetSeq.toNat * p.len.toNat)
            (paddedRow p.len.toNat (carried pkt))) := by
  have hle : pkt.hdr.len.toNat ≤ p.len.toNat := UInt16.le_iff_toNat_le.mp hpkt.len
  have hend := row_end_le (k := p.len.toNat) hpkt.seq_lt
  have hl := length_carried hpkt
  have hdst : pkt.hdr.packetSeq.toNat * p.len.toNat + (carried pkt).length ≤ mem.length := by omega
  rw [bind_of_ok (blit_of_le hdst), padRow, paddedRow, hl]
  by_cases hlt : pkt.hdr.len < p.len
  · have hpad := put_put (List.replicate (p.len.toNat - pkt.hdr.len.toNat) 0) hdst
    rw [hl] at hpad
    rw [if_pos hlt, blit_of_le (by rw [length_put hdst, List.length_replicate]; omega), hpad]
  · have heq : p.len.toNat - pkt.hdr.len.toNat = 0 := by
      have := mt UInt16.lt_iff_toNat_lt.mpr hlt
      omega
    rw [if_neg hlt, heq, List.replicate_zero, List.append_nil]

/-- Behind the three assertions a packet whose length is still zero is copied, any other is
dropped. -/
theorem insertPkt_eq (h : Marks p S mem ls g) (hseq : pkt.hdr.packetSeq < p.n)
    (hlen : pkt.hdr.len ≤ p.len) (htstamp : pkt.hdr.groupTstamp = p.tstamp) :
    fecGroupInsertPkt g pkt = if pkt.hdr.packetSeq.toNat ∈ S then .ok g else (do
      let bytes ← slice (gfBytes pkt.data) pkt.payload pkt.hdr.len.toNat
      let buf ← blit mem (pkt.hdr.packetSeq.toNat * p.len.toNat) bytes
      let buf ← padRow (pkt.hdr.packetSeq.toNat * p.len.toNat) pkt.hdr.len p.len buf
      let lengths ← store ls pkt.hdr.packetSeq.toNat pkt.hdr.len.toUInt32
      .ok { g with buf := .obj buf, lengths := .obj lengths, rcvdPkts := g.rcvdPkts + 1 }) := by
  have hlt : pkt.hdr.packetSeq.toNat < p.n.toNat := UInt8.lt_iff_toNat_lt.mp hseq
  have hrec := h.received _ hlt
  unfold fecGroupInsertPkt
  rw [h.fecN, h.fecLen, h.tstamp, h.lengths, h.buf, decide_eq_true hseq, decide_eq_true hlen,
    decide_eq_true htstamp]
  simp only [cassert_true, ok_bind, Ptr.deref_obj,
    bind_of_ok (load_of_lt 0 (h.ls_length ▸ hlt) : load ls _ = .ok _)]
  by_cases hS : pkt.hdr.packetSeq.toNat ∈ S
  · rw [if_neg fun h0 => hrec.mp h0 hS, if_pos hS]
  · rw [if_pos (hrec.mpr hS), if_neg hS]

/-- What an insertion does: a packet whose length is still zero is copied into its row and
counted, any other is dropped. -/
theorem insertPkt_cases (h : Marks p S mem ls g) (hpkt : Legal p pkt) :
    (pkt.hdr.packetSeq.toNat ∈ S ∧ fecGroupInsertPkt g pkt = .ok g) ∨
      (pkt.hdr.packetSeq.toNat ∉ S ∧ fecGroupInsertPkt g pkt = .ok { g with
        buf := .obj (put mem (pkt.hdr.packetSeq.toNat * p.len.toNat)
          (paddedRow p.len.toNat (carried pkt)))
        lengths := .obj (ls.set pkt.hdr.packetSeq.toNat pkt.hdr.len.toUInt32)
        rcvdPkts := g.rcvdPkts + 1 }) := by
  rw [insertPkt_eq h hpkt.seq hpkt.len hpkt.tstamp]
  by_cases hS : pkt.hdr.packetSeq.toNat ∈ S
  · exact .inl ⟨hS, if_pos hS⟩
  · refine .inr ⟨hS, ?_⟩
    have hrow := writeRow_ok hpkt h.mem_length
    obtain ⟨buf₁, h₁, h₂⟩ := bind_eq_ok.mp hrow
    rw [if_neg hS, bind_of_ok (slice_carried hpkt), bind_of_ok h₁, bind_of_ok h₂,
      bind_of_ok (store_of_lt _ (h.ls_length ▸ hpkt.seq_lt))]

/-- Inserting a packet that is not empty, or not new, keeps the records together. -/
theorem insertPkt_tracks (h : Tracks p S mem ls g) (hpkt : Legal p pkt)
    (hlen : pkt.hdr.len ≠ 0 ∨ pkt.hdr.packetSeq.toNat ∈ S) :
    ∃ g' mem' ls', fecGroupInsertPkt g pkt = .ok g' ∧
      Tracks p (insert pkt.hdr.packetSeq.toNat S) mem' ls' g' ∧ g'.decoded = g.decoded ∧
      mem' = if pkt.hdr.packetSeq.toNat ∈ S then mem
        else put mem (pkt.hdr.packetSeq.toNat * p.len.toNat)
          (paddedRow p.len.toNat (carried pkt)) := by
  rcases insertPkt_cases h.toMarks hpkt with ⟨hS, hrun⟩ | ⟨hS, hrun⟩
  · exact ⟨g, mem, ls, hrun, (Finset.insert_eq_of_mem hS).symm ▸ h, rfl, (if_pos hS).symm⟩
  · have hlt := hpkt.seq_lt
    have hne : pkt.hdr.len.toUInt32 ≠ 0 := by
      intro h0
      refine hlen.resolve_right hS (UInt16.toNat_inj.mp ?_)
      have := congrArg UInt32.toNat h0
      rwa [UInt16.toNat_toUInt32] at this
    have hle : (carried pkt).length ≤ p.len.toNat := by
      rw [length_carried hpkt]
      exact UInt16.le_iff_toNat_le.mp hpkt.len
    have hcard := Finset.card_insert_of_notMem hS
    have hlts : ∀ i ∈ insert pkt.hdr.packetSeq.toNat S, i < p.n.toNat := by
      intro i hi
      rcases Finset.mem_insert.mp hi with rfl | hi
      · exact hlt
      · exact h.lt i hi
    refine ⟨_,
      put mem (pkt.hdr.packetSeq.toNat * p.len.toNat) (paddedRow p.len.toNat (carried pkt)),
      ls.set pkt.hdr.packetSeq.toNat pkt.hdr.len.toUInt32, hrun, ?_, rfl, (if_neg hS).symm⟩
    exact
      { fecK := h.fecK
        fecN := h.fecN
        fecLen := h.fecLen
        tstamp := h.tstamp
        buf := rfl
        mem_length := by
          rw [length_put (by
            rw [length_paddedRow hle, h.mem_length]; exact row_end_le hlt), h.mem_length]
        lengths := rfl
        ls_length := by rw [List.length_set, h.ls_length]
        lt := hlts
        received := fun i hi => by
          rw [getD_set (h.ls_length ▸ hlt)]
          by_cases his : pkt.hdr.packetSeq.toNat = i
          · simp [his, hne]
          · rw [if_neg his, h.received i hi, Finset.mem_insert, not_or]
            exact (and_iff_right fun e => his e.symm).symm
        count := by
          have hcount := h.count
          have hbound : S.card < p.n.toNat := by
            have := Finset.card_le_card (fun i hi => Finset.mem_range.mpr (hlts i hi) :
              insert pkt.hdr.packetSeq.toNat S ⊆ Finset.range p.n.toNat)
            rw [Finset.card_range, hcard] at this
            omega
          have := p.n.toNat_lt
          change (g.rcvdPkts + 1).toNat = _
          rw [UInt8.toNat_add, hcount, hcard]
          exact Nat.mod_eq_of_lt (by change S.card + 1 < 256; omega) }

/-! ## The index scan -/

/-- The scan at `i`: the packets of `S` below `i`, in increasing order. -/
structure Scanned (k : Nat) (S : Finset Nat) (i j : Nat) (idxs : List UInt32) : Prop where
  length : idxs.length = k
  count : j = (S.filter fun x => x < i).card
  mem : ∀ t, t < j → idxAt idxs t ∈ S ∧ idxAt idxs t < i
  lt : ∀ t u, t < u → u < j → idxAt idxs t < idxAt idxs u

theorem Scanned.skip {k i j : Nat} {idxs : List UInt32} (h : Scanned k S i j idxs) (hi : i ∉ S) :
    Scanned k S (i + 1) j idxs where
  length := h.length
  count := by
    rw [h.count]
    congr 1
    ext x
    simp only [Finset.mem_filter, and_congr_right_iff]
    intro hx
    have : x ≠ i := fun e => hi (e ▸ hx)
    omega
  mem t ht := ⟨(h.mem t ht).1, Nat.lt_succ_of_lt (h.mem t ht).2⟩
  lt := h.lt

theorem Scanned.take {k i j : Nat} {idxs : List UInt32} (h : Scanned k S i j idxs) (hi : i ∈ S)
    (hi256 : i < 256) (hj : j < k) :
    Scanned k S (i + 1) (j + 1) (idxs.set j (UInt32.ofNat i)) := by
  have hat (t : Nat) :
      idxAt (idxs.set j (UInt32.ofNat i)) t = if j = t then i else idxAt idxs t := by
    rw [idxAt, getD_set (h.length ▸ hj)]
    by_cases hjt : j = t
    · rw [if_pos hjt, if_pos hjt, UInt32.toNat_ofNat', Nat.mod_eq_of_lt (by omega)]
    · rw [if_neg hjt, if_neg hjt]
      rfl
  refine ⟨by rw [List.length_set, h.length], ?_, fun t ht => ?_, fun t u htu hu => ?_⟩
  · have hins : (S.filter fun x => x < i + 1) = insert i (S.filter fun x => x < i) := by
      ext x
      simp only [Finset.mem_filter, Finset.mem_insert]
      constructor
      · rintro ⟨hx, hlt⟩
        by_cases hxi : x = i
        · exact .inl hxi
        · exact .inr ⟨hx, by omega⟩
      · rintro (rfl | ⟨hx, hlt⟩)
        · exact ⟨hi, Nat.lt_succ_self x⟩
        · exact ⟨hx, by omega⟩
    rw [hins, Finset.card_insert_of_notMem (by simp), ← h.count]
  · rw [hat]
    by_cases hjt : j = t
    · rw [if_pos hjt]
      exact ⟨hi, Nat.lt_succ_self i⟩
    · rw [if_neg hjt]
      have := h.mem t (by omega)
      exact ⟨this.1, by omega⟩
  · rw [hat, hat, if_neg (by omega)]
    by_cases hju : j = u
    · rw [if_pos hju]
      exact (h.mem t (by omega)).2
    · rw [if_neg hju]
      exact h.lt t u htu (by omega)

theorem Scanned.selection {k i : Nat} {idxs : List UInt32} (h : Scanned k S i k idxs)
    (hlt : ∀ x ∈ S, x < p.n.toNat) : Selection k p.n.toNat idxs ∧ ∀ x ∈ idxs, x.toNat ∈ S := by
  have hget (t : Nat) (ht : t < idxs.length) : idxs[t].toNat = idxAt idxs t := by
    rw [idxAt, List.getD_eq_getElem?_getD, List.getElem?_eq_getElem ht, Option.getD_some]
  have hmem (x : UInt32) (hx : x ∈ idxs) : x.toNat ∈ S := by
    obtain ⟨t, ht, rfl⟩ := List.mem_iff_getElem.mp hx
    rw [hget t ht]
    exact (h.mem t (h.length ▸ ht)).1
  refine ⟨⟨h.length, ?_, fun x hx => hlt _ (hmem x hx)⟩, hmem⟩
  rw [List.nodup_iff_injective_getElem]
  intro t u htu
  have hval := congrArg UInt32.toNat htu
  simp only [hget] at hval
  rcases Nat.lt_trichotomy t u with hlt' | heq | hgt
  · have := h.lt t u hlt' (h.length ▸ u.isLt)
    omega
  · exact Fin.ext heq
  · have := h.lt u t hgt (h.length ▸ t.isLt)
    omega

/-- The scan finds `fec_k` packets exactly when as many are recorded as received. -/
theorem scanIdxs_ok (h : Marks p S mem ls g) (hk : 1 ≤ p.k.toNat) :
    (p.k.toNat ≤ S.card ∧ ∃ idxs, scanIdxs g = .ok (p.k.toNat, idxs) ∧
        Selection p.k.toNat p.n.toNat idxs ∧ ∀ x ∈ idxs, x.toNat ∈ S) ∨
      (S.card < p.k.toNat ∧ ∃ idxs, scanIdxs g = .ok (S.card, idxs)) := by
  unfold scanIdxs
  rw [h.fecK, h.fecN]
  have hloop := forLeave_invariant (b := scanPass g) (s := (0, List.replicate p.k.toNat 0))
    (I := fun i s => Scanned p.k.toNat S i s.1 s.2 ∧ s.1 < p.k.toNat)
    (Q := fun r => r.1 = p.k.toNat ∧ ∃ i, Scanned p.k.toNat S i r.1 r.2) p.n.toNat
    ⟨⟨List.length_replicate, by simp, fun t ht => absurd ht (Nat.not_lt_zero t),
      fun t u _ hu => absurd hu (Nat.not_lt_zero u)⟩, hk⟩ ?_
  · rcases hloop with ⟨⟨j, idxs⟩, hrun, hscan, hj⟩ | ⟨⟨j, idxs⟩, hrun, hj, i, hscan⟩
    · right
      simp only at hscan hj
      have hall : (S.filter fun x => x < p.n.toNat) = S :=
        Finset.filter_true_of_mem fun x hx => h.lt x hx
      have hcount := hscan.count
      rw [hall] at hcount
      exact ⟨hcount ▸ hj, idxs, by simp only [bind_of_ok hrun, hcount]⟩
    · left
      simp only at hscan hj
      subst hj
      have hle := Finset.card_filter_le S fun x => x < i
      rw [← hscan.count] at hle
      exact ⟨hle, idxs, by simp only [bind_of_ok hrun], hscan.selection h.lt⟩
  · rintro i ⟨j, idxs⟩ hi ⟨hscan, hj⟩
    have hrec := h.received i hi
    have hn := p.n.toNat_lt
    simp only at hscan hj
    unfold scanPass
    rw [h.fecK, h.lengths, Ptr.deref_obj, ok_bind, bind_of_ok (load_of_lt 0 (h.ls_length ▸ hi))]
    by_cases hS : i ∈ S
    · have hpos : ls.getD i 0 > 0 := UInt32.pos_iff_ne_zero.mpr fun h0 => hrec.mp h0 hS
      have htake := hscan.take hS (by omega) hj
      rw [if_pos hpos, bind_of_ok (store_of_lt _ (hscan.length ▸ hj))]
      by_cases hjk : j + 1 = p.k.toNat
      · exact .inr ⟨_, if_pos hjk, hjk, i + 1, htake⟩
      · exact .inl ⟨_, if_neg hjk, htake, by change j + 1 < _; omega⟩
    · have hzero : ¬ ls.getD i 0 > 0 := by
        rw [hrec.mpr hS]
        decide
      exact .inl ⟨_, if_neg hzero, hscan.skip hS, hj⟩

end RtpSdr.Fec.Group
