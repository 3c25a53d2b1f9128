import RtpSdr.Fec.ReceiveCount
import RtpSdr.Fec.Rejection

/-!
# A group used again

`fec_group_init` opens a group, `fec_group_clear` and `fec_group_destroy` take its
buffer away. Only the first of them resets the flag that `fec_group_decode` sets
and answers by, so a group that was decoded still looks decoded without a buffer,
and one that was not has no packets to wait for: its `fec_k` is zero.
-/
namespace RtpSdr.Fec.GroupReuse

open RtpSdr.Lib.Checked
open RtpSdr.Lib.Memory
open RtpSdr.Fec.Galois
open RtpSdr.Fec.Code
open RtpSdr.Fec.Shuffle
open RtpSdr.Fec.Decode
open RtpSdr.Fec.Group
open RtpSdr.Fec.ReceiveCount
open RtpSdr.Fec.Rejection

/-- `fec_group_clear(group)`. -/
def fecGroupClear (group : FecGroup) : FecGroup :=
  { group with
    buf := .null, lengths := .null, fecK := 0, fecN := 0, tstamp := 0, fecLen := 0, rcvdPkts := 0 }

/-- A pointer that is freed and set to null, if it is not null already. -/
def freeIfSet {α : Type} (p : Ptr α) : Exec (Ptr α) :=
  if p.isSet then do
    let _ ← free p
    .ok .null
  else .ok p

/-- `fec_group_destroy(group)`. -/
def fecGroupDestroy (group : FecGroup) : Exec FecGroup := do
  let buf ← freeIfSet group.buf
  let lengths ← freeIfSet group.lengths
  .ok (fecGroupClear { group with buf := buf, lengths := lengths })

/-- The calls on one group structure. -/
inductive Use where
  | init (fecK fecN seq : UInt8) (tstamp : UInt64) (fecLen : UInt16) (block : Nat → Gf)
  | insert (pkt : FecPkt)
  | decode
  | clear
  | destroy

def use (group : FecGroup) : Use → Exec FecGroup
  | .init fecK fecN seq tstamp fecLen block =>
    .ok (fecGroupInit fecK fecN seq tstamp fecLen block)
  | .insert pkt => fecGroupInsertPkt group pkt
  | .decode => do
    let (_, group) ← fecGroupDecode group
    .ok group
  | .clear => .ok (fecGroupClear group)
  | .destroy => fecGroupDestroy group

def Opens : Use → Prop
  | .init .. => True
  | _ => False

def Closes : Use → Prop
  | .clear => True
  | .destroy => True
  | _ => False

/-! ## What the flag stands for -/

/-- A packet with the sequence number `i` that is not empty came since the group was opened. -/
def Received (uses : List Use) (i : Nat) : Prop :=
  ∃ pre pkt post, uses = pre ++ .insert pkt :: post ∧ (∀ u ∈ post, ¬ Opens u ∧ ¬ Closes u) ∧
    pkt.hdr.packetSeq.toNat = i ∧ pkt.hdr.len ≠ 0

/-- The buffer of `h` became that of `h'` by a successful `fec_decode` for its parameters, from
`fec_k` different rows whose packets were received. -/
def Completes (uses : List Use) (h h' : FecGroup) : Prop :=
  ∃ fec idxs mem r mem' idxs', fecNew h.fecK.toUInt32 h.fecN.toUInt32 = .ok fec ∧
    Selection h.fecK.toNat h.fecN.toNat idxs ∧ (∀ x ∈ idxs, Received uses x.toNat) ∧
    h.buf = .obj mem ∧ fecDecode fec mem idxs h.fecLen.toUInt32 = .ok (r, mem', idxs') ∧
    r ≠ 0 ∧ h'.buf = .obj mem'

/-- Since the group was last opened, a decode has completed the rows of its buffer. -/
def Completed (start : FecGroup) (uses : List Use) (group : FecGroup) : Prop :=
  ∃ pre post h h', uses = pre ++ .decode :: post ∧ (∀ u ∈ post, ¬ Opens u ∧ ¬ Closes u) ∧
    runAll use start pre = .ok h ∧ use h .decode = .ok h' ∧ Completes pre h h' ∧
    group.fecK = h.fecK ∧ group.fecN = h.fecN ∧ group.fecLen = h.fecLen

def Owns (group : FecGroup) : Prop := ∃ mem, group.buf = .obj mem

/-- The flag is set only on a completed buffer that the group owns. -/
def HonestFlag (start : FecGroup) (uses : List Use) (group : FecGroup) : Prop :=
  group.decoded ≠ 0 → Owns group ∧ Completed start uses group

/-- The call does nothing that C leaves undefined, and a decode without a buffer does not
return one. -/
structure HonestCall (group : FecGroup) (u : Use) : Prop where
  defined : OnlyAsserts (use group u)
  result : ∀ group', u = .decode → fecGroupDecode group = .ok (1, group') → Owns group

/-- The flag is honest in every state of the run, and so is every call of it. -/
def AlwaysHonest (start : FecGroup) (uses : List Use) : Prop :=
  ∀ pre group, pre <+: uses → runAll use start pre = .ok group →
    HonestFlag start pre group ∧ ∀ u, pre ++ [u] <+: uses → HonestCall group u

/-! ## The calls that keep it so -/

/-- The packet passes the assertions of `fec_group_insert_pkt`. -/
structure Admitted (group : FecGroup) (pkt : FecPkt) : Prop where
  seq : pkt.hdr.packetSeq < group.fecN
  len : pkt.hdr.len ≤ group.fecLen
  tstamp : pkt.hdr.groupTstamp = group.tstamp

/-- It passes them and its length is still zero, so it is copied. -/
def Copies (group : FecGroup) (pkt : FecPkt) : Prop :=
  Admitted group pkt ∧ ∃ ls, group.lengths = .obj ls ∧ ls.getD pkt.hdr.packetSeq.toNat 0 = 0

/-- A group is closed only before it was decoded, decoded only if it is or wants a packet, and
a packet that is copied has the payload its length announces. -/
def Careful (group : FecGroup) : Use → Prop
  | .init .. => True
  | .insert pkt => Copies group pkt → pkt.payload + pkt.hdr.len.toNat ≤ pkt.data.length
  | .decode => group.decoded ≠ 0 ∨ group.fecK ≠ 0
  | .clear => group.decoded = 0
  | .destroy => group.decoded = 0

def AlwaysCareful (start : FecGroup) (uses : List Use) : Prop :=
  ∀ pre u group, pre ++ [u] <+: uses → runAll use start pre = .ok group → Careful group u

variable {start group group' : FecGroup} {uses : List Use} {pkt : FecPkt} {mem : List Gf}
  {ls : List UInt32} {S : Finset Nat} {p : Params}

theorem Received.concat {i : Nat} (h : Received uses i) {u : Use} (hu : ¬ Opens u ∧ ¬ Closes u) :
    Received (uses ++ [u]) i := by
  obtain ⟨pre, pkt, post, rfl, hpost, hseq, hlen⟩ := h
  refine ⟨pre, pkt, post ++ [u], by simp, ?_, hseq, hlen⟩
  intro v hv
  rcases List.mem_append.mp hv with hv | hv
  · exact hpost v hv
  · rw [List.mem_singleton.mp hv]
    exact hu

theorem Completed.concat (h : Completed start uses group) {u : Use} (hu : ¬ Opens u ∧ ¬ Closes u)
    (hk : group'.fecK = group.fecK) (hn : group'.fecN = group.fecN)
    (hlen : group'.fecLen = group.fecLen) : Completed start (uses ++ [u]) group' := by
  obtain ⟨pre, post, g, g', rfl, hpost, hpre, hdecode, hcompletes, hk', hn', hlen'⟩ := h
  refine ⟨pre, post ++ [u], g, g', by simp, ?_, hpre, hdecode, hcompletes, hk.trans hk',
    hn.trans hn', hlen.trans hlen'⟩
  intro v hv
  rcases List.mem_append.mp hv with hv | hv
  · exact hpost v hv
  · rw [List.mem_singleton.mp hv]
    exact hu

/-! ## What a group holds -/

/-- The parameters a group has. -/
def params (group : FecGroup) : Params := ⟨group.fecK, group.fecN, group.fecLen, group.tstamp⟩

/-- A group with a buffer and lengths, of which those of packets received are not zero. -/
def Open (uses : List Use) (group : FecGroup) : Prop :=
  ∃ mem ls, Marks (params group) (nonzero ls) mem ls group ∧ ∀ i ∈ nonzero ls, Received uses i

/-- A group without a buffer, as `fec_group_clear` leaves it. -/
structure Closed (group : FecGroup) : Prop where
  buf : group.buf = .null
  lengths : group.lengths = .null
  fecK : group.fecK = 0
  fecN : group.fecN = 0

theorem marks_nonzero (hbuf : group.buf = .obj mem)
    (hmem : mem.length = group.fecN.toNat * group.fecLen.toNat) (hlengths : group.lengths = .obj ls)
    (hls : ls.length = group.fecN.toNat) : Marks (params group) (nonzero ls) mem ls group where
  fecK := rfl
  fecN := rfl
  fecLen := rfl
  tstamp := rfl
  buf := hbuf
  mem_length := hmem
  lengths := hlengths
  ls_length := hls
  lt i hi := hls ▸ (mem_nonzero.mp hi).1
  received i hi := by
    rw [mem_nonzero, not_and_not_right]
    exact ⟨fun h0 _ => h0, fun h => h (hls.symm ▸ hi)⟩

theorem closed_clear (group : FecGroup) : Closed (fecGroupClear group) := ⟨rfl, rfl, rfl, rfl⟩

theorem open_init (hist : List Use) (fecK fecN seq : UInt8) (tstamp : UInt64) (fecLen : UInt16)
    (block : Nat → Gf) : Open hist (fecGroupInit fecK fecN seq tstamp fecLen block) := by
  refine ⟨_, _, marks_nonzero rfl (by rw [List.length_map, List.length_range]; rfl) rfl
    List.length_replicate, fun i hi => ?_⟩
  exact absurd (getD_replicate_default _ _ _) (mem_nonzero.mp hi).2

/-! ## What each call does -/

theorem insert_refused (h : ¬ Admitted group pkt) :
    fecGroupInsertPkt group pkt = .error .assertion := by
  unfold fecGroupInsertPkt
  by_cases hseq : pkt.hdr.packetSeq < group.fecN
  · by_cases hlen : pkt.hdr.len ≤ group.fecLen
    · have htstamp : ¬ pkt.hdr.groupTstamp = group.tstamp := fun heq => h ⟨hseq, hlen, heq⟩
      rw [decide_eq_true hseq, decide_eq_true hlen, decide_eq_false htstamp]
      rfl
    · rw [decide_eq_true hseq, decide_eq_false hlen]
      rfl
  · rw [decide_eq_false hseq]
    rfl

/-- Into a group with a buffer a packet is copied, dropped, or not let in. -/
theorem insert_open (h : Marks (params group) (nonzero ls) mem ls group)
    (hfits : Copies group pkt → pkt.payload + pkt.hdr.len.toNat ≤ pkt.data.length) :
    fecGroupInsertPkt group pkt = .error .assertion ∨ fecGroupInsertPkt group pkt = .ok group ∨
      ∃ mem', mem'.length = mem.length ∧ fecGroupInsertPkt group pkt = .ok { group with
        buf := .obj mem', lengths := .obj (ls.set pkt.hdr.packetSeq.toNat pkt.hdr.len.toUInt32),
        rcvdPkts := group.rcvdPkts + 1 } := by
  by_cases hadmitted : Admitted group pkt
  · right
    by_cases hnew : pkt.hdr.packetSeq.toNat ∈ nonzero ls
    · left
      rw [insertPkt_eq h hadmitted.seq hadmitted.len hadmitted.tstamp, if_pos hnew]
    · right
      have hlt := UInt8.lt_iff_toNat_lt.mp hadmitted.seq
      have hlegal : Legal (params group) pkt :=
        ⟨hadmitted.seq, hadmitted.len, hadmitted.tstamp,
          hfits ⟨hadmitted, ls, h.lengths, (h.received _ hlt).mpr hnew⟩⟩
      rcases insertPkt_cases h hlegal with ⟨hS, -⟩ | ⟨-, hrun⟩
      · exact absurd hS hnew
      · refine ⟨_, ?_, hrun⟩
        have hle : (carried pkt).length ≤ (params group).len.toNat := by
          rw [length_carried hlegal]
          exact UInt16.le_iff_toNat_le.mp hadmitted.len
        rw [length_put (by
          rw [length_paddedRow hle, h.mem_length]
          exact Matrix.row_end_le hlt)]
  · exact .inl (insert_refused hadmitted)

theorem insert_fault (h : Marks (params group) (nonzero ls) mem ls group)
    (hcopies : Copies group pkt) (hnot : ¬ pkt.payload + pkt.hdr.len.toNat ≤ pkt.data.length) :
    fecGroupInsertPkt group pkt = .error .bounds := by
  obtain ⟨hadmitted, ls', hls', hzero⟩ := hcopies
  cases h.lengths.symm.trans hls'
  have hnew := (h.received _ (UInt8.lt_iff_toNat_lt.mp hadmitted.seq)).mp hzero
  have hslice : slice (gfBytes pkt.data) pkt.payload pkt.hdr.len.toNat = .error .bounds :=
    if_neg hnot
  rw [insertPkt_eq h hadmitted.seq hadmitted.len hadmitted.tstamp, if_neg hnew, hslice]
  rfl

theorem insert_closed (h : Closed group) (pkt : FecPkt) :
    fecGroupInsertPkt group pkt = .error .assertion := by
  apply insert_refused
  intro hadmitted
  have hseq := hadmitted.seq
  rw [h.fecN] at hseq
  exact UInt8.not_lt_zero hseq

/-- A decode of a group with a buffer that wants packets rebuilds the rows, waits for more
packets, or finds fewer than it counted. -/
theorem decode_open (h : Marks (params group) S mem ls group) (hk : group.fecK ≠ 0)
    (hd : group.decoded = 0) :
    fecGroupDecode group = .error .assertion ∨ fecGroupDecode group = .ok (0, group) ∨
      ∃ fec idxs mem' idxs', fecNew group.fecK.toUInt32 group.fecN.toUInt32 = .ok fec ∧
        Selection group.fecK.toNat group.fecN.toNat idxs ∧ (∀ x ∈ idxs, x.toNat ∈ S) ∧
        fecDecode fec mem idxs group.fecLen.toUInt32 = .ok (1, mem', idxs') ∧
        mem'.length = mem.length ∧
        fecGroupDecode group = .ok (1, { group with buf := .obj mem', decoded := 1 }) := by
  have hk1 : 1 ≤ group.fecK.toNat :=
    Nat.one_le_iff_ne_zero.mpr fun h0 => hk (UInt8.toNat_inj.mp h0)
  have hn := group.fecN.toNat_lt
  unfold fecGroupDecode
  rw [if_neg (not_not.mpr hd)]
  by_cases hcount : group.rcvdPkts ≥ group.fecK
  · rw [if_pos hcount]
    rcases scanIdxs_ok h hk1 with ⟨hcard, idxs, hscan, hsel, hmem⟩ | ⟨hlt, idxs, hscan⟩
    · right
      right
      have hkn : group.fecK.toNat ≤ group.fecN.toNat := by
        have hS : S ⊆ Finset.range group.fecN.toNat := fun i hi => Finset.mem_range.mpr (h.lt i hi)
        have := Finset.card_le_card hS
        rw [Finset.card_range] at this
        exact hcard.trans this
      obtain ⟨fec, hfec, -, -, hg⟩ := Code.fecNew_ok (k := group.fecK.toUInt32)
        (n := group.fecN.toUInt32) hk1 hkn (by change group.fecN.toNat ≤ 256; omega)
      obtain ⟨idxs', dec, m, hready, hdecode⟩ := fecDecode_ready hg hkn
        (by change group.fecN.toNat ≤ 256; omega) hsel mem group.fecLen.toUInt32
      have hbuf : mem.length = group.fecN.toUInt32.toNat * group.fecLen.toUInt32.toNat :=
        h.mem_length
      obtain ⟨mem', hrows, hlength⟩ := rebuildRows_total hg
        (by change group.fecK.toNat ≤ 256; omega) hkn hready.selection.length
        (fun i hi => hready.lt hi) hready.holds.length hbuf
      rw [bind_of_ok hrows] at hdecode
      refine ⟨fec, idxs, mem', idxs', hfec, hsel, hmem, hdecode, hlength, ?_⟩
      have hk : (params group).k.toNat = group.fecK.toNat := rfl
      simp only [bind_of_ok hscan, hk, h.buf, decide_true, cassert_true, ok_bind, bind_of_ok hfec,
        Ptr.deref_obj, bind_of_ok hdecode, one_ne_zero, if_false]
    · left
      have hne : S.card ≠ group.fecK.toNat := hlt.ne
      rw [bind_of_ok hscan]
      dsimp only
      rw [decide_eq_false hne]
      rfl
  · exact .inr (.inl (if_neg hcount))

theorem neverAsserts_scanIdxs (group : FecGroup) : NeverAsserts (scanIdxs group) := by
  have hpass (i : Nat) (s : Nat × List UInt32) : NeverAsserts (scanPass group i s) := by
    simp [scanPass]
  refine (neverAsserts_bind _ _).mpr ⟨neverAsserts_forLeave hpass _ _, fun d _ => ?_⟩
  cases d <;> exact neverAsserts_ok _

/-- A scan that wants no packet finds none: there is no cell to enter it in. -/
theorem scanIdxs_zero (hk : group.fecK = 0) {j : Nat} {idxs : List UInt32}
    (hrun : scanIdxs group = .ok (j, idxs)) : j = 0 := by
  have hpass (i : Nat) (d : Step (Nat × List UInt32) (Nat × List UInt32))
      (hrun : scanPass group i (0, []) = .ok d) : d = .next (0, []) := by
    obtain ⟨lengths, -, hrun⟩ := bind_eq_ok.mp hrun
    obtain ⟨l, -, hrun⟩ := bind_eq_ok.mp hrun
    by_cases hl : l > 0
    · rw [if_pos hl] at hrun
      obtain ⟨_, hstore, -⟩ := bind_eq_ok.mp hrun
      exact absurd (store_eq_ok hstore).1 (Nat.not_lt_zero 0)
    · rw [if_neg hl] at hrun
      cases hrun
      rfl
  obtain ⟨d, hloop, hret⟩ := bind_eq_ok.mp hrun
  rw [hk] at hloop
  rcases forLeave_outcome (I := fun _ s => s = (0, [])) (Q := fun _ => False) rfl
      (fun i s u _ hs hrun => by
        cases hs
        cases hpass i _ hrun
        rfl)
      (fun i s r _ hs hrun => by
        cases hs
        cases hpass i _ hrun)
      hloop with ⟨s, rfl, rfl⟩ | ⟨r, rfl, hfalse⟩
  · cases hret
    rfl
  · exact hfalse.elim

/-- With `k` zero the first cell of `tmp` is already outside it. -/
theorem fecNew_zero (n : UInt32) : fecNew 0 n = .error .bounds := by
  have hfill : fillTmp 0 n = .error .bounds := by
    rw [fillTmp, UInt32.zero_mul]
    rfl
  unfold fecNew
  rw [hfill]
  simp [literal]

/-- A decode of a group that wants no packets, and is not decoded, runs into an empty array. -/
theorem decode_zero (hk : group.fecK = 0) (hd : group.decoded = 0) :
    ¬ OnlyAsserts (fecGroupDecode group) := by
  intro honly
  have hcount : group.rcvdPkts ≥ group.fecK := by
    rw [hk]
    exact UInt8.zero_le
  unfold fecGroupDecode at honly
  rw [if_neg (not_not.mpr hd), if_pos hcount] at honly
  cases hscan : scanIdxs group with
  | error e =>
    rw [hscan] at honly
    exact neverAsserts_scanIdxs group (hscan.trans (congrArg Except.error (honly e rfl)))
  | ok s =>
    obtain ⟨j, idxs⟩ := s
    obtain rfl := scanIdxs_zero hk hscan
    rw [bind_of_ok hscan, hk] at honly
    have hbounds := honly .bounds (by
      change (cassert (decide (0 = 0)) >>= fun _ => fecNew 0 group.fecN.toUInt32 >>= _) = _
      rw [fecNew_zero]
      rfl)
    cases hbounds

theorem destroy_eq (h : group.buf ≠ .freed) (h' : group.lengths ≠ .freed) :
    fecGroupDestroy group = .ok (fecGroupClear group) := by
  have hfree {α : Type} {p : Ptr α} (hp : p ≠ .freed) : freeIfSet p = .ok .null := by
    cases p with
    | null => rfl
    | obj a => rfl
    | freed => exact absurd rfl hp
  rw [fecGroupDestroy, bind_of_ok (hfree h), bind_of_ok (hfree h')]
  rfl

/-! ## Runs -/

/-- What every run leaves. -/
def Held (uses : List Use) (group : FecGroup) : Prop := Open uses group ∨ Closed group

theorem closes_eq (h : Held uses group) {u : Use} (hu : Closes u) :
    use group u = .ok (fecGroupClear group) := by
  cases u with
  | init => cases hu
  | insert => cases hu
  | decode => cases hu
  | clear => rfl
  | destroy =>
    rcases h with ⟨mem, ls, hmarks, -⟩ | hclosed
    · exact destroy_eq (hmarks.buf ▸ Ptr.obj_ne_freed mem) (hmarks.lengths ▸ Ptr.obj_ne_freed ls)
    · exact destroy_eq (hclosed.buf ▸ Ptr.null_ne_freed) (hclosed.lengths ▸ Ptr.null_ne_freed)

theorem Open.concat (h : Open uses group) {u : Use} (hu : ¬ Opens u ∧ ¬ Closes u) :
    Open (uses ++ [u]) group := by
  obtain ⟨mem, ls, hmarks, hreceived⟩ := h
  exact ⟨mem, ls, hmarks, fun i hi => (hreceived i hi).concat hu⟩

theorem copies_of_ok (hmarks : Marks (params group) (nonzero ls) mem ls group)
    (hrun : fecGroupInsertPkt group pkt = .ok group') :
    Copies group pkt → pkt.payload + pkt.hdr.len.toNat ≤ pkt.data.length := by
  intro hcopies
  by_contra hnot
  rw [insert_fault hmarks hcopies hnot] at hrun
  cases hrun

theorem insert_held (h : Open uses group) (hrun : fecGroupInsertPkt group pkt = .ok group') :
    Open (uses ++ [.insert pkt]) group' := by
  obtain ⟨mem, ls, hmarks, hreceived⟩ := h
  rcases insert_open hmarks (copies_of_ok hmarks hrun) with herror | hok | ⟨mem', hmem', hok⟩
  · rw [herror] at hrun
    cases hrun
  · cases hok.symm.trans hrun
    exact Open.concat ⟨mem, ls, hmarks, hreceived⟩ ⟨id, id⟩
  · cases hok.symm.trans hrun
    refine ⟨mem', _, marks_nonzero rfl (hmem'.trans hmarks.mem_length) rfl
      (by rw [List.length_set, hmarks.ls_length]; rfl), fun i hi => ?_⟩
    obtain ⟨hlt, hne⟩ := mem_nonzero.mp hi
    rw [List.length_set] at hlt
    by_cases hseq : pkt.hdr.packetSeq.toNat = i
    · rw [hseq, getD_set hlt, if_pos rfl] at hne
      refine ⟨uses, pkt, [], rfl, fun v hv => absurd hv List.not_mem_nil, hseq, fun h0 => hne ?_⟩
      rw [h0]
      rfl
    · rw [List.getD_eq_getElem?_getD, List.getElem?_set_ne hseq,
        ← List.getD_eq_getElem?_getD] at hne
      exact (hreceived i (mem_nonzero.mpr ⟨hlt, hne⟩)).concat ⟨id, id⟩

/-- What a decode of an open group does to it, and what one that answers one has done. -/
theorem decode_held (h : Open uses group) {r : Int}
    (hrun : fecGroupDecode group = .ok (r, group')) :
    Open (uses ++ [.decode]) group' ∧
      (group' = group ∨ (group'.decoded = 1 ∧ Owns group' ∧ Completes uses group group' ∧
        group'.fecK = group.fecK ∧ group'.fecN = group.fecN ∧ group'.fecLen = group.fecLen)) := by
  by_cases hd : group.decoded = 0
  · by_cases hk : group.fecK = 0
    · exact absurd (onlyAsserts_of_ok hrun) (decode_zero hk hd)
    · obtain ⟨mem, ls, hmarks, hreceived⟩ := h
      rcases decode_open hmarks hk hd with herror | hok |
          ⟨fec, idxs, mem', idxs', hfec, hsel, hmem, hdecode, hlength, hok⟩
      · rw [herror] at hrun
        cases hrun
      · cases hok.symm.trans hrun
        exact ⟨Open.concat ⟨mem, ls, hmarks, hreceived⟩ ⟨id, id⟩, .inl rfl⟩
      · cases hok.symm.trans hrun
        refine ⟨⟨mem', ls, marks_nonzero rfl (hlength.trans hmarks.mem_length) hmarks.lengths
          hmarks.ls_length, fun i hi => (hreceived i hi).concat ⟨id, id⟩⟩, .inr ⟨rfl, ⟨mem', rfl⟩,
          ?_, rfl, rfl, rfl⟩⟩
        exact ⟨fec, idxs, mem, 1, mem', idxs', hfec, hsel, fun x hx => hreceived _ (hmem x hx),
          hmarks.buf, hdecode, one_ne_zero, rfl⟩
  · have hone : fecGroupDecode group = .ok (1, group) := if_pos hd
    cases hone.symm.trans hrun
    exact ⟨h.concat ⟨id, id⟩, .inl rfl⟩

theorem use_held (h : Held uses group) {u : Use} (hrun : use group u = .ok group') :
    Held (uses ++ [u]) group' := by
  cases u with
  | init fecK fecN seq tstamp fecLen block =>
    cases hrun
    exact .inl (open_init _ fecK fecN seq tstamp fecLen block)
  | insert pkt =>
    rcases h with hopen | hclosed
    · exact .inl (insert_held hopen hrun)
    · rw [use, insert_closed hclosed pkt] at hrun
      cases hrun
  | decode =>
    obtain ⟨⟨r, g⟩, hdecode, hret⟩ := bind_eq_ok.mp hrun
    cases hret
    rcases h with hopen | hclosed
    · exact .inl (decode_held hopen hdecode).1
    · by_cases hd : group.decoded = 0
      · exact absurd (onlyAsserts_of_ok hdecode) (decode_zero hclosed.fecK hd)
      · have hone : fecGroupDecode group = .ok (1, group) := if_pos hd
        cases hone.symm.trans hdecode
        exact .inr hclosed
  | clear =>
    cases (closes_eq (u := .clear) h trivial).symm.trans hrun
    exact .inr (closed_clear group)
  | destroy =>
    cases (closes_eq (u := .destroy) h trivial).symm.trans hrun
    exact .inr (closed_clear group)

theorem run_held (h0 : Open [] start) (hrun : runAll use start uses = .ok group) :
    Held uses group :=
  runAll_history (I := Held) (.inl h0) (fun _ _ _ _ _ hheld hcall => use_held hheld hcall) uses hrun

/-! ## Which calls are honest -/

theorem honestCall_insert (h : Held uses group) (pkt : FecPkt) :
    HonestCall group (.insert pkt) ↔ Careful group (.insert pkt) := by
  rcases h with ⟨mem, ls, hmarks, -⟩ | hclosed
  · constructor
    · intro hcall hcopies
      by_contra hnot
      cases hcall.defined .bounds (insert_fault hmarks hcopies hnot)
    · intro hfits
      refine ⟨?_, fun group' heq => by cases heq⟩
      rcases insert_open hmarks hfits with herror | hok | ⟨mem', -, hok⟩
      · exact onlyAsserts_of_assertion herror
      · exact onlyAsserts_of_ok hok
      · exact onlyAsserts_of_ok hok
  · refine iff_of_true
      ⟨onlyAsserts_of_assertion (insert_closed hclosed pkt), fun group' heq => ?_⟩ ?_
    · cases heq
    · intro hcopies
      have hseq := hcopies.1.seq
      rw [hclosed.fecN] at hseq
      exact absurd hseq UInt8.not_lt_zero

theorem honestCall_decode (h : Held uses group) (hflag : HonestFlag start uses group) :
    HonestCall group .decode ↔ Careful group .decode := by
  have hdefined : OnlyAsserts (use group .decode) ↔ OnlyAsserts (fecGroupDecode group) := by
    rw [use]
    cases fecGroupDecode group with
    | error e => rw [error_bind, onlyAsserts_error, onlyAsserts_error]
    | ok a => exact iff_of_true (onlyAsserts_of_ok rfl) (onlyAsserts_of_ok rfl)
  constructor
  · intro hcall
    by_contra hnot
    obtain ⟨hd, hk⟩ := not_or.mp hnot
    exact decode_zero (not_not.mp hk) (not_not.mp hd) (hdefined.mp hcall.defined)
  · intro hcareful
    by_cases hd : group.decoded = 0
    · have hk := hcareful.resolve_left (not_not.mpr hd)
      rcases h with ⟨mem, ls, hmarks, -⟩ | hclosed
      · refine ⟨hdefined.mpr ?_, fun _ _ _ => ⟨mem, hmarks.buf⟩⟩
        rcases decode_open hmarks hk hd with herror | hok | ⟨_, _, _, _, -, -, -, -, -, hok⟩
        · exact onlyAsserts_of_assertion herror
        · exact onlyAsserts_of_ok hok
        · exact onlyAsserts_of_ok hok
      · exact absurd hclosed.fecK hk
    · have hone : fecGroupDecode group = .ok (1, group) := if_pos hd
      exact ⟨hdefined.mpr (onlyAsserts_of_ok hone), fun _ _ _ => (hflag hd).1⟩

theorem honestCall_closes (h : Held uses group) {u : Use} (hu : Closes u) : HonestCall group u := by
  refine ⟨onlyAsserts_of_ok (closes_eq h hu), fun group' heq => ?_⟩
  rw [heq] at hu
  cases hu

/-- One careful call keeps the flag honest. -/
theorem use_honestFlag {u : Use} (h : Held uses group) (hpre : runAll use start uses = .ok group)
    (hflag : HonestFlag start uses group) (hcareful : Careful group u)
    (hrun : use group u = .ok group') : HonestFlag start (uses ++ [u]) group' := by
  intro hdecoded
  cases u with
  | init =>
    cases hrun
    exact absurd rfl hdecoded
  | insert pkt =>
    rcases h with ⟨mem, ls, hmarks, -⟩ | hclosed
    · rcases insert_open hmarks hcareful with herror | hok | ⟨mem', -, hok⟩
      · cases herror.symm.trans hrun
      · cases hok.symm.trans hrun
        obtain ⟨howns, hcompleted⟩ := hflag hdecoded
        exact ⟨howns, hcompleted.concat ⟨id, id⟩ rfl rfl rfl⟩
      · cases hok.symm.trans hrun
        exact ⟨⟨mem', rfl⟩, (hflag hdecoded).2.concat ⟨id, id⟩ rfl rfl rfl⟩
    · cases (insert_closed hclosed pkt).symm.trans hrun
  | decode =>
    obtain ⟨⟨r, g⟩, hdecode, hret⟩ := bind_eq_ok.mp hrun
    cases hret
    by_cases hd : group.decoded = 0
    · rcases h with hopen | hclosed
      · rcases (decode_held hopen hdecode).2 with rfl | ⟨-, howns, hcompletes, hk, hn, hlen⟩
        · exact absurd hd hdecoded
        · refine ⟨howns, uses, [], group, _, rfl, fun v hv => ?_, hpre, hrun, hcompletes, hk, hn,
            hlen⟩
          exact absurd hv List.not_mem_nil
      · exact absurd (onlyAsserts_of_ok hdecode) (decode_zero hclosed.fecK hd)
    · have hone : fecGroupDecode group = .ok (1, group) := if_pos hd
      cases hone.symm.trans hdecode
      obtain ⟨howns, hcompleted⟩ := hflag hd
      exact ⟨howns, hcompleted.concat ⟨id, id⟩ rfl rfl rfl⟩
  | clear =>
    cases hrun
    exact absurd hcareful hdecoded
  | destroy =>
    cases (closes_eq (u := .destroy) h trivial).symm.trans hrun
    exact absurd hcareful hdecoded

theorem AlwaysCareful.of_prefix {pre : List Use} (h : AlwaysCareful start uses)
    (hpre : pre <+: uses) : AlwaysCareful start pre :=
  fun before u g hbefore hrun => h before u g (hbefore.trans hpre) hrun

theorem run_honestFlag (h0 : Open [] start) (hdecoded : start.decoded = 0)
    (h : AlwaysCareful start uses) (hrun : runAll use start uses = .ok group) :
    HonestFlag start uses group := by
  refine runAll_history (I := fun hist g => AlwaysCareful start hist → HonestFlag start hist g)
    (fun _ hne => absurd hdecoded hne) ?_ uses hrun h
  intro hist g g' u hhist hI hcall hcareful
  exact use_honestFlag (run_held h0 hhist) hhist
    (hI (hcareful.of_prefix (List.prefix_append hist [u])))
    (hcareful hist u g (List.prefix_refl _) hhist) hcall

theorem not_owns_of_closed (h : Closed group) : ¬ Owns group := by
  intro howns
  obtain ⟨mem, hmem⟩ := howns
  cases h.buf.symm.trans hmem

/-- A group that is closed after it was decoded keeps the flag without a buffer. -/
theorem decoded_of_honest (h0 : Open [] start) (h : AlwaysHonest start uses) {pre : List Use}
    {u : Use} (hu : Closes u) (hpre : pre ++ [u] <+: uses)
    (hrun : runAll use start pre = .ok group) : group.decoded = 0 := by
  by_contra hdecoded
  have hclosed := runAll_concat_eq_ok.mpr ⟨group, hrun, closes_eq (run_held h0 hrun) hu⟩
  exact not_owns_of_closed (closed_clear group) ((h _ _ hpre hclosed).1 hdecoded).1

/-- A run from an open group is honest exactly when every call of it is careful. -/
theorem alwaysHonest_iff_of_open (h0 : Open [] start) (hdecoded : start.decoded = 0) :
    AlwaysHonest start uses ↔ AlwaysCareful start uses := by
  constructor
  · intro h pre u group hpre hrun
    have hheld := run_held h0 hrun
    obtain ⟨hflag, hcalls⟩ := h pre group ((List.prefix_append pre [u]).trans hpre) hrun
    cases u with
    | init => trivial
    | insert pkt => exact (honestCall_insert hheld pkt).mp (hcalls _ hpre)
    | decode => exact (honestCall_decode hheld hflag).mp (hcalls _ hpre)
    | clear => exact decoded_of_honest (u := .clear) h0 h trivial hpre hrun
    | destroy => exact decoded_of_honest (u := .destroy) h0 h trivial hpre hrun
  · intro h pre group hpre hrun
    have hheld := run_held h0 hrun
    have hflag := run_honestFlag h0 hdecoded (h.of_prefix hpre) hrun
    refine ⟨hflag, fun u hu => ?_⟩
    have hcareful := h pre u group hu hrun
    cases u with
    | init => exact ⟨onlyAsserts_of_ok rfl, fun group' heq => by cases heq⟩
    | insert pkt => exact (honestCall_insert hheld pkt).mpr hcareful
    | decode => exact (honestCall_decode hheld hflag).mpr hcareful
    | clear => exact honestCall_closes hheld trivial
    | destroy => exact honestCall_closes hheld trivial

/-- A group that is opened and used again is honest throughout a run exactly when every call of
the run is careful: none closes a decoded group, and none decodes one that wants no packet. -/
theorem alwaysHonest_iff (fecK fecN seq : UInt8) (tstamp : UInt64) (fecLen : UInt16)
    (block : Nat → Gf) (uses : List Use) :
    AlwaysHonest (fecGroupInit fecK fecN seq tstamp fecLen block) uses ↔
      AlwaysCareful (fecGroupInit fecK fecN seq tstamp fecLen block) uses :=
  alwaysHonest_iff_of_open (open_init [] fecK fecN seq tstamp fecLen block) rfl

/-- The packet of a group of one, of one byte. -/
def onlyPkt : FecPkt := ⟨⟨254, 1, 0, 0, 1, 1, 1, 1, 0⟩, [7], 0⟩

/-- A group that is received, decoded and cleared keeps its flag, and the next decode returns
one without a buffer. -/
theorem alwaysHonest_fails : (∃ group,
      runAll use (fecGroupInit 1 1 0 0 1 fun _ => 0) [.insert onlyPkt, .decode, .clear]
        = .ok group ∧
      group.buf = .null ∧ fecGroupDecode group = .ok (1, group)) ∧
    ¬ AlwaysHonest (fecGroupInit 1 1 0 0 1 fun _ => 0)
      [.insert onlyPkt, .decode, .clear, .decode] := by
  have hflag : (runAll use (fecGroupInit 1 1 0 0 1 fun _ => 0) [.insert onlyPkt, .decode, .clear]
      >>= fun g => .ok (g.decoded, g.buf)) = .ok (1, .null) := rfl
  obtain ⟨group, hrun, hgroup⟩ := bind_eq_ok.mp hflag
  obtain ⟨hdecoded, hbuf⟩ := Prod.mk.inj (Except.ok.inj hgroup)
  have hne : group.decoded ≠ 0 := by
    rw [hdecoded]
    exact one_ne_zero
  refine ⟨⟨group, hrun, hbuf, if_pos hne⟩, fun h => ?_⟩
  obtain ⟨⟨mem, hmem⟩, -⟩ := (h _ group ⟨[.decode], rfl⟩ hrun).1 hne
  cases hbuf.symm.trans hmem

end RtpSdr.Fec.GroupReuse
