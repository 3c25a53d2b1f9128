import RtpSdr.Rtp.HeaderLength

/-!
# What removing a report leaves

The move that is to close the gap is of one word for each report, where the reports behind the
gap have six.
-/
namespace RtpSdr.Rtp.ReportRemoval

open RtpSdr.Lib.Checked
open RtpSdr.Lib.Memory
open RtpSdr.Rtp.RtcpHeader
open RtpSdr.Rtp.RtcpReport
open RtpSdr.Rtp.ReportPacket
open RtpSdr.Rtp.ReportHistory
open RtpSdr.Rtp.EntryList
open RtpSdr.Rtp.SrRr
open RtpSdr.Rtp.ReportRemove
open RtpSdr.Rtp.HeaderLength
open RtpSdr.Rtp.Sdes (roundUp roundUp_spec roundUp_of_aligned roundUp_sizeAdd)

/-- The words that are moved when the report at an index is removed. -/
def movedWords (reports : List RtcpReportT) (offset : Nat) : Nat :=
  reports.length - offset / sizeofReport

/-- The move closes the gap: it reads what can be read, writes into the array and reaches the
report that will be the last, of which it leaves only words that the last one has as well. -/
structure Closes (reports : List RtcpReportT) (offset : Nat) (behind : List UInt32) : Prop where
  read : 6 * (offset + 1) + movedWords reports offset ≤ 6 * reports.length + behind.length
  write : 6 * offset + movedWords reports offset ≤ 6 * reports.length
  reach : 6 * reports.length < 6 * (offset + 2) + movedWords reports offset
  rest : ∀ a b, reports[reports.length - 2]? = some a → reports[reports.length - 1]? = some b →
    (memoryWords a).drop (6 * (offset + 2) + movedWords reports offset - 6 * reports.length)
      = (memoryWords b).drop (6 * (offset + 2) + movedWords reports offset - 6 * reports.length)

section Packet

variable {φ : Type} (k : Kind φ)

/-- A packet that holds the reports, its header in step with its size. No extension has 2^63
bytes. -/
structure Filled (packet : ReportPacketT φ) (reports : List RtcpReportT) : Prop where
  held : Held packet.header.count packet.reports reports
  inStep : ReportInStep k packet
  ext : packet.extSize < 2 ^ 63

/-- The packet without the report of a source, if there is one. -/
def RemovesOnly (packet : ReportPacketT φ) (reports : List RtcpReportT) (srcId : UInt32)
    (behind : List UInt32) : Prop :=
  ∃ packet', removeReport k packet srcId behind = .ok packet' ∧
    Filled k packet' (reports.filter fun report => report.ssrc != srcId) ∧
    packet'.header.count.toNat + (if srcId ∈ reports.map RtcpReportT.ssrc then 1 else 0)
      = packet.header.count.toNat

/-- The removal finds nothing, or the move closes the gap. -/
def Removable (reports : List RtcpReportT) (srcId : UInt32) (behind : List UInt32) : Prop :=
  ∀ offset, (reports.findIdx? fun report => report.ssrc == srcId) = some offset →
    Closes reports offset behind

end Packet

variable {reports : List RtcpReportT} {offset : Nat} {behind ws : List UInt32}

/-! ## Reports and their words -/

theorem reportsOf_memoryWords (report : RtcpReportT) (ws : List UInt32) :
    reportsOf (memoryWords report ++ ws) = report :: reportsOf ws := by
  obtain ⟨ssrc, fraction, lost, lastSeq, jitter, lsr, dlsr⟩ := report
  simp only [memoryWords, List.cons_append, List.nil_append, reportsOf,
    BitVec.extractLsb'_append_eq_right, BitVec.extractLsb'_append_eq_left, UInt8.ofBitVec_toBitVec]

theorem reportsOf_flatMap (reports : List RtcpReportT) :
    reportsOf (reports.flatMap memoryWords) = reports := by
  induction reports with
  | nil => rfl
  | cons report reports ih => rw [List.flatMap_cons, reportsOf_memoryWords, ih]

theorem flatMap_reportsOf (hmod : ws.length % 6 = 0) : (reportsOf ws).flatMap memoryWords = ws := by
  induction ws using reportsOf.induct with
  | case1 ssrc loss lastSeq jitter lsr dlsr ws ih =>
    simp only [List.length_cons] at hmod
    have hloss : loss.toBitVec.extractLsb' 8 24 ++ loss.toBitVec.extractLsb' 0 8 = loss.toBitVec :=
      BitVec.extractLsb'_append_extractLsb'
    rw [reportsOf, List.flatMap_cons, ih (by omega), memoryWords, hloss]
    rfl
  | case2 ws hshort =>
    have hlen := length_reportsOf ws
    rw [reportsOf.eq_2 ws hshort, List.length_nil] at hlen
    have hnil : ws = [] := List.eq_nil_of_length_eq_zero (by omega)
    rw [hnil]
    rfl

theorem flatMap_inj {reports' : List RtcpReportT} :
    reports.flatMap memoryWords = reports'.flatMap memoryWords ↔ reports = reports' := by
  constructor
  · intro heq
    rw [← reportsOf_flatMap reports, heq, reportsOf_flatMap]
  · exact fun heq => congrArg _ heq

theorem flatMap_take (reports : List RtcpReportT) (n : Nat) :
    (reports.take n).flatMap memoryWords = (reports.flatMap memoryWords).take (6 * n) := by
  induction reports generalizing n with
  | nil => rw [List.take_nil, List.flatMap_nil, List.take_nil]
  | cons report reports ih =>
    cases n with
    | zero => rfl
    | succ n =>
      rw [List.take_succ_cons, List.flatMap_cons, List.flatMap_cons, ih]
      rfl

theorem flatMap_drop (reports : List RtcpReportT) (n : Nat) :
    (reports.drop n).flatMap memoryWords = (reports.flatMap memoryWords).drop (6 * n) := by
  induction reports generalizing n with
  | nil => rw [List.drop_nil, List.flatMap_nil, List.drop_nil]
  | cons report reports ih =>
    cases n with
    | zero => rfl
    | succ n =>
      rw [List.drop_succ_cons, List.flatMap_cons, ih]
      rfl

/-! ## The gap -/

/-- What the move has to do to close the gap. -/
theorem moved_iff (hoffset : offset < reports.length)
    (hread : 6 * (offset + 1) + movedWords reports offset ≤ 6 * reports.length + behind.length)
    (hwrite : 6 * offset + movedWords reports offset ≤ 6 * reports.length) :
    (moved reports behind offset).dropLast = reports.eraseIdx offset ↔
      ((reports.flatMap memoryWords).drop (6 * offset + movedWords reports offset)).take
          (6 * reports.length - 6 * (offset + 1) - movedWords reports offset)
        = (reports.flatMap memoryWords).drop (6 * (offset + 1) + movedWords reports offset) := by
  have hwords := length_memoryWords reports
  have hput : (put (reports.flatMap memoryWords) (6 * offset)
      (((reports.flatMap memoryWords ++ behind).drop (6 * (offset + 1))).take
        (movedWords reports offset))).length = 6 * reports.length := by
    rw [length_put, hwords]
    rw [List.length_take]
    omega
  have hend : 6 * (reports.length - 1)
      = 6 * offset + ((reports.flatMap memoryWords).length - 6 * (offset + 1)) := by
    omega
  rw [List.dropLast_eq_take, length_moved behind hwrite, ← flatMap_inj, flatMap_take, moved,
    flatMap_reportsOf (by rw [← movedWords, hput]; omega), List.eraseIdx_eq_take_drop_succ,
    List.flatMap_append, flatMap_take, flatMap_drop, hend, ← hwords]
  exact put_left_iff (by rw [hwords]; exact hread) (by omega) (by omega)

/-- The words of the last two reports. -/
theorem drop_last_two {a b : RtcpReportT} (ha : reports[reports.length - 2]? = some a)
    (hb : reports[reports.length - 1]? = some b) (htwo : 2 ≤ reports.length) :
    (reports.flatMap memoryWords).drop (6 * (reports.length - 2))
      = memoryWords a ++ memoryWords b := by
  have hdrop : reports.drop (reports.length - 2) = [a, b] := by
    obtain ⟨hlt, rfl⟩ := List.getElem?_eq_some_iff.mp ha
    obtain ⟨hlt', rfl⟩ := List.getElem?_eq_some_iff.mp hb
    have hnext : reports.length - 2 + 1 = reports.length - 1 := by omega
    rw [List.drop_eq_getElem_cons hlt]
    simp only [hnext]
    rw [List.drop_eq_getElem_cons hlt', List.drop_eq_nil_of_le (by omega)]
  rw [← flatMap_drop, hdrop]
  rfl

theorem take_drop_append {xs ys : List UInt32} (w : Nat) :
    ((xs ++ ys).drop w).take (xs.length - w) = xs.drop w := by
  rw [← List.drop_take, List.take_left']
  rfl

/-- A move that does not reach the report that will be the last leaves its source. -/
theorem reach_of_moved (hnodup : (reports.map RtcpReportT.ssrc).Nodup)
    (hmoved : ((reports.flatMap memoryWords).drop (6 * offset + movedWords reports offset)).take
        (6 * reports.length - 6 * (offset + 1) - movedWords reports offset)
      = (reports.flatMap memoryWords).drop (6 * (offset + 1) + movedWords reports offset)) :
    6 * reports.length < 6 * (offset + 2) + movedWords reports offset := by
  by_contra hout
  have htwo : 2 ≤ reports.length := by omega
  have ha := List.getElem?_eq_getElem (show reports.length - 2 < reports.length by omega)
  have hb := List.getElem?_eq_getElem (show reports.length - 1 < reports.length by omega)
  have hlast := drop_last_two ha hb htwo
  have hlen (report : RtcpReportT) : (memoryWords report).length = 6 := rfl
  -- The first word that the move leaves of the last report kept is its source.
  have hdrop := congrArg (List.drop (6 * (reports.length - 2)
    - (6 * offset + movedWords reports offset))) hmoved
  rw [List.drop_take, List.drop_drop, List.drop_drop,
    show 6 * offset + movedWords reports offset + (6 * (reports.length - 2)
      - (6 * offset + movedWords reports offset)) = 6 * (reports.length - 2) by omega,
    show 6 * (offset + 1) + movedWords reports offset + (6 * (reports.length - 2)
      - (6 * offset + movedWords reports offset)) = 6 * (reports.length - 2) + 6 by omega,
    show 6 * reports.length - 6 * (offset + 1) - movedWords reports offset
      - (6 * (reports.length - 2) - (6 * offset + movedWords reports offset)) = 6 by omega,
    ← List.drop_drop, hlast, List.take_left' (hlen _), List.drop_left' (hlen _)] at hdrop
  have hssrc : reports[reports.length - 2].ssrc = reports[reports.length - 1].ssrc :=
    (List.cons.inj hdrop).1
  have hlen' : (reports.map RtcpReportT.ssrc).length = reports.length := List.length_map _
  have hsame : (reports.map RtcpReportT.ssrc)[reports.length - 2]
      = (reports.map RtcpReportT.ssrc)[reports.length - 1] := by
    rw [List.getElem_map, List.getElem_map]
    exact hssrc
  have hindex := hnodup.getElem_inj_iff.mp hsame
  omega

/-- A move that reaches it has to leave it the words of the last one. -/
theorem rest_iff (hoffset : offset < reports.length)
    (hreach : 6 * reports.length < 6 * (offset + 2) + movedWords reports offset) :
    ((reports.flatMap memoryWords).drop (6 * offset + movedWords reports offset)).take
        (6 * reports.length - 6 * (offset + 1) - movedWords reports offset)
      = (reports.flatMap memoryWords).drop (6 * (offset + 1) + movedWords reports offset) ↔
    ∀ a b, reports[reports.length - 2]? = some a → reports[reports.length - 1]? = some b →
      (memoryWords a).drop (6 * (offset + 2) + movedWords reports offset - 6 * reports.length)
        = (memoryWords b).drop
          (6 * (offset + 2) + movedWords reports offset - 6 * reports.length) := by
  have hlen (report : RtcpReportT) : (memoryWords report).length = 6 := rfl
  have hwords := length_memoryWords reports
  by_cases hlast : offset + 1 < reports.length
  · have htwo : 2 ≤ reports.length := by omega
    have ha := List.getElem?_eq_getElem (show reports.length - 2 < reports.length by omega)
    have hb := List.getElem?_eq_getElem (show reports.length - 1 < reports.length by omega)
    have hdrop := drop_last_two ha hb htwo
    obtain ⟨w, hw⟩ : ∃ w, 6 * (offset + 2) + movedWords reports offset - 6 * reports.length = w :=
      ⟨_, rfl⟩
    rw [hw, show 6 * offset + movedWords reports offset = 6 * (reports.length - 2) + w by omega,
      show 6 * (offset + 1) + movedWords reports offset
        = 6 * (reports.length - 2) + (6 + w) by omega,
      show 6 * reports.length - 6 * (offset + 1) - movedWords reports offset
        = (memoryWords reports[reports.length - 2]).length - w by rw [hlen]; omega,
      ← List.drop_drop, ← List.drop_drop, hdrop, take_drop_append, ← List.drop_drop,
      List.drop_left' (hlen _), ha, hb]
    constructor
    · intro heq a b ha' hb'
      cases ha'
      cases hb'
      exact heq
    · exact fun hall => hall _ _ rfl rfl
  · have hnil (report : RtcpReportT) : (memoryWords report).drop
        (6 * (offset + 2) + movedWords reports offset - 6 * reports.length) = [] := by
      apply List.drop_eq_nil_of_le
      rw [hlen]
      omega
    rw [List.drop_eq_nil_of_le (show _ ≤ 6 * (offset + 1) + _ by omega),
      show 6 * reports.length - 6 * (offset + 1) - movedWords reports offset = 0 by omega,
      List.take_zero]
    exact iff_of_true rfl fun a b _ _ => by rw [hnil a, hnil b]

/-- With distinct sources the move closes the gap exactly if it reaches that far. -/
theorem closes_iff (hnodup : (reports.map RtcpReportT.ssrc).Nodup)
    (hoffset : offset < reports.length) :
    (6 * (offset + 1) + movedWords reports offset ≤ 6 * reports.length + behind.length ∧
      6 * offset + movedWords reports offset ≤ 6 * reports.length) ∧
      (moved reports behind offset).dropLast = reports.eraseIdx offset ↔
    Closes reports offset behind := by
  constructor
  · rintro ⟨⟨hread, hwrite⟩, hgap⟩
    have hmoved := (moved_iff hoffset hread hwrite).mp hgap
    have hreach := reach_of_moved hnodup hmoved
    exact ⟨hread, hwrite, hreach, (rest_iff hoffset hreach).mp hmoved⟩
  · intro h
    exact ⟨⟨h.read, h.write⟩, (moved_iff hoffset h.read h.write).mpr
      ((rest_iff hoffset h.reach).mpr h.rest)⟩

/-! ## The packet -/

section Packet

variable {φ : Type} {k : Kind φ} {packet : ReportPacketT φ} {srcId : UInt32}

theorem size_eq_roundUp (hlt : packet.extSize < 2 ^ 63) :
    size k packet = roundUp (k.fixedSize + 24 * packet.header.count.toNat
      + if packet.extData.isSet then packet.extSize else 0) := by
  have hk := k.length_eq
  have hlength := k.length.toNat_lt
  have hle := packet.header.count.isLt
  rw [size, sizeofReport, Nat.mul_comm _ 24]
  cases hset : packet.extData.isSet with
  | true =>
    have hround := roundUp_spec (k.fixedSize + 24 * packet.header.count.toNat + packet.extSize)
    exact roundUp_sizeAdd (by omega) (fun _ => rfl) (by omega)
  | false =>
    rw [Bool.false_and, if_neg Bool.false_ne_true, if_neg Bool.false_ne_true, Nat.add_zero,
      roundUp_of_aligned (by omega)]

theorem roundUp_add_words (n words : Nat) : roundUp (n + 4 * words) = roundUp n + 4 * words := by
  have hmod : (n + 4 * words) % 4 = n % 4 := by omega
  rw [roundUp, roundUp, hmod]
  split <;> omega

/-- The packet of which one report is gone. -/
theorem filled_pred (h : Filled k packet reports) {count : BitVec 5} {reports' : List RtcpReportT}
    (hcount : count.toNat = reports'.length) (hpred : reports'.length + 1 = reports.length) :
    Filled k (updateLength k { packet with
      header := { packet.header with count := count }, reports := .ofList reports' }) reports' := by
  have hk := k.length_eq
  have hheld := h.held.count
  obtain ⟨hmod, hlength⟩ := h.inStep
  have hlt := packet.header.length.toNat_lt
  have hold := size_eq_roundUp (k := k) h.ext
  generalize hnew : { packet with
    header := { packet.header with count := count }, reports := .ofList reports' } = packet'
  have hcount' : packet'.header.count = count := by rw [← hnew]
  have hreports' : packet'.reports = .ofList reports' := by rw [← hnew]
  have hsize' : packet'.extSize = packet.extSize := by rw [← hnew]
  have hdata' : packet'.extData = packet.extData := by rw [← hnew]
  have hext : packet'.extSize < 2 ^ 63 := hsize' ▸ h.ext
  have hround := size_eq_roundUp (k := k) hext
  rw [hheld, ← hpred, show ∀ m n : Nat, k.fixedSize + 24 * (m + 1) + n
    = k.fixedSize + 24 * m + n + 4 * 6 by omega, roundUp_add_words] at hold
  rw [hcount', hcount, hsize', hdata'] at hround
  rw [← hround] at hold
  have hge := roundUp_spec (k.fixedSize + 24 * reports'.length
    + if packet.extData.isSet then packet.extSize else 0)
  rw [← hround] at hge
  refine ⟨?_, ?_, ?_⟩
  · rw [updateLength, withLength_count, withLength_reports, hcount', hreports']
    exact held_ofList hcount
  · rw [ReportInStep, updateLength, size_withLength]
    apply inStep_of_update
    · rw [withLength_length]
    · omega
    · omega
    · omega
  · rw [updateLength, withLength_extSize]
    exact hext

/-- Without a report of the source nothing changes. -/
theorem removesOnly_absent (h : Filled k packet reports)
    (hnone : (reports.findIdx? fun report => report.ssrc == srcId) = none)
    (behind : List UInt32) : RemovesOnly k packet reports srcId behind := by
  have hout := (search_key_eq_none reports RtcpReportT.ssrc srcId).mp hnone
  have hsame : (reports.filter fun report => report.ssrc != srcId) = reports := by
    rw [List.filter_eq_self]
    intro report hmem
    rw [bne_iff_ne]
    rintro rfl
    exact hout (List.mem_map_of_mem hmem)
  refine ⟨packet, removeReport_absent h.held hnone behind, ?_, ?_⟩
  · rw [hsame]
    exact h
  · rw [if_neg hout, Nat.add_zero]

/-- The report that was found is the only one of its source. -/
theorem removesOnly_found (h : Filled k packet reports)
    (hnodup : (reports.map RtcpReportT.ssrc).Nodup)
    (hfound : (reports.findIdx? fun report => report.ssrc == srcId) = some offset) :
    RemovesOnly k packet reports srcId behind ↔ Closes reports offset behind := by
  have hoffset := (List.findIdx?_eq_some_iff_getElem.mp hfound).1
  have herase := List.length_eraseIdx_of_lt hoffset
  have hin : srcId ∈ reports.map RtcpReportT.ssrc := by
    by_contra hout
    rw [(search_key_eq_none reports RtcpReportT.ssrc srcId).mpr hout] at hfound
    cases hfound
  rw [RemovesOnly, filter_key_eq_eraseIdx hnodup hfound, if_pos hin, ← closes_iff hnodup hoffset]
  constructor
  · rintro ⟨packet', hrun, hfilled, -⟩
    by_cases hmove : 6 * (offset + 1) + movedWords reports offset
        ≤ 6 * reports.length + behind.length ∧
      6 * offset + movedWords reports offset ≤ 6 * reports.length
    · obtain ⟨count, hlen, hmoved⟩ := removeReport_moved h.held hfound hmove.1 hmove.2
      rw [hmoved] at hrun
      cases hrun
      have hheld := hfilled.held
      rw [updateLength, withLength_count, withLength_reports] at hheld
      exact ⟨hmove, hheld.eq_of_ofList hlen⟩
    · rw [removeReport_stuck h.held hfound hmove] at hrun
      cases hrun
  · rintro ⟨hmove, hgap⟩
    obtain ⟨count, hlen, hrun⟩ := removeReport_moved h.held hfound hmove.1 hmove.2
    rw [hgap] at hlen hrun
    have hcount := h.held.count
    refine ⟨_, hrun, filled_pred h hlen (by omega), ?_⟩
    rw [updateLength, withLength_count]
    dsimp only
    omega

theorem removesOnly_iff (h : Filled k packet reports)
    (hnodup : (reports.map RtcpReportT.ssrc).Nodup) (srcId : UInt32) (behind : List UInt32) :
    RemovesOnly k packet reports srcId behind ↔ Removable reports srcId behind := by
  rw [Removable]
  cases hfound : reports.findIdx? fun report => report.ssrc == srcId with
  | none =>
    refine iff_of_true (removesOnly_absent h hfound behind) fun offset hoffset => ?_
    cases hoffset
  | some offset =>
    rw [removesOnly_found h hnodup hfound]
    constructor
    · intro hcloses offset' hoffset'
      cases hoffset'
      exact hcloses
    · exact fun hremovable => hremovable offset rfl

end Packet

/-- Both removals take away just the report exactly if there is none, or the move is of the right
length by chance. -/
theorem removals_exact_iff {sr : ReportPacketT SrFields} {rr : ReportPacketT RrFields}
    {srReports rrReports : List RtcpReportT} (hsr : Filled srKind sr srReports)
    (hrr : Filled rrKind rr rrReports) (hsrs : (srReports.map RtcpReportT.ssrc).Nodup)
    (hrrs : (rrReports.map RtcpReportT.ssrc).Nodup) (srcId : UInt32) (behind : List UInt32) :
    (RemovesOnly srKind sr srReports srcId behind ↔ Removable srReports srcId behind) ∧
      (RemovesOnly rrKind rr rrReports srcId behind ↔ Removable rrReports srcId behind) :=
  ⟨removesOnly_iff hsr hsrs srcId behind, removesOnly_iff hrr hrrs srcId behind⟩

/-- A sender report and a receiver report with the reports, no extension and the length. -/
def packetWith {φ : Type} (k : Kind φ) (count : BitVec 5) (length : UInt16)
    (reports : List RtcpReportT) : ReportPacketT φ :=
  ⟨⟨2, 0, count, k.pt, length⟩, k.zero, .obj reports, 0, .null⟩

theorem filled_packetWith {φ : Type} (k : Kind φ) (count : BitVec 5) (length : UInt16)
    (reports : List RtcpReportT) (hcount : count.toNat = reports.length)
    (hlength : length.toNat = k.length.toNat + 6 * reports.length) :
    Filled k (packetWith k count length reports) reports := by
  have hk := k.length_eq
  have hsize : size k (packetWith k count length reports) = k.fixedSize + 24 * reports.length := by
    rw [← hcount, Nat.mul_comm]
    rfl
  refine ⟨held_obj hcount, ⟨?_, ?_⟩, show 0 < 2 ^ 63 by decide⟩
  · rw [hsize]
    omega
  · rw [hsize]
    change length.toNat + 1 = _
    omega

/-- Three reports, of which the last two agree from the jitter on. -/
def threeReports : List RtcpReportT :=
  [⟨1, 9, 8, 7, 6, 5, 4⟩, ⟨2, 0, 1, 40, 5, 3, 3⟩, ⟨3, 1, 2, 50, 5, 3, 3⟩]

theorem removable_middle : Removable threeReports 2 [] := by
  intro offset hoffset
  cases hoffset
  refine ⟨by decide, by decide, by decide, fun a b ha hb => ?_⟩
  cases ha
  cases hb
  rfl

/-- The middle one is taken away, the last one is not. -/
theorem removals_exact_iff_three :
    RemovesOnly srKind (packetWith srKind 3 24 threeReports) threeReports 2 [] ∧
      RemovesOnly rrKind (packetWith rrKind 3 19 threeReports) threeReports 2 [] ∧
      ¬ RemovesOnly srKind (packetWith srKind 3 24 threeReports) threeReports 3 [] ∧
      ¬ RemovesOnly rrKind (packetWith rrKind 3 19 threeReports) threeReports 3 [] := by
  have hsr := filled_packetWith srKind 3 24 threeReports rfl rfl
  have hrr := filled_packetWith rrKind 3 19 threeReports rfl rfl
  have hmiddle := removals_exact_iff hsr hrr (by decide) (by decide) 2 []
  have hlast := removals_exact_iff hsr hrr (by decide) (by decide) 3 []
  have hnot : ¬ Removable threeReports 3 [] := fun hremovable =>
    absurd (hremovable 2 rfl).read (by decide)
  exact ⟨hmiddle.1.mpr removable_middle, hmiddle.2.mpr removable_middle,
    fun h => hnot (hlast.1.mp h), fun h => hnot (hlast.2.mp h)⟩

/-- The first of two reports: the second gets its jitter. -/
theorem removals_exact_fails :
    (¬ ∀ (packet : ReportPacketT SrFields) (reports : List RtcpReportT),
      Filled srKind packet reports → (reports.map RtcpReportT.ssrc).Nodup →
        ∀ srcId behind, RemovesOnly srKind packet reports srcId behind) ∧
    (¬ ∀ (packet : ReportPacketT RrFields) (reports : List RtcpReportT),
      Filled rrKind packet reports → (reports.map RtcpReportT.ssrc).Nodup →
        ∀ srcId behind, RemovesOnly rrKind packet reports srcId behind) := by
  have hnodup : ([⟨1, 0, 0, 0, 5, 0, 0⟩, ⟨2, 0, 0, 0, 6, 0, 0⟩].map RtcpReportT.ssrc).Nodup := by
    decide
  have hnot : ¬ Removable [⟨1, 0, 0, 0, 5, 0, 0⟩, ⟨2, 0, 0, 0, 6, 0, 0⟩] 1 [] := by
    intro hremovable
    exact absurd ((hremovable 0 rfl).rest _ _ rfl rfl) (by decide)
  refine ⟨fun hall => hnot ?_, fun hall => hnot ?_⟩
  · have hfilled := filled_packetWith srKind 2 18
      [⟨1, 0, 0, 0, 5, 0, 0⟩, ⟨2, 0, 0, 0, 6, 0, 0⟩] rfl rfl
    exact (removesOnly_iff hfilled hnodup 1 []).mp (hall _ _ hfilled hnodup 1 [])
  · have hfilled := filled_packetWith rrKind 2 13
      [⟨1, 0, 0, 0, 5, 0, 0⟩, ⟨2, 0, 0, 0, 6, 0, 0⟩] rfl rfl
    exact (removesOnly_iff hfilled hnodup 1 []).mp (hall _ _ hfilled hnodup 1 [])

end RtpSdr.Rtp.ReportRemoval
