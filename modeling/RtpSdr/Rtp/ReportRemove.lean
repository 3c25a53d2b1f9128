import RtpSdr.Rtp.EntryList
import RtpSdr.Rtp.Sdes
import RtpSdr.Rtp.SrRr

/-!
# Removing a report

`rtcp_sr_remove_report` and `rtcp_rr_remove_report`. The offset of the report, which
counts reports already, is divided by their size, and the reports behind it are counted
in words: the move takes a few words of the next report and leaves the rest where it is.
-/
namespace RtpSdr.Rtp.ReportRemove

open RtpSdr.Lib.Checked
open RtpSdr.Lib.Memory
open RtpSdr.Rtp.RtcpHeader
open RtpSdr.Rtp.RtcpReport
open RtpSdr.Rtp.ReportPacket
open RtpSdr.Rtp.ReportHistory
open RtpSdr.Rtp.EntryList
open RtpSdr.Rtp.SrRr
open RtpSdr.Rtp.Sdes (roundUp roundUp_spec roundUp_sizeAdd)

/-- The words of a report in memory. The two bit-fields share one. -/
def memoryWords (report : RtcpReportT) : List UInt32 :=
  [report.ssrc, UInt32.ofBitVec (report.lost ++ report.fraction.toBitVec), report.lastSeq,
    report.jitter, report.lsr, report.dlsr]

/-- The reports that words in memory are. -/
def reportsOf : List UInt32 → List RtcpReportT
  | ssrc :: loss :: lastSeq :: jitter :: lsr :: dlsr :: ws =>
    ⟨ssrc, UInt8.ofBitVec (loss.toBitVec.extractLsb' 0 8), loss.toBitVec.extractLsb' 8 24, lastSeq,
      jitter, lsr, dlsr⟩ :: reportsOf ws
  | _ => []

section Source

variable {φ : Type} (k : Kind φ)

/-- `behind` are the words that the move may read behind the array. -/
def removeReport (packet : ReportPacketT φ) (srcId : UInt32) (behind : List UInt32) :
    Exec (ReportPacketT φ) := do
  let found ← findReport packet srcId
  match found with
  | none => .ok packet
  | some offset => do
    let reports ← packet.reports.deref
    let ws ← memmove (reports.flatMap memoryWords) behind (6 * offset) (6 * (offset + 1))
      (packet.header.count.toNat - offset / sizeofReport)
    let (count, reports) := shrink packet.header.count (reportsOf ws) zeroReport
    .ok (updateLength k { packet with
      header := { packet.header with count := count }, reports := reports })

def rtcpSrRemoveReport : ReportPacketT SrFields → UInt32 → List UInt32 →
    Exec (ReportPacketT SrFields) := removeReport srKind
def rtcpRrRemoveReport : ReportPacketT RrFields → UInt32 → List UInt32 →
    Exec (ReportPacketT RrFields) := removeReport rrKind

end Source

/-! ## Histories with removals -/

/-- A call on a packet. -/
inductive Call (φ : Type) where
  | mutate (op : Op φ)
  | removeReport (srcId : UInt32) (behind : List UInt32)

/-- The packet after a call, whatever the call returned. -/
def call {φ : Type} (k : Kind φ) (packet : ReportPacketT φ) : Call φ → Exec (ReportPacketT φ)
  | .mutate op => perform k packet op
  | .removeReport srcId behind => removeReport k packet srcId behind

/-- The reports after the move, which is of one word for each report behind the first. -/
def moved (reports : List RtcpReportT) (behind : List UInt32) (offset : Nat) : List RtcpReportT :=
  reportsOf (put (reports.flatMap memoryWords) (6 * offset)
    (((reports.flatMap memoryWords ++ behind).drop (6 * (offset + 1))).take
      (reports.length - offset / sizeofReport)))

section Calls

variable {φ : Type} (k : Kind φ)

/-- The index of the report of a source. -/
def indexOf (h : History φ) (srcId : UInt32) : Option Nat :=
  h.reports.findIdx? fun report => report.ssrc == srcId

def next (h : History φ) : Call φ → History φ
  | .mutate op => h.step k op
  | .removeReport srcId behind =>
    match indexOf h srcId with
    | none => h
    | some offset => { h with reports := (moved h.reports behind offset).dropLast }

/-- The words that a removal moves are those of the array or can be read behind it, and are
moved into the array. -/
def Movable (h : History φ) : Call φ → Prop
  | .mutate _ => True
  | .removeReport srcId behind => ∀ offset, indexOf h srcId = some offset →
    6 * (offset + 1) + (h.reports.length - offset / sizeofReport)
        ≤ 6 * h.reports.length + behind.length ∧
      6 * offset + (h.reports.length - offset / sizeofReport) ≤ 6 * h.reports.length

/-- The size of a packet that holds what its history says. -/
def historySize (h : History φ) : Nat :=
  roundUp (k.fixedSize + 24 * h.reports.length + (h.ext.getD []).length)

end Calls

variable {φ : Type} {k : Kind φ} {packet : ReportPacketT φ} {h : History φ}

theorem size_built (hb : Built k packet h) (hlt : historySize k h < 2 ^ 64) :
    size k packet = historySize k h := by
  have hk := k.length_eq
  have hset : (h.ext.getD []).length ≠ 0 → (extPtr h.ext).isSet = true := by
    rw [extPtr_isSet]
    intro hne
    cases hext : h.ext with
    | none => exact absurd (by rw [hext]; rfl) hne
    | some data => rfl
  rw [historySize, Nat.mul_comm 24] at hlt ⊢
  rw [size, hb.count, hb.extSize, hb.extData, sizeofReport]
  exact roundUp_sizeAdd (by omega) hset hlt

/-! ## One removal -/

theorem length_memoryWords (reports : List RtcpReportT) :
    (reports.flatMap memoryWords).length = 6 * reports.length := by
  induction reports with
  | nil => rfl
  | cons report reports ih =>
    rw [List.flatMap_cons, List.length_append, ih, List.length_cons, memoryWords]
    simp only [List.length_cons, List.length_nil]
    omega

theorem length_reportsOf (ws : List UInt32) : (reportsOf ws).length = ws.length / 6 := by
  induction ws using reportsOf.induct with
  | case1 ssrc loss lastSeq jitter lsr dlsr ws ih =>
    rw [reportsOf, List.length_cons, ih]
    simp only [List.length_cons]
    omega
  | case2 ws hshort =>
    have hlt : ws.length < 6 := by
      match ws, hshort with
      | [], _ => decide
      | [_], _ => simp
      | [_, _], _ => simp
      | [_, _, _], _ => simp
      | [_, _, _, _], _ => simp
      | [_, _, _, _, _], _ => simp
      | a :: b :: c :: d :: e :: f :: ws, hshort => exact absurd rfl (hshort a b c d e f ws)
    rw [reportsOf.eq_2 ws hshort, List.length_nil]
    omega

theorem findReport_held {reports : List RtcpReportT}
    (hheld : Held packet.header.count packet.reports reports) (srcId : UInt32) :
    findReport packet srcId = .ok (reports.findIdx? fun report => report.ssrc == srcId) := by
  rw [findReport, hheld.count, find_ok hheld.entries]

theorem removeReport_absent {reports : List RtcpReportT} {srcId : UInt32}
    (hheld : Held packet.header.count packet.reports reports)
    (hnone : (reports.findIdx? fun report => report.ssrc == srcId) = none)
    (behind : List UInt32) : removeReport k packet srcId behind = .ok packet := by
  rw [removeReport, bind_of_ok (findReport_held hheld srcId), hnone]

section Found

variable {reports : List RtcpReportT} {srcId : UInt32} {behind : List UInt32} {offset : Nat}

theorem length_moved (behind : List UInt32)
    (hwrite : 6 * offset + (reports.length - offset / sizeofReport) ≤ 6 * reports.length) :
    (moved reports behind offset).length = reports.length := by
  have hwords := length_memoryWords reports
  rw [moved, length_reportsOf, length_put, hwords]
  · omega
  · rw [List.length_take, List.length_drop, List.length_append]
    omega

/-- A removal whose words can be moved. -/
theorem removeReport_moved (hheld : Held packet.header.count packet.reports reports)
    (hfound : (reports.findIdx? fun report => report.ssrc == srcId) = some offset)
    (hread : 6 * (offset + 1) + (reports.length - offset / sizeofReport)
      ≤ 6 * reports.length + behind.length)
    (hwrite : 6 * offset + (reports.length - offset / sizeofReport) ≤ 6 * reports.length) :
    ∃ count : BitVec 5, count.toNat = (moved reports behind offset).dropLast.length ∧
      removeReport k packet srcId behind = .ok (updateLength k { packet with
        header := { packet.header with count := count },
        reports := .ofList (moved reports behind offset).dropLast }) := by
  have hoffset := (List.findIdx?_eq_some_iff_getElem.mp hfound).1
  have hwords := length_memoryWords reports
  have hmoved := length_moved behind hwrite
  obtain ⟨count, hshrink, hcount⟩ := shrink_eq zeroReport (hheld.count.trans hmoved.symm)
    (List.ne_nil_of_length_pos (by omega))
  have hmemmove := memmove_of_le
    (show 6 * (offset + 1) + (reports.length - offset / sizeofReport)
      ≤ (reports.flatMap memoryWords).length + behind.length by rw [hwords]; exact hread)
    (show 6 * offset + _ ≤ _ by rw [hwords]; exact hwrite)
  refine ⟨count, hcount, ?_⟩
  rw [removeReport, bind_of_ok (findReport_held hheld srcId), hfound]
  dsimp only
  rw [hheld.deref (List.ne_nil_of_length_pos (by omega)), ok_bind, hheld.count,
    bind_of_ok hmemmove, ← moved, hshrink]

theorem removeReport_stuck (hheld : Held packet.header.count packet.reports reports)
    (hfound : (reports.findIdx? fun report => report.ssrc == srcId) = some offset)
    (hout : ¬ (6 * (offset + 1) + (reports.length - offset / sizeofReport)
        ≤ 6 * reports.length + behind.length ∧
      6 * offset + (reports.length - offset / sizeofReport) ≤ 6 * reports.length)) :
    removeReport k packet srcId behind = .error .bounds := by
  have hoffset := (List.findIdx?_eq_some_iff_getElem.mp hfound).1
  have hmemmove : memmove (reports.flatMap memoryWords) behind (6 * offset) (6 * (offset + 1))
      (reports.length - offset / sizeofReport) = .error .bounds := by
    apply memmove_fault
    rw [length_memoryWords reports]
    exact hout
  rw [removeReport, bind_of_ok (findReport_held hheld srcId), hfound]
  dsimp only
  rw [hheld.deref (List.ne_nil_of_length_pos (by omega)), ok_bind, hheld.count, hmemmove,
    error_bind]

end Found

theorem removeReport_built (hb : Built k packet h) (srcId : UInt32) (behind : List UInt32)
    (hmove : Movable h (.removeReport srcId behind)) :
    ∃ packet', removeReport k packet srcId behind = .ok packet' ∧
      Built k packet' (next k h (.removeReport srcId behind)) := by
  have hheld : Held packet.header.count packet.reports h.reports := ⟨hb.count, hb.reports⟩
  rw [next]
  cases hfound : indexOf h srcId with
  | none => exact ⟨packet, removeReport_absent hheld hfound behind, hb⟩
  | some offset =>
    obtain ⟨hread, hwrite⟩ := hmove offset hfound
    obtain ⟨count, hcount, hrun⟩ := removeReport_moved hheld hfound hread hwrite
    refine ⟨_, hrun, ?_⟩
    apply built_updateLength
    · exact hb.version
    · exact hb.p
    · exact hb.pt
    · exact hcount
    · exact hb.fields
    · exact Ptr.ofList_of_ne_nil
    · exact hb.extSize
    · exact hb.extData

theorem removeReport_fault (hb : Built k packet h) (srcId : UInt32) (behind : List UInt32)
    (hmove : ¬ Movable h (.removeReport srcId behind)) :
    removeReport k packet srcId behind = .error .bounds := by
  rw [Movable] at hmove
  push Not at hmove
  obtain ⟨offset, hfound, hout⟩ := hmove
  exact removeReport_stuck ⟨hb.count, hb.reports⟩ hfound fun hin =>
    absurd hin.2 (Nat.not_le.mpr (hout hin.1))

theorem call_built (hb : Built k packet h) (c : Call φ) (hcount : (next k h c).reports.length ≤ 31)
    (hmove : Movable h c) :
    ∃ packet', call k packet c = .ok packet' ∧ Built k packet' (next k h c) := by
  cases c with
  | mutate op => exact perform_built hb op hcount
  | removeReport srcId behind => exact removeReport_built hb srcId behind hmove

theorem call_fault (hb : Built k packet h) (c : Call φ) (hmove : ¬ Movable h c) :
    ∃ e, call k packet c = .error e := by
  cases c with
  | mutate op => exact absurd trivial hmove
  | removeReport srcId behind => exact ⟨_, removeReport_fault hb srcId behind hmove⟩

end RtpSdr.Rtp.ReportRemove
