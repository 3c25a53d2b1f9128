import RtpSdr.Rtp.App
import RtpSdr.Rtp.ByeRoundTrip
import RtpSdr.Rtp.ReportRemove
import RtpSdr.Rtp.SdesEdit

/-!
# The length in the header and the size of the packet

Every mutator of an RTCP packet has to restore the header's length by hand. Those of the
reports, of BYE and of APP do, as far as they return; those that add and remove an entry
of a source description do not.
-/
namespace RtpSdr.Rtp.HeaderLength

open RtpSdr.Lib.Checked
open RtpSdr.Lib.Memory
open RtpSdr.Rtp.RtcpHeader
open RtpSdr.Rtp.Sdes (roundUp_spec RtcpSdes rtcpSdesCreate rtcpSdesInit rtcpSdesSize)

/-- The size is a number of words, and the header's length is one less. -/
def InStep (size : Nat) (header : RtcpHeaderT) : Prop :=
  size % 4 = 0 ∧ header.length.toNat + 1 = size / 4

/-- The update that ends most mutators brings the length in step. -/
theorem inStep_of_update {size : Nat} {header : RtcpHeaderT}
    (hlength : header.length = UInt16.ofNat (sizeSub (size / 4) 1)) (hmod : size % 4 = 0)
    (hpos : 0 < size) (hle : size ≤ 262144) : InStep size header := by
  refine ⟨hmod, ?_⟩
  rw [hlength, sizeSub_of_le (by omega) (by omega), UInt16.toNat_ofNat']
  omega

/-! ## Reports -/

section Reports

open RtpSdr.Rtp.ReportPacket RtpSdr.Rtp.ReportHistory RtpSdr.Rtp.ReportRemove

variable {φ : Type} (k : Kind φ)

def ReportInStep (packet : ReportPacketT φ) : Prop := InStep (size k packet) packet.header

/-- A call that leaves at most 31 reports and a size that the length can express. -/
def ReportLimits (h : History φ) (c : Call φ) : Prop :=
  (next k h c).reports.length ≤ 31 ∧ historySize k (next k h c) ≤ 262144

variable {k} {packet : ReportPacketT φ} {h : History φ}

theorem reportInStep_of_built (hb : Built k packet h) (hle : historySize k h ≤ 262144) :
    ReportInStep k packet := by
  have hround := roundUp_spec (k.fixedSize + 24 * h.reports.length + (h.ext.getD []).length)
  have hk := k.length_eq
  have hsize := size_built hb (by omega)
  rw [← historySize] at hround
  apply inStep_of_update
  · exact hb.length
  · omega
  · omega
  · omega

theorem historySize_start : historySize k (History.start k) ≤ 262144 := by
  have hk := k.length_eq
  have hlt := k.length.toNat_lt
  have hround := roundUp_spec (k.fixedSize + 24 * (History.start k).reports.length
    + ((History.start k).ext.getD []).length)
  rw [← historySize, History.start, List.length_nil, Option.getD_none, List.length_nil] at hround
  rw [History.start]
  omega

theorem reports_inStep_iff (calls : List (Call φ))
    (hlimits : Along (next k) (ReportLimits k) (History.start k) calls) :
    Throughout (call k) (ReportInStep k) (init k (create k)) calls ↔
      Along (next k) Movable (History.start k) calls := by
  refine throughout_iff_along (R := fun packet h => Built k packet h ∧ historySize k h ≤ 262144)
    ?_ ?_ ?_ calls ⟨built_init k, historySize_start⟩ hlimits
  · intro packet h c hb hlegal hmove
    obtain ⟨packet', hcall, hbuilt⟩ := call_built hb.1 c hlegal.1 hmove
    exact ⟨packet', hcall, hbuilt, hlegal.2⟩
  · intro packet h c hb _ hmove packet' hcall
    obtain ⟨e, he⟩ := call_fault hb.1 c hmove
    rw [he] at hcall
    cases hcall
  · exact fun packet h hb => reportInStep_of_built hb.1 hb.2

end Reports

/-! ## Goodbye packets -/

section Bye

open RtpSdr.Rtp.Bye RtpSdr.Rtp.ByeRoundTrip

def ByeInStep (packet : RtcpBye) : Prop :=
  ∃ size, rtcpByeSize packet = .ok size ∧ InStep size packet.header

def ByeLimits (c : Content) (op : Op) : Prop := Counted c op ∧ (step c op).size ≤ 262144

theorem byeInStep_of_built {packet : RtcpBye} {c : Content} (hb : Built packet c)
    (hle : c.size ≤ 262144) : ByeInStep packet := by
  refine ⟨c.size, rtcpByeSize_ok hb.toHolds, ?_⟩
  have hsize : c.size % 4 = 0 ∧ 0 < c.size := by
    rw [Content.size]
    cases c.message with
    | none =>
      rw [sizeWith]
      omega
    | some text =>
      have hround := roundUp_spec (4 + c.srcIds.length * 4 + (1 + text.length))
      rw [sizeWith]
      omega
  exact inStep_of_update hb.length hsize.1 hsize.2 hle

theorem bye_inStep_iff (ops : List Op) (hlimits : Along step ByeLimits Content.start ops) :
    Throughout perform ByeInStep (rtcpByeInit rtcpByeCreate) ops ↔
      Along step Readable Content.start ops := by
  refine throughout_iff_along (R := fun packet c => Built packet c ∧ c.size ≤ 262144)
    ?_ ?_ ?_ ops ⟨built_init, by decide⟩ hlimits
  · intro packet c op hb hlegal hread
    obtain ⟨packet', hrun, hbuilt⟩ := perform_built hb.1 op hlegal.1 hread
    exact ⟨packet', hrun, hbuilt, hlegal.2⟩
  · intro packet c op hb _ hread packet' hrun
    obtain ⟨e, he⟩ := perform_fault hb.1 op hread
    rw [he] at hrun
    cases hrun
  · exact fun packet c hb => byeInStep_of_built hb.1 hb.2

end Bye

/-! ## Source descriptions -/

section Sdes

open RtpSdr.Rtp.SdesEdit

def SdesInStep (packet : RtcpSdes) : Prop :=
  ∃ size, rtcpSdesSize packet = .ok size ∧ InStep size packet.header

/-- Before the first entry, nothing but an entry can be added. -/
theorem perform_start (op : Op) (h : ¬ Adds op) :
    perform (rtcpSdesInit rtcpSdesCreate) op = .ok (rtcpSdesInit rtcpSdesCreate) := by
  cases op with
  | addEntry id => exact absurd trivial h
  | removeEntry id behind => rfl
  | setItem src type data behind => rfl
  | clearItem src type behind => rfl

/-- The first entry makes the packet twelve bytes and leaves the length of four. -/
theorem addEntry_start {op : Op} (h : Adds op) {packet : RtcpSdes}
    (hrun : perform (rtcpSdesInit rtcpSdesCreate) op = .ok packet) : ¬ SdesInStep packet := by
  cases op with
  | addEntry id =>
    cases hrun
    intro hstep
    obtain ⟨size, hsize, hin⟩ := hstep
    cases hsize
    exact absurd hin.2 (show ¬ 0 + 1 = 12 / 4 by decide)
  | removeEntry id behind => exact False.elim h
  | setItem src type data behind => exact False.elim h
  | clearItem src type behind => exact False.elim h

theorem sdes_inStep_iff (ops : List Op) :
    Throughout perform SdesInStep (rtcpSdesInit rtcpSdesCreate) ops ↔ ∀ op ∈ ops, ¬ Adds op := by
  rw [← along_const (P := fun op => ¬ Adds op) () ops]
  refine throughout_iff_along (R := fun packet _ => packet = rtcpSdesInit rtcpSdesCreate)
    (L := fun _ _ => True) ?_ ?_ ?_ ops rfl (along_of_forall (fun _ _ => trivial) ops)
  · rintro packet c op rfl - hadds
    exact ⟨_, perform_start op hadds, rfl⟩
  · rintro packet c op rfl - hadds packet' hrun
    exact addEntry_start (not_not.mp hadds) hrun
  · rintro packet c rfl
    exact ⟨4, rfl, rfl, rfl⟩

end Sdes

/-! ## Application packets -/

section App

open RtpSdr.Rtp.App

def AppInStep (packet : RtcpApp) : Prop := InStep (rtcpAppSize packet) packet.header

def AppLimits (c : Content) (op : Op) : Prop := (step c op).size ≤ 262144

instance (c : Content) (op : Op) : Decidable (AppLimits c op) :=
  inferInstanceAs (Decidable (_ ≤ _))

theorem appInStep_of_built {packet : RtcpApp} {c : Content} (hb : Built packet c)
    (hle : c.size ≤ 262144) : AppInStep packet := by
  have hround := roundUp_spec (12 + c.bytes.length)
  have hsize := rtcpAppSize_ok hb.toHolds (by omega)
  rw [← Content.size] at hround
  apply inStep_of_update
  · exact hb.length
  · omega
  · omega
  · omega

theorem app_inStep (subtype : UInt8) (ops : List Op)
    (hlimits : Along step AppLimits Content.start ops) :
    Throughout perform AppInStep (rtcpAppInit rtcpAppCreate subtype) ops := by
  have hiff := throughout_iff_along (P := fun _ _ => True) (Q := AppInStep)
    (R := fun packet c => Built packet c ∧ c.size ≤ 262144)
    (fun packet c op hb hlegal _ => by
      obtain ⟨packet', hrun, hbuilt⟩ := perform_built hb.1 op
      exact ⟨packet', hrun, hbuilt, hlegal⟩)
    (fun packet c op _ _ hfalse => absurd trivial hfalse)
    (fun packet c hb => appInStep_of_built hb.1 hb.2) ops
    ⟨built_init subtype, by decide⟩ hlimits
  exact hiff.mpr (along_of_forall (fun _ _ => trivial) ops)

end App

/-! ## All five types -/

section AllTypes

open RtpSdr.Rtp.ReportHistory RtpSdr.Rtp.ReportRemove RtpSdr.Rtp.SrRr RtpSdr.Rtp.Bye RtpSdr.Rtp.App

/-- The header's length is the packet's size throughout a run if and only if the run of a report
or goodbye packet removes only what its move can reach, and that of a source description adds no
entry. -/
theorem headerLength_inStep_iff (srCalls : List (Call SrFields)) (rrCalls : List (Call RrFields))
    (byeCalls : List ByeRoundTrip.Op) (sdesCalls : List SdesEdit.Op) (appCalls : List App.Op)
    (subtype : UInt8)
    (hsr : Along (next srKind) (ReportLimits srKind) (History.start srKind) srCalls)
    (hrr : Along (next rrKind) (ReportLimits rrKind) (History.start rrKind) rrCalls)
    (hbye : Along ByeRoundTrip.step ByeLimits ByeRoundTrip.Content.start byeCalls)
    (happ : Along App.step AppLimits App.Content.start appCalls) :
    (Throughout (call srKind) (ReportInStep srKind) (rtcpSrInit rtcpSrCreate) srCalls ↔
      Along (next srKind) Movable (History.start srKind) srCalls) ∧
    (Throughout (call rrKind) (ReportInStep rrKind) (rtcpRrInit rtcpRrCreate) rrCalls ↔
      Along (next rrKind) Movable (History.start rrKind) rrCalls) ∧
    (Throughout ByeRoundTrip.perform ByeInStep (rtcpByeInit rtcpByeCreate) byeCalls ↔
      Along ByeRoundTrip.step ByeRoundTrip.Readable ByeRoundTrip.Content.start byeCalls) ∧
    (Throughout SdesEdit.perform SdesInStep (rtcpSdesInit rtcpSdesCreate) sdesCalls ↔
      ∀ op ∈ sdesCalls, ¬ SdesEdit.Adds op) ∧
    Throughout App.perform AppInStep (rtcpAppInit rtcpAppCreate subtype) appCalls := by
  refine ⟨?_, ?_, ?_, ?_, ?_⟩
  · exact reports_inStep_iff srCalls hsr
  · exact reports_inStep_iff rrCalls hrr
  · exact bye_inStep_iff byeCalls hbye
  · exact sdes_inStep_iff sdesCalls
  · exact app_inStep subtype appCalls happ

/-- A report that comes and goes, and an extension. -/
theorem headerLength_inStep_small :
    Throughout (call srKind) (ReportInStep srKind) (rtcpSrInit rtcpSrCreate)
      [.mutate (.addReport RtcpReport.zeroReport), .removeReport 0 [0],
        .mutate (.setExt [1, 2, 3, 4])] := by
  have hiff := headerLength_inStep_iff
    [.mutate (.addReport RtcpReport.zeroReport), .removeReport 0 [0],
      .mutate (.setExt [1, 2, 3, 4])]
    [.mutate (.setExt [1, 2, 3, 4, 5])] [.addSource 7, .setMessage [98], .clearMessage]
    [.clearItem 7 1 []] [.setData [1], .clearData] 3
    ⟨⟨by decide, by decide⟩, ⟨by decide, by decide⟩, ⟨by decide, by decide⟩, trivial⟩
    ⟨⟨by decide, by decide⟩, trivial⟩
    ⟨⟨by decide, by decide⟩, ⟨by decide, by decide⟩, ⟨by decide, by decide⟩, trivial⟩
    ⟨by decide, by decide, trivial⟩
  refine hiff.1.mpr ⟨trivial, fun offset hfound => ?_, trivial, trivial⟩
  cases hfound
  decide

/-- A source description of one entry. -/
theorem headerLength_inStep_fails :
    ¬ Throughout SdesEdit.perform SdesInStep (rtcpSdesInit rtcpSdesCreate) [.addEntry 7] := by
  intro h
  have hiff := (sdes_inStep_iff [.addEntry 7]).mp h
  exact hiff (.addEntry 7) List.mem_cons_self trivial

end AllTypes

end RtpSdr.Rtp.HeaderLength
