import RtpSdr.Rtp.AppOutput
import RtpSdr.Rtp.ByeOutput
import RtpSdr.Rtp.ReportOutput
import RtpSdr.Rtp.SdesOutput
import RtpSdr.Rtp.SrRr

/-!
# What was built can be sent

A serializer looks at the room before it writes anything, and nothing else should stop it from
sending a packet whose every call succeeded. One thing does: `rtcp_bye_set_message` takes a
message of any length, and the serializer finds it too long when the sources are written.
-/
namespace RtpSdr.Rtp.Sendable

open RtpSdr.Lib.Checked
open RtpSdr.Lib.Memory
open RtpSdr.Rtp.EntryCount (addReport_eq)
open RtpSdr.Rtp.EntryList
  (Covered Held addEntry_returns removeEntry_covered shrink_covered)
open RtpSdr.Rtp.RtcpHeader
open RtpSdr.Rtp.RtcpReport (RtcpReportT)
open RtpSdr.Rtp.ReportPacket (Kind ReportPacketT create init size serialize)
open RtpSdr.Rtp.ReportHistory (addReport setExt clearExt)
open RtpSdr.Rtp.ReportRemove (Call removeReport)
open RtpSdr.Rtp.SrRr
open RtpSdr.Rtp.Sdes
open RtpSdr.Rtp.SdesEdit (rtcpSdesAddEntry rtcpSdesRemoveEntry rtcpSdesSetItem rtcpSdesClearItem)
open RtpSdr.Rtp.Bye
open RtpSdr.Rtp.App

/-! ## Calls that succeed -/

/-- The packet after a call that reported no error. -/
def succeedReport {φ : Type} (k : Kind φ) (packet : ReportPacketT φ) :
    Call φ → Exec (ReportPacketT φ)
  | .mutate (.addReport report) => assertZero (addReport k packet report)
  | .mutate (.setExt data) => assertZero (.ok (setExt k packet data))
  | .mutate .clearExt => .ok (clearExt k packet)
  | .mutate (.assign fields) => .ok { packet with fields := fields }
  | .removeReport srcId behind => removeReport k packet srcId behind

def succeedSdes (packet : RtcpSdes) : SdesEdit.Op → Exec RtcpSdes
  | .addEntry id => assertZero (rtcpSdesAddEntry packet id)
  | .removeEntry id behind => rtcpSdesRemoveEntry packet id behind
  | .setItem src type data behind => assertZero (rtcpSdesSetItem packet src type data behind)
  | .clearItem src type behind => rtcpSdesClearItem packet src type behind

def succeedBye (packet : RtcpBye) : ByeRoundTrip.Op → Exec RtcpBye
  | .addSource srcId => assertZero (rtcpByeAddSource packet srcId)
  | .removeSource srcId behind => rtcpByeRemoveSource packet srcId behind
  | .setMessage text => assertZero (rtcpByeSetMessage packet (text ++ [0]))
  | .clearMessage => rtcpByeClearMessage packet

def succeedApp (packet : RtcpApp) : App.Op → Exec RtcpApp
  | .setData data => assertZero (.ok (rtcpAppSetData packet data))
  | .clearData => .ok (rtcpAppClearData packet)
  | .assign ssrc name => .ok { packet with ssrc := ssrc, name := name }

/-! ## Packets of any type -/

/-- A packet as the one who sends it sees it: what its size function returns, the bytes it takes
as a natural number, and its serializer. -/
structure Sender where
  size : Exec Nat
  need : Exec Nat
  serialize : List UInt8 → Exec (Int × List UInt8)

/-- The size comes back from every buffer with room, and an error from every other buffer, which
keeps its bytes. -/
def Sender.Sends (s : Sender) : Prop :=
  ∃ n, s.size = .ok n ∧ ∀ buffer : List UInt8, buffer.length < 2 ^ 64 →
    (n ≤ buffer.length → ∃ bytes, s.serialize buffer = .ok ((n : Int), bytes)) ∧
      (buffer.length < n → s.serialize buffer = .ok (RTCP_ERROR, buffer))

def reportSender {φ : Type} (k : Kind φ) (packet : ReportPacketT φ) : Sender :=
  ⟨.ok (size k packet), .ok (ReportOutput.need k packet),
    fun buffer => serialize k packet buffer buffer.length⟩

def sdesSender (packet : RtcpSdes) : Sender :=
  ⟨rtcpSdesSize packet, rtcpSdesSize packet,
    fun buffer => rtcpSdesSerialize packet buffer buffer.length⟩

def byeSender (packet : RtcpBye) : Sender :=
  ⟨rtcpByeSize packet, rtcpByeSize packet,
    fun buffer => rtcpByeSerialize packet buffer buffer.length⟩

def appSender (packet : RtcpApp) : Sender :=
  ⟨.ok (rtcpAppSize packet), .ok (AppOutput.need packet),
    fun buffer => rtcpAppSerialize packet buffer buffer.length⟩

/-- The calls on a packet of one of the types, from `create` and `init` on. -/
inductive Run where
  | sr (calls : List (Call SrFields))
  | rr (calls : List (Call RrFields))
  | sdes (ops : List SdesEdit.Op)
  | bye (ops : List ByeRoundTrip.Op)
  | app (subtype : UInt8) (ops : List App.Op)

/-- The packet of a run whose calls all succeed. -/
def Run.sender : Run → Exec Sender
  | .sr calls => do
    let packet ← runAll (succeedReport srKind) (init srKind (create srKind)) calls
    .ok (reportSender srKind packet)
  | .rr calls => do
    let packet ← runAll (succeedReport rrKind) (init rrKind (create rrKind)) calls
    .ok (reportSender rrKind packet)
  | .sdes ops => do
    let packet ← runAll succeedSdes (rtcpSdesInit rtcpSdesCreate) ops
    .ok (sdesSender packet)
  | .bye ops => do
    let packet ← runAll succeedBye (rtcpByeInit rtcpByeCreate) ops
    .ok (byeSender packet)
  | .app subtype ops => do
    let packet ← runAll succeedApp (rtcpAppInit rtcpAppCreate subtype) ops
    .ok (appSender packet)

/-- The message that the calls on a goodbye packet leave has at most 255 characters. -/
def Run.ShortMessage : Run → Prop
  | .bye ops => ∀ text, (ops.foldl ByeRoundTrip.step ByeRoundTrip.Content.start).message
      = some text → text.length ≤ 255
  | _ => True

/-! ## Reports -/

section Reports

variable {φ : Type} {k : Kind φ} {packet packet' : ReportPacketT φ}

theorem succeedReport_call {c : Call φ} (hrun : succeedReport k packet c = .ok packet') :
    ReportRemove.call k packet c = .ok packet' := by
  cases c with
  | mutate op =>
    cases op with
    | addReport report =>
      exact bind_of_ok (assertZero_eq_ok.mp hrun)
    | setExt data =>
      have hset := Except.ok.inj (assertZero_eq_ok.mp hrun)
      change Except.ok (setExt k packet data).2 = _
      rw [hset]
    | clearExt => exact hrun
    | assign fields => exact hrun
  | removeReport srcId behind => exact hrun

/-- The reports that a packet counts are there. -/
def HasReports (packet : ReportPacketT φ) : Prop := Covered packet.header.count packet.reports

theorem withLength_covered (h : HasReports packet) (length : UInt16) :
    HasReports (ReportHistory.withLength packet length) := h

theorem updateLength_covered (k : Kind φ) (h : HasReports packet) :
    HasReports (ReportHistory.updateLength k packet) := by
  rw [ReportHistory.updateLength]
  exact withLength_covered h _

theorem call_covered (h : HasReports packet) {c : Call φ}
    (hrun : ReportRemove.call k packet c = .ok packet') : HasReports packet' := by
  cases c with
  | mutate op =>
    cases op with
    | addReport report =>
      obtain ⟨⟨r, packet₁⟩, hadd, hrun⟩ := bind_eq_ok.mp hrun
      cases hrun
      rw [addReport_eq] at hadd
      obtain ⟨added, hentry, hadd⟩ := bind_eq_ok.mp hadd
      cases added with
      | none =>
        cases hadd
        exact h
      | some added =>
        cases hadd
        apply updateLength_covered
        exact (addEntry_returns hentry).1
    | setExt data =>
      cases hrun
      rw [setExt]
      split
      · exact h
      · split
        · exact h
        · apply updateLength_covered
          exact h
    | clearExt =>
      cases hrun
      apply updateLength_covered
      split
      · exact h
      · exact h
    | assign fields =>
      cases hrun
      exact h
  | removeReport srcId behind =>
    obtain ⟨found, -, hrun⟩ := bind_eq_ok.mp hrun
    cases found with
    | none =>
      cases hrun
      exact h
    | some offset =>
      obtain ⟨reports, -, hrun⟩ := bind_eq_ok.mp hrun
      obtain ⟨ws, -, hrun⟩ := bind_eq_ok.mp hrun
      cases hrun
      apply updateLength_covered
      exact shrink_covered _ _ _

theorem reports_of_run {calls : List (Call φ)}
    (hrun : runAll (succeedReport k) (init k (create k)) calls = .ok packet) :
    HasReports packet ∧ ∃ ext, ReportOutput.Extended k packet ext := by
  refine runAll_history (I := fun _ packet => HasReports packet ∧
    ∃ ext, ReportOutput.Extended k packet ext) ?_ ?_ calls hrun
  · exact ⟨Nat.le_refl 0, ReportOutput.use_extended (u := .init)
      (ReportOutput.extended_create k) rfl⟩
  · intro _ t u c _ hold hcall
    obtain ⟨hreports, ext, hext⟩ := hold
    have hcall' := succeedReport_call hcall
    exact ⟨call_covered hreports hcall', ReportOutput.call_extended hext hcall'⟩

theorem reportSender_counted (h : HasReports packet) :
    reportSender k packet = reportSender k (ReportOutput.counted packet) := by
  rw [reportSender, reportSender]
  congr 1
  funext buffer
  exact ReportOutput.serialize_counted h buffer buffer.length

theorem held_sends {reports : List RtcpReportT} {ext : List UInt8}
    (hheld : Held packet.header.count packet.reports reports)
    (hext : ReportOutput.Extended k packet ext) (hle : ReportOutput.need k packet ≤ 262144) :
    (reportSender k packet).Sends := by
  have hlists := hext.lists hheld
  have hsize : size k packet = ReportOutput.need k packet :=
    ReportOutput.size_eq_need hext (by omega)
  have hround := roundUp_spec (k.fixedSize + reports.length * 24 + ext.length)
  have hneed : ReportOutput.need k packet
      = roundUp (k.fixedSize + reports.length * 24 + ext.length) := by
    rw [ReportOutput.need, hlists.reports.count, hlists.extSize]
  refine ⟨_, rfl, fun buffer hlt => ⟨fun hroom => ?_, fun hshort => ?_⟩⟩
  · have hrun := ReportPacket.serialize_lists hlists (by omega) hroom hlt hroom
    rw [castInt_of_lt (by omega)] at hrun
    exact ⟨_, hrun⟩
  · change serialize k packet buffer buffer.length = _
    rw [serialize, if_pos hshort]

theorem report_sends (h : HasReports packet) {ext : List UInt8}
    (hext : ReportOutput.Extended k packet ext) (hle : ReportOutput.need k packet ≤ 262144) :
    (reportSender k packet).Sends := by
  rw [reportSender_counted h]
  have hext' : ReportOutput.Extended k (ReportOutput.counted packet) ext := hext.of_eq rfl rfl
  exact held_sends h.held hext' hle

end Reports

/-! ## Source descriptions -/

section Sdes

variable {packet packet' : RtcpSdes}

theorem succeedSdes_perform {op : SdesEdit.Op} (hrun : succeedSdes packet op = .ok packet') :
    SdesEdit.perform packet op = .ok packet' := by
  cases op with
  | addEntry id => exact bind_of_ok (assertZero_eq_ok.mp hrun)
  | removeEntry id behind => exact hrun
  | setItem src type data behind => exact bind_of_ok (assertZero_eq_ok.mp hrun)
  | clearItem src type behind => exact hrun

/-- The entries that a packet counts are there. -/
def HasEntries (packet : RtcpSdes) : Prop := Covered packet.header.count packet.srcs

theorem sdes_withLength_covered (h : HasEntries packet) (length : UInt16) :
    HasEntries (SdesEdit.withLength packet length) := h

theorem sdes_updateLength_covered (hrun : SdesEdit.updateLength packet = .ok packet')
    (h : HasEntries packet) : HasEntries packet' := by
  obtain ⟨size, -, hrun⟩ := bind_eq_ok.mp hrun
  cases hrun
  exact sdes_withLength_covered h _

/-- The entries of a packet whose items change. -/
theorem withSource_covered (h : HasEntries packet) {srcs : List SdesEntry}
    (hderef : packet.srcs.deref = .ok srcs) (index : Nat) (source : SdesEntry) :
    HasEntries (SdesEdit.withSource packet srcs index source) := by
  rw [HasEntries, Covered, Ptr.deref_eq_ok hderef] at h
  rw [HasEntries, Covered, SdesEdit.withSource, Ptr.elements_obj, List.length_set]
  exact h

theorem setItem_covered (h : HasEntries packet) {src type : UInt32} {data : List UInt8}
    {behind : List SdesItem} {r : Int}
    (hrun : rtcpSdesSetItem packet src type data behind = .ok (r, packet')) :
    HasEntries packet' := by
  obtain ⟨found, hfind, hrest⟩ := bind_eq_ok.mp hrun
  cases found with
  | none =>
    cases hrest
    exact h
  | some index =>
    obtain ⟨srcs, hderef, hrest⟩ := bind_eq_ok.mp hrest
    obtain ⟨source, hload, hrest⟩ := bind_eq_ok.mp hrest
    obtain ⟨item, hget, -⟩ := bind_eq_ok.mp hrest
    rw [SdesOutput.rtcpSdesSetItem_eq hfind hderef hload hget] at hrun
    obtain ⟨source₁, -, hrun⟩ := bind_eq_ok.mp hrun
    obtain ⟨length, -, hrun⟩ := bind_eq_ok.mp hrun
    by_cases hlong : length > 0xFF
    · rw [if_pos hlong] at hrun
      cases hrun
      exact withSource_covered h hderef index source₁
    · rw [if_neg hlong] at hrun
      obtain ⟨⟨item, source₂⟩, -, hrun⟩ := bind_eq_ok.mp hrun
      have hset := withSource_covered h hderef index source₂
      cases item with
      | none =>
        cases hrun
        exact hset
      | some item =>
        obtain ⟨packet₁, hupdate, hrun⟩ := bind_eq_ok.mp hrun
        cases hrun
        exact sdes_updateLength_covered hupdate hset

theorem sdes_perform_covered (h : HasEntries packet) {op : SdesEdit.Op}
    (hrun : SdesEdit.perform packet op = .ok packet') : HasEntries packet' := by
  cases op with
  | addEntry id =>
    obtain ⟨⟨r, packet₁⟩, hadd, hrun⟩ := bind_eq_ok.mp hrun
    cases hrun
    obtain ⟨added, hentry, hadd⟩ := bind_eq_ok.mp hadd
    cases added with
    | none =>
      cases hadd
      exact h
    | some added =>
      cases hadd
      exact (addEntry_returns hentry).1
  | removeEntry id behind =>
    obtain ⟨found, -, hrun⟩ := bind_eq_ok.mp hrun
    cases found with
    | none =>
      cases hrun
      exact h
    | some index =>
      obtain ⟨srcs, -, hrun⟩ := bind_eq_ok.mp hrun
      obtain ⟨source, -, hrun⟩ := bind_eq_ok.mp hrun
      obtain ⟨items, -, hrun⟩ := bind_eq_ok.mp hrun
      obtain ⟨removed, hremove, hrun⟩ := bind_eq_ok.mp hrun
      cases hrun
      exact removeEntry_covered hremove
  | setItem src type data behind =>
    obtain ⟨⟨r, packet₁⟩, hset, hrun⟩ := bind_eq_ok.mp hrun
    cases hrun
    exact setItem_covered h hset
  | clearItem src type behind =>
    obtain ⟨found, -, hrun⟩ := bind_eq_ok.mp hrun
    cases found with
    | none =>
      cases hrun
      exact h
    | some index =>
      obtain ⟨srcs, hderef, hrun⟩ := bind_eq_ok.mp hrun
      obtain ⟨source, -, hrun⟩ := bind_eq_ok.mp hrun
      obtain ⟨source₁, -, hrun⟩ := bind_eq_ok.mp hrun
      exact sdes_updateLength_covered hrun (withSource_covered h hderef index source₁)

theorem entries_of_run {ops : List SdesEdit.Op}
    (hrun : runAll succeedSdes (rtcpSdesInit rtcpSdesCreate) ops = .ok packet) :
    HasEntries packet ∧ SdesOutput.SoundEntries packet := by
  refine runAll_history (I := fun _ packet => HasEntries packet ∧
    SdesOutput.SoundEntries packet) ?_ ?_ ops hrun
  · exact ⟨Nat.le_refl 0, SdesOutput.sound_create⟩
  · intro _ t u op _ hold hcall
    have hcall' := succeedSdes_perform hcall
    exact ⟨sdes_perform_covered hold.1 hcall', SdesOutput.perform_sound hold.2 hcall'⟩

theorem sdesSender_counted (h : HasEntries packet) :
    sdesSender packet = sdesSender (SdesOutput.counted packet) := by
  rw [sdesSender, sdesSender, SdesOutput.size_counted h]
  congr 1
  funext buffer
  exact SdesOutput.serialize_counted h buffer buffer.length

theorem sdes_sends {ops : List SdesEdit.Op}
    (hrun : runAll succeedSdes (rtcpSdesInit rtcpSdesCreate) ops = .ok packet) :
    (sdesSender packet).Sends := by
  obtain ⟨hentries, hsound⟩ := entries_of_run hrun
  obtain ⟨ws, hws⟩ := (SdesOutput.sound_counted hentries hsound).carries
  rw [sdesSender_counted hentries]
  have hsize := rtcpSdesSize_wire hws
  refine ⟨_, hsize, fun buffer hlt => ⟨fun hroom => ?_, fun hshort => ?_⟩⟩
  · exact ⟨_, rtcpSdesSerialize_wire hws hroom hlt hroom⟩
  · change rtcpSdesSerialize (SdesOutput.counted packet) buffer buffer.length = _
    rw [rtcpSdesSerialize, bind_of_ok hsize, if_pos hshort]

end Sdes

/-! ## Application packets -/

section App

variable {packet packet' : RtcpApp}

theorem succeedApp_perform {op : App.Op} (hrun : succeedApp packet op = .ok packet') :
    App.perform packet op = .ok packet' := by
  cases op with
  | setData data =>
    have hset := Except.ok.inj (assertZero_eq_ok.mp hrun)
    change Except.ok (rtcpAppSetData packet data).2 = _
    rw [hset]
  | clearData => exact hrun
  | assign ssrc name => exact hrun

theorem app_sends {subtype : UInt8} {ops : List App.Op}
    (hrun : runAll succeedApp (rtcpAppInit rtcpAppCreate subtype) ops = .ok packet)
    (hle : AppOutput.need packet ≤ 262144) : (appSender packet).Sends := by
  have hsound : ∃ data, AppOutput.Block packet data := by
    refine runAll_history (I := fun _ packet => ∃ data, AppOutput.Block packet data) ?_ ?_ ops hrun
    · exact AppOutput.reached_block (.call (.init subtype) .start rfl)
    · intro _ t u op _ hblock hcall
      exact AppOutput.perform_block hblock (succeedApp_perform hcall)
  obtain ⟨data, hblock⟩ := hsound
  have hsize := AppOutput.rtcpAppSize_eq_need hblock (by omega)
  refine ⟨_, rfl, fun buffer hlt => ⟨fun hroom => ?_, fun hshort => ?_⟩⟩
  · rw [hsize] at hroom ⊢
    have hrun := AppOutput.rtcpAppSerialize_ok hblock hroom (by omega)
    rw [castInt_of_lt (by omega)] at hrun
    exact ⟨_, hrun⟩
  · change rtcpAppSerialize packet buffer buffer.length = _
    rw [rtcpAppSerialize, if_pos hshort]

end App

/-! ## Goodbye packets -/

section Bye

variable {packet packet' : RtcpBye} {c : Bye.Content}

theorem succeedBye_perform {op : ByeRoundTrip.Op} (hrun : succeedBye packet op = .ok packet') :
    ByeRoundTrip.perform packet op = .ok packet' := by
  cases op with
  | addSource srcId => exact bind_of_ok (assertZero_eq_ok.mp hrun)
  | removeSource srcId behind => exact hrun
  | setMessage text => exact bind_of_ok (assertZero_eq_ok.mp hrun)
  | clearMessage => exact hrun

/-- The sources that a packet counts are there. -/
def HasSources (packet : RtcpBye) : Prop := Covered packet.header.count packet.srcIds

theorem bye_withLength_covered (h : HasSources packet) (length : UInt16) :
    HasSources (Bye.withLength packet length) := h

theorem bye_updateLength_covered (hrun : Bye.updateLength packet = .ok packet')
    (h : HasSources packet) : HasSources packet' := by
  obtain ⟨size, -, hrun⟩ := bind_eq_ok.mp hrun
  cases hrun
  exact bye_withLength_covered h _

theorem bye_perform_covered (h : HasSources packet) {op : ByeRoundTrip.Op}
    (hrun : ByeRoundTrip.perform packet op = .ok packet') : HasSources packet' := by
  cases op with
  | addSource srcId =>
    obtain ⟨⟨r, packet₁⟩, hadd, hrun⟩ := bind_eq_ok.mp hrun
    cases hrun
    obtain ⟨added, hentry, hadd⟩ := bind_eq_ok.mp hadd
    cases added with
    | none =>
      cases hadd
      exact h
    | some added =>
      obtain ⟨packet₂, hupdate, hadd⟩ := bind_eq_ok.mp hadd
      cases hadd
      exact bye_updateLength_covered hupdate (addEntry_returns hentry).1
  | removeSource srcId behind =>
    obtain ⟨found, -, hrun⟩ := bind_eq_ok.mp hrun
    cases found with
    | none =>
      cases hrun
      exact h
    | some index =>
      obtain ⟨⟨count, srcIds⟩, hremove, hrun⟩ := bind_eq_ok.mp hrun
      exact bye_updateLength_covered hrun (removeEntry_covered hremove)
  | setMessage text =>
    obtain ⟨⟨r, packet₁⟩, hset, hrun⟩ := bind_eq_ok.mp hrun
    cases hrun
    rw [ByeRoundTrip.setMessage_eq] at hset
    cases hisSet : packet.message.isSet with
    | true =>
      rw [hisSet, if_pos rfl] at hset
      cases hset
      exact h
    | false =>
      rw [hisSet, if_neg (by decide)] at hset
      obtain ⟨packet₂, hupdate, hset⟩ := bind_eq_ok.mp hset
      cases hset
      exact bye_updateLength_covered hupdate h
  | clearMessage => exact bye_updateLength_covered hrun h

theorem byeSender_counted (h : HasSources packet) :
    byeSender packet = byeSender (ByeOutput.counted packet) := by
  rw [byeSender, byeSender]
  congr 1
  funext buffer
  exact ByeOutput.serialize_counted h buffer buffer.length

/-- The sender of a run is that of a packet that holds the message which the calls leave. -/
theorem holds_of_run {ops : List ByeRoundTrip.Op}
    (hrun : runAll succeedBye (rtcpByeInit rtcpByeCreate) ops = .ok packet) :
    ∃ packet' c, byeSender packet = byeSender packet' ∧ Bye.Holds packet' c ∧
      c.message = (ops.foldl ByeRoundTrip.step ByeRoundTrip.Content.start).message := by
  have hboth : HasSources packet ∧ ByeOutput.HasMessage packet
      (ops.foldl ByeRoundTrip.step ByeRoundTrip.Content.start).message := by
    refine runAll_history (I := fun hist packet => HasSources packet ∧ ByeOutput.HasMessage packet
      (hist.foldl ByeRoundTrip.step ByeRoundTrip.Content.start).message) ?_ ?_ ops hrun
    · have hstart := ByeRoundTrip.built_init
      exact ⟨Nat.le_refl 0, hstart.message, hstart.noNul⟩
    · intro hist t u op _ hold hcall
      have hcall' := succeedBye_perform hcall
      rw [List.foldl_concat]
      exact ⟨bye_perform_covered hold.1 hcall', ByeOutput.perform_message hold.2 hcall'⟩
  obtain ⟨hsources, hmessage⟩ := hboth
  exact ⟨ByeOutput.counted packet, ⟨_, _⟩, byeSender_counted hsources,
    ⟨hsources.held, hmessage.block, hmessage.noNul⟩, rfl⟩

/-- A message that is too long is found when the sources are written. -/
theorem bye_sends_iff (h : Bye.Holds packet c) (hle : c.size ≤ 262144) :
    (byeSender packet).Sends ↔ ∀ text, c.message = some text → text.length ≤ 255 := by
  have hsize := rtcpByeSize_ok h
  constructor
  · rintro ⟨n, hn, hsends⟩ text hmessage
    cases hsize.symm.trans hn
    by_contra hlong
    have hlen : (List.replicate c.size (0 : UInt8)).length = c.size := List.length_replicate
    generalize List.replicate c.size (0 : UInt8) = buffer at hlen
    obtain ⟨bytes, hbytes⟩ := (hsends buffer (by omega)).1 hlen.ge
    have hrun := rtcpByeSerialize_long h hlen.ge hlen.ge hmessage (by omega)
    have hsame := congrArg Prod.fst (Except.ok.inj (hbytes.symm.trans hrun))
    change (c.size : Int) = -1 at hsame
    omega
  · intro hshort
    refine ⟨_, hsize, fun buffer hlt => ⟨fun hroom => ?_, fun hless => ?_⟩⟩
    · have hrun := rtcpByeSerialize_ok h hroom hroom hshort
      rw [castInt_of_lt (by omega)] at hrun
      exact ⟨_, hrun⟩
    · change rtcpByeSerialize packet buffer buffer.length = _
      rw [rtcpByeSerialize, bind_of_ok hsize, if_pos hless]

end Bye

/-! ## Every run -/

/-- The packet of a run whose calls all succeed can be sent exactly if it has no message that is
too long. -/
theorem built_sends_iff (run : Run) {sender : Sender} (hrun : run.sender = .ok sender) {n : Nat}
    (hneed : sender.need = .ok n) (hle : n ≤ 262144) : sender.Sends ↔ run.ShortMessage := by
  cases run with
  | sr calls =>
    obtain ⟨packet, hcalls, hsender⟩ := bind_eq_ok.mp hrun
    cases hsender
    cases hneed
    obtain ⟨hreports, ext, hext⟩ := reports_of_run hcalls
    exact iff_of_true (report_sends hreports hext hle) trivial
  | rr calls =>
    obtain ⟨packet, hcalls, hsender⟩ := bind_eq_ok.mp hrun
    cases hsender
    cases hneed
    obtain ⟨hreports, ext, hext⟩ := reports_of_run hcalls
    exact iff_of_true (report_sends hreports hext hle) trivial
  | sdes ops =>
    obtain ⟨packet, hops, hsender⟩ := bind_eq_ok.mp hrun
    cases hsender
    exact iff_of_true (sdes_sends hops) trivial
  | bye ops =>
    obtain ⟨packet, hops, hsender⟩ := bind_eq_ok.mp hrun
    cases hsender
    obtain ⟨packet', c, hsame, hc, hmessage⟩ := holds_of_run hops
    rw [hsame] at hneed ⊢
    cases (rtcpByeSize_ok hc).symm.trans hneed
    rw [bye_sends_iff hc hle, hmessage, Run.ShortMessage]
  | app subtype ops =>
    obtain ⟨packet, hops, hsender⟩ := bind_eq_ok.mp hrun
    cases hsender
    cases hneed
    exact iff_of_true (app_sends hops hle) trivial

/-- A message on an initialised packet. -/
theorem exists_sender (text : List UInt8) :
    ∃ packet, (Run.bye [.setMessage text]).sender = .ok (byeSender packet) ∧
      Bye.Holds packet ⟨[], some (cstring (text ++ [0]))⟩ := by
  have hstart := ByeRoundTrip.built_init
  obtain ⟨packet, hupdate, hbuilt⟩ := ByeRoundTrip.updateLength_built
    { rtcpByeInit rtcpByeCreate with message := messagePtr (cstring (text ++ [0])) }
    (c := ⟨[], some (cstring (text ++ [0]))⟩)
    ⟨hstart.srcIds, rfl, fun t ht => by cases ht; exact zero_notMem_cstring _⟩
    hstart.version hstart.p hstart.pt
  have hset : rtcpByeSetMessage (rtcpByeInit rtcpByeCreate) (text ++ [0])
      = .ok (RTCP_OK, packet) := by
    rw [ByeRoundTrip.setMessage_eq, if_neg (by decide), bind_of_ok hupdate]
  refine ⟨packet, ?_, hbuilt.toHolds⟩
  rw [Run.sender, runAll_cons, succeedBye, bind_of_ok (assertZero_eq_ok.mpr hset), runAll_nil,
    ok_bind]

/-- A message of three characters. -/
theorem built_sends_iff_three :
    ∃ sender, (Run.bye [.setMessage [98, 121, 101]]).sender = .ok sender ∧
      (sender.Sends ↔ (Run.bye [.setMessage [98, 121, 101]]).ShortMessage) := by
  obtain ⟨packet, hrun, hholds⟩ := exists_sender [98, 121, 101]
  exact ⟨_, hrun, built_sends_iff _ hrun (rtcpByeSize_ok hholds) (by decide)⟩

/-- A message of 256 characters. -/
theorem built_sends_fails :
    ¬ ∀ (run : Run) (sender : Sender) (n : Nat), run.sender = .ok sender →
      sender.need = .ok n → n ≤ 262144 → sender.Sends := by
  intro hall
  obtain ⟨packet, hrun, hholds⟩ := exists_sender (List.replicate 256 65)
  have hlong : (cstring (List.replicate 256 65 ++ [0])).length = 256 := by decide +kernel
  have hle : Content.size ⟨[], some (cstring (List.replicate 256 65 ++ [0]))⟩ ≤ 262144 := by
    decide +kernel
  have hsends := hall _ _ _ hrun (rtcpByeSize_ok hholds) hle
  have hshort := (bye_sends_iff hholds hle).mp hsends _ rfl
  omega

end RtpSdr.Rtp.Sendable
