import RtpSdr.Rtp.ReportPacket

/-!
# How report packets are built

The mutators of `rtcp_sr.c` and `rtcp_rr.c`, and what any sequence of them leaves: a
list of reports with distinct sources, at most one extension, and a header length
that each of them keeps right.
-/
namespace RtpSdr.Rtp.ReportHistory

open RtpSdr.Lib.Checked
open RtpSdr.Lib.Memory
open RtpSdr.Rtp.RtcpHeader
open RtpSdr.Rtp.RtcpReport
open RtpSdr.Rtp.ReportPacket

section Source

variable {φ : Type} (k : Kind φ)

/-- The index of the first report of a source. -/
def findReport (packet : ReportPacketT φ) (srcId : UInt32) : Exec (Option Nat) :=
  find packet.reports packet.header.count.toNat fun report => report.ssrc == srcId

def withLength (packet : ReportPacketT φ) (length : UInt16) : ReportPacketT φ :=
  { packet with header := { packet.header with length := length } }

/-- The update of the header length. -/
def updateLength (packet : ReportPacketT φ) : ReportPacketT φ :=
  withLength packet (UInt16.ofNat (sizeSub (size k packet / 4) 1))

/-- The end of `add_report`: the last cell of the new array is written. -/
def storeReport (packet : ReportPacketT φ) (count : BitVec 5) (reports : List RtcpReportT)
    (report : RtcpReportT) : Exec (Int × ReportPacketT φ) := do
  let reports ← storeLast reports count.toNat report
  .ok (RTCP_OK, updateLength k { packet with
    header := { packet.header with count := count }, reports := .obj reports })

/-- The result and the packet afterwards. The count has five bits. -/
def addReport (packet : ReportPacketT φ) (report : RtcpReportT) : Exec (Int × ReportPacketT φ) :=
  if packet.header.count = 0 then
    storeReport k packet 1 (realloc [] 1 zeroReport) report
  else if packet.header.count.toNat = 0xff then .ok (RTCP_ERROR, packet)
  else do
    let found ← findReport packet report.ssrc
    if found.isSome then .ok (RTCP_ERROR, packet)
    else do
      let count := packet.header.count + 1
      let reports ← packet.reports.deref
      storeReport k packet count (realloc reports count.toNat zeroReport) report

def setExt (packet : ReportPacketT φ) (data : List UInt8) : Int × ReportPacketT φ :=
  if k.checksExt && decide (data.length % 4 ≠ 0) then (-1, packet)
  else if packet.extData.isSet then (RTCP_ERROR, packet)
  else (RTCP_OK, updateLength k { packet with extSize := data.length, extData := .obj data })

def clearExt (packet : ReportPacketT φ) : ReportPacketT φ :=
  updateLength k (if packet.extData.isSet then { packet with extData := .null, extSize := 0 }
    else packet)

end Source

/-! ## Histories -/

/-- A call on a packet, or an assignment to its fields. -/
inductive Op (φ : Type) where
  | addReport (report : RtcpReportT)
  | setExt (data : List UInt8)
  | clearExt
  | assign (fields : φ)

/-- The packet after a call, whatever the call returned. -/
def perform {φ : Type} (k : Kind φ) (packet : ReportPacketT φ) : Op φ → Exec (ReportPacketT φ)
  | .addReport report => do
    let (_, packet) ← addReport k packet report
    .ok packet
  | .setExt data => .ok (setExt k packet data).2
  | .clearExt => .ok (clearExt k packet)
  | .assign fields => .ok { packet with fields := fields }

/-- What a packet should hold after some calls. -/
structure History (φ : Type) where
  fields : φ
  reports : List RtcpReportT
  ext : Option (List UInt8)

section History

variable {φ : Type} (k : Kind φ)

def History.start : History φ := ⟨k.zero, [], none⟩

/-- A report of a source that has one is refused, an extension if there is one. -/
def History.step (h : History φ) : Op φ → History φ
  | .addReport report =>
    if ∃ r ∈ h.reports, r.ssrc = report.ssrc then h else { h with reports := h.reports ++ [report] }
  | .setExt data =>
    if (k.checksExt = true ∧ data.length % 4 ≠ 0) ∨ h.ext.isSome then h
    else { h with ext := some data }
  | .clearExt => { h with ext := none }
  | .assign fields => { h with fields := fields }

/-- No call brings the packet more reports than the count can express. -/
def History.Counted : History φ → List (Op φ) → Prop
  | _, [] => True
  | h, op :: ops => (h.step k op).reports.length ≤ 31 ∧ (h.step k op).Counted ops

def History.content (h : History φ) : Content φ := ⟨0, h.fields, h.reports, h.ext.getD []⟩

/-- An extension that was set, even an empty one, is an object. -/
def extPtr : Option (List UInt8) → Ptr (List UInt8)
  | none => .null
  | some data => .obj data

/-- The packet holds what its history says. -/
structure Built (packet : ReportPacketT φ) (h : History φ) : Prop where
  version : packet.header.version = 2
  p : packet.header.p = 0
  pt : packet.header.pt = k.pt
  count : packet.header.count.toNat = h.reports.length
  length : packet.header.length = UInt16.ofNat (sizeSub (size k packet / 4) 1)
  fields : packet.fields = h.fields
  reports : h.reports ≠ [] → packet.reports = .obj h.reports
  extSize : packet.extSize = (h.ext.getD []).length
  extData : packet.extData = extPtr h.ext

end History

variable {φ : Type} {k : Kind φ} {packet : ReportPacketT φ} {h : History φ}

theorem built_init (k : Kind φ) : Built k (init k (create k)) (History.start k) := by
  constructor
  · rfl
  · rfl
  · rfl
  · rfl
  · have hk := k.length_eq
    have hlt := k.length.toNat_lt
    have hsize : size k (init k (create k)) = k.fixedSize := by simp [size, create, init]
    rw [hsize, sizeSub_of_le (by omega) (by omega), ← UInt16.toNat_inj, UInt16.toNat_ofNat']
    change k.length.toNat = _
    omega
  · rfl
  · exact fun hne => absurd rfl hne
  · rfl
  · rfl

section WithLength

variable (packet : ReportPacketT φ) (length : UInt16)

@[simp] theorem withLength_version :
    (withLength packet length).header.version = packet.header.version := rfl

@[simp] theorem withLength_p : (withLength packet length).header.p = packet.header.p := rfl

@[simp] theorem withLength_pt : (withLength packet length).header.pt = packet.header.pt := rfl

@[simp] theorem withLength_count :
    (withLength packet length).header.count = packet.header.count := rfl

@[simp] theorem withLength_length : (withLength packet length).header.length = length := rfl

@[simp] theorem withLength_fields : (withLength packet length).fields = packet.fields := rfl

@[simp] theorem withLength_reports : (withLength packet length).reports = packet.reports := rfl

@[simp] theorem withLength_extSize : (withLength packet length).extSize = packet.extSize := rfl

@[simp] theorem withLength_extData : (withLength packet length).extData = packet.extData := rfl

/-- The header length has no part in the size. -/
@[simp] theorem size_withLength (k : Kind φ) :
    size k (withLength packet length) = size k packet := rfl

end WithLength

theorem built_updateLength (hversion : packet.header.version = 2) (hp : packet.header.p = 0)
    (hpt : packet.header.pt = k.pt) (hcount : packet.header.count.toNat = h.reports.length)
    (hfields : packet.fields = h.fields)
    (hreports : h.reports ≠ [] → packet.reports = .obj h.reports)
    (hextSize : packet.extSize = (h.ext.getD []).length)
    (hextData : packet.extData = extPtr h.ext) : Built k (updateLength k packet) h := by
  rw [updateLength]
  constructor
  · rwa [withLength_version]
  · rwa [withLength_p]
  · rwa [withLength_pt]
  · rwa [withLength_count]
  · rw [withLength_length, size_withLength]
  · rwa [withLength_fields]
  · rwa [withLength_reports]
  · rwa [withLength_extSize]
  · rwa [withLength_extData]

/-! ## One call -/

theorem findReport_ok {reports : List RtcpReportT} (hreports : packet.reports = .obj reports)
    (hcount : packet.header.count.toNat = reports.length) (srcId : UInt32) :
    ∃ found, findReport packet srcId = .ok found ∧
      (found.isSome = true ↔ ∃ r ∈ reports, r.ssrc = srcId) := by
  refine ⟨reports.findIdx? fun report => report.ssrc == srcId, ?_, ?_⟩
  · rw [findReport, hcount, find_ok fun _ => hreports]
  · rw [List.findIdx?_isSome, List.any_eq_true]
    simp only [beq_iff_eq]

/-- A report is added unless its source has one. -/
theorem addReport_built (hb : Built k packet h) (report : RtcpReportT)
    (hcount : (h.step k (.addReport report)).reports.length ≤ 31) :
    ∃ r packet', addReport k packet report = .ok (r, packet') ∧
      Built k packet' (h.step k (.addReport report)) := by
  obtain ⟨hversion, hp, hpt, hcnt, hlength, hfields, hreports, hextSize, hextData⟩ := hb
  have hgrow (count : BitVec 5) (hc : count.toNat = h.reports.length + 1)
      (hnew : ¬ ∃ r ∈ h.reports, r.ssrc = report.ssrc) :
      ∃ packet', storeReport k packet count (realloc h.reports count.toNat zeroReport) report
          = .ok (RTCP_OK, packet') ∧ Built k packet' (h.step k (.addReport report)) := by
    refine ⟨_, by rw [storeReport, hc, storeLast_realloc, ok_bind], ?_⟩
    rw [History.step, if_neg hnew]
    apply built_updateLength
    · exact hversion
    · exact hp
    · exact hpt
    · rw [List.length_append, List.length_singleton]
      exact hc
    · exact hfields
    · exact fun _ => rfl
    · exact hextSize
    · exact hextData
  rw [addReport]
  by_cases hzero : packet.header.count = 0
  · have hnil : h.reports = [] := by
      rw [hzero] at hcnt
      exact List.length_eq_zero_iff.mp hcnt.symm
    obtain ⟨packet', hrun, hbuilt⟩ := hgrow 1 (by rw [hnil]; rfl) (by rw [hnil]; simp)
    rw [hnil] at hrun
    exact ⟨_, packet', by rw [if_pos hzero]; exact hrun, hbuilt⟩
  · have hne : h.reports ≠ [] := by
      intro hnil
      rw [hnil] at hcnt
      exact hzero (BitVec.eq_of_toNat_eq hcnt)
    have hlt := packet.header.count.isLt
    obtain ⟨found, hfind, hiff⟩ := findReport_ok (hreports hne) hcnt report.ssrc
    rw [if_neg hzero, if_neg (by omega), bind_of_ok hfind]
    by_cases hsrc : ∃ r ∈ h.reports, r.ssrc = report.ssrc
    · rw [if_pos (hiff.mpr hsrc), History.step, if_pos hsrc]
      exact ⟨_, packet, rfl, hversion, hp, hpt, hcnt, hlength, hfields, hreports, hextSize,
        hextData⟩
    · rw [History.step, if_neg hsrc, List.length_append, List.length_singleton] at hcount
      have hcount' : (packet.header.count + 1).toNat = h.reports.length + 1 := by
        rw [BitVec.toNat_add, hcnt]
        change (h.reports.length + 1) % 32 = _
        omega
      obtain ⟨packet', hrun, hbuilt⟩ := hgrow _ hcount' hsrc
      rw [if_neg (mt hiff.mp hsrc), hreports hne]
      exact ⟨_, packet', hrun, hbuilt⟩

theorem extPtr_isSet (ext : Option (List UInt8)) : (extPtr ext).isSet = ext.isSome := by
  cases ext with
  | none => rfl
  | some data => rfl

/-- An extension is set unless there is one, or its size is refused. -/
theorem setExt_built (hb : Built k packet h) (data : List UInt8) :
    Built k (setExt k packet data).2 (h.step k (.setExt data)) := by
  rw [setExt, History.step]
  by_cases hsize : k.checksExt = true ∧ data.length % 4 ≠ 0
  · rw [if_pos (by rw [hsize.1, decide_eq_true hsize.2]; rfl), if_pos (.inl hsize)]
    exact hb
  · have hcheck : ¬ (k.checksExt && decide (data.length % 4 ≠ 0)) = true := by
      rw [Bool.and_eq_true, decide_eq_true_iff]
      exact hsize
    rw [if_neg hcheck, hb.extData, extPtr_isSet]
    cases hset : h.ext.isSome with
    | true =>
      rw [if_pos rfl, if_pos (.inr rfl)]
      exact hb
    | false =>
      rw [if_neg (by decide), if_neg (by simpa using hsize)]
      exact built_updateLength hb.version hb.p hb.pt hb.count hb.fields hb.reports rfl rfl

theorem clearExt_built (hb : Built k packet h) :
    Built k (clearExt k packet) (h.step k .clearExt) := by
  rw [clearExt, hb.extData, extPtr_isSet]
  cases hset : h.ext with
  | none =>
    have hnull := hb.extData
    have hsize := hb.extSize
    rw [hset] at hnull hsize
    exact built_updateLength hb.version hb.p hb.pt hb.count hb.fields hb.reports hsize hnull
  | some data =>
    apply built_updateLength
    · exact hb.version
    · exact hb.p
    · exact hb.pt
    · exact hb.count
    · exact hb.fields
    · exact hb.reports
    · rfl
    · rfl

theorem perform_built (hb : Built k packet h) (op : Op φ)
    (hcount : (h.step k op).reports.length ≤ 31) :
    ∃ packet', perform k packet op = .ok packet' ∧ Built k packet' (h.step k op) := by
  cases op with
  | addReport report =>
    obtain ⟨r, packet', hrun, hbuilt⟩ := addReport_built hb report hcount
    exact ⟨packet', by rw [perform, bind_of_ok hrun], hbuilt⟩
  | setExt data => exact ⟨_, rfl, setExt_built hb data⟩
  | clearExt => exact ⟨_, rfl, clearExt_built hb⟩
  | assign fields =>
    refine ⟨_, rfl, ?_⟩
    obtain ⟨hversion, hp, hpt, hcnt, hlength, _, hreports, hextSize, hextData⟩ := hb
    exact ⟨hversion, hp, hpt, hcnt, hlength, rfl, hreports, hextSize, hextData⟩

/-! ## Any sequence of calls -/

theorem runAll_built (ops : List (Op φ)) (hb : Built k packet h) (hcount : h.Counted k ops) :
    ∃ packet', runAll (perform k) packet ops = .ok packet' ∧
      Built k packet' (ops.foldl (History.step k) h) := by
  induction ops generalizing packet h with
  | nil => exact ⟨packet, rfl, hb⟩
  | cons op ops ih =>
    obtain ⟨packet₁, hrun, hb₁⟩ := perform_built hb op hcount.1
    obtain ⟨packet', hrun', hb'⟩ := ih hb₁ hcount.2
    exact ⟨packet', by rw [runAll_cons, bind_of_ok hrun, hrun'], hb'⟩

/-- What was built is what the wire format needs. -/
theorem Built.holds (hb : Built k packet h) (hfit : h.content.Fits k) :
    Holds k packet h.content := by
  have hextData : h.content.ext ≠ [] → packet.extData = .obj h.content.ext := by
    intro hne
    rw [hb.extData]
    cases hset : h.ext with
    | none => exact absurd (by rw [History.content, hset]; rfl) hne
    | some data => rw [extPtr, History.content, hset, Option.getD_some]
  have hsize : size k packet = h.content.size k :=
    size_of_content hb.count hb.extSize hextData hfit.ext (by have := hfit.size; omega)
  constructor
  · have hk := k.length_eq
    have hle := hfit.size
    have hge : k.fixedSize ≤ h.content.size k := by
      rw [Content.size]
      omega
    have hlength := hb.length
    rw [hsize, sizeSub_of_le (by omega) (by omega)] at hlength
    have hcount : packet.header.count = BitVec.ofNat 5 h.reports.length := by
      rw [← hb.count, BitVec.ofNat_toNat, BitVec.setWidth_eq]
    have heta : packet.header = ⟨packet.header.version, packet.header.p, packet.header.count,
      packet.header.pt, packet.header.length⟩ := rfl
    rw [heta, hb.version, hb.p, hcount, hb.pt, hlength]
    rfl
  · exact hb.fields
  · exact hb.reports
  · exact hb.extSize
  · exact hextData

/-- Every packet that was built round-trips through every buffer that is large enough. -/
def BuiltRoundTrips (k : Kind φ) : Prop :=
  ∀ ops : List (Op φ), (History.start k).Counted k ops →
    (ops.foldl (History.step k) (History.start k)).content.Fits k →
    ∃ packet, runAll (perform k) (init k (create k)) ops = .ok packet ∧
      Holds k packet (ops.foldl (History.step k) (History.start k)).content ∧
      ∀ buffer : List UInt8, size k packet ≤ buffer.length → buffer.length < 2 ^ 64 →
        ∃ n bytes packet', serialize k packet buffer buffer.length = .ok (n, bytes) ∧ 0 ≤ n ∧
          parse k (create k) (bytes.take n.toNat) n.toNat = .ok (RTCP_OK, packet') ∧
          Holds k packet' (ops.foldl (History.step k) (History.start k)).content

theorem builtRoundTrips (k : Kind φ) : BuiltRoundTrips k := by
  intro ops hcount hfit
  obtain ⟨packet, hrun, hbuilt⟩ := runAll_built ops (built_init k) hcount
  have hholds := hbuilt.holds hfit
  generalize (ops.foldl (History.step k) (History.start k)).content = c at hfit hholds
  refine ⟨packet, hrun, hholds, fun buffer hbuffer hlt => ?_⟩
  have hle := hfit.size
  rw [hholds.size_eq hfit] at hbuffer
  have hparse := parse_encode (create k) hfit [] (Nat.le_refl (c.size k)) (by omega)
  refine ⟨_, _, _, serialize_ok hholds hfit hbuffer hlt hbuffer, by omega, ?_,
    holds_parsed k (create k) c⟩
  rw [List.append_nil] at hparse
  rw [Int.toNat_natCast, List.take_left' (length_encode c)]
  exact hparse

end RtpSdr.Rtp.ReportHistory
