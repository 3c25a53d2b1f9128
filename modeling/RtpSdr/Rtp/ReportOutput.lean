import RtpSdr.Lib.Output
import RtpSdr.Rtp.EntryCount
import RtpSdr.Rtp.ReportRemove

/-!
# What a serialized report packet shows of the buffer

A parser that fails leaves a packet that may count more reports than it has: its serializer
reads behind them. The extension is as long as every packet says. The serializer counts the
bytes that fill the packet up, but does not write those: a receiver report whose extension
does not end on a word shows what the buffer held before. A sender report takes no such
extension.
-/
namespace RtpSdr.Rtp.ReportOutput

open RtpSdr.Lib.Checked
open RtpSdr.Lib.Memory
open RtpSdr.Lib.Output
open RtpSdr.Rtp.RtcpHeader
open RtpSdr.Rtp.RtcpReport
open RtpSdr.Rtp.ReportPacket
open RtpSdr.Rtp.ReportHistory
open RtpSdr.Rtp.ReportRemove
open RtpSdr.Rtp.EntryList
open RtpSdr.Rtp.EntryCount (addReport_eq)
open RtpSdr.Rtp.Sdes (roundUp roundUp_spec roundUp_sizeAdd)

/-! ## The packets of a program -/

/-- What a program does with a packet. -/
inductive Use (φ : Type) where
  | init
  | call (c : Call φ)
  | parse (buffer : List UInt8) (size : Nat)

section Uses

variable {φ : Type} (k : Kind φ)

/-- The packet afterwards, whatever the call returned. -/
def use (packet : ReportPacketT φ) : Use φ → Exec (ReportPacketT φ)
  | .init => .ok (init k packet)
  | .call c => call k packet c
  | .parse buffer size => do
    let (_, packet) ← parse k packet buffer size
    .ok packet

/-- The size of a packet in bytes, as a natural number. -/
def need (packet : ReportPacketT φ) : Nat :=
  roundUp (k.fixedSize + packet.header.count.toNat * 24 + packet.extSize)

/-- The packet has an extension, which ends on a word where its size is checked. -/
structure Extended (packet : ReportPacketT φ) (ext : List UInt8) : Prop where
  extSize : packet.extSize = ext.length
  extData : ext ≠ [] → packet.extData = .obj ext
  checked : k.checksExt = true → ext.length % 4 = 0

end Uses

variable {φ : Type} {k : Kind φ} {packet packet' : ReportPacketT φ} {reports : List RtcpReportT}
  {ext : List UInt8}

theorem extended_create (k : Kind φ) : Extended k (create k) [] :=
  ⟨rfl, fun hne => absurd rfl hne, fun _ => rfl⟩

theorem Extended.lists (h : Extended k packet ext)
    (hreports : Held packet.header.count packet.reports reports) : Lists packet reports ext :=
  ⟨hreports, h.extSize, h.extData⟩

/-- The header, the fields and the reports have no part in it. -/
theorem Extended.of_eq (h : Extended k packet ext) (hsize : packet'.extSize = packet.extSize)
    (hdata : packet'.extData = packet.extData) : Extended k packet' ext := by
  constructor
  · rw [hsize]
    exact h.extSize
  · rw [hdata]
    exact h.extData
  · exact h.checked

theorem Extended.withLength (h : Extended k packet ext) (length : UInt16) :
    Extended k (withLength packet length) ext :=
  h.of_eq (withLength_extSize ..) (withLength_extData ..)

/-! ### The mutators -/

theorem addReport_extended (h : Extended k packet ext) {report : RtcpReportT} {r : Int}
    (hrun : addReport k packet report = .ok (r, packet')) : Extended k packet' ext := by
  rw [addReport_eq] at hrun
  obtain ⟨added, -, hrun⟩ := bind_eq_ok.mp hrun
  cases added with
  | none =>
    cases hrun
    exact h
  | some added =>
    cases hrun
    rw [updateLength]
    apply Extended.withLength
    exact h.of_eq rfl rfl

theorem removeReport_extended (h : Extended k packet ext) {srcId : UInt32} {behind : List UInt32}
    (hrun : removeReport k packet srcId behind = .ok packet') : Extended k packet' ext := by
  obtain ⟨found, -, hrun⟩ := bind_eq_ok.mp hrun
  cases found with
  | none =>
    cases hrun
    exact h
  | some offset =>
    obtain ⟨_, -, hrun⟩ := bind_eq_ok.mp hrun
    obtain ⟨_, -, hrun⟩ := bind_eq_ok.mp hrun
    cases hrun
    rw [updateLength]
    apply Extended.withLength
    exact h.of_eq rfl rfl

theorem setExt_extended (h : Extended k packet ext) (data : List UInt8) :
    ∃ ext', Extended k (setExt k packet data).2 ext' := by
  rw [setExt]
  by_cases hrefused : (k.checksExt && decide (data.length % 4 ≠ 0)) = true
  · rw [if_pos hrefused]
    exact ⟨ext, h⟩
  · rw [if_neg hrefused]
    cases packet.extData.isSet with
    | true => exact ⟨ext, h⟩
    | false =>
      rw [if_neg (by decide), updateLength]
      refine ⟨data, Extended.withLength ⟨rfl, fun _ => rfl, fun hk => ?_⟩ _⟩
      by_contra hmod
      exact hrefused (by rw [hk, decide_eq_true hmod]; rfl)

theorem clearExt_extended (h : Extended k packet ext) :
    ∃ ext', Extended k (clearExt k packet) ext' := by
  rw [clearExt, updateLength]
  cases packet.extData.isSet with
  | true =>
    rw [if_pos rfl]
    exact ⟨[], Extended.withLength ⟨rfl, fun hne => absurd rfl hne, fun _ => rfl⟩ _⟩
  | false =>
    rw [if_neg (by decide)]
    exact ⟨ext, h.withLength _⟩

theorem call_extended (h : Extended k packet ext) {c : Call φ}
    (hrun : call k packet c = .ok packet') : ∃ ext', Extended k packet' ext' := by
  cases c with
  | mutate op =>
    cases op with
    | addReport report =>
      obtain ⟨⟨r, packet₁⟩, hadd, hrun⟩ := bind_eq_ok.mp hrun
      cases hrun
      exact ⟨ext, addReport_extended h hadd⟩
    | setExt data =>
      cases hrun
      exact setExt_extended h data
    | clearExt =>
      cases hrun
      exact clearExt_extended h
    | assign fields =>
      cases hrun
      exact ⟨ext, h.of_eq rfl rfl⟩
  | removeReport srcId behind => exact ⟨ext, removeReport_extended h hrun⟩

/-! ### The parser -/

/-- The reports end where the words of the packet do. -/
theorem parseReports_offset {count offset : Nat} {buffer : List UInt8} {size : Nat}
    (hrun : parseReports k count buffer size = .ok (.next (offset, reports))) :
    offset = k.fixedSize + 24 * count := by
  refine forLeave_returns (I := fun i s => s.1 = k.fixedSize + 24 * i) rfl ?_ hrun
  intro i s s' _ hs hbody
  obtain ⟨report, -, hbody⟩ := bind_eq_ok.mp hbody
  obtain ⟨⟨r, report'⟩, -, hbody⟩ := bind_eq_ok.mp hbody
  obtain ⟨reports', -, hbody⟩ := bind_eq_ok.mp hbody
  by_cases hr : r < 0
  · rw [if_pos hr] at hbody
    cases hbody
  · rw [if_neg hr] at hbody
    cases hbody
    rw [hs, sizeofReport]
    omega

theorem parseExt_extended {buffer : List UInt8} {offset : Nat} (hoffset : offset % 4 = 0) {r : Int}
    (hrun : parseExt packet buffer offset = .ok (r, packet')) :
    ∃ ext', Extended k packet' ext' := by
  have hmod : sizeSub ((packet.header.length.toNat + 1) * 4) offset % 4 = 0 := by
    unfold sizeSub
    omega
  rw [parseExt] at hrun
  by_cases hzero : sizeSub ((packet.header.length.toNat + 1) * 4) offset ≠ 0
  · rw [if_pos hzero] at hrun
    obtain ⟨ext, hslice, hrun⟩ := bind_eq_ok.mp hrun
    cases hrun
    have hlen := length_of_slice hslice
    exact ⟨ext, hlen.symm, fun _ => rfl, fun _ => hlen ▸ hmod⟩
  · rw [if_neg hzero] at hrun
    cases hrun
    exact ⟨[], not_not.mp hzero, fun hne => absurd rfl hne, fun _ => rfl⟩

/-- A parser that fails has not come to the extension. -/
theorem parse_extended (h : Extended k packet ext) {buffer : List UInt8} {size : Nat} {r : Int}
    (hrun : parse k packet buffer size = .ok (r, packet')) : ∃ ext', Extended k packet' ext' := by
  have hk := k.length_eq
  obtain ⟨⟨pt, header⟩, -, hrun⟩ := bind_eq_ok.mp hrun
  dsimp only at hrun
  by_cases hpt : pt ≠ k.pt.toNat
  · rw [if_pos hpt] at hrun
    cases hrun
    exact ⟨ext, h.of_eq rfl rfl⟩
  · rw [if_neg hpt] at hrun
    obtain ⟨fields, -, hrun⟩ := bind_eq_ok.mp hrun
    by_cases hcount : header.count ≠ 0
    · rw [if_pos hcount] at hrun
      obtain ⟨loop, hloop, hrun⟩ := bind_eq_ok.mp hrun
      cases loop with
      | leave reports =>
        cases hrun
        exact ⟨ext, h.of_eq rfl rfl⟩
      | next s =>
        obtain ⟨offset, reports⟩ := s
        have hoffset := parseReports_offset hloop
        exact parseExt_extended (by omega) hrun
    · rw [if_neg hcount] at hrun
      exact parseExt_extended (by omega) hrun

/-! ### Any use -/

theorem use_extended (h : Extended k packet ext) {u : Use φ} (hrun : use k packet u = .ok packet') :
    ∃ ext', Extended k packet' ext' := by
  cases u with
  | init =>
    cases hrun
    exact ⟨ext, h.of_eq rfl rfl⟩
  | call c => exact call_extended h hrun
  | parse buffer size =>
    obtain ⟨⟨r, packet₁⟩, hparse, hrun⟩ := bind_eq_ok.mp hrun
    cases hrun
    exact parse_extended h hparse

theorem reached_extended (h : Reached (use k) (create k) packet) :
    ∃ ext, Extended k packet ext := by
  refine h.invariant (I := fun packet => ∃ ext, Extended k packet ext) ⟨[], extended_create k⟩ ?_
  intro _ _ _ hs hrun
  obtain ⟨ext, hext⟩ := hs
  exact use_extended hext hrun

/-! ## What the serializer shows -/

/-- The bytes that a serialized packet shows are its own. -/
def OwnBytes (k : Kind φ) (packet : ReportPacketT φ) : Prop :=
  Independent (runOf fun buffer => serialize k packet buffer buffer.length)
    (Enough (.ok (need k packet)))

theorem size_eq_need (h : Extended k packet ext) (hlt : need k packet < 2 ^ 64) :
    size k packet = need k packet := by
  have hk := k.length_eq
  have hset : packet.extSize ≠ 0 → packet.extData.isSet = true := by
    intro hne
    rw [h.extSize, Ne, List.length_eq_zero_iff] at hne
    rw [h.extData hne, Ptr.isSet_obj]
  have hmod : (k.fixedSize + packet.header.count.toNat * 24) % 4 = 0 := by omega
  exact roundUp_sizeAdd hmod hset hlt

/-! ### A packet that has its reports -/

/-- It shows its own bytes only, unless its extension ends inside a word. The size of two
gibibytes and more comes back as another number. -/
theorem ownBytes_held_iff (h : Extended k packet ext)
    (hheld : Held packet.header.count packet.reports reports) (hlt : need k packet < 2 ^ 64) :
    OwnBytes k packet ↔ packet.extSize % 4 = 0 ∨ 2 ^ 31 ≤ need k packet := by
  have hk := k.length_eq
  have hneed : need k packet = roundUp (k.fixedSize + reports.length * 24 + ext.length) := by
    rw [need, hheld.count, h.extSize]
  have hround := roundUp_spec (k.fixedSize + reports.length * 24 + ext.length)
  rw [← hneed] at hround
  have hsize := size_eq_need h hlt
  have hrun (buffer : List UInt8)
      (henough : need k packet ≤ buffer.length ∧ buffer.length < 2 ^ 64) :
      serialize k packet buffer buffer.length = .ok (castInt (need k packet),
        written k packet reports ext ++ buffer.drop (written k packet reports ext).length) := by
    rw [← hsize] at henough ⊢
    exact serialize_lists (h.lists hheld) (by omega) henough.1 henough.2 henough.1
  rw [OwnBytes, enough_ok, independent_iff hrun (show (0 : UInt8) ≠ 1 by decide)
    ⟨Nat.le_refl _, hlt⟩ (toNat_castInt_le _), length_written, toNat_castInt_le_iff (by omega),
    h.extSize]
  omega

/-! ### Any packet -/

/-- The packet without the reports that it does not count. -/
def counted (packet : ReportPacketT φ) : ReportPacketT φ :=
  { packet with reports := .obj (packet.reports.elements.take packet.header.count.toNat) }

/-- They are not serialized. -/
theorem serialize_counted (hcount : Covered packet.header.count packet.reports)
    (buffer : List UInt8) (size : Nat) :
    serialize k packet buffer size = serialize k (counted packet) buffer size := by
  have hreports (buffer : List UInt8) :
      serializeReports k packet buffer size = serializeReports k (counted packet) buffer size := by
    apply forLeave_congr
    intro i s hi
    exact (hcount.bind_load hi _).trans rfl
  rw [serialize, serialize]
  simp only [hreports]
  rfl

/-- A serializer that returns has found as many reports as the packet counts. -/
theorem count_le_of_serialize (h : Extended k packet ext) {buffer bytes : List UInt8} {r : Int}
    (henough : need k packet ≤ buffer.length ∧ buffer.length < 2 ^ 64)
    (hrun : serialize k packet buffer buffer.length = .ok (r, bytes)) :
    Covered packet.header.count packet.reports := by
  have hsize := size_eq_need h (by omega)
  have hround := roundUp_spec (k.fixedSize + packet.header.count.toNat * 24 + packet.extSize)
  rw [← need] at hround
  rw [serialize, if_neg (by omega)] at hrun
  obtain ⟨⟨r, buffer₁⟩, hheader, hrun⟩ := bind_eq_ok.mp hrun
  have hk := four_le_fixedSize k
  rw [rtcpHeaderSerialize_eq _ (by omega)] at hheader
  obtain ⟨_, -, hheader⟩ := bind_eq_ok.mp hheader
  cases hheader
  dsimp only at hrun
  rw [if_neg (by decide)] at hrun
  obtain ⟨buffer₂, -, hrun⟩ := bind_eq_ok.mp hrun
  obtain ⟨loop, hloop, -⟩ := bind_eq_ok.mp hrun
  have hend := forLeave_outcome
    (I := fun i s => s.1 = k.fixedSize + 24 * i ∧ i ≤ packet.reports.elements.length)
    (Q := fun _ => False) ⟨rfl, Nat.zero_le _⟩ ?next ?leave hloop
  · obtain ⟨s, -, -, hle⟩ | ⟨_, -, hfalse⟩ := hend
    · exact hle
    · exact hfalse.elim
  case next =>
    intro i s s' hi hs hbody
    obtain ⟨reports, hderef, hbody⟩ := bind_eq_ok.mp hbody
    obtain ⟨report, hload, hbody⟩ := bind_eq_ok.mp hbody
    rw [rtcpReportSerialize_eq _ _ (by rw [sizeSub_of_le (by omega) (by omega)]; omega),
      bind_assoc] at hbody
    obtain ⟨_, -, hbody⟩ := bind_eq_ok.mp hbody
    rw [ok_bind] at hbody
    dsimp only at hbody
    rw [if_neg (by decide)] at hbody
    cases hbody
    obtain ⟨hlt, -⟩ := load_eq_ok hload
    rw [Ptr.deref_eq_ok hderef, Ptr.elements_obj, hs.1]
    exact ⟨rfl, hlt⟩
  case leave =>
    intro i s s' hi hs hbody
    obtain ⟨reports, -, hbody⟩ := bind_eq_ok.mp hbody
    obtain ⟨report, -, hbody⟩ := bind_eq_ok.mp hbody
    rw [rtcpReportSerialize_eq _ _ (by rw [sizeSub_of_le (by omega) (by omega)]; omega),
      bind_assoc] at hbody
    obtain ⟨_, -, hbody⟩ := bind_eq_ok.mp hbody
    rw [ok_bind] at hbody
    dsimp only at hbody
    rw [if_neg (by decide)] at hbody
    cases hbody

/-- A packet shows its own bytes only, if it has the reports that it counts and its extension
does not end inside a word. No buffer is large enough for one of sixteen exbibytes. -/
theorem ownBytes_iff (h : Extended k packet ext) :
    OwnBytes k packet ↔ 2 ^ 64 ≤ need k packet ∨
      Covered packet.header.count packet.reports ∧
        (packet.extSize % 4 = 0 ∨ 2 ^ 31 ≤ need k packet) := by
  by_cases hlt : need k packet < 2 ^ 64
  · rw [or_iff_right (Nat.not_le.mpr hlt)]
    by_cases hcount : Covered packet.header.count packet.reports
    · have hsame : OwnBytes k packet ↔ OwnBytes k (counted packet) :=
        independent_congr fun xs _ => serialize_counted hcount xs xs.length
      rw [and_iff_right hcount, hsame]
      have hext : Extended k (counted packet) ext := h.of_eq rfl rfl
      exact ownBytes_held_iff hext (hcount.held) hlt
    · refine iff_of_false (fun hown => hcount ?_) (fun hcond => hcount hcond.1)
      obtain ⟨buffer, ⟨r, bytes⟩, hlen, hrun⟩ := exists_run_of_independent hown hlt 0
      exact count_le_of_serialize h ⟨hlen.ge, by omega⟩ hrun
  · have hlarge := Nat.le_of_not_lt hlt
    exact iff_of_true (independent_of_large hlarge) (.inl hlarge)

end RtpSdr.Rtp.ReportOutput
