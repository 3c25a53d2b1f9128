import RtpSdr.Rtp.RtcpReport
import RtpSdr.Rtp.SourceLoss

/-!
# From a source to the reports about it

`rtcp_report_init` copies the cumulative loss of a source, and the peer reads what was
copied. A loss beyond the 24 bits of the field is another number before it gets there.
-/
namespace RtpSdr.Rtp.ReportInit

open RtpSdr.Lib.Checked
open RtpSdr.Lib.Memory
open RtpSdr.Rtp.Util
open RtpSdr.Rtp.RtcpHeader
open RtpSdr.Rtp.RtcpReport
open RtpSdr.Rtp.Source
open RtpSdr.Rtp.SourceLoss

section Source

/-- The lower 16 bits of the seconds and the upper 16 bits of the fraction. -/
def ntpShort (ntp : NtpTv) : UInt32 := (ntp.sec <<< 16) ||| (ntp.frac >>> 16)

/-- `ntpDiff` is `ntp_diff`, which goes through `double`. The delay is left as it was where no SR
has come or no time is given. -/
def rtcpReportInit (ntpDiff : NtpTv → NtpTv → NtpTv) (report : RtcpReportT) (s : RtpSourceT)
    (tc : NtpTv) : RtcpReportT :=
  let report := { report with
    ssrc := s.id
    fraction := s.fraction
    lost := s.lost
    lastSeq := s.maxSeq.toUInt32
    jitter := s.jitter.toUInt32
    lsr := ntpShort s.lsr }
  if report.lsr ≠ 0 ∧ (tc.sec ≠ 0 ∨ tc.frac ≠ 0) then
    { report with dlsr := ntpShort (ntpDiff tc s.lsr) }
  else report

end Source

variable (ntpDiff : NtpTv → NtpTv → NtpTv)

theorem rtcpReportInit_lost (report : RtcpReportT) (s : RtpSourceT) (tc : NtpTv) :
    (rtcpReportInit ntpDiff report s tc).lost = s.lost := by
  rw [rtcpReportInit]
  dsimp only
  split
  · rfl
  · rfl

theorem rtcpReportSerialize_room (report : RtcpReportT) {buffer : List UInt8}
    (hroom : 24 ≤ buffer.length) : rtcpReportSerialize report buffer 0 buffer.length
      = .ok (24, reportBytes report ++ buffer.drop 24) := by
  have hwrite : blit buffer 0 (reportBytes report)
      = .ok (reportBytes report ++ buffer.drop 24) := by
    rw [blit_of_le (by rw [length_reportBytes]; omega), put_zero, length_reportBytes]
  rw [rtcpReportSerialize_eq _ _ hroom, bind_of_ok hwrite]

/-- A report goes through any buffer that has room for it. -/
theorem rtcpReport_transport (report received : RtcpReportT) {buffer : List UInt8}
    (hroom : 24 ≤ buffer.length) :
    ∃ sent, rtcpReportSerialize report buffer 0 buffer.length = .ok (24, sent) ∧
      rtcpReportParse received sent 0 24 = .ok (RTCP_OK, report) := by
  refine ⟨_, rtcpReportSerialize_room report hroom, ?_⟩
  exact rtcpReportParse_drop received (Nat.le_refl 24) List.drop_zero

/-! ## The loss that is reported -/

/-- The packets lost, within the range of the field. -/
def clampLoss (d : Int) : Int := max (-2 ^ 23) (min d (2 ^ 23 - 1))

/-- The update stores the clamped loss, and so do the reports made of the source and those that
the peer reads. -/
def ReportsLoss (s : RtpSourceT) : Prop :=
  ∃ s', rtpSourceUpdateLost s = .ok s' ∧
    s'.lost.toInt = clampLoss (expectedCount s.toRtpSource - s.received) ∧
    ∀ (report received : RtcpReportT) (tc : NtpTv) (buffer : List UInt8), 24 ≤ buffer.length →
      ∃ sent received', rtcpReportSerialize (rtcpReportInit ntpDiff report s' tc) buffer 0
          buffer.length = .ok (24, sent) ∧
        rtcpReportParse received sent 0 24 = .ok (RTCP_OK, received') ∧
        received'.lost.toInt = clampLoss (expectedCount s.toRtpSource - s.received)

/-- The field holds the clamped number: those in its range, and of those below the ones that leave
the remainder of the least. -/
theorem toInt_eq_clampLoss {d : Int} (hhigh : d < 2 ^ 23) :
    (BitVec.ofInt 24 d).toInt = clampLoss d ↔ -2 ^ 23 ≤ d ∨ d % 2 ^ 24 = 2 ^ 23 := by
  rw [BitVec.toInt_ofInt, clampLoss, Int.bmod_def]
  omega

/-- Packets since the validation only, and no report. -/
structure Unreported (s : RtpSource) : Prop where
  expectedPrior : s.expectedPrior = 0
  receivedPrior : s.receivedPrior = 0
  received : 0 ≤ s.received
  base : s.baseSeq.toNat < LIBRTP_SEQ_MOD

theorem unreported_reset (s : RtpSource) (seq : UInt16) : Unreported (rtpSourceResetSeq s seq) := by
  refine ⟨rfl, rfl, Int.le_refl 0, ?_⟩
  have hbase : (rtpSourceResetSeq s seq).baseSeq.toNat = seq.toNat := UInt16.toNat_toUInt32 seq
  rw [hbase]
  exact seq.toNat_lt

theorem updateSeq_unreported {s s' : RtpSource} {seq : UInt16} {r : Int} (h : Unreported s)
    (hcall : rtpSourceUpdateSeq s seq = .ok (r, s')) : Unreported s' := by
  have hreset := unreported_reset s seq
  have hnext : 0 ≤ s.received + 1 := Int.le_add_one h.received
  by_cases hprob : s.probation > 0
  · rcases updateSeq_probation hprob hcall with ⟨-, hs'⟩ | ⟨-, -, hs'⟩
    · rw [hs']
      exact ⟨hreset.expectedPrior, hreset.receivedPrior, Int.one_nonneg, hreset.base⟩
    · rw [hs']
      exact ⟨h.expectedPrior, h.receivedPrior, h.received, h.base⟩
  · rcases updateSeq_valid (Int.not_lt.mp hprob) hcall with
      ⟨-, -, hs'⟩ | ⟨-, -, hs'⟩ | ⟨-, -, -, hs'⟩ | ⟨-, -, -, hs'⟩
    · rw [hs']
      exact ⟨h.expectedPrior, h.receivedPrior, hnext, h.base⟩
    · rw [hs']
      exact ⟨h.expectedPrior, h.receivedPrior, hnext, h.base⟩
    · rw [hs']
      exact ⟨hreset.expectedPrior, hreset.receivedPrior, Int.one_nonneg, hreset.base⟩
    · rw [hs']
      exact ⟨h.expectedPrior, h.receivedPrior, h.received, h.base⟩

theorem receive_unreported {s : RtpSource} {t : RtpSource} {log : List Int} (id : UInt32)
    (first : UInt16) (seqs : List UInt16)
    (hrun : runAll receive (rtpSourceInit s id first, []) seqs = .ok (t, log)) : Unreported t := by
  refine runAll_history (I := fun _ x => Unreported x.1) ?_ ?_ seqs hrun
  · have hreset := unreported_reset s first
    exact ⟨rfl, rfl, Int.le_refl 0, hreset.base⟩
  · intro _ x y seq _ h hcall
    obtain ⟨⟨r, u⟩, hupdate, hret⟩ := bind_eq_ok.mp hcall
    cases hret
    exact updateSeq_unreported h hupdate

/-- A loss that the field holds, or one far below that looks like the least. -/
def Representable (d : Int) : Prop :=
  d < 2 ^ 23 ∧ (-2 ^ 23 ≤ d ∨ (-2 ^ 31 ≤ d ∧ d % 2 ^ 24 = 2 ^ 23))

variable {s : RtpSourceT}

theorem expectedCount_low (h : Unreported s.toRtpSource) :
    -2 ^ 31 ≤ expectedCount s.toRtpSource := by
  have hbase := h.base
  rw [LIBRTP_SEQ_MOD] at hbase
  rw [expectedCount]
  omega

/-- The difference of the counts must be an `int`. -/
theorem updateLost_low (h : Unreported s.toRtpSource)
    (hexpected : expectedCount s.toRtpSource < 2 ^ 31) (hreceived : s.received < 2 ^ 31)
    (hlow : expectedCount s.toRtpSource - s.received < -2 ^ 31) :
    rtpSourceUpdateLost s = .error .overflow := by
  have hexpectedLow := expectedCount_low h
  have hreceivedLow := h.received
  rw [rtpSourceUpdateLost]
  simp only [castInt_expected hexpectedLow hexpected, h.expectedPrior, h.receivedPrior,
    Int.sub_zero, int32_of_lt hexpectedLow hexpected,
    int32_of_lt (n := s.received) (by omega) hreceived, ok_bind]
  rw [int32, if_neg (by omega), error_bind]

/-- The update of a source that no report has seen. -/
theorem updateLost_unreported (h : Unreported s.toRtpSource)
    (hexpected : expectedCount s.toRtpSource < 2 ^ 31) (hreceived : s.received < 2 ^ 31)
    (hlow : -2 ^ 31 ≤ expectedCount s.toRtpSource - s.received) :
    (expectedCount s.toRtpSource - s.received < 2 ^ 23 → ∃ s', rtpSourceUpdateLost s = .ok s' ∧
      s'.lost = BitVec.ofInt 24 (expectedCount s.toRtpSource - s.received)) ∧
    (¬ expectedCount s.toRtpSource - s.received < 2 ^ 23 →
      rtpSourceUpdateLost s = .error .overflow) := by
  have hexpectedLow := expectedCount_low h
  have hreceivedLow := h.received
  have hrun := updateLost_ok (s := s) (e := expectedCount s.toRtpSource) (r := s.received) rfl
    (by rw [h.expectedPrior, Int.sub_zero]) (by rw [h.receivedPrior, Int.sub_zero])
    hexpectedLow hexpected (by omega) (by omega) (by omega) (by omega)
  dsimp only at hrun
  constructor
  · intro hhigh
    by_cases hnone : expectedCount s.toRtpSource = 0 ∨ expectedCount s.toRtpSource - s.received ≤ 0
    · rw [if_pos hnone] at hrun
      exact ⟨_, hrun, rfl⟩
    · rw [if_neg hnone, int32_of_lt (by omega) (by omega), ok_bind] at hrun
      exact ⟨_, hrun, rfl⟩
  · intro hhigh
    rw [if_neg (by omega), int32, if_neg (by omega), error_bind] at hrun
    exact hrun

theorem reportsLoss_iff_representable (h : Unreported s.toRtpSource)
    (hexpected : expectedCount s.toRtpSource < 2 ^ 31) (hreceived : s.received < 2 ^ 31) :
    ReportsLoss ntpDiff s ↔ Representable (expectedCount s.toRtpSource - s.received) := by
  by_cases hlow : -2 ^ 31 ≤ expectedCount s.toRtpSource - s.received
  · obtain ⟨hok, hover⟩ := updateLost_unreported h hexpected hreceived hlow
    by_cases hhigh : expectedCount s.toRtpSource - s.received < 2 ^ 23
    · obtain ⟨t, hrun, hlost⟩ := hok hhigh
      have hclamp := toInt_eq_clampLoss hhigh
      rw [← hlost] at hclamp
      constructor
      · intro hreports
        obtain ⟨s', hrun', hexact, -⟩ := hreports
        obtain rfl := Except.ok.inj (hrun.symm.trans hrun')
        exact ⟨hhigh, (hclamp.mp hexact).imp_right fun hmod => ⟨hlow, hmod⟩⟩
      · intro hfits
        have hexact := hclamp.mpr (hfits.2.imp_right And.right)
        refine ⟨t, hrun, hexact, fun report received tc buffer hroom => ?_⟩
        obtain ⟨sent, hsent, hparsed⟩ :=
          rtcpReport_transport (rtcpReportInit ntpDiff report t tc) received hroom
        refine ⟨sent, _, hsent, hparsed, ?_⟩
        rw [rtcpReportInit_lost]
        exact hexact
    · constructor
      · intro hreports
        obtain ⟨s', hrun, -⟩ := hreports
        rw [hover hhigh] at hrun
        cases hrun
      · intro hfits
        exact absurd hfits.1 hhigh
  · constructor
    · intro hreports
      obtain ⟨s', hrun, -⟩ := hreports
      rw [updateLost_low h hexpected hreceived (Int.not_le.mp hlow)] at hrun
      cases hrun
    · intro hfits
      exfalso
      obtain ⟨-, hnear | ⟨hfar, -⟩⟩ := hfits
      · omega
      · omega

/-- After any run of packets on an initialised source, validated or not, the loss that it reports is
the clamped one exactly when the field can hold it. -/
theorem reportsLoss_iff {s₀ : RtpSourceT} {t : RtpSource} {log : List Int} (id : UInt32)
    (first : UInt16) (seqs : List UInt16)
    (hrun : runAll receive (rtpSourceInit s₀.toRtpSource id first, []) seqs = .ok (t, log))
    (hexpected : expectedCount t < 2 ^ 31) (hreceived : t.received < 2 ^ 31) :
    ReportsLoss ntpDiff { s₀ with toRtpSource := t }
      ↔ Representable (expectedCount t - t.received) :=
  reportsLoss_iff_representable ntpDiff (receive_unreported id first seqs hrun) hexpected hreceived

/-- Two packets validate the source, two of the next three are lost. -/
theorem reportsLoss_iff_gap :
    ReportsLoss (fun tc _ => tc)
        { created with toRtpSource := { validated with maxSeq := 104, received := 2 } }
      ↔ Representable (expectedCount { validated with maxSeq := 104, received := 2 } - 2) :=
  @reportsLoss_iff (fun tc _ => tc) created _ _ 7 100 [100, 101, 104] rfl (by decide) (by decide)

/-- A validated source stays one in any run. -/
theorem probation_run {s t : RtpSource} {log log' : List Int} (hvalid : s.probation ≤ 0)
    (seqs : List UInt16) (hrun : runAll receive (s, log) seqs = .ok (t, log')) :
    t.probation = s.probation := by
  refine runAll_history (I := fun _ x => x.1.probation = s.probation) rfl ?_ seqs hrun
  intro _ x y seq _ h hcall
  obtain ⟨⟨r, u⟩, hupdate, hret⟩ := bind_eq_ok.mp hcall
  cases hret
  exact (probation_updateSeq (by omega) hupdate).trans h

/-- So many packets are skipped that the loss does not fit into 24 bits. -/
theorem reportsLoss_fails :
    ¬ ∀ (ntpDiff : NtpTv → NtpTv → NtpTv) (s₀ : RtpSourceT) (t : RtpSource) (log : List Int)
        (id : UInt32) (first : UInt16) (seqs : List UInt16),
      runAll receive (rtpSourceInit s₀.toRtpSource id first, []) seqs = .ok (t, log) →
      t.probation = 0 → expectedCount t < 2 ^ 31 → t.received < 2 ^ 31 →
      ReportsLoss ntpDiff { s₀ with toRtpSource := t } := by
  intro h
  let seen : RtpSource := { rtpSourceResetSeq (rtpSourceInit rtpSourceCreate 7 1) 2 with
    probation := 0, received := 1 }
  have hbefore : runAll receive (rtpSourceInit rtpSourceCreate 7 1, []) [1, 2]
      = .ok (seen, [RTP_ERROR, RTP_OK]) := rfl
  have htracks : Tracks seen 2 ⟨2, 1⟩ := ⟨Int.le_refl 0, rfl, rfl, rfl, rfl⟩
  obtain ⟨hin, hhighest, hlen⟩ := climb_counter 4099 (x := 2) (c := ⟨2, 1⟩) rfl
  obtain ⟨t, hafter, hend⟩ := tracks_run _ htracks hin (by rw [hlen]; decide) [RTP_ERROR, RTP_OK]
  have hprob := probation_run (Int.le_refl 0) _ hafter
  have hmax := hend.maxSeq
  have hcycles := hend.cycles
  have hreceived := hend.received
  rw [hhighest] at hmax hcycles
  rw [Counter.received_run, hlen] at hreceived
  change t.received = ((1 + 4099 : Nat) : Int) at hreceived
  have hcount : expectedCount t = 2048 * 4099 + 1 := by
    rw [expectedCount, hend.base]
    change (t.cycles.toNat : Int) + t.maxSeq.toNat - 2 + 1 = _
    omega
  have hrun := (runAll_append ((climb 2 4099).map wire) hbefore).trans hafter
  have hexpected : expectedCount t < 2 ^ 31 := by omega
  have hsmall : t.received < 2 ^ 31 := by omega
  have hreports := h (fun tc _ => tc) created t _ 7 1 _ hrun hprob hexpected hsmall
  have hfits := (reportsLoss_iff_representable (s := { created with toRtpSource := t }) _
    (receive_unreported 7 1 _ hrun) hexpected hsmall).mp hreports
  have hhigh := hfits.1
  change expectedCount t - t.received < 2 ^ 23 at hhigh
  omega

end RtpSdr.Rtp.ReportInit
