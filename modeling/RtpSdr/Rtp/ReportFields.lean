import RtpSdr.Rtp.ReportInit

/-!
# The highest sequence number and the delay of a report

The block that goes out has 32 bits for the extended highest sequence number; `rtcp_report_init`
stores the 16 bits of `max_seq` there, so a report says what it should as long as the
numbers have not wrapped. The delay is assigned on one branch only, and what the
structure held before goes out on the other.
-/
namespace RtpSdr.Rtp.ReportFields

open RtpSdr.Lib.Checked
open RtpSdr.Lib.Memory
open RtpSdr.Rtp.Util
open RtpSdr.Rtp.RtcpHeader
open RtpSdr.Rtp.RtcpReport
open RtpSdr.Rtp.Source
open RtpSdr.Rtp.Resync
open RtpSdr.Rtp.SourceLoss
open RtpSdr.Rtp.ReportInit

variable (ntpDiff : NtpTv → NtpTv → NtpTv)

theorem rtcpReportInit_lastSeq (report : RtcpReportT) (s : RtpSourceT) (tc : NtpTv) :
    (rtcpReportInit ntpDiff report s tc).lastSeq = s.maxSeq.toUInt32 := by
  rw [rtcpReportInit]
  dsimp only
  split
  · rfl
  · rfl

/-! ## The extended highest sequence number -/

/-- The reports made of the source and those that the peer reads carry `cycles + max_seq`. -/
def ReportsExtended (s : RtpSourceT) : Prop :=
  ∀ (report received : RtcpReportT) (tc : NtpTv) (buffer : List UInt8), 24 ≤ buffer.length →
    (rtcpReportInit ntpDiff report s tc).lastSeq = s.cycles + s.maxSeq.toUInt32 ∧
    ∃ sent received', rtcpReportSerialize (rtcpReportInit ntpDiff report s tc) buffer 0
        buffer.length = .ok (24, sent) ∧
      rtcpReportParse received sent 0 24 = .ok (RTCP_OK, received') ∧
      received'.lastSeq = s.cycles + s.maxSeq.toUInt32

theorem reportsExtended_iff_cycles (s : RtpSourceT) :
    ReportsExtended ntpDiff s ↔ s.cycles = 0 := by
  constructor
  · intro h
    obtain ⟨hstored, -⟩ := h zeroReport zeroReport ⟨0, 0⟩ (List.replicate 24 0) (by decide)
    rw [rtcpReportInit_lastSeq] at hstored
    exact (UInt32.add_eq_right (b := s.maxSeq.toUInt32)).mp hstored.symm
  · intro hcycles report received tc buffer hroom
    have hstored : (rtcpReportInit ntpDiff report s tc).lastSeq
        = s.cycles + s.maxSeq.toUInt32 := by
      rw [rtcpReportInit_lastSeq, hcycles, UInt32.zero_add]
    obtain ⟨sent, hsent, hparsed⟩ :=
      rtcpReport_transport (rtcpReportInit ntpDiff report s tc) received hroom
    exact ⟨hstored, sent, _, hsent, hparsed, hstored⟩

/-- `cycles` counts the wraps that the observer sees, also during probation. -/
def CountsWraps (x : RtpSourceT × Since) : Prop :=
  x.1.cycles.toNat = LIBRTP_SEQ_MOD * x.2.wraps % 2 ^ 32

theorem note_countsWraps {s s' : RtpSource} {b : Since} {seq : UInt16} {r : Int}
    (h : s.cycles.toNat = LIBRTP_SEQ_MOD * b.wraps % 2 ^ 32)
    (hcall : rtpSourceUpdateSeq s seq = .ok (r, s')) :
    s'.cycles.toNat = LIBRTP_SEQ_MOD * (b.note s seq r s').wraps % 2 ^ 32 := by
  rw [Since.note]
  by_cases hrestart : r = RTP_OK ∧ Restarted s seq s'
  · have hs' := hrestart.2
    rw [Restarted] at hs'
    rw [if_pos hrestart, hs']
    rfl
  · rw [if_neg hrestart]
    by_cases hsame : s'.cycles = s.cycles
    · rw [if_pos hsame, hsame]
      exact h
    · -- only a number that wraps raises `cycles` without a reset
      rw [if_neg hsame]
      by_cases hprob : s.probation > 0
      · rcases updateSeq_probation hprob hcall with ⟨hr, hs'⟩ | ⟨-, -, hs'⟩
        · refine absurd ⟨hr, ?_⟩ hrestart
          rw [Restarted, hs']
        · exact absurd (by rw [hs']) hsame
      · rcases updateSeq_valid (Int.not_lt.mp hprob) hcall with
          ⟨-, -, hs'⟩ | ⟨-, -, hs'⟩ | ⟨-, -, hr, hs'⟩ | ⟨-, -, -, hs'⟩
        · have hcycles : s'.cycles = if seq < s.maxSeq then
              s.cycles + UInt32.ofNat LIBRTP_SEQ_MOD else s.cycles := by rw [hs']
          by_cases hwrap : seq < s.maxSeq
          · rw [if_pos hwrap] at hcycles
            rw [hcycles, UInt32.toNat_add, h]
            change (65536 * b.wraps % 2 ^ 32 + 65536) % 2 ^ 32 = 65536 * (b.wraps + 1) % 2 ^ 32
            omega
          · rw [if_neg hwrap] at hcycles
            exact absurd hcycles hsame
        · exact absurd (by rw [hs']) hsame
        · refine absurd ⟨hr, ?_⟩ hrestart
          rw [Restarted, hs']
        · exact absurd (by rw [hs']) hsame

theorem watch_countsWraps {x x' : RtpSourceT × Since} {c : Call} (h : CountsWraps x)
    (hrun : watch x c = .ok x') : CountsWraps x' := by
  cases c with
  | updateSeq seq =>
    obtain ⟨⟨r, s'⟩, hcall, hrun⟩ := bind_eq_ok.mp hrun
    cases hrun
    exact note_countsWraps h hcall
  | updateLost =>
    obtain ⟨s', hcall, hrun⟩ := bind_eq_ok.mp hrun
    cases hrun
    have hcycles : s'.toRtpSource.cycles = x.1.cycles := by rw [updateLost_prior hcall]
    rw [CountsWraps, hcycles]
    exact h

theorem watch_run_countsWraps {s₀ : RtpSourceT} {x : RtpSourceT × Since} (id : UInt32)
    (first : UInt16) (calls : List Call)
    (hrun : runAll watch (start s₀ id first) calls = .ok x) : CountsWraps x := by
  have hstart : CountsWraps (start s₀ id first) := show (0 : Nat) = _ from rfl
  exact runAll_history (I := fun _ x => CountsWraps x) hstart
    (fun _ _ _ _ _ h hcall => watch_countsWraps h hcall) calls hrun

/-! ## Reports along a run -/

/-- Each number is at the one before it or ahead of it, with a permissible gap. -/
def InOrder : UInt16 → List UInt16 → Prop :=
  Along (fun _ seq => seq) fun last seq => (seq - last).toNat < LIBRTP_MAX_DROPOUT

/-- Of any two reports made along the run, the later one carries no smaller number. -/
def ReportsAscend (s : RtpSourceT) (seqs : List UInt16) : Prop :=
  ∀ xs ys, xs <+: ys → ys <+: seqs → ∀ t u log log',
    runAll receive (s.toRtpSource, []) xs = .ok (t, log) →
    runAll receive (s.toRtpSource, []) ys = .ok (u, log') →
    ∀ r r' tc tc', (rtcpReportInit ntpDiff r { s with toRtpSource := t } tc).lastSeq
      ≤ (rtcpReportInit ntpDiff r' { s with toRtpSource := u } tc').lastSeq

/-- Validated or not, a source takes over a number that is in order. -/
theorem updateSeq_inOrder {s s' : RtpSource} {seq : UInt16} {r : Int}
    (hin : (seq - s.maxSeq).toNat < LIBRTP_MAX_DROPOUT)
    (hcall : rtpSourceUpdateSeq s seq = .ok (r, s')) : s'.maxSeq = seq := by
  change udelta s seq < LIBRTP_MAX_DROPOUT at hin
  by_cases hprob : s.probation > 0
  · rcases updateSeq_probation hprob hcall with ⟨-, hs'⟩ | ⟨-, -, hs'⟩
    · rw [hs']
      rfl
    · rw [hs']
  · rcases updateSeq_valid (Int.not_lt.mp hprob) hcall with
      ⟨-, -, hs'⟩ | ⟨hlate, -, -⟩ | ⟨hjumps, -, -⟩ | ⟨hjumps, -, -⟩
    · rw [hs']
    · exact absurd (Nat.lt_trans hlate hin) (by decide)
    · exact absurd hin (Nat.not_lt.mpr hjumps.1)
    · exact absurd hin (Nat.not_lt.mpr hjumps.1)

theorem runAll_receive_inOrder {s t : RtpSource} {log log' : List Int} (xs ys : List UInt16)
    (hin : InOrder s.maxSeq (xs ++ ys)) (hrun : runAll receive (s, log) xs = .ok (t, log')) :
    (s.maxSeq :: (xs ++ ys))[xs.length]? = some t.maxSeq := by
  induction xs generalizing s log with
  | nil =>
    cases hrun
    rfl
  | cons seq xs ih =>
    obtain ⟨hseq, hin⟩ := hin
    obtain ⟨⟨s₁, log₁⟩, hcall, hrun⟩ := bind_eq_ok.mp hrun
    obtain ⟨⟨r, s₂⟩, hupdate, hret⟩ := bind_eq_ok.mp hcall
    cases hret
    have hmax := updateSeq_inOrder hseq hupdate
    rw [List.length_cons, List.getElem?_cons_succ, List.cons_append, ← hmax]
    exact ih (by rw [hmax]; exact hin) hrun

/-- Every prefix of a run that returns ends with a number of the run, or with the one before it. -/
theorem runAll_receive_take {s t : RtpSource} {log : List Int} {seqs : List UInt16}
    (hin : InOrder s.maxSeq seqs) (hrun : runAll receive (s, []) seqs = .ok (t, log)) {n : Nat}
    (hn : n ≤ seqs.length) :
    ∃ u log', runAll receive (s, []) (seqs.take n) = .ok (u, log') ∧
      (s.maxSeq :: seqs)[n]? = some u.maxSeq := by
  rw [← List.take_append_drop n seqs] at hin hrun
  obtain ⟨⟨u, log'⟩, hbefore⟩ := runAll_prefix hrun
  have hmax := runAll_receive_inOrder _ _ hin hbefore
  rw [List.take_append_drop, List.length_take, Nat.min_eq_left hn] at hmax
  exact ⟨u, log', hbefore, hmax⟩

theorem lastSeq_le_iff (s : RtpSourceT) (t u : RtpSource) (r r' : RtcpReportT) (tc tc' : NtpTv) :
    (rtcpReportInit ntpDiff r { s with toRtpSource := t } tc).lastSeq
        ≤ (rtcpReportInit ntpDiff r' { s with toRtpSource := u } tc').lastSeq
      ↔ t.maxSeq ≤ u.maxSeq := by
  rw [rtcpReportInit_lastSeq, rtcpReportInit_lastSeq, UInt32.le_iff_toNat_le,
    UInt16.toNat_toUInt32, UInt16.toNat_toUInt32, UInt16.le_iff_toNat_le]

/-- Reports along packets in order ascend exactly when the numbers do. -/
theorem reportsAscend_iff {s : RtpSourceT} {t : RtpSource} {log : List Int} {seqs : List UInt16}
    (hin : InOrder s.maxSeq seqs)
    (hrun : runAll receive (s.toRtpSource, []) seqs = .ok (t, log)) :
    ReportsAscend ntpDiff s seqs ↔ (s.maxSeq :: seqs).Pairwise (· ≤ ·) := by
  rw [List.pairwise_iff_getElem]
  constructor
  · intro hascend i j hi hj hij
    obtain ⟨u, log₁, hu, hmaxu⟩ := runAll_receive_take hin hrun (Nat.le_of_lt_succ hi)
    obtain ⟨v, log₂, hv, hmaxv⟩ := runAll_receive_take hin hrun (Nat.le_of_lt_succ hj)
    have hle := hascend _ _ (List.take_prefix_take_left (Nat.le_of_lt hij)) (List.take_prefix _ _)
      u v _ _ hu hv zeroReport zeroReport ⟨0, 0⟩ ⟨0, 0⟩
    rw [lastSeq_le_iff] at hle
    rw [List.getElem?_eq_getElem hi] at hmaxu
    rw [List.getElem?_eq_getElem hj] at hmaxv
    rwa [Option.some.inj hmaxu, Option.some.inj hmaxv]
  · intro hsorted xs ys hxs hys u v log₁ log₂ hu hv r r' tc tc'
    rw [lastSeq_le_iff]
    obtain ⟨zs, rfl⟩ := hxs
    obtain ⟨ws, rfl⟩ := hys
    have hmaxv := runAll_receive_inOrder (xs ++ zs) ws hin hv
    rw [List.append_assoc] at hin
    have hmaxu := runAll_receive_inOrder xs (zs ++ ws) hin hu
    rw [← List.append_assoc] at hmaxu
    obtain ⟨hi, hgetu⟩ := List.getElem?_eq_some_iff.mp hmaxu
    obtain ⟨hj, hgetv⟩ := List.getElem?_eq_some_iff.mp hmaxv
    by_cases hzs : zs = []
    · have heq : u.maxSeq = v.maxSeq := by
        rw [← hgetu, ← hgetv]
        simp only [hzs, List.append_nil]
      rw [heq]
      exact UInt16.le_refl _
    · have hlt : xs.length < (xs ++ zs).length := by
        have := List.length_pos_iff.mpr hzs
        rw [List.length_append]
        omega
      have hle := hsorted _ _ hi hj hlt
      rwa [hgetu, hgetv] at hle

/-- After any run of packets and updates of the statistics, the reports carry the extended number
exactly when the numbers wrapped a multiple of `2 ^ 16` times since the last reset. From there on,
the reports made along packets in order ascend exactly when these do not wrap. -/
theorem reportsExtended_iff {s₀ s : RtpSourceT} {b : Since} (id : UInt32) (first : UInt16)
    (calls : List Call) (hrun : runAll watch (start s₀ id first) calls = .ok (s, b)) :
    (ReportsExtended ntpDiff s ↔ LIBRTP_SEQ_MOD ∣ b.wraps) ∧
    ∀ (seqs : List UInt16) (t : RtpSource) (log : List Int), InOrder s.maxSeq seqs →
      runAll receive (s.toRtpSource, []) seqs = .ok (t, log) →
      (ReportsAscend ntpDiff s seqs ↔ (s.maxSeq :: seqs).Pairwise (· ≤ ·)) := by
  refine ⟨?_, fun seqs t log hin hafter => reportsAscend_iff ntpDiff hin hafter⟩
  have hcount : s.cycles.toNat = LIBRTP_SEQ_MOD * b.wraps % 2 ^ 32 :=
    watch_run_countsWraps id first calls hrun
  rw [LIBRTP_SEQ_MOD] at hcount ⊢
  rw [reportsExtended_iff_cycles, ← UInt32.toNat_inj, hcount]
  change 65536 * b.wraps % 2 ^ 32 = 0 ↔ 65536 ∣ b.wraps
  omega

/-- A source that has seen three numbers, the last of them the last before the wrap. -/
def beforeWrap : RtpSourceT :=
  { created with toRtpSource :=
    { rtpSourceResetSeq (rtpSourceInit rtpSourceCreate 7 65533) 65534 with
      probation := 0, maxSeq := 65535, received := 2 } }

theorem run_beforeWrap : runAll watch (start created 7 65533)
    [.updateSeq 65533, .updateSeq 65534, .updateSeq 65535] = .ok (beforeWrap, ⟨0, none⟩) := rfl

theorem reportsExtended_iff_beforeWrap :
    (ReportsExtended (fun tc _ => tc) beforeWrap ↔ LIBRTP_SEQ_MOD ∣ (⟨0, none⟩ : Since).wraps) ∧
    ∀ (seqs : List UInt16) (t : RtpSource) (log : List Int), InOrder beforeWrap.maxSeq seqs →
      runAll receive (beforeWrap.toRtpSource, []) seqs = .ok (t, log) →
      (ReportsAscend (fun tc _ => tc) beforeWrap seqs
        ↔ (beforeWrap.maxSeq :: seqs).Pairwise (· ≤ ·)) :=
  reportsExtended_iff _ 7 65533 _ run_beforeWrap

/-- The next number is zero. -/
theorem reportsExtended_fails :
    (¬ ∀ (ntpDiff : NtpTv → NtpTv → NtpTv) (s₀ s : RtpSourceT) (b : Since) (id : UInt32)
        (first : UInt16) (calls : List Call),
      runAll watch (start s₀ id first) calls = .ok (s, b) → ReportsExtended ntpDiff s) ∧
    ¬ ∀ (ntpDiff : NtpTv → NtpTv → NtpTv) (s₀ s : RtpSourceT) (b : Since) (id : UInt32)
        (first : UInt16) (calls : List Call) (seqs : List UInt16) (t : RtpSource) (log : List Int),
      runAll watch (start s₀ id first) calls = .ok (s, b) → InOrder s.maxSeq seqs →
      seqs.length < 2 ^ 32 → runAll receive (s.toRtpSource, []) seqs = .ok (t, log) →
      ReportsAscend ntpDiff s seqs := by
  let wrapped : RtpSource := { beforeWrap.toRtpSource with
    maxSeq := 0, cycles := 65536, received := 3 }
  constructor
  · intro h
    have hrun : runAll watch (start created 7 65533)
        [.updateSeq 65533, .updateSeq 65534, .updateSeq 65535, .updateSeq 0]
        = .ok ({ created with toRtpSource := wrapped }, ⟨1, none⟩) := rfl
    have hcycles := (reportsExtended_iff_cycles _ _).mp
      (h (fun tc _ => tc) created _ _ 7 65533 _ hrun)
    exact absurd hcycles (by decide)
  · intro h
    have hafter : runAll receive (beforeWrap.toRtpSource, []) [0] = .ok (wrapped, [RTP_OK]) := rfl
    have hin : InOrder beforeWrap.maxSeq [0] := ⟨by decide, trivial⟩
    have hascend := (reportsAscend_iff _ hin hafter).mp
      (h (fun tc _ => tc) created _ _ 7 65533 _ [0] _ _ run_beforeWrap hin (by decide) hafter)
    exact absurd hascend (by decide)

/-! ## What the structure held before -/

/-- Two structures become the same report and the same bytes, with no delay where no SR came. -/
structure Determined (s : RtpSourceT) (tc : NtpTv) (report report' : RtcpReportT) : Prop where
  equal : rtcpReportInit ntpDiff report s tc = rtcpReportInit ntpDiff report' s tc
  bytes : ∀ buffer buffer' : List UInt8, 24 ≤ buffer.length → 24 ≤ buffer'.length →
    ∃ sent sent', rtcpReportSerialize (rtcpReportInit ntpDiff report s tc) buffer 0
        buffer.length = .ok (24, sent) ∧
      rtcpReportSerialize (rtcpReportInit ntpDiff report' s tc) buffer' 0
        buffer'.length = .ok (24, sent') ∧
      sent.take 24 = sent'.take 24
  noSr : ntpShort s.lsr = 0 → (rtcpReportInit ntpDiff report s tc).dlsr = 0 ∧
    (rtcpReportInit ntpDiff report' s tc).dlsr = 0

/-- An SR has come and a time is given: the delay is assigned. -/
def Measured (s : RtpSourceT) (tc : NtpTv) : Prop :=
  ntpShort s.lsr ≠ 0 ∧ (tc.sec ≠ 0 ∨ tc.frac ≠ 0)

theorem rtcpReportInit_measured {s : RtpSourceT} {tc : NtpTv} (h : Measured s tc)
    (report report' : RtcpReportT) :
    rtcpReportInit ntpDiff report s tc = rtcpReportInit ntpDiff report' s tc := by
  have hassign (r : RtcpReportT) : rtcpReportInit ntpDiff r s tc
      = ⟨s.id, s.fraction, s.lost, s.maxSeq.toUInt32, s.jitter.toUInt32, ntpShort s.lsr,
        ntpShort (ntpDiff tc s.lsr)⟩ := by
    rw [rtcpReportInit]
    exact if_pos h
  rw [hassign, hassign]

theorem rtcpReportInit_unmeasured {s : RtpSourceT} {tc : NtpTv} (h : ¬ Measured s tc)
    (report : RtcpReportT) : rtcpReportInit ntpDiff report s tc
      = ⟨s.id, s.fraction, s.lost, s.maxSeq.toUInt32, s.jitter.toUInt32, ntpShort s.lsr,
        report.dlsr⟩ := by
  rw [rtcpReportInit]
  exact if_neg h

/-- Equal reports are equal bytes, whatever the buffers held. -/
theorem serialize_equal (report : RtcpReportT) {buffer buffer' : List UInt8}
    (hroom : 24 ≤ buffer.length) (hroom' : 24 ≤ buffer'.length) :
    ∃ sent sent', rtcpReportSerialize report buffer 0 buffer.length = .ok (24, sent) ∧
      rtcpReportSerialize report buffer' 0 buffer'.length = .ok (24, sent') ∧
      sent.take 24 = sent'.take 24 := by
  refine ⟨_, _, rtcpReportSerialize_room report hroom, rtcpReportSerialize_room report hroom', ?_⟩
  rw [List.take_left' (length_reportBytes report), List.take_left' (length_reportBytes report)]

/-- The report is determined where the delay is assigned, and else where both structures held the
same delay before, which is zero if no SR has come. -/
theorem determined_iff (s : RtpSourceT) (tc : NtpTv) (report report' : RtcpReportT) :
    Determined ntpDiff s tc report report' ↔ Measured s tc ∨
      (report.dlsr = report'.dlsr ∧ (ntpShort s.lsr = 0 → report.dlsr = 0)) := by
  by_cases h : Measured s tc
  · have hequal := rtcpReportInit_measured ntpDiff h report report'
    refine ⟨fun _ => .inl h, fun _ => ⟨hequal, fun _ _ hroom hroom' => ?_, fun hnone => ?_⟩⟩
    · rw [hequal]
      exact serialize_equal _ hroom hroom'
    · exact absurd hnone h.1
  · have hinit := rtcpReportInit_unmeasured ntpDiff h
    constructor
    · intro hdet
      have hequal := hdet.equal
      rw [hinit report, hinit report'] at hequal
      have hdlsr := congrArg RtcpReportT.dlsr hequal
      refine .inr ⟨hdlsr, fun hnone => ?_⟩
      have hzero := (hdet.noSr hnone).1
      rwa [hinit report] at hzero
    · rintro (hmeasured | ⟨hdlsr, hnone⟩)
      · exact absurd hmeasured h
      · have hequal : rtcpReportInit ntpDiff report s tc
            = rtcpReportInit ntpDiff report' s tc := by
          rw [hinit report, hinit report', hdlsr]
        refine ⟨hequal, fun _ _ hroom hroom' => ?_, fun hzero => ?_⟩
        · rw [hequal]
          exact serialize_equal _ hroom hroom'
        · rw [← hequal, hinit report]
          exact ⟨hnone hzero, hnone hzero⟩

/-- No SR has come from the source, and one of the structures held a delay. -/
theorem determined_fails :
    ¬ ∀ (ntpDiff : NtpTv → NtpTv → NtpTv) (s : RtpSourceT) (tc : NtpTv)
      (report report' : RtcpReportT), Determined ntpDiff s tc report report' := by
  intro h
  have hequal := (h (fun tc _ => tc) created ⟨1, 0⟩ zeroReport { zeroReport with dlsr := 1 }).equal
  rw [rtcpReportInit_unmeasured _ (fun hm => hm.1 rfl),
    rtcpReportInit_unmeasured _ (fun hm => hm.1 rfl)] at hequal
  exact absurd (congrArg RtcpReportT.dlsr hequal) (by decide)

end RtpSdr.Rtp.ReportFields
