import RtpSdr.Rtp.Ntp

/-!
# What a source knows of time

`rtp_source_update_jitter` averages the changes of the transit time in `double`, where each step
is rounded three times. The observer computes the same average without rounding.
-/
namespace RtpSdr.Rtp.SourceClock

open Float.Model (Format)
open RtpSdr.Lib.Checked
open RtpSdr.Lib.Rounding
open RtpSdr.Lib.Binary64
open RtpSdr.Rtp.RtcpHeader
open RtpSdr.Rtp.RtcpReport
open RtpSdr.Rtp.Source
open RtpSdr.Rtp.SourceLoss
open RtpSdr.Rtp.ReportInit
open RtpSdr.Rtp.Ntp

/-- `rtp_source` with the transit time of the packet before. -/
structure RtpSourceJ extends RtpSourceT where
  transit : Int

section Source

/-- The differences are of `int`s, and so is the argument of `abs`. -/
def rtpSourceUpdateJitter (s : RtpSourceJ) (ts arrival : UInt32) : Exec RtpSourceJ := do
  let transit := castInt (arrival - ts).toNat
  let diff ← int32 (transit - s.transit)
  let d ← int32 |diff|
  .ok { s with transit, jitter := s.jitter + (1. / 16.) * (Float.ofInt d - s.jitter) }

def rtpSourceUpdateLsr (s : RtpSourceJ) (tc : NtpTv) : RtpSourceJ := { s with lsr := tc }

/-- `rtcp_report_init` with its conversions from `double`. -/
def rtcpReportInitClock (report : RtcpReportT) (s : RtpSourceT) (tc : NtpTv) :
    Exec RtcpReportT := do
  let jitter ← castUInt32 s.jitter
  let report := { report with
    ssrc := s.id
    fraction := s.fraction
    lost := s.lost
    lastSeq := s.maxSeq.toUInt32
    jitter
    lsr := ntpShort s.lsr }
  if report.lsr ≠ 0 ∧ (tc.sec ≠ 0 ∨ tc.frac ≠ 0) then do
    let diff ← ntpDiff tc s.lsr
    .ok { report with dlsr := ntpShort diff }
  else .ok report

/-- `rtp_source_create` and `rtp_source_init`. -/
def started (id : UInt32) (first : UInt16) : RtpSourceJ :=
  ⟨⟨rtpSourceInit rtpSourceCreate id first, 0, 0, 0, ⟨0, 0⟩⟩, 0⟩

end Source

/-- The calls on a source. -/
inductive Event where
  | seq (seq : UInt16)
  | lost
  | jitter (ts arrival : UInt32)
  | lsr (tc : NtpTv)

def update (s : RtpSourceJ) : Event → Exec RtpSourceJ
  | .seq seq => do
    let (_, s') ← rtpSourceUpdateSeq s.toRtpSource seq
    .ok { s with toRtpSource := s' }
  | .lost => do
    let s' ← rtpSourceUpdateLost s.toRtpSourceT
    .ok { s with toRtpSourceT := s' }
  | .jitter ts arrival => rtpSourceUpdateJitter s ts arrival
  | .lsr tc => .ok (rtpSourceUpdateLsr s tc)

/-! ## The observer -/

/-- The average without rounding, the largest change so far and the last sender report. -/
structure Estimate where
  transit : Int
  jitter : ℚ
  peak : Int
  lsr : NtpTv

def Estimate.next (e : Estimate) : Event → Estimate
  | .jitter ts arrival =>
    let transit := castInt (arrival - ts).toNat
    let d := |transit - e.transit|
    { e with transit, jitter := e.jitter + 1 / 16 * (d - e.jitter), peak := max e.peak d }
  | .lsr tc => { e with lsr := tc }
  | _ => e

def estimate (events : List Event) : Estimate := events.foldl Estimate.next ⟨0, 0, 0, ⟨0, 0⟩⟩

/-- The source keeps the observer's numbers, the average up to `2 ^ -16`. -/
structure Follows (s : RtpSourceJ) (e : Estimate) : Prop where
  transit : s.transit = e.transit
  lsr : s.lsr = e.lsr
  peak : 0 ≤ e.peak ∧ e.peak < 2 ^ 31
  jitter : ∃ q : ℚ, IsNum s.jitter q ∧ 0 ≤ q ∧ q ≤ e.peak ∧ |q - e.jitter| ≤ 1 / 2 ^ 16

/-! ## One packet -/

theorem isNum_sixteenth : IsNum (1. / 16.) (1 / 16) := by
  have hbits : IsNum (1. / 16.) (((2 ^ 52 : ℕ) : ℚ) * 2 ^ (-56 : ℤ)) := rfl
  have hval : ((2 ^ 52 : ℕ) : ℚ) * 2 ^ (-56 : ℤ) = 1 / 16 := by norm_num
  rw [hval] at hbits
  exact hbits

/-- The assignment computes a rounded step of the average. -/
theorem isNum_step {x : Float} {q : ℚ} {d : ℤ} (hx : IsNum x q) (h0 : 0 ≤ q) (hq : q < 2 ^ 31)
    (hd0 : 0 ≤ d) (hd : d < 2 ^ 31) :
    IsNum (x + (1. / 16.) * (Float.ofInt d - x)) (towards .binary64 (1 / 16) q d) := by
  have hcast : (0 : ℚ) ≤ d ∧ (d : ℚ) < 2 ^ 31 := ⟨by exact_mod_cast hd0, by exact_mod_cast hd⟩
  have hrange {r : ℚ} (hr : |r| ≤ 2 ^ 32) : |r| ≤ 2 ^ (1023 : ℤ) :=
    fits (le_trans hr (by norm_num))
  have hdiff : |(d : ℚ) - q| ≤ 2 ^ 31 := abs_le.mpr ⟨by linarith, by linarith⟩
  have hdouble := abs_rounded_le .binary64 ((d : ℚ) - q)
  have hsub := isNum_sub (isNum_ofInt hd0 (by omega)) hx (hrange (by linarith))
  have hmul := isNum_mul isNum_sixteenth hsub (hrange (by
    rw [abs_mul, abs_of_pos (by norm_num : (0 : ℚ) < 1 / 16), rounded64]
    linarith))
  obtain ⟨hlow, hhigh⟩ := add_part_between (f := .binary64) (c := 1 / 16) (by norm_num)
    (by norm_num) q d
  have hadd := isNum_add hx hmul (hrange (by
    have hmin := le_min h0 hcast.1
    have hmax := max_lt hq hcast.2
    rw [part] at hlow hhigh
    rw [rounded64, rounded64, abs_le]
    constructor <;> linarith))
  exact hadd

theorem int32_abs (n : ℤ) : (int32 n >>= fun diff => int32 |diff|) =
    if |n| < 2 ^ 31 then .ok |n| else .error .overflow := by
  rw [int32]
  by_cases h : -2 ^ 31 ≤ n ∧ n < 2 ^ 31
  · rw [if_pos h, ok_bind, int32]
    have habs := abs_nonneg n
    exact if_congr (and_iff_right (by omega)) rfl rfl
  · rw [if_neg h, error_bind, if_neg fun hlt => h ⟨(abs_lt.mp hlt).1.le, (abs_lt.mp hlt).2⟩]

theorem updateJitter_eq (s : RtpSourceJ) (ts arrival : UInt32) :
    rtpSourceUpdateJitter s ts arrival =
      if |castInt (arrival - ts).toNat - s.transit| < 2 ^ 31 then
        .ok { s with
          transit := castInt (arrival - ts).toNat
          jitter := s.jitter + (1. / 16.)
            * (Float.ofInt |castInt (arrival - ts).toNat - s.transit| - s.jitter) }
      else .error .overflow := by
  have hassoc := int32_abs (castInt (arrival - ts).toNat - s.transit)
  rw [rtpSourceUpdateJitter, ← bind_assoc, hassoc]
  split
  · rw [ok_bind]
  · rw [error_bind]

/-- A step from an average that is off by `2 ^ -16` is not further off: a sixteenth of the error
goes, which is more than what the three roundings add. -/
theorem follows_jitter {s s' : RtpSourceJ} {e : Estimate} {ts arrival : UInt32} (h : Follows s e)
    (hcall : rtpSourceUpdateJitter s ts arrival = .ok s') :
    Follows s' (e.next (.jitter ts arrival)) := by
  obtain ⟨htransit, hlsr, ⟨hpeak0, hpeak⟩, q, hnum, hq0, hq, hclose⟩ := h
  rw [updateJitter_eq] at hcall
  split at hcall
  · rename_i hd
    obtain rfl := Except.ok.inj hcall
    rw [htransit] at hd ⊢
    have hd0 := abs_nonneg (castInt (arrival - ts).toNat - e.transit)
    generalize hgap : |castInt (arrival - ts).toNat - e.transit| = d at hd hd0 ⊢
    have hnext : e.next (.jitter ts arrival) = { e with
        transit := castInt (arrival - ts).toNat
        jitter := e.jitter + 1 / 16 * (d - e.jitter)
        peak := max e.peak d } := by
      rw [Estimate.next, hgap]
    have hcast : (0 : ℚ) ≤ d ∧ (d : ℚ) < 2 ^ 31 := ⟨by exact_mod_cast hd0, by exact_mod_cast hd⟩
    have hqlt : q < 2 ^ 31 := lt_of_le_of_lt hq (by exact_mod_cast hpeak)
    have hstep := isNum_step hnum hq0 hqlt hd0 hd
    have hrep := hnum.representable
    have hrepd := (isNum_ofInt hd0 (by omega : d < 2 ^ 53)).representable
    obtain ⟨hlow, hhigh⟩ := towards_between (f := .binary64) (c := 1 / 16) (by norm_num)
      (by norm_num) hrep hrepd
    have hround := abs_towards_sub_le (f := .binary64) (c := 1 / 16) (k := 31) (by norm_num)
      (by norm_num) hq0 (by norm_num; exact hqlt) hcast.1 (by norm_num; exact hcast.2) (by decide)
    rw [hnext]
    refine ⟨rfl, hlsr, ⟨le_trans hpeak0 (le_max_left _ _), max_lt hpeak hd⟩, _, hstep,
      le_trans (le_min hq0 hcast.1) hlow, le_trans hhigh ?_, ?_⟩
    · rw [Int.cast_max]
      exact max_le_max hq (le_refl _)
    · have hunit : (2 : ℚ) ^ (31 - (Format.mantissaBits .binary64 : ℤ)) / 2 = 1 / 2 ^ 23 := by
        have hbits : (31 - (Format.mantissaBits .binary64 : ℤ)) = -22 := rfl
        rw [hbits]
        norm_num
      rw [hunit] at hround
      have hkeep : |15 / 16 * (q - e.jitter)| ≤ 15 / 16 * (1 / 2 ^ 16) := by
        rw [abs_mul, abs_of_pos (by norm_num : (0 : ℚ) < 15 / 16)]
        linarith
      have hsplit : towards .binary64 (1 / 16) q d - (e.jitter + 1 / 16 * (d - e.jitter))
          = (towards .binary64 (1 / 16) q d - (q + 1 / 16 * (d - q)))
            + 15 / 16 * (q - e.jitter) := by ring
      dsimp only
      rw [hsplit]
      refine le_trans (abs_add_le _ _) (le_trans (add_le_add hround hkeep) ?_)
      norm_num
  · cases hcall

/-! ## Runs -/

theorem follows_started (id : UInt32) (first : UInt16) :
    Follows (started id first) (estimate []) := by
  have hzero := isNum_ofInt (n := 0) (le_refl _) (by decide)
  rw [Int.cast_zero] at hzero
  refine ⟨rfl, rfl, ⟨le_refl _, by decide⟩, 0, hzero, le_refl _, ?_, ?_⟩
  · exact le_of_eq Int.cast_zero.symm
  · rw [estimate, List.foldl_nil, sub_zero, abs_zero]
    positivity

theorem updateLost_clock {s s' : RtpSourceT} (h : rtpSourceUpdateLost s = .ok s') :
    s'.jitter = s.jitter ∧ s'.lsr = s.lsr := by
  obtain ⟨expectedInterval, -, h⟩ := bind_eq_ok.mp h
  obtain ⟨receivedInterval, -, h⟩ := bind_eq_ok.mp h
  obtain ⟨lostInterval, -, h⟩ := bind_eq_ok.mp h
  obtain ⟨lost, -, h⟩ := bind_eq_ok.mp h
  dsimp only at h
  split at h
  · cases h
    exact ⟨rfl, rfl⟩
  · obtain ⟨shifted, -, h⟩ := bind_eq_ok.mp h
    cases h
    exact ⟨rfl, rfl⟩

theorem follows_update {s s' : RtpSourceJ} {e : Estimate} {event : Event} (h : Follows s e)
    (hcall : update s event = .ok s') : Follows s' (e.next event) := by
  cases event with
  | seq seq =>
    obtain ⟨⟨r, t⟩, -, hret⟩ := bind_eq_ok.mp hcall
    obtain rfl := Except.ok.inj hret
    exact ⟨h.transit, h.lsr, h.peak, h.jitter⟩
  | lost =>
    obtain ⟨t, hlost, hret⟩ := bind_eq_ok.mp hcall
    obtain rfl := Except.ok.inj hret
    obtain ⟨hjitter, hlsr⟩ := updateLost_clock hlost
    exact ⟨h.transit, hlsr.trans h.lsr, h.peak, hjitter ▸ h.jitter⟩
  | jitter ts arrival => exact follows_jitter h hcall
  | lsr tc =>
    obtain rfl := Except.ok.inj hcall
    exact ⟨h.transit, rfl, h.peak, h.jitter⟩

theorem follows_run (id : UInt32) (first : UInt16) (events : List Event) {t : RtpSourceJ}
    (hrun : runAll update (started id first) events = .ok t) : Follows t (estimate events) := by
  refine runAll_history (I := fun hist s => Follows s (estimate hist)) (follows_started id first)
    ?_ events hrun
  intro hist s s' event _ h hcall
  rw [estimate, List.foldl_concat]
  exact follows_update h hcall

/-- What is reported of a source that follows the observer is a defined conversion. -/
theorem Follows.cast {s : RtpSourceJ} {e : Estimate} (h : Follows s e) :
    ∃ v, castUInt32 s.jitter = .ok v := by
  obtain ⟨q, hnum, h0, hq, -⟩ := h.jitter
  have hpeak : (e.peak : ℚ) < 2 ^ 31 := by exact_mod_cast h.peak.2
  exact ⟨_, castUInt32_floor hnum h0 (by linarith)⟩

/-- In every run the jitter is the average of the changes of the transit time up to `2 ^ -16`,
never above the largest of them, and the report about it a defined conversion. A packet is
refused only where the transit time changes by `2 ^ 31` or more. -/
theorem jitter_average (id : UInt32) (first : UInt16) (events : List Event) {t : RtpSourceJ}
    (hrun : runAll update (started id first) events = .ok t) :
    (∃ q : ℚ, 0 ≤ q ∧ q ≤ (estimate events).peak ∧ |q - (estimate events).jitter| ≤ 1 / 2 ^ 16 ∧
      IsNum t.jitter q ∧ castUInt32 t.jitter = .ok (UInt32.ofNat ⌊q⌋.toNat)) ∧
    ∀ ts arrival : UInt32, (∃ t', update t (.jitter ts arrival) = .ok t') ↔
      |castInt (arrival - ts).toNat - (estimate events).transit| < 2 ^ 31 := by
  have hfollows := follows_run id first events hrun
  obtain ⟨q, hnum, h0, hq, hclose⟩ := hfollows.jitter
  have hpeak : ((estimate events).peak : ℚ) < 2 ^ 31 := by exact_mod_cast hfollows.peak.2
  refine ⟨⟨q, h0, hq, hclose, hnum, castUInt32_floor hnum h0 (by linarith)⟩, ?_⟩
  intro ts arrival
  rw [update, updateJitter_eq, hfollows.transit]
  split
  · rename_i hd
    exact ⟨fun _ => hd, fun _ => ⟨_, rfl⟩⟩
  · rename_i hd
    constructor
    · intro h
      obtain ⟨t', ht'⟩ := h
      cases ht'
    · intro h
      exact absurd h hd

/-- A source after a packet that took 160 units and a sender report at 1.5 s. -/
def reported : RtpSourceJ := { started 7 1 with
  transit := 160
  jitter := (started 7 1).jitter + (1. / 16.) * (Float.ofInt 160 - (started 7 1).jitter)
  lsr := ⟨1, 2147483648⟩ }

theorem reported_run :
    runAll update (started 7 1) [.jitter 0 160, .lsr ⟨1, 2147483648⟩] = .ok reported := by
  have hcast : castInt ((160 : UInt32) - 0).toNat = 160 := castInt_of_lt (by decide)
  have hgap : |(160 : ℤ) - 0| = 160 := by decide
  have hjitter : update (started 7 1) (.jitter 0 160) = .ok { started 7 1 with
      transit := 160
      jitter := (started 7 1).jitter
        + (1. / 16.) * (Float.ofInt 160 - (started 7 1).jitter) } := by
    rw [update, updateJitter_eq, hcast]
    change (if |(160 : ℤ) - 0| < 2 ^ 31 then Except.ok _ else _) = _
    rw [if_pos (by rw [hgap]; decide)]
    exact congrArg (fun d => Except.ok { started 7 1 with
      transit := 160
      jitter := (started 7 1).jitter
        + (1. / 16.) * (Float.ofInt d - (started 7 1).jitter) }) hgap
  rw [runAll_cons, hjitter, ok_bind, runAll_cons, update, ok_bind]
  rfl

/-- Three packets that took 160, 240 and 80 units, with a sender report between them. -/
def threePackets : List Event :=
  [.jitter 0 160, .jitter 160 400, .lsr ⟨1, 2147483648⟩, .jitter 320 400]

theorem castInt_threePackets : castInt ((160 : UInt32) - 0).toNat = 160 ∧
    castInt ((400 : UInt32) - 160).toNat = 240 ∧ castInt ((400 : UInt32) - 320).toNat = 80 :=
  ⟨castInt_of_lt (by decide), castInt_of_lt (by decide), castInt_of_lt (by decide)⟩

theorem estimate_threePackets :
    estimate threePackets = ⟨80, 3005 / 128, 160, ⟨1, 2147483648⟩⟩ := by
  obtain ⟨h160, h240, h80⟩ := castInt_threePackets
  simp only [estimate, threePackets, List.foldl_cons, List.foldl_nil, Estimate.next, h160,
    h240, h80]
  norm_num

/-- The average is 23.48 units, of which the report has 23. -/
theorem jitter_average_three : ∃ t, runAll update (started 7 1) threePackets = .ok t ∧
    castUInt32 t.jitter = .ok 23 := by
  obtain ⟨h160, h240, h80⟩ := castInt_threePackets
  have hnext {hist : List Event} {t : RtpSourceJ}
      (hrun : runAll update (started 7 1) hist = .ok t) (ts arrival : UInt32)
      (hlt : |castInt (arrival - ts).toNat - (estimate hist).transit| < 2 ^ 31) :
      ∃ t', runAll update (started 7 1) (hist ++ [.jitter ts arrival]) = .ok t' := by
    obtain ⟨t', ht'⟩ := ((jitter_average 7 1 hist hrun).2 ts arrival).mpr hlt
    exact ⟨t', runAll_concat_eq_ok.mpr ⟨t, hrun, ht'⟩⟩
  have hnone : runAll update (started 7 1) [] = .ok (started 7 1) := rfl
  obtain ⟨t₁, hone⟩ := hnext hnone 0 160 (by
    rw [h160]
    decide)
  obtain ⟨t₂, htwo⟩ := hnext hone 160 400 (by
    simp only [estimate, List.nil_append, List.foldl_cons, List.foldl_nil, Estimate.next, h160,
      h240]
    decide)
  have hlsr : runAll update (started 7 1) [.jitter 0 160, .jitter 160 400, .lsr ⟨1, 2147483648⟩]
      = .ok { t₂ with lsr := ⟨1, 2147483648⟩ } :=
    runAll_concat_eq_ok.mpr ⟨t₂, htwo, rfl⟩
  obtain ⟨t, hrun⟩ := hnext hlsr 320 400 (by
    simp only [estimate, List.foldl_cons, List.foldl_nil, Estimate.next, h160, h240, h80]
    decide)
  obtain ⟨⟨q, -, -, hclose, -, hcast⟩, -⟩ := jitter_average 7 1 threePackets hrun
  rw [estimate_threePackets, abs_le] at hclose
  have hfloor : ⌊q⌋ = 23 := by
    rw [Int.floor_eq_iff]
    constructor <;> push_cast <;> linarith
  rw [hfloor] at hcast
  exact ⟨t, hrun, hcast⟩

/-! ## Reports -/

/-- The call is `rtcp_report_init` with whatever agrees with `ntp_diff` where that returns. -/
theorem rtcpReportInitClock_eq {report r : RtcpReportT} {s : RtpSourceT} {tc : NtpTv}
    {diff : NtpTv → NtpTv → NtpTv} (hdiff : ∀ d, ntpDiff tc s.lsr = .ok d → diff tc s.lsr = d)
    (hcall : rtcpReportInitClock report s tc = .ok r) :
    rtcpReportInit diff report s tc = r := by
  rw [rtcpReportInitClock, castUInt32] at hcall
  split at hcall
  · rw [ok_bind] at hcall
    rw [rtcpReportInit]
    dsimp only at hcall ⊢
    split at hcall
    · rename_i hsent
      obtain ⟨d, hd, hret⟩ := bind_eq_ok.mp hcall
      rw [if_pos hsent, hdiff d hd]
      exact Except.ok.inj hret
    · rename_i hnone
      rw [if_neg hnone]
      exact Except.ok.inj hcall
  · cases hcall

theorem units_eq_zero_iff {tc : NtpTv} : units tc = 0 ↔ ¬(tc.sec ≠ 0 ∨ tc.frac ≠ 0) := by
  rw [units, not_or, not_not, not_not, ← UInt32.toNat_inj, ← UInt32.toNat_inj]
  change _ ↔ tc.sec.toNat = 0 ∧ tc.frac.toNat = 0
  omega

/-- The fields that need no time. -/
def filled (report : RtcpReportT) (s : RtpSourceT) (jitter : UInt32) : RtcpReportT := { report with
  ssrc := s.id
  fraction := s.fraction
  lost := s.lost
  lastSeq := s.maxSeq.toUInt32
  jitter
  lsr := ntpShort s.lsr }

theorem rtcpReportInitClock_of_cast {s : RtpSourceT} {v : UInt32} (report : RtcpReportT)
    (tc : NtpTv) (hcast : castUInt32 s.jitter = .ok v) : rtcpReportInitClock report s tc =
      if ntpShort s.lsr ≠ 0 ∧ units tc ≠ 0 then do
        let diff ← ntpDiff tc s.lsr
        .ok { filled report s v with dlsr := ntpShort diff }
      else .ok (filled report s v) := by
  have hset : (ntpShort s.lsr ≠ 0 ∧ (tc.sec ≠ 0 ∨ tc.frac ≠ 0))
      ↔ (ntpShort s.lsr ≠ 0 ∧ units tc ≠ 0) :=
    and_congr_right' (not_iff_comm.mp units_eq_zero_iff.symm).symm
  rw [rtcpReportInitClock, bind_of_ok hcast]
  exact if_congr hset rfl rfl

/-- The delay in the report is the time since the last sender report in units of `2 ^ -16`
seconds; what `double` adds to it is less than a tenth of one. A report for a time before the
sender report has no defined delay, and without a sender report the field stays as it was. -/
theorem report_delay (id : UInt32) (first : UInt16) (events : List Event) {t : RtpSourceJ}
    (hrun : runAll update (started id first) events = .ok t) (report received : RtcpReportT)
    (tc : NtpTv) (buffer : List UInt8) (hroom : 24 ≤ buffer.length) :
    (ntpShort (estimate events).lsr ≠ 0 → units (estimate events).lsr ≤ units tc →
      units tc < 2 ^ 64 - 2 ^ 10 →
      ∃ r sent, rtcpReportInitClock report t.toRtpSourceT tc = .ok r ∧
        rtcpReportSerialize r buffer 0 buffer.length = .ok (24, sent) ∧
        rtcpReportParse received sent 0 24 = .ok (RTCP_OK, r) ∧
        r.lsr = ntpShort (estimate events).lsr ∧
        ∃ ε : ℤ, |ε| ≤ 3 * 2 ^ 10 ∧ (r.dlsr.toNat : ℤ)
          = (units tc - units (estimate events).lsr + ε) / 2 ^ 16 % 2 ^ 32) ∧
    (ntpShort (estimate events).lsr ≠ 0 → units tc ≠ 0 →
      units tc + 2 ^ 11 < units (estimate events).lsr →
      rtcpReportInitClock report t.toRtpSourceT tc = .error .overflow) ∧
    (ntpShort (estimate events).lsr = 0 ∨ units tc = 0 →
      ∃ r, rtcpReportInitClock report t.toRtpSourceT tc = .ok r ∧ r.dlsr = report.dlsr) := by
  have hfollows := follows_run id first events hrun
  obtain ⟨v, hcast⟩ := hfollows.cast
  rw [← hfollows.lsr, rtcpReportInitClock_of_cast report tc hcast]
  refine ⟨fun hlsr hle htop => ?_, fun hlsr htc hbefore => ?_, fun hnone => ?_⟩
  · have htc : units tc ≠ 0 := by
      intro hzero
      have hshort := toNat_ntpShort t.lsr
      rw [hzero] at hle
      rw [Nat.le_zero.mp hle, Nat.zero_div, Nat.zero_mod] at hshort
      exact hlsr (UInt32.toNat_inj.mp hshort)
    obtain ⟨d, hd, hclose⟩ := ntpDiff_close hle htop
    rw [if_pos ⟨hlsr, htc⟩, bind_of_ok hd]
    obtain ⟨sent, hsent, hparsed⟩ := rtcpReport_transport
      { filled report t.toRtpSourceT v with dlsr := ntpShort d } received hroom
    refine ⟨_, sent, rfl, hsent, hparsed, rfl, _, hclose, ?_⟩
    dsimp only
    rw [toNat_ntpShort]
    omega
  · have hoff := abs_le.mp (abs_rounded53_units_sub_le tc)
    have hoff' := abs_le.mp (abs_rounded53_units_sub_le t.lsr)
    rw [if_pos ⟨hlsr, htc⟩, ntpDiff_spec, if_neg (by omega), error_bind]
  · rw [if_neg (by rcases hnone with h | h <;> simp [h])]
    exact ⟨_, rfl, rfl⟩

theorem report_delay_example :
    ∃ r sent, rtcpReportInitClock zeroReport reported.toRtpSourceT ⟨3, 0⟩ = .ok r ∧
      rtcpReportSerialize r (List.replicate 24 0) 0 24 = .ok (24, sent) ∧
      rtcpReportParse zeroReport sent 0 24 = .ok (RTCP_OK, r) ∧
      r.lsr = ntpShort ⟨1, 2147483648⟩ ∧
      ∃ ε : ℤ, |ε| ≤ 3 * 2 ^ 10 ∧ (r.dlsr.toNat : ℤ)
        = (units ⟨3, 0⟩ - units ⟨1, 2147483648⟩ + ε) / 2 ^ 16 % 2 ^ 32 :=
  (report_delay 7 1 [.jitter 0 160, .lsr ⟨1, 2147483648⟩] reported_run zeroReport zeroReport
    ⟨3, 0⟩ (List.replicate 24 0) (by decide)).1 (by decide) (by decide) (by decide)

end RtpSdr.Rtp.SourceClock
