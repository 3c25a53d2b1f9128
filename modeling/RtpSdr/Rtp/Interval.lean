import RtpSdr.Lib.Checked
import RtpSdr.Lib.Closeness

/-!
# When to report: `rtcp_util.c`

The interval between reports is computed in `double` from the size of the session. Eight roundings
lie between it and the exact one, and they are too few to shorten it below two seconds. When members
leave, the times of the last and the next report are drawn towards the present.
-/
namespace RtpSdr.Rtp.Interval

open Float.Model (Format)
open RtpSdr.Lib.Checked
open RtpSdr.Lib.Rounding
open RtpSdr.Lib.Binary64
open RtpSdr.Lib.Closeness

section Source

def LIBRTP_RTCP_MIN_TIME : Float := 5.0
def LIBRTP_RTCP_SENDER_BW_FRACTION : Float := 0.25

/-- The largest result of `rand`. -/
def RAND_MAX : Int := 2147483647

def COMPENSATION : Float := 2.71828 - 1.5

/-- The bandwidth and `n`: senders have a part of the bandwidth to themselves if they are few. -/
def bandwidth (members senders : Int) (rtcpBw : Float) (weSent : Bool) : Exec (Float × Int) :=
  let rcvrBwFraction := 1.0 - LIBRTP_RTCP_SENDER_BW_FRACTION
  if Float.ofInt senders ≤ Float.ofInt members * LIBRTP_RTCP_SENDER_BW_FRACTION then
    if weSent then .ok (rtcpBw * LIBRTP_RTCP_SENDER_BW_FRACTION, senders)
    else do
      let n ← int32 (members - senders)
      .ok (rtcpBw * rcvrBwFraction, n)
  else .ok (rtcpBw, members)

/-- `rand` is the result of `rand`. -/
def rtcpInterval (members senders : Int) (rtcpBw : Float) (weSent : Bool) (avgRtcpSize : Float)
    (initial : Bool) (rand : Int) : Exec Float := do
  let minTime := if initial then LIBRTP_RTCP_MIN_TIME / 2.0 else LIBRTP_RTCP_MIN_TIME
  let (rtcpBw, n) ← bandwidth members senders rtcpBw weSent
  let t := avgRtcpSize * Float.ofInt n / rtcpBw
  let t := if t < minTime then minTime else t
  let t := t * (Float.ofInt rand / Float.ofInt RAND_MAX + 0.5)
  .ok (t / COMPENSATION)

/-- `*tp` and `*tn` afterwards. -/
def rtcpReverseReconsider (tp tn tc : Float) (pmembers members : Int) : Float × Float :=
  let tn := tc + (Float.ofInt members / Float.ofInt pmembers) * (tn - tc)
  let tp := tc - (Float.ofInt members / Float.ofInt pmembers) * (tc - tp)
  (tp, tn)

end Source

/-! ## The exact interval -/

/-- The fraction of the bandwidth, and the number of those who share it. -/
def share (members senders : Int) (weSent : Bool) : ℚ × Int :=
  if 4 * senders ≤ members then
    if weSent then (1 / 4, senders) else (3 / 4, members - senders)
  else (1, members)

def minTime (initial : Bool) : ℚ := if initial then 5 / 2 else 5

/-- The interval without rounding, with `x` drawn from zero to one. -/
def interval (members senders : Int) (bw : ℚ) (weSent : Bool) (size : ℚ) (initial : Bool)
    (x : ℚ) : ℚ :=
  let (fraction, n) := share members senders weSent
  max (size * n / (bw * fraction)) (minTime initial) * (x + 1 / 2) / (121828 / 100000)

/-! ## The constants -/

theorem isNum_quarter : IsNum LIBRTP_RTCP_SENDER_BW_FRACTION (1 / 4) := by
  have hbits : IsNum 0.25 (((2 ^ 52 : ℕ) : ℚ) * 2 ^ (-54 : ℤ)) := rfl
  have hval : ((2 ^ 52 : ℕ) : ℚ) * 2 ^ (-54 : ℤ) = 1 / 4 := by norm_num
  rw [hval] at hbits
  exact hbits

theorem isNum_threeQuarters : IsNum (1.0 - LIBRTP_RTCP_SENDER_BW_FRACTION) (3 / 4) := by
  have hbits : IsNum (1.0 - 0.25) (((3 * 2 ^ 51 : ℕ) : ℚ) * 2 ^ (-53 : ℤ)) := rfl
  have hval : ((3 * 2 ^ 51 : ℕ) : ℚ) * 2 ^ (-53 : ℤ) = 3 / 4 := by norm_num
  rw [hval] at hbits
  exact hbits

theorem isNum_half : IsNum 0.5 (1 / 2) := by
  have hbits : IsNum 0.5 (((2 ^ 52 : ℕ) : ℚ) * 2 ^ (-53 : ℤ)) := rfl
  have hval : ((2 ^ 52 : ℕ) : ℚ) * 2 ^ (-53 : ℤ) = 1 / 2 := by norm_num
  rw [hval] at hbits
  exact hbits

theorem isNum_minTime (initial : Bool) :
    IsNum (if initial then LIBRTP_RTCP_MIN_TIME / 2.0 else LIBRTP_RTCP_MIN_TIME)
      (minTime initial) := by
  cases initial with
  | false =>
    have hbits : IsNum 5.0 (((5 * 2 ^ 50 : ℕ) : ℚ) * 2 ^ (-50 : ℤ)) := rfl
    have hval : ((5 * 2 ^ 50 : ℕ) : ℚ) * 2 ^ (-50 : ℤ) = 5 := by norm_num
    rw [hval] at hbits
    exact hbits
  | true =>
    have hbits : IsNum (5.0 / 2.0) (((5 * 2 ^ 50 : ℕ) : ℚ) * 2 ^ (-51 : ℤ)) := rfl
    have hval : ((5 * 2 ^ 50 : ℕ) : ℚ) * 2 ^ (-51 : ℤ) = 5 / 2 := by norm_num
    rw [hval] at hbits
    exact hbits

/-- The decimal constant is rounded, and its difference to one and a half is exact. -/
theorem computes_compensation : Computes 1 COMPENSATION (121828 / 100000) := by
  refine ⟨((5486645354032928 : ℕ) : ℚ) * 2 ^ (-52 : ℤ), rfl, ?_⟩
  have hfactor : factor .binary64 = 1 + 2 / 2 ^ 53 := rfl
  constructor
  · norm_num
  · rw [hfactor]
    norm_num
  · rw [hfactor]
    norm_num

/-! ## The members who share the bandwidth -/

variable {members senders : Int} {u v : Float} {bw size : ℚ}

/-- The comparison with a quarter of the members is exact. -/
theorem senders_le_iff (hm0 : 0 ≤ members) (hm : members < 2 ^ 31) (hs0 : 0 ≤ senders)
    (hs : senders < 2 ^ 31) :
    Float.ofInt senders ≤ Float.ofInt members * LIBRTP_RTCP_SENDER_BW_FRACTION ↔
      4 * senders ≤ members := by
  have hcast : (0 : ℚ) ≤ members ∧ (members : ℚ) < 2 ^ 31 :=
    ⟨by exact_mod_cast hm0, by exact_mod_cast hm⟩
  have hrep : Representable .binary64 ((members : ℚ) * (1 / 4)) :=
    ⟨members, -2, by rw [zpow_neg]; norm_num, by
      rw [abs_of_nonneg hm0]
      exact le_trans hm.le (by decide), by decide⟩
  have hquarter := isNum_mul (isNum_ofInt hm0 (by omega)) isNum_quarter (fits (by
    rw [abs_of_nonneg (by linarith)]
    norm_num
    linarith))
  rw [rounded64, rounded_of_representable hrep] at hquarter
  rw [le_iff (isNum_ofInt hs0 (by omega)) hquarter,
    ← mul_le_mul_iff_right₀ (show (0 : ℚ) < 4 by simp)]
  have hfour : (4 : ℚ) * (members * (1 / 4)) = members := by ring
  rw [hfour]
  exact_mod_cast Iff.rfl

theorem share_nonneg (hm0 : 0 ≤ members) (hs0 : 0 ≤ senders) (weSent : Bool) :
    0 < (share members senders weSent).1 ∧ 0 ≤ (share members senders weSent).2 := by
  rw [share]
  split
  · split
    · exact ⟨by norm_num, hs0⟩
    · exact ⟨by norm_num, by dsimp only; omega⟩
  · exact ⟨one_pos, hm0⟩

theorem share_le (hm : members < 2 ^ 31) (hs0 : 0 ≤ senders) (hs : senders < 2 ^ 31)
    (weSent : Bool) :
    (share members senders weSent).1 ≤ 1 ∧ (share members senders weSent).2 < 2 ^ 31 ∧
      1 / 4 ≤ (share members senders weSent).1 := by
  rw [share]
  split
  · split
    · exact ⟨by norm_num, hs, by norm_num⟩
    · exact ⟨by norm_num, by dsimp only; omega, by norm_num⟩
  · exact ⟨le_rfl, hm, by norm_num⟩

/-- The bandwidth of those who share it is rounded at most once. -/
theorem computes_share (hm0 : 0 ≤ members) (hm : members < 2 ^ 31) (hs0 : 0 ≤ senders)
    (hs : senders < 2 ^ 31) (weSent : Bool) (hbw : IsNum u bw) (hbw0 : 0 < bw)
    (hrange : Ordinary (bw * (share members senders weSent).1)) :
    ∃ v, bandwidth members senders u weSent = .ok (v, (share members senders weSent).2) ∧
      Computes 1 v (bw * (share members senders weSent).1) := by
  have hexact := IsNum.computes hbw hbw0.le
  rw [bandwidth]
  rw [share] at hrange ⊢
  by_cases hfew : 4 * senders ≤ members
  · rw [if_pos ((senders_le_iff hm0 hm hs0 hs).mpr hfew), if_pos hfew]
    rw [if_pos hfew] at hrange
    cases weSent with
    | true =>
      exact ⟨_, rfl, hexact.mul (IsNum.computes isNum_quarter (by norm_num)) (by decide) hrange⟩
    | false =>
      refine ⟨u * (1.0 - LIBRTP_RTCP_SENDER_BW_FRACTION), ?_, hexact.mul
        (IsNum.computes isNum_threeQuarters (by norm_num)) (by decide) hrange⟩
      rw [if_neg (by decide), if_neg (by decide), int32_of_lt (by omega) (by omega), ok_bind]
  · rw [if_neg (mt (senders_le_iff hm0 hm hs0 hs).mp hfew), if_neg hfew, mul_one]
    exact ⟨u, rfl, hexact.mono (Nat.zero_le 1)⟩

/-! ## The interval -/

theorem spans_share (hm0 : 0 ≤ members) (hm : members < 2 ^ 31) (hs0 : 0 ≤ senders)
    (hs : senders < 2 ^ 31) (weSent : Bool) :
    Spans (-2) 0 (share members senders weSent).1 ∧
      ((share members senders weSent).2 = 0 ∨ Spans 0 31 (share members senders weSent).2) := by
  obtain ⟨-, hn0⟩ := share_nonneg hm0 hs0 weSent
  obtain ⟨hone, hn, hquarter⟩ := share_le hm hs0 hs weSent
  refine ⟨⟨?_, ?_⟩, ?_⟩
  · norm_num
    linarith
  · rw [zpow_zero]
    exact hone
  · rcases hn0.eq_or_lt with hzero | hpos
    · exact .inl hzero.symm
    · refine .inr ⟨?_, ?_⟩
      · rw [zpow_zero]
        exact_mod_cast hpos
      · exact_mod_cast hn.le

theorem spans_minTime (initial : Bool) : Spans 1 3 (minTime initial) := by
  cases initial
  · exact ⟨by norm_num [minTime], by norm_num [minTime]⟩
  · exact ⟨by norm_num [minTime], by norm_num [minTime]⟩

/-- The larger of a number that may be zero and of one that is not. -/
theorem spans_max {q r : ℚ} (hq : q = 0 ∨ Spans (-800) 833 q) (hr : Spans 1 3 r) :
    Spans 1 833 (max q r) := by
  refine ⟨le_max_of_le_right hr.1, max_le ?_ ?_⟩
  · rcases hq with rfl | hq
    · exact (two_zpow_pos 833).le
    · exact hq.2
  · exact le_trans hr.2 ((zpow_le_zpow_iff_right₀ one_lt_two).mpr (by decide))

/-- The random number between a half and three halves. -/
theorem computes_rand {rand : Int} (h0 : 0 ≤ rand) (h : rand ≤ RAND_MAX) :
    Computes 2 (Float.ofInt rand / Float.ofInt RAND_MAX + 0.5) ((rand : ℚ) / RAND_MAX + 1 / 2) ∧
      Spans (-1) 1 ((rand : ℚ) / RAND_MAX + 1 / 2) := by
  have hmax : (0 : ℚ) < (RAND_MAX : ℤ) := by norm_num [RAND_MAX]
  have hcast : (0 : ℚ) ≤ rand ∧ (rand : ℚ) ≤ (RAND_MAX : ℤ) :=
    ⟨by exact_mod_cast h0, by exact_mod_cast h⟩
  have hquot : (0 : ℚ) ≤ (rand : ℚ) / RAND_MAX ∧ (rand : ℚ) / RAND_MAX ≤ 1 :=
    ⟨div_nonneg hcast.1 hmax.le, (div_le_one hmax).mpr hcast.2⟩
  have hspans : Spans (-1) 1 ((rand : ℚ) / RAND_MAX + 1 / 2) := by
    constructor
    · norm_num
      exact hquot.1
    · norm_num
      linarith
  have hsmall : Ordinary ((rand : ℚ) / RAND_MAX) := by
    rcases h0.eq_or_lt with hzero | hpos
    · exact .inl (by rw [← hzero, Int.cast_zero, zero_div])
    · have hone : Spans 0 31 (rand : ℚ) :=
        ⟨by rw [zpow_zero]; exact_mod_cast hpos, le_trans hcast.2 (by norm_num [RAND_MAX])⟩
      have hlast : Spans 30 31 ((RAND_MAX : ℤ) : ℚ) :=
        ⟨by norm_num [RAND_MAX], by norm_num [RAND_MAX]⟩
      exact (hone.div hlast).ordinary (by decide) (by decide)
  rw [RAND_MAX] at h
  have hdiv := (IsNum.computes (isNum_ofInt h0 (by omega)) hcast.1).div
    (IsNum.computes (isNum_ofInt (by decide) (by decide)) hmax.le) hmax (by decide) hsmall
  exact ⟨hdiv.add ((IsNum.computes isNum_half (by norm_num)).mono (by decide)) (by decide)
    (hspans.ordinary (by decide) (by decide)), hspans⟩

/-- For every session, the interval is the exact one up to eight roundings, and never below two
seconds, or one before the first report. -/
theorem rtcpInterval_close {rand : Int} (hm0 : 0 ≤ members) (hm : members < 2 ^ 31)
    (hs0 : 0 ≤ senders) (hs : senders < 2 ^ 31) (hbw : IsNum u bw) (hbw' : Spans (-400) 400 bw)
    (hsize : IsNum v size) (hsize' : size = 0 ∨ Spans (-400) 400 size) (hr0 : 0 ≤ rand)
    (hr : rand ≤ RAND_MAX) (weSent initial : Bool) :
    ∃ t q, rtcpInterval members senders u weSent v initial rand = .ok t ∧ IsNum t q ∧
      Close (factor .binary64) 8 q
        (interval members senders bw weSent size initial ((rand : ℚ) / RAND_MAX)) ∧
      (if initial then 1 else 2) ≤ q := by
  obtain ⟨hfraction, hn⟩ := spans_share hm0 hm hs0 hs weSent
  obtain ⟨hfraction0, hn0⟩ := share_nonneg hm0 hs0 weSent
  obtain ⟨-, hnlt, -⟩ := share_le hm hs0 hs weSent
  have hband := hbw'.mul hfraction
  obtain ⟨w, hshare, hw⟩ := computes_share hm0 hm hs0 hs weSent hbw hbw'.pos
    (hband.ordinary (by decide) (by decide))
  -- the octets that all members send in the interval
  have hsize0 : 0 ≤ size := hsize'.elim (fun h => h.ge) fun h => h.pos.le
  have hload : size * (share members senders weSent).2 = 0 ∨
      Spans (-400) 431 (size * (share members senders weSent).2) := by
    rcases hsize' with hzero | hspans
    · exact .inl (by rw [hzero, zero_mul])
    · rcases hn with hzero | hcount
      · exact .inl (by rw [hzero, Int.cast_zero, mul_zero])
      · exact .inr (hspans.mul hcount)
  have hoctets := (IsNum.computes hsize hsize0).mul
    (IsNum.computes (isNum_ofInt hn0 (by omega)) (by exact_mod_cast hn0)) (by decide)
    (hload.elim .inl fun h => h.ordinary (by decide) (by decide))
  have htime : size * (share members senders weSent).2 / (bw * (share members senders weSent).1) = 0
      ∨ Spans (-800) 833
        (size * (share members senders weSent).2 / (bw * (share members senders weSent).1)) :=
    hload.imp (fun h => by rw [h, zero_div]) fun h => h.div hband
  have hquot := hoctets.div hw hband.pos (by decide)
    (htime.elim .inl fun h => h.ordinary (by decide) (by decide))
  have hmin := (IsNum.computes (isNum_minTime initial) (spans_minTime initial).pos.le).mono
    (Nat.zero_le 3)
  have hmax := Computes.max hquot hmin
  have hmax' := spans_max htime (spans_minTime initial)
  obtain ⟨hrand, hrand'⟩ := computes_rand hr0 hr
  have hprod := hmax.mul hrand (by decide) ((hmax'.mul hrand').ordinary (by decide) (by decide))
  have hconst : Spans 0 1 (121828 / 100000 : ℚ) := ⟨by norm_num, by norm_num⟩
  obtain ⟨q, hnum, hclose⟩ := hprod.div computes_compensation hconst.pos (by decide)
    (((hmax'.mul hrand').div hconst).ordinary (by decide) (by decide))
  refine ⟨_, q, by rw [rtcpInterval, bind_of_ok hshare], hnum, hclose, ?_⟩
  -- the shortest interval is far enough from the bound for eight roundings
  have hhalf : (0 : ℚ) ≤ (rand : ℚ) / RAND_MAX :=
    div_nonneg (by exact_mod_cast hr0) (by norm_num [RAND_MAX])
  have hleast : minTime initial * (1 / 2) / (121828 / 100000)
      ≤ q * factor .binary64 ^ 8 := by
    refine le_trans (div_le_div_of_nonneg_right ?_ hconst.pos.le) hclose.low
    exact mul_le_mul (le_max_right _ _) (by linarith) (by norm_num) hmax'.pos.le
  have hfactor : factor .binary64 ^ 8 ≤ 5 / 4 / (121828 / 100000) := by
    have hval : factor .binary64 = 1 + 2 / 2 ^ 53 := rfl
    rw [hval]
    norm_num
  have hq0 := hclose.left_nonneg one_le_factor64
  have hbound := le_trans hleast (mul_le_mul_of_nonneg_left hfactor hq0)
  cases initial
  · rw [minTime, if_neg (by decide)] at hbound
    rw [if_neg (by decide)]
    linarith
  · rw [minTime, if_pos rfl] at hbound
    rw [if_pos rfl]
    linarith

/-- Nine receivers before their first report, a drop in the ocean of the bandwidth. -/
theorem rtcpInterval_close_ten :
    ∃ t q, rtcpInterval 10 1 1000.0 false 100.0 true 1000000000 = .ok t ∧ IsNum t q ∧
      Close (factor .binary64) 8 q
        (interval 10 1 1000 false 100 true (((1000000000 : ℤ) : ℚ) / RAND_MAX)) ∧
      (if true then 1 else 2) ≤ q := by
  have hbw : IsNum 1000.0 (((1000 * 2 ^ 43 : ℕ) : ℚ) * 2 ^ (-43 : ℤ)) := rfl
  have hsize : IsNum 100.0 (((100 * 2 ^ 46 : ℕ) : ℚ) * 2 ^ (-46 : ℤ)) := rfl
  have hbw' : ((1000 * 2 ^ 43 : ℕ) : ℚ) * 2 ^ (-43 : ℤ) = 1000 := by norm_num
  have hsize' : ((100 * 2 ^ 46 : ℕ) : ℚ) * 2 ^ (-46 : ℤ) = 100 := by norm_num
  rw [hbw'] at hbw
  rw [hsize'] at hsize
  have hlow : (2 : ℚ) ^ (-400 : ℤ) ≤ 2 ^ (0 : ℤ) :=
    (zpow_le_zpow_iff_right₀ one_lt_two).mpr (by decide)
  have hhigh : (2 : ℚ) ^ (10 : ℤ) ≤ 2 ^ (400 : ℤ) :=
    (zpow_le_zpow_iff_right₀ one_lt_two).mpr (by decide)
  exact rtcpInterval_close (by decide) (by decide) (by decide) (by decide) hbw
    ⟨le_trans hlow (by norm_num), le_trans (by norm_num) hhigh⟩ hsize
    (.inr ⟨le_trans hlow (by norm_num), le_trans (by norm_num) hhigh⟩) (by decide) (by decide)
    false true

/-! ## Reverse reconsideration -/

/-- The times and the number of members they were last computed for. -/
structure Timers where
  tp : Float
  tn : Float
  pmembers : Int

/-- Members leave at `tc`, and the rest are counted. -/
def depart (tc : Float) (s : Timers) (members : Int) : Timers :=
  let (tp, tn) := rtcpReverseReconsider s.tp s.tn tc s.pmembers members
  ⟨tp, tn, members⟩

/-- The ratio of two counts in `double`. -/
theorem isNum_ratio {m n : Int} (hm0 : 0 ≤ m) (hmn : m ≤ n) (hn0 : 0 < n) (hn : n < 2 ^ 31) :
    ∃ r, IsNum (Float.ofInt m / Float.ofInt n) r ∧ 0 ≤ r ∧ r ≤ 1 ∧ |r - m / n| ≤ 1 / 2 ^ 53 := by
  have hm : (0 : ℚ) ≤ m := by exact_mod_cast hm0
  have hnpos : (0 : ℚ) < n := by exact_mod_cast hn0
  have hle : (m : ℚ) / n ≤ 1 := (div_le_one hnpos).mpr (by exact_mod_cast hmn)
  have hnonneg : (0 : ℚ) ≤ m / n := div_nonneg hm hnpos.le
  have habs : |(m : ℚ) / n| = m / n := abs_of_nonneg hnonneg
  have hbig : (m : ℚ) = 0 ∨ 2 ^ (-1021 : ℤ) ≤ |(m : ℚ) / n| := by
    rcases hm0.eq_or_lt with hzero | hpos
    · exact .inl (by rw [← hzero, Int.cast_zero])
    · have hone : Spans 0 31 (m : ℚ) := ⟨by rw [zpow_zero]; exact_mod_cast hpos, by
        norm_num
        exact_mod_cast (show m ≤ 2 ^ 31 by omega)⟩
      have hall : Spans 0 31 (n : ℚ) := ⟨by rw [zpow_zero]; exact_mod_cast hn0, by
        norm_num
        exact_mod_cast hn.le⟩
      rw [habs]
      exact .inr (le_trans ((zpow_le_zpow_iff_right₀ one_lt_two).mpr (by decide))
        (hone.div hall).1)
  have hdiv := isNum_div (isNum_ofInt hm0 (by omega)) (isNum_ofInt hn0.le (by omega)) hnpos.ne'
    hbig (fits (by rw [habs]; exact le_trans hle (by norm_num)))
  refine ⟨_, hdiv, rounded_nonneg hnonneg, ?_, ?_⟩
  · exact rounded_le ⟨1, 0, by norm_num, by decide, by decide⟩ hle
  · have hround := abs_rounded_sub_le_of_lt (f := .binary64) (k := 1) (x := (m : ℚ) / n)
      (by rw [habs]; exact lt_of_le_of_lt hle (by norm_num)) (by decide)
    exact le_trans hround (by norm_num [Format.binary64, Format.mantissaBits])

/-- The part of a difference that is left, where the ratio and the difference are rounded too. -/
theorem part_close {r ratio d : ℚ} (hr0 : 0 ≤ r) (hr1 : r ≤ 1) (hratio : |r - ratio| ≤ 1 / 2 ^ 53)
    (hratio0 : 0 ≤ ratio) (hratio1 : ratio ≤ 1) (hd0 : 0 ≤ d) (hd : d < 2 ^ 33) :
    0 ≤ part .binary64 r d ∧ part .binary64 r d ≤ rounded64 d ∧ rounded64 d ≤ 2 ^ 33 ∧
      |part .binary64 r d - ratio * d| ≤ 5 / 2 ^ 21 := by
  have hdiff0 : 0 ≤ rounded64 d := rounded_nonneg hd0
  have hdiff : rounded64 d ≤ 2 ^ 33 :=
    rounded_le ⟨1, 33, by norm_num, by decide, by decide⟩ hd.le
  have hprod0 : 0 ≤ r * rounded64 d := mul_nonneg hr0 hdiff0
  have hprod : r * rounded64 d ≤ rounded64 d := mul_le_of_le_one_left hdiff0 hr1
  have hfirst : |rounded64 d - d| ≤ 1 / 2 ^ 21 := by
    refine le_trans (abs_rounded_sub_le_of_lt (k := 33) ?_ (by decide)) ?_
    · rw [abs_of_nonneg hd0]
      exact_mod_cast hd
    · norm_num [Format.binary64, Format.mantissaBits]
  have hsecond : |part .binary64 r d - r * rounded64 d| ≤ 1 / 2 ^ 20 := by
    refine le_trans (abs_rounded_sub_le_of_lt (k := 34) ?_ (by decide)) ?_
    · change |r * rounded64 d| < _
      rw [abs_of_nonneg hprod0]
      exact lt_of_le_of_lt (le_trans hprod hdiff) (by norm_num)
    · norm_num [Format.binary64, Format.mantissaBits]
  refine ⟨rounded_nonneg hprod0, rounded_le (representable_rounded _ _) hprod, hdiff, ?_⟩
  have hleft : |(r - ratio) * rounded64 d| ≤ 1 / 2 ^ 53 * 2 ^ 33 := by
    rw [abs_mul, abs_of_nonneg hdiff0]
    exact mul_le_mul hratio hdiff hdiff0 (by norm_num)
  have hright : |ratio * (rounded64 d - d)| ≤ 1 * (1 / 2 ^ 21) := by
    rw [abs_mul, abs_of_nonneg hratio0]
    exact mul_le_mul hratio1 hfirst (abs_nonneg _) one_pos.le
  have hsplit : part .binary64 r d - ratio * d = (part .binary64 r d - r * rounded64 d)
      + ((r - ratio) * rounded64 d + ratio * (rounded64 d - d)) := by ring
  rw [hsplit]
  refine le_trans (abs_add_le _ _) (le_trans (add_le_add hsecond (abs_add_le _ _)) ?_)
  have hsum := add_le_add hleft hright
  norm_num at hsum ⊢
  linarith

variable {tc : Float} {s : Timers} {p n c : ℚ} {m : Int}

theorem isNum_part {r d : ℚ} {w x y : Float} {a b : ℚ} (hr : IsNum w r) (hr0 : 0 ≤ r) (hr1 : r ≤ 1)
    (hx : IsNum x a) (hy : IsNum y b) (hd : a - b = d) (hd0 : 0 ≤ d) (hd33 : d < 2 ^ 33) :
    IsNum (w * (x - y)) (part .binary64 r d) := by
  have hsub := isNum_sub hx hy (fits (by
    rw [hd, abs_of_nonneg hd0]
    exact le_trans hd33.le (by norm_num)))
  rw [hd] at hsub
  have hdiff0 : 0 ≤ rounded64 d := rounded_nonneg hd0
  have hdiff : rounded64 d ≤ 2 ^ 33 :=
    rounded_le ⟨1, 33, by norm_num, by decide, by decide⟩ hd33.le
  refine isNum_mul hr hsub (fits ?_)
  change |r * rounded64 d| ≤ _
  rw [abs_of_nonneg (mul_nonneg hr0 hdiff0)]
  exact le_trans (mul_le_of_le_one_left hdiff0 hr1) (le_trans hdiff (by norm_num))

/-- The times around the present, as the numbers they are. -/
structure Around (s : Timers) (c p n : ℚ) : Prop where
  tp : IsNum s.tp p
  tn : IsNum s.tn n
  nonneg : 0 ≤ p
  past : p ≤ c
  future : c ≤ n

/-- The next report comes closer and does not pass the present. -/
theorem depart_tn (hc : IsNum tc c) (h : Around s c p n) (hn : n < 2 ^ 33) (hm0 : 0 ≤ m)
    (hm : m ≤ s.pmembers) (hpm0 : 0 < s.pmembers) (hpm : s.pmembers < 2 ^ 31) :
    ∃ n', IsNum (depart tc s m).tn n' ∧ c ≤ n' ∧
      |n' - (c + m / s.pmembers * (n - c))| ≤ 1 / 2 ^ 18 := by
  obtain ⟨-, htn, h0, hpc, hcn⟩ := h
  obtain ⟨r, hr, hr0, hr1, hratio⟩ := isNum_ratio hm0 hm hpm0 hpm
  have hpmpos : (0 : ℚ) < s.pmembers := by exact_mod_cast hpm0
  have hc0 : 0 ≤ c := le_trans h0 hpc
  have hd0 : 0 ≤ n - c := sub_nonneg.mpr hcn
  have hd : n - c < 2 ^ 33 := lt_of_le_of_lt (sub_le_self n hc0) hn
  obtain ⟨hpart0, hpart, hpart33, herror⟩ := part_close hr0 hr1 hratio
    (div_nonneg (by exact_mod_cast hm0) hpmpos.le)
    ((div_le_one hpmpos).mpr (by exact_mod_cast hm)) hd0 hd
  have hsum0 : 0 ≤ c + part .binary64 r (n - c) := add_nonneg hc0 hpart0
  have hsum : c + part .binary64 r (n - c) < 2 ^ 34 := by
    have hc33 : c < 2 ^ 33 := lt_of_le_of_lt hcn hn
    norm_num at hc33 hpart33 ⊢
    linarith
  have hadd := isNum_add hc (isNum_part hr hr0 hr1 htn hc rfl hd0 hd) (fits (by
    rw [abs_of_nonneg hsum0]
    exact le_trans hsum.le (by norm_num)))
  refine ⟨_, hadd, le_rounded hc.representable (le_add_of_nonneg_right hpart0), ?_⟩
  have hround : |rounded64 (c + part .binary64 r (n - c)) - (c + part .binary64 r (n - c))|
      ≤ 1 / 2 ^ 20 := by
    refine le_trans (abs_rounded_sub_le_of_lt (k := 34) ?_ (by decide)) ?_
    · rw [abs_of_nonneg hsum0]
      exact_mod_cast hsum
    · norm_num [Format.binary64, Format.mantissaBits]
  have hsplit : rounded64 (c + part .binary64 r (n - c)) - (c + m / s.pmembers * (n - c))
      = (rounded64 (c + part .binary64 r (n - c)) - (c + part .binary64 r (n - c)))
        + (part .binary64 r (n - c) - m / s.pmembers * (n - c)) := by ring
  rw [hsplit]
  exact le_trans (abs_add_le _ _) (le_trans (add_le_add hround herror) (by norm_num))

/-- The last report moves up and does not pass the present either. -/
theorem depart_tp (hc : IsNum tc c) (h : Around s c p n) (hn : n < 2 ^ 33) (hm0 : 0 ≤ m)
    (hm : m ≤ s.pmembers) (hpm0 : 0 < s.pmembers) (hpm : s.pmembers < 2 ^ 31) :
    ∃ p', IsNum (depart tc s m).tp p' ∧ 0 ≤ p' ∧ p' ≤ c ∧
      |p' - (c - m / s.pmembers * (c - p))| ≤ 1 / 2 ^ 18 := by
  obtain ⟨htp, -, h0, hpc, hcn⟩ := h
  obtain ⟨r, hr, hr0, hr1, hratio⟩ := isNum_ratio hm0 hm hpm0 hpm
  have hpmpos : (0 : ℚ) < s.pmembers := by exact_mod_cast hpm0
  have hc33 : c < 2 ^ 33 := lt_of_le_of_lt hcn hn
  have hd0 : 0 ≤ c - p := sub_nonneg.mpr hpc
  have hd : c - p < 2 ^ 33 := lt_of_le_of_lt (sub_le_self c h0) hc33
  obtain ⟨hpart0, hpart, -, herror⟩ := part_close hr0 hr1 hratio
    (div_nonneg (by exact_mod_cast hm0) hpmpos.le)
    ((div_le_one hpmpos).mpr (by exact_mod_cast hm)) hd0 hd
  have hwhole : rounded64 (c - p) ≤ c := rounded_le hc.representable (sub_le_self c h0)
  have hsub0 : 0 ≤ c - part .binary64 r (c - p) := sub_nonneg.mpr (le_trans hpart hwhole)
  have hsub33 : c - part .binary64 r (c - p) < 2 ^ 34 :=
    lt_of_le_of_lt (sub_le_self c hpart0) (lt_trans hc33 (by norm_num))
  have hsub := isNum_sub hc (isNum_part hr hr0 hr1 hc htp rfl hd0 hd) (fits (by
    rw [abs_of_nonneg hsub0]
    exact le_trans hsub33.le (by norm_num)))
  refine ⟨_, hsub, rounded_nonneg hsub0,
    rounded_le hc.representable (sub_le_self c hpart0), ?_⟩
  have hround : |rounded64 (c - part .binary64 r (c - p)) - (c - part .binary64 r (c - p))|
      ≤ 1 / 2 ^ 20 := by
    refine le_trans (abs_rounded_sub_le_of_lt (k := 34) ?_ (by decide)) ?_
    · rw [abs_of_nonneg hsub0]
      exact_mod_cast hsub33
    · norm_num [Format.binary64, Format.mantissaBits]
  have hsplit : rounded64 (c - part .binary64 r (c - p)) - (c - m / s.pmembers * (c - p))
      = (rounded64 (c - part .binary64 r (c - p)) - (c - part .binary64 r (c - p)))
        - (part .binary64 r (c - p) - m / s.pmembers * (c - p)) := by ring
  rw [hsplit]
  exact le_trans (abs_sub _ _) (le_trans (add_le_add hround herror) (by norm_num))

/-! ### Departures at one time -/

/-- The times keep their order, and are where one departure of all the members would have drawn
them, up to `2 ^ -18` seconds for each. -/
structure Drawn (s s' : Timers) (c p n : ℚ) (count : ℕ) (p' n' : ℚ) : Prop where
  around : Around s' c p' n'
  tn : |n' - (c + s'.pmembers / s.pmembers * (n - c))| ≤ count / 2 ^ 18
  tp : |p' - (c - s'.pmembers / s.pmembers * (c - p))| ≤ count / 2 ^ 18

/-- Two ratios make one, and the error of the first shrinks with the second. -/
theorem abs_drawn_le {a b e x y z : ℚ} {k : ℕ} (hb : b ≠ 0) (hratio0 : 0 ≤ e / b)
    (hratio1 : e / b ≤ 1) (hxy : |y - (c + b / a * x)| ≤ k / 2 ^ 18)
    (hyz : |z - (c + e / b * (y - c))| ≤ 1 / 2 ^ 18) :
    |z - (c + e / a * x)| ≤ (k + 1 : ℕ) / 2 ^ 18 := by
  have hone : e / b * (b / a * x) = e / a * x := by
    rw [← mul_assoc, div_mul_div_cancel₀ hb]
  have hsplit : z - (c + e / a * x)
      = (z - (c + e / b * (y - c))) + e / b * (y - (c + b / a * x)) := by
    rw [← hone]
    ring
  have hshrunk : |e / b * (y - (c + b / a * x))| ≤ k / 2 ^ 18 := by
    rw [abs_mul, abs_of_nonneg hratio0]
    exact le_trans (mul_le_of_le_one_left (abs_nonneg _) hratio1) hxy
  rw [hsplit, Nat.cast_succ, add_div, add_comm ((k : ℚ) / 2 ^ 18)]
  exact le_trans (abs_add_le _ _) (add_le_add hyz hshrunk)

theorem pmembers_mem (tc : Float) (s : Timers) (counts : List Int) :
    (counts.foldl (depart tc) s).pmembers ∈ s.pmembers :: counts := by
  induction counts using List.reverseRecOn with
  | nil => exact List.mem_cons_self
  | append_singleton counts m _ =>
    rw [List.foldl_concat]
    exact List.mem_cons_of_mem _ (List.mem_append_right _ List.mem_cons_self)

/-- Each departure leaves fewer members than there were. -/
def Leaving (s : Timers) (counts : List Int) : Prop :=
  (s.pmembers :: counts).Pairwise (· > ·) ∧ ∀ m ∈ counts, 0 ≤ m

theorem leaving_concat {counts : List Int} (h : Leaving s (counts ++ [m])) :
    Leaving s counts ∧ 0 ≤ m ∧ ∀ tc, m < (counts.foldl (depart tc) s).pmembers := by
  obtain ⟨hpair, hnonneg⟩ := h
  rw [← List.cons_append, List.pairwise_append] at hpair
  obtain ⟨hfirst, -, hlast⟩ := hpair
  refine ⟨⟨hfirst, fun k hk => hnonneg k (List.mem_append_left _ hk)⟩,
    hnonneg m (List.mem_append_right _ List.mem_cons_self), fun tc => ?_⟩
  exact hlast _ (pmembers_mem tc s counts) m List.mem_cons_self

theorem pmembers_le (tc : Float) {counts : List Int} (h : Leaving s counts) :
    (counts.foldl (depart tc) s).pmembers + counts.length ≤ s.pmembers := by
  induction counts using List.reverseRecOn with
  | nil => exact (Int.add_zero _).le
  | append_singleton counts m ih =>
    obtain ⟨hfirst, -, hlt⟩ := leaving_concat h
    have hle := ih hfirst
    have hm := hlt tc
    rw [List.foldl_concat, List.length_append, List.length_singleton]
    change m + ((counts.length + 1 : ℕ) : ℤ) ≤ _
    push_cast
    omega

/-- The errors of a burst do not add up to much. -/
theorem drawn_lt {t : Timers} {n' : ℚ} {k : ℕ} (h : Around s c p n) (hn : n < 2 ^ 32)
    (hpmpos : (0 : ℚ) < s.pmembers) (ht : t.pmembers ≤ s.pmembers) (hk : (k : ℤ) < 2 ^ 31)
    (hdrawn : |n' - (c + t.pmembers / s.pmembers * (n - c))| ≤ k / 2 ^ 18) : n' < 2 ^ 33 := by
  have hratio : (t.pmembers : ℚ) / s.pmembers ≤ 1 :=
    (div_le_one hpmpos).mpr (by exact_mod_cast ht)
  have hdiff := mul_le_of_le_one_left (sub_nonneg.mpr h.future) hratio
  have hcast : (k : ℚ) < 2 ^ 31 := by exact_mod_cast hk
  have hsmall : (k : ℚ) / 2 ^ 18 < 2 ^ 13 := by
    rw [div_lt_iff₀ (by positivity)]
    exact lt_of_lt_of_le hcast (by norm_num)
  obtain ⟨-, hhigh⟩ := abs_le.mp hdrawn
  norm_num at hn hsmall ⊢
  linarith

/-- A burst of departures draws the times as one departure of all of them does. -/
theorem departures_drawn (hc : IsNum tc c) (h : Around s c p n) (hn : n < 2 ^ 32)
    (hpm : s.pmembers < 2 ^ 31) (hpm0 : 0 < s.pmembers) {counts : List Int}
    (hleaving : Leaving s counts) :
    ∃ p' n', Drawn s (counts.foldl (depart tc) s) c p n counts.length p' n' := by
  have hpmpos : (0 : ℚ) < s.pmembers := by exact_mod_cast hpm0
  induction counts using List.reverseRecOn with
  | nil =>
    refine ⟨p, n, h, ?_, ?_⟩
    · rw [List.foldl_nil, div_self hpmpos.ne', one_mul, add_sub_cancel, sub_self, abs_zero]
      positivity
    · rw [List.foldl_nil, div_self hpmpos.ne', one_mul, sub_sub_cancel, sub_self, abs_zero]
      positivity
  | append_singleton counts m ih =>
    obtain ⟨hfirst, hm0, hlt⟩ := leaving_concat hleaving
    obtain ⟨p', n', haround, htn, htp⟩ := ih hfirst
    have hcount := pmembers_le tc hfirst
    have hless := hlt tc
    rw [List.foldl_concat, List.length_append, List.length_singleton]
    generalize counts.foldl (depart tc) s = t at *
    have ht0 : 0 < t.pmembers := lt_of_le_of_lt hm0 hless
    have htpos : (0 : ℚ) < t.pmembers := by exact_mod_cast ht0
    have hratio0 : (0 : ℚ) ≤ m / t.pmembers := div_nonneg (by exact_mod_cast hm0) htpos.le
    have hratio1 : (m : ℚ) / t.pmembers ≤ 1 := (div_le_one htpos).mpr (by exact_mod_cast hless.le)
    have hn33 := drawn_lt h hn hpmpos (by omega) (show (counts.length : ℤ) < 2 ^ 31 by omega) htn
    obtain ⟨n'', hnum, hfuture, hn''⟩ :=
      depart_tn hc haround hn33 hm0 hless.le ht0 (by omega)
    obtain ⟨p'', hnum', hnonneg, hpast, hp''⟩ :=
      depart_tp hc haround hn33 hm0 hless.le ht0 (by omega)
    refine ⟨p'', n'', ⟨hnum', hnum, hnonneg, hpast, hfuture⟩, ?_, ?_⟩
    · exact abs_drawn_le htpos.ne' hratio0 hratio1 htn hn''
    · have hflip (e b x : ℚ) : c - e / b * (c - x) = c + e / b * (x - c) := by ring
      rw [hflip] at htp hp'' ⊢
      exact abs_drawn_le htpos.ne' hratio0 hratio1 htp hp''

/-- Of ten members eight leave, the last six at once. -/
theorem departures_drawn_three :
    ∃ p' n', Drawn ⟨0.25, 5.0, 10⟩ ([9, 8, 2].foldl (depart 1.0) ⟨0.25, 5.0, 10⟩) 1 (1 / 4) 5 3
      p' n' :=
  departures_drawn (s := ⟨0.25, 5.0, 10⟩) isNum_one
    ⟨isNum_quarter, isNum_minTime false, by norm_num, by norm_num, by norm_num [minTime]⟩
    (by norm_num [minTime]) (by decide) (by decide)
    (show Leaving ⟨0.25, 5.0, 10⟩ [9, 8, 2] from ⟨by decide, by decide⟩)

end RtpSdr.Rtp.Interval
