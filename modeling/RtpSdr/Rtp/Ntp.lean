import RtpSdr.Lib.Binary64
import RtpSdr.Rtp.ReportInit

/-!
# Timestamps through `double`: `rtp_ntp.c`

A timestamp is 64 bits, 32 of them behind the point, and a `double` keeps 53. What the
conversions do is best said in units of `2 ^ -32` seconds, where a timestamp is a whole number:
they round it, and a difference is rounded once more.
-/
namespace RtpSdr.Rtp.Ntp

open RtpSdr.Lib.Checked
open RtpSdr.Lib.Rounding
open RtpSdr.Lib.Binary64
open RtpSdr.Rtp.SourceLoss (NtpTv)
open RtpSdr.Rtp.ReportInit (ntpShort)

section Source

/-- 1970 - 1900 in seconds. -/
def LIBRTP_NTP_UNIX_OFFSET : UInt64 := 2208988800

/-- `2 ^ 32` as a `double`. -/
def LIBRTP_NTP_FRAC : Float := 4294967296.0

def ntpToDouble (ntp : NtpTv) : Float :=
  let s := ntp.sec.toFloat
  s + ntp.frac.toFloat / LIBRTP_NTP_FRAC

def ntpToUnix (ntp : NtpTv) : Float := ntpToDouble ntp - LIBRTP_NTP_UNIX_OFFSET.toFloat

/-- `(uint32_t) x`, which C defines only where the truncated number fits. -/
def castUInt32 (x : Float) : Exec UInt32 :=
  if -1.0 < x ∧ x < 4294967296.0 then .ok x.toUInt32 else .error .overflow

def ntpFromDouble (s : Float) : Exec NtpTv := do
  let sec ← castUInt32 s
  let frac := s - sec.toFloat
  let frac ← castUInt32 (frac * LIBRTP_NTP_FRAC)
  .ok ⟨sec, frac⟩

def ntpFromUnix (s : Float) : Exec NtpTv := ntpFromDouble (s + LIBRTP_NTP_UNIX_OFFSET.toFloat)

def ntpDiff (a b : NtpTv) : Exec NtpTv :=
  let s1 := ntpToDouble a
  let s2 := ntpToDouble b
  ntpFromDouble (s1 - s2)

end Source

/-! ## Units of `2 ^ -32` seconds -/

/-- The timestamp as a whole number of units. -/
def units (ntp : NtpTv) : ℕ := ntp.sec.toNat * 2 ^ 32 + ntp.frac.toNat

theorem units_lt (ntp : NtpTv) : units ntp < 2 ^ 64 := by
  have hsec := ntp.sec.toNat_lt
  have hfrac := ntp.frac.toNat_lt
  rw [units]
  omega

theorem units_inj {a b : NtpTv} (h : units a = units b) : a = b := by
  have hfrac := a.frac.toNat_lt
  have hfrac' := b.frac.toNat_lt
  rw [units, units] at h
  have hsec : a.sec = b.sec := UInt32.toNat_inj.mp (by omega)
  have hfrac : a.frac = b.frac := UInt32.toNat_inj.mp (by omega)
  cases a
  cases b
  exact congrArg₂ NtpTv.mk hsec hfrac

/-- The short format: the units shifted by 16 bits, in 32 bits. -/
theorem toNat_ntpShort (ntp : NtpTv) : (ntpShort ntp).toNat = units ntp / 2 ^ 16 % 2 ^ 32 := by
  have hsec := ntp.sec.toNat_lt
  have hfrac := ntp.frac.toNat_lt
  have hlow : ntp.frac.toNat >>> 16 < 2 ^ 16 := by
    rw [Nat.shiftRight_eq_div_pow]
    omega
  rw [ntpShort, UInt32.toNat_or, UInt32.toNat_shiftLeft, UInt32.toNat_shiftRight, units]
  change ntp.sec.toNat <<< 16 % 2 ^ 32 ||| ntp.frac.toNat >>> 16 = _
  rw [Nat.shiftLeft_eq]
  have hor : ntp.sec.toNat * 2 ^ 16 % 2 ^ 32 ||| ntp.frac.toNat >>> 16
      = ntp.sec.toNat % 2 ^ 16 * 2 ^ 16 + ntp.frac.toNat >>> 16 := by
    have hmul : ntp.sec.toNat * 2 ^ 16 % 2 ^ 32 = ntp.sec.toNat % 2 ^ 16 * 2 ^ 16 := by omega
    rw [hmul]
    exact RtpSdr.Lib.BigEndian.or_eq_add hlow
  rw [hor, Nat.shiftRight_eq_div_pow]
  omega

/-- The timestamp of so many units. -/
def ofUnits (n : ℕ) : NtpTv := ⟨UInt32.ofNat (n / 2 ^ 32), UInt32.ofNat (n % 2 ^ 32)⟩

theorem units_ofUnits {n : ℕ} (h : n < 2 ^ 64) : units (ofUnits n) = n := by
  have hsec := UInt32.toNat_ofNat_of_lt' (n := n / 2 ^ 32) (by rw [UInt32.size]; omega)
  have hfrac := UInt32.toNat_ofNat_of_lt' (n := n % 2 ^ 32) (by rw [UInt32.size]; omega)
  rw [units, ofUnits, hsec, hfrac]
  omega

/-- The float is so many units. -/
def HasUnits (x : Float) (n : ℤ) : Prop := IsNum x (n * 2 ^ (-32 : ℤ))

section Conversions

variable {x y : Float} {m n : ℤ}

theorem abs_units_le (h : |n| ≤ 2 ^ 66) : |(n : ℚ) * 2 ^ (-32 : ℤ)| ≤ 2 ^ (64 : ℤ) := by
  have hn : |(n : ℚ)| ≤ 2 ^ 66 := by
    rw [← Int.cast_abs]
    exact_mod_cast h
  have hunit : (2 : ℚ) ^ (-32 : ℤ) = 1 / 2 ^ 32 := by norm_num
  rw [abs_mul, abs_of_pos (two_zpow_pos _), hunit]
  have : (2 : ℚ) ^ (64 : ℤ) = 2 ^ 64 := by norm_num
  linarith

theorem HasUnits.add (hx : HasUnits x m) (hy : HasUnits y n) (hfit : |m + n| ≤ 2 ^ 66) :
    HasUnits (x + y) (rounded53 (m + n)) := by
  have hsum : (m : ℚ) * 2 ^ (-32 : ℤ) + n * 2 ^ (-32 : ℤ) = (m + n : ℤ) * 2 ^ (-32 : ℤ) := by
    rw [← add_mul, Int.cast_add]
  have hadd := isNum_add hx hy (by rw [hsum]; exact fits (abs_units_le hfit))
  rw [hsum, rounded64_mul_zpow _ (by decide)] at hadd
  exact hadd

theorem HasUnits.sub (hx : HasUnits x m) (hy : HasUnits y n) (hfit : |m - n| ≤ 2 ^ 66) :
    HasUnits (x - y) (rounded53 (m - n)) := by
  have hdiff : (m : ℚ) * 2 ^ (-32 : ℤ) - n * 2 ^ (-32 : ℤ) = (m - n : ℤ) * 2 ^ (-32 : ℤ) := by
    rw [← sub_mul, Int.cast_sub]
  have hsub := isNum_sub hx hy (by rw [hdiff]; exact fits (abs_units_le hfit))
  rw [hdiff, rounded64_mul_zpow _ (by decide)] at hsub
  exact hsub

/-- A whole number of units that 53 digits hold. -/
theorem rounded53_of_abs_le (h : |n| ≤ 2 ^ 53) : rounded53 n = n :=
  rounded53_of_multiple (m := n) (k := 0) (by rw [pow_zero, mul_one]) h

theorem hasUnits_seconds (hx : IsNum x n) : HasUnits x (n * 2 ^ 32) := by
  have hunit : (2 : ℚ) ^ 32 * 2 ^ (-32 : ℤ) = 1 := by norm_num
  rw [HasUnits, Int.cast_mul, Int.cast_pow, Int.cast_ofNat, mul_assoc, hunit, mul_one]
  exact hx

theorem isNum_frac : IsNum LIBRTP_NTP_FRAC ((2 ^ 32 : ℤ) : ℚ) := by
  have hbits : IsNum LIBRTP_NTP_FRAC (((2 ^ 52 : ℕ) : ℚ) * 2 ^ (-20 : ℤ)) := rfl
  have hval : (((2 ^ 52 : ℕ) : ℚ) * 2 ^ (-20 : ℤ)) = ((2 ^ 32 : ℤ) : ℚ) := by norm_num
  rw [hval] at hbits
  exact hbits

theorem isNum_unixOffset : IsNum LIBRTP_NTP_UNIX_OFFSET.toFloat (2208988800 : ℤ) :=
  isNum_toFloat_uint64 (by decide)

/-! ### Casts -/

theorem isNum_negOne : IsNum (-1.0) (-1) := by
  have hbits : IsNum (-1.0) (-(((2 ^ 52 : ℕ) : ℚ) * 2 ^ (-52 : ℤ))) := rfl
  have hval : -(((2 ^ 52 : ℕ) : ℚ) * 2 ^ (-52 : ℤ)) = -1 := by norm_num
  rw [hval] at hbits
  exact hbits

theorem castUInt32_eq {q : ℚ} (hx : IsNum x q) : castUInt32 x =
    if -1 < q ∧ q < 2 ^ 32 then .ok x.toUInt32 else .error .overflow := by
  have hhigh := isNum_frac
  rw [Int.cast_pow, Int.cast_ofNat] at hhigh
  rw [castUInt32]
  exact if_congr (and_congr (lt_iff isNum_negOne hx) (lt_iff hx hhigh)) rfl rfl

theorem castUInt32_floor {q : ℚ} (hx : IsNum x q) (h0 : 0 ≤ q) (h : q < 2 ^ 32) :
    castUInt32 x = .ok (UInt32.ofNat ⌊q⌋.toNat) := by
  have hfloor := toNat_toUInt32 hx h0 h
  have hfit := x.toUInt32.toNat_lt
  rw [castUInt32_eq hx, if_pos ⟨by linarith, h⟩]
  refine congrArg Except.ok (UInt32.toNat_inj.mp ?_)
  rw [UInt32.toNat_ofNat_of_lt' (by rw [UInt32.size]; omega)]
  omega

/-- The cast of a whole number. -/
theorem castUInt32_int (hx : IsNum x n) : castUInt32 x =
    if 0 ≤ n ∧ n < 2 ^ 32 then .ok (UInt32.ofNat n.toNat) else .error .overflow := by
  rw [castUInt32_eq hx]
  have hrange : (-1 < (n : ℚ) ∧ (n : ℚ) < 2 ^ 32) ↔ (0 ≤ n ∧ n < 2 ^ 32) := by
    have hlow : -1 < (n : ℚ) ↔ -1 < n := by exact_mod_cast Iff.rfl
    have hhigh : (n : ℚ) < 2 ^ 32 ↔ n < 2 ^ 32 := by exact_mod_cast Iff.rfl
    rw [hlow, hhigh]
    omega
  by_cases h : 0 ≤ n ∧ n < 2 ^ 32
  · have hcast := castUInt32_floor hx (by exact_mod_cast h.1) (by exact_mod_cast h.2)
    rw [castUInt32_eq hx, Int.floor_intCast] at hcast
    rw [if_pos h]
    exact hcast
  · rw [if_neg (mt hrange.mp h), if_neg h]

/-- The cast to whole seconds. -/
theorem castUInt32_units (hx : HasUnits x n) (h0 : 0 ≤ n) : castUInt32 x =
    if n < 2 ^ 64 then .ok (UInt32.ofNat (n / 2 ^ 32).toNat) else .error .overflow := by
  have hunit : (2 : ℚ) ^ (-32 : ℤ) = 1 / 2 ^ 32 := by norm_num
  have hn : (0 : ℚ) ≤ n := Int.cast_nonneg h0
  have hlow : (0 : ℚ) ≤ n * 2 ^ (-32 : ℤ) := mul_nonneg hn (two_zpow_pos _).le
  have hhigh : (n : ℚ) * 2 ^ (-32 : ℤ) < 2 ^ 32 ↔ n < 2 ^ 64 := by
    rw [hunit, mul_one_div, div_lt_iff₀ (by norm_num)]
    norm_num
    exact_mod_cast Iff.rfl
  by_cases h : n < 2 ^ 64
  · have hfloor : ⌊(n : ℚ) * 2 ^ (-32 : ℤ)⌋ = n / 2 ^ 32 := by
      rw [hunit, mul_one_div]
      exact_mod_cast Rat.floor_intCast_div_natCast n (2 ^ 32)
    rw [if_pos h, castUInt32_floor hx hlow (hhigh.mpr h), hfloor]
  · rw [castUInt32_eq hx, if_neg fun hc => h (hhigh.mp hc.2), if_neg h]

/-! ### From units and back -/

theorem ntpToDouble_spec (ntp : NtpTv) : HasUnits (ntpToDouble ntp) (rounded53 (units ntp)) := by
  have hsec := ntp.sec.toNat_lt
  have hfrac := ntp.frac.toNat_lt
  have hpow : (2 : ℚ) ^ (-32 : ℤ) = ((2 ^ 32 : ℤ) : ℚ)⁻¹ := by norm_num
  have hdiv : IsNum (ntp.frac.toFloat / LIBRTP_NTP_FRAC)
      (rounded64 (((ntp.frac.toNat : ℤ) : ℚ) * 2 ^ (-32 : ℤ))) := by
    rw [hpow, ← div_eq_mul_inv]
    refine isNum_div (isNum_toFloat_uint32 _) isNum_frac (by norm_num) ?_ ?_
    · by_cases hzero : ntp.frac.toNat = 0
      · exact .inl (by rw [hzero, Nat.cast_zero, Int.cast_zero])
      · refine .inr ?_
        have hone : (1 : ℚ) ≤ ((ntp.frac.toNat : ℤ) : ℚ) := by
          exact_mod_cast Nat.one_le_iff_ne_zero.mpr hzero
        have hsmall : (2 : ℚ) ^ (-1021 : ℤ) ≤ 2 ^ (-32 : ℤ) :=
          (zpow_le_zpow_iff_right₀ one_lt_two).mpr (by decide)
        rw [div_eq_mul_inv, ← hpow, abs_of_nonneg (by positivity)]
        exact le_trans hsmall (le_mul_of_one_le_left (two_zpow_pos _).le hone)
    · rw [div_eq_mul_inv, ← hpow]
      exact fits (abs_units_le (by rw [Nat.abs_cast]; omega))
  rw [rounded64_mul_zpow _ (by decide), rounded53_of_abs_le (by rw [Nat.abs_cast]; omega)] at hdiv
  have hsum := (hasUnits_seconds (isNum_toFloat_uint32 ntp.sec)).add hdiv (by
    rw [abs_le]
    omega)
  have hunits : ((ntp.sec.toNat : ℤ) * 2 ^ 32 + ntp.frac.toNat) = (units ntp : ℤ) := by
    rw [units]
    push_cast
    rfl
  rw [hunits] at hsum
  exact hsum

theorem HasUnits.rounded53 (hx : HasUnits x n) : rounded53 n = n := by
  have hround := hx.rounded64
  rw [rounded64_mul_zpow _ (by decide)] at hround
  exact_mod_cast mul_right_cancel₀ (two_zpow_pos (-32)).ne' hround

/-- Scaled to a whole number. -/
theorem HasUnits.scaled (hx : HasUnits x n) (hn : |n| ≤ 2 ^ 66) :
    IsNum (x * LIBRTP_NTP_FRAC) n := by
  have hprod : (n : ℚ) * 2 ^ (-32 : ℤ) * ((2 ^ 32 : ℤ) : ℚ) = (n : ℤ) := by
    have hunit : (2 : ℚ) ^ (-32 : ℤ) * ((2 ^ 32 : ℤ) : ℚ) = 1 := by norm_num
    rw [mul_assoc, hunit, mul_one]
  have hmul := isNum_mul hx isNum_frac (by
    rw [hprod, ← Int.cast_abs]
    have hle : ((|n| : ℤ) : ℚ) ≤ ((2 ^ 66 : ℤ) : ℚ) := Int.cast_le.mpr hn
    refine le_trans hle ?_
    rw [Int.cast_pow, Int.cast_ofNat, ← zpow_natCast]
    exact (zpow_le_zpow_iff_right₀ one_lt_two).mpr (by decide))
  rw [hprod, ← cast_rounded53, hx.rounded53] at hmul
  exact hmul

/-- A number of units is a timestamp where it has 64 bits, and no defined cast anywhere else. -/
theorem ntpFromDouble_spec (hx : HasUnits x n) (hn : |n| ≤ 2 ^ 65) : ntpFromDouble x =
    if 0 ≤ n ∧ n < 2 ^ 64 then .ok (ofUnits n.toNat) else .error .overflow := by
  have hrest (v : UInt32) (hfit : |n - v.toNat * 2 ^ 32| ≤ 2 ^ 66) :=
    hx.sub (hasUnits_seconds (isNum_toFloat_uint32 v)) hfit
  have hn' := abs_le.mp hn
  rw [ntpFromDouble]
  by_cases h0 : 0 ≤ n
  · rw [castUInt32_units hx h0]
    by_cases h : n < 2 ^ 64
    · have hsec := UInt32.toNat_ofNat_of_lt' (n := (n / 2 ^ 32).toNat)
        (by rw [UInt32.size]; omega)
      have hmod : n - ((UInt32.ofNat (n / 2 ^ 32).toNat).toNat : ℤ) * 2 ^ 32 = n % 2 ^ 32 := by
        rw [hsec]
        omega
      have hsub := hrest (UInt32.ofNat (n / 2 ^ 32).toNat) (by rw [hmod, abs_le]; omega)
      rw [hmod, rounded53_of_abs_le (by rw [abs_le]; omega)] at hsub
      rw [if_pos h, ok_bind]
      dsimp only
      rw [castUInt32_int (hsub.scaled (by rw [abs_le]; omega)), if_pos (by omega), ok_bind,
        if_pos ⟨h0, h⟩]
      refine congrArg Except.ok (congrArg₂ NtpTv.mk (congrArg _ ?_) (congrArg _ ?_))
      · omega
      · omega
    · rw [if_neg h, error_bind, if_neg fun hc => h hc.2]
  · rw [if_neg fun hc => h0 hc.1, castUInt32_eq hx]
    split
    · rw [ok_bind]
      dsimp only
      generalize x.toUInt32 = v
      have hlt := v.toNat_lt
      have hsub := hrest v (by rw [abs_le]; omega)
      -- Whatever the cast of the negative number gives, the rest is negative.
      have hneg : rounded53 (n - v.toNat * 2 ^ 32) ≤ -1 := by
        have hmono := rounded53_mono (m := n - v.toNat * 2 ^ 32) (n := -1) (by omega)
        rw [rounded53_of_abs_le (n := -1) (by decide)] at hmono
        exact hmono
      have hclose := abs_le.mp (abs_rounded53_sub_le (n := n - v.toNat * 2 ^ 32) (k := 12)
        (by rw [abs_lt]; omega))
      rw [castUInt32_int (hsub.scaled (by rw [abs_le]; omega)), if_neg (by omega), error_bind]
    · rw [error_bind]

end Conversions

/-! ## Round trips -/

/-- The timestamps within half a unit in the last place of `2 ^ 64`. -/
theorem rounded53_lt_iff {n : ℕ} (h : n < 2 ^ 64) :
    rounded53 n < 2 ^ 64 ↔ n < 2 ^ 64 - 2 ^ 10 := by
  constructor
  · intro hlt
    by_contra hge
    have htop : rounded53 (2 ^ 64 - 2 ^ 10) = 2 ^ 64 := by
      have hfloor : ⌊(2 ^ 53 - 1 + 1 / 2 : ℚ)⌋ = 2 ^ 53 - 1 :=
        Int.floor_eq_iff.mpr (by norm_num)
      have hdiv : ((2 ^ 64 - 2 ^ 10 : ℤ) : ℚ) / 2 ^ 11 = 2 ^ 53 - 1 + 1 / 2 := by norm_num
      rw [rounded53_eq (k := 10) (by decide) (by decide), hdiv, nearestEven, hfloor]
      norm_num
    have hmono := rounded53_mono (m := 2 ^ 64 - 2 ^ 10) (n := n) (by omega)
    omega
  · intro hlt
    have hclose := abs_le.mp (abs_rounded53_sub_le (n := n) (k := 10) (by rw [Nat.abs_cast]; omega))
    omega

theorem rounded53_nonneg {n : ℤ} (h : 0 ≤ n) : 0 ≤ rounded53 n := by
  have hmono := rounded53_mono h
  rw [rounded53_of_abs_le (n := 0) (by decide)] at hmono
  exact hmono

theorem rounded53_units_le (ntp : NtpTv) : rounded53 (units ntp) ≤ 2 ^ 64 := by
  have hlt := units_lt ntp
  have hmono := rounded53_mono (m := units ntp) (n := 2 ^ 64) (by omega)
  rw [rounded53_of_multiple (n := 2 ^ 64) (m := 1) (k := 64) rfl (by decide)] at hmono
  exact hmono

theorem abs_rounded53_units_sub_le (ntp : NtpTv) :
    |rounded53 (units ntp) - units ntp| ≤ 2 ^ 10 :=
  abs_rounded53_sub_le (n := units ntp) (k := 10) (by
    rw [Nat.abs_cast]
    exact_mod_cast units_lt ntp)

/-- A timestamp through `double` is rounded to 53 digits, unless that takes it past the last. -/
theorem ntpFromDouble_toDouble (ntp : NtpTv) : ntpFromDouble (ntpToDouble ntp) =
    if units ntp < 2 ^ 64 - 2 ^ 10 then .ok (ofUnits (rounded53 (units ntp)).toNat)
    else .error .overflow := by
  have h0 := rounded53_nonneg (Int.natCast_nonneg (units ntp))
  have hle := rounded53_units_le ntp
  rw [ntpFromDouble_spec (ntpToDouble_spec ntp) (by rw [abs_of_nonneg h0]; omega)]
  exact if_congr ((and_iff_right h0).trans (rounded53_lt_iff (units_lt ntp))) rfl rfl

theorem units_rounded {ntp : NtpTv} (h : units ntp < 2 ^ 64 - 2 ^ 10) :
    (units (ofUnits (rounded53 (units ntp)).toNat) : ℤ) = rounded53 (units ntp) := by
  have h0 := rounded53_nonneg (Int.natCast_nonneg (units ntp))
  have hlt := (rounded53_lt_iff (units_lt ntp)).mpr h
  rw [units_ofUnits (by omega), Int.toNat_of_nonneg h0]

/-- Through `double` and back a timestamp is off by at most `2 ^ 10` units, the first trip takes
all that is lost, and what 53 digits hold is kept; timestamps keep their order. The last `2 ^ 10`
timestamps of the era have no way back. -/
theorem ntp_roundTrip (ntp : NtpTv) :
    (units ntp < 2 ^ 64 - 2 ^ 10 → ∃ back, ntpFromDouble (ntpToDouble ntp) = .ok back ∧
      |(units back : ℤ) - units ntp| ≤ 2 ^ 10 ∧
      ntpFromDouble (ntpToDouble back) = .ok back ∧
      (back = ntp ↔ ∃ m k : ℕ, units ntp = m * 2 ^ k ∧ m ≤ 2 ^ 53) ∧
      ∀ later back', units ntp ≤ units later →
        ntpFromDouble (ntpToDouble later) = .ok back' → units back ≤ units back') ∧
    (2 ^ 64 - 2 ^ 10 ≤ units ntp → ntpFromDouble (ntpToDouble ntp) = .error .overflow) := by
  constructor
  · intro h
    have hunits := units_rounded h
    have hclose := abs_rounded53_units_sub_le ntp
    have hfixed : rounded53 (units (ofUnits (rounded53 (units ntp)).toNat))
        = rounded53 (units ntp) := by
      rw [hunits, (ntpToDouble_spec ntp).rounded53]
    refine ⟨_, by rw [ntpFromDouble_toDouble, if_pos h], by rw [hunits]; exact hclose, ?_, ?_, ?_⟩
    · have hlt := (rounded53_lt_iff (units_lt _)).mp
        (hfixed.trans_lt ((rounded53_lt_iff (units_lt ntp)).mpr h))
      rw [ntpFromDouble_toDouble, if_pos hlt, hfixed]
    · rw [← rounded53_eq_iff]
      constructor
      · intro heq
        exact hunits.symm.trans (congrArg (fun t => (units t : ℤ)) heq)
      · intro heq
        exact units_inj (Int.natCast_inj.mp (hunits.trans heq))
    · intro later back' hle hback
      rw [ntpFromDouble_toDouble] at hback
      split at hback
      · rename_i hlater
        rw [← Except.ok.inj hback]
        have hmono := rounded53_mono (m := units ntp) (n := units later) (by omega)
        rw [← hunits, ← units_rounded hlater] at hmono
        exact_mod_cast hmono
      · cases hback
  · intro h
    rw [ntpFromDouble_toDouble, if_neg (by omega)]

/-! ### The epoch of 1970 -/

/-- `LIBRTP_NTP_UNIX_OFFSET` in units. -/
def unixUnits : ℤ := 2208988800 * 2 ^ 32

theorem ntpToUnix_spec (ntp : NtpTv) :
    HasUnits (ntpToUnix ntp) (rounded53 (rounded53 (units ntp) - unixUnits)) := by
  have h0 := rounded53_nonneg (Int.natCast_nonneg (units ntp))
  have hle := rounded53_units_le ntp
  refine (ntpToDouble_spec ntp).sub (hasUnits_seconds isNum_unixOffset) ?_
  rw [unixUnits, abs_le]
  omega

theorem ntpFromUnix_spec {x : Float} {n : ℤ} (hx : HasUnits x n) (hn : |n| ≤ 2 ^ 64) :
    ntpFromUnix x = if 0 ≤ rounded53 (n + unixUnits) ∧ rounded53 (n + unixUnits) < 2 ^ 64 then
      .ok (ofUnits (rounded53 (n + unixUnits)).toNat) else .error .overflow := by
  rw [abs_le] at hn
  have hclose := abs_le.mp (abs_rounded53_sub_le (n := n + unixUnits) (k := 11) (by
    rw [unixUnits, abs_lt]
    omega))
  rw [unixUnits] at hclose ⊢
  exact ntpFromDouble_spec (hx.add (hasUnits_seconds isNum_unixOffset) (by rw [abs_le]; omega))
    (by rw [abs_le]; omega)

/-- From 1970 on both numbers are multiples of `2 ^ 11`, and the shift of the epoch is exact. -/
theorem unix_shift_exact {ntp : NtpTv} (h : unixUnits ≤ units ntp) :
    rounded53 (rounded53 (units ntp) - unixUnits) = rounded53 (units ntp) - unixUnits := by
  have hlt := units_lt ntp
  have hle := rounded53_units_le ntp
  rw [unixUnits] at h ⊢
  have hunit := rounded53_eq (n := units ntp) (k := 10) (by omega) (by omega)
  have hclose := abs_le.mp (abs_rounded53_units_sub_le ntp)
  rw [hunit] at hle hclose ⊢
  exact rounded53_of_multiple (k := 11)
    (m := nearestEven (((units ntp : ℤ) : ℚ) / 2 ^ (10 + 1)) - 2208988800 * 2 ^ 21) (by ring)
    (by rw [abs_le]; omega)

/-- Before 1970 the shift is rounded on the way there and on the way back. -/
theorem unix_shift_close {ntp : NtpTv} (h : units ntp < unixUnits) :
    ∃ back, ntpFromUnix (ntpToUnix ntp) = .ok back ∧
      |(units back : ℤ) - units ntp| ≤ 3 * 2 ^ 10 := by
  have hoffset : unixUnits = 2208988800 * 2 ^ 32 := rfl
  have hfixed : rounded53 unixUnits = unixUnits :=
    rounded53_of_multiple (m := 2208988800) (k := 32) rfl (by decide)
  have hfixed' : rounded53 (-unixUnits) = -unixUnits :=
    rounded53_of_multiple (m := -2208988800) (k := 32) rfl (by decide)
  have hzero : rounded53 0 = 0 := rounded53_of_abs_le (by decide)
  have hto := ntpToUnix_spec ntp
  have hclose := abs_rounded53_units_sub_le ntp
  have hr0 := rounded53_nonneg (Int.natCast_nonneg (units ntp))
  have hr := rounded53_mono h.le
  rw [hfixed] at hr
  generalize rounded53 (units ntp) = r at *
  -- Between the epochs the shifted number is not positive.
  have hshift := abs_rounded53_sub_le (n := r - unixUnits) (k := 10) (by rw [abs_lt]; omega)
  have hu0 := rounded53_mono (m := -unixUnits) (n := r - unixUnits) (by omega)
  have hu := rounded53_mono (m := r - unixUnits) (n := 0) (by omega)
  rw [hfixed'] at hu0
  rw [hzero] at hu
  generalize rounded53 (r - unixUnits) = u at *
  have hback := abs_rounded53_sub_le (n := u + unixUnits) (k := 10) (by rw [abs_lt]; omega)
  have hw0 := rounded53_nonneg (n := u + unixUnits) (by omega)
  rw [abs_le] at hclose hshift hback
  refine ⟨_, by rw [ntpFromUnix_spec hto (by rw [abs_le]; omega), if_pos (by omega)], ?_⟩
  rw [units_ofUnits (by omega), Int.toNat_of_nonneg hw0, abs_le]
  omega

/-- To 1970 and back is as good as through `double` for timestamps from then on; the earlier ones
all come back, and at most `3 * 2 ^ 10` units off. -/
theorem ntp_unix_roundTrip (ntp : NtpTv) :
    (unixUnits ≤ units ntp → ntpFromUnix (ntpToUnix ntp) = ntpFromDouble (ntpToDouble ntp)) ∧
    (units ntp < unixUnits → ∃ back, ntpFromUnix (ntpToUnix ntp) = .ok back ∧
      |(units back : ℤ) - units ntp| ≤ 3 * 2 ^ 10) := by
  refine ⟨fun h => ?_, unix_shift_close⟩
  have h0 := rounded53_nonneg (Int.natCast_nonneg (units ntp))
  have hle := rounded53_units_le ntp
  have hto := ntpToUnix_spec ntp
  rw [unix_shift_exact h] at hto
  have hsame : rounded53 (units ntp) - unixUnits + unixUnits = rounded53 (units ntp) := by ring
  rw [ntpFromUnix_spec hto (by rw [unixUnits, abs_le]; omega), hsame,
    (ntpToDouble_spec ntp).rounded53,
    ntpFromDouble_spec (ntpToDouble_spec ntp) (by rw [abs_le]; omega)]

/-! ## Differences -/

theorem ntpDiff_spec (a b : NtpTv) : ntpDiff a b =
    if rounded53 (units b) ≤ rounded53 (units a) ∧
      rounded53 (rounded53 (units a) - rounded53 (units b)) < 2 ^ 64 then
      .ok (ofUnits (rounded53 (rounded53 (units a) - rounded53 (units b))).toNat)
    else .error .overflow := by
  have ha0 := rounded53_nonneg (Int.natCast_nonneg (units a))
  have hb0 := rounded53_nonneg (Int.natCast_nonneg (units b))
  have ha := rounded53_units_le a
  have hb := rounded53_units_le b
  have hdiff := (ntpToDouble_spec a).sub (ntpToDouble_spec b) (by rw [abs_le]; omega)
  generalize rounded53 (units a) = p at *
  generalize rounded53 (units b) = q at *
  have hclose := abs_le.mp (abs_rounded53_sub_le (n := p - q) (k := 11) (by rw [abs_lt]; omega))
  have hsign : 0 ≤ rounded53 (p - q) ↔ q ≤ p := by
    constructor
    · intro h
      by_contra hlt
      have hmono := rounded53_mono (m := p - q) (n := -1) (by omega)
      rw [rounded53_of_abs_le (n := -1) (by decide)] at hmono
      omega
    · intro h
      exact rounded53_nonneg (by omega)
  rw [ntpDiff, ntpFromDouble_spec hdiff (by rw [abs_le]; omega)]
  exact if_congr (and_congr_left' hsign) rfl rfl

/-- The difference of two timestamps is off by at most `3 * 2 ^ 10` units. -/
theorem ntpDiff_close {a b : NtpTv} (hle : units b ≤ units a) (htop : units a < 2 ^ 64 - 2 ^ 10) :
    ∃ d, ntpDiff a b = .ok d ∧
      |(units d : ℤ) - (units a - units b : ℤ)| ≤ 3 * 2 ^ 10 := by
  have hmono := rounded53_mono (m := units b) (n := units a) (by omega)
  have hlt := (rounded53_lt_iff (units_lt a)).mpr htop
  have hb0 := rounded53_nonneg (Int.natCast_nonneg (units b))
  have hfixed := (ntpToDouble_spec a).rounded53
  have ha := abs_rounded53_units_sub_le a
  have hb := abs_rounded53_units_sub_le b
  have hspec := ntpDiff_spec a b
  generalize rounded53 (units a) = p at *
  generalize rounded53 (units b) = q at *
  have hbelow := rounded53_mono (m := p - q) (n := p) (by omega)
  have hd0 := rounded53_nonneg (n := p - q) (by omega)
  have hclose := abs_rounded53_sub_le (n := p - q) (k := 10) (by rw [abs_lt]; omega)
  rw [if_pos ⟨hmono, by omega⟩] at hspec
  refine ⟨_, hspec, ?_⟩
  rw [abs_le] at ha hb hclose
  rw [units_ofUnits (by omega), Int.toNat_of_nonneg hd0, abs_le]
  omega

end RtpSdr.Rtp.Ntp
