import RtpSdr.Lib.FloatValue

/-!
# The numbers that floats stand for

A `Float` is bits that are unpacked and packed again. As long as nothing overflows or falls below
the least exponent, the result of an operation on floats is the rounded result of the operation
on the numbers they stand for.
-/
namespace RtpSdr.Lib.Binary64

open Float.Model (Format UnpackedFloat)
open Float.Model.UnpackedFloat
open RtpSdr.Lib.Rounding
open RtpSdr.Lib.FloatValue

/-! ## Packed floats -/

section Packed

variable {f : Format} {q : ℚ}

theorem minExponent_eq (f : Format) :
    f.minExponent = 1 - (f.exponentBias + f.mantissaBitsWithoutImplicit : ℤ) := by
  have hpow : 1 ≤ 2 ^ (f.exponentBits - 1) := Nat.one_le_two_pow
  rw [Format.minExponent, Format.mantissaBits, Format.exponentBias]
  push_cast [hpow]
  omega

theorem two_pow_exponentBits (f : Format) : 2 ^ f.exponentBits = 2 * f.exponentBias + 2 := by
  have hpow : 1 ≤ 2 ^ (f.exponentBits - 1) := Nat.one_le_two_pow
  have hdouble : 2 ^ f.exponentBits = 2 * 2 ^ (f.exponentBits - 1) := by
    rw [← pow_succ', Nat.sub_add_cancel f.he]
  rw [Format.exponentBias]
  omega

theorem ofNat_ne_zero {w k : ℕ} (h0 : 0 < k) (h : k < 2 ^ w) : BitVec.ofNat w k ≠ 0#_ := by
  intro heq
  have := congrArg BitVec.toNat heq
  rw [BitVec.toNat_ofNat, BitVec.toNat_ofNat, Nat.mod_eq_of_lt h, Nat.zero_mod] at this
  omega

theorem ofNat_ne_neg_one {w k : ℕ} (h : k + 1 < 2 ^ w) : BitVec.ofNat w k ≠ -1#_ := by
  intro heq
  have := congrArg BitVec.toNat heq
  rw [BitVec.toNat_ofNat, Nat.mod_eq_of_lt (by omega), BitVec.neg_one_eq_allOnes,
    BitVec.toNat_allOnes] at this
  omega

theorem toNat_append_one {w : ℕ} (m : BitVec w) : (1#1 ++ m).toNat = 2 ^ w + m.toNat := by
  have hor := Nat.two_pow_add_eq_or_of_lt m.isLt 1
  rw [mul_one] at hor
  rw [BitVec.toNat_append, BitVec.toNat_ofNat, Nat.one_mod, Nat.shiftLeft_eq, one_mul, hor]

theorem zero_ne_neg_one (f : Format) : (0#f.exponentBits) ≠ -1#_ :=
  ofNat_ne_neg_one (Nat.one_lt_two_pow f.he.ne')

variable {b : BitVec f.numBits}

theorem has_unpack_small (h : unpackExponent b = 0#_) : Has q (unpack f b) ↔
    q = signed (.ofBitVec (unpackSign b)) ((unpackMantissa b).toNat * 2 ^ f.minExponent) := by
  have hexp : ((0#f.exponentBits).toNat : ℤ)
      - (f.exponentBias + f.mantissaBitsWithoutImplicit) + 1 = f.minExponent := by
    rw [minExponent_eq, BitVec.toNat_ofNat, Nat.zero_mod]
    omega
  rw [unpack, h, if_neg (zero_ne_neg_one f), if_pos rfl]
  split
  · rename_i hzero
    rw [hzero, BitVec.toNat_ofNat, Nat.zero_mod, Nat.cast_zero, zero_mul, signed_zero]
    exact Iff.rfl
  · simp only [Has, hexp]

theorem has_unpack_normal (h0 : unpackExponent b ≠ 0#_) (h1 : unpackExponent b ≠ -1#_) :
    Has q (unpack f b) ↔ q = signed (.ofBitVec (unpackSign b))
      (((2 ^ f.mantissaBitsWithoutImplicit + (unpackMantissa b).toNat : ℕ) : ℚ)
        * 2 ^ (((unpackExponent b).toNat : ℤ)
          - (f.exponentBias + f.mantissaBitsWithoutImplicit))) := by
  rw [unpack, if_neg h1, if_neg h0]
  simp only [Has, toNat_append_one]

theorem not_has_unpack (h : unpackExponent b = -1#_) : ¬ Has q (unpack f b) := by
  rw [unpack, if_pos h]
  split
  · exact id
  · exact id

theorem two_pow_mantissaBits (f : Format) :
    2 ^ f.mantissaBits = 2 * 2 ^ f.mantissaBitsWithoutImplicit := by
  rw [Format.mantissaBits, Nat.add_comm, pow_succ']

/-- Unpacking gives canonical numbers. -/
theorem canonical_unpack (h : Has q (unpack f b)) : Canonical f (unpack f b) := by
  by_cases h1 : unpackExponent b = -1#_
  · exact absurd h (not_has_unpack h1)
  have hm := (unpackMantissa b).isLt
  have hdouble := two_pow_mantissaBits f
  by_cases h0 : unpackExponent b = 0#_
  · rw [unpack, h0, if_neg (zero_ne_neg_one f), if_pos rfl]
    split
    · trivial
    · have hexp : ((0#f.exponentBits).toNat : ℤ)
          - (f.exponentBias + f.mantissaBitsWithoutImplicit) + 1 = f.minExponent := by
        rw [minExponent_eq, BitVec.toNat_ofNat, Nat.zero_mod]
        omega
      simp only [Canonical, hexp]
      exact ⟨by omega, le_refl _, .inr trivial⟩
  · have hpos : 0 < (unpackExponent b).toNat := by
      refine Nat.pos_of_ne_zero fun hz => h0 (BitVec.eq_of_toNat_eq ?_)
      rw [hz, BitVec.toNat_ofNat, Nat.zero_mod]
    rw [unpack, if_neg h1, if_neg h0]
    simp only [Canonical, toNat_append_one]
    rw [minExponent_eq]
    exact ⟨by omega, by omega, .inl (by omega)⟩

/-- A number with all its digits that is not too large has a biased exponent in its range. -/
theorem exponent_le {s : Sign} {m : ℕ} {e : ℤ} {hm : 0 < m} (hbias : 1 ≤ f.exponentBias)
    (hc : Canonical f (.finite s m e hm))
    (hq : Has q (.finite s m e hm)) (hfit : |q| < 2 ^ (f.exponentBias + 1 : ℤ)) :
    e + f.mantissaBitsWithoutImplicit ≤ f.exponentBias := by
  obtain ⟨-, hmin, hfull⟩ := hc
  change q = signed s (m * 2 ^ e) at hq
  have hdouble := two_pow_mantissaBits f
  rcases hfull with hfull | he
  · have hdigits : ((2 ^ f.mantissaBitsWithoutImplicit : ℕ) : ℚ) ≤ m :=
      Nat.cast_le.mpr (by omega)
    have hlow : (2 : ℚ) ^ ((f.mantissaBitsWithoutImplicit : ℤ) + e) ≤ |q| := by
      rw [hq, abs_signed, abs_of_pos (mul_pos (Nat.cast_pos.mpr hm) (two_zpow_pos e)),
        two_zpow_add, zpow_natCast]
      push_cast at hdigits
      exact mul_le_mul_of_nonneg_right hdigits (two_zpow_pos e).le
    have := (zpow_lt_zpow_iff_right₀ (one_lt_two (α := ℚ))).mp (lt_of_le_of_lt hlow hfit)
    omega
  · rw [minExponent_eq] at he
    omega

/-- Packing loses nothing of a number that is not too large for the format. -/
theorem has_unpack_pack {u : UnpackedFloat} (hbias : 1 ≤ f.exponentBias) (hc : Canonical f u)
    (hq : Has q u) (hfit : |q| < 2 ^ (f.exponentBias + 1 : ℤ)) : Has q (unpack f (pack f u)) := by
  cases u with
  | infinity s => exact hc.elim
  | notANumber => exact hc.elim
  | zero s =>
    change q = 0 at hq
    have hunpack := has_unpack_small (q := q) (b := packedZero f s) unpackExponent_packComponents
    rw [pack, hunpack, hq, packedZero, unpackMantissa_packComponents]
    simp
  | finite s m e hm =>
    have hle := exponent_le hbias hc hq hfit
    obtain ⟨hlt, hmin, hfull⟩ := hc
    change q = signed s (m * 2 ^ e) at hq
    have hbits := two_pow_exponentBits f
    have hdouble := two_pow_mantissaBits f
    rw [minExponent_eq] at hmin hfull
    generalize hk : (e + f.exponentBias + f.mantissaBitsWithoutImplicit).toNat = k
    have hpack : pack f (.finite s m e hm) = if 2 ^ f.exponentBits ≤ k + 1 then packedInfinity f s
        else if m.log2 + 1 = f.mantissaBits then packComponents f s (.ofNat _ k) (.ofNat _ m)
        else packComponents f s 0#_ (.ofNat _ m) := by
      rw [← hk]
      rfl
    have hbelow : k + 1 < 2 ^ f.exponentBits := by omega
    have hfields (ev : BitVec f.exponentBits) (mv : BitVec f.mantissaBitsWithoutImplicit) :
        unpackExponent (packComponents f s ev mv) = ev ∧
          unpackMantissa (packComponents f s ev mv) = mv ∧
          Sign.ofBitVec (unpackSign (packComponents f s ev mv)) = s :=
      ⟨unpackExponent_packComponents, unpackMantissa_packComponents, by
        rw [unpackSign_packComponents, Sign.ofBitVec_toBitVec]⟩
    rw [hpack, if_neg (by omega)]
    by_cases hnormal : 2 ^ f.mantissaBitsWithoutImplicit ≤ m
    · have hlog : m.log2 = f.mantissaBitsWithoutImplicit :=
        (Nat.log2_eq_iff hm.ne').mpr ⟨hnormal, by rw [pow_succ']; omega⟩
      obtain ⟨hev, hmv, hsv⟩ := hfields (.ofNat _ k) (.ofNat _ m)
      have hdigits : 2 ^ f.mantissaBitsWithoutImplicit
          + (BitVec.ofNat f.mantissaBitsWithoutImplicit m).toNat = m := by
        have := Nat.mod_eq_sub_mod hnormal
        rw [Nat.mod_eq_of_lt (a := m - 2 ^ f.mantissaBitsWithoutImplicit) (by omega)] at this
        rw [BitVec.toNat_ofNat]
        omega
      have hexp : ((BitVec.ofNat f.exponentBits k).toNat : ℤ)
          - (f.exponentBias + f.mantissaBitsWithoutImplicit) = e := by
        rw [BitVec.toNat_ofNat, Nat.mod_eq_of_lt (by omega)]
        omega
      rw [if_pos (by rw [hlog, Format.mantissaBits]; omega), has_unpack_normal
        (by rw [hev]; exact ofNat_ne_zero (by omega) (by omega))
        (by rw [hev]; exact ofNat_ne_neg_one hbelow), hev, hmv, hsv, hdigits, hexp]
      exact hq
    · have hlog : m.log2 < f.mantissaBitsWithoutImplicit :=
        (Nat.log2_lt hm.ne').mpr (not_le.mp hnormal)
      obtain ⟨hev, hmv, hsv⟩ := hfields 0#_ (.ofNat _ m)
      have he : e = f.minExponent := by
        rw [minExponent_eq]
        omega
      rw [if_neg (by rw [Format.mantissaBits]; omega), has_unpack_small hev, hmv, hsv,
        BitVec.toNat_ofNat, Nat.mod_eq_of_lt (not_le.mp hnormal), ← he]
      exact hq

end Packed

/-! ## `Float` -/

/-- The float is the number `q`. -/
def IsNum (x : Float) (q : ℚ) : Prop := Has q x.toModel.unpack

/-- Rounding to 53 digits. -/
def rounded64 (q : ℚ) : ℚ := rounded .binary64 q

section Binary64

variable {x y : Float} {p q : ℚ}

theorem IsNum.canonical (h : IsNum x q) : Canonical .binary64 x.toModel.unpack :=
  canonical_unpack h

theorem IsNum.representable (h : IsNum x q) : Representable .binary64 q :=
  h.canonical.representable h

theorem IsNum.rounded64 (h : IsNum x q) : rounded64 q = q :=
  rounded_of_representable h.representable

theorem IsNum.unique {q' : ℚ} (h : IsNum x q) (h' : IsNum x q') : q = q' := Has.unique h h'

/-- What rounds to a number of the format in range survives packing. -/
theorem isNum_pack {u : UnpackedFloat} (hu : Has (rounded64 q) u ∧ Canonical .binary64 u)
    (hfit : |q| ≤ 2 ^ (1023 : ℤ)) : IsNum (.ofModel (.pack u)) (rounded64 q) := by
  have hrep : Representable .binary64 (2 ^ (1023 : ℤ)) := representable_zpow (by decide)
  have hle : |rounded64 q| ≤ 2 ^ (1023 : ℤ) := by
    rw [abs_le] at hfit ⊢
    exact ⟨le_rounded hrep.neg hfit.1, rounded_le hrep hfit.2⟩
  exact has_unpack_pack (by decide) hu.2 hu.1
    (lt_of_le_of_lt hle ((zpow_lt_zpow_iff_right₀ one_lt_two).mpr (by decide)))

theorem isNum_add (hx : IsNum x p) (hy : IsNum y q) (hfit : |p + q| ≤ 2 ^ (1023 : ℤ)) :
    IsNum (x + y) (rounded64 (p + q)) :=
  isNum_pack (add_spec hx.canonical hy.canonical hx hy) hfit

theorem isNum_sub (hx : IsNum x p) (hy : IsNum y q) (hfit : |p - q| ≤ 2 ^ (1023 : ℤ)) :
    IsNum (x - y) (rounded64 (p - q)) :=
  isNum_pack (sub_spec hx.canonical hy.canonical hx hy) hfit

theorem isNum_mul (hx : IsNum x p) (hy : IsNum y q) (hfit : |p * q| ≤ 2 ^ (1023 : ℤ)) :
    IsNum (x * y) (rounded64 (p * q)) :=
  isNum_pack (mul_spec hx.canonical hy.canonical hx hy) hfit

theorem isNum_div (hx : IsNum x p) (hy : IsNum y q) (hq : q ≠ 0)
    (hbig : p = 0 ∨ 2 ^ (-1021 : ℤ) ≤ |p / q|) (hfit : |p / q| ≤ 2 ^ (1023 : ℤ)) :
    IsNum (x / y) (rounded64 (p / q)) :=
  isNum_pack (div_spec hx.canonical hy.canonical hx hy hq hbig) hfit

/-- A conversion to `double` is exact up to 53 digits. -/
theorem rounded64_natCast {n : ℕ} (h : n ≤ 2 ^ 53) : rounded64 n = n :=
  rounded_of_representable ⟨n, 0, by rw [zpow_zero, mul_one, Int.cast_natCast], by
    rw [Nat.abs_cast]
    exact_mod_cast h, by decide⟩

theorem natCast_fits {n : ℕ} (h : n ≤ 2 ^ 53) : |(n : ℚ)| ≤ 2 ^ (1023 : ℤ) := by
  have hle : (n : ℚ) ≤ ((2 ^ 53 : ℕ) : ℚ) := Nat.cast_le.mpr h
  rw [Nat.abs_cast]
  refine le_trans hle ?_
  rw [Nat.cast_pow, Nat.cast_ofNat, ← zpow_natCast]
  exact (zpow_le_zpow_iff_right₀ one_lt_two).mpr (by decide)

theorem isNum_ofNat {n : ℕ} (h : n ≤ 2 ^ 53) :
    IsNum (.ofModel (.pack (ofNat .binary64 n))) n := by
  have hnum := isNum_pack (ofNat_spec .binary64 n) (natCast_fits h)
  rw [rounded64_natCast h] at hnum
  exact hnum

theorem isNum_toFloat_uint32 (n : UInt32) : IsNum n.toFloat n.toNat := by
  have hlt := n.toNat_lt
  exact isNum_ofNat (by omega)

theorem isNum_toFloat_uint64 {n : UInt64} (h : n.toNat ≤ 2 ^ 53) : IsNum n.toFloat n.toNat :=
  isNum_ofNat h

theorem isNum_one : IsNum 1.0 1 := by
  have hbits : IsNum 1.0 (((2 ^ 52 : ℕ) : ℚ) * 2 ^ (-52 : ℤ)) := rfl
  have hval : ((2 ^ 52 : ℕ) : ℚ) * 2 ^ (-52 : ℤ) = 1 := by norm_num
  rw [hval] at hbits
  exact hbits

theorem isNum_ofInt {n : ℤ} (h0 : 0 ≤ n) (h : n < 2 ^ 53) : IsNum (.ofInt n) n := by
  obtain ⟨k, rfl⟩ := Int.eq_ofNat_of_zero_le h0
  have hk : (UInt64.ofNat k).toNat = k := UInt64.toNat_ofNat_of_lt' (by rw [UInt64.size]; omega)
  have hrun : Float.ofInt k = (UInt64.ofNat k).toFloat * 1.0 := by
    change Float.ofScientific k false 0 = _
    rw [Float.ofScientific, dif_pos ⟨by omega, Nat.zero_le _⟩]
    rfl
  have hnum := isNum_toFloat_uint64 (n := UInt64.ofNat k) (by omega)
  have hexact := rounded64_natCast (n := k) (by omega)
  rw [hk] at hnum
  have hmul := isNum_mul hnum isNum_one (by rw [mul_one]; exact natCast_fits (by omega))
  rw [mul_one, hexact, ← hrun] at hmul
  exact hmul

/-- The conversion to `uint32_t` truncates. -/
theorem toNat_toUInt32 (hx : IsNum x q) (h0 : 0 ≤ q) (h : q < 2 ^ 32) :
    (x.toUInt32.toNat : ℤ) = ⌊q⌋ := by
  have hfloor : 0 ≤ ⌊q⌋ := Int.floor_nonneg.mpr h0
  have hlt : ⌊q⌋ < 2 ^ 32 := Int.floor_lt.mpr (by exact_mod_cast h)
  have hrun : x.toUInt32
      = UInt32.ofNatClamp (x.toModel.unpack.toInt 0 (UInt32.size - 1)).toNat := rfl
  rw [hrun, toInt_spec hx h0, UInt32.toNat_ofNatClamp_of_lt (by rw [UInt32.size]; omega)]
  exact Int.toNat_of_nonneg hfloor

theorem lt_iff (hx : IsNum x p) (hy : IsNum y q) : x < y ↔ p < q := by
  change decide (x.toModel.unpack.lt y.toModel.unpack = true) = true ↔ p < q
  rw [decide_eq_true_iff]
  exact lt_spec hx.canonical hy.canonical hx hy

theorem le_iff (hx : IsNum x p) (hy : IsNum y q) : x ≤ y ↔ p ≤ q := by
  change decide (x.toModel.unpack.le y.toModel.unpack = true) = true ↔ p ≤ q
  rw [decide_eq_true_iff]
  exact le_spec hx.canonical hy.canonical hx hy

/-- Numbers of this size are far from the largest `double`. -/
theorem fits (h : |q| ≤ 2 ^ (64 : ℤ)) : |q| ≤ 2 ^ (1023 : ℤ) :=
  le_trans h ((zpow_le_zpow_iff_right₀ one_lt_two).mpr (by decide))

/-! ### Whole numbers -/

/-- What a `double` keeps of a whole number. -/
def rounded53 (n : ℤ) : ℤ := ⌊rounded64 n⌋

theorem zero_le_log {n : ℤ} (hn : n ≠ 0) : 0 ≤ Int.log 2 |(n : ℚ)| := by
  have hone : (1 : ℚ) ≤ |(n : ℚ)| := by
    rw [← Int.cast_abs]
    exact_mod_cast Int.one_le_abs hn
  rw [← Int.zpow_le_iff_le_log one_lt_two (lt_of_lt_of_le one_pos hone), zpow_zero]
  exact hone

/-- Rounding a whole number gives a whole number. -/
theorem cast_rounded53 (n : ℤ) : (rounded53 n : ℚ) = rounded64 n := by
  suffices h : ∃ k : ℤ, rounded64 n = k by
    obtain ⟨k, hk⟩ := h
    rw [rounded53, hk, Int.floor_intCast]
  by_cases hplace : 0 ≤ place .binary64 (n : ℚ)
  · obtain ⟨t, ht⟩ := Int.eq_ofNat_of_zero_le hplace
    refine ⟨nearestEven ((n : ℚ) / 2 ^ t) * 2 ^ t, ?_⟩
    rw [rounded64, rounded, ht, zpow_natCast]
    push_cast
    rfl
  · have hmultiple : (n : ℚ) / 2 ^ place .binary64 (n : ℚ)
        = ((n * 2 ^ (-place .binary64 (n : ℚ)).toNat : ℤ) : ℚ) := by
      have hone : (1 : ℚ) = ((2 ^ (-place .binary64 (n : ℚ)).toNat : ℤ) : ℚ)
          * 2 ^ place .binary64 (n : ℚ) := by
        have h := two_zpow_eq_mul (a := place .binary64 (n : ℚ)) (b := 0) (by omega)
        rw [zpow_zero, zero_sub] at h
        exact h
      rw [div_eq_iff (two_zpow_pos _).ne']
      push_cast at hone ⊢
      rw [mul_assoc, ← hone, mul_one]
    refine ⟨n, ?_⟩
    rw [rounded64, rounded, hmultiple, nearestEven_intCast, ← hmultiple,
      div_mul_cancel₀ _ (two_zpow_pos _).ne']

theorem rounded53_mono {m n : ℤ} (h : m ≤ n) : rounded53 m ≤ rounded53 n :=
  Int.floor_le_floor (rounded_mono (Int.cast_le.mpr h))

theorem abs_rounded53_sub_le {n : ℤ} {k : ℕ} (h : |n| < 2 ^ (54 + k)) :
    |rounded53 n - n| ≤ 2 ^ k := by
  have hlt : |(n : ℚ)| < 2 ^ ((54 + k : ℕ) : ℤ) := by
    rw [← Int.cast_abs, zpow_natCast]
    exact_mod_cast h
  have hoff := abs_rounded_sub_le_of_lt (f := .binary64) hlt (by
    have : Format.binary64.minExponent + Format.binary64.mantissaBits ≤ 53 := by decide
    omega)
  have hexp : ((54 + k : ℕ) : ℤ) - Format.binary64.mantissaBits = (k + 1 : ℕ) := by
    have : (Format.binary64.mantissaBits : ℤ) = 53 := rfl
    omega
  rw [hexp, zpow_natCast, pow_succ, mul_div_cancel_right₀ _ two_ne_zero, ← rounded64,
    ← cast_rounded53] at hoff
  exact_mod_cast hoff

theorem rounded53_of_multiple {n m : ℤ} {k : ℕ} (h : n = m * 2 ^ k) (hm : |m| ≤ 2 ^ 53) :
    rounded53 n = n := by
  have hrep : Representable .binary64 (n : ℚ) :=
    ⟨m, k, by rw [h, zpow_natCast]; push_cast; rfl, hm, by
      have : Format.binary64.minExponent ≤ 0 := by decide
      omega⟩
  have := rounded_of_representable hrep
  rw [rounded53, rounded64, this, Int.floor_intCast]

/-- The whole numbers that stay are those with 53 digits. -/
theorem rounded53_eq_iff {n : ℕ} : rounded53 n = n ↔ ∃ m k : ℕ, n = m * 2 ^ k ∧ m ≤ 2 ^ 53 := by
  constructor
  · intro h
    have hrep := representable_rounded .binary64 ((n : ℤ) : ℚ)
    rw [← rounded64, ← cast_rounded53, h] at hrep
    obtain ⟨m, e, hval, hm, -⟩ := hrep
    change |m| ≤ 2 ^ 53 at hm
    rw [Int.cast_natCast] at hval
    by_cases he : 0 ≤ e
    · obtain ⟨k, rfl⟩ := Int.eq_ofNat_of_zero_le he
      rw [zpow_natCast] at hval
      refine ⟨m.natAbs, k, ?_, by rw [abs_le] at hm; omega⟩
      have hint : (n : ℤ) = m * 2 ^ k := by exact_mod_cast hval
      have habs := congrArg Int.natAbs hint
      rw [Int.natAbs_mul, Int.natAbs_pow] at habs
      exact habs
    · -- A multiple of a small unit is no more than its digits.
      refine ⟨n, 0, by rw [pow_zero, mul_one], ?_⟩
      have hone : (2 : ℚ) ^ e ≤ 1 := zpow_le_one_of_nonpos₀ one_le_two (by omega)
      have habs : |(m : ℚ)| ≤ 2 ^ 53 := by
        rw [← Int.cast_abs]
        exact_mod_cast hm
      have hle : (n : ℚ) ≤ 2 ^ 53 := by
        calc (n : ℚ) ≤ |(m : ℚ)| * 2 ^ e := by
              rw [hval]
              exact mul_le_mul_of_nonneg_right (le_abs_self _) (two_zpow_pos e).le
          _ ≤ 2 ^ 53 * 1 := mul_le_mul habs hone (two_zpow_pos e).le (by positivity)
          _ = 2 ^ 53 := mul_one _
      exact_mod_cast hle
  · rintro ⟨m, k, h, hm⟩
    exact rounded53_of_multiple (m := m) (k := k) (by rw [h]; push_cast; rfl)
      (by rw [Nat.abs_cast]; exact_mod_cast hm)

/-- The numbers of one length are rounded in one unit. -/
theorem rounded53_eq {n : ℤ} {k : ℕ} (hlow : 2 ^ (53 + k) ≤ n) (hhigh : n < 2 ^ (54 + k)) :
    rounded53 n = nearestEven ((n : ℚ) / 2 ^ (k + 1)) * 2 ^ (k + 1) := by
  have hpos : (0 : ℤ) < n := lt_of_lt_of_le (by positivity) hlow
  have hn : |(n : ℚ)| = n := abs_of_pos (Int.cast_pos.mpr hpos)
  have hlog : Int.log 2 |(n : ℚ)| = 53 + k := by
    have hge : 53 + (k : ℤ) ≤ Int.log 2 |(n : ℚ)| := by
      rw [hn, ← Int.zpow_le_iff_le_log one_lt_two (Int.cast_pos.mpr hpos)]
      exact_mod_cast hlow
    have hlt : Int.log 2 |(n : ℚ)| < 54 + k := by
      refine log_lt_of_lt (Int.cast_ne_zero.mpr hpos.ne') ?_
      rw [hn]
      exact_mod_cast hhigh
    omega
  have hplace : place .binary64 (n : ℚ) = (k + 1 : ℕ) := by
    have hbits : (Format.binary64.mantissaBits : ℤ) = 53 := rfl
    have hmin : Format.binary64.minExponent ≤ 0 := by decide
    rw [place, Format.targetExponent, hlog]
    omega
  have hround := cast_rounded53 n
  rw [rounded64, rounded, hplace, zpow_natCast] at hround
  exact_mod_cast hround

/-- Units of any power of two may be chosen. -/
theorem rounded64_mul_zpow (n : ℤ) {k : ℤ} (hk : -1000 ≤ k) :
    rounded64 (n * 2 ^ k) = rounded53 n * 2 ^ k := by
  by_cases hn : n = 0
  · rw [hn, rounded53, Int.cast_zero, zero_mul, rounded64, rounded_zero, Int.floor_zero,
      Int.cast_zero, zero_mul]
  · have hlog := zero_le_log hn
    have hmin : Format.binary64.minExponent + Format.binary64.mantissaBits = -1021 := by decide
    rw [cast_rounded53]
    exact rounded_mul_zpow (Int.cast_ne_zero.mpr hn) (by omega) (by omega)

end Binary64

end RtpSdr.Lib.Binary64
