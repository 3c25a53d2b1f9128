import Mathlib

/-!
# Rounding to a binary format

A format keeps a number of binary digits and stops at a least exponent. A number is rounded
to the nearest multiple of the unit in its last place, to the even one of two. What a proof
needs of this is that rounding fixes what the format has, never crosses it, and is off by at
most half a unit.
-/
namespace RtpSdr.Lib.Rounding

open Float.Model (Format)

/-! ## To an integer -/

/-- The nearest integer, the even one of two. -/
def nearestEven (q : ℚ) : ℤ :=
  if q - ⌊q⌋ < 1 / 2 then ⌊q⌋
  else if 1 / 2 < q - ⌊q⌋ then ⌊q⌋ + 1
  else ⌊q⌋ + ⌊q⌋ % 2

/-- The three places a number may have above an integer. -/
theorem nearestEven_cases {q : ℚ} {n : ℤ} (hn : ⌊q⌋ = n) :
    (n ≤ q ∧ q < n + 1 / 2 ∧ nearestEven q = n) ∨ (q = n + 1 / 2 ∧ nearestEven q = n + n % 2) ∨
      (n + 1 / 2 < q ∧ q < n + 1 ∧ nearestEven q = n + 1) := by
  obtain ⟨hlow, hhigh⟩ := Int.floor_eq_iff.mp hn
  rw [nearestEven, hn]
  rcases lt_trichotomy (q - n) (1 / 2) with h | h | h
  · exact .inl ⟨hlow, by linarith, if_pos h⟩
  · exact .inr (.inl ⟨by linarith, by rw [if_neg h.not_lt, if_neg h.not_gt]⟩)
  · exact .inr (.inr ⟨by linarith, hhigh, by rw [if_neg h.not_gt, if_pos h]⟩)

theorem nearestEven_of_lt {q : ℚ} {n : ℤ} (hlow : n ≤ q) (h : q < n + 1 / 2) :
    nearestEven q = n := by
  have hn : ⌊q⌋ = n := Int.floor_eq_iff.mpr ⟨hlow, by linarith⟩
  rcases nearestEven_cases hn with ⟨-, -, h'⟩ | ⟨h', -⟩ | ⟨h', -, -⟩
  · exact h'
  · linarith
  · linarith

theorem nearestEven_of_half {q : ℚ} {n : ℤ} (h : q = n + 1 / 2) : nearestEven q = n + n % 2 := by
  have hn : ⌊q⌋ = n := Int.floor_eq_iff.mpr ⟨by linarith, by linarith⟩
  rcases nearestEven_cases hn with ⟨-, h', -⟩ | ⟨-, h'⟩ | ⟨h', -, -⟩
  · linarith
  · exact h'
  · linarith

theorem nearestEven_of_gt {q : ℚ} {n : ℤ} (h : n + 1 / 2 < q) (hhigh : q < n + 1) :
    nearestEven q = n + 1 := by
  have hn : ⌊q⌋ = n := Int.floor_eq_iff.mpr ⟨by linarith, hhigh⟩
  rcases nearestEven_cases hn with ⟨-, h', -⟩ | ⟨h', -⟩ | ⟨-, -, h'⟩
  · linarith
  · linarith
  · exact h'

@[simp] theorem nearestEven_intCast (n : ℤ) : nearestEven n = n :=
  nearestEven_of_lt (le_refl _) (by linarith)

theorem nearestEven_neg (q : ℚ) : nearestEven (-q) = -nearestEven q := by
  rcases nearestEven_cases (q := q) rfl with ⟨hlow, hhigh, h⟩ | ⟨hq, h⟩ | ⟨hlow, hhigh, h⟩
  · rw [h]
    rcases hlow.eq_or_lt with heq | hlt
    · rw [← heq, ← Int.cast_neg, nearestEven_intCast, Int.floor_intCast]
    · rw [nearestEven_of_gt (n := -⌊q⌋ - 1) (by push_cast; linarith) (by push_cast; linarith)]
      ring
  · rw [h, nearestEven_of_half (n := -⌊q⌋ - 1) (by push_cast; linarith)]
    omega
  · rw [h, nearestEven_of_lt (n := -⌊q⌋ - 1) (by push_cast; linarith) (by push_cast; linarith)]
    ring

theorem abs_nearestEven_sub_le (q : ℚ) : |(nearestEven q : ℚ) - q| ≤ 1 / 2 := by
  rw [abs_le]
  rcases nearestEven_cases (q := q) rfl with ⟨hlow, hhigh, h⟩ | ⟨hq, h⟩ | ⟨hlow, hhigh, h⟩
  · rw [h]
    constructor <;> linarith
  · rcases Int.emod_two_eq_zero_or_one ⌊q⌋ with heven | hodd
    · rw [h, heven, add_zero]
      constructor <;> linarith
    · rw [h, hodd]
      push_cast
      constructor <;> linarith
  · rw [h]
    push_cast
    constructor <;> linarith

theorem nearestEven_mono {p q : ℚ} (h : p ≤ q) : nearestEven p ≤ nearestEven q := by
  have hfloor : ⌊p⌋ ≤ ⌊q⌋ := Int.floor_le_floor h
  rcases hfloor.eq_or_lt with heq | hlt
  · rcases nearestEven_cases heq with ⟨-, -, hp⟩ | ⟨hp', hp⟩ | ⟨hp', -, hp⟩ <;>
      rcases nearestEven_cases (q := q) rfl with ⟨-, hq', hq⟩ | ⟨hq', hq⟩ | ⟨-, -, hq⟩ <;>
      rw [hp, hq]
    · have := Int.emod_nonneg ⌊q⌋ two_ne_zero
      omega
    · omega
    · linarith
    · have := Int.emod_lt_of_pos ⌊q⌋ two_pos
      omega
    · linarith
    · linarith
  · have hp : nearestEven p ≤ ⌊p⌋ + 1 := by
      rcases nearestEven_cases (q := p) rfl with ⟨-, -, hp⟩ | ⟨-, hp⟩ | ⟨-, -, hp⟩ <;> omega
    have hq : ⌊q⌋ ≤ nearestEven q := by
      rcases nearestEven_cases (q := q) rfl with ⟨-, -, hq⟩ | ⟨-, hq⟩ | ⟨-, -, hq⟩ <;> omega
    omega

/-- Rounding at most doubles a number: what it makes larger than half is at most one. -/
theorem abs_nearestEven_le (q : ℚ) : |(nearestEven q : ℚ)| ≤ 2 * |q| := by
  by_cases hsmall : |q| ≤ 1 / 2
  · have hzero : nearestEven q = 0 := by
      obtain ⟨hlow, hhigh⟩ := abs_le.mp hsmall
      have hle : nearestEven q ≤ nearestEven (1 / 2) := nearestEven_mono hhigh
      have hge : nearestEven (-(1 / 2)) ≤ nearestEven q := nearestEven_mono hlow
      rw [nearestEven_neg] at hge
      have hhalf : nearestEven (1 / 2) = 0 := nearestEven_of_half (n := 0) (by norm_num)
      omega
    rw [hzero, Int.cast_zero, abs_zero]
    positivity
  · have hoff := abs_nearestEven_sub_le q
    have htri : |(nearestEven q : ℚ)| ≤ |(nearestEven q : ℚ) - q| + |q| := by
      have := abs_add_le ((nearestEven q : ℚ) - q) q
      rwa [sub_add_cancel] at this
    linarith

/-! ## To a format -/

/-- The exponent of the last place that a format keeps of a number. -/
def place (f : Format) (x : ℚ) : ℤ := f.targetExponent (Int.log 2 |x| + 1)

/-- The number that a format has for `x`, exponents without an upper end. -/
def rounded (f : Format) (x : ℚ) : ℚ := nearestEven (x / 2 ^ place f x) * 2 ^ place f x

/-- What a format has: at most as many digits as it keeps, from its least exponent on. -/
def Representable (f : Format) (x : ℚ) : Prop :=
  ∃ m e : ℤ, x = m * 2 ^ e ∧ |m| ≤ 2 ^ f.mantissaBits ∧ f.minExponent ≤ e

variable {f : Format} {x y r : ℚ}

theorem two_zpow_pos (n : ℤ) : (0 : ℚ) < 2 ^ n := zpow_pos two_pos n

theorem two_zpow_add (a b : ℤ) : (2 : ℚ) ^ (a + b) = 2 ^ a * 2 ^ b :=
  zpow_add₀ two_ne_zero a b

/-- A power of two over a smaller one. -/
theorem two_zpow_eq_mul {a b : ℤ} (h : a ≤ b) :
    (2 : ℚ) ^ b = ((2 ^ (b - a).toNat : ℤ) : ℚ) * 2 ^ a := by
  have hb : b = ((b - a).toNat : ℤ) + a := by omega
  conv_lhs => rw [hb, two_zpow_add, zpow_natCast]
  norm_cast

theorem mantissaBits_pos (f : Format) : 0 < f.mantissaBits := by
  rw [Format.mantissaBits]
  omega

theorem minExponent_le_place (f : Format) (x : ℚ) : f.minExponent ≤ place f x := le_max_right _ _

theorem place_cases (f : Format) (x : ℚ) :
    place f x = Int.log 2 |x| + 1 - f.mantissaBits ∨ place f x = f.minExponent := by
  rw [place, Format.targetExponent]
  omega

@[simp] theorem place_neg (f : Format) (x : ℚ) : place f (-x) = place f x := by
  rw [place, abs_neg, place]

theorem rounded_neg (f : Format) (x : ℚ) : rounded f (-x) = -rounded f x := by
  rw [rounded, place_neg, neg_div, nearestEven_neg, Int.cast_neg, neg_mul, rounded]

theorem rounded_zero (f : Format) : rounded f 0 = 0 := by
  rw [rounded, zero_div, ← Int.cast_zero, nearestEven_intCast, Int.cast_zero, zero_mul]

theorem Representable.neg (h : Representable f x) : Representable f (-x) := by
  obtain ⟨m, e, rfl, hm, he⟩ := h
  exact ⟨-m, e, by rw [Int.cast_neg, neg_mul], by rw [abs_neg]; exact hm, he⟩

theorem zpow_log_le (hx : x ≠ 0) : (2 : ℚ) ^ Int.log 2 |x| ≤ |x| :=
  Int.zpow_log_le_self one_lt_two (abs_pos.mpr hx)

theorem lt_zpow_log (x : ℚ) : |x| < (2 : ℚ) ^ (Int.log 2 |x| + 1) :=
  Int.lt_zpow_succ_log_self one_lt_two |x|

theorem log_lt_of_lt {k : ℤ} (hx : x ≠ 0) (h : |x| < 2 ^ k) : Int.log 2 |x| < k :=
  (zpow_lt_zpow_iff_right₀ one_lt_two).mp (lt_of_le_of_lt (zpow_log_le hx) h)

/-- A number of a format is a multiple of any unit that is not above its own. -/
theorem Representable.multiple (h : Representable f x) {t : ℤ} (ht : t ≤ place f x) :
    ∃ n : ℤ, x = n * 2 ^ t := by
  obtain ⟨m, e, rfl, hm, he⟩ := h
  by_cases hm0 : m = 0
  · exact ⟨0, by rw [hm0, Int.cast_zero, zero_mul, zero_mul]⟩
  by_cases hte : t ≤ e
  · exact ⟨m * 2 ^ (e - t).toNat, by rw [two_zpow_eq_mul hte]; push_cast; ring⟩
  · -- the unit lies above `e` only where the digits are used up: a power of two
    have hx : (m : ℚ) * 2 ^ e ≠ 0 := mul_ne_zero (Int.cast_ne_zero.mpr hm0) (two_zpow_pos e).ne'
    have hle := zpow_log_le hx
    generalize hlog : Int.log 2 |(m : ℚ) * 2 ^ e| = l at hle
    have hplace := place_cases f ((m : ℚ) * 2 ^ e)
    rw [hlog] at hplace
    have hl : (f.mantissaBits : ℤ) + e ≤ l := by omega
    rw [abs_mul, abs_of_pos (two_zpow_pos e), two_zpow_eq_mul (a := e) (b := l) (by omega)] at hle
    have hdigits := le_of_mul_le_mul_right hle (two_zpow_pos e)
    rw [← Int.cast_abs, Int.cast_le] at hdigits
    have hpow : (2 : ℤ) ^ f.mantissaBits ≤ 2 ^ (l - e).toNat :=
      pow_le_pow_right₀ (by decide) (by omega)
    have hm' : |m| = 2 ^ f.mantissaBits := by omega
    have hl' : (l - e).toNat ≤ f.mantissaBits :=
      (pow_le_pow_iff_right₀ (by decide : (1 : ℤ) < 2)).mp (by omega)
    have ht' : t = e + 1 := by omega
    have hpos := mantissaBits_pos f
    have heven : (2 : ℤ) ∣ m := by
      rw [← dvd_abs, hm']
      exact dvd_pow_self 2 hpos.ne'
    obtain ⟨n, rfl⟩ := heven
    exact ⟨n, by rw [ht', two_zpow_add, zpow_one]; push_cast; ring⟩

theorem rounded_of_representable (h : Representable f x) : rounded f x = x := by
  obtain ⟨n, hn⟩ := h.multiple (le_refl _)
  have hq : x / 2 ^ place f x = n := by
    rw [div_eq_iff (two_zpow_pos _).ne']
    exact hn
  rw [rounded, hq, nearestEven_intCast]
  exact hn.symm

/-! ### Rounding never crosses a number of the format -/

/-- The lowest number with the unit of `x` in its last digit, in that unit. -/
theorem zpow_log_eq (h : place f x = Int.log 2 |x| + 1 - f.mantissaBits) :
    (2 : ℚ) ^ Int.log 2 |x| = ((2 ^ (f.mantissaBits - 1) : ℤ) : ℚ) * 2 ^ place f x := by
  have hpos := mantissaBits_pos f
  have hexp : (Int.log 2 |x| - place f x).toNat = f.mantissaBits - 1 := by omega
  rw [two_zpow_eq_mul (a := place f x) (b := Int.log 2 |x|) (by omega), hexp]

/-- Between `x` and a number of the format above it there is a multiple of the unit of `x`. -/
theorem exists_multiple_between (hr : Representable f r) (h : x ≤ r) :
    ∃ n : ℤ, x ≤ n * 2 ^ place f x ∧ n * 2 ^ place f x ≤ r := by
  by_cases hr0 : r = 0
  · exact ⟨0, by rw [Int.cast_zero, zero_mul, ← hr0]; exact h,
      by rw [Int.cast_zero, zero_mul, hr0]⟩
  by_cases hplace : place f x ≤ place f r
  · obtain ⟨n, rfl⟩ := hr.multiple hplace
    exact ⟨n, h, le_refl _⟩
  by_cases hx0 : x = 0
  · exact ⟨0, by rw [Int.cast_zero, zero_mul, hx0],
      by rw [Int.cast_zero, zero_mul, ← hx0]; exact h⟩
  · -- a number with a smaller unit is nearer to zero, and a power of two lies between
    have hmin := minExponent_le_place f r
    have hunit := (place_cases f x).resolve_right (by omega)
    have hlog : Int.log 2 |r| + 1 ≤ Int.log 2 |x| := by
      have : Int.log 2 |r| + 1 - f.mantissaBits ≤ place f r := le_max_left _ _
      omega
    have hnear : |r| < 2 ^ Int.log 2 |x| :=
      lt_of_lt_of_le (lt_zpow_log r) ((zpow_le_zpow_iff_right₀ one_lt_two).mpr hlog)
    have hfar := zpow_log_le hx0
    rw [zpow_log_eq hunit] at hnear hfar
    have hneg : x ≤ 0 := by
      by_contra hx
      rw [abs_of_pos (not_le.mp hx)] at hfar
      linarith [le_abs_self r]
    refine ⟨-2 ^ (f.mantissaBits - 1), ?_, ?_⟩
    · rw [Int.cast_neg, neg_mul]
      linarith [neg_abs_le x, abs_of_nonpos hneg]
    · rw [Int.cast_neg, neg_mul]
      linarith [neg_abs_le r]

theorem rounded_le (hr : Representable f r) (h : x ≤ r) : rounded f x ≤ r := by
  have hpos := two_zpow_pos (place f x)
  obtain ⟨n, hxn, hnr⟩ := exists_multiple_between hr h
  have hle : nearestEven (x / 2 ^ place f x) ≤ n := by
    rw [← nearestEven_intCast n]
    exact nearestEven_mono ((div_le_iff₀ hpos).mpr hxn)
  calc rounded f x = nearestEven (x / 2 ^ place f x) * 2 ^ place f x := rfl
    _ ≤ n * 2 ^ place f x := mul_le_mul_of_nonneg_right (Int.cast_le.mpr hle) hpos.le
    _ ≤ r := hnr

theorem le_rounded (hr : Representable f r) (h : r ≤ x) : r ≤ rounded f x := by
  have hneg := rounded_le hr.neg (neg_le_neg h)
  rw [rounded_neg] at hneg
  exact neg_le_neg_iff.mp hneg

theorem rounded_nonneg (h : 0 ≤ x) : 0 ≤ rounded f x :=
  le_rounded ⟨0, f.minExponent, by rw [Int.cast_zero, zero_mul], by positivity, le_refl _⟩ h

/-- Rounding moves a number by at most half a unit, and by no more than what it is. -/
theorem abs_rounded_sub_le (f : Format) (x : ℚ) : |rounded f x - x| ≤ 2 ^ place f x / 2 := by
  have hpos := two_zpow_pos (place f x)
  have hoff := abs_nearestEven_sub_le (x / 2 ^ place f x)
  have heq : rounded f x - x
      = ((nearestEven (x / 2 ^ place f x) : ℚ) - x / 2 ^ place f x) * 2 ^ place f x := by
    rw [sub_mul, div_mul_cancel₀ _ hpos.ne', rounded]
  calc |rounded f x - x|
      = |(nearestEven (x / 2 ^ place f x) : ℚ) - x / 2 ^ place f x| * 2 ^ place f x := by
        rw [heq, abs_mul, abs_of_pos hpos]
    _ ≤ 1 / 2 * 2 ^ place f x := mul_le_mul_of_nonneg_right hoff hpos.le
    _ = 2 ^ place f x / 2 := by ring

theorem abs_rounded_le (f : Format) (x : ℚ) : |rounded f x| ≤ 2 * |x| := by
  have hpos := two_zpow_pos (place f x)
  have hdouble := abs_nearestEven_le (x / 2 ^ place f x)
  calc |rounded f x| = |(nearestEven (x / 2 ^ place f x) : ℚ)| * 2 ^ place f x := by
        rw [rounded, abs_mul, abs_of_pos hpos]
    _ ≤ 2 * |x / 2 ^ place f x| * 2 ^ place f x := mul_le_mul_of_nonneg_right hdouble hpos.le
    _ = 2 * |x| := by rw [abs_div, abs_of_pos hpos, mul_assoc, div_mul_cancel₀ _ hpos.ne']

/-! ### What rounding gives is a number of the format -/

theorem abs_digits_le (f : Format) (x : ℚ) :
    |nearestEven (x / 2 ^ place f x)| ≤ 2 ^ f.mantissaBits := by
  have hpos := two_zpow_pos (place f x)
  have hbound : |x / 2 ^ place f x| ≤ ((2 ^ f.mantissaBits : ℤ) : ℚ) := by
    rw [abs_div, abs_of_pos hpos, div_le_iff₀ hpos]
    have hle : Int.log 2 |x| + 1 - f.mantissaBits ≤ place f x := le_max_left _ _
    calc |x| ≤ 2 ^ (Int.log 2 |x| + 1) := (lt_zpow_log x).le
      _ ≤ 2 ^ (f.mantissaBits + place f x) :=
        (zpow_le_zpow_iff_right₀ one_lt_two).mpr (by omega)
      _ = ((2 ^ f.mantissaBits : ℤ) : ℚ) * 2 ^ place f x := by
        rw [two_zpow_add, zpow_natCast]
        norm_cast
  rw [abs_le]
  constructor
  · have h := nearestEven_mono (neg_le_of_abs_le hbound)
    rwa [nearestEven_neg, nearestEven_intCast] at h
  · have h := nearestEven_mono (le_of_abs_le hbound)
    rwa [nearestEven_intCast] at h

/-- Above the least exponent the digits are used up. -/
theorem full_digits (hx : 0 < x) :
    2 ^ f.mantissaBits ≤ 2 * nearestEven (x / 2 ^ place f x) ∨ place f x = f.minExponent := by
  refine (place_cases f x).imp (fun hunit => ?_) id
  have hpos := two_zpow_pos (place f x)
  have hlow : ((2 ^ (f.mantissaBits - 1) : ℤ) : ℚ) ≤ x / 2 ^ place f x := by
    rw [le_div_iff₀ hpos, ← zpow_log_eq hunit]
    exact le_trans (zpow_log_le hx.ne') (abs_of_pos hx).le
  have hround := nearestEven_mono hlow
  rw [nearestEven_intCast] at hround
  calc (2 : ℤ) ^ f.mantissaBits = 2 * 2 ^ (f.mantissaBits - 1) := by
        rw [← pow_succ', Nat.sub_add_cancel (mantissaBits_pos f)]
    _ ≤ 2 * nearestEven (x / 2 ^ place f x) := by omega

theorem representable_rounded (f : Format) (x : ℚ) : Representable f (rounded f x) :=
  ⟨_, _, rfl, abs_digits_le f x, minExponent_le_place f x⟩

/-- A power of two that the format has. -/
theorem representable_zpow {k : ℤ} (h : f.minExponent ≤ k) : Representable f (2 ^ k) :=
  ⟨1, k, by rw [Int.cast_one, one_mul], by
    rw [abs_one]
    exact one_le_pow₀ (by decide), h⟩

theorem representable_zero (f : Format) : Representable f 0 :=
  ⟨0, f.minExponent, by rw [Int.cast_zero, zero_mul], by positivity, le_refl _⟩

/-- Two numbers whose units differ have a number of the format between them. -/
theorem exists_representable_between (h : x ≤ y) (hplace : place f x < place f y) :
    ∃ z, Representable f z ∧ x ≤ z ∧ z ≤ y := by
  by_cases hy0 : y = 0
  · exact ⟨0, representable_zero f, hy0 ▸ h, hy0.ge⟩
  · have hmin := minExponent_le_place f x
    have hunit := (place_cases f y).resolve_right (by omega)
    have hlog : Int.log 2 |x| + 1 ≤ Int.log 2 |y| := by
      have : Int.log 2 |x| + 1 - f.mantissaBits ≤ place f x := le_max_left _ _
      omega
    have hnear : |x| < 2 ^ Int.log 2 |y| :=
      lt_of_lt_of_le (lt_zpow_log x) ((zpow_le_zpow_iff_right₀ one_lt_two).mpr hlog)
    have hfar := zpow_log_le hy0
    have hpos := mantissaBits_pos f
    refine ⟨2 ^ Int.log 2 |y|, representable_zpow (by omega), by linarith [le_abs_self x], ?_⟩
    have hy : 0 ≤ y := by
      by_contra hy
      have hxy := abs_le_abs_of_nonpos (not_le.mp hy).le h
      linarith
    rwa [abs_of_nonneg hy] at hfar ⊢

theorem rounded_mono (h : x ≤ y) : rounded f x ≤ rounded f y := by
  rcases lt_trichotomy (place f x) (place f y) with hlt | heq | hgt
  · obtain ⟨z, hz, hxz, hzy⟩ := exists_representable_between h hlt
    exact le_trans (rounded_le hz hxz) (le_rounded hz hzy)
  · have hpos := two_zpow_pos (place f y)
    rw [rounded, rounded, heq]
    refine mul_le_mul_of_nonneg_right (Int.cast_le.mpr (nearestEven_mono ?_)) hpos.le
    exact div_le_div_of_nonneg_right h hpos.le
  · obtain ⟨z, hz, hyz, hzx⟩ :=
      exists_representable_between (f := f) (neg_le_neg h) (by rwa [place_neg, place_neg])
    exact le_trans (rounded_le hz.neg (le_neg_of_le_neg hzx))
      (le_rounded hz.neg (neg_le_of_neg_le hyz))

/-- How far rounding moves a number below a power of two. -/
theorem abs_rounded_sub_le_of_lt {k : ℤ} (h : |x| < 2 ^ k)
    (hk : f.minExponent + f.mantissaBits ≤ k) :
    |rounded f x - x| ≤ 2 ^ (k - f.mantissaBits) / 2 := by
  by_cases hx : x = 0
  · rw [hx, rounded_zero, sub_zero, abs_zero]
    exact div_nonneg (two_zpow_pos _).le zero_le_two
  · have hlog := log_lt_of_lt hx h
    have hplace : place f x ≤ k - f.mantissaBits := by
      rw [place, Format.targetExponent]
      omega
    have hunit := (zpow_le_zpow_iff_right₀ (one_lt_two (α := ℚ))).mpr hplace
    linarith [abs_rounded_sub_le f x]

/-! ### Scaling -/

theorem log_mul_zpow (hx : x ≠ 0) (k : ℤ) : Int.log 2 |x * 2 ^ k| = Int.log 2 |x| + k := by
  have hk := two_zpow_pos k
  have hx' : x * 2 ^ k ≠ 0 := mul_ne_zero hx hk.ne'
  have hlow := zpow_log_le hx
  have hhigh := lt_zpow_log x
  have habs : |x * 2 ^ k| = |x| * 2 ^ k := by rw [abs_mul, abs_of_pos hk]
  refine le_antisymm (Int.lt_add_one_iff.mp (log_lt_of_lt hx' ?_)) ?_
  · calc |x * 2 ^ k| = |x| * 2 ^ k := habs
      _ < 2 ^ (Int.log 2 |x| + 1) * 2 ^ k := mul_lt_mul_of_pos_right hhigh hk
      _ = 2 ^ (Int.log 2 |x| + k + 1) := by
        rw [← two_zpow_add]
        congr 1
        omega
  · rw [← Int.zpow_le_iff_le_log one_lt_two (abs_pos.mpr hx'), habs]
    calc ((2 : ℕ) : ℚ) ^ (Int.log 2 |x| + k) = 2 ^ Int.log 2 |x| * 2 ^ k := two_zpow_add _ _
      _ ≤ |x| * 2 ^ k := mul_le_mul_of_nonneg_right hlow hk.le

/-- Away from the least exponent, rounding commutes with powers of two. -/
theorem rounded_mul_zpow {k : ℤ} (hx : x ≠ 0)
    (h : f.minExponent + f.mantissaBits ≤ Int.log 2 |x| + 1)
    (hk : f.minExponent + f.mantissaBits ≤ Int.log 2 |x| + 1 + k) :
    rounded f (x * 2 ^ k) = rounded f x * 2 ^ k := by
  have hplace : place f (x * 2 ^ k) = place f x + k := by
    rw [place, place, log_mul_zpow hx, Format.targetExponent, Format.targetExponent]
    omega
  rw [rounded, hplace, two_zpow_add, mul_div_mul_right _ _ (two_zpow_pos k).ne', ← mul_assoc,
    rounded]

/-! ### A step of a moving average -/

/-- The part `c` of a difference, every operation rounded. -/
def part (f : Format) (c d : ℚ) : ℚ := rounded f (c * rounded f d)

/-- The step from `x` towards `y`. -/
def towards (f : Format) (c x y : ℚ) : ℚ := rounded f (x + part f c (y - x))

theorem part_neg (f : Format) (c d : ℚ) : part f c (-d) = -part f c d := by
  rw [part, rounded_neg, mul_neg, rounded_neg, part]

section Part

variable {c d : ℚ}

/-- Each of the two roundings at most doubles, so a quarter does not become more than all. -/
theorem part_bounds (hc0 : 0 ≤ c) (hc : c ≤ 1 / 4) (hd : 0 ≤ d) :
    0 ≤ part f c d ∧ part f c d ≤ d := by
  have hdiff := rounded_nonneg (f := f) hd
  have hstep := rounded_nonneg (f := f) (mul_nonneg hc0 hdiff)
  have hdouble := abs_rounded_le f d
  have hdouble' := abs_rounded_le f (c * rounded f d)
  have hquarter : c * rounded f d ≤ 1 / 4 * rounded f d := mul_le_mul_of_nonneg_right hc hdiff
  rw [abs_of_nonneg hdiff, abs_of_nonneg hd] at hdouble
  rw [abs_of_nonneg hstep, abs_of_nonneg (mul_nonneg hc0 hdiff)] at hdouble'
  rw [part]
  exact ⟨hstep, by linarith⟩

/-- What is added stays between the two ends. -/
theorem add_part_between (hc0 : 0 ≤ c) (hc : c ≤ 1 / 4) (x y : ℚ) :
    min x y ≤ x + part f c (y - x) ∧ x + part f c (y - x) ≤ max x y := by
  rcases le_total x y with h | h
  · obtain ⟨hlow, hhigh⟩ := part_bounds (f := f) hc0 hc (sub_nonneg.mpr h)
    rw [min_eq_left h, max_eq_right h]
    exact ⟨by linarith, by linarith⟩
  · obtain ⟨hlow, hhigh⟩ := part_bounds (f := f) hc0 hc (sub_nonneg.mpr h)
    have hneg := part_neg f c (y - x)
    rw [neg_sub] at hneg
    rw [min_eq_right h, max_eq_left h]
    exact ⟨by linarith, by linarith⟩

/-- A step by at most a quarter does not leave the interval. -/
theorem towards_between (hc0 : 0 ≤ c) (hc : c ≤ 1 / 4) (hx : Representable f x)
    (hy : Representable f y) : min x y ≤ towards f c x y ∧ towards f c x y ≤ max x y := by
  obtain ⟨hlow, hhigh⟩ := add_part_between (f := f) hc0 hc x y
  have hmin : Representable f (min x y) := by
    rcases min_choice x y with h | h <;> rwa [h]
  have hmax : Representable f (max x y) := by
    rcases max_choice x y with h | h <;> rwa [h]
  exact ⟨le_rounded hmin hlow, rounded_le hmax hhigh⟩

/-- The three roundings of a step inside an interval. -/
theorem abs_towards_sub_le {k : ℤ} (hc0 : 0 ≤ c) (hc : c ≤ 1 / 4) (hx0 : 0 ≤ x) (hx : x < 2 ^ k)
    (hy0 : 0 ≤ y) (hy : y < 2 ^ k) (hk : f.minExponent + f.mantissaBits ≤ k) :
    |towards f c x y - (x + c * (y - x))| ≤ 3 * (2 ^ (k - f.mantissaBits) / 2) := by
  have hdiff : |y - x| < 2 ^ k := abs_lt.mpr ⟨by linarith, by linarith⟩
  have hstep : |c * rounded f (y - x)| ≤ |y - x| / 2 := by
    rw [abs_mul, abs_of_nonneg hc0]
    calc c * |rounded f (y - x)| ≤ 1 / 4 * (2 * |y - x|) :=
          mul_le_mul hc (abs_rounded_le f _) (abs_nonneg _) (by norm_num)
      _ = |y - x| / 2 := by ring
  have hlast : |x + part f c (y - x)| < 2 ^ k := by
    obtain ⟨hlow, hhigh⟩ := add_part_between (f := f) hc0 hc x y
    rw [abs_of_nonneg (le_trans (le_min hx0 hy0) hlow)]
    exact lt_of_le_of_lt hhigh (max_lt hx hy)
  have h₁ := abs_rounded_sub_le_of_lt hdiff hk
  have h₂ := abs_rounded_sub_le_of_lt
    (lt_of_le_of_lt hstep (by linarith [abs_nonneg (y - x)])) hk
  have h₃ := abs_rounded_sub_le_of_lt hlast hk
  have hscaled : |c * rounded f (y - x) - c * (y - x)| ≤ 2 ^ (k - f.mantissaBits) / 2 := by
    rw [← mul_sub, abs_mul, abs_of_nonneg hc0]
    calc c * |rounded f (y - x) - (y - x)| ≤ 1 * (2 ^ (k - f.mantissaBits) / 2) :=
          mul_le_mul (by linarith) h₁ (abs_nonneg _) zero_le_one
      _ = 2 ^ (k - f.mantissaBits) / 2 := one_mul _
  rw [← part] at h₂
  rw [← towards] at h₃
  rw [abs_le] at *
  constructor <;> linarith

end Part

end RtpSdr.Lib.Rounding
