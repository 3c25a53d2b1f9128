import RtpSdr.Lib.Binary64

/-!
# Numbers up to a factor

Each rounding changes a number by a factor close to one. How many such factors lie between a
computed number and the exact one adds up over products and quotients, and does not over sums and
maxima of numbers that are not negative.
-/
namespace RtpSdr.Lib.Closeness

open Float.Model (Format)
open RtpSdr.Lib.Rounding
open RtpSdr.Lib.Binary64

/-- At most `k` factors `ρ` lie between `x` and `q`, either way. -/
structure Close (ρ : ℚ) (k : ℕ) (x q : ℚ) : Prop where
  nonneg : 0 ≤ q
  low : q ≤ x * ρ ^ k
  high : x ≤ q * ρ ^ k

variable {ρ : ℚ} {k l : ℕ} {x y z q r : ℚ}

section

variable (hρ : 1 ≤ ρ)

include hρ

theorem one_le_factor (k : ℕ) : 1 ≤ ρ ^ k := one_le_pow₀ hρ

theorem factor_pos (k : ℕ) : 0 < ρ ^ k := lt_of_lt_of_le one_pos (one_le_factor hρ k)

theorem Close.left_nonneg (h : Close ρ k x q) : 0 ≤ x :=
  nonneg_of_mul_nonneg_left (le_trans h.nonneg h.low) (factor_pos hρ k)

theorem Close.refl (hq : 0 ≤ q) (k : ℕ) : Close ρ k q q :=
  have hle := le_mul_of_one_le_right hq (one_le_factor hρ k)
  ⟨hq, hle, hle⟩

/-- A positive number is close to positive numbers only. -/
theorem Close.left_pos (h : Close ρ k x q) (hq : 0 < q) : 0 < x :=
  pos_of_mul_pos_left (lt_of_lt_of_le hq h.low) (factor_pos hρ k).le

theorem Close.trans (hxy : Close ρ k x y) (hyq : Close ρ l y q) : Close ρ (k + l) x q where
  nonneg := hyq.nonneg
  low := by
    calc q ≤ y * ρ ^ l := hyq.low
      _ ≤ x * ρ ^ k * ρ ^ l := mul_le_mul_of_nonneg_right hxy.low (factor_pos hρ l).le
      _ = x * ρ ^ (k + l) := by rw [mul_assoc, pow_add]
  high := by
    calc x ≤ y * ρ ^ k := hxy.high
      _ ≤ q * ρ ^ l * ρ ^ k := mul_le_mul_of_nonneg_right hyq.high (factor_pos hρ k).le
      _ = q * ρ ^ (k + l) := by rw [mul_assoc, Nat.add_comm, pow_add]

theorem Close.mul (hx : Close ρ k x q) (hy : Close ρ l y r) : Close ρ (k + l) (x * y) (q * r) where
  nonneg := mul_nonneg hx.nonneg hy.nonneg
  low := by
    have hright := mul_nonneg (hx.left_nonneg hρ) (factor_pos hρ k).le
    calc q * r ≤ (x * ρ ^ k) * (y * ρ ^ l) := mul_le_mul hx.low hy.low hy.nonneg hright
      _ = x * y * ρ ^ (k + l) := by rw [pow_add]; ring
  high := by
    have hright := mul_nonneg hx.nonneg (factor_pos hρ k).le
    calc x * y ≤ (q * ρ ^ k) * (r * ρ ^ l) :=
          mul_le_mul hx.high hy.high (hy.left_nonneg hρ) hright
      _ = q * r * ρ ^ (k + l) := by rw [pow_add]; ring

theorem Close.inv (hy : Close ρ l y r) (hr : 0 < r) : Close ρ l y⁻¹ r⁻¹ := by
  have hy0 := hy.left_pos hρ hr
  have hl := factor_pos hρ l
  refine ⟨(inv_pos.mpr hr).le, ?_, ?_⟩
  · rw [inv_mul_eq_div, le_div_iff₀ hy0, inv_mul_le_iff₀ hr]
    exact hy.high
  · rw [inv_mul_eq_div, le_div_iff₀ hr, inv_mul_le_iff₀ hy0]
    exact hy.low

theorem Close.div (hx : Close ρ k x q) (hy : Close ρ l y r) (hr : 0 < r) :
    Close ρ (k + l) (x / y) (q / r) := by
  rw [div_eq_mul_inv, div_eq_mul_inv]
  exact hx.mul hρ (hy.inv hρ hr)

theorem Close.mono (h : Close ρ k x q) (hkl : k ≤ l) : Close ρ l x q := by
  obtain ⟨n, rfl⟩ := Nat.exists_eq_add_of_le hkl
  rw [Nat.add_comm]
  exact (Close.refl hρ (h.left_nonneg hρ) n).trans hρ h

end

theorem Close.add (hx : Close ρ k x q) (hy : Close ρ k y r) : Close ρ k (x + y) (q + r) where
  nonneg := add_nonneg hx.nonneg hy.nonneg
  low := by
    rw [add_mul]
    exact add_le_add hx.low hy.low
  high := by
    rw [add_mul]
    exact add_le_add hx.high hy.high

theorem Close.max (hρ : 1 ≤ ρ) (hx : Close ρ k x q) (hy : Close ρ k y r) :
    Close ρ k (max x y) (max q r) where
  nonneg := le_max_of_le_left hx.nonneg
  low := by
    rw [max_mul_of_nonneg _ _ (factor_pos hρ k).le]
    exact max_le_max hx.low hy.low
  high := by
    rw [max_mul_of_nonneg _ _ (factor_pos hρ k).le]
    exact max_le_max hx.high hy.high

/-! ## Rounding -/

variable {f : Format}

/-- The factor of one rounding. -/
def factor (f : Format) : ℚ := 1 + 2 / 2 ^ f.mantissaBits

theorem one_le_factor_format (f : Format) : 1 ≤ factor f :=
  le_add_of_nonneg_right (by positivity)

theorem abs_rounded_sub_le_mul (hx : 0 < x) (h : 2 ^ (f.minExponent + f.mantissaBits - 1) ≤ x) :
    |rounded f x - x| ≤ x / 2 ^ f.mantissaBits := by
  have habs : |x| = x := abs_of_pos hx
  have hlog : f.minExponent + f.mantissaBits - 1 ≤ Int.log 2 |x| := by
    rw [habs]
    exact (Int.zpow_le_iff_le_log one_lt_two hx).mp h
  have hplace : place f x = Int.log 2 |x| + 1 - f.mantissaBits := by
    rcases place_cases f x with heq | heq
    · exact heq
    · have := minExponent_le_place f x
      rw [place, Format.targetExponent] at *
      omega
  have hpow : (2 : ℚ) ^ place f x / 2 = 2 ^ Int.log 2 |x| / 2 ^ f.mantissaBits := by
    rw [hplace, zpow_sub₀ two_ne_zero, zpow_add₀ two_ne_zero, zpow_one, zpow_natCast]
    ring
  calc |rounded f x - x| ≤ 2 ^ place f x / 2 := abs_rounded_sub_le f x
    _ = 2 ^ Int.log 2 |x| / 2 ^ f.mantissaBits := hpow
    _ ≤ x / 2 ^ f.mantissaBits := by
      have hle := zpow_log_le hx.ne'
      rw [habs] at hle ⊢
      exact div_le_div_of_nonneg_right hle (by positivity)

/-- Rounding is one factor where the number has all its digits. -/
theorem close_rounded (h : x = 0 ∨ 2 ^ (f.minExponent + f.mantissaBits - 1) ≤ x) :
    Close (factor f) 1 (rounded f x) x := by
  rcases h with rfl | h
  · rw [rounded_zero]
    exact .refl (one_le_factor_format f) le_rfl 1
  · have hx : 0 < x := lt_of_lt_of_le (two_zpow_pos _) h
    obtain ⟨hlow, hhigh⟩ := abs_le.mp (abs_rounded_sub_le_mul hx h)
    have hbits : (2 : ℚ) ≤ 2 ^ f.mantissaBits := le_self_pow₀ one_le_two (mantissaBits_pos f).ne'
    have hu : x * (1 / 2 ^ f.mantissaBits) = x / 2 ^ f.mantissaBits := by ring
    have hu0 : 0 ≤ x / 2 ^ f.mantissaBits := by positivity
    refine ⟨hx.le, ?_, ?_⟩
    · rw [pow_one, factor]
      have hhalf : x / 2 ^ f.mantissaBits * (2 / 2 ^ f.mantissaBits) ≤ x / 2 ^ f.mantissaBits * 1 :=
        mul_le_mul_of_nonneg_left ((div_le_one (by positivity)).mpr hbits) hu0
      have hprod : (x - x / 2 ^ f.mantissaBits) * (1 + 2 / 2 ^ f.mantissaBits)
          ≤ rounded f x * (1 + 2 / 2 ^ f.mantissaBits) :=
        mul_le_mul_of_nonneg_right (by linarith) (by positivity)
      have hexpand : (x - x / 2 ^ f.mantissaBits) * (1 + 2 / 2 ^ f.mantissaBits)
          = x + 2 * (x / 2 ^ f.mantissaBits) - x / 2 ^ f.mantissaBits
            - x / 2 ^ f.mantissaBits * (2 / 2 ^ f.mantissaBits) := by ring
      linarith
    · rw [pow_one, factor, mul_add, mul_one]
      have hdouble : x * (2 / 2 ^ f.mantissaBits) = 2 * (x / 2 ^ f.mantissaBits) := by ring
      linarith

/-! ## Computations in `double` -/

/-- The `double` stands for `q` up to `k` roundings. -/
def Computes (k : ℕ) (x : Float) (q : ℚ) : Prop :=
  ∃ p, IsNum x p ∧ Close (factor .binary64) k p q

/-- Zero, or far from the least and the largest `double`. -/
def Ordinary (q : ℚ) : Prop := q = 0 ∨ 2 ^ (-1000 : ℤ) ≤ q ∧ q ≤ 2 ^ (1000 : ℤ)

/-- Between two powers of two. -/
def Spans (a b : ℤ) (q : ℚ) : Prop := 2 ^ a ≤ q ∧ q ≤ 2 ^ b

variable {a b c d : ℤ}

theorem Spans.pos (h : Spans a b q) : 0 < q := lt_of_lt_of_le (two_zpow_pos a) h.1

theorem Spans.ordinary (h : Spans a b q) (ha : -1000 ≤ a) (hb : b ≤ 1000) : Ordinary q :=
  .inr ⟨le_trans ((zpow_le_zpow_iff_right₀ one_lt_two).mpr ha) h.1,
    le_trans h.2 ((zpow_le_zpow_iff_right₀ one_lt_two).mpr hb)⟩

theorem Spans.mul (hq : Spans a b q) (hr : Spans c d r) : Spans (a + c) (b + d) (q * r) := by
  rw [Spans, two_zpow_add, two_zpow_add]
  exact ⟨mul_le_mul hq.1 hr.1 (two_zpow_pos c).le hq.pos.le,
    mul_le_mul hq.2 hr.2 hr.pos.le (two_zpow_pos b).le⟩

theorem Spans.div (hq : Spans a b q) (hr : Spans c d r) : Spans (a - d) (b - c) (q / r) := by
  rw [Spans, zpow_sub₀ two_ne_zero, zpow_sub₀ two_ne_zero]
  exact ⟨div_le_div₀ hq.pos.le hq.1 hr.pos hr.2,
    div_le_div₀ (two_zpow_pos b).le hq.2 (two_zpow_pos c) hr.1⟩

theorem one_le_factor64 : 1 ≤ factor .binary64 := one_le_factor_format .binary64

theorem IsNum.computes {u : Float} (h : IsNum u q) (h0 : 0 ≤ q) : Computes 0 u q :=
  ⟨q, h, .refl one_le_factor64 h0 0⟩

theorem Computes.mono {u : Float} (h : Computes k u q) (hkl : k ≤ l) : Computes l u q := by
  obtain ⟨p, hnum, hclose⟩ := h
  exact ⟨p, hnum, hclose.mono one_le_factor64 hkl⟩

/-- A few roundings do not double a number. -/
theorem factor_pow_le_two (hk : k ≤ 16) : factor .binary64 ^ k ≤ 2 := by
  have hmono := pow_le_pow_right₀ one_le_factor64 hk
  have hsixteen : factor .binary64 ^ 16 ≤ 2 := by
    have hfactor : factor .binary64 = 1 + 2 / 2 ^ 53 := rfl
    rw [hfactor]
    norm_num
  exact le_trans hmono hsixteen

/-- What is close to an ordinary number is in the range of `double`. -/
theorem Close.ordinary (h : Close (factor .binary64) k x q) (hk : k ≤ 16) (hq : Ordinary q) :
    (x = 0 ∨ 2 ^ (-1001 : ℤ) ≤ x) ∧ |x| ≤ 2 ^ (1023 : ℤ) := by
  have hx0 := h.left_nonneg one_le_factor64
  have htwo := factor_pow_le_two hk
  rcases hq with rfl | ⟨hlow, hhigh⟩
  · have hzero : x = 0 := le_antisymm (by simpa using h.high) hx0
    rw [hzero, abs_zero]
    exact ⟨.inl rfl, by positivity⟩
  · constructor
    · have hdouble : q ≤ x * 2 := le_trans h.low (mul_le_mul_of_nonneg_left htwo hx0)
      have hhalf : (2 : ℚ) ^ (-1001 : ℤ) * 2 = 2 ^ (-1000 : ℤ) := by
        rw [← zpow_add_one₀ two_ne_zero]
        rfl
      exact .inr (le_of_mul_le_mul_right (by rw [hhalf]; linarith) two_pos)
    · have hdouble : x ≤ q * 2 := le_trans h.high (mul_le_mul_of_nonneg_left htwo h.nonneg)
      have hnext : (2 : ℚ) ^ (1000 : ℤ) * 2 = 2 ^ (1001 : ℤ) := by
        rw [← zpow_add_one₀ two_ne_zero]
        rfl
      have hfar : (2 : ℚ) ^ (1001 : ℤ) ≤ 2 ^ (1023 : ℤ) :=
        (zpow_le_zpow_iff_right₀ one_lt_two).mpr (by decide)
      rw [abs_of_nonneg hx0]
      calc x ≤ q * 2 := hdouble
        _ ≤ 2 ^ (1000 : ℤ) * 2 := mul_le_mul_of_nonneg_right hhigh two_pos.le
        _ = 2 ^ (1001 : ℤ) := hnext
        _ ≤ 2 ^ (1023 : ℤ) := hfar

/-- One rounding more. -/
theorem Close.rounded (h : Close (factor .binary64) k x q) (hk : k ≤ 16) (hq : Ordinary q) :
    Close (factor .binary64) (k + 1) (rounded64 x) q := by
  have hdigits : Close (factor .binary64) 1 (rounded64 x) x := by
    refine close_rounded ((h.ordinary hk hq).1.imp_right fun hlow => le_trans ?_ hlow)
    exact (zpow_le_zpow_iff_right₀ one_lt_two).mpr (by decide)
  rw [Nat.add_comm]
  exact hdigits.trans one_le_factor64 h

variable {u v : Float}

theorem Computes.mul (hu : Computes k u q) (hv : Computes l v r) (hkl : k + l ≤ 16)
    (hrange : Ordinary (q * r)) : Computes (k + l + 1) (u * v) (q * r) := by
  obtain ⟨p, hnum, hclose⟩ := hu
  obtain ⟨p', hnum', hclose'⟩ := hv
  have hprod := hclose.mul one_le_factor64 hclose'
  exact ⟨_, isNum_mul hnum hnum' (hprod.ordinary hkl hrange).2, hprod.rounded hkl hrange⟩

theorem Computes.div (hu : Computes k u q) (hv : Computes l v r) (hr : 0 < r) (hkl : k + l ≤ 16)
    (hrange : Ordinary (q / r)) : Computes (k + l + 1) (u / v) (q / r) := by
  obtain ⟨p, hnum, hclose⟩ := hu
  obtain ⟨p', hnum', hclose'⟩ := hv
  have hpos := hclose'.left_pos one_le_factor64 hr
  have hquot := hclose.div one_le_factor64 hclose' hr
  obtain ⟨hlow, hhigh⟩ := hquot.ordinary hkl hrange
  refine ⟨_, isNum_div hnum hnum' hpos.ne' ?_ hhigh, hquot.rounded hkl hrange⟩
  refine hlow.imp (fun hzero => (div_eq_zero_iff.mp hzero).resolve_right hpos.ne') fun hle => ?_
  have hfar : (2 : ℚ) ^ (-1021 : ℤ) ≤ 2 ^ (-1001 : ℤ) :=
    (zpow_le_zpow_iff_right₀ one_lt_two).mpr (by decide)
  exact le_trans hfar (le_trans hle (le_abs_self _))

theorem Computes.add (hu : Computes k u q) (hv : Computes k v r) (hk : k ≤ 16)
    (hrange : Ordinary (q + r)) : Computes (k + 1) (u + v) (q + r) := by
  obtain ⟨p, hnum, hclose⟩ := hu
  obtain ⟨p', hnum', hclose'⟩ := hv
  have hsum := hclose.add hclose'
  exact ⟨_, isNum_add hnum hnum' (hsum.ordinary hk hrange).2, hsum.rounded hk hrange⟩

/-- The larger of two, as a comparison chooses it. -/
theorem Computes.max (hu : Computes k u q) (hv : Computes k v r) :
    Computes k (if u < v then v else u) (max q r) := by
  obtain ⟨p, hnum, hclose⟩ := hu
  obtain ⟨p', hnum', hclose'⟩ := hv
  refine ⟨Max.max p p', ?_, hclose.max one_le_factor64 hclose'⟩
  by_cases hlt : p < p'
  · rw [if_pos ((lt_iff hnum hnum').mpr hlt), max_eq_right hlt.le]
    exact hnum'
  · rw [if_neg (mt (lt_iff hnum hnum').mp hlt), max_eq_left (not_lt.mp hlt)]
    exact hnum

end RtpSdr.Lib.Closeness
