import RtpSdr.Lib.Rounding

/-!
# The numbers that unpacked floats stand for

The operations on floats compute with integer digits and keep two residual bits. Whatever the
format, the result of each is the rounded result of the same operation on numbers.
-/
namespace RtpSdr.Lib.FloatValue

open Float.Model (Format UnpackedFloat totalExponent)
open Float.Model.UnpackedFloat
open RtpSdr.Lib.Rounding

/-! ## What the residual bits say -/

/-- Where a number lies between an integer and the next, as far as rounding has to know. -/
def Located (q : ℚ) (m : ℕ) : Accuracy → Prop
  | .exact => q = m
  | .inexact .lt => m < q ∧ q < m + 1 / 2
  | .inexact .eq => q = m + 1 / 2
  | .inexact .gt => m + 1 / 2 < q ∧ q < m + 1

variable {q : ℚ} {m : ℕ} {a : Accuracy}

theorem Located.floor (h : Located q m a) : m ≤ q ∧ q < m + 1 := by
  match a, h with
  | .exact, h =>
    change q = m at h
    constructor <;> linarith
  | .inexact .lt, h =>
    obtain ⟨hlow, hhigh⟩ := h
    constructor <;> linarith
  | .inexact .eq, h =>
    change q = m + 1 / 2 at h
    constructor <;> linarith
  | .inexact .gt, h =>
    obtain ⟨hlow, hhigh⟩ := h
    constructor <;> linarith

theorem Located.nearestEven (h : Located q m a) :
    nearestEven q = (a.roundToNearestEven m : ℕ) := by
  match a, h with
  | .exact, h =>
    change q = m at h
    rw [h]
    exact nearestEven_intCast m
  | .inexact .lt, h => exact nearestEven_of_lt (n := m) h.1.le h.2
  | .inexact .eq, h =>
    rw [nearestEven_of_half (n := m) h, Accuracy.roundToNearestEven]
    norm_cast
  | .inexact .gt, h =>
    rw [nearestEven_of_gt (n := m) h.1 h.2, Accuracy.roundToNearestEven]
    norm_cast

theorem located_shiftRightOne {em : ExtendedMantissa} (h : Located q em.mantissa em.accuracy) :
    Located (q / 2) em.shiftRightOne.mantissa em.shiftRightOne.accuracy := by
  obtain ⟨m, roundBit, stickyBit⟩ := em
  rcases Nat.even_or_odd' m with ⟨n, rfl | rfl⟩
  · have hhalf : 2 * n / 2 = n := by omega
    have hbit : (2 * n % 2 != 0) = false := by
      rw [Nat.mul_mod_right]
      rfl
    cases roundBit <;> cases stickyBit <;>
      simp only [ExtendedMantissa.shiftRightOne, ExtendedMantissa.accuracy, Located, hhalf, hbit,
        Bool.or_false, Bool.or_true] at h ⊢ <;> push_cast at h
    · linarith
    · constructor <;> linarith
    · constructor <;> linarith
    · constructor <;> linarith
  · have hhalf : (2 * n + 1) / 2 = n := by omega
    have hbit : ((2 * n + 1) % 2 != 0) = true := by
      rw [Nat.mul_add_mod]
      rfl
    cases roundBit <;> cases stickyBit <;>
      simp only [ExtendedMantissa.shiftRightOne, ExtendedMantissa.accuracy, Located, hhalf, hbit,
        Bool.or_false, Bool.or_true] at h ⊢ <;> push_cast at h
    · linarith
    · constructor <;> linarith
    · constructor <;> linarith
    · constructor <;> linarith

theorem located_shiftRight {em : ExtendedMantissa} (h : Located q em.mantissa em.accuracy)
    (n : ℕ) : Located (q / 2 ^ n) (em >>> n).mantissa (em >>> n).accuracy := by
  induction n with
  | zero =>
    rw [pow_zero, div_one]
    exact h
  | succ n ih =>
    have hstep := located_shiftRightOne ih
    rw [div_div, ← pow_succ] at hstep
    exact hstep

theorem located_ofMantissa (h : Located q m a) :
    Located q (ExtendedMantissa.ofMantissaAndAccuracy m a).mantissa
      (ExtendedMantissa.ofMantissaAndAccuracy m a).accuracy := by
  match a, h with
  | .exact, h => exact h
  | .inexact .lt, h => exact h
  | .inexact .eq, h => exact h
  | .inexact .gt, h => exact h

/-- Shifting to an exponent that is not lower divides by the power of two between them. -/
theorem located_shiftToExponent (h : Located q m a) {e t : ℤ} (he : e ≤ t) :
    Located (q * 2 ^ e / 2 ^ t) (shiftToExponent m e a t).1.mantissa
        (shiftToExponent m e a t).1.accuracy ∧
      (shiftToExponent m e a t).2 = t := by
  have hq : q * 2 ^ e / 2 ^ t = q / 2 ^ (t - e).toNat := by
    rw [two_zpow_eq_mul he, mul_comm ((2 ^ (t - e).toNat : ℤ) : ℚ), mul_comm q,
      mul_div_mul_left _ _ (two_zpow_pos e).ne']
    push_cast
    rfl
  rw [hq]
  refine ⟨located_shiftRight (located_ofMantissa h) _, ?_⟩
  change e + ((t - e).toNat : ℤ) = t
  omega

/-! ## Unpacked floats -/

/-- The number with the sign. -/
def signed (s : Sign) (q : ℚ) : ℚ :=
  match s with
  | .negative => -q
  | .positive => q

/-- The float is a number, and which. -/
def Has (q : ℚ) : UnpackedFloat → Prop
  | .zero _ => q = 0
  | .finite s m e _ => q = signed s (m * 2 ^ e)
  | _ => False

/-- A float that is a number of the format, its digits where the format has them. -/
def Canonical (f : Format) : UnpackedFloat → Prop
  | .zero _ => True
  | .finite _ m e _ => m < 2 ^ f.mantissaBits ∧ f.minExponent ≤ e ∧
    (2 ^ f.mantissaBits ≤ 2 * m ∨ e = f.minExponent)
  | _ => False

variable {f : Format} {s : Sign} {e t : ℤ}

@[simp] theorem signed_zero (s : Sign) : signed s 0 = 0 := by
  cases s
  · exact neg_zero
  · rfl

theorem rounded_signed (f : Format) (s : Sign) (q : ℚ) :
    rounded f (signed s q) = signed s (rounded f q) := by
  cases s
  · exact rounded_neg f q
  · rfl

theorem abs_signed (s : Sign) (q : ℚ) : |signed s q| = |q| := by
  cases s
  · exact abs_neg q
  · rfl

theorem signed_apply (s : Sign) (n : ℤ) : ((s.apply n : ℤ) : ℚ) = signed s n := by
  cases s
  · exact Int.cast_neg n
  · rfl

/-- The digits and the exponent that rounding leaves, with a carry into one digit too many. -/
def finish (f : Format) (s : Sign) (r : ℕ) (t : ℤ) : UnpackedFloat :=
  if h : (shiftToTargetExponent f r t .exact).1.mantissa = 0 then .zero s
  else .finite s _ (shiftToTargetExponent f r t .exact).2 (Nat.pos_of_ne_zero h)

theorem shiftToTargetExponent_same {r : ℕ} (hr : r < 2 ^ f.mantissaBits)
    (ht : f.minExponent ≤ t) :
    (shiftToTargetExponent f r t .exact).1.mantissa = r ∧
      (shiftToTargetExponent f r t .exact).2 = t := by
  have hlog : r.log2 < f.mantissaBits := by
    by_cases h : r = 0
    · rw [h, Nat.log2_zero]
      exact mantissaBits_pos f
    · exact (Nat.log2_lt h).mpr hr
  have htarget : f.targetExponent (totalExponent r t) ≤ t := by
    rw [Format.targetExponent, totalExponent]
    omega
  have hshift : (f.targetExponent (totalExponent r t) - t).toNat = 0 := by omega
  rw [shiftToTargetExponent, shiftToExponent, hshift]
  exact ⟨rfl, by omega⟩

theorem shiftToTargetExponent_carry (f : Format) (ht : f.minExponent ≤ t) :
    (shiftToTargetExponent f (2 ^ f.mantissaBits) t .exact).1.mantissa
        = 2 ^ (f.mantissaBits - 1) ∧
      (shiftToTargetExponent f (2 ^ f.mantissaBits) t .exact).2 = t + 1 := by
  have htarget : f.targetExponent (totalExponent (2 ^ f.mantissaBits) t) = t + 1 := by
    rw [Format.targetExponent, totalExponent, Nat.log2_two_pow]
    omega
  have hshift : (t + 1 - t).toNat = 1 := by omega
  have hhalf : 2 ^ f.mantissaBits / 2 = 2 ^ (f.mantissaBits - 1) := by
    obtain ⟨p, hp⟩ := Nat.exists_eq_succ_of_ne_zero (mantissaBits_pos f).ne'
    rw [hp, pow_succ, Nat.mul_div_cancel _ two_pos, Nat.succ_sub_one]
  rw [shiftToTargetExponent, htarget, shiftToExponent, hshift]
  exact ⟨hhalf, by omega⟩

theorem finish_spec {r : ℕ} (s : Sign) (hr : r ≤ 2 ^ f.mantissaBits) (ht : f.minExponent ≤ t)
    (hfull : 2 ^ f.mantissaBits ≤ 2 * r ∨ t = f.minExponent) :
    Has (signed s (r * 2 ^ t)) (finish f s r t) ∧ Canonical f (finish f s r t) := by
  rcases hr.lt_or_eq with hlt | rfl
  · obtain ⟨hm, he⟩ := shiftToTargetExponent_same hlt ht
    rw [finish]
    split
    · rename_i hzero
      rw [hm] at hzero
      rw [hzero, Nat.cast_zero, zero_mul, signed_zero]
      exact ⟨rfl, trivial⟩
    · simp only [Has, Canonical, hm, he]
      exact ⟨trivial, hlt, ht, hfull⟩
  · obtain ⟨hm, he⟩ := shiftToTargetExponent_carry f ht
    have hpos := mantissaBits_pos f
    have hdouble : 2 ^ f.mantissaBits = 2 * 2 ^ (f.mantissaBits - 1) := by
      rw [← pow_succ', Nat.sub_add_cancel hpos]
    rw [finish, dif_neg (by rw [hm]; positivity)]
    simp only [Has, Canonical, hm, he]
    refine ⟨?_, ?_, by omega, .inl hdouble.le⟩
    · congr 1
      rw [hdouble, two_zpow_add, zpow_one]
      push_cast
      ring
    · have : 0 < 2 ^ (f.mantissaBits - 1) := by positivity
      omega

/-! ### Rounding -/

theorem log_of_located (h : Located q m a) (hm : 0 < m) (e : ℤ) :
    Int.log 2 |q * 2 ^ e| = m.log2 + e := by
  obtain ⟨hlow, hhigh⟩ := h.floor
  have hq : (0 : ℚ) < q := lt_of_lt_of_le (Nat.cast_pos.mpr hm) hlow
  have hpos : 0 < q * 2 ^ e := mul_pos hq (two_zpow_pos e)
  have hbelow : ((2 ^ m.log2 : ℕ) : ℚ) ≤ q :=
    le_trans (Nat.cast_le.mpr (Nat.log2_self_le hm.ne')) hlow
  have habove : q < ((2 ^ (m.log2 + 1) : ℕ) : ℚ) := by
    have : m + 1 ≤ 2 ^ (m.log2 + 1) := Nat.lt_log2_self
    have : ((m + 1 : ℕ) : ℚ) ≤ ((2 ^ (m.log2 + 1) : ℕ) : ℚ) := Nat.cast_le.mpr this
    push_cast at this ⊢
    linarith
  rw [abs_of_pos hpos]
  refine le_antisymm (Int.lt_add_one_iff.mp ?_) ?_
  · rw [← Int.lt_zpow_iff_log_lt one_lt_two hpos]
    have hexp : (m.log2 : ℤ) + e + 1 = ((m.log2 + 1 : ℕ) : ℤ) + e := by
      push_cast
      ring
    push_cast at habove
    rw [hexp, Nat.cast_ofNat, two_zpow_add, zpow_natCast]
    exact mul_lt_mul_of_pos_right habove (two_zpow_pos e)
  · rw [← Int.zpow_le_iff_le_log one_lt_two hpos]
    push_cast at hbelow
    rw [Nat.cast_ofNat, two_zpow_add, zpow_natCast]
    exact mul_le_mul_of_nonneg_right hbelow (two_zpow_pos e).le

theorem place_of_located (f : Format) (h : Located q m a) (hm : 0 < m) (e : ℤ) :
    place f (q * 2 ^ e) = f.targetExponent (totalExponent m e) := by
  rw [place, log_of_located h hm, totalExponent]
  congr 1
  omega

/-- Rounding what lies at a mantissa and an exponent that are not too coarse for the format. -/
theorem roundWithAccuracy_spec (s : Sign) (h : Located q m a) (hm : 0 < m)
    (he : e ≤ f.targetExponent (totalExponent m e)) :
    Has (signed s (rounded f (q * 2 ^ e))) (roundWithAccuracy f s m e a) ∧
      Canonical f (roundWithAccuracy f s m e a) := by
  have hplace := place_of_located f h hm e
  obtain ⟨hem, ht⟩ := located_shiftToExponent h he
  generalize hfirst : shiftToExponent m e a (f.targetExponent (totalExponent m e)) = first
    at hem ht
  have hround : roundWithAccuracy f s m e a = finish f s first.1.roundedMantissa first.2 := by
    rw [← hfirst]
    rfl
  have hnearest := hem.nearestEven
  rw [← hplace] at hnearest
  have hdigits := abs_digits_le f (q * 2 ^ e)
  rw [hnearest, Nat.abs_cast] at hdigits
  have hvalue : rounded f (q * 2 ^ e) = (first.1.roundedMantissa : ℕ) * 2 ^ first.2 := by
    rw [rounded, hnearest, ht, hplace]
    norm_cast
  rw [hround, hvalue]
  have hq : 0 < q * 2 ^ e :=
    mul_pos (lt_of_lt_of_le (Nat.cast_pos.mpr hm) h.floor.1) (two_zpow_pos e)
  have hfull := full_digits (f := f) hq
  rw [hnearest, hplace, ← ht] at hfull
  exact finish_spec s (by exact_mod_cast hdigits) (by rw [ht]; exact le_max_right _ _)
    (hfull.imp (fun hle => by exact_mod_cast hle) id)

/-- Lowering the exponent moves the digits and changes nothing else. -/
theorem decreaseExponent_value (m : ℕ) (e t : ℤ) :
    ((decreaseExponent m e t).1 : ℚ) * 2 ^ (decreaseExponent m e t).2 = m * 2 ^ e ∧
      (decreaseExponent m e t).2 ≤ t ∧ (decreaseExponent m e t).2 ≤ e := by
  have hexp : (decreaseExponent m e t).2 = e - ((e - t).toNat : ℤ) := rfl
  have hdigits : (decreaseExponent m e t).1 = m * 2 ^ (e - t).toNat := Nat.shiftLeft_eq _ _
  refine ⟨?_, by omega, by omega⟩
  rw [hexp, hdigits, two_zpow_eq_mul (a := e - ((e - t).toNat : ℤ)) (b := e) (by omega)]
  have hsub : e - (e - ((e - t).toNat : ℤ)) = ((e - t).toNat : ℤ) := by omega
  rw [hsub, Int.toNat_natCast]
  push_cast
  ring

theorem round_spec (f : Format) (s : Sign) (hm : 0 < m) (e : ℤ) :
    Has (signed s (rounded f (m * 2 ^ e))) (round f s m e) ∧ Canonical f (round f s m e) := by
  obtain ⟨hvalue, hle, -⟩ :=
    decreaseExponent_value m e (f.targetExponent (totalExponent m e))
  have hround : round f s m e = roundWithAccuracy f s
      (decreaseExponent m e (f.targetExponent (totalExponent m e))).1
      (decreaseExponent m e (f.targetExponent (totalExponent m e))).2 .exact := rfl
  have hplace := place_of_located f (q := m) (a := .exact) rfl hm e
  generalize decreaseExponent m e (f.targetExponent (totalExponent m e)) = d at hvalue hle hround
  have hd : 0 < d.1 := by
    refine Nat.pos_of_ne_zero fun h0 => ?_
    rw [h0, Nat.cast_zero, zero_mul] at hvalue
    exact absurd hvalue.symm (mul_ne_zero (Nat.cast_ne_zero.mpr hm.ne') (two_zpow_pos e).ne')
  rw [hround, ← hvalue]
  refine roundWithAccuracy_spec s (q := d.1) rfl hd ?_
  rw [← place_of_located f (q := d.1) (a := .exact) rfl hd, hvalue, hplace]
  exact hle

theorem normalize_spec (f : Format) (n : ℤ) (e : ℤ) (zeroSign : Sign) :
    Has (rounded f (n * 2 ^ e)) (UnpackedFloat.normalize f n e zeroSign) ∧
      Canonical f (UnpackedFloat.normalize f n e zeroSign) := by
  rcases lt_trichotomy n 0 with hneg | rfl | hpos
  · have hrun : UnpackedFloat.normalize f n e zeroSign = round f .negative (-n).toNat e := by
      rw [UnpackedFloat.normalize, Int.compare_eq_lt.mpr hneg]
    have hspec := round_spec f .negative (m := (-n).toNat) (by omega) e
    have hn : (((-n).toNat : ℕ) : ℚ) = -n := by
      rw [← Int.cast_natCast, Int.toNat_of_nonneg (by omega), Int.cast_neg]
    rw [hn, neg_mul, rounded_neg, signed, neg_neg] at hspec
    rw [hrun]
    exact hspec
  · rw [Int.cast_zero, zero_mul, rounded_zero]
    exact ⟨rfl, trivial⟩
  · have hrun : UnpackedFloat.normalize f n e zeroSign = round f .positive n.toNat e := by
      rw [UnpackedFloat.normalize, Int.compare_eq_gt.mpr hpos]
    have hspec := round_spec f .positive (m := n.toNat) (by omega) e
    have hn : ((n.toNat : ℕ) : ℚ) = n := by
      rw [← Int.cast_natCast, Int.toNat_of_nonneg hpos.le]
    rw [hn] at hspec
    rw [hrun]
    exact hspec

/-! ### Operations -/

section Operations

variable {u v : UnpackedFloat} {p : ℚ}

theorem Canonical.has (h : Canonical f u) : ∃ q, Has q u ∧ Representable f q := by
  cases u with
  | infinity s => exact h.elim
  | notANumber => exact h.elim
  | zero s => exact ⟨0, rfl, representable_zero f⟩
  | finite s m e hm =>
    obtain ⟨hlt, hmin, -⟩ := h
    have hle : |((s.apply m : ℤ))| ≤ 2 ^ f.mantissaBits := by
      have : |s.apply m| = (m : ℤ) := by
        cases s
        · exact (abs_neg _).trans (Nat.abs_cast m)
        · exact Nat.abs_cast m
      rw [this]
      exact_mod_cast hlt.le
    refine ⟨signed s (m * 2 ^ e), rfl, s.apply m, e, ?_, hle, hmin⟩
    rw [signed_apply]
    cases s
    · exact (neg_mul _ _).symm
    · rfl

theorem Has.unique {q' : ℚ} (h : Has q u) (h' : Has q' u) : q = q' := by
  cases u with
  | infinity s => exact h.elim
  | notANumber => exact h.elim
  | zero s => exact h.trans h'.symm
  | finite s m e hm => exact h.trans h'.symm

theorem Canonical.representable (h : Canonical f u) (hq : Has q u) : Representable f q := by
  obtain ⟨q', hq', hrep⟩ := h.has
  exact hq.unique hq' ▸ hrep

/-- The digits of a float at a lower exponent. -/
theorem aligned (s : Sign) (m : ℕ) {e t : ℤ} (ht : t ≤ e) :
    ((s.apply (decreaseExponent m e t).1 : ℤ) : ℚ) * 2 ^ t = signed s (m * 2 ^ e) := by
  obtain ⟨hvalue, -, -⟩ := decreaseExponent_value m e t
  have hexp : (decreaseExponent m e t).2 = t := by
    change e - ((e - t).toNat : ℤ) = t
    omega
  rw [hexp] at hvalue
  rw [signed_apply, ← hvalue]
  cases s
  · exact neg_mul _ _
  · rfl

theorem add_spec (hu : Canonical f u) (hv : Canonical f v) (hp : Has p u) (hq : Has q v) :
    Has (rounded f (p + q)) (add f u v) ∧ Canonical f (add f u v) := by
  have hrp := rounded_of_representable (hu.representable hp)
  have hrq := rounded_of_representable (hv.representable hq)
  cases u with
  | infinity s => exact hu.elim
  | notANumber => exact hu.elim
  | zero s =>
    cases v with
    | infinity s' => exact hv.elim
    | notANumber => exact hv.elim
    | zero s' =>
      change p = 0 at hp
      change q = 0 at hq
      rw [hp, hq, add_zero, rounded_zero, add]
      split <;> exact ⟨rfl, trivial⟩
    | finite s' m e hm =>
      change p = 0 at hp
      rw [hp, zero_add, hrq]
      exact ⟨hq, hv⟩
  | finite s m e hm =>
    cases v with
    | infinity s' => exact hv.elim
    | notANumber => exact hv.elim
    | zero s' =>
      change q = 0 at hq
      rw [hq, add_zero, hrp]
      exact ⟨hp, hu⟩
    | finite s' m' e' hm' =>
      have hsum : p + q = ((s.apply (decreaseExponent m e (min e e')).1
          + s'.apply (decreaseExponent m' e' (min e e')).1 : ℤ) : ℚ) * 2 ^ min e e' := by
        rw [Int.cast_add, add_mul, aligned s m (min_le_left e e'),
          aligned s' m' (min_le_right e e')]
        exact congrArg₂ _ hp hq
      rw [hsum]
      exact normalize_spec f _ _ _

theorem sub_spec (hu : Canonical f u) (hv : Canonical f v) (hp : Has p u) (hq : Has q v) :
    Has (rounded f (p - q)) (sub f u v) ∧ Canonical f (sub f u v) := by
  have hrp := rounded_of_representable (hu.representable hp)
  have hrq := rounded_of_representable (hv.representable hq).neg
  cases u with
  | infinity s => exact hu.elim
  | notANumber => exact hu.elim
  | zero s =>
    cases v with
    | infinity s' => exact hv.elim
    | notANumber => exact hv.elim
    | zero s' =>
      change p = 0 at hp
      change q = 0 at hq
      rw [hp, hq, sub_zero, rounded_zero, sub]
      split <;> exact ⟨rfl, trivial⟩
    | finite s' m e hm =>
      change p = 0 at hp
      change q = signed s' (m * 2 ^ e) at hq
      rw [hp, zero_sub, hrq, hq]
      refine ⟨?_, hv⟩
      cases s'
      · exact neg_neg _
      · rfl
  | finite s m e hm =>
    cases v with
    | infinity s' => exact hv.elim
    | notANumber => exact hv.elim
    | zero s' =>
      change q = 0 at hq
      rw [hq, sub_zero, hrp]
      exact ⟨hp, hu⟩
    | finite s' m' e' hm' =>
      have hdiff : p - q = ((s.apply (decreaseExponent m e (min e e')).1
          - s'.apply (decreaseExponent m' e' (min e e')).1 : ℤ) : ℚ) * 2 ^ min e e' := by
        rw [Int.cast_sub, sub_mul, aligned s m (min_le_left e e'),
          aligned s' m' (min_le_right e e')]
        exact congrArg₂ _ hp hq
      rw [hdiff]
      exact normalize_spec f _ _ _

theorem signed_mul (s s' : Sign) (p q : ℚ) :
    signed s p * signed s' q = signed (s * s') (p * q) := by
  cases s <;> cases s'
  · exact neg_mul_neg p q
  · exact neg_mul p q
  · exact mul_neg p q
  · rfl

theorem minExponent_nonpos (f : Format) : f.minExponent ≤ 0 := by
  have hm := f.hm
  have hpow : (1 : ℤ) ≤ 2 ^ (f.exponentBits - 1) := one_le_pow₀ (by decide)
  rw [Format.minExponent, Format.mantissaBits]
  omega

/-- A full mantissa makes any product long enough. -/
theorem le_log2_mul {k m n : ℕ} (hm : 2 ^ k ≤ m) (hn : 0 < n) : k ≤ (m * n).log2 := by
  have hpos : m * n ≠ 0 := (Nat.mul_pos (lt_of_lt_of_le (by positivity) hm) hn).ne'
  rw [Nat.le_log2 hpos]
  exact le_trans hm (Nat.le_mul_of_pos_right m hn)

theorem mul_spec (hu : Canonical f u) (hv : Canonical f v) (hp : Has p u) (hq : Has q v) :
    Has (rounded f (p * q)) (mul f u v) ∧ Canonical f (mul f u v) := by
  cases u with
  | infinity s => exact hu.elim
  | notANumber => exact hu.elim
  | zero s =>
    change p = 0 at hp
    rw [hp, zero_mul, rounded_zero]
    cases v with
    | infinity s' => exact hv.elim
    | notANumber => exact hv.elim
    | zero s' => exact ⟨rfl, trivial⟩
    | finite s' m e hm => exact ⟨rfl, trivial⟩
  | finite s m e hm =>
    cases v with
    | infinity s' => exact hv.elim
    | notANumber => exact hv.elim
    | zero s' =>
      change q = 0 at hq
      rw [hq, mul_zero, rounded_zero]
      exact ⟨rfl, trivial⟩
    | finite s' m' e' hm' =>
      have hprod : p * q = signed (s * s') (((m * m' : ℕ) : ℚ) * 2 ^ (e + e')) := by
        change p = signed s (m * 2 ^ e) at hp
        change q = signed s' (m' * 2 ^ e') at hq
        rw [hp, hq, signed_mul, two_zpow_add]
        congr 1
        push_cast
        ring
      have hlong : e + e' ≤ f.targetExponent (totalExponent (m * m') (e + e')) := by
        have hmin := minExponent_nonpos f
        have hbits := mantissaBits_pos f
        have hhalf : 2 * 2 ^ (f.mantissaBits - 1) = 2 ^ f.mantissaBits := by
          rw [← pow_succ', Nat.sub_add_cancel hbits]
        rw [Format.targetExponent, totalExponent]
        rcases hu.2.2 with hfull | he
        · have := le_log2_mul (k := f.mantissaBits - 1) (m := m) (by omega) hm'
          omega
        · rcases hv.2.2 with hfull' | he'
          · have := le_log2_mul (k := f.mantissaBits - 1) (m := m') (by omega) hm
            rw [Nat.mul_comm] at this
            omega
          · omega
      rw [hprod, rounded_signed]
      exact roundWithAccuracy_spec (s * s') rfl (Nat.mul_pos hm hm') hlong

theorem located_accuracyOfFraction {num den : ℕ} (m : ℕ) (h : num < den) :
    Located (m + num / den) m (accuracyOfFraction num den) := by
  have hden : (0 : ℚ) < den := Nat.cast_pos.mpr (Nat.zero_lt_of_lt h)
  rw [accuracyOfFraction]
  split
  · rename_i hzero
    rw [hzero, Nat.cast_zero, zero_div, add_zero]
    exact rfl
  · rename_i hne
    have hnum : (0 : ℚ) < num := Nat.cast_pos.mpr (Nat.pos_of_ne_zero hne)
    have hfrac : (0 : ℚ) < num / den := div_pos hnum hden
    have hone : (num : ℚ) / den < 1 := (div_lt_one hden).mpr (Nat.cast_lt.mpr h)
    have hhalf : (num : ℚ) / den < 1 / 2 ↔ 2 * num < den := by
      rw [div_lt_div_iff₀ hden two_pos, one_mul]
      constructor
      · intro hlt
        have : ((2 * num : ℕ) : ℚ) < den := by
          push_cast
          linarith
        exact Nat.cast_lt.mp this
      · intro hlt
        have : ((2 * num : ℕ) : ℚ) < den := Nat.cast_lt.mpr hlt
        push_cast at this
        linarith
    rcases Nat.lt_trichotomy (2 * num) den with hlt | heq | hgt
    · rw [Nat.compare_eq_lt.mpr hlt]
      have := hhalf.mpr hlt
      exact ⟨by linarith, by linarith⟩
    · rw [Nat.compare_eq_eq.mpr heq]
      have : (num : ℚ) / den = 1 / 2 := by
        rw [div_eq_div_iff hden.ne' two_ne_zero, one_mul, ← heq]
        push_cast
        ring
      change (m : ℚ) + num / den = m + 1 / 2
      rw [this]
    · rw [Nat.compare_eq_gt.mpr hgt]
      have : 1 / 2 < (num : ℚ) / den := by
        rw [div_lt_div_iff₀ two_pos hden, one_mul]
        have : ((den : ℕ) : ℚ) < ((2 * num : ℕ) : ℚ) := Nat.cast_lt.mpr hgt
        push_cast at this
        linarith
      exact ⟨by linarith, by linarith⟩

theorem signed_div (s s' : Sign) (p q : ℚ) :
    signed s p / signed s' q = signed (s / s') (p / q) := by
  cases s <;> cases s'
  · exact neg_div_neg_eq p q
  · exact neg_div q p
  · exact div_neg p
  · rfl

/-- The position of the first digit of a quotient, within one. -/
theorem log_quotient {m m' : ℕ} (hm : 0 < m) (hm' : 0 < m') (e e' : ℤ) :
    totalExponent m e - totalExponent m' e' - 1 ≤ Int.log 2 |(m * 2 ^ e / (m' * 2 ^ e') : ℚ)| := by
  have hpos : (0 : ℚ) < m * 2 ^ e := mul_pos (Nat.cast_pos.mpr hm) (two_zpow_pos e)
  have hpos' : (0 : ℚ) < m' * 2 ^ e' := mul_pos (Nat.cast_pos.mpr hm') (two_zpow_pos e')
  have hlog := log_of_located (q := m) (a := .exact) rfl hm e
  have hlog' := log_of_located (q := m') (a := .exact) rfl hm' e'
  have hlow := zpow_log_le hpos.ne'
  have hhigh := lt_zpow_log (m' * 2 ^ e' : ℚ)
  rw [hlog, abs_of_pos hpos] at hlow
  rw [hlog', abs_of_pos hpos'] at hhigh
  rw [abs_of_pos (div_pos hpos hpos'), ← Int.zpow_le_iff_le_log one_lt_two (div_pos hpos hpos'),
    le_div_iff₀ hpos']
  calc ((2 : ℕ) : ℚ) ^ (totalExponent m e - totalExponent m' e' - 1) * (m' * 2 ^ e')
      ≤ 2 ^ (totalExponent m e - totalExponent m' e' - 1) * 2 ^ (m'.log2 + e' + 1) :=
        mul_le_mul_of_nonneg_left hhigh.le (two_zpow_pos _).le
    _ = 2 ^ (m.log2 + e) := by
        rw [← two_zpow_add, totalExponent, totalExponent]
        congr 1
        ring
    _ ≤ m * 2 ^ e := hlow

/-- A quotient that is not too small for the format is computed to enough digits. -/
theorem div_finite_spec {s s' : Sign} {m m' : ℕ} {e e' : ℤ} (hm : 0 < m) (hm' : 0 < m')
    (hbig : 2 ^ (f.minExponent + f.mantissaBits) ≤ (m * 2 ^ e / (m' * 2 ^ e') : ℚ)) :
    Has (signed (s / s') (rounded f (m * 2 ^ e / (m' * 2 ^ e'))))
        (div f (.finite s m e hm) (.finite s' m' e' hm')) ∧
      Canonical f (div f (.finite s m e hm) (.finite s' m' e' hm')) := by
  have hpos' : (0 : ℚ) < m' * 2 ^ e' := mul_pos (Nat.cast_pos.mpr hm') (two_zpow_pos e')
  have hx : (0 : ℚ) < m * 2 ^ e / (m' * 2 ^ e') :=
    div_pos (mul_pos (Nat.cast_pos.mpr hm) (two_zpow_pos e)) hpos'
  have hlog := log_quotient hm hm' e e'
  have hfirst : f.minExponent + f.mantissaBits ≤ Int.log 2 |(m * 2 ^ e / (m' * 2 ^ e') : ℚ)| := by
    rw [abs_of_pos hx, ← Int.zpow_le_iff_le_log one_lt_two hx]
    exact hbig
  have hlow := zpow_log_le hx.ne'
  have hunit : place f (m * 2 ^ e / (m' * 2 ^ e'))
      ≤ Int.log 2 |(m * 2 ^ e / (m' * 2 ^ e') : ℚ)| := by
    have := place_cases f (m * 2 ^ e / (m' * 2 ^ e') : ℚ)
    have := mantissaBits_pos f
    omega
  generalize ht : min (e - e') (f.targetExponent (totalExponent m e - totalExponent m' e')) = t
  have hte : t ≤ e - e' := by omega
  have htplace : t ≤ place f (m * 2 ^ e / (m' * 2 ^ e')) := by
    rw [place, Format.targetExponent]
    rw [Format.targetExponent] at ht
    omega
  have hrun : div f (.finite s m e hm) (.finite s' m' e' hm') = roundWithAccuracy f (s / s')
      (m <<< (e - e' - t).toNat / m') t
        (accuracyOfFraction (m <<< (e - e' - t).toNat % m') m') := by
    rw [← ht]
    rfl
  generalize hn : m <<< (e - e' - t).toNat = n at hrun
  have hlocated := located_accuracyOfFraction (n / m') (Nat.mod_lt n hm')
  have hquotient : ((n / m' : ℕ) : ℚ) + (n % m' : ℕ) / m' = n / m' := by
    have hne : (m' : ℚ) ≠ 0 := Nat.cast_ne_zero.mpr hm'.ne'
    rw [eq_div_iff hne, add_mul, div_mul_cancel₀ _ hne]
    exact_mod_cast Nat.div_add_mod' n m'
  rw [hquotient] at hlocated
  have hvalue : (n : ℚ) / m' * 2 ^ t = m * 2 ^ e / (m' * 2 ^ e') := by
    have hshift : (2 : ℚ) ^ e = 2 ^ (e - e' - t).toNat * (2 ^ t * 2 ^ e') := by
      rw [← zpow_natCast, ← two_zpow_add, ← two_zpow_add]
      congr 1
      omega
    rw [← hn, Nat.shiftLeft_eq, hshift]
    push_cast
    field_simp
  have hdigits : 0 < n / m' := by
    refine Nat.pos_of_ne_zero fun hzero => ?_
    have hone := hlocated.floor.2
    rw [hzero, Nat.cast_zero, zero_add] at hone
    have hbelow : (n : ℚ) / m' * 2 ^ t < 2 ^ t := by
      calc (n : ℚ) / m' * 2 ^ t < 1 * 2 ^ t := mul_lt_mul_of_pos_right hone (two_zpow_pos t)
        _ = 2 ^ t := one_mul _
    rw [hvalue] at hbelow
    rw [abs_of_pos hx] at hlow hunit
    have := (zpow_lt_zpow_iff_right₀ (one_lt_two (α := ℚ))).mp (lt_of_le_of_lt hlow hbelow)
    omega
  rw [hrun, ← hvalue]
  refine roundWithAccuracy_spec (s / s') hlocated hdigits ?_
  rw [← place_of_located f hlocated hdigits, hvalue]
  exact htplace

theorem div_spec (hu : Canonical f u) (hv : Canonical f v) (hp : Has p u) (hq : Has q v)
    (hq0 : q ≠ 0) (hbig : p = 0 ∨ 2 ^ (f.minExponent + f.mantissaBits) ≤ |p / q|) :
    Has (rounded f (p / q)) (div f u v) ∧ Canonical f (div f u v) := by
  cases v with
  | infinity s' => exact hv.elim
  | notANumber => exact hv.elim
  | zero s' => exact absurd hq hq0
  | finite s' m' e' hm' =>
    cases u with
    | infinity s => exact hu.elim
    | notANumber => exact hu.elim
    | zero s =>
      change p = 0 at hp
      rw [hp, zero_div, rounded_zero]
      exact ⟨rfl, trivial⟩
    | finite s m e hm =>
      change p = signed s (m * 2 ^ e) at hp
      change q = signed s' (m' * 2 ^ e') at hq
      have hpos : (0 : ℚ) < m * 2 ^ e := mul_pos (Nat.cast_pos.mpr hm) (two_zpow_pos e)
      have hpos' : (0 : ℚ) < m' * 2 ^ e' := mul_pos (Nat.cast_pos.mpr hm') (two_zpow_pos e')
      have hp0 : p ≠ 0 := by
        rw [← abs_pos, hp, abs_signed]
        exact abs_pos.mpr hpos.ne'
      have hbig' := hbig.resolve_left hp0
      rw [hp, hq, signed_div, abs_signed, abs_of_pos (div_pos hpos hpos')] at hbig'
      rw [hp, hq, signed_div, rounded_signed]
      exact div_finite_spec hm hm' hbig'

theorem ofNat_spec (f : Format) (n : ℕ) :
    Has (rounded f n) (ofNat f n) ∧ Canonical f (ofNat f n) := by
  have hspec := normalize_spec f n 0 .positive
  rw [zpow_zero, mul_one, Int.cast_natCast] at hspec
  exact hspec

/-- Truncation. -/
theorem toInt_spec (hq : Has q u) (h0 : 0 ≤ q) (low high : ℤ) : u.toInt low high = ⌊q⌋ := by
  cases u with
  | infinity s => exact hq.elim
  | notANumber => exact hq.elim
  | zero s =>
    change q = 0 at hq
    rw [hq, Int.floor_zero]
    rfl
  | finite s m e hm =>
    have hpos : (0 : ℚ) < m * 2 ^ e := mul_pos (Nat.cast_pos.mpr hm) (two_zpow_pos e)
    cases s with
    | negative =>
      change q = -(m * 2 ^ e) at hq
      linarith
    | positive =>
      change q = m * 2 ^ e at hq
      obtain ⟨hvalue, hle, -⟩ := decreaseExponent_value m e 0
      have hrun : toInt low high (.finite .positive m e hm)
          = (shiftToExponent (decreaseExponent m e 0).1 (decreaseExponent m e 0).2
            .exact 0).1.mantissa :=
        rfl
      obtain ⟨hlocated, -⟩ :=
        located_shiftToExponent (q := (decreaseExponent m e 0).1) (a := .exact) rfl hle
      rw [hvalue, ← hq, zpow_zero, div_one] at hlocated
      obtain ⟨hlow, hhigh⟩ := hlocated.floor
      rw [hrun, eq_comm, Int.floor_eq_iff]
      exact ⟨by exact_mod_cast hlow, by exact_mod_cast hhigh⟩

/-- Digits with a higher exponent stand for more, as they are used up. -/
theorem digits_lt {s s' : Sign} {m m' : ℕ} {e e' : ℤ} {hm : 0 < m} {hm' : 0 < m'}
    (hu : Canonical f (.finite s m e hm)) (hv : Canonical f (.finite s' m' e' hm'))
    (h : e < e' ∨ e = e' ∧ m < m') : (m * 2 ^ e : ℚ) < m' * 2 ^ e' := by
  rcases h with hlt | ⟨rfl, hlt⟩
  · have hfull := hv.2.2.resolve_right (by have := hu.2.1; omega)
    have hdigits : ((m : ℕ) : ℚ) < ((2 * m' : ℕ) : ℚ) :=
      Nat.cast_lt.mpr (lt_of_lt_of_le hu.1 hfull)
    push_cast at hdigits
    have hexp : (2 : ℚ) ^ (e + 1) ≤ 2 ^ e' := (zpow_le_zpow_iff_right₀ one_lt_two).mpr hlt
    rw [two_zpow_add, zpow_one] at hexp
    calc (m * 2 ^ e : ℚ) < 2 * m' * 2 ^ e := mul_lt_mul_of_pos_right hdigits (two_zpow_pos e)
      _ = m' * (2 ^ e * 2) := by ring
      _ ≤ m' * 2 ^ e' := mul_le_mul_of_nonneg_left hexp (Nat.cast_nonneg m')
  · exact mul_lt_mul_of_pos_right (Nat.cast_lt.mpr hlt) (two_zpow_pos e)

theorem digits_lt_iff {s s' : Sign} {m m' : ℕ} {e e' : ℤ} {hm : 0 < m} {hm' : 0 < m'}
    (hu : Canonical f (.finite s m e hm)) (hv : Canonical f (.finite s' m' e' hm')) :
    (compare e e').then (compare m m') = .lt ↔ (m * 2 ^ e : ℚ) < m' * 2 ^ e' := by
  rw [Ordering.then_eq_lt, Int.compare_eq_lt, Int.compare_eq_eq, Nat.compare_eq_lt]
  refine ⟨digits_lt hu hv, fun hlt => ?_⟩
  by_contra hnot
  by_cases heq : e' = e ∧ m' = m
  · obtain ⟨rfl, rfl⟩ := heq
    exact lt_irrefl _ hlt
  · exact lt_asymm hlt (digits_lt hv hu (by omega))

/-- Numbers with the same sign are compared by their digits. -/
theorem compare_digits {s s' : Sign} {m m' : ℕ} {e e' : ℤ} {hm : 0 < m} {hm' : 0 < m'}
    (hu : Canonical f (.finite s m e hm)) (hv : Canonical f (.finite s' m' e' hm')) :
    (compare e e').then (compare m m') = cmp (m * 2 ^ e : ℚ) (m' * 2 ^ e') := by
  have hlt := digits_lt_iff hu hv
  have hgt := digits_lt_iff hv hu
  have hswap : (compare e' e).then (compare m' m) = ((compare e e').then (compare m m')).swap := by
    rw [Ordering.swap_then, Int.compare_swap, Nat.compare_swap]
  rw [hswap, Ordering.swap_eq_lt] at hgt
  rcases lt_trichotomy (m * 2 ^ e : ℚ) (m' * 2 ^ e') with h | h | h
  · rw [(cmp_eq_lt_iff _ _).mpr h]
    exact hlt.mpr h
  · rw [(cmp_eq_eq_iff _ _).mpr h]
    have hnot := mt hlt.mp (not_lt.mpr h.ge)
    have hnot' := mt hgt.mp (not_lt.mpr h.le)
    cases hcmp : (compare e e').then (compare m m') with
    | lt => exact absurd hcmp hnot
    | eq => rfl
    | gt => exact absurd hcmp hnot'
  · rw [(cmp_eq_gt_iff _ _).mpr h]
    exact hgt.mpr h

theorem compare_spec (hu : Canonical f u) (hv : Canonical f v) (hp : Has p u) (hq : Has q v) :
    u.compare v = some (cmp p q) := by
  cases u with
  | infinity s => exact hu.elim
  | notANumber => exact hu.elim
  | zero s =>
    change p = 0 at hp
    cases v with
    | infinity s' => exact hv.elim
    | notANumber => exact hv.elim
    | zero s' =>
      change q = 0 at hq
      rw [hp, hq, cmp_self_eq_eq]
      rfl
    | finite s' m' e' hm' =>
      have hpos' : (0 : ℚ) < m' * 2 ^ e' := mul_pos (Nat.cast_pos.mpr hm') (two_zpow_pos e')
      change q = signed s' (m' * 2 ^ e') at hq
      rw [hp, hq]
      cases s'
      · exact (congrArg some ((cmp_eq_gt_iff _ _).mpr (neg_neg_of_pos hpos'))).symm
      · exact (congrArg some ((cmp_eq_lt_iff _ _).mpr hpos')).symm
  | finite s m e hm =>
    have hpos : (0 : ℚ) < m * 2 ^ e := mul_pos (Nat.cast_pos.mpr hm) (two_zpow_pos e)
    change p = signed s (m * 2 ^ e) at hp
    cases v with
    | infinity s' => exact hv.elim
    | notANumber => exact hv.elim
    | zero s' =>
      change q = 0 at hq
      rw [hp, hq]
      cases s
      · exact (congrArg some ((cmp_eq_lt_iff _ _).mpr (neg_neg_of_pos hpos))).symm
      · exact (congrArg some ((cmp_eq_gt_iff _ _).mpr hpos)).symm
    | finite s' m' e' hm' =>
      have hpos' : (0 : ℚ) < m' * 2 ^ e' := mul_pos (Nat.cast_pos.mpr hm') (two_zpow_pos e')
      change q = signed s' (m' * 2 ^ e') at hq
      rw [hp, hq]
      cases s <;> cases s'
      · change some ((compare e e').then (compare m m')).swap
          = some (cmp (-(m * 2 ^ e : ℚ)) (-(m' * 2 ^ e')))
        have hneg := StrictAnti.cmp_map_eq (f := fun a : ℚ => -a) (fun _ _ h => neg_lt_neg h)
          (m * 2 ^ e) (m' * 2 ^ e')
        rw [compare_digits hu hv, cmp_swap, hneg]
      · exact (congrArg some ((cmp_eq_lt_iff _ _).mpr (lt_trans (neg_neg_of_pos hpos) hpos'))).symm
      · exact (congrArg some ((cmp_eq_gt_iff _ _).mpr (lt_trans (neg_neg_of_pos hpos') hpos))).symm
      · exact congrArg some (compare_digits hu hv)

theorem lt_spec (hu : Canonical f u) (hv : Canonical f v) (hp : Has p u) (hq : Has q v) :
    u.lt v = true ↔ p < q := by
  have hlt : u.lt v = true ↔ u.compare v = some .lt := beq_iff_eq
  rw [hlt, compare_spec hu hv hp hq, Option.some.injEq, cmp_eq_lt_iff]

theorem le_spec (hu : Canonical f u) (hv : Canonical f v) (hp : Has p u) (hq : Has q v) :
    u.le v = true ↔ p ≤ q := by
  rw [UnpackedFloat.le, compare_spec hu hv hp hq, Option.any_some, ← not_lt, ← cmp_eq_gt_iff]
  cases cmp p q <;> decide

end Operations

end RtpSdr.Lib.FloatValue
