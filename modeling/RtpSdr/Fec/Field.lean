import Mathlib.Algebra.Field.Basic
import Mathlib.Algebra.CharP.Two
import Mathlib.Data.Fintype.Basic
import Mathlib.NumberTheory.Divisors
import RtpSdr.Lib.LogTable
import RtpSdr.Fec.Galois

/-!
# The table arithmetic is the field GF(256)

`xtime` is additive and has period 255 from one, so the tables of `gf_init` are
the logarithm tables of a generator and `GF_ADD`, `GF_MUL`, `GF_INV` are the
operations of a field of characteristic two.
-/
namespace RtpSdr.Fec.Field

open Function
open RtpSdr.Lib.LogTable
open RtpSdr.Fec.Galois

/-- A statement about every byte is a check of the 256 of them. -/
theorem forall_byte {P : UInt8 → Prop} (h : ∀ b < 256, P (UInt8.ofNat b)) (a : UInt8) : P a := by
  have := h a.toNat (toNat_lt_256 a)
  rwa [UInt8.ofNat_toNat] at this

namespace Gf

instance : DecidableEq Gf := inferInstanceAs (DecidableEq UInt8)

instance : Fintype Gf :=
  Fintype.ofEquiv (Fin 256) ⟨UInt8.ofFin, UInt8.toFin, fun _ => rfl, fun _ => rfl⟩

theorem card : Fintype.card Gf = 256 := by
  rw [Fintype.ofEquiv_card, Fintype.card_fin]

instance : Zero Gf := ⟨(0 : UInt8)⟩
instance : One Gf := ⟨(1 : UInt8)⟩
instance : Add Gf := ⟨GF_ADD⟩
instance : Neg Gf := ⟨fun a => a⟩
instance : Mul Gf := ⟨GF_MUL⟩
instance : Inv Gf := ⟨GF_INV⟩

instance : AddCommGroup Gf where
  nsmul := nsmulRec
  zsmul := zsmulRec
  add_assoc := UInt8.xor_assoc
  zero_add _ := UInt8.zero_xor
  add_zero _ := UInt8.xor_zero
  neg_add_cancel _ := UInt8.xor_self
  add_comm := UInt8.xor_comm

end Gf

/-! ## The generator -/

theorem xtime_eq : ∀ b, xtime b = (b <<< 1) ^^^ ((b >>> 7) * (29 : UInt8)) :=
  forall_byte (by decide +kernel)

theorem topBit : ∀ b : UInt8, b >>> 7 = 0 ∨ b >>> 7 = 1 := forall_byte (by decide +kernel)

theorem xtime_xor (a b : UInt8) : xtime (a ^^^ b) = xtime a ^^^ xtime b := by
  have hmul : (a >>> 7 ^^^ b >>> 7) * (29 : UInt8)
      = (a >>> 7) * (29 : UInt8) ^^^ (b >>> 7) * (29 : UInt8) := by
    rcases topBit a with ha | ha <;> rcases topBit b with hb | hb <;> rw [ha, hb] <;> decide
  rw [xtime_eq, xtime_eq, xtime_eq, UInt8.shiftLeft_xor, UInt8.shiftRight_xor, hmul]
  ac_rfl

def shift : Gf →+ Gf where
  toFun := xtime
  map_zero' := show xtime (0 : UInt8) = 0 by decide
  map_add' := xtime_xor

/-- 255 is the period: it is one, and none of its maximal divisors is. -/
theorem period_alpha : minimalPeriod shift (1 : Gf) = 255 := by
  have h255 : IsPeriodicPt shift 255 (1 : Gf) := by
    change xtime^[255] 1 = 1
    decide +kernel
  have hnot : ∀ d ∈ [85, 51, 15], ¬ IsPeriodicPt shift d (1 : Gf) := by
    intro d hd hp
    change xtime^[d] 1 = 1 at hp
    revert d
    decide +kernel
  have hdvd := h255.minimalPeriod_dvd
  have hmem : minimalPeriod shift (1 : Gf) ∈ Nat.divisors 255 :=
    Nat.mem_divisors.mpr ⟨hdvd, by decide⟩
  have hdiv : Nat.divisors 255 = {1, 3, 5, 15, 17, 51, 85, 255} := by decide +kernel
  have hno : ∀ d ∈ [85, 51, 15], ¬ minimalPeriod shift (1 : Gf) ∣ d := fun d hd h =>
    hnot d hd (isPeriodicPt_iff_minimalPeriod_dvd.mpr h)
  rw [hdiv] at hmem
  simp only [Finset.mem_insert, Finset.mem_singleton] at hmem
  simp only [List.mem_cons, List.not_mem_nil, or_false, forall_eq_or_imp, forall_eq] at hno
  rcases hmem with h | h | h | h | h | h | h | h <;> rw [h] at hno ⊢ <;> omega

def gen : Generator Gf where
  shift := shift
  one := 1
  one_ne := by decide
  order := 255
  period := period_alpha
  card := Gf.card

theorem alpha_inj {i j : Nat} (hi : i < 255) (hj : j < 255) (h : alpha i = alpha j) : i = j :=
  gen.exp_inj hi hj h

theorem alpha_ne_zero (n : Nat) : alpha n ≠ 0 := gen.exp_ne_zero n

/-! ## The tables -/

theorem filled_initEnd : Filled initEnd 255 :=
  filled_foldl (fun _ _ hij hj h => Nat.ne_of_lt hij (alpha_inj (hij.trans hj) hj h)) 246 le_rfl

theorem gfPolys_getD {i : Nat} (hi : i < 255) : gfPolys.getD i 0 = alpha i :=
  filled_initEnd.polys i hi

theorem gfLogs_alpha {i : Nat} (hi : i < 255) :
    (gfLogs.getD (alpha i).toNat 0).toNat = i := by
  have hne : 0 ≠ (alpha i).toNat := fun h =>
    alpha_ne_zero i (UInt8.toNat_inj.mp h.symm)
  have hl : gfLogs.getD (alpha i).toNat 0 = UInt8.ofNat i :=
    (getD_set_ne _ hne).trans (filled_initEnd.logs i hi)
  rw [hl, UInt8.toNat_ofNat']
  exact Nat.mod_eq_of_lt (by omega)

def log (a : Gf) : Nat := (gfLogs.getD (UInt8.toNat a) 0).toNat

theorem log_exp : ∀ i < gen.order, log (gen.exp i) = i := fun _ hi => gfLogs_alpha hi

theorem getD_map_range {α : Type} (f : Nat → α) (d : α) {n i : Nat} (hi : i < n) :
    ((List.range n).map f).getD i d = f i := by
  simp [List.getD_eq_getElem?_getD, hi]

/-- `GF_MUL` adds logarithms. -/
theorem GF_MUL_eq (a b : Gf) : GF_MUL a b = gen.mul log a b := by
  unfold GF_MUL gfMul
  rw [getD_map_range _ _ (toNat_lt_256 a), getD_map_range _ _ (toNat_lt_256 b)]
  have hz (x : Gf) : UInt8.toNat x = 0 ↔ x = 0 := UInt8.toNat_inj (b := 0)
  by_cases h : a = 0 ∨ b = 0
  · rw [if_pos (by simpa only [hz] using h), Generator.mul, if_pos h]
    rfl
  · rw [if_neg (by simpa only [hz] using h), Generator.mul, if_neg h]
    exact gfPolys_getD (Nat.mod_lt _ (by decide))

theorem gfInv_getD {i : Nat} (h2 : 2 ≤ i) (hi : i < 256) :
    gfInv.getD i 0 = gfPolys.getD (255 - (gfLogs.getD i 0).toNat) 0 := by
  obtain ⟨m, rfl⟩ : ∃ m, i = m + 2 := ⟨i - 2, by omega⟩
  have hm : m < 254 := by omega
  rw [gfInv, List.cons_append, List.getD_cons_succ, List.cons_append, List.getD_cons_succ,
    List.nil_append, List.getD_eq_getElem?_getD, List.getElem?_map, List.getElem?_range' hm]
  simp [Nat.add_comm 2 m]

/-- `GF_INV` completes the logarithm to the period. -/
theorem GF_INV_eq {a : Gf} (h0 : a ≠ 0) : GF_INV a = gen.exp (255 - log a) := by
  have hz : UInt8.toNat a ≠ 0 := fun h => h0 (UInt8.toNat_inj.mp h)
  by_cases h1 : a = 1
  · have hl : log 1 = 0 := gfLogs_alpha (i := 0) (by decide)
    rw [h1, hl, Nat.sub_zero, ← gen.exp_mod]
    rfl
  · have ho : UInt8.toNat a ≠ 1 := fun h => h1 (UInt8.toNat_inj.mp h)
    have hpos : 0 < log a := by
      refine Nat.pos_of_ne_zero fun h => h1 ?_
      rw [← gen.exp_log log_exp h0, h]
      rfl
    unfold GF_INV
    rw [gfInv_getD (by omega) (toNat_lt_256 a)]
    exact gfPolys_getD (Nat.sub_lt (by decide) hpos)

/-! ## The field -/

namespace Gf

theorem mul_def (a b : Gf) : a * b = gen.mul log a b := GF_MUL_eq a b

instance : CommRing Gf where
  mul_assoc a b c := by
    simp only [mul_def]
    exact gen.mul_assoc log_exp a b c
  mul_comm a b := by
    simp only [mul_def]
    exact gen.mul_comm a b
  one_mul a := by
    rw [mul_def]
    exact gen.one_mul log_exp a
  mul_one a := by
    rw [mul_def, gen.mul_comm]
    exact gen.one_mul log_exp a
  zero_mul a := by
    rw [mul_def]
    exact gen.zero_mul a
  mul_zero a := by
    rw [mul_def]
    exact gen.mul_zero a
  left_distrib a b c := by
    simp only [mul_def]
    exact gen.mul_add log_exp a b c
  right_distrib a b c := by
    simp only [mul_def, gen.mul_comm _ c]
    exact gen.mul_add log_exp c a b
  zsmul := zsmulRec
  neg_add_cancel := neg_add_cancel

instance : Field Gf where
  exists_pair_ne := ⟨0, 1, by decide⟩
  mul_inv_cancel a h := by
    change GF_MUL a (GF_INV a) = 1
    rw [GF_INV_eq h, GF_MUL_eq]
    exact gen.mul_inv_cancel log_exp h
  inv_zero := rfl
  nnqsmul := _
  nnqsmul_def := fun _ _ => rfl
  qsmul := _
  qsmul_def := fun _ _ => rfl

instance : CharP Gf 2 := CharTwo.of_one_ne_zero_of_two_eq_zero (by decide) rfl

end Gf

theorem exp_pow (m n : Nat) : gen.exp m ^ n = gen.exp (m * n) := by
  induction n with
  | zero => rfl
  | succ n ih => rw [pow_succ, ih, Gf.mul_def, gen.exp_mul_exp log_exp, Nat.mul_succ]

/-! The macros, as the simp set that turns the code into field arithmetic. -/

@[simp] theorem GF_ADD_eq_add (a b : Gf) : GF_ADD a b = a + b := rfl
@[simp] theorem GF_MUL_eq_mul (a b : Gf) : GF_MUL a b = a * b := rfl
@[simp] theorem GF_INV_eq_inv (a : Gf) : GF_INV a = a⁻¹ := rfl

end RtpSdr.Fec.Field
