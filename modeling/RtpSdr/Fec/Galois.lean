import Mathlib.Data.List.Basic
import Mathlib.Logic.Function.Iterate
import Mathlib.Tactic.Common

/-!
# The Galois field tables of `fec_galois.c`

`gf_init` fills four tables. The powers and the logarithms come out of two
dependent loops, which are translated as folds over the loop index; the product
and inverse tables are filled entry by entry from those. The lemmas give the
powers as iterates of `xtime` and the logarithms as their inverse.
-/
namespace RtpSdr.Fec.Galois

/-- `typedef unsigned char gf`. The tables are written with the byte itself; the type
has its own name because its arithmetic is not that of bytes. -/
def Gf := UInt8

def gfPrimPoly : List Char := "101110001".toList

/-- The variables the two loops of `gf_init` work on. -/
structure PolyState where
  polys : List UInt8
  logs : List UInt8
  g : UInt8

/-- `for (i = 0; i < 8; i++, g <<= 1)`: the powers below eight, collecting the eighth. -/
def initLow (s : PolyState) (i : Nat) : PolyState :=
  let polys := s.polys.set i s.g
  let logs := s.logs.set (polys.getD i 0).toNat (UInt8.ofNat i)
  let polys := if gfPrimPoly.getD i '0' = '1' then polys.set 8 (polys.getD 8 0 ||| s.g) else polys
  ⟨polys, logs, s.g <<< 1⟩

/-- `for (i = 9; i < 255; i++)`: each further power is the last one times alpha. -/
def initHigh (s : PolyState) (i : Nat) : PolyState :=
  let prev := s.polys.getD (i - 1) 0
  let polys := s.polys.set i (if prev ≥ s.g then s.polys.getD 8 0 ^^^ (prev <<< 1) else prev <<< 1)
  ⟨polys, s.logs.set (polys.getD i 0).toNat (UInt8.ofNat i), s.g⟩

/-- The state between the two loops, with `g = 1 << 7`. -/
def initMid : PolyState :=
  let zero := List.replicate 256 (0 : UInt8)
  let s := (List.range 8).foldl initLow ⟨zero.set 8 0, zero, 1⟩
  ⟨s.polys, s.logs.set (s.polys.getD 8 0).toNat 8, (1 : UInt8) <<< 7⟩

def initEnd : PolyState := (List.range' 9 246).foldl initHigh initMid

def gfPolys : List UInt8 := initEnd.polys

/-- `gf_logs`: the logarithm of zero is marked undefined after the loops. -/
def gfLogs : List UInt8 := initEnd.logs.set 0 0xFF

def gfMul : List (List UInt8) :=
  (List.range 256).map fun i => (List.range 256).map fun j =>
    if i = 0 ∨ j = 0 then 0
    else gfPolys.getD (((gfLogs.getD i 0).toNat + (gfLogs.getD j 0).toNat) % 255) 0

def gfInv : List UInt8 :=
  [0, 1] ++ (List.range' 2 254).map fun i => gfPolys.getD (255 - (gfLogs.getD i 0).toNat) 0

def GF_MUL (x y : Gf) : Gf := (gfMul.getD (UInt8.toNat x) []).getD (UInt8.toNat y) 0
def GF_ADD (x y : Gf) : Gf := UInt8.xor x y
def GF_INV (x : Gf) : Gf := gfInv.getD (UInt8.toNat x) 0

/-- Multiplication by alpha on the polynomial representation. -/
def xtime (b : UInt8) : UInt8 := if b ≥ 128 then (29 : UInt8) ^^^ (b <<< 1) else b <<< 1

def alpha (n : Nat) : UInt8 := xtime^[n] 1

theorem alpha_succ (n : Nat) : alpha (n + 1) = xtime (alpha n) := Function.iterate_succ_apply' _ _ _

/-- What the loops of `gf_init` maintain: the first `n` powers and their logarithms are in place. -/
structure Filled (s : PolyState) (n : Nat) : Prop where
  polys_length : s.polys.length = 256
  logs_length : s.logs.length = 256
  polys : ∀ i < n, s.polys.getD i 0 = alpha i
  logs : ∀ i < n, s.logs.getD (alpha i).toNat 0 = UInt8.ofNat i
  g : s.g = 128

theorem filled_initMid : Filled initMid 9 where
  polys_length := by decide +kernel
  logs_length := by decide +kernel
  polys := by decide +kernel
  logs := by decide +kernel
  g := by decide +kernel

theorem getD_set_self {xs : List UInt8} {i : Nat} (a : UInt8) (h : i < xs.length) :
    (xs.set i a).getD i 0 = a := by
  simp [List.getD_eq_getElem?_getD, h]

theorem getD_set_ne {xs : List UInt8} {i j : Nat} (a : UInt8) (h : i ≠ j) :
    (xs.set i a).getD j 0 = xs.getD j 0 := by
  simp [List.getD_eq_getElem?_getD, List.getElem?_set_ne h]

theorem toNat_lt_256 (a : UInt8) : a.toNat < 256 := a.toNat_lt

/-- One pass of the second loop, as long as the powers so far are distinct. -/
theorem filled_initHigh {s : PolyState} {n : Nat} (h9 : 9 ≤ n) (hn : n < 256)
    (hinj : ∀ i < n, alpha i ≠ alpha n) (h : Filled s n) : Filled (initHigh s n) (n + 1) := by
  have hnew : (if s.polys.getD (n - 1) 0 ≥ s.g
      then s.polys.getD 8 0 ^^^ (s.polys.getD (n - 1) 0 <<< 1)
      else s.polys.getD (n - 1) 0 <<< 1) = alpha n := by
    obtain ⟨m, rfl⟩ : ∃ m, n = m + 1 := ⟨n - 1, by omega⟩
    rw [Nat.add_sub_cancel, h.polys m (by omega), h.polys 8 (by omega), h.g,
      show alpha 8 = 29 from by decide, alpha_succ m]
    rfl
  have hp : (initHigh s n).polys = s.polys.set n (alpha n) := by
    simp only [initHigh, hnew]
  have hl : (initHigh s n).logs = s.logs.set (alpha n).toNat (UInt8.ofNat n) := by
    simp only [initHigh, hnew, getD_set_self _ (h.polys_length.symm ▸ hn)]
  refine ⟨by rw [hp, List.length_set, h.polys_length], by rw [hl, List.length_set, h.logs_length],
    ?_, ?_, h.g⟩
  · intro i hi
    rw [hp]
    by_cases he : n = i
    · rw [← he, getD_set_self _ (h.polys_length.symm ▸ hn)]
    · rw [getD_set_ne _ he, h.polys i (by omega)]
  · intro i hi
    rw [hl]
    by_cases he : n = i
    · rw [← he, getD_set_self _ (h.logs_length.symm ▸ toNat_lt_256 _)]
    · have hne : (alpha n).toNat ≠ (alpha i).toNat :=
        fun e => hinj i (by omega) (UInt8.toNat_inj.mp e.symm)
      rw [getD_set_ne _ hne, h.logs i (by omega)]

theorem filled_foldl (hinj : ∀ i j, i < j → j < 255 → alpha i ≠ alpha j) (m : Nat)
    (hm : m ≤ 246) : Filled ((List.range' 9 m).foldl initHigh initMid) (9 + m) := by
  induction m with
  | zero => exact filled_initMid
  | succ m ih =>
    rw [List.range'_1_concat, List.foldl_append, List.foldl_cons, List.foldl_nil]
    exact filled_initHigh (by omega) (by omega) (fun i hi => hinj i _ hi (by omega))
      (ih (by omega))

end RtpSdr.Fec.Galois
