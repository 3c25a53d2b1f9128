import RtpSdr.Fec.RoundTrip

/-!
# `fec_encode` evaluates a polynomial

The bytes at one place of the source packets are the values of one polynomial of
degree below `k` at the first `k` points, and the encoded packet holds its value
at the point of the packet. The points come from the table of powers. A length
that is negative as an `int` leaves the parity packets at zero instead.
-/
namespace RtpSdr.Fec.Evaluation

open Polynomial
open RtpSdr.Lib.Checked
open RtpSdr.Lib.Memory
open RtpSdr.Lib.SystematicCode
open RtpSdr.Fec.Galois
open RtpSdr.Fec.Field
open RtpSdr.Fec.Code
open RtpSdr.Fec.RoundTrip

/-- The point of packet `r`: zero, then the entries of `gf_polys`. -/
def point : Nat → Gf
  | 0 => 0
  | r + 1 => polys.getD r 0

/-- A polynomial of degree below `k` through byte `b` of the `k` source packets. -/
def Interpolates (k : Nat) (src : List (List Gf)) (b : Nat) (P : Gf[X]) : Prop :=
  P.degree < k ∧ ∀ i, i < k → P.eval (point i) = (packet src i).getD b 0

/-- Every byte of the packet that `fec_encode` writes is the value of the one polynomial
through the bytes of the source packets. -/
def Evaluates (k n idx len : UInt32) : Prop :=
  ∃ fec, fecNew k n = .ok fec ∧ ∀ (src : List (List Gf)) (dst : List Gf),
    src.length = k.toNat → (∀ pkt ∈ src, pkt.length = len.toNat) → dst.length = len.toNat →
    ∃ out, fecEncode fec src dst idx len = .ok out ∧ out.length = len.toNat ∧
      ∀ b, b < len.toNat → (∃! P, Interpolates k.toNat src b P) ∧
        ∀ P, Interpolates k.toNat src b P → out.getD b 0 = P.eval (point idx.toNat)

variable {k n : Nat} {src : List (List Gf)} {b : Nat}

theorem point_eq_node {r : Nat} (hr : r < 256) : point r = node r := by
  cases r with
  | zero => rfl
  | succ r => exact gfPolys_getD (by omega)

theorem interpolates_iff (hk : k ≤ 256) (P : Gf[X]) : Interpolates k src b P ↔
    P.degree < k ∧ ∀ i, i < k → P.eval (node i) = (packet src i).getD b 0 := by
  unfold Interpolates
  refine and_congr_right fun _ => forall_congr' fun i => ?_
  constructor
  · intro h hi
    rw [← point_eq_node (by omega)]
    exact h hi
  · intro h hi
    rw [point_eq_node (by omega)]
    exact h hi

theorem existsUnique_interpolates (hkn : k ≤ n) (hn : n ≤ 256) (src : List (List Gf)) (b : Nat) :
    ∃! P, Interpolates k src b P := by
  simp only [interpolates_iff (hkn.trans hn)]
  exact existsUnique_interpolation (distinct_of_le hn) hkn fun i => (packet src i).getD b 0

/-- The symbol of a packet is the value of the polynomial at its node. -/
theorem symbol_eq_eval (hkn : k ≤ n) (hn : n ≤ 256) {P : Gf[X]} (hP : Interpolates k src b P)
    (j : Nat) : symbol src k j b = P.eval (node j) := by
  obtain ⟨hdegree, hvalues⟩ := (interpolates_iff (hkn.trans hn) P).mp hP
  rw [← sum_generator_eval (distinct_of_le hn) hkn hdegree j, symbol]
  exact Finset.sum_congr rfl fun i _ => by rw [hvalues i i.isLt]

section Encode

variable {kw nw idx len : UInt32} (hk : 1 ≤ kw.toNat) (hkn : kw.toNat ≤ nw.toNat)
  (hn : nw.toNat ≤ 256)

include hk hkn hn

theorem evaluates_of_fits (hidx : idx.toNat < nw.toNat)
    (h : idx.toNat < kw.toNat ∨ len.toNat < 2 ^ 31) : Evaluates kw nw idx len := by
  obtain ⟨fec, hfec, -, -, hg⟩ := fecNew_ok hk hkn hn
  refine ⟨fec, hfec, fun src dst hsrc hpkt hdst => ?_⟩
  have hpl (i : Nat) (hi : i < kw.toNat) := length_packet hsrc hpkt hi
  have hvalue {out : List Gf} {b : Nat} (hout : out.getD b 0 = symbol src kw.toNat idx.toNat b) :
      (∃! P, Interpolates kw.toNat src b P) ∧
        ∀ P, Interpolates kw.toNat src b P → out.getD b 0 = P.eval (point idx.toNat) := by
    refine ⟨existsUnique_interpolates hkn hn src b, fun P hP => ?_⟩
    rw [hout, point_eq_node (by omega)]
    exact symbol_eq_eval hkn hn hP idx.toNat
  by_cases hi : idx.toNat < kw.toNat
  · refine ⟨_, fecEncode_source hg hi hsrc (hpl _ hi) hdst, hpl _ hi, fun b _ => hvalue ?_⟩
    exact (symbol_source hkn hn hi b).symm
  · obtain ⟨out, hout, hl, hc⟩ := fecEncode_parity src dst idx len hg (hkn.trans hn) hn
      (Nat.le_of_not_lt hi) hidx hsrc hpl hdst
    refine ⟨out, hout, hl, fun b hb => hvalue ?_⟩
    rw [hc b hb, if_pos (h.resolve_left hi)]

/-- Parity that stays zero is not the value of the constant one. -/
theorem not_evaluates (hidx : idx.toNat < nw.toNat) (hi : kw.toNat ≤ idx.toNat)
    (hlen : 2 ^ 31 ≤ len.toNat) : ¬ Evaluates kw nw idx len := by
  rintro ⟨fec, hfec, hall⟩
  obtain ⟨fec', hfec', -, -, hg⟩ := fecNew_ok hk hkn hn
  cases hfec.symm.trans hfec'
  have hsrc : (List.replicate kw.toNat (List.replicate len.toNat (1 : Gf))).length = kw.toNat :=
    List.length_replicate
  have hpkt (pkt) (h : pkt ∈ List.replicate kw.toNat (List.replicate len.toNat (1 : Gf))) :
      pkt.length = len.toNat := by
    rw [List.eq_of_mem_replicate h, List.length_replicate]
  have hdst : (List.replicate len.toNat (0 : Gf)).length = len.toNat := List.length_replicate
  obtain ⟨out, hout, -, hc⟩ := hall _ _ hsrc hpkt hdst
  obtain ⟨out', hout', -, hzero⟩ := fecEncode_parity _ _ idx len hg (hkn.trans hn) hn hi hidx hsrc
    (fun i hi => length_packet hsrc hpkt hi) hdst
  cases hout.symm.trans hout'
  have hb : 0 < len.toNat := by omega
  have hone : Interpolates kw.toNat
      (List.replicate kw.toNat (List.replicate len.toNat (1 : Gf))) 0 1 := by
    refine ⟨?_, fun i hi => ?_⟩
    · rw [degree_one]
      exact_mod_cast hk
    · rw [eval_one, packet, getD_replicate hi, getD_replicate hb]
  have h0 := hzero 0 hb
  rw [if_neg (by omega), (hc 0 hb).2 1 hone, eval_one] at h0
  exact one_ne_zero h0

end Encode

/-- `fec_encode` is evaluation for the source packets, and for the parity packets of a
length that is an `int`. -/
theorem evaluates_iff {k n idx len : UInt32} (hk : 1 ≤ k.toNat) (hkn : k.toNat ≤ n.toNat)
    (hn : n.toNat ≤ 256) (hidx : idx.toNat < n.toNat) :
    Evaluates k n idx len ↔ idx.toNat < k.toNat ∨ len.toNat < 2 ^ 31 := by
  constructor
  · intro h
    by_contra hnot
    exact not_evaluates hk hkn hn hidx (by omega) (by omega) h
  · intro h
    exact evaluates_of_fits hk hkn hn hidx h

theorem evaluates_parity : Evaluates 1 2 1 3 :=
  (evaluates_iff (by decide) (by decide) (by decide) (by decide)).mpr (.inr (by decide))

theorem evaluates_fails : ¬ Evaluates 1 2 1 2147483648 :=
  not_evaluates (by decide) (by decide) (by decide) (by decide) (by decide) (by decide)

end RtpSdr.Fec.Evaluation
