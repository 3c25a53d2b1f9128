import RtpSdr.Fec.Evaluation

/-!
# How far apart two groups are encoded

Two polynomials of degree below `k` agree at fewer than `k` points, and any fewer than `k` points
are where some two agree. So groups that differ are encoded into packets that differ but for
`k - 1` of them, and no `k - 1` packets tell a group from every other.
-/
namespace RtpSdr.Fec.Distance

open Polynomial
open RtpSdr.Lib.Checked
open RtpSdr.Lib.Memory
open RtpSdr.Lib.SystematicCode
open RtpSdr.Fec.Galois
open RtpSdr.Fec.Field
open RtpSdr.Fec.Code
open RtpSdr.Fec.RoundTrip
open RtpSdr.Fec.Evaluation

/-- The source packets of a group, of one length. -/
structure Group (k len : UInt32) (src : List (List Gf)) : Prop where
  length : src.length = k.toNat
  packets : ∀ pkt ∈ src, pkt.length = len.toNat

/-- What `fec_encode` writes for every packet of a group. -/
def Encodes (fec : FecT) (n len : UInt32) (src : List (List Gf)) (dst : List Gf)
    (out : Nat → List Gf) : Prop :=
  ∀ j, j < n.toNat → fecEncode fec src dst (UInt32.ofNat j) len = .ok (out j) ∧
    (out j).length = len.toNat

variable {k n len : UInt32} {src src' : List (List Gf)} {dst : List Gf} {fec : FecT}

/-- All packets of a group, byte by byte the values of its polynomials. -/
theorem encodes_ok (hk : 1 ≤ k.toNat) (hkn : k.toNat ≤ n.toNat) (hn : n.toNat ≤ 256)
    (hlen : len.toNat < 2 ^ 31) (hfec : fecNew k n = .ok fec) (hsrc : Group k len src)
    (hdst : dst.length = len.toNat) :
    ∃ out, Encodes fec n len src dst out ∧ ∀ j, j < n.toNat → ∀ b, b < len.toNat →
      ∀ P, Interpolates k.toNat src b P → (out j).getD b 0 = P.eval (node j) := by
  have hone (j : Nat) : ∃ out, j < n.toNat →
      (fecEncode fec src dst (UInt32.ofNat j) len = .ok out ∧ out.length = len.toNat) ∧
      ∀ b, b < len.toNat → ∀ P, Interpolates k.toNat src b P → out.getD b 0 = P.eval (node j) := by
    by_cases hj : j < n.toNat
    · have hidx : (UInt32.ofNat j).toNat = j :=
        UInt32.toNat_ofNat_of_lt' (by rw [UInt32.size]; omega)
      have hfits : (UInt32.ofNat j).toNat < n.toNat := by rw [hidx]; exact hj
      obtain ⟨fec', hfec', hall⟩ := evaluates_of_fits hk hkn hn hfits (.inr hlen)
      obtain rfl := Except.ok.inj (hfec.symm.trans hfec')
      obtain ⟨out, hout, hl, hvalues⟩ := hall src dst hsrc.length hsrc.packets hdst
      refine ⟨out, fun _ => ⟨⟨hout, hl⟩, fun b hb P hP => ?_⟩⟩
      rw [(hvalues b hb).2 P hP, hidx, point_eq_node (by omega)]
    · exact ⟨[], fun h => absurd h hj⟩
  choose out hout using hone
  exact ⟨out, fun j hj => (hout j hj).1, fun j hj => (hout j hj).2⟩

/-- Packets that agree at a byte are fewer than `k`, if a source packet does not. -/
theorem card_differ (hkn : k.toNat ≤ n.toNat) (hn : n.toNat ≤ 256) {b : Nat}
    (hne : ∃ i, i < k.toNat ∧ (packet src i).getD b 0 ≠ (packet src' i).getD b 0)
    {f f' : Nat → Gf}
    (hf : ∀ P, Interpolates k.toNat src b P → ∀ j, j < n.toNat → f j = P.eval (node j))
    (hf' : ∀ P, Interpolates k.toNat src' b P → ∀ j, j < n.toNat → f' j = P.eval (node j)) :
    n.toNat - k.toNat + 1 ≤ ((Finset.range n.toNat).filter fun j => f j ≠ f' j).card := by
  obtain ⟨P, hP, -⟩ := existsUnique_interpolates hkn hn src b
  obtain ⟨Q, hQ, -⟩ := existsUnique_interpolates hkn hn src' b
  have hPQ : P ≠ Q := by
    rintro rfl
    obtain ⟨i, hi, hdiff⟩ := hne
    exact hdiff ((hP.2 i hi).symm.trans (hQ.2 i hi))
  have hagree := card_agree_lt (distinct_of_le hn) hP.1 hQ.1 hPQ
    (J := (Finset.range n.toNat).filter fun j => f j = f' j) (fun j hj => by
      obtain ⟨hj, heq⟩ := Finset.mem_filter.mp hj
      rw [Finset.mem_range] at hj
      rw [hf P hP j hj, hf' Q hQ j hj] at heq
      exact ⟨hj, heq⟩)
  have hsplit := Finset.card_filter_add_card_filter_not
    (s := Finset.range n.toNat) (fun j => f j = f' j)
  rw [Finset.card_range] at hsplit
  simp only [ne_eq]
  omega

/-! ### Groups that few packets do not tell apart -/

/-- The group whose packets repeat the values of a polynomial. -/
noncomputable def valuesOf (k len : UInt32) (P : Gf[X]) : List (List Gf) :=
  (List.range k.toNat).map fun i => List.replicate len.toNat (P.eval (node i))

theorem group_valuesOf (k len : UInt32) (P : Gf[X]) : Group k len (valuesOf k len P) := by
  refine ⟨by rw [valuesOf, List.length_map, List.length_range], fun pkt hpkt => ?_⟩
  obtain ⟨i, -, rfl⟩ := List.mem_map.mp hpkt
  exact List.length_replicate

theorem packet_valuesOf (len : UInt32) (P : Gf[X]) {i : Nat} (hi : i < k.toNat) :
    packet (valuesOf k len P) i = List.replicate len.toNat (P.eval (node i)) := by
  rw [packet, valuesOf, List.getD_eq_getElem?_getD, List.getElem?_map,
    List.getElem?_range hi]
  rfl

theorem interpolates_valuesOf (hk : k.toNat ≤ 256) {P : Gf[X]} (hP : P.degree < k.toNat) {b : Nat}
    (hb : b < len.toNat) : Interpolates k.toNat (valuesOf k len P) b P := by
  rw [interpolates_iff hk]
  refine ⟨hP, fun i hi => ?_⟩
  rw [packet_valuesOf len P hi, getD_replicate hb]

/-- Such a group is encoded into packets that go on with the values. -/
theorem encodes_valuesOf (hk : 1 ≤ k.toNat) (hkn : k.toNat ≤ n.toNat) (hn : n.toNat ≤ 256)
    (hlen : len.toNat < 2 ^ 31) (hfec : fecNew k n = .ok fec) {P : Gf[X]}
    (hP : P.degree < k.toNat) (hdst : dst.length = len.toNat) :
    Encodes fec n len (valuesOf k len P) dst
      fun j => List.replicate len.toNat (P.eval (node j)) := by
  obtain ⟨out, hout, hvalues⟩ :=
    encodes_ok hk hkn hn hlen hfec (group_valuesOf k len P) hdst
  intro j hj
  have heq : out j = List.replicate len.toNat (P.eval (node j)) := by
    refine ext_getD 0 (by rw [(hout j hj).2, List.length_replicate]) fun b hb => ?_
    rw [(hout j hj).2] at hb
    rw [hvalues j hj b hb P (interpolates_valuesOf (hkn.trans hn) hP hb), getD_replicate hb]
  have hencoded := hout j hj
  rw [heq] at hencoded
  exact hencoded

/-- Groups that differ in a byte are encoded into packets that differ in that byte but for `k - 1`
of them; and whichever packets one chooses, fewer than `k`, two groups agree in exactly those. -/
theorem encode_distance {k n len : UInt32} (hk : 1 ≤ k.toNat) (hkn : k.toNat ≤ n.toNat)
    (hn : n.toNat ≤ 256) (hlen : 1 ≤ len.toNat ∧ len.toNat < 2 ^ 31) :
    ∃ fec, fecNew k n = .ok fec ∧
      (∀ src src' dst, Group k len src → Group k len src' → dst.length = len.toNat →
        ∃ out out', Encodes fec n len src dst out ∧ Encodes fec n len src' dst out' ∧
          ∀ b, b < len.toNat →
            (∃ i, i < k.toNat ∧ (packet src i).getD b 0 ≠ (packet src' i).getD b 0) →
            n.toNat - k.toNat + 1 ≤ ((Finset.range n.toNat).filter fun j =>
              (out j).getD b 0 ≠ (out' j).getD b 0).card) ∧
      (∀ J : Finset Nat, (∀ j ∈ J, j < n.toNat) → J.card < k.toNat →
        ∃ src src' out out', Group k len src ∧ Group k len src' ∧ src ≠ src' ∧
          (∀ dst, dst.length = len.toNat →
            Encodes fec n len src dst out ∧ Encodes fec n len src' dst out') ∧
          ∀ j, j < n.toNat → (out j = out' j ↔ j ∈ J)) := by
  obtain ⟨fec, hfec, -⟩ := fecNew_ok hk hkn hn
  refine ⟨fec, hfec, fun src src' dst hsrc hsrc' hdst => ?_, fun J hJ hcard => ?_⟩
  · obtain ⟨out, hout, hvalues⟩ := encodes_ok hk hkn hn hlen.2 hfec hsrc hdst
    obtain ⟨out', hout', hvalues'⟩ := encodes_ok hk hkn hn hlen.2 hfec hsrc' hdst
    exact ⟨out, out', hout, hout', fun b hb hne => card_differ hkn hn hne
      (fun P hP j hj => hvalues j hj b hb P hP) fun P hP j hj => hvalues' j hj b hb P hP⟩
  · obtain ⟨P, hP, hzero⟩ := exists_zero_iff (distinct_of_le hn) hJ hcard
    have hP0 : (0 : Gf[X]).degree < k.toNat := by
      rw [degree_zero]
      exact WithBot.bot_lt_coe _
    have hagree (j : Nat) (hj : j < n.toNat) :
        List.replicate len.toNat (P.eval (node j))
          = List.replicate len.toNat ((0 : Gf[X]).eval (node j)) ↔ j ∈ J := by
      rw [eval_zero, ← hzero j hj, List.replicate_inj, and_iff_right rfl,
        or_iff_right (Nat.pos_iff_ne_zero.mp hlen.1)]
    refine ⟨valuesOf k len P, valuesOf k len 0, _, _, group_valuesOf k len P,
      group_valuesOf k len 0, ?_, fun dst hdst =>
        ⟨encodes_valuesOf hk hkn hn hlen.2 hfec hP hdst,
          encodes_valuesOf hk hkn hn hlen.2 hfec hP0 hdst⟩, hagree⟩
    -- If all source packets agreed, `J` would have `k` elements.
    intro heq
    have hall (i : Nat) (hi : i < k.toNat) : i ∈ J := by
      rw [← hagree i (hi.trans_le hkn), ← packet_valuesOf len P hi, heq,
        packet_valuesOf len 0 hi]
    have hle := Finset.card_le_card (s := Finset.range k.toNat) (t := J)
      fun i hi => hall i (Finset.mem_range.mp hi)
    rw [Finset.card_range] at hle
    omega

theorem encode_distance_two :
    ∃ fec, fecNew 2 4 = .ok fec ∧
      (∀ src src' dst, Group 2 1 src → Group 2 1 src' → dst.length = UInt32.toNat 1 →
        ∃ out out', Encodes fec 4 1 src dst out ∧ Encodes fec 4 1 src' dst out' ∧
          ∀ b, b < UInt32.toNat 1 → (∃ i, i < UInt32.toNat 2 ∧
              (packet src i).getD b 0 ≠ (packet src' i).getD b 0) →
            UInt32.toNat 4 - UInt32.toNat 2 + 1 ≤ ((Finset.range (UInt32.toNat 4)).filter fun j =>
              (out j).getD b 0 ≠ (out' j).getD b 0).card) ∧
      (∀ J : Finset Nat, (∀ j ∈ J, j < UInt32.toNat 4) → J.card < UInt32.toNat 2 →
        ∃ src src' out out', Group 2 1 src ∧ Group 2 1 src' ∧ src ≠ src' ∧
          (∀ dst, dst.length = UInt32.toNat 1 →
            Encodes fec 4 1 src dst out ∧ Encodes fec 4 1 src' dst out') ∧
          ∀ j, j < UInt32.toNat 4 → (out j = out' j ↔ j ∈ J)) :=
  encode_distance (by decide) (by decide) (by decide) (by decide)

end RtpSdr.Fec.Distance
