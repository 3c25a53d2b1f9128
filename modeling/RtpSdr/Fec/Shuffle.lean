import Mathlib.Data.List.NodupEquivFin
import RtpSdr.Fec.Code

/-!
# The index shuffle of `fec_decode`

`fec_shuffle` moves every index below `k` to its own position by exchanges. An
exchange settles the position it moves the index to, so the loop ends; it fails
exactly when that position already holds the index.
-/
namespace RtpSdr.Fec.Shuffle

open RtpSdr.Lib.Checked
open RtpSdr.Lib.Memory
open RtpSdr.Fec.Code

/-- One pass of the loop, on its counter and the array. -/
def shufflePass (k : UInt32) (s : Nat × List UInt32) :
    Exec (Step (Nat × List UInt32) (Int × List UInt32)) :=
  if s.1 < k.toNat then do
    let x ← load s.2 s.1
    if x ≥ k ∨ x.toNat = s.1 then .ok (.next (s.1 + 1, s.2))
    else do
      let y ← load s.2 x.toNat
      if y = x then .ok (.leave (0, s.2))
      else do
        let idxs ← store s.2 s.1 y
        let idxs ← store idxs x.toNat x
        .ok (.next (s.1, idxs))
  else .ok (.leave (1, s.2))

/-- `fec_shuffle(fec, idxs)`: the result and the array afterwards. The passes granted
are `fecShuffle_ok` shows to be enough. -/
def fecShuffle (fec : FecT) (idxs : List UInt32) : Exec (Int × List UInt32) :=
  loopFuel (shufflePass fec.k) (2 * fec.k.toNat + 1) (0, idxs)

/-! ## Settled positions -/

/-- The index at a position, as a number. -/
def idxAt (xs : List UInt32) (j : Nat) : Nat := (xs.getD j 0).toNat

/-- A position holds its own index, or one of a packet that is no source packet. -/
def Placed (k : Nat) (xs : List UInt32) (j : Nat) : Prop := k ≤ idxAt xs j ∨ idxAt xs j = j

/-- The positions below `k` that do not hold their own index. -/
def unsettled (k : Nat) (xs : List UInt32) : Finset Nat :=
  (Finset.range k).filter fun j => idxAt xs j ≠ j

variable {k : Nat} {xs idxs : List UInt32} {i : Nat}

/-- The exchange of a pass. -/
def exchange (xs : List UInt32) (i : Nat) : List UInt32 :=
  (xs.set i (xs.getD (idxAt xs i) 0)).set (idxAt xs i) (xs.getD i 0)

theorem exchange_perm (hi : i < xs.length) (hc : idxAt xs i < xs.length) :
    (exchange xs i).Perm xs := by
  have h := List.set_set_perm hi hc
  have h1 : xs.getD (idxAt xs i) 0 = xs[idxAt xs i] := by
    rw [List.getD_eq_getElem?_getD, List.getElem?_eq_getElem hc, Option.getD_some]
  have h2 : xs.getD i 0 = xs[i] := by
    rw [List.getD_eq_getElem?_getD, List.getElem?_eq_getElem hi, Option.getD_some]
  rwa [exchange, h1, h2]

theorem idxAt_exchange (hi : i < xs.length) (hc : idxAt xs i < xs.length) (j : Nat) :
    idxAt (exchange xs i) j = if idxAt xs i = j then j else if i = j then idxAt xs (idxAt xs i)
      else idxAt xs j := by
  unfold exchange
  rw [idxAt, getD_set (by rwa [List.length_set]), getD_set hi]
  by_cases h1 : idxAt xs i = j
  · rw [if_pos h1, if_pos h1]
    exact h1
  · rw [if_neg h1, if_neg h1]
    by_cases h2 : i = j
    · rw [if_pos h2, if_pos h2]
      rfl
    · rw [if_neg h2, if_neg h2]
      rfl

/-- The exchange settles a position and unsettles none. -/
theorem unsettled_exchange (hlen : xs.length = k) (hi : i < k) (hc : idxAt xs i < k)
    (hne : idxAt xs i ≠ i) (hconf : idxAt xs (idxAt xs i) ≠ idxAt xs i) :
    (unsettled k (exchange xs i)).card < (unsettled k xs).card := by
  apply Finset.card_lt_card
  rw [Finset.ssubset_iff_of_subset]
  · refine ⟨idxAt xs i, ?_, ?_⟩
    · exact Finset.mem_filter.mpr ⟨Finset.mem_range.mpr hc, hconf⟩
    · intro hmem
      have := (Finset.mem_filter.mp hmem).2
      rw [idxAt_exchange (by omega) (by omega), if_pos rfl] at this
      exact this rfl
  · intro j hj
    obtain ⟨hjk, hj'⟩ := Finset.mem_filter.mp hj
    rw [idxAt_exchange (by omega) (by omega)] at hj'
    refine Finset.mem_filter.mpr ⟨hjk, ?_⟩
    by_cases h1 : idxAt xs i = j
    · rw [if_pos h1] at hj'
      exact absurd rfl hj'
    · rw [if_neg h1] at hj'
      by_cases h2 : i = j
      · rw [← h2]
        exact hne
      · rwa [if_neg h2] at hj'

/-! ## The loop -/

/-- What every pass maintains. -/
structure Shuffling (k : Nat) (idxs : List UInt32) (s : Nat × List UInt32) : Prop where
  perm : s.2.Perm idxs
  le : s.1 ≤ k
  placed : ∀ j, j < s.1 → Placed k s.2 j

/-- Some index of a source packet occurs twice. -/
def Conflict (k : Nat) (xs : List UInt32) : Prop := ∃ v, v.toNat < k ∧ 2 ≤ xs.count v

/-- What the loop ends with. -/
structure Shuffled (k : Nat) (idxs : List UInt32) (r : Int × List UInt32) : Prop where
  perm : r.2.Perm idxs
  result : (r.1 = 1 ∧ ∀ j, j < k → Placed k r.2 j) ∨ (r.1 = 0 ∧ Conflict k idxs)

def remaining (k : Nat) (s : Nat × List UInt32) : Nat := (k - s.1) + (unsettled k s.2).card

theorem conflict_of_twice {c : Nat} (hi : i < xs.length) (hc : c < xs.length) (hne : i ≠ c)
    (heq : xs.getD i 0 = xs.getD c 0) : 2 ≤ xs.count (xs.getD i 0) := by
  rw [← List.duplicate_iff_two_le_count, List.duplicate_iff_exists_distinct_get]
  have hget (j : Nat) (hj : j < xs.length) : xs.getD j 0 = xs.get ⟨j, hj⟩ := by
    rw [List.getD_eq_getElem?_getD, List.getElem?_eq_getElem hj, Option.getD_some]
    rfl
  rcases Nat.lt_or_gt_of_ne hne with h | h
  · exact ⟨⟨i, hi⟩, ⟨c, hc⟩, h, hget i hi, heq.trans (hget c hc)⟩
  · exact ⟨⟨c, hc⟩, ⟨i, hi⟩, h, heq.trans (hget c hc), hget i hi⟩

theorem shufflePass_ok {kw : UInt32} (hk : kw.toNat = k) (hlen : idxs.length = k)
    {s : Nat × List UInt32} (h : Shuffling k idxs s) :
    (∃ s', shufflePass kw s = .ok (.next s') ∧ Shuffling k idxs s' ∧
        remaining k s' < remaining k s) ∨
      ∃ r, shufflePass kw s = .ok (.leave r) ∧ Shuffled k idxs r := by
  obtain ⟨i, xs⟩ := s
  obtain ⟨hperm, hle, hplaced⟩ := h
  simp only at hperm hle hplaced
  have hl : xs.length = k := hperm.length_eq.trans hlen
  simp only [shufflePass, hk]
  by_cases hi : i < k
  · rw [if_pos hi, bind_of_ok (load_of_lt 0 (by omega))]
    have hge : xs.getD i 0 ≥ kw ↔ k ≤ idxAt xs i := by
      rw [ge_iff_le, UInt32.le_iff_toNat_le, hk]
      rfl
    by_cases hp : xs.getD i 0 ≥ kw ∨ (xs.getD i 0).toNat = i
    · refine .inl ⟨(i + 1, xs), if_pos hp, ⟨hperm, hi, fun j hj => ?_⟩, ?_⟩
      · rcases Nat.lt_or_eq_of_le (Nat.le_of_lt_succ hj) with hlt | rfl
        · exact hplaced j hlt
        · exact hp.imp hge.mp id
      · change k - (i + 1) + (unsettled k xs).card < k - i + (unsettled k xs).card
        omega
    · rw [if_neg hp]
      obtain ⟨hnge, hne⟩ := not_or.mp hp
      change ¬ idxAt xs i = i at hne
      have hc : idxAt xs i < k := Nat.lt_of_not_le fun hle => hnge (hge.mpr hle)
      have hload : load xs (xs.getD i 0).toNat = .ok (xs.getD (idxAt xs i) 0) :=
        load_of_lt 0 (hl ▸ hc)
      rw [bind_of_ok hload]
      by_cases hconf : xs.getD (idxAt xs i) 0 = xs.getD i 0
      · refine .inr ⟨(0, xs), if_pos hconf, hperm, .inr ⟨rfl, xs.getD i 0, hc, ?_⟩⟩
        rw [← hperm.count_eq]
        exact conflict_of_twice (by omega) (by omega) (fun e => hne e.symm) hconf.symm
      · refine .inl ⟨(i, exchange xs i), ?_,
          ⟨(exchange_perm (by omega) (by omega)).trans hperm, hle, fun j hj => ?_⟩, ?_⟩
        · rw [if_neg hconf, bind_of_ok (store_of_lt _ (by omega)), bind_of_ok (store_of_lt _
            (by rw [List.length_set]; change idxAt xs i < _; omega))]
          rfl
        · -- an exchange moves nothing that is already in its place
          have hj' := hplaced j hj
          unfold Placed at hj' ⊢
          rw [idxAt_exchange (by omega) (by omega)]
          by_cases h1 : idxAt xs i = j
          · rw [if_pos h1]
            exact .inr rfl
          · rwa [if_neg h1, if_neg (by omega)]
        · have := unsettled_exchange hl hi hc hne fun e => hconf (UInt32.toNat_inj.mp e)
          change k - i + (unsettled k (exchange xs i)).card < k - i + (unsettled k xs).card
          omega
  · refine .inr ⟨(1, xs), if_neg hi, hperm, .inl ⟨rfl, fun j hj => hplaced j (by omega)⟩⟩

/-- The loop ends on every array of `k` indices, with the indices of the source packets in
their places or on a conflict. -/
theorem fecShuffle_ok {fec : FecT} (hlen : idxs.length = fec.k.toNat) :
    ∃ r, fecShuffle fec idxs = .ok r ∧ Shuffled fec.k.toNat idxs r := by
  refine loopFuel_variant (I := Shuffling fec.k.toNat idxs) (remaining fec.k.toNat)
    (fun s hs => shufflePass_ok rfl hlen hs) _ _
    ⟨.refl _, Nat.zero_le _, fun j hj => absurd hj (Nat.not_lt_zero j)⟩ ?_
  have := Finset.card_filter_le (Finset.range fec.k.toNat) fun j => idxAt idxs j ≠ j
  rw [Finset.card_range] at this
  change fec.k.toNat - 0 + (unsettled fec.k.toNat idxs).card < _
  unfold unsettled
  omega

/-! ## What the shuffle leaves -/

/-- Where every position is placed, an index of a source packet is found at its own position
only. -/
theorem eq_of_placed (hp : ∀ j, j < k → Placed k xs j) {j : Nat} {v : UInt32}
    (hj : j < k) (hv : v.toNat < k) (heq : xs.getD j 0 = v) : j = v.toNat := by
  have hx : idxAt xs j = v.toNat := congrArg UInt32.toNat heq
  rcases hp j hj with hge | hself
  · omega
  · omega

theorem no_conflict_of_placed (hlen : xs.length = k) (hp : ∀ j, j < k → Placed k xs j) :
    ¬ Conflict k xs := by
  rintro ⟨v, hv, h2⟩
  rw [← List.duplicate_iff_two_le_count, List.duplicate_iff_exists_distinct_get] at h2
  obtain ⟨i, j, hij, hi, hj⟩ := h2
  have hget (n : Fin xs.length) (h : v = xs.get n) : xs.getD n 0 = v := by
    rw [h, List.getD_eq_getElem?_getD, List.getElem?_eq_getElem n.isLt, Option.getD_some]
    rfl
  have hiv := eq_of_placed hp (hlen ▸ i.isLt) hv (hget i hi)
  have hjv := eq_of_placed hp (hlen ▸ j.isLt) hv (hget j hj)
  rw [Fin.lt_def] at hij
  omega

theorem mem_at_of_placed (hlen : xs.length = k) (hp : ∀ j, j < k → Placed k xs j) {v : UInt32}
    (hmem : v ∈ xs) (hv : v.toNat < k) : xs.getD v.toNat 0 = v := by
  obtain ⟨j, hj, rfl⟩ := List.mem_iff_getElem.mp hmem
  have hget : xs.getD j 0 = xs[j] := by
    rw [List.getD_eq_getElem?_getD, List.getElem?_eq_getElem hj, Option.getD_some]
  rw [← eq_of_placed hp (hlen ▸ hj) hv hget]
  exact hget

theorem conflict_congr {xs ys : List UInt32} (h : xs.Perm ys) : Conflict k xs ↔ Conflict k ys := by
  unfold Conflict
  simp only [h.count_eq]

/-- The shuffle ends on every array of `k` indices with a permutation of it. It returns 0
exactly on a conflict; otherwise it returns 1, each position holds its own index or that of a
repair packet, and the index of a source packet that was there is at its own position. -/
theorem fecShuffle_normalises (fec : FecT) (idxs : List UInt32)
    (hlen : idxs.length = fec.k.toNat) :
    ∃ result after, fecShuffle fec idxs = .ok (result, after) ∧ after.Perm idxs ∧
      (result = 0 ∨ result = 1) ∧
      (result = 0 ↔ ∃ v : UInt32, v.toNat < fec.k.toNat ∧ 2 ≤ idxs.count v) ∧
      (result = 1 →
        (∀ i, i < fec.k.toNat →
          (after.getD i 0).toNat = i ∨ fec.k.toNat ≤ (after.getD i 0).toNat) ∧
        ∀ v ∈ idxs, v.toNat < fec.k.toNat → after.getD v.toNat 0 = v) := by
  obtain ⟨⟨result, after⟩, hrun, hperm, hres⟩ := fecShuffle_ok hlen
  have hl : after.length = fec.k.toNat := hperm.length_eq.trans hlen
  refine ⟨result, after, hrun, hperm, ?_⟩
  rcases hres with ⟨h1, hp⟩ | ⟨h0, hconf⟩
  · simp only at h1 hp
    have hno : ¬ Conflict fec.k.toNat idxs := fun h =>
      no_conflict_of_placed hl hp ((conflict_congr hperm).mpr h)
    refine ⟨.inr h1, ⟨fun h0 => absurd (h1.symm.trans h0) (by decide), fun h => absurd h hno⟩,
      fun _ => ⟨fun i hi => (hp i hi).symm, fun v hmem hv => ?_⟩⟩
    exact mem_at_of_placed hl hp (hperm.mem_iff.mpr hmem) hv
  · simp only at h0
    refine ⟨.inl h0, ⟨fun _ => hconf, fun _ => h0⟩, fun h1 => ?_⟩
    exact absurd (h0.symm.trans h1) (by decide)

/-- Three source packets out of order with a repair packet among them. -/
theorem fecShuffle_normalises_four :
    ([2, 7, 1, 0] : List UInt32).length = (⟨4, 8, []⟩ : FecT).k.toNat ∧
    ∃ result after, fecShuffle ⟨4, 8, []⟩ [2, 7, 1, 0] = .ok (result, after) ∧
      after.Perm [2, 7, 1, 0] ∧ (result = 0 ∨ result = 1) ∧
      (result = 0 ↔ ∃ v : UInt32, v.toNat < 4 ∧ 2 ≤ ([2, 7, 1, 0] : List UInt32).count v) ∧
      (result = 1 →
        (∀ i, i < 4 → (after.getD i 0).toNat = i ∨ 4 ≤ (after.getD i 0).toNat) ∧
        ∀ v ∈ ([2, 7, 1, 0] : List UInt32), v.toNat < 4 → after.getD v.toNat 0 = v) :=
  ⟨rfl, fecShuffle_normalises ⟨4, 8, []⟩ [2, 7, 1, 0] rfl⟩

example : fecShuffle ⟨4, 8, []⟩ [2, 7, 1, 0] = .ok (1, [0, 1, 2, 7]) := by decide

end RtpSdr.Fec.Shuffle
