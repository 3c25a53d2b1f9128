import RtpSdr.Fec.RoundTrip

/-!
# Which index sets `fec_decode` rejects

An index that occurs twice is rejected, by the shuffle or because two rows of the
decoding matrix are equal. Distinct indices never are: any `k` rows of the
generator matrix are independent. What is rejected leaves the buffer as it is.
-/
namespace RtpSdr.Fec.Rejection

open RtpSdr.Lib.Checked
open RtpSdr.Lib.Memory
open RtpSdr.Lib.SystematicCode
open RtpSdr.Fec.Galois
open RtpSdr.Fec.Field
open RtpSdr.Fec.Matrix
open RtpSdr.Fec.Code
open RtpSdr.Fec.Shuffle
open RtpSdr.Fec.Decode
open RtpSdr.Fec.RoundTrip

variable {fec : FecT} {k n : Nat} {idxs xs : List UInt32} {len : UInt32} {buf buf' : List Gf}

/-! ## An index that occurs twice -/

theorem exists_twice (hl : xs.length = k) (h : ¬ xs.Nodup) :
    ∃ i j : Fin k, i ≠ j ∧ idxAt xs i = idxAt xs j := by
  subst hl
  by_contra hno
  push Not at hno
  apply h
  rw [List.nodup_iff_injective_getElem]
  intro i j hij
  by_contra hne
  apply hno i j hne
  simp only [idxAt, List.getD_eq_getElem?_getD, List.getElem?_eq_getElem i.isLt,
    List.getElem?_eq_getElem j.isLt, Option.getD_some]
  exact congrArg UInt32.toNat hij

theorem det_rows_eq_zero (hl : xs.length = k) (h : ¬ xs.Nodup) :
    (rows node k fun r : Fin k => idxAt xs r).det = 0 := by
  obtain ⟨i, j, hne, hij⟩ := exists_twice hl h
  apply Matrix.det_zero_of_row_eq hne
  funext c
  rw [rows_eq_generator, rows_eq_generator, hij]

theorem fecDecode_twice (hg : Generates fec k n) (hk : k ≤ 256) (hn : n ≤ 256)
    (hl : idxs.length = k) (hlt : ∀ x ∈ idxs, x.toNat < n) (h : ¬ idxs.Nodup) (buf : List Gf)
    (len : UInt32) : ∃ xs, fecDecode fec buf idxs len = .ok (0, buf, xs) := by
  obtain ⟨⟨r, xs⟩, hs, hperm, hres⟩ := fecShuffle_ok (hl.trans hg.toNat_k.symm)
  rcases hres with ⟨rfl, -⟩ | ⟨rfl, -⟩
  · have hxs : xs.length = k := hperm.length_eq.trans hl
    have hlt' (i : Nat) (hi : i < k) : idxAt xs i < n :=
      hlt _ (hperm.mem_iff.mp (idxAt_mem hxs hi))
    have hdet := det_rows_eq_zero hxs fun hnd => h (hperm.nodup_iff.mp hnd)
    rcases fecDecodeMatrix_ok hg hk hn hxs hlt' with ⟨_, m, -, -, hinv⟩ | ⟨dec, hdec, -⟩
    · have hone := congrArg Matrix.det hinv
      rw [Matrix.det_mul, hdet, mul_zero, Matrix.det_one] at hone
      exact absurd hone zero_ne_one
    · have hsq : (fec.k * fec.k).toNat = k * k := by
        rw [toNat_mul_k hg hk (by rw [hg.toNat_k]; exact hk), hg.toNat_k]
      refine ⟨xs, ?_⟩
      unfold fecDecode
      rw [bind_of_ok hs]
      simp only [one_ne_zero, if_false, hsq, bind_of_ok hdec, if_true]
  · exact ⟨xs, by rw [fecDecode, bind_of_ok hs]; rfl⟩

/-! ## The row loop always ends -/

theorem gfAddMul_total {s : List Gf → Nat → Exec Gf} {o : Nat} {c : Gf} {w : Int}
    (ho : o + w.toNat ≤ buf.length)
    (hs : ∀ t j, t.length = buf.length → j < w.toNat → ∃ y, s t j = .ok y) :
    ∃ buf', gfAddMul s o c w buf = .ok buf' ∧ buf'.length = buf.length := by
  refine forUp_invariant (I := fun _ (t : List Gf) => t.length = buf.length) _ rfl ?_
  intro j t hj hl
  obtain ⟨y, hy⟩ := hs t j hl hj
  have hlt : o + j < t.length := by omega
  exact ⟨_, by rw [bind_of_ok (load_of_lt 0 hlt), bind_of_ok hy, store_of_lt _ hlt],
    by rw [List.length_set, hl]⟩

/-- Wherever the products of a row and the length end up, the row is inside the buffer. -/
theorem rebuildRow_total {dec : List Gf} (hg : Generates fec k n) (hk : k ≤ 256) (hkn : k ≤ n)
    (hl : xs.length = k) (hlt : ∀ i, i < k → idxAt xs i < n) (hdec : dec.length = k * k)
    (hbuf : buf.length = n * len.toNat) {r : Nat} (hr : r < k) :
    ∃ buf', rebuildRow fec dec xs len r buf = .ok buf' ∧ buf'.length = buf.length := by
  unfold rebuildRow
  rw [bind_of_ok (load_idx hl hr)]
  split
  · obtain ⟨hle, -⟩ := toNat_ofNat_mul_le r len
    have hend := row_end_le (k := len.toNat) (hr.trans_le hkn)
    have hw := toNat_toInt_le len
    have hzero : (UInt32.ofNat r * len).toNat + (List.replicate len.toNat (0 : Gf)).length
        ≤ buf.length := by
      rw [List.length_replicate]
      omega
    rw [bind_of_ok (blit_of_le hzero), hg.toNat_k]
    refine forUp_invariant (I := fun _ (t : List Gf) => t.length = buf.length) _
      (length_put hzero) ?_
    intro c t hc htl
    have hcend := row_end_le (k := len.toNat) (hlt c hc)
    have hcoff : (xs.getD c 0 * len).toNat ≤ idxAt xs c * len.toNat := toNat_mul_le _ len
    rw [bind_of_ok (load_idx hl hc), bind_of_ok (load_dec hg hk hdec hr hc), ← htl]
    exact gfAddMul_total (by omega) fun u j hu hj => ⟨_, load_of_lt 0 (by omega)⟩
  · exact ⟨buf, rfl, rfl⟩

theorem rebuildRows_total {dec : List Gf} (hg : Generates fec k n) (hk : k ≤ 256) (hkn : k ≤ n)
    (hl : xs.length = k) (hlt : ∀ i, i < k → idxAt xs i < n) (hdec : dec.length = k * k)
    (hbuf : buf.length = n * len.toNat) :
    ∃ buf', forUp (rebuildRow fec dec xs len) k buf = .ok buf' ∧ buf'.length = buf.length :=
  forUp_invariant (I := fun _ (t : List Gf) => t.length = buf.length) k rfl fun _ t hr htl => by
    rw [← htl]
    exact rebuildRow_total hg hk hkn hl hlt hdec (htl.trans hbuf) hr

/-! ## The rejected sets -/

theorem fecDecode_zero {xs : List UInt32} (h : fecDecode fec buf idxs len = .ok (0, buf', xs)) :
    buf' = buf := by
  obtain ⟨⟨r, ys⟩, -, h⟩ := bind_eq_ok.mp h
  dsimp only at h
  by_cases hr : r = 0
  · rw [if_pos hr] at h
    cases h
    rfl
  · rw [if_neg hr] at h
    obtain ⟨⟨r', dec⟩, -, h⟩ := bind_eq_ok.mp h
    dsimp only at h
    by_cases hr' : r' = 0
    · rw [if_pos hr'] at h
      cases h
      rfl
    · rw [if_neg hr'] at h
      obtain ⟨_, -, h⟩ := bind_eq_ok.mp h
      cases h

/-- `fec_decode` rejects exactly the index sets with a repetition, and leaves the packets as
they are when it does; on a buffer of `n` rows it always returns. -/
theorem fecDecode_rejects {k n : UInt32} {idxs : List UInt32} (hk : 1 ≤ k.toNat)
    (hkn : k.toNat ≤ n.toNat) (hn : n.toNat ≤ 256) (hl : idxs.length = k.toNat)
    (hlt : ∀ x ∈ idxs, x.toNat < n.toNat) (buf : List Gf) (len : UInt32) :
    ∃ fec, fecNew k n = .ok fec ∧
      ((∃ buf' xs, fecDecode fec buf idxs len = .ok (0, buf', xs)) ↔ ¬ idxs.Nodup) ∧
      (∀ buf' xs, fecDecode fec buf idxs len = .ok (0, buf', xs) → buf' = buf) ∧
      (buf.length = n.toNat * len.toNat →
        ∃ r buf' xs, fecDecode fec buf idxs len = .ok (r, buf', xs)) := by
  obtain ⟨fec, hfec, -, -, hg⟩ := fecNew_ok hk hkn hn
  refine ⟨fec, hfec, ?_, fun _ _ h => fecDecode_zero h, fun hbuf => ?_⟩
  · constructor
    · rintro ⟨buf', xs, h⟩ hnd
      obtain ⟨ys, dec, m, -, hrun⟩ := fecDecode_ready hg hkn hn ⟨hl, hnd, hlt⟩ buf len
      obtain ⟨_, -, hrest⟩ := bind_eq_ok.mp (hrun.symm.trans h)
      cases hrest
    · intro hnd
      obtain ⟨xs, h⟩ := fecDecode_twice hg (hkn.trans hn) hn hl hlt hnd buf len
      exact ⟨buf, xs, h⟩
  · by_cases hnd : idxs.Nodup
    · obtain ⟨ys, dec, m, hready, hrun⟩ := fecDecode_ready hg hkn hn ⟨hl, hnd, hlt⟩ buf len
      obtain ⟨buf', hbuf', -⟩ := rebuildRows_total hg (hkn.trans hn) hkn hready.selection.length
        (fun i hi => hready.lt hi) hready.holds.length hbuf
      exact ⟨1, buf', ys, by rw [hrun, bind_of_ok hbuf']⟩
    · obtain ⟨xs, h⟩ := fecDecode_twice hg (hkn.trans hn) hn hl hlt hnd buf len
      exact ⟨0, buf, xs, h⟩

theorem fecDecode_rejects_twice : ∃ fec, fecNew 2 3 = .ok fec ∧
    ((∃ buf' xs, fecDecode fec [0, 1, 0] [2, 2] 1 = .ok (0, buf', xs)) ↔
      ¬ ([2, 2] : List UInt32).Nodup) ∧
    (∀ buf' xs, fecDecode fec [0, 1, 0] [2, 2] 1 = .ok (0, buf', xs) → buf' = [0, 1, 0]) ∧
    ([0, 1, 0].length = UInt32.toNat 3 * UInt32.toNat 1 →
      ∃ r buf' xs, fecDecode fec [0, 1, 0] [2, 2] 1 = .ok (r, buf', xs)) := by
  apply fecDecode_rejects (by decide) (by decide) (by decide) rfl
  intro x hx
  rw [List.eq_of_mem_replicate (n := 2) hx]
  decide

end RtpSdr.Fec.Rejection
