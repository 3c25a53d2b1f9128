import RtpSdr.Fec.Decode

/-!
# The parameter checks of `fec.c`

The conditions of the assertions are disjunctions with the text of their message.
The address of a text is not null, so none of the assertions ever fails: a call
is guarded exactly when its parameters are already what the checks ask for.
-/
namespace RtpSdr.Fec.Guards

open RtpSdr.Lib.Checked
open RtpSdr.Lib.Memory
open RtpSdr.Fec.Galois
open RtpSdr.Fec.Matrix
open RtpSdr.Fec.MatrixInv
open RtpSdr.Fec.VandermondeInv
open RtpSdr.Fec.Code
open RtpSdr.Fec.Decode

/-! ## No other assertion -/

theorem cassert_literal (c : Bool) (text : String) : cassert (c || literal text) = .ok () := by
  simp [literal]

theorem neverAsserts_gfAddMul {s : List Gf → Nat → Exec Gf}
    (hs : ∀ t j, NeverAsserts (s t j)) (off : Nat) (c : Gf) (w : Int) (mem : List Gf) :
    NeverAsserts (gfAddMul s off c w mem) := by
  simp [gfAddMul, hs]

theorem neverAsserts_fillRows {g : Nat → Nat → Exec Gf} (hg : ∀ i j, NeverAsserts (g i j))
    (k r rows : Nat) (a : List Gf) : NeverAsserts (fillRows g k r rows a) := by
  simp [fillRows, hg]

theorem neverAsserts_matrixMul (a b c : List Gf) (n : Int) (k m : Nat) :
    NeverAsserts (matrixMul a b c n k m) := by
  have hentry (row col : Nat) : NeverAsserts (mulEntry a b k m row col) := by simp [mulEntry]
  have hrow (row : Nat) (t : List Gf) : NeverAsserts (mulRow a b k m row t) := by
    simp [mulRow, hentry]
  simp [matrixMul, hrow]

theorem neverAsserts_matrixInvVandermonde (a : List Gf) (k : Nat) :
    NeverAsserts (matrixInvVandermonde a k) := by
  have hfactor (p : List Gf) (i : Nat) (c : List Gf) : NeverAsserts (addFactor p k i c) := by
    simp [addFactor]
  have hdivide (c : List Gf) (x : Gf) (b : List Gf) : NeverAsserts (divide c k x b) := by
    simp [divide]
  have hrow (p c : List Gf) (row : Nat) (s : List Gf × List Gf) :
      NeverAsserts (invRow p c k row s) := by
    simp [invRow, hdivide]
  simp [matrixInvVandermonde, readNodes, buildMaster, hfactor, hrow]

theorem neverAsserts_position (k i j : Nat) : NeverAsserts (position k i j) := by
  simp [position]

theorem neverAsserts_matrixInv (a : List Gf) (k : Nat) : NeverAsserts (matrixInv a k) := by
  have hpos := neverAsserts_position k
  have hsearch (a : List Gf) (ipiv : List Nat) (row : Nat) :
      NeverAsserts (searchRow a ipiv k row) := by
    simp [searchRow, hpos]
  have hmatrix (a : List Gf) (ipiv : List Nat) : NeverAsserts (searchMatrix a ipiv k) := by
    unfold searchMatrix
    simp only [neverAsserts_bind]
    refine ⟨by simp [hsearch], fun d _ => ?_⟩
    cases d with
    | next t => exact neverAsserts_ok _
    | leave r => exact neverAsserts_ok _
  have hfind (a : List Gf) (ipiv : List Nat) (col : Nat) :
      NeverAsserts (findPivot a ipiv k col) := by
    simp [findPivot, hpos, hmatrix]
  have hswap (irow icol : Nat) (a : List Gf) : NeverAsserts (pivotToDiagonal k irow icol a) := by
    simp [pivotToDiagonal, swapRows, hpos]
  have hdivide (pivotRow icol : Nat) (a : List Gf) :
      NeverAsserts (dividePivot k pivotRow icol a) := by
    simp [dividePivot]
  have hrow (pivotRow icol i : Nat) (a : List Gf) :
      NeverAsserts (reduceRow k pivotRow icol i a) := by
    simp [reduceRow, neverAsserts_gfAddMul]
  have hreduce (pivotRow icol : Nat) (idRow a : List Gf) :
      NeverAsserts (reduceRows k pivotRow icol idRow a) := by
    simp [reduceRows, hrow]
  have hcolumn (col : Nat) (s : InvState) : NeverAsserts (invColumn k col s) := by
    unfold invColumn
    simp only [neverAsserts_bind]
    refine ⟨hfind _ _ _, fun found _ => ?_⟩
    cases found with
    | none => exact neverAsserts_ok _
    | some found =>
      simp only [neverAsserts_bind, neverAsserts_load, neverAsserts_store, true_and]
      intro _ _ _ _
      refine ⟨hswap _ _ _, fun _ _ _ _ _ _ => ⟨hpos _ _, fun _ _ => ⟨hdivide _ _ _, ?_⟩⟩⟩
      intro divided _
      cases divided with
      | none => exact neverAsserts_ok _
      | some a => simp [hreduce]
  have hdescramble (indxr indxc : List Nat) (a : List Gf) :
      NeverAsserts (descramble k indxr indxc a) := by
    simp [descramble, swapColumns, hpos]
  unfold matrixInv
  simp only [neverAsserts_bind]
  refine ⟨neverAsserts_forLeave hcolumn _ _, fun d _ => ?_⟩
  cases d with
  | next s => simp [hdescramble]
  | leave a => exact neverAsserts_ok _

/-! ## The three functions -/

theorem neverAsserts_fecNew (k n : UInt32) : NeverAsserts (fecNew k n) := by
  have hpower (i j : Nat) : NeverAsserts (power i j) := neverAsserts_load _ _
  have hfill : NeverAsserts (fillTmp k n) := by
    simp [fillTmp, neverAsserts_fillRows hpower]
  simp [fecNew, cassert_literal, hfill, neverAsserts_matrixInvVandermonde, neverAsserts_matrixMul,
    neverAsserts_fillRows]

theorem neverAsserts_fecEncode (fec : FecT) (src : List (List Gf)) (dst : List Gf)
    (idx len : UInt32) : NeverAsserts (fecEncode fec src dst idx len) := by
  simp [fecEncode, cassert_literal, neverAsserts_gfAddMul]

theorem neverAsserts_fecDecodeMatrix (fec : FecT) (matrix : List Gf) (idxs : List UInt32) :
    NeverAsserts (fecDecodeMatrix fec matrix idxs) := by
  simp [fecDecodeMatrix, cassert_literal, neverAsserts_matrixInv]

/-! ## What the checks achieve -/

/-- A parameter structure for `k` of `n` packets. -/
structure Sized (fec : FecT) (k n : UInt32) : Prop where
  fecK : fec.k = k
  fecN : fec.n = n
  length : fec.genMatrix.length = k.toNat * n.toNat

/-- A failed assertion stops every call that would use a row from `n` on, and `fec_new` where
the parameters are out of range or the number of parity rows wraps. -/
structure Guarded (k n idx : UInt32) (idxs : List UInt32) : Prop where
  new : n < k ∨ 256 < k ∨ 256 < n → fecNew k n = .error .assertion
  parity : fecNew k n ≠ .error .assertion → (n - k).toNat + k.toNat = n.toNat
  encode : ∀ fec src dst len, Sized fec k n → n ≤ idx →
    fecEncode fec src dst idx len = .error .assertion
  decode : ∀ fec matrix, Sized fec k n → matrix.length = k.toNat * k.toNat →
    (∃ x ∈ idxs.take k.toNat, n ≤ x) → fecDecodeMatrix fec matrix idxs = .error .assertion

theorem exists_sized (k n : UInt32) : ∃ fec, Sized fec k n :=
  ⟨⟨k, n, List.replicate (k.toNat * n.toNat) 0⟩, rfl, rfl, List.length_replicate⟩

variable {k n idx : UInt32} {idxs : List UInt32}

theorem not_guarded_of_new (h : n < k ∨ 256 < k ∨ 256 < n) : ¬ Guarded k n idx idxs := fun hg =>
  neverAsserts_fecNew k n (hg.new h)

/-- The checks guard the calls whose parameters are in range, and no others. -/
theorem guarded_iff (k n idx : UInt32) (idxs : List UInt32) : Guarded k n idx idxs ↔
    k ≤ n ∧ k ≤ 256 ∧ n ≤ 256 ∧ idx < n ∧ ∀ x ∈ idxs.take k.toNat, x < n := by
  constructor
  · intro h
    obtain ⟨fec, hfec⟩ := exists_sized k n
    refine ⟨?_, ?_, ?_, ?_, fun x hx => ?_⟩
    · exact UInt32.not_lt.mp fun hlt => not_guarded_of_new (.inl hlt) h
    · exact UInt32.not_lt.mp fun hlt => not_guarded_of_new (.inr (.inl hlt)) h
    · exact UInt32.not_lt.mp fun hlt => not_guarded_of_new (.inr (.inr hlt)) h
    · refine UInt32.not_le.mp fun hle => ?_
      exact neverAsserts_fecEncode fec [] [] idx 0 (h.encode fec [] [] 0 hfec hle)
    · refine UInt32.not_le.mp fun hle => ?_
      exact neverAsserts_fecDecodeMatrix fec _ idxs
        (h.decode fec (List.replicate _ 0) hfec List.length_replicate ⟨x, hx, hle⟩)
  · intro h
    obtain ⟨hkn, hk, hn, hidx, hidxs⟩ := h
    refine ⟨fun hbad => ?_, fun _ => ?_, fun _ _ _ _ _ hle => ?_, fun _ _ _ _ hbad => ?_⟩
    · rcases hbad with hlt | hlt | hlt
      · exact absurd hkn (UInt32.not_le.mpr hlt)
      · exact absurd hk (UInt32.not_le.mpr hlt)
      · exact absurd hn (UInt32.not_le.mpr hlt)
    · rw [UInt32.toNat_sub_of_le _ _ hkn, Nat.sub_add_cancel (UInt32.le_iff_toNat_le.mp hkn)]
    · exact absurd hidx (UInt32.not_lt.mpr hle)
    · obtain ⟨x, hx, hle⟩ := hbad
      exact absurd (hidxs x hx) (UInt32.not_lt.mpr hle)

/-- Two source packets in a code of one packet. -/
theorem guarded_fails : ¬ Guarded 2 1 0 [] := not_guarded_of_new (.inl (by decide))

end RtpSdr.Fec.Guards
