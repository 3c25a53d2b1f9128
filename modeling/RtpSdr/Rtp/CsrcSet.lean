import Mathlib.Data.List.Nodup
import RtpSdr.Rtp.HeaderEdit

/-!
# The contributing sources of a header

A list without duplicates of at most fifteen identifiers. The functions that add and remove
one keep to it until a sixteenth is added: the check for a full list compares the count of
four bits with 255. A removal reads the word behind the list.
-/
namespace RtpSdr.Rtp.CsrcSet

open RtpSdr.Lib.Checked
open RtpSdr.Lib.Memory
open RtpSdr.Rtp.Util
open RtpSdr.Rtp.EntryList
open RtpSdr.Rtp.Header
open RtpSdr.Rtp.HeaderEdit

/-- A call on a header; `behind` are the words that a removal may read behind the list. -/
inductive Call where
  | add (csrc : UInt32)
  | remove (csrc : UInt32) (behind : List UInt32)

/-- What the call returns, if anything, and the header afterwards. -/
def call (header : RtpHeader) : Call → Exec (Option Int × RtpHeader)
  | .add csrc => do
    let (r, header) ← rtpHeaderAddCsrc header csrc
    .ok (some r, header)
  | .remove csrc behind => do
    let header ← rtpHeaderRemoveCsrc header csrc behind
    .ok (none, header)

/-! ## The abstract list -/

/-- What a call returns for a bounded list without duplicates, and the list afterwards. -/
def spec (xs : List UInt32) : Call → Option Int × List UInt32
  | .add csrc =>
    if csrc ∈ xs ∨ xs.length = 15 then (some RTP_ERROR, xs) else (some RTP_OK, xs ++ [csrc])
  | .remove csrc _ => (none, xs.erase csrc)

/-- The header with a list; the rest of it is that of `base`. -/
def withCsrc (base : RtpHeader) (xs : List UInt32) : RtpHeader :=
  { base with cc := BitVec.ofNat 4 xs.length, csrc := .ofList xs }

/-- The header is the one with the list. -/
structure Represents (base header : RtpHeader) (xs : List UInt32) : Prop where
  header : header = withCsrc base xs
  nodup : xs.Nodup
  bounded : xs.length ≤ 15

/-- A new identifier finds room, and a word behind the list can be read when one is removed. -/
def Regular (xs : List UInt32) : Call → Prop
  | .add csrc => xs.length = 15 → csrc ∈ xs
  | .remove csrc behind => csrc ∈ xs → behind ≠ []

instance Regular.decidable (xs : List UInt32) : (c : Call) → Decidable (Regular xs c)
  | .add csrc => inferInstanceAs (Decidable (xs.length = 15 → csrc ∈ xs))
  | .remove csrc behind => inferInstanceAs (Decidable (csrc ∈ xs → behind ≠ []))

variable {base header : RtpHeader} {xs : List UInt32} {csrc : UInt32}

theorem Represents.held (h : Represents base header xs) : Held header.cc header.csrc xs := by
  have hle := h.bounded
  rw [h.header]
  apply held_ofList
  exact (BitVec.toNat_ofNat ..).trans (Nat.mod_eq_of_lt (by omega))

/-- A header whose list was replaced. -/
theorem Represents.replace (h : Represents base header xs) {ys : List UInt32} {cc : BitVec 4}
    (hcc : cc.toNat = ys.length) (hnodup : ys.Nodup) :
    Represents base { header with cc := cc, csrc := .ofList ys } ys := by
  have hheld : Held cc (.ofList ys) ys := held_ofList hcc
  have hlt := hheld.length_lt
  constructor
  · rw [h.header, hheld.count_eq]
    rfl
  · exact hnodup
  · omega

/-! ## The calls -/

theorem rtpHeaderAddCsrc_present (h : Represents base header xs) (hin : csrc ∈ xs) :
    rtpHeaderAddCsrc header csrc = .ok (RTP_ERROR, header) := by
  have hentry : addEntry header.cc header.csrc 0 (· == csrc) csrc = .ok none :=
    addEntry_present h.held (by decide) (exists_beq_iff.mpr hin)
  rw [rtpHeaderAddCsrc, bind_of_ok hentry]

theorem rtpHeaderAddCsrc_new (h : Represents base header xs) (hin : csrc ∉ xs)
    (hlt : xs.length < 15) :
    ∃ header', rtpHeaderAddCsrc header csrc = .ok (RTP_OK, header') ∧
      Represents base header' (xs ++ [csrc]) := by
  obtain ⟨cc, hentry, hheld⟩ :=
    addEntry_new h.held (by decide) 0 csrc (by omega) (mt exists_beq_iff.mp hin)
  have hnodup : (xs ++ [csrc]).Nodup := by
    rw [← List.concat_eq_append]
    exact h.nodup.concat hin
  refine ⟨_, by rw [rtpHeaderAddCsrc, bind_of_ok hentry], ?_⟩
  rw [← Ptr.ofList_of_ne_nil (List.concat_ne_nil csrc xs)]
  exact h.replace hheld.count hnodup

/-- The count of a sixteenth identifier is zero, and it goes in front of the array. -/
theorem rtpHeaderAddCsrc_full (h : Represents base header xs) (hin : csrc ∉ xs)
    (hfull : xs.length = 15) : rtpHeaderAddCsrc header csrc = .error .bounds := by
  have hentry : addEntry header.cc header.csrc 0 (· == csrc) csrc = .error .bounds :=
    addEntry_full h.held (by decide) (by decide) (by omega) (mt exists_beq_iff.mp hin)
  rw [rtpHeaderAddCsrc, hentry, error_bind]

theorem rtpHeaderRemoveCsrc_absent (h : Represents base header xs) (hin : csrc ∉ xs)
    (behind : List UInt32) : rtpHeaderRemoveCsrc header csrc behind = .ok header := by
  have hfound := h.held.search (· == csrc)
  rw [search_of_notMem hin] at hfound
  rw [rtpHeaderRemoveCsrc, rtpHeaderFindCsrc, bind_of_ok hfound]

theorem rtpHeaderRemoveCsrc_present (h : Represents base header xs) (hin : csrc ∈ xs) (b : UInt32)
    (behind : List UInt32) :
    ∃ header', rtpHeaderRemoveCsrc header csrc (b :: behind) = .ok header' ∧
      Represents base header' (xs.erase csrc) := by
  obtain ⟨i, hi, hfound, herase⟩ := exists_index hin
  obtain ⟨cc, hremove, hcc⟩ := removeEntry_eq h.held b behind 0 hi
  refine ⟨{ header with cc := cc, csrc := .ofList (xs.eraseIdx i) }, ?_, ?_⟩
  · rw [rtpHeaderRemoveCsrc, rtpHeaderFindCsrc, bind_of_ok (h.held.search _), hfound]
    dsimp only
    rw [bind_of_ok hremove]
  · rw [herase]
    exact h.replace hcc (h.nodup.eraseIdx i)

theorem rtpHeaderRemoveCsrc_fault (h : Represents base header xs) (hin : csrc ∈ xs) :
    rtpHeaderRemoveCsrc header csrc [] = .error .bounds := by
  obtain ⟨i, hi, hfound, -⟩ := exists_index hin
  rw [rtpHeaderRemoveCsrc, rtpHeaderFindCsrc, bind_of_ok (h.held.search _), hfound]
  dsimp only
  rw [removeEntry_fault h.held 0 hi, error_bind]

/-! ## Runs -/

theorem call_conforms (h : Represents base header xs) {c : Call} (hregular : Regular xs c) :
    ∃ header', call header c = .ok ((spec xs c).1, header') ∧
      Represents base header' (spec xs c).2 := by
  cases c with
  | add csrc =>
    rw [call, spec]
    by_cases hin : csrc ∈ xs
    · rw [if_pos (.inl hin), bind_of_ok (rtpHeaderAddCsrc_present h hin)]
      exact ⟨header, rfl, h⟩
    · have hle := h.bounded
      have hlen : xs.length ≠ 15 := fun hfull => hin (hregular hfull)
      obtain ⟨header', hrun, hrep⟩ := rtpHeaderAddCsrc_new h hin (by omega)
      rw [if_neg (not_or.mpr ⟨hin, hlen⟩), bind_of_ok hrun]
      exact ⟨header', rfl, hrep⟩
  | remove csrc behind =>
    rw [call, spec]
    by_cases hin : csrc ∈ xs
    · obtain ⟨b, rest, rfl⟩ := List.exists_cons_of_ne_nil (hregular hin)
      obtain ⟨header', hrun, hrep⟩ := rtpHeaderRemoveCsrc_present h hin b rest
      rw [bind_of_ok hrun]
      exact ⟨header', rfl, hrep⟩
    · rw [bind_of_ok (rtpHeaderRemoveCsrc_absent h hin behind), List.erase_of_not_mem hin]
      exact ⟨header, rfl, h⟩

theorem call_fault (h : Represents base header xs) {c : Call} (hregular : ¬ Regular xs c) :
    call header c = .error .bounds := by
  cases c with
  | add csrc =>
    obtain ⟨hfull, hin⟩ := Classical.not_imp.mp hregular
    rw [call, rtpHeaderAddCsrc_full h hin hfull, error_bind]
  | remove csrc behind =>
    obtain ⟨hin, hnil⟩ := Classical.not_imp.mp hregular
    rw [not_not.mp hnil, call, rtpHeaderRemoveCsrc_fault h hin, error_bind]

theorem represents_init (pt : UInt8) (ssrc : UInt32) (seq : UInt16) (ts : UInt32) :
    Represents (rtpHeaderInit rtpHeaderCreate pt ssrc seq ts)
      (rtpHeaderInit rtpHeaderCreate pt ssrc seq ts) [] :=
  ⟨rfl, List.nodup_nil, Nat.zero_le 15⟩

theorem conforms_iff (h : Represents base header xs) (calls : List Call) :
    Conforms call spec (Represents base) header xs calls ↔
      Along (fun xs c => (spec xs c).2) Regular xs calls := by
  apply conforms_iff_along
  · exact fun header xs c hrep hregular => call_conforms hrep hregular
  · intro header xs c hrep hregular header' hrun
    rw [call_fault hrep hregular] at hrun
    cases hrun
  · exact h

/-- From create and init on the calls keep a bounded set, as long as no sixteenth identifier is
added and every removal can read a word behind the list. -/
theorem csrcSet_iff (pt : UInt8) (ssrc : UInt32) (seq : UInt16) (ts : UInt32)
    (calls : List Call) :
    Conforms call spec (Represents (rtpHeaderInit rtpHeaderCreate pt ssrc seq ts))
        (rtpHeaderInit rtpHeaderCreate pt ssrc seq ts) [] calls ↔
      Along (fun xs c => (spec xs c).2) Regular [] calls :=
  conforms_iff (represents_init pt ssrc seq ts) calls

/-- Sixteen different identifiers are one too many. -/
theorem csrcSet_fails :
    ¬ Conforms call spec (Represents (rtpHeaderInit rtpHeaderCreate 0 0 0 0))
      (rtpHeaderInit rtpHeaderCreate 0 0 0 0) []
      ((List.range 16).map fun i => .add (UInt32.ofNat i)) := by
  rw [conforms_iff (represents_init 0 0 0 0)]
  decide

end RtpSdr.Rtp.CsrcSet
