import RtpSdr.Rtp.PacketOutput

/-!
# What the header serializer writes

The size function and the serializer agree on where everything is, and the serializer
ends wherever its counter of eight bits can reach the number of extension words.
-/
namespace RtpSdr.Rtp.HeaderOutput

open RtpSdr.Lib.Checked
open RtpSdr.Lib.Memory
open RtpSdr.Lib.BigEndian
open RtpSdr.Rtp.Util
open RtpSdr.Rtp.EntryList
open RtpSdr.Rtp.Header
open RtpSdr.Rtp.PacketOutput

/-- The lists of a header. The extension words matter where the flag announces them. -/
structure Carried (header : RtpHeader) (csrc ws : List UInt32) : Prop where
  csrc : Held header.cc header.csrc csrc
  words : header.x ≠ 0 → header.extCount.toNat = ws.length ∧ (ws ≠ [] → header.extData = .obj ws)

/-- In every buffer with room for the header the serializer ends. It returns the size, leaves
the bytes behind it alone, and every word stands at its own offset. -/
def FillsItsSize (header : RtpHeader) (csrc ws : List UInt32) : Prop :=
  ∀ buffer size, rtpHeaderSize header ≤ size → size ≤ buffer.length →
    ∃ fuel out, rtpHeaderSerialize fuel header buffer size = .ok (rtpHeaderSize header, out) ∧
      out.length = buffer.length ∧
      out.drop (rtpHeaderSize header) = buffer.drop (rtpHeaderSize header) ∧
      (∀ i (hi : i < csrc.length), readU32 out (12 + 4 * i) = .ok csrc[i]) ∧
      (header.x ≠ 0 → ∀ i (hi : i < ws.length),
        readU32 out (12 + 4 * csrc.length + 4 + 4 * i) = .ok ws[i])

variable {header : RtpHeader} {csrc ws : List UInt32} {c : Content}

/-! ## Where the words are -/

theorem readU32_encode_csrc (rest : List UInt8) {i : Nat} (hi : i < c.csrc.length) :
    readU32 (encode c ++ rest) (12 + 4 * i) = .ok c.csrc[i] :=
  readU32_words (drop_encode c rest) hi

theorem drop_encode_ext (rest : List UInt8) {id : UInt16} {ws : List UInt32}
    (he : c.ext = some (id, ws)) :
    (encode c ++ rest).drop (12 + 4 * c.csrc.length + 4) = words ws ++ rest := by
  have hext := drop_add _ (drop_encode c rest)
  rw [length_words, he, extBytes, List.append_assoc] at hext
  have hwords := drop_add _ hext
  rwa [List.length_append, length_bytes, length_bytes] at hwords

theorem readU32_encode_ext (rest : List UInt8) {id : UInt16} {ws : List UInt32}
    (he : c.ext = some (id, ws)) {i : Nat} (hi : i < ws.length) :
    readU32 (encode c ++ rest) (12 + 4 * c.csrc.length + 4 + 4 * i) = .ok ws[i] :=
  readU32_words (drop_encode_ext rest he) hi

/-! ## The serializer -/

theorem Carried.holds (h : Carried header csrc ws) :
    Holds (normal header) (contentOf header csrc ws) := holds_normal h.csrc h.words

theorem Carried.size_eq (h : Carried header csrc ws) :
    rtpHeaderSize header = (contentOf header csrc ws).size := by
  rw [← rtpHeaderSize_normal, h.holds.size_eq]

/-- Words that are announced are in the content. -/
theorem Carried.extOf_eq (h : Carried header csrc ws) (hx : header.x ≠ 0) (hne : ws ≠ []) :
    extOf header ws = some (header.extId, ws) := by
  apply if_pos
  refine ⟨hx, fun hzero => hne ?_⟩
  have hcount := (h.words hx).1
  rw [hzero] at hcount
  exact List.length_eq_zero_iff.mp hcount.symm

/-- A header of few extension words goes to the front of the buffer. -/
theorem Carried.serialize (h : Carried header csrc ws)
    (hshort : header.x ≠ 0 → header.extCount.toNat ≤ 255) (buffer : List UInt8) {size : Nat}
    (hsize : rtpHeaderSize header ≤ size) (hbuffer : size ≤ buffer.length) :
    rtpHeaderSerialize 256 header buffer size = .ok (rtpHeaderSize header,
      encode (contentOf header csrc ws) ++ buffer.drop (rtpHeaderSize header)) := by
  have hwords : ∀ id us, (contentOf header csrc ws).ext = some (id, us) → us.length ≤ 255 := by
    intro id us he
    obtain ⟨⟨hx, -⟩, -, rfl⟩ := extOf_eq_some he
    rw [← (h.words hx).1]
    exact hshort hx
  have hle := h.holds.size_le
  rw [h.size_eq] at hsize ⊢
  rw [← rtpHeaderSerialize_normal, rtpHeaderSerialize_ok h.holds hwords buffer hsize (by omega),
    castInt_of_lt (by omega)]

theorem Carried.fillsItsSize (h : Carried header csrc ws)
    (hshort : header.x ≠ 0 → header.extCount.toNat ≤ 255) : FillsItsSize header csrc ws := by
  intro buffer size hsize hbuffer
  have hlen : (encode (contentOf header csrc ws)).length = rtpHeaderSize header := by
    rw [length_encode, h.size_eq]
  refine ⟨256, _, h.serialize hshort buffer hsize hbuffer, ?_, ?_, ?_, ?_⟩
  · rw [List.length_append, List.length_drop, hlen]
    omega
  · exact List.drop_left' hlen
  · exact fun i hi => readU32_encode_csrc _ hi
  · intro hx i hi
    have hsome := h.extOf_eq hx (List.ne_nil_of_length_pos (by omega))
    exact readU32_encode_ext (c := contentOf header csrc ws) _ hsome hi

/-- The counter wraps before it reaches the end of a long extension. -/
theorem Carried.not_fillsItsSize (h : Carried header csrc ws) (hx : header.x ≠ 0)
    (hlong : 255 < header.extCount.toNat) : ¬ FillsItsSize header csrc ws := by
  intro hfills
  rw [(h.words hx).1] at hlong
  have hsome := h.extOf_eq hx (List.ne_nil_of_length_pos (by omega))
  have hsize := h.size_eq
  obtain ⟨fuel, out, hrun, -⟩ := hfills (List.replicate (rtpHeaderSize header) 0) _
    (Nat.le_refl _) (by rw [List.length_replicate])
  rw [← rtpHeaderSerialize_normal] at hrun
  exact rtpHeaderSerialize_diverges (c := contentOf header csrc ws) h.holds hsome hlong fuel
    (by omega) _ hrun

/-- The serializer fills its size exactly if it has at most 255 extension words to write. -/
theorem fillsItsSize_iff (h : Carried header csrc ws) :
    FillsItsSize header csrc ws ↔ (header.x ≠ 0 → header.extCount.toNat ≤ 255) := by
  constructor
  · intro hfills hx
    by_contra hlong
    exact h.not_fillsItsSize hx (Nat.lt_of_not_le hlong) hfills
  · exact h.fillsItsSize

/-- A header with `n` extension words. -/
def extended (n : Nat) : RtpHeader :=
  { rtpHeaderCreate with
    x := 1
    extCount := UInt16.ofNat n
    extData := .obj (List.replicate n 0) }

theorem carried_extended {n : Nat} (h : n < 65536) :
    Carried (extended n) [] (List.replicate n 0) := by
  constructor
  · exact held_nil _
  · intro _
    refine ⟨?_, fun _ => rfl⟩
    rw [List.length_replicate]
    exact (UInt16.toNat_ofNat' ..).trans (Nat.mod_eq_of_lt h)

/-- Two contributing sources and an extension of two words. -/
theorem fillsItsSize_two :
    Carried { rtpHeaderCreate with
      cc := 2, csrc := .obj [7, 0x80000000], x := 1, extCount := 2, extData := .obj [5, 6] }
      [7, 0x80000000] [5, 6] ∧
    FillsItsSize { rtpHeaderCreate with
      cc := 2, csrc := .obj [7, 0x80000000], x := 1, extCount := 2, extData := .obj [5, 6] }
      [7, 0x80000000] [5, 6] := by
  have hcarried : Carried { rtpHeaderCreate with
      cc := 2, csrc := .obj [7, 0x80000000], x := 1, extCount := 2, extData := .obj [5, 6] }
      [7, 0x80000000] [5, 6] := ⟨held_obj rfl, fun _ => ⟨rfl, fun _ => rfl⟩⟩
  exact ⟨hcarried, (fillsItsSize_iff hcarried).mpr fun _ => by decide⟩

/-- With 256 words the loop over them does not end. -/
theorem fillsItsSize_fails : Carried (extended 256) [] (List.replicate 256 0) ∧
    ¬ FillsItsSize (extended 256) [] (List.replicate 256 0) :=
  ⟨carried_extended (by decide),
    (carried_extended (by decide)).not_fillsItsSize (by decide) (by decide)⟩

end RtpSdr.Rtp.HeaderOutput
