import RtpSdr.Lib.Memory

/-!
# Lists of entries with a count of a few bits

Reports, sources and SDES entries are kept the same way: an array, and a count of five bits
in the header. The functions that add an entry, one for each type, are one function of the
search and of the entry; two of those that remove one are as well. The contributing sources
of an RTP header have a count of four bits.
-/
namespace RtpSdr.Rtp.EntryList

open RtpSdr.Lib.Checked
open RtpSdr.Lib.Memory

variable {α : Type} {w : Nat}

section Source

/-- The count and the array after an entry was added, nothing at an error. `fresh` is what a
new cell holds until it is written. -/
def addEntry (count : BitVec w) (entries : Ptr (List α)) (fresh : α) (test : α → Bool)
    (entry : α) : Exec (Option (BitVec w × List α)) :=
  if count = 0 then do
    let xs ← storeLast (realloc [] 1 fresh) 1 entry
    .ok (some (1, xs))
  else if count.toNat = 0xff then .ok none
  else do
    let found ← find entries count.toNat test
    if found.isSome then .ok none
    else do
      let count := count + 1
      let xs ← entries.deref
      let xs ← storeLast (realloc xs count.toNat fresh) count.toNat entry
      .ok (some (count, xs))

/-- The end of the functions that remove the entry at an index: the count and the array. -/
def shrink (count : BitVec w) (xs : List α) (fresh : α) : BitVec w × Ptr (List α) :=
  if count - 1 > 0 then (count - 1, .obj (realloc xs (count - 1).toNat fresh))
  else (count - 1, .null)

def removeEntry (count : BitVec w) (entries : Ptr (List α)) (behind : List α) (fresh : α)
    (index : Nat) : Exec (BitVec w × Ptr (List α)) := do
  let xs ← entries.deref
  let xs ← memmove xs behind index (index + 1) (count.toNat - index)
  .ok (shrink count xs fresh)

end Source

theorem toNat_zero (w : Nat) : (0 : BitVec w).toNat = 0 := BitVec.toNat_zero

theorem toNat_one (h : 1 < 2 ^ w) : (1 : BitVec w).toNat = 1 :=
  (BitVec.toNat_ofNat 1 w).trans (Nat.mod_eq_of_lt h)

/-- A count and an array that hold the list `xs`. -/
structure Held (count : BitVec w) (entries : Ptr (List α)) (xs : List α) : Prop where
  count : count.toNat = xs.length
  entries : xs ≠ [] → entries = .obj xs

variable {count : BitVec w} {entries : Ptr (List α)} {xs : List α} {fresh entry : α}
  {test : α → Bool} {i : Nat}

theorem held_nil (entries : Ptr (List α)) : Held (0 : BitVec w) entries ([] : List α) :=
  ⟨toNat_zero w, fun h => absurd rfl h⟩

theorem held_obj (h : count.toNat = xs.length) : Held count (.obj xs) xs := ⟨h, fun _ => rfl⟩

/-- The array has as many entries as are counted, and perhaps more. -/
def Covered (count : BitVec w) (entries : Ptr (List α)) : Prop :=
  count.toNat ≤ entries.elements.length

instance (count : BitVec w) (entries : Ptr (List α)) : Decidable (Covered count entries) :=
  inferInstanceAs (Decidable (_ ≤ _))

/-- The front of it is a list. -/
theorem Covered.held (h : Covered count entries) :
    Held count (.obj (entries.elements.take count.toNat)) (entries.elements.take count.toNat) :=
  held_obj (List.length_take_of_le h).symm

/-- An entry that is counted is read from the front. -/
theorem Covered.bind_load (h : Covered count entries) {i : Nat} (hi : i < count.toNat) {β : Type}
    (f : α → Exec β) :
    (entries.deref >>= fun xs => load xs i >>= f)
      = load (entries.elements.take count.toNat) i >>= f := by
  have hne : entries.elements ≠ [] := List.ne_nil_of_length_pos (by unfold Covered at h; omega)
  rw [Ptr.eq_obj_of_elements hne, Ptr.deref_obj, ok_bind, Ptr.elements_obj, load_take hi]

theorem held_ofList (h : count.toNat = xs.length) : Held count (.ofList xs) xs :=
  ⟨h, Ptr.ofList_of_ne_nil⟩

theorem Held.eq_of_ofList {ys : List α} (h : Held count (.ofList xs) ys)
    (hcount : count.toNat = xs.length) : xs = ys := by
  have hlen := hcount.symm.trans h.count
  cases xs with
  | nil => exact (List.eq_nil_of_length_eq_zero hlen.symm).symm
  | cons x xs =>
    have hne : ys ≠ [] := List.ne_nil_of_length_pos (by rw [← hlen]; exact Nat.succ_pos _)
    exact Ptr.obj.inj (h.entries hne)

/-- The count of a list that it can express. -/
theorem Held.count_eq (h : Held count entries xs) : count = BitVec.ofNat w xs.length := by
  rw [← h.count, BitVec.ofNat_toNat, BitVec.setWidth_eq]

theorem Held.length_lt (h : Held count entries xs) : xs.length < 2 ^ w := by
  rw [← h.count]
  exact count.isLt

theorem Held.length_le {count : BitVec 5} (h : Held count entries xs) : xs.length ≤ 31 :=
  Nat.le_of_lt_succ h.length_lt

theorem Held.eq_nil (h : Held count entries xs) (hzero : count = 0) : xs = [] := by
  have hcount := h.count
  rw [hzero, toNat_zero] at hcount
  exact List.eq_nil_of_length_eq_zero hcount.symm

theorem Held.ne_zero (h : Held count entries xs) (hne : xs ≠ []) : count ≠ 0 :=
  fun hzero => hne (h.eq_nil hzero)

theorem Held.deref (h : Held count entries xs) (hne : xs ≠ []) : entries.deref = .ok xs := by
  rw [h.entries hne, Ptr.deref_obj]

theorem Held.search (h : Held count entries xs) (test : α → Bool) :
    find entries count.toNat test = .ok (xs.findIdx? test) := by
  rw [h.count, find_ok h.entries]

/-- The bound that the code checks is out of reach of a count of a few bits. -/
theorem Held.count_ne (h : Held count entries xs) (hw : w < 8) : count.toNat ≠ 0xff := by
  have hlt := h.length_lt
  have hpow : 2 ^ w ≤ 2 ^ 7 := Nat.pow_le_pow_right (by decide) (Nat.le_of_lt_succ hw)
  rw [h.count]
  omega

theorem storeLast_zero (xs : List α) (a : α) : storeLast xs 0 a = .error .bounds := rfl

/-! ## Adding -/

theorem addEntry_present (h : Held count entries xs) (hw : w < 8) (hin : ∃ x ∈ xs, test x = true) :
    addEntry count entries fresh test entry = .ok none := by
  obtain ⟨x, hx, htest⟩ := hin
  have hfound : (xs.findIdx? test).isSome = true := by
    rw [List.findIdx?_isSome, List.any_eq_true]
    exact ⟨x, hx, htest⟩
  rw [addEntry, if_neg (h.ne_zero (List.ne_nil_of_mem hx)), if_neg (h.count_ne hw),
    bind_of_ok (h.search test), if_pos hfound]

/-- A search for what is not there. -/
theorem findIdx?_of_new (hnew : ¬ ∃ x ∈ xs, test x = true) : xs.findIdx? test = none := by
  rw [List.findIdx?_eq_none_iff]
  exact fun x hx => eq_false_of_ne_true fun htest => hnew ⟨x, hx, htest⟩

/-- A search for a key that no element has. -/
theorem search_key_eq_none {κ : Type} [BEq κ] [LawfulBEq κ] (xs : List α) (key : α → κ) (k : κ) :
    (xs.findIdx? fun x => key x == k) = none ↔ k ∉ xs.map key := by
  rw [List.findIdx?_eq_none_iff, List.mem_map, not_exists]
  constructor
  · intro h x hx
    have hne := h x hx.1
    rw [hx.2, beq_self_eq_true] at hne
    cases hne
  · intro h x hx
    exact beq_false_of_ne fun heq => h x ⟨hx, heq⟩

/-- With distinct keys, the list without the key that was found. -/
theorem filter_key_eq_eraseIdx {κ : Type} [BEq κ] [LawfulBEq κ] {key : α → κ} {k : κ}
    (hnodup : (xs.map key).Nodup) (hfound : (xs.findIdx? fun x => key x == k) = some i) :
    (xs.filter fun x => key x != k) = xs.eraseIdx i := by
  induction xs generalizing i with
  | nil => cases hfound
  | cons x xs ih =>
    rw [List.map_cons, List.nodup_cons] at hnodup
    rw [List.findIdx?_cons] at hfound
    by_cases hkey : key x = k
    · rw [hkey, beq_self_eq_true, if_pos rfl] at hfound
      cases hfound
      rw [List.filter_cons_of_neg (by simp [hkey]), List.eraseIdx_zero, List.tail_cons,
        List.filter_eq_self]
      intro y hy
      rw [bne_iff_ne]
      rintro rfl
      exact hnodup.1 (hkey ▸ List.mem_map_of_mem hy)
    · rw [beq_false_of_ne hkey, if_neg Bool.false_ne_true, Option.map_eq_some_iff] at hfound
      obtain ⟨j, hj, rfl⟩ := hfound
      rw [List.filter_cons_of_pos (by simp [hkey]), ih hnodup.2 hj, List.eraseIdx_cons_succ]

section Search

variable [DecidableEq α] {a : α}

theorem exists_beq_iff : (∃ x ∈ xs, (x == a) = true) ↔ a ∈ xs := by
  simp only [beq_iff_eq, exists_eq_right]

theorem search_of_mem (hin : a ∈ xs) : xs.findIdx? (· == a) = some (xs.idxOf a) :=
  List.findIdx?_eq_some_of_exists (exists_beq_iff.mpr hin)

theorem search_of_notMem (hin : a ∉ xs) : xs.findIdx? (· == a) = none :=
  findIdx?_of_new (mt exists_beq_iff.mp hin)

/-- The index of an element, and the list without it. -/
theorem exists_index (hin : a ∈ xs) :
    ∃ i, i < xs.length ∧ xs.findIdx? (· == a) = some i ∧ xs.erase a = xs.eraseIdx i := by
  have hfound : xs.idxOf? a = some (xs.idxOf a) := search_of_mem hin
  refine ⟨xs.idxOf a, List.idxOf_lt_length_of_mem hin, hfound, ?_⟩
  rw [List.erase_eq_eraseIdx, hfound]

end Search

theorem addEntry_new (h : Held count entries xs) (hw : w < 8) (fresh entry : α)
    (hlt : xs.length + 1 < 2 ^ w) (hnew : ¬ ∃ x ∈ xs, test x = true) :
    ∃ count', addEntry count entries fresh test entry = .ok (some (count', xs ++ [entry])) ∧
      Held count' (.obj (xs ++ [entry])) (xs ++ [entry]) := by
  have hcount := h.count
  have hlen : (xs ++ [entry]).length = xs.length + 1 := List.length_append
  rw [addEntry]
  by_cases hzero : count = 0
  · have hstore : storeLast (realloc [] 1 fresh) 1 entry = .ok [entry] :=
      storeLast_realloc [] fresh entry
    cases h.eq_nil hzero
    rw [if_pos hzero, bind_of_ok hstore]
    exact ⟨1, rfl, held_obj (toNat_one hlt)⟩
  · have hne : xs ≠ [] := by
      intro hnil
      rw [hnil, List.length_nil] at hcount
      exact hzero (BitVec.eq_of_toNat_eq (hcount.trans (toNat_zero w).symm))
    have hcount' : (count + 1).toNat = xs.length + 1 := by
      rw [BitVec.toNat_add, hcount, toNat_one (by omega), Nat.mod_eq_of_lt hlt]
    rw [if_neg hzero, if_neg (h.count_ne hw), bind_of_ok (h.search test), findIdx?_of_new hnew,
      if_neg (by decide), bind_of_ok (h.deref hne), hcount',
      bind_of_ok (storeLast_realloc xs fresh entry)]
    exact ⟨count + 1, rfl, held_obj (by rw [hcount', hlen])⟩

/-- One entry more than the count can express: the count is zero again, and the last cell is at
index -1. -/
theorem addEntry_full (h : Held count entries xs) (hw : w < 8) (hpos : 0 < w)
    (hfull : xs.length + 1 = 2 ^ w) (hnew : ¬ ∃ x ∈ xs, test x = true) :
    addEntry count entries fresh test entry = .error .bounds := by
  have hpow : 1 < 2 ^ w := Nat.one_lt_two_pow hpos.ne'
  have hne : xs ≠ [] := List.ne_nil_of_length_pos (by omega)
  have hcount' : (count + 1).toNat = 0 := by
    rw [BitVec.toNat_add, h.count, toNat_one hpow, hfull, Nat.mod_self]
  rw [addEntry, if_neg (h.ne_zero hne), if_neg (h.count_ne hw), bind_of_ok (h.search test),
    findIdx?_of_new hnew, if_neg (by decide), bind_of_ok (h.deref hne), hcount', storeLast_zero,
    error_bind]

/-- However many entries there were, an added one stands behind some of them, and all are there
that are counted now. -/
theorem addEntry_returns {count' : BitVec w} {ys : List α}
    (hadd : addEntry count entries fresh test entry = .ok (some (count', ys))) :
    Covered count' (.obj ys) ∧ ∀ y ∈ ys, y ∈ entries.elements ∨ y = entry := by
  have hone : (1 : BitVec w).toNat ≤ 1 := (BitVec.toNat_ofNat 1 w).le.trans (Nat.mod_le _ _)
  rw [addEntry] at hadd
  by_cases hzero : count = 0
  · have hstore : storeLast (realloc [] 1 fresh) 1 entry = .ok [entry] :=
      storeLast_realloc [] fresh entry
    rw [if_pos hzero, bind_of_ok hstore] at hadd
    cases hadd
    exact ⟨hone, fun y hy => .inr (List.mem_singleton.mp hy)⟩
  · rw [if_neg hzero] at hadd
    by_cases hfull : count.toNat = 0xff
    · rw [if_pos hfull] at hadd
      cases hadd
    · rw [if_neg hfull] at hadd
      obtain ⟨found, hfind, hadd⟩ := bind_eq_ok.mp hadd
      cases found with
      | some i => cases hadd
      | none =>
        have hle := (find_returns hfind).1 rfl
        rw [if_neg (by decide)] at hadd
        obtain ⟨xs, hderef, hadd⟩ := bind_eq_ok.mp hadd
        obtain ⟨zs, hstore, hadd⟩ := bind_eq_ok.mp hadd
        cases hadd
        rw [Ptr.deref_eq_ok hderef, Ptr.elements_obj] at hle ⊢
        have hlen := (length_of_storeLast hstore).trans (length_realloc _ _ _)
        have hnext : (count + 1).toNat ≤ count.toNat + 1 := by
          rw [BitVec.toNat_add]
          exact (Nat.mod_le _ _).trans (Nat.add_le_add_left hone _)
        refine ⟨hlen.ge, ?_⟩
        generalize (count + 1).toNat = n at hnext hstore
        by_cases hgrow : n = xs.length + 1
        · rw [hgrow, storeLast_realloc] at hstore
          cases hstore
          intro y hy
          rwa [List.mem_append, List.mem_singleton] at hy
        · rw [storeLast] at hstore
          by_cases hnone : n = 0
          · rw [if_pos hnone] at hstore
            cases hstore
          · rw [if_neg hnone] at hstore
            rw [(store_eq_ok hstore).2, realloc, Nat.sub_eq_zero_of_le (by omega),
              List.replicate_zero, List.append_nil]
            intro y hy
            exact (List.mem_or_eq_of_mem_set hy).imp_left List.mem_of_mem_take

/-! ## Removing -/

/-- What is left of an array that may be longer than the count. -/
theorem shrink_take (fresh : α) (hpos : 0 < count.toNat) (hle : count.toNat ≤ xs.length) :
    (count - 1).toNat = count.toNat - 1 ∧
      shrink count xs fresh = (count - 1, .ofList (xs.take (count.toNat - 1))) := by
  have hcount' : (count - 1).toNat = count.toNat - 1 := by
    have hone : (1 : BitVec w).toNat = 1 := toNat_one (by have := count.isLt; omega)
    have hge : 1 ≤ count := by
      rw [BitVec.le_def, hone]
      exact hpos
    rw [BitVec.toNat_sub_of_le hge, hone]
  have hlen : (xs.take (count.toNat - 1)).length = count.toNat - 1 :=
    List.length_take_of_le (by omega)
  have hiff : count - 1 > 0 ↔ 0 < count.toNat - 1 := by
    rw [gt_iff_lt, BitVec.lt_def, hcount', toNat_zero]
  refine ⟨hcount', ?_⟩
  rw [shrink]
  by_cases hzero : count - 1 > 0
  · rw [if_pos hzero, realloc, hcount',
      Nat.sub_eq_zero_of_le (show count.toNat - 1 ≤ xs.length by omega), List.replicate_zero,
      List.append_nil, Ptr.ofList_of_ne_nil (List.ne_nil_of_length_pos (by
        rw [hlen]
        exact hiff.mp hzero))]
  · rw [if_neg hzero, Nat.eq_zero_of_not_pos (mt hiff.mpr hzero), List.take_zero, Ptr.ofList_nil]

/-- Whatever the move left in the array, its last cell goes. -/
theorem shrink_eq (fresh : α) (hcount : count.toNat = xs.length) (hne : xs ≠ []) :
    ∃ count', shrink count xs fresh = (count', .ofList xs.dropLast) ∧
      count'.toNat = xs.dropLast.length := by
  have hpos := List.length_pos_of_ne_nil hne
  have hpos' : 0 < count.toNat := hcount.symm ▸ hpos
  obtain ⟨hcount', hshrink⟩ := shrink_take fresh hpos' hcount.le
  rw [hcount, ← List.dropLast_eq_take] at hshrink
  exact ⟨count - 1, hshrink, by rw [hcount', hcount, List.length_dropLast]⟩

theorem removeEntry_eq (h : Held count entries xs) (b : α) (behind : List α) (fresh : α)
    (hi : i < xs.length) :
    ∃ count', removeEntry count entries (b :: behind) fresh i
        = .ok (count', .ofList (xs.eraseIdx i)) ∧ count'.toNat = (xs.eraseIdx i).length := by
  have hlen : (xs.eraseIdx i ++ [b]).length = xs.length := by
    rw [List.length_append, List.length_eraseIdx_of_lt hi, List.length_singleton]
    omega
  obtain ⟨count', hshrink, hcount'⟩ := shrink_eq fresh (h.count.trans hlen.symm) (by simp)
  rw [List.dropLast_concat] at hshrink hcount'
  refine ⟨count', ?_, hcount'⟩
  rw [removeEntry, bind_of_ok (h.deref (List.ne_nil_of_length_pos (by omega))), h.count,
    bind_of_ok (memmove_tail b behind hi), hshrink]

theorem removeEntry_ok (h : Held count entries xs) (b : α) (behind : List α) (fresh : α)
    (hi : i < xs.length) :
    ∃ count' entries', removeEntry count entries (b :: behind) fresh i = .ok (count', entries') ∧
      Held count' entries' (xs.eraseIdx i) := by
  obtain ⟨count', hrun, hcount'⟩ := removeEntry_eq h b behind fresh hi
  exact ⟨count', _, hrun, held_ofList hcount'⟩

/-- The move reads the cell behind the array. -/
theorem removeEntry_fault (h : Held count entries xs) (fresh : α) (hi : i < xs.length) :
    removeEntry count entries [] fresh i = .error .bounds := by
  rw [removeEntry, bind_of_ok (h.deref (List.ne_nil_of_length_pos (by omega))), h.count,
    memmove_tail_nil hi, error_bind]

theorem shrink_covered (count : BitVec w) (xs : List α) (fresh : α) :
    Covered (shrink count xs fresh).1 (shrink count xs fresh).2 := by
  rw [shrink]
  by_cases hzero : count - 1 > 0
  · rw [if_pos hzero]
    exact (length_realloc xs (count - 1).toNat fresh).ge
  · rw [if_neg hzero]
    have hle : count - 1 ≤ 0 := BitVec.not_lt.mp hzero
    exact hle

theorem removeEntry_covered {behind : List α} {count' : BitVec w} {entries' : Ptr (List α)}
    (hrun : removeEntry count entries behind fresh i = .ok (count', entries')) :
    Covered count' entries' := by
  obtain ⟨xs, -, hrun⟩ := bind_eq_ok.mp hrun
  obtain ⟨ys, -, hrun⟩ := bind_eq_ok.mp hrun
  have hcovered := shrink_covered count ys fresh
  rwa [Except.ok.inj hrun] at hcovered

/-- A removal leaves some of the entries that were there, however many there were. -/
theorem removeEntry_mem {behind : List α} (hi : i < count.toNat) {count' : BitVec w}
    {entries' : Ptr (List α)}
    (hrun : removeEntry count entries behind fresh i = .ok (count', entries')) :
    ∀ y ∈ entries'.elements, y ∈ entries.elements := by
  obtain ⟨xs, hderef, hrun⟩ := bind_eq_ok.mp hrun
  rw [Ptr.deref_eq_ok hderef, Ptr.elements_obj]
  by_cases hmove : i + 1 + (count.toNat - i) ≤ xs.length + behind.length ∧
      i + (count.toNat - i) ≤ xs.length
  · have hle : count.toNat ≤ xs.length := by omega
    rw [memmove_of_le hmove.1 hmove.2, ok_bind] at hrun
    have htake : (xs.take i).length = i := List.length_take_of_le (by omega)
    have hmoved : (((xs ++ behind).drop (i + 1)).take (count.toNat - i)).length
        = count.toNat - i := by
      rw [List.length_take, List.length_drop, List.length_append]
      omega
    have hlen : (put xs i (((xs ++ behind).drop (i + 1)).take (count.toNat - i))).length
        = xs.length := length_put (by rw [hmoved]; exact hmove.2)
    obtain ⟨-, hshrink⟩ := shrink_take fresh (Nat.zero_lt_of_lt hi) (hlen ▸ hle)
    rw [hshrink] at hrun
    cases hrun
    intro y hy
    rw [Ptr.elements_ofList, put, List.append_assoc, List.take_append, htake, List.mem_append] at hy
    cases hy with
    | inl hfront => exact List.mem_of_mem_take (List.mem_of_mem_take hfront)
    | inr hback =>
      rw [List.take_append_of_le_length (by omega), List.take_take,
        Nat.min_eq_left (by omega), List.drop_append_of_le_length (by omega),
        List.take_append_of_le_length (by rw [List.length_drop]; omega)] at hback
      exact List.mem_of_mem_drop (List.mem_of_mem_take hback)
  · rw [memmove_fault hmove] at hrun
    cases hrun

end RtpSdr.Rtp.EntryList
