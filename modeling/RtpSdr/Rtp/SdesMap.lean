import Mathlib.Data.List.Nodup
import RtpSdr.Rtp.SdesOutput

/-!
# Source descriptions as a map

The last text set for a source and a type of item. The packet keeps to it as long as only
the oldest item of an entry is replaced or removed: the move that closes the gap of another
one goes beyond the array. A look-up of a type that an entry does not have follows a null
pointer.
-/
namespace RtpSdr.Rtp.SdesMap

open RtpSdr.Lib.Checked
open RtpSdr.Lib.Memory
open RtpSdr.Rtp.RtcpHeader
open RtpSdr.Rtp.EntryList
open RtpSdr.Rtp.Sdes
open RtpSdr.Rtp.SdesEdit
open RtpSdr.Rtp.SdesOutput

/-! ## The abstract map -/

/-- One item of the map: whether its source is known, and its text if there is one. -/
structure Item where
  known : Bool
  text : Option (List UInt8)

/-- The item after a call. It takes no notice of calls for another source or type. -/
def Item.step (src type : UInt32) (item : Item) : Op → Item
  | .addEntry id => if id = src then { item with known := true } else item
  | .removeEntry _ _ => item
  | .setItem src' type' data _ =>
    if src' = src ∧ type' = type ∧ item.known then { item with text := some (cstring data) }
    else item
  | .clearItem src' type' _ =>
    if src' = src ∧ type' = type then { item with text := none } else item

/-- The last text set for a source and a type, if the item is present. -/
def lastSet (ops : List Op) (src type : UInt32) : Option (List UInt8) :=
  (ops.foldl (Item.step src type) ⟨false, none⟩).text

/-- The length and the text with its terminator, if the item is present and the buffer has room
for them. -/
def answer (text : Option (List UInt8)) (buffer : List UInt8) (size : Nat) : Int × List UInt8 :=
  match text with
  | none => (RTCP_ERROR, buffer)
  | some text =>
    if text.length + 1 ≤ size then (text.length, put buffer 0 (text ++ [0]))
    else (RTCP_ERROR, buffer)

/-- What the calls so far say: the sources in their order, the types of the items that each
has now, the oldest first, and the last text set for a source and a type. -/
structure Described where
  known : List UInt32
  types : UInt32 → List UInt32
  text : UInt32 → UInt32 → List UInt8

namespace Described

def start : Described := ⟨[], fun _ => [], fun _ _ => []⟩

/-- Another list of items for one source. -/
def withItems (d : Described) (src : UInt32) (types : List UInt32) (text : UInt32 → List UInt8) :
    Described :=
  { d with types := Function.update d.types src types, text := Function.update d.text src text }

/-- An item that is set becomes the newest of its source. -/
def step (d : Described) : Op → Described
  | .addEntry id => if id ∈ d.known then d else { d with known := d.known ++ [id] }
  | .removeEntry _ _ => d
  | .setItem src type data _ =>
    if src ∈ d.known then d.withItems src ((d.types src).erase type ++ [type])
      (Function.update (d.text src) type (cstring data))
    else d
  | .clearItem src type _ =>
    if src ∈ d.known then d.withItems src ((d.types src).erase type) (d.text src) else d

/-- The item of a source and a type. -/
def item (d : Described) (src type : UInt32) : Item :=
  ⟨decide (src ∈ d.known), if type ∈ d.types src then some (d.text src type) else none⟩

/-- A source has each of its types once, and an unknown one has none. -/
structure Tidy (d : Described) : Prop where
  unknown : ∀ src, src ∉ d.known → d.types src = []
  nodup : ∀ src, (d.types src).Nodup

variable {d : Described} {src src' type type' : UInt32}

theorem item_withItems_same (d : Described) (src : UInt32) (types : List UInt32)
    (text : UInt32 → List UInt8) (type : UInt32) :
    (d.withItems src types text).item src type
      = ⟨decide (src ∈ d.known), if type ∈ types then some (text type) else none⟩ := by
  simp only [item, withItems, Function.update_self]
  rfl

/-- An item that stays as it is. -/
theorem item_withItems_kept {types : List UInt32} {text : UInt32 → List UInt8}
    (hiff : type ∈ types ↔ type ∈ d.types src) (htext : text type = d.text src type) :
    (d.withItems src types text).item src type = d.item src type := by
  rw [item_withItems_same, htext, item]
  simp only [hiff]

theorem item_withItems_other (hne : src ≠ src') (types : List UInt32)
    (text : UInt32 → List UInt8) (type : UInt32) :
    (d.withItems src' types text).item src type = d.item src type := by
  simp only [item, withItems, Function.update_of_ne hne]
  rfl

theorem tidy_start : Tidy start := ⟨fun _ _ => rfl, fun _ => List.nodup_nil⟩

theorem Tidy.withItems (h : Tidy d) (hin : src ∈ d.known) {types : List UInt32}
    (hnodup : types.Nodup) (text : UInt32 → List UInt8) : Tidy (d.withItems src types text) := by
  constructor
  · intro other hout
    have hne : other ≠ src := fun heq => hout (heq ▸ hin)
    exact (Function.update_of_ne hne ..).trans (h.unknown other hout)
  · intro other
    change (Function.update d.types src types other).Nodup
    by_cases heq : other = src
    · rwa [heq, Function.update_self]
    · rw [Function.update_of_ne heq]
      exact h.nodup other

end Described

open Described

variable {d : Described}

/-- A type that is set is the newest of its source. -/
theorem nodup_newest {types : List UInt32} (h : types.Nodup) (type : UInt32) :
    (types.erase type ++ [type]).Nodup := by
  rw [← List.concat_eq_append]
  exact (h.erase type).concat h.not_mem_erase

theorem Described.Tidy.step (h : Tidy d) (op : Op) : Tidy (d.step op) := by
  cases op with
  | addEntry id =>
    rw [Described.step]
    by_cases hin : id ∈ d.known
    · rwa [if_pos hin]
    · rw [if_neg hin]
      exact ⟨fun src hout => h.unknown src fun hold => hout (List.mem_append_left _ hold), h.nodup⟩
  | removeEntry id behind => exact h
  | setItem src type data behind =>
    rw [Described.step]
    by_cases hin : src ∈ d.known
    · rw [if_pos hin]
      exact h.withItems hin (nodup_newest (h.nodup src) type) _
    · rwa [if_neg hin]
  | clearItem src type behind =>
    rw [Described.step]
    by_cases hin : src ∈ d.known
    · rw [if_pos hin]
      exact h.withItems hin ((h.nodup src).erase type) _
    · rwa [if_neg hin]

theorem item_addEntry (d : Described) (id src type : UInt32) :
    (d.step (.addEntry id)).item src type = (d.item src type).step src type (.addEntry id) := by
  rw [Described.step, Item.step]
  by_cases hin : id ∈ d.known
  · rw [if_pos hin]
    by_cases heq : id = src
    · rw [if_pos heq, item, decide_eq_true (heq ▸ hin)]
    · rw [if_neg heq]
  · rw [if_neg hin]
    by_cases heq : id = src
    · rw [if_pos heq, item, decide_eq_true (List.mem_append_right _ (by rw [heq]; simp))]
      rfl
    · have hiff : src ∈ d.known ++ [id] ↔ src ∈ d.known := by simp [Ne.symm heq]
      rw [if_neg heq, item, item, decide_eq_decide.mpr hiff]

theorem item_setItem (d : Described) (src' type' src type : UInt32) (data : List UInt8)
    (behind : List SdesItem) :
    (d.step (.setItem src' type' data behind)).item src type
      = (d.item src type).step src type (.setItem src' type' data behind) := by
  rw [Described.step, Item.step]
  by_cases hin : src' ∈ d.known
  · rw [if_pos hin]
    by_cases hsrc : src' = src
    · cases hsrc
      by_cases htype : type' = type
      · cases htype
        rw [item_withItems_same, if_pos (List.mem_append_right _ List.mem_cons_self),
          Function.update_self, if_pos ⟨rfl, rfl, decide_eq_true hin⟩]
        rfl
      · have hiff : type ∈ (d.types src').erase type' ++ [type'] ↔ type ∈ d.types src' := by
          simp [List.mem_erase_of_ne (Ne.symm htype), Ne.symm htype]
        rw [item_withItems_kept hiff (Function.update_of_ne (Ne.symm htype) ..),
          if_neg fun hall => htype hall.2.1]
    · rw [item_withItems_other (Ne.symm hsrc), if_neg fun hall => hsrc hall.1]
  · rw [if_neg hin, if_neg]
    intro hall
    obtain ⟨hsrc, -, hknown⟩ := hall
    exact hin (hsrc ▸ of_decide_eq_true hknown)

theorem item_clearItem (h : Tidy d) (src' type' src type : UInt32) (behind : List SdesItem) :
    (d.step (.clearItem src' type' behind)).item src type
      = (d.item src type).step src type (.clearItem src' type' behind) := by
  rw [Described.step, Item.step]
  by_cases hin : src' ∈ d.known
  · rw [if_pos hin]
    by_cases hsrc : src' = src
    · cases hsrc
      by_cases htype : type' = type
      · cases htype
        rw [item_withItems_same, if_neg (h.nodup src').not_mem_erase, if_pos ⟨rfl, rfl⟩]
        rfl
      · have hiff := List.mem_erase_of_ne (l := d.types src') (Ne.symm htype)
        rw [item_withItems_kept hiff rfl, if_neg fun hall => htype hall.2]
    · rw [item_withItems_other (Ne.symm hsrc), if_neg fun hall => hsrc hall.1]
  · rw [if_neg hin]
    by_cases hsame : src' = src ∧ type' = type
    · have habsent : type ∉ d.types src := by
        rw [h.unknown src (hsame.1 ▸ hin)]
        exact List.not_mem_nil
      rw [if_pos hsame, item, if_neg habsent]
    · rw [if_neg hsame]

/-- Every item goes its own way. -/
theorem item_step (h : Tidy d) (op : Op) (src type : UInt32) :
    (d.step op).item src type = (d.item src type).step src type op := by
  cases op with
  | addEntry id => exact item_addEntry d id src type
  | removeEntry id behind => rfl
  | setItem src' type' data behind => exact item_setItem d src' type' src type data behind
  | clearItem src' type' behind => exact item_clearItem h src' type' src type behind

theorem item_foldl (h : Tidy d) (ops : List Op) (src type : UInt32) :
    (ops.foldl step d).item src type = ops.foldl (Item.step src type) (d.item src type) := by
  induction ops generalizing d with
  | nil => rfl
  | cons op ops ih => rw [List.foldl_cons, List.foldl_cons, ih (h.step op), item_step h]

theorem lastSet_eq (ops : List Op) (src type : UInt32) :
    lastSet ops src type = ((ops.foldl step start).item src type).text := by
  rw [item_foldl tidy_start]
  rfl

/-- The calls under consideration: at most 31 entries, and strings of at most 255 characters
for types that a byte can hold. -/
def Legal (d : Described) : Op → Prop
  | .addEntry id => (d.step (.addEntry id)).known.length ≤ 31
  | .removeEntry _ _ => False
  | .setItem _ type data _ =>
    (1 ≤ type.toNat ∧ type.toNat ≤ 255) ∧ 0 ∈ data ∧ (cstring data).length ≤ 255
  | .clearItem _ _ _ => True

instance Legal.decidable (d : Described) : (op : Op) → Decidable (Legal d op)
  | .addEntry id => inferInstanceAs (Decidable ((d.step (.addEntry id)).known.length ≤ 31))
  | .removeEntry _ _ => isFalse id
  | .setItem _ type data _ => inferInstanceAs (Decidable
    ((1 ≤ type.toNat ∧ type.toNat ≤ 255) ∧ 0 ∈ data ∧ (cstring data).length ≤ 255))
  | .clearItem _ _ _ => isTrue trivial

/-- An item that is there can be taken away: it is the oldest, and an item can be read behind
the array. -/
def Removable (types : List UInt32) (type : UInt32) (behind : List SdesItem) : Prop :=
  type ∈ types → types.head? = some type ∧ behind ≠ []

/-- What a call replaces or removes can be taken away. -/
def OldestFirst (d : Described) : Op → Prop
  | .setItem src type _ behind => Removable (d.types src) type behind
  | .clearItem src type behind => Removable (d.types src) type behind
  | _ => True

instance Removable.decidable (types : List UInt32) (type : UInt32) (behind : List SdesItem) :
    Decidable (Removable types type behind) :=
  inferInstanceAs (Decidable (type ∈ types → types.head? = some type ∧ behind ≠ []))

instance OldestFirst.decidable (d : Described) : (op : Op) → Decidable (OldestFirst d op)
  | .addEntry _ => isTrue trivial
  | .removeEntry _ _ => isTrue trivial
  | .setItem src type _ behind => Removable.decidable (d.types src) type behind
  | .clearItem src type behind => Removable.decidable (d.types src) type behind

/-! ## The items of an entry -/

/-- An item in memory. -/
def itemOf (text : UInt32 → List UInt8) (type : UInt32) : SdesItem :=
  ⟨type, UInt8.ofNat (text type).length, .obj (text type)⟩

/-- An entry in memory. -/
def entryOf (id : UInt32) (types : List UInt32) (text : UInt32 → List UInt8) : SdesEntry :=
  ⟨id, UInt8.ofNat types.length, .ofList (types.map (itemOf text))⟩

/-- Items of different types, with texts whose length a byte can hold. -/
structure Proper (types : List UInt32) (text : UInt32 → List UInt8) : Prop where
  nodup : types.Nodup
  range : ∀ type ∈ types, 1 ≤ type.toNat ∧ type.toNat ≤ 255
  short : ∀ type, (text type).length ≤ 255

variable {id src type : UInt32} {types : List UInt32} {text : UInt32 → List UInt8}
  {behind : List SdesItem} {data : List UInt8}

theorem Proper.length_le (h : Proper types text) : types.length ≤ 255 := by
  have hinj : (types.map UInt32.toNat).Nodup :=
    h.nodup.map fun _ _ heq => UInt32.toNat_inj.mp heq
  have hlen := length_le_of_types hinj (by
    intro n hn
    obtain ⟨type, hmem, rfl⟩ := List.mem_map.mp hn
    exact h.range type hmem)
  rwa [List.length_map] at hlen

/-- There is room for another type. -/
theorem Proper.length_lt (h : Proper types text) (hnew : type ∉ types)
    (hrange : 1 ≤ type.toNat ∧ type.toNat ≤ 255) : types.length < 255 := by
  have hproper : Proper (type :: types) text := by
    refine ⟨List.nodup_cons.mpr ⟨hnew, h.nodup⟩, ?_, h.short⟩
    intro other hmem
    cases List.mem_cons.mp hmem with
    | inl heq => rwa [heq]
    | inr hold => exact h.range other hold
  exact hproper.length_le

theorem Proper.erase (h : Proper types text) (type : UInt32) : Proper (types.erase type) text :=
  ⟨h.nodup.erase type, fun other hmem => h.range other (List.mem_of_mem_erase hmem), h.short⟩

theorem toNat_ofNat_le {n : Nat} (h : n ≤ 255) : (UInt8.ofNat n).toNat = n :=
  UInt8.toNat_ofNat'.trans (Nat.mod_eq_of_lt (by omega))

theorem Proper.sound (h : Proper types text) (id : UInt32) :
    SoundItems (entryOf id types text) (types.map (itemOf text)) := by
  constructor
  · rw [List.length_map]
    exact toNat_ofNat_le h.length_le
  · exact Ptr.ofList_of_ne_nil
  · intro item hmem
    obtain ⟨type, -, rfl⟩ := List.mem_map.mp hmem
    exact ⟨text type, toNat_ofNat_le (h.short type), fun _ => rfl⟩

theorem Proper.getItem (h : Proper types text) (id type : UInt32) :
    getItem (entryOf id types text) type = .ok (types.findIdx? (· == type)) := by
  rw [(h.sound id).getItem, List.findIdx?_map]
  rfl

theorem Proper.concat (h : Proper types text) (hnew : type ∉ types)
    (hrange : 1 ≤ type.toNat ∧ type.toNat ≤ 255) {string : List UInt8}
    (hshort : string.length ≤ 255) :
    Proper (types ++ [type]) (Function.update text type string) := by
  constructor
  · rw [← List.concat_eq_append]
    exact h.nodup.concat hnew
  · intro other hmem
    cases List.mem_append.mp hmem with
    | inl hold => exact h.range other hold
    | inr heq => rwa [List.mem_singleton.mp heq]
  · intro other
    by_cases heq : other = type
    · rwa [heq, Function.update_self]
    · rw [Function.update_of_ne heq]
      exact h.short other

/-- The position of a type is that of its item. -/
theorem load_item (text : UInt32 → List UInt8) (hin : type ∈ types) :
    load (types.map (itemOf text)) (types.idxOf type) = .ok (itemOf text type) := by
  apply load_of_getElem?
  rw [List.getElem?_map, List.getElem?_idxOf hin]
  rfl

/-- The items of an entry that has any. -/
theorem deref_items (id : UInt32) (text : UInt32 → List UInt8) (hne : types ≠ []) :
    (entryOf id types text).items.deref = .ok (types.map (itemOf text)) := by
  rw [entryOf, Ptr.ofList_of_ne_nil (mt List.map_eq_nil_iff.mp hne), Ptr.deref_obj]

theorem freeItem_absent (h : Proper types text) (hin : type ∉ types) (id : UInt32)
    (behind : List SdesItem) :
    freeItem (entryOf id types text) type behind = .ok (entryOf id types text) := by
  rw [freeItem, bind_of_ok (h.getItem id type), search_of_notMem hin]

/-- The gap is closed by a move of as many items as the entry has. -/
theorem freeItem_present (h : Proper types text) (hin : type ∈ types) (id : UInt32)
    (behind : List SdesItem) :
    freeItem (entryOf id types text) type behind = (do
      let items ← memmove (types.map (itemOf text)) behind (types.idxOf type)
        (types.idxOf type + 1) (types.length - types.idxOf type / sizeofItem)
      .ok (shrinkItems (entryOf id types text) items)) := by
  have hcount : (entryOf id types text).itemCount.toNat = types.length :=
    toNat_ofNat_le h.length_le
  rw [freeItem, bind_of_ok (h.getItem id type), search_of_mem hin]
  dsimp only
  rw [bind_of_ok (deref_items id text (List.ne_nil_of_mem hin)), bind_of_ok (load_item text hin),
    hcount]
  rfl

/-- The oldest item goes. -/
theorem freeItem_oldest (h : Proper (type :: types) text) (id : UInt32) (b : SdesItem)
    (behind : List SdesItem) :
    freeItem (entryOf id (type :: types) text) type (b :: behind)
      = .ok (entryOf id types text) := by
  have hpos : 0 < ((type :: types).map (itemOf text)).length := Nat.succ_pos _
  have hmove := memmove_tail b behind hpos
  obtain ⟨itemCount, hcount, hshrink⟩ :=
    shrinkItems_eq (h.sound id).itemCount b (List.ne_nil_of_length_pos hpos)
  have heq : itemCount = UInt8.ofNat types.length := by
    rw [← UInt8.toNat_inj, hcount, toNat_ofNat_le (Nat.le_of_succ_le h.length_le)]
    exact List.length_map ..
  rw [List.length_map] at hmove
  rw [freeItem_present h List.mem_cons_self, List.idxOf_cons_self, Nat.zero_div,
    bind_of_ok hmove, hshrink, heq]
  rfl

/-- Any other item cannot be removed: the move ends behind the array. -/
theorem freeItem_fault (h : Proper types text) (hnot : ¬ Removable types type behind)
    (id : UInt32) : freeItem (entryOf id types text) type behind = .error .bounds := by
  obtain ⟨hin, hnot⟩ := Classical.not_imp.mp hnot
  have hlt := List.idxOf_lt_length_of_mem hin
  have hfault : memmove (types.map (itemOf text)) behind (types.idxOf type)
      (types.idxOf type + 1) (types.length - types.idxOf type / sizeofItem) = .error .bounds := by
    apply memmove_fault
    rw [List.length_map, sizeofItem]
    by_cases hfirst : types.idxOf type = 0
    · have hhead : types.head? = some type := by
        rw [List.head?_eq_getElem?, ← hfirst]
        exact List.getElem?_idxOf hin
      rw [not_not.mp (not_and.mp hnot hhead), List.length_nil]
      omega
    · omega
  rw [freeItem_present h hin, hfault, error_bind]

/-- Taking an item away where it can be. -/
theorem freeItem_ok (h : Proper types text) (hremovable : Removable types type behind)
    (id : UInt32) :
    freeItem (entryOf id types text) type behind
      = .ok (entryOf id (types.erase type) text) := by
  by_cases hin : type ∈ types
  · obtain ⟨hhead, hne⟩ := hremovable hin
    obtain ⟨b, rest, rfl⟩ := List.exists_cons_of_ne_nil hne
    obtain ⟨older, rfl⟩ := List.head?_eq_some_iff.mp hhead
    rw [freeItem_oldest h id b rest, List.erase_cons_head]
  · rw [freeItem_absent h hin, List.erase_of_not_mem hin]

/-- A text that is set is that of no other item. -/
theorem map_itemOf_update (hin : type ∉ types) (string : List UInt8) :
    types.map (itemOf (Function.update text type string)) = types.map (itemOf text) := by
  apply List.map_congr_left
  intro other hmem
  have hne : other ≠ type := fun heq => hin (heq ▸ hmem)
  rw [itemOf, itemOf, Function.update_of_ne hne]

theorem entryOf_concat (id : UInt32) (types : List UInt32) (type : UInt32)
    (text : UInt32 → List UInt8) :
    entryOf id (types ++ [type]) text = ⟨id, UInt8.ofNat (types.length + 1),
      .obj ((types ++ [type]).map (itemOf text))⟩ := by
  rw [entryOf, List.length_append, List.length_singleton, Ptr.ofList_of_ne_nil (by simp)]

/-- The last cell of an array that has grown by one. -/
theorem storeItem_new (text : UInt32 → List UInt8) (hin : type ∉ types)
    (hlt : types.length < 255) (id : UInt32) (data : List UInt8)
    (hshort : (cstring data).length ≤ 255) :
    ∃ item, storeItem (entryOf id types text) (UInt8.ofNat (types.length + 1))
        (realloc (types.map (itemOf text)) (types.length + 1) emptyItem) type data 0
        (UInt8.ofNat (cstring data).length)
      = .ok (some item,
        entryOf id (types ++ [type]) (Function.update text type (cstring data))) := by
  have hgrown := storeLast_realloc (types.map (itemOf text)) emptyItem
    (itemOf (Function.update text type (cstring data)) type)
  rw [List.length_map, ← map_itemOf_update hin (cstring data), ← List.map_singleton,
    ← List.map_append] at hgrown
  refine ⟨itemOf (Function.update text type (cstring data)) type, ?_⟩
  rw [storeItem, toNat_ofNat_le hshort, bind_of_ok (slice_cstring data),
    toNat_ofNat_le (by omega), ← map_itemOf_update hin (cstring data)]
  rw [itemOf, Function.update_self] at hgrown ⊢
  rw [bind_of_ok hgrown, entryOf_concat]
  rfl

theorem createItem_new (h : Proper types text) (hin : type ∉ types)
    (hrange : 1 ≤ type.toNat ∧ type.toNat ≤ 255) (id : UInt32) (data : List UInt8)
    (hshort : (cstring data).length ≤ 255) :
    ∃ item, createItem (entryOf id types text) type data 0 (UInt8.ofNat (cstring data).length)
      = .ok (some item,
        entryOf id (types ++ [type]) (Function.update text type (cstring data))) := by
  have hlt := h.length_lt hin hrange
  obtain ⟨item, hstore⟩ := storeItem_new text hin hlt id data hshort
  have hcount : (entryOf id types text).itemCount = UInt8.ofNat types.length := rfl
  refine ⟨item, ?_⟩
  rw [createItem, bind_of_ok (h.getItem id type), search_of_notMem hin, if_neg (by decide), hcount]
  by_cases hnil : types = []
  · cases hnil
    exact hstore
  · have hpos := List.length_pos_of_ne_nil hnil
    have hzero : UInt8.ofNat types.length ≠ 0 := by
      rw [Ne, ← UInt8.toNat_inj, toNat_ofNat_le h.length_le]
      exact Nat.ne_of_gt hpos
    have hfull : UInt8.ofNat types.length ≠ 0xff := by
      rw [Ne, ← UInt8.toNat_inj, toNat_ofNat_le h.length_le]
      exact Nat.ne_of_lt hlt
    have hnext : UInt8.ofNat types.length + 1 = UInt8.ofNat (types.length + 1) :=
      (UInt8.ofNat_add ..).symm
    rw [if_neg hzero, if_neg hfull, bind_of_ok (deref_items id text hnil)]
    dsimp only
    rw [hnext, toNat_ofNat_le hlt]
    exact hstore

/-! ## The entries of a packet -/

/-- The entry of a source in memory. -/
def Described.entry (d : Described) (src : UInt32) : SdesEntry :=
  entryOf src (d.types src) (d.text src)

/-- The packet holds what was described. -/
structure Represents (packet : RtcpSdes) (d : Described) : Prop where
  srcs : Held packet.header.count packet.srcs (d.known.map d.entry)
  known : d.known.Nodup
  tidy : Tidy d
  items : ∀ src, Proper (d.types src) (d.text src)

variable {packet : RtcpSdes} {buffer : List UInt8} {size : Nat}

theorem represents_init : Represents (rtcpSdesInit rtcpSdesCreate) start := by
  constructor
  · exact held_nil _
  · exact List.nodup_nil
  · exact tidy_start
  · intro src
    exact ⟨List.nodup_nil, fun _ hmem => absurd hmem List.not_mem_nil, fun _ => Nat.zero_le 255⟩

theorem Represents.sound (h : Represents packet d) : Sound packet := by
  refine ⟨_, h.srcs, fun source hmem => ?_⟩
  obtain ⟨src, -, rfl⟩ := List.mem_map.mp hmem
  exact ⟨_, (h.items src).sound src⟩

theorem Represents.find (h : Represents packet d) (src : UInt32) :
    rtcpSdesFindEntry packet src = .ok (d.known.findIdx? (· == src)) := by
  rw [findEntry_held h.srcs, List.findIdx?_map]
  rfl

theorem Represents.deref (h : Represents packet d) (hin : src ∈ d.known) :
    packet.srcs.deref = .ok (d.known.map d.entry) :=
  h.srcs.deref (mt List.map_eq_nil_iff.mp (List.ne_nil_of_mem hin))

theorem load_entry (hin : src ∈ d.known) :
    load (d.known.map d.entry) (d.known.idxOf src) = .ok (d.entry src) := by
  apply load_of_getElem?
  rw [List.getElem?_map, List.getElem?_idxOf hin]
  rfl

/-- Only the entry of the source has changed. -/
theorem entry_withItems (d : Described) (src : UInt32) (types : List UInt32)
    (text : UInt32 → List UInt8) :
    (d.withItems src types text).entry
      = Function.update d.entry src (entryOf src types text) := by
  funext other
  rw [Described.entry, withItems]
  by_cases heq : other = src
  · cases heq
    simp only [Function.update_self]
  · simp only [Function.update_of_ne heq]
    rfl

theorem Represents.withItems (h : Represents packet d) (hin : src ∈ d.known)
    (hproper : Proper types text) :
    Represents (withSource packet (d.known.map d.entry) (d.known.idxOf src)
      (entryOf src types text)) (d.withItems src types text) := by
  have hmap := h.known.map_update d.entry src (entryOf src types text)
  rw [if_pos hin, ← entry_withItems] at hmap
  constructor
  · rw [withSource, ← hmap]
    apply held_obj
    rw [List.length_map, ← h.srcs.count.trans (List.length_map ..)]
  · exact h.known
  · exact h.tidy.withItems hin hproper.nodup text
  · intro other
    by_cases heq : other = src
    · cases heq
      simp only [Described.withItems, Function.update_self]
      exact hproper
    · simp only [Described.withItems, Function.update_of_ne heq]
      exact h.items other

theorem represents_withLength (h : Represents packet d) (length : UInt16) :
    Represents (withLength packet length) d := ⟨h.srcs, h.known, h.tidy, h.items⟩

/-- The update that ends the calls on items. -/
theorem updateLength_represents (h : Represents packet d) :
    ∃ packet', updateLength packet = .ok packet' ∧ Represents packet' d := by
  obtain ⟨ws, hws⟩ := h.sound.carries
  refine ⟨_, ?_, represents_withLength h (UInt16.ofNat (sizeSub (sizeOn ws / 4) 1))⟩
  rw [updateLength, bind_of_ok (rtcpSdesSize_wire hws)]

/-! ## The calls -/

theorem addEntry_represents (h : Represents packet d) (hlegal : Legal d (.addEntry id)) :
    ∃ r packet', rtcpSdesAddEntry packet id = .ok (r, packet') ∧
      Represents packet' (d.step (.addEntry id)) := by
  have hiff : (∃ source ∈ d.known.map d.entry, (source.id == id) = true) ↔ id ∈ d.known := by
    simp only [List.mem_map, exists_exists_and_eq_and, beq_iff_eq]
    exact exists_eq_right
  rw [Legal] at hlegal
  rw [step] at hlegal ⊢
  by_cases hin : id ∈ d.known
  · rw [if_pos hin, rtcpSdesAddEntry,
      bind_of_ok (addEntry_present h.srcs (by decide) (hiff.mpr hin))]
    exact ⟨RTCP_ERROR, packet, rfl, h⟩
  · rw [if_neg hin] at hlegal ⊢
    rw [List.length_append, List.length_singleton] at hlegal
    obtain ⟨count, hadd, hheld⟩ := addEntry_new h.srcs (by decide) emptyEntry ⟨id, 0, .null⟩
      (by rw [List.length_map]; omega) (mt hiff.mp hin)
    refine ⟨RTCP_OK, _, by rw [rtcpSdesAddEntry, bind_of_ok hadd], ?_⟩
    have hnew : d.entry id = ⟨id, 0, .null⟩ := by
      rw [Described.entry, h.tidy.unknown id hin]
      rfl
    have htidy := h.tidy.step (.addEntry id)
    rw [Described.step, if_neg hin] at htidy
    constructor
    · change Held count _ ((d.known ++ [id]).map d.entry)
      rw [List.map_append, List.map_singleton, hnew]
      exact hheld
    · rw [← List.concat_eq_append]
      exact h.known.concat hin
    · exact htidy
    · exact h.items

theorem setItemEnd_represents (h : Represents packet d) (hin : src ∈ d.known)
    (hproper : Proper types text) (hnew : type ∉ types)
    (hrange : 1 ≤ type.toNat ∧ type.toNat ≤ 255) (hstring : 0 ∈ data)
    (hshort : (cstring data).length ≤ 255) :
    ∃ packet', setItemEnd packet (d.known.map d.entry) (d.known.idxOf src)
        (entryOf src types text) type data = .ok (RTCP_OK, packet') ∧
      Represents packet' (d.withItems src (types ++ [type])
        (Function.update text type (cstring data))) := by
  obtain ⟨item, hcreate⟩ := createItem_new hproper hnew hrange src data hshort
  obtain ⟨packet', hupdate, hrep⟩ :=
    updateLength_represents (h.withItems hin (hproper.concat hnew hrange hshort))
  refine ⟨packet', ?_, hrep⟩
  rw [setItemEnd, bind_of_ok (strlen_ok hstring), if_neg (by omega), bind_of_ok hcreate]
  dsimp only
  rw [Option.isNone_some, if_neg Bool.false_ne_true, bind_of_ok hupdate]

/-- A call for a source that the packet has. -/
theorem rtcpSdesSetItem_entry (h : Represents packet d) (hin : src ∈ d.known) (type : UInt32)
    (data : List UInt8) (behind : List SdesItem) :
    rtcpSdesSetItem packet src type data behind
      = freeItem (d.entry src) type behind >>= fun source =>
        setItemEnd packet (d.known.map d.entry) (d.known.idxOf src) source type data := by
  apply rtcpSdesSetItem_eq
  · rw [h.find, search_of_mem hin]
  · exact h.deref hin
  · exact load_entry hin
  · exact (h.items src).getItem src type

theorem setItem_represents (h : Represents packet d)
    (hlegal : Legal d (.setItem src type data behind))
    (hremovable : Removable (d.types src) type behind) :
    ∃ r packet', rtcpSdesSetItem packet src type data behind = .ok (r, packet') ∧
      Represents packet' (d.step (.setItem src type data behind)) := by
  obtain ⟨hrange, hstring, hshort⟩ := hlegal
  rw [step]
  by_cases hin : src ∈ d.known
  · have hproper := h.items src
    obtain ⟨packet', hrun, hrep⟩ := setItemEnd_represents h hin (hproper.erase type)
      hproper.nodup.not_mem_erase hrange hstring hshort
    rw [if_pos hin, rtcpSdesSetItem_entry h hin, Described.entry,
      bind_of_ok (freeItem_ok hproper hremovable src)]
    exact ⟨RTCP_OK, packet', hrun, hrep⟩
  · rw [if_neg hin, rtcpSdesSetItem, bind_of_ok (h.find src), search_of_notMem hin]
    exact ⟨RTCP_ERROR, packet, rfl, h⟩

theorem clearItem_entry (h : Represents packet d) (hin : src ∈ d.known) (type : UInt32)
    (behind : List SdesItem) :
    rtcpSdesClearItem packet src type behind
      = freeItem (d.entry src) type behind >>= fun source =>
        updateLength (withSource packet (d.known.map d.entry) (d.known.idxOf src) source) := by
  apply rtcpSdesClearItem_eq
  · rw [h.find, search_of_mem hin]
  · exact h.deref hin
  · exact load_entry hin

theorem clearItem_represents (h : Represents packet d)
    (hremovable : Removable (d.types src) type behind) :
    ∃ packet', rtcpSdesClearItem packet src type behind = .ok packet' ∧
      Represents packet' (d.step (.clearItem src type behind)) := by
  rw [step]
  by_cases hin : src ∈ d.known
  · have hproper := h.items src
    rw [if_pos hin, clearItem_entry h hin, Described.entry,
      bind_of_ok (freeItem_ok hproper hremovable src)]
    exact updateLength_represents (h.withItems hin (hproper.erase type))
  · rw [if_neg hin, rtcpSdesClearItem, bind_of_ok (h.find src), search_of_notMem hin]
    exact ⟨packet, rfl, h⟩

/-- A present item belongs to a source of the packet. -/
theorem Represents.known_of_mem (h : Represents packet d) (hin : type ∈ d.types src) :
    src ∈ d.known := by
  by_contra hout
  rw [h.tidy.unknown src hout] at hin
  exact List.not_mem_nil hin

theorem setItem_fault (h : Represents packet d) (data : List UInt8)
    (hnot : ¬ Removable (d.types src) type behind) :
    rtcpSdesSetItem packet src type data behind = .error .bounds := by
  have hin := h.known_of_mem (Classical.not_imp.mp hnot).1
  rw [rtcpSdesSetItem_entry h hin, Described.entry, freeItem_fault (h.items src) hnot, error_bind]

theorem clearItem_fault (h : Represents packet d)
    (hnot : ¬ Removable (d.types src) type behind) :
    rtcpSdesClearItem packet src type behind = .error .bounds := by
  have hin := h.known_of_mem (Classical.not_imp.mp hnot).1
  rw [clearItem_entry h hin, Described.entry, freeItem_fault (h.items src) hnot, error_bind]

theorem perform_represents (h : Represents packet d) (op : Op) (hlegal : Legal d op)
    (holdest : OldestFirst d op) :
    ∃ packet', perform packet op = .ok packet' ∧ Represents packet' (d.step op) := by
  cases op with
  | addEntry id =>
    obtain ⟨r, packet', hrun, hrep⟩ := addEntry_represents h hlegal
    exact ⟨packet', by rw [perform, bind_of_ok hrun], hrep⟩
  | removeEntry id behind => exact False.elim hlegal
  | setItem src type data behind =>
    obtain ⟨r, packet', hrun, hrep⟩ := setItem_represents h hlegal holdest
    exact ⟨packet', by rw [perform, bind_of_ok hrun], hrep⟩
  | clearItem src type behind => exact clearItem_represents h holdest

theorem perform_fault (h : Represents packet d) (op : Op) (holdest : ¬ OldestFirst d op) :
    ∃ e, perform packet op = .error e := by
  cases op with
  | addEntry id => exact absurd trivial holdest
  | removeEntry id behind => exact absurd trivial holdest
  | setItem src type data behind =>
    exact ⟨_, by rw [perform, setItem_fault h data holdest, error_bind]⟩
  | clearItem src type behind => exact ⟨_, clearItem_fault h holdest⟩

/-! ## Looking up -/

/-- The text of an item goes to the front of the buffer. -/
theorem rtcpSdesGetItem_present (h : Represents packet d) (hin : type ∈ d.types src)
    (hsize : size ≤ buffer.length) :
    rtcpSdesGetItem packet src type buffer size
      = .ok (answer (d.item src type).text buffer size) := by
  have hknown := h.known_of_mem hin
  have hlen : (itemOf (d.text src) type).length.toNat = (d.text src type).length :=
    toNat_ofNat_le ((h.items src).short type)
  have hread : (itemOf (d.text src) type).data.read (d.text src type).length
      = .ok (d.text src type) := Ptr.read_of_obj fun _ => rfl
  rw [rtcpSdesGetItem, bind_of_ok (h.find src), search_of_mem hknown]
  dsimp only
  rw [bind_of_ok (h.deref hknown), bind_of_ok (load_entry hknown), Described.entry,
    bind_of_ok ((h.items src).getItem src type), search_of_mem hin]
  dsimp only
  rw [bind_of_ok (deref_items src _ (List.ne_nil_of_mem hin)), bind_of_ok (load_item _ hin), hlen,
    item, if_pos hin]
  dsimp only [answer]
  by_cases hroom : (d.text src type).length + 1 ≤ size
  · have hwhole : blit buffer 0 (d.text src type ++ [0])
        = .ok (put buffer 0 (d.text src type ++ [0])) := by
      apply blit_of_le
      rw [List.length_append, List.length_singleton]
      omega
    have hblit := blit_blit buffer 0 (d.text src type) [0]
    rw [Nat.zero_add, hwhole] at hblit
    rw [if_neg (by omega), if_pos hroom, bind_of_ok hread]
    simp only [store_eq_blit]
    rw [← bind_assoc, bind_of_ok hblit]
  · rw [if_pos (by omega), if_neg hroom]

theorem rtcpSdesGetItem_unknown (h : Represents packet d) (hout : src ∉ d.known)
    (type : UInt32) (buffer : List UInt8) (size : Nat) :
    rtcpSdesGetItem packet src type buffer size
      = .ok (answer (d.item src type).text buffer size) := by
  have habsent : type ∉ d.types src := fun hin => hout (h.known_of_mem hin)
  rw [rtcpSdesGetItem, bind_of_ok (h.find src), search_of_notMem hout, item, if_neg habsent]
  rfl

/-- The length of an item that is not there. -/
theorem rtcpSdesGetItem_fault (h : Represents packet d) (hknown : src ∈ d.known)
    (habsent : type ∉ d.types src) (buffer : List UInt8) (size : Nat) :
    rtcpSdesGetItem packet src type buffer size = .error .pointer := by
  rw [rtcpSdesGetItem, bind_of_ok (h.find src), search_of_mem hknown]
  dsimp only
  rw [bind_of_ok (h.deref hknown), bind_of_ok (load_entry hknown), Described.entry,
    bind_of_ok ((h.items src).getItem src type), search_of_notMem habsent]

/-- From create and init on, the calls return, and a look-up gives the last text set for its
source and type. -/
def Answers (ops : List Op) (src type : UInt32) (buffer : List UInt8) (size : Nat) : Prop :=
  ∃ packet, runAll perform (rtcpSdesInit rtcpSdesCreate) ops = .ok packet ∧
    rtcpSdesGetItem packet src type buffer size = .ok (answer (lastSet ops src type) buffer size)

/-- The runs that return, and what they leave. -/
theorem runAll_represents {ops : List Op} (hlegal : Along step Legal start ops)
    (hrun : runAll perform (rtcpSdesInit rtcpSdesCreate) ops = .ok packet) :
    Along step OldestFirst start ops ∧ Represents packet (ops.foldl step start) :=
  along_of_runAll (R := Represents) (L := Legal) (P := OldestFirst)
    (fun _ _ op h hlegal holdest => perform_represents h op hlegal holdest)
    (fun _ _ op h _ holdest => perform_fault h op holdest) ops represents_init hlegal hrun

theorem answers_of_along {ops : List Op} (hlegal : Along step Legal start ops)
    (holdest : Along step OldestFirst start ops) (hsize : size ≤ buffer.length)
    (hpresent : src ∈ (ops.foldl step start).known → type ∈ (ops.foldl step start).types src) :
    Answers ops src type buffer size := by
  obtain ⟨packet, hrun, hrep⟩ :=
    runAll_along (R := Represents) (L := Legal) (P := OldestFirst)
      (fun _ _ op h hlegal holdest => perform_represents h op hlegal holdest) ops represents_init
      hlegal holdest
  refine ⟨packet, hrun, ?_⟩
  rw [lastSet_eq]
  by_cases hknown : src ∈ (ops.foldl step start).known
  · exact rtcpSdesGetItem_present hrep (hpresent hknown) hsize
  · exact rtcpSdesGetItem_unknown hrep hknown type buffer size

theorem along_of_answers {ops : List Op} (hlegal : Along step Legal start ops)
    (h : Answers ops src type buffer size) :
    Along step OldestFirst start ops ∧
      (src ∈ (ops.foldl step start).known → type ∈ (ops.foldl step start).types src) := by
  obtain ⟨packet, hrun, hget⟩ := h
  obtain ⟨holdest, hrep⟩ := runAll_represents hlegal hrun
  refine ⟨holdest, fun hknown => ?_⟩
  by_contra habsent
  rw [rtcpSdesGetItem_fault hrep hknown habsent] at hget
  cases hget

/-- The items of a packet are a map, exactly as long as only oldest items are replaced or
removed and no type is looked up that its entry lacks. -/
theorem answers_iff (ops : List Op) (hlegal : Along step Legal start ops)
    (hsize : size ≤ buffer.length) :
    Answers ops src type buffer size ↔
      Along step OldestFirst start ops ∧
        (src ∈ (ops.foldl step start).known → type ∈ (ops.foldl step start).types src) := by
  constructor
  · exact along_of_answers hlegal
  · intro h
    exact answers_of_along hlegal h.1 hsize h.2

/-- Two items of one source, the older of them set again. -/
theorem answers_again : Answers [.addEntry 7, .setItem 7 1 [65, 0] [], .setItem 7 2 [66, 0] [],
    .setItem 7 1 [67, 0] [emptyItem]] 7 1 [0, 0, 0] 3 :=
  (answers_iff _ (by decide) (by decide)).mpr (by decide)

/-- A source without items, asked for one, and a source with two, from which the newer is to be
removed. -/
theorem answers_fails :
    (Along step Legal start [.addEntry 7] ∧ ¬ Answers [.addEntry 7] 7 1 [0] 1) ∧
      Along step Legal start [.addEntry 7, .setItem 7 1 [65, 0] [], .setItem 7 2 [66, 0] [],
        .clearItem 7 2 [emptyItem]] ∧
      ¬ Answers [.addEntry 7, .setItem 7 1 [65, 0] [], .setItem 7 2 [66, 0] [],
        .clearItem 7 2 [emptyItem]] 7 1 [0, 0] 2 := by
  refine ⟨⟨by decide, fun h => ?_⟩, by decide, fun h => ?_⟩
  · exact absurd (along_of_answers (by decide) h).2 (by decide)
  · exact absurd (along_of_answers (by decide) h).1 (by decide)

end RtpSdr.Rtp.SdesMap
