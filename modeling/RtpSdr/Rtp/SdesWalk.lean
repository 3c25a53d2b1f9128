import RtpSdr.Rtp.Sdes

/-!
# Walking through a source description

Where the entries and items of a buffer lie, as the wire format says: `Items` and
`Entries` are judgments on the bytes alone. The parser never looks at the size of the
buffer, so it returns exactly where the walk stays inside.
-/
namespace RtpSdr.Rtp.SdesWalk

open RtpSdr.Lib.Checked
open RtpSdr.Lib.Memory
open RtpSdr.Lib.BigEndian
open RtpSdr.Rtp.Util
open RtpSdr.Rtp.RtcpHeader
open RtpSdr.Rtp.Sdes

/-- The items from an offset on, behind items of the types in `seen`: they end at a zero byte,
or one of them has a type that was seen. -/
inductive Items (buffer : List UInt8) : Nat → List UInt8 → Option Nat → Prop where
  | zero {off : Nat} {seen : List UInt8} (hzero : buffer[off]? = some 0) :
      Items buffer off seen (some off)
  | twice {off : Nat} {seen : List UInt8} {type length : UInt8} (htype : buffer[off]? = some type)
      (hne : type ≠ 0) (hlength : buffer[off + 1]? = some length) (hseen : type ∈ seen) :
      Items buffer off seen none
  | item {off : Nat} {seen : List UInt8} {type length : UInt8} {ending : Option Nat}
      (htype : buffer[off]? = some type) (hne : type ≠ 0)
      (hlength : buffer[off + 1]? = some length) (hnew : type ∉ seen)
      (hdata : off + 2 + length.toNat ≤ buffer.length)
      (hrest : Items buffer (off + 2 + length.toNat) (seen ++ [type]) ending) :
      Items buffer off seen ending

/-- The multiple of four behind the zero byte of an entry. -/
def entryEnd (last : Nat) : Nat := last + (4 - last % 4)

/-- The first entries of a buffer and the offset behind them. -/
inductive Entries (buffer : List UInt8) : Nat → Nat → Prop where
  | start : Entries buffer 0 4
  | next {n off last : Nat} (hprev : Entries buffer n off) (hid : off + 4 ≤ buffer.length)
      (hitems : Items buffer (off + 4) [] (some last)) : Entries buffer (n + 1) (entryEnd last)

/-- All entries, with their zero bytes and what fills them up, lie in the buffer. -/
def Complete (buffer : List UInt8) : Prop :=
  ∃ off, Entries buffer (countOf buffer) off ∧ off ≤ buffer.length

/-- Up to an item whose type the entry has already, everything lies in the buffer. -/
def Repeated (buffer : List UInt8) : Prop :=
  ∃ n off, n < countOf buffer ∧ Entries buffer n off ∧ off + 4 ≤ buffer.length ∧
    Items buffer (off + 4) [] none

/-- The entry has items of the types that were seen. -/
structure Listed (source : SdesEntry) (seen : List UInt8) : Prop where
  count : source.itemCount.toNat = seen.length
  items : ∃ items, (seen ≠ [] → source.items = .obj items) ∧
    items.map (·.type) = seen.map (·.toUInt32)
  distinct : seen.Nodup
  nonzero : 0 ∉ seen

variable {buffer seen : List UInt8} {source : SdesEntry} {type length : UInt8} {off : Nat}

theorem listed_nil (id : UInt32) : Listed ⟨id, 0, .null⟩ [] :=
  ⟨rfl, ⟨[], fun h => absurd rfl h, rfl⟩, List.nodup_nil, List.not_mem_nil⟩

theorem length_le_of_distinct (hdistinct : seen.Nodup) (hnonzero : 0 ∉ seen) :
    seen.length ≤ 255 := by
  have hinj : (seen.map UInt8.toNat).Nodup :=
    hdistinct.map fun _ _ h => UInt8.toNat_inj.mp h
  have hlen := length_le_of_types hinj (by
    intro t ht
    obtain ⟨type, htype, rfl⟩ := List.mem_map.mp ht
    have hlt := type.toNat_lt
    have hpos : type.toNat ≠ 0 := by
      intro hzero
      cases UInt8.toNat_inj.mp (hzero.trans UInt8.toNat_zero.symm)
      exact hnonzero htype
    omega)
  rwa [List.length_map] at hlen

theorem Listed.length_le (h : Listed source seen) : seen.length ≤ 255 :=
  length_le_of_distinct h.distinct h.nonzero

/-! ## One item -/

theorem getItem_listed (h : Listed source seen) (type : UInt8) :
    ∃ found, getItem source type.toUInt32 = .ok found ∧ (found.isSome = true ↔ type ∈ seen) := by
  obtain ⟨items, hitems, htypes⟩ := h.items
  have hlen : items.length = seen.length := by
    have := congrArg List.length htypes
    rwa [List.length_map, List.length_map] at this
  have hne : items ≠ [] → source.items = .obj items := by
    intro hne
    apply hitems
    intro hnil
    rw [hnil, List.length_nil] at hlen
    exact hne (List.eq_nil_of_length_eq_zero hlen)
  refine ⟨items.findIdx? fun item => item.type == type.toUInt32, ?_, ?_⟩
  · rw [getItem, h.count, ← hlen, find_ok hne]
  · have hinj (a : UInt8) (ha : a.toUInt32 = type.toUInt32) : a = type := by
      rw [← UInt32.toNat_inj, UInt8.toNat_toUInt32, UInt8.toNat_toUInt32] at ha
      exact UInt8.toNat_inj.mp ha
    have hmem : (∃ item ∈ items, item.type = type.toUInt32) ↔
        type.toUInt32 ∈ items.map (·.type) := by rw [List.mem_map]
    rw [List.findIdx?_isSome, List.any_eq_true]
    simp only [beq_iff_eq]
    rw [hmem, htypes, List.mem_map]
    exact ⟨fun ⟨a, hin, ha⟩ => hinj a ha ▸ hin, fun hin => ⟨type, hin, rfl⟩⟩

theorem createItem_twice (h : Listed source seen) (hin : type ∈ seen) (data : List UInt8)
    (off : Nat) (length : UInt8) :
    createItem source type.toUInt32 data off length = .ok (none, source) := by
  obtain ⟨found, hfound, hiff⟩ := getItem_listed h type
  rw [createItem, bind_of_ok hfound, if_pos (hiff.mpr hin)]

/-- An entry's items with one more. -/
structure Extends (source : SdesEntry) (seen : List UInt8) (type : UInt8)
    (items : List SdesItem) : Prop where
  types : items.map (·.type) = seen.map (·.toUInt32)
  distinct : (seen ++ [type]).Nodup
  nonzero : 0 ∉ seen ++ [type]

theorem Listed.extends (h : Listed source seen) (hnew : type ∉ seen) (hne : type ≠ 0) :
    ∃ items, (seen ≠ [] → source.items = .obj items) ∧ items.length = seen.length ∧
      Extends source seen type items := by
  obtain ⟨items, hitems, htypes⟩ := h.items
  have hlen := congrArg List.length htypes
  rw [List.length_map, List.length_map] at hlen
  refine ⟨items, hitems, hlen, htypes, ?_, ?_⟩
  · exact List.nodup_append.mpr ⟨h.distinct, List.nodup_singleton _, fun a ha b hb heq =>
      hnew (by rw [← List.mem_singleton.mp hb, ← heq]; exact ha)⟩
  · rw [List.mem_append, List.mem_singleton]
    exact fun hin => hin.elim h.nonzero fun heq => hne heq.symm

/-- The new cell is written if the item's data lies in the buffer. -/
theorem storeItem_extends {items : List SdesItem} (h : Extends source seen type items)
    {itemCount : UInt8} (hcount : itemCount.toNat = seen.length + 1)
    (hlen : items.length = seen.length) (data : List UInt8) (off : Nat) (length : UInt8) :
    (off + length.toNat ≤ data.length ∧ ∃ item source',
      storeItem source itemCount (realloc items itemCount.toNat emptyItem) type.toUInt32 data off
        length = .ok (some item, source') ∧
      itemSize item = 2 + length.toNat ∧ Listed source' (seen ++ [type])) ∨
    data.length < off + length.toNat ∧
      storeItem source itemCount (realloc items itemCount.toNat emptyItem) type.toUInt32 data off
        length = .error .bounds := by
  by_cases hin : off + length.toNat ≤ data.length
  · left
    refine ⟨hin, ⟨type.toUInt32, length, .obj ((data.drop off).take length.toNat)⟩,
      ⟨source.id, itemCount, .obj (items ++
        [⟨type.toUInt32, length, .obj ((data.drop off).take length.toNat)⟩])⟩, ?_, rfl, ?_⟩
    · rw [storeItem, bind_of_ok (slice_of_le hin), hcount, ← hlen,
        bind_of_ok (storeLast_realloc items emptyItem _)]
    · constructor
      · rw [List.length_append, List.length_singleton]
        exact hcount
      · refine ⟨_, fun _ => rfl, ?_⟩
        rw [List.map_append, List.map_append, h.types]
        rfl
      · exact h.distinct
      · exact h.nonzero
  · have hslice : slice data off length.toNat = .error .bounds := if_neg hin
    exact .inr ⟨by omega, by rw [storeItem, hslice, error_bind]⟩

/-- A new item is stored if its data lies in the buffer. -/
theorem createItem_new (h : Listed source seen) (hnew : type ∉ seen) (hne : type ≠ 0)
    (data : List UInt8) (off : Nat) (length : UInt8) :
    (off + length.toNat ≤ data.length ∧ ∃ item source',
      createItem source type.toUInt32 data off length = .ok (some item, source') ∧
        itemSize item = 2 + length.toNat ∧ Listed source' (seen ++ [type])) ∨
    data.length < off + length.toNat ∧
      createItem source type.toUInt32 data off length = .error .bounds := by
  obtain ⟨found, hfound, hiff⟩ := getItem_listed h type
  obtain ⟨items, hitems, hlen, hextends⟩ := h.extends hnew hne
  have hcount := h.count
  have hmax := length_le_of_distinct hextends.distinct hextends.nonzero
  rw [List.length_append, List.length_singleton] at hmax
  rw [createItem, bind_of_ok hfound, if_neg (mt hiff.mp hnew)]
  by_cases hzero : source.itemCount = 0
  · have hnil : items = [] := by
      apply List.eq_nil_of_length_eq_zero
      rw [hlen, ← hcount, hzero]
      rfl
    have hone : UInt8.toNat 1 = seen.length + 1 := by
      rw [← hcount, hzero]
      rfl
    have hfirst := storeItem_extends hextends hone hlen data off length
    rw [hnil] at hfirst
    rw [if_pos hzero]
    exact hfirst
  · have hsome : seen ≠ [] := by
      intro hnil
      rw [hnil] at hcount
      exact hzero (UInt8.toNat_inj.mp hcount)
    have hfull : source.itemCount ≠ 0xff := by
      intro hfull
      rw [hfull] at hcount
      change 255 = seen.length at hcount
      omega
    have hnext : (source.itemCount + 1).toNat = seen.length + 1 := by
      rw [UInt8.toNat_add, hcount]
      change (seen.length + 1) % 256 = seen.length + 1
      omega
    rw [if_neg hzero, if_neg hfull, hitems hsome, Ptr.deref_obj, ok_bind]
    exact storeItem_extends hextends hnext hlen data off length

/-- What one pass of the loop does, and what it has read. -/
theorem parseItem_outcome (h : Listed source seen) (buffer : List UInt8) (off : Nat) :
    (buffer[off]? = some 0 ∧
      parseItem buffer (off, source) = .ok (.leave (.next (entryEnd off, source)))) ∨
    (∃ type length, buffer[off]? = some type ∧ type ≠ 0 ∧ buffer[off + 1]? = some length ∧
      type ∈ seen ∧ parseItem buffer (off, source) = .ok (.leave (.leave source))) ∨
    (∃ type length source', buffer[off]? = some type ∧ type ≠ 0 ∧
      buffer[off + 1]? = some length ∧ type ∉ seen ∧ off + 2 + length.toNat ≤ buffer.length ∧
      parseItem buffer (off, source) = .ok (.next (off + 2 + length.toNat, source')) ∧
      Listed source' (seen ++ [type])) ∨
    parseItem buffer (off, source) = .error .bounds := by
  rw [parseItem]
  cases htype : buffer[off]? with
  | none =>
    rw [load_of_le (List.getElem?_eq_none_iff.mp htype), error_bind]
    exact .inr (.inr (.inr rfl))
  | some type =>
    rw [bind_of_ok (load_of_getElem? htype)]
    by_cases hzero : type = 0
    · rw [if_pos hzero, hzero]
      exact .inl ⟨rfl, rfl⟩
    rw [if_neg hzero]
    cases hlength : buffer[off + 1]? with
    | none =>
      rw [load_of_le (List.getElem?_eq_none_iff.mp hlength), error_bind]
      exact .inr (.inr (.inr rfl))
    | some length =>
      rw [bind_of_ok (load_of_getElem? hlength)]
      by_cases hseen : type ∈ seen
      · rw [bind_of_ok (createItem_twice h hseen buffer (off + 2) length)]
        exact .inr (.inl ⟨type, length, rfl, hzero, rfl, hseen, rfl⟩)
      · rcases createItem_new h hseen hzero buffer (off + 2) length with
          ⟨hin, item, source', hcreate, hsize, hlisted⟩ | ⟨hout, hcreate⟩
        · rw [bind_of_ok hcreate]
          dsimp only
          rw [hsize, ← Nat.add_assoc]
          exact .inr (.inr (.inl ⟨type, length, source', rfl, hzero, rfl, hseen, hin, rfl,
            hlisted⟩))
        · rw [hcreate, error_bind]
          exact .inr (.inr (.inr rfl))

/-! ## The items of an entry

A pass that goes on leaves one type less, so 256 passes are enough. -/

/-- Where the items lie in the buffer, the loop reads them. -/
theorem Items.loop {ending : Option Nat} (hitems : Items buffer off seen ending) {fuel : Nat}
    (hfuel : 255 < fuel + seen.length) (h : Listed source seen) :
    ∃ source', loopFuel (parseItem buffer) fuel (off, source) = .ok (match ending with
      | some last => .next (entryEnd last, source')
      | none => .leave source') := by
  induction hitems generalizing source fuel with
  | @zero off seen hzero =>
    have hle := h.length_le
    obtain ⟨n, rfl⟩ := Nat.exists_eq_add_of_lt (show 0 < fuel by omega)
    have hpass : parseItem buffer (off, source) = .ok (.leave (.next (entryEnd off, source))) := by
      rw [parseItem, bind_of_ok (load_of_getElem? hzero), if_pos rfl, entryEnd]
    exact ⟨source, loopFuel_leave _ hpass⟩
  | @twice off seen type length htype hne hlength hseen =>
    have hle := h.length_le
    obtain ⟨n, rfl⟩ := Nat.exists_eq_add_of_lt (show 0 < fuel by omega)
    have hpass : parseItem buffer (off, source) = .ok (.leave (.leave source)) := by
      rw [parseItem, bind_of_ok (load_of_getElem? htype), if_neg hne,
        bind_of_ok (load_of_getElem? hlength), bind_of_ok (createItem_twice h hseen _ _ _)]
    exact ⟨source, loopFuel_leave _ hpass⟩
  | @item off seen type length ending htype hne hlength hnew hdata hrest ih =>
    have hle := h.length_le
    obtain ⟨n, rfl⟩ := Nat.exists_eq_add_of_lt (show 0 < fuel by omega)
    rcases createItem_new h hnew hne buffer (off + 2) length with
      ⟨-, item, source₁, hcreate, hsize, hlisted⟩ | ⟨hout, -⟩
    · have hpass : parseItem buffer (off, source)
          = .ok (.next (off + 2 + length.toNat, source₁)) := by
        rw [parseItem, bind_of_ok (load_of_getElem? htype), if_neg hne,
          bind_of_ok (load_of_getElem? hlength), bind_of_ok hcreate]
        dsimp only
        rw [hsize, ← Nat.add_assoc]
      obtain ⟨source', hloop⟩ := ih (show 255 < 0 + n + (seen ++ [type]).length by
        rw [List.length_append, List.length_singleton]
        omega) hlisted
      exact ⟨source', by rw [loopFuel_next _ hpass, hloop]⟩
    · omega

/-- The loop over the items ends, and where it does not stop outside the buffer the items lie
in it. -/
theorem parseItems_outcome (buffer : List UInt8) (h : Listed source seen) {fuel : Nat}
    (hfuel : 255 < fuel + seen.length) (off : Nat) :
    (∃ source' last, loopFuel (parseItem buffer) fuel (off, source)
        = .ok (.next (entryEnd last, source')) ∧ Items buffer off seen (some last)) ∨
    (∃ source', loopFuel (parseItem buffer) fuel (off, source) = .ok (.leave source') ∧
      Items buffer off seen none) ∨
    loopFuel (parseItem buffer) fuel (off, source) = .error .bounds := by
  induction fuel generalizing off seen source with
  | zero =>
    have hle := h.length_le
    omega
  | succ fuel ih =>
    rcases parseItem_outcome h buffer off with ⟨hzero, hpass⟩ |
      ⟨type, length, htype, hne, hlength, hseen, hpass⟩ |
      ⟨type, length, source₁, htype, hne, hlength, hnew, hdata, hpass, hlisted⟩ | hpass
    · exact .inl ⟨source, off, loopFuel_leave _ hpass, .zero hzero⟩
    · exact .inr (.inl ⟨source, loopFuel_leave _ hpass, .twice htype hne hlength hseen⟩)
    · rw [loopFuel_next _ hpass]
      rcases ih hlisted (by rw [List.length_append, List.length_singleton]; omega)
          (off + 2 + length.toNat) with ⟨source', last, hloop, hrest⟩ | ⟨source', hloop, hrest⟩ |
        hloop
      · exact .inl ⟨source', last, hloop, .item htype hne hlength hnew hdata hrest⟩
      · exact .inr (.inl ⟨source', hloop, .item htype hne hlength hnew hdata hrest⟩)
      · exact .inr (.inr hloop)
    · exact .inr (.inr (by rw [loopFuel, hpass, error_bind]))

/-! ## The entries of a packet -/

variable {fuel count n : Nat} {srcs : List SdesEntry}

theorem parseEntry_next (hfuel : 256 ≤ fuel) (hid : off + 4 ≤ buffer.length) {last : Nat}
    (hitems : Items buffer (off + 4) [] (some last)) (hn : n < srcs.length) :
    ∃ source, parseEntry fuel buffer n (off, srcs)
      = .ok (.next (entryEnd last, srcs.set n source)) := by
  obtain ⟨id, hread⟩ := readU32_inside hid
  obtain ⟨source, hloop⟩ := hitems.loop (show 255 < fuel + [].length by
    rw [List.length_nil]
    omega) (listed_nil id)
  refine ⟨source, ?_⟩
  rw [parseEntry, bind_of_ok hread, bind_of_ok hloop]
  dsimp only
  rw [bind_of_ok (store_of_lt _ hn)]

theorem parseEntry_twice (hfuel : 256 ≤ fuel) (hid : off + 4 ≤ buffer.length)
    (hitems : Items buffer (off + 4) [] none) (hn : n < srcs.length) :
    ∃ source, parseEntry fuel buffer n (off, srcs) = .ok (.leave (srcs.set n source)) := by
  obtain ⟨id, hread⟩ := readU32_inside hid
  obtain ⟨source, hloop⟩ := hitems.loop (show 255 < fuel + [].length by
    rw [List.length_nil]
    omega) (listed_nil id)
  refine ⟨source, ?_⟩
  rw [parseEntry, bind_of_ok hread, bind_of_ok hloop]
  dsimp only
  rw [bind_of_ok (store_of_lt _ hn)]

theorem parseEntry_outcome (hfuel : 256 ≤ fuel) (off : Nat) (hn : n < srcs.length) :
    (∃ source last, parseEntry fuel buffer n (off, srcs)
        = .ok (.next (entryEnd last, srcs.set n source)) ∧
      off + 4 ≤ buffer.length ∧ Items buffer (off + 4) [] (some last)) ∨
    (∃ source, parseEntry fuel buffer n (off, srcs) = .ok (.leave (srcs.set n source)) ∧
      off + 4 ≤ buffer.length ∧ Items buffer (off + 4) [] none) ∨
    parseEntry fuel buffer n (off, srcs) = .error .bounds := by
  by_cases hid : off + 4 ≤ buffer.length
  · obtain ⟨id, hread⟩ := readU32_inside hid
    rcases parseItems_outcome buffer (listed_nil id)
        (show 255 < fuel + [].length by rw [List.length_nil]; omega) (off + 4) with
      ⟨_, last, -, hitems⟩ | ⟨_, -, hitems⟩ | hloop
    · obtain ⟨source, hrun⟩ := parseEntry_next hfuel hid hitems hn
      exact .inl ⟨source, last, hrun, hid, hitems⟩
    · obtain ⟨source, hrun⟩ := parseEntry_twice hfuel hid hitems hn
      exact .inr (.inl ⟨source, hrun, hid, hitems⟩)
    · exact .inr (.inr (by rw [parseEntry, bind_of_ok hread, hloop, error_bind]))
  · exact .inr (.inr (by rw [parseEntry, readU32_fault (by omega), error_bind]))

/-- The state of the loop after some entries. -/
def passes (fuel count : Nat) (buffer : List UInt8) (n : Nat) :
    Exec (Step (Nat × List SdesEntry) (List SdesEntry)) :=
  forLeave (parseEntry fuel buffer) n (4, List.replicate count ⟨0, 0, .null⟩)

theorem Entries.passes (hfuel : 256 ≤ fuel) (h : Entries buffer n off) (hn : n ≤ count) :
    ∃ srcs, passes fuel count buffer n = .ok (.next (off, srcs)) ∧ srcs.length = count := by
  induction h with
  | start => exact ⟨_, rfl, List.length_replicate⟩
  | next hprev hid hitems ih =>
    obtain ⟨srcs, hrun, hlen⟩ := ih (Nat.le_of_succ_le hn)
    obtain ⟨source, hpass⟩ := parseEntry_next hfuel hid hitems (Nat.lt_of_lt_of_eq hn hlen.symm)
    exact ⟨srcs.set _ source, by rw [SdesWalk.passes, forLeave_next hrun, hpass],
      by rw [List.length_set, hlen]⟩

theorem passes_outcome (buffer : List UInt8) (hfuel : 256 ≤ fuel) (hn : n ≤ count) :
    (∃ off srcs, passes fuel count buffer n = .ok (.next (off, srcs)) ∧ srcs.length = count ∧
      Entries buffer n off) ∨
    (∃ srcs m off, passes fuel count buffer n = .ok (.leave srcs) ∧ m < n ∧
      Entries buffer m off ∧ off + 4 ≤ buffer.length ∧ Items buffer (off + 4) [] none) ∨
    passes fuel count buffer n = .error .bounds := by
  induction n with
  | zero => exact .inl ⟨4, _, rfl, List.length_replicate, .start⟩
  | succ n ih =>
    rcases ih (Nat.le_of_succ_le hn) with ⟨off, srcs, hrun, hlen, hentries⟩ |
      ⟨srcs, m, off, hrun, hm, hentries⟩ | hrun
    · rw [passes, forLeave_next hrun]
      rcases parseEntry_outcome hfuel off (show n < srcs.length by omega) with
        ⟨source, last, hpass, hid, hitems⟩ | ⟨source, hpass, hid, hitems⟩ | hpass
      · exact .inl ⟨_, _, hpass, by rw [List.length_set, hlen], hentries.next hid hitems⟩
      · exact .inr (.inl ⟨_, n, off, hpass, Nat.lt_succ_self n, hentries, hid, hitems⟩)
      · exact .inr (.inr hpass)
    · exact .inr (.inl ⟨srcs, m, off, forLeave_leave hrun, Nat.lt_succ_of_lt hm, hentries⟩)
    · refine .inr (.inr ?_)
      rw [passes] at hrun ⊢
      rw [forLeave, hrun, error_bind]

/-- After a repeated type the loop is left. -/
theorem passes_repeated (hfuel : 256 ≤ fuel) {m : Nat} (h : Entries buffer m off)
    (hid : off + 4 ≤ buffer.length) (hitems : Items buffer (off + 4) [] none) (hm : m < n)
    (hn : n ≤ count) : ∃ srcs, passes fuel count buffer n = .ok (.leave srcs) := by
  induction n with
  | zero => exact absurd hm (Nat.not_lt_zero m)
  | succ n ih =>
    by_cases hlt : m < n
    · obtain ⟨srcs, hrun⟩ := ih hlt (Nat.le_of_succ_le hn)
      exact ⟨srcs, forLeave_leave hrun⟩
    · have heq : m = n := by omega
      subst heq
      obtain ⟨srcs, hrun, hlen⟩ := h.passes hfuel (Nat.le_of_succ_le hn)
      obtain ⟨source, hpass⟩ := parseEntry_twice hfuel hid hitems (show m < srcs.length by omega)
      exact ⟨_, by rw [passes, forLeave_next hrun, hpass]⟩

/-! ## The parser -/

/-- The parser returns, and accepts only a buffer that has all its entries in it. -/
def SdesSafe (fuel : Nat) (buffer : List UInt8) : Prop :=
  ∀ packet, ∃ r packet', rtcpSdesParse fuel packet buffer buffer.length = .ok (r, packet') ∧
    (r = RTCP_OK → Complete buffer)

theorem rtcpSdesParse_refused (fuel : Nat) (h : Refused RTCP_SDES buffer) (packet : RtcpSdes) :
    ∃ packet', rtcpSdesParse fuel packet buffer buffer.length = .ok (RTCP_ERROR, packet') := by
  obtain ⟨r, header, hparse, hr⟩ := rtcpHeaderParse_refused h packet.header
  rw [rtcpSdesParse, bind_of_ok hparse]
  dsimp only
  rw [if_pos hr]
  exact ⟨_, rfl⟩

/-- A buffer of the right type is read without a look at its size. -/
theorem rtcpSdesParse_accepted (fuel : Nat) (h : ¬ Refused RTCP_SDES buffer) (packet : RtcpSdes) :
    (countOf buffer = 0 ∧ ∃ packet',
      rtcpSdesParse fuel packet buffer buffer.length = .ok (RTCP_OK, packet')) ∨
    countOf buffer ≠ 0 ∧ ∃ header, rtcpSdesParse fuel packet buffer buffer.length = (do
      let loop ← passes fuel (countOf buffer) buffer (countOf buffer)
      match loop with
      | .leave srcs => .ok (RTCP_ERROR, { packet with header := header, srcs := .obj srcs })
      | .next (_, srcs) => .ok (RTCP_OK, { packet with header := header, srcs := .obj srcs })) := by
  have hlen : 4 ≤ buffer.length := by
    rw [Refused] at h
    omega
  obtain ⟨header, -, -, -, hcount, -, hparse⟩ := rtcpHeaderParse_accepted h
  rw [rtcpSdesParse, bind_of_ok (hparse packet.header _ hlen), ← hcount]
  dsimp only
  rw [if_neg (not_not.mpr rfl)]
  by_cases hzero : header.count = 0
  · rw [if_neg (not_not.mpr hzero), hzero]
    exact .inl ⟨rfl, _, rfl⟩
  · rw [if_pos hzero]
    exact .inr ⟨fun h0 => hzero (BitVec.eq_of_toNat_eq h0), header, rfl⟩

theorem rtcpSdesParse_complete (hfuel : 256 ≤ fuel) (h : ¬ Refused RTCP_SDES buffer)
    (hcomplete : Complete buffer) (packet : RtcpSdes) :
    ∃ packet', rtcpSdesParse fuel packet buffer buffer.length = .ok (RTCP_OK, packet') := by
  obtain ⟨off, hentries, -⟩ := hcomplete
  rcases rtcpSdesParse_accepted fuel h packet with ⟨-, hrun⟩ | ⟨-, header, hrun⟩
  · exact hrun
  · obtain ⟨srcs, hloop, -⟩ := hentries.passes hfuel (Nat.le_refl _)
    rw [hrun, bind_of_ok hloop]
    exact ⟨_, rfl⟩

theorem rtcpSdesParse_repeated (hfuel : 256 ≤ fuel) (h : ¬ Refused RTCP_SDES buffer)
    (hrepeated : Repeated buffer) (packet : RtcpSdes) :
    ∃ packet', rtcpSdesParse fuel packet buffer buffer.length = .ok (RTCP_ERROR, packet') := by
  obtain ⟨n, off, hn, hentries, hid, hitems⟩ := hrepeated
  rcases rtcpSdesParse_accepted fuel h packet with ⟨hzero, -⟩ | ⟨-, header, hrun⟩
  · omega
  · obtain ⟨srcs, hloop⟩ := passes_repeated hfuel hentries hid hitems hn (Nat.le_refl _)
    rw [hrun, bind_of_ok hloop]
    exact ⟨_, rfl⟩

/-- The parser returns from a buffer of the right type with an error that the walk explains or
with all entries read, or stops outside the buffer. -/
theorem rtcpSdesParse_outcome (hfuel : 256 ≤ fuel) (h : ¬ Refused RTCP_SDES buffer)
    (packet : RtcpSdes) :
    (∃ packet', rtcpSdesParse fuel packet buffer buffer.length = .ok (RTCP_ERROR, packet') ∧
      Repeated buffer) ∨
    (∃ packet', rtcpSdesParse fuel packet buffer buffer.length = .ok (RTCP_OK, packet')) ∨
    rtcpSdesParse fuel packet buffer buffer.length = .error .bounds := by
  rcases rtcpSdesParse_accepted fuel h packet with ⟨-, hrun⟩ | ⟨-, header, hrun⟩
  · exact .inr (.inl hrun)
  · rw [hrun]
    rcases passes_outcome buffer hfuel (Nat.le_refl (countOf buffer)) with
      ⟨off, srcs, hloop, -⟩ | ⟨srcs, n, off, hloop, hrepeated⟩ | hloop
    · rw [bind_of_ok hloop]
      exact .inr (.inl ⟨_, rfl⟩)
    · rw [bind_of_ok hloop]
      exact .inl ⟨_, rfl, n, off, hrepeated⟩
    · rw [hloop, error_bind]
      exact .inr (.inr rfl)

/-- The parser always ends. It is safe exactly on what it refuses for its header, on what has an
item twice before the buffer ends, and on what has all its entries in the buffer. -/
theorem rtcpSdesParse_safe_iff (buffer : List UInt8) (hfuel : 256 ≤ fuel) :
    (∀ packet, rtcpSdesParse fuel packet buffer buffer.length ≠ .error .fuel) ∧
    (SdesSafe fuel buffer ↔
      Refused RTCP_SDES buffer ∨ Repeated buffer ∨ Complete buffer) := by
  by_cases hrefused : Refused RTCP_SDES buffer
  · have hrun := rtcpSdesParse_refused fuel hrefused
    refine ⟨fun packet herror => ?_, fun _ => .inl hrefused, fun _ packet => ?_⟩
    · obtain ⟨packet', hok⟩ := hrun packet
      rw [hok] at herror
      cases herror
    · obtain ⟨packet', hok⟩ := hrun packet
      exact ⟨_, packet', hok, fun h => absurd h (by decide)⟩
  rw [or_iff_right hrefused]
  constructor
  · intro packet herror
    rcases rtcpSdesParse_outcome hfuel hrefused packet with ⟨_, hrun, -⟩ | ⟨_, hrun⟩ | hrun
    · rw [hrun] at herror
      cases herror
    · rw [hrun] at herror
      cases herror
    · rw [hrun] at herror
      cases herror
  constructor
  · intro hsafe
    obtain ⟨r, packet', hrun, hok⟩ := hsafe rtcpSdesCreate
    rcases rtcpSdesParse_outcome hfuel hrefused rtcpSdesCreate with ⟨_, -, hrepeated⟩ |
      ⟨_, hrun'⟩ | hrun'
    · exact .inl hrepeated
    · rw [hrun'] at hrun
      cases hrun
      exact .inr (hok rfl)
    · rw [hrun'] at hrun
      cases hrun
  · intro hwalk packet
    rcases hwalk with hrepeated | hcomplete
    · obtain ⟨packet', hrun⟩ := rtcpSdesParse_repeated hfuel hrefused hrepeated packet
      exact ⟨_, packet', hrun, fun h => absurd h (by decide)⟩
    · obtain ⟨packet', hrun⟩ := rtcpSdesParse_complete hfuel hrefused hcomplete packet
      exact ⟨_, packet', hrun, fun _ => hcomplete⟩

/-- One source with a name of one byte. -/
theorem rtcpSdesParse_safe_name :
    SdesSafe 256 [0x81, 202, 0, 2, 0, 0, 0, 7, 1, 1, 97, 0] := by
  have hitems : Items [0x81, 202, 0, 2, 0, 0, 0, 7, 1, 1, 97, 0] (4 + 4) [] (some 11) :=
    .item (show _ = some 1 from rfl) (by decide) (show _ = some 1 from rfl) (by decide)
      (by decide) (.zero rfl)
  have hentries := Entries.start.next (by decide) hitems
  exact (rtcpSdesParse_safe_iff [0x81, 202, 0, 2, 0, 0, 0, 7, 1, 1, 97, 0]
    (Nat.le_refl 256)).2.mpr (.inr (.inr ⟨12, hentries, by decide⟩))

/-- One source whose list of items ends with the buffer. -/
theorem rtcpSdesParse_safe_fails : ¬ SdesSafe 256 [0x81, 202, 0, 1, 0, 0, 0, 7] := by
  intro h
  obtain ⟨r, packet', hrun, -⟩ := h rtcpSdesCreate
  have hfault : rtcpSdesParse 256 rtcpSdesCreate [0x81, 202, 0, 1, 0, 0, 0, 7] 8
      = .error .bounds := rfl
  rw [show ([0x81, 202, 0, 1, 0, 0, 0, 7] : List UInt8).length = 8 from rfl, hfault] at hrun
  cases hrun

end RtpSdr.Rtp.SdesWalk
