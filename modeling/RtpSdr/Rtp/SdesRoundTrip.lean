import RtpSdr.Rtp.Sdes

/-!
# Serialized source descriptions are read back

The serializer fills an entry up by its own size, the parser by the offset at which
the entry ends. The two agree because every entry begins on a multiple of four.
-/
namespace RtpSdr.Rtp.SdesRoundTrip

open RtpSdr.Lib.Checked
open RtpSdr.Lib.Memory
open RtpSdr.Lib.BigEndian
open RtpSdr.Rtp.Util
open RtpSdr.Rtp.RtcpHeader
open RtpSdr.Rtp.Sdes

variable {source : SdesEntry} {e : Entry} {packet : RtcpSdes} {c : Content}

/-! ## One item -/

/-- The entry with its first items only: what the parser has built so far. -/
def take (e : Entry) (n : Nat) : Entry where
  id := e.id
  items := e.items.take n
  distinct := (List.take_sublist n _).map _ |>.nodup e.distinct

theorem take_all {n : Nat} (h : e.items.length ≤ n) : take e n = e := by
  cases e with
  | mk id items distinct => simp only [take, List.take_of_length_le h]

theorem toUInt32_type (item : Item) :
    (UInt8.ofNat item.type).toUInt32 = UInt32.ofNat item.type := by
  have := item.type_le
  rw [← UInt32.toNat_inj, UInt8.toNat_toUInt32, UInt8.toNat_ofNat', UInt32.toNat_ofNat']
  omega

theorem type_ne_zero (item : Item) : UInt8.ofNat item.type ≠ 0 := by
  intro h
  have hpos := item.type_pos
  have hle := item.type_le
  rw [← UInt8.toNat_inj, UInt8.toNat_ofNat'] at h
  change item.type % 256 = 0 at h
  omega

/-- A type that no item has is not found. -/
theorem getItem_none (h : HoldsEntry source e) {type : Nat} (hle : type ≤ 255)
    (hnew : ∀ item ∈ e.items, item.type ≠ type) :
    getItem source (UInt32.ofNat type) = .ok none := by
  obtain ⟨items, hp, hitems⟩ := h.items
  have hlen := hitems.length_eq
  have hne : items ≠ [] → source.items = .obj items := by
    intro hne
    apply hp
    intro he
    rw [he, List.length_nil] at hlen
    exact hne (List.length_eq_zero_iff.mp hlen)
  rw [getItem, h.itemCount, ← hlen, find_ok hne]
  congr 1
  rw [List.findIdx?_eq_none_iff]
  intro item hitem
  obtain ⟨i, hi, rfl⟩ := List.getElem_of_mem hitem
  have hholds : HoldsItem items[i] e.items[i] := hitems.get hi (hlen ▸ hi)
  have hle' := (e.items[i]).type_le
  rw [beq_eq_false_iff_ne, hholds.type]
  intro heq
  rw [← UInt32.toNat_inj, UInt32.toNat_ofNat', UInt32.toNat_ofNat'] at heq
  have hne := hnew _ (List.getElem_mem (hlen ▸ hi))
  omega

/-- The item in its new cell. -/
def newItem (item : Item) : SdesItem :=
  ⟨UInt32.ofNat item.type, UInt8.ofNat item.data.length, .obj item.data⟩

theorem toNat_length (item : Item) :
    (UInt8.ofNat item.data.length).toNat = item.data.length := by
  have := item.data_le
  rw [UInt8.toNat_ofNat']
  omega

theorem holdsItem_newItem (item : Item) : HoldsItem (newItem item) item :=
  ⟨rfl, toNat_length item, fun _ => rfl⟩

theorem storeItem_ok (source : SdesEntry) {itemCount : UInt8} (items : List SdesItem) (item : Item)
    (hcount : itemCount.toNat = items.length + 1) {data rest : List UInt8} {off : Nat}
    (hdata : data.drop off = item.data ++ rest) (hoff : off ≤ data.length) :
    storeItem source itemCount (realloc items itemCount.toNat emptyItem)
        (UInt32.ofNat item.type) data off (UInt8.ofNat item.data.length)
      = .ok (some (newItem item),
          ⟨source.id, itemCount, .obj (items ++ [newItem item])⟩) := by
  rw [storeItem, toNat_length, bind_of_ok (slice_drop hdata hoff), hcount]
  rw [bind_of_ok (storeLast_realloc items emptyItem _)]
  rfl

/-- No item before the next one has its type. -/
theorem type_ne_of_mem_take {i : Nat} (hi : i < e.items.length) :
    ∀ item ∈ (take e i).items, item.type ≠ e.items[i].type := by
  have hdistinct := (take e (i + 1)).distinct
  change ((e.items.take (i + 1)).map (·.type)).Nodup at hdistinct
  rw [List.take_succ_eq_append_getElem hi, List.map_append, List.nodup_append] at hdistinct
  intro item hitem
  exact hdistinct.2.2 _ (List.mem_map_of_mem hitem) _ (List.mem_singleton_self _)

/-- The entry with one more item. -/
theorem holdsEntry_take_succ {i : Nat} (hi : i < e.items.length) {id : UInt32} (hid : id = e.id)
    {items : List SdesItem} (hitems : List.Forall₂ HoldsItem items (take e i).items)
    {itemCount : UInt8} (hcount : itemCount.toNat = i + 1) :
    HoldsEntry ⟨id, itemCount, .obj (items ++ [newItem e.items[i]])⟩ (take e (i + 1)) := by
  constructor
  · exact hid
  · change itemCount.toNat = (e.items.take (i + 1)).length
    rw [List.length_take, hcount]
    omega
  · refine ⟨_, fun _ => rfl, ?_⟩
    change List.Forall₂ HoldsItem _ (e.items.take (i + 1))
    rw [List.take_succ_eq_append_getElem hi]
    exact List.rel_append hitems (.cons (holdsItem_newItem _) .nil)

/-- The next item of an entry is put behind the ones it has. -/
theorem createItem_ok {i : Nat} (hi : i < e.items.length) (h : HoldsEntry source (take e i))
    {data rest : List UInt8} {off : Nat} (hdata : data.drop off = e.items[i].data ++ rest)
    (hoff : off ≤ data.length) :
    ∃ source', createItem source (UInt32.ofNat e.items[i].type) data off
        (UInt8.ofNat e.items[i].data.length) = .ok (some (newItem e.items[i]), source') ∧
      HoldsEntry source' (take e (i + 1)) := by
  have hnew := type_ne_of_mem_take hi
  have hcount := h.itemCount
  obtain ⟨items, hp, hitems⟩ := h.items
  have hlen := hitems.length_eq
  have htake : (take e i).items.length = i := by
    change (e.items.take i).length = i
    rw [List.length_take]
    omega
  have hmax := e.length_items_le
  rw [createItem, bind_of_ok (getItem_none h (e.items[i]).type_le hnew), if_neg (by decide)]
  rw [htake] at hlen hcount
  by_cases hzero : source.itemCount = 0
  · have hempty : items = [] := by
      apply List.eq_nil_of_length_eq_zero
      rw [hlen, ← hcount, hzero]
      rfl
    have hone : UInt8.toNat 1 = i + 1 := by
      rw [← hcount, hzero]
      rfl
    refine ⟨_, ?_, holdsEntry_take_succ hi h.id hitems hone⟩
    rw [if_pos hzero, hempty]
    exact storeItem_ok source [] _ rfl hdata hoff
  · have hpos : 0 < i := by
      rw [← hcount]
      exact Nat.pos_of_ne_zero fun h0 => hzero (UInt8.toNat_inj.mp h0)
    have hnext : (source.itemCount + 1).toNat = i + 1 := by
      rw [UInt8.toNat_add, hcount]
      change (i + 1) % 256 = i + 1
      omega
    refine ⟨_, ?_, holdsEntry_take_succ hi h.id hitems hnext⟩
    rw [if_neg hzero, if_neg, hp, Ptr.deref_obj, ok_bind]
    · exact storeItem_ok source items _ (by rw [hnext, hlen]) hdata hoff
    · apply List.ne_nil_of_length_pos
      rw [htake]
      exact hpos
    · intro hmax'
      rw [hmax'] at hcount
      change 255 = i at hcount
      omega

theorem parseItem_ok {i : Nat} (hi : i < e.items.length) (h : HoldsEntry source (take e i))
    {buffer rest : List UInt8} {off : Nat}
    (hbuffer : buffer.drop off = itemBytes e.items[i] ++ rest) :
    ∃ source', parseItem buffer (off, source)
        = .ok (.next (off + (itemBytes e.items[i]).length, source')) ∧
      HoldsEntry source' (take e (i + 1)) := by
  have hlength := drop_cons hbuffer
  have hdata := drop_cons hlength
  have hoff : off + 1 + 1 ≤ buffer.length := by
    have := congrArg List.length hbuffer
    rw [List.length_drop, List.length_append, length_itemBytes] at this
    omega
  obtain ⟨source', hcreate, hholds⟩ := createItem_ok hi h hdata hoff
  refine ⟨source', ?_, hholds⟩
  rw [parseItem, bind_of_ok (load_drop hbuffer), if_neg (type_ne_zero _),
    bind_of_ok (load_drop hlength), toUInt32_type, bind_of_ok hcreate]
  dsimp only
  rw [(holdsItem_newItem e.items[i]).size]

/-- The zero behind the items ends the entry. -/
theorem parseItem_end {buffer rest : List UInt8} {off : Nat}
    (hbuffer : buffer.drop off = 0 :: rest) :
    parseItem buffer (off, source) = .ok (.leave (.next (off + (4 - off % 4), source))) := by
  rw [parseItem, bind_of_ok (load_drop hbuffer), if_pos rfl]

/-! ## One entry -/

/-- The items that follow, `k` of them, and the zero. -/
theorem parseItems_ok {buffer rest : List UInt8} (k i : Nat) {fuel off : Nat} {source : SdesEntry}
    (hk : i + k = e.items.length) (hfuel : k < fuel) (h : HoldsEntry source (take e i))
    (hbuffer : buffer.drop off = itemsBytes (e.items.drop i) ++ 0 :: rest) :
    ∃ source', loopFuel (parseItem buffer) fuel (off, source)
        = .ok (.next (off + (itemsBytes (e.items.drop i)).length
          + (4 - (off + (itemsBytes (e.items.drop i)).length) % 4), source')) ∧
      HoldsEntry source' e := by
  induction k generalizing i fuel off source with
  | zero =>
    obtain ⟨n, rfl⟩ := Nat.exists_eq_add_of_lt hfuel
    have hnil : e.items.drop i = [] := List.drop_eq_nil_of_le (by omega)
    rw [hnil] at hbuffer ⊢
    rw [take_all (by omega)] at h
    exact ⟨source, loopFuel_leave _ (parseItem_end hbuffer), h⟩
  | succ k ih =>
    obtain ⟨n, rfl⟩ := Nat.exists_eq_add_of_lt hfuel
    have hi : i < e.items.length := by omega
    rw [List.drop_eq_getElem_cons hi, itemsBytes_cons, List.append_assoc] at hbuffer
    obtain ⟨source₁, hone, hholds⟩ := parseItem_ok hi h hbuffer
    obtain ⟨source', hrest, hall⟩ := ih (i + 1) (by omega) (show k < k + 1 + n by omega) hholds
      (drop_add _ hbuffer)
    refine ⟨source', ?_, hall⟩
    rw [loopFuel_next _ hone, hrest, List.drop_eq_getElem_cons hi, itemsBytes_cons,
      List.length_append, Nat.add_assoc off]

/-- From a multiple of four the parser gets to where the serializer has stopped. -/
theorem aligned (e : Entry) {off : Nat} (hoff : off % 4 = 0) :
    off + 4 + (itemsBytes e.items).length + (4 - (off + 4 + (itemsBytes e.items).length) % 4)
      = off + e.size := by
  rw [Entry.size, roundUp]
  split <;> omega

/-- What is behind an entry's items is zero from the first byte on. -/
theorem fill_eq_cons (e : Entry) : ∃ zs, e.fill = 0 :: zs := by
  have := e.size_bounds
  refine ⟨List.replicate (e.size - (5 + (itemsBytes e.items).length)) 0, ?_⟩
  rw [Entry.fill, ← List.replicate_succ]
  congr 1
  omega

theorem parseEntryItems_ok {buffer rest : List UInt8} {off fuel : Nat}
    (hbuffer : buffer.drop off = entryBytes e ++ rest) (hoff : off % 4 = 0) (hfuel : 256 ≤ fuel) :
    ∃ source', readU32 buffer off = .ok e.id ∧
      loopFuel (parseItem buffer) fuel (off + 4, ⟨e.id, 0, .null⟩)
        = .ok (.next (off + e.size, source')) ∧ HoldsEntry source' e := by
  obtain ⟨zs, hzs⟩ := fill_eq_cons e
  have hmax := e.length_items_le
  rw [entryBytes, hzs, List.append_assoc, List.append_assoc] at hbuffer
  have hitems := drop_add _ hbuffer
  rw [length_bytes] at hitems
  have hstart : HoldsEntry ⟨e.id, 0, .null⟩ (take e 0) :=
    ⟨rfl, rfl, [], fun hne => absurd rfl hne, .nil⟩
  obtain ⟨source', hloop, hholds⟩ :=
    parseItems_ok e.items.length 0 (Nat.zero_add _) (show _ < fuel by omega) hstart hitems
  refine ⟨source', readU32_drop _ hbuffer, ?_, hholds⟩
  rw [List.drop_zero, aligned e hoff] at hloop
  exact hloop

/-! ## The packet -/

/-- The entries that have been read, then the cells that `calloc` has cleared. -/
def Filled (es : List Entry) (i : Nat) (srcs : List SdesEntry) : Prop :=
  ∃ done, srcs = done ++ List.replicate (es.length - i) ⟨0, 0, .null⟩ ∧
    List.Forall₂ HoldsEntry done (es.take i)

theorem Filled.store {es : List Entry} {i : Nat} {srcs : List SdesEntry} (h : Filled es i srcs)
    (hi : i < es.length) (hsource : HoldsEntry source es[i]) :
    ∃ srcs', store srcs i source = .ok srcs' ∧ Filled es (i + 1) srcs' := by
  obtain ⟨done, rfl, hdone⟩ := h
  have hlen : done.length = i := by
    rw [hdone.length_eq, List.length_take]
    omega
  refine ⟨_, store_filling source hlen hi, done ++ [source], rfl, ?_⟩
  rw [List.take_succ_eq_append_getElem hi]
  exact List.rel_append hdone (.cons hsource .nil)

/-- One pass reads the next entry and stops where the one behind it begins. -/
theorem parseEntry_ok {es : List Entry} {buffer rest : List UInt8}
    (hbuffer : buffer.drop 4 = entriesBytes es ++ rest) {fuel i : Nat} (hfuel : 256 ≤ fuel)
    (hi : i < es.length) {srcs : List SdesEntry} (hfilled : Filled es i srcs) :
    ∃ srcs', parseEntry fuel buffer i (4 + (entriesBytes (es.take i)).length, srcs)
        = .ok (.next (4 + (entriesBytes (es.take (i + 1))).length, srcs')) ∧
      Filled es (i + 1) srcs' := by
  have haligned := entriesBytes_aligned (es.take i)
  have hentry : buffer.drop (4 + (entriesBytes (es.take i)).length)
      = entryBytes es[i] ++ (entriesBytes (es.drop (i + 1)) ++ rest) := drop_flatMap hbuffer hi
  obtain ⟨source, hid, hloop, hsource⟩ := parseEntryItems_ok hentry (by omega) hfuel
  obtain ⟨srcs', hstore, hfilled'⟩ := hfilled.store hi hsource
  refine ⟨srcs', ?_, hfilled'⟩
  rw [parseEntry, bind_of_ok hid, bind_of_ok hloop]
  dsimp only
  rw [bind_of_ok hstore, List.take_succ_eq_append_getElem hi, entriesBytes_concat,
    List.length_append, length_entryBytes, Nat.add_assoc]

theorem parseEntries_ok {es : List Entry} {buffer rest : List UInt8}
    (hbuffer : buffer.drop 4 = entriesBytes es ++ rest) {fuel : Nat} (hfuel : 256 ≤ fuel) :
    ∃ offset srcs, parseEntries fuel es.length buffer = .ok (.next (offset, srcs)) ∧
      List.Forall₂ HoldsEntry srcs es := by
  have hrun := forLeave_invariant (b := parseEntry fuel buffer)
    (I := fun i s => s.1 = 4 + (entriesBytes (es.take i)).length ∧ Filled es i s.2)
    (Q := fun _ => False) (s := (4, List.replicate es.length ⟨0, 0, .null⟩)) es.length
    ⟨rfl, [], rfl, .nil⟩ (by
      rintro i ⟨off, srcs⟩ hi ⟨rfl, hfilled⟩
      obtain ⟨srcs', hpass, hfilled'⟩ := parseEntry_ok hbuffer hfuel hi hfilled
      exact .inl ⟨_, hpass, rfl, hfilled'⟩)
  rcases hrun with ⟨⟨offset, srcs⟩, hrun, -, done, hdone, hholds⟩ | ⟨_, _, hfalse⟩
  · rw [Nat.sub_self, List.replicate_zero, List.append_nil] at hdone
    rw [List.take_length] at hholds
    obtain rfl : srcs = done := hdone
    exact ⟨offset, srcs, hrun, hholds⟩
  · exact absurd hfalse not_false

/-- The bytes of a packet are read back. -/
theorem rtcpSdesParse_encode (c : Content) {fuel : Nat} (hfuel : 256 ≤ fuel) :
    ∃ packet, rtcpSdesParse fuel rtcpSdesCreate c.encode c.size = .ok (RTCP_OK, packet) ∧
      Holds packet c := by
  have hdef : c.size = 4 + (entriesBytes c.entries).length := rfl
  have hheader : rtcpHeaderParse rtcpSdesCreate.header
      (headerBytes c.header ++ entriesBytes c.entries) c.size
        = .ok (c.header.pt.toNat, c.header) := rtcpHeaderParse_ok _ (by omega) _ rfl
  have hpt : (c.header.pt.toNat : Int) = RTCP_SDES.toNat := rfl
  have hbuffer : c.encode.drop 4 = entriesBytes c.entries ++ [] := by
    rw [Content.encode, List.drop_left' (length_headerBytes _), List.append_nil]
  obtain ⟨offset, srcs, hloop, hholds⟩ := parseEntries_ok hbuffer hfuel
  rw [rtcpSdesParse, Content.encode, bind_of_ok hheader, ← Content.encode]
  dsimp only
  rw [if_neg (not_not.mpr hpt)]
  by_cases hzero : c.header.count = 0
  · have hnil : c.entries = [] := by
      apply List.eq_nil_of_length_eq_zero
      rw [← c.count_eq, hzero]
      rfl
    rw [if_neg (not_not.mpr hzero)]
    refine ⟨_, rfl, rfl, [], fun hne => absurd hnil hne, ?_⟩
    rw [hnil]
    exact .nil
  · rw [if_pos hzero, c.count_eq, bind_of_ok hloop]
    exact ⟨_, rfl, rfl, srcs, fun _ => rfl, hholds⟩

/-- Every content has a packet. -/
def packetOf (c : Content) : RtcpSdes where
  header := c.header
  srcs := .obj (c.entries.map fun e =>
    ⟨e.id, UInt8.ofNat e.items.length, .obj (e.items.map newItem)⟩)

theorem holds_packetOf (c : Content) : Holds (packetOf c) c := by
  refine ⟨rfl, _, fun _ => rfl, ?_⟩
  rw [List.forall₂_map_left_iff, List.forall₂_same]
  intro e _
  refine ⟨rfl, ?_, _, fun _ => rfl, ?_⟩
  · have := e.length_items_le
    change (UInt8.ofNat e.items.length).toNat = e.items.length
    rw [UInt8.toNat_ofNat']
    omega
  · rw [List.forall₂_map_left_iff, List.forall₂_same]
    exact fun item _ => holdsItem_newItem item

/-- A packet goes into a buffer of its size or more, and is read back from there. -/
theorem rtcpSdes_roundTrips (h : Holds packet c) {buffer : List UInt8}
    (hlt : buffer.length < 2 ^ 64) :
    ∃ size, rtcpSdesSize packet = .ok size ∧ (size ≤ buffer.length →
      ∃ bytes, rtcpSdesSerialize packet buffer buffer.length
          = .ok (size, bytes ++ buffer.drop size) ∧
        bytes.length = size ∧ size % 4 = 0 ∧ ∀ fuel, 256 ≤ fuel →
          ∃ packet', rtcpSdesParse fuel rtcpSdesCreate bytes size = .ok (RTCP_OK, packet') ∧
            packet'.header = packet.header ∧ Holds packet' c) := by
  refine ⟨c.size, rtcpSdesSize_ok h, fun hsize => ?_⟩
  refine ⟨c.encode, rtcpSdesSerialize_ok h hsize hlt hsize, length_encode c, ?_, ?_⟩
  · have := entriesBytes_aligned c.entries
    rw [Content.size]
    omega
  · intro fuel hfuel
    obtain ⟨packet', hparse, hholds⟩ := rtcpSdesParse_encode c hfuel
    exact ⟨packet', hparse, by rw [hholds.header, h.header], hholds⟩

/-- One source with a name and an empty note. -/
def nameAndNote : Content where
  p := 0
  length := 2
  entries := [⟨7, [⟨1, [97, 98], by decide, by decide, by decide⟩,
    ⟨7, [], by decide, by decide, by decide⟩], by decide⟩]
  entries_le := by decide

theorem rtcpSdes_roundTrips_nameAndNote :
    ∃ size, rtcpSdesSize (packetOf nameAndNote) = .ok size ∧ (size ≤ 20 →
      ∃ bytes, rtcpSdesSerialize (packetOf nameAndNote) (List.replicate 20 0) 20
          = .ok (size, bytes ++ (List.replicate 20 0).drop size) ∧
        bytes.length = size ∧ size % 4 = 0 ∧ ∀ fuel, 256 ≤ fuel →
          ∃ packet', rtcpSdesParse fuel rtcpSdesCreate bytes size = .ok (RTCP_OK, packet') ∧
            packet'.header = (packetOf nameAndNote).header ∧ Holds packet' nameAndNote) :=
  @rtcpSdes_roundTrips _ _ (holds_packetOf nameAndNote) (List.replicate 20 0) (by decide)

end RtpSdr.Rtp.SdesRoundTrip
