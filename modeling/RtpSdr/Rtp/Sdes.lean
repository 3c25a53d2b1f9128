import Mathlib.Data.Finset.Card
import Mathlib.Order.Interval.Finset.Nat
import RtpSdr.Rtp.RtcpHeader

/-!
# Source descriptions: `rtcp_sdes.c`

A list of sources, each with a list of items. An entry ends with a zero byte and is
filled up to a multiple of four: the serializer rounds the entry's own size, the
parser moves to the next multiple of four in the buffer.
-/
namespace RtpSdr.Rtp.Sdes

open RtpSdr.Lib.Checked
open RtpSdr.Lib.Memory
open RtpSdr.Lib.BigEndian
open RtpSdr.Rtp.Util
open RtpSdr.Rtp.RtcpHeader

/-- `rtcp_sdes_item`; the type is an enumeration, so an `int` of any value. -/
structure SdesItem where
  type : UInt32
  length : UInt8
  data : Ptr (List UInt8)

/-- `rtcp_sdes_entry`. -/
structure SdesEntry where
  id : UInt32
  itemCount : UInt8
  items : Ptr (List SdesItem)

/-- `rtcp_sdes`. -/
structure RtcpSdes where
  header : RtcpHeaderT
  srcs : Ptr (List SdesEntry)

section Source

def itemSize (item : SdesItem) : Nat := 2 + item.length.toNat

/-- The next multiple of four. -/
def roundUp (size : Nat) : Nat := if size % 4 ≠ 0 then size + (4 - size % 4) else size

def entrySize (source : SdesEntry) : Exec Nat := do
  let size ← forUp (fun i size => do
    let items ← source.items.deref
    let item ← load items i
    .ok (size + itemSize item)) source.itemCount.toNat 5
  .ok (roundUp size)

/-- The index of the first item of a type. -/
def getItem (source : SdesEntry) (type : UInt32) : Exec (Option Nat) :=
  find source.items source.itemCount.toNat fun item => item.type == type

/-- What a new cell of an array of items holds until it is written. -/
def emptyItem : SdesItem := ⟨0, 0, .null⟩

/-- The end of `create_item`: the last cell of the new array is written. -/
def storeItem (source : SdesEntry) (itemCount : UInt8) (items : List SdesItem) (type : UInt32)
    (data : List UInt8) (off : Nat) (length : UInt8) : Exec (Option SdesItem × SdesEntry) := do
  let bytes ← slice data off length.toNat
  let items ← storeLast items itemCount.toNat ⟨type, length, .obj bytes⟩
  .ok (some ⟨type, length, .obj bytes⟩,
    { source with itemCount := itemCount, items := .obj items })

/-- The new item, unless the type is there already or 255 items are, and the entry
afterwards. The item's bytes lie in `data` from `off` on. -/
def createItem (source : SdesEntry) (type : UInt32) (data : List UInt8) (off : Nat)
    (length : UInt8) : Exec (Option SdesItem × SdesEntry) := do
  let found ← getItem source type
  if found.isSome then .ok (none, source)
  else if source.itemCount = 0 then
    storeItem source 1 (realloc [] 1 emptyItem) type data off length
  else if source.itemCount = 0xff then .ok (none, source)
  else do
    let items ← source.items.deref
    let itemCount := source.itemCount + 1
    storeItem source itemCount (realloc items itemCount.toNat emptyItem) type data off length

/-- The loop over the items of an entry that goes to `buffer + off`: the offset behind
them and the buffer. -/
def serializeItems (source : SdesEntry) (buffer : List UInt8) (off : Nat) :
    Exec (Nat × List UInt8) :=
  forUp (fun i s => do
    let items ← source.items.deref
    let item ← load items i
    let buffer ← store s.2 (off + s.1) item.type.toUInt8
    let buffer ← store buffer (off + (s.1 + 1)) item.length
    let bytes ← item.data.read item.length.toNat
    let buffer ← blit buffer (off + (s.1 + 2)) bytes
    .ok (s.1 + 2 + item.length.toNat, buffer)) source.itemCount.toNat (4, buffer)

/-- The entry goes to `buffer + off`. The result and the buffer afterwards. -/
def serializeEntry (source : SdesEntry) (buffer : List UInt8) (off size : Nat) :
    Exec (Int × List UInt8) := do
  let sourceSize ← entrySize source
  if size < sourceSize then .ok (RTCP_ERROR, buffer)
  else do
    let buffer ← writeU32 buffer off source.id
    let (offset, buffer) ← serializeItems source buffer off
    let buffer ← forUp (fun j buffer => store buffer (off + (offset + j)) 0)
      (sourceSize - offset) buffer
    .ok (castInt sourceSize, buffer)

/-- `rtcp_sdes_create`. -/
def rtcpSdesCreate : RtcpSdes := ⟨⟨0, 0, 0, 0, 0⟩, .null⟩

def rtcpSdesInit (packet : RtcpSdes) : RtcpSdes :=
  { packet with header := { packet.header with version := 2, pt := RTCP_SDES } }

def rtcpSdesSize (packet : RtcpSdes) : Exec Nat :=
  forUp (fun i size => do
    let sources ← packet.srcs.deref
    let source ← load sources i
    let entry ← entrySize source
    .ok (size + entry)) packet.header.count.toNat 4

/-- The loop over the entries: the offset and the buffer, or the buffer at an error. -/
def serializeEntries (packet : RtcpSdes) (buffer : List UInt8) (size : Nat) :
    Exec (Step (Nat × List UInt8) (List UInt8)) :=
  forLeave (fun i s => do
    let srcs ← packet.srcs.deref
    let source ← load srcs i
    let (result, buffer) ← serializeEntry source s.2 s.1 (sizeSub size s.1)
    if result < 0 then .ok (.leave buffer)
    else .ok (.next (s.1 + result.toNat, buffer))) packet.header.count.toNat (4, buffer)

/-- The result and the buffer afterwards. -/
def rtcpSdesSerialize (packet : RtcpSdes) (buffer : List UInt8) (size : Nat) :
    Exec (Int × List UInt8) := do
  let packetSize ← rtcpSdesSize packet
  if size < packetSize then .ok (RTCP_ERROR, buffer)
  else do
    let (r, buffer) ← rtcpHeaderSerialize packet.header buffer size
    if r < 0 then .ok (RTCP_ERROR, buffer)
    else do
      let loop ← serializeEntries packet buffer size
      match loop with
      | .leave buffer => .ok (RTCP_ERROR, buffer)
      | .next (_, buffer) => .ok (castInt packetSize, buffer)

/-- One pass of the loop over the items of an entry. It ends with the entry and the offset
of the next one, or with the entry when an item is refused. -/
def parseItem (buffer : List UInt8) (s : Nat × SdesEntry) :
    Exec (Step (Nat × SdesEntry) (Step (Nat × SdesEntry) SdesEntry)) := do
  let type ← load buffer s.1
  if type = 0 then .ok (.leave (.next (s.1 + (4 - s.1 % 4), s.2)))
  else do
    let length ← load buffer (s.1 + 1)
    let (item, source) ← createItem s.2 type.toUInt32 buffer (s.1 + 2) length
    match item with
    | none => .ok (.leave (.leave source))
    | some item => .ok (.next (s.1 + itemSize item, source))

/-- One pass of the loop over the entries. -/
def parseEntry (fuel : Nat) (buffer : List UInt8) (i : Nat) (s : Nat × List SdesEntry) :
    Exec (Step (Nat × List SdesEntry) (List SdesEntry)) := do
  let id ← readU32 buffer s.1
  let loop ← loopFuel (parseItem buffer) fuel (s.1 + 4, ⟨id, 0, .null⟩)
  match loop with
  | .leave source => do
    let srcs ← store s.2 i source
    .ok (.leave srcs)
  | .next (offset, source) => do
    let srcs ← store s.2 i source
    .ok (.next (offset, srcs))

/-- The loop over the entries, which `calloc` has cleared. -/
def parseEntries (fuel count : Nat) (buffer : List UInt8) :
    Exec (Step (Nat × List SdesEntry) (List SdesEntry)) :=
  forLeave (parseEntry fuel buffer) count (4, List.replicate count ⟨0, 0, .null⟩)

/-- The result and the packet afterwards. -/
def rtcpSdesParse (fuel : Nat) (packet : RtcpSdes) (buffer : List UInt8) (size : Nat) :
    Exec (Int × RtcpSdes) := do
  let (pt, header) ← rtcpHeaderParse packet.header buffer size
  let packet := { packet with header := header }
  if pt ≠ RTCP_SDES.toNat then .ok (RTCP_ERROR, packet)
  else if packet.header.count ≠ 0 then do
    let loop ← parseEntries fuel packet.header.count.toNat buffer
    match loop with
    | .leave srcs => .ok (RTCP_ERROR, { packet with srcs := .obj srcs })
    | .next (_, srcs) => .ok (RTCP_OK, { packet with srcs := .obj srcs })
  else .ok (RTCP_OK, packet)

end Source

/-! ## The content of a packet -/

/-- An item that the wire can carry. -/
structure Item where
  type : Nat
  data : List UInt8
  type_pos : 0 < type
  type_le : type ≤ 255
  data_le : data.length ≤ 255

/-- A source with items of distinct types. -/
structure Entry where
  id : UInt32
  items : List Item
  distinct : (items.map (·.type)).Nodup

/-- A packet's entries, with the header fields they do not determine. -/
structure Content where
  p : BitVec 1
  length : UInt16
  entries : List Entry
  entries_le : entries.length ≤ 31

def itemBytes (item : Item) : List UInt8 :=
  UInt8.ofNat item.type :: UInt8.ofNat item.data.length :: item.data

def itemsBytes (items : List Item) : List UInt8 := items.flatMap itemBytes

def Entry.size (e : Entry) : Nat := roundUp (5 + (itemsBytes e.items).length)

/-- The zero that ends the list and those that fill the entry up. -/
def Entry.fill (e : Entry) : List UInt8 :=
  List.replicate (e.size - (4 + (itemsBytes e.items).length)) 0

def entryBytes (e : Entry) : List UInt8 := bytes 4 e.id.toNat ++ itemsBytes e.items ++ e.fill

def entriesBytes (es : List Entry) : List UInt8 := es.flatMap entryBytes

def Content.header (c : Content) : RtcpHeaderT where
  version := 2
  p := c.p
  count := BitVec.ofNat 5 c.entries.length
  pt := RTCP_SDES
  length := c.length

def Content.encode (c : Content) : List UInt8 := headerBytes c.header ++ entriesBytes c.entries

def Content.size (c : Content) : Nat := 4 + (entriesBytes c.entries).length

structure HoldsItem (item : SdesItem) (c : Item) : Prop where
  type : item.type = UInt32.ofNat c.type
  length : item.length.toNat = c.data.length
  data : c.data ≠ [] → item.data = .obj c.data

structure HoldsEntry (source : SdesEntry) (e : Entry) : Prop where
  id : source.id = e.id
  itemCount : source.itemCount.toNat = e.items.length
  items : HoldsList HoldsItem source.items e.items

structure Holds (packet : RtcpSdes) (c : Content) : Prop where
  header : packet.header = c.header
  srcs : HoldsList HoldsEntry packet.srcs c.entries

/-! ## Sizes -/

theorem roundUp_spec (n : Nat) : n ≤ roundUp n ∧ roundUp n < n + 4 ∧ roundUp n % 4 = 0 := by
  unfold roundUp
  split <;> omega

theorem roundUp_of_aligned {n : Nat} (h : n % 4 = 0) : roundUp n = n := if_neg (not_not.mpr h)

/-- A block of `n` bytes behind `size` others, rounded up as the packets without a message do. -/
theorem roundUp_sizeAdd {size n : Nat} {isSet : Bool} (hsize : size % 4 = 0)
    (hset : n ≠ 0 → isSet = true) (hlt : roundUp (size + n) < 2 ^ 64) :
    (if isSet && decide (n ≠ 0) then
      if sizeAdd size n % 4 ≠ 0 then sizeAdd (sizeAdd size n) (4 - sizeAdd size n % 4)
      else sizeAdd size n
    else size) = roundUp (size + n) := by
  have hspec := roundUp_spec (size + n)
  by_cases hn : n = 0
  · rw [hn, decide_eq_false (by decide), Bool.and_false, if_neg (by decide),
      roundUp_of_aligned (by omega), Nat.add_zero]
  · rw [hset hn, decide_eq_true hn, Bool.and_true, if_pos rfl, sizeAdd_of_lt (by omega), roundUp]
    by_cases hmod : (size + n) % 4 ≠ 0
    · rw [roundUp, if_pos hmod] at hlt
      rw [if_pos hmod, if_pos hmod, sizeAdd_of_lt hlt]
    · rw [if_neg hmod, if_neg hmod]

@[simp] theorem length_itemBytes (item : Item) :
    (itemBytes item).length = 2 + item.data.length := by
  rw [itemBytes, List.length_cons, List.length_cons]
  omega

theorem itemsBytes_cons (item : Item) (items : List Item) :
    itemsBytes (item :: items) = itemBytes item ++ itemsBytes items := List.flatMap_cons

theorem entriesBytes_cons (e : Entry) (es : List Entry) :
    entriesBytes (e :: es) = entryBytes e ++ entriesBytes es := List.flatMap_cons

theorem entriesBytes_append (xs ys : List Entry) :
    entriesBytes (xs ++ ys) = entriesBytes xs ++ entriesBytes ys := List.flatMap_append

theorem entriesBytes_concat (es : List Entry) (e : Entry) :
    entriesBytes (es ++ [e]) = entriesBytes es ++ entryBytes e := by
  rw [entriesBytes_append, entriesBytes_cons]
  exact congrArg _ (List.append_nil _)

/-- An entry has room for its terminator. -/
theorem Entry.size_bounds (e : Entry) :
    5 + (itemsBytes e.items).length ≤ e.size ∧ e.size < 9 + (itemsBytes e.items).length ∧
      e.size % 4 = 0 := by
  have := roundUp_spec (5 + (itemsBytes e.items).length)
  rw [Entry.size]
  omega

@[simp] theorem length_entryBytes (e : Entry) : (entryBytes e).length = e.size := by
  have := e.size_bounds
  rw [entryBytes, Entry.fill, List.length_append, List.length_append, length_bytes,
    List.length_replicate]
  omega

@[simp] theorem length_encode (c : Content) : c.encode.length = c.size := by
  rw [Content.encode, List.length_append, length_headerBytes, Content.size]

/-- There are 255 types. -/
theorem length_le_of_types {types : List Nat} (hdistinct : types.Nodup)
    (hrange : ∀ type ∈ types, 1 ≤ type ∧ type ≤ 255) : types.length ≤ 255 := by
  have hsub : types.toFinset ⊆ Finset.Icc 1 255 := by
    intro type htype
    exact Finset.mem_Icc.mpr (hrange type (List.mem_toFinset.mp htype))
  have hcard := Finset.card_le_card hsub
  rwa [List.toFinset_card_of_nodup hdistinct, Nat.card_Icc] at hcard

theorem Entry.length_items_le (e : Entry) : e.items.length ≤ 255 := by
  have hlen := length_le_of_types e.distinct (by
    intro type htype
    obtain ⟨item, _, rfl⟩ := List.mem_map.mp htype
    exact ⟨item.type_pos, item.type_le⟩)
  rwa [List.length_map] at hlen

/-- The packet's bytes end on a multiple of four. -/
theorem entriesBytes_aligned (es : List Entry) : (entriesBytes es).length % 4 = 0 := by
  induction es with
  | nil => rfl
  | cons e es ih =>
    have := e.size_bounds
    rw [entriesBytes_cons, List.length_append, length_entryBytes]
    omega

/-! ## Serializing

The serializer takes what is in memory, be it an item that no wire can carry: of the type
it writes the lowest byte. -/

/-- An item as it is written. -/
structure WireItem where
  type : UInt8
  data : List UInt8

/-- An entry as it is written. -/
structure WireEntry where
  id : UInt32
  items : List WireItem

def WireItem.encode (i : WireItem) : List UInt8 := i.type :: UInt8.ofNat i.data.length :: i.data

namespace WireEntry

def body (w : WireEntry) : List UInt8 := w.items.flatMap WireItem.encode

def size (w : WireEntry) : Nat := roundUp (5 + w.body.length)

def encode (w : WireEntry) : List UInt8 :=
  bytes 4 w.id.toNat ++ w.body ++ List.replicate (w.size - (4 + w.body.length)) 0

end WireEntry

/-- The item has a block of as many bytes as it says. -/
structure CarriesItem (item : SdesItem) (i : WireItem) : Prop where
  type : item.type.toUInt8 = i.type
  length : item.length.toNat = i.data.length
  data : i.data ≠ [] → item.data = .obj i.data

structure CarriesEntry (source : SdesEntry) (w : WireEntry) : Prop where
  id : source.id = w.id
  itemCount : source.itemCount.toNat = w.items.length
  items : HoldsList CarriesItem source.items w.items

structure Carries (packet : RtcpSdes) (ws : List WireEntry) : Prop where
  count : packet.header.count.toNat = ws.length
  srcs : HoldsList CarriesEntry packet.srcs ws

def sizeOn (ws : List WireEntry) : Nat := 4 + (ws.flatMap WireEntry.encode).length

section Wire

variable {source : SdesEntry} {w : WireEntry} {packet : RtcpSdes} {ws : List WireEntry}

@[simp] theorem WireItem.length_encode (i : WireItem) : i.encode.length = 2 + i.data.length := by
  rw [WireItem.encode, List.length_cons, List.length_cons]
  omega

theorem WireEntry.size_bounds (w : WireEntry) :
    5 + w.body.length ≤ w.size ∧ w.size < 9 + w.body.length ∧ w.size % 4 = 0 := by
  have hround := roundUp_spec (5 + w.body.length)
  rw [WireEntry.size]
  omega

@[simp] theorem WireEntry.length_encode (w : WireEntry) : w.encode.length = w.size := by
  have hbounds := w.size_bounds
  rw [WireEntry.encode, List.length_append, List.length_append, length_bytes,
    List.length_replicate]
  omega

/-- The length of an item is one byte, and so is the number of them. -/
theorem CarriesEntry.size_le (h : CarriesEntry source w) : w.size ≤ 65544 := by
  have hcount := source.itemCount.toNat_lt
  have hnum := h.itemCount
  have hbounds := w.size_bounds
  obtain ⟨items, -, hitems⟩ := h.items
  have hbody {as : List SdesItem} {is : List WireItem} (hall : List.Forall₂ CarriesItem as is) :
      (is.flatMap WireItem.encode).length ≤ 257 * is.length := by
    induction hall with
    | nil => exact Nat.le_refl 0
    | @cons a i as is hai _ ih =>
      have hlen := a.length.toNat_lt
      have hlength := hai.length
      rw [List.flatMap_cons, List.length_append, WireItem.length_encode, List.length_cons]
      omega
  have hle := hbody hitems
  rw [← WireEntry.body] at hle
  omega

/-- There are at most 31 entries. -/
theorem Carries.size_lt (h : Carries packet ws) : sizeOn ws < 2 ^ 31 := by
  have hcount := packet.header.count.isLt
  have hnum := h.count
  obtain ⟨srcs, -, hsrcs⟩ := h.srcs
  have hentries {as : List SdesEntry} {vs : List WireEntry}
      (hall : List.Forall₂ CarriesEntry as vs) :
      (vs.flatMap WireEntry.encode).length ≤ 65544 * vs.length := by
    induction hall with
    | nil => exact Nat.le_refl 0
    | @cons a v as vs hav _ ih =>
      have hle := hav.size_le
      rw [List.flatMap_cons, List.length_append, WireEntry.length_encode, List.length_cons]
      omega
  have hle := hentries hsrcs
  rw [sizeOn]
  omega

theorem entrySize_ok (h : CarriesEntry source w) : entrySize source = .ok w.size := by
  have hloop := forUp_eq (b := fun i size => do
      let items ← source.items.deref
      let item ← load items i
      .ok (size + itemSize item))
    (fun i => 5 + ((w.items.take i).flatMap WireItem.encode).length) w.items.length (by
      intro i hi
      obtain ⟨items, item, hitems, hload, hitem⟩ := h.items.load hi
      rw [hitems, ok_bind, bind_of_ok hload, flatMap_take_succ _ hi, List.length_append,
        WireItem.length_encode, itemSize, hitem.length, Nat.add_assoc])
  rw [List.take_length, List.take_zero] at hloop
  rw [entrySize, h.itemCount, bind_of_ok (show forUp _ w.items.length 5 = _ from hloop),
    WireEntry.size, WireEntry.body]

theorem serializeItems_ok (h : CarriesEntry source w) {off : Nat} {front : List UInt8}
    (zs : List UInt8) (hfront : front.length = off + 4) (hzs : w.body.length ≤ zs.length) :
    serializeItems source (front ++ zs) off
      = .ok (4 + w.body.length, front ++ w.body ++ zs.drop w.body.length) := by
  have hloop := forUp_eq (b := fun i (s : Nat × List UInt8) => do
      let items ← source.items.deref
      let item ← load items i
      let buffer ← store s.2 (off + s.1) item.type.toUInt8
      let buffer ← store buffer (off + (s.1 + 1)) item.length
      let bytes ← item.data.read item.length.toNat
      let buffer ← blit buffer (off + (s.1 + 2)) bytes
      .ok (s.1 + 2 + item.length.toNat, buffer))
    (fun i => (4 + ((w.items.take i).flatMap WireItem.encode).length,
      front ++ (w.items.take i).flatMap WireItem.encode
        ++ zs.drop ((w.items.take i).flatMap WireItem.encode).length)) w.items.length (by
      intro i hi
      obtain ⟨items, item, hitems, hload, hitem⟩ := h.items.load hi
      have hnext : ((w.items.take (i + 1)).flatMap WireItem.encode).length
          = ((w.items.take i).flatMap WireItem.encode).length + w.items[i].encode.length := by
        rw [flatMap_take_succ _ hi, List.length_append]
      have hle := length_flatMap_take_le WireItem.encode w.items (i + 1)
      have hwi : (front ++ (w.items.take i).flatMap WireItem.encode).length
          = off + (4 + ((w.items.take i).flatMap WireItem.encode).length) := by
        rw [List.length_append, hfront, Nat.add_assoc]
      have hcopy := blit_append hwi (show w.items[i].encode.length = _ from rfl)
        (show _ ≤ (zs.drop ((w.items.take i).flatMap WireItem.encode).length).length by
          rw [List.length_drop]
          rw [WireEntry.body] at hzs
          omega)
      have hbyte : item.length = UInt8.ofNat w.items[i].data.length := by
        rw [← hitem.length, UInt8.ofNat_toNat]
      have hread : item.data.read item.length.toNat = .ok w.items[i].data := by
        rw [hitem.length, Ptr.read_of_obj hitem.data]
      rw [List.drop_drop, ← hnext] at hcopy
      rw [hitems, ok_bind, bind_of_ok hload]
      simp only [hread, ok_bind, store_eq_blit]
      rw [blit_bind_blit _ _ _ _ (by rfl), blit_bind_blit _ _ _ _ (by rfl), hitem.type, hbyte]
      rw [show blit _ _ ([w.items[i].type] ++ [UInt8.ofNat w.items[i].data.length]
        ++ w.items[i].data) = _ from hcopy, ok_bind]
      rw [flatMap_take_succ _ hi, ← List.append_assoc front, ← flatMap_take_succ _ hi, hnext,
        WireItem.length_encode, ← hbyte, hitem.length]
      congr 2
      omega)
  rw [List.take_length] at hloop
  rw [serializeItems, h.itemCount, WireEntry.body, ← hloop]
  simp

/-- The zeros of an entry at `off`, from its offset `m` on. -/
theorem fill_ok {w zs : List UInt8} {off m n : Nat} (hw : w.length = off + m)
    (hzs : n ≤ zs.length) :
    forUp (fun j buffer => store buffer (off + (m + j)) 0) n (w ++ zs)
      = .ok (w ++ List.replicate n 0 ++ zs.drop n) := by
  have hloop := forUp_eq (b := fun j buffer => store buffer (off + (m + j)) 0)
    (fun j => w ++ List.replicate j 0 ++ zs.drop j) n (by
      intro j hj
      have hwj : (w ++ List.replicate j 0).length = off + (m + j) := by
        rw [List.length_append, hw, List.length_replicate, Nat.add_assoc]
      rw [store_eq_blit, blit_append hwj (List.length_singleton) (by rw [List.length_drop]; omega),
        List.drop_drop, List.append_assoc w, ← List.replicate_succ'])
  rw [← hloop]
  simp

/-- An entry's bytes go to its offset. -/
theorem serializeEntry_ok (h : CarriesEntry source w) {off size : Nat} {front zs : List UInt8}
    (hfront : front.length = off) (hsize : w.size ≤ size) (hzs : w.size ≤ zs.length) :
    serializeEntry source (front ++ zs) off size
      = .ok (w.size, front ++ w.encode ++ zs.drop w.size) := by
  have hbounds := w.size_bounds
  have hle := h.size_le
  have hid := blit_append hfront (length_bytes 4 w.id.toNat) (show 4 ≤ zs.length by omega)
  have hwid : (front ++ bytes 4 w.id.toNat).length = off + 4 := by
    rw [List.length_append, hfront, length_bytes]
  have hlist := serializeItems_ok h (zs.drop 4) hwid (by rw [List.length_drop]; omega)
  rw [List.drop_drop] at hlist
  have hwitems : (front ++ bytes 4 w.id.toNat ++ w.body).length = off + (4 + w.body.length) := by
    rw [List.length_append, hwid, Nat.add_assoc]
  have hfill := fill_ok (n := w.size - (4 + w.body.length)) hwitems
    (show _ ≤ (zs.drop (4 + w.body.length)).length by rw [List.length_drop]; omega)
  rw [List.drop_drop, show 4 + w.body.length + (w.size - (4 + w.body.length)) = w.size
    from by omega] at hfill
  rw [serializeEntry, bind_of_ok (entrySize_ok h), if_neg (by omega), writeU32_eq, h.id,
    bind_of_ok hid, bind_of_ok hlist]
  dsimp only
  rw [bind_of_ok hfill, castInt_of_lt (by omega), WireEntry.encode, List.append_assoc front,
    List.append_assoc front]

theorem rtcpSdesSize_wire (h : Carries packet ws) : rtcpSdesSize packet = .ok (sizeOn ws) := by
  have hloop := forUp_eq (b := fun i size => do
      let sources ← packet.srcs.deref
      let source ← load sources i
      let entry ← entrySize source
      .ok (size + entry))
    (fun i => 4 + ((ws.take i).flatMap WireEntry.encode).length) ws.length (by
      intro i hi
      obtain ⟨srcs, source, hsrcs, hload, hentry⟩ := h.srcs.load hi
      rw [hsrcs, ok_bind, bind_of_ok hload, bind_of_ok (entrySize_ok hentry),
        flatMap_take_succ _ hi, List.length_append, WireEntry.length_encode, Nat.add_assoc])
  rw [List.take_length, List.take_zero] at hloop
  rw [rtcpSdesSize, h.count]
  exact hloop

theorem serializeEntries_ok (h : Carries packet ws) {front : List UInt8} (zs : List UInt8)
    (hfront : front.length = 4) (hzs : (ws.flatMap WireEntry.encode).length ≤ zs.length)
    {size : Nat} (hsize : sizeOn ws ≤ size) (hlt : size < 2 ^ 64) :
    serializeEntries packet (front ++ zs) size = .ok (.next (sizeOn ws,
      front ++ ws.flatMap WireEntry.encode
        ++ zs.drop (ws.flatMap WireEntry.encode).length)) := by
  have hloop := forLeave_eq (ρ := List UInt8) (b := fun i (s : Nat × List UInt8) => do
      let srcs ← packet.srcs.deref
      let source ← load srcs i
      let (result, buffer) ← serializeEntry source s.2 s.1 (sizeSub size s.1)
      if result < 0 then .ok (.leave buffer)
      else .ok (.next (s.1 + result.toNat, buffer)))
    (fun i => (4 + ((ws.take i).flatMap WireEntry.encode).length,
      front ++ (ws.take i).flatMap WireEntry.encode
        ++ zs.drop ((ws.take i).flatMap WireEntry.encode).length)) ws.length (by
      intro i hi
      obtain ⟨srcs, source, hsrcs, hload, hentry⟩ := h.srcs.load hi
      have hnext : ((ws.take (i + 1)).flatMap WireEntry.encode).length
          = ((ws.take i).flatMap WireEntry.encode).length + ws[i].size := by
        rw [flatMap_take_succ _ hi, List.length_append, WireEntry.length_encode]
      have hle := length_flatMap_take_le WireEntry.encode ws (i + 1)
      have hdef : sizeOn ws = 4 + (ws.flatMap WireEntry.encode).length := rfl
      have hwi : (front ++ (ws.take i).flatMap WireEntry.encode).length
          = 4 + ((ws.take i).flatMap WireEntry.encode).length := by
        rw [List.length_append, hfront]
      rw [hsrcs, ok_bind, bind_of_ok hload, bind_of_ok (serializeEntry_ok hentry hwi
        (by rw [sizeSub_of_le (by omega) hlt]; omega) (by rw [List.length_drop]; omega))]
      dsimp only
      rw [if_neg (by omega), Int.toNat_natCast, List.drop_drop, ← hnext, Nat.add_assoc, ← hnext,
        flatMap_take_succ _ hi, List.append_assoc front])
  rw [List.take_length] at hloop
  rw [serializeEntries, h.count, sizeOn, ← hloop]
  simp

/-- The packet's bytes go to the front of the buffer. -/
theorem rtcpSdesSerialize_wire (h : Carries packet ws) {buffer : List UInt8} {size : Nat}
    (hsize : sizeOn ws ≤ size) (hlt : size < 2 ^ 64) (hbuffer : sizeOn ws ≤ buffer.length) :
    rtcpSdesSerialize packet buffer size = .ok (sizeOn ws,
      headerBytes packet.header ++ ws.flatMap WireEntry.encode ++ buffer.drop (sizeOn ws)) := by
  have hdef : sizeOn ws = 4 + (ws.flatMap WireEntry.encode).length := rfl
  have hheader := blit_append List.length_nil (length_headerBytes packet.header)
    (show 4 ≤ buffer.length by omega)
  have hentries := serializeEntries_ok h (buffer.drop 4) (length_headerBytes packet.header)
    (by rw [List.length_drop]; omega) hsize hlt
  rw [List.drop_drop, ← hdef] at hentries
  rw [rtcpSdesSerialize, bind_of_ok (rtcpSdesSize_wire h), if_neg (by omega),
    rtcpHeaderSerialize_eq _ (by omega)]
  rw [show blit buffer 0 (headerBytes packet.header) = _ from hheader, ok_bind, ok_bind]
  dsimp only
  rw [if_neg (by decide), List.nil_append, bind_of_ok hentries]
  dsimp only
  rw [castInt_of_lt h.size_lt]

end Wire

/-! ### The content as it is written -/

variable {source : SdesEntry} {e : Entry} {packet : RtcpSdes} {c : Content}

def Item.wire (item : Item) : WireItem := ⟨UInt8.ofNat item.type, item.data⟩

def Entry.wire (e : Entry) : WireEntry := ⟨e.id, e.items.map Item.wire⟩

theorem Entry.body_wire (e : Entry) : e.wire.body = itemsBytes e.items :=
  List.flatMap_map Item.wire WireItem.encode e.items

theorem Entry.encode_wire (e : Entry) : e.wire.encode = entryBytes e := by
  rw [WireEntry.encode, WireEntry.size, e.body_wire]
  rfl

theorem flatMap_wire (es : List Entry) :
    (es.map Entry.wire).flatMap WireEntry.encode = entriesBytes es := by
  rw [List.flatMap_map]
  exact List.flatMap_congr fun e _ => e.encode_wire

theorem HoldsItem.size {item : SdesItem} {i : Item} (h : HoldsItem item i) :
    itemSize item = (itemBytes i).length := by
  rw [itemSize, h.length, length_itemBytes]

theorem HoldsItem.carries {item : SdesItem} {i : Item} (h : HoldsItem item i) :
    CarriesItem item i.wire := by
  have hle := i.type_le
  refine ⟨?_, h.length, h.data⟩
  change item.type.toUInt8 = UInt8.ofNat i.type
  rw [h.type, ← UInt8.toNat_inj, UInt32.toNat_toUInt8, UInt32.toNat_ofNat', UInt8.toNat_ofNat']
  omega

theorem HoldsEntry.carries (h : HoldsEntry source e) : CarriesEntry source e.wire := by
  refine ⟨h.id, ?_, h.items.map Item.wire fun _ _ hitem => hitem.carries⟩
  rw [Entry.wire, List.length_map, h.itemCount]

theorem Content.count_eq (c : Content) : c.header.count.toNat = c.entries.length := by
  have := c.entries_le
  rw [Content.header, BitVec.toNat_ofNat]
  exact Nat.mod_eq_of_lt (by omega)

theorem Holds.carries (h : Holds packet c) : Carries packet (c.entries.map Entry.wire) := by
  refine ⟨?_, h.srcs.map Entry.wire fun _ _ hentry => hentry.carries⟩
  rw [h.header, c.count_eq, List.length_map]

theorem Content.sizeOn_wire (c : Content) : sizeOn (c.entries.map Entry.wire) = c.size := by
  rw [sizeOn, flatMap_wire, Content.size]

theorem rtcpSdesSize_ok (h : Holds packet c) : rtcpSdesSize packet = .ok c.size := by
  rw [rtcpSdesSize_wire h.carries, c.sizeOn_wire]

/-- The packet's bytes go to the front of the buffer. -/
theorem rtcpSdesSerialize_ok (h : Holds packet c) {buffer : List UInt8} {size : Nat}
    (hsize : c.size ≤ size) (hlt : size < 2 ^ 64) (hbuffer : c.size ≤ buffer.length) :
    rtcpSdesSerialize packet buffer size = .ok (c.size, c.encode ++ buffer.drop c.size) := by
  have hdef := c.sizeOn_wire
  rw [rtcpSdesSerialize_wire h.carries (by omega) hlt (by omega), hdef, flatMap_wire, h.header,
    Content.encode]

end RtpSdr.Rtp.Sdes
