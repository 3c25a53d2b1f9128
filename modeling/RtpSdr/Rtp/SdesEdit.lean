import RtpSdr.Rtp.EntryList
import RtpSdr.Rtp.Sdes

/-!
# How source descriptions are built

The mutators of `rtcp_sdes.c`. Those that add and remove an entry leave the header
length alone; removing an item moves as many items as there are, wherever it stands.
-/
namespace RtpSdr.Rtp.SdesEdit

open RtpSdr.Lib.Checked
open RtpSdr.Lib.Memory
open RtpSdr.Rtp.RtcpHeader
open RtpSdr.Rtp.Sdes
open RtpSdr.Rtp.EntryList

/-- `sizeof(rtcp_sdes_item)`. -/
def sizeofItem : Nat := 16

section Source

/-- What a new cell of an array of entries holds until it is written. -/
def emptyEntry : SdesEntry := ⟨0, 0, .null⟩

def rtcpSdesFindEntry (packet : RtcpSdes) (id : UInt32) : Exec (Option Nat) :=
  find packet.srcs packet.header.count.toNat fun source => source.id == id

/-- The result and the packet afterwards. -/
def rtcpSdesAddEntry (packet : RtcpSdes) (id : UInt32) : Exec (Int × RtcpSdes) := do
  let added ← addEntry packet.header.count packet.srcs emptyEntry
    (fun source => source.id == id) ⟨id, 0, .null⟩
  match added with
  | none => .ok (RTCP_ERROR, packet)
  | some (count, srcs) =>
    .ok (RTCP_OK, { packet with
      header := { packet.header with count := count }, srcs := .obj srcs })

/-- The loop that frees an entry's items. Its `free(item)` is that of the array for the first
item, after which the array is gone. -/
def freeItems (source : SdesEntry) : Exec (Ptr (List SdesItem)) :=
  forUp (fun i items => do
    let xs ← items.deref
    let item ← load xs i
    let _ ← free item.data
    if i = 0 then free items else .error .pointer) source.itemCount.toNat source.items

/-- `behind` are the entries that the move may read behind the array. -/
def rtcpSdesRemoveEntry (packet : RtcpSdes) (id : UInt32) (behind : List SdesEntry) :
    Exec RtcpSdes := do
  let found ← rtcpSdesFindEntry packet id
  match found with
  | none => .ok packet
  | some index => do
    let srcs ← packet.srcs.deref
    let source ← load srcs index
    let _ ← freeItems source
    let (count, srcs) ← removeEntry packet.header.count packet.srcs behind emptyEntry index
    .ok { packet with header := { packet.header with count := count }, srcs := srcs }

/-- The end of `free_item`: the count and the array. -/
def shrinkItems (source : SdesEntry) (items : List SdesItem) : SdesEntry :=
  if source.itemCount - 1 > 0 then
    { source with
      itemCount := source.itemCount - 1
      items := .obj (realloc items (source.itemCount - 1).toNat emptyItem) }
  else { source with itemCount := source.itemCount - 1, items := .null }

/-- The entry without the item of a type. The offset of the item, which counts items already,
is divided by their size. -/
def freeItem (source : SdesEntry) (type : UInt32) (behind : List SdesItem) : Exec SdesEntry := do
  let found ← getItem source type
  match found with
  | none => .ok source
  | some offset => do
    let items ← source.items.deref
    let item ← load items offset
    let _ ← free item.data
    let items ← memmove items behind offset (offset + 1)
      (source.itemCount.toNat - offset / sizeofItem)
    .ok (shrinkItems source items)

/-- The entry is an element of the array. -/
def withSource (packet : RtcpSdes) (srcs : List SdesEntry) (index : Nat) (source : SdesEntry) :
    RtcpSdes := { packet with srcs := .obj (srcs.set index source) }

def withLength (packet : RtcpSdes) (length : UInt16) : RtcpSdes :=
  { packet with header := { packet.header with length := length } }

/-- The update of the header length. -/
def updateLength (packet : RtcpSdes) : Exec RtcpSdes := do
  let size ← rtcpSdesSize packet
  .ok (withLength packet (UInt16.ofNat (sizeSub (size / 4) 1)))

/-- The result and the buffer afterwards. The length is read from the item that was found, or
through the null pointer that says there is none. -/
def rtcpSdesGetItem (packet : RtcpSdes) (src type : UInt32) (buffer : List UInt8) (size : Nat) :
    Exec (Int × List UInt8) := do
  let found ← rtcpSdesFindEntry packet src
  match found with
  | none => .ok (RTCP_ERROR, buffer)
  | some index => do
    let srcs ← packet.srcs.deref
    let source ← load srcs index
    let found ← getItem source type
    match found with
    | none => .error .pointer
    | some offset => do
      let items ← source.items.deref
      let item ← load items offset
      if size < item.length.toNat + 1 then .ok (RTCP_ERROR, buffer)
      else do
        let data ← item.data.read item.length.toNat
        let buffer ← blit buffer 0 data
        let buffer ← store buffer item.length.toNat 0
        .ok (item.length.toNat, buffer)

/-- The result and the packet afterwards; `data` is the block the argument points to. -/
def rtcpSdesSetItem (packet : RtcpSdes) (src type : UInt32) (data : List UInt8)
    (behind : List SdesItem) : Exec (Int × RtcpSdes) := do
  let found ← rtcpSdesFindEntry packet src
  match found with
  | none => .ok (RTCP_ERROR, packet)
  | some index => do
    let srcs ← packet.srcs.deref
    let source ← load srcs index
    let item ← getItem source type
    let source ← if item.isSome then freeItem source type behind else .ok source
    let length ← strlen data
    if length > 0xFF then .ok (RTCP_ERROR, withSource packet srcs index source)
    else do
      let (item, source) ← createItem source type data 0 (UInt8.ofNat length)
      if item.isNone then .ok (RTCP_ERROR, withSource packet srcs index source)
      else do
        let packet ← updateLength (withSource packet srcs index source)
        .ok (RTCP_OK, packet)

def rtcpSdesClearItem (packet : RtcpSdes) (src type : UInt32) (behind : List SdesItem) :
    Exec RtcpSdes := do
  let found ← rtcpSdesFindEntry packet src
  match found with
  | none => .ok packet
  | some index => do
    let srcs ← packet.srcs.deref
    let source ← load srcs index
    let source ← freeItem source type behind
    updateLength (withSource packet srcs index source)

end Source

/-! ## Histories -/

/-- A call on a packet. -/
inductive Op where
  | addEntry (id : UInt32)
  | removeEntry (id : UInt32) (behind : List SdesEntry)
  | setItem (src type : UInt32) (data : List UInt8) (behind : List SdesItem)
  | clearItem (src type : UInt32) (behind : List SdesItem)

/-- The packet after a call, whatever the call returned. -/
def perform (packet : RtcpSdes) : Op → Exec RtcpSdes
  | .addEntry id => do
    let (_, packet) ← rtcpSdesAddEntry packet id
    .ok packet
  | .removeEntry id behind => rtcpSdesRemoveEntry packet id behind
  | .setItem src type data behind => do
    let (_, packet) ← rtcpSdesSetItem packet src type data behind
    .ok packet
  | .clearItem src type behind => rtcpSdesClearItem packet src type behind

/-- The calls that bring an entry. -/
def Adds : Op → Prop
  | .addEntry _ => True
  | _ => False

end RtpSdr.Rtp.SdesEdit
