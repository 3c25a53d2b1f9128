import RtpSdr.Rtp.Bye
import RtpSdr.Rtp.HeaderEdit
import RtpSdr.Rtp.SdesEdit

/-!
# Where the removals read

Four functions close the gap that a removed element leaves. Each moves one element too many,
so that the last one it reads lies behind the array. The runs below have nothing there that
could be read: they return exactly if every index is one of the array.
-/
namespace RtpSdr.Rtp.RemovalBounds

open RtpSdr.Lib.Checked
open RtpSdr.Lib.Memory
open RtpSdr.Rtp.EntryList
open RtpSdr.Rtp.RtcpHeader (RTCP_SDES)
open RtpSdr.Rtp.Header
open RtpSdr.Rtp.HeaderEdit
open RtpSdr.Rtp.Bye
open RtpSdr.Rtp.Sdes
open RtpSdr.Rtp.SdesEdit

/-- The removal of a contributing source reads and writes elements of the list only. -/
def CsrcInside (header : RtpHeader) (csrc : UInt32) : Prop :=
  ∃ header', rtpHeaderRemoveCsrc header csrc [] = .ok header'

def SourceInside (packet : RtcpBye) (srcId : UInt32) : Prop :=
  ∃ packet', rtcpByeRemoveSource packet srcId [] = .ok packet'

/-- The shift that removes the entry of a source, if there is one. -/
def EntryInside (packet : RtcpSdes) (id : UInt32) : Prop :=
  ∀ index, rtcpSdesFindEntry packet id = .ok (some index) →
    ∃ r, removeEntry packet.header.count packet.srcs [] emptyEntry index = .ok r

def ItemInside (source : SdesEntry) (type : UInt32) : Prop :=
  ∃ source', freeItem source type [] = .ok source'

/-! ## The four removals -/

theorem csrcInside_iff {header : RtpHeader} {xs : List UInt32} (h : Held header.cc header.csrc xs)
    (csrc : UInt32) : CsrcInside header csrc ↔ csrc ∉ xs := by
  have hfind : rtpHeaderFindCsrc header csrc = .ok (xs.findIdx? (· == csrc)) := h.search _
  refine exists_ok_iff (fun hout => ?_) (fun hin => ?_)
  · rw [search_of_notMem hout] at hfind
    exact ⟨header, by rw [rtpHeaderRemoveCsrc, bind_of_ok hfind]⟩
  · rw [not_not] at hin
    rw [search_of_mem hin] at hfind
    refine ⟨.bounds, ?_⟩
    rw [rtpHeaderRemoveCsrc, bind_of_ok hfind]
    dsimp only
    rw [removeEntry_fault h 0 (List.idxOf_lt_length_of_mem hin), error_bind]

theorem sourceInside_iff {packet : RtcpBye} {xs : List UInt32}
    (h : Held packet.header.count packet.srcIds xs) (srcId : UInt32) :
    SourceInside packet srcId ↔ srcId ∉ xs := by
  have hfind : rtcpByeFindSource packet srcId = .ok (xs.findIdx? (· == srcId)) := h.search _
  refine exists_ok_iff (fun hout => ?_) (fun hin => ?_)
  · rw [search_of_notMem hout] at hfind
    exact ⟨packet, by rw [rtcpByeRemoveSource, bind_of_ok hfind]⟩
  · rw [not_not] at hin
    rw [search_of_mem hin] at hfind
    refine ⟨.bounds, ?_⟩
    rw [rtcpByeRemoveSource, bind_of_ok hfind]
    dsimp only
    rw [removeEntry_fault h 0 (List.idxOf_lt_length_of_mem hin), error_bind]

theorem entryInside_iff {packet : RtcpSdes} {xs : List SdesEntry}
    (h : Held packet.header.count packet.srcs xs) (id : UInt32) :
    EntryInside packet id ↔ id ∉ xs.map SdesEntry.id := by
  have hfind : rtcpSdesFindEntry packet id = .ok (xs.findIdx? fun source => source.id == id) :=
    h.search _
  rw [← search_key_eq_none, EntryInside, hfind]
  cases hfound : xs.findIdx? fun source => source.id == id with
  | none =>
    refine ⟨fun _ => rfl, fun _ index hnone => ?_⟩
    cases hnone
  | some index =>
    constructor
    · intro hinside
      obtain ⟨r, hrun⟩ := hinside index rfl
      rw [removeEntry_fault h emptyEntry (List.findIdx?_eq_some_iff_getElem.mp hfound).1] at hrun
      cases hrun
    · intro hnone
      cases hnone

/-- The last item moved is the one behind the array, or even further away. -/
theorem itemInside_iff {source : SdesEntry} {xs : List SdesItem}
    (h : Held source.itemCount.toBitVec source.items xs) (type : UInt32) :
    ItemInside source type ↔ type ∉ xs.map SdesItem.type := by
  have hcount : source.itemCount.toNat = xs.length := h.count
  have hfind : getItem source type = .ok (xs.findIdx? fun item => item.type == type) := h.search _
  rw [← search_key_eq_none, ItemInside, freeItem, hfind, ok_bind]
  cases hfound : xs.findIdx? fun item => item.type == type with
  | none => exact ⟨fun _ => rfl, fun _ => ⟨source, rfl⟩⟩
  | some offset =>
    have hoffset := (List.findIdx?_eq_some_iff_getElem.mp hfound).1
    have hfault : memmove xs [] offset (offset + 1) (xs.length - offset / sizeofItem)
        = .error .bounds := by
      apply memmove_fault
      rw [sizeofItem, List.length_nil]
      omega
    constructor
    · intro hinside
      obtain ⟨source', hrun⟩ := hinside
      dsimp only at hrun
      rw [h.deref (List.ne_nil_of_length_pos (by omega)), ok_bind] at hrun
      obtain ⟨item, -, hrun⟩ := bind_eq_ok.mp hrun
      obtain ⟨data, -, hrun⟩ := bind_eq_ok.mp hrun
      rw [hcount, hfault, error_bind] at hrun
      cases hrun
    · intro hnone
      cases hnone

/-- Whatever its length, no list can have an element removed without a look behind its array. -/
theorem removals_inside_iff {header : RtpHeader} {csrcs : List UInt32} {bye : RtcpBye}
    {srcIds : List UInt32} {sdes : RtcpSdes} {srcs : List SdesEntry} {source : SdesEntry}
    {items : List SdesItem} (hcsrcs : Held header.cc header.csrc csrcs)
    (hsrcIds : Held bye.header.count bye.srcIds srcIds)
    (hsrcs : Held sdes.header.count sdes.srcs srcs)
    (hitems : Held source.itemCount.toBitVec source.items items) (csrc srcId id type : UInt32) :
    (CsrcInside header csrc ↔ csrc ∉ csrcs) ∧ (SourceInside bye srcId ↔ srcId ∉ srcIds) ∧
      (EntryInside sdes id ↔ id ∉ srcs.map SdesEntry.id) ∧
      (ItemInside source type ↔ type ∉ items.map SdesItem.type) :=
  ⟨csrcInside_iff hcsrcs csrc, sourceInside_iff hsrcIds srcId, entryInside_iff hsrcs id,
    itemInside_iff hitems type⟩

/-- The second of two elements, the first of two, and one that is not there. -/
theorem removals_inside_iff_two :
    (CsrcInside { rtpHeaderCreate with cc := 2, csrc := .obj [7, 8] } 8 ↔
      (8 : UInt32) ∉ [(7 : UInt32), 8]) ∧
    (SourceInside ⟨⟨2, 0, 2, RTCP_BYE, 2⟩, .obj [7, 8], .null⟩ 7 ↔
      (7 : UInt32) ∉ [(7 : UInt32), 8]) ∧
    (EntryInside ⟨⟨2, 0, 2, RTCP_SDES, 2⟩, .obj [⟨7, 0, .null⟩, ⟨8, 0, .null⟩]⟩ 9 ↔
      (9 : UInt32) ∉ [(⟨7, 0, .null⟩ : SdesEntry), ⟨8, 0, .null⟩].map SdesEntry.id) ∧
    (ItemInside ⟨7, 2, .obj [⟨1, 0, .null⟩, ⟨2, 0, .null⟩]⟩ 1 ↔
      (1 : UInt32) ∉ [(⟨1, 0, .null⟩ : SdesItem), ⟨2, 0, .null⟩].map SdesItem.type) :=
  removals_inside_iff (held_obj rfl) (held_obj rfl) (held_obj rfl) (held_obj rfl) 8 7 9 1

/-- The only element of each list. -/
theorem removals_inside_fails :
    (¬ ∀ (header : RtpHeader) (xs : List UInt32) (csrc : UInt32), Held header.cc header.csrc xs →
      csrc ∈ xs → CsrcInside header csrc) ∧
    (¬ ∀ (packet : RtcpBye) (xs : List UInt32) (srcId : UInt32),
      Held packet.header.count packet.srcIds xs → srcId ∈ xs → SourceInside packet srcId) ∧
    (¬ ∀ (packet : RtcpSdes) (xs : List SdesEntry) (id : UInt32),
      Held packet.header.count packet.srcs xs → id ∈ xs.map SdesEntry.id →
        EntryInside packet id) ∧
    (¬ ∀ (source : SdesEntry) (xs : List SdesItem) (type : UInt32),
      Held source.itemCount.toBitVec source.items xs → type ∈ xs.map SdesItem.type →
        ItemInside source type) := by
  refine ⟨fun h => ?_, fun h => ?_, fun h => ?_, fun h => ?_⟩
  · have hheld : Held (1 : BitVec 4) (.obj [7]) [(7 : UInt32)] := held_obj rfl
    have hinside := h { rtpHeaderCreate with cc := 1, csrc := .obj [7] } [7] 7 hheld (by decide)
    exact (csrcInside_iff hheld 7).mp hinside (by decide)
  · have hheld : Held (1 : BitVec 5) (.obj [7]) [(7 : UInt32)] := held_obj rfl
    have hinside := h ⟨⟨2, 0, 1, RTCP_BYE, 1⟩, .obj [7], .null⟩ [7] 7 hheld (by decide)
    exact (sourceInside_iff hheld 7).mp hinside (by decide)
  · have hheld : Held (1 : BitVec 5) (.obj [⟨7, 0, .null⟩]) [(⟨7, 0, .null⟩ : SdesEntry)] :=
      held_obj rfl
    have hinside := h ⟨⟨2, 0, 1, RTCP_SDES, 2⟩, .obj [⟨7, 0, .null⟩]⟩ _ 7 hheld (by decide)
    exact (entryInside_iff hheld 7).mp hinside (by decide)
  · have hheld : Held (1 : BitVec 8) (.obj [⟨1, 0, .null⟩]) [(⟨1, 0, .null⟩ : SdesItem)] :=
      held_obj rfl
    have hinside := h ⟨7, 1, .obj [⟨1, 0, .null⟩]⟩ _ 1 hheld (by decide)
    exact (itemInside_iff hheld 1).mp hinside (by decide)

end RtpSdr.Rtp.RemovalBounds
