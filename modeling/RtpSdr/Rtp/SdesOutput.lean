import RtpSdr.Lib.Output
import RtpSdr.Rtp.SdesEdit

/-!
# What a serialized source description shows of the buffer

Nothing, if the packet has the entries that it counts: each is filled up with zeros that are
written one by one. The items of a packet need not be such that a wire can carry them, but
every item a program can hold has the block that its length announces, and every entry as
many items as it counts. Only of the entries there may be too few: a parser that fails at the
header leaves a count that belongs to no list.
-/
namespace RtpSdr.Rtp.SdesOutput

open RtpSdr.Lib.Checked
open RtpSdr.Lib.Memory
open RtpSdr.Lib.Output
open RtpSdr.Lib.BigEndian
open RtpSdr.Rtp.Util
open RtpSdr.Rtp.RtcpHeader
open RtpSdr.Rtp.EntryList
open RtpSdr.Rtp.Sdes
open RtpSdr.Rtp.SdesEdit

/-! ## The packets of a program -/

/-- What a program does with a packet. -/
inductive Use where
  | init
  | call (op : Op)
  | parse (fuel : Nat) (buffer : List UInt8) (size : Nat)

/-- The packet afterwards, whatever the call returned. -/
def use (packet : RtcpSdes) : Use → Exec RtcpSdes
  | .init => .ok (rtcpSdesInit packet)
  | .call op => perform packet op
  | .parse fuel buffer size => do
    let (_, packet) ← rtcpSdesParse fuel packet buffer size
    .ok packet

/-- The item has the block that its length announces. -/
def SoundItem (item : SdesItem) : Prop :=
  ∃ data : List UInt8, item.length.toNat = data.length ∧ (data ≠ [] → item.data = .obj data)

/-- The array has as many sound items as the entry counts. -/
structure SoundItems (source : SdesEntry) (xs : List SdesItem) : Prop where
  itemCount : source.itemCount.toNat = xs.length
  items : xs ≠ [] → source.items = .obj xs
  sound : ∀ item ∈ xs, SoundItem item

def SoundEntry (source : SdesEntry) : Prop := ∃ items, SoundItems source items

/-- The entries of the packet are sound, however many it counts. -/
def SoundEntries (packet : RtcpSdes) : Prop := ∀ source ∈ packet.srcs.elements, SoundEntry source

/-- The packet has as many sound entries as it counts. -/
def Sound (packet : RtcpSdes) : Prop :=
  ∃ srcs, Held packet.header.count packet.srcs srcs ∧ ∀ source ∈ srcs, SoundEntry source

variable {source source' : SdesEntry} {items : List SdesItem} {packet packet' : RtcpSdes}
  {srcs : List SdesEntry}

theorem soundEntry_empty (id : UInt32) : SoundEntry ⟨id, 0, .null⟩ :=
  ⟨[], rfl, fun hne => absurd rfl hne, fun _ hmem => nomatch hmem⟩

/-! ### Items -/

theorem SoundItems.getItem (h : SoundItems source items) (type : UInt32) :
    getItem source type = .ok (items.findIdx? fun item => item.type == type) := by
  rw [Sdes.getItem, h.itemCount, find_ok h.items]

theorem SoundItems.deref (h : SoundItems source items) (hne : items ≠ []) :
    source.items.deref = .ok items := by
  rw [h.items hne, Ptr.deref_obj]

/-- The new item is the last. -/
theorem storeItem_sound (hsound : ∀ item ∈ items, SoundItem item) {itemCount : UInt8}
    (hcount : itemCount.toNat = items.length + 1) {type : UInt32} {data : List UInt8} {off : Nat}
    {length : UInt8} {item : Option SdesItem}
    (hrun : storeItem source itemCount (realloc items itemCount.toNat emptyItem) type data off
      length = .ok (item, source')) : SoundEntry source' := by
  rw [storeItem, hcount] at hrun
  obtain ⟨block, hslice, hrun⟩ := bind_eq_ok.mp hrun
  rw [bind_of_ok (storeLast_realloc items emptyItem _)] at hrun
  cases hrun
  refine ⟨items ++ [⟨type, length, .obj block⟩], ?_, fun _ => rfl, ?_⟩
  · rw [List.length_append]
    exact hcount
  · intro item hmem
    cases List.mem_append.mp hmem with
    | inl hold => exact hsound item hold
    | inr hnew =>
      obtain rfl := List.mem_singleton.mp hnew
      exact ⟨block, (length_of_slice hslice).symm, fun _ => rfl⟩

theorem createItem_sound (h : SoundEntry source) {type : UInt32} {data : List UInt8} {off : Nat}
    {length : UInt8} {item : Option SdesItem}
    (hrun : createItem source type data off length = .ok (item, source')) :
    SoundEntry source' := by
  obtain ⟨items, hitems⟩ := id h
  obtain ⟨found, -, hrun⟩ := bind_eq_ok.mp hrun
  cases found with
  | some index =>
    cases hrun
    exact h
  | none =>
    rw [if_neg (by decide)] at hrun
    by_cases hzero : source.itemCount = 0
    · rw [if_pos hzero] at hrun
      have hnone : ∀ item ∈ ([] : List SdesItem), SoundItem item := fun _ hmem => nomatch hmem
      exact storeItem_sound hnone rfl hrun
    · rw [if_neg hzero] at hrun
      by_cases hfull : source.itemCount = 0xff
      · rw [if_pos hfull] at hrun
        cases hrun
        exact h
      · have hcount := hitems.itemCount
        have hlt := source.itemCount.toNat_lt
        have hne : items ≠ [] := by
          intro hnil
          rw [hnil] at hcount
          exact hzero (UInt8.toNat_inj.mp hcount)
        have hnext : (source.itemCount + 1).toNat = items.length + 1 := by
          have hne255 : source.itemCount.toNat ≠ 255 := fun h => hfull (UInt8.toNat_inj.mp h)
          rw [UInt8.toNat_add]
          change (source.itemCount.toNat + 1) % 256 = _
          omega
        rw [if_neg hfull, hitems.deref hne, ok_bind] at hrun
        exact storeItem_sound hitems.sound hnext hrun

/-- The array behind the first item, whatever follows it. -/
theorem shrinkItems_eq (h : source.itemCount.toNat = items.length) (b : SdesItem)
    (hne : items ≠ []) :
    ∃ itemCount, itemCount.toNat = items.tail.length ∧
      shrinkItems source (items.eraseIdx 0 ++ [b])
        = { source with itemCount := itemCount, items := .ofList items.tail } := by
  have hpos := List.length_pos_of_ne_nil hne
  have hcount : (source.itemCount - 1).toNat = items.tail.length := by
    have hle : 1 ≤ source.itemCount := by
      rw [UInt8.le_iff_toNat_le, h]
      exact hpos
    rw [UInt8.toNat_sub_of_le _ _ hle, h, List.length_tail]
    rfl
  have hiff : source.itemCount - 1 > 0 ↔ 0 < items.tail.length := by
    rw [gt_iff_lt, UInt8.lt_iff_toNat_lt, hcount]
    rfl
  refine ⟨source.itemCount - 1, hcount, ?_⟩
  rw [shrinkItems, List.eraseIdx_zero]
  by_cases hgt : source.itemCount - 1 > 0
  · rw [if_pos hgt, realloc, hcount, List.take_left, List.length_append,
      Nat.sub_eq_zero_of_le (Nat.le_add_right _ _), List.replicate_zero, List.append_nil,
      Ptr.ofList_of_ne_nil (List.ne_nil_of_length_pos (hiff.mp hgt))]
  · rw [if_neg hgt, List.eq_nil_of_length_eq_zero (Nat.eq_zero_of_not_pos (mt hiff.mpr hgt)),
      Ptr.ofList_nil]

theorem shrinkItems_sound (h : SoundItems source items) (b : SdesItem) (hne : items ≠ []) :
    SoundEntry (shrinkItems source (items.eraseIdx 0 ++ [b])) := by
  obtain ⟨itemCount, hcount, hshrink⟩ := shrinkItems_eq h.itemCount b hne
  rw [hshrink]
  exact ⟨items.tail, hcount, Ptr.ofList_of_ne_nil,
    fun item hmem => h.sound item (List.mem_of_mem_tail hmem)⟩

/-- Only the first item can be removed: the move is of as many items as there are. -/
theorem freeItem_sound (h : SoundEntry source) {type : UInt32} {behind : List SdesItem}
    (hrun : freeItem source type behind = .ok source') : SoundEntry source' := by
  obtain ⟨items, hitems⟩ := id h
  rw [freeItem, bind_of_ok (hitems.getItem type)] at hrun
  cases hfound : items.findIdx? fun item => item.type == type with
  | none =>
    rw [hfound] at hrun
    cases hrun
    exact h
  | some offset =>
    have hoffset := (List.findIdx?_eq_some_iff_getElem.mp hfound).1
    have hne : items ≠ [] := List.ne_nil_of_length_pos (by omega)
    rw [hfound] at hrun
    dsimp only at hrun
    rw [hitems.deref hne, ok_bind, hitems.itemCount] at hrun
    obtain ⟨item, -, hrun⟩ := bind_eq_ok.mp hrun
    obtain ⟨_, -, hrun⟩ := bind_eq_ok.mp hrun
    obtain ⟨moved, hmove, hrun⟩ := bind_eq_ok.mp hrun
    cases hrun
    cases offset with
    | succ offset =>
      have hfault : memmove items behind (offset + 1) (offset + 1 + 1)
          (items.length - (offset + 1) / sizeofItem) = .error .bounds := by
        apply memmove_fault
        rw [sizeofItem]
        omega
      rw [hfault] at hmove
      cases hmove
    | zero =>
      rw [Nat.zero_div] at hmove
      cases behind with
      | nil =>
        rw [memmove_tail_nil hoffset] at hmove
        cases hmove
      | cons b behind =>
        rw [memmove_tail b behind hoffset] at hmove
        cases hmove
        exact shrinkItems_sound hitems b hne

/-! ### Entries -/

theorem findEntry_held (hheld : Held packet.header.count packet.srcs srcs) (id : UInt32) :
    rtcpSdesFindEntry packet id = .ok (srcs.findIdx? fun source => source.id == id) :=
  hheld.search _

theorem SoundEntries.sound (h : SoundEntries packet)
    (hheld : Held packet.header.count packet.srcs srcs) : Sound packet := by
  refine ⟨srcs, hheld, fun source hmem => h source ?_⟩
  rw [hheld.entries (List.ne_nil_of_mem hmem), Ptr.elements_obj]
  exact hmem

theorem withSource_sound (h : SoundEntries packet) (hsrcs : packet.srcs = .obj srcs) (index : Nat)
    (hentry : SoundEntry source) : SoundEntries (withSource packet srcs index source) := by
  intro source₁ hmem
  cases List.mem_or_eq_of_mem_set hmem with
  | inl hold =>
    apply h
    rw [hsrcs]
    exact hold
  | inr hnew =>
    rw [hnew]
    exact hentry

theorem sound_withLength (h : SoundEntries packet) (length : UInt16) :
    SoundEntries (withLength packet length) := h

theorem updateLength_sound (hrun : updateLength packet = .ok packet') (h : SoundEntries packet) :
    SoundEntries packet' := by
  obtain ⟨size, -, hrun⟩ := bind_eq_ok.mp hrun
  cases hrun
  exact sound_withLength h _

theorem addEntry_sound (h : SoundEntries packet) {id : UInt32} {r : Int}
    (hrun : rtcpSdesAddEntry packet id = .ok (r, packet')) : SoundEntries packet' := by
  obtain ⟨added, hadd, hrun⟩ := bind_eq_ok.mp hrun
  cases added with
  | none =>
    cases hrun
    exact h
  | some added =>
    cases hrun
    intro source hmem
    cases (addEntry_returns hadd).2 source hmem with
    | inl hold => exact h source hold
    | inr hnew =>
      rw [hnew]
      exact soundEntry_empty id

theorem removeEntry_sound (h : SoundEntries packet) {id : UInt32} {behind : List SdesEntry}
    (hrun : rtcpSdesRemoveEntry packet id behind = .ok packet') : SoundEntries packet' := by
  obtain ⟨found, hfind, hrun⟩ := bind_eq_ok.mp hrun
  cases found with
  | none =>
    cases hrun
    exact h
  | some index =>
    obtain ⟨_, -, hrun⟩ := bind_eq_ok.mp hrun
    obtain ⟨_, -, hrun⟩ := bind_eq_ok.mp hrun
    obtain ⟨_, -, hrun⟩ := bind_eq_ok.mp hrun
    obtain ⟨removed, hremove, hrun⟩ := bind_eq_ok.mp hrun
    cases hrun
    intro source hmem
    exact h source (removeEntry_mem ((find_returns hfind).2 index rfl).1 hremove source hmem)

/-- The end of `rtcp_sdes_set_item`, for an entry that has lost the item of the type. -/
def setItemEnd (packet : RtcpSdes) (srcs : List SdesEntry) (index : Nat) (source : SdesEntry)
    (type : UInt32) (data : List UInt8) : Exec (Int × RtcpSdes) := do
  let length ← strlen data
  if length > 0xFF then .ok (RTCP_ERROR, withSource packet srcs index source)
  else do
    let (item, source) ← createItem source type data 0 (UInt8.ofNat length)
    if item.isNone then .ok (RTCP_ERROR, withSource packet srcs index source)
    else do
      let packet ← updateLength (withSource packet srcs index source)
      .ok (RTCP_OK, packet)

/-- Nothing is freed of an entry without the item, so both branches free it. -/
theorem rtcpSdesSetItem_eq {src type : UInt32} {index : Nat} {item : Option Nat}
    (hfind : rtcpSdesFindEntry packet src = .ok (some index))
    (hderef : packet.srcs.deref = .ok srcs) (hload : load srcs index = .ok source)
    (hget : getItem source type = .ok item) (data : List UInt8) (behind : List SdesItem) :
    rtcpSdesSetItem packet src type data behind
      = freeItem source type behind >>= fun source =>
        setItemEnd packet srcs index source type data := by
  rw [rtcpSdesSetItem, bind_of_ok hfind]
  dsimp only
  rw [bind_of_ok hderef, bind_of_ok hload, bind_of_ok hget]
  cases item with
  | none =>
    rw [freeItem, bind_of_ok hget]
    rfl
  | some i => rfl

theorem rtcpSdesClearItem_eq {src : UInt32} {index : Nat}
    (hfind : rtcpSdesFindEntry packet src = .ok (some index))
    (hderef : packet.srcs.deref = .ok srcs) (hload : load srcs index = .ok source)
    (type : UInt32) (behind : List SdesItem) :
    rtcpSdesClearItem packet src type behind
      = freeItem source type behind >>= fun source =>
        updateLength (withSource packet srcs index source) := by
  rw [rtcpSdesClearItem, bind_of_ok hfind]
  dsimp only
  rw [bind_of_ok hderef, bind_of_ok hload]

theorem setItemEnd_sound (h : SoundEntries packet) (hsrcs : packet.srcs = .obj srcs) {index : Nat}
    (hentry : SoundEntry source) {type : UInt32} {data : List UInt8} {r : Int}
    (hrun : setItemEnd packet srcs index source type data = .ok (r, packet')) :
    SoundEntries packet' := by
  obtain ⟨length, -, hrun⟩ := bind_eq_ok.mp hrun
  by_cases hlong : length > 0xFF
  · rw [if_pos hlong] at hrun
    cases hrun
    exact withSource_sound h hsrcs index hentry
  · rw [if_neg hlong] at hrun
    obtain ⟨⟨item, source₁⟩, hcreate, hrun⟩ := bind_eq_ok.mp hrun
    have hentry₁ := createItem_sound hentry hcreate
    cases item with
    | none =>
      cases hrun
      exact withSource_sound h hsrcs index hentry₁
    | some item =>
      obtain ⟨packet₁, hupdate, hrun⟩ := bind_eq_ok.mp hrun
      cases hrun
      exact updateLength_sound hupdate (withSource_sound h hsrcs index hentry₁)

/-- The entry that a search has found. -/
theorem exists_entry (h : SoundEntries packet) {id : UInt32} {index : Nat}
    (hfind : rtcpSdesFindEntry packet id = .ok (some index)) :
    ∃ srcs source, packet.srcs = .obj srcs ∧ load srcs index = .ok source ∧ SoundEntry source := by
  have hindex := ((find_returns hfind).2 index rfl).2
  have hne : packet.srcs.elements ≠ [] := List.ne_nil_of_length_pos (Nat.zero_lt_of_lt hindex)
  exact ⟨packet.srcs.elements, packet.srcs.elements[index], Ptr.eq_obj_of_elements hne,
    load_of_getElem? (List.getElem?_eq_getElem hindex), h _ (List.getElem_mem hindex)⟩

theorem setItem_sound (h : SoundEntries packet) {src type : UInt32} {data : List UInt8}
    {behind : List SdesItem} {r : Int}
    (hrun : rtcpSdesSetItem packet src type data behind = .ok (r, packet')) :
    SoundEntries packet' := by
  obtain ⟨found, hfind, -⟩ := bind_eq_ok.mp hrun
  cases found with
  | none =>
    rw [rtcpSdesSetItem, bind_of_ok hfind] at hrun
    cases hrun
    exact h
  | some index =>
    obtain ⟨srcs, source, hsrcs, hload, hentry⟩ := exists_entry h hfind
    obtain ⟨items, hitems⟩ := id hentry
    have hderef : packet.srcs.deref = .ok srcs := by rw [hsrcs, Ptr.deref_obj]
    rw [rtcpSdesSetItem_eq hfind hderef hload (hitems.getItem type)] at hrun
    obtain ⟨source₁, hfree, hrun⟩ := bind_eq_ok.mp hrun
    exact setItemEnd_sound h hsrcs (freeItem_sound hentry hfree) hrun

theorem clearItem_sound (h : SoundEntries packet) {src type : UInt32} {behind : List SdesItem}
    (hrun : rtcpSdesClearItem packet src type behind = .ok packet') : SoundEntries packet' := by
  obtain ⟨found, hfind, -⟩ := bind_eq_ok.mp hrun
  cases found with
  | none =>
    rw [rtcpSdesClearItem, bind_of_ok hfind] at hrun
    cases hrun
    exact h
  | some index =>
    obtain ⟨srcs, source, hsrcs, hload, hentry⟩ := exists_entry h hfind
    have hderef : packet.srcs.deref = .ok srcs := by rw [hsrcs, Ptr.deref_obj]
    rw [rtcpSdesClearItem_eq hfind hderef hload] at hrun
    obtain ⟨source₁, hfree, hrun⟩ := bind_eq_ok.mp hrun
    exact updateLength_sound hrun (withSource_sound h hsrcs index (freeItem_sound hentry hfree))

theorem perform_sound (h : SoundEntries packet) {op : Op}
    (hrun : perform packet op = .ok packet') : SoundEntries packet' := by
  cases op with
  | addEntry id =>
    obtain ⟨⟨r, packet₁⟩, hadd, hrun⟩ := bind_eq_ok.mp hrun
    cases hrun
    exact addEntry_sound h hadd
  | removeEntry id behind => exact removeEntry_sound h hrun
  | setItem src type data behind =>
    obtain ⟨⟨r, packet₁⟩, hset, hrun⟩ := bind_eq_ok.mp hrun
    cases hrun
    exact setItem_sound h hset
  | clearItem src type behind => exact clearItem_sound h hrun

/-! ### The parser -/

/-- The entry that the loop over its items ends with. -/
def parsedEntry : Step (Nat × SdesEntry) SdesEntry → SdesEntry
  | .next s => s.2
  | .leave source => source

theorem parseItems_sound {fuel : Nat} {buffer : List UInt8} {s : Nat × SdesEntry}
    (h : SoundEntry s.2) {loop : Step (Nat × SdesEntry) SdesEntry}
    (hrun : loopFuel (parseItem buffer) fuel s = .ok loop) : SoundEntry (parsedEntry loop) := by
  refine loopFuel_returns (I := fun s => SoundEntry s.2)
    (Q := fun r => SoundEntry (parsedEntry r)) ?_ ?_ h hrun
  · intro s s' hs hbody
    obtain ⟨type, -, hbody⟩ := bind_eq_ok.mp hbody
    by_cases hend : type = 0
    · rw [if_pos hend] at hbody
      cases hbody
    · rw [if_neg hend] at hbody
      obtain ⟨length, -, hbody⟩ := bind_eq_ok.mp hbody
      obtain ⟨⟨item, source⟩, hcreate, hbody⟩ := bind_eq_ok.mp hbody
      cases item with
      | none => cases hbody
      | some item =>
        cases hbody
        exact createItem_sound hs hcreate
  · intro s r hs hbody
    obtain ⟨type, -, hbody⟩ := bind_eq_ok.mp hbody
    by_cases hend : type = 0
    · rw [if_pos hend] at hbody
      cases hbody
      exact hs
    · rw [if_neg hend] at hbody
      obtain ⟨length, -, hbody⟩ := bind_eq_ok.mp hbody
      obtain ⟨⟨item, source⟩, hcreate, hbody⟩ := bind_eq_ok.mp hbody
      cases item with
      | none =>
        cases hbody
        exact createItem_sound hs hcreate
      | some item => cases hbody

theorem store_sound (h : ∀ source ∈ srcs, SoundEntry source) (hentry : SoundEntry source)
    {i : Nat} {srcs' : List SdesEntry} (hstore : store srcs i source = .ok srcs') :
    ∀ source ∈ srcs', SoundEntry source := by
  intro source₁ hmem
  rw [(store_eq_ok hstore).2] at hmem
  cases List.mem_or_eq_of_mem_set hmem with
  | inl hold => exact h source₁ hold
  | inr hnew =>
    rw [hnew]
    exact hentry

/-- The entries that the loop stores are sound, whether it comes to its end or not. -/
theorem parseEntries_sound {fuel count : Nat} {buffer : List UInt8}
    {loop : Step (Nat × List SdesEntry) (List SdesEntry)}
    (hrun : parseEntries fuel count buffer = .ok loop) :
    (∃ s, loop = .next s ∧ ∀ source ∈ s.2, SoundEntry source) ∨
      ∃ srcs, loop = .leave srcs ∧ ∀ source ∈ srcs, SoundEntry source := by
  refine forLeave_outcome (I := fun _ s => ∀ source ∈ s.2, SoundEntry source) ?_ ?_ ?_ hrun
  · intro source hmem
    rw [List.eq_of_mem_replicate hmem]
    exact soundEntry_empty 0
  · intro i s s' _ hs hbody
    obtain ⟨id, -, hbody⟩ := bind_eq_ok.mp hbody
    obtain ⟨loop, hloop, hbody⟩ := bind_eq_ok.mp hbody
    cases loop with
    | leave source =>
      obtain ⟨srcs, -, hbody⟩ := bind_eq_ok.mp hbody
      cases hbody
    | next t =>
      obtain ⟨srcs, hstore, hbody⟩ := bind_eq_ok.mp hbody
      cases hbody
      exact store_sound hs (parseItems_sound (soundEntry_empty id) hloop) hstore
  · intro i s srcs' _ hs hbody
    obtain ⟨id, -, hbody⟩ := bind_eq_ok.mp hbody
    obtain ⟨loop, hloop, hbody⟩ := bind_eq_ok.mp hbody
    cases loop with
    | leave source =>
      obtain ⟨srcs, hstore, hbody⟩ := bind_eq_ok.mp hbody
      cases hbody
      exact store_sound hs (parseItems_sound (soundEntry_empty id) hloop) hstore
    | next t =>
      obtain ⟨srcs, -, hbody⟩ := bind_eq_ok.mp hbody
      cases hbody

theorem parse_sound (h : SoundEntries packet) {fuel : Nat} {buffer : List UInt8} {size : Nat}
    {r : Int} (hrun : rtcpSdesParse fuel packet buffer size = .ok (r, packet')) :
    SoundEntries packet' := by
  obtain ⟨⟨pt, header⟩, -, hrun⟩ := bind_eq_ok.mp hrun
  dsimp only at hrun
  by_cases hpt : pt ≠ RTCP_SDES.toNat
  · rw [if_pos hpt] at hrun
    cases hrun
    exact h
  · rw [if_neg hpt] at hrun
    by_cases hcount : header.count ≠ 0
    · rw [if_pos hcount] at hrun
      obtain ⟨loop, hloop, hrun⟩ := bind_eq_ok.mp hrun
      rcases parseEntries_sound hloop with ⟨s, rfl, hsound⟩ | ⟨srcs, rfl, hsound⟩
      · cases hrun
        exact hsound
      · cases hrun
        exact hsound
    · rw [if_neg hcount] at hrun
      cases hrun
      exact h

/-! ### Any use -/

theorem use_sound (h : SoundEntries packet) {u : Use} (hrun : use packet u = .ok packet') :
    SoundEntries packet' := by
  cases u with
  | init =>
    cases hrun
    exact h
  | call op => exact perform_sound h hrun
  | parse fuel buffer size =>
    obtain ⟨⟨r, packet₁⟩, hparse, hrun⟩ := bind_eq_ok.mp hrun
    cases hrun
    exact parse_sound h hparse

theorem sound_create : SoundEntries rtcpSdesCreate := by
  intro source hmem
  cases hmem

theorem reached_sound (h : Reached use rtcpSdesCreate packet) : SoundEntries packet :=
  h.invariant sound_create fun _ _ _ hs hrun => use_sound hs hrun

/-! ## What the serializer shows -/

/-- The bytes that a serialized packet shows are its own. -/
def OwnBytes (packet : RtcpSdes) : Prop :=
  Independent (runOf fun buffer => rtcpSdesSerialize packet buffer buffer.length)
    (Enough (rtcpSdesSize packet))

theorem SoundEntry.carries (h : SoundEntry source) : ∃ w, CarriesEntry source w := by
  obtain ⟨items, hitems⟩ := h
  obtain ⟨is, hlen, his⟩ := exists_holdsList (R := CarriesItem) hitems.items
    fun item hmem => by
      obtain ⟨data, hlength, hdata⟩ := hitems.sound item hmem
      exact ⟨⟨item.type.toUInt8, data⟩, rfl, hlength, hdata⟩
  exact ⟨⟨source.id, is⟩, rfl, hitems.itemCount.trans hlen.symm, his⟩

theorem Sound.carries (h : Sound packet) : ∃ ws, Carries packet ws := by
  obtain ⟨srcs, hheld, hsound⟩ := h
  obtain ⟨ws, hlen, hws⟩ := exists_holdsList (R := CarriesEntry) hheld.entries
    fun source hmem => (hsound source hmem).carries
  exact ⟨ws, hheld.count.trans hlen.symm, hws⟩

/-- A packet that has its entries shows its own bytes only. -/
theorem ownBytes_held (h : Sound packet) : OwnBytes packet := by
  obtain ⟨ws, hws⟩ := h.carries
  have hlen : (headerBytes packet.header ++ ws.flatMap WireEntry.encode).length = sizeOn ws := by
    rw [List.length_append, length_headerBytes, sizeOn]
  have hrun (buffer : List UInt8) (henough : sizeOn ws ≤ buffer.length ∧ buffer.length < 2 ^ 64) :
      rtcpSdesSerialize packet buffer buffer.length = .ok (sizeOn ws,
        headerBytes packet.header ++ ws.flatMap WireEntry.encode
          ++ buffer.drop (headerBytes packet.header ++ ws.flatMap WireEntry.encode).length) := by
    rw [hlen]
    exact rtcpSdesSerialize_wire hws henough.1 henough.2 henough.1
  rw [OwnBytes, rtcpSdesSize_wire hws, enough_ok]
  apply independent_of_front hrun
  rw [hlen, Int.toNat_natCast]

/-- The packet without the entries that it does not count. -/
def counted (packet : RtcpSdes) : RtcpSdes :=
  { packet with srcs := .obj (packet.srcs.elements.take packet.header.count.toNat) }

section Counted

variable (hcount : Covered packet.header.count packet.srcs)
include hcount

theorem size_counted : rtcpSdesSize packet = rtcpSdesSize (counted packet) :=
  forUp_congr _ _ fun _ _ hi => hcount.bind_load hi _

/-- They are not serialized. -/
theorem serialize_counted (buffer : List UInt8) (size : Nat) :
    rtcpSdesSerialize packet buffer size = rtcpSdesSerialize (counted packet) buffer size := by
  have hentries (buffer : List UInt8) :
      serializeEntries packet buffer size = serializeEntries (counted packet) buffer size :=
    forLeave_congr _ _ fun _ _ hi => hcount.bind_load hi _
  rw [rtcpSdesSerialize, rtcpSdesSerialize, size_counted hcount]
  simp only [hentries]
  rfl

theorem sound_counted (h : SoundEntries packet) : Sound (counted packet) := by
  have hsound : SoundEntries (counted packet) :=
    fun source hmem => h source (List.mem_of_mem_take hmem)
  exact hsound.sound (hcount.held)

end Counted

/-- A size that returns has found as many entries as the packet counts. -/
theorem count_le_of_size {size : Nat} (hrun : rtcpSdesSize packet = .ok size) :
    Covered packet.header.count packet.srcs := by
  refine forUp_returns (I := fun i _ => i ≤ packet.srcs.elements.length) (Nat.zero_le _) ?_ hrun
  intro i s s' _ _ hbody
  obtain ⟨srcs, hderef, hbody⟩ := bind_eq_ok.mp hbody
  obtain ⟨source, hload, -⟩ := bind_eq_ok.mp hbody
  obtain ⟨hlt, -⟩ := load_eq_ok hload
  rw [Ptr.deref_eq_ok hderef, Ptr.elements_obj]
  exact hlt

/-- A packet shows its own bytes only, if it has the entries that it counts. The size of any
other cannot be told. -/
theorem ownBytes_iff (h : SoundEntries packet) :
    OwnBytes packet ↔ Covered packet.header.count packet.srcs := by
  constructor
  · intro hown
    by_contra hcount
    have henough : Enough (rtcpSdesSize packet) ([] : List UInt8).length :=
      ⟨fun m hm => absurd (count_le_of_size hm) hcount, Nat.pow_pos (by decide)⟩
    obtain ⟨r, hrun⟩ := returns_of_independent hown henough
    obtain ⟨size, hsize, -⟩ := bind_eq_ok.mp hrun
    exact hcount (count_le_of_size hsize)
  · intro hcount
    have hsame : OwnBytes packet ↔ OwnBytes (counted packet) := by
      rw [OwnBytes, OwnBytes, ← size_counted hcount]
      exact independent_congr fun xs _ => serialize_counted hcount xs xs.length
    exact hsame.mpr (ownBytes_held (sound_counted hcount h))

end RtpSdr.Rtp.SdesOutput
