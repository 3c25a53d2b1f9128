import RtpSdr.Rtp.SdesOutput

/-!
# A source description item that cannot be set

`rtcp_sdes_set_item` removes the item of the type before it looks at the string, so that
the string that is too long costs the packet what it had.
-/
namespace RtpSdr.Rtp.SdesFailure

open RtpSdr.Lib.Checked
open RtpSdr.Lib.Memory
open RtpSdr.Rtp.RtcpHeader
open RtpSdr.Rtp.EntryList
open RtpSdr.Rtp.Sdes
open RtpSdr.Rtp.SdesEdit
open RtpSdr.Rtp.SdesOutput

/-- An entry with as many items as it counts, none of them freed. -/
structure Live (source : SdesEntry) (items : List SdesItem) : Prop where
  count : source.itemCount.toNat = items.length
  array : items ≠ [] → source.items = .obj items
  live : ∀ item ∈ items, item.data ≠ .freed

/-- The call returns, and if it reports an error it has changed nothing. -/
def FailsCleanly (packet : RtcpSdes) (src type : UInt32) (data : List UInt8)
    (behind : List SdesItem) : Prop :=
  ∃ r packet', rtcpSdesSetItem packet src type data behind = .ok (r, packet') ∧
    (r = RTCP_ERROR → packet' = packet)

/-- The item that `free_item` can take away: the oldest one, if there is something to be read
behind the array. -/
def Frees (items : List SdesItem) (type : UInt32) (behind : List SdesItem) : Prop :=
  items.head?.map SdesItem.type = some type ∧ behind ≠ []

/-- If the source has an item of the type, `free_item` can take it away, the source has no other
such item, and the string fits. -/
def Fits (srcs : List SdesEntry) (src type : UInt32) (data : List UInt8)
    (behind : List SdesItem) : Prop :=
  ∀ source items, (srcs.find? fun source => source.id == src) = some source → Live source items →
    type ∈ items.map SdesItem.type →
      Frees items type behind ∧ (cstring data).length ≤ 255 ∧ type ∉ items.tail.map SdesItem.type

variable {packet packet' : RtcpSdes} {srcs : List SdesEntry} {source source' : SdesEntry}
  {items : List SdesItem} {src type : UInt32} {data : List UInt8} {behind : List SdesItem}
  {index : Nat}

theorem Live.getItem (h : Live source items) (type : UInt32) :
    getItem source type = .ok (items.findIdx? fun item => item.type == type) := by
  rw [Sdes.getItem, h.count, find_ok h.array]

theorem live_one (id type : UInt32) :
    Live ⟨id, 1, .obj [⟨type, 0, .null⟩]⟩ [⟨type, 0, .null⟩] := by
  refine ⟨rfl, fun _ => rfl, fun item hitem => ?_⟩
  cases List.mem_singleton.mp hitem
  intro hfreed
  cases hfreed

theorem Live.unique (h : Live source items) {items' : List SdesItem} (h' : Live source items') :
    items' = items := by
  have hlen : items'.length = items.length := h'.count.symm.trans h.count
  by_cases hne : items = []
  · rw [hne] at hlen ⊢
    exact List.eq_nil_of_length_eq_zero hlen
  · have hne' : items' ≠ [] := fun hnil => hne (List.eq_nil_of_length_eq_zero (by
      rw [← hlen, hnil, List.length_nil]))
    have heq := (h'.array hne').symm.trans (h.array hne)
    cases heq
    rfl

/-! ## What is freed -/

theorem freeItem_none (h : Live source items) (hnew : type ∉ items.map SdesItem.type) :
    freeItem source type behind = .ok source := by
  rw [freeItem, bind_of_ok (h.getItem type), (search_key_eq_none items SdesItem.type type).mpr hnew]

theorem free_live {item : SdesItem} (hlive : item.data ≠ .freed) :
    ∃ p, free item.data = .ok p := by
  cases hdata : item.data with
  | null => exact ⟨_, rfl⟩
  | obj text => exact ⟨_, rfl⟩
  | freed => exact absurd hdata hlive

/-- The oldest item goes if something can be read behind the array. -/
theorem freeItem_first {item : SdesItem} (h : Live source (item :: items))
    (htype : item.type = type) (b : SdesItem) (behind : List SdesItem) :
    ∃ count : UInt8, count.toNat = items.length ∧ freeItem source type (b :: behind)
      = .ok { source with itemCount := count, items := .ofList items } := by
  obtain ⟨p, hp⟩ := free_live (h.live item List.mem_cons_self)
  obtain ⟨count, hcount, hshrink⟩ := shrinkItems_eq h.count b (List.cons_ne_nil item items)
  have hfound : ((item :: items).findIdx? fun item => item.type == type) = some 0 := by
    rw [List.findIdx?_cons, htype, beq_self_eq_true, if_pos rfl]
  have hmove := memmove_tail b behind (show 0 < (item :: items).length from Nat.succ_pos _)
  refine ⟨count, hcount, ?_⟩
  rw [freeItem, bind_of_ok (h.getItem type), hfound]
  dsimp only
  rw [h.array (List.cons_ne_nil _ _), Ptr.deref_obj, ok_bind]
  change (free item.data >>= _) = _
  rw [bind_of_ok hp, h.count, Nat.zero_div, bind_of_ok hmove, hshrink]
  rfl

/-- Any other item does not: the move leaves the array. -/
theorem freeItem_leaves (h : Live source items) (hin : type ∈ items.map SdesItem.type)
    (hnot : ¬ Frees items type behind) :
    ∃ e, freeItem source type behind = .error e := by
  rw [freeItem, bind_of_ok (h.getItem type)]
  cases hfound : items.findIdx? fun item => item.type == type with
  | none => exact absurd hin ((search_key_eq_none items SdesItem.type type).mp hfound)
  | some offset =>
    obtain ⟨hoffset, htype, -⟩ := List.findIdx?_eq_some_iff_getElem.mp hfound
    obtain ⟨p, hp⟩ := free_live (h.live _ (List.getElem_mem hoffset))
    have hload : load items offset = .ok items[offset] :=
      load_of_getElem? (List.getElem?_eq_getElem hoffset)
    have hfault : memmove items behind offset (offset + 1)
        (items.length - offset / sizeofItem) = .error .bounds := by
      apply memmove_fault
      rw [sizeofItem]
      by_cases hzero : offset = 0
      · cases hzero
        have hhead : items.head?.map SdesItem.type = some type := by
          rw [List.head?_eq_getElem?, List.getElem?_eq_getElem hoffset, Option.map_some,
            beq_iff_eq.mp htype]
        rw [not_not.mp (not_and.mp hnot hhead), List.length_nil]
        omega
      · omega
    dsimp only
    rw [h.array (List.ne_nil_of_length_pos (by omega)), Ptr.deref_obj, ok_bind, bind_of_ok hload,
      bind_of_ok hp, h.count, hfault]
    exact ⟨.bounds, rfl⟩

/-! ## What comes after -/

theorem storeItem_some {count : UInt8} {off : Nat} {length : UInt8} :
    storeItem source count items type data off length ≠ .ok (none, source') := by
  intro hrun
  obtain ⟨_, -, hrun⟩ := bind_eq_ok.mp hrun
  obtain ⟨_, -, hrun⟩ := bind_eq_ok.mp hrun
  cases hrun

theorem setItemEnd_long (hstring : 0 ∈ data) (hlong : 255 < (cstring data).length) :
    setItemEnd packet srcs index source type data
      = .ok (RTCP_ERROR, withSource packet srcs index source) := by
  rw [setItemEnd, bind_of_ok (strlen_ok hstring), if_pos hlong]

/-- A new type finds room. -/
theorem createItem_some {off : Nat} {length : UInt8} (h : Live source items)
    (hnew : type ∉ items.map SdesItem.type) (hroom : items.length < 255) :
    createItem source type data off length ≠ .ok (none, source') := by
  intro hrun
  rw [createItem, bind_of_ok (h.getItem type), (search_key_eq_none _ _ _).mpr hnew,
    if_neg (by decide)] at hrun
  split at hrun
  · exact storeItem_some hrun
  · split at hrun
    · rename_i hfull
      have hcount := h.count
      rw [hfull] at hcount
      change 255 = items.length at hcount
      omega
    · obtain ⟨_, -, hrun⟩ := bind_eq_ok.mp hrun
      exact storeItem_some hrun

theorem createItem_again {off : Nat} {length : UInt8} (h : Live source items)
    (hin : type ∈ items.map SdesItem.type) :
    createItem source type data off length = .ok (none, source) := by
  rw [createItem, bind_of_ok (h.getItem type)]
  cases hfound : items.findIdx? fun item => item.type == type with
  | none => exact absurd hin ((search_key_eq_none _ _ _).mp hfound)
  | some offset => rfl

theorem entrySize_live (h : Live source items) : ∃ n, entrySize source = .ok n := by
  obtain ⟨size, hsize, -⟩ := forUp_invariant (b := fun i size => do
      let items ← source.items.deref
      let item ← load items i
      .ok (size + itemSize item)) (I := fun _ _ => True) (s := 5) source.itemCount.toNat trivial (by
    intro i size hi _
    rw [h.count] at hi
    rw [h.array (List.ne_nil_of_length_pos (by omega)), Ptr.deref_obj, ok_bind,
      bind_of_ok (load_of_lt emptyItem hi)]
    exact ⟨_, rfl, trivial⟩)
  exact ⟨roundUp size, by rw [entrySize, bind_of_ok hsize]⟩

theorem rtcpSdesSize_live (hheld : Held packet.header.count packet.srcs srcs)
    (hlive : ∀ source ∈ srcs, ∃ items, Live source items) : ∃ n, rtcpSdesSize packet = .ok n := by
  obtain ⟨size, hsize, -⟩ := forUp_invariant (b := fun i size => do
      let sources ← packet.srcs.deref
      let source ← load sources i
      let entry ← entrySize source
      .ok (size + entry)) (I := fun _ _ => True) (s := 4) packet.header.count.toNat trivial (by
    intro i size hi _
    rw [hheld.count] at hi
    obtain ⟨items, h⟩ := hlive srcs[i] (List.getElem_mem hi)
    obtain ⟨n, hn⟩ := entrySize_live h
    rw [hheld.deref (List.ne_nil_of_length_pos (by omega)), ok_bind,
      bind_of_ok (load_of_getElem? (List.getElem?_eq_getElem hi)), bind_of_ok hn]
    exact ⟨_, rfl, trivial⟩)
  exact ⟨size, hsize⟩

theorem storeItem_live {count : UInt8} {xs : List SdesItem} (hshort : (cstring data).length ≤ 255)
    (hlive : ∀ item ∈ xs, item.data ≠ .freed) (hcount : count.toNat = xs.length + 1) :
    ∃ item source₁ items₁, storeItem source count (realloc xs count.toNat emptyItem) type data 0
      (UInt8.ofNat (cstring data).length) = .ok (some item, source₁) ∧ Live source₁ items₁ := by
  have hlength : (UInt8.ofNat (cstring data).length).toNat = (cstring data).length :=
    (UInt8.toNat_ofNat' ..).trans (Nat.mod_eq_of_lt (by omega))
  rw [storeItem, hlength, bind_of_ok (slice_cstring data), hcount,
    bind_of_ok (storeLast_realloc xs emptyItem _)]
  refine ⟨_, _, _, rfl, ⟨?_, fun _ => rfl, fun item hmem => ?_⟩⟩
  · rw [List.length_append]
    exact hcount
  · rcases List.mem_append.mp hmem with hold | hnew
    · exact hlive item hold
    · rw [List.mem_singleton.mp hnew]
      exact Ptr.obj_ne_freed _

/-- An item is created, or the entry has one already or no room. -/
theorem createItem_live (h : Live source items) (hshort : (cstring data).length ≤ 255)
    (type : UInt32) :
    createItem source type data 0 (UInt8.ofNat (cstring data).length) = .ok (none, source) ∨
      ∃ item source₁ items₁, createItem source type data 0 (UInt8.ofNat (cstring data).length)
        = .ok (some item, source₁) ∧ Live source₁ items₁ := by
  have hcount := h.count
  rw [createItem, bind_of_ok (h.getItem type)]
  by_cases hsome : (items.findIdx? fun item => item.type == type).isSome = true
  · exact .inl (if_pos hsome)
  · rw [if_neg hsome]
    by_cases hzero : source.itemCount = 0
    · rw [if_pos hzero]
      have hlive : ∀ item ∈ ([] : List SdesItem), item.data ≠ .freed :=
        fun _ hmem => absurd hmem List.not_mem_nil
      exact .inr (storeItem_live hshort hlive rfl)
    · rw [if_neg hzero]
      by_cases hfull : source.itemCount = 0xff
      · exact .inl (if_pos hfull)
      · have hne : items ≠ [] := by
          rintro rfl
          exact hzero (UInt8.toNat_inj.mp hcount)
        have hnext : (source.itemCount + 1).toNat = items.length + 1 := by
          have hlt := source.itemCount.toNat_lt
          have hne255 : source.itemCount.toNat ≠ 255 := fun heq => hfull (UInt8.toNat_inj.mp heq)
          rw [UInt8.toNat_add, hcount]
          exact Nat.mod_eq_of_lt (by change items.length + 1 < 256; omega)
        rw [if_neg hfull, h.array hne, Ptr.deref_obj, ok_bind]
        exact .inr (storeItem_live hshort h.live hnext)

/-- The call returns. -/
theorem setItemEnd_live (hheld : Held packet.header.count packet.srcs srcs)
    (hlive : ∀ source ∈ srcs, ∃ items, Live source items) (h : Live source items)
    (hstring : 0 ∈ data) (index : Nat) (type : UInt32) :
    setItemEnd packet srcs index source type data
        = .ok (RTCP_ERROR, withSource packet srcs index source) ∨
      ∃ packet', setItemEnd packet srcs index source type data = .ok (RTCP_OK, packet') := by
  rw [setItemEnd, bind_of_ok (strlen_ok hstring)]
  by_cases hlong : (cstring data).length > 0xFF
  · exact .inl (if_pos hlong)
  · rw [if_neg hlong]
    rcases createItem_live h (Nat.le_of_not_lt hlong) type with
      hcreate | ⟨item, source₁, items₁, hcreate, h₁⟩
    · rw [hcreate, ok_bind]
      exact .inl rfl
    · have hheld₁ : Held (withSource packet srcs index source₁).header.count
          (withSource packet srcs index source₁).srcs (srcs.set index source₁) :=
        ⟨by rw [List.length_set]; exact hheld.count, fun _ => rfl⟩
      obtain ⟨n, hn⟩ := rtcpSdesSize_live hheld₁ fun source₂ hmem => by
        rcases List.mem_or_eq_of_mem_set hmem with hold | rfl
        · exact hlive source₂ hold
        · exact ⟨items₁, h₁⟩
      have hupdate : updateLength (withSource packet srcs index source₁) = .ok (withLength
          (withSource packet srcs index source₁) (UInt16.ofNat (sizeSub (n / 4) 1))) := by
        rw [updateLength, bind_of_ok hn]
      right
      rw [hcreate, ok_bind]
      exact ⟨_, bind_of_ok hupdate⟩

theorem setItemEnd_short (hstring : 0 ∈ data) (hshort : (cstring data).length ≤ 255)
    (hcreate : ∀ source', createItem source type data 0 (UInt8.ofNat (cstring data).length)
      ≠ .ok (none, source')) :
    setItemEnd packet srcs index source type data ≠ .ok (RTCP_ERROR, packet') := by
  intro hrun
  rw [setItemEnd, bind_of_ok (strlen_ok hstring), if_neg (by omega)] at hrun
  obtain ⟨⟨item, source₁⟩, hitem, hrun⟩ := bind_eq_ok.mp hrun
  cases item with
  | none => exact hcreate source₁ hitem
  | some item =>
    obtain ⟨packet₁, -, hrun⟩ := bind_eq_ok.mp hrun
    cases hrun

theorem setItemEnd_again (hstring : 0 ∈ data) (h : Live source items)
    (hin : type ∈ items.map SdesItem.type) :
    setItemEnd packet srcs index source type data
      = .ok (RTCP_ERROR, withSource packet srcs index source) := by
  by_cases hlong : 255 < (cstring data).length
  · exact setItemEnd_long hstring hlong
  · rw [setItemEnd, bind_of_ok (strlen_ok hstring), if_neg hlong,
      bind_of_ok (createItem_again h hin)]
    rfl

theorem ne_nil_of_source (hsource : srcs[index]? = some source) : srcs ≠ [] := by
  intro hnil
  rw [hnil] at hsource
  cases hsource

theorem withSource_same (hsrcs : packet.srcs = .obj srcs) (hsource : srcs[index]? = some source) :
    withSource packet srcs index source = packet := by
  obtain ⟨hindex, hget⟩ := List.getElem?_eq_some_iff.mp hsource
  rw [withSource, ← hget, List.set_getElem_self, ← hsrcs]

theorem withSource_changed (hsrcs : packet.srcs = .obj srcs) (hsource : srcs[index]? = some source)
    (hcount : source'.itemCount ≠ source.itemCount) :
    withSource packet srcs index source' ≠ packet := by
  intro heq
  obtain ⟨hindex, hget⟩ := List.getElem?_eq_some_iff.mp hsource
  have harray := congrArg RtcpSdes.srcs heq
  rw [hsrcs] at harray
  have hset : srcs.set index source' = srcs := Ptr.obj.inj harray
  have hnew : (srcs.set index source')[index]? = some source' :=
    List.getElem?_set_self hindex
  rw [hset, hsource] at hnew
  cases hnew
  exact hcount rfl

/-! ## The whole call -/

/-- A source that is not known gets nothing. -/
theorem setItem_unknown (hheld : Held packet.header.count packet.srcs srcs)
    (hunknown : (srcs.findIdx? fun source => source.id == src) = none) :
    rtcpSdesSetItem packet src type data behind = .ok (RTCP_ERROR, packet) := by
  rw [rtcpSdesSetItem, bind_of_ok (findEntry_held hheld src), hunknown]

/-- The call that has freed the oldest item. -/
theorem failsCleanly_freed (hheld : Held packet.header.count packet.srcs srcs)
    (hlives : ∀ source ∈ srcs, ∃ items, Live source items)
    (hsource : srcs[index]? = some source) (hstring : 0 ∈ data) {item : SdesItem}
    (h : Live source (item :: items))
    (h' : Live source' items)
    (hrun : rtcpSdesSetItem packet src type data behind
      = setItemEnd packet srcs index source' type data) :
    FailsCleanly packet src type data behind
      ↔ (cstring data).length ≤ 255 ∧ type ∉ items.map SdesItem.type := by
  have hlt := source.itemCount.toNat_lt
  have hcount := h.count
  have hcount' := h'.count
  rw [List.length_cons] at hcount
  have hne : source'.itemCount ≠ source.itemCount := by
    intro heq
    rw [heq] at hcount'
    omega
  have hchanged := withSource_changed (hheld.entries (ne_nil_of_source hsource)) hsource hne
  rw [FailsCleanly, hrun]
  constructor
  · rintro ⟨r, packet', hcall, hclean⟩
    constructor
    · by_contra hlong
      cases hcall.symm.trans (setItemEnd_long hstring (Nat.lt_of_not_le hlong))
      exact hchanged (hclean rfl)
    · intro hin
      cases hcall.symm.trans (setItemEnd_again hstring h' hin)
      exact hchanged (hclean rfl)
  · intro hfits
    have hcreate : ∀ source₁, createItem source' type data 0 (UInt8.ofNat (cstring data).length)
        ≠ .ok (none, source₁) := fun _ => createItem_some h' hfits.2 (by omega)
    rcases setItemEnd_live hheld hlives h' hstring index type with herror | ⟨packet', hok⟩
    · exact absurd herror (setItemEnd_short hstring hfits.1 hcreate)
    · exact ⟨_, packet', hok, fun h0 => absurd h0 (by decide)⟩

theorem fits_of_find (hfind : (srcs.find? fun source => source.id == src) = some source)
    (h : Live source items) :
    Fits srcs src type data behind ↔ (type ∈ items.map SdesItem.type → Frees items type behind ∧
      (cstring data).length ≤ 255 ∧ type ∉ items.tail.map SdesItem.type) := by
  constructor
  · exact fun hfits hin => hfits source items hfind h hin
  · intro hfits other items' hother hlive hin
    rw [hfind] at hother
    cases hother
    rw [h.unique hlive] at hin ⊢
    exact hfits hin

/-- The call on a source that is known, as far as its item is freed. -/
theorem setItem_known (hheld : Held packet.header.count packet.srcs srcs)
    (hfound : (srcs.findIdx? fun source => source.id == src) = some index)
    (hsource : srcs[index]? = some source) (h : Live source items) (type : UInt32)
    (data : List UInt8) (behind : List SdesItem) :
    rtcpSdesSetItem packet src type data behind
      = freeItem source type behind >>= fun source =>
        setItemEnd packet srcs index source type data := by
  have hfind : rtcpSdesFindEntry packet src = .ok (some index) :=
    hfound ▸ findEntry_held hheld src
  exact rtcpSdesSetItem_eq hfind (hheld.deref (ne_nil_of_source hsource))
    (load_of_getElem? hsource) (h.getItem type) data behind

/-- The call on a source that is known. -/
theorem failsCleanly_known (hheld : Held packet.header.count packet.srcs srcs)
    (hlives : ∀ source ∈ srcs, ∃ items, Live source items)
    (hfound : (srcs.findIdx? fun source => source.id == src) = some index)
    (hsource : srcs[index]? = some source) (h : Live source items) (hstring : 0 ∈ data) :
    FailsCleanly packet src type data behind ↔ (type ∈ items.map SdesItem.type →
      Frees items type behind ∧ (cstring data).length ≤ 255 ∧
        type ∉ items.tail.map SdesItem.type) := by
  have hrun := setItem_known hheld hfound hsource h type data behind
  have hsrcs := hheld.entries (ne_nil_of_source hsource)
  by_cases hin : type ∈ items.map SdesItem.type
  · rw [imp_iff_right hin]
    by_cases hfrees : Frees items type behind
    · rw [and_iff_right hfrees]
      obtain ⟨hhead, hbehind⟩ := hfrees
      obtain ⟨item, rest, rfl⟩ : ∃ item rest, items = item :: rest := by
        cases items with
        | nil => cases hhead
        | cons item rest => exact ⟨item, rest, rfl⟩
      obtain ⟨b, bs, rfl⟩ := List.exists_cons_of_ne_nil hbehind
      obtain ⟨count, hcount, hfree⟩ := freeItem_first h (Option.some.inj hhead) b bs
      rw [hfree, ok_bind] at hrun
      have hlive : Live { source with itemCount := count, items := .ofList rest } rest :=
        ⟨hcount, Ptr.ofList_of_ne_nil, fun item hmem => h.live item (List.mem_cons_of_mem _ hmem)⟩
      exact failsCleanly_freed hheld hlives hsource hstring h hlive hrun
    · obtain ⟨e, he⟩ := freeItem_leaves h hin hfrees
      refine iff_of_false (fun hclean => ?_) fun hfits => hfrees hfits.1
      obtain ⟨r, packet', hcall, -⟩ := hclean
      rw [hrun, he, error_bind] at hcall
      cases hcall
  · refine iff_of_true ?_ fun hyes => absurd hyes hin
    rw [FailsCleanly, hrun, freeItem_none h hin, ok_bind]
    rcases setItemEnd_live hheld hlives h hstring index type with herror | ⟨packet', hok⟩
    · exact ⟨_, _, herror, fun _ => withSource_same hsrcs hsource⟩
    · exact ⟨_, packet', hok, fun h0 => absurd h0 (by decide)⟩

/-- The call fails cleanly exactly if the item it frees, if any, can be taken away and is replaced
after all. -/
theorem failsCleanly_iff (hheld : Held packet.header.count packet.srcs srcs)
    (hlive : ∀ source ∈ srcs, ∃ items, Live source items) (src type : UInt32)
    (hstring : 0 ∈ data) (behind : List SdesItem) :
    FailsCleanly packet src type data behind ↔ Fits srcs src type data behind := by
  have hsearch : (srcs.find? fun source => source.id == src) =
      (srcs.findIdx? fun source => source.id == src).bind (srcs[·]?) :=
    List.find?_eq_bind_findIdx?_getElem?
  cases hfound : srcs.findIdx? fun source => source.id == src with
  | none =>
    rw [hfound, Option.bind_none] at hsearch
    refine iff_of_true ⟨_, packet, setItem_unknown hheld hfound, fun _ => rfl⟩
      (fun source items hfind => ?_)
    rw [hsearch] at hfind
    cases hfind
  | some index =>
    have hindex := (List.findIdx?_eq_some_iff_getElem.mp hfound).1
    have hsource := List.getElem?_eq_getElem hindex
    rw [hfound, Option.bind_some, hsource] at hsearch
    obtain ⟨items, h⟩ := hlive srcs[index] (List.getElem_mem hindex)
    rw [failsCleanly_known hheld hlive hfound hsource h hstring, fits_of_find hsearch h]

/-- A string that is too long is refused without a change only by a source that has no item of
the type. -/
theorem refuses_iff (hheld : Held packet.header.count packet.srcs srcs)
    (hlives : ∀ source ∈ srcs, ∃ items, Live source items)
    (hfound : (srcs.findIdx? fun source => source.id == src) = some index)
    (hsource : srcs[index]? = some source) (h : Live source items) (hstring : 0 ∈ data)
    (hlong : 255 < (cstring data).length) (type : UInt32) (behind : List SdesItem) :
    rtcpSdesSetItem packet src type data behind = .ok (RTCP_ERROR, packet)
      ↔ type ∉ items.map SdesItem.type := by
  constructor
  · intro herror hin
    have hclean : FailsCleanly packet src type data behind := ⟨_, packet, herror, fun _ => rfl⟩
    have hfits := (failsCleanly_known hheld hlives hfound hsource h hstring).mp hclean hin
    omega
  · intro hnew
    rw [setItem_known hheld hfound hsource h type data behind, freeItem_none h hnew, ok_bind,
      setItemEnd_long hstring hlong,
      withSource_same (hheld.entries (ne_nil_of_source hsource)) hsource]

/-- A source 7 with an item of type 1. -/
def seven : RtcpSdes := ⟨⟨2, 0, 1, RTCP_SDES, 2⟩, .obj [⟨7, 1, .obj [⟨1, 0, .null⟩]⟩]⟩

theorem held_seven :
    Held seven.header.count seven.srcs [(⟨7, 1, .obj [⟨1, 0, .null⟩]⟩ : SdesEntry)] := held_obj rfl

theorem live_seven : ∀ source ∈ [(⟨7, 1, .obj [⟨1, 0, .null⟩]⟩ : SdesEntry)],
    ∃ items, Live source items := by
  intro source hmem
  cases List.mem_singleton.mp hmem
  exact ⟨_, live_one 7 1⟩

def tooLong : List UInt8 := List.replicate 256 65 ++ [0]

theorem zero_mem_tooLong : 0 ∈ tooLong := List.mem_append_right _ (by decide)

theorem length_tooLong : (cstring tooLong).length = 256 := by decide +kernel

/-- The source fails cleanly to get a string that is too long for an item of type 2, it loses its
item of type 1 to one, and replaces it by one that fits. -/
theorem failsCleanly_iff_seven :
    rtcpSdesSetItem seven 7 2 tooLong [emptyItem] = .ok (RTCP_ERROR, seven) ∧
    FailsCleanly seven 7 2 tooLong [emptyItem] ∧ ¬ FailsCleanly seven 7 1 tooLong [emptyItem] ∧
    FailsCleanly seven 7 1 [65, 0] [emptyItem] := by
  have hlive := live_one 7 1
  have hfits (type : UInt32) (data : List UInt8) (hstring : 0 ∈ data) :=
    (failsCleanly_iff held_seven live_seven 7 type hstring [emptyItem]).trans
      (fits_of_find rfl hlive)
  refine ⟨?_, ?_, fun hclean => ?_, ?_⟩
  · exact (refuses_iff held_seven live_seven rfl rfl hlive zero_mem_tooLong
      (by rw [length_tooLong]; decide) 2 [emptyItem]).mpr (by decide)
  · exact (hfits 2 tooLong zero_mem_tooLong).mpr fun hin => absurd hin (by decide)
  · have hshort := ((hfits 1 tooLong zero_mem_tooLong).mp hclean (by decide)).2.1
    rw [length_tooLong] at hshort
    exact absurd hshort (by decide)
  · exact (hfits 1 [65, 0] (by decide)).mpr fun _ =>
      ⟨⟨rfl, List.cons_ne_nil _ _⟩, by decide, by decide⟩

/-- The call that costs the source its item returns the error with a packet that has none. -/
theorem failsCleanly_fails :
    rtcpSdesSetItem seven 7 1 tooLong [emptyItem]
      = .ok (RTCP_ERROR, { seven with srcs := .obj [⟨7, 0, .null⟩] }) ∧
    ¬ FailsCleanly seven 7 1 tooLong [emptyItem] := by
  have hfree : freeItem ⟨7, 1, .obj [⟨1, 0, .null⟩]⟩ 1 [emptyItem] = .ok ⟨7, 0, .null⟩ := rfl
  have hrun : rtcpSdesSetItem seven 7 1 tooLong [emptyItem]
      = .ok (RTCP_ERROR, { seven with srcs := .obj [⟨7, 0, .null⟩] }) := by
    rw [setItem_known held_seven rfl rfl (live_one 7 1), bind_of_ok hfree,
      setItemEnd_long zero_mem_tooLong (by rw [length_tooLong]; decide)]
    rfl
  refine ⟨hrun, fun hfails => ?_⟩
  obtain ⟨r, packet', hcall, hclean⟩ := hfails
  cases hrun.symm.trans hcall
  have harray := congrArg RtcpSdes.srcs (hclean rfl)
  cases Ptr.obj.inj harray

end RtpSdr.Rtp.SdesFailure
