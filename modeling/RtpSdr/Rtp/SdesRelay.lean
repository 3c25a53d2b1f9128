import RtpSdr.Lib.Output
import RtpSdr.Rtp.SdesRoundTrip
import RtpSdr.Rtp.SdesWalk

/-!
# Source descriptions that come back as they were

The parser stops at the zero behind the items of an entry and does not look at what fills the entry
up; the serializer fills up with zeros. What is read of the rest is all that is written.
-/
namespace RtpSdr.Rtp.SdesRelay

open RtpSdr.Lib.Checked
open RtpSdr.Lib.Memory
open RtpSdr.Lib.BigEndian
open RtpSdr.Lib.Output
open RtpSdr.Rtp.Util
open RtpSdr.Rtp.RtcpHeader
open RtpSdr.Rtp.Sdes
open RtpSdr.Rtp.SdesWalk
open RtpSdr.Rtp.SdesRoundTrip

/-- The packet that is read from the buffer is written as it lies at its front. -/
def Relays (fuel : Nat) (buffer : List UInt8) : Prop :=
  ∃ packet n, rtcpSdesParse fuel rtcpSdesCreate buffer buffer.length = .ok (RTCP_OK, packet) ∧
    rtcpSdesSize packet = .ok n ∧ n ≤ buffer.length ∧
    Writes (runOf fun out => rtcpSdesSerialize packet out out.length) (buffer.take n)

/-- The first entries of a buffer, filled up with zeros, and the offset behind them. -/
inductive ZeroFilled (buffer : List UInt8) : Nat → Nat → Prop where
  | start : ZeroFilled buffer 0 4
  | next {n off last : Nat} (hprev : ZeroFilled buffer n off) (hid : off + 4 ≤ buffer.length)
      (hitems : Items buffer (off + 4) [] (some last))
      (hfill : ∀ i, last ≤ i → i < entryEnd last → buffer[i]? = some 0) :
      ZeroFilled buffer (n + 1) (entryEnd last)

/-- The first entries of a buffer by what they say, each up to the zero behind its items. -/
inductive Layout (buffer : List UInt8) : List Entry → Nat → Prop where
  | start : Layout buffer [] 4
  | next {es : List Entry} {off : Nat} {e : Entry} {rest : List UInt8}
      (hprev : Layout buffer es off)
      (hentry : buffer.drop off = bytes 4 e.id.toNat ++ (itemsBytes e.items ++ 0 :: rest)) :
      Layout buffer (es ++ [e]) (off + e.size)

variable {buffer seen : List UInt8} {es : List Entry} {e : Entry} {off last n fuel : Nat}

/-! ## Items as they lie in the buffer -/

theorem drop_of_getElem? {b : UInt8} (h : buffer[off]? = some b) :
    buffer.drop off = b :: buffer.drop (off + 1) := by
  obtain ⟨hlt, hb⟩ := List.getElem?_eq_some_iff.mp h
  rw [List.drop_eq_getElem_cons hlt, hb]

/-- What the items that the walk goes through say. -/
theorem items_content {ending : Option Nat} (h : Items buffer off seen ending) :
    ∀ last, ending = some last → ∃ items rest,
      buffer.drop off = itemsBytes items ++ 0 :: rest ∧
      last = off + (itemsBytes items).length ∧ (items.map (·.type)).Nodup ∧
      ∀ item ∈ items, UInt8.ofNat item.type ∉ seen := by
  induction h with
  | @zero off seen hzero =>
    rintro last ⟨⟩
    exact ⟨[], _, drop_of_getElem? hzero, rfl, List.nodup_nil, fun _ h => nomatch h⟩
  | twice => exact fun _ h => nomatch h
  | @item off seen type length ending htype hne hlength hnew hdata hrest ih =>
    intro last hlast
    obtain ⟨items, rest, hdrop, hend, hdistinct, hfresh⟩ := ih last hlast
    have hpos : 0 < type.toNat := Nat.pos_of_ne_zero fun h0 => hne (UInt8.toNat_inj.mp h0)
    have hlt := type.toNat_lt
    have hlen : ((buffer.drop (off + 2)).take length.toNat).length = length.toNat := by
      rw [List.length_take, List.length_drop]
      omega
    let item : Item := ⟨type.toNat, (buffer.drop (off + 2)).take length.toNat, hpos, by omega, by
      have := length.toNat_lt
      omega⟩
    refine ⟨item :: items, rest, ?_, ?_, ?_, ?_⟩
    · have hbytes : itemBytes item
          = type :: length :: (buffer.drop (off + 2)).take length.toNat := by
        rw [itemBytes, hlen, UInt8.ofNat_toNat, UInt8.ofNat_toNat]
      rw [drop_of_getElem? htype, drop_of_getElem? hlength, itemsBytes_cons, hbytes,
        List.append_assoc, ← hdrop, ← List.drop_drop (i := length.toNat), List.cons_append,
        List.cons_append, List.take_append_drop]
    · rw [hend, itemsBytes_cons, List.length_append, length_itemBytes, hlen]
      omega
    · rw [List.map_cons, List.nodup_cons]
      refine ⟨fun hin => ?_, hdistinct⟩
      obtain ⟨other, hother, heq⟩ := List.mem_map.mp hin
      apply hfresh other hother
      rw [heq, UInt8.ofNat_toNat]
      exact List.mem_append_right _ (List.mem_singleton_self _)
    · intro other hother
      rcases List.mem_cons.mp hother with rfl | hother
      · rw [UInt8.ofNat_toNat]
        exact hnew
      · exact fun hin => hfresh other hother (List.mem_append_left _ hin)

/-- Items that lie in the buffer with a zero behind them are gone through. -/
theorem items_walk (items : List Item) {rest : List UInt8}
    (hbuffer : buffer.drop off = itemsBytes items ++ 0 :: rest)
    (hdistinct : (items.map (·.type)).Nodup)
    (hfresh : ∀ item ∈ items, UInt8.ofNat item.type ∉ seen) :
    Items buffer off seen (some (off + (itemsBytes items).length)) := by
  induction items generalizing off seen with
  | nil =>
    have hzero := congrArg (·[0]?) hbuffer
    rw [List.getElem?_drop] at hzero
    exact .zero hzero
  | cons item items ih =>
    rw [itemsBytes_cons, List.append_assoc] at hbuffer
    have hdata := toNat_length item
    have hlen := congrArg List.length hbuffer
    rw [List.length_drop, List.length_append, length_itemBytes, List.length_append] at hlen
    have htype := congrArg (·[0]?) hbuffer
    have hlength := congrArg (·[1]?) hbuffer
    rw [List.getElem?_drop] at htype hlength
    rw [List.map_cons, List.nodup_cons] at hdistinct
    rw [itemsBytes_cons, List.length_append, length_itemBytes, ← Nat.add_assoc, ← Nat.add_assoc]
    have hnext := drop_add _ hbuffer
    rw [length_itemBytes, ← Nat.add_assoc] at hnext
    refine .item htype (type_ne_zero item) hlength (hfresh item List.mem_cons_self) ?_ ?_
    · rw [hdata]
      omega
    · rw [hdata]
      refine ih hnext hdistinct.2 fun other hother hin => ?_
      rcases List.mem_append.mp hin with hin | hin
      · exact hfresh other (List.mem_cons_of_mem _ hother) hin
      · have hle := item.type_le
        have hle' := other.type_le
        have heq := congrArg UInt8.toNat (List.mem_singleton.mp hin)
        rw [UInt8.toNat_ofNat', UInt8.toNat_ofNat'] at heq
        refine hdistinct.1 (List.mem_map.mpr ⟨other, hother, ?_⟩)
        omega

/-! ## Entries as they lie in the buffer -/

theorem Layout.aligned (h : Layout buffer es off) : off % 4 = 0 := by
  induction h with
  | start => rfl
  | @next es off e rest hprev hentry ih =>
    have := e.size_bounds
    omega

/-- The entry that the walk goes through. -/
theorem entry_content (hoff : off % 4 = 0) (hid : off + 4 ≤ buffer.length)
    (hitems : Items buffer (off + 4) [] (some last)) :
    ∃ (e : Entry) (rest : List UInt8),
      buffer.drop off = bytes 4 e.id.toNat ++ (itemsBytes e.items ++ 0 :: rest) ∧
      last = off + 4 + (itemsBytes e.items).length ∧ entryEnd last = off + e.size := by
  obtain ⟨items, rest, hdrop, hlast, hdistinct, -⟩ := items_content hitems last rfl
  obtain ⟨id, hlt, hbytes⟩ := exists_bytes (k := 4) (buffer.drop off) (by
    rw [List.length_drop]
    omega)
  have hval : (UInt32.ofNat id).toNat = id := by
    rw [UInt32.toNat_ofNat']
    exact Nat.mod_eq_of_lt hlt
  refine ⟨⟨UInt32.ofNat id, items, hdistinct⟩, rest, ?_, hlast, ?_⟩
  · rw [hval, ← hdrop, ← List.drop_drop]
    exact hbytes
  · rw [entryEnd, hlast]
    exact SdesRoundTrip.aligned ⟨UInt32.ofNat id, items, hdistinct⟩ hoff

theorem exists_layout (h : Entries buffer n off) : ∃ es, es.length = n ∧ Layout buffer es off := by
  induction h with
  | start => exact ⟨[], rfl, .start⟩
  | next hprev hid hitems ih =>
    obtain ⟨es, hlen, hlayout⟩ := ih
    obtain ⟨e, rest, hentry, -, hend⟩ := entry_content hlayout.aligned hid hitems
    rw [hend]
    exact ⟨es ++ [e], by rw [List.length_append, hlen]; rfl, hlayout.next hentry⟩

/-! ## What the parser reads -/

/-- One pass reads an entry, whatever fills it up. -/
theorem parseEntry_layout (hfuel : 256 ≤ fuel) (hoff : off % 4 = 0) {rest : List UInt8}
    (hentry : buffer.drop off = bytes 4 e.id.toNat ++ (itemsBytes e.items ++ 0 :: rest))
    {i : Nat} {srcs : List SdesEntry} (hi : i < srcs.length) :
    ∃ source, HoldsEntry source e ∧
      parseEntry fuel buffer i (off, srcs) = .ok (.next (off + e.size, srcs.set i source)) := by
  have hmax := e.length_items_le
  have hitems := drop_add _ hentry
  rw [length_bytes] at hitems
  have hstart : HoldsEntry ⟨e.id, 0, .null⟩ (SdesRoundTrip.take e 0) :=
    ⟨rfl, rfl, [], fun hne => absurd rfl hne, .nil⟩
  obtain ⟨source, hloop, hholds⟩ :=
    parseItems_ok e.items.length 0 (Nat.zero_add _) (show _ < fuel by omega) hstart hitems
  rw [List.drop_zero, SdesRoundTrip.aligned e hoff] at hloop
  refine ⟨source, hholds, ?_⟩
  rw [parseEntry, bind_of_ok (readU32_drop _ hentry), bind_of_ok hloop]
  dsimp only
  rw [bind_of_ok (store_of_lt _ hi)]

theorem Layout.passes (hfuel : 256 ≤ fuel) {count : Nat} (h : Layout buffer es off)
    (hn : es.length ≤ count) :
    ∃ done, List.Forall₂ HoldsEntry done es ∧
      SdesWalk.passes fuel count buffer es.length
        = .ok (.next (off, done ++ List.replicate (count - es.length) ⟨0, 0, .null⟩)) := by
  induction h with
  | start => exact ⟨[], .nil, rfl⟩
  | @next es off e rest hprev hentry ih =>
    rw [List.length_append, List.length_singleton] at hn ⊢
    obtain ⟨done, hdone, hrun⟩ := ih (by omega)
    have hlen := hdone.length_eq
    let empty : SdesEntry := ⟨0, 0, .null⟩
    have hroom : es.length < (done ++ List.replicate (count - es.length) empty).length := by
      rw [List.length_append, List.length_replicate]
      omega
    obtain ⟨source, hholds, hpass⟩ := parseEntry_layout hfuel hprev.aligned hentry hroom
    have hstore : store (done ++ List.replicate (count - es.length) empty) es.length source = _ :=
      store_filling source hlen (by omega)
    rw [store_of_lt _ hroom] at hstore
    refine ⟨done ++ [source], List.rel_append hdone (.cons hholds .nil), ?_⟩
    rw [SdesWalk.passes, forLeave_next hrun, hpass, Except.ok.inj hstore]

/-- A packet of the right type is read, if its entries lie in the buffer. -/
theorem rtcpSdesParse_layout (hfuel : 256 ≤ fuel) (hrefused : ¬ Refused RTCP_SDES buffer)
    (h : Layout buffer es off) (hcount : es.length = countOf buffer) :
    ∃ packet c, rtcpSdesParse fuel rtcpSdesCreate buffer buffer.length = .ok (RTCP_OK, packet) ∧
      Holds packet c ∧ c.entries = es ∧ buffer = headerBytes c.header ++ buffer.drop 4 := by
  have hlen : 4 ≤ buffer.length := by
    rw [Refused] at hrefused
    omega
  obtain ⟨header, hbuffer, hversion, hpt, hcount', -, hparse⟩ := rtcpHeaderParse_accepted hrefused
  have hmax := header.count.isLt
  let c : Content := ⟨header.p, header.length, es, by omega⟩
  have hheader : header = c.header := by
    have hc : BitVec.ofNat 5 es.length = header.count := by
      rw [hcount, ← hcount', BitVec.ofNat_toNat, BitVec.setWidth_eq]
    rw [Content.header, hc, ← hversion, ← hpt]
  rw [rtcpSdesParse, bind_of_ok (hparse _ _ hlen)]
  dsimp only
  rw [if_neg (not_not_intro rfl)]
  obtain ⟨done, hdone, hrun⟩ := h.passes hfuel (Nat.le_of_eq hcount)
  rw [hcount, Nat.sub_self, List.replicate_zero, List.append_nil] at hrun
  by_cases hzero : header.count = 0
  · have hnil : es = [] := by
      apply List.eq_nil_of_length_eq_zero
      rw [hcount, ← hcount', hzero]
      rfl
    rw [if_neg (not_not_intro hzero)]
    refine ⟨_, c, rfl, ⟨hheader, [], fun hne => absurd hnil hne, ?_⟩, rfl, hheader ▸ hbuffer⟩
    rw [show c.entries = [] from hnil]
    exact .nil
  · rw [if_pos hzero, hcount']
    change ∃ packet c',
      (SdesWalk.passes fuel (countOf buffer) buffer (countOf buffer) >>= _) = _ ∧ _
    rw [bind_of_ok hrun]
    exact ⟨_, c, rfl, ⟨hheader, done, fun _ => rfl, hdone⟩, rfl, hheader ▸ hbuffer⟩

/-- A packet that is read has the right type and its entries up to their last items. -/
theorem rtcpSdesParse_returns (hfuel : 256 ≤ fuel) {packet : RtcpSdes}
    (hrun : rtcpSdesParse fuel rtcpSdesCreate buffer buffer.length = .ok (RTCP_OK, packet)) :
    ¬ Refused RTCP_SDES buffer ∧ ∃ off, Entries buffer (countOf buffer) off := by
  by_cases hrefused : Refused RTCP_SDES buffer
  · obtain ⟨_, hrun'⟩ := rtcpSdesParse_refused fuel hrefused rtcpSdesCreate
    cases hrun'.symm.trans hrun
  · refine ⟨hrefused, ?_⟩
    rcases passes_outcome buffer hfuel (Nat.le_refl (countOf buffer)) with
      ⟨off, _, -, -, hentries⟩ | ⟨srcs, m, off, hloop, hm, -⟩ | hloop
    · exact ⟨off, hentries⟩
    all_goals
      rcases rtcpSdesParse_accepted fuel hrefused rtcpSdesCreate with ⟨hzero, -⟩ |
        ⟨-, header, hparse⟩
    · omega
    · rw [hparse, bind_of_ok hloop] at hrun
      cases hrun
    · rw [hzero] at hloop
      cases hloop
    · rw [hparse, hloop, error_bind] at hrun
      cases hrun

/-! ## Zeros behind the items -/

theorem drop_zeros {a b : Nat} (hle : a ≤ b) (hzero : ∀ i, a ≤ i → i < b → buffer[i]? = some 0) :
    buffer.drop a = List.replicate (b - a) 0 ++ buffer.drop b := by
  induction b, hle using Nat.le_induction with
  | base =>
    rw [Nat.sub_self]
    rfl
  | succ b hab ih =>
    rw [ih fun i hi hlt => hzero i hi (by omega), drop_of_getElem? (hzero b hab (by omega)),
      Nat.succ_sub hab, List.replicate_succ', List.append_assoc]
    rfl

/-- What is filled up with zeros has the bytes of its entries. -/
theorem ZeroFilled.content (h : ZeroFilled buffer n off) (hlen : 4 ≤ buffer.length) :
    ∃ es, es.length = n ∧ Layout buffer es off ∧ off ≤ buffer.length ∧
      off = 4 + (entriesBytes es).length ∧ buffer.drop 4 = entriesBytes es ++ buffer.drop off := by
  induction h with
  | start => exact ⟨[], rfl, .start, hlen, rfl, rfl⟩
  | @next n off last hprev hid hitems hfill ih =>
    obtain ⟨es, hcount, hlayout, -, hoff, hbytes⟩ := ih
    obtain ⟨e, rest, hentry, hlast, hend⟩ := entry_content hlayout.aligned hid hitems
    have hsize := e.size_bounds
    have hlt := (List.getElem?_eq_some_iff.mp
      (hfill (entryEnd last - 1) (by omega) (by omega))).1
    have hdrop : buffer.drop off = entryBytes e ++ buffer.drop (entryEnd last) := by
      have hzeros := drop_zeros (by omega) hfill
      have hbehind := drop_add _ (drop_add _ hentry)
      rw [length_bytes, ← hlast] at hbehind
      have hcount : entryEnd last - last = e.size - (4 + (itemsBytes e.items).length) := by omega
      rw [hentry, ← hbehind, hzeros, hcount, entryBytes, Entry.fill, List.append_assoc,
        List.append_assoc]
    refine ⟨es ++ [e], by rw [List.length_append, hcount]; rfl, ?_, by omega, ?_, ?_⟩
    · rw [hend]
      exact hlayout.next hentry
    · rw [hend, hoff, entriesBytes_concat, List.length_append, length_entryBytes, Nat.add_assoc]
    · rw [hbytes, hdrop, entriesBytes_concat, List.append_assoc]

/-- The bytes of entries are filled up with zeros. -/
theorem zeroFilled_of_bytes (es : List Entry) {rest : List UInt8}
    (hbuffer : buffer.drop 4 = entriesBytes es ++ rest) :
    ZeroFilled buffer es.length (4 + (entriesBytes es).length) := by
  induction es using List.reverseRecOn generalizing rest with
  | nil => exact .start
  | append_singleton es e ih =>
    rw [entriesBytes_concat, List.append_assoc] at hbuffer
    have haligned := entriesBytes_aligned es
    have hsize := e.size_bounds
    have hentry := drop_add _ hbuffer
    have hlen := congrArg List.length hentry
    rw [List.length_drop, List.length_append, length_entryBytes] at hlen
    generalize hoff : 4 + (entriesBytes es).length = off at ih hentry hlen
    obtain ⟨zs, hzs⟩ := fill_eq_cons e
    have hfront := hentry
    rw [entryBytes, List.append_assoc, List.append_assoc] at hfront
    have hitems := drop_add _ hfront
    have hbehind := drop_add _ hitems
    rw [length_bytes] at hitems hbehind
    rw [hzs, List.cons_append] at hitems
    have hwalk : Items buffer (off + 4) [] (some (off + 4 + (itemsBytes e.items).length)) :=
      items_walk e.items hitems e.distinct fun _ _ => List.not_mem_nil
    have hend : entryEnd (off + 4 + (itemsBytes e.items).length) = off + e.size :=
      SdesRoundTrip.aligned e (by omega)
    rw [List.length_append, List.length_singleton, entriesBytes_concat, List.length_append,
      length_entryBytes, ← Nat.add_assoc, hoff, ← hend]
    refine (ih hbuffer).next (by omega) hwalk fun i hle hlt => ?_
    obtain ⟨k, rfl⟩ := Nat.exists_eq_add_of_le hle
    rw [← List.getElem?_drop, hbehind, Entry.fill,
      List.getElem?_append_left (by rw [List.length_replicate]; omega), List.getElem?_replicate,
      if_pos (by omega)]

/-- A source description is written as it was read exactly if each of its entries is filled up with
zeros inside the buffer. -/
theorem rtcpSdes_relays_iff (buffer : List UInt8) (hfuel : 256 ≤ fuel)
    (hlt : buffer.length < 2 ^ 64) :
    Relays fuel buffer ↔
      ¬ Refused RTCP_SDES buffer ∧ ∃ off, ZeroFilled buffer (countOf buffer) off := by
  have hwritten {packet : RtcpSdes} {c : Content} (hholds : Holds packet c) :
      Writes (runOf fun out => rtcpSdesSerialize packet out out.length) c.encode := by
    intro out hroom hout
    rw [length_encode] at hroom ⊢
    exact rtcpSdesSerialize_ok hholds hroom hout hroom
  constructor
  · rintro ⟨packet, n, hparse, hsize, hle, hwrites⟩
    obtain ⟨hrefused, off, hentries⟩ := rtcpSdesParse_returns hfuel hparse
    obtain ⟨es, hcount, hlayout⟩ := exists_layout hentries
    obtain ⟨packet', c, hparse', hholds, hes, -⟩ :=
      rtcpSdesParse_layout hfuel hrefused hlayout hcount
    cases hparse'.symm.trans hparse
    cases (rtcpSdesSize_ok hholds).symm.trans hsize
    have hencode : buffer.take c.size = c.encode := by
      have hlen := length_encode c
      refine Writes.unique (x := 0) (fun _ _ _ h h' => ?_) hwrites (hwritten hholds) ?_ ?_
      · exact Except.ok.inj (h.symm.trans h')
      · rw [List.length_take]
        omega
      · omega
    have hbuffer : buffer = c.encode ++ buffer.drop c.size := by
      rw [← hencode, List.take_append_drop]
    have hdrop : buffer.drop 4 = entriesBytes es ++ buffer.drop c.size := by
      nth_rewrite 1 [hbuffer]
      rw [Content.encode, hes, List.append_assoc, List.drop_left' (length_headerBytes _)]
    rw [← hcount]
    exact ⟨hrefused, _, zeroFilled_of_bytes es hdrop⟩
  · rintro ⟨hrefused, off, hfilled⟩
    have hlen : 4 ≤ buffer.length := by
      rw [Refused] at hrefused
      omega
    obtain ⟨es, hcount, hlayout, hle, hoff, hbytes⟩ := hfilled.content hlen
    obtain ⟨packet, c, hparse, hholds, hes, hheader⟩ :=
      rtcpSdesParse_layout hfuel hrefused hlayout hcount
    have hsize : c.size = off := by
      rw [Content.size, hes, hoff]
    have hencode : c.encode = buffer.take c.size := by
      rw [hheader, hbytes, ← List.append_assoc, ← hes, ← Content.encode,
        List.take_left' (length_encode c)]
    refine ⟨packet, c.size, hparse, rtcpSdesSize_ok hholds, hsize ▸ hle, ?_⟩
    rw [← hencode]
    exact hwritten hholds

/-- One source with a name, filled up with zeros, and a byte behind them. -/
def nameThenByte : List UInt8 := [0x81, 202, 0, 3, 0, 0, 0, 7, 1, 2, 97, 98, 0, 0, 0, 0, 9]

theorem rtcpSdes_relays_iff_nameThenByte : Relays 256 nameThenByte := by
  refine (rtcpSdes_relays_iff _ (Nat.le_refl _) (by decide)).mpr ⟨by decide, 16, ?_⟩
  have hname : nameThenByte[8]? = some 1 := rfl
  have hlength : nameThenByte[9]? = some 2 := rfl
  have hitems : Items nameThenByte 8 [] (some 12) :=
    .item hname (by decide) hlength List.not_mem_nil (by decide) (.zero rfl)
  refine .next .start (by decide) hitems fun i hle hlt => ?_
  have hlt : i < 16 := hlt
  obtain rfl | rfl | rfl | rfl : i = 12 ∨ i = 13 ∨ i = 14 ∨ i = 15 := by omega
  all_goals rfl

end RtpSdr.Rtp.SdesRelay
