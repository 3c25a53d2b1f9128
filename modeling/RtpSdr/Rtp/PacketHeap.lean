import Mathlib.Algebra.Order.BigOperators.Group.List
import RtpSdr.Lib.Ownership
import RtpSdr.Rtp.HeaderEdit
import RtpSdr.Rtp.Packet

/-!
# The blocks of RTP packets

Packets are created, changed and freed in any order, while the rest of the program allocates and
frees blocks of its own. A packet has up to five blocks: its structure, the header, and the two
lists and the payload that they point to.
-/
namespace RtpSdr.Rtp.PacketHeap

open RtpSdr.Lib.Checked
open RtpSdr.Lib.Handles
open RtpSdr.Lib.Memory
open RtpSdr.Lib.Ownership
open RtpSdr.Rtp.Header
open RtpSdr.Rtp.HeaderEdit
open RtpSdr.Rtp.Packet
open RtpSdr.Rtp.Util
open RtpSdr.Rtp.EntryList

/-- The pointer to a packet, and those in it. -/
inductive Slot where
  | packet
  | header
  | csrc
  | ext
  | payload
deriving DecidableEq, Repr

/-- A call on a packet that exists. `behind` are the words that a removal may read behind the
array. -/
inductive Call where
  | init (pt : UInt8) (ssrc : UInt32) (seq : UInt16) (ts : UInt32)
  | parse (buffer : List UInt8)
  | addCsrc (csrc : UInt32)
  | removeCsrc (csrc : UInt32) (behind : List UInt32)
  | setExt (id : UInt16) (data : List UInt32) (count : UInt16)
  | clearExt
  | setPayload (data : List UInt8)
  | clearPayload

section Source

/-- The result, 0 where the function has none, and the packet afterwards. -/
def call (packet : RtpPacket) : Call → Exec (Int × RtpPacket)
  | .init pt ssrc seq ts =>
    .ok (0, { packet with header := rtpHeaderInit packet.header pt ssrc seq ts })
  | .parse buffer => rtpPacketParse packet buffer buffer.length
  | .addCsrc csrc => do
    let (r, header) ← rtpHeaderAddCsrc packet.header csrc
    .ok (r, { packet with header := header })
  | .removeCsrc csrc behind => do
    let header ← rtpHeaderRemoveCsrc packet.header csrc behind
    .ok (0, { packet with header := header })
  | .setExt id data count => do
    let (r, header) ← rtpHeaderSetExt packet.header id data count
    .ok (r, { packet with header := header })
  | .clearExt => do
    let header ← rtpHeaderClearExt packet.header
    .ok (0, { packet with header := header })
  | .setPayload data => rtpPacketSetPayload packet data 0 data.length
  | .clearPayload => .ok (0, rtpPacketClearPayload packet)

/-- What the call does with blocks, from the packet before it, its result and the packet after. -/
def commands (i : Nat) (before : RtpPacket) (result : Int × RtpPacket) :
    Call → List (Command (Nat × Slot))
  | .init _ _ _ _ => []
  | .parse _ =>
    if result.1 < 0 then []
    else
      (if result.2.header.cc = 0 then [] else [.malloc (i, .csrc)])
        ++ (if result.2.header.x = 0 then [] else [.malloc (i, .ext)])
        -- `rtp_packet_set_payload` keeps a payload that is there
        ++ (if before.payloadData.isSet then [] else [.malloc (i, .payload)])
  | .addCsrc _ =>
    if result.1 < 0 then []
    else if before.header.cc = 0 then [.malloc (i, .csrc)]
    else [.realloc (i, .csrc)]
  | .removeCsrc _ _ =>
    -- the count stays as it is where the source is not found
    if result.2.header.cc = before.header.cc then []
    else if result.2.header.cc > 0 then [.realloc (i, .csrc)]
    else [.free (i, .csrc), .null (i, .csrc)]
  | .setExt _ _ _ => if result.1 < 0 then [] else [.malloc (i, .ext)]
  | .clearExt => if before.header.extData.isSet then [.free (i, .ext)] else []
  | .setPayload _ => if result.1 < 0 then [] else [.malloc (i, .payload)]
  | .clearPayload =>
    if before.payloadData.isSet then [.free (i, .payload), .null (i, .payload)] else []

/-- `rtp_packet_create`: both structures are cleared. -/
def createCommands (i : Nat) : List (Command (Nat × Slot)) :=
  [.malloc (i, .packet), .null (i, .header), .null (i, .payload),
    .malloc (i, .header), .null (i, .csrc), .null (i, .ext)]

/-- `rtp_header_free` in `rtp_packet_free`; a null pointer is not freed. -/
def freeCommands (i : Nat) : List (Command (Nat × Slot)) :=
  [.free (i, .csrc), .free (i, .ext), .free (i, .header), .free (i, .payload), .free (i, .packet)]

end Source

/-! ## Runs -/

structure Process where
  heap : Heap (Nat × Slot)
  packets : Nat → Option RtpPacket

inductive Op where
  | create (i : Nat)
  | free (i : Nat)
  | on (i : Nat) (c : Call)
  | otherMalloc
  | otherFree (a : Nat)

def Process.run (alloc : Allocator) (s : Process) (i : Nat) (packet : Option RtpPacket)
    (cs : List (Command (Nat × Slot))) : Process where
  heap := cs.foldl (exec alloc) s.heap
  packets := Function.update s.packets i packet

/-- A packet is created under a number that is free, and used and freed while it exists. -/
def perform (alloc : Allocator) (s : Process) : Op → Exec Process
  | .create i =>
    match s.packets i with
    | some _ => .ok s
    | none => .ok (s.run alloc i (some rtpPacketCreate) (createCommands i))
  | .free i =>
    match s.packets i with
    | some _ => .ok (s.run alloc i none (freeCommands i))
    | none => .ok s
  | .on i c =>
    match s.packets i with
    | some packet => do
      let result ← call packet c
      .ok (s.run alloc i (some result.2) (commands i packet result c))
    | none => .ok s
  | .otherMalloc => .ok { s with heap := exec alloc s.heap .take }
  | .otherFree a => .ok { s with heap := exec alloc s.heap (.give a) }

/-- Some blocks are in use, and there is no packet. -/
def started (others : List Nat) : Process where
  heap := ⟨⟨others.map fun a => (a, none), [], 0⟩, fun _ => 0, 0⟩
  packets := fun _ => none

/-! ### What the packets alone tell -/

def status {α : Type} : Ptr α → Status
  | .null => .null
  | .obj _ => .held
  | .freed => .dangling

/-- The packets after an operation. -/
def next (packets : Nat → Option RtpPacket) : Op → Nat → Option RtpPacket
  | .create i =>
    match packets i with
    | some _ => packets
    | none => Function.update packets i (some rtpPacketCreate)
  | .free i =>
    match packets i with
    | some _ => Function.update packets i none
    | none => packets
  | .on i c =>
    match packets i with
    | some packet =>
      match call packet c with
      | .ok result => Function.update packets i (some result.2)
      | .error _ => packets
    | none => packets
  | .otherMalloc => packets
  | .otherFree _ => packets

/-- A list that is parsed or begun finds no other in its place. -/
def Keeps (before : RtpPacket) (result : Int × RtpPacket) : Call → Prop
  | .parse _ => 0 ≤ result.1 →
    (result.2.header.cc ≠ 0 → status before.header.csrc ≠ .held) ∧
      (result.2.header.x ≠ 0 → status before.header.extData ≠ .held)
  | .addCsrc _ => before.header.cc = 0 → status before.header.csrc ≠ .held
  | _ => True

/-- A call stays inside the packet's objects, or reads the word that is there behind the list it
removes from, and loses none of them; and a packet is freed unless its extension was. -/
def Allowed (packets : Nat → Option RtpPacket) : Op → Prop
  | .create _ => True
  | .free i => ∀ packet, packets i = some packet → status packet.header.extData ≠ .dangling
  | .on i c => ∀ packet, packets i = some packet →
    ∃ result, call packet c = .ok result ∧ Keeps packet result c
  | .otherMalloc => True
  | .otherFree _ => True

/-! ### The pointers of one packet -/

/-- The state of each pointer of a packet that exists. -/
def slots (packet : RtpPacket) : Slot → Status
  | .packet => .held
  | .header => .held
  | .csrc => status packet.header.csrc
  | .ext => status packet.header.extData
  | .payload => status packet.payloadData

/-- Only clearing an extension leaves a pointer to what was freed. -/
def Live (packet : RtpPacket) : Prop :=
  status packet.header.csrc ≠ .dangling ∧ status packet.payloadData ≠ .dangling

/-- The pointers of the packet with the number `i`. -/
def view (st : Nat × Slot → Status) (i : Nat) (slot : Slot) : Status := st (i, slot)

variable {header header' : RtpHeader} {packet : RtpPacket} {result : Int × RtpPacket}
  {buffer : List UInt8} {size : Nat} {r : Int}

theorem isSet_iff {α : Type} (p : Ptr α) : p.isSet = true ↔ status p ≠ .null := by
  cases p with
  | null => exact iff_of_false Bool.noConfusion fun h => h rfl
  | obj a => exact iff_of_true rfl Status.noConfusion
  | freed => exact iff_of_true rfl Status.noConfusion

theorem parseCsrc_status (h : parseCsrc header buffer = .ok header') :
    header'.cc = header.cc ∧ header'.x = header.x ∧ header'.extData = header.extData ∧
      status header'.csrc = if header.cc = 0 then status header.csrc else .held := by
  rw [parseCsrc] at h
  by_cases hcc : header.cc = 0
  · rw [if_neg (not_not.mpr hcc)] at h
    cases h
    exact ⟨rfl, rfl, rfl, (if_pos hcc).symm⟩
  · rw [if_pos hcc] at h
    obtain ⟨csrc, -, hrest⟩ := bind_eq_ok.mp h
    cases hrest
    exact ⟨rfl, rfl, rfl, (if_neg hcc).symm⟩

theorem parseExt_status (h : parseExt header buffer = .ok header') :
    header'.cc = header.cc ∧ header'.x = header.x ∧ header'.csrc = header.csrc ∧
      status header'.extData = if header.x = 0 then status header.extData else .held := by
  rw [parseExt] at h
  by_cases hx : header.x = 0
  · rw [if_neg (not_not.mpr hx)] at h
    cases h
    exact ⟨rfl, rfl, rfl, (if_pos hx).symm⟩
  · rw [if_pos hx] at h
    obtain ⟨extId, -, h⟩ := bind_eq_ok.mp h
    obtain ⟨extCount, -, h⟩ := bind_eq_ok.mp h
    obtain ⟨extData, -, h⟩ := bind_eq_ok.mp h
    cases h
    exact ⟨rfl, rfl, rfl, (if_neg hx).symm⟩

/-- The lists are read where nothing is left to be refused. -/
theorem rtpHeaderParse_status (h : rtpHeaderParse header buffer size = .ok (r, header')) :
    r = RTP_ERROR ∧ header'.csrc = header.csrc ∧ header'.extData = header.extData ∨
    r = RTP_OK ∧
      status header'.csrc = (if header'.cc = 0 then status header.csrc else .held) ∧
      status header'.extData = (if header'.x = 0 then status header.extData else .held) := by
  rw [rtpHeaderParse] at h
  split at h
  · cases h
    exact .inl ⟨rfl, rfl, rfl⟩
  obtain ⟨b0, -, h⟩ := bind_eq_ok.mp h
  dsimp only at h
  split at h
  · cases h
    exact .inl ⟨rfl, rfl, rfl⟩
  obtain ⟨b1, -, h⟩ := bind_eq_ok.mp h
  split at h
  · cases h
    exact .inl ⟨rfl, rfl, rfl⟩
  obtain ⟨seq, -, h⟩ := bind_eq_ok.mp h
  obtain ⟨ts, -, h⟩ := bind_eq_ok.mp h
  obtain ⟨ssrc, -, h⟩ := bind_eq_ok.mp h
  split at h
  · cases h
    exact .inl ⟨rfl, rfl, rfl⟩
  obtain ⟨middle, hcsrc, h⟩ := bind_eq_ok.mp h
  obtain ⟨last, hext, h⟩ := bind_eq_ok.mp h
  cases h
  obtain ⟨hcc, hx, hsame, hstatus⟩ := parseCsrc_status hcsrc
  obtain ⟨hcc', hx', hsame', hstatus'⟩ := parseExt_status hext
  refine .inr ⟨rfl, ?_, ?_⟩
  · rw [hsame', hstatus, hcc', hcc]
  · rw [hstatus', hx', hx, hsame]

/-! ### What a call does to them -/

variable {st : Nat × Slot → Status} {i j : Nat} {slot : Slot} {v : Status}

theorem view_update : view (Function.update st (i, slot) v) i
    = Function.update (view st i) slot v := by
  funext other
  simp only [view, Function.update_apply, Prod.mk.injEq, true_and]

/-- The commands of a call are what it is allowed to do exactly if it keeps the lists, and leave
the pointers as the packet afterwards has them. -/
structure Matches (st : Nat × Slot → Status) (i : Nat) (before : RtpPacket)
    (result : Int × RtpPacket) (c : Call) : Prop where
  fine : Along after Fine st (commands i before result c) ↔ Keeps before result c
  view : view ((commands i before result c).foldl after st) i = slots result.2
  live : Live result.2

variable {packet' : RtpPacket} {c : Call}

theorem Matches.of_commands {l : List (Command (Nat × Slot))}
    (hcommands : commands i packet result c = l)
    (hfine : Along after Fine st l ↔ Keeps packet result c)
    (hview : PacketHeap.view (l.foldl after st) i = slots result.2) (hlive : Live result.2) :
    Matches st i packet result c := by
  rw [← hcommands] at hfine hview
  exact ⟨hfine, hview, hlive⟩

/-- The pointers after one of them has changed. -/
theorem view_csrc (hst : view st i = slots packet) (hv : v = status packet'.header.csrc)
    (hext : packet'.header.extData = packet.header.extData)
    (hpayload : packet'.payloadData = packet.payloadData) :
    view (Function.update st (i, .csrc) v) i = slots packet' := by
  rw [view_update, hst, hv]
  funext slot
  cases slot <;> simp [slots, hext, hpayload]

theorem view_ext (hst : view st i = slots packet) (hv : v = status packet'.header.extData)
    (hcsrc : packet'.header.csrc = packet.header.csrc)
    (hpayload : packet'.payloadData = packet.payloadData) :
    view (Function.update st (i, .ext) v) i = slots packet' := by
  rw [view_update, hst, hv]
  funext slot
  cases slot <;> simp [slots, hcsrc, hpayload]

theorem view_payload (hst : view st i = slots packet) (hv : v = status packet'.payloadData)
    (hheader : packet'.header = packet.header) :
    view (Function.update st (i, .payload) v) i = slots packet' := by
  rw [view_update, hst, hv]
  funext slot
  cases slot <;> simp [slots, hheader]

theorem addCsrc_matches (hst : view st i = slots packet) (hlive : Live packet) (csrc : UInt32)
    (hcall : call packet (.addCsrc csrc) = .ok result) :
    Matches st i packet result (.addCsrc csrc) := by
  have hcsrc : st (i, .csrc) = status packet.header.csrc := congrFun hst .csrc
  obtain ⟨⟨r, header'⟩, hadd, heq⟩ := bind_eq_ok.mp hcall
  cases heq
  obtain ⟨added, hentry, hadd⟩ := bind_eq_ok.mp hadd
  cases added with
  | none =>
    cases hadd
    refine ⟨iff_of_true trivial fun hzero => ?_, hst, hlive⟩
    -- the first source is never refused
    rw [addEntry, if_pos hzero] at hentry
    obtain ⟨xs, -, hsome⟩ := bind_eq_ok.mp hentry
    cases hsome
  | some entry =>
    cases hadd
    by_cases hzero : packet.header.cc = 0
    · refine .of_commands (l := [.malloc (i, .csrc)]) (if_pos hzero) ?_ (view_csrc hst rfl rfl rfl)
        ⟨Status.noConfusion, hlive.2⟩
      change st (i, .csrc) ≠ .held ∧ True ↔ (packet.header.cc = 0 → _)
      rw [hcsrc, and_true]
      exact ⟨fun h _ => h, fun h => h hzero⟩
    · have hfine : st (i, .csrc) ≠ .dangling := ne_of_eq_of_ne hcsrc hlive.1
      exact .of_commands (l := [.realloc (i, .csrc)]) (if_neg hzero)
        (iff_of_true ⟨hfine, trivial⟩ fun h => absurd h hzero) (view_csrc hst rfl rfl rfl)
        ⟨Status.noConfusion, hlive.2⟩

theorem removeCsrc_matches (hst : view st i = slots packet) (hlive : Live packet) (csrc : UInt32)
    (behind : List UInt32) (hcall : call packet (.removeCsrc csrc behind) = .ok result) :
    Matches st i packet result (.removeCsrc csrc behind) := by
  have hcsrc : st (i, .csrc) = status packet.header.csrc := congrFun hst .csrc
  obtain ⟨header', hremove, heq⟩ := bind_eq_ok.mp hcall
  cases heq
  obtain ⟨found, -, hremove⟩ := bind_eq_ok.mp hremove
  cases found with
  | none =>
    cases hremove
    exact .of_commands (l := []) (if_pos rfl) (iff_of_true trivial trivial) hst hlive
  | some index =>
    obtain ⟨⟨cc, list⟩, hentry, heq⟩ := bind_eq_ok.mp hremove
    cases heq
    obtain ⟨xs, hderef, hentry⟩ := bind_eq_ok.mp hentry
    obtain ⟨moved, -, hentry⟩ := bind_eq_ok.mp hentry
    rw [Ptr.deref_eq_ok hderef] at hcsrc
    have hne : packet.header.cc - 1 ≠ packet.header.cc := by bv_omega
    rw [shrink] at hentry
    split at hentry
    next hpos =>
      cases hentry
      have hfine : st (i, .csrc) ≠ .dangling := ne_of_eq_of_ne hcsrc Status.noConfusion
      exact .of_commands (l := [.realloc (i, .csrc)]) ((if_neg hne).trans (if_pos hpos))
        (iff_of_true ⟨hfine, trivial⟩ trivial) (view_csrc hst rfl rfl rfl)
        ⟨Status.noConfusion, hlive.2⟩
    next hpos =>
      cases hentry
      refine .of_commands (l := [.free (i, .csrc), .null (i, .csrc)])
        ((if_neg hne).trans (if_neg hpos)) (iff_of_true (along_free_null hcsrc) trivial) ?_
        ⟨Status.noConfusion, hlive.2⟩
      rw [run_free_null hcsrc]
      exact view_csrc hst rfl rfl rfl

theorem setExt_matches (hst : view st i = slots packet) (hlive : Live packet) (id : UInt16)
    (data : List UInt32) (count : UInt16)
    (hcall : call packet (.setExt id data count) = .ok result) :
    Matches st i packet result (.setExt id data count) := by
  have hext : st (i, .ext) = status packet.header.extData := congrFun hst .ext
  obtain ⟨⟨r, header'⟩, hset, heq⟩ := bind_eq_ok.mp hcall
  cases heq
  rw [rtpHeaderSetExt] at hset
  split at hset
  next =>
    cases hset
    exact ⟨iff_of_true trivial trivial, hst, hlive⟩
  next hnot =>
    obtain ⟨words, -, hset⟩ := bind_eq_ok.mp hset
    cases hset
    rw [isSet_iff, not_not] at hnot
    have hfine : st (i, .ext) ≠ .held := by
      rw [hext, hnot]
      exact Status.noConfusion
    exact ⟨iff_of_true ⟨hfine, trivial⟩ trivial, view_ext hst rfl rfl rfl, hlive⟩

theorem clearExt_matches (hst : view st i = slots packet) (hlive : Live packet)
    (hcall : call packet .clearExt = .ok result) : Matches st i packet result .clearExt := by
  have hext : st (i, .ext) = status packet.header.extData := congrFun hst .ext
  obtain ⟨header', hclear, heq⟩ := bind_eq_ok.mp hcall
  cases heq
  rw [rtpHeaderClearExt] at hclear
  split at hclear
  next hset =>
    obtain ⟨extData, hfree, hclear⟩ := bind_eq_ok.mp hclear
    cases hclear
    cases hdata : packet.header.extData with
    | null =>
      rw [hdata] at hset
      cases hset
    | freed =>
      rw [hdata] at hfree
      cases hfree
    | obj words =>
      rw [hdata] at hfree hext
      cases hfree
      have hfine : st (i, .ext) ≠ .dangling := ne_of_eq_of_ne hext Status.noConfusion
      refine .of_commands (l := [.free (i, .ext)]) (if_pos hset)
        (iff_of_true ⟨hfine, trivial⟩ trivial) ?_ hlive
      rw [List.foldl_cons, after_free hext]
      exact view_ext hst rfl rfl rfl
  next hnot =>
    cases hclear
    exact .of_commands (l := []) (if_neg hnot) (iff_of_true trivial trivial) hst hlive

theorem setPayload_matches (hst : view st i = slots packet) (hlive : Live packet)
    (data : List UInt8) (hcall : call packet (.setPayload data) = .ok result) :
    Matches st i packet result (.setPayload data) := by
  have hpayload : st (i, .payload) = status packet.payloadData := congrFun hst .payload
  rw [call, rtpPacketSetPayload] at hcall
  split at hcall
  next =>
    cases hcall
    exact ⟨iff_of_true trivial trivial, hst, hlive⟩
  next hnot =>
    obtain ⟨bytes, -, hcall⟩ := bind_eq_ok.mp hcall
    cases hcall
    rw [isSet_iff, not_not] at hnot
    have hfine : st (i, .payload) ≠ .held := by
      rw [hpayload, hnot]
      exact Status.noConfusion
    exact ⟨iff_of_true ⟨hfine, trivial⟩ trivial, view_payload hst rfl rfl,
      ⟨hlive.1, Status.noConfusion⟩⟩

theorem clearPayload_matches (hst : view st i = slots packet) (hlive : Live packet)
    (hcall : call packet .clearPayload = .ok result) :
    Matches st i packet result .clearPayload := by
  have hpayload : st (i, .payload) = status packet.payloadData := congrFun hst .payload
  cases hcall
  by_cases hset : packet.payloadData.isSet = true
  · have hheld : st (i, .payload) = .held := by
      rw [isSet_iff, ← hpayload] at hset
      have hlast := hpayload ▸ hlive.2
      cases hstatus : st (i, .payload) with
      | null => exact absurd hstatus hset
      | held => rfl
      | dangling => exact absurd hstatus hlast
    rw [rtpPacketClearPayload, if_pos hset]
    refine .of_commands (l := [.free (i, .payload), .null (i, .payload)]) (if_pos hset)
      (iff_of_true (along_free_null hheld) trivial) ?_ ⟨hlive.1, Status.noConfusion⟩
    rw [run_free_null hheld]
    exact view_payload hst rfl rfl
  · rw [rtpPacketClearPayload, if_neg hset]
    exact .of_commands (l := []) (if_neg hset) (iff_of_true trivial trivial) hst hlive

theorem rtpPacketSetPayload_status {data : List UInt8} {off : Nat}
    (h : rtpPacketSetPayload packet data off size = .ok (r, packet')) :
    packet'.header = packet.header ∧ status packet'.payloadData
      = if packet.payloadData.isSet = true then status packet.payloadData else .held := by
  rw [rtpPacketSetPayload] at h
  split at h
  next hset =>
    cases h
    exact ⟨rfl, (if_pos hset).symm⟩
  next hnot =>
    obtain ⟨bytes, -, h⟩ := bind_eq_ok.mp h
    cases h
    exact ⟨rfl, (if_neg hnot).symm⟩

section Unless

variable {P : Prop} [Decidable P]

theorem along_unless : Along after Fine st (if P then [] else [.malloc (i, slot)])
    ↔ (¬ P → st (i, slot) ≠ .held) := by
  split
  next h => exact iff_of_true trivial fun hnot => absurd h hnot
  next h => exact ⟨fun halong _ => halong.1, fun hne => ⟨hne h, trivial⟩⟩

theorem view_unless :
    view ((if P then [] else [Command.malloc (i, slot)]).foldl after st) i
      = Function.update (view st i) slot (if P then view st i slot else .held) := by
  split
  · exact (Function.update_eq_self slot (view st i)).symm
  · exact view_update

end Unless

theorem parse_refused (h : result.1 < 0) : commands i packet result (.parse buffer) = [] :=
  if_pos h

theorem parse_accepted (h : ¬ result.1 < 0) : commands i packet result (.parse buffer)
    = (if result.2.header.cc = 0 then [] else [.malloc (i, .csrc)])
      ++ (if result.2.header.x = 0 then [] else [.malloc (i, .ext)])
      ++ (if packet.payloadData.isSet then [] else [.malloc (i, .payload)]) := if_neg h

theorem parse_matches (hst : view st i = slots packet) (hlive : Live packet)
    (buffer : List UInt8) (hcall : call packet (.parse buffer) = .ok result) :
    Matches st i packet result (.parse buffer) := by
  obtain ⟨⟨r, header'⟩, hparse, hcall⟩ := bind_eq_ok.mp hcall
  rcases rtpHeaderParse_status hparse with ⟨rfl, hcsrc, hext⟩ | ⟨rfl, hcsrc, hext⟩
  · have hneg : RTP_ERROR < 0 := by decide
    dsimp only at hcall
    rw [if_pos hneg] at hcall
    cases hcall
    refine .of_commands (parse_refused hneg)
      (iff_of_true trivial fun hnonneg => absurd hneg (Int.not_lt.mpr hnonneg)) ?_
      ⟨hcsrc ▸ hlive.1, hlive.2⟩
    rw [List.foldl_nil, hst]
    funext slot
    cases slot <;> simp [slots, hcsrc, hext]
  · have hnonneg : ¬ RTP_OK < 0 := by decide
    dsimp only at hcall
    rw [if_neg hnonneg] at hcall
    obtain ⟨⟨r', packet'⟩, hset, heq⟩ := bind_eq_ok.mp hcall
    cases heq
    obtain ⟨hheader, hpayload⟩ := rtpPacketSetPayload_status hset
    refine .of_commands (parse_accepted hnonneg) ?_ ?_ ?_
    · rw [along_append, along_append, along_unless, along_unless, along_unless]
      change ((_ → view _ i .csrc ≠ _) ∧ (_ → view _ i .ext ≠ _)) ∧
        (_ → view _ i .payload ≠ _) ↔ _
      rw [List.foldl_append, view_unless, view_unless, hst, Function.update_of_ne (by decide),
        Function.update_of_ne (by decide), view_unless, Function.update_of_ne (by decide), hst]
      refine ⟨fun h _ => h.1, fun h => ⟨h (Int.not_lt.mp hnonneg), fun hnot => ?_⟩⟩
      -- a payload is only allocated where there is none
      rw [isSet_iff, not_not] at hnot
      change status packet.payloadData ≠ .held
      rw [hnot]
      exact Status.noConfusion
    · rw [List.foldl_append, List.foldl_append, view_unless, view_unless, view_unless, hst]
      funext slot
      cases slot <;> simp [slots, hheader, hcsrc, hext, hpayload]
    · refine ⟨?_, ?_⟩
      · rw [hheader, hcsrc]
        split
        · exact hlive.1
        · exact Status.noConfusion
      · rw [hpayload]
        split
        · exact hlive.2
        · exact Status.noConfusion

/-- Each call on a packet. -/
theorem call_matches (hst : view st i = slots packet) (hlive : Live packet)
    (hcall : call packet c = .ok result) : Matches st i packet result c := by
  cases c with
  | init pt ssrc seq ts =>
    cases hcall
    exact ⟨Iff.rfl, hst.trans (funext fun slot => by cases slot <;> rfl), hlive⟩
  | parse buffer => exact parse_matches hst hlive buffer hcall
  | addCsrc csrc => exact addCsrc_matches hst hlive csrc hcall
  | removeCsrc csrc behind => exact removeCsrc_matches hst hlive csrc behind hcall
  | setExt id data count => exact setExt_matches hst hlive id data count hcall
  | clearExt => exact clearExt_matches hst hlive hcall
  | setPayload data => exact setPayload_matches hst hlive data hcall
  | clearPayload => exact clearPayload_matches hst hlive hcall

/-- A new packet is made where none of its pointers has a block. -/
theorem create_matches (hst : ∀ slot, st (i, slot) ≠ .held) :
    Along after Fine st (createCommands i) ∧
      view ((createCommands i).foldl after st) i = slots rtpPacketCreate := by
  constructor
  · simp [createCommands, Along, Fine, after, hst]
  · funext slot
    cases slot <;>
      simp [createCommands, after, view, slots, status, rtpPacketCreate, rtpHeaderCreate]

/-- What freeing leaves of a pointer. -/
def freed : Status → Status
  | .null => .null
  | .held => .dangling
  | .dangling => .dangling

theorem freed_ne_held (v : Status) : freed v ≠ .held := by
  cases v <;> exact Status.noConfusion

theorem view_free : view (after st (.free (i, slot))) i
    = Function.update (view st i) slot (freed (view st i slot)) := by
  change view (if view st i slot = .held then _ else _) i = _
  cases hslot : view st i slot with
  | held => exact view_update
  | null => exact (Function.update_eq_self_iff.mpr hslot.symm).symm
  | dangling => exact (Function.update_eq_self_iff.mpr hslot.symm).symm

theorem fine_free : Fine st (.free (i, slot)) ↔ view st i slot ≠ .dangling := Iff.rfl

/-- An extension that was cleared is freed once more. -/
theorem free_matches (hst : view st i = slots packet) (hlive : Live packet) :
    (Along after Fine st (freeCommands i) ↔ status packet.header.extData ≠ .dangling) ∧
      ∀ slot, (freeCommands i).foldl after st (i, slot) ≠ .held := by
  constructor
  · simp [freeCommands, Along, fine_free, view_free, hst, slots, hlive.1, hlive.2]
  · intro slot
    change view ((freeCommands i).foldl after st) i slot ≠ .held
    rw [freeCommands, List.foldl_cons, List.foldl_cons, List.foldl_cons, List.foldl_cons,
      List.foldl_cons, List.foldl_nil]
    cases slot <;> simp [view_free, freed_ne_held]

/-! ### The whole process -/

/-- The pointers are as the packets have them. -/
structure Agrees (packets : Nat → Option RtpPacket) (st : Nat × Slot → Status) : Prop where
  absent : ∀ i, packets i = none → ∀ slot, st (i, slot) ≠ .held
  present : ∀ i packet, packets i = some packet → view st i = slots packet ∧ Live packet

variable {packets : Nat → Option RtpPacket} {cs : List (Command (Nat × Slot))}
  {opt : Option RtpPacket} {alloc : Allocator} {s s' : Process} {op : Op}

theorem commands_key : ∀ cmd ∈ commands i packet result c, ∃ slot, cmd.key = some (i, slot) := by
  cases c <;> simp only [commands] <;> repeat' split
  all_goals simp [Command.key]

/-- Commands on one packet leave the others as they are. -/
theorem Agrees.run (h : Agrees packets st)
    (hkey : ∀ cmd ∈ cs, ∃ slot, cmd.key = some (i, slot))
    (hnone : opt = none → ∀ slot, cs.foldl after st (i, slot) ≠ .held)
    (hsome : ∀ packet, opt = some packet →
      view (cs.foldl after st) i = slots packet ∧ Live packet) :
    Agrees (Function.update packets i opt) (cs.foldl after st) := by
  have hframe {j : Nat} (hj : j ≠ i) (slot : Slot) :
      cs.foldl after st (j, slot) = st (j, slot) := by
    refine run_after_of_ne fun cmd hcmd heq => ?_
    obtain ⟨other, hother⟩ := hkey cmd hcmd
    exact hj (congrArg Prod.fst (Option.some.inj (heq.symm.trans hother)))
  constructor
  · intro j hj slot
    by_cases hij : j = i
    · rw [hij, Function.update_self] at hj
      rw [hij]
      exact hnone hj slot
    · rw [Function.update_of_ne hij] at hj
      rw [hframe hij]
      exact h.absent j hj slot
  · intro j packet hj
    by_cases hij : j = i
    · rw [hij, Function.update_self] at hj
      rw [hij]
      exact hsome packet hj
    · rw [Function.update_of_ne hij] at hj
      obtain ⟨hview, hlive⟩ := h.present j packet hj
      exact ⟨(funext fun slot => hframe hij slot).trans hview, hlive⟩

/-- The process has the packets, and its pointers are as they say. -/
def Follows (s : Process) (packets : Nat → Option RtpPacket) : Prop :=
  s.packets = packets ∧ ∃ st, Tracks s.heap st ∧ Agrees packets st

theorem follows_started {others : List Nat} (hothers : others.Nodup) (hzero : 0 ∉ others) :
    Follows (started others) fun _ => none :=
  ⟨rfl, fun _ => .null, tracks_null hothers hzero, fun _ _ _ => Status.noConfusion,
    fun _ _ hsome => absurd hsome.symm (Option.some_ne_none _)⟩

theorem perform_follows (h : Follows s packets) (hallowed : Allowed packets op) :
    ∃ s', perform alloc s op = .ok s' ∧ Follows s' (next packets op) := by
  obtain ⟨rfl, st, htracks, hagrees⟩ := h
  cases op with
  | create i =>
    rw [perform, next]
    cases hi : s.packets i with
    | some packet => exact ⟨s, rfl, rfl, st, htracks, hagrees⟩
    | none =>
      obtain ⟨hfine, hview⟩ := create_matches (hagrees.absent i hi)
      refine ⟨_, rfl, rfl, _, run_tracks htracks hfine, hagrees.run ?_ ?_ ?_⟩
      · simp [createCommands, Command.key]
      · exact fun hnone => absurd hnone (Option.some_ne_none _)
      · intro packet hpacket
        cases hpacket
        exact ⟨hview, Status.noConfusion, Status.noConfusion⟩
  | free i =>
    rw [perform, next]
    cases hi : s.packets i with
    | none => exact ⟨s, rfl, rfl, st, htracks, hagrees⟩
    | some packet =>
      obtain ⟨hview, hlive⟩ := hagrees.present i packet hi
      obtain ⟨hfine, hgone⟩ := free_matches hview hlive
      refine ⟨_, rfl, rfl, _, run_tracks htracks (hfine.mpr (hallowed packet hi)),
        hagrees.run ?_ (fun _ => hgone) ?_⟩
      · simp [freeCommands, Command.key]
      · exact fun packet hpacket => absurd hpacket.symm (Option.some_ne_none _)
  | on i c =>
    rw [perform, next]
    cases hi : s.packets i with
    | none => exact ⟨s, rfl, rfl, st, htracks, hagrees⟩
    | some packet =>
      obtain ⟨hview, hlive⟩ := hagrees.present i packet hi
      obtain ⟨result, hcall, hkeeps⟩ := hallowed packet hi
      have hmatches := call_matches hview hlive hcall
      dsimp only
      rw [hcall]
      refine ⟨_, rfl, rfl, _, run_tracks htracks (hmatches.fine.mpr hkeeps),
        hagrees.run commands_key ?_ ?_⟩
      · exact fun hnone => absurd hnone (Option.some_ne_none _)
      · intro packet' hpacket
        cases hpacket
        exact ⟨hmatches.view, hmatches.live⟩
  | otherMalloc =>
    have htaken : Tracks (exec alloc s.heap .take) st := exec_tracks htracks trivial
    exact ⟨_, rfl, rfl, st, htaken, hagrees⟩
  | otherFree a =>
    have hgiven : Tracks (exec alloc s.heap (.give a)) st := exec_tracks htracks trivial
    exact ⟨_, rfl, rfl, st, hgiven, hagrees⟩

theorem perform_unsound (h : Follows s packets) (hnot : ¬ Allowed packets op)
    (hrun : perform alloc s op = .ok s') : ¬ Sound s'.heap := by
  obtain ⟨rfl, st, htracks, hagrees⟩ := h
  cases op with
  | create i => exact absurd trivial hnot
  | free i =>
    obtain ⟨packet, hpacket⟩ := not_forall.mp hnot
    obtain ⟨hi, hext⟩ := Classical.not_imp.mp hpacket
    obtain ⟨hview, hlive⟩ := hagrees.present i packet hi
    rw [perform, hi] at hrun
    cases hrun
    rw [Process.run, run_sound_iff htracks, (free_matches hview hlive).1]
    exact hext
  | on i c =>
    obtain ⟨packet, hpacket⟩ := not_forall.mp hnot
    obtain ⟨hi, hlost⟩ := Classical.not_imp.mp hpacket
    obtain ⟨hview, hlive⟩ := hagrees.present i packet hi
    rw [perform, hi] at hrun
    obtain ⟨result, hcall, hrun⟩ := bind_eq_ok.mp hrun
    cases hrun
    rw [Process.run, run_sound_iff htracks, (call_matches hview hlive hcall).fine]
    exact fun hkeeps => hlost ⟨result, hcall, hkeeps⟩
  | otherMalloc => exact absurd trivial hnot
  | otherFree a => exact absurd trivial hnot

/-- In a run of packets every block can be reached until it is freed, and is freed at most once,
exactly if each call returns, no list is parsed or begun in place of one that is there, and no
packet is freed whose extension was cleared. -/
theorem packets_sound_iff (alloc : Allocator) (others : List Nat) (hothers : others.Nodup)
    (hzero : 0 ∉ others) (ops : List Op) :
    Throughout (perform alloc) (fun s => Sound s.heap) (started others) ops ↔
      Along next Allowed (fun _ => none) ops := by
  refine throughout_iff_along (L := fun _ _ => True) (R := Follows) ?_ ?_ ?_ ops
    (follows_started hothers hzero) (along_of_forall (fun _ _ => trivial) ops)
  · intro s packets op h _ hallowed
    exact perform_follows h hallowed
  · intro s packets op h _ hnot s' hrun
    exact perform_unsound h hnot hrun
  · intro s packets h
    obtain ⟨-, st, htracks, -⟩ := h
    exact htracks.sound

/-- Above everything that is in use. -/
def above : Allocator where
  place := fun _ used => used.sum + 1
  unused := fun _ _ hin => absurd (List.le_sum_of_mem hin) (Nat.not_succ_le_self _)
  ne_zero := fun _ _ => Nat.succ_ne_zero _

/-- A packet whose extension was set can be freed, but not once the extension was cleared. -/
theorem packets_sound_iff_setExt :
    Throughout (perform above) (fun s => Sound s.heap) (started [])
      [.create 0, .on 0 (.setExt 1 [2] 1), .free 0] ∧
    ¬ Throughout (perform above) (fun s => Sound s.heap) (started [])
      [.create 0, .on 0 (.setExt 1 [2] 1), .on 0 .clearExt, .free 0] := by
  rw [packets_sound_iff above [] List.nodup_nil List.not_mem_nil,
    packets_sound_iff above [] List.nodup_nil List.not_mem_nil]
  refine ⟨⟨trivial, fun packet hpacket => ?_, fun packet hpacket => ?_, trivial⟩, fun h => ?_⟩
  · cases hpacket
    exact ⟨_, rfl, trivial⟩
  · cases hpacket
    exact Status.noConfusion
  · exact h.2.2.2.1 _ rfl rfl

end RtpSdr.Rtp.PacketHeap
