import RtpSdr.Rtp.Bye

/-!
# Goodbye packets built by calls

What any sequence of the mutators of `rtcp_bye.c` leaves, and when the packet survives
serializing and parsing: exactly when it has no message.
-/
namespace RtpSdr.Rtp.ByeRoundTrip

open RtpSdr.Lib.Checked
open RtpSdr.Lib.Memory
open RtpSdr.Lib.BigEndian
open RtpSdr.Rtp.RtcpHeader
open RtpSdr.Rtp.EntryList
open RtpSdr.Rtp.Bye
open RtpSdr.Rtp.Sdes (roundUp_spec)

/-- A call on a packet. A message is given by the characters of its block, and `behind` are the
words that a move may read behind the array of sources. -/
inductive Op where
  | addSource (srcId : UInt32)
  | removeSource (srcId : UInt32) (behind : List UInt32)
  | setMessage (text : List UInt8)
  | clearMessage

/-- The packet after a call, whatever the call returned. -/
def perform (packet : RtcpBye) : Op → Exec RtcpBye
  | .addSource srcId => do
    let (_, packet) ← rtcpByeAddSource packet srcId
    .ok packet
  | .removeSource srcId behind => rtcpByeRemoveSource packet srcId behind
  | .setMessage text => do
    let (_, packet) ← rtcpByeSetMessage packet (text ++ [0])
    .ok packet
  | .clearMessage => rtcpByeClearMessage packet

/-! ## What the calls leave -/

def Content.start : Content := ⟨[], none⟩

/-- A source that is there and a message on top of one are refused. -/
def step (c : Content) : Op → Content
  | .addSource srcId => if srcId ∈ c.srcIds then c else { c with srcIds := c.srcIds ++ [srcId] }
  | .removeSource srcId _ => { c with srcIds := c.srcIds.erase srcId }
  | .setMessage text =>
    if c.message.isSome then c else { c with message := some (cstring (text ++ [0])) }
  | .clearMessage => { c with message := none }

/-- The call leaves no more sources than the count can express. -/
def Counted (c : Content) (op : Op) : Prop := (step c op).srcIds.length ≤ 31

instance (c : Content) (op : Op) : Decidable (Counted c op) :=
  inferInstanceAs (Decidable (_ ≤ _))

/-- A call that removes a source has a word to read behind the array. -/
def Readable (c : Content) : Op → Prop
  | .removeSource srcId behind => srcId ∈ c.srcIds → behind ≠ []
  | _ => True

/-- The header length of a content. -/
def lengthOf (c : Content) : UInt16 := UInt16.ofNat (sizeSub (c.size / 4) 1)

/-- The packet holds the content and has the header that belongs to it. -/
structure Built (packet : RtcpBye) (c : Content) : Prop extends Holds packet c where
  version : packet.header.version = 2
  p : packet.header.p = 0
  pt : packet.header.pt = RTCP_BYE
  length : packet.header.length = lengthOf c

variable {packet : RtcpBye} {c : Content}

theorem built_init : Built (rtcpByeInit rtcpByeCreate) Content.start := by
  have hsize : Content.start.size = 4 := rfl
  have hlength : lengthOf Content.start = 0 := by
    rw [lengthOf, hsize, sizeSub_of_le (by omega) (by omega)]
    rfl
  exact ⟨⟨held_nil _, rfl, fun _ h => nomatch h⟩, rfl, rfl, rfl, hlength.symm⟩

/-- The update ends every call that changes the content. -/
theorem updateLength_built (packet : RtcpBye) (hholds : Holds packet c)
    (hversion : packet.header.version = 2) (hp : packet.header.p = 0)
    (hpt : packet.header.pt = RTCP_BYE) :
    ∃ packet', updateLength packet = .ok packet' ∧ Built packet' c := by
  refine ⟨withLength packet (lengthOf c), ?_, ?_⟩
  · rw [updateLength, bind_of_ok (rtcpByeSize_ok hholds), ← lengthOf]
  constructor
  · exact holds_withLength hholds _
  · rwa [withLength_version]
  · rwa [withLength_p]
  · rwa [withLength_pt]
  · rw [withLength_length]

theorem addSource_built (hb : Built packet c) (srcId : UInt32)
    (hcount : (step c (.addSource srcId)).srcIds.length ≤ 31) :
    ∃ r packet', rtcpByeAddSource packet srcId = .ok (r, packet') ∧
      Built packet' (step c (.addSource srcId)) := by
  rw [rtcpByeAddSource]
  rw [step] at hcount ⊢
  by_cases hin : srcId ∈ c.srcIds
  · rw [if_pos hin, bind_of_ok (addEntry_present hb.srcIds (by decide) (exists_beq_iff.mpr hin))]
    exact ⟨_, packet, rfl, hb⟩
  · rw [if_neg hin] at hcount ⊢
    rw [List.length_append, List.length_singleton] at hcount
    obtain ⟨count, hadd, hheld⟩ :=
      addEntry_new hb.srcIds (by decide) 0 srcId (by omega) (mt exists_beq_iff.mp hin)
    rw [bind_of_ok hadd]
    dsimp only
    obtain ⟨packet', hupdate, hbuilt⟩ := updateLength_built { packet with
      header := { packet.header with count := count }, srcIds := .obj (c.srcIds ++ [srcId]) }
      (c := { c with srcIds := c.srcIds ++ [srcId] }) ⟨hheld, hb.message, hb.noNul⟩
      hb.version hb.p hb.pt
    exact ⟨RTCP_OK, packet', by rw [bind_of_ok hupdate], hbuilt⟩

theorem removeSource_absent (hb : Built packet c) {srcId : UInt32} (hin : srcId ∉ c.srcIds)
    (behind : List UInt32) : rtcpByeRemoveSource packet srcId behind = .ok packet := by
  have hfound := hb.srcIds.search (· == srcId)
  rw [search_of_notMem hin] at hfound
  rw [rtcpByeRemoveSource, rtcpByeFindSource, bind_of_ok hfound]

theorem removeSource_built (hb : Built packet c) (srcId : UInt32) {behind : List UInt32}
    (hread : srcId ∈ c.srcIds → behind ≠ []) :
    ∃ packet', rtcpByeRemoveSource packet srcId behind = .ok packet' ∧
      Built packet' (step c (.removeSource srcId behind)) := by
  rw [step]
  by_cases hin : srcId ∈ c.srcIds
  · obtain ⟨i, hi, hfound, herase⟩ := exists_index hin
    obtain ⟨b, behind, rfl⟩ := List.exists_cons_of_ne_nil (hread hin)
    obtain ⟨count, srcIds, hremove, hheld⟩ := removeEntry_ok hb.srcIds b behind 0 hi
    rw [rtcpByeRemoveSource, rtcpByeFindSource, bind_of_ok (hb.srcIds.search _), hfound]
    dsimp only
    rw [bind_of_ok hremove, herase]
    exact updateLength_built _ (c := { c with srcIds := c.srcIds.eraseIdx i })
      ⟨hheld, hb.message, hb.noNul⟩ hb.version hb.p hb.pt
  · rw [List.erase_of_not_mem hin]
    exact ⟨packet, removeSource_absent hb hin behind, hb⟩

theorem removeSource_fault (hb : Built packet c) {srcId : UInt32} (hin : srcId ∈ c.srcIds) :
    rtcpByeRemoveSource packet srcId [] = .error .bounds := by
  obtain ⟨i, hi, hfound, -⟩ := exists_index hin
  rw [rtcpByeRemoveSource, rtcpByeFindSource, bind_of_ok (hb.srcIds.search _), hfound]
  dsimp only
  rw [removeEntry_fault hb.srcIds 0 hi, error_bind]

/-- The string is copied, with its terminator. -/
theorem setMessage_eq (packet : RtcpBye) (text : List UInt8) :
    rtcpByeSetMessage packet (text ++ [0]) =
      if packet.message.isSet then .ok (RTCP_ERROR, packet)
      else (do
        let packet ← updateLength { packet with message := messagePtr (cstring (text ++ [0])) }
        .ok (RTCP_OK, packet)) := by
  have hzero : 0 ∈ text ++ [0] := by simp
  have hslice := slice_cstring (text ++ [0])
  have hstrlen := strlen_ok hzero
  generalize cstring (text ++ [0]) = string at hslice hstrlen ⊢
  have hblit : blit (realloc [] (string.length + 1) 0) 0 (string ++ [0])
      = .ok (string ++ [0]) := by
    rw [blit_of_le (by simp [realloc]), put_zero]
    simp [realloc]
  rw [rtcpByeSetMessage, bind_of_ok hstrlen, bind_of_ok hslice, bind_of_ok hblit, messagePtr]

theorem setMessage_built (hb : Built packet c) (text : List UInt8) :
    ∃ r packet', rtcpByeSetMessage packet (text ++ [0]) = .ok (r, packet') ∧
      Built packet' (step c (.setMessage text)) := by
  rw [setMessage_eq, hb.message, step]
  cases hmessage : c.message with
  | some old =>
    rw [messagePtr, if_pos (Ptr.isSet_obj _), if_pos Option.isSome_some]
    exact ⟨_, packet, rfl, hb⟩
  | none =>
    have hnoNul := zero_notMem_cstring (text ++ [0])
    obtain ⟨packet', hupdate, hbuilt⟩ := updateLength_built
      { packet with message := messagePtr (cstring (text ++ [0])) }
      (c := { c with message := some (cstring (text ++ [0])) })
      ⟨hb.srcIds, rfl, fun t ht => by cases ht; exact hnoNul⟩ hb.version hb.p hb.pt
    rw [messagePtr, if_neg (by decide), if_neg (by decide)]
    exact ⟨RTCP_OK, packet', by rw [bind_of_ok hupdate], hbuilt⟩

theorem clearMessage_built (hb : Built packet c) :
    ∃ packet', rtcpByeClearMessage packet = .ok packet' ∧ Built packet' (step c .clearMessage) :=
  updateLength_built { packet with message := .null }
    (c := { c with message := none }) ⟨hb.srcIds, rfl, fun _ h => nomatch h⟩ hb.version hb.p hb.pt

theorem perform_built (hb : Built packet c) (op : Op) (hcount : Counted c op)
    (hread : Readable c op) :
    ∃ packet', perform packet op = .ok packet' ∧ Built packet' (step c op) := by
  cases op with
  | addSource srcId =>
    obtain ⟨r, packet', hrun, hbuilt⟩ := addSource_built hb srcId hcount
    exact ⟨packet', by rw [perform, bind_of_ok hrun], hbuilt⟩
  | removeSource srcId behind => exact removeSource_built hb srcId hread
  | setMessage text =>
    obtain ⟨r, packet', hrun, hbuilt⟩ := setMessage_built hb text
    exact ⟨packet', by rw [perform, bind_of_ok hrun], hbuilt⟩
  | clearMessage => exact clearMessage_built hb

theorem perform_fault (hb : Built packet c) (op : Op) (hread : ¬ Readable c op) :
    ∃ e, perform packet op = .error e := by
  cases op with
  | removeSource srcId behind =>
    have hin : srcId ∈ c.srcIds := by
      by_contra hin
      exact hread fun h => absurd h hin
    have hnil : behind = [] := by
      by_contra hne
      exact hread fun _ => hne
    rw [hnil]
    exact ⟨_, removeSource_fault hb hin⟩
  | addSource srcId => exact absurd trivial hread
  | setMessage text => exact absurd trivial hread
  | clearMessage => exact absurd trivial hread

/-! ## The round trip -/

/-- The message of a packet, read as a string. -/
def HoldsMessage (message : Ptr (List UInt8)) : Option (List UInt8) → Prop
  | none => message = .null
  | some text => ∃ block, message = .obj block ∧ 0 ∈ block ∧ cstring block = text

/-- A packet that is serialized into a buffer of its size and parsed again comes back with its
sources and its message. -/
def RoundTrips (packet : RtcpBye) (c : Content) : Prop :=
  ∃ size, rtcpByeSize packet = .ok size ∧ ∀ buffer : List UInt8, buffer.length = size →
    ∃ bytes packet', rtcpByeSerialize packet buffer size = .ok ((size : Int), bytes) ∧
      rtcpByeParse rtcpByeCreate bytes size = .ok (RTCP_OK, .obj packet') ∧
      Held packet'.header.count packet'.srcIds c.srcIds ∧ HoldsMessage packet'.message c.message

/-- With its counts in range, a packet's size is an `int`. -/
theorem size_lt (hids : c.srcIds.length ≤ 31)
    (hlen : ∀ text, c.message = some text → text.length ≤ 255) : c.size < 2 ^ 31 := by
  rw [Content.size]
  cases hmessage : c.message with
  | none =>
    rw [sizeWith]
    omega
  | some text =>
    have hround := roundUp_spec (4 + c.srcIds.length * 4 + (1 + text.length))
    have htext := hlen text hmessage
    rw [sizeWith]
    omega

theorem serialize_built (hb : Built packet c) {buffer : List UInt8}
    (hbuffer : buffer.length = c.size)
    (hlen : ∀ text, c.message = some text → text.length ≤ 255) :
    rtcpByeSerialize packet buffer c.size = .ok ((c.size : Int),
      encode packet.header c ++ buffer.drop (encode packet.header c).length) := by
  rw [rtcpByeSerialize_ok hb.toHolds (by omega) (Nat.le_refl _) hlen,
    castInt_of_lt (size_lt hb.srcIds.length_le hlen)]

/-- A packet without a message is read back as it was. -/
theorem roundTrips_of_none (hb : Built packet c) (hnone : c.message = none) :
    RoundTrips packet c := by
  have hlen (text : List UInt8) (h : c.message = some text) : text.length ≤ 255 := by
    rw [hnone] at h
    cases h
  have hdef : c.size = 4 + 4 * c.srcIds.length := by
    rw [Content.size, hnone, sizeWith, Nat.mul_comm]
  obtain ⟨p, hp, -, hparse⟩ := rtcpByeParse_sources rtcpByeCreate c.size hb.version hb.pt
    hb.srcIds.count [] (by omega)
  refine ⟨c.size, rtcpByeSize_ok hb.toHolds, fun buffer hbuffer => ?_⟩
  refine ⟨_, ⟨packet.header, p, .null⟩, serialize_built hb hbuffer hlen, ?_, ?_, ?_⟩
  · have hencode : encode packet.header c = headerBytes packet.header ++ words c.srcIds := by
      rw [encode, hnone, messageBytes, List.append_nil]
    have hdrop : buffer.drop (headerBytes packet.header ++ words c.srcIds).length = [] := by
      apply List.drop_eq_nil_of_le
      rw [List.length_append, length_headerBytes, length_words]
      omega
    rw [hencode, hdrop, hparse, parseMessage_none _ (by omega)]
    rfl
  · exact ⟨hb.srcIds.count, hp⟩
  · rw [hnone]
    rfl

/-- The parser does not return from a packet with a message. -/
theorem not_roundTrips_of_some (hb : Built packet c) {text : List UInt8}
    (hmessage : c.message = some text) (hlen : text.length ≤ 255) : ¬ RoundTrips packet c := by
  rintro ⟨size, hsize, hround⟩
  rw [rtcpByeSize_ok hb.toHolds, Except.ok.injEq] at hsize
  subst hsize
  have hlen' (text' : List UInt8) (h : c.message = some text') : text'.length ≤ 255 := by
    rw [hmessage, Option.some.injEq] at h
    rw [← h]
    exact hlen
  have hle := length_encode_le packet.header c
  have hlarge : 4 + 4 * c.srcIds.length < c.size := by
    have hround := roundUp_spec (4 + c.srcIds.length * 4 + (1 + text.length))
    rw [Content.size, hmessage, sizeWith]
    omega
  obtain ⟨bytes, packet', hserialize, hparse, -⟩ :=
    hround (List.replicate c.size 0) List.length_replicate
  rw [serialize_built hb List.length_replicate hlen', Except.ok.injEq, Prod.mk.injEq] at hserialize
  have hbytes : bytes.length = c.size := by
    rw [← hserialize.2, List.length_append, List.length_drop, List.length_replicate]
    omega
  rw [encode, List.append_assoc] at hserialize
  obtain ⟨p, -, -, hsources⟩ := rtcpByeParse_sources rtcpByeCreate c.size hb.version hb.pt
    hb.srcIds.count (messageBytes c.message ++ (List.replicate c.size 0).drop
      (headerBytes packet.header ++ words c.srcIds ++ messageBytes c.message).length) (by omega)
  rw [hserialize.2, parseMessage_fault _ hlarge (by omega)] at hsources
  rw [hsources] at hparse
  cases hparse

/-- A history builds a packet that round-trips if and only if it leaves no message and each of
its removals has a word to read behind the array. -/
theorem rtcpBye_roundTrips_iff (ops : List Op) (hcount : Along step Counted Content.start ops)
    (hlen : ∀ text, (ops.foldl step Content.start).message = some text → text.length ≤ 255) :
    (∃ packet, runAll perform (rtcpByeInit rtcpByeCreate) ops = .ok packet ∧
        RoundTrips packet (ops.foldl step Content.start)) ↔
      (ops.foldl step Content.start).message = none ∧ Along step Readable Content.start ops := by
  have hstep (packet : RtcpBye) (c : Content) (op : Op) (hb : Built packet c) (hc : Counted c op)
      (hr : Readable c op) := perform_built hb op hc hr
  constructor
  · rintro ⟨packet, hpacket, hround⟩
    obtain ⟨hread, hbuilt⟩ := along_of_runAll hstep (fun _ _ op hb _ hr => perform_fault hb op hr)
      ops built_init hcount hpacket
    refine ⟨?_, hread⟩
    cases hmessage : (ops.foldl step Content.start).message with
    | none => rfl
    | some text => exact absurd hround (not_roundTrips_of_some hbuilt hmessage (hlen text hmessage))
  · rintro ⟨hnone, hread⟩
    obtain ⟨packet, hpacket, hbuilt⟩ := runAll_along hstep ops built_init hcount hread
    exact ⟨packet, hpacket, roundTrips_of_none hbuilt hnone⟩

/-- A source is added, removed and added again, and a message is set and cleared. -/
theorem rtcpBye_roundTrips_cleared :
    ∃ packet, runAll perform (rtcpByeInit rtcpByeCreate)
        [.addSource 7, .removeSource 7 [0], .addSource 9, .setMessage [98, 121, 101],
          .clearMessage] = .ok packet ∧ RoundTrips packet ⟨[9], none⟩ :=
  (rtcpBye_roundTrips_iff
    [.addSource 7, .removeSource 7 [0], .addSource 9, .setMessage [98, 121, 101], .clearMessage]
    (by simp [Along, Counted, step, Content.start]) (fun _ h => by cases h)).mpr
    ⟨rfl, by simp [Along, Readable, step, Content.start]⟩

/-- One source and the message "bye": the parser stores the terminator outside its block. -/
theorem rtcpBye_roundTrips_fails :
    ∃ packet, runAll perform (rtcpByeInit rtcpByeCreate)
        [.addSource 7, .setMessage [98, 121, 101]] = .ok packet ∧
      ¬ RoundTrips packet ⟨[7], some [98, 121, 101]⟩ := by
  obtain ⟨packet, hrun, hbuilt⟩ := runAll_along (R := Built) (L := Counted) (P := Readable)
    (fun _ _ op hb hc hr => perform_built hb op hc hr) [.addSource 7, .setMessage [98, 121, 101]]
    built_init (by simp [Along, Counted, step, Content.start])
    (by simp [Along, Readable])
  exact ⟨packet, hrun, not_roundTrips_of_some hbuilt rfl (by decide)⟩

end RtpSdr.Rtp.ByeRoundTrip
