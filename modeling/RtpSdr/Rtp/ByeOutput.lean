import RtpSdr.Lib.Output
import RtpSdr.Rtp.ByeRoundTrip

/-!
# What a serialized goodbye packet shows of the buffer

The message is counted with the bytes that fill it up to a word, and written without them.
Those bytes are the ones the caller's buffer held. A parser that fails can leave a packet that
counts more sources than it has: its serializer reads behind them.
-/
namespace RtpSdr.Rtp.ByeOutput

open RtpSdr.Lib.Checked
open RtpSdr.Lib.Memory
open RtpSdr.Lib.Output
open RtpSdr.Lib.BigEndian
open RtpSdr.Rtp.Util
open RtpSdr.Rtp.RtcpHeader
open RtpSdr.Rtp.EntryList
open RtpSdr.Rtp.Bye
open RtpSdr.Rtp.ByeRoundTrip
open RtpSdr.Rtp.Sdes (roundUp roundUp_spec)

/-! ## The packets of a program -/

/-- What a program does with a packet. -/
inductive Use where
  | init
  | call (op : Op)
  | parse (buffer : List UInt8) (size : Nat)

/-- The packet afterwards, whatever the call returned. A packet that was freed is not used. -/
def use (packet : RtcpBye) : Use → Exec RtcpBye
  | .init => .ok (rtcpByeInit packet)
  | .call op => perform packet op
  | .parse buffer size => do
    let (_, packet) ← rtcpByeParse packet buffer size
    packet.deref

/-- The packet has the message, as a string. -/
structure HasMessage (packet : RtcpBye) (message : Option (List UInt8)) : Prop where
  block : packet.message = messagePtr message
  noNul : ∀ text, message = some text → 0 ∉ text

variable {packet packet' : RtcpBye} {c : Content} {message : Option (List UInt8)}

theorem HasMessage.holds (h : HasMessage packet c.message)
    (hheld : Held packet.header.count packet.srcIds c.srcIds) : Holds packet c :=
  ⟨hheld, h.block, h.noNul⟩

theorem updateLength_message (hrun : updateLength packet = .ok packet')
    (h : HasMessage packet message) : HasMessage packet' message := by
  obtain ⟨size, -, hrun⟩ := bind_eq_ok.mp hrun
  cases hrun
  refine ⟨?_, h.noNul⟩
  rw [withLength_message]
  exact h.block

/-- A call that returns leaves the message that it should, whatever the sources. -/
theorem perform_message (h : HasMessage packet c.message) {op : Op}
    (hrun : perform packet op = .ok packet') : HasMessage packet' (step c op).message := by
  cases op with
  | addSource srcId =>
    have hmessage : (step c (.addSource srcId)).message = c.message := by
      rw [step]
      split <;> rfl
    rw [hmessage]
    obtain ⟨⟨r, packet₁⟩, hadd, hrun⟩ := bind_eq_ok.mp hrun
    cases hrun
    obtain ⟨added, -, hadd⟩ := bind_eq_ok.mp hadd
    cases added with
    | none =>
      cases hadd
      exact h
    | some added =>
      obtain ⟨packet₂, hupdate, hadd⟩ := bind_eq_ok.mp hadd
      cases hadd
      exact updateLength_message hupdate ⟨h.block, h.noNul⟩
  | removeSource srcId behind =>
    obtain ⟨found, -, hrun⟩ := bind_eq_ok.mp hrun
    cases found with
    | none =>
      cases hrun
      exact h
    | some index =>
      obtain ⟨_, -, hrun⟩ := bind_eq_ok.mp hrun
      exact updateLength_message hrun ⟨h.block, h.noNul⟩
  | setMessage text =>
    obtain ⟨⟨r, packet₁⟩, hset, hrun⟩ := bind_eq_ok.mp hrun
    cases hrun
    rw [setMessage_eq, h.block] at hset
    rw [step]
    cases hmessage : c.message with
    | some old =>
      rw [hmessage, messagePtr, if_pos (Ptr.isSet_obj _)] at hset
      cases hset
      rw [if_pos Option.isSome_some]
      exact h
    | none =>
      rw [hmessage, messagePtr, if_neg (by decide)] at hset
      obtain ⟨packet₂, hupdate, hset⟩ := bind_eq_ok.mp hset
      cases hset
      rw [if_neg (by decide)]
      refine updateLength_message hupdate ⟨rfl, fun t ht => ?_⟩
      cases ht
      exact zero_notMem_cstring _
  | clearMessage =>
    refine updateLength_message hrun ⟨rfl, fun t ht => ?_⟩
    cases ht

/-- A parser that returns has found no message, and the packet keeps the one it had. -/
theorem parse_message (h : HasMessage packet message) {buffer : List UInt8} {size : Nat} {r : Int}
    {p : Ptr RtcpBye} (hrun : rtcpByeParse packet buffer size = .ok (r, p))
    (hp : p.deref = .ok packet') : HasMessage packet' message := by
  rw [rtcpByeParse] at hrun
  by_cases hsize : size < 4
  · rw [if_pos hsize] at hrun
    cases hrun
    cases hp
    exact h
  · rw [if_neg hsize] at hrun
    obtain ⟨⟨pt, header⟩, -, hrun⟩ := bind_eq_ok.mp hrun
    dsimp only at hrun
    by_cases hpt : pt ≠ RTCP_BYE.toNat
    · rw [if_pos hpt] at hrun
      cases hrun
      cases hp
      exact ⟨h.block, h.noNul⟩
    · rw [if_neg hpt] at hrun
      by_cases hcount : header.count ≠ 0
      · rw [if_pos hcount] at hrun
        by_cases hshort : size < 4 + 4 * header.count.toNat
        · rw [if_pos hshort] at hrun
          cases hrun
          cases hp
        · rw [if_neg hshort] at hrun
          obtain ⟨srcIds, -, hrun⟩ := bind_eq_ok.mp hrun
          obtain rfl := parseMessage_returns hrun
          cases hp
          exact ⟨h.block, h.noNul⟩
      · rw [if_neg hcount] at hrun
        obtain rfl := parseMessage_returns hrun
        cases hp
        exact ⟨h.block, h.noNul⟩

theorem use_message (h : ∃ message, HasMessage packet message) {u : Use}
    (hrun : use packet u = .ok packet') : ∃ message, HasMessage packet' message := by
  obtain ⟨message, hmessage'⟩ := h
  cases u with
  | init =>
    cases hrun
    exact ⟨message, hmessage'.block, hmessage'.noNul⟩
  | call op => exact ⟨_, perform_message (c := ⟨[], message⟩) hmessage' hrun⟩
  | parse buffer size =>
    obtain ⟨⟨r, p⟩, hparse, hp⟩ := bind_eq_ok.mp hrun
    exact ⟨message, parse_message hmessage' hparse hp⟩

theorem message_create : HasMessage rtcpByeCreate none := ⟨rfl, fun _ ht => nomatch ht⟩

theorem reached_message (h : Reached use rtcpByeCreate packet) :
    ∃ message, HasMessage packet message :=
  h.invariant ⟨none, message_create⟩ fun _ _ _ hs hrun => use_message hs hrun

/-! ## What the serializer shows -/

/-- The bytes that a serialized packet shows are its own. -/
def OwnBytes (packet : RtcpBye) : Prop :=
  Independent (runOf fun buffer => rtcpByeSerialize packet buffer buffer.length)
    (Enough (rtcpByeSize packet))

/-- Behind the length byte the message fills its last word, or it is too long to be written. -/
def Filled (packet : RtcpBye) : Prop :=
  ∀ block length, packet.message = .obj block → strlen block = .ok length →
    (1 + length) % 4 = 0 ∨ 255 < length

theorem filled_iff (h : Holds packet c) :
    Filled packet ↔ ∀ text, c.message = some text →
      (1 + text.length) % 4 = 0 ∨ 255 < text.length := by
  rw [Filled, h.message]
  cases hmessage : c.message with
  | none => exact ⟨fun _ _ ht => (nomatch ht), fun _ _ _ ht => (nomatch ht)⟩
  | some text =>
    have hstrlen := strlen_append [] (h.noNul text hmessage)
    constructor
    · intro hfill text' ht
      cases ht
      exact hfill _ _ rfl hstrlen
    · intro hfill block length hblock hlength
      cases hblock
      cases hstrlen.symm.trans hlength
      exact hfill text rfl

/-! ### A packet that has its sources -/

/-- It shows its own bytes only, unless it has a message that ends inside a word. -/
theorem ownBytes_held_iff (h : Holds packet c) : OwnBytes packet ↔ Filled packet := by
  rw [filled_iff h, OwnBytes, rtcpByeSize_ok h, enough_ok]
  by_cases hlong : ∃ text, c.message = some text ∧ 255 < text.length
  · obtain ⟨text, hmessage, hlen⟩ := hlong
    constructor
    · intro _ text' ht
      cases hmessage.symm.trans ht
      exact .inr hlen
    · intro _
      have hrun (buffer : List UInt8) (henough : c.size ≤ buffer.length ∧ buffer.length < 2 ^ 64) :
          rtcpByeSerialize packet buffer buffer.length = .ok (RTCP_ERROR,
            headerBytes packet.header ++ words c.srcIds
              ++ buffer.drop (headerBytes packet.header ++ words c.srcIds).length) := by
        rw [rtcpByeSerialize_long h henough.1 henough.1 hmessage hlen, withSources,
          List.length_append, length_headerBytes, length_words, Nat.mul_comm 4]
      exact independent_of_front hrun (Nat.zero_le _)
  · push Not at hlong
    have hcount := h.srcIds.length_le
    have hencode := length_encode packet.header c
    have hsize : c.size = sizeWith (4 + c.srcIds.length * 4) c.message := rfl
    have hrun (buffer : List UInt8) (henough : c.size ≤ buffer.length ∧ buffer.length < 2 ^ 64) :=
      rtcpByeSerialize_ok h henough.1 henough.1 hlong
    cases hmessage : c.message with
    | none =>
      rw [hmessage, messageBytes, List.length_nil] at hencode
      rw [hmessage, sizeWith] at hsize
      constructor
      · intro _ text ht
        cases ht
      · intro _
        exact independent_of_front hrun ((toNat_castInt_le _).trans (by omega))
    | some text =>
      have hlen := hlong text hmessage
      have hround := roundUp_spec (4 + c.srcIds.length * 4 + (1 + text.length))
      rw [hmessage, messageBytes, List.length_cons] at hencode
      rw [hmessage, sizeWith] at hsize
      rw [← hsize] at hround
      rw [independent_iff hrun (show (0 : UInt8) ≠ 1 by decide)
        ⟨Nat.le_refl _, by omega⟩ (toNat_castInt_le _), toNat_castInt_le_iff (by omega), hencode]
      constructor
      · intro hle text' ht
        cases ht
        omega
      · intro hfill
        have hmod := hfill text rfl
        omega

/-! ### Any packet -/

/-- No buffer has room for the packet. -/
def TooLarge (packet : RtcpBye) : Prop :=
  ∃ size, rtcpByeSize packet = .ok size ∧ 2 ^ 64 ≤ size

/-- The packet without the sources that it does not count. -/
def counted (packet : RtcpBye) : RtcpBye :=
  { packet with srcIds := .obj (packet.srcIds.elements.take packet.header.count.toNat) }

/-- They are not serialized. -/
theorem serialize_counted (hcount : Covered packet.header.count packet.srcIds)
    (buffer : List UInt8) (size : Nat) :
    rtcpByeSerialize packet buffer size = rtcpByeSerialize (counted packet) buffer size := by
  have hsources (buffer : List UInt8) :
      serializeSources packet buffer = serializeSources (counted packet) buffer := by
    apply forUp_congr
    intro i s hi
    exact (hcount.bind_load hi _).trans rfl
  rw [rtcpByeSerialize, rtcpByeSerialize]
  simp only [hsources]
  rfl

theorem rtcpByeSize_of_message (h : HasMessage packet message) :
    rtcpByeSize packet = .ok (sizeWith (4 + packet.header.count.toNat * 4) message) := by
  rw [rtcpByeSize, h.block]
  cases hmessage : message with
  | none => rfl
  | some text =>
    rw [messagePtr, if_pos (Ptr.isSet_obj _), Ptr.deref_obj, ok_bind,
      bind_of_ok (strlen_append [] (h.noNul text hmessage)), sizeWith]

theorem le_sizeWith (size : Nat) (message : Option (List UInt8)) :
    size ≤ sizeWith size message := by
  cases message with
  | none => exact Nat.le_refl _
  | some text =>
    have hround := roundUp_spec (size + (1 + text.length))
    rw [sizeWith]
    omega

/-- A serializer that returns from a buffer with room has found as many sources as the packet
counts. -/
theorem count_le_of_serialize {size : Nat} (hsize : rtcpByeSize packet = .ok size)
    (hfour : 4 ≤ size) {buffer : List UInt8} (hroom : size ≤ buffer.length) {r : Int × List UInt8}
    (hrun : rtcpByeSerialize packet buffer buffer.length = .ok r) :
    Covered packet.header.count packet.srcIds := by
  rw [rtcpByeSerialize, bind_of_ok hsize, if_neg (by omega), rtcpHeaderSerialize_eq _ (by omega),
    bind_assoc] at hrun
  obtain ⟨buffer₁, -, hrun⟩ := bind_eq_ok.mp hrun
  rw [ok_bind] at hrun
  dsimp only at hrun
  rw [if_neg (by decide)] at hrun
  obtain ⟨buffer₂, hsources, -⟩ := bind_eq_ok.mp hrun
  refine forUp_returns (I := fun i _ => i ≤ packet.srcIds.elements.length) (Nat.zero_le _) ?_
    hsources
  intro i s s' _ _ hbody
  obtain ⟨srcIds, hderef, hbody⟩ := bind_eq_ok.mp hbody
  obtain ⟨srcId, hload, -⟩ := bind_eq_ok.mp hbody
  obtain ⟨hlt, -⟩ := load_eq_ok hload
  rw [Ptr.deref_eq_ok hderef, Ptr.elements_obj]
  exact hlt

theorem tooLarge_iff {size : Nat} (hsize : rtcpByeSize packet = .ok size) :
    TooLarge packet ↔ 2 ^ 64 ≤ size := by
  constructor
  · rintro ⟨size', hsize', hlarge⟩
    cases hsize.symm.trans hsize'
    exact hlarge
  · exact fun hlarge => ⟨size, hsize, hlarge⟩

/-- A packet shows its own bytes only, if it has the sources that it counts and no message that
ends inside a word. -/
theorem ownBytes_iff (h : HasMessage packet message) :
    OwnBytes packet ↔ TooLarge packet ∨
      Covered packet.header.count packet.srcIds ∧ Filled packet := by
  have hsize := rtcpByeSize_of_message h
  have hle := le_sizeWith (4 + packet.header.count.toNat * 4) message
  rw [tooLarge_iff hsize]
  by_cases hlt : sizeWith (4 + packet.header.count.toNat * 4) message < 2 ^ 64
  · rw [or_iff_right (Nat.not_le.mpr hlt)]
    by_cases hcount : Covered packet.header.count packet.srcIds
    · have hsame : OwnBytes packet ↔ OwnBytes (counted packet) :=
        independent_congr fun xs _ => serialize_counted hcount xs xs.length
      have hholds : Holds (counted packet)
          ⟨packet.srcIds.elements.take packet.header.count.toNat, message⟩ :=
        ⟨hcount.held, h.block, h.noNul⟩
      rw [and_iff_right hcount, hsame]
      exact ownBytes_held_iff hholds
    · refine iff_of_false (fun hown => hcount ?_) (fun hcond => hcount hcond.1)
      rw [OwnBytes, hsize] at hown
      obtain ⟨buffer, r, hlen, hrun⟩ := exists_run_of_independent hown hlt 0
      exact count_le_of_serialize hsize (by omega) hlen.ge hrun
  · have hlarge := Nat.le_of_not_lt hlt
    refine iff_of_true ?_ (.inl hlarge)
    rw [OwnBytes, hsize]
    exact independent_of_large hlarge

end RtpSdr.Rtp.ByeOutput
