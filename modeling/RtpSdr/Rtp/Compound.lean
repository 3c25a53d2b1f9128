import RtpSdr.Rtp.Bye
import RtpSdr.Rtp.ParseSafe
import RtpSdr.Rtp.SdesWalk

/-!
# Packets in a compound packet

RTCP packets arrive one behind the other, and the header's length says where one ends.
Four of the five parsers read no further than that from a packet that is well formed;
that of BYE takes whatever is left in the buffer for the reason for leaving.
-/
namespace RtpSdr.Rtp.Compound

open RtpSdr.Lib.Checked
open RtpSdr.Lib.Memory
open RtpSdr.Lib.BigEndian
open RtpSdr.Rtp.Util
open RtpSdr.Rtp.RtcpHeader
open RtpSdr.Rtp.ReportPacket
open RtpSdr.Rtp.SrRr
open RtpSdr.Rtp.Sdes
open RtpSdr.Rtp.SdesWalk
open RtpSdr.Rtp.Bye
open RtpSdr.Rtp.App
open RtpSdr.Rtp.ParseSafe

/-- The parser returns the same from `b` alone and from `b` with `r` behind it. -/
def Delimits {π ρ : Type} (parse : π → List UInt8 → Nat → Exec ρ) (packet : π)
    (b r : List UInt8) : Prop :=
  ∃ result, parse packet b b.length = .ok result ∧
    parse packet (b ++ r) (b.length + r.length) = .ok result

variable {b r : List UInt8}

/-- A parser that returns, and reads the same from a longer buffer. -/
theorem delimits_of_below {π ρ : Type} {parse : π → List UInt8 → Nat → Exec ρ} {packet : π}
    {result : ρ} (hrun : parse packet b b.length = .ok result)
    (hbelow : Below (parse packet b b.length) (parse packet (b ++ r) (b.length + r.length))) :
    Delimits parse packet b r :=
  ⟨result, hrun, hbelow result hrun⟩

/-! ## Sender and receiver reports -/

theorem report_delimits {φ : Type} {k : Kind φ} (h : Whole k b)
    (hlt : b.length + r.length < 2 ^ 64) (packet : ReportPacketT φ) :
    Delimits (parse k) packet b r := by
  obtain ⟨c, hfit, hb⟩ := h.exists_content
  have hsize : b.length = c.size k := by rw [hb, ReportPacket.length_encode]
  have halone := parse_encode packet hfit [] (Nat.le_of_eq hsize.symm) (by omega)
  have hbehind := parse_encode packet hfit r
    (show c.size k ≤ b.length + r.length by omega) hlt
  rw [List.append_nil, ← hb] at halone
  rw [← hb] at hbehind
  exact ⟨_, halone, hbehind⟩

/-! ## Source descriptions -/

section Sdes

/-- Items from an offset on, and the zero byte behind them. -/
inductive ItemList (buffer : List UInt8) : Nat → Nat → Prop where
  | zero {off : Nat} (hzero : buffer[off]? = some 0) : ItemList buffer off off
  | item {off last : Nat} {type length : UInt8} (htype : buffer[off]? = some type)
      (hne : type ≠ 0) (hlength : buffer[off + 1]? = some length)
      (hdata : off + 2 + length.toNat ≤ buffer.length)
      (hrest : ItemList buffer (off + 2 + length.toNat) last) : ItemList buffer off last

/-- The first chunks of a buffer, each a source and its items, and the offset behind them. -/
inductive Chunks (buffer : List UInt8) : Nat → Nat → Prop where
  | start : Chunks buffer 0 4
  | next {n off last : Nat} (hprev : Chunks buffer n off) (hid : off + 4 ≤ buffer.length)
      (hitems : ItemList buffer (off + 4) last) : Chunks buffer (n + 1) (entryEnd last)

/-- A source description as long as its header says, with as many chunks as it counts. -/
def SdesWhole (b : List UInt8) : Prop :=
  ¬ Refused RTCP_SDES b ∧ declared b = b.length ∧
    ∃ off, Chunks b (countOf b) off ∧ off ≤ b.length

/-- The items end at the zero byte, unless a type comes back before. -/
theorem ItemList.items {off last : Nat} (h : ItemList b off last) (seen : List UInt8) :
    Items b off seen (some last) ∨ Items b off seen none := by
  induction h generalizing seen with
  | zero hzero => exact .inl (.zero hzero)
  | @item off last type length htype hne hlength hdata hrest ih =>
    by_cases hseen : type ∈ seen
    · exact .inr (.twice htype hne hlength hseen)
    · rcases ih (seen ++ [type]) with hitems | hitems
      · exact .inl (.item htype hne hlength hseen hdata hitems)
      · exact .inr (.item htype hne hlength hseen hdata hitems)

theorem Chunks.entries {n off : Nat} (h : Chunks b n off) :
    Entries b n off ∨ ∃ m off', m < n ∧ Entries b m off' ∧ off' + 4 ≤ b.length ∧
      Items b (off' + 4) [] none := by
  induction h with
  | start => exact .inl .start
  | @next n off last hprev hid hitems ih =>
    rcases ih with hentries | ⟨m, off', hm, hrepeated⟩
    · rcases hitems.items [] with hitems | hitems
      · exact .inl (hentries.next hid hitems)
      · exact .inr ⟨n, off, Nat.lt_succ_self n, hentries, hid, hitems⟩
    · exact .inr ⟨m, off', Nat.lt_succ_of_lt hm, hrepeated⟩

variable {source : SdesEntry}

theorem createItem_append (type : UInt32) (off : Nat) (length : UInt8) :
    Below (createItem source type b off length) (createItem source type (b ++ r) off length) := by
  have hstore (itemCount : UInt8) (items : List SdesItem) :
      Below (storeItem source itemCount items type b off length)
        (storeItem source itemCount items type (b ++ r) off length) :=
    Below.bind (slice_append off _ r) fun _ => Below.refl _
  apply Below.bind (Below.refl _)
  intro found
  apply Below.ite (Below.refl _)
  apply Below.ite (hstore _ _)
  apply Below.ite (Below.refl _)
  exact Below.bind (Below.refl _) fun items => hstore _ _

theorem parseItem_append (s : Nat × SdesEntry) : Below (parseItem b s) (parseItem (b ++ r) s) := by
  apply Below.bind (load_append _ r)
  intro type
  apply Below.ite (Below.refl _)
  apply Below.bind (load_append _ r)
  intro length
  exact Below.bind (createItem_append _ _ _) fun _ => Below.refl _

theorem parseEntry_append (fuel n : Nat) (s : Nat × List SdesEntry) :
    Below (parseEntry fuel b n s) (parseEntry fuel (b ++ r) n s) := by
  apply Below.bind (readU32_append _ r)
  intro id
  exact Below.bind (Below.loopFuel parseItem_append _ _) fun _ => Below.refl _

theorem rtcpSdesParse_append (fuel : Nat) (packet : RtcpSdes) (hlen : 4 ≤ b.length) :
    Below (rtcpSdesParse fuel packet b b.length)
      (rtcpSdesParse fuel packet (b ++ r) (b.length + r.length)) := by
  apply Below.bind (rtcpHeaderParse_append _ r hlen (by omega))
  intro result
  apply Below.ite (Below.refl _)
  apply Below.ite _ (Below.refl _)
  exact Below.bind (Below.forLeave (parseEntry_append fuel) _ _) fun _ => Below.refl _

theorem sdes_delimits {fuel : Nat} (hfuel : 256 ≤ fuel) (h : SdesWhole b) (r : List UInt8)
    (packet : RtcpSdes) : Delimits (rtcpSdesParse fuel) packet b r := by
  obtain ⟨haccepted, -, off, hchunks, hin⟩ := h
  have hlen : 4 ≤ b.length := by
    rw [Refused] at haccepted
    omega
  have hbelow := rtcpSdesParse_append (r := r) fuel packet hlen
  rcases hchunks.entries with hentries | ⟨n, off', hrepeated⟩
  · obtain ⟨packet', hrun⟩ :=
      rtcpSdesParse_complete hfuel haccepted ⟨off, hentries, hin⟩ packet
    exact delimits_of_below hrun hbelow
  · obtain ⟨packet', hrun⟩ :=
      rtcpSdesParse_repeated hfuel haccepted ⟨n, off', hrepeated⟩ packet
    exact delimits_of_below hrun hbelow

end Sdes

/-! ## Application packets -/

/-- An application packet as long as its header says. -/
def AppWhole (b : List UInt8) : Prop :=
  ¬ Refused RTCP_APP b ∧ declared b = b.length ∧ 12 ≤ b.length

theorem rtcpAppParse_append (packet : RtcpApp) (hlen : 4 ≤ b.length) :
    Below (rtcpAppParse packet b b.length)
      (rtcpAppParse packet (b ++ r) (b.length + r.length)) := by
  apply Below.bind (rtcpHeaderParse_append _ r hlen (by omega))
  intro result
  apply Below.ite (Below.refl _)
  apply Below.bind (readU32_append 4 r)
  intro ssrc
  apply Below.bind (readU32_append 8 r)
  intro name
  apply Below.ite _ (Below.refl _)
  exact Below.bind (slice_append 12 _ r) fun _ => Below.refl _

theorem app_delimits (h : AppWhole b) (r : List UInt8) (packet : RtcpApp) :
    Delimits rtcpAppParse packet b r := by
  obtain ⟨-, hdeclared, hlen⟩ := h
  have hsafe : AppSafe b := appSafe_iff.mpr (.inr ⟨by omega, by omega⟩)
  obtain ⟨result, packet', hrun, -⟩ := hsafe packet
  exact delimits_of_below hrun (rtcpAppParse_append packet (by omega))

/-! ## Goodbye packets -/

/-- The offset behind the sources. -/
def sourcesEnd (b : List UInt8) : Nat := 4 + 4 * countOf b

/-- A goodbye packet as long as its header says, with its sources and, where there is more, a
message. -/
def ByeWhole (b : List UInt8) : Prop :=
  ¬ Refused RTCP_BYE b ∧ declared b = b.length ∧ sourcesEnd b ≤ b.length ∧
    (sourcesEnd b < b.length → ∃ length, b[sourcesEnd b]? = some length ∧
      sourcesEnd b + 1 + length.toNat ≤ b.length)

/-- The parser gets to what is left behind the sources. -/
theorem rtcpByeParse_accepted (h : ¬ Refused RTCP_BYE b) (hroom : sourcesEnd b ≤ b.length)
    (r : List UInt8) {size : Nat} (hsize : sourcesEnd b ≤ size) (packet : RtcpBye) :
    ∃ packet', rtcpByeParse packet (b ++ r) size
      = parseMessage packet' (b ++ r) size (sourcesEnd b) := by
  obtain ⟨header, hheader, hversion, hpt, hcount, -, -⟩ := rtcpHeaderParse_accepted h
  rw [sourcesEnd] at hroom hsize ⊢
  obtain ⟨ws, hws, hwords⟩ := exists_words (b.drop 4) (countOf b) (by rw [List.length_drop]; omega)
  have hb : b ++ r = headerBytes header ++ words ws ++ ((b.drop 4).drop (4 * countOf b) ++ r) := by
    rw [List.append_assoc (headerBytes header), ← List.append_assoc (words ws), ← hwords,
      ← List.append_assoc, ← hheader]
  obtain ⟨p, -, -, hparse⟩ := rtcpByeParse_sources packet size hversion hpt (hcount.trans hws.symm)
    ((b.drop 4).drop (4 * countOf b) ++ r) (by omega)
  rw [← hb, hws] at hparse
  exact ⟨_, hparse⟩

/-- Without a message and with nothing behind it, and only then. -/
theorem bye_delimits_iff (h : ByeWhole b) (packet : RtcpBye) :
    Delimits rtcpByeParse packet b r ↔ b.length = sourcesEnd b ∧ r = [] := by
  obtain ⟨haccepted, -, hroom, -⟩ := h
  obtain ⟨packet₁, halone⟩ := rtcpByeParse_accepted haccepted hroom [] hroom packet
  rw [List.append_nil] at halone
  constructor
  · rintro ⟨result, hrun, hrun'⟩
    have hend : b.length = sourcesEnd b := by
      by_contra hne
      rw [halone, parseMessage_fault packet₁ (by omega) (Nat.le_refl _)] at hrun
      cases hrun
    refine ⟨hend, ?_⟩
    by_contra hne
    have hpos := List.length_pos_of_ne_nil hne
    obtain ⟨packet₂, hbehind⟩ := rtcpByeParse_accepted haccepted hroom r
      (show sourcesEnd b ≤ b.length + r.length by omega) packet
    rw [hbehind, parseMessage_fault packet₂ (by omega)
      (by rw [List.length_append])] at hrun'
    cases hrun'
  · rintro ⟨hend, rfl⟩
    rw [parseMessage_none packet₁ (by omega)] at halone
    exact ⟨_, halone, by rw [List.append_nil, List.length_nil, Nat.add_zero, halone]⟩

/-! ## All five types -/

/-- The parsers of SR, RR, SDES and APP are delimited by the header of a well-formed packet; that
of BYE only without a message and with nothing behind the packet. -/
theorem parsers_delimit_iff (b r : List UInt8) (fuel : Nat) (sr : ReportPacketT SrFields)
    (rr : ReportPacketT RrFields) (sdes : RtcpSdes) (bye : RtcpBye) (app : RtcpApp)
    (hlt : b.length + r.length < 2 ^ 64) (hfuel : 256 ≤ fuel) :
    (Whole srKind b → Delimits rtcpSrParse sr b r) ∧
    (Whole rrKind b → Delimits rtcpRrParse rr b r) ∧
    (SdesWhole b → Delimits (rtcpSdesParse fuel) sdes b r) ∧
    (ByeWhole b → (Delimits rtcpByeParse bye b r ↔ b.length = sourcesEnd b ∧ r = [])) ∧
    (AppWhole b → Delimits rtcpAppParse app b r) := by
  refine ⟨?_, ?_, ?_, ?_, ?_⟩
  · exact fun h => report_delimits h hlt sr
  · exact fun h => report_delimits h hlt rr
  · exact fun h => sdes_delimits hfuel h r sdes
  · exact fun h => bye_delimits_iff h bye
  · exact fun h => app_delimits h r app

/-- One packet of each type in front of a goodbye packet of one source: the reports with a report
and a word of extension, the source description with a source that has an item. -/
theorem parsers_delimit_compound :
    Delimits rtcpSrParse rtcpSrCreate ([0x81, 200, 0, 13, 0, 0, 0, 7] ++ List.replicate 48 5)
      [0x81, 203, 0, 1, 0, 0, 0, 7] ∧
    Delimits rtcpRrParse rtcpRrCreate ([0x81, 201, 0, 8, 0, 0, 0, 7] ++ List.replicate 28 5)
      [0x81, 203, 0, 1, 0, 0, 0, 7] ∧
    Delimits (rtcpSdesParse 256) rtcpSdesCreate
      [0x81, 202, 0, 2, 0, 0, 0, 7, 1, 1, 65, 0] [0x81, 203, 0, 1, 0, 0, 0, 7] ∧
    ¬ Delimits rtcpByeParse rtcpByeCreate [0x81, 203, 0, 1, 0, 0, 0, 7]
      [0x81, 203, 0, 1, 0, 0, 0, 7] ∧
    Delimits rtcpAppParse rtcpAppCreate
      [0x81, 204, 0, 3, 0, 0, 0, 7, 65, 66, 67, 68, 1, 2, 3, 4] [0x81, 203, 0, 1, 0, 0, 0, 7] := by
  have hdelimit (b : List UInt8) (hlt : b.length + 8 < 2 ^ 64) :=
    parsers_delimit_iff b [0x81, 203, 0, 1, 0, 0, 0, 7] 256 rtcpSrCreate rtcpRrCreate
      rtcpSdesCreate rtcpByeCreate rtcpAppCreate hlt (Nat.le_refl 256)
  have hitems : ItemList [0x81, 202, 0, 2, 0, 0, 0, 7, 1, 1, 65, 0] 8 11 :=
    .item rfl (by decide) rfl (by decide) (.zero rfl)
  have hchunks : Chunks [0x81, 202, 0, 2, 0, 0, 0, 7, 1, 1, 65, 0] 1 12 :=
    .next .start (by decide) hitems
  refine ⟨?_, ?_, ?_, ?_, ?_⟩
  · exact (hdelimit _ (by decide)).1 ⟨by decide, by decide, by decide, by decide⟩
  · exact (hdelimit _ (by decide)).2.1 ⟨by decide, by decide, by decide, by decide⟩
  · exact (hdelimit _ (by decide)).2.2.1 ⟨by decide, by decide, 12, hchunks, Nat.le_refl 12⟩
  · intro h
    have hboth := ((hdelimit _ (by decide)).2.2.2.1
      ⟨by decide, by decide, by decide, fun h => absurd h (by decide)⟩).mp h
    cases hboth.2
  · exact (hdelimit _ (by decide)).2.2.2.2 ⟨by decide, by decide, by decide⟩

/-- A goodbye packet of one source in front of a receiver report. -/
theorem parsers_delimit_fails :
    ByeWhole [0x81, 203, 0, 1, 0, 0, 0, 7] ∧
      ¬ Delimits rtcpByeParse rtcpByeCreate [0x81, 203, 0, 1, 0, 0, 0, 7]
        [0x80, 201, 0, 1, 0, 0, 0, 7] := by
  have hwhole : ByeWhole [0x81, 203, 0, 1, 0, 0, 0, 7] :=
    ⟨by decide, by decide, by decide, fun h => absurd h (by decide)⟩
  refine ⟨hwhole, fun h => ?_⟩
  have hboth := (bye_delimits_iff hwhole rtcpByeCreate).mp h
  cases hboth.2

end RtpSdr.Rtp.Compound
