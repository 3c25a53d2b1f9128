import Mathlib.Data.Finset.Card
import RtpSdr.Rtp.Bye
import RtpSdr.Rtp.SdesEdit
import RtpSdr.Rtp.SrRr

/-!
# How many entries a packet holds

The four functions that add an entry, under one law. A call that is refused changes
nothing and one that is not appends its entry, until the count of five bits has reached
thirty-one; the next new key makes it zero and stores in front of the array.
-/
namespace RtpSdr.Rtp.EntryCount

open RtpSdr.Lib.Checked
open RtpSdr.Lib.Memory
open RtpSdr.Rtp.RtcpHeader
open RtpSdr.Rtp.EntryList

/-- A type of packets with a list of entries. `π` are its packets, `ε` what the adding function
is given, `α` the entries it stores and `κ` their keys. -/
structure EntryKind (π ε α κ : Type) [DecidableEq κ] where
  /-- A packet after create and init. -/
  start : π
  add : π → ε → Exec (Int × π)
  count : π → BitVec 5
  entries : π → Ptr (List α)
  stored : ε → α
  key : α → κ
  fresh : α
  /-- What the adding function needs of the rest of the packet. -/
  Ready : π → Prop
  start_ready : Ready start
  start_count : count start = 0
  /-- The function is `addEntry`: refused, -/
  add_none : ∀ packet e, Ready packet →
    addEntry (count packet) (entries packet) fresh (fun x => key x == key (stored e)) (stored e)
      = .ok none → add packet e = .ok (RTCP_ERROR, packet)
  /-- or with a longer list, -/
  add_some : ∀ packet e c xs, Ready packet →
    addEntry (count packet) (entries packet) fresh (fun x => key x == key (stored e)) (stored e)
      = .ok (some (c, xs)) →
    ∃ packet', add packet e = .ok (RTCP_OK, packet') ∧ Ready packet' ∧ count packet' = c ∧
      entries packet' = .obj xs
  /-- or stopped. -/
  add_error : ∀ packet e f, Ready packet →
    addEntry (count packet) (entries packet) fresh (fun x => key x == key (stored e)) (stored e)
      = .error f → add packet e = .error f

section Law

variable {π ε α κ : Type} [DecidableEq κ] (T : EntryKind π ε α κ)

/-- From a packet that holds `xs`, every call appends exactly its entry and returns OK, or,
when its key is present or 31 entries are held, returns an error and leaves the packet
unchanged. Meanwhile the count is the number of entries, and the keys are distinct. -/
def Respects : π → List α → List ε → Prop
  | packet, xs, [] => Held (T.count packet) (T.entries packet) xs ∧ (xs.map T.key).Nodup
  | packet, xs, e :: es =>
    Held (T.count packet) (T.entries packet) xs ∧ (xs.map T.key).Nodup ∧
      ∃ r packet', T.add packet e = .ok (r, packet') ∧
        if T.key (T.stored e) ∈ xs.map T.key ∨ xs.length = 31 then
          r = RTCP_ERROR ∧ packet' = packet ∧ Respects packet' xs es
        else r = RTCP_OK ∧ Respects packet' (xs ++ [T.stored e]) es

/-- The different keys among some entries and those that calls bring. -/
def keys (xs : List α) (es : List ε) : Finset κ :=
  (xs.map T.key ++ es.map fun e => T.key (T.stored e)).toFinset

variable {T} {packet : π} {xs : List α} {e : ε} {es : List ε}

theorem keys_present (hin : T.key (T.stored e) ∈ xs.map T.key) :
    keys T xs (e :: es) = keys T xs es := by
  ext k
  simp only [keys, List.mem_toFinset, List.mem_append, List.map_cons, List.mem_cons]
  constructor
  · rintro (h | rfl | h)
    · exact .inl h
    · exact .inl hin
    · exact .inr h
  · rintro (h | h)
    · exact .inl h
    · exact .inr (.inr h)

theorem keys_append : keys T xs (e :: es) = keys T (xs ++ [T.stored e]) es := by
  rw [keys, keys, List.map_append, List.map_cons, List.append_assoc]
  rfl

/-- Distinct keys are all counted. -/
theorem length_le_card (es : List ε) (hnodup : (xs.map T.key).Nodup) :
    xs.length ≤ (keys T xs es).card := by
  have hsub : (xs.map T.key).toFinset ⊆ keys T xs es := by
    intro k hk
    rw [List.mem_toFinset] at hk
    rw [keys, List.mem_toFinset]
    exact List.mem_append_left _ hk
  have hcard := Finset.card_le_card hsub
  rwa [List.toFinset_card_of_nodup hnodup, List.length_map] at hcard

theorem exists_key_iff :
    (∃ x ∈ xs, (T.key x == T.key (T.stored e)) = true) ↔ T.key (T.stored e) ∈ xs.map T.key := by
  simp only [beq_iff_eq, List.mem_map]

/-- A call on a key that is present. -/
theorem respects_present (hready : T.Ready packet)
    (hheld : Held (T.count packet) (T.entries packet) xs) (hnodup : (xs.map T.key).Nodup)
    (hin : T.key (T.stored e) ∈ xs.map T.key) :
    Respects T packet xs (e :: es) ↔ Respects T packet xs es := by
  have hadd := T.add_none packet e hready
    (addEntry_present hheld (by decide) (exists_key_iff.mpr hin))
  rw [Respects]
  constructor
  · rintro ⟨-, -, r, packet', hrun, hrest⟩
    rw [if_pos (.inl hin)] at hrest
    rw [← hrest.2.1]
    exact hrest.2.2
  · intro hrest
    refine ⟨hheld, hnodup, RTCP_ERROR, packet, hadd, ?_⟩
    rw [if_pos (.inl hin)]
    exact ⟨rfl, rfl, hrest⟩

/-- The thirty-second key stops the call. -/
theorem not_respects_full (hready : T.Ready packet)
    (hheld : Held (T.count packet) (T.entries packet) xs)
    (hin : T.key (T.stored e) ∉ xs.map T.key) (hfull : xs.length = 31) :
    ¬ Respects T packet xs (e :: es) := by
  have hadd := T.add_error packet e _ hready
    (addEntry_full hheld (by decide) (by decide) (by omega) (mt exists_key_iff.mp hin))
  rw [Respects]
  rintro ⟨-, -, r, packet', hrun, -⟩
  rw [hadd] at hrun
  cases hrun

/-- A call that appends its entry. -/
theorem respects_new (hready : T.Ready packet)
    (hheld : Held (T.count packet) (T.entries packet) xs) (hnodup : (xs.map T.key).Nodup)
    (hin : T.key (T.stored e) ∉ xs.map T.key) (hfull : xs.length ≠ 31) :
    ∃ packet', T.Ready packet' ∧
      Held (T.count packet') (T.entries packet') (xs ++ [T.stored e]) ∧
      (Respects T packet xs (e :: es) ↔ Respects T packet' (xs ++ [T.stored e]) es) := by
  have hle := hheld.length_le
  obtain ⟨c, hentry, hheld'⟩ := addEntry_new hheld (by decide) T.fresh (T.stored e) (by omega)
    (mt exists_key_iff.mp hin)
  obtain ⟨packet', hadd, hready', hcount, hentries⟩ := T.add_some packet e c _ hready hentry
  rw [← hcount, ← hentries] at hheld'
  have hcond : ¬ (T.key (T.stored e) ∈ xs.map T.key ∨ xs.length = 31) := by
    rintro (h | h)
    · exact hin h
    · exact hfull h
  refine ⟨packet', hready', hheld', ?_⟩
  rw [Respects]
  constructor
  · rintro ⟨-, -, r, packet₁, hrun, hrest⟩
    obtain ⟨rfl, rfl⟩ := Prod.mk.inj (Except.ok.inj (hrun.symm.trans hadd))
    rw [if_neg hcond] at hrest
    exact hrest.2
  · intro hrest
    refine ⟨hheld, hnodup, RTCP_OK, packet', hadd, ?_⟩
    rw [if_neg hcond]
    exact ⟨rfl, hrest⟩

theorem respects_iff (es : List ε) (hready : T.Ready packet)
    (hheld : Held (T.count packet) (T.entries packet) xs) (hnodup : (xs.map T.key).Nodup) :
    Respects T packet xs es ↔ (keys T xs es).card ≤ 31 := by
  induction es generalizing packet xs with
  | nil =>
    have hcard : (keys T xs ([] : List ε)).card ≤ 31 := by
      rw [keys, List.map_nil, List.append_nil, List.toFinset_card_of_nodup hnodup, List.length_map]
      exact hheld.length_le
    exact ⟨fun _ => hcard, fun _ => ⟨hheld, hnodup⟩⟩
  | cons e es ih =>
    by_cases hin : T.key (T.stored e) ∈ xs.map T.key
    · rw [respects_present hready hheld hnodup hin, keys_present hin]
      exact ih hready hheld hnodup
    · have hnodup' : ((xs ++ [T.stored e]).map T.key).Nodup := by
        rw [List.map_append, List.map_singleton, ← List.concat_eq_append]
        exact hnodup.concat hin
      rw [keys_append]
      by_cases hfull : xs.length = 31
      · have hcard := length_le_card es hnodup'
        rw [List.length_append, List.length_singleton] at hcard
        exact iff_of_false (not_respects_full hready hheld hin hfull) (by omega)
      · obtain ⟨packet', hready', hheld', hiff⟩ := respects_new hready hheld hnodup hin hfull
        rw [hiff]
        exact ih hready' hheld' hnodup'

end Law

/-! ## The four types -/

section Reports

open RtpSdr.Rtp.RtcpReport RtpSdr.Rtp.ReportPacket RtpSdr.Rtp.ReportHistory

variable {φ : Type} (k : Kind φ)

/-- `add_report` is one of the family. -/
theorem addReport_eq (packet : ReportPacketT φ) (report : RtcpReportT) :
    addReport k packet report = (do
      let added ← addEntry packet.header.count packet.reports zeroReport
        (fun r => r.ssrc == report.ssrc) report
      match added with
      | none => .ok (RTCP_ERROR, packet)
      | some (count, reports) => .ok (RTCP_OK, updateLength k { packet with
          header := { packet.header with count := count }, reports := .obj reports })) := by
  rw [addReport, addEntry]
  by_cases hzero : packet.header.count = 0
  · rw [if_pos hzero, if_pos hzero]
    simp only [bind_assoc, ok_bind]
    rfl
  · rw [if_neg hzero, if_neg hzero]
    by_cases hfull : packet.header.count.toNat = 0xff
    · rw [if_pos hfull, if_pos hfull]
      rfl
    · rw [if_neg hfull, if_neg hfull, findReport, bind_assoc]
      refine bind_congr fun found => ?_
      cases found with
      | some i => rfl
      | none =>
        rw [if_neg (by decide), if_neg (by decide)]
        simp only [bind_assoc, ok_bind]
        rfl

def reportKind : EntryKind (ReportPacketT φ) RtcpReportT RtcpReportT UInt32 where
  start := init k (create k)
  add := addReport k
  count packet := packet.header.count
  entries packet := packet.reports
  stored report := report
  key report := report.ssrc
  fresh := zeroReport
  Ready _ := True
  start_ready := trivial
  start_count := rfl
  add_none packet report _ h := by rw [addReport_eq, bind_of_ok h]
  add_some packet report count reports _ h := by
    rw [addReport_eq, bind_of_ok h]
    exact ⟨_, rfl, trivial, by rw [updateLength, withLength_count],
      by rw [updateLength, withLength_reports]⟩
  add_error packet report f _ h := by rw [addReport_eq, h, error_bind]

end Reports

section Sources

open RtpSdr.Rtp.Bye

/-- Without a message, the size is known. -/
theorem updateLength_ok (packet : RtcpBye) (h : packet.message = .null) :
    updateLength packet = .ok (withLength packet
      (UInt16.ofNat (sizeSub ((4 + packet.header.count.toNat * 4) / 4) 1))) := by
  have hsize : rtcpByeSize packet = .ok (4 + packet.header.count.toNat * 4) := by
    rw [rtcpByeSize, h, if_neg (by decide)]
  rw [updateLength, bind_of_ok hsize]

def byeKind : EntryKind RtcpBye UInt32 UInt32 UInt32 where
  start := rtcpByeInit rtcpByeCreate
  add := rtcpByeAddSource
  count packet := packet.header.count
  entries packet := packet.srcIds
  stored srcId := srcId
  key srcId := srcId
  fresh := 0
  Ready packet := packet.message = .null
  start_ready := rfl
  start_count := rfl
  add_none packet srcId _ h := by rw [rtcpByeAddSource, bind_of_ok h]
  add_some packet srcId count srcIds hready h := by
    have hupdate := updateLength_ok { packet with
      header := { packet.header with count := count }, srcIds := .obj srcIds } hready
    rw [rtcpByeAddSource, bind_of_ok h]
    dsimp only
    rw [bind_of_ok hupdate]
    exact ⟨_, rfl, by rwa [withLength_message], by rw [withLength_count], by rw [withLength_srcIds]⟩
  add_error packet srcId f _ h := by rw [rtcpByeAddSource, h, error_bind]

end Sources

section Descriptions

open RtpSdr.Rtp.Sdes RtpSdr.Rtp.SdesEdit

def sdesKind : EntryKind RtcpSdes UInt32 SdesEntry UInt32 where
  start := rtcpSdesInit rtcpSdesCreate
  add := rtcpSdesAddEntry
  count packet := packet.header.count
  entries packet := packet.srcs
  stored id := ⟨id, 0, .null⟩
  key source := source.id
  fresh := emptyEntry
  Ready _ := True
  start_ready := trivial
  start_count := rfl
  add_none packet id _ h := by rw [rtcpSdesAddEntry, bind_of_ok h]
  add_some packet id count srcs _ h := by
    rw [rtcpSdesAddEntry, bind_of_ok h]
    exact ⟨_, rfl, trivial, rfl, rfl⟩
  add_error packet id f _ h := by rw [rtcpSdesAddEntry, h, error_bind]

end Descriptions

/-- Respect for the law from create and init on. -/
theorem respects_start {π ε α κ : Type} [DecidableEq κ] (T : EntryKind π ε α κ) (es : List ε) :
    Respects T T.start [] es ↔ (es.map fun e => T.key (T.stored e)).toFinset.card ≤ 31 := by
  have hheld : Held (T.count T.start) (T.entries T.start) [] := by
    rw [T.start_count]
    exact held_nil _
  exact respects_iff es T.start_ready hheld List.nodup_nil

section AllTypes

open RtpSdr.Rtp.RtcpReport RtpSdr.Rtp.ReportPacket RtpSdr.Rtp.SrRr RtpSdr.Rtp.Bye
open RtpSdr.Rtp.Sdes RtpSdr.Rtp.SdesEdit

/-- The entry lists of all four types respect the law exactly as long as the calls bring at
most 31 different keys. -/
theorem entryLists_respect_iff (reports : List RtcpReportT) (srcIds ids : List UInt32) :
    (Respects (reportKind srKind) (rtcpSrInit rtcpSrCreate) [] reports ↔
      (reports.map (·.ssrc)).toFinset.card ≤ 31) ∧
    (Respects (reportKind rrKind) (rtcpRrInit rtcpRrCreate) [] reports ↔
      (reports.map (·.ssrc)).toFinset.card ≤ 31) ∧
    (Respects byeKind (rtcpByeInit rtcpByeCreate) [] srcIds ↔ srcIds.toFinset.card ≤ 31) ∧
    (Respects sdesKind (rtcpSdesInit rtcpSdesCreate) [] ids ↔ ids.toFinset.card ≤ 31) := by
  refine ⟨?_, ?_, ?_, ?_⟩
  · exact respects_start (reportKind srKind) reports
  · exact respects_start (reportKind rrKind) reports
  · have hkeys : (srcIds.map fun e => byeKind.key (byeKind.stored e)) = srcIds := List.map_id _
    have hiff := respects_start byeKind srcIds
    rwa [hkeys] at hiff
  · have hkeys : (ids.map fun e => sdesKind.key (sdesKind.stored e)) = ids := List.map_id _
    have hiff := respects_start sdesKind ids
    rwa [hkeys] at hiff

/-- Thirty-two different sources are one too many. -/
theorem thirtyTwo_sources :
    ¬ Respects byeKind (rtcpByeInit rtcpByeCreate) [] ((List.range 32).map UInt32.ofNat) := by
  have hiff := respects_start byeKind ((List.range 32).map UInt32.ofNat)
  intro h
  exact absurd (hiff.mp h) (by decide)

end AllTypes

end RtpSdr.Rtp.EntryCount
