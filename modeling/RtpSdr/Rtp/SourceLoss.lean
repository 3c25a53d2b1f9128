import RtpSdr.Rtp.Resync

/-!
# Loss statistics

`rtp_source_update_lost` compares the packets expected with those received, both since
the last reset and since the last report. The observer keeps the source as the last
report saw it and counts the wraps of the sequence numbers, which `cycles` does only
modulo `2 ^ 16`.
-/
namespace RtpSdr.Rtp.SourceLoss

open RtpSdr.Lib.Checked
open RtpSdr.Rtp.Util
open RtpSdr.Rtp.Source
open RtpSdr.Rtp.Resync

/-- `ntp_tv`. -/
structure NtpTv where
  sec : UInt32
  frac : UInt32
deriving DecidableEq, Repr

/-- `rtp_source` with what a report is made of; `lost` is the signed bit-field. -/
structure RtpSourceT extends RtpSource where
  jitter : Float
  fraction : UInt8
  lost : BitVec 24
  lsr : NtpTv

section Source

/-- The packets expected and those lost, then the fraction. A shift that leaves the range of
`int` is an overflow, the bit-field keeps 24 bits of what is stored. -/
def rtpSourceUpdateLost (s : RtpSourceT) : Exec RtpSourceT := do
  let extMax := s.cycles + s.maxSeq.toUInt32
  let expected := castInt (extMax - s.baseSeq + 1).toNat
  let expectedInterval ← int32 (expected - s.expectedPrior)
  let receivedInterval ← int32 (s.received - s.receivedPrior)
  let lostInterval ← int32 (expectedInterval - receivedInterval)
  let lost ← int32 (expected - s.received)
  let s := { s with
    lost := BitVec.ofInt 24 lost, expectedPrior := expected, receivedPrior := s.received }
  if expectedInterval = 0 ∨ lostInterval ≤ 0 then .ok { s with fraction := 0 }
  else do
    let shifted ← int32 (lostInterval * 2 ^ 8)
    .ok { s with fraction := UInt8.ofInt (shifted.tdiv expectedInterval) }

end Source

/-- The packets expected since the reset: `cycles + max_seq - base_seq + 1`. -/
def expectedCount (s : RtpSource) : Int :=
  s.cycles.toNat + s.maxSeq.toNat - s.baseSeq.toNat + 1

/-! ## The observer -/

inductive Call where
  | updateSeq (seq : UInt16)
  | updateLost

/-- What happened since the last reset. -/
structure Since where
  /-- How often `cycles` was raised. -/
  wraps : Nat
  /-- The source before the last update of the statistics. -/
  reported : Option RtpSource

/-- A call on `s` that returned `r` and left `s'`. -/
def Since.note (b : Since) (s : RtpSource) (seq : UInt16) (r : Int) (s' : RtpSource) : Since :=
  if r = RTP_OK ∧ Restarted s seq s' then ⟨0, none⟩
  else if s'.cycles = s.cycles then b
  else { b with wraps := b.wraps + 1 }

/-- A call under the eyes of the observer. -/
def watch (x : RtpSourceT × Since) : Call → Exec (RtpSourceT × Since)
  | .updateSeq seq => do
    let (r, s') ← rtpSourceUpdateSeq x.1.toRtpSource seq
    .ok ({ x.1 with toRtpSource := s' }, x.2.note x.1.toRtpSource seq r s')
  | .updateLost => do
    let s' ← rtpSourceUpdateLost x.1
    .ok (s', { x.2 with reported := some x.1.toRtpSource })

/-- A source just initialised, nothing observed. -/
def start (s : RtpSourceT) (id : UInt32) (first : UInt16) : RtpSourceT × Since :=
  ({ s with toRtpSource := rtpSourceInit s.toRtpSource id first }, ⟨0, none⟩)

/-- The packets expected since the last update, or since the reset if there was none. -/
def expectedSince (s : RtpSource) (b : Since) : Int :=
  expectedCount s - (b.reported.map expectedCount).getD 0

/-- The packets received since then. -/
def receivedSince (s : RtpSource) (b : Since) : Int :=
  s.received - (b.reported.map (·.received)).getD 0

/-! ## What the update does -/

/-- The modular difference is the integer one, as long as that is an `int`. -/
theorem castInt_expected {s : RtpSource} (hlow : -2 ^ 31 ≤ expectedCount s)
    (hhigh : expectedCount s < 2 ^ 31) :
    castInt (s.cycles + s.maxSeq.toUInt32 - s.baseSeq + 1).toNat = expectedCount s := by
  rw [expectedCount] at hlow hhigh ⊢
  have hbase := s.baseSeq.toNat_lt
  have hnat : (s.cycles + s.maxSeq.toUInt32 - s.baseSeq + 1).toNat
      = ((2 ^ 32 - s.baseSeq.toNat + (s.cycles.toNat + s.maxSeq.toNat) % 2 ^ 32) % 2 ^ 32 + 1)
        % 2 ^ 32 := by
    rw [UInt32.toNat_add, UInt32.toNat_sub, UInt32.toNat_add, UInt16.toNat_toUInt32]
    rfl
  rw [hnat]
  unfold castInt
  omega

/-- The update changes nothing that later packets look at. -/
theorem updateLost_prior {s s' : RtpSourceT} (h : rtpSourceUpdateLost s = .ok s') :
    s'.toRtpSource = { s.toRtpSource with
      expectedPrior := castInt (s.cycles + s.maxSeq.toUInt32 - s.baseSeq + 1).toNat
      receivedPrior := s.received } := by
  obtain ⟨expectedInterval, -, h⟩ := bind_eq_ok.mp h
  obtain ⟨receivedInterval, -, h⟩ := bind_eq_ok.mp h
  obtain ⟨lostInterval, -, h⟩ := bind_eq_ok.mp h
  obtain ⟨lost, -, h⟩ := bind_eq_ok.mp h
  dsimp only at h
  split at h
  · cases h
    rfl
  · obtain ⟨shifted, -, h⟩ := bind_eq_ok.mp h
    cases h
    rfl

/-! ## The history of a validated source -/

/-- The highest number, the wraps before it counted without end. -/
def highest (wraps : Nat) (s : RtpSource) : Nat := LIBRTP_SEQ_MOD * wraps + s.maxSeq.toNat

theorem highest_congr {s t : RtpSource} (h : s.maxSeq = t.maxSeq) (wraps : Nat) :
    highest wraps s = highest wraps t := by rw [highest, highest, h]

/-- The source counts from its base, and `cycles` follows the wraps. -/
structure Counts (s : RtpSource) (wraps : Nat) : Prop where
  received : 1 ≤ s.received
  cycles : s.cycles.toNat = LIBRTP_SEQ_MOD * wraps % 2 ^ 32
  base : s.baseSeq.toNat ≤ highest wraps s

/-- `s` is `t` some packets later. -/
structure Later (t : RtpSource) (w : Nat) (s : RtpSource) (wraps : Nat) : Prop where
  baseSeq : s.baseSeq = t.baseSeq
  ahead : highest w t ≤ highest wraps s
  received : t.received ≤ s.received
  idle : s.received = t.received → highest w t = highest wraps s

/-- What the update has kept is the source as the last report saw it. -/
structure Prior (t : RtpSource) (s : RtpSource) (wraps : Nat) : Prop where
  counts : ∃ w, Counts t w ∧ Later t w s wraps
  expected : s.expectedPrior = castInt (t.cycles + t.maxSeq.toUInt32 - t.baseSeq + 1).toNat
  received : s.receivedPrior = t.received

/-- A validated source and what the observer knows of it. -/
structure Follows (s : RtpSource) (b : Since) : Prop where
  counts : Counts s b.wraps
  fresh : b.reported = none → s.expectedPrior = 0 ∧ s.receivedPrior = 0
  prior : ∀ t, b.reported = some t → Prior t s b.wraps

theorem Later.trans {r s t : RtpSource} {u v w : Nat} (h : Later r u s v) (h' : Later s v t w) :
    Later r u t w := by
  constructor
  · exact h'.baseSeq.trans h.baseSeq
  · exact Nat.le_trans h.ahead h'.ahead
  · exact Int.le_trans h.received h'.received
  · intro hidle
    have hle := h.received
    have hle' := h'.received
    rw [h.idle (by omega), h'.idle (by omega)]

/-- A source with the numbers of another. -/
theorem Counts.congr {s s' : RtpSource} {wraps : Nat} (h : Counts s wraps)
    (hreceived : s.received ≤ s'.received) (hcycles : s'.cycles = s.cycles)
    (hbase : s'.baseSeq = s.baseSeq) (hmax : s'.maxSeq = s.maxSeq) : Counts s' wraps := by
  constructor
  · exact Int.le_trans h.received hreceived
  · rw [hcycles]
    exact h.cycles
  · rw [hbase, highest_congr hmax]
    exact h.base

theorem later_same {s s' : RtpSource} (hreceived : s.received ≤ s'.received)
    (hbase : s'.baseSeq = s.baseSeq) (hmax : s'.maxSeq = s.maxSeq) (wraps : Nat) :
    Later s wraps s' wraps := by
  have heq := highest_congr hmax wraps
  exact ⟨hbase, Nat.le_of_eq heq.symm, hreceived, fun _ => heq.symm⟩

/-- Packets keep what is known of the last report. -/
theorem follows_later {s s' : RtpSource} {b : Since} {wraps : Nat} (h : Follows s b)
    (hcounts : Counts s' wraps) (hlater : Later s b.wraps s' wraps)
    (hexpected : s'.expectedPrior = s.expectedPrior)
    (hreceived : s'.receivedPrior = s.receivedPrior) :
    Follows s' { b with wraps := wraps } := by
  refine ⟨hcounts, ?_, ?_⟩
  · intro hnone
    rw [hexpected, hreceived]
    exact h.fresh hnone
  · intro t hsome
    obtain ⟨⟨w, ht, hprior⟩, hexp, hrec⟩ := h.prior t hsome
    exact ⟨⟨w, ht, hprior.trans hlater⟩, hexpected.trans hexp, hreceived.trans hrec⟩

/-- A call that moves nothing forward. -/
theorem follows_same {s s' : RtpSource} {b : Since} (h : Follows s b)
    (hreceived : s.received ≤ s'.received) (hcycles : s'.cycles = s.cycles)
    (hbase : s'.baseSeq = s.baseSeq) (hmax : s'.maxSeq = s.maxSeq)
    (hexpectedPrior : s'.expectedPrior = s.expectedPrior)
    (hreceivedPrior : s'.receivedPrior = s.receivedPrior) : Follows s' b :=
  follows_later h (h.counts.congr hreceived hcycles hbase hmax)
    (later_same hreceived hbase hmax b.wraps) hexpectedPrior hreceivedPrior

theorem follows_restarted {s s' : RtpSource} {seq : UInt16} (h : Restarted s seq s') :
    Follows s' ⟨0, none⟩ := by
  rw [Restarted] at h
  rw [h]
  refine ⟨⟨Int.le_refl 1, rfl, ?_⟩, fun _ => ⟨rfl, rfl⟩, fun t hsome => ?_⟩
  · rw [highest, Nat.mul_zero, Nat.zero_add]
    exact Nat.le_of_eq (UInt16.toNat_toUInt32 seq)
  · cases hsome

/-- A number ahead of the highest one moves it on by their distance, over the wrap or not. -/
theorem highest_inOrder (s : RtpSource) (seq : UInt16) (wraps : Nat) :
    highest (if seq < s.maxSeq then wraps + 1 else wraps) { s with maxSeq := seq }
      = highest wraps s + udelta s seq := by
  have hseq := seq.toNat_lt
  have hmax := s.maxSeq.toNat_lt
  rw [highest, highest, udelta, UInt16.toNat_sub, LIBRTP_SEQ_MOD]
  dsimp only
  by_cases hwrap : seq < s.maxSeq
  · have hlt := UInt16.lt_iff_toNat_lt.mp hwrap
    rw [if_pos hwrap]
    omega
  · have hge := mt UInt16.lt_iff_toNat_lt.mpr hwrap
    rw [if_neg hwrap]
    omega

/-- The wraps that the observer counts are those that the source adds to `cycles`. -/
theorem note_inOrder {s s' : RtpSource} {seq : UInt16} (b : Since) (r : Int)
    (hcount : ¬ Restarted s seq s')
    (hs' : s'.cycles = if seq < s.maxSeq then s.cycles + UInt32.ofNat LIBRTP_SEQ_MOD
      else s.cycles) :
    b.note s seq r s' = { b with wraps := if seq < s.maxSeq then b.wraps + 1 else b.wraps } := by
  rw [Since.note, if_neg fun h => hcount h.2, hs']
  by_cases hwrap : seq < s.maxSeq
  · have hne : s.cycles + UInt32.ofNat LIBRTP_SEQ_MOD ≠ s.cycles := by
      intro heq
      have hnat := congrArg UInt32.toNat heq
      have hlt := s.cycles.toNat_lt
      rw [UInt32.toNat_add] at hnat
      change (s.cycles.toNat + 65536) % 2 ^ 32 = _ at hnat
      omega
    rw [if_pos hwrap, if_neg hne, if_pos hwrap]
  · rw [if_neg hwrap, if_pos rfl, if_neg hwrap]

/-- A call that raises nothing. -/
theorem note_same {s s' : RtpSource} {seq : UInt16} (b : Since) (r : Int)
    (hcount : ¬ (r = RTP_OK ∧ Restarted s seq s')) (hs' : s'.cycles = s.cycles) :
    b.note s seq r s' = b := by
  rw [Since.note, if_neg hcount, if_pos hs']

theorem counts_inOrder {s : RtpSource} {seq : UInt16} {wraps : Nat} (h : Counts s wraps) :
    Counts { s with
        cycles := if seq < s.maxSeq then s.cycles + UInt32.ofNat LIBRTP_SEQ_MOD else s.cycles
        maxSeq := seq
        received := s.received + 1 }
      (if seq < s.maxSeq then wraps + 1 else wraps) := by
  have hcycles := h.cycles
  rw [LIBRTP_SEQ_MOD] at hcycles
  constructor
  · exact Int.le_add_of_nonneg_left (Int.le_trans (by decide) h.received)
  · dsimp only
    by_cases hwrap : seq < s.maxSeq
    · rw [if_pos hwrap, if_pos hwrap, UInt32.toNat_add, LIBRTP_SEQ_MOD]
      change (s.cycles.toNat + 65536) % 2 ^ 32 = _
      omega
    · rw [if_neg hwrap, if_neg hwrap]
      exact h.cycles
  · have hhighest := highest_inOrder s seq wraps
    have hbase := h.base
    change s.baseSeq.toNat ≤ highest _ { s with maxSeq := seq }
    omega

/-- A packet on a validated source. -/
theorem updateSeq_follows {s s' : RtpSource} {b : Since} {seq : UInt16} {r : Int}
    (hvalid : s.probation ≤ 0) (h : Follows s b)
    (hcall : rtpSourceUpdateSeq s seq = .ok (r, s')) : Follows s' (b.note s seq r s') := by
  have hone := h.counts.received
  rcases updateSeq_valid hvalid hcall with
    ⟨-, hr, hs'⟩ | ⟨-, hr, hs'⟩ | ⟨-, -, hr, hs'⟩ | ⟨-, -, hr, hs'⟩
  · have hcount : ¬ Restarted s seq s' := not_restarted hone (by rw [hs'])
    have hhighest := highest_inOrder s seq b.wraps
    rw [note_inOrder b r hcount (by rw [hs']), hs']
    apply follows_later h (counts_inOrder h.counts) _ rfl rfl
    constructor
    · rfl
    · change highest b.wraps s ≤ highest _ { s with maxSeq := seq }
      omega
    · exact Int.le_add_one (Int.le_refl _)
    · intro hidle
      dsimp only at hidle
      omega
  · have hcount : ¬ Restarted s seq s' := not_restarted hone (by rw [hs'])
    have hle : s.received ≤ s'.received := by
      rw [hs']
      exact Int.le_add_one (Int.le_refl _)
    rw [note_same b r (fun h => hcount h.2) (by rw [hs'])]
    exact follows_same h hle (by rw [hs']) (by rw [hs']) (by rw [hs']) (by rw [hs']) (by rw [hs'])
  · have hrestart : Restarted s seq s' := by
      rw [Restarted, hs']
    rw [Since.note, if_pos ⟨hr, hrestart⟩]
    exact follows_restarted hrestart
  · have hcount : ¬ (r = RTP_OK ∧ Restarted s seq s') := by
      intro h
      rw [hr] at h
      cases h.1
    have hle : s.received ≤ s'.received := Int.le_of_eq (by rw [hs'])
    rw [note_same b r hcount (by rw [hs'])]
    exact follows_same h hle (by rw [hs']) (by rw [hs']) (by rw [hs']) (by rw [hs']) (by rw [hs'])

/-- The invariant of a run: nothing is asked of a source in probation. -/
def Watched (x : RtpSourceT × Since) : Prop :=
  x.1.probation ≤ 0 → Follows x.1.toRtpSource x.2

theorem watch_watched {x x' : RtpSourceT × Since} {c : Call} (h : Watched x)
    (hrun : watch x c = .ok x') : Watched x' := by
  cases c with
  | updateSeq seq =>
    obtain ⟨⟨r, s'⟩, hcall, hrun⟩ := bind_eq_ok.mp hrun
    cases hrun
    intro hvalid
    by_cases hprob : x.1.probation > 0
    · rcases updateSeq_probation hprob hcall with ⟨hr, hs'⟩ | ⟨-, hpos, -⟩
      · have hrestart : Restarted x.1.toRtpSource seq s' := by
          rw [Restarted, hs']
        rw [Since.note, if_pos ⟨hr, hrestart⟩]
        exact follows_restarted hrestart
      · exact absurd hvalid (Int.not_le.mpr hpos)
    · have hle := Int.not_lt.mp hprob
      exact updateSeq_follows hle (h hle) hcall
  | updateLost =>
    obtain ⟨s', hcall, hrun⟩ := bind_eq_ok.mp hrun
    cases hrun
    intro hvalid
    have hprior := updateLost_prior hcall
    generalize s'.toRtpSource = t at hprior hvalid ⊢
    rw [hprior] at hvalid
    have hcounts := (h hvalid).counts
    have hle : x.1.received ≤ t.received := Int.le_of_eq (by rw [hprior])
    refine ⟨hcounts.congr hle (by rw [hprior]) (by rw [hprior]) (by rw [hprior]),
      fun hnone => ?_, fun u hsome => ?_⟩
    · cases hnone
    · cases hsome
      refine ⟨⟨x.2.wraps, hcounts, ?_⟩, by rw [hprior], by rw [hprior]⟩
      exact later_same hle (by rw [hprior]) (by rw [hprior]) _

theorem watch_run {s₀ : RtpSourceT} {x : RtpSourceT × Since} (id : UInt32) (first : UInt16)
    (calls : List Call) (hrun : runAll watch (start s₀ id first) calls = .ok x) : Watched x := by
  refine runAll_history (I := fun _ x => Watched x) ?_
    (fun _ _ _ _ _ h hcall => watch_watched h hcall) calls hrun
  intro hvalid
  exact absurd hvalid (show ¬ LIBRTP_MIN_SEQUENTIAL ≤ 0 by decide)

/-! ## The statistics -/

/-- The fraction of the packets expected that did not come, in 256ths. -/
def fractionOf (expected received : Int) : Int :=
  if expected = 0 ∨ expected ≤ received then 0 else 256 * (expected - received) / expected

/-- The update returns, and its statistics are exact. -/
structure Exact (s : RtpSourceT) (b : Since) (s' : RtpSourceT) : Prop where
  returns : rtpSourceUpdateLost s = .ok s'
  lost : s'.lost.toInt = expectedCount s.toRtpSource - s.received
  expected : 0 ≤ expectedSince s.toRtpSource b
  received : 1 ≤ expectedSince s.toRtpSource b → 1 ≤ receivedSince s.toRtpSource b
  fraction : (s'.fraction.toNat : Int)
    = fractionOf (expectedSince s.toRtpSource b) (receivedSince s.toRtpSource b)
  bound : fractionOf (expectedSince s.toRtpSource b) (receivedSince s.toRtpSource b) ≤ 255

theorem fractionOf_bounds {e r : Int} (he : 0 ≤ e) (hr : 1 ≤ e → 1 ≤ r) :
    0 ≤ fractionOf e r ∧ fractionOf e r ≤ 255 := by
  rw [fractionOf]
  split
  · exact ⟨Int.le_refl 0, by decide⟩
  · rename_i h
    rw [not_or, Int.not_le] at h
    have hpos : 0 < e := by omega
    constructor
    · exact Int.ediv_nonneg (by omega) he
    · have hlt : 256 * (e - r) / e < 256 := Int.ediv_lt_of_lt_mul hpos (by omega)
      omega

/-- Before `cycles` wraps, the count is that of the numbers from the base to the highest. -/
theorem expectedCount_eq {s : RtpSource} {wraps : Nat} (h : Counts s wraps)
    (hwraps : wraps < 2 ^ 16) :
    expectedCount s = (highest wraps s : Int) - s.baseSeq.toNat + 1 := by
  have hcycles := h.cycles
  rw [LIBRTP_SEQ_MOD] at hcycles
  rw [expectedCount, highest, LIBRTP_SEQ_MOD]
  omega

theorem highest_wraps {s t : RtpSource} {w wraps : Nat} (h : highest w t ≤ highest wraps s) :
    w ≤ wraps := by
  have hlt := s.maxSeq.toNat_lt
  rw [highest, highest, LIBRTP_SEQ_MOD] at h
  omega

/-- The intervals of an update, the last one seen by the observer. -/
structure Intervals (s : RtpSource) (b : Since) : Prop where
  positive : 1 ≤ expectedCount s
  expectedPrior : expectedCount s - s.expectedPrior = expectedSince s b
  receivedPrior : s.received - s.receivedPrior = receivedSince s b
  expected : 0 ≤ expectedSince s b ∧ expectedSince s b ≤ expectedCount s
  received : 0 ≤ receivedSince s b ∧ receivedSince s b ≤ s.received
  moved : 1 ≤ expectedSince s b → 1 ≤ receivedSince s b

theorem intervals {s : RtpSource} {b : Since} (h : Follows s b) (hwraps : b.wraps < 2 ^ 16)
    (hexpected : expectedCount s < 2 ^ 31) : Intervals s b := by
  have hcount := expectedCount_eq h.counts hwraps
  have hbase := h.counts.base
  have hone := h.counts.received
  cases hreported : b.reported with
  | none =>
    obtain ⟨hexp, hrec⟩ := h.fresh hreported
    have he : expectedSince s b = expectedCount s := by
      rw [expectedSince, hreported]
      exact Int.sub_zero _
    have hr : receivedSince s b = s.received := by
      rw [receivedSince, hreported]
      exact Int.sub_zero _
    constructor
    · omega
    · omega
    · omega
    · omega
    · omega
    · omega
  | some t =>
    obtain ⟨⟨w, ht, hlater⟩, hexp, hrec⟩ := h.prior t hreported
    have hle := hlater.ahead
    have hw := highest_wraps hle
    have hprior := expectedCount_eq ht (by omega)
    have hsame := congrArg UInt32.toNat hlater.baseSeq
    have htbase := ht.base
    have htone := ht.received
    have hreceived := hlater.received
    have hidle := hlater.idle
    rw [castInt_expected (by omega) (by omega)] at hexp
    have he : expectedSince s b = expectedCount s - expectedCount t := by
      rw [expectedSince, hreported]
      rfl
    have hr : receivedSince s b = s.received - t.received := by
      rw [receivedSince, hreported]
      rfl
    constructor
    · omega
    · omega
    · omega
    · omega
    · omega
    · intro hpos
      by_contra hnone
      have := hidle (by omega)
      omega

/-- The update of a source whose intervals are `e` and `r`. -/
theorem updateLost_ok {s : RtpSourceT} {e r d : Int}
    (hd : expectedCount s.toRtpSource - s.received = d)
    (he : expectedCount s.toRtpSource - s.expectedPrior = e) (hr : s.received - s.receivedPrior = r)
    (hlow : -2 ^ 31 ≤ expectedCount s.toRtpSource) (hhigh : expectedCount s.toRtpSource < 2 ^ 31)
    (hds : -2 ^ 31 ≤ d ∧ d < 2 ^ 31) (hes : -2 ^ 31 ≤ e ∧ e < 2 ^ 31)
    (hrs : -2 ^ 31 ≤ r ∧ r < 2 ^ 31) (hers : -2 ^ 31 ≤ e - r ∧ e - r < 2 ^ 31) :
    rtpSourceUpdateLost s = (do
      let t := { s with
        lost := BitVec.ofInt 24 d
        expectedPrior := expectedCount s.toRtpSource
        receivedPrior := s.received }
      if e = 0 ∨ e - r ≤ 0 then .ok { t with fraction := 0 }
      else do
        let shifted ← int32 ((e - r) * 2 ^ 8)
        .ok { t with fraction := UInt8.ofInt (shifted.tdiv e) }) := by
  rw [rtpSourceUpdateLost]
  simp only [castInt_expected hlow hhigh, he, hr, hd, int32_of_lt hes.1 hes.2,
    int32_of_lt hrs.1 hrs.2, int32_of_lt hers.1 hers.2, int32_of_lt hds.1 hds.2, ok_bind]

theorem toInt_lost {d : Int} (hlow : -2 ^ 23 ≤ d) (hhigh : d < 2 ^ 23) :
    (BitVec.ofInt 24 d).toInt = d := by
  rw [BitVec.toInt_ofInt]
  exact Int.bmod_eq_of_le_mul_two (by omega) (by omega)

theorem toNat_fraction {q : Int} (hlow : 0 ≤ q) (hhigh : q ≤ 255) :
    ((UInt8.ofInt q).toNat : Int) = q := by
  rw [UInt8.ofInt, UInt8.toNat_ofNat']
  omega

theorem updateLost_exact {s : RtpSourceT} {b : Since} (h : Follows s.toRtpSource b)
    (hwraps : b.wraps < 2 ^ 16) (hexpected : expectedCount s.toRtpSource < 2 ^ 23)
    (hreceived : s.received < 2 ^ 23) : ∃ s', Exact s b s' := by
  have hi := intervals h hwraps (by omega)
  have hone := h.counts.received
  have hpos := hi.positive
  obtain ⟨he0, he1⟩ := hi.expected
  obtain ⟨hr0, hr1⟩ := hi.received
  have hbounds := fractionOf_bounds he0 hi.moved
  have hrun := updateLost_ok (s := s) rfl hi.expectedPrior hi.receivedPrior (by omega) (by omega)
    (by omega) (by omega) (by omega) (by omega)
  have hlost := toInt_lost (d := expectedCount s.toRtpSource - s.received) (by omega) (by omega)
  dsimp only at hrun
  by_cases hnone : expectedSince s.toRtpSource b = 0 ∨
      expectedSince s.toRtpSource b ≤ receivedSince s.toRtpSource b
  · rw [if_pos (by omega)] at hrun
    refine ⟨_, hrun, hlost, he0, hi.moved, ?_, hbounds.2⟩
    rw [fractionOf, if_pos hnone]
    rfl
  · have hsome := not_or.mp hnone
    rw [if_neg (by omega), int32_of_lt (by omega) (by omega), ok_bind] at hrun
    refine ⟨_, hrun, hlost, he0, hi.moved, ?_, hbounds.2⟩
    rw [fractionOf, if_neg hnone] at hbounds ⊢
    have hdiv : ((expectedSince s.toRtpSource b - receivedSince s.toRtpSource b) * 2 ^ 8).tdiv
          (expectedSince s.toRtpSource b)
        = 256 * (expectedSince s.toRtpSource b - receivedSince s.toRtpSource b)
          / expectedSince s.toRtpSource b := by
      rw [Int.tdiv_eq_ediv_of_nonneg (by omega), Int.mul_comm]
      rfl
    dsimp only
    rw [hdiv]
    exact toNat_fraction hbounds.1 hbounds.2

/-- Whatever packets came and whenever the statistics were updated, the next update of a validated
source is exact, as long as `cycles` has not wrapped and both counts are below `2 ^ 23`. -/
theorem statistics_exact {s₀ s : RtpSourceT} {b : Since} (id : UInt32) (first : UInt16)
    (calls : List Call) (hrun : runAll watch (start s₀ id first) calls = .ok (s, b))
    (hvalid : s.probation = 0) (hwraps : b.wraps < 2 ^ 16)
    (hexpected : expectedCount s.toRtpSource < 2 ^ 23) (hreceived : s.received < 2 ^ 23) :
    ∃ s', Exact s b s' :=
  updateLost_exact (watch_run id first calls hrun (Int.le_of_eq hvalid)) hwraps hexpected hreceived

/-- A new source. -/
def created : RtpSourceT := ⟨rtpSourceCreate, 0, 0, 0, ⟨0, 0⟩⟩

/-- The new source after the numbers 100 and 101. -/
def validated : RtpSource :=
  { rtpSourceResetSeq (rtpSourceInit rtpSourceCreate 7 100) 101 with probation := 0, received := 1 }

/-- A report, and then one of three packets is lost. -/
theorem run_gap : runAll watch (start created 7 100)
      [.updateSeq 100, .updateSeq 101, .updateLost, .updateSeq 102, .updateSeq 104]
    = .ok ({ created with toRtpSource := { validated with
        maxSeq := 104, received := 3, expectedPrior := 1, receivedPrior := 1 } },
      ⟨0, some validated⟩) := by
  have hvalid : runAll watch (start created 7 100) [.updateSeq 100, .updateSeq 101]
      = .ok ({ created with toRtpSource := validated }, ⟨0, none⟩) := rfl
  have hlost := updateLost_ok (s := { created with toRtpSource := validated }) (e := 1) (r := 1)
    (d := 0) rfl rfl rfl (by decide) (by decide) (by decide) (by decide) (by decide) (by decide)
  have hreport : watch ({ created with toRtpSource := validated }, ⟨0, none⟩) .updateLost
      = .ok ({ created with toRtpSource := { validated with
          expectedPrior := 1, receivedPrior := 1 } }, ⟨0, some validated⟩) := by
    rw [watch, hlost]
    rfl
  exact (runAll_append _ hvalid).trans ((runAll_cons _ _ _).trans (bind_of_ok hreport))

theorem statistics_exact_gap :
    ∃ s', Exact { created with toRtpSource := { validated with
      maxSeq := 104, received := 3, expectedPrior := 1, receivedPrior := 1 } }
      ⟨0, some validated⟩ s' :=
  statistics_exact 7 100
    [.updateSeq 100, .updateSeq 101, .updateLost, .updateSeq 102, .updateSeq 104]
    run_gap rfl (by decide) (by decide) (by decide)

/-! ## A long stream -/

/-- Packets of a stream that skips the same number of others each time. -/
def climb (x : Int) : Nat → List Int
  | 0 => []
  | n + 1 => (x + 2048) :: climb (x + 2048) n

theorem climb_counter (n : Nat) {x : Int} {c : Counter} (h : c.highest = x) :
    c.AllInWindow (climb x n) ∧ ((climb x n).foldl Counter.receive c).highest = x + 2048 * n ∧
      (climb x n).length = n := by
  induction n generalizing x c with
  | zero => exact ⟨trivial, by rw [climb, List.foldl_nil, h]; omega, rfl⟩
  | succ n ih =>
    have hnext : (c.receive (x + 2048)).highest = x + 2048 := by
      rw [Counter.receive_highest]
      omega
    obtain ⟨hin, hhighest, hlen⟩ := ih hnext
    refine ⟨⟨?_, hin⟩, ?_, by rw [climb, List.length_cons, hlen]⟩
    · constructor
      · omega
      · omega
    · rw [climb, List.foldl_cons, hhighest]
      omega

/-- Nothing takes a validated source back. -/
theorem probation_updateSeq {s s' : RtpSource} {seq : UInt16} {r : Int} (hvalid : s.probation ≤ 0)
    (hcall : rtpSourceUpdateSeq s seq = .ok (r, s')) : s'.probation = s.probation := by
  rcases updateSeq_valid hvalid hcall with
    ⟨-, -, hs'⟩ | ⟨-, -, hs'⟩ | ⟨-, -, -, hs'⟩ | ⟨-, -, -, hs'⟩
  · rw [hs']
  · rw [hs']
  · rw [hs']
    rfl
  · rw [hs']

/-- The observer of a stream whose packets fall into the window sees no reset. -/
theorem watch_tracks {first : UInt16} (xs : List Int) {s : RtpSourceT} {b : Since} {c : Counter}
    (h : Tracks s.toRtpSource first c) (hone : 1 ≤ c.received) (hin : c.AllInWindow xs)
    (hroom : c.received + xs.length < 2 ^ 31) :
    ∃ t w, runAll watch (s, b) (xs.map fun x => .updateSeq (wire x))
        = .ok ({ s with toRtpSource := t }, { b with wraps := w }) ∧
      Tracks t first (xs.foldl Counter.receive c) ∧ t.probation = s.probation := by
  induction xs generalizing s b c with
  | nil => exact ⟨s.toRtpSource, b.wraps, rfl, h, rfl⟩
  | cons x xs ih =>
    rw [List.length_cons] at hroom
    obtain ⟨t, hcall, htracks⟩ := tracks_receive h hin.1 (by omega)
    have hcount : ¬ (RTP_OK = RTP_OK ∧ Restarted s.toRtpSource (wire x) t) := by
      intro hrestart
      have hreceived := htracks.received
      rw [hrestart.2] at hreceived
      change (1 : Int) = (c.receive x).received at hreceived
      rw [Counter.receive_received] at hreceived
      omega
    have hnote : ∃ w, b.note s.toRtpSource (wire x) RTP_OK t = { b with wraps := w } := by
      rw [Since.note, if_neg hcount]
      split
      · exact ⟨b.wraps, rfl⟩
      · exact ⟨_, rfl⟩
    obtain ⟨w, hw⟩ := hnote
    have hstep : watch (s, b) (.updateSeq (wire x))
        = .ok ({ s with toRtpSource := t }, { b with wraps := w }) := by
      rw [watch, hcall, ok_bind, ← hw]
    obtain ⟨u, v, hrun, htracks', hprob⟩ := ih (s := { s with toRtpSource := t })
      (b := { b with wraps := w }) htracks (by rw [Counter.receive_received]; omega) hin.2
      (by rw [Counter.receive_received]; omega)
    refine ⟨u, v, ?_, htracks', hprob.trans (probation_updateSeq h.valid hcall)⟩
    rw [List.map_cons, runAll_cons, bind_of_ok hstep]
    exact hrun

/-- A report, and then so many packets that `cycles` wraps and fewer are expected than before. -/
theorem statistics_exact_fails :
    ¬ ∀ (s₀ s : RtpSourceT) (b : Since) (id : UInt32) (first : UInt16) (calls : List Call),
      runAll watch (start s₀ id first) calls = .ok (s, b) → s.probation = 0 →
      expectedCount s.toRtpSource < 2 ^ 23 → s.received < 2 ^ 23 → ∃ s', Exact s b s' := by
  intro h
  let seen : RtpSource := { rtpSourceResetSeq (rtpSourceInit rtpSourceCreate 7 1) 2 with
    probation := 0, maxSeq := 2050, received := 2 }
  have hbefore : runAll watch (start created 7 1) [.updateSeq 1, .updateSeq 2, .updateSeq 2050]
      = .ok ({ created with toRtpSource := seen }, ⟨0, none⟩) := rfl
  obtain ⟨s, hexact⟩ := updateLost_exact (watch_run 7 1 _ hbefore (by decide)) (by decide)
    (by decide) (by decide)
  have hreport : watch ({ created with toRtpSource := seen }, ⟨0, none⟩) .updateLost
      = .ok (s, ⟨0, some seen⟩) := by
    rw [watch, hexact.returns]
    rfl
  have htracks : Tracks s.toRtpSource 2 ⟨2050, 2⟩ := by
    rw [updateLost_prior hexact.returns]
    exact ⟨by decide, rfl, rfl, rfl, rfl⟩
  have hprob : s.probation = 0 := by rw [updateLost_prior hexact.returns]
  obtain ⟨hin, hhighest, hlen⟩ := climb_counter (2 ^ 21 - 1) (x := 2050) (c := ⟨2050, 2⟩) rfl
  obtain ⟨t, w, hafter, hend, hvalid⟩ :=
    watch_tracks (b := ⟨0, some seen⟩) _ htracks (by decide) hin (by rw [hlen]; decide)
  have hmax := hend.maxSeq
  have hcycles := hend.cycles
  have hreceived := hend.received
  have hbase := hend.base
  rw [hhighest] at hmax hcycles
  rw [Counter.received_run, hlen] at hreceived
  change t.received = ((2 + (2 ^ 21 - 1) : Nat) : Int) at hreceived
  have hone : expectedCount t = 1 := by
    rw [expectedCount, hbase]
    change (t.cycles.toNat : Int) + t.maxSeq.toNat - 2 + 1 = 1
    omega
  have hrun := (runAll_cons _ _ _).trans ((bind_of_ok hreport).trans hafter)
  obtain ⟨s', hfalse⟩ := h created _ _ 7 1 ([.updateSeq 1, .updateSeq 2, .updateSeq 2050] ++
      .updateLost :: (climb 2050 (2 ^ 21 - 1)).map fun x => .updateSeq (wire x))
    ((runAll_append _ hbefore).trans hrun) (hvalid.trans hprob)
    (by rw [hone]; decide) (by rw [hreceived]; decide)
  have hneg := hfalse.expected
  rw [expectedSince, hone] at hneg
  change (0 : Int) ≤ 1 - expectedCount seen at hneg
  exact absurd hneg (by decide)

end RtpSdr.Rtp.SourceLoss
