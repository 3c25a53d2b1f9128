import RtpSdr.Rtp.Util

/-!
# The sequence numbers of a source: `rtp_source.c`

A source keeps the highest sequence number as 16 bits and a 32-bit count of the
wraps before it. What this stands for is a counter that never wraps; while every
packet falls into the window around the highest one, the two agree.
-/
namespace RtpSdr.Rtp.Source

open RtpSdr.Lib.Checked
open RtpSdr.Rtp.Util

def LIBRTP_SEQ_MOD : Nat := 65536
def LIBRTP_MAX_DROPOUT : Nat := 3000
def LIBRTP_MAX_MISORDER : Nat := 100
def LIBRTP_MIN_SEQUENTIAL : Int := 2

/-- `rtp_source`, as far as sequence numbers go. -/
structure RtpSource where
  id : UInt32
  maxSeq : UInt16
  cycles : UInt32
  baseSeq : UInt32
  badSeq : UInt32
  probation : Int
  received : Int
  expectedPrior : Int
  receivedPrior : Int
deriving DecidableEq, Repr

/-- `rtp_source_create`. -/
def rtpSourceCreate : RtpSource := ⟨0, 0, 0, 0, 0, 0, 0, 0, 0⟩

def rtpSourceResetSeq (s : RtpSource) (seq : UInt16) : RtpSource :=
  { s with
    baseSeq := seq.toUInt32
    maxSeq := seq
    badSeq := UInt32.ofNat (LIBRTP_SEQ_MOD + 1)
    cycles := 0
    received := 0
    receivedPrior := 0
    expectedPrior := 0 }

def rtpSourceInit (s : RtpSource) (id : UInt32) (seq : UInt16) : RtpSource :=
  { rtpSourceResetSeq s seq with
    id := id
    maxSeq := seq - 1
    probation := LIBRTP_MIN_SEQUENTIAL }

/-- `s->received++` and the return of `RTP_OK`. -/
def countReceived (s : RtpSource) : Exec (Int × RtpSource) := do
  let received ← int32 (s.received + 1)
  .ok (RTP_OK, { s with received := received })

def rtpSourceUpdateSeq (s : RtpSource) (seq : UInt16) : Exec (Int × RtpSource) :=
  if s.probation > 0 then
    -- an `int` comparison: 65535 + 1 equals no sequence number
    if seq.toNat = s.maxSeq.toNat + 1 then
      let s := { s with probation := s.probation - 1, maxSeq := seq }
      if s.probation = 0 then countReceived (rtpSourceResetSeq s seq)
      else .ok (RTP_ERROR, s)
    else .ok (RTP_ERROR, { s with probation := LIBRTP_MIN_SEQUENTIAL - 1, maxSeq := seq })
  else
    let udelta := seq - s.maxSeq
    if udelta.toNat < LIBRTP_MAX_DROPOUT then
      let cycles := if seq < s.maxSeq then s.cycles + UInt32.ofNat LIBRTP_SEQ_MOD else s.cycles
      countReceived { s with cycles := cycles, maxSeq := seq }
    else if udelta.toNat ≤ LIBRTP_SEQ_MOD - LIBRTP_MAX_MISORDER then
      if seq.toUInt32 = s.badSeq then countReceived (rtpSourceResetSeq s seq)
      else
        .ok (RTP_ERROR,
          { s with badSeq := (seq.toUInt32 + 1) &&& UInt32.ofNat (LIBRTP_SEQ_MOD - 1) })
    else countReceived s

/-! ## What a call does -/

/-- The wrap-around distance of a number ahead of the highest one. -/
def udelta (s : RtpSource) (seq : UInt16) : Nat := (seq - s.maxSeq).toNat

/-- Too far ahead to be a gap, too far behind to be late. -/
def Jumps (s : RtpSource) (seq : UInt16) : Prop :=
  LIBRTP_MAX_DROPOUT ≤ udelta s seq ∧ udelta s seq ≤ LIBRTP_SEQ_MOD - LIBRTP_MAX_MISORDER

theorem countReceived_eq_ok {s s' : RtpSource} {r : Int} (h : countReceived s = .ok (r, s')) :
    r = RTP_OK ∧ s' = { s with received := s.received + 1 } := by
  obtain ⟨received, hint, h⟩ := bind_eq_ok.mp h
  rw [int32] at hint
  split at hint
  · cases hint
    cases h
    exact ⟨rfl, rfl⟩
  · cases hint

/-- A call on a source in probation ends the probation or refuses the packet. -/
theorem updateSeq_probation {s s' : RtpSource} {seq : UInt16} {r : Int} (hprob : s.probation > 0)
    (h : rtpSourceUpdateSeq s seq = .ok (r, s')) :
    (r = RTP_OK ∧ s' = { rtpSourceResetSeq s seq with probation := 0, received := 1 }) ∨
      (r = RTP_ERROR ∧ s'.probation > 0 ∧
        s' = { s with probation := s'.probation, maxSeq := seq }) := by
  rw [rtpSourceUpdateSeq, if_pos hprob] at h
  split at h
  · dsimp only at h
    split at h
    · rename_i hzero
      obtain ⟨hr, hs'⟩ := countReceived_eq_ok h
      refine .inl ⟨hr, ?_⟩
      rw [hs']
      simp only [rtpSourceResetSeq, hzero]
      rfl
    · rename_i hne
      cases h
      refine .inr ⟨rfl, ?_, rfl⟩
      dsimp only at hne ⊢
      omega
  · cases h
    exact .inr ⟨rfl, show LIBRTP_MIN_SEQUENTIAL - 1 > 0 by decide, rfl⟩

/-- A call on a validated source goes on, falls behind, starts again or refuses the packet. -/
theorem updateSeq_valid {s s' : RtpSource} {seq : UInt16} {r : Int} (hvalid : s.probation ≤ 0)
    (h : rtpSourceUpdateSeq s seq = .ok (r, s')) :
    (udelta s seq < LIBRTP_MAX_DROPOUT ∧ r = RTP_OK ∧ s' = { s with
        cycles := if seq < s.maxSeq then s.cycles + UInt32.ofNat LIBRTP_SEQ_MOD else s.cycles
        maxSeq := seq
        received := s.received + 1 }) ∨
      (LIBRTP_SEQ_MOD - LIBRTP_MAX_MISORDER < udelta s seq ∧ r = RTP_OK ∧
        s' = { s with received := s.received + 1 }) ∨
      (Jumps s seq ∧ seq.toUInt32 = s.badSeq ∧ r = RTP_OK ∧
        s' = { rtpSourceResetSeq s seq with received := 1 }) ∨
      (Jumps s seq ∧ seq.toUInt32 ≠ s.badSeq ∧ r = RTP_ERROR ∧ s' = { s with
        badSeq := (seq.toUInt32 + 1) &&& UInt32.ofNat (LIBRTP_SEQ_MOD - 1) }) := by
  rw [rtpSourceUpdateSeq, if_neg (Int.not_lt.mpr hvalid)] at h
  change (if udelta s seq < LIBRTP_MAX_DROPOUT then _ else
    if udelta s seq ≤ LIBRTP_SEQ_MOD - LIBRTP_MAX_MISORDER then _ else _) = _ at h
  by_cases hgap : udelta s seq < LIBRTP_MAX_DROPOUT
  · rw [if_pos hgap] at h
    obtain ⟨hr, hs'⟩ := countReceived_eq_ok h
    exact .inl ⟨hgap, hr, hs'⟩
  · rw [if_neg hgap] at h
    by_cases hjump : udelta s seq ≤ LIBRTP_SEQ_MOD - LIBRTP_MAX_MISORDER
    · have hjumps : Jumps s seq := ⟨Nat.le_of_not_lt hgap, hjump⟩
      rw [if_pos hjump] at h
      by_cases hbad : seq.toUInt32 = s.badSeq
      · rw [if_pos hbad] at h
        obtain ⟨hr, hs'⟩ := countReceived_eq_ok h
        exact .inr (.inr (.inl ⟨hjumps, hbad, hr, hs'⟩))
      · rw [if_neg hbad] at h
        cases h
        exact .inr (.inr (.inr ⟨hjumps, hbad, rfl, rfl⟩))
    · rw [if_neg hjump] at h
      obtain ⟨hr, hs'⟩ := countReceived_eq_ok h
      exact .inr (.inl ⟨Nat.lt_of_not_le hjump, hr, hs'⟩)

/-! ## The counter -/

/-- The packets of a stream under their true indices: the highest, and how many came. -/
structure Counter where
  highest : Int
  received : Nat

/-- The counter after its first packet. -/
def Counter.start (x : Int) : Counter := ⟨x, 1⟩

def Counter.receive (c : Counter) (x : Int) : Counter := ⟨max c.highest x, c.received + 1⟩

@[simp] theorem Counter.start_received (x : Int) : (start x).received = 1 := rfl

@[simp] theorem Counter.receive_highest (c : Counter) (x : Int) :
    (c.receive x).highest = max c.highest x := rfl

@[simp] theorem Counter.receive_received (c : Counter) (x : Int) :
    (c.receive x).received = c.received + 1 := rfl

/-- The window the source accepts around the highest index. -/
def Counter.InWindow (c : Counter) (x : Int) : Prop :=
  c.highest - 99 ≤ x ∧ x ≤ c.highest + 2999

/-- Every packet falls into the window of those before it. -/
def Counter.AllInWindow : Counter → List Int → Prop
  | _, [] => True
  | c, x :: xs => c.InWindow x ∧ (c.receive x).AllInWindow xs

instance (c : Counter) (x : Int) : Decidable (c.InWindow x) :=
  inferInstanceAs (Decidable (_ ∧ _))

instance Counter.decidableAllInWindow : (c : Counter) → (xs : List Int) →
    Decidable (c.AllInWindow xs)
  | _, [] => .isTrue trivial
  | c, x :: xs =>
    have := decidableAllInWindow (c.receive x) xs
    inferInstanceAs (Decidable (c.InWindow x ∧ (c.receive x).AllInWindow xs))

@[simp] theorem Counter.highest_run (xs : List Int) (c : Counter) :
    (xs.foldl receive c).highest = xs.foldl max c.highest := by
  induction xs generalizing c with
  | nil => rfl
  | cons x xs ih => exact ih (c.receive x)

@[simp] theorem Counter.received_run (xs : List Int) (c : Counter) :
    (xs.foldl receive c).received = c.received + xs.length := by
  induction xs generalizing c with
  | nil => rfl
  | cons x xs ih =>
    rw [List.foldl_cons, ih, receive_received, List.length_cons]
    omega

theorem Counter.allInWindow_append {xs ys : List Int} {c : Counter}
    (h : c.AllInWindow (xs ++ ys)) : c.AllInWindow xs := by
  induction xs generalizing c with
  | nil => trivial
  | cons x xs ih => exact ⟨h.1, ih h.2⟩

/-- The sequence number a packet carries. -/
def wire (x : Int) : UInt16 := UInt16.ofNat (x % 65536).toNat

theorem toNat_wire (x : Int) : ((wire x).toNat : Int) = x % 65536 := by
  rw [wire, UInt16.toNat_ofNat']
  omega

/-- The source stands for the counter `c` of a stream that began with `first`. -/
structure Tracks (s : RtpSource) (first : UInt16) (c : Counter) : Prop where
  valid : s.probation ≤ 0
  base : s.baseSeq = first.toUInt32
  maxSeq : (s.maxSeq.toNat : Int) = c.highest % 65536
  cycles : (s.cycles.toNat : Int) = (c.highest - c.highest % 65536) % 2 ^ 32
  received : s.received = c.received

theorem Tracks.extended {s : RtpSource} {first : UInt16} {c : Counter} (h : Tracks s first c) :
    ((s.cycles + s.maxSeq.toUInt32).toNat : Int) = c.highest % 2 ^ 32 := by
  have hmax := h.maxSeq
  have hcycles := h.cycles
  rw [UInt32.toNat_add, UInt16.toNat_toUInt32]
  omega

theorem countReceived_ok {s : RtpSource} {n : Nat} (h : s.received = n) (hn : n < 2 ^ 31 - 1) :
    countReceived s = .ok (RTP_OK, { s with received := n + 1 }) := by
  rw [countReceived, h, int32_of_lt (by omega) (by omega)]
  rfl

/-- The packet that ends the probation starts the counter. -/
theorem tracks_start {s s' : RtpSource} {seq : UInt16} (hprob : s.probation > 0)
    (h : rtpSourceUpdateSeq s seq = .ok (RTP_OK, s')) :
    Tracks s' seq (Counter.start seq.toNat) := by
  have hlt := seq.toNat_lt
  rw [rtpSourceUpdateSeq, if_pos hprob] at h
  split at h
  · dsimp only at h
    split at h
    · rename_i hzero
      rw [countReceived_ok (n := 0) rfl (by omega)] at h
      cases h
      constructor
      · exact Int.le_of_eq hzero
      · rfl
      · change (seq.toNat : Int) = (seq.toNat : Int) % 65536
        omega
      · change (0 : Int) = ((seq.toNat : Int) - (seq.toNat : Int) % 65536) % 2 ^ 32
        omega
      · rfl
    · cases h
  · cases h

/-- A packet in the window is accepted, and the source follows the counter. -/
theorem tracks_receive {s : RtpSource} {first : UInt16} {c : Counter} {x : Int}
    (h : Tracks s first c) (hx : c.InWindow x) (hroom : c.received < 2 ^ 31 - 1) :
    ∃ s', rtpSourceUpdateSeq s (wire x) = .ok (RTP_OK, s') ∧ Tracks s' first (c.receive x) := by
  obtain ⟨hvalid, hbase, hmax, hcycles, hreceived⟩ := h
  obtain ⟨hlow, hhigh⟩ := hx
  have hwire := toNat_wire x
  have hdelta : ((wire x - s.maxSeq).toNat : Int) = (x - c.highest) % 65536 := by
    have := s.maxSeq.toNat_lt
    rw [UInt16.toNat_sub]
    omega
  have hcount : ((c.receive x).received : Int) = c.received + 1 := rfl
  rw [rtpSourceUpdateSeq, if_neg (Int.not_lt.mpr hvalid)]
  by_cases hahead : c.highest ≤ x
  · -- in order: the difference is the true one, and a smaller number means a wrap
    have hhighest : (c.receive x).highest = x := Int.max_eq_right hahead
    rw [if_pos (by rw [LIBRTP_MAX_DROPOUT]; omega)]
    by_cases hwrap : wire x < s.maxSeq
    · rw [if_pos hwrap, countReceived_ok (by exact hreceived) hroom]
      have hlt := UInt16.lt_iff_toNat_lt.mp hwrap
      refine ⟨_, rfl, hvalid, hbase, ?_, ?_, hcount.symm⟩
      · rw [hhighest]
        exact hwire
      · rw [hhighest]
        change (((s.cycles + UInt32.ofNat LIBRTP_SEQ_MOD).toNat : Nat) : Int) = _
        rw [UInt32.toNat_add, UInt32.toNat_ofNat', LIBRTP_SEQ_MOD]
        omega
    · rw [if_neg hwrap, countReceived_ok (by exact hreceived) hroom]
      have hge := mt UInt16.lt_iff_toNat_lt.mpr hwrap
      refine ⟨_, rfl, hvalid, hbase, ?_, ?_, hcount.symm⟩
      · rw [hhighest]
        exact hwire
      · rw [hhighest]
        change (s.cycles.toNat : Int) = _
        omega
  · -- late: the difference lies beyond both other windows
    have hhighest : (c.receive x).highest = c.highest := Int.max_eq_left (by omega)
    rw [if_neg (by rw [LIBRTP_MAX_DROPOUT]; omega),
      if_neg (by change ¬ (wire x - s.maxSeq).toNat ≤ 65436; omega),
      countReceived_ok hreceived hroom]
    refine ⟨_, rfl, hvalid, hbase, ?_, ?_, hcount.symm⟩
    · rw [hhighest]
      exact hmax
    · rw [hhighest]
      exact hcycles

/-! ## A run of packets -/

/-- A call that keeps what the calls before it returned. -/
def receive (s : RtpSource × List Int) (seq : UInt16) : Exec (RtpSource × List Int) := do
  let (r, source) ← rtpSourceUpdateSeq s.1 seq
  .ok (source, s.2 ++ [r])

theorem tracks_run {first : UInt16} (xs : List Int) {s : RtpSource} {c : Counter}
    (h : Tracks s first c) (hin : c.AllInWindow xs) (hroom : c.received + xs.length < 2 ^ 31)
    (log : List Int) :
    ∃ s', runAll receive (s, log) (xs.map wire)
        = .ok (s', log ++ List.replicate xs.length RTP_OK) ∧
      Tracks s' first (xs.foldl Counter.receive c) := by
  induction xs generalizing s c log with
  | nil => exact ⟨s, by rw [List.length_nil, List.replicate_zero, List.append_nil]; rfl, h⟩
  | cons x xs ih =>
    rw [List.length_cons] at hroom
    obtain ⟨s₁, hcall, htracks⟩ := tracks_receive h hin.1 (by omega)
    have hroom' : (c.receive x).received + xs.length < 2 ^ 31 := by
      rw [Counter.receive_received]
      omega
    obtain ⟨s', hrun, htracks'⟩ := ih htracks hin.2 hroom' (log ++ [RTP_OK])
    refine ⟨s', ?_, htracks'⟩
    have hstep : receive (s, log) (wire x) = .ok (s₁, log ++ [RTP_OK]) := by
      rw [receive, bind_of_ok hcall]
    rw [List.map_cons, runAll_cons, bind_of_ok hstep, hrun, List.length_cons,
      List.replicate_succ, List.append_assoc, List.singleton_append]

/-- A validated source counts like a counter that never wraps, as long as every packet
falls into the window around the highest one before it. -/
theorem source_counts_unbounded {s₀ s : RtpSource} {first : UInt16} (hprob : s₀.probation > 0)
    (hvalid : rtpSourceUpdateSeq s₀ first = .ok (RTP_OK, s)) (xs : List Int)
    (hlen : xs.length < 2 ^ 31 - 1) (hin : (Counter.start first.toNat).AllInWindow xs)
    (ys : List Int) (hys : ys <+: xs) :
    ∃ s', runAll receive (s, []) (ys.map wire) = .ok (s', List.replicate ys.length RTP_OK) ∧
      ((s'.cycles + s'.maxSeq.toUInt32).toNat : Int)
        = ys.foldl max (first.toNat : Int) % 2 ^ 32 ∧
      s'.baseSeq = first.toUInt32 ∧ s'.received = 1 + ys.length := by
  obtain ⟨zs, rfl⟩ := hys
  rw [List.length_append] at hlen
  have hroom : (Counter.start first.toNat).received + ys.length < 2 ^ 31 := by
    rw [Counter.start_received]
    omega
  obtain ⟨s', hrun, htracks⟩ :=
    tracks_run ys (tracks_start hprob hvalid) (Counter.allInWindow_append hin) hroom []
  refine ⟨s', by rw [hrun, List.nil_append], ?_, htracks.base, ?_⟩
  · rw [htracks.extended, Counter.highest_run]
    rfl
  · rw [htracks.received, Counter.received_run]
    exact Int.natCast_add 1 _

/-- A late packet before the wrap, then one over it. -/
theorem source_counts_unbounded_wrap :
    ∃ s', runAll receive
        ({ rtpSourceInit rtpSourceCreate 7 65530 with
            probation := 0, maxSeq := 65531, baseSeq := 65531, received := 1 }, [])
        ([65540, 65535, 65541].map wire) = .ok (s', List.replicate 3 RTP_OK) ∧
      ((s'.cycles + s'.maxSeq.toUInt32).toNat : Int)
        = [65540, 65535, 65541].foldl max (65531 : Int) % 2 ^ 32 ∧
      s'.baseSeq = (65531 : UInt16).toUInt32 ∧ s'.received = 1 + 3 :=
  @source_counts_unbounded
    { rtpSourceInit rtpSourceCreate 7 65530 with probation := 1, maxSeq := 65530 }
    { rtpSourceInit rtpSourceCreate 7 65530 with
      probation := 0, maxSeq := 65531, baseSeq := 65531, received := 1 }
    65531 (by decide) rfl [65540, 65535, 65541] (by decide)
    (by decide) [65540, 65535, 65541] (List.prefix_refl _)

end RtpSdr.Rtp.Source
