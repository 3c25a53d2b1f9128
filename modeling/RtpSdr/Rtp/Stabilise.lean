import RtpSdr.Rtp.Resync

/-!
# Following a stream from any state

Whatever a source holds, consecutive numbers bring it back in step: those in probation are
validated, a jump is refused once, and where the numbers look late the source waits until they
have caught up with its highest one.
-/
namespace RtpSdr.Rtp.Stabilise

open RtpSdr.Lib.Checked
open RtpSdr.Rtp.Util
open RtpSdr.Rtp.Source
open RtpSdr.Rtp.Resync

/-- The source is validated and `seq` is the highest number it knows. -/
def InStep (s : RtpSource) (seq : UInt16) : Prop := s.probation ≤ 0 ∧ s.maxSeq = seq

instance (s : RtpSource) (seq : UInt16) : Decidable (InStep s seq) :=
  inferInstanceAs (Decidable (_ ∧ _))

instance (s : RtpSource) (seq : UInt16) : Decidable (Jumps s seq) :=
  inferInstanceAs (Decidable (_ ∧ _))

/-- How many consecutive numbers from `seq` on are refused. -/
def refusals (s : RtpSource) (seq : UInt16) : Nat :=
  if s.probation > 0 then
    if s.probation = 1 ∧ seq.toNat = s.maxSeq.toNat + 1 then 0
    else if seq = 65535 then 2 else 1
  else if Jumps s seq ∧ seq.toUInt32 ≠ s.badSeq then 1 else 0

/-- How many go by before the source is in step. -/
def delay (s : RtpSource) (seq : UInt16) : Nat :=
  if s.probation > 0 then refusals s seq
  else if LIBRTP_SEQ_MOD - LIBRTP_MAX_MISORDER < udelta s seq then LIBRTP_SEQ_MOD - udelta s seq
  -- refused at the end of the jumps, the next one is taken for a late packet
  else if Jumps s seq ∧ seq.toUInt32 ≠ s.badSeq then
    if udelta s seq = LIBRTP_SEQ_MOD - LIBRTP_MAX_MISORDER then LIBRTP_MAX_MISORDER else 1
  else 0

/-- A source that may get so many more packets; probation as `rtp_source_init` leaves it or
shorter. -/
structure Ready (s : RtpSource) (n : Nat) : Prop where
  probation : s.probation ≤ LIBRTP_MIN_SEQUENTIAL
  received : 0 ≤ s.received
  room : s.received + n < 2 ^ 31

variable {s : RtpSource} {seq : UInt16} {n : Nat}

/-! ## One number -/

/-- What a number does to a source: what the call returns, and that the next number finds the
source one step nearer. -/
structure Advances (s : RtpSource) (seq : UInt16) (n : Nat) (r : Int) (s' : RtpSource) :
    Prop where
  ready : Ready s' n
  result : r = if refusals s seq = 0 then RTP_OK else RTP_ERROR
  fewer : refusals s' (seq + 1) = refusals s seq - 1
  sooner : delay s' (seq + 1) = delay s seq - 1
  inStep : InStep s' seq ↔ delay s seq = 0

/-- A source in step accepts the next number. -/
theorem delay_of_inStep (h : InStep s seq) : delay s (seq + 1) = 0 ∧ refusals s (seq + 1) = 0 := by
  obtain ⟨hvalid, hmax⟩ := h
  have hdelta : udelta s (seq + 1) = 1 := by
    rw [udelta, hmax, UInt16.add_comm, UInt16.add_sub_cancel]
    rfl
  have hjump : ¬ Jumps s (seq + 1) := fun hjump => by
    have hlow := hjump.1
    rw [hdelta] at hlow
    exact absurd hlow (by decide)
  rw [delay, refusals, if_neg (Int.not_lt.mpr hvalid), if_neg (Int.not_lt.mpr hvalid), hdelta]
  exact ⟨by rw [if_neg (by decide), if_neg fun h => hjump h.1], if_neg fun h => hjump h.1⟩

theorem advances_probation (h : Ready s (n + 1)) (hprob : s.probation > 0) :
    ∃ r s', rtpSourceUpdateSeq s seq = .ok (r, s') ∧ Advances s seq n r s' := by
  obtain ⟨hmost, hreceived, hroom⟩ := h
  push_cast at hroom
  by_cases hfirst : s.probation = 1 ∧ seq.toNat = s.maxSeq.toNat + 1
  · have hnone : refusals s seq = 0 := by rw [refusals, if_pos hprob, if_pos hfirst]
    have hwait : delay s seq = 0 := by rw [delay, if_pos hprob, hnone]
    have hin : InStep { rtpSourceResetSeq s seq with probation := 0, received := 1 } seq :=
      ⟨Int.le_refl 0, rfl⟩
    obtain ⟨hdelay, hrefusals⟩ := delay_of_inStep hin
    refine ⟨_, _, updateSeq_last hfirst.1 hfirst.2,
      ⟨show (0 : Int) ≤ 2 by decide, Int.one_nonneg, ?_⟩, ?_, ?_, ?_, ?_⟩
    · change (1 : Int) + n < _
      omega
    · rw [hnone, if_pos rfl]
    · rw [hrefusals, hnone]
    · rw [hdelay, hwait]
    · exact iff_of_true hin hwait
  · have hone := updateSeq_first seq hprob hmost hfirst
    have hrefusals : refusals s seq = if seq = 65535 then 2 else 1 := by
      rw [refusals, if_pos hprob, if_neg hfirst]
    have hnext : refusals { s with probation := 1, maxSeq := seq } (seq + 1)
        = refusals s seq - 1 := by
      rw [hrefusals, refusals, if_pos Int.one_pos]
      by_cases hwrap : seq = 65535
      · rw [if_neg fun h => (toNat_succ_eq_iff seq).mp h.2 hwrap, if_pos hwrap, hwrap]
        rfl
      · rw [if_pos ⟨rfl, (toNat_succ_eq_iff seq).mpr hwrap⟩, if_neg hwrap]
    have hsome : refusals s seq ≠ 0 := by
      rw [hrefusals]
      split
      · decide
      · decide
    have hwait : delay s seq = refusals s seq := by rw [delay, if_pos hprob]
    refine ⟨_, _, hone, ⟨show (1 : Int) ≤ 2 by decide, hreceived, ?_⟩, ?_, hnext, ?_, ?_⟩
    · change s.received + n < _
      omega
    · rw [if_neg hsome]
    · rw [delay, if_pos Int.one_pos, hnext, hwait]
    · exact iff_of_false (fun hin => Int.not_le.mpr Int.one_pos hin.1) (by rw [hwait]; exact hsome)

theorem refusals_valid (hvalid : s.probation ≤ 0) :
    refusals s seq = if Jumps s seq ∧ seq.toUInt32 ≠ s.badSeq then 1 else 0 := by
  rw [refusals, if_neg (Int.not_lt.mpr hvalid)]

theorem delay_valid (hvalid : s.probation ≤ 0) :
    delay s seq =
      if LIBRTP_SEQ_MOD - LIBRTP_MAX_MISORDER < udelta s seq then LIBRTP_SEQ_MOD - udelta s seq
      else if Jumps s seq ∧ seq.toUInt32 ≠ s.badSeq then
        if udelta s seq = LIBRTP_SEQ_MOD - LIBRTP_MAX_MISORDER then LIBRTP_MAX_MISORDER else 1
      else 0 := by
  rw [delay, if_neg (Int.not_lt.mpr hvalid)]

theorem udelta_succ (s : RtpSource) (seq : UInt16) :
    udelta s (seq + 1) = (udelta s seq + 1) % LIBRTP_SEQ_MOD := by
  have hmax := s.maxSeq.toNat_lt
  have hseq := seq.toNat_lt
  rw [udelta, udelta, UInt16.toNat_sub, UInt16.toNat_sub, UInt16.toNat_add, LIBRTP_SEQ_MOD]
  change (2 ^ 16 - s.maxSeq.toNat + (seq.toNat + 1) % 2 ^ 16) % 2 ^ 16
    = ((2 ^ 16 - s.maxSeq.toNat + seq.toNat) % 2 ^ 16 + 1) % 65536
  omega

theorem udelta_lt (s : RtpSource) (seq : UInt16) : udelta s seq < LIBRTP_SEQ_MOD :=
  (seq - s.maxSeq).toNat_lt

/-- The source that takes up the number is in step. -/
theorem advances_inStep {s' : RtpSource} (hready : Ready s' n) (hin : InStep s' seq)
    (hrefusals : refusals s seq = 0) (hdelay : delay s seq = 0) :
    Advances s seq n RTP_OK s' := by
  obtain ⟨hnext, hfewer⟩ := delay_of_inStep hin
  refine ⟨hready, ?_, ?_, ?_, iff_of_true hin hdelay⟩
  · rw [if_pos hrefusals]
  · rw [hfewer, hrefusals]
  · rw [hnext, hdelay]

/-- The source that waits is one number closer. -/
theorem advances_late {s' : RtpSource} (hready : Ready s' n) (hvalid : s.probation ≤ 0)
    (hlate : LIBRTP_SEQ_MOD - LIBRTP_MAX_MISORDER < udelta s seq)
    (hs' : s' = { s with received := s.received + 1 }) : Advances s seq n RTP_OK s' := by
  have hlt := udelta_lt s seq
  have hsucc := udelta_succ s seq
  have hsame : udelta s' (seq + 1) = udelta s (seq + 1) := by rw [hs', udelta, udelta]
  have hvalid' : s'.probation ≤ 0 := by rw [hs']; exact hvalid
  have hnone : refusals s seq = 0 := by
    rw [refusals_valid hvalid, if_neg fun h => Nat.not_le.mpr hlate h.1.2]
  have hwait : delay s seq = LIBRTP_SEQ_MOD - udelta s seq := by
    rw [delay_valid hvalid, if_pos hlate]
  rw [LIBRTP_SEQ_MOD, LIBRTP_MAX_MISORDER] at hlate
  rw [LIBRTP_SEQ_MOD] at hlt hsucc hwait
  refine ⟨hready, by rw [if_pos hnone], ?_, ?_, ?_⟩
  · rw [refusals_valid hvalid', hnone, if_neg]
    rintro ⟨⟨hlow, hhigh⟩, -⟩
    rw [LIBRTP_MAX_DROPOUT] at hlow
    rw [LIBRTP_SEQ_MOD, LIBRTP_MAX_MISORDER] at hhigh
    omega
  · rw [hwait]
    by_cases hlast : udelta s seq = 65535
    · have hzero : udelta s' (seq + 1) = 0 := by omega
      rw [delay_valid hvalid', hzero, if_neg (by decide), if_neg, hlast]
      rintro ⟨⟨hlow, -⟩, -⟩
      rw [hzero] at hlow
      exact absurd hlow (by decide)
    · rw [delay_valid hvalid', LIBRTP_SEQ_MOD, LIBRTP_MAX_MISORDER, if_pos (by omega)]
      omega
  · refine iff_of_false (fun hin => ?_) (by omega)
    have hzero : udelta s seq = 0 := by
      rw [udelta, ← show s'.maxSeq = s.maxSeq by rw [hs'], hin.2, UInt16.sub_self]
      rfl
    omega

/-- The jump is remembered, and the next number is the one waited for, unless it looks late. -/
theorem advances_jump {s' : RtpSource} (hready : Ready s' n) (hvalid : s.probation ≤ 0)
    (hjump : Jumps s seq) (hbad : seq.toUInt32 ≠ s.badSeq)
    (hs' : s' = { s with
      badSeq := (seq.toUInt32 + 1) &&& UInt32.ofNat (LIBRTP_SEQ_MOD - 1) }) :
    Advances s seq n RTP_ERROR s' := by
  have hsucc := udelta_succ s seq
  have hsame : udelta s' (seq + 1) = udelta s (seq + 1) := by rw [hs', udelta, udelta]
  have hvalid' : s'.probation ≤ 0 := by rw [hs']; exact hvalid
  have hexpected : (seq + 1).toUInt32 = s'.badSeq := by rw [hs']; exact badSeqOf_some seq
  have hone : refusals s seq = 1 := by rw [refusals_valid hvalid, if_pos ⟨hjump, hbad⟩]
  obtain ⟨hlow, hhigh⟩ := hjump
  have hwait : delay s seq
      = if udelta s seq = LIBRTP_SEQ_MOD - LIBRTP_MAX_MISORDER then LIBRTP_MAX_MISORDER else 1 := by
    rw [delay_valid hvalid, if_neg (Nat.not_lt.mpr hhigh), if_pos ⟨⟨hlow, hhigh⟩, hbad⟩]
  rw [LIBRTP_SEQ_MOD, LIBRTP_MAX_MISORDER] at hhigh hwait
  rw [LIBRTP_MAX_DROPOUT] at hlow
  rw [LIBRTP_SEQ_MOD] at hsucc
  refine ⟨hready, by rw [hone]; rfl, ?_, ?_, ?_⟩
  · rw [refusals_valid hvalid', hone, if_neg fun h => h.2 hexpected]
  · rw [hwait, delay_valid hvalid', LIBRTP_SEQ_MOD, LIBRTP_MAX_MISORDER]
    by_cases hedge : udelta s seq = 65436
    · rw [if_pos (by omega), if_pos hedge]
      omega
    · rw [if_neg (by omega), if_neg fun h => h.2 hexpected, if_neg hedge]
  · refine iff_of_false (fun hin => ?_) (by rw [hwait]; split <;> decide)
    have hzero : udelta s seq = 0 := by
      rw [udelta, ← show s'.maxSeq = s.maxSeq by rw [hs'], hin.2, UInt16.sub_self]
      rfl
    omega

theorem advances_valid (h : Ready s (n + 1)) (hvalid : s.probation ≤ 0) :
    ∃ r s', rtpSourceUpdateSeq s seq = .ok (r, s') ∧ Advances s seq n r s' := by
  obtain ⟨hmost, hreceived, hroom⟩ := h
  push_cast at hroom
  obtain ⟨r, s', hcall⟩ := updateSeq_returns hvalid hreceived (by omega) seq
  refine ⟨r, s', hcall, ?_⟩
  rcases updateSeq_valid hvalid hcall with
    ⟨hgap, hr, hs'⟩ | ⟨hlate, hr, hs'⟩ | ⟨hjump, hbad, hr, hs'⟩ | ⟨hjump, hbad, hr, hs'⟩
  · rw [hr]
    refine advances_inStep ?_ ?_ ?_ ?_
    · rw [hs']
      exact ⟨hmost, show 0 ≤ s.received + 1 by omega, show s.received + 1 + n < 2 ^ 31 by omega⟩
    · rw [hs']
      exact ⟨hvalid, rfl⟩
    · rw [refusals_valid hvalid, if_neg fun h => Nat.not_le.mpr hgap h.1.1]
    · rw [LIBRTP_MAX_DROPOUT] at hgap
      rw [delay_valid hvalid, LIBRTP_SEQ_MOD, LIBRTP_MAX_MISORDER, if_neg (by omega),
        if_neg fun h => Nat.not_le.mpr hgap h.1.1]
  · rw [hr]
    refine advances_late ?_ hvalid hlate hs'
    rw [hs']
    exact ⟨hmost, show 0 ≤ s.received + 1 by omega, show s.received + 1 + n < 2 ^ 31 by omega⟩
  · rw [hr]
    refine advances_inStep ?_ ?_ ?_ ?_
    · rw [hs']
      exact ⟨hmost, Int.one_nonneg, show (1 : Int) + n < 2 ^ 31 by omega⟩
    · rw [hs']
      exact ⟨hvalid, rfl⟩
    · rw [refusals_valid hvalid, if_neg fun h => h.2 hbad]
    · rw [delay_valid hvalid, if_neg (Nat.not_lt.mpr hjump.2), if_neg fun h => h.2 hbad]
  · rw [hr]
    refine advances_jump ?_ hvalid hjump hbad hs'
    rw [hs']
    exact ⟨hmost, hreceived, show s.received + n < 2 ^ 31 by omega⟩

/-- A number advances every source. -/
theorem advances (seq : UInt16) (h : Ready s (n + 1)) :
    ∃ r s', rtpSourceUpdateSeq s seq = .ok (r, s') ∧ Advances s seq n r s' := by
  by_cases hprob : s.probation > 0
  · exact advances_probation h hprob
  · exact advances_valid h (Int.not_lt.mp hprob)

/-! ## A stream -/

theorem refusals_le (s : RtpSource) (seq : UInt16) : refusals s seq ≤ 2 := by
  rw [refusals]
  split
  · split
    · exact Nat.zero_le 2
    · split <;> decide
  · split <;> decide

theorem delay_le (s : RtpSource) (seq : UInt16) : delay s seq ≤ LIBRTP_MAX_MISORDER := by
  have hlt := udelta_lt s seq
  rw [delay]
  split
  · exact Nat.le_trans (refusals_le s seq) (by decide)
  · rw [LIBRTP_SEQ_MOD, LIBRTP_MAX_MISORDER] at *
    split
    · omega
    · split
      · split <;> decide
      · exact Nat.zero_le 100

theorem consecutive_succ (seq : UInt16) (n : Nat) :
    consecutive seq (n + 1) = seq :: consecutive (seq + 1) n := by
  rw [consecutive, List.range_succ_eq_map, List.map_cons, List.map_map, consecutive]
  congr 1
  · exact UInt16.add_zero seq
  · refine List.map_congr_left fun i _ => ?_
    rw [Function.comp_apply, Nat.succ_eq_add_one, UInt16.ofNat_add, UInt16.add_assoc]
    exact congrArg (seq + ·) (UInt16.add_comm _ _)

theorem stabilise_run (n : Nat) (seq : UInt16) (h : Ready s (n + 1)) (log : List Int) :
    ∃ t, runAll receive (s, log) (consecutive seq (n + 1))
        = .ok (t, log ++ (List.replicate (min (refusals s seq) (n + 1)) RTP_ERROR
          ++ List.replicate (n + 1 - refusals s seq) RTP_OK)) ∧
      (InStep t (seq + UInt16.ofNat n) ↔ delay s seq ≤ n) := by
  induction n generalizing s seq log with
  | zero =>
    obtain ⟨r, s', hcall, hadv⟩ := advances seq h
    refine ⟨s', ?_, ?_⟩
    · rw [consecutive_succ, runAll_cons, receive, bind_of_ok hcall, hadv.result]
      by_cases hnone : refusals s seq = 0
      · rw [if_pos hnone, hnone]
        rfl
      · have hmin : min (refusals s seq) (0 + 1) = 1 := by omega
        have hsub : 0 + 1 - refusals s seq = 0 := by omega
        rw [if_neg hnone, hmin, hsub]
        rfl
    · rw [Nat.le_zero, show seq + UInt16.ofNat 0 = seq from UInt16.add_zero seq]
      exact hadv.inStep
  | succ n ih =>
    obtain ⟨r, s', hcall, hadv⟩ := advances seq h
    obtain ⟨t, hrun, hstep⟩ := ih (seq + 1) hadv.ready (log ++ [r])
    refine ⟨t, ?_, ?_⟩
    · rw [consecutive_succ, runAll_cons, receive, bind_of_ok hcall, ok_bind, hrun, hadv.fewer,
        hadv.result, List.append_assoc, List.singleton_append]
      congr 3
      by_cases hnone : refusals s seq = 0
      · rw [if_pos hnone, hnone]
        rfl
      · have hmin : min (refusals s seq) (n + 1 + 1) = min (refusals s seq - 1) (n + 1) + 1 := by
          omega
        have hsub : n + 1 + 1 - refusals s seq = n + 1 - (refusals s seq - 1) := by omega
        rw [if_neg hnone, hmin, hsub, List.replicate_succ, List.cons_append]
    · have hlast : seq + UInt16.ofNat (n + 1) = seq + 1 + UInt16.ofNat n := by
        rw [UInt16.ofNat_add, UInt16.add_assoc]
        exact congrArg (seq + ·) (UInt16.add_comm _ _)
      rw [hlast, hstep, hadv.sooner]
      omega

/-- Whatever the source holds, of consecutive numbers it refuses at most two, the first ones, and
it is in step from some number on, which is one of the first hundred and one. -/
theorem stream_stabilises (s : RtpSource) (first : UInt16) (n : Nat) (h : Ready s (n + 1)) :
    refusals s first ≤ 2 ∧ delay s first ≤ LIBRTP_MAX_MISORDER ∧
      ∃ t, runAll receive (s, []) (consecutive first (n + 1))
          = .ok (t, List.replicate (min (refusals s first) (n + 1)) RTP_ERROR
            ++ List.replicate (n + 1 - refusals s first) RTP_OK) ∧
        (InStep t (first + UInt16.ofNat n) ↔ delay s first ≤ n) := by
  obtain ⟨t, hrun, hstep⟩ := stabilise_run n first h []
  exact ⟨refusals_le s first, delay_le s first, t, hrun, hstep⟩

/-- A validated source that saw the number 100 takes the stream that begins again at zero for
late packets: one is refused, and after ninety-nine more it is still behind. -/
theorem stream_stabilises_slow :
    let s : RtpSource := { rtpSourceInit rtpSourceCreate 7 100 with
      probation := 0, maxSeq := 100, received := 1 }
    ∃ t, runAll receive (s, []) (consecutive 0 100)
        = .ok (t, List.replicate 1 RTP_ERROR ++ List.replicate 99 RTP_OK) ∧
      ¬ InStep t 99 := by
  obtain ⟨-, -, t, hrun, hstep⟩ := stream_stabilises { rtpSourceInit rtpSourceCreate 7 100 with
    probation := 0, maxSeq := 100, received := 1 } 0 99 ⟨by decide, by decide, by decide⟩
  exact ⟨t, hrun, fun hin => absurd (hstep.mp hin) (by decide)⟩

end RtpSdr.Rtp.Stabilise
