import RtpSdr.Rtp.Source

/-!
# Validation and re-synchronisation

A source counts packets once enough of them came one after the other, and starts again
where two came one after the other after a jump. The tally below is kept by an observer
who sees the calls, what they return and the source before and after each.
-/
namespace RtpSdr.Rtp.Resync

open RtpSdr.Lib.Checked
open RtpSdr.Rtp.Util
open RtpSdr.Rtp.Source

/-! ## Probation -/

/-- Sequence numbers one after the other, from `seq` on. -/
def consecutive (seq : UInt16) (n : Nat) : List UInt16 :=
  (List.range n).map fun i => seq + UInt16.ofNat i

/-- As many consecutive numbers as it takes leave the source validated. -/
def Validates (s : RtpSource) (seq : UInt16) : Prop :=
  ∃ s' log, runAll receive (s, []) (consecutive seq LIBRTP_MIN_SEQUENTIAL.toNat)
    = .ok (s', log) ∧ s'.probation = 0

theorem consecutive_two (seq : UInt16) :
    consecutive seq LIBRTP_MIN_SEQUENTIAL.toNat = [seq, seq + 1] := by
  change [seq + 0, seq + 1] = _
  rw [UInt16.add_zero]

/-- The source after the first of the numbers, unless that one validates it. -/
theorem updateSeq_first {s : RtpSource} (seq : UInt16) (hlow : 1 ≤ s.probation)
    (hhigh : s.probation ≤ LIBRTP_MIN_SEQUENTIAL)
    (hfirst : ¬ (s.probation = 1 ∧ seq.toNat = s.maxSeq.toNat + 1)) :
    rtpSourceUpdateSeq s seq = .ok (RTP_ERROR, { s with probation := 1, maxSeq := seq }) := by
  rw [LIBRTP_MIN_SEQUENTIAL] at hhigh
  rw [rtpSourceUpdateSeq, if_pos (by omega)]
  by_cases hnext : seq.toNat = s.maxSeq.toNat + 1
  · have hone : s.probation - 1 = 1 := by omega
    rw [if_pos hnext]
    dsimp only
    rw [hone, if_neg (by decide)]
  · rw [if_neg hnext]
    rfl

/-- A number that follows ends the last step of the probation. -/
theorem updateSeq_last {s : RtpSource} {seq : UInt16} (hprob : s.probation = 1)
    (hnext : seq.toNat = s.maxSeq.toNat + 1) :
    rtpSourceUpdateSeq s seq
      = .ok (RTP_OK, { rtpSourceResetSeq s seq with probation := 0, received := 1 }) := by
  rw [rtpSourceUpdateSeq, if_pos (by omega), if_pos hnext]
  dsimp only
  rw [hprob]
  rfl

/-- A validated source accepts the next number. -/
theorem updateSeq_next {s : RtpSource} (seq : UInt16) (hvalid : s.probation = 0)
    (hmax : s.maxSeq = seq) (hroom : s.received = 1) :
    ∃ s', rtpSourceUpdateSeq s (seq + 1) = .ok (RTP_OK, s') ∧ s'.probation = 0 := by
  have hdelta : (seq + 1 - s.maxSeq).toNat = 1 := by
    rw [hmax, UInt16.add_comm, UInt16.add_sub_cancel]
    rfl
  rw [rtpSourceUpdateSeq, if_neg (by omega), if_pos (by rw [hdelta]; decide),
    countReceived_ok (n := 1) (by exact hroom) (by omega)]
  exact ⟨_, rfl, hvalid⟩

theorem runAll_two {s t u : RtpSource} {a b : UInt16} {r q : Int}
    (ha : rtpSourceUpdateSeq s a = .ok (r, t)) (hb : rtpSourceUpdateSeq t b = .ok (q, u)) :
    runAll receive (s, []) [a, b] = .ok (u, [r, q]) := by
  rw [runAll_cons, receive, bind_of_ok ha, ok_bind, runAll_cons, receive, bind_of_ok hb]
  rfl

/-- Only where the second number follows a wrap does it not follow the first. -/
theorem toNat_succ_eq_iff (seq : UInt16) :
    (seq + 1).toNat = seq.toNat + 1 ↔ seq ≠ 65535 := by
  have hlt := seq.toNat_lt
  rw [Ne, ← UInt16.toNat_inj, UInt16.toNat_add]
  change (seq.toNat + 1) % 65536 = _ ↔ ¬ seq.toNat = 65535
  omega

/-- A source in probation is validated by consecutive numbers, unless the wrap lies between
them and the first does not already validate it. -/
theorem validates_iff {s : RtpSource} (seq : UInt16) (hlow : 1 ≤ s.probation)
    (hhigh : s.probation ≤ LIBRTP_MIN_SEQUENTIAL) :
    Validates s seq ↔ seq ≠ 65535 ∨ (s.probation = 1 ∧ s.maxSeq = 65534) := by
  rw [Validates, consecutive_two]
  by_cases hfirst : s.probation = 1 ∧ seq.toNat = s.maxSeq.toNat + 1
  · -- the first number validates the source
    obtain ⟨s', hnext, hvalid⟩ := updateSeq_next
      (s := { rtpSourceResetSeq s seq with probation := 0, received := 1 }) seq rfl rfl rfl
    have hrun := runAll_two (updateSeq_last hfirst.1 hfirst.2) hnext
    constructor
    · intro _
      by_cases hseq : seq = 65535
      · refine .inr ⟨hfirst.1, ?_⟩
        have hmax := hfirst.2
        rw [hseq] at hmax
        exact UInt16.toNat_inj.mp (show s.maxSeq.toNat = 65534 from (Nat.succ.inj hmax).symm)
      · exact .inl hseq
    · intro _
      exact ⟨s', _, hrun, hvalid⟩
  · have hone := updateSeq_first seq hlow hhigh hfirst
    by_cases hseq : seq = 65535
    · -- the second number is zero
      have hstop := updateSeq_first (s := { s with probation := 1, maxSeq := seq }) (seq + 1)
        (Int.le_refl 1) (show (1 : Int) ≤ 2 by decide)
        (fun h => (toNat_succ_eq_iff seq).mp h.2 hseq)
      constructor
      · rintro ⟨s', log, hrun, hvalid⟩
        rw [runAll_two hone hstop] at hrun
        cases hrun
        cases hvalid
      · rintro (hne | ⟨hprob, hmax⟩)
        · exact absurd hseq hne
        · refine absurd ⟨hprob, ?_⟩ hfirst
          rw [hseq, hmax]
          rfl
    · have hlast := updateSeq_last (s := { s with probation := 1, maxSeq := seq }) rfl
        ((toNat_succ_eq_iff seq).mpr hseq)
      constructor
      · intro _
        exact .inl hseq
      · intro _
        exact ⟨_, _, runAll_two hone hlast, rfl⟩

theorem validates_iff_start :
    Validates (rtpSourceInit rtpSourceCreate 7 100) 100 ↔
      (100 : UInt16) ≠ 65535 ∨ ((rtpSourceInit rtpSourceCreate 7 100).probation = 1 ∧
        (rtpSourceInit rtpSourceCreate 7 100).maxSeq = 65534) :=
  validates_iff 100 (by decide) (by decide)

/-- A source that begins with the last number before the wrap. -/
theorem validates_fails :
    ¬ ∀ (s : RtpSource) (seq : UInt16), 1 ≤ s.probation → s.probation ≤ LIBRTP_MIN_SEQUENTIAL →
      Validates s seq := by
  intro h
  obtain ⟨s', log, hrun, hvalid⟩ :=
    h (rtpSourceInit rtpSourceCreate 7 65535) 65535 (by decide) (by decide)
  have hend : runAll receive (rtpSourceInit rtpSourceCreate 7 65535, [])
      (consecutive 65535 LIBRTP_MIN_SEQUENTIAL.toNat)
      = .ok ({ rtpSourceInit rtpSourceCreate 7 65535 with probation := 1, maxSeq := 0 },
        [RTP_ERROR, RTP_ERROR]) := rfl
  rw [hend] at hrun
  cases hrun
  cases hvalid

/-! ## The tally -/

/-- What the calls since the last reset come to. -/
structure Tally where
  /-- The number of the reset. -/
  base : UInt16
  /-- The calls that returned zero since, the one that caused the reset among them. -/
  accepted : Nat
  /-- The last number since that was refused for a jump. -/
  jumped : Option UInt16
deriving DecidableEq, Repr

/-- The source afterwards is as `rtp_source_reset_seq` leaves it, with one packet counted. -/
def Restarted (s : RtpSource) (seq : UInt16) (s' : RtpSource) : Prop :=
  s' = { rtpSourceResetSeq s seq with probation := s'.probation, received := 1 }

instance (s : RtpSource) (seq : UInt16) (s' : RtpSource) : Decidable (Restarted s seq s') :=
  inferInstanceAs (Decidable (_ = _))

/-- The tally of a source just initialised. -/
def Tally.start (first : UInt16) : Tally := ⟨first, 0, none⟩

/-- A call on `s` that returned `r` and left `s'`. A validated source refuses nothing but jumps. -/
def Tally.note (b : Tally) (s : RtpSource) (seq : UInt16) (r : Int) (s' : RtpSource) : Tally :=
  if r = RTP_OK then
    if Restarted s seq s' then ⟨seq, 1, none⟩ else { b with accepted := b.accepted + 1 }
  else if s.probation > 0 then b
  else { b with jumped := some seq }

/-- A call under the eyes of the observer. -/
def observe (x : RtpSource × Tally) (seq : UInt16) : Exec (RtpSource × Tally) := do
  let (r, s') ← rtpSourceUpdateSeq x.1 seq
  .ok (s', x.2.note x.1 seq r s')

/-- The number after the one refused last, or one that no packet has. -/
def badSeqOf : Option UInt16 → UInt32
  | none => UInt32.ofNat (LIBRTP_SEQ_MOD + 1)
  | some seq => (seq + 1).toUInt32

/-- The source agrees with the tally once it is validated. -/
structure Agrees (s : RtpSource) (b : Tally) : Prop where
  badSeq : s.badSeq = badSeqOf b.jumped
  accepted : s.probation ≤ 0 → 1 ≤ b.accepted
  received : s.probation ≤ 0 → s.received = b.accepted
  baseSeq : s.probation ≤ 0 → s.baseSeq = b.base.toUInt32
  cycles : s.probation ≤ 0 → LIBRTP_SEQ_MOD ∣ s.cycles.toNat

theorem agrees_start (s : RtpSource) (id : UInt32) (first : UInt16) :
    Agrees (rtpSourceInit s id first) (Tally.start first) := by
  have hprob : ¬ (rtpSourceInit s id first).probation ≤ 0 :=
    show ¬ LIBRTP_MIN_SEQUENTIAL ≤ 0 by decide
  constructor
  · rfl
  · exact fun h => absurd h hprob
  · exact fun h => absurd h hprob
  · exact fun h => absurd h hprob
  · exact fun h => absurd h hprob

/-- A source that has just begun to count. -/
theorem agrees_restarted {s s' : RtpSource} {seq : UInt16} (h : Restarted s seq s') :
    Agrees s' ⟨seq, 1, none⟩ := by
  rw [Restarted] at h
  rw [h]
  constructor
  · rfl
  · exact fun _ => Nat.le_refl 1
  · exact fun _ => rfl
  · exact fun _ => rfl
  · exact fun _ => ⟨0, rfl⟩

/-- The mask that makes the next number one of sixteen bits. -/
theorem badSeqOf_some (seq : UInt16) :
    badSeqOf (some seq) = (seq.toUInt32 + 1) &&& UInt32.ofNat (LIBRTP_SEQ_MOD - 1) := by
  have hlt := seq.toNat_lt
  rw [badSeqOf, ← UInt32.toNat_inj, UInt16.toNat_toUInt32, UInt16.toNat_add, UInt32.toNat_and,
    UInt32.toNat_add, UInt16.toNat_toUInt32]
  change (seq.toNat + 1) % 65536 = ((seq.toNat + 1) % 2 ^ 32) &&& (2 ^ 16 - 1)
  rw [Nat.and_two_pow_sub_one_eq_mod]
  omega

/-- A wrap adds a multiple of the modulus. -/
theorem dvd_cycles_add {cycles : UInt32} (h : LIBRTP_SEQ_MOD ∣ cycles.toNat) :
    LIBRTP_SEQ_MOD ∣ (cycles + UInt32.ofNat LIBRTP_SEQ_MOD).toNat := by
  rw [LIBRTP_SEQ_MOD] at h ⊢
  rw [UInt32.toNat_add]
  change 65536 ∣ (cycles.toNat + 65536) % 2 ^ 32
  omega

/-- An accepted packet that starts nothing counts on. -/
theorem not_restarted {s s' : RtpSource} {seq : UInt16} (hreceived : 1 ≤ s.received)
    (hs' : s'.received = s.received + 1) : ¬ Restarted s seq s' := by
  intro h
  rw [Restarted] at h
  rw [h] at hs'
  change (1 : Int) = _ at hs'
  omega

/-- A packet counted without a reset. -/
theorem agrees_counted {s s' : RtpSource} {b : Tally} (h : Agrees s b) (hvalid : s.probation ≤ 0)
    (hbad : s'.badSeq = s.badSeq) (hbase : s'.baseSeq = s.baseSeq)
    (hreceived : s'.received = s.received + 1) (hcycles : LIBRTP_SEQ_MOD ∣ s'.cycles.toNat) :
    Agrees s' { b with accepted := b.accepted + 1 } := by
  constructor
  · exact hbad.trans h.badSeq
  · exact fun _ => Nat.le_add_left 1 _
  · intro _
    rw [hreceived, h.received hvalid]
    rfl
  · exact fun _ => hbase.trans (h.baseSeq hvalid)
  · exact fun _ => hcycles

theorem observe_agrees {s s' : RtpSource} {b b' : Tally} {seq : UInt16} (h : Agrees s b)
    (hrun : observe (s, b) seq = .ok (s', b')) : Agrees s' b' := by
  obtain ⟨⟨r, t⟩, hcall, hrun⟩ := bind_eq_ok.mp hrun
  cases hrun
  by_cases hprob : s.probation > 0
  · rcases updateSeq_probation hprob hcall with ⟨hr, hs'⟩ | ⟨hr, hpos, hs'⟩
    · have hrestart : Restarted s seq s' := by
        rw [Restarted, hs']
      rw [Tally.note, if_pos hr, if_pos hrestart]
      exact agrees_restarted hrestart
    · rw [Tally.note, hr, if_neg (by decide), if_pos hprob]
      have hbad : s'.badSeq = s.badSeq := by rw [hs']
      refine ⟨hbad.trans h.badSeq, ?_, ?_, ?_, ?_⟩ <;> (intro hvalid; omega)
  · have hvalid : s.probation ≤ 0 := Int.not_lt.mp hprob
    have hone : 1 ≤ s.received := by
      have := h.accepted hvalid
      rw [h.received hvalid]
      omega
    rcases updateSeq_valid hvalid hcall with
      ⟨-, hr, hs'⟩ | ⟨-, hr, hs'⟩ | ⟨-, -, hr, hs'⟩ | ⟨-, -, hr, hs'⟩
    · have hcount : ¬ Restarted s seq s' := not_restarted hone (by rw [hs'])
      have hcycles : LIBRTP_SEQ_MOD ∣ s'.cycles.toNat := by
        rw [hs']
        dsimp only
        split
        · exact dvd_cycles_add (h.cycles hvalid)
        · exact h.cycles hvalid
      rw [Tally.note, if_pos hr, if_neg hcount]
      exact agrees_counted h hvalid (by rw [hs']) (by rw [hs']) (by rw [hs']) hcycles
    · have hcount : ¬ Restarted s seq s' := not_restarted hone (by rw [hs'])
      have hcycles : LIBRTP_SEQ_MOD ∣ s'.cycles.toNat := by
        rw [hs']
        exact h.cycles hvalid
      rw [Tally.note, if_pos hr, if_neg hcount]
      exact agrees_counted h hvalid (by rw [hs']) (by rw [hs']) (by rw [hs']) hcycles
    · have hrestart : Restarted s seq s' := by
        rw [Restarted, hs']
      rw [Tally.note, if_pos hr, if_pos hrestart]
      exact agrees_restarted hrestart
    · rw [Tally.note, hr, if_neg (by decide), if_neg hprob, hs']
      constructor
      · exact (badSeqOf_some seq).symm
      · exact h.accepted
      · exact h.received
      · exact h.baseSeq
      · exact h.cycles

theorem observe_run {s₀ s : RtpSource} {b : Tally} (id : UInt32) (first : UInt16)
    (seqs : List UInt16)
    (hrun : runAll observe (rtpSourceInit s₀ id first, Tally.start first) seqs = .ok (s, b)) :
    Agrees s b :=
  runAll_history (I := fun _ x => Agrees x.1 x.2) (agrees_start s₀ id first)
    (fun _ _ _ _ _ h hcall => observe_agrees h hcall) seqs hrun

/-! ## The next call -/

/-- Only a full counter stops a call. -/
theorem updateSeq_returns {s : RtpSource} (hvalid : s.probation ≤ 0) (hlow : 0 ≤ s.received)
    (hroom : s.received < 2 ^ 31 - 1) (seq : UInt16) :
    ∃ r s', rtpSourceUpdateSeq s seq = .ok (r, s') := by
  have hcount : ∀ t : RtpSource, 0 ≤ t.received → t.received < 2 ^ 31 - 1 →
      ∃ r s', countReceived t = .ok (r, s') := by
    intro t hlow hroom
    rw [countReceived, int32_of_lt (by omega) (by omega)]
    exact ⟨_, _, rfl⟩
  rw [rtpSourceUpdateSeq, if_neg (Int.not_lt.mpr hvalid)]
  dsimp only
  split
  · exact hcount _ hlow hroom
  · split
    · split
      · exact hcount _ (Int.le_refl 0) (show (0 : Int) < 2 ^ 31 - 1 by decide)
      · exact ⟨_, _, rfl⟩
    · exact hcount _ hlow hroom

/-- What a call on `seq` may do: an error leaves everything but `bad_seq`, and the source starts
again only on the successor of the last number refused for a jump, itself one that jumps. -/
def Lawful (s : RtpSource) (b : Tally) (seq : UInt16) : Prop :=
  ∀ r s', rtpSourceUpdateSeq s seq = .ok (r, s') →
    (r ≠ RTP_OK → s' = { s with badSeq := s'.badSeq }) ∧
    (r = RTP_OK → Restarted s seq s' → Jumps s seq ∧ b.jumped = some (seq - 1))

theorem badSeqOf_eq {seq : UInt16} {jumped : Option UInt16}
    (h : seq.toUInt32 = badSeqOf jumped) : jumped = some (seq - 1) := by
  cases jumped with
  | none =>
    have hlt := seq.toNat_lt
    have hnat := congrArg UInt32.toNat h
    rw [UInt16.toNat_toUInt32] at hnat
    change seq.toNat = 65537 at hnat
    omega
  | some last =>
    have hnat := congrArg UInt32.toNat h
    rw [badSeqOf, UInt16.toNat_toUInt32, UInt16.toNat_toUInt32] at hnat
    rw [UInt16.toNat_inj.mp hnat, UInt16.add_sub_cancel]

theorem lawful {s : RtpSource} {b : Tally} (h : Agrees s b) (hvalid : s.probation ≤ 0)
    (seq : UInt16) : Lawful s b seq := by
  intro r s' hcall
  have hone : 1 ≤ s.received := by
    have := h.accepted hvalid
    rw [h.received hvalid]
    omega
  rcases updateSeq_valid hvalid hcall with
    ⟨-, hr, hs'⟩ | ⟨-, hr, hs'⟩ | ⟨hjumps, hbad, hr, -⟩ | ⟨-, -, hr, hs'⟩
  · exact ⟨fun hne => absurd hr hne,
      fun _ hrestart => absurd hrestart (not_restarted hone (by rw [hs']))⟩
  · exact ⟨fun hne => absurd hr hne,
      fun _ hrestart => absurd hrestart (not_restarted hone (by rw [hs']))⟩
  · exact ⟨fun hne => absurd hr hne,
      fun _ _ => ⟨hjumps, badSeqOf_eq (hbad.trans h.badSeq)⟩⟩
  · refine ⟨fun _ => by rw [hs'], fun hok => ?_⟩
    rw [hr] at hok
    cases hok

/-- After any run, a validated source has counted the packets accepted since its last reset and
counts from the number of that reset. The next call returns unless the counter is full. -/
theorem resync_bookkeeping {s₀ s : RtpSource} {b : Tally} (id : UInt32) (first : UInt16)
    (seqs : List UInt16)
    (hrun : runAll observe (rtpSourceInit s₀ id first, Tally.start first) seqs = .ok (s, b))
    (hvalid : s.probation = 0) :
    s.received = b.accepted ∧ s.baseSeq = b.base.toUInt32 ∧ LIBRTP_SEQ_MOD ∣ s.cycles.toNat ∧
      (∀ seq, Lawful s b seq) ∧
      (b.accepted < 2 ^ 31 - 1 → ∀ seq, ∃ r s', rtpSourceUpdateSeq s seq = .ok (r, s')) := by
  have h := observe_run id first seqs hrun
  have hle : s.probation ≤ 0 := Int.le_of_eq hvalid
  have hreceived := h.received hle
  refine ⟨hreceived, h.baseSeq hle, h.cycles hle, lawful h hle, fun hroom seq => ?_⟩
  exact updateSeq_returns hle (by omega) (by omega) seq

/-- Two packets validate the source, a third jumps and a fourth restarts it. -/
theorem resync_bookkeeping_jump :
    let b : Tally := ⟨40001, 1, none⟩
    let s : RtpSource := { rtpSourceResetSeq (rtpSourceInit rtpSourceCreate 7 100) 40001 with
      probation := 0, received := 1 }
    s.received = b.accepted ∧ s.baseSeq = b.base.toUInt32 ∧ LIBRTP_SEQ_MOD ∣ s.cycles.toNat ∧
      (∀ seq, Lawful s b seq) ∧
      (b.accepted < 2 ^ 31 - 1 → ∀ seq, ∃ r s', rtpSourceUpdateSeq s seq = .ok (r, s')) :=
  @resync_bookkeeping rtpSourceCreate _ _ 7 100 [100, 101, 40000, 40001] rfl rfl

end RtpSdr.Rtp.Resync
