import Mathlib.Tactic.Linarith
import RtpSdr.Sdr.Sequence

/-!
# The pause behind a transmission

`_pause` compares what one packet carries in the time it took with the sample rate, and waits if it
was too fast. The clock is a sequence of readings. Where the packet is large enough to wait for,
the wait ends when the packet's share of the time is over. The two samples of a transmission are
too few at every sample rate: the sender is never held back, and the division stops it if the clock
has not moved.
-/
namespace RtpSdr.Sdr.Pace

open RtpSdr.Lib.Checked
open RtpSdr.Lib.Memory
open RtpSdr.Rtp.Header
open RtpSdr.Sdr.Rbuf
open RtpSdr.Sdr.Iq
open RtpSdr.Sdr.Transmit
open RtpSdr.Sdr.Datagram
open RtpSdr.Sdr.Sequence (Action fill)

/-- `struct timeval`. -/
structure Timeval where
  sec : Int
  usec : Int

/-- What the calls of `gettimeofday` find, one after the other. -/
abbrev Clock := Nat → Timeval

/-- `enum SAMPLE_RATE`. -/
inductive SampleRate where
  | sr48K
  | sr96K
  | sr192K
  | sr384K
  | sr768K
  | sr1536K
deriving DecidableEq, Repr

section Source

def SampleRate.value : SampleRate → Int
  | .sr48K => 48000
  | .sr96K => 96000
  | .sr192K => 192000
  | .sr384K => 384000
  | .sr768K => 768000
  | .sr1536K => 1536000

/-- The value of a `long` expression. -/
def int64 (n : Int) : Exec Int :=
  if -2 ^ 63 ≤ n ∧ n < 2 ^ 63 then .ok n else .error .overflow

/-- The conversion of a `long` to `int`. -/
def toInt (n : Int) : Int := n.bmod (2 ^ 32)

/-- A quotient of two `long`, which zero does not have. -/
def quotient (a b : Int) : Exec Int := if b = 0 then .error .division else int64 (a.tdiv b)

/-- `duration_now`. -/
def durationNow (start now : Timeval) : Exec Int := do
  let sec ← int64 (now.sec - start.sec)
  let sec ← int64 (sec * 1000000)
  let usec ← int64 (now.usec - start.usec)
  int64 (sec + usec)

/-- The three statements that compute `diff`, an `int`. -/
def diff (start now : Timeval) : Exec Int := do
  let sec ← int64 (now.sec - start.sec)
  let diff ← int32 (toInt sec * 1000000)
  let usec ← int64 (now.usec - start.usec)
  let sum ← int64 (diff + usec)
  .ok (toInt sum)

/-- The loop around `usleep`, which begins with reading `first`. The state is `diff`, the next
reading and the arguments of `usleep`. -/
def wait (fuel : Nat) (clock : Clock) (first : Nat) (intDelay : Int) : Exec (Nat × List Int) :=
  loopFuel (fun (s : Int × Nat × List Int) =>
    if s.1 < intDelay then do
      let slept := if intDelay - s.1 > 200 then s.2.2 ++ [intDelay - 20] else s.2.2
      let d ← diff (clock first) (clock s.2.1)
      .ok (.next (d, s.2.1 + 1, slept))
    else .ok (.leave s.2)) fuel (0, first + 1, [])

/-- `_pause`, from reading `n` of the clock on: the next reading and the arguments of `usleep`. The
rate is compared as a `double`, which holds both integers exactly; the message for a delay that is
not positive or more than ten seconds changes nothing. -/
def pause (fuel : Nat) (clock : Clock) (n : Nat) (start : Timeval) (packetLen sampleRate : Int) :
    Exec (Nat × List Int) := do
  let duration ← durationNow start (clock n)
  let bits ← int32 (packetLen * 8)
  let bits ← int32 (bits * 1000)
  let rateNow ← quotient bits duration
  if rateNow > sampleRate then do
    let delay ← quotient bits sampleRate
    let intDelay ← int64 (delay - duration)
    if intDelay > 0 then wait fuel clock (n + 1) intDelay else .ok (n + 1, [])
  else .ok (n + 1, [])

/-- A session that transmits, with the next reading of the clock and all arguments of `usleep`. -/
structure Timed where
  session : SessionIq
  reading : Nat
  slept : List Int

/-- `rcp_iq_transmit` with its first and its last statement. -/
def transmitTimed (fuel : Nat) (clock : Clock) (rate : SampleRate) (s : Timed) (data : List UInt8)
    (iqFrame : List IqT) (error : Int) : Exec Timed := do
  let t ← rcpIqTransmit 256 s.session data iqFrame error
  if t.result = RTP_SDR_OK then do
    let (reading, slept) ← pause fuel clock (s.reading + 1) (clock s.reading)
      (packetLen t.session.txType (sizeofInt / 2)).toNat rate.value
    .ok ⟨t.session, reading, s.slept ++ slept⟩
  else .ok ⟨t.session, s.reading + 1, s.slept⟩

end Source

/-- The calls of a session. -/
def actTimed (fuel : Nat) (clock : Clock) (rate : SampleRate) (s : Timed) : Action → Exec Timed
  | .put data => do
    let txIqBuffer ← rbufPut s.session.txIqBuffer data
    .ok { s with session := { s.session with txIqBuffer := txIqBuffer } }
  | .tryPut data => do
    let (_, txIqBuffer) ← rbufTryPut s.session.txIqBuffer data
    .ok { s with session := { s.session with txIqBuffer := txIqBuffer } }
  | .transmit data iqFrame sent =>
    transmitTimed fuel clock rate s data.toList iqFrame.toList sent

/-! ## The clock -/

def Timeval.micros (t : Timeval) : Int := t.sec * 1000000 + t.usec

/-- A time that the system can say, some thirty thousand years on. -/
structure Timeval.Legal (t : Timeval) : Prop where
  sec : 0 ≤ t.sec ∧ t.sec < 2 ^ 40
  usec : 0 ≤ t.usec ∧ t.usec < 1000000

variable {clock : Clock} {start now : Timeval} {n k fuel : Nat} {packetLen sampleRate : Int}

/-- The clock is never set back. -/
def Clock.Forward (clock : Clock) : Prop := ∀ m k, m ≤ k → (clock m).micros ≤ (clock k).micros

theorem int64_of_lt {a : Int} (hlow : -2 ^ 63 ≤ a) (hhigh : a < 2 ^ 63) : int64 a = .ok a :=
  if_pos ⟨hlow, hhigh⟩

theorem toInt_of_lt {a : Int} (hlow : -2 ^ 31 ≤ a) (hhigh : a < 2 ^ 31) : toInt a = a :=
  Int.bmod_eq_of_le_mul_two (by omega) (by omega)

theorem durationNow_ok (hstart : start.Legal) (hnow : now.Legal) :
    durationNow start now = .ok (now.micros - start.micros) := by
  have hs := hstart.sec
  have hu := hstart.usec
  have hs' := hnow.sec
  have hu' := hnow.usec
  rw [durationNow, bind_of_ok (int64_of_lt (by omega) (by omega)),
    bind_of_ok (int64_of_lt (by omega) (by omega)), bind_of_ok (int64_of_lt (by omega) (by omega)),
    int64_of_lt (by omega) (by omega), Timeval.micros, Timeval.micros]
  congr 1
  omega

/-- Within some thirty-five minutes the difference fits into an `int`. -/
theorem diff_ok (hstart : start.Legal) (hnow : now.Legal) (hle : start.micros ≤ now.micros)
    (hspan : now.micros < start.micros + 2147000000) :
    diff start now = .ok (now.micros - start.micros) := by
  have hs := hstart.sec
  have hu := hstart.usec
  have hs' := hnow.sec
  have hu' := hnow.usec
  rw [Timeval.micros, Timeval.micros] at hle hspan
  rw [diff, bind_of_ok (int64_of_lt (by omega) (by omega)), toInt_of_lt (by omega) (by omega),
    bind_of_ok (int32_of_lt (by omega) (by omega)), bind_of_ok (int64_of_lt (by omega) (by omega)),
    bind_of_ok (int64_of_lt (by omega) (by omega)), toInt_of_lt (by omega) (by omega),
    Timeval.micros, Timeval.micros]
  congr 1
  omega

/-! ## What the pause does -/

/-- The wait ends with the first reading that is late enough. -/
theorem wait_ok {first : Nat} {d : Int} (hlegal : ∀ m, (clock m).Legal)
    (hmono : clock.Forward)
    (hspan : (clock (first + k)).micros < (clock first).micros + 2147000000)
    (hreach : d ≤ (clock (first + k)).micros - (clock first).micros) (hfuel : k < fuel) :
    ∃ r, wait fuel clock first d = .ok r ∧ first < r.1 ∧
      d ≤ (clock (r.1 - 1)).micros - (clock first).micros := by
  rw [wait]
  refine loopFuel_variant
    (I := fun (s : Int × Nat × List Int) => first < s.2.1 ∧ s.2.1 ≤ first + k + 1 ∧
      s.1 = (clock (s.2.1 - 1)).micros - (clock first).micros)
    (Q := fun (r : Nat × List Int) =>
      first < r.1 ∧ d ≤ (clock (r.1 - 1)).micros - (clock first).micros)
    (fun s => first + k + 1 - s.2.1) ?_ fuel (0, first + 1, [])
    ⟨Nat.lt_succ_self first, ?_, ?_⟩ ?_
  · rintro ⟨e, m, slept⟩ ⟨hfirst, hlast, he⟩
    dsimp only at hfirst hlast he ⊢
    rw [he]
    by_cases hearly : (clock (m - 1)).micros - (clock first).micros < d
    · have hm : m ≤ first + k := by
        by_contra hbehind
        have hend : m - 1 = first + k := by omega
        rw [hend] at hearly
        omega
      have hle := hmono _ _ (Nat.le_of_lt hfirst)
      have hle' := hmono _ _ hm
      have hdiff := diff_ok (hlegal first) (hlegal m) hle (by omega)
      refine .inl ⟨_, by rw [if_pos hearly, bind_of_ok hdiff], ⟨?_, ?_, ?_⟩, ?_⟩
      · exact Nat.lt_succ_of_lt hfirst
      · exact Nat.succ_le_succ hm
      · rfl
      · dsimp only
        omega
    · exact .inr ⟨_, if_neg hearly, hfirst, Int.not_lt.mp hearly⟩
  · dsimp only
    omega
  · exact (Int.sub_self _).symm
  · dsimp only
    omega

/-- The quotient of a packet's bits and a time. -/
theorem quotient_ok {bits d : Int} (hbits : 0 ≤ bits) (hlt : bits < 2 ^ 31) (hd : d ≠ 0) :
    quotient bits d = .ok (bits.tdiv d) := by
  have habs := Int.natAbs_tdiv_le_natAbs bits d
  rw [quotient, if_neg hd, int64_of_lt (by omega) (by omega)]

/-- A clock that has not moved stops the division, and one that has lets the pause go on. -/
theorem pause_eq (hstart : start.Legal) (hnow : (clock n).Legal) (hlen : 0 ≤ packetLen)
    (hbits : packetLen * 8000 < 2 ^ 31) :
    pause fuel clock n start packetLen sampleRate =
      if (clock n).micros - start.micros = 0 then .error .division
      else if (packetLen * 8000).tdiv ((clock n).micros - start.micros) > sampleRate then do
        let delay ← quotient (packetLen * 8000) sampleRate
        let intDelay ← int64 (delay - ((clock n).micros - start.micros))
        if intDelay > 0 then wait fuel clock (n + 1) intDelay else .ok (n + 1, [])
      else .ok (n + 1, []) := by
  have hmul : packetLen * 8 * 1000 = packetLen * 8000 := by omega
  rw [pause, bind_of_ok (durationNow_ok hstart hnow),
    bind_of_ok (int32_of_lt (by omega) (by omega)), bind_of_ok (int32_of_lt (by omega) (by omega)),
    hmul]
  by_cases hzero : (clock n).micros - start.micros = 0
  · rw [if_pos hzero, quotient, if_pos hzero, error_bind]
  · rw [if_neg hzero, bind_of_ok (quotient_ok (by omega) hbits hzero)]

theorem pause_moved (hlegal : ∀ m, (clock m).Legal) (hstart : start.Legal)
    (hmono : clock.Forward) (hbefore : start.micros ≤ (clock n).micros)
    (hmoved : (clock n).micros ≠ start.micros)
    (hlen : 0 ≤ packetLen) (hbits : packetLen * 8000 < 2 ^ 31) (hrate : 0 < sampleRate)
    (hreach : packetLen * 8000
      ≤ ((clock (n + 1 + k)).micros - (clock (n + 1)).micros) * sampleRate)
    (hspan : (clock (n + 1 + k)).micros < (clock (n + 1)).micros + 2147000000)
    (hfuel : k < fuel) :
    ∃ r, pause fuel clock n start packetLen sampleRate = .ok r ∧ n < r.1 ∧
      packetLen * 8000 < ((clock (r.1 - 1)).micros - start.micros + 1) * (sampleRate + 1) := by
  rw [pause_eq hstart (hlegal n) hlen hbits]
  have hnow := hlegal n
  have hs := hnow.sec
  have hu := hnow.usec
  have hs' := hstart.sec
  have hu' := hstart.usec
  generalize hT : (clock n).micros - start.micros = T
  have hT' : T < 2 ^ 62 := by
    rw [Timeval.micros, Timeval.micros] at hT
    omega
  have hcarries : 0 ≤ packetLen * 8000 := by omega
  generalize packetLen * 8000 = bits at *
  have hdelay : bits.tdiv sampleRate = bits / sampleRate := Int.tdiv_eq_ediv_of_nonneg (by omega)
  have hshare : bits < (bits / sampleRate + 1) * sampleRate :=
    Int.lt_ediv_add_one_mul_self bits hrate
  have hnonneg : 0 ≤ bits / sampleRate := Int.ediv_nonneg (by omega) (by omega)
  have hle : bits / sampleRate ≤ bits := Int.ediv_le_self _ (by omega)
  have hpos : 0 < T := by omega
  rw [if_neg (by omega), Int.tdiv_eq_ediv_of_nonneg (by omega)]
  by_cases hfast : bits / T > sampleRate
  · rw [if_pos hfast, bind_of_ok (quotient_ok (by omega) hbits (by omega)), hdelay,
      bind_of_ok (int64_of_lt (by omega) (by omega))]
    by_cases hwait : bits / sampleRate - T > 0
    · rw [if_pos hwait]
      have hlate : bits / sampleRate
          ≤ (clock (n + 1 + k)).micros - (clock (n + 1)).micros := by
        rw [← Int.lt_add_one_iff]
        exact Int.ediv_lt_of_lt_mul hrate (by rw [Int.add_mul]; omega)
      obtain ⟨r, hrun, hr, hd⟩ := wait_ok hlegal hmono hspan
        (show bits / sampleRate - T ≤ _ by omega) hfuel
      refine ⟨r, hrun, by omega, ?_⟩
      have hnext := hmono n (n + 1) (Nat.le_succ n)
      have hshare' : bits / sampleRate ≤ (clock (r.1 - 1)).micros - start.micros := by omega
      nlinarith
    · rw [if_neg hwait]
      refine ⟨_, rfl, Nat.lt_succ_self n, ?_⟩
      rw [Nat.add_sub_cancel, hT]
      nlinarith
  · rw [if_neg hfast]
    refine ⟨_, rfl, Nat.lt_succ_self n, ?_⟩
    have hslow := Int.lt_ediv_add_one_mul_self bits hpos
    rw [Nat.add_sub_cancel, hT]
    nlinarith

/-- The pause divides by zero exactly if the clock has not moved. Else it returns, and the packet
has taken its share of the time, up to a microsecond and to one sample a second. -/
theorem pause_paces (hlegal : ∀ m, (clock m).Legal) (hstart : start.Legal)
    (hmono : clock.Forward) (hbefore : start.micros ≤ (clock n).micros)
    (hlen : 0 ≤ packetLen) (hbits : packetLen * 8000 < 2 ^ 31) (hrate : 0 < sampleRate)
    (hreach : packetLen * 8000
      ≤ ((clock (n + 1 + k)).micros - (clock (n + 1)).micros) * sampleRate)
    (hspan : (clock (n + 1 + k)).micros < (clock (n + 1)).micros + 2147000000)
    (hfuel : k < fuel) :
    (pause fuel clock n start packetLen sampleRate = .error .division ↔
      (clock n).micros = start.micros) ∧
    ((clock n).micros ≠ start.micros →
      ∃ r, pause fuel clock n start packetLen sampleRate = .ok r ∧ n < r.1 ∧
        packetLen * 8000
          < ((clock (r.1 - 1)).micros - start.micros + 1) * (sampleRate + 1)) := by
  by_cases hstood : (clock n).micros = start.micros
  · refine ⟨iff_of_true ?_ hstood, fun hmoved => absurd hstood hmoved⟩
    rw [pause_eq hstart (hlegal n) hlen hbits, if_pos (by omega)]
  · obtain ⟨r, hrun, hr⟩ := pause_moved hlegal hstart hmono hbefore hstood hlen hbits hrate hreach
      hspan hfuel
    refine ⟨iff_of_false (fun hstop => ?_) hstood, fun _ => ⟨r, hrun, hr⟩⟩
    rw [hrun] at hstop
    cases hstop

/-- A clock that moves on by a tenth of a millisecond with each reading, for a second. -/
def tenths : Clock := fun m => ⟨5, min (100 * m) 999999⟩

theorem tenths_legal (m : Nat) : (tenths m).Legal where
  sec := by
    dsimp only [tenths]
    decide
  usec := by
    dsimp only [tenths]
    omega

theorem tenths_forward : tenths.Forward := by
  intro m m' hle
  dsimp only [tenths, Timeval.micros]
  omega

/-- A thousand samples in a tenth of a millisecond are too fast. -/
theorem pause_paces_thousand :
    (pause 3 tenths 1 (tenths 0) 1000 48000 = .error .division ↔
      (tenths 1).micros = (tenths 0).micros) ∧
    ((tenths 1).micros ≠ (tenths 0).micros →
      ∃ r, pause 3 tenths 1 (tenths 0) 1000 48000 = .ok r ∧ 1 < r.1 ∧
        1000 * 8000 < ((tenths (r.1 - 1)).micros - (tenths 0).micros + 1) * (48000 + 1)) :=
  pause_paces (k := 2) tenths_legal (tenths_legal 0) tenths_forward (by decide) (by decide)
    (by decide) (by decide) (by decide) (by decide) (by decide)

/-! ## A transmission is too small to wait for -/

theorem pause_small (hstart : start.Legal) (hnow : (clock n).Legal) (hlen : 0 ≤ packetLen)
    (hbits : packetLen * 8000 < 2 ^ 31) (hsmall : packetLen * 8000 ≤ sampleRate) :
    pause fuel clock n start packetLen sampleRate =
      if (clock n).micros = start.micros then .error .division else .ok (n + 1, []) := by
  rw [pause_eq hstart hnow hlen hbits]
  have habs := Int.natAbs_tdiv_le_natAbs (packetLen * 8000) ((clock n).micros - start.micros)
  by_cases hstood : (clock n).micros = start.micros
  · rw [if_pos hstood, if_pos (by omega)]
  · rw [if_neg hstood, if_neg (by omega), if_neg (by omega)]

theorem rate_value_ge (rate : SampleRate) : 48000 ≤ rate.value := by cases rate <;> decide

variable {session : SessionIq} {c : Content} {q : List IqT} {capacity : Nat} {rate : SampleRate}
  {s : Timed} {p : Nat × Nat}

/-- What the calls do to the number of samples in the buffer and of the readings taken. -/
def follow (capacity : Nat) (p : Nat × Nat) : Action → Nat × Nat
  | .put data => (fill capacity p.1 (.put data), p.2)
  | .tryPut data => (fill capacity p.1 (.tryPut data), p.2)
  | .transmit _ _ _ => (p.1, if 2 ≤ p.1 then p.2 + 2 else p.2 + 1)

/-- A transmission that finds its samples finds that the clock has moved when they are sent. -/
def Moves (clock : Clock) (p : Nat × Nat) : Action → Prop
  | .put _ => True
  | .tryPut _ => True
  | .transmit _ _ _ => 2 ≤ p.1 → (clock (p.2 + 1)).micros ≠ (clock p.2).micros

/-- The session can send, its buffer holds so many samples, so many readings were taken, and it
never slept. -/
structure Awake (capacity : Nat) (s : Timed) (p : Nat × Nat) : Prop where
  canSend : ∃ c, CanSend s.session c
  buffer : ∃ q, Represents s.session.txIqBuffer q ∧ q.length = p.1
  capacity_eq : s.session.txIqBuffer.max.toNat - 1 = capacity
  reading : s.reading = p.2
  slept : s.slept = []

/-- A call that changes the buffer only. -/
theorem awake_buffer {buffer : RbufT IqT} (h : Awake capacity s p) (hrep : Represents buffer q)
    (hmax : buffer.max = s.session.txIqBuffer.max) :
    Awake capacity { s with session := { s.session with txIqBuffer := buffer } }
      (q.length, p.2) where
  canSend := h.canSend.imp fun _ hc => ⟨hc.shows, hc.ext⟩
  buffer := ⟨q, hrep, rfl⟩
  capacity_eq := by
    rw [← h.capacity_eq, ← hmax]
  reading := h.reading
  slept := h.slept

theorem act_put (h : Awake capacity s p) (data : IqT) :
    ∃ s', actTimed fuel clock rate s (.put data) = .ok s' ∧
      Awake capacity s' (follow capacity p (.put data)) := by
  obtain ⟨q, hq, hlen⟩ := h.buffer
  obtain ⟨buffer, hput, hmax, hrep⟩ := rbufPut_ok hq data
  have hone := hq.one_lt
  have hfits := hq.fits
  have hcap := h.capacity_eq
  refine ⟨_, by rw [actTimed, bind_of_ok hput], ?_⟩
  have hawake := awake_buffer h hrep hmax
  rw [follow, fill]
  convert hawake using 2
  rw [hcap, hlen]
  split
  · rw [List.length_append, List.length_singleton, hlen]
  · rw [List.length_append, List.length_singleton, List.length_tail]
    omega

theorem act_tryPut (h : Awake capacity s p) (data : IqT) :
    ∃ s', actTimed fuel clock rate s (.tryPut data) = .ok s' ∧
      Awake capacity s' (follow capacity p (.tryPut data)) := by
  obtain ⟨q, hq, hlen⟩ := h.buffer
  have hcap := h.capacity_eq
  rw [follow, fill]
  by_cases hroom : p.1 < capacity
  · have hroom' : q.length < s.session.txIqBuffer.max.toNat - 1 := by omega
    have hawake := awake_buffer h (represents_push hq hroom' data) rfl
    rw [List.length_append, List.length_singleton, hlen] at hawake
    rw [if_pos hroom]
    exact ⟨_, by rw [actTimed, bind_of_ok (rbufTryPut_ok hq hroom' data)], hawake⟩
  · have hfull : ¬ q.length < s.session.txIqBuffer.max.toNat - 1 := by omega
    have hawake := awake_buffer h hq rfl
    rw [hlen] at hawake
    rw [if_neg hroom]
    exact ⟨_, by rw [actTimed, bind_of_ok (rbufTryPut_full hq hfull data)], hawake⟩

/-- A transmission goes through if it finds too few samples or the clock has moved. -/
theorem act_transmit (h : Awake capacity s p) (hclock : ∀ m, (clock m).Legal)
    (data : Vector UInt8 RTP_PACKET_LENGTH) (iqFrame : Vector IqT 2) (sent : Nat) :
    (Moves clock p (.transmit data iqFrame sent) →
      ∃ s', actTimed fuel clock rate s (.transmit data iqFrame sent) = .ok s' ∧
        Awake capacity s' (follow capacity p (.transmit data iqFrame sent))) ∧
    (¬ Moves clock p (.transmit data iqFrame sent) →
      actTimed fuel clock rate s (.transmit data iqFrame sent) = .error .division) := by
  obtain ⟨c, hc⟩ := h.canSend
  obtain ⟨q, hq, hlen⟩ := h.buffer
  rw [actTimed, transmitTimed, Moves, follow]
  by_cases hfed : 2 ≤ p.1
  · have hrun := rcpIqTransmit_sends hc hq (by omega) data.length_toList iqFrame.length_toList sent
    have hcount : sampleCount s.session.txType ≤ 2 := by cases s.session.txType <;> decide
    have hrate := rate_value_ge rate
    rw [if_neg (Int.not_lt.mpr (Int.natCast_nonneg sent))] at hrun
    rw [bind_of_ok hrun]
    dsimp only
    rw [if_pos rfl, if_pos hfed]
    change (_ → ∃ s', (pause fuel clock (s.reading + 1) (clock s.reading)
      (sampleCount s.session.txType) rate.value >>= _) = _ ∧ _) ∧
        (_ → (pause fuel clock (s.reading + 1) (clock s.reading)
          (sampleCount s.session.txType) rate.value >>= _) = _)
    rw [pause_small (hclock _) (hclock _) (by omega) (by omega) (by omega), h.reading]
    constructor
    · intro hmoves
      rw [if_neg (hmoves hfed), ok_bind]
      refine ⟨_, rfl, ⟨_, hc.next⟩, ⟨q, hq, hlen⟩, h.capacity_eq, rfl, ?_⟩
      exact (List.append_nil _).trans h.slept
    · intro hstands
      rw [Classical.not_imp, not_not] at hstands
      rw [if_pos hstands.2, error_bind]
  · have hrun := rcpIqTransmit_refused hc hq (by omega) data.length_toList iqFrame.toList sent
    rw [bind_of_ok hrun]
    dsimp only
    rw [if_neg (by decide), if_neg hfed]
    refine ⟨fun _ => ?_, fun hstands => absurd (fun h => absurd h hfed) hstands⟩
    exact ⟨_, rfl, ⟨_, hc.next⟩, ⟨q, hq, hlen⟩, h.capacity_eq, congrArg (· + 1) h.reading, h.slept⟩

theorem act_awake (hclock : ∀ m, (clock m).Legal) (h : Awake capacity s p) (a : Action) :
    (Moves clock p a → ∃ s', actTimed fuel clock rate s a = .ok s' ∧
      Awake capacity s' (follow capacity p a)) ∧
    (¬ Moves clock p a → actTimed fuel clock rate s a = .error .division) := by
  cases a with
  | put data => exact ⟨fun _ => act_put h data, fun hstands => absurd trivial hstands⟩
  | tryPut data => exact ⟨fun _ => act_tryPut h data, fun hstands => absurd trivial hstands⟩
  | transmit data iqFrame sent => exact act_transmit h hclock data iqFrame sent

/-- Whatever the clock says and whichever the sample rate, a run goes through, with no transmission
held back, if the clock moves during each transmission that sends; else it divides by zero. -/
theorem transmissions_awake (h : CanSend session c) (hbuffer : Represents session.txIqBuffer q)
    (hclock : ∀ m, (clock m).Legal) (fuel : Nat) (rate : SampleRate) (actions : List Action) :
    (Along (follow (session.txIqBuffer.max.toNat - 1)) (Moves clock) (q.length, 0) actions →
      ∃ s, runAll (actTimed fuel clock rate) ⟨session, 0, []⟩ actions = .ok s ∧ s.slept = []) ∧
    (¬ Along (follow (session.txIqBuffer.max.toNat - 1)) (Moves clock) (q.length, 0) actions →
      runAll (actTimed fuel clock rate) ⟨session, 0, []⟩ actions = .error .division) := by
  have hstart : Awake (session.txIqBuffer.max.toNat - 1) ⟨session, 0, []⟩ (q.length, 0) :=
    ⟨⟨c, h⟩, ⟨q, hbuffer, rfl⟩, rfl, rfl, rfl⟩
  have hgoes (s : Timed) (p : Nat × Nat) (a : Action)
      (hs : Awake (session.txIqBuffer.max.toNat - 1) s p) (_ : True) (hmoves : Moves clock p a) :
      ∃ s', actTimed fuel clock rate s a = .ok s' ∧
        Awake (session.txIqBuffer.max.toNat - 1) s'
          (follow (session.txIqBuffer.max.toNat - 1) p a) :=
    (act_awake hclock hs a).1 hmoves
  have hstops (s : Timed) (p : Nat × Nat) (a : Action)
      (hs : Awake (session.txIqBuffer.max.toNat - 1) s p) (_ : True) (hstands : ¬ Moves clock p a) :
      actTimed fuel clock rate s a = .error .division :=
    (act_awake hclock hs a).2 hstands
  have hlegal : Along (follow (session.txIqBuffer.max.toNat - 1)) (fun _ _ => True)
      (q.length, 0) actions := along_of_forall (fun _ _ => trivial) actions
  constructor
  · intro halong
    obtain ⟨s, hrun, hawake⟩ := runAll_along hgoes actions hstart hlegal halong
    exact ⟨s, hrun, hawake.slept⟩
  · intro hnot
    exact runAll_error hgoes hstops actions hstart hlegal hnot

/-- Two samples and a transmission while the clock moves on. -/
theorem transmissions_awake_tenths :
    ∃ s, runAll (actTimed 0 tenths .sr48K) ⟨Sequence.drained .pt16, 0, []⟩
      [.put ⟨5, 6⟩, .tryPut ⟨7, 8⟩, .transmit (.replicate _ 0) (.replicate _ ⟨0, 0⟩) 4096]
        = .ok s ∧ s.slept = [] := by
  obtain ⟨c, h⟩ := Sequence.drained_canSend .pt16
  have hbuffer := represents_reset (supplied_represents .pt16)
  refine (transmissions_awake h hbuffer tenths_legal 0 .sr48K _).1 ?_
  exact ⟨trivial, trivial, fun _ => by decide, trivial⟩

end RtpSdr.Sdr.Pace
