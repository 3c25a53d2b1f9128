import RtpSdr.Sdr.Rbuf

/-!
# One producer and one consumer on the sample ring buffer

`rtp_sdr_rbuf_try_put` and `rtp_sdr_rbuf_get` cut into their atomic accesses. The
producer runs one and the consumer the other, over and over, and a schedule says
whose access comes next. Between two accesses a side holds a decision that may be
stale; the invariant says what each decision is still worth.
-/
namespace RtpSdr.Sdr.Spsc

open RtpSdr.Lib.Checked
open RtpSdr.Lib.Memory
open RtpSdr.Sdr.Rbuf

/-- Where a `rtp_sdr_rbuf_try_put` stands: not begun, past the full test, past the store. -/
inductive Producer (α : Type) where
  | idle
  | tested (data : α)
  | written (data : α)

/-- Where a `rtp_sdr_rbuf_get` stands: not begun, past the empty test, past the load. -/
inductive Consumer (α : Type) where
  | idle
  | tested
  | loaded (data : α)

/-- The shared buffer, both sides, and the samples of the calls that succeeded so far. -/
structure State (α : Type) where
  rbuf : RbufT α
  producer : Producer α
  consumer : Consumer α
  accepted : List α
  returned : List α

/-- Whose access comes next; the producer's next call, if it begins one, brings `data`. -/
inductive Turn (α : Type) where
  | producer (data : α)
  | consumer

section Source

variable {α : Type}

/-- The next access of `rtp_sdr_rbuf_try_put`. -/
def producerStep (s : State α) (data : α) : Exec (State α) :=
  match s.producer with
  | .idle => .ok (if !rbufFull s.rbuf then { s with producer := .tested data } else s)
  | .tested data => do
    let buffer ← store s.rbuf.buffer s.rbuf.head.toNat data
    .ok { s with rbuf := { s.rbuf with buffer := buffer }, producer := .written data }
  | .written data =>
    .ok { s with
      rbuf := { s.rbuf with head := advanceHeadtailValue s.rbuf.head s.rbuf.max }
      producer := .idle
      accepted := s.accepted ++ [data] }

/-- The next access of `rtp_sdr_rbuf_get`. -/
def consumerStep (s : State α) : Exec (State α) :=
  match s.consumer with
  | .idle => .ok (if !rbufEmpty s.rbuf then { s with consumer := .tested } else s)
  | .tested => do
    let data ← load s.rbuf.buffer s.rbuf.tail.toNat
    .ok { s with consumer := .loaded data }
  | .loaded data =>
    .ok { s with
      rbuf := { s.rbuf with tail := advanceHeadtailValue s.rbuf.tail s.rbuf.max }
      consumer := .idle
      returned := s.returned ++ [data] }

def step (s : State α) : Turn α → Exec (State α)
  | .producer data => producerStep s data
  | .consumer => consumerStep s

/-- Both sides before their first call. -/
def start (rbuf : RbufT α) : State α := ⟨rbuf, .idle, .idle, [], []⟩

end Source

variable {α : Type}

/-! ## A call that nothing interrupts -/

/-- Three accesses in a row are `rtp_sdr_rbuf_try_put`, when it accepts. -/
theorem tryPut_uninterrupted {me me' : RbufT α} {data : α}
    (h : rbufTryPut me data = .ok (RTP_SDR_RBUF_OK, me')) (accepted returned : List α) :
    runAll producerStep ⟨me, .idle, .idle, accepted, returned⟩ [data, data, data]
      = .ok ⟨me', .idle, .idle, accepted ++ [data], returned⟩ := by
  cases hfull : rbufFull me with
  | true => simp [rbufTryPut, hfull, RTP_SDR_RBUF_OK, RTP_SDR_RBUF_ERROR] at h
  | false =>
    rw [rbufTryPut, hfull, if_pos (by decide)] at h
    obtain ⟨buffer, hstore, hme⟩ := bind_eq_ok.mp h
    cases hme
    simp [runAll, producerStep, hfull, bind_of_ok hstore]

/-- Three accesses in a row are `rtp_sdr_rbuf_get`, when it finds a sample. -/
theorem get_uninterrupted {me me' : RbufT α} {before data : α}
    (h : rbufGet me before = .ok (RTP_SDR_RBUF_OK, data, me')) (accepted returned : List α) :
    runAll step ⟨me, .idle, .idle, accepted, returned⟩ [.consumer, .consumer, .consumer]
      = .ok ⟨me', .idle, .idle, accepted, returned ++ [data]⟩ := by
  cases hempty : rbufEmpty me with
  | true => simp [rbufGet, hempty, RTP_SDR_RBUF_OK, RTP_SDR_RBUF_ERROR] at h
  | false =>
    rw [rbufGet, hempty, if_pos (by decide)] at h
    obtain ⟨value, hload, hme⟩ := bind_eq_ok.mp h
    cases hme
    simp [runAll, step, consumerStep, hempty, bind_of_ok hload]

/-! ## The invariant -/

/-- What the producer's progress guarantees while the buffer holds `q`: the room it
tested for is still there, and the sample it wrote lies in the cell at `head`. -/
def ProducerHolds (me : RbufT α) (q : List α) : Producer α → Prop
  | .idle => True
  | .tested _ => q.length < me.max.toNat - 1
  | .written data => q.length < me.max.toNat - 1 ∧ me.buffer[me.head.toNat]? = some data

/-- What the consumer's progress guarantees: the queue it tested is still not empty,
and the sample it loaded is still the oldest. -/
def ConsumerHolds (q : List α) : Consumer α → Prop
  | .idle => True
  | .tested => q ≠ []
  | .loaded data => q.head? = some data

/-- The buffer holds `q`, the samples accepted and not yet returned. -/
structure Holds (s : State α) (q : List α) : Prop where
  represents : Represents s.rbuf q
  accepted : s.accepted = s.returned ++ q
  producer : ProducerHolds s.rbuf q s.producer
  consumer : ConsumerHolds q s.consumer

/-- The producer only lengthens the queue, which no decision of the consumer minds. -/
theorem ConsumerHolds.append {q : List α} {c : Consumer α} (h : ConsumerHolds q c) (data : α) :
    ConsumerHolds (q ++ [data]) c := by
  cases c with
  | idle => trivial
  | tested => exact List.append_ne_nil_of_left_ne_nil h [data]
  | loaded v =>
    cases q with
    | nil => exact absurd h (by simp [ConsumerHolds])
    | cons a rest => exact h

/-- The consumer only shortens the queue, which no decision of the producer minds. -/
theorem ProducerHolds.pop {me : RbufT α} {a : α} {q : List α} {p : Producer α}
    (h : ProducerHolds me (a :: q) p) (tail : UInt64) :
    ProducerHolds { me with tail := tail } q p := by
  cases p with
  | idle => trivial
  | tested data => exact Nat.lt_of_succ_lt h
  | written data => exact ⟨Nat.lt_of_succ_lt h.1, h.2⟩

theorem producerStep_holds {s : State α} {q : List α} (h : Holds s q) (data : α) :
    ∃ s' q', producerStep s data = .ok s' ∧ Holds s' q' := by
  obtain ⟨me, p, c, accepted, returned⟩ := s
  obtain ⟨hrep, hacc, hprod, hcons⟩ := h
  dsimp only at hrep hacc hprod hcons
  cases p with
  | idle =>
    cases hfull : rbufFull me with
    | true =>
      refine ⟨⟨me, .idle, c, accepted, returned⟩, q, ?_, hrep, hacc, trivial, hcons⟩
      simp [producerStep, hfull]
    | false =>
      have hroom : q.length < me.max.toNat - 1 := by
        have hne := mt hrep.full_iff.mpr (by rw [hfull]; decide)
        have hfits := hrep.fits
        omega
      refine ⟨⟨me, .tested data, c, accepted, returned⟩, q, ?_, hrep, hacc, hroom, hcons⟩
      simp [producerStep, hfull]
  | tested v =>
    refine
      ⟨⟨{ me with buffer := me.buffer.set me.head.toNat v }, .written v, c, accepted, returned⟩,
      q, ?_, represents_store hrep v, hacc, ⟨hprod, hrep.getElem?_stored v⟩, hcons⟩
    simp only [producerStep, bind_of_ok (hrep.store_head v)]
  | written v =>
    obtain ⟨hroom, hcell⟩ := hprod
    refine ⟨_, q ++ [v], rfl, represents_advance hrep hroom hcell, ?_, trivial, hcons.append v⟩
    rw [hacc, List.append_assoc]

theorem consumerStep_holds {s : State α} {q : List α} (h : Holds s q) :
    ∃ s' q', consumerStep s = .ok s' ∧ Holds s' q' := by
  obtain ⟨me, p, c, accepted, returned⟩ := s
  obtain ⟨hrep, hacc, hprod, hcons⟩ := h
  dsimp only at hrep hacc hprod hcons
  cases c with
  | idle =>
    cases hempty : rbufEmpty me with
    | true =>
      refine ⟨⟨me, p, .idle, accepted, returned⟩, q, ?_, hrep, hacc, hprod, trivial⟩
      simp [consumerStep, hempty]
    | false =>
      have hne : q ≠ [] := mt hrep.empty_iff.mpr (by rw [hempty]; decide)
      refine ⟨⟨me, p, .tested, accepted, returned⟩, q, ?_, hrep, hacc, hprod, hne⟩
      simp [consumerStep, hempty]
  | tested =>
    cases q with
    | nil => exact absurd rfl hcons
    | cons a rest =>
      refine ⟨⟨me, p, .loaded a, accepted, returned⟩, a :: rest, ?_, hrep, hacc, hprod, rfl⟩
      simp only [consumerStep, bind_of_ok hrep.load_tail]
  | loaded v =>
    cases q with
    | nil => exact absurd hcons (by simp [ConsumerHolds])
    | cons a rest =>
      obtain rfl : a = v := Option.some.inj hcons
      refine ⟨_, rest, rfl, represents_pop hrep, ?_, hprod.pop _, trivial⟩
      rw [hacc, List.append_assoc]
      rfl

theorem step_holds {s : State α} (h : ∃ q, Holds s q) (turn : Turn α) :
    ∃ s', step s turn = .ok s' ∧ ∃ q, Holds s' q := by
  obtain ⟨q, hq⟩ := h
  cases turn with
  | producer data =>
    obtain ⟨s', q', hrun, hs⟩ := producerStep_holds hq data
    exact ⟨s', hrun, q', hs⟩
  | consumer =>
    obtain ⟨s', q', hrun, hs⟩ := consumerStep_holds hq
    exact ⟨s', hrun, q', hs⟩

/-! ## Every schedule -/

theorem run_holds {rbuf : RbufT α} (h : Represents rbuf []) (turns : List (Turn α)) :
    ∃ s, runAll step (start rbuf) turns = .ok s ∧ ∃ q, Holds s q :=
  runAll_invariant (f := step) (I := fun _ s => ∃ q, Holds s q) (P := fun _ => True)
    (fun _ _ turn _ hs => step_holds hs turn) turns [] (fun _ _ => trivial)
    ⟨[], h, rfl, trivial, trivial⟩

/-- When the consumer has emptied the buffer, every accepted sample has been returned. -/
theorem drained {rbuf : RbufT α} (h : Represents rbuf []) {turns : List (Turn α)} {s : State α}
    (hrun : runAll step (start rbuf) turns = .ok s) (hempty : rbufEmpty s.rbuf = true) :
    s.returned = s.accepted := by
  obtain ⟨s', hrun', q, hq⟩ := run_holds h turns
  obtain rfl : s' = s := Except.ok.inj (hrun'.symm.trans hrun)
  rw [hq.accepted, hq.represents.empty_iff.mp hempty, List.append_nil]

/-- Under every schedule the returned samples are the first of the accepted ones. -/
theorem returned_of_accepted (buffer : List α) (size : UInt64) (type : SbufType)
    (hsize : 1 < size.toNat) (hbuffer : size.toNat ≤ buffer.length) (turns : List (Turn α)) :
    ∃ rbuf s, rbufInit buffer size type = .ok rbuf ∧
      runAll step (start rbuf) turns = .ok s ∧ s.returned <+: s.accepted := by
  obtain ⟨rbuf, hinit, hrep, _⟩ := rbufInit_ok type hsize hbuffer
  obtain ⟨s, hrun, q, hq⟩ := run_holds hrep turns
  exact ⟨rbuf, s, hinit, hrun, q, hq.accepted.symm⟩

theorem returned_of_accepted_pair :
    ∃ rbuf s, rbufInit [0, 0] 2 .s8 = .ok rbuf ∧
      runAll step (start rbuf) [.producer 5, .producer 5, .consumer, .producer 5, .producer 6,
        .consumer, .consumer, .producer 6, .consumer] = .ok s ∧ s.returned <+: s.accepted :=
  returned_of_accepted [0, 0] 2 .s8 (by decide) (by decide) _

end RtpSdr.Sdr.Spsc
