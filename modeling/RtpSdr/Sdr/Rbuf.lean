import RtpSdr.Lib.Queue
import RtpSdr.Lib.Circular
import RtpSdr.Lib.Memory

/-!
# The sample ring buffer: `rtp_sdr_rbuf.c`

One cell of the storage stays unused, so that equal positions mean empty. Over
any sequence of calls the buffer is a bounded queue of `max - 1` samples:
`Represents` is the relation, and each call has one lemma that keeps it.
-/
namespace RtpSdr.Sdr.Rbuf

open RtpSdr.Lib.Checked
open RtpSdr.Lib
open RtpSdr.Lib.Memory
open RtpSdr.Lib.Circular
open RtpSdr.Lib.Queue

/-- `rtp_sdr_sbuf_type_t`. -/
inductive SbufType where
  | s8
  | s16
  | s24
  | s32
deriving DecidableEq, Repr

/-- `struct rbuf_s`, over the samples `iq_t`. -/
structure RbufT (α : Type) where
  type : SbufType
  buffer : List α
  head : UInt64
  tail : UInt64
  max : UInt64

def RTP_SDR_RBUF_OK : Int := 0
def RTP_SDR_RBUF_ERROR : Int := -1

/-- `_advance_headtail_value`. -/
def advanceHeadtailValue (value max : UInt64) : UInt64 :=
  if value + 1 = max then 0 else value + 1

section Source

variable {α : Type}

def rbufReset (me : RbufT α) : RbufT α := { me with head := 0, tail := 0 }

def rbufEmpty (me : RbufT α) : Bool := decide (me.head = me.tail)

def rbufFull (me : RbufT α) : Bool := decide (advanceHeadtailValue me.head me.max = me.tail)

/-- `rtp_sdr_rbuf_init` on a storage buffer that is not null. -/
def rbufInit (buffer : List α) (size : UInt64) (type : SbufType) : Exec (RbufT α) := do
  cassert (decide (size > 1))
  let cbuf := rbufReset ⟨type, buffer, 0, 0, size⟩
  cassert (rbufEmpty cbuf)
  .ok cbuf

def rbufSize (me : RbufT α) : UInt64 :=
  if !rbufFull me then
    if me.head ≥ me.tail then me.head - me.tail else me.max + me.head - me.tail
  else me.max - 1

def rbufCapacity (me : RbufT α) : UInt64 := me.max - 1

def rbufPut (me : RbufT α) (data : α) : Exec (RbufT α) := do
  let buffer ← store me.buffer me.head.toNat data
  let me := { me with buffer := buffer }
  let me := if rbufFull me then { me with tail := advanceHeadtailValue me.tail me.max } else me
  .ok { me with head := advanceHeadtailValue me.head me.max }

def rbufTryPut (me : RbufT α) (data : α) : Exec (Int × RbufT α) :=
  if !rbufFull me then do
    let buffer ← store me.buffer me.head.toNat data
    .ok (RTP_SDR_RBUF_OK,
      { me with buffer := buffer, head := advanceHeadtailValue me.head me.max })
  else .ok (RTP_SDR_RBUF_ERROR, me)

/-- The result, `*data` afterwards and the buffer. -/
def rbufGet (me : RbufT α) (data : α) : Exec (Int × α × RbufT α) :=
  if !rbufEmpty me then do
    let data ← load me.buffer me.tail.toNat
    .ok (RTP_SDR_RBUF_OK, data, { me with tail := advanceHeadtailValue me.tail me.max })
  else .ok (RTP_SDR_RBUF_ERROR, data, me)

/-- The result and the array `data` afterwards. -/
def rbufPeek (me : RbufT α) (data : List α) (lookAheadCounter : UInt32) : Exec (Int × List α) :=
  if rbufEmpty me || decide (lookAheadCounter.toUInt64 > rbufSize me) then
    .ok (RTP_SDR_RBUF_ERROR, data)
  else do
    let (_, data) ← forUp (fun i s => do
      let a ← load me.buffer s.1.toNat
      let data ← store s.2 i a
      .ok (advanceHeadtailValue s.1 me.max, data)) lookAheadCounter.toNat (me.tail, data)
    .ok (RTP_SDR_RBUF_OK, data)

end Source

/-! ## The representation -/

variable {α : Type} {me : RbufT α} {q : List α}

/-- The buffer holds the queue `q`, from `tail` to `head`. -/
structure Represents (me : RbufT α) (q : List α) : Prop where
  one_lt : 1 < me.max.toNat
  length : me.max.toNat ≤ me.buffer.length
  tail_lt : me.tail.toNat < me.max.toNat
  fits : q.length < me.max.toNat
  head_eq : me.head.toNat = slot me.max.toNat me.tail.toNat q.length
  stored : Stored me.max.toNat me.buffer me.tail.toNat q

theorem toNat_advance {value max : UInt64} (h : value.toNat < max.toNat) :
    (advanceHeadtailValue value max).toNat = next max.toNat value.toNat := by
  have hmax := max.toNat_lt
  have hadd : (value + 1).toNat = value.toNat + 1 := by
    rw [UInt64.toNat_add]
    exact Nat.mod_eq_of_lt (by change value.toNat + 1 < _; omega)
  have hiff : value + 1 = max ↔ value.toNat + 1 = max.toNat := by
    rw [← UInt64.toNat_inj, hadd]
  unfold advanceHeadtailValue next
  by_cases heq : value.toNat + 1 = max.toNat
  · rw [if_pos (hiff.mpr heq), if_pos heq]
    rfl
  · rw [if_neg fun e => heq (hiff.mp e), if_neg heq, hadd]

theorem Represents.head_lt (h : Represents me q) : me.head.toNat < me.max.toNat := by
  rw [h.head_eq]
  exact slot_lt h.tail_lt (Nat.le_of_lt h.fits)

theorem Represents.empty_iff (h : Represents me q) : rbufEmpty me = true ↔ q = [] := by
  have hhead := h.head_eq
  have htail := h.tail_lt
  have hfits := h.fits
  rw [rbufEmpty, decide_eq_true_iff, ← UInt64.toNat_inj, hhead, ← List.length_eq_zero_iff]
  unfold slot
  split <;> omega

theorem Represents.full_iff (h : Represents me q) :
    rbufFull me = true ↔ q.length = me.max.toNat - 1 := by
  have htail := h.tail_lt
  have hfits := h.fits
  rw [rbufFull, decide_eq_true_iff, ← UInt64.toNat_inj, toNat_advance h.head_lt, h.head_eq,
    next_slot htail hfits]
  unfold slot
  split <;> omega

theorem Represents.not_full (h : Represents me q) (hq : q.length < me.max.toNat - 1) :
    rbufFull me = false := by
  rw [← Bool.not_eq_true, h.full_iff]
  omega

theorem toNat_sub_wrap (a b c : UInt64) (h : b.toNat < c.toNat) (hc : c.toNat < a.toNat) :
    (a + b - c).toNat = a.toNat + b.toNat - c.toNat := by
  have ha := a.toNat_lt
  rw [UInt64.toNat_sub, UInt64.toNat_add]
  omega

theorem Represents.size_eq (h : Represents me q) : (rbufSize me).toNat = q.length := by
  have hhead := h.head_eq
  have htail := h.tail_lt
  have hfits := h.fits
  have hone := h.one_lt
  unfold rbufSize
  by_cases hfull : rbufFull me = true
  · have hlen := h.full_iff.mp hfull
    have hle : (1 : UInt64) ≤ me.max := UInt64.le_iff_toNat_le.mpr (by change 1 ≤ _; omega)
    rw [hfull, hlen, if_neg (by decide), UInt64.toNat_sub_of_le _ _ hle]
    rfl
  · rw [Bool.not_eq_true] at hfull
    rw [hfull, if_pos (by decide)]
    unfold slot at hhead
    by_cases hge : me.head ≥ me.tail
    · have hle := UInt64.le_iff_toNat_le.mp hge
      rw [if_pos hge, UInt64.toNat_sub_of_le _ _ hge]
      split at hhead <;> omega
    · have hlt : me.head.toNat < me.tail.toNat := by
        have := mt UInt64.le_iff_toNat_le.mpr hge
        omega
      rw [if_neg hge, toNat_sub_wrap _ _ _ hlt htail]
      split at hhead <;> omega

/-! ## One call -/

theorem rbufInit_ok {buffer : List α} {size : UInt64} (type : SbufType) (hsize : 1 < size.toNat)
    (hbuffer : size.toNat ≤ buffer.length) :
    ∃ me, rbufInit buffer size type = .ok me ∧ Represents me [] ∧ me.max = size := by
  have hgt : size > 1 := UInt64.lt_iff_toNat_lt.mpr hsize
  refine ⟨⟨type, buffer, 0, 0, size⟩, ?_, ?_, rfl⟩
  · rw [rbufInit, decide_eq_true hgt]
    rfl
  · constructor
    · exact hsize
    · exact hbuffer
    · exact Nat.lt_of_succ_lt hsize
    · exact Nat.lt_of_succ_lt hsize
    · exact (slot_zero (Nat.lt_of_succ_lt hsize)).symm
    · exact stored_nil _ _ _

theorem represents_reset (h : Represents me q) : Represents (rbufReset me) [] where
  one_lt := h.one_lt
  length := h.length
  tail_lt := Nat.lt_of_le_of_lt (Nat.zero_le 1) h.one_lt
  fits := Nat.lt_of_le_of_lt (Nat.zero_le 1) h.one_lt
  head_eq := (slot_zero (Nat.lt_of_le_of_lt (Nat.zero_le 1) h.one_lt)).symm
  stored := stored_nil _ _ _

theorem Represents.store_head (h : Represents me q) (a : α) :
    store me.buffer me.head.toNat a = .ok (me.buffer.set me.head.toNat a) := by
  have := h.head_lt
  have := h.length
  exact store_of_lt a (by omega)

/-- The cell at `head` is the one behind the queue. -/
theorem Represents.stored_push (h : Represents me q) (a : α) :
    Stored me.max.toNat (me.buffer.set me.head.toNat a) me.tail.toNat (q ++ [a]) := by
  rw [h.head_eq]
  exact Circular.stored_push h.stored h.tail_lt h.fits h.length

/-- The cell at `head` is not part of the queue. -/
theorem represents_store (h : Represents me q) (a : α) :
    Represents { me with buffer := me.buffer.set me.head.toNat a } q where
  one_lt := h.one_lt
  length := by
    rw [List.length_set]
    exact h.length
  tail_lt := h.tail_lt
  fits := h.fits
  head_eq := h.head_eq
  stored := by
    rw [h.head_eq]
    exact stored_set_outside h.stored (Nat.le_refl _) h.fits

/-- Advancing `head` hands the cell it pointed at to the queue. -/
theorem represents_advance {a : α} (h : Represents me q) (hq : q.length < me.max.toNat - 1)
    (ha : me.buffer[me.head.toNat]? = some a) :
    Represents { me with head := advanceHeadtailValue me.head me.max } (q ++ [a]) where
  one_lt := h.one_lt
  length := h.length
  tail_lt := h.tail_lt
  fits := by
    rw [List.length_append, List.length_singleton]
    change q.length + 1 < me.max.toNat
    omega
  head_eq := by
    rw [toNat_advance h.head_lt, h.head_eq, next_slot h.tail_lt h.fits, List.length_append,
      List.length_singleton]
  stored := by
    rw [h.head_eq] at ha
    exact stored_append h.stored ha

theorem Represents.getElem?_stored (h : Represents me q) (a : α) :
    (me.buffer.set me.head.toNat a)[me.head.toNat]? = some a := by
  have := h.head_lt
  have := h.length
  exact List.getElem?_set_self (by omega)

theorem represents_push (h : Represents me q) (hq : q.length < me.max.toNat - 1) (a : α) :
    Represents { me with
      buffer := me.buffer.set me.head.toNat a
      head := advanceHeadtailValue me.head me.max } (q ++ [a]) :=
  represents_advance (represents_store h a) hq (h.getElem?_stored a)

theorem represents_pop {a : α} (h : Represents me (a :: q)) :
    Represents { me with tail := advanceHeadtailValue me.tail me.max } q where
  one_lt := h.one_lt
  length := h.length
  tail_lt := by
    rw [toNat_advance h.tail_lt]
    exact next_lt h.tail_lt
  fits := Nat.lt_of_succ_lt h.fits
  head_eq := by
    rw [toNat_advance h.tail_lt, slot_next (Nat.lt_of_succ_lt h.fits)]
    exact h.head_eq
  stored := by
    rw [toNat_advance h.tail_lt]
    exact stored_tail h.stored (Nat.lt_of_succ_lt h.fits)

theorem rbufPut_ok (h : Represents me q) (a : α) :
    ∃ me', rbufPut me a = .ok me' ∧ me'.max = me.max ∧
      Represents me' (if q.length < me.max.toNat - 1 then q ++ [a] else q.tail ++ [a]) := by
  unfold rbufPut
  rw [bind_of_ok (h.store_head a)]
  by_cases hq : q.length < me.max.toNat - 1
  · have hfull : rbufFull { me with buffer := me.buffer.set me.head.toNat a } = false :=
      h.not_full hq
    simp only [hfull, Bool.false_eq_true, if_false, if_pos hq]
    exact ⟨_, rfl, rfl, represents_push h hq a⟩
  · have hfits := h.fits
    have hfull : rbufFull { me with buffer := me.buffer.set me.head.toNat a } = true :=
      h.full_iff.mpr (by omega)
    simp only [hfull, if_true, if_neg hq]
    refine ⟨_, rfl, rfl, ?_⟩
    cases q with
    | nil =>
      have := h.one_lt
      rw [List.length_nil] at hq
      omega
    | cons b rest =>
      have hlen : (rest ++ [a]).length = (b :: rest).length := by
        rw [List.length_append, List.length_singleton, List.length_cons]
      constructor
      · exact h.one_lt
      · rw [List.length_set]
        exact h.length
      · change (advanceHeadtailValue me.tail me.max).toNat < _
        rw [toNat_advance h.tail_lt]
        exact next_lt h.tail_lt
      · rw [List.tail_cons, hlen]
        exact hfits
      · change (advanceHeadtailValue me.head me.max).toNat
          = slot me.max.toNat (advanceHeadtailValue me.tail me.max).toNat _
        rw [toNat_advance h.tail_lt, toNat_advance h.head_lt, h.head_eq,
          next_slot h.tail_lt hfits, List.tail_cons, hlen, slot_next hfits]
      · change Stored _ _ (advanceHeadtailValue me.tail me.max).toNat _
        rw [toNat_advance h.tail_lt]
        exact stored_tail (h.stored_push a) (by rw [List.tail_cons, hlen]; exact hfits)

theorem rbufTryPut_ok (h : Represents me q) (hq : q.length < me.max.toNat - 1) (a : α) :
    rbufTryPut me a = .ok (RTP_SDR_RBUF_OK, { me with
      buffer := me.buffer.set me.head.toNat a
      head := advanceHeadtailValue me.head me.max }) := by
  rw [rbufTryPut, h.not_full hq, if_pos (by decide), bind_of_ok (h.store_head a)]

theorem rbufTryPut_full (h : Represents me q) (hq : ¬ q.length < me.max.toNat - 1) (a : α) :
    rbufTryPut me a = .ok (RTP_SDR_RBUF_ERROR, me) := by
  have := h.fits
  rw [rbufTryPut, h.full_iff.mpr (by omega), if_neg (by decide)]

theorem Represents.load_tail {a : α} (h : Represents me (a :: q)) :
    load me.buffer me.tail.toNat = .ok a :=
  load_of_getElem? (stored_head h.stored h.tail_lt)

theorem rbufGet_ok {a : α} (h : Represents me (a :: q)) (data : α) :
    rbufGet me data = .ok (RTP_SDR_RBUF_OK, a,
      { me with tail := advanceHeadtailValue me.tail me.max }) := by
  have hempty : rbufEmpty me = false := by
    rw [← Bool.not_eq_true, h.empty_iff]
    exact List.cons_ne_nil a q
  rw [rbufGet, hempty, if_pos (by decide), bind_of_ok h.load_tail]

theorem rbufGet_empty (h : Represents me []) (data : α) :
    rbufGet me data = .ok (RTP_SDR_RBUF_ERROR, data, me) := by
  rw [rbufGet, h.empty_iff.mpr rfl, if_neg (by decide)]

/-- The loop of `rtp_sdr_rbuf_peek` copies the oldest samples in order. -/
theorem peekLoop_ok (h : Represents me q) {n : Nat} (hn : n ≤ q.length) {data : List α}
    (hdata : n ≤ data.length) :
    ∃ s, forUp (fun i (s : UInt64 × List α) => do
      let a ← load me.buffer s.1.toNat
      let data ← store s.2 i a
      .ok (advanceHeadtailValue s.1 me.max, data)) n (me.tail, data) = .ok s ∧
      s.1.toNat = slot me.max.toNat me.tail.toNat n ∧ s.2 = put data 0 (q.take n) := by
  have hfits := h.fits
  apply forUp_invariant (I := fun i (s : UInt64 × List α) =>
    s.1.toNat = slot me.max.toNat me.tail.toNat i ∧ s.2 = put data 0 (q.take i)) n
  · exact ⟨(slot_zero h.tail_lt).symm, (put_nil data 0).symm⟩
  · rintro i ⟨pos, d⟩ hi ⟨hpos, hd⟩
    simp only at hpos hd
    have hiq : i < q.length := by omega
    have hcell : load me.buffer pos.toNat = .ok q[i] := by
      apply load_of_getElem?
      rw [hpos, h.stored i hiq, List.getElem?_eq_getElem hiq]
    have htake : (q.take i).length = i := by
      rw [List.length_take]
      omega
    have hlen : d.length = data.length := by
      rw [hd]
      exact length_put (by omega)
    have hput : put (put data 0 (q.take i)) (0 + (q.take i).length) [q[i]]
        = put data 0 (q.take i ++ [q[i]]) := put_put [q[i]] (by omega)
    rw [htake, Nat.zero_add, ← List.take_succ_eq_append_getElem hiq] at hput
    refine ⟨(advanceHeadtailValue pos me.max, put d i [q[i]]), ?_, ?_, ?_⟩
    · rw [bind_of_ok hcell, store_eq_blit, bind_of_ok (blit_of_le (by simp; omega))]
    · have hlt : pos.toNat < me.max.toNat := by
        rw [hpos]
        exact slot_lt h.tail_lt (by omega)
      rw [toNat_advance hlt, hpos, next_slot h.tail_lt (by omega)]
    · rw [hd]
      exact hput

section Peek

variable {data : List α} {n : UInt32}

theorem Represents.looks_beyond (h : Represents me q) (n : UInt32) :
    n.toUInt64 > rbufSize me ↔ q.length < n.toNat := by
  rw [gt_iff_lt, UInt64.lt_iff_toNat_lt, h.size_eq, UInt32.toNat_toUInt64]

theorem rbufPeek_of_le (h : Represents me q) (hne : q ≠ []) (hn : n.toNat ≤ q.length)
    (hdata : n.toNat ≤ data.length) :
    rbufPeek me data n = .ok (RTP_SDR_RBUF_OK, q.take n.toNat ++ data.drop n.toNat) := by
  have hempty : rbufEmpty me = false := by
    rw [← Bool.not_eq_true, h.empty_iff]
    exact hne
  have hcount : decide (n.toUInt64 > rbufSize me) = false :=
    decide_eq_false fun hlt => by have := (h.looks_beyond n).mp hlt; omega
  obtain ⟨⟨pos, d⟩, hs, -, hd⟩ := peekLoop_ok h hn hdata
  dsimp only at hd
  have htake : (q.take n.toNat).length = n.toNat := by
    rw [List.length_take]
    omega
  rw [rbufPeek, hempty, hcount, if_neg (by decide), bind_of_ok hs]
  dsimp only
  rw [hd, put_zero, htake]

theorem rbufPeek_of_lt (h : Represents me q) (hn : q = [] ∨ q.length < n.toNat) :
    rbufPeek me data n = .ok (RTP_SDR_RBUF_ERROR, data) := by
  have hstop : (rbufEmpty me || decide (n.toUInt64 > rbufSize me)) = true := by
    rw [Bool.or_eq_true, decide_eq_true_iff, h.empty_iff, h.looks_beyond]
    exact hn
  rw [rbufPeek, if_pos hstop]

end Peek

/-! ## Any sequence of calls -/

/-- A call with its arguments; `get` and `peek` come with what is in the caller's memory. -/
inductive Op (α : Type) where
  | put (data : α)
  | tryPut (data : α)
  | get (data : α)
  | peek (data : List α) (lookAheadCounter : UInt32)
  | reset
  | size
  | capacity
  | empty
  | full

/-- What a call hands back. -/
inductive Answer (α : Type) where
  | done
  | status (r : Int)
  | value (r : Int) (data : α)
  | values (r : Int) (data : List α)
  | count (n : Nat)
  | flag (b : Bool)

/-- A call of the code. -/
def call (me : RbufT α) : Op α → Exec (Answer α × RbufT α)
  | .put data => do
    let me ← rbufPut me data
    .ok (.done, me)
  | .tryPut data => do
    let (r, me) ← rbufTryPut me data
    .ok (.status r, me)
  | .get data => do
    let (r, data, me) ← rbufGet me data
    .ok (.value r data, me)
  | .peek data n => do
    let (r, data) ← rbufPeek me data n
    .ok (.values r data, me)
  | .reset => .ok (.done, rbufReset me)
  | .size => .ok (.count (rbufSize me).toNat, me)
  | .capacity => .ok (.count (rbufCapacity me).toNat, me)
  | .empty => .ok (.flag (rbufEmpty me), me)
  | .full => .ok (.flag (rbufFull me), me)

def status (b : Bool) : Int := if b then RTP_SDR_RBUF_OK else RTP_SDR_RBUF_ERROR

/-- The same call on a queue of at most `c` samples. -/
def specCall {c : Nat} (q : BoundedQueue α c) : Op α → Answer α × BoundedQueue α c
  | .put data => (.done, q.put data)
  | .tryPut data => (.status (status (q.tryPut data).1), (q.tryPut data).2)
  | .get data => (.value (status q.items.head?.isSome) (q.items.head?.getD data), q.get.2)
  | .peek data n =>
    match q.peek n.toNat with
    | some xs => (.values RTP_SDR_RBUF_OK (xs ++ data.drop n.toNat), q)
    | none => (.values RTP_SDR_RBUF_ERROR data, q)
  | .reset => (.done, .empty)
  | .size => (.count q.items.length, q)
  | .capacity => (.count c, q)
  | .empty => (.flag q.items.isEmpty, q)
  | .full => (.flag (decide (q.items.length = c)), q)

/-- The array a peek copies into has room for what it asks for. -/
def Op.Fits : Op α → Prop
  | .peek data n => n.toNat ≤ data.length
  | _ => True

theorem capacity_eq (h : Represents me q) : (rbufCapacity me).toNat = me.max.toNat - 1 := by
  have hone := h.one_lt
  have hle : (1 : UInt64) ≤ me.max := UInt64.le_iff_toNat_le.mpr (by change 1 ≤ _; omega)
  rw [rbufCapacity, UInt64.toNat_sub_of_le _ _ hle]
  rfl

theorem rbufPeek_ok {c : Nat} {q : BoundedQueue α c} (h : Represents me q.items) {data : List α}
    {n : UInt32} (hdata : n.toNat ≤ data.length) :
    (do
      let (r, data) ← rbufPeek me data n
      .ok (.values r data, me)) = (.ok ((specCall q (.peek data n)).1, me) : Exec _) := by
  unfold specCall BoundedQueue.peek
  by_cases hq : q.items ≠ [] ∧ n.toNat ≤ q.items.length
  · simp only [bind_of_ok (rbufPeek_of_le h hq.1 hq.2 hdata), if_pos hq]
  · have hstop : q.items = [] ∨ q.items.length < n.toNat := by
      by_cases hnil : q.items = []
      · exact .inl hnil
      · exact .inr (Nat.lt_of_not_le fun hle => hq ⟨hnil, hle⟩)
    simp only [bind_of_ok (rbufPeek_of_lt h hstop), if_neg hq]

theorem put_refines {c : Nat} {q : BoundedQueue α c} (h : Represents me q.items)
    (hc : me.max.toNat = c + 1) (data : α) :
    ∃ me', call me (.put data) = .ok ((specCall q (.put data)).1, me') ∧ me'.max = me.max ∧
      Represents me' (specCall q (.put data)).2.items := by
  have hbound := q.bound
  obtain ⟨me', hrun, hmax, hrep⟩ := rbufPut_ok h data
  refine ⟨me', by rw [call, bind_of_ok hrun]; rfl, hmax, ?_⟩
  rw [show me.max.toNat - 1 = c from by omega] at hrep
  by_cases hlt : q.items.length < c
  · rw [if_pos hlt, ← BoundedQueue.put_of_lt data hlt] at hrep
    exact hrep
  · rw [if_neg hlt] at hrep
    have hone := h.one_lt
    cases hitems : q.items with
    | nil =>
      rw [hitems, List.length_nil] at hlt
      omega
    | cons b rest =>
      rw [hitems, List.tail_cons, ← BoundedQueue.put_of_full data hitems (by omega)] at hrep
      exact hrep

theorem tryPut_refines {c : Nat} {q : BoundedQueue α c} (h : Represents me q.items)
    (hc : me.max.toNat = c + 1) (data : α) :
    ∃ me', call me (.tryPut data) = .ok ((specCall q (.tryPut data)).1, me') ∧
      me'.max = me.max ∧ Represents me' (specCall q (.tryPut data)).2.items := by
  have hbound := q.bound
  by_cases hlt : q.items.length < c
  · obtain ⟨hres, hitems⟩ := BoundedQueue.tryPut_of_lt data hlt
    have hroom : q.items.length < me.max.toNat - 1 := by omega
    refine ⟨{ me with
      buffer := me.buffer.set me.head.toNat data
      head := advanceHeadtailValue me.head me.max }, ?_, rfl, ?_⟩
    · simp only [call, bind_of_ok (rbufTryPut_ok h hroom data), specCall, hres]
      rfl
    · simp only [specCall, hitems]
      exact represents_push h hroom data
  · have hfull := BoundedQueue.tryPut_of_full data hlt
    refine ⟨me, ?_, rfl, ?_⟩
    · simp only [call, bind_of_ok (rbufTryPut_full h (by omega) data), specCall, hfull]
      rfl
    · simp only [specCall, hfull]
      exact h

theorem get_refines {c : Nat} {q : BoundedQueue α c} (h : Represents me q.items) (data : α) :
    ∃ me', call me (.get data) = .ok ((specCall q (.get data)).1, me') ∧ me'.max = me.max ∧
      Represents me' (specCall q (.get data)).2.items := by
  cases hitems : q.items with
  | nil =>
    rw [hitems] at h
    refine ⟨me, ?_, rfl, ?_⟩
    · simp only [call, bind_of_ok (rbufGet_empty h data), specCall, hitems]
      rfl
    · simp only [specCall, BoundedQueue.get, hitems]
      exact h
  | cons a rest =>
    rw [hitems] at h
    refine ⟨{ me with tail := advanceHeadtailValue me.tail me.max }, ?_, rfl, ?_⟩
    · simp only [call, bind_of_ok (rbufGet_ok h data), specCall, hitems]
      rfl
    · simp only [specCall, BoundedQueue.get, hitems]
      exact represents_pop h

/-- Every call answers as the queue does and leaves what the queue becomes. -/
theorem call_refines {c : Nat} {q : BoundedQueue α c} (h : Represents me q.items)
    (hc : me.max.toNat = c + 1) {op : Op α} (hop : op.Fits) :
    ∃ me', call me op = .ok ((specCall q op).1, me') ∧ me'.max = me.max ∧
      Represents me' (specCall q op).2.items := by
  cases op with
  | put data => exact put_refines h hc data
  | tryPut data => exact tryPut_refines h hc data
  | get data => exact get_refines h data
  | peek data n =>
    refine ⟨me, rbufPeek_ok h hop, rfl, ?_⟩
    have hsame : (specCall q (.peek data n)).2 = q := by
      simp only [specCall]
      split <;> rfl
    rw [hsame]
    exact h
  | reset => exact ⟨_, rfl, rfl, represents_reset h⟩
  | size => exact ⟨me, by rw [call, h.size_eq]; rfl, rfl, h⟩
  | capacity =>
    refine ⟨me, ?_, rfl, h⟩
    rw [call, capacity_eq h, show me.max.toNat - 1 = c from by omega]
    rfl
  | empty =>
    refine ⟨me, ?_, rfl, h⟩
    have hflag : rbufEmpty me = q.items.isEmpty := by
      rw [Bool.eq_iff_iff, h.empty_iff, List.isEmpty_iff]
    rw [call, hflag]
    rfl
  | full =>
    refine ⟨me, ?_, rfl, h⟩
    have hflag : rbufFull me = decide (q.items.length = c) := by
      rw [Bool.eq_iff_iff, h.full_iff, decide_eq_true_iff, show me.max.toNat - 1 = c from by omega]
    rw [call, hflag]
    rfl

/-- A call that keeps the answers of the calls before it. -/
def step (s : RbufT α × List (Answer α)) (op : Op α) : Exec (RbufT α × List (Answer α)) := do
  let (answer, me) ← call s.1 op
  .ok (me, s.2 ++ [answer])

def specStep {c : Nat} (s : BoundedQueue α c × List (Answer α)) (op : Op α) :
    BoundedQueue α c × List (Answer α) :=
  ((specCall s.1 op).2, s.2 ++ [(specCall s.1 op).1])

/-- The queue after a sequence of calls, with all their answers. -/
def specRun (c : Nat) (ops : List (Op α)) : BoundedQueue α c × List (Answer α) :=
  ops.foldl specStep (.empty, [])

/-- After `rtp_sdr_rbuf_init` the buffer is a bounded queue of `size - 1` samples. -/
theorem rbuf_refines_queue (buffer : List α) (size : UInt64) (type : SbufType)
    (hsize : 1 < size.toNat) (hbuffer : size.toNat ≤ buffer.length) (ops : List (Op α))
    (hops : ∀ op ∈ ops, op.Fits) :
    ∃ me me', rbufInit buffer size type = .ok me ∧
      runAll step (me, []) ops = .ok (me', (specRun (size.toNat - 1) ops).2) ∧
      Represents me' (specRun (size.toNat - 1) ops).1.items ∧ me'.max = size ∧
      me'.head.toNat < size.toNat ∧ me'.tail.toNat < size.toNat := by
  obtain ⟨me, hinit, hrep, hsize'⟩ := rbufInit_ok type hsize hbuffer
  obtain ⟨⟨me', log⟩, hrun, ⟨hmax, hrep'⟩, hlog⟩ := runAll_invariant (f := step)
    (P := Op.Fits) (I := fun hist (s : RbufT α × List (Answer α)) =>
      (s.1.max = size ∧ Represents s.1 (specRun (size.toNat - 1) hist).1.items) ∧
        s.2 = (specRun (size.toNat - 1) hist).2)
    (fun hist s op hop ⟨⟨hmax, hr⟩, hlog⟩ => by
      obtain ⟨me', hcall, hmax', hr'⟩ := call_refines hr (by rw [hmax]; omega) hop
      have hspec : specRun (size.toNat - 1) (hist ++ [op])
          = specStep (specRun (size.toNat - 1) hist) op := List.foldl_concat _ _ _ _
      refine ⟨(me', s.2 ++ [(specCall (specRun (size.toNat - 1) hist).1 op).1]), ?_, ?_, ?_⟩
      · simp only [step, bind_of_ok hcall]
      · rw [hspec]
        exact ⟨hmax'.trans hmax, hr'⟩
      · rw [hspec, hlog]
        rfl)
    ops [] hops (s := (me, [])) ⟨⟨hsize', hrep⟩, rfl⟩
  simp only [List.nil_append] at hmax hrep' hlog
  subst hlog
  have hhead := hrep'.head_lt
  have htail := hrep'.tail_lt
  rw [hmax] at hhead htail
  exact ⟨me, me', hinit, hrun, hrep', hmax, hhead, htail⟩

theorem rbuf_refines_queue_small :
    ∃ me me', rbufInit [0, 0, 0] 3 .s16 = .ok me ∧
      runAll step (me, []) [.tryPut 5, .put 6, .put 7, .get 0]
        = .ok (me', (specRun 2 [.tryPut 5, .put 6, .put 7, .get 0]).2) ∧
      Represents me' (specRun 2 [.tryPut 5, .put 6, .put 7, .get 0]).1.items ∧ me'.max = 3 ∧
      me'.head.toNat < 3 ∧ me'.tail.toNat < 3 :=
  rbuf_refines_queue [0, 0, 0] 3 .s16 (by decide) (by decide)
    [.tryPut 5, .put 6, .put 7, .get 0] (by simp [Op.Fits])

end RtpSdr.Sdr.Rbuf
