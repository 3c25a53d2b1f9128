import RtpSdr.Lib.BigEndian
import RtpSdr.Lib.Memory

/-!
# Reading and writing numbers: `rtp_util.c`

Every writer is a copy of the number's big-endian bytes, every reader finds the
number whose bytes stand at its offset.
-/
namespace RtpSdr.Rtp.Util

open RtpSdr.Lib.Checked
open RtpSdr.Lib.Memory
open RtpSdr.Lib.BigEndian

def RTP_OK : Int := 0
def RTP_ERROR : Int := -1

section Source

def writeU24 (buffer : List UInt8) (off : Nat) (value : UInt32) : Exec (List UInt8) := do
  let buffer ← store buffer off ((value >>> 16) &&& 0xff).toUInt8
  let buffer ← store buffer (off + 1) ((value >>> 8) &&& 0xff).toUInt8
  store buffer (off + 2) (value &&& 0xff).toUInt8

/-- `memcpy` takes the bits of the `int32_t` as they are. -/
def writeS24S32 (buffer : List UInt8) (off : Nat) (value : Int32) : Exec (List UInt8) :=
  writeU24 buffer off value.toUInt32

def writeU32 (buffer : List UInt8) (off : Nat) (value : UInt32) : Exec (List UInt8) := do
  let buffer ← store buffer off ((value >>> 24) &&& 0xff).toUInt8
  let buffer ← store buffer (off + 1) ((value >>> 16) &&& 0xff).toUInt8
  let buffer ← store buffer (off + 2) ((value >>> 8) &&& 0xff).toUInt8
  store buffer (off + 3) (value &&& 0xff).toUInt8

def readU24 (buffer : List UInt8) (off : Nat) : Exec UInt32 := do
  let b0 ← load buffer off
  let b1 ← load buffer (off + 1)
  let b2 ← load buffer (off + 2)
  .ok ((b0.toUInt32 <<< 16) ||| (b1.toUInt32 <<< 8) ||| b2.toUInt32)

def readS24 (buffer : List UInt8) (off : Nat) : Exec Int32 := do
  let u ← readU24 buffer off
  if u < 0x800000 then .ok u.toInt32
  else .ok (-1 * ((~~~u &&& 0xffffff) + 1).toInt32)

def readU32 (buffer : List UInt8) (off : Nat) : Exec UInt32 := do
  let b0 ← load buffer off
  let b1 ← load buffer (off + 1)
  let b2 ← load buffer (off + 2)
  let b3 ← load buffer (off + 3)
  .ok ((b0.toUInt32 <<< 24) ||| (b1.toUInt32 <<< 16) ||| (b2.toUInt32 <<< 8) ||| b3.toUInt32)

def writeU16 (buffer : List UInt8) (off : Nat) (value : UInt16) : Exec (List UInt8) := do
  let buffer ← store buffer off ((value >>> 8) &&& 0xff).toUInt8
  store buffer (off + 1) (value &&& 0xff).toUInt8

def readU16 (buffer : List UInt8) (off : Nat) : Exec UInt16 := do
  let b0 ← load buffer off
  let b1 ← load buffer (off + 1)
  .ok ((b0.toUInt16 <<< 8) ||| b1.toUInt16)

/-- The loops that fill a new array of `n` words with `read_u32`; the array is the list
of the words read so far. -/
def readWords (buffer : List UInt8) (off n : Nat) : Exec (List UInt32) :=
  forUp (fun i ws => do
    let w ← readU32 buffer (off + 4 * i)
    .ok (ws ++ [w])) n []

end Source

/-! ## Writers are copies -/

variable {xs rest : List UInt8} {off : Nat}

theorem toUInt8_byte {a : UInt32} {n : Nat} (h : a.toNat % 256 = n % 256) :
    (a &&& 0xff).toUInt8 = UInt8.ofNat n := by
  rw [← UInt8.toNat_inj, UInt32.toNat_toUInt8, UInt32.toNat_and, UInt8.toNat_ofNat']
  change (a.toNat &&& (2 ^ 8 - 1)) % 2 ^ 8 = n % 2 ^ 8
  rw [and_mask]
  omega

theorem writeU24_eq (xs : List UInt8) (off : Nat) (v : UInt32) :
    writeU24 xs off v = blit xs off (bytes 3 v.toNat) := by
  have h0 : ((v >>> 16) &&& 0xff).toUInt8 = UInt8.ofNat (v.toNat / 256 / 256) := toUInt8_byte (by
    rw [UInt32.toNat_shiftRight, Nat.shiftRight_eq_div_pow, Nat.div_div_eq_div_mul]
    rfl)
  have h1 : ((v >>> 8) &&& 0xff).toUInt8 = UInt8.ofNat (v.toNat / 256) := toUInt8_byte (by
    rw [UInt32.toNat_shiftRight, Nat.shiftRight_eq_div_pow]
    rfl)
  have h2 : (v &&& 0xff).toUInt8 = UInt8.ofNat v.toNat := toUInt8_byte rfl
  have hbytes : bytes 3 v.toNat = [UInt8.ofNat (v.toNat / 256 / 256)] ++
      ([UInt8.ofNat (v.toNat / 256)] ++ [UInt8.ofNat v.toNat]) := rfl
  simp only [writeU24, h0, h1, h2, store_eq_blit]
  rw [hbytes, ← blit_blit]
  congr 1
  funext b
  exact blit_blit b (off + 1) _ _

theorem writeU32_eq (xs : List UInt8) (off : Nat) (v : UInt32) :
    writeU32 xs off v = blit xs off (bytes 4 v.toNat) := by
  have h0 : ((v >>> 24) &&& 0xff).toUInt8 = UInt8.ofNat (v.toNat / 256 / 256 / 256) :=
    toUInt8_byte (by
      rw [UInt32.toNat_shiftRight, Nat.shiftRight_eq_div_pow, Nat.div_div_eq_div_mul,
        Nat.div_div_eq_div_mul]
      rfl)
  have hbytes : bytes 4 v.toNat = [UInt8.ofNat (v.toNat / 256 / 256 / 256)] ++ bytes 3 v.toNat :=
    rfl
  rw [hbytes, ← blit_blit, ← h0, ← store_eq_blit]
  simp only [← writeU24_eq]
  rfl

theorem writeU16_eq (xs : List UInt8) (off : Nat) (v : UInt16) :
    writeU16 xs off v = blit xs off (bytes 2 v.toNat) := by
  have h (a : UInt16) : (a &&& 0xff).toUInt8 = UInt8.ofNat a.toNat := by
    rw [← UInt8.toNat_inj, UInt16.toNat_toUInt8, UInt16.toNat_and, UInt8.toNat_ofNat']
    change (a.toNat &&& (2 ^ 8 - 1)) % 2 ^ 8 = a.toNat % 2 ^ 8
    rw [and_mask, Nat.mod_mod]
  have h0 : (v >>> 8).toNat = v.toNat / 256 := by
    rw [UInt16.toNat_shiftRight, Nat.shiftRight_eq_div_pow]
    rfl
  have hbytes : bytes 2 v.toNat = [UInt8.ofNat (v.toNat / 256)] ++ [UInt8.ofNat v.toNat] := rfl
  simp only [writeU16, h, h0, store_eq_blit]
  rw [hbytes, ← blit_blit]
  rfl

/-- The buffer after the first `i` words of `ws` have been written behind `w`. -/
def withWords (w zs : List UInt8) (ws : List UInt32) (i : Nat) : List UInt8 :=
  w ++ words (ws.take i) ++ zs.drop (4 * i)

theorem withWords_zero (w zs : List UInt8) (ws : List UInt32) : withWords w zs ws 0 = w ++ zs := by
  simp [withWords]

theorem withWords_length (w zs : List UInt8) (ws : List UInt32) :
    withWords w zs ws ws.length = w ++ words ws ++ zs.drop (4 * ws.length) := by
  rw [withWords, List.take_length]

theorem writeU32_withWords {w zs : List UInt8} {ws : List UInt32} {i : Nat} (hoff : w.length = off)
    (hi : i < ws.length) (hzs : 4 * ws.length ≤ zs.length) :
    writeU32 (withWords w zs ws i) (off + i * 4) ws[i] = .ok (withWords w zs ws (i + 1)) := by
  have hlen : (w ++ words (ws.take i)).length = off + i * 4 := by
    rw [List.length_append, length_words, List.length_take, hoff]
    omega
  have hblit := blit_append hlen (length_bytes 4 ws[i].toNat)
    (show 4 ≤ (zs.drop (4 * i)).length by rw [List.length_drop]; omega)
  rw [List.drop_drop] at hblit
  rw [writeU32_eq, withWords, hblit, withWords, List.take_succ_eq_append_getElem hi, words_concat,
    List.append_assoc w, Nat.mul_succ]

/-- The loop that writes an array of words. -/
theorem writeWords_ok {w zs : List UInt8} (ws : List UInt32) (hoff : w.length = off)
    (hzs : 4 * ws.length ≤ zs.length) :
    forUp (fun i buffer => do
      let x ← load ws i
      writeU32 buffer (off + i * 4) x) ws.length (w ++ zs)
        = .ok (w ++ words ws ++ zs.drop (4 * ws.length)) := by
  rw [← withWords_zero w zs ws, ← withWords_length]
  apply forUp_eq (withWords w zs ws)
  intro i hi
  rw [bind_of_ok (load_of_getElem? (List.getElem?_eq_getElem hi)), writeU32_withWords hoff hi hzs]

/-! ## Readers -/

theorem shiftLeft_of_lt {a k w : Nat} (h : a * 2 ^ k < 2 ^ w) : a <<< k % 2 ^ w = a * 2 ^ k := by
  rw [Nat.shiftLeft_eq, Nat.mod_eq_of_lt h]

theorem readU24_drop {n : Nat} (hn : n < 2 ^ 24) (h : xs.drop off = bytes 3 n ++ rest) :
    ∃ u, readU24 xs off = .ok u ∧ u.toNat = n := by
  have h0 : xs.drop off = UInt8.ofNat (n / 256 / 256) :: UInt8.ofNat (n / 256) ::
    UInt8.ofNat n :: rest := h
  have h1 := drop_cons h0
  have h2 := drop_cons h1
  refine ⟨_, by rw [readU24, bind_of_ok (load_drop h0), bind_of_ok (load_drop h1),
    bind_of_ok (load_drop h2)], ?_⟩
  simp only [UInt32.toNat_or, UInt32.toNat_shiftLeft, UInt8.toNat_toUInt32, UInt8.toNat_ofNat']
  change (n / 256 / 256 % 2 ^ 8) <<< 16 % 2 ^ 32 ||| (n / 256 % 2 ^ 8) <<< 8 % 2 ^ 32 ||| n % 2 ^ 8
    = n
  rw [shiftLeft_of_lt (by omega), shiftLeft_of_lt (by omega), or_eq_add (by omega),
    show n / 256 / 256 % 2 ^ 8 * 2 ^ 16 + n / 256 % 2 ^ 8 * 2 ^ 8
      = (n / 256) * 2 ^ 8 from by omega, or_eq_add (by omega)]
  omega

theorem readU32_drop (v : UInt32) (h : xs.drop off = bytes 4 v.toNat ++ rest) :
    readU32 xs off = .ok v := by
  have hv := v.toNat_lt
  have h0 : xs.drop off = UInt8.ofNat (v.toNat / 256 / 256 / 256) ::
    UInt8.ofNat (v.toNat / 256 / 256) :: UInt8.ofNat (v.toNat / 256) :: UInt8.ofNat v.toNat ::
    rest := h
  have h1 := drop_cons h0
  have h2 := drop_cons h1
  have h3 := drop_cons h2
  rw [readU32, bind_of_ok (load_drop h0), bind_of_ok (load_drop h1), bind_of_ok (load_drop h2),
    bind_of_ok (load_drop h3), Except.ok.injEq, ← UInt32.toNat_inj]
  simp only [UInt32.toNat_or, UInt32.toNat_shiftLeft, UInt8.toNat_toUInt32, UInt8.toNat_ofNat']
  generalize v.toNat = n at hv
  change (n / 256 / 256 / 256 % 2 ^ 8) <<< 24 % 2 ^ 32 ||| (n / 256 / 256 % 2 ^ 8) <<< 16 % 2 ^ 32
    ||| (n / 256 % 2 ^ 8) <<< 8 % 2 ^ 32 ||| n % 2 ^ 8 = n
  rw [shiftLeft_of_lt (by omega), shiftLeft_of_lt (by omega), shiftLeft_of_lt (by omega),
    or_eq_add (by omega),
    show n / 256 / 256 / 256 % 2 ^ 8 * 2 ^ 24 + n / 256 / 256 % 2 ^ 8 * 2 ^ 16
      = (n / 256 / 256) * 2 ^ 16 from by omega, or_eq_add (by omega),
    show n / 256 / 256 * 2 ^ 16 + n / 256 % 2 ^ 8 * 2 ^ 8 = (n / 256) * 2 ^ 8 from by omega,
    or_eq_add (by omega)]
  omega

theorem readU16_drop (v : UInt16) (h : xs.drop off = bytes 2 v.toNat ++ rest) :
    readU16 xs off = .ok v := by
  have hv := v.toNat_lt
  have h0 : xs.drop off = UInt8.ofNat (v.toNat / 256) :: UInt8.ofNat v.toNat :: rest := h
  rw [readU16, bind_of_ok (load_drop h0), bind_of_ok (load_drop (drop_cons h0)),
    Except.ok.injEq, ← UInt16.toNat_inj]
  simp only [UInt16.toNat_or, UInt16.toNat_shiftLeft, UInt8.toNat_toUInt16, UInt8.toNat_ofNat']
  change (v.toNat / 256 % 2 ^ 8) <<< 8 % 2 ^ 16 ||| v.toNat % 2 ^ 8 = v.toNat
  rw [shiftLeft_of_lt (by omega), or_eq_add (by omega)]
  omega

/-- Two bytes that lie inside the buffer are read. -/
theorem readU16_ok (xs : List UInt8) (off : Nat) (h : off + 2 ≤ xs.length) :
    ∃ v, readU16 xs off = .ok v ∧ v.toNat = value ((xs.drop off).take 2) := by
  obtain ⟨n, hn, hxs⟩ := exists_bytes (k := 2) (xs.drop off) (by rw [List.length_drop]; omega)
  have hv : (UInt16.ofNat n).toNat = n := by
    rw [UInt16.toNat_ofNat']
    exact Nat.mod_eq_of_lt hn
  refine ⟨UInt16.ofNat n, readU16_drop _ (hv ▸ hxs), ?_⟩
  rw [hxs, List.take_left' (length_bytes 2 n), value_bytes hn, hv]

/-- Four bytes that lie inside the buffer are read. -/
theorem readU32_inside (h : off + 4 ≤ xs.length) : ∃ v, readU32 xs off = .ok v := by
  obtain ⟨ws, hlen, hws⟩ := exists_words (xs.drop off) 1 (by rw [List.length_drop]; omega)
  obtain ⟨v, rfl⟩ := List.length_eq_one_iff.mp hlen
  rw [words_cons, words_nil, List.append_nil] at hws
  exact ⟨v, readU32_drop v hws⟩

theorem readU32_fault (h : xs.length < off + 4) : readU32 xs off = .error .bounds := by
  have hlast : load xs (off + 3) = .error .bounds := load_of_le (by omega)
  unfold readU32
  rcases load_cases xs off with ⟨a, ha⟩ | he
  · rcases load_cases xs (off + 1) with ⟨b, hb⟩ | he
    · rcases load_cases xs (off + 2) with ⟨c, hc⟩ | he
      · rw [bind_of_ok ha, bind_of_ok hb, bind_of_ok hc, hlast, error_bind]
      · rw [bind_of_ok ha, bind_of_ok hb, he, error_bind]
    · rw [bind_of_ok ha, he, error_bind]
  · rw [he, error_bind]

theorem readU16_fault (h : xs.length < off + 2) : readU16 xs off = .error .bounds := by
  have hlast : load xs (off + 1) = .error .bounds := load_of_le (by omega)
  unfold readU16
  rcases load_cases xs off with ⟨a, ha⟩ | he
  · rw [bind_of_ok ha, hlast, error_bind]
  · rw [he, error_bind]

/-! ### A longer buffer -/

theorem readU32_append (off : Nat) (ys : List UInt8) :
    Below (readU32 xs off) (readU32 (xs ++ ys) off) := by
  apply Below.bind (load_append off ys)
  intro b0
  apply Below.bind (load_append (off + 1) ys)
  intro b1
  apply Below.bind (load_append (off + 2) ys)
  intro b2
  exact Below.bind (load_append (off + 3) ys) fun b3 => Below.refl _

theorem readU16_append (off : Nat) (ys : List UInt8) :
    Below (readU16 xs off) (readU16 (xs ++ ys) off) := by
  apply Below.bind (load_append off ys)
  intro b0
  exact Below.bind (load_append (off + 1) ys) fun b1 => Below.refl _

theorem readWords_succ (xs : List UInt8) (off n : Nat) :
    readWords xs off (n + 1) = (do
      let ws ← readWords xs off n
      let w ← readU32 xs (off + 4 * n)
      .ok (ws ++ [w])) := forUp_succ _ n []

theorem readWords_drop (ws : List UInt32) (h : xs.drop off = words ws ++ rest) :
    readWords xs off ws.length = .ok ws := by
  induction ws using List.reverseRecOn generalizing rest with
  | nil => rfl
  | append_singleton ws w ih =>
    rw [words_concat, List.append_assoc] at h
    have hw := drop_add _ h
    rw [length_words] at hw
    rw [List.length_append, List.length_singleton, readWords_succ, bind_of_ok (ih h),
      bind_of_ok (readU32_drop w hw)]

/-- The `i`-th of the words that stand at an offset. -/
theorem readU32_words {ws : List UInt32} {i : Nat} (h : xs.drop off = words ws ++ rest)
    (hi : i < ws.length) : readU32 xs (off + 4 * i) = .ok ws[i] := by
  have hword := drop_flatMap h hi
  have hlen : ((ws.take i).flatMap fun w => bytes 4 w.toNat).length = 4 * i := by
    rw [← words, length_words, List.length_take]
    omega
  rw [hlen] at hword
  exact readU32_drop _ hword

/-- Words that lie inside the buffer are read. -/
theorem readWords_ok (xs : List UInt8) (off n : Nat) (h : off + 4 * n ≤ xs.length) :
    ∃ ws, ws.length = n ∧ readWords xs off n = .ok ws ∧
      xs.drop off = words ws ++ xs.drop (off + 4 * n) := by
  obtain ⟨ws, hlen, hws⟩ :=
    exists_words (xs.drop off) n (by rw [List.length_drop]; omega)
  rw [List.drop_drop] at hws
  exact ⟨ws, hlen, hlen ▸ readWords_drop ws hws, hws⟩

theorem length_of_readWords {n : Nat} {ws : List UInt32} (h : readWords xs off n = .ok ws) :
    ws.length = n := by
  induction n generalizing ws with
  | zero =>
    cases h
    rfl
  | succ n ih =>
    rw [readWords_succ] at h
    obtain ⟨vs, hvs, h⟩ := bind_eq_ok.mp h
    obtain ⟨w, -, h⟩ := bind_eq_ok.mp h
    cases h
    rw [List.length_append, ih hvs, List.length_singleton]

theorem readWords_fault {n : Nat} (hoff : off ≤ xs.length) (h : xs.length < off + 4 * n) :
    readWords xs off n = .error .bounds := by
  induction n with
  | zero => omega
  | succ n ih =>
    rw [readWords_succ]
    by_cases hn : off + 4 * n ≤ xs.length
    · obtain ⟨ws, _, hws, _⟩ := readWords_ok _ _ _ hn
      rw [bind_of_ok hws, readU32_fault (by omega), error_bind]
    · rw [ih (by omega), error_bind]

end RtpSdr.Rtp.Util
