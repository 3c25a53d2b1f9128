import Mathlib.Data.Nat.Bitwise
import Mathlib.Data.List.Induction

/-!
# Big-endian numbers

The `k` bytes of a number, most significant first, and the number that bytes stand
for. Each undoes the other, so any `k` bytes may be read as those of a number.
-/
namespace RtpSdr.Lib.BigEndian

variable {k n : Nat} {bs : List UInt8}

/-- The lowest `k` bytes of `n`. -/
def bytes : Nat → Nat → List UInt8
  | 0, _ => []
  | k + 1, n => bytes k (n / 256) ++ [UInt8.ofNat n]

def value (bs : List UInt8) : Nat := bs.foldl (fun n b => n * 256 + b.toNat) 0

@[simp] theorem length_bytes (k n : Nat) : (bytes k n).length = k := by
  induction k generalizing n with
  | zero => rfl
  | succ k ih => rw [bytes, List.length_append, ih, List.length_singleton]

/-- The lowest bytes see the lowest digits only. -/
theorem bytes_mod (k n : Nat) : bytes k (n % 256 ^ k) = bytes k n := by
  induction k generalizing n with
  | zero => rfl
  | succ k ih =>
    have hlow : UInt8.ofNat (n % 256 ^ (k + 1)) = UInt8.ofNat n := by
      rw [← UInt8.toNat_inj, UInt8.toNat_ofNat', UInt8.toNat_ofNat', Nat.pow_succ]
      exact Nat.mod_mul_left_mod n (256 ^ k) 256
    have hhigh : n % 256 ^ (k + 1) / 256 = n / 256 % 256 ^ k := by
      rw [Nat.pow_succ]
      exact Nat.mod_mul_left_div_self n 256 (256 ^ k)
    rw [bytes, bytes, hlow, hhigh, ih]

theorem value_concat (bs : List UInt8) (b : UInt8) :
    value (bs ++ [b]) = value bs * 256 + b.toNat := by
  rw [value, List.foldl_append]
  rfl

theorem value_lt (bs : List UInt8) : value bs < 256 ^ bs.length := by
  induction bs using List.reverseRecOn with
  | nil => exact Nat.one_pos
  | append_singleton bs b ih =>
    have hb := b.toNat_lt
    rw [value_concat, List.length_append, List.length_singleton, Nat.pow_succ]
    omega

theorem value_bytes (h : n < 256 ^ k) : value (bytes k n) = n := by
  induction k generalizing n with
  | zero =>
    rw [Nat.pow_zero] at h
    rw [bytes, show n = 0 from by omega]
    rfl
  | succ k ih =>
    rw [Nat.pow_succ] at h
    rw [bytes, value_concat, ih (Nat.div_lt_of_lt_mul (by omega)), UInt8.toNat_ofNat']
    omega

theorem bytes_value (bs : List UInt8) : bytes bs.length (value bs) = bs := by
  induction bs using List.reverseRecOn with
  | nil => rfl
  | append_singleton bs b ih =>
    have hb := b.toNat_lt
    have hlow : UInt8.ofNat (value bs * 256 + b.toNat) = b := by
      rw [← UInt8.toNat_inj, UInt8.toNat_ofNat']
      omega
    rw [List.length_append, List.length_singleton, bytes, value_concat, hlow,
      show (value bs * 256 + b.toNat) / 256 = value bs from by omega, ih]

/-- Enough bytes begin with those of a number. -/
theorem exists_bytes (bs : List UInt8) (h : k ≤ bs.length) :
    ∃ n < 256 ^ k, bs = bytes k n ++ bs.drop k := by
  have hlen : (bs.take k).length = k := by
    rw [List.length_take]
    omega
  refine ⟨value (bs.take k), ?_, ?_⟩
  · have := value_lt (bs.take k)
    rwa [hlen] at this
  · have := bytes_value (bs.take k)
    rw [hlen] at this
    rw [this, List.take_append_drop]

/-- The bytes of a list of 32-bit words. -/
def words (ws : List UInt32) : List UInt8 := ws.flatMap fun w => bytes 4 w.toNat

@[simp] theorem words_nil : words [] = [] := rfl

theorem words_cons (w : UInt32) (ws : List UInt32) :
    words (w :: ws) = bytes 4 w.toNat ++ words ws := List.flatMap_cons

theorem words_concat (ws : List UInt32) (w : UInt32) :
    words (ws ++ [w]) = words ws ++ bytes 4 w.toNat := by
  rw [words, words, List.flatMap_append, List.flatMap_singleton]

@[simp] theorem length_words (ws : List UInt32) : (words ws).length = 4 * ws.length := by
  induction ws with
  | nil => rfl
  | cons w ws ih =>
    rw [words_cons, List.length_append, ih, length_bytes, List.length_cons]
    omega

theorem exists_words (bs : List UInt8) (n : Nat) (h : 4 * n ≤ bs.length) :
    ∃ ws, ws.length = n ∧ bs = words ws ++ bs.drop (4 * n) := by
  induction n generalizing bs with
  | zero => exact ⟨[], rfl, by simp⟩
  | succ n ih =>
    obtain ⟨w, hw, hbs⟩ := exists_bytes (k := 4) bs (by omega)
    obtain ⟨ws, hlen, hws⟩ := ih (bs.drop 4) (by rw [List.length_drop]; omega)
    have hval : (UInt32.ofNat w).toNat = w := by
      rw [UInt32.toNat_ofNat']
      exact Nat.mod_eq_of_lt hw
    refine ⟨UInt32.ofNat w :: ws, by rw [List.length_cons, hlen], ?_⟩
    rw [List.drop_drop] at hws
    rw [words_cons, hval, List.append_assoc, Nat.mul_succ, Nat.add_comm, ← hws]
    exact hbs

/-! ## Numbers put together by shifts -/

theorem or_eq_add {a b : Nat} (h : b < 2 ^ k) : a * 2 ^ k ||| b = a * 2 ^ k + b := by
  rw [← Nat.shiftLeft_eq, Nat.shiftLeft_add_eq_or_of_lt h]

theorem and_mask (a k : Nat) : a &&& (2 ^ k - 1) = a % 2 ^ k := Nat.and_two_pow_sub_one_eq_mod a k

end RtpSdr.Lib.BigEndian
