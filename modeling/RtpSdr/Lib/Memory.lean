import Mathlib.Data.List.Forall2
import Mathlib.Data.List.TakeWhile
import RtpSdr.Lib.Checked

/-!
# Objects in memory

A C object is the list of its elements. Every access is checked against the
length of the list, so a run that returns has stayed inside its objects. `put`
is the content a block copy leaves; `load_drop` and its companions read a list
from the front of what remains after an offset.
-/
namespace RtpSdr.Lib.Memory

open RtpSdr.Lib.Checked

variable {α : Type}

/-- What a pointer variable holds. A freed object leaves its pointers dangling. -/
inductive Ptr (α : Type) where
  | null
  | obj (a : α)
  | freed
deriving DecidableEq, Repr

namespace Ptr

/-- The truth value of a pointer in a condition. -/
def isSet : Ptr α → Bool
  | null => false
  | obj _ => true
  | freed => true

def deref : Ptr α → Exec α
  | null => .error .pointer
  | obj a => .ok a
  | freed => .error .pointer

/-- The pointer to a block that may be missing. -/
def ofOption : Option α → Ptr α
  | none => null
  | some a => obj a

/-- The pointer to an array that is allocated only if it has elements. -/
def ofList : List α → Ptr (List α)
  | [] => null
  | a :: as => obj (a :: as)

/-- The elements that a pointer leads to. -/
def elements : Ptr (List α) → List α
  | obj as => as
  | null => []
  | freed => []

@[simp] theorem isSet_null : (null : Ptr α).isSet = false := rfl
@[simp] theorem isSet_obj (a : α) : (obj a).isSet = true := rfl
@[simp] theorem deref_obj (a : α) : (obj a).deref = .ok a := rfl

theorem null_ne_freed : (null : Ptr α) ≠ freed := nofun
theorem obj_ne_freed (a : α) : obj a ≠ freed := nofun

theorem deref_eq_ok {p : Ptr α} {a : α} (h : p.deref = .ok a) : p = .obj a := by
  cases p with
  | null => cases h
  | obj b =>
    cases h
    rfl
  | freed => cases h

@[simp] theorem elements_obj (as : List α) : (obj as).elements = as := rfl

theorem eq_obj_of_elements {p : Ptr (List α)} (h : p.elements ≠ []) : p = obj p.elements := by
  cases p with
  | null => exact absurd rfl h
  | obj as => rfl
  | freed => exact absurd rfl h

@[simp] theorem ofList_nil : ofList ([] : List α) = null := rfl

theorem ofList_of_ne_nil {as : List α} (h : as ≠ []) : ofList as = obj as := by
  cases as with
  | nil => exact absurd rfl h
  | cons a as => rfl

@[simp] theorem elements_ofList (as : List α) : (ofList as).elements = as := by
  cases as with
  | nil => rfl
  | cons a as => rfl

theorem isSet_ofOption (o : Option α) : (ofOption o).isSet = o.isSome := by
  cases o with
  | none => rfl
  | some a => rfl

end Ptr

def load (xs : List α) (i : Nat) : Exec α :=
  match xs[i]? with
  | some a => .ok a
  | none => .error .bounds

def store (xs : List α) (i : Nat) (a : α) : Exec (List α) :=
  if i < xs.length then .ok (xs.set i a) else .error .bounds

/-- The source of a `memcpy`. -/
def slice (xs : List α) (off n : Nat) : Exec (List α) :=
  if off + n ≤ xs.length then .ok ((xs.drop off).take n) else .error .bounds

def put (xs : List α) (off : Nat) (ys : List α) : List α :=
  xs.take off ++ ys ++ xs.drop (off + ys.length)

/-- The destination of a `memcpy` or `memset`. -/
def blit (xs : List α) (off : Nat) (ys : List α) : Exec (List α) :=
  if off + ys.length ≤ xs.length then .ok (put xs off ys) else .error .bounds

/-- The source of a `memcpy` of `n` elements; a copy of none needs no object. -/
def Ptr.read (p : Ptr (List α)) (n : Nat) : Exec (List α) :=
  if n = 0 then .ok [] else p.deref >>= fun xs => slice xs 0 n

/-- `free` of a pointer that may be null. -/
def free : Ptr α → Exec (Ptr α)
  | .null => .ok .null
  | .obj _ => .ok .freed
  | .freed => .error .pointer

/-- `realloc` to `n` elements; `fresh` stands for what the new ones hold. -/
def realloc (xs : List α) (n : Nat) (fresh : α) : List α :=
  xs.take n ++ List.replicate (n - xs.length) fresh

/-- `xs[n - 1] = a` with an `int` index, which is -1 for `n = 0`. -/
def storeLast (xs : List α) (n : Nat) (a : α) : Exec (List α) :=
  if n = 0 then .error .bounds else store xs (n - 1) a

/-- `memmove` of `n` elements inside an array. `behind` are the elements behind the array that
a read may still reach; none where the first of them already stops the run. -/
def memmove (xs behind : List α) (dst src n : Nat) : Exec (List α) := do
  let ys ← slice (xs ++ behind) src n
  blit xs dst ys

/-- The length of the C string in a block of characters. -/
def strlen (block : List UInt8) : Exec Nat :=
  match block.findIdx? (· == 0) with
  | some n => .ok n
  | none => .error .bounds

section Access

variable {xs ys zs rest : List α} {i j off n : Nat} {a d : α}

theorem load_of_getElem? (h : xs[i]? = some a) : load xs i = .ok a := by simp only [load, h]

theorem load_of_lt (d : α) (h : i < xs.length) : load xs i = .ok (xs.getD i d) := by
  apply load_of_getElem?
  rw [List.getD_eq_getElem?_getD, List.getElem?_eq_getElem h, Option.getD_some]

theorem load_of_le (h : xs.length ≤ i) : load xs i = .error .bounds := by
  simp only [load, List.getElem?_eq_none h]

theorem load_cases (xs : List α) (i : Nat) :
    (∃ a, load xs i = .ok a) ∨ load xs i = .error .bounds := by
  unfold load
  cases xs[i]? with
  | none => exact .inr rfl
  | some a => exact .inl ⟨a, rfl⟩

theorem load_take (h : i < n) : load (xs.take n) i = load xs i := by
  unfold load
  rw [List.getElem?_take_of_lt h]

theorem store_of_lt (a : α) (h : i < xs.length) : store xs i a = .ok (xs.set i a) := if_pos h

theorem load_eq_ok (h : load xs i = .ok a) : ∃ hi : i < xs.length, xs[i] = a := by
  unfold load at h
  cases hi : xs[i]? with
  | none =>
    rw [hi] at h
    cases h
  | some b =>
    rw [hi] at h
    cases h
    exact List.getElem?_eq_some_iff.mp hi

theorem load_getD_eq (d : α) (h : load xs i = .ok a) : i < xs.length ∧ xs.getD i d = a := by
  obtain ⟨hi, hxs⟩ := load_eq_ok h
  rw [List.getD_eq_getElem?_getD, List.getElem?_eq_getElem hi, Option.getD_some]
  exact ⟨hi, hxs⟩

@[simp] theorem neverAsserts_deref (p : Ptr α) : NeverAsserts p.deref := by
  cases p <;> simp [Ptr.deref]

@[simp] theorem neverAsserts_load (xs : List α) (i : Nat) : NeverAsserts (load xs i) := by
  rcases load_cases xs i with ⟨a, h⟩ | h <;> simp [h]

@[simp] theorem neverAsserts_store (xs : List α) (i : Nat) (a : α) :
    NeverAsserts (store xs i a) := by simp [store]

@[simp] theorem neverAsserts_slice (xs : List α) (off n : Nat) :
    NeverAsserts (slice xs off n) := by simp [slice]

@[simp] theorem neverAsserts_blit (xs ys : List α) (off : Nat) :
    NeverAsserts (blit xs off ys) := by simp [blit]

theorem store_eq_ok (h : store xs i a = .ok ys) : i < xs.length ∧ ys = xs.set i a := by
  unfold store at h
  by_cases hi : i < xs.length
  · rw [if_pos hi] at h
    cases h
    exact ⟨hi, rfl⟩
  · rw [if_neg hi] at h
    cases h

theorem slice_of_le (h : off + n ≤ xs.length) : slice xs off n = .ok ((xs.drop off).take n) :=
  if_pos h

theorem length_realloc (xs : List α) (n : Nat) (fresh : α) :
    (realloc xs n fresh).length = n := by
  rw [realloc, List.length_append, List.length_take, List.length_replicate]
  omega

theorem length_of_storeLast (h : storeLast xs n a = .ok ys) : ys.length = xs.length := by
  rw [storeLast] at h
  by_cases hn : n = 0
  · rw [if_pos hn] at h
    cases h
  · rw [if_neg hn] at h
    rw [(store_eq_ok h).2, List.length_set]

/-- Growing an array by one element and writing it. -/
theorem storeLast_realloc (xs : List α) (fresh a : α) :
    storeLast (realloc xs (xs.length + 1) fresh) (xs.length + 1) a = .ok (xs ++ [a]) := by
  have hgrown : realloc xs (xs.length + 1) fresh = xs ++ [fresh] := by
    rw [realloc, List.take_of_length_le (Nat.le_succ _), Nat.add_sub_cancel_left]
    rfl
  rw [storeLast, if_neg (Nat.succ_ne_zero _), hgrown, Nat.add_sub_cancel, store_of_lt _ (by simp),
    List.set_append_right _ _ (Nat.le_refl _), Nat.sub_self]
  rfl

theorem slice_eq_ok (h : slice xs off n = .ok ys) : off + n ≤ xs.length := by
  by_contra hlt
  rw [slice, if_neg hlt] at h
  cases h

theorem length_of_slice (h : slice xs off n = .ok ys) : ys.length = n := by
  have hle := slice_eq_ok h
  rw [slice_of_le hle] at h
  cases h
  rw [List.length_take, List.length_drop]
  omega

/-- An object read as a whole. -/
theorem Ptr.read_of_obj {p : Ptr (List α)} (h : xs ≠ [] → p = .obj xs) :
    p.read xs.length = .ok xs := by
  cases xs with
  | nil => rfl
  | cons a xs =>
    rw [Ptr.read, h (List.cons_ne_nil a xs), if_neg (by simp), Ptr.deref_obj, ok_bind,
      slice_of_le (by omega), List.drop_zero, List.take_length]

theorem slice_self (xs : List α) : slice xs 0 xs.length = .ok xs := by
  rw [slice_of_le (by omega), List.drop_zero, List.take_length]

theorem blit_of_le (h : off + ys.length ≤ xs.length) : blit xs off ys = .ok (put xs off ys) :=
  if_pos h

/-- Lists of one length that agree at every index. -/
theorem ext_getD (d : α) (hl : xs.length = ys.length)
    (h : ∀ i, i < xs.length → xs.getD i d = ys.getD i d) : xs = ys := by
  refine List.ext_getElem hl fun i hx hy => ?_
  have := h i hx
  rwa [List.getD_eq_getElem?_getD, List.getElem?_eq_getElem hx, List.getD_eq_getElem?_getD,
    List.getElem?_eq_getElem hy, Option.getD_some, Option.getD_some] at this

theorem getD_replicate (h : i < n) : (List.replicate n a).getD i d = a := by
  rw [List.getD_eq_getElem?_getD, List.getElem?_replicate, if_pos h, Option.getD_some]

theorem getD_replicate_default (n i : Nat) (a : α) : (List.replicate n a).getD i a = a := by
  rw [List.getD_eq_getElem?_getD, List.getElem?_replicate]
  split <;> rfl

theorem getD_set (h : i < xs.length) :
    (xs.set i a).getD j d = if i = j then a else xs.getD j d := by
  rw [List.getD_eq_getElem?_getD, List.getElem?_set, if_pos h, List.getD_eq_getElem?_getD]
  split <;> rfl

end Access

section Put

variable {xs ys zs : List α} {i off : Nat} {a : α}

@[simp] theorem length_put (h : off + ys.length ≤ xs.length) :
    (put xs off ys).length = xs.length := by
  simp only [put, List.length_append, List.length_take, List.length_drop]
  omega

theorem put_nil (xs : List α) (off : Nat) : put xs off [] = xs := by
  simp [put]

theorem put_zero (xs ys : List α) : put xs 0 ys = ys ++ xs.drop ys.length := by
  simp [put]

theorem set_eq_put (h : i < xs.length) : xs.set i a = put xs i [a] := by
  rw [put, List.set_eq_take_append_cons_drop, if_pos h]
  simp

theorem store_eq_blit (xs : List α) (i : Nat) (a : α) : store xs i a = blit xs i [a] := by
  unfold store blit
  by_cases h : i < xs.length
  · rw [if_pos h, if_pos (by simpa using Nat.succ_le_of_lt h), set_eq_put h]
  · rw [if_neg h, if_neg (by simpa using Nat.lt_succ_of_le (Nat.le_of_not_lt h))]

/-- Two copies side by side are one. -/
theorem put_put (zs : List α) (h : off + ys.length ≤ xs.length) :
    put (put xs off ys) (off + ys.length) zs = put xs off (ys ++ zs) := by
  have hl : (xs.take off ++ ys).length = off + ys.length := by
    rw [List.length_append, List.length_take]; omega
  unfold put
  rw [List.take_append_of_le_length (by omega), List.take_of_length_le (by omega),
    List.drop_append, List.drop_eq_nil_of_le (by rw [hl]; omega), hl, List.nil_append,
    List.drop_drop, List.length_append]
  rw [show off + ys.length + (off + ys.length + zs.length - (off + ys.length))
    = off + (ys.length + zs.length) from by omega]
  simp only [List.append_assoc]

theorem blit_fault (h : xs.length < off + ys.length) : blit xs off ys = .error .bounds :=
  if_neg (Nat.not_le.mpr h)

theorem length_of_blit (h : blit xs off ys = .ok zs) : zs.length = xs.length := by
  by_cases hle : off + ys.length ≤ xs.length
  · rw [blit_of_le hle] at h
    cases h
    exact length_put hle
  · rw [blit_fault (by omega)] at h
    cases h

theorem blit_blit (xs : List α) (off : Nat) (ys zs : List α) :
    (blit xs off ys >>= fun b => blit b (off + ys.length) zs) = blit xs off (ys ++ zs) := by
  by_cases hy : off + ys.length ≤ xs.length
  · rw [bind_of_ok (blit_of_le hy)]
    by_cases hz : off + ys.length + zs.length ≤ xs.length
    · rw [blit_of_le (by rw [length_put hy]; exact hz), put_put zs hy,
        blit_of_le (by rw [List.length_append]; omega)]
    · rw [blit_fault (by rw [length_put hy]; omega),
        blit_fault (by rw [List.length_append]; omega)]
  · rw [blit_fault (by omega), blit_fault (by rw [List.length_append]; omega)]
    rfl

theorem blit_bind_blit {β : Type} {off' : Nat} (xs ys zs : List α) (f : List α → Exec β)
    (h : off' = off + ys.length) :
    (blit xs off ys >>= fun b => blit b off' zs >>= f) = blit xs off (ys ++ zs) >>= f := by
  rw [h, ← blit_blit, bind_assoc]

/-- A copy to where the bytes written so far end. -/
theorem blit_append {n : Nat} (hxs : xs.length = off) (hys : ys.length = n) (h : n ≤ zs.length) :
    blit (xs ++ zs) off ys = .ok (xs ++ ys ++ zs.drop n) := by
  subst hxs hys
  rw [blit_of_le (by rw [List.length_append]; omega), put, List.take_left, List.drop_append,
    List.drop_eq_nil_of_le (by omega), List.nil_append]
  congr 3
  omega

theorem getD_put {j : Nat} {d : α} (h : off + ys.length ≤ xs.length) :
    (put xs off ys).getD j d =
      if off ≤ j ∧ j < off + ys.length then ys.getD (j - off) d else xs.getD j d := by
  have ht : (xs.take off).length = off := by rw [List.length_take]; omega
  have hl : (xs.take off ++ ys).length = off + ys.length := by rw [List.length_append, ht]
  rw [put, List.getD_eq_getElem?_getD, List.getElem?_append, hl, List.getElem?_append, ht,
    List.getElem?_drop, List.getElem?_take]
  by_cases hj : j < off
  · rw [if_pos (by omega), if_pos hj, if_pos hj, if_neg (by omega), List.getD_eq_getElem?_getD]
  · by_cases hj' : j < off + ys.length
    · rw [if_pos hj', if_neg hj, if_pos (by omega), List.getD_eq_getElem?_getD]
    · rw [if_neg hj', if_neg (by omega), List.getD_eq_getElem?_getD]
      congr 2
      omega

end Put

section Drop

variable {xs ys rest : List α} {off : Nat} {a : α}

theorem load_drop (h : xs.drop off = a :: rest) : load xs off = .ok a := by
  apply load_of_getElem?
  have := congrArg (·[0]?) h
  simpa using this

theorem drop_add (ys : List α) (h : xs.drop off = ys ++ rest) :
    xs.drop (off + ys.length) = rest := by
  rw [← List.drop_drop, h, List.drop_left]

theorem drop_cons (h : xs.drop off = a :: rest) : xs.drop (off + 1) = rest :=
  drop_add [a] h

/-- The `i`-th of the records written one behind the other from `off` on. -/
theorem drop_flatMap {β : Type} {f : β → List α} {bs : List β} {i : Nat}
    (h : xs.drop off = bs.flatMap f ++ rest) (hi : i < bs.length) :
    xs.drop (off + ((bs.take i).flatMap f).length)
      = f bs[i] ++ ((bs.drop (i + 1)).flatMap f ++ rest) := by
  apply drop_add
  rw [h, ← List.append_assoc (f bs[i]), ← List.flatMap_cons, ← List.drop_eq_getElem_cons hi,
    ← List.append_assoc, ← List.flatMap_append, List.take_append_drop]

theorem flatMap_take_succ {β : Type} (f : β → List α) {bs : List β} {i : Nat}
    (hi : i < bs.length) :
    (bs.take (i + 1)).flatMap f = (bs.take i).flatMap f ++ f bs[i] := by
  rw [List.take_succ_eq_append_getElem hi, List.flatMap_append, List.flatMap_singleton]

theorem length_flatMap_take_le {β : Type} (f : β → List α) (bs : List β) (i : Nat) :
    ((bs.take i).flatMap f).length ≤ (bs.flatMap f).length := by
  have hsplit :
      (bs.take i ++ bs.drop i).flatMap f = (bs.take i).flatMap f ++ (bs.drop i).flatMap f :=
    List.flatMap_append
  rw [List.take_append_drop] at hsplit
  rw [hsplit, List.length_append]
  exact Nat.le_add_right _ _

theorem slice_drop (h : xs.drop off = ys ++ rest) (hoff : off ≤ xs.length) :
    slice xs off ys.length = .ok ys := by
  have hl := congrArg List.length h
  rw [List.length_drop, List.length_append] at hl
  rw [slice_of_le (by omega), h, List.take_left]

end Drop

section Longer

/-! What is read from an array is read from a longer one. -/

variable {xs : List α}

theorem load_append (i : Nat) (ys : List α) : Below (load xs i) (load (xs ++ ys) i) := by
  intro a h
  obtain ⟨hi, ha⟩ := load_eq_ok h
  apply load_of_getElem?
  rw [List.getElem?_append_left hi, List.getElem?_eq_getElem hi, ha]

theorem slice_append (off n : Nat) (ys : List α) :
    Below (slice xs off n) (slice (xs ++ ys) off n) := by
  intro zs h
  have hle := slice_eq_ok h
  rw [slice_of_le hle] at h
  rw [slice_of_le (by rw [List.length_append]; omega), ← h,
    List.drop_append_of_le_length (by omega), List.take_append_of_le_length]
  rw [List.length_drop]
  omega

end Longer

section Move

variable {xs behind : List α} {i dst src n : Nat}

theorem memmove_of_le (hread : src + n ≤ xs.length + behind.length) (hwrite : dst + n ≤ xs.length) :
    memmove xs behind dst src n = .ok (put xs dst (((xs ++ behind).drop src).take n)) := by
  have hlen : (((xs ++ behind).drop src).take n).length = n := by
    rw [List.length_take, List.length_drop, List.length_append]
    omega
  rw [memmove, bind_of_ok (slice_of_le (by rw [List.length_append]; exact hread)),
    blit_of_le (by rw [hlen]; exact hwrite)]

/-- A move that reads behind the readable cells, or writes behind the array. -/
theorem memmove_fault
    (h : ¬ (src + n ≤ xs.length + behind.length ∧ dst + n ≤ xs.length)) :
    memmove xs behind dst src n = .error .bounds := by
  rw [memmove]
  by_cases hread : src + n ≤ (xs ++ behind).length
  · have hlen : (((xs ++ behind).drop src).take n).length = n := by
      rw [List.length_take, List.length_drop]
      omega
    rw [List.length_append] at hread
    rw [bind_of_ok (slice_of_le (by rw [List.length_append]; exact hread)),
      blit_fault (by rw [hlen]; omega)]
  · rw [slice, if_neg hread, error_bind]

/-- A move to the left closes the gap exactly if what it leaves is what should have come. -/
theorem put_left_iff (hread : src + n ≤ xs.length + behind.length) (hdst : dst ≤ xs.length)
    (hsrc : src ≤ xs.length) :
    (put xs dst (((xs ++ behind).drop src).take n)).take (dst + (xs.length - src))
        = xs.take dst ++ xs.drop src ↔
      (xs.drop (dst + n)).take (xs.length - src - n) = xs.drop (src + n) := by
  have hdst' : (xs.take dst).length = dst := by
    rw [List.length_take]
    omega
  have hsrc' : (xs.drop src).length = xs.length - src := List.length_drop
  have hlen : ((xs.drop src ++ behind).take n).length = n := by
    rw [List.length_take, List.length_append]
    omega
  rw [List.drop_append_of_le_length hsrc, put, hlen, List.append_assoc]
  nth_rewrite 1 [← hdst']
  rw [List.take_length_add_append, List.append_cancel_left_eq, List.take_append, hlen,
    List.take_take]
  by_cases hle : n ≤ xs.length - src
  · have hsplit := List.take_append_drop n (xs.drop src)
    rw [Nat.min_eq_right hle, List.take_append_of_le_length (hsrc' ▸ hle)]
    nth_rewrite 2 [← hsplit]
    rw [List.append_cancel_left_eq, List.drop_drop]
  · have hnil : xs.drop (src + n) = [] := List.drop_eq_nil_of_le (by omega)
    have hzero : xs.length - src - n = 0 := by omega
    rw [Nat.min_eq_left (Nat.le_of_not_le hle), List.take_append_of_le_length hsrc'.ge, hnil,
      hzero, List.take_zero, List.append_nil, ← hsrc', List.take_length]
    exact iff_of_true rfl rfl

/-- The elements behind `i` move down by one; the last cell takes what lies behind the array. -/
theorem memmove_tail (b : α) (behind : List α) (hi : i < xs.length) :
    memmove xs (b :: behind) i (i + 1) (xs.length - i) = .ok (xs.eraseIdx i ++ [b]) := by
  have hlen : (xs.drop (i + 1) ++ [b]).length = xs.length - i := by
    rw [List.length_append, List.length_drop, List.length_singleton]
    omega
  have hdrop : (xs ++ b :: behind).drop (i + 1) = xs.drop (i + 1) ++ [b] ++ behind := by
    rw [List.drop_append_of_le_length (by omega), List.append_assoc]
    rfl
  rw [memmove_of_le (by rw [List.length_cons]; omega) (by omega), hdrop, List.take_left' hlen, put,
    hlen, List.drop_eq_nil_of_le (show xs.length ≤ i + (xs.length - i) by omega), List.append_nil,
    List.eraseIdx_eq_take_drop_succ, List.append_assoc]

theorem memmove_tail_nil (hi : i < xs.length) :
    memmove xs [] i (i + 1) (xs.length - i) = .error .bounds := by
  apply memmove_fault
  rw [List.length_nil]
  omega

end Move

section Strings

variable {text rest : List UInt8}

/-- The characters in front of the first NUL. -/
def cstring (block : List UInt8) : List UInt8 := block.takeWhile (· != 0)

theorem zero_notMem_cstring (block : List UInt8) : 0 ∉ cstring block := by
  intro h
  simpa using List.mem_takeWhile_imp h

theorem take_cstring (block : List UInt8) : block.take (cstring block).length = cstring block :=
  (List.prefix_iff_eq_take.mp (List.takeWhile_prefix _)).symm

/-- The characters are copied from the front of the block. -/
theorem slice_cstring (block : List UInt8) :
    slice block 0 (cstring block).length = .ok (cstring block) := by
  have hle : (cstring block).length ≤ block.length := (List.takeWhile_prefix _).length_le
  rw [slice_of_le (by omega), List.drop_zero, take_cstring]

theorem strlen_append (rest : List UInt8) (h : 0 ∉ text) :
    strlen (text ++ 0 :: rest) = .ok text.length := by
  have hnone : text.findIdx? (· == 0) = none := by
    rw [List.findIdx?_eq_none_iff]
    intro c hc
    exact beq_false_of_ne fun he => h (he ▸ hc)
  simp [strlen, List.findIdx?_append, hnone, List.findIdx?_cons]

/-- A block that holds a NUL begins with a string. -/
theorem exists_cstring {block : List UInt8} (h : 0 ∈ block) :
    ∃ rest, block = cstring block ++ 0 :: rest := by
  have hne : block.dropWhile (· != 0) ≠ [] := by
    rw [Ne, List.dropWhile_eq_nil_iff]
    exact fun hall => by simpa using hall 0 h
  have hsplit := List.takeWhile_append_dropWhile (p := (· != 0)) (l := block)
  have hhead := List.head_dropWhile_not (· != 0) hne
  have hcons := List.cons_head_tail hne
  rw [bne_eq_false_iff_eq] at hhead
  rw [hhead] at hcons
  exact ⟨(block.dropWhile (· != 0)).tail, by rw [hcons]; exact hsplit.symm⟩

theorem strlen_ok {block : List UInt8} (h : 0 ∈ block) :
    strlen block = .ok (cstring block).length := by
  obtain ⟨rest, hblock⟩ := exists_cstring h
  have hlen := strlen_append rest (zero_notMem_cstring block)
  rwa [← hblock] at hlen

end Strings

section Filling

/-! An array of `n` cells that a loop writes from the front: the ones written, then those that
hold what they were allocated with. -/

variable {done : List α} {i n : Nat} {fresh : α}

theorem load_filling (hdone : done.length = i) (hi : i < n) :
    load (done ++ List.replicate (n - i) fresh) i = .ok fresh := by
  have hsucc : n - i = n - (i + 1) + 1 := by omega
  apply load_drop
  rw [hsucc, List.replicate_succ]
  exact List.drop_left' hdone

theorem store_filling (a : α) (hdone : done.length = i) (hi : i < n) :
    store (done ++ List.replicate (n - i) fresh) i a
      = .ok (done ++ [a] ++ List.replicate (n - (i + 1)) fresh) := by
  have hsucc : n - i = n - (i + 1) + 1 := by omega
  rw [store_of_lt _ (by rw [List.length_append, List.length_replicate]; omega), hsucc,
    List.replicate_succ, List.set_append_right _ _ (by omega), hdone, Nat.sub_self,
    List.set_cons_zero, List.append_assoc, List.singleton_append]

end Filling

section Arrays

variable {β : Type}

/-- `for (i = 0; i < n; i++) if (test(p[i])) return i;` -/
def find (p : Ptr (List α)) (n : Nat) (test : α → Bool) : Exec (Option Nat) := do
  let loop ← forLeave (fun i (_ : Unit) => do
    let xs ← p.deref
    let x ← load xs i
    if test x then .ok (.leave i) else .ok (.next ())) n ()
  match loop with
  | .next _ => .ok none
  | .leave i => .ok (some i)

/-- The search finds the first index. -/
theorem find_ok {p : Ptr (List α)} {xs : List α} (hp : xs ≠ [] → p = .obj xs) (test : α → Bool) :
    find p xs.length test = .ok (xs.findIdx? test) := by
  have hloop (n : Nat) (hn : n ≤ xs.length) : forLeave (fun i (_ : Unit) => do
      let xs ← p.deref
      let x ← load xs i
      if test x then Except.ok (Step.leave i) else .ok (.next ())) n ()
      = .ok (match (xs.take n).findIdx? test with
        | none => .next ()
        | some i => .leave i) := by
    induction n with
    | zero => rfl
    | succ n ih =>
      have hi : n < xs.length := hn
      have hne : xs ≠ [] := List.ne_nil_of_length_pos (by omega)
      rw [List.take_succ_eq_append_getElem hi, List.findIdx?_append]
      cases hfound : (xs.take n).findIdx? test with
      | some i => exact forLeave_leave (by rw [ih (Nat.le_of_lt hi), hfound])
      | none =>
        rw [forLeave_next (by rw [ih (Nat.le_of_lt hi), hfound]), hp hne, Ptr.deref_obj, ok_bind,
          bind_of_ok (load_of_getElem? (List.getElem?_eq_getElem hi)), Option.none_or]
        have htake : (xs.take n).length = n := by
          rw [List.length_take]
          omega
        cases htest : test xs[n] with
        | true => simp [List.findIdx?_cons, htest, htake]
        | false => simp [List.findIdx?_cons, htest]
  rw [find, bind_of_ok (hloop xs.length (Nat.le_refl _)), List.take_length]
  cases xs.findIdx? test <;> rfl

/-- A search that returns has read every element it passed. -/
theorem find_returns {p : Ptr (List α)} {n : Nat} {test : α → Bool} {found : Option Nat}
    (hrun : find p n test = .ok found) :
    (found = none → n ≤ p.elements.length) ∧
      ∀ i, found = some i → i < n ∧ i < p.elements.length := by
  obtain ⟨loop, hloop, hfound⟩ := bind_eq_ok.mp hrun
  have hpass (i : Nat) (d : Step Unit Nat)
      (hbody : (do
        let xs ← p.deref
        let x ← load xs i
        if test x then Except.ok (Step.leave i) else .ok (.next ())) = .ok d) :
      i < p.elements.length ∧ ∀ j, d = .leave j → j = i := by
    obtain ⟨xs, hderef, hbody⟩ := bind_eq_ok.mp hbody
    obtain ⟨x, hload, hbody⟩ := bind_eq_ok.mp hbody
    rw [Ptr.deref_eq_ok hderef, Ptr.elements_obj]
    refine ⟨(load_eq_ok hload).1, fun j hj => ?_⟩
    subst hj
    by_cases htest : test x = true
    · rw [if_pos htest] at hbody
      cases hbody
      rfl
    · rw [if_neg htest] at hbody
      cases hbody
  have hend := forLeave_outcome (I := fun i _ => i ≤ p.elements.length)
    (Q := fun i => i < n ∧ i < p.elements.length) (Nat.zero_le _)
    (fun i _ _ _ _ hbody => (hpass i _ hbody).1)
    (fun i _ j hi _ hbody => by
      obtain ⟨hlt, hj⟩ := hpass i _ hbody
      rw [hj j rfl]
      exact ⟨hi, hlt⟩) hloop
  rcases hend with ⟨_, rfl, hle⟩ | ⟨j, rfl, hlt⟩
  · cases hfound
    refine ⟨fun _ => hle, ?_⟩
    intro i hi
    cases hi
  · cases hfound
    constructor
    · intro hnone
      cases hnone
    · intro i hi
      cases hi
      exact hlt

/-- The array behind a pointer holds the list `bs`, element by element; an empty list
needs no array. -/
def HoldsList (R : α → β → Prop) (p : Ptr (List α)) (bs : List β) : Prop :=
  ∃ as, (bs ≠ [] → p = .obj as) ∧ List.Forall₂ R as bs

/-- An array of elements that each stand for something. -/
theorem exists_holdsList {R : α → β → Prop} {p : Ptr (List α)} {as : List α}
    (hp : as ≠ [] → p = .obj as) (h : ∀ a ∈ as, ∃ b, R a b) :
    ∃ bs, bs.length = as.length ∧ HoldsList R p bs := by
  have hall : ∃ bs, List.Forall₂ R as bs := by
    clear hp
    induction as with
    | nil => exact ⟨[], .nil⟩
    | cons a as ih =>
      obtain ⟨b, hb⟩ := h a List.mem_cons_self
      obtain ⟨bs, hbs⟩ := ih fun a ha => h a (List.mem_cons_of_mem _ ha)
      exact ⟨b :: bs, .cons hb hbs⟩
  obtain ⟨bs, hbs⟩ := hall
  have hlen := hbs.length_eq
  refine ⟨bs, hlen.symm, as, fun hne => hp fun hnil => hne ?_, hbs⟩
  rw [hnil] at hlen
  exact List.eq_nil_of_length_eq_zero hlen.symm

/-- Another view of the elements. -/
theorem HoldsList.map {γ : Type} {R : α → β → Prop} {S : α → γ → Prop} {p : Ptr (List α)}
    {bs : List β} (f : β → γ) (hRS : ∀ a b, R a b → S a (f b)) (h : HoldsList R p bs) :
    HoldsList S p (bs.map f) := by
  obtain ⟨as, hp, hR⟩ := h
  refine ⟨as, fun hne => hp fun hnil => hne (by rw [hnil, List.map_nil]), ?_⟩
  rw [List.forall₂_map_right_iff]
  exact hR.imp hRS

theorem HoldsList.load {R : α → β → Prop} {p : Ptr (List α)} {bs : List β} (h : HoldsList R p bs)
    {i : Nat} (hi : i < bs.length) :
    ∃ as a, p.deref = .ok as ∧ load as i = .ok a ∧ R a bs[i] := by
  obtain ⟨as, hp, hR⟩ := h
  have hlen := hR.length_eq
  refine ⟨as, as[i], ?_, load_of_getElem? (List.getElem?_eq_getElem (by omega)), hR.get _ _⟩
  rw [hp (List.ne_nil_of_length_pos (by omega)), Ptr.deref_obj]

end Arrays

end RtpSdr.Lib.Memory
