import Mathlib.Algebra.Group.Int.Defs
import Mathlib.Algebra.Group.Nat.Defs
import Mathlib.Data.List.Induction
import Mathlib.Order.Basic
import Mathlib.Tactic.Common

/-!
# Checked runs of C code

A run of a C function either returns or stops at the first thing the language
does not define. The loops below are the counting and the open loop of C as
structural recursions, each with its invariant rule. Nothing here names a
program: the rules serve any translation that states memory access explicitly.
-/
namespace RtpSdr.Lib.Checked

/-- Why a run stopped: an access outside its object, a failed `assert`, a signed
overflow, a division by zero, the use of a null or freed pointer, or an unfinished loop. -/
inductive Fault where
  | bounds
  | assertion
  | overflow
  | division
  | pointer
  | fuel
deriving DecidableEq, Repr

abbrev Exec := Except Fault

section Bind

variable {α β : Type} {x : Exec α} {f : α → Exec β}

@[simp] theorem ok_bind (a : α) : (Except.ok a >>= f) = f a := by
  cases h : f a <;> exact h

@[simp] theorem error_bind (e : Fault) : (Except.error e >>= f) = .error e := rfl

theorem bind_of_ok {a : α} (h : x = .ok a) : (x >>= f) = f a := by rw [h, ok_bind]

theorem bind_eq_ok {b : β} : (x >>= f) = .ok b ↔ ∃ a, x = .ok a ∧ f a = .ok b := by
  cases x with
  | error e => simp
  | ok a => simp

theorem exists_ok_of_isOk (h : x.isOk = true) : ∃ a, x = .ok a := by
  cases x with
  | error e => cases h
  | ok a => exact ⟨a, rfl⟩

/-- A run returns exactly under a condition without which it ends in a fault. -/
theorem exists_ok_iff {P : Prop} (hyes : P → ∃ a, x = .ok a) (hno : ¬ P → ∃ e, x = .error e) :
    (∃ a, x = .ok a) ↔ P := by
  refine ⟨fun hok => ?_, hyes⟩
  by_contra hP
  obtain ⟨a, ha⟩ := hok
  obtain ⟨e, he⟩ := hno hP
  rw [ha] at he
  cases he

end Bind

/-- A C `assert`. -/
def cassert (c : Bool) : Exec Unit := if c then .ok () else .error .assertion

@[simp] theorem cassert_true : cassert true = .ok () := rfl

/-- The object after a call that is asserted to return zero. -/
def assertZero {σ : Type} (x : Exec (Int × σ)) : Exec σ := do
  let (r, s) ← x
  cassert (r == 0)
  .ok s

theorem assertZero_eq_ok {σ : Type} {x : Exec (Int × σ)} {s : σ} :
    assertZero x = .ok s ↔ x = .ok (0, s) := by
  constructor
  · intro h
    obtain ⟨⟨r, t⟩, hx, h⟩ := bind_eq_ok.mp h
    by_cases hr : r = 0
    · rw [hr] at h hx
      cases h
      exact hx
    · dsimp only at h
      rw [beq_false_of_ne hr] at h
      cases h
  · intro h
    rw [h]
    rfl

/-- The value of an `int` expression: outside the type's range it is a signed overflow. -/
def int32 (n : Int) : Exec Int :=
  if -2 ^ 31 ≤ n ∧ n < 2 ^ 31 then .ok n else .error .overflow

theorem int32_of_lt {n : Int} (h0 : -2 ^ 31 ≤ n) (h : n < 2 ^ 31) : int32 n = .ok n :=
  if_pos ⟨h0, h⟩

/-- The conversion of an unsigned number to `int`. Irreducible, as the two below: unfolding
them against a variable counts to the modulus. -/
@[irreducible] def castInt (n : Nat) : Int := ((n : Int) + 2 ^ 31) % 2 ^ 32 - 2 ^ 31

theorem castInt_of_lt {n : Nat} (h : n < 2 ^ 31) : castInt n = n := by
  unfold castInt
  omega

theorem castInt_bounds (n : Nat) : -2 ^ 31 ≤ castInt n ∧ castInt n < 2 ^ 31 := by
  unfold castInt
  omega

/-- A size from `2 ^ 31` on comes back as a smaller one, if not as a negative number. -/
theorem toNat_castInt_le_iff {n m : Nat} (h : n ≤ m + 2 ^ 31) :
    (castInt n).toNat ≤ m ↔ n ≤ m ∨ 2 ^ 31 ≤ n := by
  unfold castInt
  omega

theorem toNat_castInt_le (n : Nat) : (castInt n).toNat ≤ n :=
  (toNat_castInt_le_iff (Nat.le_add_right n _)).mpr (.inl (Nat.le_refl n))

/-- The sum and the difference of two `size_t`. -/
@[irreducible] def sizeAdd (a b : Nat) : Nat := (a + b) % 2 ^ 64

@[irreducible] def sizeSub (a b : Nat) : Nat := (a + 2 ^ 64 - b) % 2 ^ 64

theorem sizeAdd_of_lt {a b : Nat} (h : a + b < 2 ^ 64) : sizeAdd a b = a + b := by
  rw [sizeAdd, Nat.mod_eq_of_lt h]

theorem sizeAdd_le (a b : Nat) : sizeAdd a b ≤ a + b := by
  rw [sizeAdd]
  exact Nat.mod_le _ _

theorem sizeSub_of_le {a b : Nat} (h : b ≤ a) (ha : a < 2 ^ 64) : sizeSub a b = a - b := by
  unfold sizeSub
  omega

/-- A difference of two `size_t` that is to be exact. -/
def subExact (a b : Nat) : Exec Nat := if b ≤ a then .ok (a - b) else .error .overflow

/-- The truth value of a string literal in a condition: its address is not null. -/
def literal (_ : String) : Bool := true

section Loops

variable {σ ρ : Type}

/-- `for (i = 0; i < n; i++) body`. -/
def forUp (body : Nat → σ → Exec σ) : Nat → σ → Exec σ
  | 0, s => .ok s
  | n + 1, s => forUp body n s >>= body n

@[simp] theorem forUp_zero (body : Nat → σ → Exec σ) (s : σ) : forUp body 0 s = .ok s := rfl

theorem forUp_succ (body : Nat → σ → Exec σ) (n : Nat) (s : σ) :
    forUp body (n + 1) s = forUp body n s >>= body n := rfl

/-- The first pass apart from the others. -/
theorem forUp_succ_left (body : Nat → σ → Exec σ) (n : Nat) (s : σ) :
    forUp body (n + 1) s = body 0 s >>= forUp (fun i => body (i + 1)) n := by
  induction n with
  | zero =>
    rw [forUp_succ, forUp_zero, ok_bind]
    cases body 0 s <;> rfl
  | succ n ih => rw [forUp_succ, ih, bind_assoc]; rfl

/-- Total-correctness rule: a body that succeeds and preserves `I` makes the loop do so. -/
theorem forUp_invariant {b : Nat → σ → Exec σ} {I : Nat → σ → Prop} {s : σ} (n : Nat)
    (h0 : I 0 s) (hstep : ∀ i t, i < n → I i t → ∃ t', b i t = .ok t' ∧ I (i + 1) t') :
    ∃ t, forUp b n s = .ok t ∧ I n t := by
  induction n with
  | zero => exact ⟨s, rfl, h0⟩
  | succ n ih =>
    obtain ⟨t, ht, hI⟩ := ih fun i t hi h => hstep i t (Nat.lt_succ_of_lt hi) h
    obtain ⟨t', ht', hI'⟩ := hstep n t (Nat.lt_succ_self n) hI
    exact ⟨t', by rw [forUp_succ, ht, ok_bind, ht'], hI'⟩

/-- Passes that agree make loops that agree. -/
theorem forUp_congr {b c : Nat → σ → Exec σ} (n : Nat) (s : σ)
    (h : ∀ i t, i < n → b i t = c i t) : forUp b n s = forUp c n s := by
  induction n with
  | zero => rfl
  | succ n ih =>
    rw [forUp_succ, forUp_succ, ih fun i t hi => h i t (Nat.lt_succ_of_lt hi)]
    congr 1
    funext t
    exact h n t (Nat.lt_succ_self n)

/-- What every pass that returns preserves holds after a loop that returns. -/
theorem forUp_returns {b : Nat → σ → Exec σ} {I : Nat → σ → Prop} {s : σ} {n : Nat} (h0 : I 0 s)
    (hstep : ∀ i t u, i < n → I i t → b i t = .ok u → I (i + 1) u) {t : σ}
    (hrun : forUp b n s = .ok t) : I n t := by
  induction n generalizing t with
  | zero =>
    cases hrun
    exact h0
  | succ n ih =>
    obtain ⟨u, hu, hlast⟩ := bind_eq_ok.mp hrun
    have hI := ih (fun i t u hi => hstep i t u (Nat.lt_succ_of_lt hi)) hu
    exact hstep n u t (Nat.lt_succ_self n) hI hlast

/-- A loop whose `i`-th state is known in closed form. -/
theorem forUp_eq {b : Nat → σ → Exec σ} (f : Nat → σ) (n : Nat)
    (hstep : ∀ i, i < n → b i (f i) = .ok (f (i + 1))) :
    forUp b n (f 0) = .ok (f n) := by
  obtain ⟨t, ht, hI⟩ := forUp_invariant (b := b) (I := fun i t => t = f i) n rfl
    (by rintro i t hi rfl; exact ⟨_, hstep i hi, rfl⟩)
  rw [ht, hI]

/-- What one pass of a loop decides: go on, or leave the loop with a value. -/
inductive Step (σ ρ : Type) where
  | next (s : σ)
  | leave (r : ρ)
deriving DecidableEq, Repr

/-- A counting loop whose body may `break`, `goto` or `return`. -/
def forLeave (body : Nat → σ → Exec (Step σ ρ)) : Nat → σ → Exec (Step σ ρ)
  | 0, s => .ok (.next s)
  | n + 1, s => forLeave body n s >>= fun
      | .next t => body n t
      | .leave r => .ok (.leave r)

section ForLeave

variable {b : Nat → σ → Exec (Step σ ρ)} {n : Nat} {s t : σ} {r : ρ}

theorem forLeave_next (h : forLeave b n s = .ok (.next t)) :
    forLeave b (n + 1) s = b n t := by
  rw [forLeave, bind_of_ok h]

theorem forLeave_leave (h : forLeave b n s = .ok (.leave r)) :
    forLeave b (n + 1) s = .ok (.leave r) := by
  rw [forLeave, bind_of_ok h]

/-- A loop that goes on to the end, its `i`-th state known in closed form. -/
theorem forLeave_eq {b : Nat → σ → Exec (Step σ ρ)} (f : Nat → σ) (n : Nat)
    (hstep : ∀ i, i < n → b i (f i) = .ok (.next (f (i + 1)))) :
    forLeave b n (f 0) = .ok (.next (f n)) := by
  induction n with
  | zero => rfl
  | succ n ih =>
    rw [forLeave_next (ih fun i hi => hstep i (Nat.lt_succ_of_lt hi))]
    exact hstep n (Nat.lt_succ_self n)

/-- `I` describes the states that go on, `Q` the values the loop leaves with. -/
theorem forLeave_invariant {I : Nat → σ → Prop} {Q : ρ → Prop} (n : Nat) (h0 : I 0 s)
    (hstep : ∀ i t, i < n → I i t →
      (∃ t', b i t = .ok (.next t') ∧ I (i + 1) t') ∨ ∃ r, b i t = .ok (.leave r) ∧ Q r) :
    (∃ t, forLeave b n s = .ok (.next t) ∧ I n t) ∨
      ∃ r, forLeave b n s = .ok (.leave r) ∧ Q r := by
  induction n with
  | zero => exact .inl ⟨s, rfl, h0⟩
  | succ n ih =>
    rcases ih fun i t hi h => hstep i t (Nat.lt_succ_of_lt hi) h with ⟨t, ht, hI⟩ | ⟨r, hr, hQ⟩
    · rw [forLeave_next ht]
      exact hstep n t (Nat.lt_succ_self n) hI
    · exact .inr ⟨r, forLeave_leave hr, hQ⟩

theorem forLeave_congr {b c : Nat → σ → Exec (Step σ ρ)} (n : Nat) (s : σ)
    (h : ∀ i t, i < n → b i t = c i t) : forLeave b n s = forLeave c n s := by
  induction n with
  | zero => rfl
  | succ n ih =>
    rw [forLeave, forLeave, ih fun i t hi => h i t (Nat.lt_succ_of_lt hi)]
    congr 1
    funext d
    cases d with
    | next t => exact h n t (Nat.lt_succ_self n)
    | leave r => rfl

/-- What every pass that goes on preserves holds after a loop that went on to its end. -/
theorem forLeave_returns {I : Nat → σ → Prop} (h0 : I 0 s)
    (hstep : ∀ i t u, i < n → I i t → b i t = .ok (.next u) → I (i + 1) u)
    (hrun : forLeave b n s = .ok (.next t)) : I n t := by
  induction n generalizing t with
  | zero =>
    cases hrun
    exact h0
  | succ n ih =>
    obtain ⟨d, hd, hlast⟩ := bind_eq_ok.mp hrun
    cases d with
    | next u =>
      have hI := ih (fun i t u hi => hstep i t u (Nat.lt_succ_of_lt hi)) hd
      exact hstep n u t (Nat.lt_succ_self n) hI hlast
    | leave r => cases hlast

/-- The same for a loop that may also have been left. -/
theorem forLeave_outcome {I : Nat → σ → Prop} {Q : ρ → Prop} (h0 : I 0 s)
    (hnext : ∀ i t u, i < n → I i t → b i t = .ok (.next u) → I (i + 1) u)
    (hleave : ∀ i t r, i < n → I i t → b i t = .ok (.leave r) → Q r) {d : Step σ ρ}
    (hrun : forLeave b n s = .ok d) : (∃ t, d = .next t ∧ I n t) ∨ ∃ r, d = .leave r ∧ Q r := by
  induction n generalizing d with
  | zero =>
    cases hrun
    exact .inl ⟨s, rfl, h0⟩
  | succ n ih =>
    obtain ⟨d', hd', hlast⟩ := bind_eq_ok.mp hrun
    have hfirst := ih (fun i t u hi => hnext i t u (Nat.lt_succ_of_lt hi))
      (fun i t r hi => hleave i t r (Nat.lt_succ_of_lt hi)) hd'
    rcases hfirst with ⟨t, rfl, hI⟩ | ⟨r, rfl, hQ⟩
    · cases d with
      | next u => exact .inl ⟨u, rfl, hnext n t u (Nat.lt_succ_self n) hI hlast⟩
      | leave r => exact .inr ⟨r, rfl, hleave n t r (Nat.lt_succ_self n) hI hlast⟩
    · cases hlast
      exact .inr ⟨r, rfl, hQ⟩

end ForLeave

/-- An open loop, given the number of passes it is granted. -/
def loopFuel (body : σ → Exec (Step σ ρ)) : Nat → σ → Exec ρ
  | 0, _ => .error .fuel
  | n + 1, s => body s >>= fun
      | .next t => loopFuel body n t
      | .leave r => .ok r

section LoopFuel

variable {b : σ → Exec (Step σ ρ)} {s t : σ} {r : ρ}

theorem loopFuel_next (n : Nat) (h : b s = .ok (.next t)) :
    loopFuel b (n + 1) s = loopFuel b n t := by
  rw [loopFuel, bind_of_ok h]

theorem loopFuel_leave (n : Nat) (h : b s = .ok (.leave r)) :
    loopFuel b (n + 1) s = .ok r := by
  rw [loopFuel, bind_of_ok h]

/-- A measure that every pass decreases bounds the passes an open loop needs. -/
theorem loopFuel_variant {I : σ → Prop} {Q : ρ → Prop} (measure : σ → Nat)
    (hstep : ∀ t, I t →
      (∃ t', b t = .ok (.next t') ∧ I t' ∧ measure t' < measure t) ∨
        ∃ r, b t = .ok (.leave r) ∧ Q r) :
    ∀ (n : Nat) (s : σ), I s → measure s < n → ∃ r, loopFuel b n s = .ok r ∧ Q r := by
  intro n
  induction n with
  | zero => intro s _ h; omega
  | succ n ih =>
    intro s hI hn
    rcases hstep s hI with ⟨t, ht, hI', hlt⟩ | ⟨r, hr, hQ⟩
    · rw [loopFuel_next n ht]
      exact ih t hI' (by omega)
    · exact ⟨r, loopFuel_leave n hr, hQ⟩

/-- What an open loop that returns leaves with. -/
theorem loopFuel_returns {I : σ → Prop} {Q : ρ → Prop}
    (hnext : ∀ t u, I t → b t = .ok (.next u) → I u)
    (hleave : ∀ t r, I t → b t = .ok (.leave r) → Q r) {n : Nat} (h0 : I s)
    (hrun : loopFuel b n s = .ok r) : Q r := by
  induction n generalizing s with
  | zero => cases hrun
  | succ n ih =>
    obtain ⟨d, hd, hlast⟩ := bind_eq_ok.mp hrun
    cases d with
    | next u => exact ih (hnext s u h0 hd) hlast
    | leave q =>
      cases hlast
      exact hleave s r h0 hd

/-- A loop that nothing leaves never returns. -/
theorem loopFuel_ne_ok (h : ∀ t r, b t ≠ .ok (.leave r)) (n : Nat) (s : σ) (r : ρ) :
    loopFuel b n s ≠ .ok r := by
  induction n generalizing s with
  | zero => exact fun he => nomatch he
  | succ n ih =>
    intro he
    obtain ⟨d, hd, hrest⟩ := bind_eq_ok.mp he
    cases d with
    | next t => exact ih t hrest
    | leave r' => exact h s r' hd

end LoopFuel

/-! ### Runs that extend one another -/

section Below

variable {α β : Type}

/-- What the first run returns the second returns too. -/
def Below (x y : Exec α) : Prop := ∀ a, x = .ok a → y = .ok a

variable {x y : Exec α}

theorem Below.refl (x : Exec α) : Below x x := fun _ h => h

theorem below_error (e : Fault) (y : Exec α) : Below (.error e) y := fun _ h => nomatch h

theorem Below.bind {f g : α → Exec β} (h : Below x y) (hf : ∀ a, Below (f a) (g a)) :
    Below (x >>= f) (y >>= g) := by
  intro b hb
  obtain ⟨a, ha, hfa⟩ := bind_eq_ok.mp hb
  rw [bind_of_ok (h a ha)]
  exact hf a b hfa

theorem Below.ite {c : Prop} [Decidable c] {x' y' : Exec α} (h : Below x y) (h' : Below x' y') :
    Below (if c then x else x') (if c then y else y') := by
  by_cases hc : c
  · rwa [if_pos hc, if_pos hc]
  · rwa [if_neg hc, if_neg hc]

theorem below_subExact {a b : Nat} (f : Nat → Exec α) (ha : a < 2 ^ 64) :
    Below (subExact a b >>= f) (f (sizeSub a b)) := by
  rw [subExact]
  by_cases hle : b ≤ a
  · rw [if_pos hle, ok_bind, sizeSub_of_le hle ha]
    exact Below.refl _
  · rw [if_neg hle]
    exact below_error _ _

theorem Below.forLeave {b c : Nat → σ → Exec (Step σ ρ)} (h : ∀ i s, Below (b i s) (c i s))
    (n : Nat) (s : σ) : Below (forLeave b n s) (forLeave c n s) := by
  induction n with
  | zero => exact Below.refl _
  | succ n ih =>
    apply Below.bind ih
    intro d
    cases d with
    | next t => exact h n t
    | leave r => exact Below.refl _

theorem Below.loopFuel {b c : σ → Exec (Step σ ρ)} (h : ∀ s, Below (b s) (c s)) (n : Nat)
    (s : σ) : Below (loopFuel b n s) (loopFuel c n s) := by
  induction n generalizing s with
  | zero => exact Below.refl _
  | succ n ih =>
    apply Below.bind (h s)
    intro d
    cases d with
    | next t => exact ih t
    | leave r => exact Below.refl _

/-- More passes return what fewer returned. -/
theorem below_loopFuel (b : σ → Exec (Step σ ρ)) {n m : Nat} (hle : n ≤ m) (s : σ) :
    Below (Checked.loopFuel b n s) (Checked.loopFuel b m s) := by
  induction n generalizing m s with
  | zero => exact below_error _ _
  | succ n ih =>
    cases m with
    | zero => exact absurd hle (Nat.not_succ_le_zero n)
    | succ m =>
      apply Below.bind (Below.refl _)
      intro d
      cases d with
      | next t => exact ih (Nat.le_of_succ_le_succ hle) t
      | leave r => exact Below.refl _

/-- Two amounts of fuel that are both enough give one result. -/
theorem eq_of_fuel {x : Nat → Exec α} (hmono : ∀ n m, n ≤ m → Below (x n) (x m)) {n m : Nat}
    {a b : α} (hn : x n = .ok a) (hm : x m = .ok b) : a = b := by
  rcases Nat.le_total n m with hle | hle
  · exact Except.ok.inj ((hmono n m hle a hn).symm.trans hm)
  · exact Except.ok.inj (hn.symm.trans (hmono m n hle b hm))

end Below

section Runs

variable {ι : Type} {f : σ → ι → Exec σ}

/-- A sequence of calls on one object. -/
def runAll (step : σ → ι → Exec σ) : σ → List ι → Exec σ
  | s, [] => .ok s
  | s, i :: is => step s i >>= fun t => runAll step t is

@[simp] theorem runAll_nil (s : σ) : runAll f s [] = .ok s := rfl

theorem runAll_cons (s : σ) (i : ι) (is : List ι) :
    runAll f s (i :: is) = f s i >>= fun t => runAll f t is := rfl

theorem runAll_append {s t : σ} {is : List ι} (js : List ι) (h : runAll f s is = .ok t) :
    runAll f s (is ++ js) = runAll f t js := by
  induction is generalizing s with
  | nil =>
    obtain rfl := Except.ok.inj h
    rfl
  | cons i is ih =>
    obtain ⟨u, hu, h'⟩ := bind_eq_ok.mp h
    rw [List.cons_append, runAll_cons, bind_of_ok hu, ih h']

/-- A run that returns got through the calls it began with. -/
theorem runAll_prefix {s u : σ} {is js : List ι} (h : runAll f s (is ++ js) = .ok u) :
    ∃ t, runAll f s is = .ok t := by
  induction is generalizing s with
  | nil => exact ⟨s, rfl⟩
  | cons i is ih =>
    obtain ⟨t, ht, h⟩ := bind_eq_ok.mp h
    obtain ⟨v, hv⟩ := ih h
    exact ⟨v, by rw [runAll_cons, bind_of_ok ht, hv]⟩

theorem runAll_concat_eq_ok {s u : σ} {is : List ι} {i : ι} :
    runAll f s (is ++ [i]) = .ok u ↔ ∃ t, runAll f s is = .ok t ∧ f t i = .ok u := by
  induction is generalizing s with
  | nil =>
    rw [List.nil_append, runAll_cons, bind_eq_ok]
    simp
  | cons j is ih =>
    simp only [List.cons_append, runAll_cons, bind_eq_ok, ih]
    constructor
    · intro h
      obtain ⟨v, hv, t, ht, hu⟩ := h
      exact ⟨t, ⟨v, hv, ht⟩, hu⟩
    · intro h
      obtain ⟨t, ⟨v, hv, ht⟩, hu⟩ := h
      exact ⟨v, hv, t, ht, hu⟩

theorem runAll_below {g : σ → ι → Exec σ} (h : ∀ s i, Below (f s i) (g s i)) (s : σ)
    (is : List ι) : Below (runAll f s is) (runAll g s is) := by
  induction is generalizing s with
  | nil => exact Below.refl _
  | cons i is ih => exact Below.bind (h s i) ih

/-- What every call that returns preserves, given the calls made before it, holds after a run. -/
theorem runAll_history {I : List ι → σ → Prop} {s : σ} (h0 : I [] s)
    (hstep : ∀ hist t u i, runAll f s hist = .ok t → I hist t → f t i = .ok u → I (hist ++ [i]) u)
    (is : List ι) {t : σ} (hrun : runAll f s is = .ok t) : I is t := by
  induction is using List.reverseRecOn generalizing t with
  | nil =>
    cases hrun
    exact h0
  | append_singleton hist i ih =>
    obtain ⟨u, hhist, hi⟩ := runAll_concat_eq_ok.mp hrun
    exact hstep hist u t i hhist (ih hhist) hi

/-- Calls that each succeed and keep `I`, which may speak of the calls made so far. -/
theorem runAll_invariant {I : List ι → σ → Prop} {P : ι → Prop}
    (hstep : ∀ hist t i, P i → I hist t → ∃ t', f t i = .ok t' ∧ I (hist ++ [i]) t')
    (is hist : List ι) {s : σ} (hlegal : ∀ i ∈ is, P i) (h0 : I hist s) :
    ∃ t, runAll f s is = .ok t ∧ I (hist ++ is) t := by
  induction is generalizing hist s with
  | nil => exact ⟨s, rfl, by rwa [List.append_nil]⟩
  | cons i is ih =>
    obtain ⟨t, ht, hI⟩ := hstep hist s i (hlegal i List.mem_cons_self) h0
    obtain ⟨u, hu, hI'⟩ := ih (hist ++ [i]) (fun j hj => hlegal j (List.mem_cons_of_mem i hj)) hI
    refine ⟨u, by rw [runAll_cons, bind_of_ok ht, hu], ?_⟩
    rwa [List.append_assoc, List.singleton_append] at hI'

/-- The objects that calls which return lead to. -/
inductive Reached (f : σ → ι → Exec σ) (start : σ) : σ → Prop
  | start : Reached f start start
  | call {s t : σ} (i : ι) : Reached f start s → f s i = .ok t → Reached f start t

theorem Reached.runAll {start s t : σ} (h : Reached f start s) {is : List ι}
    (hrun : Checked.runAll f s is = .ok t) : Reached f start t := by
  induction is generalizing s with
  | nil =>
    cases hrun
    exact h
  | cons i is ih =>
    obtain ⟨u, hu, hrest⟩ := bind_eq_ok.mp hrun
    exact ih (.call i h hu) hrest

theorem Reached.invariant {I : σ → Prop} {start s : σ} (h : Reached f start s) (h0 : I start)
    (hstep : ∀ s t i, I s → f s i = .ok t → I t) : I s := by
  induction h with
  | start => exact h0
  | call i _ hcall ih => exact hstep _ _ i ih hcall

/-! ### Runs that follow a specification -/

section Along

variable {τ : Type} {next : τ → ι → τ} {L P : τ → ι → Prop} {R : σ → τ → Prop} {s : σ} {c : τ}

/-- Every call of a sequence meets `P` at the point the specification has reached by then. -/
def Along (next : τ → ι → τ) (P : τ → ι → Prop) : τ → List ι → Prop
  | _, [] => True
  | c, i :: is => P c i ∧ Along next P (next c i) is

theorem along_of_forall (h : ∀ c i, P c i) (is : List ι) : Along next P c is := by
  induction is generalizing c with
  | nil => trivial
  | cons i is ih => exact ⟨h c i, ih⟩

theorem along_append {is js : List ι} :
    Along next P c (is ++ js) ↔ Along next P c is ∧ Along next P (is.foldl next c) js := by
  induction is generalizing c with
  | nil => exact (and_iff_right trivial).symm
  | cons i is ih => rw [List.cons_append, Along, ih, Along, List.foldl_cons, and_assoc]

theorem along_of_mem {Q : ι → Prop} {is : List ι} (h : ∀ i ∈ is, Q i) :
    Along next (fun _ i => Q i) c is := by
  induction is generalizing c with
  | nil => trivial
  | cons i is ih =>
    rw [List.forall_mem_cons] at h
    exact ⟨h.1, ih h.2⟩

/-- Calls that succeed and follow the specification make a run that does. -/
theorem runAll_along
    (hstep : ∀ s c i, R s c → L c i → P c i → ∃ t, f s i = .ok t ∧ R t (next c i))
    (is : List ι) (h0 : R s c) (hlegal : Along next L c is) (halong : Along next P c is) :
    ∃ t, runAll f s is = .ok t ∧ R t (is.foldl next c) := by
  induction is generalizing s c with
  | nil => exact ⟨s, rfl, h0⟩
  | cons i is ih =>
    obtain ⟨t, ht, hR⟩ := hstep s c i h0 hlegal.1 halong.1
    obtain ⟨u, hu, hR'⟩ := ih hR hlegal.2 halong.2
    exact ⟨u, by rw [runAll_cons, bind_of_ok ht, hu], hR'⟩

/-- Where the calls that do not meet `P` stop, a run that returns met it throughout. -/
theorem along_of_runAll {u : σ}
    (hstep : ∀ s c i, R s c → L c i → P c i → ∃ t, f s i = .ok t ∧ R t (next c i))
    (hfault : ∀ s c i, R s c → L c i → ¬ P c i → ∃ e, f s i = .error e)
    (is : List ι) (h0 : R s c) (hlegal : Along next L c is) (hrun : runAll f s is = .ok u) :
    Along next P c is ∧ R u (is.foldl next c) := by
  induction is generalizing s c with
  | nil =>
    obtain rfl := Except.ok.inj hrun
    exact ⟨trivial, h0⟩
  | cons i is ih =>
    obtain ⟨t, ht, hrest⟩ := bind_eq_ok.mp hrun
    by_cases hP : P c i
    · obtain ⟨t', ht', hR⟩ := hstep s c i h0 hlegal.1 hP
      obtain rfl := Except.ok.inj (ht.symm.trans ht')
      obtain ⟨halong, hR'⟩ := ih hR hlegal.2 hrest
      exact ⟨⟨hP, halong⟩, hR'⟩
    · obtain ⟨e, he⟩ := hfault s c i h0 hlegal.1 hP
      rw [he] at ht
      cases ht

/-- Where every other call stops with one fault, so does a run that did not meet `P`. -/
theorem runAll_error {e : Fault}
    (hstep : ∀ s c i, R s c → L c i → P c i → ∃ t, f s i = .ok t ∧ R t (next c i))
    (hfault : ∀ s c i, R s c → L c i → ¬ P c i → f s i = .error e)
    (is : List ι) (h0 : R s c) (hlegal : Along next L c is) (hnot : ¬ Along next P c is) :
    runAll f s is = .error e := by
  induction is generalizing s c with
  | nil => exact absurd trivial hnot
  | cons i is ih =>
    rw [runAll_cons]
    by_cases hP : P c i
    · obtain ⟨t, ht, hR⟩ := hstep s c i h0 hlegal.1 hP
      rw [bind_of_ok ht]
      exact ih hR hlegal.2 fun halong => hnot ⟨hP, halong⟩
    · rw [hfault s c i h0 hlegal.1 hP, error_bind]

/-- Every call returns, and `Q` holds before the first and after each. -/
def Throughout (f : σ → ι → Exec σ) (Q : σ → Prop) : σ → List ι → Prop
  | s, [] => Q s
  | s, i :: is => Q s ∧ ∃ t, f s i = .ok t ∧ Throughout f Q t is

theorem Throughout.head {Q : σ → Prop} {is : List ι} (h : Throughout f Q s is) : Q s := by
  cases is with
  | nil => exact h
  | cons i is => exact h.1

/-- Where the calls that do not meet `P` break `Q`, it holds throughout the runs that meet `P`. -/
theorem throughout_iff_along {Q : σ → Prop}
    (hstep : ∀ s c i, R s c → L c i → P c i → ∃ t, f s i = .ok t ∧ R t (next c i))
    (hbreak : ∀ s c i, R s c → L c i → ¬ P c i → ∀ t, f s i = .ok t → ¬ Q t)
    (hQ : ∀ s c, R s c → Q s) (is : List ι) (h0 : R s c) (hlegal : Along next L c is) :
    Throughout f Q s is ↔ Along next P c is := by
  induction is generalizing s c with
  | nil => exact ⟨fun _ => trivial, fun _ => hQ s c h0⟩
  | cons i is ih =>
    constructor
    · intro h
      obtain ⟨-, t, ht, hrest⟩ := h
      by_cases hP : P c i
      · obtain ⟨t', ht', hR⟩ := hstep s c i h0 hlegal.1 hP
        cases Except.ok.inj (ht.symm.trans ht')
        exact ⟨hP, (ih hR hlegal.2).mp hrest⟩
      · exact absurd hrest.head (hbreak s c i h0 hlegal.1 hP t ht)
    · intro h
      obtain ⟨t, ht, hR⟩ := hstep s c i h0 hlegal.1 h.1
      exact ⟨hQ s c h0, t, ht, (ih hR hlegal.2).mpr h.2⟩

instance Along.decidable [∀ c i, Decidable (P c i)] :
    (c : τ) → (is : List ι) → Decidable (Along next P c is)
  | _, [] => isTrue trivial
  | c, i :: is => @instDecidableAnd _ _ _ (Along.decidable (next c i) is)

/-- A specification without a state. -/
theorem along_const {P : ι → Prop} (c : τ) (is : List ι) :
    Along (fun c _ => c) (fun _ i => P i) c is ↔ ∀ i ∈ is, P i := by
  induction is with
  | nil => exact ⟨fun _ _ h => (nomatch h), fun _ => trivial⟩
  | cons i is ih => rw [Along, ih, List.forall_mem_cons]

end Along

section Conforms

variable {τ κ : Type} {g : σ → ι → Exec (κ × σ)} {spec : τ → ι → κ × τ} {P : τ → ι → Prop}
  {R : σ → τ → Prop} {s : σ} {c : τ}

/-- Every call of a run returns what the specification returns, and the object represents its
state before the first call and after each. -/
def Conforms (g : σ → ι → Exec (κ × σ)) (spec : τ → ι → κ × τ) (R : σ → τ → Prop) :
    σ → τ → List ι → Prop
  | s, c, [] => R s c
  | s, c, i :: is => R s c ∧ ∃ t, g s i = .ok ((spec c i).1, t) ∧
      Conforms g spec R t (spec c i).2 is

theorem Conforms.head {is : List ι} (h : Conforms g spec R s c is) : R s c := by
  cases is with
  | nil => exact h
  | cons i is => exact h.1

/-- A call that does what the specification says leaves it to the others. -/
theorem conforms_cons {t : σ} {i : ι} (hcall : g s i = .ok ((spec c i).1, t)) (is : List ι) :
    Conforms g spec R s c (i :: is) ↔ R s c ∧ Conforms g spec R t (spec c i).2 is := by
  constructor
  · intro h
    obtain ⟨hR, u, hu, hrest⟩ := h
    rw [hcall] at hu
    cases hu
    exact ⟨hR, hrest⟩
  · intro h
    exact ⟨h.1, t, hcall, h.2⟩

/-- Where the calls that do not meet `P` depart from the specification, the runs that follow it
are those that meet `P`. -/
theorem conforms_iff_along
    (hstep : ∀ s c i, R s c → P c i → ∃ t, g s i = .ok ((spec c i).1, t) ∧ R t (spec c i).2)
    (hbreak : ∀ s c i, R s c → ¬ P c i → ∀ t, g s i = .ok ((spec c i).1, t) → ¬ R t (spec c i).2)
    (is : List ι) (h0 : R s c) :
    Conforms g spec R s c is ↔ Along (fun c i => (spec c i).2) P c is := by
  induction is generalizing s c with
  | nil => exact ⟨fun _ => trivial, fun _ => h0⟩
  | cons i is ih =>
    constructor
    · intro h
      obtain ⟨-, t, ht, hrest⟩ := h
      by_cases hP : P c i
      · exact ⟨hP, (ih hrest.head).mp hrest⟩
      · exact absurd hrest.head (hbreak s c i h0 hP t ht)
    · intro h
      obtain ⟨t, ht, hR⟩ := hstep s c i h0 h.1
      exact ⟨h0, t, ht, (ih hR).mpr h.2⟩

end Conforms

end Runs

/-! ### Runs that no `assert` stops, or nothing else -/

section Asserts

variable {α β : Type}

/-- Whatever else stops the run, no failed `assert` does. -/
def NeverAsserts (x : Exec α) : Prop := x ≠ .error .assertion

/-- If anything stops the run, a failed `assert` does. -/
def OnlyAsserts (x : Exec α) : Prop := ∀ e, x = .error e → e = .assertion

theorem onlyAsserts_of_ok {x : Exec α} {a : α} (h : x = .ok a) : OnlyAsserts x := by
  intro e he
  rw [h] at he
  cases he

theorem onlyAsserts_error {e : Fault} : OnlyAsserts (.error e : Exec α) ↔ e = .assertion := by
  constructor
  · intro h
    exact h e rfl
  · rintro rfl e he
    cases he
    rfl

theorem onlyAsserts_of_assertion {x : Exec α} (h : x = .error .assertion) : OnlyAsserts x :=
  h ▸ onlyAsserts_error.mpr rfl

@[simp] theorem neverAsserts_ok (a : α) : NeverAsserts (.ok a : Exec α) := fun h => nomatch h

@[simp] theorem neverAsserts_error (e : Fault) :
    NeverAsserts (.error e : Exec α) ↔ e ≠ .assertion := by simp [NeverAsserts]

@[simp] theorem neverAsserts_bind (x : Exec α) (f : α → Exec β) :
    NeverAsserts (x >>= f) ↔ NeverAsserts x ∧ ∀ a, x = .ok a → NeverAsserts (f a) := by
  cases x with
  | error e => simp
  | ok a => simp

@[simp] theorem neverAsserts_ite (c : Prop) [Decidable c] (x y : Exec α) :
    NeverAsserts (if c then x else y) ↔ (c → NeverAsserts x) ∧ (¬ c → NeverAsserts y) := by
  by_cases h : c
  · simp [h]
  · simp [h]

@[simp] theorem neverAsserts_forUp {b : Nat → σ → Exec σ}
    (h : ∀ i s, NeverAsserts (b i s)) (n : Nat) (s : σ) : NeverAsserts (forUp b n s) := by
  induction n with
  | zero => exact neverAsserts_ok s
  | succ n ih => exact (neverAsserts_bind _ _).mpr ⟨ih, fun t _ => h n t⟩

@[simp] theorem neverAsserts_forLeave {b : Nat → σ → Exec (Step σ ρ)}
    (h : ∀ i s, NeverAsserts (b i s)) (n : Nat) (s : σ) : NeverAsserts (forLeave b n s) := by
  induction n with
  | zero => exact neverAsserts_ok _
  | succ n ih =>
    refine (neverAsserts_bind _ _).mpr ⟨ih, fun d _ => ?_⟩
    cases d with
    | next t => exact h n t
    | leave r => exact neverAsserts_ok _

end Asserts

end Loops

end RtpSdr.Lib.Checked
