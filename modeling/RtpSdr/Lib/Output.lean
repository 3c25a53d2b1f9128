import RtpSdr.Lib.Memory

/-!
# Output that depends on its input only

A function that writes into a buffer of its caller returns how much of the buffer the
caller may read. What is read must not depend on what the buffer held before: with two
buffers of one length, two calls show the same. A function that overwrites a front part
of the buffer, and leaves the rest, has this property exactly if it returns no more than
the length of the front.
-/
namespace RtpSdr.Lib.Output

open RtpSdr.Lib.Checked

variable {α : Type}

/-- Two calls with buffers of one length, which is enough, return the same number `n`, and
the same first `n` elements. `run xs (n, ys)` says that a call with the buffer `xs` returns `n`
and leaves `ys`. -/
def Independent (run : List α → Int × List α → Prop) (enough : Nat → Prop) : Prop :=
  ∀ xs ys : List α, xs.length = ys.length → enough xs.length →
    ∃ n xs' ys', run xs (n, xs') ∧ run ys (n, ys') ∧ xs'.take n.toNat = ys'.take n.toNat

/-- The calls of a function. -/
def runOf (f : List α → Exec (Int × List α)) (xs : List α) (r : Int × List α) : Prop :=
  f xs = .ok r

/-- A buffer of `n` elements has room for an output of `size`, and an address for each. -/
def Enough (size : Exec Nat) (n : Nat) : Prop := (∀ m, size = .ok m → m ≤ n) ∧ n < 2 ^ 64

theorem enough_ok (size : Nat) : Enough (.ok size) = fun n => size ≤ n ∧ n < 2 ^ 64 := by
  funext n
  rw [Enough, eq_iff_iff, and_congr_left_iff]
  intro _
  constructor
  · exact fun h => h size rfl
  · intro h m hm
    cases hm
    exact h

/-- Into any buffer with room for them a call writes the elements of `front`, and no others, and
returns their number. -/
def Writes (run : List α → Int × List α → Prop) (front : List α) : Prop :=
  ∀ xs : List α, front.length ≤ xs.length → xs.length < 2 ^ 64 →
    run xs (front.length, front ++ xs.drop front.length)

variable {run : List α → Int × List α → Prop} {enough : Nat → Prop} {front : List α} {n : Int}

/-- The front that a call leaves is always the same, and nothing behind it is shown. -/
theorem independent_of_take
    (hrun : ∀ xs : List α, enough xs.length → ∃ ys, run xs (n, ys) ∧ ys.take front.length = front)
    (hle : n.toNat ≤ front.length) : Independent run enough := by
  intro xs ys hlen henough
  obtain ⟨xs', hx, hfront⟩ := hrun xs henough
  obtain ⟨ys', hy, hfront'⟩ := hrun ys (hlen ▸ henough)
  have htake (zs : List α) : (zs.take front.length).take n.toNat = zs.take n.toNat := by
    rw [List.take_take, Nat.min_eq_left hle]
  refine ⟨n, xs', ys', hx, hy, ?_⟩
  rw [← htake xs', ← htake ys', hfront, hfront']

theorem independent_of_front
    (hrun : ∀ xs : List α, enough xs.length → run xs (n, front ++ xs.drop front.length))
    (hle : n.toNat ≤ front.length) : Independent run enough :=
  independent_of_take (fun xs henough => ⟨_, hrun xs henough, List.take_left⟩) hle

/-- A function writes one front. -/
theorem Writes.unique {front' : List α}
    (hdet : ∀ (xs : List α) r r', run xs r → run xs r' → r = r') (h : Writes run front)
    (h' : Writes run front') {x : α} (hlt : front.length < 2 ^ 64) (hlt' : front'.length < 2 ^ 64) :
    front = front' := by
  let xs := List.replicate (max front.length front'.length) x
  have hlen : xs.length = max front.length front'.length := List.length_replicate
  have hrun := h xs (hlen ▸ Nat.le_max_left _ _) (hlen ▸ Nat.max_lt.mpr ⟨hlt, hlt'⟩)
  have hrun' := h' xs (hlen ▸ Nat.le_max_right _ _) (hlen ▸ Nat.max_lt.mpr ⟨hlt, hlt'⟩)
  obtain ⟨hnum, hbuf⟩ := Prod.mk.inj (hdet xs _ _ hrun hrun')
  exact (List.append_inj hbuf (Int.natCast_inj.mp hnum)).1

/-- Where no buffer is enough there is nothing to show. -/
theorem independent_of_none (h : ∀ n, ¬ enough n) : Independent run enough :=
  fun xs _ _ henough => absurd henough (h xs.length)

theorem independent_of_large {size : Nat} (h : 2 ^ 64 ≤ size) :
    Independent run (Enough (.ok size)) := by
  refine independent_of_none fun n henough => ?_
  have hroom := henough.1 size rfl
  have hlt := henough.2
  omega

/-- From a buffer with just the room for it a call returns. -/
theorem exists_run_of_independent {size : Nat} (h : Independent run (Enough (.ok size)))
    (hlt : size < 2 ^ 64) (a : α) :
    ∃ (xs : List α) (r : Int × List α), xs.length = size ∧ run xs r := by
  have hlen : (List.replicate size a).length = size := List.length_replicate
  rw [enough_ok] at h
  obtain ⟨n, xs', _, hrun, -⟩ := h (List.replicate size a) _ rfl (by omega)
  exact ⟨_, _, hlen, hrun⟩

/-- Two buffers that differ everywhere show what was not overwritten. -/
theorem front_le_of_independent (h : Independent run enough)
    (hrun : ∀ (xs : List α) r, enough xs.length → run xs r →
      r = (n, front ++ xs.drop front.length))
    {a b : α} (hne : a ≠ b) {m : Nat} (hm : enough m) (hroom : n.toNat ≤ m) :
    n.toNat ≤ front.length := by
  have hlen (c : α) : (List.replicate m c).length = m := List.length_replicate
  obtain ⟨n', xs', ys', hxs, hys, htake⟩ := h (List.replicate m a) (List.replicate m b)
    (by rw [hlen, hlen]) (by rwa [hlen])
  obtain ⟨rfl, rfl⟩ := Prod.mk.inj (hrun _ _ (by rwa [hlen]) hxs)
  obtain ⟨-, rfl⟩ := Prod.mk.inj (hrun _ _ (by rwa [hlen]) hys)
  by_contra hlt
  have hat (c : α) :
      ((front ++ (List.replicate m c).drop front.length).take n'.toNat)[front.length]?
        = some c := by
    rw [List.getElem?_take_of_lt (by omega), List.getElem?_append_right (Nat.le_refl _),
      List.getElem?_drop, List.getElem?_replicate, if_pos (by omega)]
  have hsame := congrArg (·[front.length]?) htake
  rw [hat, hat] at hsame
  exact hne (Option.some.inj hsame)

variable {f g : List α → Exec (Int × List α)}

/-- Calls that do not return show nothing. -/
theorem returns_of_independent (h : Independent (runOf f) enough) {xs : List α}
    (henough : enough xs.length) : ∃ r, f xs = .ok r := by
  obtain ⟨n, xs', _, hrun, -⟩ := h xs xs rfl henough
  exact ⟨(n, xs'), hrun⟩

theorem independent_congr (h : ∀ xs : List α, enough xs.length → f xs = g xs) :
    Independent (runOf f) enough ↔ Independent (runOf g) enough := by
  constructor
  · intro hf xs ys hlen henough
    obtain ⟨n, xs', ys', hx, hy, htake⟩ := hf xs ys hlen henough
    exact ⟨n, xs', ys', (h xs henough).symm.trans hx, (h ys (hlen ▸ henough)).symm.trans hy, htake⟩
  · intro hg xs ys hlen henough
    obtain ⟨n, xs', ys', hx, hy, htake⟩ := hg xs ys hlen henough
    exact ⟨n, xs', ys', (h xs henough).trans hx, (h ys (hlen ▸ henough)).trans hy, htake⟩

theorem independent_iff
    (hrun : ∀ xs : List α, enough xs.length → f xs = .ok (n, front ++ xs.drop front.length))
    {a b : α} (hne : a ≠ b) {m : Nat} (hm : enough m) (hroom : n.toNat ≤ m) :
    Independent (runOf f) enough ↔ n.toNat ≤ front.length := by
  constructor
  · intro h
    refine front_le_of_independent h (fun xs r henough hr => ?_) hne hm hroom
    exact (Except.ok.inj ((hrun xs henough).symm.trans hr)).symm
  · exact independent_of_front hrun

end RtpSdr.Lib.Output
