import Mathlib.Data.List.Nodup
import Mathlib.Data.List.Perm.Subperm

/-!
# Handles and who holds them

The handles a system has given out, with their holders and what is attached to each. The ledger
also counts the acts of those who give back or detach what they do not hold, so that a client is
judged by it without being asked.
-/
namespace RtpSdr.Lib.Handles

structure Ledger (ω μ : Type) where
  held : List (Nat × ω)
  attached : List (Nat × μ)
  strays : Nat
deriving DecidableEq, Repr

/-- The lowest number that is not in use. -/
def lowestFree (used : List Nat) : Nat :=
  ((List.range (used.length + 1)).find? (fun h => decide (h ∉ used))).getD 0

theorem lowestFree_notMem (used : List Nat) : lowestFree used ∉ used := by
  rw [lowestFree]
  cases hfind : (List.range (used.length + 1)).find? (fun h => decide (h ∉ used)) with
  | some h =>
    have hfree := List.find?_some hfind
    exact of_decide_eq_true hfree
  | none =>
    have hall : List.range (used.length + 1) ⊆ used := by
      intro h hin
      by_contra hnot
      exact List.find?_eq_none.mp hfind h hin (decide_eq_true hnot)
    have hlength := (List.subperm_of_subset List.nodup_range hall).length_le
    rw [List.length_range] at hlength
    exact absurd hlength (Nat.not_succ_le_self _)

section Ledger

variable {ω μ : Type}

def Ledger.handles (l : Ledger ω μ) : List Nat := l.held.map Prod.fst

def Ledger.acquire (l : Ledger ω μ) (h : Nat) (o : ω) : Ledger ω μ :=
  { l with held := (h, o) :: l.held }

def Ledger.attach (l : Ledger ω μ) (h : Nat) (m : μ) : Ledger ω μ :=
  { l with attached := (h, m) :: l.attached }

/-- A handle that is given back is free, whoever held it, and loses what was attached to it. -/
def Ledger.release [DecidableEq ω] (l : Ledger ω μ) (h : Nat) (o : ω) : Ledger ω μ where
  held := l.held.filter (·.1 ≠ h)
  attached := l.attached.filter (·.1 ≠ h)
  strays := if (h, o) ∈ l.held then l.strays else l.strays + 1

def Ledger.detach [DecidableEq μ] (l : Ledger ω μ) (h : Nat) (m : μ) : Ledger ω μ where
  held := l.held
  attached := l.attached.erase (h, m)
  strays := if (h, m) ∈ l.attached then l.strays else l.strays + 1

end Ledger

variable {ω μ : Type} {l l' l'' : Ledger ω μ} {h k : Nat} {o p : ω} {m : μ}

theorem mem_handles (hin : (h, o) ∈ l.held) : h ∈ l.handles := List.mem_map.mpr ⟨_, hin, rfl⟩

/-- No handle is held twice. -/
def Single (l : Ledger ω μ) : Prop := l.handles.Nodup

theorem Single.holder_eq (hl : Single l) (ho : (h, o) ∈ l.held) (hp : (h, p) ∈ l.held) :
    o = p :=
  congrArg Prod.snd (List.inj_on_of_nodup_map hl ho hp rfl)

theorem Single.acquire (hl : Single l) (hfree : h ∉ l.handles) : Single (l.acquire h o) :=
  List.nodup_cons.mpr ⟨hfree, hl⟩

theorem Single.of_held (hl : Single l) (hheld : l'.held = l.held) : Single l' := by
  rw [Single, Ledger.handles, hheld]
  exact hl

section Release

variable [DecidableEq ω]

theorem Single.release (hl : Single l) : Single (l.release h o) :=
  List.Nodup.sublist (List.filter_sublist.map Prod.fst) hl

@[simp] theorem mem_held_release :
    (k, p) ∈ (l.release h o).held ↔ (k, p) ∈ l.held ∧ k ≠ h := by
  rw [Ledger.release, List.mem_filter, decide_eq_true_iff]

@[simp] theorem mem_attached_release :
    (k, m) ∈ (l.release h o).attached ↔ (k, m) ∈ l.attached ∧ k ≠ h := by
  rw [Ledger.release, List.mem_filter, decide_eq_true_iff]

theorem strays_release (hin : (h, o) ∈ l.held) : (l.release h o).strays = l.strays := if_pos hin

theorem strays_release_of_not (hnot : (h, o) ∉ l.held) :
    (l.release h o).strays = l.strays + 1 := if_neg hnot

end Release

theorem strays_detach [DecidableEq μ] (hin : (h, m) ∈ l.attached) :
    (l.detach h m).strays = l.strays := if_pos hin

/-! ### What one holder leaves to the others -/

/-- The others hold what they held, with what was attached to it, and nothing was given back or
detached that was not held. -/
structure Frame (o : ω) (l l' : Ledger ω μ) : Prop where
  strays : l'.strays = l.strays
  held : ∀ h p, p ≠ o → ((h, p) ∈ l'.held ↔ (h, p) ∈ l.held)
  attached : ∀ h p m, p ≠ o → (h, p) ∈ l.held → (h, m) ∈ l.attached → (h, m) ∈ l'.attached

theorem Frame.refl (o : ω) (l : Ledger ω μ) : Frame o l l :=
  ⟨rfl, fun _ _ _ => Iff.rfl, fun _ _ _ _ _ hin => hin⟩

theorem Frame.trans (hfirst : Frame o l l') (hsecond : Frame o l' l'') : Frame o l l'' where
  strays := hsecond.strays.trans hfirst.strays
  held := fun h p hp => (hsecond.held h p hp).trans (hfirst.held h p hp)
  attached := fun h p m hp hheld hin =>
    hsecond.attached h p m hp ((hfirst.held h p hp).mpr hheld) (hfirst.attached h p m hp hheld hin)

theorem frame_acquire (h : Nat) (o : ω) (l : Ledger ω μ) : Frame o l (l.acquire h o) where
  strays := rfl
  held := by
    intro k p hp
    rw [Ledger.acquire, List.mem_cons, Prod.mk.injEq]
    exact ⟨fun hin => hin.resolve_left fun heq => hp heq.2, .inr⟩
  attached := fun _ _ _ _ _ hin => hin

theorem frame_attach (h : Nat) (m : μ) (o : ω) (l : Ledger ω μ) : Frame o l (l.attach h m) where
  strays := rfl
  held := fun _ _ _ => Iff.rfl
  attached := fun _ _ _ _ _ hin => List.mem_cons_of_mem _ hin

section Release

variable [DecidableEq ω]

theorem frame_release (hl : Single l) (hin : (h, o) ∈ l.held) : Frame o l (l.release h o) where
  strays := strays_release hin
  held := by
    intro k p hp
    rw [mem_held_release]
    refine ⟨And.left, fun hheld => ⟨hheld, ?_⟩⟩
    rintro rfl
    exact hp (hl.holder_eq hheld hin)
  attached := by
    intro k p n hp hheld hatt
    refine mem_attached_release.mpr ⟨hatt, ?_⟩
    rintro rfl
    exact hp (hl.holder_eq hheld hin)

/-- What was given out of the free handles and is given back leaves the holders as they were. -/
theorem held_release (hfree : h ∉ l.handles) (hheld : l'.held = (h, o) :: l.held) :
    (l'.release h o).held = l.held := by
  rw [Ledger.release]
  dsimp only
  rw [hheld, List.filter_cons_of_neg (by simp), List.filter_eq_self]
  intro x hx
  rw [decide_eq_true_iff]
  intro heq
  exact hfree (heq ▸ List.mem_map_of_mem hx)

theorem frame_given_back (hl : Single l) (hfree : h ∉ l.handles)
    (hheld : l'.held = (h, o) :: l.held) (hframe : Frame o l l') :
    Frame o l (l'.release h o) := by
  have hsingle : Single l' := (hl.acquire hfree).of_held hheld
  exact hframe.trans (frame_release hsingle (hheld ▸ List.mem_cons_self))

end Release

theorem frame_detach [DecidableEq μ] (hl : Single l) (hin : (h, o) ∈ l.held)
    (hm : (h, m) ∈ l.attached) : Frame o l (l.detach h m) where
  strays := strays_detach hm
  held := fun _ _ _ => Iff.rfl
  attached := by
    intro k p n hp hheld hatt
    have hne : (k, n) ≠ (h, m) := by
      rintro heq
      cases heq
      exact hp (hl.holder_eq hheld hin)
    exact (List.mem_erase_of_ne hne).mpr hatt

end RtpSdr.Lib.Handles
