import Mathlib.Logic.Function.Basic
import RtpSdr.Lib.Checked
import RtpSdr.Lib.Handles

/-!
# Pointers to blocks that are allocated and freed

A program keeps blocks of memory behind pointers, each known by a key. What it does with them is a
sequence of commands: it allocates, moves and frees the block of a key, or clears the pointer. The
heap is a ledger of the blocks with the keys they were allocated for. It is sound if nothing was
freed that was not held and every block can still be reached through its pointer; what was lost
once stays lost. Whether a sequence of commands keeps it sound can be told from the state of each
pointer alone.
-/
namespace RtpSdr.Lib.Ownership

open RtpSdr.Lib.Checked
open RtpSdr.Lib.Handles

/-- Where each new block lies: anywhere but in use, and never at the null pointer. -/
structure Allocator where
  place : Nat → List Nat → Nat
  unused : ∀ turn used, place turn used ∉ used
  ne_zero : ∀ turn used, place turn used ≠ 0

/-- The blocks with their keys, those of the rest of the program without, the pointers, and how
many blocks were allocated so far. -/
structure Heap (κ : Type) where
  ledger : Ledger (Option κ) Empty
  ptr : κ → Nat
  turn : Nat

inductive Command (κ : Type) where
  | malloc (k : κ)
  | realloc (k : κ)
  | free (k : κ)
  | null (k : κ)
  /-- The rest of the program allocates, and frees what it has allocated. -/
  | take
  | give (a : Nat)

/-- What becomes of a pointer: it is null, it points to its block, or its block was freed. -/
inductive Status where
  | null
  | held
  | dangling
deriving DecidableEq, Repr

section Commands

variable {κ : Type} [DecidableEq κ] (alloc : Allocator)

/-- The place of the next block. -/
def Heap.fresh (s : Heap κ) : Nat := alloc.place s.turn s.ledger.handles

def Heap.malloc (s : Heap κ) (k : κ) : Heap κ where
  ledger := s.ledger.acquire (s.fresh alloc) (some k)
  ptr := Function.update s.ptr k (s.fresh alloc)
  turn := s.turn + 1

/-- The null pointer may be freed. -/
def Heap.free (s : Heap κ) (k : κ) : Heap κ :=
  if s.ptr k = 0 then s else { s with ledger := s.ledger.release (s.ptr k) (some k) }

def Heap.null (s : Heap κ) (k : κ) : Heap κ := { s with ptr := Function.update s.ptr k 0 }

def Heap.take (s : Heap κ) : Heap κ :=
  { s with ledger := s.ledger.acquire (s.fresh alloc) none, turn := s.turn + 1 }

def exec (s : Heap κ) : Command κ → Heap κ
  | .malloc k => s.malloc alloc k
  | .realloc k => (s.free k).malloc alloc k
  | .free k => s.free k
  | .null k => s.null k
  | .take => s.take alloc
  | .give a => if (a, none) ∈ s.ledger.held then { s with ledger := s.ledger.release a none } else s

/-- The pointers after a command. -/
def after (st : κ → Status) : Command κ → κ → Status
  | .malloc k => Function.update st k .held
  | .realloc k => Function.update st k .held
  | .free k => if st k = .held then Function.update st k .dangling else st
  | .null k => Function.update st k .null
  | .take => st
  | .give _ => st

/-- The key whose pointer or block a command changes. -/
def Command.key : Command κ → Option κ
  | .malloc k => some k
  | .realloc k => some k
  | .free k => some k
  | .null k => some k
  | .take => none
  | .give _ => none

end Commands

variable {κ : Type} {s : Heap κ} {k j : κ} {st : κ → Status} {p : Status}

/-- A pointer is overwritten unless it is the way to its block, and freed unless its block was. -/
def Fine (st : κ → Status) : Command κ → Prop
  | .malloc k => st k ≠ .held
  | .realloc k => st k ≠ .dangling
  | .free k => st k ≠ .dangling
  | .null k => st k ≠ .held
  | .take => True
  | .give _ => True

/-- Nothing was freed that was not held, and the pointers lead to all blocks. -/
structure Sound (s : Heap κ) : Prop where
  strays : s.ledger.strays = 0
  reached : ∀ a k, (a, some k) ∈ s.ledger.held → a = s.ptr k

/-- The key has the blocks that the state of its pointer says. -/
def Stands (s : Heap κ) (k : κ) : Status → Prop
  | .null => s.ptr k = 0 ∧ ∀ a, (a, some k) ∉ s.ledger.held
  | .held => s.ptr k ≠ 0 ∧ ∀ a, (a, some k) ∈ s.ledger.held ↔ a = s.ptr k
  | .dangling => s.ptr k ≠ 0 ∧ ∀ a, (a, some k) ∉ s.ledger.held

/-- No block is held twice, and none lies at the null pointer. -/
structure Proper (s : Heap κ) : Prop where
  single : Single s.ledger
  nonnull : 0 ∉ s.ledger.handles

structure Tracks (s : Heap κ) (st : κ → Status) : Prop where
  proper : Proper s
  strays : s.ledger.strays = 0
  stands : ∀ k, Stands s k (st k)

theorem Stands.notMem (h : Stands s k p) (hp : p ≠ .held) (a : Nat) :
    (a, some k) ∉ s.ledger.held := by
  cases p with
  | null => exact h.2 a
  | held => exact absurd rfl hp
  | dangling => exact h.2 a

theorem Stands.ptr_eq_zero (h : Stands s k p) : s.ptr k = 0 ↔ p = .null := by
  cases p with
  | null => exact iff_of_true h.1 rfl
  | held => exact iff_of_false h.1 Status.noConfusion
  | dangling => exact iff_of_false h.1 Status.noConfusion

theorem Tracks.sound (h : Tracks s st) : Sound s where
  strays := h.strays
  reached := by
    intro a k hin
    have hk := h.stands k
    cases hst : st k with
    | held =>
      rw [hst] at hk
      exact (hk.2 a).mp hin
    | null => exact absurd hin (hk.notMem (hst ▸ Status.noConfusion) a)
    | dangling => exact absurd hin (hk.notMem (hst ▸ Status.noConfusion) a)

/-- Before the program has allocated anything. -/
theorem tracks_null {others : List Nat} (hothers : others.Nodup) (hzero : 0 ∉ others) :
    Tracks (κ := κ) ⟨⟨others.map fun a => (a, none), [], 0⟩, fun _ => 0, 0⟩ fun _ => .null := by
  have hhandles : (others.map fun a => (a, (none : Option κ))).map Prod.fst = others := by
    rw [List.map_map]
    exact List.map_id others
  refine ⟨⟨?_, ?_⟩, rfl, fun k => ⟨rfl, fun a hin => ?_⟩⟩
  · rw [Single, Ledger.handles, hhandles]
    exact hothers
  · rw [Ledger.handles, hhandles]
    exact hzero
  · obtain ⟨b, -, heq⟩ := List.mem_map.mp hin
    cases heq

/-- What happens to one key leaves the others as they are. -/
theorem Stands.frame {s' : Heap κ} {o : Option κ} (h : Stands s j p) (hj : some j ≠ o)
    (hframe : Frame o s.ledger s'.ledger) (hptr : s'.ptr j = s.ptr j) : Stands s' j p := by
  have hheld := fun a => hframe.held a (some j) hj
  cases p with
  | null => exact ⟨hptr.trans h.1, fun a hin => h.2 a ((hheld a).mp hin)⟩
  | held =>
    refine ⟨hptr ▸ h.1, fun a => ?_⟩
    rw [hptr]
    exact (hheld a).trans (h.2 a)
  | dangling => exact ⟨hptr ▸ h.1, fun a hin => h.2 a ((hheld a).mp hin)⟩

variable {alloc : Allocator}

theorem fresh_notMem (alloc : Allocator) (s : Heap κ) : s.fresh alloc ∉ s.ledger.handles :=
  alloc.unused _ _

theorem Proper.acquire (h : Proper s) (o : Option κ) :
    Proper { s with ledger := s.ledger.acquire (s.fresh alloc) o, turn := s.turn + 1 } where
  single := h.single.acquire (fresh_notMem alloc s)
  nonnull := by
    intro hin
    rcases List.mem_cons.mp hin with hzero | hin
    · exact alloc.ne_zero _ _ hzero.symm
    · exact h.nonnull hin

variable [DecidableEq κ]

/-- A change to one key. -/
theorem Tracks.update {s' : Heap κ} (h : Tracks s st) (hproper : Proper s')
    (hframe : Frame (some k) s.ledger s'.ledger) (hptr : ∀ j, j ≠ k → s'.ptr j = s.ptr j)
    (hstands : Stands s' k p) : Tracks s' (Function.update st k p) where
  proper := hproper
  strays := hframe.strays.trans h.strays
  stands := by
    intro j
    by_cases hj : j = k
    · rw [hj, Function.update_self]
      exact hstands
    · rw [Function.update_of_ne hj]
      exact (h.stands j).frame (fun heq => hj (Option.some.inj heq)) hframe (hptr j hj)

/-! ## What each command does -/

theorem ptr_malloc_self (alloc : Allocator) (s : Heap κ) (k : κ) :
    (s.malloc alloc k).ptr k = s.fresh alloc := Function.update_self _ _ _

theorem ptr_malloc_of_ne (hj : j ≠ k) : (s.malloc alloc k).ptr j = s.ptr j :=
  Function.update_of_ne hj _ _

theorem mem_malloc {a : Nat} {o : Option κ} : (a, o) ∈ (s.malloc alloc k).ledger.held ↔
    a = s.fresh alloc ∧ o = some k ∨ (a, o) ∈ s.ledger.held := by
  rw [Heap.malloc, Ledger.acquire, List.mem_cons, Prod.mk.injEq]

theorem ptr_null_self (s : Heap κ) (k : κ) : (s.null k).ptr k = 0 := Function.update_self _ _ _

theorem ptr_null_of_ne (hj : j ≠ k) : (s.null k).ptr j = s.ptr j := Function.update_of_ne hj _ _

theorem Proper.release (h : Proper s) (a : Nat) (o : Option κ) :
    Proper { s with ledger := s.ledger.release a o } where
  single := h.single.release
  nonnull := fun hin => h.nonnull ((List.filter_sublist.map Prod.fst).subset hin)

theorem Proper.malloc (h : Proper s) : Proper (s.malloc alloc k) :=
  ⟨(h.acquire (some k)).single, (h.acquire (some k)).nonnull⟩

theorem Proper.free (h : Proper s) : Proper (s.free k) := by
  rw [Heap.free]
  split
  · exact h
  · exact h.release _ _

theorem exec_proper (h : Proper s) (c : Command κ) : Proper (exec alloc s c) := by
  cases c with
  | malloc k => exact h.malloc
  | realloc k => exact h.free.malloc
  | free k => exact h.free
  | null k => exact ⟨h.single, h.nonnull⟩
  | take => exact h.acquire none
  | give a =>
    rw [exec]
    split
    · exact h.release _ _
    · exact h

theorem malloc_tracks (h : Tracks s st) (hk : st k ≠ .held) :
    Tracks (s.malloc alloc k) (Function.update st k .held) := by
  refine h.update h.proper.malloc (frame_acquire _ _ _) (fun j => ptr_malloc_of_ne)
    ⟨?_, fun a => ?_⟩
  · rw [ptr_malloc_self]
    exact alloc.ne_zero _ _
  · rw [ptr_malloc_self, mem_malloc, and_iff_left rfl]
    exact or_iff_left ((h.stands k).notMem hk a)

theorem free_tracks (h : Tracks s st) (hk : st k ≠ .dangling) :
    Tracks (s.free k) (if st k = .held then Function.update st k .dangling else st) := by
  have hstands := h.stands k
  by_cases hheld : st k = .held
  · rw [hheld] at hstands
    obtain ⟨hne, hin⟩ := hstands
    rw [if_pos hheld, Heap.free, if_neg hne]
    refine h.update (h.proper.release _ _) (frame_release h.proper.single ((hin _).mpr rfl))
      (fun _ _ => rfl) ⟨hne, fun a hmem => ?_⟩
    rw [mem_held_release, hin] at hmem
    exact hmem.2 hmem.1
  · have hnull : st k = .null := by
      cases hst : st k with
      | null => rfl
      | held => exact absurd hst hheld
      | dangling => exact absurd hst hk
    rw [if_neg hheld, Heap.free, if_pos (hstands.ptr_eq_zero.mpr hnull)]
    exact h

theorem exec_tracks (h : Tracks s st) {c : Command κ} (hfine : Fine st c) :
    Tracks (exec alloc s c) (after st c) := by
  cases c with
  | malloc k => exact malloc_tracks h hfine
  | realloc k =>
    have hfree := free_tracks h hfine
    have hmalloc : Tracks ((s.free k).malloc alloc k) _ := malloc_tracks (k := k) hfree (by
      split
      · rw [Function.update_self]
        exact Status.noConfusion
      · assumption)
    by_cases hheld : st k = .held
    · rw [if_pos hheld, Function.update_idem] at hmalloc
      exact hmalloc
    · rw [if_neg hheld] at hmalloc
      exact hmalloc
  | free k => exact free_tracks h hfine
  | null k =>
    exact h.update ⟨h.proper.single, h.proper.nonnull⟩ (Frame.refl _ _) (fun j => ptr_null_of_ne)
      ⟨ptr_null_self s k, (h.stands k).notMem hfine⟩
  | take =>
    refine ⟨h.proper.acquire none, h.strays, fun k => ?_⟩
    exact (h.stands k).frame (Option.some_ne_none k) (frame_acquire _ _ _) rfl
  | give a =>
    rw [exec]
    by_cases hin : (a, none) ∈ s.ledger.held
    · rw [if_pos hin]
      have hframe := frame_release h.proper.single hin
      refine ⟨h.proper.release _ _, hframe.strays.trans h.strays, fun k => ?_⟩
      exact (h.stands k).frame (Option.some_ne_none k) hframe rfl
    · rw [if_neg hin]
      exact h

/-! ## What is lost stays lost -/

theorem unsound_malloc (h : ¬ Sound s) : ¬ Sound (s.malloc alloc k) := by
  intro hsound
  refine h ⟨hsound.strays, fun a j hin => ?_⟩
  have hreached := hsound.reached a j (mem_malloc.mpr (.inr hin))
  by_cases hj : j = k
  · rw [hj, ptr_malloc_self] at hreached
    exact absurd (mem_handles hin) (hreached ▸ fresh_notMem alloc s)
  · rwa [ptr_malloc_of_ne hj] at hreached

/-- Giving back a block for a key it was not allocated for is a stray act. -/
theorem unsound_release (hs : Proper s) (h : ¬ Sound s) {a : Nat} {o : Option κ}
    (ho : ∀ k, o = some k → a = s.ptr k) : ¬ Sound { s with ledger := s.ledger.release a o } := by
  intro hsound
  have hstrays := hsound.strays
  by_cases hin : (a, o) ∈ s.ledger.held
  · refine h ⟨(strays_release hin).symm.trans hstrays, fun b j hheld => ?_⟩
    by_cases hb : b = a
    · obtain rfl := hs.single.holder_eq (hb ▸ hheld) hin
      rw [hb]
      exact ho j rfl
    · exact hsound.reached b j (mem_held_release.mpr ⟨hheld, hb⟩)
  · dsimp only at hstrays
    rw [strays_release_of_not hin] at hstrays
    exact absurd hstrays (Nat.succ_ne_zero _)

theorem unsound_free (hs : Proper s) (h : ¬ Sound s) : ¬ Sound (s.free k) := by
  rw [Heap.free]
  split
  · exact h
  · exact unsound_release hs h fun j hj => congrArg s.ptr (Option.some.inj hj)

theorem exec_unsound (hs : Proper s) (h : ¬ Sound s) (c : Command κ) :
    ¬ Sound (exec alloc s c) := by
  cases c with
  | malloc k => exact unsound_malloc h
  | realloc k => exact unsound_malloc (unsound_free hs h)
  | free k => exact unsound_free hs h
  | null k =>
    rw [exec]
    refine fun hsound => h ⟨hsound.strays, fun a j hin => ?_⟩
    have hreached := hsound.reached a j hin
    by_cases hj : j = k
    · rw [hj, ptr_null_self] at hreached
      exact absurd (mem_handles hin) (hreached ▸ hs.nonnull)
    · rwa [ptr_null_of_ne hj] at hreached
  | take =>
    exact fun hsound => h ⟨hsound.strays, fun a j hin =>
      hsound.reached a j (List.mem_cons_of_mem _ hin)⟩
  | give a =>
    rw [exec]
    split
    · exact unsound_release hs h fun k hk => absurd hk.symm (Option.some_ne_none k)
    · exact h

/-- A command that is not fine loses a block, or frees one that is not held. -/
theorem exec_not_fine (h : Tracks s st) {c : Command κ} (hnot : ¬ Fine st c) :
    ¬ Sound (exec alloc s c) := by
  have hleak {k : κ} (hk : st k = .held) : (s.ptr k, some k) ∈ s.ledger.held := by
    have hstands := h.stands k
    rw [hk] at hstands
    exact (hstands.2 _).mpr rfl
  have hstray {k : κ} (hk : st k = .dangling) : ¬ Sound (s.free k) := by
    have hstands := h.stands k
    rw [hk] at hstands
    rw [Heap.free, if_neg hstands.1]
    intro hsound
    have hstrays := (strays_release_of_not (hstands.2 _)).symm.trans hsound.strays
    exact absurd hstrays (Nat.succ_ne_zero _)
  cases c with
  | malloc k =>
    rw [exec]
    intro hsound
    have hin := hleak (not_not.mp hnot)
    have hreached := hsound.reached _ k (mem_malloc.mpr (.inr hin))
    rw [ptr_malloc_self] at hreached
    exact fresh_notMem alloc s (hreached ▸ mem_handles hin)
  | realloc k => exact unsound_malloc (hstray (not_not.mp hnot))
  | free k => exact hstray (not_not.mp hnot)
  | null k =>
    rw [exec]
    intro hsound
    have hin := hleak (not_not.mp hnot)
    have hreached := hsound.reached _ k hin
    rw [ptr_null_self] at hreached
    exact h.proper.nonnull (hreached ▸ mem_handles hin)
  | take => exact absurd trivial hnot
  | give a => exact absurd trivial hnot

/-! ## Sequences of commands -/

theorem after_free (h : st k = .held) : after st (.free k) = Function.update st k .dangling :=
  if_pos h

theorem along_free_null (h : st k = .held) : Along after Fine st [.free k, .null k] := by
  refine ⟨ne_of_eq_of_ne h Status.noConfusion, ?_, trivial⟩
  change after st (.free k) k ≠ .held
  rw [after_free h, Function.update_self]
  exact Status.noConfusion

theorem run_free_null (h : st k = .held) :
    [.free k, .null k].foldl after st = Function.update st k .null := by
  rw [List.foldl_cons, after_free h, List.foldl_cons, List.foldl_nil, after, Function.update_idem]

theorem after_of_ne {c : Command κ} (h : c.key ≠ some k) : after st c k = st k := by
  have hne {j : κ} (hj : some j ≠ some k) : k ≠ j := fun heq => hj (congrArg some heq.symm)
  cases c with
  | malloc j => exact Function.update_of_ne (hne h) _ _
  | realloc j => exact Function.update_of_ne (hne h) _ _
  | free j =>
    rw [after]
    split
    · exact Function.update_of_ne (hne h) _ _
    · rfl
  | null j => exact Function.update_of_ne (hne h) _ _
  | take => rfl
  | give a => rfl

theorem run_after_of_ne {cs : List (Command κ)} (h : ∀ c ∈ cs, c.key ≠ some k) :
    cs.foldl after st k = st k := by
  induction cs generalizing st with
  | nil => rfl
  | cons c cs ih =>
    rw [List.forall_mem_cons] at h
    rw [List.foldl_cons, ih h.2, after_of_ne h.1]

theorem run_unsound (hs : Proper s) (h : ¬ Sound s) (cs : List (Command κ)) :
    ¬ Sound (cs.foldl (exec alloc) s) := by
  induction cs generalizing s with
  | nil => exact h
  | cons c cs ih => exact ih (exec_proper hs c) (exec_unsound hs h c)

theorem run_tracks (h : Tracks s st) {cs : List (Command κ)} (hfine : Along after Fine st cs) :
    Tracks (cs.foldl (exec alloc) s) (cs.foldl after st) := by
  induction cs generalizing s st with
  | nil => exact h
  | cons c cs ih => exact ih (exec_tracks h hfine.1) hfine.2

/-- A sequence of commands keeps the heap sound exactly if each of them is fine. -/
theorem run_sound_iff (h : Tracks s st) (cs : List (Command κ)) :
    Sound (cs.foldl (exec alloc) s) ↔ Along after Fine st cs := by
  induction cs generalizing s st with
  | nil => exact iff_of_true h.sound trivial
  | cons c cs ih =>
    by_cases hfine : Fine st c
    · exact (ih (exec_tracks h hfine)).trans (and_iff_right hfine).symm
    · refine iff_of_false ?_ fun halong => hfine halong.1
      exact run_unsound (exec_proper h.proper c) (exec_not_fine h hfine) cs

end RtpSdr.Lib.Ownership
