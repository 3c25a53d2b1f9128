import RtpSdr.Rtp.Socket

/-!
# The descriptors of a process

Any number of sockets are opened and closed, in any order and with any answers of the system, while
the rest of the process opens and closes descriptors of its own.
-/
namespace RtpSdr.Rtp.SocketLife

open RtpSdr.Lib.Checked
open RtpSdr.Lib.Handles
open RtpSdr.Rtp.Socket
open RtpSdr.Rtp.Util

structure Process where
  kernel : Kernel
  sockets : Nat → RtpSocket
  /-- The last call to open returned `RTP_OK`, and the socket was not closed since. -/
  live : Nat → Bool

inductive Op where
  | openRecv (i : Nat) (ifname : Option (List UInt8)) (ans : Answers)
  | openSend (i : Nat) (ifname : Option (List UInt8)) (ans : Answers)
  | close (i : Nat)
  | otherOpen
  | otherClose (fd : Nat)

namespace Process

def returned (p : Process) (i : Nat) (result : Int × Kernel × RtpSocket) : Process where
  kernel := result.2.1
  sockets := Function.update p.sockets i result.2.2
  live := Function.update p.live i (result.1 == RTP_OK)

def closed (p : Process) (i : Nat) (result : Kernel × RtpSocket) : Process where
  kernel := result.1
  sockets := Function.update p.sockets i result.2
  live := Function.update p.live i false

end Process

/-- The others close what they opened. -/
def perform (p : Process) : Op → Exec Process
  | .openRecv i ifname ans => do
    let result ← rtpSocketOpenRecv i ifname ans p.kernel
    .ok (p.returned i result)
  | .openSend i ifname ans => do
    let result ← rtpSocketOpenSend i ifname ans p.kernel
    .ok (p.returned i result)
  | .close i => .ok (p.closed i (rtpSocketClose i p.kernel (p.sockets i)))
  | .otherOpen =>
    .ok { p with kernel := p.kernel.acquire (lowestFree p.kernel.handles) none }
  | .otherClose fd =>
    if (fd, none) ∈ p.kernel.held then .ok { p with kernel := p.kernel.release fd none } else .ok p

/-- A process with some descriptors open, whose sockets were never opened. -/
def started (others : List Nat) : Process where
  kernel := ⟨others.map fun fd => (fd, none), [], 0⟩
  sockets := fun _ => zeroed
  live := fun _ => false

/-- Nothing was closed or left that was not held. The descriptors that are held for a socket are
those that live sockets name, and a socket that has joined its group is a member of it. -/
structure Sound (p : Process) : Prop where
  strays : p.kernel.strays = 0
  owned : ∀ fd i, (fd, some i) ∈ p.kernel.held ↔ p.live i = true ∧ (p.sockets i).fd = fd
  member : ∀ i, p.live i = true → (p.sockets i).joinedGroup = true →
    ((p.sockets i).fd.toNat, (setImr (p.sockets i)).mreq) ∈ p.kernel.attached

/-! ### What the answers alone tell -/

def Op.Legal : Op → Prop
  | .openRecv _ _ ans => ans.Legal
  | .openSend _ _ ans => ans.Legal
  | _ => True

/-- How each socket stands after an operation. -/
def next (c : Nat → Standing) : Op → Nat → Standing
  | .openRecv i _ ans => Function.update c i (recvStanding ans)
  | .openSend i _ ans => Function.update c i (reached .dontBindSocket ans)
  | .close i => Function.update c i .spent
  | .otherOpen => c
  | .otherClose _ => c

/-- A socket is opened when it owns no descriptor and the name of its interface can be read, and it
is closed unless it names a descriptor that it does not own. -/
def Allowed (c : Nat → Standing) : Op → Prop
  | .openRecv i ifname ans => c i ≠ .owned ∧ Asks .doBindSocket ifname ans
  | .openSend i ifname ans => c i ≠ .owned ∧ Asks .dontBindSocket ifname ans
  | .close i => c i ≠ .stale
  | .otherOpen => True
  | .otherClose _ => True

/-! ### One socket among the others -/

/-- A socket stands to the ledger as `st` says. -/
inductive Stands (i : Nat) (k : Kernel) (sock : RtpSocket) : Standing → Prop
  | owned (fd : Nat) (hfd : sock.fd = fd) (hheld : ∀ h, (h, some i) ∈ k.held ↔ h = fd)
      (hmember : sock.joinedGroup → (fd, (setImr sock).mreq) ∈ k.attached) :
      Stands i k sock .owned
  | spent (hfd : sock.fd = -1) (hj : sock.joinedGroup = false)
      (hheld : ∀ h, (h, some i) ∉ k.held) : Stands i k sock .spent
  | stale (hfd : 0 ≤ sock.fd) (hj : sock.joinedGroup = false)
      (hheld : ∀ h, (h, some i) ∉ k.held) : Stands i k sock .stale

variable {i j : Nat} {k k' : Kernel} {sock sock' : RtpSocket} {st : Standing} {r : Int}

theorem Stands.held_iff (h : Stands i k sock st) (fd : Nat) :
    (fd, some i) ∈ k.held ↔ st = .owned ∧ sock.fd = fd := by
  cases h with
  | owned fd' hfd hheld hmember =>
    rw [hheld, hfd, Int.natCast_inj]
    exact ⟨fun h => ⟨rfl, h.symm⟩, fun h => h.2.symm⟩
  | spent hfd hj hheld => exact ⟨fun h => absurd h (hheld fd), fun h => nomatch h.1⟩
  | stale hfd hj hheld => exact ⟨fun h => absurd h (hheld fd), fun h => nomatch h.1⟩

theorem Stands.notMem (h : Stands i k sock st) (hst : st ≠ .owned) (fd : Nat) :
    (fd, some i) ∉ k.held := fun hin => hst ((h.held_iff fd).mp hin).1

/-- What a socket holds, nobody else changes. -/
theorem Stands.frame {o : Option Nat} (h : Stands i k sock st) (ho : some i ≠ o)
    (hframe : Frame o k k') : Stands i k' sock st := by
  have hheld := fun fd => hframe.held fd (some i) ho
  cases h with
  | owned fd hfd hin hmember =>
    refine .owned fd hfd (fun h => (hheld h).trans (hin h)) fun hj => ?_
    exact hframe.attached fd (some i) _ ho ((hin fd).mpr rfl) (hmember hj)
  | spent hfd hj hnot => exact .spent hfd hj fun h hin => hnot h ((hheld h).mp hin)
  | stale hfd hj hnot => exact .stale hfd hj fun h hin => hnot h ((hheld h).mp hin)

/-- A call that opens decides how the socket stands, if it held nothing before. -/
theorem stands_opened (hopened : Opened i k k' sock st r) (hnot : ∀ fd, (fd, some i) ∉ k.held) :
    Stands i k' sock st := by
  cases hopened with
  | owned fd hfree hfd hheld hmember =>
    refine .owned fd hfd (fun h => ?_) hmember
    rw [hheld, List.mem_cons, Prod.mk.injEq]
    exact ⟨fun hin => (hin.resolve_right (hnot h)).1, fun heq => .inl ⟨heq, rfl⟩⟩
  | spent r hr hfd hheld hj => exact .spent hfd hj fun h => hheld ▸ hnot h
  | stale r hr hfd hheld hj => exact .stale hfd hj fun h => hheld ▸ hnot h

theorem opened_live (hopened : Opened i k k' sock st r) :
    (r == RTP_OK) = true ↔ st = .owned := by
  rw [beq_iff_eq]
  cases hopened with
  | owned fd hfree hfd hheld hmember => exact ⟨fun _ => rfl, fun _ => rfl⟩
  | spent r hr hfd hheld hj => exact ⟨fun h => absurd h hr, fun h => nomatch h⟩
  | stale r hr hfd hheld hj => exact ⟨fun h => absurd h hr, fun h => nomatch h⟩

theorem opened_single (hk : Single k) (hopened : Opened i k k' sock st r) : Single k' := by
  cases hopened with
  | owned fd hfree hfd hheld hmember => exact (hk.acquire hfree).of_held hheld
  | spent r hr hfd hheld hj => exact hk.of_held hheld
  | stale r hr hfd hheld hj => exact hk.of_held hheld

/-- What a socket held before it was opened again is still held, and the socket no longer names
it as its own. -/
theorem opened_leaks (hopened : Opened i k k' sock st r) {fd : Nat} (hin : (fd, some i) ∈ k.held) :
    (fd, some i) ∈ k'.held ∧ ¬ ((r == RTP_OK) = true ∧ sock.fd = fd) := by
  rw [opened_live hopened]
  cases hopened with
  | owned new hfree hfd hheld hmember =>
    refine ⟨hheld ▸ List.mem_cons_of_mem _ hin, fun h => ?_⟩
    have heq : new = fd := Int.natCast_inj.mp (hfd.symm.trans h.2)
    exact hfree (heq ▸ mem_handles hin)
  | spent r hr hfd hheld hj => exact ⟨hheld ▸ hin, fun h => nomatch h.1⟩
  | stale r hr hfd hheld hj => exact ⟨hheld ▸ hin, fun h => nomatch h.1⟩

theorem stands_closed (hk : Single k) (h : Stands i k sock st) (hst : st ≠ .stale) :
    ∃ k' sock', rtpSocketClose i k sock = (k', sock') ∧ Single k' ∧
      Stands i k' sock' .spent ∧ Frame (some i) k k' := by
  cases h with
  | owned fd hfd hheld hmember =>
    obtain ⟨k', sock', hclose, hfd', hj, hheld', hframe⟩ :=
      rtpSocketClose_owned hk ((hheld fd).mpr rfl) hfd hmember
    refine ⟨k', sock', hclose, ?_, .spent hfd' hj fun h hin => ?_, hframe⟩
    · rw [Single, Ledger.handles, hheld']
      exact List.Nodup.sublist (List.filter_sublist.map Prod.fst) hk
    · rw [hheld', List.mem_filter, decide_eq_true_iff] at hin
      exact hin.2 ((hheld h).mp hin.1)
  | spent hfd hj hheld =>
    exact ⟨k, sock, rtpSocketClose_spent hfd hj, hk, .spent hfd hj hheld, Frame.refl _ _⟩
  | stale hfd hj hheld => exact absurd rfl hst

/-! ### The whole process -/

variable {p : Process} {c : Nat → Standing}

structure Tracks (p : Process) (c : Nat → Standing) : Prop where
  single : Single p.kernel
  strays : p.kernel.strays = 0
  live : ∀ i, p.live i = true ↔ c i = .owned
  stands : ∀ i, Stands i p.kernel (p.sockets i) (c i)

theorem Tracks.sound (h : Tracks p c) : Sound p where
  strays := h.strays
  owned := by
    intro fd i
    rw [(h.stands i).held_iff, h.live]
  member := by
    intro i hlive hj
    have hstands := h.stands i
    rw [(h.live i).mp hlive] at hstands
    cases hstands with
    | owned fd hfd hheld hmember =>
      rw [hfd, Int.toNat_natCast]
      exact hmember hj

/-- A call on one socket tracks the others as before. -/
theorem Tracks.update (h : Tracks p c) {b : Bool} (hsingle : Single k')
    (hframe : Frame (some i) p.kernel k') (hstands : Stands i k' sock st)
    (hb : b = true ↔ st = .owned) :
    Tracks ⟨k', Function.update p.sockets i sock, Function.update p.live i b⟩
      (Function.update c i st) where
  single := hsingle
  strays := hframe.strays.trans h.strays
  live := by
    intro j
    dsimp only
    by_cases hj : j = i
    · rw [hj, Function.update_self, Function.update_self]
      exact hb
    · rw [Function.update_of_ne hj, Function.update_of_ne hj]
      exact h.live j
  stands := by
    intro j
    dsimp only
    by_cases hj : j = i
    · rw [hj, Function.update_self, Function.update_self]
      exact hstands
    · rw [Function.update_of_ne hj, Function.update_of_ne hj]
      exact (h.stands j).frame (fun heq => hj (Option.some.inj heq)) hframe

/-- What the rest of the process does leaves the sockets as they were. -/
theorem Tracks.others (h : Tracks p c) (hsingle : Single k') (hframe : Frame none p.kernel k') :
    Tracks { p with kernel := k' } c where
  single := hsingle
  strays := hframe.strays.trans h.strays
  live := h.live
  stands := fun i => (h.stands i).frame (Option.some_ne_none i) hframe

theorem Tracks.returned (h : Tracks p c) (hi : c i ≠ .owned)
    (hopened : Opened i p.kernel k' sock st r) (hframe : Frame (some i) p.kernel k') :
    Tracks (p.returned i (r, k', sock)) (Function.update c i st) :=
  h.update (opened_single h.single hopened) hframe (stands_opened hopened ((h.stands i).notMem hi))
    (opened_live hopened)

theorem tracks_started {others : List Nat} (hothers : others.Nodup) :
    Tracks (started others) fun _ => .stale where
  single := by
    have hhandles : (started others).kernel.handles = others := by
      rw [Ledger.handles, started, List.map_map]
      exact List.map_id others
    rw [Single, hhandles]
    exact hothers
  strays := rfl
  live := fun _ => ⟨fun h => Bool.noConfusion h, fun h => Standing.noConfusion h⟩
  stands := by
    intro i
    refine .stale (Int.le_refl _) rfl fun fd hin => ?_
    obtain ⟨fd', -, heq⟩ := List.mem_map.mp hin
    cases heq

theorem perform_tracks {op : Op} (h : Tracks p c) (hlegal : op.Legal) (hallowed : Allowed c op) :
    ∃ p', perform p op = .ok p' ∧ Tracks p' (next c op) := by
  cases op with
  | openRecv i ifname ans =>
    obtain ⟨r, k', sock, hopen, hopened, hframe⟩ :=
      rtpSocketOpenRecv_spec (i := i) hlegal h.single hallowed.2
    exact ⟨_, by rw [perform, hopen, ok_bind], h.returned hallowed.1 hopened hframe⟩
  | openSend i ifname ans =>
    obtain ⟨r, k', sock, hopen, hopened, hframe⟩ :=
      rtpSocketOpenSend_spec (i := i) hlegal h.single hallowed.2
    exact ⟨_, by rw [perform, hopen, ok_bind], h.returned hallowed.1 hopened hframe⟩
  | close i =>
    obtain ⟨k', sock', hclose, hsingle, hstands, hframe⟩ :=
      stands_closed h.single (h.stands i) hallowed
    refine ⟨p.closed i (k', sock'), by rw [perform, hclose], h.update hsingle hframe hstands ?_⟩
    exact ⟨fun hb => Bool.noConfusion hb, fun hst => Standing.noConfusion hst⟩
  | otherOpen =>
    have hfree := lowestFree_notMem p.kernel.handles
    exact ⟨_, rfl, h.others (h.single.acquire hfree) (frame_acquire _ _ _)⟩
  | otherClose fd =>
    rw [perform]
    by_cases hin : (fd, none) ∈ p.kernel.held
    · rw [if_pos hin]
      exact ⟨_, rfl, h.others h.single.release (frame_release h.single hin)⟩
    · rw [if_neg hin]
      exact ⟨p, rfl, h⟩

/-- A socket that is opened while it owns a descriptor loses it. -/
theorem returned_unsound (h : Tracks p c) (hi : c i = .owned)
    (hopened : Opened i p.kernel k' sock st r) : ¬ Sound (p.returned i (r, k', sock)) := by
  intro hsound
  have hstands := h.stands i
  rw [hi] at hstands
  cases hstands with
  | owned fd hfd hheld hmember =>
    obtain ⟨hin, hnot⟩ := opened_leaks hopened ((hheld fd).mpr rfl)
    have howned := (hsound.owned fd i).mp hin
    rw [Process.returned] at howned
    dsimp only at howned
    rw [Function.update_self, Function.update_self] at howned
    exact hnot howned

theorem perform_unsound {op : Op} (h : Tracks p c) (hlegal : op.Legal) (hnot : ¬ Allowed c op)
    {p' : Process} (hrun : perform p op = .ok p') : ¬ Sound p' := by
  cases op with
  | openRecv i ifname ans =>
    by_cases hasks : Asks .doBindSocket ifname ans
    · have hi : c i = .owned := by
        by_contra hi
        exact hnot ⟨hi, hasks⟩
      obtain ⟨r, k', sock, hopen, hopened, -⟩ :=
        rtpSocketOpenRecv_spec (i := i) hlegal h.single hasks
      rw [perform, hopen, ok_bind] at hrun
      cases hrun
      exact returned_unsound h hi hopened
    · rw [perform, rtpSocketOpenRecv_fault hlegal h.single hasks] at hrun
      cases hrun
  | openSend i ifname ans =>
    by_cases hasks : Asks .dontBindSocket ifname ans
    · have hi : c i = .owned := by
        by_contra hi
        exact hnot ⟨hi, hasks⟩
      obtain ⟨r, k', sock, hopen, hopened, -⟩ :=
        rtpSocketOpenSend_spec (i := i) hlegal h.single hasks
      rw [perform, hopen, ok_bind] at hrun
      cases hrun
      exact returned_unsound h hi hopened
    · rw [perform, rtpSocketOpenSend_fault hlegal h.single hasks] at hrun
      cases hrun
  | close i =>
    have hi : c i = .stale := not_not.mp hnot
    have hstands := h.stands i
    rw [hi] at hstands
    cases hrun
    intro hsound
    cases hstands with
    | stale hfd hj hheld =>
      have hstray := rtpSocketClose_stale hfd hj hheld
      have hzero := hsound.strays
      rw [Process.closed, hstray] at hzero
      exact absurd hzero (Nat.succ_ne_zero _)
  | otherOpen => exact absurd trivial hnot
  | otherClose fd => exact absurd trivial hnot

/-- The descriptors of the process are in order throughout a run exactly when no socket is opened
while it owns one, no interface name is read that is not there, and no socket is closed while it
names a descriptor that it does not own. -/
theorem sockets_sound_iff (others : List Nat) (hothers : others.Nodup) (ops : List Op)
    (hlegal : ∀ op ∈ ops, op.Legal) :
    Throughout perform Sound (started others) ops ↔
      Along next Allowed (fun _ => .stale) ops := by
  refine throughout_iff_along (L := fun _ op => op.Legal) (R := Tracks) ?_ ?_ ?_ ops
    (tracks_started hothers) (along_of_mem hlegal)
  · intro p c op h hl hallowed
    exact perform_tracks h hl hallowed
  · intro p c op h hl hnot p' hrun
    exact perform_unsound h hl hnot hrun
  · intro p c h
    exact h.sound

/-- The answers when the name of the host is not known. -/
def unknownHost : Answers where
  error := -2
  addresses := []
  choices := none
  nameToIndex := fun _ => 0
  enxio := false
  interfaces := none
  joins := false

/-- A socket that could not be opened and is closed takes the standard input with it. -/
theorem sockets_sound_iff_unknownHost :
    ¬ Throughout perform Sound (started [0, 1, 2])
      [.openSend 0 none unknownHost, .close 0] := by
  rw [sockets_sound_iff [0, 1, 2] (by decide) _ ?_]
  · intro h
    exact h.2.1 rfl
  · intro op hop
    rcases List.mem_cons.mp hop with rfl | hop
    · exact ⟨fun h => absurd h (by decide), fun _ h => absurd h (by simp [unknownHost]),
        fun _ h => absurd h (by simp [unknownHost])⟩
    · rw [List.mem_singleton.mp hop]
      trivial

end RtpSdr.Rtp.SocketLife
