import RtpSdr.Lib.Checked
import RtpSdr.Lib.Handles
import RtpSdr.Rtp.Util

/-!
# Opening and closing a socket

`rtp_socket.c` with what the system answers as an argument of each call. The ledger of the process
holds the descriptors in use: those a socket was opened on, under its number, and the others.
-/
namespace RtpSdr.Rtp.Socket

open RtpSdr.Lib.Checked
open RtpSdr.Lib.Handles
open RtpSdr.Rtp.Util

inductive Family where
  | inet
  | inet6
  | other (family : Nat)
deriving DecidableEq, Repr

/-- `struct sockaddr_storage`, as far as its family says what it holds. -/
inductive SockaddrStorage where
  | inet (sinPort : BitVec 16) (sinAddr : BitVec 32)
  | inet6 (sin6Port : BitVec 16) (sin6Addr : BitVec 128)
  | other (family : Nat)
deriving DecidableEq, Repr

namespace SockaddrStorage

def family : SockaddrStorage → Family
  | .inet _ _ => .inet
  | .inet6 _ _ => .inet6
  | .other n => .other n

/-- The field of a storage that nothing was copied to is zero. -/
def sinAddr : SockaddrStorage → BitVec 32
  | .inet _ a => a
  | _ => 0

end SockaddrStorage

/-- The union of `struct ip_mreq` and `struct ipv6_mreq`. -/
inductive Mreq where
  | imr (multiaddr interface : BitVec 32)
  | imr6 (multiaddr : BitVec 128) (interface : Nat)
deriving DecidableEq, Repr

structure RtpSocket where
  fd : Int
  joinedGroup : Bool
  ifIndex : Nat
  destAddr : SockaddrStorage
  srcAddr : SockaddrStorage
  mreq : Mreq
deriving DecidableEq, Repr

/-- After `memset`. -/
def zeroed : RtpSocket where
  fd := 0
  joinedGroup := false
  ifIndex := 0
  destAddr := .other 0
  srcAddr := .other 0
  mreq := .imr 0 0

abbrev Kernel := Ledger (Option Nat) Mreq

/-! ### What the system answers -/

/-- An address that `getaddrinfo` lists, and whether `socket` and `bind` take it. -/
structure AddrInfo where
  addr : SockaddrStorage
  socketOk : Bool
  bindOk : Bool
deriving DecidableEq, Repr

/-- An entry of the list of `getifaddrs`. -/
structure Interface where
  name : List UInt8
  addr : Option SockaddrStorage
  loopback : Bool
  pointToPoint : Bool
  running : Bool
deriving DecidableEq, Repr

/-- What one call that opens a socket is answered: by `getaddrinfo`, by `getifaddrs` when an
interface is chosen and when its address is looked up, by `if_nametoindex` and by `setsockopt`. -/
structure Answers where
  error : Int
  addresses : List AddrInfo
  choices : Option (List Interface)
  nameToIndex : List UInt8 → Nat
  enxio : Bool
  interfaces : Option (List Interface)
  joins : Bool

/-! ### The functions of the file -/

inductive Flags where
  | doBindSocket
  | dontBindSocket
deriving DecidableEq, Repr

/-- The loop of `_create_socket` over the addresses, for the socket with the number `i`. -/
def tryAddresses (i : Nat) (flags : Flags) :
    List AddrInfo → Kernel → RtpSocket → Int × Kernel × RtpSocket
  | [], k, sock => (-1, k, sock)
  | cur :: next, k, sock =>
    if cur.socketOk then
      let fd := lowestFree k.handles
      let k := k.acquire fd (some i)
      let sock := { sock with fd := fd }
      if flags = .dontBindSocket ∨ cur.bindOk then (0, k, { sock with destAddr := cur.addr })
      else tryAddresses i flags next (k.release fd (some i)) sock
    else tryAddresses i flags next k { sock with fd := -1 }

def createSocket (i : Nat) (flags : Flags) (ans : Answers) (k : Kernel) (sock : RtpSocket) :
    Int × Kernel × RtpSocket :=
  if ans.error ≠ 0 ∨ ans.addresses = [] then (ans.error, k, sock)
  else tryAddresses i flags ans.addresses k sock

def isMulticast : SockaddrStorage → Int
  | .inet _ a => if a &&& 0xf0000000#32 = 0xe0000000#32 then 1 else 0
  | .inet6 _ a => if a >>> 120 = 0xff#128 then 1 else 0
  | .other _ => RTP_ERROR

def sockaddrLen : Family → Int
  | .inet => 16
  | .inet6 => 28
  | .other _ => RTP_ERROR

/-- A length of `-1` is the greatest `size_t`: the copy leaves the object. -/
def getInterfaceAddress (ifname : List UInt8) (family : Family) (addrs : Option (List Interface))
    (addr : SockaddrStorage) : Exec (Int × SockaddrStorage) :=
  if ifname.length < 1 then .ok (RTP_ERROR, addr)
  else
    match addrs with
    | none => .ok (-1, addr)
    | some list =>
      match list.find? (fun cur => cur.addr.map (·.family) = some family ∧ cur.name = ifname) with
      | none => .ok (-1, addr)
      | some cur =>
        if sockaddrLen family < 0 then .error .bounds else .ok (0, cur.addr.getD addr)

def suitable (family : Family) (cur : Interface) : Bool :=
  cur.addr.map (·.family) = some family ∧ ¬ cur.loopback ∧ ¬ cur.pointToPoint ∧ cur.running

/-- `IFNAMSIZ`, the size of the array the chosen name goes to. -/
def ifNamSiz : Nat := 16

/-- `strncpy`. A byte that nothing wrote is `none`. -/
def strncpy (dst : List (Option UInt8)) (src : List UInt8) (n : Nat) : List (Option UInt8) :=
  (src.take n).map some ++ List.replicate (n - src.length) (some 0) ++ dst.drop n

/-- A string that is read up to its null byte. -/
def readString : List (Option UInt8) → Exec (List UInt8)
  | some b :: rest =>
    if b = 0 then .ok []
    else do
      let tail ← readString rest
      .ok (b :: tail)
  | _ => .error .bounds

/-- The name goes to an array without its last byte, and is not written when no interface is
found: `getifaddrs` has set `retval` to zero by then. -/
def chooseBestInterface (family : Family) (addrs : Option (List Interface))
    (ifname : List (Option UInt8)) : Int × List (Option UInt8) :=
  match addrs with
  | none => (-1, ifname)
  | some list =>
    match list.find? (suitable family) with
    | none => (0, ifname)
    | some cur => (0, strncpy ifname cur.name (ifNamSiz - 1))

def lookupNamed (ans : Answers) (sock : RtpSocket) (ifname : List UInt8) :
    Exec (Int × RtpSocket) := do
  let sock := { sock with ifIndex := ans.nameToIndex ifname }
  if sock.ifIndex = 0 ∧ ans.enxio then .ok (RTP_ERROR, sock)
  else
    let (retval, srcAddr) ←
      getInterfaceAddress ifname sock.destAddr.family ans.interfaces sock.srcAddr
    .ok (retval, { sock with srcAddr := srcAddr })

def lookupInterface (ans : Answers) (sock : RtpSocket) (ifname : Option (List UInt8)) :
    Exec (Int × RtpSocket) :=
  let sock := { sock with ifIndex := 0 }
  if ifname.getD [] = [] then
    let chosen := List.replicate ifNamSiz none
    let (retval, chosen) := chooseBestInterface sock.destAddr.family ans.choices chosen
    if retval ≠ 0 then .ok (retval, sock)
    else readString chosen >>= lookupNamed ans sock
  else lookupNamed ans sock (ifname.getD [])

def setImr (sock : RtpSocket) : RtpSocket :=
  match sock.destAddr with
  | .inet _ group => { sock with mreq := .imr group sock.srcAddr.sinAddr }
  | .inet6 _ group => { sock with mreq := .imr6 group sock.ifIndex }
  | .other _ => sock

def joinGroup (ans : Answers) (k : Kernel) (sock : RtpSocket) : Int × Kernel × RtpSocket :=
  let sock := setImr sock
  match sock.destAddr.family with
  | .other _ => (RTP_ERROR, k, sock)
  | _ =>
    if ans.joins then (0, k.attach sock.fd.toNat sock.mreq, { sock with joinedGroup := true })
    else (-1, k, sock)

def leaveGroup (k : Kernel) (sock : RtpSocket) : Kernel × RtpSocket :=
  let sock := setImr sock
  match sock.destAddr.family with
  | .other _ => (k, sock)
  | _ => (k.detach sock.fd.toNat sock.mreq, sock)

/-- The options it sets on the descriptor are not part of the ledger. -/
def setMulticastInterface (sock : RtpSocket) : RtpSocket := setImr sock

def rtpSocketClose (i : Nat) (k : Kernel) (sock : RtpSocket) : Kernel × RtpSocket :=
  let (k, sock) :=
    if sock.joinedGroup then
      let (k, sock) := leaveGroup k sock
      (k, { sock with joinedGroup := false })
    else (k, sock)
  if 0 ≤ sock.fd then (k.release sock.fd.toNat (some i), { sock with fd := -1 }) else (k, sock)

def rtpSocketOpenRecv (i : Nat) (ifname : Option (List UInt8)) (ans : Answers) (k : Kernel) :
    Exec (Int × Kernel × RtpSocket) :=
  let (err, k, sock) := createSocket i .doBindSocket ans k zeroed
  if err ≠ 0 then .ok (RTP_ERROR, k, sock)
  else do
    let (_, sock) ← lookupInterface ans sock ifname
    if isMulticast sock.destAddr = 1 then
      let (retval, k, sock) := joinGroup ans k sock
      if retval ≠ 0 then
        let (k, sock) := rtpSocketClose i k sock
        .ok (RTP_ERROR, k, sock)
      else .ok (RTP_OK, k, sock)
    else .ok (RTP_OK, k, sock)

def rtpSocketOpenSend (i : Nat) (ifname : Option (List UInt8)) (ans : Answers) (k : Kernel) :
    Exec (Int × Kernel × RtpSocket) :=
  let (err, k, sock) := createSocket i .dontBindSocket ans k zeroed
  if err ≠ 0 then .ok (RTP_ERROR, k, sock)
  else do
    let (_, sock) ← lookupInterface ans sock ifname
    if isMulticast sock.destAddr = 1 then .ok (RTP_OK, k, setMulticastInterface sock)
    else .ok (RTP_OK, k, sock)

/-! ### What a call to open leaves behind -/

/-- How a socket stands to the descriptors of the process: it owns one, it names none, or it names
one it does not own. -/
inductive Standing where
  | owned
  | spent
  | stale
deriving DecidableEq, Repr

def usable (flags : Flags) (cur : AddrInfo) : Bool :=
  cur.socketOk ∧ (flags = .dontBindSocket ∨ cur.bindOk)

/-- Where no address is usable the last one decides: a descriptor that could not be bound is
closed and stays in the structure. -/
def reached (flags : Flags) (ans : Answers) : Standing :=
  if ans.error ≠ 0 then .stale
  else
    match ans.addresses.find? (usable flags), ans.addresses.getLast? with
    | some _, _ => .owned
    | none, some last => if last.socketOk then .stale else .spent
    | none, none => .stale

/-- The address that is opened. -/
def chosenAddr (flags : Flags) (ans : Answers) : SockaddrStorage :=
  ((ans.addresses.find? (usable flags)).map (·.addr)).getD (.other 0)

/-- What the documentation of `getaddrinfo` and of the interface names promises. -/
structure Answers.Legal (ans : Answers) : Prop where
  found : ans.error = 0 → ans.addresses ≠ []
  families : ∀ cur ∈ ans.addresses, cur.addr.family = .inet ∨ cur.addr.family = .inet6
  names : ∀ list, ans.choices = some list → ∀ cur ∈ list, 0 ∉ cur.name

/-- What a call does to the ledger when it opens for the socket `i`, with its return value and the
structure it leaves. -/
inductive Opened (i : Nat) (k k' : Kernel) (sock : RtpSocket) : Standing → Int → Prop
  | owned (fd : Nat) (hfree : fd ∉ k.handles) (hfd : sock.fd = fd)
      (hheld : k'.held = (fd, some i) :: k.held)
      (hmember : sock.joinedGroup → (fd, (setImr sock).mreq) ∈ k'.attached) :
      Opened i k k' sock .owned RTP_OK
  | spent (r : Int) (hr : r ≠ RTP_OK) (hfd : sock.fd = -1) (hheld : k'.held = k.held)
      (hjoined : sock.joinedGroup = false) : Opened i k k' sock .spent r
  | stale (r : Int) (hr : r ≠ RTP_OK) (hfd : 0 ≤ sock.fd) (hheld : k'.held = k.held)
      (hjoined : sock.joinedGroup = false) : Opened i k k' sock .stale r

section Create

variable {i : Nat} {flags : Flags} {ans : Answers} {k : Kernel}

theorem tryAddresses_found {list : List AddrInfo} {cur : AddrInfo} (sock : RtpSocket)
    (hk : Single k) (hfind : list.find? (usable flags) = some cur) :
    ∃ fd k', tryAddresses i flags list k sock =
        (0, k', { sock with fd := (fd : Nat), destAddr := cur.addr }) ∧
      fd ∉ k.handles ∧ k'.held = (fd, some i) :: k.held ∧ Frame (some i) k k' := by
  induction list generalizing k sock with
  | nil => cases hfind
  | cons a rest ih =>
    rw [tryAddresses]
    have hfree := lowestFree_notMem k.handles
    rcases hs : a.socketOk with _ | _
    · have hrest : rest.find? (usable flags) = some cur := by
        rwa [List.find?_cons_of_neg (by simp [usable, hs])] at hfind
      exact ih _ hk hrest
    · by_cases hb : flags = .dontBindSocket ∨ a.bindOk
      · rw [List.find?_cons_of_pos (by simp [usable, hs, hb])] at hfind
        cases hfind
        exact ⟨_, _, by rw [if_pos rfl, if_pos hb], hfree, rfl, frame_acquire _ _ _⟩
      · have hrest : rest.find? (usable flags) = some cur := by
          rwa [List.find?_cons_of_neg (by simp [usable, hb])] at hfind
        have hheld : ((k.acquire _ (some i)).release _ (some i)).held = k.held :=
          held_release hfree rfl
        have hframe := frame_given_back hk hfree rfl (frame_acquire _ (some i) k)
        obtain ⟨fd, k', hrun, hfd, hk', hframe'⟩ :=
          ih { sock with fd := (lowestFree k.handles : Nat) } (hk.of_held hheld) hrest
        refine ⟨fd, k', by rw [if_pos rfl, if_neg hb, hrun], ?_, ?_, hframe.trans hframe'⟩
        · rwa [Ledger.handles, hheld] at hfd
        · rw [hk', hheld]

/-- What the descriptor of a structure is after an address that was not usable. -/
def LeftBy (last : Option AddrInfo) (before fd : Int) : Prop :=
  match last with
  | none => fd = before
  | some cur => if cur.socketOk then 0 ≤ fd else fd = -1

/-- No descriptor stays open, and the structure names what the last address left in it. -/
theorem tryAddresses_none {list : List AddrInfo} (sock : RtpSocket) (hk : Single k)
    (hfind : list.find? (usable flags) = none) :
    ∃ fd k', tryAddresses i flags list k sock = (-1, k', { sock with fd := fd }) ∧
      k'.held = k.held ∧ Frame (some i) k k' ∧ LeftBy list.getLast? sock.fd fd := by
  induction list generalizing k sock with
  | nil => exact ⟨sock.fd, k, rfl, rfl, Frame.refl _ _, rfl⟩
  | cons a rest ih =>
    rw [List.find?_eq_none, List.forall_mem_cons] at hfind
    have hrest : rest.find? (usable flags) = none := List.find?_eq_none.mpr hfind.2
    -- the rest of the list starts from what this address left in the structure
    have hleft : ∀ before fd, (if a.socketOk then 0 ≤ before else before = -1) →
        LeftBy rest.getLast? before fd → LeftBy (a :: rest).getLast? sock.fd fd := by
      intro before fd hbefore hfd
      rw [List.getLast?_cons]
      cases hl : rest.getLast? with
      | none =>
        rw [hl] at hfd
        obtain rfl : fd = before := hfd
        exact hbefore
      | some cur =>
        rw [hl] at hfd
        exact hfd
    rw [tryAddresses]
    rcases hs : a.socketOk with _ | _
    · obtain ⟨fd, k', hrun, hheld, hframe, hfd⟩ := ih { sock with fd := -1 } hk hrest
      exact ⟨fd, k', hrun, hheld, hframe, hleft (-1) fd (by rw [hs]; rfl) hfd⟩
    · have hb : ¬ (flags = .dontBindSocket ∨ a.bindOk) := by
        simpa [usable, hs] using hfind.1
      have hfree := lowestFree_notMem k.handles
      have hheld : ((k.acquire _ (some i)).release _ (some i)).held = k.held :=
        held_release hfree rfl
      have hframe := frame_given_back hk hfree rfl (frame_acquire _ (some i) k)
      obtain ⟨fd, k', hrun, hk', hframe', hfd⟩ :=
        ih { sock with fd := (lowestFree k.handles : Nat) } (hk.of_held hheld) hrest
      refine ⟨fd, k', ?_, hk'.trans hheld, hframe.trans hframe', ?_⟩
      · rw [if_pos rfl, if_neg hb, hrun]
      · exact hleft _ fd (by rw [hs]; exact Int.natCast_nonneg _) hfd

theorem exists_usable (hreached : reached flags ans = .owned) :
    ans.error = 0 ∧ ∃ cur, ans.addresses.find? (usable flags) = some cur := by
  rw [reached] at hreached
  split at hreached
  · cases hreached
  · next herror =>
    refine ⟨not_not.mp herror, ?_⟩
    split at hreached
    · next cur hfind => exact ⟨cur, hfind⟩
    · next last _ _ => cases hs : last.socketOk <;> simp [hs] at hreached
    · cases hreached

theorem createSocket_owned (hans : ans.Legal) (hk : Single k)
    (hreached : reached flags ans = .owned) :
    ∃ fd k', createSocket i flags ans k zeroed =
        (0, k', { zeroed with fd := (fd : Nat), destAddr := chosenAddr flags ans }) ∧
      fd ∉ k.handles ∧ k'.held = (fd, some i) :: k.held ∧ Frame (some i) k k' := by
  obtain ⟨herror, cur, hfind⟩ := exists_usable hreached
  obtain ⟨fd, k', hrun, hrest⟩ := tryAddresses_found (i := i) zeroed hk hfind
  refine ⟨fd, k', ?_, hrest⟩
  rw [createSocket, if_neg (by simp [herror, hans.found herror]), hrun, chosenAddr, hfind]
  rfl

theorem createSocket_refused (hans : ans.Legal) (hk : Single k)
    (hreached : reached flags ans ≠ .owned) :
    ∃ r k' sock, createSocket i flags ans k zeroed = (r, k', sock) ∧ r ≠ 0 ∧
      Opened i k k' sock (reached flags ans) RTP_ERROR ∧ Frame (some i) k k' := by
  rw [reached] at hreached ⊢
  by_cases herror : ans.error = 0
  · rw [if_neg (not_not_intro herror)] at hreached ⊢
    have hsome := hans.found herror
    cases hfind : ans.addresses.find? (usable flags) with
    | some cur => simp [hfind] at hreached
    | none =>
      obtain ⟨fd, k', hrun, hheld, hframe, hfd⟩ := tryAddresses_none (i := i) zeroed hk hfind
      have hrun' : createSocket i flags ans k zeroed = (-1, k', { zeroed with fd := fd }) := by
        rw [createSocket, if_neg (by simp [herror, hsome]), hrun]
      refine ⟨-1, k', _, hrun', by decide, ?_, hframe⟩
      cases hlast : ans.addresses.getLast? with
      | none => exact absurd (List.getLast?_eq_none_iff.mp hlast) hsome
      | some last =>
        rw [hlast] at hfd
        cases hs : last.socketOk with
        | true =>
          have hopen : 0 ≤ fd := by simpa only [LeftBy, hs, if_true] using hfd
          have hstale : Opened i k k' { zeroed with fd := fd } .stale RTP_ERROR :=
            .stale RTP_ERROR (by decide) hopen hheld rfl
          simpa only [hs, if_true] using hstale
        | false =>
          have hnone : fd = -1 := by simpa [LeftBy, hs] using hfd
          have hspent : Opened i k k' { zeroed with fd := fd } .spent RTP_ERROR :=
            .spent RTP_ERROR (by decide) hnone hheld rfl
          simpa only [hs, Bool.false_eq_true, if_false] using hspent
  · rw [if_pos herror]
    refine ⟨ans.error, k, zeroed, ?_, herror, ?_, Frame.refl _ _⟩
    · rw [createSocket, if_pos (.inl herror)]
    · exact .stale RTP_ERROR (by decide) (Int.le_refl _) rfl rfl

end Create

section Lookup

variable {ans : Answers} {sock : RtpSocket} {ifname : Option (List UInt8)}

theorem readString_map {name : List UInt8} (rest : List (Option UInt8)) (hname : 0 ∉ name) :
    readString (name.map some ++ rest) = readString rest >>= fun tail => .ok (name ++ tail) := by
  induction name with
  | nil =>
    cases h : readString rest with
    | error e => rw [List.map_nil, List.nil_append, h]; rfl
    | ok tail => rw [List.map_nil, List.nil_append, h]; rfl
  | cons b name ih =>
    rw [List.mem_cons, not_or] at hname
    rw [List.map_cons, List.cons_append, readString, if_neg (Ne.symm hname.1), ih hname.2,
      bind_assoc]
    rfl

/-- A name of fifteen bytes fills what `strncpy` writes, and its null byte is not written. -/
theorem readString_strncpy {name : List UInt8} (hname : 0 ∉ name) :
    readString (strncpy (List.replicate ifNamSiz none) name (ifNamSiz - 1)) =
      if name.length < ifNamSiz - 1 then .ok name else .error .bounds := by
  have hdrop : (List.replicate ifNamSiz (none : Option UInt8)).drop (ifNamSiz - 1) = [none] := rfl
  rw [strncpy, hdrop, List.append_assoc, readString_map _ (fun h => hname (List.mem_of_mem_take h))]
  by_cases hlen : name.length < ifNamSiz - 1
  · obtain ⟨n, hn⟩ : ∃ n, ifNamSiz - 1 - name.length = n + 1 := ⟨_, (Nat.succ_pred (by omega)).symm⟩
    rw [if_pos hlen, hn, List.replicate_succ, List.cons_append, readString, if_pos rfl, ok_bind,
      List.append_nil, List.take_of_length_le (by omega)]
  · rw [if_neg hlen, Nat.sub_eq_zero_of_le (by omega)]
    rfl

/-- The interface has a name to look up: it is given, or none has to be chosen because the list is
not there, or the one that is chosen has a name that fits with its null byte. -/
def Nameable (ifname : Option (List UInt8)) (family : Family) (ans : Answers) : Prop :=
  ifname.getD [] = [] → ∀ list, ans.choices = some list →
    ∃ cur, list.find? (suitable family) = some cur ∧ cur.name.length < ifNamSiz - 1

theorem getInterfaceAddress_ok (name : List UInt8) (list : Option (List Interface))
    (addr : SockaddrStorage) {family : Family} (hfamily : family = .inet ∨ family = .inet6) :
    ∃ r, getInterfaceAddress name family list addr = .ok r := by
  have hlen : ¬ sockaddrLen family < 0 := by
    rcases hfamily with rfl | rfl
    · decide
    · decide
  unfold getInterfaceAddress
  split
  · exact ⟨_, rfl⟩
  · cases list with
    | none => exact ⟨_, rfl⟩
    | some list =>
      dsimp only
      split
      · exact ⟨_, rfl⟩
      · exact ⟨_, rfl⟩

/-- The index and the source address may change. -/
structure Located (sock sock' : RtpSocket) : Prop where
  fd : sock'.fd = sock.fd
  joinedGroup : sock'.joinedGroup = sock.joinedGroup
  destAddr : sock'.destAddr = sock.destAddr

theorem lookupNamed_ok (ans : Answers) (sock : RtpSocket) (name : List UInt8)
    (hfamily : sock.destAddr.family = .inet ∨ sock.destAddr.family = .inet6) :
    ∃ r sock', lookupNamed ans sock name = .ok (r, sock') ∧ Located sock sock' := by
  rw [lookupNamed]
  dsimp only
  split
  · exact ⟨_, _, rfl, rfl, rfl, rfl⟩
  · obtain ⟨⟨r, addr⟩, hget⟩ :=
      getInterfaceAddress_ok name ans.interfaces sock.srcAddr hfamily
    refine ⟨r, { sock with ifIndex := ans.nameToIndex name, srcAddr := addr }, ?_, rfl, rfl, rfl⟩
    rw [hget, ok_bind]

theorem lookupInterface_ok (hans : ans.Legal) (sock : RtpSocket)
    (hfamily : sock.destAddr.family = .inet ∨ sock.destAddr.family = .inet6)
    (hname : Nameable ifname sock.destAddr.family ans) :
    ∃ r sock', lookupInterface ans sock ifname = .ok (r, sock') ∧ Located sock sock' := by
  rw [lookupInterface]
  dsimp only
  by_cases hgiven : ifname.getD [] = []
  · rw [if_pos hgiven]
    cases hlist : ans.choices with
    | none => exact ⟨-1, _, rfl, rfl, rfl, rfl⟩
    | some list =>
      obtain ⟨cur, hcur, hlen⟩ := hname hgiven list hlist
      have hzero := hans.names list hlist cur (List.mem_of_find?_eq_some hcur)
      obtain ⟨r, sock', hrun, hfd, hj, hdest⟩ :=
        lookupNamed_ok ans { sock with ifIndex := 0 } cur.name hfamily
      refine ⟨r, sock', ?_, hfd, hj, hdest⟩
      simp only [chooseBestInterface, hcur, ne_eq, not_true_eq_false, if_false]
      rw [readString_strncpy hzero, if_pos hlen, ok_bind, hrun]
  · obtain ⟨r, sock', hrun, hfd, hj, hdest⟩ :=
      lookupNamed_ok ans { sock with ifIndex := 0 } (ifname.getD []) hfamily
    exact ⟨r, sock', by rw [if_neg hgiven, hrun], hfd, hj, hdest⟩

/-- The array with the chosen name is read past what was written. -/
theorem lookupInterface_fault (hans : ans.Legal)
    (hname : ¬ Nameable ifname sock.destAddr.family ans) :
    lookupInterface ans sock ifname = .error .bounds := by
  rw [Nameable] at hname
  push Not at hname
  obtain ⟨hgiven, list, hlist, hlong⟩ := hname
  rw [lookupInterface]
  dsimp only
  rw [if_pos hgiven, hlist]
  cases hcur : list.find? (suitable sock.destAddr.family) with
  | none =>
    simp only [chooseBestInterface, hcur]
    rfl
  | some cur =>
    have hzero := hans.names list hlist cur (List.mem_of_find?_eq_some hcur)
    simp only [chooseBestInterface, hcur, ne_eq, not_true_eq_false, if_false]
    rw [readString_strncpy hzero, if_neg (Nat.not_lt.mpr (hlong cur hcur))]
    rfl

end Lookup

section Group

variable (sock : RtpSocket)

@[simp] theorem setImr_fd : (setImr sock).fd = sock.fd := by
  unfold setImr
  split <;> rfl

@[simp] theorem setImr_joinedGroup : (setImr sock).joinedGroup = sock.joinedGroup := by
  unfold setImr
  split <;> rfl

@[simp] theorem setImr_destAddr : (setImr sock).destAddr = sock.destAddr := by
  unfold setImr
  split <;> rfl

@[simp] theorem setImr_srcAddr : (setImr sock).srcAddr = sock.srcAddr := by
  unfold setImr
  split <;> rfl

@[simp] theorem setImr_ifIndex : (setImr sock).ifIndex = sock.ifIndex := by
  unfold setImr
  split <;> rfl

/-- The request to leave is the request to join: what it is made from does not change. -/
theorem setImr_mreq_setImr (b : Bool) :
    (setImr { setImr sock with joinedGroup := b }).mreq = (setImr sock).mreq := by
  cases h : sock.destAddr <;> simp [setImr, h]

end Group

section Close

variable {i : Nat} {k : Kernel} {sock : RtpSocket} {fd : Nat}

theorem isMulticast_family {addr : SockaddrStorage} (h : isMulticast addr = 1) :
    addr.family = .inet ∨ addr.family = .inet6 := by
  cases addr with
  | inet port a => exact .inl rfl
  | inet6 port a => exact .inr rfl
  | other n => cases h

theorem joinGroup_eq (ans : Answers) (hmulti : isMulticast sock.destAddr = 1) :
    joinGroup ans k sock =
      if ans.joins then
        (0, k.attach (setImr sock).fd.toNat (setImr sock).mreq,
          { setImr sock with joinedGroup := true })
      else (-1, k, setImr sock) := by
  have hfamily := isMulticast_family hmulti
  rw [← setImr_destAddr] at hfamily
  rw [joinGroup]
  rcases hfamily with h | h
  · rw [h]
  · rw [h]

theorem leaveGroup_held (hk : Single k) (hin : (fd, some i) ∈ k.held) (hfd : sock.fd = fd)
    (hmember : (fd, (setImr sock).mreq) ∈ k.attached) :
    ∃ k', leaveGroup k sock = (k', setImr sock) ∧ k'.held = k.held ∧ Frame (some i) k k' := by
  have hfd' : (setImr sock).fd.toNat = fd := by rw [setImr_fd, hfd, Int.toNat_natCast]
  rw [leaveGroup, hfd']
  split
  · exact ⟨k, rfl, rfl, Frame.refl _ _⟩
  · exact ⟨_, rfl, rfl, frame_detach hk hin hmember⟩

/-- A socket that is closed gives back the descriptor it owns and the membership it has. -/
theorem rtpSocketClose_owned (hk : Single k) (hin : (fd, some i) ∈ k.held) (hfd : sock.fd = fd)
    (hmember : sock.joinedGroup → (fd, (setImr sock).mreq) ∈ k.attached) :
    ∃ k' sock', rtpSocketClose i k sock = (k', sock') ∧ sock'.fd = -1 ∧
      sock'.joinedGroup = false ∧ k'.held = k.held.filter (·.1 ≠ fd) ∧ Frame (some i) k k' := by
  have hpos : (0 : Int) ≤ fd := Int.natCast_nonneg fd
  rw [rtpSocketClose]
  by_cases hj : sock.joinedGroup = true
  · obtain ⟨k₁, hleave, hheld, hframe⟩ := leaveGroup_held hk hin hfd (hmember hj)
    rw [if_pos hj, hleave]
    dsimp only
    rw [setImr_fd, hfd, if_pos hpos, Int.toNat_natCast]
    have hrelease : Frame (some i) k₁ (k₁.release fd (some i)) :=
      frame_release (hk.of_held hheld) (hheld ▸ hin)
    exact ⟨_, _, rfl, rfl, rfl, congrArg _ hheld, hframe.trans hrelease⟩
  · rw [if_neg hj]
    dsimp only
    rw [hfd, if_pos hpos, Int.toNat_natCast]
    exact ⟨_, _, rfl, rfl, Bool.eq_false_of_not_eq_true hj, rfl, frame_release hk hin⟩

theorem rtpSocketClose_spent (hfd : sock.fd = -1) (hj : sock.joinedGroup = false) :
    rtpSocketClose i k sock = (k, sock) := by
  rw [rtpSocketClose, if_neg (Bool.not_eq_true _ ▸ hj)]
  dsimp only
  rw [hfd, if_neg (by decide)]

/-- The descriptor that is closed is not the socket's. -/
theorem rtpSocketClose_stale (hfd : 0 ≤ sock.fd) (hj : sock.joinedGroup = false)
    (hnot : ∀ fd, (fd, some i) ∉ k.held) :
    (rtpSocketClose i k sock).1.strays = k.strays + 1 := by
  rw [rtpSocketClose, if_neg (Bool.not_eq_true _ ▸ hj)]
  dsimp only
  rw [if_pos hfd]
  exact strays_release_of_not (hnot _)

end Close

/-! ### The two calls that open -/

def recvStanding (ans : Answers) : Standing :=
  if reached .doBindSocket ans = .owned ∧ isMulticast (chosenAddr .doBindSocket ans) = 1 ∧
      ¬ ans.joins then .spent
  else reached .doBindSocket ans

section Open

variable {i : Nat} {ifname : Option (List UInt8)} {flags : Flags} {ans : Answers} {k : Kernel}

theorem chosenAddr_family (hans : ans.Legal) (hreached : reached flags ans = .owned) :
    (chosenAddr flags ans).family = .inet ∨ (chosenAddr flags ans).family = .inet6 := by
  obtain ⟨-, cur, hfind⟩ := exists_usable hreached
  rw [chosenAddr, hfind]
  exact hans.families cur (List.mem_of_find?_eq_some hfind)

/-- The name is asked for once there is an address. -/
def Asks (flags : Flags) (ifname : Option (List UInt8)) (ans : Answers) : Prop :=
  reached flags ans = .owned → Nameable ifname (chosenAddr flags ans).family ans

/-- What the structure holds once its descriptor is open and the interface is looked up. -/
structure Ready (flags : Flags) (ans : Answers) (fd : Nat) (sock : RtpSocket) : Prop where
  fd : sock.fd = fd
  joinedGroup : sock.joinedGroup = false
  destAddr : sock.destAddr = chosenAddr flags ans

/-- Both calls begin by creating the socket and looking up the interface. -/
theorem create_lookup (hans : ans.Legal) (hk : Single k) (hreached : reached flags ans = .owned)
    (hname : Nameable ifname (chosenAddr flags ans).family ans) :
    ∃ fd k' created r sock, createSocket i flags ans k zeroed = (0, k', created) ∧
      lookupInterface ans created ifname = .ok (r, sock) ∧ Ready flags ans fd sock ∧
      fd ∉ k.handles ∧ k'.held = (fd, some i) :: k.held ∧ Frame (some i) k k' := by
  obtain ⟨fd, k', hcreate, hrest⟩ := createSocket_owned (i := i) hans hk hreached
  obtain ⟨r, sock, hlookup, hloc⟩ :=
    lookupInterface_ok hans { zeroed with fd := (fd : Nat), destAddr := chosenAddr flags ans }
      (chosenAddr_family hans hreached) hname
  exact ⟨fd, k', _, r, sock, hcreate, hlookup, ⟨hloc.fd, hloc.joinedGroup, hloc.destAddr⟩, hrest⟩

theorem rtpSocketOpenSend_spec (hans : ans.Legal) (hk : Single k)
    (hasks : Asks .dontBindSocket ifname ans) :
    ∃ r k' sock, rtpSocketOpenSend i ifname ans k = .ok (r, k', sock) ∧
      Opened i k k' sock (reached .dontBindSocket ans) r ∧ Frame (some i) k k' := by
  by_cases hreached : reached .dontBindSocket ans = .owned
  · obtain ⟨fd, k', created, r, sock, hcreate, hlookup, hready, hfree, hheld, hframe⟩ :=
      create_lookup (i := i) hans hk hreached (hasks hreached)
    rw [rtpSocketOpenSend, hcreate]
    dsimp only
    rw [if_neg (not_not_intro rfl), hlookup, ok_bind, hreached]
    dsimp only
    split
    · refine ⟨_, _, _, rfl, .owned fd hfree ?_ hheld ?_, hframe⟩
      · rw [setMulticastInterface, setImr_fd, hready.fd]
      · intro h
        rw [setMulticastInterface, setImr_joinedGroup, hready.joinedGroup] at h
        cases h
    · refine ⟨_, _, _, rfl, .owned fd hfree hready.fd hheld ?_, hframe⟩
      intro h
      rw [hready.joinedGroup] at h
      cases h
  · obtain ⟨r, k', sock, hcreate, hr, hopened, hframe⟩ :=
      createSocket_refused (i := i) hans hk hreached
    refine ⟨RTP_ERROR, k', sock, ?_, hopened, hframe⟩
    rw [rtpSocketOpenSend, hcreate]
    exact if_pos hr

/-- A socket that does not get into its group is closed again. -/
theorem close_unjoined {k₁ : Kernel} {sock : RtpSocket} {fd : Nat} (hk : Single k)
    (hfree : fd ∉ k.handles) (hheld : k₁.held = (fd, some i) :: k.held)
    (hframe : Frame (some i) k k₁) (hfd : sock.fd = fd) (hj : sock.joinedGroup = false) :
    ∃ k' sock', rtpSocketClose i k₁ sock = (k', sock') ∧ Opened i k k' sock' .spent RTP_ERROR ∧
      Frame (some i) k k' := by
  have hin : (fd, some i) ∈ k₁.held := hheld ▸ List.mem_cons_self
  have hmember : sock.joinedGroup → (fd, (setImr sock).mreq) ∈ k₁.attached := by
    intro h
    rw [hj] at h
    cases h
  obtain ⟨k', sock', hclose, hfd', hj', hheld', hframe'⟩ :=
    rtpSocketClose_owned ((hk.acquire hfree).of_held hheld) hin hfd hmember
  have hback : k'.held = k.held := hheld'.trans (held_release hfree hheld)
  exact ⟨k', sock', hclose, .spent _ (by decide) hfd' hback hj', hframe.trans hframe'⟩

theorem rtpSocketOpenRecv_spec (hans : ans.Legal) (hk : Single k)
    (hasks : Asks .doBindSocket ifname ans) :
    ∃ r k' sock, rtpSocketOpenRecv i ifname ans k = .ok (r, k', sock) ∧
      Opened i k k' sock (recvStanding ans) r ∧ Frame (some i) k k' := by
  by_cases hreached : reached .doBindSocket ans = .owned
  · obtain ⟨fd, k₁, created, r, sock, hcreate, hlookup, hready, hfree, hheld, hframe⟩ :=
      create_lookup (i := i) hans hk hreached (hasks hreached)
    have hfd : (setImr sock).fd = fd := (setImr_fd sock).trans hready.fd
    rw [rtpSocketOpenRecv, hcreate]
    dsimp only
    rw [if_neg (not_not_intro rfl), hlookup, ok_bind]
    dsimp only
    rw [hready.destAddr]
    by_cases hmulti : isMulticast (chosenAddr .doBindSocket ans) = 1
    · rw [if_pos hmulti, joinGroup_eq _ (hready.destAddr ▸ hmulti)]
      dsimp only
      by_cases hjoins : ans.joins = true
      · have hstanding : recvStanding ans = .owned := by
          rw [recvStanding, if_neg (fun h => h.2.2 hjoins), hreached]
        rw [if_pos hjoins, hstanding]
        dsimp only
        rw [if_neg (not_not_intro rfl)]
        refine ⟨_, _, _, rfl, .owned fd hfree hfd hheld ?_, ?_⟩
        · intro _
          rw [setImr_mreq_setImr, hfd, Int.toNat_natCast]
          exact List.mem_cons_self
        · exact hframe.trans (frame_attach _ _ _ _)
      · have hstanding : recvStanding ans = .spent := by
          rw [recvStanding, if_pos ⟨hreached, hmulti, hjoins⟩]
        have hj : (setImr sock).joinedGroup = false :=
          (setImr_joinedGroup sock).trans hready.joinedGroup
        obtain ⟨k', sock', hclose, hopened, hframe'⟩ := close_unjoined hk hfree hheld hframe hfd hj
        rw [if_neg hjoins, hstanding]
        dsimp only
        rw [if_pos (by decide), hclose]
        exact ⟨_, _, _, rfl, hopened, hframe'⟩
    · have hstanding : recvStanding ans = .owned := by
        rw [recvStanding, if_neg (fun h => hmulti h.2.1), hreached]
      rw [if_neg hmulti, hstanding]
      refine ⟨_, _, _, rfl, .owned fd hfree hready.fd hheld ?_, hframe⟩
      intro h
      rw [hready.joinedGroup] at h
      cases h
  · obtain ⟨r, k', sock, hcreate, hr, hopened, hframe⟩ :=
      createSocket_refused (i := i) hans hk hreached
    refine ⟨RTP_ERROR, k', sock, ?_, ?_, hframe⟩
    · rw [rtpSocketOpenRecv, hcreate]
      exact if_pos hr
    · rwa [recvStanding, if_neg (fun h => hreached h.1)]

/-- Without a name that can be read neither call returns. -/
theorem create_lookup_fault (hans : ans.Legal) (hk : Single k) (hasks : ¬ Asks flags ifname ans) :
    ∃ k' created, createSocket i flags ans k zeroed = (0, k', created) ∧
      lookupInterface ans created ifname = .error .bounds := by
  rw [Asks] at hasks
  push Not at hasks
  obtain ⟨hreached, hname⟩ := hasks
  obtain ⟨fd, k', hcreate, -⟩ := createSocket_owned (i := i) hans hk hreached
  exact ⟨k', _, hcreate, lookupInterface_fault hans hname⟩

theorem rtpSocketOpenSend_fault (hans : ans.Legal) (hk : Single k)
    (hasks : ¬ Asks .dontBindSocket ifname ans) :
    rtpSocketOpenSend i ifname ans k = .error .bounds := by
  obtain ⟨k', created, hcreate, hlookup⟩ := create_lookup_fault (i := i) hans hk hasks
  rw [rtpSocketOpenSend, hcreate]
  dsimp only
  rw [if_neg (not_not_intro rfl), hlookup]
  rfl

theorem rtpSocketOpenRecv_fault (hans : ans.Legal) (hk : Single k)
    (hasks : ¬ Asks .doBindSocket ifname ans) :
    rtpSocketOpenRecv i ifname ans k = .error .bounds := by
  obtain ⟨k', created, hcreate, hlookup⟩ := create_lookup_fault (i := i) hans hk hasks
  rw [rtpSocketOpenRecv, hcreate]
  dsimp only
  rw [if_neg (not_not_intro rfl), hlookup]
  rfl

end Open

end RtpSdr.Rtp.Socket
