import RtpSdr.Rtp.Sdes

/-!
# Application packets: `rtcp_app.c`

Two words and a block of data that the application gives a meaning. The serializer
clears the whole packet before it writes, so the bytes behind the data are zero.
-/
namespace RtpSdr.Rtp.App

open RtpSdr.Lib.Checked
open RtpSdr.Lib.Memory
open RtpSdr.Lib.BigEndian
open RtpSdr.Rtp.Util
open RtpSdr.Rtp.RtcpHeader
open RtpSdr.Rtp.Sdes (roundUp roundUp_spec roundUp_sizeAdd)

def RTCP_APP : UInt8 := 204

/-- `rtcp_app`. The header's count is the subtype. -/
structure RtcpApp where
  header : RtcpHeaderT
  ssrc : UInt32
  name : UInt32
  appSize : Nat
  appData : Ptr (List UInt8)

section Source

def rtcpAppCreate : RtcpApp := ⟨⟨0, 0, 0, 0, 0⟩, 0, 0, 0, .null⟩

def rtcpAppInit (packet : RtcpApp) (subtype : UInt8) : RtcpApp :=
  { packet with header := { packet.header with
      version := 2, count := BitVec.ofNat 5 (subtype &&& 0x1f).toNat
      pt := RTCP_APP, length := 2 } }

def rtcpAppSize (packet : RtcpApp) : Nat :=
  let size := 12
  if packet.appData.isSet && decide (packet.appSize ≠ 0) then
    let size := sizeAdd size packet.appSize
    if size % 4 ≠ 0 then sizeAdd size (4 - size % 4) else size
  else size

/-- The result and the buffer afterwards. -/
def rtcpAppSerialize (packet : RtcpApp) (buffer : List UInt8) (size : Nat) :
    Exec (Int × List UInt8) :=
  if size < rtcpAppSize packet then .ok (RTCP_ERROR, buffer)
  else do
    let buffer ← blit buffer 0 (List.replicate (rtcpAppSize packet) 0)
    let (r, buffer) ← rtcpHeaderSerialize packet.header buffer size
    if r < 0 then .ok (RTCP_ERROR, buffer)
    else do
      let buffer ← writeU32 buffer 4 packet.ssrc
      let buffer ← writeU32 buffer 8 packet.name
      if packet.appData.isSet then do
        let data ← packet.appData.read packet.appSize
        let buffer ← blit buffer 12 data
        .ok (castInt (rtcpAppSize packet), buffer)
      else .ok (castInt (rtcpAppSize packet), buffer)

/-- The end of the parser: data, if the header's length leaves any. -/
def parseData (packet : RtcpApp) (buffer : List UInt8) : Exec (Int × RtcpApp) :=
  let length := (packet.header.length.toNat + 1) * 4
  if length > 12 then do
    let appSize := sizeSub length 12
    let data ← slice buffer 12 appSize
    .ok (RTCP_OK, { packet with appSize := appSize, appData := .obj data })
  else .ok (RTCP_OK, packet)

/-- The result and the packet afterwards. -/
def rtcpAppParse (packet : RtcpApp) (buffer : List UInt8) (size : Nat) : Exec (Int × RtcpApp) := do
  let (pt, header) ← rtcpHeaderParse packet.header buffer size
  let packet := { packet with header := header }
  if pt ≠ RTCP_APP.toNat then .ok (RTCP_ERROR, packet)
  else do
    let ssrc ← readU32 buffer 4
    let name ← readU32 buffer 8
    parseData { packet with ssrc := ssrc, name := name } buffer

def withLength (packet : RtcpApp) (length : UInt16) : RtcpApp :=
  { packet with header := { packet.header with length := length } }

/-- The update of the header length. -/
def updateLength (packet : RtcpApp) : RtcpApp :=
  withLength packet (UInt16.ofNat (sizeSub (rtcpAppSize packet / 4) 1))

/-- The result and the packet afterwards. -/
def rtcpAppSetData (packet : RtcpApp) (data : List UInt8) : Int × RtcpApp :=
  if packet.appData.isSet then (-1, packet)
  else (RTCP_OK, updateLength { packet with appSize := data.length, appData := .obj data })

def rtcpAppClearData (packet : RtcpApp) : RtcpApp :=
  updateLength (if packet.appData.isSet then { packet with appData := .null, appSize := 0 }
    else packet)

end Source

section WithLength

variable (packet : RtcpApp) (length : UInt16)

@[simp] theorem withLength_version :
    (withLength packet length).header.version = packet.header.version := rfl

@[simp] theorem withLength_pt : (withLength packet length).header.pt = packet.header.pt := rfl

@[simp] theorem withLength_length : (withLength packet length).header.length = length := rfl

@[simp] theorem withLength_ssrc : (withLength packet length).ssrc = packet.ssrc := rfl

@[simp] theorem withLength_name : (withLength packet length).name = packet.name := rfl

@[simp] theorem withLength_appSize : (withLength packet length).appSize = packet.appSize := rfl

@[simp] theorem withLength_appData : (withLength packet length).appData = packet.appData := rfl

end WithLength

/-! ## The content of a packet -/

/-- What a packet carries. -/
structure Content where
  ssrc : UInt32
  name : UInt32
  data : Option (List UInt8)

/-- The bytes of the data. -/
def Content.bytes (c : Content) : List UInt8 := c.data.getD []

def Content.size (c : Content) : Nat := roundUp (12 + c.bytes.length)

/-- The packet structure holds the content. -/
structure Holds (packet : RtcpApp) (c : Content) : Prop where
  ssrc : packet.ssrc = c.ssrc
  name : packet.name = c.name
  appSize : packet.appSize = c.bytes.length
  appData : packet.appData = Ptr.ofOption c.data

variable {packet : RtcpApp} {c : Content}

theorem rtcpAppSize_ok (h : Holds packet c) (hlt : c.size < 2 ^ 64) :
    rtcpAppSize packet = c.size := by
  have hset : c.bytes.length ≠ 0 → (Ptr.ofOption c.data).isSet = true := by
    rw [Ptr.isSet_ofOption]
    intro hne
    cases hdata : c.data with
    | none => exact absurd (by rw [Content.bytes, hdata]; rfl) hne
    | some data => rfl
  rw [rtcpAppSize, h.appSize, h.appData]
  exact roundUp_sizeAdd rfl hset hlt

/-- The header length has no part in the content. -/
theorem holds_withLength (h : Holds packet c) (length : UInt16) :
    Holds (withLength packet length) c := by
  constructor
  · rw [withLength_ssrc]
    exact h.ssrc
  · rw [withLength_name]
    exact h.name
  · rw [withLength_appSize]
    exact h.appSize
  · rw [withLength_appData]
    exact h.appData

/-! ## Histories -/

/-- A call on a packet, or an assignment to its fields. -/
inductive Op where
  | setData (data : List UInt8)
  | clearData
  | assign (ssrc name : UInt32)

/-- The packet after a call, whatever the call returned. -/
def perform (packet : RtcpApp) : Op → Exec RtcpApp
  | .setData data => .ok (rtcpAppSetData packet data).2
  | .clearData => .ok (rtcpAppClearData packet)
  | .assign ssrc name => .ok { packet with ssrc := ssrc, name := name }

def Content.start : Content := ⟨0, 0, none⟩

/-- Data is refused where there is some. -/
def step (c : Content) : Op → Content
  | .setData data => if c.data.isSome then c else { c with data := some data }
  | .clearData => { c with data := none }
  | .assign ssrc name => { c with ssrc := ssrc, name := name }

/-- The packet holds the content and has the header that belongs to it. -/
structure Built (packet : RtcpApp) (c : Content) : Prop extends Holds packet c where
  version : packet.header.version = 2
  pt : packet.header.pt = RTCP_APP
  length : packet.header.length = UInt16.ofNat (sizeSub (rtcpAppSize packet / 4) 1)

theorem built_init (subtype : UInt8) :
    Built (rtcpAppInit rtcpAppCreate subtype) Content.start := by
  have hsize : rtcpAppSize (rtcpAppInit rtcpAppCreate subtype) = 12 := rfl
  refine ⟨⟨rfl, rfl, rfl, rfl⟩, rfl, rfl, ?_⟩
  rw [hsize, sizeSub_of_le (by omega) (by omega)]
  rfl

theorem size_withLength (packet : RtcpApp) (length : UInt16) :
    rtcpAppSize (withLength packet length) = rtcpAppSize packet := rfl

/-- The update ends every call that changes the data. -/
theorem updateLength_built (h : Holds packet c) (hversion : packet.header.version = 2)
    (hpt : packet.header.pt = RTCP_APP) : Built (updateLength packet) c := by
  rw [updateLength]
  constructor
  · exact holds_withLength h _
  · rwa [withLength_version]
  · rwa [withLength_pt]
  · rw [withLength_length, size_withLength]

theorem perform_built (hb : Built packet c) (op : Op) :
    ∃ packet', perform packet op = .ok packet' ∧ Built packet' (step c op) := by
  have hset : packet.appData.isSet = c.data.isSome := by rw [hb.appData, Ptr.isSet_ofOption]
  cases op with
  | setData data =>
    refine ⟨_, rfl, ?_⟩
    rw [rtcpAppSetData, step, hset]
    cases hdata : c.data.isSome with
    | true =>
      rw [if_pos rfl, if_pos rfl]
      exact hb
    | false =>
      rw [if_neg (by decide), if_neg (by decide)]
      exact updateLength_built ⟨hb.ssrc, hb.name, rfl, rfl⟩ hb.version hb.pt
  | clearData =>
    refine ⟨_, rfl, ?_⟩
    rw [rtcpAppClearData, step, hset]
    cases hdata : c.data with
    | none =>
      have hsize := hb.appSize
      have hnull := hb.appData
      rw [Content.bytes, hdata] at hsize
      rw [hdata] at hnull
      rw [if_neg (by decide)]
      exact updateLength_built ⟨hb.ssrc, hb.name, hsize, hnull⟩ hb.version hb.pt
    | some data =>
      rw [if_pos Option.isSome_some]
      exact updateLength_built ⟨hb.ssrc, hb.name, rfl, rfl⟩ hb.version hb.pt
  | assign ssrc name =>
    exact ⟨_, rfl, ⟨rfl, rfl, hb.appSize, hb.appData⟩, hb.version, hb.pt, hb.length⟩

end RtpSdr.Rtp.App
