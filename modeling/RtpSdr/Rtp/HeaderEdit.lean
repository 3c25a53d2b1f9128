import RtpSdr.Rtp.EntryList
import RtpSdr.Rtp.Header

/-!
# Setting up an RTP header

The functions of `rtp_header.c` that change a header. The contributing sources are kept
like the entries of an RTCP packet, with a count of four bits. Clearing an extension frees
it and leaves the pointer.
-/
namespace RtpSdr.Rtp.HeaderEdit

open RtpSdr.Lib.Checked
open RtpSdr.Lib.Memory
open RtpSdr.Rtp.Util
open RtpSdr.Rtp.Header
open RtpSdr.Rtp.EntryList

section Source

def rtpHeaderInit (header : RtpHeader) (pt : UInt8) (ssrc : UInt32) (seq : UInt16) (ts : UInt32) :
    RtpHeader :=
  { header with
    version := 2
    pt := BitVec.ofNat 7 (pt.toNat &&& 0x7f)
    ssrc := ssrc
    seq := seq
    ts := ts }

def rtpHeaderFindCsrc (header : RtpHeader) (csrc : UInt32) : Exec (Option Nat) :=
  find header.csrc header.cc.toNat (· == csrc)

/-- The result and the header afterwards. -/
def rtpHeaderAddCsrc (header : RtpHeader) (csrc : UInt32) : Exec (Int × RtpHeader) := do
  let added ← addEntry header.cc header.csrc 0 (· == csrc) csrc
  match added with
  | none => .ok (RTP_ERROR, header)
  | some (cc, list) => .ok (RTP_OK, { header with cc := cc, csrc := .obj list })

/-- `behind` are the words that the move may read behind the array. -/
def rtpHeaderRemoveCsrc (header : RtpHeader) (csrc : UInt32) (behind : List UInt32) :
    Exec RtpHeader := do
  let found ← rtpHeaderFindCsrc header csrc
  match found with
  | none => .ok header
  | some index => do
    let (cc, list) ← removeEntry header.cc header.csrc behind 0 index
    .ok { header with cc := cc, csrc := list }

/-- The result and the header afterwards. -/
def rtpHeaderSetExt (header : RtpHeader) (id : UInt16) (data : List UInt32) (count : UInt16) :
    Exec (Int × RtpHeader) :=
  if header.extData.isSet then .ok (RTP_ERROR, header)
  else do
    let words ← slice data 0 count.toNat
    .ok (RTP_OK, { header with extId := id, extCount := count, extData := .obj words })

def rtpHeaderClearExt (header : RtpHeader) : Exec RtpHeader :=
  if header.extData.isSet then do
    let extData ← free header.extData
    .ok { header with extId := 0, extCount := 0, extData := extData }
  else .ok header

end Source

variable {header : RtpHeader} {buffer : List UInt8} {size : Nat}

/-- Without an extension the loop over its words is not entered. -/
theorem rtpHeaderSerialize_fuel (h : header.x = 0) (fuel fuel' : Nat) (buffer : List UInt8)
    (size : Nat) :
    rtpHeaderSerialize fuel header buffer size = rtpHeaderSerialize fuel' header buffer size := by
  have hext (n : Nat) (b : List UInt8) : serializeExt n header b = .ok b := by
    rw [serializeExt, h]
    rfl
  simp only [rtpHeaderSerialize, hext]

end RtpSdr.Rtp.HeaderEdit
