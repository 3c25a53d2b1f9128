import RtpSdr.Rtp.HeaderEdit

/-!
# The life of a header extension

What `rtp_header_set_ext` and `rtp_header_clear_ext` stand for is an extension that is
there or not. The first leaves the flag that the serializer looks at alone, the second
leaves a pointer to what it frees.
-/
namespace RtpSdr.Rtp.ExtLifecycle

open RtpSdr.Lib.Checked
open RtpSdr.Lib.Memory
open RtpSdr.Rtp.Util
open RtpSdr.Rtp.Header
open RtpSdr.Rtp.HeaderEdit

/-- The words of an extension: at least one, and no more than a count of sixteen bits says. -/
structure Words where
  words : List UInt32
  pos : 0 < words.length
  fits : words.length < 65536

def Words.count (data : Words) : UInt16 := UInt16.ofNat data.words.length

theorem Words.toNat_count (data : Words) : data.count.toNat = data.words.length :=
  (UInt16.toNat_ofNat' ..).trans (Nat.mod_eq_of_lt data.fits)

inductive Call where
  | setExt (id : UInt16) (data : Words)
  | clearExt

/-- What the call returns, if anything, and the header afterwards. -/
def call (header : RtpHeader) : Call → Exec (Option Int × RtpHeader)
  | .setExt id data => do
    let (r, header) ← rtpHeaderSetExt header id data.words data.count
    .ok (some r, header)
  | .clearExt => do
    let header ← rtpHeaderClearExt header
    .ok (none, header)

/-- What a call returns where an extension is there or not, and the extension afterwards. -/
def spec (current : Option (UInt16 × List UInt32)) :
    Call → Option Int × Option (UInt16 × List UInt32)
  | .setExt id data =>
    if current.isSome then (some RTP_ERROR, current) else (some RTP_OK, some (id, data.words))
  | .clearExt => (none, none)

/-- The header that is to be written: its fixed fields and the extension. -/
def shown (header : RtpHeader) (current : Option (UInt16 × List UInt32)) : Content :=
  ⟨header.m, header.pt, header.seq, header.ts, header.ssrc, [], current⟩

/-- The size counts the extension if there is one, and the serializer writes its flag, its
identifier, its count and its words into every buffer with room, and none if there is none. -/
def Shows (header : RtpHeader) (current : Option (UInt16 × List UInt32)) : Prop :=
  rtpHeaderSize header = (shown header current).size ∧
    ∀ buffer size, rtpHeaderSize header ≤ size → size ≤ buffer.length →
      ∃ fuel, rtpHeaderSerialize fuel header buffer size = .ok (rtpHeaderSize header,
        encode (shown header current) ++ buffer.drop (rtpHeaderSize header))

/-- A header without lists, its flag for an extension not set. -/
structure Plain (header : RtpHeader) : Prop where
  version : header.version = 2
  p : header.p = 0
  x : header.x = 0
  cc : header.cc = 0

variable {header header' : RtpHeader} {current : Option (UInt16 × List UInt32)}

theorem plain_init (pt : UInt8) (ssrc : UInt32) (seq : UInt16) (ts : UInt32) :
    Plain (rtpHeaderInit rtpHeaderCreate pt ssrc seq ts) := ⟨rfl, rfl, rfl, rfl⟩

theorem Plain.holds (h : Plain header) : Holds header (shown header none) := by
  constructor
  · exact h.version
  · exact h.p
  · rfl
  · rfl
  · rfl
  · rfl
  · rfl
  · rw [h.cc]
    rfl
  · exact fun hne => absurd rfl hne
  · exact fun _ => h.x
  · intro _ _ hsome
    cases hsome

/-- Without the flag no extension is written, whatever the other fields say. -/
theorem Plain.shows (h : Plain header) : Shows header none := by
  have hsize := h.holds.size_eq
  have hle := h.holds.size_le
  have hwords : ∀ id ws, (shown header none).ext = some (id, ws) → ws.length ≤ 255 := by
    intro _ _ hsome
    cases hsome
  refine ⟨hsize, fun buffer size hroom hbuffer => ⟨256, ?_⟩⟩
  rw [hsize] at hroom ⊢
  rw [rtpHeaderSerialize_ok h.holds hwords buffer hroom (Nat.le_trans hroom hbuffer),
    castInt_of_lt (by omega)]

/-- With an extension the size would be larger. -/
theorem Plain.not_shows (h : Plain header) (id : UInt16) (ws : List UInt32) :
    ¬ Shows header (some (id, ws)) := by
  intro hshows
  have hsize := hshows.1
  rw [h.holds.size_eq, Content.size, Content.size, shown, shown, length_extBytes_some] at hsize
  simp only [extBytes, List.length_nil] at hsize
  omega

/-! ## The calls -/

theorem setExt_new (hnull : header.extData = .null) (id : UInt16) (data : Words) :
    call header (.setExt id data) = .ok (some RTP_OK,
      { header with extId := id, extCount := data.count, extData := .obj data.words }) := by
  have hslice : slice data.words 0 data.count.toNat = .ok data.words := by
    rw [data.toNat_count]
    exact slice_self data.words
  rw [call, rtpHeaderSetExt, hnull, if_neg (by decide), bind_of_ok hslice]
  rfl

theorem setExt_refused (hset : header.extData.isSet = true) (id : UInt16) (data : Words) :
    call header (.setExt id data) = .ok (some RTP_ERROR, header) := by
  rw [call, rtpHeaderSetExt, if_pos hset]
  rfl

theorem clearExt_none (hnull : header.extData = .null) :
    call header .clearExt = .ok (none, header) := by
  rw [call, rtpHeaderClearExt, hnull, if_neg (by decide)]
  rfl

theorem clearExt_some {ws : List UInt32} (hdata : header.extData = .obj ws) :
    call header .clearExt
      = .ok (none, { header with extId := 0, extCount := 0, extData := .freed }) := by
  rw [call, rtpHeaderClearExt, hdata, if_pos (by rfl)]
  rfl

/-- What was freed is freed again. -/
theorem clearExt_freed (hdata : header.extData = .freed) :
    call header .clearExt = .error .pointer := by
  rw [call, rtpHeaderClearExt, hdata, if_pos (by rfl)]
  rfl

/-! ## What the calls return -/

/-- No call follows one that clears an extension. -/
def ClearedLast : Bool → List Call → Prop
  | _, [] => True
  | _, .setExt _ _ :: calls => ClearedLast true calls
  | false, .clearExt :: calls => ClearedLast false calls
  | true, .clearExt :: calls => calls = []

/-- Every call returns what it should. -/
def Returns (header : RtpHeader) (current : Option (UInt16 × List UInt32)) (calls : List Call) :
    Prop :=
  Conforms call spec (fun _ _ => True) header current calls

/-- After an extension was cleared a new one is refused, and clearing it is an error. -/
theorem returns_freed (hdata : header.extData = .freed) (calls : List Call) :
    Returns header none calls ↔ calls = [] := by
  cases calls with
  | nil => exact ⟨fun _ => rfl, fun _ => trivial⟩
  | cons c calls =>
    constructor
    · intro h
      obtain ⟨-, t, hcall, -⟩ := h
      cases c with
      | setExt id data =>
        rw [setExt_refused (by rw [hdata]; rfl)] at hcall
        cases hcall
      | clearExt =>
        rw [clearExt_freed hdata] at hcall
        cases hcall
    · intro h
      cases h

theorem returns_some {ws : List UInt32} (hdata : header.extData = .obj ws)
    (hsome : current.isSome = true) (calls : List Call) :
    Returns header current calls ↔ ClearedLast true calls := by
  induction calls with
  | nil => exact ⟨fun _ => trivial, fun _ => trivial⟩
  | cons c calls ih =>
    cases c with
    | setExt id data =>
      have hspec : spec current (.setExt id data) = (some RTP_ERROR, current) := by
        rw [spec, if_pos hsome]
      have hcall : call header (.setExt id data)
          = .ok ((spec current (.setExt id data)).1, header) := by
        rw [hspec]
        exact setExt_refused (by rw [hdata]; rfl) id data
      rw [Returns, conforms_cons hcall, hspec, ClearedLast, ← ih, Returns, true_and]
    | clearExt =>
      have hcall : call header .clearExt = .ok ((spec current .clearExt).1, _) :=
        clearExt_some hdata
      rw [Returns, conforms_cons hcall, ClearedLast, true_and]
      exact returns_freed rfl calls

/-- The calls on a header without an extension return what they should exactly if none of them
follows one that clears an extension. -/
theorem returns_iff (hnull : header.extData = .null) (calls : List Call) :
    Returns header none calls ↔ ClearedLast false calls := by
  induction calls with
  | nil => exact ⟨fun _ => trivial, fun _ => trivial⟩
  | cons c calls ih =>
    cases c with
    | setExt id data =>
      have hcall : call header (.setExt id data) = .ok ((spec none (.setExt id data)).1, _) :=
        setExt_new hnull id data
      rw [Returns, conforms_cons hcall, ClearedLast, true_and]
      exact returns_some rfl rfl calls
    | clearExt =>
      have hcall : call header .clearExt = .ok ((spec none .clearExt).1, header) :=
        clearExt_none hnull
      rw [Returns, conforms_cons hcall, ClearedLast, ← ih, Returns, true_and]
      rfl

/-! ## The whole life -/

/-- No call sets an extension. -/
def OnlyClears (calls : List Call) : Prop := ∀ c ∈ calls, c = .clearExt

theorem conforms_iff_onlyClears (h : Plain header) (hnull : header.extData = .null)
    (calls : List Call) :
    Conforms call spec Shows header none calls ↔ OnlyClears calls := by
  induction calls with
  | nil => exact ⟨fun _ _ hin => (by cases hin), fun _ => h.shows⟩
  | cons c calls ih =>
    cases c with
    | setExt id data =>
      have hcall : call header (.setExt id data) = .ok ((spec none (.setExt id data)).1, _) :=
        setExt_new hnull id data
      constructor
      · intro hlife
        have hshows := ((conforms_cons hcall _).mp hlife).2.head
        have hplain : Plain { header with
            extId := id, extCount := data.count, extData := .obj data.words } :=
          ⟨h.version, h.p, h.x, h.cc⟩
        exact absurd hshows (hplain.not_shows id data.words)
      · intro hclears
        have hfirst := hclears _ List.mem_cons_self
        cases hfirst
    | clearExt =>
      have hcall : call header .clearExt = .ok ((spec none .clearExt).1, header) :=
        clearExt_none hnull
      rw [conforms_cons hcall, OnlyClears, List.forall_mem_cons, ← OnlyClears]
      constructor
      · exact fun hlife => ⟨rfl, ih.mp hlife.2⟩
      · exact fun hclears => ⟨h.shows, ih.mpr hclears.2⟩

/-- A run on an initialised header returns what it should and shows the extension that is set
exactly if it sets none. -/
theorem lifecycle_iff (pt : UInt8) (ssrc : UInt32) (seq : UInt16) (ts : UInt32)
    (calls : List Call) :
    Conforms call spec Shows (rtpHeaderInit rtpHeaderCreate pt ssrc seq ts) none calls
      ↔ OnlyClears calls :=
  conforms_iff_onlyClears (plain_init pt ssrc seq ts) rfl calls

def oneWord : Words := ⟨[7], by decide, by decide⟩

/-- An extension of one word is set, cleared and set again: the header that has it is still of
twelve bytes, and the last call returns `RTP_ERROR` where it should return `RTP_OK`. -/
theorem lifecycle_fails : ∃ extended cleared,
    call (rtpHeaderInit rtpHeaderCreate 96 1 2 3) (.setExt 1 oneWord)
      = .ok (some RTP_OK, extended) ∧
    rtpHeaderSize extended = 12 ∧
    call extended .clearExt = .ok (none, cleared) ∧
    call cleared (.setExt 1 oneWord) = .ok (some RTP_ERROR, cleared) ∧
    (spec none (.setExt 1 oneWord)).1 = some RTP_OK ∧
    ¬ Conforms call spec Shows (rtpHeaderInit rtpHeaderCreate 96 1 2 3) none
      [.setExt 1 oneWord, .clearExt, .setExt 1 oneWord] := by
  refine ⟨_, _, rfl, rfl, rfl, rfl, rfl, fun hlife => ?_⟩
  have hclears := (conforms_iff_onlyClears (plain_init 96 1 2 3) rfl _).mp hlife
  have hfirst := hclears _ List.mem_cons_self
  cases hfirst

end RtpSdr.Rtp.ExtLifecycle
