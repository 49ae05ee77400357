import MicrostructureEngine.Core.Event
import MicrostructureEngine.Persist.Boundary

/-!
# The segment reader

`WalReader`: forward-only, read-only, one frame a call. The boundary is resolved once, when
the segment is opened: from the sidecar, cut down to what the file holds, or the size of the
file. Both `next` and `next_raw` read a frame by the same text, here `readFrame`, and differ
in the payload sizes that they accept.
-/

namespace MicrostructureEngine

set_option autoImplicit false

/-- A segment on disk: the `.wal` file and, if there is one, its `.meta` sidecar. -/
structure SegmentFile where
  bytes : List UInt8
  sidecar : Option (List UInt8) := none
  deriving DecidableEq

namespace SegmentFile

/-- The two slots, when the sidecar is long enough to hold them. -/
def metadata (f : SegmentFile) : Option (List UInt8) :=
  f.sidecar.bind fun bs => if bs.length < 2 * boundarySlotSize then none else some (bs.take (2 * boundarySlotSize))

def selected (f : SegmentFile) : Option (Nat × Nat) := f.metadata.bind selectSlot

def header (f : SegmentFile) : List UInt8 := f.bytes.take walHeaderSize

/-- Everything after the header. -/
def data (f : SegmentFile) : List UInt8 := f.bytes.drop walHeaderSize

end SegmentFile

inductive ReadStatus where
  | ok
  | notOpen
  | boundaryReached
  | zeroFill
  | incompletePrefix
  | badLength
  | frameExceedsBoundary
  | incompletePayload
  | crcMismatch
  | unexpectedPayloadSize
  deriving DecidableEq, Repr, Inhabited

def isCleanStop (status : ReadStatus) : Bool := status == .boundaryReached || status == .zeroFill

structure ReadStats where
  framesRead : Nat := 0
  bytesRead : Nat := 0
  crcFailures : Nat := 0
  sequenceGaps : Nat := 0
  lostSequences : Nat := 0
  firstSeq : Nat := 0
  lastSeq : Nat := 0
  firstTsLocalNs : Nat := 0
  lastTsLocalNs : Nat := 0
  deriving DecidableEq, Repr

/-- `stream` is what the file stream has not delivered yet. -/
structure WalReader where
  stream : List UInt8 := []
  stats : ReadStats := {}
  boundary : Nat := 0
  position : Nat := 0
  expectedSeq : Nat := 0
  boundaryFromMeta : Bool := false
  haveSeq : Bool := false
  isOpen : Bool := false

namespace WalReader

/-- `resolve_boundary`: the boundary, and whether it comes from the sidecar. -/
def resolveBoundary (f : SegmentFile) : Nat × Bool :=
  match f.selected with
  | none => (f.data.length, false)
  | some s => (min s.2 f.data.length, true)

/-- `open`; `none` stands for a file that does not exist. A reader that cannot open stays
closed. -/
def openFile (file : Option SegmentFile) : Bool × WalReader :=
  match file with
  | none => (false, {})
  | some f =>
    if f.bytes.length < walHeaderSize then (false, {})
    else if !validHeader f.header then (false, {})
    else
      (true, {
        stream := f.data
        boundary := (resolveBoundary f).1
        boundaryFromMeta := (resolveBoundary f).2
        isOpen := true })

/-- `stream_->read`: fewer bytes than asked for only at the end of the file. -/
def readStream (r : WalReader) (size : Nat) : List UInt8 × WalReader :=
  (r.stream.take size, { r with stream := r.stream.drop size })

def move (r : WalReader) (size : Nat) : WalReader := { r with position := r.position + size }

def countCrcFailure (r : WalReader) : WalReader :=
  { r with stats := { r.stats with crcFailures := r.stats.crcFailures + 1 } }

/-- The part of `next` and `next_raw` up to the checksum: the status, the payload of an
intact frame and the reader after the call. -/
def readFrame (r : WalReader) : ReadStatus × List UInt8 × WalReader :=
  if !r.isOpen then (.notOpen, [], r)
  else
    let remaining := r.boundary - min r.position r.boundary
    if remaining = 0 then (.boundaryReached, [], r)
    else if remaining < framePrefixSize then (.incompletePrefix, [], r)
    else
      let head := r.readStream framePrefixSize
      if head.1.length ≠ framePrefixSize then (.incompletePrefix, [], head.2)
      else
        let r := head.2.move framePrefixSize
        let p := FramePrefix.ofImage head.1
        -- preallocated space, not a corrupt frame
        if p = ⟨0, 0, 0⟩ then (.zeroFill, [], r)
        else if !validPayloadLength p.payloadLength then (.badLength, [], r)
        else if frameSize p.payloadLength > remaining then (.frameExceedsBoundary, [], r)
        else
          let tail := r.readStream (p.payloadLength + frameCrcSize)
          if tail.1.length ≠ p.payloadLength + frameCrcSize then (.incompletePayload, [], tail.2)
          else
            let r := tail.2.move (p.payloadLength + frameCrcSize)
            let payload := tail.1.take p.payloadLength
            if (crc32 (head.1 ++ payload) 0).toNat ≠ LittleEndian.decode (tail.1.drop p.payloadLength) then
              (.crcMismatch, [], r.countCrcFailure)
            else (.ok, payload, r)

/-- Sequence continuity within the segment, and the counters of a delivered event. -/
def countEvent (r : WalReader) (e : FixedEvent) : WalReader :=
  let gap := r.haveSeq && e.seqGlobal != r.expectedSeq
  { r with
    stats := { r.stats with
      framesRead := r.stats.framesRead + 1
      bytesRead := r.stats.bytesRead + frameSize e.image.length
      sequenceGaps := if gap then r.stats.sequenceGaps + 1 else r.stats.sequenceGaps
      lostSequences :=
        if gap && decide (e.seqGlobal > r.expectedSeq) then
          (r.stats.lostSequences + (e.seqGlobal - r.expectedSeq)) % 2 ^ 64
        else r.stats.lostSequences
      firstSeq := if r.haveSeq then r.stats.firstSeq else e.seqGlobal
      firstTsLocalNs := if r.haveSeq then r.stats.firstTsLocalNs else e.tsLocalNs
      lastSeq := e.seqGlobal
      lastTsLocalNs := e.tsLocalNs }
    haveSeq := true
    expectedSeq := (e.seqGlobal + 1) % 2 ^ 64 }

def next (r : WalReader) : ReadStatus × Option FixedEvent × WalReader :=
  let a := r.readFrame
  if a.1 ≠ .ok then (a.1, none, a.2.2)
  else if h : a.2.1.length = fixedEventPayloadSize then
    (.ok, some ⟨a.2.1, h⟩, a.2.2.countEvent ⟨a.2.1, h⟩)
  else (.unexpectedPayloadSize, none, a.2.2)

def countFrame (r : WalReader) (payloadLength : Nat) : WalReader :=
  { r with stats := { r.stats with
    framesRead := r.stats.framesRead + 1
    bytesRead := r.stats.bytesRead + frameSize payloadLength } }

def nextRaw (r : WalReader) (outCapacity : Nat) : ReadStatus × Option (List UInt8) × WalReader :=
  let a := r.readFrame
  if a.1 ≠ .ok then (a.1, none, a.2.2)
  else if a.2.1.length > outCapacity then (.unexpectedPayloadSize, none, a.2.2)
  else (.ok, some a.2.1, a.2.2.countFrame a.2.1.length)

end WalReader

/-! ## What stands at the head of the unread region -/

/-- The status of a read at the head of `region`, and the number of bytes it passes. -/
def headStatus (region : List UInt8) : ReadStatus × Nat :=
  let p := FramePrefix.ofImage (region.take framePrefixSize)
  if region = [] then (.boundaryReached, 0)
  else if region.length < framePrefixSize then (.incompletePrefix, 0)
  else if p = ⟨0, 0, 0⟩ then (.zeroFill, framePrefixSize)
  else if !validPayloadLength p.payloadLength then (.badLength, framePrefixSize)
  else if region.length < frameSize p.payloadLength then (.frameExceedsBoundary, framePrefixSize)
  else if (crc32 (region.take (framePrefixSize + p.payloadLength)) 0).toNat ≠
      LittleEndian.decode (slice (framePrefixSize + p.payloadLength) frameCrcSize region) then
    (.crcMismatch, frameSize p.payloadLength)
  else (.ok, frameSize p.payloadLength)

theorem headStatus_encode (f : Frame) (rest : List UInt8) : headStatus (f.encode ++ rest) = (.ok, f.size) := by
  have hlength : f.framePrefix.payloadLength = f.payload.length := rfl
  have hsize : frameSize f.payload.length ≤ (f.encode ++ rest).length := size_le_length f rest
  have hpos := (validPayloadLength_iff.mp f.valid).1
  have hprefix : framePrefixSize ≤ (f.encode ++ rest).length := by
    unfold frameSize at hsize
    omega
  have hne : f.encode ++ rest ≠ [] := by
    intro hnil
    rw [hnil] at hprefix
    cases hprefix
  have hzero : f.framePrefix ≠ ⟨0, 0, 0⟩ := by
    intro heq
    rw [heq] at hlength
    rw [← hlength] at hpos
    cases hpos
  have hbad : ¬ (!validPayloadLength f.payload.length) = true := by
    rw [f.valid]
    exact Bool.false_ne_true
  have hcrc := (checksum_eq_iff (length_checksum f.covered)).mp rfl
  unfold headStatus
  simp only [ofImage_encode, hlength, take_covered_encode, slice_checksum]
  rw [if_neg hne, if_neg (Nat.not_lt.mpr hprefix), if_neg hzero, if_neg hbad,
    if_neg (Nat.not_lt.mpr hsize), if_neg (not_not.mpr hcrc)]
  rfl

/-- A prefix with a length out of range is passed alone. -/
theorem headStatus_badLength {p : FramePrefix} (hlength : p.payloadLength < 256 ^ 4) (htype : p.type < 256 ^ 2)
    (hflags : p.flags < 256 ^ 2) (hzero : p ≠ ⟨0, 0, 0⟩) (hbad : validPayloadLength p.payloadLength = false)
    (rest : List UInt8) : headStatus (p.image ++ rest) = (.badLength, framePrefixSize) := by
  have hsize := p.length_image
  have hfull : framePrefixSize ≤ (p.image ++ rest).length := by
    rw [List.length_append, hsize]
    exact Nat.le_add_right _ _
  have hne : p.image ++ rest ≠ [] := by
    intro hnil
    rw [hnil] at hfull
    cases hfull
  unfold headStatus
  rw [List.take_left' hsize, FramePrefix.ofImage_image hlength htype hflags]
  dsimp only
  rw [if_neg hne, if_neg (Nat.not_lt.mpr hfull), if_neg hzero, hbad]
  rfl

theorem headStatus_zeroFill (rest : List UInt8) :
    headStatus ((FramePrefix.mk 0 0 0).image ++ rest) = (.zeroFill, framePrefixSize) := by
  have hsize := (FramePrefix.mk 0 0 0).length_image
  have hfull : framePrefixSize ≤ ((FramePrefix.mk 0 0 0).image ++ rest).length := by
    rw [List.length_append, hsize]
    exact Nat.le_add_right _ _
  have hne : (FramePrefix.mk 0 0 0).image ++ rest ≠ [] := by
    intro hnil
    rw [hnil] at hfull
    cases hfull
  unfold headStatus
  rw [List.take_left' hsize, FramePrefix.ofImage_image (Nat.pow_pos (by omega)) (Nat.pow_pos (by omega))
    (Nat.pow_pos (by omega))]
  dsimp only
  rw [if_neg hne, if_neg (Nat.not_lt.mpr hfull), if_pos rfl]

/-- A read delivers exactly what `headFrame` finds. -/
theorem headStatus_cases (region : List UInt8) :
    (∃ (f : Frame) (rest : List UInt8), region = f.encode ++ rest ∧ headStatus region = (.ok, f.size)) ∨
      (headFrame region = none ∧ (headStatus region).1 ≠ .ok) := by
  cases hhead : headFrame region with
  | some p =>
    have heq := encode_of_headFrame hhead
    rw [heq]
    exact .inl ⟨p.1, p.2, rfl, headStatus_encode p.1 p.2⟩
  | none =>
    refine .inr ⟨rfl, ?_⟩
    intro hok
    unfold headStatus at hok
    unfold headFrame at hhead
    generalize FramePrefix.ofImage (region.take framePrefixSize) = p at hok hhead
    dsimp only at hok hhead
    split_ifs at hok with hnil hshort hzero hbad hover hcrc
    have hsize : framePrefixSize + p.payloadLength + frameCrcSize ≤ region.length := Nat.not_lt.mp hover
    have hpayload : (slice framePrefixSize p.payloadLength region).length = p.payloadLength := by
      unfold slice
      rw [List.length_take, List.length_drop]
      omega
    have hvalid : validPayloadLength (slice framePrefixSize p.payloadLength region).length = true := by
      rw [hpayload]
      simpa using hbad
    rw [dif_pos hvalid, if_pos ⟨hsize, not_not.mp hcrc⟩] at hhead
    cases hhead

/-! ## Reading a region -/

namespace WalReader

/-- An open reader with `region` ahead of it up to the boundary, and `beyond` behind that. -/
structure At (r : WalReader) (region beyond : List UInt8) : Prop where
  isOpen : r.isOpen = true
  stream : r.stream = region ++ beyond
  boundary : r.boundary = r.position + region.length

/-- The reader after it passed `n` bytes. -/
def advance (r : WalReader) (n : Nat) : WalReader :=
  { r with stream := r.stream.drop n, position := r.position + n }

theorem At.advance {r : WalReader} {region beyond : List UInt8} (h : r.At region beyond) {n : Nat}
    (hn : n ≤ region.length) : (r.advance n).At (region.drop n) beyond := by
  refine ⟨h.isOpen, ?_, ?_⟩
  · unfold WalReader.advance
    rw [h.stream, List.drop_append_of_le_length hn]
  · have hb := h.boundary
    simp only [WalReader.advance, List.length_drop]
    omega

/-- The payload that a read at the head of `region` delivers. -/
def headPayload (region : List UInt8) : List UInt8 :=
  slice framePrefixSize (FramePrefix.ofImage (region.take framePrefixSize)).payloadLength region

theorem headStatus_le (region : List UInt8) : (headStatus region).2 ≤ region.length := by
  unfold headStatus
  dsimp only
  split_ifs with hnil hshort hzero hbad hover hcrc
  · exact Nat.zero_le _
  · exact Nat.zero_le _
  · exact Nat.not_lt.mp hshort
  · exact Nat.not_lt.mp hshort
  · exact Nat.not_lt.mp hshort
  · exact Nat.not_lt.mp hover
  · exact Nat.not_lt.mp hover

/-- What one read does, in terms of the region ahead: the reader passes the bytes that
`headStatus` counts, whatever it answers. -/
theorem At.readFrame {r : WalReader} {region beyond : List UInt8} (h : r.At region beyond) :
    r.readFrame = ((headStatus region).1,
      if (headStatus region).1 = .ok then headPayload region else [],
      if (headStatus region).1 = .crcMismatch then (r.advance (headStatus region).2).countCrcFailure
      else r.advance (headStatus region).2) := by
  have hremaining : r.boundary - min r.position r.boundary = region.length := by
    have hb := h.boundary
    omega
  have hstill : r.advance 0 = r := rfl
  unfold WalReader.readFrame headStatus
  simp only [h.isOpen, Bool.not_true, Bool.false_eq_true, if_false, hremaining]
  by_cases hnil : region = []
  · rw [if_pos (List.length_eq_zero_iff.mpr hnil), if_pos hnil]
    rfl
  rw [if_neg (fun hz => hnil (List.length_eq_zero_iff.mp hz)), if_neg hnil]
  by_cases hshort : region.length < framePrefixSize
  · rw [if_pos hshort, if_pos hshort]
    rfl
  rw [if_neg hshort, if_neg hshort]
  have hhead : (r.readStream framePrefixSize).1 = region.take framePrefixSize := by
    unfold readStream
    rw [h.stream, List.take_append_of_le_length (Nat.not_lt.mp hshort)]
  have hfull : (region.take framePrefixSize).length = framePrefixSize := by
    rw [List.length_take]
    omega
  have hpassed : (r.readStream framePrefixSize).2.move framePrefixSize = r.advance framePrefixSize := rfl
  rw [hhead, hpassed, if_neg (not_not.mpr hfull)]
  generalize hp : FramePrefix.ofImage (region.take framePrefixSize) = p
  by_cases hzero : p = ⟨0, 0, 0⟩
  · rw [if_pos hzero, if_pos hzero]
    rfl
  rw [if_neg hzero, if_neg hzero]
  by_cases hbad : (!validPayloadLength p.payloadLength) = true
  · rw [if_pos hbad, if_pos hbad]
    rfl
  rw [if_neg hbad, if_neg hbad]
  by_cases hover : region.length < frameSize p.payloadLength
  · rw [if_pos hover, if_pos hover]
    rfl
  rw [if_neg hover, if_neg hover]
  have hsize : framePrefixSize + p.payloadLength + frameCrcSize ≤ region.length := Nat.not_lt.mp hover
  have htail : ((r.advance framePrefixSize).readStream (p.payloadLength + frameCrcSize)).1 =
      slice framePrefixSize (p.payloadLength + frameCrcSize) region := by
    unfold readStream WalReader.advance slice
    dsimp only
    rw [h.stream, List.drop_append_of_le_length (by omega), List.take_append_of_le_length]
    rw [List.length_drop]
    omega
  have htailLength : (slice framePrefixSize (p.payloadLength + frameCrcSize) region).length =
      p.payloadLength + frameCrcSize := by
    unfold slice
    rw [List.length_take, List.length_drop]
    omega
  have hdone : ((r.advance framePrefixSize).readStream (p.payloadLength + frameCrcSize)).2.move
      (p.payloadLength + frameCrcSize) = r.advance (frameSize p.payloadLength) := by
    have hsum : framePrefixSize + (p.payloadLength + frameCrcSize) = frameSize p.payloadLength :=
      (Nat.add_assoc _ _ _).symm
    unfold readStream move WalReader.advance
    dsimp only
    rw [List.drop_drop, Nat.add_assoc, hsum]
  have hpayload : (slice framePrefixSize (p.payloadLength + frameCrcSize) region).take p.payloadLength =
      slice framePrefixSize p.payloadLength region := by
    unfold slice
    rw [List.take_take, Nat.min_eq_left (Nat.le_add_right _ _)]
  have hstored : (slice framePrefixSize (p.payloadLength + frameCrcSize) region).drop p.payloadLength =
      slice (framePrefixSize + p.payloadLength) frameCrcSize region := by
    unfold slice
    rw [List.drop_take, List.drop_drop, Nat.add_sub_cancel_left]
  rw [htail, hdone, if_neg (not_not.mpr htailLength), hpayload, hstored, ← take_covered]
  by_cases hcrc : (crc32 (region.take (framePrefixSize + p.payloadLength)) 0).toNat ≠
      LittleEndian.decode (slice (framePrefixSize + p.payloadLength) frameCrcSize region)
  · rw [if_pos hcrc, if_pos hcrc]
    rfl
  · rw [if_neg hcrc, if_neg hcrc]
    simp only [headPayload, hp, if_true, reduceCtorEq, if_false]

theorem headPayload_encode (f : Frame) (rest : List UInt8) : headPayload (f.encode ++ rest) = f.payload := by
  unfold headPayload
  rw [ofImage_encode]
  exact slice_payload f rest

end WalReader

end MicrostructureEngine
