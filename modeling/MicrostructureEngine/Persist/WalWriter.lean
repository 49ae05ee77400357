import MicrostructureEngine.Persist.Scanning

/-!
# The segment writer

One mapped segment of `WalWriter`: a frame is copied behind the committed data, and then the
new boundary is written into one of the two slots in turn. `recover` scans a segment up to
the boundary that its sidecar selects, cuts it behind the last intact frame and rewrites the
sidecar. The mapping is shared, so its bytes are the bytes of the file.
-/

namespace MicrostructureEngine

set_option autoImplicit false

def defaultSegmentDataBytes : Nat := 256 * 1024 * 1024

inductive AppendResult where
  | committed
  | rotationRequired
  | invalidPayload
  | ioError
  deriving DecidableEq, Repr, Inhabited

/-- `memcpy` of `bs` to `offset`. -/
def overwrite (memory : List UInt8) (offset : Nat) (bs : List UInt8) : List UInt8 :=
  memory.take offset ++ (bs ++ memory.drop (offset + bs.length))

structure AppendCall where
  type : UInt16
  flags : UInt16
  payload : List UInt8
  deriving DecidableEq

def AppendCall.frame (c : AppendCall) : List UInt8 :=
  encodeFrame maxFrameSize c.type.toNat c.flags.toNat c.payload

/-- What a writer has mapped, with its `committed_` and its `metadata_generation_`. -/
structure MappedSegment where
  bytes : List UInt8
  slots : List UInt8
  committed : Nat
  generation : Nat
  deriving DecidableEq

namespace MappedSegment

def image (m : MappedSegment) : SegmentFile := ⟨m.bytes, some m.slots⟩

def create (header : WalFileHeader) (segmentDataBytes : Nat) : MappedSegment where
  bytes := header.image ++ List.replicate segmentDataBytes 0
  slots := makeSlot 1 0 ++ makeSlot 2 0
  committed := 0
  generation := 2

def copyFrame (m : MappedSegment) (frame : List UInt8) : MappedSegment :=
  { m with bytes := overwrite m.bytes (walHeaderSize + m.committed) frame }

/-- Where the slot of a generation stands: `slots[generation & 1]`. -/
def slotOffset (generation : Nat) : Nat := boundarySlotSize * (generation % 2)

def publishBoundary (m : MappedSegment) (boundary : Nat) : MappedSegment :=
  let generation := (m.generation + 1) % 2 ^ 64
  { m with
    slots := overwrite m.slots (slotOffset generation) (makeSlot generation boundary)
    generation := generation
    committed := boundary }

def append (m : MappedSegment) (segmentDataBytes : Nat) (c : AppendCall) : AppendResult × MappedSegment :=
  if !validPayloadLength c.payload.length then (.invalidPayload, m)
  else if c.frame.length = 0 then (.invalidPayload, m)
  else if m.committed + c.frame.length > segmentDataBytes then (.rotationRequired, m)
  else (.committed, (m.copyFrame c.frame).publishBoundary (m.committed + c.frame.length))

end MappedSegment

/-! ## Repair -/

structure RecoveryResult where
  success : Bool := false
  committedBoundary : Nat := 0
  validBoundary : Nat := 0
  validRecords : Nat := 0
  truncated : Bool := false
  deriving DecidableEq, Repr

/-- What the file system answers to a repair: whether it cuts the segment, and what it leaves
of the sidecar when the sidecar cannot be written. -/
structure RepairSystem where
  truncates : Bool := true
  sidecarLost : Option (Option (List UInt8)) := none

namespace WalWriter

/-- One turn of the scan: the size of the frame at `position`, unless the loop breaks. -/
def recoverFrame (committed physicalData : Nat) (stream : List UInt8) (position : Nat) : Option Nat :=
  if committed - position < framePrefixSize ∨
      physicalData - min position physicalData < framePrefixSize then none
  else
    let head := stream.take framePrefixSize
    let p := FramePrefix.ofImage head
    if head.length ≠ framePrefixSize ∨ !validPayloadLength p.payloadLength then none
    else if frameSize p.payloadLength > committed - position ∨
        frameSize p.payloadLength > physicalData - position then none
    else
      let tail := (stream.drop framePrefixSize).take (p.payloadLength + frameCrcSize)
      if tail.length ≠ p.payloadLength + frameCrcSize then none
      else if (crc32 (head ++ tail.take p.payloadLength) 0).toNat ≠
          LittleEndian.decode (tail.drop p.payloadLength) then none
      else some (frameSize p.payloadLength)

/-- The scan of `recover`: the position behind the last intact frame and the number of frames. -/
def recoverLoop (committed physicalData : Nat) : Nat → List UInt8 → Nat → Nat → Nat × Nat
  | 0, _, position, records => (position, records)
  | n + 1, stream, position, records =>
    if position < committed then
      match recoverFrame committed physicalData stream position with
      | none => (position, records)
      | some size => recoverLoop committed physicalData n (stream.drop size) (position + size) (records + 1)
    else (position, records)

def recoveredMetadata (generation boundary : Nat) : List UInt8 :=
  makeSlot (generation + 1) boundary ++ makeSlot (generation + 2) boundary

def recover (f : SegmentFile) (system : RepairSystem) : RecoveryResult × SegmentFile :=
  match f.selected with
  | none => ({}, f)
  | some s =>
    if s.2 > defaultSegmentDataBytes then ({}, f)
    else
      let result : RecoveryResult := { committedBoundary := s.2 }
      if f.bytes.length < walHeaderSize ∨ !validHeader f.header then (result, f)
      else
        let scanned := recoverLoop s.2 f.data.length (f.data.length + 1) f.data 0 0
        let result := { result with
          validBoundary := scanned.1
          validRecords := scanned.2
          truncated := scanned.1 != s.2 || f.bytes.length != walHeaderSize + scanned.1 }
        if result.truncated && !system.truncates then (result, f)
        else
          let bytes := if result.truncated then f.bytes.take (walHeaderSize + scanned.1) else f.bytes
          match system.sidecarLost with
          | some sidecar => (result, ⟨bytes, sidecar⟩)
          | none => ({ result with success := true }, ⟨bytes, some (recoveredMetadata s.1 scanned.1)⟩)

end WalWriter

end MicrostructureEngine
