import MicrostructureEngine.Lib.Framing
import MicrostructureEngine.Lib.LittleEndian

/-!
# Frames and the segment header

The byte format of a write-ahead segment: a 256-byte header, then frames of a prefix, a
payload and a checksum over both. `headFrame` reads the frame at the head of a byte string;
with `Frame.encode` it forms the codec that every scan of a segment is compared with.
-/

namespace MicrostructureEngine

set_option autoImplicit false

def walFormatVersion : Nat := 1
def walHeaderSize : Nat := 256
def framePrefixSize : Nat := 8
def frameCrcSize : Nat := 4
def fixedEventPayloadSize : Nat := 128
def maxWalPayloadSize : Nat := 1040
def maxFrameSize : Nat := framePrefixSize + maxWalPayloadSize + frameCrcSize

/-- `size` bytes at `offset`. -/
def slice (offset size : Nat) (bs : List UInt8) : List UInt8 := (bs.drop offset).take size

theorem slice_append {offset size : Nat} {as bs : List UInt8} (hoffset : as.length = offset)
    (hsize : bs.length = size) (cs : List UInt8) : slice offset size (as ++ (bs ++ cs)) = bs := by
  unfold slice
  rw [List.drop_left' hoffset]
  exact List.take_left' hsize

/-! ## The checksum -/

def crcBit (value : UInt32) : UInt32 :=
  (value >>> 1) ^^^ (if value &&& 1 ≠ 0 then 0xedb88320 else 0)

/-- An entry of `crc_table`: eight times the loop body of `crc_entry`. -/
def crcEntry (value : UInt32) : UInt32 :=
  crcBit (crcBit (crcBit (crcBit (crcBit (crcBit (crcBit (crcBit value)))))))

def crcByte (crc : UInt32) (b : UInt8) : UInt32 :=
  crcEntry ((crc ^^^ b.toUInt32) &&& 0xff) ^^^ (crc >>> 8)

def crc32 (data : List UInt8) (seed : UInt32) : UInt32 :=
  data.foldl crcByte (seed ^^^ 0xffffffff) ^^^ 0xffffffff

/-- The four bytes that hold the checksum of `data`. -/
def checksum (data : List UInt8) : List UInt8 := LittleEndian.encode 4 (crc32 data 0).toNat

@[simp] theorem length_checksum (data : List UInt8) : (checksum data).length = 4 :=
  LittleEndian.length_encode 4 _

/-- `crc32(data) == stored` for a stored checksum of four bytes. -/
theorem checksum_eq_iff {data stored : List UInt8} (h : stored.length = 4) :
    stored = checksum data ↔ (crc32 data 0).toNat = LittleEndian.decode stored := by
  have hlt : (crc32 data 0).toNat < 256 ^ 4 := (crc32 data 0).toNat_lt
  constructor
  · intro heq
    rw [heq, checksum, LittleEndian.decode_encode_of_lt hlt]
  · intro heq
    rw [checksum, heq, ← h, LittleEndian.encode_decode]

/-! ## Frames -/

structure FramePrefix where
  payloadLength : Nat
  type : Nat
  flags : Nat
  deriving DecidableEq, Repr

namespace FramePrefix

def image (p : FramePrefix) : List UInt8 :=
  LittleEndian.encode 4 p.payloadLength ++ (LittleEndian.encode 2 p.type ++ LittleEndian.encode 2 p.flags)

def ofImage (bs : List UInt8) : FramePrefix where
  payloadLength := LittleEndian.decode (slice 0 4 bs)
  type := LittleEndian.decode (slice 4 2 bs)
  flags := LittleEndian.decode (slice 6 2 bs)

@[simp] theorem length_image (p : FramePrefix) : p.image.length = framePrefixSize := by
  simp [image, framePrefixSize]

theorem image_ofImage {bs : List UInt8} (h : bs.length = framePrefixSize) : (ofImage bs).image = bs := by
  have h4 : (slice 0 4 bs).length = 4 := by simp [slice, h, framePrefixSize]
  have h2 : (slice 4 2 bs).length = 2 := by simp [slice, h, framePrefixSize]
  have h2' : (slice 6 2 bs).length = 2 := by simp [slice, h, framePrefixSize]
  have hsplit : bs = slice 0 4 bs ++ (slice 4 2 bs ++ slice 6 2 bs) := by
    have hend : (bs.drop 6).take 2 = bs.drop 6 := List.take_of_length_le (by simp [h, framePrefixSize])
    have hrest : bs.drop 4 = (bs.drop 4).take 2 ++ bs.drop 6 := by
      rw [← List.drop_drop (i := 2) (j := 4), List.take_append_drop]
    simp only [slice, hend, List.drop_zero]
    rw [← hrest, List.take_append_drop]
  have hlength := LittleEndian.encode_decode (slice 0 4 bs)
  have htype := LittleEndian.encode_decode (slice 4 2 bs)
  have hflags := LittleEndian.encode_decode (slice 6 2 bs)
  rw [h4] at hlength
  rw [h2] at htype
  rw [h2'] at hflags
  simp only [image, ofImage, hlength, htype, hflags]
  exact hsplit.symm

theorem ofImage_image {p : FramePrefix} (hlength : p.payloadLength < 256 ^ 4) (htype : p.type < 256 ^ 2)
    (hflags : p.flags < 256 ^ 2) : ofImage p.image = p := by
  have h4 : slice 0 4 p.image = LittleEndian.encode 4 p.payloadLength := by
    simp [slice, image]
  have h2 : slice 4 2 p.image = LittleEndian.encode 2 p.type := by
    simp [slice, image]
  have h2' : slice 6 2 p.image = LittleEndian.encode 2 p.flags := by
    simp [slice, image, List.drop_append, List.drop_of_length_le, List.take_of_length_le]
  simp only [ofImage, h4, h2, h2', LittleEndian.decode_encode_of_lt, hlength, htype, hflags]

end FramePrefix

def validPayloadLength (length : Nat) : Bool := decide (0 < length) && decide (length ≤ maxWalPayloadSize)

theorem validPayloadLength_iff {n : Nat} :
    validPayloadLength n = true ↔ 0 < n ∧ n ≤ maxWalPayloadSize := by
  simp [validPayloadLength]

/-- `frame_prefix_size + payload_length + frame_crc_size`. -/
def frameSize (payloadLength : Nat) : Nat := framePrefixSize + payloadLength + frameCrcSize

/-- The bytes that `encode_frame` writes: none when it answers 0. -/
def encodeFrame (capacity type flags : Nat) (payload : List UInt8) : List UInt8 :=
  if !validPayloadLength payload.length then []
  else if capacity < frameSize payload.length then []
  else
    let covered := (FramePrefix.mk payload.length type flags).image ++ payload
    covered ++ checksum covered

/-- A frame that the writer accepts. -/
structure Frame where
  type : UInt16
  flags : UInt16
  payload : List UInt8
  valid : validPayloadLength payload.length = true
  deriving DecidableEq

namespace Frame

def framePrefix (f : Frame) : FramePrefix := ⟨f.payload.length, f.type.toNat, f.flags.toNat⟩

/-- What the checksum covers. -/
def covered (f : Frame) : List UInt8 := f.framePrefix.image ++ f.payload

def encode (f : Frame) : List UInt8 := f.covered ++ checksum f.covered

def size (f : Frame) : Nat := frameSize f.payload.length

@[simp] theorem length_covered (f : Frame) : f.covered.length = framePrefixSize + f.payload.length := by
  simp [covered]

@[simp] theorem length_encode (f : Frame) : f.encode.length = f.size := by
  simp [encode, size, frameSize, frameCrcSize]

theorem payload_length_lt (f : Frame) : f.payload.length < 256 ^ 4 := by
  have h := (validPayloadLength_iff.mp f.valid).2
  unfold maxWalPayloadSize at h
  omega

theorem size_le (f : Frame) : f.size ≤ maxFrameSize := by
  have h := (validPayloadLength_iff.mp f.valid).2
  unfold size frameSize maxFrameSize
  omega

theorem ofImage_framePrefix (f : Frame) : FramePrefix.ofImage f.framePrefix.image = f.framePrefix :=
  FramePrefix.ofImage_image f.payload_length_lt f.type.toNat_lt f.flags.toNat_lt

/-- `encode_frame` writes the frame. -/
theorem encodeFrame_eq (f : Frame) :
    encodeFrame maxFrameSize f.type.toNat f.flags.toNat f.payload = f.encode := by
  have hsize : ¬ maxFrameSize < frameSize f.payload.length := Nat.not_lt.mpr f.size_le
  unfold encodeFrame
  rw [f.valid, if_neg hsize]
  rfl

end Frame

/-- The frame at the head of `bs`, if the bytes there are one. -/
def headFrame (bs : List UInt8) : Option (Frame × List UInt8) :=
  let p := FramePrefix.ofImage (bs.take framePrefixSize)
  let payload := slice framePrefixSize p.payloadLength bs
  if h : validPayloadLength payload.length = true then
    if frameSize p.payloadLength ≤ bs.length ∧
        (crc32 (bs.take (framePrefixSize + p.payloadLength)) 0).toNat =
          LittleEndian.decode (slice (framePrefixSize + p.payloadLength) frameCrcSize bs) then
      some (⟨UInt16.ofNat p.type, UInt16.ofNat p.flags, payload, h⟩, bs.drop (frameSize p.payloadLength))
    else none
  else none

/-- Cutting a byte string of the size of a frame at its payload length. -/
theorem split_frame (bs : List UInt8) (n : Nat) :
    bs = bs.take framePrefixSize ++ (slice framePrefixSize n bs ++
      (slice (framePrefixSize + n) frameCrcSize bs ++ bs.drop (frameSize n))) := by
  unfold slice frameSize
  rw [← List.drop_drop (i := frameCrcSize) (j := framePrefixSize + n), List.take_append_drop,
    ← List.drop_drop (i := n) (j := framePrefixSize), List.take_append_drop, List.take_append_drop]

theorem take_covered {bs : List UInt8} {n : Nat} :
    bs.take (framePrefixSize + n) = bs.take framePrefixSize ++ slice framePrefixSize n bs :=
  List.take_add

theorem FramePrefix.ofImage_lt (bs : List UInt8) :
    (ofImage bs).type < 2 ^ 16 ∧ (ofImage bs).flags < 2 ^ 16 := by
  have htwo : ∀ offset, LittleEndian.decode (slice offset 2 bs) < 256 ^ 2 := by
    intro offset
    have hlength : (slice offset 2 bs).length ≤ 2 := List.length_take_le 2 _
    exact Nat.lt_of_lt_of_le (LittleEndian.decode_lt _) (Nat.pow_le_pow_right (by omega) hlength)
  exact ⟨htwo 4, htwo 6⟩

theorem encode_of_headFrame {bs : List UInt8} {f : Frame} {rest : List UInt8}
    (h : headFrame bs = some (f, rest)) : bs = f.encode ++ rest := by
  unfold headFrame at h
  dsimp only at h
  obtain ⟨htype, hflags⟩ := FramePrefix.ofImage_lt (bs.take framePrefixSize)
  generalize hp : FramePrefix.ofImage (bs.take framePrefixSize) = p at h htype hflags
  split at h
  · rename_i hvalid
    split at h
    · rename_i hg
      obtain ⟨hsize, hcrc⟩ := hg
      simp only [Option.some.injEq, Prod.mk.injEq] at h
      obtain ⟨rfl, rfl⟩ := h
      have hsize' : framePrefixSize + p.payloadLength + frameCrcSize ≤ bs.length := hsize
      have hhead : (bs.take framePrefixSize).length = framePrefixSize := by
        rw [List.length_take]
        omega
      have hpayload : (slice framePrefixSize p.payloadLength bs).length = p.payloadLength := by
        unfold slice
        rw [List.length_take, List.length_drop]
        omega
      have hstored : (slice (framePrefixSize + p.payloadLength) frameCrcSize bs).length = 4 := by
        unfold slice
        rw [List.length_take, List.length_drop]
        unfold frameCrcSize at hsize' ⊢
        omega
      have himage : p.image = bs.take framePrefixSize := by
        rw [← hp, FramePrefix.image_ofImage hhead]
      have hcovered : Frame.covered ⟨UInt16.ofNat p.type, UInt16.ofNat p.flags,
          slice framePrefixSize p.payloadLength bs, hvalid⟩ =
            bs.take (framePrefixSize + p.payloadLength) := by
        rw [take_covered, ← himage]
        unfold Frame.covered Frame.framePrefix
        dsimp only
        rw [hpayload, UInt16.toNat_ofNat', UInt16.toNat_ofNat', Nat.mod_eq_of_lt htype,
          Nat.mod_eq_of_lt hflags]
      unfold Frame.encode
      rw [hcovered, ← (checksum_eq_iff hstored).mpr hcrc, take_covered, List.append_assoc,
        List.append_assoc]
      exact split_frame bs p.payloadLength
    · cases h
  · cases h

section Encode
variable (f : Frame) (rest : List UInt8)

theorem ofImage_encode :
    FramePrefix.ofImage ((f.encode ++ rest).take framePrefixSize) = f.framePrefix := by
  unfold Frame.encode Frame.covered
  rw [List.append_assoc, List.append_assoc, List.take_left' (FramePrefix.length_image _)]
  exact f.ofImage_framePrefix

theorem slice_payload : slice framePrefixSize f.payload.length (f.encode ++ rest) = f.payload := by
  unfold slice Frame.encode Frame.covered
  rw [List.append_assoc, List.append_assoc, List.drop_left' (FramePrefix.length_image _)]
  exact List.take_left' rfl

theorem take_covered_encode :
    (f.encode ++ rest).take (framePrefixSize + f.payload.length) = f.covered := by
  unfold Frame.encode
  rw [List.append_assoc]
  exact List.take_left' f.length_covered

theorem slice_checksum :
    slice (framePrefixSize + f.payload.length) frameCrcSize (f.encode ++ rest) = checksum f.covered := by
  unfold slice Frame.encode
  rw [List.append_assoc, List.drop_left' f.length_covered]
  exact List.take_left' (length_checksum _)

theorem size_le_length : f.size ≤ (f.encode ++ rest).length := by
  rw [List.length_append, f.length_encode]
  exact Nat.le_add_right _ _

theorem drop_size : (f.encode ++ rest).drop f.size = rest := List.drop_left' f.length_encode

theorem headFrame_encode : headFrame (f.encode ++ rest) = some (f, rest) := by
  have hlength : f.framePrefix.payloadLength = f.payload.length := rfl
  have hsize : frameSize f.payload.length ≤ (f.encode ++ rest).length := size_le_length f rest
  have hrest : (f.encode ++ rest).drop (frameSize f.payload.length) = rest := drop_size f rest
  have hcrc := (checksum_eq_iff (length_checksum f.covered)).mp rfl
  have htype : UInt16.ofNat f.framePrefix.type = f.type := UInt16.ofNat_toNat
  have hflags : UInt16.ofNat f.framePrefix.flags = f.flags := UInt16.ofNat_toNat
  unfold headFrame
  simp only [ofImage_encode, hlength, slice_payload, take_covered_encode, slice_checksum, hrest,
    htype, hflags]
  rw [dif_pos f.valid, if_pos ⟨hsize, hcrc⟩]

end Encode

theorem headFrame_eq_some {bs : List UInt8} {f : Frame} {rest : List UInt8} :
    headFrame bs = some (f, rest) ↔ bs = f.encode ++ rest := by
  constructor
  · exact encode_of_headFrame
  · rintro rfl
    exact headFrame_encode f rest

def frameCodec : Framing.Codec Frame UInt8 where
  encode := Frame.encode
  head := headFrame
  head_eq_some := headFrame_eq_some
  encode_ne_nil f := by
    intro h
    have hlength := congrArg List.length h
    rw [f.length_encode] at hlength
    simp [Frame.size, frameSize, framePrefixSize] at hlength

/-! ## The segment header -/

/-- The 256 bytes of a `WalFileHeader`. Fields that nothing reads stand where they stand in
the struct and have no name here. -/
structure WalFileHeader where
  image : List UInt8
  size : image.length = walHeaderSize

/-- A value-initialised header. -/
def WalFileHeader.zeroed : WalFileHeader :=
  ⟨List.replicate walHeaderSize 0, List.length_replicate⟩

/-- `MMEWAL01`. -/
def walMagic : List UInt8 := [77, 77, 69, 87, 65, 76, 48, 49]

def byteOrderMarker : Nat := 0x01020304

/-- The fields that `finalize_header` sets before the checksum. -/
def WalFileHeader.stamped (h : WalFileHeader) : List UInt8 :=
  walMagic ++ (LittleEndian.encode 2 walFormatVersion ++ (LittleEndian.encode 2 walHeaderSize ++
    (LittleEndian.encode 4 byteOrderMarker ++ (slice 16 228 h.image ++ List.replicate 8 0))))

theorem WalFileHeader.length_stamped (h : WalFileHeader) : h.stamped.length = 252 := by
  simp [stamped, walMagic, slice, h.size, walHeaderSize]

def finalizeHeader (h : WalFileHeader) : WalFileHeader where
  image := h.stamped ++ checksum h.stamped
  size := by rw [List.length_append, h.length_stamped, length_checksum]; rfl

def validHeader (bs : List UInt8) : Bool :=
  bs.take 8 == walMagic && LittleEndian.decode (slice 8 2 bs) == walFormatVersion &&
    LittleEndian.decode (slice 10 2 bs) == walHeaderSize &&
    LittleEndian.decode (slice 12 4 bs) == byteOrderMarker &&
    (crc32 (bs.take 252) 0).toNat == LittleEndian.decode (slice 252 4 bs)

/-- A finalised header passes its own check. -/
theorem validHeader_finalizeHeader (h : WalFileHeader) : validHeader (finalizeHeader h).image = true := by
  have hstamped : (finalizeHeader h).image.take 252 = h.stamped := List.take_left' h.length_stamped
  have hcrc : slice 252 4 (finalizeHeader h).image = checksum h.stamped := by
    unfold slice finalizeHeader
    rw [List.drop_left' h.length_stamped]
    exact List.take_of_length_le (Nat.le_of_eq (length_checksum _))
  have himage : (finalizeHeader h).image = walMagic ++ (LittleEndian.encode 2 walFormatVersion ++
      (LittleEndian.encode 2 walHeaderSize ++ (LittleEndian.encode 4 byteOrderMarker ++
        (slice 16 228 h.image ++ (List.replicate 8 0 ++ checksum h.stamped))))) := by
    have happend : (finalizeHeader h).image = h.stamped ++ checksum h.stamped := rfl
    rw [happend]
    nth_rewrite 1 [WalFileHeader.stamped]
    simp only [List.append_assoc]
  have hmagic : (finalizeHeader h).image.take 8 = walMagic := by
    rw [himage]
    exact List.take_left' rfl
  have hversion : slice 8 2 (finalizeHeader h).image = LittleEndian.encode 2 walFormatVersion := by
    rw [himage]
    exact slice_append (by simp [walMagic]) (LittleEndian.length_encode 2 _) _
  have hsize : slice 10 2 (finalizeHeader h).image = LittleEndian.encode 2 walHeaderSize := by
    rw [himage, ← List.append_assoc]
    exact slice_append (by simp [walMagic]) (LittleEndian.length_encode 2 _) _
  have hmarker : slice 12 4 (finalizeHeader h).image = LittleEndian.encode 4 byteOrderMarker := by
    rw [himage, ← List.append_assoc, ← List.append_assoc]
    exact slice_append (by simp [walMagic]) (LittleEndian.length_encode 4 _) _
  unfold validHeader
  rw [hstamped, hcrc, hmagic, hversion, hsize, hmarker, (checksum_eq_iff (length_checksum _)).mp rfl,
    LittleEndian.decode_encode_of_lt (by decide), LittleEndian.decode_encode_of_lt (by decide),
    LittleEndian.decode_encode_of_lt (by decide)]
  simp

end MicrostructureEngine
