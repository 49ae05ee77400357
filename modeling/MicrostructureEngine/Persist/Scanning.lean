import MicrostructureEngine.Persist.WalReader

/-!
# Reading a segment to its end

Calls of `next_raw` until one does not deliver. They deliver the payloads of the frames that
a scan finds in the region up to the boundary; where the segment holds nothing but intact
frames up to its committed boundary, the last call reports the boundary.
-/

namespace MicrostructureEngine

set_option autoImplicit false

namespace SegmentFile

/-- `open` accepts the file. -/
def Openable (f : SegmentFile) : Prop := walHeaderSize ≤ f.bytes.length ∧ validHeader f.header = true

instance (f : SegmentFile) : Decidable f.Openable := inferInstanceAs (Decidable (_ ∧ _))

/-- The boundary a reader resolves. -/
def boundary (f : SegmentFile) : Nat := (WalReader.resolveBoundary f).1

/-- The bytes a reader takes for data. -/
def region (f : SegmentFile) : List UInt8 := f.data.take f.boundary

/-- The frames at the front of the region and what follows them. -/
def scan (f : SegmentFile) : List Frame × List UInt8 := frameCodec.scan f.region

theorem boundary_le (f : SegmentFile) : f.boundary ≤ f.data.length := by
  unfold boundary WalReader.resolveBoundary
  split
  · exact Nat.le_refl _
  · exact Nat.min_le_right _ _

theorem boundary_of_selected {f : SegmentFile} {s : Nat × Nat} (h : f.selected = some s) :
    f.boundary = min s.2 f.data.length := by
  unfold boundary WalReader.resolveBoundary
  rw [h]

@[simp] theorem length_region (f : SegmentFile) : f.region.length = f.boundary := by
  have hle := f.boundary_le
  unfold region
  rw [List.length_take]
  omega

theorem selected_of_slots {bytes slots : List UInt8} (h : slots.length = 2 * boundarySlotSize) :
    (SegmentFile.mk bytes (some slots)).selected = selectSlot slots := by
  have htake : slots.take (2 * boundarySlotSize) = slots := List.take_of_length_le (Nat.le_of_eq h)
  unfold selected metadata
  dsimp only
  rw [Option.bind_some, if_neg (Nat.not_lt.mpr (Nat.le_of_eq h.symm)), htake, Option.bind_some]

/-- The size of the intact frames at the front of the region. -/
def validBoundary (f : SegmentFile) : Nat := (frameCodec.concat f.scan.1).length

theorem concat_scan_prefix (f : SegmentFile) : frameCodec.concat f.scan.1 <+: f.region :=
  ⟨f.scan.2, (frameCodec.scan_spec f.region).1.symm⟩

theorem validBoundary_le (f : SegmentFile) : f.validBoundary ≤ f.boundary := by
  have h := f.concat_scan_prefix.length_le
  rw [f.length_region] at h
  exact h

theorem take_validBoundary (f : SegmentFile) : f.data.take f.validBoundary = frameCodec.concat f.scan.1 := by
  have h : frameCodec.concat f.scan.1 <+: f.data := f.concat_scan_prefix.trans (List.take_prefix _ _)
  exact (List.prefix_iff_eq_take.mp h).symm

/-- A file under a finalised header is accepted, and its data is what follows. -/
theorem openable_header (h : WalFileHeader) (data : List UInt8) (sidecar : Option (List UInt8)) :
    (SegmentFile.mk ((finalizeHeader h).image ++ data) sidecar).Openable := by
  have hsize := (finalizeHeader h).size
  refine ⟨?_, ?_⟩
  · dsimp only
    rw [List.length_append, hsize]
    exact Nat.le_add_right _ _
  · unfold header
    rw [List.take_left' hsize]
    exact validHeader_finalizeHeader h

theorem data_header (h : WalFileHeader) (data : List UInt8) (sidecar : Option (List UInt8)) :
    (SegmentFile.mk ((finalizeHeader h).image ++ data) sidecar).data = data :=
  List.drop_left' (finalizeHeader h).size

/-- The segment stores `frames`: they stand at the front of its data, and the boundary that is
committed is their length. -/
structure Holds (f : SegmentFile) (frames : List Frame) : Prop where
  openable : f.Openable
  selected : ∃ generation, f.selected = some (generation, (frameCodec.concat frames).length)
  data : frameCodec.concat frames <+: f.data

theorem Holds.region_eq {f : SegmentFile} {frames : List Frame} (h : f.Holds frames) :
    f.region = frameCodec.concat frames := by
  obtain ⟨generation, hselected⟩ := h.selected
  obtain ⟨rest, hrest⟩ := h.data
  have hboundary := boundary_of_selected hselected
  have hle : (frameCodec.concat frames).length ≤ f.data.length := h.data.length_le
  unfold region
  rw [hboundary, Nat.min_eq_left hle, ← hrest]
  exact List.take_left' rfl

theorem Holds.scan_eq {f : SegmentFile} {frames : List Frame} (h : f.Holds frames) :
    f.scan = (frames, []) := by
  unfold scan
  rw [h.region_eq]
  exact frameCodec.scan_of_concat frames

end SegmentFile

namespace WalReader

/-- The reader that `open` leaves behind for a file that it accepts. -/
def opened (f : SegmentFile) : WalReader where
  stream := f.data
  boundary := f.boundary
  boundaryFromMeta := (resolveBoundary f).2
  isOpen := true

theorem openFile_openable {f : SegmentFile} (h : f.Openable) : openFile (some f) = (true, opened f) := by
  unfold openFile
  dsimp only
  rw [if_neg (Nat.not_lt.mpr h.1), h.2]
  rfl

theorem openFile_not_openable {f : SegmentFile} (h : ¬ f.Openable) : openFile (some f) = (false, {}) := by
  unfold openFile
  dsimp only
  split
  · rfl
  · rename_i hsize
    rw [if_pos]
    have hheader : validHeader f.header ≠ true := fun hv => h ⟨Nat.not_lt.mp hsize, hv⟩
    simpa using hheader

theorem opened_at (f : SegmentFile) : (opened f).At f.region (f.data.drop f.boundary) := by
  refine ⟨rfl, (List.take_append_drop _ _).symm, ?_⟩
  rw [f.length_region]
  exact (Nat.zero_add _).symm

section Calls
variable {r : WalReader} {region beyond : List UInt8} {capacity : Nat}

/-- A frame that fits the buffer of the caller is delivered, and the reader stands behind it. -/
theorem At.nextRaw_frame {f : Frame} (h : r.At (f.encode ++ region) beyond)
    (hfits : f.payload.length ≤ capacity) :
    ∃ r', r.nextRaw capacity = (.ok, some f.payload, r') ∧ r'.At region beyond := by
  have hread := h.readFrame
  have hnext := h.advance (size_le_length f region)
  rw [headStatus_encode, headPayload_encode] at hread
  rw [drop_size] at hnext
  refine ⟨(r.advance f.size).countFrame f.payload.length, ?_, ⟨hnext.isOpen, hnext.stream, hnext.boundary⟩⟩
  unfold nextRaw
  rw [hread]
  simp [Nat.not_lt.mpr hfits]

/-- Where there is no frame, nothing is delivered. -/
theorem At.nextRaw_none (h : r.At region beyond) (capacity : Nat) (hhead : headFrame region = none) :
    (r.nextRaw capacity).1 = (headStatus region).1 ∧ (headStatus region).1 ≠ .ok ∧
      (r.nextRaw capacity).2.1 = none := by
  rcases headStatus_cases region with ⟨f, rest, rfl, _⟩ | ⟨_, hstatus⟩
  · rw [headFrame_encode] at hhead
    cases hhead
  · unfold nextRaw
    rw [h.readFrame, if_pos hstatus]
    exact ⟨rfl, hstatus, rfl⟩

end Calls

/-- The calls of `next_raw` up to the first that does not deliver: the payloads, that call's
status, and the reader after it. The first argument bounds the number of calls. -/
def readLoop (capacity : Nat) : Nat → WalReader → List (List UInt8) × ReadStatus × WalReader
  | 0, r => ([], .ok, r)
  | n + 1, r =>
    match r.nextRaw capacity with
    | (.ok, some payload, r') =>
      let rest := readLoop capacity n r'
      (payload :: rest.1, rest.2)
    | (status, _, r') => ([], status, r')

/-- Every call that delivers takes bytes off the stream. -/
def readAll (capacity : Nat) (r : WalReader) : List (List UInt8) × ReadStatus × WalReader :=
  readLoop capacity (r.stream.length + 1) r

theorem readLoop_spec {capacity : Nat} (hcapacity : maxWalPayloadSize ≤ capacity)
    (region beyond : List UInt8) : ∀ (n : Nat) (r : WalReader), r.At region beyond → region.length < n →
      (readLoop capacity n r).1 = (frameCodec.scan region).1.map Frame.payload ∧
        (readLoop capacity n r).2.1 = (headStatus (frameCodec.scan region).2).1 := by
  induction region using frameCodec.stream_induction with
  | stop region hhead =>
    intro n r h hn
    obtain ⟨k, rfl⟩ : ∃ k, n = k + 1 := ⟨n - 1, by omega⟩
    obtain ⟨hstatus, hne, _⟩ := h.nextRaw_none capacity hhead
    rw [frameCodec.scan_of_none hhead]
    unfold readLoop
    rcases hcall : r.nextRaw capacity with ⟨status, payload, r'⟩
    rw [hcall] at hstatus
    dsimp only at hstatus
    subst hstatus
    split
    · rename_i heq
      rw [Prod.mk.injEq] at heq
      exact absurd heq.1 hne
    · rename_i heq
      cases heq
      exact ⟨rfl, rfl⟩
  | step f rest ih =>
    intro n r h hn
    obtain ⟨k, rfl⟩ : ∃ k, n = k + 1 := ⟨n - 1, by omega⟩
    have hfits : f.payload.length ≤ capacity :=
      Nat.le_trans (validPayloadLength_iff.mp f.valid).2 hcapacity
    obtain ⟨r', hcall, hnext⟩ := h.nextRaw_frame hfits
    have hpos := frameCodec.length_encode_pos f
    rw [List.length_append] at hn
    obtain ⟨hpayloads, hstatus⟩ := ih k r' hnext (by omega)
    rw [frameCodec.scan_encode]
    unfold readLoop
    rw [hcall]
    dsimp only
    rw [hpayloads, hstatus]
    exact ⟨rfl, rfl⟩

/-- What a reader delivers from a segment, and the status it ends with. -/
theorem readAll_opened {capacity : Nat} (hcapacity : maxWalPayloadSize ≤ capacity) (f : SegmentFile) :
    (readAll capacity (opened f)).1 = f.scan.1.map Frame.payload ∧
      (readAll capacity (opened f)).2.1 = (headStatus f.scan.2).1 := by
  have hle := f.boundary_le
  have hstream : (opened f).stream.length = f.data.length := rfl
  exact readLoop_spec hcapacity f.region _ _ _ (opened_at f) (by rw [f.length_region]; omega)

/-- A segment that stores frames is read frame by frame up to its boundary. -/
theorem readAll_holds {capacity : Nat} (hcapacity : maxWalPayloadSize ≤ capacity) {f : SegmentFile}
    {frames : List Frame} (h : f.Holds frames) :
    (openFile (some f)).1 = true ∧
      (readAll capacity (openFile (some f)).2).1 = frames.map Frame.payload ∧
      (readAll capacity (openFile (some f)).2).2.1 = .boundaryReached := by
  obtain ⟨hpayloads, hstatus⟩ := readAll_opened hcapacity f
  rw [h.scan_eq] at hpayloads hstatus
  rw [openFile_openable h.openable]
  exact ⟨rfl, hpayloads, hstatus⟩

end WalReader

end MicrostructureEngine
