import MicrostructureEngine.Persist.Repair

/-!
# A crash inside an append

A process writes in program order: first the frame behind the committed data, then one of the
two slots. While the slot is written the other one still holds the boundary of the append
before, so a reader finds the committed frames at every point, and the new one exactly when
its slot was completed. The two slots of a fresh segment hold the same boundary under two
generations, and the first append overwrites the newer of them.
-/

namespace MicrostructureEngine

set_option autoImplicit false

/-! ## Two slots -/

/-- Two slots in the places that a generation gives them. -/
def slotPair (generation : Nat) (kept spare : List UInt8) : List UInt8 :=
  if generation % 2 = 0 then kept ++ spare else spare ++ kept

section Slots
variable {generation : Nat} {kept spare : List UInt8}

theorem length_slotPair (hkept : kept.length = boundarySlotSize) (hspare : spare.length = boundarySlotSize) :
    (slotPair generation kept spare).length = 2 * boundarySlotSize := by
  unfold slotPair
  split
  · rw [List.length_append, hkept, hspare, Nat.two_mul]
  · rw [List.length_append, hkept, hspare, Nat.two_mul]

theorem overwrite_slotPair (hkept : kept.length = boundarySlotSize) (hspare : spare.length = boundarySlotSize)
    {slot : List UInt8} (hslot : slot.length = boundarySlotSize) :
    overwrite (slotPair generation kept spare) (MappedSegment.slotOffset (generation + 1)) slot =
      slotPair (generation + 1) slot kept := by
  unfold overwrite slotPair MappedSegment.slotOffset
  rcases Nat.mod_two_eq_zero_or_one generation with heven | hodd
  · rw [if_pos heven, if_neg (by omega), show (generation + 1) % 2 = 1 by omega, Nat.mul_one,
      List.take_left' hkept, hslot, ← Nat.two_mul]
    rw [List.drop_of_length_le (by rw [List.length_append, hkept, hspare]; omega), List.append_nil]
  · rw [if_neg (by omega), if_pos (by omega), show (generation + 1) % 2 = 0 by omega, Nat.mul_zero,
      Nat.zero_add, List.take_zero, List.nil_append, hslot, List.drop_left' hspare]

end Slots

namespace MappedSegment

/-! ## Runs of appends -/

def appends (segmentDataBytes : Nat) : MappedSegment → List AppendCall → MappedSegment
  | m, [] => m
  | m, c :: cs => appends segmentDataBytes (m.append segmentDataBytes c).2 cs

theorem appends_append (segmentDataBytes : Nat) (calls later : List AppendCall) (m : MappedSegment) :
    m.appends segmentDataBytes (calls ++ later) =
      (m.appends segmentDataBytes calls).appends segmentDataBytes later := by
  induction calls generalizing m with
  | nil => rfl
  | cons c calls ih => exact ih _

def committedPayloads (segmentDataBytes : Nat) : MappedSegment → List AppendCall → List (List UInt8)
  | _, [] => []
  | m, c :: cs =>
    if (m.append segmentDataBytes c).1 = .committed then
      c.payload :: committedPayloads segmentDataBytes (m.append segmentDataBytes c).2 cs
    else committedPayloads segmentDataBytes (m.append segmentDataBytes c).2 cs

/-- What an append does: it commits one frame, or it is refused and leaves everything alone. -/
theorem append_cases (m : MappedSegment) (segmentDataBytes : Nat) (c : AppendCall) :
    (∃ f : Frame, f.payload = c.payload ∧ c.frame = f.encode ∧ m.committed + f.size ≤ segmentDataBytes ∧
      m.append segmentDataBytes c =
        (.committed, (m.copyFrame f.encode).publishBoundary (m.committed + f.size))) ∨
    ((m.append segmentDataBytes c).1 ≠ .committed ∧ (m.append segmentDataBytes c).2 = m ∧
      (validPayloadLength c.payload.length = false ∨
        segmentDataBytes < m.committed + frameSize c.payload.length)) := by
  unfold append
  by_cases hvalid : validPayloadLength c.payload.length = true
  · have hframe := Frame.encodeFrame_eq ⟨c.type, c.flags, c.payload, hvalid⟩
    have hlength := Frame.length_encode ⟨c.type, c.flags, c.payload, hvalid⟩
    generalize hf : Frame.mk c.type c.flags c.payload hvalid = f at hframe hlength
    have hpayload : f.payload = c.payload := by rw [← hf]
    have hencode : c.frame = f.encode := by
      rw [← hframe, ← hf]
      rfl
    have hpos : f.size ≠ 0 := by
      unfold Frame.size frameSize framePrefixSize
      omega
    rw [hvalid, hencode, hlength, if_neg hpos]
    by_cases hfits : m.committed + f.size > segmentDataBytes
    · refine .inr ?_
      rw [if_pos hfits]
      refine ⟨fun h => AppendResult.noConfusion h, rfl, .inr ?_⟩
      rw [← hpayload]
      exact hfits
    · refine .inl ⟨f, hpayload, rfl, Nat.not_lt.mp hfits, ?_⟩
      rw [if_neg hfits]
      rfl
  · refine .inr ?_
    have hinvalid : validPayloadLength c.payload.length = false := by simpa using hvalid
    rw [hinvalid]
    exact ⟨fun h => AppendResult.noConfusion h, rfl, .inl rfl⟩

/-- The mapping of a writer that has committed `frames`. -/
structure Stores (m : MappedSegment) (header : WalFileHeader) (segmentDataBytes : Nat)
    (frames : List Frame) : Prop where
  bytes : ∃ free, m.bytes = (finalizeHeader header).image ++ (frameCodec.concat frames ++ free) ∧
    (frameCodec.concat frames).length + free.length = segmentDataBytes
  committed : m.committed = (frameCodec.concat frames).length
  generation : m.generation ≤ m.committed + 2
  slots : ∃ k s c, m.slots = slotPair m.generation (makeSlot k m.committed) (makeSlot s c) ∧
    k ≤ m.generation ∧ s ≤ m.generation ∧ c ≤ m.committed ∧ (s < k ∨ c = m.committed)

theorem create_stores (header : WalFileHeader) (segmentDataBytes : Nat) :
    (create (finalizeHeader header) segmentDataBytes).Stores header segmentDataBytes [] where
  bytes := ⟨List.replicate segmentDataBytes 0, rfl, by simp⟩
  committed := rfl
  generation := Nat.le_refl 2
  slots := by
    refine ⟨1, 2, 0, ?_, Nat.le_succ 1, Nat.le_refl 2, Nat.le_refl 0, .inr rfl⟩
    show makeSlot 1 0 ++ makeSlot 2 0 = slotPair 2 (makeSlot 1 0) (makeSlot 2 0)
    unfold slotPair
    rw [if_pos (Nat.mod_self 2)]

section Stored
variable {m : MappedSegment} {header : WalFileHeader} {segmentDataBytes : Nat} {frames : List Frame}

theorem Stores.committed_le (h : m.Stores header segmentDataBytes frames) : m.committed ≤ segmentDataBytes := by
  obtain ⟨free, -, hfree⟩ := h.bytes
  rw [h.committed]
  omega

theorem Stores.overwrite_bytes (h : m.Stores header segmentDataBytes frames) (bs : List UInt8)
    (hfits : m.committed + bs.length ≤ segmentDataBytes) :
    ∃ free, overwrite m.bytes (walHeaderSize + m.committed) bs =
        (finalizeHeader header).image ++ (frameCodec.concat frames ++ (bs ++ free)) ∧
      m.committed + bs.length + free.length = segmentDataBytes := by
  obtain ⟨free, hbytes, hfree⟩ := h.bytes
  have hsize := (finalizeHeader header).size
  have hcommitted := h.committed
  have hfront : ((finalizeHeader header).image ++ frameCodec.concat frames).length =
      walHeaderSize + m.committed := by
    rw [List.length_append, hsize, hcommitted]
  refine ⟨free.drop bs.length, ?_, ?_⟩
  · have hsplit : m.bytes = ((finalizeHeader header).image ++ frameCodec.concat frames) ++ free := by
      rw [hbytes, List.append_assoc]
    unfold overwrite
    rw [hsplit, List.take_left' hfront, ← List.drop_drop, List.drop_left' hfront, List.append_assoc]
  · rw [List.length_drop]
    omega

theorem holds_of_bytes (header : WalFileHeader) (frames : List Frame) (free slots : List UInt8)
    (hslots : slots.length = 2 * boundarySlotSize) {generation : Nat}
    (hselect : selectSlot slots = some (generation, (frameCodec.concat frames).length)) :
    (SegmentFile.mk ((finalizeHeader header).image ++ (frameCodec.concat frames ++ free))
      (some slots)).Holds frames where
  openable := SegmentFile.openable_header header _ _
  selected := ⟨generation, (SegmentFile.selected_of_slots hslots).trans hselect⟩
  data := by
    rw [SegmentFile.data_header]
    exact List.prefix_append _ _

theorem Stores.select (h : m.Stores header segmentDataBytes frames)
    (hlimit : segmentDataBytes ≤ defaultSegmentDataBytes) :
    m.slots.length = 2 * boundarySlotSize ∧
      ∃ generation, selectSlot m.slots = some (generation, (frameCodec.concat frames).length) := by
  obtain ⟨k, s, c, hslots, hk, hs, hc, horder⟩ := h.slots
  have hle := h.committed_le
  have hgeneration := h.generation
  unfold defaultSegmentDataBytes at hlimit
  rw [hslots, ← h.committed]
  refine ⟨length_slotPair (length_makeSlot _ _) (length_makeSlot _ _), ?_⟩
  rcases horder with hlt | rfl
  · have hk64 : k < 2 ^ 64 := by omega
    have hm64 : m.committed < 2 ^ 64 := by omega
    have hc64 : c < 2 ^ 64 := by omega
    obtain ⟨hfirst, hsecond⟩ := selectSlot_newer hk64 hm64 hc64 hlt
    unfold slotPair
    split
    · exact ⟨k, hfirst⟩
    · exact ⟨k, hsecond⟩
  · unfold slotPair
    split
    · exact selectSlot_same _ _ (by omega)
    · exact selectSlot_same _ _ (by omega)

theorem Stores.holds (h : m.Stores header segmentDataBytes frames)
    (hlimit : segmentDataBytes ≤ defaultSegmentDataBytes) : m.image.Holds frames := by
  obtain ⟨hlength, generation, hselect⟩ := h.select hlimit
  obtain ⟨free, hbytes, -⟩ := h.bytes
  unfold image
  rw [hbytes]
  exact holds_of_bytes header frames free m.slots hlength hselect

theorem Stores.published (h : m.Stores header segmentDataBytes frames)
    (hlimit : segmentDataBytes ≤ defaultSegmentDataBytes) {f : Frame}
    (hfits : m.committed + f.size ≤ segmentDataBytes) :
    ((m.copyFrame f.encode).publishBoundary (m.committed + f.size)).Stores header segmentDataBytes
      (frames ++ [f]) := by
  have hlength := f.length_encode
  have hconcat : frameCodec.concat (frames ++ [f]) = frameCodec.concat frames ++ f.encode := by
    rw [frameCodec.concat_append, frameCodec.concat_cons, frameCodec.concat_nil, List.append_nil]
    rfl
  have hgeneration := h.generation
  have hpos : 0 < f.size := by
    unfold Frame.size frameSize framePrefixSize
    omega
  unfold defaultSegmentDataBytes at hlimit
  have hnext : (m.generation + 1) % 2 ^ 64 = m.generation + 1 := Nat.mod_eq_of_lt (by omega)
  obtain ⟨free, hbytes, hfree⟩ := h.overwrite_bytes f.encode (by rw [hlength]; exact hfits)
  obtain ⟨k, s, c, hslots, hk, -, -, -⟩ := h.slots
  refine ⟨⟨free, ?_, ?_⟩, ?_, ?_, ?_⟩
  · rw [hconcat, List.append_assoc]
    exact hbytes
  · rw [hconcat, List.length_append, ← h.committed]
    exact hfree
  · rw [hconcat, List.length_append, ← h.committed, hlength]
    rfl
  · show (m.generation + 1) % 2 ^ 64 ≤ m.committed + f.size + 2
    rw [hnext]
    omega
  · refine ⟨m.generation + 1, k, m.committed, ?_, ?_, ?_, ?_, .inl ?_⟩
    · show overwrite m.slots (slotOffset ((m.generation + 1) % 2 ^ 64))
        (makeSlot ((m.generation + 1) % 2 ^ 64) (m.committed + f.size)) =
          slotPair ((m.generation + 1) % 2 ^ 64) _ _
      rw [hnext, hslots]
      exact overwrite_slotPair (length_makeSlot _ _) (length_makeSlot _ _) (length_makeSlot _ _)
    · exact Nat.le_of_eq hnext.symm
    · show k ≤ (m.generation + 1) % 2 ^ 64
      rw [hnext]
      omega
    · show m.committed ≤ m.committed + f.size
      omega
    · omega

theorem Stores.appends (hlimit : segmentDataBytes ≤ defaultSegmentDataBytes) (calls : List AppendCall) :
    ∀ {m : MappedSegment} {frames : List Frame}, m.Stores header segmentDataBytes frames →
      ∃ frames', (m.appends segmentDataBytes calls).Stores header segmentDataBytes (frames ++ frames') ∧
        frames'.map Frame.payload = m.committedPayloads segmentDataBytes calls ∧
        m.committed ≤ (m.appends segmentDataBytes calls).committed := by
  induction calls with
  | nil =>
    intro m frames h
    exact ⟨[], by rwa [List.append_nil], rfl, Nat.le_refl _⟩
  | cons c calls ih =>
    intro m frames h
    unfold MappedSegment.appends committedPayloads
    rcases append_cases m segmentDataBytes c with ⟨f, hpayload, -, hfits, hresult⟩ | ⟨hrefused, hsame, -⟩
    · rw [hresult, if_pos rfl]
      dsimp only
      obtain ⟨frames', hstores, hpayloads, hle⟩ := ih (h.published hlimit hfits)
      refine ⟨f :: frames', ?_, ?_, ?_⟩
      · rwa [List.append_assoc] at hstores
      · rw [List.map_cons, hpayload, hpayloads]
      · exact Nat.le_trans (Nat.le_add_right m.committed f.size) hle
    · rw [if_neg hrefused, hsame]
      exact ih h

end Stored

/-! ## Crash images -/

/-- What the files can hold when the process stops inside `append`, and whether the slot of the
call was completed. -/
inductive CrashImage (m : MappedSegment) (segmentDataBytes : Nat) (c : AppendCall) : SegmentFile → Bool → Prop
  | refused (h : (m.append segmentDataBytes c).1 ≠ .committed) : CrashImage m segmentDataBytes c m.image false
  /-- Inside the copy of the frame, whose place may hold anything. -/
  | copying (h : (m.append segmentDataBytes c).1 = .committed) (junk : List UInt8)
      (hjunk : junk.length = c.frame.length) :
      CrashImage m segmentDataBytes c (m.copyFrame junk).image false
  /-- Inside the copy of the slot. -/
  | publishing (h : (m.append segmentDataBytes c).1 = .committed) (slot : List UInt8)
      (hslot : slot.length = boundarySlotSize) (htorn : validBoundarySlot slot = false) :
      CrashImage m segmentDataBytes c
        { (m.copyFrame c.frame) with
          slots := overwrite m.slots (slotOffset ((m.generation + 1) % 2 ^ 64)) slot }.image false
  | published (h : (m.append segmentDataBytes c).1 = .committed) :
      CrashImage m segmentDataBytes c (m.append segmentDataBytes c).2.image true

section Crash
variable {m : MappedSegment} {header : WalFileHeader} {segmentDataBytes : Nat} {frames : List Frame}
  {c : AppendCall} {file : SegmentFile} {written : Bool}

theorem CrashImage.holds (hcrash : CrashImage m segmentDataBytes c file written)
    (h : m.Stores header segmentDataBytes frames) (hlimit : segmentDataBytes ≤ defaultSegmentDataBytes) :
    ∃ frames', file.Holds (frames ++ frames') ∧
      (frameCodec.concat (frames ++ frames')).length ≤ segmentDataBytes ∧
      frames'.map Frame.payload = if written then [c.payload] else [] := by
  have hle := h.committed_le
  have hkept : (frameCodec.concat (frames ++ [])).length ≤ segmentDataBytes := by
    rw [List.append_nil, ← h.committed]
    exact hle
  have hgeneration := h.generation
  cases hcrash with
  | refused _ => exact ⟨[], by rw [List.append_nil]; exact h.holds hlimit, hkept, rfl⟩
  | copying hok junk hjunk =>
    rcases append_cases m segmentDataBytes c with ⟨f, -, hframe, hfits, -⟩ | ⟨hrefused, -, -⟩
    · refine ⟨[], ?_, hkept, rfl⟩
      rw [hframe, f.length_encode] at hjunk
      obtain ⟨free, hbytes, -⟩ := h.overwrite_bytes junk (by rw [hjunk]; exact hfits)
      obtain ⟨hlength, generation, hselect⟩ := h.select hlimit
      unfold image copyFrame
      rw [List.append_nil, hbytes]
      exact holds_of_bytes header frames _ m.slots hlength hselect
    · exact absurd hok hrefused
  | publishing hok slot hslot htorn =>
    rcases append_cases m segmentDataBytes c with ⟨f, -, hframe, hfits, -⟩ | ⟨hrefused, -, -⟩
    · refine ⟨[], ?_, hkept, rfl⟩
      obtain ⟨free, hbytes, -⟩ := h.overwrite_bytes f.encode (by rw [f.length_encode]; exact hfits)
      obtain ⟨k, s, c', hslots, hk, -, -, -⟩ := h.slots
      unfold defaultSegmentDataBytes at hlimit
      have hnext : (m.generation + 1) % 2 ^ 64 = m.generation + 1 := Nat.mod_eq_of_lt (by omega)
      have hk64 : k < 2 ^ 64 := by omega
      have hm64 : m.committed < 2 ^ 64 := by omega
      obtain ⟨hbehind, hahead⟩ := selectSlot_torn hk64 hm64 hslot htorn
      unfold image copyFrame
      dsimp only
      rw [List.append_nil, hframe, hbytes, hnext, hslots,
        overwrite_slotPair (length_makeSlot _ _) (length_makeSlot _ _) hslot]
      have hselect : selectSlot (slotPair (m.generation + 1) slot (makeSlot k m.committed)) =
          some (k, m.committed) := by
        unfold slotPair
        split
        · exact hahead
        · exact hbehind
      rw [h.committed] at hselect ⊢
      exact holds_of_bytes header frames _ _ (length_slotPair hslot (length_makeSlot _ _)) hselect
    · exact absurd hok hrefused
  | published hok =>
    rcases append_cases m segmentDataBytes c with ⟨f, hpayload, -, hfits, hresult⟩ | ⟨hrefused, -, -⟩
    · have hstores := h.published hlimit hfits
      refine ⟨[f], ?_, ?_, by rw [List.map_singleton, hpayload]; rfl⟩
      · rw [hresult]
        exact hstores.holds hlimit
      · rw [← hstores.committed]
        exact hstores.committed_le
    · exact absurd hok hrefused

end Crash

theorem append_committed_iff (m : MappedSegment) (segmentDataBytes : Nat) (c : AppendCall) :
    (m.append segmentDataBytes c).1 = .committed ↔
      0 < c.payload.length ∧ c.payload.length ≤ maxWalPayloadSize ∧
        m.committed + frameSize c.payload.length ≤ segmentDataBytes := by
  rcases append_cases m segmentDataBytes c with ⟨f, hpayload, -, hfits, hresult⟩ | ⟨hrefused, -, hwhy⟩
  · rw [hresult, ← hpayload]
    obtain ⟨hpos, hle⟩ := validPayloadLength_iff.mp f.valid
    exact ⟨fun _ => ⟨hpos, hle, hfits⟩, fun _ => rfl⟩
  · constructor
    · exact fun hok => absurd hok hrefused
    · rintro ⟨hpos, hle, hfits⟩
      rcases hwhy with hinvalid | hfull
      · rw [validPayloadLength_iff.mpr ⟨hpos, hle⟩] at hinvalid
        cases hinvalid
      · omega

theorem append_refused (m : MappedSegment) (segmentDataBytes : Nat) (c : AppendCall)
    (h : (m.append segmentDataBytes c).1 ≠ .committed) : (m.append segmentDataBytes c).2 = m := by
  rcases append_cases m segmentDataBytes c with ⟨f, -, -, -, hresult⟩ | ⟨-, hsame, -⟩
  · rw [hresult] at h
    exact absurd rfl h
  · exact hsame

end MappedSegment

open WalReader WalWriter MappedSegment

/-- A crash inside any append after any run of appends: reader and repair find the payloads of
the committed calls in order, and the interrupted one exactly if its slot was completed; the
boundary is not below any that was published before. -/
theorem append_crash_atomic (header : WalFileHeader) {segmentDataBytes : Nat}
    (hlimit : segmentDataBytes ≤ defaultSegmentDataBytes) (calls : List AppendCall) (c : AppendCall)
    {file : SegmentFile} {written : Bool}
    (hcrash : CrashImage ((create (finalizeHeader header) segmentDataBytes).appends segmentDataBytes calls)
      segmentDataBytes c file written) :
    let fresh := create (finalizeHeader header) segmentDataBytes
    let m := fresh.appends segmentDataBytes calls
    let payloads := fresh.committedPayloads segmentDataBytes calls ++ if written then [c.payload] else []
    ((m.append segmentDataBytes c).1 = .committed ↔
      0 < c.payload.length ∧ c.payload.length ≤ maxWalPayloadSize ∧
        m.committed + frameSize c.payload.length ≤ segmentDataBytes) ∧
    ((m.append segmentDataBytes c).1 ≠ .committed → (m.append segmentDataBytes c).2 = m) ∧
    ((openFile (some file)).1 = true ∧
      (readAll maxWalPayloadSize (openFile (some file)).2).1 = payloads ∧
      (readAll maxWalPayloadSize (openFile (some file)).2).2.1 = .boundaryReached) ∧
    ((recover file {}).1.success = true ∧
      (recover file {}).1.validRecords = payloads.length ∧
      (recover file {}).1.validBoundary = (payloads.map fun payload => frameSize payload.length).sum ∧
      (readAll maxWalPayloadSize (openFile (some (recover file {}).2)).2).1 = payloads) ∧
    (∃ generation boundary, file.selected = some (generation, boundary) ∧
      ∀ earlier, earlier <+: calls → (fresh.appends segmentDataBytes earlier).committed ≤ boundary) := by
  intro fresh m payloads
  obtain ⟨frames, hstores, hframes, -⟩ := (create_stores header segmentDataBytes).appends hlimit calls
  obtain ⟨frames', hholds, hfits, hframes'⟩ := hcrash.holds hstores hlimit
  have hpayloads : (frames ++ frames').map Frame.payload = payloads := by
    rw [List.map_append, hframes, hframes']
  rw [List.nil_append] at hholds hfits
  obtain ⟨generation, hselected⟩ := hholds.selected
  have hcommitted : (frameCodec.concat (frames ++ frames')).length ≤ defaultSegmentDataBytes :=
    Nat.le_trans hfits hlimit
  refine ⟨append_committed_iff m segmentDataBytes c, append_refused m segmentDataBytes c, ?_, ?_, ?_⟩
  · rw [← hpayloads]
    exact readAll_holds (Nat.le_refl _) hholds
  · obtain ⟨-, hvb, hrecords, -, -, hsucceeds⟩ := recover_eq {} hholds.openable hselected hcommitted
    have hsuccess := hsucceeds rfl rfl
    obtain ⟨hrecovered, -⟩ := recovered_holds {} hholds.openable hselected hcommitted hsuccess
    obtain ⟨-, hreread, -⟩ := readAll_holds (Nat.le_refl maxWalPayloadSize) hrecovered
    have hscan : file.scan.1 = frames ++ frames' := congrArg Prod.fst hholds.scan_eq
    rw [← hpayloads, ← length_concat, List.length_map]
    rw [hscan] at hrecords hreread
    refine ⟨hsuccess, hrecords, ?_, hreread⟩
    rw [hvb]
    unfold SegmentFile.validBoundary
    rw [hscan]
  · refine ⟨generation, _, hselected, ?_⟩
    rintro earlier ⟨later, hlater⟩
    obtain ⟨early, hearly, -, -⟩ := (create_stores header segmentDataBytes).appends hlimit earlier
    obtain ⟨-, -, -, hmonotone⟩ := hearly.appends hlimit later
    rw [← appends_append, hlater, hstores.committed, List.nil_append] at hmonotone
    rw [frameCodec.concat_append, List.length_append]
    exact Nat.le_trans hmonotone (Nat.le_add_right _ _)

/-- A crash inside the copy of the second frame of a segment. -/
theorem append_crash_atomic_second :
    let fresh := create (finalizeHeader ⟨List.replicate walHeaderSize 0, List.length_replicate⟩) 1052
    let m := fresh.appends 1052 [⟨1, 0, [7, 8]⟩]
    let file := (m.copyFrame (List.replicate 13 255)).image
    (readAll maxWalPayloadSize (openFile (some file)).2).1 = [[7, 8]] := by
  intro fresh m file
  have hfirst : (fresh.append 1052 ⟨1, 0, [7, 8]⟩).1 = .committed :=
    (append_committed_iff fresh 1052 ⟨1, 0, [7, 8]⟩).mpr (by decide)
  have hpayloads : fresh.committedPayloads 1052 [⟨1, 0, [7, 8]⟩] = [[7, 8]] := by
    unfold committedPayloads
    rw [if_pos hfirst]
    rfl
  obtain ⟨frames, hstores, hframes, -⟩ := (create_stores
    ⟨List.replicate walHeaderSize 0, List.length_replicate⟩ 1052).appends (by decide) [⟨1, 0, [7, 8]⟩]
  have hcommitted : m.committed = 14 := by
    have hlength := hstores.committed
    rw [List.nil_append, length_concat, hframes] at hlength
    exact hlength.trans (by rw [hpayloads]; rfl)
  have hsecond : (m.append 1052 ⟨1, 0, [9]⟩).1 = .committed := by
    apply (append_committed_iff m 1052 ⟨1, 0, [9]⟩).mpr
    rw [hcommitted]
    decide
  have hlength : (AppendCall.frame ⟨1, 0, [9]⟩).length = 13 :=
    (congrArg List.length (Frame.encodeFrame_eq ⟨1, 0, [9], rfl⟩)).trans (Frame.length_encode _)
  have hread := (append_crash_atomic ⟨List.replicate walHeaderSize 0, List.length_replicate⟩
    (by decide : 1052 ≤ defaultSegmentDataBytes) [⟨1, 0, [7, 8]⟩] ⟨1, 0, [9]⟩
    (.copying hsecond (List.replicate 13 255) (List.length_replicate.trans hlength.symm))).2.2.1.2.1
  exact hread.trans (by rw [hpayloads]; rfl)

end MicrostructureEngine
