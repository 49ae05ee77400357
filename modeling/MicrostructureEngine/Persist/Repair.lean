import MicrostructureEngine.Persist.WalWriter

/-!
# Repair

`recover` scans with bounds of its own: what is left of the committed bytes and what is left
of the file. Both together are the region that a reader takes for data, so the two stop at
the same frame, and what a repair leaves behind stores exactly the frames in front of it.
-/

namespace MicrostructureEngine

set_option autoImplicit false

namespace WalWriter

section Scan
variable {committed physicalData position : Nat} {stream : List UInt8}

def allowed (committed physicalData position : Nat) (stream : List UInt8) : List UInt8 :=
  stream.take (min committed physicalData - position)

theorem length_allowed (hstream : stream.length = physicalData - position) :
    (allowed committed physicalData position stream).length = min committed physicalData - position := by
  unfold allowed
  rw [List.length_take]
  omega

theorem take_allowed (hstream : stream.length = physicalData - position) {n : Nat}
    (hn : n ≤ (allowed committed physicalData position stream).length) :
    (allowed committed physicalData position stream).take n = stream.take n := by
  rw [length_allowed hstream] at hn
  unfold allowed
  rw [List.take_take, Nat.min_eq_left hn]

theorem slice_allowed (hstream : stream.length = physicalData - position) {offset size : Nat}
    (hn : offset + size ≤ (allowed committed physicalData position stream).length) :
    slice offset size (allowed committed physicalData position stream) = slice offset size stream := by
  rw [length_allowed hstream] at hn
  unfold slice allowed
  rw [List.drop_take, List.take_take, Nat.min_eq_left (by omega)]

/-- A turn of the repair finds a frame where a reader would deliver one. -/
theorem recoverFrame_eq (hstream : stream.length = physicalData - position) :
    recoverFrame committed physicalData stream position =
      if (headStatus (allowed committed physicalData position stream)).1 = .ok then
        some (headStatus (allowed committed physicalData position stream)).2
      else none := by
  have hlength : (allowed committed physicalData position stream).length =
      min committed physicalData - position := length_allowed hstream
  have htake : ∀ n, n ≤ (allowed committed physicalData position stream).length →
      (allowed committed physicalData position stream).take n = stream.take n :=
    fun n => take_allowed hstream
  have hslice : ∀ offset size, offset + size ≤ (allowed committed physicalData position stream).length →
      slice offset size (allowed committed physicalData position stream) = slice offset size stream :=
    fun offset size => slice_allowed hstream
  generalize allowed committed physicalData position stream = region at hlength htake hslice ⊢
  unfold recoverFrame headStatus
  by_cases hshort : region.length < framePrefixSize
  · rw [if_pos (by omega)]
    by_cases hnil : region = []
    · rw [if_pos hnil]
      rfl
    · rw [if_neg hnil, if_pos hshort]
      rfl
  have hnil : region ≠ [] := by
    intro hnil
    rw [hnil] at hshort
    exact hshort (Nat.zero_lt_succ _)
  have hfull : (stream.take framePrefixSize).length = framePrefixSize := by
    rw [List.length_take]
    omega
  rw [if_neg (by omega), if_neg hnil, if_neg hshort, htake _ (Nat.not_lt.mp hshort)]
  dsimp only
  generalize hp : FramePrefix.ofImage (stream.take framePrefixSize) = p
  by_cases hbad : (!validPayloadLength p.payloadLength) = true
  · -- eight zero bytes announce a payload of length zero
    rw [if_pos (.inr hbad)]
    by_cases hzero : p = ⟨0, 0, 0⟩
    · rw [if_pos hzero]
      rfl
    · rw [if_neg hzero, if_pos hbad]
      rfl
  have hzero : p ≠ ⟨0, 0, 0⟩ := by
    intro hzero
    rw [hzero] at hbad
    exact hbad rfl
  rw [if_neg (fun h => h.elim (fun hne => hne hfull) hbad), if_neg hzero, if_neg hbad]
  by_cases hover : region.length < frameSize p.payloadLength
  · rw [if_pos (by omega), if_pos hover]
    rfl
  rw [if_neg (by omega), if_neg hover]
  have hsize : framePrefixSize + p.payloadLength + frameCrcSize ≤ region.length := Nat.not_lt.mp hover
  have htail : ((stream.drop framePrefixSize).take (p.payloadLength + frameCrcSize)).length =
      p.payloadLength + frameCrcSize := by
    rw [List.length_take, List.length_drop]
    omega
  have hpayload : stream.take framePrefixSize ++
      ((stream.drop framePrefixSize).take (p.payloadLength + frameCrcSize)).take p.payloadLength =
        region.take (framePrefixSize + p.payloadLength) := by
    rw [List.take_take, Nat.min_eq_left (Nat.le_add_right _ _), htake _ (by omega)]
    exact take_covered.symm
  have hstored : ((stream.drop framePrefixSize).take (p.payloadLength + frameCrcSize)).drop p.payloadLength =
      slice (framePrefixSize + p.payloadLength) frameCrcSize region := by
    rw [hslice _ _ hsize, List.drop_take, List.drop_drop, Nat.add_sub_cancel_left]
    rfl
  rw [if_neg (not_not.mpr htail), hpayload, hstored]
  by_cases hcrc : (crc32 (region.take (framePrefixSize + p.payloadLength)) 0).toNat ≠
      LittleEndian.decode (slice (framePrefixSize + p.payloadLength) frameCrcSize region)
  · rw [if_pos hcrc, if_pos hcrc]
    rfl
  · rw [if_neg hcrc, if_neg hcrc]
    rfl

end Scan

section Loop
variable {committed physicalData : Nat}

theorem allowed_drop {position n : Nat} {stream : List UInt8} :
    allowed committed physicalData (position + n) (stream.drop n) =
      (allowed committed physicalData position stream).drop n := by
  unfold allowed
  rw [List.drop_take, Nat.sub_sub]

/-- The repair walks over the frames of the region, whatever the bounds it computes with. -/
theorem recoverLoop_eq {region : List UInt8} : ∀ (n position records : Nat) (stream : List UInt8),
    stream.length = physicalData - position → allowed committed physicalData position stream = region →
    region.length < n →
      recoverLoop committed physicalData n stream position records =
        (position + (frameCodec.concat (frameCodec.scan region).1).length,
          records + (frameCodec.scan region).1.length) := by
  induction region using frameCodec.stream_induction with
  | stop region hhead =>
    intro n position records stream hstream hregion hn
    obtain ⟨k, rfl⟩ : ∃ k, n = k + 1 := ⟨n - 1, by omega⟩
    rw [frameCodec.scan_of_none hhead]
    unfold recoverLoop
    rcases headStatus_cases region with ⟨f, rest, rfl, _⟩ | ⟨_, hstatus⟩
    · exact absurd ((frameCodec.head_encode f rest).symm.trans hhead) (Option.some_ne_none _)
    · rw [recoverFrame_eq hstream, hregion, if_neg hstatus]
      split
      · rfl
      · rfl
  | step f rest ih =>
    intro n position records stream hstream hregion hn
    obtain ⟨k, rfl⟩ : ∃ k, n = k + 1 := ⟨n - 1, by omega⟩
    have hpos := frameCodec.length_encode_pos f
    have hsize : (frameCodec.encode f).length = f.size := f.length_encode
    have hbound : (allowed committed physicalData position stream).length =
        min committed physicalData - position := length_allowed hstream
    rw [hregion, List.length_append] at hbound
    rw [List.length_append] at hn
    have hnext : allowed committed physicalData (position + f.size) (stream.drop f.size) = rest := by
      rw [allowed_drop, hregion]
      exact drop_size f rest
    rw [frameCodec.scan_encode]
    unfold recoverLoop
    rw [if_pos (by omega), recoverFrame_eq hstream, hregion]
    have hstatus : headStatus (frameCodec.encode f ++ rest) = (.ok, f.size) := headStatus_encode f rest
    rw [hstatus, if_pos rfl]
    dsimp only
    rw [ih k (position + f.size) (records + 1) (stream.drop f.size)
      (by rw [List.length_drop]; omega) hnext (by omega), frameCodec.concat_cons, List.length_append,
      List.length_cons, hsize]
    congr 1 <;> omega

end Loop

end WalWriter

/-! ## The sidecar that a repair writes -/

namespace SegmentFile

theorem selected_recovered (bytes : List UInt8) (generation : Nat) {boundary : Nat} (h : boundary < 2 ^ 64) :
    ∃ g, (SegmentFile.mk bytes (some (WalWriter.recoveredMetadata generation boundary))).selected =
      some (g, boundary) := by
  obtain ⟨g, hg⟩ := selectSlot_same (generation + 1) (generation + 2) h
  refine ⟨g, ?_⟩
  rw [selected_of_slots]
  · exact hg
  · simp [WalWriter.recoveredMetadata, boundarySlotSize]

end SegmentFile

namespace WalWriter
open SegmentFile

section Recover
variable {f : SegmentFile} {generation committed : Nat} (system : RepairSystem)

theorem scanned_eq (hselected : f.selected = some (generation, committed)) :
    recoverLoop committed f.data.length (f.data.length + 1) f.data 0 0 = (f.validBoundary, f.scan.1.length) := by
  have hregion : allowed committed f.data.length 0 f.data = f.region := by
    unfold allowed region
    rw [boundary_of_selected hselected, Nat.sub_zero]
  have hle := f.boundary_le
  rw [recoverLoop_eq _ _ _ _ (Nat.sub_zero _).symm hregion (by rw [f.length_region]; omega), Nat.zero_add,
    Nat.zero_add]
  rfl

/-- What `recover` reports, and the files it leaves behind. -/
theorem recover_eq (hopen : f.Openable) (hselected : f.selected = some (generation, committed))
    (hcommitted : committed ≤ defaultSegmentDataBytes) :
    (recover f system).1.committedBoundary = committed ∧
      (recover f system).1.validBoundary = f.validBoundary ∧
      (recover f system).1.validRecords = f.scan.1.length ∧
      (recover f system).1.truncated =
        (f.validBoundary != committed || f.bytes.length != walHeaderSize + f.validBoundary) ∧
      ((recover f system).1.success = true →
        (recover f system).2 = ⟨f.bytes.take (walHeaderSize + f.validBoundary),
          some (recoveredMetadata generation f.validBoundary)⟩) ∧
      (system.truncates = true → system.sidecarLost = none → (recover f system).1.success = true) := by
  have hheader : ¬ (f.bytes.length < walHeaderSize ∨ (!validHeader f.header) = true) := by
    rintro (hshort | hinvalid)
    · exact Nat.not_lt.mpr hopen.1 hshort
    · rw [hopen.2] at hinvalid
      cases hinvalid
  unfold recover
  rw [hselected]
  dsimp only
  rw [if_neg (Nat.not_lt.mpr hcommitted), if_neg hheader, scanned_eq hselected]
  dsimp only
  have hbytes : (if (f.validBoundary != committed || f.bytes.length != walHeaderSize + f.validBoundary) = true
      then f.bytes.take (walHeaderSize + f.validBoundary) else f.bytes) =
        f.bytes.take (walHeaderSize + f.validBoundary) := by
    split
    · rfl
    · rename_i hkept
      simp only [Bool.or_eq_true, bne_iff_ne, not_or, not_not] at hkept
      exact (List.take_of_length_le (Nat.le_of_eq hkept.2)).symm
  rw [hbytes]
  split
  · rename_i hstuck
    refine ⟨rfl, rfl, rfl, rfl, fun hs => absurd hs Bool.false_ne_true, ?_⟩
    intro htruncates
    rw [htruncates, Bool.not_true, Bool.and_false] at hstuck
    cases hstuck
  · split
    · rename_i hlost
      refine ⟨rfl, rfl, rfl, rfl, fun hs => absurd hs Bool.false_ne_true, ?_⟩
      intro _ hkept
      rw [hlost] at hkept
      cases hkept
    · exact ⟨rfl, rfl, rfl, rfl, fun _ => rfl, fun _ _ => rfl⟩

/-- A repair that has nothing to cut leaves the bytes of the segment alone. -/
theorem recover_bytes (f : SegmentFile) (h : (recover f system).1.truncated = false) :
    (recover f system).2.bytes = f.bytes := by
  unfold recover at h ⊢
  split
  · rfl
  · rename_i s hs
    rw [hs] at h
    dsimp only at h ⊢
    split
    · rfl
    · split
      · rfl
      · rename_i hdefault hheader
        rw [if_neg hdefault, if_neg hheader] at h
        split
        · rfl
        · rename_i hcut
          rw [if_neg hcut] at h
          split
          · rename_i hlost
            rw [hlost] at h
            dsimp only at h
            rw [h]
            rfl
          · rename_i hlost
            rw [hlost] at h
            dsimp only at h
            rw [h]
            rfl

theorem recovered_holds (hopen : f.Openable) (hselected : f.selected = some (generation, committed))
    (hcommitted : committed ≤ defaultSegmentDataBytes) (hsuccess : (recover f system).1.success = true) :
    (recover f system).2.Holds f.scan.1 ∧
      (recover f system).2.bytes.length = walHeaderSize + f.validBoundary := by
  obtain ⟨-, -, -, -, hfiles, -⟩ := recover_eq system hopen hselected hcommitted
  have hle : f.validBoundary ≤ f.data.length := Nat.le_trans f.validBoundary_le f.boundary_le
  have hphysical : f.data.length = f.bytes.length - walHeaderSize := List.length_drop
  have hheader := hopen.1
  have hlength : (f.bytes.take (walHeaderSize + f.validBoundary)).length = walHeaderSize + f.validBoundary := by
    rw [List.length_take]
    omega
  have hvb : f.validBoundary ≤ committed := by
    have hboundary := f.validBoundary_le
    rw [boundary_of_selected hselected] at hboundary
    exact Nat.le_trans hboundary (Nat.min_le_left _ _)
  have hbound : f.validBoundary < 2 ^ 64 := by
    have hdefault : defaultSegmentDataBytes < 2 ^ 64 := by
      unfold defaultSegmentDataBytes
      omega
    omega
  rw [hfiles hsuccess]
  refine ⟨⟨⟨?_, ?_⟩, selected_recovered _ _ hbound, ?_⟩, hlength⟩
  · dsimp only
    omega
  · unfold header
    rw [List.take_take, Nat.min_eq_left (Nat.le_add_right _ _)]
    exact hopen.2
  · unfold data
    dsimp only
    rw [List.drop_take, Nat.add_sub_cancel_left]
    exact (congrArg (frameCodec.concat f.scan.1 <+: ·) f.take_validBoundary).mpr (List.prefix_refl _)

theorem recover_kept {frames : List Frame} (h : f.Holds frames)
    (hend : f.bytes.length = walHeaderSize + (frameCodec.concat frames).length)
    (hcommitted : (frameCodec.concat frames).length ≤ defaultSegmentDataBytes) :
    (recover f system).1.truncated = false ∧ (recover f system).2.bytes = f.bytes ∧
      (recover f system).1.committedBoundary = (frameCodec.concat frames).length ∧
      (recover f system).1.validBoundary = (frameCodec.concat frames).length ∧
      ((recover f system).1.success = true →
        (recover f system).2.selected.map Prod.snd = some (frameCodec.concat frames).length) := by
  obtain ⟨generation, hselected⟩ := h.selected
  obtain ⟨hcb, hvb, -, htruncated, hfiles, -⟩ := recover_eq system h.openable hselected hcommitted
  have hvalid : f.validBoundary = (frameCodec.concat frames).length := by
    unfold SegmentFile.validBoundary
    rw [h.scan_eq]
  have hkept : (recover f system).1.truncated = false := by
    rw [htruncated, hvalid, hend]
    simp
  refine ⟨hkept, ?_, hcb, hvb.trans hvalid, ?_⟩
  · exact recover_bytes system f hkept
  · intro hsuccess
    have hbound : f.validBoundary < 2 ^ 64 := by
      have hdefault : defaultSegmentDataBytes < 2 ^ 64 := by
        unfold defaultSegmentDataBytes
        omega
      omega
    obtain ⟨g, hg⟩ := selected_recovered (f.bytes.take (walHeaderSize + f.validBoundary)) generation hbound
    rw [hfiles hsuccess, hg, ← hvalid]
    rfl

end Recover

end WalWriter

theorem length_concat (frames : List Frame) :
    (frameCodec.concat frames).length =
      ((frames.map Frame.payload).map fun payload => frameSize payload.length).sum := by
  induction frames with
  | nil => rfl
  | cons f frames ih =>
    rw [frameCodec.concat_cons, List.length_append, ih, List.map_cons, List.map_cons, List.sum_cons]
    exact congrArg (· + _) f.length_encode

open WalReader WalWriter

/-- Reader and repair agree on every segment with a header and a boundary: they stop behind the
same frame, a repaired segment reads the same up to its boundary, and a second repair changes
neither the segment nor its boundary. -/
theorem recover_agrees {f : SegmentFile} {generation committed : Nat} (hopen : f.Openable)
    (hselected : f.selected = some (generation, committed)) (hcommitted : committed ≤ defaultSegmentDataBytes)
    (system : RepairSystem) :
    let read := readAll maxWalPayloadSize (openFile (some f)).2
    let repaired := recover f system
    (openFile (some f)).1 = true ∧ read.2.1 ≠ .ok ∧
      repaired.1.validRecords = read.1.length ∧
      repaired.1.validBoundary = (read.1.map fun payload => frameSize payload.length).sum ∧
      (system.truncates = true → system.sidecarLost = none → repaired.1.success = true) ∧
      (repaired.1.success = true →
        (openFile (some repaired.2)).1 = true ∧
          (readAll maxWalPayloadSize (openFile (some repaired.2)).2).1 = read.1 ∧
          (readAll maxWalPayloadSize (openFile (some repaired.2)).2).2.1 = .boundaryReached ∧
          ∀ system' : RepairSystem,
            let again := recover repaired.2 system'
            again.1.truncated = false ∧ again.2.bytes = repaired.2.bytes ∧
              again.1.committedBoundary = repaired.1.validBoundary ∧
              again.1.validBoundary = repaired.1.validBoundary ∧
              (again.1.success = true →
                again.2.selected.map Prod.snd = repaired.2.selected.map Prod.snd)) := by
  intro read repaired
  have hread : read = readAll maxWalPayloadSize (opened f) := by
    show readAll _ (openFile (some f)).2 = _
    rw [openFile_openable hopen]
  obtain ⟨hpayloads, hstatus⟩ := readAll_opened (Nat.le_refl maxWalPayloadSize) f
  rw [← hread] at hpayloads hstatus
  obtain ⟨_, hvb, hrecords, _, _, hsucceeds⟩ := recover_eq system hopen hselected hcommitted
  refine ⟨congrArg Prod.fst (openFile_openable hopen), ?_, ?_, ?_, hsucceeds, ?_⟩
  · rw [hstatus]
    rcases headStatus_cases f.scan.2 with ⟨frame, rest, heq, _⟩ | ⟨_, hne⟩
    · have hnone := (frameCodec.scan_spec f.region).2
      exact absurd ((frameCodec.head_eq_some.mpr heq).symm.trans hnone) (Option.some_ne_none _)
    · exact hne
  · rw [hpayloads, List.length_map]
    exact hrecords
  · rw [hpayloads, ← length_concat]
    exact hvb
  · intro hsuccess
    obtain ⟨hholds, hend⟩ := recovered_holds system hopen hselected hcommitted hsuccess
    obtain ⟨hreopen, hsame, hreached⟩ := readAll_holds (Nat.le_refl maxWalPayloadSize) hholds
    refine ⟨hreopen, hsame.trans hpayloads.symm, hreached, ?_⟩
    intro system' again
    have hle : (frameCodec.concat f.scan.1).length ≤ defaultSegmentDataBytes := by
      have hboundary := f.validBoundary_le
      rw [SegmentFile.boundary_of_selected hselected] at hboundary
      exact Nat.le_trans hboundary (Nat.le_trans (Nat.min_le_left _ _) hcommitted)
    obtain ⟨hkept, hbytes, hcb, hvb', hselects⟩ := recover_kept system' hholds hend hle
    obtain ⟨g, hg⟩ := hholds.selected
    refine ⟨hkept, hbytes, hcb.trans hvb.symm, hvb'.trans hvb.symm, ?_⟩
    intro hagain
    rw [hselects hagain, hg]
    rfl

/-- A segment whose sidecar promises more than the file holds, with one frame in front of three
stray bytes. -/
def overlongSegment : SegmentFile where
  bytes := (finalizeHeader .zeroed).image ++
    (encodeFrame maxFrameSize 1 0 [7] ++ [1, 2, 3])
  sidecar := some (makeSlot 3 100 ++ makeSlot 2 0)

theorem recover_agrees_overlong :
    overlongSegment.Openable ∧ overlongSegment.selected = some (3, 100) ∧
      (recover overlongSegment {}).1.validRecords =
        (readAll maxWalPayloadSize (openFile (some overlongSegment)).2).1.length := by
  have hopen : overlongSegment.Openable := SegmentFile.openable_header _ _ _
  have hselected : overlongSegment.selected = some (3, 100) := by
    have hfirst : selectStep none (makeSlot 3 100) = some (3, 100) :=
      selectStep_makeSlot (by omega) (by omega) (fun b hb => absurd hb (Option.not_mem_none b))
    have hsecond : selectStep (some (3, 100)) (makeSlot 2 0) = some (3, 100) :=
      selectStep_older (by omega) (Nat.le_succ 2)
    unfold overlongSegment
    rw [SegmentFile.selected_of_slots (by rw [List.length_append, length_makeSlot, length_makeSlot]; rfl),
      selectSlot_append (length_makeSlot _ _) (length_makeSlot _ _), hfirst, hsecond]
  exact ⟨hopen, hselected, (recover_agrees hopen hselected (by decide) {}).2.2.1⟩

end MicrostructureEngine
