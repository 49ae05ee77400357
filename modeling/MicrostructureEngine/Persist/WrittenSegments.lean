import MicrostructureEngine.Lib.SegmentedLog
import MicrostructureEngine.Persist.WalDirectory

/-!
# The segments of one writer

The segments that a writer has created stand side by side behind its first index. Each holds
the frames that were committed to it, or nothing where opening it came to no header; only the
last one is still written. What the directory held before stays as it was.
-/

namespace MicrostructureEngine

set_option autoImplicit false

/-- The file holds these frames, or none and is no segment yet. -/
def SegmentFile.Shelves (f : SegmentFile) (frames : List Frame) : Prop :=
  f.Holds frames ∨ (¬ f.Openable ∧ frames = [])

theorem SegmentFile.not_openable_nil (sidecar : Option (List UInt8)) : ¬ (SegmentFile.mk [] sidecar).Openable :=
  fun h => absurd h.1 (Nat.not_le.mpr (Nat.pos_of_ne_zero (Nat.succ_ne_zero 255)))

theorem SegmentFile.not_openable_zeros (size : Nat) (sidecar : Option (List UInt8)) :
    ¬ (SegmentFile.mk (List.replicate size 0) sidecar).Openable := by
  intro h
  have hmagic : ((SegmentFile.mk (List.replicate size 0) sidecar).header.take 8 == walMagic) = true := by
    have hvalid := h.2
    unfold validHeader at hvalid
    simp only [Bool.and_eq_true] at hvalid
    exact hvalid.1.1.1.1
  have hfirst : (77 : UInt8) ∈ (SegmentFile.mk (List.replicate size 0) sidecar).header.take 8 := by
    rw [beq_iff_eq.mp hmagic]
    exact List.mem_cons_self
  have hbyte : (77 : UInt8) ∈ List.replicate size (0 : UInt8) :=
    List.mem_of_mem_take (List.mem_of_mem_take hfirst)
  exact absurd (List.eq_of_mem_replicate hbyte) (by decide)

namespace Directory

/-- Behind `first`, and over what `D₀` held, stand the segments with these frames. -/
structure Shelves (D₀ D : Directory) (first : Nat) (parts : List (List Frame)) : Prop where
  paths : ∀ path, path ∈ D.paths ↔ path ∈ D₀.paths ∨ ∃ i < parts.length, path = ⟨first + i, .raw⟩
  files : ∀ i < parts.length, ∃ f, D.file ⟨first + i, .raw⟩ = some f ∧ f.Shelves (parts.getD i [])
  distinct : D₀.paths.Nodup → D.paths.Nodup
  fresh : ∀ i < parts.length, SegmentPath.mk (first + i) .raw ∉ D₀.paths

section Shelf
variable {D₀ D D' : Directory} {first : Nat} {parts : List (List Frame)}

theorem shelves_nil (D : Directory) (first : Nat) : D.Shelves D first [] where
  paths path := by
    refine ⟨.inl, ?_⟩
    rintro (h | ⟨i, hi, -⟩)
    · exact h
    · exact absurd hi (Nat.not_lt_zero i)
  files i hi := absurd hi (Nat.not_lt_zero i)
  distinct h := h
  fresh i hi := absurd hi (Nat.not_lt_zero i)

theorem index_add_ne {i n : Nat} (h : i < n) : (SegmentPath.mk (first + i) .raw).index ≠ first + n := by
  intro heq
  have hsum : first + i = first + n := heq
  omega

theorem Shelves.opened (h : Shelves D₀ D first parts) {f : SegmentFile} (hf : f.Shelves [])
    (hfresh : SegmentPath.mk (first + parts.length) .raw ∉ D.paths)
    (hpaths : ∀ path, path ∈ D'.paths ↔ path = ⟨first + parts.length, .raw⟩ ∨ path ∈ D.paths)
    (hnew : D'.file ⟨first + parts.length, .raw⟩ = some f)
    (hold : ∀ path : SegmentPath, path.index ≠ first + parts.length → D'.file path = D.file path)
    (hdistinct : D.paths.Nodup → D'.paths.Nodup) :
    Shelves D₀ D' first (parts ++ [[]]) where
  paths path := by
    rw [hpaths, h.paths, List.length_append, List.length_singleton]
    constructor
    · rintro (rfl | hpath | ⟨i, hi, rfl⟩)
      · exact .inr ⟨parts.length, Nat.lt_succ_self _, rfl⟩
      · exact .inl hpath
      · exact .inr ⟨i, Nat.lt_succ_of_lt hi, rfl⟩
    · rintro (hpath | ⟨i, hi, rfl⟩)
      · exact .inr (.inl hpath)
      · rcases Nat.lt_or_ge i parts.length with hlt | hge
        · exact .inr (.inr ⟨i, hlt, rfl⟩)
        · have heq : i = parts.length := by omega
          exact .inl (by rw [heq])
  files i hi := by
    rw [List.length_append, List.length_singleton] at hi
    rcases Nat.lt_or_ge i parts.length with hlt | hge
    · obtain ⟨f', hfile, hshelves⟩ := h.files i hlt
      refine ⟨f', (hold _ (index_add_ne hlt)).trans hfile, ?_⟩
      rw [List.getD_eq_getElem?_getD, List.getElem?_append_left hlt, ← List.getD_eq_getElem?_getD]
      exact hshelves
    · have heq : i = parts.length := by omega
      subst heq
      refine ⟨f, hnew, ?_⟩
      rw [List.getD_eq_getElem?_getD, List.getElem?_append_right (Nat.le_refl _), Nat.sub_self]
      exact hf
  distinct hD₀ := hdistinct (h.distinct hD₀)
  fresh i hi := by
    rw [List.length_append, List.length_singleton] at hi
    rcases Nat.lt_or_ge i parts.length with hlt | hge
    · exact h.fresh i hlt
    · have heq : i = parts.length := by omega
      subst heq
      exact fun hD₀ => hfresh ((h.paths _).mpr (.inl hD₀))

theorem Shelves.rewritten {front : List (List Frame)} {last last' : List Frame}
    (h : Shelves D₀ D first (front ++ [last])) {f : SegmentFile} (hf : f.Shelves last')
    (hpaths : ∀ path, path ∈ D'.paths ↔ path = ⟨first + front.length, .raw⟩ ∨ path ∈ D.paths)
    (hnew : D'.file ⟨first + front.length, .raw⟩ = some f)
    (hold : ∀ path : SegmentPath, path.index ≠ first + front.length → D'.file path = D.file path)
    (hdistinct : D.paths.Nodup → D'.paths.Nodup) :
    Shelves D₀ D' first (front ++ [last']) where
  paths path := by
    rw [hpaths, h.paths]
    simp only [List.length_append, List.length_singleton]
    constructor
    · rintro (rfl | h)
      · exact .inr ⟨front.length, Nat.lt_succ_self _, rfl⟩
      · exact h
    · exact .inr
  files i hi := by
    have hfiles := h.files i (by simpa using hi)
    rw [List.length_append, List.length_singleton] at hi
    rw [List.getD_eq_getElem?_getD] at hfiles ⊢
    rcases Nat.lt_or_ge i front.length with hlt | hge
    · obtain ⟨f', hfile, hshelves⟩ := hfiles
      rw [List.getElem?_append_left hlt] at hshelves ⊢
      exact ⟨f', (hold _ (index_add_ne hlt)).trans hfile, hshelves⟩
    · have heq : i = front.length := by omega
      subst heq
      rw [List.getElem?_append_right (Nat.le_refl _), Nat.sub_self]
      exact ⟨f, hnew, hf⟩
  distinct hD₀ := hdistinct (h.distinct hD₀)
  fresh i hi := h.fresh i (by simpa using hi)

end Shelf

end Directory

namespace WalWriter

/-- The segments of the directory are those of the writer, and the mapped one is the last. -/
structure Writes (w : WalWriter) (D₀ D : Directory) (first : Nat) (parts : List (List Frame)) : Prop where
  shelves : Directory.Shelves D₀ D first parts
  bounded : w.config.segmentDataBytes ≤ defaultSegmentDataBytes
  roomy : maxFrameSize ≤ w.config.segmentDataBytes
  mapped : w.mapping = .full → ∃ front last header, parts = front ++ [last] ∧
    w.segmentIndex = first + front.length ∧ w.header = finalizeHeader header ∧
    w.segment.Stores header w.config.segmentDataBytes last ∧ D.file w.currentPath = some w.segment.image

section Steps
variable {w : WalWriter} {D₀ D : Directory} {first : Nat} {parts : List (List Frame)}

theorem Writes.unmapped (h : Directory.Shelves D₀ D first parts)
    (hbounded : w.config.segmentDataBytes ≤ defaultSegmentDataBytes)
    (hroomy : maxFrameSize ≤ w.config.segmentDataBytes) (hmapping : w.mapping ≠ .full) :
    w.Writes D₀ D first parts where
  shelves := h
  bounded := hbounded
  roomy := hroomy
  mapped hfull := absurd hfull hmapping

/-- Opening a segment leaves the directory alone or adds an empty segment; it adds one, and maps
it, if it succeeds. -/
theorem openSegment_writes (hclosed : w.mapping = .closed)
    (hbounded : w.config.segmentDataBytes ≤ defaultSegmentDataBytes)
    (hroomy : maxFrameSize ≤ w.config.segmentDataBytes)
    (h : Directory.Shelves D₀ D first parts) (hindex : w.segmentIndex = first + parts.length)
    {header : WalFileHeader} (hheader : w.header = finalizeHeader header) (nowNs : Nat)
    (fault : Option OpenFault) :
    let opened := w.openSegment nowNs fault D
    ∃ parts', (parts' = parts ∨ parts' = parts ++ [[]]) ∧ opened.2.1.Writes D₀ opened.2.2 first parts' ∧
      (opened.1 = true → parts' = parts ++ [[]] ∧ opened.2.1.mapping = .full) := by
  have hpath : w.currentPath = ⟨first + parts.length, .raw⟩ := by
    unfold currentPath
    rw [hindex]
  have hunmapped : w.mapping ≠ .full := by
    rw [hclosed]
    decide
  have hwrite : ∀ {bytes} {sidecar : Option (List UInt8)} {D' : Directory},
      w.currentPath ∉ D.paths → ¬ (SegmentFile.mk bytes sidecar).Openable →
      D'.files = (D.write w.currentPath bytes).files →
      D'.sidecars w.segmentIndex = sidecar →
      (∀ path : SegmentPath, path.index ≠ first + parts.length → D'.sidecars path.index = D.sidecars path.index) →
        Directory.Shelves D₀ D' first (parts ++ [[]]) := by
    intro bytes sidecar D' hfresh hopen hfiles hsidecar hsidecars
    refine h.opened (f := ⟨bytes, sidecar⟩) (.inr ⟨hopen, rfl⟩) (hpath ▸ hfresh) ?_ ?_ ?_ ?_
    · intro path
      unfold Directory.paths
      rw [hfiles, ← hpath]
      exact Directory.mem_paths_write
    · unfold Directory.file
      rw [hfiles, Directory.lookup_write, hpath, if_pos rfl, ← hindex]
      dsimp only
      rw [hsidecar]
      rfl
    · intro path hne
      have hother : path ≠ w.currentPath := by
        rintro rfl
        exact hne (congrArg SegmentPath.index hpath)
      unfold Directory.file
      rw [hfiles, Directory.lookup_write, if_neg hother, hsidecars path hne]
    · intro hnodup
      unfold Directory.paths
      rw [hfiles]
      exact Directory.nodup_write hnodup
  have hzeros := fun sidecar => SegmentFile.not_openable_zeros (walHeaderSize + w.config.segmentDataBytes) sidecar
  have hbeside : ∀ {bytes : List UInt8} (path : SegmentPath), path.index ≠ first + parts.length →
      (D.writeSidecar w.segmentIndex bytes).sidecars path.index = D.sidecars path.index := by
    intro bytes path hne
    rw [← hindex] at hne
    exact Function.update_of_ne hne _ _
  have hat : ∀ bytes : List UInt8, (D.writeSidecar w.segmentIndex bytes).sidecars w.segmentIndex = some bytes :=
    fun bytes => Function.update_self _ _ _
  have hfree : ¬ (w.currentPath ∈ D.paths ∨ fault = some .create) → w.currentPath ∉ D.paths :=
    fun h hmem => h (.inl hmem)
  intro opened
  have hopened : opened = w.openSegment nowNs fault D := rfl
  unfold openSegment at hopened
  dsimp only at hopened
  split_ifs at hopened with hcreate hresize hmap hcreateMeta hresizeMeta hmapMeta
  · rw [hopened]
    exact ⟨parts, .inl rfl, .unmapped h hbounded hroomy hunmapped, fun hok => Bool.noConfusion hok⟩
  · rw [hopened]
    refine ⟨_, .inr rfl, .unmapped ?_ hbounded hroomy hunmapped, fun hok => Bool.noConfusion hok⟩
    exact hwrite (hfree hcreate) (SegmentFile.not_openable_nil _) rfl rfl fun _ _ => rfl
  · rw [hopened]
    refine ⟨_, .inr rfl, .unmapped ?_ hbounded hroomy hunmapped, fun hok => Bool.noConfusion hok⟩
    exact hwrite (hfree hcreate) (hzeros _) rfl rfl fun _ _ => rfl
  · rw [hopened]
    refine ⟨_, .inr rfl, .unmapped ?_ hbounded hroomy fun hfull => Mapping.noConfusion hfull,
      fun hok => Bool.noConfusion hok⟩
    exact hwrite (hfree hcreate) (hzeros _) rfl rfl fun _ _ => rfl
  · rw [hopened]
    refine ⟨_, .inr rfl, .unmapped ?_ hbounded hroomy fun hfull => Mapping.noConfusion hfull,
      fun hok => Bool.noConfusion hok⟩
    exact hwrite (hfree hcreate) (hzeros _) rfl (hat _) hbeside
  · rw [hopened]
    refine ⟨_, .inr rfl, .unmapped ?_ hbounded hroomy fun hfull => Mapping.noConfusion hfull,
      fun hok => Bool.noConfusion hok⟩
    exact hwrite (hfree hcreate) (hzeros _) rfl (hat _) hbeside
  · have hstores := MappedSegment.create_stores header w.config.segmentDataBytes
    rw [← hheader] at hstores
    have hfile : ∀ D' : Directory, (D'.store w.segmentIndex
        (.create w.header w.config.segmentDataBytes)).file w.currentPath = some _ :=
      fun D' => D'.file_store w.segmentIndex _
    rw [hopened]
    refine ⟨_, .inr rfl, ⟨?_, hbounded, hroomy, fun _ => ⟨parts, [], header, rfl, hindex, hheader, hstores, hfile _⟩⟩,
      fun _ => ⟨rfl, rfl⟩⟩
    refine h.opened (.inl (hstores.holds hbounded)) (hpath ▸ hfree hcreate) ?_
      ((congrArg _ hpath.symm).trans (hfile _)) ?_ ?_
    · intro path
      rw [← hpath]
      unfold Directory.store
      show path ∈ ((D.write _ _).write _ _).paths ↔ _
      rw [Directory.mem_paths_write, Directory.mem_paths_write]
      constructor
      · rintro (hpath | hpath)
        · exact .inl hpath
        · exact hpath
      · exact .inr
    · intro path hne
      have hother : path ≠ w.currentPath := by
        rintro rfl
        exact hne (congrArg SegmentPath.index hpath)
      rw [Directory.file_store_ne (by rw [hindex]; exact hne), Directory.file_write_ne hother]
    · exact fun hnodup => Directory.nodup_write (Directory.nodup_write hnodup)

theorem Writes.truncated (h : w.Writes D₀ D first parts) (hfull : w.mapping = .full) :
    Directory.Shelves D₀ (D.truncate w.currentPath w.finalSize) first parts := by
  obtain ⟨front, last, header, rfl, hindex, hheader, hstores, hfile⟩ := h.mapped hfull
  have hlookup : D.files.lookup w.currentPath = some w.segment.bytes ∧
      D.sidecars w.currentPath.index = some w.segment.slots := by
    unfold Directory.file at hfile
    obtain ⟨bytes, hbytes, himage⟩ := Option.map_eq_some_iff.mp hfile
    unfold MappedSegment.image at himage
    rw [SegmentFile.mk.injEq] at himage
    exact ⟨hbytes.trans (congrArg some himage.1), himage.2⟩
  have hpath : w.currentPath = ⟨first + front.length, .raw⟩ := by
    unfold currentPath
    rw [hindex]
  have hholds : (SegmentFile.mk (w.segment.bytes.take w.finalSize) (some w.segment.slots)).Holds last := by
    obtain ⟨free, hbytes, -⟩ := hstores.bytes
    obtain ⟨hslots, generation, hselect⟩ := hstores.select h.bounded
    have hcut : w.segment.bytes.take w.finalSize =
        (finalizeHeader header).image ++ (frameCodec.concat last ++ []) := by
      have hlength : ((finalizeHeader header).image ++ frameCodec.concat last).length = w.finalSize := by
        rw [List.length_append, (finalizeHeader header).size, ← hstores.committed]
        rfl
      rw [hbytes, ← List.append_assoc, List.take_left' hlength, List.append_nil]
    rw [hcut]
    exact MappedSegment.holds_of_bytes header last [] _ hslots hselect
  unfold Directory.truncate
  rw [hlookup.1]
  refine h.shelves.rewritten (.inl hholds) ?_ ?_ ?_ Directory.nodup_write
  · intro path
    rw [← hpath]
    exact Directory.mem_paths_write
  · rw [← hpath, Directory.file_write, hlookup.2]
  · intro path hne
    apply Directory.file_write_ne
    rintro rfl
    exact hne (congrArg SegmentPath.index hpath)

theorem Writes.rotate (h : w.Writes D₀ D first parts) (nowNs : Nat) (system : SystemAnswers) :
    let rotated := w.rotate nowNs system D
    ∃ parts', (parts' = parts ∨ parts' = parts ++ [[]]) ∧ rotated.2.1.Writes D₀ rotated.2.2 first parts' ∧
      (rotated.1 = true → parts' = parts ++ [[]] ∧ rotated.2.1.mapping = .full) := by
  intro rotated
  have hrotated : rotated = w.rotate nowNs system D := rfl
  unfold WalWriter.rotate at hrotated
  split_ifs at hrotated with hflush htruncate
  · rw [hrotated]
    exact ⟨parts, .inl rfl, h, fun hok => Bool.noConfusion hok⟩
  · rw [hrotated]
    refine ⟨parts, .inl rfl, .unmapped h.shelves h.bounded h.roomy fun hfull => Mapping.noConfusion hfull, ?_⟩
    exact fun hok => Bool.noConfusion hok
  · have hfull : w.mapping = .full := by
      unfold flush at hflush
      simp only [Bool.not_eq_true', Bool.not_eq_false, Bool.and_eq_true, beq_iff_eq] at hflush
      exact hflush.1
    obtain ⟨front, last, header, hparts, hindex, hheader, -, -⟩ := h.mapped hfull
    have hnext : w.segmentIndex + 1 = first + parts.length := by
      rw [hindex, hparts, List.length_append, List.length_singleton, Nat.add_assoc]
    rw [hrotated]
    exact openSegment_writes (w := { w with mapping := .closed, segmentIndex := w.segmentIndex + 1 }) rfl
      h.bounded h.roomy (h.truncated hfull) hnext hheader nowNs system.fault

theorem Writes.finalize (h : w.Writes D₀ D first parts) (system : SystemAnswers) :
    (w.finalize system D).2.1.Writes D₀ (w.finalize system D).2.2 first parts := by
  unfold WalWriter.finalize
  split_ifs with hclosed hflush htruncate
  · exact h
  · exact h
  · exact .unmapped h.shelves h.bounded h.roomy fun hfull => Mapping.noConfusion hfull
  · refine .unmapped (h.truncated ?_) h.bounded h.roomy fun hfull => Mapping.noConfusion hfull
    unfold flush at hflush
    simp only [Bool.not_eq_true', Bool.not_eq_false, Bool.and_eq_true, beq_iff_eq] at hflush
    exact hflush.1

/-- An append that the writer commits adds its frame to the last segment; any other leaves
everything alone. -/
theorem Writes.append (h : w.Writes D₀ D first parts) {c : AppendCall} {result : AppendResult} {w' : WalWriter}
    {D' : Directory} (happend : w.append c D = some (result, w', D')) :
    ∃ parts' frames, SegmentedLog.Grows parts parts' frames ∧ w'.Writes D₀ D' first parts' ∧
      frames.map Frame.payload = if result = .committed then [c.payload] else [] := by
  unfold WalWriter.append at happend
  cases hmapping : w.mapping with
  | closed =>
    rw [hmapping] at happend
    cases happend
    exact ⟨parts, [], .same parts, h, rfl⟩
  | dataOnly =>
    rw [hmapping] at happend
    dsimp only at happend
    split at happend
    · cases happend
    · rename_i hrefused
      cases happend
      rw [if_neg hrefused]
      exact ⟨parts, [], .same parts, h, rfl⟩
  | full =>
    rw [hmapping] at happend
    dsimp only at happend
    split at happend
    · cases happend
      obtain ⟨front, last, header, rfl, hindex, hheader, hstores, hfile⟩ := h.mapped hmapping
      rename_i hcommitted
      rcases MappedSegment.append_cases w.segment w.config.segmentDataBytes c with
        ⟨f, hpayload, -, hfits, hresult⟩ | ⟨hrefused, -, -⟩
      · have hnext := hstores.published h.bounded hfits
        have hpath : w.currentPath = ⟨first + front.length, .raw⟩ := by
          unfold currentPath
          rw [hindex]
        rw [hresult]
        refine ⟨_, [f], .added front last [f], ⟨?_, h.bounded, h.roomy, fun _ => ?_⟩, ?_⟩
        · refine h.shelves.rewritten (.inl (hnext.holds h.bounded)) ?_
            ((congrArg _ hpath.symm).trans (Directory.file_store D w.segmentIndex _)) ?_ Directory.nodup_write
          · intro path
            rw [← hpath]
            exact Directory.mem_paths_write
          · intro path hne
            exact Directory.file_store_ne (by rw [hindex]; exact hne)
        · exact ⟨front, _, header, rfl, hindex, hheader, hnext, Directory.file_store D w.segmentIndex _⟩
        · rw [if_pos rfl, List.map_singleton, hpayload]
      · exact absurd hcommitted hrefused
    · rename_i hrefused
      cases happend
      rw [if_neg hrefused]
      exact ⟨parts, [], .same parts, h, rfl⟩

theorem Writes.appendRotating (h : w.Writes D₀ D first parts) {nowNs : Nat} {system : SystemAnswers}
    {c : AppendCall} {committed : Bool} {w' : WalWriter} {D' : Directory}
    (happend : w.appendRotating nowNs system c D = some (committed, w', D')) :
    ∃ parts' frames, SegmentedLog.Grows parts parts' frames ∧ w'.Writes D₀ D' first parts' ∧
      frames.map Frame.payload = if committed then [c.payload] else [] := by
  have hlast : ∀ {w : WalWriter} {D : Directory} {parts : List (List Frame)}, w.Writes D₀ D first parts →
      ((w.append c D).map fun result => (decide (result.1 = .committed), result.2)) = some (committed, w', D') →
      ∃ parts' frames, SegmentedLog.Grows parts parts' frames ∧ w'.Writes D₀ D' first parts' ∧
        frames.map Frame.payload = if committed then [c.payload] else [] := by
    intro w D parts h happend
    obtain ⟨⟨result, w'', D''⟩, hresult, heq⟩ := Option.map_eq_some_iff.mp happend
    cases heq
    obtain ⟨parts', frames, hgrows, hwrites, hpayloads⟩ := h.append hresult
    refine ⟨parts', frames, hgrows, hwrites, ?_⟩
    simp only [decide_eq_true_eq]
    exact hpayloads
  unfold WalWriter.appendRotating at happend
  dsimp only at happend
  split_ifs at happend with hrotates hfailed
  · rw [Option.some.injEq, Prod.mk.injEq] at happend
    obtain ⟨rfl, hrest⟩ := happend
    obtain ⟨parts', hparts, hrotated, -⟩ := h.rotate nowNs system
    rw [hrest] at hrotated
    rcases hparts with rfl | rfl
    · exact ⟨_, [], .same _, hrotated, rfl⟩
    · exact ⟨_, [], .opened _, hrotated, rfl⟩
  · obtain ⟨parts', hparts, hrotated, -⟩ := h.rotate nowNs system
    obtain ⟨parts'', frames, hgrows, hwrites, hpayloads⟩ := hlast hrotated happend
    rcases hparts with rfl | rfl
    · exact ⟨_, frames, hgrows, hwrites, hpayloads⟩
    · exact ⟨_, frames, .trans (.opened _) hgrows, hwrites, hpayloads⟩
  · exact hlast h happend

/-- A new writer has created its first segment if it opened its directory, and one or none if not. -/
theorem openDirectory_writes (config : WalConfig) (header : WalFileHeader) (nowNs : Nat) (fault : Option OpenFault)
    (D : Directory) :
    let opened := openDirectory config header nowNs fault D
    ∃ parts, (parts = [] ∨ parts = [[]]) ∧ opened.2.1.Writes D opened.2.2 config.firstSegmentIndex parts ∧
      (opened.1 = true → parts = [[]] ∧ opened.2.1.mapping = .full) := by
  intro opened
  have hopened : opened = openDirectory config header nowNs fault D := rfl
  unfold openDirectory at hopened
  split_ifs at hopened with hsize
  · rw [hopened]
    have hroomy : maxFrameSize ≤ defaultSegmentDataBytes := by decide
    exact ⟨[], .inl rfl, .unmapped (D.shelves_nil _) (Nat.le_refl _) hroomy fun hfull => Mapping.noConfusion hfull,
      fun hok => Bool.noConfusion hok⟩
  · rw [not_or, Nat.not_lt, Nat.not_lt] at hsize
    rw [hopened]
    exact openSegment_writes
      (w := { config := config, header := finalizeHeader header, segmentIndex := config.firstSegmentIndex }) rfl
      hsize.2 hsize.1 (D.shelves_nil config.firstSegmentIndex) rfl rfl nowNs fault

end Steps

end WalWriter

end MicrostructureEngine
