import MicrostructureEngine.Persist.WrittenSegments

/-!
# Segment headers

No call on a writer takes the header from a segment: files are created only where there are none,
the mapping keeps its header, and a cut leaves it in place. So every segment of a writer but the
last one holds the frames that were committed to it, and the last one does while it is mapped.
-/

namespace MicrostructureEngine

set_option autoImplicit false

theorem SegmentFile.Openable.take {bytes : List UInt8} {sidecar : Option (List UInt8)} {size : Nat}
    (h : (SegmentFile.mk bytes sidecar).Openable) (hsize : walHeaderSize ≤ size) :
    (SegmentFile.mk (bytes.take size) sidecar).Openable := by
  have hlong : walHeaderSize ≤ bytes.length := h.1
  refine ⟨?_, ?_⟩
  · show walHeaderSize ≤ (bytes.take size).length
    rw [List.length_take]
    exact Nat.le_min.mpr ⟨hsize, hlong⟩
  · have hheader : (SegmentFile.mk (bytes.take size) sidecar).header = (SegmentFile.mk bytes sidecar).header := by
      unfold SegmentFile.header
      dsimp only
      rw [List.take_take, Nat.min_eq_left hsize]
    rw [hheader]
    exact h.2

namespace Directory

/-- The file at the path starts with a header. -/
def Headed (D : Directory) (path : SegmentPath) : Prop :=
  ∃ bytes, D.files.lookup path = some bytes ∧ (SegmentFile.mk bytes none).Openable

/-- No segment loses its header between the two. -/
def KeepsHeaders (D D' : Directory) : Prop := ∀ path, D.Headed path → D'.Headed path

section Headers
variable {D D' D'' : Directory} {path : SegmentPath} {bytes : List UInt8}

theorem KeepsHeaders.refl (D : Directory) : D.KeepsHeaders D := fun _ h => h

theorem KeepsHeaders.trans (h : D.KeepsHeaders D') (h' : D'.KeepsHeaders D'') : D.KeepsHeaders D'' :=
  fun path hpath => h' path (h path hpath)

theorem headed_of_file {f : SegmentFile} (hfile : D.file path = some f) (hopen : f.Openable) : D.Headed path := by
  obtain ⟨bytes, hlookup, rfl⟩ := Option.map_eq_some_iff.mp hfile
  exact ⟨bytes, hlookup, hopen⟩

theorem Headed.openable {f : SegmentFile} (h : D.Headed path) (hfile : D.file path = some f) : f.Openable := by
  obtain ⟨bytes, hlookup, hopen⟩ := h
  unfold file at hfile
  rw [hlookup] at hfile
  cases hfile
  exact hopen

theorem Headed.mem_paths (h : D.Headed path) : path ∈ D.paths := by
  obtain ⟨bytes, hlookup, -⟩ := h
  exact List.mem_map.mpr ⟨(path, bytes), mem_files_of_lookup hlookup, rfl⟩

/-- A file that is new disturbs no other. -/
theorem keepsHeaders_of_new (hnew : path ∉ D.paths)
    (hsame : ∀ other, other ≠ path → D'.files.lookup other = D.files.lookup other) : D.KeepsHeaders D' := by
  intro other hother
  have hne : other ≠ path := by
    rintro rfl
    exact hnew hother.mem_paths
  obtain ⟨bytes, hlookup, hopen⟩ := hother
  exact ⟨bytes, (hsame other hne).trans hlookup, hopen⟩

theorem lookup_write_of_ne (D : Directory) {other : SegmentPath} (h : other ≠ path) :
    (D.write path bytes).files.lookup other = D.files.lookup other := by
  rw [lookup_write, if_neg h]

theorem keepsHeaders_write (D : Directory) (hopen : (SegmentFile.mk bytes none).Openable) :
    D.KeepsHeaders (D.write path bytes) := by
  intro other hother
  by_cases h : other = path
  · refine ⟨bytes, ?_, hopen⟩
    rw [lookup_write, if_pos h]
  · obtain ⟨bytes', hlookup, hopen'⟩ := hother
    exact ⟨bytes', (D.lookup_write_of_ne h).trans hlookup, hopen'⟩

theorem keepsHeaders_truncate (D : Directory) (path : SegmentPath) {size : Nat} (hsize : walHeaderSize ≤ size) :
    D.KeepsHeaders (D.truncate path size) := by
  intro other hother
  unfold truncate
  cases hlookup : D.files.lookup path with
  | none => exact hother
  | some bytes =>
    obtain ⟨bytes', hlookup', hopen⟩ := hother
    dsimp only
    by_cases h : other = path
    · rw [h, hlookup] at hlookup'
      cases hlookup'
      exact ⟨bytes.take size, by rw [lookup_write, if_pos h], hopen.take hsize⟩
    · exact ⟨bytes', (D.lookup_write_of_ne h).trans hlookup', hopen⟩

/-- A segment that has its header holds its frames. -/
theorem Shelves.holds {D₀ : Directory} {first i : Nat} {parts : List (List Frame)} (h : Shelves D₀ D first parts)
    (hi : i < parts.length) (hheaded : D.Headed ⟨first + i, .raw⟩) :
    ∃ f, D.file ⟨first + i, .raw⟩ = some f ∧ f.Holds (parts.getD i []) := by
  obtain ⟨f, hfile, hholds | ⟨hclosed, -⟩⟩ := h.files i hi
  · exact ⟨f, hfile, hholds⟩
  · exact absurd (hheaded.openable hfile) hclosed

end Headers

end Directory

namespace WalWriter

section Calls
variable {w : WalWriter} {D₀ D : Directory} {first : Nat} {parts : List (List Frame)}

theorem walHeaderSize_le_finalSize (w : WalWriter) : walHeaderSize ≤ w.finalSize := Nat.le_add_right _ _

theorem openSegment_keepsHeaders (w : WalWriter) (nowNs : Nat) (fault : Option OpenFault) (D : Directory) :
    D.KeepsHeaders (w.openSegment nowNs fault D).2.2 := by
  by_cases hfree : w.currentPath ∈ D.paths ∨ fault = some .create
  · unfold openSegment
    rw [if_pos hfree]
    exact .refl D
  · apply Directory.keepsHeaders_of_new fun hpath => hfree (.inl hpath)
    intro other hother
    unfold openSegment
    rw [if_neg hfree]
    dsimp only
    split_ifs
    · exact D.lookup_write_of_ne hother
    · exact D.lookup_write_of_ne hother
    · exact D.lookup_write_of_ne hother
    · exact D.lookup_write_of_ne hother
    · exact D.lookup_write_of_ne hother
    · exact (Directory.lookup_write_of_ne _ hother).trans (D.lookup_write_of_ne hother)

theorem rotate_keepsHeaders (w : WalWriter) (nowNs : Nat) (system : SystemAnswers) (D : Directory) :
    D.KeepsHeaders (w.rotate nowNs system D).2.2 := by
  unfold WalWriter.rotate
  split_ifs
  · exact .refl D
  · exact .refl D
  · exact (D.keepsHeaders_truncate w.currentPath w.walHeaderSize_le_finalSize).trans
      (openSegment_keepsHeaders _ nowNs system.fault _)

/-- The mapped segment has a header. -/
theorem Writes.headed (h : w.Writes D₀ D first parts) (hfull : w.mapping = .full) : D.Headed w.currentPath := by
  obtain ⟨front, last, header, -, -, -, hstores, hfile⟩ := h.mapped hfull
  exact Directory.headed_of_file hfile (hstores.holds h.bounded).openable

/-- The mapped segment is the last one. -/
theorem Writes.currentPath_eq (h : w.Writes D₀ D first parts) (hfull : w.mapping = .full) :
    ∃ n, parts.length = n + 1 ∧ w.currentPath = ⟨first + n, .raw⟩ := by
  obtain ⟨front, last, header, rfl, hindex, -⟩ := h.mapped hfull
  refine ⟨front.length, by rw [List.length_append, List.length_singleton], ?_⟩
  unfold currentPath
  rw [hindex]

theorem Writes.append_keepsHeaders (h : w.Writes D₀ D first parts) {c : AppendCall} {result : AppendResult}
    {w' : WalWriter} {D' : Directory} (happend : w.append c D = some (result, w', D')) : D.KeepsHeaders D' := by
  have hwritten := h.append happend
  unfold WalWriter.append at happend
  cases hmapping : w.mapping with
  | closed =>
    rw [hmapping] at happend
    cases happend
    exact .refl D
  | dataOnly =>
    rw [hmapping] at happend
    dsimp only at happend
    split at happend
    · cases happend
    · cases happend
      exact .refl D
  | full =>
    rw [hmapping] at happend
    dsimp only at happend
    split at happend
    · cases happend
      obtain ⟨parts', frames, -, hwrites, -⟩ := hwritten
      obtain ⟨front, last, header, -, -, -, hstores, -⟩ := hwrites.mapped rfl
      exact D.keepsHeaders_write (hstores.holds hwrites.bounded).openable
    · cases happend
      exact .refl D

end Calls

end WalWriter

end MicrostructureEngine
