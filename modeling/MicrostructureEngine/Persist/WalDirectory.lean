import Mathlib.Logic.Function.Basic
import MicrostructureEngine.Persist.CrashAtomicity
import MicrostructureEngine.Persist.SegmentCatalog

/-!
# The writer in its directory

`WalWriter` maps one segment at a time. A segment file is created only where there is none, and
opening can fail behind every system call, with what it did so far left in the directory: the
mapping is then missing, or the data is mapped and the sidecar is not. A rotation cuts the
segment behind its committed data and opens the next index.
-/

namespace MicrostructureEngine

set_option autoImplicit false

namespace Directory

def paths (D : Directory) : List SegmentPath := D.files.map Prod.fst

/-- The file at a path holds these bytes from now on. Where a file stands in the listing means
nothing. -/
def write (D : Directory) (path : SegmentPath) (bytes : List UInt8) : Directory :=
  { D with files := D.files.filter (fun entry => decide (entry.1 ≠ path)) ++ [(path, bytes)] }

def writeSidecar (D : Directory) (index : Nat) (bytes : List UInt8) : Directory :=
  { D with sidecars := Function.update D.sidecars index (some bytes) }

/-- A shared mapping is what its files hold. -/
def store (D : Directory) (index : Nat) (m : MappedSegment) : Directory :=
  (D.write ⟨index, .raw⟩ m.bytes).writeSidecar index m.slots

/-- `truncate_file`, to no more than the file has. -/
def truncate (D : Directory) (path : SegmentPath) (size : Nat) : Directory :=
  match D.files.lookup path with
  | none => D
  | some bytes => D.write path (bytes.take size)

end Directory

/-! ## The writer -/

structure WalConfig where
  segmentDataBytes : Nat := defaultSegmentDataBytes
  rotationInterval : Nat := 3600000000000
  firstSegmentIndex : Nat := 0
  deriving DecidableEq, Repr

/-- Which of its two pointers the writer has. -/
inductive Mapping where
  | closed
  | dataOnly
  | full
  deriving DecidableEq, Repr

/-- The calls of `open_segment` that the system can refuse. -/
inductive OpenFault where
  | create
  | resize
  | map
  | createMetadata
  | resizeMetadata
  | mapMetadata
  | flush
  deriving DecidableEq, Repr

/-- What the system answers during one call on the writer. -/
structure SystemAnswers where
  flushes : Bool := true
  truncates : Bool := true
  fault : Option OpenFault := none
  deriving DecidableEq, Repr

/-- `segment` keeps `committed_` and `metadata_generation_` when nothing is mapped. -/
structure WalWriter where
  config : WalConfig := {}
  header : WalFileHeader
  segmentIndex : Nat := 0
  openedAtNs : Nat := 0
  segment : MappedSegment := ⟨[], [], 0, 0⟩
  mapping : Mapping := .closed

namespace WalWriter

/-- `current_path_`. -/
def currentPath (w : WalWriter) : SegmentPath := ⟨w.segmentIndex, .raw⟩

/-- `open_segment` of a writer that has nothing mapped. -/
def openSegment (w : WalWriter) (nowNs : Nat) (fault : Option OpenFault) (D : Directory) :
    Bool × WalWriter × Directory :=
  if w.currentPath ∈ D.paths ∨ fault = some .create then (false, w, D)
  else if fault = some .resize then (false, w, D.write w.currentPath [])
  else
    let D := D.write w.currentPath (List.replicate (walHeaderSize + w.config.segmentDataBytes) 0)
    if fault = some .map then (false, w, D)
    else
      let w := { w with mapping := .dataOnly }
      if (D.sidecars w.segmentIndex).isSome ∨ fault = some .createMetadata then (false, w, D)
      else if fault = some .resizeMetadata then (false, w, D.writeSidecar w.segmentIndex [])
      else if fault = some .mapMetadata then
        (false, w, D.writeSidecar w.segmentIndex (List.replicate (2 * boundarySlotSize) 0))
      else
        let w := { w with
          segment := .create w.header w.config.segmentDataBytes
          openedAtNs := nowNs
          mapping := .full }
        (fault != some .flush, w, D.store w.segmentIndex w.segment)

/-- `open` of a new writer. -/
def openDirectory (config : WalConfig) (header : WalFileHeader) (nowNs : Nat) (fault : Option OpenFault)
    (D : Directory) : Bool × WalWriter × Directory :=
  if config.segmentDataBytes < maxFrameSize ∨ config.segmentDataBytes > defaultSegmentDataBytes then
    (false, { header := header }, D)
  else
    openSegment { config := config, header := finalizeHeader header, segmentIndex := config.firstSegmentIndex }
      nowNs fault D

/-- `append`; `none` where the process dies, because the sidecar is not mapped. -/
def append (w : WalWriter) (c : AppendCall) (D : Directory) : Option (AppendResult × WalWriter × Directory) :=
  let appended := w.segment.append w.config.segmentDataBytes c
  match w.mapping with
  | .closed => some (.ioError, w, D)
  | .dataOnly => if appended.1 = .committed then none else some (appended.1, w, D)
  | .full =>
    if appended.1 = .committed then
      some (.committed, { w with segment := appended.2 }, D.store w.segmentIndex appended.2)
    else some (appended.1, w, D)

def needsRotation (w : WalWriter) (nowNs payloadLength : Nat) : Bool :=
  decide (w.segment.committed + frameSize payloadLength > w.config.segmentDataBytes) ||
    (decide (nowNs ≥ w.openedAtNs) && decide (nowNs - w.openedAtNs ≥ w.config.rotationInterval))

def flush (w : WalWriter) (flushes : Bool) : Bool := w.mapping == .full && flushes

/-- The size of the segment behind its committed data. -/
def finalSize (w : WalWriter) : Nat := walHeaderSize + w.segment.committed

def rotate (w : WalWriter) (nowNs : Nat) (system : SystemAnswers) (D : Directory) :
    Bool × WalWriter × Directory :=
  if !w.flush system.flushes then (false, w, D)
  else if !system.truncates then (false, { w with mapping := .closed }, D)
  else
    openSegment { w with mapping := .closed, segmentIndex := w.segmentIndex + 1 } nowNs system.fault
      (D.truncate w.currentPath w.finalSize)

def finalize (w : WalWriter) (system : SystemAnswers) (D : Directory) : Bool × WalWriter × Directory :=
  if w.mapping = .closed then (true, w, D)
  else if !w.flush system.flushes then (false, w, D)
  else if !system.truncates then (false, { w with mapping := .closed }, D)
  else (true, { w with mapping := .closed }, D.truncate w.currentPath w.finalSize)

/-- The guarded append of the writer's callers: rotate first if the record or the clock asks for
it, and answer whether the record was committed. -/
def appendRotating (w : WalWriter) (nowNs : Nat) (system : SystemAnswers) (c : AppendCall) (D : Directory) :
    Option (Bool × WalWriter × Directory) :=
  let appended (w : WalWriter) (D : Directory) :=
    (w.append c D).map fun result => (decide (result.1 = .committed), result.2)
  if w.needsRotation nowNs c.payload.length then
    let rotated := w.rotate nowNs system D
    if !rotated.1 then some (false, rotated.2) else appended rotated.2.1 rotated.2.2
  else appended w D

end WalWriter

/-! ## Writing to a directory -/

namespace Directory
variable {D : Directory} {path other : SegmentPath} {bytes : List UInt8} {index : Nat}

theorem lookup_write (D : Directory) (path other : SegmentPath) (bytes : List UInt8) :
    (D.write path bytes).files.lookup other = if other = path then some bytes else D.files.lookup other := by
  unfold write
  dsimp only
  induction D.files with
  | nil =>
    by_cases h : other = path
    · subst h
      simp
    · simp [List.lookup_cons, h, beq_false_of_ne h]
  | cons entry files ih =>
    by_cases hentry : entry.1 = path
    · rw [List.filter_cons_of_neg (by simpa using hentry), ih, List.lookup_cons]
      split
      · rfl
      · rename_i hne
        rw [hentry, beq_false_of_ne hne]
    · rw [List.filter_cons_of_pos (by simpa using hentry), List.cons_append, List.lookup_cons, List.lookup_cons, ih]
      split
      · rename_i heq
        rw [← beq_iff_eq.mp heq] at hentry
        exact (if_neg hentry).symm
      · rfl

theorem mem_paths_write : other ∈ (D.write path bytes).paths ↔ other = path ∨ other ∈ D.paths := by
  unfold paths write
  rw [List.map_append, List.mem_append, List.map_singleton, List.mem_singleton, List.mem_map, List.mem_map]
  constructor
  · intro h
    rcases h with ⟨entry, hentry, rfl⟩ | h
    · exact .inr ⟨entry, (List.mem_filter.mp hentry).1, rfl⟩
    · exact .inl h
  · intro h
    rcases h with h | ⟨entry, hentry, rfl⟩
    · exact .inr h
    · by_cases hpath : entry.1 = path
      · exact .inr hpath
      · exact .inl ⟨entry, List.mem_filter.mpr ⟨hentry, by simpa using hpath⟩, rfl⟩

theorem paths_write (D : Directory) (path : SegmentPath) (bytes : List UInt8) :
    (D.write path bytes).paths = D.paths.filter (fun other => decide (other ≠ path)) ++ [path] := by
  unfold paths write
  rw [List.map_append, List.filter_map]
  rfl

/-- No path is listed twice. -/
theorem nodup_write (h : D.paths.Nodup) : (D.write path bytes).paths.Nodup := by
  rw [paths_write, List.nodup_append]
  refine ⟨h.filter _, List.nodup_singleton path, ?_⟩
  intro other hother path' hpath heq
  rw [List.mem_singleton.mp hpath] at heq
  exact absurd heq (by simpa using (List.mem_filter.mp hother).2)

theorem mem_files_of_lookup (h : D.files.lookup path = some bytes) : (path, bytes) ∈ D.files := by
  obtain ⟨before, after, heq, -⟩ := List.lookup_eq_some_iff.mp h
  rw [heq]
  exact List.mem_append_right _ List.mem_cons_self

/-- The order in which a directory is listed is nothing that a path depends on. -/
theorem file_relist {files : List (SegmentPath × List UInt8)} (hperm : files.Perm D.files) (h : D.paths.Nodup)
    (path : SegmentPath) : ({ D with files := files } : Directory).file path = D.file path := by
  have hkeys : (files.map Prod.fst).Nodup := (hperm.map Prod.fst).nodup_iff.mpr h
  have hlookup : files.lookup path = D.files.lookup path := by
    cases hfound : D.files.lookup path with
    | none =>
      rw [List.lookup_eq_none_iff] at hfound ⊢
      exact fun entry hentry => hfound entry (hperm.mem_iff.mp hentry)
    | some bytes =>
      cases hother : files.lookup path with
      | none =>
        have hmem := hperm.mem_iff.mpr (mem_files_of_lookup hfound)
        exact absurd rfl (bne_iff_ne.mp (List.lookup_eq_none_iff.mp hother _ hmem))
      | some bytes' =>
        have hmem := hperm.mem_iff.mpr (mem_files_of_lookup hfound)
        have hmem' : (path, bytes') ∈ files := mem_files_of_lookup (D := { D with files := files }) hother
        exact congrArg some (congrArg Prod.snd (List.inj_on_of_nodup_map hkeys hmem' hmem rfl))
  unfold file
  dsimp only
  rw [hlookup]

theorem file_write (D : Directory) (path : SegmentPath) (bytes : List UInt8) :
    (D.write path bytes).file path = some ⟨bytes, D.sidecars path.index⟩ := by
  unfold file
  rw [lookup_write, if_pos rfl]
  rfl

theorem file_write_ne (h : other ≠ path) : (D.write path bytes).file other = D.file other := by
  unfold file
  rw [lookup_write, if_neg h]
  rfl

theorem file_writeSidecar_ne (h : other.index ≠ index) : (D.writeSidecar index bytes).file other = D.file other := by
  unfold file writeSidecar
  dsimp only
  rw [Function.update_of_ne h]

theorem file_store (D : Directory) (index : Nat) (m : MappedSegment) :
    (D.store index m).file ⟨index, .raw⟩ = some m.image := by
  have hlookup := lookup_write D ⟨index, .raw⟩ ⟨index, .raw⟩ m.bytes
  rw [if_pos rfl] at hlookup
  unfold file store writeSidecar
  dsimp only
  rw [hlookup, Function.update_self]
  rfl

theorem file_store_ne {m : MappedSegment} (h : other.index ≠ index) : (D.store index m).file other = D.file other := by
  have hne : other ≠ ⟨index, .raw⟩ := by
    rintro rfl
    exact h rfl
  unfold store
  rw [file_writeSidecar_ne h, file_write_ne hne]

end Directory

end MicrostructureEngine
