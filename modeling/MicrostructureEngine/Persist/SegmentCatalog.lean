import Mathlib.Data.List.Nodup
import MicrostructureEngine.Lib.Draining
import MicrostructureEngine.Lib.IndexRuns
import MicrostructureEngine.Persist.Scanning

/-!
# The segment catalog

A run is a directory of segment files, listed in no particular order. The catalog holds one
descriptor for each index, ordered by it; where an index has both encodings the raw file
wins. A missing index is counted, and it is left to the caller to refuse the run for it.
-/

namespace MicrostructureEngine

set_option autoImplicit false

inductive SegmentEncoding where
  | raw
  | compressed
  deriving DecidableEq, Repr, Inhabited

/-- What `parse_index` reads off the name of a segment file: its twenty digits, and `.wal` or
`.wal.zst`. Files with other names are not segments. -/
structure SegmentPath where
  index : Nat
  encoding : SegmentEncoding
  deriving DecidableEq, Repr, Inhabited

/-- A run directory: its segment files in the order in which they are listed, and the `.meta`
sidecars of raw segments. -/
structure Directory where
  files : List (SegmentPath × List UInt8) := []
  sidecars : Nat → Option (List UInt8) := fun _ => none

namespace Directory

/-- What stands at a path. -/
def file (D : Directory) (path : SegmentPath) : Option SegmentFile :=
  (D.files.lookup path).map fun bytes => ⟨bytes, D.sidecars path.index⟩

end Directory

structure SegmentDescriptor where
  path : SegmentPath
  hasMetadata : Bool
  fileSize : Nat
  deriving DecidableEq, Repr

namespace SegmentDescriptor

def index (d : SegmentDescriptor) : Nat := d.path.index

def encoding (d : SegmentDescriptor) : SegmentEncoding := d.path.encoding

end SegmentDescriptor

structure CatalogStats where
  rawSegments : Nat := 0
  compressedSegments : Nat := 0
  indexGaps : Nat := 0
  firstIndex : Nat := 0
  lastIndex : Nat := 0
  contiguous : Bool := true
  deriving DecidableEq, Repr

structure SegmentCatalog where
  segments : List SegmentDescriptor := []
  stats : CatalogStats := {}
  deriving DecidableEq, Repr

namespace SegmentCatalog

def describe (D : Directory) (entry : SegmentPath × List UInt8) : SegmentDescriptor where
  path := entry.1
  hasMetadata := entry.1.encoding == .raw && (D.sidecars entry.1.index).isSome
  fileSize := entry.2.length

/-- One turn of the loop over the directory. -/
def addEntry (D : Directory) (segments : List SegmentDescriptor) (entry : SegmentPath × List UInt8) :
    List SegmentDescriptor :=
  match segments.find? fun candidate => candidate.index == entry.1.index with
  | some existing =>
    if existing.encoding = .compressed ∧ entry.1.encoding = .raw then
      segments.map fun d => if d.index = entry.1.index then describe D entry else d
    else segments
  | none => segments ++ [describe D entry]

/-- The number of places where the next index is not the following one. -/
def countGaps : List SegmentDescriptor → Nat
  | previous :: current :: rest =>
    (if current.index ≠ previous.index + 1 then 1 else 0) + countGaps (current :: rest)
  | _ => 0

def statsOf (segments : List SegmentDescriptor) : CatalogStats where
  rawSegments := segments.countP fun d => d.encoding == .raw
  compressedSegments := segments.countP fun d => d.encoding == .compressed
  indexGaps := countGaps segments
  firstIndex := (segments.head?.map SegmentDescriptor.index).getD 0
  lastIndex := (segments.getLast?.map SegmentDescriptor.index).getD 0
  contiguous := countGaps segments == 0

/-- `scan`; `none` stands for a directory that cannot be listed. -/
def scan (directory : Option Directory) : Bool × SegmentCatalog :=
  match directory with
  | none => (false, {})
  | some D =>
    let segments := Draining.sortByStamp SegmentDescriptor.index (D.files.foldl (addEntry D) [])
    (true, ⟨segments, statsOf segments⟩)

end SegmentCatalog

/-! ## What a catalog holds -/

namespace SegmentCatalog

/-- The descriptors that stand for the entries seen so far. -/
structure Catalogued (D : Directory) (entries : List (SegmentPath × List UInt8))
    (segments : List SegmentDescriptor) : Prop where
  distinct : segments.Pairwise fun a b => a.index ≠ b.index
  sound : ∀ d ∈ segments, ∃ entry ∈ entries, d = describe D entry
  complete : ∀ entry ∈ entries, ∃ d ∈ segments, d.index = entry.1.index ∧
    (entry.1.encoding = .raw → d.encoding = .raw)

section Fold
variable {D : Directory} {entries : List (SegmentPath × List UInt8)} {segments : List SegmentDescriptor}

theorem Catalogued.addEntry (h : Catalogued D entries segments) (entry : SegmentPath × List UInt8) :
    Catalogued D (entries ++ [entry]) (addEntry D segments entry) := by
  unfold SegmentCatalog.addEntry
  cases hfind : segments.find? fun candidate => candidate.index == entry.1.index with
  | none =>
    have hnew : ∀ d ∈ segments, d.index ≠ entry.1.index := by
      intro d hd heq
      have hnone := List.find?_eq_none.mp hfind d hd
      exact hnone (beq_iff_eq.mpr heq)
    refine ⟨?_, ?_, ?_⟩
    · rw [List.pairwise_append]
      refine ⟨h.distinct, List.pairwise_singleton _ _, ?_⟩
      intro a ha b hb
      rw [List.mem_singleton.mp hb]
      exact hnew a ha
    · intro d hd
      rcases List.mem_append.mp hd with hd | hd
      · obtain ⟨e, he, heq⟩ := h.sound d hd
        exact ⟨e, List.mem_append_left _ he, heq⟩
      · exact ⟨entry, List.mem_append_right _ List.mem_cons_self, List.mem_singleton.mp hd⟩
    · intro e he
      rcases List.mem_append.mp he with he | he
      · obtain ⟨d, hd, hindex, hraw⟩ := h.complete e he
        exact ⟨d, List.mem_append_left _ hd, hindex, hraw⟩
      · rw [List.mem_singleton.mp he]
        exact ⟨describe D entry, List.mem_append_right _ List.mem_cons_self, rfl, fun hraw => hraw⟩
  | some existing =>
    have hmem := List.mem_of_find?_eq_some hfind
    have hindex : existing.index = entry.1.index := by
      have hfound := List.find?_some hfind
      exact beq_iff_eq.mp hfound
    dsimp only
    split
    · rename_i hreplace
      have hsame : ∀ d : SegmentDescriptor,
          (if d.index = entry.1.index then describe D entry else d).index = d.index := by
        intro d
        split
        · rename_i heq
          exact heq.symm
        · rfl
      refine ⟨?_, ?_, ?_⟩
      · rw [List.pairwise_map]
        apply h.distinct.imp
        intro a b hab
        rw [hsame, hsame]
        exact hab
      · intro d hd
        obtain ⟨d', hd', rfl⟩ := List.mem_map.mp hd
        split
        · exact ⟨entry, List.mem_append_right _ List.mem_cons_self, rfl⟩
        · obtain ⟨e, he, heq⟩ := h.sound d' hd'
          exact ⟨e, List.mem_append_left _ he, heq⟩
      · intro e he
        rcases List.mem_append.mp he with he | he
        · obtain ⟨d, hd, hd', hraw⟩ := h.complete e he
          refine ⟨_, List.mem_map_of_mem hd, (hsame d).trans hd', ?_⟩
          intro he
          split
          · exact hreplace.2
          · exact hraw he
        · rw [List.mem_singleton.mp he]
          refine ⟨_, List.mem_map_of_mem hmem, (hsame existing).trans hindex, ?_⟩
          rw [if_pos hindex]
          exact fun hraw => hraw
    · rename_i hkeep
      refine ⟨h.distinct, ?_, ?_⟩
      · intro d hd
        obtain ⟨e, he, heq⟩ := h.sound d hd
        exact ⟨e, List.mem_append_left _ he, heq⟩
      · intro e he
        rcases List.mem_append.mp he with he | he
        · exact h.complete e he
        · rw [List.mem_singleton.mp he]
          refine ⟨existing, hmem, hindex, ?_⟩
          intro hraw
          cases hencoding : existing.encoding with
          | raw => rfl
          | compressed => exact absurd ⟨hencoding, hraw⟩ hkeep

theorem catalogued_fold (rest : List (SegmentPath × List UInt8)) :
    ∀ {entries segments}, Catalogued D entries segments →
      Catalogued D (entries ++ rest) (rest.foldl (SegmentCatalog.addEntry D) segments) := by
  induction rest with
  | nil =>
    intro entries segments h
    rwa [List.append_nil]
  | cons entry rest ih =>
    intro entries segments h
    rw [List.foldl_cons, List.append_cons]
    exact ih (h.addEntry entry)

end Fold

/-- The descriptors of a directory, ordered by index. -/
def segmentsOf (D : Directory) : List SegmentDescriptor :=
  Draining.sortByStamp SegmentDescriptor.index (D.files.foldl (addEntry D) [])

theorem scan_some (D : Directory) : scan (some D) = (true, ⟨segmentsOf D, statsOf (segmentsOf D)⟩) := rfl

/-- A catalog has one descriptor for each index, in order, and the raw one where there is one. -/
theorem segmentsOf_spec (D : Directory) :
    (segmentsOf D).Pairwise (fun a b => a.index < b.index) ∧
      (∀ d ∈ segmentsOf D, ∃ entry ∈ D.files, d = describe D entry) ∧
      (∀ entry ∈ D.files, ∃ d ∈ segmentsOf D, d.index = entry.1.index ∧
        (entry.1.encoding = .raw → d.encoding = .raw)) := by
  have hfold : Catalogued D D.files (D.files.foldl (addEntry D) []) :=
    catalogued_fold D.files ⟨.nil, fun d hd => absurd hd List.not_mem_nil,
      fun e he => absurd he List.not_mem_nil⟩
  have hperm := Draining.sortByStamp_perm SegmentDescriptor.index (D.files.foldl (addEntry D) [])
  refine ⟨?_, ?_, ?_⟩
  · have hdistinct : (segmentsOf D).Pairwise fun a b => a.index ≠ b.index :=
      hperm.symm.pairwise hfold.distinct fun hab => Ne.symm hab
    apply (hdistinct.and (Draining.sortByStamp_sorted _)).imp
    intro a b hab
    exact Nat.lt_of_le_of_ne hab.2 hab.1
  · intro d hd
    exact hfold.sound d (Draining.mem_sortByStamp.mp hd)
  · intro entry hentry
    obtain ⟨d, hd, hindex, hraw⟩ := hfold.complete entry hentry
    exact ⟨d, Draining.mem_sortByStamp.mpr hd, hindex, hraw⟩

theorem eq_of_index_eq {D : Directory} {a b : SegmentDescriptor} (ha : a ∈ segmentsOf D) (hb : b ∈ segmentsOf D)
    (h : a.index = b.index) : a = b := by
  have hnodup : ((segmentsOf D).map SegmentDescriptor.index).Nodup := by
    rw [List.Nodup, List.pairwise_map]
    exact (segmentsOf_spec D).1.imp Nat.ne_of_lt
  exact List.inj_on_of_nodup_map hnodup ha hb h

/-- Which descriptors a catalog holds says nothing about the order of the listing. -/
theorem mem_segmentsOf_iff {D : Directory} (hdistinct : (D.files.map Prod.fst).Nodup) {d : SegmentDescriptor} :
    d ∈ segmentsOf D ↔ ∃ entry ∈ D.files, d = describe D entry ∧
      (entry.1.encoding = .compressed → ∀ other ∈ D.files, other.1 ≠ ⟨entry.1.index, .raw⟩) := by
  obtain ⟨-, hsound, hcomplete⟩ := segmentsOf_spec D
  constructor
  · intro hd
    obtain ⟨entry, hentry, rfl⟩ := hsound d hd
    refine ⟨entry, hentry, rfl, ?_⟩
    intro hcompressed other hother hraw
    obtain ⟨d', hd', hindex, hprefers⟩ := hcomplete other hother
    have hd'' : d' = describe D entry := by
      apply eq_of_index_eq hd' hd
      rw [hindex, hraw]
      rfl
    have hencoding : d'.encoding = .raw := hprefers (by rw [hraw])
    rw [hd''] at hencoding
    exact absurd (hencoding.symm.trans hcompressed) (by decide)
  · rintro ⟨entry, hentry, rfl, hnoraw⟩
    obtain ⟨d', hd', hindex, hprefers⟩ := hcomplete entry hentry
    obtain ⟨entry', hentry', rfl⟩ := hsound d' hd'
    have hindex' : entry'.1.index = entry.1.index := hindex
    have hencoding : entry'.1.encoding = entry.1.encoding := by
      cases hkind : entry.1.encoding with
      | raw => exact hprefers hkind
      | compressed =>
        cases hkind' : entry'.1.encoding with
        | compressed => rfl
        | raw =>
          have hother : entry'.1 = ⟨entry.1.index, .raw⟩ := by
            rw [← hindex', ← hkind']
          exact absurd hother (hnoraw hkind entry' hentry')
    have hpath : entry'.1 = entry.1 := by
      cases hp : entry'.1
      cases hq : entry.1
      rw [hp, hq] at hindex' hencoding
      exact congrArg₂ SegmentPath.mk hindex' hencoding
    rw [List.inj_on_of_nodup_map hdistinct hentry' hentry hpath] at hd'
    exact hd'

/-- Two listings of one directory give one catalog. -/
theorem segmentsOf_perm {D D' : Directory} (hfiles : D.files.Perm D'.files)
    (hsidecars : ∀ i, (D.sidecars i).isSome = (D'.sidecars i).isSome)
    (hdistinct : (D.files.map Prod.fst).Nodup) : segmentsOf D = segmentsOf D' := by
  have hdescribe : describe D = describe D' := by
    funext entry
    unfold describe
    rw [hsidecars]
  have hdistinct' : (D'.files.map Prod.fst).Nodup := (hfiles.map Prod.fst).nodup_iff.mp hdistinct
  have hsame : ∀ d, d ∈ segmentsOf D ↔ d ∈ segmentsOf D' := by
    intro d
    rw [mem_segmentsOf_iff hdistinct, mem_segmentsOf_iff hdistinct', hdescribe]
    simp only [hfiles.mem_iff]
  have hsorted := (segmentsOf_spec D).1
  have hsorted' := (segmentsOf_spec D').1
  have hperm := (List.perm_ext_iff_of_nodup (hsorted.imp fun hlt heq => by rw [heq] at hlt; omega)
    (hsorted'.imp fun hlt heq => by rw [heq] at hlt; omega)).mpr hsame
  exact hperm.eq_of_pairwise (fun a b _ _ hab hba => absurd hab (Nat.lt_asymm hba)) hsorted hsorted'

theorem countGaps_eq (segments : List SegmentDescriptor) :
    countGaps segments = IndexRuns.breaks (segments.map SegmentDescriptor.index) := by
  induction segments with
  | nil => rfl
  | cons a rest ih =>
    cases rest with
    | nil => rfl
    | cons b rest => exact congrArg _ ih

theorem length_addEntry_le (D : Directory) (segments : List SegmentDescriptor) (entry : SegmentPath × List UInt8) :
    (addEntry D segments entry).length ≤ segments.length + 1 := by
  unfold addEntry
  split
  · split
    · rw [List.length_map]
      exact Nat.le_succ _
    · exact Nat.le_succ _
  · rw [List.length_append, List.length_singleton]

theorem length_segmentsOf_le (D : Directory) : (segmentsOf D).length ≤ D.files.length := by
  have hfold : ∀ (entries : List (SegmentPath × List UInt8)) (segments : List SegmentDescriptor),
      (entries.foldl (addEntry D) segments).length ≤ segments.length + entries.length := by
    intro entries
    induction entries with
    | nil => exact fun segments => Nat.le_refl _
    | cons entry entries ih =>
      intro segments
      have hfirst := length_addEntry_le D segments entry
      have hrest := ih (addEntry D segments entry)
      rw [List.foldl_cons, List.length_cons]
      omega
  have hlength := (Draining.sortByStamp_perm SegmentDescriptor.index (D.files.foldl (addEntry D) [])).length_eq
  have hle := hfold D.files []
  rw [List.length_nil, Nat.zero_add] at hle
  exact hlength ▸ hle

/-- No index is missing between the first and the last one. -/
theorem contiguous_iff (segments : List SegmentDescriptor) :
    (statsOf segments).contiguous = true ↔ segments.IsChain fun a b => b.index = a.index + 1 := by
  show (countGaps segments == 0) = true ↔ _
  rw [beq_iff_eq]
  induction segments with
  | nil => exact ⟨fun _ => .nil, fun _ => rfl⟩
  | cons a rest ih =>
    cases rest with
    | nil => exact ⟨fun _ => .singleton a, fun _ => rfl⟩
    | cons b rest =>
      have hcount : countGaps (a :: b :: rest) =
          (if b.index ≠ a.index + 1 then 1 else 0) + countGaps (b :: rest) := rfl
      rw [List.isChain_cons_cons, ← ih, hcount]
      split
      · rename_i hgap
        constructor
        · intro h
          omega
        · rintro ⟨h, _⟩
          exact absurd h hgap
      · rename_i hnext
        rw [Nat.zero_add]
        exact ⟨fun h => ⟨not_not.mp hnext, h⟩, fun h => h.2⟩

/-- Every descriptor leads to a file. -/
theorem exists_file {D : Directory} {d : SegmentDescriptor} (h : d ∈ segmentsOf D) :
    ∃ f, D.file d.path = some f := by
  obtain ⟨entry, hentry, rfl⟩ := (segmentsOf_spec D).2.1 d h
  unfold Directory.file
  cases hlookup : D.files.lookup (describe D entry).path with
  | none =>
    have hne := List.lookup_eq_none_iff.mp hlookup entry hentry
    exact absurd rfl (bne_iff_ne.mp hne)
  | some bytes => exact ⟨_, rfl⟩

end SegmentCatalog

/-- A run of one raw segment. -/
def Directory.single (f : SegmentFile) : Directory where
  files := [(⟨0, .raw⟩, f.bytes)]
  sidecars := fun _ => f.sidecar

def SegmentDescriptor.single (f : SegmentFile) : SegmentDescriptor :=
  SegmentCatalog.describe (.single f) (⟨0, .raw⟩, f.bytes)

theorem segmentsOf_single (f : SegmentFile) : SegmentCatalog.segmentsOf (.single f) = [.single f] :=
  Draining.sortByStamp_of_sorted (List.pairwise_singleton _ _)

theorem file_single (f : SegmentFile) : (Directory.single f).file (SegmentDescriptor.single f).path = some f :=
  rfl

end MicrostructureEngine
