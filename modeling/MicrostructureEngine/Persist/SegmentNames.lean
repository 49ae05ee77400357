import MicrostructureEngine.Lib.Decimal
import MicrostructureEngine.Persist.SegmentCatalog

/-!
# Segment names

The names `open_segment` gives to segments and `parse_index` reads, and the scan of a directory as it is
listed: any files and directories, in any order. Where the twenty digits of every segment name are a 64-bit
number, a name and what is read off it determine each other, and the catalog depends on nothing but the set
of entries.
-/

namespace MicrostructureEngine

set_option autoImplicit false

def segmentIndexDigits : Nat := 20

def SegmentEncoding.suffix : SegmentEncoding → List Char
  | raw => ".wal".toList
  | compressed => ".wal.zst".toList

def metadataSuffix : List Char := ".meta".toList

/-- `%020llu.wal`. -/
def segmentName (index : UInt64) : List Char :=
  Decimal.padded segmentIndexDigits index.toNat ++ SegmentEncoding.raw.suffix

def hasSuffix (text suffix : List Char) : Bool :=
  decide (suffix.length ≤ text.length) && text.drop (text.length - suffix.length) == suffix

/-- The loop of `parse_stem`. -/
def parseDigits : UInt64 → List Char → Option UInt64
  | value, [] => some value
  | value, c :: rest =>
    if c.isDigit then parseDigits (value * 10 + UInt64.ofNat (c.toNat - 48)) rest else none

def parseStem (stem : List Char) : Option UInt64 :=
  if stem.length ≠ segmentIndexDigits then none else parseDigits 0 stem

def parseIndex (filename : List Char) : Option SegmentPath :=
  if filename.length > segmentIndexDigits ∧ hasSuffix filename SegmentEncoding.raw.suffix then
    (parseStem (filename.take (filename.length - 4))).map fun index => ⟨index.toNat, .raw⟩
  else if filename.length > segmentIndexDigits ∧ hasSuffix filename SegmentEncoding.compressed.suffix then
    (parseStem (filename.take (filename.length - 8))).map fun index => ⟨index.toNat, .compressed⟩
  else none

/-- An entry of a directory; of what is not a regular file only the name matters. -/
structure DirectoryEntry where
  name : List Char
  isRegularFile : Bool
  content : List UInt8
  deriving DecidableEq, Repr

namespace SegmentCatalog

def describeEntry (entries : List DirectoryEntry) (entry : DirectoryEntry) (path : SegmentPath) :
    SegmentDescriptor where
  path := path
  hasMetadata := path.encoding == .raw && entries.any fun other => other.name == entry.name ++ metadataSuffix
  fileSize := entry.content.length

/-- One turn of the loop over the directory: entries that are no segments are passed over. -/
def visitEntry (entries : List DirectoryEntry) (segments : List SegmentDescriptor) (entry : DirectoryEntry) :
    List SegmentDescriptor :=
  if !entry.isRegularFile then segments
  else
    match parseIndex entry.name with
    | none => segments
    | some path =>
      match segments.find? fun candidate => candidate.index == path.index with
      | some existing =>
        if existing.encoding = .compressed ∧ path.encoding = .raw then
          segments.map fun d => if d.index = path.index then describeEntry entries entry path else d
        else segments
      | none => segments ++ [describeEntry entries entry path]

/-- `scan` over the entries in the order in which they are listed. -/
def scanEntries (listing : Option (List DirectoryEntry)) : Bool × SegmentCatalog :=
  match listing with
  | none => (false, {})
  | some entries =>
    let segments := Draining.sortByStamp SegmentDescriptor.index (entries.foldl (visitEntry entries) [])
    (true, ⟨segments, statsOf segments⟩)

end SegmentCatalog

/-! ## Names -/

namespace SegmentPath

def fileName (path : SegmentPath) : List Char :=
  Decimal.padded segmentIndexDigits path.index ++ path.encoding.suffix

end SegmentPath

theorem parseDigits_eq_some_iff (digits : List Char) (n : Nat) (v : UInt64) :
    parseDigits (UInt64.ofNat n) digits = some v ↔
      Decimal.AllDigits digits ∧ UInt64.ofNat (Nat.ofDigitChars 10 digits n) = v := by
  induction digits generalizing n with
  | nil =>
    have hnil : Decimal.AllDigits [] := fun c hc => absurd hc List.not_mem_nil
    simp [parseDigits, hnil]
  | cons c digits ih =>
    have hall : Decimal.AllDigits (c :: digits) ↔ c.isDigit = true ∧ Decimal.AllDigits digits :=
      List.forall_mem_cons
    have hnext : UInt64.ofNat n * 10 + UInt64.ofNat (c.toNat - 48) =
        UInt64.ofNat (10 * n + (c.toNat - 48)) := by
      rw [UInt64.ofNat_add, UInt64.ofNat_mul, UInt64.mul_comm]
      rfl
    unfold parseDigits
    rw [hall, Nat.ofDigitChars_cons, hnext]
    by_cases hc : c.isDigit = true
    · rw [if_pos hc, ih]
      exact ⟨fun h => ⟨⟨hc, h.1⟩, h.2⟩, fun h => ⟨h.1.2, h.2⟩⟩
    · rw [if_neg hc]
      exact ⟨fun h => (nomatch h), fun h => absurd h.1.1 hc⟩

theorem parseStem_eq_some_iff {stem : List Char} {v : UInt64} : parseStem stem = some v ↔
    stem.length = segmentIndexDigits ∧ Decimal.AllDigits stem ∧ UInt64.ofNat (Decimal.value stem) = v := by
  have hloop := parseDigits_eq_some_iff stem 0 v
  unfold parseStem
  by_cases hlength : stem.length = segmentIndexDigits
  · rw [if_neg (not_not.mpr hlength)]
    exact hloop.trans ⟨fun h => ⟨hlength, h⟩, fun h => h.2⟩
  · rw [if_pos hlength]
    exact ⟨fun h => (nomatch h), fun h => absurd h.1 hlength⟩

theorem hasSuffix_iff {text suffix : List Char} : hasSuffix text suffix = true ↔ suffix <:+ text := by
  rw [hasSuffix, Bool.and_eq_true, decide_eq_true_iff, beq_iff_eq]
  constructor
  · rintro ⟨-, heq⟩
    rw [← heq]
    exact List.drop_suffix _ _
  · rintro ⟨front, rfl⟩
    refine ⟨by rw [List.length_append]; exact Nat.le_add_left _ _, ?_⟩
    rw [List.length_append, Nat.add_sub_cancel, List.drop_left]

/-- A name ends in one of the two ways at most. -/
theorem suffix_unique {name : List Char} (hraw : SegmentEncoding.raw.suffix <:+ name)
    (hcompressed : SegmentEncoding.compressed.suffix <:+ name) : False := by
  have hsuffix : SegmentEncoding.raw.suffix <:+ SegmentEncoding.compressed.suffix :=
    List.suffix_of_suffix_length_le hraw hcompressed (by decide)
  exact absurd hsuffix (by decide)

theorem map_parseStem_eq_some_iff {stem : List Char} {encoding : SegmentEncoding} {path : SegmentPath} :
    ((parseStem stem).map fun index => SegmentPath.mk index.toNat encoding) = some path ↔
      stem.length = segmentIndexDigits ∧ Decimal.AllDigits stem ∧
        path = ⟨Decimal.value stem % 2 ^ 64, encoding⟩ := by
  rw [Option.map_eq_some_iff]
  constructor
  · rintro ⟨index, hparse, rfl⟩
    obtain ⟨hlength, hdigits, rfl⟩ := parseStem_eq_some_iff.mp hparse
    exact ⟨hlength, hdigits, by rw [UInt64.toNat_ofNat']⟩
  · rintro ⟨hlength, hdigits, rfl⟩
    exact ⟨_, parseStem_eq_some_iff.mpr ⟨hlength, hdigits, rfl⟩, by rw [UInt64.toNat_ofNat']⟩

/-- What is read off a name: the value of its twenty digits, as far as it fits a word. -/
theorem parseIndex_eq_some_iff {name : List Char} {path : SegmentPath} : parseIndex name = some path ↔
    ∃ stem, stem.length = segmentIndexDigits ∧ Decimal.AllDigits stem ∧
      name = stem ++ path.encoding.suffix ∧ path.index = Decimal.value stem % 2 ^ 64 := by
  have hfront : ∀ encoding : SegmentEncoding, encoding.suffix <:+ name →
      (((parseStem (name.take (name.length - encoding.suffix.length))).map fun index =>
          SegmentPath.mk index.toNat encoding) = some path ↔
        ∃ stem, stem.length = segmentIndexDigits ∧ Decimal.AllDigits stem ∧
          name = stem ++ encoding.suffix ∧ path = ⟨Decimal.value stem % 2 ^ 64, encoding⟩) := by
    rintro encoding ⟨front, rfl⟩
    rw [List.length_append, Nat.add_sub_cancel, List.take_left, map_parseStem_eq_some_iff]
    constructor
    · rintro ⟨hlength, hdigits, hpath⟩
      exact ⟨front, hlength, hdigits, rfl, hpath⟩
    · rintro ⟨stem, hlength, hdigits, hname, hpath⟩
      obtain rfl := List.append_cancel_right hname
      exact ⟨hlength, hdigits, hpath⟩
  have hlong : ∀ stem encoding, stem.length = segmentIndexDigits → name = stem ++ SegmentEncoding.suffix encoding →
      name.length > segmentIndexDigits := by
    rintro stem encoding hlength rfl
    rw [List.length_append, hlength]
    cases encoding <;> decide
  unfold parseIndex
  simp only [hasSuffix_iff]
  split
  · rename_i hraw
    rw [show (4 : Nat) = SegmentEncoding.raw.suffix.length from rfl, hfront .raw hraw.2]
    constructor
    · rintro ⟨stem, hlength, hdigits, hname, rfl⟩
      exact ⟨stem, hlength, hdigits, hname, rfl⟩
    · rintro ⟨stem, hlength, hdigits, hname, hindex⟩
      obtain ⟨index, encoding⟩ := path
      cases encoding with
      | raw => exact ⟨stem, hlength, hdigits, hname, by rw [← hindex]⟩
      | compressed => exact (suffix_unique hraw.2 (by rw [hname]; exact List.suffix_append _ _)).elim
  · rename_i hraw
    split
    · rename_i hcompressed
      rw [show (8 : Nat) = SegmentEncoding.compressed.suffix.length from rfl, hfront .compressed hcompressed.2]
      constructor
      · rintro ⟨stem, hlength, hdigits, hname, rfl⟩
        exact ⟨stem, hlength, hdigits, hname, rfl⟩
      · rintro ⟨stem, hlength, hdigits, hname, hindex⟩
        obtain ⟨index, encoding⟩ := path
        cases encoding with
        | raw => exact (suffix_unique (by rw [hname]; exact List.suffix_append _ _) hcompressed.2).elim
        | compressed => exact ⟨stem, hlength, hdigits, hname, by rw [← hindex]⟩
    · rename_i hcompressed
      refine ⟨fun h => (nomatch h), ?_⟩
      rintro ⟨stem, hlength, hdigits, hname, -⟩
      have hsuffix : path.encoding.suffix <:+ name := by
        rw [hname]
        exact List.suffix_append _ _
      have hlength' := hlong stem path.encoding hlength hname
      cases hencoding : path.encoding with
      | raw =>
        rw [hencoding] at hsuffix
        exact absurd ⟨hlength', hsuffix⟩ hraw
      | compressed =>
        rw [hencoding] at hsuffix
        exact absurd ⟨hlength', hsuffix⟩ hcompressed

/-- The name of a 64-bit index is read back as that index. -/
theorem parseIndex_fileName {path : SegmentPath} (h : path.index < 2 ^ 64) :
    parseIndex path.fileName = some path := by
  apply parseIndex_eq_some_iff.mpr
  refine ⟨Decimal.padded segmentIndexDigits path.index, ?_, Decimal.allDigits_padded _ _, rfl, ?_⟩
  · exact Decimal.length_padded (by decide) (Nat.lt_of_lt_of_le h (by decide))
  · rw [Decimal.value_padded, Nat.mod_eq_of_lt h]

theorem segmentName_eq (index : UInt64) : segmentName index = SegmentPath.fileName ⟨index.toNat, .raw⟩ := rfl

/-- A sidecar is no segment, though its name starts like one. -/
example : parseIndex (segmentName 7 ++ metadataSuffix) = none := by decide +kernel

namespace DirectoryEntry

/-- If the entry is a segment, its twenty digits are a 64-bit number. -/
def Fits (entry : DirectoryEntry) : Prop :=
  ∀ stem (encoding : SegmentEncoding), stem.length = segmentIndexDigits → Decimal.AllDigits stem →
    entry.name = stem ++ encoding.suffix → Decimal.value stem < 2 ^ 64

theorem fits_of_stem {entry : DirectoryEntry}
    (h : Decimal.value (entry.name.take segmentIndexDigits) < 2 ^ 64) : entry.Fits := by
  intro stem encoding hlength _ hname
  rwa [hname, List.take_left' hlength] at h

theorem Fits.parseIndex_iff {entry : DirectoryEntry} (h : entry.Fits) {path : SegmentPath} :
    parseIndex entry.name = some path ↔ path.index < 2 ^ 64 ∧ entry.name = path.fileName := by
  constructor
  · intro hparse
    obtain ⟨stem, hlength, hdigits, hname, hindex⟩ := parseIndex_eq_some_iff.mp hparse
    have hlt := h stem path.encoding hlength hdigits hname
    rw [Nat.mod_eq_of_lt hlt] at hindex
    refine ⟨by rw [hindex]; exact hlt, ?_⟩
    unfold SegmentPath.fileName
    rw [hname, hindex, Decimal.padded_value (by decide) hdigits hlength]
  · rintro ⟨hlt, hname⟩
    rw [hname]
    exact parseIndex_fileName hlt

end DirectoryEntry

/-! ## The directory behind a listing -/

namespace DirectoryEntry

/-- The entry as a segment file. -/
def segment (entry : DirectoryEntry) : Option (SegmentPath × List UInt8) :=
  if !entry.isRegularFile then none else (parseIndex entry.name).map fun path => (path, entry.content)

theorem segment_eq_some_iff {entry : DirectoryEntry} {file : SegmentPath × List UInt8} :
    entry.segment = some file ↔
      entry.isRegularFile = true ∧ parseIndex entry.name = some file.1 ∧ file.2 = entry.content := by
  unfold segment
  cases entry.isRegularFile with
  | false => simp
  | true =>
    simp only [Bool.not_true, Bool.false_eq_true, if_false, Option.map_eq_some_iff, true_and]
    constructor
    · rintro ⟨path, hparse, rfl⟩
      exact ⟨hparse, rfl⟩
    · rintro ⟨hparse, hcontent⟩
      exact ⟨file.1, hparse, by rw [← hcontent]⟩

end DirectoryEntry

namespace Directory

/-- The segment files among the entries, and what stands beside a raw segment under its name and `.meta`. -/
def ofEntries (entries : List DirectoryEntry) : Directory where
  files := entries.filterMap DirectoryEntry.segment
  sidecars := fun index =>
    (entries.find? fun entry => entry.name == SegmentPath.fileName ⟨index, .raw⟩ ++ metadataSuffix).map
      DirectoryEntry.content

theorem isSome_sidecars (entries : List DirectoryEntry) (index : Nat) :
    ((ofEntries entries).sidecars index).isSome =
      entries.any fun entry => entry.name == SegmentPath.fileName ⟨index, .raw⟩ ++ metadataSuffix := by
  unfold ofEntries
  dsimp only
  rw [Option.isSome_map, List.isSome_find?]

end Directory

namespace SegmentCatalog

theorem visitEntry_eq {entries : List DirectoryEntry} {entry : DirectoryEntry} (hfits : entry.Fits)
    (segments : List SegmentDescriptor) : visitEntry entries segments entry =
      (entry.segment.elim segments fun file => addEntry (.ofEntries entries) segments file) := by
  unfold visitEntry DirectoryEntry.segment
  cases entry.isRegularFile with
  | false => rfl
  | true =>
    cases hparse : parseIndex entry.name with
    | none => rfl
    | some path =>
      have hdescribe : describe (.ofEntries entries) (path, entry.content) = describeEntry entries entry path := by
        obtain ⟨index, encoding⟩ := path
        obtain ⟨-, hname⟩ := hfits.parseIndex_iff.mp hparse
        unfold describe describeEntry
        rw [Directory.isSome_sidecars, hname]
        cases encoding <;> rfl
      simp only [Bool.not_true, Bool.false_eq_true, if_false, Option.map_some, Option.elim_some]
      rw [← hdescribe]
      rfl

/-- Where the numbers fit, the scan of a listing is the scan of its directory. -/
theorem scanEntries_eq {entries : List DirectoryEntry} (hfits : ∀ entry ∈ entries, entry.Fits) :
    scanEntries (some entries) = scan (some (.ofEntries entries)) := by
  have hfold : ∀ (rest : List DirectoryEntry) (segments : List SegmentDescriptor),
      (∀ entry ∈ rest, entry.Fits) → rest.foldl (visitEntry entries) segments =
        (rest.filterMap DirectoryEntry.segment).foldl (addEntry (.ofEntries entries)) segments := by
    intro rest
    induction rest with
    | nil => exact fun _ _ => rfl
    | cons entry rest ih =>
      intro segments h
      rw [List.foldl_cons, visitEntry_eq (h entry List.mem_cons_self),
        ih _ fun other hother => h other (List.mem_cons_of_mem entry hother), List.filterMap_cons]
      cases entry.segment <;> rfl
  unfold scanEntries scan
  dsimp only
  rw [hfold entries [] hfits]
  rfl

end SegmentCatalog

/-! ## One catalog for every listing -/

/-- The entries of one directory, as they are listed: no two of them have the same name. -/
structure DirectoryListing where
  entries : List DirectoryEntry
  distinct : (entries.map DirectoryEntry.name).Nodup

namespace DirectoryListing

def Fits (listing : DirectoryListing) : Prop := ∀ entry ∈ listing.entries, entry.Fits

variable {listing : DirectoryListing} (h : listing.Fits)
include h

theorem mem_files_iff {file : SegmentPath × List UInt8} :
    file ∈ (Directory.ofEntries listing.entries).files ↔ ∃ entry ∈ listing.entries,
      entry.isRegularFile = true ∧ entry.name = file.1.fileName ∧ file.1.index < 2 ^ 64 ∧
        file.2 = entry.content := by
  unfold Directory.ofEntries
  rw [List.mem_filterMap]
  constructor
  · rintro ⟨entry, hentry, hsegment⟩
    obtain ⟨hregular, hparse, hcontent⟩ := DirectoryEntry.segment_eq_some_iff.mp hsegment
    obtain ⟨hlt, hname⟩ := (h entry hentry).parseIndex_iff.mp hparse
    exact ⟨entry, hentry, hregular, hname, hlt, hcontent⟩
  · rintro ⟨entry, hentry, hregular, hname, hlt, hcontent⟩
    have hparse := (h entry hentry).parseIndex_iff.mpr ⟨hlt, hname⟩
    exact ⟨entry, hentry, DirectoryEntry.segment_eq_some_iff.mpr ⟨hregular, hparse, hcontent⟩⟩

/-- Different names lead to different paths. -/
theorem nodup_paths : ((Directory.ofEntries listing.entries).files.map Prod.fst).Nodup := by
  have hnames := List.pairwise_map.mp listing.distinct
  unfold Directory.ofEntries
  rw [List.Nodup, List.pairwise_map, List.pairwise_filterMap]
  apply hnames.imp_of_mem
  intro a b ha hb hne file hfile file' hfile' heq
  obtain ⟨-, hparse, -⟩ := DirectoryEntry.segment_eq_some_iff.mp hfile
  obtain ⟨-, hparse', -⟩ := DirectoryEntry.segment_eq_some_iff.mp hfile'
  obtain ⟨-, hname⟩ := (h a ha).parseIndex_iff.mp hparse
  obtain ⟨-, hname'⟩ := (h b hb).parseIndex_iff.mp hparse'
  rw [hname, hname', heq] at hne
  exact hne rfl

end DirectoryListing

namespace SegmentCatalog

/-- A catalog in terms of the files: one descriptor for each index that has one, in order, and the raw file
wherever there is one. -/
structure Canonical (entries : List DirectoryEntry) (catalog : SegmentCatalog) : Prop where
  ascending : catalog.segments.Pairwise fun a b => a.index < b.index
  bounded : ∀ d ∈ catalog.segments, d.index < 2 ^ 64
  indexed : ∀ index : UInt64, (∃ d ∈ catalog.segments, d.index = index.toNat) ↔
    ∃ entry ∈ entries, entry.isRegularFile = true ∧
      ∃ encoding, entry.name = SegmentPath.fileName ⟨index.toNat, encoding⟩
  raw : ∀ d ∈ catalog.segments, d.encoding = .raw ↔
    ∃ entry ∈ entries, entry.isRegularFile = true ∧ entry.name = SegmentPath.fileName ⟨d.index, .raw⟩
  contiguous : catalog.stats.contiguous = true ↔
    IndexRuns.IsInterval (catalog.segments.map SegmentDescriptor.index)
  indexGaps : catalog.stats.indexGaps = (catalog.segments.map SegmentDescriptor.index).countP fun index =>
    decide (IndexRuns.BreakAt (catalog.segments.map SegmentDescriptor.index) index)

variable {listing : DirectoryListing}

theorem scan_canonical (h : listing.Fits) :
    Canonical listing.entries (scanEntries (some listing.entries)).2 := by
  rw [scanEntries_eq h, scan_some]
  obtain ⟨hascending, hsound, hcomplete⟩ := segmentsOf_spec (.ofEntries listing.entries)
  have hindices : ((segmentsOf (.ofEntries listing.entries)).map SegmentDescriptor.index).Pairwise (· < ·) :=
    List.pairwise_map.mpr hascending
  refine ⟨hascending, ?_, ?_, ?_, ?_, ?_⟩
  · intro d hd
    obtain ⟨file, hfile, rfl⟩ := hsound d hd
    obtain ⟨-, -, -, -, hlt, -⟩ := (DirectoryListing.mem_files_iff h).mp hfile
    exact hlt
  · intro index
    constructor
    · rintro ⟨d, hd, hindex⟩
      obtain ⟨file, hfile, rfl⟩ := hsound d hd
      obtain ⟨entry, hentry, hregular, hname, -⟩ := (DirectoryListing.mem_files_iff h).mp hfile
      refine ⟨entry, hentry, hregular, file.1.encoding, ?_⟩
      rw [hname, ← hindex]
      rfl
    · rintro ⟨entry, hentry, hregular, encoding, hname⟩
      have hfile : (⟨index.toNat, encoding⟩, entry.content) ∈ (Directory.ofEntries listing.entries).files :=
        (DirectoryListing.mem_files_iff h).mpr ⟨entry, hentry, hregular, hname, index.toNat_lt, rfl⟩
      obtain ⟨d, hd, hindex, -⟩ := hcomplete _ hfile
      exact ⟨d, hd, hindex⟩
  · intro d hd
    constructor
    · intro hraw
      obtain ⟨file, hfile, rfl⟩ := hsound d hd
      obtain ⟨entry, hentry, hregular, hname, -⟩ := (DirectoryListing.mem_files_iff h).mp hfile
      refine ⟨entry, hentry, hregular, ?_⟩
      rw [hname, ← hraw]
      rfl
    · rintro ⟨entry, hentry, hregular, hname⟩
      obtain ⟨file, hfile, rfl⟩ := hsound d hd
      obtain ⟨-, -, -, -, hlt, -⟩ := (DirectoryListing.mem_files_iff h).mp hfile
      have hrawFile : (⟨file.1.index, .raw⟩, entry.content) ∈ (Directory.ofEntries listing.entries).files :=
        (DirectoryListing.mem_files_iff h).mpr ⟨entry, hentry, hregular, hname, hlt, rfl⟩
      obtain ⟨d', hd', hindex, hprefers⟩ := hcomplete _ hrawFile
      rw [← eq_of_index_eq hd' hd hindex]
      exact hprefers rfl
  · rw [← IndexRuns.breaks_eq_zero_iff hindices, ← countGaps_eq]
    exact beq_iff_eq
  · rw [← IndexRuns.breaks_eq_countP hindices]
    exact countGaps_eq _

/-- The order in which a directory is listed does not show in its catalog. -/
theorem scan_order {listing' : DirectoryListing} (h : listing.Fits)
    (hperm : listing.entries.Perm listing'.entries) :
    scanEntries (some listing'.entries) = scanEntries (some listing.entries) := by
  have h' : listing'.Fits := fun entry hentry => h entry (hperm.mem_iff.mpr hentry)
  have hsidecars : ∀ index, ((Directory.ofEntries listing.entries).sidecars index).isSome =
      ((Directory.ofEntries listing'.entries).sidecars index).isSome := by
    intro index
    rw [Directory.isSome_sidecars, Directory.isSome_sidecars]
    exact hperm.any_eq
  rw [scanEntries_eq h, scanEntries_eq h', scan_some, scan_some,
    segmentsOf_perm (hperm.filterMap _) hsidecars (DirectoryListing.nodup_paths h)]

/-- A directory has one catalog, whatever order it is listed in, and the writer's names are read back. -/
theorem catalog_canonical :
    (∀ listing : DirectoryListing, listing.Fits →
      Canonical listing.entries (scanEntries (some listing.entries)).2 ∧
        ∀ listing' : DirectoryListing, listing.entries.Perm listing'.entries →
          scanEntries (some listing'.entries) = scanEntries (some listing.entries)) ∧
    ∀ index : UInt64, parseIndex (segmentName index) = some ⟨index.toNat, .raw⟩ := by
  refine ⟨fun listing h => ⟨scan_canonical h, fun listing' hperm => scan_order h hperm⟩, fun index => ?_⟩
  have hfits : (SegmentPath.mk index.toNat .raw).index < 2 ^ 64 := index.toNat_lt
  rw [segmentName_eq, parseIndex_fileName hfits]

def segmentEntry (path : SegmentPath) : DirectoryEntry where
  name := path.fileName
  isRegularFile := true
  content := []

/-- Segment 1 raw and compressed, no segment 2, and a directory that has the name of a segment. -/
def gapped : DirectoryListing where
  entries := [segmentEntry ⟨3, .compressed⟩, { segmentEntry ⟨4, .raw⟩ with isRegularFile := false },
    segmentEntry ⟨1, .compressed⟩, segmentEntry ⟨1, .raw⟩]
  distinct := by decide +kernel

def relisted : DirectoryListing where
  entries := gapped.entries.reverse
  distinct := by decide +kernel

theorem catalog_canonical_gapped :
    let catalog := (scanEntries (some gapped.entries)).2
    ((∃ d ∈ catalog.segments, d.index = 1 ∧ d.encoding = .raw) ∧ ¬ ∃ d ∈ catalog.segments, d.index = 2) ∧
    scanEntries (some relisted.entries) = scanEntries (some gapped.entries) ∧
    parseIndex (segmentName 3) = some ⟨3, .raw⟩ := by
  intro catalog
  obtain ⟨hcatalog, hnames⟩ := catalog_canonical
  have hstems : ∀ entry ∈ gapped.entries, Decimal.value (entry.name.take segmentIndexDigits) < 2 ^ 64 := by
    decide +kernel
  have hfits : gapped.Fits := fun entry hentry => DirectoryEntry.fits_of_stem (hstems entry hentry)
  obtain ⟨hcanonical, hlistings⟩ := hcatalog gapped hfits
  have hraw : segmentEntry ⟨1, .raw⟩ ∈ gapped.entries := by decide
  refine ⟨⟨?_, ?_⟩, hlistings relisted (List.reverse_perm _).symm, hnames 3⟩
  · obtain ⟨d, hd, hindex⟩ := (hcanonical.indexed 1).mpr ⟨_, hraw, rfl, .raw, rfl⟩
    refine ⟨d, hd, hindex, (hcanonical.raw d hd).mpr ⟨_, hraw, rfl, ?_⟩⟩
    rw [hindex]
    rfl
  · intro htwo
    obtain ⟨entry, hentry, -, encoding, hname⟩ := (hcanonical.indexed 2).mp htwo
    have hother : ∀ entry ∈ gapped.entries,
        entry.name ≠ SegmentPath.fileName ⟨2, .raw⟩ ∧ entry.name ≠ SegmentPath.fileName ⟨2, .compressed⟩ := by
      decide +kernel
    cases encoding with
    | raw => exact (hother entry hentry).1 hname
    | compressed => exact (hother entry hentry).2 hname

end SegmentCatalog

end MicrostructureEngine
