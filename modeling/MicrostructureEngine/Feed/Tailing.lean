import Mathlib.Data.List.Sort
import MicrostructureEngine.Feed.Tailer
import MicrostructureEngine.Lib.Runs
import MicrostructureEngine.Persist.WrittenSegments

/-!
# Tailing a log that is still written

One writer appends, rotates and stops; one tailer calls `next`, and may be closed and made anew
from its cursor. A call lists the directory and reads a segment at different times, and the
writer goes on in between. The position of the cursor is a position in the log, and it only
leaves a segment that was not the last one when the directory was listed.
-/

namespace MicrostructureEngine

set_option autoImplicit false

/-- A kind of record, with what its writers hand to the segment writer. -/
structure RecordStream (ρ : Type) extends RecordReader ρ where
  call : ρ → AppendCall
  size : ∀ record, (call record).payload.length = width
  ofImage_payload : ∀ record, ofImage (call record).payload (size record) = record

def ExecutionWalTailer.stream : RecordStream JournalImage where
  toRecordReader := reader
  call := ExecutionWalWriter.call
  size record := record.size
  ofImage_payload _ := rfl

/-- The arguments with which the recorder appends an event. -/
def FixedEvent.call (e : FixedEvent) : AppendCall where
  type := UInt16.ofNat (LittleEndian.decode (slice 50 2 e.image))
  flags := UInt16.ofNat (LittleEndian.decode (slice 53 1 e.image))
  payload := e.image

def WalTailer.stream : RecordStream FixedEvent where
  toRecordReader := reader
  call := FixedEvent.call
  size e := e.size
  ofImage_payload _ := rfl

/-! ## The system -/

/-- Where the tailer is in a call of `next`. -/
inductive Phase where
  | outside
  | inside
  | called
  | listed
  deriving DecidableEq, Repr

/-- `appended` are the records for which the writer answered that they are committed, and
`delivered` those that calls of `next` have delivered. -/
structure Tailing (ρ : Type) where
  disk : Directory
  writer : WalWriter
  tailer : Tailer ρ
  phase : Phase := .outside
  appended : List ρ := []
  delivered : List ρ := []

inductive TailingAction (ρ : Type) where
  | append (nowNs : Nat) (system : SystemAnswers) (record : ρ)
  | rotate (nowNs : Nat) (system : SystemAnswers)
  | finalize (system : SystemAnswers)
  /-- The directory lists its files in another order. -/
  | relist (files : List (SegmentPath × List UInt8))
  /-- The parts of a call. -/
  | call
  | rescan
  | read
  /-- A whole call, while the writer does nothing. -/
  | next
  /-- The tailer is closed, and a new one is opened and resumed from its cursor. -/
  | restart

namespace Tailing
variable {ρ : Type}

/-- The state behind a part of a call. -/
def turn (s : Tailing ρ) (on : Phase) : Turn ρ → Tailing ρ
  | .returns _ out t => { s with tailer := t, phase := .outside, delivered := s.delivered ++ out.toList }
  | .goesOn t => { s with tailer := t, phase := on }

def step (S : RecordStream ρ) (s : Tailing ρ) : TailingAction ρ → Tailing ρ
  | .append nowNs system record =>
    match s.writer.appendRotating nowNs system (S.call record) s.disk with
    -- the process is gone; the segment it leaves behind has no header
    | none => s
    | some (committed, writer, disk) =>
      { s with disk := disk, writer := writer, appended := s.appended ++ if committed then [record] else [] }
  | .rotate nowNs system =>
    let rotated := s.writer.rotate nowNs system s.disk
    { s with disk := rotated.2.2, writer := rotated.2.1 }
  | .finalize system =>
    let closed := s.writer.finalize system s.disk
    { s with disk := closed.2.2, writer := closed.2.1 }
  | .relist files => if files.Perm s.disk.files then { s with disk := { s.disk with files := files } } else s
  | .call => if s.phase = .outside ∨ s.phase = .inside then s.turn .called s.tailer.call else s
  | .rescan => if s.phase = .called then s.turn .listed (s.tailer.rescan (some s.disk)) else s
  | .read => if s.phase = .listed then s.turn .inside (s.tailer.read S.toRecordReader s.disk) else s
  | .next =>
    if s.phase = .outside then
      let answer := s.tailer.next S.toRecordReader s.disk
      { s with tailer := answer.2.2, delivered := s.delivered ++ answer.2.1.toList }
    else s
  | .restart =>
    if s.phase = .outside then
      { s with tailer := (Tailer.openDirectory (some s.disk)).resume s.tailer.cursor }
    else s

/-- A writer opens an empty directory, and a tailer opens it behind that. -/
def start (config : WalConfig) (header : WalFileHeader) (nowNs : Nat) (fault : Option OpenFault) : Tailing ρ :=
  let opened := WalWriter.openDirectory config header nowNs fault {}
  { disk := opened.2.2, writer := opened.2.1, tailer := .openDirectory (some opened.2.2) }

end Tailing

/-! ## The records of the segments -/

namespace RecordReader
variable {ρ : Type} (K : RecordReader ρ)

def ofFrame (f : Frame) : Option ρ :=
  if h : f.payload.length = K.width then some (K.ofImage f.payload h) else none

/-- The log that the segments with these frames hold. -/
def log (parts : List (List Frame)) : List (List ρ) := parts.map (List.filterMap K.ofFrame)

theorem getD_log (parts : List (List Frame)) (i : Nat) :
    (K.log parts).getD i [] = (parts.getD i []).filterMap K.ofFrame := by
  unfold log
  rw [List.getD_eq_getElem?_getD, List.getD_eq_getElem?_getD, List.getElem?_map]
  cases parts[i]? with
  | none => rfl
  | some part => rfl

section Records
variable {K} {f : SegmentFile} {frames : List Frame}

theorem records_of_region (h : f.region = frameCodec.concat frames)
    (hwidth : ∀ f ∈ frames, f.payload.length = K.width) :
    K.records f = frames.filterMap K.ofFrame ∧ K.rest f = [] := by
  lift frames to List {f : Frame // f.payload.length = K.width} using hwidth
  have hscan : (recordCodec K.width).scan f.region = (frames, []) := by
    rw [h]
    exact (congrArg _ (frameCodec.concat_restrict frames).symm).trans ((recordCodec K.width).scan_of_concat frames)
  have hsome : K.ofFrame ∘ Subtype.val = fun f : {f : Frame // f.payload.length = K.width} => some (K.record f) :=
    funext fun f => dif_pos f.2
  unfold records rest
  rw [hscan, List.filterMap_map, hsome, List.filterMap_eq_map']
  exact ⟨rfl, rfl⟩

end Records

end RecordReader

/-- The segments of a writer stand in the listing of the directory in order, between those that
were there before. -/
theorem Directory.Shelves.listing {D₀ D : Directory} {first : Nat} {parts : List (List Frame)}
    (h : Directory.Shelves D₀ D first parts) :
    ((SegmentCatalog.segmentsOf D).filter fun d => decide (d.path ∉ D₀.paths)).map SegmentDescriptor.path =
      (List.range parts.length).map fun i => ⟨first + i, .raw⟩ := by
  obtain ⟨hsorted, hsound, hcomplete⟩ := SegmentCatalog.segmentsOf_spec D
  have : Std.Irrefl fun a b : SegmentPath => a.index < b.index := ⟨fun a => Nat.lt_irrefl a.index⟩
  have : Std.Antisymm fun a b : SegmentPath => a.index < b.index :=
    ⟨fun a b hab hba => absurd hab (Nat.lt_asymm hba)⟩
  apply List.Pairwise.eq_of_mem_iff (r := fun a b : SegmentPath => a.index < b.index)
  · exact List.pairwise_map.mpr (hsorted.sublist List.filter_sublist)
  · rw [List.pairwise_map]
    exact List.pairwise_lt_range.imp fun hij => Nat.add_lt_add_left hij first
  · intro path
    rw [List.mem_map, List.mem_map]
    constructor
    · rintro ⟨d, hd, rfl⟩
      obtain ⟨hd, hnew⟩ := List.mem_filter.mp hd
      obtain ⟨entry, hentry, rfl⟩ := hsound d hd
      rcases (h.paths entry.1).mp (List.mem_map_of_mem hentry) with hold | ⟨i, hi, hpath⟩
      · exact absurd hold (of_decide_eq_true hnew)
      · exact ⟨i, List.mem_range.mpr hi, hpath.symm⟩
    · rintro ⟨i, hi, rfl⟩
      have hi := List.mem_range.mp hi
      obtain ⟨entry, hentry, hpath⟩ := List.mem_map.mp ((h.paths _).mpr (.inr ⟨i, hi, rfl⟩))
      obtain ⟨d, hd, hindex, hraw⟩ := hcomplete entry hentry
      rw [hpath] at hindex hraw
      have hsame : d.path = ⟨first + i, .raw⟩ := congrArg₂ SegmentPath.mk hindex (hraw rfl)
      refine ⟨d, List.mem_filter.mpr ⟨hd, decide_eq_true ?_⟩, hsame⟩
      rw [hsame]
      exact h.fresh i hi

/-- A directory with nothing but the segments of one writer lists them in order. -/
theorem Directory.Shelves.listing_only {D : Directory} {first : Nat} {parts : List (List Frame)}
    (h : Directory.Shelves {} D first parts) :
    (SegmentCatalog.segmentsOf D).map SegmentDescriptor.path =
      (List.range parts.length).map fun i => ⟨first + i, .raw⟩ := by
  have hall : ((SegmentCatalog.segmentsOf D).filter fun d => decide (d.path ∉ ({} : Directory).paths)) =
      SegmentCatalog.segmentsOf D :=
    List.filter_eq_self.mpr fun d _ => decide_eq_true List.not_mem_nil
  rw [← h.listing, hall]

namespace Tailer
variable {ρ : Type}

/-- A pass over a segment of the writer buffers what the cursor does not account for. -/
theorem fill_shelves (K : RecordReader ρ) {D : Directory} {descriptor : SegmentDescriptor} {f : SegmentFile}
    {frames : List Frame} (hraw : descriptor.encoding = .raw) (hfile : D.file descriptor.path = some f)
    (h : f.Shelves frames) (hwidth : ∀ f ∈ frames, f.payload.length = K.width) (consumed : Nat) :
    let fresh := (frames.filterMap K.ofFrame).drop consumed
    fill K D descriptor consumed [] = (if fresh.isEmpty then .idle else .ok, fresh.take bufferCapacity) := by
  intro fresh
  rw [fill_spec K hraw hfile]
  rcases h with hholds | ⟨hclosed, rfl⟩
  · obtain ⟨hrecords, hrest⟩ := RecordReader.records_of_region hholds.region_eq hwidth
    rw [if_pos hholds.openable, hrecords, hrest]
    unfold batch
    split
    · rename_i hfull
      have hsome : fresh ≠ [] := by
        intro hnil
        have hlength : bufferCapacity ≤ fresh.length := hfull
        rw [hnil] at hlength
        exact absurd hlength (Nat.not_le.mpr (Nat.succ_pos _))
      rw [if_neg (by simpa using hsome)]
    · rename_i hroom
      rw [if_pos (show EndsHere [] from rfl), List.take_of_length_le (Nat.le_of_lt (Nat.not_le.mp hroom))]
  · have hnil : fresh = [] := List.drop_nil
    rw [if_neg hclosed, hnil]
    rfl

end Tailer

/-! ## The invariant -/

namespace Tailing
variable {ρ : Type}

/-- The directory holds the segments of the writer, in which the records that were appended
stand; the cursor is a position in them, behind what was delivered; and the buffer holds what
follows it. -/
structure Good (S : RecordStream ρ) (first : Nat) (parts : List (List Frame)) (s : Tailing ρ) : Prop where
  writes : s.writer.Writes {} s.disk first parts
  width : ∀ part ∈ parts, ∀ f ∈ part, f.payload.length = S.width
  appended : (S.log parts).flatten = s.appended
  within : SegmentedLog.Within (S.log parts) s.tailer.cursor.segmentIndex s.tailer.cursor.recordsConsumed
  delivered : SegmentedLog.upTo (S.log parts) s.tailer.cursor.segmentIndex s.tailer.cursor.recordsConsumed =
    s.delivered
  healthy : s.tailer.corrupt = false
  pending : s.tailer.pending <+:
    ((S.log parts).getD s.tailer.cursor.segmentIndex []).drop s.tailer.cursor.recordsConsumed
  quiet : s.phase = .called ∨ s.phase = .listed → s.tailer.pending = []
  listed : s.phase = .listed → ∃ n, s.tailer.cursor.segmentIndex < n ∧ n ≤ parts.length ∧
    s.tailer.catalog.segments.map SegmentDescriptor.path = (List.range n).map fun i => ⟨first + i, .raw⟩

section Steps
variable {S : RecordStream ρ} {first : Nat} {parts : List (List Frame)} {s : Tailing ρ}

theorem Good.length_log (_ : Good S first parts s) : (S.log parts).length = parts.length := List.length_map _

/-- What the writer does leaves the cursor where it is. -/
theorem Good.grown (h : Good S first parts s) {writer : WalWriter} {disk : Directory} {parts' : List (List Frame)}
    {frames : List Frame} {records : List ρ} (hgrows : SegmentedLog.Grows parts parts' frames)
    (hwrites : writer.Writes {} disk first parts') (hrecords : frames.filterMap S.ofFrame = records)
    (hwidth : ∀ f ∈ frames, f.payload.length = S.width) :
    Good S first parts' { s with disk := disk, writer := writer, appended := s.appended ++ records } := by
  have hlog : SegmentedLog.Grows (S.log parts) (S.log parts') records := by
    rw [← hrecords]
    exact hgrows.filterMap S.ofFrame
  refine ⟨hwrites, hgrows.forall h.width hwidth, ?_, h.within.grows hlog, ?_, h.healthy, ?_, h.quiet, ?_⟩
  · rw [hlog.flatten, h.appended]
  · rw [← h.delivered]
    exact SegmentedLog.upTo_grows h.within hlog
  · obtain ⟨more, hmore⟩ := (hlog.part_prefix h.within.1).1
    dsimp only
    rw [← hmore, List.drop_append_of_le_length h.within.2]
    exact h.pending.trans (List.prefix_append _ _)
  · intro hphase
    obtain ⟨n, hcursor, hle, hcatalog⟩ := h.listed hphase
    exact ⟨n, hcursor, Nat.le_trans hle hgrows.length_le, hcatalog⟩

theorem ofFrame_of_payload {f : Frame} {record : ρ} (hpayload : f.payload = (S.call record).payload) :
    f.payload.length = S.width ∧ S.ofFrame f = some record := by
  have hwidth : f.payload.length = S.width := by rw [hpayload, S.size]
  refine ⟨hwidth, ?_⟩
  unfold RecordReader.ofFrame
  rw [dif_pos hwidth]
  simp only [hpayload]
  exact congrArg some (S.ofImage_payload record)

theorem Good.append (h : Good S first parts s) (nowNs : Nat) (system : SystemAnswers) (record : ρ) :
    ∃ parts', Good S first parts' (step S s (.append nowNs system record)) := by
  unfold step
  dsimp only
  cases happend : s.writer.appendRotating nowNs system (S.call record) s.disk with
  | none => exact ⟨parts, h⟩
  | some result =>
    obtain ⟨committed, writer, disk⟩ := result
    obtain ⟨parts', frames, hgrows, hwrites, hpayloads⟩ := h.writes.appendRotating happend
    cases committed with
    | false =>
      have hnone : frames = [] := List.map_eq_nil_iff.mp hpayloads
      subst hnone
      exact ⟨parts', h.grown hgrows hwrites rfl fun f hf => absurd hf List.not_mem_nil⟩
    | true =>
      obtain ⟨f, rfl, hpayload⟩ := List.map_eq_singleton_iff.mp hpayloads
      obtain ⟨hwidth, hrecord⟩ := ofFrame_of_payload hpayload
      refine ⟨parts', h.grown hgrows hwrites ?_ ?_⟩
      · rw [List.filterMap_cons, hrecord]
        rfl
      · intro f' hf'
        rw [List.mem_singleton.mp hf']
        exact hwidth

/-- Growth that adds no record. -/
theorem Good.rested (h : Good S first parts s) {writer : WalWriter} {disk : Directory} {parts' : List (List Frame)}
    (hparts : parts' = parts ∨ parts' = parts ++ [[]]) (hwrites : writer.Writes {} disk first parts') :
    Good S first parts' { s with disk := disk, writer := writer } := by
  have hgrows : SegmentedLog.Grows parts parts' [] := by
    rcases hparts with rfl | rfl
    · exact .same _
    · exact .opened _
  have hgood := h.grown hgrows hwrites rfl fun f hf => absurd hf List.not_mem_nil
  rw [List.filterMap_nil, List.append_nil] at hgood
  exact hgood

theorem Good.relist (h : Good S first parts s) {files : List (SegmentPath × List UInt8)}
    (hperm : files.Perm s.disk.files) : Good S first parts { s with disk := { s.disk with files := files } } := by
  have hnodup := h.writes.shelves.distinct List.nodup_nil
  have hfile := Directory.file_relist hperm hnodup
  have hshelves : Directory.Shelves {} { s.disk with files := files } first parts := by
    refine ⟨?_, ?_, ?_, h.writes.shelves.fresh⟩
    · intro path
      rw [← h.writes.shelves.paths path]
      exact (hperm.map Prod.fst).mem_iff
    · intro i hi
      rw [hfile]
      exact h.writes.shelves.files i hi
    · exact fun _ => (hperm.map Prod.fst).nodup_iff.mpr hnodup
  refine h.rested (.inl rfl) ⟨hshelves, h.writes.bounded, h.writes.roomy, ?_⟩
  intro hfull
  obtain ⟨front, last, header, hparts, hindex, hheader, hstores, hlast⟩ := h.writes.mapped hfull
  exact ⟨front, last, header, hparts, hindex, hheader, hstores, (hfile _).trans hlast⟩

/-! ## The parts of a call -/

/-- A record of the buffer is the next one of the log. -/
theorem Good.deliver (h : Good S first parts s) {record : ρ} {rest : List ρ}
    (hpending : record :: rest <+: ((S.log parts).getD s.tailer.cursor.segmentIndex []).drop
      s.tailer.cursor.recordsConsumed) (on : Phase) :
    Good S first parts (s.turn on (s.tailer.deliver record rest)) := by
  obtain ⟨more, hmore⟩ := hpending
  rw [List.cons_append] at hmore
  obtain ⟨hwithin, hupTo, hdrop⟩ := SegmentedLog.upTo_item h.within hmore.symm
  rw [h.delivered] at hupTo
  refine ⟨h.writes, h.width, h.appended, hwithin, hupTo, h.healthy, ⟨more, hdrop.symm⟩, ?_, ?_⟩
  · rintro (hphase | hphase)
    · cases hphase
    · cases hphase
  · intro hphase
    cases hphase

/-- Outside of a pass the phase does not matter. -/
theorem Good.enter (h : Good S first parts s) {phase : Phase} (hcalled : phase = .called → s.tailer.pending = [])
    (hlisted : phase ≠ .listed) : Good S first parts { s with phase := phase } :=
  ⟨h.writes, h.width, h.appended, h.within, h.delivered, h.healthy, h.pending,
    fun hphase => hcalled (hphase.resolve_right hlisted), fun hphase => absurd hphase hlisted⟩

theorem Good.call_cases (h : Good S first parts s) :
    (∃ record rest, s.tailer.pending = record :: rest ∧ s.tailer.call = s.tailer.deliver record rest) ∨
      (s.tailer.pending = [] ∧ s.tailer.call = .goesOn s.tailer) := by
  unfold Tailer.call
  rw [h.healthy]
  cases hpending : s.tailer.pending with
  | nil => exact .inr ⟨rfl, rfl⟩
  | cons record rest => exact .inl ⟨record, rest, rfl, rfl⟩

/-- A listing shows all the segments there are. -/
theorem Good.rescan (h : Good S first parts s) (hpending : s.tailer.pending = []) :
    let t := { s.tailer with catalog := (SegmentCatalog.scan (some s.disk)).2 }
    s.tailer.rescan (some s.disk) = .goesOn t ∧ Good S first parts { s with tailer := t, phase := .listed } ∧
      t.catalog.segments.length = parts.length := by
  intro t
  have hlisting := h.writes.shelves.listing_only
  have hlength : t.catalog.segments.length = parts.length := by
    have hmap := congrArg List.length hlisting
    rw [List.length_map, List.length_map, List.length_range] at hmap
    exact hmap
  have hcursor := h.within.1
  rw [h.length_log] at hcursor
  have hsome : t.catalog.segments.isEmpty = false := by
    rw [← Bool.not_eq_true, List.isEmpty_iff_length_eq_zero]
    omega
  refine ⟨?_, ⟨h.writes, h.width, h.appended, h.within, h.delivered, h.healthy, h.pending, fun _ => hpending,
    fun _ => ⟨parts.length, hcursor, Nat.le_refl _, hlisting⟩⟩, hlength⟩
  unfold Tailer.rescan
  dsimp only
  rw [if_neg, if_neg]
  · rw [ge_iff_le, Nat.not_le]
    exact hlength ▸ hcursor
  · rw [show (SegmentCatalog.scan (some s.disk)).2.segments.isEmpty = false from hsome]
    exact Bool.false_ne_true

/-- A pass delivers the next record, goes to the next segment, or comes to the end of the last
segment that was listed. -/
theorem Good.read_cases (h : Good S first parts s) (hphase : s.phase = .listed) :
    (∃ record rest, s.tailer.read S.toRecordReader s.disk = s.tailer.deliver record rest ∧
      record :: rest <+: ((S.log parts).getD s.tailer.cursor.segmentIndex []).drop s.tailer.cursor.recordsConsumed) ∨
    (s.tailer.read S.toRecordReader s.disk =
        .goesOn { s.tailer with cursor := ⟨s.tailer.cursor.segmentIndex + 1, 0⟩, pending := [] } ∧
      Good S first parts { s with
        tailer := { s.tailer with cursor := ⟨s.tailer.cursor.segmentIndex + 1, 0⟩, pending := [] }
        phase := .inside }) ∨
    (s.tailer.read S.toRecordReader s.disk = .returns .idle none { s.tailer with pending := [] } ∧
      Good S first parts { s with tailer := { s.tailer with pending := [] }, phase := .outside } ∧
      (s.tailer.catalog.segments.length = parts.length → s.delivered = s.appended)) := by
  obtain ⟨n, hcursor, hle, hcatalog⟩ := h.listed hphase
  have hpending := h.quiet (.inr hphase)
  have hlength : s.tailer.catalog.segments.length = n := by
    have hmap := congrArg List.length hcatalog
    rwa [List.length_map, List.length_map, List.length_range] at hmap
  obtain ⟨descriptor, hdescriptor⟩ : ∃ d, s.tailer.catalog.segments[s.tailer.cursor.segmentIndex]? = some d :=
    ⟨_, List.getElem?_eq_getElem (by omega)⟩
  have hpath : descriptor.path = ⟨first + s.tailer.cursor.segmentIndex, .raw⟩ := by
    have hget := congrArg (fun paths => paths[s.tailer.cursor.segmentIndex]?) hcatalog
    rw [List.getElem?_map, List.getElem?_map, hdescriptor, List.getElem?_range hcursor] at hget
    exact Option.some.inj hget
  obtain ⟨f, hfile, hshelves⟩ := h.writes.shelves.files s.tailer.cursor.segmentIndex (by omega)
  have hwidth : ∀ f ∈ parts.getD s.tailer.cursor.segmentIndex [], f.payload.length = S.width := by
    intro f hf
    rw [List.getD_eq_getElem?_getD, List.getElem?_eq_getElem (by omega)] at hf
    exact h.width _ (List.getElem_mem _) f hf
  have hfill := Tailer.fill_shelves S.toRecordReader (congrArg SegmentPath.encoding hpath)
    (by rw [hpath]; exact hfile) hshelves hwidth s.tailer.cursor.recordsConsumed
  rw [← S.getD_log] at hfill
  dsimp only at hfill
  unfold Tailer.read
  rw [hdescriptor, hpending]
  dsimp only
  rw [hfill, hlength]
  cases hfresh : ((S.log parts).getD s.tailer.cursor.segmentIndex []).drop s.tailer.cursor.recordsConsumed with
  | cons record rest =>
    refine .inl ⟨record, rest.take (bufferCapacity - 1), rfl, ?_⟩
    exact (List.prefix_cons_inj record).mpr (List.take_prefix _ _)
  | nil =>
    refine .inr ?_
    have hend : s.tailer.cursor.recordsConsumed = ((S.log parts).getD s.tailer.cursor.segmentIndex []).length :=
      Nat.le_antisymm h.within.2 (List.drop_eq_nil_iff.mp hfresh)
    have hlog := h.length_log
    by_cases hnext : s.tailer.cursor.segmentIndex + 1 < n
    · obtain ⟨hwithin, hupTo⟩ := SegmentedLog.upTo_next (S.log parts) (by omega) hend
      refine .inl ⟨if_pos hnext, ⟨h.writes, h.width, h.appended, hwithin, hupTo.trans h.delivered, h.healthy,
        List.nil_prefix, fun _ => rfl, ?_⟩⟩
      intro hinside
      cases hinside
    · refine .inr ⟨if_neg hnext, ⟨h.writes, h.width, h.appended, h.within, h.delivered, h.healthy,
        List.nil_prefix, fun _ => rfl, ?_⟩, ?_⟩
      · intro houtside
        cases houtside
      · intro hall
        have hlast := SegmentedLog.upTo_last h.within (by omega) hfresh
        rw [← h.delivered, ← h.appended]
        exact hlast

/-! ## Whole calls and runs -/

/-- A whole call delivers the next record, or comes to the end of everything that was appended. -/
theorem Good.nextLoop (n : Nat) : ∀ {s : Tailing ρ}, Good S first parts s →
    let answer := Tailer.nextLoop S.toRecordReader s.disk n s.tailer
    Good S first parts { s with
        tailer := answer.2.2, phase := .outside, delivered := s.delivered ++ answer.2.1.toList } ∧
      (parts.length < s.tailer.cursor.segmentIndex + n →
        (∃ record, answer.1 = .ok ∧ answer.2.1 = some record) ∨
          (answer.1 = .idle ∧ answer.2.1 = none ∧ s.delivered = s.appended)) := by
  induction n with
  | zero =>
    intro s h answer
    have hcursor := h.within.1
    rw [h.length_log] at hcursor
    have hsame : s.delivered ++ (none : Option ρ).toList = s.delivered := List.append_nil _
    refine ⟨?_, fun hfuel => absurd hcursor (by omega)⟩
    show Good S first parts { s with
      tailer := s.tailer, phase := .outside, delivered := s.delivered ++ (none : Option ρ).toList }
    rw [hsame]
    exact h.enter (fun hphase => by cases hphase) (fun hphase => by cases hphase)
  | succ n ih =>
    intro s h answer
    have hanswer : answer = Tailer.nextLoop S.toRecordReader s.disk (n + 1) s.tailer := rfl
    unfold Tailer.nextLoop at hanswer
    rcases h.call_cases with ⟨record, rest, hpending, hcall⟩ | ⟨hpending, hcall⟩
    · rw [hcall] at hanswer
      have hdeliver := h.deliver (hpending ▸ h.pending) .called
      rw [hanswer]
      exact ⟨hdeliver, fun _ => .inl ⟨record, rfl, rfl⟩⟩
    · obtain ⟨hrescan, hlisted, hlength⟩ := h.rescan hpending
      rw [hcall] at hanswer
      dsimp only at hanswer
      rw [hrescan] at hanswer
      dsimp only at hanswer
      rcases hlisted.read_cases rfl with ⟨record, rest, hread, hbuffer⟩ | ⟨hread, hnext⟩ | ⟨hread, hidle, hend⟩
      · dsimp only at hread
        rw [hread] at hanswer
        have hdeliver := hlisted.deliver hbuffer .called
        rw [hanswer]
        exact ⟨hdeliver, fun _ => .inl ⟨record, rfl, rfl⟩⟩
      · dsimp only at hread
        rw [hread] at hanswer
        obtain ⟨hgood, hfuel⟩ := ih hnext
        rw [hanswer]
        refine ⟨hgood, fun hn => hfuel ?_⟩
        dsimp only
        omega
      · dsimp only at hread
        rw [hread] at hanswer
        have hsame : s.delivered ++ (none : Option ρ).toList = s.delivered := List.append_nil _
        rw [hanswer]
        refine ⟨?_, fun _ => .inr ⟨rfl, rfl, hend hlength⟩⟩
        dsimp only
        rw [hsame]
        exact hidle

theorem Good.next (h : Good S first parts s) :
    let answer := s.tailer.next S.toRecordReader s.disk
    Good S first parts { s with
        tailer := answer.2.2, phase := .outside, delivered := s.delivered ++ answer.2.1.toList } ∧
      ((∃ record, answer.1 = .ok ∧ answer.2.1 = some record) ∨
        (answer.1 = .idle ∧ answer.2.1 = none ∧ s.delivered = s.appended)) := by
  obtain ⟨hgood, hfuel⟩ := h.nextLoop (s.disk.files.length + 1)
  refine ⟨hgood, hfuel ?_⟩
  have hle : parts.length ≤ s.disk.files.length := by
    have hsub : (List.range parts.length).map (fun i => SegmentPath.mk (first + i) .raw) ⊆ s.disk.paths := by
      intro path hpath
      obtain ⟨i, hi, rfl⟩ := List.mem_map.mp hpath
      exact (h.writes.shelves.paths _).mpr (.inr ⟨i, List.mem_range.mp hi, rfl⟩)
    have hnodup : ((List.range parts.length).map fun i => SegmentPath.mk (first + i) .raw).Nodup := by
      refine List.nodup_range.map ?_
      intro i j hij
      have hindex := congrArg SegmentPath.index hij
      dsimp only at hindex
      omega
    have hcard := (List.subperm_of_subset hnodup hsub).length_le
    rw [List.length_map, List.length_range] at hcard
    exact hcard.trans (Nat.le_of_eq (List.length_map _))
  omega

/-- Every step keeps the invariant. -/
theorem Good.step (h : Good S first parts s) (a : TailingAction ρ) :
    ∃ parts', Good S first parts' (Tailing.step S s a) := by
  cases a with
  | append nowNs system record => exact h.append nowNs system record
  | rotate nowNs system =>
    obtain ⟨parts', hparts, hwrites, -⟩ := h.writes.rotate nowNs system
    exact ⟨parts', h.rested hparts hwrites⟩
  | finalize system => exact ⟨parts, h.rested (.inl rfl) (h.writes.finalize system)⟩
  | relist files =>
    unfold Tailing.step
    dsimp only
    split
    · rename_i hperm
      exact ⟨parts, h.relist hperm⟩
    · exact ⟨parts, h⟩
  | call =>
    unfold Tailing.step
    dsimp only
    split
    · rcases h.call_cases with ⟨record, rest, hpending, hcall⟩ | ⟨hpending, hcall⟩
      · rw [hcall]
        exact ⟨parts, h.deliver (hpending ▸ h.pending) .called⟩
      · rw [hcall]
        exact ⟨parts, h.enter (fun _ => hpending) fun hphase => by cases hphase⟩
    · exact ⟨parts, h⟩
  | rescan =>
    unfold Tailing.step
    dsimp only
    split
    · rename_i hphase
      obtain ⟨hrescan, hlisted, -⟩ := h.rescan (h.quiet (.inl hphase))
      rw [hrescan]
      exact ⟨parts, hlisted⟩
    · exact ⟨parts, h⟩
  | read =>
    unfold Tailing.step
    dsimp only
    split
    · rename_i hphase
      rcases h.read_cases hphase with ⟨record, rest, hread, hbuffer⟩ | ⟨hread, hnext⟩ | ⟨hread, hidle, -⟩
      · rw [hread]
        exact ⟨parts, h.deliver hbuffer .inside⟩
      · rw [hread]
        exact ⟨parts, hnext⟩
      · rw [hread]
        have hsame : s.delivered ++ (none : Option ρ).toList = s.delivered := List.append_nil _
        unfold turn
        dsimp only
        rw [hsame]
        exact ⟨parts, hidle⟩
    · exact ⟨parts, h⟩
  | next =>
    unfold Tailing.step
    dsimp only
    split
    · rename_i hphase
      have hgood := h.next.1
      rw [← hphase] at hgood
      exact ⟨parts, hgood⟩
    · exact ⟨parts, h⟩
  | restart =>
    unfold Tailing.step
    dsimp only
    split
    · rename_i hphase
      refine ⟨parts, h.writes, h.width, h.appended, h.within, h.delivered, rfl, List.nil_prefix, fun _ => rfl, ?_⟩
      intro hlisted
      rw [hphase] at hlisted
      cases hlisted
    · exact ⟨parts, h⟩

end Steps

end Tailing

/-- What a row of calls answers while the writer does nothing. -/
def Tailer.answers {ρ : Type} (K : RecordReader ρ) (D : Directory) (t : Tailer ρ) (n : Nat) :
    List (TailStatus × Option ρ) :=
  Outputs.outputs (fun (t : Tailer ρ) (_ : Unit) => (((t.next K D).1, (t.next K D).2.1), (t.next K D).2.2)) t
    (List.replicate n ())

namespace Tailing
variable {ρ : Type}

/-- What was delivered is a front of what was appended. Outside of a call, and if the writer does
nothing more, the next calls deliver the others in order, and only then come to an end. -/
def ExactlyOnce (S : RecordStream ρ) (s : Tailing ρ) : Prop :=
  s.delivered <+: s.appended ∧
    (s.phase = .outside → ∃ missing, s.appended = s.delivered ++ missing ∧
      ∀ n, s.tailer.answers S.toRecordReader s.disk (missing.length + n) =
        missing.map (fun record => (.ok, some record)) ++ List.replicate n (.idle, none))

section Runs
variable {S : RecordStream ρ} {first : Nat} {parts : List (List Frame)}

theorem Good.prefix_appended {s : Tailing ρ} (h : Good S first parts s) : s.delivered <+: s.appended := by
  rw [← h.delivered, ← h.appended]
  exact SegmentedLog.upTo_prefix h.within

/-- The calls behind the last step of the writer. -/
theorem Good.answers (n : Nat) (missing : List ρ) : ∀ {s : Tailing ρ}, Good S first parts s →
    s.appended = s.delivered ++ missing → s.tailer.answers S.toRecordReader s.disk (missing.length + n) =
      missing.map (fun record => (.ok, some record)) ++ List.replicate n (.idle, none) := by
  induction missing with
  | nil =>
    induction n with
    | zero =>
      intro s _ _
      rfl
    | succ n ih =>
      intro s h hall
      obtain ⟨hgood, hanswer⟩ := h.next
      have hpre := hgood.prefix_appended
      dsimp only at hpre
      rcases hanswer with ⟨record, -, hout⟩ | ⟨hidle, hout, -⟩
      · rw [hout, hall, List.append_nil] at hpre
        have hlength := hpre.length_le
        rw [List.length_append] at hlength
        have hone : (some record).toList.length = 1 := rfl
        omega
      · rw [hout] at hgood
        have htail := ih hgood (by
          dsimp only
          rw [hall, Option.toList_none, List.append_nil, List.append_nil])
        refine Eq.trans ?_ (congrArg ((TailStatus.idle, (none : Option ρ)) :: ·) htail)
        rw [← hidle, ← hout]
        rfl
  | cons record missing ih =>
    intro s h hall
    obtain ⟨hgood, hanswer⟩ := h.next
    have hpre := hgood.prefix_appended
    dsimp only at hpre
    rcases hanswer with ⟨record', hok, hout⟩ | ⟨-, -, hdone⟩
    · rw [hout, hall] at hpre
      obtain ⟨rest, hrest⟩ := hpre
      rw [List.append_assoc] at hrest
      obtain ⟨rfl, -⟩ := List.cons.inj (List.append_cancel_left hrest)
      rw [hout] at hgood
      have htail := ih hgood (by
        dsimp only
        rw [hall, List.append_assoc]
        rfl)
      rw [List.length_cons, Nat.add_right_comm]
      refine Eq.trans ?_ (congrArg ((TailStatus.ok, some record') :: ·) htail)
      rw [← hok, ← hout]
      rfl
    · rw [hdone] at hall
      have hlength := congrArg List.length hall
      rw [List.length_append, List.length_cons] at hlength
      omega

theorem Good.exactlyOnce {s : Tailing ρ} (h : Good S first parts s) : ExactlyOnce S s := by
  refine ⟨h.prefix_appended, fun _ => ?_⟩
  obtain ⟨missing, hmissing⟩ := h.prefix_appended
  exact ⟨missing, hmissing.symm, fun n => h.answers n missing hmissing.symm⟩

theorem start_good (S : RecordStream ρ) {config : WalConfig} {header : WalFileHeader} {nowNs : Nat}
    {fault : Option OpenFault} (hopen : (WalWriter.openDirectory config header nowNs fault {}).1 = true) :
    Good S config.firstSegmentIndex [[]] (start config header nowNs fault) where
  writes := by
    obtain ⟨parts, -, hwrites, hok⟩ := WalWriter.openDirectory_writes config header nowNs fault {}
    obtain ⟨rfl, -⟩ := hok hopen
    exact hwrites
  width part hpart f hf := by
    rw [List.mem_singleton.mp hpart] at hf
    exact absurd hf List.not_mem_nil
  appended := rfl
  within := ⟨Nat.lt_succ_self 0, Nat.le_refl 0⟩
  delivered := rfl
  healthy := rfl
  pending := List.nil_prefix
  quiet _ := rfl
  listed hphase := by cases hphase

theorem run_good (S : RecordStream ρ) {config : WalConfig} {header : WalFileHeader} {nowNs : Nat}
    {fault : Option OpenFault} (hopen : (WalWriter.openDirectory config header nowNs fault {}).1 = true)
    (actions : List (TailingAction ρ)) :
    ∃ parts, Good S config.firstSegmentIndex parts
      (Runs.run (step S) (start config header nowNs fault) actions) := by
  apply Runs.invariant_of_step (I := fun s => ∃ parts, Good S config.firstSegmentIndex parts s)
  · rintro s a ⟨parts, h⟩
    exact h.step a
  · exact ⟨_, start_good S hopen⟩

end Runs

end Tailing

/-- Both tailers deliver a growing log exactly once. -/
theorem tailing_exactly_once (config : WalConfig) (header : WalFileHeader) (nowNs : Nat) (fault : Option OpenFault)
    (hopen : (WalWriter.openDirectory config header nowNs fault {}).1 = true) :
    (∀ actions, Tailing.ExactlyOnce ExecutionWalTailer.stream
      (Runs.run (Tailing.step ExecutionWalTailer.stream) (Tailing.start config header nowNs fault) actions)) ∧
    (∀ actions, Tailing.ExactlyOnce WalTailer.stream
      (Runs.run (Tailing.step WalTailer.stream) (Tailing.start config header nowNs fault) actions)) := by
  constructor
  · intro actions
    obtain ⟨parts, hgood⟩ := Tailing.run_good ExecutionWalTailer.stream hopen actions
    exact hgood.exactlyOnce
  · intro actions
    obtain ⟨parts, hgood⟩ := Tailing.run_good WalTailer.stream hopen actions
    exact hgood.exactlyOnce

theorem tailing_exactly_once_first : Tailing.ExactlyOnce ExecutionWalTailer.stream
    (Runs.run (Tailing.step ExecutionWalTailer.stream)
      (Tailing.start {} ⟨List.replicate walHeaderSize 0, List.length_replicate⟩ 0 none)
      [.append 1 {} ⟨List.replicate journalRecordSize 0, List.length_replicate⟩, .rotate 2 {}, .next, .restart]) :=
  (tailing_exactly_once {} ⟨List.replicate walHeaderSize 0, List.length_replicate⟩ 0 none rfl).1 _

end MicrostructureEngine
