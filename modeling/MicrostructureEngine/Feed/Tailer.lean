import MicrostructureEngine.Feed.Completeness
import MicrostructureEngine.Persist.ExecutionWal

/-!
# The tailers

`ExecutionWalTailer` and `replay::WalTailer` follow a directory that is still written. They are
one text for two kinds of record: a call serves the buffer, or lists the directory, opens the
segment of the cursor, skips the records that were delivered and buffers what follows, and goes
to the next segment only where a later one is listed. The parts of a call between which the
directory may change are functions of their own.
-/

namespace MicrostructureEngine

set_option autoImplicit false

/-- The frames of one payload size. -/
def recordCodec (width : Nat) : Framing.Codec {f : Frame // f.payload.length = width} UInt8 :=
  frameCodec.restrict fun f => f.payload.length = width

/-- A kind of record: its size, and the call that reads the next one. -/
structure RecordReader (ρ : Type) where
  width : Nat
  ofImage : (image : List UInt8) → image.length = width → ρ
  next : WalReader → ReadStatus × Option ρ × WalReader
  next_record : ∀ {r : WalReader} {f : Frame} {region beyond : List UInt8} (h : f.payload.length = width),
    r.At (f.encode ++ region) beyond →
      ∃ r', next r = (.ok, some (ofImage f.payload h), r') ∧ r'.At region beyond
  next_none : ∀ {r : WalReader} {region beyond : List UInt8}, r.At region beyond →
    (recordCodec width).head region = none →
      (next r).1 ≠ .ok ∧ (isCleanStop (next r).1 = true ↔ EndsHere region)

inductive TailStatus where
  | ok
  | idle
  | endOfData
  | corrupt
  | catalogError
  deriving DecidableEq, Repr

structure TailCursor where
  segmentIndex : Nat := 0
  recordsConsumed : Nat := 0
  deriving DecidableEq, Repr

def bufferCapacity : Nat := 4096

/-- `pending` is what the buffer has not delivered yet. -/
structure Tailer (ρ : Type) where
  catalog : SegmentCatalog := {}
  cursor : TailCursor := {}
  pending : List ρ := []
  total : Nat := 0
  corrupt : Bool := false

/-- What a part of a call does: the call returns, or it goes on. -/
inductive Turn (ρ : Type) where
  | returns (status : TailStatus) (out : Option ρ) (t : Tailer ρ)
  | goesOn (t : Tailer ρ)

namespace Tailer
variable {ρ : Type}

/-- `open`: the directory is listed, and the cursor stands at its first segment. -/
def openDirectory (directory : Option Directory) : Tailer ρ := { catalog := (SegmentCatalog.scan directory).2 }

def resume (t : Tailer ρ) (cursor : TailCursor) : Tailer ρ := { t with cursor := cursor, pending := [] }

/-- A record of the buffer is delivered. -/
def deliver (t : Tailer ρ) (record : ρ) (rest : List ρ) : Turn ρ :=
  .returns .ok (some record) { t with
    cursor := { t.cursor with recordsConsumed := t.cursor.recordsConsumed + 1 }
    pending := rest
    total := t.total + 1 }

/-- The part of `next` that looks at nothing but the buffer. -/
def call (t : Tailer ρ) : Turn ρ :=
  if t.corrupt then .returns .corrupt none t
  else
    match t.pending with
    | record :: rest => t.deliver record rest
    | [] => .goesOn t

/-- `rescan` and the checks behind it. -/
def rescan (directory : Option Directory) (t : Tailer ρ) : Turn ρ :=
  let scanned := SegmentCatalog.scan directory
  let t := { t with catalog := scanned.2 }
  if !scanned.1 || scanned.2.segments.isEmpty then .returns .catalogError none t
  else if t.cursor.segmentIndex ≥ scanned.2.segments.length then .returns .endOfData none t
  else .goesOn t

/-- The loop of `fill_from_current_segment`: the status, and what is in the buffer. -/
def fillLoop (K : RecordReader ρ) (consumed : Nat) : Nat → WalReader → Nat → List ρ → TailStatus × List ρ
  | 0, _, _, buffer => (.idle, buffer)
  | n + 1, r, position, buffer =>
    match K.next r with
    | (.ok, some record, r') =>
      -- already delivered
      if position < consumed then fillLoop K consumed n r' (position + 1) buffer
      else if (buffer ++ [record]).length ≥ bufferCapacity then (.ok, buffer ++ [record])
      else fillLoop K consumed n r' (position + 1) (buffer ++ [record])
    | (status, _, _) =>
      if isCleanStop status then (if buffer.isEmpty then .idle else .ok, buffer) else (.corrupt, buffer)

def fill (K : RecordReader ρ) (D : Directory) (descriptor : SegmentDescriptor) (consumed : Nat)
    (buffer : List ρ) : TailStatus × List ρ :=
  if descriptor.encoding ≠ .raw then (.corrupt, buffer)
  else
    let opened := WalReader.openFile (D.file descriptor.path)
    if !opened.1 then (.idle, buffer)
    else fillLoop K consumed (opened.2.stream.length + 1) opened.2 0 []

/-- The part of `next` behind the listing. A segment that yields nothing is left only where a
later one is listed. -/
def read (K : RecordReader ρ) (D : Directory) (t : Tailer ρ) : Turn ρ :=
  match t.catalog.segments[t.cursor.segmentIndex]? with
  | none => .goesOn t
  | some descriptor =>
    let filled := fill K D descriptor t.cursor.recordsConsumed t.pending
    match filled.1, filled.2 with
    | .corrupt, buffer => .returns .corrupt none { t with pending := buffer, corrupt := true }
    | .ok, record :: rest => t.deliver record rest
    | _, buffer =>
      if t.cursor.segmentIndex + 1 < t.catalog.segments.length then
        .goesOn { t with cursor := ⟨t.cursor.segmentIndex + 1, 0⟩, pending := buffer }
      else .returns .idle none { t with pending := buffer }

/-- `next`, which calls itself for the next segment; its first argument bounds the number of
segments. -/
def nextLoop (K : RecordReader ρ) (D : Directory) : Nat → Tailer ρ → TailStatus × Option ρ × Tailer ρ
  | 0, t => (.idle, none, t)
  | n + 1, t =>
    match t.call with
    | .returns status out t => (status, out, t)
    | .goesOn t =>
      match t.rescan (some D) with
      | .returns status out t => (status, out, t)
      | .goesOn t =>
        match t.read K D with
        | .returns status out t => (status, out, t)
        | .goesOn t => nextLoop K D n t

def next (K : RecordReader ρ) (D : Directory) (t : Tailer ρ) : TailStatus × Option ρ × Tailer ρ :=
  nextLoop K D (D.files.length + 1) t

end Tailer

/-! ## The two kinds of record -/

theorem headFrame_of_recordCodec {width : Nat} {region : List UInt8} (h : (recordCodec width).head region = none) :
    headFrame region = none ∨
      ∃ (f : Frame) (rest : List UInt8), region = f.encode ++ rest ∧ f.payload.length ≠ width := by
  cases hhead : headFrame region with
  | none => exact .inl rfl
  | some found =>
    have heq := encode_of_headFrame hhead
    refine .inr ⟨found.1, found.2, heq, ?_⟩
    intro hwidth
    have hsome : (recordCodec width).head region = some (⟨found.1, hwidth⟩, found.2) :=
      (recordCodec width).head_eq_some.mpr heq
    rw [h] at hsome
    cases hsome

namespace ExecutionWalTailer

theorem next_status {r : WalReader} (h : (r.nextRaw journalRecordSize).1 ≠ .ok) :
    (ExecutionWalReader.next r).1 = (r.nextRaw journalRecordSize).1 := by
  unfold ExecutionWalReader.next
  split
  · rename_i heq
    exact absurd (congrArg Prod.fst heq) h
  · rename_i status _ _ _ heq
    exact (congrArg Prod.fst heq).symm

def reader : RecordReader JournalImage where
  width := journalRecordSize
  ofImage := JournalImage.mk
  next := ExecutionWalReader.next
  next_record := by
    intro r f region beyond hwidth h
    obtain ⟨r', hcall, hat⟩ := h.nextRaw_frame (Nat.le_of_eq hwidth)
    refine ⟨r', ?_, hat⟩
    unfold ExecutionWalReader.next
    rw [hcall]
    exact dif_pos hwidth
  next_none := by
    intro r region beyond h hhead
    rcases headFrame_of_recordCodec hhead with hnone | ⟨f, rest, rfl, hwidth⟩
    · obtain ⟨hstatus, hne, -⟩ := h.nextRaw_none journalRecordSize hnone
      rw [next_status (hstatus.trans_ne hne), hstatus]
      exact ⟨hne, Iff.rfl⟩
    · have hends : ¬ EndsHere (f.encode ++ rest) := endsHere_not_encode f rest
      rcases Nat.lt_or_ge journalRecordSize f.payload.length with hlt | hge
      · have hstatus := (h.apply (.nextRaw journalRecordSize)).1
        rw [ReadCall.status_encode, if_neg (by simpa [ReadCall.takes] using hlt)] at hstatus
        have hraw : (r.nextRaw journalRecordSize).1 = .unexpectedPayloadSize := hstatus
        rw [next_status (hraw.trans_ne fun hok => ReadStatus.noConfusion hok), hraw]
        exact ⟨fun hok => ReadStatus.noConfusion hok, fun hstop => Bool.noConfusion hstop,
          fun hend => absurd hend hends⟩
      · obtain ⟨r', hcall, -⟩ := h.nextRaw_frame hge
        have hnext : ExecutionWalReader.next r = (.unexpectedPayloadSize, none, r') := by
          unfold ExecutionWalReader.next
          rw [hcall]
          exact dif_neg hwidth
        rw [hnext]
        exact ⟨fun hok => ReadStatus.noConfusion hok, fun hstop => Bool.noConfusion hstop,
          fun hend => absurd hend hends⟩

def openDirectory (directory : Option Directory) : Bool × Tailer JournalImage :=
  ((SegmentCatalog.scan directory).1, .openDirectory directory)

def next (D : Directory) (t : Tailer JournalImage) : TailStatus × Option JournalImage × Tailer JournalImage :=
  t.next reader D

end ExecutionWalTailer

namespace WalTailer

def reader : RecordReader FixedEvent where
  width := fixedEventPayloadSize
  ofImage := FixedEvent.mk
  next := WalReader.next
  next_record := by
    intro r f region beyond hwidth h
    obtain ⟨hevent, -, hat⟩ := h.next
    have hstatus := (h.apply .next).1
    rw [headEvent_encode, dif_pos hwidth] at hevent
    rw [ReadCall.status_encode, if_pos (by simpa [ReadCall.takes] using hwidth)] at hstatus
    rw [headStatus_encode, drop_size] at hat
    exact ⟨r.next.2.2, Prod.ext hstatus (Prod.ext hevent rfl), hat⟩
  next_none := by
    intro r region beyond h hhead
    obtain ⟨-, hends, -⟩ := h.next
    have hevent : headEvent region = none := by
      rcases headFrame_of_recordCodec hhead with hnone | ⟨f, rest, rfl, hwidth⟩
      · exact headEvent_of_none hnone
      · rw [headEvent_encode]
        exact dif_neg hwidth
    refine ⟨?_, hends hevent⟩
    have hstatus : r.next.1 = ReadCall.next.status region := (h.apply .next).1
    rw [hstatus, Ne, ReadCall.status_ok_iff]
    rintro ⟨f, rest, rfl, htakes⟩
    rw [headEvent_encode] at hevent
    unfold ReadCall.takes at htakes
    rw [dif_pos (beq_iff_eq.mp htakes)] at hevent
    cases hevent

def openDirectory (directory : Option Directory) : Bool × Tailer FixedEvent :=
  ((SegmentCatalog.scan directory).1 && !(SegmentCatalog.scan directory).2.segments.isEmpty, .openDirectory directory)

def next (D : Directory) (t : Tailer FixedEvent) : TailStatus × Option FixedEvent × Tailer FixedEvent :=
  t.next reader D

end WalTailer

/-! ## What a call finds -/

namespace RecordReader
variable {ρ : Type} (K : RecordReader ρ)

def record (f : {f : Frame // f.payload.length = K.width}) : ρ := K.ofImage f.1.payload f.2

/-- The records at the front of the bytes of a segment. -/
def records (f : SegmentFile) : List ρ := ((recordCodec K.width).scan f.region).1.map K.record

/-- What stands behind them. -/
def rest (f : SegmentFile) : List UInt8 := ((recordCodec K.width).scan f.region).2

end RecordReader

namespace Tailer
variable {ρ : Type}

/-- The answer of a pass over a segment with these records left to deliver. -/
def batch (fresh : List ρ) (rest : List UInt8) : TailStatus × List ρ :=
  if bufferCapacity ≤ fresh.length then (.ok, fresh.take bufferCapacity)
  else if EndsHere rest then (if fresh.isEmpty then .idle else .ok, fresh)
  else (.corrupt, fresh)

/-- The loop delivers what follows the records that the cursor accounts for. -/
theorem fillLoop_spec (K : RecordReader ρ) (consumed : Nat) (region beyond : List UInt8) :
    ∀ (n : Nat) (r : WalReader) (position : Nat) (buffer : List ρ), r.At region beyond → region.length < n →
      buffer.length < bufferCapacity →
      fillLoop K consumed n r position buffer =
        batch (buffer ++ (((recordCodec K.width).scan region).1.map K.record).drop (consumed - position))
          ((recordCodec K.width).scan region).2 := by
  induction region using (recordCodec K.width).stream_induction with
  | stop region hhead =>
    intro n r position buffer h hn hbuffer
    obtain ⟨k, rfl⟩ : ∃ k, n = k + 1 := ⟨n - 1, by omega⟩
    obtain ⟨hne, hends⟩ := K.next_none h hhead
    rw [(recordCodec K.width).scan_of_none hhead, List.map_nil, List.drop_nil, List.append_nil]
    unfold fillLoop batch
    rw [if_neg (Nat.not_le.mpr hbuffer)]
    split
    · rename_i heq
      exact absurd (congrArg Prod.fst heq) hne
    · rename_i heq
      have hstatus := congrArg Prod.fst heq
      dsimp only at hstatus
      rw [hstatus] at hends
      by_cases hend : EndsHere region
      · rw [if_pos hend, if_pos (hends.mpr hend)]
      · rw [if_neg hend, if_neg (fun hstop => hend (hends.mp hstop))]
  | step f rest ih =>
    intro n r position buffer h hn hbuffer
    obtain ⟨k, rfl⟩ : ∃ k, n = k + 1 := ⟨n - 1, by omega⟩
    obtain ⟨r', hcall, hnext⟩ := K.next_record f.2 h
    have hpos := (recordCodec K.width).length_encode_pos f
    rw [List.length_append] at hn
    have hrest := ih k r'
    rw [(recordCodec K.width).scan_encode]
    unfold fillLoop
    rw [hcall]
    dsimp only
    rw [List.map_cons]
    split
    · rename_i hdelivered
      have hskip : consumed - position = (consumed - (position + 1)) + 1 := by omega
      rw [hrest _ _ hnext (by omega) hbuffer, hskip, List.drop_succ_cons]
    · rename_i hfresh
      have hnone : consumed - position = 0 := by omega
      have hnone' : consumed - (position + 1) = 0 := by omega
      rw [hnone, List.drop_zero]
      split
      · rename_i hfull
        have hsplit : buffer ++ K.record f :: List.map K.record ((recordCodec K.width).scan rest).1 =
            (buffer ++ [K.record f]) ++ List.map K.record ((recordCodec K.width).scan rest).1 := by
          rw [List.append_assoc, List.singleton_append]
        have hlength : (buffer ++ [K.record f]).length = bufferCapacity := by
          rw [List.length_append, List.length_singleton] at hfull ⊢
          omega
        unfold batch
        rw [hsplit, if_pos (by rw [List.length_append]; omega), List.take_left' hlength]
        rfl
      · rename_i hroom
        rw [hrest _ _ hnext (by omega) (Nat.not_le.mp hroom), hnone', List.drop_zero, List.append_assoc,
          List.singleton_append]
        rfl

/-- What a pass over the segment of a descriptor answers. -/
theorem fill_spec (K : RecordReader ρ) {D : Directory} {descriptor : SegmentDescriptor} {f : SegmentFile}
    (hraw : descriptor.encoding = .raw) (hfile : D.file descriptor.path = some f) (consumed : Nat)
    (buffer : List ρ) :
    fill K D descriptor consumed buffer =
      if f.Openable then batch ((K.records f).drop consumed) (K.rest f) else (.idle, buffer) := by
  unfold fill
  rw [if_neg (not_not.mpr hraw), hfile]
  by_cases hopen : f.Openable
  · have hle := f.boundary_le
    have hstream : (WalReader.opened f).stream.length = f.data.length := rfl
    have hloop := fillLoop_spec K consumed f.region _ (f.data.length + 1) (WalReader.opened f) 0 []
      (WalReader.opened_at f) (by rw [f.length_region]; omega) (Nat.succ_pos _)
    rw [if_pos hopen, WalReader.openFile_openable hopen]
    exact hloop
  · rw [if_neg hopen, WalReader.openFile_not_openable hopen]
    rfl

end Tailer

end MicrostructureEngine
