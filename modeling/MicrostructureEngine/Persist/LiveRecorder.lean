import MicrostructureEngine.Feed.FailClosed
import MicrostructureEngine.Lib.Draining

/-!
# The live recorder

`record` puts a record of a shard into that shard's ring; a thread of its own pops the rings one
after the other and appends what it pops. A popped record is gone from its ring whatever the
writer answers. The records that were accepted are in the log if and only if the writer could
take each of them when it was popped and nothing was left in a ring behind the last pass.
-/

namespace MicrostructureEngine

set_option autoImplicit false

namespace WalWriter

/-- A record of this size is committed: the segment is mapped, and where it has to be rotated
away the next one can be opened. -/
def Takes (w : WalWriter) (nowNs : Nat) (system : SystemAnswers) (payloadLength : Nat) (D : Directory) : Prop :=
  w.mapping = .full ∧ (w.needsRotation nowNs payloadLength = true →
    system.flushes = true ∧ system.truncates = true ∧ system.fault = none ∧
      SegmentPath.mk (w.segmentIndex + 1) .raw ∉ D.paths ∧ D.sidecars (w.segmentIndex + 1) = none)

section Takes
variable {w : WalWriter} {D₀ D : Directory} {first : Nat} {parts : List (List Frame)}

theorem openSegment_iff (w : WalWriter) (nowNs : Nat) (fault : Option OpenFault) (D : Directory) :
    (w.openSegment nowNs fault D).1 = true ↔
      fault = none ∧ w.currentPath ∉ D.paths ∧ D.sidecars w.segmentIndex = none := by
  unfold openSegment
  dsimp only
  rw [← Option.not_isSome_iff_eq_none (o := D.sidecars w.segmentIndex)]
  have hsidecars : ∀ bytes, (D.write w.currentPath bytes).sidecars = D.sidecars := fun _ => rfl
  cases fault with
  | none =>
    by_cases hpath : w.currentPath ∈ D.paths
    · simp [hpath]
    · by_cases hsidecar : (D.sidecars w.segmentIndex).isSome = true
      · simp [hpath, hsidecars, hsidecar]
      · simp [hpath, hsidecars, hsidecar]
  | some fault =>
    refine ⟨fun h => ?_, fun h => absurd h.1 (by simp)⟩
    exfalso
    split_ifs at h with hcreate hresize hmap hmetadata hresizeMeta hmapMeta
    · cases fault with
      | flush => cases h
      | create => exact hcreate (.inr rfl)
      | resize => exact hresize rfl
      | map => exact hmap rfl
      | createMetadata => exact hmetadata (.inr rfl)
      | resizeMetadata => exact hresizeMeta rfl
      | mapMetadata => exact hmapMeta rfl

theorem openSegment_fresh {nowNs : Nat} {fault : Option OpenFault} (h : (w.openSegment nowNs fault D).1 = true) :
    (w.openSegment nowNs fault D).2.1.segment.committed = 0 := by
  revert h
  unfold openSegment
  dsimp only
  split_ifs with hcreate hresize hmap hmetadata hresizeMeta hmapMeta
  · exact False.elim
  · exact False.elim
  · exact False.elim
  · exact False.elim
  · exact False.elim
  · exact False.elim
  · exact fun _ => rfl

theorem paths_truncate (D : Directory) (path : SegmentPath) (size : Nat) (other : SegmentPath) :
    other ∈ (D.truncate path size).paths ↔ other ∈ D.paths := by
  unfold Directory.truncate
  cases hlookup : D.files.lookup path with
  | none => exact Iff.rfl
  | some bytes =>
    dsimp only
    rw [Directory.mem_paths_write]
    refine ⟨fun h => h.elim ?_ id, .inr⟩
    rintro rfl
    exact List.mem_map.mpr ⟨_, Directory.mem_files_of_lookup hlookup, rfl⟩

theorem sidecars_truncate (D : Directory) (path : SegmentPath) (size : Nat) :
    (D.truncate path size).sidecars = D.sidecars := by
  unfold Directory.truncate
  split
  · rfl
  · rfl

theorem rotate_iff (w : WalWriter) (nowNs : Nat) (system : SystemAnswers) (D : Directory) :
    (w.rotate nowNs system D).1 = true ↔ w.mapping = .full ∧ system.flushes = true ∧ system.truncates = true ∧
      system.fault = none ∧ SegmentPath.mk (w.segmentIndex + 1) .raw ∉ D.paths ∧
        D.sidecars (w.segmentIndex + 1) = none := by
  have hflush : w.flush system.flushes = true ↔ w.mapping = .full ∧ system.flushes = true := by
    unfold flush
    rw [Bool.and_eq_true, beq_iff_eq]
  unfold WalWriter.rotate
  rw [← and_assoc, ← hflush]
  by_cases hflushed : w.flush system.flushes = true
  · rw [hflushed]
    by_cases htruncates : system.truncates = true
    · rw [htruncates, if_neg (by decide), if_neg (by decide), openSegment_iff]
      unfold currentPath
      rw [paths_truncate, sidecars_truncate]
      simp
    · rw [Bool.not_eq_true] at htruncates
      simp [htruncates]
  · rw [Bool.not_eq_true] at hflushed
    simp [hflushed]

/-- A mapped segment with room commits the record. -/
theorem append_full {c : AppendCall} (hpos : 0 < c.payload.length) (hle : c.payload.length ≤ maxWalPayloadSize)
    (hfull : w.mapping = .full) (hroom : w.segment.committed + frameSize c.payload.length ≤ w.config.segmentDataBytes) :
    ∃ w' D', w.append c D = some (.committed, w', D') := by
  have hcommitted := (MappedSegment.append_committed_iff w.segment w.config.segmentDataBytes c).mpr ⟨hpos, hle, hroom⟩
  unfold append
  rw [hfull]
  dsimp only
  rw [if_pos hcommitted]
  exact ⟨_, _, rfl⟩

theorem append_unmapped {c : AppendCall} (hfull : w.mapping ≠ .full) {w' : WalWriter} {D' : Directory} :
    w.append c D ≠ some (.committed, w', D') := by
  unfold append
  cases hmapping : w.mapping with
  | closed =>
    intro h
    cases h
  | dataOnly =>
    dsimp only
    split_ifs with hcommitted
    · exact Option.some_ne_none _ |>.symm
    · intro h
      exact hcommitted (congrArg Prod.fst (Option.some.inj h))
  | full => exact absurd hmapping hfull

/-- Exactly the records that the writer can take are answered with `true`. -/
theorem Writes.appendRotating_iff (h : w.Writes D₀ D first parts) (nowNs : Nat) (system : SystemAnswers)
    {c : AppendCall} (hpos : 0 < c.payload.length) (hle : c.payload.length ≤ maxWalPayloadSize) :
    (∃ w' D', w.appendRotating nowNs system c D = some (true, w', D')) ↔
      w.Takes nowNs system c.payload.length D := by
  have happend : ∀ (w : WalWriter) (D : Directory),
      (∃ w' D', ((w.append c D).map fun result => (decide (result.1 = .committed), result.2)) = some (true, w', D')) ↔
        ∃ w' D', w.append c D = some (.committed, w', D') := by
    intro w D
    constructor
    · rintro ⟨w', D', heq⟩
      obtain ⟨⟨result, w'', D''⟩, hresult, heq⟩ := Option.map_eq_some_iff.mp heq
      obtain ⟨hok, -⟩ := Prod.mk.inj heq
      rw [show result = .committed from of_decide_eq_true hok] at hresult
      exact ⟨w'', D'', hresult⟩
    · rintro ⟨w', D', heq⟩
      exact ⟨w', D', by rw [heq]; rfl⟩
  unfold WalWriter.appendRotating Takes
  by_cases hrotates : w.needsRotation nowNs c.payload.length = true
  · dsimp only
    rw [hrotates, if_pos rfl]
    by_cases hrotated : (w.rotate nowNs system D).1 = true
    · have hiff := (rotate_iff w nowNs system D).mp hrotated
      rw [hrotated, if_neg (by decide), happend]
      refine ⟨fun _ => ⟨hiff.1, fun _ => hiff.2⟩, fun _ => ?_⟩
      obtain ⟨parts', -, hwrites, hmapped⟩ := h.rotate nowNs system
      have hcommitted : (w.rotate nowNs system D).2.1.segment.committed = 0 := by
        revert hrotated
        unfold WalWriter.rotate
        split_ifs
        · exact False.elim
        · exact False.elim
        · exact fun hopened => openSegment_fresh hopened
      refine append_full hpos hle (hmapped hrotated).2 ?_
      rw [hcommitted, Nat.zero_add]
      refine Nat.le_trans ?_ hwrites.roomy
      unfold frameSize maxFrameSize
      omega
    · have hnot : ¬ (w.mapping = .full ∧ (true = true → system.flushes = true ∧ system.truncates = true ∧
          system.fault = none ∧ SegmentPath.mk (w.segmentIndex + 1) .raw ∉ D.paths ∧
            D.sidecars (w.segmentIndex + 1) = none)) :=
        fun hall => hrotated ((rotate_iff w nowNs system D).mpr ⟨hall.1, hall.2 rfl⟩)
      rw [Bool.not_eq_true] at hrotated
      rw [hrotated, if_pos (by decide)]
      refine ⟨?_, fun hall => absurd hall hnot⟩
      rintro ⟨w', D', heq⟩
      exact Bool.noConfusion (congrArg Prod.fst (Option.some.inj heq))
  · dsimp only
    rw [if_neg hrotates, happend]
    constructor
    · rintro ⟨w', D', heq⟩
      refine ⟨?_, fun hdue => absurd hdue hrotates⟩
      by_contra hfull
      exact append_unmapped hfull heq
    · rintro ⟨hfull, -⟩
      refine append_full hpos hle hfull ?_
      unfold needsRotation at hrotates
      rw [Bool.or_eq_true, not_or, decide_eq_true_eq] at hrotates
      exact Nat.not_lt.mp hrotates.1

end Takes

end WalWriter

/-! ## The recorder -/

/-- The capacity of a ring. -/
def outboxCapacity : Nat := 8192

/-- Where the writer thread is: at the head of its first loop, in a `drain_once` of the first
loop or of the last one, or gone. -/
inductive WriterThread where
  | head
  | drain (last : Bool) (ring : Nat) (any : Bool)
  | ended
  | died
  deriving DecidableEq, Repr

structure LiveWalRecorder where
  writer : WalWriter
  opened : Bool
  outboxes : List (List JournalImage)
  running : Bool := true
  written : Nat := 0
  thread : WriterThread := .head

namespace LiveWalRecorder

/-- The constructor. The answer of `open` is kept, and nothing looks at it. -/
def create (shardCount segmentBytes nowNs : Nat) (fault : Option OpenFault) (D : Directory) :
    LiveWalRecorder × Directory :=
  let opened := WalWriter.openDirectory { segmentDataBytes := segmentBytes } .zeroed nowNs fault D
  ({ writer := opened.2.1, opened := opened.1, outboxes := List.replicate shardCount [] }, opened.2.2)

def record (r : LiveWalRecorder) (shardIndex : Nat) (rec : JournalImage) : Bool × LiveWalRecorder :=
  match r.outboxes[shardIndex]? with
  | none => (false, r)
  | some outbox =>
    if outbox.length = outboxCapacity then (false, r)
    else (true, { r with outboxes := r.outboxes.set shardIndex (outbox ++ [rec]) })

def pendingDepth (r : LiveWalRecorder) : Nat := (r.outboxes.map List.length).sum

/-- The part of `stop` in front of the join, which waits until the thread has ended. -/
def stop (r : LiveWalRecorder) : LiveWalRecorder := { r with running := false }

/-- One turn of the writer thread: a look at `running_`, one `try_pop` with what follows it, or
the end of a `drain_once`. The `flush` behind a pass changes no file, and its answer is dropped. -/
def turn (r : LiveWalRecorder) (nowNs : Nat) (system : SystemAnswers) (D : Directory) :
    LiveWalRecorder × Directory :=
  match r.thread with
  | .head => ({ r with thread := .drain (!r.running) 0 false }, D)
  | .drain last ring any =>
    match r.outboxes[ring]? with
    | some (rec :: rest) =>
      let r := { r with outboxes := r.outboxes.set ring rest, thread := .drain last ring true }
      match ExecutionWalWriter.append r.writer rec nowNs system D with
      | none => ({ r with thread := .died }, D)
      | some (committed, writer, D) =>
        ({ r with writer := writer, written := r.written + if committed then 1 else 0 }, D)
    | some [] => ({ r with thread := .drain last (ring + 1) any }, D)
    | none =>
      if !last then ({ r with thread := .head }, D)
      else if any then ({ r with thread := .drain true 0 false }, D)
      else ({ r with thread := .ended }, D)
  | .ended => (r, D)
  | .died => (r, D)

/-- The records in the segments that were not there before. -/
def newRecords (D₀ D : Directory) : List JournalImage :=
  ((SegmentCatalog.segmentsOf D).filter fun d => decide (d.path ∉ D₀.paths)).flatMap
    (ExecutionWalTailer.reader.found D)

end LiveWalRecorder

/-! ## The system -/

/-- `accepted` are the records for which `record` answered `true`, by their shards; `refused`
says that it has answered `false`. -/
structure Recording where
  recorder : LiveWalRecorder
  disk : Directory
  accepted : Nat → List JournalImage := fun _ => []
  refused : Bool := false

inductive RecordingAction where
  | record (shardIndex : Nat) (rec : JournalImage)
  | turn (nowNs : Nat) (system : SystemAnswers)
  | stop

namespace Recording

def start (shardCount segmentBytes nowNs : Nat) (fault : Option OpenFault) (D₀ : Directory) : Recording :=
  let created := LiveWalRecorder.create shardCount segmentBytes nowNs fault D₀
  { recorder := created.1, disk := created.2 }

def step (s : Recording) : RecordingAction → Recording
  | .record shardIndex rec =>
    let answer := s.recorder.record shardIndex rec
    if answer.1 then
      { s with
        recorder := answer.2
        accepted := Function.update s.accepted shardIndex (s.accepted shardIndex ++ [rec]) }
    else { s with refused := true }
  | .turn nowNs system =>
    let turned := s.recorder.turn nowNs system s.disk
    { s with recorder := turned.1, disk := turned.2 }
  | .stop => { s with recorder := s.recorder.stop }

/-- The record has a ring, and the ring has room. -/
def HasRoom (s : Recording) : RecordingAction → Prop
  | .record shardIndex _ => ∃ outbox, s.recorder.outboxes[shardIndex]? = some outbox ∧ outbox.length ≠ outboxCapacity
  | .turn _ _ => True
  | .stop => True

/-- What is popped meets a writer that can take it; when the thread ends no ring holds a record,
and no record comes after that. -/
def Meets (s : Recording) : RecordingAction → Prop
  | .record shardIndex rec => s.recorder.thread = .ended → ¬ s.HasRoom (.record shardIndex rec)
  | .turn nowNs system =>
    match s.recorder.thread with
    | .drain last ring any =>
      match s.recorder.outboxes[ring]? with
      | some (_ :: _) => s.recorder.writer.Takes nowNs system journalRecordSize s.disk
      | some [] => True
      | none => last = true → any = false → s.recorder.pendingDepth = 0
    | _ => True
  | .stop => True

/-- The accepted records stand in the new segments, each once, those of a shard in order. -/
def Kept (D₀ : Directory) (s : Recording) : Prop :=
  Draining.Drains s.accepted (LiveWalRecorder.newRecords D₀ s.disk)

end Recording

/-! ## What was popped, and what was written -/

namespace LiveWalRecorder

theorem newRecords_eq {D₀ D : Directory} {first : Nat} {parts : List (List Frame)}
    (h : Directory.Shelves D₀ D first parts)
    (hwidth : ∀ part ∈ parts, ∀ f ∈ part, f.payload.length = journalRecordSize) :
    newRecords D₀ D = (ExecutionWalTailer.reader.log parts).flatten := by
  let foundAt : SegmentPath → List JournalImage := fun path =>
    (D.file path).elim [] fun f => if f.Openable then ExecutionWalTailer.reader.records f else []
  have hfound : ExecutionWalTailer.reader.found D = fun d => foundAt d.path := by
    funext d
    unfold RecordReader.found
    dsimp only [foundAt]
    cases D.file d.path with
    | none => rfl
    | some f => rfl
  have hparts : parts = (List.range parts.length).map fun i => parts.getD i [] := by
    apply List.ext_getElem
    · rw [List.length_map, List.length_range]
    · intro i hi _
      rw [List.getElem_map, List.getElem_range, List.getD_eq_getElem?_getD, List.getElem?_eq_getElem hi,
        Option.getD_some]
  unfold newRecords RecordReader.log
  rw [hfound, ← List.flatMap_map SegmentDescriptor.path foundAt, h.listing, List.flatMap_map, List.flatMap_def]
  conv_rhs => rw [hparts, List.map_map]
  congr 1
  apply List.map_congr_left
  intro i hi
  obtain ⟨f, hfile, hshelves⟩ := h.files i (List.mem_range.mp hi)
  have hpart : ∀ f ∈ parts.getD i [], f.payload.length = journalRecordSize := by
    apply hwidth
    rw [List.getD_eq_getElem?_getD, List.getElem?_eq_getElem (List.mem_range.mp hi), Option.getD_some]
    exact List.getElem_mem _
  show ((D.file ⟨first + i, .raw⟩).elim [] fun f =>
    if f.Openable then ExecutionWalTailer.reader.records f else []) = _
  rw [hfile, Option.elim_some]
  dsimp only [Function.comp_apply]
  rcases hshelves with hholds | ⟨hclosed, hnone⟩
  · rw [if_pos hholds.openable, (RecordReader.records_of_region hholds.region_eq hpart).1]
  · rw [if_neg hclosed, hnone]
    rfl

theorem pendingDepth_eq (r : LiveWalRecorder) :
    r.pendingDepth = ∑ i ∈ Finset.range r.outboxes.length, (r.outboxes.getD i []).length := by
  unfold pendingDepth
  induction r.outboxes with
  | nil => rfl
  | cons outbox outboxes ih =>
    rw [List.map_cons, List.sum_cons, ih, List.length_cons, Finset.sum_range_succ', Nat.add_comm]
    rfl

theorem pendingDepth_eq_zero_iff (r : LiveWalRecorder) :
    r.pendingDepth = 0 ↔ ∀ i, r.outboxes.getD i [] = [] := by
  unfold pendingDepth
  rw [List.sum_eq_zero_iff_forall_eq_nat, List.forall_mem_map]
  constructor
  · intro h i
    rw [List.getD_eq_getElem?_getD]
    cases hget : r.outboxes[i]? with
    | none => rfl
    | some outbox => exact List.length_eq_zero_iff.mp (h outbox (List.mem_of_getElem? hget))
  · intro h outbox hmem
    obtain ⟨i, hi⟩ := List.mem_iff_getElem?.mp hmem
    have hempty := h i
    rw [List.getD_eq_getElem?_getD, hi] at hempty
    exact List.length_eq_zero_iff.mpr hempty

end LiveWalRecorder

namespace Recording

theorem record_iff (s : Recording) (shardIndex : Nat) (rec : JournalImage) :
    (s.recorder.record shardIndex rec).1 = true ↔ s.HasRoom (.record shardIndex rec) := by
  unfold LiveWalRecorder.record HasRoom
  cases houtbox : s.recorder.outboxes[shardIndex]? with
  | none => simp [houtbox]
  | some outbox =>
    dsimp only
    by_cases hfull : outbox.length = outboxCapacity
    · simp [houtbox, hfull]
    · simp [houtbox, hfull]

/-- The directory holds the records that were written, which are some of those that were popped;
`taken` are the latter by their shards. -/
structure Account (D₀ : Directory) (parts : List (List Frame)) (taken : Nat → List JournalImage)
    (popped : List JournalImage) (s : Recording) : Prop where
  writes : s.recorder.writer.Writes D₀ s.disk 0 parts
  width : ∀ part ∈ parts, ∀ f ∈ part, f.payload.length = journalRecordSize
  accepted : ∀ i, s.accepted i = taken i ++ s.recorder.outboxes.getD i []
  beyond : ∀ i, s.recorder.outboxes.length ≤ i → taken i = []
  drains : Draining.Drains taken popped
  written : (ExecutionWalTailer.reader.log parts).flatten.Sublist popped

/-- Nothing that was popped was lost, and nothing is left behind an ended thread. -/
def Sound (parts : List (List Frame)) (popped : List JournalImage) (s : Recording) : Prop :=
  (ExecutionWalTailer.reader.log parts).flatten = popped ∧
    (s.recorder.thread = .ended → s.recorder.pendingDepth = 0)

section Steps
variable {D₀ : Directory} {parts : List (List Frame)} {taken : Nat → List JournalImage}
  {popped : List JournalImage} {s : Recording}

/-- Behind the end of the thread the accepted records are kept if and only if the account is sound. -/
theorem Account.kept_iff (h : Account D₀ parts taken popped s) (hended : s.recorder.thread = .ended) :
    s.Kept D₀ ↔ Sound parts popped s := by
  unfold Kept Sound
  rw [LiveWalRecorder.newRecords_eq h.writes.shelves h.width]
  constructor
  · intro hkept
    have hbeyond : ∀ i, s.recorder.outboxes.length ≤ i → s.accepted i = [] := by
      intro i hi
      rw [h.accepted, h.beyond i hi, List.getD_eq_getElem?_getD, List.getElem?_eq_none hi]
      rfl
    have hkeptLength := hkept.countP_eq (fun _ => true) hbeyond
    have hpoppedLength := h.drains.countP_eq (fun _ => true) h.beyond
    simp only [h.accepted, List.countP_append, Finset.sum_add_distrib, List.countP_true] at hkeptLength hpoppedLength
    rw [← LiveWalRecorder.pendingDepth_eq] at hkeptLength
    have hle := h.written.length_le
    refine ⟨h.written.eq_of_length (by omega), fun _ => by omega⟩
  · rintro ⟨hwritten, hempty⟩
    have hpending := (LiveWalRecorder.pendingDepth_eq_zero_iff s.recorder).mp (hempty hended)
    have haccepted : s.accepted = taken := by
      funext i
      rw [h.accepted, hpending, List.append_nil]
    rw [haccepted, hwritten]
    exact h.drains

theorem getD_set {boxes : List (List JournalImage)} {i : Nat} (hi : i < boxes.length) (box : List JournalImage)
    (j : Nat) : (boxes.set i box).getD j [] = if j = i then box else boxes.getD j [] := by
  rw [List.getD_eq_getElem?_getD, List.getD_eq_getElem?_getD, List.getElem?_set]
  by_cases hj : j = i
  · rw [if_pos hj, if_pos hj.symm, if_pos hi, Option.getD_some]
  · rw [if_neg hj, if_neg (Ne.symm hj)]

theorem Account.record (h : Account D₀ parts taken popped s) (shardIndex : Nat) (rec : JournalImage) :
    Account D₀ parts taken popped (s.step (.record shardIndex rec)) ∧
      (Sound parts popped (s.step (.record shardIndex rec)) ↔
        Sound parts popped s ∧ s.Meets (.record shardIndex rec)) := by
  unfold step
  dsimp only
  by_cases hroom : (s.recorder.record shardIndex rec).1 = true
  · rw [if_pos hroom]
    have hmeets : s.Meets (.record shardIndex rec) ↔ s.recorder.thread ≠ .ended :=
      ⟨fun hmeets hended => hmeets hended ((record_iff s shardIndex rec).mp hroom), fun hne hended => absurd hended hne⟩
    obtain ⟨outbox, houtbox, hfull⟩ := (record_iff s shardIndex rec).mp hroom
    have hanswer : (s.recorder.record shardIndex rec).2 =
        { s.recorder with outboxes := s.recorder.outboxes.set shardIndex (outbox ++ [rec]) } := by
      unfold LiveWalRecorder.record
      rw [houtbox]
      dsimp only
      rw [if_neg hfull]
    have hlt := (List.getElem?_eq_some_iff.mp houtbox).1
    have hget : s.recorder.outboxes.getD shardIndex [] = outbox := by
      rw [List.getD_eq_getElem?_getD, houtbox, Option.getD_some]
    rw [hanswer, hmeets]
    refine ⟨⟨h.writes, h.width, ?_, ?_, h.drains, h.written⟩, ?_⟩
    · intro i
      dsimp only
      rw [getD_set hlt]
      by_cases hi : i = shardIndex
      · rw [hi, Function.update_self, if_pos rfl, h.accepted, hget, List.append_assoc]
      · rw [Function.update_of_ne hi, if_neg hi, h.accepted]
    · intro i hi
      dsimp only at hi
      rw [List.length_set] at hi
      exact h.beyond i hi
    · constructor
      · rintro ⟨hwritten, hempty⟩
        have hne : s.recorder.thread ≠ .ended := by
          intro hended
          have hnil := (LiveWalRecorder.pendingDepth_eq_zero_iff _).mp (hempty hended) shardIndex
          dsimp only at hnil
          rw [getD_set hlt, if_pos rfl] at hnil
          exact List.append_ne_nil_of_right_ne_nil outbox (List.cons_ne_nil rec []) hnil
        exact ⟨⟨hwritten, fun hended => absurd hended hne⟩, hne⟩
      · rintro ⟨⟨hwritten, -⟩, hne⟩
        exact ⟨hwritten, fun hended => absurd hended hne⟩
  · rw [if_neg hroom]
    refine ⟨⟨h.writes, h.width, h.accepted, h.beyond, h.drains, h.written⟩, ?_⟩
    have hmeets : s.Meets (.record shardIndex rec) :=
      fun _ hasRoom => hroom ((record_iff s shardIndex rec).mpr hasRoom)
    exact ⟨fun hsound => ⟨hsound, hmeets⟩, fun hboth => hboth.1⟩

/-- A record is popped, and written if the writer takes it. -/
theorem Account.pop (h : Account D₀ parts taken popped s) {last any : Bool} {ring : Nat} {rec : JournalImage}
    {rest : List JournalImage} (hthread : s.recorder.thread = .drain last ring any)
    (hring : s.recorder.outboxes[ring]? = some (rec :: rest)) (nowNs : Nat) (system : SystemAnswers) :
    ∃ parts' taken' popped', Account D₀ parts' taken' popped' (s.step (.turn nowNs system)) ∧
      (Sound parts' popped' (s.step (.turn nowNs system)) ↔
        Sound parts popped s ∧ s.recorder.writer.Takes nowNs system journalRecordSize s.disk) := by
  have hlt := (List.getElem?_eq_some_iff.mp hring).1
  have hget : s.recorder.outboxes.getD ring [] = rec :: rest := by
    rw [List.getD_eq_getElem?_getD, hring, Option.getD_some]
  have hiff := h.writes.appendRotating_iff nowNs system (c := ExecutionWalWriter.call rec)
    (by rw [show (ExecutionWalWriter.call rec).payload.length = journalRecordSize from rec.size]; decide)
    (by rw [show (ExecutionWalWriter.call rec).payload.length = journalRecordSize from rec.size]; decide)
  rw [show (ExecutionWalWriter.call rec).payload.length = journalRecordSize from rec.size] at hiff
  have haccepted : ∀ i, s.accepted i = Function.update taken ring (taken ring ++ [rec]) i ++
      (s.recorder.outboxes.set ring rest).getD i [] := by
    intro i
    rw [getD_set hlt, h.accepted]
    by_cases hi : i = ring
    · rw [hi, Function.update_self, if_pos rfl, hget, List.append_assoc]
      rfl
    · rw [Function.update_of_ne hi, if_neg hi]
  have hbeyond : ∀ i, (s.recorder.outboxes.set ring rest).length ≤ i →
      Function.update taken ring (taken ring ++ [rec]) i = [] := by
    intro i hi
    rw [List.length_set] at hi
    rw [Function.update_of_ne (by omega), h.beyond i hi]
  have hdrains := h.drains.snoc ring rec
  have hdropped : (ExecutionWalTailer.reader.log parts).flatten ≠ popped ++ [rec] := by
    intro heq
    have hle := h.written.length_le
    rw [heq, List.length_append, List.length_singleton] at hle
    omega
  unfold step LiveWalRecorder.turn
  dsimp only
  rw [hthread]
  dsimp only
  rw [hring]
  dsimp only
  unfold ExecutionWalWriter.append
  cases happend : s.recorder.writer.appendRotating nowNs system (ExecutionWalWriter.call rec) s.disk with
  | none =>
    refine ⟨parts, _, _, ⟨h.writes, h.width, haccepted, hbeyond, hdrains, h.written.trans ?_⟩, ?_⟩
    · exact List.sublist_append_left popped [rec]
    · refine ⟨fun hsound => absurd hsound.1 hdropped, ?_⟩
      rintro ⟨-, htakes⟩
      obtain ⟨w', D', hsome⟩ := hiff.mpr htakes
      rw [happend] at hsome
      cases hsome
  | some answer =>
    obtain ⟨committed, writer, disk⟩ := answer
    obtain ⟨parts', frames, hgrows, hwrites, hpayloads⟩ := h.writes.appendRotating happend
    have hlog := (hgrows.filterMap ExecutionWalTailer.reader.ofFrame).flatten
    cases committed with
    | false =>
      have hnone : frames = [] := List.map_eq_nil_iff.mp hpayloads
      subst hnone
      rw [List.filterMap_nil, List.append_nil] at hlog
      have hsame : (ExecutionWalTailer.reader.log parts').flatten =
          (ExecutionWalTailer.reader.log parts).flatten := hlog
      have hwidth' := hgrows.forall h.width fun f hf => absurd hf List.not_mem_nil
      refine ⟨parts', _, _, ⟨hwrites, hwidth', haccepted, hbeyond, hdrains, ?_⟩, ?_⟩
      · rw [hsame]
        exact h.written.trans (List.sublist_append_left popped [rec])
      · constructor
        · rintro ⟨heq, -⟩
          exact absurd (hsame.symm.trans heq) hdropped
        · rintro ⟨-, htakes⟩
          obtain ⟨w', D', hsome⟩ := hiff.mpr htakes
          rw [happend] at hsome
          cases hsome
    | true =>
      obtain ⟨f, rfl, hpayload⟩ := List.map_eq_singleton_iff.mp hpayloads
      obtain ⟨hwidth, hrecord⟩ := Tailing.ofFrame_of_payload (S := ExecutionWalTailer.stream) hpayload
      have hadded : (ExecutionWalTailer.reader.log parts').flatten =
          (ExecutionWalTailer.reader.log parts).flatten ++ [rec] := by
        rw [show [rec] = [f].filterMap ExecutionWalTailer.reader.ofFrame by
          rw [List.filterMap_cons, show ExecutionWalTailer.reader.ofFrame f = some rec from hrecord]
          rfl]
        exact hlog
      have hwidth' := hgrows.forall h.width fun f' hf' => by
        rw [List.mem_singleton.mp hf']
        exact hwidth
      refine ⟨parts', _, _, ⟨hwrites, hwidth', haccepted, hbeyond, hdrains, ?_⟩, ?_⟩
      · rw [hadded]
        exact h.written.append (List.Sublist.refl [rec])
      · unfold Sound
        rw [hadded, List.append_left_inj]
        have htakes := hiff.mp ⟨writer, disk, happend⟩
        constructor
        · rintro ⟨heq, -⟩
          exact ⟨⟨heq, fun hended => by rw [hthread] at hended; cases hended⟩, htakes⟩
        · rintro ⟨⟨heq, -⟩, -⟩
          exact ⟨heq, fun hended => WriterThread.noConfusion hended⟩

theorem Account.turn (h : Account D₀ parts taken popped s) (nowNs : Nat) (system : SystemAnswers) :
    ∃ parts' taken' popped', Account D₀ parts' taken' popped' (s.step (.turn nowNs system)) ∧
      (Sound parts' popped' (s.step (.turn nowNs system)) ↔
        Sound parts popped s ∧ s.Meets (.turn nowNs system)) := by
  -- turns that leave the writer and the rings alone
  have hmoves : ∀ thread, s.recorder.turn nowNs system s.disk = ({ s.recorder with thread := thread }, s.disk) →
      ((thread = .ended → s.recorder.pendingDepth = 0) ↔
        (s.recorder.thread = .ended → s.recorder.pendingDepth = 0) ∧ s.Meets (.turn nowNs system)) →
      ∃ parts' taken' popped', Account D₀ parts' taken' popped' (s.step (.turn nowNs system)) ∧
        (Sound parts' popped' (s.step (.turn nowNs system)) ↔
          Sound parts popped s ∧ s.Meets (.turn nowNs system)) := by
    intro thread hturn hiff
    unfold step
    dsimp only
    rw [hturn]
    refine ⟨parts, taken, popped, ⟨h.writes, h.width, h.accepted, h.beyond, h.drains, h.written⟩, ?_⟩
    unfold Sound
    rw [and_assoc, ← hiff]
    exact Iff.rfl
  cases hthread : s.recorder.thread with
  | head =>
    refine hmoves (.drain (!s.recorder.running) 0 false) ?_ ?_
    · simp only [LiveWalRecorder.turn, hthread]
    · simp [Meets, hthread]
  | ended =>
    have hstays : s.recorder.turn nowNs system s.disk = (s.recorder, s.disk) := by
      simp only [LiveWalRecorder.turn, hthread]
    exact hmoves s.recorder.thread hstays (by simp [Meets, hthread])
  | died =>
    have hstays : s.recorder.turn nowNs system s.disk = (s.recorder, s.disk) := by
      simp only [LiveWalRecorder.turn, hthread]
    exact hmoves s.recorder.thread hstays (by simp [Meets, hthread])
  | drain last ring any =>
    cases hring : s.recorder.outboxes[ring]? with
    | none =>
      cases last with
      | false =>
        refine hmoves .head ?_ ?_
        · simp [LiveWalRecorder.turn, hthread, hring]
        · simp [Meets, hthread, hring]
      | true =>
        cases any with
        | false =>
          refine hmoves .ended ?_ ?_
          · simp [LiveWalRecorder.turn, hthread, hring]
          · simp [Meets, hthread, hring]
        | true =>
          refine hmoves (.drain true 0 false) ?_ ?_
          · simp [LiveWalRecorder.turn, hthread, hring]
          · simp [Meets, hthread, hring]
    | some outbox =>
      cases outbox with
      | nil =>
        refine hmoves (.drain last (ring + 1) any) ?_ ?_
        · simp only [LiveWalRecorder.turn, hthread, hring]
        · simp [Meets, hthread, hring]
      | cons rec rest =>
        have hmeets : s.Meets (.turn nowNs system) ↔
            s.recorder.writer.Takes nowNs system journalRecordSize s.disk := by
          simp only [Meets, hthread, hring]
        rw [hmeets]
        exact h.pop hthread hring nowNs system

theorem Account.step (h : Account D₀ parts taken popped s) (a : RecordingAction) :
    ∃ parts' taken' popped', Account D₀ parts' taken' popped' (s.step a) ∧
      (Sound parts' popped' (s.step a) ↔ Sound parts popped s ∧ s.Meets a) := by
  cases a with
  | record shardIndex rec => exact ⟨parts, taken, popped, h.record shardIndex rec⟩
  | turn nowNs system => exact h.turn nowNs system
  | stop =>
    refine ⟨parts, taken, popped, ⟨h.writes, h.width, h.accepted, h.beyond, h.drains, h.written⟩, ?_⟩
    exact ⟨fun hsound => ⟨hsound, trivial⟩, fun hboth => hboth.1⟩

theorem Account.run (h : Account D₀ parts taken popped s) (as : List RecordingAction) :
    ∃ parts' taken' popped', Account D₀ parts' taken' popped' (Runs.run Recording.step s as) ∧
      (Sound parts' popped' (Runs.run Recording.step s as) ↔
        Sound parts popped s ∧ Runs.Along Recording.step Meets s as) := by
  induction as generalizing s parts taken popped with
  | nil => exact ⟨parts, taken, popped, h, fun hsound => ⟨hsound, trivial⟩, fun hboth => hboth.1⟩
  | cons a as ih =>
    obtain ⟨parts', taken', popped', hstep, hsound⟩ := h.step a
    obtain ⟨parts'', taken'', popped'', hrun, hall⟩ := ih hstep
    refine ⟨parts'', taken'', popped'', hrun, hall.trans ?_⟩
    rw [hsound, and_assoc]
    exact Iff.rfl

theorem start_account (shardCount segmentBytes nowNs : Nat) (fault : Option OpenFault) (D₀ : Directory) :
    ∃ parts, Account D₀ parts (fun _ => []) [] (start shardCount segmentBytes nowNs fault D₀) ∧
      Sound parts [] (start shardCount segmentBytes nowNs fault D₀) := by
  obtain ⟨parts, hparts, hwrites, -⟩ := WalWriter.openDirectory_writes { segmentDataBytes := segmentBytes }
    ⟨List.replicate walHeaderSize 0, List.length_replicate⟩ nowNs fault D₀
  have hempty : (ExecutionWalTailer.reader.log parts).flatten = [] ∧
      ∀ part ∈ parts, ∀ f ∈ part, f.payload.length = journalRecordSize := by
    rcases hparts with rfl | rfl
    · exact ⟨rfl, fun part hpart => absurd hpart List.not_mem_nil⟩
    · refine ⟨rfl, fun part hpart f hf => ?_⟩
      rw [List.mem_singleton.mp hpart] at hf
      exact absurd hf List.not_mem_nil
  have hboxes : ∀ i, (List.replicate shardCount ([] : List JournalImage)).getD i [] = [] := by
    intro i
    rw [List.getD_eq_getElem?_getD, List.getElem?_replicate]
    split_ifs
    · rfl
    · rfl
  refine ⟨parts, ⟨hwrites, hempty.2, fun i => (hboxes i).symm, fun _ _ => rfl, .done fun _ => rfl, ?_⟩, hempty.1, ?_⟩
  · rw [hempty.1]
  · exact fun hended => WriterThread.noConfusion hended

/-- `record` has answered `false` if and only if one of its calls found no ring with room. -/
theorem refused_run (s : Recording) (as : List RecordingAction) :
    (Runs.run Recording.step s as).refused = true ↔
      s.refused = true ∨ ¬ Runs.Along Recording.step HasRoom s as := by
  induction as generalizing s with
  | nil => simp [Runs.Along]
  | cons a as ih =>
    have hstep : (s.step a).refused = true ↔ s.refused = true ∨ ¬ s.HasRoom a := by
      cases a with
      | record shardIndex rec =>
        rw [← record_iff]
        unfold Recording.step
        dsimp only
        by_cases hroom : (s.recorder.record shardIndex rec).1 = true
        · simp [hroom]
        · simp [hroom]
      | turn nowNs system => simp [Recording.step, HasRoom]
      | stop => simp [Recording.step, HasRoom]
    rw [Runs.run_cons, ih, hstep]
    simp only [Runs.Along]
    tauto

end Steps

/-- Behind `stop`, the accepted records are kept or a call was refused exactly where every record
was popped in front of a writer that could take it and none was left behind, or a call found no
ring with room. -/
theorem recorder_keeps_iff (shardCount segmentBytes nowNs : Nat) (fault : Option OpenFault) (D₀ : Directory)
    (as : List RecordingAction)
    (hended : (Runs.run step (start shardCount segmentBytes nowNs fault D₀) as).recorder.thread = .ended) :
    ((Runs.run step (start shardCount segmentBytes nowNs fault D₀) as).Kept D₀ ∨
        (Runs.run step (start shardCount segmentBytes nowNs fault D₀) as).refused = true) ↔
      (Runs.Along step Meets (start shardCount segmentBytes nowNs fault D₀) as ∨
        ¬ Runs.Along step HasRoom (start shardCount segmentBytes nowNs fault D₀) as) := by
  obtain ⟨parts, haccount, hsound⟩ := start_account shardCount segmentBytes nowNs fault D₀
  obtain ⟨parts', taken', popped', hrun, hall⟩ := haccount.run as
  have hnever : (start shardCount segmentBytes nowNs fault D₀).refused = false := rfl
  rw [hrun.kept_iff hended, hall, refused_run, hnever]
  simp [hsound]

/-- One record, popped while the thread runs, and a stop. -/
def stoppedRun (rec : JournalImage) : List RecordingAction :=
  [.record 0 rec, .turn 0 {}, .turn 0 {}, .turn 0 {}, .turn 0 {}, .stop, .turn 0 {}, .turn 0 {}, .turn 0 {}]

def zeroRecord : JournalImage := ⟨List.replicate journalRecordSize 0, List.length_replicate⟩

theorem recorder_keeps_iff_stopped :
    ((Runs.run step (start 1 (64 * 1024 * 1024) 0 none {}) (stoppedRun zeroRecord)).Kept {} ∨
        (Runs.run step (start 1 (64 * 1024 * 1024) 0 none {}) (stoppedRun zeroRecord)).refused = true) ↔
      (Runs.Along step Meets (start 1 (64 * 1024 * 1024) 0 none {}) (stoppedRun zeroRecord) ∨
        ¬ Runs.Along step HasRoom (start 1 (64 * 1024 * 1024) 0 none {}) (stoppedRun zeroRecord)) :=
  recorder_keeps_iff 1 (64 * 1024 * 1024) 0 none {} (stoppedRun zeroRecord) rfl

/-- The directory of a run before has its first segment. -/
def usedDirectory : Directory := { files := [(⟨0, .raw⟩, [])] }

theorem recorder_loses_accepted :
    ¬ ∀ (shardCount segmentBytes nowNs : Nat) (fault : Option OpenFault) (D₀ : Directory) (as : List RecordingAction),
      (Runs.run step (start shardCount segmentBytes nowNs fault D₀) as).recorder.thread = .ended →
        (Runs.run step (start shardCount segmentBytes nowNs fault D₀) as).Kept D₀ ∨
          (Runs.run step (start shardCount segmentBytes nowNs fault D₀) as).refused = true := by
  intro h
  rcases h 1 (64 * 1024 * 1024) 0 none usedDirectory (stoppedRun zeroRecord) rfl with hkept | hrefused
  · obtain ⟨parts, haccount, -⟩ := start_account 1 (64 * 1024 * 1024) 0 none usedDirectory
    obtain ⟨parts', taken', popped', hrun, hall⟩ := haccount.run (stoppedRun zeroRecord)
    have hmeets := (hall.mp ((hrun.kept_iff rfl).mp hkept)).2
    -- the third action pops the record in front of a writer that has no segment
    have hmapped : Mapping.closed = .full := hmeets.2.2.1.1
    exact Mapping.noConfusion hmapped
  · exact Bool.noConfusion hrefused

end Recording

end MicrostructureEngine
