import MicrostructureEngine.Persist.ReadCalls
import MicrostructureEngine.Persist.SegmentCatalog

/-!
# Replay of a recorded run

`ReplayAdapter` opens the segments of a catalog one after the other and delivers their events.
Time is the largest timestamp that it delivered. What `poll` answers depends on the bytes ahead
only: on those of the segment that is open, those of the later ones, and the last event.
-/

namespace MicrostructureEngine

set_option autoImplicit false

structure VirtualClock where
  nowNs : Nat := 0
  deriving DecidableEq, Repr

/-- Time never runs backwards. -/
def VirtualClock.advanceTo (c : VirtualClock) (ns : Nat) : Bool × VirtualClock :=
  if ns ≤ c.nowNs then (false, c) else (true, ⟨ns⟩)

inductive PollResult where
  | event
  | idle
  | endOfStream
  | error
  deriving DecidableEq, Repr

inductive ReplayError where
  | none
  | notOpen
  | catalogScanFailed
  | catalogEmpty
  | catalogNotContiguous
  | segmentOpenFailed
  | corruptFrame
  | orderRegression
  deriving DecidableEq, Repr

structure ReplayStats where
  events : Nat := 0
  segmentsOpened : Nat := 0
  firstTsLocalNs : Nat := 0
  lastTsLocalNs : Nat := 0
  lastStatus : ReadStatus := .ok
  deriving DecidableEq, Repr

/-- `previous` is `have_previous_` with `previous_`. -/
structure ReplayAdapter where
  catalog : SegmentCatalog := {}
  reader : WalReader := {}
  clock : VirtualClock := {}
  previous : Option FixedEvent := none
  stats : ReplayStats := {}
  segment : Nat := 0
  isOpen : Bool := false
  error : ReplayError := .none

namespace ReplayAdapter

/-- `open_current_segment` for the descriptor of the current segment. -/
def openSegment (D : Directory) (a : ReplayAdapter) (descriptor : SegmentDescriptor) : Bool × ReplayAdapter :=
  let opened := WalReader.openFile (D.file descriptor.path)
  if descriptor.encoding ≠ .raw then (false, { a with reader := {}, error := .segmentOpenFailed })
  else if !opened.1 then (false, { a with reader := opened.2, error := .segmentOpenFailed })
  else (true, { a with
    reader := opened.2
    stats := { a.stats with segmentsOpened := a.stats.segmentsOpened + 1 } })

def openDirectory (directory : Option Directory) : Bool × ReplayAdapter :=
  let scanned := SegmentCatalog.scan directory
  let a : ReplayAdapter := { catalog := scanned.2 }
  match scanned.1, directory, scanned.2.segments with
  | true, some D, first :: _ =>
    if !scanned.2.stats.contiguous then (false, { a with error := .catalogNotContiguous })
    else
      let opened := openSegment D a first
      if !opened.1 then (false, opened.2)
      else (true, { opened.2 with isOpen := true, error := .none })
  | true, _, _ => (false, { a with error := .catalogEmpty })
  | false, _, _ => (false, { a with error := .catalogScanFailed })

/-- The part of `poll` behind the order check. -/
def deliver (a : ReplayAdapter) (out : FixedEvent) : ReplayAdapter :=
  { a with
    clock := if out.tsLocalNs > a.clock.nowNs then (a.clock.advanceTo out.tsLocalNs).2 else a.clock
    previous := some out
    stats := { a.stats with
      firstTsLocalNs := if a.previous.isNone then out.tsLocalNs else a.stats.firstTsLocalNs
      lastTsLocalNs := out.tsLocalNs
      events := a.stats.events + 1 } }

/-- The adapter behind `reader_.next`. -/
def behindRead (a : ReplayAdapter) : ReplayAdapter :=
  { a with reader := a.reader.next.2.2, stats := { a.stats with lastStatus := a.reader.next.1 } }

/-- The loop of `poll`; its first argument is what the catalog has behind the current segment. -/
def pollLoop (D : Directory) : List SegmentDescriptor → ReplayAdapter →
    PollResult × Option FixedEvent × ReplayAdapter
  | later, a =>
    match a.reader.next.2.1 with
    | some out =>
      if a.previous.any fun previous => eventOrderRegression previous out then
        (.error, none, { a.behindRead with error := .orderRegression })
      else (.event, some out, a.behindRead.deliver out)
    | none =>
      if isCleanStop a.reader.next.1 then
        match later with
        | [] => (.endOfStream, none, a.behindRead)
        | descriptor :: later =>
          let opened := openSegment D { a.behindRead with segment := a.segment + 1 } descriptor
          if !opened.1 then (.error, none, opened.2) else pollLoop D later opened.2
      else (.error, none, { a.behindRead with error := .corruptFrame })

def poll (D : Directory) (a : ReplayAdapter) : PollResult × Option FixedEvent × ReplayAdapter :=
  if !a.isOpen then (.error, none, { a with error := .notOpen })
  else pollLoop D (a.catalog.segments.drop (a.segment + 1)) a

end ReplayAdapter

/-! ## The bytes of a replay -/

/-- The answer of a poll, with the event or the error. -/
inductive Polled where
  | event (e : FixedEvent)
  | endOfStream
  | failed (error : ReplayError)
  deriving DecidableEq

def Polled.event? : Polled → Option FixedEvent
  | .event e => some e
  | _ => none

def Polled.error? : Polled → Option ReplayError
  | .failed error => some error
  | _ => none

/-- What a replay has ahead: the bytes of the open segment up to its boundary, unless none is
open, those of the later segments, where one that cannot be opened has none, and the last
event. -/
structure Footage where
  ahead : Option (List UInt8)
  later : List (Option (List UInt8))
  previous : Option FixedEvent

/-- The event at the head of the region: the payload of an intact frame of 128 bytes. -/
def headEvent (region : List UInt8) : Option FixedEvent :=
  (headFrame region).bind fun found =>
    if h : found.1.payload.length = fixedEventPayloadSize then some ⟨found.1.payload, h⟩ else none

/-- The region ends here: nothing is left, or preallocated space. -/
def EndsHere (region : List UInt8) : Prop := isCleanStop (headStatus region).1 = true

instance (region : List UInt8) : Decidable (EndsHere region) := inferInstanceAs (Decidable (_ = _))

namespace Footage

/-- The answer for what is ahead in one segment, from the later ones on if it ends here. -/
def pollRegion (previous : Option FixedEvent) : List (Option (List UInt8)) → List UInt8 → Polled × Footage
  | later, region =>
    let rest := region.drop (headStatus region).2
    match headEvent region with
    | some e =>
      if previous.any fun p => eventOrderRegression p e then
        (.failed .orderRegression, ⟨some rest, later, previous⟩)
      else (.event e, ⟨some rest, later, some e⟩)
    | none =>
      if EndsHere region then
        match later with
        | [] => (.endOfStream, ⟨some rest, [], previous⟩)
        | none :: later => (.failed .segmentOpenFailed, ⟨none, later, previous⟩)
        | some next :: later => pollRegion previous later next
      else (.failed .corruptFrame, ⟨some rest, later, previous⟩)

def poll (s : Footage) : Polled × Footage :=
  match s.ahead with
  | none => (.failed .corruptFrame, s)
  | some region => pollRegion s.previous s.later region

section Region
variable {previous : Option FixedEvent} {region : List UInt8} {e : FixedEvent}

theorem pollRegion_event (later : List (Option (List UInt8))) (h : headEvent region = some e) :
    pollRegion previous later region =
      if previous.any fun p => eventOrderRegression p e then
        (.failed .orderRegression, ⟨some (region.drop (headStatus region).2), later, previous⟩)
      else (.event e, ⟨some (region.drop (headStatus region).2), later, some e⟩) := by
  unfold pollRegion
  rw [h]

theorem pollRegion_corrupt (later : List (Option (List UInt8))) (h : headEvent region = none)
    (hends : ¬ EndsHere region) :
    pollRegion previous later region =
      (.failed .corruptFrame, ⟨some (region.drop (headStatus region).2), later, previous⟩) := by
  unfold pollRegion
  rw [h]
  exact if_neg hends

theorem pollRegion_last (h : headEvent region = none) (hends : EndsHere region) :
    pollRegion previous [] region = (.endOfStream, ⟨some (region.drop (headStatus region).2), [], previous⟩) := by
  unfold pollRegion
  rw [h]
  exact if_pos hends

theorem pollRegion_closed (later : List (Option (List UInt8))) (h : headEvent region = none)
    (hends : EndsHere region) :
    pollRegion previous (none :: later) region = (.failed .segmentOpenFailed, ⟨none, later, previous⟩) := by
  unfold pollRegion
  rw [h]
  exact if_pos hends

theorem pollRegion_next (next : List UInt8) (later : List (Option (List UInt8)))
    (h : headEvent region = none) (hends : EndsHere region) :
    pollRegion previous (some next :: later) region = pollRegion previous later next := by
  rw [pollRegion, h]
  exact if_pos hends

end Region

end Footage

/-! ## The adapter polls its footage -/

theorem headEvent_encode (f : Frame) (rest : List UInt8) :
    headEvent (f.encode ++ rest) =
      if h : f.payload.length = fixedEventPayloadSize then some ⟨f.payload, h⟩ else none := by
  unfold headEvent
  rw [headFrame_encode]
  rfl

theorem headEvent_of_none {region : List UInt8} (h : headFrame region = none) : headEvent region = none := by
  unfold headEvent
  rw [h]
  rfl

theorem endsHere_not_encode (f : Frame) (rest : List UInt8) : ¬ EndsHere (f.encode ++ rest) := by
  unfold EndsHere
  rw [headStatus_encode]
  exact Bool.false_ne_true

/-- `next` delivers the event at the head, and counts as a clean stop where the region ends. -/
theorem WalReader.At.next {r : WalReader} {region beyond : List UInt8} (h : r.At region beyond) :
    r.next.2.1 = headEvent region ∧ (headEvent region = none → (isCleanStop r.next.1 = true ↔ EndsHere region)) ∧
      r.next.2.2.At (region.drop (headStatus region).2) beyond := by
  have happly := h.apply .next
  have hread := h.readFrame
  refine ⟨?_, ?_, happly.2⟩
  · unfold WalReader.next
    rw [hread]
    dsimp only
    rcases headStatus_cases region with ⟨f, rest, rfl, hstatus⟩ | ⟨hnone, hne⟩
    · rw [hstatus, if_neg (not_not.mpr rfl), if_pos rfl, headEvent_encode]
      simp only [headPayload_encode]
      split
      · rfl
      · rfl
    · rw [if_pos hne, headEvent_of_none hnone]
  · intro hevent
    have hstatus : r.next.1 = ReadCall.next.status region := happly.1
    rw [hstatus]
    rcases headStatus_cases region with ⟨f, rest, rfl, _⟩ | ⟨hnone, _⟩
    · rw [headEvent_encode] at hevent
      have hsize : f.payload.length ≠ fixedEventPayloadSize := by
        intro hsize
        rw [dif_pos hsize] at hevent
        cases hevent
      have htakes : ReadCall.next.takes f.payload.length = false := by
        unfold ReadCall.takes
        simpa using hsize
      rw [ReadCall.status_encode, htakes]
      exact ⟨fun hstop => Bool.noConfusion hstop, fun hends => absurd hends (endsHere_not_encode f rest)⟩
    · rw [ReadCall.status_of_none hnone]
      exact Iff.rfl

theorem WalReader.next_closed {r : WalReader} (h : r.isOpen = false) : r.next = (.notOpen, none, r) := by
  unfold WalReader.next readFrame
  rw [h]
  rfl

/-- The bytes that a descriptor leads to. -/
def footageOf (D : Directory) (descriptor : SegmentDescriptor) : Option (List UInt8) :=
  if descriptor.encoding = .raw then
    (D.file descriptor.path).bind fun f => if f.Openable then some f.region else none
  else none

namespace ReplayAdapter

theorem openSegment_spec (D : Directory) (a : ReplayAdapter) (descriptor : SegmentDescriptor) :
    ∃ reader segmentsOpened,
      (∀ region ∈ footageOf D descriptor, (∃ beyond, reader.At region beyond) ∧
        openSegment D a descriptor = (true, { a with
          reader := reader, stats := { a.stats with segmentsOpened := segmentsOpened } })) ∧
      (footageOf D descriptor = none → reader.isOpen = false ∧
        openSegment D a descriptor = (false, { a with reader := reader, error := .segmentOpenFailed })) := by
  unfold openSegment footageOf
  by_cases hraw : descriptor.encoding = .raw
  · rw [if_pos hraw, if_neg (not_not.mpr hraw)]
    cases hfile : D.file descriptor.path with
    | none => exact ⟨{}, 0, fun region hregion => absurd hregion (Option.not_mem_none region), fun _ => ⟨rfl, rfl⟩⟩
    | some f =>
      rw [Option.bind_some]
      by_cases hopen : f.Openable
      · rw [if_pos hopen, WalReader.openFile_openable hopen]
        refine ⟨WalReader.opened f, a.stats.segmentsOpened + 1, ?_, fun h => absurd h (Option.some_ne_none _)⟩
        intro region hregion
        cases hregion
        exact ⟨⟨_, WalReader.opened_at f⟩, rfl⟩
      · rw [if_neg hopen, WalReader.openFile_not_openable hopen]
        exact ⟨{}, 0, fun region hregion => absurd hregion (Option.not_mem_none region), fun _ => ⟨rfl, rfl⟩⟩
  · rw [if_neg hraw, if_pos hraw]
    exact ⟨{}, 0, fun region hregion => absurd hregion (Option.not_mem_none region), fun _ => ⟨rfl, rfl⟩⟩

/-- What the caller sees of a poll. -/
def answer (p : PollResult × Option FixedEvent × ReplayAdapter) : Polled :=
  match p.1, p.2.1 with
  | .event, some e => .event e
  | .endOfStream, _ => .endOfStream
  | _, _ => .failed p.2.2.error

/-- The adapter has this footage ahead. -/
structure Shows (D : Directory) (a : ReplayAdapter) (s : Footage) : Prop where
  isOpen : a.isOpen = true
  ahead : ∀ region ∈ s.ahead, ∃ beyond, a.reader.At region beyond
  closed : s.ahead = none → a.reader.isOpen = false
  later : s.later = (a.catalog.segments.drop (a.segment + 1)).map (footageOf D)
  previous : s.previous = a.previous

section Poll
variable {D : Directory}

section Read
variable {a : ReplayAdapter}

theorem pollLoop_event (later : List SegmentDescriptor) {e : FixedEvent} (h : a.reader.next.2.1 = some e) :
    pollLoop D later a =
      if a.previous.any fun previous => eventOrderRegression previous e then
        (.error, none, { a.behindRead with error := .orderRegression })
      else (.event, some e, a.behindRead.deliver e) := by
  unfold pollLoop
  rw [h]

theorem pollLoop_corrupt (later : List SegmentDescriptor) (h : a.reader.next.2.1 = none)
    (hstop : ¬ isCleanStop a.reader.next.1 = true) :
    pollLoop D later a = (.error, none, { a.behindRead with error := .corruptFrame }) := by
  unfold pollLoop
  rw [h]
  exact if_neg hstop

theorem pollLoop_last (h : a.reader.next.2.1 = none) (hstop : isCleanStop a.reader.next.1 = true) :
    pollLoop D [] a = (.endOfStream, none, a.behindRead) := by
  unfold pollLoop
  rw [h]
  exact if_pos hstop

theorem pollLoop_cross (descriptor : SegmentDescriptor) (later : List SegmentDescriptor)
    (h : a.reader.next.2.1 = none) (hstop : isCleanStop a.reader.next.1 = true) :
    pollLoop D (descriptor :: later) a =
      if !(openSegment D { a.behindRead with segment := a.segment + 1 } descriptor).1 then
        (.error, none, (openSegment D { a.behindRead with segment := a.segment + 1 } descriptor).2)
      else pollLoop D later (openSegment D { a.behindRead with segment := a.segment + 1 } descriptor).2 := by
  rw [pollLoop, h]
  exact if_pos hstop

end Read

/-- A delivered event moves the clock to its timestamp, unless that is behind. -/
theorem deliver_clock (a : ReplayAdapter) (e : FixedEvent) :
    (a.deliver e).clock = ⟨max a.clock.nowNs e.tsLocalNs⟩ := by
  unfold deliver VirtualClock.advanceTo
  dsimp only
  split
  · rename_i hlater
    rw [if_neg (Nat.not_le.mpr hlater), Nat.max_eq_right (Nat.le_of_lt hlater)]
  · rename_i hlater
    rw [Nat.max_eq_left (Nat.not_lt.mp hlater)]

/-- A poll answers like `q` and leaves the adapter where `q` leaves the footage; `k` is the number
of segments that it entered. -/
def PollsLike (D : Directory) (later : List SegmentDescriptor) (a : ReplayAdapter)
    (p : PollResult × Option FixedEvent × ReplayAdapter) (q : Polled × Footage) : Prop :=
  answer p = q.1 ∧ ∃ reader stats k,
    p.2.2 = { a with
      reader := reader
      stats := stats
      segment := a.segment + k
      previous := q.2.previous
      clock := ⟨(q.1.event?.map FixedEvent.tsLocalNs).elim a.clock.nowNs (max a.clock.nowNs)⟩
      error := q.1.error?.getD a.error } ∧
    (∀ region ∈ q.2.ahead, ∃ beyond, reader.At region beyond) ∧
    (q.2.ahead = none → reader.isOpen = false) ∧ q.2.later = (later.drop k).map (footageOf D)

/-- A poll that stays in its segment. -/
theorem pollLoop_here (later : List SegmentDescriptor) {a : ReplayAdapter} {region beyond : List UInt8}
    (h : a.reader.At region beyond) (hhere : ¬ (headEvent region = none ∧ EndsHere region)) :
    PollsLike D later a (pollLoop D later a)
      (Footage.pollRegion a.previous (later.map (footageOf D)) region) := by
  obtain ⟨hevent, hends, hnext⟩ := h.next
  have hahead : ∀ region' ∈ some (region.drop (headStatus region).2),
      ∃ beyond, a.reader.next.2.2.At region' beyond := by
    intro region' hregion
    cases hregion
    exact ⟨beyond, hnext⟩
  have hopen : some (region.drop (headStatus region).2) = none → a.reader.next.2.2.isOpen = false :=
    fun h => absurd h (Option.some_ne_none _)
  cases hfound : headEvent region with
  | some e =>
    rw [hfound] at hevent
    rw [pollLoop_event later hevent, Footage.pollRegion_event _ hfound]
    split
    · exact ⟨rfl, _, _, 0, rfl, hahead, hopen, rfl⟩
    · refine ⟨rfl, a.reader.next.2.2, (a.behindRead.deliver e).stats, 0, ?_, hahead, hopen, rfl⟩
      have hclock := deliver_clock a.behindRead e
      have hsame : a.behindRead.deliver e =
          { a.behindRead.deliver e with clock := (a.behindRead.deliver e).clock } := rfl
      rw [hsame, hclock]
      rfl
  | none =>
    have hcorrupt : ¬ EndsHere region := fun hends => hhere ⟨hfound, hends⟩
    have hstop := (hends hfound).not.mpr hcorrupt
    rw [hfound] at hevent
    rw [pollLoop_corrupt later hevent hstop, Footage.pollRegion_corrupt _ hfound hcorrupt]
    exact ⟨rfl, _, _, 0, rfl, hahead, hopen, rfl⟩

theorem pollLoop_spec (later : List SegmentDescriptor) : ∀ (a : ReplayAdapter) (region beyond : List UInt8),
    a.reader.At region beyond →
      PollsLike D later a (pollLoop D later a)
        (Footage.pollRegion a.previous (later.map (footageOf D)) region) := by
  induction later with
  | nil =>
    intro a region beyond h
    by_cases hhere : headEvent region = none ∧ EndsHere region
    · obtain ⟨hfound, hends⟩ := hhere
      obtain ⟨hevent, hstop, hnext⟩ := h.next
      rw [hfound] at hevent
      rw [pollLoop_last hevent ((hstop hfound).mpr hends), List.map_nil, Footage.pollRegion_last hfound hends]
      refine ⟨rfl, a.reader.next.2.2, _, 0, rfl, ?_, fun h => absurd h (Option.some_ne_none _), rfl⟩
      intro region' hregion
      cases hregion
      exact ⟨beyond, hnext⟩
    · exact pollLoop_here [] h hhere
  | cons descriptor later ih =>
    intro a region beyond h
    by_cases hhere : headEvent region = none ∧ EndsHere region
    · obtain ⟨hfound, hends⟩ := hhere
      obtain ⟨hevent, hstop, -⟩ := h.next
      rw [hfound] at hevent
      rw [pollLoop_cross descriptor later hevent ((hstop hfound).mpr hends), List.map_cons]
      obtain ⟨reader, segmentsOpened, hopens, hcloses⟩ :=
        openSegment_spec D { a.behindRead with segment := a.segment + 1 } descriptor
      cases hfootage : footageOf D descriptor with
      | none =>
        obtain ⟨hclosed, hopened⟩ := hcloses hfootage
        rw [hopened, Footage.pollRegion_closed _ hfound hends]
        exact ⟨rfl, reader, _, 1, rfl, fun _ hregion => absurd hregion (Option.not_mem_none _),
          fun _ => hclosed, rfl⟩
      | some next =>
        obtain ⟨⟨beyond', hat⟩, hopened⟩ := hopens next hfootage
        rw [hopened, Footage.pollRegion_next next _ hfound hends]
        obtain ⟨hanswer, reader', stats, k, hadapter, hahead, hclosed, hlater⟩ := ih
          { a.behindRead with
            segment := a.segment + 1
            reader := reader
            stats := { a.behindRead.stats with segmentsOpened := segmentsOpened } } next beyond' hat
        refine ⟨hanswer, reader', stats, k + 1, ?_, hahead, hclosed, hlater⟩
        refine hadapter.trans ?_
        rw [← Nat.add_right_comm a.segment k 1]
        rfl
    · exact pollLoop_here _ h hhere

/-- The adapter polls as its footage does. -/
theorem Shows.poll {a : ReplayAdapter} {s : Footage} (h : a.Shows D s) :
    answer (a.poll D) = s.poll.1 ∧ (a.poll D).2.2.Shows D s.poll.2 ∧
      (a.poll D).2.2.clock.nowNs =
        (s.poll.1.event?.map FixedEvent.tsLocalNs).elim a.clock.nowNs (max a.clock.nowNs) := by
  obtain ⟨ahead, later, previous⟩ := s
  have hlater := h.later
  have hprevious : previous = a.previous := h.previous
  dsimp only at hlater
  subst hprevious hlater
  unfold ReplayAdapter.poll
  rw [h.isOpen]
  cases ahead with
  | none =>
    have hnext := WalReader.next_closed (h.closed rfl)
    have hread : a.reader.next.2.1 = none := congrArg (fun p => p.2.1) hnext
    have hstop : ¬ isCleanStop a.reader.next.1 = true := by
      rw [hnext]
      exact Bool.false_ne_true
    have hreader : a.reader.next.2.2 = a.reader := congrArg (fun p => p.2.2) hnext
    rw [if_neg (by simp), pollLoop_corrupt _ hread hstop]
    refine ⟨rfl, ⟨h.isOpen, fun _ hregion => absurd hregion (Option.not_mem_none _), ?_, rfl, rfl⟩, rfl⟩
    intro _
    show a.reader.next.2.2.isOpen = false
    rw [hreader]
    exact h.closed rfl
  | some region =>
    obtain ⟨beyond, hat⟩ := h.ahead region rfl
    obtain ⟨hanswer, reader, stats, k, hadapter, hahead, hclosed, hlater⟩ :=
      pollLoop_spec (a.catalog.segments.drop (a.segment + 1)) a region beyond hat
    rw [if_neg (by simp), hadapter]
    refine ⟨hanswer, ⟨h.isOpen, hahead, hclosed, ?_, rfl⟩, rfl⟩
    refine hlater.trans ?_
    rw [List.drop_drop, Nat.add_right_comm]

end Poll

/-- `open` accepts the run: it has segments, none of them is missing, and the first can be opened. -/
def Accepted (D : Directory) : Prop :=
  ∃ first later, SegmentCatalog.segmentsOf D = first :: later ∧
    (SegmentCatalog.statsOf (SegmentCatalog.segmentsOf D)).contiguous = true ∧ footageOf D first ≠ none

end ReplayAdapter

/-- What a replay of the run has ahead at first. -/
def Directory.footage (D : Directory) : Footage where
  ahead := (SegmentCatalog.segmentsOf D).head?.bind (footageOf D)
  later := (SegmentCatalog.segmentsOf D).tail.map (footageOf D)
  previous := none

namespace ReplayAdapter

theorem openDirectory_spec (D : Directory) :
    (Accepted D → (openDirectory (some D)).1 = true ∧ (openDirectory (some D)).2.Shows D D.footage ∧
      (openDirectory (some D)).2.clock.nowNs = 0) ∧
    (¬ Accepted D → (openDirectory (some D)).1 = false ∧ (openDirectory (some D)).2.isOpen = false) := by
  unfold openDirectory Accepted Directory.footage
  rw [SegmentCatalog.scan_some]
  dsimp only
  cases hsegments : SegmentCatalog.segmentsOf D with
  | nil =>
    refine ⟨?_, fun _ => ⟨rfl, rfl⟩⟩
    rintro ⟨first, later, hcons, -⟩
    cases hcons
  | cons first later =>
    dsimp only
    by_cases hcontiguous : (SegmentCatalog.statsOf (first :: later)).contiguous = true
    · rw [hcontiguous]
      obtain ⟨reader, segmentsOpened, hopens, hcloses⟩ := openSegment_spec D
        { catalog := ⟨first :: later, SegmentCatalog.statsOf (first :: later)⟩ } first
      cases hfootage : footageOf D first with
      | none =>
        obtain ⟨-, hopened⟩ := hcloses hfootage
        rw [if_neg (by simp), hopened]
        refine ⟨?_, fun _ => ⟨rfl, rfl⟩⟩
        rintro ⟨first', later', hcons, -, hopen⟩
        cases hcons
        exact absurd hfootage hopen
      | some region =>
        obtain ⟨hat, hopened⟩ := hopens region hfootage
        rw [if_neg (by simp), hopened]
        refine ⟨fun _ => ⟨rfl, ⟨rfl, ?_, ?_, rfl, rfl⟩, rfl⟩, ?_⟩
        · intro region' hregion
          rw [List.head?_cons, Option.bind_some, hfootage] at hregion
          cases hregion
          exact hat
        · intro hnone
          rw [List.head?_cons, Option.bind_some, hfootage] at hnone
          cases hnone
        · intro hno
          exact absurd ⟨first, later, rfl, rfl, by rw [hfootage]; exact Option.some_ne_none _⟩ hno
    · have hbroken : (SegmentCatalog.statsOf (first :: later)).contiguous = false := by simpa using hcontiguous
      rw [hbroken]
      refine ⟨?_, fun _ => ⟨rfl, rfl⟩⟩
      rintro ⟨first', later', -, hfalse, -⟩
      cases hfalse

end ReplayAdapter

section Single
variable {f : SegmentFile}

theorem footageOf_single (h : f.Openable) : footageOf (.single f) (.single f) = some f.region := by
  have hraw : (SegmentDescriptor.single f).encoding = .raw := rfl
  unfold footageOf
  rw [if_pos hraw, file_single, Option.bind_some, if_pos h]

theorem footage_single (h : f.Openable) : (Directory.single f).footage = ⟨some f.region, [], none⟩ := by
  unfold Directory.footage
  rw [segmentsOf_single, List.head?_cons, Option.bind_some, footageOf_single h]
  rfl

theorem accepted_single (h : f.Openable) : ReplayAdapter.Accepted (.single f) := by
  refine ⟨.single f, [], segmentsOf_single f, ?_, ?_⟩
  · rw [segmentsOf_single]
    rfl
  · rw [footageOf_single h]
    exact Option.some_ne_none _

end Single

end MicrostructureEngine
