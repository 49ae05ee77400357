import MicrostructureEngine.Feed.CaptureRecorder
import MicrostructureEngine.Feed.Ingress

/-!
# A capture

The loop of the recorder's main function: a record that was read from the pipe goes through the
adapter, the event into the recorder, and the recorder is drained once. The loop is left at the
first record that is no event, at the first event that cannot be committed, when the terminal has
lost its connection, and when a closed segment cannot be handed to the compressor. Of the compressor
a turn only meets how many jobs it has taken and whether one has failed; its own files, `.wal.zst` and
`.tmp`, are not in the directory here.
-/

namespace MicrostructureEngine.Mt5

set_option autoImplicit false

def compressionQueueCapacity : Nat := 8

def compressionPathSize : Nat := 512

def captureSourceId : UInt16 := 1

def captureHeartbeatTimeoutNs : Nat := 3000000000

/-- What one turn of the loop meets: the record with the two clocks, what the system answers to
the writer, and what the compressor has done since the turn before. -/
structure CaptureTurn where
  arrival : Arrival
  system : SystemAnswers := {}
  flushes : Bool := true
  compressed : Nat := 0
  compressionFailed : Bool := false

inductive CaptureLoop where
  | running
  | left
  | died
  deriving DecidableEq, Repr

structure Capture where
  adapter : PipeAdapter
  recorder : Recorder
  disk : Directory
  loop : CaptureLoop := .running
  ok : Bool := true
  compressionQueue : List SegmentPath := []
  lastFlushNs : Nat
  totalEvents : Nat := 0
  symbolEvents : List Nat := List.replicate symbolCount 0

namespace Capture

/-- The part of the main function in front of the loop, in a directory without segments; `none`
where the writer cannot be opened. -/
def start (config : WalConfig) (header : WalFileHeader) (epoch : UInt64) (startNs : Nat) (fault : Option OpenFault) :
    Option Capture :=
  let opened := WalWriter.openDirectory config header startNs fault {}
  if !opened.1 then none
  else some {
    adapter := .create epoch captureSourceId captureHeartbeatTimeoutNs
    recorder := { writer := opened.2.1 }
    disk := opened.2.2
    lastFlushNs := startNs }

def fail (c : Capture) : Capture := { c with ok := false, loop := .left }

def countSymbol (symbolEvents : List Nat) (committed : FixedEvent) : List Nat :=
  if committed.header.symbolId.toNat < symbolEvents.length ∧ committed.header.type ≠ EventType.heartbeat.code then
    symbolEvents.modify committed.header.symbolId.toNat (· + 1)
  else symbolEvents

/-- The closed segment becomes a job of the compressor, unless its path is too long or the queue
is full. -/
def handOver (pathSize : SegmentPath → Nat) (c : Capture) (closed : Option SegmentPath) : Option Capture :=
  match closed with
  | none => some c
  | some path =>
    if compressionPathSize ≤ pathSize path ∨ c.compressionQueue.length = compressionQueueCapacity then none
    else some { c with compressionQueue := c.compressionQueue ++ [path] }

/-- The `flush` that is due; its answer is not `none` if it succeeds or none is due. -/
def flushDue (flushPeriodNs : Nat) (c : Capture) (t : CaptureTurn) : Option Capture :=
  if flushPeriodNs ≤ (t.arrival.monotonicNs + (2 ^ 64 - c.lastFlushNs)) % 2 ^ 64 then
    if c.recorder.writer.flush t.flushes then some { c with lastFlushNs := t.arrival.monotonicNs } else none
  else some c

def drained (flushPeriodNs : Nat) (pathSize : SegmentPath → Nat) (c : Capture) (t : CaptureTurn)
    (verdict : IngressVerdict) (d : Drained) : Capture :=
  let c := { c with recorder := d.recorder, disk := d.disk }
  if d.result = .halted then c.fail
  else
    let c := { c with
      totalEvents := c.totalEvents + 1
      symbolEvents := countSymbol c.symbolEvents (d.event.getD .zeroed) }
    match c.handOver pathSize (if d.result = .rotated then d.closed else none) with
    | none => c.fail
    | some c =>
      match c.flushDue flushPeriodNs t with
      | none => c.fail
      | some c => if verdict = .disconnected then c.fail else c

def turn (flushPeriodNs : Nat) (pathSize : SegmentPath → Nat) (c : Capture) (t : CaptureTurn) : Capture :=
  if c.loop ≠ .running then c
  else
    let c := { c with compressionQueue := c.compressionQueue.drop t.compressed }
    if !c.ok || t.compressionFailed then { c with loop := .left }
    else
      let ingress := c.adapter.step t.arrival
      let c := { c with adapter := ingress.2 }
      if ¬ ingress.1.verdict.Delivers then c.fail
      else
        let submitted := c.recorder.submit ingress.1.event
        let c := { c with recorder := submitted.2 }
        if !submitted.1 then c.fail
        else
          match submitted.2.drainOne t.arrival.monotonicNs t.system c.disk with
          | none => { c with loop := .died }
          | some d => c.drained flushPeriodNs pathSize t ingress.1.verdict d

/-- The part of the main function behind the loop, up to the final job of the compressor. -/
def finish (pathSize : SegmentPath → Nat) (c : Capture) (system : SystemAnswers) : Capture :=
  let finalized := c.recorder.writer.finalize system c.disk
  let closes := c.recorder.writer.mapping ≠ .closed ∧ c.recorder.writer.flush system.flushes = true
  { c with
    recorder := { c.recorder with writer := finalized.2.1 }
    disk := finalized.2.2
    ok := c.ok && finalized.1 && !(decide (closes ∧ compressionPathSize ≤ pathSize c.recorder.writer.currentPath)) }

end Capture

/-! ## What a turn does -/

namespace Capture

/-- A capture between two turns keeps its segments; while its loop runs nothing is held back, and
as long as nothing has failed its recorder runs. -/
structure Sound (c : Capture) (D₀ : Directory) (first : Nat) (parts : List (List Frame)) : Prop where
  keeps : c.recorder.Keeps D₀ c.disk first parts
  alive : c.loop ≠ .died
  recording : c.ok = true → c.recorder.state = .running
  idle : c.loop = .running → c.ok = true ∧ c.recorder.held = []

section Turns
variable {c : Capture} {D₀ : Directory} {first : Nat} {parts : List (List Frame)}

theorem sound_fail (h : c.recorder.Keeps D₀ c.disk first parts) : c.fail.Sound D₀ first parts where
  keeps := h
  alive := CaptureLoop.noConfusion
  recording hok := Bool.noConfusion hok
  idle hrunning := CaptureLoop.noConfusion hrunning

theorem handOver_cases (pathSize : SegmentPath → Nat) (c : Capture) (closed : Option SegmentPath) :
    c.handOver pathSize closed = none ∨
      ∃ queue, c.handOver pathSize closed = some { c with compressionQueue := queue } := by
  unfold handOver
  cases closed with
  | none => exact .inr ⟨_, rfl⟩
  | some path =>
    dsimp only
    split_ifs
    · exact .inl rfl
    · exact .inr ⟨_, rfl⟩

theorem flushDue_cases (flushPeriodNs : Nat) (c : Capture) (t : CaptureTurn) :
    c.flushDue flushPeriodNs t = none ∨
      ∃ lastFlushNs, c.flushDue flushPeriodNs t = some { c with lastFlushNs := lastFlushNs } := by
  unfold flushDue
  split_ifs
  · exact .inr ⟨_, rfl⟩
  · exact .inl rfl
  · exact .inr ⟨_, rfl⟩

structure Records (c c' : Capture) (events : List FixedEvent) : Prop where
  total : c'.totalEvents = c.totalEvents + events.length
  symbols : c'.symbolEvents = events.foldl countSymbol c.symbolEvents

variable (c) in
theorem drained_committed (flushPeriodNs : Nat) (pathSize : SegmentPath → Nat) (t : CaptureTurn)
    (verdict : IngressVerdict) {d : Drained} {e : FixedEvent} (hok : c.ok = true) (hloop : c.loop = .running)
    (hkeeps : d.recorder.Keeps D₀ d.disk first parts) (hresult : d.result ≠ .halted) (hevent : d.event = some e)
    (hstate : d.recorder.state = .running) (hheld : d.recorder.held = []) :
    (c.drained flushPeriodNs pathSize t verdict d).Sound D₀ first parts ∧
      Records c (c.drained flushPeriodNs pathSize t verdict d) [e] ∧
      (c.drained flushPeriodNs pathSize t verdict d).adapter = c.adapter := by
  unfold drained
  dsimp only
  rw [if_neg hresult, hevent, Option.getD_some]
  generalize hclosed : (if d.result = .rotated then d.closed else none) = closed
  generalize hcounted : { c with
    recorder := d.recorder
    disk := d.disk
    totalEvents := c.totalEvents + 1
    symbolEvents := countSymbol c.symbolEvents e } = counted
  have hsound : counted.Sound D₀ first parts := by
    rw [← hcounted]
    exact ⟨hkeeps, by rw [hloop]; exact CaptureLoop.noConfusion, fun _ => hstate, fun _ => ⟨hok, hheld⟩⟩
  have hrecords : Records c counted [e] := by
    rw [← hcounted]
    exact ⟨rfl, rfl⟩
  have hadapter : counted.adapter = c.adapter := by rw [← hcounted]
  rcases handOver_cases pathSize counted closed with hover | ⟨queue, hover⟩
  · rw [hover]
    exact ⟨sound_fail hsound.keeps, ⟨hrecords.total, hrecords.symbols⟩, hadapter⟩
  · rw [hover]
    dsimp only
    rcases flushDue_cases flushPeriodNs { counted with compressionQueue := queue } t with hflush | ⟨lastFlushNs, hflush⟩
    · rw [hflush]
      exact ⟨sound_fail hsound.keeps, ⟨hrecords.total, hrecords.symbols⟩, hadapter⟩
    · rw [hflush]
      dsimp only
      split
      · exact ⟨sound_fail hsound.keeps, ⟨hrecords.total, hrecords.symbols⟩, hadapter⟩
      · exact ⟨⟨hsound.keeps, hsound.alive, hsound.recording, hsound.idle⟩,
          ⟨hrecords.total, hrecords.symbols⟩, hadapter⟩

/-- A turn commits the event that the adapter delivered, or the loop is left without one. -/
theorem Sound.turn (h : c.Sound D₀ first parts) (hloop : c.loop = .running) (flushPeriodNs : Nat)
    (pathSize : SegmentPath → Nat) (t : CaptureTurn) :
    ∃ parts' events frames, (c.turn flushPeriodNs pathSize t).Sound D₀ first parts' ∧
      SegmentedLog.Grows parts parts' frames ∧ frames.map Frame.payload = events.map FixedEvent.image ∧
      Records c (c.turn flushPeriodNs pathSize t) events ∧
      ((events = [] ∧ (c.turn flushPeriodNs pathSize t).loop = .left) ∨
        ((c.adapter.step t.arrival).1.verdict.Delivers ∧ events = [(c.adapter.step t.arrival).1.event] ∧
          (c.turn flushPeriodNs pathSize t).adapter = (c.adapter.step t.arrival).2)) := by
  obtain ⟨hok, hheld⟩ := h.idle hloop
  have hrunning := h.recording hok
  have hring : c.recorder.ring = [] := (List.append_eq_nil_iff.mp hheld).2
  have hnothing : ∀ {c' : Capture}, c'.Sound D₀ first parts → Records c c' [] → c'.loop = .left →
      ∃ parts' events frames, c'.Sound D₀ first parts' ∧
        SegmentedLog.Grows parts parts' frames ∧ frames.map Frame.payload = events.map FixedEvent.image ∧
        Records c c' events ∧
        ((events = [] ∧ c'.loop = .left) ∨
          ((c.adapter.step t.arrival).1.verdict.Delivers ∧ events = [(c.adapter.step t.arrival).1.event] ∧
            c'.adapter = (c.adapter.step t.arrival).2)) :=
    fun hsound hrecords hleft => ⟨parts, [], [], hsound, .same parts, rfl, hrecords, .inl ⟨rfl, hleft⟩⟩
  unfold Capture.turn
  dsimp only
  rw [if_neg (not_not.mpr hloop)]
  by_cases hfailed : t.compressionFailed = true
  · rw [if_pos (by rw [hfailed, Bool.or_true])]
    refine hnothing ⟨h.keeps, CaptureLoop.noConfusion, fun _ => hrunning, ?_⟩ ⟨rfl, rfl⟩ rfl
    exact fun hstill => CaptureLoop.noConfusion hstill
  · rw [if_neg (by simpa [hok] using hfailed)]
    by_cases hdelivers : (c.adapter.step t.arrival).1.verdict.Delivers
    · rw [if_neg (not_not.mpr hdelivers)]
      have hroom : c.recorder.ring.length < recorderRingCapacity := by
        rw [hring]
        decide
      have hsubmit := Recorder.submit_room hrunning hroom (c.adapter.step t.arrival).1.event
      have hkeeps := h.keeps.submit (c.adapter.step t.arrival).1.event
      rw [hsubmit] at hkeeps ⊢
      dsimp only
      rw [if_neg (show ¬ (!true) = true from Bool.false_ne_true)]
      obtain ⟨d, parts', hd, hkept, hdrains⟩ := hkeeps.drainOne t.arrival.monotonicNs t.system
      have hpending : ({ c.recorder with ring := c.recorder.ring ++ [(c.adapter.step t.arrival).1.event] } :
          Recorder).held = [(c.adapter.step t.arrival).1.event] := by
        show c.recorder.pending.toList ++ (c.recorder.ring ++ _) = _
        rw [(List.append_eq_nil_iff.mp hheld).1, hring]
        rfl
      dsimp only at hd ⊢
      rw [hd]
      dsimp only
      cases hdrains with
      | empty _ _ hempty =>
        rw [hpending] at hempty
        cases hempty
      | halted hresult _ _ _ hgrows =>
        unfold drained
        dsimp only
        rw [if_pos hresult]
        exact ⟨parts', [], [], sound_fail hkept, hgrows, rfl, ⟨rfl, rfl⟩, .inl ⟨rfl, rfl⟩⟩
      | committed e frame hresult _ hevent hleft hstate hgrows hpayload =>
        rw [hpending, List.cons.injEq] at hleft
        obtain ⟨rfl, hempty⟩ := hleft
        have hnot : d.result ≠ .halted := by
          rcases hresult with hresult | hresult
          · rw [hresult]
            exact DrainResult.noConfusion
          · rw [hresult]
            exact DrainResult.noConfusion
        obtain ⟨hsound, hrecords, hadapter⟩ := drained_committed { c with
            adapter := (c.adapter.step t.arrival).2
            compressionQueue := c.compressionQueue.drop t.compressed
            recorder := { c.recorder with ring := c.recorder.ring ++ [(c.adapter.step t.arrival).1.event] } }
          flushPeriodNs pathSize t (c.adapter.step t.arrival).1.verdict hok hloop hkept hnot hevent hstate hempty.symm
        refine ⟨parts', _, [frame], hsound, hgrows, ?_, ⟨hrecords.total, hrecords.symbols⟩,
          .inr ⟨hdelivers, rfl, hadapter⟩⟩
        rw [List.map_singleton, List.map_singleton, hpayload]
    · rw [if_pos hdelivers]
      exact hnothing (sound_fail h.keeps) ⟨rfl, rfl⟩ rfl

end Turns

end Capture

end MicrostructureEngine.Mt5
