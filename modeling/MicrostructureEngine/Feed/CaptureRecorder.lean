import MicrostructureEngine.Core.EventHeader
import MicrostructureEngine.Feed.Tailing
import MicrostructureEngine.Persist.LiveRecorder
import MicrostructureEngine.Persist.SegmentHeaders

/-!
# The recorder of a capture

`Recorder` takes events into a ring and commits them to its writer one at a time. An event that
was popped is pending until it is committed, and a recorder that could not commit one is halted
for good. A recorder that has not halted has its segment mapped.
-/

namespace MicrostructureEngine

set_option autoImplicit false

inductive RecorderState where
  | running
  | halted
  deriving DecidableEq, Repr

inductive DrainResult where
  | empty
  | committed
  | rotated
  | halted
  deriving DecidableEq, Repr

def recorderRingCapacity : Nat := 65536

/-- `pending` is `pending_event_` while `pending_` is set. -/
structure Recorder where
  writer : WalWriter
  ring : List FixedEvent := []
  pending : Option FixedEvent := none
  state : RecorderState := .running

/-- What `drain_one` leaves behind: its result, `committed_event` and `closed_segment` where they
were written, the recorder and the directory. -/
structure Drained where
  result : DrainResult
  event : Option FixedEvent := none
  closed : Option SegmentPath := none
  recorder : Recorder
  disk : Directory

namespace Recorder

def submit (r : Recorder) (e : FixedEvent) : Bool × Recorder :=
  if r.state = .halted then (false, r)
  else if r.ring.length = recorderRingCapacity then (false, { r with state := .halted })
  else (true, { r with ring := r.ring ++ [e] })

/-- The pending event, popped from the ring unless there is one. -/
def takePending (r : Recorder) : Option (FixedEvent × Recorder) :=
  match r.pending, r.ring with
  | some e, _ => some (e, r)
  | none, e :: rest => some (e, { r with ring := rest, pending := some e })
  | none, [] => none

/-- The part of `drain_one` behind the rotation; `none` where the process dies in `append`. -/
def commitPending (r : Recorder) (e : FixedEvent) (closed : Option SegmentPath) (D : Directory) : Option Drained :=
  (r.writer.append e.call D).map fun (result, writer, D) =>
    if result ≠ .committed then
      { result := .halted, closed := closed, recorder := { r with writer := writer, state := .halted }, disk := D }
    else
      { result := if closed.isSome then .rotated else .committed
        event := some e
        closed := closed
        recorder := { r with writer := writer, pending := none }
        disk := D }

/-- `rotate` names the closed segment once it has flushed. -/
def rotatePending (r : Recorder) (e : FixedEvent) (nowNs : Nat) (system : SystemAnswers) (D : Directory) :
    Option Drained :=
  let closed := if r.writer.flush system.flushes then some r.writer.currentPath else none
  let rotated := r.writer.rotate nowNs system D
  let r := { r with writer := rotated.2.1 }
  if !rotated.1 then
    some { result := .halted, closed := closed, recorder := { r with state := .halted }, disk := rotated.2.2 }
  else r.commitPending e closed rotated.2.2

def drainOne (r : Recorder) (nowNs : Nat) (system : SystemAnswers) (D : Directory) : Option Drained :=
  if r.state = .halted then some { result := .halted, recorder := r, disk := D }
  else
    match r.takePending with
    | none => some { result := .empty, recorder := r, disk := D }
    | some (e, r) =>
      if r.writer.needsRotation nowNs fixedEventPayloadSize then r.rotatePending e nowNs system D
      else r.commitPending e none D

/-! ## What a call does -/

def held (r : Recorder) : List FixedEvent := r.pending.toList ++ r.ring

/-- A recorder over its directory: the segments are those of its writer, the first one and all but
the last one have their header, and the last one is mapped unless the recorder has halted. -/
structure Keeps (r : Recorder) (D₀ D : Directory) (first : Nat) (parts : List (List Frame)) : Prop where
  writes : r.writer.Writes D₀ D first parts
  mapped : r.state = .running → r.writer.mapping = .full
  headed : ∀ i, i + 1 < parts.length → D.Headed ⟨first + i, .raw⟩
  begun : D.Headed ⟨first, .raw⟩

section Calls
variable {r : Recorder} {D₀ D : Directory} {first : Nat} {parts : List (List Frame)}

theorem running_or_halted (r : Recorder) : r.state = .running ∨ r.state = .halted := by
  cases r.state with
  | running => exact .inl rfl
  | halted => exact .inr rfl

theorem submit_room (h : r.state = .running) (hroom : r.ring.length < recorderRingCapacity) (e : FixedEvent) :
    r.submit e = (true, { r with ring := r.ring ++ [e] }) := by
  unfold submit
  rw [if_neg (by rw [h]; exact RecorderState.noConfusion), if_neg (Nat.ne_of_lt hroom)]

theorem Keeps.submit (h : r.Keeps D₀ D first parts) (e : FixedEvent) :
    (r.submit e).2.Keeps D₀ D first parts := by
  unfold Recorder.submit
  split_ifs
  · exact h
  · exact ⟨h.writes, fun hrunning => RecorderState.noConfusion hrunning, h.headed, h.begun⟩
  · exact ⟨h.writes, h.mapped, h.headed, h.begun⟩

theorem Keeps.headed_all (h : r.Keeps D₀ D first parts) (hrunning : r.state = .running) :
    ∀ i < parts.length, D.Headed ⟨first + i, .raw⟩ := by
  intro i hi
  obtain ⟨n, hlength, hpath⟩ := h.writes.currentPath_eq (h.mapped hrunning)
  by_cases hlast : i + 1 < parts.length
  · exact h.headed i hlast
  · have heq : i = n := by omega
    rw [heq, ← hpath]
    exact h.writes.headed (h.mapped hrunning)

theorem takePending_none (h : r.takePending = none) : r.held = [] := by
  unfold takePending at h
  unfold held
  cases hpending : r.pending with
  | some e =>
    rw [hpending] at h
    cases h
  | none =>
    cases hring : r.ring with
    | cons e rest =>
      rw [hpending, hring] at h
      cases h
    | nil => rfl

theorem takePending_some {e : FixedEvent} {r' : Recorder} (h : r.takePending = some (e, r')) :
    r.held = e :: r'.ring ∧ r'.pending = some e ∧ r'.writer = r.writer ∧ r'.state = r.state := by
  unfold takePending at h
  unfold held
  cases hpending : r.pending with
  | some pending =>
    rw [hpending] at h
    cases h
    exact ⟨rfl, hpending, rfl, rfl⟩
  | none =>
    cases hring : r.ring with
    | cons e rest =>
      rw [hpending, hring] at h
      cases h
      exact ⟨rfl, rfl, rfl, rfl⟩
    | nil =>
      rw [hpending, hring] at h
      cases h

/-- What one call of `drain_one` can do, with the frames that it adds to the segments: there was
nothing to drain, the oldest event was committed, or the recorder is halted and holds what it
held. -/
inductive Drains (r : Recorder) (parts parts' : List (List Frame)) (d : Drained) : Prop
  | empty (hresult : d.result = .empty) (hevent : d.event = none) (hheld : r.held = []) (hrecorder : d.recorder = r)
      (hparts : parts' = parts)
  | committed (e : FixedEvent) (frame : Frame) (hresult : d.result = .committed ∨ d.result = .rotated)
      (hrotated : d.result = .rotated ↔ d.closed.isSome = true)
      (hevent : d.event = some e) (hheld : r.held = e :: d.recorder.held) (hstate : d.recorder.state = .running)
      (hgrows : SegmentedLog.Grows parts parts' [frame]) (hpayload : frame.payload = e.image)
  | halted (hresult : d.result = .halted) (hevent : d.event = none) (hheld : d.recorder.held = r.held)
      (hstate : d.recorder.state = .halted) (hgrows : SegmentedLog.Grows parts parts' [])

theorem Drains.opened {parts' : List (List Frame)} {d : Drained} (h : Drains r (parts ++ [[]]) parts' d)
    (hdrained : d.result ≠ .empty) : Drains r parts parts' d := by
  cases h with
  | empty hresult => exact absurd hresult hdrained
  | committed e frame hresult hrotated hevent hheld hstate hgrows hpayload =>
    exact .committed e frame hresult hrotated hevent hheld hstate (.trans (.opened parts) hgrows) hpayload
  | halted hresult hevent hheld hstate hgrows =>
    exact .halted hresult hevent hheld hstate (.trans (.opened parts) hgrows)

theorem append_mapped {w : WalWriter} (hfull : w.mapping = .full) (c : AppendCall) (D : Directory) :
    ∃ result w' D', w.append c D = some (result, w', D') ∧ w'.mapping = .full ∧ w'.currentPath = w.currentPath := by
  unfold WalWriter.append
  rw [hfull]
  dsimp only
  split_ifs
  · exact ⟨_, _, _, rfl, rfl, rfl⟩
  · exact ⟨_, _, _, rfl, hfull, rfl⟩

theorem Keeps.commitPending {r' : Recorder} (h : r'.Keeps D₀ D first parts) (hrunning : r'.state = .running)
    {e : FixedEvent} (hpending : r'.pending = some e) (hheld : r.held = e :: r'.ring) (closed : Option SegmentPath) :
    ∃ d parts', r'.commitPending e closed D = some d ∧ d.recorder.Keeps D₀ d.disk first parts' ∧
      Drains r parts parts' d ∧ d.result ≠ .empty := by
  obtain ⟨result, writer, D', happend, hmapping, hpath⟩ := append_mapped (h.mapped hrunning) e.call D
  obtain ⟨parts', frames, hgrows, hwrites, hpayloads⟩ := h.writes.append happend
  have hheaded : ∀ i, i + 1 < parts'.length → D'.Headed ⟨first + i, .raw⟩ := by
    obtain ⟨n, hlength, hcurrent⟩ := h.writes.currentPath_eq (h.mapped hrunning)
    obtain ⟨n', hlength', hcurrent'⟩ := hwrites.currentPath_eq hmapping
    have hsame : first + n' = first + n := congrArg SegmentPath.index (hcurrent'.symm.trans (hpath.trans hcurrent))
    intro i hi
    exact h.writes.append_keepsHeaders happend _ (h.headed i (by omega))
  have hbegun := h.writes.append_keepsHeaders happend _ h.begun
  unfold Recorder.commitPending
  rw [happend, Option.map_some]
  dsimp only
  by_cases hcommitted : result = .committed
  · rw [if_neg (not_not.mpr hcommitted)]
    rw [if_pos hcommitted] at hpayloads
    obtain ⟨frame, rfl, hpayload⟩ := List.map_eq_singleton_iff.mp hpayloads
    refine ⟨_, parts', rfl, ⟨hwrites, fun _ => hmapping, hheaded, hbegun⟩, ?_, ?_⟩
    · refine .committed e frame ?_ ?_ rfl hheld hrunning hgrows hpayload
      · cases closed with
        | none => exact .inl rfl
        | some path => exact .inr rfl
      · cases closed with
        | none => exact iff_of_false DrainResult.noConfusion Bool.false_ne_true
        | some path => exact iff_of_true rfl rfl
    · cases closed with
      | none => exact DrainResult.noConfusion
      | some path => exact DrainResult.noConfusion
  · rw [if_pos hcommitted]
    rw [if_neg hcommitted] at hpayloads
    rw [List.map_eq_nil_iff.mp hpayloads] at hgrows
    refine ⟨_, parts', rfl, ⟨hwrites, fun hstate => RecorderState.noConfusion hstate, hheaded, hbegun⟩, ?_,
      DrainResult.noConfusion⟩
    refine .halted rfl rfl ?_ rfl hgrows
    rw [hheld, held, hpending]
    rfl

theorem Keeps.rotatePending {r' : Recorder} (h : r'.Keeps D₀ D first parts) (hrunning : r'.state = .running)
    {e : FixedEvent} (hpending : r'.pending = some e) (hheld : r.held = e :: r'.ring) (nowNs : Nat)
    (system : SystemAnswers) :
    ∃ d parts', r'.rotatePending e nowNs system D = some d ∧ d.recorder.Keeps D₀ d.disk first parts' ∧
      Drains r parts parts' d := by
  obtain ⟨parts', hparts, hwrites, hopened⟩ := h.writes.rotate nowNs system
  have hheaded : ∀ i, i + 1 < parts'.length → (r'.writer.rotate nowNs system D).2.2.Headed ⟨first + i, .raw⟩ := by
    intro i hi
    apply r'.writer.rotate_keepsHeaders nowNs system D
    apply h.headed_all hrunning
    rcases hparts with rfl | rfl
    · exact Nat.lt_of_succ_lt hi
    · rw [List.length_append, List.length_singleton] at hi
      exact Nat.lt_of_succ_lt_succ hi
  have hbegun := r'.writer.rotate_keepsHeaders nowNs system D _ h.begun
  unfold Recorder.rotatePending
  dsimp only
  by_cases hrotated : (r'.writer.rotate nowNs system D).1 = true
  · obtain ⟨rfl, hfull⟩ := hopened hrotated
    have hkeeps : Keeps { r' with writer := (r'.writer.rotate nowNs system D).2.1 } D₀
        (r'.writer.rotate nowNs system D).2.2 first (parts ++ [[]]) := ⟨hwrites, fun _ => hfull, hheaded, hbegun⟩
    obtain ⟨d, parts', hd, hkept, hdrains, hdrained⟩ := hkeeps.commitPending hrunning hpending hheld
      (if r'.writer.flush system.flushes then some r'.writer.currentPath else none)
    rw [hrotated, if_neg (by decide)]
    exact ⟨d, parts', hd, hkept, hdrains.opened hdrained⟩
  · rw [Bool.not_eq_true] at hrotated
    rw [hrotated, if_pos (by decide)]
    refine ⟨_, parts', rfl, ⟨hwrites, fun hstate => RecorderState.noConfusion hstate, hheaded, hbegun⟩, ?_⟩
    refine .halted rfl rfl ?_ rfl ?_
    · rw [hheld, held]
      dsimp only
      rw [hpending]
      rfl
    · rcases hparts with rfl | rfl
      · exact .same _
      · exact .opened _

/-- A call never dies, and what it did stands in the segments. -/
theorem Keeps.drainOne (h : r.Keeps D₀ D first parts) (nowNs : Nat) (system : SystemAnswers) :
    ∃ d parts', r.drainOne nowNs system D = some d ∧ d.recorder.Keeps D₀ d.disk first parts' ∧
      Drains r parts parts' d := by
  unfold Recorder.drainOne
  rcases r.running_or_halted with hrunning | hhalted
  · rw [if_neg (by rw [hrunning]; exact RecorderState.noConfusion)]
    cases htake : r.takePending with
    | none => exact ⟨_, parts, rfl, h, .empty rfl rfl (takePending_none htake) rfl rfl⟩
    | some taken =>
      obtain ⟨e, r'⟩ := taken
      obtain ⟨hheld, hpending, hwriter, hstate⟩ := takePending_some htake
      have hkeeps : r'.Keeps D₀ D first parts := by
        refine ⟨?_, fun _ => ?_, h.headed, h.begun⟩
        · rw [hwriter]
          exact h.writes
        · rw [hwriter]
          exact h.mapped hrunning
      dsimp only
      split
      · exact hkeeps.rotatePending (hstate.trans hrunning) hpending hheld nowNs system
      · obtain ⟨d, parts', hd, hkept, hdrains, -⟩ :=
          hkeeps.commitPending (hstate.trans hrunning) hpending hheld none
        exact ⟨d, parts', hd, hkept, hdrains⟩
  · rw [if_pos hhalted]
    exact ⟨_, parts, rfl, h, .halted rfl rfl rfl hhalted (.same parts)⟩

end Calls

end Recorder

end MicrostructureEngine
