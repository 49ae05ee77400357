import MicrostructureEngine.Feed.Capture
import MicrostructureEngine.Feed.Completeness
import MicrostructureEngine.Feed.TerminalClock

/-!
# Replay of a capture

What a capture has committed stands in its segments, event behind event, with the numbers that the
adapter gave them. A replay of the directory delivers exactly these events, wherever the capture was
cut off: it meets the end of the last segment, or the one that could not be opened.
-/

namespace MicrostructureEngine

set_option autoImplicit false

/-! ## Segments that hold their frames -/

namespace Footage

end Footage

/-! ## The directory of a capture -/

namespace Directory

/-- The segments as a reader meets them: the first one and all but the last one have their header,
and if `whole` holds the last one has it too. -/
structure Readable (D : Directory) (parts : List (List Frame)) (whole : Prop) : Prop where
  shelves : Directory.Shelves {} D 0 parts
  nonempty : parts ≠ []
  begun : D.Headed ⟨0, .raw⟩
  headed : ∀ i, i + 1 < parts.length → D.Headed ⟨0 + i, .raw⟩
  whole : whole → ∀ i < parts.length, D.Headed ⟨0 + i, .raw⟩

def regionAt (D : Directory) (path : SegmentPath) : Option (List UInt8) :=
  (D.file path).bind fun f => if f.Openable then some f.region else none

section Regions
variable {D : Directory} {parts : List (List Frame)} {whole : Prop}

theorem footageOf_raw {d : SegmentDescriptor} (h : d.path.encoding = .raw) : footageOf D d = D.regionAt d.path :=
  if_pos h

theorem regionAt_of_holds {path : SegmentPath} {f : SegmentFile} {frames : List Frame}
    (hfile : D.file path = some f) (h : f.Holds frames) : D.regionAt path = some (frameCodec.concat frames) := by
  unfold regionAt
  rw [hfile, Option.bind_some, if_pos h.openable, h.region_eq]

theorem Readable.regions (h : D.Readable parts whole) :
    ∃ front closed, front ≠ [] ∧ front.flatten = parts.flatten ∧ (whole → closed = false) ∧
      (SegmentCatalog.segmentsOf D).map (footageOf D) =
        front.map (fun part => some (frameCodec.concat part)) ++ if closed then [none] else [] := by
  have hlisting : (SegmentCatalog.segmentsOf D).map (footageOf D) =
      (List.range parts.length).map fun i => D.regionAt ⟨0 + i, .raw⟩ := by
    have hpaths := h.shelves.listing_only
    have hfootage : (SegmentCatalog.segmentsOf D).map (footageOf D) =
        ((SegmentCatalog.segmentsOf D).map SegmentDescriptor.path).map D.regionAt := by
      rw [List.map_map]
      apply List.map_congr_left
      intro d hd
      have hmem := List.mem_map_of_mem (f := SegmentDescriptor.path) hd
      rw [hpaths] at hmem
      obtain ⟨i, -, hpath⟩ := List.mem_map.mp hmem
      exact footageOf_raw (by rw [← hpath])
    rw [hfootage, hpaths, List.map_map]
    rfl
  have hregion : ∀ i < parts.length, D.Headed ⟨0 + i, .raw⟩ →
      D.regionAt ⟨0 + i, .raw⟩ = some (frameCodec.concat (parts.getD i [])) := by
    intro i hi hheaded
    obtain ⟨f, hfile, hholds⟩ := h.shelves.holds hi hheaded
    exact regionAt_of_holds hfile hholds
  have hparts : ∀ qs : List (List Frame), (∀ i < qs.length, qs.getD i [] = parts.getD i []) →
      qs.length ≤ parts.length → (∀ i < qs.length, D.Headed ⟨0 + i, .raw⟩) →
      ((List.range qs.length).map fun i => D.regionAt ⟨0 + i, .raw⟩) =
        qs.map fun part => some (frameCodec.concat part) := by
    intro qs hsame hle hheaded
    apply List.ext_getElem
    · rw [List.length_map, List.length_map, List.length_range]
    · intro i hi _
      rw [List.length_map, List.length_range] at hi
      rw [List.getElem_map, List.getElem_map, List.getElem_range,
        hregion i (Nat.lt_of_lt_of_le hi hle) (hheaded i hi), ← hsame i hi, List.getD_eq_getElem?_getD,
        List.getElem?_eq_getElem hi, Option.getD_some]
  obtain ⟨front, last, rfl⟩ := List.eq_nil_or_concat' parts |>.resolve_left h.nonempty
  have hlength : (front ++ [last]).length = front.length + 1 := by rw [List.length_append, List.length_singleton]
  rw [hlisting]
  by_cases hheaded : D.Headed ⟨0 + front.length, .raw⟩
  · refine ⟨front ++ [last], false, h.nonempty, rfl, fun _ => rfl, ?_⟩
    rw [if_neg Bool.false_ne_true, List.append_nil]
    refine hparts (front ++ [last]) (fun _ _ => rfl) (Nat.le_refl _) fun i hi => ?_
    by_cases hi' : i + 1 < (front ++ [last]).length
    · exact h.headed i hi'
    · rwa [show i = front.length by omega]
  · obtain ⟨f, hfile, hholds⟩ := h.shelves.files front.length (by omega)
    have hlast : ¬ f.Openable := fun hopen => hheaded (headed_of_file hfile hopen)
    have hempty : last = [] := by
      rcases hholds with hholds | ⟨-, hnone⟩
      · exact absurd hholds.openable hlast
      · rwa [List.getD_eq_getElem?_getD, List.getElem?_append_right (Nat.le_refl _), Nat.sub_self] at hnone
    have hfront : front ≠ [] := by
      rintro rfl
      exact hheaded h.begun
    refine ⟨front, true, hfront, ?_, fun hwhole => absurd (h.whole hwhole front.length (by omega)) hheaded, ?_⟩
    · rw [hempty, List.flatten_append, List.flatten_singleton, List.append_nil]
    · have hclosed : D.regionAt ⟨0 + front.length, .raw⟩ = none := by
        unfold regionAt
        rw [hfile, Option.bind_some, if_neg hlast]
      rw [if_pos rfl, hlength, List.range_succ, List.map_append, List.map_singleton, hclosed]
      refine congrArg (· ++ [none]) (hparts front ?_ (by omega) fun i hi => h.headed i (by omega))
      intro i hi
      rw [List.getD_eq_getElem?_getD, List.getD_eq_getElem?_getD, List.getElem?_append_left hi]

theorem Readable.contiguous (h : D.Readable parts whole) :
    (SegmentCatalog.statsOf (SegmentCatalog.segmentsOf D)).contiguous = true := by
  apply (SegmentCatalog.contiguous_iff _).mpr
  have hindices : (SegmentCatalog.segmentsOf D).map SegmentDescriptor.index = List.range parts.length := by
    have hpaths := congrArg (List.map SegmentPath.index) h.shelves.listing_only
    rw [List.map_map, List.map_map] at hpaths
    refine hpaths.trans ((List.map_congr_left fun i _ => ?_).trans (List.map_id _))
    exact Nat.zero_add i
  have hchain : (List.range parts.length).IsChain fun a b => b = a + 1 := by
    rw [List.isChain_iff_getElem]
    intro i hi
    rw [List.getElem_range, List.getElem_range]
  rw [← hindices, List.isChain_map] at hchain
  exact hchain

end Regions

end Directory

namespace Mt5

/-! ## The order of what was delivered -/

namespace PipeAdapter

open Outputs

end PipeAdapter

/-! ## The run -/

namespace Capture

section Run
variable {c : Capture} {D₀ : Directory} {first : Nat} {parts : List (List Frame)}

theorem run_left (flushPeriodNs : Nat) (pathSize : SegmentPath → Nat) (h : c.loop ≠ .running)
    (turns : List CaptureTurn) : Runs.run (turn flushPeriodNs pathSize) c turns = c := by
  induction turns with
  | nil => rfl
  | cons t turns ih =>
    rw [Runs.run_cons, show c.turn flushPeriodNs pathSize t = c from if_pos h, ih]

open Outputs in
/-- Over a run the events that were committed are the front of those that the adapter delivered,
all of them as long as the loop goes on. -/
theorem Sound.run (flushPeriodNs : Nat) (pathSize : SegmentPath → Nat) (turns : List CaptureTurn) :
    ∀ {c : Capture} {parts : List (List Frame)}, c.Sound D₀ first parts →
    ∃ parts' events frames, (Runs.run (Capture.turn flushPeriodNs pathSize) c turns).Sound D₀ first parts' ∧
      SegmentedLog.Grows parts parts' frames ∧ frames.map Frame.payload = events.map FixedEvent.image ∧
      Records c (Runs.run (Capture.turn flushPeriodNs pathSize) c turns) events ∧
      events <+: PipeAdapter.delivered (outputs PipeAdapter.step c.adapter (turns.map CaptureTurn.arrival)) ∧
      ((Runs.run (Capture.turn flushPeriodNs pathSize) c turns).loop = .running → events.length = turns.length) := by
  induction turns with
  | nil => exact fun h => ⟨_, [], [], h, .same _, rfl, ⟨rfl, rfl⟩, List.prefix_rfl, fun _ => rfl⟩
  | cons t turns ih =>
    intro c parts h
    by_cases hloop : c.loop = .running
    · obtain ⟨parts', events, frames, hsound, hgrows, hpayloads, hrecords, hturn⟩ :=
        h.turn hloop flushPeriodNs pathSize t
      rw [Runs.run_cons, List.map_cons, outputs]
      rcases hturn with ⟨rfl, hleft⟩ | ⟨hdelivers, rfl, hadapter⟩
      · have hstopped : (c.turn flushPeriodNs pathSize t).loop ≠ .running := by
          rw [hleft]
          exact CaptureLoop.noConfusion
        rw [run_left flushPeriodNs pathSize hstopped]
        exact ⟨parts', [], frames, hsound, hgrows, hpayloads, hrecords, List.nil_prefix,
          fun hrunning => absurd hrunning hstopped⟩
      · obtain ⟨parts'', events, frames', hlast, hgrows', hpayloads', hrecords', hevents, hall⟩ := ih hsound
        refine ⟨parts'', (c.adapter.step t.arrival).1.event :: events, frames ++ frames', hlast,
          .trans hgrows hgrows', ?_, ⟨?_, ?_⟩, ?_, fun hrunning => ?_⟩
        · rw [List.map_append, hpayloads, hpayloads']
          rfl
        · rw [hrecords'.total, hrecords.total, List.length_singleton, List.length_cons]
          omega
        · rw [hrecords'.symbols, hrecords.symbols]
          rfl
        · rw [PipeAdapter.delivered_cons _ hdelivers]
          rw [hadapter] at hevents
          exact (List.prefix_cons_inj _).mpr hevents
        · rw [List.length_cons, List.length_cons, hall hrunning]
    · rw [run_left flushPeriodNs pathSize hloop]
      exact ⟨parts, [], [], h, .same parts, rfl, ⟨rfl, rfl⟩, List.nil_prefix, fun hrunning => absurd hrunning hloop⟩

end Run

section Disk
variable {c : Capture} {parts : List (List Frame)}

end Disk

end Capture

end Mt5

end MicrostructureEngine
