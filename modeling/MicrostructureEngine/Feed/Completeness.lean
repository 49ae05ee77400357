import MicrostructureEngine.Feed.Terminal

/-!
# Completeness of a replay

A replay that ends without an error has read every segment up to the place where its intact
frames end. That place is the committed boundary only if the segment has no zero bytes in
front of it and is not shorter; the order of the events and the clock are right in any case.
-/

namespace MicrostructureEngine

set_option autoImplicit false

namespace Footage

/-- Reading on delivers `es` and comes to the end of the last segment, with `rest` ahead. -/
inductive Through : Footage → List FixedEvent → List UInt8 → Prop
  | last {region : List UInt8} {previous : Option FixedEvent} (h : EndsHere region) :
      Through ⟨some region, [], previous⟩ [] region
  | next {region next : List UInt8} {later : List (Option (List UInt8))} {previous : Option FixedEvent}
      {es : List FixedEvent} {rest : List UInt8} (h : EndsHere region)
      (tail : Through ⟨some next, later, previous⟩ es rest) :
      Through ⟨some region, some next :: later, previous⟩ es rest
  | event {f : Frame} {e : FixedEvent} {region : List UInt8} {later : List (Option (List UInt8))}
      {previous : Option FixedEvent} {es : List FixedEvent} {rest : List UInt8} (hpayload : f.payload = e.image)
      (horder : ∀ p ∈ previous, EventOrder p e) (tail : Through ⟨some region, later, some e⟩ es rest) :
      Through ⟨some (f.encode ++ region), later, previous⟩ (e :: es) rest

@[simp] theorem polls_zero (s : Footage) : s.polls 0 = [] := rfl

@[simp] theorem polls_succ (s : Footage) (n : Nat) : s.polls (n + 1) = s.poll.1 :: s.poll.2.polls n := rfl

theorem poll_event {f : Frame} {e : FixedEvent} (hpayload : f.payload = e.image) {previous : Option FixedEvent}
    (horder : ∀ p ∈ previous, EventOrder p e) (region : List UInt8) (later : List (Option (List UInt8))) :
    (Footage.mk (some (f.encode ++ region)) later previous).poll = (.event e, ⟨some region, later, some e⟩) := by
  have hevent : headEvent (f.encode ++ region) = some e := headEvent_eq_some_iff.mpr ⟨f, region, rfl, hpayload⟩
  have hpoll : pollRegion previous later (f.encode ++ region) = _ := pollRegion_event later hevent
  have hfine : ¬ (previous.any fun p => eventOrderRegression p e) = true := by
    cases previous with
    | none => exact Bool.false_ne_true
    | some p =>
      rw [Option.any_some, eventOrderRegression_eq_false_iff.mpr (horder p rfl)]
      exact Bool.false_ne_true
  rw [if_neg hfine, headStatus_encode, drop_size] at hpoll
  exact hpoll

theorem poll_next {region : List UInt8} (h : EndsHere region) (next : List UInt8)
    (later : List (Option (List UInt8))) (previous : Option FixedEvent) :
    (Footage.mk (some region) (some next :: later) previous).poll = (Footage.mk (some next) later previous).poll :=
  pollRegion_next next later (headEvent_of_endsHere h) h

theorem poll_last {region : List UInt8} (h : EndsHere region) (previous : Option FixedEvent) :
    (Footage.mk (some region) [] previous).poll =
      (.endOfStream, ⟨some (region.drop (headStatus region).2), [], previous⟩) :=
  pollRegion_last (headEvent_of_endsHere h) h

theorem poll_closed {region : List UInt8} (h : EndsHere region) (later : List (Option (List UInt8)))
    (previous : Option FixedEvent) :
    (Footage.mk (some region) (none :: later) previous).poll =
      (.failed .segmentOpenFailed, ⟨none, later, previous⟩) :=
  pollRegion_closed later (headEvent_of_endsHere h) h

/-- A footage that can be read through is polled event by event up to its end. -/
theorem Through.polls {s : Footage} {es : List FixedEvent} {rest : List UInt8} (h : s.Through es rest) (m : Nat) :
    ∃ previous, s.polls (es.length + 1 + m) = es.map Polled.event ++
      (.endOfStream :: (Footage.mk (some (rest.drop (headStatus rest).2)) [] previous).polls m) := by
  induction h with
  | @last region previous h =>
    refine ⟨previous, ?_⟩
    rw [List.length_nil, Nat.zero_add, Nat.add_comm, polls_succ, poll_last h]
    rfl
  | @next region next later previous es rest h _ ih =>
    obtain ⟨previous', hpolls⟩ := ih
    refine ⟨previous', ?_⟩
    rw [Nat.add_right_comm, polls_succ] at hpolls ⊢
    rw [poll_next h]
    exact hpolls
  | @event f e region later previous es rest hpayload horder _ ih =>
    obtain ⟨previous', hpolls⟩ := ih
    refine ⟨previous', ?_⟩
    rw [List.length_cons, Nat.add_right_comm _ 1 1, Nat.add_right_comm, polls_succ, poll_event hpayload horder, hpolls]
    rfl

theorem Through.of_event (later : List (Option (List UInt8))) : ∀ {region : List UInt8}
    {previous : Option FixedEvent} {e : FixedEvent} {es : List FixedEvent} {rest : List UInt8},
    (Footage.mk (some region) later previous).poll.1 = .event e →
    (Footage.mk (some region) later previous).poll.2.Through es rest →
    (Footage.mk (some region) later previous).Through (e :: es) rest := by
  have hhere : ∀ (later : List (Option (List UInt8))) (region : List UInt8) (previous : Option FixedEvent)
      (e : FixedEvent) (es : List FixedEvent) (rest : List UInt8), ¬ EndsHere region →
      (pollRegion previous later region).1 = .event e → (pollRegion previous later region).2.Through es rest →
      (Footage.mk (some region) later previous).Through (e :: es) rest := by
    intro later region previous e es rest hends hanswer htail
    cases hevent : headEvent region with
    | none =>
      rw [pollRegion_corrupt later hevent hends] at hanswer
      cases hanswer
    | some e' =>
      rw [pollRegion_event later hevent] at hanswer htail
      split at hanswer
      · cases hanswer
      · rename_i horder
        rw [if_neg horder] at htail
        cases hanswer
        obtain ⟨f, rest', rfl, hpayload⟩ := headEvent_eq_some_iff.mp hevent
        rw [headStatus_encode, drop_size] at htail
        refine .event hpayload ?_ htail
        intro p hp
        rw [Option.mem_def.mp hp, Option.any_some] at horder
        apply eventOrderRegression_eq_false_iff.mp
        simpa using horder
  induction later with
  | nil =>
    intro region previous e es rest hanswer htail
    by_cases hends : EndsHere region
    · rw [poll_last hends] at hanswer
      cases hanswer
    · exact hhere [] region previous e es rest hends hanswer htail
  | cons next later ih =>
    intro region previous e es rest hanswer htail
    by_cases hends : EndsHere region
    · cases next with
      | none =>
        rw [poll_closed hends] at hanswer
        cases hanswer
      | some next =>
        rw [poll_next hends] at hanswer htail
        exact .next hends (ih hanswer htail)
    · exact hhere _ region previous e es rest hends hanswer htail

theorem Through.of_end (later : List (Option (List UInt8))) : ∀ {region : List UInt8}
    {previous : Option FixedEvent}, (Footage.mk (some region) later previous).poll.1 = .endOfStream →
    ∃ rest, (Footage.mk (some region) later previous).Through [] rest := by
  have hhere : ∀ (later : List (Option (List UInt8))) (region : List UInt8) (previous : Option FixedEvent),
      ¬ EndsHere region → (pollRegion previous later region).1 ≠ .endOfStream := by
    intro later region previous hends hanswer
    cases hevent : headEvent region with
    | none =>
      rw [pollRegion_corrupt later hevent hends] at hanswer
      cases hanswer
    | some e =>
      rw [pollRegion_event later hevent] at hanswer
      split at hanswer
      · cases hanswer
      · cases hanswer
  induction later with
  | nil =>
    intro region previous hanswer
    by_cases hends : EndsHere region
    · exact ⟨region, .last hends⟩
    · exact absurd hanswer (hhere [] region previous hends)
  | cons next later ih =>
    intro region previous hanswer
    by_cases hends : EndsHere region
    · cases next with
      | none =>
        rw [poll_closed hends] at hanswer
        cases hanswer
      | some next =>
        rw [poll_next hends] at hanswer
        obtain ⟨rest, htail⟩ := ih hanswer
        exact ⟨rest, .next hends htail⟩
    · exact absurd hanswer (hhere _ region previous hends)

/-- A run of polls that comes to the end without an error has read the footage through. -/
theorem through_of_polls (n : Nat) : ∀ {s : Footage}, (s.polls n).getLast? = some .endOfStream →
    (∀ p ∈ s.polls n, p.error? = none) → ∃ es rest, s.Through es rest ∧ es.length + 1 ≤ n := by
  induction n with
  | zero =>
    intro s hlast _
    cases hlast
  | succ n ih =>
    intro s hlast hclean
    rw [polls_succ] at hlast hclean
    have hfirst := hclean _ List.mem_cons_self
    have hrest : ∀ p ∈ s.poll.2.polls n, p.error? = none :=
      fun p hp => hclean p (List.mem_cons_of_mem _ hp)
    obtain ⟨ahead, later, previous⟩ := s
    cases ahead with
    | none => cases hfirst
    | some region =>
      cases hanswer : (Footage.mk (some region) later previous).poll.1 with
      | failed error =>
        rw [hanswer] at hfirst
        cases hfirst
      | endOfStream =>
        obtain ⟨rest, hthrough⟩ := Through.of_end later hanswer
        exact ⟨[], rest, hthrough, Nat.le_add_left 1 n⟩
      | event e =>
        rw [hanswer] at hlast
        have hmore : ((Footage.mk (some region) later previous).poll.2.polls n).getLast? = some .endOfStream := by
          cases hpolls : (Footage.mk (some region) later previous).poll.2.polls n with
          | nil =>
            rw [hpolls] at hlast
            cases hlast
          | cons p ps =>
            rw [hpolls, List.getLast?_cons_cons] at hlast
            exact hlast
        obtain ⟨es, rest, hthrough, hle⟩ := ih hmore hrest
        exact ⟨e :: es, rest, Through.of_event later hanswer hthrough, Nat.succ_le_succ hle⟩

/-- Delivered events are in order, behind the last one before them. -/
theorem delivered_ordered (n : Nat) : ∀ (s : Footage),
    (s.previous.toList ++ (s.polls n).filterMap Polled.event?).Pairwise EventOrder := by
  induction n with
  | zero =>
    intro s
    rw [polls_zero, List.filterMap_nil, List.append_nil]
    cases s.previous with
    | none => exact .nil
    | some p => exact List.pairwise_singleton _ p
  | succ n ih =>
    intro s
    obtain ⟨hevent, hnext⟩ := poll_eq s
    have htail := ih s.poll.2
    rw [polls_succ, List.filterMap_cons, hevent]
    rw [hnext] at htail ⊢
    cases hoffered : s.offered with
    | none =>
      have hprevious : s.pass.previous = s.previous := by
        show s.offered.or s.previous = s.previous
        rw [hoffered]
        rfl
      rw [hprevious] at htail
      exact htail
    | some e =>
      have hprevious : s.pass.previous = some e := by
        show s.offered.or s.previous = some e
        rw [hoffered]
        rfl
      rw [hprevious] at htail
      dsimp only
      cases hlast : s.previous with
      | none => exact htail
      | some p =>
        have horder : EventOrder p e := offered_order hoffered p hlast
        refine List.pairwise_cons.mpr ⟨?_, htail⟩
        intro q hq
        rcases List.mem_cons.mp hq with rfl | hq
        · exact horder
        · exact horder.trans ((List.pairwise_cons.mp htail).1 q hq)

theorem scan_of_endsHere {region : List UInt8} (h : EndsHere region) : frameCodec.scan region = ([], region) := by
  apply frameCodec.scan_of_none
  rcases headStatus_cases region with ⟨f, rest, rfl, _⟩ | ⟨hnone, _⟩
  · exact absurd h (endsHere_not_encode f rest)
  · exact hnone

/-- What was read through: of every segment the intact frames at its front. -/
theorem Through.regions {s : Footage} {es : List FixedEvent} {rest : List UInt8} (h : s.Through es rest) :
    ∃ regions : List (List UInt8), s.ahead :: s.later = regions.map some ∧
      (regions.flatMap fun region => (frameCodec.scan region).1).map Frame.payload = es.map FixedEvent.image ∧
      regions.getLast?.map (fun region => (frameCodec.scan region).2) = some rest := by
  induction h with
  | @last region previous h =>
    refine ⟨[region], rfl, ?_, ?_⟩
    · rw [List.flatMap_singleton, scan_of_endsHere h]
      rfl
    · rw [List.getLast?_singleton, Option.map_some, scan_of_endsHere h]
  | @next region next later previous es rest h _ ih =>
    obtain ⟨regions, hregions, hframes, hrest⟩ := ih
    refine ⟨region :: regions, ?_, ?_, ?_⟩
    · rw [List.map_cons, ← hregions]
    · rw [List.flatMap_cons, scan_of_endsHere h]
      exact hframes
    · cases regions with
      | nil => cases hregions
      | cons region' regions =>
        rw [List.getLast?_cons_cons]
        exact hrest
  | @event f e region later previous es rest hpayload horder _ ih =>
    obtain ⟨regions, hregions, hframes, hrest⟩ := ih
    have hscan : frameCodec.scan (f.encode ++ region) =
        (f :: (frameCodec.scan region).1, (frameCodec.scan region).2) := frameCodec.scan_encode f region
    cases regions with
    | nil => cases hregions
    | cons region' regions =>
      rw [List.map_cons, List.cons.injEq] at hregions
      obtain ⟨hhead, hlater⟩ := hregions
      cases hhead
      refine ⟨(f.encode ++ region) :: regions, ?_, ?_, ?_⟩
      · rw [List.map_cons, ← hlater]
      · rw [List.flatMap_cons] at hframes ⊢
        rw [hscan, List.cons_append, List.map_cons, List.map_cons, hpayload, hframes]
      · cases regions with
        | nil =>
          rw [List.getLast?_singleton, Option.map_some] at hrest ⊢
          rw [hscan]
          exact hrest
        | cons region' regions =>
          rw [List.getLast?_cons_cons] at hrest ⊢
          exact hrest

/-- Behind an end without bytes there is nothing but the end. -/
theorem polls_nothing (previous : Option FixedEvent) (n : Nat) :
    (Footage.mk (some []) [] previous).polls n = List.replicate n .endOfStream := by
  induction n with
  | zero => rfl
  | succ n ih =>
    rw [polls_succ, poll_last (show EndsHere [] from rfl), List.replicate_succ, ← ih]
    rfl

end Footage

/-! ## Complete replays -/

/-- The boundary that the sidecar commits, or the size of the data where no slot of it counts. -/
def SegmentFile.committedBoundary (f : SegmentFile) : Nat := (f.selected.map Prod.snd).getD f.data.length

/-- The frames cover the data of the segment up to its committed boundary. -/
def SegmentFile.Covers (f : SegmentFile) (frames : List Frame) : Prop :=
  frameCodec.concat frames <+: f.data ∧ (frameCodec.concat frames).length = f.committedBoundary

/-- The intact frames of the segment end at its committed boundary. -/
def SegmentFile.UpToBoundary (f : SegmentFile) : Prop := f.validBoundary = f.committedBoundary

theorem SegmentFile.Covers.scan_eq {f : SegmentFile} {frames : List Frame} (h : f.Covers frames) :
    f.scan = (frames, []) := by
  obtain ⟨⟨rest, hrest⟩, hlength⟩ := h
  have hdata : f.data.length = (frameCodec.concat frames).length + rest.length := by
    rw [← hrest, List.length_append]
  have hregion : f.region = frameCodec.concat frames := by
    have hboundary : f.boundary = (frameCodec.concat frames).length := by
      unfold SegmentFile.committedBoundary at hlength
      unfold SegmentFile.boundary WalReader.resolveBoundary
      cases hselected : f.selected with
      | none =>
        rw [hselected] at hlength
        exact hlength.symm
      | some s =>
        rw [hselected, Option.map_some, Option.getD_some] at hlength
        dsimp only
        omega
    unfold SegmentFile.region
    rw [hboundary, ← hrest]
    exact List.take_left' rfl
  unfold SegmentFile.scan
  rw [hregion]
  exact frameCodec.scan_of_concat frames

theorem SegmentFile.UpToBoundary.covers {f : SegmentFile} (h : f.UpToBoundary) :
    f.Covers f.scan.1 ∧ f.scan.2 = [] := by
  have hcovers : f.Covers f.scan.1 := ⟨f.concat_scan_prefix.trans (List.take_prefix _ _), h⟩
  exact ⟨hcovers, congrArg Prod.snd hcovers.scan_eq⟩

/-- The events are the frames that cover every segment up to its committed boundary. -/
def CoversCommitted (D : Directory) (es : List FixedEvent) : Prop :=
  ∃ parts : List (List Frame),
    List.Forall₂ (fun d frames => ∃ f, D.file d.path = some f ∧ f.Covers frames)
      (SegmentCatalog.segmentsOf D) parts ∧
    parts.flatten.map Frame.payload = es.map FixedEvent.image

namespace ReplayAdapter

/-- The adapter behind `n` polls. -/
def polled (D : Directory) (a : ReplayAdapter) (n : Nat) : ReplayAdapter :=
  Outputs.after (fun (a : ReplayAdapter) (_ : Unit) => (answer (a.poll D), (a.poll D).2.2)) a (List.replicate n ())

/-- Whenever the stream ends without an earlier error, the events that were delivered cover all
that is committed, in order, and the clock shows the last of their timestamps. -/
def Complete (D : Directory) : Prop :=
  ∀ n, let a := (openDirectory (some D)).2
    (a.polls D n).getLast? = some .endOfStream → (∀ p ∈ a.polls D n, p.error? = none) →
      let delivered := (a.polls D n).filterMap Polled.event?
      CoversCommitted D delivered ∧ delivered.Pairwise EventOrder ∧
        (a.polled D n).clock.nowNs = (delivered.map FixedEvent.tsLocalNs).foldl max 0

/-- The run is accepted, and nothing in it is refused before the end of its last segment. -/
def ReadsThrough (D : Directory) : Prop := Accepted D ∧ ∃ es rest, D.footage.Through es rest

theorem Shows.clock {D : Directory} (n : Nat) : ∀ {a : ReplayAdapter} {s : Footage}, a.Shows D s →
    (a.polled D n).clock.nowNs =
      (((s.polls n).filterMap Polled.event?).map FixedEvent.tsLocalNs).foldl max a.clock.nowNs := by
  induction n with
  | zero =>
    intro a s _
    rfl
  | succ n ih =>
    intro a s h
    obtain ⟨-, hnext, hclock⟩ := h.poll
    have htail := ih hnext
    rw [Footage.polls_succ, List.filterMap_cons]
    refine htail.trans ?_
    rw [hclock]
    cases s.poll.1.event? with
    | none => rfl
    | some e => rfl

theorem footageOf_eq_some {D : Directory} {d : SegmentDescriptor} {region : List UInt8}
    (h : footageOf D d = some region) : ∃ f, D.file d.path = some f ∧ f.Openable ∧ region = f.region := by
  unfold footageOf at h
  split at h
  · obtain ⟨f, hfile, hopen⟩ := Option.bind_eq_some_iff.mp h
    split at hopen
    · rename_i hopenable
      cases hopen
      exact ⟨f, hfile, hopenable, rfl⟩
    · cases hopen
  · cases h

theorem regions_of_footage {D : Directory} {segments : List SegmentDescriptor} {regions : List (List UInt8)}
    (h : segments.map (footageOf D) = regions.map some) :
    List.Forall₂ (fun d region => ∃ f, D.file d.path = some f ∧ f.Openable ∧ region = f.region) segments regions := by
  induction segments generalizing regions with
  | nil =>
    cases regions with
    | nil => exact .nil
    | cons region regions => cases h
  | cons d segments ih =>
    cases regions with
    | nil => cases h
    | cons region regions =>
      rw [List.map_cons, List.map_cons, List.cons.injEq] at h
      exact .cons (footageOf_eq_some h.1) (ih h.2)

theorem covers_of_regions {D : Directory} {segments : List SegmentDescriptor} {regions : List (List UInt8)}
    (h : List.Forall₂ (fun d region => ∃ f, D.file d.path = some f ∧ f.Openable ∧ region = f.region)
      segments regions)
    (hbounded : ∀ d ∈ segments, ∀ f, D.file d.path = some f → f.UpToBoundary) :
    List.Forall₂ (fun d frames => ∃ f, D.file d.path = some f ∧ f.Covers frames) segments
        (regions.map fun region => (frameCodec.scan region).1) ∧
      ∀ region ∈ regions, (frameCodec.scan region).2 = [] := by
  induction h with
  | nil => exact ⟨.nil, fun _ hregion => absurd hregion List.not_mem_nil⟩
  | @cons d region segments regions hfirst _ ih =>
    obtain ⟨f, hfile, -, rfl⟩ := hfirst
    obtain ⟨hparts, hends⟩ := ih fun d hd => hbounded d (List.mem_cons_of_mem _ hd)
    obtain ⟨hcovers, hend⟩ := (hbounded d List.mem_cons_self f hfile).covers
    refine ⟨.cons ⟨f, hfile, hcovers⟩ hparts, ?_⟩
    intro region hregion
    rcases List.mem_cons.mp hregion with rfl | hregion
    · exact hend
    · exact hends region hregion

theorem upToBoundary_of_covers {D : Directory} {segments : List SegmentDescriptor} {parts : List (List Frame)}
    (h : List.Forall₂ (fun d frames => ∃ f, D.file d.path = some f ∧ f.Covers frames) segments parts) :
    ∀ d ∈ segments, ∀ f, D.file d.path = some f → f.UpToBoundary := by
  induction h with
  | nil => exact fun d hd => absurd hd List.not_mem_nil
  | @cons d frames segments parts hfirst _ ih =>
    intro d' hd' f' hfile'
    rcases List.mem_cons.mp hd' with rfl | hd'
    · obtain ⟨f, hfile, hcovers⟩ := hfirst
      rw [hfile] at hfile'
      cases hfile'
      unfold SegmentFile.UpToBoundary SegmentFile.validBoundary
      rw [hcovers.scan_eq]
      exact hcovers.2
    · exact ih d' hd' f' hfile'

/-- A replay is complete exactly if it meets an error, or every segment of the run has intact
frames up to its committed boundary. -/
theorem replay_complete_iff (D : Directory) :
    Complete D ↔ (ReadsThrough D → ∀ d ∈ SegmentCatalog.segmentsOf D, ∀ f,
      D.file d.path = some f → f.UpToBoundary) := by
  obtain ⟨haccepted, hrefused⟩ := openDirectory_spec D
  constructor
  · intro hcomplete hthrough
    obtain ⟨hopen, es, rest, hthrough⟩ := hthrough
    obtain ⟨-, hshows, -⟩ := haccepted hopen
    obtain ⟨previous, hpolls⟩ := hthrough.polls 0
    have hanswers : (openDirectory (some D)).2.polls D (es.length + 1 + 0) =
        es.map Polled.event ++ [.endOfStream] := (hshows.polls _).trans hpolls
    have hlast : ((openDirectory (some D)).2.polls D (es.length + 1 + 0)).getLast? = some .endOfStream := by
      rw [hanswers, List.getLast?_concat]
    have hclean : ∀ p ∈ (openDirectory (some D)).2.polls D (es.length + 1 + 0), p.error? = none := by
      intro p hp
      rw [hanswers] at hp
      rcases List.mem_append.mp hp with hp | hp
      · obtain ⟨e, -, rfl⟩ := List.mem_map.mp hp
        rfl
      · rw [List.mem_singleton.mp hp]
        rfl
    obtain ⟨⟨parts, hparts, -⟩, -⟩ := hcomplete (es.length + 1 + 0) hlast hclean
    exact upToBoundary_of_covers hparts
  · intro hbounded n a hlast hclean
    by_cases hopen : Accepted D
    · obtain ⟨-, hshows, hzero⟩ := haccepted hopen
      have hanswers : a.polls D n = D.footage.polls n := hshows.polls n
      have hordered := Footage.delivered_ordered n D.footage
      have hclock := hshows.clock n
      rw [hzero] at hclock
      rw [hanswers] at hlast hclean ⊢
      obtain ⟨es, rest, hthrough, hle⟩ := Footage.through_of_polls n hlast hclean
      obtain ⟨m, rfl⟩ : ∃ m, n = es.length + 1 + m := ⟨n - (es.length + 1), by omega⟩
      obtain ⟨previous, hpolls⟩ := hthrough.polls m
      obtain ⟨regions, hregions, hframes, hrest⟩ := hthrough.regions
      have hmap : (SegmentCatalog.segmentsOf D).map (footageOf D) = regions.map some := by
        obtain ⟨first, later, hsegments, -, -⟩ := hopen
        rw [← hregions]
        unfold Directory.footage
        rw [hsegments]
        rfl
      obtain ⟨hparts, hends⟩ := covers_of_regions (regions_of_footage hmap) (hbounded ⟨hopen, es, rest, hthrough⟩)
      have hnothing : rest = [] := by
        obtain ⟨region, hregion, hend⟩ := Option.map_eq_some_iff.mp hrest
        rw [← hend]
        exact hends region (List.mem_of_getLast? hregion)
      have hdelivered : (D.footage.polls (es.length + 1 + m)).filterMap Polled.event? = es := by
        have hevents : (es.map Polled.event).filterMap Polled.event? = es := by
          rw [List.filterMap_map]
          exact List.filterMap_some
        have hends : (List.replicate m Polled.endOfStream).filterMap Polled.event? = [] := by
          apply List.filterMap_eq_nil_iff.mpr
          intro p hp
          rw [List.eq_of_mem_replicate hp]
          rfl
        rw [hpolls, hnothing, List.drop_nil, Footage.polls_nothing, List.filterMap_append, hevents,
          List.filterMap_cons_none rfl, hends, List.append_nil]
      refine ⟨⟨_, hparts, ?_⟩, hordered, hclock⟩
      rw [hdelivered, ← List.flatMap_def]
      exact hframes
    · have hall := polls_closed (D := D) (hrefused hopen).2 n
      have hmem := List.mem_of_getLast? hlast
      have hnot := hall _ hmem
      cases hnot

end ReplayAdapter

/-! ## A hole in front of the boundary -/

/-- Eight zero bytes in front of an event. -/
def holedData : List UInt8 := (FramePrefix.mk 0 0 0).image ++ (blankFrame.encode ++ [])

/-- All of `holedData` is committed. -/
def holedSegment : SegmentFile where
  bytes := (finalizeHeader .zeroed).image ++ holedData
  sidecar := some (makeSlot 3 148 ++ makeSlot 2 0)

theorem holedSegment_selected : holedSegment.selected = some (3, 148) := by
  have hlength : (makeSlot 3 148 ++ makeSlot 2 0).length = 2 * boundarySlotSize := by
    rw [List.length_append, length_makeSlot, length_makeSlot]
    rfl
  exact (SegmentFile.selected_of_slots hlength).trans (selectSlot_newer (by omega) (by omega) (by omega) (by omega)).1

theorem holedSegment_region : holedSegment.region = holedData := by
  have hdata : holedSegment.data = holedData := SegmentFile.data_header _ _ _
  have hlength : holedData.length = 148 := by
    have hsize : blankFrame.size = frameSize fixedEventPayloadSize := congrArg frameSize blankEvent.size
    unfold holedData
    rw [List.append_nil, List.length_append, FramePrefix.length_image, Frame.length_encode, hsize]
    rfl
  unfold SegmentFile.region
  rw [SegmentFile.boundary_of_selected holedSegment_selected, hdata, hlength]
  exact List.take_of_length_le (Nat.le_of_eq hlength)

/-- The hole is taken for the end of the data, and the event behind it is never delivered. -/
theorem replay_incomplete :
    (ReplayAdapter.openDirectory (some (.single holedSegment))).2.polls (.single holedSegment) 1 = [.endOfStream] ∧
      holedSegment.committedBoundary = 148 ∧ ¬ ReplayAdapter.Complete (.single holedSegment) := by
  have hopen : holedSegment.Openable := SegmentFile.openable_header _ _ _
  have hcommitted : holedSegment.committedBoundary = 148 := by
    unfold SegmentFile.committedBoundary
    rw [holedSegment_selected]
    rfl
  have hends : EndsHere holedData := by
    unfold EndsHere holedData
    rw [headStatus_zeroFill]
    rfl
  have hpolls : (ReplayAdapter.openDirectory (some (.single holedSegment))).2.polls (.single holedSegment) 1 =
      [.endOfStream] := by
    obtain ⟨-, hshows, -⟩ := (ReplayAdapter.openDirectory_spec (.single holedSegment)).1 (accepted_single hopen)
    rw [hshows.polls, footage_single hopen, holedSegment_region, Footage.polls_succ, Footage.poll_last hends]
    rfl
  refine ⟨hpolls, hcommitted, ?_⟩
  intro hcomplete
  obtain ⟨⟨parts, hparts, hframes⟩, -⟩ := hcomplete 1 (by rw [hpolls]; rfl) (by
    intro p hp
    rw [hpolls] at hp
    rw [List.mem_singleton.mp hp]
    rfl)
  rw [hpolls] at hframes
  rw [segmentsOf_single] at hparts
  cases hparts with
  | @cons _ frames _ parts hfirst htail =>
    cases htail
    obtain ⟨f, hfile, -, hlength⟩ := hfirst
    rw [file_single] at hfile
    cases hfile
    have hnone : frames = [] := by
      have hflat := List.map_eq_nil_iff.mp hframes
      rwa [List.flatten_cons, List.flatten_nil, List.append_nil] at hflat
    rw [hcommitted, hnone] at hlength
    cases hlength

end MicrostructureEngine
