import MicrostructureEngine.Feed.ReplayAdapter

/-!
# Errors of a replay

Neither the reader nor the adapter has a failed state: after an error the next call goes on
where the stream stands. So an error is final exactly if nothing that could be delivered
stands at one of the places that later calls come to.
-/

namespace MicrostructureEngine

set_option autoImplicit false

theorem headEvent_of_endsHere {region : List UInt8} (h : EndsHere region) : headEvent region = none := by
  rcases headStatus_cases region with ⟨f, rest, rfl, _⟩ | ⟨hnone, _⟩
  · exact absurd h (endsHere_not_encode f rest)
  · exact headEvent_of_none hnone

/-- An intact frame of 128 bytes is what a poll takes for an event. -/
theorem headEvent_eq_some_iff {region : List UInt8} {e : FixedEvent} :
    headEvent region = some e ↔ ∃ (f : Frame) (rest : List UInt8), region = f.encode ++ rest ∧ f.payload = e.image := by
  constructor
  · intro h
    rcases headStatus_cases region with ⟨f, rest, rfl, _⟩ | ⟨hnone, _⟩
    · rw [headEvent_encode] at h
      split at h
      · cases h
        exact ⟨f, rest, rfl, rfl⟩
      · cases h
    · rw [headEvent_of_none hnone] at h
      cases h
  · rintro ⟨f, rest, rfl, hpayload⟩
    have hsize : f.payload.length = fixedEventPayloadSize := hpayload ▸ e.size
    obtain ⟨image, size⟩ := e
    dsimp only at hpayload
    subst hpayload
    rw [headEvent_encode, dif_pos hsize]

namespace Footage

/-- Where the next frame is looked for: behind the segments that end here. -/
def frontOf (previous : Option FixedEvent) : List (Option (List UInt8)) → List UInt8 → Footage
  | later, region =>
    if EndsHere region then
      match later with
      | [] => ⟨some region, [], previous⟩
      | none :: later => ⟨none, later, previous⟩
      | some next :: later => frontOf previous later next
    else ⟨some region, later, previous⟩

def front (s : Footage) : Footage :=
  match s.ahead with
  | none => s
  | some region => frontOf s.previous s.later region

/-- The event at the front, if it is in order. -/
def offered (s : Footage) : Option FixedEvent :=
  (s.front.ahead.bind headEvent).filter fun e => !s.previous.any fun p => eventOrderRegression p e

/-- The footage behind one poll: the front moves by one frame, by eight bytes where a frame has
a size out of range or leads beyond the boundary, and not at all where fewer are left. -/
def pass (s : Footage) : Footage where
  ahead := s.front.ahead.map fun region => region.drop (headStatus region).2
  later := s.front.later
  previous := s.offered.or s.previous

def standsAt (s : Footage) : Nat → Footage
  | 0 => s
  | n + 1 => standsAt s.pass n

/-- At the front there is an intact frame with an event that is in order. -/
def Offers (s : Footage) : Prop :=
  ∃ (e : FixedEvent) (f : Frame) (rest : List UInt8), s.front.ahead = some (f.encode ++ rest) ∧
    f.payload = e.image ∧ ∀ p ∈ s.previous, EventOrder p e

/-- At the front there are bytes, neither preallocated space nor an event that is in order. -/
def Refuses (s : Footage) : Prop :=
  ∃ region, s.front.ahead = some region ∧ ¬ EndsHere region ∧ ¬ s.Offers

/-- The answer where the region is at the front. -/
def answerAt (previous : Option FixedEvent) (region : List UInt8) : Polled :=
  match headEvent region with
  | some e => if previous.any fun p => eventOrderRegression p e then .failed .orderRegression else .event e
  | none => if EndsHere region then .endOfStream else .failed .corruptFrame

theorem pollRegion_front (previous : Option FixedEvent) (later : List (Option (List UInt8))) :
    ∀ region, (pollRegion previous later region).1 =
        ((frontOf previous later region).ahead.map (answerAt previous)).getD (.failed .segmentOpenFailed) ∧
      (pollRegion previous later region).2 = {
        ahead := (frontOf previous later region).ahead.map fun region => region.drop (headStatus region).2
        later := (frontOf previous later region).later
        previous := (pollRegion previous later region).1.event?.or previous } := by
  have hhere : ∀ later region, ¬ EndsHere region →
      (pollRegion previous later region).1 = answerAt previous region ∧
      (pollRegion previous later region).2 = ⟨some (region.drop (headStatus region).2), later,
        (pollRegion previous later region).1.event?.or previous⟩ := by
    intro later region hends
    unfold answerAt
    cases hevent : headEvent region with
    | some e =>
      rw [pollRegion_event later hevent]
      dsimp only
      split
      · exact ⟨rfl, rfl⟩
      · exact ⟨rfl, rfl⟩
    | none =>
      rw [pollRegion_corrupt later hevent hends]
      exact ⟨(if_neg hends).symm, rfl⟩
  induction later with
  | nil =>
    intro region
    unfold frontOf
    by_cases hends : EndsHere region
    · rw [if_pos hends, pollRegion_last (headEvent_of_endsHere hends) hends]
      dsimp only
      refine ⟨?_, rfl⟩
      rw [Option.map_some, Option.getD_some]
      unfold answerAt
      rw [headEvent_of_endsHere hends]
      exact (if_pos hends).symm
    · rw [if_neg hends]
      exact hhere [] region hends
  | cons next later ih =>
    intro region
    by_cases hends : EndsHere region
    · cases next with
      | none =>
        unfold frontOf
        rw [if_pos hends, pollRegion_closed later (headEvent_of_endsHere hends) hends]
        exact ⟨rfl, rfl⟩
      | some next =>
        have hfront : frontOf previous (some next :: later) region = frontOf previous later next := by
          rw [frontOf]
          exact if_pos hends
        rw [hfront, pollRegion_next next later (headEvent_of_endsHere hends) hends]
        exact ih next
    · unfold frontOf
      rw [if_neg hends]
      exact hhere _ region hends

theorem answerAt_event? (previous : Option FixedEvent) (region : List UInt8) :
    (answerAt previous region).event? =
      (headEvent region).filter fun e => !previous.any fun p => eventOrderRegression p e := by
  unfold answerAt
  cases headEvent region with
  | none =>
    dsimp only
    split
    · rfl
    · rfl
  | some e =>
    rw [Option.filter_some]
    dsimp only
    cases previous.any fun p => eventOrderRegression p e with
    | true => rfl
    | false => rfl

/-- A poll delivers what the front offers and moves on. -/
theorem poll_eq (s : Footage) : s.poll.1.event? = s.offered ∧ s.poll.2 = s.pass := by
  obtain ⟨ahead, later, previous⟩ := s
  cases ahead with
  | none => exact ⟨rfl, rfl⟩
  | some region =>
    obtain ⟨hanswer, hnext⟩ := pollRegion_front previous later region
    have hevent : (pollRegion previous later region).1.event? = (Footage.mk (some region) later previous).offered := by
      unfold offered front
      dsimp only
      rw [hanswer]
      cases (frontOf previous later region).ahead with
      | none => rfl
      | some region' =>
        rw [Option.map_some, Option.getD_some, Option.bind_some]
        exact answerAt_event? previous region'
    refine ⟨hevent, hnext.trans ?_⟩
    rw [hevent]
    rfl

theorem offered_order {s : Footage} {e : FixedEvent} (h : s.offered = some e) :
    ∀ p ∈ s.previous, EventOrder p e := by
  intro p hp
  obtain ⟨-, hfilter⟩ := Option.filter_eq_some_iff.mp h
  rw [Option.mem_def.mp hp, Option.any_some] at hfilter
  apply eventOrderRegression_eq_false_iff.mp
  simpa using hfilter

theorem offers_iff (s : Footage) : s.Offers ↔ ∃ e, s.offered = some e := by
  unfold Offers offered
  constructor
  · rintro ⟨e, f, rest, hahead, hpayload, horder⟩
    have hevent : headEvent (f.encode ++ rest) = some e := headEvent_eq_some_iff.mpr ⟨f, rest, rfl, hpayload⟩
    refine ⟨e, ?_⟩
    rw [hahead, Option.bind_some, hevent, Option.filter_some_eq_some]
    cases hprevious : s.previous with
    | none => rfl
    | some p =>
      rw [Option.any_some, eventOrderRegression_eq_false_iff.mpr (horder p hprevious)]
      rfl
  · rintro ⟨e, he⟩
    obtain ⟨hbind, -⟩ := Option.filter_eq_some_iff.mp he
    obtain ⟨region, hahead, hevent⟩ := Option.bind_eq_some_iff.mp hbind
    obtain ⟨f, rest, rfl, hpayload⟩ := headEvent_eq_some_iff.mp hevent
    exact ⟨e, f, rest, hahead, hpayload, offered_order he⟩

end Footage

/-- An answer for a corrupt frame or an order regression. -/
def Polled.Fatal (p : Polled) : Prop := p = .failed .corruptFrame ∨ p = .failed .orderRegression

def Polled.IsEvent (p : Polled) : Prop := ∃ e, p = .event e

namespace Footage

theorem isEvent_iff (s : Footage) : s.poll.1.IsEvent ↔ s.Offers := by
  rw [offers_iff, ← (poll_eq s).1]
  constructor
  · rintro ⟨e, he⟩
    exact ⟨e, by rw [he]; rfl⟩
  · rintro ⟨e, he⟩
    refine ⟨e, ?_⟩
    cases hanswer : s.poll.1 with
    | event e' =>
      rw [hanswer] at he
      cases he
      rfl
    | endOfStream =>
      rw [hanswer] at he
      cases he
    | failed error =>
      rw [hanswer] at he
      cases he

/-- A poll fails where the front refuses, and where no segment is open. -/
theorem fatal_iff (s : Footage) : s.poll.1.Fatal ↔ s.ahead = none ∨ s.Refuses := by
  obtain ⟨ahead, later, previous⟩ := s
  cases ahead with
  | none => exact ⟨fun _ => .inl rfl, fun _ => .inl rfl⟩
  | some region =>
    have hevents := isEvent_iff ⟨some region, later, previous⟩
    have hanswer : (Footage.mk (some region) later previous).poll.1 = _ :=
      (pollRegion_front previous later region).1
    have hfront : (Footage.mk (some region) later previous).front = frontOf previous later region := rfl
    rw [hanswer] at hevents ⊢
    unfold Refuses
    rw [hfront]
    cases hahead : (frontOf previous later region).ahead with
    | none =>
      refine ⟨?_, ?_⟩
      · rintro (h | h)
        · cases h
        · cases h
      · rintro (h | ⟨region', h, -⟩)
        · cases h
        · cases h
    | some region' =>
      rw [hahead, Option.map_some, Option.getD_some] at hevents
      rw [Option.map_some, Option.getD_some]
      unfold answerAt at hevents ⊢
      constructor
      · intro hfatal
        refine .inr ⟨region', rfl, ?_, ?_⟩
        · intro hends
          rw [headEvent_of_endsHere hends] at hfatal
          dsimp only at hfatal
          rw [if_pos hends] at hfatal
          rcases hfatal with h | h
          · cases h
          · cases h
        · intro hoffers
          obtain ⟨e, he⟩ := hevents.mpr hoffers
          rw [he] at hfatal
          rcases hfatal with h | h
          · cases h
          · cases h
      · rintro (h | ⟨region'', hsome, hends, hno⟩)
        · cases h
        · cases hsome
          have hnot := hevents.not.mpr hno
          cases hevent : headEvent region' with
          | none =>
            dsimp only
            rw [if_neg hends]
            exact .inl rfl
          | some e =>
            rw [hevent] at hnot
            dsimp only at hnot ⊢
            split
            · exact .inr rfl
            · rename_i horder
              rw [if_neg horder] at hnot
              exact absurd ⟨e, rfl⟩ hnot

/-- Where nothing is open, nothing will be. -/
theorem standsAt_closed {s : Footage} (h : s.ahead = none) (n : Nat) : (s.standsAt n).ahead = none := by
  induction n generalizing s with
  | zero => exact h
  | succ n ih =>
    apply ih
    obtain ⟨ahead, later, previous⟩ := s
    dsimp only at h
    subst h
    rfl

theorem standsAt_add (s : Footage) (m n : Nat) : s.standsAt (m + n) = (s.standsAt m).standsAt n := by
  induction m generalizing s with
  | zero => rw [Nat.zero_add]; rfl
  | succ m ih => rw [Nat.succ_add]; exact ih s.pass

theorem not_offers_closed {s : Footage} (h : s.ahead = none) : ¬ s.Offers := by
  obtain ⟨ahead, later, previous⟩ := s
  dsimp only at h
  subst h
  rintro ⟨e, f, rest, hahead, -⟩
  cases hahead

/-- The answers of `n` polls. -/
def polls (s : Footage) (n : Nat) : List Polled :=
  Outputs.outputs (fun (s : Footage) (_ : Unit) => s.poll) s (List.replicate n ())

/-- Of the first `n` polls, one stands in front of an event that is in order, behind one that
the front refused. -/
def OffersAfterRefusal (s : Footage) (n : Nat) : Prop :=
  ∃ i j, i < j ∧ j < n ∧ (s.standsAt i).Refuses ∧ (s.standsAt j).Offers

theorem after_poll (s : Footage) (n : Nat) :
    Outputs.after (fun (s : Footage) (_ : Unit) => s.poll) s (List.replicate n ()) = s.standsAt n := by
  induction n generalizing s with
  | zero => rfl
  | succ n ih =>
    rw [List.replicate_succ, Outputs.after, (poll_eq s).2, ih]
    rfl

theorem stops_iff (s : Footage) (n : Nat) :
    (s.polls n).Pairwise (fun p q => p.Fatal → ¬ q.IsEvent) ↔ ¬ s.OffersAfterRefusal n := by
  have htake : ∀ i, i < n → Outputs.after (fun (s : Footage) (_ : Unit) => s.poll) s
      ((List.replicate n ()).take i) = s.standsAt i := by
    intro i hi
    rw [List.take_replicate, Nat.min_eq_left (Nat.le_of_lt hi), after_poll]
  unfold polls
  rw [Outputs.pairwise_outputs_iff]
  apply not_congr
  constructor
  · rintro ⟨i, j, _, _, hij, -, hj, hbad, hgood⟩
    have hjn : j < n := by
      have hlt := (List.getElem?_eq_some_iff.mp hj).1
      rwa [List.length_replicate] at hlt
    rw [htake i (by omega), fatal_iff] at hbad
    rw [htake j hjn, isEvent_iff] at hgood
    refine ⟨i, j, hij, hjn, ?_, hgood⟩
    rcases hbad with hclosed | hrefuses
    · have hstill := standsAt_closed hclosed (j - i)
      rw [← standsAt_add, Nat.add_sub_cancel' (Nat.le_of_lt hij)] at hstill
      exact absurd hgood (not_offers_closed hstill)
    · exact hrefuses
  · rintro ⟨i, j, hij, hjn, hbad, hgood⟩
    have hget : ∀ k, k < n → (List.replicate n ())[k]? = some () := by
      intro k hk
      rw [List.getElem?_replicate, if_pos hk]
    refine ⟨i, j, (), (), hij, hget i (by omega), hget j hjn, ?_, ?_⟩
    · rw [htake i (by omega), fatal_iff]
      exact .inr hbad
    · rw [htake j hjn, isEvent_iff]
      exact hgood

end Footage

namespace ReplayAdapter

/-- The answers of `n` polls. -/
def polls (D : Directory) (a : ReplayAdapter) (n : Nat) : List Polled :=
  Outputs.outputs (fun (a : ReplayAdapter) (_ : Unit) => (answer (a.poll D), (a.poll D).2.2)) a (List.replicate n ())

theorem Shows.polls {D : Directory} {a : ReplayAdapter} {s : Footage} (h : a.Shows D s) (n : Nat) :
    a.polls D n = s.polls n := by
  have hstep : ∀ (a : ReplayAdapter) (s : Footage) (u : Unit), a.Shows D s →
      answer (a.poll D) = s.poll.1 ∧ (a.poll D).2.2.Shows D s.poll.2 :=
    fun a s _ h => ⟨h.poll.1, h.poll.2.1⟩
  exact (Outputs.outputs_of_simulation hstep h (List.replicate n ())).1

theorem polls_closed {D : Directory} {a : ReplayAdapter} (h : a.isOpen = false) (n : Nat) :
    ∀ p ∈ a.polls D n, p = .failed .notOpen := by
  induction n generalizing a with
  | zero => exact fun p hp => absurd hp List.not_mem_nil
  | succ n ih =>
    have hpoll : a.poll D = (.error, none, { a with error := .notOpen }) := by
      unfold ReplayAdapter.poll
      rw [h]
      rfl
    intro p hp
    unfold ReplayAdapter.polls at hp
    rw [List.replicate_succ, Outputs.outputs, hpoll] at hp
    rcases List.mem_cons.mp hp with hp | hp
    · exact hp
    · exact ih (a := { a with error := .notOpen }) h p hp

/-- An error of the adapter is final exactly if no later poll comes to an event in order. -/
theorem adapter_stops_iff (D : Directory) (n : Nat) :
    ((openDirectory (some D)).2.polls D n).Pairwise (fun p q => p.Fatal → ¬ q.IsEvent) ↔
      ¬ (Accepted D ∧ D.footage.OffersAfterRefusal n) := by
  obtain ⟨haccepted, hrefused⟩ := openDirectory_spec D
  by_cases hopen : Accepted D
  · obtain ⟨-, hshows, -⟩ := haccepted hopen
    rw [hshows.polls, Footage.stops_iff]
    exact ⟨fun h hboth => h hboth.2, fun h hoffers => h ⟨hopen, hoffers⟩⟩
  · refine ⟨fun _ h => hopen h.1, fun _ => ?_⟩
    have hall := polls_closed (D := D) (hrefused hopen).2 n
    apply List.Pairwise.imp_of_mem (R := fun _ _ => True)
    · intro p q _ hq _ _ hevent
      obtain ⟨e, he⟩ := hevent
      rw [hall q hq] at he
      cases he
    · exact List.pairwise_of_forall fun _ _ => trivial

end ReplayAdapter

/-- The errors of reader and adapter are final exactly on the runs that do not come to a frame
that can be delivered behind the one that was refused. -/
theorem replay_errors_terminal_iff (f : SegmentFile) (calls : List ReadCall) (D : Directory) (n : Nat) :
    (((WalReader.openFile (some f)).2.statuses calls).Pairwise (fun s t => s.Failed → t ≠ .ok) ↔
      ¬ (f.Openable ∧ FindsAfterRefusal f.region calls)) ∧
    (((ReplayAdapter.openDirectory (some D)).2.polls D n).Pairwise (fun p q => p.Fatal → ¬ q.IsEvent) ↔
      ¬ (ReplayAdapter.Accepted D ∧ D.footage.OffersAfterRefusal n)) :=
  ⟨reader_stops_iff f calls, ReplayAdapter.adapter_stops_iff D n⟩

/-! ## A frame behind a frame that is refused -/

def blankEvent : FixedEvent := ⟨List.replicate fixedEventPayloadSize 0, List.length_replicate⟩

def blankFrame : Frame :=
  ⟨1, 0, blankEvent.image, (congrArg validPayloadLength blankEvent.size).trans rfl⟩

/-- The blank event behind eight bytes that announce a payload of no length. -/
def misledData : List UInt8 := (FramePrefix.mk 0 1 0).image ++ (blankFrame.encode ++ [])

def misledSegment : SegmentFile where
  bytes := (finalizeHeader .zeroed).image ++ misledData

theorem misledSegment_openable : misledSegment.Openable := SegmentFile.openable_header _ _ _

theorem misledSegment_region : misledSegment.region = misledData := by
  have hdata : misledSegment.data = misledData := SegmentFile.data_header _ _ _
  unfold SegmentFile.region SegmentFile.boundary
  rw [hdata]
  exact List.take_of_length_le (Nat.le_of_eq (congrArg List.length hdata).symm)

theorem headStatus_misledData : headStatus misledData = (.badLength, framePrefixSize) :=
  headStatus_badLength (by decide) (by decide) (by decide) (by decide) rfl _

theorem drop_misledData : misledData.drop framePrefixSize = blankFrame.encode ++ [] :=
  List.drop_left' (FramePrefix.length_image _)

/-- Behind a frame that it refuses, the reader delivers the next one, and the adapter its event. -/
theorem replay_errors_not_terminal :
    (WalReader.openFile (some misledSegment)).2.statuses [.next, .next] = [.badLength, .ok] ∧
      (ReplayAdapter.openDirectory (some (.single misledSegment))).2.polls (.single misledSegment) 2 =
        [.failed .corruptFrame, .event blankEvent] := by
  have hnone : headFrame misledData = none := by
    rcases headStatus_cases misledData with ⟨f, rest, -, hok⟩ | ⟨hnone, -⟩
    · rw [headStatus_misledData] at hok
      cases hok
    · exact hnone
  constructor
  · have hfirst : ReadCall.next.status misledData = .badLength := by
      rw [ReadCall.status_of_none hnone, headStatus_misledData]
    have hsecond : ReadCall.next.status (blankFrame.encode ++ []) = .ok := by
      rw [ReadCall.status_encode]
      exact if_pos (beq_iff_eq.mpr blankEvent.size)
    rw [WalReader.openFile_openable misledSegment_openable, statuses_opened, misledSegment_region]
    unfold Outputs.outputs Outputs.outputs Outputs.outputs regionStep
    rw [hfirst, headStatus_misledData, drop_misledData, hsecond]
  · obtain ⟨-, hshows, -⟩ := (ReplayAdapter.openDirectory_spec (.single misledSegment)).1
      (accepted_single misledSegment_openable)
    have hends : ¬ EndsHere misledData := by
      unfold EndsHere
      rw [headStatus_misledData]
      exact Bool.false_ne_true
    have hfirst : (Footage.mk (some misledData) [] none).poll =
        (.failed .corruptFrame, ⟨some (blankFrame.encode ++ []), [], none⟩) := by
      have hpoll : Footage.pollRegion none [] misledData = _ :=
        Footage.pollRegion_corrupt [] (headEvent_of_none hnone) hends
      rw [headStatus_misledData, drop_misledData] at hpoll
      exact hpoll
    have hevent : headEvent (blankFrame.encode ++ []) = some blankEvent :=
      headEvent_eq_some_iff.mpr ⟨blankFrame, [], rfl, rfl⟩
    have hsecond : (Footage.mk (some (blankFrame.encode ++ [])) [] none).poll.1 = .event blankEvent := by
      have hpoll : Footage.pollRegion none [] (blankFrame.encode ++ []) = _ :=
        Footage.pollRegion_event [] hevent
      rw [Option.any_none, if_neg Bool.false_ne_true] at hpoll
      exact congrArg Prod.fst hpoll
    rw [hshows.polls, footage_single misledSegment_openable, misledSegment_region]
    unfold Footage.polls
    rw [List.replicate_succ, List.replicate_one]
    unfold Outputs.outputs Outputs.outputs Outputs.outputs
    rw [hfirst, hsecond]

end MicrostructureEngine
