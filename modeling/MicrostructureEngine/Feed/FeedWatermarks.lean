import MicrostructureEngine.Feed.FeedSessions
import MicrostructureEngine.Lib.Watermark

/-!
# Ticks of the feed

The watermark of a symbol follows the ticks that went into the pipes, over every outage: the ticks
that were sent are a part of the terminal's history in its order, none of them twice, and a tick
that stands between two of them was left out only where one with the same millisecond was sent.
-/

namespace MicrostructureEngine.Mt5

set_option autoImplicit false

/-- The time of a tick. -/
def MqlTick.msc (tick : MqlTick) : Nat := tick.timeMsc.toNat

/-- A history as the terminal keeps it. -/
structure Timed (history : List MqlTick) : Prop where
  ordered : Watermark.Ordered MqlTick.msc history
  range : ∀ tick ∈ history, 0 < tick.msc ∧ tick.msc < 2 ^ 63

namespace FeedBridge

/-- Nothing was sent yet, or the watermark covers what was. -/
def Watched (b : FeedBridge) (symbol : Symbol) : Prop :=
  (b.lastTickMsc symbol = 0 ∧ b.sent symbol = []) ∨
    Watermark.Covers MqlTick.msc (b.history symbol) (b.sent symbol) (b.lastTickMsc symbol).toNat

structure Tracks (b : FeedBridge) : Prop where
  sound : b.Sound
  timed : ∀ symbol, Timed (b.history symbol)
  watched : ∀ symbol, b.Watched symbol

/-- The ticks that the bridge asks for next are the pending ones. -/
theorem copyTicks_pending (history : List MqlTick) {mark : UInt64} (hmark : mark.toNat < 2 ^ 63) (count : Nat) :
    copyTicks history (mark + 1) count = (Watermark.pending MqlTick.msc mark.toNat history).take count := by
  have hsucc : (mark + 1).toNat = mark.toNat + 1 := by
    rw [UInt64.toNat_add, show UInt64.toNat 1 = 1 from rfl]
    omega
  have hne : mark + 1 ≠ 0 := by
    intro hzero
    rw [hzero] at hsucc
    exact absurd hsucc (Nat.succ_ne_zero _).symm
  unfold copyTicks Watermark.pending
  rw [if_neg hne]
  congr 1
  apply List.filter_congr
  intro tick _
  apply decide_eq_decide.mpr
  rw [UInt64.le_iff_toNat_le, hsucc]
  exact Iff.rfl

theorem Covers.mark_range {history sent : List MqlTick} {mark : Nat}
    (h : Watermark.Covers MqlTick.msc history sent mark) (htimed : Timed history) : 0 < mark ∧ mark < 2 ^ 63 := by
  obtain ⟨last, hlast, rfl⟩ := Option.map_eq_some_iff.mp h.last
  obtain ⟨old, mid, hsplit, hsent, -⟩ := h.split
  have hpassed : last ∈ Watermark.passed MqlTick.msc last.msc history := by
    rw [hsplit]
    exact List.mem_append_right _ (hsent.subset (List.mem_of_getLast? hlast))
  exact htimed.range last (List.mem_filter.mp hpassed).1

/-- A batch, or a front of it, keeps every symbol watched. -/
theorem Tracks.sends {b b' : FeedBridge} (h : b.Tracks) {symbol : Symbol} {front : List MqlTick} {count : Nat}
    (hsends : Sends symbol front b b') (hfront : front <+: copyTicks (b.history symbol)
      (if b.lastTickMsc symbol = 0 then 0 else b.lastTickMsc symbol + 1) count) : b'.Tracks := by
  refine ⟨hsends.sound, fun other => ?_, fun other => ?_⟩
  · rw [hsends.history]
    exact h.timed other
  unfold Watched
  rw [hsends.history, hsends.sent, hsends.mark]
  by_cases hsame : other = symbol
  · subst hsame
    rw [Function.update_self, Function.update_self]
    rcases List.eq_nil_or_concat front with rfl | ⟨start, last, rfl⟩
    · rw [List.append_nil]
      exact h.watched other
    rw [List.concat_eq_append, List.getLast?_append, List.getLast?_singleton]
    rw [List.concat_eq_append] at hfront
    rcases h.watched other with ⟨hzero, hnone⟩ | hcovers
    · rw [if_pos hzero] at hfront
      rw [hnone, List.nil_append]
      have hlog := (List.take_append_drop ((b.history other).length - count) (b.history other)).symm
      exact .inr (Watermark.Covers.start (h.timed other).ordered _ hlog hfront)
    · obtain ⟨hpos, hlt⟩ := Covers.mark_range hcovers (h.timed other)
      have hne : b.lastTickMsc other ≠ 0 := by
        intro hzero
        rw [hzero] at hpos
        exact absurd hpos (Nat.lt_irrefl 0)
      rw [if_neg hne, copyTicks_pending _ hlt] at hfront
      exact .inr (hcovers.advance (h.timed other).ordered (hfront.trans (List.take_prefix _ _)))
  · rw [Function.update_of_ne hsame, Function.update_of_ne hsame]
    exact h.watched other

theorem kept_tracks : Kept Tracks where
  sound _ h := h.sound
  quiet b b' h hquiet := by
    refine ⟨hquiet.sound, fun symbol => ?_, fun symbol => ?_⟩
    · rw [hquiet.history]
      exact h.timed symbol
    · unfold Watched
      rw [hquiet.history, hquiet.sent, hquiet.mark]
      exact h.watched symbol
  batch _ _ _ _ _ h hsends hfront := h.sends hsends hfront

/-- The terminal's ticks have times, and those of a symbol do not go back. -/
def Timely (b : FeedBridge) : BridgeEvent → Prop
  | .tick symbol tick => 0 < tick.msc ∧ tick.msc < 2 ^ 63 ∧ ∀ earlier ∈ b.history symbol, earlier.msc ≤ tick.msc
  | _ => True

/-- A tick comes into the history. -/
theorem Tracks.arrive {b : FeedBridge} (h : b.Tracks) (world : Surroundings) {symbol : Symbol} {tick : MqlTick}
    (htimely : b.Timely (.tick symbol tick)) : (b.step world (.tick symbol tick)).Tracks := by
  obtain ⟨hpos, hlt, horder⟩ := htimely
  have hold := h.timed symbol
  have hnew : Timed (b.history symbol ++ [tick]) := by
    refine ⟨?_, fun other hother => ?_⟩
    · refine List.pairwise_append.mpr ⟨hold.ordered, List.pairwise_singleton _ _, fun earlier hearlier later hlater => ?_⟩
      rw [List.mem_singleton.mp hlater]
      exact horder earlier hearlier
    · rcases List.mem_append.mp hother with hother | hother
      · exact hold.range other hother
      · rw [List.mem_singleton.mp hother]
        exact ⟨hpos, hlt⟩
  refine ⟨h.sound.congr rfl rfl rfl rfl rfl, fun other => ?_, fun other => ?_⟩
  · by_cases hsame : other = symbol
    · subst hsame
      rw [show (b.step world (.tick other tick)).history other = _ from Function.update_self _ _ _]
      exact hnew
    · rw [show (b.step world (.tick symbol tick)).history other = _ from Function.update_of_ne hsame _ _]
      exact h.timed other
  · unfold Watched
    by_cases hsame : other = symbol
    · subst hsame
      rw [show (b.step world (.tick other tick)).history other = _ from Function.update_self _ _ _]
      rcases h.watched other with hnone | hcovers
      · exact .inl hnone
      · exact .inr (hcovers.arrive tick hnew.ordered)
    · rw [show (b.step world (.tick symbol tick)).history other = _ from Function.update_of_ne hsame _ _]
      exact h.watched other

theorem step_tracks (world : Surroundings) {b : FeedBridge} (h : b.Tracks) {event : BridgeEvent}
    (htimely : b.Timely event) : (b.step world event).Tracks := by
  cases event with
  | tick symbol tick => exact h.arrive world htimely
  | onTick timeLocal => exact kept_tracks.step world h fun _ _ => BridgeEvent.noConfusion
  | onBookEvent symbol timeLocal => exact kept_tracks.step world h fun _ _ => BridgeEvent.noConfusion
  | onTimer timeLocal greeting => exact kept_tracks.step world h fun _ _ => BridgeEvent.noConfusion
  | onDeinit => exact kept_tracks.step world h fun _ _ => BridgeEvent.noConfusion

theorem create_tracks (expectedAccount : UInt64) (expectedMarginMode : UInt32) (reconnectSeconds : Nat)
    (serverHash symbolHash : Vector UInt8 32) :
    (create expectedAccount expectedMarginMode reconnectSeconds serverHash symbolHash).Tracks where
  sound := create_sound expectedAccount expectedMarginMode reconnectSeconds serverHash symbolHash
  timed _ := ⟨List.Pairwise.nil, fun _ htick => absurd htick List.not_mem_nil⟩
  watched _ := .inl ⟨rfl, rfl⟩

theorem run_tracks (world : Surroundings) {b : FeedBridge} (h : b.Tracks) {events : List BridgeEvent}
    (htimely : Runs.Along (step world) Timely b events) : (Runs.run (step world) b events).Tracks := by
  have hstep : ∀ (b : FeedBridge) (event : BridgeEvent), b.Tracks → b.Timely event → (b.step world event).Tracks :=
    fun _ _ h htimely => step_tracks world h htimely
  exact Runs.run_invariant hstep h htimely

/-- What a watched symbol means for its history. -/
theorem Watched.history_split {b : FeedBridge} {symbol : Symbol} (h : b.Watched symbol)
    (htimed : Timed (b.history symbol)) :
    ∃ old mid pending, b.history symbol = old ++ (mid ++ pending) ∧ (b.sent symbol).Sublist mid ∧
      (∀ tick ∈ mid, ∃ other ∈ b.sent symbol, other.timeMsc = tick.timeMsc) ∧
      (∀ tick ∈ pending, (b.lastTickMsc symbol).toNat < tick.msc) ∧
      ((b.history symbol).Pairwise (fun earlier later => earlier.msc < later.msc) → mid = b.sent symbol) := by
  rcases h with ⟨hzero, hnone⟩ | hcovers
  · refine ⟨[], [], b.history symbol, rfl, ?_, fun _ htick => absurd htick List.not_mem_nil, ?_, fun _ => hnone.symm⟩
    · rw [hnone]
    · rw [hzero]
      exact fun tick htick => (htimed.range tick htick).1
  · obtain ⟨old, mid, hsplit, hsent, hmid⟩ := hcovers.split
    have hall := Watermark.passed_pending htimed.ordered (b.lastTickMsc symbol).toNat
    refine ⟨old, mid, Watermark.pending MqlTick.msc (b.lastTickMsc symbol).toNat (b.history symbol), ?_, hsent, ?_, ?_, ?_⟩
    · rw [← List.append_assoc, ← hsplit, hall]
    · intro tick htick
      obtain ⟨other, hother, hmsc⟩ := hmid tick htick
      exact ⟨other, hother, UInt64.toNat_inj.mp hmsc⟩
    · exact fun tick htick => of_decide_eq_true (List.mem_filter.mp htick).2
    · intro hdistinct
      refine Watermark.eq_of_distinct hsent hmid (hdistinct.sublist ?_)
      have hmidPassed : mid.Sublist (Watermark.passed MqlTick.msc (b.lastTickMsc symbol).toNat (b.history symbol)) := by
        rw [hsplit]
        exact List.sublist_append_right old mid
      exact hmidPassed.trans List.filter_sublist

/-- What a recorder reads from the pipe of a session, cut somewhere, behind the acknowledgement. -/
def readSession (s : Session) (cut : Nat) (pace : Nat → Nat) : List WireRecord :=
  recordsRead ((⟨s.bytes.take cut, pace, 0⟩ : PipeStream).readExact helloAckLayout.width).2

/-- The ticks of a symbol that the recorders read, the first session first; a session without a cut
was never read. -/
def recorded (b : FeedBridge) (cuts : List (Nat × (Nat → Nat))) (symbol : Symbol) : List MqlTick :=
  ((b.sessions.reverse.zipWith (fun s cut => readSession s cut.1 cut.2) cuts).flatten).filterMap
    (WireRecord.tickOf symbol)

theorem readSession_front (s : Session) (cut : Nat) (pace : Nat → Nat) : readSession s cut pace <+: s.records := by
  unfold readSession Session.records
  rw [recordsRead_eq, PacedStream.readExact_items]
  dsimp only
  rw [List.drop_take]
  exact (wireCodec.scan_take_prefix _ _).map Subtype.val

theorem recorded_sublist (b : FeedBridge) (cuts : List (Nat × (Nat → Nat))) (symbol : Symbol) :
    (b.recorded cuts symbol).Sublist (b.sent symbol) := by
  unfold recorded sent
  apply List.Sublist.filterMap
  generalize b.sessions.reverse = sessions
  induction sessions generalizing cuts with
  | nil => exact List.nil_sublist _
  | cons s sessions ih =>
    cases cuts with
    | nil => exact List.nil_sublist _
    | cons cut cuts =>
      rw [List.zipWith_cons_cons, List.flatten_cons, List.flatMap_cons]
      exact (readSession_front s cut.1 cut.2).sublist.append (ih cuts)

end FeedBridge

/-- Over every run of the adviser, with outages and new sessions anywhere, the ticks of a symbol
that went through and those that the recorders read are a part of the terminal's history, in its
order and none of them twice. Behind the first tick that was sent, one is left out only if it has
the millisecond of one that was sent; what comes behind the watermark is still to be sent. -/
theorem ticks_sent_once (world : Surroundings) (expectedAccount login : UInt64)
    (expectedMarginMode accountMarginMode : UInt32) (reconnectSeconds timeLocal : Nat)
    (serverHash symbolHash : Vector UInt8 32) (greeting : Option HelloRecord) (b : FeedBridge)
    (hstart : (FeedBridge.create expectedAccount expectedMarginMode reconnectSeconds serverHash symbolHash).onInit world
      login accountMarginMode timeLocal greeting = some b)
    (events : List FeedBridge.BridgeEvent)
    (htimely : Runs.Along (FeedBridge.step world) FeedBridge.Timely b events)
    (symbol : Symbol) (cuts : List (Nat × (Nat → Nat))) :
    let last := Runs.run (FeedBridge.step world) b events
    ∃ old mid pending, last.history symbol = old ++ (mid ++ pending) ∧
      (last.sent symbol).Sublist mid ∧ (last.recorded cuts symbol).Sublist mid ∧
      (∀ tick ∈ mid, ∃ other ∈ last.sent symbol, other.timeMsc = tick.timeMsc) ∧
      (∀ tick ∈ pending, (last.lastTickMsc symbol).toNat < tick.msc) ∧
      ((last.history symbol).Pairwise (fun earlier later => earlier.msc < later.msc) → mid = last.sent symbol) := by
  intro last
  have hfirst : b.Tracks :=
    FeedBridge.kept_tracks.onInit world timeLocal (FeedBridge.create_tracks _ _ _ _ _) rfl hstart
  have htracks : last.Tracks := FeedBridge.run_tracks world hfirst htimely
  obtain ⟨old, mid, pending, hhistory, hsent, hmid, hpending, hdistinct⟩ :=
    (htracks.watched symbol).history_split (htracks.timed symbol)
  exact ⟨old, mid, pending, hhistory, hsent, (last.recorded_sublist cuts symbol).trans hsent, hmid, hpending, hdistinct⟩

theorem timely_broken : Runs.Along (FeedBridge.step brokenSurroundings) FeedBridge.Timely firstBridge brokenEvents := by
  refine ⟨?_, trivial, ?_, trivial, ?_, trivial, trivial, trivial, trivial, trivial⟩
  · exact ⟨by decide, by decide, by decide +kernel⟩
  · exact ⟨by decide, by decide, by decide +kernel⟩
  · exact ⟨by decide, by decide, by decide +kernel⟩

/-- Every tick is sent once, although the second one was cut off at first; the second recorder reads
up to the middle of the third. -/
theorem ticks_sent_once_broken :
    let cuts : List (Nat × (Nat → Nat)) := [(228, fun _ => 7), (250, fun _ => 30)]
    brokenRun.sent euro = [tickAt 1000, tickAt 2000, tickAt 3000] ∧
    brokenRun.recorded cuts euro = [tickAt 1000, tickAt 2000] ∧
    ∃ old mid pending, brokenRun.history euro = old ++ (mid ++ pending) ∧
      (brokenRun.sent euro).Sublist mid ∧ (brokenRun.recorded cuts euro).Sublist mid ∧
      (∀ tick ∈ mid, ∃ other ∈ brokenRun.sent euro, other.timeMsc = tick.timeMsc) ∧
      (∀ tick ∈ pending, (brokenRun.lastTickMsc euro).toNat < tick.msc) ∧
      ((brokenRun.history euro).Pairwise (fun earlier later => earlier.msc < later.msc) →
        mid = brokenRun.sent euro) := by
  intro cuts
  refine ⟨by decide +kernel, by decide +kernel, ?_⟩
  unfold brokenRun
  exact ticks_sent_once brokenSurroundings 1234 1234 2 2 5 0 zeroHash zeroHash (some (greetingOf 55)) firstBridge rfl
    brokenEvents timely_broken euro cuts

end MicrostructureEngine.Mt5
