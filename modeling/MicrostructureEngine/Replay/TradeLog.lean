import MicrostructureEngine.Lib.Drawdown
import MicrostructureEngine.Replay.StrategyReplayEngine

/-!
# The trade log of a replay

A round trip ends when an exit is found filled, and is logged then. The statistics are those of the
logged trips whatever the run: the last and the greatest equity, and the greatest fall between any two
of its points. A full log takes no further trip, and says so.
-/

namespace MicrostructureEngine.Replay

open Drawdown
open Strategy (Lifecycle)

set_option autoImplicit false

universe u

namespace TradeStatistics

/-- The gains of the logged trades. -/
def gains (s : TradeStatistics) : List Int := s.trades.map TradeRecord.netMinor

/-- The statistics of the trips so far, of which the log holds as many as it has room for. -/
structure Logs (s : TradeStatistics) (trips : List TradeRecord) : Prop where
  trades : s.trades = trips.take maxTrackedTrades
  overflowed : s.overflowed = true ↔ maxTrackedTrades < trips.length
  running : Running s.gains s.cumulative s.peak s.maxDrawdown

theorem logs_nil : ({} : TradeStatistics).Logs [] where
  trades := rfl
  overflowed := by simp
  running := Running.nil

/-- The comparisons of `add` are those of a running maximum. -/
theorem ite_gt_eq_max (a b : Int) : (if a > b then a else b) = max a b := by
  split
  · omega
  · omega

theorem Logs.add {s : TradeStatistics} {trips : List TradeRecord} (h : s.Logs trips) (trade : TradeRecord) :
    (s.add trade).Logs (trips ++ [trade]) := by
  have hlength : s.trades.length = min maxTrackedTrades trips.length := by rw [h.trades, List.length_take]
  unfold TradeStatistics.add
  split
  · -- the log is full, and stays as it is
    rename_i hfull
    have htrips : maxTrackedTrades ≤ trips.length := by omega
    refine ⟨?_, ?_, h.running⟩
    · rw [List.take_append_of_le_length htrips]
      exact h.trades
    · rw [List.length_append, List.length_singleton]
      exact iff_of_true rfl (Nat.lt_succ_of_le htrips)
  · rename_i hroom
    have htrips : trips.length < maxTrackedTrades := by omega
    have hall : s.trades = trips := by rw [h.trades, List.take_of_length_le htrips.le]
    refine ⟨?_, ?_, ?_⟩
    · rw [List.take_of_length_le (by simpa using htrips)]
      exact congrArg (· ++ [trade]) hall
    · rw [List.length_append, List.length_singleton]
      constructor
      · intro hover
        have hlt := h.overflowed.mp hover
        omega
      · intro hlt
        omega
    · have hnext := h.running.snoc trade.netMinor
      dsimp only
      rw [ite_gt_eq_max, ite_gt_eq_max, max_comm _ s.maxDrawdown]
      unfold gains
      rw [List.map_append]
      exact hnext

end TradeStatistics

/-! ## Round trips -/

/-- A filled order of the engine, as `run` finds it: what was opened, or what was closed and why. -/
inductive Leg where
  | entry (o : Order) (tsNs : Nat)
  | exit (o : Order) (tsNs : Nat) (reason : Strategy.ExitReason)

/-- The trade that an entry begins. -/
def openedTrade (o : Order) (tsNs : Nat) : TradeRecord :=
  { side := o.side, volume := o.filledVolume, entryTicks := o.avgFillPriceTicks, openedNs := tsNs,
    commissionMinor := o.commissionMinor }

/-- The trade once an exit ends it. -/
def closedTrade (tickValueMinor : Int) (t : TradeRecord) (o : Order) (tsNs : Nat)
    (reason : Strategy.ExitReason) : TradeRecord :=
  { t with
    exitTicks := o.avgFillPriceTicks
    closedNs := tsNs
    commissionMinor := t.commissionMinor + o.commissionMinor
    reason := reason
    pnlMinor := tradePnlMinor t.side t.volume t.entryTicks o.avgFillPriceTicks tickValueMinor }

/-- Every entry with the exit that follows it. -/
def roundTrips (tickValueMinor : Int) : List Leg → List TradeRecord
  | .entry o tsNs :: .exit o' tsNs' reason :: legs =>
    closedTrade tickValueMinor (openedTrade o tsNs) o' tsNs' reason :: roundTrips tickValueMinor legs
  | _ => []

/-- Entries and exits take turns, an entry first. -/
def TakeTurns : List Leg → Prop
  | [] => True
  | [.entry ..] => True
  | .entry .. :: .exit .. :: legs => TakeTurns legs
  | _ => False

namespace StrategyReplayEngine

variable {α : Type u}

def endedLeg (s : StrategyReplayEngine α) (o : Order) (tsNs : Nat) : Option Leg :=
  if o.state = .filled then
    some (if s.entryInFlight then .entry o tsNs else .exit o tsNs s.scalper.life.exitReason)
  else none

def resolvedLeg (s : StrategyReplayEngine α) (tsNs : Nat) : Option Leg :=
  if s.working.logicalOrderId = 0 then none
  else
    match s.broker.findOrder s.working with
    | none => none
    | some o => if o.state.isTerminal then s.endedLeg o tsNs else none

/-- The leg that the step finds filled. -/
def leg (s : StrategyReplayEngine α) : Event α → Option Leg
  | .quote q => if q.symbolId ≥ symbolCount then none else (s.counted.observe q).resolvedLeg q.tsNs
  | .other => none

/-! ## The strategy and its legs -/

/-- The strategy waits for the order that is followed, and holds what the open leg has opened. -/
structure Follows (s : StrategyReplayEngine α) (tickValueMinor : Int) (opening : Option (Order × Nat)) :
    Prop where
  tickValue : s.config.tickValueMinor = tickValueMinor
  entering : s.working.logicalOrderId ≠ 0 → s.entryInFlight = true → s.scalper.life.state = .entryPending
  leaving : s.working.logicalOrderId ≠ 0 → s.entryInFlight = false → s.scalper.life.state = .exitPending
  held : Lifecycle.holding s.scalper.life.state = opening.isSome
  pending : ∀ o tsNs, opening = some (o, tsNs) → s.pending = openedTrade o tsNs

/-- What finding the leg filled does to the open leg and to the statistics. -/
inductive Taken (tickValueMinor : Int) (s s' : StrategyReplayEngine α) :
    Option (Order × Nat) → Option Leg → Prop
  | none {opening : Option (Order × Nat)} (follows : s'.Follows tickValueMinor opening)
      (same : s'.statistics = s.statistics) : Taken tickValueMinor s s' opening none
  | entry {o : Order} {tsNs : Nat} (follows : s'.Follows tickValueMinor (some (o, tsNs)))
      (same : s'.statistics = s.statistics) : Taken tickValueMinor s s' none (some (.entry o tsNs))
  | exit {o o' : Order} {tsNs tsNs' : Nat} {reason : Strategy.ExitReason}
      (follows : s'.Follows tickValueMinor none)
      (logged : s'.statistics =
        s.statistics.add (closedTrade tickValueMinor (openedTrade o tsNs) o' tsNs' reason)) :
      Taken tickValueMinor s s' (some (o, tsNs)) (some (.exit o' tsNs' reason))

section Legs

variable {tickValueMinor : Int} {s s' : StrategyReplayEngine α} {opening : Option (Order × Nat)}
  {found : Option Leg}

theorem Follows.ended (h : s.Follows tickValueMinor opening) (htracked : s.working.logicalOrderId ≠ 0) (o : Order) (tsNs : Nat) :
    Taken tickValueMinor s (s.ended o tsNs) opening (s.endedLeg o tsNs) := by
  have hheld := h.held
  unfold StrategyReplayEngine.ended endedLeg
  split
  · cases hentry : s.entryInFlight with
    | true =>
      have hstate := h.entering htracked hentry
      rw [hstate] at hheld
      cases opening with
      | some leg => cases hheld
      | none =>
        have hlife := Lifecycle.onEntryFilled_of_pending hstate o.side o.filledVolume o.avgFillPriceTicks tsNs
        refine Taken.entry ⟨h.tickValue, fun hid => absurd rfl hid, fun hid => absurd rfl hid, ?_, ?_⟩ rfl
        · exact congrArg (fun l => Lifecycle.holding l.state) hlife
        · rintro _ _ ⟨⟩
          rfl
    | false =>
      have hstate := h.leaving htracked hentry
      rw [hstate] at hheld
      cases opening with
      | none => cases hheld
      | some leg =>
        obtain ⟨o₀, tsNs₀⟩ := leg
        have hlife := Lifecycle.onExitFilled_of_pending hstate s.scalper.config.cooldownNs tsNs
        refine Taken.exit ⟨h.tickValue, fun hid => absurd rfl hid, fun hid => absurd rfl hid, ?_, ?_⟩ ?_
        · exact congrArg (fun l => Lifecycle.holding l.state) hlife
        · intro _ _ hnone
          cases hnone
        · rw [← h.tickValue, ← h.pending o₀ tsNs₀ rfl]
          rfl
  · cases hentry : s.entryInFlight with
    | true =>
      have hstate := h.entering htracked hentry
      have hlife := Lifecycle.onEntryRejected_of_pending hstate
      rw [hstate] at hheld
      refine Taken.none ⟨h.tickValue, fun hid => absurd rfl hid, fun hid => absurd rfl hid, ?_, h.pending⟩ rfl
      exact (congrArg (fun l => Lifecycle.holding l.state) hlife).trans hheld
    | false =>
      have hstate := h.leaving htracked hentry
      have hlife := Lifecycle.onExitRejected_of_pending hstate
      rw [hstate] at hheld
      refine Taken.none ⟨h.tickValue, fun hid => absurd rfl hid, fun hid => absurd rfl hid, ?_, h.pending⟩ rfl
      exact (congrArg (fun l => Lifecycle.holding l.state) hlife).trans hheld

theorem Taken.of_same {s₀ : StrategyReplayEngine α} (h : Taken tickValueMinor s s' opening found)
    (hlog : s.statistics = s₀.statistics) : Taken tickValueMinor s₀ s' opening found := by
  cases h with
  | none follows same => exact Taken.none follows (same.trans hlog)
  | entry follows same => exact Taken.entry follows (same.trans hlog)
  | exit follows logged =>
    rw [hlog] at logged
    exact Taken.exit follows logged

theorem Follows.resolve (h : s.Follows tickValueMinor opening) (tsNs : Nat) :
    Taken tickValueMinor s (s.resolve tsNs) opening (s.resolvedLeg tsNs) := by
  unfold StrategyReplayEngine.resolve resolvedLeg
  split
  · exact Taken.none h rfl
  rename_i htracked
  cases s.broker.findOrder s.working with
  | none => exact Taken.none h rfl
  | some o =>
    dsimp only
    split
    · exact h.ended htracked o tsNs
    · exact Taken.none h rfl

theorem Follows.resolved (h : s.Follows tickValueMinor opening) (e : Event α) :
    Taken tickValueMinor s (s.resolved e) opening (s.leg e) := by
  have hcounted : s.counted.Follows tickValueMinor opening :=
    ⟨h.tickValue, h.entering, h.leaving, h.held, h.pending⟩
  cases e with
  | other => exact Taken.none hcounted rfl
  | quote q =>
    unfold StrategyReplayEngine.resolved leg
    dsimp only
    split
    · exact Taken.none hcounted rfl
    · have hobserved : (s.counted.observe q).Follows tickValueMinor opening :=
        ⟨h.tickValue, h.entering, h.leaving, h.held, h.pending⟩
      exact (hobserved.resolve q.tsNs).of_same rfl

/-! ## The decision -/

/-- What the strategy waits for once it has raised an intent, with a position held or without. -/
inductive Waits (life : Lifecycle) : Bool → Strategy.IntentKind → Prop
  | enter (state : life.state = .entryPending) : Waits life false .enter
  | exit (state : life.state = .exitPending) : Waits life true .exit

section Submitting

variable {kind : Strategy.IntentKind} (htick : s.config.tickValueMinor = tickValueMinor)
  (huntracked : s.working.logicalOrderId = 0)
  (hpending : ∀ o tsNs, opening = some (o, tsNs) → s.pending = openedTrade o tsNs)
include htick huntracked hpending

theorem follows_rejected (hwaits : Waits s.scalper.life opening.isSome kind) :
    (s.rejected (decide (kind = .enter))).Follows tickValueMinor opening := by
  refine ⟨htick, fun hid => absurd huntracked hid, fun hid => absurd huntracked hid, ?_, hpending⟩
  generalize opening.isSome = held at hwaits
  cases hwaits with
  | enter state =>
    exact congrArg (fun l => Lifecycle.holding l.state) (Lifecycle.onEntryRejected_of_pending state)
  | exit state =>
    exact congrArg (fun l => Lifecycle.holding l.state) (Lifecycle.onExitRejected_of_pending state)

theorem follows_submit {intent : Strategy.Intent}
    (hwaits : Waits s.scalper.life opening.isSome intent.kind) (q : Quote α) :
    (s.submit intent q).Follows tickValueMinor opening := by
  unfold submit
  dsimp -proj only
  split
  · exact follows_rejected htick huntracked hpending hwaits
  generalize s.broker.submit (s.orderRequest intent q.seqGlobal) q.tsNs = r
  split
  · exact follows_rejected htick huntracked hpending hwaits
  · generalize intent.kind = kind at hwaits
    generalize hheld : opening.isSome = held at hwaits
    cases hwaits with
    | enter state =>
      refine ⟨htick, fun _ _ => state, fun _ hleaving => ?_, ?_, hpending⟩
      · exact absurd (show true = false from hleaving) Bool.noConfusion
      · rw [hheld]
        exact congrArg Lifecycle.holding state
    | exit state =>
      refine ⟨htick, fun _ hentering => ?_, fun _ _ => state, ?_, hpending⟩
      · exact absurd (show false = true from hentering) Bool.noConfusion
      · rw [hheld]
        exact congrArg Lifecycle.holding state

end Submitting

theorem submit_statistics (s : StrategyReplayEngine α) (intent : Strategy.Intent) (q : Quote α) :
    (s.submit intent q).statistics = s.statistics := by
  unfold submit
  split
  · rfl
  dsimp -proj only
  split
  · rfl
  · rfl

theorem holding_of_settled {l l' : Lifecycle} (h : Lifecycle.Settled l l') :
    Lifecycle.holding l'.state = Lifecycle.holding l.state := by
  rcases h with rfl | ⟨hstate | hstate, rfl⟩
  · rfl
  · rw [Lifecycle.transition_of_legal (by rw [hstate]; rfl), hstate]
    rfl
  · rw [Lifecycle.transition_of_legal (by rw [hstate]; rfl), hstate]
    rfl

section Deciding

variable [LE α] [LT α] [DecidableLE α] [DecidableLT α] [Zero α] [One α] [Neg α]

theorem Follows.onMarket (h : s.Follows tickValueMinor opening) (q : Quote α) :
    (s.onMarket q).Follows tickValueMinor opening := by
  unfold StrategyReplayEngine.onMarket
  split
  · exact h
  split
  · exact h
  rename_i huntracked
  have huntracked := not_not.mp huntracked
  have hheld : Lifecycle.holding s.scalper.life.clearVeto.state = opening.isSome := h.held
  have hdecided := (s.scalper.decided q.symbolId (s.books q.symbolId) q.signals q.tsNs).1
  dsimp only
  generalize s.scalper.onMarket q.symbolId (s.books q.symbolId) q.signals q.tsNs = d at hdecided ⊢
  obtain ⟨intent, scalper⟩ := d
  dsimp only at hdecided ⊢
  generalize hr : (intent, scalper.life) = r at hdecided
  cases hdecided with
  | exit inPosition active due =>
    obtain ⟨rfl, hlife⟩ := Prod.mk.inj hr
    rw [if_neg (by intro hn; cases hn)]
    apply follows_submit
    · exact h.tickValue
    · exact huntracked
    · exact h.pending
    · dsimp only
      rw [hlife, ← hheld, inPosition]
      exact Waits.exit (Lifecycle.emitExit_state inPosition _)
  | hold inPosition due =>
    obtain ⟨rfl, hlife⟩ := Prod.mk.inj hr
    rw [if_pos rfl]
    refine ⟨h.tickValue, fun hid => absurd huntracked hid, fun hid => absurd huntracked hid, ?_, h.pending⟩
    dsimp only
    rw [hlife]
    exact hheld
  | refused settled veto =>
    obtain ⟨rfl, hlife⟩ := Prod.mk.inj hr
    rw [if_pos rfl]
    refine ⟨h.tickValue, fun hid => absurd huntracked hid, fun hid => absurd huntracked hid, ?_, h.pending⟩
    dsimp only
    rw [hlife]
    exact (holding_of_settled settled).trans hheld
  | entered settled idle flat direction =>
    obtain ⟨rfl, hlife⟩ := Prod.mk.inj hr
    rw [← holding_of_settled settled, idle] at hheld
    rw [if_neg (by intro hn; cases hn)]
    apply follows_submit
    · exact h.tickValue
    · exact huntracked
    · exact h.pending
    · dsimp only
      rw [hlife, ← hheld]
      exact Waits.enter (Lifecycle.emitEntry_state idle)

theorem onMarket_statistics (s : StrategyReplayEngine α) (q : Quote α) :
    (s.onMarket q).statistics = s.statistics := by
  unfold onMarket
  split
  · rfl
  split
  · rfl
  dsimp -proj only
  split
  · rfl
  · exact submit_statistics _ _ q

theorem Taken.onMarket (h : Taken tickValueMinor s s' opening found) (q : Quote α) :
    Taken tickValueMinor s (s'.onMarket q) opening found := by
  have hsame := onMarket_statistics s' q
  cases h with
  | none follows same => exact Taken.none (follows.onMarket q) (hsame.trans same)
  | entry follows same => exact Taken.entry (follows.onMarket q) (hsame.trans same)
  | exit follows logged => exact Taken.exit (follows.onMarket q) (hsame.trans logged)

theorem Follows.step (h : s.Follows tickValueMinor opening) (e : Event α) :
    Taken tickValueMinor s (s.step e) opening (s.leg e) := by
  have hresolved := h.resolved e
  cases e with
  | other => exact hresolved
  | quote q =>
    unfold StrategyReplayEngine.step
    dsimp only
    split
    · exact hresolved
    · exact hresolved.onMarket q

/-! ## Runs -/

/-- The legs of a run, in the order in which they are found filled. -/
def legs : StrategyReplayEngine α → List (Event α) → List Leg
  | _, [] => []
  | s, e :: events => (s.leg e).toList ++ legs (s.step e) events

/-- The open leg in front of what follows it. -/
def resume : Option (Order × Nat) → List Leg → List Leg
  | none, legs => legs
  | some (o, tsNs), legs => .entry o tsNs :: legs

/-- The induction of the main result, from any state on: an open leg counts among those to come. -/
theorem Follows.run (h : s.Follows tickValueMinor opening) {trips : List TradeRecord}
    (hlog : s.statistics.Logs trips) (events : List (Event α)) :
    TakeTurns (resume opening (legs s events)) ∧
      (Runs.run StrategyReplayEngine.step s events).statistics.Logs
        (trips ++ roundTrips tickValueMinor (resume opening (legs s events))) := by
  induction events generalizing s opening trips with
  | nil =>
    have hnone : TakeTurns (resume opening []) ∧ roundTrips tickValueMinor (resume opening []) = [] := by
      cases opening with
      | none => exact ⟨trivial, rfl⟩
      | some leg => exact ⟨trivial, rfl⟩
    rw [legs, hnone.2, List.append_nil]
    exact ⟨hnone.1, hlog⟩
  | cons e events ih =>
    have hstep := h.step e
    rw [legs, Runs.run_cons]
    generalize s.leg e = found at hstep ⊢
    generalize s.step e = s' at hstep ⊢
    cases hstep with
    | none follows same =>
      rw [← same] at hlog
      exact ih follows hlog
    | entry follows same =>
      rw [← same] at hlog
      exact ih follows hlog
    | @exit o o' tsNs tsNs' reason follows logged =>
      have hlogged := hlog.add (closedTrade tickValueMinor (openedTrade o tsNs) o' tsNs' reason)
      rw [← logged] at hlogged
      obtain ⟨hturns, hrest⟩ := ih follows hlogged
      rw [List.append_assoc] at hrest
      exact ⟨hturns, hrest⟩

end Deciding

end Legs

theorem follows_start (config : StrategyReplayConfig α) : (start config).Follows config.tickValueMinor none where
  tickValue := rfl
  entering hid := absurd rfl hid
  leaving hid := absurd rfl hid
  held := rfl
  pending := by
    intro _ _ hnone
    cases hnone

/-- In every run the legs take turns, and the log holds the first of the round trips that they make, as many
as it has room for, and says whether any is missing. The net gain, the peak and the drawdown are those of
the logged trips. -/
theorem trips_logged [LE α] [LT α] [DecidableLE α] [DecidableLT α] [Zero α] [One α] [Neg α]
    (config : StrategyReplayConfig α) (events : List (Event α)) :
    let found := legs (start config) events
    let trips := roundTrips config.tickValueMinor found
    let log := (run config events).statistics
    TakeTurns found ∧ log.trades = trips.take maxTrackedTrades ∧
      (log.overflowed = true ↔ maxTrackedTrades < trips.length) ∧ log.cumulative = log.gains.sum ∧
      IsGreatest (points log.gains) log.peak ∧ IsGreatest (falls log.gains) log.maxDrawdown := by
  obtain ⟨hturns, hlog⟩ := (follows_start config).run TradeStatistics.logs_nil events
  exact ⟨hturns, hlog.trades, hlog.overflowed, hlog.running.total, hlog.running.peak, hlog.running.deepest⟩

end StrategyReplayEngine

end MicrostructureEngine.Replay
