import MicrostructureEngine.Lib.Runs
import MicrostructureEngine.Strategy.Lifecycle

/-!
# The baseline scalper

Queue imbalance sets the direction of an entry and order flow has to agree. Exits come first and
look at nothing but the position, the clock and, where there is one, the book.
-/

namespace MicrostructureEngine.Strategy

set_option autoImplicit false

universe u

inductive Signal where
  | bookImbalance
  | microprice
  | ofi
  | spread
  | queueImbalance
  | momentum
  | volatility
  deriving DecidableEq, Repr

def Signal.bit : Signal → UInt32
  | bookImbalance => 1
  | microprice => 2
  | ofi => 4
  | spread => 8
  | queueImbalance => 16
  | momentum => 32
  | volatility => 64

/-- The signals that the strategy reads. -/
structure SignalSet (α : Type u) where
  ofi : α
  queueImbalance : α
  volatility : α
  warm : UInt32
  deriving DecidableEq, Repr

def SignalSet.ready {α : Type u} (signals : SignalSet α) (s : Signal) : Bool :=
  signals.warm &&& s.bit != 0

structure StrategyConfig (α : Type u) where
  strategyId : Nat := 1
  volume : Int := 1
  entryQueueImbalance : α
  entryOfi : α
  maxSpreadTicks : Int := 20
  minVolatility : α
  maxVolatility : α
  requireOfiAgreement : Bool := true
  takeProfitTicks : Int := 10
  stopLossTicks : Int := 10
  maxHoldNs : Nat := 120000000000
  cooldownNs : Nat := 30000000000
  maxPositions : Nat := 1
  requiredSignals : UInt32 := Signal.queueImbalance.bit ||| Signal.spread.bit
  deriving DecidableEq, Repr

structure BaselineScalper (α : Type u) where
  config : StrategyConfig α
  life : Lifecycle := {}
  deriving DecidableEq, Repr

namespace BaselineScalper

variable {α : Type u}

/-- The time stop, then, marked at the closing price of a valid book, target and hard stop. -/
def exitDue (s : BaselineScalper α) (top : TopOfBook) (tsNs : Nat) : ExitReason :=
  let p := s.life.position
  if p.heldFor s.config.maxHoldNs tsNs then .timeStop
  else if !top.valid then .none
  else if p.move top.bidTicks top.askTicks ≥ s.config.takeProfitTicks then .takeProfit
  else if p.move top.bidTicks top.askTicks ≤ -s.config.stopLossTicks then .stopLoss
  else .none

theorem exitDue_of_held {s : BaselineScalper α} {tsNs : Nat}
    (h : s.life.position.openedNs + s.config.maxHoldNs ≤ tsNs) (top : TopOfBook) :
    s.exitDue top tsNs = .timeStop := by
  unfold exitDue
  exact if_pos (OpenPosition.heldFor_eq h)

end BaselineScalper

section

variable {α : Type u} [LE α] [LT α] [DecidableLE α] [DecidableLT α] [Zero α] [One α] [Neg α]

def StrategyConfig.valid (c : StrategyConfig α) : Bool :=
  decide (c.volume > 0) && decide (c.maxPositions ≥ 1) && decide (c.takeProfitTicks > 0) &&
    decide (c.stopLossTicks > 0) && decide (c.maxHoldNs > 0) && decide (c.maxSpreadTicks > 0) &&
    decide (c.entryQueueImbalance > 0) && decide (c.entryQueueImbalance ≤ 1) &&
    decide (c.minVolatility ≥ 0) && decide (c.maxVolatility ≥ c.minVolatility)

namespace BaselineScalper

/-- `1` long, `-1` short, `0` stand aside. -/
def entryDirection (c : StrategyConfig α) (signals : SignalSet α) : Int :=
  if !signals.ready .queueImbalance then 0
  else
    let direction : Int :=
      if signals.queueImbalance ≥ c.entryQueueImbalance then 1
      else if signals.queueImbalance ≤ -c.entryQueueImbalance then -1 else 0
    if direction = 0 then 0
    else if c.requireOfiAgreement then
      if !signals.ready .ofi then 0
      else if direction > 0 ∧ ¬ (signals.ofi > 0 ∧ signals.ofi ≥ c.entryOfi) then 0
      else if direction < 0 ∧ ¬ (signals.ofi < 0 ∧ -signals.ofi ≥ c.entryOfi) then 0
      else direction
    else direction

/-- What the filters of an entry refuse. -/
def filter (c : StrategyConfig α) (top : TopOfBook) (signals : SignalSet α) : Option Veto :=
  if !top.valid then some .coldSignals
  else if top.spreadTicks > c.maxSpreadTicks then some .spreadTooWide
  else if signals.ready .volatility ∧
      (signals.volatility < c.minVolatility ∨ signals.volatility > c.maxVolatility) then
    some .volatilityOutOfBand
  else if entryDirection c signals = 0 then some .signalBelowThreshold
  else none

/-- `signals` is what the signal engine computes from the book, the features and its own past. -/
def onMarket (s : BaselineScalper α) (symbolId : Nat) (book : OrderBook) (signals : SignalSet α)
    (tsNs : Nat) : Intent × BaselineScalper α :=
  let intent : Intent := { strategyId := s.config.strategyId, symbolId := symbolId, tsNs := tsNs }
  let l := s.life.clearVeto
  if !s.config.valid ∨ l.state = .halted then (intent, { s with life := l.refuse .halted })
  else
    let top := topOfBook book
    let warm := signals.warm &&& s.config.requiredSignals == s.config.requiredSignals
    match l.gates intent (s.exitDue top tsNs) warm s.config.maxPositions tsNs with
    | (some answer, l) => (answer, { s with life := l })
    | (none, l) =>
      match filter s.config top signals with
      | some veto => (intent, { s with life := l.refuse veto })
      | none =>
        (Lifecycle.entryIntent intent (entryDirection s.config signals) s.config.volume,
          { s with life := l.emitEntry })

/-- A call from the market or from the execution side. -/
inductive Call (α : Type u) where
  | onMarket (symbolId : Nat) (book : OrderBook) (signals : SignalSet α) (tsNs : Nat)
  | onEntryFilled (side : Side) (volume priceTicks : Int) (tsNs : Nat)
  | onEntryRejected
  | onExitFilled (tsNs : Nat)
  | onExitRejected
  | halt
  deriving DecidableEq, Repr

def step (s : BaselineScalper α) : Call α → BaselineScalper α
  | .onMarket symbolId book signals tsNs => (s.onMarket symbolId book signals tsNs).2
  | .onEntryFilled side volume priceTicks tsNs =>
    { s with life := s.life.onEntryFilled side volume priceTicks tsNs }
  | .onEntryRejected => { s with life := s.life.onEntryRejected }
  | .onExitFilled tsNs => { s with life := s.life.onExitFilled s.config.cooldownNs tsNs }
  | .onExitRejected => { s with life := s.life.onExitRejected }
  | .halt => { s with life := s.life.halt }

/-- The strategy after the calls, from its construction. -/
def after (config : StrategyConfig α) (calls : List (Call α)) : BaselineScalper α :=
  Runs.run step { config := config } calls

/-! ## One market call -/

theorem decided (s : BaselineScalper α) (symbolId : Nat) (book : OrderBook) (signals : SignalSet α)
    (tsNs : Nat) :
    s.life.clearVeto.Decided { strategyId := s.config.strategyId, symbolId := symbolId, tsNs := tsNs }
        (s.exitDue (topOfBook book) tsNs) s.config.volume
        ((s.onMarket symbolId book signals tsNs).1, (s.onMarket symbolId book signals tsNs).2.life) ∧
      (s.onMarket symbolId book signals tsNs).2.config = s.config := by
  unfold onMarket
  dsimp only
  split
  · exact ⟨Lifecycle.Decided.refused (Or.inl rfl) .halted, rfl⟩
  have hgated := Lifecycle.gated s.life.clearVeto
    { strategyId := s.config.strategyId, symbolId := symbolId, tsNs := tsNs }
    (s.exitDue (topOfBook book) tsNs)
    (signals.warm &&& s.config.requiredSignals == s.config.requiredSignals) s.config.maxPositions tsNs
  generalize Lifecycle.gates s.life.clearVeto _ _ _ _ _ = r at hgated ⊢
  cases hgated with
  | exit inPosition active due => exact ⟨Lifecycle.Decided.exit inPosition active due, rfl⟩
  | hold inPosition active due => exact ⟨Lifecycle.Decided.hold inPosition due, rfl⟩
  | refused settled veto => exact ⟨Lifecycle.Decided.refused settled veto, rfl⟩
  | passed settled idle flat =>
    dsimp only
    split
    · exact ⟨Lifecycle.Decided.refused settled _, rfl⟩
    · exact ⟨Lifecycle.Decided.entered settled idle flat _, rfl⟩

/-! ## Runs -/

theorem sound_step {s : BaselineScalper α} (h : s.life.Sound) (c : Call α) : (s.step c).life.Sound := by
  cases c with
  | onMarket symbolId book signals tsNs => exact h.clearVeto.decided (decided s symbolId book signals tsNs).1
  | onEntryFilled side volume priceTicks tsNs => exact h.onEntryFilled side volume priceTicks tsNs
  | onEntryRejected => exact h.onEntryRejected
  | onExitFilled tsNs => exact h.onExitFilled s.config.cooldownNs tsNs
  | onExitRejected => exact h.onExitRejected
  | halt => exact h.halt

theorem step_config (s : BaselineScalper α) (c : Call α) : (s.step c).config = s.config := by
  cases c with
  | onMarket symbolId book signals tsNs => exact (decided s symbolId book signals tsNs).2
  | _ => rfl

theorem sound_after (config : StrategyConfig α) (calls : List (Call α)) :
    (after config calls).life.Sound ∧ (after config calls).config = config := by
  apply Runs.invariant_of_step (I := fun s : BaselineScalper α => s.life.Sound ∧ s.config = config)
  · intro s c h
    exact ⟨sound_step h.1 c, (step_config s c).trans h.2⟩
  · exact ⟨Lifecycle.sound_new, rfl⟩

/-- A held position whose time is up leaves with the next market call, whatever the book. -/
theorem onMarket_of_held {s : BaselineScalper α} (hvalid : s.config.valid = true)
    (hstate : s.life.state = .inPosition) (hactive : s.life.position.active = true) {tsNs : Nat}
    (h : s.life.position.openedNs + s.config.maxHoldNs ≤ tsNs) (symbolId : Nat) (book : OrderBook)
    (signals : SignalSet α) : (s.onMarket symbolId book signals tsNs).1.kind = .exit := by
  have hrunning : ¬ ((!s.config.valid) = true ∨ s.life.clearVeto.state = .halted) := by
    rw [hvalid, show s.life.clearVeto.state = .inPosition from hstate]
    decide
  unfold onMarket
  dsimp only
  rw [if_neg hrunning, exitDue_of_held h, Lifecycle.gates_of_due (l := s.life.clearVeto) hstate hactive
    (by decide)]
  rfl

/-- What a market call may and must do: it is disciplined, and honours the time stop. -/
structure HonoursStops (s : BaselineScalper α) (answer : Intent × BaselineScalper α) (tsNs : Nat) : Prop where
  disciplined : s.life.Disciplined (answer.1, answer.2.life)
  timeStop : s.life.state = .inPosition → s.life.position.openedNs + s.config.maxHoldNs ≤ tsNs →
    answer.1.kind = .exit

theorem honoursStops {s : BaselineScalper α} (h : s.life.Sound) (hvalid : s.config.valid = true)
    (symbolId : Nat) (book : OrderBook) (signals : SignalSet α) (tsNs : Nat) :
    s.HonoursStops (s.onMarket symbolId book signals tsNs) tsNs := by
  have hdisciplined := (decided s symbolId book signals tsNs).1.disciplined rfl
  refine ⟨⟨hdisciplined.enter, hdisciplined.exit⟩, ?_⟩
  intro hstate hheld
  exact onMarket_of_held hvalid hstate (h.active_inPosition hstate) hheld symbolId book signals

/-- In every run the strategy holds a position exactly in the states made for it, or, halted, as it
did before the halt; it has moved along legal transitions only; and the next market call, whatever
it brings, is disciplined and honours the time stop. -/
theorem scalper_disciplined (config : StrategyConfig α) (hvalid : config.valid = true)
    (calls : List (Call α)) :
    ((after config calls).life.position.active =
        Lifecycle.holding (Lifecycle.lastRunning (after config calls).life.path)) ∧
      ((after config calls).life.state ≠ .halted →
        Lifecycle.lastRunning (after config calls).life.path = (after config calls).life.state) ∧
      (after config calls).life.path.IsChain (fun a b => legal a b = true) ∧
      (after config calls).life.path.getLast? = some (after config calls).life.state ∧
      ∀ symbolId book signals tsNs,
        (after config calls).HonoursStops ((after config calls).onMarket symbolId book signals tsNs) tsNs := by
  obtain ⟨hsound, hconfig⟩ := sound_after config calls
  refine ⟨hsound.held, hsound.running, hsound.chain, hsound.last, ?_⟩
  rw [← hconfig] at hvalid
  exact honoursStops hsound hvalid

/-- A long entered and filled, then a halt. -/
def halted : List (Call Int) :=
  [.onMarket 0 ⟨[⟨100, 5⟩], [⟨102, 5⟩]⟩ ⟨1, 1, 0, 31⟩ 0, .onEntryFilled .buy 1 102 0, .halt]

theorem scalper_disciplined_halted :
    let config : StrategyConfig Int :=
      { entryQueueImbalance := 1, entryOfi := 0, minVolatility := 0, maxVolatility := 1 }
    ((after config halted).life.position.active =
        Lifecycle.holding (Lifecycle.lastRunning (after config halted).life.path)) ∧
      ((after config halted).life.state ≠ .halted →
        Lifecycle.lastRunning (after config halted).life.path = (after config halted).life.state) ∧
      (after config halted).life.path.IsChain (fun a b => legal a b = true) ∧
      (after config halted).life.path.getLast? = some (after config halted).life.state ∧
      ∀ symbolId book signals tsNs,
        (after config halted).HonoursStops ((after config halted).onMarket symbolId book signals tsNs) tsNs :=
  scalper_disciplined _ (by decide) halted

end BaselineScalper

end

end MicrostructureEngine.Strategy
