import Mathlib.Algebra.Ring.Rat
import MicrostructureEngine.Lib.Runs
import MicrostructureEngine.Strategy.Lifecycle

/-!
# The two strategies on top-of-book quotes

`Mt5L1Scalper` joins a move, `ScalpFlip` takes a small net profit and reverses when momentum turns.
Both leave a market call at once when the book has one side only, before they look at the position:
their exits, the time stop included, wait for a two-sided book.
-/

namespace MicrostructureEngine.Strategy

set_option autoImplicit false

universe u

inductive L1Signal where
  | spread
  | spreadRatio
  | midReturn
  | momentum
  | acceleration
  | volatility
  | quoteRate
  deriving DecidableEq, Repr

def L1Signal.bit : L1Signal → UInt32
  | spread => 1
  | spreadRatio => 2
  | midReturn => 4
  | momentum => 8
  | acceleration => 16
  | volatility => 32
  | quoteRate => 64

/-- The signals that the strategies read. -/
structure L1SignalSet (α : Type u) where
  spreadRatio : α
  momentum : α
  acceleration : α
  volatility : α
  quoteRate : α
  warm : UInt32
  deriving DecidableEq, Repr

def L1SignalSet.ready {α : Type u} (signals : L1SignalSet α) (s : L1Signal) : Bool :=
  signals.warm &&& s.bit != 0

/-- A call from the market or from the execution side; `signals` is what the signal engine computes
from the quote and its own past. -/
inductive L1Call (α : Type u) where
  | onMarket (symbolId : Nat) (book : OrderBook) (signals : L1SignalSet α) (tsNs : Nat)
  | onEntryFilled (side : Side) (volume priceTicks : Int) (tsNs : Nat)
  | onEntryRejected
  | onExitFilled (tsNs : Nat) (netMinor : Int)
  | onExitRejected
  | halt
  deriving DecidableEq, Repr

/-- The losses in a row after one more result. -/
def lossesAfter (losses : Nat) (netMinor : Int) : Nat := if netMinor < 0 then losses + 1 else 0

structure L1ScalperConfig (α : Type u) where
  strategyId : Nat := 2
  volume : Int := 1
  entryMomentum : α
  requireAccelerationAgreement : Bool := true
  maxSpreadTicks : Int := 20
  maxSpreadRatio : α
  minVolatility : α
  maxVolatility : α
  minQuoteRate : α
  takeProfitTicks : Int := 60
  stopLossTicks : Int := 40
  maxHoldNs : Nat := 300000000000
  cooldownNs : Nat := 30000000000
  maxPositions : Nat := 1
  maxConsecutiveLosses : Nat := 5
  requiredSignals : UInt32 := L1Signal.spread.bit ||| L1Signal.momentum.bit ||| L1Signal.volatility.bit
  deriving DecidableEq, Repr

structure Mt5L1Scalper (α : Type u) where
  config : L1ScalperConfig α
  life : Lifecycle := {}
  consecutiveLosses : Nat := 0
  deriving DecidableEq, Repr

structure ScalpFlipConfig (α : Type u) where
  strategyId : Nat := 3
  volume : Int := 1
  entryMomentum : α
  flipMomentum : α
  commissionTicks : Int := 2
  slippageAllowanceTicks : Int := 3
  minNetProfitTicks : Int := 5
  stopLossTicks : Int := 120
  maxHoldNs : Nat := 45000000000
  cooldownNs : Nat := 0
  maxSpreadTicks : Int := 60
  maxPositions : Nat := 1
  maxConsecutiveLosses : Nat := 8
  requiredSignals : UInt32 := L1Signal.spread.bit ||| L1Signal.momentum.bit
  deriving DecidableEq, Repr

/-- `closed` is history and not in the source: the reason of the exit last filled, and the side of
the position it closed. -/
structure ScalpFlip (α : Type u) where
  config : ScalpFlipConfig α
  life : Lifecycle := {}
  consecutiveLosses : Nat := 0
  flips : Nat := 0
  lastNetTicks : Int := 0
  flipPending : Bool := false
  forcedSideValid : Bool := false
  flipSide : Side := .buy
  forcedSide : Side := .buy
  closed : Option (ExitReason × Side) := none
  deriving DecidableEq, Repr

section

variable {α : Type u} [LE α] [LT α] [DecidableLE α] [DecidableLT α] [Zero α] [Neg α]

/-! ## The MT5 scalper -/

def L1ScalperConfig.valid (c : L1ScalperConfig α) : Bool :=
  decide (c.volume > 0) && decide (c.maxPositions ≥ 1) && decide (c.takeProfitTicks > 0) &&
    decide (c.stopLossTicks > 0) && decide (c.maxHoldNs > 0) && decide (c.maxSpreadTicks > 0) &&
    decide (c.entryMomentum > 0) && decide (c.maxSpreadRatio > 0) && decide (c.minVolatility ≥ 0) &&
    decide (c.maxVolatility ≥ c.minVolatility) && decide (c.minQuoteRate ≥ 0) &&
    decide (c.maxConsecutiveLosses > 0)

namespace Mt5L1Scalper

def exitDue (s : Mt5L1Scalper α) (bid ask : Int) (tsNs : Nat) : ExitReason :=
  let p := s.life.position
  if p.heldFor s.config.maxHoldNs tsNs then .timeStop
  else if p.move bid ask ≥ s.config.takeProfitTicks then .takeProfit
  else if p.move bid ask ≤ -s.config.stopLossTicks then .stopLoss
  else .none

/-- Momentum sets the direction; acceleration must agree when required. -/
def entryDirection (c : L1ScalperConfig α) (signals : L1SignalSet α) : Int :=
  if !signals.ready .momentum then 0
  else
    let direction : Int :=
      if signals.momentum ≥ c.entryMomentum then 1
      else if signals.momentum ≤ -c.entryMomentum then -1 else 0
    if direction = 0 then 0
    else if c.requireAccelerationAgreement then
      if !signals.ready .acceleration then 0
      else if direction > 0 ∧ signals.acceleration ≤ 0 then 0
      else if direction < 0 ∧ signals.acceleration ≥ 0 then 0
      else direction
    else direction

/-- What the filters of an entry refuse. -/
def filter (c : L1ScalperConfig α) (bid ask : Int) (signals : L1SignalSet α) : Option Veto :=
  if ask - bid > c.maxSpreadTicks then some .spreadTooWide
  else if signals.ready .spreadRatio ∧ signals.spreadRatio > c.maxSpreadRatio then some .spreadTooWide
  else if signals.volatility < c.minVolatility ∨ signals.volatility > c.maxVolatility then
    some .volatilityOutOfBand
  else if signals.ready .quoteRate ∧ signals.quoteRate < c.minQuoteRate then some .volatilityOutOfBand
  else if entryDirection c signals = 0 then some .signalBelowThreshold
  else none

def onMarket (s : Mt5L1Scalper α) (symbolId : Nat) (book : OrderBook) (signals : L1SignalSet α)
    (tsNs : Nat) : Intent × Mt5L1Scalper α :=
  let intent : Intent := { strategyId := s.config.strategyId, symbolId := symbolId, tsNs := tsNs }
  let l := s.life.clearVeto
  if !s.config.valid ∨ l.state = .halted then (intent, { s with life := l.refuse .halted })
  else if !book.hasBothSides then (intent, { s with life := l.refuse .coldSignals })
  else
    let bid := book.bestBid.priceTicks
    let ask := book.bestAsk.priceTicks
    let warm := signals.warm &&& s.config.requiredSignals == s.config.requiredSignals
    match l.gates intent (s.exitDue bid ask tsNs) warm s.config.maxPositions tsNs with
    | (some answer, l) => (answer, { s with life := l })
    | (none, l) =>
      match filter s.config bid ask signals with
      | some veto => (intent, { s with life := l.refuse veto })
      | none =>
        (Lifecycle.entryIntent intent (entryDirection s.config signals) s.config.volume,
          { s with life := l.emitEntry })

/-- A run of losses halts the strategy. -/
def onExitFilled (s : Mt5L1Scalper α) (tsNs : Nat) (netMinor : Int) : Mt5L1Scalper α :=
  if s.life.state ≠ .exitPending then s
  else
    let losses := lossesAfter s.consecutiveLosses netMinor
    let l := s.life.onExitFilled s.config.cooldownNs tsNs
    { s with
      consecutiveLosses := losses
      life := if losses ≥ s.config.maxConsecutiveLosses then l.halt else l }

def step (s : Mt5L1Scalper α) : L1Call α → Mt5L1Scalper α
  | .onMarket symbolId book signals tsNs => (s.onMarket symbolId book signals tsNs).2
  | .onEntryFilled side volume priceTicks tsNs =>
    { s with life := s.life.onEntryFilled side volume priceTicks tsNs }
  | .onEntryRejected => { s with life := s.life.onEntryRejected }
  | .onExitFilled tsNs netMinor => s.onExitFilled tsNs netMinor
  | .onExitRejected => { s with life := s.life.onExitRejected }
  | .halt => { s with life := s.life.halt }

def after (config : L1ScalperConfig α) (calls : List (L1Call α)) : Mt5L1Scalper α :=
  Runs.run step { config := config } calls

theorem decided (s : Mt5L1Scalper α) (symbolId : Nat) (book : OrderBook) (signals : L1SignalSet α)
    (tsNs : Nat) :
    s.life.clearVeto.Decided { strategyId := s.config.strategyId, symbolId := symbolId, tsNs := tsNs }
        (s.exitDue book.bestBid.priceTicks book.bestAsk.priceTicks tsNs) s.config.volume
        ((s.onMarket symbolId book signals tsNs).1, (s.onMarket symbolId book signals tsNs).2.life) ∧
      (s.onMarket symbolId book signals tsNs).2.config = s.config := by
  unfold onMarket
  dsimp only
  split
  · exact ⟨Lifecycle.Decided.refused (Or.inl rfl) .halted, rfl⟩
  split
  · exact ⟨Lifecycle.Decided.refused (Or.inl rfl) .coldSignals, rfl⟩
  have hgated := Lifecycle.gated s.life.clearVeto
    { strategyId := s.config.strategyId, symbolId := symbolId, tsNs := tsNs }
    (s.exitDue book.bestBid.priceTicks book.bestAsk.priceTicks tsNs)
    (signals.warm &&& s.config.requiredSignals == s.config.requiredSignals) s.config.maxPositions tsNs
  generalize Lifecycle.gates s.life.clearVeto _ _ _ _ _ = r at hgated ⊢
  cases hgated with
  | exit inPosition active due => exact ⟨Lifecycle.Decided.exit inPosition active due, rfl⟩
  | hold inPosition active due => exact ⟨Lifecycle.Decided.hold inPosition due, rfl⟩
  | refused settled veto => exact ⟨Lifecycle.Decided.refused settled veto, rfl⟩
  | passed settled idle flat =>
    dsimp only
    split
    · exact ⟨Lifecycle.Decided.refused settled _, rfl⟩
    · exact ⟨Lifecycle.Decided.entered settled idle flat _, rfl⟩

omit [LE α] [LT α] [DecidableLE α] [DecidableLT α] [Zero α] [Neg α] in
theorem sound_onExitFilled {s : Mt5L1Scalper α} (h : s.life.Sound) (tsNs : Nat) (netMinor : Int) :
    (s.onExitFilled tsNs netMinor).life.Sound := by
  have hclosed := h.onExitFilled s.config.cooldownNs tsNs
  unfold onExitFilled
  split
  · exact h
  · exact hclosed.haltIf _

theorem sound_after (config : L1ScalperConfig α) (calls : List (L1Call α)) :
    (after config calls).life.Sound ∧ (after config calls).config = config := by
  refine Runs.invariant_of_step (I := fun s : Mt5L1Scalper α => s.life.Sound ∧ s.config = config)
    ?_ ⟨Lifecycle.sound_new, rfl⟩ calls
  rintro s c ⟨h, hconfig⟩
  cases c with
  | onMarket symbolId book signals tsNs =>
    obtain ⟨hdecided, hsame⟩ := decided s symbolId book signals tsNs
    exact ⟨h.clearVeto.decided hdecided, hsame.trans hconfig⟩
  | onEntryFilled side volume priceTicks tsNs => exact ⟨h.onEntryFilled side volume priceTicks tsNs, hconfig⟩
  | onEntryRejected => exact ⟨h.onEntryRejected, hconfig⟩
  | onExitFilled tsNs netMinor =>
    refine ⟨sound_onExitFilled h tsNs netMinor, ?_⟩
    show (s.onExitFilled tsNs netMinor).config = config
    unfold onExitFilled
    split <;> exact hconfig
  | onExitRejected => exact ⟨h.onExitRejected, hconfig⟩
  | halt => exact ⟨h.halt, hconfig⟩

/-- A held position whose time is up leaves with the next market call exactly when the book has
both sides. -/
theorem leftBy_onMarket_iff {s : Mt5L1Scalper α} (h : s.life.Sound) (hvalid : s.config.valid = true)
    (hstate : s.life.state = .inPosition) {tsNs : Nat}
    (hheld : s.life.position.openedNs + s.config.maxHoldNs ≤ tsNs) (symbolId : Nat) (book : OrderBook)
    (signals : L1SignalSet α) :
    s.life.position.LeftBy (s.onMarket symbolId book signals tsNs).1 ↔ book.hasBothSides = true := by
  have hrunning : ¬ ((!s.config.valid) = true ∨ s.life.clearVeto.state = .halted) := by
    rw [hvalid, show s.life.clearVeto.state = .inPosition from hstate]
    decide
  unfold onMarket
  dsimp only
  rw [if_neg hrunning]
  cases hbook : book.hasBothSides with
  | false => exact ⟨fun hleft => absurd hleft.kind nofun, nofun⟩
  | true =>
    have hdue : s.exitDue book.bestBid.priceTicks book.bestAsk.priceTicks tsNs = .timeStop :=
      if_pos (OpenPosition.heldFor_eq hheld)
    rw [if_neg (by decide), hdue,
      Lifecycle.gates_of_due (l := s.life.clearVeto) hstate (h.active_inPosition hstate) (by decide)]
    exact ⟨fun _ => rfl, fun _ => ⟨rfl, rfl, rfl, rfl⟩⟩

end Mt5L1Scalper

/-! ## Scalp and flip -/

/-- The favourable movement at which an exit is worth taking. -/
def ScalpFlipConfig.profitThresholdTicks (c : ScalpFlipConfig α) : Int :=
  c.minNetProfitTicks + c.commissionTicks + c.slippageAllowanceTicks

def ScalpFlipConfig.valid (c : ScalpFlipConfig α) : Bool :=
  decide (c.volume > 0) && decide (c.maxPositions ≥ 1) && decide (c.stopLossTicks > 0) &&
    decide (c.maxHoldNs > 0) && decide (c.maxSpreadTicks > 0) && decide (c.entryMomentum > 0) &&
    decide (c.flipMomentum ≥ c.entryMomentum) && decide (c.minNetProfitTicks > 0) &&
    decide (c.commissionTicks ≥ 0) && decide (c.slippageAllowanceTicks ≥ 0) &&
    decide (c.maxConsecutiveLosses > 0) && decide (c.stopLossTicks > c.profitThresholdTicks)

namespace ScalpFlip

/-- Hard stop and time stop outrank the target; a reversal comes last. -/
def exitDue (s : ScalpFlip α) (bid ask : Int) (signals : L1SignalSet α) (tsNs : Nat) : ExitReason :=
  let p := s.life.position
  if p.move bid ask ≤ -s.config.stopLossTicks then .stopLoss
  else if p.heldFor s.config.maxHoldNs tsNs then .timeStop
  else if p.move bid ask ≥ s.config.profitThresholdTicks then .takeProfit
  else if signals.ready .momentum ∧ p.side = .buy ∧ signals.momentum ≤ -s.config.flipMomentum then
    .signalFlip
  else if signals.ready .momentum ∧ p.side = .sell ∧ signals.momentum ≥ s.config.flipMomentum then
    .signalFlip
  else .none

def entryDirection (c : ScalpFlipConfig α) (signals : L1SignalSet α) : Int :=
  if !signals.ready .momentum then 0
  else if signals.momentum ≥ c.entryMomentum then 1
  else if signals.momentum ≤ -c.entryMomentum then -1
  else 0

/-- What evaluating the exit of a held position leaves besides the lifecycle. -/
def noteExit (s : ScalpFlip α) (bid ask : Int) (reason : ExitReason) : ScalpFlip α :=
  let s := { s with
    lastNetTicks := s.life.position.move bid ask - s.config.commissionTicks -
      s.config.slippageAllowanceTicks }
  if reason = .signalFlip then
    { s with flipPending := true, flipSide := closingSide s.life.position.side, flips := s.flips + 1 }
  else s

/-- The direction of an entry: forced by a flip, or from momentum. -/
def direction (s : ScalpFlip α) (signals : L1SignalSet α) : Int :=
  if s.forcedSideValid then (if s.forcedSide = .buy then 1 else -1) else entryDirection s.config signals

def onMarket (s : ScalpFlip α) (symbolId : Nat) (book : OrderBook) (signals : L1SignalSet α)
    (tsNs : Nat) : Intent × ScalpFlip α :=
  let intent : Intent := { strategyId := s.config.strategyId, symbolId := symbolId, tsNs := tsNs }
  let l := s.life.clearVeto
  if !s.config.valid ∨ l.state = .halted then (intent, { s with life := l.refuse .halted })
  else if !book.hasBothSides then (intent, { s with life := l.refuse .coldSignals })
  else
    let bid := book.bestBid.priceTicks
    let ask := book.bestAsk.priceTicks
    let reason := s.exitDue bid ask signals tsNs
    let warm := signals.warm &&& s.config.requiredSignals == s.config.requiredSignals
    let s := if l.state = .inPosition ∧ l.position.active then s.noteExit bid ask reason else s
    match l.gates intent reason warm s.config.maxPositions tsNs with
    | (some answer, l) => (answer, { s with life := l })
    | (none, l) =>
      if ask - bid > s.config.maxSpreadTicks then (intent, { s with life := l.refuse .spreadTooWide })
      else
        let direction := s.direction signals
        let s := { s with forcedSideValid := false }
        if direction = 0 then (intent, { s with life := l.refuse .signalBelowThreshold })
        else (Lifecycle.entryIntent intent direction s.config.volume, { s with life := l.emitEntry })

/-- A reversal is carried across the close, so that the next entry takes the opposite side. -/
def onExitFilled (s : ScalpFlip α) (tsNs : Nat) (netMinor : Int) : ScalpFlip α :=
  if s.life.state ≠ .exitPending then s
  else
    let losses := lossesAfter s.consecutiveLosses netMinor
    let l := s.life.onExitFilled s.config.cooldownNs tsNs
    let s := { s with
      consecutiveLosses := losses
      life := if losses ≥ s.config.maxConsecutiveLosses then l.halt else l
      closed := some (s.life.exitReason, s.life.position.side) }
    if s.flipPending then
      { s with forcedSide := s.flipSide, forcedSideValid := true, flipPending := false }
    else s

def step (s : ScalpFlip α) : L1Call α → ScalpFlip α
  | .onMarket symbolId book signals tsNs => (s.onMarket symbolId book signals tsNs).2
  | .onEntryFilled side volume priceTicks tsNs =>
    { s with life := s.life.onEntryFilled side volume priceTicks tsNs }
  | .onEntryRejected => { s with life := s.life.onEntryRejected }
  | .onExitFilled tsNs netMinor => s.onExitFilled tsNs netMinor
  | .onExitRejected => { s with life := s.life.onExitRejected }
  | .halt => { s with life := s.life.halt }

def after (config : ScalpFlipConfig α) (calls : List (L1Call α)) : ScalpFlip α :=
  Runs.run step { config := config } calls

omit [LE α] [LT α] [DecidableLE α] [DecidableLT α] [Zero α] [Neg α] in
theorem sound_onExitFilled {s : ScalpFlip α} (h : s.life.Sound) (tsNs : Nat) (netMinor : Int) :
    (s.onExitFilled tsNs netMinor).life.Sound := by
  have hclosed := h.onExitFilled s.config.cooldownNs tsNs
  unfold onExitFilled
  split
  · exact h
  · cases s.flipPending with
    | true => exact hclosed.haltIf _
    | false => exact hclosed.haltIf _

omit [LE α] [LT α] [DecidableLE α] [DecidableLT α] [Zero α] [Neg α] in
theorem onExitFilled_config (s : ScalpFlip α) (tsNs : Nat) (netMinor : Int) :
    (s.onExitFilled tsNs netMinor).config = s.config := by
  unfold onExitFilled
  split
  · rfl
  · cases s.flipPending with
    | true => rfl
    | false => rfl

omit [LE α] [LT α] [DecidableLE α] [DecidableLT α] [Zero α] [Neg α] in
theorem noteExit_frame (s : ScalpFlip α) (bid ask : Int) (reason : ExitReason) :
    (s.noteExit bid ask reason).config = s.config ∧ (s.noteExit bid ask reason).life = s.life ∧
      (s.noteExit bid ask reason).closed = s.closed ∧
      (s.noteExit bid ask reason).forcedSideValid = s.forcedSideValid ∧
      (s.noteExit bid ask reason).forcedSide = s.forcedSide := by
  unfold noteExit
  dsimp only
  split
  · exact ⟨rfl, rfl, rfl, rfl, rfl⟩
  · exact ⟨rfl, rfl, rfl, rfl, rfl⟩

/-- Everything a market call can do to the strategy as a whole. -/
inductive Turned (s : ScalpFlip α) (intent : Intent) (exit : ExitReason) : Intent × ScalpFlip α → Prop
  | exit (bid ask : Int) (inPosition : s.life.state = .inPosition) (active : s.life.position.active = true)
      (due : exit ≠ .none) :
      Turned s intent exit
        (s.life.clearVeto.exitIntent intent,
          { s.noteExit bid ask exit with life := s.life.clearVeto.emitExit exit })
  | hold (bid ask : Int) (inPosition : s.life.state = .inPosition) (due : exit = .none) :
      Turned s intent exit (intent, { s.noteExit bid ask exit with life := s.life.clearVeto })
  | refused {l : Lifecycle} (settled : Lifecycle.Settled s.life.clearVeto l) (veto : Veto) :
      Turned s intent exit (intent, { s with life := l.refuse veto })
  | entered {l : Lifecycle} (settled : Lifecycle.Settled s.life.clearVeto l) (idle : l.state = .idle)
      (flat : l.position.active = false) (signals : L1SignalSet α) :
      Turned s intent exit
        (Lifecycle.entryIntent intent (s.direction signals) s.config.volume,
          { s with forcedSideValid := false, life := l.emitEntry })

omit [LT α] [DecidableLT α] [Zero α] in
/-- A forced direction is never to stand aside. -/
theorem forcedSideValid_of_direction {s : ScalpFlip α} {signals : L1SignalSet α}
    (h : s.direction signals = 0) : s.forcedSideValid = false := by
  cases hforced : s.forcedSideValid with
  | false => rfl
  | true =>
    unfold direction at h
    rw [hforced, if_pos rfl] at h
    split at h
    · cases h
    · cases h

theorem turned (s : ScalpFlip α) (symbolId : Nat) (book : OrderBook) (signals : L1SignalSet α)
    (tsNs : Nat) :
    Turned s { strategyId := s.config.strategyId, symbolId := symbolId, tsNs := tsNs }
      (s.exitDue book.bestBid.priceTicks book.bestAsk.priceTicks signals tsNs)
      (s.onMarket symbolId book signals tsNs) := by
  unfold onMarket
  dsimp only
  split
  · exact Turned.refused (Or.inl rfl) .halted
  split
  · exact Turned.refused (Or.inl rfl) .coldSignals
  by_cases hheld : s.life.clearVeto.state = .inPosition ∧ s.life.clearVeto.position.active = true
  · rw [if_pos hheld]
    by_cases hdue : s.exitDue book.bestBid.priceTicks book.bestAsk.priceTicks signals tsNs = .none
    · unfold Lifecycle.gates
      rw [if_pos hheld, if_neg (not_not.mpr hdue)]
      exact Turned.hold _ _ hheld.1 hdue
    · rw [Lifecycle.gates_of_due hheld.1 hheld.2 hdue]
      exact Turned.exit _ _ hheld.1 hheld.2 hdue
  · rw [if_neg hheld]
    have hgated := Lifecycle.gated s.life.clearVeto
      { strategyId := s.config.strategyId, symbolId := symbolId, tsNs := tsNs }
      (s.exitDue book.bestBid.priceTicks book.bestAsk.priceTicks signals tsNs)
      (signals.warm &&& s.config.requiredSignals == s.config.requiredSignals) s.config.maxPositions tsNs
    generalize Lifecycle.gates s.life.clearVeto _ _ _ _ _ = r at hgated ⊢
    cases hgated with
    | exit inPosition active due => exact absurd ⟨inPosition, active⟩ hheld
    | hold inPosition active due => exact absurd ⟨inPosition, active⟩ hheld
    | refused settled veto => exact Turned.refused settled veto
    | passed settled idle flat =>
      dsimp only
      split
      · exact Turned.refused settled .spreadTooWide
      · split
        · rename_i hzero
          have hspent := forcedSideValid_of_direction hzero
          rw [← hspent]
          exact Turned.refused settled .signalBelowThreshold
        · exact Turned.entered settled idle flat signals

theorem decided (s : ScalpFlip α) (symbolId : Nat) (book : OrderBook) (signals : L1SignalSet α)
    (tsNs : Nat) :
    s.life.clearVeto.Decided { strategyId := s.config.strategyId, symbolId := symbolId, tsNs := tsNs }
        (s.exitDue book.bestBid.priceTicks book.bestAsk.priceTicks signals tsNs) s.config.volume
        ((s.onMarket symbolId book signals tsNs).1, (s.onMarket symbolId book signals tsNs).2.life) ∧
      (s.onMarket symbolId book signals tsNs).2.config = s.config := by
  have hturned := turned s symbolId book signals tsNs
  generalize s.onMarket symbolId book signals tsNs = r at hturned ⊢
  cases hturned with
  | exit bid ask inPosition active due =>
    exact ⟨Lifecycle.Decided.exit inPosition active due, (noteExit_frame s _ _ _).1⟩
  | hold bid ask inPosition due =>
    exact ⟨Lifecycle.Decided.hold inPosition due, (noteExit_frame s _ _ _).1⟩
  | refused settled veto => exact ⟨Lifecycle.Decided.refused settled veto, rfl⟩
  | entered settled idle flat signals => exact ⟨Lifecycle.Decided.entered settled idle flat _, rfl⟩

theorem sound_after (config : ScalpFlipConfig α) (calls : List (L1Call α)) :
    (after config calls).life.Sound ∧ (after config calls).config = config := by
  refine Runs.invariant_of_step (I := fun s : ScalpFlip α => s.life.Sound ∧ s.config = config)
    ?_ ⟨Lifecycle.sound_new, rfl⟩ calls
  rintro s c ⟨h, hconfig⟩
  cases c with
  | onMarket symbolId book signals tsNs =>
    obtain ⟨hdecided, hsame⟩ := decided s symbolId book signals tsNs
    exact ⟨h.clearVeto.decided hdecided, hsame.trans hconfig⟩
  | onEntryFilled side volume priceTicks tsNs => exact ⟨h.onEntryFilled side volume priceTicks tsNs, hconfig⟩
  | onEntryRejected => exact ⟨h.onEntryRejected, hconfig⟩
  | onExitFilled tsNs netMinor =>
    exact ⟨sound_onExitFilled h tsNs netMinor, (onExitFilled_config s tsNs netMinor).trans hconfig⟩
  | onExitRejected => exact ⟨h.onExitRejected, hconfig⟩
  | halt => exact ⟨h.halt, hconfig⟩

omit [LT α] [DecidableLT α] [Zero α] in
theorem exitDue_of_held {s : ScalpFlip α} {tsNs : Nat}
    (h : s.life.position.openedNs + s.config.maxHoldNs ≤ tsNs) (bid ask : Int) (signals : L1SignalSet α) :
    s.exitDue bid ask signals tsNs ≠ .none := by
  unfold exitDue
  dsimp only
  split
  · decide
  · rw [if_pos (OpenPosition.heldFor_eq h)]
    decide

theorem leftBy_onMarket_iff {s : ScalpFlip α} (h : s.life.Sound) (hvalid : s.config.valid = true)
    (hstate : s.life.state = .inPosition) {tsNs : Nat}
    (hheld : s.life.position.openedNs + s.config.maxHoldNs ≤ tsNs) (symbolId : Nat) (book : OrderBook)
    (signals : L1SignalSet α) :
    s.life.position.LeftBy (s.onMarket symbolId book signals tsNs).1 ↔ book.hasBothSides = true := by
  have hrunning : ¬ ((!s.config.valid) = true ∨ s.life.clearVeto.state = .halted) := by
    rw [hvalid, show s.life.clearVeto.state = .inPosition from hstate]
    decide
  unfold onMarket
  dsimp only
  rw [if_neg hrunning]
  cases hbook : book.hasBothSides with
  | false => exact ⟨fun hleft => absurd hleft.kind nofun, nofun⟩
  | true =>
    have hdue := exitDue_of_held hheld book.bestBid.priceTicks book.bestAsk.priceTicks signals
    rw [if_neg (by decide),
      Lifecycle.gates_of_due (l := s.life.clearVeto) hstate (h.active_inPosition hstate) hdue]
    exact ⟨fun _ => rfl, fun _ => ⟨rfl, rfl, rfl, rfl⟩⟩

end ScalpFlip

/-! ## The time stop -/

/-- In every run, and whatever the next market call brings, a position whose time is up is left with
that call exactly when the book has both sides. -/
theorem l1_time_stop_iff (config : L1ScalperConfig α) (flipConfig : ScalpFlipConfig α)
    (calls : List (L1Call α)) (symbolId : Nat) (book : OrderBook) (signals : L1SignalSet α) (tsNs : Nat) :
    (config.valid = true →
        (Mt5L1Scalper.after config calls).life.state = .inPosition →
        (Mt5L1Scalper.after config calls).life.position.openedNs + config.maxHoldNs ≤ tsNs →
        ((Mt5L1Scalper.after config calls).life.position.LeftBy
            ((Mt5L1Scalper.after config calls).onMarket symbolId book signals tsNs).1 ↔
          book.hasBothSides = true)) ∧
      (flipConfig.valid = true →
        (ScalpFlip.after flipConfig calls).life.state = .inPosition →
        (ScalpFlip.after flipConfig calls).life.position.openedNs + flipConfig.maxHoldNs ≤ tsNs →
        ((ScalpFlip.after flipConfig calls).life.position.LeftBy
            ((ScalpFlip.after flipConfig calls).onMarket symbolId book signals tsNs).1 ↔
          book.hasBothSides = true)) := by
  constructor
  · obtain ⟨hsound, hconfig⟩ := Mt5L1Scalper.sound_after config calls
    intro hvalid hstate hheld
    exact Mt5L1Scalper.leftBy_onMarket_iff hsound (by rw [hconfig]; exact hvalid) hstate
      (by rw [hconfig]; exact hheld) symbolId book signals
  · obtain ⟨hsound, hconfig⟩ := ScalpFlip.sound_after flipConfig calls
    intro hvalid hstate hheld
    exact ScalpFlip.leftBy_onMarket_iff hsound (by rw [hconfig]; exact hvalid) hstate
      (by rw [hconfig]; exact hheld) symbolId book signals

end

/-! ### A bid without an ask -/

/-- The configurations as the source has them by default. -/
def scalperConfig : L1ScalperConfig ℚ :=
  { entryMomentum := 2.0e-6, maxSpreadRatio := 1.5, minVolatility := 1.0e-7, maxVolatility := 5.0e-5
    minQuoteRate := 0.5 }

def flipConfig : ScalpFlipConfig ℚ := { entryMomentum := 5.0e-7, flipMomentum := 1.0e-6 }

def double (mantissa : Int) (exponent : Nat) : ℚ := mkRat mantissa (2 ^ exponent)

def quote (bid ask : Int) (seconds : Nat) (signals : L1SignalSet ℚ) : L1Call ℚ :=
  .onMarket 0 ⟨[⟨bid, 5⟩], [⟨ask, 5⟩]⟩ signals (seconds * 1000000000)

/-- What the signal engine returns for the `n`-th of equal quotes, one a second. -/
def warming (n : Nat) : L1SignalSet ℚ where
  spreadRatio := 1
  momentum := 0
  acceleration := 0
  volatility := 0
  quoteRate := if n < 2 then 0 else 1
  warm := if n < 2 then 1 else if n < 8 then 69 else if n < 33 then 71 else 111

/-- With the 33rd quote the engine has all the returns of its window. -/
def warmUp : List (L1Call ℚ) :=
  (List.range 33).map fun i => quote 100000 100002 (if i = 0 then 0 else i + 1) (warming (i + 1))

/-- What it returns for ten ticks up. -/
def rising : L1SignalSet ℚ :=
  ⟨1, double 3689127470164039 70, double 3689127470164039 70, double 5217214101629125 68, 1, 127⟩

/-- A long entered and filled. -/
def longEntry : List (L1Call ℚ) :=
  warmUp ++ [quote 100010 100012 34 rising, .onEntryFilled .buy 1 100012 34000000000]

theorem l1_time_stop_long :
    let book : OrderBook := ⟨[⟨100010, 5⟩], [⟨100012, 5⟩]⟩
    let still : L1SignalSet ℚ :=
      ⟨1, double 3689127470164039 70, 0, double 5217214101629125 68, double 471934092688525 52, 127⟩
    let scalper := Mt5L1Scalper.after scalperConfig longEntry
    let flip := ScalpFlip.after flipConfig longEntry
    scalper.life.position.LeftBy (scalper.onMarket 0 book still 334000000000).1 ∧
      flip.life.position.LeftBy (flip.onMarket 0 book still 334000000000).1 := by
  intro book still scalper flip
  obtain ⟨hscalper, hflip⟩ :=
    l1_time_stop_iff scalperConfig flipConfig longEntry 0 book still 334000000000
  exact ⟨(hscalper (by decide +kernel) (by decide +kernel) (by decide +kernel)).mpr rfl,
    (hflip (by decide +kernel) (by decide +kernel) (by decide +kernel)).mpr rfl⟩

/-- The signal engine is not asked about a book with one side. -/
theorem l1_time_stop_waits :
    let book : OrderBook := { bids := [⟨100010, 5⟩] }
    let scalper := Mt5L1Scalper.after scalperConfig longEntry
    let flip := ScalpFlip.after flipConfig longEntry
    (scalper.config.valid = true ∧ scalper.life.state = .inPosition ∧
        scalper.life.position.openedNs + scalper.config.maxHoldNs ≤ 334000000000 ∧
        (scalper.onMarket 0 book rising 334000000000).1.kind = .none) ∧
      (flip.config.valid = true ∧ flip.life.state = .inPosition ∧
        flip.life.position.openedNs + flip.config.maxHoldNs ≤ 334000000000 ∧
        (flip.onMarket 0 book rising 334000000000).1.kind = .none) := by
  decide +kernel

end MicrostructureEngine.Strategy
