import MicrostructureEngine.Exec.PaperBroker
import MicrostructureEngine.Risk.Engine
import MicrostructureEngine.Strategy.BaselineScalper

/-!
# The strategy in the replay loop

Recorded quotes go to the book, the paper broker and the strategy; an intent of the strategy goes
to the risk engine and, approved, to the broker as a market order. The engine follows one order at
a time, and tells the strategy what became of it at a later quote. The loop of `run` is a step
function over the events that the adapter delivers, on the local variables of `run`.
-/

namespace MicrostructureEngine.Replay

open Exec (PaperBroker BrokerConfig OrderRequest SimulationMode)
open Strategy (BaselineScalper StrategyConfig SignalSet ExitReason)

set_option autoImplicit false

universe u

/-! ## Events and the quoted book -/

/-- `signals` is what the signal engine of the strategy computes from the book that the quote
leaves, the features and its own past. -/
structure Quote (α : Type u) where
  symbolId : Nat
  tsNs : Nat
  seqGlobal : UInt64
  bid : Int
  ask : Int
  bidSize : Int
  askSize : Int
  signals : SignalSet α
  deriving DecidableEq, Repr

/-- A quote, or an event of another type. Heartbeats name the source of the book, which the
features are computed with. -/
inductive Event (α : Type u) where
  | quote (q : Quote α)
  | other
  deriving DecidableEq, Repr

structure SymbolLimits where
  minPriceTicks : Int := 1
  maxPriceTicks : Int := 2 ^ 56
  maxSpreadTicks : Int := 2 ^ 40
  maxSize : Int := 2 ^ 56
  deriving DecidableEq, Repr

namespace SymbolLimits

def priceInRange (limits : SymbolLimits) (price : Int) : Bool :=
  decide (price ≥ limits.minPriceTicks) && decide (price ≤ limits.maxPriceTicks)

def sizeInRange (limits : SymbolLimits) (size : Int) : Bool :=
  decide (size ≥ 0) && decide (size ≤ limits.maxSize)

end SymbolLimits

/-- The quote is the book: one level a side. A rejected quote leaves the book as it was. -/
def applyQuote (limits : SymbolLimits) (b : Strategy.OrderBook) (bid ask bidSize askSize : Int) :
    Strategy.OrderBook :=
  if !limits.priceInRange bid || !limits.priceInRange ask || !limits.sizeInRange bidSize ||
      !limits.sizeInRange askSize then b
  else if ask - bid > limits.maxSpreadTicks then b
  else ⟨[⟨bid, bidSize⟩], [⟨ask, askSize⟩]⟩

/-! ## Trades -/

structure TradeRecord where
  side : Side := .buy
  volume : Int := 0
  entryTicks : Int := 0
  exitTicks : Int := 0
  pnlMinor : Int := 0
  commissionMinor : Int := 0
  openedNs : Nat := 0
  closedNs : Nat := 0
  reason : ExitReason := .none
  deriving DecidableEq, Repr

def TradeRecord.netMinor (t : TradeRecord) : Int := t.pnlMinor - t.commissionMinor

def maxTrackedTrades : Nat := 4096

structure TradeStatistics where
  trades : List TradeRecord := []
  cumulative : Int := 0
  peak : Int := 0
  maxDrawdown : Int := 0
  overflowed : Bool := false
  deriving DecidableEq, Repr

/-- A full log refuses the trade and says so. -/
def TradeStatistics.add (s : TradeStatistics) (trade : TradeRecord) : TradeStatistics :=
  if s.trades.length ≥ maxTrackedTrades then { s with overflowed := true }
  else
    let cumulative := s.cumulative + trade.netMinor
    let peak := if cumulative > s.peak then cumulative else s.peak
    let drawdown := peak - cumulative
    { s with
      trades := s.trades ++ [trade]
      cumulative := cumulative
      peak := peak
      maxDrawdown := if drawdown > s.maxDrawdown then drawdown else s.maxDrawdown }

/-- Realised PnL of a round trip. -/
def tradePnlMinor (side : Side) (volume entryTicks exitTicks tickValueMinor : Int) : Int :=
  let move := if side = .buy then exitTicks - entryTicks else entryTicks - exitTicks
  move * volume * tickValueMinor

/-! ## The engine -/

/-- `feed::mt5::symbol_count` -/
def symbolCount : Nat := 5

structure StrategyReplayConfig (α : Type u) where
  strategy : StrategyConfig α
  limits : Risk.Limits := {}
  mode : SimulationMode := .pessimistic
  runSeed : UInt64 := 20260731
  runId : UInt64 := 1
  initialBalanceMinor : Int := 1000000000
  tickValueMinor : Int := 1
  tradeSymbol : Nat := 0

namespace StrategyReplayConfig

variable {α : Type u}

def brokerConfig (c : StrategyReplayConfig α) : BrokerConfig :=
  { runId := c.runId, runSeed := c.runSeed, mode := c.mode, hedging := true,
    initialBalanceMinor := c.initialBalanceMinor, queueValidated := false }

def symbolSpec (c : StrategyReplayConfig α) (symbolId : Nat) : SymbolSpec :=
  { symbolId := symbolId, tickSizeTicks := 1, volumeMin := 1, volumeMax := 1000000, volumeStep := 1,
    contractSize := 100000, tickValueMinor := c.tickValueMinor, commissionPerLotMinor := 700,
    marginRateBp := 1, tradable := true }

def broker (c : StrategyReplayConfig α) : PaperBroker :=
  (List.range (min symbolCount maxSymbols)).foldl (fun b i => b.setSymbol (c.symbolSpec i))
    (PaperBroker.new c.brokerConfig)

end StrategyReplayConfig

/-- What `run` counts. -/
structure StrategyReplayResult where
  events : Nat := 0
  quotes : Nat := 0
  intents : Nat := 0
  entries : Nat := 0
  exits : Nat := 0
  riskRejects : Nat := 0
  brokerRejects : Nat := 0
  fills : Nat := 0
  deriving DecidableEq, Repr

/-- The local variables of `run`; `working` is the leg that the strategy is working. -/
structure StrategyReplayEngine (α : Type u) where
  config : StrategyReplayConfig α
  books : Nat → Strategy.OrderBook := fun _ => {}
  scalper : BaselineScalper α
  broker : PaperBroker
  statistics : TradeStatistics := {}
  orderSeq : UInt64 := 0
  lastOrderNs : Nat := 0
  entryInFlight : Bool := false
  working : BrokerOrderRef := {}
  pending : TradeRecord := {}
  result : StrategyReplayResult := {}

namespace StrategyReplayEngine

variable {α : Type u}

def start (config : StrategyReplayConfig α) : StrategyReplayEngine α :=
  { config := config, scalper := { config := config.strategy }, broker := config.broker }

def counted (s : StrategyReplayEngine α) : StrategyReplayEngine α :=
  { s with result := { s.result with events := s.result.events + 1 } }

/-! ## The market -/

/-- The quote goes to the book of its symbol and to the broker. -/
def observe (s : StrategyReplayEngine α) (q : Quote α) : StrategyReplayEngine α :=
  { s with
    books := Function.update s.books q.symbolId
      (applyQuote {} (s.books q.symbolId) q.bid q.ask q.bidSize q.askSize)
    broker := s.broker.onQuote q.symbolId q.bid q.ask q.bidSize q.askSize q.tsNs
    result := { s.result with quotes := s.result.quotes + 1 } }

/-! ## The working order -/

def entryFilled (s : StrategyReplayEngine α) (o : Order) (tsNs : Nat) : StrategyReplayEngine α :=
  { s with
    scalper := { s.scalper with
      life := s.scalper.life.onEntryFilled o.side o.filledVolume o.avgFillPriceTicks tsNs }
    pending :=
      { side := o.side, volume := o.filledVolume, entryTicks := o.avgFillPriceTicks, openedNs := tsNs,
        commissionMinor := o.commissionMinor } }

def exitFilled (s : StrategyReplayEngine α) (o : Order) (tsNs : Nat) : StrategyReplayEngine α :=
  let trade : TradeRecord :=
    { s.pending with
      exitTicks := o.avgFillPriceTicks
      closedNs := tsNs
      commissionMinor := s.pending.commissionMinor + o.commissionMinor
      reason := s.scalper.life.exitReason
      pnlMinor := tradePnlMinor s.pending.side s.pending.volume s.pending.entryTicks o.avgFillPriceTicks
        s.config.tickValueMinor }
  { s with
    pending := trade
    statistics := s.statistics.add trade
    scalper := { s.scalper with
      life := s.scalper.life.onExitFilled s.scalper.config.cooldownNs tsNs } }

/-- `on_entry_rejected` or `on_exit_rejected`. -/
def rejected (s : StrategyReplayEngine α) (entering : Bool) : StrategyReplayEngine α :=
  { s with
    scalper := { s.scalper with
      life := if entering then s.scalper.life.onEntryRejected else s.scalper.life.onExitRejected } }

/-- What becomes of a working order that has ended. -/
def ended (s : StrategyReplayEngine α) (o : Order) (tsNs : Nat) : StrategyReplayEngine α :=
  if o.state = .filled then
    let s := if s.entryInFlight then s.entryFilled o tsNs else s.exitFilled o tsNs
    { s with working := {}, result := { s.result with fills := s.result.fills + 1 } }
  else
    let s := s.rejected s.entryInFlight
    { s with working := {}, result := { s.result with brokerRejects := s.result.brokerRejects + 1 } }

/-- A working order is resolved before the strategy decides again. -/
def resolve (s : StrategyReplayEngine α) (tsNs : Nat) : StrategyReplayEngine α :=
  if s.working.logicalOrderId = 0 then s
  else
    match s.broker.findOrder s.working with
    | none => s
    | some o => if o.state.isTerminal then s.ended o tsNs else s

/-! ## The decision -/

def riskRequest (s : StrategyReplayEngine α) (intent : Strategy.Intent) (tsNs : Nat) : Risk.Request :=
  { symbolId := intent.symbolId, strategyId := intent.strategyId, side := intent.side,
    volume := intent.volume, riskMinor := 1, freeMargin := s.broker.books.account.freeMarginMinor,
    warmMask := s.config.limits.requiredWarmMask, sessionOpen := true, nowNs := tsNs,
    lastOrderNs := s.lastOrderNs, reduceOnly := false, hedging := true }

/-- `reduce_only` of the intent does not reach the order. -/
def orderRequest (s : StrategyReplayEngine α) (intent : Strategy.Intent) (seqGlobal : UInt64) :
    OrderRequest :=
  { corrId := seqGlobal, strategyId := UInt32.ofNat intent.strategyId, symbolId := intent.symbolId,
    side := intent.side, type := .market, volume := intent.volume, seqGlobal := s.orderSeq }

/-- An intent passes the risk engine and becomes the working order, or the strategy is told. -/
def submit (s : StrategyReplayEngine α) (intent : Strategy.Intent) (q : Quote α) : StrategyReplayEngine α :=
  let entering := decide (intent.kind = .enter)
  if Risk.RiskEngine.check { limits := s.config.limits } (s.riskRequest intent q.tsNs) ≠ .none then
    { s with result := { s.result with riskRejects := s.result.riskRejects + 1 } }.rejected entering
  else
    let r := s.broker.submit (s.orderRequest intent q.seqGlobal) q.tsNs
    let s := { s with orderSeq := s.orderSeq + 1, broker := r.2 }
    if !r.1.accepted then
      { s with result := { s.result with brokerRejects := s.result.brokerRejects + 1 } }.rejected entering
    else
      { s with
        working := r.1.ref
        entryInFlight := entering
        lastOrderNs := q.tsNs
        result :=
          if entering then { s.result with entries := s.result.entries + 1 }
          else { s.result with exits := s.result.exits + 1 } }

section

variable [LE α] [LT α] [DecidableLE α] [DecidableLT α] [Zero α] [One α] [Neg α]

/-- The strategy decides on the symbol it trades, one working order at a time. -/
def onMarket (s : StrategyReplayEngine α) (q : Quote α) : StrategyReplayEngine α :=
  if q.symbolId ≠ s.config.tradeSymbol then s
  else if s.working.logicalOrderId ≠ 0 then s
  else
    let d := s.scalper.onMarket q.symbolId (s.books q.symbolId) q.signals q.tsNs
    let s := { s with scalper := d.2 }
    if d.1.kind = .none then s
    else submit { s with result := { s.result with intents := s.result.intents + 1 } } d.1 q

/-! ## The loop -/

/-- The engine between the two halves of the loop's body: the quote is observed and the working
order resolved. -/
def resolved (s : StrategyReplayEngine α) : Event α → StrategyReplayEngine α
  | .quote q => if q.symbolId ≥ symbolCount then s.counted else (s.counted.observe q).resolve q.tsNs
  | .other => s.counted

/-- The body of the loop in `run`, for one event. -/
def step (s : StrategyReplayEngine α) (e : Event α) : StrategyReplayEngine α :=
  match e with
  | .quote q => if q.symbolId ≥ symbolCount then s.resolved e else (s.resolved e).onMarket q
  | .other => s.resolved e

/-- The engine after the events of a recording. -/
def run (config : StrategyReplayConfig α) (events : List (Event α)) : StrategyReplayEngine α :=
  Runs.run step (start config) events

end

end StrategyReplayEngine

end MicrostructureEngine.Replay
