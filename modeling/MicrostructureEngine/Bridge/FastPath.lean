import MicrostructureEngine.Bridge.PositionAgreement
import MicrostructureEngine.Replay.StrategyReplayEngine
import MicrostructureEngine.Strategy.L1Scalpers

/-!
# The fast execution path

The paper-trading runtime with the MT5 bridge: `ScalpFlip` decides on the top of book that the expert
advisor publishes, the risk engine and the paper broker take its intents, and what they accept becomes
a command for the terminal. The recorded quotes go to the books and to the broker, but the strategy
does not decide on them here. Clocks, the answers of the file system and what the signal engine
computes are arguments of a pass.
-/

namespace MicrostructureEngine.Bridge

open Exec (PaperBroker BrokerConfig OrderRequest)
open Replay (TradeRecord TradeStatistics applyQuote tradePnlMinor symbolCount)
open Strategy (ScalpFlip ScalpFlipConfig L1SignalSet Intent OpenPosition)

set_option autoImplicit false

universe u

/-! ## What a pass finds -/

structure LiveTick where
  bidTicks : Int := 0
  askTicks : Int := 0
  timeMsc : Int := 0
  deriving DecidableEq, Repr

def LiveTick.valid (t : LiveTick) : Bool := decide (t.bidTicks > 0) && decide (t.askTicks > t.bidTicks)

/-- `ackReads` and `tick` are what the files have for the runtime: a line with a status, and the four
fields of a tick. `retryOpens` and `opens` say whether the command file opens, to be sent again and to
be written; a pass does either at most once. The four clocks are read in the order of the fields. -/
structure Pass (α : Type u) where
  ackReads : Bool
  retryOpens : Bool
  retryNs : UInt64
  tick : Option LiveTick
  freshNs : UInt64
  nowNs : UInt64
  signals : L1SignalSet α
  opens : Bool
  sentNs : UInt64

/-! ## The bridge as the runtime asks it -/

namespace BridgeState

def flat (b : BridgeState) : Bool := decide (b.position = .flat)

def netVolume (b : BridgeState) (lot : Int) : Int :=
  match b.position with
  | .longSide => lot
  | .shortSide => -lot
  | .flat => 0

def holds (b : BridgeState) (side : Side) : Bool :=
  if side = .buy then decide (b.position = .longSide) else decide (b.position = .shortSide)

end BridgeState

def System.mismatched (s : System) : System :=
  { s with bridge := { s.bridge with mismatches := s.bridge.mismatches + 1 } }

/-! ## The runtime -/

structure RuntimeCounts where
  quotes : Nat := 0
  fastTicks : Nat := 0
  intents : Nat := 0
  entries : Nat := 0
  exits : Nat := 0
  vetoes : Nat := 0
  riskRejects : Nat := 0
  brokerRejects : Nat := 0
  fills : Nat := 0
  spreadPaidTicks : Int := 0
  rearms : Nat := 0
  deferred : Nat := 0
  blocked : Nat := 0
  deriving DecidableEq, Repr

/-- `system` has `rt.bridge` and `rt.bridge_seq`, with the two files and the terminal behind them. -/
structure Runtime (α : Type u) where
  tradeSymbol : Nat := 0
  flipConfig : ScalpFlipConfig α
  flip : ScalpFlip α
  risk : Risk.RiskEngine := {}
  broker : PaperBroker
  books : Nat → Strategy.OrderBook := fun _ => {}
  system : System := {}
  working : BrokerOrderRef := {}
  entryInFlight : Bool := false
  pending : TradeRecord := {}
  statistics : TradeStatistics := {}
  orderSeq : UInt64 := 0
  lastTickMsc : Int := 0
  lastTickWallNs : UInt64 := 0
  counts : RuntimeCounts := {}

namespace Runtime

variable {α : Type u}

/-! ### The working order -/

def rejected (s : Runtime α) (entering : Bool) : Runtime α :=
  { s with
    flip := { s.flip with
      life := if entering then s.flip.life.onEntryRejected else s.flip.life.onExitRejected } }

def entryFilled (s : Runtime α) (commission : Order → Int) (o : Order) (tsNs : Nat) : Runtime α :=
  { s with
    flip := { s.flip with
      life := s.flip.life.onEntryFilled o.side o.filledVolume o.avgFillPriceTicks tsNs }
    pending :=
      { side := o.side, volume := o.filledVolume, entryTicks := o.avgFillPriceTicks, openedNs := tsNs,
        commissionMinor := commission o } }

def exitFilled (s : Runtime α) (commission : Order → Int) (o : Order) (tsNs : Nat) : Runtime α :=
  let trade : TradeRecord :=
    { s.pending with
      exitTicks := o.avgFillPriceTicks
      closedNs := tsNs
      commissionMinor := s.pending.commissionMinor + commission o
      reason := s.flip.life.exitReason
      pnlMinor := tradePnlMinor s.pending.side s.pending.volume s.pending.entryTicks o.avgFillPriceTicks 1 }
  { s with
    pending := trade
    statistics := s.statistics.add trade
    flip := s.flip.onExitFilled tsNs trade.netMinor }

/-- What becomes of a working order that has ended. Recorded quotes charge the order's commission to
the trade and count the spread; the fast path does neither. -/
def ended (s : Runtime α) (commission : Order → Int) (spreadTicks : Int) (o : Order) (tsNs : Nat) :
    Runtime α :=
  if o.state = .filled then
    let s := if s.entryInFlight then s.entryFilled commission o tsNs else s.exitFilled commission o tsNs
    { s with
      working := {}
      counts := { s.counts with
        fills := s.counts.fills + 1, spreadPaidTicks := s.counts.spreadPaidTicks + spreadTicks } }
  else
    let s := s.rejected s.entryInFlight
    { s with working := {}, counts := { s.counts with brokerRejects := s.counts.brokerRejects + 1 } }

def settle (s : Runtime α) (commission : Order → Int) (spreadTicks : Int) (tsNs : Nat) : Runtime α :=
  if s.working.logicalOrderId = 0 then s
  else
    match s.broker.findOrder s.working with
    | none => s
    | some o => if o.state.isTerminal then s.ended commission spreadTicks o tsNs else s

/-! ### The recorded quotes -/

/-- A quote of the log. With the bridge live the strategy does not decide on it. -/
def onQuote (s : Runtime α) (symbolId : Nat) (bid ask bidSize askSize : Int) (tsNs : Nat) : Runtime α :=
  if symbolId ≥ symbolCount then s
  else
    let s := { s with
      books := Function.update s.books symbolId (applyQuote {} (s.books symbolId) bid ask bidSize askSize)
      broker := s.broker.onQuote symbolId bid ask bidSize askSize tsNs
      counts := { s.counts with quotes := s.counts.quotes + 1 } }
    s.settle Order.commissionMinor (ask - bid) tsNs

/-! ### The pass -/

def polled (s : Runtime α) (p : Pass α) : Runtime α :=
  if p.ackReads then { s with system := s.system.pollAck } else s

def listened (s : Runtime α) (p : Pass α) : Runtime α :=
  let s := s.polled p
  if p.retryOpens then { s with system := s.system.retryIfTimedOut p.retryNs } else s

/-- The broker's clock at the last tick, and the time that has gone by since. -/
def tsNs (s : Runtime α) (t : LiveTick) (p : Pass α) : Nat :=
  (UInt64.ofInt t.timeMsc * 1000000 + (p.nowNs - s.lastTickWallNs)).toNat

/-- A new tick goes to the book; the broker is marked at every pass. -/
def observed (s : Runtime α) (t : LiveTick) (p : Pass α) : Runtime α :=
  let s :=
    if t.timeMsc ≠ s.lastTickMsc then
      { s with
        lastTickMsc := t.timeMsc
        lastTickWallNs := p.freshNs
        books := Function.update s.books s.tradeSymbol
          (applyQuote {} (s.books s.tradeSymbol) t.bidTicks t.askTicks 0 0)
        counts := { s.counts with fastTicks := s.counts.fastTicks + 1 } }
    else s
  { s with broker := s.broker.onQuote s.tradeSymbol t.bidTicks t.askTicks 0 0 (s.tsNs t p) }

/-- The runtime once the tick has been taken and the working order settled. -/
def arrived (s : Runtime α) (t : LiveTick) (p : Pass α) : Runtime α :=
  let s := (s.listened p).observed t p
  s.settle (fun _ => 0) 0 (s.tsNs t p)

/-- The close that resolves a position on one side only, or on different sides. -/
def reconcileClose (s : Runtime α) (p : Pass α) : Runtime α :=
  if p.opens then
    { s with system := (s.system.send .close false s.system.bridge.pendingSide 1 p.sentNs).mismatched }
  else s

/-- A position that the terminal does not hold is discarded with the strategy that believes in it. -/
def resetStrategy (s : Runtime α) : Runtime α :=
  { s with
    system := s.system.mismatched
    flip := { config := s.flipConfig }
    counts := { s.counts with rearms := s.counts.rearms + 1 } }

def meaningful (s : Runtime α) (entering : Bool) : Bool :=
  if entering then s.system.bridge.flat else !s.system.bridge.flat

def riskRequest (s : Runtime α) (intent : Intent) (t : LiveTick) (p : Pass α) : Risk.Request :=
  { symbolId := s.tradeSymbol, strategyId := intent.strategyId, side := intent.side,
    volume := intent.volume, riskMinor := 1, freeMargin := s.broker.books.account.freeMarginMinor,
    spread := t.askTicks - t.bidTicks, warmMask := s.risk.limits.requiredWarmMask, sessionOpen := true,
    nowNs := s.tsNs t p, hedging := true, reduceOnly := intent.reduceOnly,
    currentNet := s.system.bridge.netVolume intent.volume, positionOwnerStrategy := intent.strategyId }

def orderRequest (s : Runtime α) (intent : Intent) : OrderRequest :=
  { corrId := s.orderSeq, strategyId := UInt32.ofNat intent.strategyId, symbolId := s.tradeSymbol,
    side := intent.side, type := .market, volume := intent.volume, seqGlobal := s.orderSeq,
    reduceOnly := intent.reduceOnly }

/-- The accepted intent as a command of the terminal. -/
def command (s : Runtime α) (intent : Intent) (entering : Bool) (p : Pass α) : Runtime α :=
  if p.opens then
    { s with
      system := s.system.send (if entering then .enter intent.side else .close) entering intent.side 1
        p.sentNs }
  else s

/-- An intent passes the bridge's position, the risk engine and the broker, or the strategy is told. -/
def raised (s : Runtime α) (intent : Intent) (t : LiveTick) (p : Pass α) : Runtime α :=
  let entering := decide (intent.kind = .enter)
  if !s.meaningful entering then
    { s with counts := { s.counts with deferred := s.counts.deferred + 1 } }.rejected entering
  else if s.risk.check (s.riskRequest intent t p) ≠ .none then
    { s with counts := { s.counts with riskRejects := s.counts.riskRejects + 1 } }.rejected entering
  else
    let r := s.broker.submit (s.orderRequest intent) (s.tsNs t p)
    let s := { s with orderSeq := s.orderSeq + 1, broker := r.2 }
    if !r.1.accepted then
      { s with counts := { s.counts with brokerRejects := s.counts.brokerRejects + 1 } }.rejected entering
    else
      { s with
        working := r.1.ref
        entryInFlight := entering
        counts :=
          if entering then { s.counts with entries := s.counts.entries + 1 }
          else { s.counts with exits := s.counts.exits + 1 } }.command intent entering p

section

variable [LE α] [LT α] [DecidableLE α] [DecidableLT α] [Zero α] [Neg α]

def intent (s : Runtime α) (t : LiveTick) (p : Pass α) : Intent :=
  (s.flip.onMarket s.tradeSymbol (s.books s.tradeSymbol) p.signals (s.tsNs t p)).1

def asked (s : Runtime α) (t : LiveTick) (p : Pass α) : Runtime α :=
  { s with flip := (s.flip.onMarket s.tradeSymbol (s.books s.tradeSymbol) p.signals (s.tsNs t p)).2 }

def decision (s : Runtime α) (t : LiveTick) (p : Pass α) : Runtime α :=
  if (s.intent t p).kind = .none then
    { s.asked t p with counts := { s.counts with vetoes := s.counts.vetoes + 1 } }
  else
    { s.asked t p with counts := { s.counts with intents := s.counts.intents + 1 } }.raised
      (s.intent t p) t p

/-- One working order and one command at a time, and a position on both sides or on neither. -/
def asks (s : Runtime α) : Bool :=
  decide (s.working.logicalOrderId = 0) && !s.system.bridge.inFlight &&
    (s.system.bridge.flat == !s.flip.life.position.active) &&
    (s.system.bridge.flat || s.system.bridge.holds s.flip.life.position.side)

/-- The rest of a pass that has a tick: one command at a time, then the two positions, and only when
they agree the strategy. -/
def resolved (s : Runtime α) (t : LiveTick) (p : Pass α) : Runtime α :=
  if s.working.logicalOrderId ≠ 0 then s
  else if s.system.bridge.inFlight then
    { s with counts := { s.counts with blocked := s.counts.blocked + 1 } }
  else if !s.system.bridge.flat && !s.flip.life.position.active then s.reconcileClose p
  else if !s.system.bridge.flat && s.flip.life.position.active &&
      !s.system.bridge.holds s.flip.life.position.side then s.reconcileClose p
  else if s.system.bridge.flat && s.flip.life.position.active then s.resetStrategy
  else s.decision t p

/-- One turn of the loop over the live ticks. Without a tick it goes no further than the files. -/
def pass (s : Runtime α) (p : Pass α) : Runtime α :=
  match p.tick.filter LiveTick.valid with
  | none => s.listened p
  | some t => (s.arrived t p).resolved t p

end

end Runtime

/-! ## The runtime and the terminal -/

/-- A pass of the fast path, a recorded quote, the halt on a stale feed, a timer call of the expert
advisor, and the broker closing the position at an index at its stop or its target. -/
inductive Event (α : Type u) where
  | pass (p : Pass α)
  | quote (symbolId : Nat) (bid ask bidSize askSize : Int) (tsNs : Nat)
  | halt
  | timer (t : Terminal) (opens : Bool)
  | stopOut (index : Nat)

def System.stopOut (s : System) (index : Nat) : System := { s with positions := s.positions.eraseIdx index }

namespace Runtime

variable {α : Type u} [LE α] [LT α] [DecidableLE α] [DecidableLT α] [Zero α] [Neg α]

def step (inputs : Inputs) (s : Runtime α) : Event α → Runtime α
  | .pass p => s.pass p
  | .quote symbolId bid ask bidSize askSize tsNs => s.onQuote symbolId bid ask bidSize askSize tsNs
  | .halt => { s with flip := { s.flip with life := s.flip.life.halt } }
  | .timer t opens => { s with system := s.system.timer inputs t opens }
  | .stopOut index => { s with system := s.system.stopOut index }

end Runtime

def paperBroker : PaperBroker :=
  let config : BrokerConfig :=
    { runId := 1, runSeed := 20260731, mode := .pessimistic, hedging := true,
      initialBalanceMinor := 1000000000, queueValidated := false }
  let spec (symbolId : Nat) : SymbolSpec :=
    { symbolId := symbolId, tickSizeTicks := 1, volumeMin := 1, volumeMax := 1000000, volumeStep := 1,
      contractSize := 100000, tickValueMinor := 1, commissionPerLotMinor := 700, marginRateBp := 1,
      tradable := true }
  (List.range (min symbolCount maxSymbols)).foldl (fun b i => b.setSymbol (spec i)) (PaperBroker.new config)

end MicrostructureEngine.Bridge
