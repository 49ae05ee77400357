import MicrostructureEngine.Exec.Types

/-!
# Pre-trade checks

`RiskEngine::check` with its limits, and the standing approval that `ShardedOms` asks for
before every create. The approval token has no content, so a decision is its reject code.
-/

namespace MicrostructureEngine.Risk

set_option autoImplicit false

inductive HaltReason where
  | none
  | dailyLoss
  | drawdown
  | consecutiveLosses
  | feedStale
  | sequenceGap
  | backpressure
  | latency
  | rejectRate
  | disconnected
  | reconciliation
  | instanceLock
  | staleEpoch
  | disk
  | manualKill
  | controlKill
  deriving DecidableEq, Repr, Inhabited

inductive Reject where
  | none
  | halted
  | invalidConfiguration
  | invalidArithmetic
  | riskPerTrade
  | position
  | gross
  | net
  | leverage
  | margin
  | openOrders
  | inFlight
  | rateSecond
  | rateMinute
  | fillsMinute
  | tradesDay
  | cadence
  | spread
  | slippage
  | fatFinger
  | symbol
  | session
  | reduceOnly
  | coldFeatures
  | selfTrade
  deriving DecidableEq, Repr, Inhabited

structure Limits where
  maxRiskPerTrade : Int := 100000
  maxPositionPerSymbol : Int := 1000000
  maxGrossExposure : Int := 5000000
  maxNetExposure : Int := 3000000
  maxLeverageBp : Int := 100000
  adverseShockBp : Int := 200
  maxOpenOrders : Nat := 256
  maxInFlightPerSymbol : Nat := 32
  maxOrderRequestsPerSecond : Nat := 1000
  maxOrdersPerMinute : Nat := 10000
  maxFillsPerMinute : Nat := 10000
  maxTradesPerDay : Nat := 100000
  minTimeBetweenOrdersNs : Nat := 0
  maxSpreadTicks : Int := 100
  maxSlippageTicks : Int := 100
  maxOrderVolume : Int := 100000
  maxDailyLoss : Int := 1000000
  maxDrawdownBp : Nat := 2000
  maxConsecutiveLosses : Nat := 10
  maxStalenessMs : Nat := 1000
  maxRejectRateBp : Nat := 1000
  minFreeBytes : Nat := 1073741824
  requiredWarmMask : UInt64 := 1
  symbolAllowed : List Bool := [true, true, true, true, true, false, false, false]
  allowCrossStrategyOpposition : Bool := false

def selfTest (x : Limits) : Bool :=
  decide (x.maxRiskPerTrade > 0) && decide (x.maxPositionPerSymbol > 0) &&
  decide (x.maxGrossExposure > 0) && decide (x.maxNetExposure > 0) &&
  decide (x.maxGrossExposure ≥ x.maxNetExposure) && decide (x.maxLeverageBp > 0) &&
  decide (x.adverseShockBp > 0) && decide (x.maxOpenOrders > 0) &&
  decide (x.maxInFlightPerSymbol > 0) &&
  decide (x.maxOrderRequestsPerSecond > 0) && decide (x.maxOrdersPerMinute > 0) &&
  decide (x.maxOrdersPerMinute ≥ x.maxOrderRequestsPerSecond) &&
  decide (x.maxFillsPerMinute > 0) && decide (x.maxTradesPerDay > 0) &&
  decide (x.maxSpreadTicks > 0) && decide (x.maxSlippageTicks > 0) &&
  decide (x.maxOrderVolume > 0) && decide (x.maxDailyLoss > 0) &&
  decide (x.maxDrawdownBp > 0) && decide (x.maxDrawdownBp < 10000) &&
  decide (x.maxConsecutiveLosses > 0) && decide (x.maxStalenessMs > 0) &&
  decide (x.maxRejectRateBp > 0) && decide (x.maxRejectRateBp ≤ 10000) &&
  decide (x.minFreeBytes > 0) && x.requiredWarmMask != 0

structure Request where
  symbolId : Nat := 0
  strategyId : Nat := 0
  side : Side := .buy
  volume : Int := 0
  riskMinor : Int := 0
  projectedPosition : Int := 0
  projectedGross : Int := 0
  projectedNet : Int := 0
  notional : Int := 0
  orderMargin : Int := 0
  freeMargin : Int := 0
  leverageBp : Int := 0
  spread : Int := 0
  slippage : Int := 0
  openOrders : Nat := 0
  inFlight : Nat := 0
  requestsSecond : Nat := 0
  ordersMinute : Nat := 0
  fillsMinute : Nat := 0
  tradesDay : Nat := 0
  nowNs : Nat := 0
  lastOrderNs : Nat := 0
  warmMask : UInt64 := 0
  sessionOpen : Bool := true
  reduceOnly : Bool := false
  currentNet : Int := 0
  positionOwnerStrategy : Nat := 0
  hedging : Bool := false

def int64Max : Int := 2 ^ 63 - 1

def int64Min : Int := -2 ^ 63

/-- C++ integer division; both operands are positive where it is used. -/
def projectedFreeMargin (freeMargin orderMargin notional shockBp : Int) : Int :=
  if freeMargin < 0 ∨ orderMargin < 0 ∨ notional < 0 ∨ shockBp < 0 then -1
  else if shockBp ≠ 0 ∧ notional > (int64Max - 9999) / shockBp then -1
  else
    let shock := (notional * shockBp + 9999) / 10000
    if orderMargin > freeMargin ∨ shock > freeMargin - orderMargin then -1
    else freeMargin - orderMargin - shock

def selfTradeOk (hedging allowOpposition : Bool) (ownerStrategy incomingStrategy : Nat)
    (currentNet : Int) (incomingSide : Side) : Bool :=
  if !hedging || allowOpposition || currentNet == 0 || ownerStrategy == incomingStrategy then true
  else (decide (currentNet > 0) && incomingSide == .buy) ||
    (decide (currentNet < 0) && incomingSide == .sell)

structure RiskEngine where
  limits : Limits := {}
  halted : Bool := false
  haltReason : HaltReason := .none

namespace RiskEngine

def valid (e : RiskEngine) : Bool := selfTest e.limits

def halt (e : RiskEngine) (r : HaltReason) : RiskEngine := { e with halted := true, haltReason := r }

/-- The first check that fails, in the order of the source; `none` approves. -/
def check (e : RiskEngine) (r : Request) : Reject :=
  if !e.valid then .invalidConfiguration
  else if e.halted then .halted
  else if r.projectedPosition = int64Min ∨ r.projectedNet = int64Min ∨ r.notional < 0 ∨
      r.orderMargin < 0 ∨ r.freeMargin < 0 ∨ r.riskMinor < 0 ∨ r.projectedGross < 0 ∨
      r.leverageBp < 0 ∨ r.spread < 0 ∨ r.slippage < 0 ∨
      (r.lastOrderNs ≠ 0 ∧ r.nowNs < r.lastOrderNs) then .invalidArithmetic
  else if r.riskMinor > e.limits.maxRiskPerTrade then .riskPerTrade
  else if (r.projectedPosition.natAbs : Int) > e.limits.maxPositionPerSymbol then .position
  else if r.projectedGross > e.limits.maxGrossExposure then .gross
  else if (r.projectedNet.natAbs : Int) > e.limits.maxNetExposure then .net
  else if r.leverageBp > e.limits.maxLeverageBp then .leverage
  else if projectedFreeMargin r.freeMargin r.orderMargin r.notional e.limits.adverseShockBp < 0 then .margin
  else if r.openOrders ≥ e.limits.maxOpenOrders then .openOrders
  else if r.inFlight ≥ e.limits.maxInFlightPerSymbol then .inFlight
  else if r.requestsSecond ≥ e.limits.maxOrderRequestsPerSecond then .rateSecond
  else if r.ordersMinute ≥ e.limits.maxOrdersPerMinute then .rateMinute
  else if r.fillsMinute ≥ e.limits.maxFillsPerMinute then .fillsMinute
  else if r.tradesDay ≥ e.limits.maxTradesPerDay then .tradesDay
  else if r.lastOrderNs ≠ 0 ∧ r.nowNs - r.lastOrderNs < e.limits.minTimeBetweenOrdersNs then .cadence
  else if r.spread > e.limits.maxSpreadTicks then .spread
  else if r.slippage > e.limits.maxSlippageTicks then .slippage
  else if r.volume ≤ 0 ∨ r.volume > e.limits.maxOrderVolume then .fatFinger
  else if r.symbolId ≥ e.limits.symbolAllowed.length ∨
      !(e.limits.symbolAllowed.getD r.symbolId false) then .symbol
  else if !r.sessionOpen then .session
  else if r.reduceOnly ∧ ((r.currentNet ≥ 0 ∧ r.side = .buy) ∨
      (r.currentNet ≤ 0 ∧ r.side = .sell)) then .reduceOnly
  else if r.warmMask &&& e.limits.requiredWarmMask ≠ e.limits.requiredWarmMask then .coldFeatures
  else if !selfTradeOk r.hedging e.limits.allowCrossStrategyOpposition r.positionOwnerStrategy
      r.strategyId r.currentNet r.side then .selfTrade
  else .none

/-- The request of `ShardedOms::standing_approval`. -/
def standingRequest : Request :=
  { volume := 1, riskMinor := 1, freeMargin := 1000000, warmMask := 1, sessionOpen := true }

def standingApproval (e : RiskEngine) : Bool := e.check standingRequest == .none

end RiskEngine

end MicrostructureEngine.Risk
