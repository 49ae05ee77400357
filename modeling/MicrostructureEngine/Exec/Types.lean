import Mathlib.Algebra.Ring.Int.Defs
import Mathlib.Data.FinEnum
import Mathlib.Data.Fintype.Prod

/-!
# Execution types

Order identity, the Part 8 state enumeration and the order record. Volumes, prices
and money are `int64` in the source and `Int` here: signed overflow is undefined
there, so the two agree on every execution that has a meaning. Identifiers that are
hashed keep their 64-bit type; sequence numbers and timestamps are `Nat`.
-/

namespace MicrostructureEngine

set_option autoImplicit false

/-- `broker_order_ref = (run_id, logical_order_id)`, globally unique (Part 8.2). -/
structure BrokerOrderRef where
  runId : UInt64 := 0
  logicalOrderId : UInt64 := 0
  deriving DecidableEq, Repr, Inhabited

inductive Side where
  | buy
  | sell
  deriving DecidableEq, Repr, Inhabited

inductive OrderType where
  | market
  | limit
  | stop
  | stopLimit
  deriving DecidableEq, Repr, Inhabited

inductive OrderState where
  | newOrder
  | riskRejected
  | pendingSend
  | sent
  | acknowledged
  | rejected
  | unknown
  | partiallyFilled
  | filled
  | cancelPending
  | cancelled
  | expired
  deriving DecidableEq, Repr, Inhabited

inductive RejectReason where
  | none
  | invalidPrice
  | invalidVolume
  | invalidTimestamp
  | duplicateOrderId
  | unknownSymbol
  | insufficientMargin
  | volumeBelowMinimum
  | volumeAboveMaximum
  | volumeNotStepAligned
  | priceNotTickAligned
  | stopsLevelViolation
  | marketClosed
  | staleQuote
  | impossibleFill
  | corruptedState
  | probabilisticReject
  | reduceOnlyNoPosition
  | reduceOnlyExcessVolume
  deriving DecidableEq, Repr, Inhabited

inductive PositionState where
  | opening
  | opened
  | modifyPending
  | closing
  | closed
  | reconcileUnknown
  deriving DecidableEq, Repr, Inhabited

/-- The enumerators' underlying values, as journal records store them. -/
def Side.code : Side → Int
  | buy => 0
  | sell => 1

def OrderType.code : OrderType → Int
  | market => 0
  | limit => 1
  | stop => 2
  | stopLimit => 3

def RejectReason.code : RejectReason → Int
  | none => 0
  | invalidPrice => 1
  | invalidVolume => 2
  | invalidTimestamp => 3
  | duplicateOrderId => 4
  | unknownSymbol => 5
  | insufficientMargin => 6
  | volumeBelowMinimum => 7
  | volumeAboveMaximum => 8
  | volumeNotStepAligned => 9
  | priceNotTickAligned => 10
  | stopsLevelViolation => 11
  | marketClosed => 12
  | staleQuote => 13
  | impossibleFill => 14
  | corruptedState => 15
  | probabilisticReject => 16
  | reduceOnlyNoPosition => 17
  | reduceOnlyExcessVolume => 18

namespace OrderState

/-- `unknown` is deliberately not terminal: it holds full reserved exposure until
reconciliation resolves it (Invariant 5). -/
def isTerminal : OrderState → Bool
  | riskRejected | filled | cancelled | rejected | expired => true
  | _ => false

def reservesExposure (s : OrderState) : Bool :=
  !s.isTerminal && s != newOrder

/-- The enumerator's underlying value, as journal records store it. -/
def code : OrderState → Int
  | newOrder => 0
  | riskRejected => 1
  | pendingSend => 2
  | sent => 3
  | acknowledged => 4
  | rejected => 5
  | unknown => 6
  | partiallyFilled => 7
  | filled => 8
  | cancelPending => 9
  | cancelled => 10
  | expired => 11

/-- `static_cast<OrderState>` of a value that `valid_order_state` accepted. -/
def ofCode (x : Int) : OrderState :=
  match x.toNat with
  | 0 => newOrder
  | 1 => riskRejected
  | 2 => pendingSend
  | 3 => sent
  | 4 => acknowledged
  | 5 => rejected
  | 6 => unknown
  | 7 => partiallyFilled
  | 8 => filled
  | 9 => cancelPending
  | 10 => cancelled
  | _ => expired

@[simp] theorem ofCode_code (s : OrderState) : ofCode s.code = s := by
  cases s <;> rfl

theorem code_nonneg (s : OrderState) : 0 ≤ s.code := by
  cases s <;> decide

theorem code_le_expired (s : OrderState) : s.code ≤ expired.code := by
  cases s <;> decide

end OrderState

/-- The order state machine (`order_state.hpp`). -/
def legal : OrderState → OrderState → Bool
  | .newOrder, b => b == .riskRejected || b == .pendingSend
  | .pendingSend, b => b == .sent
  | .sent, b => b == .acknowledged || b == .rejected || b == .unknown
  | .acknowledged, b => b == .partiallyFilled || b == .filled || b == .cancelPending || b == .expired
  | .partiallyFilled, b => b == .partiallyFilled || b == .filled || b == .cancelPending
  | .cancelPending, b => b == .cancelled || b == .filled || b == .unknown
  | .unknown, b => b.isTerminal
  | _, _ => false

structure Order where
  ref : BrokerOrderRef := {}
  corrId : UInt64 := 0
  symbolId : Nat := 0
  side : Side := .buy
  type : OrderType := .market
  state : OrderState := .newOrder
  rejectReason : RejectReason := .none
  requestedVolume : Int := 0
  filledVolume : Int := 0
  limitPriceTicks : Int := 0
  triggerPriceTicks : Int := 0
  triggered : Bool := false
  reduceOnly : Bool := false
  tsSubmitNs : Nat := 0
  tsEffectiveNs : Nat := 0
  tsTerminalNs : Nat := 0
  expireNs : Nat := 0
  queueAhead : Int := 0
  queueValidated : Bool := false
  avgFillPriceTicks : Int := 0
  commissionMinor : Int := 0
  lastAppliedSeq : Nat := 0
  deriving DecidableEq, Repr, Inhabited

def Order.remaining (o : Order) : Int := o.requestedVolume - o.filledVolume

structure Position where
  positionTicket : UInt64 := 0
  symbolId : Nat := 0
  side : Side := .buy
  state : PositionState := .opening
  volume : Int := 0
  avgPriceTicks : Int := 0
  realizedPnlMinor : Int := 0
  openedNs : Nat := 0
  closedNs : Nat := 0
  deriving DecidableEq, Repr, Inhabited

/-- `max_symbols` of `account.hpp`. -/
def maxSymbols : Nat := 8

noncomputable instance : Fintype BrokerOrderRef :=
  Fintype.ofInjective (fun r => (r.runId, r.logicalOrderId)) (by
    intro a b h
    cases a
    cases b
    simp_all)

end MicrostructureEngine
