import MicrostructureEngine.Exec.Journal
import MicrostructureEngine.Exec.Models
import MicrostructureEngine.Lib.Runs

/-!
# The paper broker

Quotes drive the orders in their slots, fills move positions and the account. `Books` is
everything an order in flight can touch, so a function that takes `Order&` in the source
takes the books and the order's slot here and returns both; `PaperBroker` adds the slots,
the duplicate set and the time of the last submit.

Three fields are history and not in the source: the states an order has gone through, the
margin booked for it, and the fills. They are written where the source acts and no function
reads them.
-/

namespace MicrostructureEngine.Exec

set_option autoImplicit false

def maxLiveOrders : Nat := 256

structure BrokerConfig where
  runId : UInt64 := 1
  runSeed : UInt64 := 1
  mode : SimulationMode := .pessimistic
  hedging : Bool := true
  initialBalanceMinor : Int := 0
  stopOutLevelBp : Int := 5000
  staleQuoteNs : Nat := 1000000000
  queueValidated : Bool := false
  deriving DecidableEq, Repr

structure OrderRequest where
  corrId : UInt64 := 0
  strategyId : UInt32 := 0
  symbolId : Nat := 0
  side : Side := .buy
  type : OrderType := .market
  volume : Int := 0
  limitPriceTicks : Int := 0
  seqGlobal : UInt64 := 0
  expireNs : Nat := 0
  reduceOnly : Bool := false
  deriving DecidableEq, Repr

structure SubmitResult where
  accepted : Bool
  ref : BrokerOrderRef
  reason : RejectReason
  deriving DecidableEq, Repr

structure MarketState where
  bidTicks : Int := 0
  askTicks : Int := 0
  bidSize : Int := 0
  askSize : Int := 0
  tsNs : Nat := 0
  valid : Bool := false
  deriving DecidableEq, Repr, Inhabited

namespace MarketState

def spreadTicks (m : MarketState) : Int := m.askTicks - m.bidTicks

/-- The price a marketable order of the side crosses to. -/
def touch (m : MarketState) (side : Side) : Int := if side = .buy then m.askTicks else m.bidTicks

def betterThanTouch (m : MarketState) (side : Side) (priceTicks : Int) : Bool :=
  if side = .buy then decide (priceTicks < m.askTicks) else decide (priceTicks > m.bidTicks)

end MarketState

/-- A slot of `orders_` with its entry of `order_ticket_`. -/
structure OrderSlot where
  order : Order := {}
  ticket : UInt64 := 0
  path : List OrderState := []
  booked : Int := 0
  deriving DecidableEq, Repr, Inhabited

/-- One call of `apply_fill`: the order as it was, the fill, and the position book around
`apply_to_position`. -/
structure FillEvent where
  slot : OrderSlot
  market : MarketState
  priceTicks : Int
  volume : Int
  commissionMinor : Int
  tsNs : Nat
  ticketSeq : UInt64
  before : PositionBook
  after : PositionBook
  deriving DecidableEq, Repr

structure Books where
  config : BrokerConfig
  account : AccountState
  positions : PositionBook := {}
  journal : Journal := {}
  specs : Nat → SymbolSpec := fun i => { symbolId := i }
  market : Nat → MarketState := fun _ => {}
  ticketSeq : UInt64 := 0
  lastTicket : UInt64 := 0
  fillCount : Nat := 0
  reservedMarginMinor : Int := 0
  halted : Bool := false
  haltReason : RejectReason := .none
  fills : List FillEvent := []

namespace Books

def halt (b : Books) (reason : RejectReason) : Books :=
  if b.halted then b else { b with halted := true, haltReason := reason }

/-! ## Account -/

def unrealizedOf (b : Books) (p : Position) : Int :=
  if isClosed p then 0
  else
    let market := b.market p.symbolId
    let mark := if p.side = .buy then market.bidTicks else market.askTicks
    if mark > 0 then positionPnlMinor p (b.specs p.symbolId) mark else 0

def marginOf (b : Books) (p : Position) : Int :=
  if isClosed p then 0
  else MarginModel.requiredMinor (b.specs p.symbolId) p.volume p.avgPriceTicks

/-- The account figures of `recompute_account`, before the stop-out is looked at. -/
def marked (b : Books) : AccountState :=
  let unrealized := (b.positions.positions.map b.unrealizedOf).sum
  let margin := (b.positions.positions.map b.marginOf).sum
  { b.account with
    unrealizedPnlMinor := unrealized
    marginUsedMinor := margin + b.reservedMarginMinor
    equityMinor := b.account.balanceMinor + unrealized
    freeMarginMinor := b.account.balanceMinor + unrealized - (margin + b.reservedMarginMinor)
    openPositions := b.positions.openCount }

/-- Mark to market on every quote; a stop-out halts and is always journalled. -/
def recomputeAccount (b : Books) (nowNs : Nat) : Books :=
  let account := b.marked
  if !account.stoppedOut && MarginModel.stopOut account b.config.stopOutLevelBp then
    halt { b with
      account := { account with stoppedOut := true }
      journal := b.journal.emit .accountUpdate nowNs b.config.runId 0 0 0 account.balanceMinor
        account.equityMinor account.marginUsedMinor RejectReason.insufficientMargin.code }
      .insufficientMargin
  else { b with account := account }

def refreshAccount (b : Books) (nowNs : Nat) : Books :=
  let b := b.recomputeAccount nowNs
  let journal := b.journal.emit .accountUpdate nowNs b.config.runId 0 0 0 b.account.balanceMinor
    b.account.equityMinor b.account.marginUsedMinor b.account.freeMarginMinor
  { b with
    journal := journal.emit .pnlUpdate nowNs b.config.runId 0 0 0 b.account.realizedPnlMinor
      b.account.unrealizedPnlMinor b.account.commissionPaidMinor 0 }

/-! ## Lifecycle -/

def transition (b : Books) (x : OrderSlot) (next : OrderState) (nowNs : Nat) : Books × OrderSlot :=
  let o := x.order
  ({ b with
      journal := b.journal.emit .orderState nowNs b.config.runId o.ref.logicalOrderId o.symbolId 0
        o.state.code next.code o.filledVolume o.remaining },
    { x with order := { o with state := next }, path := x.path ++ [next] })

/-- The margin `release_reservation` computes: by then from another price than the reservation. -/
def releasedMargin (b : Books) (o : Order) : Int :=
  let reference :=
    if o.type = .limit then o.limitPriceTicks
    else if o.avgFillPriceTicks > 0 then o.avgFillPriceTicks else (b.market o.symbolId).askTicks
  MarginModel.requiredMinor (b.specs o.symbolId) o.requestedVolume reference

def releaseReservation (b : Books) (o : Order) : Books :=
  let margin := b.releasedMargin o
  { b with
    reservedMarginMinor :=
      if b.reservedMarginMinor > margin then b.reservedMarginMinor - margin else 0 }

def finish (b : Books) (x : OrderSlot) (terminal : OrderState) (nowNs : Nat) : Books × OrderSlot :=
  let t := b.transition x terminal nowNs
  let y := { t.2 with order := { t.2.order with tsTerminalNs := nowNs } }
  let b := t.1.releaseReservation y.order
  let account := { b.account with openOrders := b.account.openOrders - 1 }
  (refreshAccount { b with account := account } nowNs, y)

/-! ## Positions -/

def journalPosition (b : Books) (p : Position) (nowNs : Nat) : Books :=
  { b with
    lastTicket := p.positionTicket
    journal := b.journal.emit .positionUpdate nowNs b.config.runId 0 p.symbolId p.positionTicket
      p.side.code p.volume p.avgPriceTicks p.realizedPnlMinor }

def opposite (side : Side) : Side := if side = .buy then .sell else .buy

/-- A `reduce_only` buy reduces a short, a sell a long. -/
def findReducible (b : Books) (symbolId : Nat) (orderSide : Side) : Option (Nat × Position) :=
  SlotTable.locate
    (fun p => p.symbolId == symbolId && p.side == opposite orderSide && !isClosed p &&
      decide (p.volume > 0)) b.positions.positions

def reducibleVolume (b : Books) (symbolId : Nat) (orderSide : Side) : Int :=
  (b.positions.positions.map fun p =>
    if p.symbolId = symbolId ∧ p.side = opposite orderSide ∧ !isClosed p then p.volume else 0).sum

def findSymbolPosition (b : Books) (symbolId : Nat) : Option (Nat × Position) :=
  SlotTable.locate (fun p => p.symbolId == symbolId && !isClosed p) b.positions.positions

/-- The quantity closed, the PnL realised on it, and the position after it. -/
def closeAgainst (spec : SymbolSpec) (p : Position) (priceTicks volume : Int) (nowNs : Nat) :
    Int × Int × Position :=
  let closing := if volume < p.volume then volume else p.volume
  let move := if p.side = .buy then priceTicks - p.avgPriceTicks else p.avgPriceTicks - priceTicks
  let realized := move * closing * spec.tickValueMinor
  let q := { p with realizedPnlMinor := p.realizedPnlMinor + realized, volume := p.volume - closing }
  (closing, realized,
    if q.volume = 0 then { q with state := .closed, closedNs := nowNs } else q)

def realize (b : Books) (realized : Int) : Books :=
  { b with account := { b.account with
      realizedPnlMinor := b.account.realizedPnlMinor + realized
      balanceMinor := b.account.balanceMinor + realized } }

/-- A fresh ticket; `none` when the book is full, which halts. -/
def openFor (b : Books) (o : Order) (priceTicks volume : Int) (nowNs : Nat) :
    Books × Option Position :=
  let ticket := b.ticketSeq + 1
  let b := { b with ticketSeq := ticket }
  match b.positions.openTicket ticket o.symbolId o.side volume priceTicks nowNs with
  | none => (b.halt .corruptedState, none)
  | some r => ({ b with positions := r.2 }, r.2.positions[r.1]?)

/-- Hedging `reduce_only`: reduce the opposing ticket and realise PnL on the closed quantity. -/
def reduceTicket (b : Books) (x : OrderSlot) (priceTicks volume : Int) (nowNs : Nat) : Books :=
  let o := x.order
  match b.findReducible o.symbolId o.side with
  | none => b.halt .reduceOnlyNoPosition
  | some (slot, p) =>
    let c := closeAgainst (b.specs o.symbolId) p priceTicks volume nowNs
    journalPosition { b.realize c.2.1 with positions := b.positions.write slot c.2.2 } c.2.2 nowNs

/-- Hedging: fills of one order accumulate into that order's own ticket. -/
def hedgeTicket (b : Books) (x : OrderSlot) (priceTicks volume : Int) (nowNs : Nat) :
    Books × OrderSlot :=
  let own := if x.ticket ≠ 0 then b.positions.find x.ticket else none
  match own with
  | none =>
    match b.openFor x.order priceTicks volume nowNs with
    | (b, none) => (b, x)
    | (b, some p) => (b.journalPosition p nowNs, { x with ticket := p.positionTicket })
  | some (slot, p) =>
    let q := PositionBook.add p volume priceTicks
    (journalPosition { b with positions := b.positions.write slot q } q nowNs, x)

/-- Netting: one signed position per symbol. -/
def netTicket (b : Books) (x : OrderSlot) (priceTicks volume : Int) (nowNs : Nat) : Books :=
  let o := x.order
  match b.findSymbolPosition o.symbolId with
  | none =>
    match b.openFor o priceTicks volume nowNs with
    | (b, none) => b
    | (b, some p) => b.journalPosition p nowNs
  | some (slot, p) =>
    if p.side = o.side then
      let q := PositionBook.add p volume priceTicks
      journalPosition { b with positions := b.positions.write slot q } q nowNs
    else
      let c := closeAgainst (b.specs o.symbolId) p priceTicks volume nowNs
      let b := { b.realize c.2.1 with positions := b.positions.write slot c.2.2 }
      if c.2.2.volume = 0 ∧ volume - c.1 > 0 then
        match b.openFor o priceTicks (volume - c.1) nowNs with
        | (b, none) => b
        | (b, some p) => b.journalPosition p nowNs
      else b.journalPosition c.2.2 nowNs

def applyToPosition (b : Books) (x : OrderSlot) (priceTicks volume : Int) (nowNs : Nat) :
    Books × OrderSlot :=
  if b.config.hedging && x.order.reduceOnly then (b.reduceTicket x priceTicks volume nowNs, x)
  else if b.config.hedging then b.hedgeTicket x priceTicks volume nowNs
  else (b.netTicket x priceTicks volume nowNs, x)

/-! ## Fills -/

/-- The order's own figures after a fill. -/
def filledOrder (o : Order) (priceTicks volume commission : Int) : Order :=
  let weighted := o.avgFillPriceTicks * o.filledVolume + priceTicks * volume
  let filled := o.filledVolume + volume
  { o with
    filledVolume := filled
    avgFillPriceTicks := (weighted + filled.tdiv 2).tdiv filled
    commissionMinor := o.commissionMinor + commission }

def charge (b : Books) (commission : Int) : Books :=
  { b with account := { b.account with
      commissionPaidMinor := b.account.commissionPaidMinor + commission
      balanceMinor := b.account.balanceMinor - commission } }

/-- `++fill_count_`, the fill record, and the history of fills. -/
def recordFill (b : Books) (o : Order) (f : FillEvent) : Books :=
  { b with
    fillCount := b.fillCount + 1
    journal := b.journal.emit .fill f.tsNs b.config.runId o.ref.logicalOrderId o.symbolId b.lastTicket
      f.priceTicks f.volume f.commissionMinor (if o.remaining ≤ 0 then 1 else 0)
    fills := b.fills ++ [f] }

/-- `apply_fill` up to its journal record. -/
def bookFill (b : Books) (x : OrderSlot) (priceTicks volume : Int) (nowNs : Nat) : Books × OrderSlot :=
  let commission := CommissionModel.chargeMinor (b.specs x.order.symbolId) volume
  let y := { x with order := filledOrder x.order priceTicks volume commission }
  let p := (b.charge commission).applyToPosition y priceTicks volume nowNs
  (p.1.recordFill p.2.order
    { slot := x, market := b.market x.order.symbolId, priceTicks := priceTicks, volume := volume,
      commissionMinor := commission, tsNs := nowNs, ticketSeq := b.ticketSeq,
      before := b.positions, after := p.1.positions }, p.2)

def applyFill (b : Books) (x : OrderSlot) (priceTicks volume : Int) (nowNs : Nat) :
    Books × OrderSlot :=
  let p := b.bookFill x priceTicks volume nowNs
  let r :=
    if p.2.order.remaining ≤ 0 then p.1.finish p.2 .filled nowNs
    else if p.2.order.state ≠ .partiallyFilled then p.1.transition p.2 .partiallyFilled nowNs
    else p
  (r.1.refreshAccount nowNs, r.2)

def regimeOf (b : Books) (symbolId : Nat) : RegimeBucket := classify (b.market symbolId).spreadTicks

/-- Price and displayed size of a fill the quote allows. Market orders cross the spread; limit
orders fill only on activity through their level, never on touch. Without a displayed size the
whole remainder is available. -/
def fillTerms (b : Books) (o : Order) : Option (Int × Int) :=
  let market := b.market o.symbolId
  let size := if o.side = .buy then market.askSize else market.bidSize
  let available := if size ≤ 0 then o.remaining else size
  if o.type = .market then
    let slip := SlippageModel.sampleTicks b.config.runSeed o.corrId b.config.mode
      (b.regimeOf o.symbolId) market.spreadTicks
    some (if o.side = .buy then market.askTicks + slip else market.bidTicks - slip, available)
  else
    let through :=
      if o.side = .buy then decide (market.askTicks < o.limitPriceTicks)
      else decide (market.bidTicks > o.limitPriceTicks)
    if !through then none
    else if o.queueAhead > 0 then none
    else some (o.limitPriceTicks, available)

def attemptFill (b : Books) (x : OrderSlot) (nowNs : Nat) : Books × OrderSlot :=
  let o := x.order
  let market := b.market o.symbolId
  if !market.valid ∨ o.remaining ≤ 0 then (b, x)
  else if o.state ≠ .acknowledged ∧ o.state ≠ .partiallyFilled then (b, x)
  else
    match b.fillTerms o with
    | none => (b, x)
    | some (price, available) =>
      let volume := if available < o.remaining then available else o.remaining
      if price ≤ 0 then (b.halt .invalidPrice, x)
      else if volume ≤ 0 then (b, x)
      else if volume > o.remaining then (b.halt .impossibleFill, x)
      else if o.type = .market ∧ market.betterThanTouch o.side price then (b.halt .impossibleFill, x)
      else if market.spreadTicks ≥ 2 ∧ price * 2 = market.bidTicks + market.askTicks ∧
          o.type = .market then (b.halt .impossibleFill, x)
      else b.applyFill x price volume nowNs

/-! ## Processing -/

def expiryDue (o : Order) (nowNs : Nat) : Bool := o.expireNs != 0 && decide (nowNs ≥ o.expireNs)

def rejects (b : Books) (o : Order) : Bool :=
  RejectionModel.rejects b.config.runSeed o.corrId b.config.mode (b.regimeOf o.symbolId)

def rejectSent (b : Books) (x : OrderSlot) (nowNs : Nat) : Books × OrderSlot :=
  finish { b with
      journal := b.journal.emit .rejection nowNs b.config.runId x.order.ref.logicalOrderId
        x.order.symbolId 0 RejectReason.probabilisticReject.code 0 0 0 }
    x .rejected nowNs

def acknowledge (b : Books) (x : OrderSlot) (nowNs : Nat) : Books × OrderSlot :=
  let t := b.transition x .acknowledged nowNs
  ({ t.1 with
      journal := t.1.journal.emit .acknowledgement nowNs b.config.runId x.order.ref.logicalOrderId
        x.order.symbolId 0 (toInt64 x.order.tsEffectiveNs) 0 0 0 }, t.2)

/-- The body of the loop in `process`. -/
def processSlot (b : Books) (x : OrderSlot) (nowNs : Nat) : Books × OrderSlot :=
  if x.order.state.isTerminal then (b, x)
  else if expiryDue x.order nowNs then b.finish x .expired nowNs
  else if nowNs < x.order.tsEffectiveNs then (b, x)
  else if x.order.state = .sent then
    if b.rejects x.order then b.rejectSent x nowNs
    else
      let a := b.acknowledge x nowNs
      a.1.attemptFill a.2 nowNs
  else b.attemptFill x nowNs

/-- Index order is submission order. The loop does not look at the halt again. -/
def processSlots (b : Books) (nowNs : Nat) : List OrderSlot → Books × List OrderSlot
  | [] => (b, [])
  | x :: xs =>
    let r := b.processSlot x nowNs
    let rest := r.1.processSlots nowNs xs
    (rest.1, r.2 :: rest.2)

end Books

structure PaperBroker where
  books : Books
  slots : List OrderSlot := []
  seen : Nat → UInt64 := fun _ => 0
  lastSubmitNs : Nat := 0

namespace PaperBroker

def new (config : BrokerConfig) : PaperBroker where
  books :=
    { config := config
      account :=
        { balanceMinor := config.initialBalanceMinor, equityMinor := config.initialBalanceMinor,
          freeMarginMinor := config.initialBalanceMinor } }

def setSymbol (b : PaperBroker) (spec : SymbolSpec) : PaperBroker :=
  if spec.symbolId < maxSymbols then
    { b with books := { b.books with specs := Function.update b.books.specs spec.symbolId spec } }
  else b

/-! ## Order identity -/

def fnvMix (hash value : UInt64) : UInt64 :=
  (List.range 8).foldl
    (fun h byte => (h ^^^ (value >>> UInt64.ofNat (8 * byte) &&& 0xFF)) * 1099511628211) hash

def makeLogicalOrderId (strategyId symbolId seqGlobal : UInt64) : UInt64 :=
  fnvMix (fnvMix (fnvMix 1469598103934665603 strategyId) symbolId) seqGlobal

def requestRef (b : PaperBroker) (q : OrderRequest) : BrokerOrderRef :=
  ⟨b.books.config.runId, makeLogicalOrderId q.strategyId.toUInt64 (UInt64.ofNat q.symbolId) q.seqGlobal⟩

def seenSlots : Nat := 1024

def seenProbe : Nat := 8

def mix (x : UInt64) : UInt64 :=
  let x := x + 0x9E3779B97F4A7C15
  let x := (x ^^^ (x >>> 30)) * 0xBF58476D1CE4E5B9
  let x := (x ^^^ (x >>> 27)) * 0x94D049BB133111EB
  x ^^^ (x >>> 31)

/-- The slots of a probe run, from its home slot. -/
def probeRun (logicalOrderId : UInt64) : List Nat :=
  (List.range seenProbe).map fun step => ((mix logicalOrderId).toNat + step) % seenSlots

/-- The first slot of the run that is empty or holds the id. -/
def probe (b : PaperBroker) (logicalOrderId : UInt64) : Option Nat :=
  (probeRun logicalOrderId).find? fun slot => b.seen slot == 0 || b.seen slot == logicalOrderId

def hasSeen (b : PaperBroker) (ref : BrokerOrderRef) : Bool :=
  if ref.runId ≠ b.books.config.runId ∨ ref.logicalOrderId = 0 then false
  else
    match b.probe ref.logicalOrderId with
    | none => false
    | some slot => b.seen slot != 0

/-- A full probe run evicts its head. -/
def remember (b : PaperBroker) (ref : BrokerOrderRef) : PaperBroker :=
  if ref.logicalOrderId = 0 then b
  else
    let slot := (b.probe ref.logicalOrderId).getD ((mix ref.logicalOrderId).toNat % seenSlots)
    { b with seen := Function.update b.seen slot ref.logicalOrderId }

/-! ## Market data -/

/-- The displayed size an order of the side rests in. -/
def restingSize (side : Side) (bidSize askSize : Int) : Int := if side = .buy then bidSize else askSize

/-- The quote leaves the touch at the order's own level. -/
def sameLevel (previous : MarketState) (bid ask : Int) (o : Order) : Bool :=
  if o.side = .buy then bid == previous.bidTicks && o.limitPriceTicks == bid
  else ask == previous.askTicks && o.limitPriceTicks == ask

def creditOrder (b : Books) (symbolId : Nat) (previous : MarketState)
    (bid ask bidSize askSize : Int) (o : Order) : Order :=
  if o.symbolId ≠ symbolId ∨ o.type ≠ .limit then o
  else if o.state.isTerminal ∨ o.queueAhead ≤ 0 then o
  else if !sameLevel previous bid ask o then o
  else
    let before := restingSize o.side previous.bidSize previous.askSize
    let after := restingSize o.side bidSize askSize
    if after ≥ before then o
    else
      let share := Philox4x32.nextRange b.config.runSeed o.corrId .queueShare 1 100
      let credited := ((before - after) * toInt64 share).tdiv 100
      { o with queueAhead := if o.queueAhead - credited < 0 then 0 else o.queueAhead - credited }

def creditQueue (b : Books) (symbolId : Nat) (previous : MarketState)
    (bid ask bidSize askSize : Int) (slots : List OrderSlot) : List OrderSlot :=
  if !previous.valid then slots
  else slots.map fun x =>
    { x with order := creditOrder b symbolId previous bid ask bidSize askSize x.order }

def process (b : PaperBroker) (nowNs : Nat) : PaperBroker :=
  if b.books.halted then b
  else
    let r := b.books.processSlots nowNs b.slots
    { b with books := r.1, slots := r.2 }

def onQuote (b : PaperBroker) (symbolId : Nat) (bid ask bidSize askSize : Int) (tsNs : Nat) :
    PaperBroker :=
  if symbolId ≥ maxSymbols then b
  else
    let slots := creditQueue b.books symbolId (b.books.market symbolId) bid ask bidSize askSize b.slots
    let market : MarketState :=
      { bidTicks := bid, askTicks := ask, bidSize := bidSize, askSize := askSize, tsNs := tsNs,
        valid := decide (bid > 0) && decide (ask > 0) && decide (ask > bid) }
    let books := { b.books with market := Function.update b.books.market symbolId market }
    let p := process { b with books := books, slots := slots } tsNs
    { p with books := p.books.recomputeAccount tsNs }

/-! ## Order entry -/

/-- What the checks before the slot allocation refuse. -/
def entryRefusal (b : PaperBroker) (q : OrderRequest) (nowNs : Nat) : Option RejectReason :=
  let spec := b.books.specs q.symbolId
  let reducible := b.books.reducibleVolume q.symbolId q.side
  if q.type ≠ .market ∧ q.type ≠ .limit then some .impossibleFill
  else if nowNs < b.lastSubmitNs then some .invalidTimestamp
  else if q.symbolId ≥ maxSymbols then some .unknownSymbol
  else if !spec.tradable then some .marketClosed
  else if q.volume ≤ 0 then some .invalidVolume
  else if q.volume < spec.volumeMin then some .volumeBelowMinimum
  else if q.volume > spec.volumeMax then some .volumeAboveMaximum
  else if spec.volumeStep ≤ 0 ∨ q.volume.tmod spec.volumeStep ≠ 0 then some .volumeNotStepAligned
  else if q.type = .limit ∧ q.limitPriceTicks ≤ 0 then some .invalidPrice
  else if q.type = .limit ∧ !spec.priceAligned q.limitPriceTicks then some .priceNotTickAligned
  else if q.reduceOnly ∧ reducible ≤ 0 then some .reduceOnlyNoPosition
  else if q.reduceOnly ∧ q.volume > reducible then some .reduceOnlyExcessVolume
  else if b.hasSeen (b.requestRef q) then some .duplicateOrderId
  else none

def requestMargin (b : Books) (q : OrderRequest) : Int :=
  let reference := if q.type = .limit then q.limitPriceTicks else (b.market q.symbolId).touch q.side
  MarginModel.requiredMinor (b.specs q.symbolId) q.volume reference

/-- What the checks after the slot allocation refuse. -/
def marketRefusal (b : Books) (q : OrderRequest) (nowNs : Nat) : Option RejectReason :=
  let market := b.market q.symbolId
  if !market.valid then some .staleQuote
  else if nowNs ≥ market.tsNs ∧ nowNs - market.tsNs > b.config.staleQuoteNs then some .staleQuote
  else if requestMargin b q > b.account.freeMarginMinor then some .insufficientMargin
  else none

def reject (b : PaperBroker) (q : OrderRequest) (nowNs : Nat) (reason : RejectReason) :
    SubmitResult × PaperBroker :=
  (⟨false, b.requestRef q, reason⟩,
    { b with books := { b.books with
        journal := b.books.journal.emit .rejection nowNs b.books.config.runId
          (b.requestRef q).logicalOrderId q.symbolId 0 reason.code q.volume q.limitPriceTicks 0 } })

/-- Front, mid or back of the queue at the level. -/
def queueAtPlacement (config : BrokerConfig) (side : Side) (market : MarketState) : Int :=
  let size := restingSize side market.bidSize market.askSize
  if size ≤ 0 then 0
  else (roundDouble size.toNat * (ModeProfile.forMode config.mode).queuePlacement / 2 : Nat)

/-- The slot of an accepted order, up to `order.state = pending_send`. Latency is added to the
send time. -/
def placed (b : PaperBroker) (q : OrderRequest) (nowNs : Nat) : OrderSlot :=
  let config := b.books.config
  { order :=
      { ref := b.requestRef q, corrId := q.corrId, symbolId := q.symbolId, side := q.side,
        type := q.type, state := .pendingSend, requestedVolume := q.volume,
        limitPriceTicks := q.limitPriceTicks, tsSubmitNs := nowNs, expireNs := q.expireNs,
        reduceOnly := q.reduceOnly, queueValidated := config.queueValidated,
        tsEffectiveNs := (nowNs + LatencyModel.sampleNs config.runSeed q.corrId config.mode
          (b.books.regimeOf q.symbolId)) % 2 ^ 64,
        queueAhead :=
          if q.type = .limit then queueAtPlacement config q.side (b.books.market q.symbolId) else 0 }
    path := [.pendingSend]
    booked := requestMargin b.books q }

def accept (b : PaperBroker) (slot : Nat) (q : OrderRequest) (nowNs : Nat) : PaperBroker :=
  let reserved := b.books.reservedMarginMinor + requestMargin b.books q
  let t := Books.transition { b.books with reservedMarginMinor := reserved } (b.placed q nowNs) .sent nowNs
  let o := t.2.order
  let books := { t.1 with
    journal := t.1.journal.emit .command nowNs t.1.config.runId o.ref.logicalOrderId o.symbolId 0
      o.side.code o.requestedVolume o.limitPriceTicks o.type.code
    account := { t.1.account with openOrders := t.1.account.openOrders + 1 } }
  { b.remember o.ref with
    books := books.refreshAccount nowNs
    slots := b.slots.set slot t.2
    lastSubmitNs := nowNs }

def reusable (x : OrderSlot) : Bool := x.order.state.isTerminal

def submit (b : PaperBroker) (q : OrderRequest) (nowNs : Nat) : SubmitResult × PaperBroker :=
  match b.entryRefusal q nowNs with
  | some reason => b.reject q nowNs reason
  | none =>
    match SlotTable.allocate reusable maxLiveOrders {} b.slots with
    | none => b.reject q nowNs .corruptedState
    | some (slot, slots) =>
      let b := { b with slots := slots }
      match marketRefusal b.books q nowNs with
      | some reason => b.reject q nowNs reason
      | none => (⟨true, b.requestRef q, .none⟩, b.accept slot q nowNs)

def findLive (b : PaperBroker) (ref : BrokerOrderRef) : Option (Nat × OrderSlot) :=
  SlotTable.locate (fun x => x.order.ref == ref && !x.order.state.isTerminal) b.slots

def findOrder (b : PaperBroker) (ref : BrokerOrderRef) : Option Order :=
  (b.slots.find? fun x => x.order.ref == ref).map (·.order)

/-- `unknown` never cancels: it holds full reserved exposure until reconciliation resolves it. -/
def cancel (b : PaperBroker) (ref : BrokerOrderRef) (nowNs : Nat) : Bool × PaperBroker :=
  match b.findLive ref with
  | none => (false, b)
  | some (slot, x) =>
    if x.order.state = .unknown then (false, b)
    else
      let t := b.books.transition x .cancelPending nowNs
      let books := { t.1 with
        journal := t.1.journal.emit .cancel nowNs t.1.config.runId ref.logicalOrderId x.order.symbolId
          0 t.2.order.remaining 0 0 0 }
      let f := books.finish t.2 .cancelled nowNs
      (true, { b with books := f.1, slots := b.slots.set slot f.2 })

/-- The margin of an amended order, at the price a request would be booked at. The source books
nothing here; this is what the slot's history notes. -/
def amendedMargin (b : Books) (o : Order) : Int :=
  let reference := if o.type = .limit then o.limitPriceTicks else (b.market o.symbolId).touch o.side
  MarginModel.requiredMinor (b.specs o.symbolId) o.requestedVolume reference

def amended (b : Books) (o : Order) (newPriceTicks newVolume : Int) : Order :=
  { o with
    limitPriceTicks := newPriceTicks
    requestedVolume := newVolume
    queueAhead :=
      if o.type = .limit then queueAtPlacement b.config o.side (b.market o.symbolId) else o.queueAhead }

/-- Cancel and replace on the same logical order: queue position is forfeited. -/
def replace (b : PaperBroker) (ref : BrokerOrderRef) (newPriceTicks newVolume : Int) (nowNs : Nat) :
    Bool × PaperBroker :=
  match b.findLive ref with
  | none => (false, b)
  | some (slot, x) =>
    let o := x.order
    let spec := b.books.specs o.symbolId
    if o.state = .unknown then (false, b)
    else if newVolume ≤ o.filledVolume ∨ !spec.volumeValid newVolume then (false, b)
    else if o.type = .limit ∧ (newPriceTicks ≤ 0 ∨ !spec.priceAligned newPriceTicks) then (false, b)
    else
      let y := amended b.books o newPriceTicks newVolume
      (true, { b with
        books := { b.books with
          journal := b.books.journal.emit .replace nowNs b.books.config.runId ref.logicalOrderId
            o.symbolId 0 o.limitPriceTicks newPriceTicks o.requestedVolume newVolume }
        slots := b.slots.set slot { x with order := y, booked := amendedMargin b.books y } })

/-! ## Runs -/

inductive Action where
  | setSymbol (spec : SymbolSpec)
  | onQuote (symbolId : Nat) (bid ask bidSize askSize : Int) (tsNs : Nat)
  | submit (request : OrderRequest) (nowNs : Nat)
  | cancel (ref : BrokerOrderRef) (nowNs : Nat)
  | replace (ref : BrokerOrderRef) (newPriceTicks newVolume : Int) (nowNs : Nat)
  deriving DecidableEq, Repr

def step (b : PaperBroker) : Action → PaperBroker
  | .setSymbol spec => b.setSymbol spec
  | .onQuote symbolId bid ask bidSize askSize tsNs => b.onQuote symbolId bid ask bidSize askSize tsNs
  | .submit request nowNs => (b.submit request nowNs).2
  | .cancel ref nowNs => (b.cancel ref nowNs).2
  | .replace ref newPriceTicks newVolume nowNs => (b.replace ref newPriceTicks newVolume nowNs).2

/-- The broker after the actions, from its construction. -/
def after (config : BrokerConfig) (actions : List Action) : PaperBroker :=
  Runs.run step (new config) actions

end PaperBroker

end MicrostructureEngine.Exec
