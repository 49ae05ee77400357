import MicrostructureEngine.Exec.Account
import MicrostructureEngine.Oms.Orders
import MicrostructureEngine.Oms.Sequencer
import MicrostructureEngine.Risk.Engine

/-!
# Journal recovery

`recover` over a bounded journal and `recover_streaming` over a record source. The two
loops validate and apply a record by the same text, here `applyRecord`; they differ in the
store capacity, in how positions are numbered and in how a repeated payload is detected.
-/

namespace MicrostructureEngine

set_option autoImplicit false

inductive MarginMode where
  | netting
  | hedging
  deriving DecidableEq, Repr, Inhabited

structure Aggregate where
  net : Int := 0
  gross : Int := 0
  realized : Int := 0
  unrealized : Int := 0
  deriving DecidableEq, Repr, Inhabited

structure PortfolioPosition where
  ticket : UInt64 := 0
  symbol : Nat := 0
  side : Side := .buy
  volume : Int := 0
  realized : Int := 0
  unrealized : Int := 0
  deriving DecidableEq, Repr, Inhabited

structure Portfolio where
  mode : MarginMode
  positions : List PortfolioPosition := []
  aggregates : List Aggregate := List.replicate maxSymbols {}
  deriving DecidableEq, Repr

namespace Portfolio

def addPosition (agg : List Aggregate) (p : PortfolioPosition) : List Aggregate :=
  agg.modify p.symbol fun a =>
    { net := a.net + (if p.side = .buy then p.volume else -p.volume)
      gross := a.gross + p.volume
      realized := a.realized + p.realized
      unrealized := a.unrealized + p.unrealized }

def rebuild (positions : List PortfolioPosition) : List Aggregate :=
  positions.foldl addPosition (List.replicate maxSymbols {})

/-- Overwrite the entry of the ticket, or append one. -/
def store (positions : List PortfolioPosition) (p : PortfolioPosition) : List PortfolioPosition :=
  if positions.any (fun q => q.ticket == p.ticket) then
    positions.map fun q => if q.ticket = p.ticket then p else q
  else positions ++ [p]

def upsert (f : Portfolio) (ticket : UInt64) (symbol : Nat) (side : Side) (volume realized : Int) :
    Option Portfolio :=
  if symbol ≥ maxSymbols ∨ volume < 0 then none
  else if f.mode = .netting ∧ f.positions.any (fun q => q.symbol == symbol && q.ticket != ticket) then none
  else if ¬ f.positions.any (fun q => q.ticket == ticket) ∧ f.positions.length ≥ maxPositions then none
  else
    let positions := store f.positions ⟨ticket, symbol, side, volume, realized, 0⟩
    some { f with positions := positions, aggregates := rebuild positions }

end Portfolio

/-- The position table, as far as recovery uses it. -/
structure Pms where
  positions : List Position := []
  deriving DecidableEq, Repr

namespace Pms

def find (p : Pms) (ticket : UInt64) : Option Position :=
  p.positions.find? fun q => q.positionTicket == ticket

def restore (p : Pms) (v : Position) : Option Pms :=
  if (p.find v.positionTicket).isSome ∨ p.positions.length ≥ maxPositions ∨ v.positionTicket = 0 ∨
      v.symbolId ≥ maxSymbols ∨ v.volume < 0 then none
  else some { p with positions := p.positions ++ [v] }

/-- `*old = p`, through the pointer of `find`. -/
def overwrite (p : Pms) (v : Position) : Pms :=
  { p with positions := p.positions.map fun q => if q.positionTicket = v.positionTicket then v else q }

end Pms

structure RiskCounters where
  commands : Nat := 0
  acks : Nat := 0
  rejections : Nat := 0
  fills : Nat := 0
  cancels : Nat := 0
  replaces : Nat := 0
  deriving DecidableEq, Repr

structure RecoveryState where
  orders : Oms
  positions : Pms := {}
  portfolio : Portfolio
  account : AccountState := {}
  counters : RiskCounters := {}
  halt : Risk.HaltReason := .none
  kill : Bool := false

def RecoveryState.new (mode : MarginMode) (capacity : Nat) : RecoveryState :=
  { orders := Oms.new capacity, portfolio := { mode := mode } }

/-- The local variables of the recovery loop. -/
structure Replay where
  next : RecoveryState
  haveAccount : Bool := false
  havePnl : Bool := false

namespace Recovery

def validOrderState (x : Int) : Bool := decide (x ≥ 0) && decide (x ≤ OrderState.expired.code)

/-- The order a command record restores. -/
def commandOrder (r : JournalRecord) : Order :=
  { ref := r.ref, symbolId := r.symbolId, side := if r.a = 0 then .buy else .sell,
    requestedVolume := r.b, limitPriceTicks := r.c, type := if r.d = 0 then .market else .limit,
    state := .sent }

def setOrders (s : Replay) (o : Oms) : Replay := { s with next := { s.next with orders := o } }

def count (s : Replay) (f : RiskCounters → RiskCounters) : Replay :=
  { s with next := { s.next with counters := f s.next.counters } }

def applyCommand (s : Replay) (r : JournalRecord) : Option Replay :=
  if r.runId = 0 ∨ r.logicalOrderId = 0 ∨ r.positionTicket ≠ 0 ∨ r.a < 0 ∨ r.a > 1 ∨ r.b ≤ 0 ∨
      r.c < 0 ∨ r.d < 0 ∨ r.d > 1 then none
  else
    let q := s.next.orders.restore (commandOrder r)
    if q.1.isNone then none
    else some (count (setOrders s q.2) fun c => { c with commands := c.commands + 1 })

def applyOrderState (s : Replay) (r : JournalRecord) : Option Replay :=
  if !validOrderState r.a ∨ !validOrderState r.b ∨ r.positionTicket ≠ 0 ∨ r.c < 0 ∨ r.d < 0 then none
  else
    let fromState := OrderState.ofCode r.a
    let toState := OrderState.ofCode r.b
    match s.next.orders.find r.ref with
    | none => if fromState = .pendingSend ∧ toState = .sent then some s else none
    | some x =>
      if x.state ≠ fromState ∨ x.filledVolume ≠ r.c ∨ x.requestedVolume ≠ r.d then none
      else
        let q := s.next.orders.transition r.ref toState
        if !q.1 then none else some (setOrders s q.2)

/-- The acknowledgement and cancel records: a confirmation of a state already reached. -/
def applyConfirmation (s : Replay) (r : JournalRecord) (state : OrderState)
    (f : RiskCounters → RiskCounters) : Option Replay :=
  match s.next.orders.find r.ref with
  | none => none
  | some x =>
    if x.state ≠ state ∨ r.a < 0 ∨ r.positionTicket ≠ 0 then none else some (count s f)

def applyAcknowledgement (s : Replay) (r : JournalRecord) : Option Replay :=
  applyConfirmation s r .acknowledged fun c => { c with acks := c.acks + 1 }

def applyCancel (s : Replay) (r : JournalRecord) : Option Replay :=
  applyConfirmation s r .cancelPending fun c => { c with cancels := c.cancels + 1 }

/-- A rejection names no order, or an order that is still `sent`. -/
def applyRejection (s : Replay) (r : JournalRecord) : Option Replay :=
  if r.a ≤ 0 then none
  else if r.logicalOrderId ≠ 0 ∧ (s.next.orders.find r.ref).all (fun x => x.state != .sent) then none
  else some (count s fun c => { c with rejections := c.rejections + 1 })

def applyFill (s : Replay) (r : JournalRecord) : Option Replay :=
  if (s.next.orders.find r.ref).isNone ∨ r.positionTicket = 0 ∨ r.a ≤ 0 ∨ r.b ≤ 0 ∨ r.c < 0 ∨
      (r.d ≠ 0 ∧ r.d ≠ 1) then none
  else
    let q := s.next.orders.recoverFill r.ref r.b
    if !q.1 then none
    else some (count (setOrders s q.2) fun c => { c with fills := c.fills + 1 })

def applyReplace (s : Replay) (r : JournalRecord) : Option Replay :=
  match s.next.orders.find r.ref with
  | none => none
  | some x =>
    if x.state ≠ .acknowledged ∨ r.a ≤ 0 ∨ r.b ≤ 0 ∨ r.c ≤ 0 ∨ r.d ≤ 0 ∨ r.d < x.filledVolume ∨
        r.a ≠ x.limitPriceTicks ∨ r.c ≠ x.requestedVolume then none
    else
      some (count (setOrders s (s.next.orders.modify r.ref (replaceOrder r.b r.d) fun _ => rfl))
        fun c => { c with replaces := c.replaces + 1 })

def recordSide (a : Int) : Side := if a = 0 then .buy else .sell

def recordPosition (r : JournalRecord) : Position :=
  { positionTicket := r.positionTicket, symbolId := r.symbolId, side := recordSide r.a,
    state := if r.b ≠ 0 then .opened else .closed, volume := r.b, avgPriceTicks := r.c,
    realizedPnlMinor := r.d }

def applyPositionUpdate (s : Replay) (r : JournalRecord) : Option Replay :=
  if r.logicalOrderId ≠ 0 ∨ r.positionTicket = 0 ∨ r.a < 0 ∨ r.a > 1 ∨ r.b < 0 ∨ r.c < 0 then none
  else
    let p := recordPosition r
    let positions : Option Pms :=
      match s.next.positions.find r.positionTicket with
      | some old =>
        if old.symbolId ≠ r.symbolId ∨ old.side ≠ recordSide r.a ∨ old.state = .closed then none
        else some (s.next.positions.overwrite p)
      | none => if r.b = 0 then none else s.next.positions.restore p
    match positions with
    | none => none
    | some positions =>
      (s.next.portfolio.upsert p.positionTicket p.symbolId p.side p.volume p.realizedPnlMinor).map
        fun f => { s with next := { s.next with positions := positions, portfolio := f } }

def applyAccountUpdate (s : Replay) (r : JournalRecord) : Option Replay :=
  if r.logicalOrderId ≠ 0 ∨ r.positionTicket ≠ 0 ∨ r.c < 0 ∨ r.d < 0 ∨ r.b - r.c ≠ r.d then none
  else
    some { s with
      next := { s.next with account := { s.next.account with
        balanceMinor := r.a, equityMinor := r.b, marginUsedMinor := r.c, freeMarginMinor := r.d } }
      haveAccount := true
      havePnl := false }

def applyPnlUpdate (s : Replay) (r : JournalRecord) : Option Replay :=
  if r.logicalOrderId ≠ 0 ∨ r.positionTicket ≠ 0 ∨ r.d ≠ 0 ∨ !s.haveAccount ∨ s.havePnl ∨
      s.next.account.equityMinor ≠ s.next.account.balanceMinor + r.b then none
  else
    some { s with
      next := { s.next with account := { s.next.account with
        realizedPnlMinor := r.a, unrealizedPnlMinor := r.b, commissionPaidMinor := r.c } }
      havePnl := true }

/-- The body of the loop after the header checks; `none` is `return false`. -/
def applyRecord (s : Replay) (r : JournalRecord) : Option Replay :=
  match JournalRecordType.ofCode r.type with
  | .command => applyCommand s r
  | .orderState => applyOrderState s r
  | .acknowledgement => applyAcknowledgement s r
  | .rejection => applyRejection s r
  | .fill => applyFill s r
  | .cancel => applyCancel s r
  | .replace => applyReplace s r
  | .positionUpdate => applyPositionUpdate s r
  | .accountUpdate => applyAccountUpdate s r
  | .pnlUpdate => applyPnlUpdate s r

/-- The header check that both loops make before they look at the payload. -/
def headerOk (r : JournalRecord) (lastTs : Nat) : Bool :=
  r.reserved == 0 && decide (lastTs ≤ r.tsNs) && decide (r.symbolId < maxSymbols) &&
    decide (1 ≤ r.type) && decide (r.type ≤ 10)

/-- One iteration of the final loop: `unknown` until the venue says otherwise. -/
def markSlot (o : Oms) (k : Nat) : Option Oms :=
  let x := o.atSlot k
  if !x.state.isTerminal ∧ x.state ≠ .unknown then
    let q := o.markUnknownOnRestart x.ref
    if q.1 then some q.2 else none
  else some o

def markAll (o : Oms) : Option Oms := (List.range o.size).foldlM markSlot o

/-- After the last record. -/
def finish (s : Replay) (killPresent : Bool) (persistedHalt : Risk.HaltReason) :
    Option RecoveryState :=
  if s.haveAccount ≠ s.havePnl then none
  else
    (markAll s.next.orders).map fun orders =>
      { s.next with
        orders := orders
        account := { s.next.account with
          openOrders := orders.size
          openPositions := (s.next.positions.positions.filter fun p => p.state != .closed).length }
        kill := killPresent
        halt := if killPresent then (if persistedHalt = .none then .manualKill else persistedHalt)
          else persistedHalt }

def samePayload (a b : JournalRecord) : Bool :=
  a.tsNs == b.tsNs && a.type == b.type && a.reserved == b.reserved && a.symbolId == b.symbolId &&
    a.runId == b.runId && a.logicalOrderId == b.logicalOrderId &&
    a.positionTicket == b.positionTicket && a.a == b.a && a.b == b.b && a.c == b.c && a.d == b.d

/-- The loop of `recover`: `seen` are the records before `rest`, the next index is their number. -/
def recoverLoop (s : Replay) (lastTs : Nat) (seen : List JournalRecord) :
    List JournalRecord → Option Replay
  | [] => some s
  | r :: rest =>
    if r.seq ≠ seen.length ∨ !headerOk r lastTs ∨ seen.any (samePayload r) then none
    else
      match applyRecord s r with
      | none => none
      | some s' => recoverLoop s' r.tsNs (seen ++ [r]) rest

/-- `recover(const Journal&, RecoveryState&)`: the answer and the output parameter. -/
def recover (j : Journal) (out : RecoveryState) (killPresent : Bool)
    (persistedHalt : Risk.HaltReason) : Bool × RecoveryState :=
  if j.overflowed then (false, out)
  else
    match recoverLoop { next := RecoveryState.new out.portfolio.mode defaultCapacity } 0 [] j.records with
    | none => (false, out)
    | some s =>
      match finish s killPresent persistedHalt with
      | none => (false, out)
      | some state => (true, state)

end Recovery

/-- The fixed-size hash table of `recover_streaming`; cell value 0 is "empty". -/
structure DuplicateWindow where
  capacity : Nat
  table : Nat → UInt64

namespace DuplicateWindow

def new (window : Nat) : DuplicateWindow := ⟨nextPow2 (if window = 0 then 1 else window), fun _ => 0⟩

def mix (h v : UInt64) : UInt64 := (h ^^^ v) * 1099511628211

/-- FNV-1a over the eleven payload fields, one 64-bit word each. -/
def hash (r : JournalRecord) : UInt64 :=
  [UInt64.ofNat r.tsNs, UInt64.ofNat r.type, UInt64.ofNat r.reserved, UInt64.ofNat r.symbolId,
    r.runId, r.logicalOrderId, r.positionTicket, UInt64.ofInt r.a, UInt64.ofInt r.b,
    UInt64.ofInt r.c, UInt64.ofInt r.d].foldl mix 1469598103934665603

def checkAndRecord (w : DuplicateWindow) (r : JournalRecord) : Bool × DuplicateWindow :=
  let h := hash r
  let slot := h.toNat &&& (w.capacity - 1)
  (w.table slot == h && h != 0,
    { w with table := Function.update w.table slot (if h = 0 then 1 else h) })

/-- No record of the stream is taken for a repetition. -/
def flagsNone (w : DuplicateWindow) : List JournalRecord → Bool
  | [] => true
  | r :: rs => !(w.checkAndRecord r).1 && (w.checkAndRecord r).2.flagsNone rs

end DuplicateWindow

/-- A record source: the records it yields, then `done` or `corrupt`. -/
structure RecordSource where
  records : List JournalRecord
  corrupt : Bool := false

namespace Recovery

/-- The loop of `recover_streaming`. The stream position overwrites `seq`, which nothing
after that reads. -/
def streamLoop (s : Replay) (lastTs : Nat) (w : DuplicateWindow) : List JournalRecord → Option Replay
  | [] => some s
  | r :: rest =>
    if !headerOk r lastTs then none
    else if (w.checkAndRecord r).1 then none
    else
      match applyRecord s r with
      | none => none
      | some s' => streamLoop s' r.tsNs (w.checkAndRecord r).2 rest

def recoverStreaming (source : RecordSource) (out : RecoveryState) (dedupWindow : Nat)
    (killPresent : Bool) (persistedHalt : Risk.HaltReason) : Bool × RecoveryState :=
  match streamLoop { next := RecoveryState.new out.portfolio.mode out.orders.capacity } 0
      (.new dedupWindow) source.records with
  | none => (false, out)
  | some s =>
    if source.corrupt then (false, out)
    else
      match finish s killPresent persistedHalt with
      | none => (false, out)
      | some state => (true, state)

end Recovery

end MicrostructureEngine
