import MicrostructureEngine.Exec.Types
import MicrostructureEngine.Lib.SlotTable

/-!
# Simulated account, margin model and position book

All money is in minor units and all arithmetic is integer. Positions are keyed by ticket,
with the net volume of a symbol derived from the tickets that are not closed.
-/

namespace MicrostructureEngine

set_option autoImplicit false

def maxPositions : Nat := 64

structure AccountState where
  balanceMinor : Int := 0
  equityMinor : Int := 0
  marginUsedMinor : Int := 0
  freeMarginMinor : Int := 0
  realizedPnlMinor : Int := 0
  unrealizedPnlMinor : Int := 0
  commissionPaidMinor : Int := 0
  openPositions : Nat := 0
  openOrders : Nat := 0
  stoppedOut : Bool := false
  deriving DecidableEq, Repr

structure SymbolSpec where
  symbolId : Nat := 0
  tickSizeTicks : Int := 1
  volumeMin : Int := 1
  volumeMax : Int := 100000
  volumeStep : Int := 1
  contractSize : Int := 100000
  tickValueMinor : Int := 1
  commissionPerLotMinor : Int := 0
  marginRateBp : Int := 100
  tradable : Bool := true
  deriving DecidableEq, Repr, Inhabited

namespace SymbolSpec

def volumeValid (spec : SymbolSpec) (volume : Int) : Bool :=
  decide (volume ≥ spec.volumeMin) && decide (volume ≤ spec.volumeMax) &&
    decide (spec.volumeStep > 0) && volume.tmod spec.volumeStep == 0

def priceAligned (spec : SymbolSpec) (priceTicks : Int) : Bool :=
  decide (spec.tickSizeTicks > 0) && priceTicks.tmod spec.tickSizeTicks == 0

end SymbolSpec

namespace MarginModel

/-- Notional times margin rate, rounded up. -/
def requiredMinor (spec : SymbolSpec) (volume priceTicks : Int) : Int :=
  if volume ≤ 0 ∨ priceTicks ≤ 0 then 0
  else
    let notional := volume * priceTicks * spec.tickValueMinor
    (notional * spec.marginRateBp + 9999).tdiv 10000

def stopOut (account : AccountState) (stopOutLevelBp : Int) : Bool :=
  if account.marginUsedMinor ≤ 0 then false
  else decide ((account.equityMinor * 10000).tdiv account.marginUsedMinor < stopOutLevelBp)

end MarginModel

namespace Exec

/-- The used slots of the array, in index order. -/
structure PositionBook where
  positions : List Position := []
  deriving DecidableEq, Repr, Inhabited

/-- `position.state == PositionState::closed` -/
def isClosed (p : Position) : Bool := p.state == .closed

/-- What one position adds to the net volume of a symbol. -/
def signedVolume (symbolId : Nat) (p : Position) : Int :=
  if p.symbolId ≠ symbolId ∨ isClosed p then 0
  else if p.side = .buy then p.volume else -p.volume

namespace PositionBook

/-- A closed ticket is history: its slot is reclaimed. The answer is the slot and the book;
`none` when the book is full. -/
def openTicket (b : PositionBook) (ticket : UInt64) (symbolId : Nat) (side : Side)
    (volume priceTicks : Int) (tsNs : Nat) : Option (Nat × PositionBook) :=
  (SlotTable.allocate isClosed maxPositions {} b.positions).map fun r =>
    (r.1, ⟨r.2.set r.1
      { positionTicket := ticket, symbolId := symbolId, side := side, state := .opened,
        volume := volume, avgPriceTicks := priceTicks, openedNs := tsNs }⟩)

/-- The pointer of a lookup is the slot and what it holds. -/
def find (b : PositionBook) (ticket : UInt64) : Option (Nat × Position) :=
  SlotTable.locate (fun p => p.positionTicket == ticket && !isClosed p) b.positions

/-- A write through a pointer. -/
def write (b : PositionBook) (slot : Nat) (p : Position) : PositionBook := ⟨b.positions.set slot p⟩

/-- Adds to a ticket at the volume-weighted average price. -/
def add (p : Position) (volume priceTicks : Int) : Position :=
  let total := p.volume + volume
  if total ≤ 0 then p
  else
    let weighted := p.avgPriceTicks * p.volume + priceTicks * volume
    { p with avgPriceTicks := (weighted + total.tdiv 2).tdiv total, volume := total }

def openCount (b : PositionBook) : Nat := (b.positions.filter fun p => !isClosed p).length

def netVolume (b : PositionBook) (symbolId : Nat) : Int :=
  (b.positions.map (signedVolume symbolId)).sum

end PositionBook

/-- Signed PnL in minor units for a position marked at `markTicks`. -/
def positionPnlMinor (p : Position) (spec : SymbolSpec) (markTicks : Int) : Int :=
  if p.volume ≤ 0 ∨ markTicks ≤ 0 then 0
  else
    let move := if p.side = .buy then markTicks - p.avgPriceTicks else p.avgPriceTicks - markTicks
    move * p.volume * spec.tickValueMinor

end Exec

end MicrostructureEngine
