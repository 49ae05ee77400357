import MicrostructureEngine.Lib.AllOrNothing
import MicrostructureEngine.Lib.LinearTable
import MicrostructureEngine.Risk.Engine

/-!
# The exposure and credit ledger

`RiskLedger`: running exposure, position and credit for every strategy, symbol and venue
and for the whole process, and an open-addressed table with one reservation for each order
in flight. Calls are sequential here; the atomic counters are read and written as plain
fields. A ledger built with no reservation slots divides by zero in the source's `probe`;
in the model its table has nothing to find and no room.
-/

namespace MicrostructureEngine

open Probing AllOrNothing
set_option autoImplicit false

/-- `unattributed_strategy`: reservations made through the venue hook, which has no strategy. -/
def unattributedStrategy : UInt32 := 0

/-- The source adds to int64 atomics, which wrap without a check. The two agree until a total leaves
the int64 range; with the default credit budget of `int64Max` that is when a dimension is given back
what it was never charged, as by a release after `attributeStrategy`. -/
structure DimensionState where
  openExposure : Int := 0
  position : Int := 0
  creditRemaining : Int := 0
  halted : Bool := false
  deriving DecidableEq, Repr, Inhabited

structure DimensionLimits where
  openOrderLimit : Int := Risk.int64Max
  positionLimit : Int := Risk.int64Max
  creditBudget : Int := Risk.int64Max
  deriving DecidableEq, Repr, Inhabited

structure RiskLedgerConfig where
  maxOrderVolume : Int := 100000
  global : DimensionLimits := {}
  perStrategy : DimensionLimits := {}
  perVenue : DimensionLimits := {}
  perSymbol : DimensionLimits := {}
  deriving DecidableEq, Repr, Inhabited

/-- Where a `DimensionState` lives: a strategy slot, a symbol, a venue slot or `global_`. -/
inductive Dimension where
  | strategy (slot : Nat)
  | symbol (index : Nat)
  | venue (slot : Nat)
  | global
  deriving DecidableEq, Repr, Inhabited

def RiskLedgerConfig.limits (config : RiskLedgerConfig) : Dimension → DimensionLimits
  | .strategy _ => config.perStrategy
  | .symbol _ => config.perSymbol
  | .venue _ => config.perVenue
  | .global => config.global

structure Reservation where
  occupied : Bool := false
  ref : BrokerOrderRef := {}
  strategy : UInt32 := unattributedStrategy
  venue : UInt64 := 0
  symbol : Nat := 0
  side : Side := .buy
  requestedVolume : Int := 0
  lastKnownFilled : Int := 0
  creditReserved : Int := 0
  creditReleased : Bool := false
  active : Bool := false
  deriving DecidableEq, Repr, Inhabited

abbrev Dimensions := Dimension → DimensionState

def DimensionState.addExposure (volume : Int) (s : DimensionState) : DimensionState :=
  { s with openExposure := s.openExposure + volume }

def DimensionState.subExposure (volume : Int) (s : DimensionState) : DimensionState :=
  { s with openExposure := s.openExposure - volume }

def DimensionState.addCredit (cost : Int) (s : DimensionState) : DimensionState :=
  { s with creditRemaining := s.creditRemaining + cost }

def DimensionState.subCredit (cost : Int) (s : DimensionState) : DimensionState :=
  { s with creditRemaining := s.creditRemaining - cost }

/-- A fill of `delta`: exposure turns into position. -/
def DimensionState.settle (delta signedDelta : Int) (s : DimensionState) : DimensionState :=
  { s with openExposure := s.openExposure - delta, position := s.position + signedDelta }

/-- `reserve_exposure`: `fetch_add`, compare the new value, `fetch_sub` if it is over. -/
def reserveExposure (st : Dimensions) (dims : List (Dimension × DimensionLimits)) (volume : Int) :
    Dimensions × Bool :=
  attempt (.addExposure volume) (.subExposure volume)
    (fun s lim => decide (s.openExposure > lim.openOrderLimit)) st dims

def reserveCredit (st : Dimensions) (dims : List (Dimension × DimensionLimits)) (cost : Int) :
    Dimensions × Bool :=
  attempt (.subCredit cost) (.addCredit cost) (fun s _ => decide (s.creditRemaining < 0)) st dims

def unwindExposure (st : Dimensions) (dims : List Dimension) (volume : Int) : Dimensions :=
  touchAll (.subExposure volume) st dims

def unwindCredit (st : Dimensions) (dims : List Dimension) (cost : Int) : Dimensions :=
  touchAll (.addCredit cost) st dims

structure RiskLedger where
  config : RiskLedgerConfig
  maxStrategies : Nat
  maxVenues : Nat
  reservationCapacity : Nat
  /-- The ids of the registered strategy slots. -/
  strategyIds : Nat → Option UInt32
  venueIds : Nat → Option UInt64
  dims : Dimensions
  symbolHalted : Nat → Bool
  reservations : Nat → Reservation
  reservationLiveCount : Nat

namespace RiskLedger

def new (maxStrategies maxVenues reservationCapacity : Nat) (config : RiskLedgerConfig) :
    RiskLedger where
  config := config
  maxStrategies := maxStrategies
  maxVenues := maxVenues
  reservationCapacity := reservationCapacity
  strategyIds := fun _ => none
  venueIds := fun _ => none
  dims := fun d => { creditRemaining := (config.limits d).creditBudget }
  symbolHalted := fun _ => false
  reservations := fun _ => {}
  reservationLiveCount := 0

/-- The first slot registered to `id`. -/
def findSlot {α : Type} [DecidableEq α] (n : Nat) (ids : Nat → Option α) (id : α) : Option Nat :=
  scan n fun i => if ids i = some id then some i else none

/-- The first slot not registered to anyone. -/
def freeSlot {α : Type} [DecidableEq α] (n : Nat) (ids : Nat → Option α) : Option Nat :=
  scan n fun i => if ids i = none then some i else none

def findStrategySlot (l : RiskLedger) (id : UInt32) : Option Nat :=
  findSlot l.maxStrategies l.strategyIds id

def findVenueSlot (l : RiskLedger) (id : UInt64) : Option Nat :=
  findSlot l.maxVenues l.venueIds id

def registerStrategy (l : RiskLedger) (id : UInt32) : RiskLedger × Bool :=
  if id = unattributedStrategy then (l, false)
  else if (l.findStrategySlot id).isSome then (l, false)
  else match freeSlot l.maxStrategies l.strategyIds with
    | some i => ({ l with strategyIds := Function.update l.strategyIds i (some id) }, true)
    | none => (l, false)

def registerVenue (l : RiskLedger) (id : UInt64) : RiskLedger × Bool :=
  if (l.findVenueSlot id).isSome then (l, false)
  else match freeSlot l.maxVenues l.venueIds with
    | some i => ({ l with venueIds := Function.update l.venueIds i (some id) }, true)
    | none => (l, false)

def halt (l : RiskLedger) (d : Dimension) : RiskLedger :=
  { l with dims := touch (fun s => { s with halted := true }) l.dims d }

def haltStrategy (l : RiskLedger) (id : UInt32) : RiskLedger :=
  match l.findStrategySlot id with
  | some slot => l.halt (.strategy slot)
  | none => l

def haltVenue (l : RiskLedger) (id : UInt64) : RiskLedger :=
  match l.findVenueSlot id with
  | some slot => l.halt (.venue slot)
  | none => l

def haltSymbol (l : RiskLedger) (symbol : Nat) : RiskLedger :=
  if symbol < maxSymbols then
    { l with symbolHalted := Function.update l.symbolHalted symbol true }
  else l

/-- Where the probe run of `ref` starts, before it is reduced to the table. -/
def home (ref : BrokerOrderRef) : Nat :=
  (ref.runId * 1099511628211 + ref.logicalOrderId).toNat

/-- The first slot of the run that is free or holds `ref`; `reservation_capacity_` if none. -/
def probe (l : RiskLedger) (ref : BrokerOrderRef) : Nat :=
  let pos := home ref % l.reservationCapacity
  (scan l.reservationCapacity fun i =>
    let p := (pos + i) % l.reservationCapacity
    if (l.reservations p).occupied = false ∨ (l.reservations p).ref = ref then some p
    else none).getD l.reservationCapacity

def findReservation (l : RiskLedger) (ref : BrokerOrderRef) : Option Nat :=
  let p := l.probe ref
  if p ≠ l.reservationCapacity ∧ (l.reservations p).occupied then some p else none

def setReservation (l : RiskLedger) (p : Nat) (r : Reservation) : RiskLedger :=
  { l with reservations := Function.update l.reservations p r }

def allocateReservation (l : RiskLedger) (ref : BrokerOrderRef) : Option (RiskLedger × Nat) :=
  let p := l.probe ref
  if p = l.reservationCapacity ∨ (l.reservations p).occupied then none
  else
    some ({ l.setReservation p { l.reservations p with occupied := true } with
      reservationLiveCount := l.reservationLiveCount + 1 }, p)

def freeReservation (l : RiskLedger) (ref : BrokerOrderRef) : RiskLedger :=
  let p := l.probe ref
  if p ≠ l.reservationCapacity ∧ (l.reservations p).occupied then
    { l.setReservation p {} with reservationLiveCount := l.reservationLiveCount - 1 }
  else l

def dimsFor (l : RiskLedger) (r : Reservation) : List Dimension :=
  (if r.strategy ≠ unattributedStrategy then
    (l.findStrategySlot r.strategy).toList.map Dimension.strategy else []) ++
  (if r.symbol < maxSymbols then [.symbol r.symbol] else []) ++
  (l.findVenueSlot r.venue).toList.map Dimension.venue ++ [.global]

def limitsFor (l : RiskLedger) (r : Reservation) : List DimensionLimits :=
  (if r.strategy ≠ unattributedStrategy ∧ (l.findStrategySlot r.strategy).isSome then
    [l.config.perStrategy] else []) ++
  (if r.symbol < maxSymbols then [l.config.perSymbol] else []) ++
  (if (l.findVenueSlot r.venue).isSome then [l.config.perVenue] else []) ++ [l.config.global]

/-- `reserve` past its guards: exposure, credit, and a slot of the table, each step undoing
the ones before it when it fails. -/
def reserveDims (l : RiskLedger) (dims : List (Dimension × DimensionLimits)) (strategy : UInt32)
    (venue : UInt64) (symbol : Nat) (side : Side) (volume : Int) (ref : BrokerOrderRef) :
    RiskLedger × Bool :=
  let (exposed, admitted) := reserveExposure l.dims dims volume
  if admitted = false then ({ l with dims := exposed }, false)
  else
    let (charged, paid) := reserveCredit exposed dims volume
    if paid = false then
      ({ l with dims := unwindExposure charged (dims.map Prod.fst) volume }, false)
    else match { l with dims := charged }.allocateReservation ref with
    | none =>
      let exposureBack := unwindExposure charged (dims.map Prod.fst) volume
      ({ l with dims := unwindCredit exposureBack (dims.map Prod.fst) volume }, false)
    | some (allocated, p) =>
      (allocated.setReservation p { allocated.reservations p with
        ref := ref, strategy := strategy, venue := venue, symbol := symbol, side := side
        requestedVolume := volume, lastKnownFilled := 0, creditReserved := volume
        creditReleased := false, active := true }, true)

/-- `reserve`: all or nothing over strategy, symbol, venue and global. -/
def reserve (l : RiskLedger) (strategy : UInt32) (venue : UInt64) (symbol : Nat) (side : Side)
    (volume : Int) (ref : BrokerOrderRef) : RiskLedger × Bool :=
  if volume ≤ 0 ∨ volume > l.config.maxOrderVolume then (l, false)
  else if (l.findReservation ref).isSome then (l, false)
  else
    let strategySlot :=
      if strategy = unattributedStrategy then none else l.findStrategySlot strategy
    if strategy ≠ unattributedStrategy ∧ strategySlot = none then (l, false)
    else match l.findVenueSlot venue with
    | none => (l, false)
    | some venueSlot =>
      if symbol ≥ maxSymbols then (l, false)
      else if (strategySlot.any fun s => (l.dims (.strategy s)).halted)
          || (l.dims (.venue venueSlot)).halted || l.symbolHalted symbol then (l, false)
      else
        let dims := strategySlot.toList.map (fun s => (Dimension.strategy s, l.config.perStrategy)) ++
          [(.symbol symbol, l.config.perSymbol), (.venue venueSlot, l.config.perVenue),
            (.global, l.config.global)]
        l.reserveDims dims strategy venue symbol side volume ref

def admitCreate (l : RiskLedger) (venue : UInt64) (symbol : Nat) (volume : Int)
    (ref : BrokerOrderRef) : RiskLedger × Bool :=
  l.reserve unattributedStrategy venue symbol .buy volume ref

def attributeStrategy (l : RiskLedger) (ref : BrokerOrderRef) (strategy : UInt32) :
    RiskLedger × Bool :=
  match l.findReservation ref with
  | none => (l, false)
  | some p =>
    if (l.reservations p).strategy ≠ unattributedStrategy then (l, false)
    else (l.setReservation p { l.reservations p with strategy := strategy }, true)

def release (l : RiskLedger) (ref : BrokerOrderRef) : RiskLedger :=
  match l.findReservation ref with
  | none => l
  | some p =>
    let r := l.reservations p
    if r.active = false then l
    else
      let remaining := r.requestedVolume - r.lastKnownFilled
      let dims := l.dimsFor r
      let unwound := if remaining > 0 then unwindExposure l.dims dims remaining else l.dims
      let refunded :=
        if r.creditReleased = false then unwindCredit unwound dims r.creditReserved else unwound
      freeReservation { l.setReservation p { r with creditReleased := true, active := false } with
        dims := refunded } ref

def reconcile (l : RiskLedger) (ref : BrokerOrderRef) (currentFilledVolume : Int)
    (isTerminalOrGone : Bool) : RiskLedger :=
  match l.findReservation ref with
  | none => l
  | some p =>
    let r := l.reservations p
    if r.active = false then l
    else
      let delta := currentFilledVolume - r.lastKnownFilled
      let settled :=
        if delta > 0 then
          let signedDelta := if r.side = .buy then delta else -delta
          { l.setReservation p { r with lastKnownFilled := currentFilledVolume } with
            dims := touchAll (DimensionState.settle delta signedDelta) l.dims (l.dimsFor r) }
        else l
      if isTerminalOrGone then settled.release ref else settled

def adjustReplace (l : RiskLedger) (ref : BrokerOrderRef) (newVolume : Int) : RiskLedger × Bool :=
  match l.findReservation ref with
  | none => (l, false)
  | some p =>
    let r := l.reservations p
    if r.active = false then (l, false)
    else
      let delta := newVolume - r.requestedVolume
      let resized := l.setReservation p { r with requestedVolume := newVolume }
      if delta = 0 then (l, true)
      else if delta > 0 then
        if newVolume > l.config.maxOrderVolume then (l, false)
        else
          let (exposed, admitted) := reserveExposure l.dims ((l.dimsFor r).zip (l.limitsFor r)) delta
          if admitted then ({ resized with dims := exposed }, true)
          else ({ l with dims := exposed }, false)
      else ({ resized with dims := unwindExposure l.dims (l.dimsFor r) (-delta) }, true)

/-- `admit_replace` of the venue hook; its venue argument is not read. -/
def admitReplace (l : RiskLedger) (ref : BrokerOrderRef) (newVolume : Int) : RiskLedger × Bool :=
  l.adjustReplace ref newVolume

def undoReplaceIncrease (l : RiskLedger) (ref : BrokerOrderRef) (delta : Int) : RiskLedger :=
  match l.findReservation ref with
  | none => l
  | some p =>
    let r := l.reservations p
    if delta ≤ 0 then l
    else
      { l.setReservation p { r with requestedVolume := r.requestedVolume - delta } with
        dims := unwindExposure l.dims (l.dimsFor r) delta }

/-- One live order of a snapshot. The counters move whether or not the table has room. -/
def rebuildOrder (venue : UInt64) (venueSlot : Nat) (l : RiskLedger) (o : Order) : RiskLedger :=
  if o.state.isTerminal then l
  else
    let remaining := o.requestedVolume - o.filledVolume
    if remaining ≤ 0 ∨ o.symbolId ≥ maxSymbols then l
    else
      let signedFilled := if o.side = .buy then o.filledVolume else -o.filledVolume
      let counted := { l with
        dims := touchAll (DimensionState.settle (-remaining) signedFilled) l.dims
          [.symbol o.symbolId, .venue venueSlot, .global] }
      match counted.allocateReservation o.ref with
      | none => counted
      | some (allocated, p) =>
        allocated.setReservation p { allocated.reservations p with
          ref := o.ref, strategy := unattributedStrategy, venue := venue, symbol := o.symbolId
          side := o.side, requestedVolume := o.requestedVolume, lastKnownFilled := o.filledVolume
          creditReserved := 0, creditReleased := true, active := true }

def rebuildFromSnapshot (l : RiskLedger) (venue : UInt64) (orders : List Order) : RiskLedger :=
  match l.findVenueSlot venue with
  | none => l
  | some venueSlot => orders.foldl (rebuildOrder venue venueSlot) l

section Observability

def strategyState (l : RiskLedger) (id : UInt32) : Option DimensionState :=
  (l.findStrategySlot id).map fun slot => l.dims (.strategy slot)

def venueState (l : RiskLedger) (id : UInt64) : Option DimensionState :=
  (l.findVenueSlot id).map fun slot => l.dims (.venue slot)

def symbolState (l : RiskLedger) (symbol : Nat) : Option DimensionState :=
  if symbol < maxSymbols then some (l.dims (.symbol symbol)) else none

def globalState (l : RiskLedger) : DimensionState := l.dims .global

end Observability

end RiskLedger

end MicrostructureEngine
