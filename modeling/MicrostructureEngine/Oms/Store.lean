import MicrostructureEngine.Exec.Journal
import MicrostructureEngine.Lib.Probing

/-!
# Order storage

The fields of class `Oms` and its member functions, as `oms.hpp` computes them: a dense
array of live orders, an open-addressed index from `BrokerOrderRef` to array slots, and
the running reservation. Arrays are total functions; only cells below the two capacities
are ever addressed. An index word is a `Probing.Cell`; `encodeWord` gives the stored
`uint32` value (`slot + occupied_bias`). The reservation is exact here: the source sums the
requested volumes in an int64 and does not look whether they fit.
-/

namespace MicrostructureEngine

open Probing
set_option autoImplicit false

def defaultCapacity : Nat := maxJournalRecords

def nextPow2Loop (n : Nat) : Nat → Nat → Nat
  | 0, p => p
  | fuel + 1, p => if p < n then nextPow2Loop n fuel (p <<< 1) else p

/-- `while (p < n) p <<= 1`; `n` doublings of `1` always reach `n`. -/
def nextPow2 (n : Nat) : Nat := nextPow2Loop n n 1

/-- splitmix64-style finalizer over both halves of the reference. -/
def mixRef (ref : BrokerOrderRef) : UInt64 :=
  let x := ref.logicalOrderId ^^^ (ref.runId * 0x9E3779B97F4A7C15)
  let x := x ^^^ (x >>> 30)
  let x := x * 0xBF58476D1CE4E5B9
  let x := x ^^^ (x >>> 27)
  let x := x * 0x94D049BB133111EB
  x ^^^ (x >>> 31)

def occupiedBias : Nat := 2

def encodeWord : Cell → Nat
  | .empty => 0
  | .tombstone => 1
  | .occupied slot => slot + occupiedBias

structure OmsState where
  capacity : Nat
  indexCapacity : Nat
  orders : Nat → Order
  index : Nat → Cell
  count : Nat
  tombstones : Nat
  reserved : Int

namespace OmsState

def new (capacity : Nat) : OmsState where
  capacity := capacity
  indexCapacity := nextPow2 ((if capacity ≠ 0 then capacity else 1) * 2)
  orders := fun _ => {}
  index := fun _ => .empty
  count := 0
  tombstones := 0
  reserved := 0

def home (s : OmsState) (ref : BrokerOrderRef) : Nat :=
  (mixRef ref).toNat &&& (s.indexCapacity - 1)

/-- Position `step` of the reference's probe run, wrapping the whole table. -/
def probePos (s : OmsState) (ref : BrokerOrderRef) (step : Nat) : Nat :=
  (s.home ref + step) &&& (s.indexCapacity - 1)

/-- The loop body of `index_probe_find` at position `pos`: return a position or go on. -/
def probeStep (s : OmsState) (ref : BrokerOrderRef) (pos : Nat) : Option Nat :=
  match s.index pos with
  | .empty => some s.indexCapacity
  | .tombstone => none
  | .occupied slot => if (s.orders slot).ref = ref then some pos else none

def indexProbeFind (s : OmsState) (ref : BrokerOrderRef) : Nat :=
  (scan s.indexCapacity fun step => s.probeStep ref (s.probePos ref step)).getD s.indexCapacity

def indexInsert (s : OmsState) (ref : BrokerOrderRef) (slot : Nat) : OmsState :=
  match scan s.indexCapacity fun step =>
      if (s.index (s.probePos ref step)).isOccupied then none else some (s.probePos ref step) with
  | none => s
  | some pos => { s with
      tombstones := if s.index pos = .tombstone then s.tombstones - 1 else s.tombstones
      index := Function.update s.index pos (.occupied slot) }

def rehash (s : OmsState) : OmsState :=
  (List.range s.count).foldl (fun t slot => t.indexInsert (t.orders slot).ref slot)
    { s with index := fun _ => .empty, tombstones := 0 }

/-- First half of `reclaim`: the order's index entry becomes a tombstone. -/
def eraseEntry (s : OmsState) (slot : Nat) : OmsState :=
  { s with
    index := Function.update s.index (s.indexProbeFind (s.orders slot).ref) .tombstone
    tombstones := s.tombstones + 1 }

/-- `orders_[slot] = orders_[last]`. -/
def copyLast (s : OmsState) (slot : Nat) : OmsState :=
  { s with orders := Function.update s.orders slot (s.orders (s.count - 1)) }

/-- The copied order's entry, probed after the copy, is updated in place. -/
def relabelEntry (s : OmsState) (slot : Nat) : OmsState :=
  { s with index := Function.update s.index (s.indexProbeFind (s.orders slot).ref) (.occupied slot) }

/-- Second half of `reclaim`: the last live order moves into the vacated slot. -/
def fillHole (s : OmsState) (slot : Nat) : OmsState :=
  let s : OmsState := if slot ≠ s.count - 1 then (s.copyLast slot).relabelEntry slot else s
  { s with count := s.count - 1 }

def reclaim (s : OmsState) (slot : Nat) : OmsState :=
  let s : OmsState := (s.eraseEntry slot).fillHole slot
  if s.tombstones > s.capacity then s.rehash else s

def find (s : OmsState) (ref : BrokerOrderRef) : Option Order :=
  let pos := s.indexProbeFind ref
  if pos = s.indexCapacity then none else some (s.orders (s.index pos).slot)

/-- A write through the pointer that `find` returns. -/
def modify (s : OmsState) (ref : BrokerOrderRef) (f : Order → Order) : OmsState :=
  let pos := s.indexProbeFind ref
  if pos = s.indexCapacity then s
  else
    let slot := (s.index pos).slot
    { s with orders := Function.update s.orders slot (f (s.orders slot)) }

def restore (s : OmsState) (o : Order) : Option Order × OmsState :=
  if (s.find o.ref).isSome ∨ s.count ≥ s.capacity ∨ o.requestedVolume ≤ 0 ∨
      o.filledVolume < 0 ∨ o.filledVolume > o.requestedVolume then (none, s)
  else
    let slot := s.count
    let s : OmsState := { s with orders := Function.update s.orders slot o }
    let s : OmsState := s.indexInsert o.ref slot
    let s : OmsState := if o.state.reservesExposure then { s with reserved := s.reserved + o.requestedVolume } else s
    (some o, { s with count := s.count + 1 })

/-- The risk approval is a token with no content; callers obtain it before the call. -/
def create (s : OmsState) (ref : BrokerOrderRef) (symbol : Nat) (volume : Int) :
    Option Order × OmsState :=
  if (s.find ref).isSome ∨ s.count ≥ s.capacity then (none, s)
  else
    let slot := s.count
    let o : Order := { ref := ref, symbolId := symbol, requestedVolume := volume, state := .pendingSend }
    let s : OmsState := { s with count := s.count + 1, orders := Function.update s.orders slot o }
    let s : OmsState := s.indexInsert ref slot
    (some o, { s with reserved := s.reserved + volume })

/-- The write of a new state and the release of the reservation it implies. -/
def setState (s : OmsState) (slot : Nat) (next : OrderState) : OmsState :=
  let o := s.orders slot
  let was := o.state.reservesExposure
  let now := next.reservesExposure
  { s with
    orders := Function.update s.orders slot { o with state := next }
    reserved := if was && !now then s.reserved - o.requestedVolume else s.reserved }

def transition (s : OmsState) (ref : BrokerOrderRef) (next : OrderState) : Bool × OmsState :=
  let pos := s.indexProbeFind ref
  if pos = s.indexCapacity then (false, s)
  else
    let slot := (s.index pos).slot
    if !legal (s.orders slot).state next then (false, s)
    else
      let s : OmsState := s.setState slot next
      (true, if next.isTerminal then s.reclaim slot else s)

/-- The state a fill of `volume` asks for, read after the volume has been added. -/
def fillTarget (o : Order) (volume : Int) : OrderState :=
  if o.remaining - volume ≠ 0 then .partiallyFilled else .filled

def fill (s : OmsState) (ref : BrokerOrderRef) (volume : Int) : Bool × OmsState :=
  match s.find ref with
  | none => (false, s)
  | some o =>
    if volume ≤ 0 ∨ volume > o.remaining then (false, s)
    else
      (s.modify ref fun o => { o with filledVolume := o.filledVolume + volume }).transition ref
        (fillTarget o volume)

def recoverFill (s : OmsState) (ref : BrokerOrderRef) (volume : Int) : Bool × OmsState :=
  match s.find ref with
  | none => (false, s)
  | some o =>
    if volume ≤ 0 ∨ volume > o.remaining then (false, s)
    else (true, s.modify ref fun o => { o with filledVolume := o.filledVolume + volume })

def markUnknownOnRestart (s : OmsState) (ref : BrokerOrderRef) : Bool × OmsState :=
  match s.find ref with
  | none => (false, s)
  | some o =>
    if o.state.isTerminal then (false, s)
    else (true, s.modify ref fun o => { o with state := .unknown })

def resolveUnknown (s : OmsState) (ref : BrokerOrderRef) (terminal : OrderState) : Bool × OmsState :=
  match s.find ref with
  | none => (false, s)
  | some o =>
    if o.state = .unknown ∧ terminal.isTerminal then s.transition ref terminal else (false, s)

/-- `operator=`: fresh arrays when the capacities differ, then a cell-by-cell copy. -/
def assign (s other : OmsState) : OmsState :=
  let s : OmsState :=
    if s.capacity ≠ other.capacity ∨ s.indexCapacity ≠ other.indexCapacity then
      { s with capacity := other.capacity, indexCapacity := other.indexCapacity,
               orders := fun _ => {}, index := fun _ => .empty }
    else s
  { s with
    orders := fun i => if i < s.capacity then other.orders i else s.orders i
    index := fun p => if p < s.indexCapacity then other.index p else s.index p
    count := other.count
    reserved := other.reserved
    tombstones := other.tombstones }

end OmsState

end MicrostructureEngine
