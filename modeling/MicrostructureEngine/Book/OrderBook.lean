import MicrostructureEngine.Lib.BestFirst
import MicrostructureEngine.Replay.StrategyReplayEngine

/-!
# The order book

`OrderBook`: two arrays of levels with a depth each, kept in order by shifting. A quote replaces
both sides; a delta sets or removes one level, evicts the worst one of a full side, or asks for a
rebase. The mathematics of the ladders is in `Lib.BestFirst`.
-/

namespace MicrostructureEngine.Book

open Replay (SymbolLimits)
open Strategy (Level)

set_option autoImplicit false

def maxBookDepth : Nat := 32

inductive Side where
  | bid
  | ask
  deriving DecidableEq, Repr, Inhabited

inductive DeltaAction where
  | add
  | modify
  | remove
  deriving DecidableEq, Repr, Inhabited

inductive BookStatus where
  | ok
  | crossedTolerated
  | crossedHalt
  | rebaseRequired
  | rejected
  deriving DecidableEq, Repr, Inhabited

structure CrossedTolerance where
  maxConsecutiveUpdates : Nat := 8
  maxDurationNs : Nat := 50000000
  deriving DecidableEq, Repr

/-- One side: the array and how much of it counts. -/
structure Ladder where
  levels : Nat → Level := fun _ => {}
  depth : Nat := 0

namespace Ladder

/-- The levels that count, best first. -/
def shown (l : Ladder) : List Level := (List.range l.depth).map l.levels

def find (l : Ladder) (price : Int) : Option Nat := l.shown.findIdx? fun level => level.priceTicks == price

/-- `levels[i] = levels[i + 1]` from `index` on. -/
def eraseAt (l : Ladder) (index : Nat) : Ladder where
  levels := (List.range' index (l.depth - 1 - index)).foldl
    (fun levels i => Function.update levels i (levels (i + 1))) l.levels
  depth := if l.depth > 0 then l.depth - 1 else l.depth

/-- Bids descend, asks ascend. -/
def better (side : Side) (price other : Int) : Bool :=
  match side with
  | .bid => decide (price > other)
  | .ask => decide (price < other)

/-- `levels[i] = levels[i - 1]` from the depth down to behind the position, and the entry there. -/
def insertAt (l : Ladder) (position : Nat) (entry : Level) : Ladder where
  levels := Function.update
    ((List.range' (position + 1) (l.depth - position)).reverse.foldl
      (fun levels i => Function.update levels i (levels (i - 1))) l.levels)
    position entry
  depth := l.depth + 1

def insertSorted (l : Ladder) (side : Side) (entry : Level) : Bool × Ladder :=
  let position := (l.shown.findIdx? fun level => better side entry.priceTicks level.priceTicks).getD l.depth
  if position = maxBookDepth then (false, l)
  else if l.depth = maxBookDepth then
    if position ≥ maxBookDepth then (false, l)
    else (true, insertAt { l with depth := l.depth - 1 } position entry)
  else (true, l.insertAt position entry)

/-- `levels[index].size = new_size`. -/
def resize (l : Ladder) (index : Nat) (size : Int) : Ladder :=
  { l with levels := Function.update l.levels index { l.levels index with size := size } }

end Ladder

structure OrderBook where
  bids : Ladder := {}
  asks : Ladder := {}
  symbolId : Nat := 0
  limits : SymbolLimits := {}
  tolerance : CrossedTolerance := {}
  crossedUpdates : Nat := 0
  crossedSinceNs : Nat := 0
  rebasePending : Bool := false
  rebaseOldRef : Int := 0
  rebaseNewRef : Int := 0
  updates : Nat := 0
  rebases : Nat := 0
  rejected : Nat := 0
  outsideWindow : Nat := 0

/-- The arguments of one `apply_delta`. -/
structure Delta where
  side : Side
  price : Int
  newSize : Int
  action : DeltaAction
  tsNs : Nat
  deriving DecidableEq, Repr

/-- A zero size is a removal however it is labelled. -/
def Delta.effective (d : Delta) : DeltaAction := if d.newSize = 0 then .remove else d.action

namespace OrderBook

def new (symbolId : Nat) (limits : SymbolLimits) (tolerance : CrossedTolerance) : OrderBook :=
  { symbolId := symbolId, limits := limits, tolerance := tolerance }

def ladder (b : OrderBook) : Side → Ladder
  | .bid => b.bids
  | .ask => b.asks

def setLadder (b : OrderBook) (side : Side) (l : Ladder) : OrderBook :=
  match side with
  | .bid => { b with bids := l }
  | .ask => { b with asks := l }

def clear (b : OrderBook) : OrderBook :=
  { b with
    bids := { b.bids with depth := 0 }
    asks := { b.asks with depth := 0 }
    crossedUpdates := 0
    crossedSinceNs := 0 }

def requestRebase (b : OrderBook) (newRef : Int) : OrderBook :=
  { { b with rebaseOldRef := b.rebaseNewRef, rebaseNewRef := newRef }.clear with
    rebases := b.rebases + 1
    rebasePending := true }

def hasBothSides (b : OrderBook) : Bool := decide (b.bids.depth > 0) && decide (b.asks.depth > 0)

def isCrossed (b : OrderBook) : Bool :=
  b.hasBothSides && decide ((b.bids.levels 0).priceTicks ≥ (b.asks.levels 0).priceTicks)

def evaluateCrossed (b : OrderBook) (tsNs : Nat) : BookStatus × OrderBook :=
  if !b.isCrossed then (.ok, { b with crossedUpdates := 0, crossedSinceNs := 0 })
  else
    let b := if b.crossedUpdates = 0 then { b with crossedSinceNs := tsNs } else b
    let b := { b with crossedUpdates := b.crossedUpdates + 1 }
    let tooMany := decide (b.crossedUpdates > b.tolerance.maxConsecutiveUpdates)
    let tooLong := decide (tsNs ≥ b.crossedSinceNs) &&
      decide (tsNs - b.crossedSinceNs > b.tolerance.maxDurationNs)
    (if tooMany || tooLong then .crossedHalt else .crossedTolerated, b)

def applyQuote (b : OrderBook) (bidPrice askPrice bidSize askSize : Int) (tsNs : Nat) : BookStatus × OrderBook :=
  if !b.limits.priceInRange bidPrice || !b.limits.priceInRange askPrice || !b.limits.sizeInRange bidSize ||
      !b.limits.sizeInRange askSize then (.rejected, { b with rejected := b.rejected + 1 })
  else if askPrice - bidPrice > b.limits.maxSpreadTicks then (.rejected, { b with rejected := b.rejected + 1 })
  else
    { b with
      bids := ⟨Function.update b.bids.levels 0 ⟨bidPrice, bidSize⟩, 1⟩
      asks := ⟨Function.update b.asks.levels 0 ⟨askPrice, askSize⟩, 1⟩
      updates := b.updates + 1 }.evaluateCrossed tsNs

def applyDelta (b : OrderBook) (d : Delta) : BookStatus × OrderBook :=
  if !b.limits.priceInRange d.price || !b.limits.sizeInRange d.newSize then
    (.rejected, { b with rejected := b.rejected + 1 })
  else
    let l := b.ladder d.side
    match d.effective, l.find d.price with
    | .remove, none => (.rebaseRequired, b.requestRebase d.price)
    | .remove, some index =>
      evaluateCrossed { b.setLadder d.side (l.eraseAt index) with updates := b.updates + 1 } d.tsNs
    | _, some index =>
      evaluateCrossed { b.setLadder d.side (l.resize index d.newSize) with updates := b.updates + 1 } d.tsNs
    | _, none =>
      let inserted := l.insertSorted d.side ⟨d.price, d.newSize⟩
      let b := if inserted.1 then b.setLadder d.side inserted.2 else { b with outsideWindow := b.outsideWindow + 1 }
      evaluateCrossed { b with updates := b.updates + 1 } d.tsNs

end OrderBook

end MicrostructureEngine.Book
