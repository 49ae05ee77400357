import Mathlib.Data.Rat.Init
import Mathlib.Logic.Function.Basic
import MicrostructureEngine.Lib.PartitionPoint

/-!
# The backtest

`evaluation/main.cpp` and `evaluation/metrics.cpp`: a signal is paired with a baseline, which is the
last price at or before it, and with the first prices at or after three horizons. What is measured is
grouped by symbol, by regime and by confidence band. Times are exact integers; prices are of any type,
with operations that are only used, until a result is about exact arithmetic.
-/

namespace MicrostructureEngine.Evaluation

open PartitionPoint
set_option autoImplicit false

universe u
variable {α : Type u}

inductive Momentum where
  | bullish
  | bearish
  | neutral
  deriving DecidableEq, Repr

inductive VolRegime where
  | low
  | medium
  | high
  deriving DecidableEq, Repr

structure Tick (α : Type u) where
  ts : Int
  price : α
  deriving DecidableEq, Repr

abbrev TickSeries (α : Type u) := List (Tick α)

/-- `std::map` from a symbol to its series. -/
abbrev TicksBySymbol (α : Type u) := String → Option (TickSeries α)

structure RawSignal where
  ts : Int
  symbol : String
  momentum : Momentum
  volRegime : VolRegime
  confidence : Int
  stale : Int
  deriving DecidableEq, Repr

/-! ## Tables

The rows of the engine's database, as far as they are read. -/

structure TickRow (α : Type u) where
  ts : Int
  symbol : String
  price : α
  deriving DecidableEq, Repr

structure SignalRow where
  ts : Int
  symbol : String
  momentum : Momentum
  volRegime : VolRegime
  deriving DecidableEq, Repr

structure QualityRow where
  ts : Int
  symbol : String
  stale : Int
  confidence : Int
  deriving DecidableEq, Repr

/-- The rows come in the order of the query. -/
def loadTicks (rows : List (TickRow α)) : TicksBySymbol α :=
  rows.foldl (fun out r => Function.update out r.symbol (some ((out r.symbol).getD [] ++ [⟨r.ts, r.price⟩])))
    fun _ => none

def joinRow (s : SignalRow) (q : QualityRow) : RawSignal :=
  { ts := s.ts
    symbol := s.symbol
    momentum := s.momentum
    volRegime := s.volRegime
    confidence := q.confidence
    stale := q.stale }

/-- `signals JOIN quality_scores` on symbol and time. -/
def joined (signals : List SignalRow) (quality : List QualityRow) : List RawSignal :=
  signals.flatMap fun s => (quality.filter fun q => q.symbol = s.symbol ∧ q.ts = s.ts).map (joinRow s)

/-- What `loadSignals` may answer: the query orders by symbol and time, and rows that agree in both come in
any order. -/
structure LoadSignals (signals : List SignalRow) (quality : List QualityRow) (out : List RawSignal) : Prop where
  rows : out.Perm (joined signals quality)
  ordered : out.Pairwise fun a b => a.symbol < b.symbol ∨ (a.symbol = b.symbol ∧ a.ts ≤ b.ts)

/-! ## Prices -/

/-- `std::lower_bound` and `std::upper_bound`: the first position that is not before the value. -/
def boundBy (before : Tick α → Bool) (series : TickSeries α) : Nat :=
  halving (at? before series) series.length 0 series.length

/-- The first tick at or after the target, unless it is later than the tolerance allows. -/
def priceAtOrAfter (series : TickSeries α) (target tolerance : Int) : Option α :=
  match series[boundBy (fun a => decide (a.ts < target)) series]? with
  | none => none
  | some it => if it.ts - target > tolerance then none else some it.price

/-- The last tick at or before the target, with the same rule on the past side. -/
def priceAtOrBefore (series : TickSeries α) (target tolerance : Int) : Option α :=
  let bound := boundBy (fun a => !decide (target < a.ts)) series
  if bound = 0 then none
  else
    match series[bound - 1]? with
    | none => none
    | some it => if target - it.ts > tolerance then none else some it.price

/-! ## Observations -/

inductive Horizon where
  | h60
  | h300
  | h900
  deriving DecidableEq, Repr

def Horizon.seconds : Horizon → Int
  | h60 => 60
  | h300 => 300
  | h900 => 900

/-- One cycle of slack. -/
def Horizon.tolerance : Horizon → Int
  | h60 => 120
  | h300 => 360
  | h900 => 960

def baselineTolSec : Int := 120

/-- `p_now` of a signal. -/
def baselineOf (ticks : TicksBySymbol α) (s : RawSignal) : Option α :=
  (ticks s.symbol).bind fun series => priceAtOrBefore series s.ts baselineTolSec

/-- `p60`, `p300` and `p900` of a signal. -/
def horizonPrice (ticks : TicksBySymbol α) (s : RawSignal) (h : Horizon) : Option α :=
  (ticks s.symbol).bind fun series => priceAtOrAfter series (s.ts + h.seconds) h.tolerance

/-- `has` and `ret` at the three horizons. -/
structure Observation (α : Type u) where
  symbol : String
  momentum : Momentum
  volRegime : VolRegime
  confidence : Int
  has : Horizon → Bool
  ret : Horizon → α
  roundTripCost : α

inductive Exclusion where
  | stale
  | noBaseline
  | noFuture
  deriving DecidableEq, Repr

section Costs
variable [OfScientific α]

/-- `costFor` over the default table. -/
def costFor (symbol : String) : α :=
  if symbol = "EUR/USD" then 1.5e-4
  else if symbol = "XAU/USD" then 1.5e-4
  else if symbol = "USO" then 2.0e-4
  else 3.0e-4

variable [Zero α] [LE α] [DecidableLE α] [Sub α] [Div α]

/-- One turn of the loop over the signals. -/
def observe (ticks : TicksBySymbol α) (s : RawSignal) : Except Exclusion (Observation α) :=
  if s.stale ≠ 0 then .error .stale
  else
    match baselineOf ticks s with
    | none => .error .noBaseline
    | some now =>
      if now ≤ 0 then .error .noBaseline
      else
        let future := horizonPrice ticks s
        if !(future .h60).isSome && !(future .h300).isSome && !(future .h900).isSome then .error .noFuture
        else
          .ok
            { symbol := s.symbol
              momentum := s.momentum
              volRegime := s.volRegime
              confidence := s.confidence
              has := fun h => (future h).isSome
              ret := fun h => (future h).elim 0 fun price => (price - now) / now
              roundTripCost := costFor s.symbol }

structure Tally (α : Type u) where
  observations : List (Observation α) := []
  nExcludedStale : Nat := 0
  nExcludedNoBaseline : Nat := 0
  nExcludedNoFuture : Nat := 0

def Tally.add (t : Tally α) : Except Exclusion (Observation α) → Tally α
  | .error .stale => { t with nExcludedStale := t.nExcludedStale + 1 }
  | .error .noBaseline => { t with nExcludedNoBaseline := t.nExcludedNoBaseline + 1 }
  | .error .noFuture => { t with nExcludedNoFuture := t.nExcludedNoFuture + 1 }
  | .ok obs => { t with observations := t.observations ++ [obs] }

def tally (ticks : TicksBySymbol α) (signals : List RawSignal) : Tally α :=
  signals.foldl (fun t s => t.add (observe ticks s)) {}

end Costs

/-! ## Metrics -/

structure HorizonStats (α : Type u) [Zero α] where
  nBull : Nat := 0
  nBear : Nat := 0
  bullHits : Nat := 0
  bearHits : Nat := 0
  bullHitsNet : Nat := 0
  bearHitsNet : Nat := 0
  sumDirReturn : α := 0
  sumDirCost : α := 0

structure GroupStats (α : Type u) [Zero α] where
  nTotal : Nat := 0
  horizon : Horizon → HorizonStats α := fun _ => {}

section Metrics
variable [Zero α] [LT α] [DecidableLT α] [Add α] [Neg α]

/-- `step`: what one return at one horizon counts for. -/
def HorizonStats.step (h : HorizonStats α) (isBull isBear : Bool) (raw cost : α) : HorizonStats α :=
  if isBull then
    { h with
      nBull := h.nBull + 1
      bullHits := if raw > 0 then h.bullHits + 1 else h.bullHits
      bullHitsNet := if raw > cost then h.bullHitsNet + 1 else h.bullHitsNet
      sumDirReturn := h.sumDirReturn + raw
      sumDirCost := h.sumDirCost + cost }
  else if isBear then
    { h with
      nBear := h.nBear + 1
      bearHits := if raw < 0 then h.bearHits + 1 else h.bearHits
      bearHitsNet := if raw < -cost then h.bearHitsNet + 1 else h.bearHitsNet
      sumDirReturn := h.sumDirReturn + -raw
      sumDirCost := h.sumDirCost + cost }
  else h

def accumulate (g : GroupStats α) (obs : Observation α) : GroupStats α :=
  let isBull := obs.momentum = .bullish
  let isBear := obs.momentum = .bearish
  { nTotal := g.nTotal + 1
    horizon := fun h =>
      if obs.has h then (g.horizon h).step isBull isBear (obs.ret h) obs.roundTripCost else g.horizon h }

/-- A map like `by_symbol`; an absent group has no counts. -/
def groupBy {κ : Type} [DecidableEq κ] (key : Observation α → κ) (observations : List (Observation α)) :
    κ → GroupStats α :=
  observations.foldl (fun groups obs => Function.update groups (key obs) (accumulate (groups (key obs)) obs))
    fun _ => {}

def bySymbol (observations : List (Observation α)) : String → GroupStats α := groupBy (·.symbol) observations

end Metrics

end MicrostructureEngine.Evaluation
