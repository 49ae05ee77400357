import MicrostructureEngine.Evaluation.Backtest

/-!
# The dashboard's forward returns

`analytics.ts` and `roundTripCost` of `quant.ts`, over exact rationals. The rows mirror the tables of the
engine's database; the two searches move the ends of an interval and remember the last hit, and the
quality rows are looked up by a text made of time and symbol.
-/

namespace MicrostructureEngine.Dashboard

open PartitionPoint
open Evaluation (TickRow SignalRow QualityRow)
set_option autoImplicit false

universe u
variable {τ : Type u}

abbrev Tick := TickRow ℚ
abbrev Signal := SignalRow
abbrev Quality := QualityRow

structure Dataset where
  ticks : List Tick
  signals : List Signal
  quality : List Quality

def horizonS : Int := 60
def baselineTolS : Int := 120
def futureTolS : Int := 120

/-- One turn of the loop of `bySymbol` at the symbol of the row. -/
def pushRow : Option (List τ) → τ → Option (List τ)
  | some arr, r => some (arr ++ [r])
  | none, r => some [r]

def bySymbol (symbol : τ → String) (rows : List τ) : String → Option (List τ) :=
  rows.foldl (fun m r => Function.update m (symbol r) (pushRow (m (symbol r)) r)) fun _ => none

/-- The price of the row a search ended at; the index is negative without a hit. -/
def priceAt (ticks : List Tick) (idx : Int) (inTolerance : Tick → Bool) : Option ℚ :=
  if idx < 0 then none
  else
    match ticks[idx.toNat]? with
    | none => none
    | some tick => if inTolerance tick then some tick.price else none

/-- Rightmost tick at or before the target. -/
def toleranceBefore (ticks : List Tick) (target tol : Int) : Option ℚ :=
  let idx := lastHit (at? (fun tick => decide (tick.ts ≤ target)) ticks) ticks.length 0 (ticks.length - 1) (-1)
  priceAt ticks idx fun tick => decide (target - tick.ts ≤ tol)

def priceAtOrAfter (ticks : List Tick) (target tol : Int) : Option ℚ :=
  let idx := firstHit (at? (fun tick => decide (target ≤ tick.ts)) ticks) ticks.length 0 (ticks.length - 1) (-1)
  priceAt ticks idx fun tick => decide (tick.ts - target ≤ tol)

def roundTripCost (symbol : String) : ℚ :=
  match symbol with
  | "EUR/USD" => 0.00015
  | "USO" => 0.0002
  | "XAU/USD" => 0.00015
  | _ => 0.0003

structure FwdObs where
  ts : Int
  symbol : String
  confidence : Int
  raw : ℚ
  dirNet : ℚ
  dirGross : ℚ
  correct : Bool
  deriving DecidableEq, Repr

def keyOf (ts : Int) (symbol : String) : String := toString ts ++ "|" ++ symbol

/-- `qByKey`: a later row with the same key replaces the earlier one. -/
def qualityByKey (quality : List Quality) : String → Option Quality :=
  quality.foldl (fun m q => Function.update m (keyOf q.ts q.symbol) (some q)) fun _ => none

/-- One turn of the loop over the signals. -/
def forwardOf (ticksBySym : String → Option (List Tick)) (qByKey : String → Option Quality) (s : Signal) :
    Option FwdObs :=
  if s.momentum = .neutral then none
  else
    match qByKey (keyOf s.ts s.symbol) with
    | none => none
    | some q =>
      if q.stale ≠ 0 then none
      else
        match ticksBySym s.symbol with
        | none => none
        | some ticks =>
          match toleranceBefore ticks s.ts baselineTolS, priceAtOrAfter ticks (s.ts + horizonS) futureTolS with
          | some base, some fut =>
            if base = 0 then none
            else
              let raw := (fut - base) / base
              let sign : ℚ := if s.momentum = .bullish then 1 else -1
              let dirGross := sign * raw
              some
                { ts := s.ts
                  symbol := s.symbol
                  confidence := q.confidence
                  raw := raw
                  dirGross := dirGross
                  dirNet := dirGross - roundTripCost s.symbol
                  correct := decide (dirGross > 0) }
          | _, _ => none

/-- The observations, sorted by time; the sort is stable. -/
def forwardObservations (ds : Dataset) : List FwdObs :=
  (ds.signals.filterMap (forwardOf (bySymbol (·.symbol) ds.ticks) (qualityByKey ds.quality))).mergeSort
    fun a b => decide (a.ts ≤ b.ts)

end MicrostructureEngine.Dashboard
