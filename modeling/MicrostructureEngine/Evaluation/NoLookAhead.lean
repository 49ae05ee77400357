import MicrostructureEngine.Evaluation.Backtest
import Mathlib.Algebra.Ring.Rat

/-!
# No look-ahead

The searches on a series sorted by time find the last tick at or before a time and the first one at or
after it, duplicates included. The baseline of a signal is so a function of the ticks up to the signal,
and the price at a horizon one of the ticks from the horizon on.
-/

namespace MicrostructureEngine.Evaluation

open PartitionPoint
set_option autoImplicit false

universe u
variable {α : Type u}

def SortedByTs (series : TickSeries α) : Prop := series.Pairwise fun a b => a.ts ≤ b.ts

/-- The ticks at or before a time, and those at or after it. -/
def upTo (time : Int) (series : TickSeries α) : TickSeries α := series.filter fun a => decide (a.ts ≤ time)

def since (time : Int) (series : TickSeries α) : TickSeries α := series.filter fun a => decide (time ≤ a.ts)

/-- The price of the last tick up to the target, if it is not older than the tolerance. -/
def lastPrice (series : TickSeries α) (target tolerance : Int) : Option α :=
  (upTo target series).getLast?.bind fun a => if target - a.ts ≤ tolerance then some a.price else none

/-- The price of the first tick since the target, if it is not later than the tolerance. -/
def firstPrice (series : TickSeries α) (target tolerance : Int) : Option α :=
  (since target series).head?.bind fun a => if a.ts - target ≤ tolerance then some a.price else none

section Searches
variable {series : TickSeries α} (target tolerance : Int)

theorem SortedByTs.partitioned_lt (h : SortedByTs series) : Partitioned (fun a => decide (a.ts < target)) series := by
  refine h.imp fun {a b} hab hb => ?_
  rw [decide_eq_true_eq] at hb ⊢
  omega

theorem SortedByTs.partitioned_le (h : SortedByTs series) : Partitioned (fun a => !decide (target < a.ts)) series := by
  refine h.imp fun {a b} hab hb => ?_
  simp only [Bool.not_eq_true', decide_eq_false_iff_not] at hb ⊢
  omega

theorem boundBy_eq {before : Tick α → Bool} (h : Partitioned before series) :
    boundBy before series = (series.filter before).length :=
  h.splits.halving_eq (Nat.le_refl _) (Nat.zero_le _) (by rw [Nat.zero_add]; exact List.length_filter_le _ _)
    (Nat.le_of_eq (Nat.zero_add _))

theorem priceAtOrAfter_eq (h : SortedByTs series) :
    priceAtOrAfter series target tolerance = firstPrice series target tolerance := by
  have hpoint := (h.partitioned_lt target).getElem?_point
  have hsince : (series.filter fun a => !decide (a.ts < target)) = since target series := by
    unfold since
    refine List.filter_congr fun a _ => ?_
    rw [← decide_not]
    exact decide_eq_decide.mpr Int.not_lt
  rw [hsince] at hpoint
  unfold priceAtOrAfter firstPrice
  rw [boundBy_eq (h.partitioned_lt target), hpoint]
  cases (since target series).head? with
  | none => rfl
  | some a =>
    dsimp only [Option.bind_some]
    by_cases hlate : a.ts - target > tolerance
    · rw [if_pos hlate, if_neg (by omega)]
    · rw [if_neg hlate, if_pos (by omega)]

theorem priceAtOrBefore_eq (h : SortedByTs series) :
    priceAtOrBefore series target tolerance = lastPrice series target tolerance := by
  have hupTo : (series.filter fun a => !decide (target < a.ts)) = upTo target series := by
    unfold upTo
    refine List.filter_congr fun a _ => ?_
    rw [← decide_not]
    exact decide_eq_decide.mpr Int.not_lt
  have hbefore := (h.partitioned_le target).getElem?_before
  unfold priceAtOrBefore lastPrice
  rw [boundBy_eq (h.partitioned_le target)]
  rw [hupTo] at hbefore ⊢
  dsimp only
  by_cases hnone : (upTo target series).length = 0
  · rw [if_pos hnone, List.length_eq_zero_iff.mp hnone]
    rfl
  · rw [if_neg hnone, hbefore (Nat.pos_of_ne_zero hnone)]
    cases (upTo target series).getLast? with
    | none => rfl
    | some a =>
      dsimp only [Option.bind_some]
      by_cases hold : target - a.ts > tolerance
      · rw [if_pos hold, if_neg (by omega)]
      · rw [if_neg hold, if_pos (by omega)]

end Searches

/-! ## Signals -/

/-- The ticks of a symbol; without a series there are none. -/
def seriesOf (ticks : TicksBySymbol α) (symbol : String) : TickSeries α := (ticks symbol).getD []

section Signals
variable {ticks ticks' : TicksBySymbol α} (s : RawSignal)

theorem baselineOf_eq (h : SortedByTs (seriesOf ticks s.symbol)) :
    baselineOf ticks s = lastPrice (seriesOf ticks s.symbol) s.ts baselineTolSec := by
  unfold baselineOf seriesOf at *
  cases hseries : ticks s.symbol with
  | none => rfl
  | some series =>
    rw [hseries] at h
    exact priceAtOrBefore_eq s.ts baselineTolSec h

theorem horizonPrice_eq (h : SortedByTs (seriesOf ticks s.symbol)) (horizon : Horizon) :
    horizonPrice ticks s horizon =
      firstPrice (seriesOf ticks s.symbol) (s.ts + horizon.seconds) horizon.tolerance := by
  unfold horizonPrice seriesOf at *
  cases hseries : ticks s.symbol with
  | none => rfl
  | some series =>
    rw [hseries] at h
    exact priceAtOrAfter_eq (s.ts + horizon.seconds) horizon.tolerance h

theorem firstPrice_source {series : TickSeries α} {target tolerance : Int} {price : α}
    (h : firstPrice series target tolerance = some price) :
    ∃ a ∈ series, a.price = price ∧ target ≤ a.ts ∧ a.ts ≤ target + tolerance := by
  obtain ⟨a, ha, hprice⟩ := Option.bind_eq_some_iff.mp h
  obtain ⟨hmem, hsince⟩ := List.mem_filter.mp (List.mem_of_head? ha)
  split at hprice
  · exact ⟨a, hmem, Option.some.inj hprice, of_decide_eq_true hsince, by omega⟩
  · cases hprice

section Loop
variable [OfScientific α] [Zero α] [LE α] [DecidableLE α] [Sub α] [Div α]

/-- The returns of an observation are taken from the baseline and the horizon prices of its signal. -/
theorem observe_returns {s : RawSignal} {obs : Observation α} (h : observe ticks s = .ok obs) :
    ∃ now, baselineOf ticks s = some now ∧ ∀ horizon, obs.has horizon = (horizonPrice ticks s horizon).isSome ∧
      ∀ price, horizonPrice ticks s horizon = some price → obs.ret horizon = (price - now) / now := by
  unfold observe at h
  split at h
  · cases h
  · cases hnow : baselineOf ticks s with
    | none =>
      rw [hnow] at h
      cases h
    | some now =>
      rw [hnow] at h
      dsimp only at h
      split at h
      · cases h
      · split at h
        · cases h
        · cases h
          refine ⟨now, rfl, fun horizon => ⟨rfl, fun price hprice => ?_⟩⟩
          dsimp only
          rw [hprice]
          rfl

/-- The searches answer the last tick at or before the target and the first one at or after it, within
the tolerance. Whatever happens after a signal leaves its baseline as it is, and no price at a horizon is
from before the horizon; the returns of an observation come from these prices. -/
theorem no_look_ahead :
    (∀ (series : TickSeries α) (target tolerance : Int), SortedByTs series →
      priceAtOrBefore series target tolerance = lastPrice series target tolerance ∧
        priceAtOrAfter series target tolerance = firstPrice series target tolerance) ∧
    (∀ (ticks ticks' : TicksBySymbol α) (s : RawSignal),
      SortedByTs (seriesOf ticks s.symbol) → SortedByTs (seriesOf ticks' s.symbol) →
        upTo s.ts (seriesOf ticks s.symbol) = upTo s.ts (seriesOf ticks' s.symbol) →
          baselineOf ticks s = baselineOf ticks' s) ∧
    (∀ (ticks : TicksBySymbol α) (s : RawSignal) (horizon : Horizon) (price : α),
      SortedByTs (seriesOf ticks s.symbol) → horizonPrice ticks s horizon = some price →
        ∃ a ∈ seriesOf ticks s.symbol, a.price = price ∧ s.ts + horizon.seconds ≤ a.ts ∧
          a.ts ≤ s.ts + horizon.seconds + horizon.tolerance) ∧
    (∀ (ticks : TicksBySymbol α) (s : RawSignal) (obs : Observation α), observe ticks s = .ok obs →
      ∃ now, baselineOf ticks s = some now ∧ ∀ horizon, obs.has horizon = (horizonPrice ticks s horizon).isSome ∧
        ∀ price, horizonPrice ticks s horizon = some price → obs.ret horizon = (price - now) / now) := by
  refine ⟨?_, ?_, ?_, fun ticks s obs => observe_returns⟩
  · intro series target tolerance h
    exact ⟨priceAtOrBefore_eq target tolerance h, priceAtOrAfter_eq target tolerance h⟩
  · intro ticks ticks' s h h' hsame
    rw [baselineOf_eq s h, baselineOf_eq s h']
    unfold lastPrice
    rw [hsame]
  · intro ticks s horizon price h hprice
    rw [horizonPrice_eq s h horizon] at hprice
    exact firstPrice_source hprice

end Loop

end Signals

/-- A tick before the signal, two at its time, and one for each of the nearer horizons. -/
def rallied : TicksBySymbol ℚ := fun _ => some [⟨40, 100⟩, ⟨100, 110⟩, ⟨100, 120⟩, ⟨170, 126⟩, ⟨420, 90⟩]

/-- The same up to the time of the signal. -/
def crashed : TicksBySymbol ℚ := fun _ => some [⟨40, 100⟩, ⟨100, 110⟩, ⟨100, 120⟩, ⟨101, 7⟩]

def signalAt (ts : Int) : RawSignal := ⟨ts, "EUR/USD", .bullish, .low, 70, 0⟩

theorem no_look_ahead_rallied :
    priceAtOrBefore (seriesOf rallied "EUR/USD") 100 120 = lastPrice (seriesOf rallied "EUR/USD") 100 120 ∧
    (baselineOf rallied (signalAt 100) = some 120 ∧
      baselineOf rallied (signalAt 100) = baselineOf crashed (signalAt 100)) ∧
    (∃ a ∈ seriesOf rallied "EUR/USD", a.price = 126 ∧ 100 + 60 ≤ a.ts ∧ a.ts ≤ 100 + 60 + 120) ∧
    ∃ obs, observe rallied (signalAt 100) = .ok obs ∧ obs.has .h900 = false ∧
      obs.ret .h300 = (90 - 120) / 120 := by
  obtain ⟨hsearch, hbaseline, hhorizon, hobserve⟩ := no_look_ahead (α := ℚ)
  have hsorted : SortedByTs (seriesOf rallied "EUR/USD") := by
    unfold SortedByTs
    decide +kernel
  have hsorted' : SortedByTs (seriesOf crashed "EUR/USD") := by
    unfold SortedByTs
    decide +kernel
  have hnow : baselineOf rallied (signalAt 100) = some 120 := by decide +kernel
  refine ⟨(hsearch _ 100 120 hsorted).1, ⟨hnow, ?_⟩, ?_, ?_⟩
  · exact hbaseline rallied crashed (signalAt 100) hsorted hsorted' (by decide +kernel)
  · exact hhorizon rallied (signalAt 100) .h60 126 hsorted (by decide +kernel)
  · cases hobs : observe rallied (signalAt 100) with
    | error reason =>
      have hok : (observe rallied (signalAt 100)).isOk = true := by decide +kernel
      rw [hobs] at hok
      cases hok
    | ok obs =>
      obtain ⟨now, hbase, hfuture⟩ := hobserve rallied (signalAt 100) obs hobs
      obtain rfl := Option.some.inj (hnow.symm.trans hbase)
      refine ⟨obs, rfl, ?_, (hfuture .h300).2 90 (by decide +kernel)⟩
      rw [(hfuture .h900).1]
      decide +kernel

end MicrostructureEngine.Evaluation
