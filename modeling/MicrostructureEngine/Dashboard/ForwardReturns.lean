import Mathlib.Algebra.BigOperators.Group.List.Basic
import Mathlib.Tactic.Ring
import MicrostructureEngine.Dashboard.Joins

/-!
# The dashboard and the backtest

On the same rows the dashboard's forward observations are the harness's directional observations at the
60-second horizon. Both find the same two prices; the gates stand in another order but let the same
signals through, and the join on symbol and time is a lookup as long as no quality row repeats.
-/

namespace MicrostructureEngine.Dashboard

open PartitionPoint Evaluation KeyedFold
open Evaluation (TickRow SignalRow QualityRow)
set_option autoImplicit false

/-! ## Prices -/

def tickOf (row : Tick) : Evaluation.Tick ℚ := ⟨row.ts, row.price⟩

section Searches
variable {ticks : List Tick} (target tol : Int)

theorem priceAt_nat (i : Nat) (inTolerance : Tick → Bool) :
    priceAt ticks i inTolerance = ticks[i]?.bind fun tick => if inTolerance tick then some tick.price else none := by
  unfold priceAt
  rw [if_neg (by omega), Int.toNat_natCast]
  cases ticks[i]? with
  | none => rfl
  | some tick => rfl

theorem toleranceBefore_eq (h : SortedByTs (ticks.map tickOf)) :
    toleranceBefore ticks target tol = lastPrice (ticks.map tickOf) target tol := by
  have hpart : Partitioned (fun tick : Tick => decide (tick.ts ≤ target)) ticks := by
    refine (List.pairwise_map.mp h).imp fun {a b} hab hb => ?_
    rw [decide_eq_true_eq] at hb ⊢
    exact Int.le_trans hab hb
  have hupTo : upTo target (ticks.map tickOf) = (ticks.filter fun tick => decide (tick.ts ≤ target)).map tickOf :=
    List.filter_map
  have hle := hpart.splits.le
  have hidx : lastHit (at? (fun tick => decide (tick.ts ≤ target)) ticks) ticks.length 0 (ticks.length - 1) (0 - 1) =
      (ticks.filter fun tick => decide (tick.ts ≤ target)).length - 1 :=
    hpart.splits.lastHit_eq (by omega) (Int.le_refl 0) (by omega) (by omega) (by omega)
  unfold toleranceBefore lastPrice
  rw [hupTo, List.getLast?_map]
  rw [Int.zero_sub] at hidx
  dsimp only
  rw [hidx]
  have hbefore := hpart.getElem?_before
  generalize (ticks.filter fun tick => decide (tick.ts ≤ target)) = before at hbefore ⊢
  match before with
  | [] => rfl
  | a :: rest =>
    have hpos : 0 < (a :: rest).length := Nat.zero_lt_succ _
    rw [← Int.natCast_pred_of_pos hpos, priceAt_nat, hbefore hpos, Option.bind_map]
    exact Option.bind_congr fun a _ => if_congr decide_eq_true_iff rfl rfl

theorem priceAtOrAfter_eq (h : SortedByTs (ticks.map tickOf)) :
    priceAtOrAfter ticks target tol = firstPrice (ticks.map tickOf) target tol := by
  have hpart : Partitioned (fun tick : Tick => !decide (target ≤ tick.ts)) ticks := by
    refine (List.pairwise_map.mp h).imp fun {a b} hab hb => ?_
    simp only [Bool.not_eq_true', decide_eq_false_iff_not] at hb ⊢
    exact fun ha => hb (Int.le_trans ha hab)
  have hsince : since target (ticks.map tickOf) = (ticks.filter fun tick => decide (target ≤ tick.ts)).map tickOf :=
    List.filter_map
  have hpoint := hpart.getElem?_point
  have hsplits := hpart.splits_not
  simp only [Bool.not_not] at hpoint
  unfold priceAtOrAfter firstPrice
  rw [hsince, List.head?_map, ← hpoint]
  generalize (ticks.filter fun tick => !decide (target ≤ tick.ts)).length = k at hsplits ⊢
  have hle := hsplits.le
  have hidx : firstHit (at? (fun tick => decide (target ≤ tick.ts)) ticks) ticks.length 0 (ticks.length - 1) (-1) =
      if k = ticks.length then -1 else (k : Int) :=
    hsplits.firstHit_eq (by omega) (Int.le_refl 0) (by omega) (by omega) (by omega) (by rw [if_pos (by omega)])
  dsimp only
  rw [hidx]
  by_cases hend : k = ticks.length
  · rw [if_pos hend, hend, List.getElem?_eq_none (Nat.le_refl _)]
    rfl
  · rw [if_neg hend, priceAt_nat, Option.bind_map]
    exact Option.bind_congr fun a _ => if_congr decide_eq_true_iff rfl rfl

end Searches

/-! ## One signal -/

theorem roundTripCost_eq (symbol : String) : roundTripCost symbol = costFor symbol := by
  unfold costFor
  by_cases heur : symbol = "EUR/USD"
  · rw [if_pos heur, heur]
    decide +kernel
  · rw [if_neg heur]
    by_cases hxau : symbol = "XAU/USD"
    · rw [if_pos hxau, hxau]
      decide +kernel
    · rw [if_neg hxau]
      by_cases huso : symbol = "USO"
      · rw [if_pos huso, huso]
        decide +kernel
      · rw [if_neg huso]
        unfold roundTripCost
        split
        · exact absurd rfl heur
        · exact absurd rfl huso
        · exact absurd rfl hxau
        · decide +kernel

/-- What both programs make of a signal whose two prices are there. -/
def forwardFrom (r : RawSignal) (now fut : ℚ) : FwdObs :=
  let raw := (fut - now) / now
  let dirGross := if r.momentum = .bullish then raw else -raw
  { ts := r.ts
    symbol := r.symbol
    confidence := r.confidence
    raw := raw
    dirGross := dirGross
    dirNet := dirGross - costFor r.symbol
    correct := decide (dirGross > 0) }

/-- An observation with a return at the 60-second horizon that is counted as bull or bear, in the form of
the dashboard. -/
def directional (ts : Int) (obs : Observation ℚ) : Option FwdObs :=
  if obs.has .h60 ∧ obs.momentum ≠ .neutral then
    let raw := obs.ret .h60
    let dirGross := if obs.momentum = .bullish then raw else -raw
    some
      { ts := ts
        symbol := obs.symbol
        confidence := obs.confidence
        raw := raw
        dirGross := dirGross
        dirNet := dirGross - obs.roundTripCost
        correct := decide (dirGross > 0) }
  else none

def harnessOf (ticks : TicksBySymbol ℚ) (r : RawSignal) : Option FwdObs :=
  match observe ticks r with
  | .error _ => none
  | .ok obs => directional r.ts obs

/-- The gates of a signal, in an order that is neither program's. -/
def gated (r : RawSignal) (base fut : Option ℚ) : Option FwdObs :=
  if r.stale ≠ 0 ∨ r.momentum = .neutral then none else base.bind fun now => fut.map (forwardFrom r now)

theorem harnessOf_eq {ticks : TicksBySymbol ℚ} {r : RawSignal}
    (hpositive : ∀ now, baselineOf ticks r = some now → 0 < now) :
    harnessOf ticks r = gated r (baselineOf ticks r) (horizonPrice ticks r .h60) := by
  unfold harnessOf observe gated
  by_cases hstale : r.stale ≠ 0
  · rw [if_pos hstale, if_pos (Or.inl hstale)]
  · rw [if_neg hstale]
    cases hnow : baselineOf ticks r with
    | none =>
      dsimp only [Option.bind_none]
      rw [ite_self]
    | some now =>
      have hpos := hpositive now hnow
      dsimp only [Option.bind_some]
      rw [if_neg (not_le.mpr hpos)]
      cases hfut : horizonPrice ticks r .h60 with
      | none =>
        dsimp only [Option.map_none]
        rw [ite_self]
        split
        · rfl
        · rename_i obs hobs
          split at hobs
          · cases hobs
          · cases hobs
            unfold directional
            rw [if_neg]
            rintro ⟨hhas, -⟩
            dsimp only at hhas
            rw [hfut] at hhas
            cases hhas
      | some fut =>
        rw [if_neg (by simp)]
        dsimp only
        unfold directional
        dsimp only
        by_cases hneutral : r.momentum = .neutral
        · rw [if_neg fun h => h.2 hneutral, if_pos (Or.inr hneutral)]
        · rw [if_pos ⟨by rw [hfut]; rfl, hneutral⟩, if_neg (not_or.mpr ⟨hstale, hneutral⟩), hfut]
          rfl

theorem forwardOf_eq {ticksBySym : String → Option (List Tick)} {qByKey : String → Option Quality} {s : Signal}
    (hnonzero : ∀ base, toleranceBefore ((ticksBySym s.symbol).getD []) s.ts baselineTolS = some base → base ≠ 0) :
    forwardOf ticksBySym qByKey s = (qByKey (keyOf s.ts s.symbol)).bind fun q =>
      gated (joinRow s q) (toleranceBefore ((ticksBySym s.symbol).getD []) s.ts baselineTolS)
        (priceAtOrAfter ((ticksBySym s.symbol).getD []) (s.ts + horizonS) futureTolS) := by
  unfold forwardOf gated joinRow
  dsimp only
  cases qByKey (keyOf s.ts s.symbol) with
  | none =>
    dsimp only [Option.bind_none]
    rw [ite_self]
  | some q =>
    by_cases hneutral : s.momentum = .neutral
    · rw [if_pos hneutral, Option.bind_some, if_pos (Or.inr hneutral)]
    · rw [if_neg hneutral, Option.bind_some]
      dsimp only
      by_cases hstale : q.stale ≠ 0
      · rw [if_pos hstale, if_pos (Or.inl hstale)]
      · rw [if_neg hstale, if_neg (not_or.mpr ⟨hstale, hneutral⟩)]
        cases hticks : ticksBySym s.symbol with
        | none => rfl
        | some ticks =>
          rw [hticks] at hnonzero
          dsimp only [Option.getD_some] at hnonzero ⊢
          cases hbase : toleranceBefore ticks s.ts baselineTolS with
          | none => rfl
          | some base =>
            cases priceAtOrAfter ticks (s.ts + horizonS) futureTolS with
            | none => rfl
            | some fut =>
              dsimp only [Option.bind_some, Option.map_some]
              rw [if_neg (hnonzero base hbase), roundTripCost_eq]
              unfold forwardFrom
              dsimp only
              by_cases hbullish : s.momentum = .bullish
              · rw [if_pos hbullish, if_pos hbullish, one_mul]
              · rw [if_neg hbullish, if_neg hbullish, neg_one_mul]

/-! ## The same tables -/

/-- The dashboard's dataset and what the harness reads from the same tables. -/
structure SameTables (ds : Dataset) (rows : List (TickRow ℚ)) (signals : List RawSignal) : Prop where
  ticks : ∀ symbol, (ds.ticks.filter fun r => r.symbol = symbol) = rows.filter fun r => r.symbol = symbol
  sorted : ∀ symbol, (ds.ticks.filter fun r => r.symbol = symbol).Pairwise fun a b => a.ts ≤ b.ts
  positive : ∀ row ∈ ds.ticks, 0 < row.price
  quality : DistinctQuality ds.quality
  signals : LoadSignals ds.signals ds.quality signals

/-- The harness's observations that the dashboard has too. -/
def harnessForward (rows : List (TickRow ℚ)) (signals : List RawSignal) : List FwdObs :=
  signals.filterMap (harnessOf (loadTicks rows))

section Tables
variable {ds : Dataset} {rows : List (TickRow ℚ)} {signals : List RawSignal}

theorem SameTables.series (h : SameTables ds rows signals) (symbol : String) :
    ((bySymbol (·.symbol) ds.ticks symbol).getD []).map tickOf = seriesOf (loadTicks rows) symbol := by
  rw [bySymbol_getD, seriesOf_loadTicks, h.ticks symbol]
  rfl

theorem SameTables.sortedSeries (h : SameTables ds rows signals) (symbol : String) :
    SortedByTs (seriesOf (loadTicks rows) symbol) := by
  rw [← h.series symbol, bySymbol_getD]
  exact List.pairwise_map.mpr (h.sorted symbol)

theorem lastPrice_source {series : TickSeries ℚ} {target tolerance : Int} {price : ℚ}
    (h : lastPrice series target tolerance = some price) : ∃ a ∈ series, a.price = price := by
  obtain ⟨a, ha, hprice⟩ := Option.bind_eq_some_iff.mp h
  split at hprice
  · exact ⟨a, (List.mem_filter.mp (List.mem_of_getLast? ha)).1, Option.some.inj hprice⟩
  · cases hprice

theorem SameTables.lastPrice_pos (h : SameTables ds rows signals) {symbol : String} {target tolerance : Int} {price : ℚ}
    (hprice : lastPrice (seriesOf (loadTicks rows) symbol) target tolerance = some price) : 0 < price := by
  obtain ⟨a, ha, rfl⟩ := lastPrice_source hprice
  rw [← h.series symbol, bySymbol_getD] at ha
  obtain ⟨row, hrow, rfl⟩ := List.mem_map.mp ha
  exact h.positive row (List.mem_filter.mp hrow).1

/-- One signal: the dashboard's turn of the loop is the harness's on the row that joins, if one does. -/
theorem SameTables.forwardOf_eq (h : SameTables ds rows signals) (s : Signal) :
    forwardOf (bySymbol (·.symbol) ds.ticks) (qualityByKey ds.quality) s =
      (qualityByKey ds.quality (keyOf s.ts s.symbol)).bind fun q => harnessOf (loadTicks rows) (joinRow s q) := by
  have hsorted := h.sortedSeries s.symbol
  rw [← h.series s.symbol] at hsorted
  have hbase := toleranceBefore_eq s.ts baselineTolS hsorted
  have hfut := priceAtOrAfter_eq (s.ts + horizonS) futureTolS hsorted
  rw [h.series s.symbol] at hbase hfut
  rw [Dashboard.forwardOf_eq fun base hfound => ne_of_gt (h.lastPrice_pos (hbase.symm.trans hfound)), hbase, hfut]
  refine Option.bind_congr fun q _ => ?_
  have hnow := baselineOf_eq (joinRow s q) (h.sortedSeries s.symbol)
  rw [harnessOf_eq fun now hfound => h.lastPrice_pos (hnow.symm.trans hfound), hnow,
    horizonPrice_eq (joinRow s q) (h.sortedSeries s.symbol)]
  rfl

theorem SameTables.forwardObservations_perm (h : SameTables ds rows signals) :
    (forwardObservations ds).Perm (harnessForward rows signals) := by
  have hjoin : ds.signals.filterMap (forwardOf (bySymbol (·.symbol) ds.ticks) (qualityByKey ds.quality)) =
      (joined ds.signals ds.quality).filterMap (harnessOf (loadTicks rows)) := by
    unfold joined
    rw [List.filterMap_flatMap, List.filterMap_eq_flatMap_toList]
    refine List.flatMap_congr fun s _ => ?_
    rw [h.forwardOf_eq s, h.quality.joins s]
    cases qualityByKey ds.quality (keyOf s.ts s.symbol) with
    | none => rfl
    | some q =>
      rw [Option.bind_some, Option.toList_some, List.map_singleton, List.filterMap_cons]
      cases harnessOf (loadTicks rows) (joinRow s q) with
      | none => rfl
      | some obs => rfl
  refine (List.mergeSort_perm _ _).trans ?_
  rw [hjoin]
  exact (h.signals.rows.filterMap _).symm

end Tables

/-! ## Sums -/

/-- The counts of the harness at one horizon are those of these observations. -/
structure Agrees (stats : HorizonStats ℚ) (obs : List FwdObs) : Prop where
  gross : (obs.map (·.dirGross)).sum = stats.sumDirReturn
  net : (obs.map (·.dirNet)).sum = stats.sumDirReturn - stats.sumDirCost
  count : obs.length = stats.nBull + stats.nBear
  correct : obs.countP (·.correct) = stats.bullHits + stats.bearHits

theorem Agrees.empty : Agrees {} [] := ⟨rfl, (sub_zero 0).symm, rfl, rfl⟩

theorem Agrees.perm {stats : HorizonStats ℚ} {obs obs' : List FwdObs} (h : Agrees stats obs) (hperm : obs'.Perm obs) :
    Agrees stats obs' :=
  ⟨(hperm.map _).sum_eq.trans h.gross, (hperm.map _).sum_eq.trans h.net, hperm.length_eq.trans h.count,
    (hperm.countP_eq _).trans h.correct⟩

theorem Agrees.append {stats stats' : HorizonStats ℚ} {found : List FwdObs} (h : Agrees stats found) (o : FwdObs)
    (hgross : stats'.sumDirReturn = stats.sumDirReturn + o.dirGross)
    (hnet : stats'.sumDirReturn - stats'.sumDirCost = stats.sumDirReturn - stats.sumDirCost + o.dirNet)
    (hcount : stats'.nBull + stats'.nBear = stats.nBull + stats.nBear + 1)
    (hcorrect : stats'.bullHits + stats'.bearHits = stats.bullHits + stats.bearHits + if o.correct then 1 else 0) :
    Agrees stats' (found ++ [o]) where
  gross := by rw [List.map_append, List.sum_append, h.gross, List.map_singleton, List.sum_singleton, hgross]
  net := by rw [List.map_append, List.sum_append, h.net, List.map_singleton, List.sum_singleton, hnet]
  count := by rw [List.length_append, h.count, hcount]; rfl
  correct := by rw [List.countP_append, h.correct, List.countP_singleton, hcorrect]

theorem hits_eq (hits : Nat) (hit : Prop) [Decidable hit] :
    (if hit then hits + 1 else hits) = hits + if decide hit = true then 1 else 0 := by
  by_cases h : hit
  · rw [if_pos h, if_pos (decide_eq_true h)]
  · rw [if_neg h, if_neg fun hdecide => h (of_decide_eq_true hdecide), Nat.add_zero]

/-- One more observation in a group: a bull counts its return, a bear the negated one. -/
theorem Agrees.accumulate {g : GroupStats ℚ} {found : List FwdObs} (h : Agrees (g.horizon .h60) found) (ts : Int)
    (obs : Observation ℚ) :
    Agrees ((Evaluation.accumulate g obs).horizon .h60) (found ++ (directional ts obs).toList) := by
  unfold Evaluation.accumulate directional HorizonStats.step
  dsimp only
  by_cases hhas : obs.has .h60 = true
  · rw [if_pos hhas]
    cases hmomentum : obs.momentum with
    | bullish =>
      have hcounts : obs.has .h60 = true ∧ Momentum.bullish ≠ .neutral := ⟨hhas, by decide⟩
      rw [if_pos (by decide), if_pos hcounts, if_pos rfl]
      refine h.append _ rfl ?_ ?_ ?_
      · dsimp only
        ring
      · dsimp only
        omega
      · dsimp only
        rw [hits_eq]
        omega
    | bearish =>
      have hbearish : ¬ Momentum.bearish = .bullish := by decide
      have hcounts : obs.has .h60 = true ∧ Momentum.bearish ≠ .neutral := ⟨hhas, by decide⟩
      rw [if_neg (by decide), if_pos (by decide), if_pos hcounts, if_neg hbearish]
      refine h.append _ rfl ?_ ?_ ?_
      · dsimp only
        ring
      · dsimp only
        omega
      · have hdown : decide (-obs.ret .h60 > 0) = decide (obs.ret .h60 < 0) := decide_eq_decide.mpr neg_pos
        rw [hits_eq]
        simp only [hdown]
        omega
    | neutral =>
      rw [if_neg (by decide), if_neg (by decide), if_neg fun hboth => hboth.2 rfl]
      exact (List.append_nil _).symm ▸ h
  · rw [if_neg hhas, if_neg fun hboth => hhas hboth.1]
    exact (List.append_nil _).symm ▸ h

theorem directional_symbol (ts : Int) (obs : Observation ℚ) : ∀ o ∈ directional ts obs, o.symbol = obs.symbol := by
  intro o ho
  unfold directional at ho
  split at ho
  · cases ho
    rfl
  · cases ho

theorem tally_observations (ticks : TicksBySymbol ℚ) (signals : List RawSignal) :
    (tally ticks signals).observations = signals.filterMap fun r => (observe ticks r).toOption := by
  have hfold (t : Tally ℚ) : (signals.foldl (fun t s => t.add (observe ticks s)) t).observations =
      t.observations ++ signals.filterMap fun r => (observe ticks r).toOption := by
    induction signals generalizing t with
    | nil => exact (List.append_nil _).symm
    | cons r signals ih =>
      rw [List.foldl_cons, ih, List.filterMap_cons]
      cases observe ticks r with
      | error e =>
        cases e <;> rfl
      | ok obs => exact List.append_assoc _ _ _
  exact hfold {}

/-- A run over the signals keeps the counts of a symbol in step. -/
theorem Agrees.run (ticks : TicksBySymbol ℚ) (symbol : String) (signals : List RawSignal) {g : GroupStats ℚ}
    {found : List FwdObs} (h : Agrees (g.horizon .h60) found) :
    Agrees
      ((((signals.filterMap fun r => (observe ticks r).toOption).filter fun obs => obs.symbol = symbol).foldl
        Evaluation.accumulate g).horizon .h60)
      (found ++ (signals.filterMap (harnessOf ticks)).filter fun o => o.symbol = symbol) := by
  induction signals generalizing g found with
  | nil => exact (List.append_nil _).symm ▸ h
  | cons r signals ih =>
    rw [List.filterMap_eq_flatMap_toList (harnessOf ticks), List.flatMap_cons, ← List.filterMap_eq_flatMap_toList,
      List.filter_append, ← List.append_assoc]
    cases hobserve : observe ticks r with
    | error e =>
      have hnone : harnessOf ticks r = none := by
        unfold harnessOf
        rw [hobserve]
      rw [List.filterMap_cons_none (by rw [hobserve]; rfl), hnone]
      exact ih ((List.append_nil _).symm ▸ h)
    | ok obs =>
      have hsome : harnessOf ticks r = directional r.ts obs := by
        unfold harnessOf
        rw [hobserve]
      have hsymbols : ∀ o ∈ (directional r.ts obs).toList, o.symbol = obs.symbol := fun o ho =>
        directional_symbol r.ts obs o (Option.mem_toList.mp ho)
      rw [List.filterMap_cons_some (by rw [hobserve]; rfl), hsome]
      by_cases hsymbol : obs.symbol = symbol
      · rw [List.filter_cons_of_pos (by simpa using hsymbol), List.foldl_cons,
          List.filter_eq_self.mpr fun o ho => decide_eq_true ((hsymbols o ho).trans hsymbol)]
        exact ih (h.accumulate r.ts obs)
      · rw [List.filter_cons_of_neg (by simpa using hsymbol),
          List.filter_eq_nil_iff.mpr fun o ho heq => hsymbol ((hsymbols o ho).symm.trans (of_decide_eq_true heq)),
          List.append_nil]
        exact ih h

/-- On the same tables the dashboard has the harness's directional observations at the 60-second horizon,
one for one, and per symbol the sums and counts of the harness. -/
theorem forward_returns {ds : Dataset} {rows : List (TickRow ℚ)} {signals : List RawSignal}
    (h : SameTables ds rows signals) :
    (forwardObservations ds).Perm (harnessForward rows signals) ∧
      ∀ symbol, Agrees ((Evaluation.bySymbol (tally (loadTicks rows) signals).observations symbol).horizon .h60)
        ((forwardObservations ds).filter fun o => o.symbol = symbol) := by
  refine ⟨h.forwardObservations_perm, fun symbol => ?_⟩
  have hrun := Agrees.run (loadTicks rows) symbol signals (g := {}) Agrees.empty
  have hgroup : Evaluation.bySymbol (tally (loadTicks rows) signals).observations symbol =
      ((tally (loadTicks rows) signals).observations.filter fun obs => obs.symbol = symbol).foldl
        Evaluation.accumulate {} :=
    foldl_update_apply (fun obs : Observation ℚ => obs.symbol) Evaluation.accumulate _ _ symbol
  rw [hgroup, tally_observations]
  exact hrun.perm (h.forwardObservations_perm.filter _)

/-- A bullish signal whose price rises, and a stale bearish one. -/
def goldMinute : Dataset where
  ticks := [⟨0, "XAU/USD", 100⟩, ⟨60, "XAU/USD", 101⟩, ⟨120, "XAU/USD", 99⟩]
  signals := [⟨0, "XAU/USD", .bullish, .low⟩, ⟨60, "XAU/USD", .bearish, .low⟩]
  quality := [⟨0, "XAU/USD", 0, 70⟩, ⟨60, "XAU/USD", 1, 20⟩]

def goldSignals : List RawSignal :=
  [⟨0, "XAU/USD", .bullish, .low, 70, 0⟩, ⟨60, "XAU/USD", .bearish, .low, 20, 1⟩]

theorem forward_returns_gold :
    (harnessForward goldMinute.ticks goldSignals).map (·.raw) = [1 / 100] ∧
      SameTables goldMinute goldMinute.ticks goldSignals ∧
      (forwardObservations goldMinute).Perm (harnessForward goldMinute.ticks goldSignals) ∧
      ∀ symbol,
        Agrees ((Evaluation.bySymbol (tally (loadTicks goldMinute.ticks) goldSignals).observations symbol).horizon .h60)
          ((forwardObservations goldMinute).filter fun o => o.symbol = symbol) := by
  have htables : SameTables goldMinute goldMinute.ticks goldSignals :=
    { ticks := fun _ => rfl
      sorted := fun symbol => List.Pairwise.filter _ (by decide)
      positive := by decide
      quality := by unfold DistinctQuality; decide
      signals := ⟨by decide, by decide⟩ }
  exact ⟨by decide +kernel, htables, forward_returns htables⟩

end MicrostructureEngine.Dashboard
