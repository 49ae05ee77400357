import MicrostructureEngine.Bridge.Lockstep

/-!
# What becomes of an intent

An intent of the fast path passes the bridge's position, then the risk engine. The first never stands
in its way, and of the engine's checks only those are left that do not ask where the position stands:
an exit is refused for the same reasons as an entry.
-/

namespace MicrostructureEngine.Bridge

open Strategy (ScalpFlip Intent Lifecycle closingSide)

set_option autoImplicit false

universe u

/-! ## The checks of the risk engine -/

theorem refuse_iff {c : Prop} [Decidable c] {x y : Risk.Reject} (hx : x ≠ .none) :
    (if c then x else y) = .none ↔ ¬c ∧ y = .none := by
  split
  · rename_i hc
    exact ⟨fun h => absurd h hx, fun h => absurd hc h.1⟩
  · rename_i hc
    exact ⟨fun h => ⟨hc, h⟩, fun h => h.2⟩

theorem projectedFreeMargin_plain (freeMargin : Int) {shockBp : Int} (h : 0 < shockBp) (hfree : 0 ≤ freeMargin) :
    Risk.projectedFreeMargin freeMargin 0 0 shockBp = freeMargin := by
  unfold Risk.projectedFreeMargin
  rw [if_neg (by omega), if_neg]
  · have hshock : (0 * shockBp + 9999) / 10000 = 0 := by
      rw [Int.zero_mul]
      rfl
    dsimp only
    rw [hshock, if_neg (by omega)]
    omega
  · rintro ⟨-, hlarge⟩
    have hbound : 0 ≤ (Risk.int64Max - 9999) / shockBp :=
      Int.ediv_nonneg (by decide) (Int.le_of_lt h)
    omega

/-- Limits that pass the self-test leave room for a request that has used nothing up. -/
structure Roomy (x : Risk.Limits) : Prop where
  risk : 1 ≤ x.maxRiskPerTrade
  position : 0 ≤ x.maxPositionPerSymbol
  gross : 0 ≤ x.maxGrossExposure
  net : 0 ≤ x.maxNetExposure
  leverage : 0 ≤ x.maxLeverageBp
  shock : 0 < x.adverseShockBp
  openOrders : 0 < x.maxOpenOrders
  inFlight : 0 < x.maxInFlightPerSymbol
  rateSecond : 0 < x.maxOrderRequestsPerSecond
  rateMinute : 0 < x.maxOrdersPerMinute
  fills : 0 < x.maxFillsPerMinute
  trades : 0 < x.maxTradesPerDay
  slippage : 0 ≤ x.maxSlippageTicks

theorem roomy_of_selfTest {x : Risk.Limits} (h : Risk.selfTest x = true) : Roomy x := by
  simp only [Risk.selfTest, Bool.and_eq_true, decide_eq_true_eq] at h
  constructor <;> omega

namespace Runtime

variable {α : Type u}

/-- What is left for the risk engine to ask of an intent. -/
structure Admissible (s : Runtime α) (intent : Intent) (t : LiveTick) : Prop where
  valid : s.risk.valid = true
  running : s.risk.halted = false
  margin : 0 ≤ s.broker.books.account.freeMarginMinor
  crossed : 0 ≤ t.askTicks - t.bidTicks
  spread : t.askTicks - t.bidTicks ≤ s.risk.limits.maxSpreadTicks
  volume : 0 < intent.volume ∧ intent.volume ≤ s.risk.limits.maxOrderVolume
  symbol : s.tradeSymbol < s.risk.limits.symbolAllowed.length ∧
    s.risk.limits.symbolAllowed.getD s.tradeSymbol false = true

/-- An intent that, if it is to reduce, is opposite to the bridge's position. -/
def Reduces (s : Runtime α) (intent : Intent) : Prop :=
  intent.reduceOnly = true → s.system.bridge.position = .of (closingSide intent.side)

theorem reduces_net {s : Runtime α} {intent : Intent} (h : s.Reduces intent) (hvolume : 0 < intent.volume) :
    ¬ (intent.reduceOnly = true ∧ ((s.system.bridge.netVolume intent.volume ≥ 0 ∧ intent.side = .buy) ∨
      (s.system.bridge.netVolume intent.volume ≤ 0 ∧ intent.side = .sell))) := by
  rintro ⟨hreduce, hsame⟩
  have hposition := h hreduce
  unfold BridgeState.netVolume at hsame
  cases hside : intent.side with
  | buy =>
    rw [hside] at hposition hsame
    rw [hposition] at hsame
    rcases hsame with ⟨hnet, -⟩ | ⟨-, hsell⟩
    · change -intent.volume ≥ 0 at hnet
      omega
    · cases hsell
  | sell =>
    rw [hside] at hposition hsame
    rw [hposition] at hsame
    rcases hsame with ⟨-, hbuy⟩ | ⟨hnet, -⟩
    · cases hbuy
    · change intent.volume ≤ 0 at hnet
      omega

theorem check_iff {s : Runtime α} {intent : Intent} (h : s.Reduces intent) (t : LiveTick) (p : Pass α) :
    s.risk.check (s.riskRequest intent t p) = .none ↔ s.Admissible intent t := by
  unfold Risk.RiskEngine.check riskRequest
  simp only [refuse_iff, ne_eq, reduceCtorEq, not_false_eq_true]
  constructor
  · rintro ⟨hvalid, hrunning, harithmetic, -, -, -, -, -, -, -, -, -, -, -, -, -, hspread, -, hvolume,
      hsymbol, -⟩
    rw [not_or] at hsymbol
    refine ⟨by simpa using hvalid, by simpa using hrunning, ?_, ?_, not_lt.mp hspread, ?_, ?_, ?_⟩
    · omega
    · omega
    · omega
    · exact not_le.mp hsymbol.1
    · simpa using hsymbol.2
  · rintro ⟨hvalid, hrunning, hmargin, hcrossed, hspread, hvolume, hsymbol, hallowed⟩
    have hroom := roomy_of_selfTest hvalid
    have hshock := projectedFreeMargin_plain s.broker.books.account.freeMarginMinor hroom.shock hmargin
    -- what the request leaves at zero has room under every limit
    refine ⟨by simp [hvalid], by simp [hrunning], ?_, not_lt.mpr hroom.risk, not_lt.mpr hroom.position,
      not_lt.mpr hroom.gross, not_lt.mpr hroom.net, not_lt.mpr hroom.leverage, ?_,
      not_le.mpr hroom.openOrders, not_le.mpr hroom.inFlight, not_le.mpr hroom.rateSecond,
      not_le.mpr hroom.rateMinute, not_le.mpr hroom.fills, not_le.mpr hroom.trades, fun hlast => hlast.1 trivial,
      not_lt.mpr hspread, not_lt.mpr hroom.slippage, ?_, ?_, Bool.false_ne_true,
      reduces_net h hvolume.1, ?_, ?_, trivial⟩
    · have hposition : (0 : Int) ≠ Risk.int64Min := by decide
      omega
    · rw [hshock]
      exact not_lt.mpr hmargin
    · omega
    · rw [not_or, hallowed]
      exact ⟨not_le.mpr hsymbol, Bool.false_ne_true⟩
    · rw [not_not]
      exact UInt64.and_self
    · unfold Risk.selfTradeOk
      simp

/-! ## The strategy's intents -/

section

variable [LE α] [LT α] [DecidableLE α] [DecidableLT α] [Zero α] [Neg α]

/-- An entry is raised from no position, an exit to close the one held. -/
theorem intent_cases {s : Runtime α} (t : LiveTick) (p : Pass α) (h : (s.intent t p).kind ≠ .none) :
    ((s.intent t p).kind = .enter ∧ s.flip.life.position.active = false ∧
        (s.intent t p).reduceOnly = false) ∨
      ((s.intent t p).kind = .exit ∧ s.flip.life.position.active = true ∧
        (s.intent t p).side = closingSide s.flip.life.position.side) := by
  have hdecided := (ScalpFlip.decided s.flip s.tradeSymbol (s.books s.tradeSymbol) p.signals (s.tsNs t p)).1
  unfold intent at h ⊢
  generalize s.flip.onMarket s.tradeSymbol (s.books s.tradeSymbol) p.signals (s.tsNs t p) = r at h hdecided ⊢
  obtain ⟨answer, flip⟩ := r
  dsimp only at h hdecided ⊢
  generalize flip.life = life at hdecided
  cases hdecided with
  | exit inPosition active due => exact Or.inr ⟨rfl, active, rfl⟩
  | hold inPosition due => exact absurd rfl h
  | refused settled veto => exact absurd rfl h
  | entered settled idle flat direction =>
    have hposition := Lifecycle.Settled.position settled
    refine Or.inl ⟨rfl, ?_, rfl⟩
    rw [hposition] at flat
    exact flat

theorem closingSide_closingSide (side : Side) : closingSide (closingSide side) = side := by
  cases side with
  | buy => rfl
  | sell => rfl

/-- The bridge's position never stands in the way of an intent. -/
theorem meaningful_intent {s : Runtime α} (hasks : s.asks = true) (t : LiveTick) (p : Pass α)
    (h : (s.intent t p).kind ≠ .none) :
    s.meaningful (decide ((s.intent t p).kind = .enter)) = true ∧ s.Reduces (s.intent t p) := by
  obtain ⟨-, -, hflat, hholds⟩ := flat_of_asks hasks
  rcases intent_cases t p h with ⟨hkind, hactive, hreduce⟩ | ⟨hkind, hactive, hside⟩
  · rw [hactive] at hflat
    constructor
    · rw [hkind]
      exact hflat
    · intro hreduces
      exact absurd (hreduce.symm.trans hreduces) nofun
  · rw [hactive] at hflat
    constructor
    · rw [hkind]
      show (!s.system.bridge.flat) = true
      rw [hflat]
      rfl
    · intro _
      rw [hside, closingSide_closingSide]
      rw [hflat] at hholds
      unfold BridgeState.holds at hholds
      cases hp : s.flip.life.position.side with
      | buy =>
        rw [hp] at hholds
        exact of_decide_eq_true hholds
      | sell =>
        rw [hp] at hholds
        exact of_decide_eq_true hholds

omit [LE α] [LT α] [DecidableLE α] [DecidableLT α] [Zero α] [Neg α] in
theorem command_counts (s : Runtime α) (intent : Intent) (entering : Bool) (p : Pass α) :
    (s.command intent entering p).counts = s.counts := by
  unfold command
  split
  · rfl
  · rfl

omit [LE α] [LT α] [DecidableLE α] [DecidableLT α] [Zero α] [Neg α] in
/-- A meaningful intent is not deferred, and a refusal of the risk engine is counted. -/
theorem raised_counts {s : Runtime α} {intent : Intent}
    (hmeaningful : s.meaningful (decide (intent.kind = .enter)) = true) (t : LiveTick) (p : Pass α) :
    (s.raised intent t p).counts.deferred = s.counts.deferred ∧
      (s.raised intent t p).counts.riskRejects =
        s.counts.riskRejects + if s.risk.check (s.riskRequest intent t p) = .none then 0 else 1 := by
  unfold raised
  dsimp -proj only
  rw [hmeaningful, if_neg (show ¬ (!true) = true from Bool.false_ne_true)]
  by_cases hrefused : s.risk.check (s.riskRequest intent t p) ≠ .none
  · rw [if_pos hrefused, if_neg hrefused]
    exact ⟨rfl, rfl⟩
  rw [if_neg hrefused, if_pos (not_not.mp hrefused)]
  split
  · exact ⟨rfl, rfl⟩
  · rw [command_counts]
    dsimp only
    split
    · exact ⟨rfl, rfl⟩
    · exact ⟨rfl, rfl⟩

theorem decision_deferred {s : Runtime α} (hasks : s.asks = true) (t : LiveTick) (p : Pass α) :
    (s.decision t p).counts.deferred = s.counts.deferred := by
  unfold decision
  split
  · rfl
  · rename_i hraised
    have hmeaningful := (meaningful_intent hasks t p hraised).1
    exact (raised_counts (s := { s.asked t p with
      counts := { s.counts with intents := s.counts.intents + 1 } }) hmeaningful t p).1

/-- The engine judges an intent of the strategy by what `Admissible` names, and by nothing else. -/
theorem decision_refused_iff {s : Runtime α} (hasks : s.asks = true) (t : LiveTick) (p : Pass α)
    (hraised : (s.intent t p).kind ≠ .none) :
    (s.decision t p).counts.riskRejects = s.counts.riskRejects + 1 ↔ ¬ s.Admissible (s.intent t p) t := by
  obtain ⟨hmeaningful, hreduces⟩ := meaningful_intent hasks t p hraised
  have hcheck := check_iff hreduces t p
  have hcounts := (raised_counts (s := { s.asked t p with
    counts := { s.counts with intents := s.counts.intents + 1 } }) hmeaningful t p).2
  unfold decision
  rw [if_neg hraised, hcounts, ← hcheck]
  show s.counts.riskRejects + (if s.risk.check (s.riskRequest (s.intent t p) t p) = .none then 0 else 1) =
    s.counts.riskRejects + 1 ↔ _
  split
  · rename_i happroved
    exact ⟨fun hsame => absurd hsame (by omega), fun hrefused => absurd happroved hrefused⟩
  · rename_i hrefused
    exact ⟨fun _ => hrefused, fun _ => rfl⟩

omit [LE α] [LT α] [DecidableLE α] [DecidableLT α] [Zero α] [Neg α] in
theorem settle_deferred (s : Runtime α) (commission : Order → Int) (spreadTicks : Int) (tsNs : Nat) :
    (s.settle commission spreadTicks tsNs).counts.deferred = s.counts.deferred := by
  unfold settle
  split
  · rfl
  · cases s.broker.findOrder s.working with
    | none => rfl
    | some o =>
      dsimp only
      split
      · unfold ended
        split
        · cases s.entryInFlight with
          | true => rfl
          | false => rfl
        · rfl
      · rfl

omit [LE α] [LT α] [DecidableLE α] [DecidableLT α] [Zero α] [Neg α] in
theorem listened_counts (s : Runtime α) (p : Pass α) : (s.listened p).counts = s.counts := by
  unfold listened polled
  dsimp only
  split
  · split
    · rfl
    · rfl
  · split
    · rfl
    · rfl

omit [LE α] [LT α] [DecidableLE α] [DecidableLT α] [Zero α] [Neg α] in
theorem arrived_deferred (s : Runtime α) (t : LiveTick) (p : Pass α) :
    (s.arrived t p).counts.deferred = s.counts.deferred := by
  unfold arrived
  rw [settle_deferred, ← listened_counts s p]
  unfold observed
  dsimp only
  split
  · rfl
  · rfl

theorem step_deferred (inputs : Inputs) (s : Runtime α) (e : Event α) :
    (s.step inputs e).counts.deferred = s.counts.deferred := by
  cases e with
  | pass p =>
    show (s.pass p).counts.deferred = _
    unfold pass
    cases p.tick.filter LiveTick.valid with
    | none =>
      show (s.listened p).counts.deferred = _
      rw [listened_counts]
    | some t =>
      show ((s.arrived t p).resolved t p).counts.deferred = _
      rw [← arrived_deferred s t p]
      cases hasks : (s.arrived t p).asks with
      | true =>
        rw [resolved_of_asks hasks]
        exact decision_deferred hasks t p
      | false => exact (resolved_of_not_asks hasks t p).2.2
  | quote symbolId bid ask bidSize askSize tsNs =>
    show (s.onQuote symbolId bid ask bidSize askSize tsNs).counts.deferred = _
    unfold onQuote
    split
    · rfl
    · exact settle_deferred _ _ _ _
  | halt => rfl
  | timer t opens => rfl
  | stopOut index => rfl

/-- In every run no intent is deferred for the bridge's position, and the risk engine refuses what the
strategy raises exactly when its engine, the free margin, the spread, the volume or the symbol is at
fault: to reduce a position is never refused as if it opened one, and never let through for it. -/
theorem intents_judged (inputs : Inputs) (s : Runtime α) (events : List (Event α)) :
    (Runs.run (step inputs) s events).counts.deferred = s.counts.deferred ∧
      ∀ (t : LiveTick) (p : Pass α), ((Runs.run (step inputs) s events).arrived t p).asks = true →
        (((Runs.run (step inputs) s events).arrived t p).intent t p).kind ≠ .none →
        ((((Runs.run (step inputs) s events).arrived t p).resolved t p).counts.riskRejects =
            ((Runs.run (step inputs) s events).arrived t p).counts.riskRejects + 1 ↔
          ¬ ((Runs.run (step inputs) s events).arrived t p).Admissible
            (((Runs.run (step inputs) s events).arrived t p).intent t p) t) := by
  constructor
  · refine Runs.invariant_of_step (I := fun r : Runtime α => r.counts.deferred = s.counts.deferred) ?_ rfl
      events
    intro r e hr
    exact (step_deferred inputs r e).trans hr
  · intro t p hasks hraised
    rw [resolved_of_asks hasks]
    exact decision_refused_iff hasks t p hraised

end

/-- A tick with a spread wider than the limit. -/
def wideTick : LiveTick := { bidTicks := 110000, askTicks := 110101, timeMsc := 60000 }

def widePass : Pass Int := { risingPass 60000 with tick := some wideTick }

/-- The position of `filledLong`, seen by the strategy. -/
def heldLong : List (Event Int) := filledLong ++ [.pass (risingPass 2000)]

/-- The time stop is due, and the spread keeps the exit from being sent. -/
theorem intents_judged_wide_spread :
    (((Runs.run (step {}) flipRuntime heldLong).arrived wideTick widePass).intent wideTick widePass).kind =
        .exit ∧
      (((Runs.run (step {}) flipRuntime heldLong).arrived wideTick widePass).resolved wideTick
          widePass).counts.riskRejects =
        ((Runs.run (step {}) flipRuntime heldLong).arrived wideTick widePass).counts.riskRejects + 1 := by
  have hkind : (((Runs.run (step {}) flipRuntime heldLong).arrived wideTick widePass).intent wideTick
      widePass).kind = .exit := by decide +kernel
  have hlimit : ((Runs.run (step {}) flipRuntime heldLong).arrived wideTick
      widePass).risk.limits.maxSpreadTicks = 100 := by decide +kernel
  have hjudged := (intents_judged {} flipRuntime heldLong).2 wideTick widePass (by decide +kernel)
    (by rw [hkind]; exact nofun)
  refine ⟨hkind, hjudged.mpr ?_⟩
  intro hadmissible
  have hspread := hadmissible.spread
  rw [hlimit] at hspread
  exact absurd hspread (by decide)

end Runtime

end MicrostructureEngine.Bridge
