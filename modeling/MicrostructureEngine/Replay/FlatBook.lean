import MicrostructureEngine.Exec.EntryTickets
import MicrostructureEngine.Replay.StrategyReplayEngine

/-!
# A flat strategy and its book

`run` drops the `reduce_only` of an exit, and its broker hedges: the exit opens a ticket on the other
side, and both tickets stay open while the strategy believes itself flat. Until an exit is filled the
strategy, the working order and the book agree; `Tracks` says how, and one event keeps it exactly
when the event fills no exit, and no order that the engine does not follow.
-/

namespace MicrostructureEngine.Replay

open Exec
open Strategy (Lifecycle)

set_option autoImplicit false

universe u
variable {α : Type u}

/-- Where the strategy is flat and works no order, no ticket on its symbol is open, so that a round
trip, which ends there, has closed what it opened; and the trades are what the broker realised. -/
structure FlatBook (s : StrategyReplayEngine α) : Prop where
  flat : s.scalper.life.position.active = false → s.working.logicalOrderId = 0 →
    ∀ p ∈ s.broker.books.positions.positions, p.symbolId = s.config.tradeSymbol → isClosed p = true
  realized : s.broker.books.account.realizedPnlMinor = (s.statistics.trades.map (·.pnlMinor)).sum

instance FlatBook.decidable (s : StrategyReplayEngine α) : Decidable (FlatBook s) :=
  decidable_of_iff
    ((s.scalper.life.position.active = false → s.working.logicalOrderId = 0 →
        ∀ p ∈ s.broker.books.positions.positions, p.symbolId = s.config.tradeSymbol → isClosed p = true) ∧
      s.broker.books.account.realizedPnlMinor = (s.statistics.trades.map (·.pnlMinor)).sum)
    ⟨fun h => ⟨h.1, h.2⟩, fun h => ⟨h.flat, h.realized⟩⟩

/-! ## The strategy, the working order and the fills -/

def Ended (x : Option OrderSlot) : Prop := ∀ y ∈ x, y.order.state.isTerminal = true

/-- Where the strategy stands, the reference it follows, the number of fills and the one order. An
order whose identity hashes to zero is not followed. -/
inductive Phase (life : Lifecycle) (working : BrokerOrderRef) (entry : Bool) (n : Nat) :
    Option OrderSlot → Prop
  | flat {x : Option OrderSlot} (state : life.state = .cold ∨ life.state = .idle ∨ life.state = .cooldown)
      (inactive : life.position.active = false) (untracked : working.logicalOrderId = 0) (ended : Ended x)
      (unfilled : n = 0) : Phase life working entry n x
  | entering {y : OrderSlot} (state : life.state = .entryPending)
      (inactive : life.position.active = false) (tracked : working.logicalOrderId ≠ 0)
      (entered : entry = true) (ref : y.order.ref = working)
      (live : (y.order.state = .sent ∨ y.order.state = .acknowledged) ∧ n = 0 ∨
        y.order.state = .partiallyFilled ∧ n ≠ 0) : Phase life working entry n (some y)
  | enteringUntracked {x : Option OrderSlot} (state : life.state = .entryPending)
      (inactive : life.position.active = false) (untracked : working.logicalOrderId = 0)
      (unfilled : n = 0) : Phase life working entry n x
  | holding {x : Option OrderSlot} (state : life.state = .inPosition)
      (active : life.position.active = true) (untracked : working.logicalOrderId = 0) (ended : Ended x)
      (filled : n ≠ 0) : Phase life working entry n x
  | leaving {y : OrderSlot} (state : life.state = .exitPending) (active : life.position.active = true)
      (tracked : working.logicalOrderId ≠ 0) (exited : entry = false) (ref : y.order.ref = working)
      (live : y.order.state.isTerminal = false) (filled : n ≠ 0) : Phase life working entry n (some y)
  | leavingUntracked {x : Option OrderSlot} (state : life.state = .exitPending)
      (active : life.position.active = true) (untracked : working.logicalOrderId = 0) (filled : n ≠ 0) :
      Phase life working entry n x

section Phases

variable {life : Lifecycle} {working : BrokerOrderRef} {entry : Bool} {n : Nat} {x x' : Option OrderSlot}

theorem Phase.unfilled (h : Phase life working entry n x) (hinactive : life.position.active = false)
    (huntracked : working.logicalOrderId = 0) : n = 0 := by
  cases h with
  | flat state inactive untracked ended unfilled => exact unfilled
  | enteringUntracked state inactive untracked unfilled => exact unfilled
  | entering state inactive tracked => exact absurd huntracked tracked
  | holding state active =>
    rw [hinactive] at active
    cases active
  | leaving state active =>
    rw [hinactive] at active
    cases active
  | leavingUntracked state active =>
    rw [hinactive] at active
    cases active

theorem Phase.ref_of_tracked (h : Phase life working entry n x) (htracked : working.logicalOrderId ≠ 0)
    {z : OrderSlot} (hz : z ∈ x) : z.order.ref = working := by
  cases h with
  | flat state inactive untracked => exact absurd untracked htracked
  | enteringUntracked state inactive untracked => exact absurd untracked htracked
  | holding state active untracked => exact absurd untracked htracked
  | leavingUntracked state active untracked => exact absurd untracked htracked
  | entering state inactive tracked entered ref =>
    cases hz
    exact ref
  | leaving state active tracked exited ref =>
    cases hz
    exact ref

theorem Ended.queue (h : Ended x) (hq : Option.Rel PaperBroker.SameButQueue x x') : Ended x' := by
  cases hq with
  | none => exact h
  | @some y y' hy =>
    rintro _ ⟨⟩
    rw [hy]
    exact h y rfl

theorem Ended.turn {fill : OrderSlot → Option (Int × Int)} {m : Nat} {y : Option OrderSlot} (h : Ended x)
    (hturn : OrderTurn fill n x m y) : m = n ∧ Ended y := by
  cases hturn with
  | absent => exact ⟨rfl, h⟩
  | @still x y unfilled ref state =>
    have hx := h x rfl
    refine ⟨rfl, ?_⟩
    rintro _ ⟨⟩
    rcases state with hsame | ⟨hsent, -⟩
    · rw [hsame]
      exact hx
    · rw [hsent] at hx
      cases hx
  | @filled x y price volume booked ref live =>
    rw [h x rfl] at live
    cases live

theorem Phase.queue (h : Phase life working entry n x) (hq : Option.Rel PaperBroker.SameButQueue x x') :
    Phase life working entry n x' := by
  cases h with
  | flat state inactive untracked ended unfilled =>
    exact Phase.flat state inactive untracked (ended.queue hq) unfilled
  | enteringUntracked state inactive untracked unfilled =>
    exact Phase.enteringUntracked state inactive untracked unfilled
  | holding state active untracked ended filled =>
    exact Phase.holding state active untracked (ended.queue hq) filled
  | leavingUntracked state active untracked filled =>
    exact Phase.leavingUntracked state active untracked filled
  | @entering y state inactive tracked entered ref live =>
    cases hq with
    | @some _ y' hy =>
      have hstate : y'.order.state = y.order.state := by rw [hy]
      refine Phase.entering state inactive tracked entered (hy.sameTerms.ref.trans ref) ?_
      rw [hstate]
      exact live
  | @leaving y state active tracked exited ref live filled =>
    cases hq with
    | @some _ y' hy =>
      have hstate : y'.order.state = y.order.state := by rw [hy]
      refine Phase.leaving state active tracked exited (hy.sameTerms.ref.trans ref) ?_ filled
      rw [hstate]
      exact live

/-- A phase says nothing about the lifecycle but its state and whether a position is held. -/
theorem Phase.same (h : Phase life working entry n x) {life' : Lifecycle} (hstate : life'.state = life.state)
    (hposition : life'.position = life.position) : Phase life' working entry n x := by
  cases h with
  | flat state inactive untracked ended unfilled =>
    exact Phase.flat (hstate ▸ state) (hposition ▸ inactive) untracked ended unfilled
  | enteringUntracked state inactive untracked unfilled =>
    exact Phase.enteringUntracked (hstate ▸ state) (hposition ▸ inactive) untracked unfilled
  | holding state active untracked ended filled =>
    exact Phase.holding (hstate ▸ state) (hposition ▸ active) untracked ended filled
  | leavingUntracked state active untracked filled =>
    exact Phase.leavingUntracked (hstate ▸ state) (hposition ▸ active) untracked filled
  | entering state inactive tracked entered ref live =>
    exact Phase.entering (hstate ▸ state) (hposition ▸ inactive) tracked entered ref live
  | leaving state active tracked exited ref live filled =>
    exact Phase.leaving (hstate ▸ state) (hposition ▸ active) tracked exited ref live filled

/-- No order is live where the strategy may decide to leave or to enter. -/
theorem Phase.of_inPosition (h : Phase life working entry n x) (hstate : life.state = .inPosition) :
    Ended x ∧ n ≠ 0 := by
  cases h with
  | holding state active untracked ended filled => exact ⟨ended, filled⟩
  | flat state =>
    rw [hstate] at state
    simp at state
  | enteringUntracked state =>
    rw [hstate] at state
    cases state
  | leavingUntracked state =>
    rw [hstate] at state
    cases state
  | entering state =>
    rw [hstate] at state
    cases state
  | leaving state =>
    rw [hstate] at state
    cases state

theorem Phase.of_flat (h : Phase life working entry n x)
    (hstate : life.state = .idle ∨ life.state = .cooldown ∨ life.state = .cold) :
    life.position.active = false ∧ Ended x ∧ n = 0 := by
  cases h with
  | flat state inactive untracked ended unfilled => exact ⟨inactive, ended, unfilled⟩
  | enteringUntracked state =>
    rw [state] at hstate
    simp at hstate
  | holding state =>
    rw [state] at hstate
    simp at hstate
  | leavingUntracked state =>
    rw [state] at hstate
    simp at hstate
  | entering state =>
    rw [state] at hstate
    simp at hstate
  | leaving state =>
    rw [state] at hstate
    simp at hstate

theorem Phase.settled (h : Phase life working entry n x) (huntracked : working.logicalOrderId = 0)
    {life' : Lifecycle} (hsettled : Lifecycle.Settled life life') : Phase life' working entry n x := by
  rcases hsettled with rfl | ⟨hstate, rfl⟩
  · exact h
  · obtain ⟨hinactive, hended, hn⟩ := h.of_flat (Or.inr hstate)
    have hidle : (life.transition .idle).state = .idle := by
      rcases hstate with hs | hs
      all_goals rw [Lifecycle.transition_of_legal (by rw [hs]; rfl)]
    refine Phase.flat (Or.inr (Or.inl hidle)) ?_ huntracked hended hn
    rw [Lifecycle.transition_position]
    exact hinactive

end Phases

namespace StrategyReplayEngine

/-- What holds until an exit is filled. -/
structure Tracks (s : StrategyReplayEngine α) : Prop where
  hedged : Hedged s.config.tradeSymbol s.broker.books
  trades : s.statistics.trades = []
  phase : ∃ x, Alone s.config.tradeSymbol s.broker.slots x ∧
    Phase s.scalper.life s.working s.entryInFlight s.broker.books.fillCount x

theorem Tracks.flatBook {s : StrategyReplayEngine α} (h : Tracks s) : FlatBook s := by
  obtain ⟨x, -, hphase⟩ := h.phase
  refine ⟨?_, ?_⟩
  · intro hinactive huntracked p hp
    have hempty := h.hedged.filled.mpr (hphase.unfilled hinactive huntracked)
    rw [hempty] at hp
    cases hp
  · rw [h.hedged.realized, h.trades]
    rfl

theorem not_flatBook {s : StrategyReplayEngine α} (hhedged : Hedged s.config.tradeSymbol s.broker.books)
    (hinactive : s.scalper.life.position.active = false) (huntracked : s.working.logicalOrderId = 0)
    (hfills : s.broker.books.fillCount ≠ 0) : ¬ FlatBook s := by
  intro h
  obtain ⟨p, hp, hsymbol, hopen⟩ := hhedged.exists_open hfills
  have hclosed := h.flat hinactive huntracked p hp hsymbol
  rw [hopen] at hclosed
  cases hclosed

/-! ## A quote -/

def quoted (s : StrategyReplayEngine α) (q : Quote α) : PaperBroker :=
  s.broker.quoted q.symbolId q.bid q.ask q.bidSize q.askSize q.tsNs

/-- The quote does not fill what remains of an exit in flight, and, where the strategy is flat and
follows no order, it fills nothing. -/
structure FillsNoExit (s : StrategyReplayEngine α) (q : Quote α) : Prop where
  exit : s.working.logicalOrderId ≠ 0 → s.entryInFlight = false →
    ∀ x ∈ (s.quoted q).slots, x.order.ref = s.working →
      ∀ price, (s.quoted q).books.fillAt q.tsNs x ≠ some (price, x.order.remaining)
  untracked : s.working.logicalOrderId = 0 → s.scalper.life.position.active = false →
    ∀ x ∈ (s.quoted q).slots, (s.quoted q).books.fillAt q.tsNs x = none

def NoExitFilled (s : StrategyReplayEngine α) : Event α → Prop
  | .quote q => q.symbolId < symbolCount → s.FillsNoExit q
  | .other => True

section Resolving

variable {s : StrategyReplayEngine α} {y : OrderSlot} {x : Option OrderSlot}

theorem resolve_of_untracked (h : s.working.logicalOrderId = 0) (tsNs : Nat) : s.resolve tsNs = s := by
  unfold resolve
  rw [if_pos h]

theorem resolve_of_tracked {symbolId : Nat} (htracked : s.working.logicalOrderId ≠ 0)
    (hslots : Alone symbolId s.broker.slots (some y)) (href : y.order.ref = s.working) (tsNs : Nat) :
    s.resolve tsNs = if y.order.state.isTerminal then s.ended y.order tsNs else s := by
  have hfound : s.broker.findOrder s.working = some y.order := by
    rw [PaperBroker.findOrder_alone hslots htracked]
    simp [href]
  unfold resolve
  rw [if_neg htracked, hfound]

variable (hhedged : Hedged s.config.tradeSymbol s.broker.books) (htrades : s.statistics.trades = [])
  (hslots : Alone s.config.tradeSymbol s.broker.slots x) (hended : Ended x)
include hhedged htrades hslots hended

theorem tracks_entry_filled {o : Order} (hfilled : o.state = .filled) (hentry : s.entryInFlight = true)
    (hstate : s.scalper.life.state = .entryPending) (hfills : s.broker.books.fillCount ≠ 0) (tsNs : Nat) :
    Tracks (s.ended o tsNs) := by
  unfold ended
  rw [if_pos hfilled, hentry, if_pos rfl]
  refine ⟨hhedged, htrades, x, hslots, ?_⟩
  refine Phase.holding ?_ ?_ rfl hended hfills
  · exact congrArg Lifecycle.state (Lifecycle.onEntryFilled_of_pending hstate _ _ _ _)
  · show (s.scalper.life.onEntryFilled o.side o.filledVolume o.avgFillPriceTicks tsNs).position.active = true
    rw [Lifecycle.onEntryFilled_of_pending hstate]

theorem tracks_entry_rejected {o : Order} (hfilled : o.state ≠ .filled) (hentry : s.entryInFlight = true)
    (hstate : s.scalper.life.state = .entryPending) (hinactive : s.scalper.life.position.active = false)
    (hfills : s.broker.books.fillCount = 0) (tsNs : Nat) : Tracks (s.ended o tsNs) := by
  unfold ended
  rw [if_neg hfilled, hentry]
  refine ⟨hhedged, htrades, x, hslots, ?_⟩
  have hlife := Lifecycle.onEntryRejected_of_pending hstate
  refine Phase.flat (Or.inr (Or.inl ?_)) ?_ rfl hended hfills
  · exact congrArg Lifecycle.state hlife
  · exact (congrArg (fun l => l.position.active) hlife).trans hinactive

theorem tracks_exit_rejected {o : Order} (hfilled : o.state ≠ .filled) (hexit : s.entryInFlight = false)
    (hstate : s.scalper.life.state = .exitPending) (hactive : s.scalper.life.position.active = true)
    (hfills : s.broker.books.fillCount ≠ 0) (tsNs : Nat) : Tracks (s.ended o tsNs) := by
  unfold ended
  rw [if_neg hfilled, hexit]
  refine ⟨hhedged, htrades, x, hslots, ?_⟩
  have hlife := Lifecycle.onExitRejected_of_pending hstate
  refine Phase.holding ?_ ?_ rfl hended hfills
  · exact congrArg Lifecycle.state hlife
  · exact (congrArg (fun l => l.position.active) hlife).trans hactive

omit htrades hslots hended in
theorem not_flatBook_exit_filled {o : Order} (hfilled : o.state = .filled) (hexit : s.entryInFlight = false)
    (hstate : s.scalper.life.state = .exitPending) (hfills : s.broker.books.fillCount ≠ 0) (tsNs : Nat) :
    ¬ FlatBook (s.ended o tsNs) := by
  unfold ended
  rw [if_pos hfilled, hexit, if_neg Bool.false_ne_true]
  refine not_flatBook hhedged ?_ rfl hfills
  exact congrArg (fun l => l.position.active)
    (Lifecycle.onExitFilled_of_pending hstate s.scalper.config.cooldownNs tsNs)

end Resolving

section Turning

variable {s : StrategyReplayEngine α} {fill : OrderSlot → Option (Int × Int)} {n m : Nat}
  {x y : Option OrderSlot} (hhedged : Hedged s.config.tradeSymbol s.broker.books)
  (hslots : Alone s.config.tradeSymbol s.broker.slots y) (hcount : s.broker.books.fillCount = m)
  (hphase : Phase s.scalper.life s.working s.entryInFlight n x) (hturn : OrderTurn fill n x m y)
include hhedged hcount hphase hturn

omit hphase hturn in
/-- An entry in flight has had its turn: it stays in flight, or is resolved. -/
theorem tracks_resolve_entry (htrades : s.statistics.trades = []) {x y : OrderSlot}
    (hslots : Alone s.config.tradeSymbol s.broker.slots (some y))
    (hturn : OrderTurn fill n (some x) m (some y))
    (state : s.scalper.life.state = .entryPending) (inactive : s.scalper.life.position.active = false)
    (tracked : s.working.logicalOrderId ≠ 0) (entered : s.entryInFlight = true)
    (ref : x.order.ref = s.working)
    (live : (x.order.state = .sent ∨ x.order.state = .acknowledged) ∧ n = 0 ∨
      x.order.state = .partiallyFilled ∧ n ≠ 0) (tsNs : Nat) : Tracks (s.resolve tsNs) := by
  cases hturn with
  | @still _ y unfilled href hstate =>
    rw [resolve_of_tracked tracked hslots (href.trans ref)]
    have hsame : y.order.state = x.order.state → Tracks s := by
      intro heq
      rw [← heq, ← hcount] at live
      exact ⟨hhedged, htrades, some y, hslots,
        Phase.entering state inactive tracked entered (href.trans ref) live⟩
    rcases hstate with heq | ⟨hsent, hanswer⟩
    · have hlive : y.order.state.isTerminal = false := by
        rw [heq]
        rcases live with ⟨hs | hs, -⟩ | ⟨hs, -⟩
        all_goals
          rw [hs]
          rfl
      rw [hlive, if_neg Bool.false_ne_true]
      exact hsame heq
    have hzero : s.broker.books.fillCount = 0 := by
      rcases live with ⟨-, hn⟩ | ⟨hs, -⟩
      · exact hcount.trans hn
      · rw [hsent] at hs
        cases hs
    rcases hanswer with hack | hrejected
    · rw [hack, show OrderState.acknowledged.isTerminal = false from rfl, if_neg Bool.false_ne_true]
      exact ⟨hhedged, htrades, some y, hslots,
        Phase.entering state inactive tracked entered (href.trans ref) (Or.inl ⟨Or.inr hack, hzero⟩)⟩
    · rw [hrejected, show OrderState.rejected.isTerminal = true from rfl, if_pos rfl]
      refine tracks_entry_rejected hhedged htrades hslots ?_ (by rw [hrejected]; decide) entered state
        inactive hzero tsNs
      rintro _ ⟨⟩
      rw [hrejected]
      rfl
  | @filled _ y price volume booked href hlive hstate =>
    rw [resolve_of_tracked tracked hslots (href.trans ref)]
    by_cases hwhole : volume = x.order.remaining
    · rw [if_pos hwhole] at hstate
      rw [hstate, show OrderState.filled.isTerminal = true from rfl, if_pos rfl]
      refine tracks_entry_filled hhedged htrades hslots ?_ hstate entered state (by omega) tsNs
      rintro _ ⟨⟩
      rw [hstate]
      rfl
    · rw [if_neg hwhole] at hstate
      rw [hstate, show OrderState.partiallyFilled.isTerminal = false from rfl, if_neg Bool.false_ne_true]
      exact ⟨hhedged, htrades, some y, hslots, Phase.entering state inactive tracked entered
        (href.trans ref) (Or.inr ⟨hstate, by omega⟩)⟩

omit hphase hturn in
/-- An exit in flight that was not filled in full stays in flight, or is rejected. -/
theorem tracks_resolve_exit (htrades : s.statistics.trades = []) {x y : OrderSlot}
    (hslots : Alone s.config.tradeSymbol s.broker.slots (some y))
    (hturn : OrderTurn fill n (some x) m (some y))
    (state : s.scalper.life.state = .exitPending) (active : s.scalper.life.position.active = true)
    (tracked : s.working.logicalOrderId ≠ 0) (exited : s.entryInFlight = false)
    (ref : x.order.ref = s.working) (live : x.order.state.isTerminal = false) (filled : n ≠ 0)
    (hexit : ∀ price, fill x ≠ some (price, x.order.remaining)) (tsNs : Nat) : Tracks (s.resolve tsNs) := by
  cases hturn with
  | @still _ y unfilled href hstate =>
    rw [resolve_of_tracked tracked hslots (href.trans ref)]
    have hstays : y.order.state.isTerminal = false → Tracks s := by
      intro hlive
      exact ⟨hhedged, htrades, some y, hslots,
        Phase.leaving state active tracked exited (href.trans ref) hlive (by omega)⟩
    split
    · rename_i hterminal
      have hrejected : y.order.state = .rejected := by
        rcases hstate with heq | ⟨-, hack | hrejected⟩
        · rw [heq, live] at hterminal
          cases hterminal
        · rw [hack] at hterminal
          cases hterminal
        · exact hrejected
      refine tracks_exit_rejected hhedged htrades hslots ?_ (by rw [hrejected]; decide) exited state
        active (by omega) tsNs
      rintro _ ⟨⟩
      exact hterminal
    · rename_i hlive
      exact hstays (Bool.eq_false_iff.mpr hlive)
  | @filled _ y price volume booked href hlive hstate =>
    have hpart : volume ≠ x.order.remaining := by
      rintro rfl
      exact hexit price booked
    rw [if_neg hpart] at hstate
    rw [resolve_of_tracked tracked hslots (href.trans ref), hstate,
      show OrderState.partiallyFilled.isTerminal = false from rfl, if_neg Bool.false_ne_true]
    exact ⟨hhedged, htrades, some y, hslots, Phase.leaving state active tracked exited
      (href.trans ref) (by rw [hstate]; rfl) (by omega)⟩

include hslots in
/-- The order has had its turn, and an exit was not filled by it: the engine still tracks the book. -/
theorem tracks_resolve (htrades : s.statistics.trades = [])
    (hexit : s.working.logicalOrderId ≠ 0 → s.entryInFlight = false →
      ∀ z ∈ x, ∀ price, fill z ≠ some (price, z.order.remaining))
    (huntracked : s.working.logicalOrderId = 0 → s.scalper.life.position.active = false →
      ∀ z ∈ x, fill z = none) (tsNs : Nat) : Tracks (s.resolve tsNs) := by
  cases hphase with
  | flat state inactive untracked ended unfilled =>
    obtain ⟨hm, hy⟩ := ended.turn hturn
    rw [resolve_of_untracked untracked]
    exact ⟨hhedged, htrades, y, hslots, Phase.flat state inactive untracked hy (by omega)⟩
  | enteringUntracked state inactive untracked unfilled =>
    have hm := hturn.count_of_unfilled (huntracked untracked inactive)
    rw [resolve_of_untracked untracked]
    exact ⟨hhedged, htrades, y, hslots, Phase.enteringUntracked state inactive untracked (by omega)⟩
  | holding state active untracked ended filled =>
    obtain ⟨hm, hy⟩ := ended.turn hturn
    rw [resolve_of_untracked untracked]
    exact ⟨hhedged, htrades, y, hslots, Phase.holding state active untracked hy (by omega)⟩
  | leavingUntracked state active untracked filled =>
    have hle := hturn.le
    rw [resolve_of_untracked untracked]
    exact ⟨hhedged, htrades, y, hslots, Phase.leavingUntracked state active untracked (by omega)⟩
  | @entering x state inactive tracked entered ref live =>
    obtain ⟨y, rfl⟩ := hturn.some
    exact tracks_resolve_entry hhedged hcount htrades hslots hturn state inactive tracked entered ref live tsNs
  | @leaving x state active tracked exited ref live filled =>
    obtain ⟨y, rfl⟩ := hturn.some
    exact tracks_resolve_exit hhedged hcount htrades hslots hturn state active tracked exited ref live filled
      (hexit tracked exited x rfl) tsNs

include hslots in
/-- An exit that is filled leaves the strategy flat over two open tickets. -/
theorem not_flatBook_resolve_exit (htracked : s.working.logicalOrderId ≠ 0)
    (hexited : s.entryInFlight = false) {z : OrderSlot} (hz : z ∈ x) {price : Int}
    (hfill : fill z = some (price, z.order.remaining)) (tsNs : Nat) : ¬ FlatBook (s.resolve tsNs) := by
  cases hphase with
  | flat state inactive untracked => exact absurd untracked htracked
  | enteringUntracked state inactive untracked => exact absurd untracked htracked
  | holding state active untracked => exact absurd untracked htracked
  | leavingUntracked state active untracked => exact absurd untracked htracked
  | entering state inactive tracked entered =>
    rw [hexited] at entered
    cases entered
  | @leaving x state active tracked exited ref live filled =>
    cases hz
    cases hturn with
    | still unfilled =>
      rw [hfill] at unfilled
      cases unfilled
    | @filled _ y price' volume booked href hlive hstate =>
      rw [hfill] at booked
      cases booked
      rw [if_pos rfl] at hstate
      rw [resolve_of_tracked tracked hslots (href.trans ref), hstate,
        show OrderState.filled.isTerminal = true from rfl, if_pos rfl]
      exact not_flatBook_exit_filled hhedged hstate exited state (by omega) tsNs

/-- A fill that the engine does not follow leaves a ticket under a flat strategy. -/
theorem not_flatBook_resolve_untracked (huntracked : s.working.logicalOrderId = 0)
    (hinactive : s.scalper.life.position.active = false) {z : OrderSlot} (hz : z ∈ x)
    (hfill : fill z ≠ none) (tsNs : Nat) : ¬ FlatBook (s.resolve tsNs) := by
  have hn := hphase.unfilled hinactive huntracked
  rw [resolve_of_untracked huntracked]
  refine not_flatBook hhedged hinactive huntracked ?_
  cases hz
  cases hturn with
  | still unfilled => exact absurd unfilled hfill
  | filled => omega

end Turning

/-! ## One event -/

theorem Tracks.counted {s : StrategyReplayEngine α} (h : Tracks s) : Tracks s.counted :=
  ⟨h.hedged, h.trades, h.phase⟩

/-- The first half of an event: the engine tracks the book as long as no exit is filled, and an exit
that is filled breaks the correspondence there and then. -/
theorem Tracks.resolve {s : StrategyReplayEngine α} (h : Tracks s) {q : Quote α}
    (hq : q.symbolId < symbolCount) :
    (s.FillsNoExit q → Tracks ((s.counted.observe q).resolve q.tsNs)) ∧
      (¬ s.FillsNoExit q → ¬ FlatBook ((s.counted.observe q).resolve q.tsNs)) := by
  obtain ⟨x, hslots, hphase⟩ := h.phase
  have hsymbol : q.symbolId < maxSymbols := Nat.lt_trans hq (by decide)
  obtain ⟨hhedged, x', y, hqueue, hquoted, hslots', hturn⟩ := PaperBroker.onQuote_alone h.hedged hslots hsymbol
    q.bid q.ask q.bidSize q.askSize q.tsNs
  have hphase' := hphase.queue hqueue
  constructor
  · intro hfills
    refine tracks_resolve (s := s.counted.observe q) hhedged hslots' rfl hphase' hturn h.trades ?_ ?_ q.tsNs
    · intro htracked hexited z hz price
      exact hfills.exit htracked hexited z (hquoted.mem_slots hz) (hphase'.ref_of_tracked htracked hz) price
    · intro huntracked hinactive z hz
      exact hfills.untracked huntracked hinactive z (hquoted.mem_slots hz)
  · intro hfills hflat
    apply hfills
    refine ⟨?_, ?_⟩
    · intro htracked hexited z hz _ price hfill
      rcases hquoted.mem_cases hz with hnew | hz
      · rw [Books.fillAt_newOrder hnew] at hfill
        cases hfill
      · exact not_flatBook_resolve_exit (s := s.counted.observe q) hhedged hslots' rfl hphase' hturn htracked
          hexited hz hfill q.tsNs hflat
    · intro huntracked hinactive z hz
      rcases hquoted.mem_cases hz with hnew | hz
      · exact Books.fillAt_newOrder hnew _ _
      · by_contra hfill
        exact not_flatBook_resolve_untracked (s := s.counted.observe q) hhedged rfl hphase' hturn huntracked
          hinactive hz hfill q.tsNs hflat

theorem Tracks.resolved {s : StrategyReplayEngine α} (h : Tracks s) (e : Event α) :
    (s.NoExitFilled e → Tracks (s.resolved e)) ∧ (¬ s.NoExitFilled e → ¬ FlatBook (s.resolved e)) := by
  cases e with
  | other => exact ⟨fun _ => h.counted, fun hn => absurd trivial hn⟩
  | quote q =>
    unfold StrategyReplayEngine.resolved NoExitFilled
    dsimp only
    by_cases hq : q.symbolId < symbolCount
    · rw [if_neg (Nat.not_le.mpr hq)]
      obtain ⟨hkeep, hbreak⟩ := h.resolve hq
      exact ⟨fun hfills => hkeep (hfills hq), fun hfills => hbreak fun hn => hfills fun _ => hn⟩
    · rw [if_pos (Nat.not_lt.mp hq)]
      exact ⟨fun _ => h.counted, fun hn => absurd (fun hlt => absurd hlt hq) hn⟩

/-- What an intent that is about to be submitted finds: no order is live, and the strategy waits for
what it asked for. -/
inductive Asked (life : Lifecycle) (n : Nat) : Strategy.IntentKind → Prop
  | enter (state : life.state = .entryPending) (inactive : life.position.active = false)
      (unfilled : n = 0) : Asked life n .enter
  | exit (state : life.state = .exitPending) (active : life.position.active = true) (filled : n ≠ 0) :
      Asked life n .exit

section Submitting

variable {s : StrategyReplayEngine α} {x : Option OrderSlot} {kind : Strategy.IntentKind}

theorem tracks_rejected (hhedged : Hedged s.config.tradeSymbol s.broker.books)
    (htrades : s.statistics.trades = []) (hslots : Alone s.config.tradeSymbol s.broker.slots x)
    (hended : Ended x) (huntracked : s.working.logicalOrderId = 0)
    (hasked : Asked s.scalper.life s.broker.books.fillCount kind) :
    Tracks (s.rejected (decide (kind = .enter))) := by
  refine ⟨hhedged, htrades, x, hslots, ?_⟩
  cases hasked with
  | enter state inactive unfilled =>
    have hlife := Lifecycle.onEntryRejected_of_pending state
    refine Phase.flat (Or.inr (Or.inl ?_)) ?_ huntracked hended unfilled
    · exact congrArg Lifecycle.state hlife
    · exact (congrArg (fun l => l.position.active) hlife).trans inactive
  | exit state active filled =>
    have hlife := Lifecycle.onExitRejected_of_pending state
    refine Phase.holding ?_ ?_ huntracked hended filled
    · exact congrArg Lifecycle.state hlife
    · exact (congrArg (fun l => l.position.active) hlife).trans active

theorem tracks_submit (hhedged : Hedged s.config.tradeSymbol s.broker.books)
    (htrades : s.statistics.trades = []) (hslots : Alone s.config.tradeSymbol s.broker.slots x)
    (hended : Ended x) (huntracked : s.working.logicalOrderId = 0) {intent : Strategy.Intent}
    (hsymbol : intent.symbolId = s.config.tradeSymbol)
    (hasked : Asked s.scalper.life s.broker.books.fillCount intent.kind) (q : Quote α) :
    Tracks (s.submit intent q) := by
  unfold submit
  dsimp only
  split
  · exact tracks_rejected hhedged htrades hslots hended huntracked hasked
  obtain ⟨hclerical, hsubmitted⟩ := PaperBroker.submit_alone hslots hended
    (q := s.orderRequest intent q.seqGlobal) hsymbol rfl rfl q.tsNs
  generalize s.broker.submit (s.orderRequest intent q.seqGlobal) q.tsNs = r at hclerical hsubmitted ⊢
  have hhedged' := hhedged.clerical hclerical
  rw [← hclerical.fillCount] at hasked
  rcases hsubmitted with ⟨haccepted, hslots'⟩ | ⟨haccepted, y, hslots', hsent, href⟩
  · rw [haccepted, if_pos (by decide)]
    exact tracks_rejected hhedged' htrades hslots' hended huntracked hasked
  · rw [haccepted, if_neg (by decide)]
    refine ⟨hhedged', htrades, some y, hslots', ?_⟩
    generalize intent.kind = kind at hasked ⊢
    cases hasked with
    | enter state inactive unfilled =>
      by_cases htracked : r.1.ref.logicalOrderId = 0
      · exact Phase.enteringUntracked state inactive htracked unfilled
      · exact Phase.entering state inactive htracked rfl href (Or.inl ⟨Or.inl hsent, unfilled⟩)
    | exit state active filled =>
      by_cases htracked : r.1.ref.logicalOrderId = 0
      · exact Phase.leavingUntracked state active htracked filled
      · exact Phase.leaving state active htracked rfl href (by rw [hsent]; rfl) filled

end Submitting

section Deciding

variable [LE α] [LT α] [DecidableLE α] [DecidableLT α] [Zero α] [One α] [Neg α]
  {s : StrategyReplayEngine α}

/-- The second half of an event keeps the engine on the book, whatever the strategy decides. -/
theorem Tracks.onMarket (h : Tracks s) (q : Quote α) : Tracks (s.onMarket q) := by
  unfold StrategyReplayEngine.onMarket
  split
  · exact h
  rename_i hsymbol
  have hsymbol := not_not.mp hsymbol
  split
  · exact h
  rename_i huntracked
  have huntracked := not_not.mp huntracked
  obtain ⟨x, hslots, hphase⟩ := h.phase
  have hcleared : Phase s.scalper.life.clearVeto s.working s.entryInFlight s.broker.books.fillCount x :=
    hphase.same rfl rfl
  have hdecided := (s.scalper.decided q.symbolId (s.books q.symbolId) q.signals q.tsNs).1
  dsimp only
  generalize s.scalper.onMarket q.symbolId (s.books q.symbolId) q.signals q.tsNs = d at hdecided ⊢
  obtain ⟨intent, scalper⟩ := d
  dsimp only at hdecided ⊢
  generalize hr : (intent, scalper.life) = r at hdecided
  cases hdecided with
  | exit inPosition active due =>
    obtain ⟨rfl, hlife⟩ := Prod.mk.inj hr
    obtain ⟨hended, hfilled⟩ := hcleared.of_inPosition inPosition
    rw [if_neg (by intro hn; cases hn)]
    have hasked : Asked scalper.life s.broker.books.fillCount .exit := by
      rw [hlife]
      refine Asked.exit (Lifecycle.emitExit_state inPosition _) ?_ hfilled
      rw [Lifecycle.emitExit_position]
      exact active
    apply tracks_submit
    · exact h.hedged
    · exact h.trades
    · exact hslots
    · exact hended
    · exact huntracked
    · exact hsymbol
    · exact hasked
  | hold inPosition due =>
    obtain ⟨rfl, hlife⟩ := Prod.mk.inj hr
    rw [if_pos rfl]
    refine ⟨h.hedged, h.trades, x, hslots, ?_⟩
    dsimp only
    rw [hlife]
    exact hcleared
  | refused settled veto =>
    obtain ⟨rfl, hlife⟩ := Prod.mk.inj hr
    rw [if_pos rfl]
    refine ⟨h.hedged, h.trades, x, hslots, ?_⟩
    dsimp only
    rw [hlife]
    exact (hcleared.settled huntracked settled).same rfl rfl
  | entered settled idle flat direction =>
    obtain ⟨rfl, hlife⟩ := Prod.mk.inj hr
    obtain ⟨-, hended, hunfilled⟩ := hcleared.of_flat (settled.of_idle idle)
    rw [if_neg (by intro hn; cases hn)]
    have hasked : Asked scalper.life s.broker.books.fillCount .enter := by
      rw [hlife]
      refine Asked.enter (Lifecycle.emitEntry_state idle) ?_ hunfilled
      rw [Lifecycle.emitEntry_position]
      exact flat
    apply tracks_submit
    · exact h.hedged
    · exact h.trades
    · exact hslots
    · exact hended
    · exact huntracked
    · exact hsymbol
    · exact hasked

/-! ## Runs -/

theorem Tracks.step (h : Tracks s) {e : Event α} (hfills : s.NoExitFilled e) : Tracks (s.step e) := by
  have hresolved := (h.resolved e).1 hfills
  cases e with
  | other => exact hresolved
  | quote q =>
    unfold StrategyReplayEngine.step
    dsimp only
    split
    · exact hresolved
    · exact hresolved.onMarket q

omit [LE α] [LT α] [DecidableLE α] [DecidableLT α] [Zero α] [One α] [Neg α] in
theorem tracks_start (config : StrategyReplayConfig α) : Tracks (start config) := by
  refine ⟨⟨rfl, ?_, ⟨fun _ => rfl, fun _ => rfl⟩, rfl⟩, rfl, none, Alone.empty _, ?_⟩
  · intro p hp
    cases hp
  · refine Phase.flat (Or.inl rfl) rfl rfl ?_ rfl
    intro y hy
    cases hy

/-- The book is flat where the strategy is, both when the working order has been resolved and when
the strategy has decided. -/
def BookFollows (s : StrategyReplayEngine α) (e : Event α) : Prop :=
  FlatBook (s.resolved e) ∧ FlatBook (s.step e)

/-- In every run the book follows the strategy through all events exactly when no event fills an
exit in full, or an order that the engine does not follow. -/
theorem book_follows_iff (config : StrategyReplayConfig α) (events : List (Event α)) :
    Runs.Along step BookFollows (start config) events ↔
      Runs.Along step NoExitFilled (start config) events := by
  have hiff : ∀ (s : StrategyReplayEngine α) (e : Event α), Tracks s →
      (s.BookFollows e ↔ s.NoExitFilled e) := by
    intro s e h
    obtain ⟨hkeep, hbreak⟩ := h.resolved e
    constructor
    · intro hfollows
      by_contra hfills
      exact hbreak hfills hfollows.1
    · intro hfills
      exact ⟨(hkeep hfills).flatBook, (h.step hfills).flatBook⟩
  apply Runs.along_iff_along_of_invariant (I := Tracks)
  · intro s e h hfollows
    exact h.step ((hiff s e h).mp hfollows)
  · intro s e h
    exact hiff s e h
  · exact tracks_start config

instance BookFollows.decidable (s : StrategyReplayEngine α) (e : Event α) : Decidable (s.BookFollows e) :=
  inferInstanceAs (Decidable (FlatBook (s.resolved e) ∧ FlatBook (s.step e)))

end Deciding

/-- A long entered on the first quote and filled on the second; the time stop leaves it on the third,
and the fourth fills the exit. -/
def roundTripConfig : StrategyReplayConfig Int where
  strategy :=
    { entryQueueImbalance := 1, entryOfi := 0, minVolatility := 0, maxVolatility := 1,
      requireOfiAgreement := false, maxHoldNs := 500000 }
  mode := .optimistic

def roundTrip : List (Event Int) :=
  [.quote ⟨0, 1000000, 1, 100, 102, 5, 0, ⟨0, 1, 0, 26⟩⟩,
    .quote ⟨0, 2000000, 2, 100, 102, 5, 0, ⟨0, 1, 0, 30⟩⟩,
    .quote ⟨0, 3000000, 3, 100, 102, 5, 0, ⟨0, 1, 0, 30⟩⟩,
    .quote ⟨0, 4000000, 4, 100, 102, 5, 0, ⟨0, 1, 0, 30⟩⟩]

theorem round_trip_leaves_tickets : ¬ Runs.Along step BookFollows (start roundTripConfig) roundTrip := by
  decide +kernel

end StrategyReplayEngine

end MicrostructureEngine.Replay
