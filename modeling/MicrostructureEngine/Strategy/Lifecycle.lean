import MicrostructureEngine.Exec.Types
import Mathlib.Data.List.Chain
import Mathlib.Data.List.Infix

/-!
# Strategy intents and the lifecycle

The fields and callbacks that the three strategies have in common, and the part of `on_market`
they share: exits first, then cooldown, warm-up and the position gates. Signals are `double` in
the source. A strategy only compares them with thresholds, so they are of any type with an order
here, and what a signal engine computes is an argument.

`path` is history and not in the source: the states gone through, the present one last.
-/

namespace MicrostructureEngine.Strategy

set_option autoImplicit false

/-! ## The book -/

structure Level where
  priceTicks : Int := 0
  size : Int := 0
  deriving DecidableEq, Repr

/-- The two ladders, best level first. -/
structure OrderBook where
  bids : List Level := []
  asks : List Level := []
  deriving DecidableEq, Repr

namespace OrderBook

def hasBothSides (b : OrderBook) : Bool := decide (b.bids.length > 0) && decide (b.asks.length > 0)

def bestBid (b : OrderBook) : Level := b.bids.head?.getD {}

def bestAsk (b : OrderBook) : Level := b.asks.head?.getD {}

end OrderBook

structure TopOfBook where
  bidTicks : Int := 0
  askTicks : Int := 0
  bidSize : Int := 0
  askSize : Int := 0
  valid : Bool := false
  deriving DecidableEq, Repr

def TopOfBook.spreadTicks (top : TopOfBook) : Int := top.askTicks - top.bidTicks

def topOfBook (b : OrderBook) : TopOfBook :=
  if !b.hasBothSides then {}
  else
    { bidTicks := b.bestBid.priceTicks, askTicks := b.bestAsk.priceTicks,
      bidSize := b.bestBid.size, askSize := b.bestAsk.size, valid := true }

/-! ## Intents and states -/

inductive IntentKind where
  | none
  | enter
  | exit
  deriving DecidableEq, Repr

structure Intent where
  kind : IntentKind := .none
  strategyId : Nat := 0
  symbolId : Nat := 0
  side : Side := .buy
  volume : Int := 0
  tsNs : Nat := 0
  reduceOnly : Bool := false
  deriving DecidableEq, Repr

inductive StrategyState where
  | cold
  | idle
  | entryPending
  | inPosition
  | exitPending
  | cooldown
  | halted
  deriving DecidableEq, Repr

/-- A halt is always reachable, and only a manual re-arm leaves it. -/
def legal : StrategyState → StrategyState → Bool
  | .halted, _ => false
  | _, .halted => true
  | .cold, b => b == .idle
  | .idle, b => b == .entryPending || b == .cold
  | .entryPending, b => b == .inPosition || b == .idle
  | .inPosition, b => b == .exitPending
  | .exitPending, b => b == .cooldown || b == .inPosition
  | .cooldown, b => b == .idle

inductive Veto where
  | none
  | coldSignals
  | wrongState
  | cooldownActive
  | maxPositions
  | spreadTooWide
  | volatilityOutOfBand
  | signalBelowThreshold
  | averagingDown
  | halted
  deriving DecidableEq, Repr

inductive ExitReason where
  | none
  | takeProfit
  | stopLoss
  | timeStop
  | halt
  | signalFlip
  deriving DecidableEq, Repr

structure OpenPosition where
  active : Bool := false
  side : Side := .buy
  volume : Int := 0
  entryTicks : Int := 0
  openedNs : Nat := 0
  deriving DecidableEq, Repr

/-- Closing is the opposite side of the open. -/
def closingSide (side : Side) : Side := if side = .buy then .sell else .buy

/-- The price the position would close at: the bid for a long, the ask for a short. -/
def OpenPosition.mark (p : OpenPosition) (bidTicks askTicks : Int) : Int :=
  if p.side = .buy then bidTicks else askTicks

/-- What the position has gained at its closing price. -/
def OpenPosition.move (p : OpenPosition) (bidTicks askTicks : Int) : Int :=
  if p.side = .buy then p.mark bidTicks askTicks - p.entryTicks
  else p.entryTicks - p.mark bidTicks askTicks

/-- The time stop is due. -/
def OpenPosition.heldFor (p : OpenPosition) (maxHoldNs tsNs : Nat) : Bool :=
  decide (tsNs ≥ p.openedNs) && decide (tsNs - p.openedNs ≥ maxHoldNs)

theorem OpenPosition.heldFor_eq {p : OpenPosition} {maxHoldNs tsNs : Nat}
    (h : p.openedNs + maxHoldNs ≤ tsNs) : p.heldFor maxHoldNs tsNs = true := by
  unfold heldFor
  rw [decide_eq_true (by omega), decide_eq_true (by omega)]
  rfl

/-- The intent leaves the whole position. -/
structure OpenPosition.LeftBy (p : OpenPosition) (intent : Intent) : Prop where
  kind : intent.kind = .exit
  side : intent.side = closingSide p.side
  volume : intent.volume = p.volume
  reduceOnly : intent.reduceOnly = true

/-! ## The lifecycle -/

structure Lifecycle where
  state : StrategyState := .cold
  position : OpenPosition := {}
  veto : Veto := .none
  exitReason : ExitReason := .none
  cooldownUntilNs : Nat := 0
  openPositions : Nat := 0
  entries : Nat := 0
  exits : Nat := 0
  vetoCount : Nat := 0
  path : List StrategyState := [.cold]
  deriving DecidableEq, Repr

namespace Lifecycle

def transition (l : Lifecycle) (next : StrategyState) : Lifecycle :=
  if legal l.state next then { l with state := next, path := l.path ++ [next] } else l

def halt (l : Lifecycle) : Lifecycle :=
  if l.state ≠ .halted then { l with state := .halted, path := l.path ++ [.halted] } else l

/-- `veto_ = Veto::none`, with which every market call begins. -/
def clearVeto (l : Lifecycle) : Lifecycle := { l with veto := .none }

def refuse (l : Lifecycle) (veto : Veto) : Lifecycle :=
  { l with veto := veto, vetoCount := l.vetoCount + 1 }

def exitIntent (l : Lifecycle) (intent : Intent) : Intent :=
  { intent with
    kind := .exit, side := closingSide l.position.side, volume := l.position.volume, reduceOnly := true }

def emitExit (l : Lifecycle) (reason : ExitReason) : Lifecycle :=
  let l := transition { l with exitReason := reason } .exitPending
  { l with exits := l.exits + 1 }

def entryIntent (intent : Intent) (direction volume : Int) : Intent :=
  { intent with kind := .enter, side := if direction > 0 then .buy else .sell, volume := volume }

def emitEntry (l : Lifecycle) : Lifecycle :=
  let l := l.transition .entryPending
  { l with entries := l.entries + 1 }

/-- Steps 1 to 3 of `on_market` and the position gates, for the exit that is due. An answer ends
the call; without one it goes on to the filters of an entry. -/
def gates (l : Lifecycle) (intent : Intent) (exit : ExitReason) (warm : Bool) (maxPositions tsNs : Nat) :
    Option Intent × Lifecycle :=
  if l.state = .inPosition ∧ l.position.active then
    if exit ≠ .none then (some (l.exitIntent intent), l.emitExit exit) else (some intent, l)
  else if l.state = .cooldown ∧ tsNs < l.cooldownUntilNs then (some intent, l.refuse .cooldownActive)
  else
    let l := if l.state = .cooldown then l.transition .idle else l
    if l.state = .cold ∧ !warm then (some intent, l.refuse .coldSignals)
    else
      let l := if l.state = .cold then l.transition .idle else l
      if !warm then (some intent, l.refuse .coldSignals)
      else if l.state ≠ .idle then (some intent, l.refuse .wrongState)
      else if l.position.active then (some intent, l.refuse .averagingDown)
      else if l.openPositions ≥ maxPositions then (some intent, l.refuse .maxPositions)
      else (none, l)

/-! ## Execution callbacks -/

def onEntryFilled (l : Lifecycle) (side : Side) (volume priceTicks : Int) (tsNs : Nat) : Lifecycle :=
  if l.state ≠ .entryPending then l
  else
    transition
      { l with
        position :=
          { active := true, side := side, volume := volume, entryTicks := priceTicks, openedNs := tsNs }
        openPositions := l.openPositions + 1 }
      .inPosition

def onEntryRejected (l : Lifecycle) : Lifecycle :=
  if l.state = .entryPending then l.transition .idle else l

def onExitFilled (l : Lifecycle) (cooldownNs tsNs : Nat) : Lifecycle :=
  if l.state ≠ .exitPending then l
  else
    transition
      { l with
        position := {}
        openPositions := if l.openPositions > 0 then l.openPositions - 1 else l.openPositions
        cooldownUntilNs := (tsNs + cooldownNs) % 2 ^ 64 }
      .cooldown

/-- Back to the position with the stop intact; the next tick decides again. -/
def onExitRejected (l : Lifecycle) : Lifecycle :=
  if l.state = .exitPending then l.transition .inPosition else l

/-! ## What holds in every run -/

/-- The states in which the strategy holds a position. -/
def holding : StrategyState → Bool
  | .inPosition | .exitPending => true
  | _ => false

/-- The last state before a halt, or the present one. -/
def lastRunning (path : List StrategyState) : StrategyState :=
  (path.filter (· != .halted)).getLast?.getD .cold

@[simp] theorem lastRunning_halt (path : List StrategyState) :
    lastRunning (path ++ [.halted]) = lastRunning path := by
  simp [lastRunning, List.filter_append]

theorem lastRunning_append {s : StrategyState} (h : s ≠ .halted) (path : List StrategyState) :
    lastRunning (path ++ [s]) = s := by
  simp [lastRunning, List.filter_append, h]

structure Sound (l : Lifecycle) : Prop where
  chain : l.path.IsChain fun a b => legal a b = true
  last : l.path.getLast? = some l.state
  running : l.state ≠ .halted → lastRunning l.path = l.state
  held : l.position.active = holding (lastRunning l.path)
  counted : l.openPositions = if l.position.active then 1 else 0

theorem sound_new : Sound {} :=
  ⟨List.isChain_singleton _, rfl, fun _ => rfl, rfl, rfl⟩

theorem Sound.active_inPosition {l : Lifecycle} (h : Sound l) (hstate : l.state = .inPosition) :
    l.position.active = true := by
  rw [h.held, h.running (by rw [hstate]; decide), hstate]
  rfl

theorem Sound.active_eq {l : Lifecycle} (h : Sound l) (hrunning : l.state ≠ .halted) :
    l.position.active = holding l.state := by
  rw [h.held, h.running hrunning]

/-- A step of the state machine, with the position that goes with the new state. -/
theorem Sound.move {l : Lifecycle} (h : Sound l) {next : StrategyState}
    (hlegal : legal l.state next = true) (hnext : next ≠ .halted) {l' : Lifecycle}
    (hstate : l'.state = next) (hpath : l'.path = l.path ++ [next])
    (hheld : l'.position.active = holding next)
    (hcount : l'.openPositions = if l'.position.active then 1 else 0) : Sound l' := by
  refine ⟨?_, ?_, ?_, ?_, hcount⟩
  · rw [hpath, List.isChain_append, h.last]
    exact ⟨h.chain, List.isChain_singleton _, by simpa using hlegal⟩
  · rw [hpath, hstate, List.getLast?_append]
    rfl
  · intro _
    rw [hpath, hstate, lastRunning_append hnext]
  · rw [hpath, lastRunning_append hnext]
    exact hheld

/-- Only the counters, the veto and the reason differ. -/
theorem Sound.same {l l' : Lifecycle} (h : Sound l) (hstate : l'.state = l.state)
    (hpath : l'.path = l.path) (hposition : l'.position = l.position)
    (hcount : l'.openPositions = l.openPositions) : Sound l' := by
  refine ⟨?_, ?_, ?_, ?_, ?_⟩
  · rw [hpath]
    exact h.chain
  · rw [hpath, hstate]
    exact h.last
  · rw [hpath, hstate]
    exact h.running
  · rw [hpath, hposition]
    exact h.held
  · rw [hposition, hcount]
    exact h.counted

/-- A transition that neither opens nor closes the position. -/
theorem Sound.transition {l : Lifecycle} (h : Sound l) {next : StrategyState}
    (hrunning : l.state ≠ .halted) (hnext : next ≠ .halted) (hkeep : holding next = holding l.state) :
    Sound (l.transition next) := by
  unfold Lifecycle.transition
  split
  · rename_i hlegal
    refine h.move hlegal hnext rfl rfl ?_ h.counted
    exact (h.active_eq hrunning).trans hkeep.symm
  · exact h

theorem Sound.halt {l : Lifecycle} (h : Sound l) : Sound l.halt := by
  unfold Lifecycle.halt
  split
  · rename_i hrunning
    refine ⟨?_, ?_, ?_, ?_, h.counted⟩
    · have hlegal : legal l.state .halted = true := by
        cases hs : l.state with
        | halted => exact absurd hs hrunning
        | _ => rfl
      rw [List.isChain_append, h.last]
      exact ⟨h.chain, List.isChain_singleton _, by simpa using hlegal⟩
    · rw [List.getLast?_append]
      rfl
    · intro hn
      exact absurd rfl hn
    · rw [lastRunning_halt]
      exact h.held
  · exact h

/-- A run of losses may halt. -/
theorem Sound.haltIf {l : Lifecycle} (h : Sound l) (p : Prop) [Decidable p] :
    Sound (if p then l.halt else l) := by
  split
  · exact h.halt
  · exact h

/-! ### The market decision -/

/-- The lifecycle after an expired cooldown or a finished warm-up, or as it was. -/
def Settled (l l' : Lifecycle) : Prop :=
  l' = l ∨ ((l.state = .cooldown ∨ l.state = .cold) ∧ l' = l.transition .idle)

theorem transition_of_legal {l : Lifecycle} {next : StrategyState} (h : legal l.state next = true) :
    l.transition next = { l with state := next, path := l.path ++ [next] } := by
  unfold transition
  rw [if_pos h]

theorem transition_position (l : Lifecycle) (next : StrategyState) :
    (l.transition next).position = l.position := by
  unfold transition
  split <;> rfl

theorem Settled.position {l l' : Lifecycle} (h : Settled l l') : l'.position = l.position := by
  rcases h with rfl | ⟨-, rfl⟩
  · rfl
  · exact transition_position l .idle

theorem Settled.sound {l l' : Lifecycle} (h : Settled l l') (hl : Sound l) : Sound l' := by
  rcases h with rfl | ⟨hstate | hstate, rfl⟩
  · exact hl
  · exact hl.transition (by rw [hstate]; decide) (by decide) (by rw [hstate]; rfl)
  · exact hl.transition (by rw [hstate]; decide) (by decide) (by rw [hstate]; rfl)

/-- Nothing is held or pending where a settled lifecycle is idle. -/
theorem Settled.of_idle {l l' : Lifecycle} (h : Settled l l') (hidle : l'.state = .idle) :
    l.state = .idle ∨ l.state = .cooldown ∨ l.state = .cold := by
  rcases h with rfl | ⟨hstate, -⟩
  · exact Or.inl hidle
  · exact Or.inr hstate

/-- Everything `gates` can answer. -/
inductive Gated (l : Lifecycle) (intent : Intent) (exit : ExitReason) : Option Intent × Lifecycle → Prop
  | exit (inPosition : l.state = .inPosition) (active : l.position.active = true)
      (due : exit ≠ .none) : Gated l intent exit (some (l.exitIntent intent), l.emitExit exit)
  | hold (inPosition : l.state = .inPosition) (active : l.position.active = true)
      (due : exit = .none) : Gated l intent exit (some intent, l)
  | refused {l' : Lifecycle} (settled : Settled l l') (veto : Veto) :
      Gated l intent exit (some intent, l'.refuse veto)
  | passed {l' : Lifecycle} (settled : Settled l l') (idle : l'.state = .idle)
      (flat : l'.position.active = false) : Gated l intent exit (none, l')

theorem gated (l : Lifecycle) (intent : Intent) (exit : ExitReason) (warm : Bool)
    (maxPositions tsNs : Nat) : Gated l intent exit (l.gates intent exit warm maxPositions tsNs) := by
  unfold gates
  split
  · rename_i hposition
    split
    · rename_i hdue
      exact Gated.exit hposition.1 hposition.2 hdue
    · rename_i hdue
      exact Gated.hold hposition.1 hposition.2 (not_not.mp hdue)
  split
  · exact Gated.refused (Or.inl rfl) _
  have hcooldown : Settled l (if l.state = .cooldown then l.transition .idle else l) := by
    split
    · rename_i hstate
      exact Or.inr ⟨Or.inl hstate, rfl⟩
    · exact Or.inl rfl
  have hwarmed : Settled l
      (if (if l.state = .cooldown then l.transition .idle else l).state = .cold then
        (if l.state = .cooldown then l.transition .idle else l).transition .idle
      else if l.state = .cooldown then l.transition .idle else l) := by
    by_cases hstate : l.state = .cooldown
    · have hidle : (l.transition .idle).state = .idle := by
        rw [transition_of_legal (by rw [hstate]; rfl)]
      rw [if_pos hstate, if_neg (by rw [hidle]; decide)]
      exact Or.inr ⟨Or.inl hstate, rfl⟩
    · rw [if_neg hstate]
      split
      · rename_i hcold
        exact Or.inr ⟨Or.inr hcold, rfl⟩
      · exact Or.inl rfl
  dsimp only
  generalize (if l.state = .cooldown then l.transition .idle else l) = m at hcooldown hwarmed ⊢
  split
  · exact Gated.refused hcooldown _
  generalize (if m.state = .cold then m.transition .idle else m) = l' at hwarmed ⊢
  split
  · exact Gated.refused hwarmed _
  split
  · exact Gated.refused hwarmed _
  rename_i hidle
  split
  · exact Gated.refused hwarmed _
  rename_i hflat
  split
  · exact Gated.refused hwarmed _
  · exact Gated.passed hwarmed (not_not.mp hidle) (Bool.eq_false_iff.mpr hflat)

/-- An exit that is due for a held position is emitted. -/
theorem gates_of_due {l : Lifecycle} (inPosition : l.state = .inPosition)
    (active : l.position.active = true) {exit : ExitReason} (due : exit ≠ .none) (intent : Intent)
    (warm : Bool) (maxPositions tsNs : Nat) :
    l.gates intent exit warm maxPositions tsNs = (some (l.exitIntent intent), l.emitExit exit) := by
  unfold gates
  rw [if_pos ⟨inPosition, active⟩, if_pos due]

/-- Everything a market call can do: to leave, to hold, to refuse an entry, or to enter. -/
inductive Decided (l : Lifecycle) (intent : Intent) (exit : ExitReason) (volume : Int) :
    Intent × Lifecycle → Prop
  | exit (inPosition : l.state = .inPosition) (active : l.position.active = true)
      (due : exit ≠ .none) : Decided l intent exit volume (l.exitIntent intent, l.emitExit exit)
  | hold (inPosition : l.state = .inPosition) (due : exit = .none) : Decided l intent exit volume (intent, l)
  | refused {l' : Lifecycle} (settled : Settled l l') (veto : Veto) :
      Decided l intent exit volume (intent, l'.refuse veto)
  | entered {l' : Lifecycle} (settled : Settled l l') (idle : l'.state = .idle)
      (flat : l'.position.active = false) (direction : Int) :
      Decided l intent exit volume (entryIntent intent direction volume, l'.emitEntry)

/-- What a market call may emit, and in which states. -/
structure Disciplined (l : Lifecycle) (answer : Intent × Lifecycle) : Prop where
  enter : answer.1.kind = .enter →
    l.position.active = false ∧ l.state ≠ .entryPending ∧ l.state ≠ .inPosition ∧
      l.state ≠ .exitPending ∧ answer.2.state = .entryPending
  exit : answer.1.kind = .exit →
    l.position.active = true ∧ answer.1.reduceOnly = true ∧
      answer.1.side = closingSide l.position.side ∧ answer.1.volume = l.position.volume

theorem emitEntry_state {l : Lifecycle} (h : l.state = .idle) : l.emitEntry.state = .entryPending := by
  unfold emitEntry
  rw [transition_of_legal (by rw [h]; rfl)]

theorem emitEntry_position (l : Lifecycle) : l.emitEntry.position = l.position :=
  transition_position l .entryPending

theorem emitExit_state {l : Lifecycle} (h : l.state = .inPosition) (reason : ExitReason) :
    (l.emitExit reason).state = .exitPending := by
  unfold emitExit
  dsimp only
  rw [transition_of_legal]
  dsimp only
  rw [h]
  rfl

theorem emitExit_position (l : Lifecycle) (reason : ExitReason) :
    (l.emitExit reason).position = l.position :=
  transition_position { l with exitReason := reason } .exitPending

theorem Decided.disciplined {l : Lifecycle} {intent : Intent} {exit : ExitReason} {volume : Int}
    {r : Intent × Lifecycle} (h : Decided l intent exit volume r) (hkind : intent.kind = .none) :
    Disciplined l r := by
  cases h with
  | exit inPosition active due => exact ⟨nofun, fun _ => ⟨active, rfl, rfl, rfl⟩⟩
  | hold inPosition due =>
    refine ⟨fun hk => ?_, fun hk => ?_⟩
    · rw [hkind] at hk
      cases hk
    · rw [hkind] at hk
      cases hk
  | refused settled veto =>
    refine ⟨fun hk => ?_, fun hk => ?_⟩
    · rw [hkind] at hk
      cases hk
    · rw [hkind] at hk
      cases hk
  | entered settled idle flat direction =>
    refine ⟨fun _ => ?_, nofun⟩
    rw [settled.position] at flat
    rcases settled.of_idle idle with hs | hs | hs
    · exact ⟨flat, by rw [hs]; decide, by rw [hs]; decide, by rw [hs]; decide, emitEntry_state idle⟩
    · exact ⟨flat, by rw [hs]; decide, by rw [hs]; decide, by rw [hs]; decide, emitEntry_state idle⟩
    · exact ⟨flat, by rw [hs]; decide, by rw [hs]; decide, by rw [hs]; decide, emitEntry_state idle⟩

/-! ### The callbacks in the states they answer to -/

theorem onEntryFilled_of_pending {l : Lifecycle} (h : l.state = .entryPending) (side : Side)
    (volume priceTicks : Int) (tsNs : Nat) :
    l.onEntryFilled side volume priceTicks tsNs =
      { l with
        state := .inPosition
        position :=
          { active := true, side := side, volume := volume, entryTicks := priceTicks, openedNs := tsNs }
        openPositions := l.openPositions + 1
        path := l.path ++ [.inPosition] } := by
  unfold onEntryFilled
  rw [if_neg (not_not.mpr h)]
  apply transition_of_legal
  dsimp only
  rw [h]
  rfl

theorem onExitFilled_of_pending {l : Lifecycle} (h : l.state = .exitPending) (cooldownNs tsNs : Nat) :
    l.onExitFilled cooldownNs tsNs =
      { l with
        state := .cooldown
        position := {}
        openPositions := if l.openPositions > 0 then l.openPositions - 1 else l.openPositions
        cooldownUntilNs := (tsNs + cooldownNs) % 2 ^ 64
        path := l.path ++ [.cooldown] } := by
  unfold onExitFilled
  rw [if_neg (not_not.mpr h)]
  apply transition_of_legal
  dsimp only
  rw [h]
  rfl

theorem onEntryRejected_of_pending {l : Lifecycle} (h : l.state = .entryPending) :
    l.onEntryRejected = { l with state := .idle, path := l.path ++ [.idle] } := by
  unfold onEntryRejected
  rw [if_pos h]
  exact transition_of_legal (by rw [h]; rfl)

theorem onExitRejected_of_pending {l : Lifecycle} (h : l.state = .exitPending) :
    l.onExitRejected = { l with state := .inPosition, path := l.path ++ [.inPosition] } := by
  unfold onExitRejected
  rw [if_pos h]
  exact transition_of_legal (by rw [h]; rfl)

/-! ### Every operation keeps the lifecycle sound -/

section Operations

variable {l : Lifecycle} (h : Sound l)
include h

theorem Sound.clearVeto : Sound l.clearVeto := h.same rfl rfl rfl rfl

theorem Sound.refuse (veto : Veto) : Sound (l.refuse veto) := h.same rfl rfl rfl rfl

theorem Sound.emitExit (hstate : l.state = .inPosition) (reason : ExitReason) : Sound (l.emitExit reason) := by
  have hnoted : Sound { l with exitReason := reason } := h.same rfl rfl rfl rfl
  have hmoved : Sound (Lifecycle.transition { l with exitReason := reason } .exitPending) :=
    hnoted.transition (by rw [hstate]; decide) (by decide) (by rw [hstate]; rfl)
  exact hmoved.same rfl rfl rfl rfl

theorem Sound.emitEntry (hstate : l.state = .idle) : Sound l.emitEntry := by
  have hmoved : Sound (l.transition .entryPending) :=
    h.transition (by rw [hstate]; decide) (by decide) (by rw [hstate]; rfl)
  exact hmoved.same rfl rfl rfl rfl

theorem Sound.onEntryFilled (side : Side) (volume priceTicks : Int) (tsNs : Nat) :
    Sound (l.onEntryFilled side volume priceTicks tsNs) := by
  by_cases hstate : l.state = .entryPending
  · have hinactive : l.position.active = false := by
      rw [h.active_eq (by rw [hstate]; decide), hstate]
      rfl
    have hcount : l.openPositions = 0 := by
      rw [h.counted, hinactive]
      rfl
    have hlegal : legal l.state .inPosition = true := by rw [hstate]; rfl
    rw [onEntryFilled_of_pending hstate]
    refine h.move hlegal (by decide) rfl rfl rfl ?_
    dsimp only
    rw [hcount]
    rfl
  · unfold Lifecycle.onEntryFilled
    rw [if_pos hstate]
    exact h

theorem Sound.onEntryRejected : Sound l.onEntryRejected := by
  unfold Lifecycle.onEntryRejected
  split
  · rename_i hstate
    exact h.transition (by rw [hstate]; decide) (by decide) (by rw [hstate]; rfl)
  · exact h

theorem Sound.onExitFilled (cooldownNs tsNs : Nat) : Sound (l.onExitFilled cooldownNs tsNs) := by
  by_cases hstate : l.state = .exitPending
  · have hactive : l.position.active = true := by
      rw [h.active_eq (by rw [hstate]; decide), hstate]
      rfl
    have hcount : l.openPositions = 1 := by
      rw [h.counted, hactive]
      rfl
    have hlegal : legal l.state .cooldown = true := by rw [hstate]; rfl
    rw [onExitFilled_of_pending hstate]
    refine h.move hlegal (by decide) rfl rfl rfl ?_
    dsimp only
    rw [hcount]
    rfl
  · unfold Lifecycle.onExitFilled
    rw [if_pos hstate]
    exact h

theorem Sound.onExitRejected : Sound l.onExitRejected := by
  unfold Lifecycle.onExitRejected
  split
  · rename_i hstate
    exact h.transition (by rw [hstate]; decide) (by decide) (by rw [hstate]; rfl)
  · exact h

theorem Sound.decided {intent : Intent} {exit : ExitReason} {volume : Int} {r : Intent × Lifecycle}
    (hdecided : Decided l intent exit volume r) : Sound r.2 := by
  cases hdecided with
  | exit inPosition active due => exact h.emitExit inPosition exit
  | hold => exact h
  | refused settled veto => exact (settled.sound h).refuse veto
  | entered settled idle flat direction => exact (settled.sound h).emitEntry idle

end Operations

end Lifecycle

end MicrostructureEngine.Strategy
