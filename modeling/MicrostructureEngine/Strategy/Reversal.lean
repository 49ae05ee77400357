import MicrostructureEngine.Strategy.L1Scalpers

/-!
# When an entry is forced

A reversal is carried by two flags: `flipPending` from the exit that is emitted to the exit that is
filled, `forcedSideValid` from there to the next entry emitted. A refused exit leaves the first set,
whatever reason the exit is issued again with; an entry spends the second, even one that is refused.
-/

namespace MicrostructureEngine.Strategy.ScalpFlip

set_option autoImplicit false

universe u
variable {α : Type u}

/-- The states from which a market call may enter. -/
def betweenPositions : StrategyState → Bool
  | .cold | .idle | .cooldown => true
  | _ => false

/-- The flags and the history tell the same. -/
structure Reverses (s : ScalpFlip α) : Prop where
  spent : betweenPositions s.life.state = false → s.life.state ≠ .halted → s.forcedSideValid = false
  forced : betweenPositions s.life.state = true →
    (s.forcedSideValid = true ↔ s.closed.map Prod.fst = some .signalFlip)
  opposite : ∀ reason side, s.closed = some (reason, side) → s.forcedSideValid = true →
    s.forcedSide = closingSide side
  pending : s.flipPending = true → s.life.state ≠ .halted →
    Lifecycle.holding s.life.state = true ∧ s.flipSide = closingSide s.life.position.side
  noted : s.life.state = .exitPending → s.life.exitReason = .signalFlip → s.flipPending = true

/-- A filled exit has the reason of a flip where one is pending, and an entry that follows a flip is
not refused. -/
def Carried (s : ScalpFlip α) : L1Call α → Prop
  | .onExitFilled _ _ =>
    s.life.state = .exitPending → s.flipPending = true → s.life.exitReason = .signalFlip
  | .onEntryRejected =>
    s.life.state = .entryPending → s.closed.map Prod.fst ≠ some .signalFlip
  | _ => True

instance (s : ScalpFlip α) (c : L1Call α) : Decidable (s.Carried c) :=
  match c with
  | .onMarket .. | .onEntryFilled .. | .onExitRejected | .halt => inferInstanceAs (Decidable True)
  | .onEntryRejected =>
    inferInstanceAs (Decidable (s.life.state = .entryPending → s.closed.map Prod.fst ≠ some .signalFlip))
  | .onExitFilled _ _ =>
    inferInstanceAs (Decidable
      (s.life.state = .exitPending → s.flipPending = true → s.life.exitReason = .signalFlip))

theorem reverses_new (config : ScalpFlipConfig α) : Reverses { config := config } := by
  refine ⟨nofun, fun _ => ⟨nofun, nofun⟩, nofun, nofun, nofun⟩

/-- Nothing is pending between positions. -/
theorem Reverses.not_pending {s : ScalpFlip α} (h : s.Reverses)
    (hbetween : betweenPositions s.life.state = true) : s.flipPending = false := by
  apply Bool.eq_false_iff.mpr
  intro hpending
  have hrunning : s.life.state ≠ .halted := by
    intro hhalted
    rw [hhalted] at hbetween
    cases hbetween
  have hholding := (h.pending hpending hrunning).1
  cases hs : s.life.state with
  | inPosition | exitPending =>
    rw [hs] at hbetween
    cases hbetween
  | cold | idle | cooldown | entryPending | halted =>
    rw [hs] at hholding
    cases hholding

/-- Only the lifecycle differs, and not in what the flags are about. -/
theorem Reverses.same {s : ScalpFlip α} (h : s.Reverses) {l : Lifecycle} (hstate : l.state = s.life.state)
    (hposition : l.position = s.life.position) (hreason : l.exitReason = s.life.exitReason) :
    Reverses { s with life := l } := by
  refine ⟨?_, ?_, h.opposite, ?_, ?_⟩
  · dsimp only
    rw [hstate]
    exact h.spent
  · dsimp only
    rw [hstate]
    exact h.forced
  · dsimp only
    rw [hstate, hposition]
    exact h.pending
  · dsimp only
    rw [hstate, hreason]
    exact h.noted

/-- From one state between positions to another. -/
theorem Reverses.moved {s : ScalpFlip α} (h : s.Reverses) {l : Lifecycle}
    (hbefore : betweenPositions s.life.state = true) (hafter : betweenPositions l.state = true) :
    Reverses { s with life := l } := by
  refine ⟨?_, fun _ => h.forced hbefore, h.opposite, ?_, ?_⟩
  · intro hoff
    rw [hafter] at hoff
    cases hoff
  · intro hpending
    rw [h.not_pending hbefore] at hpending
    cases hpending
  · intro hstate
    rw [show l.state = .exitPending from hstate] at hafter
    cases hafter

theorem Reverses.halted {s : ScalpFlip α} (h : s.Reverses) {l : Lifecycle} (hl : l.state = .halted) :
    Reverses { s with life := l } := by
  refine ⟨fun _ hrunning => absurd hl hrunning, ?_, h.opposite, fun _ hrunning => absurd hl hrunning, ?_⟩
  · intro hbetween
    rw [show l.state = .halted from hl] at hbetween
    cases hbetween
  · intro hstate
    rw [show l.state = .exitPending from hstate] at hl
    cases hl

/-! ## The callbacks -/

theorem Reverses.onEntryFilled {s : ScalpFlip α} (h : s.Reverses) (side : Side) (volume priceTicks : Int)
    (tsNs : Nat) : Reverses { s with life := s.life.onEntryFilled side volume priceTicks tsNs } := by
  by_cases hstate : s.life.state = .entryPending
  · rw [Lifecycle.onEntryFilled_of_pending hstate]
    refine ⟨fun _ _ => h.spent (by rw [hstate]; rfl) (by rw [hstate]; decide), nofun, h.opposite, ?_, nofun⟩
    intro hpending
    have hholding := (h.pending hpending (by rw [hstate]; decide)).1
    rw [hstate] at hholding
    cases hholding
  · unfold Lifecycle.onEntryFilled
    rw [if_pos hstate]
    exact h

theorem Reverses.onEntryRejected {s : ScalpFlip α} (h : s.Reverses) (hcarried : s.Carried .onEntryRejected) :
    Reverses { s with life := s.life.onEntryRejected } := by
  unfold Lifecycle.onEntryRejected
  split
  · rename_i hstate
    have hspent := h.spent (by rw [hstate]; rfl) (by rw [hstate]; decide)
    rw [Lifecycle.transition_of_legal (by rw [hstate]; rfl)]
    refine ⟨nofun, fun _ => ?_, h.opposite, ?_, nofun⟩
    · dsimp only
      rw [hspent]
      exact ⟨nofun, fun hflip => absurd hflip (hcarried hstate)⟩
    · intro hpending
      have hholding := (h.pending hpending (by rw [hstate]; decide)).1
      rw [hstate] at hholding
      cases hholding
  · exact h

theorem Reverses.onExitRejected {s : ScalpFlip α} (h : s.Reverses) :
    Reverses { s with life := s.life.onExitRejected } := by
  unfold Lifecycle.onExitRejected
  split
  · rename_i hstate
    have hrunning : s.life.state ≠ .halted := by
      rw [hstate]
      decide
    rw [Lifecycle.transition_of_legal (by rw [hstate]; rfl)]
    exact ⟨fun _ _ => h.spent (by rw [hstate]; rfl) hrunning, nofun, h.opposite,
      fun hpending _ => ⟨rfl, (h.pending hpending hrunning).2⟩, nofun⟩
  · exact h

theorem Reverses.halt {s : ScalpFlip α} (h : s.Reverses) : Reverses { s with life := s.life.halt } := by
  unfold Lifecycle.halt
  split
  · exact h.halted rfl
  · exact h

/-- After a close nothing is pending. -/
theorem reverses_of_closed {s : ScalpFlip α} (hstate : s.life.state = .cooldown ∨ s.life.state = .halted)
    (hforced : s.forcedSideValid = true ↔ s.closed.map Prod.fst = some .signalFlip)
    (hopposite : ∀ reason side, s.closed = some (reason, side) → s.forcedSideValid = true →
      s.forcedSide = closingSide side) (hpending : s.flipPending = false) : s.Reverses := by
  refine ⟨?_, fun _ => hforced, hopposite, ?_, ?_⟩
  · intro hoff hrunning
    rcases hstate with hs | hs
    · rw [hs] at hoff
      cases hoff
    · exact absurd hs hrunning
  · intro hset
    rw [hpending] at hset
    cases hset
  · intro hs
    rcases hstate with hc | hc
    · rw [hc] at hs
      cases hs
    · rw [hc] at hs
      cases hs

theorem halt_state (l : Lifecycle) : l.halt.state = .halted := by
  unfold Lifecycle.halt
  split
  · rfl
  · rename_i hs
    exact not_not.mp hs

theorem Reverses.onExitFilled {s : ScalpFlip α} (h : s.Reverses) (tsNs : Nat) (netMinor : Int)
    (hcarried : s.Carried (.onExitFilled tsNs netMinor)) : (s.onExitFilled tsNs netMinor).Reverses := by
  unfold ScalpFlip.onExitFilled
  split
  · exact h
  rename_i hrunning
  have hstate : s.life.state = .exitPending := not_not.mp hrunning
  have hspent := h.spent (by rw [hstate]; rfl) (by rw [hstate]; decide)
  have hclosed : ∀ n : Nat,
      (if n ≥ s.config.maxConsecutiveLosses then (s.life.onExitFilled s.config.cooldownNs tsNs).halt
        else s.life.onExitFilled s.config.cooldownNs tsNs).state = .cooldown ∨
      (if n ≥ s.config.maxConsecutiveLosses then (s.life.onExitFilled s.config.cooldownNs tsNs).halt
        else s.life.onExitFilled s.config.cooldownNs tsNs).state = .halted := by
    intro n
    split
    · exact Or.inr (halt_state _)
    · rw [Lifecycle.onExitFilled_of_pending hstate]
      exact Or.inl rfl
  -- the flags are those of a flip exactly where the exit that is filled was emitted as one
  cases hpending : s.flipPending with
  | true =>
    have hreason := hcarried hstate hpending
    have hside := (h.pending hpending (by rw [hstate]; decide)).2
    refine reverses_of_closed (hclosed _) ?_ ?_ rfl
    · exact ⟨fun _ => congrArg some hreason, fun _ => rfl⟩
    · intro reason side hlast _
      cases hlast
      exact hside
  | false =>
    have hreason : s.life.exitReason ≠ .signalFlip := by
      intro hflip
      rw [h.noted hstate hflip] at hpending
      cases hpending
    refine reverses_of_closed (hclosed _) ?_ ?_ rfl
    · exact ⟨fun hforced => absurd (hspent.symm.trans hforced) nofun,
        fun hlast => absurd (Option.some.inj hlast) hreason⟩
    · intro reason side _ hforced
      exact absurd (hspent.symm.trans hforced) nofun

/-! ## A market call -/

theorem emitExit_of_inPosition {l : Lifecycle} (h : l.state = .inPosition) (reason : ExitReason) :
    l.emitExit reason =
      { l with
        state := .exitPending
        exitReason := reason
        exits := l.exits + 1
        path := l.path ++ [.exitPending] } := by
  unfold Lifecycle.emitExit
  rw [Lifecycle.transition_of_legal (by dsimp only; rw [h]; rfl)]

/-- An exit notes whether it is a flip, and one that was refused stays noted. -/
theorem noteExit_flags (s : ScalpFlip α) (bid ask : Int) (reason : ExitReason) :
    (reason = .signalFlip ∧ (s.noteExit bid ask reason).flipPending = true ∧
        (s.noteExit bid ask reason).flipSide = closingSide s.life.position.side) ∨
      (reason ≠ .signalFlip ∧ (s.noteExit bid ask reason).flipPending = s.flipPending ∧
        (s.noteExit bid ask reason).flipSide = s.flipSide) := by
  unfold noteExit
  dsimp only
  split
  · rename_i hflip
    exact Or.inl ⟨hflip, rfl, rfl⟩
  · rename_i hflip
    exact Or.inr ⟨hflip, rfl, rfl⟩

theorem Reverses.noteExit {s : ScalpFlip α} (h : s.Reverses) (hstate : s.life.state = .inPosition)
    (bid ask : Int) (reason : ExitReason) {l : Lifecycle} (hexit : l.state = .exitPending)
    (hposition : l.position = s.life.position) (hreason : l.exitReason = reason) :
    Reverses { s.noteExit bid ask reason with life := l } := by
  obtain ⟨-, -, hclosed, hforced, hside⟩ := noteExit_frame s bid ask reason
  have hrunning : s.life.state ≠ .halted := by
    rw [hstate]
    decide
  refine ⟨fun _ _ => ?_, ?_, ?_, ?_, ?_⟩
  · exact hforced.trans (h.spent (by rw [hstate]; rfl) hrunning)
  · intro hbetween
    rw [show l.state = .exitPending from hexit] at hbetween
    cases hbetween
  · dsimp only
    rw [hclosed, hforced, hside]
    exact h.opposite
  · intro hpending _
    refine ⟨by rw [show l.state = .exitPending from hexit]; rfl, ?_⟩
    dsimp only at hpending ⊢
    rw [hposition]
    rcases noteExit_flags s bid ask reason with ⟨-, -, hnoted⟩ | ⟨-, hkept, hkeptSide⟩
    · exact hnoted
    · rw [hkept] at hpending
      exact hkeptSide.trans (h.pending hpending hrunning).2
  · intro _ hflip
    rcases noteExit_flags s bid ask reason with ⟨-, hset, -⟩ | ⟨hother, -, -⟩
    · exact hset
    · exact absurd (hreason.symm.trans hflip) hother

theorem Reverses.settled {s : ScalpFlip α} (h : s.Reverses) {l : Lifecycle}
    (hsettled : Lifecycle.Settled s.life.clearVeto l) : Reverses { s with life := l } := by
  rcases hsettled with rfl | ⟨hstate | hstate, rfl⟩
  · exact h.same rfl rfl rfl
  · have hbefore : s.life.state = .cooldown := hstate
    rw [Lifecycle.transition_of_legal (by rw [hstate]; rfl)]
    exact h.moved (by rw [hbefore]; rfl) rfl
  · have hbefore : s.life.state = .cold := hstate
    rw [Lifecycle.transition_of_legal (by rw [hstate]; rfl)]
    exact h.moved (by rw [hbefore]; rfl) rfl

/-- The entry spends the flag. -/
theorem Reverses.emitEntry {s : ScalpFlip α} (h : s.Reverses) {l : Lifecycle}
    (hsettled : Lifecycle.Settled s.life.clearVeto l) (hidle : l.state = .idle) :
    Reverses { s with forcedSideValid := false, life := l.emitEntry } := by
  have hnow := h.settled hsettled
  have hstate := Lifecycle.emitEntry_state hidle
  refine ⟨fun _ _ => rfl, ?_, nofun, ?_, ?_⟩
  · intro hbetween
    rw [show l.emitEntry.state = .entryPending from hstate] at hbetween
    cases hbetween
  · intro hpending
    have hnone := hnow.not_pending (by rw [show l.state = .idle from hidle]; rfl)
    exact absurd (hnone.symm.trans hpending) nofun
  · intro hexit
    exact absurd (hstate.symm.trans hexit) nofun

section

variable [LE α] [LT α] [DecidableLE α] [DecidableLT α] [Zero α] [Neg α]

theorem Reverses.onMarket {s : ScalpFlip α} (h : s.Reverses) (symbolId : Nat) (book : OrderBook)
    (signals : L1SignalSet α) (tsNs : Nat) : (s.onMarket symbolId book signals tsNs).2.Reverses := by
  have hturned := turned s symbolId book signals tsNs
  generalize s.onMarket symbolId book signals tsNs = r at hturned ⊢
  generalize s.exitDue _ _ _ _ = reason at hturned
  cases hturned with
  | exit bid ask inPosition active due =>
    rw [emitExit_of_inPosition (l := s.life.clearVeto) inPosition]
    exact h.noteExit inPosition bid ask reason rfl rfl rfl
  | hold bid ask inPosition due =>
    subst due
    have hnoted : Reverses { s with lastNetTicks := s.life.position.move bid ask - s.config.commissionTicks -
        s.config.slippageAllowanceTicks } :=
      ⟨h.spent, h.forced, h.opposite, h.pending, h.noted⟩
    exact hnoted.same rfl rfl rfl
  | refused settled veto => exact (h.settled settled).same rfl rfl rfl
  | entered settled idle flat signals => exact h.emitEntry settled idle

theorem Reverses.step {s : ScalpFlip α} (h : s.Reverses) (c : L1Call α) (hcarried : s.Carried c) :
    (s.step c).Reverses := by
  cases c with
  | onMarket symbolId book signals tsNs => exact h.onMarket symbolId book signals tsNs
  | onEntryFilled side volume priceTicks tsNs => exact h.onEntryFilled side volume priceTicks tsNs
  | onEntryRejected => exact h.onEntryRejected hcarried
  | onExitFilled tsNs netMinor => exact h.onExitFilled tsNs netMinor hcarried
  | onExitRejected => exact h.onExitRejected
  | halt => exact h.halt

theorem reverses_after {config : ScalpFlipConfig α} {calls : List (L1Call α)}
    (h : Runs.Along step Carried { config := config } calls) : (after config calls).Reverses :=
  Runs.run_invariant (fun _ c hs hc => hs.step c hc) (reverses_new config) h

omit [LT α] [DecidableLT α] [Zero α] in
/-- The side of an entry that the flag forces. -/
theorem side_of_forced {s : ScalpFlip α} (h : s.forcedSideValid = true) (intent : Intent)
    (signals : L1SignalSet α) (volume : Int) :
    (Lifecycle.entryIntent intent (s.direction signals) volume).side = s.forcedSide := by
  unfold direction Lifecycle.entryIntent
  rw [if_pos h]
  cases s.forcedSide with
  | buy => rfl
  | sell => rfl

/-- What the next market call enters, if it enters, is forced exactly after a flip, and is then
opposite to the position that the flip closed. -/
structure ForcedAfterFlip (s : ScalpFlip α) (intent : Intent) : Prop where
  forced : s.forcedSideValid = true ↔ s.closed.map Prod.fst = some .signalFlip
  opposite : ∀ side, s.closed = some (.signalFlip, side) → intent.side = closingSide side

theorem Reverses.forcedAfterFlip {s : ScalpFlip α} (h : s.Reverses) (symbolId : Nat) (book : OrderBook)
    (signals : L1SignalSet α) (tsNs : Nat)
    (henter : (s.onMarket symbolId book signals tsNs).1.kind = .enter) :
    s.ForcedAfterFlip (s.onMarket symbolId book signals tsNs).1 := by
  have hturned := turned s symbolId book signals tsNs
  generalize s.onMarket symbolId book signals tsNs = r at hturned henter ⊢
  cases hturned with
  | exit => cases henter
  | hold => cases henter
  | refused => cases henter
  | entered settled idle flat signals =>
    have hbetween : betweenPositions s.life.state = true := by
      rcases settled.of_idle idle with hs | hs | hs
      · rw [show s.life.state = .idle from hs]
        rfl
      · rw [show s.life.state = .cooldown from hs]
        rfl
      · rw [show s.life.state = .cold from hs]
        rfl
    refine ⟨h.forced hbetween, ?_⟩
    intro side hclosed
    have hforced : s.forcedSideValid = true := (h.forced hbetween).mpr (by rw [hclosed]; rfl)
    exact (side_of_forced hforced _ signals _).trans (h.opposite _ side hclosed hforced)

/-- In every run in which flips are carried, an entry is forced exactly after a flip. -/
theorem forced_after_flip (config : ScalpFlipConfig α) (calls : List (L1Call α))
    (h : Runs.Along step Carried { config := config } calls) (symbolId : Nat) (book : OrderBook)
    (signals : L1SignalSet α) (tsNs : Nat)
    (henter : ((after config calls).onMarket symbolId book signals tsNs).1.kind = .enter) :
    (after config calls).ForcedAfterFlip ((after config calls).onMarket symbolId book signals tsNs).1 :=
  (reverses_after h).forcedAfterFlip symbolId book signals tsNs henter

end

/-- What the signal engine returns for fifteen ticks down from there, and then for 27 up. -/
def fallen : L1SignalSet ℚ :=
  ⟨1, double (-1844702078291369) 70, double (-345864346778463) 66, double 4772317461389599 67, 1, 127⟩

def recovered : L1SignalSet ℚ :=
  ⟨1, double 8115593553932705 70, double 4980147816112037 69, double 4271166732017695 66, 1, 127⟩

/-- A long, flipped: the exit is filled at once. -/
def flipped : List (L1Call ℚ) :=
  longEntry ++ [quote 99995 99997 35 fallen, .onExitFilled 35000000000 (-17)]

theorem forced_after_flip_short :
    let s := after flipConfig flipped
    s.ForcedAfterFlip (s.onMarket 0 ⟨[⟨100022, 5⟩], [⟨100024, 5⟩]⟩ recovered 36000000000).1 :=
  forced_after_flip flipConfig flipped (by decide +kernel) 0 _ _ 36000000000 (by decide +kernel)

/-- The same flip, refused, and taken again when the target is reached; and a forced entry, refused. -/
theorem stale_flip_forces :
    let risen : OrderBook := ⟨[⟨100022, 5⟩], [⟨100024, 5⟩]⟩
    -- the engine's answers to a quote that repeats the one before
    let stillUp : L1SignalSet ℚ := ⟨1, double 8115593553932705 70, 0, double 4271166732017695 66, 1, 127⟩
    let stillDown : L1SignalSet ℚ := ⟨1, double (-1844702078291369) 70, 0, double 4772317461389599 67, 1, 127⟩
    let taken := after flipConfig (longEntry ++
      [quote 99995 99997 35 fallen, .onExitRejected, quote 100022 100024 36 recovered,
        .onExitFilled 36000000000 10])
    let refused := after flipConfig (flipped ++ [quote 99995 99997 36 stillDown, .onEntryRejected])
    (flipConfig.valid = true ∧ taken.closed = some (.takeProfit, .buy) ∧ taken.forcedSideValid = true ∧
        (taken.onMarket 0 risen stillUp 37000000000).1.kind = .enter ∧
        (taken.onMarket 0 risen stillUp 37000000000).1.side = .sell) ∧
      (refused.closed = some (.signalFlip, .buy) ∧ refused.forcedSideValid = false ∧
        (refused.onMarket 0 risen recovered 37000000000).1.kind = .enter ∧
        (refused.onMarket 0 risen recovered 37000000000).1.side = .buy) := by
  decide +kernel

end MicrostructureEngine.Strategy.ScalpFlip
