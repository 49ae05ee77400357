import MicrostructureEngine.Exec.PaperBroker

/-!
# What the broker's functions can do

Inversion and frame lemmas, stated once. Everything that happens to one order while quotes
are processed is clerical work (transitions, reservations, marks, journal records, the halt)
or one fill; `processSlot_cases` lists the possibilities and the later modules read their
invariants off it.
-/

namespace MicrostructureEngine.Exec

set_option autoImplicit false

/-- The two sets of books agree but for the marks, the reservation, the number of open orders,
the journal and the halt, which may only latch. -/
structure Clerical (b b' : Books) : Prop where
  config : b'.config = b.config
  positions : b'.positions = b.positions
  specs : b'.specs = b.specs
  market : b'.market = b.market
  ticketSeq : b'.ticketSeq = b.ticketSeq
  lastTicket : b'.lastTicket = b.lastTicket
  fillCount : b'.fillCount = b.fillCount
  fills : b'.fills = b.fills
  balance : b'.account.balanceMinor = b.account.balanceMinor
  realized : b'.account.realizedPnlMinor = b.account.realizedPnlMinor
  commission : b'.account.commissionPaidMinor = b.account.commissionPaidMinor
  halted : b.halted = true → b'.halted = true

namespace Clerical

theorem refl (b : Books) : Clerical b b :=
  ⟨rfl, rfl, rfl, rfl, rfl, rfl, rfl, rfl, rfl, rfl, rfl, id⟩

theorem trans {b b' b'' : Books} (h : Clerical b b') (h' : Clerical b' b'') : Clerical b b'' where
  config := h'.config.trans h.config
  positions := h'.positions.trans h.positions
  specs := h'.specs.trans h.specs
  market := h'.market.trans h.market
  ticketSeq := h'.ticketSeq.trans h.ticketSeq
  lastTicket := h'.lastTicket.trans h.lastTicket
  fillCount := h'.fillCount.trans h.fillCount
  fills := h'.fills.trans h.fills
  balance := h'.balance.trans h.balance
  realized := h'.realized.trans h.realized
  commission := h'.commission.trans h.commission
  halted := fun hb => h'.halted (h.halted hb)

end Clerical

namespace Books

variable (b : Books) (x : OrderSlot) (nowNs : Nat)

/-! ## Clerical work -/

theorem clerical_halt (reason : RejectReason) : Clerical b (b.halt reason) := by
  unfold halt
  split
  · exact Clerical.refl b
  · exact ⟨rfl, rfl, rfl, rfl, rfl, rfl, rfl, rfl, rfl, rfl, rfl, fun _ => rfl⟩

@[simp] theorem halt_account (reason : RejectReason) : (b.halt reason).account = b.account := by
  unfold halt
  split <;> rfl

@[simp] theorem halt_journal (reason : RejectReason) : (b.halt reason).journal = b.journal := by
  unfold halt
  split <;> rfl

@[simp] theorem halt_reserved (reason : RejectReason) :
    (b.halt reason).reservedMarginMinor = b.reservedMarginMinor := by
  unfold halt
  split <;> rfl

theorem clerical_recomputeAccount : Clerical b (b.recomputeAccount nowNs) := by
  unfold recomputeAccount
  dsimp only
  split
  · refine Clerical.trans ?_ (clerical_halt _ _)
    exact ⟨rfl, rfl, rfl, rfl, rfl, rfl, rfl, rfl, rfl, rfl, rfl, id⟩
  · exact ⟨rfl, rfl, rfl, rfl, rfl, rfl, rfl, rfl, rfl, rfl, rfl, id⟩

/-- A recomputation leaves the marked figures, whether it stops the account out or not. -/
theorem recomputeAccount_account :
    (b.recomputeAccount nowNs).account =
      { b.marked with stoppedOut := (b.recomputeAccount nowNs).account.stoppedOut } := by
  unfold recomputeAccount
  dsimp only
  split
  · rw [halt_account]
  · rfl

@[simp] theorem recomputeAccount_reserved :
    (b.recomputeAccount nowNs).reservedMarginMinor = b.reservedMarginMinor := by
  unfold recomputeAccount
  dsimp only
  split
  · rw [halt_reserved]
  · rfl

@[simp] theorem recomputeAccount_openOrders :
    (b.recomputeAccount nowNs).account.openOrders = b.account.openOrders := by
  rw [recomputeAccount_account]
  rfl

theorem clerical_refreshAccount : Clerical b (b.refreshAccount nowNs) :=
  (clerical_recomputeAccount b nowNs).trans
    ⟨rfl, rfl, rfl, rfl, rfl, rfl, rfl, rfl, rfl, rfl, rfl, id⟩

@[simp] theorem refreshAccount_account :
    (b.refreshAccount nowNs).account = (b.recomputeAccount nowNs).account := rfl

@[simp] theorem refreshAccount_reserved :
    (b.refreshAccount nowNs).reservedMarginMinor = b.reservedMarginMinor :=
  recomputeAccount_reserved b nowNs

theorem clerical_transition (next : OrderState) : Clerical b (b.transition x next nowNs).1 :=
  ⟨rfl, rfl, rfl, rfl, rfl, rfl, rfl, rfl, rfl, rfl, rfl, id⟩

@[simp] theorem transition_account (next : OrderState) :
    (b.transition x next nowNs).1.account = b.account := rfl

@[simp] theorem transition_reserved (next : OrderState) :
    (b.transition x next nowNs).1.reservedMarginMinor = b.reservedMarginMinor := rfl

theorem clerical_finish (terminal : OrderState) : Clerical b (b.finish x terminal nowNs).1 := by
  unfold finish
  dsimp only
  refine Clerical.trans ?_ (clerical_refreshAccount _ nowNs)
  exact ⟨rfl, rfl, rfl, rfl, rfl, rfl, rfl, rfl, rfl, rfl, rfl, id⟩

/-- The slot of a finished order. -/
def finished (x : OrderSlot) (terminal : OrderState) (nowNs : Nat) : OrderSlot :=
  { x with
    order := { x.order with state := terminal, tsTerminalNs := nowNs }
    path := x.path ++ [terminal] }

@[simp] theorem finish_slot (terminal : OrderState) :
    (b.finish x terminal nowNs).2 = finished x terminal nowNs := rfl

@[simp] theorem finish_openOrders (terminal : OrderState) :
    (b.finish x terminal nowNs).1.account.openOrders = b.account.openOrders - 1 := by
  unfold finish
  rw [refreshAccount_account, recomputeAccount_openOrders]
  rfl

/-- The reservation after a finished order: what is released is computed from the finished slot,
whose price and volume are still those of the order. -/
@[simp] theorem finish_reserved (terminal : OrderState) :
    (b.finish x terminal nowNs).1.reservedMarginMinor =
      max (b.reservedMarginMinor - b.releasedMargin x.order) 0 := by
  have hrel : (b.transition x terminal nowNs).1.releasedMargin
      (finished x terminal nowNs).order = b.releasedMargin x.order := rfl
  have heq : (b.finish x terminal nowNs).1.reservedMarginMinor =
      if b.reservedMarginMinor > b.releasedMargin x.order then
        b.reservedMarginMinor - b.releasedMargin x.order else 0 := by
    unfold finish
    rw [refreshAccount_reserved, ← hrel]
    rfl
  rw [heq]
  split <;> omega

theorem clerical_rejectSent : Clerical b (b.rejectSent x nowNs).1 := by
  unfold rejectSent
  refine Clerical.trans ?_ (clerical_finish _ x nowNs .rejected)
  exact ⟨rfl, rfl, rfl, rfl, rfl, rfl, rfl, rfl, rfl, rfl, rfl, id⟩

@[simp] theorem rejectSent_slot : (b.rejectSent x nowNs).2 = finished x .rejected nowNs := rfl

@[simp] theorem rejectSent_openOrders :
    (b.rejectSent x nowNs).1.account.openOrders = b.account.openOrders - 1 := by
  unfold rejectSent
  rw [finish_openOrders]

@[simp] theorem rejectSent_reserved :
    (b.rejectSent x nowNs).1.reservedMarginMinor =
      max (b.reservedMarginMinor - b.releasedMargin x.order) 0 := by
  unfold rejectSent
  rw [finish_reserved]
  rfl

theorem clerical_acknowledge : Clerical b (b.acknowledge x nowNs).1 :=
  ⟨rfl, rfl, rfl, rfl, rfl, rfl, rfl, rfl, rfl, rfl, rfl, id⟩

/-- The slot after a transition that is not terminal. -/
def movedTo (x : OrderSlot) (next : OrderState) : OrderSlot :=
  { x with order := { x.order with state := next }, path := x.path ++ [next] }

@[simp] theorem transition_slot (next : OrderState) :
    (b.transition x next nowNs).2 = movedTo x next := rfl

@[simp] theorem acknowledge_slot : (b.acknowledge x nowNs).2 = movedTo x .acknowledged := rfl

@[simp] theorem acknowledge_account : (b.acknowledge x nowNs).1.account = b.account := rfl

@[simp] theorem acknowledge_reserved :
    (b.acknowledge x nowNs).1.reservedMarginMinor = b.reservedMarginMinor := rfl

/-! ## Positions -/

end Books

/-- What booking a fill to a position leaves alone: PnL moves the balance, positions, tickets and
journal change, and a fill that cannot be booked halts. -/
structure Traded (b b' : Books) : Prop where
  config : b'.config = b.config
  specs : b'.specs = b.specs
  market : b'.market = b.market
  fillCount : b'.fillCount = b.fillCount
  fills : b'.fills = b.fills
  reserved : b'.reservedMarginMinor = b.reservedMarginMinor
  openOrders : b'.account.openOrders = b.account.openOrders
  commission : b'.account.commissionPaidMinor = b.account.commissionPaidMinor
  balance : b'.account.balanceMinor - b'.account.realizedPnlMinor =
    b.account.balanceMinor - b.account.realizedPnlMinor
  halted : b.halted = true → b'.halted = true

namespace Traded

theorem refl (b : Books) : Traded b b := ⟨rfl, rfl, rfl, rfl, rfl, rfl, rfl, rfl, rfl, id⟩

theorem trans {b b' b'' : Books} (h : Traded b b') (h' : Traded b' b'') : Traded b b'' where
  config := h'.config.trans h.config
  specs := h'.specs.trans h.specs
  market := h'.market.trans h.market
  fillCount := h'.fillCount.trans h.fillCount
  fills := h'.fills.trans h.fills
  reserved := h'.reserved.trans h.reserved
  openOrders := h'.openOrders.trans h.openOrders
  commission := h'.commission.trans h.commission
  balance := h'.balance.trans h.balance
  halted := fun hb => h'.halted (h.halted hb)

end Traded

namespace Books

variable (b : Books) (x : OrderSlot) (priceTicks volume : Int) (nowNs : Nat)

theorem traded_halt (reason : RejectReason) : Traded b (b.halt reason) := by
  unfold halt
  split
  · exact Traded.refl b
  · exact ⟨rfl, rfl, rfl, rfl, rfl, rfl, rfl, rfl, rfl, fun _ => rfl⟩

theorem traded_journalPosition (p : Position) : Traded b (b.journalPosition p nowNs) :=
  ⟨rfl, rfl, rfl, rfl, rfl, rfl, rfl, rfl, rfl, id⟩

theorem traded_write (realized : Int) (positions : PositionBook) :
    Traded b { b.realize realized with positions := positions } := by
  refine ⟨rfl, rfl, rfl, rfl, rfl, rfl, rfl, rfl, ?_, id⟩
  unfold realize
  dsimp only
  omega

theorem traded_openFor (o : Order) : Traded b (b.openFor o priceTicks volume nowNs).1 := by
  unfold openFor
  dsimp only
  split
  · refine Traded.trans ?_ (traded_halt _ _)
    exact ⟨rfl, rfl, rfl, rfl, rfl, rfl, rfl, rfl, rfl, id⟩
  · exact ⟨rfl, rfl, rfl, rfl, rfl, rfl, rfl, rfl, rfl, id⟩

theorem traded_reduceTicket : Traded b (b.reduceTicket x priceTicks volume nowNs) := by
  unfold reduceTicket
  dsimp only
  split
  · exact traded_halt b _
  · exact (traded_write b _ _).trans (traded_journalPosition _ nowNs _)

theorem traded_hedgeTicket : Traded b (b.hedgeTicket x priceTicks volume nowNs).1 := by
  have hopen := traded_openFor b priceTicks volume nowNs x.order
  unfold hedgeTicket
  dsimp only
  split
  · split
    · rename_i heq
      rw [heq] at hopen
      exact hopen
    · rename_i heq
      rw [heq] at hopen
      exact hopen.trans (traded_journalPosition _ nowNs _)
  · exact ⟨rfl, rfl, rfl, rfl, rfl, rfl, rfl, rfl, rfl, id⟩

theorem traded_netTicket : Traded b (b.netTicket x priceTicks volume nowNs) := by
  unfold netTicket
  dsimp only
  split
  · have hopen := traded_openFor b priceTicks volume nowNs x.order
    split
    · rename_i heq
      rw [heq] at hopen
      exact hopen
    · rename_i heq
      rw [heq] at hopen
      exact hopen.trans (traded_journalPosition _ nowNs _)
  · split
    · exact ⟨rfl, rfl, rfl, rfl, rfl, rfl, rfl, rfl, rfl, id⟩
    · rename_i slot p _ _
      generalize closeAgainst (b.specs x.order.symbolId) p priceTicks volume nowNs = c
      have hclose := traded_write b c.2.1 (b.positions.write slot c.2.2)
      split
      · have hopen := hclose.trans (traded_openFor _ priceTicks (volume - c.1) nowNs x.order)
        split
        · rename_i heq
          rw [heq] at hopen
          exact hopen
        · rename_i heq
          rw [heq] at hopen
          exact hopen.trans (traded_journalPosition _ nowNs _)
      · exact hclose.trans (traded_journalPosition _ nowNs _)

theorem traded_applyToPosition : Traded b (b.applyToPosition x priceTicks volume nowNs).1 := by
  unfold applyToPosition
  split
  · exact traded_reduceTicket b x priceTicks volume nowNs
  · split
    · exact traded_hedgeTicket b x priceTicks volume nowNs
    · exact traded_netTicket b x priceTicks volume nowNs

/-- Booking a fill changes at most the ticket of the order's slot. -/
theorem applyToPosition_slot :
    (b.applyToPosition x priceTicks volume nowNs).2 =
      { x with ticket := (b.applyToPosition x priceTicks volume nowNs).2.ticket } := by
  unfold applyToPosition
  split
  · rfl
  · split
    · unfold hedgeTicket
      dsimp only
      split
      · split <;> rfl
      · rfl
    · rfl

/-! ## Fills -/

/-- What `attempt_fill` has checked when it books a fill of `volume` at `price`. -/
structure Fillable (b : Books) (o : Order) (price volume : Int) : Prop where
  valid : (b.market o.symbolId).valid = true
  state : o.state = .acknowledged ∨ o.state = .partiallyFilled
  price_pos : 0 < price
  volume_pos : 0 < volume
  volume_le : volume ≤ o.remaining
  terms : ∃ available, b.fillTerms o = some (price, available) ∧ volume ≤ available
  touch : o.type = .market → (b.market o.symbolId).betterThanTouch o.side price = false

theorem attemptFill_cases :
    b.attemptFill x nowNs = (b, x) ∨ (∃ reason, b.attemptFill x nowNs = (b.halt reason, x)) ∨
    ∃ price volume, Fillable b x.order price volume ∧
      b.attemptFill x nowNs = b.applyFill x price volume nowNs := by
  unfold attemptFill
  dsimp only
  split
  · exact Or.inl rfl
  rename_i hopen
  split
  · exact Or.inl rfl
  rename_i hstate
  split
  · exact Or.inl rfl
  rename_i price available hterms
  split
  · exact Or.inr (Or.inl ⟨_, rfl⟩)
  rename_i hprice
  generalize hv : (if available < x.order.remaining then available else x.order.remaining) = volume
  split
  · exact Or.inl rfl
  rename_i hpos
  split
  · exact Or.inr (Or.inl ⟨_, rfl⟩)
  rename_i hover
  split
  · exact Or.inr (Or.inl ⟨_, rfl⟩)
  rename_i htouch
  split
  · exact Or.inr (Or.inl ⟨_, rfl⟩)
  refine Or.inr (Or.inr ⟨price, volume, ⟨?_, ?_, by omega, by omega, by omega, ?_, ?_⟩, rfl⟩)
  · simp only [Bool.not_eq_true', not_or, Bool.not_eq_false] at hopen
    exact hopen.1
  · by_contra hn
    exact hstate (not_or.mp hn)
  · refine ⟨available, hterms, ?_⟩
    split at hv <;> omega
  · intro hm
    exact Bool.eq_false_iff.mpr fun hbetter => htouch ⟨hm, hbetter⟩

/-- The slot that a fill hands to the position book. -/
def filledSlot (b : Books) (x : OrderSlot) (priceTicks volume : Int) : OrderSlot :=
  let commission := CommissionModel.chargeMinor (b.specs x.order.symbolId) volume
  { x with order := filledOrder x.order priceTicks volume commission }

/-- The fill that `bookFill` records. -/
def fillEvent (b : Books) (x : OrderSlot) (priceTicks volume : Int) (nowNs : Nat) : FillEvent :=
  { slot := x, market := b.market x.order.symbolId, priceTicks := priceTicks, volume := volume,
    commissionMinor := CommissionModel.chargeMinor (b.specs x.order.symbolId) volume, tsNs := nowNs,
    ticketSeq := b.ticketSeq, before := b.positions,
    after := (b.bookFill x priceTicks volume nowNs).1.positions }

/-- The books once a fill is booked. -/
structure Booked (b b' : Books) (f : FillEvent) : Prop where
  config : b'.config = b.config
  specs : b'.specs = b.specs
  market : b'.market = b.market
  fillCount : b'.fillCount = b.fillCount + 1
  fills : b'.fills = b.fills ++ [f]
  positions : b'.positions = f.after
  commission : b'.account.commissionPaidMinor = b.account.commissionPaidMinor + f.commissionMinor
  balance : b'.account.balanceMinor - b'.account.realizedPnlMinor =
    b.account.balanceMinor - b.account.realizedPnlMinor - f.commissionMinor
  halted : b.halted = true → b'.halted = true

theorem Booked.trans_clerical {b b' b'' : Books} {f : FillEvent} (h : Booked b b' f)
    (h' : Clerical b' b'') : Booked b b'' f where
  config := h'.config.trans h.config
  specs := h'.specs.trans h.specs
  market := h'.market.trans h.market
  fillCount := h'.fillCount.trans h.fillCount
  fills := h'.fills.trans h.fills
  positions := h'.positions.trans h.positions
  commission := h'.commission.trans h.commission
  balance := by rw [h'.balance, h'.realized, h.balance]
  halted := fun hb => h'.halted (h.halted hb)

theorem booked_bookFill :
    Booked b (b.bookFill x priceTicks volume nowNs).1 (b.fillEvent x priceTicks volume nowNs) := by
  have ht := traded_applyToPosition
    (b.charge (CommissionModel.chargeMinor (b.specs x.order.symbolId) volume))
    (b.filledSlot x priceTicks volume) priceTicks volume nowNs
  refine ⟨ht.config, ht.specs, ht.market, ?_, ?_, rfl, ht.commission, ht.balance.trans ?_, ht.halted⟩
  · exact congrArg (· + 1) ht.fillCount
  · exact congrArg (· ++ [_]) ht.fills
  · unfold charge fillEvent
    dsimp only
    omega

/-- The slot after the fill is booked, before the order moves on. -/
theorem bookFill_slot :
    (b.bookFill x priceTicks volume nowNs).2 =
      { b.filledSlot x priceTicks volume with
        ticket := (b.bookFill x priceTicks volume nowNs).2.ticket } :=
  applyToPosition_slot _ (b.filledSlot x priceTicks volume) priceTicks volume nowNs

theorem bookFill_openOrders :
    (b.bookFill x priceTicks volume nowNs).1.account.openOrders = b.account.openOrders :=
  (traded_applyToPosition _ _ priceTicks volume nowNs).openOrders

theorem bookFill_reserved :
    (b.bookFill x priceTicks volume nowNs).1.reservedMarginMinor = b.reservedMarginMinor :=
  (traded_applyToPosition _ _ priceTicks volume nowNs).reserved

/-- What becomes of a filled order: it ends, becomes partially filled, or stays so. -/
theorem applyFill_cases {p : Books × OrderSlot} (hp : p = b.bookFill x priceTicks volume nowNs) :
    (p.2.order.remaining ≤ 0 ∧ b.applyFill x priceTicks volume nowNs =
      ((p.1.finish p.2 .filled nowNs).1.refreshAccount nowNs, finished p.2 .filled nowNs)) ∨
    (0 < p.2.order.remaining ∧ p.2.order.state ≠ .partiallyFilled ∧
      b.applyFill x priceTicks volume nowNs =
        ((p.1.transition p.2 .partiallyFilled nowNs).1.refreshAccount nowNs,
          movedTo p.2 .partiallyFilled)) ∨
    (0 < p.2.order.remaining ∧ p.2.order.state = .partiallyFilled ∧
      b.applyFill x priceTicks volume nowNs = (p.1.refreshAccount nowNs, p.2)) := by
  unfold applyFill
  rw [← hp]
  dsimp only
  split
  · rename_i hfinal
    exact Or.inl ⟨hfinal, rfl⟩
  · rename_i hfinal
    split
    · rename_i hstate
      exact Or.inr (Or.inl ⟨by omega, hstate, rfl⟩)
    · rename_i hstate
      exact Or.inr (Or.inr ⟨by omega, not_not.mp hstate, rfl⟩)

theorem booked_applyFill :
    Booked b (b.applyFill x priceTicks volume nowNs).1 (b.fillEvent x priceTicks volume nowNs) := by
  have hbook := booked_bookFill b x priceTicks volume nowNs
  rcases applyFill_cases b x priceTicks volume nowNs rfl with ⟨-, heq⟩ | ⟨-, -, heq⟩ | ⟨-, -, heq⟩
  · rw [heq]
    exact hbook.trans_clerical ((clerical_finish _ _ _ _).trans (clerical_refreshAccount _ _))
  · rw [heq]
    exact hbook.trans_clerical ((clerical_transition _ _ _ _).trans (clerical_refreshAccount _ _))
  · rw [heq]
    exact hbook.trans_clerical (clerical_refreshAccount _ _)

/-! ## Processing -/

/-- How an order stands when its fill is attempted: as it was, or just acknowledged. -/
inductive Ready (b : Books) (x : OrderSlot) (nowNs : Nat) : Books × OrderSlot → Prop
  | standing (live : x.order.state.isTerminal = false) (sent : x.order.state ≠ .sent)
      (due : expiryDue x.order nowNs = false) (effective : x.order.tsEffectiveNs ≤ nowNs) :
      Ready b x nowNs (b, x)
  | acknowledged (sent : x.order.state = .sent) (draw : b.rejects x.order = false)
      (due : expiryDue x.order nowNs = false) (effective : x.order.tsEffectiveNs ≤ nowNs) :
      Ready b x nowNs (b.acknowledge x nowNs)

/-- Everything one turn of the loop in `process` can do. -/
inductive Processed (b : Books) (x : OrderSlot) (nowNs : Nat) : Books × OrderSlot → Prop
  | idle : Processed b x nowNs (b, x)
  | expired (live : x.order.state.isTerminal = false) (due : expiryDue x.order nowNs = true) :
      Processed b x nowNs (b.finish x .expired nowNs)
  | rejected (sent : x.order.state = .sent) (draw : b.rejects x.order = true) :
      Processed b x nowNs (b.rejectSent x nowNs)
  | ready {c : Books × OrderSlot} (h : Ready b x nowNs c) : Processed b x nowNs c
  | halted {c : Books × OrderSlot} (h : Ready b x nowNs c) (reason : RejectReason) :
      Processed b x nowNs (c.1.halt reason, c.2)
  | filled {c : Books × OrderSlot} (h : Ready b x nowNs c) (price volume : Int)
      (fill : Fillable c.1 c.2.order price volume) :
      Processed b x nowNs (c.1.applyFill c.2 price volume nowNs)

theorem processed_attemptFill {b : Books} {x : OrderSlot} {nowNs : Nat} {c : Books × OrderSlot}
    (h : Ready b x nowNs c) : Processed b x nowNs (c.1.attemptFill c.2 nowNs) := by
  rcases attemptFill_cases c.1 c.2 nowNs with heq | ⟨reason, heq⟩ | ⟨price, volume, hfill, heq⟩
  · rw [heq]
    exact Processed.ready h
  · rw [heq]
    exact Processed.halted h reason
  · rw [heq]
    exact Processed.filled h price volume hfill

theorem processed (b : Books) (x : OrderSlot) (nowNs : Nat) :
    Processed b x nowNs (b.processSlot x nowNs) := by
  unfold processSlot
  split
  · exact Processed.idle
  rename_i hlive
  have hlive := Bool.eq_false_iff.mpr hlive
  split
  · rename_i hdue
    exact Processed.expired hlive hdue
  rename_i hdue
  have hdue := Bool.eq_false_iff.mpr hdue
  split
  · exact Processed.idle
  rename_i heffective
  have heffective := Nat.le_of_not_lt heffective
  split
  · rename_i hsent
    split
    · rename_i hdraw
      exact Processed.rejected hsent hdraw
    · rename_i hdraw
      exact processed_attemptFill (Ready.acknowledged hsent (Bool.eq_false_iff.mpr hdraw) hdue heffective)
  · rename_i hsent
    exact processed_attemptFill (Ready.standing hlive hsent hdue heffective)

theorem Ready.clerical {b : Books} {x : OrderSlot} {nowNs : Nat} {c : Books × OrderSlot}
    (h : Ready b x nowNs c) : Clerical b c.1 := by
  cases h with
  | standing => exact Clerical.refl b
  | acknowledged => exact clerical_acknowledge b x nowNs

/-- The books after one turn of the loop: clerical work, or one fill on top of it. -/
theorem processSlot_books :
    Clerical b (b.processSlot x nowNs).1 ∨
    ∃ c price volume, Ready b x nowNs c ∧ Fillable c.1 c.2.order price volume ∧
      b.processSlot x nowNs = c.1.applyFill c.2 price volume nowNs := by
  have hp := processed b x nowNs
  generalize b.processSlot x nowNs = r at hp ⊢
  cases hp with
  | idle => exact Or.inl (Clerical.refl b)
  | expired => exact Or.inl (clerical_finish b x nowNs .expired)
  | rejected => exact Or.inl (clerical_rejectSent b x nowNs)
  | ready h => exact Or.inl h.clerical
  | halted h reason => exact Or.inl (h.clerical.trans (clerical_halt _ reason))
  | filled h price volume fill => exact Or.inr ⟨_, price, volume, h, fill, rfl⟩

/-- The invariant rule for the loop: `I` speaks about the books and all slots, processed or
not. -/
theorem processSlots_invariant {I : Books → List OrderSlot → Prop} {nowNs : Nat}
    (hstep : ∀ b l x r, I b (l ++ x :: r) →
      I (b.processSlot x nowNs).1 (l ++ (b.processSlot x nowNs).2 :: r))
    {b : Books} {l xs : List OrderSlot} (h : I b (l ++ xs)) :
    I (b.processSlots nowNs xs).1 (l ++ (b.processSlots nowNs xs).2) := by
  induction xs generalizing b l with
  | nil => exact h
  | cons x xs ih =>
    have hnext := hstep b l x xs h
    have hrest := ih (b := (b.processSlot x nowNs).1) (l := l ++ [(b.processSlot x nowNs).2])
      (by rwa [List.append_assoc])
    rwa [List.append_assoc] at hrest

end Books

namespace PaperBroker

open Books

/-! ## Public operations -/

/-- The market update of a quote, before the orders are processed. -/
def quoted (b : PaperBroker) (symbolId : Nat) (bid ask bidSize askSize : Int) (tsNs : Nat) :
    PaperBroker :=
  { b with
    slots := creditQueue b.books symbolId (b.books.market symbolId) bid ask bidSize askSize b.slots
    books := { b.books with
      market := Function.update b.books.market symbolId
        { bidTicks := bid, askTicks := ask, bidSize := bidSize, askSize := askSize, tsNs := tsNs,
          valid := decide (bid > 0) && decide (ask > 0) && decide (ask > bid) } } }

theorem onQuote_eq {b : PaperBroker} {symbolId : Nat} (h : symbolId < maxSymbols)
    (bid ask bidSize askSize : Int) (tsNs : Nat) :
    b.onQuote symbolId bid ask bidSize askSize tsNs =
      let p := (b.quoted symbolId bid ask bidSize askSize tsNs).process tsNs
      { p with books := p.books.recomputeAccount tsNs } := by
  unfold onQuote quoted
  rw [if_neg (Nat.not_le.mpr h)]

theorem onQuote_of_unknown {b : PaperBroker} {symbolId : Nat} (h : ¬ symbolId < maxSymbols)
    (bid ask bidSize askSize : Int) (tsNs : Nat) :
    b.onQuote symbolId bid ask bidSize askSize tsNs = b := by
  unfold onQuote
  rw [if_pos (Nat.not_lt.mp h)]

/-- Crediting a queue moves `queue_ahead` only. -/
theorem creditOrder_eq (b : Books) (symbolId : Nat) (previous : MarketState)
    (bid ask bidSize askSize : Int) (o : Order) :
    creditOrder b symbolId previous bid ask bidSize askSize o =
      { o with
        queueAhead := (creditOrder b symbolId previous bid ask bidSize askSize o).queueAhead } := by
  unfold creditOrder
  dsimp only
  split
  · rfl
  split
  · rfl
  split
  · rfl
  split
  · rfl
  · rfl

/-- Slots whose orders differ in `queue_ahead` only. -/
def SameButQueue (x y : OrderSlot) : Prop :=
  y = { x with order := { x.order with queueAhead := y.order.queueAhead } }

/-- The slots of a quote, one by one, differ from the slots before in the queue only. -/
theorem creditQueue_forall₂ (b : Books) (symbolId : Nat) (previous : MarketState)
    (bid ask bidSize askSize : Int) (slots : List OrderSlot) :
    List.Forall₂ SameButQueue slots
      (creditQueue b symbolId previous bid ask bidSize askSize slots) := by
  unfold creditQueue
  split
  · exact List.forall₂_same.mpr fun x _ => rfl
  · rw [List.forall₂_map_right_iff]
    apply List.forall₂_same.mpr
    intro x _
    unfold SameButQueue
    dsimp only
    rw [← creditOrder_eq]

theorem submit_cases (b : PaperBroker) (q : OrderRequest) (nowNs : Nat) :
    (∃ reason, b.entryRefusal q nowNs = some reason ∧
      b.submit q nowNs = b.reject q nowNs reason) ∨
    (b.entryRefusal q nowNs = none ∧
      SlotTable.allocate reusable maxLiveOrders {} b.slots = none ∧
      b.submit q nowNs = b.reject q nowNs .corruptedState) ∨
    (∃ r reason, b.entryRefusal q nowNs = none ∧
      SlotTable.allocate reusable maxLiveOrders {} b.slots = some r ∧
      marketRefusal b.books q nowNs = some reason ∧
      b.submit q nowNs = { b with slots := r.2 }.reject q nowNs reason) ∨
    (∃ r, b.entryRefusal q nowNs = none ∧
      SlotTable.allocate reusable maxLiveOrders {} b.slots = some r ∧
      marketRefusal b.books q nowNs = none ∧
      b.submit q nowNs =
        (⟨true, b.requestRef q, .none⟩, { b with slots := r.2 }.accept r.1 q nowNs)) := by
  unfold submit
  split
  · rename_i reason hentry
    exact Or.inl ⟨reason, hentry, rfl⟩
  rename_i hentry
  split
  · rename_i hfull
    exact Or.inr (Or.inl ⟨hentry, hfull, rfl⟩)
  rename_i slot slots halloc
  dsimp only
  split
  · rename_i reason hmarket
    exact Or.inr (Or.inr (Or.inl ⟨(slot, slots), reason, hentry, halloc, hmarket, rfl⟩))
  · rename_i hmarket
    exact Or.inr (Or.inr (Or.inr ⟨(slot, slots), hentry, halloc, hmarket, rfl⟩))

/-- The books and the slot after a cancel of the order in `x`. -/
def cancelled (b : Books) (ref : BrokerOrderRef) (x : OrderSlot) (nowNs : Nat) : Books × OrderSlot :=
  let t := b.transition x .cancelPending nowNs
  finish { t.1 with
      journal := t.1.journal.emit .cancel nowNs t.1.config.runId ref.logicalOrderId x.order.symbolId
        0 t.2.order.remaining 0 0 0 }
    t.2 .cancelled nowNs

theorem findLive_eq_some {b : PaperBroker} {ref : BrokerOrderRef} {s : Nat × OrderSlot}
    (h : b.findLive ref = some s) :
    ∃ l r, b.slots = l ++ s.2 :: r ∧ s.1 = l.length ∧ s.2.order.ref = ref ∧
      s.2.order.state.isTerminal = false := by
  obtain ⟨l, r, hsplit, hslot, hx, -⟩ := SlotTable.locate_eq_some h
  have hx' : s.2.order.ref = ref ∧ s.2.order.state.isTerminal = false := by simpa using hx
  exact ⟨l, r, hsplit, hslot, hx'.1, hx'.2⟩

theorem set_split (l r : List OrderSlot) (x y : OrderSlot) :
    (l ++ x :: r).set l.length y = l ++ y :: r := by
  rw [List.set_append_right _ _ (Nat.le_refl _), Nat.sub_self, List.set_cons_zero]

/-- The live order that an operation on a reference acts on, in its place among the slots. -/
structure Found (b : PaperBroker) (ref : BrokerOrderRef) (l : List OrderSlot) (x : OrderSlot)
    (r : List OrderSlot) : Prop where
  split : b.slots = l ++ x :: r
  find : b.findLive ref = some (l.length, x)
  ref : x.order.ref = ref
  live : x.order.state.isTerminal = false
  known : x.order.state ≠ .unknown

/-- A cancel does nothing, or ends the first live order with that reference. -/
theorem cancel_cases (b : PaperBroker) (ref : BrokerOrderRef) (nowNs : Nat) :
    ((b.cancel ref nowNs).2 = b ∧ ∀ l x r, ¬ b.Found ref l x r) ∨
    ∃ l x r, b.Found ref l x r ∧
      (b.cancel ref nowNs).2 =
        { b with
          books := (cancelled b.books ref x nowNs).1
          slots := l ++ (cancelled b.books ref x nowNs).2 :: r } := by
  unfold cancel
  split
  · rename_i hnone
    refine Or.inl ⟨rfl, fun l x r hf => ?_⟩
    rw [hf.find] at hnone
    cases hnone
  rename_i slot x hfind
  obtain ⟨l, r, hsplit, rfl, href, hlive⟩ := findLive_eq_some hfind
  split
  · rename_i hunknown
    refine Or.inl ⟨rfl, fun l' x' r' hf => hf.known ?_⟩
    have heq := Option.some.inj (hf.find.symm.trans hfind)
    rw [(Prod.mk.inj heq).2]
    exact hunknown
  · rename_i hunknown
    refine Or.inr ⟨l, x, r, ⟨hsplit, hfind, href, hlive, hunknown⟩, ?_⟩
    dsimp only
    rw [hsplit, set_split]
    rfl

/-- The checks a replace makes on the order it found. -/
structure Amendable (b : Books) (o : Order) (newPriceTicks newVolume : Int) : Prop where
  above : o.filledVolume < newVolume
  volume : (b.specs o.symbolId).volumeValid newVolume = true
  price : o.type = .limit →
    0 < newPriceTicks ∧ (b.specs o.symbolId).priceAligned newPriceTicks = true

/-- The books and the slot after a replace of the order in `x`. -/
def replaced (b : Books) (ref : BrokerOrderRef) (x : OrderSlot) (newPriceTicks newVolume : Int)
    (nowNs : Nat) : Books × OrderSlot :=
  let y := amended b x.order newPriceTicks newVolume
  ({ b with
      journal := b.journal.emit .replace nowNs b.config.runId ref.logicalOrderId x.order.symbolId 0
        x.order.limitPriceTicks newPriceTicks x.order.requestedVolume newVolume },
    { x with order := y, booked := amendedMargin b y })

/-- A replace does nothing, or amends the first live order with that reference. -/
theorem replace_cases (b : PaperBroker) (ref : BrokerOrderRef) (newPriceTicks newVolume : Int)
    (nowNs : Nat) :
    ((b.replace ref newPriceTicks newVolume nowNs).2 = b ∧
      ∀ l x r, b.Found ref l x r → ¬ Amendable b.books x.order newPriceTicks newVolume) ∨
    ∃ l x r, b.Found ref l x r ∧ Amendable b.books x.order newPriceTicks newVolume ∧
      (b.replace ref newPriceTicks newVolume nowNs).2 =
        { b with
          books := (replaced b.books ref x newPriceTicks newVolume nowNs).1
          slots := l ++ (replaced b.books ref x newPriceTicks newVolume nowNs).2 :: r } := by
  unfold replace
  split
  · rename_i hnone
    refine Or.inl ⟨rfl, fun l x r hf => ?_⟩
    rw [hf.find] at hnone
    cases hnone
  rename_i slot x hfind
  obtain ⟨l, r, hsplit, rfl, href, hlive⟩ := findLive_eq_some hfind
  have hsame : ∀ l' x' r', b.Found ref l' x' r' → x' = x := fun l' x' r' hf =>
    (Prod.mk.inj (Option.some.inj (hf.find.symm.trans hfind))).2
  dsimp only
  split
  · rename_i hunknown
    exact Or.inl ⟨rfl, fun l' x' r' hf => absurd (hsame l' x' r' hf ▸ hunknown) hf.known⟩
  rename_i hunknown
  split
  · rename_i hvolume
    refine Or.inl ⟨rfl, fun l' x' r' hf ha => ?_⟩
    have heq := hsame l' x' r' hf
    subst heq
    rcases hvolume with hle | hinvalid
    · exact absurd ha.above (Int.not_lt.mpr hle)
    · rw [ha.volume] at hinvalid
      cases hinvalid
  rename_i hvolume
  split
  · rename_i hprice
    refine Or.inl ⟨rfl, fun l' x' r' hf ha => ?_⟩
    have heq := hsame l' x' r' hf
    subst heq
    obtain ⟨hpos, haligned⟩ := ha.price hprice.1
    rcases hprice.2 with hle | hmisaligned
    · exact absurd hpos (Int.not_lt.mpr hle)
    · rw [haligned] at hmisaligned
      cases hmisaligned
  rename_i hprice
  refine Or.inr ⟨l, x, r, ⟨hsplit, hfind, href, hlive, hunknown⟩, ⟨?_, ?_, ?_⟩, ?_⟩
  · exact Int.not_le.mp fun hle => hvolume (Or.inl hle)
  · by_contra hn
    exact hvolume (Or.inr (by simpa using hn))
  · intro hlimit
    by_contra hn
    apply hprice
    refine ⟨hlimit, ?_⟩
    rcases not_and_or.mp hn with hpos | haligned
    · exact Or.inl (Int.not_lt.mp hpos)
    · exact Or.inr (by simpa using haligned)
  · rw [hsplit, set_split]
    rfl

/-- The slot of an accepted order. -/
def acceptedSlot (b : PaperBroker) (q : OrderRequest) (nowNs : Nat) : OrderSlot :=
  movedTo (b.placed q nowNs) .sent

theorem accept_slots (b : PaperBroker) (slot : Nat) (q : OrderRequest) (nowNs : Nat) :
    (b.accept slot q nowNs).slots = b.slots.set slot (b.acceptedSlot q nowNs) := rfl

theorem clerical_accept (b : PaperBroker) (slot : Nat) (q : OrderRequest) (nowNs : Nat) :
    Clerical b.books (b.accept slot q nowNs).books := by
  unfold accept
  dsimp only
  refine Clerical.trans ?_ (clerical_refreshAccount _ nowNs)
  exact ⟨rfl, rfl, rfl, rfl, rfl, rfl, rfl, rfl, rfl, rfl, rfl, id⟩

theorem accept_openOrders (b : PaperBroker) (slot : Nat) (q : OrderRequest) (nowNs : Nat) :
    (b.accept slot q nowNs).books.account.openOrders = b.books.account.openOrders + 1 := by
  unfold accept
  dsimp only
  rw [refreshAccount_account, recomputeAccount_openOrders]
  rfl

theorem accept_reserved (b : PaperBroker) (slot : Nat) (q : OrderRequest) (nowNs : Nat) :
    (b.accept slot q nowNs).books.reservedMarginMinor =
      b.books.reservedMarginMinor + requestMargin b.books q := by
  unfold accept
  dsimp only
  rw [refreshAccount_reserved]
  rfl

end PaperBroker

end MicrostructureEngine.Exec
