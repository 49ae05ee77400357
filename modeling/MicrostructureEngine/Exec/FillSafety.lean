import MicrostructureEngine.Exec.OrderSlots
import MicrostructureEngine.Exec.ModeOrdering

/-!
# Where and when fills happen

A fill is priced by `fillTerms`: the touch and the slippage for a market order, its own level for a
limit order. Slippage is never favourable and a queue never negative, so the guards behind
`fillTerms` that halt on an impossible fill find nothing to do, in any run.
-/

namespace MicrostructureEngine.Exec

set_option autoImplicit false

open Books PaperBroker

/-- A quote as `on_quote` stores it, with a spread that slippage can be drawn from. -/
structure SafeQuote (m : MarketState) : Prop where
  spread : m.spreadTicks < 2 ^ 60
  crossed : m.valid = true → m.bidTicks < m.askTicks

/-- An order that has not filled more than was asked for. -/
structure SafeOrder (o : Order) : Prop where
  filled : o.filledVolume ≤ o.requestedVolume
  queue : 0 ≤ o.queueAhead

/-- What a fill promises about its price, its volume and its time. -/
structure SafeFill (f : FillEvent) : Prop where
  effective : f.slot.order.tsEffectiveNs ≤ f.tsNs
  positive : 0 < f.volume
  within : f.slot.order.filledVolume + f.volume ≤ f.slot.order.requestedVolume
  bought : f.slot.order.type = .market → f.slot.order.side = .buy → f.market.askTicks ≤ f.priceTicks
  sold : f.slot.order.type = .market → f.slot.order.side = .sell → f.priceTicks ≤ f.market.bidTicks
  mid : f.slot.order.type = .market → 2 ≤ f.market.spreadTicks →
    f.priceTicks * 2 ≠ f.market.bidTicks + f.market.askTicks
  level : f.slot.order.type ≠ .market → f.priceTicks = f.slot.order.limitPriceTicks
  ahead : f.slot.order.type ≠ .market → f.slot.order.queueAhead = 0
  through : f.slot.order.type ≠ .market →
    (f.slot.order.side = .buy → f.market.askTicks < f.slot.order.limitPriceTicks) ∧
      (f.slot.order.side = .sell → f.slot.order.limitPriceTicks < f.market.bidTicks)

/-! ## Terms -/

section Terms

variable {b : Books} {o : Order} {price available : Int}

/-- A market order crosses to the touch or beyond. -/
theorem fillTerms_market (hmarket : o.type = .market)
    (hquote : SafeQuote (b.market o.symbolId)) (h : b.fillTerms o = some (price, available)) :
    (o.side = .buy → (b.market o.symbolId).askTicks ≤ price) ∧
      (o.side = .sell → price ≤ (b.market o.symbolId).bidTicks) := by
  have hslip := SlippageModel.sampleTicks_nonneg b.config.runSeed o.corrId b.config.mode
    (b.regimeOf o.symbolId) hquote.spread
  unfold fillTerms at h
  dsimp only at h
  rw [if_pos hmarket, Option.some.injEq, Prod.mk.injEq] at h
  obtain ⟨rfl, -⟩ := h
  constructor
  · intro hbuy
    rw [if_pos hbuy]
    omega
  · intro hsell
    rw [if_neg (by rw [hsell]; decide)]
    omega

/-- A limit order fills at its level, once the touch is through it and nobody is ahead. -/
theorem fillTerms_limit (hlimit : o.type ≠ .market) (h : b.fillTerms o = some (price, available)) :
    price = o.limitPriceTicks ∧ o.queueAhead ≤ 0 ∧
      (o.side = .buy → (b.market o.symbolId).askTicks < o.limitPriceTicks) ∧
      (o.side = .sell → o.limitPriceTicks < (b.market o.symbolId).bidTicks) := by
  unfold fillTerms at h
  dsimp only at h
  rw [if_neg hlimit] at h
  generalize hthrough : (if o.side = .buy then decide ((b.market o.symbolId).askTicks < o.limitPriceTicks)
    else decide ((b.market o.symbolId).bidTicks > o.limitPriceTicks)) = through at h
  cases through with
  | false => cases h
  | true =>
    rw [if_neg (by decide)] at h
    split at h
    · cases h
    rename_i hqueue
    rw [Option.some.injEq, Prod.mk.injEq] at h
    refine ⟨h.1.symm, Int.not_lt.mp hqueue, ?_, ?_⟩
    · intro hbuy
      rw [if_pos hbuy, decide_eq_true_eq] at hthrough
      exact hthrough
    · intro hsell
      rw [if_neg (by rw [hsell]; decide), decide_eq_true_eq] at hthrough
      exact hthrough

/-- The mid is strictly inside the spread, where no market order fills. -/
theorem ne_mid_of_market (hmarket : o.type = .market) (hquote : SafeQuote (b.market o.symbolId))
    (hvalid : (b.market o.symbolId).valid = true) (h : b.fillTerms o = some (price, available)) :
    price * 2 ≠ (b.market o.symbolId).bidTicks + (b.market o.symbolId).askTicks := by
  have hcrossed := hquote.crossed hvalid
  obtain ⟨hbuy, hsell⟩ := fillTerms_market hmarket hquote h
  cases hside : o.side with
  | buy =>
    have htouch := hbuy hside
    omega
  | sell =>
    have htouch := hsell hside
    omega

theorem not_better_of_market (hmarket : o.type = .market) (hquote : SafeQuote (b.market o.symbolId))
    (h : b.fillTerms o = some (price, available)) :
    (b.market o.symbolId).betterThanTouch o.side price = false := by
  obtain ⟨hbuy, hsell⟩ := fillTerms_market hmarket hquote h
  unfold MarketState.betterThanTouch
  cases hside : o.side with
  | buy => simpa using hbuy hside
  | sell => simpa using hsell hside

end Terms

/-- The attempt gets to one of the guards of `attempt_fill` that halt on an impossible fill. -/
def ImpossibleFill (b : Books) (o : Order) : Prop :=
  ∃ price available, (b.market o.symbolId).valid = true ∧ b.fillTerms o = some (price, available) ∧
    (o.remaining < (if available < o.remaining then available else o.remaining) ∨
      (o.type = .market ∧ (b.market o.symbolId).betterThanTouch o.side price = true) ∨
      (o.type = .market ∧ 2 ≤ (b.market o.symbolId).spreadTicks ∧
        price * 2 = (b.market o.symbolId).bidTicks + (b.market o.symbolId).askTicks))

theorem not_impossibleFill {b : Books} {o : Order} (hquote : SafeQuote (b.market o.symbolId)) :
    ¬ ImpossibleFill b o := by
  rintro ⟨price, available, hvalid, hterms, hover | ⟨hmarket, hbetter⟩ | ⟨hmarket, -, hmid⟩⟩
  · split at hover <;> omega
  · rw [not_better_of_market hmarket hquote hterms] at hbetter
    cases hbetter
  · exact ne_mid_of_market hmarket hquote hvalid hterms hmid

/-! ## The fill -/

theorem safeFill_fillEvent {b : Books} {x : OrderSlot} {price volume : Int} {nowNs : Nat}
    (hquote : SafeQuote (b.market x.order.symbolId)) (horder : SafeOrder x.order)
    (heffective : x.order.tsEffectiveNs ≤ nowNs) (hfill : Fillable b x.order price volume) :
    SafeFill (b.fillEvent x price volume nowNs) := by
  obtain ⟨available, hterms, -⟩ := hfill.terms
  have hremaining := hfill.volume_le
  unfold Order.remaining at hremaining
  refine ⟨heffective, hfill.volume_pos, ?_, ?_, ?_, ?_, ?_, ?_, ?_⟩
  · show x.order.filledVolume + volume ≤ x.order.requestedVolume
    omega
  · intro hmarket
    exact (fillTerms_market hmarket hquote hterms).1
  · intro hmarket
    exact (fillTerms_market hmarket hquote hterms).2
  · intro hmarket _
    exact ne_mid_of_market hmarket hquote hfill.valid hterms
  · intro hlimit
    exact (fillTerms_limit hlimit hterms).1
  · intro hlimit
    exact Int.le_antisymm (fillTerms_limit hlimit hterms).2.1 horder.queue
  · intro hlimit
    exact (fillTerms_limit hlimit hterms).2.2

/-! ## The reason of the halt -/

/-- The broker has not halted on an impossible fill. -/
def ReasonOk (b : Books) : Prop := b.haltReason ≠ .impossibleFill

namespace ReasonOk

variable {b : Books} (h : ReasonOk b) (x : OrderSlot) (price volume : Int) (nowNs : Nat)
include h

theorem halt {reason : RejectReason} (hreason : reason ≠ .impossibleFill) : ReasonOk (b.halt reason) := by
  unfold Books.halt
  split
  · exact h
  · exact hreason

theorem recomputeAccount : ReasonOk (b.recomputeAccount nowNs) := by
  unfold Books.recomputeAccount
  dsimp only
  split
  · apply ReasonOk.halt
    · exact h
    · decide
  · exact h

theorem refreshAccount : ReasonOk (b.refreshAccount nowNs) := h.recomputeAccount nowNs

theorem finish (terminal : OrderState) : ReasonOk (b.finish x terminal nowNs).1 := by
  unfold Books.finish
  apply ReasonOk.refreshAccount
  exact h

theorem rejectSent : ReasonOk (b.rejectSent x nowNs).1 := by
  unfold Books.rejectSent
  apply ReasonOk.finish
  exact h

theorem acknowledge : ReasonOk (b.acknowledge x nowNs).1 := h

theorem openFor (o : Order) : ReasonOk (b.openFor o price volume nowNs).1 := by
  unfold Books.openFor
  dsimp only
  split
  · apply ReasonOk.halt
    · exact h
    · decide
  · exact h

theorem reduceTicket : ReasonOk (b.reduceTicket x price volume nowNs) := by
  unfold Books.reduceTicket
  dsimp only
  split
  · exact h.halt (by decide)
  · exact h

theorem hedgeTicket : ReasonOk (b.hedgeTicket x price volume nowNs).1 := by
  have hopen := h.openFor price volume nowNs x.order
  unfold Books.hedgeTicket
  dsimp only
  split
  · split
    · rename_i heq
      rw [heq] at hopen
      exact hopen
    · rename_i heq
      rw [heq] at hopen
      exact hopen
  · exact h

theorem netTicket : ReasonOk (b.netTicket x price volume nowNs) := by
  have hopen := h.openFor price volume nowNs x.order
  unfold Books.netTicket
  dsimp only
  split
  · split
    · rename_i heq
      rw [heq] at hopen
      exact hopen
    · rename_i heq
      rw [heq] at hopen
      exact hopen
  · split
    · exact h
    · rename_i slot p _ _
      generalize closeAgainst (b.specs x.order.symbolId) p price volume nowNs = c
      have hclose : ReasonOk { b.realize c.2.1 with positions := b.positions.write slot c.2.2 } := h
      split
      · have hflip := hclose.openFor price (volume - c.1) nowNs x.order
        split
        · rename_i heq
          rw [heq] at hflip
          exact hflip
        · rename_i heq
          rw [heq] at hflip
          exact hflip
      · exact hclose

theorem bookFill : ReasonOk (b.bookFill x price volume nowNs).1 := by
  have hcharged : ReasonOk (b.charge (CommissionModel.chargeMinor (b.specs x.order.symbolId) volume)) := h
  unfold Books.bookFill applyToPosition
  dsimp only
  split
  · exact hcharged.reduceTicket _ price volume nowNs
  · split
    · exact hcharged.hedgeTicket _ price volume nowNs
    · exact hcharged.netTicket _ price volume nowNs

theorem applyFill : ReasonOk (b.applyFill x price volume nowNs).1 := by
  have hbook := h.bookFill x price volume nowNs
  rcases applyFill_cases b x price volume nowNs rfl with ⟨-, heq⟩ | ⟨-, -, heq⟩ | ⟨-, -, heq⟩
  · rw [heq]
    exact (hbook.finish _ nowNs .filled).refreshAccount nowNs
  · rw [heq]
    apply ReasonOk.refreshAccount
    exact hbook
  · rw [heq]
    exact hbook.refreshAccount nowNs

theorem attemptFill (hquote : SafeQuote (b.market x.order.symbolId)) :
    ReasonOk (b.attemptFill x nowNs).1 := by
  have himpossible := not_impossibleFill (o := x.order) hquote
  unfold Books.attemptFill
  dsimp only
  split
  · exact h
  rename_i hopen
  have hvalid : (b.market x.order.symbolId).valid = true := by
    simp only [Bool.not_eq_true', not_or, Bool.not_eq_false] at hopen
    exact hopen.1
  split
  · exact h
  split
  · exact h
  rename_i available hterms
  split
  · exact h.halt (by decide)
  generalize hvolume : (if available < x.order.remaining then available else x.order.remaining) = volume
  split
  · exact h
  split
  · rename_i hover
    rw [← hvolume] at hover
    exact absurd ⟨_, available, hvalid, hterms, Or.inl hover⟩ himpossible
  split
  · rename_i hbetter
    exact absurd ⟨_, available, hvalid, hterms, Or.inr (Or.inl hbetter)⟩ himpossible
  split
  · rename_i hmid
    exact absurd ⟨_, available, hvalid, hterms, Or.inr (Or.inr ⟨hmid.2.2, hmid.1, hmid.2.1⟩)⟩ himpossible
  · exact h.applyFill x _ _ nowNs

theorem processSlot (hquote : SafeQuote (b.market x.order.symbolId)) :
    ReasonOk (b.processSlot x nowNs).1 := by
  unfold Books.processSlot
  split
  · exact h
  split
  · exact h.finish x nowNs .expired
  split
  · exact h
  split
  · split
    · exact h.rejectSent x nowNs
    · exact (h.acknowledge x nowNs).attemptFill (movedTo x .acknowledged) nowNs hquote
  · exact h.attemptFill x nowNs hquote

end ReasonOk

/-! ## One turn of the loop -/

theorem SafeOrder.applyFill {b : Books} {x : OrderSlot} {price volume : Int} (h : SafeOrder x.order)
    (hfill : Fillable b x.order price volume) (nowNs : Nat) :
    SafeOrder (b.applyFill x price volume nowNs).2.order := by
  have hremaining := hfill.volume_le
  unfold Order.remaining at hremaining
  have hbook : SafeOrder (b.bookFill x price volume nowNs).2.order := by
    rw [bookFill_slot]
    refine ⟨?_, h.queue⟩
    show x.order.filledVolume + volume ≤ x.order.requestedVolume
    omega
  rcases applyFill_cases b x price volume nowNs rfl with ⟨-, heq⟩ | ⟨-, -, heq⟩ | ⟨-, -, heq⟩
  · rw [heq]
    exact ⟨hbook.filled, hbook.queue⟩
  · rw [heq]
    exact ⟨hbook.filled, hbook.queue⟩
  · rw [heq]
    exact hbook

/-- An order ready for a fill is the order in the slot but for its state. -/
theorem Books.Ready.safe {b : Books} {x : OrderSlot} {nowNs : Nat} {c : Books × OrderSlot}
    (h : Ready b x nowNs c) (hx : SafeOrder x.order) :
    SafeOrder c.2.order ∧ c.2.order.tsEffectiveNs ≤ nowNs := by
  cases h with
  | standing live sent due effective => exact ⟨hx, effective⟩
  | acknowledged sent draw due effective => exact ⟨⟨hx.filled, hx.queue⟩, effective⟩

theorem SafeOrder.processSlot {x : OrderSlot} (h : SafeOrder x.order) (b : Books) (nowNs : Nat) :
    SafeOrder (b.processSlot x nowNs).2.order := by
  have hp := processed b x nowNs
  generalize b.processSlot x nowNs = r at hp ⊢
  cases hp with
  | idle => exact h
  | expired => exact ⟨h.filled, h.queue⟩
  | rejected => exact ⟨h.filled, h.queue⟩
  | ready hready => exact (hready.safe h).1
  | halted hready reason => exact (hready.safe h).1
  | filled hready price volume fill => exact (hready.safe h).1.applyFill fill nowNs

/-- What a broker with safe quotes knows: its orders, its fills, and why it has not halted. -/
structure Safe (b : Books) (slots : List OrderSlot) : Prop where
  quotes : ∀ symbolId, SafeQuote (b.market symbolId)
  orders : ∀ x ∈ slots, SafeOrder x.order
  fills : ∀ f ∈ b.fills, SafeFill f
  counted : b.fillCount = b.fills.length
  reason : ReasonOk b

theorem Safe.turn {b : Books} {l r : List OrderSlot} {x : OrderSlot} (h : Safe b (l ++ x :: r))
    (nowNs : Nat) : Safe (b.processSlot x nowNs).1 (l ++ (b.processSlot x nowNs).2 :: r) := by
  have hx : SafeOrder x.order := h.orders x (List.mem_append_right l List.mem_cons_self)
  refine ⟨?_, ?_, ?_, ?_, h.reason.processSlot x nowNs (h.quotes _)⟩
  · rw [(processSlot_fixed b x nowNs).2.2]
    exact h.quotes
  · exact forall_split h.orders fun hsafe => hsafe.processSlot b nowNs
  · rcases processSlot_books b x nowNs with hclerical | ⟨c, price, volume, hready, hfill, heq⟩
    · rw [hclerical.fills]
      exact h.fills
    · have hquote : SafeQuote (c.1.market c.2.order.symbolId) := by
        rw [hready.clerical.market]
        exact h.quotes _
      obtain ⟨horder, heffective⟩ := hready.safe hx
      rw [heq, (booked_applyFill c.1 c.2 price volume nowNs).fills, hready.clerical.fills]
      intro f hf
      rcases List.mem_append.mp hf with hf | hf
      · exact h.fills f hf
      · rw [List.mem_singleton.mp hf]
        exact safeFill_fillEvent hquote horder heffective hfill
  · rcases processSlot_books b x nowNs with hclerical | ⟨c, price, volume, hready, -, heq⟩
    · rw [hclerical.fillCount, hclerical.fills]
      exact h.counted
    · have hbooked := booked_applyFill c.1 c.2 price volume nowNs
      rw [heq, hbooked.fillCount, hbooked.fills, hready.clerical.fillCount, hready.clerical.fills,
        List.length_append, h.counted]
      rfl

/-- No turn of the loop gets to a guard against impossible fills. -/
def GuardsIdle (nowNs : Nat) : Books → List OrderSlot → Prop
  | _, [] => True
  | b, x :: xs => ¬ ImpossibleFill b x.order ∧ GuardsIdle nowNs (b.processSlot x nowNs).1 xs

theorem Safe.loop {b : Books} {l xs : List OrderSlot} (h : Safe b (l ++ xs)) (nowNs : Nat) :
    GuardsIdle nowNs b xs ∧ Safe (b.processSlots nowNs xs).1 (l ++ (b.processSlots nowNs xs).2) := by
  induction xs generalizing b l with
  | nil => exact ⟨trivial, h⟩
  | cons x xs ih =>
    have hnext := h.turn nowNs
    have hrest := ih (b := (b.processSlot x nowNs).1) (l := l ++ [(b.processSlot x nowNs).2])
      (by rwa [List.append_assoc])
    rw [List.append_assoc] at hrest
    exact ⟨⟨not_impossibleFill (h.quotes _), hrest.1⟩, hrest.2⟩

theorem Safe.clerical {b b' : Books} {slots : List OrderSlot} (h : Safe b slots) (hc : Clerical b b')
    (hreason : ReasonOk b') : Safe b' slots := by
  refine ⟨?_, h.orders, ?_, ?_, hreason⟩
  · rw [hc.market]
    exact h.quotes
  · rw [hc.fills]
    exact h.fills
  · rw [hc.fillCount, hc.fills]
    exact h.counted

/-! ## Operations -/

theorem safeQuote_stored {bid ask : Int} (hspread : ask - bid < 2 ^ 60) (bidSize askSize : Int)
    (tsNs : Nat) :
    SafeQuote
      { bidTicks := bid, askTicks := ask, bidSize := bidSize, askSize := askSize, tsNs := tsNs,
        valid := decide (bid > 0) && decide (ask > 0) && decide (ask > bid) } := by
  refine ⟨hspread, ?_⟩
  intro hvalid
  simp only [Bool.and_eq_true, decide_eq_true_eq] at hvalid
  exact hvalid.2

theorem SafeOrder.creditOrder {o : Order} (h : SafeOrder o) (b : Books) (symbolId : Nat)
    (previous : MarketState) (bid ask bidSize askSize : Int) :
    SafeOrder (creditOrder b symbolId previous bid ask bidSize askSize o) := by
  rw [creditOrder_eq]
  refine ⟨h.filled, ?_⟩
  show 0 ≤ (PaperBroker.creditOrder b symbolId previous bid ask bidSize askSize o).queueAhead
  unfold PaperBroker.creditOrder
  dsimp only
  split
  · exact h.queue
  split
  · exact h.queue
  split
  · exact h.queue
  split
  · exact h.queue
  · dsimp only
    split
    · exact Int.le_refl 0
    · omega

theorem queueAtPlacement_nonneg (config : BrokerConfig) (side : Side) (market : MarketState) :
    0 ≤ queueAtPlacement config side market := by
  unfold queueAtPlacement
  dsimp only
  split
  · exact Int.le_refl 0
  · exact Int.natCast_nonneg _

namespace PaperBroker

variable {b : PaperBroker} (h : Safe b.books b.slots)
include h

theorem safe_quoted {symbolId : Nat} {bid ask : Int} (hspread : ask - bid < 2 ^ 60)
    (bidSize askSize : Int) (tsNs : Nat) :
    Safe (b.quoted symbolId bid ask bidSize askSize tsNs).books
      (b.quoted symbolId bid ask bidSize askSize tsNs).slots := by
  refine ⟨?_, ?_, h.fills, h.counted, h.reason⟩
  · intro s
    by_cases hs : s = symbolId
    · subst hs
      show SafeQuote (Function.update b.books.market s _ s)
      rw [Function.update_self]
      exact safeQuote_stored hspread bidSize askSize tsNs
    · show SafeQuote (Function.update b.books.market symbolId _ s)
      rw [Function.update_of_ne hs]
      exact h.quotes s
  · intro y hy
    unfold quoted creditQueue at hy
    dsimp only at hy
    split at hy
    · exact h.orders y hy
    · obtain ⟨x, hx, rfl⟩ := List.mem_map.mp hy
      exact (h.orders x hx).creditOrder b.books symbolId _ bid ask bidSize askSize

theorem safe_onQuote (symbolId : Nat) {bid ask : Int} (hspread : ask - bid < 2 ^ 60)
    (bidSize askSize : Int) (tsNs : Nat) :
    Safe (b.onQuote symbolId bid ask bidSize askSize tsNs).books
      (b.onQuote symbolId bid ask bidSize askSize tsNs).slots := by
  by_cases hsymbol : symbolId < maxSymbols
  · have hquoted : Safe (b.quoted symbolId bid ask bidSize askSize tsNs).books
        (b.quoted symbolId bid ask bidSize askSize tsNs).slots :=
      safe_quoted h hspread bidSize askSize tsNs
    have hprocess : Safe ((b.quoted symbolId bid ask bidSize askSize tsNs).process tsNs).books
        ((b.quoted symbolId bid ask bidSize askSize tsNs).process tsNs).slots := by
      unfold process
      split
      · exact hquoted
      · exact (Safe.loop (l := []) hquoted tsNs).2
    rw [onQuote_eq hsymbol]
    exact hprocess.clerical (clerical_recomputeAccount _ tsNs) (hprocess.reason.recomputeAccount tsNs)
  · rw [onQuote_of_unknown hsymbol]
    exact h

theorem safe_submit (q : OrderRequest) (nowNs : Nat) :
    Safe (b.submit q nowNs).2.books (b.submit q nowNs).2.slots := by
  have hdefault : SafeOrder ({} : OrderSlot).order := ⟨Int.le_refl 0, Int.le_refl 0⟩
  rcases submit_cases b q nowNs with ⟨reason, -, heq⟩ | ⟨-, -, heq⟩ | ⟨s, reason, -, halloc, -, heq⟩ |
    ⟨s, hentry, halloc, -, heq⟩
  · rw [heq]
    exact ⟨h.quotes, h.orders, h.fills, h.counted, h.reason⟩
  · rw [heq]
    exact ⟨h.quotes, h.orders, h.fills, h.counted, h.reason⟩
  · rw [heq]
    exact ⟨h.quotes, (forall_allocate halloc h.orders hdefault).1, h.fills, h.counted, h.reason⟩
  · have hvolume : 0 ≤ q.volume := by
      unfold entryRefusal at hentry
      grind
    have haccepted : SafeOrder (acceptedSlot { b with slots := s.2 } q nowNs).order := by
      refine ⟨hvolume, ?_⟩
      show 0 ≤ if q.type = .limit then queueAtPlacement _ q.side _ else 0
      split
      · exact queueAtPlacement_nonneg _ _ _
      · exact Int.le_refl 0
    have hreason : ReasonOk ({ b with slots := s.2 }.accept s.1 q nowNs).books := by
      unfold accept
      dsimp only
      apply ReasonOk.refreshAccount
      exact h.reason
    have hsafe := Safe.clerical ⟨h.quotes, (forall_allocate halloc h.orders hdefault).2 _ haccepted,
      h.fills, h.counted, h.reason⟩ (clerical_accept { b with slots := s.2 } s.1 q nowNs) hreason
    rw [heq]
    exact hsafe

theorem safe_cancel (ref : BrokerOrderRef) (nowNs : Nat) :
    Safe (b.cancel ref nowNs).2.books (b.cancel ref nowNs).2.slots := by
  rcases cancel_cases b ref nowNs with ⟨heq, -⟩ | ⟨l, x, r, hfound, heq⟩
  · rw [heq]
    exact h
  · have hreason : ReasonOk (cancelled b.books ref x nowNs).1 := by
      unfold cancelled
      apply ReasonOk.finish
      exact h.reason
    rw [heq]
    rw [hfound.split] at h
    exact Safe.clerical ⟨h.quotes, forall_split h.orders fun hx => ⟨hx.filled, hx.queue⟩, h.fills,
      h.counted, h.reason⟩ (clerical_cancelled b.books ref x nowNs) hreason

theorem safe_replace (ref : BrokerOrderRef) (price volume : Int) (nowNs : Nat) :
    Safe (b.replace ref price volume nowNs).2.books (b.replace ref price volume nowNs).2.slots := by
  rcases replace_cases b ref price volume nowNs with ⟨heq, -⟩ | ⟨l, x, r, hfound, hamend, heq⟩
  · rw [heq]
    exact h
  · rw [heq]
    rw [hfound.split] at h
    refine ⟨h.quotes, forall_split h.orders fun hx => ⟨?_, ?_⟩, h.fills, h.counted, h.reason⟩
    · exact hamend.above.le
    · show 0 ≤ if x.order.type = .limit then queueAtPlacement _ x.order.side _ else x.order.queueAhead
      split
      · exact queueAtPlacement_nonneg _ _ _
      · exact hx.queue

end PaperBroker

namespace PaperBroker

/-! ## Runs -/

/-- A quote whose spread slippage can be drawn from. -/
def SpreadBounded : Action → Prop
  | .onQuote _ bid ask _ _ _ => ask - bid < 2 ^ 60
  | _ => True

/-- No order that the quote is tried on gets to a guard against impossible fills. -/
def GuardsUnreached (b : PaperBroker) : Action → Prop
  | .onQuote symbolId bid ask bidSize askSize tsNs =>
    symbolId < maxSymbols → b.books.halted = false →
      GuardsIdle tsNs (b.quoted symbolId bid ask bidSize askSize tsNs).books
        (b.quoted symbolId bid ask bidSize askSize tsNs).slots
  | _ => True

theorem safe_step {b : PaperBroker} (h : Safe b.books b.slots) {a : Action} (ha : SpreadBounded a) :
    Safe (b.step a).books (b.step a).slots := by
  cases a with
  | setSymbol spec =>
    unfold step setSymbol
    dsimp only
    split
    · exact ⟨h.quotes, h.orders, h.fills, h.counted, h.reason⟩
    · exact h
  | onQuote symbolId bid ask bidSize askSize tsNs => exact safe_onQuote h symbolId ha bidSize askSize tsNs
  | submit q nowNs => exact safe_submit h q nowNs
  | cancel ref nowNs => exact safe_cancel h ref nowNs
  | replace ref price volume nowNs => exact safe_replace h ref price volume nowNs

theorem guardsUnreached_of_safe {b : PaperBroker} (h : Safe b.books b.slots) {a : Action}
    (ha : SpreadBounded a) : b.GuardsUnreached a := by
  cases a with
  | onQuote symbolId bid ask bidSize askSize tsNs =>
    intro _ _
    exact (Safe.loop (l := []) (safe_quoted h ha bidSize askSize tsNs) tsNs).1
  | setSymbol => trivial
  | submit => trivial
  | cancel => trivial
  | replace => trivial

theorem safe_new (config : BrokerConfig) : Safe (new config).books (new config).slots := by
  have hspread : ({} : MarketState).spreadTicks < 2 ^ 60 := by decide
  have hreason : RejectReason.none ≠ .impossibleFill := by decide
  refine ⟨fun _ => ⟨hspread, nofun⟩, ?_, ?_, rfl, hreason⟩
  · intro x hx
    cases hx
  · intro f hf
    cases hf

/-- In every run with such quotes each fill is safe, no order fills beyond its volume, and no guard
against impossible fills is ever reached, let alone halts the broker. -/
theorem fill_price_safety (config : BrokerConfig) (actions : List Action)
    (hspread : ∀ a ∈ actions, SpreadBounded a) :
    (∀ f ∈ (after config actions).books.fills, SafeFill f) ∧
      (after config actions).books.fillCount = (after config actions).books.fills.length ∧
      (∀ x ∈ (after config actions).slots, x.order.filledVolume ≤ x.order.requestedVolume) ∧
      (after config actions).books.haltReason ≠ .impossibleFill ∧
      Runs.Along step GuardsUnreached (new config) actions := by
  have hall : Runs.Along step (fun _ a => SpreadBounded a) (new config) actions :=
    Runs.along_of_forall fun a ha _ => hspread a ha
  have hsafe : Safe (after config actions).books (after config actions).slots :=
    Runs.run_invariant (I := fun b : PaperBroker => Safe b.books b.slots)
      (fun _ _ hb ha => safe_step hb ha) (safe_new config) hall
  refine ⟨hsafe.fills, hsafe.counted, fun x hx => (hsafe.orders x hx).filled, hsafe.reason, ?_⟩
  exact Runs.Along.of_invariant (I := fun b : PaperBroker => Safe b.books b.slots)
    (fun _ _ hb ha => safe_step hb ha) (fun _ _ hb ha => guardsUnreached_of_safe hb ha)
    (safe_new config) hall

/-- A market order filled over two quotes. -/
def partFills : List Action :=
  [.onQuote 0 100 102 5 5 0, .submit { volume := 8 } 0, .onQuote 0 100 104 5 5 200000000,
    .onQuote 0 101 103 5 5 300000000]

theorem fill_price_safety_part_fills :
    (∀ f ∈ (after { initialBalanceMinor := 1000000 } partFills).books.fills, SafeFill f) ∧
      (after { initialBalanceMinor := 1000000 } partFills).books.fillCount =
        (after { initialBalanceMinor := 1000000 } partFills).books.fills.length ∧
      (∀ x ∈ (after { initialBalanceMinor := 1000000 } partFills).slots,
        x.order.filledVolume ≤ x.order.requestedVolume) ∧
      (after { initialBalanceMinor := 1000000 } partFills).books.haltReason ≠ .impossibleFill ∧
      Runs.Along step GuardsUnreached (new { initialBalanceMinor := 1000000 }) partFills :=
  fill_price_safety { initialBalanceMinor := 1000000 } partFills (by simp [partFills, SpreadBounded])

end PaperBroker

end MicrostructureEngine.Exec
