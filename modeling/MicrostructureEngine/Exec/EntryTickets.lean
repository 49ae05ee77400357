import MicrostructureEngine.Exec.FillGates
import MicrostructureEngine.Exec.FillHistory

/-!
# A broker that only entries reach

In hedging mode an order that is not `reduce_only` opens a ticket of its own, whichever side it
is on, and no fill of it realises PnL. Where all orders are of this kind, and at most one of them
is in flight, the tickets of the book say no more than whether anything has been filled: `Hedged`.
`OrderTurn` is what a quote makes of the one order.
-/

namespace MicrostructureEngine.Exec

set_option autoImplicit false

/-! ## Fills of entries -/

/-- Every ticket is open, on the symbol, and not empty; there are some when something has been
filled; and nothing has been realised. -/
structure Hedged (symbolId : Nat) (b : Books) : Prop where
  hedging : b.config.hedging = true
  working : ∀ p ∈ b.positions.positions, isClosed p = false ∧ p.symbolId = symbolId ∧ 0 < p.volume
  filled : b.positions.positions = [] ↔ b.fillCount = 0
  realized : b.account.realizedPnlMinor = 0

/-- The terms of an entry on the symbol: it may add exposure, and it does not expire. -/
structure EntryTerms (symbolId : Nat) (x : OrderSlot) : Prop where
  symbolId : x.order.symbolId = symbolId
  reduceOnly : x.order.reduceOnly = false
  expire : x.order.expireNs = 0

theorem EntryTerms.sameTerms {symbolId : Nat} {x y : OrderSlot} (h : EntryTerms symbolId x)
    (hs : SameTerms x y) : EntryTerms symbolId y :=
  ⟨hs.symbolId.trans h.symbolId, hs.reduceOnly.trans h.reduceOnly, hs.expire.trans h.expire⟩

namespace Hedged

variable {symbolId : Nat} {b b' : Books}

theorem frame (h : Hedged symbolId b) (hconfig : b'.config = b.config)
    (hpositions : b'.positions = b.positions) (hfills : b'.fillCount = b.fillCount)
    (hrealized : b'.account.realizedPnlMinor = b.account.realizedPnlMinor) : Hedged symbolId b' := by
  refine ⟨?_, ?_, ?_, ?_⟩
  · rw [hconfig]
    exact h.hedging
  · rw [hpositions]
    exact h.working
  · rw [hpositions, hfills]
    exact h.filled
  · rw [hrealized]
    exact h.realized

theorem clerical (h : Hedged symbolId b) (hc : Clerical b b') : Hedged symbolId b' :=
  h.frame hc.config hc.positions hc.fillCount hc.realized

/-- Something has been filled: a ticket is open. -/
theorem exists_open (h : Hedged symbolId b) (hfills : b.fillCount ≠ 0) :
    ∃ p ∈ b.positions.positions, p.symbolId = symbolId ∧ isClosed p = false := by
  cases hbook : b.positions.positions with
  | nil => exact absurd (h.filled.mp hbook) hfills
  | cons p book =>
    have hp : p ∈ b.positions.positions := by
      rw [hbook]
      exact List.mem_cons_self
    obtain ⟨hopen, hsymbol, -⟩ := h.working p hp
    exact ⟨p, List.mem_cons_self, hsymbol, hopen⟩

end Hedged

namespace Books

theorem realized_openFor (b : Books) (o : Order) (priceTicks volume : Int) (nowNs : Nat) :
    (b.openFor o priceTicks volume nowNs).1.account = b.account := by
  unfold openFor
  dsimp only
  split
  · exact halt_account _ _
  · rfl

/-- A ticket that is opened or added to realises nothing. -/
theorem account_hedgeTicket (b : Books) (x : OrderSlot) (priceTicks volume : Int) (nowNs : Nat) :
    (b.hedgeTicket x priceTicks volume nowNs).1.account = b.account := by
  have hopen := realized_openFor b x.order priceTicks volume nowNs
  unfold hedgeTicket
  dsimp only
  split
  · split
    · rename_i heq
      rw [heq] at hopen
      exact hopen
    · rename_i heq
      rw [heq] at hopen
      exact hopen
  · rfl

theorem realized_bookFill {b : Books} (hhedging : b.config.hedging = true) {x : OrderSlot}
    (hentry : x.order.reduceOnly = false) (priceTicks volume : Int) (nowNs : Nat) :
    (b.bookFill x priceTicks volume nowNs).1.account.realizedPnlMinor = b.account.realizedPnlMinor := by
  have hmode : ((b.charge (CommissionModel.chargeMinor (b.specs x.order.symbolId) volume)).config.hedging &&
      (b.filledSlot x priceTicks volume).order.reduceOnly) = false := by
    show (b.config.hedging && x.order.reduceOnly) = false
    rw [hentry, Bool.and_false]
  have hbooked : (b.bookFill x priceTicks volume nowNs).1.account =
      ((b.charge (CommissionModel.chargeMinor (b.specs x.order.symbolId) volume)).applyToPosition
        (b.filledSlot x priceTicks volume) priceTicks volume nowNs).1.account := rfl
  rw [hbooked]
  unfold applyToPosition
  rw [hmode, if_neg Bool.false_ne_true]
  rw [if_pos (show (b.charge (CommissionModel.chargeMinor (b.specs x.order.symbolId) volume)).config.hedging =
    true from hhedging)]
  rw [account_hedgeTicket]
  rfl

end Books

/-- A booked entry leaves open tickets only, and at least one. -/
theorem Booking.entry {i : Intent} {t t' : Tickets} (h : Booking i t t') (hhedging : i.hedging = true)
    (hentry : i.reduceOnly = false) (hvolume : 0 < i.volume)
    (hopen : ∀ p ∈ t.book, isClosed p = false ∧ p.symbolId = i.symbolId ∧ 0 < p.volume) :
    t'.book ≠ [] ∧ ∀ p ∈ t'.book, isClosed p = false ∧ p.symbolId = i.symbolId ∧ 0 < p.volume := by
  have hmode : i.reduces = false := by simp [Intent.reduces, hentry]
  cases h with
  | unreducible mode =>
    rw [hmode] at mode
    cases mode
  | reduced mode =>
    rw [hmode] at mode
    cases mode
  | full mode untargeted occupied limit =>
    refine ⟨?_, hopen⟩
    intro hnil
    dsimp only at hnil
    rw [hnil] at limit
    exact absurd limit (by decide)
  | opened mode untargeted fresh placed =>
    refine ⟨List.ne_nil_of_mem placed.mem, ?_⟩
    intro p hp
    rcases placed.mem_cases hp with rfl | hp
    · exact ⟨fresh.working, fresh.symbolId, by rw [fresh.volume]; exact hvolume⟩
    · exact hopen p hp
  | @added l r p p' seq own mode found first side resized =>
    have hp := hopen p (List.mem_append_right _ List.mem_cons_self)
    have hgrown : 0 < p.volume + i.volume := Int.add_pos hp.2.2 hvolume
    have hresized := resized hgrown
    have hworking : isClosed p' = false := by
      rw [hresized.working]
      exact decide_eq_false (by omega)
    refine ⟨List.append_ne_nil_of_right_ne_nil _ (List.cons_ne_nil _ _), ?_⟩
    dsimp only at hopen ⊢
    rw [List.forall_mem_append, List.forall_mem_cons] at hopen ⊢
    exact ⟨hopen.1, ⟨hworking, hresized.symbolId.trans hp.2.1, by rw [hresized.volume]; exact hgrown⟩,
      hopen.2.2⟩
  | netted mode =>
    rw [hhedging] at mode
    cases mode
  | flipped mode =>
    rw [hhedging] at mode
    cases mode

theorem Hedged.bookFill {symbolId : Nat} {b : Books} (h : Hedged symbolId b) {x : OrderSlot}
    (hx : EntryTerms symbolId x) {price volume : Int} (hvolume : 0 < volume) (nowNs : Nat) :
    Hedged symbolId (b.bookFill x price volume nowNs).1 ∧
      (b.bookFill x price volume nowNs).1.fillCount = b.fillCount + 1 := by
  have hbooked := Books.booked_bookFill b x price volume nowNs
  have hbooking := Books.booking_bookFill b x price volume nowNs
  obtain ⟨hsome, hopen⟩ := hbooking.entry h.hedging hx.reduceOnly hvolume (by
    intro p hp
    obtain ⟨hclosed, hsymbol, hpos⟩ := h.working p hp
    exact ⟨hclosed, hsymbol.trans hx.symbolId.symm, hpos⟩)
  refine ⟨⟨?_, ?_, ?_, ?_⟩, hbooked.fillCount⟩
  · rw [hbooked.config]
    exact h.hedging
  · intro p hp
    obtain ⟨hclosed, hsymbol, hpos⟩ := hopen p hp
    exact ⟨hclosed, hsymbol.trans hx.symbolId, hpos⟩
  · rw [hbooked.fillCount]
    exact ⟨fun hnil => absurd hnil hsome, fun hzero => absurd hzero (Nat.succ_ne_zero _)⟩
  · rw [Books.realized_bookFill h.hedging hx.reduceOnly]
    exact h.realized

/-- The rest of `apply_fill` books nothing more. -/
theorem Hedged.applyFill {symbolId : Nat} {b : Books} (h : Hedged symbolId b) {x : OrderSlot}
    (hx : EntryTerms symbolId x) {price volume : Int} (hvolume : 0 < volume) (nowNs : Nat) :
    Hedged symbolId (b.applyFill x price volume nowNs).1 := by
  have hbooked : Hedged symbolId (b.bookFill x price volume nowNs).1 := (h.bookFill hx hvolume nowNs).1
  rcases Books.applyFill_cases b x price volume nowNs rfl with ⟨-, heq⟩ | ⟨-, -, heq⟩ | ⟨-, -, heq⟩
  · rw [heq]
    exact hbooked.clerical ((Books.clerical_finish _ _ _ _).trans (Books.clerical_refreshAccount _ _))
  · rw [heq]
    exact hbooked.clerical ((Books.clerical_transition _ _ _ _).trans (Books.clerical_refreshAccount _ _))
  · rw [heq]
    exact hbooked.clerical (Books.clerical_refreshAccount _ _)

/-! ## What a quote makes of the one order -/

/-- The fill that processing brings an order: a halted broker processes nothing. -/
def Books.fillAt (b : Books) (nowNs : Nat) (x : OrderSlot) : Option (Int × Int) :=
  if b.halted then none else b.turnFill x nowNs

theorem Books.fillAt_newOrder {x : OrderSlot} (h : x.order.state = .newOrder) (b : Books) (nowNs : Nat) :
    b.fillAt nowNs x = none := by
  unfold fillAt turnFill
  simp [h, OrderState.isTerminal]

/-- The number of fills and the order, before and after: without a fill nothing happens but an
acknowledgement or a rejection, and a fill of what remains ends the order. -/
inductive OrderTurn (fill : OrderSlot → Option (Int × Int)) (n : Nat) :
    Option OrderSlot → Nat → Option OrderSlot → Prop
  | absent : OrderTurn fill n none n none
  | still {x y : OrderSlot} (unfilled : fill x = none) (ref : y.order.ref = x.order.ref)
      (state : y.order.state = x.order.state ∨
        x.order.state = .sent ∧ (y.order.state = .acknowledged ∨ y.order.state = .rejected)) :
      OrderTurn fill n (some x) n (some y)
  | filled {x y : OrderSlot} {price volume : Int} (booked : fill x = some (price, volume))
      (ref : y.order.ref = x.order.ref) (live : x.order.state.isTerminal = false)
      (state : y.order.state = if volume = x.order.remaining then .filled else .partiallyFilled) :
      OrderTurn fill n (some x) (n + 1) (some y)

theorem OrderTurn.le {fill : OrderSlot → Option (Int × Int)} {n m : Nat} {x y : Option OrderSlot}
    (h : OrderTurn fill n x m y) : n ≤ m := by
  cases h with
  | absent => exact Nat.le_refl n
  | still => exact Nat.le_refl n
  | filled => exact Nat.le_succ n

theorem OrderTurn.some {fill : OrderSlot → Option (Int × Int)} {n m : Nat} {x : OrderSlot}
    {y : Option OrderSlot} (h : OrderTurn fill n (some x) m y) : ∃ z, y = some z := by
  cases h with
  | @still _ y => exact ⟨y, rfl⟩
  | @filled _ y => exact ⟨y, rfl⟩

theorem OrderTurn.count_of_unfilled {fill : OrderSlot → Option (Int × Int)} {n m : Nat}
    {x y : Option OrderSlot} (h : OrderTurn fill n x m y) (hnone : ∀ z ∈ x, fill z = none) : m = n := by
  cases h with
  | absent => rfl
  | still => rfl
  | @filled x y price volume booked =>
    rw [hnone x rfl] at booked
    cases booked

theorem OrderTurn.halted {fill : OrderSlot → Option (Int × Int)} (h : ∀ x, fill x = none) (n : Nat)
    (x : Option OrderSlot) : OrderTurn fill n x n x := by
  cases x with
  | none => exact OrderTurn.absent
  | some x => exact OrderTurn.still (h x) rfl (Or.inl rfl)

namespace Books

variable {symbolId : Nat} {b : Books} {x : OrderSlot} {nowNs : Nat} {c : Books × OrderSlot}

/-- An order that is ready for a fill is as it was, or newly acknowledged. -/
theorem Ready.state (h : Ready b x nowNs c) :
    c.2.order.state = x.order.state ∨ x.order.state = .sent ∧ c.2.order.state = .acknowledged := by
  cases h with
  | standing => exact Or.inl rfl
  | acknowledged sent => exact Or.inr ⟨sent, rfl⟩

theorem Ready.live (h : Ready b x nowNs c) : x.order.state.isTerminal = false := by
  cases h with
  | standing live => exact live
  | acknowledged sent =>
    rw [sent]
    rfl

theorem Ready.remaining (h : Ready b x nowNs c) : c.2.order.remaining = x.order.remaining := by
  cases h with
  | standing => rfl
  | acknowledged => rfl

/-- A fill of what remains ends the order; a smaller one leaves it partially filled. -/
theorem applyFill_order_state {volume : Int} (hvolume : volume ≤ x.order.remaining) (b : Books) (price : Int)
    (nowNs : Nat) : (b.applyFill x price volume nowNs).2.order.state =
      if volume = x.order.remaining then .filled else .partiallyFilled := by
  have hleft : (b.bookFill x price volume nowNs).2.order.remaining = x.order.remaining - volume := by
    rw [bookFill_slot]
    unfold filledSlot filledOrder Order.remaining
    dsimp only
    omega
  rcases applyFill_cases b x price volume nowNs rfl with ⟨hdone, heq⟩ | ⟨hopen, -, heq⟩ |
    ⟨hopen, hstate, heq⟩
  · rw [heq, if_pos (by omega)]
    rfl
  · rw [heq, if_neg (by omega)]
    rfl
  · rw [heq, if_neg (by omega)]
    exact hstate

/-- One turn of the loop in `process`, for an entry. -/
theorem hedged_processSlot (h : Hedged symbolId b) (hx : EntryTerms symbolId x) (nowNs : Nat) :
    Hedged symbolId (b.processSlot x nowNs).1 := by
  rcases processSlot_books b x nowNs with hclerical | ⟨c, price, volume, hready, hfill, heq⟩
  · exact h.clerical hclerical
  · rw [heq]
    exact (h.clerical hready.clerical).applyFill (hx.sameTerms hready.sameTerms) hfill.volume_pos nowNs

/-- Without a fill an entry, which does not expire, is at most answered. -/
theorem state_of_turnFill_none (hx : EntryTerms symbolId x) (hfill : b.turnFill x nowNs = none) :
    (b.processSlot x nowNs).2.order.state = x.order.state ∨ x.order.state = .sent ∧
      ((b.processSlot x nowNs).2.order.state = .acknowledged ∨
        (b.processSlot x nowNs).2.order.state = .rejected) := by
  have hclerical := clerical_of_turnFill_none hfill
  have hready : ∀ {c : Books × OrderSlot}, Ready b x nowNs c → c.2.order.state = x.order.state ∨
      x.order.state = .sent ∧ (c.2.order.state = .acknowledged ∨ c.2.order.state = .rejected) := by
    intro c hc
    rcases hc.state with hsame | ⟨hsent, hstate⟩
    · exact Or.inl hsame
    · exact Or.inr ⟨hsent, Or.inl hstate⟩
  have hp := processed b x nowNs
  generalize b.processSlot x nowNs = r at hp hclerical ⊢
  cases hp with
  | idle => exact Or.inl rfl
  | expired live due =>
    unfold expiryDue at due
    rw [hx.expire] at due
    cases due
  | rejected sent => exact Or.inr ⟨sent, Or.inr rfl⟩
  | ready hc => exact hready hc
  | halted hc reason =>
    have hstate := hready hc
    exact hstate
  | @filled c hc price volume fill =>
    have hcount := (booked_applyFill c.1 c.2 price volume nowNs).fillCount
    rw [hclerical.fillCount, hc.clerical.fillCount] at hcount
    exact absurd hcount.symm (Nat.succ_ne_self _)

theorem turn_processSlot (hx : EntryTerms symbolId x) (b : Books) (nowNs : Nat) :
    OrderTurn (b.turnFill · nowNs) b.fillCount (some x) (b.processSlot x nowNs).1.fillCount
      (some (b.processSlot x nowNs).2) := by
  have href := (sameTerms_processSlot b x nowNs).ref
  cases hfill : b.turnFill x nowNs with
  | none =>
    rw [(clerical_of_turnFill_none hfill).fillCount]
    exact OrderTurn.still hfill href (state_of_turnFill_none hx hfill)
  | some fill =>
    obtain ⟨price, volume⟩ := fill
    obtain ⟨c, hready, hfillable, heq⟩ := processSlot_of_turnFill hfill
    have hcount : (b.processSlot x nowNs).1.fillCount = b.fillCount + 1 := by
      rw [heq, (booked_applyFill c.1 c.2 price volume nowNs).fillCount, hready.clerical.fillCount]
    rw [hcount]
    refine OrderTurn.filled hfill href hready.live ?_
    rw [heq, applyFill_order_state hfillable.volume_le, hready.remaining]

end Books

/-! ## One order among the slots -/

/-- The slots hold at most one order, behind slots that refused submits have taken. -/
structure Alone (symbolId : Nat) (slots : List OrderSlot) (x : Option OrderSlot) : Prop where
  slots : ∃ taken, slots = taken ++ x.toList ∧ ∀ z ∈ taken, Orphan z ∧ z.order.state = .newOrder
  terms : ∀ y ∈ x, EntryTerms symbolId y

namespace Alone

variable {symbolId : Nat} {slots : List OrderSlot} {x : Option OrderSlot}

theorem empty (symbolId : Nat) : Alone symbolId [] none :=
  ⟨⟨[], rfl, fun _ hz => absurd hz List.not_mem_nil⟩, fun _ hy => by cases hy⟩

theorem mem_cases (h : Alone symbolId slots x) {z : OrderSlot} (hz : z ∈ slots) :
    z.order.state = .newOrder ∨ z ∈ x := by
  obtain ⟨taken, rfl, htaken⟩ := h.slots
  rcases List.mem_append.mp hz with hz | hz
  · exact Or.inl (htaken z hz).2
  · exact Or.inr (Option.mem_toList.mp hz)

theorem mem_slots (h : Alone symbolId slots x) {z : OrderSlot} (hz : z ∈ x) : z ∈ slots := by
  obtain ⟨taken, rfl, -⟩ := h.slots
  exact List.mem_append_right _ (Option.mem_toList.mpr hz)

/-- Crediting queues leaves the order where it is. -/
theorem queue (h : Alone symbolId slots x) {slots' : List OrderSlot}
    (hq : List.Forall₂ PaperBroker.SameButQueue slots slots') :
    ∃ x', Alone symbolId slots' x' ∧ Option.Rel PaperBroker.SameButQueue x x' := by
  obtain ⟨taken, rfl, htaken⟩ := h.slots
  obtain ⟨taken', rest, rfl, htq, hrest⟩ := SlotTable.forall₂_split hq
  have hkept : ∀ z ∈ taken', Orphan z ∧ z.order.state = .newOrder := by
    refine SlotTable.forall_of_forall₂ (P := fun z => Orphan z ∧ z.order.state = .newOrder) ?_ htq htaken
    rintro z z' hz ⟨ho, hstate⟩
    refine ⟨ho.queue hz, ?_⟩
    rw [hz]
    exact hstate
  cases x with
  | none =>
    cases hrest
    exact ⟨none, ⟨⟨taken', rfl, hkept⟩, h.terms⟩, Option.Rel.none⟩
  | some x =>
    cases hrest with
    | @cons _ y _ _ hx hnil =>
      cases hnil
      refine ⟨some y, ⟨⟨taken', rfl, hkept⟩, ?_⟩, Option.Rel.some hx⟩
      rintro _ ⟨⟩
      exact (h.terms x rfl).sameTerms hx.sameTerms

end Alone

namespace Books

/-- The loop of `process` over slots without an order does nothing. -/
theorem processSlots_taken {taken : List OrderSlot} (h : ∀ z ∈ taken, Orphan z ∧ z.order.state = .newOrder)
    (b : Books) (nowNs : Nat) (rest : List OrderSlot) :
    b.processSlots nowNs (taken ++ rest) =
      ((b.processSlots nowNs rest).1, taken ++ (b.processSlots nowNs rest).2) := by
  induction taken with
  | nil => rfl
  | cons z taken ih =>
    have hz := (h z List.mem_cons_self).1.processSlot b nowNs
    have hrest := ih fun w hw => h w (List.mem_cons_of_mem z hw)
    simp only [List.cons_append, processSlots]
    rw [hz, hrest]

end Books

namespace PaperBroker

open Books

variable {symbolId : Nat} {b : PaperBroker} {x : Option OrderSlot}

theorem process_alone (h : Hedged symbolId b.books) (ha : Alone symbolId b.slots x) (nowNs : Nat) :
    Hedged symbolId (b.process nowNs).books ∧
      ∃ y, Alone symbolId (b.process nowNs).slots y ∧
        OrderTurn (b.books.fillAt nowNs) b.books.fillCount x (b.process nowNs).books.fillCount y := by
  unfold process
  split
  · rename_i hhalted
    refine ⟨h, x, ha, OrderTurn.halted (fun y => ?_) _ x⟩
    unfold fillAt
    rw [if_pos hhalted]
  rename_i hrunning
  have hfill : b.books.fillAt nowNs = (b.books.turnFill · nowNs) := by
    funext y
    unfold fillAt
    rw [if_neg hrunning]
  obtain ⟨taken, hslots, htaken⟩ := ha.slots
  dsimp only
  rw [hslots, processSlots_taken htaken, hfill]
  cases x with
  | none => exact ⟨h, none, ⟨⟨taken, rfl, htaken⟩, ha.terms⟩, OrderTurn.absent⟩
  | some x =>
    have hterms := ha.terms x rfl
    refine ⟨hedged_processSlot h hterms nowNs, some (b.books.processSlot x nowNs).2,
      ⟨⟨taken, rfl, htaken⟩, ?_⟩, turn_processSlot hterms b.books nowNs⟩
    rintro _ ⟨⟩
    exact hterms.sameTerms (sameTerms_processSlot b.books x nowNs)

/-- A quote keeps the book hedged; it credits the queue of the order, and gives it its turn. -/
theorem onQuote_alone (h : Hedged symbolId b.books) (ha : Alone symbolId b.slots x) {quoted : Nat}
    (hquoted : quoted < maxSymbols) (bid ask bidSize askSize : Int) (tsNs : Nat) :
    Hedged symbolId (b.onQuote quoted bid ask bidSize askSize tsNs).books ∧
      ∃ x' y, Option.Rel SameButQueue x x' ∧
        Alone symbolId (b.quoted quoted bid ask bidSize askSize tsNs).slots x' ∧
        Alone symbolId (b.onQuote quoted bid ask bidSize askSize tsNs).slots y ∧
        OrderTurn ((b.quoted quoted bid ask bidSize askSize tsNs).books.fillAt tsNs) b.books.fillCount x'
          (b.onQuote quoted bid ask bidSize askSize tsNs).books.fillCount y := by
  obtain ⟨x', ha', hq⟩ := ha.queue
    (creditQueue_forall₂ b.books quoted (b.books.market quoted) bid ask bidSize askSize b.slots)
  have hmarket : Hedged symbolId (b.quoted quoted bid ask bidSize askSize tsNs).books :=
    h.frame rfl rfl rfl rfl
  obtain ⟨hprocessed, y, hy, hturn⟩ := process_alone hmarket ha' tsNs
  rw [onQuote_eq hquoted]
  dsimp only
  have hmarked := clerical_recomputeAccount
    ((b.quoted quoted bid ask bidSize askSize tsNs).process tsNs).books tsNs
  rw [hmarked.fillCount]
  exact ⟨hprocessed.clerical hmarked, x', y, hq, ha', hy, hturn⟩

/-- What an allocation finds while no order is live: the ended order, or the next slot. -/
theorem allocate_alone {slots : List OrderSlot} (ha : Alone symbolId slots x)
    (hended : ∀ y ∈ x, y.order.state.isTerminal = true) {r : Nat × List OrderSlot}
    (hr : SlotTable.allocate reusable maxLiveOrders {} slots = some r) :
    Alone symbolId r.2 x ∧ ∀ y, EntryTerms symbolId y → Alone symbolId (r.2.set r.1 y) (some y) := by
  obtain ⟨taken, rfl, htaken⟩ := ha.slots
  have hkept : ∀ z ∈ taken, reusable z = false := by
    intro z hz
    unfold reusable
    rw [(htaken z hz).2]
    rfl
  have hwritten : ∀ y, EntryTerms symbolId y → Alone symbolId (taken ++ [y]) (some y) := by
    intro y hy
    refine ⟨⟨taken, rfl, htaken⟩, ?_⟩
    rintro _ ⟨⟩
    exact hy
  unfold SlotTable.allocate at hr
  cases x with
  | some x =>
    have hfound : SlotTable.locate reusable (taken ++ [x]) = some (taken.length, x) :=
      SlotTable.locate_split hkept (hended x rfl)
    simp only [Option.toList_some, hfound, Option.some.injEq] at hr
    subst hr
    refine ⟨⟨⟨taken, rfl, htaken⟩, ha.terms⟩, fun y hy => ?_⟩
    rw [set_split taken [] x y]
    exact hwritten y hy
  | none =>
    have hnone : SlotTable.locate reusable taken = none := SlotTable.locate_eq_none_iff.mpr hkept
    simp only [Option.toList_none, List.append_nil, hnone] at hr
    split at hr
    · cases hr
    cases hr
    refine ⟨⟨⟨taken ++ [({} : OrderSlot)], (List.append_nil _).symm, ?_⟩, ha.terms⟩, fun y hy => ?_⟩
    · intro z hz
      rcases List.mem_append.mp hz with hz | hz
      · exact htaken z hz
      · rw [List.mem_singleton.mp hz]
        exact ⟨orphan_default, rfl⟩
    · rw [set_split taken [] {} y]
      exact hwritten y hy

/-- The slots of a submit while no order is live: refused, they hold what they did; accepted, the new
order is the one they hold. -/
theorem submit_alone (ha : Alone symbolId b.slots x) (hended : ∀ y ∈ x, y.order.state.isTerminal = true)
    {q : OrderRequest} (hsymbol : q.symbolId = symbolId) (hentry : q.reduceOnly = false)
    (hexpire : q.expireNs = 0) (nowNs : Nat) :
    Clerical b.books (b.submit q nowNs).2.books ∧
      (((b.submit q nowNs).1.accepted = false ∧ Alone symbolId (b.submit q nowNs).2.slots x) ∨
        ((b.submit q nowNs).1.accepted = true ∧ ∃ y, Alone symbolId (b.submit q nowNs).2.slots (some y) ∧
          y.order.state = .sent ∧ y.order.ref = (b.submit q nowNs).1.ref)) := by
  have hrejected : ∀ (b : PaperBroker) reason, Clerical b.books (b.reject q nowNs reason).2.books :=
    fun b reason => ⟨rfl, rfl, rfl, rfl, rfl, rfl, rfl, rfl, rfl, rfl, rfl, id⟩
  rcases submit_cases b q nowNs with ⟨reason, -, heq⟩ | ⟨-, -, heq⟩ | ⟨r, reason, -, hr, -, heq⟩ |
    ⟨r, -, hr, -, heq⟩
  · rw [heq]
    exact ⟨hrejected b reason, Or.inl ⟨rfl, ha⟩⟩
  · rw [heq]
    exact ⟨hrejected b .corruptedState, Or.inl ⟨rfl, ha⟩⟩
  · rw [heq]
    exact ⟨hrejected { b with slots := r.2 } reason, Or.inl ⟨rfl, (allocate_alone ha hended hr).1⟩⟩
  · rw [heq]
    refine ⟨clerical_accept { b with slots := r.2 } r.1 q nowNs,
      Or.inr ⟨rfl, acceptedSlot { b with slots := r.2 } q nowNs, ?_, rfl, rfl⟩⟩
    rw [accept_slots]
    exact (allocate_alone ha hended hr).2 _ ⟨hsymbol, hentry, hexpire⟩

/-- Looking up a reference that is not the default one finds the order or nothing. -/
theorem findOrder_alone (ha : Alone symbolId b.slots x) {ref : BrokerOrderRef}
    (href : ref.logicalOrderId ≠ 0) : b.findOrder ref = (x.filter fun y => y.order.ref == ref).map (·.order) := by
  obtain ⟨taken, hslots, htaken⟩ := ha.slots
  have hpassed : taken.find? (fun z => z.order.ref == ref) = none := by
    rw [List.find?_eq_none]
    intro z hz heq
    rw [beq_iff_eq, (htaken z hz).1.ref] at heq
    exact href (congrArg BrokerOrderRef.logicalOrderId heq).symm
  unfold findOrder
  rw [hslots, List.find?_append, hpassed, Option.none_or]
  cases x with
  | none => rfl
  | some x =>
    by_cases hx : x.order.ref = ref
    · simp [hx]
    · simp [hx]

end PaperBroker

end MicrostructureEngine.Exec
