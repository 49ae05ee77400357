import MicrostructureEngine.Exec.OrderSlots

/-!
# What a fill does to the position book

The four position paths of `apply_to_position` (open, add to a ticket, reduce a ticket, net
and flip), as one relation between the tickets before and after. It keeps what the later
results need: which ticket was chosen and why, and by how much its volume moved.
-/

namespace MicrostructureEngine.Exec

set_option autoImplicit false

/-- What a fill asks of the position book. -/
structure Intent where
  hedging : Bool
  reduceOnly : Bool
  symbolId : Nat
  side : Side
  volume : Int
  deriving DecidableEq, Repr

def intent (hedging : Bool) (o : Order) (volume : Int) : Intent :=
  ⟨hedging, o.reduceOnly, o.symbolId, o.side, volume⟩

namespace Intent

/-- The signed volume that the fill should add to the net volume of a symbol. -/
def signed (i : Intent) (symbolId : Nat) : Int :=
  if i.symbolId = symbolId then (if i.side = .buy then i.volume else -i.volume) else 0

/-- The fill takes the path that only reduces. -/
def reduces (i : Intent) : Bool := i.hedging && i.reduceOnly

/-- A ticket that a `reduce_only` order of the side can reduce. -/
structure Reducible (i : Intent) (p : Position) : Prop where
  symbolId : p.symbolId = i.symbolId
  side : p.side = Books.opposite i.side
  working : isClosed p = false
  volume : 0 < p.volume

/-- The fresh ticket of a fill, with the volume it opens. -/
structure Fresh (i : Intent) (size : Int) (number : UInt64) (p : Position) : Prop where
  ticket : p.positionTicket = number
  symbolId : p.symbolId = i.symbolId
  side : p.side = i.side
  working : isClosed p = false
  volume : p.volume = size

end Intent

/-- `p'` is the ticket `p` with another volume; a ticket without volume is closed. -/
structure Resized (p p' : Position) (size : Int) : Prop where
  ticket : p'.positionTicket = p.positionTicket
  symbolId : p'.symbolId = p.symbolId
  side : p'.side = p.side
  volume : p'.volume = size
  working : isClosed p' = decide (size = 0)

/-- A ticket placed in the book: in a closed slot, or in the next unused one. -/
inductive Placed (p : Position) : List Position → List Position → Prop
  | reused {l : List Position} {q : Position} {r : List Position} (closed : isClosed q = true) :
      Placed p (l ++ q :: r) (l ++ p :: r)
  | appended {l : List Position} (room : l.length < maxPositions) : Placed p l (l ++ [p])

theorem Placed.mem {p : Position} {l l' : List Position} (h : Placed p l l') : p ∈ l' := by
  cases h with
  | reused => exact List.mem_append_right _ List.mem_cons_self
  | appended => exact List.mem_append_right _ List.mem_cons_self

theorem Placed.mem_cases {p q : Position} {l l' : List Position} (h : Placed p l l') (hq : q ∈ l') :
    q = p ∨ q ∈ l := by
  cases h with
  | reused =>
    simp only [List.mem_append, List.mem_cons] at hq ⊢
    tauto
  | appended =>
    simp only [List.mem_append, List.mem_singleton] at hq
    tauto

/-- There was a slot for the ticket. -/
theorem Placed.room {p : Position} {l l' : List Position} (h : Placed p l l') :
    (∃ q ∈ l, isClosed q = true) ∨ l.length < maxPositions := by
  cases h with
  | reused closed => exact Or.inl ⟨_, List.mem_append_right _ List.mem_cons_self, closed⟩
  | appended room => exact Or.inr room

/-- The tickets as a fill sees them: the book, the last ticket given out, the order's own ticket. -/
structure Tickets where
  book : List Position
  seq : UInt64
  own : UInt64

/-- The position a fill of an order with an own ticket, or of a netted symbol, goes to. -/
def Intent.Targets (i : Intent) (own : UInt64) (p : Position) : Prop :=
  isClosed p = false ∧
    if i.hedging then own ≠ 0 ∧ p.positionTicket = own else p.symbolId = i.symbolId

inductive Booking (i : Intent) : Tickets → Tickets → Prop
  /-- Nothing to reduce: the broker halts and the fill is not booked. -/
  | unreducible {t : Tickets} (mode : i.reduces = true) (missing : ∀ p ∈ t.book, ¬ i.Reducible p) :
      Booking i t t
  /-- The first reducible ticket is reduced, at most to nothing. -/
  | reduced {l r : List Position} {p p' : Position} {seq own : UInt64} (mode : i.reduces = true)
      (found : i.Reducible p) (first : ∀ q ∈ l, ¬ i.Reducible q)
      (resized : Resized p p' (p.volume - min i.volume p.volume)) :
      Booking i ⟨l ++ p :: r, seq, own⟩ ⟨l ++ p' :: r, seq, own⟩
  /-- No slot for a fresh ticket: the broker halts and the fill is not booked. -/
  | full {t : Tickets} (mode : i.reduces = false) (untargeted : ∀ p ∈ t.book, ¬ i.Targets t.own p)
      (occupied : ∀ p ∈ t.book, isClosed p = false) (limit : maxPositions ≤ t.book.length) :
      Booking i t { t with seq := t.seq + 1 }
  | opened {t : Tickets} {p : Position} {book : List Position} (mode : i.reduces = false)
      (untargeted : ∀ p ∈ t.book, ¬ i.Targets t.own p) (fresh : i.Fresh i.volume (t.seq + 1) p)
      (placed : Placed p t.book book) :
      Booking i t ⟨book, t.seq + 1, if i.hedging then t.seq + 1 else t.own⟩
  | added {l r : List Position} {p p' : Position} {seq own : UInt64} (mode : i.reduces = false)
      (found : i.Targets own p) (first : ∀ q ∈ l, ¬ i.Targets own q)
      (side : i.hedging = false → p.side = i.side)
      (resized : 0 < p.volume + i.volume → Resized p p' (p.volume + i.volume)) :
      Booking i ⟨l ++ p :: r, seq, own⟩ ⟨l ++ p' :: r, seq, own⟩
  /-- Netting against an opposite position that is at least as large. -/
  | netted {l r : List Position} {p p' : Position} {seq own : UInt64} (mode : i.hedging = false)
      (found : i.Targets own p) (first : ∀ q ∈ l, ¬ i.Targets own q) (side : p.side ≠ i.side)
      (covered : i.volume ≤ p.volume) (resized : Resized p p' (p.volume - i.volume)) :
      Booking i ⟨l ++ p :: r, seq, own⟩ ⟨l ++ p' :: r, seq, own⟩
  /-- Netting against an opposite position that is smaller: the rest opens a fresh ticket. -/
  | flipped {l r book : List Position} {p p' q : Position} {seq own : UInt64} (mode : i.hedging = false)
      (found : i.Targets own p) (first : ∀ q ∈ l, ¬ i.Targets own q) (side : p.side ≠ i.side)
      (exceeded : p.volume < i.volume) (resized : Resized p p' 0)
      (fresh : i.Fresh (i.volume - p.volume) (seq + 1) q) (placed : Placed q (l ++ p' :: r) book) :
      Booking i ⟨l ++ p :: r, seq, own⟩ ⟨book, seq + 1, own⟩

/-! ## The model takes one of these paths -/

theorem resized_closeAgainst (spec : SymbolSpec) {p : Position} (priceTicks volume : Int) (nowNs : Nat)
    (hp : isClosed p = false) :
    Resized p (Books.closeAgainst spec p priceTicks volume nowNs).2.2 (p.volume - min volume p.volume) := by
  have hmin : (if volume < p.volume then volume else p.volume) = min volume p.volume := by
    split <;> omega
  unfold Books.closeAgainst
  dsimp only
  rw [hmin]
  split
  · rename_i hzero
    exact ⟨rfl, rfl, rfl, rfl, by rw [hzero]; rfl⟩
  · rename_i hzero
    refine ⟨rfl, rfl, rfl, rfl, ?_⟩
    rw [decide_eq_false hzero]
    exact hp

theorem resized_add {p : Position} {volume : Int} (priceTicks : Int) (hp : isClosed p = false)
    (hpos : 0 < p.volume + volume) :
    Resized p (PositionBook.add p volume priceTicks) (p.volume + volume) := by
  unfold PositionBook.add
  dsimp only
  rw [if_neg (Int.not_le.mpr hpos)]
  refine ⟨rfl, rfl, rfl, rfl, ?_⟩
  rw [decide_eq_false (by omega)]
  exact hp

theorem placed_allocate {l : List Position} {s : Nat × List Position}
    (h : SlotTable.allocate isClosed maxPositions {} l = some s) (p : Position) :
    Placed p l (s.2.set s.1 p) ∧ (s.2.set s.1 p)[s.1]? = some p := by
  rcases SlotTable.allocate_eq_some h with ⟨l₁, q, l₂, rfl, rfl, hq⟩ | ⟨-, hroom, rfl⟩
  · have hset : (l₁ ++ q :: l₂).set l₁.length p = l₁ ++ p :: l₂ := by
      rw [List.set_append_right _ _ (Nat.le_refl _), Nat.sub_self, List.set_cons_zero]
    dsimp only
    rw [hset]
    exact ⟨Placed.reused hq, by simp⟩
  · have hset : (l ++ [({} : Position)]).set l.length p = l ++ [p] := by
      rw [List.set_append_right _ _ (Nat.le_refl _), Nat.sub_self, List.set_cons_zero]
    dsimp only
    rw [hset]
    exact ⟨Placed.appended hroom, by simp⟩

namespace Books

variable (b : Books) (x : OrderSlot) (priceTicks volume : Int) (nowNs : Nat)

/-- The tickets as the order in the slot sees them. -/
def tickets (b : Books) (x : OrderSlot) : Tickets := ⟨b.positions.positions, b.ticketSeq, x.ticket⟩

/-- A fresh ticket: no slot, or the ticket placed in the book. -/
theorem openFor_cases {i : Intent} {o : Order} (hsymbol : o.symbolId = i.symbolId)
    (hside : o.side = i.side) :
    ((∀ p ∈ b.positions.positions, isClosed p = false) ∧
      maxPositions ≤ b.positions.positions.length ∧
      ∃ c, b.openFor o priceTicks volume nowNs = (c, none) ∧ c.positions = b.positions ∧
        c.ticketSeq = b.ticketSeq + 1) ∨
    ∃ c p, b.openFor o priceTicks volume nowNs = (c, some p) ∧ i.Fresh volume (b.ticketSeq + 1) p ∧
      Placed p b.positions.positions c.positions.positions ∧ c.ticketSeq = b.ticketSeq + 1 := by
  unfold openFor PositionBook.openTicket
  dsimp only
  cases halloc : SlotTable.allocate isClosed maxPositions {} b.positions.positions with
  | none =>
    obtain ⟨hfull, hlimit⟩ := SlotTable.allocate_eq_none_iff.mp halloc
    have hhalt := clerical_halt { b with ticketSeq := b.ticketSeq + 1 } .corruptedState
    exact Or.inl ⟨hfull, hlimit, _, rfl, hhalt.positions, hhalt.ticketSeq⟩
  | some s =>
    have hplaced := placed_allocate halloc
      { positionTicket := b.ticketSeq + 1, symbolId := o.symbolId, side := o.side, state := .opened,
        volume := volume, avgPriceTicks := priceTicks, openedNs := nowNs }
    refine Or.inr ⟨_, _, Prod.ext rfl hplaced.2, ?_, hplaced.1, rfl⟩
    exact ⟨rfl, hsymbol, hside, rfl, rfl⟩

theorem booking_reduceTicket (hmode : b.config.hedging = true ∧ x.order.reduceOnly = true) :
    Booking (intent b.config.hedging x.order volume) (b.tickets x)
      ((b.reduceTicket x priceTicks volume nowNs).tickets x) := by
  have hreduces : (intent b.config.hedging x.order volume).reduces = true := by
    simp [Intent.reduces, intent, hmode.1, hmode.2]
  have hpred : ∀ p, (p.symbolId == x.order.symbolId && p.side == opposite x.order.side &&
      !isClosed p && decide (p.volume > 0)) = true ↔
        (intent b.config.hedging x.order volume).Reducible p := by
    intro p
    simp only [Bool.and_eq_true, beq_iff_eq, Bool.not_eq_true', decide_eq_true_eq]
    exact ⟨fun h => ⟨h.1.1.1, h.1.1.2, h.1.2, h.2⟩, fun h => ⟨⟨⟨h.symbolId, h.side⟩, h.working⟩, h.volume⟩⟩
  unfold reduceTicket
  dsimp only
  cases hfind : b.findReducible x.order.symbolId x.order.side with
  | none =>
    have hhalt := clerical_halt b .reduceOnlyNoPosition
    dsimp only
    unfold tickets
    rw [hhalt.positions, hhalt.ticketSeq]
    refine Booking.unreducible hreduces fun p hp hr => ?_
    have habs := SlotTable.locate_eq_none_iff.mp hfind p hp
    rw [(hpred p).mpr hr] at habs
    cases habs
  | some s =>
    obtain ⟨slot, p⟩ := s
    obtain ⟨l, r, hsplit, rfl, hp, hfirst⟩ := SlotTable.locate_eq_some hfind
    have hfound := (hpred p).mp hp
    dsimp only at hsplit ⊢
    unfold tickets journalPosition PositionBook.write
    dsimp only
    rw [hsplit, List.set_append_right _ _ (Nat.le_refl _), Nat.sub_self, List.set_cons_zero]
    refine Booking.reduced hreduces hfound (fun q hq hr => ?_)
      (resized_closeAgainst _ priceTicks volume nowNs hfound.working)
    have habs := hfirst q hq
    rw [(hpred q).mpr hr] at habs
    cases habs

/-- An entry that found no ticket of its own opens one, or finds the book full. -/
theorem booking_openFor {i : Intent} {o : Order} {own : UInt64} (hsymbol : o.symbolId = i.symbolId)
    (hside : o.side = i.side) (hvolume : volume = i.volume) (hmode : i.reduces = false)
    (huntargeted : ∀ p ∈ b.positions.positions, ¬ i.Targets own p) :
    (∃ c, b.openFor o priceTicks volume nowNs = (c, none) ∧
      Booking i ⟨b.positions.positions, b.ticketSeq, own⟩ ⟨c.positions.positions, c.ticketSeq, own⟩) ∨
    ∃ c p, b.openFor o priceTicks volume nowNs = (c, some p) ∧ p.positionTicket = b.ticketSeq + 1 ∧
      Booking i ⟨b.positions.positions, b.ticketSeq, own⟩
        ⟨c.positions.positions, c.ticketSeq, if i.hedging then b.ticketSeq + 1 else own⟩ := by
  subst hvolume
  rcases openFor_cases b priceTicks i.volume nowNs hsymbol hside with
    ⟨hfull, hlimit, c, heq, hpositions, hseq⟩ | ⟨c, p, heq, hfresh, hplaced, hseq⟩
  · refine Or.inl ⟨c, heq, ?_⟩
    rw [hpositions, hseq]
    exact Booking.full hmode huntargeted hfull hlimit
  · refine Or.inr ⟨c, p, heq, hfresh.ticket, ?_⟩
    rw [hseq]
    exact Booking.opened hmode huntargeted hfresh hplaced

theorem booking_hedgeTicket (hhedging : b.config.hedging = true) (hentry : x.order.reduceOnly = false) :
    Booking (intent b.config.hedging x.order volume) (b.tickets x)
      ((b.hedgeTicket x priceTicks volume nowNs).1.tickets (b.hedgeTicket x priceTicks volume nowNs).2) := by
  have hmode : (intent b.config.hedging x.order volume).reduces = false := by
    simp [Intent.reduces, intent, hentry]
  have htargets : ∀ p, (intent b.config.hedging x.order volume).Targets x.ticket p ↔
      x.ticket ≠ 0 ∧ (p.positionTicket == x.ticket && !isClosed p) = true := by
    intro p
    unfold Intent.Targets intent
    simp only [hhedging, if_true, Bool.and_eq_true, beq_iff_eq, Bool.not_eq_true']
    exact ⟨fun h => ⟨h.2.1, h.2.2, h.1⟩, fun h => ⟨h.2.2, h.1, h.2.1⟩⟩
  unfold hedgeTicket
  dsimp only
  cases hown : (if x.ticket ≠ 0 then b.positions.find x.ticket else none) with
  | none =>
    have huntargeted : ∀ p ∈ b.positions.positions,
        ¬ (intent b.config.hedging x.order volume).Targets x.ticket p := by
      intro p hp ht
      obtain ⟨hne, hpred⟩ := (htargets p).mp ht
      rw [if_pos hne] at hown
      have habs := SlotTable.locate_eq_none_iff.mp hown p hp
      rw [hpred] at habs
      cases habs
    rcases booking_openFor b priceTicks volume nowNs (i := intent b.config.hedging x.order volume)
      (o := x.order) rfl rfl rfl hmode huntargeted with ⟨c, heq, hbooking⟩ | ⟨c, p, heq, hticket, hbooking⟩
    · rw [heq]
      exact hbooking
    · rw [heq]
      rw [show (intent b.config.hedging x.order volume).hedging = true from hhedging, if_pos rfl] at hbooking
      unfold tickets journalPosition
      dsimp only
      rw [hticket]
      exact hbooking
  | some s =>
    obtain ⟨slot, p⟩ := s
    have hne : x.ticket ≠ 0 := by
      intro hzero
      rw [if_neg (not_not.mpr hzero)] at hown
      cases hown
    rw [if_pos hne] at hown
    obtain ⟨l, r, hsplit, rfl, hp, hfirst⟩ := SlotTable.locate_eq_some hown
    have hfound := (htargets p).mpr ⟨hne, hp⟩
    dsimp only at hsplit ⊢
    unfold tickets journalPosition PositionBook.write
    dsimp only
    rw [hsplit, List.set_append_right _ _ (Nat.le_refl _), Nat.sub_self, List.set_cons_zero]
    refine Booking.added hmode hfound (fun q hq ht => ?_) ?_ (resized_add priceTicks hfound.1)
    · have habs := hfirst q hq
      rw [((htargets q).mp ht).2] at habs
      cases habs
    · intro hnet
      rw [show (intent b.config.hedging x.order volume).hedging = true from hhedging] at hnet
      cases hnet

theorem booking_netTicket (hnetting : b.config.hedging = false) :
    Booking (intent b.config.hedging x.order volume) (b.tickets x)
      ((b.netTicket x priceTicks volume nowNs).tickets x) := by
  have hmode : (intent b.config.hedging x.order volume).reduces = false := by
    simp [Intent.reduces, intent, hnetting]
  have htargets : ∀ p, (intent b.config.hedging x.order volume).Targets x.ticket p ↔
      (p.symbolId == x.order.symbolId && !isClosed p) = true := by
    intro p
    unfold Intent.Targets intent
    simp [hnetting, and_comm]
  unfold netTicket
  dsimp only
  cases hfind : b.findSymbolPosition x.order.symbolId with
  | none =>
    have huntargeted : ∀ p ∈ b.positions.positions,
        ¬ (intent b.config.hedging x.order volume).Targets x.ticket p := by
      intro p hp ht
      have habs := SlotTable.locate_eq_none_iff.mp hfind p hp
      rw [(htargets p).mp ht] at habs
      cases habs
    rcases booking_openFor b priceTicks volume nowNs (i := intent b.config.hedging x.order volume)
      (o := x.order) rfl rfl rfl hmode huntargeted with ⟨c, heq, hbooking⟩ | ⟨c, p, heq, -, hbooking⟩
    · rw [heq]
      exact hbooking
    · rw [heq]
      rw [show (intent b.config.hedging x.order volume).hedging = false from hnetting] at hbooking
      exact hbooking
  | some s =>
    obtain ⟨slot, p⟩ := s
    obtain ⟨l, r, hsplit, rfl, hp, hfirst⟩ := SlotTable.locate_eq_some hfind
    have hfound := (htargets p).mpr hp
    have huntargeted : ∀ q ∈ l, ¬ (intent b.config.hedging x.order volume).Targets x.ticket q := by
      intro q hq ht
      have habs := hfirst q hq
      rw [(htargets q).mp ht] at habs
      cases habs
    have hwrite : ∀ q, (l ++ p :: r).set l.length q = l ++ q :: r := by
      intro q
      rw [List.set_append_right _ _ (Nat.le_refl _), Nat.sub_self, List.set_cons_zero]
    dsimp only at hsplit ⊢
    split
    · rename_i hside
      unfold tickets journalPosition PositionBook.write
      dsimp only
      rw [hsplit, hwrite]
      exact Booking.added hmode hfound huntargeted (fun _ => hside) (resized_add priceTicks hfound.1)
    · rename_i hside
      have hresized := resized_closeAgainst (b.specs x.order.symbolId) priceTicks volume nowNs hfound.1
      have hclosing : (closeAgainst (b.specs x.order.symbolId) p priceTicks volume nowNs).1 =
          min volume p.volume := by
        unfold closeAgainst
        dsimp only
        split <;> omega
      generalize closeAgainst (b.specs x.order.symbolId) p priceTicks volume nowNs = c at hresized hclosing
      have hbook : (b.positions.write l.length c.2.2).positions = l ++ c.2.2 :: r := by
        unfold PositionBook.write
        rw [hsplit, hwrite]
      have hzero : c.2.2.volume = p.volume - min volume p.volume := hresized.volume
      split
      · rename_i hflip
        have hexceeded : p.volume < volume := by omega
        have hmin : p.volume - min volume p.volume = 0 := by omega
        have hrest : volume - c.1 = volume - p.volume := by omega
        rw [hmin] at hresized
        rcases openFor_cases { b.realize c.2.1 with positions := b.positions.write l.length c.2.2 }
          priceTicks (volume - c.1) nowNs (i := intent b.config.hedging x.order volume) (o := x.order)
          rfl rfl with ⟨hfull, -, -⟩ | ⟨d, q, heq, hfresh, hplaced, hseq⟩
        · have habs := hfull c.2.2 (by rw [hbook]; simp)
          rw [hresized.working] at habs
          cases habs
        · rw [heq]
          unfold tickets journalPosition
          dsimp only
          rw [hbook] at hplaced
          rw [hrest] at hfresh
          rw [hseq, hsplit]
          exact Booking.flipped hnetting hfound huntargeted hside hexceeded hresized hfresh hplaced
      · rename_i hkeep
        have hcovered : volume ≤ p.volume := by
          by_contra hlt
          exact hkeep ⟨by omega, by omega⟩
        have hmin : min volume p.volume = volume := by omega
        rw [hmin] at hresized
        unfold tickets journalPosition
        dsimp only
        rw [hbook, hsplit]
        exact Booking.netted hnetting hfound huntargeted hside hcovered hresized

theorem booking_applyToPosition :
    Booking (intent b.config.hedging x.order volume) (b.tickets x)
      ((b.applyToPosition x priceTicks volume nowNs).1.tickets
        (b.applyToPosition x priceTicks volume nowNs).2) := by
  unfold applyToPosition
  cases hhedging : b.config.hedging with
  | false =>
    have h := booking_netTicket b x priceTicks volume nowNs hhedging
    rw [hhedging] at h
    exact h
  | true =>
    cases hreduce : x.order.reduceOnly with
    | true =>
      have h := booking_reduceTicket b x priceTicks volume nowNs ⟨hhedging, hreduce⟩
      rw [hhedging] at h
      exact h
    | false =>
      have h := booking_hedgeTicket b x priceTicks volume nowNs hhedging hreduce
      rw [hhedging] at h
      exact h

/-- A booked fill, in the terms of the order before it. -/
theorem booking_bookFill :
    Booking (intent b.config.hedging x.order volume) (b.tickets x)
      ((b.bookFill x priceTicks volume nowNs).1.tickets (b.bookFill x priceTicks volume nowNs).2) :=
  booking_applyToPosition (b.charge (CommissionModel.chargeMinor (b.specs x.order.symbolId) volume))
    (b.filledSlot x priceTicks volume) priceTicks volume nowNs

end Books

end MicrostructureEngine.Exec
