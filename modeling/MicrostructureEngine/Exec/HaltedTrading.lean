import MicrostructureEngine.Exec.FillGates
import MicrostructureEngine.Exec.FillHistory

/-!
# Trading after the halt

The halt can latch in the turn of one order while the orders behind it are still waiting in the
loop, and the loop does not look at it again. It also latches when a fill finds no place in the
position book, and the rest of `apply_fill` goes on to mark the order filled.
-/

namespace MicrostructureEngine.Exec

set_option autoImplicit false

open Books PaperBroker

/-- What a halted broker should not move any more. -/
structure Figures where
  fillCount : Nat
  positions : PositionBook
  realizedPnlMinor : Int
  commissionPaidMinor : Int
  balanceMinor : Int
  deriving DecidableEq, Repr

def figures (b : Books) : Figures where
  fillCount := b.fillCount
  positions := b.positions
  realizedPnlMinor := b.account.realizedPnlMinor
  commissionPaidMinor := b.account.commissionPaidMinor
  balanceMinor := b.account.balanceMinor

theorem Clerical.figures {b b' : Books} (h : Clerical b b') : figures b' = figures b := by
  unfold Exec.figures
  rw [h.fillCount, h.positions, h.realized, h.commission, h.balance]

/-! ## The loop behind a latched halt -/

/-- The books as they are when the halt latches in the loop, the turn that latched it completed. -/
def untilHalt (nowNs : Nat) : Books → List OrderSlot → Books
  | b, [] => b
  | b, x :: xs => if b.halted then b else untilHalt nowNs (b.processSlot x nowNs).1 xs

/-- No turn that finds the broker halted has a fill to book. -/
def QuietLoop (nowNs : Nat) : Books → List OrderSlot → Prop
  | _, [] => True
  | b, x :: xs =>
    (b.halted = true → b.turnFill x nowNs = none) ∧ QuietLoop nowNs (b.processSlot x nowNs).1 xs

instance QuietLoop.decidable (nowNs : Nat) :
    ∀ (b : Books) (xs : List OrderSlot), Decidable (QuietLoop nowNs b xs)
  | _, [] => isTrue trivial
  | b, x :: xs =>
    have := QuietLoop.decidable nowNs (b.processSlot x nowNs).1 xs
    inferInstanceAs (Decidable ((b.halted = true → b.turnFill x nowNs = none) ∧
      QuietLoop nowNs (b.processSlot x nowNs).1 xs))

section Loop

variable {b : Books} {nowNs : Nat}

theorem processSlot_halted (h : b.halted = true) (x : OrderSlot) :
    (b.processSlot x nowNs).1.halted = true := by
  rcases processSlot_books b x nowNs with hclerical | ⟨c, price, volume, hready, -, heq⟩
  · exact hclerical.halted h
  · rw [heq]
    exact (booked_applyFill c.1 c.2 price volume nowNs).halted (hready.clerical.halted h)

theorem processSlots_halted (h : b.halted = true) (xs : List OrderSlot) :
    (b.processSlots nowNs xs).1.halted = true := by
  induction xs generalizing b with
  | nil => exact h
  | cons x xs ih => exact ih (processSlot_halted h x)

/-- A turn counts one fill, or none. -/
theorem processSlot_fillCount (b : Books) (x : OrderSlot) (nowNs : Nat) :
    (b.turnFill x nowNs = none ∧ figures (b.processSlot x nowNs).1 = figures b) ∨
      (b.turnFill x nowNs ≠ none ∧ (b.processSlot x nowNs).1.fillCount = b.fillCount + 1) := by
  cases h : b.turnFill x nowNs with
  | none => exact Or.inl ⟨rfl, (clerical_of_turnFill_none h).figures⟩
  | some fill =>
    obtain ⟨c, hready, -, heq⟩ := processSlot_of_turnFill h
    refine Or.inr ⟨nofun, ?_⟩
    rw [heq, (booked_applyFill c.1 c.2 fill.1 fill.2 nowNs).fillCount, hready.clerical.fillCount]

theorem fillCount_le_processSlots (b : Books) (nowNs : Nat) (xs : List OrderSlot) :
    b.fillCount ≤ (b.processSlots nowNs xs).1.fillCount := by
  induction xs generalizing b with
  | nil => exact Nat.le_refl _
  | cons x xs ih =>
    have hrest := ih (b.processSlot x nowNs).1
    rcases processSlot_fillCount b x nowNs with ⟨-, hsame⟩ | ⟨-, hnext⟩
    · rw [show (b.processSlot x nowNs).1.fillCount = b.fillCount from congrArg Figures.fillCount hsame]
        at hrest
      exact hrest
    · exact Nat.le_trans (by omega) hrest

/-- Behind a latched halt the figures stay exactly when no turn has a fill to book. -/
theorem figures_of_halted (h : b.halted = true) (xs : List OrderSlot) :
    figures (b.processSlots nowNs xs).1 = figures b ↔ QuietLoop nowNs b xs := by
  induction xs generalizing b with
  | nil => exact ⟨fun _ => trivial, fun _ => rfl⟩
  | cons x xs ih =>
    have hhalted : (b.processSlot x nowNs).1.halted = true := processSlot_halted h x
    have hrest := ih hhalted
    have hcount := fillCount_le_processSlots (b.processSlot x nowNs).1 nowNs xs
    rcases processSlot_fillCount b x nowNs with ⟨hnone, hsame⟩ | ⟨hsome, hnext⟩
    · rw [hsame] at hrest
      exact hrest.trans ⟨fun hq => ⟨fun _ => hnone, hq⟩, fun hq => hq.2⟩
    · constructor
      · intro hfigures
        have hfinal : (b.processSlots nowNs (x :: xs)).1.fillCount = b.fillCount :=
          congrArg Figures.fillCount hfigures
        have hle : (b.processSlot x nowNs).1.fillCount ≤ (b.processSlots nowNs (x :: xs)).1.fillCount := hcount
        omega
      · intro hquiet
        exact absurd (hquiet.1 h) hsome

theorem figures_untilHalt (b : Books) (nowNs : Nat) (xs : List OrderSlot) :
    figures (b.processSlots nowNs xs).1 = figures (untilHalt nowNs b xs) ↔ QuietLoop nowNs b xs := by
  induction xs generalizing b with
  | nil => exact ⟨fun _ => trivial, fun _ => rfl⟩
  | cons x xs ih =>
    unfold untilHalt
    split
    · rename_i hhalted
      exact figures_of_halted hhalted (x :: xs)
    · rename_i hrunning
      exact (ih (b.processSlot x nowNs).1).trans
        ⟨fun hq => ⟨fun hhalted => absurd hhalted hrunning, hq⟩, fun hq => hq.2⟩

/-- A loop that ends without a halt met none on its way. -/
theorem quietLoop_of_running {xs : List OrderSlot} (h : (b.processSlots nowNs xs).1.halted = false) :
    QuietLoop nowNs b xs := by
  induction xs generalizing b with
  | nil => trivial
  | cons x xs ih =>
    refine ⟨fun hhalted => ?_, ih h⟩
    rw [processSlots_halted hhalted (x :: xs)] at h
    cases h

end Loop

/-! ## Fills without a place in the position book -/

/-- No position takes the fill: there is nothing to reduce, or no ticket of the order and no slot
for a new one. -/
def Intent.Unplaced (i : Intent) (t : Tickets) : Prop :=
  (i.reduces = true ∧ ∀ p ∈ t.book, ¬ i.Reducible p) ∨
    (i.reduces = false ∧ (∀ p ∈ t.book, ¬ i.Targets t.own p) ∧ (∀ p ∈ t.book, isClosed p = false) ∧
      maxPositions ≤ t.book.length)

theorem Resized.ne {p p' : Position} {size : Int} (h : Resized p p' size) (hsize : size ≠ p.volume) :
    p' ≠ p := by
  rintro rfl
  exact hsize h.volume.symm

theorem replaced_ne {l r : List Position} {p p' : Position} (h : p' ≠ p) : l ++ p' :: r ≠ l ++ p :: r := by
  intro heq
  rw [List.append_cancel_left_eq, List.cons.injEq] at heq
  exact h heq.1

theorem Placed.ne {p : Position} {l l' : List Position} (h : Placed p l l') (hp : isClosed p = false) :
    l' ≠ l := by
  cases h with
  | reused closed =>
    apply replaced_ne
    rintro rfl
    rw [hp] at closed
    cases closed
  | appended room =>
    intro heq
    have hlength := congrArg List.length heq
    rw [List.length_append] at hlength
    exact absurd hlength (by simp)

/-- The position is open and on the side. -/
def onSide (side : Side) (q : Position) : Bool := !isClosed q && q.side == side

/-- Placing a ticket of the other side adds nothing to a side. -/
theorem Placed.countP {p : Position} {l l' : List Position} (h : Placed p l l') {side : Side}
    (hside : p.side ≠ side) : l'.countP (onSide side) = l.countP (onSide side) := by
  have hp : onSide side p = false := by
    unfold onSide
    rw [Bool.and_eq_false_iff]
    exact Or.inr (beq_false_of_ne hside)
  cases h with
  | reused closed =>
    rename_i q _
    have hq : onSide side q = false := by
      unfold onSide
      rw [closed]
      rfl
    simp [List.countP_append, hp, hq]
  | appended => simp [List.countP_append, hp]

/-- A fill leaves the position book as it was exactly when no position takes it. -/
theorem Booking.book_eq_iff {i : Intent} {t t' : Tickets} (h : Booking i t t') (hvolume : 0 < i.volume)
    (hsound : SoundBook t.book) : t'.book = t.book ↔ i.Unplaced t := by
  cases h with
  | unreducible mode missing => exact ⟨fun _ => Or.inl ⟨mode, missing⟩, fun _ => rfl⟩
  | full mode untargeted occupied limit =>
    exact ⟨fun _ => Or.inr ⟨mode, untargeted, occupied, limit⟩, fun _ => rfl⟩
  | reduced mode found first resized =>
    rename_i p _ _ _
    have hpositive := found.volume
    refine ⟨fun heq => absurd heq (replaced_ne (resized.ne (by omega))), ?_⟩
    rintro (⟨-, hnone⟩ | ⟨hmode, -⟩)
    · exact absurd found (hnone p (List.mem_append_right _ List.mem_cons_self))
    · rw [mode] at hmode
      cases hmode
  | opened mode untargeted fresh placed =>
    refine ⟨fun heq => absurd heq (placed.ne fresh.working), ?_⟩
    rintro (⟨hmode, -⟩ | ⟨-, -, hoccupied, hlimit⟩)
    · rw [mode] at hmode
      cases hmode
    · rcases placed.room with ⟨q, hq, hclosed⟩ | hroom
      · rw [hoccupied q hq] at hclosed
        cases hclosed
      · omega
  | added mode found first side resized =>
    rename_i p _ _ _
    have hpositive := hsound p (List.mem_append_right _ List.mem_cons_self) found.1
    refine ⟨fun heq => absurd heq (replaced_ne ((resized (by omega)).ne (by omega))), ?_⟩
    rintro (⟨hmode, -⟩ | ⟨-, hnone, -, -⟩)
    · rw [mode] at hmode
      cases hmode
    · exact absurd found (hnone p (List.mem_append_right _ List.mem_cons_self))
  | netted mode found first side covered resized =>
    rename_i p _ _ _
    refine ⟨fun heq => absurd heq (replaced_ne (resized.ne (by omega))), ?_⟩
    rintro (⟨hmode, -⟩ | ⟨-, hnone, -, -⟩)
    · unfold Intent.reduces at hmode
      rw [mode] at hmode
      cases hmode
    · exact absurd found (hnone p (List.mem_append_right _ List.mem_cons_self))
  | flipped mode found first side exceeded resized fresh placed =>
    rename_i l r book p p' q _ _
    constructor
    · intro heq
      have hother : q.side ≠ p.side := by
        rw [fresh.side]
        exact side.symm
      have hcount := placed.countP hother
      have hopen : onSide p.side p = true := by
        unfold onSide
        rw [found.1]
        simp
      have hclosed : onSide p.side p' = false := by
        unfold onSide
        rw [resized.working]
        rfl
      rw [show book = l ++ p :: r from heq] at hcount
      simp [List.countP_append, hopen, hclosed] at hcount
    · rintro (⟨hmode, -⟩ | ⟨-, hnone, -, -⟩)
      · unfold Intent.reduces at hmode
        rw [mode] at hmode
        cases hmode
      · exact absurd found (hnone p (List.mem_append_right _ List.mem_cons_self))

/-- A turn that books a fill without moving a position leaves its order unfilled. -/
def HonestTurn (b : Books) (x : OrderSlot) (nowNs : Nat) : Prop :=
  (b.processSlot x nowNs).1.fillCount ≠ b.fillCount →
    (b.processSlot x nowNs).1.positions = b.positions →
      (b.processSlot x nowNs).2.order.state ≠ .filled

/-- A fill that completes its order finds a position to go to. -/
def BookedTurn (b : Books) (x : OrderSlot) (nowNs : Nat) : Prop :=
  ∀ fill ∈ b.turnFill x nowNs, fill.2 = x.order.remaining →
    ¬ (intent b.config.hedging x.order fill.2).Unplaced (b.tickets x)

/-- A fill that leaves nothing makes the order filled, another one does not. -/
theorem applyFill_state {b : Books} {x : OrderSlot} {price volume : Int}
    (hfill : Fillable b x.order price volume) (nowNs : Nat) :
    (b.applyFill x price volume nowNs).2.order.state = .filled ↔ volume = x.order.remaining := by
  have hle := hfill.volume_le
  have hremaining : (b.bookFill x price volume nowNs).2.order.remaining = x.order.remaining - volume := by
    rw [bookFill_slot]
    show x.order.requestedVolume - (x.order.filledVolume + volume) = _
    unfold Order.remaining
    omega
  rcases applyFill_cases b x price volume nowNs rfl with ⟨hended, heq⟩ | ⟨hopen, -, heq⟩ | ⟨hopen, hstate, heq⟩
  · rw [heq]
    exact ⟨fun _ => by omega, fun _ => rfl⟩
  · rw [heq]
    exact ⟨nofun, fun _ => by omega⟩
  · rw [heq]
    dsimp only
    rw [hstate]
    exact ⟨nofun, fun _ => by omega⟩

theorem honestTurn_iff {b : Books} (hsound : SoundBook b.positions.positions) (x : OrderSlot)
    (nowNs : Nat) : HonestTurn b x nowNs ↔ BookedTurn b x nowNs := by
  unfold HonestTurn BookedTurn
  cases h : b.turnFill x nowNs with
  | none =>
    have hcount : (b.processSlot x nowNs).1.fillCount = b.fillCount := (clerical_of_turnFill_none h).fillCount
    exact ⟨fun _ fill hfill => absurd hfill nofun, fun _ hne => absurd hcount hne⟩
  | some fill =>
    obtain ⟨c, hready, hfill, heq⟩ := processSlot_of_turnFill h
    have hclerical := hready.clerical
    have hbooked := booked_applyFill c.1 c.2 fill.1 fill.2 nowNs
    have hbooking := booking_bookFill c.1 c.2 fill.1 fill.2 nowNs
    have hsame : intent c.1.config.hedging c.2.order fill.2 = intent b.config.hedging x.order fill.2 ∧
        c.1.tickets c.2 = b.tickets x ∧ c.2.order.remaining = x.order.remaining := by
      cases hready with
      | standing => exact ⟨rfl, rfl, rfl⟩
      | acknowledged => exact ⟨rfl, rfl, rfl⟩
    rw [hsame.1, hsame.2.1] at hbooking
    have hplace := hbooking.book_eq_iff hfill.volume_pos hsound
    have hpositions : (b.processSlot x nowNs).1.positions = b.positions ↔
        (intent b.config.hedging x.order fill.2).Unplaced (b.tickets x) := by
      rw [← hplace, heq, hbooked.positions]
      exact ⟨fun hp => congrArg PositionBook.positions hp, fun hp => congrArg PositionBook.mk hp⟩
    have hstate : (b.processSlot x nowNs).2.order.state = .filled ↔ fill.2 = x.order.remaining := by
      rw [heq, applyFill_state hfill, hsame.2.2]
    have hcount : (b.processSlot x nowNs).1.fillCount ≠ b.fillCount := by
      rw [heq, hbooked.fillCount, hclerical.fillCount]
      omega
    rw [hpositions]
    constructor
    · intro hhonest fill' hfill' hcomplete hunplaced
      cases hfill'
      exact hhonest hcount hunplaced (hstate.mpr hcomplete)
    · intro hplaced _ hunplaced hfilled
      exact hplaced fill rfl (hstate.mp hfilled) hunplaced

def HonestLoop (nowNs : Nat) : Books → List OrderSlot → Prop
  | _, [] => True
  | b, x :: xs => HonestTurn b x nowNs ∧ HonestLoop nowNs (b.processSlot x nowNs).1 xs

def BookedLoop (nowNs : Nat) : Books → List OrderSlot → Prop
  | _, [] => True
  | b, x :: xs => BookedTurn b x nowNs ∧ BookedLoop nowNs (b.processSlot x nowNs).1 xs

theorem honestLoop_iff {b : Books} (h : History b) (nowNs : Nat) (xs : List OrderSlot) :
    HonestLoop nowNs b xs ↔ BookedLoop nowNs b xs := by
  induction xs generalizing b with
  | nil => exact Iff.rfl
  | cons x xs ih =>
    have hnext : History (b.processSlot x nowNs).1 :=
      history_rule.processSlot (l := []) (r := xs) (x := x) nowNs h
    exact and_congr (honestTurn_iff h.sound x nowNs) (ih hnext)

namespace PaperBroker

/-! ## Steps -/

/-- The books when the halt latches in a step, whatever latched it completed. -/
def atHalt (b : PaperBroker) : Action → Books
  | .onQuote symbolId bid ask bidSize askSize tsNs =>
    if symbolId < maxSymbols ∧ b.books.halted = false then
      untilHalt tsNs (b.quoted symbolId bid ask bidSize askSize tsNs).books
        (b.quoted symbolId bid ask bidSize askSize tsNs).slots
    else (b.onQuote symbolId bid ask bidSize askSize tsNs).books
  | a => (b.step a).books

/-- Once the turn of an order has halted the broker, the quote fills no order behind it. -/
def QuietStep (b : PaperBroker) : Action → Prop
  | .onQuote symbolId bid ask bidSize askSize tsNs =>
    symbolId < maxSymbols → b.books.halted = false →
      QuietLoop tsNs (b.quoted symbolId bid ask bidSize askSize tsNs).books
        (b.quoted symbolId bid ask bidSize askSize tsNs).slots
  | _ => True

/-- No order is marked filled by a fill that moved no position. -/
def HonestStep (b : PaperBroker) : Action → Prop
  | .onQuote symbolId bid ask bidSize askSize tsNs =>
    symbolId < maxSymbols → b.books.halted = false →
      HonestLoop tsNs (b.quoted symbolId bid ask bidSize askSize tsNs).books
        (b.quoted symbolId bid ask bidSize askSize tsNs).slots
  | _ => True

/-- Every fill of the quote that completes its order finds a position to go to. -/
def BookedStep (b : PaperBroker) : Action → Prop
  | .onQuote symbolId bid ask bidSize askSize tsNs =>
    symbolId < maxSymbols → b.books.halted = false →
      BookedLoop tsNs (b.quoted symbolId bid ask bidSize askSize tsNs).books
        (b.quoted symbolId bid ask bidSize askSize tsNs).slots
  | _ => True

theorem onQuote_running {b : PaperBroker} {symbolId : Nat} (hsymbol : symbolId < maxSymbols)
    (hrunning : b.books.halted = false) (bid ask bidSize askSize : Int) (tsNs : Nat) :
    (b.onQuote symbolId bid ask bidSize askSize tsNs).books =
      ((b.quoted symbolId bid ask bidSize askSize tsNs).books.processSlots tsNs
        (b.quoted symbolId bid ask bidSize askSize tsNs).slots).1.recomputeAccount tsNs := by
  have hquoted : (b.quoted symbolId bid ask bidSize askSize tsNs).books.halted = false := hrunning
  rw [onQuote_eq hsymbol]
  unfold process
  rw [if_neg (Bool.eq_false_iff.mp hquoted)]

/-- A step from a running broker leaves the figures of the latched halt exactly when it is quiet. -/
theorem figures_atHalt_iff {b : PaperBroker} (hrunning : b.books.halted = false) (a : Action) :
    figures (b.step a).books = figures (b.atHalt a) ↔ b.QuietStep a := by
  cases a with
  | onQuote symbolId bid ask bidSize askSize tsNs =>
    show figures (b.onQuote symbolId bid ask bidSize askSize tsNs).books = _ ↔ _
    unfold atHalt QuietStep
    dsimp only
    by_cases hsymbol : symbolId < maxSymbols
    · rw [if_pos ⟨hsymbol, hrunning⟩, onQuote_running hsymbol hrunning,
        (clerical_recomputeAccount _ tsNs).figures, figures_untilHalt]
      exact ⟨fun hq _ _ => hq, fun hq => hq hsymbol hrunning⟩
    · rw [if_neg fun hs => hsymbol hs.1]
      exact ⟨fun _ hs => absurd hs hsymbol, fun _ => rfl⟩
  | setSymbol => exact ⟨fun _ => trivial, fun _ => rfl⟩
  | submit => exact ⟨fun _ => trivial, fun _ => rfl⟩
  | cancel => exact ⟨fun _ => trivial, fun _ => rfl⟩
  | replace => exact ⟨fun _ => trivial, fun _ => rfl⟩

/-- A step that leaves the broker running was quiet. -/
theorem quietStep_of_running {b : PaperBroker} {a : Action} (h : (b.step a).books.halted = false) :
    b.QuietStep a := by
  cases a with
  | onQuote symbolId bid ask bidSize askSize tsNs =>
    intro hsymbol hrunning
    apply quietLoop_of_running
    rw [show b.step (.onQuote symbolId bid ask bidSize askSize tsNs) =
      b.onQuote symbolId bid ask bidSize askSize tsNs from rfl, onQuote_running hsymbol hrunning] at h
    by_contra hhalted
    rw [(clerical_recomputeAccount _ tsNs).halted (Bool.eq_true_of_not_eq_false hhalted)] at h
    cases h
  | setSymbol => trivial
  | submit => trivial
  | cancel => trivial
  | replace => trivial

/-- Nothing moves the figures of a broker that a step finds halted. -/
theorem step_frozen {b : PaperBroker} (h : b.books.halted = true) (a : Action) :
    (b.step a).books.halted = true ∧ figures (b.step a).books = figures b.books := by
  cases a with
  | setSymbol spec =>
    unfold step setSymbol
    dsimp only
    split
    · exact ⟨h, rfl⟩
    · exact ⟨h, rfl⟩
  | onQuote symbolId bid ask bidSize askSize tsNs =>
    show (b.onQuote symbolId bid ask bidSize askSize tsNs).books.halted = true ∧
      figures (b.onQuote symbolId bid ask bidSize askSize tsNs).books = _
    by_cases hsymbol : symbolId < maxSymbols
    · have hprocess : (b.quoted symbolId bid ask bidSize askSize tsNs).process tsNs =
          b.quoted symbolId bid ask bidSize askSize tsNs := by
        unfold process
        exact if_pos h
      have hclerical := clerical_recomputeAccount (b.quoted symbolId bid ask bidSize askSize tsNs).books tsNs
      rw [onQuote_eq hsymbol, hprocess]
      exact ⟨hclerical.halted h, hclerical.figures⟩
    · rw [onQuote_of_unknown hsymbol]
      exact ⟨h, rfl⟩
  | submit q nowNs =>
    show (b.submit q nowNs).2.books.halted = true ∧ figures (b.submit q nowNs).2.books = _
    rcases submit_cases b q nowNs with ⟨reason, -, heq⟩ | ⟨-, -, heq⟩ | ⟨s, reason, -, -, -, heq⟩ |
      ⟨s, -, -, -, heq⟩
    · rw [heq]
      exact ⟨h, rfl⟩
    · rw [heq]
      exact ⟨h, rfl⟩
    · rw [heq]
      exact ⟨h, rfl⟩
    · have hclerical := clerical_accept { b with slots := s.2 } s.1 q nowNs
      rw [heq]
      exact ⟨hclerical.halted h, hclerical.figures⟩
  | cancel ref nowNs =>
    show (b.cancel ref nowNs).2.books.halted = true ∧ figures (b.cancel ref nowNs).2.books = _
    rcases cancel_cases b ref nowNs with ⟨heq, -⟩ | ⟨l, x, r, -, heq⟩
    · rw [heq]
      exact ⟨h, rfl⟩
    · have hclerical := clerical_cancelled b.books ref x nowNs
      rw [heq]
      exact ⟨hclerical.halted h, hclerical.figures⟩
  | replace ref price volume nowNs =>
    show (b.replace ref price volume nowNs).2.books.halted = true ∧
      figures (b.replace ref price volume nowNs).2.books = _
    rcases replace_cases b ref price volume nowNs with ⟨heq, -⟩ | ⟨l, x, r, -, -, heq⟩
    · rw [heq]
      exact ⟨h, rfl⟩
    · rw [heq]
      exact ⟨h, rfl⟩

/-! ## Runs -/

theorem run_frozen {b : PaperBroker} (h : b.books.halted = true) (actions : List Action) :
    figures (Runs.run step b actions).books = figures b.books := by
  induction actions generalizing b with
  | nil => rfl
  | cons a actions ih =>
    obtain ⟨hhalted, hfigures⟩ := step_frozen h a
    exact (ih hhalted).trans hfigures

/-- From the step that latches the halt on, through the end of the run, the figures are those the
halt was latched with. -/
def HaltFreezes (config : BrokerConfig) (actions : List Action) : Prop :=
  ∀ pre a post, pre ++ a :: post <+: actions →
    (after config pre).books.halted = false → (after config (pre ++ [a])).books.halted = true →
      figures (after config (pre ++ a :: post)).books = figures ((after config pre).atHalt a)

theorem after_append (config : BrokerConfig) (pre : List Action) (a : Action) (post : List Action) :
    after config (pre ++ a :: post) = Runs.run step ((after config pre).step a) post := by
  unfold after Runs.run
  rw [List.foldl_append]
  rfl

theorem haltFreezes_iff (config : BrokerConfig) (actions : List Action) :
    HaltFreezes config actions ↔ Runs.Along step QuietStep (new config) actions := by
  rw [Runs.along_iff_forall_split]
  constructor
  · rintro hfreezes pre a post rfl
    by_cases hafter : (after config (pre ++ [a])).books.halted = true
    · by_cases hbefore : (after config pre).books.halted = false
      · have hprefix : pre ++ [a] <+: pre ++ a :: post := by
          rw [List.prefix_append_right_inj]
          exact ⟨post, rfl⟩
        have hstep := hfreezes pre a [] hprefix hbefore hafter
        rw [after_append] at hstep
        exact (figures_atHalt_iff hbefore a).mp hstep
      · cases a with
        | onQuote => exact fun _ hrunning => absurd hrunning hbefore
        | setSymbol => trivial
        | submit => trivial
        | cancel => trivial
        | replace => trivial
    · rw [after_append] at hafter
      exact quietStep_of_running (Bool.eq_false_iff.mpr hafter)
  · rintro hquiet pre a post ⟨rest, rfl⟩ hbefore hafter
    have hstep := hquiet pre a (post ++ rest) (by rw [List.append_assoc]; rfl)
    rw [after_append] at hafter
    have hhalted : ((after config pre).step a).books.halted = true := hafter
    rw [after_append, run_frozen hhalted]
    exact (figures_atHalt_iff hbefore a).mpr hstep

theorem honestStep_iff {b : PaperBroker} (h : History b.books) (a : Action) :
    b.HonestStep a ↔ b.BookedStep a := by
  cases a with
  | onQuote symbolId bid ask bidSize askSize tsNs =>
    have hsame : SameTickets b.books (b.quoted symbolId bid ask bidSize askSize tsNs).books :=
      ⟨rfl, rfl, rfl, rfl⟩
    have hquoted := h.frame hsame
    exact forall_congr' fun _ => forall_congr' fun _ => honestLoop_iff hquoted tsNs _
  | setSymbol => exact Iff.rfl
  | submit => exact Iff.rfl
  | cancel => exact Iff.rfl
  | replace => exact Iff.rfl

/-- A run in which a halted broker trades no more and no fill without a position completes an order
is a run in which every quote is quiet behind a latched halt and has a position for each fill that
completes an order. -/
theorem halted_broker_iff (config : BrokerConfig) (actions : List Action) :
    (HaltFreezes config actions ∧ Runs.Along step HonestStep (new config) actions) ↔
      Runs.Along step QuietStep (new config) actions ∧
        Runs.Along step BookedStep (new config) actions := by
  have hnew : History (new config).books := history_after config []
  have hhonest : Runs.Along step HonestStep (new config) actions ↔
      Runs.Along step BookedStep (new config) actions := by
    apply Runs.along_iff_along_of_invariant (I := fun b : PaperBroker => History b.books)
    · intro b a hb _
      exact history_rule.step hb a
    · intro b a hb
      exact honestStep_iff hb a
    · exact hnew
  rw [haltFreezes_iff, hhonest]

/-! ## A stop-out with an order waiting behind it -/

/-- The commission of the first fill takes the whole balance. -/
def stopOutRun : List Action :=
  [.setSymbol { commissionPerLotMinor := 1000, contractSize := 1 }, .onQuote 0 100 102 5 5 0,
    .submit { volume := 1 } 0, .submit { volume := 1, seqGlobal := 1 } 0]

/-- The quote that fills the first order, stops the account out and fills the second as well. -/
def stopOutQuote : Action := .onQuote 0 100 102 5 5 1000000

theorem stop_out_trades_on :
    ¬ HaltFreezes { mode := .optimistic, initialBalanceMinor := 1000 } (stopOutRun ++ [stopOutQuote]) := by
  intro h
  have hlatch := h stopOutRun stopOutQuote [] (List.prefix_refl _) (by decide +kernel) (by decide +kernel)
  exact absurd hlatch (by decide +kernel)

end PaperBroker

end MicrostructureEngine.Exec
