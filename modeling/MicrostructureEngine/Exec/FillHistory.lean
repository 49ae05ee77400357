import MicrostructureEngine.Exec.Booking

/-!
# The fills of a run

Positions, tickets and the history of fills change when a fill is booked and at no other
time. An invariant about them is carried through a run by three steps: the frame, a fill,
and a slot that an order takes. `History` is what every reachable broker knows about its
book and about each fill that led to it.
-/

namespace MicrostructureEngine.Exec

set_option autoImplicit false

/-! ## The frame -/

/-- The books agree on positions, tickets and fills. -/
structure SameTickets (b b' : Books) : Prop where
  config : b'.config = b.config
  positions : b'.positions = b.positions
  ticketSeq : b'.ticketSeq = b.ticketSeq
  fills : b'.fills = b.fills

/-- The slots agree on the order's own ticket and on the terms of that ticket. -/
structure SameOwn (x y : OrderSlot) : Prop where
  ticket : y.ticket = x.ticket
  symbolId : y.order.symbolId = x.order.symbolId
  side : y.order.side = x.order.side

theorem SameTickets.refl (b : Books) : SameTickets b b := ⟨rfl, rfl, rfl, rfl⟩

theorem SameOwn.refl (x : OrderSlot) : SameOwn x x := ⟨rfl, rfl, rfl⟩

theorem Clerical.sameTickets {b b' : Books} (h : Clerical b b') : SameTickets b b' :=
  ⟨h.config, h.positions, h.ticketSeq, h.fills⟩

theorem sameOwn_forall₂ {l r : List OrderSlot} {x y : OrderSlot} (h : SameOwn x y) :
    List.Forall₂ SameOwn (l ++ x :: r) (l ++ y :: r) :=
  List.rel_append (List.forall₂_same.mpr fun x _ => SameOwn.refl x)
    (List.Forall₂.cons h (List.forall₂_same.mpr fun x _ => SameOwn.refl x))

namespace Books

theorem Ready.sameOwn {b : Books} {x : OrderSlot} {nowNs : Nat} {c : Books × OrderSlot}
    (h : Ready b x nowNs c) : SameOwn x c.2 := by
  cases h with
  | standing => exact SameOwn.refl x
  | acknowledged => exact ⟨rfl, rfl, rfl⟩

/-- After a fill is booked the rest of `apply_fill` is frame. -/
theorem applyFill_frame (b : Books) (x : OrderSlot) (price volume : Int) (nowNs : Nat) :
    SameTickets (b.bookFill x price volume nowNs).1 (b.applyFill x price volume nowNs).1 ∧
      SameOwn (b.bookFill x price volume nowNs).2 (b.applyFill x price volume nowNs).2 := by
  rcases applyFill_cases b x price volume nowNs rfl with ⟨-, heq⟩ | ⟨-, -, heq⟩ | ⟨-, -, heq⟩
  · rw [heq]
    have hfinish := clerical_finish (b.bookFill x price volume nowNs).1
      (b.bookFill x price volume nowNs).2 nowNs .filled
    exact ⟨(hfinish.trans (clerical_refreshAccount _ nowNs)).sameTickets, ⟨rfl, rfl, rfl⟩⟩
  · rw [heq]
    exact ⟨((clerical_transition _ _ nowNs _).trans (clerical_refreshAccount _ nowNs)).sameTickets,
      ⟨rfl, rfl, rfl⟩⟩
  · rw [heq]
    exact ⟨(clerical_refreshAccount _ nowNs).sameTickets, SameOwn.refl _⟩

/-- One turn of the loop is frame, or one booked fill between frames. -/
theorem processSlot_frame (b : Books) (x : OrderSlot) (nowNs : Nat) :
    (SameTickets b (b.processSlot x nowNs).1 ∧ SameOwn x (b.processSlot x nowNs).2) ∨
    ∃ (c : Books × OrderSlot) (price volume : Int), SameTickets b c.1 ∧ SameOwn x c.2 ∧ Fillable c.1 c.2.order price volume ∧
      SameTickets (c.1.bookFill c.2 price volume nowNs).1 (b.processSlot x nowNs).1 ∧
      SameOwn (c.1.bookFill c.2 price volume nowNs).2 (b.processSlot x nowNs).2 := by
  have hp := processed b x nowNs
  generalize b.processSlot x nowNs = r at hp ⊢
  cases hp with
  | idle => exact Or.inl ⟨SameTickets.refl b, SameOwn.refl x⟩
  | expired => exact Or.inl ⟨(clerical_finish b x nowNs .expired).sameTickets, ⟨rfl, rfl, rfl⟩⟩
  | rejected => exact Or.inl ⟨(clerical_rejectSent b x nowNs).sameTickets, ⟨rfl, rfl, rfl⟩⟩
  | ready h => exact Or.inl ⟨h.clerical.sameTickets, h.sameOwn⟩
  | halted h reason =>
    exact Or.inl ⟨(h.clerical.trans (clerical_halt _ reason)).sameTickets, h.sameOwn⟩
  | @filled c h price volume fill =>
    obtain ⟨hbooks, hslot⟩ := applyFill_frame c.1 c.2 price volume nowNs
    exact Or.inr ⟨c, price, volume, h.clerical.sameTickets, h.sameOwn, fill, hbooks, hslot⟩

end Books

/-! ## The rule for runs -/

section Rule

open Books PaperBroker

variable {I : Books → List OrderSlot → Prop}

/-- What an invariant about tickets has to survive. -/
structure TicketRule (I : Books → List OrderSlot → Prop) : Prop where
  frame : ∀ {b b' xs ys}, SameTickets b b' → List.Forall₂ SameOwn xs ys → I b xs → I b' ys
  fill : ∀ {b : Books} {l r : List OrderSlot} {x : OrderSlot} {price volume : Int} {nowNs : Nat},
    0 < volume → I b (l ++ x :: r) →
      I (b.bookFill x price volume nowNs).1 (l ++ (b.bookFill x price volume nowNs).2 :: r)
  vacant : ∀ {b xs}, I b xs → I b (xs ++ [({} : OrderSlot)])
  taken : ∀ {b l r x y}, y.ticket = 0 → I b (l ++ x :: r) → I b (l ++ y :: r)

namespace TicketRule

variable {b : Books} {xs : List OrderSlot}

theorem books (rule : TicketRule I) {b' : Books} (h : SameTickets b b') (hi : I b xs) : I b' xs :=
  rule.frame h (List.forall₂_same.mpr fun x _ => SameOwn.refl x) hi

theorem processSlot (rule : TicketRule I) {l r : List OrderSlot} {x : OrderSlot} (nowNs : Nat)
    (hi : I b (l ++ x :: r)) : I (b.processSlot x nowNs).1 (l ++ (b.processSlot x nowNs).2 :: r) := by
  rcases processSlot_frame b x nowNs with
    ⟨hbooks, hslot⟩ | ⟨c, price, volume, hbooks, hslot, hfill, hbooks', hslot'⟩
  · exact rule.frame hbooks (sameOwn_forall₂ hslot) hi
  · have hready := rule.frame hbooks (sameOwn_forall₂ hslot) hi
    exact rule.frame hbooks' (sameOwn_forall₂ hslot') (rule.fill hfill.volume_pos hready)

theorem onQuote (rule : TicketRule I) {b : PaperBroker} (hi : I b.books b.slots) (symbolId : Nat)
    (bid ask bidSize askSize : Int) (tsNs : Nat) :
    I (b.onQuote symbolId bid ask bidSize askSize tsNs).books
      (b.onQuote symbolId bid ask bidSize askSize tsNs).slots := by
  by_cases hsymbol : symbolId < maxSymbols
  · have hquoted : I (b.quoted symbolId bid ask bidSize askSize tsNs).books
        (b.quoted symbolId bid ask bidSize askSize tsNs).slots := by
      refine rule.frame ?_ ?_ hi
      · exact ⟨rfl, rfl, rfl, rfl⟩
      · refine (creditQueue_forall₂ _ _ _ _ _ _ _ _).imp fun x y hq => ?_
        rw [hq]
        exact ⟨rfl, rfl, rfl⟩
    rw [onQuote_eq hsymbol]
    apply rule.books (clerical_recomputeAccount _ tsNs).sameTickets
    unfold process
    split
    · exact hquoted
    · exact processSlots_invariant (l := []) (fun c l x r hc => rule.processSlot tsNs hc) hquoted
  · rw [onQuote_of_unknown hsymbol]
    exact hi

theorem submit (rule : TicketRule I) {b : PaperBroker} (hi : I b.books b.slots) (q : OrderRequest)
    (nowNs : Nat) : I (b.submit q nowNs).2.books (b.submit q nowNs).2.slots := by
  rcases submit_cases b q nowNs with ⟨reason, -, heq⟩ | ⟨-, -, heq⟩ | ⟨s, reason, -, halloc, -, heq⟩ |
    ⟨s, -, halloc, -, heq⟩
  · rw [heq]
    refine rule.books ?_ hi
    exact ⟨rfl, rfl, rfl, rfl⟩
  · rw [heq]
    refine rule.books ?_ hi
    exact ⟨rfl, rfl, rfl, rfl⟩
  · rw [heq]
    have htaken : I b.books s.2 := by
      rcases SlotTable.allocate_eq_some halloc with ⟨l, x, r, -, rfl, -⟩ | ⟨-, -, rfl⟩
      · exact hi
      · exact rule.vacant hi
    refine rule.books ?_ htaken
    exact ⟨rfl, rfl, rfl, rfl⟩
  · rw [heq]
    apply rule.books (clerical_accept { b with slots := s.2 } s.1 q nowNs).sameTickets
    rw [accept_slots]
    rcases SlotTable.allocate_eq_some halloc with ⟨l, x, r, hl, rfl, -⟩ | ⟨-, -, rfl⟩
    · rw [hl, set_split]
      rw [hl] at hi
      exact rule.taken rfl hi
    · rw [show ({ b with slots := b.slots ++ [{}] } : PaperBroker).slots = b.slots ++ [{}] from rfl,
        set_split]
      exact rule.taken rfl (rule.vacant hi)

theorem step (rule : TicketRule I) {b : PaperBroker} (hi : I b.books b.slots) (a : Action) :
    I (b.step a).books (b.step a).slots := by
  cases a with
  | setSymbol spec =>
    unfold PaperBroker.step setSymbol
    dsimp only
    split
    · refine rule.books ?_ hi
      exact ⟨rfl, rfl, rfl, rfl⟩
    · exact hi
  | onQuote symbolId bid ask bidSize askSize tsNs =>
    exact rule.onQuote hi symbolId bid ask bidSize askSize tsNs
  | submit q nowNs => exact rule.submit hi q nowNs
  | cancel ref nowNs =>
    show I (b.cancel ref nowNs).2.books (b.cancel ref nowNs).2.slots
    rcases cancel_cases b ref nowNs with ⟨heq, -⟩ | ⟨l, x, r, hfound, heq⟩
    · rw [heq]
      exact hi
    · rw [heq]
      rw [hfound.split] at hi
      refine rule.frame (clerical_cancelled b.books ref x nowNs).sameTickets (sameOwn_forall₂ ?_) hi
      exact ⟨rfl, rfl, rfl⟩
  | replace ref price volume nowNs =>
    show I (b.replace ref price volume nowNs).2.books (b.replace ref price volume nowNs).2.slots
    rcases replace_cases b ref price volume nowNs with ⟨heq, -⟩ | ⟨l, x, r, hfound, -, heq⟩
    · rw [heq]
      exact hi
    · rw [heq]
      rw [hfound.split] at hi
      refine rule.frame (clerical_replaced b.books ref x price volume nowNs).sameTickets
        (sameOwn_forall₂ ?_) hi
      exact ⟨rfl, rfl, rfl⟩

/-- An invariant about tickets that holds of the new broker holds throughout every run. -/
theorem after (rule : TicketRule I) {config : BrokerConfig} (hi : I (new config).books [])
    (actions : List Action) : I (after config actions).books (after config actions).slots := by
  apply Runs.invariant_of_step (I := fun b : PaperBroker => I b.books b.slots)
  · intro b a hb
    exact rule.step hb a
  · exact hi

end TicketRule

end Rule

/-! ## The book -/

/-- The book holds no empty or negative ticket. -/
def SoundBook (book : List Position) : Prop := ∀ p ∈ book, isClosed p = false → 0 < p.volume

/-- At most one ticket of each symbol is open. -/
def OnePerSymbol (book : List Position) : Prop :=
  book.Pairwise fun p q => isClosed p = false → isClosed q = false → p.symbolId ≠ q.symbolId

theorem soundBook_split {l r : List Position} {p p' : Position} (h : SoundBook (l ++ p :: r))
    (hp : isClosed p' = false → 0 < p'.volume) : SoundBook (l ++ p' :: r) := by
  unfold SoundBook at h ⊢
  rw [List.forall_mem_append, List.forall_mem_cons] at h ⊢
  exact ⟨h.1, hp, h.2.2⟩

theorem soundBook_placed {p : Position} {l l' : List Position} (hplaced : Placed p l l')
    (h : SoundBook l) (hp : 0 < p.volume) : SoundBook l' := by
  cases hplaced with
  | reused => exact soundBook_split h fun _ => hp
  | appended =>
    intro q hq hopen
    rcases List.mem_append.mp hq with hq | hq
    · exact h q hq hopen
    · rw [List.mem_singleton.mp hq]
      exact hp

/-- A ticket that changes its volume only can stand in for the one before. -/
theorem onePerSymbol_split {l r : List Position} {p p' : Position} (h : OnePerSymbol (l ++ p :: r))
    (hp : isClosed p' = false → isClosed p = false ∧ p'.symbolId = p.symbolId) :
    OnePerSymbol (l ++ p' :: r) := by
  unfold OnePerSymbol at h ⊢
  rw [List.pairwise_append, List.pairwise_cons] at h ⊢
  obtain ⟨hl, ⟨hpr, hr⟩, hcross⟩ := h
  refine ⟨hl, ⟨?_, hr⟩, ?_⟩
  · intro q hq hopen hqopen
    obtain ⟨hpopen, hsymbol⟩ := hp hopen
    rw [hsymbol]
    exact hpr q hq hpopen hqopen
  · intro a ha q hq haopen hqopen
    rcases List.mem_cons.mp hq with rfl | hq
    · obtain ⟨hpopen, hsymbol⟩ := hp hqopen
      rw [hsymbol]
      exact hcross a ha p List.mem_cons_self haopen hpopen
    · exact hcross a ha q (List.mem_cons_of_mem _ hq) haopen hqopen

/-- A fresh ticket on a symbol without an open one. -/
theorem onePerSymbol_placed {p : Position} {l l' : List Position} (hplaced : Placed p l l')
    (h : OnePerSymbol l) (hp : ∀ q ∈ l, isClosed q = false → q.symbolId ≠ p.symbolId) :
    OnePerSymbol l' := by
  cases hplaced with
  | @reused l q r hclosed =>
    unfold OnePerSymbol at h ⊢
    rw [List.pairwise_append, List.pairwise_cons] at h ⊢
    obtain ⟨hl, ⟨-, hr⟩, hcross⟩ := h
    refine ⟨hl, ⟨fun a ha _ haopen => (hp a (by simp [ha]) haopen).symm, hr⟩, ?_⟩
    intro a ha c hc haopen hcopen
    rcases List.mem_cons.mp hc with rfl | hc
    · exact hp a (by simp [ha]) haopen
    · exact hcross a ha c (List.mem_cons_of_mem _ hc) haopen hcopen
  | appended =>
    unfold OnePerSymbol at h ⊢
    rw [List.pairwise_append]
    refine ⟨h, List.pairwise_singleton _ _, ?_⟩
    intro a ha c hc haopen _
    rw [List.mem_singleton.mp hc]
    exact hp a ha haopen

/-- With one ticket a symbol, an open ticket is the only one of its symbol. -/
theorem OnePerSymbol.only {l r : List Position} {p : Position} (h : OnePerSymbol (l ++ p :: r))
    (hp : isClosed p = false) :
    ∀ q ∈ l ++ r, isClosed q = false → q.symbolId ≠ p.symbolId := by
  unfold OnePerSymbol at h
  rw [List.pairwise_append, List.pairwise_cons] at h
  obtain ⟨-, ⟨hpr, -⟩, hcross⟩ := h
  intro q hq hqopen
  rcases List.mem_append.mp hq with hq | hq
  · exact hcross q hq p List.mem_cons_self hqopen hp
  · exact (hpr q hq hp hqopen).symm

namespace Booking

variable {i : Intent} {t t' : Tickets}

theorem sound (h : Booking i t t') (hvolume : 0 < i.volume) (hsound : SoundBook t.book) :
    SoundBook t'.book := by
  cases h with
  | unreducible => exact hsound
  | reduced mode found first resized =>
    refine soundBook_split hsound fun hopen => ?_
    have hsize := resized.working.symm.trans hopen
    have hp := found.volume
    rw [resized.volume]
    rw [decide_eq_false_iff_not] at hsize
    omega
  | full => exact hsound
  | opened mode untargeted fresh placed =>
    exact soundBook_placed placed hsound (by rw [fresh.volume]; exact hvolume)
  | added mode found first side resized =>
    have hp := hsound _ (by simp) found.1
    have hpos : 0 < _ + i.volume := Int.add_pos hp hvolume
    exact soundBook_split hsound fun _ => by rw [(resized hpos).volume]; exact hpos
  | netted mode found first side covered resized =>
    refine soundBook_split hsound fun hopen => ?_
    have hsize := resized.working.symm.trans hopen
    rw [resized.volume]
    rw [decide_eq_false_iff_not] at hsize
    omega
  | flipped mode found first side exceeded resized fresh placed =>
    refine soundBook_placed placed (soundBook_split hsound fun hopen => ?_) ?_
    · rw [resized.working] at hopen
      cases hopen
    · rw [fresh.volume]
      omega

theorem onePerSymbol (h : Booking i t t') (hvolume : 0 < i.volume) (hsound : SoundBook t.book)
    (hnetting : i.hedging = false) (hone : OnePerSymbol t.book) : OnePerSymbol t'.book := by
  have hentry : i.reduces = false := by simp [Intent.reduces, hnetting]
  have huntargeted : ∀ (own : UInt64) (p : Position), isClosed p = false → ¬ i.Targets own p →
      p.symbolId ≠ i.symbolId := by
    intro own p hopen hn hs
    apply hn
    refine ⟨hopen, ?_⟩
    rw [hnetting]
    exact hs
  cases h with
  | unreducible => exact hone
  | reduced mode =>
    rw [hentry] at mode
    cases mode
  | full => exact hone
  | opened mode untargeted fresh placed =>
    apply onePerSymbol_placed placed hone
    intro q hq hopen
    rw [fresh.symbolId]
    exact huntargeted _ q hopen (untargeted q hq)
  | added mode found first side resized =>
    have hp := hsound _ (by simp) found.1
    have hr := resized (Int.add_pos hp hvolume)
    exact onePerSymbol_split hone fun _ => ⟨found.1, hr.symbolId⟩
  | netted mode found first side covered resized =>
    exact onePerSymbol_split hone fun _ => ⟨found.1, resized.symbolId⟩
  | @flipped l r book p p' q seq own mode found first side exceeded resized fresh placed =>
    have hclosed : isClosed p' = true := resized.working
    have hsymbol := found.2
    rw [hnetting] at hsymbol
    apply onePerSymbol_placed placed
    · exact onePerSymbol_split hone fun _ => ⟨found.1, resized.symbolId⟩
    · intro a ha haopen
      rw [fresh.symbolId, ← hsymbol]
      apply hone.only found.1 a _ haopen
      rcases List.mem_append.mp ha with ha | ha
      · exact List.mem_append_left _ ha
      · rcases List.mem_cons.mp ha with rfl | ha
        · rw [hclosed] at haopen
          cases haopen
        · exact List.mem_append_right _ ha

/-- Every open ticket was open before under the same number and terms, or is the fresh one. -/
theorem origin (h : Booking i t t') (hvolume : 0 < i.volume) (hsound : SoundBook t.book) :
    ∀ q ∈ t'.book, isClosed q = false →
      (∃ p ∈ t.book, isClosed p = false ∧ q.positionTicket = p.positionTicket ∧
        q.symbolId = p.symbolId ∧ q.side = p.side) ∨
      (t'.seq = t.seq + 1 ∧ i.Fresh q.volume (t.seq + 1) q) := by
  have hsame : ∀ {l r : List Position} {p p' q : Position} {size : Int}, isClosed p = false →
      Resized p p' size → q ∈ l ++ p' :: r → isClosed q = false →
      ∃ p₀ ∈ l ++ p :: r, isClosed p₀ = false ∧ q.positionTicket = p₀.positionTicket ∧
        q.symbolId = p₀.symbolId ∧ q.side = p₀.side := by
    intro l r p p' q size hp hr hq hopen
    rcases List.mem_append.mp hq with hq | hq
    · exact ⟨q, List.mem_append_left _ hq, hopen, rfl, rfl, rfl⟩
    · rcases List.mem_cons.mp hq with rfl | hq
      · exact ⟨p, by simp, hp, hr.ticket, hr.symbolId, hr.side⟩
      · exact ⟨q, by simp [hq], hopen, rfl, rfl, rfl⟩
  intro q hq hopen
  cases h with
  | unreducible => exact Or.inl ⟨q, hq, hopen, rfl, rfl, rfl⟩
  | reduced mode found first resized => exact Or.inl (hsame found.working resized hq hopen)
  | full => exact Or.inl ⟨q, hq, hopen, rfl, rfl, rfl⟩
  | opened mode untargeted fresh placed =>
    rcases placed.mem_cases hq with rfl | hq
    · exact Or.inr ⟨rfl, fresh.volume ▸ fresh⟩
    · exact Or.inl ⟨q, hq, hopen, rfl, rfl, rfl⟩
  | added mode found first side resized =>
    have hp := hsound _ (by simp) found.1
    exact Or.inl (hsame found.1 (resized (Int.add_pos hp hvolume)) hq hopen)
  | netted mode found first side covered resized => exact Or.inl (hsame found.1 resized hq hopen)
  | flipped mode found first side exceeded resized fresh placed =>
    rcases placed.mem_cases hq with rfl | hq
    · exact Or.inr ⟨rfl, fresh.volume ▸ fresh⟩
    · exact Or.inl (hsame found.1 resized hq hopen)

/-- Ticket numbers move by one at most, and an own ticket is new only as the fresh one. -/
theorem numbers (h : Booking i t t') :
    (t'.seq = t.seq ∧ t'.own = t.own) ∨
    (t'.seq = t.seq + 1 ∧ (t'.own = t.own ∨ t'.own = t.seq + 1)) := by
  cases h with
  | unreducible | reduced | added | netted => exact Or.inl ⟨rfl, rfl⟩
  | full => exact Or.inr ⟨rfl, Or.inl rfl⟩
  | opened =>
    refine Or.inr ⟨rfl, ?_⟩
    dsimp only
    split
    · exact Or.inr rfl
    · exact Or.inl rfl
  | flipped => exact Or.inr ⟨rfl, Or.inl rfl⟩

end Booking

/-! ## The history -/

namespace FillEvent

def intent (f : FillEvent) (hedging : Bool) : Intent := Exec.intent hedging f.slot.order f.volume

def tickets (f : FillEvent) : Tickets := ⟨f.before.positions, f.ticketSeq, f.slot.ticket⟩

end FillEvent

/-- A fill in the history of a broker: how it was booked, and on what book. -/
structure Genuine (hedging : Bool) (f : FillEvent) : Prop where
  volume_pos : 0 < f.volume
  sound : SoundBook f.before.positions
  single : hedging = false → OnePerSymbol f.before.positions
  booking : ∃ seq own, Booking (f.intent hedging) f.tickets ⟨f.after.positions, seq, own⟩

/-- What a reachable broker knows of its book and its fills. -/
structure History (b : Books) : Prop where
  sound : SoundBook b.positions.positions
  single : b.config.hedging = false → OnePerSymbol b.positions.positions
  genuine : ∀ f ∈ b.fills, Genuine b.config.hedging f
  moved : ∀ s, b.positions.netVolume s =
    (b.fills.map fun f => f.after.netVolume s - f.before.netVolume s).sum

theorem History.frame {b b' : Books} (h : SameTickets b b') (hi : History b) : History b' := by
  refine ⟨?_, ?_, ?_, ?_⟩
  · rw [h.positions]
    exact hi.sound
  · rw [h.config, h.positions]
    exact hi.single
  · rw [h.config, h.fills]
    exact hi.genuine
  · rw [h.positions, h.fills]
    exact hi.moved

theorem History.fill {b : Books} (hi : History b) (x : OrderSlot) (price : Int) {volume : Int}
    (hvolume : 0 < volume) (nowNs : Nat) : History (b.bookFill x price volume nowNs).1 := by
  have hbooking := Books.booking_bookFill b x price volume nowNs
  have hbooked := Books.booked_bookFill b x price volume nowNs
  have hpositive : 0 < (intent b.config.hedging x.order volume).volume := hvolume
  have hgenuine : Genuine b.config.hedging (b.fillEvent x price volume nowNs) :=
    ⟨hvolume, hi.sound, hi.single, _, _, hbooking⟩
  refine ⟨hbooking.sound hpositive hi.sound, ?_, ?_, ?_⟩
  · rw [hbooked.config]
    intro hnetting
    exact hbooking.onePerSymbol hpositive hi.sound hnetting (hi.single hnetting)
  · rw [hbooked.config, hbooked.fills]
    intro f hf
    rcases List.mem_append.mp hf with hf | hf
    · exact hi.genuine f hf
    · rw [List.mem_singleton.mp hf]
      exact hgenuine
  · intro s
    have hmoved := hi.moved s
    rw [hbooked.fills, hbooked.positions, List.map_append, List.sum_append, ← hmoved]
    simp [Books.fillEvent]

theorem history_rule : TicketRule fun b _ => History b where
  frame := fun h _ hi => hi.frame h
  fill := fun hvolume hi => hi.fill _ _ hvolume _
  vacant := id
  taken := fun _ => id

theorem history_after (config : BrokerConfig) (actions : List PaperBroker.Action) :
    History (PaperBroker.after config actions).books := by
  have hnew : History (PaperBroker.new config).books := by
    refine ⟨?_, fun _ => List.Pairwise.nil, ?_, fun _ => rfl⟩
    · intro p hp
      cases hp
    · intro f hf
      cases hf
  exact history_rule.after hnew actions

end MicrostructureEngine.Exec
