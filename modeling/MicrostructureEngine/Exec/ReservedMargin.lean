import MicrostructureEngine.Exec.AccountIdentities

/-!
# Reserved margin

A reservation is booked at one price and released at another: a market order is booked at the
touch and released at its average fill price, or at the ask of the moment it ends; a replace
books nothing, and the release is computed from the amended order. The reserved margin is the
sum of what is booked for the live orders as long as every release gives back what was booked.
-/

namespace MicrostructureEngine.Exec

set_option autoImplicit false

open Books PaperBroker

/-- What is booked for the order in a slot, while it is accepted and live. -/
def bookedFor (x : OrderSlot) : Int := if isWorking x then x.booked else 0

def bookedTotal (slots : List OrderSlot) : Int := (slots.map bookedFor).sum

/-- The reserved margin is what is booked for the live orders. -/
def Reserves (b : Books) (slots : List OrderSlot) : Prop :=
  b.reservedMarginMinor = bookedTotal slots

theorem bookedTotal_split (l r : List OrderSlot) (x : OrderSlot) :
    bookedTotal (l ++ x :: r) = bookedTotal (l ++ r) + bookedFor x := by
  simp only [bookedTotal, List.map_append, List.map_cons, List.sum_append, List.sum_cons]
  omega

theorem bookedFor_of_not {x : OrderSlot} (h : isWorking x = false) : bookedFor x = 0 := by
  unfold bookedFor
  rw [h]
  rfl

theorem bookedFor_of_working {x : OrderSlot} (h : isWorking x = true) : bookedFor x = x.booked := by
  unfold bookedFor
  rw [h]
  rfl

theorem Reserves.idle {b : Books} {slots : List OrderSlot} (h : Reserves b slots)
    (hidle : ∀ x ∈ slots, isWorking x = false) : b.reservedMarginMinor = 0 := by
  refine h.trans (List.sum_eq_zero ?_)
  intro v hv
  obtain ⟨x, hx, rfl⟩ := List.mem_map.mp hv
  exact bookedFor_of_not (hidle x hx)

/-! ## Releases -/

/-- The price from which the margin of an ending order is computed. -/
def releasePrice (market : MarketState) (o : Order) : Int :=
  if o.type = .limit then o.limitPriceTicks
  else if o.avgFillPriceTicks > 0 then o.avgFillPriceTicks else market.askTicks

/-- The margin at the release price is the margin that was booked; or the order was the only one
with a booking, and the release is clamped to it. -/
def EvenRelease (b : Books) (booked : Int) (o : Order) : Prop :=
  let margin := MarginModel.requiredMinor (b.specs o.symbolId) o.requestedVolume
    (releasePrice (b.market o.symbolId) o)
  (margin = booked ∧ booked ≤ b.reservedMarginMinor) ∨
    (booked = b.reservedMarginMinor ∧ booked ≤ margin)

/-- The clamped release takes the booked margin out of the reservation exactly when it is even. -/
theorem evenRelease_iff (b : Books) (booked : Int) (o : Order) :
    max (b.reservedMarginMinor - b.releasedMargin o) 0 = b.reservedMarginMinor - booked ↔
      EvenRelease b booked o := by
  have hmargin : b.releasedMargin o = MarginModel.requiredMinor (b.specs o.symbolId) o.requestedVolume
      (releasePrice (b.market o.symbolId) o) := rfl
  unfold EvenRelease
  dsimp only
  rw [← hmargin]
  omega

theorem releasedMargin_congr {b c : Books} (hspecs : c.specs = b.specs) (hmarket : c.market = b.market)
    (o : Order) : c.releasedMargin o = b.releasedMargin o := by
  unfold releasedMargin
  rw [hspecs, hmarket]

/-! ## One turn of the loop -/

/-- A turn ends the order and releases its margin, or leaves it live and the reservation alone. -/
theorem processSlot_reserved {b : Books} {x : OrderSlot} {nowNs : Nat} (hx : isAccepted x = true) :
    (isWorking x = true ∧ (b.processSlot x nowNs).2.order.state.isTerminal = true ∧
      (b.processSlot x nowNs).1.reservedMarginMinor =
        max (b.reservedMarginMinor - b.releasedMargin (b.processSlot x nowNs).2.order) 0) ∨
    ((b.processSlot x nowNs).2.order.state.isTerminal = x.order.state.isTerminal ∧
      (b.processSlot x nowNs).1.reservedMarginMinor = b.reservedMarginMinor) := by
  have hready : ∀ c, Ready b x nowNs c → c.2.order.state.isTerminal = x.order.state.isTerminal ∧
      c.1.reservedMarginMinor = b.reservedMarginMinor ∧ x.order.state.isTerminal = false := by
    intro c hc
    cases hc with
    | standing live => exact ⟨rfl, rfl, live⟩
    | acknowledged sent => exact ⟨by rw [sent]; rfl, rfl, by rw [sent]; rfl⟩
  have hp := processed b x nowNs
  generalize b.processSlot x nowNs = r at hp ⊢
  cases hp with
  | idle => exact Or.inr ⟨rfl, rfl⟩
  | expired live due =>
    refine Or.inl ⟨?_, rfl, finish_reserved b x nowNs .expired⟩
    rw [isWorking_eq hx, live]
    rfl
  | rejected sent draw =>
    refine Or.inl ⟨?_, rfl, rejectSent_reserved b x nowNs⟩
    rw [isWorking_eq hx, sent]
    rfl
  | ready h => exact Or.inr ⟨(hready _ h).1, (hready _ h).2.1⟩
  | halted h reason =>
    refine Or.inr ⟨(hready _ h).1, ?_⟩
    rw [halt_reserved]
    exact (hready _ h).2.1
  | @filled c h price volume fill =>
    obtain ⟨hsame, hreserved, hlive⟩ := hready c h
    have hbooked := booked_bookFill c.1 c.2 price volume nowNs
    have hkept := (bookFill_reserved c.1 c.2 price volume nowNs).trans hreserved
    have hslot := bookFill_slot c.1 c.2 price volume nowNs
    have hreleased := releasedMargin_congr (hbooked.specs.trans h.clerical.specs)
      (hbooked.market.trans h.clerical.market)
    rcases applyFill_cases c.1 c.2 price volume nowNs rfl with ⟨-, heq⟩ | ⟨-, -, heq⟩ | ⟨-, -, heq⟩
    · rw [heq]
      refine Or.inl ⟨?_, rfl, ?_⟩
      · rw [isWorking_eq hx, hlive]
        rfl
      · rw [refreshAccount_reserved, finish_reserved, hkept, hreleased]
        rfl
    · rw [heq, refreshAccount_reserved]
      exact Or.inr ⟨hlive.symm, hkept⟩
    · rw [heq, refreshAccount_reserved]
      refine Or.inr ⟨?_, hkept⟩
      rw [hslot]
      exact hsame

/-- The order in the slot, if this turn ends it, gives back what was booked for it. -/
def EvenTurn (b : Books) (x : OrderSlot) (nowNs : Nat) : Prop :=
  isWorking x = true → (b.processSlot x nowNs).2.order.state.isTerminal = true →
    EvenRelease b x.booked (b.processSlot x nowNs).2.order

section Turn

variable {b : Books} {l r : List OrderSlot} {x : OrderSlot} (nowNs : Nat)

theorem reserves_turn_iff {runId : UInt64} (hx : SlotOk runId x) (h : Reserves b (l ++ x :: r)) :
    Reserves (b.processSlot x nowNs).1 (l ++ (b.processSlot x nowNs).2 :: r) ↔ EvenTurn b x nowNs := by
  unfold Reserves at h ⊢
  rw [bookedTotal_split] at h ⊢
  cases hx with
  | orphan horphan =>
    rw [horphan.processSlot]
    refine ⟨fun _ hworking => ?_, fun _ => h⟩
    rw [horphan.not_working] at hworking
    cases hworking
  | accepted haccepted _ =>
    have hterms := sameTerms_processSlot b x nowNs
    have hy := isWorking_eq (hterms.accepted haccepted)
    rcases processSlot_reserved (b := b) (x := x) haccepted with
      ⟨hworking, hended, hreserved⟩ | ⟨hsame, hreserved⟩
    · rw [hended] at hy
      rw [bookedFor_of_working hworking] at h
      have heven := evenRelease_iff b x.booked (b.processSlot x nowNs).2.order
      rw [← hreserved] at heven
      rw [bookedFor_of_not hy]
      constructor
      · intro hafter _ _
        exact heven.mp (by omega)
      · intro hturn
        have hkept := heven.mpr (hturn hworking hended)
        omega
    · have hworking : isWorking (b.processSlot x nowNs).2 = isWorking x := by
        rw [hy, hsame, isWorking_eq haccepted]
      have hbooked : bookedFor (b.processSlot x nowNs).2 = bookedFor x := by
        unfold bookedFor
        rw [hworking, hterms.booked]
      refine ⟨fun _ hlive hended => ?_, fun _ => ?_⟩
      · rw [isWorking_eq haccepted, ← hsame, hended] at hlive
        cases hlive
      · rw [hreserved, hbooked]
        exact h

end Turn

/-! ## The loop -/

/-- Every order that the loop ends gives back what was booked for it. -/
def EvenLoop (nowNs : Nat) : Books → List OrderSlot → Prop
  | _, [] => True
  | b, x :: xs => EvenTurn b x nowNs ∧ EvenLoop nowNs (b.processSlot x nowNs).1 xs

/-- The reserved margin is right after every turn of the loop. -/
def ReservesInLoop (nowNs : Nat) : Books → List OrderSlot → List OrderSlot → Prop
  | _, _, [] => True
  | b, l, x :: xs =>
    Reserves (b.processSlot x nowNs).1 (l ++ (b.processSlot x nowNs).2 :: xs) ∧
      ReservesInLoop nowNs (b.processSlot x nowNs).1 (l ++ [(b.processSlot x nowNs).2]) xs

theorem reserves_loop {b : Books} {l xs : List OrderSlot} {runId : UInt64} (nowNs : Nat)
    (hslots : ∀ x ∈ xs, SlotOk runId x) (h : Reserves b (l ++ xs)) :
    (ReservesInLoop nowNs b l xs ↔ EvenLoop nowNs b xs) ∧
      (ReservesInLoop nowNs b l xs →
        Reserves (b.processSlots nowNs xs).1 (l ++ (b.processSlots nowNs xs).2)) := by
  induction xs generalizing b l with
  | nil => exact ⟨Iff.rfl, fun _ => h⟩
  | cons x xs ih =>
    rw [List.forall_mem_cons] at hslots
    have hturn := reserves_turn_iff nowNs hslots.1 h
    have hnext : Reserves (b.processSlot x nowNs).1 (l ++ (b.processSlot x nowNs).2 :: xs) →
        Reserves (b.processSlot x nowNs).1 ((l ++ [(b.processSlot x nowNs).2]) ++ xs) := by
      rw [List.append_assoc]
      exact id
    constructor
    · constructor
      · rintro ⟨hafter, hrest⟩
        exact ⟨hturn.mp hafter, (ih hslots.2 (hnext hafter)).1.mp hrest⟩
      · rintro ⟨heven, hrest⟩
        have hafter := hturn.mpr heven
        exact ⟨hafter, (ih hslots.2 (hnext hafter)).1.mpr hrest⟩
    · rintro ⟨hafter, hrest⟩
      have hlast := (ih hslots.2 (hnext hafter)).2 hrest
      rw [List.append_assoc] at hlast
      exact hlast

/-! ## Operations -/

theorem bookedTotal_queue {xs ys : List OrderSlot} (h : List.Forall₂ SameButQueue xs ys) :
    bookedTotal ys = bookedTotal xs := by
  induction h with
  | nil => rfl
  | @cons x y xs ys hxy _ ih =>
    have hsame : bookedFor y = bookedFor x := by
      rw [hxy]
      rfl
    unfold bookedTotal at ih ⊢
    rw [List.map_cons, List.map_cons, List.sum_cons, List.sum_cons, ih, hsame]

theorem bookedFor_of_reusable (x : OrderSlot) (h : reusable x = true) : bookedFor x = 0 := by
  apply bookedFor_of_not
  unfold reusable at h
  simp [isWorking, h]

theorem bookedTotal_allocate {slots : List OrderSlot} {s : Nat × List OrderSlot}
    (halloc : SlotTable.allocate reusable maxLiveOrders {} slots = some s) :
    bookedTotal s.2 = bookedTotal slots := by
  rcases SlotTable.allocate_eq_some halloc with ⟨l, x, r, -, rfl, -⟩ | ⟨-, -, rfl⟩
  · rfl
  · rw [bookedTotal_split, List.append_nil]
    exact Int.add_zero _

namespace PaperBroker

/-- The order that a cancel ends gives back what was booked for it, a replace keeps the margin of
the order, and every order that a quote ends gives back what was booked for it. -/
def EvenStep (b : PaperBroker) : Action → Prop
  | .onQuote symbolId bid ask bidSize askSize tsNs =>
    symbolId < maxSymbols → b.books.halted = false →
      EvenLoop tsNs (b.quoted symbolId bid ask bidSize askSize tsNs).books
        (b.quoted symbolId bid ask bidSize askSize tsNs).slots
  | .cancel ref _ =>
    ∀ s ∈ b.findLive ref, s.2.order.state ≠ .unknown →
      EvenRelease b.books (bookedFor s.2) s.2.order
  | .replace ref newPriceTicks newVolume _ =>
    ∀ s ∈ b.findLive ref, s.2.order.state ≠ .unknown →
      Amendable b.books s.2.order newPriceTicks newVolume → isWorking s.2 = true →
        amendedMargin b.books (amended b.books s.2.order newPriceTicks newVolume) = s.2.booked
  | _ => True

/-- After the step, and in a quote after every order processed, the reserved margin is what is
booked for the live orders; it is zero when there is none. -/
structure KeepsReserved (b : PaperBroker) (a : Action) : Prop where
  after : Reserves (b.step a).books (b.step a).slots
  idle : (∀ x ∈ (b.step a).slots, isWorking x = false) → (b.step a).books.reservedMarginMinor = 0
  during : ∀ symbolId bid ask bidSize askSize tsNs,
    a = .onQuote symbolId bid ask bidSize askSize tsNs → symbolId < maxSymbols →
      b.books.halted = false →
        ReservesInLoop tsNs (b.quoted symbolId bid ask bidSize askSize tsNs).books []
          (b.quoted symbolId bid ask bidSize askSize tsNs).slots

theorem found_of_findLive {b : PaperBroker} {ref : BrokerOrderRef} {s : Nat × OrderSlot}
    (h : s ∈ b.findLive ref) (hknown : s.2.order.state ≠ .unknown) : ∃ l r, b.Found ref l s.2 r := by
  obtain ⟨l, r, hsplit, hslot, href, hlive⟩ := findLive_eq_some h
  exact ⟨l, r, hsplit, hslot ▸ h, href, hlive, hknown⟩

theorem Found.same {b : PaperBroker} {ref : BrokerOrderRef} {l r : List OrderSlot} {x : OrderSlot}
    (h : b.Found ref l x r) {s : Nat × OrderSlot} (hs : s ∈ b.findLive ref) : s.2 = x :=
  (congrArg Prod.snd (Option.some.inj (h.find.symm.trans hs))).symm

section Operations

variable {b : PaperBroker} (hslots : SlotsOk b) (h : Reserves b.books b.slots)
include h

theorem reserves_submit (q : OrderRequest) (nowNs : Nat) :
    Reserves (b.submit q nowNs).2.books (b.submit q nowNs).2.slots := by
  rcases submit_cases b q nowNs with ⟨reason, -, heq⟩ | ⟨-, -, heq⟩ | ⟨s, reason, -, halloc, -, heq⟩ |
    ⟨s, -, halloc, -, heq⟩
  · rw [heq]
    exact h
  · rw [heq]
    exact h
  · rw [heq]
    exact h.trans (bookedTotal_allocate halloc).symm
  · have htotal := SlotTable.sum_allocate_set halloc (acceptedSlot { b with slots := s.2 } q nowNs)
      bookedFor bookedFor_of_reusable
    rw [heq]
    show _ = bookedTotal _
    unfold Reserves at h
    rw [accept_reserved, accept_slots, h]
    exact htotal.symm

include hslots in
theorem reserves_onQuote_iff (symbolId : Nat) (bid ask bidSize askSize : Int) (tsNs : Nat) :
    b.KeepsReserved (.onQuote symbolId bid ask bidSize askSize tsNs) ↔
      b.EvenStep (.onQuote symbolId bid ask bidSize askSize tsNs) := by
  have hqueue := creditQueue_forall₂ b.books symbolId (b.books.market symbolId) bid ask bidSize askSize
    b.slots
  have hquoted : Reserves (b.quoted symbolId bid ask bidSize askSize tsNs).books
      (b.quoted symbolId bid ask bidSize askSize tsNs).slots := h.trans (bookedTotal_queue hqueue).symm
  have hok : ∀ x ∈ (b.quoted symbolId bid ask bidSize askSize tsNs).slots,
      SlotOk b.books.config.runId x :=
    SlotTable.forall_of_forall₂ (fun _ _ hq hx => hx.queue hq) hqueue hslots
  have hloop := reserves_loop (l := []) tsNs hok hquoted
  constructor
  · intro hkept hsymbol hrunning
    exact hloop.1.mp (hkept.during _ _ _ _ _ _ rfl hsymbol hrunning)
  · intro heven
    have hafter : Reserves (b.onQuote symbolId bid ask bidSize askSize tsNs).books
        (b.onQuote symbolId bid ask bidSize askSize tsNs).slots := by
      by_cases hsymbol : symbolId < maxSymbols
      · rw [onQuote_eq hsymbol]
        show _ = _
        rw [recomputeAccount_reserved]
        unfold process
        split
        · exact hquoted
        · rename_i hrunning
          exact hloop.2 (hloop.1.mpr (heven hsymbol (Bool.eq_false_iff.mpr hrunning)))
      · rw [onQuote_of_unknown hsymbol]
        exact h
    refine ⟨hafter, hafter.idle, ?_⟩
    intro symbolId' bid' ask' bidSize' askSize' tsNs' heq hsymbol hrunning
    cases heq
    exact hloop.1.mpr (heven hsymbol hrunning)

omit hslots in
theorem reserves_cancel_iff (ref : BrokerOrderRef) (nowNs : Nat) :
    Reserves (b.cancel ref nowNs).2.books (b.cancel ref nowNs).2.slots ↔
      b.EvenStep (.cancel ref nowNs) := by
  rcases cancel_cases b ref nowNs with ⟨heq, hnone⟩ | ⟨l, x, r, hfound, heq⟩
  · rw [heq]
    refine ⟨fun _ s hs hknown => ?_, fun _ => h⟩
    obtain ⟨l, r, hf⟩ := found_of_findLive hs hknown
    exact absurd hf (hnone l s.2 r)
  · have hended : bookedFor (cancelled b.books ref x nowNs).2 = 0 := by
      apply bookedFor_of_not
      unfold isWorking
      rw [Bool.and_eq_false_iff]
      exact Or.inr rfl
    have hreserved : (cancelled b.books ref x nowNs).1.reservedMarginMinor =
        max (b.books.reservedMarginMinor - b.books.releasedMargin x.order) 0 :=
      finish_reserved _ (movedTo x .cancelPending) nowNs .cancelled
    have heven := evenRelease_iff b.books (bookedFor x) x.order
    rw [← hreserved] at heven
    have hbefore := h
    unfold Reserves at hbefore
    rw [hfound.split, bookedTotal_split] at hbefore
    have hiff : Reserves (b.cancel ref nowNs).2.books (b.cancel ref nowNs).2.slots ↔
        EvenRelease b.books (bookedFor x) x.order := by
      rw [heq, ← heven]
      unfold Reserves
      rw [bookedTotal_split, hended]
      dsimp only
      omega
    rw [hiff]
    constructor
    · intro hrelease s hs _
      rw [hfound.same hs]
      exact hrelease
    · intro hstep
      exact hstep _ hfound.find hfound.known

omit hslots in
theorem reserves_replace_iff (ref : BrokerOrderRef) (price volume : Int) (nowNs : Nat) :
    Reserves (b.replace ref price volume nowNs).2.books (b.replace ref price volume nowNs).2.slots ↔
      b.EvenStep (.replace ref price volume nowNs) := by
  rcases replace_cases b ref price volume nowNs with ⟨heq, hnone⟩ | ⟨l, x, r, hfound, hamend, heq⟩
  · rw [heq]
    refine ⟨fun _ s hs hknown hamend => ?_, fun _ => h⟩
    obtain ⟨l, r, hf⟩ := found_of_findLive hs hknown
    exact absurd hamend (hnone l s.2 r hf)
  · have hbooked : bookedFor (replaced b.books ref x price volume nowNs).2 =
        if isWorking x then amendedMargin b.books (amended b.books x.order price volume) else 0 := rfl
    have hbefore := h
    unfold Reserves at hbefore
    rw [hfound.split, bookedTotal_split] at hbefore
    have hiff : Reserves (b.replace ref price volume nowNs).2.books
        (b.replace ref price volume nowNs).2.slots ↔
        (isWorking x = true →
          amendedMargin b.books (amended b.books x.order price volume) = x.booked) := by
      rw [heq]
      unfold Reserves
      rw [bookedTotal_split, hbooked]
      show b.books.reservedMarginMinor = _ ↔ _
      rw [hbefore]
      cases hworking : isWorking x with
      | true =>
        rw [bookedFor_of_working hworking]
        simp only [if_true, forall_const]
        omega
      | false =>
        rw [bookedFor_of_not hworking]
        simp
    rw [hiff]
    constructor
    · intro hsame s hs _ _ hworking
      rw [hfound.same hs] at hworking ⊢
      exact hsame hworking
    · intro hstep hworking
      exact hstep _ hfound.find hfound.known hamend hworking

include hslots in
theorem keepsReserved_iff (a : Action) : b.KeepsReserved a ↔ b.EvenStep a := by
  have hone : ∀ a : Action, (∀ symbolId bid ask bidSize askSize tsNs,
      a ≠ .onQuote symbolId bid ask bidSize askSize tsNs) →
      (b.KeepsReserved a ↔ Reserves (b.step a).books (b.step a).slots) := by
    intro a hother
    refine ⟨KeepsReserved.after, fun hafter => ⟨hafter, hafter.idle, ?_⟩⟩
    intro symbolId bid ask bidSize askSize tsNs heq
    exact absurd heq (hother _ _ _ _ _ _)
  cases a with
  | onQuote symbolId bid ask bidSize askSize tsNs =>
    exact reserves_onQuote_iff hslots h symbolId bid ask bidSize askSize tsNs
  | setSymbol spec =>
    rw [hone _ (fun _ _ _ _ _ _ heq => by cases heq)]
    refine ⟨fun _ => trivial, fun _ => ?_⟩
    unfold PaperBroker.step setSymbol
    dsimp only
    split <;> exact h
  | submit q nowNs =>
    rw [hone _ (fun _ _ _ _ _ _ heq => by cases heq)]
    exact ⟨fun _ => trivial, fun _ => reserves_submit h q nowNs⟩
  | cancel ref nowNs =>
    rw [hone _ (fun _ _ _ _ _ _ heq => by cases heq)]
    exact reserves_cancel_iff h ref nowNs
  | replace ref price volume nowNs =>
    rw [hone _ (fun _ _ _ _ _ _ heq => by cases heq)]
    exact reserves_replace_iff h ref price volume nowNs

end Operations

/-- The reserved margin is right throughout a run, also within its quotes, exactly when every step
of the run is even. -/
theorem reserved_margin_iff (config : BrokerConfig) (actions : List Action) :
    Runs.Along PaperBroker.step KeepsReserved (new config) actions ↔
      Runs.Along PaperBroker.step EvenStep (new config) actions := by
  apply Runs.along_iff_along_of_invariant (I := fun b => SlotsOk b ∧ Reserves b.books b.slots)
  · intro b a h hkept
    exact ⟨slotsOk_step h.1 a, hkept.after⟩
  · intro b a h
    exact keepsReserved_iff h.1 h.2 a
  · exact ⟨slotsOk_new config, rfl⟩

/-- A market order is booked at the ask of 102 and cancelled at the ask of 52. -/
def fallingQuote : List Action :=
  [.onQuote 0 100 102 0 0 1, .submit { volume := 10000 } 1, .onQuote 0 50 52 0 0 2,
    .cancel ⟨1, makeLogicalOrderId 0 0 0⟩ 2]

theorem reserved_margin_left_behind :
    (∀ x ∈ (after { initialBalanceMinor := 1000000 } fallingQuote).slots, isWorking x = false) ∧
    (after { initialBalanceMinor := 1000000 } fallingQuote).books.reservedMarginMinor = 5000 := by
  decide +kernel

end PaperBroker

end MicrostructureEngine.Exec
