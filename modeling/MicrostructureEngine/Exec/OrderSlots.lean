import MicrostructureEngine.Exec.BrokerSteps

/-!
# Orders in their slots

Which slots hold an accepted order, and what stays fixed about an order while it is worked.
A submit that is refused after the slot allocation leaves an unused order behind; such a slot
is inert, because an order that never left `new_order` neither expires nor fills.
-/

namespace MicrostructureEngine.Exec

set_option autoImplicit false

/-- The history of an accepted order starts at `pending_send`. -/
def isAccepted (x : OrderSlot) : Bool := x.path.head? == some .pendingSend

/-- An accepted order that has not ended. -/
def isWorking (x : OrderSlot) : Bool := isAccepted x && !x.order.state.isTerminal

/-- The terms of an order, which working it leaves alone; its history only grows. -/
structure SameTerms (x y : OrderSlot) : Prop where
  ref : y.order.ref = x.order.ref
  symbolId : y.order.symbolId = x.order.symbolId
  side : y.order.side = x.order.side
  type : y.order.type = x.order.type
  reduceOnly : y.order.reduceOnly = x.order.reduceOnly
  requested : y.order.requestedVolume = x.order.requestedVolume
  limitPrice : y.order.limitPriceTicks = x.order.limitPriceTicks
  expire : y.order.expireNs = x.order.expireNs
  effective : y.order.tsEffectiveNs = x.order.tsEffectiveNs
  booked : y.booked = x.booked
  path : ∃ t, y.path = x.path ++ t

namespace SameTerms

theorem refl (x : OrderSlot) : SameTerms x x :=
  ⟨rfl, rfl, rfl, rfl, rfl, rfl, rfl, rfl, rfl, rfl, [], (List.append_nil _).symm⟩

theorem trans {x y z : OrderSlot} (h : SameTerms x y) (h' : SameTerms y z) : SameTerms x z := by
  obtain ⟨s, hs⟩ := h.path
  obtain ⟨t, ht⟩ := h'.path
  exact ⟨h'.ref.trans h.ref, h'.symbolId.trans h.symbolId, h'.side.trans h.side, h'.type.trans h.type,
    h'.reduceOnly.trans h.reduceOnly, h'.requested.trans h.requested,
    h'.limitPrice.trans h.limitPrice, h'.expire.trans h.expire, h'.effective.trans h.effective,
    h'.booked.trans h.booked, s ++ t, by rw [ht, hs, List.append_assoc]⟩

theorem accepted {x y : OrderSlot} (h : SameTerms x y) (hx : isAccepted x = true) :
    isAccepted y = true := by
  obtain ⟨t, ht⟩ := h.path
  unfold isAccepted at hx ⊢
  rw [ht]
  cases hp : x.path with
  | nil =>
    rw [hp] at hx
    cases hx
  | cons s p =>
    rw [hp] at hx
    exact hx

end SameTerms

namespace Books

theorem sameTerms_movedTo (x : OrderSlot) (next : OrderState) : SameTerms x (movedTo x next) :=
  ⟨rfl, rfl, rfl, rfl, rfl, rfl, rfl, rfl, rfl, rfl, [next], rfl⟩

theorem sameTerms_finished (x : OrderSlot) (terminal : OrderState) (nowNs : Nat) :
    SameTerms x (finished x terminal nowNs) :=
  ⟨rfl, rfl, rfl, rfl, rfl, rfl, rfl, rfl, rfl, rfl, [terminal], rfl⟩

theorem sameTerms_bookFill (b : Books) (x : OrderSlot) (price volume : Int) (nowNs : Nat) :
    SameTerms x (b.bookFill x price volume nowNs).2 := by
  rw [bookFill_slot]
  exact ⟨rfl, rfl, rfl, rfl, rfl, rfl, rfl, rfl, rfl, rfl, [], (List.append_nil _).symm⟩

theorem Ready.sameTerms {b : Books} {x : OrderSlot} {nowNs : Nat} {c : Books × OrderSlot}
    (h : Ready b x nowNs c) : SameTerms x c.2 := by
  cases h with
  | standing => exact SameTerms.refl x
  | acknowledged => exact sameTerms_movedTo x .acknowledged

theorem sameTerms_applyFill (b : Books) (x : OrderSlot) (price volume : Int) (nowNs : Nat) :
    SameTerms x (b.applyFill x price volume nowNs).2 := by
  have hbook := sameTerms_bookFill b x price volume nowNs
  rcases applyFill_cases b x price volume nowNs rfl with ⟨-, heq⟩ | ⟨-, -, heq⟩ | ⟨-, -, heq⟩
  · rw [heq]
    exact hbook.trans (sameTerms_finished _ _ _)
  · rw [heq]
    exact hbook.trans (sameTerms_movedTo _ _)
  · rw [heq]
    exact hbook

theorem sameTerms_processSlot (b : Books) (x : OrderSlot) (nowNs : Nat) :
    SameTerms x (b.processSlot x nowNs).2 := by
  have hp := processed b x nowNs
  generalize b.processSlot x nowNs = r at hp ⊢
  cases hp with
  | idle => exact SameTerms.refl x
  | expired => exact sameTerms_finished x .expired nowNs
  | rejected => exact sameTerms_finished x .rejected nowNs
  | ready h => exact h.sameTerms
  | halted h => exact h.sameTerms
  | filled h price volume => exact h.sameTerms.trans (sameTerms_applyFill _ _ price volume nowNs)

end Books

open Books PaperBroker

theorem PaperBroker.SameButQueue.sameTerms {x y : OrderSlot} (h : SameButQueue x y) : SameTerms x y := by
  rw [h]
  exact ⟨rfl, rfl, rfl, rfl, rfl, rfl, rfl, rfl, rfl, rfl, [], (List.append_nil _).symm⟩

/-- A slot taken by a refused submit. It answers to the default reference only. -/
structure Orphan (x : OrderSlot) : Prop where
  notAccepted : isAccepted x = false
  ref : x.order.ref = {}
  expire : x.order.expireNs = 0
  state : x.order.state = .newOrder ∨ x.order.state = .cancelled

/-- Every slot holds an accepted order of this run, or an orphan. -/
inductive SlotOk (runId : UInt64) (x : OrderSlot) : Prop
  | accepted (h : isAccepted x = true) (run : x.order.ref.runId = runId)
  | orphan (h : Orphan x)

theorem orphan_default : Orphan {} := ⟨rfl, rfl, rfl, Or.inl rfl⟩

theorem Orphan.not_working {x : OrderSlot} (h : Orphan x) : isWorking x = false := by
  unfold isWorking
  rw [h.notAccepted]
  rfl

/-- Nothing happens to an orphan while quotes are processed. -/
theorem Orphan.processSlot {x : OrderSlot} (h : Orphan x) (b : Books) (nowNs : Nat) :
    b.processSlot x nowNs = (b, x) := by
  have hdue : expiryDue x.order nowNs = false := by
    unfold expiryDue
    rw [h.expire]
    rfl
  have hp := processed b x nowNs
  rcases h.state with hnew | hcancelled
  · unfold Books.processSlot attemptFill
    simp [hnew, hdue, OrderState.isTerminal]
  · unfold Books.processSlot
    simp [hcancelled, OrderState.isTerminal]

theorem Orphan.queue {x y : OrderSlot} (h : Orphan x) (hq : SameButQueue x y) : Orphan y := by
  rw [hq]
  exact ⟨h.notAccepted, h.ref, h.expire, h.state⟩

theorem SlotOk.sameTerms {runId : UInt64} {x y : OrderSlot} (hx : isAccepted x = true)
    (hrun : x.order.ref.runId = runId) (h : SameTerms x y) : SlotOk runId y :=
  SlotOk.accepted (h.accepted hx) (by rw [h.ref, hrun])

theorem SlotOk.processSlot {runId : UInt64} {x : OrderSlot} (h : SlotOk runId x) (b : Books)
    (nowNs : Nat) : SlotOk runId (b.processSlot x nowNs).2 := by
  cases h with
  | accepted hx hrun => exact SlotOk.sameTerms hx hrun (sameTerms_processSlot b x nowNs)
  | orphan horphan =>
    rw [horphan.processSlot]
    exact SlotOk.orphan horphan

theorem SlotOk.queue {runId : UInt64} {x y : OrderSlot} (h : SlotOk runId x)
    (hq : SameButQueue x y) : SlotOk runId y := by
  cases h with
  | accepted hx hrun => exact SlotOk.sameTerms hx hrun hq.sameTerms
  | orphan horphan => exact SlotOk.orphan (horphan.queue hq)

/-- The property of the slot at a split, exchanged. -/
theorem forall_split {P : OrderSlot → Prop} {l r : List OrderSlot} {x y : OrderSlot}
    (h : ∀ z ∈ l ++ x :: r, P z) (hy : P x → P y) : ∀ z ∈ l ++ y :: r, P z := by
  rw [List.forall_mem_append, List.forall_mem_cons] at h ⊢
  exact ⟨h.1, hy h.2.1, h.2.2⟩

/-- A slot property after an allocation and a write. -/
theorem forall_allocate {P : OrderSlot → Prop} {slots : List OrderSlot} {s : Nat × List OrderSlot}
    (halloc : SlotTable.allocate PaperBroker.reusable maxLiveOrders {} slots = some s)
    (h : ∀ z ∈ slots, P z) (hfresh : P {}) :
    (∀ z ∈ s.2, P z) ∧ ∀ y, P y → ∀ z ∈ s.2.set s.1 y, P z := by
  constructor
  · rcases SlotTable.allocate_eq_some halloc with ⟨l, x, r, -, rfl, -⟩ | ⟨-, -, rfl⟩
    · exact h
    · intro z hz
      rcases List.mem_append.mp hz with hz | hz
      · exact h z hz
      · rw [List.mem_singleton.mp hz]
        exact hfresh
  · intro y hy
    rcases SlotTable.allocate_set halloc y with ⟨l, x, r, rfl, -, hset⟩ | ⟨hset, -⟩
    · rw [hset]
      exact forall_split h fun _ => hy
    · rw [hset]
      intro z hz
      rcases List.mem_append.mp hz with hz | hz
      · exact h z hz
      · rw [List.mem_singleton.mp hz]
        exact hy

namespace PaperBroker

/-- The slots of every reachable broker. -/
def SlotsOk (b : PaperBroker) : Prop := ∀ x ∈ b.slots, SlotOk b.books.config.runId x

theorem slotsOk_new (config : BrokerConfig) : SlotsOk (new config) := fun _ hx => by cases hx

theorem slotOk_acceptedSlot (b : PaperBroker) (q : OrderRequest) (nowNs : Nat) :
    SlotOk b.books.config.runId (b.acceptedSlot q nowNs) := SlotOk.accepted rfl rfl

theorem sameTerms_cancelled (b : Books) (ref : BrokerOrderRef) (x : OrderSlot) (nowNs : Nat) :
    SameTerms x (cancelled b ref x nowNs).2 :=
  (sameTerms_movedTo x .cancelPending).trans (sameTerms_finished _ .cancelled nowNs)

theorem clerical_cancelled (b : Books) (ref : BrokerOrderRef) (x : OrderSlot) (nowNs : Nat) :
    Clerical b (cancelled b ref x nowNs).1 := by
  unfold cancelled
  dsimp only
  refine Clerical.trans ?_ (clerical_finish _ _ nowNs .cancelled)
  exact ⟨rfl, rfl, rfl, rfl, rfl, rfl, rfl, rfl, rfl, rfl, rfl, id⟩

theorem clerical_replaced (b : Books) (ref : BrokerOrderRef) (x : OrderSlot)
    (price volume : Int) (nowNs : Nat) : Clerical b (replaced b ref x price volume nowNs).1 :=
  ⟨rfl, rfl, rfl, rfl, rfl, rfl, rfl, rfl, rfl, rfl, rfl, id⟩

/-- What a turn of the loop never changes in the books. -/
theorem processSlot_fixed (b : Books) (x : OrderSlot) (nowNs : Nat) :
    (b.processSlot x nowNs).1.config = b.config ∧ (b.processSlot x nowNs).1.specs = b.specs ∧
      (b.processSlot x nowNs).1.market = b.market := by
  rcases processSlot_books b x nowNs with h | ⟨c, price, volume, hready, -, heq⟩
  · exact ⟨h.config, h.specs, h.market⟩
  · rw [heq]
    have hc := hready.clerical
    have hb := booked_applyFill c.1 c.2 price volume nowNs
    exact ⟨hb.config.trans hc.config, hb.specs.trans hc.specs, hb.market.trans hc.market⟩

theorem process_fixed (b : PaperBroker) (nowNs : Nat) :
    (b.process nowNs).books.config = b.books.config ∧ (b.process nowNs).books.specs = b.books.specs ∧
      (b.process nowNs).books.market = b.books.market := by
  unfold process
  split
  · exact ⟨rfl, rfl, rfl⟩
  · refine processSlots_invariant (l := [])
      (I := fun c _ => c.config = b.books.config ∧ c.specs = b.books.specs ∧ c.market = b.books.market)
      ?_ ⟨rfl, rfl, rfl⟩
    intro c l x r hc
    obtain ⟨hconfig, hspecs, hmarket⟩ := processSlot_fixed c x nowNs
    exact ⟨hconfig.trans hc.1, hspecs.trans hc.2.1, hmarket.trans hc.2.2⟩

theorem onQuote_config (b : PaperBroker) (symbolId : Nat) (bid ask bidSize askSize : Int) (tsNs : Nat) :
    (b.onQuote symbolId bid ask bidSize askSize tsNs).books.config = b.books.config := by
  by_cases h : symbolId < maxSymbols
  · rw [onQuote_eq h]
    exact (clerical_recomputeAccount _ tsNs).config.trans (process_fixed _ tsNs).1
  · rw [onQuote_of_unknown h]

theorem submit_config (b : PaperBroker) (q : OrderRequest) (nowNs : Nat) :
    (b.submit q nowNs).2.books.config = b.books.config := by
  rcases submit_cases b q nowNs with ⟨reason, -, heq⟩ | ⟨-, -, heq⟩ | ⟨s, reason, -, -, -, heq⟩ |
    ⟨s, -, -, -, heq⟩
  · rw [heq]
    rfl
  · rw [heq]
    rfl
  · rw [heq]
    rfl
  · rw [heq]
    exact (clerical_accept { b with slots := s.2 } s.1 q nowNs).config

theorem step_config (b : PaperBroker) (a : Action) : (b.step a).books.config = b.books.config := by
  cases a with
  | setSymbol spec =>
    unfold step setSymbol
    dsimp only
    split <;> rfl
  | onQuote symbolId bid ask bidSize askSize tsNs =>
    exact onQuote_config b symbolId bid ask bidSize askSize tsNs
  | submit q nowNs => exact submit_config b q nowNs
  | cancel ref nowNs =>
    show (b.cancel ref nowNs).2.books.config = b.books.config
    rcases cancel_cases b ref nowNs with ⟨heq, -⟩ | ⟨l, x, r, -, heq⟩
    · rw [heq]
    · rw [heq]
      exact (clerical_cancelled b.books ref x nowNs).config
  | replace ref price volume nowNs =>
    show (b.replace ref price volume nowNs).2.books.config = b.books.config
    rcases replace_cases b ref price volume nowNs with ⟨heq, -⟩ | ⟨l, x, r, -, -, heq⟩
    · rw [heq]
    · rw [heq]
      rfl

theorem after_config (config : BrokerConfig) (actions : List Action) :
    (after config actions).books.config = config := by
  apply Runs.invariant_of_step (I := fun b : PaperBroker => b.books.config = config)
  · intro b a hb
    exact (step_config b a).trans hb
  · rfl

/-- The slots while and after a quote is processed, for a property that each turn keeps. -/
theorem onQuote_slots {P : OrderSlot → Prop} (hqueue : ∀ x y, SameButQueue x y → P x → P y)
    (hslot : ∀ (c : Books) x nowNs, P x → P (c.processSlot x nowNs).2) {b : PaperBroker}
    (h : ∀ x ∈ b.slots, P x) (symbolId : Nat) (bid ask bidSize askSize : Int) (tsNs : Nat) :
    ∀ x ∈ (b.onQuote symbolId bid ask bidSize askSize tsNs).slots, P x := by
  by_cases hsymbol : symbolId < maxSymbols
  · rw [onQuote_eq hsymbol]
    have hquoted : ∀ x ∈ (b.quoted symbolId bid ask bidSize askSize tsNs).slots, P x :=
      SlotTable.forall_of_forall₂ hqueue (creditQueue_forall₂ _ _ _ _ _ _ _ _) h
    unfold process
    dsimp only
    split
    · exact hquoted
    · refine processSlots_invariant (l := []) (I := fun _ xs => ∀ x ∈ xs, P x) ?_ hquoted
      intro c l x r hc
      exact forall_split hc (hslot c x tsNs)
  · rw [onQuote_of_unknown hsymbol]
    exact h

theorem slotOk_cancelled {runId : UInt64} {x : OrderSlot} (h : SlotOk runId x) (b : Books)
    (ref : BrokerOrderRef) (nowNs : Nat) : SlotOk runId (cancelled b ref x nowNs).2 := by
  cases h with
  | accepted hx hrun => exact SlotOk.sameTerms hx hrun (sameTerms_cancelled b ref x nowNs)
  | orphan ho =>
    apply SlotOk.orphan
    refine ⟨?_, ho.ref, ho.expire, Or.inr rfl⟩
    have hn := ho.notAccepted
    unfold isAccepted at hn ⊢
    have hpath : (cancelled b ref x nowNs).2.path = (x.path ++ [.cancelPending]) ++ [.cancelled] := rfl
    rw [hpath]
    cases hp : x.path with
    | nil => rfl
    | cons s p =>
      rw [hp] at hn
      exact hn

theorem slotsOk_step {b : PaperBroker} (h : SlotsOk b) (a : Action) : SlotsOk (b.step a) := by
  unfold SlotsOk at h ⊢
  rw [step_config]
  cases a with
  | setSymbol spec =>
    unfold step setSymbol
    dsimp only
    split <;> exact h
  | onQuote symbolId bid ask bidSize askSize tsNs =>
    exact onQuote_slots (fun _ _ hq hx => hx.queue hq) (fun c x now hx => hx.processSlot c now) h
      symbolId bid ask bidSize askSize tsNs
  | submit q nowNs =>
    show ∀ x ∈ (b.submit q nowNs).2.slots, SlotOk b.books.config.runId x
    rcases submit_cases b q nowNs with ⟨reason, -, heq⟩ | ⟨-, -, heq⟩ | ⟨s, reason, -, halloc, -, heq⟩ |
      ⟨s, -, halloc, -, heq⟩
    · rw [heq]
      exact h
    · rw [heq]
      exact h
    · rw [heq]
      exact (forall_allocate halloc h (SlotOk.orphan orphan_default)).1
    · rw [heq]
      exact (forall_allocate halloc h (SlotOk.orphan orphan_default)).2 _
        (slotOk_acceptedSlot { b with slots := s.2 } q nowNs)
  | cancel ref nowNs =>
    show ∀ x ∈ (b.cancel ref nowNs).2.slots, SlotOk b.books.config.runId x
    rcases cancel_cases b ref nowNs with ⟨heq, -⟩ | ⟨l, x, r, hfound, heq⟩
    · rw [heq]
      exact h
    · rw [heq]
      rw [hfound.split] at h
      exact forall_split h fun hx => slotOk_cancelled hx b.books ref nowNs
  | replace ref price volume nowNs =>
    show ∀ x ∈ (b.replace ref price volume nowNs).2.slots, SlotOk b.books.config.runId x
    rcases replace_cases b ref price volume nowNs with ⟨heq, -⟩ | ⟨l, x, r, hfound, -, heq⟩
    · rw [heq]
      exact h
    · rw [heq]
      rw [hfound.split] at h
      refine forall_split h fun hx => ?_
      cases hx with
      | accepted hx hrun => exact SlotOk.accepted hx hrun
      | orphan ho => exact SlotOk.orphan ⟨ho.notAccepted, ho.ref, ho.expire, ho.state⟩

end PaperBroker

end MicrostructureEngine.Exec
