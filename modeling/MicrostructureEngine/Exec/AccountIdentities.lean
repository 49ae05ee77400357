import MicrostructureEngine.Exec.OrderSlots

/-!
# Account identities

The figures of the account are updated piecemeal: commission when a fill is booked, balance
and PnL when a position is reduced, marks when the account is recomputed, the number of open
orders when an order is accepted or ends. The identities between them hold after every
public operation.
-/

namespace MicrostructureEngine.Exec

set_option autoImplicit false

/-! ## Balance and commission -/

/-- The figures that only fills and closed quantities move. -/
structure Ledgered (b : Books) : Prop where
  balance : b.account.balanceMinor =
    b.config.initialBalanceMinor + b.account.realizedPnlMinor - b.account.commissionPaidMinor
  commission : b.account.commissionPaidMinor = (b.fills.map FillEvent.commissionMinor).sum

theorem Ledgered.clerical {b b' : Books} (h : Ledgered b) (hc : Clerical b b') : Ledgered b' := by
  refine ⟨?_, ?_⟩
  · rw [hc.balance, hc.config, hc.realized, hc.commission]
    exact h.balance
  · rw [hc.commission, hc.fills]
    exact h.commission

theorem Ledgered.booked {b b' : Books} {f : FillEvent} (h : Ledgered b) (hb : Books.Booked b b' f) :
    Ledgered b' := by
  have hbalance := hb.balance
  have hcommission := hb.commission
  have hold := h.balance
  refine ⟨?_, ?_⟩
  · rw [hb.config]
    omega
  · rw [hb.commission, hb.fills, h.commission]
    simp

theorem Ledgered.processSlot {b : Books} (h : Ledgered b) (x : OrderSlot) (nowNs : Nat) :
    Ledgered (b.processSlot x nowNs).1 := by
  rcases Books.processSlot_books b x nowNs with hc | ⟨c, price, volume, hready, -, heq⟩
  · exact h.clerical hc
  · rw [heq]
    exact (h.clerical hready.clerical).booked (Books.booked_applyFill c.1 c.2 price volume nowNs)

/-! ## Marks -/

/-- The figures that a recomputation derives from the balance and the position book. -/
structure Marked (b : Books) : Prop where
  equity : b.account.equityMinor = b.account.balanceMinor + b.account.unrealizedPnlMinor
  freeMargin : b.account.freeMarginMinor = b.account.equityMinor - b.account.marginUsedMinor
  openPositions : b.account.openPositions = b.positions.openCount

theorem marked_recomputeAccount (b : Books) (nowNs : Nat) : Marked (b.recomputeAccount nowNs) := by
  have hpositions := (Books.clerical_recomputeAccount b nowNs).positions
  refine ⟨?_, ?_, ?_⟩
  · rw [Books.recomputeAccount_account]
    rfl
  · rw [Books.recomputeAccount_account]
    rfl
  · rw [Books.recomputeAccount_account, hpositions]
    rfl

theorem marked_refreshAccount (b : Books) (nowNs : Nat) : Marked (b.refreshAccount nowNs) := by
  have h := marked_recomputeAccount b nowNs
  exact ⟨h.equity, h.freeMargin, h.openPositions⟩

/-! ## Open orders -/

/-- The number of accepted orders among the slots that have not ended. -/
def workingCount (slots : List OrderSlot) : Nat := slots.countP isWorking

theorem workingCount_split (l r : List OrderSlot) (x : OrderSlot) :
    workingCount (l ++ x :: r) = workingCount (l ++ r) + workingCount [x] := by
  simp only [workingCount, List.countP_append, List.countP_cons, List.countP_nil]
  omega

theorem workingCount_of_working {x : OrderSlot} (h : isWorking x = true) : workingCount [x] = 1 := by
  simp [workingCount, h]

theorem workingCount_of_not {x : OrderSlot} (h : isWorking x = false) : workingCount [x] = 0 := by
  simp [workingCount, h]

theorem isWorking_eq {x : OrderSlot} (hx : isAccepted x = true) :
    isWorking x = !x.order.state.isTerminal := by
  simp [isWorking, hx]

section Counted

variable {b : Books} {x : OrderSlot} {nowNs n : Nat}

/-- The books count the slot on top of `n` other working orders. -/
def Counts (n : Nat) (p : Books × OrderSlot) : Prop :=
  p.1.account.openOrders = n + workingCount [p.2]

theorem counts_finish (hx : isWorking x = true) (h : Counts n (b, x)) {terminal : OrderState}
    (ht : terminal.isTerminal = true) : Counts n (b.finish x terminal nowNs) := by
  have hended : isWorking (b.finish x terminal nowNs).2 = false := by
    rw [Books.finish_slot]
    simp [isWorking, Books.finished, ht]
  unfold Counts at h ⊢
  rw [Books.finish_openOrders, workingCount_of_not hended]
  rw [workingCount_of_working hx] at h
  dsimp only at h
  omega

theorem counts_rejectSent (hx : isWorking x = true) (h : Counts n (b, x)) :
    Counts n (b.rejectSent x nowNs) := by
  unfold Books.rejectSent
  apply counts_finish hx
  · exact h
  · rfl

theorem counts_applyFill (hx : isWorking x = true) (h : Counts n (b, x)) (price volume : Int) :
    Counts n (b.applyFill x price volume nowNs) := by
  have hterms := Books.sameTerms_bookFill b x price volume nowNs
  have hopen := Books.bookFill_openOrders b x price volume nowNs
  have hslot := Books.bookFill_slot b x price volume nowNs
  have haccepted : isAccepted x = true := by
    unfold isWorking at hx
    exact (Bool.and_eq_true_iff.mp hx).1
  have hlive := isWorking_eq haccepted ▸ hx
  have hcases := Books.applyFill_cases b x price volume nowNs rfl
  generalize b.bookFill x price volume nowNs = p at hterms hopen hslot hcases
  have hp : isWorking p.2 = true := by
    rw [isWorking_eq (hterms.accepted haccepted), hslot]
    exact hlive
  have hcount : Counts n p := by
    unfold Counts at h ⊢
    rw [hopen, h, workingCount_of_working hx, workingCount_of_working hp]
  rcases hcases with ⟨-, heq⟩ | ⟨-, -, heq⟩ | ⟨-, -, heq⟩
  · rw [heq]
    have hfinished : Counts n (p.1.finish p.2 .filled nowNs) := counts_finish hp hcount rfl
    unfold Counts at hfinished ⊢
    rw [Books.refreshAccount_account, Books.recomputeAccount_openOrders, hfinished, Books.finish_slot]
  · rw [heq]
    have hmoved : isWorking (Books.movedTo p.2 .partiallyFilled) = true := by
      rw [isWorking_eq ((Books.sameTerms_movedTo p.2 _).accepted (hterms.accepted haccepted))]
      rfl
    unfold Counts at hcount ⊢
    rw [Books.refreshAccount_account, Books.recomputeAccount_openOrders, Books.transition_account,
      hcount, workingCount_of_working hp, workingCount_of_working hmoved]
  · rw [heq]
    unfold Counts at hcount ⊢
    rw [Books.refreshAccount_account, Books.recomputeAccount_openOrders, hcount]

theorem Books.Ready.counts {c : Books × OrderSlot} (hready : Books.Ready b x nowNs c)
    (hx : isAccepted x = true) (h : Counts n (b, x)) : Counts n c ∧ isWorking c.2 = true := by
  cases hready with
  | standing live sent due effective =>
    refine ⟨h, ?_⟩
    rw [isWorking_eq hx, live]
    rfl
  | acknowledged sent draw due effective =>
    have hbefore : isWorking x = true := by
      rw [isWorking_eq hx, sent]
      rfl
    have hafter : isWorking (Books.movedTo x .acknowledged) = true := by
      rw [isWorking_eq ((Books.sameTerms_movedTo x _).accepted hx)]
      rfl
    refine ⟨?_, hafter⟩
    unfold Counts at h ⊢
    rw [Books.acknowledge_account, h, Books.acknowledge_slot, workingCount_of_working hbefore,
      workingCount_of_working hafter]

/-- One turn of the loop keeps the count of open orders. -/
theorem counts_processSlot (hx : isAccepted x = true) (h : Counts n (b, x)) :
    Counts n (b.processSlot x nowNs) := by
  have hp := Books.processed b x nowNs
  generalize b.processSlot x nowNs = r at hp ⊢
  cases hp with
  | idle => exact h
  | expired live due =>
    refine counts_finish ?_ h rfl
    rw [isWorking_eq hx, live]
    rfl
  | rejected sent draw =>
    apply counts_rejectSent _ h
    rw [isWorking_eq hx, sent]
    rfl
  | ready hready => exact (hready.counts hx h).1
  | halted hready reason =>
    have hc := (hready.counts hx h).1
    unfold Counts at hc ⊢
    rw [Books.halt_account, hc]
  | filled hready price volume fill =>
    obtain ⟨hc, hworking⟩ := hready.counts hx h
    exact counts_applyFill hworking hc price volume

end Counted

/-! ## Runs -/

namespace PaperBroker

/-- What is kept while the orders are processed: the marks are stale by then. -/
structure Tallied (b : Books) (slots : List OrderSlot) : Prop where
  slotsOk : ∀ x ∈ slots, SlotOk b.config.runId x
  ledgered : Ledgered b
  openOrders : b.account.openOrders = workingCount slots

theorem workingCount_queue {xs ys : List OrderSlot} (h : List.Forall₂ SameButQueue xs ys) :
    workingCount ys = workingCount xs := by
  induction h with
  | nil => rfl
  | @cons x y xs ys hxy _ ih =>
    have hsame : isWorking y = isWorking x := by
      rw [hxy]
      rfl
    unfold workingCount at ih ⊢
    rw [List.countP_cons, List.countP_cons, ih, hsame]

theorem Tallied.processSlot {b : Books} {l r : List OrderSlot} {x : OrderSlot} (nowNs : Nat)
    (h : Tallied b (l ++ x :: r)) :
    Tallied (b.processSlot x nowNs).1 (l ++ (b.processSlot x nowNs).2 :: r) := by
  have hx : SlotOk b.config.runId x := h.slotsOk x (by simp)
  refine ⟨?_, h.ledgered.processSlot x nowNs, ?_⟩
  · rw [(processSlot_fixed b x nowNs).1]
    exact forall_split h.slotsOk fun hx => hx.processSlot b nowNs
  · have hcount := h.openOrders
    rw [workingCount_split] at hcount ⊢
    cases hx with
    | accepted haccepted _ => exact counts_processSlot haccepted hcount
    | orphan horphan =>
      rw [horphan.processSlot]
      exact hcount

theorem Tallied.process {b : PaperBroker} (h : Tallied b.books b.slots) (nowNs : Nat) :
    Tallied (b.process nowNs).books (b.process nowNs).slots := by
  unfold PaperBroker.process
  split
  · exact h
  · exact Books.processSlots_invariant (l := []) (fun c l x r hc => hc.processSlot nowNs) h

theorem Tallied.clerical {b b' : Books} {slots : List OrderSlot} (h : Tallied b slots)
    (hc : Clerical b b') (hopen : b'.account.openOrders = b.account.openOrders) :
    Tallied b' slots := by
  refine ⟨?_, h.ledgered.clerical hc, hopen.trans h.openOrders⟩
  rw [hc.config]
  exact h.slotsOk

/-- The identities between the figures of the account. -/
structure Identities (b : PaperBroker) : Prop where
  balance : b.books.account.balanceMinor = b.books.config.initialBalanceMinor +
    b.books.account.realizedPnlMinor - b.books.account.commissionPaidMinor
  equity : b.books.account.equityMinor =
    b.books.account.balanceMinor + b.books.account.unrealizedPnlMinor
  freeMargin : b.books.account.freeMarginMinor =
    b.books.account.equityMinor - b.books.account.marginUsedMinor
  commission : b.books.account.commissionPaidMinor =
    (b.books.fills.map FillEvent.commissionMinor).sum
  openOrders : b.books.account.openOrders = (b.slots.filter isWorking).length
  openPositions : b.books.account.openPositions =
    (b.books.positions.positions.filter fun p => !isClosed p).length

/-- The same facts, with what carries them from one operation to the next. -/
structure Audited (b : PaperBroker) : Prop where
  tallied : Tallied b.books b.slots
  marked : Marked b.books

theorem Audited.identities {b : PaperBroker} (h : Audited b) : Identities b where
  balance := h.tallied.ledgered.balance
  equity := h.marked.equity
  freeMargin := h.marked.freeMargin
  commission := h.tallied.ledgered.commission
  openOrders := h.tallied.openOrders.trans List.countP_eq_length_filter
  openPositions := h.marked.openPositions

theorem audited_new (config : BrokerConfig) : Audited (new config) := by
  refine ⟨⟨slotsOk_new config, ⟨?_, rfl⟩, rfl⟩, ⟨?_, ?_, rfl⟩⟩
  · unfold new
    dsimp only
    omega
  · unfold new
    dsimp only
    omega
  · unfold new
    dsimp only
    omega

/-- A cancel or replace names an order by a reference of this run. -/
def NamesOwnOrder (runId : UInt64) : Action → Prop
  | .cancel ref _ => ref.runId = runId
  | .replace ref _ _ _ => ref.runId = runId
  | _ => True

/-- With a nonzero run id, an order that is found by such a reference was accepted. -/
theorem Found.working {b : PaperBroker} {ref : BrokerOrderRef} {l r : List OrderSlot} {x : OrderSlot}
    (hf : b.Found ref l x r) (h : SlotsOk b) (hrun : b.books.config.runId ≠ 0)
    (hown : ref.runId = b.books.config.runId) : isAccepted x = true ∧ isWorking x = true := by
  have hx : x ∈ b.slots := by
    rw [hf.split]
    exact List.mem_append_right _ List.mem_cons_self
  cases h x hx with
  | accepted haccepted _ =>
    refine ⟨haccepted, ?_⟩
    rw [isWorking_eq haccepted, hf.live]
    rfl
  | orphan horphan =>
    exfalso
    apply hrun
    rw [← hown, ← hf.ref, horphan.ref]

theorem workingCount_allocate {slots : List OrderSlot} {s : Nat × List OrderSlot}
    (halloc : SlotTable.allocate reusable maxLiveOrders {} slots = some s) :
    workingCount s.2 = workingCount slots ∧
      ∀ y, workingCount (s.2.set s.1 y) = workingCount slots + workingCount [y] := by
  have hvacant : ∀ x, reusable x = true → workingCount [x] = 0 := by
    intro x hx
    apply workingCount_of_not
    unfold reusable at hx
    simp [isWorking, hx]
  constructor
  · rcases SlotTable.allocate_eq_some halloc with ⟨l, x, r, -, rfl, -⟩ | ⟨-, -, rfl⟩
    · rfl
    · rw [workingCount_split, List.append_nil]
      rfl
  · intro y
    rcases SlotTable.allocate_set halloc y with ⟨l, x, r, rfl, hx, hset⟩ | ⟨hset, -⟩
    · rw [hset, workingCount_split, workingCount_split, hvacant x hx]
      rfl
    · rw [hset, workingCount_split, List.append_nil]

theorem Audited.onQuote {b : PaperBroker} (h : Audited b) (symbolId : Nat)
    (bid ask bidSize askSize : Int) (tsNs : Nat) :
    Audited (b.onQuote symbolId bid ask bidSize askSize tsNs) := by
  by_cases hsymbol : symbolId < maxSymbols
  · have hqueue := creditQueue_forall₂ b.books symbolId (b.books.market symbolId) bid ask bidSize askSize
      b.slots
    have hquoted : Tallied (b.quoted symbolId bid ask bidSize askSize tsNs).books
        (b.quoted symbolId bid ask bidSize askSize tsNs).slots := by
      refine ⟨?_, ⟨h.tallied.ledgered.balance, h.tallied.ledgered.commission⟩, ?_⟩
      · exact SlotTable.forall_of_forall₂ (fun _ _ hq hx => hx.queue hq) hqueue h.tallied.slotsOk
      · exact h.tallied.openOrders.trans (workingCount_queue hqueue).symm
    rw [onQuote_eq hsymbol]
    refine ⟨?_, marked_recomputeAccount _ tsNs⟩
    exact (hquoted.process tsNs).clerical (Books.clerical_recomputeAccount _ tsNs)
      (Books.recomputeAccount_openOrders _ tsNs)
  · rw [onQuote_of_unknown hsymbol]
    exact h

theorem Audited.reject {b : PaperBroker} (h : Audited b) (q : OrderRequest) (nowNs : Nat)
    (reason : RejectReason) : Audited (b.reject q nowNs reason).2 :=
  ⟨⟨h.tallied.slotsOk, ⟨h.tallied.ledgered.balance, h.tallied.ledgered.commission⟩,
    h.tallied.openOrders⟩, ⟨h.marked.equity, h.marked.freeMargin, h.marked.openPositions⟩⟩

theorem Audited.submit {b : PaperBroker} (h : Audited b) (q : OrderRequest) (nowNs : Nat) :
    Audited (b.submit q nowNs).2 := by
  rcases submit_cases b q nowNs with ⟨reason, -, heq⟩ | ⟨-, -, heq⟩ | ⟨s, reason, -, halloc, -, heq⟩ |
    ⟨s, -, halloc, -, heq⟩
  · rw [heq]
    exact h.reject q nowNs reason
  · rw [heq]
    exact h.reject q nowNs .corruptedState
  · rw [heq]
    have htaken : Audited { b with slots := s.2 } :=
      ⟨⟨(forall_allocate halloc h.tallied.slotsOk (SlotOk.orphan orphan_default)).1, h.tallied.ledgered,
        h.tallied.openOrders.trans (workingCount_allocate halloc).1.symm⟩, h.marked⟩
    exact htaken.reject q nowNs reason
  · rw [heq]
    have hclerical := clerical_accept { b with slots := s.2 } s.1 q nowNs
    have hopen := accept_openOrders { b with slots := s.2 } s.1 q nowNs
    have hslot := slotOk_acceptedSlot { b with slots := s.2 } q nowNs
    have hcount := (workingCount_allocate halloc).2 (acceptedSlot { b with slots := s.2 } q nowNs)
    refine ⟨⟨?_, h.tallied.ledgered.clerical hclerical, ?_⟩, marked_refreshAccount _ nowNs⟩
    · rw [hclerical.config]
      exact (forall_allocate halloc h.tallied.slotsOk (SlotOk.orphan orphan_default)).2 _ hslot
    · rw [hopen, accept_slots, hcount, workingCount_of_working (x := acceptedSlot _ q nowNs) rfl]
      exact congrArg (· + 1) h.tallied.openOrders

theorem Audited.cancel {b : PaperBroker} (h : Audited b) (hrun : b.books.config.runId ≠ 0)
    (ref : BrokerOrderRef) (hown : ref.runId = b.books.config.runId) (nowNs : Nat) :
    Audited (b.cancel ref nowNs).2 := by
  rcases cancel_cases b ref nowNs with ⟨heq, -⟩ | ⟨l, x, r, hfound, heq⟩
  · rw [heq]
    exact h
  · obtain ⟨haccepted, hworking⟩ := hfound.working h.tallied.slotsOk hrun hown
    have hslots := h.tallied.slotsOk
    have hcount := h.tallied.openOrders
    have hclerical := clerical_cancelled b.books ref x nowNs
    rw [hfound.split] at hslots hcount
    rw [workingCount_split, workingCount_of_working hworking] at hcount
    have hended : isWorking (cancelled b.books ref x nowNs).2 = false := by
      rw [isWorking_eq ((sameTerms_cancelled b.books ref x nowNs).accepted haccepted)]
      rfl
    have hopen : (cancelled b.books ref x nowNs).1.account.openOrders =
        b.books.account.openOrders - 1 := Books.finish_openOrders _ _ nowNs .cancelled
    rw [heq]
    refine ⟨⟨?_, h.tallied.ledgered.clerical hclerical, ?_⟩, marked_refreshAccount _ nowNs⟩
    · rw [hclerical.config]
      exact forall_split hslots fun hx => slotOk_cancelled hx b.books ref nowNs
    · rw [workingCount_split, workingCount_of_not hended, hopen, hcount]
      omega

theorem Audited.replace {b : PaperBroker} (h : Audited b) (hrun : b.books.config.runId ≠ 0)
    (ref : BrokerOrderRef) (hown : ref.runId = b.books.config.runId) (price volume : Int) (nowNs : Nat) :
    Audited (b.replace ref price volume nowNs).2 := by
  rcases replace_cases b ref price volume nowNs with ⟨heq, -⟩ | ⟨l, x, r, hfound, -, heq⟩
  · rw [heq]
    exact h
  · obtain ⟨haccepted, hworking⟩ := hfound.working h.tallied.slotsOk hrun hown
    have hslots := h.tallied.slotsOk
    have hcount := h.tallied.openOrders
    rw [hfound.split] at hslots hcount
    have hrunId : x.order.ref.runId = b.books.config.runId := by rw [hfound.ref, hown]
    rw [heq]
    refine ⟨⟨?_, ⟨h.tallied.ledgered.balance, h.tallied.ledgered.commission⟩, ?_⟩,
      ⟨h.marked.equity, h.marked.freeMargin, h.marked.openPositions⟩⟩
    · exact forall_split hslots fun _ => SlotOk.accepted haccepted hrunId
    · rw [workingCount_split] at hcount ⊢
      rw [workingCount_of_working hworking] at hcount
      rw [workingCount_of_working (x := (replaced b.books ref x price volume nowNs).2) hworking]
      exact hcount

theorem Audited.step {b : PaperBroker} (h : Audited b) (hrun : b.books.config.runId ≠ 0) {a : Action}
    (hown : NamesOwnOrder b.books.config.runId a) : Audited (b.step a) := by
  cases a with
  | setSymbol spec =>
    unfold PaperBroker.step setSymbol
    dsimp only
    split
    · exact ⟨⟨h.tallied.slotsOk, ⟨h.tallied.ledgered.balance, h.tallied.ledgered.commission⟩,
        h.tallied.openOrders⟩, ⟨h.marked.equity, h.marked.freeMargin, h.marked.openPositions⟩⟩
    · exact h
  | onQuote symbolId bid ask bidSize askSize tsNs => exact h.onQuote symbolId bid ask bidSize askSize tsNs
  | submit q nowNs => exact h.submit q nowNs
  | cancel ref nowNs => exact h.cancel hrun ref hown nowNs
  | replace ref price volume nowNs => exact h.replace hrun ref hown price volume nowNs

/-- After every operation of every run the account identities hold, whatever is quoted,
submitted and configured, as long as cancels and replaces name orders by references of the run. -/
theorem account_identities (config : BrokerConfig) (hrun : config.runId ≠ 0) (actions : List Action)
    (hown : ∀ a ∈ actions, NamesOwnOrder config.runId a) :
    Runs.Throughout PaperBroker.step Identities (new config) actions := by
  have halong : Runs.Along PaperBroker.step (fun _ a => NamesOwnOrder config.runId a) (new config)
      actions := Runs.along_of_forall fun a ha _ => hown a ha
  have hkept : Runs.Throughout PaperBroker.step
      (fun b => Audited b ∧ b.books.config = config) (new config) actions := by
    refine Runs.throughout_of_along ?_ ⟨audited_new config, rfl⟩ halong
    rintro b a ⟨haudited, rfl⟩ ha
    exact ⟨haudited.step hrun ha, step_config b a⟩
  intro bs hbs
  exact (hkept bs hbs).1.identities

theorem account_identities_cancelled_order :
    Identities (after { initialBalanceMinor := 1000000 }
      [.onQuote 0 100 102 0 0 1, .submit { volume := 3 } 1, .cancel ⟨1, makeLogicalOrderId 0 0 0⟩ 2]) :=
  account_identities { initialBalanceMinor := 1000000 } (by decide)
    [.onQuote 0 100 102 0 0 1, .submit { volume := 3 } 1, .cancel ⟨1, makeLogicalOrderId 0 0 0⟩ 2]
    (by simp [NamesOwnOrder]) _ (List.prefix_refl _)

end PaperBroker

end MicrostructureEngine.Exec
