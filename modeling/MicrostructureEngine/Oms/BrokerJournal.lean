import MicrostructureEngine.Exec.AccountIdentities
import MicrostructureEngine.Exec.FillGates
import MicrostructureEngine.Lib.KeyedBoard
import MicrostructureEngine.Oms.JournalFreshness

/-!
# The journal of a broker that fills nothing

Of a run without fills the reader has, at every moment, exactly the orders that are working, no
position, and the account as it was last refreshed. `Restores` says so; every block of records that
such a broker writes keeps it, if the block is one that the reader takes.
-/

namespace MicrostructureEngine

set_option autoImplicit false

open Exec Books PaperBroker Recovery

/-! ## The account without positions -/

/-- No position was ever opened, and the account shows the balance and the reservation. -/
structure Flat (b : Books) : Prop where
  positions : b.positions.positions = []
  marked : b.marked = b.account
  running : b.account.stoppedOut = false
  solvent : MarginModel.stopOut b.account b.config.stopOutLevelBp = false
  realized : b.account.realizedPnlMinor = 0
  commission : b.account.commissionPaidMinor = 0

/-- The reader takes a refresh at this time, when this margin is reserved and no position is open:
it is the first of its time, it does not stop the account out and no figure of it is negative. -/
structure RefreshReadable (b : Books) (reservedMarginMinor : Int) (nowNs : Nat) : Prop where
  ordered : b.journal.lastTs ≤ nowNs
  first : b.journal.refreshedAt nowNs = false
  margin : 0 ≤ reservedMarginMinor
  free : reservedMarginMinor ≤ b.account.balanceMinor
  solvent : MarginModel.stopOut
    { marginUsedMinor := reservedMarginMinor, equityMinor := b.account.balanceMinor }
    b.config.stopOutLevelBp = false

instance (b : Books) (reservedMarginMinor : Int) (nowNs : Nat) :
    Decidable (RefreshReadable b reservedMarginMinor nowNs) :=
  decidable_of_iff
    (b.journal.lastTs ≤ nowNs ∧ b.journal.refreshedAt nowNs = false ∧ 0 ≤ reservedMarginMinor ∧
      reservedMarginMinor ≤ b.account.balanceMinor ∧
      MarginModel.stopOut
        { marginUsedMinor := reservedMarginMinor, equityMinor := b.account.balanceMinor }
        b.config.stopOutLevelBp = false)
    ⟨fun ⟨ho, hf, hm, hb, hs⟩ => ⟨ho, hf, hm, hb, hs⟩, fun h => ⟨h.1, h.2, h.3, h.4, h.5⟩⟩

/-- The reservation that is left when the order ends. -/
def Exec.Books.leftReserved (b : Books) (o : Order) : Int := (b.releaseReservation o).reservedMarginMinor

/-- The order in the slot is amended, and the amendment is not a repetition. -/
structure ReplaceReadable (b : Books) (x : OrderSlot) (newPriceTicks newVolume : Int) (nowNs : Nat) :
    Prop where
  state : x.order.state = .acknowledged
  before : 0 < x.order.limitPriceTicks
  after : 0 < newPriceTicks
  ordered : b.journal.lastTs ≤ nowNs
  fresh : b.journal.Fresh (replaceRecord b x.order.ref x newPriceTicks newVolume nowNs)

instance (b : Books) (x : OrderSlot) (newPriceTicks newVolume : Int) (nowNs : Nat) :
    Decidable (ReplaceReadable b x newPriceTicks newVolume nowNs) :=
  decidable_of_iff
    (x.order.state = .acknowledged ∧ 0 < x.order.limitPriceTicks ∧ 0 < newPriceTicks ∧
      b.journal.lastTs ≤ nowNs ∧
      b.journal.Fresh (replaceRecord b x.order.ref x newPriceTicks newVolume nowNs))
    ⟨fun ⟨hs, hb, ha, ho, hf⟩ => ⟨hs, hb, ha, ho, hf⟩, fun h => ⟨h.1, h.2, h.3, h.4, h.5⟩⟩

/-- The reader takes the records of the order: it has a name that is not in use, and its price is not
negative. -/
structure PlaceReadable (b : PaperBroker) (q : OrderRequest) (nowNs : Nat) : Prop where
  run : b.books.config.runId ≠ 0
  id : (b.requestRef q).logicalOrderId ≠ 0
  price : 0 ≤ q.limitPriceTicks
  absent : ∀ x ∈ b.slots, x.order.state.isTerminal = false → x.order.ref ≠ b.requestRef q
  refresh : RefreshReadable b.books (b.books.reservedMarginMinor + requestMargin b.books q) nowNs

instance (b : PaperBroker) (q : OrderRequest) (nowNs : Nat) : Decidable (PlaceReadable b q nowNs) :=
  decidable_of_iff
    (b.books.config.runId ≠ 0 ∧ (b.requestRef q).logicalOrderId ≠ 0 ∧ 0 ≤ q.limitPriceTicks ∧
      (∀ x ∈ b.slots, x.order.state.isTerminal = false → x.order.ref ≠ b.requestRef q) ∧
      RefreshReadable b.books (b.books.reservedMarginMinor + requestMargin b.books q) nowNs)
    ⟨fun ⟨hr, hi, hp, ha, hf⟩ => ⟨hr, hi, hp, ha, hf⟩, fun h => ⟨h.1, h.2, h.3, h.4, h.5⟩⟩

/-- The record of a refused request. -/
def refusalRecord (b : PaperBroker) (q : OrderRequest) (nowNs : Nat) (reason : RejectReason) :
    JournalRecord :=
  journalEntry .rejection nowNs b.books.config.runId (b.requestRef q).logicalOrderId q.symbolId 0
    reason.code q.volume q.limitPriceTicks 0

/-- The reader takes the record of a refusal: it names no order, or one in flight, and is not a
repetition. -/
structure RefusalReadable (b : PaperBroker) (q : OrderRequest) (nowNs : Nat) (reason : RejectReason) :
    Prop where
  symbolId : q.symbolId < maxSymbols
  named : (b.requestRef q).logicalOrderId = 0 ∨
    ∃ x ∈ b.slots, x.order.state = .sent ∧ x.order.ref = b.requestRef q
  ordered : b.books.journal.lastTs ≤ nowNs
  fresh : b.books.journal.Fresh (refusalRecord b q nowNs reason)

instance (b : PaperBroker) (q : OrderRequest) (nowNs : Nat) (reason : RejectReason) :
    Decidable (RefusalReadable b q nowNs reason) :=
  decidable_of_iff
    (q.symbolId < maxSymbols ∧
      ((b.requestRef q).logicalOrderId = 0 ∨
        ∃ x ∈ b.slots, x.order.state = .sent ∧ x.order.ref = b.requestRef q) ∧
      b.books.journal.lastTs ≤ nowNs ∧ b.books.journal.Fresh (refusalRecord b q nowNs reason))
    ⟨fun ⟨hs, hn, ho, hf⟩ => ⟨hs, hn, ho, hf⟩, fun h => ⟨h.1, h.2, h.3, h.4⟩⟩

theorem marked_of_no_position {b : Books} (h : b.positions.positions = []) :
    b.marked =
      { b.account with
        unrealizedPnlMinor := 0
        marginUsedMinor := b.reservedMarginMinor
        equityMinor := b.account.balanceMinor
        freeMarginMinor := b.account.balanceMinor - b.reservedMarginMinor
        openPositions := 0 } := by
  unfold marked PositionBook.openCount
  simp only [h, List.map_nil, List.sum_nil, List.filter_nil, List.length_nil, Int.zero_add, Int.add_zero]

theorem recomputeAccount_of_solvent {b : Books}
    (hsolvent : MarginModel.stopOut b.marked b.config.stopOutLevelBp = false) (nowNs : Nat) :
    b.recomputeAccount nowNs = { b with account := b.marked } := by
  unfold recomputeAccount
  dsimp only
  rw [if_neg]
  rw [hsolvent, Bool.and_false]
  exact Bool.false_ne_true

namespace Flat

variable {b c : Books}

theorem recomputeAccount (h : Flat b) (nowNs : Nat) : b.recomputeAccount nowNs = b := by
  rw [recomputeAccount_of_solvent (h.marked ▸ h.solvent), h.marked]

/-- Nothing that the account depends on changes. -/
theorem congr (h : Flat b) (hconfig : c.config = b.config) (hpositions : c.positions = b.positions)
    (haccount : c.account = b.account) (hreserved : c.reservedMarginMinor = b.reservedMarginMinor) :
    Flat c := by
  have hmarked : c.marked = b.marked := by
    rw [marked_of_no_position h.positions, marked_of_no_position (hpositions ▸ h.positions), haccount,
      hreserved]
  refine ⟨?_, ?_, ?_, ?_, ?_, ?_⟩
  · rw [hpositions]
    exact h.positions
  · rw [hmarked, haccount]
    exact h.marked
  · rw [haccount]
    exact h.running
  · rw [haccount, hconfig]
    exact h.solvent
  · rw [haccount]
    exact h.realized
  · rw [haccount]
    exact h.commission

/-- What a refresh leaves, after work that moved the reservation and the number of orders. -/
theorem refresh (h : Flat b) {openOrders nowNs : Nat} (hconfig : c.config = b.config)
    (hpositions : c.positions = b.positions)
    (haccount : c.account = { b.account with openOrders := openOrders })
    (hr : RefreshReadable b c.reservedMarginMinor nowNs) :
    Flat (c.refreshAccount nowNs) ∧ Reading.Accountable (c.refreshAccount nowNs).account ∧
      (c.refreshAccount nowNs).config = b.config ∧
      (c.refreshAccount nowNs).journal = c.journal.emits
        (Reading.accountRecords nowNs b.config.runId (c.refreshAccount nowNs).account) := by
  have hnone : c.positions.positions = [] := by
    rw [hpositions]
    exact h.positions
  have hmarked := marked_of_no_position hnone
  have hrunning : c.account.stoppedOut = false := by
    rw [haccount]
    exact h.running
  have hbalance : c.account.balanceMinor = b.account.balanceMinor := by
    rw [haccount]
  have hsolvent : MarginModel.stopOut c.marked c.config.stopOutLevelBp = false := by
    rw [hmarked, hconfig, hbalance]
    exact hr.solvent
  have hrecomputed := recomputeAccount_of_solvent hsolvent nowNs
  have haccount' : (c.refreshAccount nowNs).account = c.marked := by
    rw [refreshAccount_account, hrecomputed]
  have hkept := clerical_refreshAccount c nowNs
  have hreserved := refreshAccount_reserved c nowNs
  refine ⟨⟨?_, ?_, ?_, ?_, ?_, ?_⟩, ⟨?_, ?_, ?_, ?_⟩, hkept.config.trans hconfig, ?_⟩
  · rw [hkept.positions]
    exact hnone
  · rw [marked_of_no_position (hkept.positions ▸ hnone), haccount', hreserved, hmarked]
  · rw [haccount', hmarked]
    exact hrunning
  · rw [haccount', hkept.config]
    exact hsolvent
  · rw [haccount', hmarked, haccount]
    exact h.realized
  · rw [haccount', hmarked, haccount]
    exact h.commission
  · rw [haccount', hmarked]
    exact hr.margin
  · rw [haccount', hmarked, hbalance]
    exact Int.sub_nonneg_of_le hr.free
  · rw [haccount', hmarked]
  · rw [haccount', hmarked]
    exact (Int.add_zero _).symm
  · unfold refreshAccount
    dsimp only
    rw [hrecomputed]
    dsimp only
    rw [hconfig]
    rfl

end Flat

/-! ## Blocks of records -/

theorem samePayload_of_type {r q : JournalRecord} (h : r.type ≠ q.type) : samePayload r q = false := by
  by_contra hsame
  have hpayload := payload_eq_of_same (Bool.not_eq_false _ ▸ hsame)
  have htype : r.payload.type = q.payload.type := congrArg JournalRecord.type hpayload
  exact h htype

theorem headerOk_journalEntry (type : JournalRecordType) {tsNs symbolId : Nat} (runId id ticket : UInt64)
    (a b c d : Int) (h : symbolId < maxSymbols) :
    headerOk (journalEntry type tsNs runId id symbolId ticket a b c d) tsNs = true := by
  have hpos := type.code_pos
  have hle := type.code_le
  unfold headerOk journalEntry
  simp [h, hpos, hle]

/-- A record about an order that comes with a refresh of the account. -/
structure OrderRecord (nowNs : Nat) (q : JournalRecord) : Prop where
  time : q.tsNs = nowNs ∧ headerOk q nowNs = true
  settled : isLoose q = false
  order : orderRecord q = true

theorem orderRecord_journalEntry {type : JournalRecordType} {nowNs symbolId : Nat}
    {runId id ticket : UInt64} {a b c d : Int} (h : symbolId < maxSymbols)
    (hsettled : isLoose (journalEntry type nowNs runId id symbolId ticket a b c d) = false)
    (horder : orderRecord (journalEntry type nowNs runId id symbolId ticket a b c d) = true) :
    OrderRecord nowNs (journalEntry type nowNs runId id symbolId ticket a b c d) :=
  ⟨⟨rfl, headerOk_journalEntry type runId id ticket a b c d h⟩, hsettled, horder⟩

/-- The two records of a refresh are of their own types. -/
theorem accountRecords_type {tsNs : Nat} {runId : UInt64} {account : AccountState} {q : JournalRecord}
    (h : q ∈ Reading.accountRecords tsNs runId account) :
    orderRecord q = false ∧ isLoose q = false ∧ q.tsNs = tsNs ∧ headerOk q tsNs = true := by
  have hheader : ∀ (type : JournalRecordType) (a b c d : Int),
      headerOk (journalEntry type tsNs runId 0 0 0 a b c d) tsNs = true :=
    fun type a b c d => headerOk_journalEntry type runId 0 0 a b c d (by decide)
  rcases List.mem_cons.mp h with rfl | h
  · exact ⟨rfl, rfl, rfl, hheader ..⟩
  · rw [List.mem_singleton.mp h]
    exact ⟨rfl, rfl, rfl, hheader ..⟩

/-- Records about one order, and a refresh behind them. -/
theorem Replayed.refreshed {mode : MarginMode} {j : Journal} {σ τ : Reading} {r : JournalRecord}
    {rs : List JournalRecord} {nowNs : Nat} {runId : UInt64} {account : AccountState}
    (h : Replayed mode j σ) (haccepts : σ.AcceptsAll (r :: rs) τ)
    (hrecords : ∀ q ∈ r :: rs, OrderRecord nowNs q)
    (hdistinct : (r :: rs).Pairwise fun r q => samePayload q r = false)
    (haccount : Reading.Accountable account)
    (hflow : (j.emits (r :: rs ++ Reading.accountRecords nowNs runId account)).overflowed = false)
    (hlast : j.lastTs ≤ nowNs) (hfirst : j.refreshedAt nowNs = false) {ref : BrokerOrderRef}
    {t : Option OrderEntry} (horders : τ.orders = Function.update σ.orders ref t)
    (ht : t = none ∨ σ.orders ref = none) :
    Replayed mode (j.emits (r :: rs ++ Reading.accountRecords nowNs runId account))
      (τ.settle account) := by
  have hmem : ∀ q ∈ r :: rs ++ Reading.accountRecords nowNs runId account,
      q ∈ r :: rs ∨ q ∈ Reading.accountRecords nowNs runId account :=
    fun q hq => List.mem_append.mp hq
  have htime : ∀ q ∈ r :: rs ++ Reading.accountRecords nowNs runId account,
      q.tsNs = nowNs ∧ headerOk q nowNs = true := by
    intro q hq
    rcases hmem q hq with hq | hq
    · exact (hrecords q hq).time
    · exact (accountRecords_type hq).2.2
  have hloose : ∀ q ∈ r :: rs ++ Reading.accountRecords nowNs runId account, isLoose q = false := by
    intro q hq
    rcases hmem q hq with hq | hq
    · exact (hrecords q hq).settled
    · exact (accountRecords_type hq).2.1
  have hdistinct' : (r :: rs ++ Reading.accountRecords nowNs runId account).Pairwise
      fun r q => samePayload q r = false := by
    apply List.pairwise_append.mpr
    have htypes : JournalRecordType.pnlUpdate.code ≠ JournalRecordType.accountUpdate.code := by decide
    refine ⟨hdistinct, List.pairwise_pair.mpr (samePayload_of_type htypes), ?_⟩
    intro p hp q hq
    apply samePayload_of_type
    intro htype
    have hsame : orderRecord q = orderRecord p := congrArg (fun n => orderRecord { type := n }) htype
    rw [(hrecords p hp).order, (accountRecords_type hq).1] at hsame
    cases hsame
  have hpnl : ∃ q ∈ r :: rs ++ Reading.accountRecords nowNs runId account,
      q.type = JournalRecordType.pnlUpdate.code := by
    refine ⟨_, List.mem_append_right _ (List.mem_cons_of_mem _ List.mem_cons_self), rfl⟩
  have hall := haccepts.append (Reading.acceptsAll_account (σ := τ) nowNs runId haccount)
  exact h.settled hall hflow hlast hfirst htime hdistinct' hloose hpnl horders ht

/-! ## What the reader has -/

/-- What the reader has of a slot. -/
def listing (x : OrderSlot) : Option OrderEntry := if isWorking x then some (entry x.order) else none

theorem listing_of_working {x : OrderSlot} (h : isWorking x = true) : listing x = some (entry x.order) :=
  if_pos h

theorem listing_of_not {x : OrderSlot} (h : isWorking x = false) : listing x = none := by
  unfold listing
  rw [h]
  rfl

theorem working_live {x : OrderSlot} (h : isWorking x = true) : x.order.state.isTerminal = false := by
  unfold isWorking at h
  simpa using (Bool.and_eq_true_iff.mp h).2

/-- An order in flight or acknowledged was accepted. -/
theorem working_of_state {runId : UInt64} {x : OrderSlot} (hok : SlotOk runId x)
    (hstate : x.order.state = .sent ∨ x.order.state = .acknowledged) : isWorking x = true := by
  cases hok with
  | accepted haccepted _ =>
    rw [isWorking_eq haccepted]
    rcases hstate with hstate | hstate
    · rw [hstate]
      rfl
    · rw [hstate]
      rfl
  | orphan horphan =>
    rcases horphan.state with hidle | hidle
    all_goals
      rw [hidle] at hstate
      rcases hstate with hn | hn
      · cases hn
      · cases hn

theorem working_movedTo {x : OrderSlot} {next : OrderState} (hx : isWorking x = true)
    (h : next.isTerminal = false) : isWorking (movedTo x next) = true := by
  unfold isWorking at hx ⊢
  rw [Bool.and_eq_true] at hx ⊢
  refine ⟨(sameTerms_movedTo x next).accepted hx.1, ?_⟩
  unfold movedTo
  rw [h]
  rfl

theorem not_working_finished (x : OrderSlot) {terminal : OrderState} (h : terminal.isTerminal = true)
    (nowNs : Nat) : isWorking (finished x terminal nowNs) = false := by
  unfold isWorking finished
  dsimp only
  rw [h, Bool.not_true, Bool.and_false]

/-- An order of this run of which nothing was filled. -/
structure Unfilled (runId : UInt64) (x : OrderSlot) : Prop where
  run : x.order.ref.runId = runId
  filled : x.order.filledVolume = 0
  requested : 0 < x.order.requestedVolume
  symbolId : x.order.symbolId < maxSymbols

/-- The account as the broker opens it. -/
def openingFigures (config : BrokerConfig) : AccountState :=
  { balanceMinor := config.initialBalanceMinor, equityMinor := config.initialBalanceMinor,
    freeMarginMinor := config.initialBalanceMinor }

/-- Before the first refresh the journal says nothing of the account. -/
structure Unsettled (b : Books) (σ : Reading) : Prop where
  journal : ∀ tsNs, b.journal.refreshedAt tsNs = false
  reading : σ.account = {}
  account : b.account.figures = openingFigures b.config

/-- The reader has read the journal, and has the orders that are working, no position, and the
account as it is. -/
structure Restores (mode : MarginMode) (b : Books) (slots : List OrderSlot) (σ : Reading) : Prop where
  flat : Flat b
  unfilled : ∀ x ∈ slots, isWorking x = true → Unfilled b.config.runId x
  replayed : Replayed mode b.journal σ
  shows : KeyedBoard.Shows OrderEntry.ref (slots.filterMap listing) σ.orders
  positions : σ.positions = []
  flags : σ.haveAccount = σ.havePnl
  account : σ.account = b.account.figures ∨ Unsettled b σ

section Shown

variable {l r : List OrderSlot} {x y : OrderSlot} {f : BrokerOrderRef → Option OrderEntry}

/-- A working order ends or changes. -/
theorem shows_replace (h : KeyedBoard.Shows OrderEntry.ref ((l ++ x :: r).filterMap listing) f)
    (hx : isWorking x = true) (hy : y.order.ref = x.order.ref) :
    KeyedBoard.Shows OrderEntry.ref ((l ++ y :: r).filterMap listing)
      (Function.update f x.order.ref (listing y)) := by
  have ht : ∀ v, listing y = some v → v.ref = (entry x.order).ref := by
    intro v hv
    unfold listing at hv
    split at hv
    · cases hv
      exact hy
    · cases hv
  rw [SlotTable.filterMap_split, listing_of_working hx] at h
  rw [SlotTable.filterMap_split]
  exact h.replace ht

theorem reads_of_working (h : KeyedBoard.Shows OrderEntry.ref ((l ++ x :: r).filterMap listing) f)
    (hx : isWorking x = true) : f x.order.ref = some (entry x.order) := by
  apply (h.exact (entry x.order)).mp
  rw [SlotTable.filterMap_split, listing_of_working hx]
  exact List.mem_append_right _ List.mem_cons_self

/-- Nothing that is read of the slots changes. -/
theorem shows_of_forall₂ {xs ys : List OrderSlot} (hq : List.Forall₂ SameButQueue xs ys)
    (h : KeyedBoard.Shows OrderEntry.ref (xs.filterMap listing) f) :
    KeyedBoard.Shows OrderEntry.ref (ys.filterMap listing) f := by
  have hsame : ys.filterMap listing = xs.filterMap listing := by
    apply SlotTable.filterMap_of_forall₂ _ hq
    intro x y hxy
    rw [hxy]
    rfl
  rw [hsame]
  exact h

end Shown

namespace Restores

variable {mode : MarginMode} {b d : Books} {slots slots' : List OrderSlot} {σ : Reading} {nowNs : Nat}
  {q : JournalRecord} {qs : List JournalRecord} {ref : BrokerOrderRef} {t : Option OrderEntry}

/-- A block of records with a refresh behind it: an order ends, or one is placed. -/
theorem refreshed (h : Restores mode b slots σ) {openOrders : Nat} (hconfig : d.config = b.config)
    (hpositions : d.positions = b.positions)
    (haccount : d.account = { b.account with openOrders := openOrders })
    (hr : RefreshReadable b d.reservedMarginMinor nowNs) (hjournal : d.journal = b.journal.emits (q :: qs))
    (haccepts : σ.AcceptsAll (q :: qs) (σ.setOrder ref t))
    (hblock : ∀ p ∈ q :: qs, OrderRecord nowNs p)
    (hdistinct : (q :: qs).Pairwise fun r q => samePayload q r = false)
    (ht : t = none ∨ σ.orders ref = none)
    (hunfilled : ∀ x ∈ slots', isWorking x = true → Unfilled b.config.runId x)
    (hshows : KeyedBoard.Shows OrderEntry.ref (slots'.filterMap listing) (Function.update σ.orders ref t))
    (hflow : (d.refreshAccount nowNs).journal.overflowed = false) :
    ∃ τ, Restores mode (d.refreshAccount nowNs) slots' τ := by
  obtain ⟨hflat, haccountable, hconfig', hrecords⟩ := h.flat.refresh hconfig hpositions haccount hr
  generalize (d.refreshAccount nowNs) = c at hflat haccountable hconfig' hrecords hflow ⊢
  rw [hjournal, ← Journal.emits_append] at hrecords
  refine ⟨(σ.setOrder ref t).settle c.account, hflat, ?_, ?_, hshows, h.positions, rfl, Or.inl rfl⟩
  · rw [hconfig']
    exact hunfilled
  · rw [hrecords] at hflow ⊢
    exact h.replayed.refreshed haccepts hblock hdistinct haccountable hflow hr.ordered hr.first rfl ht

/-- A block of records that comes without a refresh. -/
theorem continued (h : Restores mode b slots σ) (hconfig : d.config = b.config)
    (hpositions : d.positions = b.positions) (haccount : d.account = b.account)
    (hreserved : d.reservedMarginMinor = b.reservedMarginMinor)
    (hjournal : d.journal = b.journal.emits qs)
    (hloose : ∀ q ∈ qs, isLoose q = true)
    (hreplayed : Replayed mode d.journal (σ.setOrder ref t))
    (hunfilled : ∀ x ∈ slots', isWorking x = true → Unfilled b.config.runId x)
    (hshows : KeyedBoard.Shows OrderEntry.ref (slots'.filterMap listing) (Function.update σ.orders ref t))
    (hflow : d.journal.overflowed = false) : Restores mode d slots' (σ.setOrder ref t) := by
  refine ⟨h.flat.congr hconfig hpositions haccount hreserved, ?_, hreplayed, hshows, h.positions,
    h.flags, ?_⟩
  · rw [hconfig]
    exact hunfilled
  · rcases h.account with hsettled | hunsettled
    · rw [haccount]
      exact Or.inl hsettled
    · refine Or.inr ⟨fun tsNs => ?_, hunsettled.reading, ?_⟩
      · rw [hjournal] at hflow ⊢
        rw [Journal.refreshedAt_emits hflow, hunsettled.journal tsNs, Bool.false_or, List.any_eq_false]
        intro q hq htype
        rw [Bool.and_eq_true, beq_iff_eq] at htype
        have hpnl := hloose q hq
        unfold isLoose isAck at hpnl
        rw [htype.1] at hpnl
        cases hpnl
      · rw [haccount, hconfig]
        exact hunsettled.account

/-- Nothing that the reader or the account knows of changes. -/
theorem congr (h : Restores mode b slots σ) (hconfig : d.config = b.config)
    (hpositions : d.positions = b.positions) (haccount : d.account = b.account)
    (hreserved : d.reservedMarginMinor = b.reservedMarginMinor) (hjournal : d.journal = b.journal) :
    Restores mode d slots σ := by
  refine ⟨h.flat.congr hconfig hpositions haccount hreserved, ?_, ?_, h.shows, h.positions, h.flags,
    ?_⟩
  · rw [hconfig]
    exact h.unfilled
  · rw [hjournal]
    exact h.replayed
  · rw [haccount]
    refine h.account.imp_right fun hunsettled => ⟨?_, hunsettled.reading, ?_⟩
    · rw [hjournal]
      exact hunsettled.journal
    · rw [haccount, hconfig]
      exact hunsettled.account

theorem halt (h : Restores mode b slots σ) (reason : RejectReason) :
    Restores mode (b.halt reason) slots σ :=
  h.congr (clerical_halt b reason).config (clerical_halt b reason).positions (halt_account b reason)
    (halt_reserved b reason) (halt_journal b reason)

/-- The queue of an order is nothing to the reader. -/
theorem queue (h : Restores mode b slots σ) (hq : List.Forall₂ SameButQueue slots slots') :
    Restores mode b slots' σ := by
  refine ⟨h.flat, ?_, h.replayed, shows_of_forall₂ hq h.shows, h.positions, h.flags, h.account⟩
  refine SlotTable.forall_of_forall₂
    (Q := fun y => isWorking y = true → Unfilled b.config.runId y) ?_ hq h.unfilled
  intro x y hxy hx hworking
  rw [hxy] at hworking ⊢
  have hunfilled := hx hworking
  exact ⟨hunfilled.run, hunfilled.filled, hunfilled.requested, hunfilled.symbolId⟩

end Restores

/-! ## What the broker writes -/

/-- An order that was placed, as the reader has it. -/
def placedEntry (b : PaperBroker) (q : OrderRequest) : OrderEntry :=
  ⟨b.requestRef q, .sent, q.volume, 0, q.limitPriceTicks⟩

/-- What a request has passed when it is placed. -/
theorem admitted_of_entryRefusal {b : PaperBroker} {q : OrderRequest} {nowNs : Nat}
    (h : b.entryRefusal q nowNs = none) :
    (q.type = .market ∨ q.type = .limit) ∧ q.symbolId < maxSymbols ∧ 0 < q.volume := by
  unfold entryRefusal at h
  grind

/-- The record of a move of the order in the slot. -/
def moveRecord (runId : UInt64) (x : OrderSlot) (previous next : OrderState) (nowNs : Nat) :
    JournalRecord :=
  journalEntry .orderState nowNs runId x.order.ref.logicalOrderId x.order.symbolId 0 previous.code
    next.code x.order.filledVolume x.order.remaining

namespace Unfilled

variable {σ : Reading} {runId : UInt64} {x : OrderSlot} {nowNs : Nat}

theorem ref (h : Unfilled runId x) : BrokerOrderRef.mk runId x.order.ref.logicalOrderId = x.order.ref := by
  rw [← h.run]

theorem remaining (h : Unfilled runId x) : x.order.remaining = x.order.requestedVolume := by
  unfold Order.remaining
  rw [h.filled, Int.sub_zero]

theorem accepts_move (h : Unfilled runId x) {s next : OrderState}
    (hv : σ.orders x.order.ref = some { entry x.order with state := s }) (hlegal : legal s next = true) :
    σ.Accepts (moveRecord runId x s next nowNs)
      (σ.setOrder x.order.ref
        (if next.isTerminal then none else some { entry x.order with state := next })) := by
  have hfilled : (0 : Int) ≤ { entry x.order with state := s }.filledVolume := Int.le_of_eq h.filled.symm
  have hrequested : (0 : Int) ≤ { entry x.order with state := s }.requestedVolume :=
    Int.le_of_lt h.requested
  unfold moveRecord
  rw [← h.ref] at hv ⊢
  rw [h.remaining]
  exact Reading.accepts_transition nowNs runId x.order.ref.logicalOrderId x.order.symbolId next hv
    hfilled hrequested hlegal

theorem orderRecord_move (h : Unfilled runId x) (s : OrderState) {next : OrderState}
    (hnext : next ≠ .acknowledged) : OrderRecord nowNs (moveRecord runId x s next nowNs) := by
  refine orderRecord_journalEntry h.symbolId ?_ rfl
  cases next with
  | acknowledged => exact absurd rfl hnext
  | _ => rfl

end Unfilled

namespace Restores

variable {mode : MarginMode} {b d : Books} {l r : List OrderSlot} {x y : OrderSlot} {σ : Reading}
  {nowNs : Nat}

theorem working (h : Restores mode b (l ++ x :: r) σ) (hx : isWorking x = true) :
    Unfilled b.config.runId x ∧ σ.orders x.order.ref = some (entry x.order) :=
  ⟨h.unfilled x (List.mem_append_right _ List.mem_cons_self) hx, reads_of_working h.shows hx⟩

/-- The records of an order that ends, with a refresh behind them. -/
theorem ended (h : Restores mode b (l ++ x :: r) σ) (hx : isWorking x = true) (hy : isWorking y = false)
    (href : y.order.ref = x.order.ref) {openOrders : Nat} (hconfig : d.config = b.config)
    (hpositions : d.positions = b.positions)
    (haccount : d.account = { b.account with openOrders := openOrders })
    (hr : RefreshReadable b d.reservedMarginMinor nowNs) {q : JournalRecord} {qs : List JournalRecord}
    (hjournal : d.journal = b.journal.emits (q :: qs))
    (haccepts : σ.AcceptsAll (q :: qs) (σ.setOrder x.order.ref none))
    (hrecords : ∀ p ∈ q :: qs, OrderRecord nowNs p)
    (hdistinct : (q :: qs).Pairwise fun r q => samePayload q r = false)
    (hflow : (d.refreshAccount nowNs).journal.overflowed = false) :
    ∃ τ, Restores mode (d.refreshAccount nowNs) (l ++ y :: r) τ := by
  have hshows := shows_replace h.shows hx href
  rw [listing_of_not hy] at hshows
  refine h.refreshed hconfig hpositions haccount hr hjournal haccepts hrecords hdistinct (Or.inl rfl) ?_
    hshows hflow
  refine forall_split h.unfilled fun _ hworking => ?_
  rw [hy] at hworking
  cases hworking

theorem expired (h : Restores mode b (l ++ x :: r) σ) (hx : isWorking x = true)
    (hstate : x.order.state = .acknowledged) (hr : RefreshReadable b (b.leftReserved x.order) nowNs)
    (hflow : (b.finish x .expired nowNs).1.journal.overflowed = false) :
    ∃ τ, Restores mode (b.finish x .expired nowNs).1 (l ++ (b.finish x .expired nowNs).2 :: r) τ := by
  obtain ⟨hunfilled, hread⟩ := h.working hx
  have hv : σ.orders x.order.ref = some { entry x.order with state := .acknowledged } := by
    rw [hread, ← hstate]
    rfl
  have hmove : σ.AcceptsAll [moveRecord b.config.runId x .acknowledged .expired nowNs]
      (σ.setOrder x.order.ref none) :=
    Reading.AcceptsAll.cons (hunfilled.accepts_move hv rfl) Reading.AcceptsAll.nil
  rw [finish_slot]
  unfold Books.finish at hflow ⊢
  refine h.ended hx (not_working_finished x rfl nowNs) rfl rfl rfl rfl hr ?_ hmove ?_
    (List.pairwise_singleton _ _) hflow
  · unfold moveRecord
    rw [← hstate]
    rfl
  · exact List.forall_mem_singleton.mpr (hunfilled.orderRecord_move _ (by decide))

theorem rejected (h : Restores mode b (l ++ x :: r) σ) (hx : isWorking x = true)
    (hstate : x.order.state = .sent) (hr : RefreshReadable b (b.leftReserved x.order) nowNs)
    (hflow : (b.rejectSent x nowNs).1.journal.overflowed = false) :
    ∃ τ, Restores mode (b.rejectSent x nowNs).1 (l ++ (b.rejectSent x nowNs).2 :: r) τ := by
  obtain ⟨hunfilled, hread⟩ := h.working hx
  have hv : σ.orders x.order.ref = some { entry x.order with state := .sent } := by
    rw [hread, ← hstate]
    rfl
  have hcode : (0 : Int) < RejectReason.probabilisticReject.code := by decide
  have hrejection : σ.Accepts (journalEntry .rejection nowNs b.config.runId x.order.ref.logicalOrderId
      x.order.symbolId 0 RejectReason.probabilisticReject.code 0 0 0) σ := by
    rw [← hunfilled.ref] at hv
    exact Reading.accepts_rejection nowNs _ _ _ hv rfl hcode
  have hmoves : σ.AcceptsAll
      [journalEntry .rejection nowNs b.config.runId x.order.ref.logicalOrderId x.order.symbolId 0
          RejectReason.probabilisticReject.code 0 0 0,
        moveRecord b.config.runId x .sent .rejected nowNs] (σ.setOrder x.order.ref none) :=
    Reading.AcceptsAll.cons hrejection
      (Reading.AcceptsAll.cons (hunfilled.accepts_move hv rfl) Reading.AcceptsAll.nil)
  rw [rejectSent_slot]
  unfold rejectSent Books.finish at hflow ⊢
  refine h.ended hx (not_working_finished x rfl nowNs) rfl rfl rfl rfl hr ?_ hmoves ?_ ?_ hflow
  · unfold moveRecord
    rw [← hstate]
    rfl
  · rw [List.forall_mem_cons]
    exact ⟨orderRecord_journalEntry hunfilled.symbolId rfl rfl,
      List.forall_mem_singleton.mpr (hunfilled.orderRecord_move _ (by decide))⟩
  · have htypes : JournalRecordType.orderState.code ≠ JournalRecordType.rejection.code := by decide
    exact List.pairwise_pair.mpr (samePayload_of_type htypes)

/-- Three records of one order, of which the two moves leave different states. -/
theorem cancelled (h : Restores mode b (l ++ x :: r) σ) (hx : isWorking x = true)
    (hstate : x.order.state = .acknowledged) (hr : RefreshReadable b (b.leftReserved x.order) nowNs)
    (hflow : (cancelled b x.order.ref x nowNs).1.journal.overflowed = false) :
    ∃ τ, Restores mode (PaperBroker.cancelled b x.order.ref x nowNs).1
      (l ++ (PaperBroker.cancelled b x.order.ref x nowNs).2 :: r) τ := by
  obtain ⟨hunfilled, hread⟩ := h.working hx
  have hv : σ.orders x.order.ref = some { entry x.order with state := .acknowledged } := by
    rw [hread, ← hstate]
    rfl
  let pending : OrderEntry := { entry x.order with state := .cancelPending }
  have hpending : σ.Accepts (moveRecord b.config.runId x .acknowledged .cancelPending nowNs)
      (σ.setOrder x.order.ref (some pending)) := hunfilled.accepts_move hv rfl
  have hremaining : 0 ≤ x.order.remaining := by
    rw [hunfilled.remaining]
    exact Int.le_of_lt hunfilled.requested
  have hcancel : (σ.setOrder x.order.ref (some pending)).Accepts
      (journalEntry .cancel nowNs b.config.runId x.order.ref.logicalOrderId x.order.symbolId 0
        x.order.remaining 0 0 0) (σ.setOrder x.order.ref (some pending)) := by
    refine Reading.accepts_cancel (v := pending) nowNs _ _ _ ?_ rfl hremaining
    rw [hunfilled.ref]
    exact Reading.setOrder_self σ x.order.ref (some pending)
  have hcancelled : (σ.setOrder x.order.ref (some pending)).Accepts
      (moveRecord b.config.runId x .cancelPending .cancelled nowNs) (σ.setOrder x.order.ref none) := by
    have haccepts : (σ.setOrder x.order.ref (some pending)).Accepts
        (moveRecord b.config.runId x .cancelPending .cancelled nowNs)
        ((σ.setOrder x.order.ref (some pending)).setOrder x.order.ref none) :=
      hunfilled.accepts_move (Reading.setOrder_self σ x.order.ref (some pending)) rfl
    rwa [Reading.setOrder_setOrder] at haccepts
  have hmoves : σ.AcceptsAll
      [moveRecord b.config.runId x .acknowledged .cancelPending nowNs,
        journalEntry .cancel nowNs b.config.runId x.order.ref.logicalOrderId x.order.symbolId 0
          x.order.remaining 0 0 0,
        moveRecord b.config.runId x .cancelPending .cancelled nowNs] (σ.setOrder x.order.ref none) :=
    Reading.AcceptsAll.cons hpending
      (Reading.AcceptsAll.cons hcancel (Reading.AcceptsAll.cons hcancelled Reading.AcceptsAll.nil))
  unfold PaperBroker.cancelled Books.finish at hflow ⊢
  have hended : isWorking (finished (movedTo x .cancelPending) .cancelled nowNs) = false :=
    not_working_finished _ rfl nowNs
  refine h.ended hx hended rfl rfl rfl rfl hr ?_ hmoves ?_ ?_ hflow
  · unfold moveRecord
    rw [← hstate]
    rfl
  · rw [List.forall_mem_cons, List.forall_mem_cons]
    exact ⟨hunfilled.orderRecord_move _ (by decide), orderRecord_journalEntry hunfilled.symbolId rfl rfl,
      List.forall_mem_singleton.mpr (hunfilled.orderRecord_move _ (by decide))⟩
  · have htypes : JournalRecordType.cancel.code ≠ JournalRecordType.orderState.code := by decide
    rw [List.pairwise_cons, List.forall_mem_cons]
    refine ⟨⟨samePayload_of_type htypes, List.forall_mem_singleton.mpr ?_⟩,
      List.pairwise_pair.mpr (samePayload_of_type htypes.symm)⟩
    by_contra hsame
    have hpayload := payload_eq_of_same (Bool.not_eq_false _ ▸ hsame)
    have ha : OrderState.cancelPending.code = OrderState.acknowledged.code :=
      congrArg JournalRecord.a hpayload
    exact absurd ha (by decide)

theorem acknowledged (h : Restores mode b (l ++ x :: r) σ) (hx : isWorking x = true)
    (hstate : x.order.state = .sent) (hlast : b.journal.lastTs ≤ nowNs)
    (heffective : 0 ≤ toInt64 x.order.tsEffectiveNs)
    (hflow : (b.acknowledge x nowNs).1.journal.overflowed = false) :
    ∃ τ, Restores mode (b.acknowledge x nowNs).1 (l ++ (b.acknowledge x nowNs).2 :: r) τ := by
  obtain ⟨hunfilled, hread⟩ := h.working hx
  have hv : σ.orders x.order.ref = some { entry x.order with state := .sent } := by
    rw [hread, ← hstate]
    rfl
  let done : OrderEntry := { entry x.order with state := .acknowledged }
  have hmove : σ.Accepts (moveRecord b.config.runId x .sent .acknowledged nowNs)
      (σ.setOrder x.order.ref (some done)) := hunfilled.accepts_move hv rfl
  have hack : (σ.setOrder x.order.ref (some done)).Accepts (b.ackRecord x nowNs)
      (σ.setOrder x.order.ref (some done)) := by
    refine Reading.accepts_acknowledgement (v := done) nowNs _ _ _ ?_ rfl heffective
    rw [hunfilled.ref]
    exact Reading.setOrder_self σ x.order.ref (some done)
  have hmoves : σ.AcceptsAll [moveRecord b.config.runId x .sent .acknowledged nowNs, b.ackRecord x nowNs]
      (σ.setOrder x.order.ref (some done)) :=
    Reading.AcceptsAll.cons hmove (Reading.AcceptsAll.cons hack Reading.AcceptsAll.nil)
  have hjournal : (b.acknowledge x nowNs).1.journal = b.journal.emits
      [moveRecord b.config.runId x .sent .acknowledged nowNs, b.ackRecord x nowNs] := by
    unfold moveRecord
    rw [← hstate]
    rfl
  have hrefs : ∀ q ∈ [moveRecord b.config.runId x .sent .acknowledged nowNs, b.ackRecord x nowNs],
      q.ref = x.order.ref ∧ isAck q = true ∧ isLoose q = true ∧ q.tsNs = nowNs ∧
        headerOk q nowNs = true := by
    rw [List.forall_mem_cons, List.forall_mem_singleton]
    exact ⟨⟨hunfilled.ref, rfl, rfl, rfl, headerOk_journalEntry _ _ _ _ _ _ _ _ hunfilled.symbolId⟩,
      hunfilled.ref, rfl, rfl, rfl, headerOk_journalEntry _ _ _ _ _ _ _ _ hunfilled.symbolId⟩
  have hreplayed : Replayed mode (b.acknowledge x nowNs).1.journal
      (σ.setOrder x.order.ref (some done)) := by
    rw [hjournal] at hflow ⊢
    refine h.replayed.loose hmoves hflow hlast (fun q hq => (hrefs q hq).2.2.2) ?_ ?_
      (fun q hq => (hrefs q hq).2.2.1) rfl (Or.inr ⟨done, rfl, rfl⟩)
      fun q hq _ => ⟨(hrefs q hq).1, done, rfl, rfl⟩
    · intro q hq
      obtain ⟨href, hisAck, -, hts, -⟩ := hrefs q hq
      refine h.replayed.orderly.fresh_ack hisAck (by rw [hts]; exact hlast) (by rw [href]; exact hv) ?_
      exact fun hn => nomatch hn
    · have htypes : JournalRecordType.acknowledgement.code ≠ JournalRecordType.orderState.code := by
        decide
      exact List.pairwise_pair.mpr (samePayload_of_type htypes)
  have hshows := shows_replace (y := movedTo x .acknowledged) h.shows hx rfl
  rw [listing_of_working (working_movedTo hx rfl)] at hshows
  refine ⟨_, h.continued rfl rfl rfl rfl hjournal (fun q hq => (hrefs q hq).2.2.1) hreplayed ?_ hshows
    hflow⟩
  exact forall_split h.unfilled fun _ _ =>
    ⟨hunfilled.run, hunfilled.filled, hunfilled.requested, hunfilled.symbolId⟩

theorem replaced (h : Restores mode b (l ++ x :: r) σ) (hx : isWorking x = true) {price volume : Int}
    (hr : ReplaceReadable b x price volume nowNs) (hvolume : x.order.filledVolume < volume)
    (hflow : (replaced b x.order.ref x price volume nowNs).1.journal.overflowed = false) :
    ∃ τ, Restores mode (PaperBroker.replaced b x.order.ref x price volume nowNs).1
      (l ++ (PaperBroker.replaced b x.order.ref x price volume nowNs).2 :: r) τ := by
  obtain ⟨hunfilled, hread⟩ := h.working hx
  rw [hunfilled.filled] at hvolume
  let done : OrderEntry := { entry x.order with limitPriceTicks := price, requestedVolume := volume }
  have haccepts : σ.Accepts (replaceRecord b x.order.ref x price volume nowNs)
      (σ.setOrder x.order.ref (some done)) := by
    have hfilled : (entry x.order).filledVolume ≤ volume := by
      show x.order.filledVolume ≤ volume
      rw [hunfilled.filled]
      exact Int.le_of_lt hvolume
    have hv := hread
    rw [← hunfilled.ref] at hv
    have hreplace := Reading.accepts_replace nowNs _ _ x.order.symbolId hv hr.state hr.before hr.after
      hunfilled.requested hvolume hfilled
    rwa [hunfilled.ref] at hreplace
  have hjournal : (PaperBroker.replaced b x.order.ref x price volume nowNs).1.journal =
      b.journal.emits [replaceRecord b x.order.ref x price volume nowNs] := rfl
  have hreplayed : Replayed mode (PaperBroker.replaced b x.order.ref x price volume nowNs).1.journal
      (σ.setOrder x.order.ref (some done)) := by
    rw [hjournal] at hflow ⊢
    refine h.replayed.loose (Reading.AcceptsAll.cons haccepts Reading.AcceptsAll.nil) hflow hr.ordered ?_
      (List.forall_mem_singleton.mpr hr.fresh) (List.pairwise_singleton _ _)
      (List.forall_mem_singleton.mpr rfl) rfl (Or.inr ⟨done, rfl, hr.state⟩) ?_
    · rw [List.forall_mem_singleton]
      exact ⟨rfl, headerOk_journalEntry _ _ _ _ _ _ _ _ hunfilled.symbolId⟩
    · rw [List.forall_mem_singleton]
      intro hack
      cases hack
  have hworking : isWorking (PaperBroker.replaced b x.order.ref x price volume nowNs).2 = true := hx
  have hshows := shows_replace (y := (PaperBroker.replaced b x.order.ref x price volume nowNs).2)
    h.shows hx rfl
  rw [listing_of_working hworking] at hshows
  refine ⟨_, h.continued rfl rfl rfl rfl hjournal (List.forall_mem_singleton.mpr rfl) hreplayed ?_ hshows
    hflow⟩
  exact forall_split h.unfilled fun _ _ =>
    ⟨hunfilled.run, hunfilled.filled, hvolume, hunfilled.symbolId⟩

theorem placed {b : PaperBroker} (h : Restores mode b.books b.slots σ) {q : OrderRequest}
    (hentry : b.entryRefusal q nowNs = none) {s : Nat × List OrderSlot}
    (halloc : SlotTable.allocate reusable maxLiveOrders {} b.slots = some s)
    (hr : PlaceReadable b q nowNs)
    (hflow : ({ b with slots := s.2 }.accept s.1 q nowNs).books.journal.overflowed = false) :
    ∃ τ, Restores mode ({ b with slots := s.2 }.accept s.1 q nowNs).books
      ({ b with slots := s.2 }.accept s.1 q nowNs).slots τ := by
  obtain ⟨htype, hsymbol, hvolume⟩ := admitted_of_entryRefusal hentry
  let y := acceptedSlot { b with slots := s.2 } q nowNs
  have hworking : isWorking y = true := rfl
  have hy : Unfilled b.books.config.runId y := ⟨rfl, rfl, hvolume, hsymbol⟩
  have hnone : σ.orders (b.requestRef q) = none := by
    apply h.shows.absent
    intro v hv
    obtain ⟨x, hx, hlisting⟩ := List.mem_filterMap.mp hv
    unfold listing at hlisting
    split at hlisting
    · cases hlisting
      exact hr.absent x hx (working_live ‹_›)
    · cases hlisting
  have hremaining : 0 ≤ y.order.remaining := by
    rw [hy.remaining]
    exact Int.le_of_lt hvolume
  have hmoves : σ.AcceptsAll
      [moveRecord b.books.config.runId y .pendingSend .sent nowNs,
        journalEntry .command nowNs b.books.config.runId (b.requestRef q).logicalOrderId q.symbolId 0
          q.side.code q.volume q.limitPriceTicks q.type.code]
      (σ.setOrder (b.requestRef q) (some (placedEntry b q))) :=
    Reading.AcceptsAll.cons
      (Reading.accepts_sent nowNs b.books.config.runId _ q.symbolId hnone (Int.le_refl 0) hremaining)
      (Reading.AcceptsAll.cons
        (Reading.accepts_command nowNs b.books.config.runId _ q.symbolId q.side hnone hr.run hr.id hvolume
          hr.price htype)
        Reading.AcceptsAll.nil)
  obtain ⟨hsame, l₁, l₂, hbefore, hafter⟩ := SlotTable.filterMap_allocate (f := listing) halloc
    (fun x hx => listing_of_not (by unfold reusable at hx; simp [isWorking, hx])) rfl y
  have hshows : KeyedBoard.Shows OrderEntry.ref ((s.2.set s.1 y).filterMap listing)
      (Function.update σ.orders (b.requestRef q) (some (placedEntry b q))) := by
    have hold := h.shows
    rw [hbefore] at hold
    rw [hafter, listing_of_working hworking]
    exact hold.insert (a := placedEntry b q) hnone
  unfold accept at hflow ⊢
  refine h.refreshed rfl rfl rfl hr.refresh rfl hmoves ?_ ?_ (Or.inr hnone) ?_ hshows hflow
  · rw [List.forall_mem_cons, List.forall_mem_singleton]
    exact ⟨hy.orderRecord_move _ (by decide), orderRecord_journalEntry hsymbol rfl rfl⟩
  · have htypes : JournalRecordType.command.code ≠ JournalRecordType.orderState.code := by decide
    exact List.pairwise_pair.mpr (samePayload_of_type htypes)
  · refine (forall_allocate halloc h.unfilled ?_).2 y fun _ => hy
    intro hn
    cases hn

theorem refused {b : PaperBroker} (h : Restores mode b.books b.slots σ) (hok : SlotsOk b)
    {q : OrderRequest} {reason : RejectReason} (hreason : reason ≠ .none ∧ reason ≠ .probabilisticReject)
    (hr : RefusalReadable b q nowNs reason) {slots' : List OrderSlot}
    (hslots : slots' = b.slots ∨ slots' = b.slots ++ [({} : OrderSlot)])
    (hflow : (b.reject q nowNs reason).2.books.journal.overflowed = false) :
    ∃ τ, Restores mode (b.reject q nowNs reason).2.books slots' τ := by
  have hcode : 0 < reason.code ∧ isLoose (refusalRecord b q nowNs reason) = true := by
    cases reason with
    | none => exact absurd rfl hreason.1
    | probabilisticReject => exact absurd rfl hreason.2
    | _ => exact ⟨by decide, rfl⟩
  have haccepts : σ.Accepts (refusalRecord b q nowNs reason) σ := by
    unfold refusalRecord
    rcases hr.named with hid | ⟨x, hx, hsent, href⟩
    · rw [hid]
      exact Reading.accepts_rejection_unnamed nowNs _ q.symbolId hcode.1
    · have hv : σ.orders (b.requestRef q) = some (entry x.order) := by
        rw [← href]
        apply (h.shows.exact (entry x.order)).mp
        have hworking := working_of_state (hok x hx) (Or.inl hsent)
        exact List.mem_filterMap.mpr ⟨x, hx, listing_of_working hworking⟩
      exact Reading.accepts_rejection nowNs _ _ q.symbolId hv hsent hcode.1
  have hjournal : (b.reject q nowNs reason).2.books.journal =
      b.books.journal.emits [refusalRecord b q nowNs reason] := rfl
  have hreplayed : Replayed mode (b.reject q nowNs reason).2.books.journal
      (σ.setOrder (b.requestRef q) (σ.orders (b.requestRef q))) := by
    rw [Reading.setOrder_same rfl]
    rw [hjournal] at hflow ⊢
    have hsame : σ.orders = Function.update σ.orders (b.requestRef q) (σ.orders (b.requestRef q)) :=
      (Function.update_eq_self _ _).symm
    refine h.replayed.loose (Reading.AcceptsAll.cons haccepts Reading.AcceptsAll.nil) hflow hr.ordered ?_
      (List.forall_mem_singleton.mpr hr.fresh) (List.pairwise_singleton _ _)
      (List.forall_mem_singleton.mpr hcode.2) hsame (Or.inl rfl) ?_
    · rw [List.forall_mem_singleton]
      exact ⟨rfl, headerOk_journalEntry _ _ _ _ _ _ _ _ hr.symbolId⟩
    · rw [List.forall_mem_singleton]
      intro hack
      cases hack
  have hlisted : slots'.filterMap listing = b.slots.filterMap listing := by
    rcases hslots with rfl | rfl
    · rfl
    · rw [SlotTable.filterMap_split, List.filterMap_nil]
      exact List.append_nil _
  refine ⟨_, h.continued rfl rfl rfl rfl hjournal (List.forall_mem_singleton.mpr hcode.2) hreplayed ?_ ?_
    hflow⟩
  · rcases hslots with rfl | rfl
    · exact h.unfilled
    · rw [List.forall_mem_append, List.forall_mem_singleton]
      refine ⟨h.unfilled, fun hn => ?_⟩
      cases hn
  · rw [hlisted, Function.update_eq_self]
    exact h.shows

end Restores

end MicrostructureEngine
