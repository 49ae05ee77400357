import MicrostructureEngine.Exec.MarginOverflow
import MicrostructureEngine.Exec.Refusals
import MicrostructureEngine.Oms.BrokerJournal

/-!
# Recovering a broker from its journal

The reader of the journal and the broker that writes it agree on the records of an order that is
placed, acknowledged, refused by the venue, cancelled or amended. They do not agree on a fill: the
reader looks for the requested volume where the broker writes what remains. `Readable` says which
steps leave a journal that the reader takes, and a run of such steps is recovered.
-/

namespace MicrostructureEngine

set_option autoImplicit false

open Exec Books PaperBroker Recovery

/-! ## What is asked -/

/-- What the journal tells of an open position. -/
structure OpenPosition where
  positionTicket : UInt64
  symbolId : Nat
  side : Side
  volume : Int
  avgPriceTicks : Int
  realizedPnlMinor : Int
  deriving DecidableEq, Repr

def openPositions (ps : List Position) : List OpenPosition :=
  (ps.filter fun p => !isClosed p).map fun p =>
    ⟨p.positionTicket, p.symbolId, p.side, p.volume, p.avgPriceTicks, p.realizedPnlMinor⟩

namespace Exec.PaperBroker

/-- The accepted orders that have not ended, of which a restart knows no more than that. -/
def unknownOrders (b : PaperBroker) : List OrderEntry := (b.slots.filterMap listing).map OrderEntry.marked

/-- The recovered state has the orders, the open positions and the account of the broker. -/
structure RecoversTo (b : PaperBroker) (state : RecoveryState) : Prop where
  orders : ∀ v, (state.orders.find v.ref).map entry = some v ↔ v ∈ b.unknownOrders
  positions : (openPositions state.positions.positions).Perm (openPositions b.books.positions.positions)
  account : state.account.figures = b.books.account.figures

/-- The journal, unless it has overflowed, is accepted and yields the broker's own state. -/
def JournalReplays (b : PaperBroker) : Prop :=
  b.books.journal.overflowed = false → ∀ out killPresent persistedHalt,
    ∃ state, recover b.books.journal out killPresent persistedHalt = (true, state) ∧ b.RecoversTo state

/-! ## Steps that the reader follows -/

/-- A turn of the loop that fills nothing, lets no order expire before it is acknowledged, and
refreshes the account, if it does, for the first time at its moment. -/
def ReadableTurn (b : Books) (x : OrderSlot) (nowNs : Nat) : Prop :=
  x.order.state.isTerminal = false →
    b.turnFill x nowNs = none ∧
      (expiryDue x.order nowNs = true →
        x.order.state = .acknowledged ∧ RefreshReadable b (b.leftReserved x.order) nowNs) ∧
      (expiryDue x.order nowNs = false → x.order.tsEffectiveNs ≤ nowNs → x.order.state = .sent →
        (b.rejects x.order = true → RefreshReadable b (b.leftReserved x.order) nowNs) ∧
          (b.rejects x.order = false →
            b.journal.lastTs ≤ nowNs ∧ 0 ≤ toInt64 x.order.tsEffectiveNs))

instance (b : Books) (x : OrderSlot) (nowNs : Nat) : Decidable (ReadableTurn b x nowNs) :=
  inferInstanceAs (Decidable (_ → _ ∧ (_ → _ ∧ _) ∧ (_ → _ → _ → (_ → _) ∧ (_ → _ ∧ _))))

def ReadableLoop (nowNs : Nat) : Books → List OrderSlot → Prop
  | _, [] => True
  | b, x :: xs => ReadableTurn b x nowNs ∧ ReadableLoop nowNs (b.processSlot x nowNs).1 xs

instance decidableReadableLoop (nowNs : Nat) :
    (b : Books) → (xs : List OrderSlot) → Decidable (ReadableLoop nowNs b xs)
  | _, [] => inferInstanceAs (Decidable True)
  | b, x :: xs => @instDecidableAnd _ _ _ (decidableReadableLoop nowNs (b.processSlot x nowNs).1 xs)

/-- The reader takes what a submit writes: the records of the order, or the refusal. -/
def ReadableSubmit (b : PaperBroker) (q : OrderRequest) (nowNs : Nat) : Option RejectReason → Prop
  | none => PlaceReadable b q nowNs
  | some reason => RefusalReadable b q nowNs reason

instance (b : PaperBroker) (q : OrderRequest) (nowNs : Nat) :
    (refusal : Option RejectReason) → Decidable (b.ReadableSubmit q nowNs refusal)
  | none => inferInstanceAs (Decidable (PlaceReadable b q nowNs))
  | some reason => inferInstanceAs (Decidable (RefusalReadable b q nowNs reason))

instance (b : Books) (o : Order) (newPriceTicks newVolume : Int) :
    Decidable (Amendable b o newPriceTicks newVolume) :=
  decidable_of_iff
    (o.filledVolume < newVolume ∧ (b.specs o.symbolId).volumeValid newVolume = true ∧
      (o.type = .limit → 0 < newPriceTicks ∧ (b.specs o.symbolId).priceAligned newPriceTicks = true))
    ⟨fun ⟨ha, hv, hp⟩ => ⟨ha, hv, hp⟩, fun h => ⟨h.1, h.2, h.3⟩⟩

/-- The records of the step are such that the reader takes them. -/
def Readable (b : PaperBroker) : Action → Prop
  | .setSymbol _ => True
  | .onQuote symbolId bid ask bidSize askSize tsNs =>
    symbolId < maxSymbols → b.books.halted = false →
      ReadableLoop tsNs (b.quoted symbolId bid ask bidSize askSize tsNs).books
        (b.quoted symbolId bid ask bidSize askSize tsNs).slots
  | .submit q nowNs => b.ReadableSubmit q nowNs (b.refusal q nowNs (requestMargin b.books q))
  | .cancel ref nowNs =>
    ∀ s ∈ b.findLive ref, s.2.order.state ≠ .unknown →
      s.2.order.state = .acknowledged ∧ RefreshReadable b.books (b.books.leftReserved s.2.order) nowNs
  | .replace ref newPriceTicks newVolume nowNs =>
    ∀ s ∈ b.findLive ref, s.2.order.state ≠ .unknown →
      Amendable b.books s.2.order newPriceTicks newVolume →
        ReplaceReadable b.books s.2 newPriceTicks newVolume nowNs

instance (b : PaperBroker) : (a : Action) → Decidable (b.Readable a)
  | .setSymbol _ => inferInstanceAs (Decidable True)
  | .onQuote .. => inferInstanceAs (Decidable (_ → _ → ReadableLoop _ _ _))
  | .submit .. => inferInstanceAs (Decidable (ReadableSubmit _ _ _ _))
  | .cancel .. => inferInstanceAs (Decidable (∀ s ∈ _, _ → _ ∧ _))
  | .replace .. => inferInstanceAs (Decidable (∀ s ∈ _, _ → _ → _))

end Exec.PaperBroker

/-! ## One turn of the loop -/

/-- The reader of the journal, unless it has overflowed, has the working orders and the account. -/
def Restorable (mode : MarginMode) (b : Books) (slots : List OrderSlot) : Prop :=
  b.journal.overflowed = false → ∃ σ, Restores mode b slots σ

/-- Nothing happens in a slot without a working order. -/
theorem processSlot_of_not_working {runId : UInt64} {x : OrderSlot} (hok : SlotOk runId x)
    (h : isWorking x = false) (b : Books) (nowNs : Nat) : b.processSlot x nowNs = (b, x) := by
  cases hok with
  | accepted haccepted _ =>
    rw [isWorking_eq haccepted, Bool.not_eq_false'] at h
    unfold processSlot
    rw [if_pos h]
  | orphan horphan => exact horphan.processSlot b nowNs

/-- A journal that goes on without overflow had not overflowed. -/
theorem overflowed_of_tells {j j' : Journal} {es : List JournalRecord} (h : Tells j j' es)
    (hflow : j'.overflowed = false) : j.overflowed = false := by
  obtain ⟨rs, rfl, -⟩ := h
  exact (Journal.emits_records hflow).1

section Turn

variable {mode : MarginMode} {b : Books} {l r : List OrderSlot} {x : OrderSlot} {nowNs : Nat}

theorem restorable_attempt {c : Books} (h : Restorable mode c (l ++ x :: r))
    (hnone : c.fillOf x.order = none) :
    Restorable mode (c.attemptFill x nowNs).1 (l ++ (c.attemptFill x nowNs).2 :: r) := by
  rcases attemptFill_of_none hnone nowNs with heq | ⟨reason, heq⟩
  · rw [heq]
    exact h
  · rw [heq]
    intro hflow
    rw [halt_journal] at hflow
    obtain ⟨σ, hσ⟩ := h hflow
    exact ⟨σ, hσ.halt reason⟩

theorem restorable_turn {runId : UInt64} (hok : SlotOk runId x) (h : Restorable mode b (l ++ x :: r))
    (hturn : ReadableTurn b x nowNs) :
    Restorable mode (b.processSlot x nowNs).1 (l ++ (b.processSlot x nowNs).2 :: r) := by
  cases hx : isWorking x with
  | false =>
    rw [processSlot_of_not_working hok hx]
    exact h
  | true =>
    have hlive := working_live hx
    obtain ⟨hfill, hexpiry, heffective⟩ := hturn hlive
    unfold turnFill at hfill
    unfold processSlot
    dsimp only at hfill
    rw [if_neg (Bool.eq_false_iff.mp hlive)]
    split
    · rename_i hdue
      obtain ⟨hstate, hr⟩ := hexpiry hdue
      intro hflow
      obtain ⟨σ, hσ⟩ := h (overflowed_of_tells (tells_finish b x nowNs (by decide)) hflow)
      exact hσ.expired hx hstate hr hflow
    rename_i hdue
    split
    · exact h
    rename_i hwaits
    rw [if_neg (by simp [hlive, hdue, hwaits])] at hfill
    have hsend := heffective (Bool.eq_false_iff.mpr hdue) (Nat.not_lt.mp hwaits)
    split
    · rename_i hsent
      rw [if_pos hsent] at hfill
      have hreadable := hsend hsent
      split
      · rename_i hdraw
        intro hflow
        obtain ⟨σ, hσ⟩ := h (overflowed_of_tells (tells_rejectSent b x nowNs) hflow)
        exact hσ.rejected hx hsent (hreadable.1 hdraw) hflow
      · rename_i hdraw
        rw [if_neg hdraw] at hfill
        obtain ⟨hordered, hcode⟩ := hreadable.2 (Bool.eq_false_iff.mpr hdraw)
        have hacknowledged : Restorable mode (b.acknowledge x nowNs).1
            (l ++ (b.acknowledge x nowNs).2 :: r) := by
          intro hflow
          obtain ⟨σ, hσ⟩ := h (overflowed_of_tells (tells_acknowledge b x nowNs) hflow)
          exact hσ.acknowledged hx hsent hordered hcode hflow
        exact restorable_attempt hacknowledged hfill
    · rename_i hsent
      rw [if_neg hsent] at hfill
      split at hfill
      · rename_i hstate
        unfold attemptFill
        dsimp only
        rw [if_pos hstate, ite_self]
        exact h
      · exact restorable_attempt h hfill

theorem restorable_loop {xs : List OrderSlot} {runId : UInt64} (hslots : ∀ x ∈ xs, SlotOk runId x)
    (h : Restorable mode b (l ++ xs)) (hloop : ReadableLoop nowNs b xs) :
    Restorable mode (b.processSlots nowNs xs).1 (l ++ (b.processSlots nowNs xs).2) := by
  induction xs generalizing b l with
  | nil => exact h
  | cons x xs ih =>
    rw [List.forall_mem_cons] at hslots
    have hnext := restorable_turn hslots.1 h hloop.1
    have hrest := ih (b := (b.processSlot x nowNs).1) (l := l ++ [(b.processSlot x nowNs).2]) hslots.2
      (by rwa [List.append_assoc]) hloop.2
    rwa [List.append_assoc] at hrest

end Turn

/-! ## Operations -/

namespace Exec.PaperBroker

variable {mode : MarginMode} {b : PaperBroker}

theorem restorable_new (config : BrokerConfig) :
    Restorable mode (new config).books (new config).slots := by
  intro _
  refine ⟨.start, ⟨rfl, ?_, rfl, rfl, rfl, rfl⟩, ?_, Replayed.start mode, KeyedBoard.Shows.empty, rfl,
    rfl, ?_⟩
  · rw [marked_of_no_position rfl]
    exact congrArg (fun n => { (new config).books.account with freeMarginMinor := n }) (Int.sub_zero _)
  · intro x hx
    cases hx
  · exact Or.inr ⟨fun _ => rfl, rfl, rfl⟩

theorem restorable_setSymbol (h : Restorable mode b.books b.slots) (spec : SymbolSpec) :
    Restorable mode (b.setSymbol spec).books (b.setSymbol spec).slots := by
  unfold setSymbol
  split
  · intro hflow
    obtain ⟨σ, hσ⟩ := h hflow
    exact ⟨σ, hσ.congr rfl rfl rfl rfl rfl⟩
  · exact h

theorem restorable_onQuote (hok : SlotsOk b) (h : Restorable mode b.books b.slots) (symbolId : Nat)
    (bid ask bidSize askSize : Int) (tsNs : Nat)
    (hr : b.Readable (.onQuote symbolId bid ask bidSize askSize tsNs)) :
    Restorable mode (b.onQuote symbolId bid ask bidSize askSize tsNs).books
      (b.onQuote symbolId bid ask bidSize askSize tsNs).slots := by
  by_cases hsymbol : symbolId < maxSymbols
  · have hqueue := creditQueue_forall₂ b.books symbolId (b.books.market symbolId) bid ask bidSize askSize
      b.slots
    have hquoted : Restorable mode (b.quoted symbolId bid ask bidSize askSize tsNs).books
        (b.quoted symbolId bid ask bidSize askSize tsNs).slots := by
      intro hflow
      obtain ⟨σ, hσ⟩ := h hflow
      exact ⟨σ, (hσ.queue hqueue).congr rfl rfl rfl rfl rfl⟩
    have hslots : ∀ x ∈ (b.quoted symbolId bid ask bidSize askSize tsNs).slots,
        SlotOk b.books.config.runId x :=
      SlotTable.forall_of_forall₂ (fun _ _ hq hx => hx.queue hq) hqueue hok
    have hprocessed : Restorable mode
        ((b.quoted symbolId bid ask bidSize askSize tsNs).process tsNs).books
        ((b.quoted symbolId bid ask bidSize askSize tsNs).process tsNs).slots := by
      unfold process
      split
      · exact hquoted
      · rename_i hrunning
        exact restorable_loop (l := []) hslots hquoted (hr hsymbol (Bool.eq_false_iff.mpr hrunning))
    rw [onQuote_eq hsymbol]
    intro hflow
    obtain ⟨σ, hσ⟩ := hprocessed (overflowed_of_tells (tells_recomputeAccount _ tsNs) hflow)
    refine ⟨σ, ?_⟩
    dsimp only
    rw [hσ.flat.recomputeAccount]
    exact hσ
  · rw [onQuote_of_unknown hsymbol]
    exact h

/-- A reason that `submit` gives: not the default, and not the draw of the venue. -/
def SubmitReason (reason : RejectReason) : Prop := reason ≠ .none ∧ reason ≠ .probabilisticReject

theorem submitReason_ite {p : Prop} [Decidable p] {r reason : RejectReason} {rest : Option RejectReason}
    (hr : SubmitReason r) (hrest : rest = some reason → SubmitReason reason)
    (h : (if p then some r else rest) = some reason) : SubmitReason reason := by
  split at h
  · cases h
    exact hr
  · exact hrest h

theorem submitReason_of_entryRefusal {q : OrderRequest} {nowNs : Nat} {reason : RejectReason} :
    b.entryRefusal q nowNs = some reason → SubmitReason reason := by
  unfold entryRefusal
  dsimp only
  iterate 13 refine submitReason_ite ⟨by decide, by decide⟩ ?_
  intro hn
  cases hn

theorem submitReason_of_refusal {q : OrderRequest} {nowNs : Nat} {margin : Int} {reason : RejectReason}
    (h : b.refusal q nowNs margin = some reason) : SubmitReason reason := by
  unfold refusal at h
  dsimp only at h
  cases hentry : b.entryRefusal q nowNs with
  | some r =>
    rw [hentry] at h
    cases h
    exact submitReason_of_entryRefusal hentry
  | none =>
    rw [hentry] at h
    revert h
    iterate 4 refine submitReason_ite ⟨by decide, by decide⟩ ?_
    intro hn
    cases hn

/-- A submit does what its refusal says. -/
theorem submit_of_refusal (b : PaperBroker) (q : OrderRequest) (nowNs : Nat) :
    (∃ reason slots, b.refusal q nowNs (requestMargin b.books q) = some reason ∧
      (slots = b.slots ∨ slots = b.slots ++ [({} : OrderSlot)]) ∧
      b.submit q nowNs = { b with slots := slots }.reject q nowNs reason) ∨
    ∃ s, b.refusal q nowNs (requestMargin b.books q) = none ∧ b.entryRefusal q nowNs = none ∧
      SlotTable.allocate reusable maxLiveOrders {} b.slots = some s ∧
      b.submit q nowNs =
        (⟨true, b.requestRef q, .none⟩, { b with slots := s.2 }.accept s.1 q nowNs) := by
  have hmarket : ∀ s, SlotTable.allocate reusable maxLiveOrders {} b.slots = some s →
      b.entryRefusal q nowNs = none →
      b.refusal q nowNs (requestMargin b.books q) = marketRefusal b.books q nowNs := by
    intro s halloc hentry
    unfold refusal
    rw [hentry, halloc]
    rfl
  rcases submit_cases b q nowNs with ⟨reason, hentry, heq⟩ | ⟨hentry, hfull, heq⟩ |
    ⟨s, reason, hentry, halloc, hreason, heq⟩ | ⟨s, hentry, halloc, hnone, heq⟩
  · refine Or.inl ⟨reason, b.slots, ?_, Or.inl rfl, heq⟩
    unfold refusal
    rw [hentry]
  · refine Or.inl ⟨.corruptedState, b.slots, ?_, Or.inl rfl, heq⟩
    unfold refusal
    rw [hentry, hfull]
    rfl
  · refine Or.inl ⟨reason, s.2, (hmarket s halloc hentry).trans hreason, ?_, heq⟩
    exact (allocate_same_or_fresh halloc).imp_right And.left
  · exact Or.inr ⟨s, (hmarket s halloc hentry).trans hnone, hentry, halloc, heq⟩

theorem restorable_submit (hok : SlotsOk b) (h : Restorable mode b.books b.slots) (q : OrderRequest)
    (nowNs : Nat) (hr : b.Readable (.submit q nowNs)) :
    Restorable mode (b.submit q nowNs).2.books (b.submit q nowNs).2.slots := by
  unfold Readable at hr
  dsimp only at hr
  rcases submit_of_refusal b q nowNs with ⟨reason, slots, hrefusal, hslots, heq⟩ |
    ⟨s, hrefusal, hentry, halloc, heq⟩
  · rw [hrefusal] at hr
    rw [heq]
    intro hflow
    obtain ⟨σ, hσ⟩ := h (overflowed_of_tells (tells_reject b q nowNs reason) hflow)
    exact hσ.refused hok (submitReason_of_refusal hrefusal) hr hslots hflow
  · rw [hrefusal] at hr
    rw [heq]
    intro hflow
    obtain ⟨σ, hσ⟩ := h (overflowed_of_tells (tells_accept { b with slots := s.2 } s.1 q nowNs) hflow)
    exact hσ.placed hentry halloc hr hflow

theorem restorable_cancel (hok : SlotsOk b) (h : Restorable mode b.books b.slots) (ref : BrokerOrderRef)
    (nowNs : Nat) (hr : b.Readable (.cancel ref nowNs)) :
    Restorable mode (b.cancel ref nowNs).2.books (b.cancel ref nowNs).2.slots := by
  rcases cancel_cases b ref nowNs with ⟨heq, -⟩ | ⟨l, x, r, hfound, heq⟩
  · rw [heq]
    exact h
  · obtain ⟨hstate, hrefresh⟩ := hr _ hfound.find hfound.known
    have hx : x ∈ b.slots := by
      rw [hfound.split]
      exact List.mem_append_right _ List.mem_cons_self
    rw [heq]
    intro hflow
    obtain ⟨σ, hσ⟩ := h (overflowed_of_tells (tells_cancelled b.books ref x nowNs) hflow)
    rw [hfound.split] at hσ
    have href := hfound.ref
    subst href
    exact hσ.cancelled (working_of_state (hok x hx) (Or.inr hstate)) hstate hrefresh hflow

theorem restorable_replace (hok : SlotsOk b) (h : Restorable mode b.books b.slots) (ref : BrokerOrderRef)
    (price volume : Int) (nowNs : Nat) (hr : b.Readable (.replace ref price volume nowNs)) :
    Restorable mode (b.replace ref price volume nowNs).2.books
      (b.replace ref price volume nowNs).2.slots := by
  rcases replace_cases b ref price volume nowNs with ⟨heq, -⟩ | ⟨l, x, r, hfound, hamend, heq⟩
  · rw [heq]
    exact h
  · have hreadable := hr _ hfound.find hfound.known hamend
    have hx : x ∈ b.slots := by
      rw [hfound.split]
      exact List.mem_append_right _ List.mem_cons_self
    rw [heq]
    intro hflow
    obtain ⟨σ, hσ⟩ := h (overflowed_of_tells (tells_replaced b.books ref x price volume nowNs) hflow)
    rw [hfound.split] at hσ
    have href := hfound.ref
    subst href
    exact hσ.replaced (working_of_state (hok x hx) (Or.inr hreadable.state)) hreadable hamend.above hflow

theorem restorable_step (hok : SlotsOk b) (h : Restorable mode b.books b.slots) {a : Action}
    (hr : b.Readable a) : Restorable mode (b.step a).books (b.step a).slots := by
  cases a with
  | setSymbol spec => exact restorable_setSymbol h spec
  | onQuote symbolId bid ask bidSize askSize tsNs =>
    exact restorable_onQuote hok h symbolId bid ask bidSize askSize tsNs hr
  | submit q nowNs => exact restorable_submit hok h q nowNs hr
  | cancel ref nowNs => exact restorable_cancel hok h ref nowNs hr
  | replace ref price volume nowNs => exact restorable_replace hok h ref price volume nowNs hr

/-! ## Runs -/

/-- The account has been journalled: an order was placed, or one has ended. -/
def AccountJournalled (b : PaperBroker) : Prop := ∃ tsNs, b.books.journal.refreshedAt tsNs = true

/-- What the reader has is what a restart needs. -/
theorem replays_of_restorable (h : ∀ mode, Restorable mode b.books b.slots)
    (haccount : b.books.config.initialBalanceMinor = 0 ∨ b.AccountJournalled) : b.JournalReplays := by
  intro hflow out killPresent persistedHalt
  obtain ⟨σ, hσ⟩ := h out.portfolio.mode hflow
  have hread : ∀ ref v, σ.orders ref = some v → v ∈ b.slots.filterMap listing ∧ v.ref = ref := by
    intro ref v hv
    have hkey := hσ.shows.keyed ref v hv
    rw [← hkey] at hv
    exact ⟨(hσ.shows.exact v).mpr hv, hkey⟩
  have hlive : ∀ ref v, σ.orders ref = some v → v.state.isTerminal = false := by
    intro ref v hv
    obtain ⟨x, -, hlisting⟩ := List.mem_filterMap.mp (hread ref v hv).1
    unfold listing at hlisting
    split at hlisting
    · cases hlisting
      exact working_live ‹_›
    · cases hlisting
  obtain ⟨state, hrecover, horders, hpositions, hfigures⟩ :=
    hσ.replayed.recovered.answers hflow hσ.flags hlive killPresent persistedHalt
  refine ⟨state, hrecover, ?_, ?_, ?_⟩
  · intro v
    rw [horders v.ref, Option.map_eq_some_iff]
    constructor
    · rintro ⟨w, hw, hmarked⟩
      exact List.mem_map.mpr ⟨w, (hread v.ref w hw).1, hmarked⟩
    · intro hv
      obtain ⟨w, hw, rfl⟩ := List.mem_map.mp hv
      exact ⟨w, (hσ.shows.exact w).mp hw, rfl⟩
  · rw [hpositions, hσ.positions, hσ.flat.positions]
  · rw [hfigures]
    rcases hσ.account with hsettled | hunsettled
    · exact hsettled
    · rcases haccount with hzero | ⟨tsNs, hrefreshed⟩
      · rw [hunsettled.reading, hunsettled.account]
        unfold openingFigures
        rw [hzero]
      · rw [hunsettled.journal tsNs] at hrefreshed
        cases hrefreshed

/-- A run whose steps the reader follows is recovered at every moment from the first journalled account
on, and before it if the account was opened empty. -/
theorem journal_replays_of_readable (config : BrokerConfig) {actions : List Action}
    (h : Runs.Along PaperBroker.step Readable (new config) actions) :
    Runs.Throughout PaperBroker.step
      (fun b => config.initialBalanceMinor = 0 ∨ b.AccountJournalled → b.JournalReplays) (new config)
      actions := by
  have hgood : Runs.Throughout PaperBroker.step
      (fun b => SlotsOk b ∧ b.books.config = config ∧ ∀ mode, Restorable mode b.books b.slots)
      (new config) actions := by
    refine Runs.throughout_of_along ?_ ⟨slotsOk_new config, rfl, fun mode => restorable_new config⟩ h
    rintro b a ⟨hok, hconfig, hrestorable⟩ hreadable
    exact ⟨slotsOk_step hok a, (step_config b a).trans hconfig,
      fun mode => restorable_step hok (hrestorable mode) hreadable⟩
  intro bs hbs haccount
  obtain ⟨-, hconfig, hrestorable⟩ := hgood bs hbs
  refine replays_of_restorable hrestorable (haccount.imp_left fun hzero => ?_)
  rw [hconfig]
  exact hzero

/-- A buy limit below the market is placed, acknowledged, amended and cancelled. -/
def amendedOrder : List Action :=
  [.onQuote 0 100 102 0 0 1, .submit { type := .limit, volume := 10, limitPriceTicks := 90 } 2,
    .onQuote 0 100 102 0 0 1000000000, .replace ⟨1, makeLogicalOrderId 0 0 0⟩ 80 20 1000000001,
    .cancel ⟨1, makeLogicalOrderId 0 0 0⟩ 1000000002]

theorem journal_replays_amended_order :
    (after { initialBalanceMinor := 1000000 } amendedOrder).JournalReplays := by
  have hreadable : Runs.Along PaperBroker.step Readable (new { initialBalanceMinor := 1000000 })
      amendedOrder :=
    ⟨by decide +kernel, by decide +kernel, by decide +kernel, by decide +kernel, by decide +kernel,
      trivial⟩
  exact journal_replays_of_readable _ hreadable amendedOrder (List.prefix_refl _)
    (Or.inr ⟨2, by decide +kernel⟩)

/-- A market order of one lot, filled at once. -/
def filledOrder : List Action :=
  [.onQuote 0 100 102 0 0 1, .submit { volume := 10000 } 1, .onQuote 0 100 102 0 0 1000000001]

theorem filled_order_not_replayed :
    (after { initialBalanceMinor := 1000000 } filledOrder).books.fillCount = 1 ∧
    ¬ (after { initialBalanceMinor := 1000000 } filledOrder).JournalReplays := by
  refine ⟨by decide +kernel, fun h => ?_⟩
  have hrefused : (recover (after { initialBalanceMinor := 1000000 } filledOrder).books.journal
      (.new .hedging defaultCapacity) false .none).1 = false := by decide +kernel
  obtain ⟨state, hstate, -⟩ := h (by decide +kernel) (.new .hedging defaultCapacity) false .none
  rw [hstate] at hrefused
  cases hrefused

end Exec.PaperBroker

end MicrostructureEngine
