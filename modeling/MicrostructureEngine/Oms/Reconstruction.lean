import MicrostructureEngine.Exec.OrderPaths
import MicrostructureEngine.Oms.ReportReplay

/-!
# Rebuilding the broker from its reports

The adapter translates acknowledgements, fills, cancels and replaces. It has no report for an order
that the venue rejects or that expires, and the management system refuses a cancel of an order
that is still in flight. A run without these three leaves no gap: each turn of an order is told in
records that take the order of the management system through the same states.
-/

namespace MicrostructureEngine

open scoped List
set_option autoImplicit false

open Exec Exec.Books PaperVenue

/-- An order that has left `new_order` and has not ended. -/
def isOpen (o : Order) : Bool := !o.state.isTerminal && o.state != .newOrder

/-- What the venue shows of a slot. -/
def shown (x : OrderSlot) : Option OrderSnapshot :=
  if isOpen x.order then some (snapshot x.order) else none

/-- The open orders of the broker. -/
def openOrders (b : PaperBroker) : List OrderSnapshot := b.slots.filterMap shown

theorem shown_of_open {x : OrderSlot} (h : isOpen x.order = true) : shown x = some (snapshot x.order) :=
  if_pos h

theorem shown_of_not_open {x : OrderSlot} (h : isOpen x.order = false) : shown x = none :=
  if_neg (Bool.eq_false_iff.mp h)

theorem shown_ref {x : OrderSlot} {s : OrderSnapshot} (h : shown x = some s) : s.ref = x.order.ref := by
  unfold shown at h
  split at h
  · cases h
    rfl
  · cases h

/-! ## One turn of one order -/

/-- The report records `new` of a turn tell what the turn made of the order. -/
structure TurnTold (b : Books) (x : OrderSlot) (c : Books × OrderSlot) (new : List JournalRecord) :
    Prop where
  tells : Tells b.journal c.1.journal new
  advances : Advances (snapshot x.order) new (shown c.2)
  about : ∀ rec ∈ new, rec.ref = x.order.ref
  same : c.2.order.ref = x.order.ref

namespace TurnTold

variable {b : Books} {x : OrderSlot} {c d : Books × OrderSlot} {new new' : List JournalRecord}

theorem trans (h : TurnTold b x c new) (hopen : isOpen c.2.order = true)
    (h' : TurnTold c.1 c.2 d new') : TurnTold b x d (new ++ new') where
  tells := h.tells.trans h'.tells
  advances := by
    have hadvances := h.advances
    rw [shown_of_open hopen] at hadvances
    exact hadvances.trans h'.advances
  about := by
    intro rec hrec
    rcases List.mem_append.mp hrec with hrec | hrec
    · exact h.about rec hrec
    · exact (h'.about rec hrec).trans h.same
  same := h'.same.trans h.same

theorem idle (hopen : isOpen x.order = true) : TurnTold b x (b, x) [] where
  tells := Tells.refl _
  advances := by
    rw [shown_of_open hopen]
    exact Advances.refl _
  about := fun _ hrec => absurd hrec List.not_mem_nil
  same := rfl

end TurnTold

section Turn

variable {b : Books} {x : OrderSlot} (nowNs : Nat)

theorem ref_eq {runId : UInt64} (hrun : x.order.ref.runId = runId) :
    (⟨runId, x.order.ref.logicalOrderId⟩ : BrokerOrderRef) = x.order.ref := by
  rw [← hrun]

theorem told_acknowledge (hrun : x.order.ref.runId = b.config.runId) (hsent : x.order.state = .sent) :
    TurnTold b x (b.acknowledge x nowNs) [b.ackRecord x nowNs] where
  tells := tells_acknowledge b x nowNs
  advances := by
    have hlegal : legal (snapshot x.order).state .acknowledged = true := by
      have hstate : (snapshot x.order).state = .sent := hsent
      rw [hstate]
      rfl
    have hack := advances_transition _ (b.ackRecord x nowNs) .ack rfl
      (fun y r hr => by unfold Verdict.applyKind; rw [hr]) hlegal
    exact hack
  about := by
    intro rec hrec
    rw [List.mem_singleton.mp hrec]
    exact ref_eq hrun
  same := rfl

theorem told_applyFill {price volume : Int} (hrun : x.order.ref.runId = b.config.runId)
    (hfill : Fillable b x.order price volume) :
    TurnTold b x (b.applyFill x price volume nowNs) [b.fillRecord x price volume nowNs] where
  tells := tells_applyFill b x nowNs price volume
  advances := by
    have hbody : translate (b.fillRecord x price volume nowNs) = some (.fill, volume, 0) := rfl
    have hfilled := advances_fill (snapshot x.order) _ hbody hfill.volume_pos hfill.volume_le hfill.state
    have hslot := bookFill_slot b x price volume nowNs
    have hcases := applyFill_cases b x price volume nowNs rfl
    generalize b.bookFill x price volume nowNs = p at hslot hcases
    have hleft : p.2.order.remaining =
        (snapshot x.order).requestedVolume - (snapshot x.order).filledVolume - volume := by
      rw [hslot]
      exact sub_add_eq_sub_sub _ _ _
    have hle : volume ≤ (snapshot x.order).requestedVolume - (snapshot x.order).filledVolume :=
      hfill.volume_le
    have hpartial : ∀ o : Order, snapshot o = { snapshot p.2.order with state := .partiallyFilled } →
        some (snapshot o) = some { snapshot x.order with
          state := .partiallyFilled, filledVolume := (snapshot x.order).filledVolume + volume } := by
      intro o ho
      rw [ho, hslot]
      rfl
    rcases hcases with ⟨hdone, heq⟩ | ⟨hmore, -, heq⟩ | ⟨hmore, hstate, heq⟩
    · rw [if_pos (by omega)] at hfilled
      rw [heq]
      exact hfilled
    · rw [if_neg (by omega)] at hfilled
      rw [heq, shown_of_open rfl, hpartial _ rfl]
      exact hfilled
    · rw [if_neg (by omega)] at hfilled
      have hopen : isOpen p.2.order = true := by
        unfold isOpen
        rw [hstate]
        rfl
      rw [heq, shown_of_open hopen, hpartial]
      · exact hfilled
      · unfold snapshot
        rw [hstate]
  about := by
    intro rec hrec
    rw [List.mem_singleton.mp hrec]
    exact ref_eq hrun
  same := (sameTerms_applyFill b x price volume nowNs).ref

theorem told_ready {c : Books × OrderSlot} (hrun : x.order.ref.runId = b.config.runId)
    (hopen : isOpen x.order = true) (hready : Books.Ready b x nowNs c) :
    ∃ new, TurnTold b x c new ∧ isOpen c.2.order = true := by
  cases hready with
  | standing => exact ⟨_, TurnTold.idle hopen, hopen⟩
  | acknowledged sent => exact ⟨_, told_acknowledge nowNs hrun sent, rfl⟩

theorem TurnTold.halt {c : Books × OrderSlot} {new : List JournalRecord} (h : TurnTold b x c new)
    (reason : RejectReason) : TurnTold b x (c.1.halt reason, c.2) new := by
  refine ⟨?_, h.advances, h.about, h.same⟩
  rw [halt_journal]
  exact h.tells

/-- A turn that neither rejects nor expires the order is told. -/
theorem told_processSlot (hrun : x.order.ref.runId = b.config.runId) (hopen : isOpen x.order = true)
    (hdue : expiryDue x.order nowNs = false)
    (hdraw : x.order.state = .sent → x.order.tsEffectiveNs ≤ nowNs → b.rejects x.order = false) :
    ∃ new, TurnTold b x (b.processSlot x nowNs) new := by
  by_cases heffective : x.order.tsEffectiveNs ≤ nowNs
  · have hp := processed b x nowNs
    generalize b.processSlot x nowNs = d at hp ⊢
    cases hp with
    | idle => exact ⟨_, TurnTold.idle hopen⟩
    | expired live due =>
      rw [hdue] at due
      cases due
    | rejected sent draw =>
      rw [hdraw sent heffective] at draw
      cases draw
    | ready hready =>
      obtain ⟨new, htold, -⟩ := told_ready nowNs hrun hopen hready
      exact ⟨new, htold⟩
    | halted hready reason =>
      obtain ⟨new, htold, -⟩ := told_ready nowNs hrun hopen hready
      exact ⟨new, htold.halt reason⟩
    | filled hready price volume fill =>
      obtain ⟨new, htold, hstill⟩ := told_ready nowNs hrun hopen hready
      refine ⟨_, htold.trans hstill (told_applyFill nowNs ?_ fill)⟩
      rw [htold.same, hready.clerical.config]
      exact hrun
  · have hlive : x.order.state.isTerminal = false := by
      unfold isOpen at hopen
      simpa using (Bool.and_eq_true_iff.mp hopen).1
    have heq : b.processSlot x nowNs = (b, x) := by
      unfold processSlot
      rw [if_neg (by simp [hlive]), if_neg (by simp [hdue]), if_pos (by omega)]
    rw [heq]
    exact ⟨_, TurnTold.idle hopen⟩

end Turn

/-! ## A quote -/

/-- The order is neither due to expire nor, once it is effective, drawn for a rejection. -/
def Undisturbed (b : Books) (o : Order) (nowNs : Nat) : Prop :=
  expiryDue o nowNs = false ∧ (o.state = .sent → o.tsEffectiveNs ≤ nowNs → b.rejects o = false)

instance (b : Books) (o : Order) (nowNs : Nat) : Decidable (Undisturbed b o nowNs) :=
  inferInstanceAs (Decidable (_ ∧ (_ → _ → _)))

/-- Draws depend on the configuration and on the market, which no turn changes. -/
theorem Undisturbed.congr {b c : Books} {o : Order} {nowNs : Nat} (h : Undisturbed b o nowNs)
    (hconfig : c.config = b.config) (hmarket : c.market = b.market) : Undisturbed c o nowNs := by
  refine ⟨h.1, fun hsent heffective => ?_⟩
  have hdraw := h.2 hsent heffective
  unfold rejects regimeOf at hdraw ⊢
  rw [hconfig, hmarket]
  exact hdraw

/-- A slot that shows no order is not touched while quotes are processed. -/
theorem processSlot_of_not_open {x : OrderSlot} (h : PaperBroker.SlotOnPath x)
    (hopen : isOpen x.order = false) (b : Books) (nowNs : Nat) : b.processSlot x nowNs = (b, x) := by
  rcases h with horphan | ⟨-, hpath⟩
  · exact horphan.processSlot b nowNs
  · have hterminal : x.order.state.isTerminal = true := by
      unfold isOpen at hopen
      rcases hpath.phase with ht | hs | hs | hs
      · exact ht
      all_goals
        rw [hs] at hopen
        cases hopen
    unfold processSlot
    rw [if_pos hterminal]

theorem run_of_open {runId : UInt64} {x : OrderSlot} (h : SlotOk runId x)
    (hopen : isOpen x.order = true) : x.order.ref.runId = runId := by
  cases h with
  | accepted _ hrun => exact hrun
  | orphan horphan =>
    unfold isOpen at hopen
    rcases horphan.state with hs | hs
    all_goals
      rw [hs] at hopen
      cases hopen

/-- The records so far, and the board that they keep up with. -/
def Recorded (all accepted : List (BrokerOrderRef × Int)) (journal : Journal)
    (board : List OrderSnapshot) : Prop :=
  ∃ recs, Tells {} journal recs ∧ Mirrored all accepted board recs

theorem Recorded.quiet {all accepted : List (BrokerOrderRef × Int)} {journal journal' : Journal}
    {board : List OrderSnapshot} (h : Recorded all accepted journal board)
    (hquiet : Tells journal journal' []) : Recorded all accepted journal' board := by
  obtain ⟨recs, htells, hmirrored⟩ := h
  exact ⟨recs, htells.trans_quiet hquiet, hmirrored⟩

/-- Records that name no accepted order: those of an order that was never accepted. -/
theorem Recorded.elsewhere {all accepted : List (BrokerOrderRef × Int)} {j j' : Journal}
    {board : List OrderSnapshot} {new : List JournalRecord} (h : Recorded all accepted j board)
    (htells : Tells j j' new) (href : ∀ rec ∈ new, ∀ p ∈ all, rec.ref ≠ p.1) : Recorded all accepted j' board := by
  obtain ⟨recs, htold, hmirrored⟩ := h
  exact ⟨recs ++ new, htold.trans htells, hmirrored.elsewhere href⟩

/-- A turn of an open order moves it on the board, among the slots before and behind it. -/
theorem Recorded.turn {all accepted : List (BrokerOrderRef × Int)} {b : Books} {x : OrderSlot}
    {c : Books × OrderSlot} {l r : List OrderSnapshot} {new : List JournalRecord}
    (h : Recorded all accepted b.journal (l ++ (shown x).toList ++ r)) (hopen : isOpen x.order = true)
    (hturn : TurnTold b x c new) :
    Recorded all accepted c.1.journal (l ++ (shown c.2).toList ++ r) := by
  obtain ⟨recs, htells, hmirrored⟩ := h
  refine ⟨recs ++ new, htells.trans hturn.tells, ?_⟩
  rw [shown_of_open hopen, List.append_assoc] at hmirrored
  rw [List.append_assoc]
  refine hmirrored.moved hturn.advances hturn.about fun s hs => ?_
  exact (shown_ref hs).trans hturn.same

/-- The loop over the slots; `l` is the board of the slots already processed. -/
theorem Recorded.processSlots {all accepted : List (BrokerOrderRef × Int)} {nowNs : Nat}
    {xs : List OrderSlot} {b : Books} {l : List OrderSnapshot}
    (h : Recorded all accepted b.journal (l ++ xs.filterMap shown))
    (hok : ∀ x ∈ xs, SlotOk b.config.runId x) (hpath : ∀ x ∈ xs, PaperBroker.SlotOnPath x)
    (hundisturbed : ∀ x ∈ xs, isOpen x.order = true → Undisturbed b x.order nowNs) :
    Recorded all accepted (b.processSlots nowNs xs).1.journal
      (l ++ (b.processSlots nowNs xs).2.filterMap shown) := by
  induction xs generalizing b l with
  | nil => exact h
  | cons x xs ih =>
    rw [List.forall_mem_cons] at hok hpath hundisturbed
    obtain ⟨hconfig, -, hmarket⟩ := PaperBroker.processSlot_fixed b x nowNs
    have hnext : Recorded all accepted (b.processSlot x nowNs).1.journal
        (l ++ (shown (b.processSlot x nowNs).2).toList ++ xs.filterMap shown) := by
      rw [SlotTable.filterMap_cons_toList, ← List.append_assoc] at h
      cases hopen : isOpen x.order with
      | false =>
        rw [processSlot_of_not_open hpath.1 hopen]
        exact h
      | true =>
        obtain ⟨hdue, hdraw⟩ := hundisturbed.1 hopen
        obtain ⟨new, hturn⟩ := told_processSlot nowNs (run_of_open hok.1 hopen) hopen hdue hdraw
        exact h.turn hopen hturn
    have hrest := ih hnext (by rw [hconfig]; exact hok.2) hpath.2
      (fun y hy hopen => (hundisturbed.2 y hy hopen).congr hconfig hmarket)
    have hcons : (b.processSlots nowNs (x :: xs)).2 = (b.processSlot x nowNs).2 ::
        ((b.processSlot x nowNs).1.processSlots nowNs xs).2 := rfl
    rw [hcons, SlotTable.filterMap_cons_toList, ← List.append_assoc]
    exact hrest

namespace PaperBroker

open Exec.PaperBroker

variable {all accepted : List (BrokerOrderRef × Int)} {b : Exec.PaperBroker}

/-- Everything the run keeps: the slots, the paths of the orders, and the board. -/
structure Tracked (all accepted : List (BrokerOrderRef × Int)) (b : Exec.PaperBroker) : Prop where
  ok : SlotsOk b
  paths : PathsKept b
  recorded : Recorded all accepted b.books.journal (openOrders b)

theorem shown_queue {x y : OrderSlot} (hq : SameButQueue x y) : shown y = shown x := by
  rw [hq]
  rfl

theorem Tracked.onQuote (h : Tracked all accepted b) {symbolId : Nat} {bid ask bidSize askSize : Int}
    {tsNs : Nat}
    (hundisturbed : symbolId < maxSymbols → b.books.halted = false → ∀ x ∈ b.slots,
      isOpen x.order = true →
        Undisturbed (b.quoted symbolId bid ask bidSize askSize tsNs).books x.order tsNs) :
    Recorded all accepted (b.onQuote symbolId bid ask bidSize askSize tsNs).books.journal
      (openOrders (b.onQuote symbolId bid ask bidSize askSize tsNs)) := by
  by_cases hsymbol : symbolId < maxSymbols
  · rw [onQuote_eq hsymbol]
    have hqueue := creditQueue_forall₂ b.books symbolId (b.books.market symbolId) bid ask bidSize askSize
      b.slots
    have hquoted : Recorded all accepted (b.quoted symbolId bid ask bidSize askSize tsNs).books.journal
        (openOrders (b.quoted symbolId bid ask bidSize askSize tsNs)) := by
      have hboard : openOrders (b.quoted symbolId bid ask bidSize askSize tsNs) = openOrders b :=
        SlotTable.filterMap_of_forall₂ (fun _ _ => shown_queue) hqueue
      rw [hboard]
      exact h.recorded
    have hprocess : Recorded all accepted
        ((b.quoted symbolId bid ask bidSize askSize tsNs).process tsNs).books.journal
        (openOrders ((b.quoted symbolId bid ask bidSize askSize tsNs).process tsNs)) := by
      cases hhalted : b.books.halted with
      | true =>
        have hstop : (b.quoted symbolId bid ask bidSize askSize tsNs).books.halted = true := hhalted
        unfold process
        rw [if_pos hstop]
        exact hquoted
      | false =>
        have hrun : (b.quoted symbolId bid ask bidSize askSize tsNs).books.halted = false := hhalted
        unfold process
        rw [if_neg (Bool.eq_false_iff.mp hrun)]
        refine Recorded.processSlots (l := []) hquoted ?_ ?_ ?_
        · exact SlotTable.forall_of_forall₂ (fun _ _ hq hx => SlotOk.queue hx hq) hqueue h.ok
        · exact SlotTable.forall_of_forall₂ (P := SlotOnPath) (fun _ _ => slotOnPath_queue) hqueue h.paths
        · refine SlotTable.forall_of_forall₂ ?_ hqueue (hundisturbed hsymbol hhalted)
          intro x y hq hx hopen
          rw [hq] at hopen ⊢
          exact hx hopen
    exact hprocess.quiet (tells_recomputeAccount _ tsNs)
  · rw [onQuote_of_unknown hsymbol]
    exact h.recorded

theorem shown_of_reusable (x : OrderSlot) (h : reusable x = true) : shown x = none := by
  apply shown_of_not_open
  unfold isOpen
  rw [show x.order.state.isTerminal = true from h]
  rfl

/-- The submits that an action accepts: the reference with the requested volume. -/
def acceptedBy (b : Exec.PaperBroker) : Action → List (BrokerOrderRef × Int)
  | .submit q nowNs =>
    let r := (b.submit q nowNs).1
    if r.accepted then [(r.ref, q.volume)] else []
  | _ => []

/-- The submits that a run accepts, in order. -/
def acceptances : Exec.PaperBroker → List Action → List (BrokerOrderRef × Int)
  | _, [] => []
  | b, a :: as => acceptedBy b a ++ acceptances (b.step a) as

theorem acceptedBy_refused {q : OrderRequest} {nowNs : Nat}
    (h : (b.submit q nowNs).1.accepted = false) : acceptedBy b (.submit q nowNs) = [] := by
  unfold acceptedBy
  dsimp only
  rw [h]
  rfl

theorem acceptedBy_accepted {q : OrderRequest} {nowNs : Nat}
    (h : (b.submit q nowNs).1.accepted = true) :
    acceptedBy b (.submit q nowNs) = [((b.submit q nowNs).1.ref, q.volume)] := by
  unfold acceptedBy
  dsimp only
  rw [h]
  rfl

theorem Tracked.submit (h : Tracked all accepted b) (q : OrderRequest) (nowNs : Nat)
    (hall : ∀ p ∈ acceptedBy b (.submit q nowNs), p ∈ all ∧ p.1 ∉ accepted.map Prod.fst) :
    Recorded all (accepted ++ acceptedBy b (.submit q nowNs)) (b.submit q nowNs).2.books.journal
      (openOrders (b.submit q nowNs).2) := by
  rcases submit_cases b q nowNs with ⟨reason, -, heq⟩ | ⟨-, -, heq⟩ | ⟨s, reason, -, halloc, -, heq⟩ |
    ⟨s, -, halloc, -, heq⟩
  · rw [acceptedBy_refused (by rw [heq]; rfl), List.append_nil, heq]
    exact h.recorded.quiet (tells_reject b q nowNs reason)
  · rw [acceptedBy_refused (by rw [heq]; rfl), List.append_nil, heq]
    exact h.recorded.quiet (tells_reject b q nowNs .corruptedState)
  · rw [acceptedBy_refused (by rw [heq]; rfl), List.append_nil, heq]
    have hboard : openOrders ({ b with slots := s.2 }.reject q nowNs reason).2 = openOrders b :=
      (SlotTable.filterMap_allocate halloc shown_of_reusable rfl {}).1
    rw [hboard]
    exact h.recorded.quiet (tells_reject { b with slots := s.2 } q nowNs reason)
  · have haccepted : (b.submit q nowNs).1.accepted = true := by rw [heq]
    rw [acceptedBy_accepted haccepted] at hall ⊢
    rw [heq] at hall ⊢
    obtain ⟨hlisted, hnew⟩ := hall _ (List.mem_singleton_self _)
    obtain ⟨recs, htells, hmirrored⟩ := h.recorded
    obtain ⟨-, l, r, hboard, hset⟩ := SlotTable.filterMap_allocate halloc shown_of_reusable rfl
      ({ b with slots := s.2 }.acceptedSlot q nowNs)
    have hquiet := tells_accept { b with slots := s.2 } s.1 q nowNs
    refine ⟨recs, htells.trans_quiet hquiet, ?_⟩
    unfold openOrders at hmirrored ⊢
    rw [hboard] at hmirrored
    rw [accept_slots, hset]
    exact hmirrored.accept hlisted hnew

/-! ## Cancels and replaces -/

theorem told_cancelled {c : Books} {x : OrderSlot} (nowNs : Nat)
    (hrun : x.order.ref.runId = c.config.runId)
    (hstate : x.order.state = .acknowledged ∨ x.order.state = .partiallyFilled) :
    TurnTold c x (cancelled c x.order.ref x nowNs) (cancelRecords c x.order.ref x nowNs) where
  tells := tells_cancelled c x.order.ref x nowNs
  advances := by
    have hlegal : legal (snapshot x.order).state .cancelPending = true := by
      have hstate' : (snapshot x.order).state = .acknowledged ∨
          (snapshot x.order).state = .partiallyFilled := hstate
      rcases hstate' with hs | hs
      all_goals
        rw [hs]
        rfl
    have hpending := advances_transition _
      (journalEntry .cancel nowNs c.config.runId x.order.ref.logicalOrderId x.order.symbolId 0
        x.order.remaining 0 0 0) .cancelPending rfl (fun y r hr => by unfold Verdict.applyKind; rw [hr]) hlegal
    have hcancelled := advances_transition { snapshot x.order with state := .cancelPending }
      (journalEntry .orderState nowNs c.config.runId x.order.ref.logicalOrderId x.order.symbolId 0
        OrderState.cancelPending.code OrderState.cancelled.code x.order.filledVolume
        x.order.remaining) .cancelled rfl (fun y r hr => by unfold Verdict.applyKind; rw [hr]) rfl
    have hboth := hpending.trans hcancelled
    exact hboth
  about := by
    intro rec hrec
    unfold cancelRecords at hrec
    simp only [List.mem_cons, List.not_mem_nil, or_false] at hrec
    rcases hrec with rfl | rfl
    all_goals exact ref_eq hrun
  same := rfl

theorem told_replaced {c : Books} {x : OrderSlot} {price volume : Int} (nowNs : Nat)
    (hrun : x.order.ref.runId = c.config.runId) (hopen : isOpen x.order = true)
    (hknown : x.order.state ≠ .unknown) (hamend : Amendable c x.order price volume) :
    TurnTold c x (replaced c x.order.ref x price volume nowNs)
      [replaceRecord c x.order.ref x price volume nowNs] where
  tells := tells_replaced c x.order.ref x price volume nowNs
  advances := by
    have hlive : x.order.state.isTerminal = false := by
      unfold isOpen at hopen
      simpa using (Bool.and_eq_true_iff.mp hopen).1
    have hreplace := advances_replace (snapshot x.order)
      (replaceRecord c x.order.ref x price volume nowNs) rfl hlive hknown hamend.above
    have hopen' : isOpen (replaced c x.order.ref x price volume nowNs).2.order = true := hopen
    rw [shown_of_open hopen']
    exact hreplace
  about := by
    intro rec hrec
    rw [List.mem_singleton.mp hrec]
    exact ref_eq hrun
  same := rfl

theorem openOrders_split {l r : List OrderSlot} {x : OrderSlot} :
    (l ++ x :: r).filterMap shown =
      l.filterMap shown ++ (shown x).toList ++ r.filterMap shown := by
  rw [SlotTable.filterMap_split, List.append_assoc]

/-- A live slot shows its order, or the order never left `new_order` and has no reference. -/
theorem open_or_orphan {x : OrderSlot} (hpath : SlotOnPath x) (hlive : x.order.state.isTerminal = false) :
    (isOpen x.order = true ∧ OnPath x) ∨ (x.order.state = .newOrder ∧ x.order.ref = {}) := by
  rcases hpath with horphan | ⟨-, hpath⟩
  · rcases horphan.state with hnew | hcancelled
    · exact Or.inr ⟨hnew, horphan.ref⟩
    · rw [hcancelled] at hlive
      cases hlive
  · refine Or.inl ⟨?_, hpath⟩
    unfold isOpen
    rw [hlive]
    rcases hpath.phase with ht | hs | hs | hs
    · rw [hlive] at ht
      cases ht
    all_goals
      rw [hs]
      rfl

/-- No submit of the run is accepted under the number 0, which such an order answers to. -/
def Untold (all : List (BrokerOrderRef × Int)) (b : Exec.PaperBroker) : Prop :=
  ∀ p ∈ all, p.1 ≠ ⟨b.books.config.runId, 0⟩

instance (all : List (BrokerOrderRef × Int)) (b : Exec.PaperBroker) : Decidable (Untold all b) :=
  inferInstanceAs (Decidable (∀ p ∈ all, _))

theorem Tracked.cancel (h : Tracked all accepted b) (ref : BrokerOrderRef) (nowNs : Nat)
    (hsteady : ∀ s, b.findLive ref = some s →
      s.2.order.state ≠ .sent ∧ (s.2.order.state = .newOrder → Untold all b)) :
    Recorded all accepted (b.cancel ref nowNs).2.books.journal (openOrders (b.cancel ref nowNs).2) := by
  rcases cancel_cases b ref nowNs with ⟨heq, -⟩ | ⟨l, x, r, hfound, heq⟩
  · rw [heq]
    exact h.recorded
  · have hmem : x ∈ b.slots := by
      rw [hfound.split]
      exact List.mem_append_right _ List.mem_cons_self
    obtain ⟨hsent, huntold⟩ := hsteady _ hfound.find
    have hrecorded := h.recorded
    unfold openOrders at hrecorded ⊢
    rw [hfound.split, openOrders_split] at hrecorded
    rw [heq, openOrders_split]
    obtain rfl := hfound.ref
    rcases open_or_orphan (h.paths x hmem) hfound.live with ⟨hopen, hpath⟩ | ⟨hnew, href⟩
    · have hstate : x.order.state = .acknowledged ∨ x.order.state = .partiallyFilled := by
        rcases hpath.phase with ht | hs | hs
        · rw [hfound.live] at ht
          cases ht
        · exact absurd hs hsent
        · exact hs
      exact hrecorded.turn hopen (told_cancelled nowNs (run_of_open (h.ok x hmem) hopen) hstate)
    · have hshown : shown x = none := by
        apply shown_of_not_open
        unfold isOpen
        rw [hnew]
        rfl
      rw [hshown] at hrecorded
      refine hrecorded.elsewhere (tells_cancelled b.books x.order.ref x nowNs) ?_
      intro rec hrec p hp hsame
      apply huntold hnew p hp
      rw [← hsame]
      unfold cancelRecords at hrec
      simp only [List.mem_cons, List.not_mem_nil, or_false] at hrec
      rcases hrec with rfl | rfl
      all_goals
        unfold journalEntry JournalRecord.ref
        rw [href]

theorem Tracked.replace (h : Tracked all accepted b) (ref : BrokerOrderRef) (price volume : Int)
    (nowNs : Nat) (hsteady : ∀ s, b.findLive ref = some s →
      s.2.order.state = .newOrder → Untold all b) :
    Recorded all accepted (b.replace ref price volume nowNs).2.books.journal
      (openOrders (b.replace ref price volume nowNs).2) := by
  rcases replace_cases b ref price volume nowNs with ⟨heq, -⟩ | ⟨l, x, r, hfound, hamend, heq⟩
  · rw [heq]
    exact h.recorded
  · have hmem : x ∈ b.slots := by
      rw [hfound.split]
      exact List.mem_append_right _ List.mem_cons_self
    have hrecorded := h.recorded
    unfold openOrders at hrecorded ⊢
    rw [hfound.split, openOrders_split] at hrecorded
    rw [heq, openOrders_split]
    obtain rfl := hfound.ref
    rcases open_or_orphan (h.paths x hmem) hfound.live with ⟨hopen, -⟩ | ⟨hnew, href⟩
    · exact hrecorded.turn hopen
        (told_replaced nowNs (run_of_open (h.ok x hmem) hopen) hopen hfound.known hamend)
    · have hshown : ∀ y : OrderSlot, y.order.state = .newOrder → shown y = none := by
        intro y hy
        apply shown_of_not_open
        unfold isOpen
        rw [hy]
        rfl
      rw [hshown x hnew] at hrecorded
      have hafter : shown (replaced b.books x.order.ref x price volume nowNs).2 = none := hshown _ hnew
      rw [hafter]
      refine hrecorded.elsewhere (tells_replaced b.books x.order.ref x price volume nowNs) ?_
      intro rec hrec p hp hsame
      apply hsteady _ hfound.find hnew p hp
      rw [← hsame, List.mem_singleton.mp hrec]
      unfold replaceRecord journalEntry JournalRecord.ref
      rw [href]

/-! ## Runs -/

/-- The step leaves no gap in the reports: no open order is due to expire or drawn for a rejection,
and no order is cancelled while it is `sent`. An order that was never accepted may be cancelled or
replaced if no accepted one goes by its number. -/
def Reported (all : List (BrokerOrderRef × Int)) (b : Exec.PaperBroker) : Action → Prop
  | .onQuote symbolId bid ask bidSize askSize tsNs =>
    symbolId < maxSymbols → b.books.halted = false → ∀ x ∈ b.slots, isOpen x.order = true →
      Undisturbed (b.quoted symbolId bid ask bidSize askSize tsNs).books x.order tsNs
  | .cancel ref _ => ∀ s, b.findLive ref = some s →
    s.2.order.state ≠ .sent ∧ (s.2.order.state = .newOrder → Untold all b)
  | .replace ref _ _ _ => ∀ s, b.findLive ref = some s → s.2.order.state = .newOrder → Untold all b
  | _ => True

instance Reported.decidable (all : List (BrokerOrderRef × Int)) (b : Exec.PaperBroker) :
    ∀ a, Decidable (Reported all b a)
  | .onQuote symbolId _ _ _ _ _ =>
    inferInstanceAs (Decidable (symbolId < maxSymbols → b.books.halted = false → ∀ x ∈ b.slots, _ → _))
  | .cancel ref _ => inferInstanceAs (Decidable (∀ s ∈ b.findLive ref, _))
  | .replace ref _ _ _ => inferInstanceAs (Decidable (∀ s ∈ b.findLive ref, _))
  | .setSymbol _ => isTrue trivial
  | .submit _ _ => isTrue trivial

/-- A step without a gap takes every order along a path of the state machine. -/
theorem Tracked.movesLegally (h : Tracked all accepted b) {a : Action} (hreported : Reported all b a) :
    b.MovesLegally a := by
  cases a with
  | onQuote symbolId bid ask bidSize askSize tsNs =>
    intro hsymbol hhalted x hx hworking hdue
    have hlive : x.order.state.isTerminal = false := by
      unfold isWorking at hworking
      simpa using (Bool.and_eq_true_iff.mp hworking).2
    have haccepted := (Bool.and_eq_true_iff.mp hworking).1
    rcases open_or_orphan (h.paths x hx) hlive with ⟨hopen, -⟩ | ⟨hnew, -⟩
    · rw [(hreported hsymbol hhalted x hx hopen).1] at hdue
      cases hdue
    · rcases h.paths x hx with horphan | ⟨-, hpath⟩
      · rw [horphan.notAccepted] at haccepted
        cases haccepted
      · rcases hpath.phase with hs | hs | hs | hs
        all_goals
          rw [hnew] at hs
          cases hs
  | cancel ref nowNs => exact fun s hfind _ => (hreported s hfind).1
  | setSymbol spec => trivial
  | submit q nowNs => trivial
  | replace ref price volume nowNs => trivial

theorem Tracked.step (h : Tracked all accepted b) {a : Action} (hreported : Reported all b a)
    (hall : ∀ p ∈ acceptedBy b a, p ∈ all ∧ p.1 ∉ accepted.map Prod.fst) :
    Tracked all (accepted ++ acceptedBy b a) (b.step a) := by
  refine ⟨slotsOk_step h.ok a, h.paths.step (h.movesLegally hreported), ?_⟩
  cases a with
  | setSymbol spec =>
    have hsame : (b.step (.setSymbol spec)).books.journal = b.books.journal ∧
        (b.step (.setSymbol spec)).slots = b.slots := by
      unfold PaperBroker.step setSymbol
      dsimp only
      split
      · exact ⟨rfl, rfl⟩
      · exact ⟨rfl, rfl⟩
    have hnone : acceptedBy b (.setSymbol spec) = [] := rfl
    unfold openOrders
    rw [hsame.1, hsame.2, hnone, List.append_nil]
    exact h.recorded
  | onQuote symbolId bid ask bidSize askSize tsNs =>
    rw [show acceptedBy b (.onQuote symbolId bid ask bidSize askSize tsNs) = [] from rfl, List.append_nil]
    exact h.onQuote hreported
  | submit q nowNs => exact h.submit q nowNs hall
  | cancel ref nowNs =>
    rw [show acceptedBy b (.cancel ref nowNs) = [] from rfl, List.append_nil]
    exact h.cancel ref nowNs hreported
  | replace ref price volume nowNs =>
    rw [show acceptedBy b (.replace ref price volume nowNs) = [] from rfl, List.append_nil]
    exact h.replace ref price volume nowNs hreported

/-- A run without a gap ends with the board of all submits that it accepted. -/
theorem Tracked.run {actions : List Action} (h : Tracked all accepted b)
    (hall : all = accepted ++ acceptances b actions) (hrefs : (all.map Prod.fst).Nodup)
    (hreported : Runs.Along Exec.PaperBroker.step (Reported all) b actions) :
    Tracked all all (Runs.run Exec.PaperBroker.step b actions) := by
  induction actions generalizing b accepted with
  | nil =>
    have hsame : accepted = all := by rw [hall, acceptances, List.append_nil]
    rw [← hsame] at h ⊢
    exact h
  | cons a actions ih =>
    have hsplit : all = accepted ++ acceptedBy b a ++ acceptances (b.step a) actions := by
      rw [hall, acceptances, List.append_assoc]
    have hstep : ∀ p ∈ acceptedBy b a, p ∈ all ∧ p.1 ∉ accepted.map Prod.fst := by
      intro p hp
      refine ⟨by rw [hsplit]; simp [hp], fun hold => ?_⟩
      rw [hsplit, List.map_append, List.map_append] at hrefs
      have hdisjoint := (List.nodup_append.mp (List.nodup_append.mp hrefs).1).2.2
      exact hdisjoint _ hold _ (List.mem_map_of_mem hp) rfl
    exact ih (h.step hreported.1 hstep) hsplit hreported.2

/-- The management system holds exactly the open orders of the broker, each in the broker's state
and with its volumes. -/
def Reconstructs (o : Oms) (b : Exec.PaperBroker) : Prop :=
  ∀ s, s ∈ openOrders b ↔ (o.find s.ref).map snapshot = some s

/-- Fed in any order to a sequencer, the reports of a run without a gap rebuild the broker: from one
sent order for each accepted submit to exactly the broker's open orders. -/
theorem reports_reconstruct (config : BrokerConfig) (actions : List Action)
    (hflow : (after config actions).books.journal.overflowed = false)
    (hrefs : ((acceptances (new config) actions).map Prod.fst).Nodup)
    (hreported : Runs.Along Exec.PaperBroker.step (Reported (acceptances (new config) actions))
      (new config) actions)
    (o : Oms) (ho : HoldsSent o (acceptances (new config) actions)) (capacity : Nat)
    (hcapacity : ((after config actions).books.journal.records.filter isReport).length ≤ capacity)
    (arrivals : List ExecReport)
    (harrivals : arrivals ~ fetchRecentReports (after config actions).books.journal capacity)
    (q : ReportSequencer) (hempty : q.gapPool.held = [])
    (hroom : arrivals.length ≤ q.gapPool.capacity) :
    Reconstructs (Runs.run deliver (q, o) arrivals).2 (after config actions) := by
  have hstart : Tracked (acceptances (new config) actions) [] (new config) := by
    refine ⟨slotsOk_new config, fun _ hx => (by cases hx), [], Tells.refl _, ?_⟩
    exact Mirrored.start
  obtain ⟨recs, htells, hmirrored⟩ := (hstart.run rfl hrefs hreported).recorded
  have hfetch := fetchRecentReports_eq htells hflow hcapacity
  have hnumbered : arrivals ~ numbered (fun _ => 0) recs := by
    rw [← hfetch]
    exact harrivals
  intro s
  exact hmirrored.reconstructed ho hnumbered hempty hroom s

/-- The order of one accepted submit, as a fresh store holds it once it is sent. -/
theorem holdsSent_one (ref : BrokerOrderRef) (volume : Int) :
    HoldsSent (((Oms.new 1).create ref 0 volume).2.transition ref .sent).2 [(ref, volume)] := by
  have hnew : (Oms.new 1).find ref = none := congrFun (Oms.find_new 1) ref
  have hroom : (Oms.new 1).size < (Oms.new 1).capacity := Nat.zero_lt_one
  obtain ⟨-, hcreate⟩ := (Oms.new 1).create_effect 0 volume hnew hroom
  have hlegal : legal (Oms.created ref 0 volume).state .sent = true := rfl
  obtain ⟨-, hsend⟩ := Oms.transition_effect _ hcreate.find_self hlegal
  refine ⟨fun p hp => ?_, fun other x hx => ?_⟩
  · rw [List.mem_singleton.mp hp]
    exact ⟨_, hsend.find_self, rfl, rfl⟩
  · by_cases hother : other = ref
    · rw [hother]
      exact List.mem_singleton_self _
    · rw [hsend.find_of_ne hother, hcreate.find_of_ne hother, Oms.find_new] at hx
      cases hx

/-- A limit order is acknowledged and replaced; its two reports arrive in reverse. -/
theorem reports_reconstruct_replaced :
    Reconstructs (Runs.run deliver
        (.new 2 1, (((Oms.new 1).create ⟨1, makeLogicalOrderId 0 0 0⟩ 0 3).2.transition
          ⟨1, makeLogicalOrderId 0 0 0⟩ .sent).2)
        [⟨⟨1, makeLogicalOrderId 0 0 0⟩, 2, .replaceAck, 5, 101⟩,
          ⟨⟨1, makeLogicalOrderId 0 0 0⟩, 1, .ack, 0, 0⟩]).2
      (after { initialBalanceMinor := 1000000 }
        [.onQuote 0 100 102 0 0 1, .submit { type := .limit, limitPriceTicks := 101, volume := 3 } 1,
          .onQuote 0 100 102 0 0 10000000000,
          .replace ⟨1, makeLogicalOrderId 0 0 0⟩ 101 5 10000000000]) :=
  reports_reconstruct _ _ (by decide +kernel) (by decide +kernel) (by decide +kernel) _
    (holdsSent_one _ 3) 2 (by decide +kernel) _ (by decide +kernel) _ rfl (by decide +kernel)

/-- A limit order is acknowledged by the second quote and expires at the third. -/
def expiringRun : List Action :=
  [.onQuote 0 100 102 0 0 1,
    .submit { type := .limit, limitPriceTicks := 101, volume := 3, expireNs := 20000000000 } 1,
    .onQuote 0 100 102 0 0 10000000000, .onQuote 0 100 102 0 0 20000000000]

/-- The expiry is not reported: from the one sent order the acknowledgement leaves an order open
that the broker has ended. -/
theorem expired_order_stays_open :
    acceptances (new { initialBalanceMinor := 1000000 }) expiringRun =
        [(⟨1, makeLogicalOrderId 0 0 0⟩, 3)] ∧
      (after { initialBalanceMinor := 1000000 } expiringRun).books.journal.overflowed = false ∧
      HoldsSent (((Oms.new 1).create ⟨1, makeLogicalOrderId 0 0 0⟩ 0 3).2.transition
        ⟨1, makeLogicalOrderId 0 0 0⟩ .sent).2 [(⟨1, makeLogicalOrderId 0 0 0⟩, 3)] ∧
      ¬ Reconstructs (Runs.run deliver
          (.new 1024 4096, (((Oms.new 1).create ⟨1, makeLogicalOrderId 0 0 0⟩ 0 3).2.transition
            ⟨1, makeLogicalOrderId 0 0 0⟩ .sent).2)
          (fetchRecentReports
            (after { initialBalanceMinor := 1000000 } expiringRun).books.journal 1024)).2
        (after { initialBalanceMinor := 1000000 } expiringRun) := by
  refine ⟨by decide +kernel, by decide +kernel, holdsSent_one _ 3, fun h => ?_⟩
  have hphantom := (h ⟨⟨1, makeLogicalOrderId 0 0 0⟩, .acknowledged, 3, 0⟩).mpr (by decide +kernel)
  revert hphantom
  decide +kernel

end PaperBroker

end MicrostructureEngine
