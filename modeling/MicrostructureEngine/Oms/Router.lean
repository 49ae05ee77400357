import MicrostructureEngine.Oms.SelfTrade
import MicrostructureEngine.Oms.Venue
import MicrostructureEngine.Risk.Resize

/-!
# The risk-gated router

`RiskGatedRouter`: a create reserves in the ledger, passes the self-trade tracker and is then
routed to its venue; what the venue answers is reconciled with the reservation. The router
attaches its ledger to no venue, so the gate a venue may have is another ledger. `full` says
for each call on a venue's system whether its ring is full.
-/

namespace MicrostructureEngine

set_option autoImplicit false

namespace VenueRegistry

def find (venues : List VenueConnection) (id : UInt64) : Option VenueConnection :=
  venues.find? fun v => v.id == id

/-- The venue that `find` returned, written back. -/
def set : List VenueConnection → VenueConnection → List VenueConnection
  | [], _ => []
  | v :: vs, c => if v.id = c.id then c :: vs else v :: set vs c

theorem find_id {venues : List VenueConnection} {id : UInt64} {c : VenueConnection}
    (h : find venues id = some c) : c.id = id := by
  unfold find at h
  simpa using List.find?_some h

theorem find_set (venues : List VenueConnection) (c : VenueConnection) (id : UInt64) :
    find (set venues c) id =
      if id = c.id then (find venues id).map fun _ => c else find venues id := by
  induction venues with
  | nil => simp [set, find]
  | cons v vs ih =>
    unfold find at ih ⊢
    unfold set
    by_cases hv : v.id = c.id
    · rw [if_pos hv]
      by_cases hid : id = c.id
      · subst hid
        simp [hv]
      · simp [hid, hv, Ne.symm hid]
    · rw [if_neg hv, List.find?_cons, List.find?_cons]
      by_cases hvid : v.id = id
      · have hid : id ≠ c.id := fun h => hv (hvid.trans h)
        simp [hvid, hid]
      · simp only [beq_eq_false_iff_ne.mpr hvid]
        exact ih

end VenueRegistry

structure RiskGatedRouter where
  registry : List VenueConnection
  ledger : RiskLedger
  /-- A tracker in a state its own calls lead to. -/
  selfTrade : Option { t : SelfTradeTracker // t.Inv } := none
  /-- The engine behind `globally_halted()`. -/
  engine : Risk.RiskEngine := {}

namespace RiskGatedRouter

def globallyHalted (r : RiskGatedRouter) : Bool := r.engine.halted

def find (r : RiskGatedRouter) (venue : UInt64) : Option VenueConnection :=
  VenueRegistry.find r.registry venue

def setVenue (r : RiskGatedRouter) (c : VenueConnection) : RiskGatedRouter :=
  { r with registry := VenueRegistry.set r.registry c }

def setLedger (r : RiskGatedRouter) (l : RiskLedger) : RiskGatedRouter := { r with ledger := l }

/-- `self_trade_ == nullptr || self_trade_->check_and_apply(..)`. -/
def checkSelfTrade (r : RiskGatedRouter) (venue : UInt64) (symbol : Nat) (strategy : UInt32)
    (side : Side) (volume : Int) : Bool × RiskGatedRouter :=
  match r.selfTrade with
  | none => (true, r)
  | some t =>
    let checked := t.1.checkAndApply venue symbol strategy side volume
    (checked.1, { r with
      selfTrade := some ⟨checked.2, (t.2.checkAndApply_spec venue symbol strategy side volume).1.1⟩ })

/-- A reclaimed order leaves the completion as the caller handed it in; a reference other than
the one asked about is taken as the sign of that. -/
def terminalOrGone (ref : BrokerOrderRef) (out : Completion) : Bool :=
  out.order.state.isTerminal || !(out.order.ref == ref)

def submitCreate (r : RiskGatedRouter) (strategy : UInt32) (venue : UInt64) (full : Bool)
    (ref : BrokerOrderRef) (symbol : Nat) (side : Side) (volume : Int) (nowNs : Nat)
    (out : Completion) : Decision × Completion × RiskGatedRouter :=
  if r.globallyHalted then (.rejected, out, r)
  else match r.find venue with
  | none => (.rejected, out, r)
  | some conn =>
    let reserved := r.ledger.reserve strategy venue symbol side volume ref
    let r := r.setLedger reserved.1
    if reserved.2 = false then (.rejected, out, r)
    else
      let checked := r.checkSelfTrade venue symbol strategy side volume
      let r := checked.2
      if checked.1 = false then (.rejected, out, r.setLedger (r.ledger.release ref))
      else
        let routed := conn.routeCreate full ref symbol volume nowNs out
        let r := r.setVenue routed.2.2
        if routed.1 ≠ .admitted then
          (routed.1, routed.2.1, r.setLedger (r.ledger.release ref))
        else (.admitted, routed.2.1, r)

def submitCancel (r : RiskGatedRouter) (venue : UInt64) (full : Bool) (ref : BrokerOrderRef)
    (nowNs : Nat) (out : Completion) : Decision × Completion × RiskGatedRouter :=
  if r.globallyHalted then (.rejected, out, r)
  else match r.find venue with
  | none => (.rejected, out, r)
  | some conn =>
    let routed := conn.routeCancel full ref nowNs out
    let r := r.setVenue routed.2.2
    let r :=
      if routed.1 = .admitted then
        r.setLedger (r.ledger.reconcile ref routed.2.1.order.filledVolume
          (terminalOrGone ref routed.2.1))
      else r
    (routed.1, routed.2.1, r)

/-- `findFull` is for the `submit_find` at the start, which answers `true` for an order it does
not find as well. -/
def submitReplace (r : RiskGatedRouter) (venue : UInt64) (findFull full : Bool)
    (ref : BrokerOrderRef) (newPrice newVolume : Int) (nowNs : Nat) (out : Completion) :
    Decision × Completion × RiskGatedRouter :=
  if r.globallyHalted then (.rejected, out, r)
  else match r.find venue with
  | none => (.rejected, out, r)
  | some conn =>
    let before := conn.oms.submitFind findFull ref {}
    let conn := { conn with oms := before.2.2 }
    let r := r.setVenue conn
    let oldRequested := if before.1 then before.2.1.order.requestedVolume else newVolume
    let adjusted := r.ledger.adjustReplace ref newVolume
    let r := r.setLedger adjusted.1
    if adjusted.2 = false then (.rejected, out, r)
    else
      let routed := conn.routeReplace full ref newPrice newVolume nowNs out
      let r := r.setVenue routed.2.2
      let r :=
        if routed.1 ≠ .admitted then
          let delta := newVolume - oldRequested
          if delta > 0 then r.setLedger (r.ledger.undoReplaceIncrease ref delta) else r
        else r
      (routed.1, routed.2.1, r)

def submitReport (r : RiskGatedRouter) (venue : UInt64) (full : Bool) (report : ExecReport)
    (out : Completion) : Decision × Completion × RiskGatedRouter :=
  match r.find venue with
  | none => (.rejected, out, r)
  | some conn =>
    let submitted := conn.oms.submitReport full report out
    let r := r.setVenue { conn with oms := submitted.2.2 }
    let r :=
      if submitted.1 = true ∧ submitted.2.1.reportOutcome = .applied then
        r.setLedger (r.ledger.reconcile report.ref submitted.2.1.order.filledVolume
          (terminalOrGone report.ref submitted.2.1))
      else r
    (if submitted.1 && submitted.2.1.ok then .admitted else .rejected, submitted.2.1, r)

/-- The orders of every venue. -/
def order (r : RiskGatedRouter) (venue : UInt64) (ref : BrokerOrderRef) : Option Order :=
  (r.find venue).bind fun c => c.oms.order ref

/-- The reports a venue holds back in the shard of an order. -/
def held (r : RiskGatedRouter) (venue : UInt64) (ref : BrokerOrderRef) : List ExecReport :=
  (r.find venue).elim [] fun c => c.oms.held ref

section Venues
variable {r : RiskGatedRouter} {c c' : VenueConnection} {venue : UInt64}

theorem find_setVenue (h : r.find venue = some c) (hid : c'.id = c.id) (v : UInt64) :
    (r.setVenue c').find v = if v = venue then some c' else r.find v := by
  unfold find setVenue at *
  rw [VenueRegistry.find_set, hid, VenueRegistry.find_id h]
  split
  · rename_i hv
    rw [hv, h]
    rfl
  · rfl

/-- Writing a venue back replaces its orders and those of no other. -/
theorem order_setVenue (h : r.find venue = some c) (hid : c'.id = c.id) :
    (r.setVenue c').order = Function.update r.order venue c'.oms.order := by
  funext v ref
  unfold order
  rw [find_setVenue h hid]
  by_cases hv : v = venue
  · subst hv
    rw [if_pos rfl, Function.update_self]
    rfl
  · rw [if_neg hv, Function.update_of_ne hv]

theorem order_of_find (h : r.find venue = some c) : r.order venue = c.oms.order := by
  funext ref
  unfold order
  rw [h]
  rfl

theorem order_ref {ref : BrokerOrderRef} {x : Order} (h : r.order venue ref = some x) : x.ref = ref := by
  unfold order at h
  obtain ⟨c, _, hx⟩ := Option.bind_eq_some_iff.mp h
  exact Oms.find_ref _ hx

theorem held_of_find (h : r.find venue = some c) : r.held venue = c.oms.held := by
  funext ref
  unfold held
  rw [h]
  rfl

theorem order_setVenue_same (h : r.find venue = some c) (hid : c'.id = c.id)
    (horder : c'.oms.order = c.oms.order) : (r.setVenue c').order = r.order := by
  rw [order_setVenue h hid, horder, ← order_of_find h, Function.update_eq_self]

@[simp] theorem order_setLedger (l : RiskLedger) : (r.setLedger l).order = r.order := rfl

@[simp] theorem ledger_setVenue : (r.setVenue c).ledger = r.ledger := rfl

@[simp] theorem ledger_setLedger (l : RiskLedger) : (r.setLedger l).ledger = l := rfl

/-- One order of one venue is rewritten. -/
def setOrder (m : UInt64 → BrokerOrderRef → Option Order) (venue : UInt64) (ref : BrokerOrderRef)
    (y : Option Order) : UInt64 → BrokerOrderRef → Option Order :=
  Function.update m venue (Function.update (m venue) ref y)

theorem setOrder_apply (m : UInt64 → BrokerOrderRef → Option Order) (venue : UInt64)
    (ref : BrokerOrderRef) (y : Option Order) (v : UInt64) (k : BrokerOrderRef) :
    setOrder m venue ref y v k = if v = venue ∧ k = ref then y else m v k := by
  unfold setOrder
  by_cases hv : v = venue
  · subst hv
    by_cases hk : k = ref
    · subst hk
      rw [Function.update_self, Function.update_self, if_pos ⟨rfl, rfl⟩]
    · rw [Function.update_self, Function.update_of_ne hk, if_neg (fun h => hk h.2)]
  · rw [Function.update_of_ne hv, if_neg (fun h => hv h.1)]

theorem setOrder_eq_self {m : UInt64 → BrokerOrderRef → Option Order} {ref : BrokerOrderRef}
    {y : Option Order} (h : m venue ref = y) : setOrder m venue ref y = m := by
  rw [setOrder, ← h, Function.update_eq_self, Function.update_eq_self]

theorem order_setVenue_update (h : r.find venue = some c) (hid : c'.id = c.id) {ref : BrokerOrderRef}
    {y : Option Order} (horder : c'.oms.order = Function.update c.oms.order ref y) :
    (r.setVenue c').order = setOrder r.order venue ref y := by
  rw [order_setVenue h hid, horder, ← order_of_find h]
  rfl

end Venues

/-! ## What the calls do to the orders and the ledger -/

section Calls
variable (r : RiskGatedRouter) (venue : UInt64) (full : Bool) (ref : BrokerOrderRef) (nowNs : Nat)
  (out : Completion)

theorem checkSelfTrade_frame (symbol : Nat) (strategy : UInt32) (side : Side) (volume : Int) :
    (r.checkSelfTrade venue symbol strategy side volume).2.ledger = r.ledger ∧
      (r.checkSelfTrade venue symbol strategy side volume).2.registry = r.registry := by
  unfold checkSelfTrade
  split <;> exact ⟨rfl, rfl⟩

/-- A create does nothing, or reserves and releases again, or reserves and is created. -/
theorem submitCreate_cases (strategy : UInt32) (symbol : Nat) (side : Side) (volume : Int) :
    let s := (r.submitCreate strategy venue full ref symbol side volume nowNs out)
    (s.1 ≠ .admitted ∧ s.2.2.order = r.order ∧ s.2.2.ledger = r.ledger) ∨
    ∃ l', r.ledger.reserve strategy venue symbol side volume ref = (l', true) ∧
      ((s.1 ≠ .admitted ∧ s.2.2.order = r.order ∧ s.2.2.ledger = l'.release ref) ∨
        (s.1 = .admitted ∧ r.order venue ref = none ∧
          s.2.2.order = setOrder r.order venue ref (some (Oms.created ref symbol volume)) ∧
          s.2.2.ledger = l')) := by
  dsimp only
  unfold submitCreate
  split
  · exact .inl ⟨nofun, rfl, rfl⟩
  · split
    · exact .inl ⟨nofun, rfl, rfl⟩
    · rename_i conn hfind
      dsimp only
      have hrefused := r.ledger.reserve_refused strategy venue symbol side volume ref
      generalize r.ledger.reserve strategy venue symbol side volume ref = reserved at hrefused ⊢
      obtain ⟨l', taken⟩ := reserved
      cases taken with
      | false =>
        rw [if_pos rfl, hrefused rfl]
        exact .inl ⟨nofun, rfl, rfl⟩
      | true =>
        rw [if_neg nofun]
        refine .inr ⟨l', rfl, ?_⟩
        obtain ⟨hledger, hregistry⟩ := (r.setLedger l').checkSelfTrade_frame venue symbol strategy
          side volume
        generalize (r.setLedger l').checkSelfTrade venue symbol strategy side volume = checked
          at hledger hregistry ⊢
        obtain ⟨passed, r'⟩ := checked
        dsimp only [ledger_setLedger] at hledger hregistry ⊢
        have horder : r'.order = r.order := by
          unfold order find
          rw [hregistry]
          rfl
        have hfind' : r'.find venue = some conn := by
          unfold find
          rw [hregistry]
          exact hfind
        split
        · exact .inl ⟨nofun, horder, congrArg (·.release ref) hledger⟩
        · have hcases := conn.routeCreate_order full ref nowNs out symbol volume
          have hid := conn.routeCreate_id full ref nowNs out symbol volume
          dsimp only at hcases
          generalize conn.routeCreate full ref symbol volume nowNs out = routed at hcases hid ⊢
          rcases hcases with ⟨hnot, hsame⟩ | ⟨hadmitted, hnone, hupdate⟩
          · rw [if_pos hnot]
            exact .inl ⟨hnot, (order_setVenue_same hfind' hid hsame).trans horder,
              congrArg (·.release ref) hledger⟩
          · rw [if_neg (not_not.mpr hadmitted)]
            refine .inr ⟨rfl, ?_, ?_, hledger⟩
            · rw [order_of_find hfind]
              exact hnone
            · rw [← horder]
              exact order_setVenue_update hfind' hid hupdate

/-- An admitted cancel reconciles with the fills the order has. -/
theorem submitCancel_cases :
    let s := r.submitCancel venue full ref nowNs out
    (s.2.2.order = r.order ∧ s.2.2.ledger = r.ledger) ∨
    ∃ x, r.order venue ref = some x ∧
      s.2.2.order = setOrder r.order venue ref (some { x with state := .cancelPending }) ∧
      s.2.2.ledger = r.ledger.reconcile ref x.filledVolume false := by
  dsimp only
  unfold submitCancel
  split
  · exact .inl ⟨rfl, rfl⟩
  · split
    · exact .inl ⟨rfl, rfl⟩
    · rename_i conn hfind
      have hcases := conn.routeCancel_order full ref nowNs out
      have hid := conn.routeCancel_id full ref nowNs out
      dsimp only at hcases ⊢
      generalize conn.routeCancel full ref nowNs out = routed at hcases hid ⊢
      rcases hcases with ⟨hnot, hsame⟩ | ⟨hadmitted, x, hx, hupdate, hcopy⟩
      · rw [if_neg hnot]
        exact .inl ⟨order_setVenue_same hfind hid hsame, rfl⟩
      · rw [if_pos hadmitted]
        refine .inr ⟨x, ?_, order_setVenue_update hfind hid hupdate, ?_⟩
        · rw [order_of_find hfind]
          exact hx
        · have href : x.ref = ref := Oms.find_ref _ hx
          have hgone : terminalOrGone ref routed.2.1 = false := by
            simp [terminalOrGone, hcopy, href, OrderState.isTerminal]
          simp only [ledger_setLedger, ledger_setVenue, hgone, hcopy]

/-- The order a report's completion shows: what is left of it, else what the caller handed in. -/
def shown (after : Option Order) : Order := after.getD out.order

/-- A report moves its own order when it is next in sequence, and the ledger when it was
applied. -/
theorem submitReport_cases (report : ExecReport) :
    let s := r.submitReport venue full report out
    (s.2.2.order = r.order ∧ s.2.2.ledger = r.ledger ∧
      (full = true ∨ ∀ x, r.order venue report.ref = some x → report.venueSeq ≠ x.lastAppliedSeq + 1)) ∨
    ∃ x, full = false ∧ r.order venue report.ref = some x ∧ report.venueSeq = x.lastAppliedSeq + 1 ∧
      s.2.2.order = setOrder r.order venue report.ref
        (arrive (r.held venue report.ref) x report).after ∧
      s.2.2.ledger =
        if (Verdict.applyOne x report).ok then
          r.ledger.reconcile report.ref
            (shown out (arrive (r.held venue report.ref) x report).after).filledVolume
            (terminalOrGone report.ref
              { order := shown out (arrive (r.held venue report.ref) x report).after })
        else r.ledger := by
  dsimp only
  unfold submitReport
  split
  · rename_i hfind
    refine .inl ⟨rfl, rfl, .inr ?_⟩
    intro x hx
    rw [order, hfind] at hx
    cases hx
  · rename_i conn hfind
    have hcases := conn.oms.submitReport_cases full out report
    dsimp only at hcases ⊢
    generalize conn.oms.submitReport full report out = submitted at hcases ⊢
    rcases hcases with ⟨hfull, hsent, _, hsame⟩ |
      ⟨hroom, hsent, _, _, ⟨hnot, hsame, hturn⟩ | ⟨x, hx, hseq, houtcome, horder, hcopy⟩⟩
    · rw [if_neg (by rw [hsent]; nofun)]
      refine .inl ⟨order_setVenue_same hfind rfl ?_, rfl, .inl hfull⟩
      dsimp only
      rw [hsame]
    · rw [if_neg (fun h => hnot h.2), order_of_find hfind]
      refine .inl ⟨?_, rfl, .inr hturn⟩
      exact order_setVenue_same hfind rfl hsame
    · right
      rw [held_of_find hfind, order_of_find hfind]
      have hid : ({ conn with oms := submitted.2.2 } : VenueConnection).id = conn.id := rfl
      refine ⟨x, hroom, hx, hseq, ?_, ?_⟩
      · have hset := order_setVenue_update hfind hid horder
        split <;> exact hset
      · cases hok : (Verdict.applyOne x report).ok with
        | false =>
          rw [hok] at houtcome
          rw [if_neg (by rw [houtcome]; nofun)]
          rfl
        | true =>
          rw [hok] at houtcome
          rw [if_pos ⟨hsent, houtcome⟩]
          simp only [ledger_setLedger, ledger_setVenue, if_true, terminalOrGone, hcopy, shown]

/-- `old_requested` of `submit_replace`. -/
def oldRequested (findFull : Bool) (newVolume : Int) : Int :=
  if findFull then newVolume else ((r.order venue ref).getD {}).requestedVolume

/-- A replace that the ledger takes resizes the reservation. When the venue does not admit it,
the reservation is left at `newVolume` less what `undo_replace_increase` is asked to undo. -/
theorem submitReplace_cases (findFull : Bool) (newPrice newVolume : Int) :
    let s := r.submitReplace venue findFull full ref newPrice newVolume nowNs out
    let undone := max (newVolume - r.oldRequested venue ref findFull newVolume) 0
    (s.1 = .rejected ∧ s.2.2.order = r.order ∧ s.2.2.ledger = r.ledger ∧
      (r.globallyHalted = true ∨ r.find venue = none ∨
        (r.ledger.adjustReplace ref newVolume).2 = false)) ∨
    ∃ conn p, r.globallyHalted = false ∧ r.find venue = some conn ∧
      (r.ledger.adjustReplace ref newVolume).2 = true ∧
      r.ledger.findReservation ref = some p ∧
      ((r.ledger.reservations p).requestedVolume < newVolume →
        ∀ d ∈ r.ledger.dimsFor (r.ledger.reservations p), (r.ledger.dims d).openExposure +
          (newVolume - (r.ledger.reservations p).requestedVolume) ≤
            (r.ledger.config.limits d).openOrderLimit) ∧
      (s.1 = .rejected ↔ conn.RefusesReplace full ref nowNs newPrice newVolume) ∧
      (s.1 = .deferred ↔ conn.DefersReplace ref nowNs newPrice newVolume) ∧
      ((s.1 = .admitted ∧ s.2.2.ledger = r.ledger.resize p newVolume ∧
          ∃ x, r.order venue ref = some x ∧ replaceable x newVolume = true ∧
            s.2.2.order = setOrder r.order venue ref (some (replaceOrder newPrice newVolume x))) ∨
        (s.1 ≠ .admitted ∧ s.2.2.ledger = r.ledger.resize p (newVolume - undone) ∧
          s.2.2.order = r.order)) := by
  dsimp only
  unfold submitReplace
  split
  · rename_i hhalted
    exact .inl ⟨rfl, rfl, rfl, .inl hhalted⟩
  · rename_i hhalted
    split
    · rename_i hfind
      exact .inl ⟨rfl, rfl, rfl, .inr (.inl hfind)⟩
    · rename_i conn hfind
      dsimp only
      have hfound := conn.oms.submitFind_order findFull ref {}
      obtain ⟨hsent, hcopy⟩ := conn.oms.submitFind_reply findFull ref {}
      generalize conn.oms.submitFind findFull ref {} = before at hfound hsent hcopy ⊢
      have hold : (if before.1 = true then before.2.1.order.requestedVolume else newVolume) =
          r.oldRequested venue ref findFull newVolume := by
        unfold oldRequested
        rw [order_of_find hfind, hsent]
        cases findFull with
        | true => rfl
        | false =>
          rw [hcopy rfl]
          rfl
      -- From here on the venue is `conn'`: `conn` after the lookup, with the same orders.
      have hid : ({ conn with oms := before.2.2 } : VenueConnection).id = conn.id := rfl
      have hrefuses := conn.refusesReplace_congr full ref nowNs hfound newPrice newVolume
      have hdefers : ({ conn with oms := before.2.2 } : VenueConnection).DefersReplace ref nowNs
          newPrice newVolume ↔ conn.DefersReplace ref nowNs newPrice newVolume := Iff.rfl
      have horders : ({ conn with oms := before.2.2 } : VenueConnection).oms.order = conn.oms.order :=
        hfound
      rw [hold]
      generalize ({ conn with oms := before.2.2 } : VenueConnection) = conn' at hid hrefuses hdefers horders ⊢
      have hstart := order_setVenue_same hfind hid horders
      have hfind' : (r.setVenue conn').find venue = some conn' := by
        rw [find_setVenue hfind hid, if_pos rfl]
      rcases r.ledger.adjustReplace_cases ref newVolume with hfail | ⟨p, hp, _, hdone, hwithin⟩
      · rw [ledger_setVenue, hfail, if_pos rfl]
        exact .inl ⟨rfl, hstart, rfl, .inr (.inr rfl)⟩
      · rw [ledger_setVenue, hdone, if_neg nofun]
        have hcases := conn'.routeReplace_order full ref nowNs out newPrice newVolume
        have hrejected := conn'.routeReplace_rejected_iff full ref nowNs out newPrice newVolume
        have hdeferred := conn'.routeReplace_deferred_iff full ref nowNs out newPrice newVolume
        have hrouted := conn'.routeReplace_id full ref nowNs out newPrice newVolume
        dsimp only at hcases
        generalize conn'.routeReplace full ref newPrice newVolume nowNs out = routed
          at hcases hrejected hdeferred hrouted ⊢
        have hfind'' : ((r.setVenue conn').setLedger (r.ledger.resize p newVolume)).find venue =
            some conn' := hfind'
        refine .inr ⟨conn, p, by simpa using hhalted, hfind, rfl, hp, hwithin,
          hrejected.trans hrefuses, hdeferred.trans hdefers, ?_⟩
        rcases hcases with ⟨hnot, hsame⟩ | ⟨hadmitted, x, hx, hguard, hupdate⟩
        · refine .inr ⟨hnot, ?_, ?_⟩
          · rw [if_pos hnot, ← RiskLedger.undo_resize hp]
            split <;> rfl
          · rw [if_pos hnot]
            have hkept := (order_setVenue_same hfind'' hrouted hsame).trans hstart
            split <;> exact hkept
        · refine .inl ⟨hadmitted, ?_, x, ?_, hguard, ?_⟩
          · rw [if_neg (not_not.mpr hadmitted)]
            rfl
          · rw [order_of_find hfind, ← horders]
            exact hx
          · rw [if_neg (not_not.mpr hadmitted), ← hstart]
            exact order_setVenue_update hfind'' hrouted hupdate

end Calls

end RiskGatedRouter

end MicrostructureEngine
