import MicrostructureEngine.Oms.Router

/-!
# Reservations behind live orders

A run of the router's calls, with the drains of the venues' queues and the hand-over of
orders to the venues between them, and the invariant that ties the ledger to the orders:
every live order has a reservation, and the ledger's counters are the sums over the
reservations. Each step keeps it under a condition of its own; what a run asks of all of its
steps is left to the modules that use it.
-/

namespace MicrostructureEngine

set_option autoImplicit false

namespace RiskGatedRouter

inductive Event where
  | create (strategy : UInt32) (venue : UInt64) (full : Bool) (ref : BrokerOrderRef) (symbol : Nat)
      (side : Side) (volume : Int) (nowNs : Nat) (out : Completion)
  | cancel (venue : UInt64) (full : Bool) (ref : BrokerOrderRef) (nowNs : Nat) (out : Completion)
  | replace (venue : UInt64) (findFull full : Bool) (ref : BrokerOrderRef) (newPrice newVolume : Int)
      (nowNs : Nat) (out : Completion)
  | report (venue : UInt64) (full : Bool) (report : ExecReport) (out : Completion)
  | drain (venue : UInt64) (full : Nat → Bool) (nowNs maxN : Nat)
  /-- The order goes out to the venue. -/
  | send (venue : UInt64) (full : Bool) (ref : BrokerOrderRef)

def drainPending (r : RiskGatedRouter) (venue : UInt64) (full : Nat → Bool) (nowNs maxN : Nat) :
    RiskGatedRouter :=
  match r.find venue with
  | none => r
  | some c => r.setVenue (VenueConnection.drainPending nowNs full maxN c).2

def send (r : RiskGatedRouter) (venue : UInt64) (full : Bool) (ref : BrokerOrderRef) :
    RiskGatedRouter :=
  match r.find venue with
  | none => r
  | some c => r.setVenue { c with oms := (c.oms.submitTransition full ref .sent {}).2.2 }

def step (r : RiskGatedRouter) : Event → RiskGatedRouter
  | .create strategy venue full ref symbol side volume nowNs out =>
    (r.submitCreate strategy venue full ref symbol side volume nowNs out).2.2
  | .cancel venue full ref nowNs out => (r.submitCancel venue full ref nowNs out).2.2
  | .replace venue findFull full ref newPrice newVolume nowNs out =>
    (r.submitReplace venue findFull full ref newPrice newVolume nowNs out).2.2
  | .report venue full report out => (r.submitReport venue full report out).2.2
  | .drain venue full nowNs maxN => r.drainPending venue full nowNs maxN
  | .send venue full ref => r.send venue full ref

/-- An order that goes out changes its state and nothing else. -/
theorem send_cases (r : RiskGatedRouter) (venue : UInt64) (full : Bool) (ref : BrokerOrderRef) :
    (r.send venue full ref).ledger = r.ledger ∧
    ((r.send venue full ref).order = r.order ∨
      ∃ x, r.order venue ref = some x ∧
        (r.send venue full ref).order = setOrder r.order venue ref (some { x with state := .sent })) := by
  unfold RiskGatedRouter.send
  split
  · exact ⟨rfl, .inl rfl⟩
  · rename_i c hfind
    have htarget : OrderState.isTerminal .sent = false := rfl
    have hcases := c.oms.submitTransition_cases full ref {} htarget
    dsimp only at hcases
    generalize (c.oms.submitTransition full ref .sent {}) = sent at hcases ⊢
    have hid : ({ c with oms := sent.2.2 } : VenueConnection).id = c.id := rfl
    refine ⟨rfl, ?_⟩
    rcases hcases with ⟨_, x, hx, _, horder, _⟩ | ⟨_, horder⟩
    · refine .inr ⟨x, ?_, order_setVenue_update hfind hid horder⟩
      rw [order_of_find hfind]
      exact hx
    · exact .inl (order_setVenue_same hfind hid horder)

/-! ## The invariant -/

/-- `res` is the reservation of the order `x` of `venue`; `exact` asks for its volume too. -/
structure Covers (exact : Prop) (res : Reservation) (venue : UInt64) (x : Order) : Prop where
  live : x.state.isTerminal = false
  venue : res.venue = venue
  symbol : res.symbol = x.symbolId
  filled : res.lastKnownFilled ≤ x.filledVolume
  requested : exact → res.requestedVolume = x.requestedVolume
  filled_le : exact → x.filledVolume ≤ x.requestedVolume

/-- Every live order is behind a reservation. `exact` asks for its volume and for the limits,
`tight` for the converse: no reservation outlives its order. -/
structure Covered (exact tight : Prop) (r : RiskGatedRouter) : Prop where
  consistent : r.ledger.Consistent
  within : exact → r.ledger.WithinLimits
  nonneg : exact → ∀ ref res, r.ledger.held ref = some res → 0 ≤ res.lastKnownFilled
  orders : ∀ venue ref x, r.order venue ref = some x →
    ∃ res, r.ledger.held ref = some res ∧ Covers exact res venue x
  backed : tight → ∀ ref res, r.ledger.held ref = some res → r.order res.venue ref ≠ none

section Covered
variable {exact tight : Prop} {r r' : RiskGatedRouter} {venue : UInt64} {ref : BrokerOrderRef}

/-- A reference is live at one venue only. -/
theorem Covered.alone (h : Covered exact tight r) {x : Order} (hx : r.order venue ref = some x)
    (v : UInt64) (hv : v ≠ venue) : r.order v ref = none := by
  cases hy : r.order v ref with
  | none => rfl
  | some y =>
    obtain ⟨res, hres, hcovers⟩ := h.orders venue ref x hx
    obtain ⟨res', hres', hcovers'⟩ := h.orders v ref y hy
    obtain rfl := Option.some.inj (hres.symm.trans hres')
    exact absurd (hcovers'.venue.symm.trans hcovers.venue) hv

theorem Covered.unheld (h : Covered exact tight r) (hnone : r.ledger.held ref = none) (v : UInt64) :
    r.order v ref = none := by
  cases hy : r.order v ref with
  | none => rfl
  | some y =>
    obtain ⟨res, hres, _⟩ := h.orders v ref y hy
    rw [hnone] at hres
    cases hres

/-- One order and the entry of its reference are rewritten together. -/
theorem Covered.move (h : Covered exact tight r) {y : Option Order} {entry : Option Reservation}
    (hm : RiskLedger.Moved r.ledger r'.ledger ref entry) (hwithin : exact → r'.ledger.WithinLimits)
    (horder : r'.order = setOrder r.order venue ref y)
    (hsole : ∀ v, v ≠ venue → r.order v ref = none)
    (hnonneg : exact → ∀ res, entry = some res → 0 ≤ res.lastKnownFilled)
    (hy : ∀ z, y = some z → ∃ res, entry = some res ∧ Covers exact res venue z)
    (htight : tight → ∀ res, entry = some res → res.venue = venue ∧ y ≠ none) :
    Covered exact tight r' where
  consistent := hm.consistent
  within := hwithin
  nonneg := by
    intro he k res hres
    rw [hm.held] at hres
    by_cases hk : k = ref
    · subst hk
      rw [Function.update_self] at hres
      exact hnonneg he res hres
    · rw [Function.update_of_ne hk] at hres
      exact h.nonneg he k res hres
  orders := by
    intro v k z hz
    rw [horder, setOrder_apply] at hz
    rw [hm.held]
    by_cases hk : k = ref
    · subst hk
      rw [Function.update_self]
      by_cases hv : v = venue
      · rw [if_pos ⟨hv, rfl⟩] at hz
        rw [hv]
        exact hy z hz
      · rw [if_neg (fun hpair => hv hpair.1), hsole v hv] at hz
        cases hz
    · rw [Function.update_of_ne hk]
      rw [if_neg (fun hpair => hk hpair.2)] at hz
      exact h.orders v k z hz
  backed := by
    intro ht k res hres
    rw [hm.held] at hres
    rw [horder, setOrder_apply]
    by_cases hk : k = ref
    · subst hk
      rw [Function.update_self] at hres
      obtain ⟨hvenue, hlive⟩ := htight ht res hres
      rw [if_pos ⟨hvenue, rfl⟩]
      exact hlive
    · rw [Function.update_of_ne hk] at hres
      rw [if_neg (fun hpair => hk hpair.2)]
      exact h.backed ht k res hres

theorem Covered.same (h : Covered exact tight r) (horder : r'.order = r.order)
    (hledger : r'.ledger = r.ledger) : Covered exact tight r' where
  consistent := by rw [hledger]; exact h.consistent
  within := by rw [hledger]; exact h.within
  nonneg := by rw [hledger]; exact h.nonneg
  orders := by rw [hledger, horder]; exact h.orders
  backed := by rw [hledger, horder]; exact h.backed

/-- An order after steps that neither fill, resize nor end it. -/
structure Same (x z : Order) : Prop where
  requested : z.requestedVolume = x.requestedVolume
  filled : z.filledVolume = x.filledVolume
  symbol : z.symbolId = x.symbolId
  live : x.state.isTerminal = false → z.state.isTerminal = false

theorem Same.refl (x : Order) : Same x x := ⟨rfl, rfl, rfl, fun h => h⟩

theorem Same.covers {x z : Order} (h : Same x z) {res : Reservation} (hcovers : Covers exact res venue x) :
    Covers exact res venue z where
  live := h.live hcovers.live
  venue := hcovers.venue
  symbol := hcovers.symbol.trans h.symbol.symm
  filled := by
    rw [h.filled]
    exact hcovers.filled
  requested := by
    rw [h.requested]
    exact hcovers.requested
  filled_le := by
    rw [h.filled, h.requested]
    exact hcovers.filled_le

theorem Covered.stable (h : Covered exact tight r) (hledger : r'.ledger = r.ledger)
    (horder : ∀ v k z, r'.order v k = some z → ∃ x, r.order v k = some x ∧ Same x z)
    (hlive : tight → ∀ v k, r.order v k ≠ none → r'.order v k ≠ none) : Covered exact tight r' where
  consistent := by rw [hledger]; exact h.consistent
  within := by rw [hledger]; exact h.within
  nonneg := by rw [hledger]; exact h.nonneg
  orders := by
    intro v k z hz
    obtain ⟨x, hx, hsame⟩ := horder v k z hz
    obtain ⟨res, hres, hcovers⟩ := h.orders v k x hx
    rw [hledger]
    exact ⟨res, hres, hsame.covers hcovers⟩
  backed := by
    intro ht k res hres
    rw [hledger] at hres
    exact hlive ht _ _ (h.backed ht k res hres)

/-! ## The steps -/

theorem Covered.create (h : Covered exact tight r) (strategy : UInt32) (venue : UInt64) (full : Bool)
    (ref : BrokerOrderRef) (symbol : Nat) (side : Side) (volume : Int) (nowNs : Nat)
    (out : Completion) :
    Covered exact tight (r.submitCreate strategy venue full ref symbol side volume nowNs out).2.2 := by
  have hcases := r.submitCreate_cases venue full ref nowNs out strategy symbol side volume
  dsimp only at hcases
  generalize r.submitCreate strategy venue full ref symbol side volume nowNs out = s at hcases ⊢
  rcases hcases with ⟨_, horder, hledger⟩ | ⟨l', hreserve, hrest⟩
  · exact h.same horder hledger
  · rcases h.consistent.reserve strategy venue symbol side volume ref with
      hfail | ⟨l'', hdone, hnone, hadmitted, hmoved, hreleased⟩
    · rw [hfail] at hreserve
      cases hreserve
    · rw [hdone] at hreserve
      cases hreserve
      have hsole : ∀ v, v ≠ venue → r.order v ref = none := fun v _ => h.unheld hnone v
      rcases hrest with ⟨_, horder, hledger⟩ | ⟨_, hfree, horder, hledger⟩
      · rw [← hledger] at hreleased
        have hself : setOrder r.order venue ref none = r.order := setOrder_eq_self (h.unheld hnone venue)
        exact h.move hreleased (fun he => hreleased.withinLimits_none h.consistent (h.within he))
          (horder.trans hself.symm) hsole (by rintro _ _ ⟨⟩) (by rintro _ ⟨⟩)
          (by rintro _ _ ⟨⟩)
      · rw [← hledger] at hmoved
        refine h.move hmoved ?_ horder hsole ?_ ?_ ?_
        · intro he
          refine hmoved.withinLimits h.consistent (h.within he) ?_
          intro res hres d hd
          obtain rfl := Option.some.inj hres
          have hlimit := (hadmitted.within d hd).1
          rw [hnone, RiskLedger.share_some, if_pos hd]
          simp only [RiskLedger.share, Option.elim_none, RiskLedger.booked] at hlimit ⊢
          omega
        · intro _ res hres
          obtain rfl := Option.some.inj hres
          exact Int.le_refl 0
        · intro z hz
          obtain rfl := Option.some.inj hz
          exact ⟨_, rfl, rfl, rfl, rfl, Int.le_refl 0, fun _ => rfl,
            fun _ => Int.le_of_lt hadmitted.volume_pos⟩
        · intro _ res hres
          obtain rfl := Option.some.inj hres
          exact ⟨rfl, Option.some_ne_none _⟩

/-- An order shows no more fills than its reference has reserved. -/
def Fits (r : RiskGatedRouter) (ref : BrokerOrderRef) (x : Order) : Prop :=
  ∀ res, r.ledger.held ref = some res → x.filledVolume ≤ res.requestedVolume

/-- An order of the volume that was reserved for it. -/
theorem Covered.fits (h : Covered exact tight r) {x z : Order} (hx : r.order venue ref = some x)
    (he : exact) (hrequested : z.requestedVolume = x.requestedVolume)
    (hle : z.filledVolume ≤ z.requestedVolume) : r.Fits ref z := by
  intro res hres
  obtain ⟨res', hres', hcovers⟩ := h.orders venue ref x hx
  obtain rfl := Option.some.inj (hres.symm.trans hres')
  rw [hcovers.requested he, ← hrequested]
  exact hle

/-- The ledger is told the fills of an order that stays. -/
theorem Covered.observe (h : Covered exact tight r) {x z : Order} (hx : r.order venue ref = some x)
    (hlive : z.state.isTerminal = false) (hsymbol : z.symbolId = x.symbolId)
    (hfilled : x.filledVolume ≤ z.filledVolume) (hfits : r.Fits ref z)
    (hexact : exact → z.requestedVolume = x.requestedVolume ∧ z.filledVolume ≤ z.requestedVolume)
    (hledger : r'.ledger = r.ledger.reconcile ref z.filledVolume false)
    (horder : r'.order = setOrder r.order venue ref (some z)) : Covered exact tight r' := by
  obtain ⟨res, hres, hcovers⟩ := h.orders venue ref x hx
  have hknown := hcovers.filled
  have hmono : res.lastKnownFilled ≤ z.filledVolume := by omega
  have hmoved := h.consistent.reconcile hres hmono (hfits res hres)
  rw [← hledger] at hmoved
  refine h.move hmoved ?_ horder (h.alone hx) ?_ ?_ ?_
  · intro he
    refine hmoved.withinLimits_le h.consistent (h.within he) hres rfl ?_
    dsimp only
    omega
  · intro he res' hres'
    obtain rfl := Option.some.inj hres'
    have hnonneg := h.nonneg he ref res hres
    dsimp only
    omega
  · intro z' hz'
    obtain rfl := Option.some.inj hz'
    exact ⟨_, rfl, hlive, hcovers.venue, hcovers.symbol.trans hsymbol.symm, Int.le_refl _,
      fun he => (hcovers.requested he).trans (hexact he).1.symm, fun he => (hexact he).2⟩
  · intro _ res' hres'
    obtain rfl := Option.some.inj hres'
    exact ⟨hcovers.venue, Option.some_ne_none _⟩

/-- Only the volume of the reservation changes. -/
theorem Covered.resized (h : Covered exact tight r) {res : Reservation} {volume : Int}
    (hres : r.ledger.held ref = some res)
    (hm : RiskLedger.Moved r.ledger r'.ledger ref (some { res with requestedVolume := volume }))
    (horder : r'.order = r.order) (hsame : exact → volume = res.requestedVolume) :
    Covered exact tight r' := by
  have hself : r'.order = setOrder r.order res.venue ref (r.order res.venue ref) := by
    rw [horder]
    exact (setOrder_eq_self rfl).symm
  refine h.move hm ?_ hself ?_ ?_ ?_ ?_
  · intro he
    refine hm.withinLimits_le h.consistent (h.within he) hres rfl ?_
    rw [hsame he]
  · intro v hv
    cases hx : r.order v ref with
    | none => rfl
    | some x =>
      obtain ⟨res', hres', hcovers⟩ := h.orders v ref x hx
      obtain rfl := Option.some.inj (hres.symm.trans hres')
      exact absurd hcovers.venue.symm hv
  · rintro he res' ⟨⟩
    have hnonneg := h.nonneg he ref res hres
    exact hnonneg
  · intro x hx
    obtain ⟨res', hres', hcovers⟩ := h.orders res.venue ref x hx
    obtain rfl := Option.some.inj (hres.symm.trans hres')
    exact ⟨_, rfl, hcovers.live, rfl, hcovers.symbol, hcovers.filled,
      fun he => (hsame he).trans (hcovers.requested he), hcovers.filled_le⟩
  · rintro ht res' ⟨⟩
    exact ⟨rfl, h.backed ht ref res hres⟩

theorem Covered.cancel (h : Covered exact tight r) (venue : UInt64) (full : Bool) (ref : BrokerOrderRef)
    (nowNs : Nat) (out : Completion) (hfits : ∀ x, r.order venue ref = some x → r.Fits ref x) :
    Covered exact tight (r.submitCancel venue full ref nowNs out).2.2 := by
  rcases r.submitCancel_cases venue full ref nowNs out with
    ⟨horder, hledger⟩ | ⟨x, hx, horder, hledger⟩
  · exact h.same horder hledger
  · obtain ⟨_, _, hcovers⟩ := h.orders venue ref x hx
    exact h.observe (z := { x with state := .cancelPending }) hx rfl rfl (Int.le_refl _) (hfits x hx)
      (fun he => ⟨rfl, hcovers.filled_le he⟩) hledger horder

theorem Covered.send (h : Covered exact tight r) (venue : UInt64) (full : Bool) (ref : BrokerOrderRef) :
    Covered exact tight (r.send venue full ref) := by
  obtain ⟨hledger, horder | ⟨x, hx, horder⟩⟩ := r.send_cases venue full ref
  · exact h.same horder hledger
  · refine h.stable hledger ?_ ?_
    · intro v k z hz
      rw [horder, setOrder_apply] at hz
      split at hz
      · rename_i hpair
        obtain ⟨rfl, rfl⟩ := hpair
        obtain rfl := Option.some.inj hz
        exact ⟨x, hx, ⟨rfl, rfl, rfl, fun _ => rfl⟩⟩
      · exact ⟨z, hz, .refl z⟩
    · intro _ v k hk
      rw [horder, setOrder_apply]
      split
      · exact Option.some_ne_none _
      · exact hk

/-! ## Reports -/

/-- Through the cascade an order that stays gains fills and loses none. -/
theorem arrive_live {held : List ExecReport} {x z : Order} {report : ExecReport}
    (hx : x.state.isTerminal = false) (href : report.ref = x.ref)
    (hz : (arrive held x report).after = some z) :
    z.state.isTerminal = false ∧ z.ref = x.ref ∧ z.symbolId = x.symbolId ∧
      x.filledVolume ≤ z.filledVolume := by
  refine arrive_invariant (P := fun o => o.state.isTerminal = false ∧ o.ref = x.ref ∧
    o.symbolId = x.symbolId ∧ x.filledVolume ≤ o.filledVolume) ⟨hx, rfl, rfl, Int.le_refl _⟩ href ?_ hz
  rintro a _ y y' ⟨hlive, hyref, hsymbol, hfilled⟩ _ _ hy'
  obtain ⟨hlive', hsymbol'⟩ := Verdict.applyOne_lives hlive hy'
  have hyref' := (Verdict.applyOne_keeps y a y' hy').trans hyref
  refine ⟨hlive', hyref', hsymbol'.trans hsymbol, ?_⟩
  rcases Verdict.applyOne_volumes hy' with
    ⟨hsame, _⟩ | ⟨_, hin, hadded, _⟩ | ⟨_, _, _, hsame, _⟩
  · omega
  · unfold Oms.fillable at hin
    omega
  · omega

/-- It keeps its volume, if every replace acknowledged on the way asks for the volume it has. -/
theorem arrive_volume {held : List ExecReport} {x z : Order} {report : ExecReport}
    (hx : x.filledVolume ≤ x.requestedVolume) (href : report.ref = x.ref)
    (hacks : ∀ a ∈ (arriveTrace held x report).applied, a.kind = .replaceAck →
      a.volume = x.requestedVolume)
    (hz : (arrive held x report).after = some z) :
    z.requestedVolume = x.requestedVolume ∧ z.filledVolume ≤ z.requestedVolume := by
  refine arrive_invariant (P := fun o => o.requestedVolume = x.requestedVolume ∧
    o.filledVolume ≤ o.requestedVolume) ⟨rfl, hx⟩ href ?_ hz
  rintro a _ y y' ⟨hrequested, hle⟩ _ happlied hy'
  rcases Verdict.applyOne_volumes hy' with
    ⟨hsame, hvolume⟩ | ⟨_, hin, hadded, hvolume⟩ | ⟨hok, hkind, hmore, hsame, hvolume⟩
  · exact ⟨by omega, by omega⟩
  · unfold Oms.fillable Order.remaining at hin
    exact ⟨by omega, by omega⟩
  · have hack := hacks a (happlied ((Verdict.applyOne_ok y a).trans hok)) hkind
    exact ⟨by omega, by omega⟩

/-- The report comes next for the live order `x`, and the state machine takes it. -/
structure Takes (r : RiskGatedRouter) (venue : UInt64) (full : Bool) (report : ExecReport) (x : Order) :
    Prop where
  room : full = false
  order : r.order venue report.ref = some x
  next : report.venueSeq = x.lastAppliedSeq + 1
  ok : (Verdict.applyOne x report).ok = true

/-- The report, with the reports it releases, ends its order. -/
def Ends (r : RiskGatedRouter) (venue : UInt64) (report : ExecReport) (x : Order) : Prop :=
  (arrive (r.held venue report.ref) x report).after = none

/-- The replaces applied to the order, the report's or a released one's, ask for the volume it
has. -/
def KeepsVolume (r : RiskGatedRouter) (venue : UInt64) (report : ExecReport) (x : Order) : Prop :=
  ∀ a ∈ (arriveTrace (r.held venue report.ref) x report).applied, a.kind = .replaceAck →
    a.volume = x.requestedVolume

/-- With nothing held back, only the report itself could resize its order. -/
theorem keepsVolume_of_alone {report : ExecReport} (hheld : r.held venue report.ref = [])
    (hkind : report.kind ≠ .replaceAck) (x : Order) : r.KeepsVolume venue report x := by
  intro a ha hack
  have hmem := arriveTrace_mem ha
  rw [hheld, List.mem_singleton] at hmem
  subst hmem
  exact absurd hack hkind

/-- If the order is taken to be gone, no other probe run crosses its slot. -/
def FreesSafely (r : RiskGatedRouter) (report : ExecReport) (out : Completion) : Prop :=
  terminalOrGone report.ref out = true → r.ledger.Uncrossed report.ref

/-- The order the completion of an applied report shows. -/
def shownOrder (r : RiskGatedRouter) (venue : UInt64) (report : ExecReport) (out : Completion) (x : Order) :
    Order :=
  shown out (arrive (r.held venue report.ref) x report).after

/-- With the volumes in the invariant, an order of unchanged volume shows fills within it. -/
theorem Covered.shown_fits (h : Covered exact tight r) (he : exact) {full : Bool} {report : ExecReport}
    {out : Completion} {x : Order} (htakes : r.Takes venue full report x)
    (hkeeps : r.KeepsVolume venue report x)
    (hout : r.Ends venue report x → out.order.filledVolume ≤ x.requestedVolume) :
    r.Fits report.ref (r.shownOrder venue report out x) := by
  obtain ⟨res, hres, hcovers⟩ := h.orders venue report.ref x htakes.order
  unfold shownOrder
  cases hafter : (arrive (r.held venue report.ref) x report).after with
  | some z =>
    obtain ⟨hrequested, hle⟩ := arrive_volume (hcovers.filled_le he) (order_ref htakes.order).symm hkeeps
      hafter
    exact h.fits htakes.order he hrequested hle
  | none =>
    intro res' hres'
    obtain rfl := Option.some.inj (hres.symm.trans hres')
    rw [hcovers.requested he]
    exact hout hafter

theorem Covered.report (h : Covered exact tight r) (venue : UInt64) (full : Bool) (report : ExecReport)
    (out : Completion)
    (hfits : ∀ x, r.Takes venue full report x → r.Fits report.ref (r.shownOrder venue report out x))
    (hkeeps : exact → ∀ x, r.Takes venue full report x → r.KeepsVolume venue report x)
    (hfrees : ∀ x, r.Takes venue full report x → r.Ends venue report x → r.FreesSafely report out)
    (hnotices : tight → ∀ x, r.Takes venue full report x → r.Ends venue report x →
      terminalOrGone report.ref out = true) :
    Covered exact tight (r.submitReport venue full report out).2.2 := by
  have hcases := r.submitReport_cases venue full out report
  dsimp only at hcases
  generalize r.submitReport venue full report out = s at hcases ⊢
  rcases hcases with ⟨horder, hledger, _⟩ | ⟨x, hroom, hx, hseq, horder, hledger⟩
  · exact h.same horder hledger
  · obtain ⟨res, hres, hcovers⟩ := h.orders venue report.ref x hx
    have href : report.ref = x.ref := (order_ref hx).symm
    have htakes : (Verdict.applyOne x report).ok = true → r.Takes venue full report x :=
      fun hok => ⟨hroom, hx, hseq, hok⟩
    have hfits' := fun hok => hfits x (htakes hok)
    unfold shownOrder at hfits'
    cases hafter : (arrive (r.held venue report.ref) x report).after with
    | some z =>
      obtain ⟨hlive, hzref, hsymbol, hfilled⟩ := arrive_live hcovers.live href hafter
      have hvolume : exact → r.KeepsVolume venue report x := by
        intro he
        cases hok : (Verdict.applyOne x report).ok with
        | true => exact hkeeps he x (htakes hok)
        | false =>
          unfold KeepsVolume
          rw [arriveTrace_refused _ hok]
          exact nofun
      have hexact := fun he => arrive_volume (hcovers.filled_le he) href (hvolume he) hafter
      rw [hafter] at horder hledger hfits'
      cases hok : (Verdict.applyOne x report).ok with
      | true =>
        have href' : z.ref = report.ref := hzref.trans href.symm
        have hgone : terminalOrGone report.ref { order := z } = false := by
          simp [terminalOrGone, hlive, href']
        simp only [hok, if_true, shown, Option.getD_some, hgone] at hledger
        exact h.observe hx hlive hsymbol hfilled (hfits' hok) hexact hledger horder
      | false =>
        simp only [hok, Bool.false_eq_true, if_false] at hledger
        have hmoved : RiskLedger.Moved r.ledger s.2.2.ledger report.ref (some res) := by
          rw [hledger]
          exact .same h.consistent hres
        have hknown := hcovers.filled
        refine h.move hmoved ?_ horder (h.alone hx) ?_ ?_ ?_
        · rw [hledger]
          exact h.within
        · rintro he res' ⟨⟩
          exact h.nonneg he report.ref res hres
        · rintro z' ⟨⟩
          exact ⟨res, rfl, hlive, hcovers.venue, hcovers.symbol.trans hsymbol.symm, by omega,
            fun he => (hcovers.requested he).trans (hexact he).1.symm, fun he => (hexact he).2⟩
        · rintro _ res' ⟨⟩
          exact ⟨hcovers.venue, Option.some_ne_none _⟩
    | none =>
      have hok := arrive_ends_ok hafter
      have hgone : terminalOrGone report.ref { order := out.order } = terminalOrGone report.ref out := rfl
      rw [hafter] at horder hledger hfits'
      simp only [hok, if_true, shown, Option.getD_none, hgone] at hledger
      cases hflag : terminalOrGone report.ref out with
      | true =>
        rw [hflag] at hledger
        have hmoved := h.consistent.reconcile_gone (hfrees x (htakes hok) hafter hflag) (hfits' hok)
        rw [shown, Option.getD_none, ← hledger] at hmoved
        exact h.move hmoved (fun he => hmoved.withinLimits_none h.consistent (h.within he)) horder
          (h.alone hx) (by rintro _ _ ⟨⟩) (by rintro _ ⟨⟩) (by rintro _ _ ⟨⟩)
      | false =>
        -- The reservation stays behind.
        rw [hflag] at hledger
        have hmoved := h.consistent.reconcile_max hres (hfits' hok res hres)
        rw [shown, Option.getD_none, ← hledger] at hmoved
        refine h.move hmoved ?_ horder (h.alone hx) ?_ (by rintro _ ⟨⟩) ?_
        · intro he
          refine hmoved.withinLimits_le h.consistent (h.within he) hres rfl ?_
          dsimp only
          omega
        · rintro he res' ⟨⟩
          have hnonneg := h.nonneg he report.ref res hres
          dsimp only
          omega
        · intro ht
          rw [hnotices ht x (htakes hok) hafter] at hflag
          cases hflag

/-! ## Drains -/

/-- A parked request that neither creates nor resizes an order when it is executed. -/
def Idle (oms : ShardedOms) (req : PendingRequest) : Prop :=
  match req.kind with
  | .order => oms.engine.standingApproval = false ∨ oms.order req.ref ≠ none
  | .cancel => True
  | .replace => ∀ x, oms.order req.ref = some x → req.volume = x.requestedVolume

/-- `o` has the orders of `start`, in states of their own. -/
structure Unmoved (start o : ShardedOms) : Prop where
  same : ∀ k z, o.order k = some z → ∃ x, start.order k = some x ∧ Same x z
  live : ∀ k, start.order k ≠ none → o.order k ≠ none
  engine : o.engine = start.engine

theorem Unmoved.update {start o : ShardedOms} (h : Unmoved start o) {m : BrokerOrderRef → Option Order}
    {k : BrokerOrderRef} {y z : Order} (hm : m = Function.update o.order k (some z))
    (hy : o.order k = some y) (hz : ∀ x, start.order k = some x → Same x y → Same x z) :
    ∀ j w, m j = some w → ∃ x, start.order j = some x ∧ Same x w := by
  intro j w hw
  rw [hm] at hw
  by_cases hj : j = k
  · subst hj
    rw [Function.update_self] at hw
    obtain rfl := Option.some.inj hw
    obtain ⟨x, hx, hsame⟩ := h.same j y hy
    exact ⟨x, hx, hz x hx hsame⟩
  · rw [Function.update_of_ne hj] at hw
    exact h.same j w hw

theorem execute_same {start : ShardedOms} {c : VenueConnection} (h : Unmoved start c.oms) (full : Bool)
    {req : PendingRequest} (hreq : Idle start req) :
    ∀ k z, (c.execute full req).oms.order k = some z → ∃ x, start.order k = some x ∧ Same x z := by
  unfold Idle at hreq
  unfold VenueConnection.execute
  cases hkind : req.kind with
  | order =>
    simp only [hkind] at hreq ⊢
    rcases c.oms.submitCreate_cases full req.ref {} req.symbol req.volume with
      ⟨_, _, happroved, hnone, _⟩ | ⟨_, _, horder⟩
    · rcases hreq with hrefused | hlive
      · rw [h.engine, hrefused] at happroved
        cases happroved
      · exact absurd hnone (h.live req.ref hlive)
    · rw [horder]
      exact h.same
  | cancel =>
    dsimp only
    have htarget : OrderState.isTerminal .cancelPending = false := rfl
    rcases c.oms.submitTransition_cases full req.ref {} htarget with
      ⟨_, y, hy, _, horder, _⟩ | ⟨_, horder⟩
    · refine h.update horder hy ?_
      intro x _ hsame
      exact ⟨hsame.requested, hsame.filled, hsame.symbol, fun _ => rfl⟩
    · rw [horder]
      exact h.same
  | replace =>
    simp only [hkind] at hreq ⊢
    rcases c.oms.submitReplace_cases full req.ref {} req.price req.volume with
      ⟨_, y, hy, _, horder, _⟩ | ⟨_, _, horder⟩
    · refine h.update horder hy ?_
      intro x hx hsame
      exact ⟨hreq x hx, hsame.filled, hsame.symbol, hsame.live⟩
    · rw [horder]
      exact h.same

theorem Covered.drain (h : Covered exact tight r) (venue : UInt64) (full : Nat → Bool) (nowNs maxN : Nat)
    (hsafe : ∀ c, r.find venue = some c → ∀ req ∈ c.limiter.drains nowNs maxN, Idle c.oms req) :
    Covered exact tight (r.drainPending venue full nowNs maxN) := by
  unfold drainPending
  split
  · exact h
  · rename_i c hfind
    have hstart : Unmoved c.oms c.oms := ⟨fun k z hz => ⟨z, hz, .refl z⟩, fun _ hk => hk, rfl⟩
    have hend : Unmoved c.oms (VenueConnection.drainPending nowNs full maxN c).2.oms := by
      refine VenueConnection.drainPending_invariant (P := Unmoved c.oms) (Q := Idle c.oms) ?_ hstart
        (hsafe c hfind)
      intro c' full' req hc' hreq
      exact ⟨execute_same hc' full' hreq,
        fun k hk => VenueConnection.execute_live c' full' req (hc'.live k hk),
        (VenueConnection.execute_engine c' full' req).trans hc'.engine⟩
    have hid := VenueConnection.drainPending_id nowNs full maxN c
    generalize (VenueConnection.drainPending nowNs full maxN c).2 = c' at hend hid ⊢
    refine h.stable rfl ?_ ?_
    · intro v k z hz
      rw [order_setVenue hfind hid] at hz
      by_cases hv : v = venue
      · subst hv
        rw [Function.update_self] at hz
        rw [order_of_find hfind]
        exact hend.same k z hz
      · rw [Function.update_of_ne hv] at hz
        exact ⟨z, hz, .refl z⟩
    · intro _ v k hk
      rw [order_setVenue hfind hid]
      by_cases hv : v = venue
      · subst hv
        rw [Function.update_self]
        rw [order_of_find hfind] at hk
        exact hend.live k hk
      · rw [Function.update_of_ne hv]
        exact hk

/-! ## Replaces -/

/-- What a replace leaves reserved that the ledger takes and the venue does not. -/
def leftReserved (r : RiskGatedRouter) (venue : UInt64) (findFull : Bool) (ref : BrokerOrderRef)
    (newVolume : Int) : Int :=
  newVolume - max (newVolume - r.oldRequested venue ref findFull newVolume) 0

/-- The ledger takes the replace and the venue then does not admit it. -/
def HalfDone (r : RiskGatedRouter) (venue : UInt64) (full : Bool) (ref : BrokerOrderRef)
    (newPrice newVolume : Int) (nowNs : Nat) : Prop :=
  r.globallyHalted = false ∧ (r.ledger.adjustReplace ref newVolume).2 = true ∧
    ∃ conn, r.find venue = some conn ∧ (conn.RefusesReplace full ref nowNs newPrice newVolume ∨
      conn.DefersReplace ref nowNs newPrice newVolume)

theorem Covered.replace (h : Covered exact tight r) (venue : UInt64) (findFull full : Bool)
    (ref : BrokerOrderRef) (newPrice newVolume : Int) (nowNs : Nat) (out : Completion)
    (hroom : r.HalfDone venue full ref newPrice newVolume nowNs → ∀ res, r.ledger.held ref = some res →
      res.lastKnownFilled ≤ r.leftReserved venue findFull ref newVolume ∧
        (exact → r.leftReserved venue findFull ref newVolume = res.requestedVolume)) :
    Covered exact tight (r.submitReplace venue findFull full ref newPrice newVolume nowNs out).2.2 := by
  have hcases := r.submitReplace_cases venue full ref nowNs out findFull newPrice newVolume
  dsimp only at hcases
  generalize r.submitReplace venue findFull full ref newPrice newVolume nowNs out = s at hcases ⊢
  rcases hcases with ⟨_, horder, hledger, _⟩ | ⟨conn, p, hon, hfind, htaken, hp, hwithin, hrejected, hdeferred, hrest⟩
  · exact h.same horder hledger
  · have hres := RiskLedger.held_of_find hp
    rcases hrest with ⟨_, hledger, x, hx, hguard, horder⟩ | ⟨hnot, hledger, horder⟩
    · obtain ⟨res, hres', hcovers⟩ := h.orders venue ref x hx
      obtain rfl := Option.some.inj (hres.symm.trans hres')
      simp only [replaceable, Bool.and_eq_true, decide_eq_true_eq] at hguard
      have hmore := hguard.2
      have hknown := hcovers.filled
      have hle : (r.ledger.reservations p).lastKnownFilled ≤ newVolume := by omega
      have hmoved := h.consistent.resize hp newVolume hle
      rw [← hledger] at hmoved
      refine h.move hmoved ?_ horder (h.alone hx) ?_ ?_ ?_
      · intro he
        rw [hledger]
        exact h.consistent.resize_within (h.within he) hp newVolume hle hwithin
      · rintro he res ⟨⟩
        have hnonneg := h.nonneg he ref _ hres
        exact hnonneg
      · rintro z ⟨⟩
        exact ⟨_, rfl, hcovers.live, hcovers.venue, hcovers.symbol, hknown, fun _ => rfl,
          fun _ => Int.le_of_lt hmore⟩
      · rintro _ res ⟨⟩
        exact ⟨hcovers.venue, Option.some_ne_none _⟩
    · have hheld : s.1 = .rejected ∨ s.1 = .deferred := by
        cases hd : s.1 with
        | admitted => exact absurd hd hnot
        | deferred => exact .inr rfl
        | rejected => exact .inl rfl
      obtain ⟨hle, hsame⟩ := hroom
        ⟨hon, htaken, conn, hfind, hheld.imp hrejected.mp hdeferred.mp⟩ _ hres
      unfold leftReserved at hle hsame
      have hmoved := h.consistent.resize hp _ hle
      rw [← hledger] at hmoved
      exact h.resized hres hmoved horder fun he => hsame he

end Covered

/-- A router before its first call. -/
structure Fresh (r : RiskGatedRouter) : Prop where
  ledger : r.ledger.Fresh
  orders : ∀ venue ref, r.order venue ref = none

theorem Fresh.covered {r : RiskGatedRouter} (h : r.Fresh) (exact tight : Prop) :
    Covered exact tight r where
  consistent := h.ledger.consistent
  within := by
    intro _ ref res hres
    rw [h.ledger.held] at hres
    cases hres
  nonneg := by
    intro _ ref res hres
    rw [h.ledger.held] at hres
    cases hres
  orders := by
    intro venue ref x hx
    rw [h.orders] at hx
    cases hx
  backed := by
    intro _ ref res hres
    rw [h.ledger.held] at hres
    cases hres

theorem Fresh.of_new {c : VenueConnection} {l : RiskLedger} (hledger : l.Fresh) {shardCount : Nat}
    {h : 0 < shardCount} {capacity logCapacity gapPoolCapacity terminalCacheCapacity : Nat}
    (hc : c.oms = .new shardCount h capacity logCapacity gapPoolCapacity terminalCacheCapacity) :
    Fresh { registry := [c], ledger := l } := by
  refine ⟨hledger, ?_⟩
  intro venue ref
  unfold order find VenueRegistry.find
  cases hfind : [c].find? fun v => v.id == venue with
  | none => rfl
  | some c' =>
    obtain rfl := List.mem_singleton.mp (List.mem_of_find?_eq_some hfind)
    rw [Option.bind_some, hc]
    exact congrFun (Oms.find_new capacity) ref

end RiskGatedRouter

end MicrostructureEngine
