import Mathlib.Algebra.BigOperators.Group.Finset.Sigma
import Mathlib.Algebra.Order.BigOperators.Group.Finset
import MicrostructureEngine.Lib.Runs
import MicrostructureEngine.Oms.Coverage

/-!
# Open orders within the limits

With the volumes in the invariant, the unfilled volume of the live orders is at most the
exposure the ledger counts, in every dimension. The condition on a run is `Safe`: what breaks
it is a parked create or replace that is drained, an acknowledged replace that the ledger is
not told of, a replace that is undone by the wrong amount and a freed slot in the middle of
another probe run.
-/

namespace MicrostructureEngine

set_option autoImplicit false

namespace RiskGatedRouter

/-- What takes the ledger and the orders out of step does not happen: an applied replace_ack that
resizes its order, a report that frees a slot in use, a replace undone by another amount than was
reserved, and a drain that creates or resizes an order. -/
def Safe (r : RiskGatedRouter) : Event → Prop
  | .replace venue findFull full ref newPrice newVolume nowNs _ =>
    r.HalfDone venue full ref newPrice newVolume nowNs → ∀ res, r.ledger.held ref = some res →
      r.leftReserved venue findFull ref newVolume = res.requestedVolume
  | .report venue full report out => ∀ x, r.Takes venue full report x →
    r.KeepsVolume venue report x ∧ (r.Ends venue report x → r.FreesSafely report out)
  | .drain venue _ nowNs maxN => ∀ c, r.find venue = some c →
    ∀ req ∈ c.limiter.drains nowNs maxN, Idle c.oms req
  | .create .. | .cancel .. | .send .. => True

def Event.Clean : Event → Prop
  | .create _ _ _ _ _ _ _ _ out | .cancel _ _ _ _ out | .replace _ _ _ _ _ _ _ out |
    .report _ _ _ out => out = {}
  | .drain .. | .send .. => True

theorem Covered.safe_step {r : RiskGatedRouter} (h : Covered True False r) (e : Event) (hsafe : r.Safe e)
    (hclean : e.Clean) : Covered True False (r.step e) := by
  cases e with
  | create strategy venue full ref symbol side volume nowNs out => exact h.create ..
  | cancel venue full ref nowNs out =>
    refine h.cancel venue full ref nowNs out ?_
    intro x hx
    obtain ⟨_, _, hcovers⟩ := h.orders venue ref x hx
    exact h.fits hx trivial rfl (hcovers.filled_le trivial)
  | replace venue findFull full ref newPrice newVolume nowNs out =>
    refine h.replace venue findFull full ref newPrice newVolume nowNs out ?_
    intro hhalf res hres
    have hsame := hsafe hhalf res hres
    refine ⟨?_, fun _ => hsame⟩
    rw [hsame]
    exact (h.consistent.isOpen hres).filled_le
  | report venue full report out =>
    obtain rfl : out = {} := hclean
    refine h.report venue full report {} ?_ (fun _ x hx => (hsafe x hx).1) (fun x hx => (hsafe x hx).2)
      False.elim
    intro x hx
    obtain ⟨res, hres, hcovers⟩ := h.orders venue report.ref x hx.order
    refine h.shown_fits trivial hx (hsafe x hx).1 fun _ => ?_
    calc (0 : Int) ≤ res.lastKnownFilled := h.nonneg trivial report.ref res hres
      _ ≤ x.filledVolume := hcovers.filled
      _ ≤ x.requestedVolume := hcovers.filled_le trivial
  | drain venue full nowNs maxN => exact h.drain venue full nowNs maxN hsafe
  | send venue full ref => exact h.send venue full ref

/-! ## The limits -/

open Classical in
/-- The unfilled volume of the live orders that `P` picks. -/
noncomputable def unfilled (r : RiskGatedRouter) (P : UInt64 → BrokerOrderRef → Order → Prop) : Int :=
  ∑ venue, ∑ ref, (r.order venue ref).elim 0 fun x => if P venue ref x then x.remaining else 0

/-- The live orders that `P` picks, if there are any, are within `limit`. -/
def Bounded (r : RiskGatedRouter) (P : UInt64 → BrokerOrderRef → Order → Prop) (limit : Int) : Prop :=
  (∃ venue ref x, r.order venue ref = some x ∧ P venue ref x) → r.unfilled P ≤ limit

section Limits
variable {r : RiskGatedRouter} {P : UInt64 → BrokerOrderRef → Order → Prop} {d : Dimension}

open Classical in
theorem Covered.unfilled_le_share (h : Covered True False r) (ref : BrokerOrderRef)
    (hd : ∀ venue x res, r.order venue ref = some x → P venue ref x → r.ledger.held ref = some res →
      Covers True res venue x → d ∈ r.ledger.dimsFor res) :
    (∑ venue, (r.order venue ref).elim 0 fun x => if P venue ref x then x.remaining else 0) ≤
      r.ledger.share d (r.ledger.held ref) := by
  have hnonneg := h.consistent.share_nonneg d ref
  by_cases hlive : ∃ venue x, r.order venue ref = some x
  · obtain ⟨venue, x, hx⟩ := hlive
    obtain ⟨res, hres, hcovers⟩ := h.orders venue ref x hx
    have hothers : ∀ v ∈ Finset.univ, v ≠ venue →
        ((r.order v ref).elim 0 fun x => if P v ref x then x.remaining else 0) = 0 := by
      intro v _ hv
      rw [h.alone hx v hv]
      rfl
    rw [Finset.sum_eq_single venue hothers (fun hv => absurd (Finset.mem_univ venue) hv), hx,
      Option.elim_some]
    split
    · rename_i hp
      rw [hres, RiskLedger.share_some, if_pos (hd venue x res hx hp hres hcovers), hcovers.requested trivial]
      have hknown := hcovers.filled
      unfold Order.remaining
      omega
    · exact hnonneg
  · have hnone : ∀ venue ∈ Finset.univ,
        ((r.order venue ref).elim 0 fun x => if P venue ref x then x.remaining else 0) = 0 := by
      intro venue _
      cases hx : r.order venue ref with
      | none => rfl
      | some x => exact absurd ⟨venue, x, hx⟩ hlive
    rw [Finset.sum_eq_zero hnone]
    exact hnonneg

theorem Covered.bounded (h : Covered True False r) {limit : Int}
    (hlimit : (r.ledger.config.limits d).openOrderLimit = limit)
    (hd : ∀ venue ref x res, r.order venue ref = some x → P venue ref x → r.ledger.held ref = some res →
      Covers True res venue x → d ∈ r.ledger.dimsFor res) : r.Bounded P limit := by
  rintro ⟨venue, ref, x, hx, hp⟩
  obtain ⟨res, hres, hcovers⟩ := h.orders venue ref x hx
  calc r.unfilled P
      ≤ ∑ k, r.ledger.share d (r.ledger.held k) := by
        unfold unfilled
        rw [Finset.sum_comm]
        exact Finset.sum_le_sum fun k _ => h.unfilled_le_share k fun v y => hd v k y
    _ = (r.ledger.dims d).openExposure := (h.consistent.exposure d).symm
    _ ≤ (r.ledger.config.limits d).openOrderLimit :=
        h.within trivial ref res hres d (hd venue ref x res hx hp hres hcovers)
    _ = limit := hlimit

end Limits

/-- Every live order has a reservation of its own, and no limit on open orders is exceeded. -/
structure Reserved (r : RiskGatedRouter) : Prop where
  held : ∀ venue ref x, r.order venue ref = some x → ∃ res, r.ledger.held ref = some res ∧
    res.active = true ∧ res.venue = venue ∧ res.symbol = x.symbolId ∧
      res.requestedVolume = x.requestedVolume
  global : r.Bounded (fun _ _ _ => True) r.ledger.config.global.openOrderLimit
  venue : ∀ venue, r.Bounded (fun v _ _ => v = venue) r.ledger.config.perVenue.openOrderLimit
  symbol : ∀ symbol, r.Bounded (fun _ _ x => x.symbolId = symbol) r.ledger.config.perSymbol.openOrderLimit
  strategy : ∀ strategy, strategy ≠ unattributedStrategy →
    r.Bounded (fun _ ref _ => (r.ledger.held ref).map Reservation.strategy = some strategy)
      r.ledger.config.perStrategy.openOrderLimit

theorem Covered.known {r : RiskGatedRouter} (h : Covered True False r) {ref : BrokerOrderRef} {res : Reservation}
    (hres : r.ledger.held ref = some res) : r.ledger.Known res :=
  (RiskLedger.Audited.Sound.good h.consistent ref res hres).2

theorem Covered.reserved {r : RiskGatedRouter} (h : Covered True False r) : r.Reserved where
  held := by
    intro venue ref x hx
    obtain ⟨res, hres, hcovers⟩ := h.orders venue ref x hx
    exact ⟨res, hres, (h.consistent.isOpen hres).active, hcovers.venue, hcovers.symbol,
      hcovers.requested trivial⟩
  global := h.bounded (d := .global) rfl fun _ _ _ _ _ _ _ _ => RiskLedger.global_mem_dimsFor
  venue := by
    intro venue hsome
    obtain ⟨v, ref, x, hx, hv⟩ := hsome
    obtain ⟨res, hres, hcovers⟩ := h.orders v ref x hx
    obtain ⟨slot, hslot⟩ := (h.known hres).venue
    refine h.bounded (d := .venue slot) rfl ?_ ⟨v, ref, x, hx, hv⟩
    intro v' ref' x' res' _ hv' _ hcovers'
    have hsame : res'.venue = res.venue := by
      rw [hcovers'.venue, hcovers.venue, hv, hv']
    rw [RiskLedger.venue_mem_dimsFor, hsame]
    exact hslot
  symbol := by
    intro symbol
    refine h.bounded (d := .symbol symbol) rfl ?_
    intro v ref x res _ hsymbol hres hcovers
    exact RiskLedger.symbol_mem_dimsFor.mpr ⟨hcovers.symbol.trans hsymbol, (h.known hres).symbol⟩
  strategy := by
    intro strategy hattributed hsome
    obtain ⟨v, ref, x, hx, hs⟩ := hsome
    obtain ⟨res, hres, hstrategy⟩ := Option.map_eq_some_iff.mp hs
    rcases (h.known hres).strategy with hnone | ⟨slot, hslot⟩
    · exact absurd (hstrategy.symm.trans hnone) hattributed
    · refine h.bounded (d := .strategy slot) rfl ?_ ⟨v, ref, x, hx, hs⟩
      intro v' ref' x' res' _ hs' hres' _
      rw [hres', Option.map_some] at hs'
      have hsame := Option.some.inj hs'
      rw [RiskLedger.strategy_mem_dimsFor, hsame]
      rw [hstrategy] at hslot
      exact ⟨hattributed, hslot⟩

/-- In a run with fresh completions whose drains only cancel, whose applied replace_acks ask for
the volume the order has and whose freed slots no other probe run crosses, every live order is
behind a reservation and the orders stay within every limit. -/
theorem live_orders_reserved (r : RiskGatedRouter) (events : List Event) (hfresh : r.Fresh)
    (hclean : ∀ e ∈ events, e.Clean) (hsafe : Runs.Along step Safe r events) :
    Runs.Throughout step Reserved r events := by
  have hclean' : Runs.Along step (fun _ e => e.Clean) r events :=
    Runs.along_of_forall fun e he _ => hclean e he
  have hcovered : Runs.Throughout step (Covered True False) r events :=
    Runs.throughout_of_along (fun s e hs he => hs.safe_step e he.1 he.2) (hfresh.covered True False)
      (hsafe.and hclean')
  exact fun before hbefore => (hcovered before hbefore).reserved

def parking : RiskGatedRouter where
  registry := [({ id := 1, oms := .new 1 Nat.one_pos 4 4 4 4 } : VenueConnection).configureRateLimit
    { ordersPerSec := 1, burstCapacity := 1, cancelsPerSec := 1, cancelBurstCapacity := 1,
      policy := .defer, pendingQueueCapacity := 4 } 0]
  ledger := (((RiskLedger.new 1 1 8 {}).registerVenue 1).1.registerStrategy 5).1

theorem fresh_parking : parking.Fresh :=
  .of_new (.registerStrategy 5 (.registerVenue 1 (.new 1 1 8 _))) rfl

theorem safe_report {r : RiskGatedRouter} {venue : UInt64} {report : ExecReport}
    (hheld : r.held venue report.ref = []) (hkind : report.kind ≠ .replaceAck)
    (hfree : r.ledger.Uncrossed report.ref) (full : Bool) (out : Completion) :
    r.Safe (.report venue full report out) := by
  intro x _
  exact ⟨keepsVolume_of_alone hheld hkind x, fun _ _ => hfree⟩

/-- An order with a fill is cancelled twice; the second cancel is parked and drained a second
later, and the venue confirms. -/
def cancelParked : List Event :=
  [.create 5 1 false ⟨1, 1⟩ 0 .buy 10 0 {}, .send 1 false ⟨1, 1⟩,
    .report 1 false { ref := ⟨1, 1⟩, kind := .ack, venueSeq := 1 } {},
    .report 1 false { ref := ⟨1, 1⟩, kind := .fill, venueSeq := 2, volume := 4 } {},
    .cancel 1 false ⟨1, 1⟩ 0 {}, .cancel 1 false ⟨1, 1⟩ 0 {},
    .drain 1 (fun _ => false) 1000000000 4,
    .report 1 false { ref := ⟨1, 1⟩, kind := .cancelled, venueSeq := 3 } {}]

theorem live_orders_reserved_cancelled :
    parking.Fresh ∧ (∀ e ∈ cancelParked, e.Clean) ∧ Runs.Along step Safe parking cancelParked ∧
      Runs.Throughout step Reserved parking cancelParked := by
  have hclean : ∀ e ∈ cancelParked, e.Clean := by
    intro e he
    simp only [cancelParked, List.mem_cons, List.not_mem_nil, or_false] at he
    rcases he with rfl | rfl | rfl | rfl | rfl | rfl | rfl | rfl <;> trivial
  have hdrains : ((Runs.run step parking (cancelParked.take 6)).find 1).map (fun c =>
      c.limiter.drains 1000000000 4) = some [{ kind := .cancel, ref := ⟨1, 1⟩ }] := by decide +kernel
  have hdrain : Safe (Runs.run step parking (cancelParked.take 6))
      (.drain 1 (fun _ => false) 1000000000 4) := by
    intro c hc req hreq
    rw [hc, Option.map_some] at hdrains
    have hdrains' := Option.some.inj hdrains
    rw [hdrains', List.mem_singleton] at hreq
    subst hreq
    trivial
  have hsafe : Runs.Along step Safe parking cancelParked := by
    refine ⟨trivial, trivial, ?_, ?_, trivial, trivial, hdrain, ?_, trivial⟩
    · exact safe_report (by decide +kernel) (by decide) (by decide +kernel) false {}
    · exact safe_report (by decide +kernel) (by decide) (by decide +kernel) false {}
    · exact safe_report (by decide +kernel) (by decide) (by decide +kernel) false {}
  exact ⟨fresh_parking, hclean, hsafe,
    live_orders_reserved parking cancelParked fresh_parking hclean hsafe⟩

/-- The second create is parked and its reservation released; the drain creates the order. -/
def createParked : List Event :=
  [.create 5 1 false ⟨1, 1⟩ 0 .buy 10 0 {}, .create 5 1 false ⟨1, 2⟩ 0 .buy 5 0 {},
    .drain 1 (fun _ => false) 1000000000 1]

theorem parked_create_unreserved :
    parking.Fresh ∧ (∀ e ∈ createParked, e.Clean) ∧ ¬ Runs.Throughout step Reserved parking createParked := by
  refine ⟨fresh_parking, ?_, ?_⟩
  · intro e he
    simp only [createParked, List.mem_cons, List.not_mem_nil, or_false] at he
    rcases he with rfl | rfl | rfl <;> trivial
  · intro h
    have hlive : ((Runs.run step parking createParked).order 1 ⟨1, 2⟩).isSome = true := by decide +kernel
    have hnone : (Runs.run step parking createParked).ledger.held ⟨1, 2⟩ = none := by decide +kernel
    obtain ⟨x, hx⟩ := Option.isSome_iff_exists.mp hlive
    obtain ⟨res, hres, _⟩ := h.last.held 1 ⟨1, 2⟩ x hx
    exact nomatch hnone.symm.trans hres

end RiskGatedRouter

end MicrostructureEngine
