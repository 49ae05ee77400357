import Mathlib.Algebra.Order.BigOperators.Group.Finset
import MicrostructureEngine.Lib.Runs
import MicrostructureEngine.Oms.Coverage

/-!
# Replaces and the ledger

`submit_replace` adjusts the ledger before it asks the venue. An admitted replace leaves both
at the new volume. A rejected one leaves the reservation at `leftReserved`, the lower of the
new volume and the volume the lookup before the call has shown: an increase is taken back, a
decrease is not. Over a run whose rejected replaces are taken back the exposures stay sums of
what is reserved for live orders.
-/

namespace MicrostructureEngine

set_option autoImplicit false

namespace RiskLedger

/-- The exposures and the volume reserved for `ref` are what they were. -/
structure Untouched (l l' : RiskLedger) (ref : BrokerOrderRef) : Prop where
  exposure : ∀ d, (l'.dims d).openExposure = (l.dims d).openExposure
  requested : (l'.held ref).map Reservation.requestedVolume =
    (l.held ref).map Reservation.requestedVolume

variable {l : RiskLedger} {p : Nat} {ref : BrokerOrderRef}

theorem held_resize (hp : l.findReservation ref = some p) (volume : Int) :
    (l.resize p volume).held ref = some { l.reservations p with requestedVolume := volume } := by
  rw [held_of_find ((findReservation_resize volume ref).trans hp)]
  simp [resize]

theorem Untouched.refl (l : RiskLedger) (ref : BrokerOrderRef) : Untouched l l ref := ⟨fun _ => rfl, rfl⟩

/-- Only a resize to the volume there is goes unnoticed. -/
theorem untouched_resize_iff (hp : l.findReservation ref = some p) (volume : Int) :
    Untouched l (l.resize p volume) ref ↔ volume = (l.reservations p).requestedVolume := by
  constructor
  · intro h
    have hrequested := h.requested
    rw [held_resize hp volume, held_of_find hp] at hrequested
    exact Option.some.inj hrequested
  · rintro rfl
    rw [resize_same]
    exact .refl l ref

end RiskLedger

namespace RiskGatedRouter

section Call
variable (r : RiskGatedRouter) (venue : UInt64) (findFull full : Bool) (ref : BrokerOrderRef)
  (newPrice newVolume : Int) (nowNs : Nat) (out : Completion)

/-- A rejected replace leaves the ledger alone, an admitted one takes it and the order to the new
volume. -/
structure InStep : Prop where
  rejected : (r.submitReplace venue findFull full ref newPrice newVolume nowNs out).1 = .rejected →
    r.ledger.Untouched
      (r.submitReplace venue findFull full ref newPrice newVolume nowNs out).2.2.ledger ref
  admitted : (r.submitReplace venue findFull full ref newPrice newVolume nowNs out).1 = .admitted →
    ∃ x res,
      (r.submitReplace venue findFull full ref newPrice newVolume nowNs out).2.2.order venue ref = some x ∧
      (r.submitReplace venue findFull full ref newPrice newVolume nowNs out).2.2.ledger.held ref = some res ∧
      x.requestedVolume = newVolume ∧ res.requestedVolume = x.requestedVolume

/-- If the ledger takes the replace and the venue rejects it, what is undone is what was taken. -/
def UndoesExactly : Prop :=
  r.globallyHalted = false → (r.ledger.adjustReplace ref newVolume).2 = true →
    ∀ conn, r.find venue = some conn → conn.RefusesReplace full ref nowNs newPrice newVolume →
      ∀ res, r.ledger.held ref = some res →
        r.leftReserved venue findFull ref newVolume = res.requestedVolume

variable {r venue findFull full ref newPrice newVolume nowNs out}

theorem inStep_iff :
    r.InStep venue findFull full ref newPrice newVolume nowNs out ↔
      r.UndoesExactly venue findFull full ref newPrice newVolume nowNs := by
  have hcases := r.submitReplace_cases venue full ref nowNs out findFull newPrice newVolume
  dsimp only at hcases
  constructor
  · intro hstep hon htaken conn hfind hrefuses res hres
    rcases hcases with ⟨_, _, _, hhalted | hnone | hrefused⟩ |
      ⟨conn', p, _, hfind', _, hp, _, hrejected, _, hrest⟩
    · rw [hon] at hhalted
      cases hhalted
    · rw [hfind] at hnone
      cases hnone
    · rw [htaken] at hrefused
      cases hrefused
    · obtain rfl := Option.some.inj (hfind.symm.trans hfind')
      rw [RiskLedger.held_of_find hp] at hres
      obtain rfl := Option.some.inj hres
      have huntouched := hstep.rejected (hrejected.mpr hrefuses)
      rcases hrest with ⟨hadmitted, _⟩ | ⟨_, hledger, _⟩
      · rw [hrejected.mpr hrefuses] at hadmitted
        cases hadmitted
      · rw [hledger] at huntouched
        exact (RiskLedger.untouched_resize_iff hp _).mp huntouched
  · intro hundoes
    refine ⟨?_, ?_⟩
    · intro hrejected
      rcases hcases with ⟨_, _, hledger, _⟩ |
        ⟨conn, p, hon, hfind, htaken, hp, _, hrefuses, _, ⟨hadmitted, _⟩ | ⟨_, hledger, _⟩⟩
      · rw [hledger]
        exact .refl _ ref
      · rw [hrejected] at hadmitted
        cases hadmitted
      · have hleft := hundoes hon htaken conn hfind (hrefuses.mp hrejected) _ (RiskLedger.held_of_find hp)
        rw [hledger]
        exact (RiskLedger.untouched_resize_iff hp _).mpr hleft
    · intro hadmitted
      rcases hcases with ⟨hrejected, _⟩ |
        ⟨conn, p, _, _, _, hp, _, _, _, ⟨_, hledger, x, _, _, horder⟩ | ⟨hnot, _⟩⟩
      · rw [hadmitted] at hrejected
        cases hrejected
      · refine ⟨replaceOrder newPrice newVolume x,
          { r.ledger.reservations p with requestedVolume := newVolume }, ?_, ?_, rfl, rfl⟩
        · rw [horder, setOrder_apply, if_pos ⟨rfl, rfl⟩]
        · rw [hledger]
          exact RiskLedger.held_resize hp newVolume
      · exact absurd hadmitted hnot

end Call

/-! ## Whole runs -/

/-- No exposure is negative, and with no order live there is none. -/
structure Settled (r : RiskGatedRouter) : Prop where
  nonneg : ∀ d, 0 ≤ (r.ledger.dims d).openExposure
  empty : (∀ venue ref, r.order venue ref = none) → ∀ d, (r.ledger.dims d).openExposure = 0

theorem Covered.settled {exact : Prop} {r : RiskGatedRouter} (h : Covered exact True r) : r.Settled where
  nonneg := by
    intro d
    rw [h.consistent.exposure d]
    exact Finset.sum_nonneg fun ref _ => h.consistent.share_nonneg d ref
  empty := by
    intro hnone d
    have hunheld : r.ledger.held = fun _ => none := by
      funext ref
      cases hres : r.ledger.held ref with
      | none => rfl
      | some res => exact absurd (hnone res.venue ref) (h.backed trivial ref res hres)
    rw [h.consistent.exposure d, hunheld, MapSum.total_empty]

/-- What the ledger and the orders come through in step: a replace that the venue does not admit
is undone by what was taken, an applied replace_ack asks for the volume there is, a report that
ends its order is taken for one and shows no more fills than were ordered, and a drain creates
and resizes nothing. -/
def Steady (r : RiskGatedRouter) : Event → Prop
  | .replace venue findFull full ref newPrice newVolume nowNs _ =>
    r.HalfDone venue full ref newPrice newVolume nowNs → ∀ res, r.ledger.held ref = some res →
      r.leftReserved venue findFull ref newVolume = res.requestedVolume
  | .report venue full report out => ∀ x, r.Takes venue full report x →
    r.KeepsVolume venue report x ∧ (r.Ends venue report x →
      terminalOrGone report.ref out = true ∧ out.order.filledVolume ≤ x.requestedVolume ∧
        r.ledger.Uncrossed report.ref)
  | .drain venue _ nowNs maxN => ∀ c, r.find venue = some c →
    ∀ req ∈ c.limiter.drains nowNs maxN, Idle c.oms req
  | .create .. | .cancel .. | .send .. => True

theorem Covered.steady_step {r : RiskGatedRouter} (h : Covered True True r) (e : Event)
    (hsteady : r.Steady e) : Covered True True (r.step e) := by
  cases e with
  | create strategy venue full ref symbol side volume nowNs out => exact h.create ..
  | cancel venue full ref nowNs out =>
    refine h.cancel venue full ref nowNs out ?_
    intro x hx
    obtain ⟨_, _, hcovers⟩ := h.orders venue ref x hx
    exact h.fits hx trivial rfl (hcovers.filled_le trivial)
  | replace venue findFull full ref newPrice newVolume nowNs out =>
    refine h.replace venue findFull full ref newPrice newVolume nowNs out ?_
    intro hhalf res hres
    have hsame := hsteady hhalf res hres
    refine ⟨?_, fun _ => hsame⟩
    rw [hsame]
    exact (h.consistent.isOpen hres).filled_le
  | report venue full report out =>
    refine h.report venue full report out ?_ (fun _ x hx => (hsteady x hx).1) ?_ ?_
    · intro x hx
      exact h.shown_fits trivial hx (hsteady x hx).1 fun hends => ((hsteady x hx).2 hends).2.1
    · intro x hx hends _
      exact ((hsteady x hx).2 hends).2.2
    · intro _ x hx hends
      exact ((hsteady x hx).2 hends).1
  | drain venue full nowNs maxN => exact h.drain venue full nowNs maxN hsteady
  | send venue full ref => exact h.send venue full ref

/-- The replaces of a run leave the ledger and the orders in step. -/
def ReplacesInStep (r : RiskGatedRouter) : Event → Prop
  | .replace venue findFull full ref newPrice newVolume nowNs out =>
    r.InStep venue findFull full ref newPrice newVolume nowNs out
  | _ => True

theorem Steady.replacesInStep {r : RiskGatedRouter} {e : Event} (h : r.Steady e) : r.ReplacesInStep e := by
  cases e with
  | replace venue findFull full ref newPrice newVolume nowNs out =>
    refine inStep_iff.mpr ?_
    intro hon htaken conn hfind hrefuses
    exact h ⟨hon, htaken, conn, hfind, .inl hrefuses⟩
  | create | cancel | report | drain | send => trivial

/-- A replace keeps the ledger in step exactly if its refusal undoes what the ledger took, and in a
steady run the exposures come from live orders only. -/
theorem replace_keeps_ledger_in_step (r : RiskGatedRouter) :
    (∀ venue findFull full ref newPrice newVolume nowNs out,
      r.InStep venue findFull full ref newPrice newVolume nowNs out ↔
        r.UndoesExactly venue findFull full ref newPrice newVolume nowNs) ∧
    (r.Fresh → ∀ events, Runs.Along step Steady r events →
      Runs.Along step ReplacesInStep r events ∧ Runs.Throughout step Settled r events) := by
  refine ⟨fun _ _ _ _ _ _ _ _ => inStep_iff, ?_⟩
  intro hfresh events hsteady
  have hcovered : Runs.Throughout step (Covered True True) r events :=
    Runs.throughout_of_along (fun s e hs he => hs.steady_step e he) (hfresh.covered True True) hsteady
  exact ⟨hsteady.imp fun _ _ => Steady.replacesInStep, fun before hbefore => (hcovered before hbefore).settled⟩

/-- One venue, without limits on its rate. -/
def unthrottled : RiskGatedRouter where
  registry := [{ id := 1, oms := .new 1 Nat.one_pos 4 4 4 4 }]
  ledger := ((RiskLedger.new 0 1 2 {}).registerVenue 1).1

theorem fresh_unthrottled : unthrottled.Fresh := .of_new (.registerVenue 1 (.new 0 1 2 _)) rfl

/-- An order of ten: a raise to fourteen finds the ring full and is taken back, then the order is
lowered to eight, goes out and is rejected. -/
def resized : List Event :=
  [.create 0 1 false ⟨1, 1⟩ 0 .buy 10 0 {}, .replace 1 false true ⟨1, 1⟩ 0 14 0 {},
    .replace 1 false false ⟨1, 1⟩ 0 8 0 {}, .send 1 false ⟨1, 1⟩,
    .report 1 false { ref := ⟨1, 1⟩, kind := .reject, venueSeq := 1 } {}]

theorem steady_replace {r : RiskGatedRouter} {venue : UInt64} {findFull : Bool} {ref : BrokerOrderRef}
    {newVolume : Int} (h : ∀ res ∈ (r.ledger.held ref).toList,
      r.leftReserved venue findFull ref newVolume = res.requestedVolume)
    (full : Bool) (newPrice : Int) (nowNs : Nat) (out : Completion) :
    r.Steady (.replace venue findFull full ref newPrice newVolume nowNs out) := by
  intro _ res hres
  exact h res (Option.mem_toList.mpr hres)

theorem steady_admitted {r : RiskGatedRouter} {venue : UInt64} {full : Bool} {ref : BrokerOrderRef}
    {newPrice newVolume : Int} {nowNs : Nat}
    (h : ∀ conn ∈ (r.find venue).toList, ¬ conn.RefusesReplace full ref nowNs newPrice newVolume ∧
      ¬ conn.DefersReplace ref nowNs newPrice newVolume)
    (findFull : Bool) (out : Completion) :
    r.Steady (.replace venue findFull full ref newPrice newVolume nowNs out) := by
  rintro ⟨_, _, conn, hfind, hheld⟩
  obtain ⟨hrefuses, hdefers⟩ := h conn (Option.mem_toList.mpr hfind)
  exact absurd hheld (not_or.mpr ⟨hrefuses, hdefers⟩)

/-- A report with nothing held back behind it that asks for no new volume. -/
theorem steady_report {r : RiskGatedRouter} {venue : UInt64} {report : ExecReport} {out : Completion}
    (hheld : r.held venue report.ref = []) (hkind : report.kind ≠ .replaceAck)
    (hgone : terminalOrGone report.ref out = true)
    (hout : ∀ x ∈ (r.order venue report.ref).toList, out.order.filledVolume ≤ x.requestedVolume)
    (hfree : r.ledger.Uncrossed report.ref) (full : Bool) : r.Steady (.report venue full report out) := by
  intro x htakes
  exact ⟨keepsVolume_of_alone hheld hkind x, fun _ => ⟨hgone, hout x (Option.mem_toList.mpr htakes.order), hfree⟩⟩

theorem steady_resized : Runs.Along step Steady unthrottled resized := by
  refine ⟨trivial, ?_, ?_, trivial, ?_, trivial⟩
  · exact steady_replace (by decide +kernel) true 0 0 {}
  · exact steady_admitted (by decide +kernel) false {}
  · exact steady_report (by decide +kernel) (by decide) rfl (by decide +kernel) (by decide +kernel) false

theorem replace_keeps_ledger_in_step_resized :
    unthrottled.Fresh ∧ Runs.Along step Steady unthrottled resized ∧
      Runs.Along step ReplacesInStep unthrottled resized ∧
      Runs.Throughout step Settled unthrottled resized ∧
      ((Runs.run step unthrottled (resized.take 1)).submitReplace 1 false true ⟨1, 1⟩ 0 14 0 {}).1 =
        .rejected ∧
      ((Runs.run step unthrottled (resized.take 2)).submitReplace 1 false false ⟨1, 1⟩ 0 8 0 {}).1 =
        .admitted := by
  obtain ⟨hreplaces, hsettled⟩ :=
    (replace_keeps_ledger_in_step unthrottled).2 fresh_unthrottled resized steady_resized
  exact ⟨fresh_unthrottled, steady_resized, hreplaces, hsettled, by decide +kernel, by decide +kernel⟩

/-- An order of ten with a fill of four. -/
def partlyFilled : List Event :=
  [.create 0 1 false ⟨1, 1⟩ 0 .buy 10 0 {}, .send 1 false ⟨1, 1⟩,
    .report 1 false { ref := ⟨1, 1⟩, kind := .ack, venueSeq := 1 } {},
    .report 1 false { ref := ⟨1, 1⟩, kind := .fill, venueSeq := 2, volume := 4 } {}]

/-- The order is replaced below its fill, cancelled, and the venue confirms. -/
def loweredTooFar : List Event :=
  partlyFilled ++ [.replace 1 false false ⟨1, 1⟩ 0 3 0 {}, .cancel 1 false ⟨1, 1⟩ 0 {},
    .report 1 false { ref := ⟨1, 1⟩, kind := .cancelled, venueSeq := 3 } {}]

/-- The system refuses a replace to three, below the fill, but the ledger has let go of seven by
then, and the exposure of minus one outlives the order. -/
theorem rejected_decrease_unbalanced :
    unthrottled.Fresh ∧
    ((Runs.run step unthrottled partlyFilled).submitReplace 1 false false ⟨1, 1⟩ 0 3 0 {}).1 = .rejected ∧
    ¬ (Runs.run step unthrottled partlyFilled).ledger.Untouched
      ((Runs.run step unthrottled partlyFilled).submitReplace 1 false false ⟨1, 1⟩ 0 3 0 {}).2.2.ledger
      ⟨1, 1⟩ ∧
    ¬ Runs.Throughout step Settled unthrottled loweredTooFar ∧
    (Runs.run step unthrottled loweredTooFar).order 1 ⟨1, 1⟩ = none := by
  obtain ⟨hbefore, hrejected, hafter⟩ :
      ((Runs.run step unthrottled partlyFilled).ledger.dims .global).openExposure = 6 ∧
      ((Runs.run step unthrottled partlyFilled).submitReplace 1 false false ⟨1, 1⟩ 0 3 0 {}).1 =
        .rejected ∧
      (((Runs.run step unthrottled partlyFilled).submitReplace 1 false false ⟨1, 1⟩ 0 3 0
        {}).2.2.ledger.dims .global).openExposure = -1 := by decide +kernel
  obtain ⟨hend, hnone⟩ : ((Runs.run step unthrottled loweredTooFar).ledger.dims .global).openExposure =
      -1 ∧ (Runs.run step unthrottled loweredTooFar).order 1 ⟨1, 1⟩ = none := by decide +kernel
  refine ⟨fresh_unthrottled, hrejected, ?_, ?_, hnone⟩
  · intro h
    have hsame := h.exposure .global
    rw [hbefore, hafter] at hsame
    exact absurd hsame (by decide)
  · intro h
    have hnonneg := h.last.nonneg .global
    rw [hend] at hnonneg
    exact absurd hnonneg (by decide)

end RiskGatedRouter

end MicrostructureEngine
