import MicrostructureEngine.Oms.Coverage
import MicrostructureEngine.Risk.Positions

/-!
# Positions and applied fills

Next to the router runs a book of the fills its venues applied, each under the strategy,
symbol and side its order was requested with. The ledger only sees an order's fills through
the completion of a report, so its positions follow the book as long as that completion shows
them: a report that ends its order shows none, and a fill that the state machine refuses is
shown although it was not applied.
-/

namespace MicrostructureEngine

set_option autoImplicit false

/-! ## Fills of a cascade -/

/-- The volume of the fills among some reports. -/
def fillVolume (reports : List ExecReport) : Int :=
  ((reports.filter fun r => r.kind == .fill).map ExecReport.volume).sum

@[simp] theorem fillVolume_nil : fillVolume [] = 0 := rfl

theorem fillVolume_cons (r : ExecReport) (reports : List ExecReport) :
    fillVolume (r :: reports) = (if r.kind = .fill then r.volume else 0) + fillVolume reports := by
  unfold fillVolume
  by_cases hk : r.kind = .fill
  · simp [hk]
  · simp [hk]

theorem fillVolume_of_no_fill {reports : List ExecReport} (h : ∀ a ∈ reports, a.kind ≠ .fill) :
    fillVolume reports = 0 := by
  induction reports with
  | nil => rfl
  | cons r reports ih =>
    rw [fillVolume_cons, if_neg (h r List.mem_cons_self),
      ih fun a ha => h a (List.mem_cons_of_mem r ha), Int.add_zero]

/-- The volume a report writes into the order, applied or not. -/
def written (x : Order) (report : ExecReport) : Int :=
  if report.kind = .fill ∧ Oms.fillable x report.volume then report.volume else 0

theorem written_of_ne {x : Order} {report : ExecReport} (h : report.kind ≠ .fill) :
    written x report = 0 := if_neg fun hfill => h hfill.1

theorem applyKind_filled {x z : Order} {report : ExecReport}
    (hz : (Verdict.applyKind x report).after = some z) :
    z.filledVolume = x.filledVolume + written x report := by
  unfold Verdict.applyKind at hz
  split at hz
  case h_2 hkind =>
    unfold Verdict.fill at hz
    unfold written
    split at hz
    · rename_i hin
      rw [if_pos ⟨hkind, hin⟩]
      exact (Verdict.transition_volumes hz).1
    · rename_i hout
      cases hz
      rw [if_neg (fun h => hout h.2), Int.add_zero]
  case h_6 hkind =>
    rw [written_of_ne (by rw [hkind]; decide), Int.add_zero]
    unfold Verdict.replace at hz
    split at hz
    · cases hz
      rfl
    · cases hz
      rfl
  all_goals
    rename_i hkind
    rw [written_of_ne (by rw [hkind]; decide), Int.add_zero]
    exact (Verdict.transition_volumes hz).1

theorem applyOne_filled {x z : Order} {report : ExecReport}
    (hz : (Verdict.applyOne x report).after = some z) :
    z.filledVolume = x.filledVolume + written x report := by
  unfold Verdict.applyOne at hz
  dsimp only at hz
  split at hz
  · obtain ⟨y, hy, rfl⟩ := Option.map_eq_some_iff.mp hz
    have hfilled := applyKind_filled hy
    exact hfilled
  · exact applyKind_filled hz

/-- An applied fill is in range. -/
theorem written_of_ok {x : Order} {report : ExecReport} (hok : (Verdict.applyOne x report).ok = true) :
    written x report = if report.kind = .fill then report.volume else 0 := by
  by_cases hkind : report.kind = .fill
  · rw [Verdict.applyOne_ok, Verdict.applyKind, hkind] at hok
    dsimp only at hok
    by_cases hin : Oms.fillable x report.volume
    · rw [written, if_pos ⟨hkind, hin⟩, if_pos hkind]
    · rw [Verdict.fill, if_neg hin] at hok
      cases hok
  · rw [written_of_ne hkind, if_neg hkind]

/-- What the refused report of a trace left in the order all the same. -/
def Trace.stuck (t : Trace) : Int := t.refused.elim 0 fun e => written e.1 e.2

/-- The order has gained the fills of the trace, and what a refused one left. -/
def Trace.Explains (t : Trace) (x : Order) (after : Option Order) : Prop :=
  ∀ z, after = some z → z.filledVolume = x.filledVolume + fillVolume t.applied + t.stuck

theorem consumeTrace_explains {next : List ExecReport → Order → Settled}
    {nextTrace : List ExecReport → Order → Trace} {held : List ExecReport} {x : Order}
    {report : ExecReport} (h : ∀ y, (nextTrace held y).Explains y (next held y).after) :
    (consumeTrace nextTrace held x report).Explains x (consume next held x report).after := by
  intro z hz
  unfold consume at hz
  unfold consumeTrace
  dsimp only at hz ⊢
  cases hok : (Verdict.applyOne x report).ok with
  | false =>
    simp only [hok, Bool.false_eq_true, if_false] at hz ⊢
    rw [applyOne_filled hz]
    simp [Trace.stuck]
  | true =>
    simp only [hok, if_true] at hz ⊢
    cases hy : (Verdict.applyOne x report).after with
    | none =>
      simp only [hy] at hz
      cases hz
    | some y =>
      simp only [hy] at hz ⊢
      have hfirst := applyOne_filled hy
      have hrest := h y z hz
      rw [written_of_ok hok] at hfirst
      unfold Trace.stuck at hrest ⊢
      dsimp only
      rw [fillVolume_cons]
      omega

theorem settleTrace_explains (n : Nat) (held : List ExecReport) (x : Order) :
    (settleTrace n held x).Explains x (settleLoop n held x).after := by
  induction n generalizing held x with
  | zero =>
    intro z hz
    obtain rfl := Option.some.inj hz
    simp [settleTrace, Trace.stuck]
  | succ n ih =>
    unfold settleTrace settleLoop
    cases nextHeld held x with
    | none =>
      intro z hz
      obtain rfl := Option.some.inj hz
      simp [Trace.stuck]
    | some r => exact consumeTrace_explains fun y => ih _ y

theorem arriveTrace_explains (held : List ExecReport) (x : Order) (report : ExecReport) :
    (arriveTrace held x report).Explains x (arrive held x report).after :=
  consumeTrace_explains fun y => settleTrace_explains held.length held y

namespace RiskGatedRouter

/-- What a report applies at its venue: nothing if its ring is full, if it has no live order or if
it is not next in sequence. -/
def reportTrace (r : RiskGatedRouter) (venue : UInt64) (full : Bool) (report : ExecReport) : Trace :=
  if full then ⟨[], none⟩
  else match r.order venue report.ref with
  | none => ⟨[], none⟩
  | some x =>
    if report.venueSeq = x.lastAppliedSeq + 1 then arriveTrace (r.held venue report.ref) x report
    else ⟨[], none⟩

theorem reportTrace_idle {r : RiskGatedRouter} {venue : UInt64} {full : Bool} {report : ExecReport}
    (h : full = true ∨
      ∀ x, r.order venue report.ref = some x → report.venueSeq ≠ x.lastAppliedSeq + 1) :
    r.reportTrace venue full report = ⟨[], none⟩ := by
  unfold reportTrace
  cases full with
  | true => rfl
  | false =>
    rw [if_neg Bool.false_ne_true]
    cases hx : r.order venue report.ref with
    | none => rfl
    | some x =>
      rcases h with hfull | hseq
      · cases hfull
      · exact if_neg (hseq x hx)

theorem reportTrace_next {r : RiskGatedRouter} {venue : UInt64} {report : ExecReport} {x : Order}
    (hx : r.order venue report.ref = some x) (hseq : report.venueSeq = x.lastAppliedSeq + 1) :
    r.reportTrace venue false report = arriveTrace (r.held venue report.ref) x report := by
  unfold reportTrace
  rw [hx]
  dsimp only
  rw [if_neg Bool.false_ne_true, if_pos hseq]

end RiskGatedRouter

/-! ## The book -/

/-- How an order was requested. -/
structure Requested where
  strategy : UInt32 := unattributedStrategy
  symbol : Nat := 0
  side : Side := .buy
  deriving DecidableEq, Repr, Inhabited

/-- A fill that a venue applied. -/
structure BookedFill where
  strategy : UInt32
  venue : UInt64
  symbol : Nat
  side : Side
  volume : Int
  deriving DecidableEq, Repr

def BookedFill.signed (f : BookedFill) : Int := RiskLedger.signed f.side f.volume

/-- The signed volume of the fills that `P` picks. -/
def netVolume (P : BookedFill → Bool) (fills : List BookedFill) : Int :=
  ((fills.filter P).map BookedFill.signed).sum

/-- The router with the record of its admitted orders and of the fills applied so far. -/
structure PositionBook where
  router : RiskGatedRouter
  requests : UInt64 → BrokerOrderRef → Requested := fun _ _ => {}
  fills : List BookedFill := []

namespace PositionBook

inductive Call where
  | create (strategy : UInt32) (venue : UInt64) (full : Bool) (ref : BrokerOrderRef) (symbol : Nat)
      (side : Side) (volume : Int) (nowNs : Nat) (out : Completion)
  | report (venue : UInt64) (full : Bool) (report : ExecReport) (out : Completion)
  /-- The order goes out to the venue. -/
  | send (venue : UInt64) (full : Bool) (ref : BrokerOrderRef)

def setRequest (requests : UInt64 → BrokerOrderRef → Requested) (venue : UInt64) (ref : BrokerOrderRef)
    (q : Requested) : UInt64 → BrokerOrderRef → Requested :=
  Function.update requests venue (Function.update (requests venue) ref q)

theorem setRequest_self (requests : UInt64 → BrokerOrderRef → Requested) (venue : UInt64)
    (ref : BrokerOrderRef) (q : Requested) : setRequest requests venue ref q venue ref = q := by
  rw [setRequest, Function.update_self, Function.update_self]

theorem setRequest_of_ne (requests : UInt64 → BrokerOrderRef → Requested) {venue v : UInt64}
    {ref k : BrokerOrderRef} {q : Requested} (hk : k ≠ ref) :
    setRequest requests venue ref q v k = requests v k := by
  unfold setRequest
  by_cases hv : v = venue
  · subst hv
    rw [Function.update_self, Function.update_of_ne hk]
  · rw [Function.update_of_ne hv]

/-- The fills among the reports a venue applied for one order. -/
def bookFills (venue : UInt64) (q : Requested) (applied : List ExecReport) : List BookedFill :=
  (applied.filter fun r => r.kind == .fill).map fun r =>
    { strategy := q.strategy, venue := venue, symbol := q.symbol, side := q.side, volume := r.volume }

def step (b : PositionBook) : Call → PositionBook
  | .create strategy venue full ref symbol side volume nowNs out =>
    let s := b.router.submitCreate strategy venue full ref symbol side volume nowNs out
    { b with
      router := s.2.2
      requests :=
        if s.1 = .admitted then setRequest b.requests venue ref ⟨strategy, symbol, side⟩ else b.requests }
  | .report venue full report out =>
    { b with
      router := (b.router.submitReport venue full report out).2.2
      fills := b.fills ++ bookFills venue (b.requests venue report.ref)
        (b.router.reportTrace venue full report).applied }
  | .send venue full ref => { b with router := b.router.send venue full ref }

/-- Every position is the signed sum of the fills it stands for, and every active reservation is
that of a live order. -/
structure Reconciled (b : PositionBook) : Prop where
  whole : b.router.ledger.globalState.position = netVolume (fun _ => true) b.fills
  venues : ∀ id s, b.router.ledger.venueState id = some s →
    s.position = netVolume (fun f => f.venue = id) b.fills
  symbols : ∀ symbol s, b.router.ledger.symbolState symbol = some s →
    s.position = netVolume (fun f => f.symbol = symbol) b.fills
  strategies : ∀ id s, b.router.ledger.strategyState id = some s →
    s.position = netVolume (fun f => f.strategy = id) b.fills
  live : ∀ p < b.router.ledger.reservationCapacity, (b.router.ledger.reservations p).occupied = true →
    (b.router.ledger.reservations p).active = true →
      b.router.order (b.router.ledger.reservations p).venue (b.router.ledger.reservations p).ref ≠ none

/-! ## The invariant -/

/-- The reservation of a live order knows its fills and how it was requested. -/
structure Records (q : Requested) (res : Reservation) (venue : UInt64) (x : Order) : Prop where
  live : x.state.isTerminal = false
  filled : res.lastKnownFilled = x.filledVolume
  strategy : res.strategy = q.strategy
  venue : res.venue = venue
  symbol : res.symbol = q.symbol
  side : res.side = q.side

/-- A reservation with the dimensions of a fill. -/
def reservationOf (f : BookedFill) : Reservation :=
  { strategy := f.strategy, venue := f.venue, symbol := f.symbol, side := f.side }

structure Kept (b : PositionBook) : Prop where
  indexed : b.router.ledger.Indexed
  attributed : ∀ i, b.router.ledger.strategyIds i ≠ some unattributedStrategy
  orders : ∀ venue ref x, b.router.order venue ref = some x →
    ∃ res, b.router.ledger.held ref = some res ∧ Records (b.requests venue ref) res venue x
  backed : ∀ ref res, b.router.ledger.held ref = some res → b.router.order res.venue ref ≠ none
  position : ∀ d, (b.router.ledger.dims d).position =
    netVolume (fun f => d ∈ b.router.ledger.dimsFor (reservationOf f)) b.fills

section Sums

theorem netVolume_congr {P Q : BookedFill → Bool} {fills : List BookedFill} (h : ∀ f, P f = Q f) :
    netVolume P fills = netVolume Q fills := by
  rw [show P = Q from funext h]

theorem netVolume_append (P : BookedFill → Bool) (fills more : List BookedFill) :
    netVolume P (fills ++ more) = netVolume P fills + netVolume P more := by
  simp [netVolume]

theorem signed_add (side : Side) (a b : Int) :
    RiskLedger.signed side (a + b) = RiskLedger.signed side a + RiskLedger.signed side b := by
  unfold RiskLedger.signed
  split <;> omega

/-- The fills of one order count for a dimension together or not at all. -/
theorem netVolume_bookFills {P : BookedFill → Bool} {venue : UInt64} {q : Requested} {c : Bool}
    (h : ∀ volume, P ⟨q.strategy, venue, q.symbol, q.side, volume⟩ = c) (applied : List ExecReport) :
    netVolume P (bookFills venue q applied) =
      if c then RiskLedger.signed q.side (fillVolume applied) else 0 := by
  induction applied with
  | nil => simp [netVolume, bookFills, RiskLedger.signed]
  | cons r applied ih =>
    rw [fillVolume_cons]
    by_cases hk : r.kind = .fill
    · have hcons : bookFills venue q (r :: applied) =
          ⟨q.strategy, venue, q.symbol, q.side, r.volume⟩ :: bookFills venue q applied := by
        simp [bookFills, hk]
      have hsplit : netVolume P (bookFills venue q (r :: applied)) =
          (if c then RiskLedger.signed q.side r.volume else 0) +
            netVolume P (bookFills venue q applied) := by
        rw [hcons]
        unfold netVolume
        rw [List.filter_cons, h]
        cases c <;> simp [BookedFill.signed]
      rw [hsplit, ih, if_pos hk, signed_add]
      cases c <;> simp
    · have hcons : bookFills venue q (r :: applied) = bookFills venue q applied := by
        simp [bookFills, hk]
      rw [hcons, ih, if_neg hk, Int.zero_add]

end Sums

theorem Kept.reconciled {b : PositionBook} (h : b.Kept) : b.Reconciled where
  whole := by
    refine (h.position .global).trans (netVolume_congr ?_)
    intro f
    exact decide_eq_true RiskLedger.global_mem_dimsFor
  venues := by
    intro id s hs
    obtain ⟨i, hi, rfl⟩ := Option.map_eq_some_iff.mp hs
    obtain ⟨_, hid, _⟩ := RiskLedger.findSlot_eq_some hi
    refine (h.position (.venue i)).trans (netVolume_congr ?_)
    intro f
    rw [decide_eq_decide, RiskLedger.venue_mem_dimsFor]
    constructor
    · intro hslot
      have hfid := (RiskLedger.findSlot_eq_some hslot).2.1
      rw [hid] at hfid
      exact (Option.some.inj hfid).symm
    · rintro rfl
      exact hi
  symbols := by
    intro symbol s hs
    unfold RiskLedger.symbolState at hs
    split at hs
    · rename_i hlt
      obtain rfl := Option.some.inj hs
      refine (h.position (.symbol symbol)).trans (netVolume_congr ?_)
      intro f
      rw [decide_eq_decide, RiskLedger.symbol_mem_dimsFor]
      constructor
      · exact And.left
      · rintro rfl
        exact ⟨rfl, hlt⟩
    · cases hs
  strategies := by
    intro id s hs
    obtain ⟨i, hi, rfl⟩ := Option.map_eq_some_iff.mp hs
    obtain ⟨_, hid, _⟩ := RiskLedger.findSlot_eq_some hi
    refine (h.position (.strategy i)).trans (netVolume_congr ?_)
    intro f
    rw [decide_eq_decide, RiskLedger.strategy_mem_dimsFor]
    constructor
    · rintro ⟨_, hslot⟩
      have hfid := (RiskLedger.findSlot_eq_some hslot).2.1
      rw [hid] at hfid
      exact (Option.some.inj hfid).symm
    · rintro rfl
      refine ⟨?_, hi⟩
      intro hzero
      have hzero' : f.strategy = unattributedStrategy := hzero
      exact h.attributed i (by rw [hid, hzero'])
  live := by
    intro p hp hoccupied _
    have hkey : b.router.ledger.slotKey p = some (b.router.ledger.reservations p).ref :=
      Reservation.key_eq_some_iff.mpr ⟨hoccupied, rfl⟩
    exact h.backed _ _ ((h.indexed.tracks _ _).mpr ⟨p, hp, hkey, rfl⟩)

section Steps
variable {b b' : PositionBook} {venue : UInt64} {ref : BrokerOrderRef}

/-- A reference is live at one venue only. -/
theorem Kept.alone (h : b.Kept) {x : Order} (hx : b.router.order venue ref = some x) (v : UInt64)
    (hv : v ≠ venue) : b.router.order v ref = none := by
  cases hy : b.router.order v ref with
  | none => rfl
  | some y =>
    obtain ⟨res, hres, hrecords⟩ := h.orders venue ref x hx
    obtain ⟨res', hres', hrecords'⟩ := h.orders v ref y hy
    obtain rfl := Option.some.inj (hres.symm.trans hres')
    exact absurd (hrecords'.venue.symm.trans hrecords.venue) hv

theorem Kept.unheld (h : b.Kept) (hnone : b.router.ledger.held ref = none) (v : UInt64) :
    b.router.order v ref = none := by
  cases hy : b.router.order v ref with
  | none => rfl
  | some y =>
    obtain ⟨res, hres, _⟩ := h.orders v ref y hy
    rw [hnone] at hres
    cases hres

/-- One order, the entry of its reference and the book are rewritten together. -/
theorem Kept.move (h : b.Kept) {y : Option Order} {entry : Option Reservation} {moves : Dimension → Int}
    (hp : RiskLedger.Posted b.router.ledger b'.router.ledger ref entry moves)
    (horder : b'.router.order = RiskGatedRouter.setOrder b.router.order venue ref y)
    (hsole : ∀ v, v ≠ venue → b.router.order v ref = none)
    (hrequests : ∀ v k, k ≠ ref → b'.requests v k = b.requests v k)
    (hfills : ∀ d, netVolume (fun f => d ∈ b.router.ledger.dimsFor (reservationOf f)) b'.fills =
      netVolume (fun f => d ∈ b.router.ledger.dimsFor (reservationOf f)) b.fills + moves d)
    (hy : ∀ z, y = some z → ∃ res, entry = some res ∧ Records (b'.requests venue ref) res venue z)
    (hbacked : ∀ res, entry = some res → res.venue = venue ∧ y ≠ none) : b'.Kept where
  indexed := hp.indexed
  attributed := by
    rw [hp.strategyIds]
    exact h.attributed
  orders := by
    intro v k z hz
    rw [horder, RiskGatedRouter.setOrder_apply] at hz
    rw [hp.held]
    by_cases hk : k = ref
    · subst hk
      rw [Function.update_self]
      by_cases hv : v = venue
      · rw [if_pos ⟨hv, rfl⟩] at hz
        rw [hv]
        exact hy z hz
      · rw [if_neg (fun hpair => hv hpair.1), hsole v hv] at hz
        cases hz
    · rw [Function.update_of_ne hk, hrequests v k hk]
      rw [if_neg (fun hpair => hk hpair.2)] at hz
      exact h.orders v k z hz
  backed := by
    intro k res hres
    rw [hp.held] at hres
    rw [horder, RiskGatedRouter.setOrder_apply]
    by_cases hk : k = ref
    · subst hk
      rw [Function.update_self] at hres
      obtain ⟨hvenue, hlive⟩ := hbacked res hres
      rw [if_pos ⟨hvenue, rfl⟩]
      exact hlive
    · rw [Function.update_of_ne hk] at hres
      rw [if_neg (fun hpair => hk hpair.2)]
      exact h.backed k res hres
  position := by
    intro d
    rw [hp.position, hp.dimsFor, h.position, hfills]

theorem Kept.same (h : b.Kept) (horder : b'.router.order = b.router.order)
    (hledger : b'.router.ledger = b.router.ledger) (hrequests : b'.requests = b.requests)
    (hfills : b'.fills = b.fills) : b'.Kept where
  indexed := by rw [hledger]; exact h.indexed
  attributed := by rw [hledger]; exact h.attributed
  orders := by rw [hledger, horder, hrequests]; exact h.orders
  backed := by rw [hledger, horder]; exact h.backed
  position := by rw [hledger, hfills]; exact h.position

theorem Kept.create (h : b.Kept) (strategy : UInt32) (venue : UInt64) (full : Bool) (ref : BrokerOrderRef)
    (symbol : Nat) (side : Side) (volume : Int) (nowNs : Nat) (out : Completion) :
    (b.step (.create strategy venue full ref symbol side volume nowNs out)).Kept := by
  have hcases := b.router.submitCreate_cases venue full ref nowNs out strategy symbol side volume
  unfold step
  dsimp only at hcases ⊢
  generalize b.router.submitCreate strategy venue full ref symbol side volume nowNs out = s at hcases ⊢
  rcases hcases with ⟨hnot, horder, hledger⟩ | ⟨l', hreserve, hrest⟩
  · exact h.same horder hledger (if_neg hnot) rfl
  · rcases h.indexed.reserve strategy venue symbol side volume ref with
      hfail | ⟨l'', hdone, hnone, hbooked, hreleased⟩
    · rw [hfail] at hreserve
      cases hreserve
    · rw [hdone] at hreserve
      cases hreserve
      have hsole : ∀ v, v ≠ venue → b.router.order v ref = none := fun v _ => h.unheld hnone v
      rcases hrest with ⟨hnot, horder, hledger⟩ | ⟨hadmitted, hfree, horder, hledger⟩
      · rw [← hledger] at hreleased
        have hself := RiskGatedRouter.setOrder_eq_self (h.unheld hnone venue)
        refine h.move hreleased (horder.trans hself.symm) hsole ?_ (fun d => (Int.add_zero _).symm)
          (by rintro _ ⟨⟩) (by rintro _ ⟨⟩)
        intro v k _
        rw [if_neg hnot]
      · rw [← hledger] at hbooked
        refine h.move hbooked horder hsole ?_ (fun d => (Int.add_zero _).symm) ?_ ?_
        · intro v k hk
          dsimp only
          rw [if_pos hadmitted, setRequest_of_ne _ hk]
        · rintro z ⟨⟩
          dsimp only
          rw [if_pos hadmitted, setRequest_self]
          exact ⟨_, rfl, rfl, rfl, rfl, rfl, rfl, rfl⟩
        · rintro res ⟨⟩
          exact ⟨rfl, Option.some_ne_none _⟩

theorem Kept.send (h : b.Kept) (venue : UInt64) (full : Bool) (ref : BrokerOrderRef) :
    (b.step (.send venue full ref)).Kept := by
  obtain ⟨hledger, horder | ⟨x, hx, horder⟩⟩ := b.router.send_cases venue full ref
  · exact h.same horder hledger rfl rfl
  · obtain ⟨res, hres, hrecords⟩ := h.orders venue ref x hx
    have hposted : RiskLedger.Posted b.router.ledger (b.router.send venue full ref).ledger ref (some res)
        fun _ => 0 := by
      rw [hledger]
      exact .same h.indexed hres
    refine h.move hposted horder (h.alone hx) (fun _ _ _ => rfl) (fun d => (Int.add_zero _).symm) ?_ ?_
    · rintro z ⟨⟩
      exact ⟨res, rfl, rfl, hrecords.filled, hrecords.strategy, hrecords.venue, hrecords.symbol,
        hrecords.side⟩
    · rintro res' ⟨⟩
      exact ⟨hrecords.venue, Option.some_ne_none _⟩

/-- The calls whose completion shows the ledger what the venue applied: no cascade stops at a fill
in range, and a report that ends its order applies no fill, is taken for what it is and frees a
slot no other probe run crosses. -/
def Counted (b : PositionBook) : Call → Prop
  | .report venue full report out => full = false → ∀ x, b.router.order venue report.ref = some x →
    report.venueSeq = x.lastAppliedSeq + 1 →
      (∀ e, (arriveTrace (b.router.held venue report.ref) x report).refused = some e →
        ¬ (e.2.kind = .fill ∧ Oms.fillable e.1 e.2.volume)) ∧
      ((arrive (b.router.held venue report.ref) x report).after = none →
        (∀ a ∈ (arriveTrace (b.router.held venue report.ref) x report).applied, a.kind ≠ .fill) ∧
        RiskGatedRouter.terminalOrGone report.ref out = true ∧
        (∀ res, b.router.ledger.held report.ref = some res →
          out.order.filledVolume ≤ res.lastKnownFilled) ∧
        b.router.ledger.Uncrossed report.ref)
  | .create .. | .send .. => True

theorem dimsFor_congr (l : RiskLedger) {r r' : Reservation} (hstrategy : r.strategy = r'.strategy)
    (hvenue : r.venue = r'.venue) (hsymbol : r.symbol = r'.symbol) : l.dimsFor r = l.dimsFor r' := by
  unfold RiskLedger.dimsFor
  rw [hstrategy, hvenue, hsymbol]

/-- The fills applied for an order move the dimensions of its reservation. -/
theorem netVolume_report (l : RiskLedger) {q : Requested} {res : Reservation} {x : Order}
    (h : Records q res venue x) (d : Dimension) (applied : List ExecReport) :
    netVolume (fun f => d ∈ l.dimsFor (reservationOf f)) (bookFills venue q applied) =
      if d ∈ l.dimsFor res then RiskLedger.signed res.side (fillVolume applied) else 0 := by
  have hdims : ∀ volume, decide (d ∈ l.dimsFor (reservationOf
      ⟨q.strategy, venue, q.symbol, q.side, volume⟩)) = decide (d ∈ l.dimsFor res) := by
    intro volume
    have hsame : l.dimsFor (reservationOf ⟨q.strategy, venue, q.symbol, q.side, volume⟩) = l.dimsFor res :=
      dimsFor_congr l h.strategy.symm h.venue.symm h.symbol.symm
    rw [hsame]
  rw [netVolume_bookFills hdims, h.side]
  simp only [decide_eq_true_eq]

theorem Kept.report (h : b.Kept) (venue : UInt64) (full : Bool) (report : ExecReport) (out : Completion)
    (hcounted : b.Counted (.report venue full report out)) :
    (b.step (.report venue full report out)).Kept := by
  have hcases := b.router.submitReport_cases venue full out report
  unfold step
  dsimp only at hcases ⊢
  generalize b.router.submitReport venue full report out = s at hcases ⊢
  rcases hcases with ⟨horder, hledger, hidle⟩ | ⟨x, rfl, hx, hseq, horder, hledger⟩
  · rw [RiskGatedRouter.reportTrace_idle hidle]
    exact h.same horder hledger rfl (List.append_nil _)
  · rw [RiskGatedRouter.reportTrace_next hx hseq]
    obtain ⟨hclean, hends⟩ := hcounted rfl x hx hseq
    obtain ⟨res, hres, hrecords⟩ := h.orders venue report.ref x hx
    have hexplains := arriveTrace_explains (b.router.held venue report.ref) x report
    have hrefused : (Verdict.applyOne x report).ok = false →
        (arriveTrace (b.router.held venue report.ref) x report).applied = [] := arriveTrace_refused _
    have href : report.ref = x.ref := (RiskGatedRouter.order_ref hx).symm
    have hstuck : (arriveTrace (b.router.held venue report.ref) x report).stuck = 0 := by
      unfold Trace.stuck
      cases he : (arriveTrace (b.router.held venue report.ref) x report).refused with
      | none => rfl
      | some e => exact if_neg (hclean e he)
    generalize arriveTrace (b.router.held venue report.ref) x report = trace
      at hends hexplains hrefused hstuck ⊢
    have hfills : ∀ d, netVolume (fun f => d ∈ b.router.ledger.dimsFor (reservationOf f))
        (b.fills ++ bookFills venue (b.requests venue report.ref) trace.applied) =
        netVolume (fun f => d ∈ b.router.ledger.dimsFor (reservationOf f)) b.fills +
          if d ∈ b.router.ledger.dimsFor res then
            RiskLedger.signed res.side (fillVolume trace.applied) else 0 := by
      intro d
      rw [netVolume_append, netVolume_report b.router.ledger hrecords d]
    cases hafter : (arrive (b.router.held venue report.ref) x report).after with
    | some z =>
      obtain ⟨hlive, hzref, hsymbol, hmono⟩ := RiskGatedRouter.arrive_live hrecords.live href hafter
      have hfilled := hexplains z hafter
      rw [hstuck, Int.add_zero] at hfilled
      rw [hafter] at horder hledger
      cases hok : (Verdict.applyOne x report).ok with
      | true =>
        have hgone : RiskGatedRouter.terminalOrGone report.ref { order := z } = false := by
          simp [RiskGatedRouter.terminalOrGone, hlive, hzref, href]
        simp only [hok, if_true, RiskGatedRouter.shown, Option.getD_some, hgone] at hledger
        have hknown := hrecords.filled
        have hle : res.lastKnownFilled ≤ z.filledVolume := by omega
        have hposted := h.indexed.reconcile hres hle
        have hdelta : z.filledVolume - res.lastKnownFilled = fillVolume trace.applied := by omega
        rw [← hledger, hdelta] at hposted
        refine h.move hposted horder (h.alone hx) (fun _ _ _ => rfl) hfills ?_ ?_
        · rintro z' ⟨⟩
          exact ⟨_, rfl, hlive, rfl, hrecords.strategy, hrecords.venue, hrecords.symbol, hrecords.side⟩
        · rintro res' ⟨⟩
          exact ⟨hrecords.venue, Option.some_ne_none _⟩
      | false =>
        simp only [hok, Bool.false_eq_true, if_false] at hledger
        have hnothing := hrefused hok
        have hposted : RiskLedger.Posted b.router.ledger s.2.2.ledger report.ref (some res)
            fun _ => 0 := by
          rw [hledger]
          exact .same h.indexed hres
        rw [hnothing] at hfilled ⊢
        refine h.move hposted horder (h.alone hx) (fun _ _ _ => rfl) ?_ ?_ ?_
        · intro d
          simp [bookFills]
        · rintro z' ⟨⟩
          rw [fillVolume_nil, Int.add_zero] at hfilled
          exact ⟨res, rfl, hlive, hrecords.filled.trans hfilled.symm, hrecords.strategy, hrecords.venue,
            hrecords.symbol, hrecords.side⟩
        · rintro res' ⟨⟩
          exact ⟨hrecords.venue, Option.some_ne_none _⟩
    | none =>
      obtain ⟨hnofill, hgone, hstale, hsafe⟩ := hends hafter
      have hok := arrive_ends_ok hafter
      have hflag : RiskGatedRouter.terminalOrGone report.ref { order := out.order } = true := hgone
      rw [hafter] at horder hledger
      simp only [hok, if_true, RiskGatedRouter.shown, Option.getD_none, hflag] at hledger
      have hposted := h.indexed.reconcile_gone hsafe hstale
      rw [← hledger] at hposted
      refine h.move hposted horder (h.alone hx) (fun _ _ _ => rfl) ?_ (by rintro _ ⟨⟩)
        (by rintro _ ⟨⟩)
      intro d
      dsimp only
      rw [hfills d, fillVolume_of_no_fill hnofill]
      simp [RiskLedger.signed]

theorem Kept.step (h : b.Kept) (c : Call) (hcounted : b.Counted c) : (b.step c).Kept := by
  cases c with
  | create strategy venue full ref symbol side volume nowNs out => exact h.create ..
  | report venue full report out => exact h.report venue full report out hcounted
  | send venue full ref => exact h.send venue full ref

end Steps

theorem kept_of_fresh {r : RiskGatedRouter} (h : r.Fresh) : Kept { router := r } where
  indexed := h.ledger.indexed
  attributed := h.ledger.sound.attributed
  orders := by
    intro venue ref x hx
    have hnone := h.orders venue ref
    rw [hnone] at hx
    cases hx
  backed := by
    intro ref res hres
    have hnone := h.ledger.held ref
    rw [hnone] at hres
    cases hres
  position := fun d => h.ledger.position d

/-- In every run from a fresh router whose calls are counted, the positions are the signed sums of
the applied fills after every call, and the reservations in use are those of live orders. -/
theorem positions_match_applied_fills (r : RiskGatedRouter) (calls : List Call) (hfresh : r.Fresh)
    (hcounted : Runs.Along step Counted { router := r } calls) :
    Runs.Throughout step Reconciled { router := r } calls := by
  have hkept : Runs.Throughout step Kept { router := r } calls :=
    Runs.throughout_of_along (fun b c hb hc => hb.step c hc) (kept_of_fresh hfresh) hcounted
  exact fun before hbefore => (hkept before hbefore).reconciled

/-- What `Counted` asks of a report, as a check on the order and the reservation there are. -/
theorem counted_report {b : PositionBook} {venue : UInt64} {full : Bool} {report : ExecReport}
    {out : Completion}
    (h : ∀ x ∈ (b.router.order venue report.ref).toList,
      (arriveTrace (b.router.held venue report.ref) x report).refused = none ∧
      ((arrive (b.router.held venue report.ref) x report).after = none →
        (∀ a ∈ (arriveTrace (b.router.held venue report.ref) x report).applied, a.kind ≠ .fill) ∧
        RiskGatedRouter.terminalOrGone report.ref out = true ∧
        (∀ res ∈ (b.router.ledger.held report.ref).toList,
          out.order.filledVolume ≤ res.lastKnownFilled) ∧
        b.router.ledger.Uncrossed report.ref)) : b.Counted (.report venue full report out) := by
  intro _ x hx _
  obtain ⟨hrefused, hends⟩ := h x (Option.mem_toList.mpr hx)
  refine ⟨?_, ?_⟩
  · intro e he
    rw [hrefused] at he
    cases he
  · intro hafter
    obtain ⟨hnofill, hgone, hstale, hfree⟩ := hends hafter
    exact ⟨hnofill, hgone, fun res hres => hstale res (Option.mem_toList.mpr hres), hfree⟩

/-- One venue and one strategy. -/
def oneVenue : RiskGatedRouter where
  registry := [{ id := 1, oms := .new 1 Nat.one_pos 4 4 4 4 }]
  ledger := (((RiskLedger.new 1 1 8 {}).registerVenue 1).1.registerStrategy 5).1

theorem fresh_oneVenue : oneVenue.Fresh :=
  .of_new (.registerStrategy 5 (.registerVenue 1 (.new 1 1 8 _))) rfl

/-- An order is sent, filled by four, and the fill sent again. -/
def filledOnce : List Call :=
  [.create 5 1 false ⟨1, 1⟩ 0 .sell 10 0 {}, .send 1 false ⟨1, 1⟩,
    .report 1 false { ref := ⟨1, 1⟩, kind := .ack, venueSeq := 1 } {},
    .report 1 false { ref := ⟨1, 1⟩, kind := .fill, venueSeq := 2, volume := 4 } {},
    .report 1 false { ref := ⟨1, 1⟩, kind := .fill, venueSeq := 2, volume := 4 } {}]

theorem positions_match_applied_fills_once :
    oneVenue.Fresh ∧ Runs.Along step Counted { router := oneVenue } filledOnce ∧
      Runs.Throughout step Reconciled { router := oneVenue } filledOnce := by
  have hcounted : Runs.Along step Counted { router := oneVenue } filledOnce :=
    ⟨trivial, trivial, counted_report (by decide +kernel), counted_report (by decide +kernel),
      counted_report (by decide +kernel), trivial⟩
  exact ⟨fresh_oneVenue, hcounted,
    positions_match_applied_fills oneVenue filledOnce fresh_oneVenue hcounted⟩

/-- The fill of the whole order, which ends it. -/
def filledWhole : List Call :=
  [.create 5 1 false ⟨1, 1⟩ 0 .buy 10 0 {}, .send 1 false ⟨1, 1⟩,
    .report 1 false { ref := ⟨1, 1⟩, kind := .ack, venueSeq := 1 } {},
    .report 1 false { ref := ⟨1, 1⟩, kind := .fill, venueSeq := 2, volume := 10 } {}]

/-- A fill before the order went out, refused, and then an acknowledged replace in its place. -/
def filledEarly : List Call :=
  [.create 5 1 false ⟨1, 1⟩ 0 .buy 10 0 {},
    .report 1 false { ref := ⟨1, 1⟩, kind := .fill, venueSeq := 1, volume := 4 } {},
    .report 1 false { ref := ⟨1, 1⟩, kind := .replaceAck, venueSeq := 1, volume := 10 } {}]

/-- The position misses the fill that completes an order, and counts one that was refused. -/
theorem completing_fill_not_counted :
    oneVenue.Fresh ∧ ¬ Runs.Throughout step Reconciled { router := oneVenue } filledWhole ∧
      ¬ Runs.Throughout step Reconciled { router := oneVenue } filledEarly := by
  refine ⟨fresh_oneVenue, ?_, ?_⟩
  · intro h
    have hwhole := h.last.whole
    have hmissed : (Runs.run step { router := oneVenue } filledWhole).router.ledger.globalState.position = 0 ∧
        netVolume (fun _ => true) (Runs.run step { router := oneVenue } filledWhole).fills = 10 := by
      decide +kernel
    rw [hmissed.1, hmissed.2] at hwhole
    exact absurd hwhole (by decide)
  · intro h
    have hwhole := h.last.whole
    have hextra : (Runs.run step { router := oneVenue } filledEarly).router.ledger.globalState.position = 4 ∧
        netVolume (fun _ => true) (Runs.run step { router := oneVenue } filledEarly).fills = 0 := by
      decide +kernel
    rw [hextra.1, hextra.2] at hwhole
    exact absurd hwhole (by decide)

end PositionBook

end MicrostructureEngine
