import MicrostructureEngine.Oms.Router
import MicrostructureEngine.Risk.ReservationTable

/-!
# What a refused create leaves behind

`submit_create` reserves in the ledger and records the volume with the self-trade tracker
before the venue can still refuse; on a refusal it releases the reservation and forgets the
tracker. `route_create` with a gate attached reserves through the gate before the system can
refuse, and releases nothing. Both are exact: the calls that leave a trace are the ones that
reach these two points.
-/

namespace MicrostructureEngine

set_option autoImplicit false

namespace RiskLedger

def activeReservations (l : RiskLedger) : Set Reservation :=
  { x | ∃ p < l.reservationCapacity, l.reservations p = x ∧ x.occupied = true ∧ x.active = true }

structure Unchanged (l l' : RiskLedger) : Prop where
  exposure : ∀ d, (l'.dims d).openExposure = (l.dims d).openExposure
  credit : ∀ d, (l'.dims d).creditRemaining = (l.dims d).creditRemaining
  active : l'.activeReservations = l.activeReservations

theorem Unchanged.refl (l : RiskLedger) : Unchanged l l := ⟨fun _ => rfl, fun _ => rfl, rfl⟩

theorem activeReservations_blank {l : RiskLedger} {p : Nat} (hfree : l.slotKey p = none) :
    activeReservations { l with reservations := Function.update l.reservations p {} } =
      l.activeReservations := by
  have hocc := Reservation.key_eq_none_iff.mp hfree
  ext x
  constructor
  · rintro ⟨q, hq, hx, hoccupied, hactive⟩
    by_cases hqp : q = p
    · subst hqp
      dsimp only at hx
      rw [Function.update_self] at hx
      subst hx
      cases hoccupied
    · dsimp only at hx
      rw [Function.update_of_ne hqp] at hx
      exact ⟨q, hq, hx, hoccupied, hactive⟩
  · rintro ⟨q, hq, hx, hoccupied, hactive⟩
    have hqp : q ≠ p := by
      rintro rfl
      rw [hx, hoccupied] at hocc
      cases hocc
    refine ⟨q, hq, ?_, hoccupied, hactive⟩
    dsimp only
    rw [Function.update_of_ne hqp]
    exact hx

theorem release_reserve (l : RiskLedger) (strategy : UInt32) (venue : UInt64) (symbol : Nat)
    (side : Side) (volume : Int) (ref : BrokerOrderRef)
    (h : (l.reserve strategy venue symbol side volume ref).2 = true) :
    Unchanged l ((l.reserve strategy venue symbol side volume ref).1.release ref) := by
  rcases l.reserve_cases strategy venue symbol side volume ref with
    hfail | ⟨p, hlookup, hfree, hadmitted, hdone⟩
  · rw [hfail] at h
    cases h
  · rw [hdone]
    dsimp only
    rw [release_book hlookup rfl ⟨rfl, rfl, rfl, Int.le_of_lt hadmitted.volume_pos⟩ rfl rfl]
    exact ⟨fun _ => rfl, fun _ => rfl, activeReservations_blank hfree⟩

theorem reserve_changes (l : RiskLedger) (strategy : UInt32) (venue : UInt64) (symbol : Nat)
    (side : Side) (volume : Int) (ref : BrokerOrderRef)
    (h : (l.reserve strategy venue symbol side volume ref).2 = true) :
    ¬ Unchanged l (l.reserve strategy venue symbol side volume ref).1 := by
  rcases l.reserve_cases strategy venue symbol side volume ref with
    hfail | ⟨p, _, _, hadmitted, hdone⟩
  · rw [hfail] at h
    cases h
  · rw [hdone]
    intro hsame
    have hglobal := hsame.exposure .global
    have hpos := hadmitted.volume_pos
    simp only [book] at hglobal
    rw [AllOrNothing.touchAll_of_nodup _ _ (dimsFor_nodup _ _), if_pos global_mem_dimsFor] at hglobal
    simp only [DimensionState.hold] at hglobal
    omega

theorem reserve_pos (l : RiskLedger) {strategy : UInt32} {venue : UInt64} {symbol : Nat}
    {side : Side} {volume : Int} {ref : BrokerOrderRef}
    (h : (l.reserve strategy venue symbol side volume ref).2 = true) : 0 < volume := by
  rcases l.reserve_cases strategy venue symbol side volume ref with hfail | ⟨p, _, _, hadmitted, _⟩
  · rw [hfail] at h
    cases h
  · exact hadmitted.volume_pos

end RiskLedger

/-! ## The hook -/

namespace VenueConnection

/-- The gate takes its reservation and the system then refuses the order. -/
def GateKeeps (c : VenueConnection) (gate : RiskLedger) (full : Bool) (ref : BrokerOrderRef)
    (symbol : Nat) (volume : Int) (nowNs : Nat) : Prop :=
  ¬ c.Shut ∧ c.limitCreate ref nowNs symbol volume = .admitted ∧
    (gate.admitCreate c.id symbol volume ref).2 = true ∧ c.oms.RefusesCreate full ref

def GateUntouched (c : VenueConnection) (gate : RiskLedger) (full : Bool) (ref : BrokerOrderRef)
    (symbol : Nat) (volume : Int) (nowNs : Nat) (out : Completion) : Prop :=
  let s := (c.attachRiskGate gate).routeCreate full ref symbol volume nowNs out
  s.1 = .rejected → ∃ gate', s.2.2.riskGate = some gate' ∧ RiskLedger.Unchanged gate gate'

theorem gateCreate_gate (c : VenueConnection) (l : VenueRateLimiter) (symbol : Nat) (volume : Int)
    (ref : BrokerOrderRef) :
    ({ c with limiter := l }.gateCreate symbol volume ref).2.riskGate =
      (c.gateCreate symbol volume ref).2.riskGate := by
  unfold gateCreate
  cases hgate : c.riskGate with
  | none => exact hgate.symm
  | some gate => rfl

/-- The gate is asked exactly when the gates before it let the create through. -/
theorem routeCreate_riskGate (c : VenueConnection) (full : Bool) (ref : BrokerOrderRef) (symbol : Nat)
    (volume : Int) (nowNs : Nat) (out : Completion) :
    (c.routeCreate full ref symbol volume nowNs out).2.2.riskGate =
      if ¬ c.Shut ∧ c.limitCreate ref nowNs symbol volume = .admitted then
        (c.gateCreate symbol volume ref).2.riskGate
      else c.riskGate := by
  unfold routeCreate limitCreate
  by_cases hshut : c.Shut
  · rw [if_pos (c.shut_iff.mp hshut), if_neg (fun h => h.1 hshut)]
  · rw [if_neg (fun h => hshut (c.shut_iff.mpr h))]
    simp only [hshut, not_false_eq_true, true_and]
    generalize c.limiter.admitRequest
      { kind := .order, ref := ref, symbol := symbol, volume := volume } nowNs = a
    obtain ⟨decision, l⟩ := a
    cases decision with
    | admitted =>
      simp only [ne_eq, not_true_eq_false, if_false, if_true]
      split <;> exact gateCreate_gate c l symbol volume ref
    | deferred => rfl
    | rejected => rfl

theorem gateUntouched_iff (c : VenueConnection) (gate : RiskLedger) (full : Bool)
    (ref : BrokerOrderRef) (symbol : Nat) (volume : Int) (nowNs : Nat) (out : Completion) :
    c.GateUntouched gate full ref symbol volume nowNs out ↔
      ¬ c.GateKeeps gate full ref symbol volume nowNs := by
  unfold GateUntouched GateKeeps
  dsimp only
  have hgate : ((c.attachRiskGate gate).routeCreate full ref symbol volume nowNs out).2.2.riskGate =
      if ¬ c.Shut ∧ c.limitCreate ref nowNs symbol volume = .admitted then
        some (gate.admitCreate c.id symbol volume ref).1
      else some gate := routeCreate_riskGate (c.attachRiskGate gate) full ref symbol volume nowNs out
  rw [hgate, routeCreate_rejected_iff]
  by_cases hreach : ¬ c.Shut ∧ c.limitCreate ref nowNs symbol volume = .admitted
  · rw [if_pos hreach]
    have hrefuses : (c.attachRiskGate gate).RefusesCreate full ref nowNs symbol volume ↔
        (gate.admitCreate c.id symbol volume ref).2 = false ∨ c.oms.RefusesCreate full ref := by
      have hlimit : (c.attachRiskGate gate).limitCreate ref nowNs symbol volume = .admitted := hreach.2
      have hopen : ¬ (c.attachRiskGate gate).Shut := hreach.1
      unfold RefusesCreate
      simp only [hlimit, hopen, false_or, true_and, reduceCtorEq]
      exact Iff.rfl
    rw [hrefuses]
    cases htaken : (gate.admitCreate c.id symbol volume ref).2 with
    | false =>
      have hsame := gate.reserve_refused _ _ _ _ _ _ htaken
      refine ⟨fun _ h => (nomatch h.2.2.1), fun _ _ => ⟨_, rfl, ?_⟩⟩
      show RiskLedger.Unchanged gate (gate.reserve _ _ _ _ _ _).1
      rw [hsame]
      exact .refl gate
    | true =>
      have hchanged := gate.reserve_changes _ _ _ _ _ _ htaken
      constructor
      · rintro h ⟨_, _, _, hrefused⟩
        obtain ⟨gate', heq, hsame⟩ := h (.inr hrefused)
        obtain rfl := Option.some.inj heq
        exact hchanged hsame
      · rintro h (hfalse | hrefused)
        · cases hfalse
        · exact absurd ⟨hreach.1, hreach.2, rfl, hrefused⟩ h
  · rw [if_neg hreach]
    exact ⟨fun _ h => hreach ⟨h.1, h.2.1⟩, fun _ _ => ⟨gate, rfl, .refl gate⟩⟩

end VenueConnection

/-! ## The router -/

namespace RiskGatedRouter

def positions (r : RiskGatedRouter) : Option (UInt64 → Nat → UInt32 × Int) :=
  r.selfTrade.map fun t => t.1.tracked

/-- The tracker has a slot for the pair and lets the create through. -/
def Records (r : RiskGatedRouter) (venue : UInt64) (symbol : Nat) (strategy : UInt32) (side : Side)
    (volume : Int) : Prop :=
  ∃ t, r.selfTrade = some t ∧ (t.1.findOrCreate venue symbol).1 ≠ none ∧
    (t.1.checkAndApply venue symbol strategy side volume).1 = true

theorem checkSelfTrade_positions (r : RiskGatedRouter) (venue : UInt64) (symbol : Nat)
    (strategy : UInt32) (side : Side) {volume : Int} (hvolume : 0 < volume) :
    (r.checkSelfTrade venue symbol strategy side volume).2.positions = r.positions ↔
      ¬ r.Records venue symbol strategy side volume := by
  unfold checkSelfTrade positions Records
  cases hs : r.selfTrade with
  | none =>
    simp only [hs, reduceCtorEq, false_and, exists_false, not_false_eq_true]
  | some t =>
    have hspec := t.2.checkAndApply_spec venue symbol strategy side volume
    simp only [Option.map_some, Option.some.injEq, exists_eq_left']
    obtain ⟨_, ⟨_, hnone, hsame⟩ | ⟨hpassed, hroom, _, hmoved⟩ | ⟨hblocked, _, hsame⟩⟩ := hspec
    · exact ⟨fun _ h => h.1 hnone, fun _ => hsame⟩
    · refine ⟨fun h _ => ?_, fun h => absurd ⟨hroom, hpassed⟩ h⟩
      have hat := hmoved venue symbol
      rw [h, if_pos ⟨rfl, rfl⟩] at hat
      have hnet := congrArg Prod.snd hat
      simp only [SelfTradeTracker.signedVolume] at hnet
      split at hnet <;> omega
    · refine ⟨fun _ h => ?_, fun _ => hsame⟩
      rw [hblocked] at h
      exact Bool.false_ne_true h.2

theorem checkSelfTrade_blocked (r : RiskGatedRouter) (venue : UInt64) (symbol : Nat)
    (strategy : UInt32) (side : Side) (volume : Int)
    (h : (r.checkSelfTrade venue symbol strategy side volume).1 = false) :
    ¬ r.Records venue symbol strategy side volume := by
  rintro ⟨t, ht, _, hpassed⟩
  unfold checkSelfTrade at h
  rw [ht] at h
  dsimp only at h
  rw [hpassed] at h
  cases h

structure NoTrace (r r' : RiskGatedRouter) : Prop where
  ledger : RiskLedger.Unchanged r.ledger r'.ledger
  positions : r'.positions = r.positions

/-- The ledger takes the reservation, the tracker records, and the venue then refuses. -/
def LeavesTrace (r : RiskGatedRouter) (strategy : UInt32) (venue : UInt64) (full : Bool)
    (ref : BrokerOrderRef) (symbol : Nat) (side : Side) (volume : Int) (nowNs : Nat) : Prop :=
  r.globallyHalted = false ∧ (r.ledger.reserve strategy venue symbol side volume ref).2 = true ∧
    r.Records venue symbol strategy side volume ∧
    ∃ conn, r.find venue = some conn ∧ conn.RefusesCreate full ref nowNs symbol volume

theorem submitCreate_noTrace_iff (r : RiskGatedRouter) (strategy : UInt32) (venue : UInt64)
    (full : Bool) (ref : BrokerOrderRef) (symbol : Nat) (side : Side) (volume : Int) (nowNs : Nat)
    (out : Completion) :
    ((r.submitCreate strategy venue full ref symbol side volume nowNs out).1 = .rejected →
      NoTrace r (r.submitCreate strategy venue full ref symbol side volume nowNs out).2.2) ↔
      ¬ r.LeavesTrace strategy venue full ref symbol side volume nowNs := by
  have hsame : NoTrace r r := ⟨.refl _, rfl⟩
  unfold submitCreate LeavesTrace
  cases hhalted : r.globallyHalted with
  | true =>
    rw [if_pos rfl]
    exact ⟨fun _ h => (nomatch h.1), fun _ _ => hsame⟩
  | false =>
    simp only [Bool.false_eq_true, if_false, true_and]
    cases hfind : r.find venue with
    | none => exact ⟨fun _ h => (nomatch h.2.2.choose_spec.1), fun _ _ => hsame⟩
    | some conn =>
      dsimp only
      cases hreserved : (r.ledger.reserve strategy venue symbol side volume ref).2 with
      | false =>
        have hledger := r.ledger.reserve_refused _ _ _ _ _ _ hreserved
        rw [if_pos rfl, hledger]
        exact ⟨fun _ h => (nomatch h.1), fun _ _ => hsame⟩
      | true =>
        rw [if_neg nofun]
        have hfresh := r.ledger.release_reserve _ _ _ _ _ _ hreserved
        obtain ⟨hledger, _⟩ := (r.setLedger (r.ledger.reserve strategy venue symbol side volume ref).1
          ).checkSelfTrade_frame venue symbol strategy side volume
        have hpositions := (r.setLedger (r.ledger.reserve strategy venue symbol side volume ref).1
          ).checkSelfTrade_positions venue symbol strategy side (r.ledger.reserve_pos hreserved)
        have hchecked := (r.setLedger (r.ledger.reserve strategy venue symbol side volume ref).1
          ).checkSelfTrade_blocked venue symbol strategy side volume
        generalize (r.setLedger (r.ledger.reserve strategy venue symbol side volume ref).1
          ).checkSelfTrade venue symbol strategy side volume = checked at hledger hpositions hchecked ⊢
        obtain ⟨passed, r'⟩ := checked
        dsimp only at hledger hpositions hchecked ⊢
        have hundone : RiskLedger.Unchanged r.ledger (r'.ledger.release ref) := by
          rw [hledger]
          exact hfresh
        cases passed with
        | false =>
          have hblocked := hchecked rfl
          rw [if_pos rfl]
          exact ⟨fun _ h => hblocked h.2.1, fun _ _ => ⟨hundone, hpositions.mpr hblocked⟩⟩
        | true =>
          rw [if_neg nofun]
          have hrefused := conn.routeCreate_rejected_iff full ref nowNs out symbol volume
          generalize conn.routeCreate full ref symbol volume nowNs out = routed at hrefused ⊢
          split
          · rename_i hnot
            dsimp only
            rw [hrefused]
            have hrecords : r'.positions = r.positions ↔
                ¬ r.Records venue symbol strategy side volume := hpositions
            have htrace : NoTrace r ((r'.setVenue routed.2.2).setLedger
                ((r'.setVenue routed.2.2).ledger.release ref)) ↔ r'.positions = r.positions :=
              ⟨fun h => h.positions, fun h => ⟨hundone, h⟩⟩
            rw [htrace, hrecords]
            constructor
            · rintro h ⟨_, hrecords, other, hother, hrefuses⟩
              obtain rfl := Option.some.inj hother
              exact h hrefuses hrecords
            · intro h hrefuses hrecords
              exact h ⟨rfl, hrecords, conn, rfl, hrefuses⟩
          · rename_i hadmitted
            refine ⟨fun _ h => ?_, fun _ h => nomatch h⟩
            obtain ⟨_, _, other, hother, hrefuses⟩ := h
            obtain rfl := Option.some.inj hother
            rw [hrefused.mpr hrefuses] at hadmitted
            exact hadmitted nofun

def CreateUntouched (r : RiskGatedRouter) (strategy : UInt32) (venue : UInt64) (full : Bool)
    (ref : BrokerOrderRef) (symbol : Nat) (side : Side) (volume : Int) (nowNs : Nat)
    (out : Completion) : Prop :=
  let s := r.submitCreate strategy venue full ref symbol side volume nowNs out
  s.1 = .rejected → NoTrace r s.2.2

/-- Exactly when a create that is refused leaves no trace, for both ways in. -/
theorem create_leaves_no_trace_iff (r : RiskGatedRouter) (c : VenueConnection) (gate : RiskLedger)
    (strategy : UInt32) (venue : UInt64) (full : Bool) (ref : BrokerOrderRef) (symbol : Nat)
    (side : Side) (volume : Int) (nowNs : Nat) (out : Completion) :
    (r.CreateUntouched strategy venue full ref symbol side volume nowNs out ↔
      ¬ r.LeavesTrace strategy venue full ref symbol side volume nowNs) ∧
    (c.GateUntouched gate full ref symbol volume nowNs out ↔
      ¬ c.GateKeeps gate full ref symbol volume nowNs) :=
  ⟨r.submitCreate_noTrace_iff strategy venue full ref symbol side volume nowNs out,
    c.gateUntouched_iff gate full ref symbol volume nowNs out⟩

def closedSession : RiskGatedRouter where
  registry := [{ id := 1, oms := .new 1 Nat.one_pos 4 4 4 4, session := { session := .closed } }]
  ledger := (((RiskLedger.new 1 1 8 {}).registerVenue 1).1.registerStrategy 5).1
  selfTrade := some ⟨{ allowCrossStrategyOpposition := false, capacity := 4 },
    SelfTradeTracker.inv_fresh false 4⟩

/-- A venue whose system already has the order, so that it refuses the second create. -/
def duplicated : VenueConnection where
  id := 1
  oms := (ShardedOms.submitCreate (.new 1 Nat.one_pos 4 4 4 4) false ⟨1, 1⟩ 0 10 {}).2.2

def venueLedger : RiskLedger := ((RiskLedger.new 0 1 8 {}).registerVenue 1).1

/-- A sell the venue refuses stays with the tracker; a create the system refuses stays with
the gate. -/
theorem create_refused_leaves_trace :
    ¬ closedSession.CreateUntouched 5 1 false ⟨1, 1⟩ 0 .sell 10 0 {} ∧
    ¬ duplicated.GateUntouched venueLedger false ⟨1, 1⟩ 0 7 0 {} := by
  refine ⟨?_, ?_⟩
  · intro h
    have hrejected : (closedSession.submitCreate 5 1 false ⟨1, 1⟩ 0 .sell 10 0 {}).1 = .rejected := by
      decide +kernel
    have hpositions := (h hrejected).positions
    have hat : (closedSession.positions.map fun f => f 1 0) = some (0, 0) := by decide +kernel
    have hafter : (((closedSession.submitCreate 5 1 false ⟨1, 1⟩ 0 .sell 10 0 {}).2.2).positions.map
        fun f => f 1 0) = some (5, -10) := by decide +kernel
    rw [hpositions, hat] at hafter
    exact absurd hafter (by decide)
  · intro h
    have hrejected : ((duplicated.attachRiskGate venueLedger).routeCreate false ⟨1, 1⟩ 0 7 0 {}).1 =
        .rejected := by decide +kernel
    obtain ⟨gate', hgate, hsame⟩ := h hrejected
    have hafter : (((duplicated.attachRiskGate venueLedger).routeCreate false ⟨1, 1⟩ 0 7 0
        {}).2.2.riskGate.map fun l => (l.dims .global).openExposure) = some 7 := by decide +kernel
    have hbefore : (venueLedger.dims .global).openExposure = 0 := by decide +kernel
    rw [hgate, Option.map_some, hsame.exposure, hbefore] at hafter
    exact absurd hafter (by decide)

end RiskGatedRouter

end MicrostructureEngine
