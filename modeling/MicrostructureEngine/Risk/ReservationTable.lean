import MicrostructureEngine.Risk.Ledger

/-!
# What a ledger call does

The reservation table is the library's linear-probing table, with `reservation_capacity_`
standing for "no slot". On top of that, one equation or one case analysis for each call:
the later proofs use these and never look at the loops.
-/

namespace MicrostructureEngine

open Probing AllOrNothing
set_option autoImplicit false

def Reservation.key (r : Reservation) : Option BrokerOrderRef :=
  if r.occupied then some r.ref else none

theorem Reservation.key_eq_some_iff {r : Reservation} {ref : BrokerOrderRef} :
    r.key = some ref ↔ r.occupied = true ∧ r.ref = ref := by
  unfold Reservation.key
  cases r.occupied <;> simp

theorem Reservation.key_eq_none_iff {r : Reservation} : r.key = none ↔ r.occupied = false := by
  unfold Reservation.key
  cases r.occupied <;> simp

namespace RiskLedger

def slotKey (l : RiskLedger) (p : Nat) : Option BrokerOrderRef := (l.reservations p).key

/-- The table as the library sees it. -/
def lookup (l : RiskLedger) (ref : BrokerOrderRef) : Option Nat :=
  locate l.reservationCapacity home l.slotKey ref

theorem probe_eq (l : RiskLedger) (ref : BrokerOrderRef) :
    l.probe ref = (l.lookup ref).getD l.reservationCapacity := by
  unfold probe lookup locate
  dsimp only
  congr 2
  funext i
  have hpos : (home ref % l.reservationCapacity + i) % l.reservationCapacity =
      Probing.probe l.reservationCapacity (home ref) i := by
    unfold Probing.probe
    rw [Nat.mod_add_mod]
  rw [hpos]
  generalize Probing.probe l.reservationCapacity (home ref) i = p
  have hiff : ((l.reservations p).occupied = false ∨ (l.reservations p).ref = ref) ↔
      (l.slotKey p = none ∨ l.slotKey p = some ref) := by
    unfold slotKey Reservation.key
    cases (l.reservations p).occupied <;> simp
  simp only [hiff]

theorem lookup_lt {l : RiskLedger} {ref : BrokerOrderRef} {p : Nat} (h : l.lookup ref = some p) :
    p < l.reservationCapacity :=
  (locate_eq_some_iff.mp h).1

theorem findReservation_eq_some_iff {l : RiskLedger} {ref : BrokerOrderRef} {p : Nat} :
    l.findReservation ref = some p ↔ l.lookup ref = some p ∧ l.slotKey p = some ref := by
  unfold findReservation
  rw [probe_eq]
  cases hl : l.lookup ref with
  | none => simp
  | some q =>
    have hq := lookup_lt hl
    obtain ⟨_, hkey, _⟩ := locate_eq_some_iff.mp hl
    simp only [Option.getD_some, Option.some.injEq]
    constructor
    · intro h
      split at h
      · rename_i hocc
        obtain rfl := Option.some.inj h
        refine ⟨rfl, hkey.resolve_left ?_⟩
        rw [slotKey, Reservation.key_eq_none_iff, hocc.2]
        simp
      · cases h
    · rintro ⟨rfl, hstored⟩
      rw [if_pos ⟨by omega, (Reservation.key_eq_some_iff.mp hstored).1⟩]

theorem findReservation_eq_none {l : RiskLedger} {ref : BrokerOrderRef} {p : Nat}
    (hl : l.lookup ref = some p) (hfree : l.slotKey p = none) : l.findReservation ref = none := by
  cases hf : l.findReservation ref with
  | none => rfl
  | some q =>
    obtain ⟨hq, hkey⟩ := findReservation_eq_some_iff.mp hf
    rw [hl, Option.some.injEq] at hq
    rw [← hq, hfree] at hkey
    cases hkey

theorem allocateReservation_cases (l : RiskLedger) (ref : BrokerOrderRef) :
    l.allocateReservation ref = none ∨
    ∃ p, l.lookup ref = some p ∧ l.slotKey p = none ∧
      l.allocateReservation ref = some ({ l.setReservation p
        { l.reservations p with occupied := true } with
          reservationLiveCount := l.reservationLiveCount + 1 }, p) := by
  unfold allocateReservation
  rw [probe_eq]
  cases hl : l.lookup ref with
  | none =>
    left
    simp
  | some p =>
    have hp := lookup_lt hl
    dsimp only [Option.getD_some]
    split
    · exact Or.inl rfl
    · rename_i hfree
      right
      refine ⟨p, rfl, ?_, rfl⟩
      rw [slotKey, Reservation.key_eq_none_iff]
      simpa using (not_or.mp hfree).2

section Slots
variable {α : Type} [DecidableEq α] {n : Nat} {ids : Nat → Option α} {id : α} {i : Nat}

theorem findSlot_eq_some (h : findSlot n ids id = some i) :
    i < n ∧ ids i = some id ∧ ∀ j < i, ids j ≠ some id := by
  obtain ⟨k, hk, hhit, hbefore⟩ := scan_eq_some_iff.mp h
  split at hhit
  · rename_i hid
    obtain rfl := Option.some.inj hhit
    refine ⟨hk, hid, ?_⟩
    intro j hj hjd
    have := hbefore j hj
    rw [if_pos hjd] at this
    cases this
  · cases hhit

theorem freeSlot_eq_some (h : freeSlot n ids = some i) : ids i = none := by
  obtain ⟨k, _, hhit, _⟩ := scan_eq_some_iff.mp h
  split at hhit
  · rename_i hid
    obtain rfl := Option.some.inj hhit
    exact hid
  · cases hhit

/-- Registering someone else in a free slot does not move a registered id. -/
theorem findSlot_register (hfree : ids i = none) {other : α} (hnew : findSlot n ids id = none)
    {j : Nat} (h : findSlot n ids other = some j) :
    findSlot n (Function.update ids i (some id)) other = some j := by
  obtain ⟨hj, hid, hbefore⟩ := findSlot_eq_some h
  have hne : id ≠ other := by
    rintro rfl
    rw [hnew] at h
    cases h
  have hji : j ≠ i := by
    rintro rfl
    rw [hfree] at hid
    cases hid
  refine scan_eq_some_iff.mpr ⟨j, hj, ?_, ?_⟩
  · rw [Function.update_of_ne hji, if_pos hid]
  · intro k hk
    rw [if_neg]
    by_cases hki : k = i
    · rw [hki, Function.update_self, Option.some.injEq]
      exact hne
    · rw [Function.update_of_ne hki]
      exact hbefore k hk

end Slots

theorem registerStrategy_cases (l : RiskLedger) (id : UInt32) :
    (l.registerStrategy id).1 = l ∨
    ∃ i, id ≠ unattributedStrategy ∧ l.findStrategySlot id = none ∧ l.strategyIds i = none ∧
      (l.registerStrategy id).1 =
        { l with strategyIds := Function.update l.strategyIds i (some id) } := by
  unfold registerStrategy
  split
  · exact Or.inl rfl
  · rename_i hid
    split
    · exact Or.inl rfl
    · rename_i hnew
      split
      · rename_i i hfree
        exact Or.inr ⟨i, hid, by simpa using hnew, freeSlot_eq_some hfree, rfl⟩
      · exact Or.inl rfl

theorem registerVenue_cases (l : RiskLedger) (id : UInt64) :
    (l.registerVenue id).1 = l ∨
    ∃ i, l.findVenueSlot id = none ∧ l.venueIds i = none ∧
      (l.registerVenue id).1 = { l with venueIds := Function.update l.venueIds i (some id) } := by
  unfold registerVenue
  split
  · exact Or.inl rfl
  · rename_i hnew
    split
    · rename_i i hfree
      exact Or.inr ⟨i, by simpa using hnew, freeSlot_eq_some hfree, rfl⟩
    · exact Or.inl rfl

/-- The order's strategy, venue and symbol are known to the ledger. -/
structure Known (l : RiskLedger) (r : Reservation) : Prop where
  strategy : r.strategy = unattributedStrategy ∨ ∃ i, l.findStrategySlot r.strategy = some i
  venue : ∃ i, l.findVenueSlot r.venue = some i
  symbol : r.symbol < maxSymbols

/-- A ledger that finds every registered id where `l` does knows what `l` knows. -/
theorem Known.imp {l l' : RiskLedger} {r : Reservation} (h : l.Known r)
    (hstrategies : ∀ id i, l.findStrategySlot id = some i → l'.findStrategySlot id = some i)
    (hvenues : ∀ id i, l.findVenueSlot id = some i → l'.findVenueSlot id = some i) : l'.Known r where
  strategy := h.strategy.imp id fun ⟨i, hi⟩ => ⟨i, hstrategies _ i hi⟩
  venue := h.venue.imp fun i hi => hvenues _ i hi
  symbol := h.symbol

theorem Known.dimsFor_eq {l l' : RiskLedger} {r : Reservation} (h : l.Known r)
    (hstrategies : ∀ id i, l.findStrategySlot id = some i → l'.findStrategySlot id = some i)
    (hvenues : ∀ id i, l.findVenueSlot id = some i → l'.findVenueSlot id = some i) :
    l'.dimsFor r = l.dimsFor r := by
  obtain ⟨v, hv⟩ := h.venue
  unfold dimsFor
  rw [hv, hvenues _ _ hv]
  rcases h.strategy with hzero | ⟨i, hi⟩
  · simp only [hzero, ne_eq, not_true_eq_false, if_false]
  · rw [hi, hstrategies _ _ hi]

theorem dimsFor_nodup (l : RiskLedger) (r : Reservation) : (l.dimsFor r).Nodup := by
  unfold dimsFor
  cases l.findStrategySlot r.strategy <;> cases l.findVenueSlot r.venue <;>
    by_cases hs : r.strategy ≠ unattributedStrategy <;> by_cases hm : r.symbol < maxSymbols <;>
    simp [hs, hm]

section Members
variable {l : RiskLedger} {r : Reservation} {i : Nat}

theorem strategy_mem_dimsFor :
    Dimension.strategy i ∈ l.dimsFor r ↔
      r.strategy ≠ unattributedStrategy ∧ l.findStrategySlot r.strategy = some i := by
  unfold dimsFor
  by_cases hs : r.strategy = unattributedStrategy <;> simp [hs]

theorem venue_mem_dimsFor :
    Dimension.venue i ∈ l.dimsFor r ↔ l.findVenueSlot r.venue = some i := by
  unfold dimsFor
  split <;> simp

theorem symbol_mem_dimsFor :
    Dimension.symbol i ∈ l.dimsFor r ↔ r.symbol = i ∧ r.symbol < maxSymbols := by
  unfold dimsFor
  by_cases hm : r.symbol < maxSymbols
  · simp [hm, eq_comm]
  · simp [hm]

theorem global_mem_dimsFor : Dimension.global ∈ l.dimsFor r := by
  simp [dimsFor]

end Members

/-- What `reserve` writes into the table. -/
def booked (strategy : UInt32) (venue : UInt64) (symbol : Nat) (side : Side) (volume : Int)
    (ref : BrokerOrderRef) : Reservation where
  occupied := true
  ref := ref
  strategy := strategy
  venue := venue
  symbol := symbol
  side := side
  requestedVolume := volume
  lastKnownFilled := 0
  creditReserved := volume
  creditReleased := false
  active := true

end RiskLedger

/-- A reservation takes exposure and credit together. -/
def DimensionState.hold (volume : Int) (s : DimensionState) : DimensionState :=
  { s with openExposure := s.openExposure + volume, creditRemaining := s.creditRemaining - volume }

/-- A release gives back what is still open and the whole credit. -/
def DimensionState.free (remaining credit : Int) (s : DimensionState) : DimensionState :=
  { s with openExposure := s.openExposure - remaining, creditRemaining := s.creditRemaining + credit }

theorem subExposure_addExposure (volume : Int) :
    Function.LeftInverse (DimensionState.subExposure volume) (.addExposure volume) := by
  intro s
  simp [DimensionState.subExposure, DimensionState.addExposure]

theorem addCredit_subCredit (cost : Int) :
    Function.LeftInverse (DimensionState.addCredit cost) (.subCredit cost) := by
  intro s
  simp [DimensionState.addCredit, DimensionState.subCredit]

/-- Undoing credit and exposure undoes a hold. -/
theorem free_hold (volume : Int) :
    (DimensionState.addCredit volume ∘ DimensionState.subExposure volume) ∘
      DimensionState.hold volume = id := by
  funext s
  simp [DimensionState.addCredit, DimensionState.subExposure, DimensionState.hold]

theorem reserveExposure_cases (st : Dimensions) (dims : List (Dimension × DimensionLimits))
    (volume : Int) :
    reserveExposure st dims volume = (st, false) ∨
    (reserveExposure st dims volume = (touchAll (.addExposure volume) st (dims.map Prod.fst), true) ∧
      ((dims.map Prod.fst).Nodup →
        ∀ e ∈ dims, (st e.1).openExposure + volume ≤ e.2.openOrderLimit)) := by
  rcases attempt_cases (subExposure_addExposure volume) st dims with h | ⟨h, hwithin⟩
  · exact Or.inl h
  · refine Or.inr ⟨h, fun hnd e he => ?_⟩
    have := hwithin hnd e he
    simpa [DimensionState.addExposure] using this

theorem reserveCredit_cases (st : Dimensions) (dims : List (Dimension × DimensionLimits))
    (cost : Int) :
    reserveCredit st dims cost = (st, false) ∨
    (reserveCredit st dims cost = (touchAll (.subCredit cost) st (dims.map Prod.fst), true) ∧
      ((dims.map Prod.fst).Nodup → ∀ e ∈ dims, cost ≤ (st e.1).creditRemaining)) := by
  rcases attempt_cases (addCredit_subCredit cost) st dims with h | ⟨h, hwithin⟩
  · exact Or.inl h
  · refine Or.inr ⟨h, fun hnd e he => ?_⟩
    have := of_decide_eq_false (hwithin hnd e he)
    simp only [DimensionState.subCredit] at this
    omega

namespace RiskLedger

/-- The guards a successful `reserve` has passed. -/
structure Admitted (l : RiskLedger) (r : Reservation) : Prop where
  volume_pos : 0 < r.requestedVolume
  volume_le : r.requestedVolume ≤ l.config.maxOrderVolume
  known : l.Known r
  within : ∀ d ∈ l.dimsFor r,
    (l.dims d).openExposure + r.requestedVolume ≤ (l.config.limits d).openOrderLimit ∧
      r.requestedVolume ≤ (l.dims d).creditRemaining

/-- The ledger after `r` was booked into slot `p`. -/
def book (l : RiskLedger) (p : Nat) (r : Reservation) : RiskLedger :=
  { l with
    dims := touchAll (.hold r.requestedVolume) l.dims (l.dimsFor r)
    reservations := Function.update l.reservations p r
    reservationLiveCount := l.reservationLiveCount + 1 }

/-- The dimensions `reserve` lists are those `dims_for` will list for the reservation. -/
theorem reserve_dims {l : RiskLedger} {strategySlot : Option Nat} {venueSlot : Nat} {r : Reservation}
    (hstrategy : strategySlot =
      if r.strategy = unattributedStrategy then none else l.findStrategySlot r.strategy)
    (hvenue : l.findVenueSlot r.venue = some venueSlot) (hsymbol : r.symbol < maxSymbols) :
    strategySlot.toList.map (fun s => (Dimension.strategy s, l.config.perStrategy)) ++
        [(.symbol r.symbol, l.config.perSymbol), (.venue venueSlot, l.config.perVenue),
          (.global, l.config.global)] =
      (l.dimsFor r).map fun d => (d, l.config.limits d) := by
  subst hstrategy
  unfold dimsFor
  by_cases hs : r.strategy = unattributedStrategy
  · simp [hs, hvenue, hsymbol, RiskLedgerConfig.limits]
  · cases l.findStrategySlot r.strategy <;> simp [hs, hvenue, hsymbol, RiskLedgerConfig.limits]

/-- Past the guards a call either changes nothing or books its reservation. -/
theorem reserveDims_cases (l : RiskLedger) (strategy : UInt32) (venue : UInt64) (symbol : Nat)
    (side : Side) (volume : Int) (ref : BrokerOrderRef) {dims : List (Dimension × DimensionLimits)}
    (hnd : (dims.map Prod.fst).Nodup) :
    l.reserveDims dims strategy venue symbol side volume ref = (l, false) ∨
    ∃ p, l.lookup ref = some p ∧ l.slotKey p = none ∧
      (∀ e ∈ dims, (l.dims e.1).openExposure + volume ≤ e.2.openOrderLimit ∧
        volume ≤ (l.dims e.1).creditRemaining) ∧
      l.reserveDims dims strategy venue symbol side volume ref =
        ({ l with
          dims := touchAll (.hold volume) l.dims (dims.map Prod.fst)
          reservations := Function.update l.reservations p
            (booked strategy venue symbol side volume ref)
          reservationLiveCount := l.reservationLiveCount + 1 }, true) := by
  unfold reserveDims
  rcases reserveExposure_cases l.dims dims volume with hexposure | ⟨hexposure, hlimit⟩
  · rw [hexposure]
    exact Or.inl rfl
  rw [hexposure]
  dsimp only
  rw [if_neg (by simp)]
  rcases reserveCredit_cases (touchAll (.addExposure volume) l.dims (dims.map Prod.fst)) dims volume
    with hcredit | ⟨hcredit, hbudget⟩
  · left
    rw [hcredit]
    dsimp only
    rw [if_pos rfl, unwindExposure, touchAll_undo (subExposure_addExposure volume)]
  have hhold : touchAll (.subCredit volume)
      (touchAll (.addExposure volume) l.dims (dims.map Prod.fst)) (dims.map Prod.fst) =
      touchAll (.hold volume) l.dims (dims.map Prod.fst) := touchAll_comp l.dims hnd
  rw [hcredit, hhold]
  dsimp only
  rw [if_neg (by simp)]
  -- The table decides: its slots do not depend on the counters.
  generalize hcharged : touchAll (DimensionState.hold volume) l.dims (dims.map Prod.fst) = charged
  rcases allocateReservation_cases { l with dims := charged } ref
    with hslot | ⟨p, hlookup, hfree, hslot⟩
  · left
    rw [hslot]
    dsimp only
    rw [unwindCredit, unwindExposure, ← hcharged, touchAll_comp _ hnd, touchAll_comp _ hnd,
      free_hold, touchAll_id]
  · right
    refine ⟨p, hlookup, hfree, ?_, ?_⟩
    · intro e he
      refine ⟨hlimit hnd e he, ?_⟩
      have := hbudget hnd e he
      rw [touchAll_of_nodup _ _ hnd] at this
      split at this <;> exact this
    · rw [hslot]
      simp only [setReservation, Function.update_self, Function.update_idem]
      rfl

theorem reserve_cases (l : RiskLedger) (strategy : UInt32) (venue : UInt64) (symbol : Nat)
    (side : Side) (volume : Int) (ref : BrokerOrderRef) :
    l.reserve strategy venue symbol side volume ref = (l, false) ∨
    ∃ p, l.lookup ref = some p ∧ l.slotKey p = none ∧
      l.Admitted (booked strategy venue symbol side volume ref) ∧
      l.reserve strategy venue symbol side volume ref =
        (l.book p (booked strategy venue symbol side volume ref), true) := by
  unfold reserve
  dsimp only
  generalize hslot : (if strategy = unattributedStrategy then none
    else l.findStrategySlot strategy) = strategySlot
  split
  · exact Or.inl rfl
  rename_i hvolume
  split
  · exact Or.inl rfl
  split
  · exact Or.inl rfl
  rename_i hstrategy
  split
  · exact Or.inl rfl
  rename_i venueSlot hvenue
  split
  · exact Or.inl rfl
  rename_i hsymbol
  split
  · exact Or.inl rfl
  have hlt : symbol < maxSymbols := Nat.lt_of_not_ge hsymbol
  have hdims : strategySlot.toList.map (fun s => (Dimension.strategy s, l.config.perStrategy)) ++
      [(.symbol symbol, l.config.perSymbol), (.venue venueSlot, l.config.perVenue),
        (.global, l.config.global)] =
      (l.dimsFor (booked strategy venue symbol side volume ref)).map
        fun d => (d, l.config.limits d) :=
    reserve_dims (r := booked strategy venue symbol side volume ref) hslot.symm hvenue hlt
  rw [hdims]
  have hfst : ((l.dimsFor (booked strategy venue symbol side volume ref)).map
      fun d => (d, l.config.limits d)).map Prod.fst =
      l.dimsFor (booked strategy venue symbol side volume ref) := by
    simp [Function.comp_def]
  have hnd := l.dimsFor_nodup (booked strategy venue symbol side volume ref)
  rcases l.reserveDims_cases strategy venue symbol side volume ref (hfst.symm ▸ hnd)
    with hfail | ⟨p, hlookup, hfree, hwithin, hdone⟩
  · exact Or.inl hfail
  · refine Or.inr ⟨p, hlookup, hfree, ⟨?_, ?_, ⟨?_, ⟨venueSlot, hvenue⟩, hlt⟩, ?_⟩, ?_⟩
    · exact Int.lt_of_not_ge (not_or.mp hvolume).1
    · exact Int.le_of_not_gt (not_or.mp hvolume).2
    · by_cases hs : strategy = unattributedStrategy
      · exact Or.inl hs
      · rw [if_neg hs] at hslot
        cases hfound : strategySlot with
        | none => exact absurd ⟨hs, hfound⟩ hstrategy
        | some i => exact Or.inr ⟨i, by rw [← hfound]; exact hslot⟩
    · intro d hd
      exact hwithin (d, l.config.limits d) (List.mem_map.mpr ⟨d, hd, rfl⟩)
    · rw [hdone, hfst]
      rfl

theorem reserve_refused (l : RiskLedger) (strategy : UInt32) (venue : UInt64) (symbol : Nat)
    (side : Side) (volume : Int) (ref : BrokerOrderRef)
    (h : (l.reserve strategy venue symbol side volume ref).2 = false) :
    (l.reserve strategy venue symbol side volume ref).1 = l := by
  rcases l.reserve_cases strategy venue symbol side volume ref with hfail | ⟨p, _, _, _, hdone⟩
  · rw [hfail]
  · rw [hdone] at h
    cases h

theorem findReservation_congr {l l' : RiskLedger}
    (hcap : l'.reservationCapacity = l.reservationCapacity) (hkeys : l'.slotKey = l.slotKey)
    (ref : BrokerOrderRef) : l'.findReservation ref = l.findReservation ref := by
  have hlookup : l'.lookup ref = l.lookup ref := by
    unfold lookup
    rw [hcap, hkeys]
  apply Option.ext
  intro p
  rw [findReservation_eq_some_iff, findReservation_eq_some_iff, hlookup, hkeys]

theorem slotKey_setReservation (l : RiskLedger) (p : Nat) (r : Reservation) :
    (l.setReservation p r).slotKey = Function.update l.slotKey p r.key := by
  funext q
  by_cases hq : q = p
  · simp [slotKey, setReservation, hq]
  · simp [slotKey, setReservation, Function.update_of_ne hq]

theorem freeReservation_eq {l : RiskLedger} {ref : BrokerOrderRef} {p : Nat}
    (h : l.findReservation ref = some p) :
    l.freeReservation ref =
      { l.setReservation p {} with reservationLiveCount := l.reservationLiveCount - 1 } := by
  unfold findReservation at h
  unfold freeReservation
  dsimp only at h ⊢
  split at h
  · rename_i hfound
    obtain rfl := Option.some.inj h
    rw [if_pos hfound]
  · cases h

/-- The end of `release`: the slot of a reservation that was just retired is blanked. -/
theorem freeReservation_retired {l : RiskLedger} {ref : BrokerOrderRef} {p : Nat}
    (hf : l.findReservation ref = some p) (dims : Dimensions) :
    freeReservation { l.setReservation p
        { l.reservations p with creditReleased := true, active := false } with dims := dims } ref =
      { l with
        dims := dims
        reservations := Function.update l.reservations p {}
        reservationLiveCount := l.reservationLiveCount - 1 } := by
  have hkeys : (l.setReservation p
      { l.reservations p with creditReleased := true, active := false }).slotKey = l.slotKey := by
    rw [slotKey_setReservation]
    have hkey : Reservation.key { l.reservations p with creditReleased := true, active := false } =
        l.slotKey p := rfl
    rw [hkey, Function.update_eq_self]
  have hfind : RiskLedger.findReservation { l.setReservation p
      { l.reservations p with creditReleased := true, active := false } with dims := dims } ref =
      some p := by
    refine (findReservation_congr (l := l) ?_ ?_ ref).trans hf
    · rfl
    · exact hkeys
  rw [freeReservation_eq hfind]
  simp only [setReservation, Function.update_idem]

end RiskLedger

/-- A reservation that still holds its credit and at least no exposure. -/
structure Reservation.Open (r : Reservation) : Prop where
  occupied : r.occupied = true
  active : r.active = true
  credit : r.creditReleased = false
  filled_le : r.lastKnownFilled ≤ r.requestedVolume

namespace RiskLedger

/-- The ledger after the reservation in slot `p` was released. -/
def vacate (l : RiskLedger) (p : Nat) : RiskLedger :=
  let r := l.reservations p
  { l with
    dims := touchAll (.free (r.requestedVolume - r.lastKnownFilled) r.creditReserved) l.dims
      (l.dimsFor r)
    reservations := Function.update l.reservations p {}
    reservationLiveCount := l.reservationLiveCount - 1 }

theorem release_of_none {l : RiskLedger} {ref : BrokerOrderRef}
    (h : l.findReservation ref = none) : l.release ref = l := by
  unfold release
  rw [h]

theorem release_eq {l : RiskLedger} {ref : BrokerOrderRef} {p : Nat}
    (hf : l.findReservation ref = some p) (ho : (l.reservations p).Open) :
    l.release ref = l.vacate p := by
  unfold release
  rw [hf]
  dsimp only
  rw [if_neg (by simp [ho.active]), if_pos ho.credit]
  generalize hr : l.reservations p = r
  rw [hr] at ho
  -- Nothing left to give back is the same as giving back zero.
  have hunwound : (if r.requestedVolume - r.lastKnownFilled > 0 then
      unwindExposure l.dims (l.dimsFor r) (r.requestedVolume - r.lastKnownFilled) else l.dims) =
      touchAll (.subExposure (r.requestedVolume - r.lastKnownFilled)) l.dims (l.dimsFor r) := by
    split
    · rfl
    · have hzero : r.requestedVolume - r.lastKnownFilled = 0 := by
        have := ho.filled_le
        omega
      have hid : DimensionState.subExposure 0 = id := by
        funext s
        simp [DimensionState.subExposure]
      rw [hzero, hid, touchAll_id]
  rw [hunwound, unwindCredit, touchAll_comp _ (l.dimsFor_nodup r)]
  subst hr
  exact freeReservation_retired hf _

/-- The ledger after the order in slot `p` was seen filled up to `filled`. -/
def observe (l : RiskLedger) (p : Nat) (filled : Int) : RiskLedger :=
  let r := l.reservations p
  let delta := filled - r.lastKnownFilled
  { l with
    dims := touchAll (.settle delta (if r.side = .buy then delta else -delta)) l.dims (l.dimsFor r)
    reservations := Function.update l.reservations p { r with lastKnownFilled := filled } }

theorem reconcile_of_none {l : RiskLedger} {ref : BrokerOrderRef}
    (h : l.findReservation ref = none) (filled : Int) (gone : Bool) :
    l.reconcile ref filled gone = l := by
  unfold reconcile
  rw [h]

theorem observe_same {l : RiskLedger} {p : Nat} :
    l.observe p (l.reservations p).lastKnownFilled = l := by
  have hid : DimensionState.settle 0 0 = id := by
    funext s
    simp [DimensionState.settle]
  unfold observe
  simp only [Int.sub_self, Int.neg_zero, ite_self, hid, touchAll_id, Function.update_eq_self]

theorem reconcile_eq {l : RiskLedger} {ref : BrokerOrderRef} {p : Nat} {filled : Int}
    (hf : l.findReservation ref = some p) (ho : (l.reservations p).Open)
    (hmono : (l.reservations p).lastKnownFilled ≤ filled) (gone : Bool) :
    l.reconcile ref filled gone =
      if gone then (l.observe p filled).release ref else l.observe p filled := by
  unfold reconcile
  rw [hf]
  dsimp only
  rw [if_neg (by simp [ho.active])]
  by_cases hdelta : filled - (l.reservations p).lastKnownFilled > 0
  · rw [if_pos hdelta]
    rfl
  · have hsame : filled = (l.reservations p).lastKnownFilled := by omega
    rw [if_neg hdelta, hsame, observe_same]

theorem slotKey_observe (l : RiskLedger) (p : Nat) (filled : Int) :
    (l.observe p filled).slotKey = l.slotKey := by
  funext q
  by_cases hq : q = p
  · subst hq
    simp only [slotKey, observe, Function.update_self]
    rfl
  · simp only [slotKey, observe, Function.update_of_ne hq]

theorem slotKey_vacate (l : RiskLedger) (p : Nat) :
    (l.vacate p).slotKey = Function.update l.slotKey p none :=
  slotKey_setReservation l p {}

theorem slotKey_book (l : RiskLedger) (p : Nat) (r : Reservation) :
    (l.book p r).slotKey = Function.update l.slotKey p r.key :=
  slotKey_setReservation l p r

theorem findReservation_book {l : RiskLedger} {ref : BrokerOrderRef} {p : Nat} {r : Reservation}
    (hlookup : l.lookup ref = some p) (hkey : r.key = some ref) :
    (l.book p r).findReservation ref = some p := by
  have hkeys := l.slotKey_book p r
  rw [hkey] at hkeys
  refine findReservation_eq_some_iff.mpr ⟨?_, ?_⟩
  · unfold lookup
    rw [hkeys]
    exact locate_insert hlookup
  · rw [hkeys, Function.update_self]

/-- Releasing what was just booked gives back every counter and blanks the slot again. -/
theorem release_book {l : RiskLedger} {ref : BrokerOrderRef} {p : Nat} {r : Reservation}
    (hlookup : l.lookup ref = some p) (hkey : r.key = some ref) (hopen : r.Open)
    (hfilled : r.lastKnownFilled = 0) (hcredit : r.creditReserved = r.requestedVolume) :
    (l.book p r).release ref = { l with reservations := Function.update l.reservations p {} } := by
  have hslot : (l.book p r).reservations p = r := Function.update_self ..
  have hundo : Function.LeftInverse (DimensionState.free r.requestedVolume r.requestedVolume)
      (.hold r.requestedVolume) := by
    intro s
    simp [DimensionState.free, DimensionState.hold]
  rw [release_eq (findReservation_book hlookup hkey) (by rw [hslot]; exact hopen)]
  unfold vacate
  rw [hslot]
  dsimp only
  rw [hfilled, hcredit, Int.sub_zero]
  have hdims : touchAll (.free r.requestedVolume r.requestedVolume) (l.book p r).dims
      ((l.book p r).dimsFor r) = l.dims := touchAll_undo hundo l.dims _
  rw [hdims]
  unfold book
  simp only [Function.update_idem, Nat.add_sub_cancel]

end RiskLedger

end MicrostructureEngine
