import Mathlib.Algebra.Order.BigOperators.Group.Finset
import MicrostructureEngine.Risk.Resize

/-!
# Attributing a reservation afterwards

`attribute_strategy` changes the owner of a reservation and no counter. The calls that follow read
the dimensions of the reservation off its new owner, and so give back to a strategy what it was never
charged. The counters of a strategy are related here to the slots of the table themselves: no lookup
is relied on, and no two references need to be kept apart.
-/

namespace MicrostructureEngine

open AllOrNothing
set_option autoImplicit false

def Reservation.unfilled (r : Reservation) : Int := r.requestedVolume - r.lastKnownFilled

namespace RiskLedger

inductive AttributionCall where
  | registerStrategy (id : UInt32)
  | registerVenue (id : UInt64)
  | admitCreate (venue : UInt64) (symbol : Nat) (volume : Int) (ref : BrokerOrderRef)
  | rebuildFromSnapshot (venue : UInt64) (orders : List Order)
  | reserve (strategy : UInt32) (venue : UInt64) (symbol : Nat) (side : Side) (volume : Int)
      (ref : BrokerOrderRef)
  | attributeStrategy (ref : BrokerOrderRef) (strategy : UInt32)
  | reconcile (ref : BrokerOrderRef) (currentFilledVolume : Int) (isTerminalOrGone : Bool)
  | adjustReplace (ref : BrokerOrderRef) (newVolume : Int)
  | release (ref : BrokerOrderRef)
  deriving DecidableEq, Repr

def call (l : RiskLedger) : AttributionCall → RiskLedger
  | .registerStrategy id => (l.registerStrategy id).1
  | .registerVenue id => (l.registerVenue id).1
  | .admitCreate venue symbol volume ref => (l.admitCreate venue symbol volume ref).1
  | .rebuildFromSnapshot venue orders => l.rebuildFromSnapshot venue orders
  | .reserve strategy venue symbol side volume ref => (l.reserve strategy venue symbol side volume ref).1
  | .attributeStrategy ref strategy => (l.attributeStrategy ref strategy).1
  | .reconcile ref filled gone => l.reconcile ref filled gone
  | .adjustReplace ref newVolume => (l.adjustReplace ref newVolume).1
  | .release ref => l.release ref

/-- The unfilled volume of the active reservations that are attributed to a strategy. -/
def attributedVolume (l : RiskLedger) (id : UInt32) : Int :=
  ∑ p ∈ Finset.range l.reservationCapacity,
    if (l.reservations p).active = true ∧ (l.reservations p).strategy = id then (l.reservations p).unfilled else 0

structure StrategyKept (l : RiskLedger) (id : UInt32) (s : DimensionState) : Prop where
  exposure : s.openExposure = l.attributedVolume id
  nonneg : 0 ≤ s.openExposure
  credit : s.creditRemaining ≤ l.config.perStrategy.creditBudget

def StrategiesKept (l : RiskLedger) : Prop := ∀ id s, l.strategyState id = some s → l.StrategyKept id s

/-- A reservation is attributed to a registered strategy. -/
def ToRegistered (l : RiskLedger) : AttributionCall → Prop
  | .attributeStrategy _ strategy => (l.findStrategySlot strategy).isSome = true
  | _ => True

/-- A reservation that gets an owner has nothing left to fill and holds no credit; one that has an owner
is not filled beyond its volume, nor resized below its fills. -/
def Settled (l : RiskLedger) : AttributionCall → Prop
  | .attributeStrategy ref _ => ∀ p ∈ l.findReservation ref,
      (l.reservations p).strategy = unattributedStrategy →
        (l.reservations p).unfilled = 0 ∧ (l.reservations p).creditReserved = 0
  | .reconcile ref filled _ => ∀ p ∈ l.findReservation ref,
      (l.reservations p).strategy ≠ unattributedStrategy → filled ≤ (l.reservations p).requestedVolume
  | .adjustReplace ref newVolume => ∀ p ∈ l.findReservation ref,
      (l.reservations p).strategy ≠ unattributedStrategy → (l.reservations p).lastKnownFilled ≤ newVolume
  | _ => True

instance (l : RiskLedger) (c : AttributionCall) : Decidable (l.ToRegistered c) := by
  unfold ToRegistered
  split <;> infer_instance

instance (l : RiskLedger) (c : AttributionCall) : Decidable (l.Settled c) := by
  unfold Settled
  split <;> infer_instance

/-! ## The counters of a strategy as sums over the table -/

/-- What a reservation counts for in a strategy slot. -/
def slotShare (l : RiskLedger) (i : Nat) (f : Reservation → Int) (r : Reservation) : Int :=
  if r.active = true ∧ Dimension.strategy i ∈ l.dimsFor r then f r else 0

structure Accounted (l : RiskLedger) (r : Reservation) : Prop where
  occupied : r.occupied = true
  known : l.Known r
  credit : 0 ≤ r.creditReserved
  released : r.creditReleased = true → r.creditReserved = 0
  filled : r.strategy ≠ unattributedStrategy → r.lastKnownFilled ≤ r.requestedVolume

structure Attributed (l : RiskLedger) : Prop where
  ids : ∀ i, l.strategyIds i ≠ some unattributedStrategy
  accounted : ∀ p, (l.reservations p).active = true → l.Accounted (l.reservations p)
  exposure : ∀ i, (l.dims (.strategy i)).openExposure =
    ∑ p ∈ Finset.range l.reservationCapacity, l.slotShare i Reservation.unfilled (l.reservations p)
  credit : ∀ i, (l.dims (.strategy i)).creditRemaining = l.config.perStrategy.creditBudget -
    ∑ p ∈ Finset.range l.reservationCapacity, l.slotShare i Reservation.creditReserved (l.reservations p)

section Reading
variable {l : RiskLedger} {i : Nat} {id : UInt32} {r : Reservation}

theorem slotShare_nonneg {f : Reservation → Int}
    (h : r.active = true → r.strategy ≠ unattributedStrategy → 0 ≤ f r) : 0 ≤ l.slotShare i f r := by
  unfold slotShare
  split
  · rename_i hshare
    exact h hshare.1 (strategy_mem_dimsFor.mp hshare.2).1
  · exact Int.le_refl 0

theorem Attributed.kept (h : l.Attributed) : l.StrategiesKept := by
  intro id s hs
  obtain ⟨i, hi, rfl⟩ := Option.map_eq_some_iff.mp hs
  have hid := (findSlot_eq_some hi).2.1
  have hne : id ≠ unattributedStrategy := by
    rintro rfl
    exact h.ids i hid
  have howned : ∀ r : Reservation, Dimension.strategy i ∈ l.dimsFor r ↔ r.strategy = id := by
    intro r
    rw [strategy_mem_dimsFor]
    constructor
    · rintro ⟨-, hslot⟩
      have hother := (findSlot_eq_some hslot).2.1
      rw [hid] at hother
      exact (Option.some.inj hother).symm
    · rintro rfl
      exact ⟨hne, hi⟩
  refine ⟨?_, ?_, ?_⟩
  · rw [h.exposure i]
    unfold attributedVolume slotShare
    simp only [howned]
  · rw [h.exposure i]
    refine Finset.sum_nonneg fun p _ => slotShare_nonneg fun hactive howner => ?_
    have hfilled := (h.accounted p hactive).filled howner
    unfold Reservation.unfilled
    omega
  · have hheld : 0 ≤ ∑ p ∈ Finset.range l.reservationCapacity,
        l.slotShare i Reservation.creditReserved (l.reservations p) :=
      Finset.sum_nonneg fun p _ => slotShare_nonneg fun hactive _ => (h.accounted p hactive).credit
    rw [h.credit i]
    omega

end Reading

/-! ## One slot at a time -/

theorem sum_update_slot {n p : Nat} (hp : p < n) (slots : Nat → Reservation) (r : Reservation)
    (f : Reservation → Int) : ∑ q ∈ Finset.range n, f (Function.update slots p r q) =
      ∑ q ∈ Finset.range n, f (slots q) - f (slots p) + f r := by
  have hmem : p ∈ Finset.range n := Finset.mem_range.mpr hp
  have hrest : ∑ q ∈ (Finset.range n).erase p, f (Function.update slots p r q) =
      ∑ q ∈ (Finset.range n).erase p, f (slots q) :=
    Finset.sum_congr rfl fun q hq => by rw [Function.update_of_ne (Finset.ne_of_mem_erase hq)]
  rw [← Finset.add_sum_erase _ _ hmem, ← Finset.add_sum_erase _ (fun q => f (slots q)) hmem, hrest,
    Function.update_self]
  omega

section Slots
variable {l : RiskLedger} {p : Nat} {ref : BrokerOrderRef} {r : Reservation}

theorem Accounted.frame (h : l.Accounted r) {dims : Dimensions} {slots : Nat → Reservation} {count : Nat} :
    Accounted { l with dims := dims, reservations := slots, reservationLiveCount := count } r :=
  ⟨h.occupied, Audited.knows h.known, h.credit, h.released, h.filled⟩

/-- A slot is rewritten and the counters of the strategies move by the difference. -/
theorem Attributed.rewrite (h : l.Attributed) {dims : Dimensions} (count : Nat)
    (hp : p < l.reservationCapacity) (haccounted : r.active = true → l.Accounted r)
    (hexposure : ∀ i, (dims (.strategy i)).openExposure = (l.dims (.strategy i)).openExposure -
      l.slotShare i Reservation.unfilled (l.reservations p) + l.slotShare i Reservation.unfilled r)
    (hcredit : ∀ i, (dims (.strategy i)).creditRemaining = (l.dims (.strategy i)).creditRemaining +
      l.slotShare i Reservation.creditReserved (l.reservations p) - l.slotShare i Reservation.creditReserved r) :
    Attributed { l with
      dims := dims
      reservations := Function.update l.reservations p r
      reservationLiveCount := count } := by
  have hshare : ∀ i f s, slotShare { l with
      dims := dims
      reservations := Function.update l.reservations p r
      reservationLiveCount := count } i f s = l.slotShare i f s := fun _ _ _ => rfl
  refine ⟨h.ids, ?_, ?_, ?_⟩
  · intro q
    dsimp only
    by_cases hq : q = p
    · rw [hq, Function.update_self]
      exact fun hactive => (haccounted hactive).frame
    · rw [Function.update_of_ne hq]
      exact fun hactive => (h.accounted q hactive).frame
  · intro i
    simp only [hshare]
    rw [sum_update_slot hp, hexposure i, h.exposure i]
  · intro i
    simp only [hshare]
    rw [sum_update_slot hp, hcredit i, h.credit i]
    omega

/-- The same where the counters of the dimensions of the reservation are touched. -/
theorem Attributed.touch (h : l.Attributed) (count : Nat) (hp : p < l.reservationCapacity) {s : Reservation}
    {f : DimensionState → DimensionState} (haccounted : r.active = true → l.Accounted r)
    (hold : (l.reservations p).active = true → l.dimsFor (l.reservations p) = l.dimsFor s)
    (hnew : r.active = true → l.dimsFor r = l.dimsFor s)
    (hexposure : ∀ c, (f c).openExposure = c.openExposure -
      (if (l.reservations p).active = true then (l.reservations p).unfilled else 0) +
      (if r.active = true then r.unfilled else 0))
    (hcredit : ∀ c, (f c).creditRemaining = c.creditRemaining +
      (if (l.reservations p).active = true then (l.reservations p).creditReserved else 0) -
      (if r.active = true then r.creditReserved else 0)) :
    Attributed { l with
      dims := touchAll f l.dims (l.dimsFor s)
      reservations := Function.update l.reservations p r
      reservationLiveCount := count } := by
  -- Inside the dimensions of `s` a reservation counts fully, outside not at all.
  have hterm : ∀ t : Reservation, (t.active = true → l.dimsFor t = l.dimsFor s) → ∀ i (g : Reservation → Int),
      l.slotShare i g t = if Dimension.strategy i ∈ l.dimsFor s then (if t.active = true then g t else 0) else 0 := by
    intro t ht i g
    unfold slotShare
    by_cases hactive : t.active = true
    · simp only [hactive, true_and, ht hactive, if_true]
    · rw [if_neg fun hboth => hactive hboth.1, if_neg hactive, ite_self]
  refine h.rewrite count hp haccounted ?_ ?_
  · intro i
    rw [touchAll_of_nodup _ _ (l.dimsFor_nodup s), hterm _ hold, hterm _ hnew]
    split
    · exact hexposure _
    · omega
  · intro i
    rw [touchAll_of_nodup _ _ (l.dimsFor_nodup s), hterm _ hold, hterm _ hnew]
    split
    · exact hcredit _
    · omega

/-- A slot that a lookup answers is in the table and in use. -/
theorem findReservation_lt (hf : l.findReservation ref = some p) : p < l.reservationCapacity :=
  lookup_lt (findReservation_eq_some_iff.mp hf).1

theorem Attributed.vacant (h : l.Attributed) (hfree : l.slotKey p = none) : (l.reservations p).active = false := by
  cases hactive : (l.reservations p).active with
  | false => rfl
  | true =>
    have hoccupied := (h.accounted p hactive).occupied
    rw [Reservation.key_eq_none_iff.mp hfree] at hoccupied
    cases hoccupied

end Slots

/-! ## The calls -/

section Calls
variable {l : RiskLedger} {p : Nat} {ref : BrokerOrderRef}

/-- A registration leaves the reservations with the dimensions they have. -/
theorem Attributed.of_same (h : l.Attributed) {l' : RiskLedger} (hconfig : l'.config = l.config)
    (hcap : l'.reservationCapacity = l.reservationCapacity) (hslots : l'.reservations = l.reservations)
    (hdims : l'.dims = l.dims)
    (hstrategies : ∀ id i, l.findStrategySlot id = some i → l'.findStrategySlot id = some i)
    (hvenues : ∀ id i, l.findVenueSlot id = some i → l'.findVenueSlot id = some i)
    (hids : ∀ i, l'.strategyIds i ≠ some unattributedStrategy) : l'.Attributed := by
  have hshare : ∀ i f q, l'.slotShare i f (l.reservations q) = l.slotShare i f (l.reservations q) := by
    intro i f q
    unfold slotShare
    by_cases hactive : (l.reservations q).active = true
    · rw [(h.accounted q hactive).known.dimsFor_eq hstrategies hvenues]
    · rw [if_neg fun hboth => hactive hboth.1, if_neg fun hboth => hactive hboth.1]
  refine ⟨hids, ?_, ?_, ?_⟩
  · intro q
    rw [hslots]
    intro hactive
    have hq := h.accounted q hactive
    exact ⟨hq.occupied, hq.known.imp hstrategies hvenues, hq.credit, hq.released, hq.filled⟩
  · intro i
    rw [hdims, hcap, hslots, h.exposure i]
    exact Finset.sum_congr rfl fun q _ => (hshare i _ q).symm
  · intro i
    rw [hdims, hcap, hslots, hconfig, h.credit i]
    exact congrArg _ (Finset.sum_congr rfl fun q _ => (hshare i _ q).symm)

theorem Attributed.registerStrategy (h : l.Attributed) (id : UInt32) : (l.registerStrategy id).1.Attributed := by
  rcases l.registerStrategy_cases id with hsame | ⟨i, hid, hnew, hfree, hdone⟩
  · rw [hsame]
    exact h
  · rw [hdone]
    refine h.of_same rfl rfl rfl rfl (fun other j hj => findSlot_register hfree hnew hj) (fun _ _ hv => hv) ?_
    intro j
    dsimp only
    by_cases hj : j = i
    · rw [hj, Function.update_self, ne_eq, Option.some.injEq]
      exact hid
    · rw [Function.update_of_ne hj]
      exact h.ids j

theorem Attributed.registerVenue (h : l.Attributed) (id : UInt64) : (l.registerVenue id).1.Attributed := by
  rcases l.registerVenue_cases id with hsame | ⟨i, hnew, hfree, hdone⟩
  · rw [hsame]
    exact h
  · rw [hdone]
    exact h.of_same rfl rfl rfl rfl (fun _ _ hs => hs) (fun other j hj => findSlot_register hfree hnew hj) h.ids

theorem Attributed.reserve (h : l.Attributed) (strategy : UInt32) (venue : UInt64) (symbol : Nat) (side : Side)
    (volume : Int) (ref : BrokerOrderRef) : (l.reserve strategy venue symbol side volume ref).1.Attributed := by
  rcases l.reserve_cases strategy venue symbol side volume ref with hfail | ⟨p, hlookup, hfree, hadmitted, hdone⟩
  · rw [hfail]
    exact h
  · have hvolume : 0 < volume := hadmitted.volume_pos
    have hvacant := h.vacant hfree
    rw [hdone]
    refine h.touch _ (lookup_lt hlookup) (s := booked strategy venue symbol side volume ref) ?_ ?_ (fun _ => rfl) ?_ ?_
    · intro _
      exact ⟨rfl, hadmitted.known, Int.le_of_lt hvolume, nofun, fun _ => Int.le_of_lt hvolume⟩
    · intro hactive
      rw [hvacant] at hactive
      cases hactive
    · intro c
      simp [hvacant, DimensionState.hold, booked, Reservation.unfilled]
    · intro c
      simp [hvacant, DimensionState.hold, booked]

/-- What a rebuild writes into the table. -/
def rebuilt (venue : UInt64) (o : Order) : Reservation where
  occupied := true
  ref := o.ref
  strategy := unattributedStrategy
  venue := venue
  symbol := o.symbolId
  side := o.side
  requestedVolume := o.requestedVolume
  lastKnownFilled := o.filledVolume
  creditReserved := 0
  creditReleased := true
  active := true

/-- An order of a snapshot moves no counter of a strategy, and takes a free slot if at all. -/
theorem rebuildOrder_cases (venue : UInt64) (venueSlot : Nat) (l : RiskLedger) (o : Order) :
    ∃ dims, (∀ i, dims (.strategy i) = l.dims (.strategy i)) ∧
      (rebuildOrder venue venueSlot l o = { l with dims := dims } ∨
        ∃ p, l.lookup o.ref = some p ∧ l.slotKey p = none ∧ o.symbolId < maxSymbols ∧
          rebuildOrder venue venueSlot l o = { l with
            dims := dims
            reservations := Function.update l.reservations p (rebuilt venue o)
            reservationLiveCount := l.reservationLiveCount + 1 }) := by
  unfold rebuildOrder
  by_cases hterminal : o.state.isTerminal = true
  · rw [if_pos hterminal]
    exact ⟨l.dims, fun _ => rfl, .inl rfl⟩
  rw [if_neg hterminal]
  dsimp only
  by_cases hskip : o.requestedVolume - o.filledVolume ≤ 0 ∨ o.symbolId ≥ maxSymbols
  · rw [if_pos hskip]
    exact ⟨l.dims, fun _ => rfl, .inl rfl⟩
  · rw [if_neg hskip]
    generalize hdims : touchAll (DimensionState.settle (-(o.requestedVolume - o.filledVolume))
      (if o.side = .buy then o.filledVolume else -o.filledVolume)) l.dims
        [.symbol o.symbolId, .venue venueSlot, .global] = dims
    have hnodup : [Dimension.symbol o.symbolId, .venue venueSlot, .global].Nodup := by simp
    refine ⟨dims, fun i => ?_, ?_⟩
    · rw [← hdims, touchAll_of_nodup _ _ hnodup, if_neg (by simp)]
    · rcases allocateReservation_cases { l with dims := dims } o.ref with hnone | ⟨p, hlookup, hfree, hsome⟩
      · rw [hnone]
        exact .inl rfl
      · rw [hsome]
        refine .inr ⟨p, hlookup, hfree, by omega, ?_⟩
        simp only [setReservation, Function.update_self, Function.update_idem]
        rfl

theorem slotShare_unattributed {r : Reservation} (hr : r.strategy = unattributedStrategy) (i : Nat)
    (f : Reservation → Int) : l.slotShare i f r = 0 := by
  unfold slotShare
  rw [if_neg]
  rintro ⟨-, hmem⟩
  exact (strategy_mem_dimsFor.mp hmem).1 hr

theorem slotShare_inactive {r : Reservation} (hr : r.active = false) (i : Nat) (f : Reservation → Int) :
    l.slotShare i f r = 0 := by
  unfold slotShare
  rw [if_neg]
  rintro ⟨hactive, -⟩
  rw [hr] at hactive
  cases hactive

theorem Attributed.rebuildOrder (h : l.Attributed) {venue : UInt64} {venueSlot : Nat}
    (hvenue : l.findVenueSlot venue = some venueSlot) (o : Order) :
    (rebuildOrder venue venueSlot l o).Attributed ∧
      (rebuildOrder venue venueSlot l o).findVenueSlot venue = some venueSlot := by
  obtain ⟨dims, hdims, hsame | ⟨p, hlookup, hfree, hsymbol, hdone⟩⟩ := rebuildOrder_cases venue venueSlot l o
  · rw [hsame]
    refine ⟨⟨h.ids, fun q hq => (h.accounted q hq).frame, fun i => ?_, fun i => ?_⟩, hvenue⟩
    · exact (congrArg DimensionState.openExposure (hdims i)).trans (h.exposure i)
    · exact (congrArg DimensionState.creditRemaining (hdims i)).trans (h.credit i)
  · rw [hdone]
    refine ⟨h.rewrite _ (lookup_lt hlookup) ?_ ?_ ?_, hvenue⟩
    · intro _
      exact ⟨rfl, ⟨.inl rfl, ⟨venueSlot, hvenue⟩, hsymbol⟩, Int.le_refl 0, fun _ => rfl, fun hne => absurd rfl hne⟩
    all_goals
      intro i
      rw [hdims i, slotShare_inactive (h.vacant hfree), slotShare_unattributed rfl]
      omega

theorem Attributed.rebuildFromSnapshot (h : l.Attributed) (venue : UInt64) (orders : List Order) :
    (l.rebuildFromSnapshot venue orders).Attributed := by
  unfold RiskLedger.rebuildFromSnapshot
  split
  · exact h
  · rename_i venueSlot hvenue
    induction orders generalizing l with
    | nil => exact h
    | cons o orders ih =>
      obtain ⟨hnext, hkept⟩ := h.rebuildOrder hvenue o
      exact ih hnext hkept

theorem Attributed.attributeStrategy (h : l.Attributed) {strategy : UInt32}
    (hregistered : (l.findStrategySlot strategy).isSome = true)
    (hsettled : l.Settled (.attributeStrategy ref strategy)) : (l.attributeStrategy ref strategy).1.Attributed := by
  unfold RiskLedger.attributeStrategy
  cases hf : l.findReservation ref with
  | none => exact h
  | some p =>
    dsimp only
    split_ifs with howned
    · exact h
    · obtain ⟨hunfilled, hcredit⟩ := hsettled p hf (not_not.mp howned)
      -- What is left of the reservation counts for nothing, whoever owns it.
      have hnothing : ∀ i (f : Reservation → Int), f { l.reservations p with strategy := strategy } = 0 →
          l.slotShare i f { l.reservations p with strategy := strategy } = 0 := by
        intro i f hf
        unfold slotShare
        rw [hf, ite_self]
      refine h.rewrite l.reservationLiveCount (findReservation_lt hf) ?_ ?_ ?_
      · intro hactive
        have hp := h.accounted p hactive
        obtain ⟨i, hi⟩ := Option.isSome_iff_exists.mp hregistered
        refine ⟨hp.occupied, ⟨.inr ⟨i, hi⟩, hp.known.venue, hp.known.symbol⟩, hp.credit, hp.released, fun _ => ?_⟩
        unfold Reservation.unfilled at hunfilled
        dsimp only
        omega
      · intro i
        rw [slotShare_unattributed (not_not.mp howned), hnothing i _ hunfilled]
        omega
      · intro i
        rw [slotShare_unattributed (not_not.mp howned), hnothing i _ hcredit]
        omega

theorem Attributed.adjustReplace (h : l.Attributed) {newVolume : Int}
    (hsettled : l.Settled (.adjustReplace ref newVolume)) : (l.adjustReplace ref newVolume).1.Attributed := by
  rcases l.adjustReplace_cases ref newVolume with hfail | ⟨p, hf, hactive, hdone, -⟩
  · rw [hfail]
    exact h
  · have hp := h.accounted p hactive
    rw [hdone]
    refine h.touch l.reservationLiveCount (findReservation_lt hf) (s := l.reservations p) ?_
      (fun _ => rfl) (fun _ => rfl) ?_ ?_
    · intro _
      exact ⟨hp.occupied, ⟨hp.known.strategy, hp.known.venue, hp.known.symbol⟩, hp.credit, hp.released, hsettled p hf⟩
    · intro c
      simp only [hactive, if_true, DimensionState.addExposure, Reservation.unfilled]
      omega
    · intro c
      simp only [hactive, if_true, DimensionState.addExposure]
      omega

/-- A fill beyond the last known one, before the order is released if it is gone. -/
theorem Attributed.observe (h : l.Attributed) (hf : l.findReservation ref = some p)
    (hactive : (l.reservations p).active = true) {filled : Int}
    (hle : (l.reservations p).strategy ≠ unattributedStrategy → filled ≤ (l.reservations p).requestedVolume) :
    (l.observe p filled).Attributed := by
  have hp := h.accounted p hactive
  refine h.touch l.reservationLiveCount (findReservation_lt hf) (s := l.reservations p) ?_
    (fun _ => rfl) (fun _ => rfl) ?_ ?_
  · intro _
    exact ⟨hp.occupied, ⟨hp.known.strategy, hp.known.venue, hp.known.symbol⟩, hp.credit, hp.released, hle⟩
  · intro c
    simp only [hactive, if_true, DimensionState.settle, Reservation.unfilled]
    omega
  · intro c
    simp only [hactive, if_true, DimensionState.settle]
    omega

/-- What a release does to a strategy: nothing left to give back is the same as giving back zero. -/
theorem Accounted.refund {r : Reservation} (h : l.Accounted r) (i : Nat) :
    (let unwound := if r.requestedVolume - r.lastKnownFilled > 0 then
        unwindExposure l.dims (l.dimsFor r) (r.requestedVolume - r.lastKnownFilled) else l.dims
      if r.creditReleased = false then unwindCredit unwound (l.dimsFor r) r.creditReserved else unwound)
        (.strategy i) =
      if Dimension.strategy i ∈ l.dimsFor r then (l.dims (.strategy i)).free r.unfilled r.creditReserved
      else l.dims (.strategy i) := by
  have hnodup := l.dimsFor_nodup r
  have hunwound : (if r.requestedVolume - r.lastKnownFilled > 0 then
      unwindExposure l.dims (l.dimsFor r) (r.requestedVolume - r.lastKnownFilled) else l.dims) (.strategy i) =
      if Dimension.strategy i ∈ l.dimsFor r then (l.dims (.strategy i)).subExposure r.unfilled
      else l.dims (.strategy i) := by
    split
    · exact touchAll_of_nodup _ _ hnodup (.strategy i)
    · rename_i hnone
      split
      · rename_i hmem
        have hfilled := h.filled (strategy_mem_dimsFor.mp hmem).1
        have hzero : r.unfilled = 0 := by
          unfold Reservation.unfilled
          omega
        rw [hzero]
        simp [DimensionState.subExposure]
      · rfl
  dsimp only
  split
  · unfold unwindCredit
    rw [touchAll_of_nodup _ _ hnodup, hunwound]
    split <;> rfl
  · rename_i hreleased
    rw [hunwound]
    split
    · rw [h.released (by simpa using hreleased)]
      simp [DimensionState.subExposure, DimensionState.free]
    · rfl

/-- Releasing a reservation gives back what it counts for, and no more. -/
theorem Attributed.release (h : l.Attributed) (ref : BrokerOrderRef) : (l.release ref).Attributed := by
  unfold RiskLedger.release
  cases hf : l.findReservation ref with
  | none => exact h
  | some p =>
    dsimp only
    by_cases hinactive : (l.reservations p).active = false
    · rw [if_pos hinactive]
      exact h
    · have hactive : (l.reservations p).active = true := by simpa using hinactive
      have hp := h.accounted p hactive
      have hshare : ∀ i f, l.slotShare i f (l.reservations p) =
          if Dimension.strategy i ∈ l.dimsFor (l.reservations p) then f (l.reservations p) else 0 := by
        intro i f
        unfold slotShare
        simp only [hactive, true_and]
      rw [if_neg hinactive, freeReservation_retired hf]
      refine h.rewrite _ (findReservation_lt hf) nofun ?_ ?_
      all_goals
        intro i
        rw [hp.refund i, hshare, slotShare_inactive rfl]
        split
        · simp [DimensionState.free]
        · simp

theorem Attributed.reconcile (h : l.Attributed) {filled : Int} {gone : Bool}
    (hsettled : l.Settled (.reconcile ref filled gone)) : (l.reconcile ref filled gone).Attributed := by
  unfold RiskLedger.reconcile
  cases hf : l.findReservation ref with
  | none => exact h
  | some p =>
    dsimp only
    by_cases hinactive : (l.reservations p).active = false
    · rw [if_pos hinactive]
      exact h
    · have hactive : (l.reservations p).active = true := by simpa using hinactive
      rw [if_neg hinactive]
      have hsettledLedger : Attributed (if filled - (l.reservations p).lastKnownFilled > 0 then
          l.observe p filled else l) := by
        split
        · exact h.observe hf hactive (hsettled p hf)
        · exact h
      cases gone with
      | false => exact hsettledLedger
      | true => exact hsettledLedger.release ref

end Calls

theorem Attributed.call {l : RiskLedger} (h : l.Attributed) {c : AttributionCall} (hregistered : l.ToRegistered c)
    (hsettled : l.Settled c) : (l.call c).Attributed := by
  cases c with
  | registerStrategy id => exact h.registerStrategy id
  | registerVenue id => exact h.registerVenue id
  | admitCreate venue symbol volume ref => exact h.reserve unattributedStrategy venue symbol .buy volume ref
  | rebuildFromSnapshot venue orders => exact h.rebuildFromSnapshot venue orders
  | reserve strategy venue symbol side volume ref => exact h.reserve strategy venue symbol side volume ref
  | attributeStrategy ref strategy => exact h.attributeStrategy hregistered hsettled
  | reconcile ref filled gone => exact h.reconcile hsettled
  | adjustReplace ref newVolume => exact h.adjustReplace hsettled
  | release ref => exact h.release ref

theorem new_attributed (maxStrategies maxVenues reservationCapacity : Nat) (config : RiskLedgerConfig) :
    (new maxStrategies maxVenues reservationCapacity config).Attributed := by
  refine ⟨nofun, nofun, fun i => ?_, fun i => ?_⟩
  · exact (Finset.sum_eq_zero fun _ _ => slotShare_inactive rfl i _).symm
  · rw [Finset.sum_eq_zero fun _ _ => slotShare_inactive rfl i _]
    exact (Int.sub_zero _).symm

/-- In a run whose calls all settle, the exposure of every strategy is the unfilled volume of its active
reservations, is not negative, and its credit is within its budget. -/
theorem strategies_kept (maxStrategies maxVenues reservationCapacity : Nat) (config : RiskLedgerConfig)
    (calls : List AttributionCall)
    (hregistered : Runs.Along RiskLedger.call ToRegistered
      (new maxStrategies maxVenues reservationCapacity config) calls)
    (hsettled : Runs.Along RiskLedger.call Settled (new maxStrategies maxVenues reservationCapacity config) calls) :
    Runs.Throughout RiskLedger.call StrategiesKept (new maxStrategies maxVenues reservationCapacity config) calls := by
  have hthroughout : Runs.Throughout RiskLedger.call Attributed
      (new maxStrategies maxVenues reservationCapacity config) calls := by
    refine Runs.throughout_of_along ?_ (new_attributed _ _ _ _) (hregistered.and hsettled)
    intro l c hl hc
    exact hl.call hc.1 hc.2
  intro bs hbs
  exact (hthroughout bs hbs).kept

/-- An order that a snapshot brings back is filled, gets its owner, and is released. -/
def ownedAfterFill : List AttributionCall :=
  [.registerStrategy 1, .registerVenue 7,
    .rebuildFromSnapshot 7 [{ ref := ⟨1, 1⟩, requestedVolume := 5, filledVolume := 2, state := .partiallyFilled }],
    .reserve 1 7 0 .sell 4 ⟨1, 2⟩, .reconcile ⟨1, 1⟩ 5 false, .attributeStrategy ⟨1, 1⟩ 1,
    .adjustReplace ⟨1, 2⟩ 6, .reconcile ⟨1, 2⟩ 3 true, .release ⟨1, 1⟩]

theorem strategies_kept_owned_after_fill :
    Runs.Throughout RiskLedger.call StrategiesKept (new 1 1 8 {}) ownedAfterFill :=
  strategies_kept 1 1 8 {} ownedAfterFill (by decide +kernel) (by decide +kernel)

/-- An order that the venue hook admits gets its owner and is released. -/
def ownedBeforeRelease : List AttributionCall :=
  [.registerStrategy 1, .registerVenue 7, .admitCreate 7 0 10 ⟨1, 1⟩, .attributeStrategy ⟨1, 1⟩ 1, .release ⟨1, 1⟩]

theorem exposure_never_charged :
    Runs.Along RiskLedger.call ToRegistered (new 1 1 8 {}) ownedBeforeRelease ∧
      ¬ Runs.Throughout RiskLedger.call StrategiesKept (new 1 1 8 {}) ownedBeforeRelease := by
  refine ⟨by decide +kernel, fun hkept => ?_⟩
  have hstate : ((Runs.run RiskLedger.call (new 1 1 8 {}) ownedBeforeRelease).strategyState 1).map
      (·.openExposure) = some (-10) := by decide +kernel
  obtain ⟨s, hs, hexposure⟩ := Option.map_eq_some_iff.mp hstate
  have hnonneg := (hkept.last 1 s hs).nonneg
  omega

end RiskLedger

end MicrostructureEngine
