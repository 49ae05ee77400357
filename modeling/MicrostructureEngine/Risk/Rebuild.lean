import MicrostructureEngine.Risk.ReservationTable

/-!
# Rebuilding a venue from a snapshot

`rebuild_from_snapshot` adds the unfilled and the filled volume of every live order of the
snapshot to the counters of its venue. It is documented to clear the counters and the table
first; it clears neither, so the sums are right only over counters that were zero, and a
second call counts every order again.
-/

namespace MicrostructureEngine.RiskLedger

open Probing AllOrNothing
set_option autoImplicit false

def signedFilled (o : Order) : Int := if o.side = .buy then o.filledVolume else -o.filledVolume

def nonTerminal (orders : List Order) : List Order := orders.filter fun o => !o.state.isTerminal

def unfilledVolume (orders : List Order) : Int :=
  ((nonTerminal orders).map fun o => o.requestedVolume - o.filledVolume).sum

def filledPosition (orders : List Order) : Int := ((nonTerminal orders).map signedFilled).sum

/-- An order as the store of a venue holds it: not terminal, and with something left to fill. -/
structure Live (o : Order) : Prop where
  nonTerminal : o.state.isTerminal = false
  unfilled : o.filledVolume < o.requestedVolume
  symbol : o.symbolId < maxSymbols

/-- A full, idempotent rebuild of one venue. -/
structure Rebuilt (l : RiskLedger) (venue : UInt64) (orders : List Order) : Prop where
  exposure : ((l.rebuildFromSnapshot venue orders).venueState venue).map (·.openExposure) =
    some (unfilledVolume orders)
  position : ((l.rebuildFromSnapshot venue orders).venueState venue).map (·.position) =
    some (filledPosition orders)
  again : (l.rebuildFromSnapshot venue orders).rebuildFromSnapshot venue orders =
    l.rebuildFromSnapshot venue orders
  released : ((orders.foldl (fun l o => l.release o.ref) (l.rebuildFromSnapshot venue orders)).venueState
    venue).map (·.openExposure) = some 0

theorem Live.unfilledVolume_cons {o : Order} (h : Live o) (orders : List Order) :
    unfilledVolume (o :: orders) = o.requestedVolume - o.filledVolume + unfilledVolume orders := by
  simp [unfilledVolume, RiskLedger.nonTerminal, h.nonTerminal]

theorem Live.filledPosition_cons {o : Order} (h : Live o) (orders : List Order) :
    filledPosition (o :: orders) = signedFilled o + filledPosition orders := by
  simp [filledPosition, RiskLedger.nonTerminal, h.nonTerminal]

theorem unfilledVolume_nonneg {orders : List Order} (hlive : ∀ o ∈ orders, Live o) :
    0 ≤ unfilledVolume orders := by
  induction orders with
  | nil => exact le_rfl
  | cons o orders ih =>
    have ho := hlive o List.mem_cons_self
    have hrest := ih fun x hx => hlive x (List.mem_cons_of_mem o hx)
    have hleft := ho.unfilled
    rw [ho.unfilledVolume_cons]
    omega

/-- A live order is counted on its venue whether or not the table has room for it. -/
theorem rebuildOrder_live (venue : UInt64) (slot : Nat) (l : RiskLedger) {o : Order} (h : Live o) :
    (rebuildOrder venue slot l o).venueIds = l.venueIds ∧
    (rebuildOrder venue slot l o).maxVenues = l.maxVenues ∧
    (rebuildOrder venue slot l o).dims (.venue slot) =
      (l.dims (.venue slot)).settle (-(o.requestedVolume - o.filledVolume)) (signedFilled o) := by
  have hskip : ¬ (o.requestedVolume - o.filledVolume ≤ 0 ∨ o.symbolId ≥ maxSymbols) := by
    have hleft := h.unfilled
    have hsymbol := h.symbol
    omega
  have hnodup : [Dimension.symbol o.symbolId, .venue slot, .global].Nodup := by simp
  have hcounted : touchAll (DimensionState.settle (-(o.requestedVolume - o.filledVolume))
      (signedFilled o)) l.dims [.symbol o.symbolId, .venue slot, .global] (.venue slot) =
      (l.dims (.venue slot)).settle (-(o.requestedVolume - o.filledVolume)) (signedFilled o) := by
    rw [touchAll_of_nodup _ _ hnodup]
    simp
  unfold rebuildOrder
  rw [h.nonTerminal]
  simp only [Bool.false_eq_true, if_false, if_neg hskip]
  split
  · exact ⟨rfl, rfl, hcounted⟩
  · rename_i allocated p halloc
    rcases allocateReservation_cases _ o.ref with hnone | ⟨q, _, _, hsome⟩
    · rw [hnone] at halloc
      cases halloc
    · rw [hsome] at halloc
      cases halloc
      exact ⟨rfl, rfl, hcounted⟩

/-- The counters of the venue move by the sums over the snapshot, from wherever they stood. -/
theorem venueState_rebuildFromSnapshot {l : RiskLedger} {venue : UInt64} {s : DimensionState}
    (hvenue : l.venueState venue = some s) {orders : List Order} (hlive : ∀ o ∈ orders, Live o) :
    (l.rebuildFromSnapshot venue orders).venueState venue =
      some (s.settle (-unfilledVolume orders) (filledPosition orders)) := by
  obtain ⟨slot, hslot, rfl⟩ := Option.map_eq_some_iff.mp hvenue
  simp only [rebuildFromSnapshot, hslot]
  clear hvenue
  induction orders generalizing l with
  | nil => simp [venueState, hslot, DimensionState.settle, unfilledVolume, filledPosition,
      nonTerminal]
  | cons o orders ih =>
    have ho := hlive o List.mem_cons_self
    obtain ⟨hids, hmax, hdims⟩ := rebuildOrder_live venue slot l ho
    have hkept : (rebuildOrder venue slot l o).findVenueSlot venue = some slot := by
      unfold findVenueSlot
      rw [hids, hmax]
      exact hslot
    rw [List.foldl_cons, ih (fun x hx => hlive x (List.mem_cons_of_mem o hx)) hkept, hdims,
      ho.unfilledVolume_cons, ho.filledPosition_cons]
    simp only [DimensionState.settle]
    congr 2
    · omega
    · omega

/-- Nothing is cleared: a rebuild is full and idempotent only when there is nothing to count
and the counters are zero to begin with. -/
theorem rebuilt_iff {l : RiskLedger} {venue : UInt64} {s : DimensionState}
    (hvenue : l.venueState venue = some s) {orders : List Order} (hlive : ∀ o ∈ orders, Live o) :
    Rebuilt l venue orders ↔ orders = [] ∧ s.openExposure = 0 ∧ s.position = 0 := by
  have honce := venueState_rebuildFromSnapshot hvenue hlive
  constructor
  · intro h
    have htwice := venueState_rebuildFromSnapshot honce hlive
    rw [h.again, honce] at htwice
    have hexposure := h.exposure
    have hposition := h.position
    rw [honce] at hexposure hposition
    simp only [Option.map_some, Option.some.injEq, DimensionState.settle,
      DimensionState.mk.injEq] at htwice hexposure hposition
    refine ⟨?_, by omega, by omega⟩
    cases orders with
    | nil => rfl
    | cons o orders =>
      -- the second call would have to add nothing
      have ho := hlive o List.mem_cons_self
      have hrest := unfilledVolume_nonneg fun x hx => hlive x (List.mem_cons_of_mem o hx)
      have hleft := ho.unfilled
      have hsum := ho.unfilledVolume_cons orders
      omega
  · rintro ⟨rfl, hexposure, hposition⟩
    have hsame : l.rebuildFromSnapshot venue [] = l := by
      unfold rebuildFromSnapshot
      split <;> rfl
    refine ⟨?_, ?_, ?_, ?_⟩
    · rw [hsame, hvenue, Option.map_some, hexposure]
      rfl
    · rw [hsame, hvenue, Option.map_some, hposition]
      rfl
    · rw [hsame, hsame]
    · rw [hsame, List.foldl_nil, hvenue, Option.map_some, hexposure]

def restarted : RiskLedger := ((new 0 1 8 {}).registerVenue 7).1

def partlyFilled : Order :=
  { ref := ⟨1, 1⟩, symbolId := 2, state := .acknowledged, requestedVolume := 20, filledVolume := 5 }

theorem restarted_venue :
    restarted.venueState 7 = some { creditRemaining := Risk.int64Max } := by decide +kernel

theorem partlyFilled_live : Live partlyFilled := ⟨rfl, by decide, by decide⟩

theorem rebuilt_only_empty_snapshot :
    Rebuilt restarted 7 [] ∧ ¬ Rebuilt restarted 7 [partlyFilled] := by
  refine ⟨(rebuilt_iff restarted_venue (by simp)).mpr ⟨rfl, rfl, rfl⟩, ?_⟩
  rw [rebuilt_iff restarted_venue (by simp [partlyFilled_live])]
  simp

/-- A first rebuild of a fresh ledger counts 15, a second one 30. -/
theorem rebuilt_twice_counts_twice :
    Live partlyFilled ∧
    ((restarted.rebuildFromSnapshot 7 [partlyFilled]).venueState 7).map (·.openExposure) = some 15 ∧
    (((restarted.rebuildFromSnapshot 7 [partlyFilled]).rebuildFromSnapshot 7
      [partlyFilled]).venueState 7).map (·.openExposure) = some 30 ∧
    ¬ Rebuilt restarted 7 [partlyFilled] := by
  refine ⟨partlyFilled_live, by decide +kernel, by decide +kernel, ?_⟩
  intro h
  have hsame := congrArg (fun l => (l.venueState 7).map (·.openExposure)) h.again
  exact absurd hsame (by decide +kernel)

end MicrostructureEngine.RiskLedger
