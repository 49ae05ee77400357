import MicrostructureEngine.Risk.Resize

/-!
# Positions

What the calls of the ledger do to the positions and to the reservations that lookups find.
Nothing here depends on the exposures: a reservation may have been filled beyond its volume.
-/

namespace MicrostructureEngine.RiskLedger

open Probing AllOrNothing
set_option autoImplicit false

/-- The table answers for the reservations of `u`, and all of them are active. -/
structure Tracks (l : RiskLedger) (u : Unreleased) : Prop where
  linked : Linked l.reservationCapacity home l.slotKey
  tracks : ∀ ref r, u ref = some r ↔
    ∃ p < l.reservationCapacity, l.slotKey p = some ref ∧ l.reservations p = r
  active : ∀ ref r, u ref = some r → r.active = true

def Indexed (l : RiskLedger) : Prop := Tracks l l.held

section Tracks
variable {l l' : RiskLedger} {u : Unreleased} {ref : BrokerOrderRef} {r : Reservation} {p : Nat}

theorem Tracks.find (h : Tracks l u) (hr : u ref = some r) :
    ∃ p < l.reservationCapacity, l.slotKey p = some ref ∧ l.reservations p = r ∧
      l.findReservation ref = some p := by
  obtain ⟨p, hp, hkey, hres⟩ := (h.tracks ref r).mp hr
  have hlookup : l.lookup ref = some p := h.linked.locate_of_stored hp hkey
  exact ⟨p, hp, hkey, hres, findReservation_eq_some_iff.mpr ⟨hlookup, hkey⟩⟩

theorem Tracks.find_none (h : Tracks l u) (hr : u ref = none) : l.findReservation ref = none := by
  cases hf : l.findReservation ref with
  | none => rfl
  | some p =>
    obtain ⟨hlookup, hkey⟩ := findReservation_eq_some_iff.mp hf
    have hsome := (h.tracks ref _).mpr ⟨p, lookup_lt hlookup, hkey, rfl⟩
    rw [hr] at hsome
    cases hsome

theorem Tracks.held_eq (h : Tracks l u) : l.held = u := by
  funext ref
  cases hu : u ref with
  | none =>
    unfold held
    rw [h.find_none hu, Option.map_none]
  | some r =>
    obtain ⟨p, _, _, rfl, hf⟩ := h.find hu
    exact held_of_find hf

theorem Tracks.indexed (h : Tracks l u) : l.Indexed := by
  unfold Indexed
  rw [h.held_eq]
  exact h

/-- A slot is filled, rewritten or emptied. -/
theorem Tracks.update (h : Tracks l u) (r' : Reservation) {entry : Option Reservation}
    (hlinked : Linked l.reservationCapacity home (Function.update l.slotKey p r'.key))
    (hp : p < l.reservationCapacity) (hslot : ∀ k, l.slotKey p = some k → k = ref)
    (hother : ∀ q < l.reservationCapacity, q ≠ p → l.slotKey q ≠ some ref)
    (hentry : (r'.key = none ∧ entry = none) ∨ (r'.key = some ref ∧ entry = some r'))
    (hactive : ∀ r, entry = some r → r.active = true)
    (hcap : l'.reservationCapacity = l.reservationCapacity)
    (hslots : l'.reservations = Function.update l.reservations p r') :
    Tracks l' (Function.update u ref entry) := by
  have hkeys : l'.slotKey = Function.update l.slotKey p r'.key := by
    funext q
    unfold slotKey
    rw [hslots]
    by_cases hq : q = p
    · rw [hq, Function.update_self, Function.update_self]
    · rw [Function.update_of_ne hq, Function.update_of_ne hq]
  refine ⟨?_, ?_, ?_⟩
  · rw [hcap, hkeys]
    exact hlinked
  · intro k r
    rw [hcap, hslots]
    have htracks := Audited.tracks_update h.tracks hp hslot hother hentry k r
    unfold slotKey
    rw [hslots]
    exact htracks
  · exact Audited.forall_update h.active hactive

end Tracks

/-- `l'` holds `entry` for `ref`, otherwise what `l` holds, and its positions moved by `moves`. -/
structure Posted (l l' : RiskLedger) (ref : BrokerOrderRef) (entry : Option Reservation)
    (moves : Dimension → Int) : Prop where
  indexed : l'.Indexed
  held : l'.held = Function.update l.held ref entry
  strategyIds : l'.strategyIds = l.strategyIds
  dimsFor : l'.dimsFor = l.dimsFor
  position : ∀ d, (l'.dims d).position = (l.dims d).position + moves d

section Posted
variable {l l' l'' : RiskLedger} {ref : BrokerOrderRef} {r : Reservation} {p : Nat}
  {entry entry' : Option Reservation} {moves moves' : Dimension → Int}

theorem Posted.of_tracks (h : Tracks l' (Function.update l.held ref entry))
    (hids : l'.strategyIds = l.strategyIds) (hdims : l'.dimsFor = l.dimsFor)
    (hposition : ∀ d, (l'.dims d).position = (l.dims d).position + moves d) :
    Posted l l' ref entry moves := ⟨h.indexed, h.held_eq, hids, hdims, hposition⟩

theorem Posted.same (h : l.Indexed) (hr : l.held ref = entry) : Posted l l ref entry fun _ => 0 := by
  refine ⟨h, ?_, rfl, rfl, fun d => (Int.add_zero _).symm⟩
  rw [← hr, Function.update_eq_self]

theorem Posted.trans (h : Posted l l' ref entry moves) (h' : Posted l' l'' ref entry' moves') :
    Posted l l'' ref entry' fun d => moves d + moves' d := by
  refine ⟨h'.indexed, ?_, h'.strategyIds.trans h.strategyIds, h'.dimsFor.trans h.dimsFor, ?_⟩
  · rw [h'.held, h.held, Function.update_idem]
  · intro d
    rw [h'.position, h.position, Int.add_assoc]

/-- Exposure and credit move without the position. -/
theorem position_touchAll (l : RiskLedger) {f : DimensionState → DimensionState}
    (hf : ∀ s, (f s).position = s.position) (st : Dimensions) (r : Reservation) (d : Dimension) :
    (touchAll f st (l.dimsFor r) d).position = (st d).position := by
  rw [touchAll_of_nodup _ _ (l.dimsFor_nodup r)]
  split
  · exact hf _
  · rfl

theorem Indexed.book (h : l.Indexed) (hlookup : l.lookup ref = some p) (hfree : l.slotKey p = none)
    (hkey : r.key = some ref) (hactive : r.active = true) :
    Posted l (l.book p r) ref (some r) fun _ => 0 := by
  have habsent := h.linked.absent_of_locate_free hlookup hfree
  refine .of_tracks ?_ rfl rfl ?_
  · refine Tracks.update h r ?_ (lookup_lt hlookup) ?_ (fun q hq _ => habsent q hq)
      (.inr ⟨hkey, rfl⟩) ?_ rfl rfl
    · rw [hkey]
      exact h.linked.insert hlookup hfree
    · intro k hk
      rw [hfree] at hk
      cases hk
    · rintro r' ⟨⟩
      exact hactive
  · intro d
    rw [Int.add_zero]
    exact l.position_touchAll (f := .hold r.requestedVolume) (fun _ => rfl) l.dims r d

/-- Releasing empties the slot and gives back exposure and credit. -/
theorem release_slot (hf : l.findReservation ref = some p) (hactive : (l.reservations p).active = true) :
    ∃ dims count, l.release ref = { l with
        dims := dims
        reservations := Function.update l.reservations p {}
        reservationLiveCount := count } ∧
      ∀ d, (dims d).position = (l.dims d).position := by
  unfold release
  rw [hf]
  dsimp only
  rw [if_neg (by simp [hactive])]
  generalize hr : l.reservations p = r
  generalize hdims : (if r.creditReleased = false then
      unwindCredit (if r.requestedVolume - r.lastKnownFilled > 0 then
        unwindExposure l.dims (l.dimsFor r) (r.requestedVolume - r.lastKnownFilled) else l.dims)
        (l.dimsFor r) r.creditReserved
    else if r.requestedVolume - r.lastKnownFilled > 0 then
      unwindExposure l.dims (l.dimsFor r) (r.requestedVolume - r.lastKnownFilled) else l.dims) = dims
  have hposition : ∀ d, (dims d).position = (l.dims d).position := by
    intro d
    have hunwound : ((if r.requestedVolume - r.lastKnownFilled > 0 then
        unwindExposure l.dims (l.dimsFor r) (r.requestedVolume - r.lastKnownFilled)
        else l.dims) d).position = (l.dims d).position := by
      split
      · exact l.position_touchAll (f := .subExposure (r.requestedVolume - r.lastKnownFilled))
          (fun _ => rfl) l.dims r d
      · rfl
    rw [← hdims]
    split
    · exact (l.position_touchAll (f := .addCredit r.creditReserved) (fun _ => rfl) _ r d).trans hunwound
    · exact hunwound
  refine ⟨dims, l.reservationLiveCount - 1, ?_, hposition⟩
  subst hr
  exact freeReservation_retired hf dims

theorem Indexed.release (h : l.Indexed) (hsafe : l.Uncrossed ref) :
    Posted l (l.release ref) ref none fun _ => 0 := by
  cases hr : l.held ref with
  | none =>
    rw [release_of_none (h.find_none hr)]
    exact .same h hr
  | some r =>
    obtain ⟨p, hp, hkey, rfl, hf⟩ := h.find hr
    obtain ⟨dims, count, hdone, hposition⟩ := release_slot hf (h.active ref _ hr)
    rw [hdone]
    refine .of_tracks ?_ rfl rfl (fun d => (hposition d).trans (Int.add_zero _).symm)
    refine Tracks.update h {} ?_ hp ?_ ?_ (.inl ⟨rfl, rfl⟩) (by rintro _ ⟨⟩) rfl rfl
    · exact h.linked.erase ((uncrossed_iff _ _).mp hsafe p hp hkey)
    · intro k hk
      rw [hkey] at hk
      exact (Option.some.inj hk).symm
    · intro q hq hqp hqk
      exact hqp (h.linked.single q hq p hp ref hqk hkey)

theorem Indexed.reserve (h : l.Indexed) (strategy : UInt32) (venue : UInt64) (symbol : Nat)
    (side : Side) (volume : Int) (ref : BrokerOrderRef) :
    l.reserve strategy venue symbol side volume ref = (l, false) ∨
    ∃ l', l.reserve strategy venue symbol side volume ref = (l', true) ∧ l.held ref = none ∧
      Posted l l' ref (some (booked strategy venue symbol side volume ref)) (fun _ => 0) ∧
      Posted l (l'.release ref) ref none fun _ => 0 := by
  rcases l.reserve_cases strategy venue symbol side volume ref with
    hfail | ⟨p, hlookup, hfree, _, hdone⟩
  · exact .inl hfail
  · right
    have hbooked := h.book (r := booked strategy venue symbol side volume ref) hlookup hfree rfl rfl
    have hnone : l.held ref = none := by
      unfold held
      rw [findReservation_eq_none hlookup hfree]
      rfl
    have hsafe : (l.book p (booked strategy venue symbol side volume ref)).Uncrossed ref := by
      rw [uncrossed_iff, slotKey_book]
      exact h.linked.insert_uncrossed hlookup hfree
    exact ⟨_, hdone, hnone, hbooked, hbooked.trans (hbooked.indexed.release hsafe)⟩

/-- The signed volume of a fill. -/
def signed (side : Side) (volume : Int) : Int := if side = .buy then volume else -volume

/-- A fill moves the positions it counts towards. -/
theorem Indexed.reconcile (h : l.Indexed) (hr : l.held ref = some r) {filled : Int}
    (hmono : r.lastKnownFilled ≤ filled) :
    Posted l (l.reconcile ref filled false) ref (some { r with lastKnownFilled := filled }) fun d =>
      if d ∈ l.dimsFor r then signed r.side (filled - r.lastKnownFilled) else 0 := by
  obtain ⟨p, hp, hkey, rfl, hf⟩ := h.find hr
  have hobserve : l.reconcile ref filled false = l.observe p filled := by
    unfold RiskLedger.reconcile
    rw [hf]
    dsimp only
    rw [if_neg (by simp [h.active ref _ hr])]
    by_cases hdelta : filled - (l.reservations p).lastKnownFilled > 0
    · rw [if_pos hdelta]
      rfl
    · have hsame : filled = (l.reservations p).lastKnownFilled := by omega
      rw [if_neg hdelta, hsame, observe_same]
      rfl
  rw [hobserve]
  have hrkey : (l.reservations p).key = some ref := hkey
  refine .of_tracks ?_ rfl rfl ?_
  · refine Tracks.update h { l.reservations p with lastKnownFilled := filled } ?_ hp ?_ ?_
      (.inr ⟨hrkey, rfl⟩) ?_ rfl rfl
    · have hsame : Function.update l.slotKey p
          (Reservation.key { l.reservations p with lastKnownFilled := filled }) = l.slotKey := by
        rw [show Reservation.key { l.reservations p with lastKnownFilled := filled } = l.slotKey p
          from rfl, Function.update_eq_self]
      rw [hsame]
      exact h.linked
    · intro k hk
      rw [hkey] at hk
      exact (Option.some.inj hk).symm
    · intro q hq hqp hqk
      exact hqp (h.linked.single q hq p hp ref hqk hkey)
    · have hactive := h.active ref _ hr
      rintro r' ⟨⟩
      exact hactive
  · intro d
    unfold observe
    dsimp only
    rw [touchAll_of_nodup _ _ (l.dimsFor_nodup _)]
    split
    · rfl
    · exact (Int.add_zero _).symm

/-- The order is gone and nothing new is shown of it. -/
theorem Indexed.reconcile_gone (h : l.Indexed) (hsafe : l.Uncrossed ref) {filled : Int}
    (hstale : ∀ r, l.held ref = some r → filled ≤ r.lastKnownFilled) :
    Posted l (l.reconcile ref filled true) ref none fun _ => 0 := by
  cases hr : l.held ref with
  | none =>
    rw [reconcile_of_none (h.find_none hr)]
    exact .same h hr
  | some r =>
    obtain ⟨p, _, _, rfl, hf⟩ := h.find hr
    rw [reconcile_stale hf (h.active ref _ hr) (hstale _ hr)]
    exact h.release hsafe

end Posted

theorem Fresh.indexed {l : RiskLedger} (h : Fresh l) : l.Indexed :=
  Tracks.indexed (u := fun _ => none) ⟨h.sound.linked, h.sound.tracks, by rintro _ _ ⟨⟩⟩

theorem Fresh.position {l : RiskLedger} (h : Fresh l) (d : Dimension) : (l.dims d).position = 0 := by
  induction h with
  | new => rfl
  | @registerStrategy l id _ ih =>
    rcases l.registerStrategy_cases id with hsame | ⟨i, _, _, _, hdone⟩
    · rw [hsame]
      exact ih
    · rw [hdone]
      exact ih
  | @registerVenue l id _ ih =>
    rcases l.registerVenue_cases id with hsame | ⟨i, _, _, hdone⟩
    · rw [hsame]
      exact ih
    · rw [hdone]
      exact ih

end MicrostructureEngine.RiskLedger
