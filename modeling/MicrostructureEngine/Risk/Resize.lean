import MicrostructureEngine.Risk.Conservation

/-!
# Resizing a reservation

`adjust_replace` and `undo_replace_increase` write one function of the table: the requested
volume of a reservation is set and the exposure of its dimensions moved by the difference.
The rest of the module reads a consistent ledger as the map from references to their
reservations and says what every call of the router does to it.
-/

namespace MicrostructureEngine.RiskLedger

open Probing AllOrNothing
set_option autoImplicit false

/-- The ledger after the reservation in slot `p` was set to `volume`. -/
def resize (l : RiskLedger) (p : Nat) (volume : Int) : RiskLedger :=
  let r := l.reservations p
  { l with
    dims := touchAll (.addExposure (volume - r.requestedVolume)) l.dims (l.dimsFor r)
    reservations := Function.update l.reservations p { r with requestedVolume := volume } }

section Resize
variable {l : RiskLedger} {p : Nat} {ref : BrokerOrderRef}

theorem addExposure_zero : DimensionState.addExposure 0 = id := by
  funext s
  simp [DimensionState.addExposure]

theorem addExposure_comp (a b : Int) :
    DimensionState.addExposure b ∘ DimensionState.addExposure a = .addExposure (a + b) := by
  funext s
  simp only [Function.comp, DimensionState.addExposure, Int.add_assoc]

theorem subExposure_eq (volume : Int) :
    DimensionState.subExposure volume = .addExposure (-volume) := by
  funext s
  simp only [DimensionState.subExposure, DimensionState.addExposure, Int.sub_eq_add_neg]

@[simp] theorem resize_same : l.resize p (l.reservations p).requestedVolume = l := by
  unfold resize
  simp only [Int.sub_self, addExposure_zero, touchAll_id, Function.update_eq_self]

theorem resize_resize (a b : Int) : (l.resize p a).resize p b = l.resize p b := by
  unfold resize
  dsimp only
  rw [Function.update_self, Function.update_idem]
  have hdims : touchAll (.addExposure (b - a))
      (touchAll (.addExposure (a - (l.reservations p).requestedVolume)) l.dims
        (l.dimsFor (l.reservations p))) (l.dimsFor (l.reservations p)) =
      touchAll (.addExposure (b - (l.reservations p).requestedVolume)) l.dims
        (l.dimsFor (l.reservations p)) := by
    rw [touchAll_comp _ (l.dimsFor_nodup _), addExposure_comp]
    congr 2
    omega
  exact congrArg (fun dims => { l with
    dims := dims
    reservations := Function.update l.reservations p
      { l.reservations p with requestedVolume := b } }) hdims

theorem slotKey_resize (volume : Int) : (l.resize p volume).slotKey = l.slotKey := by
  funext q
  by_cases hq : q = p
  · subst hq
    simp only [slotKey, resize, Function.update_self]
    rfl
  · simp only [slotKey, resize, Function.update_of_ne hq]

theorem findReservation_resize (volume : Int) (ref : BrokerOrderRef) :
    (l.resize p volume).findReservation ref = l.findReservation ref := by
  have hcap : (l.resize p volume).reservationCapacity = l.reservationCapacity := rfl
  exact findReservation_congr hcap (slotKey_resize volume) ref

/-- `dims_for` and `limits_for` list the same dimensions in the same order. -/
theorem zip_limitsFor (l : RiskLedger) (r : Reservation) :
    (l.dimsFor r).zip (l.limitsFor r) = (l.dimsFor r).map fun d => (d, l.config.limits d) := by
  unfold dimsFor limitsFor
  by_cases hs : r.strategy = unattributedStrategy <;> by_cases hsym : r.symbol < maxSymbols <;>
    cases l.findStrategySlot r.strategy <;> cases l.findVenueSlot r.venue <;>
    simp [hs, hsym, RiskLedgerConfig.limits]

/-- A replace that the ledger takes resizes the reservation; an increase stays within every
limit it counts against. -/
theorem adjustReplace_cases (l : RiskLedger) (ref : BrokerOrderRef) (newVolume : Int) :
    l.adjustReplace ref newVolume = (l, false) ∨
    ∃ p, l.findReservation ref = some p ∧ (l.reservations p).active = true ∧
      l.adjustReplace ref newVolume = (l.resize p newVolume, true) ∧
      ((l.reservations p).requestedVolume < newVolume → ∀ d ∈ l.dimsFor (l.reservations p),
        (l.dims d).openExposure + (newVolume - (l.reservations p).requestedVolume) ≤
          (l.config.limits d).openOrderLimit) := by
  unfold adjustReplace
  cases hf : l.findReservation ref with
  | none => exact .inl rfl
  | some p =>
    dsimp only
    generalize hr : l.reservations p = r
    split
    · exact .inl rfl
    · rename_i hactive
      rw [Bool.not_eq_false] at hactive
      split
      · rename_i hzero
        have hsame : newVolume = (l.reservations p).requestedVolume := by
          rw [hr]
          omega
        refine .inr ⟨p, rfl, hr ▸ hactive, ?_, ?_⟩
        · rw [hsame, resize_same]
        · intro hlt
          omega
      · split
        · rename_i hpos
          split
          · exact .inl rfl
          · have hzip := l.zip_limitsFor r
            have hfst : ((l.dimsFor r).zip (l.limitsFor r)).map Prod.fst = l.dimsFor r := by
              simp [hzip, Function.comp_def]
            rcases reserveExposure_cases l.dims ((l.dimsFor r).zip (l.limitsFor r))
              (newVolume - r.requestedVolume) with hfail | ⟨hdone, hwithin⟩
            · rw [hfail]
              exact .inl rfl
            · rw [hfst] at hdone hwithin
              rw [hdone]
              refine .inr ⟨p, rfl, hr ▸ hactive, ?_, ?_⟩
              · subst hr
                rfl
              · intro _ d hd
                rw [hr] at hd ⊢
                refine hwithin (l.dimsFor_nodup r) (d, l.config.limits d) ?_
                rw [hzip]
                exact List.mem_map.mpr ⟨d, hd, rfl⟩
        · rename_i hneg
          refine .inr ⟨p, rfl, hr ▸ hactive, ?_, ?_⟩
          · subst hr
            unfold unwindExposure
            rw [subExposure_eq, Int.neg_neg]
            rfl
          · intro hlt
            rw [hr] at hlt
            omega

/-- The undo resizes as well, by the amount it is given. -/
theorem undoReplaceIncrease_eq (hf : l.findReservation ref = some p) {delta : Int} (hpos : 0 < delta) :
    l.undoReplaceIncrease ref delta = l.resize p ((l.reservations p).requestedVolume - delta) := by
  have hamount : (l.reservations p).requestedVolume - delta - (l.reservations p).requestedVolume =
      -delta := by omega
  unfold undoReplaceIncrease resize
  rw [hf]
  dsimp only
  rw [if_neg (by omega), hamount, unwindExposure, subExposure_eq]
  rfl

@[simp] theorem resize_requestedVolume (volume : Int) :
    ((l.resize p volume).reservations p).requestedVolume = volume := by
  simp [resize]

/-- A resize and the undo behind it are one resize. -/
theorem undo_resize (hf : l.findReservation ref = some p) (volume delta : Int) :
    (if delta > 0 then (l.resize p volume).undoReplaceIncrease ref delta else l.resize p volume) =
      l.resize p (volume - max delta 0) := by
  split
  · rename_i hpos
    rw [undoReplaceIncrease_eq ((findReservation_resize volume ref).trans hf) hpos,
      resize_requestedVolume, resize_resize, max_eq_left (by omega)]
  · rw [max_eq_right (by omega), Int.sub_zero]

end Resize

theorem Audited.Sound.resize {a : Audited} {p : Nat} {ref : BrokerOrderRef} {r : Reservation}
    (h : a.Sound) (hp : p < a.ledger.reservationCapacity) (hkey : a.ledger.slotKey p = some ref)
    (hr : a.ledger.reservations p = r) {volume : Int} (hle : r.lastKnownFilled ≤ volume) :
    Sound ⟨a.ledger.resize p volume,
      Function.update a.unreleased ref (some { r with requestedVolume := volume })⟩ := by
  have hu : a.unreleased ref = some r := (h.tracks ref r).mpr ⟨p, hp, hkey, hr⟩
  obtain ⟨hopen, hknown⟩ := h.good ref r hu
  have hrkey : r.key = some ref := by
    rw [← hr]
    exact hkey
  subst hr
  refine ⟨?_, ?_, ?_, h.attributed, ?_⟩
  · show Linked _ home (a.ledger.resize p volume).slotKey
    rw [slotKey_resize]
    exact h.linked
  · refine tracks_update h.tracks hp ?_ ?_ (Or.inr ⟨hrkey, rfl⟩)
    · intro k hk
      rw [hrkey] at hk
      exact (Option.some.inj hk).symm
    · intro q hq hqp hqk
      exact hqp (h.linked.single q hq p hp ref hqk hkey)
  · refine forall_update (fun k r' hr' => (h.good k r' hr').imp id knows) ?_
    intro r' hr'
    obtain rfl := Option.some.inj hr'
    exact ⟨⟨hopen.occupied, hopen.active, hopen.credit, hle⟩,
      ⟨hknown.strategy, hknown.venue, hknown.symbol⟩⟩
  · intro d
    apply (h.balanced d).touch
    · intro r' hr'
      rw [hu] at hr'
      rw [Option.some.inj hr']
    · intro r' hr'
      rw [← Option.some.inj hr']
      rfl
    · intro s
      simp only [hu, Option.elim_some, openVolume, if_true, DimensionState.addExposure]
      omega
    · intro s
      simp only [hu, Option.elim_some, heldCredit, if_true, DimensionState.addExposure]
      omega

/-! ## A consistent ledger as a map -/

/-- The reservation a lookup finds. -/
def held (l : RiskLedger) (ref : BrokerOrderRef) : Option Reservation :=
  (l.findReservation ref).map l.reservations

theorem held_of_find {l : RiskLedger} {p : Nat} {ref : BrokerOrderRef}
    (hp : l.findReservation ref = some p) : l.held ref = some (l.reservations p) := by
  unfold held
  rw [hp]
  rfl

/-- Every counter is the sum over the reservations that lookups find. -/
def Consistent (l : RiskLedger) : Prop := Audited.Sound ⟨l, l.held⟩

theorem Audited.Sound.held_eq {a : Audited} (h : a.Sound) : a.ledger.held = a.unreleased := by
  funext ref
  unfold held
  cases hu : a.unreleased ref with
  | none => rw [h.find_none hu, Option.map_none]
  | some r =>
    obtain ⟨p, _, _, hr, hf⟩ := h.find hu
    rw [hf, Option.map_some, hr]

theorem Audited.Sound.consistent {a : Audited} (h : a.Sound) : a.ledger.Consistent := by
  have hsound : Sound ⟨a.ledger, a.unreleased⟩ := h
  rw [← h.held_eq] at hsound
  exact hsound

/-- `l'` is consistent and holds `entry` for `ref` and otherwise what `l` holds. -/
structure Moved (l l' : RiskLedger) (ref : BrokerOrderRef) (entry : Option Reservation) : Prop where
  consistent : l'.Consistent
  held : l'.held = Function.update l.held ref entry
  config : l'.config = l.config
  dimsFor : l'.dimsFor = l.dimsFor

section Consistent
variable {l l' : RiskLedger} {ref : BrokerOrderRef} {r : Reservation} {entry : Option Reservation}

theorem Moved.of_sound (h : Audited.Sound ⟨l', Function.update l.held ref entry⟩)
    (hconfig : l'.config = l.config) (hdims : l'.dimsFor = l.dimsFor) : Moved l l' ref entry :=
  ⟨h.consistent, h.held_eq, hconfig, hdims⟩

theorem Moved.same (h : l.Consistent) (hr : l.held ref = entry) : Moved l l ref entry := by
  refine ⟨h, ?_, rfl, rfl⟩
  rw [← hr, Function.update_eq_self]

theorem Moved.trans {l'' : RiskLedger} {entry' : Option Reservation} (h : Moved l l' ref entry)
    (h' : Moved l' l'' ref entry') : Moved l l'' ref entry' := by
  refine ⟨h'.consistent, ?_, h'.config.trans h.config, h'.dimsFor.trans h.dimsFor⟩
  rw [h'.held, h.held, Function.update_idem]

theorem Consistent.find (h : l.Consistent) (hr : l.held ref = some r) :
    ∃ p < l.reservationCapacity, l.slotKey p = some ref ∧ l.reservations p = r ∧
      l.findReservation ref = some p := Audited.Sound.find h hr

theorem Consistent.find_none (h : l.Consistent) (hr : l.held ref = none) :
    l.findReservation ref = none := Audited.Sound.find_none h hr

theorem Consistent.isOpen (h : l.Consistent) (hr : l.held ref = some r) : r.Open :=
  (Audited.Sound.good h ref r hr).1

theorem Consistent.exposure (h : l.Consistent) (d : Dimension) :
    (l.dims d).openExposure = MapSum.total (openVolume fun r => d ∈ l.dimsFor r) l.held :=
  (Audited.Sound.balanced h d).exposure

/-- What an entry adds to the exposure of a dimension. -/
def share (l : RiskLedger) (d : Dimension) (entry : Option Reservation) : Int :=
  entry.elim 0 (openVolume fun r => d ∈ l.dimsFor r)

theorem share_some (d : Dimension) : l.share d (some r) =
    if d ∈ l.dimsFor r then r.requestedVolume - r.lastKnownFilled else 0 := by
  simp [share, openVolume]

theorem Consistent.share_nonneg (h : l.Consistent) (d : Dimension) (ref : BrokerOrderRef) :
    0 ≤ l.share d (l.held ref) := by
  cases hr : l.held ref with
  | none => exact Int.le_refl 0
  | some r =>
    have hle := (h.isOpen hr).filled_le
    rw [share_some]
    split <;> omega

theorem Moved.exposure (hm : Moved l l' ref entry) (h : l.Consistent) (d : Dimension) :
    (l'.dims d).openExposure =
      (l.dims d).openExposure - l.share d (l.held ref) + l.share d entry := by
  rw [hm.consistent.exposure, h.exposure, hm.held, hm.dimsFor, MapSum.total_update]
  rfl

theorem Consistent.reserve (h : l.Consistent) (strategy : UInt32) (venue : UInt64) (symbol : Nat)
    (side : Side) (volume : Int) (ref : BrokerOrderRef) :
    l.reserve strategy venue symbol side volume ref = (l, false) ∨
    ∃ l', l.reserve strategy venue symbol side volume ref = (l', true) ∧ l.held ref = none ∧
      l.Admitted (booked strategy venue symbol side volume ref) ∧
      Moved l l' ref (some (booked strategy venue symbol side volume ref)) ∧
      Moved l (l'.release ref) ref none := by
  rcases l.reserve_cases strategy venue symbol side volume ref with
    hfail | ⟨p, hlookup, hfree, hadmitted, hdone⟩
  · exact .inl hfail
  · right
    have hopen : (booked strategy venue symbol side volume ref).Open :=
      ⟨rfl, rfl, rfl, Int.le_of_lt hadmitted.volume_pos⟩
    have hbooked := Audited.Sound.book h hlookup hfree rfl hopen hadmitted.known rfl rfl
    have hnone : l.held ref = none := by
      unfold held
      rw [findReservation_eq_none hlookup hfree]
      rfl
    -- The slot was free before, so no run of another reservation passes over it.
    have hsafe : (l.book p (booked strategy venue symbol side volume ref)).Uncrossed ref := by
      rw [uncrossed_iff, slotKey_book]
      exact (Audited.Sound.linked h).insert_uncrossed hlookup hfree
    have hreleased := hbooked.release hsafe
    rw [Function.update_idem] at hreleased
    refine ⟨_, hdone, hnone, hadmitted, .of_sound hbooked rfl rfl, .of_sound hreleased ?_ ?_⟩
    · rw [release_book hlookup rfl hopen rfl rfl]
    · rw [release_book hlookup rfl hopen rfl rfl]
      rfl

theorem Consistent.release (h : l.Consistent) (hsafe : l.Uncrossed ref) :
    Moved l (l.release ref) ref none := by
  cases hr : l.held ref with
  | none =>
    rw [release_of_none (h.find_none hr)]
    exact .same h hr
  | some r =>
    obtain ⟨p, _, _, rfl, hf⟩ := h.find hr
    have hreleased := Audited.Sound.release h hsafe
    refine .of_sound hreleased ?_ ?_
    · rw [release_eq hf (h.isOpen hr)]
      rfl
    · rw [release_eq hf (h.isOpen hr)]
      rfl

theorem Consistent.reconcile (h : l.Consistent) (hr : l.held ref = some r) {filled : Int}
    (hmono : r.lastKnownFilled ≤ filled) (hle : filled ≤ r.requestedVolume) :
    Moved l (l.reconcile ref filled false) ref (some { r with lastKnownFilled := filled }) := by
  obtain ⟨p, hp, hkey, rfl, hf⟩ := h.find hr
  rw [reconcile_eq hf (h.isOpen hr) hmono]
  exact .of_sound (Audited.Sound.observe h hp hkey rfl hle) rfl rfl

/-- A report that says nothing new about the fills only matters if the order is gone. -/
theorem reconcile_stale {p : Nat} (hf : l.findReservation ref = some p)
    (hactive : (l.reservations p).active = true) {filled : Int}
    (hstale : filled ≤ (l.reservations p).lastKnownFilled) (gone : Bool) :
    l.reconcile ref filled gone = if gone then l.release ref else l := by
  have hnothing : ¬ filled - (l.reservations p).lastKnownFilled > 0 := by omega
  unfold RiskLedger.reconcile
  rw [hf]
  dsimp only
  rw [if_neg (by simp [hactive])]
  simp only [hnothing, if_false]

/-- The fills the ledger has been told of never go back. -/
theorem Consistent.reconcile_max (h : l.Consistent) (hr : l.held ref = some r) {filled : Int}
    (hle : filled ≤ r.requestedVolume) :
    Moved l (l.reconcile ref filled false) ref
      (some { r with lastKnownFilled := max r.lastKnownFilled filled }) := by
  rcases Int.le_total r.lastKnownFilled filled with hmono | hstale
  · rw [max_eq_right hmono]
    exact h.reconcile hr hmono hle
  · obtain ⟨p, _, _, rfl, hf⟩ := h.find hr
    rw [max_eq_left hstale, reconcile_stale hf (h.isOpen hr).active hstale]
    exact .same h hr

theorem Consistent.reconcile_gone (h : l.Consistent) (hsafe : l.Uncrossed ref) {filled : Int}
    (hfits : ∀ r, l.held ref = some r → filled ≤ r.requestedVolume) :
    Moved l (l.reconcile ref filled true) ref none := by
  cases hr : l.held ref with
  | none =>
    rw [reconcile_of_none (h.find_none hr)]
    exact .same h hr
  | some r =>
    obtain ⟨p, _, _, rfl, hf⟩ := h.find hr
    rcases Int.le_total (l.reservations p).lastKnownFilled filled with hmono | hstale
    · have hseen := h.reconcile hr hmono (hfits _ hr)
      have hopen := h.isOpen hr
      rw [reconcile_eq hf hopen hmono] at hseen ⊢
      have hsafe' : (l.observe p filled).Uncrossed ref :=
        Uncrossed.congr hsafe rfl (slotKey_observe l p filled)
      exact hseen.trans (hseen.consistent.release hsafe')
    · rw [reconcile_stale hf (h.isOpen hr).active hstale]
      exact h.release hsafe

theorem Consistent.resize (h : l.Consistent) {p : Nat} (hf : l.findReservation ref = some p)
    (volume : Int) (hle : (l.reservations p).lastKnownFilled ≤ volume) :
    Moved l (l.resize p volume) ref (some { l.reservations p with requestedVolume := volume }) := by
  obtain ⟨hlookup, hkey⟩ := findReservation_eq_some_iff.mp hf
  exact .of_sound (Audited.Sound.resize h (lookup_lt hlookup) hkey rfl hle) rfl rfl

/-- Every dimension that carries a reservation is within its limit. -/
def WithinLimits (l : RiskLedger) : Prop :=
  ∀ ref r, l.held ref = some r → ∀ d ∈ l.dimsFor r,
    (l.dims d).openExposure ≤ (l.config.limits d).openOrderLimit

/-- Only the dimensions of the entry that was written can have come closer to their limits. -/
theorem Moved.withinLimits (hm : Moved l l' ref entry) (h : l.Consistent) (hw : l.WithinLimits)
    (hentry : ∀ r, entry = some r → ∀ d ∈ l.dimsFor r,
      (l.dims d).openExposure - l.share d (l.held ref) + l.share d (some r) ≤
        (l.config.limits d).openOrderLimit) : l'.WithinLimits := by
  intro other r hr d hd
  rw [hm.config, hm.exposure h d]
  rw [hm.held] at hr
  rw [hm.dimsFor] at hd
  by_cases hother : other = ref
  · subst hother
    rw [Function.update_self] at hr
    subst hr
    exact hentry r rfl d hd
  · rw [Function.update_of_ne hother] at hr
    have hbefore := hw other r hr d hd
    have hshare := h.share_nonneg d ref
    cases entry with
    | none =>
      simp only [share, Option.elim_none] at hshare ⊢
      omega
    | some r' =>
      by_cases hd' : d ∈ l.dimsFor r'
      · exact hentry r' rfl d hd'
      · rw [share_some, if_neg hd']
        omega

theorem Moved.withinLimits_none (hm : Moved l l' ref none) (h : l.Consistent)
    (hw : l.WithinLimits) : l'.WithinLimits :=
  hm.withinLimits h hw fun _ he => nomatch he

/-- An entry that takes the place of one with at least its volume. -/
theorem Moved.withinLimits_le {r' : Reservation} (hm : Moved l l' ref (some r')) (h : l.Consistent)
    (hw : l.WithinLimits) (hr : l.held ref = some r) (hdims : l.dimsFor r' = l.dimsFor r)
    (hle : r'.requestedVolume - r'.lastKnownFilled ≤ r.requestedVolume - r.lastKnownFilled) :
    l'.WithinLimits := by
  refine hm.withinLimits h hw ?_
  intro r'' hr'' d hd
  obtain rfl := Option.some.inj hr''
  have hd' := hdims ▸ hd
  have hbefore := hw ref r hr d hd'
  rw [hr, share_some, share_some, if_pos hd, if_pos hd']
  omega

/-- A resize that was let through stays within the limits. -/
theorem Consistent.resize_within (h : l.Consistent) (hw : l.WithinLimits) {p : Nat}
    (hf : l.findReservation ref = some p) (volume : Int)
    (hle : (l.reservations p).lastKnownFilled ≤ volume)
    (hlimits : (l.reservations p).requestedVolume < volume → ∀ d ∈ l.dimsFor (l.reservations p),
      (l.dims d).openExposure + (volume - (l.reservations p).requestedVolume) ≤
        (l.config.limits d).openOrderLimit) : (l.resize p volume).WithinLimits := by
  have hm := h.resize hf volume hle
  have hr := held_of_find hf
  by_cases hmore : (l.reservations p).requestedVolume < volume
  · refine hm.withinLimits h hw ?_
    intro r hres d hd
    obtain rfl := Option.some.inj hres
    have hlimit := hlimits hmore d hd
    have hd' : d ∈ l.dimsFor (l.reservations p) := hd
    rw [hr, share_some, share_some, if_pos hd, if_pos hd']
    dsimp only
    omega
  · refine hm.withinLimits_le h hw hr rfl ?_
    dsimp only
    omega

end Consistent

/-- A ledger as it is before the first order: constructed, then strategies and venues
registered. -/
inductive Fresh : RiskLedger → Prop
  | new (maxStrategies maxVenues reservationCapacity : Nat) (config : RiskLedgerConfig) :
    Fresh (new maxStrategies maxVenues reservationCapacity config)
  | registerStrategy {l : RiskLedger} (id : UInt32) : Fresh l → Fresh (l.registerStrategy id).1
  | registerVenue {l : RiskLedger} (id : UInt64) : Fresh l → Fresh (l.registerVenue id).1

theorem Fresh.sound {l : RiskLedger} (h : Fresh l) : Audited.Sound ⟨l, fun _ => none⟩ := by
  induction h with
  | new maxStrategies maxVenues reservationCapacity config =>
    exact Audited.Sound.start maxStrategies maxVenues reservationCapacity config
  | registerStrategy id _ ih => exact ih.registerStrategy id
  | registerVenue id _ ih => exact ih.registerVenue id

theorem Fresh.consistent {l : RiskLedger} (h : Fresh l) : l.Consistent := h.sound.consistent

theorem Fresh.held {l : RiskLedger} (h : Fresh l) (ref : BrokerOrderRef) : l.held ref = none :=
  congrFun h.sound.held_eq ref

end MicrostructureEngine.RiskLedger
