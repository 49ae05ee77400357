import MicrostructureEngine.Lib.MapSum
import MicrostructureEngine.Lib.Runs
import MicrostructureEngine.Risk.ReservationTable

/-!
# Conservation of reservations

Next to the ledger runs the record its callers could keep themselves: which refs were
reserved and not yet released, and the last fill seen for each. Conservation says that the
ledger still finds all of them and that its counters are the sums over this record. It
survives every call except one: a release whose slot lies on the probe run of another
reservation.
-/

namespace MicrostructureEngine.RiskLedger

open Probing AllOrNothing
set_option autoImplicit false

inductive Call where
  | registerStrategy (id : UInt32)
  | registerVenue (id : UInt64)
  | haltStrategy (id : UInt32)
  | haltVenue (id : UInt64)
  | haltSymbol (symbol : Nat)
  | reserve (strategy : UInt32) (venue : UInt64) (symbol : Nat) (side : Side) (volume : Int)
      (ref : BrokerOrderRef)
  | reconcile (ref : BrokerOrderRef) (currentFilledVolume : Int) (isTerminalOrGone : Bool)
  | release (ref : BrokerOrderRef)
  deriving DecidableEq, Repr

/-- The reservations made and not yet released, by ref. -/
abbrev Unreleased := BrokerOrderRef → Option Reservation

structure Audited where
  ledger : RiskLedger
  unreleased : Unreleased

namespace Audited

def start (maxStrategies maxVenues reservationCapacity : Nat) (config : RiskLedgerConfig) :
    Audited :=
  ⟨new maxStrategies maxVenues reservationCapacity config, fun _ => none⟩

def step (a : Audited) : Call → Audited
  | .registerStrategy id => { a with ledger := (a.ledger.registerStrategy id).1 }
  | .registerVenue id => { a with ledger := (a.ledger.registerVenue id).1 }
  | .haltStrategy id => { a with ledger := a.ledger.haltStrategy id }
  | .haltVenue id => { a with ledger := a.ledger.haltVenue id }
  | .haltSymbol symbol => { a with ledger := a.ledger.haltSymbol symbol }
  | .reserve strategy venue symbol side volume ref =>
    let (l, ok) := a.ledger.reserve strategy venue symbol side volume ref
    { ledger := l
      unreleased :=
        if ok then Function.update a.unreleased ref (some (booked strategy venue symbol side volume ref))
        else a.unreleased }
  | .reconcile ref filled gone =>
    { ledger := a.ledger.reconcile ref filled gone
      unreleased := Function.update a.unreleased ref
        (if gone then none
        else (a.unreleased ref).map fun r => { r with lastKnownFilled := filled }) }
  | .release ref =>
    { ledger := a.ledger.release ref, unreleased := Function.update a.unreleased ref none }

end Audited

section Balance

def openVolume (held : Reservation → Bool) (r : Reservation) : Int :=
  if held r then r.requestedVolume - r.lastKnownFilled else 0

def heldCredit (held : Reservation → Bool) (r : Reservation) : Int :=
  if held r then r.creditReserved else 0

/-- The counters of a dimension are the sums over the reservations it holds. -/
structure Balanced (budget : Int) (held : Reservation → Bool) (u : Unreleased) (s : DimensionState) :
    Prop where
  exposure : s.openExposure = MapSum.total (openVolume held) u
  credit : s.creditRemaining = budget - MapSum.total (heldCredit held) u

variable {budget : Int} {held : Reservation → Bool} {u : Unreleased} {s : DimensionState}

theorem Balanced.congr {held' : Reservation → Bool} (h : Balanced budget held u s)
    (heq : ∀ ref r, u ref = some r → held r = held' r) : Balanced budget held' u s := by
  refine ⟨h.exposure.trans ?_, h.credit.trans ?_⟩
  · apply MapSum.total_congr
    intro ref r hr
    rw [openVolume, openVolume, heq ref r hr]
  · congr 1
    apply MapSum.total_congr
    intro ref r hr
    rw [heldCredit, heldCredit, heq ref r hr]

/-- Rewriting one entry of the record moves the counters by the difference. -/
theorem Balanced.update (h : Balanced budget held u s) (ref : BrokerOrderRef)
    (entry : Option Reservation) {s' : DimensionState}
    (hexposure : s'.openExposure =
      s.openExposure - (u ref).elim 0 (openVolume held) + entry.elim 0 (openVolume held))
    (hcredit : s'.creditRemaining =
      s.creditRemaining + (u ref).elim 0 (heldCredit held) - entry.elim 0 (heldCredit held)) :
    Balanced budget held (Function.update u ref entry) s' := by
  refine ⟨?_, ?_⟩
  · rw [MapSum.total_update, hexposure, h.exposure]
  · rw [MapSum.total_update, hcredit, h.credit]
    omega

theorem Balanced.atRest (h : Balanced budget held u s) (hnone : ∀ ref, u ref = none) :
    s.openExposure = 0 ∧ s.creditRemaining = budget := by
  have hu : u = fun _ => none := funext hnone
  have he := h.exposure
  have hc := h.credit
  rw [hu, MapSum.total_empty] at he hc
  exact ⟨he, by omega⟩

/-- The counters after one reservation's dimensions were touched and its entry rewritten. -/
theorem Balanced.touch {l : RiskLedger} {d : Dimension}
    {f : DimensionState → DimensionState} {ref : BrokerOrderRef} {r : Reservation}
    {entry : Option Reservation}
    (h : Balanced budget (fun r => d ∈ l.dimsFor r) u (l.dims d))
    (hu : ∀ r', u ref = some r' → l.dimsFor r' = l.dimsFor r)
    (hentry : ∀ r', entry = some r' → l.dimsFor r' = l.dimsFor r)
    (hexposure : ∀ s, (f s).openExposure = s.openExposure -
      (u ref).elim 0 (openVolume fun _ => true) + entry.elim 0 (openVolume fun _ => true))
    (hcredit : ∀ s, (f s).creditRemaining = s.creditRemaining +
      (u ref).elim 0 (heldCredit fun _ => true) - entry.elim 0 (heldCredit fun _ => true)) :
    Balanced budget (fun r => d ∈ l.dimsFor r) (Function.update u ref entry)
      (touchAll f l.dims (l.dimsFor r) d) := by
  -- Inside the dimensions of `r` a term counts fully, outside not at all.
  have hterm : ∀ e : Option Reservation, (∀ r', e = some r' → l.dimsFor r' = l.dimsFor r) →
      e.elim 0 (openVolume fun r => d ∈ l.dimsFor r) =
        (if d ∈ l.dimsFor r then e.elim 0 (openVolume fun _ => true) else 0) ∧
      e.elim 0 (heldCredit fun r => d ∈ l.dimsFor r) =
        (if d ∈ l.dimsFor r then e.elim 0 (heldCredit fun _ => true) else 0) := by
    intro e he
    cases e with
    | none => simp
    | some r' => simp [openVolume, heldCredit, he r' rfl]
  obtain ⟨hue, huc⟩ := hterm (u ref) hu
  obtain ⟨hee, hec⟩ := hterm entry hentry
  rw [touchAll_of_nodup _ _ (l.dimsFor_nodup r)]
  apply h.update
  · rw [hue, hee]
    split
    · exact hexposure _
    · omega
  · rw [huc, hec]
    split
    · exact hcredit _
    · omega

end Balance

/-- No other reservation's probe run passes over the slot of `ref`. -/
def Uncrossed (l : RiskLedger) (ref : BrokerOrderRef) : Prop :=
  ∀ p < l.reservationCapacity, (l.reservations p).occupied = true → (l.reservations p).ref = ref →
    ∀ q < l.reservationCapacity, (l.reservations q).occupied = true →
      ¬ Crosses l.reservationCapacity (home (l.reservations q).ref) q p

instance (l : RiskLedger) (ref : BrokerOrderRef) : Decidable (l.Uncrossed ref) :=
  inferInstanceAs (Decidable (∀ p < l.reservationCapacity, (l.reservations p).occupied = true →
    (l.reservations p).ref = ref → ∀ q < l.reservationCapacity,
      (l.reservations q).occupied = true →
        ¬ Crosses l.reservationCapacity (home (l.reservations q).ref) q p))

/-- The condition reads the keys of the table only. -/
theorem uncrossed_iff (l : RiskLedger) (ref : BrokerOrderRef) :
    l.Uncrossed ref ↔ ∀ p < l.reservationCapacity, l.slotKey p = some ref →
      ∀ q < l.reservationCapacity, ∀ other, l.slotKey q = some other →
        ¬ Crosses l.reservationCapacity (home other) q p := by
  constructor
  · intro h p hp hkey q hq other hother
    obtain ⟨hocc, href⟩ := Reservation.key_eq_some_iff.mp hkey
    obtain ⟨hqocc, rfl⟩ := Reservation.key_eq_some_iff.mp hother
    exact h p hp hocc href q hq hqocc
  · intro h p hp hocc href q hq hqocc
    exact h p hp (Reservation.key_eq_some_iff.mpr ⟨hocc, href⟩) q hq _
      (Reservation.key_eq_some_iff.mpr ⟨hqocc, rfl⟩)

theorem Uncrossed.congr {l l' : RiskLedger} {ref : BrokerOrderRef} (h : l.Uncrossed ref)
    (hcap : l'.reservationCapacity = l.reservationCapacity) (hkeys : l'.slotKey = l.slotKey) :
    l'.Uncrossed ref := by
  rw [uncrossed_iff, hcap, hkeys]
  exact (uncrossed_iff l ref).mp h

namespace Audited

/-- Fills are reported in order and never beyond the requested volume. -/
def Observed (a : Audited) : Call → Prop
  | .reconcile ref filled _ => ∀ r, a.unreleased ref = some r →
      r.lastKnownFilled ≤ filled ∧ filled ≤ r.requestedVolume
  | _ => True

def FreesSafely (a : Audited) : Call → Prop
  | .reconcile ref _ true => a.ledger.Uncrossed ref
  | .release ref => a.ledger.Uncrossed ref
  | _ => True

/-- What callers rely on. `reserved` to `released` say that an unreleased ref is still there
for every call; the others read the four dimensions. -/
structure Conserved (a : Audited) : Prop where
  findable : ∀ ref r, a.unreleased ref = some r →
    ∃ p, a.ledger.findReservation ref = some p ∧ a.ledger.reservations p = r
  reserved : ∀ ref r, a.unreleased ref = some r → ∀ strategy venue symbol side volume,
    (a.ledger.reserve strategy venue symbol side volume ref).2 = false
  reconciled : ∀ ref r, a.unreleased ref = some r → ∀ filled, r.lastKnownFilled ≤ filled →
    ∀ d ∈ a.ledger.dimsFor r, ((a.ledger.reconcile ref filled false).dims d).openExposure =
      (a.ledger.dims d).openExposure - (filled - r.lastKnownFilled)
  released : ∀ ref r, a.unreleased ref = some r → ∀ d ∈ a.ledger.dimsFor r,
    ((a.ledger.release ref).dims d).openExposure =
        (a.ledger.dims d).openExposure - (r.requestedVolume - r.lastKnownFilled) ∧
      ((a.ledger.release ref).dims d).creditRemaining =
        (a.ledger.dims d).creditRemaining + r.creditReserved
  strategies : ∀ id s, a.ledger.strategyState id = some s →
    Balanced a.ledger.config.perStrategy.creditBudget (fun r => r.strategy = id) a.unreleased s
  venues : ∀ id s, a.ledger.venueState id = some s →
    Balanced a.ledger.config.perVenue.creditBudget (fun r => r.venue = id) a.unreleased s
  symbols : ∀ symbol s, a.ledger.symbolState symbol = some s →
    Balanced a.ledger.config.perSymbol.creditBudget (fun r => r.symbol = symbol) a.unreleased s
  whole : Balanced a.ledger.config.global.creditBudget (fun _ => true) a.unreleased
    a.ledger.globalState
  atRest : (∀ ref, a.unreleased ref = none) → ∀ d,
    (a.ledger.dims d).openExposure = 0 ∧
      (a.ledger.dims d).creditRemaining = (a.ledger.config.limits d).creditBudget

structure Sound (a : Audited) : Prop where
  linked : Linked a.ledger.reservationCapacity home a.ledger.slotKey
  tracks : ∀ ref r, a.unreleased ref = some r ↔
    ∃ p < a.ledger.reservationCapacity, a.ledger.slotKey p = some ref ∧ a.ledger.reservations p = r
  good : ∀ ref r, a.unreleased ref = some r → r.Open ∧ a.ledger.Known r
  attributed : ∀ i, a.ledger.strategyIds i ≠ some unattributedStrategy
  balanced : ∀ d, Balanced (a.ledger.config.limits d).creditBudget
    (fun r => d ∈ a.ledger.dimsFor r) a.unreleased (a.ledger.dims d)

theorem Sound.start (maxStrategies maxVenues reservationCapacity : Nat) (config : RiskLedgerConfig) :
    (Audited.start maxStrategies maxVenues reservationCapacity config).Sound where
  linked := linked_empty _ _
  tracks := by
    intro ref r
    constructor
    · intro h
      cases h
    · rintro ⟨p, _, hkey, _⟩
      cases hkey
  good := by
    intro ref r h
    cases h
  attributed := by
    intro i h
    cases h
  balanced := by
    intro d
    refine ⟨?_, ?_⟩
    · exact (MapSum.total_empty _).symm
    · rw [show (Audited.start maxStrategies maxVenues reservationCapacity config).unreleased =
        fun _ => none from rfl, MapSum.total_empty, Int.sub_zero]
      rfl

section Reading
variable {a : Audited} {ref : BrokerOrderRef} {r : Reservation}

theorem Sound.find (h : a.Sound) (hr : a.unreleased ref = some r) :
    ∃ p < a.ledger.reservationCapacity, a.ledger.slotKey p = some ref ∧
      a.ledger.reservations p = r ∧ a.ledger.findReservation ref = some p := by
  obtain ⟨p, hp, hkey, hres⟩ := (h.tracks ref r).mp hr
  have hlookup : a.ledger.lookup ref = some p := h.linked.locate_of_stored hp hkey
  exact ⟨p, hp, hkey, hres, findReservation_eq_some_iff.mpr ⟨hlookup, hkey⟩⟩

theorem Sound.find_none (h : a.Sound) (hr : a.unreleased ref = none) :
    a.ledger.findReservation ref = none := by
  cases hf : a.ledger.findReservation ref with
  | none => rfl
  | some p =>
    obtain ⟨hlookup, hkey⟩ := findReservation_eq_some_iff.mp hf
    have hsome := (h.tracks ref _).mpr ⟨p, lookup_lt hlookup, hkey, rfl⟩
    rw [hr] at hsome
    cases hsome

theorem reserve_found {l : RiskLedger} {p : Nat} (hf : l.findReservation ref = some p)
    (strategy : UInt32) (venue : UInt64) (symbol : Nat) (side : Side) (volume : Int) :
    (l.reserve strategy venue symbol side volume ref).2 = false := by
  rcases l.reserve_cases strategy venue symbol side volume ref with
    hfail | ⟨q, hlookup, hfree, _, _⟩
  · rw [hfail]
  · rw [findReservation_eq_none hlookup hfree] at hf
    cases hf

theorem Sound.conserved (h : a.Sound) : a.Conserved where
  findable := by
    intro ref r hr
    obtain ⟨p, _, _, hres, hf⟩ := h.find hr
    exact ⟨p, hf, hres⟩
  reserved := by
    intro ref r hr
    obtain ⟨p, _, _, _, hf⟩ := h.find hr
    exact reserve_found hf
  reconciled := by
    intro ref r hr filled hmono d hd
    obtain ⟨p, _, _, rfl, hf⟩ := h.find hr
    rw [reconcile_eq hf (h.good ref _ hr).1 hmono]
    simp only [observe, Bool.false_eq_true, if_false]
    rw [touchAll_of_nodup _ _ (dimsFor_nodup _ _), if_pos hd]
    rfl
  released := by
    intro ref r hr d hd
    obtain ⟨p, _, _, rfl, hf⟩ := h.find hr
    rw [release_eq hf (h.good ref _ hr).1]
    simp only [vacate]
    rw [touchAll_of_nodup _ _ (dimsFor_nodup _ _), if_pos hd]
    exact ⟨rfl, rfl⟩
  strategies := by
    intro id s hs
    obtain ⟨i, hi, rfl⟩ := Option.map_eq_some_iff.mp hs
    obtain ⟨_, hid, _⟩ := findSlot_eq_some hi
    apply (h.balanced (.strategy i)).congr
    intro ref r _
    rw [decide_eq_decide, strategy_mem_dimsFor]
    constructor
    · rintro ⟨_, hslot⟩
      have hrid := (findSlot_eq_some hslot).2.1
      rw [hid] at hrid
      exact (Option.some.inj hrid).symm
    · rintro rfl
      refine ⟨?_, hi⟩
      intro hzero
      exact h.attributed i (by rw [hid, hzero])
  venues := by
    intro id s hs
    obtain ⟨i, hi, rfl⟩ := Option.map_eq_some_iff.mp hs
    obtain ⟨_, hid, _⟩ := findSlot_eq_some hi
    apply (h.balanced (.venue i)).congr
    intro ref r _
    rw [decide_eq_decide, venue_mem_dimsFor]
    constructor
    · intro hslot
      have hrid := (findSlot_eq_some hslot).2.1
      rw [hid] at hrid
      exact (Option.some.inj hrid).symm
    · rintro rfl
      exact hi
  symbols := by
    intro symbol s hs
    unfold symbolState at hs
    split at hs
    · rename_i hlt
      obtain rfl := Option.some.inj hs
      apply (h.balanced (.symbol symbol)).congr
      intro ref r _
      rw [decide_eq_decide, symbol_mem_dimsFor]
      constructor
      · exact And.left
      · rintro rfl
        exact ⟨rfl, hlt⟩
    · cases hs
  whole := by
    apply (h.balanced .global).congr
    intro ref r _
    exact decide_eq_true global_mem_dimsFor
  atRest := fun hnone d => (h.balanced d).atRest hnone

end Reading

section Rewriting

/-- Rewriting the slot that belongs to `ref` rewrites the entry of `ref` and no other. -/
theorem tracks_update {n p : Nat} {slots : Nat → Reservation} {u : Unreleased} {ref : BrokerOrderRef}
    (h : ∀ k r, u k = some r ↔ ∃ q < n, (slots q).key = some k ∧ slots q = r) (hp : p < n)
    (hslot : ∀ k, (slots p).key = some k → k = ref)
    (hother : ∀ q < n, q ≠ p → (slots q).key ≠ some ref)
    {r' : Reservation} {entry : Option Reservation}
    (hentry : (r'.key = none ∧ entry = none) ∨ (r'.key = some ref ∧ entry = some r')) (k : BrokerOrderRef)
    (r : Reservation) :
    Function.update u ref entry k = some r ↔
      ∃ q < n, (Function.update slots p r' q).key = some k ∧ Function.update slots p r' q = r := by
  by_cases hk : k = ref
  · subst hk
    rw [Function.update_self]
    constructor
    · intro he
      rcases hentry with ⟨_, hnone⟩ | ⟨hkey, hsome⟩
      · rw [hnone] at he
        cases he
      · rw [hsome] at he
        refine ⟨p, hp, ?_⟩
        rw [Function.update_self]
        exact ⟨hkey, Option.some.inj he⟩
    · rintro ⟨q, hq, hkey, rfl⟩
      have hqp : q = p := by
        by_contra hne
        rw [Function.update_of_ne hne] at hkey
        exact hother q hq hne hkey
      subst hqp
      rw [Function.update_self] at hkey ⊢
      rcases hentry with ⟨hnone, _⟩ | ⟨_, hsome⟩
      · rw [hnone] at hkey
        cases hkey
      · exact hsome
  · rw [Function.update_of_ne hk, h]
    constructor
    · rintro ⟨q, hq, hkey, rfl⟩
      have hqp : q ≠ p := by
        rintro rfl
        exact hk (hslot k hkey)
      refine ⟨q, hq, ?_⟩
      rw [Function.update_of_ne hqp]
      exact ⟨hkey, rfl⟩
    · rintro ⟨q, hq, hkey, rfl⟩
      have hqp : q ≠ p := by
        rintro rfl
        rw [Function.update_self] at hkey
        rcases hentry with ⟨hnone, _⟩ | ⟨hsome, _⟩
        · rw [hnone] at hkey
          cases hkey
        · rw [hsome] at hkey
          exact hk (Option.some.inj hkey).symm
      rw [Function.update_of_ne hqp] at hkey ⊢
      exact ⟨q, hq, hkey, rfl⟩

theorem knows {l : RiskLedger} {dims : Dimensions} {slots : Nat → Reservation} {count : Nat}
    {r : Reservation} (h : l.Known r) :
    Known { l with dims := dims, reservations := slots, reservationLiveCount := count } r :=
  h.imp (fun _ _ hi => hi) fun _ _ hi => hi

theorem forall_update {P : Reservation → Prop} {u : Unreleased} {ref : BrokerOrderRef}
    {entry : Option Reservation} (h : ∀ k r, u k = some r → P r) (hentry : ∀ r, entry = some r → P r)
    (k : BrokerOrderRef) (r : Reservation) (hr : Function.update u ref entry k = some r) : P r := by
  by_cases hk : k = ref
  · subst hk
    rw [Function.update_self] at hr
    exact hentry r hr
  · rw [Function.update_of_ne hk] at hr
    exact h k r hr

variable {a : Audited} {ref : BrokerOrderRef} {p : Nat}

theorem Sound.book (h : a.Sound) {r : Reservation} (hlookup : a.ledger.lookup ref = some p)
    (hfree : a.ledger.slotKey p = none) (hkey : r.key = some ref) (hopen : r.Open)
    (hknown : a.ledger.Known r) (hfilled : r.lastKnownFilled = 0)
    (hcredit : r.creditReserved = r.requestedVolume) :
    Sound ⟨a.ledger.book p r, Function.update a.unreleased ref (some r)⟩ := by
  have habsent := h.linked.absent_of_locate_free hlookup hfree
  have hnone : a.unreleased ref = none := by
    cases hu : a.unreleased ref with
    | none => rfl
    | some r' =>
      obtain ⟨q, hq, hqk, _⟩ := h.find hu
      exact absurd hqk (habsent q hq)
  refine ⟨?_, ?_, ?_, h.attributed, ?_⟩
  · show Linked _ home (a.ledger.book p r).slotKey
    rw [slotKey_book, hkey]
    exact h.linked.insert hlookup hfree
  · refine tracks_update h.tracks (lookup_lt hlookup) ?_ (fun q hq _ => habsent q hq)
      (Or.inr ⟨hkey, rfl⟩)
    intro k hk
    rw [slotKey] at hfree
    rw [hfree] at hk
    cases hk
  · refine forall_update (fun k r' hr' => (h.good k r' hr').imp id knows) ?_
    intro r' hr'
    obtain rfl := Option.some.inj hr'
    exact ⟨hopen, knows hknown⟩
  · intro d
    apply (h.balanced d).touch
    · intro r' hr'
      rw [hnone] at hr'
      cases hr'
    · intro r' hr'
      rw [Option.some.inj hr']
    · intro s
      simp [hnone, openVolume, DimensionState.hold, hfilled]
    · intro s
      simp [hnone, heldCredit, DimensionState.hold, hcredit]

theorem Sound.observe (h : a.Sound) {r : Reservation} {filled : Int}
    (hp : p < a.ledger.reservationCapacity) (hkey : a.ledger.slotKey p = some ref)
    (hr : a.ledger.reservations p = r) (hle : filled ≤ r.requestedVolume) :
    Sound ⟨a.ledger.observe p filled,
      Function.update a.unreleased ref (some { r with lastKnownFilled := filled })⟩ := by
  have hu : a.unreleased ref = some r := (h.tracks ref r).mpr ⟨p, hp, hkey, hr⟩
  obtain ⟨hopen, hknown⟩ := h.good ref r hu
  have hrkey : r.key = some ref := by
    rw [← hr]
    exact hkey
  subst hr
  refine ⟨?_, ?_, ?_, h.attributed, ?_⟩
  · show Linked _ home (a.ledger.observe p filled).slotKey
    rw [slotKey_observe]
    exact h.linked
  · refine tracks_update h.tracks hp ?_ ?_ (Or.inr ⟨hrkey, rfl⟩)
    · intro k hk
      rw [hrkey] at hk
      exact (Option.some.inj hk).symm
    · intro q hq hqp hqk
      exact hqp (h.linked.single q hq p hp ref hqk hkey)
  · refine forall_update (fun k r' hr' => (h.good k r' hr').imp id knows) ?_
    intro r' hr'
    obtain rfl := Option.some.inj hr'
    exact ⟨⟨hopen.occupied, hopen.active, hopen.credit, hle⟩,
      ⟨hknown.strategy, hknown.venue, hknown.symbol⟩⟩
  · intro d
    apply (h.balanced d).touch
    · intro r' hr'
      rw [hu] at hr'
      rw [Option.some.inj hr']
    · intro r' hr'
      rw [← Option.some.inj hr']
      rfl
    · intro s
      simp only [hu, Option.elim_some, openVolume, if_true, DimensionState.settle]
      omega
    · intro s
      simp only [hu, Option.elim_some, heldCredit, if_true, DimensionState.settle]
      omega

theorem Sound.vacate (h : a.Sound) (hp : p < a.ledger.reservationCapacity)
    (hkey : a.ledger.slotKey p = some ref) (hsafe : a.ledger.Uncrossed ref) :
    Sound ⟨a.ledger.vacate p, Function.update a.unreleased ref none⟩ := by
  have hu : a.unreleased ref = some (a.ledger.reservations p) :=
    (h.tracks ref _).mpr ⟨p, hp, hkey, rfl⟩
  refine ⟨?_, ?_, ?_, h.attributed, ?_⟩
  · show Linked _ home (a.ledger.vacate p).slotKey
    rw [slotKey_vacate]
    apply h.linked.erase
    exact (uncrossed_iff _ _).mp hsafe p hp hkey
  · refine tracks_update h.tracks hp ?_ ?_ (Or.inl ⟨rfl, rfl⟩)
    · intro k hk
      rw [slotKey] at hkey
      rw [hkey] at hk
      exact (Option.some.inj hk).symm
    · intro q hq hqp hqk
      exact hqp (h.linked.single q hq p hp ref hqk hkey)
  · refine forall_update (fun k r' hr' => (h.good k r' hr').imp id knows) ?_
    intro r' hr'
    cases hr'
  · intro d
    apply (h.balanced d).touch
    · intro r' hr'
      rw [hu] at hr'
      rw [Option.some.inj hr']
    · intro r' hr'
      cases hr'
    · intro s
      simp only [hu, Option.elim_some, Option.elim_none, openVolume, if_true, DimensionState.free]
      omega
    · intro s
      simp only [hu, Option.elim_some, Option.elim_none, heldCredit, if_true, DimensionState.free]
      omega

/-- Registrations and halts move no counter and no reservation. -/
theorem Sound.of_same (h : a.Sound) {l : RiskLedger} (hconfig : l.config = a.ledger.config)
    (hcap : l.reservationCapacity = a.ledger.reservationCapacity)
    (hslots : l.reservations = a.ledger.reservations)
    (hdims : ∀ d, (l.dims d).openExposure = (a.ledger.dims d).openExposure ∧
      (l.dims d).creditRemaining = (a.ledger.dims d).creditRemaining)
    (hstrategies : ∀ id i, a.ledger.findStrategySlot id = some i → l.findStrategySlot id = some i)
    (hvenues : ∀ id i, a.ledger.findVenueSlot id = some i → l.findVenueSlot id = some i)
    (hattributed : ∀ i, l.strategyIds i ≠ some unattributedStrategy) :
    Sound { a with ledger := l } := by
  have hkeys : l.slotKey = a.ledger.slotKey := by
    funext p
    rw [slotKey, slotKey, hslots]
  refine ⟨?_, ?_, ?_, hattributed, ?_⟩
  · show Linked l.reservationCapacity home l.slotKey
    rw [hcap, hkeys]
    exact h.linked
  · intro ref r
    show a.unreleased ref = some r ↔ ∃ p < l.reservationCapacity, l.slotKey p = some ref ∧
      l.reservations p = r
    rw [hcap, hkeys, hslots]
    exact h.tracks ref r
  · intro ref r hr
    obtain ⟨hopen, hknown⟩ := h.good ref r hr
    exact ⟨hopen, hknown.imp hstrategies hvenues⟩
  · intro d
    have hb : Balanced (a.ledger.config.limits d).creditBudget (fun r => d ∈ l.dimsFor r)
        a.unreleased (a.ledger.dims d) := by
      apply (h.balanced d).congr
      intro ref r hr
      rw [(h.good ref r hr).2.dimsFor_eq hstrategies hvenues]
    show Balanced (l.config.limits d).creditBudget (fun r => d ∈ l.dimsFor r) a.unreleased (l.dims d)
    rw [hconfig]
    exact ⟨(hdims d).1.trans hb.exposure, (hdims d).2.trans hb.credit⟩

theorem Sound.registerStrategy (h : a.Sound) (id : UInt32) :
    Sound { a with ledger := (a.ledger.registerStrategy id).1 } := by
  rcases a.ledger.registerStrategy_cases id with hsame | ⟨i, hid, hnew, hfree, hdone⟩
  · rw [hsame]
    exact h
  · rw [hdone]
    refine h.of_same rfl rfl rfl (fun _ => ⟨rfl, rfl⟩) ?_ (fun _ _ hv => hv) ?_
    · intro other j hj
      exact findSlot_register hfree hnew hj
    · intro j
      dsimp only
      by_cases hj : j = i
      · rw [hj, Function.update_self, ne_eq, Option.some.injEq]
        exact hid
      · rw [Function.update_of_ne hj]
        exact h.attributed j

theorem Sound.registerVenue (h : a.Sound) (id : UInt64) :
    Sound { a with ledger := (a.ledger.registerVenue id).1 } := by
  rcases a.ledger.registerVenue_cases id with hsame | ⟨i, hnew, hfree, hdone⟩
  · rw [hsame]
    exact h
  · rw [hdone]
    refine h.of_same rfl rfl rfl (fun _ => ⟨rfl, rfl⟩) (fun _ _ hs => hs) ?_ h.attributed
    intro other j hj
    exact findSlot_register hfree hnew hj

theorem Sound.halt (h : a.Sound) (d : Dimension) : Sound { a with ledger := a.ledger.halt d } := by
  refine h.of_same rfl rfl rfl ?_ (fun _ _ hs => hs) (fun _ _ hv => hv) h.attributed
  intro e
  unfold RiskLedger.halt AllOrNothing.touch
  dsimp only
  by_cases he : e = d
  · rw [he, Function.update_self]
    exact ⟨rfl, rfl⟩
  · rw [Function.update_of_ne he]
    exact ⟨rfl, rfl⟩

theorem Sound.release (h : a.Sound) (hsafe : a.ledger.Uncrossed ref) :
    Sound ⟨a.ledger.release ref, Function.update a.unreleased ref none⟩ := by
  cases hu : a.unreleased ref with
  | none =>
    rw [release_of_none (h.find_none hu), ← hu, Function.update_eq_self]
    exact h
  | some r =>
    obtain ⟨p, hp, hkey, rfl, hf⟩ := h.find hu
    rw [release_eq hf (h.good ref _ hu).1]
    exact h.vacate hp hkey hsafe

theorem Sound.reconcile (h : a.Sound) {filled : Int} {gone : Bool}
    (hobs : a.Observed (.reconcile ref filled gone)) (hsafe : a.FreesSafely (.reconcile ref filled gone)) :
    Sound (a.step (.reconcile ref filled gone)) := by
  simp only [step]
  cases hu : a.unreleased ref with
  | none =>
    have hentry : (if gone = true then none else
        (none : Option Reservation).map fun r => { r with lastKnownFilled := filled }) =
        a.unreleased ref := by
      rw [hu]
      cases gone <;> rfl
    rw [reconcile_of_none (h.find_none hu), hentry, Function.update_eq_self]
    exact h
  | some r =>
    obtain ⟨hmono, hle⟩ := hobs r hu
    obtain ⟨p, hp, hkey, hr, hf⟩ := h.find hu
    have hseen := h.observe hp hkey hr hle
    rw [reconcile_eq hf (hr ▸ (h.good ref r hu).1) (hr ▸ hmono)]
    cases gone with
    | false => exact hseen
    | true =>
      -- The fill leaves the keys of the table alone, so the run of no ref changes.
      have hsafe' : (a.ledger.observe p filled).Uncrossed ref :=
        Uncrossed.congr hsafe rfl (slotKey_observe a.ledger p filled)
      have hdone := hseen.release hsafe'
      rw [Function.update_idem] at hdone
      exact hdone

/-- Releasing a ref whose slot another run crosses loses that other ref. -/
theorem Sound.release_loses (h : a.Sound) (hcrossing : ¬ a.ledger.Uncrossed ref) :
    ∃ k r, k ≠ ref ∧ a.unreleased k = some r ∧ (a.ledger.release ref).findReservation k = none := by
  rw [uncrossed_iff] at hcrossing
  push Not at hcrossing
  obtain ⟨p, hp, hkey, q, hq, k, hk, hcross⟩ := hcrossing
  have hu : a.unreleased ref = some (a.ledger.reservations p) :=
    (h.tracks ref _).mpr ⟨p, hp, hkey, rfl⟩
  have hlookup : a.ledger.lookup ref = some p := h.linked.locate_of_stored hp hkey
  have hf := findReservation_eq_some_iff.mpr ⟨hlookup, hkey⟩
  refine ⟨k, a.ledger.reservations q, ?_, (h.tracks k _).mpr ⟨q, hq, hk, rfl⟩, ?_⟩
  · rintro rfl
    rw [h.linked.single q hq p hp k hk hkey] at hcross
    exact Nat.lt_irrefl _ hcross
  · rw [release_eq hf (h.good ref _ hu).1]
    have hkeys := a.ledger.slotKey_vacate p
    refine findReservation_eq_none (p := p) ?_ (by rw [hkeys, Function.update_self])
    unfold lookup
    rw [hkeys]
    exact h.linked.locate_erase_of_crosses hp hq hk hcross

end Rewriting

theorem step_sound (a : Audited) (c : Call) (h : a.Sound) (hobs : a.Observed c)
    (hsafe : a.FreesSafely c) : (a.step c).Sound := by
  cases c with
  | registerStrategy id => exact h.registerStrategy id
  | registerVenue id => exact h.registerVenue id
  | haltStrategy id =>
    simp only [step, haltStrategy]
    split
    · exact h.halt _
    · exact h
  | haltVenue id =>
    simp only [step, haltVenue]
    split
    · exact h.halt _
    · exact h
  | haltSymbol symbol =>
    simp only [step, haltSymbol]
    split
    · exact h.of_same rfl rfl rfl (fun _ => ⟨rfl, rfl⟩) (fun _ _ hs => hs) (fun _ _ hv => hv)
        h.attributed
    · exact h
  | reserve strategy venue symbol side volume ref =>
    simp only [step]
    rcases a.ledger.reserve_cases strategy venue symbol side volume ref with
      hfail | ⟨p, hlookup, hfree, hadmitted, hdone⟩
    · rw [hfail]
      exact h
    · rw [hdone]
      refine h.book hlookup hfree rfl ⟨rfl, rfl, rfl, ?_⟩ hadmitted.known rfl rfl
      exact Int.le_of_lt hadmitted.volume_pos
  | reconcile ref filled gone => exact h.reconcile hobs hsafe
  | release ref => exact h.release hsafe

theorem step_loses (a : Audited) (c : Call) (h : a.Sound) (hobs : a.Observed c)
    (hcrossing : ¬ a.FreesSafely c) : ¬ (a.step c).Conserved := by
  -- Whatever the call, some other ref is unreleased and no longer found.
  have hlost : ∃ k r, (a.step c).unreleased k = some r ∧
      (a.step c).ledger.findReservation k = none := by
    cases c with
    | reconcile ref filled gone =>
      cases gone with
      | false => exact absurd trivial hcrossing
      | true =>
        simp only [step, if_true]
        cases hu : a.unreleased ref with
        | none =>
          refine absurd ?_ hcrossing
          rw [FreesSafely, uncrossed_iff]
          intro p hp hkey
          rw [(h.tracks ref _).mpr ⟨p, hp, hkey, rfl⟩] at hu
          cases hu
        | some r =>
          obtain ⟨hmono, hle⟩ := hobs r hu
          obtain ⟨p, hp, hkey, hr, hf⟩ := h.find hu
          have hseen := h.observe hp hkey hr hle
          have hcrossing' : ¬ (a.ledger.observe p filled).Uncrossed ref := by
            intro hsafe
            exact hcrossing (hsafe.congr rfl (slotKey_observe a.ledger p filled).symm)
          obtain ⟨k, r', hne, hk, hlost⟩ := hseen.release_loses hcrossing'
          dsimp only at hk
          rw [Function.update_of_ne hne] at hk
          rw [reconcile_eq hf (hr ▸ (h.good ref r hu).1) (hr ▸ hmono)]
          exact ⟨k, r', by rw [Function.update_of_ne hne]; exact hk, hlost⟩
    | release ref =>
      obtain ⟨k, r, hne, hk, hlost⟩ := h.release_loses hcrossing
      exact ⟨k, r, by simp only [step]; rw [Function.update_of_ne hne]; exact hk, hlost⟩
    | _ => exact absurd trivial hcrossing
  rintro hconserved
  obtain ⟨k, r, hk, hlost⟩ := hlost
  obtain ⟨p, hf, _⟩ := hconserved.findable k r hk
  rw [hlost] at hf
  cases hf

/-- Reservations are conserved in every state of a run precisely when no call of the run
frees a slot that the probe run of another reservation crosses. -/
theorem reservations_conserved_iff (maxStrategies maxVenues reservationCapacity : Nat)
    (config : RiskLedgerConfig) (calls : List Call)
    (hobs : Runs.Along step Observed (start maxStrategies maxVenues reservationCapacity config) calls) :
    Runs.Throughout step Conserved (start maxStrategies maxVenues reservationCapacity config) calls ↔
      Runs.Along step FreesSafely (start maxStrategies maxVenues reservationCapacity config) calls :=
  Runs.throughout_iff_along_within (fun _ h => h.conserved) step_sound step_loses
    (Sound.start maxStrategies maxVenues reservationCapacity config) hobs

/-- One venue and two refs with the same home in a table of eight. -/
def collidingRun : List Call :=
  [.registerVenue 7, .reserve unattributedStrategy 7 0 .buy 10 ⟨1, 0⟩,
    .reserve unattributedStrategy 7 0 .buy 20 ⟨1, 8⟩]

def collided : Audited := Runs.run step (start 0 1 8 {}) collidingRun

/-- Releasing in the opposite order is safe: the later ref first, after a partial fill. -/
theorem reservations_conserved_last_first :
    Runs.Throughout step Conserved (start 0 1 8 {})
      (collidingRun ++ [.reconcile ⟨1, 8⟩ 5 false, .release ⟨1, 8⟩, .reconcile ⟨1, 0⟩ 10 true]) := by
  refine (reservations_conserved_iff 0 1 8 {} _ ?_).mpr ?_
  · refine ⟨trivial, trivial, trivial, ?_, trivial, ?_, trivial⟩
    · intro r hr
      have hbooked : collided.unreleased ⟨1, 8⟩ = some (booked 0 7 0 .buy 20 ⟨1, 8⟩) := by
        decide +kernel
      obtain rfl := Option.some.inj (hbooked.symm.trans hr)
      exact ⟨by decide, by decide⟩
    · intro r hr
      have hbooked : (Runs.run step collided [.reconcile ⟨1, 8⟩ 5 false, .release ⟨1, 8⟩]).unreleased
          ⟨1, 0⟩ = some (booked 0 7 0 .buy 10 ⟨1, 0⟩) := by
        decide +kernel
      obtain rfl := Option.some.inj (hbooked.symm.trans hr)
      exact ⟨by decide, by decide⟩
  · refine ⟨trivial, trivial, trivial, trivial, ?_, ?_, trivial⟩
    · have hsafe : (Runs.run step collided [.reconcile ⟨1, 8⟩ 5 false]).ledger.Uncrossed ⟨1, 8⟩ := by
        decide +kernel
      exact hsafe
    · have hsafe : (Runs.run step collided [.reconcile ⟨1, 8⟩ 5 false, .release ⟨1, 8⟩]).ledger.Uncrossed
          ⟨1, 0⟩ := by
        decide +kernel
      exact hsafe

/-- Two of eight slots are taken. Releasing the first ref hides the second: it is no longer
found, can be reserved again, and releasing it gives back nothing. -/
theorem reservation_lost_by_release :
    Runs.Along step Observed (start 0 1 8 {}) (collidingRun ++ [.release ⟨1, 0⟩]) ∧
    (collided.step (.release ⟨1, 0⟩)).unreleased ⟨1, 8⟩ = some (booked 0 7 0 .buy 20 ⟨1, 8⟩) ∧
    (collided.step (.release ⟨1, 0⟩)).ledger.findReservation ⟨1, 8⟩ = none ∧
    ((collided.step (.release ⟨1, 0⟩)).ledger.reserve 0 7 0 .buy 20 ⟨1, 8⟩).2 = true ∧
    (((collided.step (.release ⟨1, 0⟩)).ledger.release ⟨1, 8⟩).dims .global).openExposure = 20 ∧
    ¬ Runs.Throughout step Conserved (start 0 1 8 {}) (collidingRun ++ [.release ⟨1, 0⟩]) := by
  have hkept : (collided.step (.release ⟨1, 0⟩)).unreleased ⟨1, 8⟩ =
      some (booked 0 7 0 .buy 20 ⟨1, 8⟩) := by decide +kernel
  have hlost : (collided.step (.release ⟨1, 0⟩)).ledger.findReservation ⟨1, 8⟩ = none := by
    decide +kernel
  refine ⟨⟨trivial, trivial, trivial, trivial, trivial⟩, hkept, hlost, by decide +kernel,
    by decide +kernel, ?_⟩
  intro hall
  have hconserved : (collided.step (.release ⟨1, 0⟩)).Conserved := hall.last
  obtain ⟨p, hf, _⟩ := hconserved.findable _ _ hkept
  rw [hlost] at hf
  cases hf

end Audited

end MicrostructureEngine.RiskLedger
