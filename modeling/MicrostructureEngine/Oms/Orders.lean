import MicrostructureEngine.Oms.Index
import MicrostructureEngine.Lib.MapSum

/-!
# Class `Oms`: storage together with its invariant

An `Oms` is an `OmsState` whose representation invariant holds, so every operation is
total on reachable states and no later proof looks at the index again. What an operation
does is said once, as an `Effect`: one key of the map `find` is rewritten and the stored
reservation moves by a known amount.
-/

namespace MicrostructureEngine

set_option autoImplicit false

namespace OmsState

section Operations
variable {s : OmsState} (h : s.Inv)
include h

theorem Inv.transition_of_none {ref : BrokerOrderRef} (hf : s.find ref = none) (next : OrderState) :
    s.transition ref next = (false, s) := by
  have habs := h.indexProbeFind_absent (h.find_eq_none_iff.mp hf)
  simp [transition, habs]

/-- The part of `transition` after the lookup, on the slot that holds the reference. -/
theorem Inv.transition_slot {i : Nat} (hi : i < s.count) (next : OrderState) :
    s.transition (s.slotRef i) next =
      if !legal (s.orders i).state next then (false, s)
      else (true, if next.isTerminal then (s.setState i next).reclaim i else s.setState i next) := by
  obtain ⟨p, hp, hf, hc⟩ := h.indexProbeFind_live hi
  unfold transition
  simp only [hf, hc, Probing.Cell.slot]
  rw [if_neg (by omega)]

theorem Inv.setState_inv {i : Nat} (hi : i < s.count) (next : OrderState) :
    (s.setState i next).Inv ∧ (s.setState i next).find =
      Function.update s.find (s.slotRef i) (some { s.orders i with state := next }) := by
  -- No lookup reads the reservation, so the array write decides both parts.
  obtain ⟨hinv, hfind⟩ := h.setSlot hi (o := { s.orders i with state := next }) rfl rfl
  exact ⟨⟨hinv.pow, hinv.room, hinv.count_le, hinv.distinct, hinv.indexed⟩, hfind⟩

end Operations

theorem restore_push {s : OmsState} {o : Order} (hnew : s.find o.ref = none) (hroom : s.count < s.capacity)
    (hreq : 0 < o.requestedVolume) (hfill : 0 ≤ o.filledVolume)
    (hle : o.filledVolume ≤ o.requestedVolume) :
    s.restore o = (some o, { OmsState.indexInsert { s with
        orders := Function.update s.orders s.count o } o.ref s.count with
      reserved := s.reserved + if o.state.reservesExposure then o.requestedVolume else 0
      count := s.count + 1 }) := by
  unfold restore
  rw [if_neg (by simp only [hnew, Option.isSome_none]; simp; omega)]
  by_cases hr : o.state.reservesExposure = true <;> simp [hr]

theorem create_push {s : OmsState} {ref : BrokerOrderRef} (hnew : s.find ref = none)
    (hroom : s.count < s.capacity) (symbol : Nat) (volume : Int) :
    s.create ref symbol volume =
      (some { ref := ref, symbolId := symbol, requestedVolume := volume, state := .pendingSend },
        { OmsState.indexInsert { s with
            count := s.count + 1
            orders := Function.update s.orders s.count
              { ref := ref, symbolId := symbol, requestedVolume := volume, state := .pendingSend } }
            ref s.count with
          reserved := s.reserved + volume }) := by
  unfold create
  rw [if_neg (by simp only [hnew, Option.isSome_none]; simp; omega)]
  simp

/-- `t` differs from `s` at one key of the order map and by `delta` in the reservation. -/
structure Effect (s t : OmsState) (ref : BrokerOrderRef) (y : Option Order) (delta : Int) : Prop where
  inv : t.Inv
  find : t.find = Function.update s.find ref y
  reserved : t.reserved = s.reserved + delta
  capacity : t.capacity = s.capacity

/-- What `transition` gives back to the reservation when it leaves a reserving state. -/
def released (o : Order) (next : OrderState) : Int :=
  if o.state.reservesExposure && !next.reservesExposure then o.requestedVolume else 0

section Effects
variable {s : OmsState} (h : s.Inv)
include h

theorem Inv.modify_effect (ref : BrokerOrderRef) {f : Order → Order}
    (href : ∀ o, (f o).ref = o.ref) :
    Effect s (s.modify ref f) ref ((s.find ref).map f) 0 :=
  ⟨h.modify_inv ref href, h.find_modify ref href, by simp, by simp⟩

theorem Inv.transition_effect {ref : BrokerOrderRef} {o : Order} (hf : s.find ref = some o)
    {next : OrderState} (hl : legal o.state next = true) :
    (s.transition ref next).1 = true ∧
      Effect s (s.transition ref next).2 ref
        (if next.isTerminal then none else some { o with state := next }) (-released o next) := by
  obtain ⟨i, hi, rfl, rfl⟩ := h.find_eq_some_iff.mp hf
  obtain ⟨hinv, hfind⟩ := h.setState_inv hi next
  have hres : (s.setState i next).reserved = s.reserved + -released (s.orders i) next := by
    unfold setState released
    dsimp only
    split <;> omega
  have heq : s.transition (s.orders i).ref next =
      (true, if next.isTerminal then (s.setState i next).reclaim i else s.setState i next) := by
    have := h.transition_slot hi next
    rwa [hl] at this
  rw [heq]
  refine ⟨rfl, ?_⟩
  cases ht : next.isTerminal with
  | false => exact ⟨hinv, hfind, hres, rfl⟩
  | true =>
    obtain ⟨hcap, _, hres', _⟩ := reclaim_fields (s.setState i next) i
    refine ⟨hinv.reclaim_inv hi, ?_, hres'.trans hres, hcap⟩
    have hkey : (s.setState i next).slotRef i = (s.orders i).ref := by
      simp only [slotRef, setState, Function.update_self]
    change ((s.setState i next).reclaim i).find = Function.update s.find (s.orders i).ref none
    rw [hinv.find_reclaim hi, hkey, hfind]
    exact Function.update_idem ..

theorem Inv.transition_of_illegal {ref : BrokerOrderRef} {o : Order} (hf : s.find ref = some o)
    {next : OrderState} (hl : legal o.state next = false) : s.transition ref next = (false, s) := by
  obtain ⟨i, hi, rfl, rfl⟩ := h.find_eq_some_iff.mp hf
  have heq := h.transition_slot hi next
  rwa [hl] at heq

theorem Inv.restore_effect {o : Order} (hnew : s.find o.ref = none) (hroom : s.count < s.capacity)
    (hreq : 0 < o.requestedVolume) (hfill : 0 ≤ o.filledVolume)
    (hle : o.filledVolume ≤ o.requestedVolume) :
    (s.restore o).1 = some o ∧
      Effect s (s.restore o).2 o.ref (some o)
        (if o.state.reservesExposure then o.requestedVolume else 0) := by
  rw [restore_push hnew hroom hreq hfill hle]
  obtain ⟨hinv, hfind⟩ := h.push hnew hroom (t := { OmsState.indexInsert { s with
        orders := Function.update s.orders s.count o } o.ref s.count with
      reserved := s.reserved + if o.state.reservesExposure then o.requestedVolume else 0
      count := s.count + 1 }) (by simp) (by simp) rfl (by simp)
    (indexInsert_index_congr (s := { s with orders := Function.update s.orders s.count o })
      (t := s) rfl rfl o.ref s.count)
  exact ⟨rfl, hinv, hfind, rfl, by simp⟩

theorem Inv.create_effect {ref : BrokerOrderRef} (hnew : s.find ref = none)
    (hroom : s.count < s.capacity) (symbol : Nat) (volume : Int) :
    (s.create ref symbol volume).1 =
        some { ref := ref, symbolId := symbol, requestedVolume := volume, state := .pendingSend } ∧
      Effect s (s.create ref symbol volume).2 ref
        (some { ref := ref, symbolId := symbol, requestedVolume := volume, state := .pendingSend })
        volume := by
  rw [create_push hnew hroom symbol volume]
  obtain ⟨hinv, hfind⟩ := h.push
    (o := { ref := ref, symbolId := symbol, requestedVolume := volume, state := .pendingSend })
    hnew hroom (t := { OmsState.indexInsert { s with
            count := s.count + 1
            orders := Function.update s.orders s.count
              { ref := ref, symbolId := symbol, requestedVolume := volume, state := .pendingSend } }
            ref s.count with
          reserved := s.reserved + volume }) (by simp) (by simp) (by simp) (by simp)
    (indexInsert_index_congr (s := { s with
      count := s.count + 1
      orders := Function.update s.orders s.count
        { ref := ref, symbolId := symbol, requestedVolume := volume, state := .pendingSend } })
      (t := s) rfl rfl ref s.count)
  exact ⟨rfl, hinv, hfind, rfl, by simp⟩

end Effects

section Preservation
variable {s : OmsState} (h : s.Inv)
include h

theorem Inv.transition_inv (ref : BrokerOrderRef) (next : OrderState) :
    (s.transition ref next).2.Inv := by
  cases hf : s.find ref with
  | none => rwa [h.transition_of_none hf]
  | some o =>
    cases hl : legal o.state next with
    | false => rwa [h.transition_of_illegal hf hl]
    | true => exact (h.transition_effect hf hl).2.inv

theorem Inv.restore_inv (o : Order) : (s.restore o).2.Inv := by
  by_cases hg : (s.find o.ref).isSome ∨ s.count ≥ s.capacity ∨ o.requestedVolume ≤ 0 ∨
      o.filledVolume < 0 ∨ o.filledVolume > o.requestedVolume
  · unfold restore
    rwa [if_pos hg]
  · simp only [not_or, Bool.not_eq_true, Option.isSome_eq_false_iff, Option.isNone_iff_eq_none] at hg
    obtain ⟨hnew, hroom, hreq, hfill, hle⟩ := hg
    exact (h.restore_effect hnew (by omega) (by omega) (by omega) (by omega)).2.inv

theorem Inv.create_inv (ref : BrokerOrderRef) (symbol : Nat) (volume : Int) :
    (s.create ref symbol volume).2.Inv := by
  by_cases hg : (s.find ref).isSome ∨ s.count ≥ s.capacity
  · unfold create
    rwa [if_pos hg]
  · simp only [not_or, Bool.not_eq_true, Option.isSome_eq_false_iff, Option.isNone_iff_eq_none] at hg
    exact (h.create_effect hg.1 (by omega) symbol volume).2.inv

theorem Inv.fill_inv (ref : BrokerOrderRef) (volume : Int) : (s.fill ref volume).2.Inv := by
  unfold fill
  split
  · exact h
  · split
    · exact h
    · exact (h.modify_inv ref (f := fun o => { o with filledVolume := o.filledVolume + volume })
        fun _ => rfl).transition_inv ref _

theorem Inv.recoverFill_inv (ref : BrokerOrderRef) (volume : Int) :
    (s.recoverFill ref volume).2.Inv := by
  unfold recoverFill
  split
  · exact h
  · split
    · exact h
    · exact h.modify_inv ref (f := fun o => { o with filledVolume := o.filledVolume + volume })
        fun _ => rfl

theorem Inv.markUnknownOnRestart_inv (ref : BrokerOrderRef) :
    (s.markUnknownOnRestart ref).2.Inv := by
  unfold markUnknownOnRestart
  split
  · exact h
  · split
    · exact h
    · exact h.modify_inv ref (f := fun o => { o with state := .unknown }) fun _ => rfl

theorem Inv.resolveUnknown_inv (ref : BrokerOrderRef) (terminal : OrderState) :
    (s.resolveUnknown ref terminal).2.Inv := by
  unfold resolveUnknown
  split
  · exact h
  · split
    · exact h.transition_inv ref terminal
    · exact h

/-- An assigned store is its source, cell by cell, below both capacities. -/
theorem Inv.assign_inv (t : OmsState) : (t.assign s).Inv ∧ (t.assign s).find = s.find := by
  have hcap : (t.assign s).capacity = s.capacity ∧ (t.assign s).indexCapacity = s.indexCapacity := by
    unfold assign
    dsimp only
    split
    · exact ⟨rfl, rfl⟩
    · rename_i hne
      simp only [not_or, not_not] at hne
      exact hne
  have hcells : (∀ i < s.capacity, (t.assign s).orders i = s.orders i) ∧
      ∀ p < s.indexCapacity, (t.assign s).index p = s.index p := by
    have horders : ∀ i < (t.assign s).capacity, (t.assign s).orders i = s.orders i := by
      intro i hi
      exact if_pos hi
    have hindex : ∀ p < (t.assign s).indexCapacity, (t.assign s).index p = s.index p := by
      intro p hp
      exact if_pos hp
    rw [hcap.1] at horders
    rw [hcap.2] at hindex
    exact ⟨horders, hindex⟩
  have hcount : (t.assign s).count = s.count := rfl
  have hslots : ∀ i < s.count, (t.assign s).orders i = s.orders i := by
    intro i hi
    exact hcells.1 i (Nat.lt_of_lt_of_le hi h.count_le)
  have hinv : (t.assign s).Inv := by
    refine ⟨by rw [hcap.2]; exact h.pow, by rw [hcap.1, hcap.2]; exact h.room,
      by rw [hcap.1]; exact h.count_le, ?_, ?_⟩
    · intro i j hi hj hij
      simp only [slotRef, hslots i hi, hslots j hj] at hij
      exact h.distinct i j hi hj hij
    · rw [hcap.2, home_congr hcap.2, hcount]
      refine (h.indexed.congr_cells hcells.2).congr (fun i => Iff.rfl) ?_
      intro i hi
      simp only [slotRef, hslots i hi]
  refine ⟨hinv, hinv.find_ext ?_⟩
  intro ref o
  rw [h.find_eq_some_iff, hcount]
  constructor
  · rintro ⟨i, hi, rfl, hr⟩
    exact ⟨i, hi, hslots i hi, hr⟩
  · rintro ⟨i, hi, rfl, hr⟩
    exact ⟨i, hi, (hslots i hi).symm, hr⟩

end Preservation

end OmsState

/-- Class `Oms`: no value of this type violates the representation invariant. -/
structure Oms extends OmsState where
  inv : toOmsState.Inv

namespace Oms

def new (capacity : Nat) : Oms := ⟨OmsState.new capacity, OmsState.inv_new capacity⟩

def find (o : Oms) (ref : BrokerOrderRef) : Option Order := o.toOmsState.find ref

/-- `at(i)`: the `i`-th live order of the dense array. -/
def atSlot (o : Oms) (i : Nat) : Order := o.orders i

def size (o : Oms) : Nat := o.count

def reservedExposure (o : Oms) : Int := o.reserved

def modify (o : Oms) (ref : BrokerOrderRef) (f : Order → Order) (hf : ∀ x, (f x).ref = x.ref) : Oms :=
  ⟨o.toOmsState.modify ref f, o.inv.modify_inv ref hf⟩

/-- Carries an operation on the fields over to the class. -/
def lift {α : Type} (r : α × OmsState) (h : r.2.Inv) : α × Oms := (r.1, ⟨r.2, h⟩)

def restore (o : Oms) (x : Order) : Option Order × Oms :=
  lift (o.toOmsState.restore x) (o.inv.restore_inv x)

def create (o : Oms) (ref : BrokerOrderRef) (symbol : Nat) (volume : Int) : Option Order × Oms :=
  lift (o.toOmsState.create ref symbol volume) (o.inv.create_inv ref symbol volume)

def transition (o : Oms) (ref : BrokerOrderRef) (next : OrderState) : Bool × Oms :=
  lift (o.toOmsState.transition ref next) (o.inv.transition_inv ref next)

def fill (o : Oms) (ref : BrokerOrderRef) (volume : Int) : Bool × Oms :=
  lift (o.toOmsState.fill ref volume) (o.inv.fill_inv ref volume)

def recoverFill (o : Oms) (ref : BrokerOrderRef) (volume : Int) : Bool × Oms :=
  lift (o.toOmsState.recoverFill ref volume) (o.inv.recoverFill_inv ref volume)

def markUnknownOnRestart (o : Oms) (ref : BrokerOrderRef) : Bool × Oms :=
  lift (o.toOmsState.markUnknownOnRestart ref) (o.inv.markUnknownOnRestart_inv ref)

def resolveUnknown (o : Oms) (ref : BrokerOrderRef) (terminal : OrderState) : Bool × Oms :=
  lift (o.toOmsState.resolveUnknown ref terminal) (o.inv.resolveUnknown_inv ref terminal)

def assign (o other : Oms) : Oms :=
  ⟨o.toOmsState.assign other.toOmsState, (other.inv.assign_inv o.toOmsState).1⟩

theorem ext_state {o o' : Oms} (h : o.toOmsState = o'.toOmsState) : o = o' := by
  cases o
  cases o'
  cases h
  rfl

theorem lift_eq {α : Type} {r : α × OmsState} {h : r.2.Inv} {a : α} {o : Oms}
    (heq : r = (a, o.toOmsState)) : lift r h = (a, o) := by
  subst heq
  rfl

theorem lift_congr {α : Type} {r r' : α × OmsState} {h : r.2.Inv} {h' : r'.2.Inv}
    (heq : r = r') : lift r h = lift r' h' := by
  subst heq
  rfl

theorem find_ref (o : Oms) {ref : BrokerOrderRef} {x : Order} (h : o.find ref = some x) :
    x.ref = ref := o.inv.find_ref h

/-- The order map of `o'` is that of `o` rewritten at `ref`, its reservation moved by `delta`. -/
structure Effect (o o' : Oms) (ref : BrokerOrderRef) (y : Option Order) (delta : Int) : Prop where
  find : o'.find = Function.update o.find ref y
  reserved : o'.reservedExposure = o.reservedExposure + delta
  capacity : o'.capacity = o.capacity

theorem Effect.of_state {o o' : Oms} {ref : BrokerOrderRef} {y : Option Order} {delta : Int}
    (h : OmsState.Effect o.toOmsState o'.toOmsState ref y delta) : Effect o o' ref y delta :=
  ⟨h.find, h.reserved, h.capacity⟩

theorem Effect.find_self {o o' : Oms} {ref : BrokerOrderRef} {y : Option Order} {delta : Int}
    (h : Effect o o' ref y delta) : o'.find ref = y := by
  rw [h.find, Function.update_self]

theorem Effect.find_of_ne {o o' : Oms} {ref : BrokerOrderRef} {y : Option Order} {delta : Int}
    (h : Effect o o' ref y delta) {r : BrokerOrderRef} (hr : r ≠ ref) : o'.find r = o.find r := by
  rw [h.find, Function.update_of_ne hr]

/-- Two writes under one reference compose. -/
theorem Effect.trans {o o' o'' : Oms} {ref : BrokerOrderRef} {y z : Option Order} {d e : Int}
    (h : Effect o o' ref y d) (h' : Effect o' o'' ref z e) : Effect o o'' ref z (d + e) where
  find := by rw [h'.find, h.find, Function.update_idem]
  reserved := by rw [h'.reserved, h.reserved]; omega
  capacity := h'.capacity.trans h.capacity

variable (o : Oms) {ref : BrokerOrderRef} {x : Order}

theorem modify_effect (ref : BrokerOrderRef) {f : Order → Order} (hf : ∀ x, (f x).ref = x.ref) :
    Effect o (o.modify ref f hf) ref ((o.find ref).map f) 0 :=
  .of_state (o.inv.modify_effect ref hf)

theorem transition_of_none (h : o.find ref = none) (next : OrderState) :
    o.transition ref next = (false, o) :=
  lift_eq (o.inv.transition_of_none h next)

theorem transition_of_illegal (h : o.find ref = some x) {next : OrderState}
    (hl : legal x.state next = false) : o.transition ref next = (false, o) :=
  lift_eq (o.inv.transition_of_illegal h hl)

theorem transition_effect (h : o.find ref = some x) {next : OrderState}
    (hl : legal x.state next = true) :
    (o.transition ref next).1 = true ∧
      Effect o (o.transition ref next).2 ref
        (if next.isTerminal then none else some { x with state := next })
        (-OmsState.released x next) :=
  ⟨(o.inv.transition_effect h hl).1, .of_state (o.inv.transition_effect h hl).2⟩

theorem create_of_refused (symbol : Nat) (volume : Int)
    (h : o.find ref ≠ none ∨ o.capacity ≤ o.size) : o.create ref symbol volume = (none, o) := by
  have hg : (o.toOmsState.find ref).isSome ∨ o.count ≥ o.capacity :=
    h.imp (fun hf => Option.isSome_iff_ne_none.mpr hf) id
  have heq : o.toOmsState.create ref symbol volume = (none, o.toOmsState) := by
    unfold OmsState.create
    rw [if_pos hg]
  exact lift_eq heq

/-- The order a create puts into the store. -/
def created (ref : BrokerOrderRef) (symbol : Nat) (volume : Int) : Order :=
  { ref := ref, symbolId := symbol, requestedVolume := volume, state := .pendingSend }

theorem create_effect (symbol : Nat) (volume : Int) (h : o.find ref = none)
    (hroom : o.size < o.capacity) :
    (o.create ref symbol volume).1 = some (created ref symbol volume) ∧
      Effect o (o.create ref symbol volume).2 ref (some (created ref symbol volume)) volume :=
  ⟨(o.inv.create_effect h hroom symbol volume).1,
    .of_state (o.inv.create_effect h hroom symbol volume).2⟩

/-- What `restore` asks of an order besides a free reference and a free slot. -/
def restorable (x : Order) : Prop :=
  0 < x.requestedVolume ∧ 0 ≤ x.filledVolume ∧ x.filledVolume ≤ x.requestedVolume

instance (x : Order) : Decidable (restorable x) := inferInstanceAs (Decidable (_ ∧ _ ∧ _))

theorem restore_of_refused (x : Order)
    (h : o.find x.ref ≠ none ∨ o.capacity ≤ o.size ∨ ¬ restorable x) : o.restore x = (none, o) := by
  have hg : (o.toOmsState.find x.ref).isSome ∨ o.count ≥ o.capacity ∨ x.requestedVolume ≤ 0 ∨
      x.filledVolume < 0 ∨ x.filledVolume > x.requestedVolume := by
    rcases h with hf | hs | hx
    · exact Or.inl (Option.isSome_iff_ne_none.mpr hf)
    · exact Or.inr (Or.inl hs)
    · unfold restorable at hx
      omega
  have heq : o.toOmsState.restore x = (none, o.toOmsState) := by
    unfold OmsState.restore
    rw [if_pos hg]
  exact lift_eq heq

theorem restore_effect (h : o.find x.ref = none) (hroom : o.size < o.capacity)
    (hx : restorable x) :
    (o.restore x).1 = some x ∧
      Effect o (o.restore x).2 x.ref (some x)
        (if x.state.reservesExposure then x.requestedVolume else 0) :=
  ⟨(o.inv.restore_effect h hroom hx.1 hx.2.1 hx.2.2).1,
    .of_state (o.inv.restore_effect h hroom hx.1 hx.2.1 hx.2.2).2⟩

/-- A create has room, or it changes nothing. -/
theorem create_cases (ref : BrokerOrderRef) (symbol : Nat) (volume : Int) :
    (o.find ref = none ∧ o.size < o.capacity) ∨ o.create ref symbol volume = (none, o) := by
  by_cases hf : o.find ref = none
  · by_cases hs : o.size < o.capacity
    · exact Or.inl ⟨hf, hs⟩
    · exact Or.inr (o.create_of_refused symbol volume (Or.inr (Nat.le_of_not_lt hs)))
  · exact Or.inr (o.create_of_refused symbol volume (Or.inl hf))

theorem restore_cases (x : Order) :
    (o.find x.ref = none ∧ o.size < o.capacity ∧ restorable x) ∨ o.restore x = (none, o) := by
  by_cases hg : o.find x.ref = none ∧ o.size < o.capacity ∧ restorable x
  · exact Or.inl hg
  · refine Or.inr (o.restore_of_refused x ?_)
    by_cases hf : o.find x.ref = none
    · by_cases hs : o.size < o.capacity
      · exact Or.inr (Or.inr fun hx => hg ⟨hf, hs, hx⟩)
      · exact Or.inr (Or.inl (Nat.le_of_not_lt hs))
    · exact Or.inl hf

/-- A fill inside the range the volume check allows. -/
def fillable (x : Order) (volume : Int) : Prop := 0 < volume ∧ volume ≤ x.remaining

instance (x : Order) (volume : Int) : Decidable (fillable x volume) :=
  inferInstanceAs (Decidable (_ ∧ _))

/-- The order after the volume write of `fill` and `recover_fill`. -/
def addFill (x : Order) (volume : Int) : Order :=
  { x with filledVolume := x.filledVolume + volume }

theorem fill_of_none (h : o.find ref = none) (volume : Int) : o.fill ref volume = (false, o) := by
  have h' : o.toOmsState.find ref = none := h
  have heq : o.toOmsState.fill ref volume = (false, o.toOmsState) := by
    simp only [OmsState.fill, h']
  exact lift_eq heq

theorem fill_of_not_fillable (h : o.find ref = some x) {volume : Int} (hv : ¬ fillable x volume) :
    o.fill ref volume = (false, o) := by
  have h' : o.toOmsState.find ref = some x := h
  have hg : volume ≤ 0 ∨ volume > x.remaining := by
    unfold fillable at hv
    omega
  have heq : o.toOmsState.fill ref volume = (false, o.toOmsState) := by
    simp only [OmsState.fill, h', if_pos hg]
  exact lift_eq heq

/-- A fill in range is a volume write followed by an ordinary transition. -/
theorem fill_eq_transition (h : o.find ref = some x) {volume : Int} (hv : fillable x volume) :
    o.fill ref volume =
      (o.modify ref (addFill · volume) fun _ => rfl).transition ref
        (OmsState.fillTarget x volume) := by
  have h' : o.toOmsState.find ref = some x := h
  have hg : ¬ (volume ≤ 0 ∨ volume > x.remaining) := by
    unfold fillable at hv
    omega
  have heq : o.toOmsState.fill ref volume =
      (o.toOmsState.modify ref (addFill · volume)).transition ref
        (OmsState.fillTarget x volume) := by
    simp only [OmsState.fill, h', if_neg hg, addFill]
  exact lift_congr heq

theorem fill_effect (h : o.find ref = some x) {volume : Int} (hv : fillable x volume)
    (hl : legal x.state (OmsState.fillTarget x volume) = true) :
    (o.fill ref volume).1 = true ∧
      Effect o (o.fill ref volume).2 ref
        (if (OmsState.fillTarget x volume).isTerminal then none
          else some { addFill x volume with state := OmsState.fillTarget x volume })
        (-OmsState.released x (OmsState.fillTarget x volume)) := by
  have hm := o.modify_effect ref (f := (addFill · volume)) fun _ => rfl
  have hfind := hm.find_self
  rw [h, Option.map_some] at hfind
  have hl' : legal (addFill x volume).state (OmsState.fillTarget x volume) = true := hl
  obtain ⟨hok, he⟩ := transition_effect _ hfind hl'
  rw [fill_eq_transition o h hv]
  refine ⟨hok, ?_⟩
  have := hm.trans he
  rwa [Int.zero_add] at this

/-- The volume stays written when the state machine refuses the fill. -/
theorem fill_of_illegal (h : o.find ref = some x) {volume : Int} (hv : fillable x volume)
    (hl : legal x.state (OmsState.fillTarget x volume) = false) :
    (o.fill ref volume).1 = false ∧
      Effect o (o.fill ref volume).2 ref (some (addFill x volume)) 0 := by
  have hm := o.modify_effect ref (f := (addFill · volume)) fun _ => rfl
  have hfind := hm.find_self
  rw [h, Option.map_some] at hfind hm
  have hl' : legal (addFill x volume).state (OmsState.fillTarget x volume) = false := hl
  rw [fill_eq_transition o h hv, transition_of_illegal _ hfind hl']
  exact ⟨rfl, hm⟩

theorem recoverFill_of_none (h : o.find ref = none) (volume : Int) :
    o.recoverFill ref volume = (false, o) := by
  have h' : o.toOmsState.find ref = none := h
  have heq : o.toOmsState.recoverFill ref volume = (false, o.toOmsState) := by
    simp only [OmsState.recoverFill, h']
  exact lift_eq heq

theorem recoverFill_of_not_fillable (h : o.find ref = some x) {volume : Int}
    (hv : ¬ fillable x volume) : o.recoverFill ref volume = (false, o) := by
  have h' : o.toOmsState.find ref = some x := h
  have hg : volume ≤ 0 ∨ volume > x.remaining := by
    unfold fillable at hv
    omega
  have heq : o.toOmsState.recoverFill ref volume = (false, o.toOmsState) := by
    simp only [OmsState.recoverFill, h', if_pos hg]
  exact lift_eq heq

theorem recoverFill_eq (h : o.find ref = some x) {volume : Int} (hv : fillable x volume) :
    o.recoverFill ref volume = (true, o.modify ref (addFill · volume) fun _ => rfl) := by
  have h' : o.toOmsState.find ref = some x := h
  have hg : ¬ (volume ≤ 0 ∨ volume > x.remaining) := by
    unfold fillable at hv
    omega
  have heq : o.toOmsState.recoverFill ref volume =
      (true, o.toOmsState.modify ref (addFill · volume)) := by
    simp only [OmsState.recoverFill, h', if_neg hg, addFill]
  exact lift_eq heq

/-- The order after `mark_unknown_on_restart`. -/
def markUnknown (x : Order) : Order := { x with state := .unknown }

theorem markUnknownOnRestart_of_none (h : o.find ref = none) :
    o.markUnknownOnRestart ref = (false, o) := by
  have h' : o.toOmsState.find ref = none := h
  have heq : o.toOmsState.markUnknownOnRestart ref = (false, o.toOmsState) := by
    simp only [OmsState.markUnknownOnRestart, h']
  exact lift_eq heq

theorem markUnknownOnRestart_of_terminal (h : o.find ref = some x) (ht : x.state.isTerminal = true) :
    o.markUnknownOnRestart ref = (false, o) := by
  have h' : o.toOmsState.find ref = some x := h
  have heq : o.toOmsState.markUnknownOnRestart ref = (false, o.toOmsState) := by
    simp only [OmsState.markUnknownOnRestart, h', if_pos ht]
  exact lift_eq heq

theorem markUnknownOnRestart_eq (h : o.find ref = some x) (ht : x.state.isTerminal = false) :
    o.markUnknownOnRestart ref = (true, o.modify ref markUnknown fun _ => rfl) := by
  have h' : o.toOmsState.find ref = some x := h
  have hg : ¬ x.state.isTerminal = true := by simp [ht]
  have heq : o.toOmsState.markUnknownOnRestart ref =
      (true, o.toOmsState.modify ref markUnknown) := by
    simp only [OmsState.markUnknownOnRestart, h', if_neg hg]
    rfl
  exact lift_eq heq

theorem resolveUnknown_of_none (h : o.find ref = none) (terminal : OrderState) :
    o.resolveUnknown ref terminal = (false, o) := by
  have h' : o.toOmsState.find ref = none := h
  have heq : o.toOmsState.resolveUnknown ref terminal = (false, o.toOmsState) := by
    simp only [OmsState.resolveUnknown, h']
  exact lift_eq heq

theorem resolveUnknown_of_refused (h : o.find ref = some x) {terminal : OrderState}
    (hg : ¬ (x.state = .unknown ∧ terminal.isTerminal = true)) :
    o.resolveUnknown ref terminal = (false, o) := by
  have h' : o.toOmsState.find ref = some x := h
  have heq : o.toOmsState.resolveUnknown ref terminal = (false, o.toOmsState) := by
    simp only [OmsState.resolveUnknown, h', if_neg hg]
  exact lift_eq heq

theorem resolveUnknown_eq (h : o.find ref = some x) {terminal : OrderState}
    (hx : x.state = .unknown) (ht : terminal.isTerminal = true) :
    o.resolveUnknown ref terminal = o.transition ref terminal := by
  have h' : o.toOmsState.find ref = some x := h
  have heq : o.toOmsState.resolveUnknown ref terminal = o.toOmsState.transition ref terminal := by
    simp only [OmsState.resolveUnknown, h', hx, ht, and_self, if_true]
  exact lift_congr heq

@[simp] theorem find_new (capacity : Nat) : (Oms.new capacity).find = fun _ => none := by
  funext ref
  exact (OmsState.inv_new capacity).find_eq_none_iff.mpr fun i hi => absurd hi (Nat.not_lt_zero i)

section Counting

/-- Totals over the order map are sums over the slots `[0, size())`. -/
theorem total_find (f : Order → Int) :
    MapSum.total f o.find = ((List.range o.size).map fun i => f (o.atSlot i)).sum := by
  apply MapSum.total_eq_sum_range f o.find o.size o.atSlot Order.ref
  · intro i hi j hj he
    exact o.inv.distinct i j hi hj he
  · intro ref x
    exact o.inv.find_eq_some_iff

theorem size_eq_total : (o.size : Int) = MapSum.total (fun _ => 1) o.find := by
  rw [total_find]
  simp

end Counting

theorem Effect.size {o o' : Oms} {y : Option Order} {delta : Int} (h : Effect o o' ref y delta) :
    (o'.size : Int) = o.size - (o.find ref).elim 0 (fun _ => 1) + y.elim 0 (fun _ => 1) := by
  rw [size_eq_total, size_eq_total, h.find, MapSum.total_update]

end Oms

end MicrostructureEngine
