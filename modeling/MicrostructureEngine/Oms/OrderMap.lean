import MicrostructureEngine.Oms.Orders
import Mathlib.Algebra.BigOperators.Ring.Finset

/-!
# The order store as a finite map

`OrderMap` is what class `Oms` is for: a partial map from references to orders with a
bound on its size. The operations are restated on the map, and every operation of the
store computes the same answer and the same map. A reference is inserted by `create` or
`restore` and leaves the map when `transition`, `fill` or `resolve_unknown` makes its
order terminal.
-/

namespace MicrostructureEngine

set_option autoImplicit false

/-- The calls that change one order of an `Oms`. -/
inductive OmsOp where
  | create (ref : BrokerOrderRef) (symbol : Nat) (volume : Int)
  | restore (x : Order)
  | transition (ref : BrokerOrderRef) (next : OrderState)
  | fill (ref : BrokerOrderRef) (volume : Int)
  | recoverFill (ref : BrokerOrderRef) (volume : Int)
  | markUnknownOnRestart (ref : BrokerOrderRef)
  | resolveUnknown (ref : BrokerOrderRef) (terminal : OrderState)

namespace OmsOp

def ref : OmsOp → BrokerOrderRef
  | create r _ _ => r
  | restore x => x.ref
  | transition r _ => r
  | fill r _ => r
  | recoverFill r _ => r
  | markUnknownOnRestart r => r
  | resolveUnknown r _ => r

end OmsOp

/-- A call and whether it succeeded (a non-null pointer or `true`). -/
def OmsState.apply (s : OmsState) : OmsOp → Bool × OmsState
  | .create r symbol volume => ((s.create r symbol volume).1.isSome, (s.create r symbol volume).2)
  | .restore x => ((s.restore x).1.isSome, (s.restore x).2)
  | .transition r next => s.transition r next
  | .fill r volume => s.fill r volume
  | .recoverFill r volume => s.recoverFill r volume
  | .markUnknownOnRestart r => s.markUnknownOnRestart r
  | .resolveUnknown r terminal => s.resolveUnknown r terminal

theorem OmsState.Inv.apply_inv {s : OmsState} (h : s.Inv) (op : OmsOp) : (s.apply op).2.Inv := by
  cases op with
  | create r symbol volume => exact h.create_inv r symbol volume
  | restore x => exact h.restore_inv x
  | transition r next => exact h.transition_inv r next
  | fill r volume => exact h.fill_inv r volume
  | recoverFill r volume => exact h.recoverFill_inv r volume
  | markUnknownOnRestart r => exact h.markUnknownOnRestart_inv r
  | resolveUnknown r terminal => exact h.resolveUnknown_inv r terminal

namespace OmsState

variable (s : OmsState)

theorem transition_capacity (r : BrokerOrderRef) (next : OrderState) :
    (s.transition r next).2.capacity = s.capacity := by
  unfold transition
  dsimp only
  split
  · rfl
  · split
    · rfl
    · dsimp only
      split
      · exact (reclaim_fields _ _).1
      · rfl

/-- Only `operator=` resizes the arrays. -/
theorem apply_capacity (op : OmsOp) : (s.apply op).2.capacity = s.capacity := by
  cases op with
  | create r symbol volume =>
    simp only [apply, create]
    split <;> simp
  | restore x =>
    simp only [apply, restore]
    split
    · rfl
    · split <;> simp
  | transition r next => exact s.transition_capacity r next
  | fill r volume =>
    simp only [apply, fill]
    split
    · rfl
    · split
      · rfl
      · rw [transition_capacity, modify_capacity]
  | recoverFill r volume =>
    simp only [apply, recoverFill]
    split
    · rfl
    · split
      · rfl
      · exact modify_capacity s r _
  | markUnknownOnRestart r =>
    simp only [apply, markUnknownOnRestart]
    split
    · rfl
    · split
      · rfl
      · exact modify_capacity s r _
  | resolveUnknown r terminal =>
    simp only [apply, resolveUnknown]
    split
    · rfl
    · split
      · exact s.transition_capacity r terminal
      · rfl

theorem assign_capacity (other : OmsState) : (s.assign other).capacity = other.capacity := by
  unfold assign
  dsimp only
  split
  · rfl
  · rename_i hne
    exact not_not.mp fun h => hne (Or.inl h)

end OmsState

def Oms.apply (o : Oms) (op : OmsOp) : Bool × Oms := lift (o.toOmsState.apply op) (o.inv.apply_inv op)

abbrev OrderMap := BrokerOrderRef → Option Order

namespace OrderMap

noncomputable def size (m : OrderMap) : Nat := (Finset.univ.filter fun r => (m r).isSome).card

def transition (m : OrderMap) (r : BrokerOrderRef) (next : OrderState) : Bool × OrderMap :=
  match m r with
  | none => (false, m)
  | some x =>
    if legal x.state next then
      (true, Function.update m r (if next.isTerminal then none else some { x with state := next }))
    else (false, m)

/-- The abstract calls. A fill writes the volume before it asks for the transition. -/
noncomputable def apply (capacity : Nat) (m : OrderMap) : OmsOp → Bool × OrderMap
  | .create r symbol volume =>
    if m r = none ∧ m.size < capacity then
      (true, Function.update m r (some (Oms.created r symbol volume)))
    else (false, m)
  | .restore x =>
    if m x.ref = none ∧ m.size < capacity ∧ Oms.restorable x then
      (true, Function.update m x.ref (some x))
    else (false, m)
  | .transition r next => m.transition r next
  | .fill r volume =>
    match m r with
    | none => (false, m)
    | some x =>
      if Oms.fillable x volume then
        transition (Function.update m r (some (Oms.addFill x volume))) r (OmsState.fillTarget x volume)
      else (false, m)
  | .recoverFill r volume =>
    match m r with
    | none => (false, m)
    | some x =>
      if Oms.fillable x volume then (true, Function.update m r (some (Oms.addFill x volume)))
      else (false, m)
  | .markUnknownOnRestart r =>
    match m r with
    | none => (false, m)
    | some x =>
      if x.state.isTerminal then (false, m)
      else (true, Function.update m r (some (Oms.markUnknown x)))
  | .resolveUnknown r terminal =>
    match m r with
    | none => (false, m)
    | some x =>
      if x.state = .unknown ∧ terminal.isTerminal then m.transition r terminal else (false, m)

theorem total_one (m : OrderMap) : MapSum.total (fun _ => 1) m = m.size := by
  have hterm : ∀ r, ((m r).elim 0 fun _ => (1 : Int)) = if (m r).isSome then 1 else 0 := by
    intro r
    cases m r <;> rfl
  simp only [MapSum.total, size, hterm, Finset.sum_boole]

theorem transition_of_ne (m : OrderMap) {r r' : BrokerOrderRef} (next : OrderState) (hr : r' ≠ r) :
    (m.transition r next).2 r' = m r' := by
  unfold transition
  split
  · rfl
  · split
    · exact Function.update_of_ne hr _ _
    · rfl

/-- A call touches the key it names and no other. -/
theorem apply_of_ne (capacity : Nat) (m : OrderMap) (op : OmsOp) {r : BrokerOrderRef}
    (hr : r ≠ op.ref) : (m.apply capacity op).2 r = m r := by
  cases op with
  | create r' symbol volume =>
    simp only [apply]
    split
    · exact Function.update_of_ne hr _ _
    · rfl
  | restore x =>
    simp only [apply]
    split
    · exact Function.update_of_ne hr _ _
    · rfl
  | transition r' next => exact transition_of_ne m next hr
  | fill r' volume =>
    simp only [apply]
    split
    · rfl
    · split
      · exact (transition_of_ne _ _ hr).trans (Function.update_of_ne hr _ _)
      · rfl
  | recoverFill r' volume =>
    simp only [apply]
    split
    · rfl
    · split
      · exact Function.update_of_ne hr _ _
      · rfl
  | markUnknownOnRestart r' =>
    simp only [apply]
    split
    · rfl
    · split
      · rfl
      · exact Function.update_of_ne hr _ _
  | resolveUnknown r' terminal =>
    simp only [apply]
    split
    · rfl
    · split
      · exact transition_of_ne m terminal hr
      · rfl

end OrderMap

namespace Oms

variable (o : Oms)

theorem size_find : OrderMap.size o.find = o.size := by
  have h := o.size_eq_total
  rw [OrderMap.total_one] at h
  exact_mod_cast h.symm

/-- One call of the store and the same call of the map agree. -/
def Agrees (r : Bool × Oms) (q : Bool × OrderMap) : Prop := r.1 = q.1 ∧ r.2.find = q.2

theorem transition_agrees (r : BrokerOrderRef) (next : OrderState) :
    Agrees (o.transition r next) (OrderMap.transition o.find r next) := by
  unfold OrderMap.transition
  cases hf : o.find r with
  | none => simp [Agrees, transition_of_none o hf]
  | some x =>
    cases hl : legal x.state next with
    | false => simp [Agrees, transition_of_illegal o hf hl, hl]
    | true =>
      obtain ⟨hok, he⟩ := transition_effect o hf hl
      simp only [hl, if_true]
      exact ⟨hok, he.find⟩

theorem fill_agrees (r : BrokerOrderRef) (volume : Int) :
    Agrees (o.fill r volume) (OrderMap.apply o.capacity o.find (.fill r volume)) := by
  simp only [OrderMap.apply]
  cases hf : o.find r with
  | none => simp [Agrees, fill_of_none o hf]
  | some x =>
    by_cases hv : fillable x volume
    · have hm := (o.modify_effect r (f := (addFill · volume)) fun _ => rfl).find
      rw [hf, Option.map_some] at hm
      simp only [hv, if_true]
      rw [fill_eq_transition o hf hv, ← hm]
      exact transition_agrees _ r _
    · simp [Agrees, fill_of_not_fillable o hf hv, hv]

theorem recoverFill_agrees (r : BrokerOrderRef) (volume : Int) :
    Agrees (o.recoverFill r volume) (OrderMap.apply o.capacity o.find (.recoverFill r volume)) := by
  simp only [OrderMap.apply]
  cases hf : o.find r with
  | none => simp [Agrees, recoverFill_of_none o hf]
  | some x =>
    by_cases hv : fillable x volume
    · have hm := (o.modify_effect r (f := (addFill · volume)) fun _ => rfl).find
      rw [hf, Option.map_some] at hm
      simp only [hv, if_true, recoverFill_eq o hf hv]
      exact ⟨rfl, hm⟩
    · simp [Agrees, recoverFill_of_not_fillable o hf hv, hv]

theorem markUnknownOnRestart_agrees (r : BrokerOrderRef) :
    Agrees (o.markUnknownOnRestart r) (OrderMap.apply o.capacity o.find (.markUnknownOnRestart r)) := by
  simp only [OrderMap.apply]
  cases hf : o.find r with
  | none => simp [Agrees, markUnknownOnRestart_of_none o hf]
  | some x =>
    cases ht : x.state.isTerminal with
    | true => simp [Agrees, markUnknownOnRestart_of_terminal o hf ht, ht]
    | false =>
      have hm := (o.modify_effect r (f := markUnknown) fun _ => rfl).find
      rw [hf, Option.map_some] at hm
      simp only [ht, Bool.false_eq_true, if_false, markUnknownOnRestart_eq o hf ht]
      exact ⟨rfl, hm⟩

theorem resolveUnknown_agrees (r : BrokerOrderRef) (terminal : OrderState) :
    Agrees (o.resolveUnknown r terminal)
      (OrderMap.apply o.capacity o.find (.resolveUnknown r terminal)) := by
  simp only [OrderMap.apply]
  cases hf : o.find r with
  | none => simp [Agrees, resolveUnknown_of_none o hf]
  | some x =>
    by_cases hg : x.state = .unknown ∧ terminal.isTerminal = true
    · simp only [hg, and_self, if_true, resolveUnknown_eq o hf hg.1 hg.2]
      exact transition_agrees o r terminal
    · simp [Agrees, resolveUnknown_of_refused o hf hg, hg]

theorem create_agrees (r : BrokerOrderRef) (symbol : Nat) (volume : Int) :
    Agrees (o.apply (.create r symbol volume))
      (OrderMap.apply o.capacity o.find (.create r symbol volume)) := by
  simp only [OrderMap.apply, size_find]
  have happly : o.apply (.create r symbol volume) =
      ((o.create r symbol volume).1.isSome, (o.create r symbol volume).2) := rfl
  rw [happly]
  by_cases hg : o.find r = none ∧ o.size < o.capacity
  · obtain ⟨hok, he⟩ := create_effect o symbol volume hg.1 hg.2
    simp only [hg, and_self, if_true, hok]
    exact ⟨rfl, he.find⟩
  · have heq := (o.create_cases r symbol volume).resolve_left hg
    simp [Agrees, heq, hg]

theorem restore_agrees (x : Order) :
    Agrees (o.apply (.restore x)) (OrderMap.apply o.capacity o.find (.restore x)) := by
  simp only [OrderMap.apply, size_find]
  have happly : o.apply (.restore x) = ((o.restore x).1.isSome, (o.restore x).2) := rfl
  rw [happly]
  by_cases hg : o.find x.ref = none ∧ o.size < o.capacity ∧ restorable x
  · obtain ⟨hok, he⟩ := restore_effect o hg.1 hg.2.1 hg.2.2
    simp only [hg, and_self, if_true, hok]
    exact ⟨rfl, he.find⟩
  · have heq := (o.restore_cases x).resolve_left hg
    simp [Agrees, heq, hg]

/-- The store refines the map, one call at a time. -/
theorem apply_agrees (op : OmsOp) : Agrees (o.apply op) (OrderMap.apply o.capacity o.find op) := by
  cases op with
  | create r symbol volume => exact create_agrees o r symbol volume
  | restore x => exact restore_agrees o x
  | transition r next => exact transition_agrees o r next
  | fill r volume => exact fill_agrees o r volume
  | recoverFill r volume => exact recoverFill_agrees o r volume
  | markUnknownOnRestart r => exact markUnknownOnRestart_agrees o r
  | resolveUnknown r terminal => exact resolveUnknown_agrees o r terminal

end Oms

/-- `Reaches s m`: some sequence of constructions, calls and copy-assignments produces the
store `s`, and the same sequence on maps produces `m`. -/
inductive Reaches : OmsState → OrderMap → Prop where
  | new {capacity : Nat} (h : capacity < 2 ^ 32 - 2) :
      Reaches (OmsState.new capacity) (fun _ => none)
  | call {s : OmsState} {m : OrderMap} (h : Reaches s m) (op : OmsOp) :
      Reaches (s.apply op).2 (m.apply s.capacity op).2
  | assign {s t : OmsState} {m m' : OrderMap} (h : Reaches s m) (h' : Reaches t m') :
      Reaches (s.assign t) m'

/-- What every sequence keeps: the representation invariant, the abstract map, and a
capacity whose slots fit the 32-bit index words. -/
theorem Reaches.represents {s : OmsState} {m : OrderMap} (h : Reaches s m) :
    s.Inv ∧ s.find = m ∧ s.capacity < 2 ^ 32 - 2 := by
  induction h with
  | new hc => exact ⟨OmsState.inv_new _, Oms.find_new _, hc⟩
  | @call s m _ op ih =>
    obtain ⟨hinv, hfind, hcap⟩ := ih
    let o : Oms := ⟨s, hinv⟩
    obtain ⟨_, hagree⟩ := o.apply_agrees op
    have hsame : (s.apply op).2.capacity = s.capacity := OmsState.apply_capacity s op
    exact ⟨hinv.apply_inv op, by rw [← hfind]; exact hagree, by rw [hsame]; exact hcap⟩
  | @assign s t m m' _ _ _ ih =>
    obtain ⟨hinv, hfind, hcap⟩ := ih
    obtain ⟨hi, hf⟩ := hinv.assign_inv s
    exact ⟨hi, hf.trans hfind, by rw [OmsState.assign_capacity]; exact hcap⟩

/-- Every index word that names a slot below the capacity fits `uint32`. -/
theorem encodeWord_lt {s : OmsState} (h : s.Inv) (hcap : s.capacity < 2 ^ 32 - 2) {p : Nat}
    (hp : p < s.indexCapacity) : encodeWord (s.index p) < 2 ^ 32 := by
  cases hc : s.index p with
  | empty => decide
  | tombstone => decide
  | occupied i =>
    have hlive := h.indexed.live_of_cell p hp i hc
    have hle := h.count_le
    simp only [encodeWord, occupiedBias]
    omega

/-- Class `Oms` is a finite map from references to orders: the dense array holds exactly
the map, every call answers and updates like the map, and the index has one word for each
live slot and none besides. -/
theorem oms_refines_order_map {s : OmsState} {m : OrderMap} (h : Reaches s m) :
    (∀ i < s.count, ∀ j < s.count, (s.orders i).ref = (s.orders j).ref → i = j) ∧
    (∀ ref x, m ref = some x ↔ ∃ i < s.count, s.orders i = x ∧ x.ref = ref) ∧
    (∀ ref, s.find ref = m ref) ∧
    (∀ op, (s.apply op).1 = (m.apply s.capacity op).1 ∧
      (s.apply op).2.find = (m.apply s.capacity op).2) ∧
    (∀ op ref, ref ≠ op.ref → (s.apply op).2.find ref = s.find ref) ∧
    (∀ ref symbol volume,
      (s.create ref symbol volume).1.isSome ↔ s.find ref = none ∧ s.count < s.capacity) ∧
    (∀ i < s.count, ∃! p, p < s.indexCapacity ∧ s.index p = .occupied i) ∧
    (∀ p < s.indexCapacity, ∀ i, s.index p = .occupied i → i < s.count) ∧
    (∀ p < s.indexCapacity, encodeWord (s.index p) < 2 ^ 32) := by
  obtain ⟨hinv, hfind, hcap⟩ := h.represents
  subst hfind
  let o : Oms := ⟨s, hinv⟩
  have hagree : ∀ op, (s.apply op).1 = (OrderMap.apply s.capacity s.find op).1 ∧
      (s.apply op).2.find = (OrderMap.apply s.capacity s.find op).2 := fun op => o.apply_agrees op
  refine ⟨fun i hi j hj => hinv.distinct i j hi hj, fun ref x => hinv.find_eq_some_iff,
    fun ref => rfl, hagree, ?_, ?_, ?_, fun p hp i hc => hinv.indexed.live_of_cell p hp i hc,
    fun p hp => encodeWord_lt hinv hcap hp⟩
  · intro op ref hr
    rw [(hagree op).2]
    exact OrderMap.apply_of_ne s.capacity s.find op hr
  · intro ref symbol volume
    constructor
    · intro hsome
      by_contra hg
      have hnone : (s.create ref symbol volume).1 = none :=
        congrArg Prod.fst ((o.create_cases ref symbol volume).resolve_left hg)
      rw [hnone] at hsome
      cases hsome
    · rintro ⟨hf, hs⟩
      rw [(hinv.create_effect hf hs symbol volume).1]
      rfl
  · intro i hi
    obtain ⟨p, hp, hc⟩ := hinv.indexed.exists_cell hi
    refine ⟨p, ⟨hp, hc⟩, ?_⟩
    rintro q ⟨hq, hcq⟩
    exact hinv.indexed.single q hq p hp i hcq hc

theorem Reaches.calls {s : OmsState} {m : OrderMap} (h : Reaches s m) (ops : List OmsOp) :
    ∃ m', Reaches (ops.foldl (fun s op => (s.apply op).2) s) m' := by
  induction ops generalizing s m with
  | nil => exact ⟨m, h⟩
  | cons op ops ih => exact ih (h.call op)

/-- The first of two orders is rejected, and a third one comes in its place. -/
def reusedWord : List OmsOp :=
  [.create ⟨1, 7⟩ 0 5, .create ⟨1, 8⟩ 0 6, .transition ⟨1, 7⟩ .sent, .transition ⟨1, 7⟩ .rejected,
    .create ⟨1, 6⟩ 0 3]

/-- The third order takes the index word that the first one has left, and the store is copied into a
larger one. -/
theorem oms_refines_order_map_replaced :
    let left := (reusedWord.take 4).foldl (fun s op => (s.apply op).2) (OmsState.new 2)
    let s := (OmsState.new 3).assign (reusedWord.foldl (fun s op => (s.apply op).2) (OmsState.new 2))
    (left.index 1 = .tombstone ∧ s.index 1 = .occupied 1 ∧ s.find ⟨1, 7⟩ = none ∧
      s.find ⟨1, 6⟩ = some (Oms.created ⟨1, 6⟩ 0 3) ∧ s.find ⟨1, 8⟩ = some (Oms.created ⟨1, 8⟩ 0 6)) ∧
    (∃! p, p < s.indexCapacity ∧ s.index p = .occupied 0) ∧
    (∃! p, p < s.indexCapacity ∧ s.index p = .occupied 1) ∧
    ∀ op ref, ref ≠ op.ref → (s.apply op).2.find ref = s.find ref := by
  intro left s
  obtain ⟨m, hreplaced⟩ := (Reaches.new (by decide : 2 < 2 ^ 32 - 2)).calls reusedWord
  obtain ⟨_, _, _, _, hframe, _, hone, _⟩ :=
    oms_refines_order_map (.assign (.new (by decide : 3 < 2 ^ 32 - 2)) hreplaced)
  exact ⟨by decide +kernel, hone 0 (by decide +kernel), hone 1 (by decide +kernel), hframe⟩

end MicrostructureEngine
