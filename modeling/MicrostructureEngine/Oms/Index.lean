import MicrostructureEngine.Oms.Store

/-!
# The representation invariant of the order store

`OmsState.Inv` ties the index to the dense array through `Probing.Indexed`. Every public
operation keeps it, including the reclaim that moves another order's slot and the rehash
that can fire inside any terminal transition.
-/

namespace MicrostructureEngine

open Probing
set_option autoImplicit false

theorem nextPow2Loop_spec (n : Nat) : ∀ fuel j, n ≤ 2 ^ j * 2 ^ fuel →
    (∃ k, nextPow2Loop n fuel (2 ^ j) = 2 ^ k) ∧ n ≤ nextPow2Loop n fuel (2 ^ j) := by
  intro fuel
  induction fuel with
  | zero =>
    intro j h
    exact ⟨⟨j, rfl⟩, by simpa [nextPow2Loop] using h⟩
  | succ fuel ih =>
    intro j h
    unfold nextPow2Loop
    split
    · have hshift : 2 ^ j <<< 1 = 2 ^ (j + 1) := by
        rw [Nat.shiftLeft_eq, Nat.pow_one, Nat.pow_succ]
      rw [hshift]
      apply ih
      calc n ≤ 2 ^ j * 2 ^ (fuel + 1) := h
        _ = 2 ^ (j + 1) * 2 ^ fuel := by
          rw [Nat.pow_succ 2 fuel, Nat.pow_succ 2 j, Nat.mul_comm (2 ^ fuel), Nat.mul_assoc]
    · exact ⟨⟨j, rfl⟩, by omega⟩

theorem nextPow2_spec (n : Nat) : (∃ k, nextPow2 n = 2 ^ k) ∧ n ≤ nextPow2 n := by
  have h := nextPow2Loop_spec n n 0
  simp only [Nat.pow_zero, Nat.one_mul] at h
  exact h (Nat.le_of_lt Nat.lt_two_pow_self)

namespace OmsState

/-- The key of a slot, as the index compares it. -/
def slotRef (s : OmsState) (slot : Nat) : BrokerOrderRef := (s.orders slot).ref

structure Inv (s : OmsState) : Prop where
  pow : ∃ k, s.indexCapacity = 2 ^ k
  room : 2 * s.capacity ≤ s.indexCapacity
  count_le : s.count ≤ s.capacity
  distinct : ∀ i j, i < s.count → j < s.count → s.slotRef i = s.slotRef j → i = j
  indexed : Indexed s.indexCapacity s.home s.index s.slotRef (· < s.count)

theorem mask_eq {s : OmsState} (hpow : ∃ k, s.indexCapacity = 2 ^ k) (x : Nat) :
    x &&& (s.indexCapacity - 1) = x % s.indexCapacity := by
  obtain ⟨k, hk⟩ := hpow
  rw [hk, Nat.and_two_pow_sub_one_eq_mod]

theorem probePos_eq {s : OmsState} (hpow : ∃ k, s.indexCapacity = 2 ^ k)
    (ref : BrokerOrderRef) (step : Nat) :
    s.probePos ref step = probe s.indexCapacity (s.home ref) step :=
  mask_eq hpow _

theorem probeStep_eq (s : OmsState) (ref : BrokerOrderRef) (pos : Nat) :
    s.probeStep ref pos =
      (lookupStep s.index s.slotRef ref pos).map fun r => r.getD s.indexCapacity := by
  unfold probeStep lookupStep slotRef
  cases s.index pos with
  | empty => rfl
  | tombstone => rfl
  | occupied i =>
    by_cases hi : (s.orders i).ref = ref <;> simp [hi]

/-- The source's loop is the library's, with `index_capacity_` standing for "not found". -/
theorem indexProbeFind_eq {s : OmsState} (hpow : ∃ k, s.indexCapacity = 2 ^ k)
    (ref : BrokerOrderRef) :
    s.indexProbeFind ref =
      (lookup s.indexCapacity s.home s.index s.slotRef ref).getD s.indexCapacity := by
  unfold indexProbeFind lookup
  simp only [probeStep_eq, probePos_eq hpow, scan_map]
  generalize scan s.indexCapacity _ = r
  rcases r with _ | _ | p <;> simp

theorem indexInsert_eq {s : OmsState} (hpow : ∃ k, s.indexCapacity = 2 ^ k)
    (ref : BrokerOrderRef) (slot : Nat) {p : Nat}
    (hf : freeCell s.indexCapacity (s.home ref) s.index = some p) :
    s.indexInsert ref slot = { s with
      tombstones := if s.index p = .tombstone then s.tombstones - 1 else s.tombstones
      index := Function.update s.index p (.occupied slot) } := by
  unfold indexInsert
  unfold freeCell at hf
  simp only [probePos_eq hpow, hf]

section InsertFields
variable (s : OmsState) (ref : BrokerOrderRef) (slot : Nat)

@[simp] theorem indexInsert_capacity : (s.indexInsert ref slot).capacity = s.capacity := by
  unfold indexInsert; split <;> rfl

@[simp] theorem indexInsert_indexCapacity :
    (s.indexInsert ref slot).indexCapacity = s.indexCapacity := by
  unfold indexInsert; split <;> rfl

@[simp] theorem indexInsert_orders : (s.indexInsert ref slot).orders = s.orders := by
  unfold indexInsert; split <;> rfl

@[simp] theorem indexInsert_count : (s.indexInsert ref slot).count = s.count := by
  unfold indexInsert; split <;> rfl

@[simp] theorem indexInsert_reserved : (s.indexInsert ref slot).reserved = s.reserved := by
  unfold indexInsert; split <;> rfl

end InsertFields

theorem home_congr {s t : OmsState} (h : s.indexCapacity = t.indexCapacity) : s.home = t.home := by
  funext ref
  simp only [home, h]

theorem slotRef_congr {s t : OmsState} (h : s.orders = t.orders) : s.slotRef = t.slotRef := by
  funext i
  simp only [slotRef, h]

/-- The new index depends on nothing but the old one. -/
theorem indexInsert_index_congr {s t : OmsState} (hicap : s.indexCapacity = t.indexCapacity)
    (hindex : s.index = t.index) (ref : BrokerOrderRef) (slot : Nat) :
    (s.indexInsert ref slot).index = (t.indexInsert ref slot).index := by
  unfold indexInsert probePos
  rw [home_congr hicap, hicap, hindex]
  split
  · exact hindex
  · rfl

/-- Indexing slot `m` after the slots below it. -/
theorem indexInsert_indexed {s : OmsState} (hpow : ∃ k, s.indexCapacity = 2 ^ k) {m : Nat}
    (hm : m < s.indexCapacity)
    (h : Indexed s.indexCapacity s.home s.index s.slotRef (· < m)) :
    Indexed s.indexCapacity s.home (s.indexInsert (s.slotRef m) m).index s.slotRef
      (· < m + 1) := by
  cases hf : freeCell s.indexCapacity (s.home (s.slotRef m)) s.index with
  | none => exact absurd hf (h.freeCell_ne_none (fun _ hi => hi) hm _)
  | some p =>
    rw [indexInsert_eq hpow _ _ hf]
    exact (h.insert (Nat.lt_irrefl m) hf).congr (fun i => by omega) (by simp)

/-- The body of the reindexing loop over the first `m` slots. -/
def reindex (s : OmsState) (m : Nat) : OmsState :=
  (List.range m).foldl (fun t slot => t.indexInsert (t.orders slot).ref slot) s

theorem reindex_succ (s : OmsState) (m : Nat) :
    s.reindex (m + 1) = (s.reindex m).indexInsert ((s.reindex m).slotRef m) m := by
  simp [reindex, List.range_succ, slotRef]

theorem reindex_fields (s : OmsState) (m : Nat) :
    (s.reindex m).capacity = s.capacity ∧ (s.reindex m).indexCapacity = s.indexCapacity ∧
      (s.reindex m).orders = s.orders ∧ (s.reindex m).count = s.count ∧
      (s.reindex m).reserved = s.reserved := by
  induction m with
  | zero => exact ⟨rfl, rfl, rfl, rfl, rfl⟩
  | succ m ih => simpa [reindex_succ] using ih

theorem reindex_indexed {s : OmsState} (hpow : ∃ k, s.indexCapacity = 2 ^ k)
    (hempty : s.index = fun _ => .empty) (m : Nat) (hm : m ≤ s.indexCapacity) :
    Indexed s.indexCapacity s.home (s.reindex m).index s.slotRef (· < m) := by
  induction m with
  | zero =>
    have hzero : (s.reindex 0).index = fun _ => .empty := hempty
    rw [hzero]
    exact (indexed_empty s.indexCapacity s.home s.slotRef).congr (by simp) (by simp)
  | succ m ih =>
    obtain ⟨_, hcap, horders, _, _⟩ := reindex_fields s m
    have hih := ih (by omega)
    rw [← hcap, ← home_congr hcap, ← slotRef_congr horders] at hih
    have hins := indexInsert_indexed (by rw [hcap]; exact hpow) (by rw [hcap]; omega) hih
    rw [hcap, home_congr hcap, slotRef_congr horders] at hins
    rw [reindex_succ, slotRef_congr horders]
    exact hins

theorem rehash_eq (s : OmsState) :
    s.rehash = OmsState.reindex { s with index := fun _ => .empty, tombstones := 0 } s.count := rfl

theorem rehash_fields (s : OmsState) :
    s.rehash.capacity = s.capacity ∧ s.rehash.indexCapacity = s.indexCapacity ∧
      s.rehash.orders = s.orders ∧ s.rehash.count = s.count ∧ s.rehash.reserved = s.reserved := by
  rw [rehash_eq]
  exact reindex_fields _ _

/-- A rehash needs nothing of the old index: it rebuilds every entry from the array. -/
theorem rehash_inv {s : OmsState} (hpow : ∃ k, s.indexCapacity = 2 ^ k)
    (hroom : 2 * s.capacity ≤ s.indexCapacity) (hcount : s.count ≤ s.capacity)
    (hdistinct : ∀ i j, i < s.count → j < s.count → s.slotRef i = s.slotRef j → i = j) :
    s.rehash.Inv := by
  obtain ⟨hcap, hicap, horders, hcnt, _⟩ := rehash_fields s
  have hidx := reindex_indexed (s := { s with index := fun _ => .empty, tombstones := 0 }) hpow rfl
    s.count (by dsimp only; omega)
  refine ⟨by rw [hicap]; exact hpow, by rw [hcap, hicap]; exact hroom,
    by rw [hcap, hcnt]; exact hcount, ?_, ?_⟩
  · rw [hcnt, slotRef_congr horders]
    exact hdistinct
  · rw [hcnt, slotRef_congr horders, hicap, home_congr hicap]
    exact hidx

theorem inv_new (capacity : Nat) : (OmsState.new capacity).Inv := by
  have h := nextPow2_spec ((if capacity ≠ 0 then capacity else 1) * 2)
  refine ⟨h.1, ?_, Nat.zero_le _, ?_, ?_⟩
  · have h2 := h.2
    show 2 * capacity ≤ nextPow2 ((if capacity ≠ 0 then capacity else 1) * 2)
    by_cases hc : capacity = 0
    · omega
    · rw [if_pos hc] at h2 ⊢
      omega
  · intro i j hi
    exact absurd hi (Nat.not_lt_zero i)
  · exact (indexed_empty _ _ (OmsState.new capacity).slotRef).congr (by simp [new]) (by simp)

section Lookup
variable {s : OmsState} (h : s.Inv)
include h

theorem Inv.indexProbeFind_live {i : Nat} (hi : i < s.count) :
    ∃ p < s.indexCapacity, s.indexProbeFind (s.slotRef i) = p ∧ s.index p = .occupied i := by
  obtain ⟨p, hp, hc⟩ := h.indexed.exists_cell hi
  refine ⟨p, hp, ?_, hc⟩
  rw [indexProbeFind_eq h.pow,
    (h.indexed.lookup_eq_some_iff h.distinct).mpr ⟨hp, i, hi, rfl, hc⟩]
  rfl

theorem Inv.indexProbeFind_absent {ref : BrokerOrderRef} (hr : ∀ i < s.count, s.slotRef i ≠ ref) :
    s.indexProbeFind ref = s.indexCapacity := by
  rw [indexProbeFind_eq h.pow, h.indexed.lookup_eq_none_iff.mpr hr]
  rfl

/-- Either the reference is absent, or the probe returns the cell of the one slot that has it. -/
theorem Inv.indexProbeFind_cases (ref : BrokerOrderRef) :
    (s.indexProbeFind ref = s.indexCapacity ∧ ∀ i < s.count, s.slotRef i ≠ ref) ∨
    ∃ i < s.count, s.slotRef i = ref ∧ s.indexProbeFind ref < s.indexCapacity ∧
      s.index (s.indexProbeFind ref) = .occupied i := by
  by_cases hr : ∃ i < s.count, s.slotRef i = ref
  · obtain ⟨i, hi, rfl⟩ := hr
    obtain ⟨p, hp, hf, hc⟩ := h.indexProbeFind_live hi
    exact Or.inr ⟨i, hi, rfl, by rw [hf]; exact hp, by rw [hf]; exact hc⟩
  · have habs : ∀ i < s.count, s.slotRef i ≠ ref := fun i hi he => hr ⟨i, hi, he⟩
    exact Or.inl ⟨h.indexProbeFind_absent habs, habs⟩

theorem Inv.find_slot {i : Nat} (hi : i < s.count) : s.find (s.slotRef i) = some (s.orders i) := by
  obtain ⟨p, hp, hf, hc⟩ := h.indexProbeFind_live hi
  unfold find
  simp only [hf, hc, Cell.slot]
  rw [if_neg (by omega)]

theorem Inv.find_eq_some_iff {ref : BrokerOrderRef} {o : Order} :
    s.find ref = some o ↔ ∃ i < s.count, s.orders i = o ∧ o.ref = ref := by
  constructor
  · intro hf
    rcases h.indexProbeFind_cases ref with ⟨hp, _⟩ | ⟨i, hi, rfl, _, _⟩
    · simp [find, hp] at hf
    · rw [h.find_slot hi, Option.some.injEq] at hf
      exact ⟨i, hi, hf, by rw [← hf]; rfl⟩
  · rintro ⟨i, hi, rfl, rfl⟩
    exact h.find_slot hi

theorem Inv.find_eq_none_iff {ref : BrokerOrderRef} :
    s.find ref = none ↔ ∀ i < s.count, s.slotRef i ≠ ref := by
  constructor
  · rintro hf i hi rfl
    rw [h.find_slot hi] at hf
    cases hf
  · intro hr
    simp [find, h.indexProbeFind_absent hr]

end Lookup

/-- The map an array of orders denotes is the one `find` computes. -/
theorem Inv.find_ext {s : OmsState} (h : s.Inv) {m : BrokerOrderRef → Option Order}
    (hm : ∀ ref o, m ref = some o ↔ ∃ i < s.count, s.orders i = o ∧ o.ref = ref) : s.find = m := by
  funext ref
  apply Option.ext
  intro o
  rw [h.find_eq_some_iff, hm]

theorem Inv.find_ref {s : OmsState} (h : s.Inv) {ref : BrokerOrderRef} {o : Order}
    (hf : s.find ref = some o) : o.ref = ref := by
  obtain ⟨_, _, _, hr⟩ := h.find_eq_some_iff.mp hf
  exact hr

section Modify
variable {s : OmsState} (h : s.Inv)
include h

/-- Rewriting one live slot without touching its reference. -/
theorem Inv.setSlot {i : Nat} {o : Order} (hi : i < s.count) (hr : o.ref = s.slotRef i)
    {t : OmsState} (ht : t = { s with orders := Function.update s.orders i o }) :
    t.Inv ∧ t.find = Function.update s.find (s.slotRef i) (some o) := by
  have hkeys : t.slotRef = s.slotRef := by
    funext j
    subst ht
    by_cases hj : j = i
    · subst hj
      simpa [slotRef] using hr
    · simp [slotRef, Function.update_of_ne hj]
  have hinv : t.Inv := by
    subst ht
    refine ⟨h.pow, h.room, h.count_le, ?_, ?_⟩
    · rw [hkeys]
      exact h.distinct
    · rw [hkeys]
      exact h.indexed
  refine ⟨hinv, hinv.find_ext ?_⟩
  intro ref o'
  have horders : t.orders = Function.update s.orders i o := by rw [ht]
  have hcount : t.count = s.count := by rw [ht]
  rw [horders, hcount]
  by_cases href : ref = s.slotRef i
  · subst href
    rw [Function.update_self, Option.some.injEq]
    constructor
    · rintro rfl
      exact ⟨i, hi, Function.update_self .., hr⟩
    · rintro ⟨j, hj, rfl, hjr⟩
      by_cases hji : j = i
      · rw [hji, Function.update_self]
      · rw [Function.update_of_ne hji] at hjr
        exact absurd (h.distinct j i hj hi hjr) hji
  · rw [Function.update_of_ne href, h.find_eq_some_iff]
    constructor
    · rintro ⟨j, hj, rfl, hjr⟩
      have hji : j ≠ i := by
        rintro rfl
        exact href hjr.symm
      exact ⟨j, hj, Function.update_of_ne hji .., hjr⟩
    · rintro ⟨j, hj, rfl, hjr⟩
      by_cases hji : j = i
      · rw [hji, Function.update_self, hr] at hjr
        exact absurd hjr.symm href
      · rw [Function.update_of_ne hji] at hjr ⊢
        exact ⟨j, hj, rfl, hjr⟩

theorem Inv.modify_of_none {ref : BrokerOrderRef} (hf : s.find ref = none) (f : Order → Order) :
    s.modify ref f = s := by
  have habs := h.indexProbeFind_absent (h.find_eq_none_iff.mp hf)
  simp [modify, habs]

/-- A pointer write lands in the slot that holds the reference. -/
theorem Inv.modify_eq {i : Nat} (hi : i < s.count) (f : Order → Order) :
    s.modify (s.slotRef i) f = { s with orders := Function.update s.orders i (f (s.orders i)) } := by
  obtain ⟨p, hp, hf, hc⟩ := h.indexProbeFind_live hi
  unfold modify
  simp only [hf, hc, Cell.slot]
  rw [if_neg (by omega)]

theorem Inv.modify_inv (ref : BrokerOrderRef) {f : Order → Order} (href : ∀ o, (f o).ref = o.ref) :
    (s.modify ref f).Inv := by
  cases hf : s.find ref with
  | none => rwa [h.modify_of_none hf]
  | some o =>
    obtain ⟨i, hi, rfl, rfl⟩ := h.find_eq_some_iff.mp hf
    exact (h.setSlot hi (href _) (h.modify_eq hi f)).1

theorem Inv.find_modify (ref : BrokerOrderRef) {f : Order → Order} (href : ∀ o, (f o).ref = o.ref) :
    (s.modify ref f).find = Function.update s.find ref ((s.find ref).map f) := by
  cases hf : s.find ref with
  | none => rw [h.modify_of_none hf, Option.map_none, ← hf, Function.update_eq_self]
  | some o =>
    obtain ⟨i, hi, rfl, rfl⟩ := h.find_eq_some_iff.mp hf
    exact (h.setSlot hi (href _) (h.modify_eq hi f)).2

end Modify

@[simp] theorem modify_reserved (s : OmsState) (ref : BrokerOrderRef) (f : Order → Order) :
    (s.modify ref f).reserved = s.reserved := by
  unfold modify; dsimp only; split <;> rfl

@[simp] theorem modify_count (s : OmsState) (ref : BrokerOrderRef) (f : Order → Order) :
    (s.modify ref f).count = s.count := by
  unfold modify; dsimp only; split <;> rfl

@[simp] theorem modify_capacity (s : OmsState) (ref : BrokerOrderRef) (f : Order → Order) :
    (s.modify ref f).capacity = s.capacity := by
  unfold modify; dsimp only; split <;> rfl

section Insert
variable {s : OmsState} (h : s.Inv)
include h

/-- Appending an order to the array and indexing its slot. -/
theorem Inv.push {o : Order} (hnew : s.find o.ref = none) (hroom : s.count < s.capacity)
    {t : OmsState} (hcap : t.capacity = s.capacity) (hicap : t.indexCapacity = s.indexCapacity)
    (hcount : t.count = s.count + 1) (horders : t.orders = Function.update s.orders s.count o)
    (hindex : t.index = (s.indexInsert o.ref s.count).index) :
    t.Inv ∧ t.find = Function.update s.find o.ref (some o) := by
  have habs := h.find_eq_none_iff.mp hnew
  have hold : ∀ j, j < s.count → t.orders j = s.orders j := by
    intro j hj
    rw [horders, Function.update_of_ne (by omega)]
  have hlast : t.orders s.count = o := by rw [horders, Function.update_self]
  have hinv : t.Inv := by
    refine ⟨by rw [hicap]; exact h.pow, by rw [hcap, hicap]; exact h.room, by omega, ?_, ?_⟩
    · intro i j hi hj hij
      rcases Nat.lt_or_ge i s.count with hi' | hi' <;> rcases Nat.lt_or_ge j s.count with hj' | hj'
      · apply h.distinct i j hi' hj'
        simpa only [slotRef, hold i hi', hold j hj'] using hij
      · have hjc : j = s.count := by omega
        subst hjc
        simp only [slotRef, hold i hi', hlast] at hij
        exact absurd hij (habs i hi')
      · have hic : i = s.count := by omega
        subst hic
        simp only [slotRef, hold j hj', hlast] at hij
        exact absurd hij.symm (habs j hj')
      · omega
    · have hbase : Indexed s.indexCapacity s.home s.index t.slotRef (· < s.count) := by
        refine h.indexed.congr (by simp) ?_
        intro i hi
        simp only [slotRef, hold i hi]
      have hins := indexInsert_indexed (s := { s with orders := t.orders }) h.pow
        (m := s.count) (by have := h.room; dsimp only; omega) hbase
      have hkey : slotRef { s with orders := t.orders } s.count = o.ref := by
        simp only [slotRef, hlast]
      rw [hkey, indexInsert_index_congr (s := { s with orders := t.orders }) (t := s) rfl rfl] at hins
      rw [hicap, home_congr hicap, hcount, hindex]
      exact hins
  refine ⟨hinv, hinv.find_ext ?_⟩
  intro ref o'
  rw [hcount]
  by_cases href : ref = o.ref
  · subst href
    rw [Function.update_self, Option.some.injEq]
    constructor
    · rintro rfl
      exact ⟨s.count, by omega, hlast, rfl⟩
    · rintro ⟨j, hj, rfl, hjr⟩
      rcases Nat.lt_or_ge j s.count with hj' | hj'
      · rw [hold j hj'] at hjr
        exact absurd hjr (habs j hj')
      · have hjc : j = s.count := by omega
        rw [hjc, hlast]
  · rw [Function.update_of_ne href, h.find_eq_some_iff]
    constructor
    · rintro ⟨j, hj, rfl, hjr⟩
      exact ⟨j, by omega, hold j hj, hjr⟩
    · rintro ⟨j, hj, rfl, hjr⟩
      rcases Nat.lt_or_ge j s.count with hj' | hj'
      · exact ⟨j, hj', (hold j hj').symm, hjr⟩
      · have hjc : j = s.count := by omega
        rw [hjc, hlast] at hjr
        exact absurd hjr.symm href

end Insert

section Remove
variable {s : OmsState} (h : s.Inv) {slot : Nat} (hslot : slot < s.count)
include h hslot

theorem Inv.eraseEntry_index : ∃ p < s.indexCapacity, s.index p = .occupied slot ∧
    (s.eraseEntry slot).index = Function.update s.index p .tombstone := by
  obtain ⟨p, hp, hf, hc⟩ := h.indexProbeFind_live hslot
  refine ⟨p, hp, hc, ?_⟩
  have hf' : s.indexProbeFind (s.orders slot).ref = p := hf
  simp only [eraseEntry, hf']

theorem Inv.eraseEntry_indexed :
    Indexed s.indexCapacity s.home (s.eraseEntry slot).index s.slotRef
      (fun j => j < s.count ∧ j ≠ slot) := by
  obtain ⟨p, hp, hc, he⟩ := h.eraseEntry_index hslot
  rw [he]
  exact h.indexed.erase hp hc

/-- The moved order is still found while it sits in both slots: its entry is the only live
one that carries its reference. -/
theorem Inv.indexProbeFind_moved (hne : slot ≠ s.count - 1) :
    ∃ p < s.indexCapacity, (s.eraseEntry slot).index p = .occupied (s.count - 1) ∧
      ((s.eraseEntry slot).copyLast slot).indexProbeFind (s.slotRef (s.count - 1)) = p := by
  have hidx := h.eraseEntry_indexed hslot
  have hlast : s.count - 1 < s.count ∧ s.count - 1 ≠ slot := ⟨by omega, Ne.symm hne⟩
  obtain ⟨p, hp, hc⟩ := hidx.exists_cell hlast
  refine ⟨p, hp, hc, ?_⟩
  have hkeys : ∀ j, j < s.count ∧ j ≠ slot →
      s.slotRef j = ((s.eraseEntry slot).copyLast slot).slotRef j := by
    rintro j ⟨_, hj⟩
    simp only [slotRef, copyLast, Function.update_of_ne hj, eraseEntry]
  have hidx' := hidx.congr (fun j => Iff.rfl) hkeys
  have hdist : ∀ i j, (i < s.count ∧ i ≠ slot) → (j < s.count ∧ j ≠ slot) →
      ((s.eraseEntry slot).copyLast slot).slotRef i =
        ((s.eraseEntry slot).copyLast slot).slotRef j → i = j := by
    intro i j hi hj hij
    rw [← hkeys i hi, ← hkeys j hj] at hij
    exact h.distinct i j hi.1 hj.1 hij
  have hl := (hidx'.lookup_eq_some_iff hdist (k := s.slotRef (s.count - 1)) (p := p)).mpr
    ⟨hp, s.count - 1, hlast, (hkeys _ hlast).symm, hc⟩
  have hhome : ((s.eraseEntry slot).copyLast slot).home = s.home := home_congr rfl
  rw [indexProbeFind_eq (s := (s.eraseEntry slot).copyLast slot) h.pow, hhome]
  exact congrArg (fun r => r.getD s.indexCapacity) hl

omit h hslot in
theorem fillHole_index_last (hlast : slot = s.count - 1) :
    ((s.eraseEntry slot).fillHole slot).index = (s.eraseEntry slot).index := by
  have hcount : (s.eraseEntry slot).count = s.count := rfl
  unfold fillHole
  rw [hcount, if_neg (not_not.mpr hlast)]

/-- The entry of the old last slot is relabelled in place. -/
theorem Inv.fillHole_index_moved (hne : slot ≠ s.count - 1) :
    ∃ p < s.indexCapacity, (s.eraseEntry slot).index p = .occupied (s.count - 1) ∧
      ((s.eraseEntry slot).fillHole slot).index =
        Function.update (s.eraseEntry slot).index p (.occupied slot) := by
  obtain ⟨p, hp, hc, hf⟩ := h.indexProbeFind_moved hslot hne
  refine ⟨p, hp, hc, ?_⟩
  have hcount : (s.eraseEntry slot).count = s.count := rfl
  have hmoved : (((s.eraseEntry slot).copyLast slot).orders slot).ref =
      s.slotRef (s.count - 1) := by
    simp only [copyLast, eraseEntry, Function.update_self, slotRef]
  unfold fillHole
  rw [hcount, if_pos hne]
  unfold relabelEntry
  rw [hmoved, hf]
  rfl

theorem Inv.fillHole_indexed :
    Indexed s.indexCapacity s.home ((s.eraseEntry slot).fillHole slot).index
      (fun j => (Function.update s.orders slot (s.orders (s.count - 1)) j).ref)
      (· < s.count - 1) := by
  have hidx := h.eraseEntry_indexed hslot
  by_cases hne : slot = s.count - 1
  · rw [fillHole_index_last hne]
    apply hidx.congr
    · intro j
      omega
    · rintro j ⟨_, hj⟩
      rw [Function.update_of_ne hj]
      rfl
  · obtain ⟨p, hp, hc, hindex⟩ := h.fillHole_index_moved hslot hne
    rw [hindex]
    refine (hidx.relabel hp hc (by simp)).congr ?_ ?_
    · intro j
      omega
    · intro j _
      by_cases hj : j = slot
      · subst hj
        simp only [Function.update_self]
        rfl
      · simp only [Function.update_of_ne hj]
        rfl

end Remove

theorem fillHole_fields (s : OmsState) (slot : Nat) :
    (s.fillHole slot).capacity = s.capacity ∧ (s.fillHole slot).indexCapacity = s.indexCapacity ∧
      (s.fillHole slot).count = s.count - 1 ∧ (s.fillHole slot).reserved = s.reserved ∧
      ∀ j < s.count - 1, (s.fillHole slot).orders j =
        Function.update s.orders slot (s.orders (s.count - 1)) j := by
  unfold fillHole
  split
  · exact ⟨rfl, rfl, rfl, rfl, fun _ _ => rfl⟩
  · refine ⟨rfl, rfl, rfl, rfl, ?_⟩
    intro j hj
    rw [Function.update_of_ne (by omega)]

/-- What `reclaim` leaves behind, whether or not it rehashed. -/
theorem reclaim_fields (s : OmsState) (slot : Nat) :
    (s.reclaim slot).capacity = s.capacity ∧ (s.reclaim slot).count = s.count - 1 ∧
      (s.reclaim slot).reserved = s.reserved ∧
      ∀ j < s.count - 1, (s.reclaim slot).orders j =
        Function.update s.orders slot (s.orders (s.count - 1)) j := by
  obtain ⟨hcap, _, hcount, hres, horders⟩ := fillHole_fields (s.eraseEntry slot) slot
  unfold reclaim
  dsimp only
  split
  · obtain ⟨hcap', _, horders', hcount', hres'⟩ := rehash_fields ((s.eraseEntry slot).fillHole slot)
    rw [hcap', hcount', hres', horders']
    exact ⟨hcap, hcount, hres, horders⟩
  · exact ⟨hcap, hcount, hres, horders⟩

theorem Inv.reclaim_inv {s : OmsState} (h : s.Inv) {slot : Nat} (hslot : slot < s.count) :
    (s.reclaim slot).Inv := by
  obtain ⟨hcap, hicap, hcount, _, horders⟩ := fillHole_fields (s.eraseEntry slot) slot
  have hpow : ∃ k, ((s.eraseEntry slot).fillHole slot).indexCapacity = 2 ^ k := by
    rw [hicap]
    exact h.pow
  have hroom : 2 * ((s.eraseEntry slot).fillHole slot).capacity ≤
      ((s.eraseEntry slot).fillHole slot).indexCapacity := by
    rw [hcap, hicap]
    exact h.room
  have hle : ((s.eraseEntry slot).fillHole slot).count ≤
      ((s.eraseEntry slot).fillHole slot).capacity := by
    rw [hcap, hcount]
    exact Nat.le_trans (Nat.sub_le _ _) h.count_le
  have hkeys : ∀ j < s.count - 1, ((s.eraseEntry slot).fillHole slot).slotRef j =
      (Function.update s.orders slot (s.orders (s.count - 1)) j).ref := by
    intro j hj
    unfold slotRef
    rw [horders j hj]
    rfl
  -- Slot `slot` now stands for the old last slot; both are outside each other's range.
  have hdist : ∀ i j, i < ((s.eraseEntry slot).fillHole slot).count →
      j < ((s.eraseEntry slot).fillHole slot).count →
      ((s.eraseEntry slot).fillHole slot).slotRef i =
        ((s.eraseEntry slot).fillHole slot).slotRef j → i = j := by
    rw [hcount]
    intro i j hi hj hij
    have hi' : i < s.count - 1 := hi
    have hj' : j < s.count - 1 := hj
    rw [hkeys i hi', hkeys j hj'] at hij
    have hback : ∀ k < s.count - 1, ∃ k' < s.count,
        (Function.update s.orders slot (s.orders (s.count - 1)) k).ref = s.slotRef k' ∧
        (k' = if k = slot then s.count - 1 else k) := by
      intro k hk
      by_cases hks : k = slot
      · exact ⟨s.count - 1, by omega, by rw [hks, Function.update_self]; rfl, by rw [if_pos hks]⟩
      · exact ⟨k, by omega, by rw [Function.update_of_ne hks]; rfl, by rw [if_neg hks]⟩
    obtain ⟨i', hi1, hi2, hi3⟩ := hback i hi'
    obtain ⟨j', hj1, hj2, hj3⟩ := hback j hj'
    rw [hi2, hj2] at hij
    have heq := h.distinct i' j' hi1 hj1 hij
    split at hi3 <;> split at hj3 <;> omega
  unfold reclaim
  dsimp only
  split
  · exact rehash_inv hpow hroom hle hdist
  · refine ⟨hpow, hroom, hle, hdist, ?_⟩
    have hidx := h.fillHole_indexed hslot
    rw [hicap, home_congr hicap, hcount]
    exact hidx.congr (fun j => Iff.rfl) (fun j hj => (hkeys j hj).symm)

theorem Inv.find_reclaim {s : OmsState} (h : s.Inv) {slot : Nat} (hslot : slot < s.count) :
    (s.reclaim slot).find = Function.update s.find (s.slotRef slot) none := by
  obtain ⟨_, hcount, _, horders⟩ := reclaim_fields s slot
  apply (h.reclaim_inv hslot).find_ext
  intro ref o
  rw [hcount]
  by_cases href : ref = s.slotRef slot
  · subst href
    rw [Function.update_self]
    constructor
    · intro hn
      cases hn
    · rintro ⟨j, hj, rfl, hjr⟩
      rw [horders j hj] at hjr
      by_cases hjs : j = slot
      · rw [hjs, Function.update_self] at hjr
        have := h.distinct (s.count - 1) slot (by omega) hslot hjr
        omega
      · rw [Function.update_of_ne hjs] at hjr
        exact absurd (h.distinct j slot (by omega) hslot hjr) hjs
  · rw [Function.update_of_ne href, h.find_eq_some_iff]
    constructor
    · rintro ⟨j, hj, rfl, hjr⟩
      have hjs : j ≠ slot := by
        rintro rfl
        exact href hjr.symm
      rcases Nat.lt_or_ge j (s.count - 1) with hlt | hge
      · exact ⟨j, hlt, by rw [horders j hlt, Function.update_of_ne hjs], hjr⟩
      · have hjl : j = s.count - 1 := by omega
        refine ⟨slot, by omega, ?_, hjr⟩
        rw [horders slot (by omega), Function.update_self, hjl]
    · rintro ⟨j, hj, rfl, hjr⟩
      rw [horders j hj] at hjr ⊢
      by_cases hjs : j = slot
      · rw [hjs, Function.update_self] at hjr ⊢
        exact ⟨s.count - 1, by omega, rfl, hjr⟩
      · rw [Function.update_of_ne hjs] at hjr ⊢
        exact ⟨j, by omega, rfl, hjr⟩

end OmsState

end MicrostructureEngine
