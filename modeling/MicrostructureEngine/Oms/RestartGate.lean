import MicrostructureEngine.Oms.ExposureGates
import MicrostructureEngine.Oms.RestartRecovery
import MicrostructureEngine.Risk.Rebuild

/-!
# What a restart remembers

Restores, snapshots and the rebuild of the ledger can each leave an order out, and the result
only counts. The gate compares what is left with the venue, so it opens on an order that was
left out as long as the venue does not show it.
-/

namespace MicrostructureEngine

set_option autoImplicit false

/-! ## The restored orders -/

namespace ShardedOms

/-- The ring takes the restore, the reference is free, and its shard has room behind the orders
that were restored before. -/
def FitsBehind (s : ShardedOms) (full : Bool) (taken : List Order) (o : Order) : Prop :=
  full = false ∧ s.order o.ref = none ∧
    (s.shards (s.shardOf o.ref)).oms.size + taken.countP (fun x => s.shardOf x.ref == s.shardOf o.ref) <
      (s.shards (s.shardOf o.ref)).oms.capacity ∧
    Oms.restorable o

instance (s : ShardedOms) (full : Bool) (taken : List Order) (o : Order) : Decidable (s.FitsBehind full taken o) :=
  inferInstanceAs (Decidable (_ ∧ _ ∧ _ ∧ _))

def fitting (s : ShardedOms) : (Nat → Bool) → List Order → List Order → List Order
  | _, _, [] => []
  | full, taken, o :: orders =>
    if s.FitsBehind (full 0) taken o then o :: fitting s (fun k => full (k + 1)) (taken ++ [o]) orders
    else fitting s (fun k => full (k + 1)) taken orders

/-- `t` is `s` with the orders `taken` restored. -/
structure Reloaded (s t : ShardedOms) (taken : List Order) : Prop where
  shardCount : t.shardCount = s.shardCount
  kept : ∀ ref x, s.order ref = some x → t.order ref = some x
  restored : ∀ o ∈ taken, t.order o.ref = some (reloaded o)
  absent : ∀ ref, s.order ref = none → (∀ o ∈ taken, o.ref ≠ ref) → t.order ref = none
  size : ∀ i, (t.shards i).oms.size = (s.shards i).oms.size + taken.countP fun o => s.shardOf o.ref == i
  capacity : ∀ i, (t.shards i).oms.capacity = (s.shards i).oms.capacity

section Restore
variable {s t : ShardedOms} {taken : List Order}

theorem reloaded_refl (s : ShardedOms) : Reloaded s s [] := by
  refine ⟨rfl, fun _ _ h => h, fun o h => absurd h List.not_mem_nil, fun _ h _ => h, fun i => ?_, fun _ => rfl⟩
  rw [List.countP_nil, Nat.add_zero]

theorem Reloaded.shardOf (h : Reloaded s t taken) (ref : BrokerOrderRef) : t.shardOf ref = s.shardOf ref := by
  unfold ShardedOms.shardOf
  rw [h.shardCount]

/-- Whether a shard takes a new reference can be read off the system before all restores. -/
theorem Reloaded.refuses_iff (h : Reloaded s t taken) (full : Bool) {o : Order} (hnew : ∀ x ∈ taken, x.ref ≠ o.ref) :
    t.RefusesRestore full o ↔ ¬ s.FitsBehind full taken o := by
  have hfree : t.order o.ref = none ↔ s.order o.ref = none := by
    constructor
    · intro hnone
      cases hs : s.order o.ref with
      | none => rfl
      | some x =>
        rw [h.kept o.ref x hs] at hnone
        cases hnone
    · exact fun hnone => h.absent o.ref hnone hnew
  have hroom : t.Room o.ref ↔ (s.shards (s.shardOf o.ref)).oms.size +
      taken.countP (fun x => s.shardOf x.ref == s.shardOf o.ref) < (s.shards (s.shardOf o.ref)).oms.capacity := by
    unfold Room
    rw [h.shardOf, h.size, h.capacity]
  unfold RefusesRestore FitsBehind
  rw [← hroom, ← hfree]
  cases full with
  | true => simp
  | false => simp only [Bool.false_eq_true, true_and]; tauto

theorem Reloaded.submit (h : Reloaded s t taken) (full : Bool) {o : Order} (hnew : ∀ x ∈ taken, x.ref ≠ o.ref) :
    let r := t.submitRestore full o {}
    ((r.1 && r.2.1.ok) = true ↔ s.FitsBehind full taken o) ∧
      Reloaded s r.2.2 (if s.FitsBehind full taken o then taken ++ [o] else taken) := by
  have hcount : (t.submitRestore full o {}).2.2.shardCount = t.shardCount := dispatch_shardCount
  intro r
  rcases t.submitRestore_cases full o with ⟨haccepts, hok, horder, hshards⟩ | ⟨hrefuses, hok, horder, hshards⟩
  · rw [h.refuses_iff full hnew, not_not] at haccepts
    refine ⟨⟨fun _ => haccepts, fun _ => hok⟩, ?_⟩
    rw [if_pos haccepts]
    refine ⟨hcount.trans h.shardCount, ?_, ?_, ?_, ?_, ?_⟩
    · intro ref x hx
      have hne : ref ≠ o.ref := by
        rintro rfl
        rw [haccepts.2.1] at hx
        cases hx
      rw [horder, Function.update_of_ne hne]
      exact h.kept ref x hx
    · intro x hx
      rw [horder]
      rcases List.mem_append.mp hx with hold | hlast
      · rw [Function.update_of_ne (hnew x hold)]
        exact h.restored x hold
      · rw [List.mem_singleton.mp hlast]
        exact Function.update_self ..
    · intro ref hnone hothers
      have hne : ref ≠ o.ref := Ne.symm (hothers o (List.mem_append_right _ List.mem_cons_self))
      rw [horder, Function.update_of_ne hne]
      exact h.absent ref hnone fun x hx => hothers x (List.mem_append_left _ hx)
    · intro i
      rw [(hshards i).1, h.size, h.shardOf, List.countP_append, List.countP_singleton]
      simp only [beq_iff_eq]
      omega
    · intro i
      exact (hshards i).2.trans (h.capacity i)
  · rw [h.refuses_iff full hnew] at hrefuses
    refine ⟨⟨fun htrue => ?_, fun hfits => absurd hfits hrefuses⟩, ?_⟩
    · rw [hok] at htrue
      cases htrue
    · rw [if_neg hrefuses]
      refine ⟨hcount.trans h.shardCount, ?_, ?_, ?_, ?_, ?_⟩
      · rw [horder]
        exact h.kept
      · rw [horder]
        exact h.restored
      · rw [horder]
        exact h.absent
      · intro i
        rw [hshards i]
        exact h.size i
      · intro i
        rw [hshards i]
        exact h.capacity i

theorem restoreOrders_spec (h : Reloaded s t taken) (full : Nat → Bool) {orders : List Order}
    (hdistinct : (orders.map Order.ref).Nodup) (hnew : ∀ o ∈ orders, ∀ x ∈ taken, x.ref ≠ o.ref) :
    (RestartRecovery.restoreOrders full orders t).2 = s.fitting full taken orders ∧
      Reloaded s (RestartRecovery.restoreOrders full orders t).1 (taken ++ s.fitting full taken orders) := by
  induction orders generalizing t taken full with
  | nil =>
    refine ⟨rfl, ?_⟩
    unfold fitting
    rw [List.append_nil]
    exact h
  | cons o orders ih =>
    obtain ⟨hanswer, hnext⟩ := h.submit (full 0) (hnew o List.mem_cons_self)
    rw [List.map_cons, List.nodup_cons] at hdistinct
    obtain ⟨hfirst, hrest⟩ := hdistinct
    have hapart : ∀ x ∈ orders, o.ref ≠ x.ref := by
      intro x hx heq
      apply hfirst
      rw [heq]
      exact List.mem_map_of_mem hx
    have hold : ∀ x ∈ orders, ∀ y ∈ taken, y.ref ≠ x.ref :=
      fun x hx => hnew x (List.mem_cons_of_mem o hx)
    unfold RestartRecovery.restoreOrders fitting
    dsimp only
    by_cases hfits : s.FitsBehind (full 0) taken o
    · rw [if_pos hfits] at hnext
      have hnew' : ∀ x ∈ orders, ∀ y ∈ taken ++ [o], y.ref ≠ x.ref := by
        intro x hx y hy
        rcases List.mem_append.mp hy with hy | hy
        · exact hold x hx y hy
        · rw [List.mem_singleton.mp hy]
          exact hapart x hx
      obtain ⟨htaken, hreloaded⟩ := ih hnext (fun k => full (k + 1)) hrest hnew'
      rw [if_pos (hanswer.mpr hfits), if_pos hfits, htaken]
      refine ⟨rfl, ?_⟩
      rw [List.append_assoc] at hreloaded
      exact hreloaded
    · rw [if_neg hfits] at hnext
      obtain ⟨htaken, hreloaded⟩ := ih hnext (fun k => full (k + 1)) hrest hold
      rw [if_neg (fun h => hfits (hanswer.mp h)), if_neg hfits, htaken]
      exact ⟨rfl, hreloaded⟩

theorem fitting_subset (s : ShardedOms) (full : Nat → Bool) (taken orders : List Order) :
    s.fitting full taken orders ⊆ orders := by
  induction orders generalizing full taken with
  | nil => exact fun _ h => h
  | cons o orders ih =>
    unfold fitting
    split_ifs
    · exact List.cons_subset_cons o (ih _ _)
    · exact fun x hx => List.mem_cons_of_mem o (ih _ _ hx)

end Restore

end ShardedOms

/-! ## The snapshot and the ledger -/

namespace RestartRecovery

def snapshotOf (s : ShardedOms) (full : Nat → Bool) (capacity : Nat) : List Order :=
  (((List.range s.shardCount).filter fun i => !full i).flatMap fun i => (s.shards i).oms.slots).take capacity

theorem take_append_take (n : Nat) (taken slots rest : List Order) :
    (taken ++ slots.take (n - taken.length) ++ rest).take n = (taken ++ slots ++ rest).take n := by
  have hleft : n - (taken.length + (slots.take (n - taken.length)).length) = n - (taken.length + slots.length) := by
    rw [List.length_take]
    omega
  have hsplit : ∀ l l' : List Order, (l ++ l').take n = l.take n ++ l'.take (n - l.length) :=
    fun _ _ => List.take_append
  rw [hsplit (taken ++ slots.take _), hsplit (taken ++ slots), hsplit taken, hsplit taken, List.take_take,
    Nat.min_self, List.length_append, List.length_append, hleft]

theorem snapshotShards_spec (capacity : Nat) (full : Nat → Bool) (n start : Nat) (s : ShardedOms)
    (taken : List Order) (hroom : taken.length ≤ capacity) :
    let r := snapshotShards capacity (fun k => full (k + start)) (List.range' start n) s taken
    r.1.shardCount = s.shardCount ∧ (∀ i, (r.1.shards i).oms = (s.shards i).oms) ∧
      r.2 = (taken ++ ((List.range' start n).filter fun i => !full i).flatMap fun i =>
        (s.shards i).oms.slots).take capacity := by
  induction n generalizing start s taken with
  | zero =>
    refine ⟨rfl, fun _ => rfl, ?_⟩
    rw [List.range'_zero, List.filter_nil, List.flatMap_nil, List.append_nil, List.take_of_length_le hroom]
    rfl
  | succ n ih =>
    rw [List.range'_succ]
    unfold snapshotShards
    by_cases hfull : taken.length < capacity
    · obtain ⟨hsent, hout, homs, hcount⟩ := s.submitSnapshot_spec (full (0 + start)) start (capacity - taken.length)
      rw [Nat.zero_add] at hsent hout homs hcount
      have hshift : (fun k => full (k + 1 + start)) = fun k => full (k + (start + 1)) := by
        funext k
        rw [Nat.add_right_comm, Nat.add_assoc]
      rw [if_pos hfull]
      dsimp only
      rw [Nat.zero_add, hshift, hsent]
      cases hring : full start with
      | true =>
        rw [hring] at hcount homs
        obtain ⟨hcount', homs', htaken'⟩ := ih (start + 1)
          (s.submitSnapshot true start (capacity - taken.length) {}).2.2 taken hroom
        refine ⟨hcount'.trans hcount, fun i => (homs' i).trans (homs i), ?_⟩
        rw [List.filter_cons_of_neg (by simp [hring])]
        simp only [homs] at htaken'
        exact htaken'
      | false =>
        rw [hring] at hout hcount homs
        have hlength : (taken ++ (s.shards start).oms.slots.take (capacity - taken.length)).length ≤ capacity := by
          rw [List.length_append, List.length_take]
          omega
        obtain ⟨hcount', homs', htaken'⟩ := ih (start + 1)
          (s.submitSnapshot false start (capacity - taken.length) {}).2.2
          (taken ++ (s.shards start).oms.slots.take (capacity - taken.length)) hlength
        rw [Bool.not_false, if_pos rfl, hout rfl]
        refine ⟨hcount'.trans hcount, fun i => (homs' i).trans (homs i), ?_⟩
        rw [List.filter_cons_of_pos (by simp [hring]), List.flatMap_cons]
        simp only [homs] at htaken'
        rw [htaken', take_append_take, List.append_assoc]
    · rw [if_neg hfull]
      refine ⟨rfl, fun _ => rfl, ?_⟩
      have hexact : taken.length = capacity := by omega
      rw [← hexact, List.take_left]

theorem repopulate_spec (input : RestartInput) (oms : ShardedOms) {orders : List Order}
    (hdistinct : (orders.map Order.ref).Nodup) :
    let r := repopulate input oms orders
    r.2.1 = oms.fitting input.fullRestore [] orders ∧ oms.Reloaded r.1 r.2.1 ∧
      r.2.2 = snapshotOf r.1 input.fullSnapshot input.reconciliation.snapshotCapacity := by
  obtain ⟨htaken, hreloaded⟩ := ShardedOms.restoreOrders_spec (ShardedOms.reloaded_refl oms) input.fullRestore
    hdistinct (fun _ _ x hx => absurd hx List.not_mem_nil)
  rw [List.nil_append] at hreloaded
  obtain ⟨hcount, homs, hsnapshot⟩ := snapshotShards_spec input.reconciliation.snapshotCapacity input.fullSnapshot
    (restoreOrders input.fullRestore orders oms).1.shardCount 0 (restoreOrders input.fullRestore orders oms).1 []
    (Nat.zero_le _)
  rw [← List.range_eq_range'] at hcount homs hsnapshot
  have horder : (repopulate input oms orders).1.order = (restoreOrders input.fullRestore orders oms).1.order := by
    funext ref
    have hof : (repopulate input oms orders).1.shardOf ref =
        (restoreOrders input.fullRestore orders oms).1.shardOf ref := by
      unfold ShardedOms.shardOf
      exact congrArg _ hcount
    unfold ShardedOms.order
    rw [hof]
    exact congrArg (Oms.find · ref) (homs _)
  refine ⟨htaken, ?_, ?_⟩
  · have htaken' : (repopulate input oms orders).2.1 = oms.fitting input.fullRestore [] orders := htaken
    rw [htaken']
    refine ⟨hcount.trans hreloaded.shardCount, ?_, ?_, ?_, ?_, ?_⟩
    · rw [horder]
      exact hreloaded.kept
    · rw [horder]
      exact hreloaded.restored
    · rw [horder]
      exact hreloaded.absent
    · intro i
      exact (congrArg Oms.size (homs i)).trans (hreloaded.size i)
    · intro i
      exact (congrArg (·.capacity) (homs i)).trans (hreloaded.capacity i)
  · have hcount' : (repopulate input oms orders).1.shardCount =
        (restoreOrders input.fullRestore orders oms).1.shardCount := hcount
    have homs' : ∀ i, ((repopulate input oms orders).1.shards i).oms =
        ((restoreOrders input.fullRestore orders oms).1.shards i).oms := homs
    unfold snapshotOf
    rw [hcount']
    simp only [homs']
    exact hsnapshot

end RestartRecovery

namespace RiskLedger

def exposureOf (l : RiskLedger) (venue : UInt64) : Int := ((l.venueState venue).map (·.openExposure)).getD 0

def countedVolume (o : Order) : Int :=
  if o.state.isTerminal = false ∧ o.filledVolume < o.requestedVolume ∧ o.symbolId < maxSymbols then
    o.requestedVolume - o.filledVolume
  else 0

theorem rebuildOrder_counted (venue : UInt64) (slot : Nat) (l : RiskLedger) (o : Order) :
    (rebuildOrder venue slot l o).venueIds = l.venueIds ∧
      (rebuildOrder venue slot l o).maxVenues = l.maxVenues ∧
      ((rebuildOrder venue slot l o).dims (.venue slot)).openExposure =
        (l.dims (.venue slot)).openExposure + countedVolume o := by
  by_cases hlive : o.state.isTerminal = false ∧ o.filledVolume < o.requestedVolume ∧ o.symbolId < maxSymbols
  · obtain ⟨hids, hmax, hdims⟩ := rebuildOrder_live venue slot l ⟨hlive.1, hlive.2.1, hlive.2.2⟩
    refine ⟨hids, hmax, ?_⟩
    rw [hdims]
    unfold countedVolume
    rw [if_pos hlive]
    simp only [DimensionState.settle]
    omega
  · have hskip : rebuildOrder venue slot l o = l := by
      unfold rebuildOrder
      cases hterminal : o.state.isTerminal with
      | true => rfl
      | false =>
        have hsmall : o.requestedVolume - o.filledVolume ≤ 0 ∨ o.symbolId ≥ maxSymbols := by
          by_contra hn
          exact hlive ⟨hterminal, by omega, by omega⟩
        rw [if_neg Bool.false_ne_true]
        dsimp only
        rw [if_pos hsmall]
    rw [hskip]
    unfold countedVolume
    rw [if_neg hlive]
    exact ⟨rfl, rfl, (Int.add_zero _).symm⟩

theorem exposureOf_rebuild (l : RiskLedger) (venue : UInt64) (orders : List Order) :
    (l.rebuildFromSnapshot venue orders).exposureOf venue =
      l.exposureOf venue + if (l.findVenueSlot venue).isSome then (orders.map countedVolume).sum else 0 := by
  unfold rebuildFromSnapshot
  cases hslot : l.findVenueSlot venue with
  | none => exact (Int.add_zero _).symm
  | some slot =>
    dsimp only
    rw [Option.isSome_some, if_pos rfl]
    have hfold : ∀ (orders : List Order) (l : RiskLedger), l.findVenueSlot venue = some slot →
        (orders.foldl (rebuildOrder venue slot) l).exposureOf venue =
          l.exposureOf venue + (orders.map countedVolume).sum := by
      intro orders
      induction orders with
      | nil => exact fun l _ => (Int.add_zero _).symm
      | cons o orders ih =>
        intro l hl
        obtain ⟨hids, hmax, hexposure⟩ := rebuildOrder_counted venue slot l o
        have hl' : (rebuildOrder venue slot l o).findVenueSlot venue = some slot := by
          unfold findVenueSlot
          rw [hids, hmax]
          exact hl
        have hbefore : l.exposureOf venue = (l.dims (.venue slot)).openExposure := by
          simp [exposureOf, venueState, hl]
        have hafter : (rebuildOrder venue slot l o).exposureOf venue =
            ((rebuildOrder venue slot l o).dims (.venue slot)).openExposure := by
          simp [exposureOf, venueState, hl']
        rw [List.foldl_cons, ih _ hl', hafter, hexposure, hbefore, List.map_cons, List.sum_cons, Int.add_assoc]
    exact hfold orders l hslot

end RiskLedger

/-! ## Forgotten orders -/

namespace RestartRecovery
variable (input : RestartInput) (c : VenueConnection) (ledger : RiskLedger)

def repopulated (orders : List Order) : VenueConnection :=
  { c with state := .reconciling, oms := (repopulate input c.oms orders).1 }

theorem restartRecoverVenue_spec {orders : List Order} (h : recoveredOrders input = some orders) :
    let r := restartRecoverVenue input c ledger
    let after := ((repopulated input c orders).runReconciliation input.reconciliation).2
    (r.1.reachedReady = true ↔ after.state = .ready) ∧ r.2.1 = after ∧
      r.2.2 = ledger.rebuildFromSnapshot c.id (repopulate input c.oms orders).2.2 := by
  intro r after
  have hparts : r.1.reachedReady = (after.state == .ready) ∧ r.2.1 = after ∧
      r.2.2 = ledger.rebuildFromSnapshot c.id (repopulate input c.oms orders).2.2 := by
    change (restartRecoverVenue input c ledger).1.reachedReady = _ ∧ (restartRecoverVenue input c ledger).2.1 = _ ∧
      (restartRecoverVenue input c ledger).2.2 = _
    unfold restartRecoverVenue
    rw [h]
    exact ⟨rfl, rfl, rfl⟩
  refine ⟨?_, hparts.2⟩
  rw [hparts.1, beq_iff_eq]

/-- The order is in its shard with its recovered volumes, or reports have removed what was there. -/
def Kept (o : Order) (restored after : ShardedOms) : Prop :=
  (∃ x, restored.order o.ref = some x ∧ x.requestedVolume = o.requestedVolume ∧ x.filledVolume = o.filledVolume) ∨
    (restored.order o.ref ≠ none ∧ after.order o.ref = none)

/-- A restart that reaches the ready state has forgotten no recovered order, and the ledger
shows what is unfilled of those it has restored. -/
def Remembers : Prop :=
  let r := restartRecoverVenue input c ledger
  r.1.reachedReady = true → ∀ orders, recoveredOrders input = some orders →
    (∀ o ∈ orders, Kept o (repopulate input c.oms orders).1 r.2.1.oms) ∧
      r.2.2.exposureOf c.id = RiskLedger.unfilledVolume (repopulate input c.oms orders).2.1

/-- No report is refused, and the rows in the buffers show no difference. -/
def Opens (p : VenueConnection) (reconciliation : ReconciliationInput) : Prop :=
  (∀ answer ∈ VenueConnection.answers reconciliation.full reconciliation.reports p.oms,
    VenueConnection.Taken answer) ∧
    ¬ Shows (((p.caughtUp reconciliation).snapshotRows (fun i => reconciliation.full (i + reconciliation.reports.length))
      reconciliation.snapshotCapacity).take reconciliation.localCapacity) reconciliation.openOrders
      reconciliation.resultCapacity

/-- Every recovered order fits into its shard, or its reference is taken by an order with the
same volumes or by one that the reports remove. -/
def AllFit (orders : List Order) : Prop :=
  ∀ o ∈ orders, o ∈ c.oms.fitting input.fullRestore [] orders ∨ ∃ x, c.oms.order o.ref = some x ∧
    ((x.requestedVolume = o.requestedVolume ∧ x.filledVolume = o.filledVolume) ∨
      ((repopulated input c orders).caughtUp input.reconciliation).order o.ref = none)

/-- What the ledger shows before and what the snapshot counts add up to the unfilled volume of
the orders that fit. -/
def AllCounted (orders : List Order) : Prop :=
  (ledger.exposureOf c.id + if (ledger.findVenueSlot c.id).isSome then
      ((snapshotOf (repopulated input c orders).oms input.fullSnapshot
        input.reconciliation.snapshotCapacity).map RiskLedger.countedVolume).sum else 0) =
    RiskLedger.unfilledVolume (c.oms.fitting input.fullRestore [] orders)

variable {input c ledger}

theorem recoveredOrders_distinct {orders : List Order} (h : recoveredOrders input = some orders) :
    (orders.map Order.ref).Nodup := by
  unfold recoveredOrders at h
  split at h
  · cases h
  · dsimp only at h
    split_ifs at h
    cases h
    exact Oms.slots_distinct _

theorem kept_iff {orders : List Order} (hdistinct : (orders.map Order.ref).Nodup) {o : Order} (ho : o ∈ orders)
    (after : ShardedOms) :
    Kept o (repopulate input c.oms orders).1 after ↔
      o ∈ c.oms.fitting input.fullRestore [] orders ∨ ∃ x, c.oms.order o.ref = some x ∧
        ((x.requestedVolume = o.requestedVolume ∧ x.filledVolume = o.filledVolume) ∨ after.order o.ref = none) := by
  obtain ⟨htaken, hreloaded, -⟩ := repopulate_spec input c.oms hdistinct
  rw [htaken] at hreloaded
  have hself : ∀ x ∈ c.oms.fitting input.fullRestore [] orders, x.ref = o.ref → x = o := by
    intro x hx href
    exact List.inj_on_of_nodup_map hdistinct (c.oms.fitting_subset _ _ _ hx) ho href
  unfold Kept
  constructor
  · intro hkept
    by_cases hfits : o ∈ c.oms.fitting input.fullRestore [] orders
    · exact .inl hfits
    · right
      cases hprior : c.oms.order o.ref with
      | none =>
        have hnone := hreloaded.absent o.ref hprior fun x hx href => hfits (hself x hx href ▸ hx)
        rw [hnone] at hkept
        rcases hkept with ⟨x, hx, -⟩ | ⟨hsome, -⟩
        · cases hx
        · exact absurd rfl hsome
      | some x =>
        refine ⟨x, rfl, ?_⟩
        rw [hreloaded.kept o.ref x hprior] at hkept
        rcases hkept with ⟨y, hy, hvolumes⟩ | ⟨-, hgone⟩
        · cases hy
          exact .inl hvolumes
        · exact .inr hgone
  · rintro (hfits | ⟨x, hprior, hvolumes | hgone⟩)
    · exact .inl ⟨reloaded o, hreloaded.restored o hfits, rfl, rfl⟩
    · exact .inl ⟨x, hreloaded.kept o.ref x hprior, hvolumes⟩
    · refine .inr ⟨?_, hgone⟩
      rw [hreloaded.kept o.ref x hprior]
      exact Option.some_ne_none x

/-- A restart remembers exactly where the gate stays closed, or every recovered order fits and
the ledger counts what fits. -/
theorem restart_remembers_iff (input : RestartInput) (c : VenueConnection) (ledger : RiskLedger) :
    Remembers input c ledger ↔ ∀ orders, recoveredOrders input = some orders →
      Opens (repopulated input c orders) input.reconciliation →
        AllFit input c orders ∧ AllCounted input c ledger orders := by
  have hopens : ∀ orders, recoveredOrders input = some orders →
      ((restartRecoverVenue input c ledger).1.reachedReady = true ↔
        Opens (repopulated input c orders) input.reconciliation) := by
    intro orders horders
    rw [(restartRecoverVenue_spec input c ledger horders).1,
      (repopulated input c orders).runReconciliation_ready_iff _ (fun h => ConnectionState.noConfusion h)]
    exact ⟨fun h => h.2, fun h => ⟨rfl, h⟩⟩
  have hholds : ∀ orders, recoveredOrders input = some orders →
      ((∀ o ∈ orders, Kept o (repopulate input c.oms orders).1 (restartRecoverVenue input c ledger).2.1.oms) ∧
        (restartRecoverVenue input c ledger).2.2.exposureOf c.id =
          RiskLedger.unfilledVolume (repopulate input c.oms orders).2.1 ↔
        AllFit input c orders ∧ AllCounted input c ledger orders) := by
    intro orders horders
    have hdistinct := recoveredOrders_distinct horders
    obtain ⟨-, hafter, hledger⟩ := restartRecoverVenue_spec input c ledger horders
    obtain ⟨htaken, -, hsnapshot⟩ := repopulate_spec input c.oms hdistinct
    have horder : ((repopulated input c orders).runReconciliation input.reconciliation).2.oms.order =
        ((repopulated input c orders).caughtUp input.reconciliation).order := by
      rw [VenueConnection.runReconciliation_order]
      exact if_neg (not_not.mpr rfl)
    apply and_congr
    · unfold AllFit
      rw [← horder, ← hafter]
      exact forall₂_congr fun o ho => kept_iff hdistinct ho _
    · unfold AllCounted
      rw [hledger, RiskLedger.exposureOf_rebuild, htaken, hsnapshot]
      exact Iff.rfl
  constructor
  · intro hremembers orders horders hopen
    exact (hholds orders horders).mp (hremembers ((hopens orders horders).mpr hopen) orders horders)
  · intro hall hready orders horders
    exact (hholds orders horders).mpr (hall orders horders ((hopens orders horders).mp hready))

def forgottenInput : RestartInput where
  wal := some [Wal.record ⟨1, 1⟩ 0 .command 2 0 0 10 1 0]
  recoveryCapacity := 4
  dedupWindow := 16
  fullRestore := fun _ => false
  fullSnapshot := fun _ => false
  reconciliation := ⟨[], [], 4, 4, 4, fun _ => false⟩

def crampedVenue : VenueConnection := { id := 7, oms := .new 1 Nat.one_pos 0 16 4 4 }

def forgottenOrder : Order :=
  { ref := ⟨1, 1⟩, symbolId := 2, requestedVolume := 10, limitPriceTicks := 1, state := .unknown }

theorem recovered_forgottenInput : recoveredOrders forgottenInput = some [forgottenOrder] := by
  have hsorted : readAndOrderWal forgottenInput.wal = some [Wal.record ⟨1, 1⟩ 0 .command 2 0 0 10 1 0] :=
    congrArg some (Draining.sortByStamp_of_sorted (List.pairwise_singleton _ _))
  unfold recoveredOrders
  rw [hsorted]
  decide +kernel

/-- The order is recovered, its shard refuses it, and the venue does not show it: the gate opens. -/
theorem restart_forgets :
    ¬ ∀ (input : RestartInput) (c : VenueConnection) (ledger : RiskLedger), Remembers input c ledger := by
  intro h
  have hrows : (((repopulated forgottenInput crampedVenue [forgottenOrder]).caughtUp
      forgottenInput.reconciliation).snapshotRows (fun _ => false) 4).take 4 = [] := by decide +kernel
  have hopens : Opens (repopulated forgottenInput crampedVenue [forgottenOrder]) forgottenInput.reconciliation := by
    refine ⟨fun answer hanswer => absurd hanswer List.not_mem_nil, ?_⟩
    intro hshows
    have hshows' : Shows [] [] 4 := hrows ▸ hshows
    rcases hshows' with ⟨row, hrow, -⟩ | hdiffer
    · cases hrow
    · exact hdiffer rfl
  have hremembers := (restart_remembers_iff _ _ _).mp (h forgottenInput crampedVenue RiskLedger.restarted)
  obtain ⟨hfit, -⟩ := hremembers _ recovered_forgottenInput hopens
  have hnone : crampedVenue.oms.fitting forgottenInput.fullRestore [] [forgottenOrder] = [] := by decide +kernel
  have hprior : crampedVenue.oms.order forgottenOrder.ref = none := congrFun (Oms.find_new 0) _
  rcases hfit forgottenOrder List.mem_cons_self with hfits | ⟨x, hx, -⟩
  · rw [hnone] at hfits
    cases hfits
  · rw [hprior] at hx
    cases hx

end RestartRecovery

end MicrostructureEngine
