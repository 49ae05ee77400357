import MicrostructureEngine.Lib.Draining
import MicrostructureEngine.Oms.ReadyGate
import MicrostructureEngine.Oms.Replay

/-!
# Restart of one venue

`restart_recover_venue`: the records of the write-ahead log are ordered and replayed, every
recovered order is loaded into the venue's system, the ledger is rebuilt from a snapshot of it,
and the reconciliation decides whether the gate opens. What the tailer reads is an argument.
-/

namespace MicrostructureEngine

set_option autoImplicit false

namespace ShardedOms

def restoreRequest (o : Order) : Request :=
  { kind := .restore, ref := o.ref, symbol := o.symbolId, volume := o.requestedVolume
    filledVolume := o.filledVolume, price := o.limitPriceTicks, target := o.state }

def submitRestore (s : ShardedOms) (full : Bool) (o : Order) (out : Completion) : Bool × Completion × ShardedOms :=
  s.dispatch full (restoreRequest o) out

end ShardedOms

/-- `read_and_order_wal`; `none` where the tailer fails. -/
def readAndOrderWal (tailed : Option (List JournalRecord)) : Option (List JournalRecord) :=
  tailed.map (Draining.sortByStamp JournalRecord.tsNs)

structure RestartRecoveryResult where
  walReplayOk : Bool := false
  recoveredOrderCount : Nat := 0
  restoredIntoShardCount : Nat := 0
  reconciliation : ReconciliationOutcome := {}
  reachedReady : Bool := false

/-- What one call reads: the log, its capacities, the rings that refuse a restore or a snapshot,
and what the reconciliation reads. -/
structure RestartInput where
  wal : Option (List JournalRecord)
  recoveryCapacity : Nat
  dedupWindow : Nat
  fullRestore : Nat → Bool
  fullSnapshot : Nat → Bool
  reconciliation : ReconciliationInput

namespace RestartRecovery

/-- The first loop. The source counts the orders that are restored. -/
def restoreOrders : (Nat → Bool) → List Order → ShardedOms → ShardedOms × List Order
  | _, [], oms => (oms, [])
  | full, o :: orders, oms =>
    let r := oms.submitRestore (full 0) o {}
    let rest := restoreOrders (fun k => full (k + 1)) orders r.2.2
    (rest.1, if r.1 && r.2.1.ok then o :: rest.2 else rest.2)

def snapshotShards (capacity : Nat) : (Nat → Bool) → List Nat → ShardedOms → List Order →
    ShardedOms × List Order
  | _, [], oms, taken => (oms, taken)
  | full, shard :: shards, oms, taken =>
    if taken.length < capacity then
      let r := oms.submitSnapshot (full 0) shard (capacity - taken.length) {}
      snapshotShards capacity (fun k => full (k + 1)) shards r.2.2 (if r.1 then taken ++ r.2.1.snapshotOut else taken)
    else (oms, taken)

def recoveredOrders (input : RestartInput) : Option (List Order) :=
  match readAndOrderWal input.wal with
  | none => none
  | some ordered =>
    let r := Recovery.recoverStreaming ⟨ordered, false⟩ (.new .hedging input.recoveryCapacity) input.dedupWindow
      false .none
    if r.1 then some r.2.orders.slots else none

def repopulate (input : RestartInput) (oms : ShardedOms) (orders : List Order) :
    ShardedOms × List Order × List Order :=
  let (oms, restored) := restoreOrders input.fullRestore orders oms
  let (oms, snapshot) := snapshotShards input.reconciliation.snapshotCapacity input.fullSnapshot
    (List.range oms.shardCount) oms []
  (oms, restored, snapshot)

def restartRecoverVenue (input : RestartInput) (c : VenueConnection) (ledger : RiskLedger) :
    RestartRecoveryResult × VenueConnection × RiskLedger :=
  let c := c.disconnect
  match recoveredOrders input with
  | none => ({}, c, ledger)
  | some orders =>
    let (begun, c) := c.beginRecovery
    if !begun then ({ walReplayOk := true, recoveredOrderCount := orders.length }, c, ledger)
    else
      let (oms, restored, snapshot) := repopulate input c.oms orders
      let ledger := ledger.rebuildFromSnapshot c.id snapshot
      let (outcome, c) := { c with oms := oms }.runReconciliation input.reconciliation
      ({ walReplayOk := true, recoveredOrderCount := orders.length, restoredIntoShardCount := restored.length,
         reconciliation := outcome, reachedReady := c.state == .ready }, c, ledger)

end RestartRecovery

/-! ## One restore -/

/-- A restored order has the volumes, the price and the state of the recovered one; the rest of
it starts anew. -/
def reloaded (o : Order) : Order :=
  { ref := o.ref, symbolId := o.symbolId, requestedVolume := o.requestedVolume, filledVolume := o.filledVolume,
    limitPriceTicks := o.limitPriceTicks, state := o.state }

namespace ShardedOms
variable (s : ShardedOms) (full : Bool) (o : Order)

def RefusesRestore : Prop :=
  full = true ∨ s.order o.ref ≠ none ∨ ¬ s.Room o.ref ∨ ¬ Oms.restorable o

theorem submitRestore_cases :
    let r := s.submitRestore full o {}
    (¬ s.RefusesRestore full o ∧ (r.1 && r.2.1.ok) = true ∧
        r.2.2.order = Function.update s.order o.ref (some (reloaded o)) ∧
        ∀ i, (r.2.2.shards i).oms.size = (s.shards i).oms.size + (if s.shardOf o.ref = i then 1 else 0) ∧
          (r.2.2.shards i).oms.capacity = (s.shards i).oms.capacity) ∨
      (s.RefusesRestore full o ∧ (r.1 && r.2.1.ok) = false ∧ r.2.2.order = s.order ∧
        ∀ i, (r.2.2.shards i).oms = (s.shards i).oms) := by
  dsimp only
  unfold submitRestore RefusesRestore
  cases full with
  | true => exact .inr ⟨.inl rfl, rfl, rfl, fun _ => rfl⟩
  | false =>
    obtain ⟨hsent, hout, homs, -, hother⟩ := dispatch_reply s (restoreRequest o) {}
    have hreply : (s.reply (restoreRequest o) {}).oms = ((s.shards (s.shardOf o.ref)).oms.restore (reloaded o)).2 ∧
        (s.reply (restoreRequest o) {}).completion.ok =
          ((s.shards (s.shardOf o.ref)).oms.restore (reloaded o)).1.isSome := ⟨rfl, rfl⟩
    rw [hsent, hout, hreply.2, Bool.true_and]
    rw [hreply.1] at homs
    by_cases hfits : s.order o.ref = none ∧ s.Room o.ref ∧ Oms.restorable o
    · obtain ⟨hnone, hroom, hrestorable⟩ := hfits
      obtain ⟨hmade, heff⟩ := (s.shards (s.shardOf o.ref)).oms.restore_effect (x := reloaded o) hnone hroom
        hrestorable
      refine .inl ⟨?_, ?_, ?_, ?_⟩
      · rintro (h | h | h | h)
        · cases h
        · exact h hnone
        · exact h hroom
        · exact h hrestorable
      · rw [hmade]
        rfl
      · have heff' : Oms.Effect (s.shards (s.shardOf (restoreRequest o).ref)).oms
            (s.reply (restoreRequest o) {}).oms (restoreRequest o).ref (some (reloaded o)) _ := heff
        exact dispatch_order heff'
      · intro i
        by_cases hi : i = s.shardOf o.ref
        · subst hi
          have hsize := heff.size
          have hnone' : (s.shards (s.shardOf o.ref)).oms.find (reloaded o).ref = none := hnone
          rw [hnone', Option.elim_none, Option.elim_some] at hsize
          have homs' : ((s.dispatch false (restoreRequest o) {}).2.2.shards (s.shardOf o.ref)).oms = _ := homs
          rw [homs', if_pos rfl]
          exact ⟨by omega, heff.capacity⟩
        · rw [hother i hi, if_neg (Ne.symm hi)]
          exact ⟨rfl, rfl⟩
    · have hrefused : (s.shards (s.shardOf o.ref)).oms.restore (reloaded o) =
          (none, (s.shards (s.shardOf o.ref)).oms) := by
        rcases (s.shards (s.shardOf o.ref)).oms.restore_cases (reloaded o) with h | h
        · exact absurd h hfits
        · exact h
      rw [hrefused] at homs ⊢
      have hkept : (s.reply (restoreRequest o) {}).oms = (s.shards (s.shardOf (restoreRequest o).ref)).oms := by
        rw [hreply.1, hrefused]
        rfl
      refine .inr ⟨?_, rfl, dispatch_order_same hkept, ?_⟩
      · by_cases hnone : s.order o.ref = none
        · by_cases hroom : s.Room o.ref
          · exact .inr (.inr (.inr fun h => hfits ⟨hnone, hroom, h⟩))
          · exact .inr (.inr (.inl hroom))
        · exact .inr (.inl hnone)
      · intro i
        by_cases hi : i = s.shardOf o.ref
        · rw [hi]
          exact homs
        · rw [hother i hi]

end ShardedOms

end MicrostructureEngine
