import MicrostructureEngine.Oms.RecoveryWorkflow

/-!
# What opens the gate

A reconciliation looks at the rows that its buffers hold: the first live orders, the first open
orders of the venue, and of their comparison by reference the first result rows. The gate opens
when none of these shows a difference. It opens on a difference that lies behind a buffer.
-/

namespace MicrostructureEngine

set_option autoImplicit false

/-- The venue has the same open orders, and no order is unknown. -/
def Agrees (locals venue : List OrderSnapshot) : Prop :=
  (∀ row, row ∈ locals ↔ row ∈ venue) ∧ ∀ row ∈ locals, row.state ≠ .unknown

/-- An unknown order is among the rows, or the rows differ within the first results. -/
def Shows (locals venue : List OrderSnapshot) (results : Nat) : Prop :=
  (∃ row ∈ locals, row.state = .unknown) ∨
    (OrderReconciler.sorted locals).take results ≠ (OrderReconciler.sorted venue).take results

theorem unresolved_eq_zero_iff (rows : List OrderSnapshot) :
    (rows.filter fun o => o.state == .unknown).length = 0 ↔ ¬ ∃ row ∈ rows, row.state = .unknown := by
  rw [List.length_eq_zero_iff, List.filter_eq_nil_iff]
  simp

/-- The comparison comes out clean exactly if it follows clean reports and shows nothing. -/
theorem clean_compare_iff {replayed : ReconciliationOutcome} (h : replayed.unresolvedUnknown = 0)
    (locals venue : List OrderSnapshot) (results : Nat) :
    ((OrderReconciler.compare locals venue results).foldl ReconciliationOutcome.countResult
        { replayed with
          unresolvedUnknown := (locals.filter fun o => o.state == .unknown).length }).clean = true ↔
      replayed.clean = true ∧ ¬ Shows locals venue results := by
  rw [ReconciliationOutcome.clean_countResults, ReconciliationOutcome.clean_unresolved h, unresolved_eq_zero_iff]
  unfold OrderReconciler.compare Shows
  rw [OrderReconciler.merge_matched_iff, not_or, not_not, and_assoc]
  exact Iff.rfl

/-! ## One order management system -/

namespace RecoveryWorkflow

def answers : List ExecReport → ReportSequencer → Oms → List ReportOutcome
  | [], _, _ => []
  | report :: reports, seq, oms =>
    let answer := seq.process oms report
    answer.1 :: answers reports answer.2.1 answer.2.2

def caughtUp (w : RecoveryWorkflow) (venue : VenueAdapter) (buffers : ReconciliationBuffers) : Oms :=
  (replayReports (venue.fetchRecentReports buffers.reports) w.seq w.oms {}).2.1

theorem clean_replayReports (reports : List ExecReport) (seq : ReportSequencer) (oms : Oms)
    (outcome : ReconciliationOutcome) :
    ((replayReports reports seq oms outcome).2.2.clean = true ↔
        outcome.clean = true ∧ ∀ answer ∈ answers reports seq oms, answer.isRefusal = false) ∧
      (replayReports reports seq oms outcome).2.2.unresolvedUnknown = outcome.unresolvedUnknown := by
  induction reports generalizing seq oms outcome with
  | nil => simp [replayReports, answers]
  | cons report reports ih =>
    obtain ⟨hclean, hunresolved⟩ := ih (seq.process oms report).2.1 (seq.process oms report).2.2
      (outcome.countReport (seq.process oms report).1)
    unfold replayReports answers
    dsimp only
    refine ⟨?_, hunresolved.trans ?_⟩
    · rw [hclean, ReconciliationOutcome.clean_countReport, List.forall_mem_cons, and_assoc]
    · unfold ReconciliationOutcome.countReport
      split
      all_goals rfl

/-- A reconciliation opens the gate exactly if no report is refused and the rows show nothing. -/
theorem runReconciliation_ready_iff (w : RecoveryWorkflow) (venue : VenueAdapter) (buffers : ReconciliationBuffers)
    (hstate : w.state ≠ .ready) :
    (w.runReconciliation venue buffers).2.state = .ready ↔
      w.state = .reconciling ∧
        (∀ answer ∈ answers (venue.fetchRecentReports buffers.reports) w.seq w.oms, answer.isRefusal = false) ∧
        ¬ Shows ((liveRows (w.caughtUp venue buffers).slots).take buffers.locals)
          (venue.fetchOpenOrders buffers.venue) buffers.results := by
  obtain ⟨hclean, hunresolved⟩ := clean_replayReports (venue.fetchRecentReports buffers.reports) w.seq w.oms {}
  unfold runReconciliation
  by_cases hreconciling : w.state = .reconciling
  · rw [if_neg (not_not.mpr hreconciling)]
    dsimp only
    rw [← collectLocal_eq]
    have hcompare := clean_compare_iff hunresolved (collectLocal buffers.locals (w.caughtUp venue buffers))
      (venue.fetchOpenOrders buffers.venue) buffers.results
    rw [hclean] at hcompare
    have hstart : ReconciliationOutcome.clean {} = true := rfl
    split_ifs with hopen
    · have hshown := hcompare.mp hopen
      exact ⟨fun _ => ⟨hreconciling, hshown.1.2, hshown.2⟩, fun _ => rfl⟩
    · refine ⟨fun h => absurd h hstate, ?_⟩
      rintro ⟨-, hanswers, hshows⟩
      exact absurd (hcompare.mpr ⟨⟨hstart, hanswers⟩, hshows⟩) hopen
  · rw [if_pos hreconciling]
    exact ⟨fun h => absurd h hstate, fun h => absurd h.1 hreconciling⟩

/-- After a disconnect, new exposure is possible again exactly if the local recovery succeeded and
the reconciliation found nothing open. -/
theorem recovery_reopens_iff (w : RecoveryWorkflow) (localRecoveryOk : Bool) (venue : VenueAdapter)
    (buffers : ReconciliationBuffers) :
    ((w.disconnect.beginRecovery localRecoveryOk).2.runReconciliation venue buffers).2.canSubmitNewExposure = true ↔
      localRecoveryOk = true ∧
        (∀ answer ∈ answers (venue.fetchRecentReports buffers.reports) w.seq w.oms, answer.isRefusal = false) ∧
        ¬ Shows ((liveRows (w.caughtUp venue buffers).slots).take buffers.locals)
          (venue.fetchOpenOrders buffers.venue) buffers.results := by
  have hbegun : (w.disconnect.beginRecovery localRecoveryOk).2 =
      { w with state := if localRecoveryOk then .reconciling else .disconnected } := by
    cases localRecoveryOk
    all_goals rfl
  have hclosed : (if localRecoveryOk then ConnectionState.reconciling else .disconnected) ≠ .ready := by
    cases localRecoveryOk
    all_goals decide
  have hstarted : (if localRecoveryOk then ConnectionState.reconciling else .disconnected) = .reconciling ↔
      localRecoveryOk = true := by
    cases localRecoveryOk
    all_goals decide
  rw [hbegun]
  unfold canSubmitNewExposure
  rw [beq_iff_eq, runReconciliation_ready_iff _ venue buffers hclosed]
  exact and_congr_left fun _ => hstarted

theorem runReconciliation_oms (w : RecoveryWorkflow) (venue : VenueAdapter) (buffers : ReconciliationBuffers)
    (h : w.state = .reconciling) : (w.runReconciliation venue buffers).2.oms = w.caughtUp venue buffers := by
  unfold runReconciliation
  rw [if_neg (not_not.mpr h)]
  rfl

/-- A retry opens the gate exactly if no row is unknown and there is no row to compare, or none
to write the result to. -/
theorem retryAfterResolution_ready_iff (w : RecoveryWorkflow) (venue : VenueAdapter) (buffers : ReconciliationBuffers)
    (hstate : w.state ≠ .ready) :
    (w.retryAfterResolution venue buffers).2.state = .ready ↔
      w.state = .reconciling ∧ (∀ row ∈ (liveRows w.oms.slots).take buffers.locals, row.state ≠ .unknown) ∧
        (buffers.results = 0 ∨
          ((liveRows w.oms.slots).take buffers.locals = [] ∧ venue.fetchOpenOrders buffers.venue = [])) := by
  unfold retryAfterResolution
  by_cases hreconciling : w.state = .reconciling
  · rw [if_neg (not_not.mpr hreconciling), ← collectLocal_eq]
    dsimp only
    have hsorted : ∀ rows, OrderReconciler.sorted rows = [] ↔ rows = [] := by
      intro rows
      rw [← List.length_eq_zero_iff, ← List.length_eq_zero_iff]
      unfold OrderReconciler.sorted
      rw [List.length_mergeSort]
    have hresults := OrderReconciler.merge_eq_nil_iff buffers.results
      (OrderReconciler.sorted (collectLocal buffers.locals w.oms))
      (OrderReconciler.sorted (venue.fetchOpenOrders buffers.venue))
    rw [hsorted, hsorted, ← List.length_eq_zero_iff] at hresults
    have hclean := unresolved_eq_zero_iff (collectLocal buffers.locals w.oms)
    simp only [not_exists, not_and] at hclean
    split_ifs with hopen
    · rw [Bool.and_eq_true, beq_iff_eq, beq_iff_eq] at hopen
      exact ⟨fun _ => ⟨hreconciling, hclean.mp hopen.2, hresults.mp hopen.1⟩, fun _ => rfl⟩
    · rw [Bool.and_eq_true, beq_iff_eq, beq_iff_eq] at hopen
      refine ⟨fun h => absurd h hstate, ?_⟩
      rintro ⟨-, hunknown, hempty⟩
      exact absurd ⟨hresults.mpr hempty, hclean.mpr hunknown⟩ hopen
  · rw [if_pos hreconciling]
    exact ⟨fun h => absurd h hstate, fun h => absurd h.1 hreconciling⟩

theorem retryAfterResolution_oms (w : RecoveryWorkflow) (venue : VenueAdapter) (buffers : ReconciliationBuffers) :
    (w.retryAfterResolution venue buffers).2.oms = w.oms := by
  unfold retryAfterResolution
  split
  · rfl
  · dsimp only
    split_ifs
    · rfl
    · rfl

end RecoveryWorkflow

/-! ## One venue of many shards -/

namespace ShardedOms

def slots (s : ShardedOms) : List Order := (List.range s.shardCount).flatMap fun i => (s.shards i).oms.slots

/-- The live rows that the snapshots of the shards hold; a shard whose ring refuses is skipped. -/
def snapshotRows (s : ShardedOms) (full : Nat → Bool) (capacity : Nat) : List OrderSnapshot :=
  ((List.range s.shardCount).filter fun i => !full i).flatMap fun i => liveRows ((s.shards i).oms.slots.take capacity)

theorem apply_snapshot_oms (s : ShardedOms) (shard cell i : Nat) :
    ((s.apply shard { kind := .snapshot } cell).shards i).oms = (s.shards i).oms := by
  by_cases hi : i = shard
  · subst hi
    rw [apply_oms]
    rfl
  · rw [apply_shards_of_ne _ hi]

theorem submitSnapshot_spec (s : ShardedOms) (full : Bool) (shard capacity : Nat) :
    (s.submitSnapshot full shard capacity {}).1 = !full ∧
      (full = false → (s.submitSnapshot full shard capacity {}).2.1.snapshotOut =
        (s.shards shard).oms.slots.take capacity) ∧
      (∀ i, ((s.submitSnapshot full shard capacity {}).2.2.shards i).oms = (s.shards i).oms) ∧
      (s.submitSnapshot full shard capacity {}).2.2.shardCount = s.shardCount := by
  unfold submitSnapshot
  cases full with
  | true => exact ⟨rfl, fun h => Bool.noConfusion h, fun _ => rfl, rfl⟩
  | false =>
    refine ⟨rfl, fun _ => ?_, fun i => apply_snapshot_oms _ shard 0 i, apply_shardCount _ _ _ _⟩
    unfold Oms.slots
    rw [← List.map_take]
    simp [apply, Shard.apply, Shard.applySnapshot]

theorem slots_congr {s s' : ShardedOms} (hcount : s'.shardCount = s.shardCount)
    (homs : ∀ i, (s'.shards i).oms = (s.shards i).oms) : s'.slots = s.slots := by
  unfold slots
  rw [hcount]
  simp only [homs]

end ShardedOms

namespace VenueConnection

def answers : (Nat → Bool) → List ExecReport → ShardedOms → List (Option ReportOutcome)
  | _, [], _ => []
  | full, report :: reports, oms =>
    let answer := oms.submitReport (full 0) report {}
    (if answer.1 then some answer.2.1.reportOutcome else none) ::
      answers (fun k => full (k + 1)) reports answer.2.2

def Taken (answer : Option ReportOutcome) : Prop := ∃ outcome, answer = some outcome ∧ outcome.isRefusal = false

/-- The order management system behind the reports. -/
def caughtUp (c : VenueConnection) (input : ReconciliationInput) : ShardedOms :=
  (replayReports input.full input.reports c.oms {}).1

theorem clean_replayReports (full : Nat → Bool) (reports : List ExecReport) (oms : ShardedOms)
    (outcome : ReconciliationOutcome) :
    ((replayReports full reports oms outcome).2.clean = true ↔
        outcome.clean = true ∧ ∀ answer ∈ answers full reports oms, Taken answer) ∧
      (replayReports full reports oms outcome).2.unresolvedUnknown = outcome.unresolvedUnknown := by
  induction reports generalizing full oms outcome with
  | nil => simp [replayReports, answers]
  | cons report reports ih =>
    unfold replayReports answers
    dsimp only
    cases hsent : (oms.submitReport (full 0) report {}).1 with
    | true =>
      obtain ⟨hclean, hunresolved⟩ := ih (fun k => full (k + 1)) (oms.submitReport (full 0) report {}).2.2
        (outcome.countReport (oms.submitReport (full 0) report {}).2.1.reportOutcome)
      rw [if_pos rfl, if_pos rfl]
      refine ⟨?_, hunresolved.trans ?_⟩
      · rw [hclean, ReconciliationOutcome.clean_countReport, List.forall_mem_cons, and_assoc]
        simp [Taken]
      · unfold ReconciliationOutcome.countReport
        split
        all_goals rfl
    | false =>
      obtain ⟨hclean, hunresolved⟩ := ih (fun k => full (k + 1)) (oms.submitReport (full 0) report {}).2.2
        { outcome with reportsIllegal := outcome.reportsIllegal + 1 }
      rw [if_neg Bool.false_ne_true, if_neg Bool.false_ne_true]
      refine ⟨?_, hunresolved⟩
      rw [hclean, List.forall_mem_cons]
      simp [Taken, ReconciliationOutcome.clean]

theorem collectLocal_spec (snapshotCapacity localCapacity : Nat) (full : Nat → Bool) (n start : Nat) (s : ShardedOms)
    (locals : List OrderSnapshot) :
    let collected := collectLocal snapshotCapacity localCapacity (fun k => full (k + start)) (List.range' start n) s locals
    collected.1.shardCount = s.shardCount ∧ (∀ i, (collected.1.shards i).oms = (s.shards i).oms) ∧
      collected.2 = locals ++ ((((List.range' start n).filter fun i => !full i).flatMap fun i =>
        liveRows ((s.shards i).oms.slots.take snapshotCapacity)).take (localCapacity - locals.length)) := by
  induction n generalizing start s locals with
  | zero => simp [collectLocal]
  | succ n ih =>
    intro collected
    obtain ⟨hsent, hout, homs, hcount⟩ := s.submitSnapshot_spec (full (0 + start)) start snapshotCapacity
    have hcollected : collected = collectLocal snapshotCapacity localCapacity (fun k => full (k + (start + 1)))
        (List.range' (start + 1) n) (s.submitSnapshot (full (0 + start)) start snapshotCapacity {}).2.2
        (if (s.submitSnapshot (full (0 + start)) start snapshotCapacity {}).1 then
          (s.submitSnapshot (full (0 + start)) start snapshotCapacity {}).2.1.snapshotOut.foldl
            (takeLocal localCapacity) locals else locals) := by
      have hshift : (fun k => full (k + (start + 1))) = fun k => full (k + 1 + start) := by
        funext k
        rw [Nat.add_right_comm, Nat.add_assoc]
      rw [hshift]
      rfl
    rw [hsent, Nat.zero_add] at hcollected
    obtain ⟨hcount', homs', hlocals'⟩ := ih (start + 1) (s.submitSnapshot (full start) start snapshotCapacity {}).2.2
      (if !full start then
        (s.submitSnapshot (full start) start snapshotCapacity {}).2.1.snapshotOut.foldl
          (takeLocal localCapacity) locals else locals)
    rw [Nat.zero_add] at hout homs hcount
    rw [← hcollected] at hcount' homs' hlocals'
    refine ⟨hcount'.trans hcount, fun i => (homs' i).trans (homs i), ?_⟩
    simp only [homs] at hlocals'
    rw [hlocals', List.range'_succ]
    cases hfull : full start with
    | true => simp [hfull]
    | false =>
      rw [hfull] at hout
      rw [hout rfl, List.filter_cons_of_pos (by simp [hfull]), List.flatMap_cons, foldl_takeLocal]
      simp only [Bool.not_false, if_true]
      rw [List.append_assoc, List.take_append, List.length_append, List.length_take]
      congr 3
      omega

theorem collectLocal_eq (s : ShardedOms) (snapshotCapacity localCapacity : Nat) (full : Nat → Bool) :
    let collected := collectLocal snapshotCapacity localCapacity full (List.range s.shardCount) s []
    collected.1.slots = s.slots ∧ collected.2 = (s.snapshotRows full snapshotCapacity).take localCapacity := by
  obtain ⟨hcount, homs, hlocals⟩ := collectLocal_spec snapshotCapacity localCapacity full s.shardCount 0 s []
  rw [← List.range_eq_range'] at hcount homs hlocals
  exact ⟨ShardedOms.slots_congr hcount homs, hlocals.trans (List.nil_append _)⟩

/-- A reconciliation opens the gate exactly if no report is refused and the rows show nothing. -/
theorem runReconciliation_ready_iff (c : VenueConnection) (input : ReconciliationInput) (hstate : c.state ≠ .ready) :
    (c.runReconciliation input).2.state = .ready ↔
      c.state = .reconciling ∧ (∀ answer ∈ answers input.full input.reports c.oms, Taken answer) ∧
        ¬ Shows (((c.caughtUp input).snapshotRows (fun i => input.full (i + input.reports.length))
          input.snapshotCapacity).take input.localCapacity) input.openOrders input.resultCapacity := by
  obtain ⟨hclean, hunresolved⟩ := clean_replayReports input.full input.reports c.oms {}
  rw [← (collectLocal_eq (c.caughtUp input) input.snapshotCapacity input.localCapacity
    fun i => input.full (i + input.reports.length)).2]
  unfold runReconciliation
  by_cases hreconciling : c.state = .reconciling
  · rw [if_neg (not_not.mpr hreconciling)]
    dsimp only
    have hcompare := clean_compare_iff hunresolved
      (collectLocal input.snapshotCapacity input.localCapacity (fun k => input.full (k + input.reports.length))
        (List.range (c.caughtUp input).shardCount) (c.caughtUp input) []).2
      input.openOrders input.resultCapacity
    rw [hclean] at hcompare
    have hstart : ReconciliationOutcome.clean {} = true := rfl
    split_ifs with hopen
    · have hshown := hcompare.mp hopen
      exact ⟨fun _ => ⟨hreconciling, hshown.1.2, hshown.2⟩, fun _ => rfl⟩
    · refine ⟨fun h => absurd h hstate, ?_⟩
      rintro ⟨-, hanswers, hshows⟩
      exact absurd (hcompare.mpr ⟨⟨hstart, hanswers⟩, hshows⟩) hopen
  · rw [if_pos hreconciling]
    exact ⟨fun h => absurd h hstate, fun h => absurd h.1 hreconciling⟩

theorem runReconciliation_slots (c : VenueConnection) (input : ReconciliationInput) (h : c.state = .reconciling) :
    (c.runReconciliation input).2.oms.slots = (c.caughtUp input).slots := by
  unfold runReconciliation
  rw [if_neg (not_not.mpr h)]
  exact (collectLocal_eq (c.caughtUp input) input.snapshotCapacity input.localCapacity _).1

end VenueConnection

/-! ## When the gate can be trusted -/

/-- The complete local orders agree with the venue's whenever a call has moved the state to ready. -/
def OpensSoundly (before after : ConnectionState) (orders : List Order) (venue : VenueAdapter) : Prop :=
  before ≠ .ready → after = .ready → Agrees (liveRows orders) venue.openOrders

/-- A call that leaves these orders, and opens the gate exactly where nothing is open, is sound
where the orders agree or something is. -/
theorem opensSoundly_iff {before after : ConnectionState} {orders compared : List Order} {venue : VenueAdapter}
    {Open : Prop} (horders : before = .reconciling → orders = compared)
    (hready : before ≠ .ready → (after = .ready ↔ before = .reconciling ∧ ¬ Open)) :
    OpensSoundly before after orders venue ↔
      (before = .reconciling → Agrees (liveRows compared) venue.openOrders ∨ Open) := by
  constructor
  · intro hsound hreconciling
    have hclosed : before ≠ .ready := by
      rw [hreconciling]
      exact fun h => ConnectionState.noConfusion h
    by_cases hopen : Open
    · exact .inr hopen
    · have hagrees := hsound hclosed ((hready hclosed).mpr ⟨hreconciling, hopen⟩)
      rw [horders hreconciling] at hagrees
      exact .inl hagrees
  · intro hall hclosed hafter
    obtain ⟨hreconciling, hnone⟩ := (hready hclosed).mp hafter
    rw [horders hreconciling]
    exact (hall hreconciling).resolve_right hnone

def reconciliationInput (venue : VenueAdapter) (buffers : ReconciliationBuffers) (snapshotCapacity : Nat)
    (full : Nat → Bool) : ReconciliationInput where
  reports := venue.fetchRecentReports buffers.reports
  openOrders := venue.fetchOpenOrders buffers.venue
  snapshotCapacity := snapshotCapacity
  localCapacity := buffers.locals
  resultCapacity := buffers.results
  full := full

/-- Each of the three ways to the ready state is sound exactly where the orders agree or the
buffers show that something is open. -/
theorem ready_sound_iff (venue : VenueAdapter) (buffers : ReconciliationBuffers) :
    (∀ w : RecoveryWorkflow,
      OpensSoundly w.state (w.runReconciliation venue buffers).2.state
          (w.runReconciliation venue buffers).2.oms.slots venue ↔
        (w.state = .reconciling → Agrees (liveRows (w.caughtUp venue buffers).slots) venue.openOrders ∨
          (∃ answer ∈ RecoveryWorkflow.answers (venue.fetchRecentReports buffers.reports) w.seq w.oms,
            answer.isRefusal = true) ∨
          Shows ((liveRows (w.caughtUp venue buffers).slots).take buffers.locals)
            (venue.openOrders.take buffers.venue) buffers.results)) ∧
    (∀ w : RecoveryWorkflow,
      OpensSoundly w.state (w.retryAfterResolution venue buffers).2.state
          (w.retryAfterResolution venue buffers).2.oms.slots venue ↔
        (w.state = .reconciling → Agrees (liveRows w.oms.slots) venue.openOrders ∨
          (∃ row ∈ (liveRows w.oms.slots).take buffers.locals, row.state = .unknown) ∨
          (buffers.results ≠ 0 ∧
            ((liveRows w.oms.slots).take buffers.locals ≠ [] ∨ venue.openOrders.take buffers.venue ≠ [])))) ∧
    (∀ (c : VenueConnection) (snapshotCapacity : Nat) (full : Nat → Bool),
      let input := reconciliationInput venue buffers snapshotCapacity full
      OpensSoundly c.state (c.runReconciliation input).2.state (c.runReconciliation input).2.oms.slots venue ↔
        (c.state = .reconciling → Agrees (liveRows (c.caughtUp input).slots) venue.openOrders ∨
          (∃ answer ∈ VenueConnection.answers full input.reports c.oms, ¬ VenueConnection.Taken answer) ∨
          Shows (((c.caughtUp input).snapshotRows (fun i => full (i + input.reports.length))
            snapshotCapacity).take buffers.locals) (venue.openOrders.take buffers.venue) buffers.results)) := by
  refine ⟨fun w => ?_, fun w => ?_, fun c snapshotCapacity full => ?_⟩
  · refine opensSoundly_iff (fun h => by rw [w.runReconciliation_oms venue buffers h]) fun hclosed => ?_
    rw [w.runReconciliation_ready_iff venue buffers hclosed, not_or]
    simp only [not_exists, not_and, Bool.not_eq_true]
    exact Iff.rfl
  · refine opensSoundly_iff (fun _ => by rw [w.retryAfterResolution_oms venue buffers]) fun hclosed => ?_
    rw [w.retryAfterResolution_ready_iff venue buffers hclosed, not_or, not_and_or, not_or, not_not, not_not, not_not]
    simp only [not_exists, not_and]
    exact Iff.rfl
  · refine opensSoundly_iff (fun h => c.runReconciliation_slots _ h) fun hclosed => ?_
    rw [c.runReconciliation_ready_iff _ hclosed, not_or]
    simp only [not_exists, not_and, not_not]
    exact Iff.rfl

/-- A workflow without orders, whose venue has one open order, and no room for a result row. -/
theorem ready_unsound :
    ¬ ∀ (venue : VenueAdapter) (buffers : ReconciliationBuffers) (w : RecoveryWorkflow),
      OpensSoundly w.state (w.runReconciliation venue buffers).2.state
        (w.runReconciliation venue buffers).2.oms.slots venue := by
  intro h
  have hagrees := h ⟨[{ requestedVolume := 10 }], []⟩ ⟨0, 16, 16, 0⟩ ⟨Oms.new 16, .new 1 1, .reconciling, {}⟩
    (fun h => ConnectionState.noConfusion h) rfl
  have hmem := (hagrees.1 { requestedVolume := 10 }).mpr List.mem_cons_self
  exact absurd hmem List.not_mem_nil

end MicrostructureEngine
