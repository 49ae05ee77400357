import MicrostructureEngine.Oms.ReadyGate

/-!
# A retry after resolution

`retry_after_resolution` asks the comparison for no row at all, where `run_reconciliation` asks
for no row that shows a difference. The comparison writes a row for every order, so the retry
opens the gate on empty books only.
-/

namespace MicrostructureEngine

open scoped List
set_option autoImplicit false

/-! ## Rows in the order of their references -/

/-- The place of a reference in the order of `by_ref`. -/
def BrokerOrderRef.rank (ref : BrokerOrderRef) : Nat := ref.runId.toNat * 2 ^ 64 + ref.logicalOrderId.toNat

theorem BrokerOrderRef.rank_inj {a b : BrokerOrderRef} (h : a.rank = b.rank) : a = b := by
  have ha := a.logicalOrderId.toNat_lt
  have hb := b.logicalOrderId.toNat_lt
  unfold BrokerOrderRef.rank at h
  have hrun : a.runId = b.runId := UInt64.toNat_inj.mp (by omega)
  have hlogical : a.logicalOrderId = b.logicalOrderId := by
    apply UInt64.toNat_inj.mp
    rw [hrun] at h
    omega
  cases a
  cases b
  cases hrun
  cases hlogical
  rfl

namespace OrderReconciler

theorem byRef_iff (a b : OrderSnapshot) : byRef a b = true ↔ a.ref.rank < b.ref.rank := by
  have ha := a.ref.logicalOrderId.toNat_lt
  have hb := b.ref.logicalOrderId.toNat_lt
  unfold byRef BrokerOrderRef.rank
  split_ifs with hrun
  · have hne : a.ref.runId.toNat ≠ b.ref.runId.toNat := fun h => hrun (UInt64.toNat_inj.mp h)
    rw [decide_eq_true_eq, UInt64.lt_iff_toNat_lt]
    omega
  · rw [decide_eq_true_eq, UInt64.lt_iff_toNat_lt, not_not.mp hrun]
    omega

theorem notByRef_iff (a b : OrderSnapshot) : (!byRef b a) = true ↔ a.ref.rank ≤ b.ref.rank := by
  rw [Bool.not_eq_true', ← Bool.not_eq_true, byRef_iff]
  exact Nat.not_lt

theorem sorted_perm (rows : List OrderSnapshot) : sorted rows ~ rows := List.mergeSort_perm rows _

theorem sorted_pairwise (rows : List OrderSnapshot) :
    (sorted rows).Pairwise fun a b => (!byRef b a) = true := by
  apply List.pairwise_mergeSort
  · intro a b c hab hbc
    apply (notByRef_iff a c).mpr
    exact Nat.le_trans ((notByRef_iff a b).mp hab) ((notByRef_iff b c).mp hbc)
  · intro a b
    rw [Bool.or_eq_true, notByRef_iff, notByRef_iff]
    exact Nat.le_total _ _

/-- Where no two rows share a reference, sorted rows are equal exactly if the rows are the same. -/
theorem sorted_eq_iff {locals venue : List OrderSnapshot} (hdistinct : (locals.map OrderSnapshot.ref).Nodup) :
    sorted locals = sorted venue ↔ locals ~ venue := by
  constructor
  · intro heq
    have hvenue := sorted_perm venue
    rw [← heq] at hvenue
    exact (sorted_perm locals).symm.trans hvenue
  · intro hperm
    have hsame : sorted locals ~ sorted venue :=
      (sorted_perm locals).trans (hperm.trans (sorted_perm venue).symm)
    apply List.Perm.eq_of_pairwise _ (sorted_pairwise locals) (sorted_pairwise venue) hsame
    intro a b ha hb hab hba
    have hrank := Nat.le_antisymm ((notByRef_iff a b).mp hab) ((notByRef_iff b a).mp hba)
    have hlocal : a ∈ locals := (sorted_perm locals).mem_iff.mp ha
    have hother : b ∈ locals := hperm.mem_iff.mpr ((sorted_perm venue).mem_iff.mp hb)
    exact List.inj_on_of_nodup_map hdistinct hlocal hother (BrokerOrderRef.rank_inj hrank)

end OrderReconciler

theorem Oms.liveRows_distinct (o : Oms) : ((liveRows o.slots).map OrderSnapshot.ref).Nodup := by
  have hrows : (liveRows o.slots).map OrderSnapshot.ref =
      (o.slots.filter fun x => !x.state.isTerminal).map Order.ref := by
    unfold liveRows
    rw [List.map_map]
    rfl
  rw [hrows]
  exact o.slots_distinct.sublist (List.filter_sublist.map Order.ref)

/-! ## The two decisions -/

/-- Local and venue rows are the same, one for one, and no order is unknown. -/
def AgreesExactly (locals venue : List OrderSnapshot) : Prop :=
  locals ~ venue ∧ ∀ row ∈ locals, row.state ≠ .unknown

structure ReconciliationBuffers.HoldAll (buffers : ReconciliationBuffers) (w : RecoveryWorkflow)
    (venue : VenueAdapter) : Prop where
  reportsFit : venue.recentReports.length ≤ buffers.reports
  localsFit : (liveRows w.oms.slots).length ≤ buffers.locals
  venueFit : venue.openOrders.length ≤ buffers.venue
  resultsFit : (liveRows w.oms.slots).length + venue.openOrders.length ≤ buffers.results

namespace RecoveryWorkflow
variable {w : RecoveryWorkflow} {venue : VenueAdapter} {buffers : ReconciliationBuffers}

/-- The retry answers as the books agree, moves to ready with a positive answer, and decides as
a reconciliation without new reports would. -/
structure RetryDecides (w : RecoveryWorkflow) (venue : VenueAdapter) (buffers : ReconciliationBuffers) : Prop where
  answer : (w.retryAfterResolution venue buffers).1 = true ↔ AgreesExactly (liveRows w.oms.slots) venue.openOrders
  moves : (w.retryAfterResolution venue buffers).1 = true →
    (w.retryAfterResolution venue buffers).2.state = .ready
  reconciliation : venue.recentReports = [] →
    ((w.retryAfterResolution venue buffers).1 = true ↔ (w.runReconciliation venue buffers).2.state = .ready)

theorem retryAfterResolution_true_iff (hstate : w.state = .reconciling) :
    (w.retryAfterResolution venue buffers).1 = true ↔ (w.retryAfterResolution venue buffers).2.state = .ready := by
  unfold retryAfterResolution
  rw [if_neg (not_not.mpr hstate)]
  dsimp only
  split_ifs with hclean
  · exact ⟨fun _ => rfl, fun _ => hclean⟩
  · refine ⟨fun h => absurd h hclean, fun h => ?_⟩
    rw [hstate] at h
    cases h

/-- With room for everything, the retry opens the gate on empty books. -/
theorem retryAfterResolution_iff_empty (hstate : w.state = .reconciling) (hbuffers : buffers.HoldAll w venue) :
    (w.retryAfterResolution venue buffers).1 = true ↔ liveRows w.oms.slots = [] ∧ venue.openOrders = [] := by
  have hclosed : w.state ≠ .ready := by
    rw [hstate]
    exact fun h => ConnectionState.noConfusion h
  rw [retryAfterResolution_true_iff hstate, w.retryAfterResolution_ready_iff venue buffers hclosed]
  unfold VenueAdapter.fetchOpenOrders
  rw [List.take_of_length_le hbuffers.localsFit, List.take_of_length_le hbuffers.venueFit]
  constructor
  · rintro ⟨-, -, hnone | hempty⟩
    · have hresults := hbuffers.resultsFit
      rw [hnone] at hresults
      exact ⟨List.length_eq_zero_iff.mp (by omega), List.length_eq_zero_iff.mp (by omega)⟩
    · exact hempty
  · intro hempty
    refine ⟨hstate, ?_, .inr hempty⟩
    rw [hempty.1]
    exact fun row hrow => absurd hrow List.not_mem_nil

/-- With room for everything and no new report, a reconciliation opens the gate where the books
agree. -/
theorem runReconciliation_iff_agrees (hstate : w.state = .reconciling) (hbuffers : buffers.HoldAll w venue)
    (hreports : venue.recentReports = []) :
    (w.runReconciliation venue buffers).2.state = .ready ↔ AgreesExactly (liveRows w.oms.slots) venue.openOrders := by
  have hclosed : w.state ≠ .ready := by
    rw [hstate]
    exact fun h => ConnectionState.noConfusion h
  have hfetch : venue.fetchRecentReports buffers.reports = [] := by
    unfold VenueAdapter.fetchRecentReports
    rw [hreports]
    exact List.take_nil
  have hcaught : w.caughtUp venue buffers = w.oms := by
    unfold caughtUp
    rw [hfetch]
    rfl
  have hsorted : ∀ rows : List OrderSnapshot, rows.length ≤ buffers.results →
      (OrderReconciler.sorted rows).take buffers.results = OrderReconciler.sorted rows := by
    intro rows hrows
    apply List.take_of_length_le
    rw [(OrderReconciler.sorted_perm rows).length_eq]
    exact hrows
  have hresults := hbuffers.resultsFit
  rw [w.runReconciliation_ready_iff venue buffers hclosed, hfetch, hcaught]
  unfold VenueAdapter.fetchOpenOrders Shows AgreesExactly
  rw [List.take_of_length_le hbuffers.localsFit, List.take_of_length_le hbuffers.venueFit, hsorted _ (by omega),
    hsorted _ (by omega), ← OrderReconciler.sorted_eq_iff w.oms.liveRows_distinct, not_or, not_not]
  simp only [not_exists, not_and]
  constructor
  · rintro ⟨-, -, hunknown, hsame⟩
    exact ⟨hsame, hunknown⟩
  · rintro ⟨hsame, hunknown⟩
    exact ⟨hstate, fun answer h => absurd h List.not_mem_nil, hunknown, hsame⟩

theorem agreesExactly_nil : AgreesExactly [] [] :=
  ⟨.refl _, fun _ h => absurd h List.not_mem_nil⟩

/-- With buffers that hold everything, the retry decides as it should exactly if the books
differ, an order is unknown, or no order is live. -/
theorem retry_decides_iff (w : RecoveryWorkflow) (venue : VenueAdapter) (buffers : ReconciliationBuffers)
    (hstate : w.state = .reconciling) (hbuffers : buffers.HoldAll w venue) :
    RetryDecides w venue buffers ↔
      ¬ (AgreesExactly (liveRows w.oms.slots) venue.openOrders ∧ liveRows w.oms.slots ≠ []) := by
  have hretry := retryAfterResolution_iff_empty hstate hbuffers
  constructor
  · rintro hdecides ⟨hagrees, hlive⟩
    exact hlive (hretry.mp (hdecides.answer.mpr hagrees)).1
  · intro hempty
    have hanswer : (w.retryAfterResolution venue buffers).1 = true ↔
        AgreesExactly (liveRows w.oms.slots) venue.openOrders := by
      rw [hretry]
      constructor
      · rintro ⟨hlocal, hvenue⟩
        rw [hlocal, hvenue]
        exact agreesExactly_nil
      · intro hagrees
        have hlocal : liveRows w.oms.slots = [] := by
          by_contra hlive
          exact hempty ⟨hagrees, hlive⟩
        have hperm := hagrees.1
        rw [hlocal] at hperm
        exact ⟨hlocal, List.nil_perm.mp hperm⟩
    refine ⟨hanswer, (retryAfterResolution_true_iff hstate).mp, fun hreports => ?_⟩
    rw [hanswer, runReconciliation_iff_agrees hstate hbuffers hreports]

def twoOrderWorkflow : RecoveryWorkflow :=
  ⟨(((Oms.new 4).create ⟨1, 1⟩ 0 10).2.create ⟨2, 1⟩ 0 5).2, .new 1 1, .reconciling, {}⟩

/-- A venue that knows both orders and has filled part of the first. -/
def aheadVenue : VenueAdapter :=
  ⟨[⟨⟨2, 1⟩, .pendingSend, 5, 0⟩, ⟨⟨1, 1⟩, .partiallyFilled, 10, 4⟩], []⟩

theorem retry_decides_iff_ahead :
    liveRows twoOrderWorkflow.oms.slots = [⟨⟨1, 1⟩, .pendingSend, 10, 0⟩, ⟨⟨2, 1⟩, .pendingSend, 5, 0⟩] ∧
      RetryDecides twoOrderWorkflow aheadVenue ⟨4, 4, 4, 4⟩ := by
  have hrows : liveRows twoOrderWorkflow.oms.slots =
      [⟨⟨1, 1⟩, .pendingSend, 10, 0⟩, ⟨⟨2, 1⟩, .pendingSend, 5, 0⟩] := by decide +kernel
  have hbuffers : ReconciliationBuffers.HoldAll ⟨4, 4, 4, 4⟩ twoOrderWorkflow aheadVenue := by
    refine ⟨by decide, ?_, by decide, ?_⟩
    · rw [hrows]
      decide
    · rw [hrows]
      decide
  refine ⟨hrows, (retry_decides_iff twoOrderWorkflow aheadVenue ⟨4, 4, 4, 4⟩ rfl hbuffers).mpr ?_⟩
  rintro ⟨⟨hsame, _⟩, _⟩
  rw [hrows] at hsame
  have hlisted := hsame.subset List.mem_cons_self
  exact absurd hlisted (by decide)

def oneOrderWorkflow : RecoveryWorkflow :=
  ⟨((Oms.new 4).create ⟨1, 1⟩ 0 10).2, .new 1 1, .reconciling, {}⟩

/-- The one live order and the one open order of the venue agree; the retry refuses. -/
theorem retry_refuses_agreement :
    ¬ ∀ (w : RecoveryWorkflow) (venue : VenueAdapter) (buffers : ReconciliationBuffers),
      w.state = .reconciling → buffers.HoldAll w venue → RetryDecides w venue buffers := by
  intro h
  have hrows : liveRows oneOrderWorkflow.oms.slots = [⟨⟨1, 1⟩, .pendingSend, 10, 0⟩] := by decide +kernel
  have hbuffers :
      ReconciliationBuffers.HoldAll ⟨4, 4, 4, 4⟩ oneOrderWorkflow ⟨[⟨⟨1, 1⟩, .pendingSend, 10, 0⟩], []⟩ := by
    refine ⟨by decide, ?_, by decide, ?_⟩
    · rw [hrows]
      decide
    · rw [hrows]
      decide
  have hagrees : AgreesExactly (liveRows oneOrderWorkflow.oms.slots) [⟨⟨1, 1⟩, .pendingSend, 10, 0⟩] := by
    rw [hrows]
    refine ⟨.refl _, ?_⟩
    decide
  have hanswer := (h _ _ _ rfl hbuffers).answer.mpr hagrees
  have hempty := (retryAfterResolution_iff_empty rfl hbuffers).mp hanswer
  exact absurd hempty.2 (by decide)

end RecoveryWorkflow

end MicrostructureEngine
