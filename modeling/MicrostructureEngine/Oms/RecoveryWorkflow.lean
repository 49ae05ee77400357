import MicrostructureEngine.Oms.Venue

/-!
# Reconciliation behind a reconnect

`RecoveryWorkflow` compares the live orders of one `Oms` with the open orders of its venue; the
gate for new exposure opens when the comparison finds nothing. Reports, local rows, venue rows
and result rows each go through a buffer of the caller, which holds the first of them.
-/

namespace MicrostructureEngine

set_option autoImplicit false

/-- What a venue would report, were it asked with room for everything. -/
structure VenueAdapter where
  openOrders : List OrderSnapshot
  recentReports : List ExecReport

namespace VenueAdapter

def fetchOpenOrders (v : VenueAdapter) (capacity : Nat) : List OrderSnapshot := v.openOrders.take capacity

def fetchRecentReports (v : VenueAdapter) (capacity : Nat) : List ExecReport := v.recentReports.take capacity

end VenueAdapter

/-- The sizes of the buffers of one call. -/
structure ReconciliationBuffers where
  reports : Nat
  locals : Nat
  venue : Nat
  results : Nat

structure RecoveryWorkflow where
  oms : Oms
  seq : ReportSequencer
  state : ConnectionState := .connected
  lastOutcome : ReconciliationOutcome := {}

namespace RecoveryWorkflow

def canSubmitNewExposure (w : RecoveryWorkflow) : Bool := w.state == .ready

def disconnect (w : RecoveryWorkflow) : RecoveryWorkflow := { w with state := .disconnected }

def beginRecovery (w : RecoveryWorkflow) (localRecoveryOk : Bool) : Bool × RecoveryWorkflow :=
  if w.state ≠ .disconnected then (false, w)
  else if !localRecoveryOk then (false, { w with state := .disconnected })
  else (true, { w with state := .reconciling })

/-- The first loop of `run_reconciliation`: the missed reports. -/
def replayReports : List ExecReport → ReportSequencer → Oms → ReconciliationOutcome →
    ReportSequencer × Oms × ReconciliationOutcome
  | [], seq, oms, outcome => (seq, oms, outcome)
  | report :: reports, seq, oms, outcome =>
    let answer := seq.process oms report
    replayReports reports answer.2.1 answer.2.2 (outcome.countReport answer.1)

/-- The second loop: the live orders, up to the capacity. -/
def collectLocal (capacity : Nat) (oms : Oms) : List OrderSnapshot :=
  ((List.range oms.size).map oms.atSlot).foldl (VenueConnection.takeLocal capacity) []

def runReconciliation (w : RecoveryWorkflow) (venue : VenueAdapter) (buffers : ReconciliationBuffers) :
    ReconciliationOutcome × RecoveryWorkflow :=
  if w.state ≠ .reconciling then ({}, w)
  else
    let (seq, oms, replayed) := replayReports (venue.fetchRecentReports buffers.reports) w.seq w.oms {}
    let locals := collectLocal buffers.locals oms
    let unresolved := (locals.filter fun o => o.state == .unknown).length
    let results := OrderReconciler.compare locals (venue.fetchOpenOrders buffers.venue) buffers.results
    let outcome := results.foldl ReconciliationOutcome.countResult
      { replayed with unresolvedUnknown := unresolved }
    (outcome, { w with
      oms := oms, seq := seq, lastOutcome := outcome, state := if outcome.clean then .ready else w.state })

/-- Every row counts here, also a matched one. -/
def retryAfterResolution (w : RecoveryWorkflow) (venue : VenueAdapter) (buffers : ReconciliationBuffers) :
    Bool × RecoveryWorkflow :=
  if w.state ≠ .reconciling then (false, w)
  else
    let locals := collectLocal buffers.locals w.oms
    let unresolved := (locals.filter fun o => o.state == .unknown).length
    let results := OrderReconciler.compare locals (venue.fetchOpenOrders buffers.venue) buffers.results
    let clean := results.length == 0 && unresolved == 0
    (clean, if clean then { w with state := .ready } else w)

end RecoveryWorkflow

/-! ## The rows of the live orders -/

/-- The rows of the orders that are not terminal. -/
def liveRows (orders : List Order) : List OrderSnapshot :=
  (orders.filter fun o => !o.state.isTerminal).map fun o => ⟨o.ref, o.state, o.requestedVolume, o.filledVolume⟩

/-- The orders of the dense array. -/
def Oms.slots (o : Oms) : List Order := (List.range o.size).map o.atSlot

theorem Oms.slots_distinct (o : Oms) : (o.slots.map Order.ref).Nodup := by
  unfold Oms.slots
  rw [List.map_map]
  apply List.Nodup.map_on _ List.nodup_range
  intro i hi j hj hij
  exact o.inv.distinct i j (List.mem_range.mp hi) (List.mem_range.mp hj) hij

theorem VenueConnection.foldl_takeLocal (capacity : Nat) (orders : List Order) (locals : List OrderSnapshot) :
    orders.foldl (takeLocal capacity) locals = locals ++ (liveRows orders).take (capacity - locals.length) := by
  induction orders generalizing locals with
  | nil => simp [liveRows]
  | cons o orders ih =>
    rw [List.foldl_cons, ih]
    unfold takeLocal
    cases hterminal : o.state.isTerminal with
    | true => simp [liveRows, hterminal]
    | false =>
      by_cases hroom : locals.length < capacity
      · obtain ⟨n, hn⟩ : ∃ n, capacity - locals.length = n + 1 := ⟨capacity - locals.length - 1, by omega⟩
        have hnext : capacity - (locals.length + 1) = n := by omega
        simp [liveRows, hterminal, hroom, hn, hnext]
      · have hfull : capacity - locals.length = 0 := by omega
        simp [hroom, hfull]

theorem RecoveryWorkflow.collectLocal_eq (capacity : Nat) (oms : Oms) :
    collectLocal capacity oms = (liveRows oms.slots).take capacity :=
  (VenueConnection.foldl_takeLocal capacity _ []).trans (List.nil_append _)

/-! ## What the result rows show -/

namespace OrderReconciler

/-- The rows in the order of their references. -/
def sorted (rows : List OrderSnapshot) : List OrderSnapshot := rows.mergeSort fun a b => !byRef b a

theorem commonStatus_matched_iff {l v : OrderSnapshot} (h : l.ref = v.ref) :
    commonStatus l v = .matched ↔ l = v := by
  obtain ⟨ref, state, requested, filled⟩ := l
  obtain ⟨ref', state', requested', filled'⟩ := v
  unfold commonStatus
  dsimp only at h ⊢
  subst h
  split_ifs with hstate hvolume
  · simp [hstate]
  · simp only [OrderSnapshot.mk.injEq, true_and, false_iff, not_and]
    intro _ hrequested hfilled
    exact hvolume.elim (fun h => h hfilled) (fun h => h hrequested)
  · rw [not_or, not_not, not_not] at hvolume
    simp [not_not.mp hstate, hvolume]

/-- All rows that fit are matched exactly if the two lists agree as far as they were looked at. -/
theorem merge_matched_iff (n : Nat) (ls vs : List OrderSnapshot) :
    (∀ r ∈ merge n ls vs, r.status = .matched) ↔ ls.take n = vs.take n := by
  induction n generalizing ls vs with
  | zero => simp [merge]
  | succ n ih =>
    cases ls with
    | nil =>
      cases vs with
      | nil => simp [merge]
      | cons v vs => simp [merge]
    | cons l ls =>
      cases vs with
      | nil => simp [merge]
      | cons v vs =>
        unfold merge
        split_ifs with href hbefore
        · rw [List.forall_mem_cons, ih, commonStatus_matched_iff href]
          simp
        · have hne : l ≠ v := fun heq => href (congrArg OrderSnapshot.ref heq)
          simp [hne]
        · have hne : l ≠ v := fun heq => href (congrArg OrderSnapshot.ref heq)
          simp [hne]

theorem merge_eq_nil_iff (n : Nat) (ls vs : List OrderSnapshot) :
    merge n ls vs = [] ↔ n = 0 ∨ (ls = [] ∧ vs = []) := by
  cases n with
  | zero => simp [merge]
  | succ n =>
    cases ls with
    | nil =>
      cases vs with
      | nil => simp [merge]
      | cons v vs => simp [merge]
    | cons l ls =>
      cases vs with
      | nil => simp [merge]
      | cons v vs =>
        unfold merge
        split_ifs
        · simp
        · simp
        · simp

end OrderReconciler

/-! ## A clean outcome -/

namespace ReconciliationOutcome

theorem clean_countResult (o : ReconciliationOutcome) (r : OrderReconcileResult) :
    (o.countResult r).clean = true ↔ o.clean = true ∧ r.status = .matched := by
  unfold countResult
  cases hstatus : r.status with
  | matched => simp
  | localOnly => simp [clean]
  | venueOnly => simp [clean]
  | stateMismatch => simp [clean]
  | volumeMismatch => simp [clean]

theorem clean_countResults (o : ReconciliationOutcome) (results : List OrderReconcileResult) :
    (results.foldl countResult o).clean = true ↔ o.clean = true ∧ ∀ r ∈ results, r.status = .matched := by
  induction results generalizing o with
  | nil => simp
  | cons r results ih => rw [List.foldl_cons, ih, clean_countResult, List.forall_mem_cons, and_assoc]

end ReconciliationOutcome

/-- A report that the sequencer counts against the reconciliation. -/
def ReportOutcome.isRefusal : ReportOutcome → Bool
  | .illegal => true
  | .unknownOrder => true
  | .gapPoolExhausted => true
  | .applied => false
  | .duplicate => false
  | .heldForGap => false
  | .terminalLate => false

namespace ReconciliationOutcome

theorem clean_countReport (o : ReconciliationOutcome) (answer : ReportOutcome) :
    (o.countReport answer).clean = true ↔ o.clean = true ∧ answer.isRefusal = false := by
  cases answer with
  | applied => simp [countReport, ReportOutcome.isRefusal, clean]
  | duplicate => simp [countReport, ReportOutcome.isRefusal, clean]
  | heldForGap => simp [countReport, ReportOutcome.isRefusal, clean]
  | terminalLate => simp [countReport, ReportOutcome.isRefusal]
  | illegal => simp [countReport, ReportOutcome.isRefusal, clean]
  | unknownOrder => simp [countReport, ReportOutcome.isRefusal, clean]
  | gapPoolExhausted => simp [countReport, ReportOutcome.isRefusal, clean]

theorem clean_unresolved {o : ReconciliationOutcome} (h : o.unresolvedUnknown = 0) (n : Nat) :
    ({ o with unresolvedUnknown := n } : ReconciliationOutcome).clean = true ↔ o.clean = true ∧ n = 0 := by
  simp only [clean, h]
  simp only [Bool.and_eq_true, beq_iff_eq]
  tauto

end ReconciliationOutcome

end MicrostructureEngine
