import MicrostructureEngine.Oms.Dispatch
import MicrostructureEngine.Oms.RateLimiter
import MicrostructureEngine.Risk.Ledger

/-!
# A venue connection

`VenueConnection`: one venue's order management system behind its session, connection-state,
rate-limit and risk gates, with the queue of deferred requests and the reconciliation that
follows a reconnect. The venue's adapter is outside the model: what it returned is an
argument of `runReconciliation`.
-/

namespace MicrostructureEngine

set_option autoImplicit false

inductive ConnectionState where
  | connected
  | disconnected
  | recovering
  | reconciling
  | ready
  deriving DecidableEq, Repr, Inhabited

inductive SessionState where
  | open_
  | closed
  deriving DecidableEq, Repr, Inhabited

structure SessionConstraints where
  session : SessionState := .open_
  tradingHalted : Bool := false
  orderEntryEnabled : Bool := true
  allowRiskReducingDuringHalt : Bool := true
  deriving DecidableEq, Repr, Inhabited

namespace SessionConstraints

def allowsNewExposure (c : SessionConstraints) : Bool :=
  c.orderEntryEnabled && !c.tradingHalted && c.session == .open_

def allowsRiskReducing (c : SessionConstraints) : Bool :=
  if !c.orderEntryEnabled then false
  else if c.allowRiskReducingDuringHalt then true
  else !c.tradingHalted && c.session == .open_

end SessionConstraints

/-! ## Order reconciliation -/

structure OrderSnapshot where
  ref : BrokerOrderRef := {}
  state : OrderState := .newOrder
  requestedVolume : Int := 0
  filledVolume : Int := 0
  deriving DecidableEq, Repr, Inhabited

inductive OrderReconcileStatus where
  | matched
  | localOnly
  | venueOnly
  | stateMismatch
  | volumeMismatch
  deriving DecidableEq, Repr, Inhabited

structure OrderReconcileResult where
  ref : BrokerOrderRef := {}
  status : OrderReconcileStatus := .matched
  deriving DecidableEq, Repr, Inhabited

namespace OrderReconciler

def byRef (a b : OrderSnapshot) : Bool :=
  if a.ref.runId ≠ b.ref.runId then decide (a.ref.runId < b.ref.runId)
  else decide (a.ref.logicalOrderId < b.ref.logicalOrderId)

def commonStatus (l v : OrderSnapshot) : OrderReconcileStatus :=
  if l.state ≠ v.state then .stateMismatch
  else if l.filledVolume ≠ v.filledVolume ∨ l.requestedVolume ≠ v.requestedVolume then .volumeMismatch
  else .matched

/-- The three loops over the sorted lists; the first argument is what is left of the output
buffer. -/
def merge : Nat → List OrderSnapshot → List OrderSnapshot → List OrderReconcileResult
  | 0, _, _ => []
  | n + 1, l :: ls, v :: vs =>
    if l.ref = v.ref then ⟨l.ref, commonStatus l v⟩ :: merge n ls vs
    else if byRef l v then ⟨l.ref, .localOnly⟩ :: merge n ls (v :: vs)
    else ⟨v.ref, .venueOnly⟩ :: merge n (l :: ls) vs
  | n + 1, l :: ls, [] => ⟨l.ref, .localOnly⟩ :: merge n ls []
  | n + 1, [], v :: vs => ⟨v.ref, .venueOnly⟩ :: merge n [] vs
  | _ + 1, [], [] => []

/-- `compare`. Rows that share a reference stay in the order they came in here; the `std::sort` of
the source may leave them in any order. -/
def compare (locals venue : List OrderSnapshot) (outCapacity : Nat) : List OrderReconcileResult :=
  merge outCapacity (locals.mergeSort fun a b => !byRef b a) (venue.mergeSort fun a b => !byRef b a)

end OrderReconciler

structure ReconciliationOutcome where
  reportsApplied : Nat := 0
  reportsDuplicate : Nat := 0
  reportsHeldForGap : Nat := 0
  reportsIllegal : Nat := 0
  reportsUnknownOrder : Nat := 0
  localOnly : Nat := 0
  venueOnly : Nat := 0
  stateMismatch : Nat := 0
  volumeMismatch : Nat := 0
  unresolvedUnknown : Nat := 0
  deriving DecidableEq, Repr, Inhabited

namespace ReconciliationOutcome

def clean (o : ReconciliationOutcome) : Bool :=
  o.localOnly == 0 && o.venueOnly == 0 && o.stateMismatch == 0 && o.volumeMismatch == 0 &&
    o.unresolvedUnknown == 0 && o.reportsIllegal == 0 && o.reportsUnknownOrder == 0

def countReport (o : ReconciliationOutcome) : ReportOutcome → ReconciliationOutcome
  | .applied => { o with reportsApplied := o.reportsApplied + 1 }
  | .duplicate => { o with reportsDuplicate := o.reportsDuplicate + 1 }
  | .heldForGap => { o with reportsHeldForGap := o.reportsHeldForGap + 1 }
  | .illegal => { o with reportsIllegal := o.reportsIllegal + 1 }
  | .unknownOrder => { o with reportsUnknownOrder := o.reportsUnknownOrder + 1 }
  | .terminalLate => o
  | .gapPoolExhausted => { o with reportsIllegal := o.reportsIllegal + 1 }

def countResult (o : ReconciliationOutcome) (r : OrderReconcileResult) : ReconciliationOutcome :=
  match r.status with
  | .localOnly => { o with localOnly := o.localOnly + 1 }
  | .venueOnly => { o with venueOnly := o.venueOnly + 1 }
  | .stateMismatch => { o with stateMismatch := o.stateMismatch + 1 }
  | .volumeMismatch => { o with volumeMismatch := o.volumeMismatch + 1 }
  | .matched => o

end ReconciliationOutcome

/-- The requests that `n` turns of `try_drain_one` release. -/
def VenueRateLimiter.drains (nowNs : Nat) : Nat → VenueRateLimiter → List PendingRequest
  | 0, _ => []
  | n + 1, l =>
    match l.tryDrainOne nowNs with
    | (none, _) => []
    | (some req, l) => req :: drains nowNs n l

/-- What one call of `run_reconciliation` reads from its adapter and its caller. `full n`
says whether the ring refuses the `n`-th request of the call. -/
structure ReconciliationInput where
  reports : List ExecReport
  openOrders : List OrderSnapshot
  snapshotCapacity : Nat
  localCapacity : Nat
  resultCapacity : Nat
  full : Nat → Bool

structure VenueConnection where
  id : UInt64
  oms : ShardedOms
  state : ConnectionState := .connected
  lastOutcome : ReconciliationOutcome := {}
  limiter : VenueRateLimiter := .new
  session : SessionConstraints := {}
  /-- The ledger behind the `RiskGate` pointer. -/
  riskGate : Option RiskLedger := none

namespace VenueConnection

def disconnect (c : VenueConnection) : VenueConnection := { c with state := .disconnected }

def configureRateLimit (c : VenueConnection) (config : VenueRateLimitConfig) (nowNs : Nat) :
    VenueConnection :=
  { c with limiter := c.limiter.configure config nowNs }

def setSession (c : VenueConnection) (session : SessionConstraints) : VenueConnection :=
  { c with session := session }

def attachRiskGate (c : VenueConnection) (gate : RiskLedger) : VenueConnection :=
  { c with riskGate := some gate }

def connectionAllowsNewExposure (c : VenueConnection) : Bool :=
  c.state == .connected || c.state == .ready

/-- `risk_gate_ == nullptr || risk_gate_->admit_create(..)`. -/
def gateCreate (c : VenueConnection) (symbol : Nat) (volume : Int) (ref : BrokerOrderRef) :
    Bool × VenueConnection :=
  match c.riskGate with
  | none => (true, c)
  | some ledger =>
    let r := ledger.admitCreate c.id symbol volume ref
    (r.2, { c with riskGate := some r.1 })

def gateReplace (c : VenueConnection) (ref : BrokerOrderRef) (newVolume : Int) :
    Bool × VenueConnection :=
  match c.riskGate with
  | none => (true, c)
  | some ledger =>
    let r := ledger.admitReplace ref newVolume
    (r.2, { c with riskGate := some r.1 })

/-- The answer of a `submit_*` as a decision. -/
def settle (c : VenueConnection) (r : Bool × Completion × ShardedOms) :
    Decision × Completion × VenueConnection :=
  (if r.1 && r.2.1.ok then .admitted else .rejected, r.2.1, { c with oms := r.2.2 })

def routeCreate (c : VenueConnection) (full : Bool) (ref : BrokerOrderRef) (symbol : Nat)
    (volume : Int) (nowNs : Nat) (out : Completion) : Decision × Completion × VenueConnection :=
  if !c.session.allowsNewExposure || !c.connectionAllowsNewExposure then (.rejected, out, c)
  else
    let a := c.limiter.admitRequest
      { kind := .order, ref := ref, symbol := symbol, volume := volume } nowNs
    let c := { c with limiter := a.2 }
    if a.1 ≠ .admitted then (a.1, out, c)
    else
      let g := c.gateCreate symbol volume ref
      if g.1 = false then (.rejected, out, g.2)
      else g.2.settle (g.2.oms.submitCreate full ref symbol volume out)

def routeCancel (c : VenueConnection) (full : Bool) (ref : BrokerOrderRef) (nowNs : Nat)
    (out : Completion) : Decision × Completion × VenueConnection :=
  if !c.session.allowsRiskReducing then (.rejected, out, c)
  else
    let a := c.limiter.admitRequest { kind := .cancel, ref := ref } nowNs
    let c := { c with limiter := a.2 }
    if a.1 ≠ .admitted then (a.1, out, c)
    else c.settle (c.oms.submitTransition full ref .cancelPending out)

def routeReplace (c : VenueConnection) (full : Bool) (ref : BrokerOrderRef)
    (newPrice newVolume : Int) (nowNs : Nat) (out : Completion) :
    Decision × Completion × VenueConnection :=
  if !c.session.allowsNewExposure || !c.connectionAllowsNewExposure then (.rejected, out, c)
  else
    let a := c.limiter.admitRequest
      { kind := .replace, ref := ref, volume := newVolume, price := newPrice } nowNs
    let c := { c with limiter := a.2 }
    if a.1 ≠ .admitted then (a.1, out, c)
    else
      let g := c.gateReplace ref newVolume
      if g.1 = false then (.rejected, out, g.2)
      else g.2.settle (g.2.oms.submitReplace full ref newPrice newVolume out)

/-- A parked request, handed to the system without another look at any gate. -/
def execute (c : VenueConnection) (full : Bool) (req : PendingRequest) : VenueConnection :=
  match req.kind with
  | .order => { c with oms := (c.oms.submitCreate full req.ref req.symbol req.volume {}).2.2 }
  | .cancel => { c with oms := (c.oms.submitTransition full req.ref .cancelPending {}).2.2 }
  | .replace => { c with oms := (c.oms.submitReplace full req.ref req.price req.volume {}).2.2 }

/-- `drain_pending`: `full n` says whether the ring refuses the `n`-th drained request, which
counts as drained all the same. -/
def drainPending (nowNs : Nat) : (Nat → Bool) → Nat → VenueConnection → Nat × VenueConnection
  | _, 0, c => (0, c)
  | full, n + 1, c =>
    match c.limiter.tryDrainOne nowNs with
    | (none, l) => (0, { c with limiter := l })
    | (some req, l) =>
      let r := drainPending nowNs (fun k => full (k + 1)) n
        ({ c with limiter := l }.execute (full 0) req)
      (r.1 + 1, r.2)

def beginRecovery (c : VenueConnection) : Bool × VenueConnection :=
  if c.state ≠ .disconnected then (false, c) else (true, { c with state := .reconciling })

/-- The first loop of `run_reconciliation`: the missed reports. -/
def replayReports : (Nat → Bool) → List ExecReport → ShardedOms → ReconciliationOutcome →
    ShardedOms × ReconciliationOutcome
  | _, [], oms, outcome => (oms, outcome)
  | full, report :: reports, oms, outcome =>
    let r := oms.submitReport (full 0) report {}
    let outcome :=
      if r.1 then outcome.countReport r.2.1.reportOutcome
      else { outcome with reportsIllegal := outcome.reportsIllegal + 1 }
    replayReports (fun k => full (k + 1)) reports r.2.2 outcome

def takeLocal (capacity : Nat) (locals : List OrderSnapshot) (o : Order) : List OrderSnapshot :=
  if locals.length < capacity ∧ o.state.isTerminal = false then
    locals ++ [⟨o.ref, o.state, o.requestedVolume, o.filledVolume⟩]
  else locals

/-- The second loop: the live orders of every shard that answers. -/
def collectLocal (snapshotCapacity localCapacity : Nat) : (Nat → Bool) → List Nat → ShardedOms →
    List OrderSnapshot → ShardedOms × List OrderSnapshot
  | _, [], oms, locals => (oms, locals)
  | full, shard :: shards, oms, locals =>
    let r := oms.submitSnapshot (full 0) shard snapshotCapacity {}
    let locals :=
      if r.1 then r.2.1.snapshotOut.foldl (takeLocal localCapacity) locals else locals
    collectLocal snapshotCapacity localCapacity (fun k => full (k + 1)) shards r.2.2 locals

def runReconciliation (c : VenueConnection) (input : ReconciliationInput) :
    ReconciliationOutcome × VenueConnection :=
  if c.state ≠ .reconciling then ({}, c)
  else
    let (oms, replayed) := replayReports input.full input.reports c.oms {}
    let (oms, locals) := collectLocal input.snapshotCapacity input.localCapacity
      (fun k => input.full (k + input.reports.length)) (List.range oms.shardCount) oms []
    let unresolved := (locals.filter fun o => o.state == .unknown).length
    let results := OrderReconciler.compare locals input.openOrders input.resultCapacity
    let outcome := results.foldl ReconciliationOutcome.countResult
      { replayed with unresolvedUnknown := unresolved }
    (outcome, { c with
      oms := oms, lastOutcome := outcome, state := if outcome.clean then .ready else c.state })

/-! ## What the gates let through -/

@[simp] theorem gateCreate_oms (c : VenueConnection) (symbol : Nat) (volume : Int)
    (ref : BrokerOrderRef) : (c.gateCreate symbol volume ref).2.oms = c.oms := by
  unfold gateCreate
  split <;> rfl

@[simp] theorem gateReplace_oms (c : VenueConnection) (ref : BrokerOrderRef) (newVolume : Int) :
    (c.gateReplace ref newVolume).2.oms = c.oms := by
  unfold gateReplace
  split <;> rfl

@[simp] theorem gateCreate_id (c : VenueConnection) (symbol : Nat) (volume : Int)
    (ref : BrokerOrderRef) : (c.gateCreate symbol volume ref).2.id = c.id := by
  unfold gateCreate
  split <;> rfl

@[simp] theorem gateReplace_id (c : VenueConnection) (ref : BrokerOrderRef) (newVolume : Int) :
    (c.gateReplace ref newVolume).2.id = c.id := by
  unfold gateReplace
  split <;> rfl

@[simp] theorem settle_id (c : VenueConnection) (a : Bool × Completion × ShardedOms) :
    (c.settle a).2.2.id = c.id := rfl

section Routes
variable (c : VenueConnection) (full : Bool) (ref : BrokerOrderRef) (nowNs : Nat) (out : Completion)

/-- `d` is the decision about the answer `a` of the system. -/
def Answers (d : Decision) (a : Bool × Completion × ShardedOms) : Prop :=
  d = if a.1 && a.2.1.ok then .admitted else .rejected

/-- A gate stops a create and the system never sees it, or the system decides. -/
theorem routeCreate_cases (symbol : Nat) (volume : Int) :
    let r := c.routeCreate full ref symbol volume nowNs out
    let a := c.oms.submitCreate full ref symbol volume out
    (r.1 ≠ .admitted ∧ r.2.1 = out ∧ r.2.2.oms = c.oms) ∨
      (c.session.allowsNewExposure = true ∧ c.connectionAllowsNewExposure = true ∧
        Answers r.1 a ∧ r.2.1 = a.2.1 ∧ r.2.2.oms = a.2.2) := by
  dsimp only
  unfold routeCreate
  split
  · exact .inl ⟨nofun, rfl, rfl⟩
  · rename_i hopen
    simp only [Bool.or_eq_true, Bool.not_eq_true', not_or, Bool.not_eq_false] at hopen
    dsimp only
    split
    · rename_i hlimited
      exact .inl ⟨hlimited, rfl, rfl⟩
    · split
      · exact .inl ⟨nofun, rfl, gateCreate_oms _ _ _ _⟩
      · refine .inr ⟨hopen.1, hopen.2, ?_⟩
        simp only [Answers, settle, gateCreate_oms, and_self]

theorem routeCancel_cases :
    let r := c.routeCancel full ref nowNs out
    let a := c.oms.submitTransition full ref .cancelPending out
    (r.1 ≠ .admitted ∧ r.2.1 = out ∧ r.2.2.oms = c.oms) ∨
      (Answers r.1 a ∧ r.2.1 = a.2.1 ∧ r.2.2.oms = a.2.2) := by
  dsimp only
  unfold routeCancel
  split
  · exact .inl ⟨nofun, rfl, rfl⟩
  · dsimp only
    split
    · rename_i hlimited
      exact .inl ⟨hlimited, rfl, rfl⟩
    · exact .inr ⟨rfl, rfl, rfl⟩

theorem routeReplace_cases (newPrice newVolume : Int) :
    let r := c.routeReplace full ref newPrice newVolume nowNs out
    let a := c.oms.submitReplace full ref newPrice newVolume out
    (r.1 ≠ .admitted ∧ r.2.1 = out ∧ r.2.2.oms = c.oms) ∨
      (c.session.allowsNewExposure = true ∧ c.connectionAllowsNewExposure = true ∧
        Answers r.1 a ∧ r.2.1 = a.2.1 ∧ r.2.2.oms = a.2.2) := by
  dsimp only
  unfold routeReplace
  split
  · exact .inl ⟨nofun, rfl, rfl⟩
  · rename_i hopen
    simp only [Bool.or_eq_true, Bool.not_eq_true', not_or, Bool.not_eq_false] at hopen
    dsimp only
    split
    · rename_i hlimited
      exact .inl ⟨hlimited, rfl, rfl⟩
    · split
      · exact .inl ⟨nofun, rfl, gateReplace_oms _ _ _⟩
      · refine .inr ⟨hopen.1, hopen.2, ?_⟩
        simp only [Answers, settle, gateReplace_oms, and_self]

/-- A create is admitted exactly when it has put its order into the system. -/
theorem routeCreate_order (symbol : Nat) (volume : Int) :
    let r := c.routeCreate full ref symbol volume nowNs out
    (r.1 ≠ .admitted ∧ r.2.2.oms.order = c.oms.order) ∨
      (r.1 = .admitted ∧ c.oms.order ref = none ∧
        r.2.2.oms.order = Function.update c.oms.order ref (some (Oms.created ref symbol volume))) := by
  dsimp only
  rcases c.routeCreate_cases full ref nowNs out symbol volume with
    ⟨hnot, _, homs⟩ | ⟨_, _, hanswer, _, homs⟩
  · exact .inl ⟨hnot, congrArg ShardedOms.order homs⟩
  · rw [homs]
    rcases c.oms.submitCreate_cases full ref out symbol volume with
      ⟨hok, _, _, hnone, _, horder, _⟩ | ⟨hok, _, horder⟩
    · rw [Answers, hok] at hanswer
      exact .inr ⟨hanswer, hnone, horder⟩
    · rw [Answers, hok] at hanswer
      exact .inl ⟨by rw [hanswer]; nofun, horder⟩

theorem routeCancel_order :
    let r := c.routeCancel full ref nowNs out
    (r.1 ≠ .admitted ∧ r.2.2.oms.order = c.oms.order) ∨
      (r.1 = .admitted ∧ ∃ x, c.oms.order ref = some x ∧
        r.2.2.oms.order = Function.update c.oms.order ref (some { x with state := .cancelPending }) ∧
        r.2.1.order = { x with state := .cancelPending }) := by
  dsimp only
  rcases c.routeCancel_cases full ref nowNs out with ⟨hnot, _, homs⟩ | ⟨hanswer, hout, homs⟩
  · exact .inl ⟨hnot, congrArg ShardedOms.order homs⟩
  · have htarget : OrderState.isTerminal .cancelPending = false := rfl
    rw [homs, hout]
    rcases c.oms.submitTransition_cases full ref out htarget with
      ⟨hok, x, hx, _, horder, hcopy⟩ | ⟨hok, horder⟩
    · rw [Answers, hok] at hanswer
      exact .inr ⟨hanswer, x, hx, horder, hcopy⟩
    · rw [Answers, hok] at hanswer
      exact .inl ⟨by rw [hanswer]; nofun, horder⟩

theorem routeReplace_order (newPrice newVolume : Int) :
    let r := c.routeReplace full ref newPrice newVolume nowNs out
    (r.1 ≠ .admitted ∧ r.2.2.oms.order = c.oms.order) ∨
      (r.1 = .admitted ∧ ∃ x, c.oms.order ref = some x ∧ replaceable x newVolume = true ∧
        r.2.2.oms.order = Function.update c.oms.order ref (some (replaceOrder newPrice newVolume x))) := by
  dsimp only
  rcases c.routeReplace_cases full ref nowNs out newPrice newVolume with
    ⟨hnot, _, homs⟩ | ⟨_, _, hanswer, _, homs⟩
  · exact .inl ⟨hnot, congrArg ShardedOms.order homs⟩
  · rw [homs]
    rcases c.oms.submitReplace_cases full ref out newPrice newVolume with
      ⟨hok, x, hx, hguard, horder, _, _⟩ | ⟨hok, _, horder⟩
    · rw [Answers, hok] at hanswer
      exact .inr ⟨hanswer, x, hx, hguard, horder⟩
    · rw [Answers, hok] at hanswer
      exact .inl ⟨by rw [hanswer]; nofun, horder⟩

@[simp] theorem routeCreate_id (symbol : Nat) (volume : Int) :
    (c.routeCreate full ref symbol volume nowNs out).2.2.id = c.id := by
  unfold routeCreate
  split
  · rfl
  · dsimp only
    split
    · rfl
    · split <;> exact gateCreate_id _ _ _ _

@[simp] theorem routeCancel_id : (c.routeCancel full ref nowNs out).2.2.id = c.id := by
  unfold routeCancel
  split
  · rfl
  · dsimp only
    split <;> rfl

@[simp] theorem routeReplace_id (newPrice newVolume : Int) :
    (c.routeReplace full ref newPrice newVolume nowNs out).2.2.id = c.id := by
  unfold routeReplace
  split
  · rfl
  · dsimp only
    split
    · rfl
    · split <;> exact gateReplace_id _ _ _

@[simp] theorem execute_id (req : PendingRequest) : (c.execute full req).id = c.id := by
  unfold execute
  split <;> rfl

/-- The answer of the limiter to a create that passed the session and connection gates. -/
def limitCreate (symbol : Nat) (volume : Int) : Decision :=
  (c.limiter.admitRequest
    { kind := .order, ref := ref, symbol := symbol, volume := volume } nowNs).1

def limitReplace (newPrice newVolume : Int) : Decision :=
  (c.limiter.admitRequest
    { kind := .replace, ref := ref, volume := newVolume, price := newPrice } nowNs).1

/-- The session or the connection state keeps new exposure out. -/
def Shut : Prop := c.session.allowsNewExposure = false ∨ c.connectionAllowsNewExposure = false

/-- Everything that makes `route_create` answer `rejected`. -/
def RefusesCreate (symbol : Nat) (volume : Int) : Prop :=
  c.Shut ∨ c.limitCreate ref nowNs symbol volume = .rejected ∨
    (c.limitCreate ref nowNs symbol volume = .admitted ∧
      ((c.gateCreate symbol volume ref).1 = false ∨ c.oms.RefusesCreate full ref))

def RefusesReplace (newPrice newVolume : Int) : Prop :=
  c.Shut ∨ c.limitReplace ref nowNs newPrice newVolume = .rejected ∨
    (c.limitReplace ref nowNs newPrice newVolume = .admitted ∧
      ((c.gateReplace ref newVolume).1 = false ∨ c.oms.RefusesReplace full ref newVolume))

instance : Decidable c.Shut := inferInstanceAs (Decidable (_ ∨ _))

instance (symbol : Nat) (volume : Int) : Decidable (c.RefusesCreate full ref nowNs symbol volume) :=
  inferInstanceAs (Decidable (_ ∨ _ ∨ (_ ∧ (_ ∨ _))))

instance (newPrice newVolume : Int) :
    Decidable (c.RefusesReplace full ref nowNs newPrice newVolume) :=
  inferInstanceAs (Decidable (_ ∨ _ ∨ (_ ∧ (_ ∨ _))))

theorem shut_iff :
    c.Shut ↔ (!c.session.allowsNewExposure || !c.connectionAllowsNewExposure) = true := by
  simp [Shut]

theorem gateCreate_limiter (l : VenueRateLimiter) (symbol : Nat) (volume : Int) :
    ({ c with limiter := l }.gateCreate symbol volume ref).1 = (c.gateCreate symbol volume ref).1 := by
  unfold gateCreate
  cases c.riskGate <;> rfl

theorem gateReplace_limiter (l : VenueRateLimiter) (newVolume : Int) :
    ({ c with limiter := l }.gateReplace ref newVolume).1 = (c.gateReplace ref newVolume).1 := by
  unfold gateReplace
  cases c.riskGate <;> rfl

theorem routeCreate_rejected_iff (symbol : Nat) (volume : Int) :
    (c.routeCreate full ref symbol volume nowNs out).1 = .rejected ↔
      c.RefusesCreate full ref nowNs symbol volume := by
  have homs := c.oms.submitCreate_refused_iff full ref out symbol volume
  unfold routeCreate RefusesCreate limitCreate
  by_cases hshut : c.Shut
  · rw [if_pos (c.shut_iff.mp hshut)]
    exact ⟨fun _ => .inl hshut, fun _ => rfl⟩
  · rw [if_neg (fun h => hshut (c.shut_iff.mpr h))]
    simp only [hshut, false_or]
    generalize c.limiter.admitRequest
      { kind := .order, ref := ref, symbol := symbol, volume := volume } nowNs = a
    obtain ⟨decision, l⟩ := a
    cases decision with
    | rejected => simp
    | deferred => simp
    | admitted =>
      simp only [ne_eq, not_true_eq_false, if_false, gateCreate_limiter, reduceCtorEq, false_or,
        true_and]
      split
      · rename_i hgate
        simp [hgate]
      · rename_i hgate
        simp only [settle, gateCreate_oms, hgate, ← homs]
        split <;> simp_all

theorem routeReplace_rejected_iff (newPrice newVolume : Int) :
    (c.routeReplace full ref newPrice newVolume nowNs out).1 = .rejected ↔
      c.RefusesReplace full ref nowNs newPrice newVolume := by
  have homs := c.oms.submitReplace_refused_iff full ref out newPrice newVolume
  unfold routeReplace RefusesReplace limitReplace
  by_cases hshut : c.Shut
  · rw [if_pos (c.shut_iff.mp hshut)]
    exact ⟨fun _ => .inl hshut, fun _ => rfl⟩
  · rw [if_neg (fun h => hshut (c.shut_iff.mpr h))]
    simp only [hshut, false_or]
    generalize c.limiter.admitRequest
      { kind := .replace, ref := ref, volume := newVolume, price := newPrice } nowNs = a
    obtain ⟨decision, l⟩ := a
    cases decision with
    | rejected => simp
    | deferred => simp
    | admitted =>
      simp only [ne_eq, not_true_eq_false, if_false, gateReplace_limiter, reduceCtorEq, false_or,
        true_and]
      split
      · rename_i hgate
        simp [hgate]
      · rename_i hgate
        simp only [settle, gateReplace_oms, hgate, ← homs]
        split <;> simp_all

/-- The limiter parks the replace. -/
def DefersReplace (newPrice newVolume : Int) : Prop :=
  ¬ c.Shut ∧ c.limitReplace ref nowNs newPrice newVolume = .deferred

instance (newPrice newVolume : Int) : Decidable (c.DefersReplace ref nowNs newPrice newVolume) :=
  inferInstanceAs (Decidable (_ ∧ _))

theorem routeReplace_deferred_iff (newPrice newVolume : Int) :
    (c.routeReplace full ref newPrice newVolume nowNs out).1 = .deferred ↔
      c.DefersReplace ref nowNs newPrice newVolume := by
  unfold routeReplace DefersReplace limitReplace
  by_cases hshut : c.Shut
  · rw [if_pos (c.shut_iff.mp hshut)]
    exact ⟨nofun, fun h => absurd hshut h.1⟩
  · rw [if_neg (fun h => hshut (c.shut_iff.mpr h))]
    simp only [hshut, not_false_eq_true, true_and]
    generalize c.limiter.admitRequest
      { kind := .replace, ref := ref, volume := newVolume, price := newPrice } nowNs = a
    obtain ⟨decision, l⟩ := a
    cases decision with
    | rejected => simp
    | deferred => simp
    | admitted =>
      simp only [ne_eq, not_true_eq_false, if_false, reduceCtorEq, iff_false]
      split
      · nofun
      · simp only [settle]
        split <;> nofun

/-- What a venue answers to a replace does not depend on its system beyond the orders. -/
theorem refusesReplace_congr {oms : ShardedOms} (h : oms.order = c.oms.order)
    (newPrice newVolume : Int) :
    { c with oms := oms }.RefusesReplace full ref nowNs newPrice newVolume ↔
      c.RefusesReplace full ref nowNs newPrice newVolume := by
  have hgate : ({ c with oms := oms }.gateReplace ref newVolume).1 = (c.gateReplace ref newVolume).1 := by
    unfold gateReplace
    cases c.riskGate <;> rfl
  have homs : oms.RefusesReplace full ref newVolume ↔ c.oms.RefusesReplace full ref newVolume := by
    unfold ShardedOms.RefusesReplace
    rw [h]
  unfold RefusesReplace
  rw [hgate]
  show _ ∨ _ ∨ _ ∧ (_ ∨ oms.RefusesReplace full ref newVolume) ↔ _
  rw [homs]
  exact Iff.rfl

end Routes

@[simp] theorem execute_limiter (c : VenueConnection) (full : Bool) (req : PendingRequest) :
    (c.execute full req).limiter = c.limiter := by
  unfold execute
  split <;> rfl

theorem update_ne_none {m : BrokerOrderRef → Option Order} {ref other : BrokerOrderRef} {y : Order}
    (h : m other ≠ none) : Function.update m ref (some y) other ≠ none := by
  by_cases hother : other = ref
  · subst hother
    rw [Function.update_self]
    nofun
  · rw [Function.update_of_ne hother]
    exact h

theorem execute_engine (c : VenueConnection) (full : Bool) (req : PendingRequest) :
    (c.execute full req).oms.engine = c.oms.engine := by
  unfold execute
  split <;> exact ShardedOms.dispatch_engine

theorem execute_live (c : VenueConnection) (full : Bool) (req : PendingRequest) {ref : BrokerOrderRef}
    (h : c.oms.order ref ≠ none) : (c.execute full req).oms.order ref ≠ none := by
  unfold execute
  split
  · rcases c.oms.submitCreate_cases full req.ref {} req.symbol req.volume with
      ⟨_, _, _, _, _, horder, _⟩ | ⟨_, _, horder⟩
    · rw [horder]
      exact update_ne_none h
    · rw [horder]
      exact h
  · have htarget : OrderState.isTerminal .cancelPending = false := rfl
    rcases c.oms.submitTransition_cases full req.ref {} htarget with
      ⟨_, _, _, _, horder, _⟩ | ⟨_, horder⟩
    · rw [horder]
      exact update_ne_none h
    · rw [horder]
      exact h
  · rcases c.oms.submitReplace_cases full req.ref {} req.price req.volume with
      ⟨_, _, _, _, horder, _⟩ | ⟨_, _, horder⟩
    · rw [horder]
      exact update_ne_none h
    · rw [horder]
      exact h

/-- The rule for drains: what executing each released request keeps, the drain keeps. -/
theorem drainPending_invariant {P : ShardedOms → Prop} {Q : PendingRequest → Prop}
    (hstep : ∀ (c : VenueConnection) (full : Bool) (req : PendingRequest),
      P c.oms → Q req → P (c.execute full req).oms)
    {nowNs n : Nat} {full : Nat → Bool} {c : VenueConnection} (h : P c.oms)
    (hall : ∀ req ∈ c.limiter.drains nowNs n, Q req) : P (drainPending nowNs full n c).2.oms := by
  induction n generalizing c full with
  | zero => exact h
  | succ n ih =>
    unfold drainPending
    unfold VenueRateLimiter.drains at hall
    split
    · exact h
    · rename_i req l hdrain
      rw [hdrain] at hall
      dsimp only at hall ⊢
      refine ih (hstep { c with limiter := l } (full 0) req h (hall req List.mem_cons_self)) ?_
      intro other hother
      rw [execute_limiter] at hother
      exact hall other (List.mem_cons_of_mem _ hother)

@[simp] theorem drainPending_id (nowNs : Nat) (full : Nat → Bool) (n : Nat) (c : VenueConnection) :
    (drainPending nowNs full n c).2.id = c.id := by
  induction n generalizing c full with
  | zero => rfl
  | succ n ih =>
    unfold drainPending
    split
    · rfl
    · exact (ih _ _).trans (execute_id _ _ _)

end VenueConnection

end MicrostructureEngine
