import MicrostructureEngine.Oms.Sequencer
import MicrostructureEngine.Risk.Engine
import MicrostructureEngine.Lib.Runs

/-!
# The sharded order management system

`ShardedOms::apply` and `emit_wal`. A step is one request applied by the worker of its
shard: workers share nothing but the global sequence counter and the process-wide risk
engine, so the interleaving of the shards is the order of the steps. Completions are
caller-owned cells, addressed by number; a cell may be used again, and `apply` reads what
an earlier request left there.
-/

namespace MicrostructureEngine

set_option autoImplicit false

inductive OpKind where
  | create
  | find
  | transition
  | fill
  | replace
  | report
  | snapshot
  | restore
  deriving DecidableEq, Repr, Inhabited

structure Completion where
  ok : Bool := false
  order : Order := {}
  reportOutcome : ReportOutcome := .applied
  snapshotOut : List Order := []
  snapshotCapacity : Nat := 0
  snapshotCount : Nat := 0

structure Request where
  kind : OpKind
  ref : BrokerOrderRef := {}
  symbol : Nat := 0
  volume : Int := 0
  price : Int := 0
  target : OrderState := .newOrder
  venueSeq : Nat := 0
  reportKind : ReportKind := .ack
  filledVolume : Int := 0
  deriving DecidableEq, Repr

/-- The report an `OpKind::report` request carries. -/
def Request.execReport (req : Request) : ExecReport :=
  { ref := req.ref, venueSeq := req.venueSeq, kind := req.reportKind, volume := req.volume,
    price := req.price }

/-- The order an `OpKind::restore` request carries. -/
def Request.restoredOrder (req : Request) : Order :=
  { ref := req.ref, symbolId := req.symbol, requestedVolume := req.volume,
    filledVolume := req.filledVolume, limitPriceTicks := req.price, state := req.target }

structure LogEntry where
  globalSeq : Nat
  kind : OpKind
  ref : BrokerOrderRef
  resultState : OrderState
  ok : Bool
  deriving DecidableEq, Repr

structure Shard where
  oms : Oms
  sequencer : ReportSequencer
  log : List LogEntry
  logCapacity : Nat

def Shard.new (capacity logCapacity gapPoolCapacity terminalCacheCapacity : Nat) : Shard :=
  ⟨Oms.new capacity, .new gapPoolCapacity terminalCacheCapacity, [], logCapacity⟩

/-- What the `switch` of `apply` computes. `before` is the copy taken for the journal. -/
structure Applied where
  oms : Oms
  sequencer : ReportSequencer
  ok : Bool
  completion : Completion
  before : Option Order := none

namespace Shard

/-- `if (o) c.order = *o;`. -/
def copyOrder (c : Completion) (o : Option Order) : Completion :=
  match o with
  | some x => { c with order := x }
  | none => c

def applyCreate (sh : Shard) (approved : Bool) (req : Request) (c : Completion) : Applied :=
  if !approved then ⟨sh.oms, sh.sequencer, false, c, none⟩
  else
    let r := sh.oms.create req.ref req.symbol req.volume
    ⟨r.2, sh.sequencer, r.1.isSome, copyOrder c r.1, none⟩

def applyFind (sh : Shard) (req : Request) (c : Completion) : Applied :=
  let x := sh.oms.find req.ref
  ⟨sh.oms, sh.sequencer, x.isSome, copyOrder c x, none⟩

/-- A terminal transition has reclaimed the order: only the state of the cell is updated,
its other fields keep whatever the cell held. -/
def applyTransition (sh : Shard) (req : Request) (c : Completion) : Applied :=
  let r := sh.oms.transition req.ref req.target
  let c :=
    if r.1 then
      match r.2.find req.ref with
      | some x => { c with order := x }
      | none => { c with order := { c.order with state := req.target } }
    else c
  ⟨r.2, sh.sequencer, r.1, c, sh.oms.find req.ref⟩

def applyFill (sh : Shard) (req : Request) (c : Completion) : Applied :=
  let r := sh.oms.fill req.ref req.volume
  ⟨r.2, sh.sequencer, r.1, if r.1 then copyOrder c (r.2.find req.ref) else c, sh.oms.find req.ref⟩

/-- `before` is captured only when the replace is accepted. -/
def applyReplace (sh : Shard) (req : Request) (c : Completion) : Applied :=
  let r := sh.oms.replace req.ref req.price req.volume
  ⟨r.2, sh.sequencer, r.1, if r.1 then copyOrder c (r.2.find req.ref) else c,
    if r.1 then sh.oms.find req.ref else none⟩

def applyReport (sh : Shard) (req : Request) (c : Completion) : Applied :=
  let r := sh.sequencer.process sh.oms req.execReport
  ⟨r.2.2, r.2.1, r.1 == .applied, copyOrder { c with reportOutcome := r.1 } (r.2.2.find req.ref),
    sh.oms.find req.ref⟩

def applySnapshot (sh : Shard) (c : Completion) : Applied :=
  let out := ((List.range sh.oms.size).take c.snapshotCapacity).map sh.oms.atSlot
  ⟨sh.oms, sh.sequencer, true, { c with snapshotOut := out, snapshotCount := out.length }, none⟩

def applyRestore (sh : Shard) (req : Request) (c : Completion) : Applied :=
  let r := sh.oms.restore req.restoredOrder
  ⟨r.2, sh.sequencer, r.1.isSome, copyOrder c r.1, none⟩

/-- The `switch` of `ShardedOms::apply` with `c.ok = ok`. -/
def apply (sh : Shard) (approved : Bool) (req : Request) (c : Completion) : Applied :=
  let a :=
    match req.kind with
    | .create => sh.applyCreate approved req c
    | .find => sh.applyFind req c
    | .transition => sh.applyTransition req c
    | .fill => sh.applyFill req c
    | .replace => sh.applyReplace req c
    | .report => sh.applyReport req c
    | .snapshot => sh.applySnapshot c
    | .restore => sh.applyRestore req c
  { a with completion := { a.completion with ok := a.ok } }

/-- The bounded operation log: past its capacity the shard stops recording. -/
def logged (sh : Shard) (e : LogEntry) : Shard :=
  if sh.log.length < sh.logCapacity then { sh with log := sh.log ++ [e] } else sh

end Shard

/-! ## Journal records of one operation -/

namespace Wal

/-- `fill`'s schema requires a nonzero ticket. -/
def syntheticTicket (ref : BrokerOrderRef) : UInt64 :=
  if ref.logicalOrderId = 0 then 1 else ref.logicalOrderId

def syntheticInitialPrice : Int := 1

def oldPrice (before : Order) : Int :=
  if before.limitPriceTicks > 0 then before.limitPriceTicks else syntheticInitialPrice

/-- The lambda `push`, without the hand-over to the hook. -/
def record (ref : BrokerOrderRef) (tsNs : Nat) (type : JournalRecordType) (symbol : Nat)
    (positionTicket : UInt64) (a b c d : Int) : JournalRecord :=
  { tsNs := tsNs, type := type.code, symbolId := symbol, runId := ref.runId,
    logicalOrderId := ref.logicalOrderId, positionTicket := positionTicket, a := a, b := b, c := c,
    d := d }

/-- The lambda `order_state`. -/
def orderState (ref : BrokerOrderRef) (tsNs : Nat) (symbol : Nat) (fromState toState : OrderState)
    (filled requested : Int) : JournalRecord :=
  record ref tsNs .orderState symbol 0 fromState.code toState.code filled requested

def createRecords (req : Request) (tsNs : Nat) : List JournalRecord :=
  [record req.ref tsNs .command req.symbol 0 0 req.volume syntheticInitialPrice 0]

def transitionRecords (req : Request) (before : Order) (c : Completion) (tsNs : Nat) :
    List JournalRecord :=
  if before.state = .pendingSend ∧ req.target = .sent then []
  else
    orderState req.ref tsNs c.order.symbolId before.state req.target before.filledVolume
        before.requestedVolume ::
      if req.target = .acknowledged then
        [record req.ref tsNs .acknowledgement c.order.symbolId 0 0 0 0 0]
      else []

/-- A fill and the state it reaches; the same text for `OpKind::fill` and for a fill report. -/
def fillRecords (req : Request) (before : Order) (tsNs : Nat) : List JournalRecord :=
  let newFilled := before.filledVolume + req.volume
  let fully := decide (newFilled ≥ before.requestedVolume)
  [record req.ref tsNs .fill before.symbolId (syntheticTicket req.ref) req.volume req.volume
      (if fully then 1 else 0) 0,
    orderState req.ref tsNs before.symbolId before.state
      (if fully then .filled else .partiallyFilled) newFilled before.requestedVolume]

def replaceRecords (req : Request) (before : Order) (tsNs : Nat) : List JournalRecord :=
  [record req.ref tsNs .replace before.symbolId 0 (oldPrice before) req.price
    before.requestedVolume req.volume]

def reportRecords (req : Request) (before : Order) (tsNs : Nat) : List JournalRecord :=
  let moved (next : OrderState) : JournalRecord :=
    orderState req.ref tsNs before.symbolId before.state next before.filledVolume
      before.requestedVolume
  match req.reportKind with
  | .ack => [moved .acknowledged, record req.ref tsNs .acknowledgement before.symbolId 0 0 0 0 0]
  | .fill => fillRecords req before tsNs
  | .cancelPending => [moved .cancelPending]
  | .cancelled => [record req.ref tsNs .cancel before.symbolId 0 0 0 0 0, moved .cancelled]
  | .reject => [record req.ref tsNs .rejection before.symbolId 0 1 0 0 0, moved .rejected]
  | .replaceAck => replaceRecords req before tsNs

/-- The records `emit_wal` pushes, in push order. -/
def records (req : Request) (before : Option Order) (c : Completion) (tsNs : Nat) :
    List JournalRecord :=
  match req.kind, before with
  | .create, _ => createRecords req tsNs
  | .transition, some x => transitionRecords req x c tsNs
  | .fill, some x => fillRecords req x tsNs
  | .replace, some x => replaceRecords req x tsNs
  | .report, some x => reportRecords req x tsNs
  | _, _ => []

end Wal

/-- `persist::WalHook`: `record` never blocks and may refuse. `accepts n` is the answer to
the `n`-th call; `outbox i` holds what was accepted from shard `i`, oldest first. -/
structure WalHook where
  accepts : Nat → Bool
  calls : Nat := 0
  outbox : Nat → List JournalRecord := fun _ => []

def WalHook.record (w : WalHook) (shard : Nat) (r : JournalRecord) : Bool × WalHook :=
  (w.accepts w.calls,
    { w with
      calls := w.calls + 1
      outbox := if w.accepts w.calls then Function.update w.outbox shard (w.outbox shard ++ [r])
        else w.outbox })

structure ShardedOms where
  shardCount : Nat
  shardCount_pos : 0 < shardCount
  shards : Nat → Shard
  completions : Nat → Completion := fun _ => {}
  engine : Risk.RiskEngine := {}
  globalSeq : Nat := 0
  walHook : Option WalHook := none
  walDropped : Nat := 0

namespace ShardedOms

def new (shardCount : Nat) (h : 0 < shardCount)
    (capacity logCapacity gapPoolCapacity terminalCacheCapacity : Nat) : ShardedOms where
  shardCount := shardCount
  shardCount_pos := h
  shards := fun _ => Shard.new capacity logCapacity gapPoolCapacity terminalCacheCapacity

def haltGlobally (s : ShardedOms) (reason : Risk.HaltReason) : ShardedOms :=
  { s with engine := s.engine.halt reason }

def shardOf (s : ShardedOms) (ref : BrokerOrderRef) : Nat := ref.logicalOrderId.toNat % s.shardCount

/-- One call of the hook: a refused record is counted, never retried. -/
def push (s : ShardedOms) (shard : Nat) (r : JournalRecord) : ShardedOms :=
  match s.walHook with
  | none => s
  | some w =>
    let q := w.record shard r
    { s with
      walHook := some q.2
      walDropped := if q.1 then s.walDropped else s.walDropped + 1 }

def pushAll (s : ShardedOms) (shard : Nat) (rs : List JournalRecord) : ShardedOms :=
  rs.foldl (fun s r => s.push shard r) s

/-- The journal of one applied request; nothing is written for a request that failed. -/
def emitWal (s : ShardedOms) (shard : Nat) (req : Request) (a : Applied) (tsNs : Nat) : ShardedOms :=
  if a.ok then s.pushAll shard (Wal.records req a.before a.completion tsNs) else s

/-- `ShardedOms::apply` on the shard's own worker. -/
def apply (s : ShardedOms) (shard : Nat) (req : Request) (cell : Nat) : ShardedOms :=
  let sh := s.shards shard
  let a := sh.apply s.engine.standingApproval req (s.completions cell)
  let sh' : Shard := { sh with oms := a.oms, sequencer := a.sequencer }
  let entry : LogEntry := ⟨s.globalSeq, req.kind, req.ref, a.completion.order.state, a.ok⟩
  let s' : ShardedOms := { s with
    shards := Function.update s.shards shard (sh'.logged entry)
    completions := Function.update s.completions cell a.completion
    globalSeq := s.globalSeq + 1 }
  s'.emitWal shard req a s.globalSeq

/-- What can happen to the system: a request routed by its reference, a snapshot of one
shard into a buffer of the caller, or the kill switch. -/
inductive Event where
  | request (req : Request) (cell : Nat)
  | snapshot (shard capacity cell : Nat)
  | haltGlobally (reason : Risk.HaltReason)

def step (s : ShardedOms) : Event → ShardedOms
  | .request req cell => s.apply (s.shardOf req.ref) req cell
  | .snapshot shard capacity cell =>
    let c : Completion := { s.completions cell with
      snapshotOut := [], snapshotCapacity := capacity, snapshotCount := 0 }
    { s with completions := Function.update s.completions cell c }.apply shard
      { kind := .snapshot } cell
  | .haltGlobally reason => s.haltGlobally reason

/-- The order held for a reference, in the shard that its requests are routed to. -/
def order (s : ShardedOms) (ref : BrokerOrderRef) : Option Order :=
  (s.shards (s.shardOf ref)).oms.find ref

/-- `reserved_exposure()` summed over the shards. -/
def reservedExposure (s : ShardedOms) : Int :=
  ((List.range s.shardCount).map fun i => (s.shards i).oms.reservedExposure).sum

def outbox (s : ShardedOms) (shard : Nat) : List JournalRecord :=
  match s.walHook with
  | none => []
  | some w => w.outbox shard

/-! ## What a step leaves alone -/

section Frame
variable (s : ShardedOms)

@[simp] theorem push_shards (i : Nat) (r : JournalRecord) : (s.push i r).shards = s.shards := by
  unfold push
  split <;> rfl

@[simp] theorem push_shardCount (i : Nat) (r : JournalRecord) :
    (s.push i r).shardCount = s.shardCount := by
  unfold push
  split <;> rfl

@[simp] theorem push_completions (i : Nat) (r : JournalRecord) :
    (s.push i r).completions = s.completions := by
  unfold push
  split <;> rfl

@[simp] theorem push_globalSeq (i : Nat) (r : JournalRecord) :
    (s.push i r).globalSeq = s.globalSeq := by
  unfold push
  split <;> rfl

/-- A field that no hook call writes is the same after any number of them. -/
theorem pushAll_field {α : Type} (f : ShardedOms → α) (h : ∀ s i r, f (s.push i r) = f s) (i : Nat)
    (rs : List JournalRecord) : f (s.pushAll i rs) = f s := by
  unfold pushAll
  induction rs generalizing s with
  | nil => rfl
  | cons r rs ih => rw [List.foldl_cons, ih, h]

theorem emitWal_field {α : Type} (f : ShardedOms → α) (h : ∀ s i r, f (s.push i r) = f s) (i : Nat)
    (req : Request) (a : Applied) (tsNs : Nat) : f (s.emitWal i req a tsNs) = f s := by
  unfold emitWal
  split
  · exact pushAll_field s f h i _
  · rfl

@[simp] theorem emitWal_shards (i : Nat) (req : Request) (a : Applied) (tsNs : Nat) :
    (s.emitWal i req a tsNs).shards = s.shards :=
  emitWal_field s shards push_shards i req a tsNs

@[simp] theorem emitWal_shardCount (i : Nat) (req : Request) (a : Applied) (tsNs : Nat) :
    (s.emitWal i req a tsNs).shardCount = s.shardCount :=
  emitWal_field s shardCount push_shardCount i req a tsNs

@[simp] theorem emitWal_completions (i : Nat) (req : Request) (a : Applied) (tsNs : Nat) :
    (s.emitWal i req a tsNs).completions = s.completions :=
  emitWal_field s completions push_completions i req a tsNs

@[simp] theorem emitWal_globalSeq (i : Nat) (req : Request) (a : Applied) (tsNs : Nat) :
    (s.emitWal i req a tsNs).globalSeq = s.globalSeq :=
  emitWal_field s globalSeq push_globalSeq i req a tsNs

/-- The answer of the shard to a request, in the state in which it is applied. -/
def answer (i : Nat) (req : Request) (cell : Nat) : Applied :=
  (s.shards i).apply s.engine.standingApproval req (s.completions cell)

theorem logged_oms (sh : Shard) (e : LogEntry) : (sh.logged e).oms = sh.oms := by
  unfold Shard.logged
  split <;> rfl

theorem logged_sequencer (sh : Shard) (e : LogEntry) : (sh.logged e).sequencer = sh.sequencer := by
  unfold Shard.logged
  split <;> rfl

theorem apply_oms (i : Nat) (req : Request) (cell : Nat) :
    ((s.apply i req cell).shards i).oms = (s.answer i req cell).oms := by
  simp [apply, answer, logged_oms]

theorem apply_sequencer (i : Nat) (req : Request) (cell : Nat) :
    ((s.apply i req cell).shards i).sequencer = (s.answer i req cell).sequencer := by
  simp [apply, answer, logged_sequencer]

theorem apply_shards_of_ne {i j : Nat} (h : j ≠ i) (req : Request) (cell : Nat) :
    (s.apply i req cell).shards j = s.shards j := by
  simp [apply, Function.update_of_ne h]

@[simp] theorem apply_shardCount (i : Nat) (req : Request) (cell : Nat) :
    (s.apply i req cell).shardCount = s.shardCount := by
  simp [apply]

@[simp] theorem step_shardCount (e : Event) : (s.step e).shardCount = s.shardCount := by
  cases e with
  | request req cell => exact s.apply_shardCount _ req cell
  | snapshot shard capacity cell => simp [step]
  | haltGlobally reason => rfl

/-- A snapshot or the kill switch changes no order and no held report. -/
theorem step_snapshot (shard capacity cell i : Nat) :
    ((s.step (.snapshot shard capacity cell)).shards i).oms = (s.shards i).oms ∧
      ((s.step (.snapshot shard capacity cell)).shards i).sequencer = (s.shards i).sequencer := by
  unfold step
  by_cases h : i = shard
  · subst h
    rw [apply_oms, apply_sequencer]
    exact ⟨rfl, rfl⟩
  · rw [apply_shards_of_ne _ h]
    exact ⟨rfl, rfl⟩

end Frame

end ShardedOms

end MicrostructureEngine
