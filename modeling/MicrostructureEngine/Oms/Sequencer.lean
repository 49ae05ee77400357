import MicrostructureEngine.Oms.Orders
import MicrostructureEngine.Lib.SlotPool

/-!
# Execution-report sequencing

`report_sequencer.hpp`: a gap pool of reports held ahead of a gap, a ring of recently
terminal references, and `process`, which applies, holds or refuses one report. Sequence
numbers are `Nat`: a live order never reaches the last 64-bit value plus one, because a
report must exceed `last_applied_seq` to be applied.
-/

namespace MicrostructureEngine

open scoped List
set_option autoImplicit false

inductive ReportKind where
  | ack
  | fill
  | cancelPending
  | cancelled
  | reject
  | replaceAck
  deriving DecidableEq, Repr, Inhabited

structure ExecReport where
  ref : BrokerOrderRef := {}
  venueSeq : Nat := 0
  kind : ReportKind := .ack
  volume : Int := 0
  price : Int := 0
  deriving DecidableEq, Repr, Inhabited

inductive ReportOutcome where
  | applied
  | duplicate
  | heldForGap
  | unknownOrder
  | terminalLate
  | illegal
  | gapPoolExhausted
  deriving DecidableEq, Repr, Inhabited

/-- The bounded reorder buffer. `held_count_` is a counter of its own, kept equal to the
number of occupied slots by every operation. -/
structure GapPool where
  slots : List (Option ExecReport)
  heldCount : Nat
  counted : heldCount = (SlotPool.contents slots).length

namespace GapPool

def new (capacity : Nat) : GapPool := ⟨List.replicate capacity none, 0, by simp⟩

def capacity (p : GapPool) : Nat := p.slots.length

/-- The reports held, in slot order. -/
def held (p : GapPool) : List ExecReport := SlotPool.contents p.slots

def hold (p : GapPool) (report : ExecReport) : Bool × GapPool :=
  match h : SlotPool.put report p.slots with
  | none => (false, p)
  | some slots => (true, ⟨slots, p.heldCount + 1, by
      rw [(SlotPool.put_eq_some h).1.length_eq, List.length_cons, p.counted]⟩)

/-- The test of the scan in `take`. -/
def wanted (ref : BrokerOrderRef) (seq : Nat) (r : ExecReport) : Bool :=
  r.ref == ref && r.venueSeq == seq

def take (p : GapPool) (ref : BrokerOrderRef) (seq : Nat) : Option (ExecReport × GapPool) :=
  match h : SlotPool.takeFirst (wanted ref seq) p.slots with
  | none => none
  | some (out, slots) => some (out, ⟨slots, p.heldCount - 1, by
      rw [p.counted, (SlotPool.takeFirst_eq_some h).2.1.length_eq, List.length_cons,
        Nat.add_sub_cancel]⟩)

def discardAllFor (p : GapPool) (ref : BrokerOrderRef) : GapPool where
  slots := SlotPool.discard (fun r => r.ref == ref) p.slots
  heldCount := p.heldCount - (p.held.filter fun r => r.ref == ref).length
  counted := by
    have hsplit := List.length_eq_length_filter_add (l := p.held) fun r => r.ref == ref
    rw [SlotPool.contents_discard, p.counted]
    unfold held at hsplit ⊢
    omega

@[simp] theorem held_new (capacity : Nat) : (new capacity).held = [] := by
  simp [new, held]

@[simp] theorem capacity_new (capacity : Nat) : (new capacity).capacity = capacity := by
  simp [new, GapPool.capacity]

theorem heldCount_eq (p : GapPool) : p.heldCount = p.held.length := p.counted

theorem hold_eq (p : GapPool) (report : ExecReport) :
    ((p.hold report).1 = false ∧ (p.hold report).2 = p) ∨
    ((p.hold report).1 = true ∧ (p.hold report).2.held ~ report :: p.held) := by
  unfold hold
  split
  · exact Or.inl ⟨rfl, rfl⟩
  · rename_i slots h
    exact Or.inr ⟨rfl, (SlotPool.put_eq_some h).1⟩

theorem hold_capacity (p : GapPool) (report : ExecReport) :
    (p.hold report).2.capacity = p.capacity := by
  unfold hold
  split
  · rfl
  · rename_i slots h
    exact (SlotPool.put_eq_some h).2

theorem hold_of_room (p : GapPool) (report : ExecReport) (h : p.held.length < p.capacity) :
    (p.hold report).1 = true := by
  unfold hold
  split
  · rename_i hnone
    exact absurd hnone (SlotPool.put_ne_none h)
  · rfl

theorem wanted_iff {ref : BrokerOrderRef} {seq : Nat} {r : ExecReport} :
    wanted ref seq r = true ↔ r.ref = ref ∧ r.venueSeq = seq := by
  simp [wanted]

theorem take_eq_some {p p' : GapPool} {ref : BrokerOrderRef} {seq : Nat} {out : ExecReport}
    (h : p.take ref seq = some (out, p')) :
    out.ref = ref ∧ out.venueSeq = seq ∧ p.held ~ out :: p'.held ∧ p'.capacity = p.capacity := by
  unfold take at h
  split at h
  · cases h
  · rename_i slots hslots
    cases h
    obtain ⟨hw, hperm, hlen⟩ := SlotPool.takeFirst_eq_some hslots
    exact ⟨(wanted_iff.mp hw).1, (wanted_iff.mp hw).2, hperm, hlen⟩

theorem take_find {p p' : GapPool} {ref : BrokerOrderRef} {seq : Nat} {out : ExecReport}
    (h : p.take ref seq = some (out, p')) :
    p.held.find? (wanted ref seq) = some out ∧ p'.held = p.held.eraseP (wanted ref seq) := by
  unfold take at h
  split at h
  · cases h
  · rename_i slots hslots
    cases h
    exact SlotPool.takeFirst_find hslots

theorem take_eq_none_iff {p : GapPool} {ref : BrokerOrderRef} {seq : Nat} :
    p.take ref seq = none ↔ ∀ r ∈ p.held, ¬ (r.ref = ref ∧ r.venueSeq = seq) := by
  have hiff : p.take ref seq = none ↔ SlotPool.takeFirst (wanted ref seq) p.slots = none := by
    unfold take
    split
    · rename_i h
      simp [h]
    · rename_i h
      simp [h]
  rw [hiff, SlotPool.takeFirst_eq_none_iff]
  simp only [← wanted_iff, Bool.not_eq_true]
  rfl

theorem held_discardAllFor (p : GapPool) (ref : BrokerOrderRef) :
    (p.discardAllFor ref).held = p.held.filter fun r => !(r.ref == ref) :=
  SlotPool.contents_discard _ _

theorem discardAllFor_capacity (p : GapPool) (ref : BrokerOrderRef) :
    (p.discardAllFor ref).capacity = p.capacity :=
  SlotPool.length_discard _ _

end GapPool

/-- Overwrite-oldest ring of recently terminal references. -/
structure TerminalCache where
  capacity : Nat
  write : Nat
  count : Nat
  ring : Nat → BrokerOrderRef

namespace TerminalCache

def new (capacity : Nat) : TerminalCache :=
  ⟨if capacity = 0 then 1 else capacity, 0, 0, fun _ => {}⟩

def record (t : TerminalCache) (ref : BrokerOrderRef) : TerminalCache where
  capacity := t.capacity
  write := t.write + 1
  count := if t.count < t.capacity then t.count + 1 else t.count
  ring := Function.update t.ring (t.write % t.capacity) ref

def contains (t : TerminalCache) (ref : BrokerOrderRef) : Bool :=
  (List.range t.count).any fun i => t.ring i == ref

end TerminalCache

structure ReportSequencer where
  gapPool : GapPool
  terminalCache : TerminalCache

/-- The guard of a replace, the same text in `apply_one` and in `ShardedOms::apply`. -/
def replaceable (x : Order) (volume : Int) : Bool :=
  !x.state.isTerminal && x.state != .unknown && decide (volume > x.filledVolume)

/-- The two pointer writes of an accepted replace. -/
def replaceOrder (price volume : Int) (x : Order) : Order :=
  { x with limitPriceTicks := price, requestedVolume := volume }

def Oms.replace (o : Oms) (ref : BrokerOrderRef) (price volume : Int) : Bool × Oms :=
  match o.find ref with
  | none => (false, o)
  | some x =>
    if replaceable x volume then (true, o.modify ref (replaceOrder price volume) fun _ => rfl)
    else (false, o)

/-- `after->last_applied_seq = report.venue_seq`. -/
def setSeq (seq : Nat) (x : Order) : Order := { x with lastAppliedSeq := seq }

namespace ReportSequencer

def new (gapPoolCapacity terminalCacheCapacity : Nat) : ReportSequencer :=
  ⟨GapPool.new gapPoolCapacity, TerminalCache.new terminalCacheCapacity⟩

/-- The `switch` of `apply_one`. -/
def applyKind (o : Oms) (report : ExecReport) : Bool × Oms :=
  match report.kind with
  | .ack => o.transition report.ref .acknowledged
  | .fill => o.fill report.ref report.volume
  | .cancelPending => o.transition report.ref .cancelPending
  | .cancelled => o.transition report.ref .cancelled
  | .reject => o.transition report.ref .rejected
  | .replaceAck => o.replace report.ref report.price report.volume

def applyOne (q : ReportSequencer) (o : Oms) (report : ExecReport) :
    ReportOutcome × ReportSequencer × Oms :=
  let r := applyKind o report
  if !r.1 then (.illegal, q, r.2)
  else
    match r.2.find report.ref with
    | none => (.applied, { q with terminalCache := q.terminalCache.record report.ref }, r.2)
    | some _ => (.applied, q, r.2.modify report.ref (setSeq report.venueSeq) fun _ => rfl)

/-- The `for (;;)` of `drain`; every iteration but the last takes a report out of the
pool, so `held_count() + 1` iterations are always enough (`drainLoop_fuel`). -/
def drainLoop : Nat → ReportSequencer → Oms → BrokerOrderRef → ReportSequencer × Oms
  | 0, q, o, _ => (q, o)
  | fuel + 1, q, o, ref =>
    match o.find ref with
    | none => ({ q with gapPool := q.gapPool.discardAllFor ref }, o)
    | some x =>
      match q.gapPool.take ref (x.lastAppliedSeq + 1) with
      | none => (q, o)
      | some (next, pool) =>
        let r := applyOne { q with gapPool := pool } o next
        if r.1 ≠ .applied then r.2 else drainLoop fuel r.2.1 r.2.2 ref

def drain (q : ReportSequencer) (o : Oms) (ref : BrokerOrderRef) : ReportSequencer × Oms :=
  if q.gapPool.heldCount = 0 then (q, o) else drainLoop (q.gapPool.heldCount + 1) q o ref

/-- `hold` and the outcome that reports whether there was room. -/
def holdReport (q : ReportSequencer) (o : Oms) (report : ExecReport) :
    ReportOutcome × ReportSequencer × Oms :=
  let h := q.gapPool.hold report
  (if h.1 then .heldForGap else .gapPoolExhausted, { q with gapPool := h.2 }, o)

def process (q : ReportSequencer) (o : Oms) (report : ExecReport) :
    ReportOutcome × ReportSequencer × Oms :=
  match o.find report.ref with
  | none => (if q.terminalCache.contains report.ref then .terminalLate else .unknownOrder, q, o)
  | some x =>
    if report.venueSeq ≤ x.lastAppliedSeq then (.duplicate, q, o)
    else if report.venueSeq > x.lastAppliedSeq + 1 then q.holdReport o report
    else
      let r := q.applyOne o report
      if r.1 = .applied then (r.1, drain r.2.1 r.2.2 report.ref) else r

end ReportSequencer

end MicrostructureEngine
