import MicrostructureEngine.Oms.Cascade
import MicrostructureEngine.Oms.Sharded

/-!
# Blocking calls on the sharded system

`dispatch` and the `submit_*` functions: a request is pushed into the ring of its shard, and
the caller spins until the worker has answered. Whether the ring is full is not decided here;
`full` says so for each call. What a call does is stated over the order map of the whole
system, without shards.
-/

namespace MicrostructureEngine

set_option autoImplicit false

namespace ShardedOms

/-- A full ring refuses the request; the caller's completion is not touched. -/
def dispatch (s : ShardedOms) (full : Bool) (req : Request) (out : Completion) :
    Bool × Completion × ShardedOms :=
  if full then (false, out, s)
  else
    let s' := { s with completions := Function.update s.completions 0 out }.apply
      (s.shardOf req.ref) req 0
    (true, s'.completions 0, s')

def submitCreate (s : ShardedOms) (full : Bool) (ref : BrokerOrderRef) (symbol : Nat) (volume : Int)
    (out : Completion) : Bool × Completion × ShardedOms :=
  s.dispatch full { kind := .create, ref := ref, symbol := symbol, volume := volume } out

def submitFind (s : ShardedOms) (full : Bool) (ref : BrokerOrderRef) (out : Completion) :
    Bool × Completion × ShardedOms :=
  s.dispatch full { kind := .find, ref := ref } out

def submitTransition (s : ShardedOms) (full : Bool) (ref : BrokerOrderRef) (target : OrderState)
    (out : Completion) : Bool × Completion × ShardedOms :=
  s.dispatch full { kind := .transition, ref := ref, target := target } out

def submitReplace (s : ShardedOms) (full : Bool) (ref : BrokerOrderRef) (newPrice newVolume : Int)
    (out : Completion) : Bool × Completion × ShardedOms :=
  s.dispatch full { kind := .replace, ref := ref, price := newPrice, volume := newVolume } out

def reportRequest (report : ExecReport) : Request :=
  { kind := .report, ref := report.ref, venueSeq := report.venueSeq, reportKind := report.kind
    volume := report.volume, price := report.price }

def submitReport (s : ShardedOms) (full : Bool) (report : ExecReport) (out : Completion) :
    Bool × Completion × ShardedOms :=
  s.dispatch full (reportRequest report) out

/-- A snapshot is addressed to a shard; its buffer is empty when the request is made. -/
def submitSnapshot (s : ShardedOms) (full : Bool) (shard capacity : Nat) (out : Completion) :
    Bool × Completion × ShardedOms :=
  let out := { out with snapshotOut := [], snapshotCapacity := capacity, snapshotCount := 0 }
  if full then (false, out, s)
  else
    let s' := { s with completions := Function.update s.completions 0 out }.apply shard
      { kind := .snapshot } 0
    (true, s'.completions 0, s')

/-- The reports held back in the shard of an order. -/
def held (s : ShardedOms) (ref : BrokerOrderRef) : List ExecReport :=
  (s.shards (s.shardOf ref)).sequencer.gapPool.held

/-- The shard of a reference has a free slot. -/
def Room (s : ShardedOms) (ref : BrokerOrderRef) : Prop :=
  (s.shards (s.shardOf ref)).oms.size < (s.shards (s.shardOf ref)).oms.capacity

instance (s : ShardedOms) (ref : BrokerOrderRef) : Decidable (s.Room ref) :=
  inferInstanceAs (Decidable (_ < _))

@[simp] theorem push_engine (s : ShardedOms) (i : Nat) (r : JournalRecord) :
    (s.push i r).engine = s.engine := by
  unfold push
  split <;> rfl

@[simp] theorem apply_engine (s : ShardedOms) (i : Nat) (req : Request) (cell : Nat) :
    (s.apply i req cell).engine = s.engine := by
  unfold apply
  exact emitWal_field _ engine push_engine i req _ _

section Dispatch
variable {s : ShardedOms} {full : Bool} {req : Request} {out : Completion}

/-- The answer of the worker to a request that got through. -/
def reply (s : ShardedOms) (req : Request) (out : Completion) : Applied :=
  (s.shards (s.shardOf req.ref)).apply s.engine.standingApproval req out

@[simp] theorem dispatch_engine : (s.dispatch full req out).2.2.engine = s.engine := by
  unfold dispatch
  split
  · rfl
  · exact apply_engine _ _ _ _

@[simp] theorem dispatch_shardCount : (s.dispatch full req out).2.2.shardCount = s.shardCount := by
  unfold dispatch
  split
  · rfl
  · exact apply_shardCount _ _ _ _

@[simp] theorem dispatch_shardOf (ref : BrokerOrderRef) :
    (s.dispatch full req out).2.2.shardOf ref = s.shardOf ref := by
  unfold shardOf
  rw [dispatch_shardCount]

variable (s req out) in
theorem dispatch_reply :
    (s.dispatch false req out).1 = true ∧
      (s.dispatch false req out).2.1 = (s.reply req out).completion ∧
      ((s.dispatch false req out).2.2.shards (s.shardOf req.ref)).oms = (s.reply req out).oms ∧
      ((s.dispatch false req out).2.2.shards (s.shardOf req.ref)).sequencer =
        (s.reply req out).sequencer ∧
      ∀ j, j ≠ s.shardOf req.ref → (s.dispatch false req out).2.2.shards j = s.shards j := by
  refine ⟨rfl, ?_, ?_, ?_, ?_⟩
  · unfold dispatch reply
    simp [apply]
  · unfold dispatch
    simp only [Bool.false_eq_true, if_false]
    rw [apply_oms]
    simp [answer, reply]
  · unfold dispatch
    simp only [Bool.false_eq_true, if_false]
    rw [apply_sequencer]
    simp [answer, reply]
  · intro j hj
    unfold dispatch
    simp only [Bool.false_eq_true, if_false]
    exact apply_shards_of_ne _ hj req 0

/-- A request changes the order map at its own reference only. -/
theorem dispatch_order {y : Option Order} {delta : Int}
    (heff : Oms.Effect (s.shards (s.shardOf req.ref)).oms (s.reply req out).oms req.ref y delta) :
    (s.dispatch false req out).2.2.order = Function.update s.order req.ref y := by
  obtain ⟨_, _, homs, _, hother⟩ := dispatch_reply s req out
  funext ref
  unfold order
  rw [dispatch_shardOf]
  by_cases href : ref = req.ref
  · rw [href, Function.update_self, homs]
    exact heff.find_self
  · rw [Function.update_of_ne href]
    by_cases hshard : s.shardOf ref = s.shardOf req.ref
    · rw [hshard, homs]
      exact heff.find_of_ne href
    · rw [hother _ hshard]

theorem dispatch_held (ref : BrokerOrderRef) :
    (s.dispatch false req out).2.2.held ref =
      if s.shardOf ref = s.shardOf req.ref then (s.reply req out).sequencer.gapPool.held
      else s.held ref := by
  obtain ⟨_, _, _, hseq, hother⟩ := dispatch_reply s req out
  unfold held
  rw [dispatch_shardOf]
  split
  · rename_i hshard
    rw [hshard, hseq]
  · rename_i hshard
    rw [hother _ hshard]

end Dispatch

section Submit
variable (s : ShardedOms) (full : Bool) (ref : BrokerOrderRef) (out : Completion)

/-- A request that leaves its order as it was leaves the whole map as it was. -/
theorem dispatch_order_same {s : ShardedOms} {req : Request} {out : Completion}
    (h : (s.reply req out).oms = (s.shards (s.shardOf req.ref)).oms) :
    (s.dispatch false req out).2.2.order = s.order := by
  have heff : Oms.Effect (s.shards (s.shardOf req.ref)).oms (s.reply req out).oms req.ref
      (s.order req.ref) 0 := by
    rw [h]
    exact Oms.Effect.refl _ _
  rw [dispatch_order heff]
  exact Function.update_eq_self req.ref s.order

theorem submitFind_order : (s.submitFind full ref out).2.2.order = s.order := by
  unfold submitFind
  cases full with
  | true => rfl
  | false => exact dispatch_order_same rfl

/-- What makes `submit_create` fail. -/
def RefusesCreate : Prop :=
  full = true ∨ s.engine.standingApproval = false ∨ s.order ref ≠ none ∨ ¬ s.Room ref

/-- What makes `submit_replace` fail. -/
def RefusesReplace (newVolume : Int) : Prop :=
  full = true ∨ ∀ x, s.order ref = some x → replaceable x newVolume = false

instance : Decidable (s.RefusesCreate full ref) := inferInstanceAs (Decidable (_ ∨ _ ∨ _ ∨ _))

instance (newVolume : Int) : Decidable (s.RefusesReplace full ref newVolume) :=
  match h : s.order ref with
  | none => isTrue (.inr fun x hx => by rw [h] at hx; cases hx)
  | some x => decidable_of_iff (full = true ∨ replaceable x newVolume = false) (by
      unfold RefusesReplace
      rw [h]
      simp)

/-- `create` succeeds exactly when the ring takes it, the kill switch is off, the reference
is free and the shard has room. -/
theorem submitCreate_cases (symbol : Nat) (volume : Int) :
    let r := s.submitCreate full ref symbol volume out
    ((r.1 && r.2.1.ok) = true ∧ full = false ∧ s.engine.standingApproval = true ∧
        s.order ref = none ∧ s.Room ref ∧
        r.2.2.order = Function.update s.order ref (some (Oms.created ref symbol volume)) ∧
        r.2.1.order = Oms.created ref symbol volume) ∨
      ((r.1 && r.2.1.ok) = false ∧ s.RefusesCreate full ref ∧ r.2.2.order = s.order) := by
  dsimp only
  unfold submitCreate
  cases full with
  | true => exact .inr ⟨rfl, .inl rfl, rfl⟩
  | false =>
    obtain ⟨hsent, hout, _⟩ := dispatch_reply s
      { kind := .create, ref := ref, symbol := symbol, volume := volume } out
    rw [hsent, hout]
    cases happroved : s.engine.standingApproval with
    | false =>
      have hreply : s.reply { kind := .create, ref := ref, symbol := symbol, volume := volume } out =
          ⟨(s.shards (s.shardOf ref)).oms, (s.shards (s.shardOf ref)).sequencer, false,
            { out with ok := false }, none⟩ := by
        simp [reply, Shard.apply, Shard.applyCreate, happroved]
      refine .inr ⟨?_, .inr (.inl happroved), dispatch_order_same ?_⟩
      · rw [hreply]
        rfl
      · rw [hreply]
    | true =>
      by_cases hfree : s.order ref = none ∧ s.Room ref
      · obtain ⟨hnone, hroom⟩ := hfree
        obtain ⟨hmade, heff⟩ := Oms.create_effect (s.shards (s.shardOf ref)).oms symbol volume
          hnone hroom
        have hreply : s.reply { kind := .create, ref := ref, symbol := symbol, volume := volume } out =
            ⟨((s.shards (s.shardOf ref)).oms.create ref symbol volume).2,
              (s.shards (s.shardOf ref)).sequencer, true,
              { out with order := Oms.created ref symbol volume, ok := true }, none⟩ := by
          simp [reply, Shard.apply, Shard.applyCreate, happroved, hmade, Shard.copyOrder]
        have heff' : Oms.Effect (s.shards (s.shardOf ref)).oms
            (s.reply { kind := .create, ref := ref, symbol := symbol, volume := volume } out).oms ref
            (some (Oms.created ref symbol volume)) volume := by
          rw [hreply]
          exact heff
        refine .inl ⟨?_, rfl, rfl, hnone, hroom, dispatch_order heff', ?_⟩
        · rw [hreply]
          rfl
        · rw [hreply]
      · have hrefused : (s.shards (s.shardOf ref)).oms.create ref symbol volume =
            (none, (s.shards (s.shardOf ref)).oms) := by
          rcases Oms.create_cases (s.shards (s.shardOf ref)).oms ref symbol volume with h | h
          · exact absurd h hfree
          · exact h
        have hreply : s.reply { kind := .create, ref := ref, symbol := symbol, volume := volume } out =
            ⟨(s.shards (s.shardOf ref)).oms, (s.shards (s.shardOf ref)).sequencer, false,
              { out with ok := false }, none⟩ := by
          simp [reply, Shard.apply, Shard.applyCreate, happroved, hrefused, Shard.copyOrder]
        refine .inr ⟨?_, .inr (.inr ?_), dispatch_order_same ?_⟩
        · rw [hreply]
          rfl
        · by_cases hnone : s.order ref = none
          · exact .inr fun hroom => hfree ⟨hnone, hroom⟩
          · exact .inl hnone
        · rw [hreply]

/-- A transition that does not end its order. -/
theorem submitTransition_cases {target : OrderState} (htarget : target.isTerminal = false) :
    let r := s.submitTransition full ref target out
    ((r.1 && r.2.1.ok) = true ∧ ∃ x, s.order ref = some x ∧ legal x.state target = true ∧
        r.2.2.order = Function.update s.order ref (some { x with state := target }) ∧
        r.2.1.order = { x with state := target }) ∨
      ((r.1 && r.2.1.ok) = false ∧ r.2.2.order = s.order) := by
  dsimp only
  unfold submitTransition
  cases full with
  | true => exact .inr ⟨rfl, rfl⟩
  | false =>
    obtain ⟨hsent, hout, _⟩ := dispatch_reply s { kind := .transition, ref := ref, target := target } out
    rw [hsent, hout]
    cases hx : s.order ref with
    | none =>
      have hrefused := Oms.transition_of_none (s.shards (s.shardOf ref)).oms hx target
      refine .inr ⟨?_, dispatch_order_same ?_⟩
      · simp [reply, Shard.apply, Shard.applyTransition, hrefused]
      · simp [reply, Shard.apply, Shard.applyTransition, hrefused]
    | some x =>
      cases hlegal : legal x.state target with
      | false =>
        have hrefused := Oms.transition_of_illegal (s.shards (s.shardOf ref)).oms hx hlegal
        refine .inr ⟨?_, dispatch_order_same ?_⟩
        · simp [reply, Shard.apply, Shard.applyTransition, hrefused]
        · simp [reply, Shard.apply, Shard.applyTransition, hrefused]
      | true =>
        obtain ⟨hok, heff⟩ := Oms.transition_effect (s.shards (s.shardOf ref)).oms hx hlegal
        rw [htarget] at heff
        have hfind := heff.find_self
        simp only [Bool.false_eq_true, if_false] at hfind heff
        have heff' : Oms.Effect (s.shards (s.shardOf ref)).oms
            (s.reply { kind := .transition, ref := ref, target := target } out).oms ref
            (some { x with state := target }) (-OmsState.released x target) := heff
        refine .inl ⟨?_, x, rfl, hlegal, dispatch_order heff', ?_⟩
        · simp [reply, Shard.apply, Shard.applyTransition, hok]
        · simp [reply, Shard.apply, Shard.applyTransition, hok, hfind]

theorem submitReplace_cases (newPrice newVolume : Int) :
    let r := s.submitReplace full ref newPrice newVolume out
    ((r.1 && r.2.1.ok) = true ∧ ∃ x, s.order ref = some x ∧ replaceable x newVolume = true ∧
        r.2.2.order = Function.update s.order ref (some (replaceOrder newPrice newVolume x)) ∧
        full = false ∧ r.2.1.order = replaceOrder newPrice newVolume x) ∨
      ((r.1 && r.2.1.ok) = false ∧ s.RefusesReplace full ref newVolume ∧ r.2.2.order = s.order) := by
  dsimp only
  unfold submitReplace
  cases full with
  | true => exact .inr ⟨rfl, .inl rfl, rfl⟩
  | false =>
    obtain ⟨hsent, hout, _⟩ := dispatch_reply s
      { kind := .replace, ref := ref, price := newPrice, volume := newVolume } out
    rw [hsent, hout]
    cases hx : s.order ref with
    | none =>
      have hrefused := Oms.replace_of_none (s.shards (s.shardOf ref)).oms hx newPrice newVolume
      refine .inr ⟨?_, .inr ?_, dispatch_order_same ?_⟩
      · simp [reply, Shard.apply, Shard.applyReplace, hrefused]
      · intro x hx'
        rw [hx] at hx'
        cases hx'
      · simp [reply, Shard.apply, Shard.applyReplace, hrefused]
    | some x =>
      obtain ⟨hok, heff⟩ := Oms.replace_follows (s.shards (s.shardOf ref)).oms hx newPrice newVolume
      cases hguard : replaceable x newVolume with
      | false =>
        have hrefused : (s.shards (s.shardOf ref)).oms.replace ref newPrice newVolume =
            (false, (s.shards (s.shardOf ref)).oms) := by
          have hx' : (s.shards (s.shardOf ref)).oms.find ref = some x := hx
          simp only [Oms.replace, hx', hguard, Bool.false_eq_true, if_false]
        refine .inr ⟨?_, .inr ?_, dispatch_order_same ?_⟩
        · simp [reply, Shard.apply, Shard.applyReplace, hrefused]
        · intro y hy
          obtain rfl := Option.some.inj (hx.symm.trans hy)
          exact hguard
        · simp [reply, Shard.apply, Shard.applyReplace, hrefused]
      | true =>
        have hverdict : Verdict.replace x newPrice newVolume =
            ⟨true, some (replaceOrder newPrice newVolume x), 0⟩ := if_pos hguard
        rw [hverdict] at hok heff
        dsimp only at hok heff
        have hfind := heff.find_self
        have heff' : Oms.Effect (s.shards (s.shardOf ref)).oms
            (s.reply { kind := .replace, ref := ref, price := newPrice, volume := newVolume } out).oms
            ref (some (replaceOrder newPrice newVolume x)) 0 := heff
        refine .inl ⟨?_, x, rfl, hguard, dispatch_order heff', rfl, ?_⟩
        · simp [reply, Shard.apply, Shard.applyReplace, hok]
        · simp [reply, Shard.apply, Shard.applyReplace, hok, hfind, Shard.copyOrder]

theorem submitCreate_refused_iff (symbol : Nat) (volume : Int) :
    ((s.submitCreate full ref symbol volume out).1 &&
      (s.submitCreate full ref symbol volume out).2.1.ok) = false ↔ s.RefusesCreate full ref := by
  rcases s.submitCreate_cases full ref out symbol volume with
    ⟨hok, hfull, happroved, hnone, hroom, _⟩ | ⟨hok, hrefused, _⟩
  · rw [hok]
    refine ⟨nofun, ?_⟩
    rintro (h | h | h | h)
    · rw [hfull] at h
      cases h
    · rw [happroved] at h
      cases h
    · exact absurd hnone h
    · exact absurd hroom h
  · exact ⟨fun _ => hrefused, fun _ => hok⟩

theorem submitReplace_refused_iff (newPrice newVolume : Int) :
    ((s.submitReplace full ref newPrice newVolume out).1 &&
      (s.submitReplace full ref newPrice newVolume out).2.1.ok) = false ↔
      s.RefusesReplace full ref newVolume := by
  rcases s.submitReplace_cases full ref out newPrice newVolume with
    ⟨hok, x, hx, hguard, _, hfull, _⟩ | ⟨hok, hrefused, _⟩
  · rw [hok]
    refine ⟨nofun, ?_⟩
    rintro (h | h)
    · rw [hfull] at h
      cases h
    · rw [h x hx] at hguard
      cases hguard
  · exact ⟨fun _ => hrefused, fun _ => hok⟩

theorem copyOrder_fields (c : Completion) (o : Option Order) :
    (Shard.copyOrder c o).order = o.getD c.order ∧
      (Shard.copyOrder c o).reportOutcome = c.reportOutcome := by
  cases o with
  | none => exact ⟨rfl, rfl⟩
  | some x => exact ⟨rfl, rfl⟩

/-- The worker's answer to a report, field by field. -/
theorem reply_report (s : ShardedOms) (report : ExecReport) (out : Completion) :
    let a := s.reply (reportRequest report) out
    let p := (s.shards (s.shardOf report.ref)).sequencer.process
      (s.shards (s.shardOf report.ref)).oms report
    a.oms = p.2.2 ∧ a.sequencer = p.2.1 ∧ a.completion.ok = (p.1 == .applied) ∧
      a.completion.reportOutcome = p.1 ∧
      a.completion.order = (p.2.2.find report.ref).getD out.order :=
  ⟨rfl, rfl, rfl, (copyOrder_fields _ _).2, (copyOrder_fields _ _).1⟩

/-- What the gap pool of a shard can hold after one report. -/
theorem process_held (q : ReportSequencer) (o : Oms) (report : ExecReport) {h : ExecReport}
    (hmem : h ∈ (q.process o report).2.1.gapPool.held) : h = report ∨ h ∈ q.gapPool.held := by
  cases hx : o.find report.ref with
  | none =>
    rw [q.process_of_none o hx] at hmem
    exact .inr hmem
  | some x =>
    rcases Nat.lt_trichotomy report.venueSeq (x.lastAppliedSeq + 1) with hseq | hseq | hseq
    · rw [q.process_of_le o hx (by omega)] at hmem
      exact .inr hmem
    · obtain ⟨_, houtcome⟩ := q.process_inSeq o hx hseq
      rw [houtcome.held] at hmem
      exact .inr (arrive_held hmem)
    · rw [q.process_of_gap o hx hseq] at hmem
      simp only [ReportSequencer.holdReport] at hmem
      rcases GapPool.hold_eq q.gapPool report with ⟨_, hsame⟩ | ⟨_, hperm⟩
      · rw [hsame] at hmem
        exact .inr hmem
      · exact List.mem_cons.mp (hperm.mem_iff.mp hmem)

/-- A report moves its own order, and only when it is next in sequence; then everything it
releases from the gap pool is applied with it. -/
theorem submitReport_cases (report : ExecReport) :
    let r := s.submitReport full report out
    (full = true ∧ r.1 = false ∧ r.2.1 = out ∧ r.2.2 = s) ∨
    (full = false ∧ r.1 = true ∧ (r.2.1.ok = true ↔ r.2.1.reportOutcome = .applied) ∧
      (∀ ref h, h ∈ r.2.2.held ref → h = report ∨ h ∈ s.held ref) ∧
      ((r.2.1.reportOutcome ≠ .applied ∧ r.2.2.order = s.order ∧
          ∀ x, s.order report.ref = some x → report.venueSeq ≠ x.lastAppliedSeq + 1) ∨
        ∃ x, s.order report.ref = some x ∧ report.venueSeq = x.lastAppliedSeq + 1 ∧
          r.2.1.reportOutcome = (if (Verdict.applyOne x report).ok then .applied else .illegal) ∧
          r.2.2.order = Function.update s.order report.ref
            (arrive (s.held report.ref) x report).after ∧
          r.2.1.order = (arrive (s.held report.ref) x report).after.getD out.order)) := by
  dsimp only
  unfold submitReport
  cases full with
  | true => exact .inl ⟨rfl, rfl, rfl, rfl⟩
  | false =>
    right
    obtain ⟨hsent, hout, _⟩ := dispatch_reply s (reportRequest report) out
    obtain ⟨homs, hseq, hok, houtcome, horder⟩ := reply_report s report out
    generalize hprocess : (s.shards (s.shardOf report.ref)).sequencer.process
      (s.shards (s.shardOf report.ref)).oms report = p at homs hseq hok houtcome horder
    refine ⟨rfl, hsent, ?_, ?_, ?_⟩
    · rw [hout, hok, houtcome, beq_iff_eq]
    · intro ref h hmem
      rw [dispatch_held, hseq] at hmem
      split at hmem
      · rename_i hshard
        unfold held
        rw [hshard]
        refine process_held (s.shards (s.shardOf report.ref)).sequencer
          (s.shards (s.shardOf report.ref)).oms report ?_
        rw [hprocess]
        exact hmem
      · exact .inr hmem
    · rw [hout, houtcome, horder]
      cases hx : s.order report.ref with
      | none =>
        left
        rw [ReportSequencer.process_of_none _ _ hx] at hprocess
        subst hprocess
        refine ⟨?_, dispatch_order_same homs, fun _ he => nomatch he⟩
        dsimp only
        split <;> nofun
      | some x =>
        rcases Nat.lt_trichotomy report.venueSeq (x.lastAppliedSeq + 1) with hlt | hnext | hgt
        · left
          rw [ReportSequencer.process_of_le _ _ hx (by omega)] at hprocess
          subst hprocess
          refine ⟨nofun, dispatch_order_same homs, ?_⟩
          rintro y ⟨⟩
          omega
        · right
          obtain ⟨hverdict, hsettled⟩ := ReportSequencer.process_inSeq
            (s.shards (s.shardOf report.ref)).sequencer _ hx hnext
          rw [hprocess] at hverdict hsettled
          have heff : Oms.Effect (s.shards (s.shardOf report.ref)).oms
              (s.reply (reportRequest report) out).oms report.ref
              (arrive (s.held report.ref) x report).after
              (arrive (s.held report.ref) x report).delta := by
            rw [homs]
            exact hsettled.effect
          have hfind := hsettled.effect.find_self
          refine ⟨x, rfl, hnext, hverdict, dispatch_order heff, ?_⟩
          rw [hfind]
          rfl
        · left
          rw [ReportSequencer.process_of_gap _ _ hx hgt] at hprocess
          subst hprocess
          refine ⟨?_, dispatch_order_same homs, ?_⟩
          · simp only [ReportSequencer.holdReport]
            split <;> nofun
          · rintro y ⟨⟩
            omega

/-- `submit_find` answers with the order it found, over whatever the completion held. -/
theorem submitFind_reply :
    (s.submitFind full ref out).1 = !full ∧
      (full = false → (s.submitFind full ref out).2.1.order = (s.order ref).getD out.order) := by
  unfold submitFind
  cases full with
  | true => exact ⟨rfl, nofun⟩
  | false =>
    obtain ⟨hsent, hout, _⟩ := dispatch_reply s { kind := .find, ref := ref } out
    refine ⟨hsent, fun _ => ?_⟩
    rw [hout]
    exact (copyOrder_fields _ _).1

theorem apply_snapshot (t : ShardedOms) (shard : Nat) :
    (t.apply shard { kind := .snapshot } 0).order = t.order ∧
      (t.apply shard { kind := .snapshot } 0).held = t.held := by
  have hkept : ∀ i, ((t.apply shard { kind := .snapshot } 0).shards i).oms = (t.shards i).oms ∧
      ((t.apply shard { kind := .snapshot } 0).shards i).sequencer = (t.shards i).sequencer := by
    intro i
    by_cases hi : i = shard
    · subst hi
      rw [apply_oms, apply_sequencer]
      exact ⟨rfl, rfl⟩
    · rw [apply_shards_of_ne _ hi]
      exact ⟨rfl, rfl⟩
  have hof : ∀ ref, (t.apply shard { kind := .snapshot } 0).shardOf ref = t.shardOf ref := by
    intro ref
    unfold shardOf
    rw [apply_shardCount]
  refine ⟨?_, ?_⟩
  · funext ref
    unfold order
    rw [hof, (hkept _).1]
  · funext ref
    unfold held
    rw [hof, (hkept _).2]

/-- A snapshot changes no order, no held report and not the kill switch. -/
theorem submitSnapshot_same (shard capacity : Nat) :
    (s.submitSnapshot full shard capacity out).2.2.order = s.order ∧
      (s.submitSnapshot full shard capacity out).2.2.held = s.held ∧
      (s.submitSnapshot full shard capacity out).2.2.engine = s.engine := by
  unfold submitSnapshot
  cases full with
  | true => exact ⟨rfl, rfl, rfl⟩
  | false => exact ⟨(apply_snapshot _ shard).1, (apply_snapshot _ shard).2, apply_engine _ _ _ _⟩

end Submit

end ShardedOms

end MicrostructureEngine
