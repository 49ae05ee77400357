import MicrostructureEngine.Oms.Cascade
import MicrostructureEngine.Oms.Gaps
import MicrostructureEngine.Oms.Replay

/-!
# Reservation conservation

`reserved_exposure()` is a running sum that should equal the requested volume of the live
orders in a reserving state. Its drift is computed per operation: creates, restores, fills
and transitions between reserving states keep the two in step, while a replace changes the
requested volume without the sum, and so does a restored `new_order` that is moved to
`pending_send`. The sum is right throughout a run exactly when every step has drift zero,
and after a recovery exactly when the replace records cancel out.
-/

namespace MicrostructureEngine

open scoped List
set_option autoImplicit false

/-- What an order should contribute to the reservation. -/
def exposure (x : Order) : Int := if x.state.reservesExposure then x.requestedVolume else 0

/-- The stored sum is the sum over the slots `[0, size())`. -/
def Oms.Conserved (o : Oms) : Prop :=
  o.reservedExposure = ((List.range o.size).map fun i => exposure (o.atSlot i)).sum

instance (o : Oms) : Decidable o.Conserved := inferInstanceAs (Decidable (_ = _))

/-- By how much the stored sum is off. -/
noncomputable def Oms.slack (o : Oms) : Int := o.reservedExposure - MapSum.total exposure o.find

theorem Oms.conserved_iff (o : Oms) : o.Conserved ↔ o.slack = 0 := by
  unfold Oms.Conserved Oms.slack
  rw [total_find]
  omega

theorem Oms.slack_new (capacity : Nat) : (Oms.new capacity).slack = 0 := by
  unfold Oms.slack
  rw [find_new, MapSum.total_empty]
  rfl

theorem Oms.Effect.slack {o o' : Oms} {ref : BrokerOrderRef} {y : Option Order} {delta : Int}
    (h : Oms.Effect o o' ref y delta) :
    o'.slack = o.slack + (delta + (o.find ref).elim 0 exposure - y.elim 0 exposure) := by
  unfold Oms.slack
  rw [h.find, h.reserved, MapSum.total_update]
  omega

/-! ## Drift of the calls on one order -/

def Verdict.drift (x : Order) (v : Verdict) : Int := v.delta + exposure x - v.after.elim 0 exposure

/-- `new_order` reserves nothing, and nothing is added when it leaves that state. -/
def transitionDrift (x : Order) (next : OrderState) : Int :=
  if x.state = .newOrder ∧ next = .pendingSend then -x.requestedVolume else 0

/-- An accepted replace of a reserving order. -/
def replaceDrift (x : Order) (volume : Int) : Int :=
  if replaceable x volume ∧ x.state.reservesExposure then x.requestedVolume - volume else 0

def reportDrift (x : Order) (r : ExecReport) : Int :=
  match r.kind with
  | .replaceAck => replaceDrift x r.volume
  | _ => 0

theorem drift_refuse (x : Order) : (Verdict.refuse x).drift x = 0 := by
  simp [Verdict.drift, Verdict.refuse]

theorem drift_transition (x : Order) (next : OrderState) :
    (Verdict.transition x next).drift x = transitionDrift x next := by
  unfold Verdict.transition transitionDrift
  split
  · rename_i hl
    cases hs : x.state <;> cases next <;> rw [hs] at hl <;>
      simp [legal, OrderState.isTerminal] at hl <;>
      simp [Verdict.drift, exposure, OmsState.released, hs, OrderState.reservesExposure,
        OrderState.isTerminal]
  · rename_i hl
    rw [drift_refuse, if_neg]
    rintro ⟨hs, rfl⟩
    exact hl (by rw [hs]; rfl)

theorem drift_fill (x : Order) (volume : Int) : (Verdict.fill x volume).drift x = 0 := by
  unfold Verdict.fill
  split
  · have hsame : ∀ v : Verdict, v.drift x = v.drift (Oms.addFill x volume) := fun _ => rfl
    rw [hsame, drift_transition]
    unfold transitionDrift OmsState.fillTarget
    split <;> simp
  · exact drift_refuse x

theorem drift_replace (x : Order) (price volume : Int) :
    (Verdict.replace x price volume).drift x = replaceDrift x volume := by
  unfold Verdict.replace replaceDrift
  cases hr : replaceable x volume with
  | false => simp [drift_refuse]
  | true =>
    cases hs : x.state.reservesExposure <;>
      simp [Verdict.drift, exposure, replaceOrder, hs]

theorem drift_applyKind (x : Order) (r : ExecReport) :
    (Verdict.applyKind x r).drift x = reportDrift x r := by
  unfold Verdict.applyKind reportDrift
  cases r.kind with
  | ack => simp [drift_transition, transitionDrift]
  | fill => exact drift_fill x r.volume
  | cancelPending => simp [drift_transition, transitionDrift]
  | cancelled => simp [drift_transition, transitionDrift]
  | reject => simp [drift_transition, transitionDrift]
  | replaceAck => exact drift_replace x r.price r.volume

theorem drift_applyOne (x : Order) (r : ExecReport) :
    (Verdict.applyOne x r).drift x = reportDrift x r := by
  rw [← drift_applyKind]
  unfold Verdict.applyOne
  dsimp only
  split
  · unfold Verdict.drift
    cases (Verdict.applyKind x r).after <;> rfl
  · rfl

/-! ## Drift of a cascade -/

/-- A report and what it releases, `next` for the held reports. -/
def consumeDrift (next : List ExecReport → Order → Int) (held : List ExecReport) (x : Order)
    (r : ExecReport) : Int :=
  reportDrift x r +
    if (Verdict.applyOne x r).ok then (Verdict.applyOne x r).after.elim 0 (next held) else 0

def settleDriftLoop : Nat → List ExecReport → Order → Int
  | 0, _, _ => 0
  | n + 1, held, x =>
    match nextHeld held x with
    | none => 0
    | some r =>
      consumeDrift (settleDriftLoop n) (held.eraseP (GapPool.wanted x.ref (x.lastAppliedSeq + 1))) x r

def settleDrift (held : List ExecReport) (x : Order) : Int := settleDriftLoop held.length held x

def Settled.drift (x : Order) (t : Settled) : Int := t.delta + exposure x - t.after.elim 0 exposure

theorem consume_drift {next : List ExecReport → Order → Settled}
    {nextDrift : List ExecReport → Order → Int} (held : List ExecReport) (x : Order) (r : ExecReport)
    (h : ∀ y, (next held y).drift y = nextDrift held y) :
    (consume next held x r).drift x = consumeDrift nextDrift held x r := by
  have hone := drift_applyOne x r
  unfold Verdict.drift at hone
  unfold consume consumeDrift Settled.drift
  dsimp only
  cases hok : (Verdict.applyOne x r).ok with
  | false =>
    simp only [Bool.false_eq_true, if_false]
    omega
  | true =>
    cases hy : (Verdict.applyOne x r).after with
    | none =>
      rw [hy] at hone
      simp only [if_true, Option.elim_none] at hone ⊢
      omega
    | some y =>
      have hnext := h y
      unfold Settled.drift at hnext
      rw [hy] at hone
      simp only [if_true, Option.elim_some] at hone ⊢
      omega

theorem settleLoop_drift (n : Nat) (held : List ExecReport) (x : Order) :
    (settleLoop n held x).drift x = settleDriftLoop n held x := by
  induction n generalizing held x with
  | zero => simp [settleLoop, settleDriftLoop, Settled.drift]
  | succ n ih =>
    unfold settleLoop settleDriftLoop
    cases nextHeld held x with
    | none => simp [Settled.drift]
    | some r => exact consume_drift _ x r fun y => ih _ y

/-- Drift of an in-sequence report of `process`. -/
def arriveDrift (held : List ExecReport) (x : Order) (r : ExecReport) : Int :=
  consumeDrift settleDrift held x r

theorem arrive_drift (held : List ExecReport) (x : Order) (r : ExecReport) :
    (arrive held x r).drift x = arriveDrift held x r :=
  consume_drift held x r fun y => settleLoop_drift held.length held y

/-! ## Drift of a request -/

/-- Read off the order and the pool before the request: only three kinds of request on a
live order can be out of step. -/
def requestDrift (sh : Shard) (req : Request) : Int :=
  match sh.oms.find req.ref with
  | none => 0
  | some x =>
    match req.kind with
    | .transition => transitionDrift x req.target
    | .replace => replaceDrift x req.volume
    | .report =>
      if req.venueSeq = x.lastAppliedSeq + 1 then
        arriveDrift sh.sequencer.gapPool.held x req.execReport
      else 0
    | _ => 0

theorem slack_follows {o : Oms} {ref : BrokerOrderRef} {x : Order} (hx : o.find ref = some x)
    {r : Bool × Oms} {v : Verdict} (h : Oms.Follows o ref r v) :
    r.2.slack = o.slack + v.drift x := by
  rw [h.2.slack, hx]
  rfl

theorem slack_create (o : Oms) (ref : BrokerOrderRef) (symbol : Nat) (volume : Int) :
    (o.create ref symbol volume).2.slack = o.slack := by
  rcases o.create_cases ref symbol volume with ⟨hf, hs⟩ | heq
  · rw [(o.create_effect symbol volume hf hs).2.slack, hf]
    simp [exposure, Oms.created, OrderState.reservesExposure, OrderState.isTerminal]
  · rw [heq]

theorem slack_restore (o : Oms) (x : Order) : (o.restore x).2.slack = o.slack := by
  rcases o.restore_cases x with ⟨hf, hs, hx⟩ | heq
  · rw [(o.restore_effect hf hs hx).2.slack, hf]
    simp [exposure]
  · rw [heq]

theorem slack_report (q : ReportSequencer) (o : Oms) {r : ExecReport} {x : Order}
    (hx : o.find r.ref = some x) :
    (q.process o r).2.2.slack = o.slack +
      if r.venueSeq = x.lastAppliedSeq + 1 then arriveDrift q.gapPool.held x r else 0 := by
  rcases Nat.lt_trichotomy r.venueSeq (x.lastAppliedSeq + 1) with hlt | heq | hgt
  · rw [q.process_of_le o hx (by omega), if_neg (by omega), Int.add_zero]
  · rw [(q.process_inSeq o hx heq).2.effect.slack, hx, if_pos heq, ← arrive_drift]
    rfl
  · rw [q.process_of_gap o hx hgt, if_neg (by omega), Int.add_zero]
    rfl

/-- A request moves the error of the stored sum by its drift. -/
theorem slack_request (sh : Shard) (approved : Bool) (req : Request) (c : Completion) :
    (sh.apply approved req c).oms.slack = sh.oms.slack + requestDrift sh req := by
  unfold requestDrift Shard.apply
  cases hk : req.kind with
  | create =>
    have hzero : (match sh.oms.find req.ref with | none => (0 : Int) | some _ => 0) = 0 := by
      split <;> rfl
    simp only [hzero, Int.add_zero, Shard.applyCreate]
    split
    · rfl
    · exact slack_create sh.oms req.ref req.symbol req.volume
  | find =>
    simp only [Shard.applyFind]
    split <;> omega
  | transition =>
    simp only [Shard.applyTransition]
    cases hf : sh.oms.find req.ref with
    | none =>
      rw [sh.oms.transition_of_none hf]
      exact (Int.add_zero _).symm
    | some x =>
      rw [slack_follows hf (sh.oms.transition_follows hf req.target), drift_transition]
  | fill =>
    simp only [Shard.applyFill]
    cases hf : sh.oms.find req.ref with
    | none =>
      rw [sh.oms.fill_of_none hf]
      exact (Int.add_zero _).symm
    | some x => rw [slack_follows hf (sh.oms.fill_follows hf req.volume), drift_fill]
  | replace =>
    simp only [Shard.applyReplace]
    cases hf : sh.oms.find req.ref with
    | none =>
      rw [sh.oms.replace_of_none hf]
      exact (Int.add_zero _).symm
    | some x =>
      rw [slack_follows hf (sh.oms.replace_follows hf req.price req.volume), drift_replace]
  | report =>
    simp only [Shard.applyReport]
    cases hf : sh.oms.find req.ref with
    | none =>
      have hf' : sh.oms.find req.execReport.ref = none := hf
      rw [sh.sequencer.process_of_none sh.oms hf']
      exact (Int.add_zero _).symm
    | some x => exact slack_report sh.sequencer sh.oms (r := req.execReport) hf
  | snapshot =>
    simp only [Shard.applySnapshot]
    split <;> omega
  | restore =>
    have hzero : (match sh.oms.find req.ref with | none => (0 : Int) | some _ => 0) = 0 := by
      split <;> rfl
    simp only [hzero, Int.add_zero, Shard.applyRestore]
    exact slack_restore sh.oms req.restoredOrder

namespace ShardedOms

/-- The drift an event causes in the shard it is routed to. -/
def eventDrift (s : ShardedOms) : Event → Int
  | .request req _ => requestDrift (s.shards (s.shardOf req.ref)) req
  | _ => 0

theorem conserved_step {s : ShardedOms} (h : ∀ i, (s.shards i).oms.Conserved) (e : Event) :
    (∀ i, ((s.step e).shards i).oms.Conserved) ↔ s.eventDrift e = 0 := by
  simp only [Oms.conserved_iff] at h ⊢
  cases e with
  | request req cell =>
    have hself := slack_request (s.shards (s.shardOf req.ref)) s.engine.standingApproval req
      (s.completions cell)
    rw [h, Int.zero_add] at hself
    have hstep : s.step (.request req cell) = s.apply (s.shardOf req.ref) req cell := rfl
    rw [hstep]
    constructor
    · intro hall
      have := hall (s.shardOf req.ref)
      rw [apply_oms] at this
      unfold answer at this
      rw [hself] at this
      exact this
    · intro hzero i
      by_cases hi : i = s.shardOf req.ref
      · subst hi
        rw [apply_oms]
        unfold answer
        rw [hself]
        exact hzero
      · rw [apply_shards_of_ne _ hi]
        exact h i
  | snapshot shard capacity cell =>
    refine ⟨fun _ => rfl, fun _ i => ?_⟩
    rw [(s.step_snapshot shard capacity cell i).1]
    exact h i
  | haltGlobally reason => exact ⟨fun _ => rfl, fun _ i => h i⟩

end ShardedOms

namespace Recovery

/-- What a replace record adds to the requested volume of its order. -/
def replaceShift (r : JournalRecord) : Int :=
  if JournalRecordType.ofCode r.type = .replace then r.d - r.c else 0

/-- No live order is still `new_order`: recovery restores orders as `sent`. -/
def NoNew (x : Option Order) : Prop := ∀ z, x = some z → z.state ≠ .newOrder

theorem commandOrder_exposure (r : JournalRecord) : exposure (commandOrder r) = r.b := rfl

theorem decodeLive_drift {x : Order} {y : Option Order} {r : JournalRecord} {delta : Int}
    (h : decodeLive x r = some (y, delta)) (hx : x.state ≠ .newOrder) :
    delta + exposure x - y.elim 0 exposure = -replaceShift r ∧ NoNew y := by
  have hkeep : ∀ {c : Prop} [Decidable c],
      (if c then some (some x, (0 : Int)) else none) = some (y, delta) → y = some x ∧ delta = 0 := by
    intro c _ hc
    split at hc
    · cases hc
      exact ⟨rfl, rfl⟩
    · cases hc
  have hsame : y = some x ∧ delta = 0 → delta + exposure x - y.elim 0 exposure = 0 ∧ NoNew y := by
    rintro ⟨rfl, rfl⟩
    refine ⟨by simp, ?_⟩
    rintro z ⟨⟩
    exact hx
  unfold decodeLive at h
  unfold replaceShift
  cases ht : JournalRecordType.ofCode r.type with
  | command => simp [ht] at h
  | orderState =>
    simp only [ht] at h
    split at h
    · rename_i hg
      simp only [Option.some.injEq, Prod.mk.injEq] at h
      obtain ⟨rfl, rfl⟩ := h
      have hdrift := drift_transition x (OrderState.ofCode r.b)
      have hzero : transitionDrift x (OrderState.ofCode r.b) = 0 := if_neg fun hn => hx hn.1
      rw [hzero] at hdrift
      refine ⟨by simpa [Verdict.drift] using hdrift, ?_⟩
      intro z hz
      have hlegal := hg.2.2
      unfold Verdict.transition at hz
      rw [if_pos hlegal] at hz
      dsimp only at hz
      split at hz
      · cases hz
      · cases hz
        intro hnew
        dsimp only at hnew
        rw [hnew] at hlegal
        cases hs : x.state <;> rw [hs] at hlegal <;> simp [legal, OrderState.isTerminal] at hlegal
    · cases h
  | acknowledgement =>
    simp only [ht] at h
    simpa using hsame (hkeep h)
  | cancel =>
    simp only [ht] at h
    simpa using hsame (hkeep h)
  | rejection =>
    simp only [ht] at h
    simpa using hsame (hkeep h)
  | fill =>
    simp only [ht] at h
    split at h
    · cases h
      refine ⟨by simp [exposure, Oms.addFill], ?_⟩
      rintro z ⟨⟩
      exact hx
    · cases h
  | replace =>
    simp only [ht] at h
    split at h
    · rename_i hok
      cases h
      obtain ⟨hstate, _, _, _, _, _, _, hold⟩ := hok
      refine ⟨?_, ?_⟩
      · simp [exposure, replaceOrder, hstate, OrderState.reservesExposure, OrderState.isTerminal,
          hold]
      · rintro z ⟨⟩
        exact hx
    · cases h
  | positionUpdate =>
    simp only [ht, Option.some.injEq, Prod.mk.injEq] at h
    simpa using hsame ⟨h.1.symm, h.2.symm⟩
  | accountUpdate =>
    simp only [ht, Option.some.injEq, Prod.mk.injEq] at h
    simpa using hsame ⟨h.1.symm, h.2.symm⟩
  | pnlUpdate =>
    simp only [ht, Option.some.injEq, Prod.mk.injEq] at h
    simpa using hsame ⟨h.1.symm, h.2.symm⟩

theorem decodeAbsent_drift {y : Option Order} {r : JournalRecord} {delta : Int}
    (h : decodeAbsent r = some (y, delta)) :
    delta - y.elim 0 exposure = -replaceShift r ∧ NoNew y := by
  have hnone : y = none ∧ delta = 0 → delta - y.elim 0 exposure = 0 ∧ NoNew y := by
    rintro ⟨rfl, rfl⟩
    exact ⟨rfl, fun z hz => by cases hz⟩
  have hguard : ∀ {c : Prop} [Decidable c],
      (if c then some ((none : Option Order), (0 : Int)) else none) = some (y, delta) →
        y = none ∧ delta = 0 := by
    intro c _ hc
    split at hc
    · cases hc
      exact ⟨rfl, rfl⟩
    · cases hc
  unfold decodeAbsent at h
  unfold replaceShift
  cases ht : JournalRecordType.ofCode r.type with
  | command =>
    simp only [ht] at h
    split at h
    · cases h
      refine ⟨by simp [commandOrder_exposure], ?_⟩
      rintro z ⟨⟩ hz
      cases hz
    · cases h
  | orderState =>
    simp only [ht] at h
    simpa using hnone (hguard h)
  | rejection =>
    simp only [ht] at h
    simpa using hnone (hguard h)
  | acknowledgement => simp [ht] at h
  | cancel => simp [ht] at h
  | fill => simp [ht] at h
  | replace => simp [ht] at h
  | positionUpdate =>
    simp only [ht, Option.some.injEq, Prod.mk.injEq] at h
    simpa using hnone ⟨h.1.symm, h.2.symm⟩
  | accountUpdate =>
    simp only [ht, Option.some.injEq, Prod.mk.injEq] at h
    simpa using hnone ⟨h.1.symm, h.2.symm⟩
  | pnlUpdate =>
    simp only [ht, Option.some.injEq, Prod.mk.injEq] at h
    simpa using hnone ⟨h.1.symm, h.2.symm⟩

theorem applyRecord_slack {s s' : Replay} {r : JournalRecord} (h : applyRecord s r = some s')
    (hnew : ∀ ref, NoNew (s.next.orders.find ref)) :
    s'.next.orders.slack = s.next.orders.slack - replaceShift r ∧
      ∀ ref, NoNew (s'.next.orders.find ref) := by
  obtain ⟨y, delta, hd, he⟩ := applyRecord_rewrites h
  have hboth : delta + (s.next.orders.find r.ref).elim 0 exposure - y.elim 0 exposure =
      -replaceShift r ∧ NoNew y := by
    cases hx : s.next.orders.find r.ref with
    | none =>
      rw [hx] at hd
      simpa using decodeAbsent_drift hd
    | some x =>
      rw [hx] at hd
      exact decodeLive_drift hd (hnew r.ref x hx)
  refine ⟨?_, ?_⟩
  · rw [he.slack, hboth.1]
    omega
  · intro ref
    by_cases href : ref = r.ref
    · rw [href, he.find_self]
      exact hboth.2
    · rw [he.find_of_ne href]
      exact hnew ref

theorem replayAll_slack {s s' : Replay} {rs : List JournalRecord} (h : replayAll s rs = some s')
    (hnew : ∀ ref, NoNew (s.next.orders.find ref)) :
    s'.next.orders.slack = s.next.orders.slack - (rs.map replaceShift).sum ∧
      ∀ ref, NoNew (s'.next.orders.find ref) := by
  induction rs generalizing s with
  | nil =>
    cases h
    exact ⟨by simp, hnew⟩
  | cons r rs ih =>
    rw [replayAll_cons] at h
    obtain ⟨s₁, hr, hrest⟩ := Option.bind_eq_some_iff.mp h
    obtain ⟨hslack, hnew₁⟩ := applyRecord_slack hr hnew
    obtain ⟨hslack', hnew'⟩ := ih hrest hnew₁
    refine ⟨?_, hnew'⟩
    rw [hslack', hslack, List.map_cons, List.sum_cons]
    omega

theorem finalMark_exposure {x : Order} (h : x.state ≠ .newOrder) : exposure (finalMark x) = exposure x := by
  unfold finalMark
  split
  · rename_i hg
    have ht : x.state.isTerminal = false := by simpa using hg.1
    have hunknown : OrderState.unknown.reservesExposure = true := rfl
    have hreserves : x.state.reservesExposure = true := by
      simp [OrderState.reservesExposure, ht, h]
    simp only [exposure, Oms.markUnknown, hunknown, hreserves]
  · rfl

/-- The marking pass leaves the stored sum as right or wrong as it was. -/
theorem finish_slack {s : Replay} {killPresent : Bool} {persistedHalt : Risk.HaltReason}
    {state : RecoveryState} (h : finish s killPresent persistedHalt = some state)
    (hnew : ∀ ref, NoNew (s.next.orders.find ref)) :
    state.orders.slack = s.next.orders.slack := by
  obtain ⟨hres, hfind⟩ := finish_spec h
  unfold Oms.slack
  rw [hres, funext hfind, MapSum.total_map]
  rw [MapSum.total_congr (fun x => exposure (finalMark x)) exposure s.next.orders.find]
  intro ref x hx
  exact finalMark_exposure (hnew ref x hx)

theorem noNew_new (mode : MarginMode) (capacity : Nat) (ref : BrokerOrderRef) :
    NoNew ((RecoveryState.new mode capacity).orders.find ref) := by
  intro z hz
  have hnone : (RecoveryState.new mode capacity).orders.find ref = none :=
    congrFun (Oms.find_new capacity) ref
  rw [hnone] at hz
  cases hz

/-- The stored sum of a recovered store is off by the replaced volumes. -/
theorem recovered_conserved_iff {mode : MarginMode} {capacity : Nat} {rs : List JournalRecord}
    {s : Replay} {killPresent : Bool} {persistedHalt : Risk.HaltReason} {state : RecoveryState}
    (h : replayAll { next := RecoveryState.new mode capacity } rs = some s)
    (hfinish : finish s killPresent persistedHalt = some state) :
    state.orders.Conserved ↔ (rs.map replaceShift).sum = 0 := by
  obtain ⟨hslack, hnew⟩ := replayAll_slack h (noNew_new mode capacity)
  have hzero : (RecoveryState.new mode capacity).orders.slack = 0 := Oms.slack_new capacity
  rw [Oms.conserved_iff, finish_slack hfinish hnew, hslack]
  dsimp only
  omega

theorem recover_conserved_iff {j : Journal} {out : RecoveryState} {killPresent : Bool}
    {persistedHalt : Risk.HaltReason} (h : (recover j out killPresent persistedHalt).1 = true) :
    (recover j out killPresent persistedHalt).2.orders.Conserved ↔
      (j.records.map replaceShift).sum = 0 := by
  unfold recover at h ⊢
  cases hover : j.overflowed with
  | true => simp [hover] at h
  | false =>
    simp only [hover, Bool.false_eq_true, if_false] at h ⊢
    cases hloop : recoverLoop { next := RecoveryState.new out.portfolio.mode defaultCapacity } 0 []
        j.records with
    | none => simp [hloop] at h
    | some s =>
      cases hfinish : finish s killPresent persistedHalt with
      | none => simp [hloop, hfinish] at h
      | some state =>
        simp only [hfinish]
        exact recovered_conserved_iff (recoverLoop_replayAll hloop) hfinish

theorem recoverStreaming_conserved_iff {source : RecordSource} {out : RecoveryState} {window : Nat}
    {killPresent : Bool} {persistedHalt : Risk.HaltReason}
    (h : (recoverStreaming source out window killPresent persistedHalt).1 = true) :
    (recoverStreaming source out window killPresent persistedHalt).2.orders.Conserved ↔
      (source.records.map replaceShift).sum = 0 := by
  unfold recoverStreaming at h ⊢
  cases hloop : streamLoop { next := RecoveryState.new out.portfolio.mode out.orders.capacity } 0
      (.new window) source.records with
  | none => simp [hloop] at h
  | some s =>
    cases hcorrupt : source.corrupt with
    | true => simp [hloop, hcorrupt] at h
    | false =>
      cases hfinish : finish s killPresent persistedHalt with
      | none => simp [hloop, hcorrupt, hfinish] at h
      | some state =>
        rw [streamLoop_eq] at hloop
        split at hloop
        · simp only [Bool.false_eq_true, if_false, hfinish]
          exact recovered_conserved_iff hloop hfinish
        · cases hloop

end Recovery

namespace ShardedOms

/-- The stored reservation is the sum over the live reserving orders in every state of a
run if and only if every step has drift zero, and in every recovered store if and only if
the replace records of the journal cancel out. -/
theorem reservation_conserved_iff (shardCount : Nat) (hpos : 0 < shardCount)
    (capacity logCapacity gapPoolCapacity terminalCacheCapacity : Nat) (hook : Option WalHook) :
    (∀ events, Runs.Throughout step (fun s => ∀ i, (s.shards i).oms.Conserved)
        (boot shardCount hpos capacity logCapacity gapPoolCapacity terminalCacheCapacity hook) events ↔
      Runs.Along step (fun s e => s.eventDrift e = 0)
        (boot shardCount hpos capacity logCapacity gapPoolCapacity terminalCacheCapacity hook)
        events) ∧
    (∀ j out killPresent persistedHalt, (Recovery.recover j out killPresent persistedHalt).1 = true →
      ((Recovery.recover j out killPresent persistedHalt).2.orders.Conserved ↔
        (j.records.map Recovery.replaceShift).sum = 0)) ∧
    (∀ source out window killPresent persistedHalt,
      (Recovery.recoverStreaming source out window killPresent persistedHalt).1 = true →
      ((Recovery.recoverStreaming source out window killPresent persistedHalt).2.orders.Conserved ↔
        (source.records.map Recovery.replaceShift).sum = 0)) := by
  refine ⟨?_, ?_, ?_⟩
  · intro events
    apply Runs.throughout_iff_along
    · intro s e h
      exact conserved_step h e
    · intro i
      exact (Oms.conserved_iff _).mpr (Oms.slack_new capacity)
  · intro j out killPresent persistedHalt h
    exact Recovery.recover_conserved_iff h
  · intro source out window killPresent persistedHalt h
    exact Recovery.recoverStreaming_conserved_iff h

theorem reservation_conserved_iff_acknowledged :
    Runs.Throughout step (fun s => ∀ i, (s.shards i).oms.Conserved)
      (boot 1 Nat.one_pos 4 16 4 4 none) acknowledgedOrder :=
  ((reservation_conserved_iff 1 Nat.one_pos 4 16 4 4 none).1 acknowledgedOrder).mpr
    ⟨by decide +kernel, by decide +kernel, by decide +kernel, trivial⟩

/-- An acknowledged order of 10 lots is replaced by 15 and cancelled: the reservation is 10
while the order asks for 15, and -5 when no order is left. -/
theorem reservation_not_conserved :
    ¬ (∀ events, Runs.Throughout step (fun s => ∀ i, (s.shards i).oms.Conserved)
      (boot 1 Nat.one_pos 4 16 4 4 none) events) ∧
    ((Runs.run step (boot 1 Nat.one_pos 4 16 4 4 none) (acknowledgedOrder ++
      [.request { kind := .replace, ref := ⟨1, 1⟩, price := 100, volume := 15 } 0,
        .request { kind := .transition, ref := ⟨1, 1⟩, target := .cancelPending } 0,
        .request { kind := .transition, ref := ⟨1, 1⟩, target := .cancelled } 0])).shards 0).oms.size = 0 ∧
    ((Runs.run step (boot 1 Nat.one_pos 4 16 4 4 none) (acknowledgedOrder ++
      [.request { kind := .replace, ref := ⟨1, 1⟩, price := 100, volume := 15 } 0,
        .request { kind := .transition, ref := ⟨1, 1⟩, target := .cancelPending } 0,
        .request { kind := .transition, ref := ⟨1, 1⟩, target := .cancelled } 0])).shards
      0).oms.reservedExposure = -5 := by
  refine ⟨?_, by decide +kernel, by decide +kernel⟩
  intro h
  have hlast := (h (acknowledgedOrder ++
    [.request { kind := .replace, ref := ⟨1, 1⟩, price := 100, volume := 15 } 0])).last 0
  revert hlast
  decide +kernel

end ShardedOms

end MicrostructureEngine
