import MicrostructureEngine.Oms.CrashRecovery

/-!
# Where the journal falls short

Two kinds of run that recovery does not bring back in general. `emit_wal` sees the report
that arrived and not the held reports it releases, so a cascade is journaled by its first
member only. And recovery takes a replace of an acknowledged order at a positive price,
while the live system replaces in every live state at any price. Runs that avoid the two
recover their orders from the journal in every state they reach.
-/

namespace MicrostructureEngine

open scoped List
set_option autoImplicit false

namespace ShardedOms

/-- Along a run in which every reached state satisfies `I` and every step is journalable, the
invariant and the journal go together. -/
theorem Journaled.run_with {I : ShardedOms → Prop} {P : ShardedOms → Event → Prop} {s : ShardedOms}
    (h : Journaled s) (hI : I s) (hstep : ∀ s e, I s → P s e → I (s.step e))
    (hj : ∀ s e, I s → P s e → s.JournalableEvent e) {events : List Event}
    (hp : Runs.Along ShardedOms.step P s events)
    (hdrop : (Runs.run ShardedOms.step s events).walDropped = 0) :
    Journaled (Runs.run ShardedOms.step s events) := by
  apply h.run ?_ hdrop
  clear h hdrop
  induction events generalizing s with
  | nil => trivial
  | cons e events ih => exact ⟨hj s e hI hp.1, ih (hstep s e hI hp.1) hp.2⟩

theorem along_initial {P : ShardedOms → Event → Prop} {s : ShardedOms} {events bs : List Event}
    (h : Runs.Along step P s events) (hbs : bs <+: events) : Runs.Along step P s bs := by
  obtain ⟨rest, rfl⟩ := hbs
  exact (Runs.along_append.mp h).1

/-! ## Reports -/

/-- Creates, the step to `sent` and reports of the five kinds, all routed to one shard; no
report is classified illegal. -/
def ReportDriven (shard : Nat) (s : ShardedOms) : Event → Prop
  | .request req _ =>
    s.shardOf req.ref = shard ∧
      match req.kind with
      | .create => Shard.Commandable req
      | .transition => req.target = .sent
      | .report => req.reportKind ≠ .replaceAck ∧
          ((s.shards shard).sequencer.process (s.shards shard).oms req.execReport).1 ≠ .illegal
      | _ => False
  | _ => False

def Ends (x : Order) (req : Request) : Prop :=
  req.reportKind = .cancelled ∨ req.reportKind = .reject ∨
    (req.reportKind = .fill ∧ req.volume = x.remaining)

/-- The report releases nothing: its successor is not held, or the report ends the order. -/
def ReleasesNone (shard : Nat) (s : ShardedOms) : Event → Prop
  | .request req _ => req.kind = .report →
    ∀ x, (s.shards shard).oms.find req.ref = some x → req.venueSeq = x.lastAppliedSeq + 1 →
      Ends x req ∨ ∀ r ∈ (s.shards shard).sequencer.gapPool.held,
        ¬ (r.ref = req.ref ∧ r.venueSeq = req.venueSeq + 1)
  | _ => True

/-- No order of the shard waits for a venue to resolve it. -/
def NoUnknown (shard : Nat) (s : ShardedOms) : Prop :=
  ∀ ref x, (s.shards shard).oms.find ref = some x → x.state ≠ .unknown

theorem transition_noUnknown {x y : Order} {next : OrderState} (hx : x.state ≠ .unknown)
    (hn : next ≠ .unknown) (h : (Verdict.transition x next).after = some y) : y.state ≠ .unknown := by
  unfold Verdict.transition at h
  split at h
  · dsimp only at h
    split at h
    · cases h
    · cases h
      exact hn
  · cases h
    exact hx

theorem applyKind_noUnknown {x y : Order} {r : ExecReport} (hx : x.state ≠ .unknown)
    (h : (Verdict.applyKind x r).after = some y) : y.state ≠ .unknown := by
  unfold Verdict.applyKind at h
  cases hk : r.kind <;> rw [hk] at h <;> dsimp only at h
  case ack => exact transition_noUnknown hx (by decide) h
  case cancelPending => exact transition_noUnknown hx (by decide) h
  case cancelled => exact transition_noUnknown hx (by decide) h
  case reject => exact transition_noUnknown hx (by decide) h
  case fill =>
    unfold Verdict.fill at h
    split at h
    · refine transition_noUnknown (x := Oms.addFill x r.volume) hx ?_ h
      unfold OmsState.fillTarget
      split <;> decide
    · cases h
      exact hx
  case replaceAck =>
    unfold Verdict.replace at h
    split at h <;> cases h <;> exact hx

theorem applyOne_noUnknown {x y : Order} {r : ExecReport} (hx : x.state ≠ .unknown)
    (h : (Verdict.applyOne x r).after = some y) : y.state ≠ .unknown := by
  unfold Verdict.applyOne at h
  dsimp only at h
  split at h
  · obtain ⟨z, hz, rfl⟩ := Option.map_eq_some_iff.mp h
    have hnext := applyKind_noUnknown hx hz
    exact hnext
  · exact applyKind_noUnknown hx h

theorem consume_noUnknown {next : List ExecReport → Order → Settled} {held : List ExecReport}
    {x y : Order} {r : ExecReport} (hx : x.state ≠ .unknown)
    (hnext : ∀ z, z.state ≠ .unknown → (next held z).after = some y → y.state ≠ .unknown)
    (h : (consume next held x r).after = some y) : y.state ≠ .unknown := by
  unfold consume at h
  dsimp only at h
  split at h
  · cases hafter : (Verdict.applyOne x r).after with
    | none => simp [hafter] at h
    | some z =>
      rw [hafter] at h
      exact hnext z (applyOne_noUnknown hx hafter) h
  · exact applyOne_noUnknown hx h

theorem settleLoop_noUnknown {n : Nat} {held : List ExecReport} {x y : Order}
    (hx : x.state ≠ .unknown) (h : (settleLoop n held x).after = some y) : y.state ≠ .unknown := by
  induction n generalizing held x with
  | zero =>
    cases h
    exact hx
  | succ n ih =>
    unfold settleLoop at h
    cases hnext : nextHeld held x with
    | none =>
      rw [hnext] at h
      cases h
      exact hx
    | some r =>
      rw [hnext] at h
      exact consume_noUnknown hx (fun z hz hy => ih hz hy) h

theorem process_noUnknown {q : ReportSequencer} {o : Oms} {r : ExecReport} {x y : Order}
    (hx : o.find r.ref = some x) (hu : x.state ≠ .unknown)
    (hy : (q.process o r).2.2.find r.ref = some y) : y.state ≠ .unknown := by
  rcases Nat.lt_trichotomy r.venueSeq (x.lastAppliedSeq + 1) with hlt | heq | hgt
  · rw [q.process_of_le o hx (Nat.le_of_lt_succ hlt), hx] at hy
    cases hy
    exact hu
  · rw [(q.process_inSeq o hx heq).2.effect.find_self] at hy
    exact consume_noUnknown hu (fun z hz hz' => settleLoop_noUnknown hz hz') hy
  · rw [q.process_of_gap o hx hgt] at hy
    have hy' : o.find r.ref = some y := hy
    rw [hx] at hy'
    cases hy'
    exact hu

theorem applyOne_of_ends {x : Order} {req : Request} (h : Ends x req)
    (hok : (Verdict.applyOne x req.execReport).ok = true) :
    (Verdict.applyOne x req.execReport).after = none := by
  have hterminal : ∀ {z : Order} {next : OrderState}, next.isTerminal = true →
      (Verdict.transition z next).ok = true → (Verdict.transition z next).after = none := by
    intro z next hn hz
    unfold Verdict.transition at hz ⊢
    split at hz
    · rename_i hl
      rw [if_pos hl]
      dsimp only
      rw [if_pos hn]
    · cases hz
  have hkind : req.execReport.kind = req.reportKind := rfl
  rw [Verdict.applyOne_ok] at hok
  have hnone : (Verdict.applyKind x req.execReport).after = none := by
    unfold Verdict.applyKind at hok ⊢
    rw [hkind] at hok ⊢
    rcases h with h | h | ⟨h, hv⟩ <;> rw [h] at hok ⊢ <;> dsimp only at hok ⊢
    · exact hterminal rfl hok
    · exact hterminal rfl hok
    · have hvolume : req.execReport.volume = x.remaining := hv
      obtain ⟨hfill, _⟩ := Verdict.fill_ok.mp hok
      have htarget : OmsState.fillTarget x req.execReport.volume = .filled := by
        unfold OmsState.fillTarget
        rw [if_neg (by omega)]
      unfold Verdict.fill at hok ⊢
      rw [if_pos hfill, htarget] at hok ⊢
      exact hterminal rfl hok
  unfold Verdict.applyOne
  dsimp only
  rw [if_pos hok, hnone]
  rfl

/-- In a report-driven run that releases nothing, every step is one the journal can tell. -/
theorem ReportDriven.journalable {shard : Nat} {s : ShardedOms} {e : Event} (hu : NoUnknown shard s)
    (h : ReportDriven shard s e ∧ ReleasesNone shard s e) : s.JournalableEvent e := by
  obtain ⟨hdriven, hnone⟩ := h
  cases e with
  | snapshot i capacity cell => trivial
  | haltGlobally reason => trivial
  | request req cell =>
    obtain ⟨hroute, hdriven⟩ := hdriven
    unfold JournalableEvent Shard.Journalable
    simp only [hroute]
    cases hk : req.kind <;> rw [hk] at hdriven <;> dsimp only at hdriven ⊢ <;> try exact absurd hdriven id
    case create => exact fun _ _ _ => hdriven
    case report =>
      intro x hx hseq
      have hx' : (s.shards shard).oms.find req.execReport.ref = some x := hx
      have hok : (Verdict.applyOne x req.execReport).ok = true := by
        by_contra hrefused
        apply hdriven.2
        rw [((s.shards shard).sequencer.process_inSeq _ hx' hseq).1, if_neg hrefused]
      rw [if_pos hok]
      refine ⟨?_, ?_⟩
      · unfold Recovery.ReportJournalable
        cases hkind : req.reportKind <;> dsimp only <;>
          first | trivial | exact hu req.ref x hx | exact absurd hkind hdriven.1
      · intro y hy
        rcases hnone hk x hx hseq with hends | hfree
        · rw [applyOne_of_ends hends hok] at hy
          cases hy
        · have hseq' : req.execReport.venueSeq = x.lastAppliedSeq + 1 := hseq
          obtain ⟨href, hlast⟩ := applyOne_next hok hy hseq'
          rw [nextHeld_eq_none_iff]
          intro r hr hwanted
          apply hfree r hr
          rw [href, (s.shards shard).oms.find_ref hx] at hwanted
          exact ⟨hwanted.1, by rw [hwanted.2, hlast, hseq]⟩

theorem NoUnknown.step {shard : Nat} {s : ShardedOms} {e : Event} (hu : NoUnknown shard s)
    (h : ReportDriven shard s e) : NoUnknown shard (s.step e) := by
  cases e with
  | snapshot i capacity cell => exact absurd h id
  | haltGlobally reason => exact absurd h id
  | request req cell =>
    obtain ⟨hroute, hdriven⟩ := h
    have hstep : s.step (.request req cell) = s.apply shard req cell := by
      rw [← hroute]
      rfl
    intro ref y hy
    rw [hstep, apply_oms] at hy
    obtain ⟨_, _, heffect⟩ := (s.shards shard).apply_effect s.engine.standingApproval req
      (s.completions cell)
    by_cases href : ref = req.ref
    · subst href
      unfold answer Shard.apply at hy
      cases hk : req.kind <;> rw [hk] at hdriven hy <;> dsimp only at hdriven hy <;>
        try exact absurd hdriven id
      case create =>
        unfold Shard.applyCreate at hy
        split at hy
        · exact hu req.ref y hy
        · rcases (s.shards shard).oms.create_cases req.ref req.symbol req.volume with ⟨hf, hs⟩ | heq
          · have hfind := ((s.shards shard).oms.create_effect req.symbol req.volume hf hs).2.find_self
            dsimp only at hy
            rw [hfind] at hy
            cases hy
            exact fun hn => OrderState.noConfusion hn
          · rw [heq] at hy
            exact hu req.ref y hy
      case transition =>
        cases hf : (s.shards shard).oms.find req.ref with
        | none =>
          have heq := (s.shards shard).oms.transition_of_none hf req.target
          simp only [Shard.applyTransition, heq] at hy
          exact hu req.ref y hy
        | some x =>
          have hfind := ((s.shards shard).oms.transition_follows hf req.target).2.find_self
          have hy' : ((s.shards shard).oms.transition req.ref req.target).2.find req.ref = some y := hy
          rw [hfind, hdriven] at hy'
          exact transition_noUnknown (hu req.ref x hf) (by decide) hy'
      case report =>
        cases hf : (s.shards shard).oms.find req.ref with
        | none =>
          have hf' : (s.shards shard).oms.find req.execReport.ref = none := hf
          have heq := (s.shards shard).sequencer.process_of_none _ hf'
          simp only [Shard.applyReport, heq] at hy
          exact hu req.ref y hy
        | some x =>
          have hf' : (s.shards shard).oms.find req.execReport.ref = some x := hf
          exact process_noUnknown hf' (hu req.ref x hf) hy
    · have hsame : (s.answer shard req cell).oms.find ref = (s.shards shard).oms.find ref :=
        heffect.find_of_ne href
      rw [hsame] at hy
      exact hu ref y hy

/-- Creates, transitions, accepted fills, replaces, and replace reports in sequence. -/
def ReplaceDriven (s : ShardedOms) : Event → Prop
  | .request req _ =>
    match req.kind with
    | .create | .transition | .replace => True
    | .fill => ((s.shards (s.shardOf req.ref)).oms.fill req.ref req.volume).1 = true
    | .report => req.reportKind = .replaceAck ∧
        InSequence (s.shards (s.shardOf req.ref)).oms req.execReport
    | _ => False
  | _ => False

/-- The replace would be refused, or recovery can take it. -/
def RecoverableReplace (sh : Shard) (req : Request) : Prop :=
  ∀ x, sh.oms.find req.ref = some x → replaceable x req.volume = true →
    x.state = .acknowledged ∧ 0 < req.price

/-- Accepted creates fit the command schema, accepted replaces are of acknowledged orders at
a positive price. -/
def Recoverable (s : ShardedOms) : Event → Prop
  | .request req _ =>
    match req.kind with
    | .create => s.engine.standingApproval = true →
        (s.shards (s.shardOf req.ref)).oms.find req.ref = none →
        (s.shards (s.shardOf req.ref)).oms.size < (s.shards (s.shardOf req.ref)).oms.capacity →
        Shard.Commandable req
    | .replace | .report => RecoverableReplace (s.shards (s.shardOf req.ref)) req
    | _ => True
  | _ => True

def NoneHeld (s : ShardedOms) : Prop := ∀ i, (s.shards i).sequencer.gapPool.held = []

theorem arrive_held_nil (x : Order) (r : ExecReport) : (arrive [] x r).held = [] := by
  unfold arrive consume
  dsimp only
  split
  · cases (Verdict.applyOne x r).after with
    | none => rfl
    | some y => rfl
  · rfl

theorem NoneHeld.step {s : ShardedOms} {e : Event} (h : NoneHeld s) (hd : ReplaceDriven s e) :
    NoneHeld (s.step e) := by
  cases e with
  | snapshot i capacity cell => exact absurd hd id
  | haltGlobally reason => exact absurd hd id
  | request req cell =>
    intro i
    have hstep : s.step (.request req cell) = s.apply (s.shardOf req.ref) req cell := rfl
    rw [hstep]
    by_cases hi : i = s.shardOf req.ref
    · subst hi
      rw [apply_sequencer]
      simp only [ReplaceDriven] at hd
      unfold answer Shard.apply
      cases hk : req.kind <;> rw [hk] at hd <;> dsimp only at hd ⊢ <;> try exact absurd hd id
      case create =>
        unfold Shard.applyCreate
        split <;> exact h _
      case transition => exact h _
      case fill => exact h _
      case replace => exact h _
      case report =>
        obtain ⟨x, hx, hseq⟩ := hd.2
        have hheld := ((s.shards (s.shardOf req.ref)).sequencer.process_inSeq _ hx hseq).2.held
        rw [h, arrive_held_nil] at hheld
        exact hheld
    · rw [apply_shards_of_ne _ hi]
      exact h i

theorem ReplaceDriven.journalable {s : ShardedOms} {e : Event} (hn : NoneHeld s)
    (h : ReplaceDriven s e ∧ Recoverable s e) : s.JournalableEvent e := by
  obtain ⟨hd, hr⟩ := h
  cases e with
  | snapshot i capacity cell => trivial
  | haltGlobally reason => trivial
  | request req cell =>
    simp only [ReplaceDriven] at hd
    simp only [Recoverable] at hr
    simp only [JournalableEvent, Shard.Journalable]
    cases hk : req.kind <;> rw [hk] at hd hr <;> dsimp only at hd hr ⊢ <;> try exact absurd hd id
    case create => exact hr
    case replace => exact hr
    case fill =>
      intro hstuck
      rw [hstuck.filledVolume.1] at hd
      cases hd
    case report =>
      intro x hx hseq
      have hverdict : Verdict.applyKind x req.execReport = Verdict.replace x req.price req.volume := by
        have hkind : req.execReport.kind = .replaceAck := hd.1
        unfold Verdict.applyKind
        rw [hkind]
        rfl
      split
      · rename_i hok
        rw [Verdict.applyOne_ok, hverdict] at hok
        have hboth := hr x hx (Verdict.replace_ok.mp hok)
        refine ⟨?_, fun y _ => by rw [hn]; rfl⟩
        unfold Recovery.ReportJournalable
        rw [hd.1]
        exact hboth
      · rename_i hrefused
        rw [Bool.not_eq_true] at hrefused
        rw [Verdict.applyOne_refused hrefused, hverdict]
        rw [Verdict.applyOne_ok, hverdict] at hrefused
        unfold Verdict.replace at hrefused ⊢
        split at hrefused
        · cases hrefused
        · rename_i hno
          rw [if_neg hno]
          rfl

/-- Provided that no record was dropped, there is room and no record is taken for a
repetition, every file that the outboxes can be drained into recovers the live orders. -/
def FilesRecover (s : ShardedOms) : Prop :=
  s.walDropped = 0 → ∀ file, Draining.Drains s.outbox file →
    ∀ (out : RecoveryState) (window : Nat) (killPresent : Bool) (persistedHalt : Risk.HaltReason),
    s.commands ≤ out.orders.capacity →
    (DuplicateWindow.new window).flagsNone (Draining.sortByStamp JournalRecord.tsNs file) = true →
    ∃ state, Recovery.recoverStreaming ⟨Draining.sortByStamp JournalRecord.tsNs file, false⟩ out window
      killPresent persistedHalt = (true, state) ∧ s.RecoversTo state

/-- Runs whose accepted replaces are all of acknowledged orders at a positive price recover
from their journal, in every state that they reach. -/
theorem replace_journal_recovers (shardCount : Nat) (hpos : 0 < shardCount)
    (capacity logCapacity gapPoolCapacity terminalCacheCapacity : Nat) (hook : WalHook)
    (hempty : ∀ i, hook.outbox i = []) (events : List Event)
    (hdriven : Runs.Along step ReplaceDriven (boot shardCount hpos capacity logCapacity
      gapPoolCapacity terminalCacheCapacity (some hook)) events)
    (hrecoverable : Runs.Along step Recoverable (boot shardCount hpos capacity logCapacity
      gapPoolCapacity terminalCacheCapacity (some hook)) events) :
    Runs.Throughout step FilesRecover (boot shardCount hpos capacity logCapacity gapPoolCapacity
      terminalCacheCapacity (some hook)) events := by
  intro bs hbs hdrop file hfile out window killPresent persistedHalt hroom hflags
  have hboot := journaled_boot shardCount hpos capacity logCapacity gapPoolCapacity
    terminalCacheCapacity hempty
  have hnew : NoneHeld (boot shardCount hpos capacity logCapacity gapPoolCapacity
      terminalCacheCapacity (some hook)) := fun _ => GapPool.held_new gapPoolCapacity
  have hrun := hboot.run_with hnew (fun s e hn he => hn.step he.1)
    (fun s e hn he => ReplaceDriven.journalable hn he)
    ((along_initial hdriven hbs).and (along_initial hrecoverable hbs)) hdrop
  obtain ⟨state, hstate, hfind⟩ := hrun.recover_cut hfile (List.prefix_refl _) killPresent
    persistedHalt hroom hflags
  exact ⟨state, hstate, hrun.recoversTo hfile hfind⟩

theorem replace_journal_recovers_acknowledged :
    Runs.Throughout step FilesRecover journaledSystem (acknowledgedOrder ++
      [.request { kind := .replace, ref := ⟨1, 1⟩, price := 100, volume := 15 } 0]) := by
  refine replace_journal_recovers 1 Nat.one_pos 4 16 4 4 { accepts := fun _ => true } (fun _ => rfl) _
    ⟨trivial, trivial, trivial, trivial, trivial⟩
    ⟨fun _ _ _ => by decide, trivial, trivial, ?_, trivial⟩
  intro x hx _
  have hstate : ((Runs.run step journaledSystem acknowledgedOrder).order ⟨1, 1⟩).map Order.state =
      some .acknowledged := by decide +kernel
  have hfound : (Runs.run step journaledSystem acknowledgedOrder).order ⟨1, 1⟩ = some x := hx
  rw [hfound, Option.map_some, Option.some.injEq] at hstate
  exact ⟨hstate, by decide⟩

def replacedOrder : List Event :=
  partlyFilledOrder ++ [.request { kind := .replace, ref := ⟨1, 1⟩, price := 100, volume := 15 } 0]

/-- The live system accepts this replace, recovery refuses the whole journal. -/
theorem replace_journal_refused :
    ¬ (∀ events, Runs.Along step ReplaceDriven journaledSystem events →
      Runs.Throughout step FilesRecover journaledSystem events) := by
  intro h
  have hfill : (((Runs.run step journaledSystem acknowledgedOrder).shards 0).oms.fill ⟨1, 1⟩ 4).1 =
      true := by decide +kernel
  have hdriven : Runs.Along step ReplaceDriven journaledSystem replacedOrder :=
    ⟨trivial, trivial, trivial, hfill, trivial, trivial⟩
  have hdrop : (Runs.run step journaledSystem replacedOrder).walDropped = 0 := by decide +kernel
  have hroom : (Runs.run step journaledSystem replacedOrder).commands ≤ 4 := by decide +kernel
  have hsorted : Draining.sortByStamp JournalRecord.tsNs
      ((Runs.run step journaledSystem replacedOrder).outbox 0) =
        (Runs.run step journaledSystem replacedOrder).outbox 0 :=
    Draining.sortByStamp_of_sorted (by decide +kernel)
  obtain ⟨state, hstate, _⟩ := (h _ hdriven).last hdrop _ (drains_journaledSystem hdrop)
    (.new .hedging 4) 16 false .none hroom (by rw [hsorted]; decide +kernel)
  have hrefused : (Recovery.recoverStreaming ⟨(Runs.run step journaledSystem replacedOrder).outbox 0,
      false⟩ (.new .hedging 4) 16 false .none).1 = false := by
    decide +kernel
  rw [hsorted] at hstate
  rw [hstate] at hrefused
  cases hrefused

end ShardedOms

end MicrostructureEngine
