import MicrostructureEngine.Oms.Desk
import MicrostructureEngine.Oms.WalRun

/-!
# The number of shards makes no difference

Two systems that are given the same requests and differ in the number and in the capacities of
their shards answer alike and journal the same records of every order, as long as no shard of
either is full and no two reports for one number of an order differ.
-/

namespace MicrostructureEngine

open scoped List
set_option autoImplicit false

namespace ShardedOms

/-- The records of one order, in the outbox of its shard. -/
def journalOf (s : ShardedOms) (ref : BrokerOrderRef) : List JournalRecord :=
  (s.outbox (s.shardOf ref)).filter fun rec => rec.ref == ref

/-- Whether the next record would be accepted. -/
def takes (s : ShardedOms) : Bool :=
  match s.walHook with
  | none => false
  | some w => w.accepts w.calls

/-- The two hooks answer alike, and have been given the same records of every order. -/
structure SameHook (s t : ShardedOms) : Prop where
  hooked : Option.Rel (fun w w' : WalHook => w.accepts = w'.accepts ∧ w.calls = w'.calls) s.walHook t.walHook
  dropped : s.walDropped = t.walDropped
  journal : ∀ ref, s.journalOf ref = t.journalOf ref

section Journal
variable {s t : ShardedOms}

theorem SameHook.takes (h : SameHook s t) : s.takes = t.takes := by
  have hhooked := h.hooked
  unfold ShardedOms.takes
  generalize s.walHook = w at hhooked ⊢
  generalize t.walHook = w' at hhooked ⊢
  cases hhooked with
  | none => rfl
  | some hw =>
    dsimp only
    rw [hw.1, hw.2]

theorem takes_of_hook {w : WalHook} (h : s.walHook = some w) : s.takes = w.accepts w.calls := by
  unfold takes
  rw [h]

/-- What one call of the hook does to the outboxes and to the count of refusals. -/
theorem push_hooked_eq {w : WalHook} (h : s.walHook = some w) (i : Nat) (r : JournalRecord) :
    (s.push i r).outbox = (if s.takes then Function.update s.outbox i (s.outbox i ++ [r]) else s.outbox) ∧
      (s.push i r).walDropped = if s.takes then s.walDropped else s.walDropped + 1 := by
  have hbox : s.outbox = w.outbox := by
    unfold outbox
    rw [h]
  have hpush : (s.push i r).outbox = (w.record i r).2.outbox := by
    unfold push
    rw [h]
    rfl
  rw [takes_of_hook h, hbox, hpush]
  unfold push WalHook.record
  rw [h]
  exact ⟨rfl, rfl⟩

theorem push_unhooked (h : s.walHook = none) (i : Nat) (r : JournalRecord) : s.push i r = s := by
  unfold push
  rw [h]

theorem takes_unhooked (h : s.walHook = none) : s.takes = false := by
  unfold takes
  rw [h]

/-- A record goes to the journal of its own order. -/
theorem journalOf_push (s : ShardedOms) {r : JournalRecord} {ref : BrokerOrderRef} (hr : r.ref = ref)
    (other : BrokerOrderRef) :
    (s.push (s.shardOf ref) r).journalOf other =
      s.journalOf other ++ if s.takes ∧ other = ref then [r] else [] := by
  have hshard : (s.push (s.shardOf ref) r).shardOf other = s.shardOf other := by
    unfold shardOf
    rw [push_shardCount]
  cases hw : s.walHook with
  | none =>
    rw [push_unhooked hw, takes_unhooked hw, if_neg (fun h => Bool.false_ne_true h.1), List.append_nil]
  | some w =>
    unfold journalOf
    rw [hshard, (push_hooked_eq hw _ r).1]
    cases s.takes with
    | false => rw [if_neg Bool.false_ne_true, if_neg (fun h => Bool.false_ne_true h.1), List.append_nil]
    | true =>
      rw [if_pos rfl]
      by_cases hother : other = ref
      · rw [if_pos ⟨rfl, hother⟩, hother, Function.update_self, List.filter_append]
        have hone : [r].filter (fun rec => rec.ref == ref) = [r] :=
          List.filter_cons_of_pos (beq_iff_eq.mpr hr)
        rw [hone]
      · rw [if_neg (fun h => hother h.2), List.append_nil]
        by_cases hsame : s.shardOf other = s.shardOf ref
        · have hnone : [r].filter (fun rec => rec.ref == other) = [] :=
            List.filter_cons_of_neg (by rw [hr, beq_iff_eq]; exact fun h => hother h.symm)
          rw [hsame, Function.update_self, List.filter_append, hnone, List.append_nil]
        · rw [Function.update_of_ne hsame]

/-- Both systems have a hook, or neither has. -/
theorem SameHook.cases (h : SameHook s t) :
    (s.walHook = none ∧ t.walHook = none) ∨ ∃ w w', s.walHook = some w ∧ t.walHook = some w' ∧
      w.accepts = w'.accepts ∧ w.calls = w'.calls := by
  have hhooked := h.hooked
  cases hs : s.walHook with
  | none =>
    rw [hs] at hhooked
    cases ht : t.walHook with
    | none => exact .inl ⟨rfl, rfl⟩
    | some w' =>
      rw [ht] at hhooked
      cases hhooked
  | some w =>
    rw [hs] at hhooked
    cases ht : t.walHook with
    | none =>
      rw [ht] at hhooked
      cases hhooked
    | some w' =>
      rw [ht] at hhooked
      cases hhooked with
      | some hw => exact .inr ⟨w, w', rfl, rfl, hw⟩

theorem SameHook.push (h : SameHook s t) {r : JournalRecord} {ref : BrokerOrderRef} (hr : r.ref = ref) :
    SameHook (s.push (s.shardOf ref) r) (t.push (t.shardOf ref) r) := by
  have htakes := h.takes
  have hjournal : ∀ other, (s.push (s.shardOf ref) r).journalOf other =
      (t.push (t.shardOf ref) r).journalOf other := by
    intro other
    rw [journalOf_push s hr, journalOf_push t hr, htakes, h.journal]
  rcases h.cases with ⟨hs, ht⟩ | ⟨w, w', hs, ht, haccepts, hcalls⟩
  · rw [push_unhooked hs, push_unhooked ht]
    exact h
  · refine ⟨?_, ?_, hjournal⟩
    · unfold ShardedOms.push
      rw [hs, ht]
      exact .some ⟨haccepts, congrArg (· + 1) hcalls⟩
    · rw [(push_hooked_eq hs _ r).2, (push_hooked_eq ht _ r).2, htakes, h.dropped]

theorem SameHook.pushAll {ref : BrokerOrderRef} (rs : List JournalRecord) (hrs : ∀ r ∈ rs, r.ref = ref) :
    ∀ {s t : ShardedOms}, SameHook s t →
      SameHook (s.pushAll (s.shardOf ref) rs) (t.pushAll (t.shardOf ref) rs) := by
  induction rs with
  | nil => exact fun h => h
  | cons r rs ih =>
    intro s t h
    have hnext := ih (fun r' hr' => hrs r' (List.mem_cons_of_mem r hr')) (h.push (hrs r List.mem_cons_self))
    have hs : (s.push (s.shardOf ref) r).shardOf ref = s.shardOf ref := by
      unfold shardOf
      rw [push_shardCount]
    have ht : (t.push (t.shardOf ref) r).shardOf ref = t.shardOf ref := by
      unfold shardOf
      rw [push_shardCount]
    rw [hs, ht] at hnext
    exact hnext

end Journal

/-- Every record of a request is about the order that the request names. -/
theorem records_of_request (req : Request) (before : Option Order) (c : Completion) (tsNs : Nat) :
    ∀ r ∈ Wal.records req before c tsNs, r.ref = req.ref := by
  have hnil : ∀ r ∈ ([] : List JournalRecord), r.ref = req.ref := fun r hr => absurd hr List.not_mem_nil
  have hone : ∀ r : JournalRecord, r.ref = req.ref → ∀ r' ∈ [r], r'.ref = req.ref :=
    fun r hr => List.forall_mem_singleton.mpr hr
  have htwo : ∀ r r' : JournalRecord, r.ref = req.ref → r'.ref = req.ref → ∀ q ∈ [r, r'], q.ref = req.ref :=
    fun r r' hr hr' => List.forall_mem_cons.mpr ⟨hr, hone r' hr'⟩
  unfold Wal.records
  split
  · exact hone _ rfl
  · unfold Wal.transitionRecords
    split
    · exact hnil
    · split
      · exact htwo _ _ rfl rfl
      · exact hone _ rfl
  · exact htwo _ _ rfl rfl
  · exact hone _ rfl
  · unfold Wal.reportRecords
    cases req.reportKind with
    | ack => exact htwo _ _ rfl rfl
    | fill => exact htwo _ _ rfl rfl
    | cancelPending => exact hone _ rfl
    | cancelled => exact htwo _ _ rfl rfl
    | reject => exact htwo _ _ rfl rfl
    | replaceAck => exact hone _ rfl
  · exact hnil

/-! ## One request -/

section Request
variable {s t : ShardedOms} {reports : List ExecReport} {req : Request}

/-- Both systems have the same desks, and neither shows more than its desks do. -/
structure Alike (reports : List ExecReport) (s t : ShardedOms) : Prop where
  desks : ∀ ref, SameDesk ref (s.shards (s.shardOf ref)).sequencer (t.shards (t.shardOf ref)).sequencer
    (s.shards (s.shardOf ref)).oms (t.shards (t.shardOf ref)).oms
  tidy : ∀ i, Tidy reports (s.shards i).sequencer
  tidy' : ∀ i, Tidy reports (t.shards i).sequencer
  completions : s.completions = t.completions
  engine : s.engine = t.engine
  globalSeq : s.globalSeq = t.globalSeq
  reserved : s.reservedExposure = t.reservedExposure
  hook : SameHook s t

/-- The shard that answers a request has room. -/
def HasRoom (s : ShardedOms) (ref : BrokerOrderRef) : Prop :=
  Roomy (s.shards (s.shardOf ref)).sequencer (s.shards (s.shardOf ref)).oms

theorem apply_shardOf (s : ShardedOms) (i : Nat) (req : Request) (cell : Nat) (ref : BrokerOrderRef) :
    (s.apply i req cell).shardOf ref = s.shardOf ref := by
  unfold shardOf
  rw [apply_shardCount]

/-- A request leaves the desks of other orders as they were. -/
theorem apply_desk (htidy : ∀ i, Tidy reports (s.shards i).sequencer) (hroom : s.HasRoom req.ref)
    {ref : BrokerOrderRef} (hne : ref ≠ req.ref) (cell : Nat) :
    SameDesk ref ((s.apply (s.shardOf req.ref) req cell).shards (s.shardOf ref)).sequencer
      (s.shards (s.shardOf ref)).sequencer ((s.apply (s.shardOf req.ref) req cell).shards (s.shardOf ref)).oms
      (s.shards (s.shardOf ref)).oms := by
  by_cases hshard : s.shardOf ref = s.shardOf req.ref
  · rw [hshard, apply_oms, apply_sequencer]
    obtain ⟨y, delta, heff⟩ := (s.shards (s.shardOf req.ref)).apply_effect s.engine.standingApproval req
      (s.completions cell)
    unfold answer
    rw [Shard.apply_sequencer]
    split
    case isTrue =>
      obtain ⟨hheld, hended⟩ := process_frame req.execReport (htidy _) hroom hne
      exact ⟨heff.find_of_ne hne, hheld, hended⟩
    case isFalse => exact ⟨heff.find_of_ne hne, .refl _, rfl⟩
  · rw [apply_shards_of_ne s hshard]
    exact ⟨rfl, .refl _, rfl⟩

theorem apply_tidy (htidy : ∀ i, Tidy reports (s.shards i).sequencer) (hroom : s.HasRoom req.ref)
    (hreport : req.kind = .report → req.execReport ∈ reports) (cell i : Nat) :
    Tidy reports ((s.apply (s.shardOf req.ref) req cell).shards i).sequencer := by
  by_cases hi : i = s.shardOf req.ref
  · rw [hi, apply_sequencer]
    unfold answer
    rw [Shard.apply_sequencer]
    split
    case isTrue hk => exact (htidy _).process req.execReport hroom (hreport hk)
    case isFalse => exact htidy _
  · rw [apply_shards_of_ne s hi]
    exact htidy i

/-- The reservation of the system moves with the one of the shard. -/
theorem apply_reservedExposure {cell : Nat} {y : Option Order} {delta : Int}
    (heff : Oms.Effect (s.shards (s.shardOf req.ref)).oms (s.answer (s.shardOf req.ref) req cell).oms req.ref
      y delta) :
    (s.apply (s.shardOf req.ref) req cell).reservedExposure = s.reservedExposure + delta := by
  have hmem : s.shardOf req.ref ∈ Finset.range s.shardCount :=
    Finset.mem_range.mpr (Nat.mod_lt _ s.shardCount_pos)
  have hsum : ∀ u : ShardedOms, u.reservedExposure =
      ∑ i ∈ Finset.range u.shardCount, (u.shards i).oms.reservedExposure := fun _ => rfl
  have hrest : ∑ i ∈ (Finset.range s.shardCount).erase (s.shardOf req.ref),
      ((s.apply (s.shardOf req.ref) req cell).shards i).oms.reservedExposure =
      ∑ i ∈ (Finset.range s.shardCount).erase (s.shardOf req.ref), (s.shards i).oms.reservedExposure := by
    apply Finset.sum_congr rfl
    intro i hi
    rw [apply_shards_of_ne s (Finset.ne_of_mem_erase hi)]
  rw [hsum, hsum, apply_shardCount, ← Finset.add_sum_erase _ _ hmem, hrest, apply_oms, heff.reserved,
    ← Finset.add_sum_erase (Finset.range s.shardCount) (fun i => (s.shards i).oms.reservedExposure) hmem]
  omega

theorem SameHook.apply (h : SameHook s t) {cell : Nat} (hglobal : s.globalSeq = t.globalSeq)
    (hanswer : Shard.SameAnswer (s.shards (s.shardOf req.ref)) (t.shards (t.shardOf req.ref)) req
      (s.answer (s.shardOf req.ref) req cell) (t.answer (t.shardOf req.ref) req cell)) :
    SameHook (s.apply (s.shardOf req.ref) req cell) (t.apply (t.shardOf req.ref) req cell) := by
  have hfields : ∀ (shards shards' : Nat → Shard) (cells cells' : Nat → Completion) (n n' : Nat),
      SameHook { s with shards := shards, completions := cells, globalSeq := n }
        { t with shards := shards', completions := cells', globalSeq := n' } :=
    fun _ _ _ _ _ _ => ⟨h.hooked, h.dropped, h.journal⟩
  have hrecords : Wal.records req (t.answer (t.shardOf req.ref) req cell).before
      (t.answer (t.shardOf req.ref) req cell).completion t.globalSeq =
      Wal.records req (s.answer (s.shardOf req.ref) req cell).before
        (s.answer (s.shardOf req.ref) req cell).completion s.globalSeq := by
    rw [hanswer.before, hanswer.completion, hglobal]
  unfold ShardedOms.apply emitWal
  dsimp only
  have hok := hanswer.ok
  unfold answer at hok hrecords
  rw [hok]
  split
  case isTrue =>
    rw [hrecords]
    exact SameHook.pushAll _ (records_of_request req _ _ _) (hfields _ _ _ _ _ _)
  case isFalse => exact hfields _ _ _ _ _ _

theorem Alike.request (h : Alike reports s t) (hcoherent : Coherent reports) (hkind : req.kind ≠ .snapshot)
    (hreport : req.kind = .report → req.execReport ∈ reports) (hroom : s.HasRoom req.ref)
    (hroom' : t.HasRoom req.ref) (cell : Nat) :
    Alike reports (s.apply (s.shardOf req.ref) req cell) (t.apply (t.shardOf req.ref) req cell) := by
  have hanswer : Shard.SameAnswer (s.shards (s.shardOf req.ref)) (t.shards (t.shardOf req.ref)) req
      (s.answer (s.shardOf req.ref) req cell) (t.answer (t.shardOf req.ref) req cell) := by
    unfold answer
    rw [h.completions, h.engine]
    exact Shard.apply_same (h.desks req.ref) hcoherent (h.tidy _) (h.tidy' _) hroom hroom' hkind _ _
  obtain ⟨y, delta, heff, heff'⟩ := hanswer.moved
  constructor
  case desks =>
    intro ref
    rw [apply_shardOf, apply_shardOf]
    by_cases href : ref = req.ref
    · rw [href, apply_oms, apply_oms, apply_sequencer, apply_sequencer]
      exact hanswer.desk
    · exact (apply_desk h.tidy hroom href cell).trans
        ((h.desks ref).trans (apply_desk h.tidy' hroom' href cell).symm)
  case tidy => exact apply_tidy h.tidy hroom hreport cell
  case tidy' => exact apply_tidy h.tidy' hroom' hreport cell
  case completions => rw [apply_completions, apply_completions, h.completions, hanswer.completion]
  case engine => rw [apply_engine, apply_engine, h.engine]
  case globalSeq => rw [apply_globalSeq, apply_globalSeq, h.globalSeq]
  case reserved => rw [apply_reservedExposure heff, apply_reservedExposure heff', h.reserved]
  case hook => exact h.hook.apply h.globalSeq hanswer

end Request

/-! ## Runs -/

def reportOf : Event → Option ExecReport
  | .request req _ => if req.kind = .report then some req.execReport else none
  | _ => none

/-- The reports among the events. -/
def reportsOf (events : List Event) : List ExecReport := events.filterMap reportOf

/-- The event is addressed by the reference of an order, or to the system as a whole; a snapshot is
addressed to a shard. -/
def Addressed : Event → Prop
  | .request req _ => req.kind ≠ .snapshot
  | .snapshot .. => False
  | .haltGlobally _ => True

/-- The shard that the event is routed to has room. -/
def Roomed (s : ShardedOms) : Event → Prop
  | .request req _ => s.HasRoom req.ref
  | _ => True

instance (s : ShardedOms) (e : Event) : Decidable (s.Roomed e) :=
  match e with
  | .request req _ => inferInstanceAs (Decidable (Roomy (s.shards (s.shardOf req.ref)).sequencer _))
  | .snapshot .. => isTrue trivial
  | .haltGlobally _ => isTrue trivial

section Runs
variable {s t : ShardedOms} {reports : List ExecReport}

theorem Alike.step (h : Alike reports s t) (hcoherent : Coherent reports) {e : Event} (haddressed : Addressed e)
    (hreports : ∀ r, reportOf e = some r → r ∈ reports) (hroom : s.Roomed e) (hroom' : t.Roomed e) :
    Alike reports (s.step e) (t.step e) := by
  cases e with
  | request req cell =>
    apply h.request hcoherent haddressed _ hroom hroom' cell
    intro hk
    exact hreports _ (if_pos hk)
  | snapshot shard capacity cell => exact haddressed.elim
  | haltGlobally reason =>
    exact
      { desks := h.desks
        tidy := h.tidy
        tidy' := h.tidy'
        completions := h.completions
        engine := congrArg (fun e => e.halt reason) h.engine
        globalSeq := h.globalSeq
        reserved := h.reserved
        hook := ⟨h.hook.hooked, h.hook.dropped, h.hook.journal⟩ }

theorem Alike.run (hcoherent : Coherent reports) (events : List Event) :
    ∀ {s t : ShardedOms}, Alike reports s t → (∀ e ∈ events, Addressed e) → reportsOf events ⊆ reports →
      Runs.Along ShardedOms.step Roomed s events → Runs.Along ShardedOms.step Roomed t events →
      Alike reports (Runs.run ShardedOms.step s events) (Runs.run ShardedOms.step t events) := by
  induction events with
  | nil => exact fun h _ _ _ _ => h
  | cons e events ih =>
    intro s t h haddressed hreports hroom hroom'
    have hfirst : ∀ r, reportOf e = some r → r ∈ reports :=
      fun r hr => hreports (List.mem_filterMap.mpr ⟨e, List.mem_cons_self, hr⟩)
    have hrest : reportsOf events ⊆ reports := by
      intro r hr
      obtain ⟨e', he', hr'⟩ := List.mem_filterMap.mp hr
      exact hreports (List.mem_filterMap.mpr ⟨e', List.mem_cons_of_mem e he', hr'⟩)
    have hnext := h.step hcoherent (haddressed e List.mem_cons_self) hfirst hroom.1 hroom'.1
    exact ih hnext (fun e' he' => haddressed e' (List.mem_cons_of_mem e he')) hrest hroom.2 hroom'.2

end Runs

/-- The limits of the shards of one system. -/
structure Sizes where
  shardCount : Nat
  shardCount_pos : 0 < shardCount
  capacity : Nat
  logCapacity : Nat
  gapPoolCapacity : Nat
  terminalCacheCapacity : Nat

def fresh (sizes : Sizes) (hook : Option WalHook) : ShardedOms :=
  boot sizes.shardCount sizes.shardCount_pos sizes.capacity sizes.logCapacity sizes.gapPoolCapacity
    sizes.terminalCacheCapacity hook

theorem fresh_alike (sizes sizes' : Sizes) {hook : Option WalHook}
    (hempty : ∀ w, hook = some w → ∀ i, w.outbox i = []) (reports : List ExecReport) :
    Alike reports (fresh sizes hook) (fresh sizes' hook) := by
  have hheld : ∀ (sizes : Sizes) (i : Nat), ((fresh sizes hook).shards i).sequencer.gapPool.held = [] :=
    fun sizes _ => GapPool.held_new sizes.gapPoolCapacity
  have hfind : ∀ (sizes : Sizes) (i : Nat) (ref : BrokerOrderRef),
      ((fresh sizes hook).shards i).oms.find ref = none := fun sizes _ ref => congrFun (Oms.find_new sizes.capacity) ref
  have htidy : ∀ (sizes : Sizes) (i : Nat), Tidy reports ((fresh sizes hook).shards i).sequencer := by
    intro sizes i
    refine ⟨?_, rfl⟩
    rw [hheld]
    exact List.nil_subset reports
  have hreserved : ∀ sizes : Sizes, (fresh sizes hook).reservedExposure = 0 := by
    intro sizes
    unfold reservedExposure
    apply List.sum_eq_zero
    intro v hv
    obtain ⟨i, -, rfl⟩ := List.mem_map.mp hv
    rfl
  have hjournal : ∀ (sizes : Sizes) (ref : BrokerOrderRef), (fresh sizes hook).journalOf ref = [] := by
    intro sizes ref
    have hnone : (fresh sizes hook).outbox ((fresh sizes hook).shardOf ref) = [] := by
      unfold outbox
      have hhook : (fresh sizes hook).walHook = hook := rfl
      rw [hhook]
      cases hook with
      | none => rfl
      | some w => exact hempty w rfl _
    unfold journalOf
    rw [hnone]
    rfl
  refine ⟨?_, htidy sizes, htidy sizes', rfl, rfl, rfl, ?_, ?_, rfl, ?_⟩
  · intro ref
    refine ⟨?_, ?_, rfl⟩
    · rw [hfind, hfind]
    · rw [hheld, hheld]
  · rw [hreserved, hreserved]
  · have hhooks : ∀ w : Option WalHook,
        Option.Rel (fun w w' : WalHook => w.accepts = w'.accepts ∧ w.calls = w'.calls) w w := by
      intro w
      cases w with
      | none => exact .none
      | some w => exact .some ⟨rfl, rfl⟩
    exact hhooks hook
  · intro ref
    rw [hjournal, hjournal]

/-- Systems with any two numbers of shards that are given the same requests answer alike, keep the
same orders, and journal the same records of every order, as long as no shard of either is full
and no two reports for one number of an order differ. -/
theorem shards_transparent (sizes sizes' : Sizes) (hook : Option WalHook)
    (hempty : ∀ w, hook = some w → ∀ i, w.outbox i = []) (events : List Event)
    (haddressed : ∀ e ∈ events, Addressed e) (hcoherent : Coherent (reportsOf events))
    (hroom : Runs.Along ShardedOms.step Roomed (fresh sizes hook) events)
    (hroom' : Runs.Along ShardedOms.step Roomed (fresh sizes' hook) events) :
    let s := Runs.run ShardedOms.step (fresh sizes hook) events
    let t := Runs.run ShardedOms.step (fresh sizes' hook) events
    s.completions = t.completions ∧ s.order = t.order ∧ s.reservedExposure = t.reservedExposure ∧
      s.walDropped = t.walDropped ∧ ∀ ref, s.journalOf ref = t.journalOf ref := by
  intro s t
  have halike : Alike (reportsOf events) s t :=
    .run hcoherent events (fresh_alike sizes sizes' hempty _) haddressed (List.Subset.refl _) hroom hroom'
  have horder : s.order = t.order := by
    funext ref
    exact (halike.desks ref).order
  exact ⟨halike.completions, horder, halike.reserved, halike.hook.dropped, halike.hook.journal⟩

/-- A fill overtakes the acknowledgement of its order, next to a second order. -/
def overtaken : List Event :=
  [.request { kind := .create, ref := ⟨1, 1⟩, volume := 10 } 0,
    .request { kind := .create, ref := ⟨1, 2⟩, volume := 5 } 1,
    .request { kind := .transition, ref := ⟨1, 1⟩, target := .sent } 0,
    .request { kind := .report, ref := ⟨1, 1⟩, venueSeq := 2, reportKind := .fill, volume := 4 } 2,
    .request { kind := .report, ref := ⟨1, 1⟩, venueSeq := 1 } 3]

/-- A hook that refuses its third call. -/
def refusingHook : WalHook where
  accepts call := call != 2

theorem shards_transparent_overtaken :
    let sizes : Sizes := ⟨1, Nat.one_pos, 4, 16, 4, 4⟩
    let sizes' : Sizes := ⟨3, Nat.succ_pos 2, 2, 16, 2, 2⟩
    let s := Runs.run ShardedOms.step (fresh sizes (some refusingHook)) overtaken
    let t := Runs.run ShardedOms.step (fresh sizes' (some refusingHook)) overtaken
    (s.walDropped = 1 ∧ (s.journalOf ⟨1, 1⟩).length = 2 ∧ (s.journalOf ⟨1, 2⟩).length = 1) ∧
    s.completions = t.completions ∧ s.order = t.order ∧ s.reservedExposure = t.reservedExposure ∧
      s.walDropped = t.walDropped ∧ ∀ ref, s.journalOf ref = t.journalOf ref := by
  intro sizes sizes' s t
  refine ⟨by decide +kernel, ?_⟩
  refine shards_transparent sizes sizes' (some refusingHook) ?_ overtaken ?_ (by decide) (by decide +kernel)
    (by decide +kernel)
  · rintro w ⟨⟩ i
    rfl
  · simp [overtaken, Addressed]

end ShardedOms

end MicrostructureEngine
