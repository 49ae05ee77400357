import Mathlib.Algebra.Order.BigOperators.Group.Finset
import MicrostructureEngine.Oms.Gaps
import MicrostructureEngine.Oms.Journaling
import MicrostructureEngine.Lib.Draining

/-!
# The journal of a run

The outboxes of a run in which nothing was dropped. Their records are routed like the
requests, stamped in order and well formed, and the records of one reference decode to the
mirror of the live order: `Journaled` says so, and every journalable step keeps it. Next to
it runs the history of a reference: which creates and fills were accepted, read off the run
and read off the journal.
-/

namespace MicrostructureEngine

open scoped List
set_option autoImplicit false

namespace ShardedOms

/-! ## Outboxes -/

section Outbox
variable {s : ShardedOms} {i : Nat}

theorem push_walDropped_le (s : ShardedOms) (i : Nat) (r : JournalRecord) :
    s.walDropped ≤ (s.push i r).walDropped := by
  unfold push
  split
  · exact Nat.le_refl _
  · dsimp only
    split <;> omega

theorem push_hooked (s : ShardedOms) (i : Nat) (r : JournalRecord) :
    (s.push i r).walHook.isSome = s.walHook.isSome := by
  unfold push
  split
  · rfl
  · rename_i hw
    rw [hw]
    rfl

theorem apply_hooked (s : ShardedOms) (i : Nat) (req : Request) (cell : Nat) :
    (s.apply i req cell).walHook.isSome = s.walHook.isSome := by
  unfold apply
  exact emitWal_field _ (fun s => s.walHook.isSome) push_hooked i req _ _

theorem push_outbox {r : JournalRecord} (hook : s.walHook.isSome) (h : (s.push i r).walDropped = 0) :
    (s.push i r).outbox = Function.update s.outbox i (s.outbox i ++ [r]) := by
  obtain ⟨w, hw⟩ := Option.isSome_iff_exists.mp hook
  simp only [push, hw] at h ⊢
  have haccepts : w.accepts w.calls = true := by
    by_contra hrefused
    have hno : (w.record i r).1 = false := by simpa [WalHook.record] using hrefused
    rw [hno] at h
    cases h
  have hbox : s.outbox = w.outbox := by
    funext j
    simp only [outbox, hw]
  have hrecord : (w.record i r).2.outbox = Function.update w.outbox i (w.outbox i ++ [r]) := by
    simp [WalHook.record, haccepts]
  rw [hbox, ← hrecord]
  rfl

theorem pushAll_cons (s : ShardedOms) (i : Nat) (r : JournalRecord) (rs : List JournalRecord) :
    s.pushAll i (r :: rs) = (s.push i r).pushAll i rs := rfl

theorem pushAll_outbox {rs : List JournalRecord} (hook : s.walHook.isSome)
    (h : (s.pushAll i rs).walDropped = 0) :
    s.walDropped = 0 ∧ (s.pushAll i rs).outbox = Function.update s.outbox i (s.outbox i ++ rs) := by
  induction rs generalizing s with
  | nil => exact ⟨h, by simp [pushAll]⟩
  | cons r rs ih =>
    rw [pushAll_cons] at h ⊢
    obtain ⟨hzero, hout⟩ := ih (by rw [push_hooked]; exact hook) h
    have hle := push_walDropped_le s i r
    rw [hout, push_outbox hook hzero]
    refine ⟨by omega, ?_⟩
    rw [Function.update_idem, Function.update_self, List.append_assoc]
    rfl

theorem emitWal_outbox (hook : s.walHook.isSome) {req : Request} {a : Applied} {tsNs : Nat}
    (h : (s.emitWal i req a tsNs).walDropped = 0) :
    s.walDropped = 0 ∧ (s.emitWal i req a tsNs).outbox =
      Function.update s.outbox i (s.outbox i ++ a.journal req tsNs) := by
  unfold emitWal at h ⊢
  unfold Applied.journal
  cases hok : a.ok with
  | false =>
    rw [hok] at h
    exact ⟨h, by simp⟩
  | true =>
    rw [hok] at h
    exact pushAll_outbox hook h

/-- A request appends its journal to the outbox of its shard. -/
theorem apply_outbox (hook : s.walHook.isSome) {req : Request} {cell : Nat}
    (h : (s.apply i req cell).walDropped = 0) :
    s.walDropped = 0 ∧ (s.apply i req cell).outbox =
      Function.update s.outbox i (s.outbox i ++ (s.answer i req cell).journal req s.globalSeq) := by
  unfold apply at h ⊢
  dsimp only at h ⊢
  have hemit := emitWal_outbox (by exact hook) h
  exact hemit

@[simp] theorem apply_globalSeq (s : ShardedOms) (i : Nat) (req : Request) (cell : Nat) :
    (s.apply i req cell).globalSeq = s.globalSeq + 1 := by
  simp [apply]

theorem apply_completions (s : ShardedOms) (i : Nat) (req : Request) (cell : Nat) :
    (s.apply i req cell).completions =
      Function.update s.completions cell (s.answer i req cell).completion := by
  simp [apply, answer]

end Outbox

/-! ## The invariant -/

structure Journaled (s : ShardedOms) : Prop where
  hooked : s.walHook.isSome
  cells : ∀ c, (s.completions c).order.symbolId < maxSymbols
  mirrored : ∀ i ref, ∃ y, Recovery.decodeAll none (Recovery.recordsOf ref (s.outbox i)) = some y ∧
    Option.Rel Mirrors ((s.shards i).oms.find ref) y
  routed : ∀ i, ∀ r ∈ s.outbox i, s.shardOf r.ref = i
  stamped : ∀ i, ∀ r ∈ s.outbox i, Shard.Stamped r.ref r.tsNs r ∧ r.tsNs < s.globalSeq
  sorted : ∀ i, (s.outbox i).Pairwise fun a b => a.tsNs ≤ b.tsNs

/-- Every request of the run is one that the journal can tell. -/
def JournalableEvent (s : ShardedOms) : Event → Prop
  | .request req _ => (s.shards (s.shardOf req.ref)).Journalable s.engine.standingApproval req
  | _ => True

theorem recordsOf_journal {ref : BrokerOrderRef} {tsNs : Nat} {rs : List JournalRecord}
    (h : ∀ r ∈ rs, Shard.Stamped ref tsNs r) (ref' : BrokerOrderRef) :
    Recovery.recordsOf ref' rs = if ref' = ref then rs else [] := by
  unfold Recovery.recordsOf
  split
  · rename_i heq
    rw [List.filter_eq_self]
    intro r hr
    rw [heq]
    exact decide_eq_true (h r hr).ref_eq
  · rename_i hne
    rw [List.filter_eq_nil_iff]
    intro r hr
    rw [(h r hr).ref_eq]
    simpa using Ne.symm hne

theorem symbol_of_mirror {x y : Option Order} (h : Option.Rel Mirrors x y) :
    ∀ z, x = some z → z.symbolId < maxSymbols := by
  intro z hz
  cases h with
  | none => cases hz
  | some h =>
    cases hz
    exact h.liveOk.symbol

/-- One applied request keeps the invariant; `hroute` is the routing of requests, and a
snapshot writes nothing. -/
theorem Journaled.apply {s : ShardedOms} (h : Journaled s) {i : Nat} {req : Request} {cell : Nat}
    (hj : (s.shards i).Journalable s.engine.standingApproval req) (hroute : req.kind = .snapshot ∨ s.shardOf req.ref = i)
    (hdrop : (s.apply i req cell).walDropped = 0) : Journaled (s.apply i req cell) := by
  obtain ⟨_, hout⟩ := apply_outbox h.hooked hdrop
  obtain ⟨y, hy, hrel⟩ := h.mirrored i req.ref
  obtain ⟨z, hz, hrel'⟩ := Shard.apply_keepsMirror hrel hj (s.completions cell) s.globalSeq
  obtain ⟨w, delta, heffect⟩ := (s.shards i).apply_effect s.engine.standingApproval req
    (s.completions cell)
  have hafter := symbol_of_mirror hrel'
  have hstamped : ∀ r ∈ (s.answer i req cell).journal req s.globalSeq,
      Shard.Stamped req.ref s.globalSeq r :=
    Shard.journal_stamped hj s.globalSeq (h.cells cell) (symbol_of_mirror hrel) hafter
  refine ⟨by rw [apply_hooked]; exact h.hooked, ?_, ?_, ?_, ?_, ?_⟩
  · intro c
    rw [apply_completions]
    by_cases hc : c = cell
    · rw [hc, Function.update_self]
      exact Shard.apply_cell hj (h.cells cell) hafter
    · rw [Function.update_of_ne hc]
      exact h.cells c
  · intro j ref
    rw [hout]
    by_cases hji : j = i
    · subst hji
      rw [Function.update_self, Recovery.recordsOf_append, Recovery.decodeAll_append, apply_oms]
      by_cases href : ref = req.ref
      · subst href
        rw [hy, Option.bind_some, recordsOf_journal hstamped, if_pos rfl]
        exact ⟨z, hz, hrel'⟩
      · obtain ⟨y', hy', hrel''⟩ := h.mirrored j ref
        rw [hy', Option.bind_some, recordsOf_journal hstamped, if_neg href]
        refine ⟨y', rfl, ?_⟩
        have hsame : (s.answer j req cell).oms.find ref = (s.shards j).oms.find ref :=
          heffect.find_of_ne href
        rw [hsame]
        exact hrel''
    · rw [Function.update_of_ne hji, apply_shards_of_ne _ hji]
      exact h.mirrored j ref
  · intro j r hr
    have hshard : (s.apply i req cell).shardOf r.ref = s.shardOf r.ref := by
      simp [shardOf]
    rw [hshard]
    rw [hout] at hr
    by_cases hji : j = i
    · subst hji
      rw [Function.update_self] at hr
      rcases List.mem_append.mp hr with hold | hnew
      · exact h.routed j r hold
      · rcases hroute with hsnap | hroute
        · have hnil : (s.answer j req cell).journal req s.globalSeq = [] := by
            simp [Applied.journal, Wal.records, hsnap]
          rw [hnil] at hnew
          cases hnew
        · rw [(hstamped r hnew).ref_eq]
          exact hroute
    · rw [Function.update_of_ne hji] at hr
      exact h.routed j r hr
  · intro j r hr
    rw [apply_globalSeq]
    rw [hout] at hr
    by_cases hji : j = i
    · subst hji
      rw [Function.update_self] at hr
      rcases List.mem_append.mp hr with hold | hnew
      · obtain ⟨hst, hlt⟩ := h.stamped j r hold
        exact ⟨hst, by omega⟩
      · have hst := hstamped r hnew
        refine ⟨⟨rfl, rfl, hst.order, hst.reserved, hst.symbol, hst.type_pos, hst.type_le⟩, ?_⟩
        rw [hst.tsNs_eq]
        exact Nat.lt_succ_self _
    · rw [Function.update_of_ne hji] at hr
      obtain ⟨hst, hlt⟩ := h.stamped j r hr
      exact ⟨hst, by omega⟩
  · intro j
    rw [hout]
    by_cases hji : j = i
    · subst hji
      rw [Function.update_self, List.pairwise_append]
      refine ⟨h.sorted j, ?_, ?_⟩
      · apply List.pairwise_of_forall_mem_list
        intro a ha b hb
        rw [(hstamped a ha).tsNs_eq, (hstamped b hb).tsNs_eq]
      · intro a ha b hb
        rw [(hstamped b hb).tsNs_eq]
        exact Nat.le_of_lt (h.stamped j a ha).2
    · rw [Function.update_of_ne hji]
      exact h.sorted j

/-- The state in which the snapshot of a shard is applied: the cell has been emptied. -/
def prepared (s : ShardedOms) (capacity cell : Nat) : ShardedOms :=
  { s with completions := Function.update s.completions cell { s.completions cell with
    snapshotOut := [], snapshotCapacity := capacity, snapshotCount := 0 } }

theorem Journaled.prepared {s : ShardedOms} (h : Journaled s) (capacity cell : Nat) :
    Journaled (s.prepared capacity cell) := by
  refine ⟨h.hooked, ?_, h.mirrored, h.routed, h.stamped, h.sorted⟩
  intro c
  by_cases hc : c = cell
  · rw [hc]
    simp only [ShardedOms.prepared, Function.update_self]
    exact h.cells cell
  · simp only [ShardedOms.prepared, Function.update_of_ne hc]
    exact h.cells c

theorem Journaled.step {s : ShardedOms} (h : Journaled s) {e : Event} (hj : s.JournalableEvent e)
    (hdrop : (s.step e).walDropped = 0) : Journaled (s.step e) := by
  cases e with
  | request req cell => exact h.apply hj (Or.inr rfl) hdrop
  | snapshot shard capacity cell =>
    exact (h.prepared capacity cell).apply (i := shard) trivial (Or.inl rfl) hdrop
  | haltGlobally reason => exact ⟨h.hooked, h.cells, h.mirrored, h.routed, h.stamped, h.sorted⟩

/-- What a step appends to the outbox of the shard `i`. -/
def appended (s : ShardedOms) (i : Nat) : Event → List JournalRecord
  | .request req cell =>
    if s.shardOf req.ref = i then (s.answer i req cell).journal req s.globalSeq else []
  | _ => []

theorem step_hooked (s : ShardedOms) (e : Event) : (s.step e).walHook.isSome = s.walHook.isSome := by
  cases e with
  | request req cell => exact s.apply_hooked _ req cell
  | snapshot shard capacity cell => exact (s.prepared capacity cell).apply_hooked shard _ cell
  | haltGlobally reason => rfl

/-- Steps only append, and a record that was dropped stays counted. -/
theorem step_outbox {s : ShardedOms} (hook : s.walHook.isSome) {e : Event}
    (hdrop : (s.step e).walDropped = 0) :
    s.walDropped = 0 ∧ ∀ i, (s.step e).outbox i = s.outbox i ++ s.appended i e := by
  cases e with
  | request req cell =>
    obtain ⟨hzero, hout⟩ := apply_outbox hook hdrop
    refine ⟨hzero, ?_⟩
    intro i
    have hstep : (s.step (.request req cell)).outbox = (s.apply (s.shardOf req.ref) req cell).outbox :=
      rfl
    rw [hstep, hout]
    simp only [appended]
    by_cases hi : s.shardOf req.ref = i
    · subst hi
      rw [Function.update_self, if_pos rfl]
    · rw [Function.update_of_ne (Ne.symm hi), if_neg hi, List.append_nil]
  | snapshot shard capacity cell =>
    have hook' : (s.prepared capacity cell).walHook.isSome := hook
    obtain ⟨hzero, hout⟩ := apply_outbox hook' hdrop
    refine ⟨hzero, ?_⟩
    intro i
    have hstep : (s.step (.snapshot shard capacity cell)).outbox =
        ((s.prepared capacity cell).apply shard { kind := .snapshot } cell).outbox := rfl
    have hnil : ((s.prepared capacity cell).answer shard { kind := .snapshot } cell).journal
        { kind := .snapshot } (s.prepared capacity cell).globalSeq = [] := by
      simp [Applied.journal, Wal.records]
    rw [hstep, hout, hnil, List.append_nil, Function.update_eq_self]
    exact (List.append_nil _).symm
  | haltGlobally reason => exact ⟨hdrop, fun i => (List.append_nil _).symm⟩

theorem Journaled.run {s : ShardedOms} (h : Journaled s) {events : List Event}
    (hj : Runs.Along ShardedOms.step JournalableEvent s events)
    (hdrop : (Runs.run ShardedOms.step s events).walDropped = 0) :
    Journaled (Runs.run ShardedOms.step s events) := by
  have hinv := Runs.run_invariant (P := JournalableEvent)
    (I := fun s => s.walHook.isSome = true ∧ (s.walDropped = 0 → Journaled s)) (by
      intro s e hs he
      refine ⟨by rw [step_hooked]; exact hs.1, ?_⟩
      intro hzero
      exact (hs.2 (step_outbox hs.1 hzero).1).step he hzero) ⟨h.hooked, fun _ => h⟩ hj
  exact hinv.2 hdrop

theorem journaled_boot (shardCount : Nat) (hpos : 0 < shardCount)
    (capacity logCapacity gapPoolCapacity terminalCacheCapacity : Nat) {hook : WalHook}
    (hempty : ∀ i, hook.outbox i = []) :
    Journaled (boot shardCount hpos capacity logCapacity gapPoolCapacity terminalCacheCapacity
      (some hook)) := by
  have hout : ∀ i, (boot shardCount hpos capacity logCapacity gapPoolCapacity terminalCacheCapacity
      (some hook)).outbox i = [] := hempty
  refine ⟨rfl, fun _ => (by decide : 0 < maxSymbols), ?_, ?_, ?_, ?_⟩
  · intro i ref
    refine ⟨none, by rw [hout]; rfl, ?_⟩
    have hnone : ((boot shardCount hpos capacity logCapacity gapPoolCapacity terminalCacheCapacity
        (some hook)).shards i).oms.find ref = none := congrFun (Oms.find_new capacity) ref
    rw [hnone]
    exact .none
  · intro i r hr
    rw [hout] at hr
    cases hr
  · intro i r hr
    rw [hout] at hr
    cases hr
  · intro i
    rw [hout]
    exact .nil

end ShardedOms

/-! ## The history of a reference -/

/-- An accepted create or fill. -/
inductive Entry where
  | opened (volume : Int)
  | filled (volume : Int)
  deriving DecidableEq, Repr

def Entry.isOpened : Entry → Bool
  | .opened _ => true
  | .filled _ => false

/-- What a request adds to the history of its reference once it is accepted. -/
def Request.entries (req : Request) : List Entry :=
  match req.kind with
  | .create => [.opened req.volume]
  | .fill => [.filled req.volume]
  | .report => if req.reportKind = .fill then [.filled req.volume] else []
  | _ => []

/-- The same, read off a journal record. -/
def Recovery.entry (r : JournalRecord) : Option Entry :=
  match JournalRecordType.ofCode r.type with
  | .command => some (.opened r.b)
  | .fill => some (.filled r.b)
  | _ => none

namespace Shard

/-- A request on an order succeeds only if the order is there. -/
theorem apply_before_isSome {sh : Shard} {approved : Bool} {req : Request} {c : Completion}
    (hok : (sh.apply approved req c).ok = true) (hk : req.kind = .fill ∨ req.kind = .report) :
    ∃ x, (sh.apply approved req c).before = some x := by
  unfold apply at hok ⊢
  cases hf : sh.oms.find req.ref with
  | some x =>
    rcases hk with hk | hk <;> simp only [hk] at hok ⊢ <;> exact ⟨x, hf⟩
  | none =>
    rcases hk with hk | hk
    · simp only [hk, applyFill, sh.oms.fill_of_none hf] at hok
      cases hok
    · have hf' : sh.oms.find req.execReport.ref = none := hf
      have hnone := sh.sequencer.process_of_none sh.oms hf'
      simp only [hk, applyReport, hnone] at hok
      split at hok <;> cases hok

theorem journal_entries (sh : Shard) (approved : Bool) (req : Request) (c : Completion) (tsNs : Nat) :
    ((sh.apply approved req c).journal req tsNs).filterMap Recovery.entry =
      if (sh.apply approved req c).ok then req.entries else [] := by
  unfold Applied.journal
  cases hok : (sh.apply approved req c).ok with
  | false => rfl
  | true =>
    simp only [if_true]
    have hbefore := fun hk => apply_before_isSome hok hk
    generalize sh.apply approved req c = a at hbefore ⊢
    have hfill : ∀ x, (Wal.fillRecords req x tsNs).filterMap Recovery.entry = [.filled req.volume] :=
      fun _ => rfl
    unfold Wal.records Request.entries
    cases hk : req.kind with
    | create => rfl
    | find => rfl
    | snapshot => rfl
    | restore => rfl
    | transition =>
      cases a.before with
      | none => rfl
      | some x =>
        dsimp only
        unfold Wal.transitionRecords
        split
        · rfl
        · split <;> rfl
    | replace => cases a.before <;> rfl
    | fill =>
      obtain ⟨x, hx⟩ := hbefore (Or.inl hk)
      rw [hx]
      exact hfill x
    | report =>
      obtain ⟨x, hx⟩ := hbefore (Or.inr hk)
      rw [hx]
      dsimp only
      unfold Wal.reportRecords
      cases req.reportKind <;> rfl

end Shard

namespace ShardedOms

/-- What an event adds to the history of `ref`. -/
def acceptedBy (s : ShardedOms) (ref : BrokerOrderRef) : Event → List Entry
  | .request req cell =>
    if req.ref = ref ∧ (s.answer (s.shardOf req.ref) req cell).ok then req.entries else []
  | _ => []

/-- The creates and fills of `ref` that a run accepts, in their order. -/
def accepted (ref : BrokerOrderRef) : ShardedOms → List Event → List Entry
  | _, [] => []
  | s, e :: events => s.acceptedBy ref e ++ accepted ref (s.step e) events

def isCreate : Event → Bool
  | .request req _ => req.kind == .create
  | _ => false

/-- The history of a reference stands in the outbox of its shard. -/
theorem appended_entries {s : ShardedOms} {e : Event} (h : Journaled s) (hj : s.JournalableEvent e)
    (ref : BrokerOrderRef) :
    (Recovery.recordsOf ref (s.appended (s.shardOf ref) e)).filterMap Recovery.entry =
      s.acceptedBy ref e := by
  cases e with
  | snapshot shard capacity cell => rfl
  | haltGlobally reason => rfl
  | request req cell =>
    simp only [appended, acceptedBy]
    obtain ⟨y, hy, hrel⟩ := h.mirrored (s.shardOf req.ref) req.ref
    obtain ⟨z, hz, hrel'⟩ := Shard.apply_keepsMirror hrel hj (s.completions cell)
      s.globalSeq
    have hstamped : ∀ r ∈ (s.answer (s.shardOf req.ref) req cell).journal req s.globalSeq,
        Shard.Stamped req.ref s.globalSeq r :=
      Shard.journal_stamped hj s.globalSeq (h.cells cell) (symbol_of_mirror hrel)
        (symbol_of_mirror hrel')
    by_cases href : req.ref = ref
    · subst href
      rw [if_pos rfl, recordsOf_journal hstamped, if_pos rfl]
      simp only [true_and]
      exact Shard.journal_entries _ _ req _ _
    · rw [if_neg (show ¬ (req.ref = ref ∧ _) from fun hn => href hn.1)]
      split
      · rename_i hroute
        rw [← hroute, recordsOf_journal hstamped, if_neg (Ne.symm href)]
        rfl
      · rfl

theorem step_shardOf (s : ShardedOms) (e : Event) (ref : BrokerOrderRef) :
    (s.step e).shardOf ref = s.shardOf ref := by
  simp [shardOf]

@[simp] theorem run_shardCount (s : ShardedOms) (events : List Event) :
    (Runs.run step s events).shardCount = s.shardCount := by
  induction events generalizing s with
  | nil => rfl
  | cons e events ih => rw [Runs.run_cons, ih, step_shardCount]

theorem run_shardOf (s : ShardedOms) (events : List Event) (ref : BrokerOrderRef) :
    (Runs.run step s events).shardOf ref = s.shardOf ref := by
  simp [shardOf]

theorem run_walDropped {s : ShardedOms} (hook : s.walHook.isSome) {events : List Event}
    (hdrop : (Runs.run step s events).walDropped = 0) : s.walDropped = 0 := by
  induction events generalizing s with
  | nil => exact hdrop
  | cons e events ih =>
    have hook' : (s.step e).walHook.isSome := by
      rw [step_hooked]
      exact hook
    exact (step_outbox hook (ih hook' hdrop)).1

/-- Nothing is ever written to a queue that belongs to no shard. -/
theorem run_outbox_of_ge {s : ShardedOms} (hook : s.walHook.isSome)
    (hempty : ∀ i, s.shardCount ≤ i → s.outbox i = []) {events : List Event}
    (hdrop : (Runs.run step s events).walDropped = 0) {i : Nat} (hi : s.shardCount ≤ i) :
    (Runs.run step s events).outbox i = [] := by
  induction events generalizing s with
  | nil => exact hempty i hi
  | cons e events ih =>
    have hook' : (s.step e).walHook.isSome := by
      rw [step_hooked]
      exact hook
    have hout := (step_outbox hook (run_walDropped hook' hdrop)).2
    refine ih hook' ?_ hdrop (by rw [step_shardCount]; exact hi)
    intro j hj
    rw [step_shardCount] at hj
    rw [hout, hempty j hj, List.nil_append]
    cases e with
    | snapshot shard capacity cell => rfl
    | haltGlobally reason => rfl
    | request req cell =>
      have hlt : s.shardOf req.ref < s.shardCount := Nat.mod_lt _ s.shardCount_pos
      simp only [appended]
      rw [if_neg (by omega)]

theorem run_entries {s : ShardedOms} (h : Journaled s) {events : List Event}
    (hj : Runs.Along step JournalableEvent s events) (hdrop : (Runs.run step s events).walDropped = 0)
    (ref : BrokerOrderRef) :
    (Recovery.recordsOf ref ((Runs.run step s events).outbox (s.shardOf ref))).filterMap Recovery.entry =
      (Recovery.recordsOf ref (s.outbox (s.shardOf ref))).filterMap Recovery.entry ++
        accepted ref s events := by
  induction events generalizing s with
  | nil => exact (List.append_nil _).symm
  | cons e events ih =>
    rw [Runs.run_cons] at hdrop ⊢
    have hook : (s.step e).walHook.isSome := by
      rw [step_hooked]
      exact h.hooked
    have hzero := run_walDropped hook hdrop
    have hrest := ih (h.step hj.1 hzero) hj.2 hdrop
    rw [step_shardOf] at hrest
    rw [hrest, (step_outbox h.hooked hzero).2, Recovery.recordsOf_append, List.filterMap_append,
      appended_entries h hj.1, List.append_assoc]
    rfl

/-- The number of commands in all outboxes. -/
def commands (s : ShardedOms) : Nat :=
  ∑ i ∈ Finset.range s.shardCount, (s.outbox i).countP Recovery.isCommand

theorem countP_isCommand (rs : List JournalRecord) :
    rs.countP Recovery.isCommand = (rs.filterMap Recovery.entry).countP Entry.isOpened := by
  rw [List.countP_filterMap]
  congr 1
  funext r
  unfold Recovery.isCommand Recovery.entry
  cases JournalRecordType.ofCode r.type <;> rfl

theorem journal_commands (s : ShardedOms) (i : Nat) (req : Request) (cell tsNs : Nat) :
    ((s.answer i req cell).journal req tsNs).countP Recovery.isCommand ≤
      if req.kind = .create then 1 else 0 := by
  rw [countP_isCommand]
  unfold answer
  rw [Shard.journal_entries]
  split
  · unfold Request.entries
    cases req.kind <;> try exact Nat.le_refl _
    simp only
    split <;> exact Nat.le_refl _
  · exact Nat.zero_le _

/-- The commands a create journals in a shard. -/
def createsAt (s : ShardedOms) (e : Event) (i : Nat) : Nat :=
  match e with
  | .request req _ => if i = s.shardOf req.ref then (if isCreate e then 1 else 0) else 0
  | _ => 0

theorem step_commands {s : ShardedOms} (hook : s.walHook.isSome) {e : Event}
    (hdrop : (s.step e).walDropped = 0) :
    (s.step e).commands ≤ s.commands + if isCreate e then 1 else 0 := by
  have hout := (step_outbox hook hdrop).2
  have hle : ∀ i, (s.appended i e).countP Recovery.isCommand ≤ s.createsAt e i := by
    intro i
    unfold createsAt
    cases e with
    | snapshot shard capacity cell => exact Nat.le_refl _
    | haltGlobally reason => exact Nat.le_refl _
    | request req cell =>
      simp only [appended, isCreate, beq_iff_eq]
      by_cases hi : i = s.shardOf req.ref
      · rw [if_pos hi.symm, if_pos hi]
        exact s.journal_commands i req cell _
      · rw [if_neg (Ne.symm hi), if_neg hi]
        exact Nat.le_refl _
  have hsum : ∑ i ∈ Finset.range s.shardCount, (s.appended i e).countP Recovery.isCommand ≤
      if isCreate e then 1 else 0 := by
    refine (Finset.sum_le_sum fun i _ => hle i).trans ?_
    unfold createsAt
    cases e with
    | snapshot shard capacity cell => simp
    | haltGlobally reason => simp
    | request req cell =>
      dsimp only
      rw [Finset.sum_ite_eq' (Finset.range s.shardCount) (s.shardOf req.ref)]
      split
      · exact Nat.le_refl _
      · exact Nat.zero_le _
  unfold commands
  rw [step_shardCount]
  simp only [hout, List.countP_append, Finset.sum_add_distrib]
  omega

theorem run_commands {s : ShardedOms} (hook : s.walHook.isSome) {events : List Event}
    (hdrop : (Runs.run step s events).walDropped = 0) :
    (Runs.run step s events).commands ≤ s.commands + events.countP isCreate := by
  induction events generalizing s with
  | nil => exact Nat.le_refl _
  | cons e events ih =>
    rw [Runs.run_cons] at hdrop ⊢
    have hook' : (s.step e).walHook.isSome := by
      rw [step_hooked]
      exact hook
    have hstep := step_commands hook (run_walDropped hook' hdrop)
    have hrest := ih hook' hdrop
    rw [List.countP_cons]
    omega

end ShardedOms

end MicrostructureEngine
