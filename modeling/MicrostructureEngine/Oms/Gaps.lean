import MicrostructureEngine.Oms.Cascade
import MicrostructureEngine.Oms.Sharded

/-!
# The gap pool holds only applicable reports

Every held report should wait for a live order, ahead of its sequence number, and no two
for the same number. The sequencer keeps this by itself, but two steps break it: a report
that is retransmitted while it is held is held again, and an order that becomes terminal
by a direct transition or fill leaves its held reports in the pool. The invariant holds
throughout a run exactly when neither step occurs.
-/

namespace MicrostructureEngine

open scoped List
set_option autoImplicit false

/-- Held reports wait for live orders behind a gap, each for its own number. -/
structure GapInv (o : Oms) (held : List ExecReport) : Prop where
  ahead : ∀ r ∈ held, ∃ x, o.find r.ref = some x ∧ x.lastAppliedSeq + 1 < r.venueSeq
  distinct : DistinctKeys held

/-- The pool as its users see it: every held report is applicable to a live order, none is
held twice, nothing is held once no order is live or no gap is open, and nothing is held
for a reference that a later create could use again. -/
def OnlyApplicable (sh : Shard) : Prop :=
  (∀ r ∈ sh.sequencer.gapPool.held,
    ∃ x, sh.oms.find r.ref = some x ∧ x.lastAppliedSeq < r.venueSeq) ∧
  DistinctKeys sh.sequencer.gapPool.held ∧
  ((∀ ref, sh.oms.find ref = none) → sh.sequencer.gapPool.heldCount = 0) ∧
  ((∀ r ∈ sh.sequencer.gapPool.held, ∀ x, sh.oms.find r.ref = some x →
      r.venueSeq ≤ x.lastAppliedSeq + 1) → sh.sequencer.gapPool.heldCount = 0) ∧
  (∀ ref, sh.oms.find ref = none → ∀ r ∈ sh.sequencer.gapPool.held, r.ref ≠ ref)

theorem GapInv.onlyApplicable {sh : Shard} (h : GapInv sh.oms sh.sequencer.gapPool.held) :
    OnlyApplicable sh := by
  have hempty : (∀ r ∈ sh.sequencer.gapPool.held, False) → sh.sequencer.gapPool.heldCount = 0 := by
    intro hno
    rw [GapPool.heldCount_eq, List.eq_nil_iff_forall_not_mem.mpr hno]
    rfl
  refine ⟨?_, h.distinct, ?_, ?_, ?_⟩
  · intro r hr
    obtain ⟨x, hx, hlt⟩ := h.ahead r hr
    exact ⟨x, hx, by omega⟩
  · intro hnone
    apply hempty
    intro r hr
    obtain ⟨x, hx, _⟩ := h.ahead r hr
    rw [hnone r.ref] at hx
    cases hx
  · intro hclosed
    apply hempty
    intro r hr
    obtain ⟨x, hx, hlt⟩ := h.ahead r hr
    have := hclosed r hr x hx
    omega
  · rintro ref hnone r hr rfl
    obtain ⟨x, hx, _⟩ := h.ahead r hr
    rw [hnone] at hx
    cases hx

/-- A write to one order that keeps it alive at its sequence number. -/
theorem GapInv.of_effect {o o' : Oms} {held : List ExecReport} (h : GapInv o held)
    {ref : BrokerOrderRef} {y : Order} {delta : Int} (he : Oms.Effect o o' ref (some y) delta)
    (hseq : ∀ x, o.find ref = some x → y.lastAppliedSeq = x.lastAppliedSeq) : GapInv o' held := by
  refine ⟨?_, h.distinct⟩
  intro r hr
  obtain ⟨x, hx, hlt⟩ := h.ahead r hr
  by_cases href : r.ref = ref
  · rw [href] at hx ⊢
    exact ⟨y, he.find_self, by rw [hseq x hx]; exact hlt⟩
  · exact ⟨x, by rw [he.find_of_ne href]; exact hx, hlt⟩

theorem GapInv.of_gone {o o' : Oms} {held : List ExecReport} (h : GapInv o held)
    {ref : BrokerOrderRef} {delta : Int} (he : Oms.Effect o o' ref none delta)
    (hnone : ∀ r ∈ held, r.ref ≠ ref) : GapInv o' held := by
  refine ⟨?_, h.distinct⟩
  intro r hr
  obtain ⟨x, hx, hlt⟩ := h.ahead r hr
  exact ⟨x, by rw [he.find_of_ne (hnone r hr)]; exact hx, hlt⟩

/-- A direct call on a live order keeps the invariant unless it ends an order for which
reports are held. -/
theorem GapInv.of_follows {o : Oms} {held : List ExecReport} (h : GapInv o held)
    {ref : BrokerOrderRef} {x : Order} (hx : o.find ref = some x) {r : Bool × Oms} {v : Verdict}
    (hf : Oms.Follows o ref r v) (hseq : Verdict.KeepsSeq x v)
    (hend : v.after = none → ∀ r ∈ held, r.ref ≠ ref) : GapInv r.2 held := by
  cases hv : v.after with
  | none =>
    have he := hf.2
    rw [hv] at he
    exact h.of_gone he (hend hv)
  | some y =>
    have he := hf.2
    rw [hv] at he
    apply h.of_effect he
    intro x' hx'
    rw [hx, Option.some.injEq] at hx'
    rw [← hx']
    exact hseq y hv

theorem GapInv.of_inSeq {q : ReportSequencer} {o : Oms} (h : GapInv o q.gapPool.held)
    {report : ExecReport} {x : Order} (hx : o.find report.ref = some x)
    (hseq : report.venueSeq = x.lastAppliedSeq + 1) :
    GapInv (q.process o report).2.2 (q.process o report).2.1.gapPool.held := by
  have href := o.find_ref hx
  have hahead : ∀ r ∈ q.gapPool.held, r.ref = x.ref → x.lastAppliedSeq + 1 < r.venueSeq := by
    intro r hr hrref
    obtain ⟨y, hy, hlt⟩ := h.ahead r hr
    rw [hrref, href, hx, Option.some.injEq] at hy
    rw [hy]
    exact hlt
  have hd : DistinctKeys (report :: q.gapPool.held) := by
    refine List.nodup_cons.mpr ⟨?_, h.distinct⟩
    intro hmem
    obtain ⟨r, hr, hkey⟩ := List.mem_map.mp hmem
    simp only [ExecReport.key, Prod.mk.injEq] at hkey
    have := hahead r hr (hkey.1.trans href.symm)
    omega
  have hall : ∀ r ∈ report :: q.gapPool.held, r.ref = x.ref → x.lastAppliedSeq < r.venueSeq := by
    intro r hr hrref
    rcases List.mem_cons.mp hr with rfl | hr
    · omega
    · have := hahead r hr hrref
      omega
  have hout := (q.process_inSeq o hx hseq).2
  rw [← settle_cons href.symm hseq] at hout
  obtain ⟨hsub, hother⟩ := settleLoop_held (report :: q.gapPool.held).length
    (report :: q.gapPool.held) x
  have hleft := settleLoop_ahead (Nat.le_refl _) hd hall
  refine ⟨?_, ?_⟩
  · intro r hr
    rw [hout.held] at hr
    by_cases hrref : r.ref = x.ref
    · obtain ⟨y, hy, hlt⟩ := hleft r hr hrref
      refine ⟨y, ?_, hlt⟩
      rw [hrref, href]
      exact hout.effect.find_self.trans hy
    · have hne : r.ref ≠ report.ref := by
        rw [← href]
        exact hrref
      have hold : r ∈ q.gapPool.held := by
        rcases List.mem_cons.mp ((hother r hrref).mp hr) with rfl | hold
        · exact absurd rfl hne
        · exact hold
      obtain ⟨y, hy, hlt⟩ := h.ahead r hold
      exact ⟨y, by rw [hout.effect.find_of_ne hne]; exact hy, hlt⟩
  · rw [hout.held]
    exact hd.sublist hsub

/-! ## The two steps that break the invariant -/

def Awaited (sh : Shard) (ref : BrokerOrderRef) : Prop :=
  ∃ r ∈ sh.sequencer.gapPool.held, r.ref = ref

/-- A direct transition or fill that ends a live order for which reports are held. -/
def Orphans (sh : Shard) (req : Request) : Prop :=
  Awaited sh req.ref ∧ ∃ x, sh.oms.find req.ref = some x ∧
    ((req.kind = .transition ∧ legal x.state req.target = true ∧ req.target.isTerminal = true) ∨
      (req.kind = .fill ∧ Oms.fillable x req.volume ∧
        legal x.state (OmsState.fillTarget x req.volume) = true ∧
        (OmsState.fillTarget x req.volume).isTerminal = true))

/-- A report ahead of a gap that is already held, while the pool has a free slot. -/
def HoldsTwice (sh : Shard) (req : Request) : Prop :=
  req.kind = .report ∧ (∃ x, sh.oms.find req.ref = some x ∧ x.lastAppliedSeq + 1 < req.venueSeq) ∧
    sh.sequencer.gapPool.heldCount < sh.sequencer.gapPool.capacity ∧
    ∃ r ∈ sh.sequencer.gapPool.held, r.ref = req.ref ∧ r.venueSeq = req.venueSeq

theorem transition_after_none {x : Order} {next : OrderState}
    (h : (Verdict.transition x next).after = none) : legal x.state next = true ∧ next.isTerminal = true := by
  unfold Verdict.transition at h
  split at h
  · rename_i hl
    dsimp only at h
    split at h
    · rename_i ht
      exact ⟨hl, ht⟩
    · cases h
  · cases h

theorem fill_after_none {x : Order} {volume : Int} (h : (Verdict.fill x volume).after = none) :
    Oms.fillable x volume ∧ legal x.state (OmsState.fillTarget x volume) = true ∧
      (OmsState.fillTarget x volume).isTerminal = true := by
  unfold Verdict.fill at h
  split at h
  · rename_i hv
    obtain ⟨hl, ht⟩ := transition_after_none h
    exact ⟨hv, hl, ht⟩
  · cases h

theorem replace_after_ne_none (x : Order) (price volume : Int) :
    (Verdict.replace x price volume).after ≠ none := by
  unfold Verdict.replace
  split <;> simp [Verdict.refuse]

section Request
variable {sh : Shard} (h : GapInv sh.oms sh.sequencer.gapPool.held) (approved : Bool) (req : Request)
  (c : Completion)
include h

theorem GapInv.of_new {o' : Oms} {ref : BrokerOrderRef} {y : Order} {delta : Int}
    (hnew : sh.oms.find ref = none) (he : Oms.Effect sh.oms o' ref (some y) delta) :
    GapInv o' sh.sequencer.gapPool.held := by
  apply h.of_effect he
  intro x hx
  rw [hnew] at hx
  cases hx

theorem GapInv.of_create (symbol : Nat) (volume : Int) (ref : BrokerOrderRef) :
    GapInv (sh.oms.create ref symbol volume).2 sh.sequencer.gapPool.held := by
  rcases sh.oms.create_cases ref symbol volume with ⟨hf, hs⟩ | heq
  · exact h.of_new hf (sh.oms.create_effect symbol volume hf hs).2
  · rw [heq]
    exact h

theorem GapInv.of_restore (x : Order) : GapInv (sh.oms.restore x).2 sh.sequencer.gapPool.held := by
  rcases sh.oms.restore_cases x with ⟨hf, hs, hx⟩ | heq
  · exact h.of_new hf (sh.oms.restore_effect hf hs hx).2
  · rw [heq]
    exact h

theorem GapInv.of_report (hk : req.kind = .report) (htwice : ¬ HoldsTwice sh req) :
    GapInv (sh.sequencer.process sh.oms req.execReport).2.2
      (sh.sequencer.process sh.oms req.execReport).2.1.gapPool.held := by
  cases hf : sh.oms.find req.ref with
  | none =>
    have hf' : sh.oms.find req.execReport.ref = none := hf
    rw [sh.sequencer.process_of_none sh.oms hf']
    exact h
  | some x =>
    have hf' : sh.oms.find req.execReport.ref = some x := hf
    rcases Nat.lt_trichotomy req.venueSeq (x.lastAppliedSeq + 1) with hlt | heq | hgt
    · have hle : req.execReport.venueSeq ≤ x.lastAppliedSeq := Nat.le_of_lt_succ hlt
      rw [sh.sequencer.process_of_le sh.oms hf' hle]
      exact h
    · exact h.of_inSeq hf' heq
    · rw [sh.sequencer.process_of_gap sh.oms hf' hgt]
      unfold ReportSequencer.holdReport
      dsimp only
      rcases sh.sequencer.gapPool.hold_eq req.execReport with ⟨_, hsame⟩ | ⟨htrue, hperm⟩
      · rw [hsame]
        exact h
      · have hroom : sh.sequencer.gapPool.heldCount < sh.sequencer.gapPool.capacity := by
          have hlen := SlotPool.contents_length_le (sh.sequencer.gapPool.hold req.execReport).2.slots
          have hcap := sh.sequencer.gapPool.hold_capacity req.execReport
          have hcount := hperm.length_eq
          rw [List.length_cons] at hcount
          rw [GapPool.heldCount_eq]
          unfold GapPool.capacity at hcap ⊢
          unfold GapPool.held at hcount ⊢
          omega
        have hd : DistinctKeys (req.execReport :: sh.sequencer.gapPool.held) := by
          refine List.nodup_cons.mpr ⟨?_, h.distinct⟩
          intro hmem
          obtain ⟨r, hr, hkey⟩ := List.mem_map.mp hmem
          simp only [ExecReport.key, Prod.mk.injEq] at hkey
          exact htwice ⟨hk, ⟨x, hf, hgt⟩, hroom, r, hr, hkey.1, hkey.2⟩
        refine ⟨?_, hd.perm hperm.symm⟩
        intro r hr
        rcases List.mem_cons.mp (hperm.mem_iff.mp hr) with rfl | hold
        · exact ⟨x, hf, hgt⟩
        · exact h.ahead r hold

theorem GapInv.of_request (horphan : ¬ Orphans sh req) (htwice : ¬ HoldsTwice sh req) :
    GapInv (sh.apply approved req c).oms (sh.apply approved req c).sequencer.gapPool.held := by
  unfold Shard.apply
  cases hk : req.kind with
  | create =>
    simp only [Shard.applyCreate]
    split
    · exact h
    · exact h.of_create req.symbol req.volume req.ref
  | find => exact h
  | transition =>
    simp only [Shard.applyTransition]
    cases hf : sh.oms.find req.ref with
    | none =>
      rw [sh.oms.transition_of_none hf]
      exact h
    | some x =>
      apply h.of_follows hf (sh.oms.transition_follows hf req.target)
        (Verdict.transition_keepsSeq x req.target)
      intro hend r hr hrref
      obtain ⟨hl, ht⟩ := transition_after_none hend
      exact horphan ⟨⟨r, hr, hrref⟩, x, hf, Or.inl ⟨hk, hl, ht⟩⟩
  | fill =>
    simp only [Shard.applyFill]
    cases hf : sh.oms.find req.ref with
    | none =>
      rw [sh.oms.fill_of_none hf]
      exact h
    | some x =>
      apply h.of_follows hf (sh.oms.fill_follows hf req.volume) (Verdict.fill_keepsSeq x req.volume)
      intro hend r hr hrref
      obtain ⟨hv, hl, ht⟩ := fill_after_none hend
      exact horphan ⟨⟨r, hr, hrref⟩, x, hf, Or.inr ⟨hk, hv, hl, ht⟩⟩
  | replace =>
    simp only [Shard.applyReplace]
    cases hf : sh.oms.find req.ref with
    | none =>
      rw [sh.oms.replace_of_none hf]
      exact h
    | some x =>
      apply h.of_follows hf (sh.oms.replace_follows hf req.price req.volume)
        (Verdict.replace_keepsSeq x req.price req.volume)
      intro hend
      exact absurd hend (replace_after_ne_none x req.price req.volume)
  | report => exact h.of_report req hk htwice
  | snapshot => exact h
  | restore => exact h.of_restore req.restoredOrder

end Request

theorem Orphans.not_applicable {sh : Shard} {req : Request} (h : Orphans sh req) (approved : Bool)
    (c : Completion) :
    ∃ r ∈ (sh.apply approved req c).sequencer.gapPool.held,
      (sh.apply approved req c).oms.find r.ref = none := by
  obtain ⟨⟨r, hr, hrref⟩, x, hx, ⟨hk, hl, ht⟩ | ⟨hk, hv, hl, ht⟩⟩ := h
  · have he := (sh.oms.transition_effect hx hl).2
    rw [if_pos ht] at he
    have happly : (sh.apply approved req c).oms = (sh.oms.transition req.ref req.target).2 ∧
        (sh.apply approved req c).sequencer = sh.sequencer := by
      simp only [Shard.apply, hk, Shard.applyTransition, and_self]
    exact ⟨r, by rw [happly.2]; exact hr, by rw [happly.1, hrref]; exact he.find_self⟩
  · have he := (sh.oms.fill_effect hx hv hl).2
    rw [if_pos ht] at he
    have happly : (sh.apply approved req c).oms = (sh.oms.fill req.ref req.volume).2 ∧
        (sh.apply approved req c).sequencer = sh.sequencer := by
      simp only [Shard.apply, hk, Shard.applyFill, and_self]
    exact ⟨r, by rw [happly.2]; exact hr, by rw [happly.1, hrref]; exact he.find_self⟩

/-- A retransmission of a held report takes a second slot. -/
theorem HoldsTwice.not_distinct {sh : Shard} {req : Request} (h : HoldsTwice sh req) (approved : Bool)
    (c : Completion) : ¬ DistinctKeys (sh.apply approved req c).sequencer.gapPool.held := by
  obtain ⟨hk, ⟨x, hx, hgap⟩, hroom, r, hr, hrref, hrseq⟩ := h
  have hx' : sh.oms.find req.execReport.ref = some x := hx
  have hpool : (sh.apply approved req c).sequencer.gapPool =
      (sh.sequencer.gapPool.hold req.execReport).2 := by
    simp only [Shard.apply, hk, Shard.applyReport]
    rw [sh.sequencer.process_of_gap sh.oms hx' hgap]
    rfl
  rw [GapPool.heldCount_eq] at hroom
  rcases sh.sequencer.gapPool.hold_eq req.execReport with ⟨hfalse, _⟩ | ⟨_, hperm⟩
  · rw [GapPool.hold_of_room _ _ hroom] at hfalse
    cases hfalse
  · intro hd
    rw [hpool] at hd
    have hcons := List.nodup_cons.mp (hd.perm hperm)
    apply hcons.1
    refine List.mem_map.mpr ⟨r, hr, ?_⟩
    simp only [ExecReport.key, Request.execReport, hrref, hrseq]

namespace ShardedOms

def KeepsGaps (s : ShardedOms) : Event → Prop
  | .request req _ =>
    ¬ Orphans (s.shards (s.shardOf req.ref)) req ∧ ¬ HoldsTwice (s.shards (s.shardOf req.ref)) req
  | _ => True

def GapsOk (s : ShardedOms) : Prop :=
  ∀ i, GapInv (s.shards i).oms (s.shards i).sequencer.gapPool.held

theorem GapsOk.step {s : ShardedOms} (h : GapsOk s) {e : Event} (hp : KeepsGaps s e) :
    GapsOk (s.step e) := by
  intro i
  cases e with
  | request req cell =>
    by_cases hi : i = s.shardOf req.ref
    · subst hi
      unfold ShardedOms.step
      rw [apply_oms, apply_sequencer]
      exact (h _).of_request _ req _ hp.1 hp.2
    · unfold ShardedOms.step
      rw [apply_shards_of_ne _ hi]
      exact h i
  | snapshot shard capacity cell =>
    obtain ⟨homs, hseq⟩ := s.step_snapshot shard capacity cell i
    rw [homs, hseq]
    exact h i
  | haltGlobally reason => exact h i

theorem not_onlyApplicable_step {s : ShardedOms} {e : Event} (hp : ¬ KeepsGaps s e) :
    ¬ ∀ i, OnlyApplicable ((s.step e).shards i) := by
  cases e with
  | request req cell =>
    have hbad : Orphans (s.shards (s.shardOf req.ref)) req ∨
        HoldsTwice (s.shards (s.shardOf req.ref)) req := by
      by_contra hn
      exact hp (not_or.mp hn)
    intro hall
    have hok := hall (s.shardOf req.ref)
    unfold OnlyApplicable at hok
    rw [show s.step (.request req cell) = s.apply (s.shardOf req.ref) req cell from rfl,
      apply_oms, apply_sequencer] at hok
    rcases hbad with ho | ht
    · obtain ⟨r, hr, hnone⟩ := ho.not_applicable s.engine.standingApproval (s.completions cell)
      obtain ⟨x, hx, _⟩ := hok.1 r hr
      unfold answer at hx
      rw [hnone] at hx
      cases hx
    · exact ht.not_distinct s.engine.standingApproval (s.completions cell) hok.2.1
  | snapshot shard capacity cell => exact absurd trivial hp
  | haltGlobally reason => exact absurd trivial hp

/-- A system as constructed, with or without a journal. -/
def boot (shardCount : Nat) (h : 0 < shardCount)
    (capacity logCapacity gapPoolCapacity terminalCacheCapacity : Nat) (hook : Option WalHook) :
    ShardedOms :=
  { new shardCount h capacity logCapacity gapPoolCapacity terminalCacheCapacity with walHook := hook }

/-- In every run from a fresh system, the pools hold only applicable reports throughout if
and only if no request ends an order that has held reports outside the sequencer and no
report is held while it is already held. -/
theorem gapPools_applicable_iff (shardCount : Nat) (hpos : 0 < shardCount)
    (capacity logCapacity gapPoolCapacity terminalCacheCapacity : Nat) (hook : Option WalHook)
    (events : List Event) :
    Runs.Throughout step (fun s => ∀ i, OnlyApplicable (s.shards i))
        (boot shardCount hpos capacity logCapacity gapPoolCapacity terminalCacheCapacity hook) events ↔
      Runs.Along step KeepsGaps
        (boot shardCount hpos capacity logCapacity gapPoolCapacity terminalCacheCapacity hook)
        events := by
  apply Runs.throughout_iff_along_of_invariant (I := GapsOk)
  · intro s h i
    exact (h i).onlyApplicable
  · intro s e h hp
    exact h.step hp
  · intro s e _ hp
    exact not_onlyApplicable_step hp
  · intro i
    have hempty : ((boot shardCount hpos capacity logCapacity gapPoolCapacity terminalCacheCapacity
        hook).shards i).sequencer.gapPool.held = [] := GapPool.held_new gapPoolCapacity
    rw [hempty]
    exact ⟨fun r hr => absurd hr List.not_mem_nil, List.nodup_nil⟩

def acknowledgedOrder : List Event :=
  [.request { kind := .create, ref := ⟨1, 1⟩, volume := 10 } 0,
    .request { kind := .transition, ref := ⟨1, 1⟩, target := .sent } 0,
    .request { kind := .transition, ref := ⟨1, 1⟩, target := .acknowledged } 0]

def earlyFill : Event :=
  .request { kind := .report, ref := ⟨1, 1⟩, venueSeq := 2, reportKind := .fill, volume := 4 } 0

theorem gapPools_applicable_iff_earlyFill :
    Runs.Throughout step (fun s => ∀ i, OnlyApplicable (s.shards i))
      (boot 1 Nat.one_pos 4 16 4 4 none)
      [.request { kind := .create, ref := ⟨1, 1⟩, volume := 10 } 0, earlyFill] := by
  refine (gapPools_applicable_iff 1 Nat.one_pos 4 16 4 4 none _).mpr ⟨⟨?_, ?_⟩, ⟨?_, ?_⟩, trivial⟩
  · rintro ⟨_, _, _, ⟨hk, _⟩ | ⟨hk, _⟩⟩ <;> cases hk
  · rintro ⟨hk, _⟩
    cases hk
  · rintro ⟨_, _, _, ⟨hk, _⟩ | ⟨hk, _⟩⟩ <;> cases hk
  · rintro ⟨_, _, _, r, hr, _⟩
    have hnil : (((boot 1 Nat.one_pos 4 16 4 4 none).step
        (.request { kind := .create, ref := ⟨1, 1⟩, volume := 10 } 0)).shards 0).sequencer.gapPool.held =
        [] := by decide +kernel
    have hr' : r ∈ (((boot 1 Nat.one_pos 4 16 4 4 none).step
        (.request { kind := .create, ref := ⟨1, 1⟩, volume := 10 } 0)).shards 0).sequencer.gapPool.held :=
      hr
    rw [hnil] at hr'
    cases hr'

/-- A retransmission is held twice. And a fill that is held when its order is cancelled on
the direct path is applied to the next order of the same reference: the second order has 4
lots filled although no fill was reported for it. -/
theorem gapPools_not_applicable :
    ¬ (∀ events, Runs.Throughout step (fun s => ∀ i, OnlyApplicable (s.shards i))
      (boot 1 Nat.one_pos 4 16 4 4 none) events) ∧
    ((Runs.run step (boot 1 Nat.one_pos 4 32 4 4 none)
      (acknowledgedOrder ++ [earlyFill,
        .request { kind := .transition, ref := ⟨1, 1⟩, target := .cancelPending } 0,
        .request { kind := .transition, ref := ⟨1, 1⟩, target := .cancelled } 0,
        .request { kind := .create, ref := ⟨1, 1⟩, volume := 10 } 0,
        .request { kind := .transition, ref := ⟨1, 1⟩, target := .sent } 0,
        .request { kind := .report, ref := ⟨1, 1⟩, venueSeq := 1, reportKind := .ack } 0])).order
      ⟨1, 1⟩).map Order.filledVolume = some 4 := by
  constructor
  · intro h
    have hlast := (h (acknowledgedOrder ++ [earlyFill, earlyFill])).last 0
    have hd := hlast.2.1
    revert hd
    decide +kernel
  · decide +kernel

end ShardedOms

end MicrostructureEngine
