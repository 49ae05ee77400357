import MicrostructureEngine.Oms.Cascade
import MicrostructureEngine.Lib.MapSum
import MicrostructureEngine.Lib.Runs

/-!
# Arrival-order convergence

The proof predicts the end from the middle. Given the store, the held reports and the
reports that are still to come, the outlook of a reference is where its order ends up
when all of them are settled in sequence order. Delivering one report changes no outlook;
the outlook before the first report does not depend on the arrival order, and after the
last report it is the store itself.
-/

namespace MicrostructureEngine

open scoped List
set_option autoImplicit false

/-- One call of `process`, its outcome dropped. -/
def deliver (s : ReportSequencer × Oms) (report : ExecReport) : ReportSequencer × Oms :=
  (s.1.process s.2 report).2

def outlookOrder (o : Oms) (pending : List ExecReport) (ref : BrokerOrderRef) : Option Order :=
  (o.find ref).bind fun x => (settle pending x).after

def outlookDelta (o : Oms) (pending : List ExecReport) (ref : BrokerOrderRef) : Int :=
  (o.find ref).elim 0 fun x => (settle pending x).delta

noncomputable def outlookReserved (o : Oms) (pending : List ExecReport) : Int :=
  o.reservedExposure + ∑ ref, outlookDelta o pending ref

/-- Nothing can go wrong with the pool: no report competes with another, every report
still to come has room, and nothing in the pool should have been applied already. -/
structure Ready (s : ReportSequencer × Oms) (later : List ExecReport) : Prop where
  distinct : DistinctKeys (s.1.gapPool.held ++ later)
  room : s.1.gapPool.held.length + later.length ≤ s.1.gapPool.capacity
  drained : ∀ ref x, s.2.find ref = some x → nextHeld s.1.gapPool.held x = none

theorem outlook_congr {o o' : Oms} {pending pending' : List ExecReport} {ref : BrokerOrderRef}
    (hd : DistinctKeys pending) (hd' : DistinctKeys pending') (hfind : o'.find ref = o.find ref)
    (h : ∀ x, o.find ref = some x → ∀ r, r.ref = ref → x.lastAppliedSeq < r.venueSeq →
      (r ∈ pending' ↔ r ∈ pending)) :
    outlookOrder o' pending' ref = outlookOrder o pending ref ∧
      outlookDelta o' pending' ref = outlookDelta o pending ref := by
  unfold outlookOrder outlookDelta
  rw [hfind]
  cases hf : o.find ref with
  | none => exact ⟨rfl, rfl⟩
  | some x =>
    have href := o.find_ref hf
    exact settle_congr hd' hd fun r hr hlt => h x hf r (hr.trans href) hlt

/-- The outlook is the same before and after a delivery. -/
def KeepsOutlook (s s' : ReportSequencer × Oms) (pending pending' : List ExecReport) : Prop :=
  (∀ ref, outlookOrder s'.2 pending' ref = outlookOrder s.2 pending ref) ∧
    outlookReserved s'.2 pending' = outlookReserved s.2 pending

theorem keepsOutlook_of_congr {s s' : ReportSequencer × Oms} {pending pending' : List ExecReport}
    (hres : s'.2.reservedExposure = s.2.reservedExposure)
    (h : ∀ ref, outlookOrder s'.2 pending' ref = outlookOrder s.2 pending ref ∧
      outlookDelta s'.2 pending' ref = outlookDelta s.2 pending ref) :
    KeepsOutlook s s' pending pending' := by
  refine ⟨fun ref => (h ref).1, ?_⟩
  unfold outlookReserved
  rw [hres, Finset.sum_congr rfl fun ref _ => (h ref).2]

section Step
variable {s : ReportSequencer × Oms} {report : ExecReport} {later : List ExecReport}
  (h : Ready s (report :: later))
include h

theorem Ready.distinct_later : DistinctKeys (s.1.gapPool.held ++ later) :=
  h.distinct.sublist ((List.Sublist.refl _).append (List.sublist_cons_self _ _))

theorem Ready.distinct_front : DistinctKeys (report :: (s.1.gapPool.held ++ later)) :=
  h.distinct.perm List.perm_middle

/-- A report behind its order, or for no live order, is ignored. -/
theorem Ready.ignored (hs : deliver s report = s)
    (hold : ∀ x, s.2.find report.ref = some x → report.venueSeq ≤ x.lastAppliedSeq) :
    Ready (deliver s report) later ∧
      KeepsOutlook s (deliver s report) (s.1.gapPool.held ++ report :: later)
        ((deliver s report).1.gapPool.held ++ later) := by
  rw [hs]
  have hroom := h.room
  rw [List.length_cons] at hroom
  refine ⟨⟨h.distinct_later, by omega, h.drained⟩, keepsOutlook_of_congr rfl fun ref => ?_⟩
  apply outlook_congr h.distinct h.distinct_later rfl
  intro x hx r hr hlt
  have hne : r ≠ report := by
    rintro rfl
    rw [← hr] at hx
    have := hold x hx
    omega
  simp [hne]

theorem Ready.held {x : Order} (hf : s.2.find report.ref = some x)
    (hgap : x.lastAppliedSeq + 1 < report.venueSeq) :
    Ready (deliver s report) later ∧
      KeepsOutlook s (deliver s report) (s.1.gapPool.held ++ report :: later)
        ((deliver s report).1.gapPool.held ++ later) := by
  have hroom := h.room
  rw [List.length_cons] at hroom
  have hpool : (deliver s report).1.gapPool = (s.1.gapPool.hold report).2 ∧
      (deliver s report).2 = s.2 := by
    unfold deliver
    rw [s.1.process_of_gap s.2 hf hgap]
    exact ⟨rfl, rfl⟩
  have hperm : (deliver s report).1.gapPool.held ~ report :: s.1.gapPool.held := by
    rw [hpool.1]
    rcases s.1.gapPool.hold_eq report with ⟨hfalse, _⟩ | ⟨_, hp⟩
    · rw [s.1.gapPool.hold_of_room report (by omega)] at hfalse
      cases hfalse
    · exact hp
  have hall : (deliver s report).1.gapPool.held ++ later ~
      s.1.gapPool.held ++ report :: later := (hperm.append_right later).trans List.perm_middle.symm
  have hd := h.distinct.perm hall.symm
  refine ⟨⟨hd, ?_, ?_⟩, ?_⟩
  · rw [hperm.length_eq, hpool.1, GapPool.hold_capacity, List.length_cons]
    omega
  · intro ref y hy
    rw [hpool.2] at hy
    apply nextHeld_eq_none_iff.mpr
    rintro r hr ⟨href, hseq⟩
    rcases List.mem_cons.mp (hperm.mem_iff.mp hr) with rfl | hold
    · have hyref := s.2.find_ref hy
      rw [← hyref, ← href, hf, Option.some.injEq] at hy
      rw [← hy] at hseq
      omega
    · exact nextHeld_eq_none_iff.mp (h.drained ref y hy) r hold ⟨href, hseq⟩
  · apply keepsOutlook_of_congr (by rw [hpool.2])
    intro ref
    exact outlook_congr h.distinct hd (by rw [hpool.2]) fun _ _ r _ _ => hall.mem_iff

/-- A report in sequence settles together with the held reports it releases. -/
theorem Ready.applied {x : Order} (hf : s.2.find report.ref = some x)
    (hseq : report.venueSeq = x.lastAppliedSeq + 1) :
    Ready (deliver s report) later ∧
      KeepsOutlook s (deliver s report) (s.1.gapPool.held ++ report :: later)
        ((deliver s report).1.gapPool.held ++ later) := by
  have href := s.2.find_ref hf
  have hout := (s.1.process_inSeq s.2 hf hseq).2
  rw [← settle_cons href.symm hseq] at hout
  have hd := h.distinct_front
  have hdall : DistinctKeys ((report :: s.1.gapPool.held) ++ later) := hd
  have hdheld : DistinctKeys (report :: s.1.gapPool.held) :=
    hd.sublist ((List.sublist_append_left _ _).cons_cons report)
  obtain ⟨hsub, hother⟩ := settleLoop_held (report :: s.1.gapPool.held).length
    (report :: s.1.gapPool.held) x
  obtain ⟨hafter, hdelta⟩ := settleLoop_append (x := x)
    (Nat.le_refl (report :: s.1.gapPool.held).length) hdall
  have hdrained : ∀ y, (settle (report :: s.1.gapPool.held) x).after = some y →
      nextHeld (settle (report :: s.1.gapPool.held) x).held y = none :=
    fun y => settleLoop_drained (Nat.le_refl _) hdheld
  have hfold : ∀ l : List ExecReport, settleLoop l.length l x = settle l x := fun _ => rfl
  rw [hfold] at hsub hother hafter hdelta
  generalize settle (report :: s.1.gapPool.held) x = t at hout hsub hother hafter hdelta hdrained
  have hres := hout.effect.reserved
  have hpool := hout.held
  have hcap := hout.capacity
  have hself := hout.effect.find_self
  have hne : ∀ ref, ref ≠ report.ref → (deliver s report).2.find ref = s.2.find ref :=
    fun ref => hout.effect.find_of_ne
  change (deliver s report).2.reservedExposure = _ at hres
  change (deliver s report).1.gapPool.held = _ at hpool
  change (deliver s report).1.gapPool.capacity = _ at hcap
  change (deliver s report).2.find report.ref = _ at hself
  have hd' : DistinctKeys ((deliver s report).1.gapPool.held ++ later) := by
    rw [hpool]
    exact hd.sublist (hsub.append_right later)
  have hfront := settle_congr (x := x) h.distinct hd fun r _ _ => List.perm_middle.mem_iff
  -- Other orders keep their order and their pending reports.
  have hothers : ∀ ref, ref ≠ report.ref →
      outlookOrder (deliver s report).2 ((deliver s report).1.gapPool.held ++ later) ref =
          outlookOrder s.2 (s.1.gapPool.held ++ report :: later) ref ∧
        outlookDelta (deliver s report).2 ((deliver s report).1.gapPool.held ++ later) ref =
          outlookDelta s.2 (s.1.gapPool.held ++ report :: later) ref := by
    intro ref hr
    apply outlook_congr h.distinct hd' (hne ref hr)
    intro _ _ r hrref _
    have hrx : r.ref ≠ x.ref := by
      rw [hrref, href]
      exact hr
    have hrr : r ≠ report := by
      rintro rfl
      exact hr hrref.symm
    simp [hpool, hother r hrx, hrr]
  have hselfOrder : outlookOrder (deliver s report).2
      ((deliver s report).1.gapPool.held ++ later) report.ref =
      outlookOrder s.2 (s.1.gapPool.held ++ report :: later) report.ref := by
    unfold outlookOrder
    rw [hself, hpool, hf, Option.bind_some, hfront.1]
    exact hafter.symm
  have hselfDelta : outlookDelta s.2 (s.1.gapPool.held ++ report :: later) report.ref =
      t.delta + outlookDelta (deliver s report).2
        ((deliver s report).1.gapPool.held ++ later) report.ref := by
    unfold outlookDelta
    rw [hself, hpool, hf, Option.elim_some, hfront.2]
    exact hdelta
  have hlen := hsub.length_le
  have hroom := h.room
  simp only [List.length_cons] at hlen hroom
  refine ⟨⟨hd', by rw [hpool, hcap]; omega, ?_⟩, ?_, ?_⟩
  · intro ref y hy
    rw [hpool]
    by_cases hr : ref = report.ref
    · rw [hr, hself] at hy
      exact hdrained y hy
    · rw [hne ref hr] at hy
      have hyref := s.2.find_ref hy
      apply nextHeld_eq_none_iff.mpr
      rintro r hmem ⟨hrref, hrseq⟩
      have hrx : r.ref ≠ x.ref := by
        rw [hrref, hyref, href]
        exact hr
      have hrr : r ≠ report := by
        rintro rfl
        exact hr (by rw [hrref, hyref])
      have hold : r ∈ s.1.gapPool.held := by
        simpa [hrr] using (hother r hrx).mp hmem
      exact nextHeld_eq_none_iff.mp (h.drained ref y hy) r hold ⟨hrref, hrseq⟩
  · intro ref
    by_cases hr : ref = report.ref
    · rw [hr]
      exact hselfOrder
    · exact (hothers ref hr).1
  · have hsum := MapSum.sum_sub_eq report.ref fun ref hr => (hothers ref hr).2
    unfold outlookReserved
    omega

/-- One delivery: the pool stays ready and every outlook stays what it was. -/
theorem Ready.deliver :
    Ready (deliver s report) later ∧
      KeepsOutlook s (deliver s report) (s.1.gapPool.held ++ report :: later)
        ((deliver s report).1.gapPool.held ++ later) := by
  cases hf : s.2.find report.ref with
  | none =>
    apply h.ignored
    · unfold MicrostructureEngine.deliver
      rw [s.1.process_of_none s.2 hf]
    · intro x hx
      rw [hf] at hx
      cases hx
  | some x =>
    rcases Nat.lt_trichotomy report.venueSeq (x.lastAppliedSeq + 1) with hlt | heq | hgt
    · apply h.ignored
      · unfold MicrostructureEngine.deliver
        rw [s.1.process_of_le s.2 hf (by omega)]
      · intro y hy
        rw [hf, Option.some.injEq] at hy
        rw [← hy]
        omega
    · exact h.applied hf heq
    · exact h.held hf hgt

end Step

/-- A whole run ends where the outlook at its start said it would. -/
theorem run_deliver_outlook {s : ReportSequencer × Oms} {reports : List ExecReport}
    (h : Ready s reports) :
    (∀ ref, (Runs.run deliver s reports).2.find ref =
      outlookOrder s.2 (s.1.gapPool.held ++ reports) ref) ∧
    (Runs.run deliver s reports).2.reservedExposure =
      outlookReserved s.2 (s.1.gapPool.held ++ reports) := by
  induction reports generalizing s with
  | nil =>
    -- Nothing pending is in sequence, so every order is its own outlook.
    have hstop : ∀ ref, outlookOrder s.2 (s.1.gapPool.held ++ []) ref = s.2.find ref ∧
        outlookDelta s.2 (s.1.gapPool.held ++ []) ref = 0 := by
      intro ref
      unfold outlookOrder outlookDelta
      rw [List.append_nil]
      cases hf : s.2.find ref with
      | none => exact ⟨rfl, rfl⟩
      | some x => simp [settle_of_none (h.drained ref x hf)]
    refine ⟨fun ref => (hstop ref).1.symm, ?_⟩
    unfold outlookReserved
    rw [Finset.sum_congr rfl fun ref _ => (hstop ref).2]
    simp
  | cons report later ih =>
    obtain ⟨hready, hkeep⟩ := h.deliver
    obtain ⟨hfind, hres⟩ := ih hready
    refine ⟨?_, ?_⟩
    · intro ref
      rw [Runs.run_cons, hfind ref, hkeep.1 ref]
    · rw [Runs.run_cons, hres, hkeep.2]

theorem ready_of_empty {q : ReportSequencer} {o : Oms} {reports : List ExecReport}
    (hempty : q.gapPool.held = []) (hroom : reports.length ≤ q.gapPool.capacity)
    (hd : DistinctKeys reports) : Ready (q, o) reports where
  distinct := by
    rw [hempty]
    exact hd
  room := by
    rw [hempty]
    simpa using hroom
  drained := by
    intro ref x _
    rw [hempty]
    rfl

/-- Replaying the same reports in any arrival order converges: the final stores agree on
every order, `last_applied_seq` included, and on the reservation. -/
theorem arrival_order_converges (o : Oms) (q q' : ReportSequencer) (as bs : List ExecReport)
    (hperm : as ~ bs) (hdistinct : DistinctKeys as)
    (hempty : q.gapPool.held = []) (hroom : as.length ≤ q.gapPool.capacity)
    (hempty' : q'.gapPool.held = []) (hroom' : bs.length ≤ q'.gapPool.capacity) :
    (Runs.run deliver (q, o) as).2.find = (Runs.run deliver (q', o) bs).2.find ∧
      (Runs.run deliver (q, o) as).2.reservedExposure =
        (Runs.run deliver (q', o) bs).2.reservedExposure := by
  have hd' : DistinctKeys bs := hdistinct.perm hperm
  obtain ⟨hfind, hres⟩ := run_deliver_outlook (ready_of_empty (o := o) hempty hroom hdistinct)
  obtain ⟨hfind', hres'⟩ := run_deliver_outlook (ready_of_empty (o := o) hempty' hroom' hd')
  rw [hempty, List.nil_append] at hfind hres
  rw [hempty', List.nil_append] at hfind' hres'
  have hsame : ∀ ref, outlookOrder o as ref = outlookOrder o bs ref ∧
      outlookDelta o as ref = outlookDelta o bs ref :=
    fun ref => outlook_congr hd' hdistinct rfl fun _ _ r _ _ => hperm.mem_iff
  constructor
  · funext ref
    rw [hfind ref, hfind' ref, (hsame ref).1]
  · rw [hres, hres']
    unfold outlookReserved
    rw [Finset.sum_congr rfl fun ref _ => (hsame ref).2]

/-- An acknowledgement and a partial fill of a sent order, in both arrival orders. -/
theorem arrival_order_converges_ack_fill :
    (Runs.run deliver (.new 2 4, ((((Oms.new 1).create ⟨1, 1⟩ 0 10).2).transition ⟨1, 1⟩ .sent).2)
        [{ ref := ⟨1, 1⟩, venueSeq := 1, kind := .ack },
          { ref := ⟨1, 1⟩, venueSeq := 2, kind := .fill, volume := 4 }]).2.find =
      (Runs.run deliver (.new 2 4, ((((Oms.new 1).create ⟨1, 1⟩ 0 10).2).transition ⟨1, 1⟩ .sent).2)
        [{ ref := ⟨1, 1⟩, venueSeq := 2, kind := .fill, volume := 4 },
          { ref := ⟨1, 1⟩, venueSeq := 1, kind := .ack }]).2.find :=
  (arrival_order_converges _ _ _ _ _ (List.Perm.swap _ _ _) (by decide) (by decide) (by decide)
    (by decide) (by decide)).1

end MicrostructureEngine
