import MicrostructureEngine.Oms.OrderMap
import MicrostructureEngine.Oms.Settlement

/-!
# Refused calls

Every refusing path of the store gives the store back as it was, with one exception:
`fill` adds the volume before it asks the state machine, and does not take it back when
the answer is no. `StuckFill` names these calls; a call or a report that is refused
leaves the store unchanged exactly when it is not one of them.
-/

namespace MicrostructureEngine

set_option autoImplicit false

/-- Every live order, their number and the reservation are as before. -/
def Unchanged (o o' : Oms) : Prop :=
  o'.find = o.find ∧ o'.size = o.size ∧ o'.reservedExposure = o.reservedExposure

theorem Unchanged.refl (o : Oms) : Unchanged o o := ⟨rfl, rfl, rfl⟩

/-- A fill whose volume is in range for a live order that cannot be filled in its state. -/
def StuckFill (o : Oms) (ref : BrokerOrderRef) (volume : Int) : Prop :=
  ∃ x, o.find ref = some x ∧ Oms.fillable x volume ∧
    legal x.state (OmsState.fillTarget x volume) = false

/-- The report carries the next sequence number of its live order. -/
def InSequence (o : Oms) (report : ExecReport) : Prop :=
  ∃ x, o.find report.ref = some x ∧ report.venueSeq = x.lastAppliedSeq + 1

def ReportOutcome.refused : ReportOutcome → Bool
  | applied | heldForGap => false
  | _ => true

/-- Deliver the same report `n` times. -/
def redeliver (report : ExecReport) : Nat → ReportSequencer × Oms → ReportSequencer × Oms
  | 0, s => s
  | n + 1, s => redeliver report n (s.1.process s.2 report).2

/-- The volume a stuck fill leaves behind. -/
theorem StuckFill.filledVolume {o : Oms} {ref : BrokerOrderRef} {volume : Int}
    (h : StuckFill o ref volume) :
    (o.fill ref volume).1 = false ∧ 0 < volume ∧
      ∃ x y, o.find ref = some x ∧ (o.fill ref volume).2.find ref = some y ∧
        y.filledVolume = x.filledVolume + volume := by
  obtain ⟨x, hx, hv, hl⟩ := h
  obtain ⟨hfalse, he⟩ := o.fill_of_illegal hx hv hl
  exact ⟨hfalse, hv.1, x, Oms.addFill x volume, hx, he.find_self, rfl⟩

theorem StuckFill.not_unchanged {o : Oms} {ref : BrokerOrderRef} {volume : Int}
    (h : StuckFill o ref volume) : ¬ Unchanged o (o.fill ref volume).2 := by
  obtain ⟨_, hpos, x, y, hx, hy, hfilled⟩ := h.filledVolume
  rintro ⟨hfind, _, _⟩
  rw [hfind, hx, Option.some.injEq] at hy
  rw [hy] at hfilled
  omega

theorem fill_refused {o : Oms} {ref : BrokerOrderRef} {volume : Int}
    (hfalse : (o.fill ref volume).1 = false) (h : ¬ StuckFill o ref volume) :
    (o.fill ref volume).2 = o := by
  cases hf : o.find ref with
  | none => rw [o.fill_of_none hf]
  | some x =>
    by_cases hv : Oms.fillable x volume
    · cases hl : legal x.state (OmsState.fillTarget x volume) with
      | false => exact absurd ⟨x, hf, hv, hl⟩ h
      | true =>
        rw [(o.fill_effect hf hv hl).1] at hfalse
        cases hfalse
    · rw [o.fill_of_not_fillable hf hv]

theorem transition_refused {o : Oms} {ref : BrokerOrderRef} {next : OrderState}
    (hfalse : (o.transition ref next).1 = false) : (o.transition ref next).2 = o := by
  cases hf : o.find ref with
  | none => rw [o.transition_of_none hf]
  | some x =>
    cases hl : legal x.state next with
    | false => rw [o.transition_of_illegal hf hl]
    | true =>
      rw [(o.transition_effect hf hl).1] at hfalse
      cases hfalse

theorem replace_refused {o : Oms} {ref : BrokerOrderRef} {price volume : Int}
    (hfalse : (o.replace ref price volume).1 = false) : (o.replace ref price volume).2 = o := by
  unfold Oms.replace at hfalse ⊢
  split
  · rfl
  · split
    · rename_i hx hr
      simp [hx, hr] at hfalse
    · rfl

/-- A refused call that is not a stuck fill returns the very store it was given. -/
theorem apply_refused {o : Oms} {op : OmsOp} (hfalse : (o.apply op).1 = false)
    (h : ∀ ref volume, op = .fill ref volume → ¬ StuckFill o ref volume) :
    (o.apply op).2 = o := by
  cases op with
  | create ref symbol volume =>
    have hnone : ¬ (o.find ref = none ∧ o.size < o.capacity) := by
      rintro ⟨hf, hs⟩
      have hok := (o.create_effect symbol volume hf hs).1
      have hcall : (o.apply (.create ref symbol volume)).1 = (o.create ref symbol volume).1.isSome :=
        rfl
      rw [hcall, hok] at hfalse
      cases hfalse
    exact congrArg Prod.snd ((o.create_cases ref symbol volume).resolve_left hnone)
  | restore x =>
    have hnone : ¬ (o.find x.ref = none ∧ o.size < o.capacity ∧ Oms.restorable x) := by
      rintro ⟨hf, hs, hx⟩
      have hok := (o.restore_effect hf hs hx).1
      have hcall : (o.apply (.restore x)).1 = (o.restore x).1.isSome := rfl
      rw [hcall, hok] at hfalse
      cases hfalse
    exact congrArg Prod.snd ((o.restore_cases x).resolve_left hnone)
  | transition ref next => exact transition_refused hfalse
  | fill ref volume => exact fill_refused hfalse (h ref volume rfl)
  | recoverFill ref volume =>
    cases hf : o.find ref with
    | none => exact congrArg Prod.snd (o.recoverFill_of_none hf volume)
    | some x =>
      by_cases hv : Oms.fillable x volume
      · have hok : (o.apply (.recoverFill ref volume)).1 = true :=
          congrArg Prod.fst (o.recoverFill_eq hf hv)
        rw [hok] at hfalse
        cases hfalse
      · exact congrArg Prod.snd (o.recoverFill_of_not_fillable hf hv)
  | markUnknownOnRestart ref =>
    cases hf : o.find ref with
    | none => exact congrArg Prod.snd (o.markUnknownOnRestart_of_none hf)
    | some x =>
      cases ht : x.state.isTerminal with
      | true => exact congrArg Prod.snd (o.markUnknownOnRestart_of_terminal hf ht)
      | false =>
        have hok : (o.apply (.markUnknownOnRestart ref)).1 = true :=
          congrArg Prod.fst (o.markUnknownOnRestart_eq hf ht)
        rw [hok] at hfalse
        cases hfalse
  | resolveUnknown ref terminal =>
    cases hf : o.find ref with
    | none => exact congrArg Prod.snd (o.resolveUnknown_of_none hf terminal)
    | some x =>
      by_cases hg : x.state = .unknown ∧ terminal.isTerminal = true
      · have heq : o.apply (.resolveUnknown ref terminal) = o.transition ref terminal :=
          o.resolveUnknown_eq hf hg.1 hg.2
        rw [heq] at hfalse ⊢
        exact transition_refused hfalse
      · exact congrArg Prod.snd (o.resolveUnknown_of_refused hf hg)

namespace ReportSequencer

variable {q : ReportSequencer} {o : Oms} {report : ExecReport}

theorem applyKind_refused (hfalse : (applyKind o report).1 = false)
    (h : report.kind = .fill → ¬ StuckFill o report.ref report.volume) :
    (applyKind o report).2 = o := by
  unfold applyKind at hfalse ⊢
  cases hk : report.kind with
  | ack =>
    rw [hk] at hfalse
    exact transition_refused hfalse
  | fill =>
    rw [hk] at hfalse
    exact fill_refused hfalse (h hk)
  | cancelPending =>
    rw [hk] at hfalse
    exact transition_refused hfalse
  | cancelled =>
    rw [hk] at hfalse
    exact transition_refused hfalse
  | reject =>
    rw [hk] at hfalse
    exact transition_refused hfalse
  | replaceAck =>
    rw [hk] at hfalse
    exact replace_refused hfalse

/-- A refused report that is not an in-sequence stuck fill changes nothing at all. -/
theorem process_refused (hr : (q.process o report).1.refused = true)
    (h : report.kind = .fill → InSequence o report → ¬ StuckFill o report.ref report.volume) :
    (q.process o report).2 = (q, o) := by
  cases hf : o.find report.ref with
  | none => rw [q.process_of_none o hf]
  | some x =>
    rcases Nat.lt_trichotomy report.venueSeq (x.lastAppliedSeq + 1) with hlt | heq | hgt
    · rw [q.process_of_le o hf (by omega)]
    · have hin : InSequence o report := ⟨x, hf, heq⟩
      have hle : ¬ report.venueSeq ≤ x.lastAppliedSeq := by omega
      have hgt : ¬ report.venueSeq > x.lastAppliedSeq + 1 := by omega
      simp only [process, hf, if_neg hle, if_neg hgt] at hr ⊢
      cases hk : (applyKind o report).1 with
      | false =>
        have hone : q.applyOne o report = (.illegal, q, (applyKind o report).2) := by
          simp [applyOne, hk]
        simp only [hone, reduceCtorEq, if_false]
        rw [applyKind_refused hk fun hfill => h hfill hin]
      | true =>
        have hone : (q.applyOne o report).1 = .applied := by
          unfold applyOne
          simp only [hk, Bool.not_true, Bool.false_eq_true, if_false]
          split <;> rfl
        simp [hone, ReportOutcome.refused] at hr
    · rw [q.process_of_gap o hf hgt] at hr ⊢
      unfold holdReport at hr ⊢
      dsimp only at hr ⊢
      rcases q.gapPool.hold_eq report with ⟨_, hsame⟩ | ⟨htrue, _⟩
      · rw [hsame]
      · simp [htrue, ReportOutcome.refused] at hr

/-- A stuck fill report is classified illegal, and the fill has written its volume. -/
theorem process_stuckFill (hk : report.kind = .fill) (hin : InSequence o report)
    (hs : StuckFill o report.ref report.volume) :
    (q.process o report).1 = .illegal ∧
      (q.process o report).2 = (q, (o.fill report.ref report.volume).2) := by
  obtain ⟨x, hf, heq⟩ := hin
  have hle : ¬ report.venueSeq ≤ x.lastAppliedSeq := by omega
  have hgt : ¬ report.venueSeq > x.lastAppliedSeq + 1 := by omega
  have hone : q.applyOne o report = (.illegal, q, (o.fill report.ref report.volume).2) := by
    simp only [applyOne, applyKind, hk, hs.filledVolume.1, Bool.not_false, if_true]
  simp only [process, hf, if_neg hle, if_neg hgt, hone, reduceCtorEq, if_false, and_self]

end ReportSequencer

theorem redeliver_refused {q : ReportSequencer} {o : Oms} {report : ExecReport}
    (h : (q.process o report).2 = (q, o)) (n : Nat) : redeliver report n (q, o) = (q, o) := by
  induction n with
  | zero => rfl
  | succ n ih =>
    unfold redeliver
    rw [h, ih]

/-- When refused calls and refused reports leave the store as it was, and when redelivery
of a refused report is harmless: precisely when no stuck fill is involved. -/
theorem refused_unchanged_iff (o : Oms) :
    (∀ op, ((o.apply op).1 = false → Unchanged o (o.apply op).2) ↔
      ¬ ∃ ref volume, op = .fill ref volume ∧ StuckFill o ref volume) ∧
    (∀ (q : ReportSequencer) report,
      ((q.process o report).1.refused = true → Unchanged o (q.process o report).2.2) ↔
        ¬ (report.kind = .fill ∧ InSequence o report ∧ StuckFill o report.ref report.volume)) ∧
    (∀ (q : ReportSequencer) report,
      ((q.process o report).1.refused = true → ∀ n ref,
        ((redeliver report n (q, o)).2.find ref).map Order.filledVolume =
          (o.find ref).map Order.filledVolume) ↔
        ¬ (report.kind = .fill ∧ InSequence o report ∧ StuckFill o report.ref report.volume)) := by
  refine ⟨?_, ?_, ?_⟩
  · intro op
    constructor
    · rintro h ⟨ref, volume, rfl, hs⟩
      exact hs.not_unchanged (h hs.filledVolume.1)
    · intro h hfalse
      rw [apply_refused hfalse fun ref volume hop hs => h ⟨ref, volume, hop, hs⟩]
      exact Unchanged.refl o
  · intro q report
    constructor
    · rintro h ⟨hk, hin, hs⟩
      obtain ⟨hout, hres⟩ := ReportSequencer.process_stuckFill (q := q) hk hin hs
      have hun := h (by rw [hout]; rfl)
      rw [hres] at hun
      exact hs.not_unchanged hun
    · intro h hr
      rw [ReportSequencer.process_refused hr fun hk hin hs => h ⟨hk, hin, hs⟩]
      exact Unchanged.refl o
  · intro q report
    constructor
    · rintro h ⟨hk, hin, hs⟩
      -- One redelivery is enough to see the volume move.
      obtain ⟨hout, hres⟩ := ReportSequencer.process_stuckFill (q := q) hk hin hs
      have hone := h (by rw [hout]; rfl) 1 report.ref
      have hfirst : redeliver report 1 (q, o) = (q.process o report).2 := rfl
      obtain ⟨_, hpos, x, y, hx, hy, hfilled⟩ := hs.filledVolume
      rw [hfirst, hres, hx] at hone
      dsimp only at hone
      rw [hy, Option.map_some, Option.map_some, Option.some.injEq] at hone
      omega
    · intro h hr n ref
      have hfix := ReportSequencer.process_refused hr fun hk hin hs => h ⟨hk, hin, hs⟩
      rw [redeliver_refused hfix n]

/-- A new order of 10 lots that is filled before it is sent: `fill` answers `false` and
leaves 4 lots on the order; a fill report is refused the same way, again and again. -/
theorem refused_fill_changes_order :
    ¬ (∀ s m, Reaches s m → ∀ op, (s.apply op).1 = false → (s.apply op).2.find = s.find) ∧
    ¬ (∀ (q : ReportSequencer) (o : Oms) (report : ExecReport),
      (q.process o report).1.refused = true → ∀ n ref,
        ((redeliver report n (q, o)).2.find ref).map Order.filledVolume =
          (o.find ref).map Order.filledVolume) := by
  constructor
  · intro h
    have hreach : Reaches ((OmsState.new 1).apply (.create ⟨1, 1⟩ 0 10)).2 _ :=
      .call (.new (by decide : 1 < 2 ^ 32 - 2)) _
    have hfill := congrFun (h _ _ hreach (.fill ⟨1, 1⟩ 4) (by decide +kernel)) ⟨1, 1⟩
    revert hfill
    decide +kernel
  · intro h
    have hrun := h (.new 4 4) ((Oms.new 1).create ⟨1, 1⟩ 0 10).2
      { ref := ⟨1, 1⟩, venueSeq := 1, kind := .fill, volume := 4 } (by decide +kernel) 2 ⟨1, 1⟩
    revert hrun
    decide +kernel

end MicrostructureEngine
