import MicrostructureEngine.Oms.Sequencer

/-!
# What the calls do to one order

Every call that names a live order rewrites that order only, so its meaning is a function
of the order: a `Verdict` says whether the call succeeds, what is left of the order and
how the reservation moves. An execution report that arrives in sequence releases the held
reports behind it; `settle` computes the end of that cascade from the order and the held
reports alone, and `process` is shown to follow it.
-/

namespace MicrostructureEngine

open scoped List
set_option autoImplicit false

/-- `after = none` means that the order is terminal and its slot reclaimed. -/
structure Verdict where
  ok : Bool
  after : Option Order
  delta : Int
  deriving DecidableEq, Repr

namespace Verdict

def refuse (x : Order) : Verdict := ⟨false, some x, 0⟩

def transition (x : Order) (next : OrderState) : Verdict :=
  if legal x.state next then
    ⟨true, if next.isTerminal then none else some { x with state := next }, -OmsState.released x next⟩
  else refuse x

/-- A fill in range that the state machine refuses keeps the volume it has written. -/
def fill (x : Order) (volume : Int) : Verdict :=
  if Oms.fillable x volume then transition (Oms.addFill x volume) (OmsState.fillTarget x volume)
  else refuse x

def replace (x : Order) (price volume : Int) : Verdict :=
  if replaceable x volume then ⟨true, some (replaceOrder price volume x), 0⟩ else refuse x

def applyKind (x : Order) (report : ExecReport) : Verdict :=
  match report.kind with
  | .ack => transition x .acknowledged
  | .fill => fill x report.volume
  | .cancelPending => transition x .cancelPending
  | .cancelled => transition x .cancelled
  | .reject => transition x .rejected
  | .replaceAck => replace x report.price report.volume

def applyOne (x : Order) (report : ExecReport) : Verdict :=
  let v := applyKind x report
  if v.ok then { v with after := v.after.map (setSeq report.venueSeq) } else v

/-- Orders keep their reference, whatever happens to them. -/
def Keeps (x : Order) (v : Verdict) : Prop := ∀ y, v.after = some y → y.ref = x.ref

theorem refuse_keeps (x : Order) : Keeps x (refuse x) := by
  rintro y ⟨⟩
  rfl

theorem transition_keeps (x : Order) (next : OrderState) : Keeps x (transition x next) := by
  unfold transition
  split
  · intro y hy
    dsimp only at hy
    split at hy
    · cases hy
    · cases hy
      rfl
  · exact refuse_keeps x

theorem fill_keeps (x : Order) (volume : Int) : Keeps x (fill x volume) := by
  unfold fill
  split
  · exact transition_keeps (Oms.addFill x volume) _
  · exact refuse_keeps x

theorem replace_keeps (x : Order) (price volume : Int) : Keeps x (replace x price volume) := by
  unfold replace
  split
  · rintro y ⟨⟩
    rfl
  · exact refuse_keeps x

theorem applyKind_keeps (x : Order) (report : ExecReport) : Keeps x (applyKind x report) := by
  unfold applyKind
  split
  · exact transition_keeps x _
  · exact fill_keeps x _
  · exact transition_keeps x _
  · exact transition_keeps x _
  · exact transition_keeps x _
  · exact replace_keeps x _ _

theorem applyOne_keeps (x : Order) (report : ExecReport) : Keeps x (applyOne x report) := by
  unfold applyOne
  dsimp only
  split
  · intro y hy
    obtain ⟨z, hz, rfl⟩ := Option.map_eq_some_iff.mp hy
    exact applyKind_keeps x report z hz
  · exact applyKind_keeps x report

/-- No call but the sequencer writes `last_applied_seq`. -/
def KeepsSeq (x : Order) (v : Verdict) : Prop := ∀ y, v.after = some y → y.lastAppliedSeq = x.lastAppliedSeq

theorem refuse_keepsSeq (x : Order) : KeepsSeq x (refuse x) := by
  rintro y ⟨⟩
  rfl

theorem transition_keepsSeq (x : Order) (next : OrderState) : KeepsSeq x (transition x next) := by
  unfold transition
  split
  · intro y hy
    dsimp only at hy
    split at hy
    · cases hy
    · cases hy
      rfl
  · exact refuse_keepsSeq x

theorem fill_keepsSeq (x : Order) (volume : Int) : KeepsSeq x (fill x volume) := by
  unfold fill
  split
  · exact transition_keepsSeq (Oms.addFill x volume) _
  · exact refuse_keepsSeq x

theorem replace_keepsSeq (x : Order) (price volume : Int) : KeepsSeq x (replace x price volume) := by
  unfold replace
  split
  · rintro y ⟨⟩
    rfl
  · exact refuse_keepsSeq x

theorem applyKind_keepsSeq (x : Order) (report : ExecReport) : KeepsSeq x (applyKind x report) := by
  unfold applyKind
  split
  · exact transition_keepsSeq x _
  · exact fill_keepsSeq x _
  · exact transition_keepsSeq x _
  · exact transition_keepsSeq x _
  · exact transition_keepsSeq x _
  · exact replace_keepsSeq x _ _

theorem applyOne_ok (x : Order) (report : ExecReport) :
    (applyOne x report).ok = (applyKind x report).ok := by
  unfold applyOne
  dsimp only
  split <;> simp_all

theorem applyOne_refused {x : Order} {report : ExecReport} (h : (applyOne x report).ok = false) :
    applyOne x report = applyKind x report := by
  rw [applyOne_ok] at h
  simp [applyOne, h]

/-- An applied report leaves its sequence number on the order. -/
theorem applyOne_seq {x y : Order} {report : ExecReport} (hok : (applyOne x report).ok = true)
    (hy : (applyOne x report).after = some y) : y.lastAppliedSeq = report.venueSeq := by
  rw [applyOne_ok] at hok
  simp only [applyOne, hok, if_true] at hy
  obtain ⟨z, _, rfl⟩ := Option.map_eq_some_iff.mp hy
  rfl

/-- A refused call moves no reservation and keeps the order alive. -/
def RefusesInPlace (v : Verdict) : Prop := v.ok = false → v.delta = 0 ∧ v.after.isSome

theorem refuse_inPlace (x : Order) : RefusesInPlace (refuse x) := fun _ => ⟨rfl, rfl⟩

theorem transition_inPlace (x : Order) (next : OrderState) : RefusesInPlace (transition x next) := by
  unfold transition
  split
  · intro h
    cases h
  · exact refuse_inPlace x

theorem applyKind_inPlace (x : Order) (report : ExecReport) : RefusesInPlace (applyKind x report) := by
  have hfill : ∀ volume, RefusesInPlace (fill x volume) := by
    intro volume
    unfold fill
    split
    · exact transition_inPlace _ _
    · exact refuse_inPlace x
  have hreplace : ∀ price volume, RefusesInPlace (replace x price volume) := by
    intro price volume
    unfold replace
    split
    · intro h
      cases h
    · exact refuse_inPlace x
  unfold applyKind
  split
  · exact transition_inPlace x _
  · exact hfill _
  · exact transition_inPlace x _
  · exact transition_inPlace x _
  · exact transition_inPlace x _
  · exact hreplace _ _

/-- How a report moves the volumes of an order it leaves in place: not at all, by a fill in
range, or by an accepted replace above what is filled. -/
def MovesVolumes (x : Order) (report : ExecReport) (z : Order) : Prop :=
  (z.filledVolume = x.filledVolume ∧ z.requestedVolume = x.requestedVolume) ∨
  (report.kind = .fill ∧ Oms.fillable x report.volume ∧
    z.filledVolume = x.filledVolume + report.volume ∧ z.requestedVolume = x.requestedVolume) ∨
  ((applyKind x report).ok = true ∧ report.kind = .replaceAck ∧ x.filledVolume < report.volume ∧
    z.filledVolume = x.filledVolume ∧ z.requestedVolume = report.volume)

theorem transition_volumes {x z : Order} {next : OrderState}
    (hz : (transition x next).after = some z) :
    z.filledVolume = x.filledVolume ∧ z.requestedVolume = x.requestedVolume := by
  unfold transition refuse at hz
  split at hz
  · dsimp only at hz
    split at hz
    · cases hz
    · cases hz
      exact ⟨rfl, rfl⟩
  · cases hz
    exact ⟨rfl, rfl⟩

theorem applyKind_volumes {x z : Order} {report : ExecReport}
    (hz : (applyKind x report).after = some z) : MovesVolumes x report z := by
  unfold MovesVolumes
  unfold applyKind at hz ⊢
  split at hz
  case h_2 hkind =>
    unfold fill at hz
    split at hz
    · rename_i hin
      obtain ⟨hfilled, hrequested⟩ := transition_volumes hz
      exact .inr (.inl ⟨hkind, hin, hfilled, hrequested⟩)
    · cases hz
      exact .inl ⟨rfl, rfl⟩
  case h_6 hkind =>
    unfold replace at hz
    split at hz
    · rename_i hguard
      have hmore := hguard
      simp only [replaceable, Bool.and_eq_true, decide_eq_true_eq] at hmore
      cases hz
      refine .inr (.inr ⟨?_, hkind, hmore.2, rfl, rfl⟩)
      rw [replace, if_pos hguard]
    · cases hz
      exact .inl ⟨rfl, rfl⟩
  all_goals exact .inl (transition_volumes hz)

theorem applyOne_volumes {x z : Order} {report : ExecReport}
    (hz : (applyOne x report).after = some z) : MovesVolumes x report z := by
  unfold applyOne at hz
  dsimp only at hz
  split at hz
  · obtain ⟨y, hy, rfl⟩ := Option.map_eq_some_iff.mp hz
    have hmoves := applyKind_volumes hy
    exact hmoves
  · exact applyKind_volumes hz

/-- A live order that stays keeps its symbol and does not end. -/
theorem transition_lives {x z : Order} {next : OrderState} (hx : x.state.isTerminal = false)
    (hz : (transition x next).after = some z) :
    z.state.isTerminal = false ∧ z.symbolId = x.symbolId := by
  unfold transition refuse at hz
  split at hz
  · dsimp only at hz
    split at hz
    · cases hz
    · rename_i hnext
      cases hz
      exact ⟨by simpa using hnext, rfl⟩
  · cases hz
    exact ⟨hx, rfl⟩

theorem applyKind_lives {x z : Order} {report : ExecReport} (hx : x.state.isTerminal = false)
    (hz : (applyKind x report).after = some z) :
    z.state.isTerminal = false ∧ z.symbolId = x.symbolId := by
  unfold applyKind at hz
  split at hz
  case h_2 =>
    unfold fill at hz
    split at hz
    · have hadded : (Oms.addFill x report.volume).state.isTerminal = false := hx
      have hlives := transition_lives hadded hz
      exact hlives
    · cases hz
      exact ⟨hx, rfl⟩
  case h_6 =>
    unfold replace at hz
    split at hz
    · cases hz
      exact ⟨hx, rfl⟩
    · cases hz
      exact ⟨hx, rfl⟩
  all_goals exact transition_lives hx hz

theorem applyOne_lives {x z : Order} {report : ExecReport} (hx : x.state.isTerminal = false)
    (hz : (applyOne x report).after = some z) :
    z.state.isTerminal = false ∧ z.symbolId = x.symbolId := by
  unfold applyOne at hz
  dsimp only at hz
  split at hz
  · obtain ⟨y, hy, rfl⟩ := Option.map_eq_some_iff.mp hz
    have hlives := applyKind_lives hx hy
    exact hlives
  · exact applyKind_lives hx hz

end Verdict

namespace Oms

variable (o : Oms) {ref : BrokerOrderRef} {x : Order}

theorem Effect.refl (ref : BrokerOrderRef) : Effect o o ref (o.find ref) 0 :=
  ⟨(Function.update_eq_self ref o.find).symm, by omega, rfl⟩

/-- A call on `ref` answered and acted as the verdict says. -/
def Follows (ref : BrokerOrderRef) (r : Bool × Oms) (v : Verdict) : Prop :=
  r.1 = v.ok ∧ Effect o r.2 ref v.after v.delta

theorem follows_refuse (h : o.find ref = some x) : Follows o ref (false, o) (.refuse x) := by
  have he := Effect.refl o ref
  rw [h] at he
  exact ⟨rfl, he⟩

theorem transition_follows (h : o.find ref = some x) (next : OrderState) :
    Follows o ref (o.transition ref next) (.transition x next) := by
  unfold Verdict.transition
  cases hl : legal x.state next with
  | false =>
    rw [transition_of_illegal o h hl]
    exact follows_refuse o h
  | true => exact transition_effect o h hl

theorem fill_follows (h : o.find ref = some x) (volume : Int) :
    Follows o ref (o.fill ref volume) (.fill x volume) := by
  unfold Verdict.fill
  by_cases hv : fillable x volume
  · rw [if_pos hv, fill_eq_transition o h hv]
    have hm := o.modify_effect ref (f := (addFill · volume)) fun _ => rfl
    have hfind := hm.find_self
    rw [h, Option.map_some] at hfind
    obtain ⟨hok, he⟩ := transition_follows _ hfind (OmsState.fillTarget x volume)
    have hboth := hm.trans he
    rw [Int.zero_add] at hboth
    exact ⟨hok, hboth⟩
  · rw [if_neg hv, fill_of_not_fillable o h hv]
    exact follows_refuse o h

theorem replace_of_none (h : o.find ref = none) (price volume : Int) :
    o.replace ref price volume = (false, o) := by
  simp only [replace, h]

theorem replace_follows (h : o.find ref = some x) (price volume : Int) :
    Follows o ref (o.replace ref price volume) (.replace x price volume) := by
  unfold Verdict.replace replace
  simp only [h]
  cases hr : replaceable x volume with
  | false => exact follows_refuse o h
  | true =>
    have hm := o.modify_effect ref (f := replaceOrder price volume) fun _ => rfl
    rw [h, Option.map_some] at hm
    exact ⟨rfl, hm⟩

end Oms

namespace ReportSequencer

variable (q : ReportSequencer) (o : Oms) {x : Order}

theorem applyKind_follows {report : ExecReport} (h : o.find report.ref = some x) :
    Oms.Follows o report.ref (applyKind o report) (Verdict.applyKind x report) := by
  unfold applyKind Verdict.applyKind
  cases report.kind with
  | ack => exact o.transition_follows h _
  | fill => exact o.fill_follows h _
  | cancelPending => exact o.transition_follows h _
  | cancelled => exact o.transition_follows h _
  | reject => exact o.transition_follows h _
  | replaceAck => exact o.replace_follows h _ _

/-- `apply_one` on a live order: the outcome, the order map and the untouched pool. -/
theorem applyOne_follows {report : ExecReport} (h : o.find report.ref = some x) :
    (q.applyOne o report).1 = (if (Verdict.applyOne x report).ok then .applied else .illegal) ∧
      (q.applyOne o report).2.1.gapPool = q.gapPool ∧
      Oms.Effect o (q.applyOne o report).2.2 report.ref (Verdict.applyOne x report).after
        (Verdict.applyOne x report).delta := by
  obtain ⟨hok, he⟩ := applyKind_follows o h
  unfold applyOne Verdict.applyOne
  generalize applyKind o report = r at hok he ⊢
  generalize Verdict.applyKind x report = v at hok he ⊢
  obtain ⟨ok, o'⟩ := r
  obtain ⟨vok, after, delta⟩ := v
  dsimp only at hok he ⊢
  subst hok
  have hfind := he.find_self
  cases ok with
  | false => exact ⟨rfl, rfl, he⟩
  | true =>
    cases after with
    | none =>
      simp only [hfind]
      exact ⟨rfl, rfl, he⟩
    | some y =>
      simp only [hfind]
      have hm := o'.modify_effect report.ref (f := setSeq report.venueSeq) fun _ => rfl
      rw [hfind, Option.map_some] at hm
      have hboth := he.trans hm
      rw [Int.add_zero] at hboth
      exact ⟨rfl, rfl, hboth⟩

end ReportSequencer

/-- The end of a cascade: what is left of the order, the move of the reservation and the
reports that are still held. -/
structure Settled where
  after : Option Order
  delta : Int
  held : List ExecReport

/-- An in-sequence report, with `next` for the held reports it may release. -/
def consume (next : List ExecReport → Order → Settled) (held : List ExecReport) (x : Order)
    (report : ExecReport) : Settled :=
  let v := Verdict.applyOne x report
  if v.ok then
    match v.after with
    | none => ⟨none, v.delta, held.filter fun r => !(r.ref == x.ref)⟩
    | some y => ⟨(next held y).after, v.delta + (next held y).delta, (next held y).held⟩
  else ⟨v.after, v.delta, held⟩

/-- The held report that is next in sequence for the order. -/
def nextHeld (held : List ExecReport) (x : Order) : Option ExecReport :=
  held.find? (GapPool.wanted x.ref (x.lastAppliedSeq + 1))

def settleLoop : Nat → List ExecReport → Order → Settled
  | 0, held, x => ⟨some x, 0, held⟩
  | n + 1, held, x =>
    match nextHeld held x with
    | none => ⟨some x, 0, held⟩
    | some r =>
      consume (settleLoop n) (held.eraseP (GapPool.wanted x.ref (x.lastAppliedSeq + 1))) x r

/-- `drain` on one order: every round removes a held report, so their number bounds the rounds. -/
def settle (held : List ExecReport) (x : Order) : Settled := settleLoop held.length held x

/-- An in-sequence report of `process`, with everything it releases. -/
def arrive (held : List ExecReport) (x : Order) (report : ExecReport) : Settled :=
  consume settle held x report

theorem nextHeld_spec {held : List ExecReport} {x : Order} {r : ExecReport}
    (h : nextHeld held x = some r) :
    r ∈ held ∧ r.ref = x.ref ∧ r.venueSeq = x.lastAppliedSeq + 1 := by
  have hw := GapPool.wanted_iff.mp (List.find?_some h)
  exact ⟨List.mem_of_find?_eq_some h, hw.1, hw.2⟩

theorem length_eraseP_nextHeld {held : List ExecReport} {x : Order} {r : ExecReport}
    (h : nextHeld held x = some r) :
    (held.eraseP (GapPool.wanted x.ref (x.lastAppliedSeq + 1))).length + 1 = held.length := by
  have hmem := List.mem_of_find?_eq_some h
  have hlen := List.length_eraseP_of_mem hmem (List.find?_some h)
  have hpos := List.length_pos_of_mem hmem
  omega

namespace ReportSequencer

variable (q : ReportSequencer) (o : Oms)

/-- What a run of the sequencer did to the order under `ref` and to its pool. -/
structure Outcome (q : ReportSequencer) (o : Oms) (ref : BrokerOrderRef)
    (r : ReportSequencer × Oms) (t : Settled) : Prop where
  effect : Oms.Effect o r.2 ref t.after t.delta
  held : r.1.gapPool.held = t.held
  capacity : r.1.gapPool.capacity = q.gapPool.capacity

theorem drainLoop_outcome (fuel n : Nat) {ref : BrokerOrderRef} {x : Order}
    (hfuel : q.gapPool.held.length < fuel) (hn : q.gapPool.held.length ≤ n)
    (h : o.find ref = some x) :
    Outcome q o ref (drainLoop fuel q o ref) (settleLoop n q.gapPool.held x) := by
  induction fuel generalizing n q o x with
  | zero => omega
  | succ fuel ih =>
    have href := o.find_ref h
    subst href
    have hstop : Outcome q o x.ref (q, o) ⟨some x, 0, q.gapPool.held⟩ := by
      have he := Oms.Effect.refl o x.ref
      rw [h] at he
      exact ⟨he, rfl, rfl⟩
    unfold drainLoop
    simp only [h]
    cases ht : q.gapPool.take x.ref (x.lastAppliedSeq + 1) with
    | none =>
      have hnone : nextHeld q.gapPool.held x = none := by
        apply List.find?_eq_none.mpr
        intro r hr hw
        exact GapPool.take_eq_none_iff.mp ht r hr (GapPool.wanted_iff.mp hw)
      have hsame : settleLoop n q.gapPool.held x = ⟨some x, 0, q.gapPool.held⟩ := by
        cases n with
        | zero => rfl
        | succ n => simp only [settleLoop, hnone]
      rw [hsame]
      exact hstop
    | some taken =>
      obtain ⟨next, pool⟩ := taken
      obtain ⟨hfind, hpool⟩ := GapPool.take_find ht
      obtain ⟨hnref, _, _, hcap⟩ := GapPool.take_eq_some ht
      have hnext : nextHeld q.gapPool.held x = some next := hfind
      have hlen := length_eraseP_nextHeld hnext
      rw [← hpool] at hlen
      obtain ⟨m, rfl⟩ : ∃ m, n = m + 1 := ⟨n - 1, by omega⟩
      simp only [settleLoop, hnext, consume]
      rw [← hpool]
      rw [← hnref] at h ih ⊢
      obtain ⟨hout, hgap, he⟩ := applyOne_follows { q with gapPool := pool } o h
      generalize applyOne { q with gapPool := pool } o next = r at hout hgap he ⊢
      obtain ⟨outcome, q', o'⟩ := r
      dsimp only at hout hgap he ⊢
      subst hout
      cases hok : (Verdict.applyOne x next).ok with
      | false =>
        simp only [Bool.false_eq_true, if_false, ne_eq, reduceCtorEq, not_false_eq_true, if_true]
        exact ⟨he, by rw [hgap], by rw [hgap]; exact hcap⟩
      | true =>
        simp only [if_true, ne_eq, not_true_eq_false, if_false]
        have hfind' := he.find_self
        cases hafter : (Verdict.applyOne x next).after with
        | none =>
          -- The order is gone: one more iteration discards what is held for it.
          obtain ⟨f, rfl⟩ : ∃ f, fuel = f + 1 := ⟨fuel - 1, by omega⟩
          rw [hafter] at hfind' he
          unfold drainLoop
          simp only [hfind']
          refine ⟨he, ?_, ?_⟩
          · rw [hgap]
            exact GapPool.held_discardAllFor pool next.ref
          · rw [hgap]
            exact (GapPool.discardAllFor_capacity pool next.ref).trans hcap
        | some y =>
          rw [hafter] at hfind'
          have hrec := ih q' o' m (x := y) (by rw [hgap]; omega) (by rw [hgap]; omega) hfind'
          rw [hgap] at hrec
          refine ⟨he.trans hrec.effect, hrec.held, hrec.capacity.trans ?_⟩
          rw [hgap]
          exact hcap

/-- `apply_one` never touches the pool, whatever the report. -/
theorem applyOne_gapPool (report : ExecReport) : (q.applyOne o report).2.1.gapPool = q.gapPool := by
  unfold applyOne
  dsimp only
  split
  · rfl
  · split <;> rfl

/-- The loop of `drain` ends by itself: more iterations than held reports change nothing. -/
theorem drainLoop_fuel (fuel fuel' : Nat) (ref : BrokerOrderRef)
    (h : q.gapPool.held.length < fuel) (h' : q.gapPool.held.length < fuel') :
    drainLoop fuel q o ref = drainLoop fuel' q o ref := by
  induction fuel generalizing fuel' q o with
  | zero => omega
  | succ fuel ih =>
    obtain ⟨f, rfl⟩ : ∃ f, fuel' = f + 1 := ⟨fuel' - 1, by omega⟩
    unfold drainLoop
    cases hf : o.find ref with
    | none => rfl
    | some x =>
      cases ht : q.gapPool.take ref (x.lastAppliedSeq + 1) with
      | none => simp only [ht]
      | some taken =>
        obtain ⟨next, pool⟩ := taken
        simp only [ht]
        have hlen := (GapPool.take_eq_some ht).2.2.1.length_eq
        rw [List.length_cons] at hlen
        have hpool := applyOne_gapPool { q with gapPool := pool } o next
        split
        · rfl
        · exact ih _ _ f (by rw [hpool]; dsimp only; omega) (by rw [hpool]; dsimp only; omega)

theorem process_of_none {report : ExecReport} (h : o.find report.ref = none) :
    process q o report =
      (if q.terminalCache.contains report.ref then .terminalLate else .unknownOrder, q, o) := by
  simp only [process, h]

variable {x : Order} {report : ExecReport} (h : o.find report.ref = some x)
include h

theorem process_of_le (hle : report.venueSeq ≤ x.lastAppliedSeq) :
    process q o report = (.duplicate, q, o) := by
  simp only [process, h, if_pos hle]

theorem process_of_gap (hgap : x.lastAppliedSeq + 1 < report.venueSeq) :
    process q o report = q.holdReport o report := by
  have hle : ¬ report.venueSeq ≤ x.lastAppliedSeq := by omega
  simp only [process, h, if_neg hle, gt_iff_lt, if_pos hgap]

theorem process_inSeq (hseq : report.venueSeq = x.lastAppliedSeq + 1) :
    (process q o report).1 = (if (Verdict.applyOne x report).ok then .applied else .illegal) ∧
      Outcome q o report.ref (process q o report).2 (arrive q.gapPool.held x report) := by
  have hle : ¬ report.venueSeq ≤ x.lastAppliedSeq := by omega
  have hgt : ¬ report.venueSeq > x.lastAppliedSeq + 1 := by omega
  simp only [process, h, if_neg hle, if_neg hgt, arrive, consume]
  obtain ⟨hout, hpool, he⟩ := applyOne_follows q o h
  generalize q.applyOne o report = r at hout hpool he ⊢
  obtain ⟨outcome, q', o'⟩ := r
  dsimp only at hout hpool he ⊢
  subst hout
  have hfind := he.find_self
  have hzero : q'.gapPool.heldCount = 0 ↔ q.gapPool.held = [] := by
    rw [GapPool.heldCount_eq, hpool, List.length_eq_zero_iff]
  cases hok : (Verdict.applyOne x report).ok with
  | false =>
    simp only [Bool.false_eq_true, if_false, reduceCtorEq]
    exact ⟨trivial, he, by rw [hpool], by rw [hpool]⟩
  | true =>
    simp only [if_true]
    refine ⟨trivial, ?_⟩
    cases hafter : (Verdict.applyOne x report).after with
    | none =>
      rw [hafter] at hfind he
      have href := o.find_ref h
      unfold drain
      split
      · rename_i hcount
        rw [hzero] at hcount
        exact ⟨he, by rw [hpool, hcount]; rfl, by rw [hpool]⟩
      · unfold drainLoop
        simp only [hfind]
        refine ⟨he, ?_, ?_⟩
        · rw [hpool, href]
          exact GapPool.held_discardAllFor q.gapPool report.ref
        · rw [hpool]
          exact GapPool.discardAllFor_capacity q.gapPool report.ref
    | some y =>
      rw [hafter] at hfind he
      unfold drain
      split
      · rename_i hcount
        rw [hzero] at hcount
        rw [hcount]
        have hadd : (Verdict.applyOne x report).delta + 0 = (Verdict.applyOne x report).delta :=
          Int.add_zero _
        exact ⟨by rw [← hadd] at he; exact he, by rw [hpool, hcount]; rfl, by rw [hpool]⟩
      · have hrec := drainLoop_outcome q' o' (q'.gapPool.heldCount + 1) q'.gapPool.held.length
          (by rw [GapPool.heldCount_eq]; omega) (Nat.le_refl _) hfind
        have hsame : settleLoop q'.gapPool.held.length q'.gapPool.held y =
            settle q.gapPool.held y := by
          rw [hpool]
          rfl
        rw [hsame] at hrec
        exact ⟨he.trans hrec.effect, hrec.held,
          hrec.capacity.trans (congrArg GapPool.capacity hpool)⟩

end ReportSequencer

end MicrostructureEngine
