import MicrostructureEngine.Oms.Dispatch

/-!
# The desk of an order

What a shard keeps for one order: the order, the reports held for it, and whether it has ended.
A shard with room answers a request from the desk of its order, whatever else it keeps, and leaves
every other desk as it was.
-/

namespace MicrostructureEngine

open scoped List
set_option autoImplicit false

/-- Two reports for the same number of the same order say the same. -/
def Coherent (l : List ExecReport) : Prop := ∀ r ∈ l, ∀ r' ∈ l, r.key = r'.key → r = r'

instance (l : List ExecReport) : Decidable (Coherent l) :=
  inferInstanceAs (Decidable (∀ r ∈ l, ∀ r' ∈ l, r.key = r'.key → r = r'))

def heldFor (ref : BrokerOrderRef) (held : List ExecReport) : List ExecReport :=
  held.filter fun r => r.ref == ref

theorem mem_heldFor {ref : BrokerOrderRef} {held : List ExecReport} {r : ExecReport} :
    r ∈ heldFor ref held ↔ r ∈ held ∧ r.ref = ref := by
  unfold heldFor
  rw [List.mem_filter, beq_iff_eq]

theorem heldFor_cons_self {ref : BrokerOrderRef} {held : List ExecReport} {r : ExecReport} (h : r.ref = ref) :
    heldFor ref (r :: held) = r :: heldFor ref held :=
  List.filter_cons_of_pos (beq_iff_eq.mpr h)

theorem heldFor_cons_of_ne {ref : BrokerOrderRef} {held : List ExecReport} {r : ExecReport} (h : r.ref ≠ ref) :
    heldFor ref (r :: held) = heldFor ref held :=
  List.filter_cons_of_neg (by rwa [beq_iff_eq])

theorem heldFor_perm (ref : BrokerOrderRef) {held held' : List ExecReport} (h : held ~ held') :
    heldFor ref held ~ heldFor ref held' := h.filter _

/-- A report that is taken out was none of another order. -/
theorem heldFor_eraseP {ref other : BrokerOrderRef} (seq : Nat) (h : other ≠ ref) (held : List ExecReport) :
    heldFor other (held.eraseP (GapPool.wanted ref seq)) = heldFor other held := by
  induction held with
  | nil => rfl
  | cons r held ih =>
    cases hw : GapPool.wanted ref seq r with
    | true =>
      have href : r.ref ≠ other := fun he => h (he.symm.trans (GapPool.wanted_iff.mp hw).1)
      rw [List.eraseP_cons_of_pos hw, heldFor_cons_of_ne href]
    | false =>
      rw [List.eraseP_cons_of_neg (by rw [hw]; exact Bool.false_ne_true)]
      by_cases href : r.ref = other
      · rw [heldFor_cons_self href, heldFor_cons_self href, ih]
      · rw [heldFor_cons_of_ne href, heldFor_cons_of_ne href, ih]

theorem heldFor_discard {ref other : BrokerOrderRef} (h : other ≠ ref) (held : List ExecReport) :
    heldFor other (held.filter fun r => !(r.ref == ref)) = heldFor other held := by
  unfold heldFor
  rw [List.filter_filter]
  apply List.filter_congr
  intro r _
  cases hother : r.ref == other with
  | false => rfl
  | true =>
    have hne : (r.ref == ref) = false := by
      rw [beq_eq_false_iff_ne, beq_iff_eq.mp hother]
      exact h
    rw [hne]
    rfl

theorem heldFor_discard_self (ref : BrokerOrderRef) (held : List ExecReport) :
    heldFor ref (held.filter fun r => !(r.ref == ref)) = [] := by
  unfold heldFor
  rw [List.filter_filter]
  apply List.filter_eq_nil_iff.mpr
  intro r _
  cases r.ref == ref
  all_goals exact Bool.false_ne_true

/-! ## Cascades over the same held reports -/

section Cascade
variable {reports held held' : List ExecReport} {ref : BrokerOrderRef} {x : Order}

/-- Which report waits for a number depends on the reports of the order only. -/
theorem find_wanted_alike (hcoherent : Coherent reports) (hheld : held ⊆ reports) (hheld' : held' ⊆ reports)
    (h : heldFor ref held ~ heldFor ref held') (seq : Nat) :
    held.find? (GapPool.wanted ref seq) = held'.find? (GapPool.wanted ref seq) := by
  have hmem : ∀ r, GapPool.wanted ref seq r = true → (r ∈ held ↔ r ∈ held') := by
    intro r hw
    have href := (GapPool.wanted_iff.mp hw).1
    constructor
    · intro hr
      exact (mem_heldFor.mp (h.mem_iff.mp (mem_heldFor.mpr ⟨hr, href⟩))).1
    · intro hr
      exact (mem_heldFor.mp (h.mem_iff.mpr (mem_heldFor.mpr ⟨hr, href⟩))).1
  cases hfind : held.find? (GapPool.wanted ref seq) with
  | none =>
    symm
    apply List.find?_eq_none.mpr
    intro r hr hw
    exact List.find?_eq_none.mp hfind r ((hmem r hw).mpr hr) hw
  | some r =>
    have hr := List.mem_of_find?_eq_some hfind
    have hw := List.find?_some hfind
    cases hfind' : held'.find? (GapPool.wanted ref seq) with
    | none => exact absurd hw (List.find?_eq_none.mp hfind' r ((hmem r hw).mp hr))
    | some r' =>
      have hr' := List.mem_of_find?_eq_some hfind'
      have hw' := List.find?_some hfind'
      have hkey : r.key = r'.key := by
        obtain ⟨href, hseq⟩ := GapPool.wanted_iff.mp hw
        obtain ⟨href', hseq'⟩ := GapPool.wanted_iff.mp hw'
        unfold ExecReport.key
        rw [href, hseq, href', hseq']
      rw [hcoherent r (hheld hr) r' (hheld' hr') hkey]

/-- Two ends of a cascade that agree on everything about the order. -/
structure Settled.Alike (ref : BrokerOrderRef) (t t' : Settled) : Prop where
  same : t.Same t'
  held : heldFor ref t.held ~ heldFor ref t'.held

theorem consume_alike {next next' : List ExecReport → Order → Settled} {r : ExecReport} (href : x.ref = ref)
    (hheld : heldFor ref held ~ heldFor ref held')
    (h : ∀ y, (Verdict.applyOne x r).ok = true → (Verdict.applyOne x r).after = some y →
      (next held y).Alike ref (next' held' y)) :
    (consume next held x r).Alike ref (consume next' held' x r) := by
  refine ⟨consume_same fun y hok hy => (h y hok hy).same, ?_⟩
  unfold consume
  dsimp only
  split
  case isTrue hok =>
    split
    case h_1 =>
      rw [href, heldFor_discard_self, heldFor_discard_self]
    case h_2 y hy => exact (h y hok hy).held
  case isFalse => exact hheld

theorem settleLoop_alike {n m : Nat} (hcoherent : Coherent reports) (hn : held.length ≤ n) (hm : held'.length ≤ m)
    (href : x.ref = ref) (hsub : held ⊆ reports) (hsub' : held' ⊆ reports)
    (h : heldFor ref held ~ heldFor ref held') :
    (settleLoop n held x).Alike ref (settleLoop m held' x) := by
  induction n generalizing m held held' x with
  | zero =>
    have hnil : held = [] := List.length_eq_zero_iff.mp (by omega)
    have hnone : nextHeld held' x = none := by
      unfold nextHeld
      rw [href, ← find_wanted_alike hcoherent hsub hsub' h, hnil]
      rfl
    rw [settleLoop_of_none hnone m]
    exact ⟨⟨rfl, rfl⟩, h⟩
  | succ n ih =>
    have hnext : nextHeld held x = nextHeld held' x := by
      unfold nextHeld
      rw [href]
      exact find_wanted_alike hcoherent hsub hsub' h _
    cases hr : nextHeld held x with
    | none =>
      rw [settleLoop_of_none hr, settleLoop_of_none (hnext ▸ hr)]
      exact ⟨⟨rfl, rfl⟩, h⟩
    | some r =>
      have hr' : nextHeld held' x = some r := hnext ▸ hr
      have hlen := length_eraseP_nextHeld hr
      have hlen' := length_eraseP_nextHeld hr'
      obtain ⟨k, rfl⟩ : ∃ k, m = k + 1 := ⟨m - 1, by omega⟩
      have hrref : r.ref = ref := (nextHeld_spec hr).2.1.trans href
      have hrest : heldFor ref (held.eraseP (GapPool.wanted x.ref (x.lastAppliedSeq + 1))) ~
          heldFor ref (held'.eraseP (GapPool.wanted x.ref (x.lastAppliedSeq + 1))) := by
        have hfront := heldFor_perm ref (eraseP_nextHeld_perm hr)
        have hfront' := heldFor_perm ref (eraseP_nextHeld_perm hr')
        rw [heldFor_cons_self hrref] at hfront hfront'
        exact List.Perm.cons_inv (hfront.symm.trans (h.trans hfront'))
      simp only [settleLoop, hr, hr']
      apply consume_alike href hrest
      intro y hok hy
      have hyref := (applyOne_next hok hy (nextHeld_spec hr).2.2).1
      exact ih (by omega) (by omega) (hyref.trans href) (fun r hr => hsub (List.mem_of_mem_eraseP hr))
        (fun r hr => hsub' (List.mem_of_mem_eraseP hr)) hrest

theorem arrive_alike (hcoherent : Coherent reports) (href : x.ref = ref) (hsub : held ⊆ reports) (hsub' : held' ⊆ reports)
    (h : heldFor ref held ~ heldFor ref held') (report : ExecReport) :
    (arrive held x report).Alike ref (arrive held' x report) := by
  unfold arrive
  apply consume_alike href h
  intro y _ hy
  exact settleLoop_alike hcoherent (Nat.le_refl _) (Nat.le_refl _)
    ((Verdict.applyOne_keeps x report y hy).trans href) hsub hsub' h

theorem consume_held_other {next : List ExecReport → Order → Settled} {other : BrokerOrderRef} {r : ExecReport}
    (hne : other ≠ x.ref)
    (h : ∀ y, (Verdict.applyOne x r).after = some y → heldFor other (next held y).held = heldFor other held) :
    heldFor other (consume next held x r).held = heldFor other held := by
  unfold consume
  dsimp only
  split
  case isTrue =>
    split
    case h_1 => exact heldFor_discard hne held
    case h_2 y hy => exact h y hy
  case isFalse => rfl

/-- A cascade leaves the held reports of other orders where they are. -/
theorem settleLoop_held_other {n : Nat} {other : BrokerOrderRef} (hne : other ≠ x.ref) :
    heldFor other (settleLoop n held x).held = heldFor other held := by
  induction n generalizing held x with
  | zero => rfl
  | succ n ih =>
    cases hr : nextHeld held x with
    | none => rw [settleLoop_of_none hr]
    | some r =>
      simp only [settleLoop, hr]
      rw [consume_held_other hne]
      · exact heldFor_eraseP _ hne held
      · intro y hy
        apply ih
        rw [Verdict.applyOne_keeps x r y hy]
        exact hne

theorem arrive_held_other {other : BrokerOrderRef} (hne : other ≠ x.ref) (report : ExecReport) :
    heldFor other (arrive held x report).held = heldFor other held := by
  unfold arrive
  apply consume_held_other hne
  intro y hy
  apply settleLoop_held_other
  rw [Verdict.applyOne_keeps x report y hy]
  exact hne

end Cascade

/-! ## The ring of ended orders -/

namespace TerminalCache

/-- As long as the ring has not wrapped, it keeps whatever was recorded. -/
theorem contains_record {t : TerminalCache} (hwrite : t.write = t.count) (hroom : t.count < t.capacity)
    (ref r : BrokerOrderRef) : (t.record ref).contains r = (t.contains r || ref == r) := by
  have hcount : (t.record ref).count = t.count + 1 := if_pos hroom
  have hslot : t.write % t.capacity = t.count := by
    rw [hwrite]
    exact Nat.mod_eq_of_lt hroom
  have hring : (t.record ref).ring = Function.update t.ring t.count ref := by
    unfold record
    rw [hslot]
  have hold : (List.range t.count).any (fun i => (t.record ref).ring i == r) = t.contains r := by
    unfold contains
    rw [Bool.eq_iff_iff, List.any_eq_true, List.any_eq_true]
    apply exists_congr
    intro i
    apply and_congr_right
    intro hi
    rw [hring, Function.update_of_ne (Nat.ne_of_lt (List.mem_range.mp hi))]
  unfold contains at hold ⊢
  rw [hcount, List.range_succ, List.any_append, hold, List.any_cons, List.any_nil, hring, Function.update_self,
    Bool.or_false]

end TerminalCache

namespace ReportSequencer

variable {q : ReportSequencer} {o : Oms} {ref : BrokerOrderRef} {x : Order}

/-- The ring is written once, if the order is gone. -/
def Records (q : ReportSequencer) (ref : BrokerOrderRef) (r : ReportSequencer × Oms) : Prop :=
  r.1.terminalCache = if r.2.find ref = none then q.terminalCache.record ref else q.terminalCache

theorem Records.of_live {r : ReportSequencer × Oms} (hcache : r.1.terminalCache = q.terminalCache) {y : Order}
    (h : r.2.find ref = some y) : Records q ref r := by
  unfold Records
  rw [if_neg (by rw [h]; exact Option.some_ne_none y)]
  exact hcache

theorem applyOne_records (q : ReportSequencer) (report : ExecReport) (h : o.find report.ref = some x) :
    Records q report.ref (q.applyOne o report).2 := by
  obtain ⟨hok, heff⟩ := applyKind_follows o h
  have hfind := heff.find_self
  unfold applyOne
  dsimp only
  split
  case isTrue hrefused =>
    have hverdict : (Verdict.applyKind x report).ok = false := by
      rw [← hok]
      simpa using hrefused
    obtain ⟨y, hy⟩ := Option.isSome_iff_exists.mp (Verdict.applyKind_inPlace x report hverdict).2
    exact .of_live rfl (hfind.trans hy)
  case isFalse =>
    cases hy : (Verdict.applyKind x report).after with
    | none =>
      rw [hy] at hfind
      rw [hfind]
      unfold Records
      rw [if_pos hfind]
    | some y =>
      rw [hy] at hfind
      rw [hfind]
      have hm := (applyKind o report).2.modify_effect report.ref (f := setSeq report.venueSeq) fun _ => rfl
      rw [hfind] at hm
      exact .of_live rfl hm.find_self

theorem drainLoop_records (fuel : Nat) :
    ∀ (q : ReportSequencer) (o : Oms) {x : Order}, o.find ref = some x → Records q ref (drainLoop fuel q o ref) := by
  induction fuel with
  | zero =>
    intro q o x h
    exact .of_live rfl h
  | succ fuel ih =>
    intro q o x h
    unfold drainLoop
    simp only [h]
    cases ht : q.gapPool.take ref (x.lastAppliedSeq + 1) with
    | none => exact .of_live rfl h
    | some taken =>
      obtain ⟨next, pool⟩ := taken
      have hnext := (GapPool.take_eq_some ht).1
      have hone := applyOne_records (o := o) (x := x) { q with gapPool := pool } next (by rw [hnext]; exact h)
      rw [hnext] at hone
      dsimp only
      split
      case isTrue => exact hone
      case isFalse =>
        generalize applyOne { q with gapPool := pool } o next = r at hone ⊢
        cases hfind : r.2.2.find ref with
        | none =>
          -- The loop only discards what is held for the order that is gone.
          unfold Records at hone
          rw [if_pos hfind] at hone
          cases fuel with
          | zero =>
            unfold drainLoop Records
            rw [if_pos hfind]
            exact hone
          | succ fuel =>
            unfold drainLoop
            simp only [hfind]
            unfold Records
            rw [if_pos hfind]
            exact hone
        | some y =>
          have hrest := ih r.2.1 r.2.2 hfind
          unfold Records at hone hrest ⊢
          rw [if_neg (by rw [hfind]; exact Option.some_ne_none y)] at hone
          rw [hone] at hrest
          exact hrest

theorem process_records {report : ExecReport} (h : o.find report.ref = some x) :
    Records q report.ref (q.process o report).2 := by
  unfold process
  simp only [h]
  split
  case isTrue => exact .of_live rfl h
  case isFalse =>
    split
    case isTrue => exact .of_live rfl h
    case isFalse =>
      have hone := applyOne_records q report h
      generalize q.applyOne o report = r at hone ⊢
      split
      case isFalse => exact hone
      case isTrue =>
        unfold drain
        split
        case isTrue => exact hone
        case isFalse =>
          cases hfind : r.2.2.find report.ref with
          | none =>
            unfold Records at hone ⊢
            rw [if_pos hfind] at hone
            unfold drainLoop
            simp only [hfind]
            rw [if_pos trivial]
            exact hone
          | some y =>
            have hrest := drainLoop_records (r.2.1.gapPool.heldCount + 1) r.2.1 r.2.2 hfind
            unfold Records at hone hrest ⊢
            rw [if_neg (by rw [hfind]; exact Option.some_ne_none y)] at hone
            rw [hone] at hrest
            exact hrest

end ReportSequencer

/-! ## Two shards with the same desk -/

structure SameDesk (ref : BrokerOrderRef) (q q' : ReportSequencer) (o o' : Oms) : Prop where
  order : o.find ref = o'.find ref
  held : heldFor ref q.gapPool.held ~ heldFor ref q'.gapPool.held
  ended : q.terminalCache.contains ref = q'.terminalCache.contains ref

/-- There is a free slot for an order, one for a report and one for an ended order. -/
structure Roomy (q : ReportSequencer) (o : Oms) : Prop where
  store : o.size < o.capacity
  pool : q.gapPool.held.length < q.gapPool.capacity
  ring : q.terminalCache.count < q.terminalCache.capacity

instance (q : ReportSequencer) (o : Oms) : Decidable (Roomy q o) :=
  decidable_of_iff (o.size < o.capacity ∧ q.gapPool.held.length < q.gapPool.capacity ∧
    q.terminalCache.count < q.terminalCache.capacity)
    ⟨fun h => ⟨h.1, h.2.1, h.2.2⟩, fun h => ⟨h.store, h.pool, h.ring⟩⟩

/-- Only `reports` are held, and the ring has not wrapped. -/
structure Tidy (reports : List ExecReport) (q : ReportSequencer) : Prop where
  held : q.gapPool.held ⊆ reports
  ring : q.terminalCache.write = q.terminalCache.count

/-- Both orders are moved alike. -/
def MovedAlike (ref : BrokerOrderRef) (o o' next next' : Oms) : Prop :=
  ∃ y delta, Oms.Effect o next ref y delta ∧ Oms.Effect o' next' ref y delta

section TwoShards
variable {reports : List ExecReport} {ref : BrokerOrderRef} {q q' : ReportSequencer} {o o' next next' : Oms}

theorem MovedAlike.refl (h : o.find ref = o'.find ref) : MovedAlike ref o o' o o' := by
  have heff := Oms.Effect.refl o' ref
  rw [← h] at heff
  exact ⟨o.find ref, 0, .refl o ref, heff⟩

theorem MovedAlike.order (h : MovedAlike ref o o' next next') : next.find ref = next'.find ref := by
  obtain ⟨y, delta, heff, heff'⟩ := h
  rw [heff.find_self, heff'.find_self]

theorem SameDesk.moved (h : SameDesk ref q q' o o') (hmoved : MovedAlike ref o o' next next') :
    SameDesk ref q q' next next' :=
  ⟨hmoved.order, h.held, h.ended⟩

theorem SameDesk.symm {ref : BrokerOrderRef} {q q' : ReportSequencer} {o o' : Oms} (h : SameDesk ref q q' o o') :
    SameDesk ref q' q o' o := ⟨h.order.symm, h.held.symm, h.ended.symm⟩

theorem SameDesk.trans {ref : BrokerOrderRef} {q q' q'' : ReportSequencer} {o o' o'' : Oms}
    (h : SameDesk ref q q' o o') (h' : SameDesk ref q' q'' o' o'') : SameDesk ref q q'' o o'' :=
  ⟨h.order.trans h'.order, h.held.trans h'.held, h.ended.trans h'.ended⟩

/-- A call whose verdict depends on the order alone. -/
theorem movedAlike_of_verdict (call : Oms → Bool × Oms) (v : Order → Verdict)
    (hnone : ∀ o, o.find ref = none → call o = (false, o))
    (hsome : ∀ o x, o.find ref = some x → Oms.Follows o ref (call o) (v x)) (h : o.find ref = o'.find ref) :
    (call o).1 = (call o').1 ∧ MovedAlike ref o o' (call o).2 (call o').2 := by
  cases hx : o.find ref with
  | none =>
    rw [hnone o hx, hnone o' (h ▸ hx)]
    exact ⟨rfl, .refl h⟩
  | some x =>
    obtain ⟨hok, heff⟩ := hsome o x hx
    obtain ⟨hok', heff'⟩ := hsome o' x (h ▸ hx)
    exact ⟨hok.trans hok'.symm, _, _, heff, heff'⟩

theorem contains_of_records {r : ReportSequencer × Oms} (htidy : Tidy reports q) (hroom : Roomy q o)
    (hrecords : ReportSequencer.Records q ref r) (other : BrokerOrderRef) :
    r.1.terminalCache.contains other =
      (q.terminalCache.contains other || (decide (r.2.find ref = none) && ref == other)) := by
  unfold ReportSequencer.Records at hrecords
  rw [hrecords]
  by_cases hgone : r.2.find ref = none
  · rw [if_pos hgone, TerminalCache.contains_record htidy.ring hroom.ring, decide_eq_true hgone, Bool.true_and]
  · rw [if_neg hgone, decide_eq_false hgone, Bool.false_and, Bool.or_false]

variable (report : ExecReport)

/-- The outcome of a report and what it does to its order, from the desk of the order. -/
theorem process_alike (hcoherent : Coherent reports) (htidy : Tidy reports q) (htidy' : Tidy reports q')
    (hroom : Roomy q o) (hroom' : Roomy q' o') (h : SameDesk report.ref q q' o o') :
    (q.process o report).1 = (q'.process o' report).1 ∧
      SameDesk report.ref (q.process o report).2.1 (q'.process o' report).2.1 (q.process o report).2.2
        (q'.process o' report).2.2 ∧
      MovedAlike report.ref o o' (q.process o report).2.2 (q'.process o' report).2.2 := by
  cases hx : o.find report.ref with
  | none =>
    rw [q.process_of_none o hx, q'.process_of_none o' (h.order ▸ hx), h.ended]
    exact ⟨rfl, h, .refl h.order⟩
  | some x =>
    have hx' : o'.find report.ref = some x := h.order ▸ hx
    rcases Nat.lt_trichotomy report.venueSeq (x.lastAppliedSeq + 1) with hlt | hnext | hgap
    · rw [q.process_of_le o hx (Nat.le_of_lt_succ hlt), q'.process_of_le o' hx' (Nat.le_of_lt_succ hlt)]
      exact ⟨rfl, h, .refl h.order⟩
    · obtain ⟨hout, hoc⟩ := q.process_inSeq o hx hnext
      obtain ⟨hout', hoc'⟩ := q'.process_inSeq o' hx' hnext
      have halike := arrive_alike hcoherent (o.find_ref hx) htidy.held htidy'.held h.held report
      have heff' := hoc'.effect
      rw [← halike.same.1, ← halike.same.2] at heff'
      have hmoved : MovedAlike report.ref o o' (q.process o report).2.2 (q'.process o' report).2.2 :=
        ⟨_, _, hoc.effect, heff'⟩
      refine ⟨hout.trans hout'.symm, ⟨hmoved.order, ?_, ?_⟩, hmoved⟩
      · rw [hoc.held, hoc'.held]
        exact halike.held
      · rw [contains_of_records htidy hroom (ReportSequencer.process_records hx),
          contains_of_records htidy' hroom' (ReportSequencer.process_records hx'), h.ended, hmoved.order]
    · rw [q.process_of_gap o hx hgap, q'.process_of_gap o' hx' hgap]
      have hhold := GapPool.hold_of_room q.gapPool report hroom.pool
      have hhold' := GapPool.hold_of_room q'.gapPool report hroom'.pool
      obtain ⟨-, hperm⟩ := (GapPool.hold_eq q.gapPool report).resolve_left
        fun hfull => Bool.false_ne_true (hfull.1.symm.trans hhold)
      obtain ⟨-, hperm'⟩ := (GapPool.hold_eq q'.gapPool report).resolve_left
        fun hfull => Bool.false_ne_true (hfull.1.symm.trans hhold')
      unfold ReportSequencer.holdReport
      dsimp only
      rw [hhold, hhold']
      refine ⟨rfl, ⟨h.order, ?_, h.ended⟩, .refl h.order⟩
      have hself : heldFor report.ref (report :: q.gapPool.held) = report :: heldFor report.ref q.gapPool.held :=
        heldFor_cons_self rfl
      have hself' : heldFor report.ref (report :: q'.gapPool.held) = report :: heldFor report.ref q'.gapPool.held :=
        heldFor_cons_self rfl
      have hfront := heldFor_perm report.ref hperm
      have hfront' := heldFor_perm report.ref hperm'
      rw [hself] at hfront
      rw [hself'] at hfront'
      exact hfront.trans ((h.held.cons report).trans hfront'.symm)

/-- A report leaves the desks of other orders as they were. -/
theorem process_frame (htidy : Tidy reports q) (hroom : Roomy q o) {other : BrokerOrderRef}
    (hne : other ≠ report.ref) :
    heldFor other (q.process o report).2.1.gapPool.held ~ heldFor other q.gapPool.held ∧
      (q.process o report).2.1.terminalCache.contains other = q.terminalCache.contains other := by
  cases hx : o.find report.ref with
  | none =>
    rw [q.process_of_none o hx]
    exact ⟨.refl _, rfl⟩
  | some x =>
    constructor
    · rcases Nat.lt_trichotomy report.venueSeq (x.lastAppliedSeq + 1) with hlt | hnext | hgap
      · rw [q.process_of_le o hx (Nat.le_of_lt_succ hlt)]
      · rw [(q.process_inSeq o hx hnext).2.held, arrive_held_other (by rw [o.find_ref hx]; exact hne)]
      · rw [q.process_of_gap o hx hgap]
        rcases GapPool.hold_eq q.gapPool report with ⟨-, hsame⟩ | ⟨-, hperm⟩
        · unfold ReportSequencer.holdReport
          dsimp only
          rw [hsame]
        · have hother := heldFor_perm other hperm
          rwa [heldFor_cons_of_ne hne.symm] at hother
    · have hnever : (report.ref == other) = false := beq_eq_false_iff_ne.mpr hne.symm
      rw [contains_of_records htidy hroom (ReportSequencer.process_records hx), hnever, Bool.and_false,
        Bool.or_false]

theorem Tidy.process (htidy : Tidy reports q) (hroom : Roomy q o) (hreport : report ∈ reports) :
    Tidy reports (q.process o report).2.1 := by
  constructor
  · intro h hmem
    rcases ShardedOms.process_held q o report hmem with rfl | hold
    · exact hreport
    · exact htidy.held hold
  · cases hx : o.find report.ref with
    | none =>
      rw [q.process_of_none o hx]
      exact htidy.ring
    | some x =>
      have hrecords := ReportSequencer.process_records (q := q) hx
      unfold ReportSequencer.Records at hrecords
      rw [hrecords]
      split
      case isTrue =>
        have hcount : (q.terminalCache.record report.ref).count = q.terminalCache.count + 1 := if_pos hroom.ring
        rw [hcount, ← htidy.ring]
        rfl
      case isFalse => exact htidy.ring

end TwoShards

namespace Shard

/-- Two answers to a request that nobody can tell apart. -/
structure SameAnswer (sh sh' : Shard) (req : Request) (a a' : Applied) : Prop where
  ok : a.ok = a'.ok
  completion : a.completion = a'.completion
  before : a.before = a'.before
  desk : SameDesk req.ref a.sequencer a'.sequencer a.oms a'.oms
  moved : MovedAlike req.ref sh.oms sh'.oms a.oms a'.oms

section Answers
variable {sh sh' : Shard} {req : Request} (h : SameDesk req.ref sh.sequencer sh'.sequencer sh.oms sh'.oms)
include h

theorem applyCreate_same (hroom : Roomy sh.sequencer sh.oms) (hroom' : Roomy sh'.sequencer sh'.oms)
    (approved : Bool) (c : Completion) :
    SameAnswer sh sh' req (sh.applyCreate approved req c) (sh'.applyCreate approved req c) := by
  unfold applyCreate
  cases approved with
  | false => exact ⟨rfl, rfl, rfl, h, .refl h.order⟩
  | true =>
    simp only [Bool.not_true, Bool.false_eq_true, if_false]
    by_cases hfree : sh.oms.find req.ref = none
    · obtain ⟨hcreated, heff⟩ := sh.oms.create_effect req.symbol req.volume hfree hroom.store
      obtain ⟨hcreated', heff'⟩ := sh'.oms.create_effect req.symbol req.volume (h.order ▸ hfree) hroom'.store
      rw [hcreated, hcreated']
      exact ⟨rfl, rfl, rfl, h.moved ⟨_, _, heff, heff'⟩, _, _, heff, heff'⟩
    · rw [sh.oms.create_of_refused req.symbol req.volume (.inl hfree),
        sh'.oms.create_of_refused req.symbol req.volume (.inl (h.order ▸ hfree))]
      exact ⟨rfl, rfl, rfl, h, .refl h.order⟩

theorem applyRestore_same (hroom : Roomy sh.sequencer sh.oms) (hroom' : Roomy sh'.sequencer sh'.oms)
    (c : Completion) : SameAnswer sh sh' req (sh.applyRestore req c) (sh'.applyRestore req c) := by
  unfold applyRestore
  by_cases hfree : sh.oms.find req.ref = none ∧ Oms.restorable req.restoredOrder
  · obtain ⟨hstored, heff⟩ := sh.oms.restore_effect (x := req.restoredOrder) hfree.1 hroom.store hfree.2
    obtain ⟨hstored', heff'⟩ :=
      sh'.oms.restore_effect (x := req.restoredOrder) (h.order ▸ hfree.1) hroom'.store hfree.2
    dsimp only
    rw [hstored, hstored']
    exact ⟨rfl, rfl, rfl, h.moved ⟨_, _, heff, heff'⟩, _, _, heff, heff'⟩
  · have hrefused : ∀ o : Oms, o.find req.ref = sh.oms.find req.ref →
        o.restore req.restoredOrder = (none, o) := by
      intro o hsame
      apply o.restore_of_refused
      by_cases hfind : sh.oms.find req.ref = none
      · exact .inr (.inr fun hstorable => hfree ⟨hfind, hstorable⟩)
      · exact .inl fun hnone => hfind (hsame.symm.trans hnone)
    rw [hrefused sh.oms rfl, hrefused sh'.oms h.order.symm]
    exact ⟨rfl, rfl, rfl, h, .refl h.order⟩

theorem applyTransition_same (c : Completion) :
    SameAnswer sh sh' req (sh.applyTransition req c) (sh'.applyTransition req c) := by
  obtain ⟨hok, hmoved⟩ := movedAlike_of_verdict (fun o => o.transition req.ref req.target)
    (fun x => .transition x req.target) (fun o hf => o.transition_of_none hf req.target)
    (fun o x hf => o.transition_follows hf req.target) h.order
  unfold applyTransition
  dsimp only at hok hmoved ⊢
  rw [hok, hmoved.order]
  exact ⟨rfl, rfl, h.order, h.moved hmoved, hmoved⟩

theorem applyFill_same (c : Completion) :
    SameAnswer sh sh' req (sh.applyFill req c) (sh'.applyFill req c) := by
  obtain ⟨hok, hmoved⟩ := movedAlike_of_verdict (fun o => o.fill req.ref req.volume)
    (fun x => .fill x req.volume) (fun o hf => o.fill_of_none hf req.volume)
    (fun o x hf => o.fill_follows hf req.volume) h.order
  unfold applyFill
  dsimp only at hok hmoved ⊢
  rw [hok, hmoved.order]
  exact ⟨rfl, rfl, h.order, h.moved hmoved, hmoved⟩

theorem applyReplace_same (c : Completion) :
    SameAnswer sh sh' req (sh.applyReplace req c) (sh'.applyReplace req c) := by
  obtain ⟨hok, hmoved⟩ := movedAlike_of_verdict (fun o => o.replace req.ref req.price req.volume)
    (fun x => .replace x req.price req.volume)
    (fun o hf => o.replace_of_none hf req.price req.volume)
    (fun o x hf => o.replace_follows hf req.price req.volume) h.order
  unfold applyReplace
  dsimp only at hok hmoved ⊢
  rw [hok, hmoved.order, h.order]
  exact ⟨rfl, rfl, rfl, h.moved hmoved, hmoved⟩

variable {reports : List ExecReport}

theorem applyReport_same (hcoherent : Coherent reports) (htidy : Tidy reports sh.sequencer)
    (htidy' : Tidy reports sh'.sequencer) (hroom : Roomy sh.sequencer sh.oms)
    (hroom' : Roomy sh'.sequencer sh'.oms) (c : Completion) :
    SameAnswer sh sh' req (sh.applyReport req c) (sh'.applyReport req c) := by
  obtain ⟨houtcome, hdesk, hmoved⟩ :=
    process_alike req.execReport hcoherent htidy htidy' hroom hroom' h
  have horder : ((sh.sequencer.process sh.oms req.execReport).2.2).find req.ref =
      ((sh'.sequencer.process sh'.oms req.execReport).2.2).find req.ref := hdesk.order
  unfold applyReport
  dsimp only
  rw [houtcome, horder]
  exact ⟨rfl, rfl, h.order, hdesk, hmoved⟩

/-- Two shards with the same desk answer alike, as long as both have room. -/
theorem apply_same (hcoherent : Coherent reports) (htidy : Tidy reports sh.sequencer)
    (htidy' : Tidy reports sh'.sequencer) (hroom : Roomy sh.sequencer sh.oms)
    (hroom' : Roomy sh'.sequencer sh'.oms) (hkind : req.kind ≠ .snapshot) (approved : Bool) (c : Completion) :
    SameAnswer sh sh' req (sh.apply approved req c) (sh'.apply approved req c) := by
  have hanswer : ∀ {a a' : Applied}, SameAnswer sh sh' req a a' →
      SameAnswer sh sh' req { a with completion := { a.completion with ok := a.ok } }
        { a' with completion := { a'.completion with ok := a'.ok } } := by
    intro a a' hsame
    refine ⟨hsame.ok, ?_, hsame.before, hsame.desk, hsame.moved⟩
    dsimp only
    rw [hsame.ok, hsame.completion]
  unfold apply
  cases hk : req.kind with
  | create => exact hanswer (applyCreate_same h hroom hroom' approved c)
  | find =>
    apply hanswer
    unfold applyFind
    dsimp only
    rw [h.order]
    exact ⟨rfl, rfl, rfl, h, .refl h.order⟩
  | transition => exact hanswer (applyTransition_same h c)
  | fill => exact hanswer (applyFill_same h c)
  | replace => exact hanswer (applyReplace_same h c)
  | report => exact hanswer (applyReport_same h hcoherent htidy htidy' hroom hroom' c)
  | snapshot => exact absurd hk hkind
  | restore => exact hanswer (applyRestore_same h hroom hroom' c)

end Answers

/-- The sequencer behind a request: only reports go through it. -/
theorem apply_sequencer (sh : Shard) (approved : Bool) (req : Request) (c : Completion) :
    (sh.apply approved req c).sequencer =
      if req.kind = .report then (sh.sequencer.process sh.oms req.execReport).2.1 else sh.sequencer := by
  unfold apply
  cases req.kind with
  | create =>
    dsimp only
    unfold applyCreate
    split
    · rfl
    · rfl
  | report => rfl
  | find => rfl
  | transition => rfl
  | fill => rfl
  | replace => rfl
  | snapshot => rfl
  | restore => rfl

end Shard

end MicrostructureEngine
