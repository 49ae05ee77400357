import MicrostructureEngine.Lib.KeyedBoard
import MicrostructureEngine.Oms.Convergence
import MicrostructureEngine.Oms.PaperVenue

/-!
# Replaying one order

What the report records of one order make of it when they are applied in sequence, each one with
success. The sequencer may see the reports of all orders in any arrival order; where it leaves an
order is where the replay of that order's records ends.
-/

namespace MicrostructureEngine

open scoped List
set_option autoImplicit false

open PaperVenue

/-- The record, as the next report in sequence, is applied to the order and leaves `after`. -/
def Applies (x : Order) (rec : JournalRecord) (after : Option Order) : Prop :=
  ∃ body, translate rec = some body ∧
    (Verdict.applyOne x (report x.ref (x.lastAppliedSeq + 1) body)).ok = true ∧
    (Verdict.applyOne x (report x.ref (x.lastAppliedSeq + 1) body)).after = after

/-- The records are applied in sequence; an order that ends takes no further record. -/
inductive Replays : Order → List JournalRecord → Option Order → Prop
  | done {x : Order} : Replays x [] (some x)
  | ended {x : Order} {rec : JournalRecord} (last : Applies x rec none) : Replays x [rec] none
  | step {x y : Order} {rec : JournalRecord} {recs : List JournalRecord} {after : Option Order}
      (next : Applies x rec (some y)) (rest : Replays y recs after) : Replays x (rec :: recs) after

namespace Replays

theorem trans {x y : Order} {recs recs' : List JournalRecord} {after : Option Order}
    (h : Replays x recs (some y)) (h' : Replays y recs' after) : Replays x (recs ++ recs') after := by
  generalize hend : some y = t at h
  induction h with
  | done =>
    cases hend
    exact h'
  | ended last => cases hend
  | step next rest ih => exact Replays.step next (ih hend)

theorem cons_cases {x : Order} {rec : JournalRecord} {recs : List JournalRecord}
    {after : Option Order} (h : Replays x (rec :: recs) after) :
    (Applies x rec none ∧ after = none) ∨ ∃ y, Applies x rec (some y) ∧ Replays y recs after := by
  cases h with
  | ended last => exact Or.inl ⟨last, rfl⟩
  | step next rest => exact Or.inr ⟨_, next, rest⟩

theorem one {x : Order} {rec : JournalRecord} {after : Option Order} (h : Applies x rec after) :
    Replays x [rec] after := by
  cases after with
  | none => exact Replays.ended h
  | some y => exact Replays.step h Replays.done

end Replays

def told (ref : BrokerOrderRef) (recs : List JournalRecord) : List JournalRecord :=
  recs.filter fun rec => rec.ref == ref

theorem told_append (ref : BrokerOrderRef) (recs recs' : List JournalRecord) :
    told ref (recs ++ recs') = told ref recs ++ told ref recs' := List.filter_append _ _

theorem told_of_all {ref : BrokerOrderRef} {recs : List JournalRecord} (h : ∀ rec ∈ recs, rec.ref = ref) :
    told ref recs = recs :=
  List.filter_eq_self.mpr fun rec hrec => beq_iff_eq.mpr (h rec hrec)

theorem told_of_none {ref : BrokerOrderRef} {recs : List JournalRecord} (h : ∀ rec ∈ recs, rec.ref ≠ ref) :
    told ref recs = [] :=
  List.filter_eq_nil_iff.mpr fun rec hrec heq => h rec hrec (beq_iff_eq.mp heq)

theorem settle_cons_of_ne {r : ExecReport} {held : List ExecReport} {x : Order}
    (hd : DistinctKeys (r :: held)) (hr : r.ref ≠ x.ref) :
    (settle (r :: held) x).after = (settle held x).after := by
  have htail : DistinctKeys held := hd.sublist (List.sublist_cons_self r held)
  refine (settle_congr hd htail fun r' hr' _ => ?_).1
  have hne : r' ≠ r := by
    rintro rfl
    exact hr hr'
  simp [hne]

theorem arrive_after {held : List ExecReport} {x : Order} {r : ExecReport} {after : Option Order}
    (hok : (Verdict.applyOne x r).ok = true) (hafter : (Verdict.applyOne x r).after = after) :
    (arrive held x r).after = after.bind fun y => (settle held y).after := by
  unfold arrive consume
  dsimp only
  rw [if_pos hok, hafter]
  cases after with
  | none => rfl
  | some y => rfl

/-- The numbered reports of all orders settle an order where its own records replay to. -/
theorem settle_numbered {x : Order} {recs : List JournalRecord} {after : Option Order}
    (count : BrokerOrderRef → Nat) (h : Replays x (told x.ref recs) after)
    (hcount : count x.ref = x.lastAppliedSeq) : (settle (numbered count recs) x).after = after := by
  induction recs generalizing x count with
  | nil =>
    cases h
    rfl
  | cons rec recs ih =>
    have hdistinct := numbered_distinct count (rec :: recs)
    by_cases href : rec.ref = x.ref
    · have htold : told x.ref (rec :: recs) = rec :: told x.ref recs :=
        List.filter_cons_of_pos (by simpa using href)
      rw [htold] at h
      -- The first record is in sequence, so it is consumed first and the rest settles behind it.
      have hfirst : ∀ t, Applies x rec t → ∃ count' : BrokerOrderRef → Nat,
          count' x.ref = x.lastAppliedSeq + 1 ∧
          (settle (numbered count (rec :: recs)) x).after =
            t.bind fun y => (settle (numbered count' recs) y).after := by
        rintro t ⟨body, hbody, hok, hafter⟩
        refine ⟨Function.update count x.ref (x.lastAppliedSeq + 1), Function.update_self .., ?_⟩
        have hhead : numbered count (rec :: recs) = report x.ref (x.lastAppliedSeq + 1) body ::
            numbered (Function.update count x.ref (x.lastAppliedSeq + 1)) recs := by
          simp only [numbered, hbody, href, hcount]
        rw [hhead, settle_cons rfl rfl]
        exact arrive_after hok hafter
      rcases h.cons_cases with ⟨hlast, rfl⟩ | ⟨y, hnext, hrest⟩
      · obtain ⟨count', -, hsettle⟩ := hfirst none hlast
        exact hsettle
      · obtain ⟨count', hcount', hsettle⟩ := hfirst (some y) hnext
        obtain ⟨body, -, hok, hafter⟩ := hnext
        obtain ⟨hyref, hyseq⟩ := applyOne_next hok hafter rfl
        rw [hsettle, Option.bind_some]
        apply ih
        · rw [hyref]
          exact hrest
        · rw [hyref, hyseq, hcount']
    · have htold : told x.ref (rec :: recs) = told x.ref recs :=
        List.filter_cons_of_neg (by simpa using href)
      rw [htold] at h
      unfold numbered at hdistinct ⊢
      split at hdistinct
      · exact ih count h hcount
      · rw [settle_cons_of_ne hdistinct href]
        apply ih _ h
        rw [Function.update_of_ne (Ne.symm href), hcount]

/-! ## A board of open orders that the reports keep up with -/

def snapshot (x : Order) : OrderSnapshot := ⟨x.ref, x.state, x.requestedVolume, x.filledVolume⟩

/-- The order of an accepted submit, a reference with its volume, before any report. -/
structure Sent (p : BrokerOrderRef × Int) (x : Order) : Prop where
  shown : snapshot x = ⟨p.1, .sent, p.2, 0⟩
  seq : x.lastAppliedSeq = 0

/-- The records take an order that is shown as `s` to one that is shown as `t`, or end it. -/
def Advances (s : OrderSnapshot) (recs : List JournalRecord) (t : Option OrderSnapshot) : Prop :=
  ∀ x, snapshot x = s → ∃ after, Replays x recs after ∧ after.map snapshot = t

theorem Advances.refl (s : OrderSnapshot) : Advances s [] (some s) :=
  fun x hx => ⟨some x, Replays.done, congrArg some hx⟩

theorem Advances.trans {s t : OrderSnapshot} {u : Option OrderSnapshot} {recs recs' : List JournalRecord}
    (h : Advances s recs (some t)) (h' : Advances t recs' u) : Advances s (recs ++ recs') u := by
  intro x hx
  obtain ⟨after, hreplay, hafter⟩ := h x hx
  obtain ⟨y, rfl, hy⟩ := Option.map_eq_some_iff.mp hafter
  obtain ⟨last, hrest, hlast⟩ := h' y hy
  exact ⟨last, hreplay.trans hrest, hlast⟩

theorem advances_transition (s : OrderSnapshot) (rec : JournalRecord) (kind : ReportKind)
    {next : OrderState} (hbody : translate rec = some (kind, 0, 0))
    (hkind : ∀ x r, r.kind = kind → Verdict.applyKind x r = Verdict.transition x next)
    (hlegal : legal s.state next = true) :
    Advances s [rec] (if next.isTerminal then none else some { s with state := next }) := by
  rintro x rfl
  have hlegal' : legal x.state next = true := hlegal
  refine ⟨_, Replays.one ⟨_, hbody, ?_, rfl⟩, ?_⟩
  · rw [Verdict.applyOne_ok, hkind _ _ rfl, Verdict.transition, if_pos hlegal']
  · unfold Verdict.applyOne
    rw [hkind _ _ rfl, Verdict.transition, if_pos hlegal']
    cases next.isTerminal with
    | true => rfl
    | false => rfl

/-- A fill in range of an order that is worked: it ends the order or leaves it partially filled. -/
theorem advances_fill (s : OrderSnapshot) (rec : JournalRecord) {volume : Int}
    (hbody : translate rec = some (.fill, volume, 0)) (hpos : 0 < volume)
    (hle : volume ≤ s.requestedVolume - s.filledVolume)
    (hstate : s.state = .acknowledged ∨ s.state = .partiallyFilled) :
    Advances s [rec] (if s.requestedVolume - s.filledVolume - volume = 0 then none
      else some { s with state := .partiallyFilled, filledVolume := s.filledVolume + volume }) := by
  rintro x rfl
  have hin : Oms.fillable x volume := ⟨hpos, hle⟩
  have hlegal : legal (Oms.addFill x volume).state (OmsState.fillTarget x volume) = true := by
    have hstate' : (Oms.addFill x volume).state = .acknowledged ∨
        (Oms.addFill x volume).state = .partiallyFilled := hstate
    unfold OmsState.fillTarget
    rcases hstate' with hs | hs
    · rw [hs]
      split <;> rfl
    · rw [hs]
      split <;> rfl
  refine ⟨_, Replays.one ⟨_, hbody, ?_, rfl⟩, ?_⟩
  · rw [Verdict.applyOne_ok]
    unfold Verdict.applyKind Verdict.fill Verdict.transition report
    dsimp only
    rw [if_pos hin, if_pos hlegal]
  · unfold Verdict.applyOne Verdict.applyKind Verdict.fill Verdict.transition report
    dsimp only
    rw [if_pos hin, if_pos hlegal]
    by_cases hzero : (snapshot x).requestedVolume - (snapshot x).filledVolume - volume = 0
    · have htarget : OmsState.fillTarget x volume = .filled := if_neg (not_not.mpr hzero)
      rw [htarget, if_pos hzero]
      rfl
    · have htarget : OmsState.fillTarget x volume = .partiallyFilled := if_pos hzero
      rw [htarget, if_neg hzero]
      rfl

theorem advances_replace (s : OrderSnapshot) (rec : JournalRecord) {volume price : Int}
    (hbody : translate rec = some (.replaceAck, volume, price)) (hlive : s.state.isTerminal = false)
    (hknown : s.state ≠ .unknown) (habove : s.filledVolume < volume) :
    Advances s [rec] (some { s with requestedVolume := volume }) := by
  rintro x rfl
  have hguard : replaceable x volume = true := by
    have hlive' : x.state.isTerminal = false := hlive
    have hknown' : x.state ≠ .unknown := hknown
    have habove' : x.filledVolume < volume := habove
    simp [replaceable, hlive', hknown', habove']
  refine ⟨_, Replays.one ⟨_, hbody, ?_, rfl⟩, ?_⟩
  · rw [Verdict.applyOne_ok]
    unfold Verdict.applyKind Verdict.replace report
    dsimp only
    rw [if_pos hguard]
  · unfold Verdict.applyOne Verdict.applyKind Verdict.replace report
    dsimp only
    rw [if_pos hguard]
    rfl

/-- Replaying the records of each accepted order leaves exactly the orders on the board. `all` are
the submits that the run accepts sooner or later: the records say nothing of one before its time. -/
structure Mirrored (all accepted : List (BrokerOrderRef × Int)) (board : List OrderSnapshot)
    (recs : List JournalRecord) : Prop where
  unique : (board.map OrderSnapshot.ref).Nodup
  listed : ∀ p ∈ accepted, p ∈ all
  known : ∀ s ∈ board, s.ref ∈ accepted.map Prod.fst
  silent : ∀ p ∈ all, p.1 ∉ accepted.map Prod.fst → told p.1 recs = []
  mirrored : ∀ p ∈ accepted, ∀ x, Sent p x → ∃ after, Replays x (told p.1 recs) after ∧
    ∀ s, s.ref = p.1 → (s ∈ board ↔ after.map snapshot = some s)

namespace Mirrored

variable {all accepted : List (BrokerOrderRef × Int)} {recs new : List JournalRecord}

theorem start : Mirrored all [] [] [] where
  unique := List.nodup_nil
  listed := fun _ hp => absurd hp List.not_mem_nil
  known := fun _ hs => absurd hs List.not_mem_nil
  silent := fun _ _ _ => rfl
  mirrored := fun _ hp => absurd hp List.not_mem_nil

theorem moved {l r : List OrderSnapshot} {s : OrderSnapshot} {t : Option OrderSnapshot}
    (h : Mirrored all accepted (l ++ s :: r) recs) (hnew : Advances s new t)
    (href : ∀ rec ∈ new, rec.ref = s.ref) (ht : ∀ s', t = some s' → s'.ref = s.ref) :
    Mirrored all accepted (l ++ (t.toList ++ r)) (recs ++ new) := by
  have hboards := KeyedBoard.mem_replace h.unique ht
  refine ⟨KeyedBoard.nodup_replace h.unique ht, h.listed, ?_, ?_, ?_⟩
  · intro s' hs'
    by_cases heq : s'.ref = s.ref
    · rw [heq]
      exact h.known s (by simp)
    · exact h.known s' (((hboards s').2 heq).mp hs')
  · intro p hp hunknown
    have hne : p.1 ≠ s.ref := by
      intro heq
      exact hunknown (heq ▸ h.known s (by simp))
    rw [told_append, h.silent p hp hunknown, told_of_none fun rec hrec heq => hne (heq.symm.trans (href rec hrec))]
    rfl
  · intro p hp x hx
    obtain ⟨after, hreplay, hboard⟩ := h.mirrored p hp x hx
    rw [told_append]
    by_cases heq : p.1 = s.ref
    · rw [heq] at hreplay hboard ⊢
      rw [told_of_all href]
      obtain ⟨y, rfl, hy⟩ := Option.map_eq_some_iff.mp ((hboard s rfl).mp (by simp))
      obtain ⟨last, hrest, hlast⟩ := hnew y hy
      refine ⟨last, hreplay.trans hrest, fun s' hs' => ?_⟩
      rw [hlast]
      exact (hboards s').1 hs'
    · rw [told_of_none fun rec hrec heq' => heq (heq'.symm.trans (href rec hrec)),
        List.append_nil]
      refine ⟨after, hreplay, fun s' hs' => ?_⟩
      rw [(hboards s').2 (hs' ▸ heq)]
      exact hboard s' hs'

/-- Records of a reference that no submit of the run goes by change nothing. -/
theorem elsewhere {board : List OrderSnapshot} (h : Mirrored all accepted board recs)
    (href : ∀ rec ∈ new, ∀ p ∈ all, rec.ref ≠ p.1) : Mirrored all accepted board (recs ++ new) := by
  have htold : ∀ p ∈ all, told p.1 (recs ++ new) = told p.1 recs := by
    intro p hp
    rw [told_append, told_of_none fun rec hrec => href rec hrec p hp, List.append_nil]
  refine ⟨h.unique, h.listed, h.known, ?_, ?_⟩
  · intro p hp hunknown
    rw [htold p hp]
    exact h.silent p hp hunknown
  · intro p hp
    rw [htold p (h.listed p hp)]
    exact h.mirrored p hp

theorem accept {l r : List OrderSnapshot} {p : BrokerOrderRef × Int}
    (h : Mirrored all accepted (l ++ r) recs) (hp : p ∈ all) (hnew : p.1 ∉ accepted.map Prod.fst) :
    Mirrored all (accepted ++ [p]) (l ++ ⟨p.1, .sent, p.2, 0⟩ :: r) recs := by
  have hfree : ∀ s ∈ l ++ r, s.ref ≠ p.1 := by
    intro s hs heq
    exact hnew (heq ▸ h.known s hs)
  refine ⟨?_, ?_, ?_, ?_, ?_⟩
  · rw [List.map_append, List.map_cons, List.nodup_middle, List.nodup_cons, ← List.map_append]
    refine ⟨?_, h.unique⟩
    intro hmem
    obtain ⟨s, hs, heq⟩ := List.mem_map.mp hmem
    exact hfree s hs heq
  · intro p' hp'
    rcases List.mem_append.mp hp' with hold | hone
    · exact h.listed p' hold
    · rw [List.mem_singleton.mp hone]
      exact hp
  · intro s hs
    rw [List.map_append, List.mem_append]
    simp only [List.mem_append, List.mem_cons] at hs
    rcases hs with hs | rfl | hs
    · exact Or.inl (h.known s (List.mem_append_left r hs))
    · right
      simp
    · exact Or.inl (h.known s (List.mem_append_right l hs))
  · intro p' hp' hunknown
    apply h.silent p' hp'
    intro hmem
    apply hunknown
    rw [List.map_append]
    exact List.mem_append_left _ hmem
  · intro p' hp' x hx
    rcases List.mem_append.mp hp' with hold | hone
    · obtain ⟨after, hreplay, hboard⟩ := h.mirrored p' hold x hx
      refine ⟨after, hreplay, fun s hs => ?_⟩
      have hne : s ≠ ⟨p.1, .sent, p.2, 0⟩ := by
        rintro rfl
        have heq : p.1 = p'.1 := hs
        exact hnew (heq ▸ List.mem_map_of_mem hold)
      rw [← hboard s hs]
      simp [hne]
    · rw [List.mem_singleton.mp hone] at hx ⊢
      rw [h.silent p hp hnew]
      refine ⟨some x, Replays.done, fun s hs => ?_⟩
      have hout : s ∉ l ∧ s ∉ r := by
        rw [← not_or, ← List.mem_append]
        exact fun hmem => hfree s hmem hs
      simp only [List.mem_append, List.mem_cons, hout.1, hout.2, Option.map_some, hx.shown,
        Option.some.injEq, false_or, or_false]
      exact eq_comm

end Mirrored

/-- One order for each accepted submit, as sent, and no other. -/
structure HoldsSent (o : Oms) (accepted : List (BrokerOrderRef × Int)) : Prop where
  held : ∀ p ∈ accepted, ∃ x, o.find p.1 = some x ∧ Sent p x
  only : ∀ ref x, o.find ref = some x → ref ∈ accepted.map Prod.fst

/-- Fed with the reports in any order, the management system ends with the board. -/
theorem Mirrored.reconstructed {accepted : List (BrokerOrderRef × Int)} {board : List OrderSnapshot}
    {recs : List JournalRecord} (h : Mirrored accepted accepted board recs) {o : Oms}
    (ho : HoldsSent o accepted) {arrivals : List ExecReport}
    (harrivals : arrivals ~ numbered (fun _ => 0) recs) {q : ReportSequencer}
    (hempty : q.gapPool.held = []) (hroom : arrivals.length ≤ q.gapPool.capacity) (s : OrderSnapshot) :
    s ∈ board ↔ ((Runs.run deliver (q, o) arrivals).2.find s.ref).map snapshot = some s := by
  have hnumbered := numbered_distinct (fun _ => 0) recs
  have hdistinct : DistinctKeys arrivals := hnumbered.perm harrivals.symm
  have hfind := (run_deliver_outlook (ready_of_empty (o := o) hempty hroom hdistinct)).1 s.ref
  rw [hempty, List.nil_append] at hfind
  rw [hfind]
  unfold outlookOrder
  cases hheld : o.find s.ref with
  | none =>
    have hoff : s ∉ board := by
      intro hs
      obtain ⟨p, hp, heq⟩ := List.mem_map.mp (h.known s hs)
      obtain ⟨x, hx, -⟩ := ho.held p hp
      rw [heq, hheld] at hx
      cases hx
    simp [hoff]
  | some y =>
    obtain ⟨p, hp, heq⟩ := List.mem_map.mp (ho.only s.ref y hheld)
    obtain ⟨x, hx, hsent⟩ := ho.held p hp
    rw [heq, hheld, Option.some.injEq] at hx
    subst hx
    obtain ⟨after, hreplay, hboard⟩ := h.mirrored p hp y hsent
    have href : y.ref = p.1 := (o.find_ref hheld).trans heq.symm
    rw [← href] at hreplay
    have hsettle := settle_numbered (fun _ => 0) hreplay hsent.seq.symm
    have hsame := (settle_congr (x := y) hdistinct hnumbered fun r _ _ => harrivals.mem_iff).1
    rw [Option.bind_some, hsame, hsettle]
    exact hboard s heq.symm

end MicrostructureEngine
