import Mathlib.Tactic.Ring
import MicrostructureEngine.Oms.Scheduler

/-!
# Fairness of the scheduler

Two measures of a scheduler state. `allowance i j` bounds how often slot `j` can still be
served before slot `i` is reached: it is spent by serving `j` and never refilled while `i`
waits. `lead i j` is where the pair stands within a round, scaled by both quanta: while both
stay active it moves exactly with the weighted difference of their service counts, and it
lies between zero and the product of the quanta.
-/

namespace MicrostructureEngine.StrategyScheduler

open Probing
set_option autoImplicit false

variable {s t : StrategyScheduler} {i j : Nat}

/-- The cursor comes to `i` before it comes to `j`. -/
def Before (s : StrategyScheduler) (i j : Nat) : Prop :=
  distance s.maxStrategies s.cursor i < distance s.maxStrategies s.cursor j

instance (s : StrategyScheduler) (i j : Nat) : Decidable (s.Before i j) :=
  inferInstanceAs (Decidable (_ < _))

/-- What is left of slot `i`'s current visit, or the whole of its next one. -/
def visitLeft (s : StrategyScheduler) (i : Nat) : Int :=
  if s.cursor = i ∧ 0 < s.visitDeficit then s.visitDeficit else (s.slots i).quantum

def allowance (s : StrategyScheduler) (i j : Nat) : Int :=
  if s.Before j i then s.visitLeft j else 0

def lead (s : StrategyScheduler) (i j : Nat) : Int :=
  if s.Before i j then ((s.slots i).quantum - s.visitLeft i) * (s.slots j).quantum
  else s.visitLeft j * (s.slots i).quantum

theorem Inv.visitLeft_bounds (h : s.Inv) (hreg : (s.slots i).registered = true) :
    0 < s.visitLeft i ∧ s.visitLeft i ≤ (s.slots i).quantum := by
  have hquantum := h.quantum i hreg
  unfold visitLeft
  split
  · rename_i hvisit
    obtain ⟨rfl, hpos⟩ := hvisit
    exact ⟨hpos, (h.visit hpos).2⟩
  · exact ⟨by omega, le_rfl⟩

theorem Inv.allowance_bounds (h : s.Inv) (hreg : (s.slots j).registered = true) :
    0 ≤ s.allowance i j ∧ s.allowance i j ≤ (s.slots j).quantum := by
  have hleft := h.visitLeft_bounds hreg
  unfold allowance
  split <;> omega

theorem Inv.lead_bounds (h : s.Inv) (hi : (s.slots i).registered = true)
    (hj : (s.slots j).registered = true) :
    0 ≤ s.lead i j ∧ s.lead i j ≤ (s.slots i).quantum * (s.slots j).quantum := by
  have hileft := h.visitLeft_bounds hi
  have hjleft := h.visitLeft_bounds hj
  have hiq := h.quantum i hi
  have hjq := h.quantum j hj
  unfold lead
  split
  · exact ⟨by nlinarith, by nlinarith⟩
  · exact ⟨by nlinarith, by nlinarith⟩

section Advance

/-- Leaving a slot that is neither of the two keeps their order. -/
theorem before_advance (hc : s.cursor < s.maxStrategies) (hi : i < s.maxStrategies)
    (hj : j < s.maxStrategies) (hic : i ≠ s.cursor) (hjc : j ≠ s.cursor) :
    s.advance.Before i j ↔ s.Before i j := by
  have hiadv := Rotation.distance_advance hc hi hic
  have hjadv := Rotation.distance_advance hc hj hjc
  unfold Before
  dsimp only [advance]
  omega

/-- The slot that is left comes last. -/
theorem before_advance_cursor (hc : s.cursor < s.maxStrategies) (hj : j < s.maxStrategies)
    (hjc : j ≠ s.cursor) : s.advance.Before j s.cursor ∧ s.Before s.cursor j := by
  have hself := Rotation.distance_advance_self hc
  have hjadv := Rotation.distance_advance hc hj hjc
  have hlt := distance_lt (by omega : 0 < s.maxStrategies) s.cursor j
  have hzero := Rotation.distance_self hc
  unfold Before
  dsimp only [advance]
  exact ⟨by omega, by omega⟩

theorem Before.asymm (h : s.Before i j) : ¬ s.Before j i := Nat.lt_asymm h

theorem visitLeft_advance : s.advance.visitLeft i = (s.slots i).quantum := by
  unfold visitLeft
  rw [if_neg]
  · rfl
  · rintro ⟨_, hpos⟩
    exact absurd hpos (lt_irrefl 0)

theorem visitLeft_of_ne (hic : i ≠ s.cursor) : s.visitLeft i = (s.slots i).quantum := by
  unfold visitLeft
  rw [if_neg]
  rintro ⟨rfl, _⟩
  exact hic rfl

/-- Skipping a slot that is neither of the two moves neither measure. -/
theorem lead_advance (hc : s.cursor < s.maxStrategies) (hi : i < s.maxStrategies)
    (hj : j < s.maxStrategies) (hic : i ≠ s.cursor) (hjc : j ≠ s.cursor) :
    s.advance.lead i j = s.lead i j := by
  unfold lead
  simp only [before_advance hc hi hj hic hjc, visitLeft_advance, visitLeft_of_ne hic,
    visitLeft_of_ne hjc, slots_advance]

end Advance

section Serve
variable {out : ArbitratedRequest} {rest : List ArbitratedRequest}

theorem visitLeft_cursor (s : StrategyScheduler) : s.visitLeft s.cursor = s.budget := by
  unfold visitLeft StrategyScheduler.budget
  by_cases hpos : 0 < s.visitDeficit
  · rw [if_pos ⟨rfl, hpos⟩, if_neg (by omega)]
  · rw [if_neg fun hvisit => hpos hvisit.2, if_pos (by omega)]

theorem quantum_serve (s : StrategyScheduler) (rest : List ArbitratedRequest) (i : Nat) :
    ((s.serve rest).slots i).quantum = (s.slots i).quantum := by
  rw [(moved_serve s rest).slots]
  by_cases hi : i = s.cursor
  · subst hi
    simp [taken, StrategyScheduler.setSlot]
  · simp [taken, StrategyScheduler.setSlot, hi]

/-- The visit ends when its slot is drained or its budget spent; else one unit less is left. -/
theorem serve_visit (s : StrategyScheduler) (rest : List ArbitratedRequest) :
    ((rest = [] ∨ s.budget ≤ 1) ∧
      (∀ i j, (s.serve rest).Before i j ↔ s.advance.Before i j) ∧
      ∀ i, (s.serve rest).visitLeft i = (s.slots i).quantum) ∨
    (rest ≠ [] ∧ 1 < s.budget ∧ (∀ i j, (s.serve rest).Before i j ↔ s.Before i j) ∧
      (s.serve rest).visitLeft s.cursor = s.budget - 1 ∧
      ∀ i, i ≠ s.cursor → (s.serve rest).visitLeft i = (s.slots i).quantum) := by
  have hquantum := quantum_serve s rest
  by_cases hends : rest = [] ∨ s.budget - 1 ≤ 0
  · left
    have heq : s.serve rest = (s.taken rest).advance := by rw [serve_eq, if_pos hends]
    refine ⟨hends.imp_right (by omega), fun _ _ => ?_, fun i => ?_⟩
    · rw [heq]
      exact Iff.rfl
    · have hadvance := visitLeft_advance (s := s.taken rest) (i := i)
      rw [← heq] at hadvance
      rw [hadvance, ← hquantum i, (moved_serve s rest).slots]
  · right
    have heq : s.serve rest = { s.taken rest with visitDeficit := s.budget - 1 } := by
      rw [serve_eq, if_neg hends]
    push Not at hends
    refine ⟨hends.1, by omega, fun _ _ => ?_, ?_, fun i hi => ?_⟩
    · rw [heq]
      exact Iff.rfl
    · rw [heq]
      unfold visitLeft
      exact if_pos ⟨rfl, hends.2⟩
    · rw [← hquantum i]
      refine visitLeft_of_ne ?_
      rw [heq]
      exact hi

variable (h : s.Inv) (hreg : (s.slots s.cursor).registered = true)
  (hc : s.cursor < s.maxStrategies) (hi : i < s.maxStrategies) (hj : j < s.maxStrategies)
include h hreg hc hi hj

/-- Serving the first of a pair that stays active raises its lead by the other's quantum. -/
theorem lead_serve_first (hci : s.cursor = i) (hij : i ≠ j) (hrest : rest ≠ []) :
    (s.serve rest).lead i j = s.lead i j + (s.slots j).quantum := by
  subst hci
  obtain ⟨hlast, hfirst⟩ := before_advance_cursor hc hj hij.symm
  have hbudget := h.budget_pos hreg
  unfold lead
  rw [if_pos hfirst, visitLeft_cursor, quantum_serve, quantum_serve]
  rcases serve_visit s rest with ⟨hends, hbefore, hleft⟩ | ⟨_, _, hbefore, hleft, _⟩
  · have hone : s.budget = 1 := by
      rcases hends with hdrained | hspent
      · exact absurd hdrained hrest
      · omega
    rw [if_neg fun hb => hlast.asymm ((hbefore _ _).mp hb), hleft, hone]
    ring
  · rw [if_pos ((hbefore _ _).mpr hfirst), hleft]
    ring

/-- Serving the second of a pair that stays active takes the first's quantum off its lead. -/
theorem lead_serve_second (hcj : s.cursor = j) (hij : i ≠ j) (hrest : rest ≠ []) :
    (s.serve rest).lead i j = s.lead i j - (s.slots i).quantum := by
  subst hcj
  obtain ⟨hlast, hfirst⟩ := before_advance_cursor hc hi hij
  have hbudget := h.budget_pos hreg
  unfold lead
  rw [if_neg hfirst.asymm, visitLeft_cursor, quantum_serve, quantum_serve]
  rcases serve_visit s rest with ⟨hends, hbefore, hleft⟩ | ⟨_, _, hbefore, hleft, _⟩
  · have hone : s.budget = 1 := by
      rcases hends with hdrained | hspent
      · exact absurd hdrained hrest
      · omega
    rw [if_pos ((hbefore _ _).mpr hlast), hleft, hone]
    ring
  · rw [if_neg fun hb => hfirst.asymm ((hbefore _ _).mp hb), hleft]
    ring

omit h hreg in
theorem lead_serve_other (hci : i ≠ s.cursor) (hcj : j ≠ s.cursor) :
    (s.serve rest).lead i j = s.lead i j := by
  have hadvance := before_advance hc hi hj hci hcj
  unfold lead
  rw [quantum_serve, quantum_serve, visitLeft_of_ne hci, visitLeft_of_ne hcj]
  rcases serve_visit s rest with ⟨_, hbefore, hleft⟩ | ⟨_, _, hbefore, _, hleft⟩
  · simp only [hbefore, hadvance, hleft]
  · simp only [hbefore, hleft i hci, hleft j hcj]

variable (rest) in
/-- Serving a slot spends its allowance. -/
theorem allowance_serve (hci : s.cursor ≠ i) :
    (s.serve rest).allowance i j + (if s.cursor = j then 1 else 0) ≤ s.allowance i j := by
  have hbudget := h.budget_pos hreg
  unfold allowance
  by_cases hcj : s.cursor = j
  · subst hcj
    obtain ⟨hlast, hfirst⟩ := before_advance_cursor hc hi hci.symm
    rw [if_pos rfl, if_pos hfirst, visitLeft_cursor]
    rcases serve_visit s rest with ⟨_, hbefore, _⟩ | ⟨_, _, hbefore, hleft, _⟩
    · rw [if_neg fun hb => hlast.asymm ((hbefore _ _).mp hb)]
      omega
    · rw [if_pos ((hbefore _ _).mpr hfirst), hleft]
      omega
  · have hadvance := before_advance hc hj hi (Ne.symm hcj) hci.symm
    rw [if_neg hcj, visitLeft_of_ne (Ne.symm hcj), add_zero]
    rcases serve_visit s rest with ⟨_, hbefore, hleft⟩ | ⟨_, _, hbefore, _, hleft⟩
    · simp only [hbefore, hadvance, hleft, le_refl]
    · simp only [hbefore, hleft j (Ne.symm hcj), le_refl]

omit hreg in
/-- Skipping a slot other than the waiting one never adds to an allowance. -/
theorem allowance_advance (hjreg : (s.slots j).registered = true) (hci : s.cursor ≠ i) :
    s.advance.allowance i j ≤ s.allowance i j := by
  by_cases hcj : s.cursor = j
  · subst hcj
    obtain ⟨hlast, hfirst⟩ := before_advance_cursor hc hi hci.symm
    have hbounds := h.allowance_bounds (i := i) hjreg
    have hzero : s.advance.allowance i s.cursor = 0 := by
      unfold allowance
      exact if_neg hlast.asymm
    omega
  · have hadvance := before_advance hc hj hi (Ne.symm hcj) hci.symm
    unfold allowance
    simp only [hadvance, visitLeft_advance, visitLeft_of_ne (Ne.symm hcj), le_refl]

end Serve

section Step
variable {a b : UInt32} {p q : Nat}

/-- How often one call serves a strategy: once or not at all. -/
def serves (s : StrategyScheduler) (c : Call) (id : UInt32) : Nat :=
  (s.returns c).toList.countP fun r => r.strategy == id

theorem served_cons (c : Call) (calls : List Call) (id : UInt32) :
    s.served (c :: calls) id = s.serves c id + (s.step c).served calls id := by
  simp only [served, serves, returned, List.countP_append]

theorem Serves.strategy_eq_iff {out : ArbitratedRequest} {rest : List ArbitratedRequest}
    (hserves : s.Serves out rest) (h : s.Inv) (hc : s.cursor < s.maxStrategies)
    (hi : s.Registered i a p) : out.strategy = a ↔ s.cursor = i := by
  obtain ⟨hlt, hreg, hid, _⟩ := hi
  rw [hserves.strategy h]
  constructor
  · intro heq
    exact h.single _ hc i hlt hserves.registered hreg (heq.trans hid.symm)
  · rintro rfl
    exact hid

theorem serves_next {out : ArbitratedRequest} (hnext : s.next.1 = some out) (id : UInt32) :
    s.serves .next id = if out.strategy = id then 1 else 0 := by
  simp [serves, returns, hnext, List.countP_cons]

/-- Calls other than `next` leave the cursor and the visit alone. -/
theorem visit_kept {c : Call} (hc : c ≠ .next) :
    (s.step c).cursor = s.cursor ∧ (s.step c).visitDeficit = s.visitDeficit ∧
      (s.step c).maxStrategies = s.maxStrategies ∧ ∀ id, s.serves c id = 0 := by
  cases c with
  | registerStrategy id quantum =>
    simp only [StrategyScheduler.step]
    rcases s.registerStrategy_cases id quantum with heq | ⟨_, _, _, _, _, heq⟩
    · rw [heq]
      exact ⟨rfl, rfl, rfl, fun _ => rfl⟩
    · rw [heq]
      exact ⟨rfl, rfl, rfl, fun _ => rfl⟩
  | enqueue id venue side request =>
    simp only [StrategyScheduler.step]
    rcases s.enqueue_cases id venue side request with heq | ⟨_, _, ⟨_, heq⟩ | ⟨_, heq⟩⟩
    · rw [heq]
      exact ⟨rfl, rfl, rfl, fun _ => rfl⟩
    · rw [heq]
      exact ⟨rfl, rfl, rfl, fun _ => rfl⟩
    · rw [heq]
      exact ⟨rfl, rfl, rfl, fun _ => rfl⟩
  | next => exact absurd rfl hc

section Congruence
variable (hcursor : t.cursor = s.cursor) (hvisit : t.visitDeficit = s.visitDeficit)
  (hmax : t.maxStrategies = s.maxStrategies)
include hcursor hvisit

theorem visitLeft_congr (hi : (t.slots i).quantum = (s.slots i).quantum) :
    t.visitLeft i = s.visitLeft i := by
  unfold visitLeft
  rw [hcursor, hvisit, hi]

include hmax

theorem lead_congr (hi : (t.slots i).quantum = (s.slots i).quantum)
    (hj : (t.slots j).quantum = (s.slots j).quantum) : t.lead i j = s.lead i j := by
  have hbefore : t.Before i j ↔ s.Before i j := by
    unfold Before
    rw [hcursor, hmax]
  unfold lead
  simp only [hbefore, visitLeft_congr hcursor hvisit hi, visitLeft_congr hcursor hvisit hj, hi, hj]

theorem allowance_congr (hj : (t.slots j).quantum = (s.slots j).quantum) :
    t.allowance i j = s.allowance i j := by
  have hbefore : t.Before j i ↔ s.Before j i := by
    unfold Before
    rw [hcursor, hmax]
  unfold allowance
  simp only [hbefore, visitLeft_congr hcursor hvisit hj]

end Congruence

theorem Registered.active (hi : s.Registered i a p) (h : s.Inv) (hpending : s.pending a ≠ []) :
    s.Active i := by
  rw [hi.pending h] at hpending
  exact ⟨hi.2.1, hpending⟩

/-- While both stay active, the lead of a pair moves with their weighted service counts. -/
theorem Inv.lead_step (h : s.Inv) (hi : s.Registered i a p) (hj : s.Registered j b q) (hij : i ≠ j)
    (c : Call) (hai : s.pending a ≠ []) (hbj : s.pending b ≠ []) (hai' : (s.step c).pending a ≠ [])
    (hbj' : (s.step c).pending b ≠ []) :
    (s.step c).lead i j = s.lead i j + s.serves c a * q - s.serves c b * p := by
  by_cases hc : c = .next
  · subst hc
    simp only [StrategyScheduler.step] at hai' hbj' ⊢
    rcases h.next_cases (P := fun t => t.lead i j = s.lead i j) rfl (by
        intro t hmoved hcursor hlead hidle
        have hne : ∀ k, s.Active k → k ≠ t.cursor := by
          rintro k hk rfl
          exact hidle (hmoved.active.mpr hk)
        rw [lead_advance hcursor (hmoved.maxStrategies ▸ hi.1) (hmoved.maxStrategies ▸ hj.1)
          (hne i (hi.active h hai)) (hne j (hj.active h hbj))]
        exact hlead) with
      ⟨_, hidle⟩ | ⟨t, out, rest, hmoved, hcursor, hlead, hinv, hserves, heq⟩
    · exact absurd (hi.active h hai) (hidle i hi.1)
    · have hit := hmoved.registered.mpr hi
      have hjt := hmoved.registered.mpr hj
      have hfirst := hserves.strategy_eq_iff hinv hcursor hit
      have hsecond := hserves.strategy_eq_iff hinv hcursor hjt
      rw [serves_next (congrArg Prod.fst heq), serves_next (congrArg Prod.fst heq)]
      rw [heq] at hai' hbj' ⊢
      -- a served slot of the pair has something left
      have hrest : ∀ {k : Nat} {id : UInt32} {w : Nat}, t.Registered k id w → t.cursor = k →
          (t.serve rest).pending id ≠ [] → rest ≠ [] := by
        intro k id w hk hck hleft
        have hsplit := hserves.pending hinv hcursor id
        rw [hk.pending hinv, ← hck, hserves.queue,
          if_pos ((hserves.strategy_eq_iff hinv hcursor hk).mpr hck)] at hsplit
        simp only [List.cons_append, List.nil_append, List.cons.injEq, true_and] at hsplit
        rw [hsplit]
        exact hleft
      dsimp only at hai' hbj' ⊢
      rw [← hlead]
      by_cases hci : t.cursor = i
      · have hcj : t.cursor ≠ j := fun hcj => hij (hci.symm.trans hcj)
        rw [lead_serve_first hinv hserves.registered hcursor hit.1 hjt.1 hci hij
          (hrest hit hci hai'), if_pos (hfirst.mpr hci), if_neg fun hb => hcj (hsecond.mp hb),
          hjt.2.2.2]
        simp
      · by_cases hcj : t.cursor = j
        · rw [lead_serve_second hinv hserves.registered hcursor hit.1 hjt.1 hcj hij
            (hrest hjt hcj hbj'), if_neg fun ha => hci (hfirst.mp ha), if_pos (hsecond.mpr hcj),
            hit.2.2.2]
          simp
        · rw [lead_serve_other hcursor hit.1 hjt.1 (Ne.symm hci) (Ne.symm hcj),
            if_neg fun ha => hci (hfirst.mp ha), if_neg fun hb => hcj (hsecond.mp hb)]
          simp
  · obtain ⟨hcursor, hvisit, hmax, hnone⟩ := visit_kept (s := s) hc
    have hi' := h.registered_step hi c
    have hj' := h.registered_step hj c
    rw [lead_congr hcursor hvisit hmax (hi'.2.2.2.trans hi.2.2.2.symm)
      (hj'.2.2.2.trans hj.2.2.2.symm), hnone, hnone]
    simp

/-- While a strategy waits, serving another one spends that one's allowance. -/
theorem Inv.allowance_step (h : s.Inv) (hi : s.Registered i a p) (hj : s.Registered j b q)
    (c : Call) (hai : s.pending a ≠ []) (hwaits : s.serves c a = 0) :
    (s.step c).allowance i j + s.serves c b ≤ s.allowance i j := by
  by_cases hc : c = .next
  · subst hc
    simp only [StrategyScheduler.step]
    rcases h.next_cases (P := fun t => t.Inv ∧ t.allowance i j ≤ s.allowance i j) ⟨h, le_rfl⟩ (by
        rintro t hmoved hcursor ⟨hinv, hless⟩ hidle
        have hne : t.cursor ≠ i := by
          rintro rfl
          exact hidle (hmoved.active.mpr (hi.active h hai))
        have hjt := hmoved.registered.mpr hj
        exact ⟨hinv.advance, (allowance_advance hinv hcursor (hmoved.maxStrategies ▸ hi.1) hjt.1
          hjt.2.1 hne).trans hless⟩) with
      ⟨_, hidle⟩ | ⟨t, out, rest, hmoved, hcursor, ⟨_, hless⟩, hinv, hserves, heq⟩
    · exact absurd (hi.active h hai) (hidle i hi.1)
    · have hit := hmoved.registered.mpr hi
      have hjt := hmoved.registered.mpr hj
      rw [serves_next (congrArg Prod.fst heq)] at hwaits ⊢
      rw [heq]
      have hne : t.cursor ≠ i := by
        intro hci
        rw [if_pos ((hserves.strategy_eq_iff hinv hcursor hit).mpr hci)] at hwaits
        cases hwaits
      have hspent := allowance_serve rest hinv hserves.registered hcursor hit.1 hjt.1 hne
      simp only [hserves.strategy_eq_iff hinv hcursor hjt]
      refine le_trans ?_ hless
      split
      · rename_i hcj
        rw [if_pos hcj] at hspent
        exact_mod_cast hspent
      · rename_i hcj
        rw [if_neg hcj] at hspent
        exact_mod_cast hspent
  · obtain ⟨hcursor, hvisit, hmax, hnone⟩ := visit_kept (s := s) hc
    have hj' := h.registered_step hj c
    rw [allowance_congr hcursor hvisit hmax (hj'.2.2.2.trans hj.2.2.2.symm), hnone]
    simp

end Step

section Run
variable {a b : UInt32} {p q : Nat}

theorem Inv.waits (h : s.Inv) {c : Call} (hai : s.pending a ≠ []) (hwaits : s.serves c a = 0) :
    (s.step c).pending a ≠ [] := by
  have hbalance := h.pending_step c a
  have hnone : forStrategy a (s.returns c).toList = [] := by
    rw [← List.length_eq_zero_iff]
    simpa [serves, forStrategy, List.countP_eq_length_filter] using hwaits
  rw [hnone, List.nil_append] at hbalance
  rw [← hbalance]
  simp [hai]

theorem Inv.registered_run (h : s.Inv) (hi : s.Registered i a p) (calls : List Call) :
    (Runs.run StrategyScheduler.step s calls).Registered i a p := by
  induction calls generalizing s with
  | nil => exact hi
  | cons c calls ih => exact ih (h.step c) (h.registered_step hi c)

theorem Inv.allowance_run (h : s.Inv) (hi : s.Registered i a p) (hj : s.Registered j b q)
    (calls : List Call) (hai : s.pending a ≠ []) (hwaits : s.served calls a = 0) :
    (Runs.run StrategyScheduler.step s calls).allowance i j + s.served calls b ≤ s.allowance i j := by
  induction calls generalizing s with
  | nil => simp [served, returned]
  | cons c calls ih =>
    rw [served_cons] at hwaits
    have hhead := h.allowance_step hi hj c hai (by omega)
    have htail := ih (h.step c) (h.registered_step hi c) (h.registered_step hj c)
      (h.waits hai (by omega)) (by omega)
    rw [served_cons, Runs.run_cons]
    push_cast
    omega

theorem Inv.lead_run (h : s.Inv) (hi : s.Registered i a p) (hj : s.Registered j b q) (hij : i ≠ j)
    (calls : List Call)
    (hactive : Runs.Throughout StrategyScheduler.step (fun s => s.pending a ≠ [] ∧ s.pending b ≠ [])
      s calls) :
    (Runs.run StrategyScheduler.step s calls).lead i j =
      s.lead i j + s.served calls a * q - s.served calls b * p := by
  induction calls generalizing s with
  | nil => simp [served, returned]
  | cons c calls ih =>
    obtain ⟨hnow, hlater⟩ := Runs.throughout_cons.mp hactive
    have hnext := hlater [] List.nil_prefix
    rw [Runs.run_nil] at hnext
    have hhead := h.lead_step hi hj hij c hnow.1 hnow.2 hnext.1 hnext.2
    rw [Runs.run_cons, ih (h.step c) (h.registered_step hi c) (h.registered_step hj c) hlater, hhead,
      served_cons, served_cons]
    push_cast
    ring

end Run

/-- The requests returned for a strategy are those accepted from it, in order, but for the
ones still queued. -/
def Lossless (s : StrategyScheduler) (calls : List Call) : Prop :=
  ∀ id, forStrategy id (s.accepted calls) =
    forStrategy id (s.returned calls) ++ (Runs.run step s calls).pending id

/-- What the scheduler promises from a state on. -/
structure Fair (s : StrategyScheduler) : Prop where
  exhausted : s.next.1 = none ↔ ∀ i < s.maxStrategies, (s.slots i).queue = []
  /-- Before a waiting strategy is served, each other one is served at most its quantum. -/
  starvationFree : ∀ (a b : UInt32) (q : Nat) (segment : List Call), a ≠ b →
    s.quantumOf b = some q → s.pending a ≠ [] → s.served segment a = 0 → s.served segment b ≤ q
  /-- Two strategies that stay active are served in proportion to their quanta. -/
  proportional : ∀ (a b : UInt32) (p q : Nat) (segment : List Call), a ≠ b →
    s.quantumOf a = some p → s.quantumOf b = some q →
    Runs.Throughout step (fun s => s.pending a ≠ [] ∧ s.pending b ≠ []) s segment →
    |(s.served segment a * q - s.served segment b * p : Int)| ≤ p * q

theorem registered_of_quantumOf {a : UInt32} {p : Nat} (h : s.quantumOf a = some p) :
    ∃ i, s.Registered i a p := by
  obtain ⟨i, hf, hquantum⟩ := Option.map_eq_some_iff.mp h
  obtain ⟨hi, hreg, hid⟩ := findSlot_eq_some hf
  exact ⟨i, hi, hreg, hid, hquantum⟩

theorem registered_of_pending {a : UInt32} (h : s.pending a ≠ []) : ∃ i p, s.Registered i a p := by
  unfold pending at h
  split at h
  · rename_i i hf
    obtain ⟨hi, hreg, hid⟩ := findSlot_eq_some hf
    exact ⟨i, _, hi, hreg, hid, rfl⟩
  · exact absurd rfl h

theorem Inv.fair (h : s.Inv) : s.Fair where
  exhausted := h.next_eq_none_iff
  starvationFree a b q segment _ hb ha hwaits := by
    obtain ⟨i, p, hi⟩ := registered_of_pending ha
    obtain ⟨j, hj⟩ := registered_of_quantumOf hb
    have hspent := h.allowance_run hi hj segment ha hwaits
    have hbounds := h.allowance_bounds (i := i) hj.2.1
    have hfinal := (h.run segment).allowance_bounds (i := i) (h.registered_run hj segment).2.1
    have hquantum := hj.2.2.2
    omega
  proportional a b p q segment hab ha hb hactive := by
    obtain ⟨i, hi⟩ := registered_of_quantumOf ha
    obtain ⟨j, hj⟩ := registered_of_quantumOf hb
    have hij : i ≠ j := by
      rintro rfl
      exact hab (hi.2.2.1.symm.trans hj.2.2.1)
    have hmoved := h.lead_run hi hj hij segment hactive
    have hi' := h.registered_run hi segment
    have hj' := h.registered_run hj segment
    have hstart := h.lead_bounds hi.2.1 hj.2.1
    have hend := (h.run segment).lead_bounds hi'.2.1 hj'.2.1
    rw [hi.2.2.2, hj.2.2.2] at hstart
    rw [hi'.2.2.2, hj'.2.2.2] at hend
    rw [abs_le]
    constructor <;> linarith [hstart.1, hstart.2, hend.1, hend.2]

/-- Deficit round robin is lossless over every run, and fair from every state a run reaches. -/
theorem scheduler_lossless_and_fair (maxStrategies queueCapacity : Nat) (calls : List Call) :
    Lossless { maxStrategies := maxStrategies, queueCapacity := queueCapacity } calls ∧
    Fair (Runs.run step { maxStrategies := maxStrategies, queueCapacity := queueCapacity } calls) := by
  have hnew := inv_new maxStrategies queueCapacity
  refine ⟨?_, (hnew.run calls).fair⟩
  intro id
  have hbalance := hnew.pending_run calls id
  have hempty : pending { maxStrategies := maxStrategies, queueCapacity := queueCapacity } id = [] := by
    unfold pending
    split
    · rfl
    · rfl
  rw [hempty, List.nil_append] at hbalance
  exact hbalance

end MicrostructureEngine.StrategyScheduler
