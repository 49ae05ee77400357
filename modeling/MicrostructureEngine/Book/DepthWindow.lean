import MicrostructureEngine.Book.BoundedMap

/-!
# The book as a window on the venue's

The venue keeps all of its levels, the book the best ones, and both follow the same deltas. What the
book drops it does not get back when it has room again: then a hidden level that is removed looks like
a desync, and a new level behind it moves up in the book.
-/

namespace MicrostructureEngine.Book

open Replay (SymbolLimits)
open Strategy (Level)

set_option autoImplicit false

/-- A side of the venue after a delta. -/
def venueLevels (d : Delta) (levels : List Level) : List Level :=
  if d.effective = .remove then withoutLevel d.price levels else putLevel d.side ⟨d.price, d.newSize⟩ levels

structure Market where
  venue : Side → List Level
  book : OrderBook

namespace Market

def start (symbolId : Nat) (limits : SymbolLimits) (tolerance : CrossedTolerance) : Market :=
  ⟨fun _ => [], .new symbolId limits tolerance⟩

def step (m : Market) (d : Delta) : Market :=
  ⟨Function.update m.venue d.side (venueLevels d (m.venue d.side)), m.book.applied d⟩

/-- The levels of the venue that the book does not hold. -/
def hidden (m : Market) (side : Side) : List Level := (m.venue side).drop (m.book.ladder side).depth

/-- The delta is in range, and is one that the venue can send: an addition of a new price, or a change
or a removal of one that is there. A zero size is a removal. -/
def Valid (m : Market) (d : Delta) : Prop :=
  m.book.inRange d = true ∧ (d.effective = .add ↔ levelAt (m.venue d.side) d.price = none)

instance (m : Market) (d : Delta) : Decidable (m.Valid d) := inferInstanceAs (Decidable (_ ∧ _))

/-- The book has not asked for a rebase and holds the best levels of the venue. -/
def Faithful (m : Market) : Prop :=
  m.book.rebases = 0 ∧ ∀ side, m.book.levels side = (m.venue side).take (m.book.ladder side).depth

/-- A removal is of a price that the book holds; anything else finds the side full, or no hidden level
better than its price. -/
def InWindow (m : Market) (d : Delta) : Prop :=
  if d.effective = .remove then (m.book.ladder d.side).find d.price ≠ none
  else (m.book.ladder d.side).depth = maxBookDepth ∨
    ∀ level ∈ m.hidden d.side, Ladder.better d.side level.priceTicks d.price = false

instance (m : Market) (d : Delta) : Decidable (m.InWindow d) := by
  unfold InWindow
  infer_instance

/-! ## One delta -/

theorem faithful_iff {m : Market} :
    m.Faithful ↔ m.book.rebases = 0 ∧ ∀ side, m.book.levels side <+: m.venue side := by
  unfold Faithful
  refine and_congr_right fun _ => forall_congr' fun side => ?_
  rw [List.prefix_iff_eq_take]
  unfold OrderBook.levels
  rw [Ladder.length_shown]

/-- The book is faithful, and both books are in order. -/
structure Ordered (m : Market) : Prop where
  faithful : m.Faithful
  laddered : m.book.Laddered
  sorted : ∀ side, BestFirstSide side (m.venue side)

theorem venueLevels_sorted {d : Delta} {levels : List Level} (h : BestFirstSide d.side levels) :
    BestFirstSide d.side (venueLevels d levels) := by
  unfold venueLevels
  split_ifs
  · exact h.without d.price
  · exact h.put (better_order d.side) _

theorem sorted_step {m : Market} (h : ∀ side, BestFirstSide side (m.venue side)) (d : Delta) :
    ∀ side, BestFirstSide side ((m.step d).venue side) := by
  intro side
  unfold step
  dsimp only
  by_cases hside : side = d.side
  · rw [hside, Function.update_self]
    exact venueLevels_sorted (h d.side)
  · rw [Function.update_of_ne hside]
    exact h side

variable {m : Market} {d : Delta}

/-- The side of the delta stays a window exactly when the delta is one that the window can follow. -/
theorem Ordered.nextLevels_prefix_iff (h : m.Ordered)
    (hpresent : d.effective = .remove → levelAt (m.book.levels d.side) d.price ≠ none) :
    OrderBook.nextLevels d (m.book.levels d.side) <+: venueLevels d (m.venue d.side) ↔ m.InWindow d := by
  have hprefix := (faithful_iff.mp h.faithful).2 d.side
  unfold InWindow OrderBook.nextLevels venueLevels
  by_cases hremove : d.effective = .remove
  · rw [if_pos hremove, if_pos hremove, if_pos hremove]
    refine iff_of_true (BestFirst.without_prefix d.price hprefix) ?_
    rw [Ne, Ladder.find_eq_none_iff]
    exact hpresent hremove
  · rw [if_neg hremove, if_neg hremove, if_neg hremove]
    obtain ⟨behind, hvenue⟩ := hprefix
    have hdepth : (m.book.levels d.side).length = (m.book.ladder d.side).depth := Ladder.length_shown _
    have hhidden : m.hidden d.side = behind := by
      unfold hidden
      rw [← hvenue, ← hdepth, List.drop_left]
    have hsorted : BestFirstSide d.side (m.book.levels d.side ++ behind) := hvenue ▸ h.sorted d.side
    rw [hhidden, ← hdepth, ← hvenue]
    exact BestFirst.window_put (better_order d.side) hsorted (h.laddered d.side).bounded

theorem Ordered.step_faithful_iff (h : m.Ordered) (hvalid : m.Valid d) : (m.step d).Faithful ↔ m.InWindow d := by
  obtain ⟨hrebases, hlevels⟩ := faithful_iff.mp h.faithful
  rw [faithful_iff]
  unfold step OrderBook.applied
  have happlied := h.laddered.applies d
  dsimp only
  generalize (m.book.applyDelta d).1 = status, (m.book.applyDelta d).2 = c at happlied ⊢
  cases happlied with
  | rejected range =>
    rw [hvalid.1] at range
    cases range
  | rebase range removal absent cleared pending reference rebases =>
    refine iff_of_false ?_ ?_
    · rintro ⟨hzero, -⟩
      omega
    · unfold InWindow
      rw [if_pos removal, Ne, Ladder.find_eq_none_iff]
      exact fun hpresent => hpresent absent
  | accepted range present _ own other rebases =>
    rw [← h.nextLevels_prefix_iff present]
    constructor
    · rintro ⟨-, hwindow⟩
      have hside := hwindow d.side
      rwa [own, Function.update_self] at hside
    · intro hside
      refine ⟨rebases.trans hrebases, fun side => ?_⟩
      by_cases heq : side = d.side
      · rw [heq, own, Function.update_self]
        exact hside
      · rw [other side heq, Function.update_of_ne heq]
        exact hlevels side

theorem start_ordered (symbolId : Nat) (limits : SymbolLimits) (tolerance : CrossedTolerance) :
    (start symbolId limits tolerance).Ordered := by
  refine ⟨faithful_iff.mpr ⟨rfl, fun side => ?_⟩, OrderBook.new_laddered _ _ _, fun side => List.Pairwise.nil⟩
  cases side <;> exact List.nil_prefix

/-! ## Runs -/

/-- Over the deltas that a venue can send, the book stays a faithful top of the venue's exactly in the runs
whose deltas are all in the window when they are applied. -/
theorem faithful_iff_inWindow (symbolId : Nat) (limits : SymbolLimits) (tolerance : CrossedTolerance)
    {ds : List Delta} (hvalid : Runs.Along step Valid (start symbolId limits tolerance) ds) :
    Runs.Throughout step Faithful (start symbolId limits tolerance) ds ↔
      Runs.Along step InWindow (start symbolId limits tolerance) ds := by
  refine Runs.throughout_iff_along_within (I := Ordered) (fun m h => h.faithful) ?_ ?_
    (start_ordered symbolId limits tolerance) hvalid
  · intro m d h hd hwindow
    exact ⟨(h.step_faithful_iff hd).mpr hwindow, h.laddered.step d, sorted_step h.sorted d⟩
  · intro m d h hd hwindow hfaithful
    exact hwindow ((h.step_faithful_iff hd).mp hfaithful)

def bid (price size : Int) (action : DeltaAction) : Delta := ⟨.bid, price, size, action, 0⟩

/-- One bid more than the book holds, and then that bid is removed. -/
def belowTheWindow : List Delta :=
  ((List.range 33).map fun i => bid (100 - i) 1 .add) ++ [bid 68 0 .remove]

theorem faithful_iff_inWindow_two_bids :
    Runs.Along step Valid (start 0 {} {}) [bid 100 5 .add, bid 99 7 .add, bid 100 0 .remove] ∧
      (Runs.Throughout step Faithful (start 0 {} {}) [bid 100 5 .add, bid 99 7 .add, bid 100 0 .remove] ↔
        Runs.Along step InWindow (start 0 {} {}) [bid 100 5 .add, bid 99 7 .add, bid 100 0 .remove]) :=
  have hvalid : Runs.Along step Valid (start 0 {} {}) [bid 100 5 .add, bid 99 7 .add, bid 100 0 .remove] := by
    decide +kernel
  ⟨hvalid, faithful_iff_inWindow 0 {} {} hvalid⟩

theorem hidden_removal_rebases :
    Runs.Along step Valid (start 0 {} {}) belowTheWindow ∧
      ¬ Runs.Throughout step Faithful (start 0 {} {}) belowTheWindow := by
  refine ⟨by decide +kernel, fun hfaithful => ?_⟩
  have hrebases : (Runs.run step (start 0 {} {}) belowTheWindow).book.rebases = 1 := by decide +kernel
  rw [hfaithful.last.1] at hrebases
  cases hrebases

end Market

end MicrostructureEngine.Book
