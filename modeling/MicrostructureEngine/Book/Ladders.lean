import MicrostructureEngine.Book.OrderBook

/-!
# The ladders as best-first lists

What the shifting loops do to the levels that count: an erasure, an insertion or a change of one
entry of a list. Under the order of its side these are the operations on a best-first list, cut at
the depth of the book.
-/

namespace MicrostructureEngine.Book

open Replay (SymbolLimits)
open Strategy (Level)

set_option autoImplicit false

/-! ## Shifting loops -/

section Loops
variable {α : Type} (levels : Nat → α)

theorem shiftDown_apply (start count j : Nat) :
    (List.range' start count).foldl (fun levels i => Function.update levels i (levels (i + 1))) levels j =
      if start ≤ j ∧ j < start + count then levels (j + 1) else levels j := by
  induction count generalizing j with
  | zero => rw [if_neg (by omega)]; rfl
  | succ n ih =>
    rw [List.range'_concat, List.foldl_append, List.foldl_cons, List.foldl_nil, Nat.one_mul]
    by_cases hj : j = start + n
    · rw [hj, Function.update_self, ih, if_neg (by omega), if_pos (by omega)]
    · rw [Function.update_of_ne hj, ih]
      by_cases hin : start ≤ j ∧ j < start + n
      · rw [if_pos hin, if_pos (by omega)]
      · rw [if_neg hin, if_neg (by omega)]

theorem shiftUp_apply (start count j : Nat) :
    (List.range' start count).reverse.foldl (fun levels i => Function.update levels i (levels (i - 1))) levels j =
      if start ≤ j ∧ j < start + count then levels (j - 1) else levels j := by
  induction count generalizing levels with
  | zero => rw [if_neg (by omega)]; rfl
  | succ n ih =>
    rw [List.range'_concat, List.reverse_append, List.reverse_singleton, List.singleton_append, List.foldl_cons,
      ih, Nat.one_mul]
    by_cases hj : j = start + n
    · rw [hj, if_neg (by omega), Function.update_self, if_pos (by omega)]
    · rw [Function.update_of_ne hj]
      by_cases hin : start ≤ j ∧ j < start + n
      · rw [if_pos hin, if_pos (by omega), Function.update_of_ne (by omega)]
      · rw [if_neg hin, if_neg (by omega)]

end Loops

/-- An entry that is inserted within the front of a list pushes the last of the front out. -/
theorem insertIdx_take {α : Type} {position n : Nat} (h : position ≤ n) (xs : List α) (a : α) :
    (xs.take n).insertIdx position a = (xs.insertIdx position a).take (n + 1) := by
  induction position generalizing n xs with
  | zero => rfl
  | succ position ih =>
    obtain ⟨m, rfl⟩ : ∃ m, n = m + 1 := ⟨n - 1, by omega⟩
    cases xs with
    | nil => rfl
    | cons x xs =>
      rw [List.take_succ_cons, List.insertIdx_succ_cons, List.insertIdx_succ_cons, List.take_succ_cons,
        ih (by omega)]

namespace Ladder
variable {l : Ladder}

@[simp] theorem length_shown (l : Ladder) : l.shown.length = l.depth := by simp [shown]

theorem getElem_shown {i : Nat} (h : i < l.shown.length) : l.shown[i] = l.levels i := by simp [shown]

/-- A shallower ladder shows the front of the same array. -/
theorem shown_take {n : Nat} (h : n ≤ l.depth) : ({ l with depth := n } : Ladder).shown = l.shown.take n := by
  simp only [shown]
  rw [← List.map_take, List.take_range, Nat.min_eq_left h]

theorem shown_eraseAt {index : Nat} (h : index < l.depth) : (l.eraseAt index).shown = l.shown.eraseIdx index := by
  have hdepth : (l.eraseAt index).depth = l.depth - 1 := if_pos (by omega)
  apply List.ext_getElem
  · rw [length_shown, hdepth, List.length_eraseIdx_of_lt (by simpa using h), length_shown]
  · intro i hi hi'
    rw [length_shown, hdepth] at hi
    rw [getElem_shown, List.getElem_eraseIdx]
    unfold eraseAt
    dsimp only
    rw [shiftDown_apply]
    split_ifs with hin hlt
    · omega
    · rw [getElem_shown]
    · rw [getElem_shown]
    · omega

theorem shown_insertAt {position : Nat} (h : position ≤ l.depth) (entry : Level) :
    (l.insertAt position entry).shown = l.shown.insertIdx position entry := by
  have hdepth : (l.insertAt position entry).depth = l.depth + 1 := rfl
  apply List.ext_getElem
  · rw [length_shown, hdepth, List.length_insertIdx_of_le_length (by simpa using h), length_shown]
  · intro i hi hi'
    rw [length_shown, hdepth] at hi
    rw [getElem_shown, List.getElem_insertIdx]
    unfold insertAt
    dsimp only
    by_cases heq : i = position
    · subst heq
      rw [Function.update_self, dif_neg (Nat.lt_irrefl _), dif_pos rfl]
    · rw [Function.update_of_ne heq, shiftUp_apply]
      split_ifs with hin hlt
      · omega
      · rw [getElem_shown]
      · rw [getElem_shown]
      · omega

theorem shown_resize (l : Ladder) (index : Nat) (size : Int) :
    (l.resize index size).shown = l.shown.set index ⟨(l.levels index).priceTicks, size⟩ := by
  apply List.ext_getElem
  · simp [resize]
  · intro i hi hi'
    rw [getElem_shown, List.getElem_set]
    unfold resize
    dsimp only
    by_cases heq : index = i
    · rw [if_pos heq, ← heq, Function.update_self]
    · rw [if_neg heq, Function.update_of_ne (Ne.symm heq), getElem_shown]

end Ladder

/-! ## In the order of the side -/

theorem better_order (side : Side) : BestFirst.Order (Ladder.better side) := by
  cases side with
  | bid =>
    refine ⟨fun a => ?_, ?_, ?_⟩
    · simp [Ladder.better]
    · intro a b c hab hbc
      simp only [Ladder.better, decide_eq_true_eq] at hab hbc ⊢
      omega
    · intro a b hab
      simp only [Ladder.better, decide_eq_true_eq]
      omega
  | ask =>
    refine ⟨fun a => ?_, ?_, ?_⟩
    · simp [Ladder.better]
    · intro a b c hab hbc
      simp only [Ladder.better, decide_eq_true_eq] at hab hbc ⊢
      omega
    · intro a b hab
      simp only [Ladder.better, decide_eq_true_eq]
      omega

/-- Strictly best first. -/
abbrev BestFirstSide (side : Side) (levels : List Level) : Prop :=
  BestFirst.Sorted Level.priceTicks (Ladder.better side) levels

/-- The level of a price. -/
abbrev levelAt (levels : List Level) (price : Int) : Option Level := BestFirst.entryAt Level.priceTicks levels price

abbrev putLevel (side : Side) (level : Level) (levels : List Level) : List Level :=
  BestFirst.put Level.priceTicks (Ladder.better side) level levels

abbrev withoutLevel (price : Int) (levels : List Level) : List Level :=
  BestFirst.without Level.priceTicks price levels

namespace Ladder
variable {l : Ladder} {side : Side} {price size : Int}

theorem find_eq_none_iff : l.find price = none ↔ levelAt l.shown price = none := by
  unfold find
  rw [List.findIdx?_eq_none_iff, BestFirst.entryAt_eq_none_iff]
  simp

theorem find_eq_some {index : Nat} (h : l.find price = some index) :
    index < l.depth ∧ (l.levels index).priceTicks = price := by
  obtain ⟨hlt, hat, -⟩ := List.findIdx?_eq_some_iff_getElem.mp h
  rw [getElem_shown] at hat
  exact ⟨by simpa using hlt, beq_iff_eq.mp hat⟩

theorem eraseAt_removes (hs : BestFirstSide side l.shown) {index : Nat} (h : l.find price = some index) :
    (l.eraseAt index).shown = withoutLevel price l.shown := by
  obtain ⟨hlt, -⟩ := find_eq_some h
  rw [shown_eraseAt hlt]
  exact (BestFirst.without_eq_eraseIdx (better_order side) hs h).symm

theorem resize_sets (hs : BestFirstSide side l.shown) {index : Nat} (h : l.find price = some index) (size : Int) :
    (l.resize index size).shown = putLevel side ⟨price, size⟩ l.shown := by
  have hfound : (l.shown.findIdx? fun b => b.priceTicks == (⟨price, size⟩ : Level).priceTicks) = some index := h
  rw [shown_resize, (find_eq_some h).2]
  exact (BestFirst.put_eq_set (better_order side) hs hfound).symm

variable (side) in
/-- A price that is not there goes before the first level it is better than. A full ladder loses its
last level, which is the new one if that is not better than any. -/
theorem insertSorted_puts {entry : Level} (hnew : levelAt l.shown entry.priceTicks = none)
    (hdepth : l.depth ≤ maxBookDepth) :
    let r := l.insertSorted side entry
    let full := putLevel side entry l.shown
    (r.1 = true → r.2.shown = full.take maxBookDepth) ∧
      (r.1 = false → r.2 = l ∧ l.depth = maxBookDepth ∧ l.shown = full.take maxBookDepth) := by
  dsimp only
  have hput : putLevel side entry l.shown = _ := BestFirst.put_eq_insertIdx hnew
  have hposition : (l.shown.findIdx fun level => better side entry.priceTicks level.priceTicks) =
      (l.shown.findIdx? fun level => better side entry.priceTicks level.priceTicks).getD l.shown.length :=
    List.findIdx_eq_getD_findIdx?
  have hle : (l.shown.findIdx fun level => better side entry.priceTicks level.priceTicks) ≤ l.shown.length :=
    List.findIdx_le_length
  rw [length_shown] at hposition hle
  unfold insertSorted
  dsimp only
  rw [← hposition, hput]
  generalize (l.shown.findIdx fun level => better side entry.priceTicks level.priceTicks) = position at hle ⊢
  by_cases hworst : position = maxBookDepth
  · have hfull : l.shown.length = maxBookDepth := by
      rw [length_shown]
      omega
    have hfront : l.shown = (l.shown.insertIdx position entry).take maxBookDepth := by
      rw [hworst, ← hfull, List.insertIdx_length_self, List.take_left]
    rw [if_pos hworst]
    refine ⟨?_, ?_⟩
    · intro h
      cases h
    · intro _
      exact ⟨rfl, by omega, hfront⟩
  · rw [if_neg hworst]
    by_cases hfull : l.depth = maxBookDepth
    · have hless : l.depth - 1 ≤ l.depth := Nat.sub_le _ _
      have hroom : l.depth - 1 + 1 = maxBookDepth := by
        unfold maxBookDepth at hfull ⊢
        omega
      rw [if_pos hfull, if_neg (by omega)]
      refine ⟨?_, ?_⟩
      · intro _
        rw [shown_insertAt (by dsimp only; omega), shown_take hless, insertIdx_take (by omega), hroom]
      · intro h
        cases h
    · rw [if_neg hfull]
      refine ⟨?_, ?_⟩
      · intro _
        have hlength : (l.shown.insertIdx position entry).length ≤ maxBookDepth := by
          rw [List.length_insertIdx_of_le_length (by simpa using hle), length_shown]
          omega
        rw [shown_insertAt hle, List.take_of_length_le hlength]
      · intro h
        cases h

end Ladder

end MicrostructureEngine.Book
