import Mathlib

/-!
# The equity curve

The running sums of a list of gains, from nothing gained on. One pass that keeps the last sum, the
greatest one and the greatest fall so far finds the greatest fall between any two points of the curve.
-/

namespace MicrostructureEngine.Drawdown

set_option autoImplicit false

universe u
variable {α : Type u} [AddCommGroup α] [LinearOrder α] [IsOrderedAddMonoid α]

def equity (xs : List α) (k : Nat) : α := (xs.take k).sum

/-- The points of the curve. -/
def points (xs : List α) : Set α := {e | ∃ k ≤ xs.length, equity xs k = e}

/-- How far the curve falls from any of its points to a later one. -/
def falls (xs : List α) : Set α := {d | ∃ j ≤ xs.length, ∃ i ≤ j, equity xs i - equity xs j = d}

/-- What one pass over the gains keeps. -/
structure Running (xs : List α) (total peak deepest : α) : Prop where
  total : total = xs.sum
  peak : IsGreatest (points xs) peak
  deepest : IsGreatest (falls xs) deepest

omit [LinearOrder α] [IsOrderedAddMonoid α] in
theorem equity_length (xs : List α) : equity xs xs.length = xs.sum := by
  unfold equity
  rw [List.take_length]

omit [LinearOrder α] [IsOrderedAddMonoid α] in
theorem equity_snoc {xs : List α} {k : Nat} (hk : k ≤ xs.length) (x : α) :
    equity (xs ++ [x]) k = equity xs k := by
  unfold equity
  rw [List.take_append_of_le_length hk]

omit [LinearOrder α] [IsOrderedAddMonoid α] in
theorem equity_snoc_last (xs : List α) (x : α) : equity (xs ++ [x]) (xs.length + 1) = xs.sum + x := by
  have hlength : xs.length + 1 = (xs ++ [x]).length := by simp
  rw [hlength, equity_length]
  simp

omit [LinearOrder α] [IsOrderedAddMonoid α] in
theorem points_snoc (xs : List α) (x : α) : points (xs ++ [x]) = insert (xs.sum + x) (points xs) := by
  ext e
  constructor
  · rintro ⟨k, hk, rfl⟩
    rw [List.length_append, List.length_singleton] at hk
    rcases Nat.le_succ_iff.mp hk with hk | rfl
    · exact Or.inr ⟨k, hk, (equity_snoc hk x).symm⟩
    · exact Or.inl (equity_snoc_last xs x)
  · rintro (rfl | ⟨k, hk, rfl⟩)
    · exact ⟨xs.length + 1, by simp, equity_snoc_last xs x⟩
    · exact ⟨k, by simp; omega, equity_snoc hk x⟩

omit [LinearOrder α] [IsOrderedAddMonoid α] in
/-- A new fall ends in the new point. -/
theorem falls_snoc (xs : List α) (x : α) :
    falls (xs ++ [x]) = falls xs ∪ (fun e => e - (xs.sum + x)) '' points (xs ++ [x]) := by
  ext d
  constructor
  · rintro ⟨j, hj, i, hi, rfl⟩
    rw [List.length_append, List.length_singleton] at hj
    rcases Nat.le_succ_iff.mp hj with hj | rfl
    · refine Or.inl ⟨j, hj, i, hi, ?_⟩
      rw [equity_snoc hj, equity_snoc (Nat.le_trans hi hj)]
    · refine Or.inr ⟨equity (xs ++ [x]) i, ⟨i, by simpa using hi, rfl⟩, ?_⟩
      rw [equity_snoc_last]
  · rintro (⟨j, hj, i, hi, rfl⟩ | ⟨_, ⟨i, hi, rfl⟩, rfl⟩)
    · refine ⟨j, by simp; omega, i, hi, ?_⟩
      rw [equity_snoc hj, equity_snoc (Nat.le_trans hi hj)]
    · rw [List.length_append, List.length_singleton] at hi
      refine ⟨xs.length + 1, by simp, i, hi, ?_⟩
      rw [equity_snoc_last]

omit [IsOrderedAddMonoid α] in
theorem Running.nil : Running ([] : List α) 0 0 0 where
  total := rfl
  peak := by
    constructor
    · exact ⟨0, Nat.le_refl 0, rfl⟩
    · rintro _ ⟨k, -, rfl⟩
      simp [equity]
  deepest := by
    constructor
    · exact ⟨0, Nat.le_refl 0, 0, Nat.le_refl 0, by simp [equity]⟩
    · rintro _ ⟨j, -, i, -, rfl⟩
      simp [equity]

/-- The pass takes one more gain. -/
theorem Running.snoc {xs : List α} {total peak deepest : α} (h : Running xs total peak deepest) (x : α) :
    Running (xs ++ [x]) (total + x) (max (total + x) peak)
      (max deepest (max (total + x) peak - (total + x))) := by
  have hpeak : IsGreatest (points (xs ++ [x])) (max (total + x) peak) := by
    rw [points_snoc, ← h.total]
    exact h.peak.insert _
  refine ⟨by simp [h.total], hpeak, ?_⟩
  rw [falls_snoc, ← h.total]
  have hmono : Monotone fun e : α => e - (total + x) := fun a b hab => sub_le_sub_right hab _
  exact h.deepest.union (hmono.map_isGreatest hpeak)

end MicrostructureEngine.Drawdown
