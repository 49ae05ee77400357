import Mathlib.Algebra.BigOperators.Group.Finset.Basic
import Mathlib.Algebra.BigOperators.Group.Finset.Piecewise
import Mathlib.Data.List.Basic

/-!
# Queues drained into one file

Several producers write to queues of their own; a consumer appends the head of any
nonempty queue to a file until all queues are empty. What comes from one queue keeps its
order in the file, and a stable sort of a prefix by a stamp that does not decrease within
that queue keeps it again.
-/

namespace MicrostructureEngine.Draining

open scoped List
set_option autoImplicit false

universe u
variable {α : Type u}

/-- `file` is one of the orders in which the queues can be emptied. -/
inductive Drains : (Nat → List α) → List α → Prop where
  | done {queues : Nat → List α} (h : ∀ i, queues i = []) : Drains queues []
  | take {queues : Nat → List α} {i : Nat} {r : α} {rest file : List α} (h : queues i = r :: rest)
      (tail : Drains (Function.update queues i rest) file) : Drains queues (r :: file)

namespace Drains
variable {queues : Nat → List α} {file : List α}

theorem mem (h : Drains queues file) {r : α} (hr : r ∈ file) : ∃ i, r ∈ queues i := by
  induction h with
  | done _ => cases hr
  | @take queues i r' rest file h _ ih =>
    rcases List.mem_cons.mp hr with heq | hmem
    · refine ⟨i, ?_⟩
      rw [h, heq]
      exact List.mem_cons_self
    · obtain ⟨j, hj⟩ := ih hmem
      refine ⟨j, ?_⟩
      by_cases hji : j = i
      · subst hji
        rw [Function.update_self] at hj
        rw [h]
        exact List.mem_cons_of_mem r' hj
      · rwa [Function.update_of_ne hji] at hj

/-- The entries that only one queue can hold stand in the file as they stand in that queue. -/
theorem filter_eq (h : Drains queues file) {p : α → Bool} {i : Nat}
    (hp : ∀ j r, r ∈ queues j → p r = true → j = i) : file.filter p = (queues i).filter p := by
  induction h with
  | done h => rw [h i]
  | @take queues j r rest file h _ ih =>
    have hrest : ∀ k s, s ∈ Function.update queues j rest k → p s = true → k = i := by
      intro k s hs hps
      by_cases hk : k = j
      · subst hk
        rw [Function.update_self] at hs
        exact hp k s (by rw [h]; exact List.mem_cons_of_mem r hs) hps
      · rw [Function.update_of_ne hk] at hs
        exact hp k s hs hps
    have htail := ih hrest
    by_cases hji : j = i
    · subst hji
      rw [Function.update_self] at htail
      rw [h, List.filter_cons, List.filter_cons, htail]
    · rw [Function.update_of_ne (Ne.symm hji)] at htail
      have hr : p r = false := by
        by_contra hr
        exact hji (hp j r (by rw [h]; exact List.mem_cons_self) (by simpa using hr))
      rw [List.filter_cons_of_neg (by simp [hr]), htail]

theorem countP_eq (h : Drains queues file) (p : α → Bool) {n : Nat} (hn : ∀ i, n ≤ i → queues i = []) :
    file.countP p = ∑ i ∈ Finset.range n, (queues i).countP p := by
  induction h with
  | done h => simp [h]
  | @take queues j r rest file h _ ih =>
    have hj : j < n := by
      by_contra hge
      rw [hn j (by omega)] at h
      cases h
    have htail := ih (by
      intro i hi
      rw [Function.update_of_ne (by omega)]
      exact hn i hi)
    have hmem := Finset.mem_range.mpr hj
    rw [← Finset.add_sum_erase _ _ hmem] at htail ⊢
    have hsame : ∑ i ∈ (Finset.range n).erase j, (Function.update queues j rest i).countP p =
        ∑ i ∈ (Finset.range n).erase j, (queues i).countP p := by
      apply Finset.sum_congr rfl
      intro i hi
      rw [Function.update_of_ne (Finset.ne_of_mem_erase hi)]
    rw [hsame, Function.update_self] at htail
    rw [List.countP_cons, htail, h, List.countP_cons]
    omega

/-- What enters a queue behind everything else may be drained last. -/
theorem snoc (h : Drains queues file) (i : Nat) (r : α) :
    Drains (Function.update queues i (queues i ++ [r])) (file ++ [r]) := by
  induction h with
  | @done queues h =>
    have hqueue : Function.update queues i (queues i ++ [r]) i = [r] := by
      rw [Function.update_self, h i, List.nil_append]
    refine .take hqueue (.done fun j => ?_)
    by_cases hj : j = i
    · rw [hj, Function.update_self]
    · rw [Function.update_of_ne hj, Function.update_of_ne hj, h j]
  | @take queues j r' rest file hhead _ ih =>
    by_cases hj : j = i
    · subst hj
      have hqueue : Function.update queues j (queues j ++ [r]) j = r' :: (rest ++ [r]) := by
        rw [Function.update_self, hhead, List.cons_append]
      refine .take hqueue ?_
      rw [Function.update_self, Function.update_idem] at ih
      rw [Function.update_idem]
      exact ih
    · have hqueue : Function.update queues i (queues i ++ [r]) j = r' :: rest := by
        rw [Function.update_of_ne hj, hhead]
      refine .take hqueue ?_
      rw [Function.update_of_ne (Ne.symm hj), Function.update_comm hj] at ih
      exact ih

/-- One queue alone is copied to the file. -/
theorem single {queues : Nat → List α} {i : Nat} (h : ∀ j, j ≠ i → queues j = []) :
    Drains queues (queues i) := by
  generalize hq : queues i = q
  induction q generalizing queues with
  | nil =>
    apply done
    intro j
    by_cases hj : j = i
    · rw [hj, hq]
    · exact h j hj
  | cons r rest ih =>
    refine take hq (ih ?_ (Function.update_self i rest queues))
    intro j hj
    rw [Function.update_of_ne hj]
    exact h j hj

end Drains

section Stamps
variable (stamp : α → Nat)

/-- `std::stable_sort` by the stamp. -/
def sortByStamp (l : List α) : List α := l.mergeSort fun a b => decide (stamp a ≤ stamp b)

variable {stamp}

theorem mem_sortByStamp {l : List α} {r : α} : r ∈ sortByStamp stamp l ↔ r ∈ l :=
  List.mem_mergeSort

theorem sortByStamp_perm (stamp : α → Nat) (l : List α) : sortByStamp stamp l ~ l := List.mergeSort_perm l _

theorem sortByStamp_sorted (l : List α) :
    (sortByStamp stamp l).Pairwise fun a b => stamp a ≤ stamp b := by
  have hsorted : (sortByStamp stamp l).Pairwise fun a b => decide (stamp a ≤ stamp b) = true := by
    apply List.pairwise_mergeSort
    · intro a b c hab hbc
      simp only [decide_eq_true_eq] at hab hbc ⊢
      omega
    · intro a b
      simp only [Bool.or_eq_true, decide_eq_true_eq]
      omega
  apply hsorted.imp
  intro a b hab
  exact of_decide_eq_true hab

theorem sortByStamp_of_sorted {l : List α} (h : l.Pairwise fun a b => stamp a ≤ stamp b) :
    sortByStamp stamp l = l := by
  apply List.mergeSort_of_pairwise
  apply h.imp
  intro a b hab
  exact decide_eq_true hab

/-- A class of entries that is in stamp order already is not reordered. -/
theorem filter_sortByStamp {l : List α} {p : α → Bool}
    (h : (l.filter p).Pairwise fun a b => stamp a ≤ stamp b) :
    (sortByStamp stamp l).filter p = l.filter p := by
  have hsub : l.filter p <+ sortByStamp stamp l := by
    apply List.sublist_mergeSort
    · intro a b c hab hbc
      simp only [decide_eq_true_eq] at hab hbc ⊢
      omega
    · intro a b
      simp only [Bool.or_eq_true, decide_eq_true_eq]
      omega
    · apply h.imp
      intro a b hab
      exact decide_eq_true hab
    · exact List.filter_sublist
  have hfilter := hsub.filter p
  simp only [List.filter_filter, Bool.and_self] at hfilter
  exact (hfilter.eq_of_length ((sortByStamp_perm stamp l).filter p).length_eq.symm).symm

end Stamps

end MicrostructureEngine.Draining
