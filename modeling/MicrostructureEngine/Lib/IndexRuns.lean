import Mathlib.Data.List.Chain
import Mathlib.Data.List.Range

/-!
# Breaks in an ascending list of numbers

The numbers of a strictly ascending list are an interval exactly when each one follows the one before it.
A break is a number that is not the last one and whose successor is missing.
-/

namespace MicrostructureEngine.IndexRuns

set_option autoImplicit false

/-- The neighbours whose second number is not the successor of the first. -/
def breaks : List Nat → Nat
  | a :: b :: rest => (if b ≠ a + 1 then 1 else 0) + breaks (b :: rest)
  | _ => 0

/-- The numbers of the list are those from one bound up to another. -/
def IsInterval (l : List Nat) : Prop := ∃ a b, ∀ i, i ∈ l ↔ a ≤ i ∧ i < b

/-- Some number of the list is greater, and the next one is missing. -/
def BreakAt (l : List Nat) (i : Nat) : Prop := i + 1 ∉ l ∧ ∃ j ∈ l, i < j

instance (l : List Nat) (i : Nat) : Decidable (BreakAt l i) := inferInstanceAs (Decidable (_ ∧ ∃ j ∈ l, i < j))

section Ascending
variable {a b : Nat} {rest : List Nat}

theorem lt_of_mem_tail (h : (a :: rest).Pairwise (· < ·)) {i : Nat} (hi : i ∈ rest) : a < i :=
  (List.pairwise_cons.mp h).1 i hi

/-- Below the smallest number of a list nothing of it is seen. -/
theorem breakAt_cons (h : (a :: rest).Pairwise (· < ·)) {i : Nat} (hi : i ∈ rest) :
    BreakAt (a :: rest) i ↔ BreakAt rest i := by
  have hlt := lt_of_mem_tail h hi
  have hnext : i + 1 ∈ a :: rest ↔ i + 1 ∈ rest := by
    rw [List.mem_cons]
    exact ⟨fun hor => hor.resolve_left (by omega), .inr⟩
  unfold BreakAt
  rw [hnext]
  apply and_congr_right
  intro _
  constructor
  · rintro ⟨j, hj, hij⟩
    rcases List.mem_cons.mp hj with rfl | hj
    · omega
    · exact ⟨j, hj, hij⟩
  · rintro ⟨j, hj, hij⟩
    exact ⟨j, List.mem_cons_of_mem a hj, hij⟩

theorem breakAt_head (h : (a :: b :: rest).Pairwise (· < ·)) : BreakAt (a :: b :: rest) a ↔ b ≠ a + 1 := by
  have hab := lt_of_mem_tail h List.mem_cons_self
  constructor
  · rintro ⟨hmissing, -⟩ rfl
    exact hmissing (List.mem_cons_of_mem a List.mem_cons_self)
  · intro hne
    refine ⟨?_, b, List.mem_cons_of_mem a List.mem_cons_self, hab⟩
    intro hmem
    rcases List.mem_cons.mp hmem with heq | hmem
    · omega
    · rcases List.mem_cons.mp hmem with heq | hmem
      · exact hne heq.symm
      · have hb := lt_of_mem_tail (List.pairwise_cons.mp h).2 hmem
        omega

end Ascending

theorem breaks_eq_countP {l : List Nat} (h : l.Pairwise (· < ·)) :
    breaks l = l.countP fun i => decide (BreakAt l i) := by
  induction l with
  | nil => rfl
  | cons a rest ih =>
    have hrest := ih (List.pairwise_cons.mp h).2
    have hsame : (rest.countP fun i => decide (BreakAt (a :: rest) i)) =
        rest.countP fun i => decide (BreakAt rest i) := by
      apply List.countP_congr
      intro i hi
      rw [decide_eq_true_iff, decide_eq_true_iff]
      exact breakAt_cons h hi
    rw [List.countP_cons, hsame, ← hrest]
    cases rest with
    | nil =>
      have hnone : ¬ BreakAt [a] a := by
        rintro ⟨-, j, hj, hlt⟩
        rw [List.mem_singleton.mp hj] at hlt
        exact Nat.lt_irrefl _ hlt
      rw [if_neg (by rwa [decide_eq_true_iff])]
      rfl
    | cons b rest =>
      have hcount : breaks (a :: b :: rest) = (if b ≠ a + 1 then 1 else 0) + breaks (b :: rest) := rfl
      rw [hcount, Nat.add_comm]
      simp only [decide_eq_true_iff, breakAt_head h]

theorem breaks_eq_zero_iff {l : List Nat} (h : l.Pairwise (· < ·)) : breaks l = 0 ↔ IsInterval l := by
  rw [breaks_eq_countP h, List.countP_eq_zero]
  simp only [decide_eq_true_iff]
  constructor
  · intro hnone
    cases l with
    | nil => exact ⟨0, 0, fun i => ⟨fun hi => absurd hi List.not_mem_nil, fun hi => by omega⟩⟩
    | cons a rest =>
      have hlast := List.getLast_mem (List.cons_ne_nil a rest)
      have hle : ∀ i ∈ a :: rest, i ≤ (a :: rest).getLast (List.cons_ne_nil a rest) :=
        fun i hi => (h.imp Nat.le_of_lt).rel_getLast hi
      generalize (a :: rest).getLast (List.cons_ne_nil a rest) = last at hlast hle
      refine ⟨a, last + 1, fun i => ⟨fun hi => ⟨?_, Nat.lt_succ_of_le (hle i hi)⟩, ?_⟩⟩
      · rcases List.mem_cons.mp hi with rfl | hi
        · exact Nat.le_refl _
        · exact Nat.le_of_lt (lt_of_mem_tail h hi)
      · -- From the first number on, a number below the last one has its successor in the list.
        rintro ⟨hai, hil⟩
        induction i, hai using Nat.le_induction with
        | base => exact List.mem_cons_self
        | succ i _ ih =>
          by_contra hmissing
          exact hnone i (ih (by omega)) ⟨hmissing, last, hlast, by omega⟩
  · rintro ⟨a, b, hmem⟩ i hi ⟨hmissing, j, hj, hij⟩
    have hi' := (hmem i).mp hi
    have hj' := (hmem j).mp hj
    exact hmissing ((hmem (i + 1)).mpr (by omega))

end MicrostructureEngine.IndexRuns
