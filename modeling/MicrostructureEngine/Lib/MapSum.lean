import Mathlib.Algebra.BigOperators.Group.Finset.Basic
import Mathlib.Algebra.BigOperators.Group.Finset.Piecewise
import Mathlib.Algebra.Ring.Int.Defs
import Mathlib.Data.Fintype.Basic

/-!
# Sums over finite maps

A finite map is a function into `Option` on a finite key type. `total f m` adds `f` over
the values present in `m`; the lemmas say how it moves when one key is rewritten and how
it reads off an array whose entries carry pairwise distinct keys.
-/

namespace MicrostructureEngine.MapSum

set_option autoImplicit false

universe u v
variable {K : Type u} {V : Type v} [Fintype K]

noncomputable def total (f : V → Int) (m : K → Option V) : Int := ∑ k, (m k).elim 0 f

@[simp] theorem total_empty (f : V → Int) : total f (fun _ : K => none) = 0 := by
  simp [total]

theorem total_congr (f g : V → Int) (m : K → Option V)
    (h : ∀ k v, m k = some v → f v = g v) : total f m = total g m := by
  apply Finset.sum_congr rfl
  intro k _
  cases hm : m k with
  | none => rfl
  | some v => exact h k v hm

theorem total_map {W : Type v} (f : W → Int) (g : V → W) (m : K → Option V) :
    total f (fun k => (m k).map g) = total (fun v => f (g v)) m := by
  apply Finset.sum_congr rfl
  intro k _
  dsimp only
  cases m k <;> rfl

section Update
variable [DecidableEq K]

/-- Two sums that differ in one term. -/
theorem sum_sub_eq {f g : K → Int} (k : K) (h : ∀ j, j ≠ k → f j = g j) :
    ∑ j, f j - f k = ∑ j, g j - g k := by
  have hrest : ∑ j ∈ Finset.univ.erase k, f j = ∑ j ∈ Finset.univ.erase k, g j :=
    Finset.sum_congr rfl fun j hj => h j (Finset.ne_of_mem_erase hj)
  rw [← Finset.add_sum_erase _ f (Finset.mem_univ k), ← Finset.add_sum_erase _ g (Finset.mem_univ k),
    hrest]
  omega

theorem total_update (f : V → Int) (m : K → Option V) (k : K) (v : Option V) :
    total f (Function.update m k v) = total f m - (m k).elim 0 f + v.elim 0 f := by
  have hdiff := sum_sub_eq (f := fun j => (Function.update m k v j).elim 0 f)
    (g := fun j => (m j).elim 0 f) k fun j hj => by rw [Function.update_of_ne hj]
  rw [Function.update_self] at hdiff
  unfold total
  omega

/-- Reading the total off a dense array of `n` entries with pairwise distinct keys. -/
theorem total_eq_sum_range (f : V → Int) (m : K → Option V) (n : Nat) (slots : Nat → V)
    (key : V → K) (hinj : ∀ i < n, ∀ j < n, key (slots i) = key (slots j) → i = j)
    (hkey : ∀ k v, m k = some v ↔ ∃ i < n, slots i = v ∧ key v = k) :
    total f m = ((List.range n).map fun i => f (slots i)).sum := by
  induction n generalizing m with
  | zero =>
    have hm : m = fun _ => none := by
      funext k
      cases h : m k with
      | none => rfl
      | some v =>
        obtain ⟨i, hi, _⟩ := (hkey k v).mp h
        omega
    simp [hm]
  | succ n ih =>
    -- The map without the last entry is described by the first `n` slots.
    have hlast : m (key (slots n)) = some (slots n) :=
      (hkey _ _).mpr ⟨n, Nat.lt_succ_self n, rfl, rfl⟩
    have hrest := ih (Function.update m (key (slots n)) none)
      (fun i hi j hj => hinj i (by omega) j (by omega)) ?_
    · rw [total_update, hlast] at hrest
      simp only [Option.elim_some, Option.elim_none] at hrest
      rw [List.range_succ, List.map_append, List.sum_append, ← hrest]
      simp
    · intro k v
      by_cases hk : k = key (slots n)
      · subst hk
        simp only [Function.update_self]
        constructor
        · intro h
          cases h
        · rintro ⟨i, hi, rfl, he⟩
          have := hinj i (by omega) n (by omega) he
          omega
      · rw [Function.update_of_ne hk, hkey]
        constructor
        · rintro ⟨i, hi, rfl, rfl⟩
          refine ⟨i, ?_, rfl, rfl⟩
          by_contra hn
          have : i = n := by omega
          exact hk (by rw [this])
        · rintro ⟨i, hi, rfl, rfl⟩
          exact ⟨i, by omega, rfl, rfl⟩

end Update

end MicrostructureEngine.MapSum
