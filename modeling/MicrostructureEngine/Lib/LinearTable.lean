import MicrostructureEngine.Lib.Probing

/-!
# Linear probing without tombstones

Every slot of the table is free or holds one key, and a lookup walks the probe run of its
key up to the key or to the first free slot. `Linked` says that no free slot separates a
key from its home. An insertion keeps it. A deletion that only frees its slot keeps it when
no other key's run crosses that slot, and loses every key whose run does.
-/

namespace MicrostructureEngine.Probing

set_option autoImplicit false

universe u
variable {K : Type u} {n : Nat} {home : K → Nat} {keys : Nat → Option K}

theorem distance_probe {k : Nat} (hk : k < n) (start : Nat) :
    distance n start (probe n start k) = k := by
  have hh := Nat.mod_lt start (by omega : 0 < n)
  unfold probe distance
  rw [Nat.add_mod, Nat.mod_mod, ← Nat.add_mod]
  have hsplit : start + k + (n - start % n) = k + n * (start / n + 1) := by
    have := Nat.div_add_mod start n
    rw [Nat.mul_add, Nat.mul_one]
    omega
  rw [hsplit, Nat.add_mul_mod_self_left, Nat.mod_eq_of_lt hk]

/-- The run from `start` to `q` passes over `p`. -/
def Crosses (n start q p : Nat) : Prop := distance n start p < distance n start q

instance (n start q p : Nat) : Decidable (Crosses n start q p) :=
  inferInstanceAs (Decidable (_ < _))

/-- The first slot of the run of `k` that is free or holds `k`. -/
def locate [DecidableEq K] (n : Nat) (home : K → Nat) (keys : Nat → Option K) (k : K) : Option Nat :=
  scan n fun i =>
    let p := probe n (home k) i
    if keys p = none ∨ keys p = some k then some p else none

structure Linked (n : Nat) (home : K → Nat) (keys : Nat → Option K) : Prop where
  single : ∀ p < n, ∀ q < n, ∀ k, keys p = some k → keys q = some k → p = q
  reach : ∀ p < n, ∀ k, keys p = some k → ∀ q < n, Crosses n (home k) p q → keys q ≠ none

theorem linked_empty (n : Nat) (home : K → Nat) : Linked n home fun _ => none where
  single := by simp
  reach := by simp

theorem Linked.erase (h : Linked n home keys) {p : Nat}
    (hsafe : ∀ q < n, ∀ k, keys q = some k → ¬ Crosses n (home k) q p) :
    Linked n home (Function.update keys p none) := by
  have hback : ∀ q j, Function.update keys p none q = some j → keys q = some j := by
    intro q j hj
    by_cases hqp : q = p
    · rw [hqp, Function.update_self] at hj
      cases hj
    · rwa [Function.update_of_ne hqp] at hj
  refine ⟨?_, ?_⟩
  · intro q hq r hr j hqj hrj
    exact h.single q hq r hr j (hback q j hqj) (hback r j hrj)
  · intro q hq j hj r hr hcross
    have hqj := hback q j hj
    have hrp : r ≠ p := by
      rintro rfl
      exact hsafe q hq j hqj hcross
    rw [Function.update_of_ne hrp]
    exact h.reach q hq j hqj r hr hcross

section Locate
variable [DecidableEq K]

theorem locate_eq_some_iff {k : K} {p : Nat} :
    locate n home keys k = some p ↔
      p < n ∧ (keys p = none ∨ keys p = some k) ∧
        ∀ q < n, Crosses n (home k) p q → keys q ≠ none ∧ keys q ≠ some k := by
  unfold locate
  rw [scan_eq_some_iff]
  constructor
  · rintro ⟨i, hi, hhit, hbefore⟩
    dsimp only at hhit
    split at hhit
    · rename_i hkey
      obtain rfl := Option.some.inj hhit
      refine ⟨probe_lt (by omega) _ _, hkey, ?_⟩
      intro q hq hcross
      unfold Crosses at hcross
      rw [distance_probe hi] at hcross
      have hmiss := hbefore _ hcross
      dsimp only at hmiss
      rw [probe_distance hq] at hmiss
      split at hmiss
      · cases hmiss
      · rename_i hnot
        exact not_or.mp hnot
    · cases hhit
  · rintro ⟨hp, hkey, hbefore⟩
    refine ⟨distance n (home k) p, distance_lt (by omega) _ _, ?_, ?_⟩
    · dsimp only
      rw [probe_distance hp, if_pos hkey]
    · intro j hj
      have hjn : j < n := by
        have := distance_lt (by omega : 0 < n) (home k) p
        omega
      have hcross : Crosses n (home k) p (probe n (home k) j) := by
        unfold Crosses
        rw [distance_probe hjn]
        exact hj
      obtain ⟨hfree, hother⟩ := hbefore _ (probe_lt (by omega) _ _) hcross
      dsimp only
      rw [if_neg (not_or.mpr ⟨hfree, hother⟩)]

theorem locate_insert {k : K} {p : Nat} (h : locate n home keys k = some p) :
    locate n home (Function.update keys p (some k)) k = some p := by
  obtain ⟨hp, _, hbefore⟩ := locate_eq_some_iff.mp h
  refine locate_eq_some_iff.mpr ⟨hp, .inr (Function.update_self ..), ?_⟩
  intro q hq hcross
  have hne : q ≠ p := by
    rintro rfl
    exact Nat.lt_irrefl _ hcross
  rw [Function.update_of_ne hne]
  exact hbefore q hq hcross

/-- A stored key is found where it is stored. -/
theorem Linked.locate_of_stored (h : Linked n home keys) {k : K} {p : Nat} (hp : p < n)
    (hk : keys p = some k) : locate n home keys k = some p := by
  rw [locate_eq_some_iff]
  refine ⟨hp, Or.inr hk, ?_⟩
  intro q hq hcross
  refine ⟨h.reach p hp k hk q hq hcross, ?_⟩
  intro hqk
  have hqp := h.single q hq p hp k hqk hk
  subst hqp
  exact Nat.lt_irrefl _ hcross

/-- A walk that ends at a free slot proves its key absent. -/
theorem Linked.absent_of_locate_free (h : Linked n home keys) {k : K} {p : Nat}
    (hl : locate n home keys k = some p) (hfree : keys p = none) : ∀ q < n, keys q ≠ some k := by
  intro q hq hqk
  rw [h.locate_of_stored hq hqk, Option.some.injEq] at hl
  rw [hl, hfree] at hqk
  cases hqk

theorem Linked.insert (h : Linked n home keys) {k : K} {p : Nat}
    (hl : locate n home keys k = some p) (hfree : keys p = none) :
    Linked n home (Function.update keys p (some k)) := by
  have habsent := h.absent_of_locate_free hl hfree
  obtain ⟨_, _, hbefore⟩ := locate_eq_some_iff.mp hl
  have hkeep : ∀ q, keys q ≠ none → Function.update keys p (some k) q ≠ none := by
    intro q hq
    by_cases hqp : q = p
    · simp [hqp]
    · rwa [Function.update_of_ne hqp]
  have hback : ∀ q < n, ∀ j, Function.update keys p (some k) q = some j →
      (q = p ∧ j = k) ∨ (keys q = some j ∧ j ≠ k) := by
    intro q hq j hj
    by_cases hqp : q = p
    · rw [hqp, Function.update_self, Option.some.injEq] at hj
      exact Or.inl ⟨hqp, hj.symm⟩
    · rw [Function.update_of_ne hqp] at hj
      refine Or.inr ⟨hj, ?_⟩
      rintro rfl
      exact habsent q hq hj
  refine ⟨?_, ?_⟩
  · intro q hq r hr j hqj hrj
    rcases hback q hq j hqj with ⟨hqp, hjk⟩ | ⟨hq', hjk⟩ <;>
      rcases hback r hr j hrj with ⟨hrp, hjk'⟩ | ⟨hr', hjk'⟩
    · rw [hqp, hrp]
    · exact absurd hjk hjk'
    · exact absurd hjk' hjk
    · exact h.single q hq r hr j hq' hr'
  · intro q hq j hj r hr hcross
    rcases hback q hq j hj with ⟨rfl, rfl⟩ | ⟨hj', _⟩
    · exact hkeep r (hbefore r hr hcross).1
    · exact hkeep r (h.reach q hq j hj' r hr hcross)

theorem Linked.insert_uncrossed (h : Linked n home keys) {k : K} {p : Nat}
    (hl : locate n home keys k = some p) (hfree : keys p = none) :
    ∀ r < n, Function.update keys p (some k) r = some k →
      ∀ q < n, ∀ j, Function.update keys p (some k) q = some j → ¬ Crosses n (home j) q r := by
  intro r hr hrk q hq j hj hcross
  have hrp : r = p := by
    by_contra hne
    rw [Function.update_of_ne hne] at hrk
    exact h.absent_of_locate_free hl hfree r hr hrk
  subst hrp
  by_cases hqr : q = r
  · subst hqr
    exact Nat.lt_irrefl _ hcross
  · rw [Function.update_of_ne hqr] at hj
    exact h.reach q hq j hj r hr hcross hfree

/-- Freeing a slot that the run of `k` crosses: the walk for `k` now ends there. -/
theorem Linked.locate_erase_of_crosses (h : Linked n home keys) {k : K} {p q : Nat} (hp : p < n)
    (hq : q < n) (hk : keys q = some k) (hcross : Crosses n (home k) q p) :
    locate n home (Function.update keys p none) k = some p := by
  rw [locate_eq_some_iff]
  refine ⟨hp, Or.inl (Function.update_self ..), ?_⟩
  intro r hr hrp
  have hne : r ≠ p := by
    rintro rfl
    exact Nat.lt_irrefl _ hrp
  have hrq : Crosses n (home k) q r := Nat.lt_trans hrp hcross
  rw [Function.update_of_ne hne]
  refine ⟨h.reach q hq k hk r hr hrq, ?_⟩
  intro hrk
  have heq := h.single r hr q hq k hrk hk
  subst heq
  exact Nat.lt_irrefl _ hrq

end Locate

end MicrostructureEngine.Probing
