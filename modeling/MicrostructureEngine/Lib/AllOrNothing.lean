import Mathlib.Data.List.Nodup
import Mathlib.Logic.Function.Iterate

/-!
# All-or-nothing updates of several cells

`attempt` changes a list of cells one after another. A cell that is over its limit after
its own change is changed back, and so is every cell before it. With `undo` inverse to
`apply` a failed attempt leaves no residue, and a successful one has changed every cell.
-/

namespace MicrostructureEngine.AllOrNothing

set_option autoImplicit false

universe u v w
variable {D : Type u} {S : Type v} {L : Type w} [DecidableEq D]

def touch (f : S → S) (st : D → S) (d : D) : D → S := Function.update st d (f (st d))

def touchAll (f : S → S) (st : D → S) (ds : List D) : D → S := ds.foldl (touch f) st

/-- The forward loop: the cells after it, and how many were committed. -/
def advance (apply undo : S → S) (exceeds : S → L → Bool) :
    (D → S) → List (D × L) → Nat → (D → S) × Nat
  | st, [], committed => (st, committed)
  | st, (d, lim) :: rest, committed =>
    let st' := touch apply st d
    if exceeds (st' d) lim then (touch undo st' d, committed)
    else advance apply undo exceeds st' rest (committed + 1)

def attempt (apply undo : S → S) (exceeds : S → L → Bool) (st : D → S) (ds : List (D × L)) :
    (D → S) × Bool :=
  let (st', committed) := advance apply undo exceeds st ds 0
  if committed = ds.length then (st', true)
  else (touchAll undo st' ((ds.map Prod.fst).take committed), false)

theorem touchAll_apply (f : S → S) (st : D → S) (ds : List D) (d : D) :
    touchAll f st ds d = f^[ds.count d] (st d) := by
  induction ds generalizing st with
  | nil => rfl
  | cons e ds ih =>
    have hstep : touchAll f st (e :: ds) = touchAll f (touch f st e) ds := rfl
    rw [hstep, ih]
    by_cases hde : e = d
    · subst hde
      rw [List.count_cons_self, Function.iterate_succ_apply]
      simp only [touch, Function.update_self]
    · rw [List.count_cons_of_ne hde]
      simp only [touch, Function.update_of_ne (Ne.symm hde)]

theorem touchAll_of_nodup (f : S → S) (st : D → S) {ds : List D} (hnd : ds.Nodup) (d : D) :
    touchAll f st ds d = if d ∈ ds then f (st d) else st d := by
  rw [touchAll_apply]
  by_cases hd : d ∈ ds
  · rw [List.count_eq_one_of_mem hnd hd, if_pos hd, Function.iterate_one]
  · rw [List.count_eq_zero_of_not_mem hd, if_neg hd, Function.iterate_zero_apply]

theorem touchAll_comp {f g : S → S} (st : D → S) {ds : List D} (hnd : ds.Nodup) :
    touchAll g (touchAll f st ds) ds = touchAll (g ∘ f) st ds := by
  funext d
  rw [touchAll_of_nodup _ _ hnd, touchAll_of_nodup _ _ hnd, touchAll_of_nodup _ _ hnd]
  by_cases hd : d ∈ ds
  · simp only [if_pos hd, Function.comp_apply]
  · simp only [if_neg hd]

theorem touchAll_id (st : D → S) (ds : List D) : touchAll id st ds = st := by
  funext d
  rw [touchAll_apply, Function.iterate_id, id]

theorem touchAll_undo {apply undo : S → S} (hinv : Function.LeftInverse undo apply)
    (st : D → S) (ds : List D) : touchAll undo (touchAll apply st ds) ds = st := by
  funext d
  rw [touchAll_apply, touchAll_apply]
  exact hinv.iterate (ds.count d) (st d)

theorem touch_undo {apply undo : S → S} (hinv : Function.LeftInverse undo apply)
    (st : D → S) (d : D) : touch undo (touch apply st d) d = st :=
  touchAll_undo hinv st [d]

section Attempt
variable {apply undo : S → S} {exceeds : S → L → Bool}

/-- The loop commits some number of leading cells, and all of them unless one is over. -/
theorem advance_spec (hinv : Function.LeftInverse undo apply) (st : D → S) (ds : List (D × L))
    (committed : Nat) :
    ∃ k ≤ ds.length, advance apply undo exceeds st ds committed =
      (touchAll apply st ((ds.map Prod.fst).take k), committed + k) := by
  induction ds generalizing st committed with
  | nil => exact ⟨0, Nat.le_refl 0, rfl⟩
  | cons e ds ih =>
    obtain ⟨d, lim⟩ := e
    unfold advance
    dsimp only
    split
    · exact ⟨0, Nat.zero_le _, by rw [touch_undo hinv]; rfl⟩
    · obtain ⟨k, hk, heq⟩ := ih (touch apply st d) (committed + 1)
      refine ⟨k + 1, by simpa using hk, ?_⟩
      rw [heq]
      simp only [List.map_cons, List.take_succ_cons, Prod.mk.injEq]
      exact ⟨rfl, by omega⟩

theorem advance_within {st : D → S} {ds : List (D × L)} {committed : Nat} {st' : D → S}
    (hnd : (ds.map Prod.fst).Nodup)
    (h : advance apply undo exceeds st ds committed = (st', committed + ds.length)) :
    ∀ e ∈ ds, exceeds (apply (st e.1)) e.2 = false := by
  induction ds generalizing st committed with
  | nil =>
    intro e he
    cases he
  | cons c ds ih =>
    obtain ⟨d, lim⟩ := c
    rw [List.map_cons, List.nodup_cons] at hnd
    unfold advance at h
    dsimp only at h
    split at h
    · simp only [List.length_cons, Prod.mk.injEq] at h
      omega
    · rename_i hover
      have hrest := ih hnd.2 (by rw [h, List.length_cons]; congr 1; omega)
      intro e he
      rcases List.mem_cons.mp he with rfl | hmem
      · simpa [touch] using hover
      · have hne : e.1 ≠ d := by
          rintro rfl
          exact hnd.1 (List.mem_map.mpr ⟨e, hmem, rfl⟩)
        simpa [touch, Function.update_of_ne hne] using hrest e hmem

/-- An attempt either leaves every cell as it was, or has changed every cell and found
none over its limit. -/
theorem attempt_cases (hinv : Function.LeftInverse undo apply) (st : D → S)
    (ds : List (D × L)) :
    attempt apply undo exceeds st ds = (st, false) ∨
    (attempt apply undo exceeds st ds = (touchAll apply st (ds.map Prod.fst), true) ∧
      ((ds.map Prod.fst).Nodup → ∀ e ∈ ds, exceeds (apply (st e.1)) e.2 = false)) := by
  have hspec : ∃ k ≤ ds.length, advance apply undo exceeds st ds 0 =
      (touchAll apply st ((ds.map Prod.fst).take k), 0 + k) := advance_spec hinv st ds 0
  obtain ⟨k, hk, heq⟩ := hspec
  unfold attempt
  rw [heq]
  dsimp only
  split
  · rename_i hfull
    rw [hfull] at heq
    right
    refine ⟨?_, fun hnd => advance_within hnd (heq.trans (by rw [Nat.zero_add]))⟩
    rw [List.take_of_length_le (by rw [List.length_map]; omega)]
  · left
    rw [Nat.zero_add, touchAll_undo hinv]

end Attempt

end MicrostructureEngine.AllOrNothing
