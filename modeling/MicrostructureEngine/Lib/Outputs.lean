import Mathlib.Data.List.Infix

/-!
# Outputs of a machine

A machine answers every call and moves on. Two machines that answer alike from related states
give the same outputs over every run. That no good answer comes after a bad one is a statement
about the states in which the calls are made.
-/

namespace MicrostructureEngine.Outputs

set_option autoImplicit false

universe u v w x
variable {σ : Type u} {τ : Type v} {α : Type w} {β : Type x}

def outputs (step : σ → α → β × σ) : σ → List α → List β
  | _, [] => []
  | s, a :: as => (step s a).1 :: outputs step (step s a).2 as

/-- The state behind the calls. -/
def after (step : σ → α → β × σ) : σ → List α → σ
  | s, [] => s
  | s, a :: as => after step (step s a).2 as

section Machine
variable {step : σ → α → β × σ}

@[simp] theorem length_outputs (s : σ) (as : List α) : (outputs step s as).length = as.length := by
  induction as generalizing s with
  | nil => rfl
  | cons a as ih => rw [outputs, List.length_cons, List.length_cons, ih]

theorem outputs_append (s : σ) (as bs : List α) :
    outputs step s (as ++ bs) = outputs step s as ++ outputs step (after step s as) bs := by
  induction as generalizing s with
  | nil => rfl
  | cons a as ih => exact congrArg ((step s a).1 :: ·) (ih _)

theorem after_append (s : σ) (as bs : List α) :
    after step s (as ++ bs) = after step (after step s as) bs := by
  induction as generalizing s with
  | nil => rfl
  | cons a as ih => exact ih _

variable (step) in
theorem getElem?_outputs (s : σ) (as : List α) (i : Nat) :
    (outputs step s as)[i]? = as[i]?.map fun a => (step (after step s (as.take i)) a).1 := by
  induction as generalizing s i with
  | nil => rfl
  | cons a as ih =>
    cases i with
    | zero => rfl
    | succ i => exact ih (step s a).2 i

/-- No good answer comes after a bad one exactly if no call that is answered well is made in a
state behind a call that is answered badly. -/
theorem pairwise_outputs_iff {bad good : β → Prop} (s : σ) (as : List α) :
    (outputs step s as).Pairwise (fun b c => bad b → ¬ good c) ↔
      ¬ ∃ i j a a', i < j ∧ as[i]? = some a ∧ as[j]? = some a' ∧
        bad (step (after step s (as.take i)) a).1 ∧ good (step (after step s (as.take j)) a').1 := by
  rw [List.pairwise_iff_getElem]
  constructor
  · rintro h ⟨i, j, a, a', hij, hi, hj, hbad, hgood⟩
    obtain ⟨hil, hia⟩ := List.getElem?_eq_some_iff.mp hi
    obtain ⟨hjl, hja⟩ := List.getElem?_eq_some_iff.mp hj
    have hil' : i < (outputs step s as).length := by rwa [length_outputs]
    have hjl' : j < (outputs step s as).length := by rwa [length_outputs]
    have hb := getElem?_outputs step s as i
    have hg := getElem?_outputs step s as j
    rw [hi, List.getElem?_eq_getElem hil', Option.map_some, Option.some.injEq] at hb
    rw [hj, List.getElem?_eq_getElem hjl', Option.map_some, Option.some.injEq] at hg
    have hpair := h i j hil' hjl' hij
    rw [hb, hg] at hpair
    exact hpair hbad hgood
  · intro h i j hi hj hij hbad hgood
    have hil : i < as.length := by rwa [length_outputs] at hi
    have hjl : j < as.length := by rwa [length_outputs] at hj
    have hb := getElem?_outputs step s as i
    have hg := getElem?_outputs step s as j
    rw [List.getElem?_eq_getElem hil, List.getElem?_eq_getElem hi, Option.map_some, Option.some.injEq] at hb
    rw [List.getElem?_eq_getElem hjl, List.getElem?_eq_getElem hj, Option.map_some, Option.some.injEq] at hg
    rw [hb] at hbad
    rw [hg] at hgood
    exact h ⟨i, j, as[i], as[j], hij, List.getElem?_eq_getElem hil, List.getElem?_eq_getElem hjl, hbad, hgood⟩

end Machine

/-- A machine that answers like another one from related states gives the same outputs. -/
theorem outputs_of_simulation {step : σ → α → β × σ} {step' : τ → α → β × τ} {R : σ → τ → Prop}
    (h : ∀ s t a, R s t → (step s a).1 = (step' t a).1 ∧ R (step s a).2 (step' t a).2)
    {s : σ} {t : τ} (hst : R s t) (as : List α) :
    outputs step s as = outputs step' t as ∧ R (after step s as) (after step' t as) := by
  induction as generalizing s t with
  | nil => exact ⟨rfl, hst⟩
  | cons a as ih =>
    obtain ⟨hanswer, hnext⟩ := h s t a hst
    obtain ⟨houtputs, hlast⟩ := ih hnext
    refine ⟨?_, hlast⟩
    rw [outputs, outputs, hanswer, houtputs]

end MicrostructureEngine.Outputs
