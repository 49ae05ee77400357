import Mathlib.Data.List.Infix

/-!
# Runs of a deterministic step function

A run is a list of actions folded through `step`. `Along` reads a condition off every
action in the state it is taken in; `Throughout` reads an assertion off every state the
run visits. Their link is the induction rule for invariants, in its one-sided form and
in the exact form where the condition is also necessary.
-/

namespace MicrostructureEngine.Runs

set_option autoImplicit false

universe u v
variable {σ : Type u} {α : Type v} {step : σ → α → σ}

def run (step : σ → α → σ) (s : σ) (as : List α) : σ := as.foldl step s

/-- Every action of the run meets `P` in the state in which it is taken. -/
def Along (step : σ → α → σ) (P : σ → α → Prop) : σ → List α → Prop
  | _, [] => True
  | s, a :: as => P s a ∧ Along step P (step s a) as

instance Along.decidable (step : σ → α → σ) (P : σ → α → Prop) [∀ s a, Decidable (P s a)] :
    ∀ (s : σ) (as : List α), Decidable (Along step P s as)
  | _, [] => isTrue trivial
  | s, a :: as =>
    have := Along.decidable step P (step s a) as
    inferInstanceAs (Decidable (P s a ∧ Along step P (step s a) as))

/-- Every state the run visits satisfies `Q`, the first and the last included. -/
def Throughout (step : σ → α → σ) (Q : σ → Prop) (s : σ) (as : List α) : Prop :=
  ∀ bs, bs <+: as → Q (run step s bs)

@[simp] theorem run_nil (s : σ) : run step s [] = s := rfl

@[simp] theorem run_cons (s : σ) (a : α) (as : List α) :
    run step s (a :: as) = run step (step s a) as := rfl

theorem along_append {P : σ → α → Prop} {s : σ} {as bs : List α} :
    Along step P s (as ++ bs) ↔ Along step P s as ∧ Along step P (run step s as) bs := by
  induction as generalizing s with
  | nil => simp [Along]
  | cons a as ih => simp only [List.cons_append, Along, run_cons, ih, and_assoc]

theorem Along.imp {P Q : σ → α → Prop} (hpq : ∀ s a, P s a → Q s a) {s : σ} {as : List α}
    (h : Along step P s as) : Along step Q s as := by
  induction as generalizing s with
  | nil => trivial
  | cons a as ih => exact ⟨hpq s a h.1, ih h.2⟩

theorem Along.and {P Q : σ → α → Prop} {s : σ} {as : List α}
    (hp : Along step P s as) (hq : Along step Q s as) :
    Along step (fun s a => P s a ∧ Q s a) s as := by
  induction as generalizing s with
  | nil => trivial
  | cons a as ih => exact ⟨⟨hp.1, hq.1⟩, ih hp.2 hq.2⟩

/-- An action-only condition holds along every run through the listed actions. -/
theorem along_of_forall {P : σ → α → Prop} {s : σ} {as : List α}
    (h : ∀ a ∈ as, ∀ s, P s a) : Along step P s as := by
  induction as generalizing s with
  | nil => trivial
  | cons a as ih =>
    exact ⟨h a List.mem_cons_self s, ih fun b hb => h b (List.mem_cons_of_mem a hb)⟩

/-- A condition holds along a run when it holds at every place the run can be split at. -/
theorem along_iff_forall_split {P : σ → α → Prop} {s : σ} {as : List α} :
    Along step P s as ↔ ∀ pre a post, as = pre ++ a :: post → P (run step s pre) a := by
  induction as generalizing s with
  | nil =>
    refine ⟨fun _ pre a post h => ?_, fun _ => trivial⟩
    cases pre <;> cases h
  | cons b as ih =>
    constructor
    · rintro ⟨hb, hrest⟩ pre a post h
      cases pre with
      | nil =>
        cases h
        exact hb
      | cons c pre =>
        cases h
        exact ih.mp hrest pre a post rfl
    · intro h
      refine ⟨h [] b as rfl, ih.mpr ?_⟩
      rintro pre a post rfl
      exact h (b :: pre) a post rfl

theorem throughout_cons {Q : σ → Prop} {s : σ} {a : α} {as : List α} :
    Throughout step Q s (a :: as) ↔ Q s ∧ Throughout step Q (step s a) as := by
  constructor
  · intro h
    refine ⟨h [] List.nil_prefix, ?_⟩
    intro bs hbs
    exact h (a :: bs) ((List.prefix_cons_inj a).mpr hbs)
  · rintro ⟨hs, ht⟩ bs hbs
    cases bs with
    | nil => exact hs
    | cons b bs =>
      obtain ⟨rfl, htail⟩ := List.cons_prefix_cons.mp hbs
      exact ht bs htail

theorem Throughout.last {Q : σ → Prop} {s : σ} {as : List α}
    (h : Throughout step Q s as) : Q (run step s as) :=
  h as (List.prefix_refl as)

/-- The invariant rule, read at the end of the run. -/
theorem run_invariant {P : σ → α → Prop} {I : σ → Prop}
    (hstep : ∀ s a, I s → P s a → I (step s a)) {s : σ} {as : List α}
    (hs : I s) (h : Along step P s as) : I (run step s as) := by
  induction as generalizing s with
  | nil => exact hs
  | cons a as ih => exact ih (hstep s a hs h.1) h.2

/-- The invariant rule for steps that need no condition. -/
theorem invariant_of_step {I : σ → Prop} (hstep : ∀ s a, I s → I (step s a)) {s : σ} (hs : I s)
    (as : List α) : I (run step s as) := by
  induction as generalizing s with
  | nil => exact hs
  | cons a as ih => exact ih (hstep s a hs)

/-- The invariant rule, read at every state of the run. -/
theorem throughout_of_along {P : σ → α → Prop} {I : σ → Prop}
    (hstep : ∀ s a, I s → P s a → I (step s a)) {s : σ} {as : List α}
    (hs : I s) (h : Along step P s as) : Throughout step I s as := by
  rintro bs ⟨cs, rfl⟩
  exact run_invariant hstep hs (along_append.mp h).1

/-- The exact invariant rule: when a step from a good state leads to a good state if and
only if it meets `P`, a run stays good precisely when all of its steps meet `P`. -/
theorem throughout_iff_along {P : σ → α → Prop} {I : σ → Prop}
    (hstep : ∀ s a, I s → (I (step s a) ↔ P s a)) {s : σ} (hs : I s) (as : List α) :
    Throughout step I s as ↔ Along step P s as := by
  induction as generalizing s with
  | nil =>
    refine ⟨fun _ => trivial, fun _ bs hbs => ?_⟩
    rw [List.prefix_nil.mp hbs]
    exact hs
  | cons a as ih =>
    rw [throughout_cons]
    constructor
    · rintro ⟨_, ht⟩
      have ha : I (step s a) := ht [] List.nil_prefix
      exact ⟨(hstep s a hs).mp ha, (ih ha).mp ht⟩
    · rintro ⟨ha, ht⟩
      have hi := (hstep s a hs).mpr ha
      exact ⟨hs, (ih hi).mpr ht⟩

/-- The exact rule through a stronger invariant: `I` carries the induction, and a step within
`D` that breaks `P` leads to a state in which even `J` fails. -/
theorem throughout_iff_along_within {D P : σ → α → Prop} {I J : σ → Prop} (hij : ∀ s, I s → J s)
    (hkeep : ∀ s a, I s → D s a → P s a → I (step s a))
    (hbreak : ∀ s a, I s → D s a → ¬ P s a → ¬ J (step s a))
    {s : σ} (hs : I s) {as : List α} (hd : Along step D s as) :
    Throughout step J s as ↔ Along step P s as := by
  induction as generalizing s with
  | nil =>
    refine ⟨fun _ => trivial, fun _ bs hbs => ?_⟩
    rw [List.prefix_nil.mp hbs]
    exact hij s hs
  | cons a as ih =>
    rw [throughout_cons]
    constructor
    · rintro ⟨_, ht⟩
      have ha : P s a := by
        by_contra hn
        exact hbreak s a hs hd.1 hn (ht [] List.nil_prefix)
      exact ⟨ha, (ih (hkeep s a hs hd.1 ha) hd.2).mp ht⟩
    · rintro ⟨ha, ht⟩
      exact ⟨hij s hs, (ih (hkeep s a hs hd.1 ha) hd.2).mpr ht⟩

/-- The exact rule through a stronger invariant, for steps without a restriction. -/
theorem throughout_iff_along_of_invariant {P : σ → α → Prop} {I J : σ → Prop} (hij : ∀ s, I s → J s)
    (hkeep : ∀ s a, I s → P s a → I (step s a)) (hbreak : ∀ s a, I s → ¬ P s a → ¬ J (step s a))
    {s : σ} (hs : I s) (as : List α) : Throughout step J s as ↔ Along step P s as := by
  have hall : Along step (fun _ _ => True) s as := along_of_forall fun _ _ _ => trivial
  exact throughout_iff_along_within hij (fun s a hi _ => hkeep s a hi)
    (fun s a hi _ => hbreak s a hi) hs hall

/-- What an invariant gives at each step of a run that keeps it. -/
theorem Along.of_invariant {P Q : σ → α → Prop} {I : σ → Prop}
    (hkeep : ∀ s a, I s → P s a → I (step s a)) (hgood : ∀ s a, I s → P s a → Q s a)
    {s : σ} (hs : I s) {as : List α} (h : Along step P s as) : Along step Q s as := by
  induction as generalizing s with
  | nil => trivial
  | cons a as ih => exact ⟨hgood s a hs h.1, ih (hkeep s a hs h.1) h.2⟩

/-- Two conditions that agree on every step within `D` from a good state hold along the
same runs. -/
theorem along_iff_along {D P Q : σ → α → Prop} {I : σ → Prop}
    (hkeep : ∀ s a, I s → D s a → P s a → I (step s a))
    (hiff : ∀ s a, I s → D s a → (P s a ↔ Q s a)) {s : σ} (hs : I s) {as : List α}
    (hd : Along step D s as) : Along step P s as ↔ Along step Q s as := by
  induction as generalizing s with
  | nil => exact Iff.rfl
  | cons a as ih =>
    have hhead := hiff s a hs hd.1
    constructor
    · rintro ⟨hp, ht⟩
      exact ⟨hhead.mp hp, (ih (hkeep s a hs hd.1 hp) hd.2).mp ht⟩
    · rintro ⟨hq, ht⟩
      have hp := hhead.mpr hq
      exact ⟨hp, (ih (hkeep s a hs hd.1 hp) hd.2).mpr ht⟩

/-- The same for steps without a restriction. -/
theorem along_iff_along_of_invariant {P Q : σ → α → Prop} {I : σ → Prop}
    (hkeep : ∀ s a, I s → P s a → I (step s a)) (hiff : ∀ s a, I s → (P s a ↔ Q s a))
    {s : σ} (hs : I s) (as : List α) : Along step P s as ↔ Along step Q s as := by
  have hall : Along step (fun _ _ => True) s as := along_of_forall fun _ _ _ => trivial
  exact along_iff_along (fun s a hi _ => hkeep s a hi) (fun s a hi _ => hiff s a hi) hs hall

end MicrostructureEngine.Runs
