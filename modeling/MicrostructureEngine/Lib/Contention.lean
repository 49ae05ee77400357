import Mathlib.Algebra.Order.BigOperators.Group.Finset
import MicrostructureEngine.Lib.MapSum
import MicrostructureEngine.Lib.Runs

/-!
# Optimistic reservations under contention

Any number of callers reserve volume on several shared counters, one atomic operation at a
time: add, look at the new value, and on a value that is over take it back again, together
with everything the call added before. A granted reservation may later be unwound. Callers
interleave freely, so a counter can be over its bound for a moment; what was granted never is.
-/

namespace MicrostructureEngine.Contention

set_option autoImplicit false

universe u v
variable {T : Type u} {C : Type v}

/-- `move c x δ` is the counter of `c` after its usage changed by `δ`; `exceeds c x` is the check
made on the value an addition returned. -/
structure Protocol (C : Type v) where
  move : C → Int → Int → Int
  exceeds : C → Int → Bool

/-- Where one caller is. Every list holds the cells still to be visited, in order, except
`done`, which holds those already added to. -/
inductive Phase (C : Type v) where
  | idle
  | adding (volume : Int) (done todo : List C)
  | undoing (volume : Int) (failed : C) (done : List C)
  | rollingBack (volume : Int) (todo : List C)
  | granted (volume : Int) (cells : List C)
  | unwinding (volume : Int) (todo : List C)
  deriving DecidableEq

structure State (T : Type u) (C : Type v) where
  counter : C → Int
  phase : T → Phase C

inductive Event (T : Type u) (C : Type v) where
  | call (t : T) (volume : Int) (cells : List C)
  | unwind (t : T)
  | advance (t : T)

namespace Phase

/-- The atomic operation a caller makes next: a cell and the change of its usage. -/
def pending : Phase C → Option (C × Int)
  | adding volume _ (c :: _) => some (c, volume)
  | undoing volume c _ => some (c, -volume)
  | rollingBack volume (c :: _) => some (c, -volume)
  | unwinding volume (c :: _) => some (c, -volume)
  | _ => none

/-- Where the caller is afterwards; `isOver` is the outcome of the check after an addition. -/
def after (isOver : Bool) : Phase C → Phase C
  | adding volume done (c :: todo) =>
    if isOver then undoing volume c done else adding volume (done ++ [c]) todo
  | adding volume done [] => granted volume done
  | undoing volume _ done => rollingBack volume done
  | rollingBack volume (_ :: todo) => rollingBack volume todo
  | rollingBack _ [] => idle
  | unwinding volume (_ :: todo) => unwinding volume todo
  | unwinding _ [] => idle
  | granted volume cells => granted volume cells
  | idle => idle

def volume : Phase C → Int
  | idle => 1
  | adding volume _ _ | undoing volume _ _ | rollingBack volume _ | granted volume _
  | unwinding volume _ => volume

theorem volume_after {p : Phase C} (hv : 0 < p.volume) (isOver : Bool) : 0 < (p.after isOver).volume := by
  cases p with
  | adding volume done todo =>
    cases todo with
    | nil => exact hv
    | cons c todo => cases isOver <;> exact hv
  | undoing volume failed done => exact hv
  | rollingBack volume todo =>
    cases todo with
    | nil => exact Int.one_pos
    | cons c todo => exact hv
  | unwinding volume todo =>
    cases todo with
    | nil => exact Int.one_pos
    | cons c todo => exact hv
  | granted volume cells => exact hv
  | idle => exact hv

end Phase

section Sum
variable [Fintype T]

/-- Total over all callers. -/
noncomputable def sum (f : Phase C → Int) (s : State T C) : Int := ∑ t, f (s.phase t)

theorem sum_le_sum {f g : Phase C → Int} {s : State T C} (h : ∀ t, f (s.phase t) ≤ g (s.phase t)) :
    sum f s ≤ sum g s :=
  Finset.sum_le_sum fun t _ => h t

theorem sum_update [DecidableEq T] (f : Phase C → Int) (s : State T C) (counter : C → Int) (t : T)
    (p : Phase C) :
    sum f ⟨counter, Function.update s.phase t p⟩ = sum f s - f (s.phase t) + f p := by
  have hdiff := MapSum.sum_sub_eq (f := fun j => f (Function.update s.phase t p j))
    (g := fun j => f (s.phase j)) t fun j hj => by rw [Function.update_of_ne hj]
  rw [Function.update_self] at hdiff
  unfold sum
  dsimp only
  omega

end Sum

variable [DecidableEq C]

section Step
variable [DecidableEq T]

/-- One atomic operation on a counter, or one return from a call. -/
def advance (P : Protocol C) (s : State T C) (t : T) : State T C :=
  match (s.phase t).pending with
  | some (c, δ) =>
    let x := P.move c (s.counter c) δ
    { counter := Function.update s.counter c x
      phase := Function.update s.phase t ((s.phase t).after (P.exceeds c x)) }
  | none => { s with phase := Function.update s.phase t ((s.phase t).after false) }

def step (P : Protocol C) (s : State T C) : Event T C → State T C
  | .call t volume cells =>
    if s.phase t = .idle ∧ 0 < volume then
      { s with phase := Function.update s.phase t (.adding volume [] cells) }
    else s
  | .unwind t =>
    match s.phase t with
    | .granted volume cells =>
      { s with phase := Function.update s.phase t (.unwinding volume cells) }
    | _ => s
  | .advance t => advance P s t

end Step

namespace Phase

/-- What the caller has added to `c` and not taken back. -/
def taken (c : C) : Phase C → Int
  | idle => 0
  | adding volume done _ => volume * done.count c
  | undoing volume failed done => volume * (failed :: done).count c
  | rollingBack volume todo => volume * todo.count c
  | granted volume cells => volume * cells.count c
  | unwinding volume todo => volume * todo.count c

/-- The part of it that has passed the check. -/
def passed (c : C) : Phase C → Int
  | undoing volume _ done => volume * done.count c
  | p => p.taken c

/-- What the caller was granted on `c` and has not given back there. -/
def held (c : C) : Phase C → Int
  | granted volume cells => volume * cells.count c
  | unwinding volume todo => volume * todo.count c
  | _ => 0

/-- Not inside a call: idle, or holding a reservation that nobody is unwinding. -/
def resting : Phase C → Bool
  | idle | granted _ _ => true
  | _ => false

variable {c : C} {p : Phase C}

theorem mul_count_nonneg {volume : Int} (hv : 0 < volume) (cells : List C) :
    0 ≤ volume * (cells.count c : Int) :=
  Int.mul_nonneg (Int.le_of_lt hv) (Int.natCast_nonneg _)

theorem mul_count_le_cons {volume : Int} (hv : 0 < volume) (d : C) (cells : List C) :
    volume * (cells.count c : Int) ≤ volume * ((d :: cells).count c : Int) := by
  apply Int.mul_le_mul_of_nonneg_left _ (Int.le_of_lt hv)
  exact_mod_cast List.count_le_count_cons

theorem held_le_passed (hv : 0 < p.volume) : p.held c ≤ p.passed c := by
  cases p with
  | adding volume done todo => exact mul_count_nonneg hv done
  | undoing volume failed done => exact mul_count_nonneg hv done
  | rollingBack volume todo => exact mul_count_nonneg hv todo
  | _ => exact Int.le_refl _

theorem passed_le_taken (hv : 0 < p.volume) : p.passed c ≤ p.taken c := by
  cases p with
  | undoing volume failed done => exact mul_count_le_cons hv failed done
  | _ => exact Int.le_refl _

variable {δ : Int}

/-- What a caller has added changes exactly where, and by what, its operation says. -/
theorem taken_after (h : p.pending = some (c, δ)) (isOver : Bool) (e : C) :
    (p.after isOver).taken e = p.taken e + if c = e then δ else 0 := by
  cases p with
  | adding volume done todo =>
    cases todo with
    | nil => cases h
    | cons d todo =>
      obtain ⟨rfl, rfl⟩ := Prod.mk.inj (Option.some.inj h)
      cases isOver <;> by_cases hde : d = e <;>
        simp [after, taken, List.count_append, hde, Int.mul_add]
  | undoing volume failed done =>
    obtain ⟨rfl, rfl⟩ := Prod.mk.inj (Option.some.inj h)
    by_cases hde : failed = e <;> simp [after, taken, hde, Int.mul_add]
  | rollingBack volume todo =>
    cases todo with
    | nil => cases h
    | cons d todo =>
      obtain ⟨rfl, rfl⟩ := Prod.mk.inj (Option.some.inj h)
      by_cases hde : d = e <;> simp [after, taken, hde, Int.mul_add]
  | unwinding volume todo =>
    cases todo with
    | nil => cases h
    | cons d todo =>
      obtain ⟨rfl, rfl⟩ := Prod.mk.inj (Option.some.inj h)
      by_cases hde : d = e <;> simp [after, taken, hde, Int.mul_add]
  | granted volume cells => cases h
  | idle => cases h

/-- Only an addition that is not over adds to what has passed the check, and only on its cell. -/
theorem passed_after (hv : 0 < p.volume) (h : p.pending = some (c, δ)) (isOver : Bool) (e : C) :
    (p.after isOver).passed e ≤ p.passed e ∨ (isOver = false ∧ e = c) := by
  cases p with
  | adding volume done todo =>
    cases todo with
    | nil => cases h
    | cons d todo =>
      obtain ⟨rfl, rfl⟩ := Prod.mk.inj (Option.some.inj h)
      by_cases hde : e = d
      · cases isOver with
        | false => exact Or.inr ⟨rfl, hde⟩
        | true => exact Or.inl (Int.le_refl _)
      · left
        have hed : ¬ d = e := fun he => hde he.symm
        cases isOver <;> simp [after, passed, taken, List.count_append, hed]
  | undoing volume failed done => exact Or.inl (Int.le_refl _)
  | rollingBack volume todo =>
    cases todo with
    | nil => cases h
    | cons d todo => exact Or.inl (mul_count_le_cons hv d todo)
  | unwinding volume todo =>
    cases todo with
    | nil => cases h
    | cons d todo => exact Or.inl (mul_count_le_cons hv d todo)
  | granted volume cells => cases h
  | idle => cases h

/-- A return from a call changes no account. -/
theorem after_of_not_pending (h : p.pending = none) :
    (p.after false).taken c = p.taken c ∧ (p.after false).passed c = p.passed c := by
  cases p with
  | adding volume done todo =>
    cases todo with
    | nil => exact ⟨rfl, rfl⟩
    | cons d todo => cases h
  | undoing volume failed done => cases h
  | rollingBack volume todo =>
    cases todo with
    | nil => simp [after, taken, passed]
    | cons d todo => cases h
  | unwinding volume todo =>
    cases todo with
    | nil => simp [after, taken, passed]
    | cons d todo => cases h
  | granted volume cells => exact ⟨rfl, rfl⟩
  | idle => exact ⟨rfl, rfl⟩

theorem taken_eq_held (h : p.resting = true) : p.taken c = p.held c := by
  cases p <;> simp [resting, taken, held] at h ⊢

end Phase

section Invariant
variable [Fintype T] {P : Protocol C}

/-- `usage` reads the volume in use off a counter, and `bound` is what `exceeds` compares it to. -/
structure Metered (P : Protocol C) (usage : C → Int → Int) (bound : C → Int) : Prop where
  exceeds_iff : ∀ c x, P.exceeds c x = true ↔ bound c < usage c x

/-- The atomic operation of this event moves the usage by exactly its volume. -/
def Exact (P : Protocol C) (usage : C → Int → Int) (s : State T C) : Event T C → Prop
  | .advance t => ∀ c δ, (s.phase t).pending = some (c, δ) →
      usage c (P.move c (s.counter c) δ) = usage c (s.counter c) + δ
  | _ => True

structure Inv (usage : C → Int → Int) (bound : C → Int) (s : State T C) : Prop where
  positive : ∀ t, 0 < (s.phase t).volume
  counted : ∀ c, usage c (s.counter c) = sum (Phase.taken c) s
  within : ∀ c, sum (Phase.passed c) s ≤ max (bound c) 0

theorem Inv.start {usage : C → Int → Int} {bound : C → Int} {counter : C → Int}
    (h : ∀ c, usage c (counter c) = 0) : Inv usage bound (⟨counter, fun _ => .idle⟩ : State T C) where
  positive := fun _ => Int.one_pos
  counted := by
    intro c
    rw [h c]
    simp [sum, Phase.taken]
  within := by
    intro c
    simp [sum, Phase.passed, Phase.taken]

/-- What is granted and not given back stays within the bound. -/
theorem Inv.held_le {usage : C → Int → Int} {bound : C → Int} {s : State T C}
    (h : Inv usage bound s) (c : C) : sum (Phase.held c) s ≤ max (bound c) 0 := by
  have hle : sum (Phase.held c) s ≤ sum (Phase.passed c) s :=
    sum_le_sum fun t => Phase.held_le_passed (h.positive t)
  have := h.within c
  omega

/-- With nobody inside a call the counters show exactly what is held. -/
theorem Inv.resting {usage : C → Int → Int} {bound : C → Int} {s : State T C}
    (h : Inv usage bound s) (hrest : ∀ t, (s.phase t).resting = true) (c : C) :
    usage c (s.counter c) = sum (Phase.held c) s := by
  rw [h.counted c]
  exact Finset.sum_congr rfl fun t _ => Phase.taken_eq_held (hrest t)

theorem Inv.passed_le_usage {usage : C → Int → Int} {s : State T C}
    (hpositive : ∀ t, 0 < (s.phase t).volume)
    (hcounted : ∀ c, usage c (s.counter c) = sum (Phase.taken c) s) (c : C) :
    sum (Phase.passed c) s ≤ usage c (s.counter c) := by
  rw [hcounted c]
  exact sum_le_sum fun t => Phase.passed_le_taken (hpositive t)

variable [DecidableEq T]

/-- Changing the phase of one caller without touching a counter. -/
theorem Inv.rephase {usage : C → Int → Int} {bound : C → Int} {s : State T C}
    (h : Inv usage bound s) (t : T) {p : Phase C} (hv : 0 < p.volume)
    (htaken : ∀ c, p.taken c = (s.phase t).taken c) (hpassed : ∀ c, p.passed c = (s.phase t).passed c) :
    Inv usage bound { s with phase := Function.update s.phase t p } where
  positive := by
    intro j
    by_cases hj : j = t
    · subst hj
      simpa using hv
    · simpa [Function.update_of_ne hj] using h.positive j
  counted := by
    intro c
    have := h.counted c
    rw [sum_update, htaken c, ← this]
    dsimp only
    omega
  within := by
    intro c
    have := h.within c
    rw [sum_update, hpassed c]
    omega

theorem Inv.advance {usage : C → Int → Int} {bound : C → Int} (hP : Metered P usage bound)
    {s : State T C} (h : Inv usage bound s) {t : T} (hexact : Exact P usage s (.advance t)) :
    Inv usage bound (advance P s t) := by
  unfold Contention.advance
  cases hp : (s.phase t).pending with
  | none =>
    exact h.rephase t (Phase.volume_after (h.positive t) false)
      (fun c => (Phase.after_of_not_pending hp).1) fun c => (Phase.after_of_not_pending hp).2
  | some op =>
    obtain ⟨c, δ⟩ := op
    dsimp only
    have hmove := hexact c δ hp
    generalize P.move c (s.counter c) δ = x at hmove
    have hpositive : ∀ j, 0 < (Function.update s.phase t ((s.phase t).after (P.exceeds c x)) j).volume := by
      intro j
      by_cases hj : j = t
      · subst hj
        rw [Function.update_self]
        exact Phase.volume_after (h.positive j) _
      · rw [Function.update_of_ne hj]
        exact h.positive j
    have hcounted : ∀ e, usage e (Function.update s.counter c x e) = sum (Phase.taken e)
        (⟨Function.update s.counter c x,
          Function.update s.phase t ((s.phase t).after (P.exceeds c x))⟩ : State T C) := by
      intro e
      rw [sum_update, Phase.taken_after hp, ← h.counted e]
      by_cases he : c = e
      · subst he
        rw [Function.update_self, if_pos rfl, hmove]
        omega
      · rw [Function.update_of_ne (Ne.symm he), if_neg he]
        omega
    refine ⟨hpositive, hcounted, ?_⟩
    intro e
    rcases Phase.passed_after (h.positive t) hp (P.exceeds c x) e with hle | ⟨hover, rfl⟩
    · have := h.within e
      rw [sum_update]
      omega
    · -- The check saw everything that has passed, this addition and what is being undone.
      have hseen : sum (Phase.passed e) (⟨Function.update s.counter e x,
          Function.update s.phase t ((s.phase t).after (P.exceeds e x))⟩ : State T C) ≤
          usage e (Function.update s.counter e x e) :=
        Inv.passed_le_usage hpositive hcounted e
      have hnot : ¬ bound e < usage e x := by
        rw [← hP.exceeds_iff, hover]
        simp
      rw [Function.update_self] at hseen
      omega

theorem Inv.step {usage : C → Int → Int} {bound : C → Int} (hP : Metered P usage bound)
    {s : State T C} {e : Event T C} (h : Inv usage bound s) (hexact : Exact P usage s e) :
    Inv usage bound (step P s e) := by
  cases e with
  | call t volume cells =>
    unfold Contention.step
    dsimp only
    split
    · rename_i hcall
      refine h.rephase t hcall.2 ?_ ?_ <;> intro c <;> simp [hcall.1, Phase.taken, Phase.passed]
    · exact h
  | unwind t =>
    unfold Contention.step
    dsimp only
    split
    · rename_i volume cells hphase
      refine h.rephase t (by simpa [hphase, Phase.volume] using h.positive t) ?_ ?_ <;>
        intro c <;> simp [hphase, Phase.taken, Phase.passed]
    · exact h
  | advance t => exact h.advance hP hexact

theorem Inv.run {usage : C → Int → Int} {bound : C → Int} (hP : Metered P usage bound)
    {s : State T C} (h : Inv usage bound s) {es : List (Event T C)}
    (hexact : Runs.Along (Contention.step P) (Exact P usage) s es) :
    Inv usage bound (Runs.run (Contention.step P) s es) :=
  Runs.run_invariant (fun _ _ hi he => Inv.step hP hi he) h hexact

end Invariant

end MicrostructureEngine.Contention
