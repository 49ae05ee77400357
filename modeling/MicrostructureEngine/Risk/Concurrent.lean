import MicrostructureEngine.Lib.Contention
import MicrostructureEngine.Risk.Ledger

/-!
# Concurrent reservations

`reserve_exposure`, `reserve_credit` and the two unwinds as they run on several threads: each
`fetch_add` and `fetch_sub` is one step, and any caller may take the next one. The counters
are 64-bit and wrap. The value that is checked is the fetched one plus the volume once more;
its overflow is undefined in the source and wraps here like the counter.
-/

namespace MicrostructureEngine.RiskLedger

open Contention
set_option autoImplicit false

/-- An atomic counter of a `DimensionState`. -/
inductive Counter where
  | exposure (d : Dimension)
  | credit (d : Dimension)
  deriving DecidableEq, Repr

def wrap64 (x : Int) : Int := Int.bmod x (2 ^ 64)

namespace Counter

/-- The counter after its dimension's usage changed by `δ`, in unbounded arithmetic: exposure
counts up from 0, credit counts down from the budget. -/
def moved : Counter → Int → Int → Int
  | exposure _, x, δ => x + δ
  | credit _, x, δ => x - δ

def usage (config : RiskLedgerConfig) : Counter → Int → Int
  | exposure _, x => x
  | credit d, x => (config.limits d).creditBudget - x

def bound (config : RiskLedgerConfig) : Counter → Int
  | exposure d => (config.limits d).openOrderLimit
  | credit d => (config.limits d).creditBudget

/-- What the constructor stores. -/
def initial (config : RiskLedgerConfig) : Counter → Int
  | exposure _ => 0
  | credit d => (config.limits d).creditBudget

end Counter

/-- `new_val > open_order_limit` for exposure, `new_val < 0` for credit. -/
def protocol (config : RiskLedgerConfig) : Protocol Counter where
  move := fun c x δ => wrap64 (c.moved x δ)
  exceeds
    | .exposure d, x => decide (x > (config.limits d).openOrderLimit)
    | .credit _, x => decide (x < 0)

def quiet (T : Type) (config : RiskLedgerConfig) : State T Counter :=
  ⟨Counter.initial config, fun _ => .idle⟩

/-- The operation of this event stays within `int64`. -/
def Fits {T : Type} (s : State T Counter) : Event T Counter → Prop
  | .advance t => ∀ op ∈ (s.phase t).pending,
      -2 ^ 63 ≤ op.1.moved (s.counter op.1) op.2 ∧ op.1.moved (s.counter op.1) op.2 < 2 ^ 63
  | _ => True

instance {T : Type} (s : State T Counter) : (e : Event T Counter) → Decidable (Fits s e)
  | .advance t => inferInstanceAs (Decidable (∀ op ∈ (s.phase t).pending,
      -2 ^ 63 ≤ op.1.moved (s.counter op.1) op.2 ∧ op.1.moved (s.counter op.1) op.2 < 2 ^ 63))
  | .call _ _ _ => isTrue trivial
  | .unwind _ => isTrue trivial

theorem wrap64_eq {x : Int} (hlo : -2 ^ 63 ≤ x) (hhi : x < 2 ^ 63) : wrap64 x = x := by
  apply Int.bmod_eq_of_le <;> omega

theorem protocol_metered (config : RiskLedgerConfig) :
    Metered (protocol config) (Counter.usage config) (Counter.bound config) where
  exceeds_iff := by
    intro c x
    cases c with
    | exposure d => exact decide_eq_true_iff
    | credit d =>
      simp only [protocol, Counter.bound, Counter.usage, decide_eq_true_iff]
      omega

theorem usage_moved (config : RiskLedgerConfig) (c : Counter) (x δ : Int) :
    c.usage config (c.moved x δ) = c.usage config x + δ := by
  cases c with
  | exposure d => rfl
  | credit d =>
    simp only [Counter.usage, Counter.moved]
    omega

theorem Fits.exact {T : Type} [DecidableEq T] (config : RiskLedgerConfig) {s : State T Counter}
    {e : Event T Counter} (h : Fits s e) : Exact (protocol config) (Counter.usage config) s e := by
  cases e with
  | advance t =>
    intro c δ hp
    obtain ⟨hlo, hhi⟩ := h (c, δ) hp
    simp only [protocol]
    rw [wrap64_eq hlo hhi]
    exact usage_moved config c _ δ
  | call t volume cells => trivial
  | unwind t => trivial

theorem quiet_inv (T : Type) [Fintype T] (config : RiskLedgerConfig) :
    Inv (Counter.usage config) (Counter.bound config) (quiet T config) := by
  apply Inv.start
  intro c
  cases c with
  | exposure d => rfl
  | credit d => exact Int.sub_self _

/-- Whatever the interleaving, the reservations granted and not given back stay within the
limit and the budget of every dimension, and when nobody is inside a call the counters are
exactly their sums. -/
theorem concurrent_limits_hold {T : Type} [Fintype T] [DecidableEq T] (config : RiskLedgerConfig)
    (events : List (Event T Counter))
    (hfits : Runs.Along (step (protocol config)) Fits (quiet T config) events) :
    (∀ d, sum (Phase.held (.exposure d)) (Runs.run (step (protocol config)) (quiet T config) events) ≤
        max (config.limits d).openOrderLimit 0) ∧
    (∀ d, sum (Phase.held (.credit d)) (Runs.run (step (protocol config)) (quiet T config) events) ≤
        max (config.limits d).creditBudget 0) ∧
    ((∀ t, ((Runs.run (step (protocol config)) (quiet T config) events).phase t).resting = true) → ∀ d,
      (Runs.run (step (protocol config)) (quiet T config) events).counter (.exposure d) =
          sum (Phase.held (.exposure d)) (Runs.run (step (protocol config)) (quiet T config) events) ∧
        (Runs.run (step (protocol config)) (quiet T config) events).counter (.credit d) =
          (config.limits d).creditBudget - sum (Phase.held (.credit d))
            (Runs.run (step (protocol config)) (quiet T config) events)) := by
  have hinv := Inv.run (protocol_metered config) (quiet_inv T config)
    (hfits.imp fun _ _ he => he.exact config)
  refine ⟨fun d => hinv.held_le (.exposure d), fun d => hinv.held_le (.credit d), ?_⟩
  intro hrest d
  refine ⟨hinv.resting hrest (.exposure d), ?_⟩
  have hcredit := hinv.resting hrest (.credit d)
  simp only [Counter.usage] at hcredit
  omega

/-- Two callers race for a limit of 10: the second one sees 12 and takes its 6 back. -/
def race : List (Event (Fin 2) Counter) :=
  [.call 0 6 [.exposure (.symbol 0), .exposure .global], .call 1 6 [.exposure .global],
    .advance 0, .advance 0, .advance 1, .advance 1, .advance 0, .advance 1]

theorem concurrent_limits_hold_race :
    sum (Phase.held (.exposure .global))
        (Runs.run (step (protocol { global := { openOrderLimit := 10 } })) (quiet (Fin 2)
          { global := { openOrderLimit := 10 } }) race) = 6 ∧
    (Runs.run (step (protocol { global := { openOrderLimit := 10 } })) (quiet (Fin 2)
      { global := { openOrderLimit := 10 } }) race).counter (.exposure .global) = 6 := by
  obtain ⟨_, _, hrest⟩ := concurrent_limits_hold { global := { openOrderLimit := 10 } } race
    (by decide +kernel)
  have hcounter : (Runs.run (step (protocol { global := { openOrderLimit := 10 } })) (quiet (Fin 2)
      { global := { openOrderLimit := 10 } }) race).counter (.exposure .global) = 6 := by
    decide +kernel
  exact ⟨((hrest (by decide +kernel) .global).1.symm.trans hcounter), hcounter⟩

/-- Two callers with 2^62 each under the default limit 2^63 - 1. -/
def overflowing : List (Event (Fin 2) Counter) :=
  [.call 0 (2 ^ 62) [.exposure .global], .call 1 (2 ^ 62) [.exposure .global],
    .advance 0, .advance 0, .advance 1, .advance 1]

/-- A negative limit is exceeded by holding nothing at all, and under the default limit both
callers are granted, because the sum of the second check wraps to a negative number. -/
theorem concurrent_limits_exceeded :
    -1 < sum (Phase.held (.exposure .global))
      (quiet (Fin 1) { global := { openOrderLimit := -1 } }) ∧
    Risk.int64Max < sum (Phase.held (.exposure .global))
      (Runs.run (step (protocol {})) (quiet (Fin 2) {}) overflowing) := by
  have hphases : ∀ t, (Runs.run (step (protocol {})) (quiet (Fin 2) {}) overflowing).phase t =
      .granted (2 ^ 62) [.exposure .global] := by decide +kernel
  refine ⟨by simp [sum, quiet, Phase.held], ?_⟩
  unfold sum
  simp only [hphases]
  decide

end MicrostructureEngine.RiskLedger
