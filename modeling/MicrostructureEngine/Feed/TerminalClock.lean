import MicrostructureEngine.Feed.Ingress
import Mathlib.Algebra.Group.Int.Defs

/-!
# The terminal's clock

The estimator keeps the least difference between the recorder's clock and the terminal's that a
delivered record has shown. The delay of a record on its way makes its difference larger, so the
least one is the closest to the true offset, and a terminal time that is corrected with it never
lies behind the receipt.
-/

namespace MicrostructureEngine.Mt5

set_option autoImplicit false

namespace Arrival

def terminalNs (arrival : Arrival) : Nat := PipeAdapter.nanoseconds arrival.record.tsTerminalMs

def sample (arrival : Arrival) : Int := ClockOffsetEstimator.sample arrival.terminalNs arrival.utcNs

end Arrival

namespace ClockOffsetEstimator

theorem sample_range (terminalNs localNs : Nat) :
    -(2 ^ 63 : Int) ≤ sample terminalNs localNs ∧ sample terminalNs localNs < 2 ^ 63 := by
  unfold sample
  have hlow := @Int.le_bmod ((localNs : Int) - terminalNs) (2 ^ 64) (by decide)
  have hhigh := @Int.bmod_lt ((localNs : Int) - terminalNs) (2 ^ 64) (by decide)
  omega

/-- Clocks that are less than 292 years apart have the true difference for a sample. -/
theorem sample_eq {terminalNs localNs : Nat} (hlow : terminalNs ≤ localNs + 2 ^ 63)
    (hhigh : localNs < terminalNs + 2 ^ 63) : sample terminalNs localNs = (localNs : Int) - terminalNs := by
  unfold sample
  apply Int.bmod_eq_of_le
  · omega
  · omega

/-- `correct` adds the offset in 64 bits. -/
theorem correct_eq {c : ClockOffsetEstimator} (hinit : c.initialized = true) (hlow : -(2 ^ 63 : Int) ≤ c.offsetNs)
    (terminalNs : Nat) : (c.correct terminalNs : Int) = (terminalNs + c.offsetNs) % 2 ^ 64 := by
  unfold correct
  rw [hinit, if_neg (by decide)]
  split_ifs with hsign
  · omega
  · omega

end ClockOffsetEstimator

namespace PipeAdapter

open Outputs

/-- The differences that the delivered records of a run show. -/
def samples : PipeAdapter → List Arrival → List Int
  | _, [] => []
  | a, arrival :: as =>
    if (a.step arrival).1.verdict.Delivers then arrival.sample :: samples (a.step arrival).2 as
    else samples (a.step arrival).2 as

theorem passed_clock (a : PipeAdapter) (arrival : Arrival) :
    (a.passed arrival).clock = a.clock.observe arrival.terminalNs arrival.utcNs := by
  obtain ⟨record, monotonicNs, utcNs⟩ := arrival
  cases record <;> rfl

/-- A call shows the clock the record that it delivers, and no other. -/
theorem step_clock (a : PipeAdapter) (arrival : Arrival) :
    ((a.step arrival).1.verdict.Delivers ∧
        (a.step arrival).2.clock = a.clock.observe arrival.terminalNs arrival.utcNs ∧
        (a.step arrival).1.event.header.tsTerminalNs =
          UInt64.ofNat ((a.step arrival).2.clock.correct arrival.terminalNs)) ∨
      (¬ (a.step arrival).1.verdict.Delivers ∧ (a.step arrival).2.clock = a.clock) := by
  rcases step_split a arrival with h | ⟨h, hnext⟩ | ⟨h, hnext, hlast⟩ | ⟨h, hnext, hlast⟩
  · obtain ⟨v, hstep, hv, -⟩ := ingest_foreign h
    rw [hstep]
    exact .inr ⟨hv, rfl⟩
  · obtain ⟨hverdict, hstate, hheader⟩ := ingest_next h hnext
    refine .inl ⟨?_, ?_, ?_⟩
    · rw [hverdict]
      exact arrival.record.passVerdict_delivers
    · rw [hstate, passed_clock]
    · rw [hheader, hstate]
      rfl
  · rw [ingest_gap h hnext hlast]
    exact .inr ⟨not_delivers_gap, rfl⟩
  · rw [ingest_stale h hnext hlast]
    exact .inr ⟨not_delivers_stale, rfl⟩

/-- The offset is the least of the samples that were shown. -/
structure Least (c : ClockOffsetEstimator) (shown : List Int) : Prop where
  initialized : c.initialized = true ↔ shown ≠ []
  mem : c.initialized = true → c.offsetNs ∈ shown
  le : ∀ s ∈ shown, c.offsetNs ≤ s

theorem Least.observe {c : ClockOffsetEstimator} {shown : List Int} (h : Least c shown) (arrival : Arrival) :
    Least (c.observe arrival.terminalNs arrival.utcNs) (shown ++ [arrival.sample]) := by
  have hsample : ClockOffsetEstimator.sample arrival.terminalNs arrival.utcNs = arrival.sample := rfl
  refine ⟨?_, fun _ => ?_, fun s hs => ?_⟩
  · exact ⟨fun _ => List.append_ne_nil_of_right_ne_nil _ (List.cons_ne_nil _ _), fun _ => rfl⟩
  · unfold ClockOffsetEstimator.observe
    dsimp only
    rw [hsample]
    split_ifs with hnew
    · exact List.mem_append_right _ List.mem_cons_self
    · rw [Bool.or_eq_true, not_or, Bool.not_eq_true', Bool.not_eq_false] at hnew
      exact List.mem_append_left _ (h.mem hnew.1)
  · unfold ClockOffsetEstimator.observe
    dsimp only
    rw [hsample]
    rcases List.mem_append.mp hs with hold | hnow
    · have hle := h.le s hold
      have hinit := h.initialized.mpr (List.ne_nil_of_mem hold)
      split_ifs with hnew
      · rw [hinit] at hnew
        have hless : arrival.sample < c.offsetNs := by simpa using hnew
        omega
      · exact hle
    · rw [List.mem_singleton.mp hnow]
      split_ifs with hnew
      · exact Int.le_refl _
      · rw [Bool.or_eq_true, not_or, decide_eq_true_eq] at hnew
        omega

theorem samples_append (as bs : List Arrival) : ∀ a : PipeAdapter,
    a.samples (as ++ bs) = a.samples as ++ (after step a as).samples bs := by
  induction as with
  | nil => exact fun _ => rfl
  | cons arrival as ih =>
    intro a
    rw [List.cons_append, samples, samples, after, ih]
    split
    · rfl
    · rfl

theorem least_after (as : List Arrival) : ∀ (a : PipeAdapter) (shown : List Int), Least a.clock shown →
    Least (after step a as).clock (shown ++ a.samples as) := by
  induction as with
  | nil =>
    intro a shown h
    rw [samples, List.append_nil]
    exact h
  | cons arrival as ih =>
    intro a shown h
    rw [samples, after]
    rcases step_clock a arrival with ⟨hdelivers, hclock, -⟩ | ⟨hrejected, hclock⟩
    · rw [if_pos hdelivers, List.append_cons]
      apply ih
      rw [hclock]
      exact h.observe arrival
    · rw [if_neg hrejected]
      apply ih
      rw [hclock]
      exact h

theorem samples_range (as : List Arrival) : ∀ a : PipeAdapter, ∀ s ∈ a.samples as, -(2 ^ 63 : Int) ≤ s := by
  induction as with
  | nil => exact fun a s hs => absurd hs List.not_mem_nil
  | cons arrival as ih =>
    intro a s hs
    rw [samples] at hs
    split at hs
    · rcases List.mem_cons.mp hs with rfl | hs
      · exact (ClockOffsetEstimator.sample_range _ _).1
      · exact ih _ s hs
    · exact ih _ s hs

/-- Behind any session, the event of a delivered record has the terminal's time moved by the least
difference so far, its own one included; where the clocks are in range, the event is not dated
behind its receipt. -/
theorem terminal_time_least (sessionEpoch : UInt64) (sourceId : UInt16) (timeoutNs : Nat) (as : List Arrival)
    (arrival : Arrival)
    (h : ((after step (create sessionEpoch sourceId timeoutNs) as).step arrival).1.verdict.Delivers) :
    let a := create sessionEpoch sourceId timeoutNs
    let time := ((after step a as).step arrival).1.event.header.tsTerminalNs.toNat
    ∃ m ∈ a.samples (as ++ [arrival]), (∀ s ∈ a.samples (as ++ [arrival]), m ≤ s) ∧
      (time : Int) = (arrival.terminalNs + m) % 2 ^ 64 ∧
      (arrival.terminalNs ≤ arrival.utcNs + 2 ^ 63 → arrival.utcNs < arrival.terminalNs + 2 ^ 63 →
        0 ≤ arrival.terminalNs + m → arrival.utcNs < 2 ^ 64 → time ≤ arrival.utcNs) := by
  intro a time
  have hfresh : Least a.clock [] :=
    ⟨⟨fun hinit => Bool.noConfusion hinit, fun hnil => absurd rfl hnil⟩, fun hinit => Bool.noConfusion hinit,
      fun s hs => absurd hs List.not_mem_nil⟩
  have hleast := least_after (as ++ [arrival]) a [] hfresh
  rw [List.nil_append] at hleast
  have hafter : after step a (as ++ [arrival]) = ((after step a as).step arrival).2 := by
    rw [after_append]
    rfl
  rw [hafter] at hleast
  rcases step_clock (after step a as) arrival with ⟨-, hclock, htime⟩ | ⟨hrejected, -⟩
  · generalize ((after step a as).step arrival).2.clock = c at hleast hclock htime
    have hinit : c.initialized = true := by rw [hclock]; rfl
    have hmem := hleast.mem hinit
    have hrange := samples_range _ _ _ hmem
    have hcorrect := ClockOffsetEstimator.correct_eq hinit hrange arrival.terminalNs
    have htimeNat : time = c.correct arrival.terminalNs := by
      have hlt : c.correct arrival.terminalNs < 2 ^ 64 := by omega
      rw [show time = _ from congrArg UInt64.toNat htime, UInt64.toNat_ofNat', Nat.mod_eq_of_lt hlt]
    rw [htimeNat]
    refine ⟨c.offsetNs, hmem, hleast.le, hcorrect, fun hlow hhigh hpos hutc => ?_⟩
    have hown : c.offsetNs ≤ arrival.sample := by
      apply hleast.le
      rw [samples_append]
      apply List.mem_append_right
      rw [samples, if_pos h]
      exact List.mem_cons_self
    have hsample : arrival.sample = (arrival.utcNs : Int) - arrival.terminalNs :=
      ClockOffsetEstimator.sample_eq hlow hhigh
    omega
  · exact absurd h hrejected

/-- A quote of session 77. -/
def quoteAt (sequence : UInt64) (tsTerminalMs : UInt64) (utcNs : Nat) : Arrival where
  record := .marketData {
    recordPrefix := ⟨protocolMagic, protocolVersion, RecordType.marketData.code, 77, sequence⟩
    marketDataType := 1
    reserved0 := 0
    symbolId := 2
    tsBrokerMs := 1000
    tsTerminalMs := tsTerminalMs
    bidTicks := 100
    askTicks := 102
    lastTicks := 0
    bidVolume := 3
    askVolume := 4
    tickVolume := 0
    flags := 0 }
  monotonicNs := 5000
  utcNs := utcNs

/-- Quotes that were 900 and 300 ns on their way. -/
def earlierQuotes : List Arrival :=
  [quoteAt 1 1001 1001000900, quoteAt 2 1002 1002000300]

/-- A third quote, 700 ns on its way, is dated by the least delay. -/
theorem terminal_time_least_third :
    let a := create 77 4 3000000000
    let third := quoteAt 3 1003 1003000700
    let time := ((after step a earlierQuotes).step third).1.event.header.tsTerminalNs.toNat
    a.samples (earlierQuotes ++ [third]) = [900, 300, 700] ∧ time = 1003000300 ∧
      ∃ m ∈ a.samples (earlierQuotes ++ [third]), (∀ s ∈ a.samples (earlierQuotes ++ [third]), m ≤ s) ∧
        (time : Int) = (third.terminalNs + m) % 2 ^ 64 ∧
        (third.terminalNs ≤ third.utcNs + 2 ^ 63 → third.utcNs < third.terminalNs + 2 ^ 63 →
          0 ≤ third.terminalNs + m → third.utcNs < 2 ^ 64 → time ≤ third.utcNs) :=
  ⟨by decide +kernel, by decide +kernel,
    terminal_time_least 77 4 3000000000 earlierQuotes (quoteAt 3 1003 1003000700) (by decide +kernel)⟩

end PipeAdapter

end MicrostructureEngine.Mt5
