import MicrostructureEngine.Exec.PaperBroker

/-!
# The order of the simulation modes

Latency, slippage, rejection and queue placement are each a profile of the mode, stretched by the
regime and scaled by one draw. Along optimistic, base and pessimistic every one of them grows: the
profile outweighs the regime, and a draw scales a larger range to a larger value.
-/

namespace MicrostructureEngine.Exec

set_option autoImplicit false

/-- Three levels on each axis. -/
def regimeLevels : Nat := 3

structure RegimeBucket.InRange (bucket : RegimeBucket) : Prop where
  spread : bucket.spreadLevel < regimeLevels
  rate : bucket.rateLevel < regimeLevels
  vol : bucket.volLevel < regimeLevels

/-- How conservative a mode is. -/
def SimulationMode.rank : SimulationMode → Nat
  | .optimistic => 0
  | .base => 1
  | .pessimistic => 2

theorem SimulationMode.rank_cases {m n : SimulationMode} (h : m.rank ≤ n.rank) :
    m = n ∨ m = .optimistic ∨ (m = .base ∧ n = .pessimistic) := by
  cases m <;> cases n <;> simp [rank] at h ⊢

theorem regimeStress_bounds {bucket : RegimeBucket} (h : bucket.InRange) :
    2 ≤ regimeStress bucket ∧ regimeStress bucket ≤ 8 := by
  obtain ⟨hs, hr, hv⟩ := h
  unfold regimeLevels at hs hr hv
  unfold regimeStress
  omega

theorem stressFor_pessimistic (bucket : RegimeBucket) : stressFor .pessimistic bucket = 8 := rfl

/-! ## Draws -/

namespace Philox4x32

/-- One draw scales a larger range to a larger value. -/
theorem nextRange_mono (runSeed corrId : UInt64) (stage : RngStage) {high high' : Nat}
    (h : high ≤ high') (hbound : high' + 1 < 2 ^ 64) :
    nextRange runSeed corrId stage 0 high ≤ nextRange runSeed corrId stage 0 high' := by
  unfold nextRange
  split
  · exact Nat.zero_le _
  · rename_i hpos
    rw [if_neg (by omega)]
    simp only [Nat.sub_zero, Nat.zero_add]
    rw [Nat.mod_eq_of_lt (by omega), Nat.mod_eq_of_lt hbound]
    exact Nat.div_le_div_right (Nat.mul_le_mul_left _ (Nat.succ_le_succ h))

theorem bernoulli_mono (runSeed corrId : UInt64) (stage : RngStage) {p q : Nat} (h : p ≤ q)
    (hp : bernoulli runSeed corrId stage p = true) : bernoulli runSeed corrId stage q = true := by
  unfold bernoulli at hp ⊢
  split at hp
  · cases hp
  · rename_i hpos
    rw [if_neg (by omega)]
    split
    · rfl
    · rename_i hq
      rw [if_neg (by omega), decide_eq_true_eq] at hp
      rw [decide_eq_true_eq]
      omega

end Philox4x32

/-- Rounding to `double` stays below the powers of two that a `double` can hold. -/
theorem roundDouble_le {n k : Nat} (h : n < 2 ^ k) : roundDouble n ≤ 2 ^ k := by
  unfold roundDouble
  split
  · exact Nat.le_of_lt h
  · rename_i hlarge
    have hn : n ≠ 0 := by
      rintro rfl
      exact hlarge (by decide)
    have hlog : n.log2 < k := (Nat.log2_lt hn).mpr h
    have hlow : 53 ≤ n.log2 := by
      rw [Nat.le_log2 hn]
      exact Nat.not_lt.mp hlarge
    have htop : n < 2 ^ (n.log2 + 1) := Nat.lt_log2_self
    have hsplit : 2 ^ (n.log2 + 1) = 2 ^ 53 * 2 ^ (n.log2 - 52) := by
      rw [← Nat.pow_add]
      congr 1
      omega
    have hquotient : n / 2 ^ (n.log2 - 52) < 2 ^ 53 := by
      apply Nat.div_lt_of_lt_mul
      rw [Nat.mul_comm, ← hsplit]
      exact htop
    have hcapped : ∀ q : Nat, q ≤ 2 ^ 53 → q * 2 ^ (n.log2 - 52) ≤ 2 ^ k := by
      intro q hq
      calc q * 2 ^ (n.log2 - 52) ≤ 2 ^ 53 * 2 ^ (n.log2 - 52) := Nat.mul_le_mul_right _ hq
        _ = 2 ^ (n.log2 + 1) := hsplit.symm
        _ ≤ 2 ^ k := Nat.pow_le_pow_right (by decide) hlog
    dsimp only
    split
    · exact hcapped _ hquotient
    · exact hcapped _ (Nat.le_of_lt hquotient)

theorem toInt64_of_lt {n : Nat} (h : n < 2 ^ 63) : toInt64 n = n := by
  unfold toInt64
  rw [Int.bmod_eq_of_le] <;> omega

/-! ## The models -/

namespace LatencyModel

theorem sampleNs_bounds (runSeed corrId : UInt64) (mode : SimulationMode) (bucket : RegimeBucket) :
    (ModeProfile.forMode mode).latencyBaseNs * stressFor mode bucket / 2 ≤
        sampleNs runSeed corrId mode bucket ∧
      sampleNs runSeed corrId mode bucket ≤
        (ModeProfile.forMode mode).latencyBaseNs * stressFor mode bucket / 2 +
          (ModeProfile.forMode mode).latencySpanNs * stressFor mode bucket / 2 := by
  unfold sampleNs
  dsimp only
  split
  · exact ⟨Nat.le_refl _, Nat.le_add_right _ _⟩
  · have hdraw := (Philox4x32.nextRange_le runSeed corrId .latency
      (Nat.zero_le ((ModeProfile.forMode mode).latencySpanNs * stressFor mode bucket / 2))).2
    exact ⟨Nat.le_add_right _ _, Nat.add_le_add_left hdraw _⟩

/-- The ranges of the modes do not even overlap. -/
theorem sampleNs_mono (runSeed corrId : UInt64) {m n : SimulationMode} (hmn : m.rank ≤ n.rank)
    {bucket : RegimeBucket} (hb : bucket.InRange) :
    sampleNs runSeed corrId m bucket ≤ sampleNs runSeed corrId n bucket := by
  have hm := (sampleNs_bounds runSeed corrId m bucket).2
  have hn := (sampleNs_bounds runSeed corrId n bucket).1
  have hstress := regimeStress_bounds hb
  rcases SimulationMode.rank_cases hmn with rfl | rfl | ⟨rfl, rfl⟩
  · exact Nat.le_refl _
  · cases n with
    | optimistic => exact Nat.le_refl _
    | base =>
      simp only [ModeProfile.forMode, stressFor, reduceCtorEq, if_false] at hm hn
      omega
    | pessimistic =>
      rw [stressFor_pessimistic] at hn
      simp only [ModeProfile.forMode, stressFor, reduceCtorEq, if_false] at hm hn
      omega
  · rw [stressFor_pessimistic] at hn
    simp only [ModeProfile.forMode, stressFor, reduceCtorEq, if_false] at hm hn
    omega

end LatencyModel

namespace SlippageModel

/-- The largest slippage of a mode. -/
def cap (mode : SimulationMode) (bucket : RegimeBucket) (spreadTicks : Int) : Nat :=
  roundDouble (if spreadTicks > 0 then spreadTicks.toNat else 1) *
    ((ModeProfile.forMode mode).slippageMultiplier * min (stressFor mode bucket) 4) / 2

theorem cap_bound (mode : SimulationMode) (bucket : RegimeBucket) {spreadTicks : Int}
    (hspread : spreadTicks < 2 ^ 60) : cap mode bucket spreadTicks ≤ 2 ^ 62 := by
  have hsize : (if spreadTicks > 0 then spreadTicks.toNat else 1) < 2 ^ 60 := by
    split <;> omega
  have hround := roundDouble_le hsize
  have hscale : (ModeProfile.forMode mode).slippageMultiplier * min (stressFor mode bucket) 4 ≤ 8 := by
    have hmin := Nat.min_le_right (stressFor mode bucket) 4
    cases mode <;> simp only [ModeProfile.forMode] <;> omega
  have hproduct := Nat.mul_le_mul hround hscale
  unfold cap
  omega

theorem sampleTicks_eq (runSeed corrId : UInt64) (mode : SimulationMode) (bucket : RegimeBucket)
    {spreadTicks : Int} (hspread : spreadTicks < 2 ^ 60) :
    sampleTicks runSeed corrId mode bucket spreadTicks =
      Philox4x32.nextRange runSeed corrId .slippage 0 (cap mode bucket spreadTicks) := by
  have hbound := cap_bound mode bucket hspread
  have hdraw := (Philox4x32.nextRange_le runSeed corrId .slippage
    (Nat.zero_le (cap mode bucket spreadTicks))).2
  have hzero : Philox4x32.nextRange runSeed corrId .slippage 0 0 = 0 := rfl
  have hshape : sampleTicks runSeed corrId mode bucket spreadTicks =
      if (ModeProfile.forMode mode).slippageMultiplier = 0 then 0
      else if cap mode bucket spreadTicks = 0 then 0
      else toInt64 (Philox4x32.nextRange runSeed corrId .slippage 0 (cap mode bucket spreadTicks)) := rfl
  rw [hshape]
  by_cases hcap : cap mode bucket spreadTicks = 0
  · rw [if_pos hcap, ite_self, hcap, hzero]
    rfl
  · have hmultiplier : (ModeProfile.forMode mode).slippageMultiplier ≠ 0 := by
      intro hnone
      apply hcap
      unfold cap
      rw [hnone, Nat.zero_mul, Nat.mul_zero]
    rw [if_neg hmultiplier, if_neg hcap]
    exact toInt64_of_lt (by omega)

/-- Slippage is never favourable. -/
theorem sampleTicks_nonneg (runSeed corrId : UInt64) (mode : SimulationMode) (bucket : RegimeBucket)
    {spreadTicks : Int} (hspread : spreadTicks < 2 ^ 60) :
    0 ≤ sampleTicks runSeed corrId mode bucket spreadTicks := by
  rw [sampleTicks_eq runSeed corrId mode bucket hspread]
  exact Int.natCast_nonneg _

theorem cap_mono {m n : SimulationMode} (hmn : m.rank ≤ n.rank) (bucket : RegimeBucket)
    (spreadTicks : Int) : cap m bucket spreadTicks ≤ cap n bucket spreadTicks := by
  unfold cap
  refine Nat.div_le_div_right (Nat.mul_le_mul_left _ ?_)
  rcases SimulationMode.rank_cases hmn with rfl | rfl | ⟨rfl, rfl⟩
  · exact Nat.le_refl _
  · rw [show (ModeProfile.forMode .optimistic).slippageMultiplier = 0 from rfl, Nat.zero_mul]
    exact Nat.zero_le _
  · have hmin := Nat.min_le_right (stressFor .base bucket) 4
    rw [stressFor_pessimistic]
    simp only [ModeProfile.forMode]
    omega

theorem sampleTicks_mono (runSeed corrId : UInt64) {m n : SimulationMode} (hmn : m.rank ≤ n.rank)
    (bucket : RegimeBucket) {spreadTicks : Int} (hspread : spreadTicks < 2 ^ 60) :
    sampleTicks runSeed corrId m bucket spreadTicks ≤ sampleTicks runSeed corrId n bucket spreadTicks := by
  have hbound := cap_bound n bucket hspread
  rw [sampleTicks_eq runSeed corrId m bucket hspread, sampleTicks_eq runSeed corrId n bucket hspread,
    Int.ofNat_le]
  exact Philox4x32.nextRange_mono runSeed corrId .slippage (cap_mono hmn bucket spreadTicks) (by omega)

end SlippageModel

namespace RejectionModel

theorem rejects_mono (runSeed corrId : UInt64) {m n : SimulationMode} (hmn : m.rank ≤ n.rank)
    {bucket : RegimeBucket} (hb : bucket.InRange) (h : rejects runSeed corrId m bucket = true) :
    rejects runSeed corrId n bucket = true := by
  have hstress := regimeStress_bounds hb
  rcases SimulationMode.rank_cases hmn with rfl | rfl | ⟨rfl, rfl⟩
  · exact h
  · cases h
  · unfold rejects at h ⊢
    rw [stressFor_pessimistic]
    simp only [ModeProfile.forMode, stressFor, reduceCtorEq, if_false] at h ⊢
    refine Philox4x32.bernoulli_mono runSeed corrId .rejection ?_ h
    omega

end RejectionModel

theorem queueAtPlacement_mono (config : BrokerConfig) {m n : SimulationMode} (hmn : m.rank ≤ n.rank)
    (side : Side) (market : MarketState) :
    PaperBroker.queueAtPlacement { config with mode := m } side market ≤
      PaperBroker.queueAtPlacement { config with mode := n } side market := by
  unfold PaperBroker.queueAtPlacement
  dsimp only
  split
  · exact Int.le_refl _
  · rw [Int.ofNat_le]
    refine Nat.div_le_div_right (Nat.mul_le_mul_left _ ?_)
    rcases SimulationMode.rank_cases hmn with rfl | rfl | ⟨rfl, rfl⟩
    · exact Nat.le_refl _
    · exact Nat.zero_le _
    · exact Nat.le_succ 1

/-- On every single draw a more conservative mode is no more favourable: its slippage, its latency
and its queue are at least as large, and it rejects whatever a less conservative one does. -/
theorem modes_ordered (runSeed corrId : UInt64) {m n : SimulationMode} (hmn : m.rank ≤ n.rank)
    {bucket : RegimeBucket} (hb : bucket.InRange) {spreadTicks : Int} (hspread : spreadTicks < 2 ^ 60)
    (config : BrokerConfig) (side : Side) (market : MarketState) :
    SlippageModel.sampleTicks runSeed corrId m bucket spreadTicks ≤
        SlippageModel.sampleTicks runSeed corrId n bucket spreadTicks ∧
      LatencyModel.sampleNs runSeed corrId m bucket ≤ LatencyModel.sampleNs runSeed corrId n bucket ∧
      PaperBroker.queueAtPlacement { config with mode := m } side market ≤
        PaperBroker.queueAtPlacement { config with mode := n } side market ∧
      (RejectionModel.rejects runSeed corrId m bucket = true →
        RejectionModel.rejects runSeed corrId n bucket = true) :=
  ⟨SlippageModel.sampleTicks_mono runSeed corrId hmn bucket hspread,
    LatencyModel.sampleNs_mono runSeed corrId hmn hb, queueAtPlacement_mono config hmn side market,
    RejectionModel.rejects_mono runSeed corrId hmn hb⟩

theorem modes_ordered_adverse :
    SlippageModel.sampleTicks 1 1 .base ⟨2, 2, 2⟩ 20 ≤
        SlippageModel.sampleTicks 1 1 .pessimistic ⟨2, 2, 2⟩ 20 ∧
      LatencyModel.sampleNs 1 1 .base ⟨2, 2, 2⟩ ≤ LatencyModel.sampleNs 1 1 .pessimistic ⟨2, 2, 2⟩ ∧
      PaperBroker.queueAtPlacement { mode := .base } .buy { bidSize := 7 } ≤
        PaperBroker.queueAtPlacement { mode := .pessimistic } .buy { bidSize := 7 } ∧
      (RejectionModel.rejects 1 1 .base ⟨2, 2, 2⟩ = true →
        RejectionModel.rejects 1 1 .pessimistic ⟨2, 2, 2⟩ = true) :=
  modes_ordered 1 1 (by decide) ⟨by decide, by decide, by decide⟩ (by decide) {} .buy { bidSize := 7 }

end MicrostructureEngine.Exec
