import MicrostructureEngine.Exec.Account

/-!
# Philox draws and the latency, slippage, rejection and commission models

The generator is Philox-4x32-10, bit for bit. The models multiply integers by a few dyadic
constants in `double`; every such product is exact, so they are integers here: a stress or a
queue placement in halves, a rejection probability over `2 ^ 60`. The one rounding that is
left, of a large integer to `double`, is `roundDouble`.
-/

namespace MicrostructureEngine.Exec

set_option autoImplicit false

inductive RngStage where
  | latency
  | slippage
  | rejection
  | partialFill
  | queueShare
  | requote
  deriving DecidableEq, Repr

def RngStage.code : RngStage → UInt32
  | latency => 1
  | slippage => 2
  | rejection => 3
  | partialFill => 4
  | queueShare => 5
  | requote => 6

/-- `static_cast<std::int64_t>` of an unsigned 64-bit value. -/
def toInt64 (n : Nat) : Int := (n : Int).bmod (2 ^ 64)

namespace Philox4x32

structure Block where
  w0 : UInt32
  w1 : UInt32
  w2 : UInt32
  w3 : UInt32
  deriving DecidableEq, Repr

def mulHi (a b : UInt32) : UInt32 := UInt32.ofNat (a.toNat * b.toNat / 2 ^ 32)

def mulLo (a b : UInt32) : UInt32 := a * b

def roundFunction (c : Block) (k0 k1 : UInt32) : Block where
  w0 := mulHi 0xCD9E8D57 c.w2 ^^^ c.w1 ^^^ k0
  w1 := mulLo 0xCD9E8D57 c.w2
  w2 := mulHi 0xD2511F53 c.w0 ^^^ c.w3 ^^^ k1
  w3 := mulLo 0xD2511F53 c.w0

/-- The loop of `generate_raw`; the key moves between rounds, so not after the last one. -/
def rounds : Nat → Block → UInt32 → UInt32 → Block
  | 0, c, _, _ => c
  | n + 1, c, k0, k1 => rounds n (roundFunction c k0 k1) (k0 + 0x9E3779B9) (k1 + 0xBB67AE85)

def generateRaw (c : Block) (k0 k1 : UInt32) : Block := rounds 10 c k0 k1

-- The published known-answer vector for a zero counter under a zero key.
example : generateRaw ⟨0, 0, 0, 0⟩ 0 0 = ⟨0x6627e8d5, 0xe169c58d, 0xbc57ac4c, 0x9b00dbd8⟩ := by
  decide +kernel

def generate (runSeed corrId : UInt64) (stageId : UInt32) : Block :=
  generateRaw ⟨corrId.toUInt32, (corrId >>> 32).toUInt32, stageId, 0⟩
    runSeed.toUInt32 (runSeed >>> 32).toUInt32

def nextU64 (runSeed corrId : UInt64) (stage : RngStage) : Nat :=
  let words := generate runSeed corrId stage.code
  words.w1.toNat * 2 ^ 32 + words.w0.toNat

/-- Uniform integer in `[low, high]`: the high 64 bits of a 64 by 64 product. -/
def nextRange (runSeed corrId : UInt64) (stage : RngStage) (low high : Nat) : Nat :=
  if high ≤ low then low
  else low + nextU64 runSeed corrId stage * ((high - low + 1) % 2 ^ 64) / 2 ^ 64

/-- `next_unit(..) < probability` with the probability over `2 ^ 60`, the unit over `2 ^ 53`. -/
def bernoulli (runSeed corrId : UInt64) (stage : RngStage) (probability : Nat) : Bool :=
  if probability = 0 then false
  else if probability ≥ 2 ^ 60 then true
  else decide (nextU64 runSeed corrId stage / 2 ^ 11 * 2 ^ 7 < probability)

theorem nextRange_le (runSeed corrId : UInt64) (stage : RngStage) {low high : Nat} (h : low ≤ high) :
    low ≤ nextRange runSeed corrId stage low high ∧ nextRange runSeed corrId stage low high ≤ high := by
  unfold nextRange
  split
  · exact ⟨Nat.le_refl _, h⟩
  · have hdraw : nextU64 runSeed corrId stage < 2 ^ 64 := by
      have h0 := (generate runSeed corrId stage.code).w0.toNat_lt
      have h1 := (generate runSeed corrId stage.code).w1.toNat_lt
      unfold nextU64
      dsimp only
      omega
    have hspan : (high - low + 1) % 2 ^ 64 ≤ high - low + 1 := Nat.mod_le _ _
    have hshare : nextU64 runSeed corrId stage * ((high - low + 1) % 2 ^ 64) / 2 ^ 64 <
        high - low + 1 := by
      apply Nat.div_lt_of_lt_mul
      calc nextU64 runSeed corrId stage * ((high - low + 1) % 2 ^ 64)
          ≤ nextU64 runSeed corrId stage * (high - low + 1) := Nat.mul_le_mul_left _ hspan
        _ < 2 ^ 64 * (high - low + 1) := Nat.mul_lt_mul_of_pos_right hdraw (Nat.succ_pos _)
    omega

end Philox4x32

inductive SimulationMode where
  | optimistic
  | base
  | pessimistic
  deriving DecidableEq, Repr, Inhabited

/-- An integer as the nearest `double`, ties to even. -/
def roundDouble (n : Nat) : Nat :=
  if n < 2 ^ 53 then n
  else
    let unit := 2 ^ (n.log2 - 52)
    let q := n / unit
    let r := n % unit
    (if r * 2 > unit ∨ (r * 2 = unit ∧ q % 2 = 1) then q + 1 else q) * unit

structure RegimeBucket where
  spreadLevel : Nat
  rateLevel : Nat
  volLevel : Nat
  deriving DecidableEq, Repr

/-- The observed spread over a median of one tick, in quarters; the thresholds are 1.25 and 2. -/
def levelOf (quarters : Int) (low high : Int) : Nat :=
  if quarters < low then 0 else if quarters < high then 1 else 2

/-- `classify` of the observation `regime_observation` makes, whose event rate and volatility
are zero. -/
def classify (spreadTicks : Int) : RegimeBucket := ⟨levelOf (4 * spreadTicks) 5 8, 0, 0⟩

/-- `regime_stress`, in halves. -/
def regimeStress (bucket : RegimeBucket) : Nat :=
  2 + (bucket.spreadLevel + bucket.rateLevel + bucket.volLevel)

/-- Pessimistic mode uses the adverse bucket unconditionally. -/
def stressFor (mode : SimulationMode) (bucket : RegimeBucket) : Nat :=
  if mode = .pessimistic then regimeStress ⟨2, 2, 2⟩ else regimeStress bucket

structure ModeProfile where
  latencyBaseNs : Nat
  latencySpanNs : Nat
  slippageMultiplier : Nat
  rejectProbability : Nat
  queuePlacement : Nat
  deriving DecidableEq, Repr

/-- Probabilities over `2 ^ 60`: the doubles nearest to 0.005 and to 0.010. Placements in
halves: front, mid and back of the queue. -/
def ModeProfile.forMode : SimulationMode → ModeProfile
  | .optimistic => ⟨200000, 100000, 0, 0, 0⟩
  | .base => ⟨2000000, 3000000, 1, 5764607523034235, 1⟩
  | .pessimistic => ⟨30000000, 20000000, 2, 11529215046068470, 2⟩

namespace LatencyModel

def sampleNs (runSeed corrId : UInt64) (mode : SimulationMode) (bucket : RegimeBucket) : Nat :=
  let profile := ModeProfile.forMode mode
  let stress := stressFor mode bucket
  let span := profile.latencySpanNs * stress / 2
  let base := profile.latencyBaseNs * stress / 2
  if span = 0 then base
  else base + Philox4x32.nextRange runSeed corrId .latency 0 span

end LatencyModel

namespace SlippageModel

/-- Additional adverse ticks paid by a marketable order; the stress is clamped at 2. -/
def sampleTicks (runSeed corrId : UInt64) (mode : SimulationMode) (bucket : RegimeBucket)
    (spreadTicks : Int) : Int :=
  let profile := ModeProfile.forMode mode
  if profile.slippageMultiplier = 0 then 0
  else
    let scale := profile.slippageMultiplier * min (stressFor mode bucket) 4
    let cap := roundDouble (if spreadTicks > 0 then spreadTicks.toNat else 1) * scale / 2
    if cap = 0 then 0
    else toInt64 (Philox4x32.nextRange runSeed corrId .slippage 0 cap)

end SlippageModel

namespace RejectionModel

def rejects (runSeed corrId : UInt64) (mode : SimulationMode) (bucket : RegimeBucket) : Bool :=
  let profile := ModeProfile.forMode mode
  if profile.rejectProbability = 0 then false
  else
    Philox4x32.bernoulli runSeed corrId .rejection
      (profile.rejectProbability * stressFor mode bucket / 2)

end RejectionModel

namespace CommissionModel

/-- Charged on filled volume, rounded half up. -/
def chargeMinor (spec : SymbolSpec) (filledVolume : Int) : Int :=
  if filledVolume ≤ 0 ∨ spec.commissionPerLotMinor = 0 then 0
  else if spec.volumeStep ≤ 0 then 0
  else
    let numerator := filledVolume * spec.commissionPerLotMinor
    let denominator := if spec.contractSize > 0 then spec.contractSize else 1
    (numerator + denominator.tdiv 2).tdiv denominator

end CommissionModel

end MicrostructureEngine.Exec
