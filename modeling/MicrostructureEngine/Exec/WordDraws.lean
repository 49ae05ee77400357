import MicrostructureEngine.Exec.ModeOrdering
import MicrostructureEngine.Lib.Limbs

/-!
# Draws in machine words

`next_range` and `multiply_high` as they are computed, on 64-bit words and 32-bit limbs. No product and no
sum of `multiply_high` leaves its word, so it is the high half of the exact product, and the draw is the
one of the models, which is computed on natural numbers.
-/

namespace MicrostructureEngine.Exec.Philox4x32

set_option autoImplicit false

def lowMask : UInt64 := 0xFFFFFFFF

/-- The four products of the limbs of two words. -/
structure Products where
  ll : UInt64
  lh : UInt64
  hl : UInt64
  hh : UInt64
  deriving DecidableEq, Repr

def products (a b : UInt64) : Products where
  ll := (a &&& lowMask) * (b &&& lowMask)
  lh := (a &&& lowMask) * (b >>> 32)
  hl := (a >>> 32) * (b &&& lowMask)
  hh := (a >>> 32) * (b >>> 32)

def Products.carry (p : Products) : UInt64 := ((p.ll >>> 32) + (p.lh &&& lowMask) + (p.hl &&& lowMask)) >>> 32

def multiplyHigh (a b : UInt64) : UInt64 :=
  let p := products a b
  p.hh + (p.lh >>> 32) + (p.hl >>> 32) + p.carry

/-- `next_u64`. -/
def nextWord (runSeed corrId : UInt64) (stage : RngStage) : UInt64 :=
  let words := generate runSeed corrId stage.code
  (words.w1.toUInt64 <<< 32) ||| words.w0.toUInt64

/-- `next_range`. -/
def nextRangeWord (runSeed corrId : UInt64) (stage : RngStage) (low high : UInt64) : UInt64 :=
  if high ≤ low then low
  else
    let span := high - low + 1
    let draw := nextWord runSeed corrId stage
    low + multiplyHigh draw span

/-! ## Limbs -/

section Limbs
variable (a b : UInt64)

theorem toNat_low : (a &&& lowMask).toNat = a.toNat % 2 ^ 32 := by
  have hmask : lowMask.toNat = 2 ^ 32 - 1 := rfl
  rw [UInt64.toNat_and, hmask, Nat.and_two_pow_sub_one_eq_mod]

theorem toNat_high : (a >>> 32).toNat = a.toNat / 2 ^ 32 := by
  rw [UInt64.toNat_shiftRight]
  exact Nat.shiftRight_eq_div_pow _ _

theorem low_lt : (a &&& lowMask).toNat < 2 ^ 32 := by
  rw [toNat_low]
  exact Nat.mod_lt _ (Nat.two_pow_pos _)

theorem high_lt : (a >>> 32).toNat < 2 ^ 32 := by
  have h := a.toNat_lt
  rw [toNat_high]
  omega

/-- Every product and every sum of `multiply_high` is the exact one. -/
structure Exact : Prop where
  ll : (products a b).ll.toNat = a.toNat % 2 ^ 32 * (b.toNat % 2 ^ 32)
  lh : (products a b).lh.toNat = a.toNat % 2 ^ 32 * (b.toNat / 2 ^ 32)
  hl : (products a b).hl.toNat = a.toNat / 2 ^ 32 * (b.toNat % 2 ^ 32)
  hh : (products a b).hh.toNat = a.toNat / 2 ^ 32 * (b.toNat / 2 ^ 32)
  carry : (products a b).carry.toNat = ((products a b).ll.toNat / 2 ^ 32 + (products a b).lh.toNat % 2 ^ 32 +
    (products a b).hl.toNat % 2 ^ 32) / 2 ^ 32
  sum : (multiplyHigh a b).toNat = (products a b).hh.toNat + (products a b).lh.toNat / 2 ^ 32 +
    (products a b).hl.toNat / 2 ^ 32 + (products a b).carry.toNat

theorem toNat_limb_product {x y : UInt64} (hx : x.toNat < 2 ^ 32) (hy : y.toNat < 2 ^ 32) :
    (x * y).toNat = x.toNat * y.toNat ∧ (x * y).toNat ≤ (2 ^ 32 - 1) * (2 ^ 32 - 1) := by
  have hroom := Limbs.digit_product_le hx hy
  have hexact : (x * y).toNat = x.toNat * y.toNat := by
    rw [UInt64.toNat_mul]
    exact Nat.mod_eq_of_lt (by omega)
  rw [hexact]
  exact ⟨rfl, by omega⟩

theorem exact : Exact a b := by
  obtain ⟨hll, hll_le⟩ := toNat_limb_product (low_lt a) (low_lt b)
  obtain ⟨hlh, hlh_le⟩ := toNat_limb_product (low_lt a) (high_lt b)
  obtain ⟨hhl, hhl_le⟩ := toNat_limb_product (high_lt a) (low_lt b)
  obtain ⟨hhh, hhh_le⟩ := toNat_limb_product (high_lt a) (high_lt b)
  have hcarry : (products a b).carry.toNat = ((products a b).ll.toNat / 2 ^ 32 +
      (products a b).lh.toNat % 2 ^ 32 + (products a b).hl.toNat % 2 ^ 32) / 2 ^ 32 := by
    unfold Products.carry
    rw [toNat_high, UInt64.toNat_add, UInt64.toNat_add, toNat_high, toNat_low, toNat_low]
    have hll := (products a b).ll.toNat_lt
    omega
  refine ⟨?_, ?_, ?_, ?_, hcarry, ?_⟩
  · rw [← toNat_low, ← toNat_low]
    exact hll
  · rw [← toNat_low, ← toNat_high]
    exact hlh
  · rw [← toNat_high, ← toNat_low]
    exact hhl
  · rw [← toNat_high, ← toNat_high]
    exact hhh
  · unfold multiplyHigh
    dsimp only
    rw [UInt64.toNat_add, UInt64.toNat_add, UInt64.toNat_add, toNat_high, toNat_high, hcarry]
    have hll' : (products a b).ll.toNat ≤ (2 ^ 32 - 1) * (2 ^ 32 - 1) := hll_le
    have hlh' : (products a b).lh.toNat ≤ (2 ^ 32 - 1) * (2 ^ 32 - 1) := hlh_le
    have hhl' : (products a b).hl.toNat ≤ (2 ^ 32 - 1) * (2 ^ 32 - 1) := hhl_le
    have hhh' : (products a b).hh.toNat ≤ (2 ^ 32 - 1) * (2 ^ 32 - 1) := hhh_le
    omega

theorem toNat_multiplyHigh : (multiplyHigh a b).toNat = a.toNat * b.toNat / 2 ^ 64 := by
  have h := exact a b
  have hhigh := Limbs.high_product (a.toNat / 2 ^ 32) (a.toNat % 2 ^ 32) (b.toNat / 2 ^ 32) (b.toNat % 2 ^ 32)
    (Nat.two_pow_pos 32)
  rw [Nat.div_add_mod' a.toNat, Nat.div_add_mod' b.toNat, ← Nat.pow_add] at hhigh
  rw [hhigh, h.sum, h.carry, h.ll, h.lh, h.hl, h.hh]
  rfl

end Limbs

/-! ## Draws -/

section Draws
variable (runSeed corrId : UInt64) (stage : RngStage)

theorem toNat_nextWord : (nextWord runSeed corrId stage).toNat = nextU64 runSeed corrId stage := by
  unfold nextWord nextU64
  dsimp only
  have hlow := (generate runSeed corrId stage.code).w0.toNat_lt
  have hhigh := (generate runSeed corrId stage.code).w1.toNat_lt
  rw [UInt64.toNat_or, UInt64.toNat_shiftLeft, UInt32.toNat_toUInt64, UInt32.toNat_toUInt64]
  generalize (generate runSeed corrId stage.code).w0.toNat = w0 at hlow ⊢
  generalize (generate runSeed corrId stage.code).w1.toNat = w1 at hhigh ⊢
  have hshift : w1 <<< ((32 : UInt64).toNat % 64) = w1 * 2 ^ 32 := Nat.shiftLeft_eq _ _
  have hfits : w1 * 2 ^ 32 < 2 ^ 64 := by omega
  rw [hshift, Nat.mod_eq_of_lt hfits, ← Nat.shiftLeft_eq, ← Nat.shiftLeft_add_eq_or_of_lt hlow]

theorem nextWord_lt : (nextWord runSeed corrId stage).toNat < 2 ^ 64 := UInt64.toNat_lt _

/-- The draw in words is the draw of the models, for every range. -/
theorem toNat_nextRangeWord (low high : UInt64) :
    (nextRangeWord runSeed corrId stage low high).toNat = nextRange runSeed corrId stage low.toNat high.toNat := by
  have hin : low.toNat < high.toNat → nextRange runSeed corrId stage low.toNat high.toNat ≤ high.toNat :=
    fun h => (nextRange_le runSeed corrId stage (Nat.le_of_lt h)).2
  unfold nextRangeWord
  unfold nextRange at hin ⊢
  by_cases hle : high ≤ low
  · rw [if_pos hle, if_pos (UInt64.le_iff_toNat_le.mp hle)]
  · have hlt : low.toNat < high.toNat := Nat.lt_of_not_le fun h => hle (UInt64.le_iff_toNat_le.mpr h)
    have hspan : (high - low + 1).toNat = (high.toNat - low.toNat + 1) % 2 ^ 64 := by
      rw [UInt64.toNat_add, UInt64.toNat_sub_of_le _ _ (UInt64.le_iff_toNat_le.mpr (Nat.le_of_lt hlt))]
      rfl
    have hbound := hin hlt
    have hfits := high.toNat_lt
    rw [if_neg (Nat.not_le.mpr hlt)] at hbound
    rw [if_neg hle, if_neg (Nat.not_le.mpr hlt)]
    dsimp only
    rw [UInt64.toNat_add, toNat_multiplyHigh, hspan, toNat_nextWord]
    exact Nat.mod_eq_of_lt (Nat.lt_of_le_of_lt hbound hfits)

/-- A range that is not the whole word has its exact share of the draw. -/
theorem nextRangeWord_eq {low high : UInt64} (hle : low ≤ high) (hspan : high.toNat - low.toNat < 2 ^ 64 - 1) :
    (nextRangeWord runSeed corrId stage low high).toNat =
      low.toNat + (nextWord runSeed corrId stage).toNat * (high.toNat - low.toNat + 1) / 2 ^ 64 := by
  have hle' := UInt64.le_iff_toNat_le.mp hle
  rw [toNat_nextRangeWord, toNat_nextWord]
  unfold nextRange
  split
  · have hzero : high.toNat - low.toNat + 1 = 1 := by omega
    have hdraw := nextWord_lt runSeed corrId stage
    rw [toNat_nextWord] at hdraw
    rw [hzero, Nat.mul_one, Nat.div_eq_of_lt hdraw, Nat.add_zero]
  · rw [Nat.mod_eq_of_lt (by omega)]

theorem nextRangeWord_mono {low high high' : UInt64} (hle : low ≤ high) (hhigh : high ≤ high')
    (hspan : high'.toNat - low.toNat < 2 ^ 64 - 1) :
    nextRangeWord runSeed corrId stage low high ≤ nextRangeWord runSeed corrId stage low high' := by
  have hhigh' := UInt64.le_iff_toNat_le.mp hhigh
  rw [UInt64.le_iff_toNat_le, nextRangeWord_eq runSeed corrId stage hle (by omega),
    nextRangeWord_eq runSeed corrId stage (UInt64.le_trans hle hhigh) hspan]
  apply Nat.add_le_add_left
  apply Nat.div_le_div_right
  apply Nat.mul_le_mul_left
  omega

end Draws

/-- `multiply_high` is the high half of the exact product and loses nothing on the way; a draw from a range
is the exact share of it, lies in it, and grows with its upper end. -/
theorem draws_exact :
    (∀ a b : UInt64, Exact a b ∧ (multiplyHigh a b).toNat = a.toNat * b.toNat / 2 ^ 64) ∧
    (∀ (runSeed corrId : UInt64) (stage : RngStage) (low high : UInt64), low ≤ high →
      high.toNat - low.toNat < 2 ^ 64 - 1 →
        (nextRangeWord runSeed corrId stage low high).toNat =
            low.toNat + (nextWord runSeed corrId stage).toNat * (high.toNat - low.toNat + 1) / 2 ^ 64 ∧
          low ≤ nextRangeWord runSeed corrId stage low high ∧ nextRangeWord runSeed corrId stage low high ≤ high) ∧
    (∀ (runSeed corrId : UInt64) (stage : RngStage) (low high high' : UInt64), low ≤ high → high ≤ high' →
      high'.toNat - low.toNat < 2 ^ 64 - 1 →
        nextRangeWord runSeed corrId stage low high ≤ nextRangeWord runSeed corrId stage low high') := by
  refine ⟨fun a b => ⟨exact a b, toNat_multiplyHigh a b⟩, ?_, ?_⟩
  · intro runSeed corrId stage low high hle hspan
    have hin := nextRange_le runSeed corrId stage (UInt64.le_iff_toNat_le.mp hle)
    rw [← toNat_nextRangeWord] at hin
    exact ⟨nextRangeWord_eq runSeed corrId stage hle hspan, UInt64.le_iff_toNat_le.mpr hin.1,
      UInt64.le_iff_toNat_le.mpr hin.2⟩
  · intro runSeed corrId stage low high high' hle hhigh hspan
    exact nextRangeWord_mono runSeed corrId stage hle hhigh hspan

/-- A latency between 1000 and 5000, and the draw from a range twice as wide. -/
theorem draws_exact_latency :
    nextRangeWord 7 42 .latency 1000 5000 = 1951 ∧
    (nextRangeWord 7 42 .latency 1000 5000).toNat =
      1000 + (nextWord 7 42 .latency).toNat * (5000 - 1000 + 1) / 2 ^ 64 ∧
    nextRangeWord 7 42 .latency 1000 5000 ≤ 5000 ∧
    nextRangeWord 7 42 .latency 1000 5000 ≤ nextRangeWord 7 42 .latency 1000 9000 := by
  obtain ⟨-, hdraw, hgrows⟩ := draws_exact
  obtain ⟨hexact, -, hle⟩ := hdraw 7 42 .latency 1000 5000 (by decide) (by decide)
  exact ⟨by decide +kernel, hexact, hle, hgrows 7 42 .latency 1000 5000 9000 (by decide) (by decide) (by decide)⟩

end MicrostructureEngine.Exec.Philox4x32
