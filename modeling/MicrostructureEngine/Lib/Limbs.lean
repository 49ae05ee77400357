import Mathlib.Tactic.Ring

/-!
# Products of two-digit numbers

Schoolbook multiplication in a base: the high half of the product of two numbers of two digits, from the
four products of their digits.
-/

namespace MicrostructureEngine.Limbs

set_option autoImplicit false

variable {base : Nat} (aHi aLo bHi bLo : Nat)

/-- The column sum that decides the carry. -/
def column (base ll lh hl : Nat) : Nat := ll / base + lh % base + hl % base

theorem product_eq :
    (aHi * base + aLo) * (bHi * base + bLo) =
      ((aHi * bHi + aLo * bHi / base + aHi * bLo / base) * base +
        column base (aLo * bLo) (aLo * bHi) (aHi * bLo)) * base + aLo * bLo % base := by
  have hll := Nat.div_add_mod (aLo * bLo) base
  have hlh := Nat.div_add_mod (aLo * bHi) base
  have hhl := Nat.div_add_mod (aHi * bLo) base
  unfold column
  calc (aHi * base + aLo) * (bHi * base + bLo)
      = aHi * bHi * base * base + (aLo * bHi + aHi * bLo) * base + aLo * bLo := by ring
    _ = aHi * bHi * base * base + ((base * (aLo * bHi / base) + aLo * bHi % base) +
          (base * (aHi * bLo / base) + aHi * bLo % base)) * base +
          (base * (aLo * bLo / base) + aLo * bLo % base) := by rw [hll, hlh, hhl]
    _ = _ := by ring

/-- The high half of a product. -/
theorem high_product (hbase : 0 < base) :
    (aHi * base + aLo) * (bHi * base + bLo) / (base * base) =
      aHi * bHi + aLo * bHi / base + aHi * bLo / base +
        column base (aLo * bLo) (aLo * bHi) (aHi * bLo) / base := by
  have hlow : aLo * bLo % base / base = 0 := Nat.div_eq_of_lt (Nat.mod_lt _ hbase)
  rw [← Nat.div_div_eq_div_mul, product_eq, Nat.add_comm _ (aLo * bLo % base), Nat.add_mul_div_right _ _ hbase,
    hlow, Nat.zero_add, Nat.add_comm _ (column _ _ _ _), Nat.add_mul_div_right _ _ hbase, Nat.add_comm]

/-- A product of two digits leaves room for two more of them. -/
theorem digit_product_le {a b : Nat} (ha : a < base) (hb : b < base) : a * b + 2 * (base - 1) < base * base := by
  obtain ⟨k, rfl⟩ : ∃ k, base = k + 1 := ⟨base - 1, by omega⟩
  have hab : a * b ≤ k * k := Nat.mul_le_mul (Nat.le_of_lt_succ ha) (Nat.le_of_lt_succ hb)
  have hsquare : (k + 1) * (k + 1) = k * k + 2 * k + 1 := by ring
  omega

end MicrostructureEngine.Limbs
