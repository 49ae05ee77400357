import Mathlib.Algebra.Ring.Nat
import Mathlib.Data.List.Basic

/-!
# Decimal numerals of a fixed width

A number printed with leading zeros up to a width, and its value read back digit by digit. Among the
strings of one width a numeral and its value determine each other.
-/

namespace MicrostructureEngine.Decimal

set_option autoImplicit false

/-- `n` in decimal, filled up with zeros to `width` characters. -/
def padded (width n : Nat) : List Char := (Nat.toDigits 10 n).leftpad width '0'

def value (digits : List Char) : Nat := Nat.ofDigitChars 10 digits 0

def AllDigits (digits : List Char) : Prop := ∀ c ∈ digits, c.isDigit = true

theorem value_toDigits (n : Nat) : value (Nat.toDigits 10 n) = n := Nat.ofDigitChars_ten_toDigits

theorem allDigits_toDigits (n : Nat) : AllDigits (Nat.toDigits 10 n) := fun _ hc =>
  Nat.isDigit_of_mem_toDigits (by decide) (by decide) hc

/-- A front of a numeral has no greater value. -/
theorem value_take_le (digits : List Char) (n : Nat) : value (digits.take n) ≤ value digits := by
  have happend : value (digits.take n ++ digits.drop n) =
      10 ^ (digits.drop n).length * value (digits.take n) + value (digits.drop n) := by
    unfold value
    rw [Nat.ofDigitChars_append, Nat.ofDigitChars_eq_ofDigitChars_zero]
  rw [List.take_append_drop] at happend
  have hpow : 1 ≤ 10 ^ (digits.drop n).length := Nat.one_le_pow _ _ (by decide)
  have hmul := Nat.mul_le_mul_right (value (digits.take n)) hpow
  omega

theorem value_cons (c : Char) (digits : List Char) :
    value (c :: digits) = 10 ^ digits.length * (c.toNat - 48) + value digits := by
  unfold value
  rw [Nat.ofDigitChars_cons, Nat.ofDigitChars_eq_ofDigitChars_zero, Nat.mul_zero, Nat.zero_add]
  rfl

theorem digit_bounds {c : Char} (h : c.isDigit = true) : 48 ≤ c.toNat ∧ c.toNat ≤ 57 :=
  Char.isDigit_iff_toNat.mp h

theorem value_lt {digits : List Char} (h : AllDigits digits) : value digits < 10 ^ digits.length := by
  induction digits with
  | nil => decide
  | cons c digits ih =>
    have hrest := ih fun d hd => h d (List.mem_cons_of_mem c hd)
    obtain ⟨-, hle⟩ := digit_bounds (h c List.mem_cons_self)
    have hdigit : 10 ^ digits.length * (c.toNat - 48) ≤ 10 ^ digits.length * 9 :=
      Nat.mul_le_mul_left _ (by omega)
    rw [value_cons, List.length_cons, Nat.pow_succ]
    omega

/-- Numerals of one width with one value are the same numeral. -/
theorem eq_of_value_eq {a b : List Char} (ha : AllDigits a) (hb : AllDigits b) (hlength : a.length = b.length)
    (hvalue : value a = value b) : a = b := by
  induction a generalizing b with
  | nil => exact (List.length_eq_zero_iff.mp hlength.symm).symm
  | cons c a ih =>
    cases b with
    | nil => cases hlength
    | cons d b =>
      have hlen : a.length = b.length := Nat.succ.inj hlength
      have ha' : AllDigits a := fun e he => ha e (List.mem_cons_of_mem c he)
      have hb' : AllDigits b := fun e he => hb e (List.mem_cons_of_mem d he)
      have hlta := value_lt ha'
      have hltb := value_lt hb'
      obtain ⟨hc, -⟩ := digit_bounds (ha c List.mem_cons_self)
      obtain ⟨hd, -⟩ := digit_bounds (hb d List.mem_cons_self)
      rw [value_cons, value_cons, hlen] at hvalue
      rw [hlen] at hlta
      -- The leading digit is the quotient by the weight of its place, the rest the remainder.
      have hquotient := congrArg (· / 10 ^ b.length) hvalue
      rw [Nat.mul_add_div (Nat.pow_pos (by decide)), Nat.mul_add_div (Nat.pow_pos (by decide)),
        Nat.div_eq_of_lt hlta, Nat.div_eq_of_lt hltb] at hquotient
      obtain rfl : c = d := Char.toNat_inj.mp (by omega)
      rw [ih ha' hb' hlen (Nat.add_left_cancel hvalue)]

theorem padded_eq (width n : Nat) : padded width n =
    List.replicate (width - (Nat.toDigits 10 n).length) '0' ++ Nat.toDigits 10 n := rfl

theorem value_padded (width n : Nat) : value (padded width n) = n := by
  unfold value
  rw [padded_eq, Nat.ofDigitChars_append, Nat.ofDigitChars_replicate_zero, Nat.mul_zero,
    Nat.ofDigitChars_ten_toDigits]

theorem allDigits_padded (width n : Nat) : AllDigits (padded width n) := by
  intro c hc
  rw [padded_eq] at hc
  rcases List.mem_append.mp hc with hzero | hdigit
  · rw [(List.mem_replicate.mp hzero).2]
    rfl
  · exact Nat.isDigit_of_mem_toDigits (by decide) (by decide) hdigit

theorem length_padded {width n : Nat} (hwidth : 0 < width) (h : n < 10 ^ width) :
    (padded width n).length = width := by
  have hle := (Nat.length_toDigits_le_iff (by decide) hwidth).mpr h
  rw [padded_eq, List.length_append, List.length_replicate]
  omega

/-- Reading inverts printing, and printing reading. -/
theorem padded_value {width : Nat} (hwidth : 0 < width) {digits : List Char} (h : AllDigits digits)
    (hlength : digits.length = width) : padded width (value digits) = digits := by
  have hlt := value_lt h
  rw [hlength] at hlt
  apply eq_of_value_eq (allDigits_padded _ _) h
  · rw [length_padded hwidth hlt, hlength]
  · exact value_padded _ _

end MicrostructureEngine.Decimal
