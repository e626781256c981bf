import Mathlib.Algebra.Order.Floor.Semifield
import Mathlib.Data.Rat.Floor
import Mathlib.Tactic.FieldSimp
import Mathlib.Tactic.Ring

/-!
# Decimals

Digits stand for a number, and digits around a point for a rational one. A decimal that is cut behind `k` digits, and
filled up with zeros where there are fewer, is the floor of its `10 ^ k`-fold (`floor_decimal`).
-/

namespace Nerve.Decimal

/-- The number that digits stand for. -/
def numeral (s : List Char) : Nat := Nat.ofDigitChars 10 s 0

/-- What is written with a point between the two texts. -/
def decimal (whole fraction : List Char) : ℚ := numeral whole + numeral fraction / 10 ^ fraction.length

/-- The first `k` digits behind the point. -/
def firstDigits (k : Nat) (fraction : List Char) : List Char :=
  (fraction ++ List.replicate (k - fraction.length) '0').take k

/-- A number with zeros in front, up to the width. -/
def fixed (width n : Nat) : List Char :=
  List.replicate (width - (Nat.toDigits 10 n).length) '0' ++ Nat.toDigits 10 n

theorem numeral_append (s t : List Char) : numeral (s ++ t) = 10 ^ t.length * numeral s + numeral t := by
  rw [numeral, Nat.ofDigitChars_append, Nat.ofDigitChars_eq_ofDigitChars_zero]
  rfl

@[simp] theorem numeral_toDigits (n : Nat) : numeral (Nat.toDigits 10 n) = n := Nat.ofDigitChars_ten_toDigits

@[simp] theorem numeral_zeros (n : Nat) : numeral (List.replicate n '0') = 0 := by
  rw [numeral, Nat.ofDigitChars_replicate_zero, Nat.mul_zero]

theorem numeral_lt {s : List Char} (h : ∀ c ∈ s, c.isDigit = true) : numeral s < 10 ^ s.length := by
  induction s with
  | nil => exact Nat.one_pos
  | cons c s ih =>
    obtain ⟨hc, hs⟩ := List.forall_mem_cons.mp h
    have hdigit : c.toNat ≤ 57 := by
      simp only [Char.isDigit, Bool.and_eq_true, decide_eq_true_eq] at hc
      exact hc.2
    have hhead : numeral [c] ≤ 9 := by
      rw [numeral, Nat.ofDigitChars_cons, Nat.ofDigitChars_nil]
      have : '0'.toNat = 48 := rfl
      omega
    have htail := ih hs
    rw [← List.singleton_append, numeral_append, List.length_append, List.length_singleton, pow_add, pow_one]
    nlinarith

@[simp] theorem length_firstDigits (k : Nat) (fraction : List Char) : (firstDigits k fraction).length = k := by
  rw [firstDigits, List.length_take, List.length_append, List.length_replicate]
  omega

theorem isDigit_firstDigits {k : Nat} {fraction : List Char} (h : ∀ c ∈ fraction, c.isDigit = true) :
    ∀ c ∈ firstDigits k fraction, c.isDigit = true := by
  intro c hc
  obtain hc | hc := List.mem_append.mp (List.mem_of_mem_take hc)
  · exact h c hc
  · rw [List.eq_of_mem_replicate hc]
    rfl

/-- The digits that are cut off are less than one of the last place that stays. -/
theorem numeral_firstDigits {k : Nat} {fraction : List Char} (h : ∀ c ∈ fraction, c.isDigit = true) :
    numeral (firstDigits k fraction) = 10 ^ k * numeral fraction / 10 ^ fraction.length := by
  rw [firstDigits]
  by_cases hk : fraction.length ≤ k
  · have hpow : (10 : Nat) ^ k = 10 ^ (k - fraction.length) * 10 ^ fraction.length := by
      rw [← pow_add, Nat.sub_add_cancel hk]
    rw [List.take_of_length_le, numeral_append, numeral_zeros, List.length_replicate, hpow, mul_right_comm,
      Nat.mul_div_cancel _ (by positivity)]
    · rfl
    · rw [List.length_append, List.length_replicate, Nat.add_sub_cancel' hk]
  · have hcut : k ≤ fraction.length := Nat.le_of_not_le hk
    have hpow : (10 : Nat) ^ fraction.length = 10 ^ k * 10 ^ (fraction.drop k).length := by
      rw [List.length_drop, ← pow_add, Nat.add_sub_cancel' hcut]
    have hrest := numeral_lt fun c hc => h c (List.mem_of_mem_drop (i := k) hc)
    have hsplit : numeral fraction =
        10 ^ (fraction.drop k).length * numeral (fraction.take k) + numeral (fraction.drop k) := by
      rw [← numeral_append, List.take_append_drop]
    rw [Nat.sub_eq_zero_of_le hcut, List.replicate_zero, List.append_nil, hpow,
      Nat.mul_div_mul_left _ _ (by positivity), hsplit, Nat.mul_add_div (by positivity), Nat.div_eq_of_lt hrest]
    rfl

/-- **Cut behind `k` digits** is the floor of the `10 ^ k`-fold. -/
theorem floor_decimal {k : Nat} (whole : List Char) {fraction : List Char} (h : ∀ c ∈ fraction, c.isDigit = true) :
    ⌊10 ^ k * decimal whole fraction⌋₊ = numeral whole * 10 ^ k + numeral (firstDigits k fraction) := by
  have hcast : 10 ^ k * decimal whole fraction =
      ((10 ^ k * numeral fraction + 10 ^ fraction.length * (numeral whole * 10 ^ k) : Nat) : ℚ) /
        ((10 ^ fraction.length : Nat) : ℚ) := by
    rw [decimal]
    push_cast
    field_simp
    ring
  rw [hcast, Nat.floor_div_eq_div, Nat.add_mul_div_left _ _ (by positivity), numeral_firstDigits h, Nat.add_comm]

@[simp] theorem numeral_fixed (width n : Nat) : numeral (fixed width n) = n := by
  rw [fixed, numeral_append, numeral_zeros, numeral_toDigits, Nat.mul_zero, Nat.zero_add]

theorem length_fixed {width n : Nat} (hwidth : 0 < width) (h : n < 10 ^ width) : (fixed width n).length = width := by
  have hlength := (Nat.length_toDigits_le_iff (by decide) hwidth).mpr h
  rw [fixed, List.length_append, List.length_replicate]
  omega

theorem isDigit_fixed {width n : Nat} : ∀ c ∈ fixed width n, c.isDigit = true := by
  intro c hc
  obtain hc | hc := List.mem_append.mp hc
  · rw [List.eq_of_mem_replicate hc]
    rfl
  · exact Nat.isDigit_of_mem_toDigits (by decide) (by decide) hc

end Nerve.Decimal
