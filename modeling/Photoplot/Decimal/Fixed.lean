import Photoplot.Decimal

/-!
# Decimals with fixed places

A binary number rounded to a fixed count of decimal places. The rounding is done on the exact value
`m * 2 ^ q`, so a tie is a tie of the number itself, and it goes to the even neighbour.
-/

namespace Photoplot.Decimal

/-- The whole number nearest to a quotient, a half going to the even one. -/
def nearestEven (num den : Nat) : Nat :=
  let below := num / den
  let rest := 2 * (num % den)
  if den < rest || (rest == den && below % 2 == 1) then below + 1 else below

/-- `m * 2 ^ q` rounded to so many decimal places. -/
def fixed (places m : Nat) (q : Int) : Decimal where
  digits := nearestEven (m * Nat.pow 10 places * 1 <<< q.toNat) (1 <<< (-q).toNat)
  exponent := -places

/-- A whole number is its own nearest. -/
theorem nearestEven_mul (n den : Nat) (h : 0 < den) : nearestEven (n * den) den = n := by
  have h0 : den ≠ 0 := by omega
  simp [nearestEven, Nat.mul_div_cancel _ h]
  omega

/-- The nearest whole number lies within half a unit of the quotient. -/
theorem nearestEven_bounds (num den : Nat) (h : 0 < den) :
    2 * (den * nearestEven num den) ≤ 2 * num + den ∧
      2 * num ≤ 2 * (den * nearestEven num den) + den := by
  have hd := Nat.div_add_mod num den
  have hr := Nat.mod_lt num h
  simp only [nearestEven]
  split
  · next hup =>
    simp only [Bool.or_eq_true, Bool.and_eq_true, beq_iff_eq, decide_eq_true_eq] at hup
    rw [Nat.mul_add, Nat.mul_one]
    omega
  · next hdown =>
    simp only [Bool.or_eq_true, Bool.and_eq_true, beq_iff_eq, decide_eq_true_eq] at hdown
    omega

end Photoplot.Decimal
