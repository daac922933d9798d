/-!
# Decimals

A decimal is a whole number of digits and the power of ten that the last of them counts. Its text
is always positional: zeros fill the places up to the point, and no exponent is written.
-/

namespace Photoplot

/-- The decimal `digits * 10 ^ exponent`. -/
structure Decimal where
  /-- The digits, read as a whole number. -/
  digits : Nat
  /-- The power of ten that the last digit counts. -/
  exponent : Int

namespace Decimal

/-- The digits of a number with zeros before them up to a least count. -/
def padded (count n : Nat) : String :=
  "".pushn '0' (count - n.repr.length) ++ n.repr

/-- The positional text of a decimal: zeros after the digits of a multiple of a positive power of
ten, and otherwise exactly as many digits after the point as the exponent counts. -/
def text (d : Decimal) : String :=
  if 0 ≤ d.exponent then d.digits.repr ++ "".pushn '0' d.exponent.toNat
  else
    let places := (-d.exponent).toNat
    let unit := Nat.pow 10 places
    (d.digits / unit).repr ++ "." ++ padded places (d.digits % unit)

end Decimal

end Photoplot
