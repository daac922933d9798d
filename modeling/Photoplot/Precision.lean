import Photoplot.Scalar

/-!
# Rounding to decimal places

Computed coordinates are rounded to a number of decimal places: scaled by a power of ten, rounded
to whole numbers and scaled back. A zero comes out without a sign.
-/

namespace Photoplot

variable {α : Type} [Scalar α]

/-- The power of ten that shifts a number by so many places. Counts from `2 ^ 31` on stand for
negative counts, in two's complement. -/
def shiftFactor (places : UInt32) : α :=
  Scalar.power 10.0 places.toInt32.toInt

/-- A number with its zeros made one: the zero without a sign. -/
def unsignedZero (value : α) : α :=
  if SameNumber value 0 then 0 else value

/-- A number rounded to so many decimal places, halves going away from zero. -/
def roundToPlaces (value : α) (places : UInt32) : α :=
  unsignedZero (Scalar.roundHalfAway (value * shiftFactor places) / shiftFactor places)

end Photoplot
