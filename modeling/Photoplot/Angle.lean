import Photoplot.Scalar

/-!
# Angles

Angles are numbers in radians, counted counter-clockwise from the positive x axis.

* `Angle.fullTurn` and its fractions;
* `Angle.normalize`: an angle brought into one turn, both ends of which are kept;
* `Angle.turnBack`: an angle as seen from an axis a quarter turn further on;
* `Angle.travelled`: how far a move turns from one angle to another in a `Direction`.
-/

namespace Photoplot

/-- The direction in which an arc is travelled. -/
inductive Direction where
  /-- With the hands of a clock. -/
  | clockwise
  /-- Against the hands of a clock, as angles are counted. -/
  | counterclockwise
  deriving DecidableEq

namespace Direction

/-- The other direction. -/
def opposite : Direction → Direction
  | clockwise => counterclockwise
  | counterclockwise => clockwise

@[simp] theorem opposite_opposite (d : Direction) : d.opposite.opposite = d := by
  cases d <;> rfl

/-- The direction in words. -/
def text : Direction → String
  | clockwise => "clockwise"
  | counterclockwise => "counter-clockwise"

end Direction

namespace Angle

variable {α : Type} [Scalar α]

/-! ## Fractions of a turn -/

/-- A full turn. -/
def fullTurn : α := 2.0 * Scalar.pi

/-- A quarter of a turn. -/
def quarterTurn : α := Scalar.pi / 2.0

/-- Three quarters of a turn. -/
def threeQuarterTurn : α := 3.0 * quarterTurn

/-- An angle given in degrees. -/
def ofDegrees (degrees : α) : α := degrees * (Scalar.pi / 180.0)

/-- An angle in degrees. -/
def toDegrees (θ : α) : α := θ * (180.0 / Scalar.pi)

/-! ## Angles within a turn -/

/-- An angle brought into one turn. Both ends of the turn are kept as given, so that a full turn
stays apart from none. -/
def normalize (θ : α) : α :=
  if 0 ≤ θ ∧ θ ≤ fullTurn then θ else Scalar.modulo θ fullTurn

/-- An angle of one turn as seen from an axis a quarter turn further on, again within one turn. -/
def turnBack (θ : α) : α :=
  if quarterTurn ≤ θ then θ - quarterTurn else θ + threeQuarterTurn

/-- An angle of one turn as seen from an axis so many quarter turns further on. -/
def turnedBack (θ : α) : Nat → α
  | 0 => θ
  | n + 1 => turnBack (turnedBack θ n)

@[simp] theorem turnedBack_zero (θ : α) : turnedBack θ 0 = θ := rfl

@[simp] theorem turnedBack_succ (θ : α) (n : Nat) :
    turnedBack θ (n + 1) = turnBack (turnedBack θ n) := rfl

/-! ## Turning from one angle to another -/

/-- The signed turn from one angle to another, counted along a direction. -/
def turn (start stop : α) : Direction → α
  | .counterclockwise => stop - start
  | .clockwise => start - stop

/-- How far a move turns from one angle to another in a direction. Equal angles are a full turn
apart. -/
def travelled (start stop : α) (direction : Direction) : α :=
  let sweep := Scalar.modulo (turn start stop direction) fullTurn
  if sweep ≤ 0 then fullTurn else sweep

/-- A move turns as far as the same move made backwards. -/
theorem travelled_opposite (start stop : α) (direction : Direction) :
    travelled stop start direction.opposite = travelled start stop direction := by
  cases direction <;> rfl

end Angle

end Photoplot
