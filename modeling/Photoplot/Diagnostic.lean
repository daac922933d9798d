import Photoplot.Point

/-!
# Diagnostics

What can be wrong with a plot. Only what would silently give a wrong picture is an error; an arc
that does not fit its circle is drawn all the same and reported.

* `NumericFault`: what is wrong with a number;
* `PlotError`: why a stroke or an option is refused;
* `RadiusMismatch`: the warning about an arc whose ends lie at different distances from its center.
-/

namespace Photoplot

/-- What is wrong with a number. -/
inductive NumericFault (α : Type) where
  /-- It is no number at all. -/
  | notANumber
  /-- It is infinite. -/
  | infinite
  /-- It is negative where it must not be. -/
  | negative
  /-- It exceeds the largest value allowed. -/
  | tooLarge (max : α)

/-- The options of a plot that can be set. -/
inductive OptionName where
  /-- The tolerance for the radius of an arc, as a length. -/
  | arcTolerance
  /-- The tolerance for the radius of an arc, as a fraction of it. -/
  | arcRelativeTolerance
  /-- The decimal places of computed coordinates. -/
  | precision
  deriving DecidableEq

/-- Why a stroke or an option is refused. -/
inductive PlotError (α : Type) where
  /-- No choice of signs for the offsets puts the center of a quarter arc at the same distance from
  both ends. -/
  | arcCenterNotFound (start stop : Point α) (offsets : Offsets α) (direction : Direction)
  /-- An option does not take the value given for it. -/
  | invalidOption (name : OptionName) (fault : NumericFault α)

/-- An arc whose ends lie at different distances from its center. -/
structure RadiusMismatch (α : Type) where
  /-- The point where the arc starts. -/
  start : Point α
  /-- The point where the arc ends. -/
  stop : Point α
  /-- The center. -/
  center : Point α
  /-- The radius at which the arc starts and is drawn. -/
  startRadius : α
  /-- The distance of its end from the center. -/
  stopRadius : α

/-- What is wrong with a number that has to be finite and not negative, if anything. -/
def NumericFault.ofSize? {α : Type} [Scalar α] (value : α) : Option (NumericFault α) :=
  if IsNaN value then some .notANumber
  else if Scalar.isInfinite value then some .infinite
  else if value < 0 then some .negative
  else none

/-- Nothing is wrong with a number exactly when it is one, finite and not negative. -/
theorem NumericFault.ofSize?_eq_none_iff {α : Type} [Scalar α] (value : α) :
    ofSize? value = none ↔ ¬ IsNaN value ∧ Scalar.isInfinite value = false ∧ ¬ value < 0 := by
  unfold ofSize?
  split
  · simp_all
  · split
    · simp_all
    · split <;> simp_all

end Photoplot
