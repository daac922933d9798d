import Photoplot.Diagnostic

/-!
# Options

The tolerances and the precision of a plot. Each option is set by a function that refuses values
the plot cannot use and otherwise changes that option alone.
-/

namespace Photoplot

/-- The tolerances and the precision of a plot. -/
structure Options (α : Type) where
  /-- The difference that the radii at the ends of an arc may always have. -/
  arcTolerance : α
  /-- The difference that they may have as a fraction of the radius. -/
  arcRelativeTolerance : α
  /-- The decimal places kept in computed coordinates. -/
  precision : UInt32

namespace Options

variable {α : Type} [Scalar α]

/-- The options of a plot for which none are set. -/
def standard : Options α where
  arcTolerance := 1e-4
  arcRelativeTolerance := 1e-3
  precision := 10

/-- The largest number of decimal places that can be kept. -/
def maxPrecision : UInt32 := 15

/-! ## Setting options -/

/-- Sets the tolerance for radii as a length. -/
def withArcTolerance (o : Options α) (value : α) : Except (PlotError α) (Options α) :=
  match NumericFault.ofSize? value with
  | some fault => .error (.invalidOption .arcTolerance fault)
  | none => .ok { o with arcTolerance := value }

/-- Sets the tolerance for radii as a fraction. -/
def withArcRelativeTolerance (o : Options α) (value : α) : Except (PlotError α) (Options α) :=
  match NumericFault.ofSize? value with
  | some fault => .error (.invalidOption .arcRelativeTolerance fault)
  | none => .ok { o with arcRelativeTolerance := value }

/-- Sets the decimal places kept in computed coordinates. -/
def withPrecision (o : Options α) (places : UInt32) : Except (PlotError α) (Options α) :=
  if maxPrecision < places then
    .error (.invalidOption .precision (.tooLarge (Nat.cast maxPrecision.toNat)))
  else .ok { o with precision := places }

/-- Options with all values given; the first one that is refused decides the error. -/
def make (arcTolerance arcRelativeTolerance : α) (precision : UInt32) :
    Except (PlotError α) (Options α) := do
  let o ← standard.withArcTolerance arcTolerance
  let o ← o.withArcRelativeTolerance arcRelativeTolerance
  o.withPrecision precision

/-! ## Using them -/

/-- The difference that the radii at the ends of an arc of a given radius may have. -/
def toleranceFor (o : Options α) (radius : α) : α :=
  greater o.arcTolerance (Scalar.abs radius * o.arcRelativeTolerance)

end Options

end Photoplot
