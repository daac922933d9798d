import Photoplot.Diagnostic
import Photoplot.Report.Number

/-!
# Messages

The wording of errors and warnings, with the stable code and the advice that go with each.
-/

namespace Photoplot

open Report

/-- A diagnostic in words. -/
structure Message where
  /-- What happened. -/
  text : String
  /-- A stable code for the kind of diagnostic. -/
  code : String
  /-- What to check. -/
  help : Option String
  /-- How serious it is, when that is less than an error. -/
  severity : Option String
  /-- The fault from which the diagnostic arose. -/
  cause : Option String

/-- A point as its coordinates in brackets. -/
def Point.text (p : Point Float) : String :=
  "[" ++ number p.x ++ ", " ++ number p.y ++ "]"

/-- Offsets by their names. -/
def Offsets.text (o : Offsets Float) : String :=
  "(i: " ++ number o.i ++ ", j: " ++ number o.j ++ ")"

/-- The wording of a fault of a number. -/
def NumericFault.text : NumericFault Float → String
  | notANumber => "value is NaN"
  | infinite => "value is infinite"
  | negative => "value is negative"
  | tooLarge max => "value is larger than " ++ number max

/-- The name of an option. -/
def OptionName.text : OptionName → String
  | arcTolerance => "arc_tolerance"
  | arcRelativeTolerance => "arc_relative_tolerance"
  | precision => "precision"

/-- The wording of an error. -/
def PlotError.message : PlotError Float → Message
  | arcCenterNotFound start stop offsets direction =>
    { text := "no single-quadrant arc center fits " ++ direction.text ++ " move from " ++
        start.text ++ " to " ++ stop.text ++ " with offsets " ++ offsets.text
      code := "pcbplot::arc::center_not_found"
      help := some ("the offsets do not describe a quarter arc; " ++
        "check the quadrant mode and the arc tolerance")
      severity := none
      cause := none }
  | invalidOption name fault =>
    { text := "invalid plot option `" ++ name.text ++ "`: " ++ fault.text
      code := "pcbplot::options::invalid"
      help := none
      severity := none
      cause := some fault.text }

/-- The wording of the warning about an arc that misses its circle. -/
def RadiusMismatch.message (w : RadiusMismatch Float) : Message where
  text := "arc from " ++ w.start.text ++ " to " ++ w.stop.text ++ " around " ++ w.center.text ++
    " starts at radius " ++ number w.startRadius ++ " but ends at radius " ++ number w.stopRadius
  code := "pcbplot::arc::radius_mismatch"
  help := some "the start radius was used; check the arc offsets"
  severity := some "Warning"
  cause := none

end Photoplot
