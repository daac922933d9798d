import Photoplot.Aperture
import Photoplot.Segment.Extent

/-!
# Figures

The parts of a picture that grow by segments: paths drawn with a round pen, and filled regions.

* `Figure.push`: a figure with one more segment;
* `Figure.box`: its box, drawn with its own pen;
* `Figure.breakReason?`: why a figure cannot take the next stroke.
-/

namespace Photoplot

/-- A part of a picture that grows by segments. -/
inductive Figure (α : Type) where
  /-- A line of the given width along the segments. -/
  | path (width : α) (segments : List (Segment α))
  /-- The inside of the segments. It was either drawn in region mode or swept by a tool. -/
  | region (inRegionMode : Bool) (segments : List (Segment α))

/-- Why a figure cannot take the next stroke. -/
inductive BreakReason where
  /-- A region is open outside region mode, or a path in it. -/
  | regionModeChanged
  /-- A swept region is open in region mode. -/
  | regionStarted
  /-- The path has another width than the tool draws. -/
  | widthChanged
  /-- The tool sweeps a rectangle, which stands alone. -/
  | rectangularTool
  deriving DecidableEq

namespace Figure

variable {α β : Type}

/-- The segments of a figure, in the order in which they were drawn. -/
def segments : Figure α → List (Segment α)
  | path _ segments => segments
  | region _ segments => segments

/-- A figure with one more segment at its end. -/
def push (segment : Segment α) : Figure α → Figure α
  | path width segments => path width (segments ++ [segment])
  | region inRegionMode segments => region inRegionMode (segments ++ [segment])

@[simp] theorem segments_push (segment : Segment α) (f : Figure α) :
    (f.push segment).segments = f.segments ++ [segment] := by
  cases f <;> rfl

section Extent

variable [Scalar α]

/-- The radius of the pen with which a figure is drawn; regions are filled and have none. -/
def penRadius : Figure α → α
  | path width _ => width / 2.0
  | region _ _ => 0

@[simp] theorem penRadius_push (segment : Segment α) (f : Figure α) :
    (f.push segment).penRadius = f.penRadius := by
  cases f <;> rfl

/-- The box of a figure. -/
def box [LE β] [DecidableLE β] [Bounded β] [Placed α β] (f : Figure α) : Box β :=
  Segment.extent f.segments f.penRadius

/-! ## Breaks -/

/-- Whether a tool draws lines of another width than the given one. -/
def DrawsOtherWidth (tool : Option (Tool α)) (width : α) : Prop :=
  ∃ diameter ∈ tool.bind Tool.diameter?, ¬ SameNumber diameter width

instance (tool : Option (Tool α)) (width : α) : Decidable (DrawsOtherWidth tool width) :=
  inferInstanceAs (Decidable (∃ _ ∈ _, _))

/-- Why a figure cannot take a stroke with a tool, in or out of region mode, if it cannot. -/
def breakReason? (f : Figure α) (tool : Option (Tool α)) (regionMode : Bool) : Option BreakReason :=
  match f, regionMode with
  | region _ _, false => some .regionModeChanged
  | path _ _, true => some .regionModeChanged
  | region false _, true => some .regionStarted
  | region true _, true => none
  | path width _, false =>
    if DrawsOtherWidth tool width then some .widthChanged
    else if (tool.bind Tool.rectangle?).isSome then some .rectangularTool
    else none

/-- What a figure holds has no say in whether it can take a stroke. -/
@[simp] theorem breakReason?_push (segment : Segment α) (f : Figure α) (tool : Option (Tool α))
    (regionMode : Bool) :
    (f.push segment).breakReason? tool regionMode = f.breakReason? tool regionMode := by
  match f, regionMode with
  | path _ _, true | path _ _, false => rfl
  | region true _, true | region true _, false | region false _, true | region false _, false => rfl

end Extent

end Figure

end Photoplot
