import Photoplot.Segment
import Photoplot.Box

/-!
# The extent of segments

The box of a list of segments drawn with a round pen. A segment reaches furthest at its ends and,
where it is an arc, at the points straight right, above, left and below its center that it passes.

* `Axis`: the four directions of the axes;
* `Arc.Passes`: whether an arc passes the point of its circle in the direction of an axis;
* `Segment.keyPoints`: the points at which a segment can reach furthest;
* `Segment.extent`: the box of a list of segments.
-/

namespace Photoplot

/-- The four directions of the axes. -/
inductive Axis where
  /-- Along the x axis. -/
  | right
  /-- Along the y axis. -/
  | up
  /-- Against the x axis. -/
  | left
  /-- Against the y axis. -/
  | down
  deriving DecidableEq

namespace Axis

/-- The directions in the order in which a counter-clockwise turn meets them. -/
def all : List Axis := [right, up, left, down]

/-- The quarter turns from the x axis to a direction. -/
def quarterTurns : Axis → Nat
  | right => 0
  | up => 1
  | left => 2
  | down => 3

/-- The point at a distance from a center in the direction of an axis. -/
def pointFrom {α : Type} [Scalar α] (center : Point α) (radius : α) : Axis → Point α
  | right => ⟨center.x + radius, center.y⟩
  | up => ⟨center.x, center.y + radius⟩
  | left => ⟨center.x - radius, center.y⟩
  | down => ⟨center.x, center.y - radius⟩

end Axis

namespace Arc

variable {α : Type} [Scalar α]

/-- The angle of the end from which the arc runs counter-clockwise, within one turn. -/
def firstAngle (a : Arc α) : α :=
  match a.direction with
  | .counterclockwise => Angle.normalize a.startAngle
  | .clockwise => Angle.normalize a.stopAngle

/-- The angle of the end to which the arc runs counter-clockwise, within one turn. -/
def lastAngle (a : Arc α) : α :=
  match a.direction with
  | .counterclockwise => Angle.normalize a.stopAngle
  | .clockwise => Angle.normalize a.startAngle

/-- Whether an arc passes the point of its circle in the direction of an axis: seen from that axis,
it runs on past the end of the turn. -/
def Passes (a : Arc α) (axis : Axis) : Prop :=
  a.IsFullCircle ∨
    Angle.turnedBack a.lastAngle axis.quarterTurns < Angle.turnedBack a.firstAngle axis.quarterTurns

instance (a : Arc α) (axis : Axis) : Decidable (a.Passes axis) :=
  inferInstanceAs (Decidable (_ ∨ _))

/-- The points straight right, above, left and below its center that an arc passes. -/
def axisPoints (a : Arc α) : List (Point α) :=
  (Axis.all.filter fun axis => a.Passes axis).map (Axis.pointFrom a.center a.radius)

end Arc

namespace Segment

variable {α β : Type} [Scalar α]

/-- The points at which a segment can reach furthest in the direction of an axis. -/
def keyPoints : Segment α → List (Point α)
  | line l => [l.start, l.stop]
  | arc a => a.start :: a.stop :: a.axisPoints

/-- The box of a list of segments drawn with a round pen of the given radius. -/
def extent [LE β] [DecidableLE β] [Bounded β] [Placed α β] (segments : List (Segment α))
    (penRadius : α) : Box β :=
  Box.hull ((segments.flatMap keyPoints).map fun p => Box.ofCircle p penRadius)

/-- Nothing drawn has the empty box. -/
@[simp] theorem extent_nil [LE β] [DecidableLE β] [Bounded β] [Placed α β] (penRadius : α) :
    extent ([] : List (Segment α)) penRadius = (Box.empty : Box β) := rfl

end Segment

end Photoplot
