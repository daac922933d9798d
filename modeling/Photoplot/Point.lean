import Photoplot.Angle

/-!
# Points

Points of the plane, the offsets that locate the center of an arc, and when two points count as
one.
-/

namespace Photoplot

/-- A point of the plane. -/
structure Point (α : Type) where
  /-- The abscissa. -/
  x : α
  /-- The ordinate. -/
  y : α

/-- The displacement of the center of an arc from its start. -/
structure Offsets (α : Type) where
  /-- The displacement along the x axis. -/
  i : α
  /-- The displacement along the y axis. -/
  j : α

namespace Point

variable {α : Type} [Scalar α]

/-- The point displaced by some offsets. -/
def displaced (p : Point α) (o : Offsets α) : Point α := ⟨p.x + o.i, p.y + o.j⟩

/-- The distance between two points. -/
def distance (p q : Point α) : α :=
  Scalar.sqrt ((p.x - q.x) * (p.x - q.x) + (p.y - q.y) * (p.y - q.y))

/-- The angle at which a point is seen from a center. -/
def angleFrom (center p : Point α) : α :=
  Scalar.atan2 (p.y - center.y) (p.x - center.x)

/-- The largest difference of coordinates at which two points still count as one. -/
def tolerance : α := 1e-9

/-- Two points that count as one: they are close in both coordinates. -/
def Coincide (p q : Point α) : Prop :=
  Scalar.abs (p.x - q.x) ≤ tolerance ∧ Scalar.abs (p.y - q.y) ≤ tolerance

instance (p q : Point α) : Decidable (Coincide p q) :=
  inferInstanceAs (Decidable (_ ∧ _))

end Point

/-- Offsets so small that the center they locate counts as the start itself. -/
def Offsets.Vanish {α : Type} [Scalar α] (o : Offsets α) : Prop :=
  Scalar.abs o.i ≤ Point.tolerance ∧ Scalar.abs o.j ≤ Point.tolerance

instance {α : Type} [Scalar α] (o : Offsets α) : Decidable o.Vanish :=
  inferInstanceAs (Decidable (_ ∧ _))

end Photoplot
