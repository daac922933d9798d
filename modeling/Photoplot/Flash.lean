import Photoplot.Aperture
import Photoplot.Options
import Photoplot.Precision
import Photoplot.Shape

/-!
# Flashes

The shape that a tool exposes at a position. An aperture without a hole gives a shape of its own
kind; one with a hole gives the outlines of both, from which the hole is left out when the inside
is filled.
-/

namespace Photoplot

variable {α : Type} [Scalar α]

namespace Aperture

/-- A corner of a regular polygon, rounded to so many decimal places. -/
def vertexAt (center : Point α) (radius : α) (places : UInt32) (θ : α) : Point α where
  x := roundToPlaces (center.x + radius * Scalar.cos θ) places
  y := roundToPlaces (center.y + radius * Scalar.sin θ) places

/-- The angle at which a corner of a regular polygon lies, the first one at a given angle. -/
def vertexAngle (vertices : Nat) (first : α) (index : Nat) : α :=
  Angle.fullTurn / Nat.cast vertices * Nat.cast index + first

/-- The corners of a regular polygon that is turned by some degrees. -/
def vertexList (center : Point α) (radius : α) (vertices : Nat) (rotation : α) (places : UInt32) :
    List (Point α) :=
  (List.range vertices).map fun index =>
    vertexAt center radius places (vertexAngle vertices (Angle.ofDegrees rotation) index)

/-- The rectangle of the given size around a position. -/
def rectangleAround (position : Point α) (xSize ySize : α) (rounding : Option α) : Rectangle α where
  corner := ⟨position.x - xSize / 2.0, position.y - ySize / 2.0⟩
  xSize := xSize
  ySize := ySize
  rounding := rounding

/-- The shape of an aperture around a position. The ends of an obround are rounded with half of its
shorter side. -/
def shapeAt (o : Options α) (position : Point α) : Aperture α → Shape α
  | circle diameter => .circle position (diameter / 2.0)
  | rectangle xSize ySize => .rectangle (rectangleAround position xSize ySize none)
  | obround xSize ySize =>
    .rectangle (rectangleAround position xSize ySize (some (lesser (xSize / 2.0) (ySize / 2.0))))
  | polygon diameter vertices rotation =>
    .polygon (vertexList position (diameter / 2.0) vertices (rotation.getD 0) o.precision)

/-- A polygon has as many corners as it is given. -/
@[simp] theorem length_vertexList (center : Point α) (radius : α) (vertices : Nat) (rotation : α)
    (places : UInt32) : (vertexList center radius vertices rotation places).length = vertices := by
  simp [vertexList]

end Aperture

/-- The shape of a tool around a position: that of its aperture, or the outlines of the aperture
and of the hole in it. -/
def Tool.shapeAt (o : Options α) (position : Point α) (t : Tool α) : Shape α :=
  match t.hole with
  | none => t.aperture.shapeAt o position
  | some hole =>
    .outlined ((t.aperture.shapeAt o position).outline ++
      (hole.toAperture.shapeAt o position).outline)

end Photoplot
