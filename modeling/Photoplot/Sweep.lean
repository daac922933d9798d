import Photoplot.Segment

/-!
# Swept rectangles

A rectangle moved along a line sweeps the convex hull of the two rectangles at its ends. The hull
has six corners, three of either rectangle; which ones depends on the quadrant of the move.
-/

namespace Photoplot

/-- The corners of a rectangle. -/
structure Corners (α : Type) where
  /-- The lower left corner. -/
  lowerLeft : Point α
  /-- The lower right corner. -/
  lowerRight : Point α
  /-- The upper right corner. -/
  upperRight : Point α
  /-- The upper left corner. -/
  upperLeft : Point α

variable {α : Type} [Scalar α]

/-- The corners of the rectangle of the given size around a center. -/
def Corners.around (center : Point α) (xSize ySize : α) : Corners α :=
  let x₀ := center.x - xSize / 2.0
  let x₁ := center.x + xSize / 2.0
  let y₀ := center.y - ySize / 2.0
  let y₁ := center.y + ySize / 2.0
  ⟨⟨x₀, y₀⟩, ⟨x₁, y₀⟩, ⟨x₁, y₁⟩, ⟨x₀, y₁⟩⟩

namespace Sweep

/-- The corners of the hull of two rectangles of one size, counter-clockwise, for a move from the
first to the second in the direction of an angle: the corners of the first that look back, and
those of the second that look ahead. -/
def hullCorners (s e : Corners α) (θ : α) : List (Point α) :=
  if 0 ≤ θ ∧ θ < Angle.quarterTurn then
    [s.lowerLeft, s.lowerRight, e.lowerRight, e.upperRight, e.upperLeft, s.upperLeft]
  else if Angle.quarterTurn ≤ θ ∧ θ ≤ Scalar.pi then
    [s.lowerRight, s.upperRight, e.upperRight, e.upperLeft, e.lowerLeft, s.lowerLeft]
  else if -Scalar.pi ≤ θ ∧ θ < -Angle.quarterTurn then
    [s.upperRight, s.upperLeft, e.upperLeft, e.lowerLeft, e.lowerRight, s.lowerRight]
  else
    [s.upperLeft, s.lowerLeft, e.lowerLeft, e.lowerRight, e.upperRight, s.upperRight]

/-- The hull has six corners in every direction. -/
@[simp] theorem length_hullCorners (s e : Corners α) (θ : α) : (hullCorners s e θ).length = 6 := by
  unfold hullCorners
  split
  · rfl
  · split
    · rfl
    · split <;> rfl

/-- The outline of what a rectangle sweeps when its center moves from one point to another. -/
def outline (start stop : Point α) (xSize ySize : α) : List (Segment α) :=
  Segment.ring (hullCorners (Corners.around start xSize ySize) (Corners.around stop xSize ySize)
    (start.angleFrom stop))

end Sweep

end Photoplot
