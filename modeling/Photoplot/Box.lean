import Photoplot.Point

/-!
# Boxes

Boxes with sides along the axes. The bounds of a box lie on a line with two ends, into which the
coordinates are placed; the empty box has its bounds at the wrong ends, so that it adds nothing to
a union.

* `Bounded`, `Placed`: the line of the bounds and how coordinates enter it;
* `Box.union`, `Box.hull`: the smallest box around two boxes and around a list of them;
* `Box.IsEmpty`, `Box.width`, `Box.height`, `Box.center?`: what a box measures;
* `Box.Near`: boxes that agree up to a tolerance.
-/

namespace Photoplot

/-- A line with two ends, on which the bounds of boxes lie. -/
class Bounded (β : Type) where
  /-- The end below every coordinate. -/
  bottom : β
  /-- The end above every coordinate. -/
  top : β

/-- Coordinates as bounds. -/
class Placed (α : Type) (β : outParam Type) where
  /-- The bound at a coordinate. -/
  place : α → β

/-- Doubles carry both ends of their line with them. -/
instance : Bounded Float where
  bottom := -1.0 / 0.0
  top := 1.0 / 0.0

instance : Placed Float Float where
  place x := x

/-- A box with sides along the axes. A lower bound above its upper one is allowed. -/
structure Box (β : Type) where
  /-- The left side. -/
  xMin : β
  /-- The lower side. -/
  yMin : β
  /-- The right side. -/
  xMax : β
  /-- The upper side. -/
  yMax : β

namespace Box

variable {α β : Type}

/-! ## Boxes of simple figures -/

/-- The box that adds nothing to a union. -/
def empty [Bounded β] : Box β :=
  ⟨Bounded.top, Bounded.top, Bounded.bottom, Bounded.bottom⟩

section Placed

variable [Scalar α] [Placed α β]

/-- The box of a circle. -/
def ofCircle (center : Point α) (radius : α) : Box β where
  xMin := Placed.place (center.x - radius)
  yMin := Placed.place (center.y - radius)
  xMax := Placed.place (center.x + radius)
  yMax := Placed.place (center.y + radius)

/-- The box of a rectangle that extends from a corner by its sizes, which may be negative. -/
def ofRectangle (corner : Point α) (xSize ySize : α) : Box β where
  xMin := Placed.place (lesser corner.x (corner.x + xSize))
  yMin := Placed.place (lesser corner.y (corner.y + ySize))
  xMax := Placed.place (greater corner.x (corner.x + xSize))
  yMax := Placed.place (greater corner.y (corner.y + ySize))

/-- The box of a single point. -/
def ofPoint (p : Point α) : Box β where
  xMin := Placed.place p.x
  yMin := Placed.place p.y
  xMax := Placed.place p.x
  yMax := Placed.place p.y

end Placed

/-! ## Unions -/

section Union

variable [LE β] [DecidableLE β]

/-- The smallest box around two boxes. -/
def union (a b : Box β) : Box β where
  xMin := lesser a.xMin b.xMin
  yMin := lesser a.yMin b.yMin
  xMax := greater a.xMax b.xMax
  yMax := greater a.yMax b.yMax

/-- The smallest box around all boxes of a list. -/
def hull [Bounded β] (boxes : List (Box β)) : Box β := boxes.foldl union empty

/-- The smallest box around a box and a point. -/
def withPoint [Scalar α] [Placed α β] (b : Box β) (p : Point α) : Box β := b.union (ofPoint p)

@[simp] theorem hull_nil [Bounded β] : hull ([] : List (Box β)) = empty := rfl

/-- One more box at the end of a list is one more union. -/
@[simp] theorem hull_concat [Bounded β] (boxes : List (Box β)) (b : Box β) :
    hull (boxes ++ [b]) = (hull boxes).union b := by
  simp [hull]

end Union

/-! ## Measures -/

/-- A box with a lower bound above its upper one. -/
def IsEmpty [LT β] (b : Box β) : Prop := b.xMax < b.xMin ∨ b.yMax < b.yMin

instance [LT β] [DecidableLT β] (b : Box β) : Decidable b.IsEmpty :=
  inferInstanceAs (Decidable (_ ∨ _))

section Measures

variable [Scalar β]

/-- The extent along the x axis, none for an empty box. -/
def width (b : Box β) : β := if b.IsEmpty then 0 else b.xMax - b.xMin

/-- The extent along the y axis, none for an empty box. -/
def height (b : Box β) : β := if b.IsEmpty then 0 else b.yMax - b.yMin

/-- The middle of a box that is not empty. -/
def center? (b : Box β) : Option (Point β) :=
  if b.IsEmpty then none
  else some ⟨(b.xMin + b.xMax) / 2.0, (b.yMin + b.yMax) / 2.0⟩

/-- Boxes whose bounds agree up to a tolerance. Empty boxes agree among themselves, whatever their
bounds. -/
def Near (a b : Box β) (tolerance : β) : Prop :=
  if a.IsEmpty ∨ b.IsEmpty then a.IsEmpty ∧ b.IsEmpty
  else
    Scalar.abs (a.xMin - b.xMin) ≤ tolerance ∧ Scalar.abs (a.yMin - b.yMin) ≤ tolerance ∧
      Scalar.abs (a.xMax - b.xMax) ≤ tolerance ∧ Scalar.abs (a.yMax - b.yMax) ≤ tolerance

instance (a b : Box β) (tolerance : β) : Decidable (Near a b tolerance) := by
  unfold Near
  infer_instance

end Measures

end Box

end Photoplot
