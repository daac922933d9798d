import Photoplot.Segment.Extent

/-!
# Shapes

The filled shapes of a picture. Every shape has a box of its own and an outline of segments; the
box is taken from the measures of the shape and not from its outline.

* `Shape.outline`: the boundary of a shape as segments, counter-clockwise;
* `Shape.box`: the box of a shape;
* `Rectangle.outline`: rings and rounded rings, with the corner radius bounded by the sides.
-/

namespace Photoplot

/-- A rectangle that extends from a corner by its sizes, possibly with rounded corners. -/
structure Rectangle (α : Type) where
  /-- The corner from which the sizes count. -/
  corner : Point α
  /-- The extent along the x axis, which may be negative. -/
  xSize : α
  /-- The extent along the y axis, which may be negative. -/
  ySize : α
  /-- The radius of the corners, if they are rounded. -/
  rounding : Option α

/-- A filled shape. -/
inductive Shape (α : Type) where
  /-- A circle. -/
  | circle (center : Point α) (radius : α)
  /-- A rectangle. -/
  | rectangle (rectangle : Rectangle α)
  /-- A polygon. -/
  | polygon (points : List (Point α))
  /-- What a list of segments bounds. -/
  | outlined (segments : List (Segment α))
  /-- What a list of segments bounds, cleared of all that lies beneath. -/
  | cleared (segments : List (Segment α))
  /-- Shapes on top of each other. -/
  | layered (shapes : List (Shape α))

variable {α β : Type} [Scalar α]

/-- The outline of a circle: one full turn from its rightmost point. -/
def circleOutline (center : Point α) (radius : α) : List (Segment α) :=
  let start : Point α := ⟨center.x + radius, center.y⟩
  [.arc (Arc.around start start center radius Angle.fullTurn .counterclockwise)]

namespace Rectangle

/-- The radius of the corners as drawn: at most half of either side. -/
def cornerRadius (r : Rectangle α) : α :=
  lesser (lesser (r.rounding.getD 0) (Scalar.abs r.xSize / 2.0)) (Scalar.abs r.ySize / 2.0)

/-- The abscissa of the side across from the corner. -/
def xFar (r : Rectangle α) : α := r.corner.x + r.xSize

/-- The ordinate of the side across from the corner. -/
def yFar (r : Rectangle α) : α := r.corner.y + r.ySize

/-- The corners in order, from the one that the sizes count from. -/
def corners (r : Rectangle α) : List (Point α) :=
  [r.corner, ⟨r.xFar, r.corner.y⟩, ⟨r.xFar, r.yFar⟩, ⟨r.corner.x, r.yFar⟩]

/-- A quarter turn around the center of a rounded corner. -/
def cornerArc (center start stop : Point α) (radius : α) : Segment α :=
  .arc (Arc.around start stop center radius Angle.quarterTurn .counterclockwise)

/-- The sides and corners of a rectangle whose corners are rounded with a radius, each side before
the corner it leads into; a side whose ends count as one point is left out. -/
def roundedOutline (r : Rectangle α) (radius : α) : List (Segment α) :=
  let x₀ := r.corner.x
  let y₀ := r.corner.y
  let x₁ := r.xFar
  let y₁ := r.yFar
  [ Segment.between? ⟨x₀ + radius, y₀⟩ ⟨x₁ - radius, y₀⟩,
    some (cornerArc ⟨x₁ - radius, y₀ + radius⟩ ⟨x₁ - radius, y₀⟩ ⟨x₁, y₀ + radius⟩ radius),
    Segment.between? ⟨x₁, y₀ + radius⟩ ⟨x₁, y₁ - radius⟩,
    some (cornerArc ⟨x₁ - radius, y₁ - radius⟩ ⟨x₁, y₁ - radius⟩ ⟨x₁ - radius, y₁⟩ radius),
    Segment.between? ⟨x₁ - radius, y₁⟩ ⟨x₀ + radius, y₁⟩,
    some (cornerArc ⟨x₀ + radius, y₁ - radius⟩ ⟨x₀ + radius, y₁⟩ ⟨x₀, y₁ - radius⟩ radius),
    Segment.between? ⟨x₀, y₁ - radius⟩ ⟨x₀, y₀ + radius⟩,
    some (cornerArc ⟨x₀ + radius, y₀ + radius⟩ ⟨x₀, y₀ + radius⟩ ⟨x₀ + radius, y₀⟩ radius)
  ].filterMap id

/-- The outline of a rectangle, with sharp corners unless their radius is positive. -/
def outline (r : Rectangle α) : List (Segment α) :=
  if r.cornerRadius ≤ 0 then Segment.ring r.corners else r.roundedOutline r.cornerRadius

end Rectangle

namespace Shape

/-! ## Outlines -/

mutual

/-- The boundary of a shape as segments; layers follow each other. -/
def outline : Shape α → List (Segment α)
  | circle center radius => circleOutline center radius
  | rectangle r => r.outline
  | polygon points => Segment.ring points
  | outlined segments => segments
  | cleared segments => segments
  | layered shapes => outlines shapes

/-- The boundaries of shapes, one after the other. -/
def outlines : List (Shape α) → List (Segment α)
  | [] => []
  | shape :: shapes => shape.outline ++ outlines shapes

end

theorem outlines_eq_flatMap (shapes : List (Shape α)) : outlines shapes = shapes.flatMap outline := by
  induction shapes with
  | nil => rfl
  | cons shape shapes ih => simp [outlines, ih]

@[simp] theorem outline_layered (shapes : List (Shape α)) :
    (layered shapes).outline = shapes.flatMap outline := by
  rw [outline, outlines_eq_flatMap]

/-! ## Boxes -/

section Box

variable [LE β] [DecidableLE β] [Bounded β] [Placed α β]

mutual

/-- The box of a shape, from its own measures. -/
def box : Shape α → Box β
  | circle center radius => Box.ofCircle center radius
  | rectangle r => Box.ofRectangle r.corner r.xSize r.ySize
  | polygon points => Box.hull (points.map Box.ofPoint)
  | outlined segments => Segment.extent segments 0
  | cleared segments => Segment.extent segments 0
  | layered shapes => Box.hull (boxes shapes)

/-- The boxes of shapes. -/
def boxes : List (Shape α) → List (Box β)
  | [] => []
  | shape :: shapes => shape.box :: boxes shapes

end

theorem boxes_eq_map (shapes : List (Shape α)) : boxes shapes = shapes.map (box (β := β)) := by
  induction shapes with
  | nil => rfl
  | cons shape shapes ih => simp [boxes, ih]

@[simp] theorem box_layered (shapes : List (Shape α)) :
    ((layered shapes).box : Box β) = Box.hull (shapes.map box) := by
  rw [box, boxes_eq_map]

end Box

end Shape

end Photoplot
