import Photoplot.Proofs.Exact
import Photoplot.Proofs.Run.Marks

/-!
# Displaced shapes

The plane has no origin that a plot could tell from another point: what is computed from displaced
points is what is computed from the points, displaced. This is shown here for everything that a
picture is made of; whole runs build on it.

* `Line.displaced`, …, `Shape.displaced`: lines, arcs, rectangles and shapes moved as a whole, which
  keep their measures;
* `Box.displaced`: a box moved as a whole, of which missing bounds stay missing;
* `Segment.ring_displaced`, `Sweep.outline_displaced`, `Shape.outline_displaced`: outlines;
* `Segment.extent_displaced`, `Shape.box_displaced`: boxes;
* `Tool.shapeAt_displaced`: flashes. Only the corners of a polygonal aperture are rounded, and those
  are where the plane does have an origin.
-/

namespace Photoplot

/-! ## Moved as a whole -/

section Displaced

variable {α : Type} [Scalar α]

/-- A line moved as a whole. -/
def Line.displaced (l : Line α) (v : Offsets α) : Line α :=
  ⟨l.start.displaced v, l.stop.displaced v⟩

/-- An arc moved as a whole. -/
def Arc.displaced (a : Arc α) (v : Offsets α) : Arc α :=
  { a with
    start := a.start.displaced v
    stop := a.stop.displaced v
    center := a.center.displaced v }

/-- A segment moved as a whole. -/
def Segment.displaced : Segment α → Offsets α → Segment α
  | line l, v => line (l.displaced v)
  | arc a, v => arc (a.displaced v)

/-- A rectangle moved as a whole. -/
def Rectangle.displaced (r : Rectangle α) (v : Offsets α) : Rectangle α :=
  { r with corner := r.corner.displaced v }

mutual

/-- A shape moved as a whole. -/
def Shape.displaced : Shape α → Offsets α → Shape α
  | .circle center radius, v => .circle (center.displaced v) radius
  | .rectangle r, v => .rectangle (r.displaced v)
  | .polygon points, v => .polygon (points.map fun p => p.displaced v)
  | .outlined segments, v => .outlined (segments.map fun s => s.displaced v)
  | .cleared segments, v => .cleared (segments.map fun s => s.displaced v)
  | .layered shapes, v => .layered (Shape.displacedAll shapes v)

/-- Shapes moved as a whole. -/
def Shape.displacedAll : List (Shape α) → Offsets α → List (Shape α)
  | [], _ => []
  | shape :: shapes, v => shape.displaced v :: Shape.displacedAll shapes v

end

theorem Shape.displacedAll_eq_map (shapes : List (Shape α)) (v : Offsets α) :
    displacedAll shapes v = shapes.map fun s => s.displaced v := by
  induction shapes with
  | nil => rfl
  | cons shape shapes ih => rw [displacedAll, ih, List.map_cons]

@[simp] theorem Shape.displaced_layered (shapes : List (Shape α)) (v : Offsets α) :
    (layered shapes).displaced v = layered (shapes.map fun s => s.displaced v) := by
  rw [displaced, displacedAll_eq_map]

end Displaced

noncomputable section

/-- A box moved as a whole. -/
def Box.displaced (b : Box EReal) (v : Offsets ℝ) : Box EReal :=
  ⟨b.xMin + v.i, b.yMin + v.j, b.xMax + v.i, b.yMax + v.j⟩

variable (v : Offsets ℝ)

/-! ## Points -/

namespace Point

theorem displaced_comm (p : Point ℝ) (o : Offsets ℝ) :
    (p.displaced v).displaced o = (p.displaced o).displaced v := by
  ext <;> simp only [displaced] <;> ring

@[simp] theorem distance_displaced (p q : Point ℝ) :
    (p.displaced v).distance (q.displaced v) = p.distance q := by
  simp only [distance, displaced, add_sub_add_right_eq_sub]

@[simp] theorem angleFrom_displaced (center p : Point ℝ) :
    (center.displaced v).angleFrom (p.displaced v) = center.angleFrom p := by
  simp only [angleFrom, displaced, add_sub_add_right_eq_sub]

@[simp] theorem coincide_displaced (p q : Point ℝ) :
    (p.displaced v).Coincide (q.displaced v) ↔ p.Coincide q := by
  simp only [Coincide, displaced, add_sub_add_right_eq_sub]

end Point

/-! ## Segments -/

@[simp] theorem Arc.displaced_around (start stop center : Point ℝ) (radius sweep : ℝ)
    (direction : Direction) : (Arc.around start stop center radius sweep direction).displaced v =
      Arc.around (start.displaced v) (stop.displaced v) (center.displaced v) radius sweep
        direction := by
  simp only [displaced, around, Point.angleFrom_displaced]

theorem Axis.pointFrom_displaced (axis : Axis) (center : Point ℝ) (radius : ℝ) :
    axis.pointFrom (center.displaced v) radius = (axis.pointFrom center radius).displaced v := by
  cases axis <;> ext <;> simp only [pointFrom, Point.displaced] <;> ring

namespace Segment

/-- Which axes an arc passes is a matter of its angles, which it keeps. -/
theorem keyPoints_displaced (s : Segment ℝ) :
    (s.displaced v).keyPoints = s.keyPoints.map fun p => p.displaced v := by
  cases s with
  | line l => rfl
  | arc a =>
    have hpasses : ∀ axis, (a.displaced v).Passes axis ↔ a.Passes axis := fun _ => Iff.rfl
    simp only [displaced, keyPoints, Arc.axisPoints, hpasses, List.map_cons, List.map_map,
      Function.comp_def, ← Axis.pointFrom_displaced]
    rfl

theorem between?_displaced (p q : Point ℝ) :
    between? (p.displaced v) (q.displaced v) = (between? p q).map fun s => s.displaced v := by
  by_cases h : p.Coincide q
  · simp [between?, h]
  · simp [between?, h, displaced, Line.displaced]

/-- The ring through displaced points is the displaced ring. -/
theorem ring_displaced (points : List (Point ℝ)) :
    ring (points.map fun p => p.displaced v) = (ring points).map fun s => s.displaced v := by
  rw [ring, ring, ← List.map_drop, ← List.map_take, ← List.map_append, List.zip_map,
    List.filterMap_map, List.map_filterMap]
  refine List.filterMap_congr ?_
  rintro ⟨p, q⟩ -
  exact between?_displaced v p q

end Segment

/-! ## Sweeps -/

/-- The corners of a rectangle moved as a whole. -/
def Corners.displaced (c : Corners ℝ) (v : Offsets ℝ) : Corners ℝ :=
  ⟨c.lowerLeft.displaced v, c.lowerRight.displaced v, c.upperRight.displaced v,
    c.upperLeft.displaced v⟩

theorem Corners.around_displaced (center : Point ℝ) (xSize ySize : ℝ) :
    Corners.around (center.displaced v) xSize ySize =
      (Corners.around center xSize ySize).displaced v := by
  simp only [around, displaced, Point.displaced, add_sub_right_comm, add_right_comm]

namespace Sweep

theorem hullCorners_displaced (s e : Corners ℝ) (θ : ℝ) :
    hullCorners (s.displaced v) (e.displaced v) θ =
      (hullCorners s e θ).map fun p => p.displaced v := by
  unfold hullCorners
  split_ifs <;> rfl

theorem outline_displaced (start stop : Point ℝ) (xSize ySize : ℝ) :
    outline (start.displaced v) (stop.displaced v) xSize ySize =
      (outline start stop xSize ySize).map fun s => s.displaced v := by
  rw [outline, outline, Corners.around_displaced, Corners.around_displaced,
    Point.angleFrom_displaced, hullCorners_displaced, Segment.ring_displaced]

end Sweep

/-! ## Outlines -/

theorem circleOutline_displaced (center : Point ℝ) (radius : ℝ) :
    circleOutline (center.displaced v) radius =
      (circleOutline center radius).map fun s => s.displaced v := by
  have hstart : (⟨(center.displaced v).x + radius, (center.displaced v).y⟩ : Point ℝ) =
      Point.displaced ⟨center.x + radius, center.y⟩ v := by
    simp only [Point.displaced, add_right_comm]
  rw [circleOutline, circleOutline, hstart, List.map_singleton, Segment.displaced,
    Arc.displaced_around]

namespace Rectangle

theorem corners_displaced (r : Rectangle ℝ) :
    (r.displaced v).corners = r.corners.map fun p => p.displaced v := by
  simp only [corners, displaced, xFar, yFar, Point.displaced, List.map_cons, List.map_nil,
    add_right_comm]

theorem cornerArc_displaced (center start stop : Point ℝ) (radius : ℝ) :
    cornerArc (center.displaced v) (start.displaced v) (stop.displaced v) radius =
      (cornerArc center start stop radius).displaced v := by
  rw [cornerArc, cornerArc, Segment.displaced, Arc.displaced_around]

theorem roundedOutline_displaced (r : Rectangle ℝ) (radius : ℝ) :
    (r.displaced v).roundedOutline radius =
      (r.roundedOutline radius).map fun s => s.displaced v := by
  have hpoint : ∀ x y : ℝ, (⟨x + v.i, y + v.j⟩ : Point ℝ) = Point.displaced ⟨x, y⟩ v :=
    fun _ _ => rfl
  have hpieces : ∀ pieces : List (Option (Segment ℝ)),
      (pieces.filterMap id).map (fun s => s.displaced v) =
        (pieces.map (Option.map fun s => s.displaced v)).filterMap id := by
    intro pieces
    rw [List.map_filterMap, List.filterMap_map]
    rfl
  rw [roundedOutline, roundedOutline, hpieces]
  simp only [displaced, xFar, yFar, Point.displaced, add_right_comm _ v.i, add_right_comm _ v.j,
    add_sub_right_comm _ v.i, add_sub_right_comm _ v.j]
  simp only [hpoint, Segment.between?_displaced, cornerArc_displaced]
  rfl

theorem outline_displaced (r : Rectangle ℝ) :
    (r.displaced v).outline = r.outline.map fun s => s.displaced v := by
  have hradius : (r.displaced v).cornerRadius = r.cornerRadius := rfl
  rw [outline, outline, hradius, corners_displaced]
  split
  · exact Segment.ring_displaced v _
  · exact roundedOutline_displaced v r _

end Rectangle

theorem Shape.outline_displaced (s : Shape ℝ) :
    (s.displaced v).outline = s.outline.map fun t => t.displaced v := by
  induction s with
  | circle center radius => exact circleOutline_displaced v center radius
  | rectangle r => exact r.outline_displaced v
  | polygon points => exact Segment.ring_displaced v points
  | outlined segments => rfl
  | cleared segments => rfl
  | layered shapes ih =>
    rw [displaced_layered, outline_layered, outline_layered, List.flatMap_map, List.map_flatMap]
    exact List.flatMap_congr ih

/-! ## Boxes -/

namespace Box

theorem ofCircle_displaced (center : Point ℝ) (radius : ℝ) :
    (ofCircle (center.displaced v) radius : Box EReal) = (ofCircle center radius).displaced v := by
  simp only [ofCircle, displaced, Point.displaced, Placed.place, ← EReal.coe_add,
    add_sub_right_comm, add_right_comm]

theorem ofPoint_displaced (p : Point ℝ) :
    (ofPoint (p.displaced v) : Box EReal) = (ofPoint p).displaced v := by
  simp only [ofPoint, displaced, Point.displaced, Placed.place, ← EReal.coe_add]

theorem ofRectangle_displaced (corner : Point ℝ) (xSize ySize : ℝ) :
    (ofRectangle (corner.displaced v) xSize ySize : Box EReal) =
      (ofRectangle corner xSize ySize).displaced v := by
  simp only [ofRectangle, displaced, Point.displaced, Placed.place, ← EReal.coe_add,
    lesser_eq_min, greater_eq_max, add_right_comm _ v.i, add_right_comm _ v.j, min_add_add_right,
    max_add_add_right]

/-- The empty box is the empty box everywhere. -/
theorem empty_displaced : (empty : Box EReal).displaced v = empty := by
  simp only [empty, displaced, Bounded.top, Bounded.bottom, EReal.top_add_coe, EReal.bot_add]

theorem union_displaced (a b : Box EReal) :
    (a.displaced v).union (b.displaced v) = (a.union b).displaced v := by
  simp only [union, displaced, lesser_eq_min, greater_eq_max, min_add_add_right, max_add_add_right]

/-- The hull of displaced boxes is the displaced hull. -/
theorem hull_displaced (boxes : List (Box EReal)) :
    hull (boxes.map fun b => b.displaced v) = (hull boxes).displaced v := by
  induction boxes using List.reverseRecOn with
  | nil => exact (empty_displaced v).symm
  | append_singleton boxes b ih =>
    rw [List.map_append, List.map_singleton, hull_concat, hull_concat, ih, union_displaced]

end Box

theorem Segment.extent_displaced (segments : List (Segment ℝ)) (penRadius : ℝ) :
    (Segment.extent (segments.map fun s => s.displaced v) penRadius : Box EReal) =
      (Segment.extent segments penRadius).displaced v := by
  simp only [extent, List.flatMap_map, keyPoints_displaced, ← List.map_flatMap, List.map_map,
    Function.comp_def, Box.ofCircle_displaced, ← Box.hull_displaced]

theorem Shape.box_displaced (s : Shape ℝ) :
    ((s.displaced v).box : Box EReal) = s.box.displaced v := by
  induction s with
  | circle center radius => exact Box.ofCircle_displaced v center radius
  | rectangle r => exact Box.ofRectangle_displaced v r.corner r.xSize r.ySize
  | polygon points =>
    simp only [displaced, box, List.map_map, Function.comp_def, Box.ofPoint_displaced,
      ← Box.hull_displaced]
  | outlined segments => exact Segment.extent_displaced v segments 0
  | cleared segments => exact Segment.extent_displaced v segments 0
  | layered shapes ih =>
    rw [displaced_layered, box_layered, box_layered, ← Box.hull_displaced, List.map_map,
      List.map_map]
    exact congrArg Box.hull (List.map_congr_left ih)

/-! ## Flashes -/

/-- An aperture with the outline of a polygon, of whose shape the corners are rounded to decimal
places. -/
def Aperture.IsPolygon {α : Type} : Aperture α → Prop
  | circle _ => False
  | rectangle _ _ => False
  | obround _ _ => False
  | polygon _ _ _ => True

theorem Aperture.shapeAt_displaced (o : Options ℝ) (position : Point ℝ) {a : Aperture ℝ}
    (h : ¬ a.IsPolygon) :
    a.shapeAt o (position.displaced v) = (a.shapeAt o position).displaced v := by
  have hcorner : ∀ (xSize ySize : ℝ) (rounding : Option ℝ),
      rectangleAround (position.displaced v) xSize ySize rounding =
        (rectangleAround position xSize ySize rounding).displaced v := by
    intro xSize ySize rounding
    simp only [rectangleAround, Rectangle.displaced, Point.displaced, add_sub_right_comm]
  cases a with
  | circle diameter => rfl
  | rectangle xSize ySize => exact congrArg Shape.rectangle (hcorner _ _ _)
  | obround xSize ySize => exact congrArg Shape.rectangle (hcorner _ _ _)
  | polygon diameter vertices rotation => exact absurd trivial h

theorem Tool.shapeAt_displaced (o : Options ℝ) (position : Point ℝ) {t : Tool ℝ}
    (h : ¬ t.aperture.IsPolygon) :
    t.shapeAt o (position.displaced v) = (t.shapeAt o position).displaced v := by
  obtain ⟨aperture, hole⟩ := t
  cases hole with
  | none => exact aperture.shapeAt_displaced v o position h
  | some hole =>
    have hhole : ¬ hole.toAperture.IsPolygon := by cases hole <;> exact id
    simp only [shapeAt, Aperture.shapeAt_displaced v o position h,
      Aperture.shapeAt_displaced v o position hhole, Shape.outline_displaced, Shape.displaced,
      List.map_append]

end

end Photoplot
