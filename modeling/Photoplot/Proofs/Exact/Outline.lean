import Photoplot.Proofs.Exact.Extent

/-!
# Boxes and outlines of shapes

The box of a shape is taken from its measures, and its outline has a box of its own, found from key
points. For shapes whose outlines lose no part that matters the two agree.

* `Segment.extent_zero_eq_of_touched`: a box that holds all key points and is touched on every side;
* `Rectangle.roundingCenter`, `Rectangle.mem_roundedOutline_iff`: a rounded outline as four quarter
  circles and the sides between them, all alike up to a quarter turn;
* `Rectangle.extent_outline`: **a rectangle keeps its box whatever the rounding of its corners**;
* `Segment.mem_keyPoints_ring_iff`: the key points of a ring that loses no edge are its points;
* `Shape.extent_outline_eq_box`: **the outline of a shape has the box of the shape**, also for
  shapes in layers nested to any depth.
-/

namespace Photoplot

noncomputable section

open Real

/-! ## Boxes from key points -/

/-- The box of a point reaches as far as the point. -/
@[simp] theorem Box.side_ofPoint (p : Point ℝ) (axis : Axis) :
    (ofPoint p : Box EReal).side axis = axis.reach p := by
  cases axis <;> simp [side, ofPoint, Placed.place, Axis.reach]

/-- Boxes are equal when they reach equally far in every direction. -/
theorem Box.eq_of_side_eq {a b : Box EReal} (h : ∀ axis, a.side axis = b.side axis) : a = b := by
  have hleft := h .left
  have hdown := h .down
  simp only [side, neg_inj] at hleft hdown
  obtain ⟨xMin, yMin, xMax, yMax⟩ := a
  obtain rfl : xMax = b.xMax := h .right
  obtain rfl : yMax = b.yMax := h .up
  obtain rfl : xMin = b.xMin := hleft
  obtain rfl : yMin = b.yMin := hdown
  rfl

namespace Segment

variable {segments : List (Segment ℝ)}

/-- Without a pen the box reaches as far as the key points. -/
theorem side_extent_zero_le_iff (segments : List (Segment ℝ)) (axis : Axis) (c : EReal) :
    (extent segments 0 : Box EReal).side axis ≤ c ↔
      ∀ s ∈ segments, ∀ p ∈ s.keyPoints, (axis.reach p : EReal) ≤ c := by
  rw [extent, Box.side_hull_le_iff]
  simp only [List.forall_mem_map, List.mem_flatMap, Box.side_ofCircle, add_zero]
  constructor
  · intro h s hs p hp
    exact h p ⟨s, hs, hp⟩
  · rintro h p ⟨s, hs, hp⟩
    exact h s hs p hp

/-- The box of segments without a pen, by its upper bounds in every direction. -/
theorem extent_zero_eq_of_forall {b : Box EReal}
    (h : ∀ axis c, (∀ s ∈ segments, ∀ p ∈ s.keyPoints, (axis.reach p : EReal) ≤ c) ↔
      b.side axis ≤ c) : extent segments 0 = b := by
  refine Box.eq_of_side_eq fun axis => eq_of_forall_ge_iff fun c => ?_
  rw [side_extent_zero_le_iff, h]

/-- A box is that of segments without a pen when it holds their key points and each of its sides is
touched by one of them. -/
theorem extent_zero_eq_of_touched {b : Box EReal}
    (hcontains : ∀ s ∈ segments, ∀ p ∈ s.keyPoints, b.Contains p)
    (htouched : ∀ axis, ∃ s ∈ segments, ∃ p ∈ s.keyPoints, b.side axis = axis.reach p) :
    extent segments 0 = b := by
  apply extent_zero_eq_of_forall
  intro axis c
  constructor
  · intro h
    obtain ⟨s, hs, p, hp, hside⟩ := htouched axis
    rw [hside]
    exact h s hs p hp
  · intro h s hs p hp
    exact ((Box.contains_iff b p).1 (hcontains s hs p hp) axis).trans h

end Segment

/-- The line between two points is there exactly when they do not count as one. -/
theorem Segment.between?_eq_some_iff {p q : Point ℝ} {s : Segment ℝ} :
    between? p q = some s ↔ ¬ p.Coincide q ∧ s = line ⟨p, q⟩ := by
  unfold between?
  split <;> simp_all [eq_comm]

/-- The key points of a line are its ends. -/
theorem Segment.mem_keyPoints_line_iff (l : Line ℝ) (p : Point ℝ) :
    p ∈ (line l).keyPoints ↔ p = l.start ∨ p = l.stop := by
  simp [keyPoints]

/-! ## Circles -/

/-- A point on a circle reaches no further in any direction than the circle. -/
theorem Axis.reach_pointFrom_le (center : Point ℝ) {radius : ℝ} (h : 0 ≤ radius)
    (axis other : Axis) :
    axis.reach (other.pointFrom center radius) ≤ axis.reach center + radius := by
  have hreach := axis.reach_le_add_distance center (other.pointFrom center radius)
  rwa [Axis.distance_pointFrom center h] at hreach

/-- The outline of a circle has the box of the circle. -/
theorem extent_circleOutline (center : Point ℝ) {radius : ℝ} (h : 0 ≤ radius) :
    Segment.extent (circleOutline center radius) 0 = (Box.ofCircle center radius : Box EReal) := by
  have hpoint : ∀ p, (∃ s ∈ circleOutline center radius, p ∈ s.keyPoints) ↔
      ∃ axis : Axis, axis.pointFrom center radius = p := by
    intro p
    simp only [circleOutline, List.mem_singleton, exists_eq_left, Arc.mem_keyPoints_iff]
    constructor
    · rintro (rfl | rfl | ⟨axis, -, rfl⟩)
      · exact ⟨.right, rfl⟩
      · exact ⟨.right, rfl⟩
      · exact ⟨axis, rfl⟩
    · rintro ⟨axis, rfl⟩
      -- a full circle passes the points in all four directions
      exact .inr (.inr ⟨axis, .inl le_rfl, rfl⟩)
  apply Segment.extent_zero_eq_of_touched
  · intro s hs p hp
    obtain ⟨other, rfl⟩ := (hpoint p).1 ⟨s, hs, hp⟩
    rw [Box.contains_iff]
    intro axis
    rw [Box.side_ofCircle]
    exact EReal.coe_le_coe_iff.2 (axis.reach_pointFrom_le center h other)
  · intro axis
    obtain ⟨s, hs, hp⟩ := (hpoint _).2 ⟨axis, rfl⟩
    exact ⟨s, hs, _, hp, by rw [Box.side_ofCircle, Axis.reach_pointFrom]⟩

/-! ## Rectangles -/

/-- The direction a quarter turn further on. -/
def Axis.next : Axis → Axis
  | right => up
  | up => left
  | left => down
  | down => right

theorem Axis.exists_iff (P : Axis → Prop) :
    (∃ axis, P axis) ↔ P .left ∨ P .down ∨ P .right ∨ P .up := by
  constructor
  · rintro ⟨axis, h⟩
    cases axis <;> simp [h]
  · rintro (h | h | h | h) <;> exact ⟨_, h⟩

/-- The quarter circle from the point in the direction of an axis to the next such point. -/
def Arc.quarter (center : Point ℝ) (radius : ℝ) (axis : Axis) : Arc ℝ :=
  Arc.around (axis.pointFrom center radius) (axis.next.pointFrom center radius) center radius
    Angle.quarterTurn .counterclockwise

/-- Ends and passed points of a quarter circle lie in the direction of an axis. -/
theorem Arc.exists_eq_pointFrom_of_mem_keyPoints_quarter {center : Point ℝ} {radius : ℝ}
    {axis : Axis} {p : Point ℝ} (h : p ∈ (Segment.arc (Arc.quarter center radius axis)).keyPoints) :
    ∃ other : Axis, p = other.pointFrom center radius := by
  rcases (Arc.mem_keyPoints_iff _ p).1 h with rfl | rfl | ⟨other, -, rfl⟩
  · exact ⟨axis, rfl⟩
  · exact ⟨axis.next, rfl⟩
  · exact ⟨other, rfl⟩

namespace Rectangle

/-- The center of the rounded corner to which the side in the direction of an axis leads. Without
rounding it is the corner itself. -/
def roundingCenter (r : Rectangle ℝ) (radius : ℝ) : Axis → Point ℝ
  | .down => ⟨r.xFar - radius, r.corner.y + radius⟩
  | .right => ⟨r.xFar - radius, r.yFar - radius⟩
  | .up => ⟨r.corner.x + radius, r.yFar - radius⟩
  | .left => ⟨r.corner.x + radius, r.corner.y + radius⟩

/-- A rounded outline has four corners, each with the side that leads on to the next one. -/
theorem mem_roundedOutline_iff (r : Rectangle ℝ) (radius : ℝ) (s : Segment ℝ) :
    s ∈ r.roundedOutline radius ↔ ∃ axis : Axis,
      s = .arc (Arc.quarter (r.roundingCenter radius axis) radius axis) ∨
        Segment.between? (axis.next.pointFrom (r.roundingCenter radius axis) radius)
          (axis.next.pointFrom (r.roundingCenter radius axis.next) radius) = some s := by
  rw [Axis.exists_iff]
  simp only [roundedOutline, cornerArc, List.mem_filterMap, id, exists_eq_right, List.mem_cons,
    List.not_mem_nil, or_false, roundingCenter, Arc.quarter, Axis.next, Axis.pointFrom,
    add_sub_cancel_right, sub_add_cancel, Option.some.injEq, eq_comm]
  tauto

/-- A sharp outline has four sides, each between a corner and the next one. -/
theorem mem_ring_corners_iff (r : Rectangle ℝ) (s : Segment ℝ) :
    s ∈ Segment.ring r.corners ↔ ∃ axis : Axis,
      Segment.between? (r.roundingCenter 0 axis) (r.roundingCenter 0 axis.next) = some s := by
  rw [Axis.exists_iff]
  simp [Segment.ring, corners, roundingCenter, Axis.next]

/-- The box of a rectangle. -/
def ownBox (r : Rectangle ℝ) : Box EReal := Box.ofRectangle r.corner r.xSize r.ySize

section Box

variable {r : Rectangle ℝ} {radius : ℝ} (hradius : 0 ≤ radius) (hx : 2 * radius ≤ r.xSize)
  (hy : 2 * radius ≤ r.ySize)

include hradius hx hy

/-- The box of a rectangle reaches as far as the corner on that side, rounded or not. -/
theorem side_ownBox (axis : Axis) :
    r.ownBox.side axis = ((axis.reach (r.roundingCenter radius axis) + radius : ℝ) : EReal) := by
  have hxMin : min r.corner.x (r.corner.x + r.xSize) = r.corner.x := min_eq_left (by linarith)
  have hxMax : max r.corner.x (r.corner.x + r.xSize) = r.xFar := max_eq_right (by linarith)
  have hyMin : min r.corner.y (r.corner.y + r.ySize) = r.corner.y := min_eq_left (by linarith)
  have hyMax : max r.corner.y (r.corner.y + r.ySize) = r.yFar := max_eq_right (by linarith)
  simp only [ownBox, Box.ofRectangle, Placed.place, lesser_eq_min, greater_eq_max, hxMin, hxMax,
    hyMin, hyMax]
  cases axis <;> simp only [Box.side, Axis.reach, roundingCenter, ← EReal.coe_neg] <;>
    congr 1 <;> ring

/-- The points around the corners lie in the box when the rounding is at most half of each side. -/
theorem contains_pointFrom_roundingCenter (corner other : Axis) :
    r.ownBox.Contains (other.pointFrom (r.roundingCenter radius corner) radius) := by
  rw [Box.contains_iff]
  intro axis
  rw [side_ownBox hradius hx hy, EReal.coe_le_coe_iff]
  -- the corner on a side is as far out on that side as any other
  have hcenter : axis.reach (r.roundingCenter radius corner) ≤
      axis.reach (r.roundingCenter radius axis) := by
    cases axis <;> cases corner <;> simp only [Axis.reach, roundingCenter, xFar, yFar] <;> linarith
  have hpoint := axis.reach_pointFrom_le (r.roundingCenter radius corner) hradius other
  linarith

/-- The rounded outline of a rectangle has the box of the rectangle. -/
theorem extent_roundedOutline : Segment.extent (r.roundedOutline radius) 0 = r.ownBox := by
  have hcontains := contains_pointFrom_roundingCenter hradius hx hy
  apply Segment.extent_zero_eq_of_touched
  · intro s hs p hp
    obtain ⟨axis, rfl | hside⟩ := (mem_roundedOutline_iff r radius s).1 hs
    · obtain ⟨other, rfl⟩ := Arc.exists_eq_pointFrom_of_mem_keyPoints_quarter hp
      exact hcontains axis other
    · obtain ⟨-, rfl⟩ := Segment.between?_eq_some_iff.1 hside
      rcases (Segment.mem_keyPoints_line_iff _ p).1 hp with rfl | rfl
      · exact hcontains axis axis.next
      · exact hcontains axis.next axis.next
  · intro axis
    refine ⟨_, (mem_roundedOutline_iff r radius _).2 ⟨axis, .inl rfl⟩,
      axis.pointFrom (r.roundingCenter radius axis) radius, ?_, ?_⟩
    · exact (Arc.mem_keyPoints_iff _ _).2 (.inl rfl)
    · rw [side_ownBox hradius hx hy, Axis.reach_pointFrom]

end Box

section Sharp

variable {r : Rectangle ℝ} (hx : 0 ≤ r.xSize) (hy : 0 ≤ r.ySize)
  (hapart : ¬ (r.xSize ≤ Point.tolerance ∧ r.ySize ≤ Point.tolerance))

include hx hy hapart

/-- Every corner is an end of a side that is not left out: the sides along the longer direction hold
all four. -/
theorem exists_side_of_corner (axis : Axis) : ∃ corner : Axis,
    ¬ (r.roundingCenter 0 corner).Coincide (r.roundingCenter 0 corner.next) ∧
      (axis = corner ∨ axis = corner.next) := by
  rcases not_and_or.1 hapart with hlong | hlong
  · have hleft : ¬ (r.roundingCenter 0 .left).Coincide (r.roundingCenter 0 .down) := by
      rintro ⟨hclose, -⟩
      exact hlong (by simpa [roundingCenter, xFar, abs_of_nonneg hx] using hclose)
    have hright : ¬ (r.roundingCenter 0 .right).Coincide (r.roundingCenter 0 .up) := by
      rintro ⟨hclose, -⟩
      exact hlong (by simpa [roundingCenter, xFar, abs_of_nonneg hx] using hclose)
    cases axis with
    | right => exact ⟨.right, hright, .inl rfl⟩
    | up => exact ⟨.right, hright, .inr rfl⟩
    | left => exact ⟨.left, hleft, .inl rfl⟩
    | down => exact ⟨.left, hleft, .inr rfl⟩
  · have hdown : ¬ (r.roundingCenter 0 .down).Coincide (r.roundingCenter 0 .right) := by
      rintro ⟨-, hclose⟩
      exact hlong (by simpa [roundingCenter, yFar, abs_of_nonneg hy] using hclose)
    have hup : ¬ (r.roundingCenter 0 .up).Coincide (r.roundingCenter 0 .left) := by
      rintro ⟨-, hclose⟩
      exact hlong (by simpa [roundingCenter, yFar, abs_of_nonneg hy] using hclose)
    cases axis with
    | right => exact ⟨.down, hdown, .inr rfl⟩
    | up => exact ⟨.up, hup, .inl rfl⟩
    | left => exact ⟨.up, hup, .inr rfl⟩
    | down => exact ⟨.down, hdown, .inl rfl⟩

/-- The sharp outline of a rectangle has the box of the rectangle. -/
theorem extent_ring_corners : Segment.extent (Segment.ring r.corners) 0 = r.ownBox := by
  have hx₀ : 2 * 0 ≤ r.xSize := by simpa using hx
  have hy₀ : 2 * 0 ≤ r.ySize := by simpa using hy
  have hcontains : ∀ corner, r.ownBox.Contains (r.roundingCenter 0 corner) := by
    intro corner
    simpa [Axis.pointFrom] using contains_pointFrom_roundingCenter le_rfl hx₀ hy₀ corner .right
  apply Segment.extent_zero_eq_of_touched
  · intro s hs p hp
    obtain ⟨corner, hside⟩ := (mem_ring_corners_iff r s).1 hs
    obtain ⟨-, rfl⟩ := Segment.between?_eq_some_iff.1 hside
    rcases (Segment.mem_keyPoints_line_iff _ p).1 hp with rfl | rfl
    · exact hcontains corner
    · exact hcontains corner.next
  · intro axis
    obtain ⟨corner, hside, hcorner⟩ := exists_side_of_corner hx hy hapart axis
    refine ⟨_, (mem_ring_corners_iff r _).2 ⟨corner, Segment.between?_eq_some_iff.2 ⟨hside, rfl⟩⟩,
      r.roundingCenter 0 axis, ?_, ?_⟩
    · rw [Segment.mem_keyPoints_line_iff]
      exact hcorner.imp (congrArg _) (congrArg _)
    · rw [side_ownBox le_rfl hx₀ hy₀, add_zero]

/-- **A rectangle keeps its box.** Whatever the rounding of its corners, the outline of a rectangle
has the box of the rectangle. -/
theorem extent_outline : Segment.extent r.outline 0 = r.ownBox := by
  unfold outline
  split
  · exact extent_ring_corners hx hy hapart
  · rename_i hround
    have hhalf : (2.0 : ℝ) = 2 := by norm_num
    have hradius : r.cornerRadius = min (min (r.rounding.getD 0) (r.xSize / 2)) (r.ySize / 2) := by
      simp only [cornerRadius, lesser_eq_min, abs_real, abs_of_nonneg hx, abs_of_nonneg hy, hhalf]
    have hxHalf : r.cornerRadius ≤ r.xSize / 2 := by
      rw [hradius]
      exact (min_le_left _ _).trans (min_le_right _ _)
    have hyHalf : r.cornerRadius ≤ r.ySize / 2 := by
      rw [hradius]
      exact min_le_right _ _
    exact extent_roundedOutline (not_le.1 hround).le (by linarith) (by linarith)

end Sharp

end Rectangle

/-! ## Polygons -/

/-- Points no two of which count as one where they follow each other, the first after the last. -/
def Segment.Unbroken (points : List (Point ℝ)) : Prop :=
  Cycle.Chain (fun p q => ¬ p.Coincide q) (points : Cycle (Point ℝ))

namespace Segment

variable {points : List (Point ℝ)} (h : Unbroken points)

include h

theorem Unbroken.not_coincide {p q : Point ℝ}
    (hmem : (p, q) ∈ points.zip (points.drop 1 ++ points.take 1)) : ¬ p.Coincide q := by
  cases points with
  | nil => simp at hmem
  | cons first rest =>
    rw [Unbroken, Cycle.chain_coe_cons, ← List.cons_append,
      List.isChain_cons_append_singleton_iff_forall₂, List.forall₂_iff_zip] at h
    exact h.2 (by simpa using hmem)

/-- The key points of a ring that loses no edge are its points. -/
theorem mem_keyPoints_ring_iff (p : Point ℝ) :
    (∃ s ∈ ring points, p ∈ s.keyPoints) ↔ p ∈ points := by
  constructor
  · rintro ⟨s, hs, hp⟩
    obtain ⟨first, last, hfirst, hlast, -, rfl⟩ := exists_of_mem_ring hs
    rcases (mem_keyPoints_line_iff _ p).1 hp with rfl | rfl
    · exact hfirst
    · exact hlast
  · intro hp
    -- every point is the start of the edge to the point that follows it
    have hlength : points.length ≤ (points.drop 1 ++ points.take 1).length := by
      simp
      omega
    rw [← List.map_fst_zip hlength, List.mem_map] at hp
    obtain ⟨⟨first, last⟩, hedge, rfl⟩ := hp
    refine ⟨line ⟨first, last⟩, ?_, (mem_keyPoints_line_iff _ _).2 (.inl rfl)⟩
    exact List.mem_filterMap.2
      ⟨_, hedge, between?_eq_some_iff.2 ⟨Unbroken.not_coincide h hedge, rfl⟩⟩

/-- The outline of a polygon that loses no edge has the box of the polygon. -/
theorem extent_ring : extent (ring points) 0 = (Box.hull (points.map Box.ofPoint) : Box EReal) := by
  apply extent_zero_eq_of_forall
  intro axis c
  rw [Box.side_hull_le_iff, List.forall_mem_map]
  constructor
  · intro hreach p hp
    obtain ⟨s, hs, hkey⟩ := (mem_keyPoints_ring_iff h p).2 hp
    rw [Box.side_ofPoint]
    exact hreach s hs p hkey
  · intro hreach s hs p hkey
    rw [← Box.side_ofPoint]
    exact hreach p ((mem_keyPoints_ring_iff h p).1 ⟨s, hs, hkey⟩)

end Segment

/-! ## Shapes -/

namespace Shape

/-- The shapes whose outlines lose no part that matters for their boxes: the measures of circles and
rectangles are not negative, no rectangle is so small that all its corners count as one point, and
no polygon loses an edge. Any rounding of corners is allowed, and so is any list of segments. -/
inductive Traceable : Shape ℝ → Prop
  | circle (center : Point ℝ) {radius : ℝ} (size : 0 ≤ radius) : Traceable (.circle center radius)
  | rectangle {r : Rectangle ℝ} (xSize : 0 ≤ r.xSize) (ySize : 0 ≤ r.ySize)
      (apart : ¬ (r.xSize ≤ Point.tolerance ∧ r.ySize ≤ Point.tolerance)) :
      Traceable (.rectangle r)
  | polygon {points : List (Point ℝ)} (unbroken : Segment.Unbroken points) :
      Traceable (.polygon points)
  | outlined (segments : List (Segment ℝ)) : Traceable (.outlined segments)
  | cleared (segments : List (Segment ℝ)) : Traceable (.cleared segments)
  | layered {shapes : List (Shape ℝ)} (each : ∀ shape ∈ shapes, Traceable shape) :
      Traceable (.layered shapes)

/-- Layers that keep their boxes keep that of the whole. -/
theorem extent_outline_layered {shapes : List (Shape ℝ)}
    (h : ∀ shape ∈ shapes, Segment.extent shape.outline 0 = (shape.box : Box EReal)) :
    Segment.extent (layered shapes).outline 0 = ((layered shapes).box : Box EReal) := by
  rw [outline_layered, box_layered]
  apply Segment.extent_zero_eq_of_forall
  intro axis c
  rw [Box.side_hull_le_iff, List.forall_mem_map]
  have hlayer : ∀ shape ∈ shapes, (shape.box : Box EReal).side axis ≤ c ↔
      ∀ s ∈ shape.outline, ∀ p ∈ s.keyPoints, (axis.reach p : EReal) ≤ c := by
    intro shape hshape
    rw [← h shape hshape, Segment.side_extent_zero_le_iff]
  constructor
  · intro hreach shape hshape
    rw [hlayer shape hshape]
    intro s hs
    exact hreach s (List.mem_flatMap.2 ⟨shape, hshape, hs⟩)
  · intro hside s hs
    obtain ⟨shape, hshape, hs⟩ := List.mem_flatMap.1 hs
    exact (hlayer shape hshape).1 (hside shape hshape) s hs

/-- **Tracing a shape keeps its box.** The box of a shape, taken from its measures, is the box of
its outline, found from the key points of its segments; layers may be nested to any depth. -/
theorem extent_outline_eq_box {shape : Shape ℝ} (h : shape.Traceable) :
    Segment.extent shape.outline 0 = (shape.box : Box EReal) := by
  induction h with
  | circle center size =>
    rw [outline, box]
    exact extent_circleOutline center size
  | rectangle xSize ySize apart =>
    rw [outline, box]
    exact Rectangle.extent_outline xSize ySize apart
  | polygon unbroken =>
    rw [outline, box]
    exact Segment.extent_ring unbroken
  | outlined segments => rw [outline, box]
  | cleared segments => rw [outline, box]
  | layered each ih => exact extent_outline_layered ih

/-- A square that is rounded as much as it is wide, on top of a circle and of two polygons that are
a layer of their own: a triangle and one without points. -/
def stacked : Shape ℝ :=
  .layered [.circle ⟨0, 0⟩ 1,
    .layered [.polygon [⟨0, 0⟩, ⟨1, 0⟩, ⟨0, 1⟩], .polygon []],
    .rectangle ⟨⟨-1, 1⟩, 1, 1, some 1⟩]

theorem traceable_stacked : stacked.Traceable := by
  have htolerance := tolerance_lt_one
  have htriangle : Segment.Unbroken [(⟨0, 0⟩ : Point ℝ), ⟨1, 0⟩, ⟨0, 1⟩] := by
    rw [Segment.Unbroken, Cycle.chain_coe_cons]
    norm_num [Point.Coincide]
    refine ⟨?_, ?_, ?_⟩ <;> intro <;> linarith
  have hrectangle : Traceable (.rectangle ⟨⟨-1, 1⟩, 1, 1, some 1⟩) := by
    refine .rectangle (by norm_num) (by norm_num) ?_
    rintro ⟨hx, -⟩
    norm_num at hx
    linarith
  refine .layered ?_
  simp only [List.forall_mem_cons, List.not_mem_nil, false_imp_iff, implies_true, and_true]
  refine ⟨.circle _ (by norm_num), .layered ?_, hrectangle⟩
  simp only [List.forall_mem_cons, List.not_mem_nil, false_imp_iff, implies_true, and_true]
  exact ⟨.polygon htriangle, .polygon (Cycle.Chain.nil _)⟩

/-- Shapes in nested layers keep their box, with a rounding that is cut down to half a side. -/
theorem extent_outline_stacked :
    stacked.Traceable ∧ Segment.extent stacked.outline 0 = (stacked.box : Box EReal) :=
  ⟨traceable_stacked, extent_outline_eq_box traceable_stacked⟩

end Shape

end

end Photoplot
