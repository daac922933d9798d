import Photoplot.Proofs.Exact.Outline
import Photoplot.Flash

/-!
# Holes

The box of a tool with a hole. Without a hole the box of a tool is taken from its measures; with one
it is found from the outlines of the tool and of the hole, drawn after each other. In exact
arithmetic the hole takes up what it would take up as a tool of its own, and nothing else changes.

* `Box.union_eq_left_iff`: a union is its first box exactly when the second lies in that;
* `Aperture.Traceable`: apertures whose outlines lose no part that matters for their boxes;
* `Tool.box_shapeAt_hole`: **a hole contributes exactly its own extent**.
-/

namespace Photoplot

noncomputable section

/-! ## Boxes of what is drawn together -/

/-- A union is its first box exactly when the second one lies in that. -/
theorem Box.union_eq_left_iff (a b : Box EReal) : a.union b = a ↔ b.Within a := by
  rw [within_iff]
  constructor
  · intro h axis
    have hside := congrArg (fun box => side box axis) h
    rw [side_union] at hside
    exact max_eq_left_iff.1 hside
  · intro h
    refine eq_of_side_eq fun axis => ?_
    rw [side_union]
    exact max_eq_left (h axis)

/-! ## Outlines of apertures -/

namespace Aperture

variable {o : Options ℝ} {position : Point ℝ}

/-- The apertures whose outlines lose no part that matters for their boxes at a position: no measure
is negative, no rectangle is so small that all its corners count as one point, and no two corners of
a polygon do that follow each other once they are rounded. The first corner follows the last one, so
a single corner follows itself. -/
def Traceable (o : Options ℝ) (position : Point ℝ) : Aperture ℝ → Prop
  | circle diameter => 0 ≤ diameter
  | rectangle xSize ySize =>
    0 ≤ xSize ∧ 0 ≤ ySize ∧ ¬ (xSize ≤ Point.tolerance ∧ ySize ≤ Point.tolerance)
  | obround xSize ySize =>
    0 ≤ xSize ∧ 0 ≤ ySize ∧ ¬ (xSize ≤ Point.tolerance ∧ ySize ≤ Point.tolerance)
  | polygon diameter vertices rotation =>
    Segment.Unbroken (vertexList position (diameter / 2.0) vertices (rotation.getD 0) o.precision)

/-- The outline of an aperture has the box of the aperture. -/
theorem extent_outline_shapeAt {a : Aperture ℝ} (h : a.Traceable o position) :
    Segment.extent (a.shapeAt o position).outline 0 = ((a.shapeAt o position).box : Box EReal) := by
  cases a with
  | circle diameter =>
    rw [shapeAt, Shape.outline, Shape.box]
    exact extent_circleOutline position (half_nonneg h)
  | rectangle xSize ySize =>
    obtain ⟨hx, hy, hapart⟩ := h
    rw [shapeAt, Shape.outline, Shape.box]
    exact Rectangle.extent_outline hx hy hapart
  | obround xSize ySize =>
    obtain ⟨hx, hy, hapart⟩ := h
    rw [shapeAt, Shape.outline, Shape.box]
    exact Rectangle.extent_outline hx hy hapart
  | polygon diameter vertices rotation =>
    rw [shapeAt, Shape.outline, Shape.box]
    exact Segment.extent_ring h

end Aperture

/-! ## Tools with holes -/

namespace Tool

variable {o : Options ℝ} {position : Point ℝ} {aperture : Aperture ℝ} {hole : Hole ℝ}

/-- **A hole contributes exactly its own extent.** The box of a tool with a hole is the union of the
boxes of the tool without it and of the hole as a tool of its own. So the hole leaves the box of the
tool unchanged exactly when its own box lies in that. -/
theorem box_shapeAt_hole (haperture : aperture.Traceable o position)
    (hhole : hole.toAperture.Traceable o position) :
    ((Tool.mk aperture (some hole)).shapeAt o position).box =
        (((Tool.mk aperture none).shapeAt o position).box : Box EReal).union
          ((Tool.mk hole.toAperture none).shapeAt o position).box ∧
      (((Tool.mk aperture (some hole)).shapeAt o position).box =
          (((Tool.mk aperture none).shapeAt o position).box : Box EReal) ↔
        (((Tool.mk hole.toAperture none).shapeAt o position).box : Box EReal).Within
          ((Tool.mk aperture none).shapeAt o position).box) := by
  have hunion : ((Tool.mk aperture (some hole)).shapeAt o position).box =
      (((Tool.mk aperture none).shapeAt o position).box : Box EReal).union
        ((Tool.mk hole.toAperture none).shapeAt o position).box := by
    simp only [shapeAt]
    rw [Shape.box, Segment.extent_append, Aperture.extent_outline_shapeAt haperture,
      Aperture.extent_outline_shapeAt hhole]
  refine ⟨hunion, ?_⟩
  rw [hunion]
  exact Box.union_eq_left_iff _ _

/-- A round tool. -/
def disc : Aperture ℝ := .circle 1

/-- A slot that is longer than the round tool is wide. -/
def slot : Hole ℝ := .rectangle 2.0 1

theorem traceable_disc (o : Options ℝ) (position : Point ℝ) : disc.Traceable o position :=
  zero_le_one

theorem traceable_slot (o : Options ℝ) (position : Point ℝ) :
    slot.toAperture.Traceable o position := by
  have hlength : (0 : ℝ) ≤ 2.0 := by norm_num
  refine ⟨hlength, zero_le_one, ?_⟩
  rintro ⟨hlong, -⟩
  have htolerance : (Point.tolerance : ℝ) < 2.0 := by
    unfold Point.tolerance
    norm_num
  exact absurd hlong (not_le.2 htolerance)

/-- A round tool with a slot takes up what the tool and the slot take up. -/
theorem box_shapeAt_hole_slot :
    disc.Traceable Options.standard ⟨0, 0⟩ ∧ slot.toAperture.Traceable Options.standard ⟨0, 0⟩ ∧
      ((Tool.mk disc (some slot)).shapeAt Options.standard ⟨0, 0⟩).box =
        (((Tool.mk disc none).shapeAt Options.standard ⟨0, 0⟩).box : Box EReal).union
          ((Tool.mk slot.toAperture none).shapeAt Options.standard ⟨0, 0⟩).box :=
  ⟨traceable_disc _ _, traceable_slot _ _,
    (box_shapeAt_hole (traceable_disc _ _) (traceable_slot _ _)).1⟩

end Tool

end

end Photoplot
