import Photoplot.Proofs.Exact.Places
import Photoplot.Proofs.Run.Hull

/-!
# Regular polygons

The corners of a polygon that is flashed. They lie on a circle before they are rounded, and rounding
keeps them within the box of that circle once its sides are rounded, too. Nothing is asked of sine and
cosine but that they do not exceed one.

* `Box.hull_ofPoint_within_iff`: a box that contains points contains their box;
* `Aperture.cornerAngle`, `Aperture.corners`: the corners of a polygon by their angles;
* `Aperture.polygon_within_rounded_circle`: **a polygon that is flashed stays in its rounded circle.**
-/

namespace Photoplot

noncomputable section

/-- The box of some points lies in every box that contains them all. -/
theorem Box.hull_ofPoint_within_iff (points : List (Point ℝ)) (b : Box EReal) :
    (Box.hull (points.map Box.ofPoint)).Within b ↔ ∀ p ∈ points, b.Contains p := by
  simp only [within_iff, contains_iff, side_hull_le_iff, List.forall_mem_map, side_ofPoint]
  exact ⟨fun h p hp axis => h axis p hp, fun h axis p hp => h p hp axis⟩

namespace Aperture

variable (T : Trigonometry)

/-- The box of what an aperture exposes at a position. -/
def boxAt (o : Options ℝ) (position : Point ℝ) (a : Aperture ℝ) : Box EReal :=
  @Shape.box ℝ EReal T.scalar _ _ _ _ (@shapeAt ℝ T.scalar o position a)

/-- The angle of a corner of a polygon that is turned by some degrees. -/
def cornerAngle (vertices : ℕ) (rotation : Option ℝ) (index : ℕ) : ℝ :=
  2.0 * T.halfTurn * index / vertices + rotation.getD 0 * T.halfTurn / 180.0

theorem vertexAngle_eq (vertices : ℕ) (rotation : Option ℝ) (index : ℕ) :
    @vertexAngle ℝ T.scalar vertices (@Angle.ofDegrees ℝ T.scalar (rotation.getD 0)) index =
      cornerAngle T vertices rotation index := by
  show 2.0 * T.halfTurn / (vertices : ℝ) * (index : ℝ) + rotation.getD 0 * (T.halfTurn / 180.0) =
    2.0 * T.halfTurn * index / vertices + rotation.getD 0 * T.halfTurn / 180.0
  rw [div_mul_eq_mul_div, ← mul_div_assoc]

/-- The corners of a polygon, by their angles. -/
def corners (places : UInt32) (position : Point ℝ) (diameter : ℝ) (vertices : ℕ)
    (rotation : Option ℝ) : List (Point ℝ) :=
  (List.range vertices).map fun index =>
    @vertexAt ℝ T.scalar position (diameter / 2.0) places (cornerAngle T vertices rotation index)

section Corners

variable (o : Options ℝ) (position : Point ℝ) (diameter : ℝ) (vertices : ℕ) (rotation : Option ℝ)

theorem shapeAt_polygon :
    @shapeAt ℝ T.scalar o position (.polygon diameter vertices rotation) =
      .polygon (corners T o.precision position diameter vertices rotation) := by
  unfold shapeAt vertexList corners
  simp only [vertexAngle_eq T]

theorem boxAt_polygon :
    boxAt T o position (.polygon diameter vertices rotation) =
      Box.hull ((corners T o.precision position diameter vertices rotation).map Box.ofPoint) := by
  rw [boxAt, shapeAt_polygon]
  unfold Shape.box
  rfl

/-- The points within the box of a circle whose sides are rounded. -/
theorem contains_rounded_circle_iff (p : Point ℝ) :
    ((boxAt T o position (.circle diameter)).rounded T o.precision).Contains p ↔
      p.x ∈ Set.Icc (@roundToPlaces ℝ T.scalar (position.x - diameter / 2) o.precision)
        (@roundToPlaces ℝ T.scalar (position.x + diameter / 2) o.precision) ∧
      p.y ∈ Set.Icc (@roundToPlaces ℝ T.scalar (position.y - diameter / 2) o.precision)
        (@roundToPlaces ℝ T.scalar (position.y + diameter / 2) o.precision) := by
  simp only [Set.mem_Icc, ← EReal.coe_le_coe_iff, ← half_eq, and_assoc]
  rfl

end Corners

section Flash

variable {T} (hcos : ∀ θ, T.cos θ ∈ Set.Icc (-1 : ℝ) 1) (hsin : ∀ θ, T.sin θ ∈ Set.Icc (-1 : ℝ) 1)
  {o : Options ℝ} (hplaces : o.precision ≤ 15) {diameter : ℝ} (hdiameter : 0 ≤ diameter)

include hplaces hdiameter

/-- What is no further out than the sides of a circle stays there when it is rounded as they are. -/
theorem roundToPlaces_mem_Icc {c : ℝ} (hc : c ∈ Set.Icc (-1 : ℝ) 1) (x : ℝ) :
    @roundToPlaces ℝ T.scalar (x + diameter / 2 * c) o.precision ∈
      Set.Icc (@roundToPlaces ℝ T.scalar (x - diameter / 2) o.precision)
        (@roundToPlaces ℝ T.scalar (x + diameter / 2) o.precision) := by
  have hradius : 0 ≤ diameter / 2 := half_eq diameter ▸ half_nonneg hdiameter
  have hlow := mul_le_mul_of_nonneg_left hc.1 hradius
  have hhigh := mul_le_mul_of_nonneg_left hc.2 hradius
  exact ⟨roundToPlaces_mono T hplaces (by linarith), roundToPlaces_mono T hplaces (by linarith)⟩

include hcos hsin

theorem contains_vertexAt (position : Point ℝ) (θ : ℝ) :
    ((boxAt T o position (.circle diameter)).rounded T o.precision).Contains
      (@vertexAt ℝ T.scalar position (diameter / 2) o.precision θ) :=
  (contains_rounded_circle_iff ..).2
    ⟨roundToPlaces_mem_Icc hplaces hdiameter (hcos θ) _,
      roundToPlaces_mem_Icc hplaces hdiameter (hsin θ) _⟩

/-- **A polygon that is flashed stays in its rounded circle.** It has as many corners as it is given, each
of them the rounding of a point on the circle at its angle. No corner lies further out than the sides of
the circle rounded alike, so the box of the polygon lies in that of the circle with its sides rounded. Only
a polygon without corners has an empty box. -/
theorem polygon_within_rounded_circle (vertices : ℕ) (rotation : Option ℝ) (position : Point ℝ) :
    (∃ points : List (Point ℝ),
      @shapeAt ℝ T.scalar o position (.polygon diameter vertices rotation) = .polygon points ∧
      points.length = vertices ∧
      ∀ (i : ℕ) (hi : i < points.length),
        IsRounding o.precision.toNat
          (position.x + diameter / 2 * T.cos (cornerAngle T vertices rotation i)) points[i].x ∧
        IsRounding o.precision.toNat
          (position.y + diameter / 2 * T.sin (cornerAngle T vertices rotation i)) points[i].y ∧
        points[i].x ∈ Set.Icc (@roundToPlaces ℝ T.scalar (position.x - diameter / 2) o.precision)
          (@roundToPlaces ℝ T.scalar (position.x + diameter / 2) o.precision) ∧
        points[i].y ∈ Set.Icc (@roundToPlaces ℝ T.scalar (position.y - diameter / 2) o.precision)
          (@roundToPlaces ℝ T.scalar (position.y + diameter / 2) o.precision)) ∧
    (boxAt T o position (.polygon diameter vertices rotation)).Within
      ((boxAt T o position (.circle diameter)).rounded T o.precision) ∧
    ((boxAt T o position (.polygon diameter vertices rotation)).IsEmpty ↔ vertices = 0) := by
  rw [boxAt_polygon]
  refine ⟨⟨_, shapeAt_polygon .., by simp [corners], fun i hi => ?_⟩, ?_, ?_⟩
  · simp only [corners, half_eq, List.getElem_map, List.getElem_range]
    exact ⟨isRounding_roundToPlaces T hplaces _, isRounding_roundToPlaces T hplaces _,
      (contains_rounded_circle_iff ..).1 (contains_vertexAt hcos hsin hplaces hdiameter position _)⟩
  · rw [Box.hull_ofPoint_within_iff, corners, half_eq, List.forall_mem_map]
    exact fun index _ => contains_vertexAt hcos hsin hplaces hdiameter position _
  · rw [(Box.reflects_hull_ofPoint _).isEmpty_iff, corners, List.map_eq_nil_iff, List.range_eq_nil]

end Flash

/-- A triangle around the origin, with the trigonometric functions of the plane. -/
theorem polygon_within_rounded_circle_triangle :
    (∀ θ, Real.cos θ ∈ Set.Icc (-1 : ℝ) 1) ∧ (∀ θ, Real.sin θ ∈ Set.Icc (-1 : ℝ) 1) ∧
    (Options.standard : Options ℝ).precision ≤ 15 ∧
    (∃ points : List (Point ℝ),
      shapeAt Options.standard ⟨0, 0⟩ (.polygon 1 3 none) = .polygon points ∧ points.length = 3) ∧
    (boxAt .standard .standard ⟨0, 0⟩ (.polygon 1 3 none)).Within
      ((boxAt .standard .standard ⟨0, 0⟩ (.circle 1)).rounded .standard 10) ∧
    ¬ (boxAt .standard .standard ⟨0, 0⟩ (.polygon 1 3 none)).IsEmpty := by
  have hplaces : (Options.standard : Options ℝ).precision ≤ 15 := by decide
  obtain ⟨⟨points, hshape, hlength, -⟩, hwithin, hempty⟩ :=
    polygon_within_rounded_circle (T := .standard) Real.cos_mem_Icc Real.sin_mem_Icc hplaces zero_le_one 3
      none ⟨0, 0⟩
  exact ⟨Real.cos_mem_Icc, Real.sin_mem_Icc, hplaces, ⟨points, hshape, hlength⟩, hwithin,
    mt hempty.1 (by decide)⟩

end Aperture

end

end Photoplot
