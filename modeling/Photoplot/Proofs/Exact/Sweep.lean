import Photoplot.Proofs.Exact.Hexagon

/-!
# The outline of a swept rectangle

A rectangle moved along a line sweeps a convex polygon with up to six corners, and its outline is
the ring through them. In each of the four quadrants the rectangle is seen as a parallelogram whose
sides lead in the two directions between which it moves.

* `Frame.around`: a rectangle with its coordinates along the direction of an axis and the next one;
* `Sweep.exists_hullCorners_eq`: the hull is that for the axes between which the move goes;
* `Sweep.hullFrom_eq_hexagon`: it is the hexagon around the rectangle in motion;
* `Offsets.Resolved`: displacements that are none or told from none;
* `Sweep.enclosed_outline`: **the outline bounds just what the rectangle sweeps.**
-/

namespace Photoplot

noncomputable section

open Real
open Segment (edges sides)

/-! ## Moves that are told from none -/

/-- A displacement each coordinate of which is either none or told from none. -/
def Offsets.Resolved (o : Offsets ℝ) : Prop :=
  (o.i = 0 ∨ Point.tolerance < |o.i|) ∧ (o.j = 0 ∨ Point.tolerance < |o.j|)

/-- Points that are so far apart count as one only when they are one. -/
theorem Offsets.Resolved.eq_of_coincide {p q : Point ℝ}
    (h : Offsets.Resolved ⟨q.x - p.x, q.y - p.y⟩) (hcoincide : p.Coincide q) : p = q := by
  have hnone : ∀ a b : ℝ, (b - a = 0 ∨ Point.tolerance < |b - a|) → |a - b| ≤ Point.tolerance →
      a = b := by
    intro a b hapart hclose
    rcases hapart with hzero | hapart
    · exact (sub_eq_zero.1 hzero).symm
    · exact absurd hapart (not_lt.2 (abs_sub_comm a b ▸ hclose))
  exact Point.ext (hnone _ _ h.1 hcoincide.1) (hnone _ _ h.2 hcoincide.2)

/-- The edges of a hexagon whose ends count as one point have no length. -/
theorem Frame.eq_of_coincide (f : Frame) {p r : ℝ} (hfirst : f.first.Resolved)
    (hsecond : f.second.Resolved) (hmove : (f.offsets p r).Resolved) :
    ∀ l ∈ edges (f.hexagon p r), l.start.Coincide l.stop → l.start = l.stop := by
  have hline : ∀ x₁ y₁ x₂ y₂, (f.offsets (x₂ - x₁) (y₂ - y₁)).Resolved →
      (f.line x₁ y₁ x₂ y₂).start.Coincide (f.line x₁ y₁ x₂ y₂).stop →
      (f.line x₁ y₁ x₂ y₂).start = (f.line x₁ y₁ x₂ y₂).stop := by
    intro x₁ y₁ x₂ y₂ h
    refine Offsets.Resolved.eq_of_coincide ?_
    convert h using 1
    simp only [line, point, offsets, Offsets.mk.injEq]
    constructor <;> ring
  simp only [Offsets.Resolved] at hfirst hsecond hmove
  simp only [edges_hexagon, List.forall_mem_cons, List.not_mem_nil, false_imp_iff, implies_true,
    and_true]
  -- the last three edges lead back along the first three
  refine ⟨hline _ _ _ _ ?_, hline _ _ _ _ ?_, hline _ _ _ _ ?_, hline _ _ _ _ ?_, hline _ _ _ _ ?_,
    hline _ _ _ _ ?_⟩
  · simpa [Offsets.Resolved, offsets] using hfirst
  · simpa [Offsets.Resolved, offsets] using hmove
  · simpa [Offsets.Resolved, offsets] using hsecond
  · simpa [Offsets.Resolved, offsets] using hfirst
  · simpa [Offsets.Resolved, offsets, ← neg_add, -neg_add_rev] using hmove
  · simpa [Offsets.Resolved, offsets] using hsecond

/-! ## Rectangles as parallelograms -/

namespace Axis

/-- The side of a rectangle that leads in the direction of an axis. -/
def along (xSize ySize : ℝ) : Axis → Offsets ℝ
  | right => ⟨xSize, 0⟩
  | up => ⟨0, ySize⟩
  | left => ⟨-xSize, 0⟩
  | down => ⟨0, -ySize⟩

/-- How far a move goes in the direction of an axis, in sides of a rectangle. -/
def lengths (xSize ySize : ℝ) (move : Offsets ℝ) : Axis → ℝ
  | right => move.i / xSize
  | up => move.j / ySize
  | left => -move.i / xSize
  | down => -move.j / ySize

/-- Sides that are told from none are so in every direction. -/
theorem resolved_along {xSize ySize : ℝ} (hx : Point.tolerance < xSize)
    (hy : Point.tolerance < ySize) (axis : Axis) : (axis.along xSize ySize).Resolved := by
  have hxSize : Point.tolerance < |xSize| := hx.trans_le (le_abs_self _)
  have hySize : Point.tolerance < |ySize| := hy.trans_le (le_abs_self _)
  cases axis <;> simp [along, Offsets.Resolved, hxSize, hySize]

end Axis

/-- The points that a rectangle around a center covers. -/
def Rectangle.covered (center : Point ℝ) (xSize ySize : ℝ) : Set (Point ℝ) :=
  {q | |q.x - center.x| ≤ xSize / 2.0 ∧ |q.y - center.y| ≤ ySize / 2.0}

/-- The corner from which the side in the direction of an axis leads. -/
def Corners.before (c : Corners ℝ) : Axis → Point ℝ
  | .right => c.lowerLeft
  | .up => c.lowerRight
  | .left => c.upperRight
  | .down => c.upperLeft

section Around

variable (center : Point ℝ) {xSize ySize : ℝ} (hx : 0 < xSize) (hy : 0 < ySize) (axis : Axis)

/-- A rectangle as a parallelogram whose first side leads in the direction of an axis. -/
def Frame.around : Frame where
  origin := (Corners.around center xSize ySize).before axis
  first := axis.along xSize ySize
  second := axis.next.along xSize ySize
  positive := by
    have harea := mul_pos hx hy
    cases axis <;> simp only [Axis.next, Axis.along] <;> linarith

namespace Frame

theorem area_around : (around center hx hy axis).area = xSize * ySize := by
  cases axis <;> simp only [area, around, Axis.next, Axis.along] <;> ring

/-- From one axis to the next one the coordinates make a quarter turn. -/
theorem point_around_next (x y : ℝ) :
    (around center hx hy axis.next).point x y = (around center hx hy axis).point (1 - y) x := by
  cases axis <;> ext <;>
    simp only [point, around, Corners.before, Corners.around, half_eq, Axis.next, Axis.along] <;>
    ring

/-- With its center a rectangle moves as a whole. -/
theorem point_around_displaced (move : Offsets ℝ) (x y : ℝ) :
    (around (center.displaced move) hx hy axis).point x y =
      ((around center hx hy axis).point x y).displaced move := by
  cases axis <;> ext <;>
    simp only [point, around, Corners.before, Corners.around, half_eq, Point.displaced] <;> ring

/-- A move is one by multiples of the sides. -/
theorem offsets_around_lengths (move : Offsets ℝ) :
    (around center hx hy axis).offsets (axis.lengths xSize ySize move)
      (axis.next.lengths xSize ySize move) = move := by
  cases axis <;>
    simp [offsets, around, Axis.next, Axis.along, Axis.lengths, hx.ne', hy.ne']

/-- The coordinates start at the corner from which the first side leads. -/
theorem point_around_zero : (around center hx hy axis).point 0 0 =
    (Corners.around center xSize ySize).before axis := by
  ext <;> simp [point, around]

/-- Coordinates of the unit interval are those at most half a side from its middle. -/
theorem abs_sub_half_mul_le_iff {size u : ℝ} (h : 0 < size) :
    |(u - 1 / 2) * size| ≤ size / 2 ↔ u ∈ Set.Icc (0 : ℝ) 1 := by
  have hhalf : size / 2 = 1 / 2 * size := by ring
  rw [abs_mul, abs_of_pos h, hhalf, mul_le_mul_iff_left₀ h, abs_le, Set.mem_Icc]
  constructor
  · rintro ⟨h₀, h₁⟩
    constructor <;> linarith
  · rintro ⟨h₀, h₁⟩
    constructor <;> linarith

/-- A rectangle covers the points with coordinates in the unit square. -/
theorem point_around_mem_covered_iff (x y : ℝ) :
    (around center hx hy axis).point x y ∈ Rectangle.covered center xSize ySize ↔
      x ∈ Set.Icc (0 : ℝ) 1 ∧ y ∈ Set.Icc (0 : ℝ) 1 := by
  -- the first axis by computation, each other one by a quarter turn from the one before it
  have hright : ∀ x y : ℝ,
      (around center hx hy .right).point x y ∈ Rectangle.covered center xSize ySize ↔
        x ∈ Set.Icc (0 : ℝ) 1 ∧ y ∈ Set.Icc (0 : ℝ) 1 := by
    intro x y
    have habscissa : ((around center hx hy .right).point x y).x - center.x =
        (x - 1 / 2) * xSize := by
      simp only [around, point, Corners.before, Corners.around, half_eq, Axis.next, Axis.along]
      ring
    have hordinate : ((around center hx hy .right).point x y).y - center.y =
        (y - 1 / 2) * ySize := by
      simp only [around, point, Corners.before, Corners.around, half_eq, Axis.next, Axis.along]
      ring
    rw [Rectangle.covered, Set.mem_ofPred_eq, half_eq, half_eq, habscissa, hordinate,
      abs_sub_half_mul_le_iff hx, abs_sub_half_mul_le_iff hy]
  have hnext : ∀ axis : Axis, (∀ x y : ℝ,
      (around center hx hy axis).point x y ∈ Rectangle.covered center xSize ySize ↔
        x ∈ Set.Icc (0 : ℝ) 1 ∧ y ∈ Set.Icc (0 : ℝ) 1) → ∀ x y : ℝ,
      (around center hx hy axis.next).point x y ∈ Rectangle.covered center xSize ySize ↔
        x ∈ Set.Icc (0 : ℝ) 1 ∧ y ∈ Set.Icc (0 : ℝ) 1 := by
    intro axis h x y
    rw [point_around_next, h, ← Set.Icc.mem_iff_one_sub_mem, and_comm]
  have hup := hnext .right hright
  have hleft := hnext .up hup
  cases axis with
  | right => exact hright x y
  | up => exact hup x y
  | left => exact hleft x y
  | down => exact hnext .left hleft x y

end Frame

end Around

/-! ## Hulls -/

namespace Sweep

/-- The points that a rectangle covers when its center moves from one point to another. -/
def swept (start stop : Point ℝ) (xSize ySize : ℝ) : Set (Point ℝ) :=
  {q | ∃ t ∈ Set.Icc (0 : ℝ) 1, q ∈ Rectangle.covered
    ⟨start.x + t * (stop.x - start.x), start.y + t * (stop.y - start.y)⟩ xSize ySize}

/-- The corners of the hull for a move between the directions of an axis and of the next one. -/
def hullFrom (s e : Corners ℝ) (axis : Axis) : List (Point ℝ) :=
  [s.before axis, s.before axis.next, e.before axis.next, e.before axis.next.next,
    e.before axis.next.next.next, s.before axis.next.next.next]

/-- The hull is that for the axes between which the move goes. -/
theorem exists_hullCorners_eq (s e : Corners ℝ) {xSize ySize : ℝ} (hx : 0 < xSize) (hy : 0 < ySize)
    (move : Offsets ℝ) : ∃ axis : Axis, 0 ≤ axis.lengths xSize ySize move ∧
      0 ≤ axis.next.lengths xSize ySize move ∧
      hullCorners s e (Complex.arg ⟨move.i, move.j⟩) = hullFrom s e axis := by
  unfold hullCorners
  rw [Angle.quarterTurn_eq Trigonometry.standard]
  set θ := Complex.arg ⟨move.i, move.j⟩
  have hpi : θ ≤ π := Complex.arg_le_pi _
  have hneg : -π ≤ θ := (Complex.neg_pi_lt_arg _).le
  have hup : 0 ≤ θ ↔ 0 ≤ move.j := Complex.arg_nonneg_iff
  have hright : θ < π / 2 ↔ 0 < move.i ∨ move.j < 0 ∨ (⟨move.i, move.j⟩ : ℂ) = 0 :=
    Complex.arg_lt_pi_div_two_iff
  have hleft : -(π / 2) ≤ θ ↔ 0 ≤ move.i ∨ 0 ≤ move.j := Complex.neg_pi_div_two_le_arg_iff
  split_ifs with h₁ h₂ h₃
  · have hj : 0 ≤ move.j := hup.1 h₁.1
    have hi : 0 ≤ move.i := by
      rcases hright.1 h₁.2 with hi | hj' | hzero
      · exact hi.le
      · exact absurd hj' (not_lt.2 hj)
      · exact (congrArg Complex.re hzero).ge
    exact ⟨.right, div_nonneg hi hx.le, div_nonneg hj hy.le, rfl⟩
  · have hj : 0 ≤ move.j := hup.1 (pi_div_two_pos.le.trans h₂.1)
    have hi : move.i ≤ 0 := not_lt.1 fun hi => not_lt.2 h₂.1 (hright.2 (.inl hi))
    exact ⟨.up, div_nonneg hj hy.le, div_nonneg (neg_nonneg.2 hi) hx.le, rfl⟩
  · have hback : ¬ (0 ≤ move.i ∨ 0 ≤ move.j) := fun h => not_lt.2 (hleft.2 h) h₃.2
    rw [not_or, not_le, not_le] at hback
    exact ⟨.left, div_nonneg (neg_nonneg.2 hback.1.le) hx.le,
      div_nonneg (neg_nonneg.2 hback.2.le) hy.le, rfl⟩
  · have hj : move.j < 0 := by
      by_contra hj
      have hθ₀ : 0 ≤ θ := hup.2 (not_lt.1 hj)
      rcases lt_or_ge θ (π / 2) with hθ₁ | hθ₁
      · exact h₁ ⟨hθ₀, hθ₁⟩
      · exact h₂ ⟨hθ₁, hpi⟩
    have hi : 0 ≤ move.i := by
      have hθ₁ : -(π / 2) ≤ θ := not_lt.1 fun h => h₃ ⟨hneg, h⟩
      exact (hleft.1 hθ₁).resolve_right (not_le.2 hj)
    exact ⟨.down, div_nonneg (neg_nonneg.2 hj.le) hy.le, div_nonneg hi hx.le, rfl⟩

section Hull

variable (center : Point ℝ) {xSize ySize : ℝ} (hx : 0 < xSize) (hy : 0 < ySize) (axis : Axis)
  (move : Offsets ℝ)

/-- The hull of a rectangle before and after a move is the hexagon around the rectangle in motion. -/
theorem hullFrom_eq_hexagon :
    hullFrom (Corners.around center xSize ySize)
      (Corners.around (center.displaced move) xSize ySize) axis =
    (Frame.around center hx hy axis).hexagon (axis.lengths xSize ySize move)
      (axis.next.lengths xSize ySize move) := by
  simp only [hullFrom, ← Frame.point_around_zero _ hx hy, Frame.point_around_next, sub_zero,
    sub_self, Frame.point_around_displaced, Frame.hexagon_eq, Frame.offsets_around_lengths]

include hx hy in
/-- The hexagon has the area of the rectangle and of what its sides pass over. -/
theorem area_mul_lengths (hp : 0 ≤ axis.lengths xSize ySize move)
    (hr : 0 ≤ axis.next.lengths xSize ySize move) :
    xSize * ySize * (1 + axis.lengths xSize ySize move + axis.next.lengths xSize ySize move) =
      xSize * ySize + xSize * |move.j| + ySize * |move.i| := by
  have hsize : ∀ {a size : ℝ}, 0 < size → 0 ≤ a / size → |a| = size * (a / size) := by
    intro a size hsize h
    calc |a| = |size * (a / size)| := by rw [mul_div_cancel₀ _ hsize.ne']
      _ = size * (a / size) := abs_of_nonneg (mul_nonneg hsize.le h)
  cases axis with
  | right =>
    rw [hsize hx hp, hsize hy hr]
    simp only [Axis.lengths, Axis.next]
    ring
  | up =>
    rw [← abs_neg move.i, hsize hx hr, hsize hy hp]
    simp only [Axis.lengths, Axis.next]
    ring
  | left =>
    rw [← abs_neg move.i, ← abs_neg move.j, hsize hx hp, hsize hy hr]
    simp only [Axis.lengths, Axis.next]
    ring
  | down =>
    rw [← abs_neg move.j, hsize hx hr, hsize hy hp]
    simp only [Axis.lengths, Axis.next]
    ring

/-- What the rectangle sweeps is what the unit square covers in motion. -/
theorem point_around_mem_swept_iff (x y : ℝ) :
    (Frame.around center hx hy axis).point x y ∈
        swept center (center.displaced move) xSize ySize ↔
      ∃ t ∈ Set.Icc (0 : ℝ) 1,
        x - t * axis.lengths xSize ySize move ∈ Set.Icc (0 : ℝ) 1 ∧
        y - t * axis.next.lengths xSize ySize move ∈ Set.Icc (0 : ℝ) 1 := by
  refine exists_congr fun t => and_congr_right fun _ => ?_
  let f := Frame.around center hx hy axis
  let p := axis.lengths xSize ySize move
  let r := axis.next.lengths xSize ySize move
  have hmove : (⟨t * move.i, t * move.j⟩ : Offsets ℝ) = f.offsets (t * p) (t * r) := by
    rw [f.offsets_mul, Frame.offsets_around_lengths]
  have hcenter : (⟨center.x + t * ((center.displaced move).x - center.x),
      center.y + t * ((center.displaced move).y - center.y)⟩ : Point ℝ) =
      center.displaced ⟨t * move.i, t * move.j⟩ := by
    simp only [Point.displaced, add_sub_cancel_left]
  have hpoint : f.point x y = (Frame.around (center.displaced ⟨t * move.i, t * move.j⟩) hx hy
      axis).point (x - t * p) (y - t * r) := by
    rw [Frame.point_around_displaced, hmove, ← f.point_add, sub_add_cancel, sub_add_cancel]
  rw [hcenter, hpoint, Frame.point_around_mem_covered_iff]

end Hull

/-- **The outline of a swept rectangle** is a closed chain of lines that bounds a convex polygon
counter-clockwise, and that polygon is just what the rectangle covers on its way. Its sides and the
move have to be told from none. -/
theorem enclosed_outline (start stop : Point ℝ) {xSize ySize : ℝ} (hx : Point.tolerance < xSize)
    (hy : Point.tolerance < ySize)
    (hi : stop.x - start.x = 0 ∨ Point.tolerance < |stop.x - start.x|)
    (hj : stop.y - start.y = 0 ∨ Point.tolerance < |stop.y - start.y|) :
    ∃ sides : List (Line ℝ), outline start stop xSize ySize = sides.map .line ∧
      Line.BoundConvex sides ∧ Line.enclosed sides = swept start stop xSize ySize ∧
      Line.doubleArea sides =
        2 * (xSize * ySize + xSize * |stop.y - start.y| + ySize * |stop.x - start.x|) := by
  have hx₀ : 0 < xSize := tolerance_pos.trans hx
  have hy₀ : 0 < ySize := tolerance_pos.trans hy
  obtain ⟨move, rfl⟩ : ∃ move, stop = start.displaced move :=
    ⟨⟨stop.x - start.x, stop.y - start.y⟩, by ext <;> simp [Point.displaced]⟩
  simp only [Point.displaced, add_sub_cancel_left] at hi hj
  obtain ⟨axis, hp, hr, hhull⟩ := exists_hullCorners_eq (Corners.around start xSize ySize)
    (Corners.around (start.displaced move) xSize ySize) hx₀ hy₀ move
  let f := Frame.around start hx₀ hy₀ axis
  let p := axis.lengths xSize ySize move
  let r := axis.next.lengths xSize ySize move
  have hdropped : ∀ l ∈ edges (f.hexagon p r), l.start.Coincide l.stop → l.start = l.stop := by
    refine f.eq_of_coincide (axis.resolved_along hx hy) (axis.next.resolved_along hx hy) ?_
    rw [Frame.offsets_around_lengths]
    exact ⟨hi, hj⟩
  refine ⟨sides (f.hexagon p r), ?_, f.boundConvex_hexagon hdropped hp hr, ?_, ?_⟩
  · have hangle : start.angleFrom (start.displaced move) = Complex.arg ⟨move.i, move.j⟩ := by
      rw [Point.angleFrom_eq_arg]
      simp only [Point.displaced, add_sub_cancel_left]
    rw [outline, hangle, hhull, hullFrom_eq_hexagon _ hx₀ hy₀, Segment.ring_eq_map_sides]
  · ext q
    rw [Line.enclosed_sides hdropped, ← f.point_abscissa_ordinate q,
      f.point_mem_enclosed_hexagon_iff, inHexagon_iff hp hr, point_around_mem_swept_iff]
  · rw [Line.doubleArea_sides hdropped, f.doubleArea_hexagon, Frame.area_around]
    simpa only [Point.displaced, add_sub_cancel_left] using
      congrArg (2 * ·) (area_mul_lengths hx₀ hy₀ axis move hp hr)

/-- A move to the upper left of a rectangle that is twice as wide as high. -/
theorem enclosed_outline_upperLeft :
    (Point.tolerance : ℝ) < 2 ∧ (Point.tolerance : ℝ) < 1 ∧
      ((-3 : ℝ) - 0 = 0 ∨ Point.tolerance < |(-3 : ℝ) - 0|) ∧
      ((1 : ℝ) - 0 = 0 ∨ Point.tolerance < |(1 : ℝ) - 0|) ∧
      ∃ sides : List (Line ℝ), outline ⟨0, 0⟩ ⟨-3, 1⟩ 2 1 = sides.map .line ∧
        Line.BoundConvex sides ∧ Line.enclosed sides = swept ⟨0, 0⟩ ⟨-3, 1⟩ 2 1 ∧
        Line.doubleArea sides = 2 * (2 * 1 + 2 * |(1 : ℝ) - 0| + 1 * |(-3 : ℝ) - 0|) := by
  have hone : (Point.tolerance : ℝ) < 1 := by
    unfold Point.tolerance
    norm_num
  have htwo : (Point.tolerance : ℝ) < 2 := hone.trans one_lt_two
  have hi : (-3 : ℝ) - 0 = 0 ∨ Point.tolerance < |(-3 : ℝ) - 0| := .inr (by norm_num; linarith)
  have hj : (1 : ℝ) - 0 = 0 ∨ Point.tolerance < |(1 : ℝ) - 0| := .inr (by norm_num; exact hone)
  exact ⟨htwo, hone, hi, hj, enclosed_outline ⟨0, 0⟩ ⟨-3, 1⟩ htwo hone hi hj⟩

end Sweep

end

end Photoplot
