import Photoplot.Proofs.Exact.Polygon

/-!
# A parallelogram in motion

What a parallelogram covers when it is moved along a line, and the hexagon around it. In coordinates
along its sides the parallelogram is the unit square, and a move in any direction between those of
its sides takes it right and up.

* `InHexagon`, `inHexagon_iff`: **the unit square in motion covers what lies within six bounds**;
* `OnLowerRight`: the points on one half of the way around the six bounds;
* `Frame`, `Frame.point`: coordinates along the sides of a parallelogram;
* `Frame.hexagon`, `Frame.point_mem_enclosed_hexagon_iff`, `Frame.doubleArea_hexagon`: the hexagon
  around a parallelogram in motion;
* `Frame.boundConvex_hexagon`: **its sides bound a convex polygon.**
-/

namespace Photoplot

noncomputable section

open Segment (edges sides)

/-! ## The unit square in motion -/

/-- The six bounds of what the unit square covers when it is moved by `p` to the right and `r` up. -/
structure InHexagon (p r x y : ℝ) : Prop where
  /-- The square starts on the lower bound. -/
  lower : 0 ≤ y
  /-- The lower right corner moves along a bound. -/
  trailing : 0 ≤ p * y - r * (x - 1)
  /-- The square ends at the right bound. -/
  right : x ≤ 1 + p
  /-- The square ends at the upper bound. -/
  upper : y ≤ 1 + r
  /-- The upper left corner moves along a bound. -/
  leading : 0 ≤ r * x - p * (y - 1)
  /-- The square starts at the left bound. -/
  left : 0 ≤ x

namespace InHexagon

variable {p r x y : ℝ} (h : InHexagon p r x y)

include h

/-- Turned by half a turn the bounds are the same. -/
theorem opposite : InHexagon p r (1 + p - x) (1 + r - y) where
  lower := by linarith [h.upper]
  trailing := by linarith [h.leading]
  right := by linarith [h.left]
  upper := by linarith [h.lower]
  leading := by linarith [h.trailing]
  left := by linarith [h.right]

/-- With its coordinates exchanged a point lies within the bounds of the exchanged move. -/
theorem mirrored : InHexagon r p y x where
  lower := h.left
  trailing := h.leading
  right := h.upper
  upper := h.right
  leading := h.trailing
  left := h.lower

/-- When the right side of the square reaches a point, its left and lower sides are not yet past. -/
theorem reached_by_right (hp : 0 ≤ p) :
    (x - 1) / p ≤ 1 ∧ (x - 1) / p * p ≤ x ∧ (x - 1) / p * r ≤ y := by
  rcases hp.eq_or_lt with rfl | hp
  · simp [h.left, h.lower]
  · refine ⟨(div_le_one hp).2 (by linarith [h.right]), ?_, ?_⟩
    · rw [div_mul_cancel₀ _ hp.ne']
      linarith
    · rw [div_mul_eq_mul_div, div_le_iff₀ hp]
      linarith [h.trailing]

/-- The right side of the square is past a point once it has reached it. -/
theorem sub_one_le_mul (hp : 0 ≤ p) {t : ℝ} (ht : (x - 1) / p ≤ t) : x - 1 ≤ t * p := by
  rcases hp.eq_or_lt with rfl | hp
  · linarith [h.right]
  · exact (div_le_iff₀ hp).1 ht

/-- A point within the bounds is covered at the time when both the right and the upper side of the
square have reached it. -/
theorem exists_covered (hp : 0 ≤ p) (hr : 0 ≤ r) : ∃ t ∈ Set.Icc (0 : ℝ) 1,
    x - t * p ∈ Set.Icc (0 : ℝ) 1 ∧ y - t * r ∈ Set.Icc (0 : ℝ) 1 := by
  obtain ⟨hxTime, hxLeft, hxLower⟩ := h.reached_by_right hp
  obtain ⟨hyTime, hyLower, hyLeft⟩ := h.mirrored.reached_by_right hr
  let t := max 0 (max ((x - 1) / p) ((y - 1) / r))
  have hxPast : x - 1 ≤ t * p :=
    h.sub_one_le_mul hp ((le_max_left _ _).trans (le_max_right _ _))
  have hyPast : y - 1 ≤ t * r :=
    h.mirrored.sub_one_le_mul hr ((le_max_right _ _).trans (le_max_right _ _))
  have hleft : t * p ≤ x := by
    rw [max_mul_of_nonneg _ _ hp, max_mul_of_nonneg _ _ hp, zero_mul]
    exact max_le h.left (max_le hxLeft hyLeft)
  have hlower : t * r ≤ y := by
    rw [max_mul_of_nonneg _ _ hr, max_mul_of_nonneg _ _ hr, zero_mul]
    exact max_le h.lower (max_le hxLower hyLower)
  refine ⟨t, ⟨le_max_left _ _, max_le zero_le_one (max_le hxTime hyTime)⟩, ⟨?_, ?_⟩, ?_, ?_⟩ <;>
    linarith

end InHexagon

/-- **The unit square in motion** covers just the points within the six bounds. -/
theorem inHexagon_iff {p r : ℝ} (hp : 0 ≤ p) (hr : 0 ≤ r) (x y : ℝ) :
    InHexagon p r x y ↔ ∃ t ∈ Set.Icc (0 : ℝ) 1,
      x - t * p ∈ Set.Icc (0 : ℝ) 1 ∧ y - t * r ∈ Set.Icc (0 : ℝ) 1 := by
  constructor
  · intro h
    exact h.exists_covered hp hr
  · rintro ⟨t, ⟨ht₀, ht₁⟩, ⟨hx₀, hx₁⟩, hy₀, hy₁⟩
    have htp : 0 ≤ t * p := mul_nonneg ht₀ hp
    have htr : 0 ≤ t * r := mul_nonneg ht₀ hr
    have hp₁ : t * p ≤ p := mul_le_of_le_one_left hp ht₁
    have hr₁ : t * r ≤ r := mul_le_of_le_one_left hr ht₁
    -- a corner that moves along a bound has the square on one side of it all the way
    have hside : ∀ {u v a b : ℝ}, 0 ≤ u → 0 ≤ v → 0 ≤ a - t * v → b - t * u ≤ 1 →
        0 ≤ u * a - v * (b - 1) := by
      intro u v a b hu hv ha hb
      linarith [mul_nonneg hu ha, mul_nonneg hv (sub_nonneg.2 hb)]
    exact ⟨by linarith, hside hp hr hy₀ hx₁, by linarith, by linarith, hside hr hp hx₀ hy₁,
      by linarith⟩

/-! ## The way around -/

/-- The points on the way around the hexagon from the lower left corner to the upper right one. -/
inductive OnLowerRight (p r : ℝ) : ℝ → ℝ → Prop
  /-- The lower side of the square at the start. -/
  | lower {x : ℝ} (hx : x ∈ Set.Icc (0 : ℝ) 1) : OnLowerRight p r x 0
  /-- The way of the lower right corner, if it moves. -/
  | trailing (hmoves : p ≠ 0 ∨ r ≠ 0) {t : ℝ} (ht : t ∈ Set.Icc (0 : ℝ) 1) :
    OnLowerRight p r (1 + t * p) (t * r)
  /-- The right side of the square at the end. -/
  | right {t : ℝ} (ht : t ∈ Set.Icc (0 : ℝ) 1) : OnLowerRight p r (1 + p) (t + r)

namespace InHexagon

variable {p r x y : ℝ} (h : InHexagon p r x y)

include h

/-- What is covered on the lower bound lies on a side. -/
theorem onLowerRight_of_lower (hp : 0 ≤ p) (hr : 0 ≤ r) (hy : y = 0) : OnLowerRight p r x y := by
  subst hy
  rcases le_or_gt x 1 with hx | hx
  · exact .lower ⟨h.left, hx⟩
  · have hp₀ : 0 < p := by linarith [h.right]
    have hr₀ : r = 0 := by
      have hpast : r * (x - 1) ≤ 0 := by linarith [h.trailing]
      exact le_antisymm (nonpos_of_mul_nonpos_left hpast (sub_pos.2 hx)) hr
    subst hr₀
    have hon := OnLowerRight.trailing (r := 0) (.inl hp₀.ne')
      ⟨div_nonneg (sub_nonneg.2 hx.le) hp, (h.reached_by_right hp).1⟩
    rwa [div_mul_cancel₀ _ hp₀.ne', add_sub_cancel, mul_zero] at hon

/-- What is covered on the right bound lies on a side. -/
theorem onLowerRight_of_right (hp : 0 ≤ p) (hr : 0 ≤ r) (hx : x = 1 + p) :
    OnLowerRight p r x y := by
  subst hx
  rcases le_or_gt r y with hy | hy
  · have hon := OnLowerRight.right (p := p) (r := r) (t := y - r)
      ⟨sub_nonneg.2 hy, by linarith [h.upper]⟩
    rwa [sub_add_cancel] at hon
  · have hr₀ : 0 < r := h.lower.trans_lt hy
    have hp₀ : p = 0 := by
      have hpast : 0 ≤ p * (y - r) := by linarith [h.trailing]
      exact le_antisymm (nonpos_of_mul_nonneg_left hpast (sub_neg.2 hy)) hp
    subst hp₀
    have hon := OnLowerRight.trailing (p := 0) (.inr hr₀.ne')
      ⟨div_nonneg h.lower hr, (div_le_one hr₀).2 hy.le⟩
    rwa [div_mul_cancel₀ _ hr₀.ne', mul_zero] at hon

/-- What is covered where the lower right corner moves along a bound lies on a side. -/
theorem onLowerRight_of_trailing (hp : 0 ≤ p) (hr : 0 ≤ r) (hmoves : p ≠ 0 ∨ r ≠ 0)
    (hy : p * y - r * (x - 1) = 0) : OnLowerRight p r x y := by
  rcases hp.eq_or_lt with rfl | hp₀
  · have hx : x - 1 = 0 := by
      have hr₀ : r ≠ 0 := by simpa using hmoves
      have hzero : r * (x - 1) = 0 := by linarith
      exact (mul_eq_zero.1 hzero).resolve_left hr₀
    exact h.onLowerRight_of_right le_rfl hr (by linarith)
  rcases le_or_gt 1 x with hx | hx
  · have hon := OnLowerRight.trailing (r := r) (.inl hp₀.ne')
      ⟨div_nonneg (sub_nonneg.2 hx) hp, (h.reached_by_right hp).1⟩
    have hordinate : (x - 1) / p * r = y := by
      rw [div_mul_eq_mul_div, div_eq_iff hp₀.ne']
      linarith
    rwa [div_mul_cancel₀ _ hp₀.ne', add_sub_cancel, hordinate] at hon
  · have hzero : p * y ≤ 0 := by linarith [mul_nonneg hr (sub_nonneg.2 hx.le)]
    exact h.onLowerRight_of_lower hp hr
      (le_antisymm (nonpos_of_mul_nonpos_right hzero hp₀) h.lower)

end InHexagon

/-! ## Coordinates along a parallelogram -/

/-- A parallelogram: a corner, and the sides that lead away from it, of which the second one lies to
the left of the first one. -/
structure Frame where
  /-- The corner. -/
  origin : Point ℝ
  /-- The side that leads away to the right. -/
  first : Offsets ℝ
  /-- The side that leads away to the left. -/
  second : Offsets ℝ
  /-- The parallelogram has an area. -/
  positive : 0 < first.i * second.j - first.j * second.i

namespace Frame

variable (f : Frame)

/-- The area of the parallelogram. -/
def area : ℝ := f.first.i * f.second.j - f.first.j * f.second.i

theorem area_pos : 0 < f.area := f.positive

/-- The point with the given coordinates along the sides. -/
def point (x y : ℝ) : Point ℝ :=
  ⟨f.origin.x + x * f.first.i + y * f.second.i, f.origin.y + x * f.first.j + y * f.second.j⟩

/-- The coordinate of a point along the first side. -/
def abscissa (q : Point ℝ) : ℝ :=
  ((q.x - f.origin.x) * f.second.j - (q.y - f.origin.y) * f.second.i) / f.area

/-- The coordinate of a point along the second side. -/
def ordinate (q : Point ℝ) : ℝ :=
  (f.first.i * (q.y - f.origin.y) - f.first.j * (q.x - f.origin.x)) / f.area

@[simp] theorem abscissa_point (x y : ℝ) : f.abscissa (f.point x y) = x := by
  rw [abscissa, div_eq_iff f.area_pos.ne', point, area]
  ring

@[simp] theorem ordinate_point (x y : ℝ) : f.ordinate (f.point x y) = y := by
  rw [ordinate, div_eq_iff f.area_pos.ne', point, area]
  ring

/-- Every point has coordinates. -/
theorem point_abscissa_ordinate (q : Point ℝ) : f.point (f.abscissa q) (f.ordinate q) = q := by
  have harea : f.area ≠ 0 := f.area_pos.ne'
  ext
  · simp only [point, abscissa, ordinate]
    field_simp
    rw [area]
    ring
  · simp only [point, abscissa, ordinate]
    field_simp
    rw [area]
    ring

/-- The displacement by multiples of the sides. -/
def offsets (p r : ℝ) : Offsets ℝ :=
  ⟨p * f.first.i + r * f.second.i, p * f.first.j + r * f.second.j⟩

theorem offsets_mul (t p r : ℝ) :
    f.offsets (t * p) (t * r) = ⟨t * (f.offsets p r).i, t * (f.offsets p r).j⟩ := by
  simp only [offsets, Offsets.mk.injEq]
  constructor <;> ring

theorem point_add (x y p r : ℝ) :
    f.point (x + p) (y + r) = (f.point x y).displaced (f.offsets p r) := by
  ext <;> simp only [point, offsets, Point.displaced] <;> ring

/-- The line between two points given by their coordinates. -/
def line (x₁ y₁ x₂ y₂ : ℝ) : Line ℝ := ⟨f.point x₁ y₁, f.point x₂ y₂⟩

/-- To the left of a line is what is to its left in coordinates. -/
theorem leftOf_line (x₁ y₁ x₂ y₂ x y : ℝ) : (f.line x₁ y₁ x₂ y₂).leftOf (f.point x y) =
    f.area * ((x₂ - x₁) * (y - y₁) - (y₂ - y₁) * (x - x₁)) := by
  simp only [Line.leftOf, line, point, area]
  ring

/-- Between the ends of a line the coordinates change evenly. -/
theorem point_mem_line {x₁ y₁ x₂ y₂ x y t : ℝ} (ht : t ∈ Set.Icc (0 : ℝ) 1)
    (hx : x = x₁ + t * (x₂ - x₁)) (hy : y = y₁ + t * (y₂ - y₁)) :
    f.point x y ∈ (Segment.line (f.line x₁ y₁ x₂ y₂)).points := by
  refine ⟨t, ht, ?_⟩
  ext
  · simp only [line, point, hx, hy]
    ring
  · simp only [line, point, hx, hy]
    ring

/-! ## The hexagon -/

/-- The corners of the hull of a parallelogram before and after it is moved by multiples of its
sides, counter-clockwise from the corner where it starts. -/
def hexagon (p r : ℝ) : List (Point ℝ) :=
  [f.point 0 0, f.point 1 0, f.point (1 + p) r, f.point (1 + p) (1 + r), f.point p (1 + r),
    f.point 0 1]

/-- The corners of the hexagon are corners of the parallelogram before and after the move. -/
theorem hexagon_eq (p r : ℝ) : f.hexagon p r =
    [f.point 0 0, f.point 1 0, (f.point 1 0).displaced (f.offsets p r),
      (f.point 1 1).displaced (f.offsets p r), (f.point 0 1).displaced (f.offsets p r),
      f.point 0 1] := by
  simp only [hexagon, ← point_add, zero_add]

theorem edges_hexagon (p r : ℝ) : edges (f.hexagon p r) =
    [f.line 0 0 1 0, f.line 1 0 (1 + p) r, f.line (1 + p) r (1 + p) (1 + r),
      f.line (1 + p) (1 + r) p (1 + r), f.line p (1 + r) 0 1, f.line 0 1 0 0] := rfl

/-- In coordinates the hexagon is the one around the unit square in motion. -/
theorem point_mem_enclosed_hexagon_iff (p r x y : ℝ) :
    f.point x y ∈ Line.enclosed (edges (f.hexagon p r)) ↔ InHexagon p r x y := by
  have hside : ∀ a : ℝ, 0 ≤ f.area * a ↔ 0 ≤ a := fun a => mul_nonneg_iff_of_pos_left f.area_pos
  simp only [Line.enclosed, edges_hexagon, Set.mem_ofPred_eq, List.forall_mem_cons, leftOf_line,
    hside, List.not_mem_nil, false_imp_iff, implies_true, and_true]
  constructor
  · rintro ⟨hlower, htrailing, hright, hupper, hleading, hleft⟩
    exact ⟨by linarith, by linarith, by linarith, by linarith, by linarith, by linarith⟩
  · intro h
    exact ⟨by linarith [h.lower], by linarith [h.trailing], by linarith [h.right],
      by linarith [h.upper], by linarith [h.leading], by linarith [h.left]⟩

/-- The hexagon has the area of the parallelogram and of what its sides pass over. -/
theorem doubleArea_hexagon (p r : ℝ) :
    Line.doubleArea (edges (f.hexagon p r)) = 2 * (f.area * (1 + p + r)) := by
  simp only [Line.doubleArea, edges_hexagon, line, point, area, List.map_cons, List.map_nil,
    List.sum_cons, List.sum_nil]
  ring

/-- The corners lie within the bounds. -/
theorem hexagon_subset {p r : ℝ} (hp : 0 ≤ p) (hr : 0 ≤ r) :
    ∀ q ∈ f.hexagon p r, q ∈ Line.enclosed (edges (f.hexagon p r)) := by
  have hcorner : ∀ x y : ℝ, (∃ t ∈ Set.Icc (0 : ℝ) 1,
      x - t * p ∈ Set.Icc (0 : ℝ) 1 ∧ y - t * r ∈ Set.Icc (0 : ℝ) 1) →
      f.point x y ∈ Line.enclosed (edges (f.hexagon p r)) := by
    intro x y hcovered
    rw [point_mem_enclosed_hexagon_iff]
    exact (inHexagon_iff hp hr x y).2 hcovered
  simp only [hexagon, List.forall_mem_cons, List.not_mem_nil, false_imp_iff, implies_true, and_true]
  exact ⟨hcorner _ _ ⟨0, by simp⟩, hcorner _ _ ⟨0, by simp⟩, hcorner _ _ ⟨1, by simp⟩,
    hcorner _ _ ⟨1, by simp⟩, hcorner _ _ ⟨1, by simp⟩, hcorner _ _ ⟨0, by simp⟩⟩

section Sides

variable {p r x y : ℝ}
  (hdropped : ∀ l ∈ edges (f.hexagon p r), l.start.Coincide l.stop → l.start = l.stop)

include hdropped

/-- The edges whose ends have different coordinates are sides. -/
theorem line_mem_sides_iff {x₁ y₁ x₂ y₂ : ℝ}
    (hedge : f.line x₁ y₁ x₂ y₂ ∈ edges (f.hexagon p r)) :
    f.line x₁ y₁ x₂ y₂ ∈ sides (f.hexagon p r) ↔ x₁ ≠ x₂ ∨ y₁ ≠ y₂ := by
  rw [sides, List.mem_filter, decide_eq_true_iff, and_iff_right hedge]
  constructor
  · intro hlong
    by_contra hequal
    obtain ⟨rfl, rfl⟩ : x₁ = x₂ ∧ y₁ = y₂ := by simpa [not_or] using hequal
    exact hlong (Point.coincide_refl _)
  · intro hne hcoincide
    have hends : f.point x₁ y₁ = f.point x₂ y₂ := hdropped _ hedge hcoincide
    rcases hne with hne | hne
    · exact hne (by simpa using congrArg f.abscissa hends)
    · exact hne (by simpa using congrArg f.ordinate hends)

/-- On the way from the lower left corner to the upper right one each point lies on a side. -/
theorem exists_side_of_onLowerRight (h : OnLowerRight p r x y) :
    ∃ m ∈ sides (f.hexagon p r), f.point x y ∈ (Segment.line m).points := by
  cases h with
  | lower ht =>
    refine ⟨f.line 0 0 1 0, (f.line_mem_sides_iff hdropped (by simp [edges_hexagon])).2 (by simp),
      f.point_mem_line ht ?_ ?_⟩ <;> ring
  | trailing hmoves ht =>
    refine ⟨f.line 1 0 (1 + p) r, (f.line_mem_sides_iff hdropped (by simp [edges_hexagon])).2 ?_,
      f.point_mem_line ht ?_ ?_⟩
    · simpa [eq_comm] using hmoves
    · ring
    · ring
  | right ht =>
    refine ⟨f.line (1 + p) r (1 + p) (1 + r),
      (f.line_mem_sides_iff hdropped (by simp [edges_hexagon])).2 (by simp),
      f.point_mem_line ht ?_ ?_⟩ <;> ring

/-- On the way back each point lies on a side, too. -/
theorem exists_side_of_onUpperLeft (h : OnLowerRight p r (1 + p - x) (1 + r - y)) :
    ∃ m ∈ sides (f.hexagon p r), f.point x y ∈ (Segment.line m).points := by
  generalize hx : 1 + p - x = u at h
  generalize hy : 1 + r - y = v at h
  cases h with
  | lower ht =>
    refine ⟨f.line (1 + p) (1 + r) p (1 + r),
      (f.line_mem_sides_iff hdropped (by simp [edges_hexagon])).2 (by simp),
      f.point_mem_line ht ?_ ?_⟩ <;> linarith
  | trailing hmoves ht =>
    refine ⟨f.line p (1 + r) 0 1, (f.line_mem_sides_iff hdropped (by simp [edges_hexagon])).2 ?_,
      f.point_mem_line ht ?_ ?_⟩
    · simpa using hmoves
    · linarith
    · linarith
  | right ht =>
    refine ⟨f.line 0 1 0 0, (f.line_mem_sides_iff hdropped (by simp [edges_hexagon])).2 (by simp),
      f.point_mem_line ht ?_ ?_⟩ <;> linarith

/-- A point within the bounds that is in line with a side lies on a side. -/
theorem exists_side_of_leftOf_eq_zero (hp : 0 ≤ p) (hr : 0 ≤ r) (h : InHexagon p r x y)
    (hside : ∃ l ∈ sides (f.hexagon p r), l.leftOf (f.point x y) = 0) :
    ∃ m ∈ sides (f.hexagon p r), f.point x y ∈ (Segment.line m).points := by
  obtain ⟨l, hl, hzero⟩ := hside
  have hedge : l ∈ edges (f.hexagon p r) := List.mem_of_mem_filter hl
  have hlong : ∀ x₁ y₁ x₂ y₂, l = f.line x₁ y₁ x₂ y₂ → x₁ ≠ x₂ ∨ y₁ ≠ y₂ := by
    rintro x₁ y₁ x₂ y₂ rfl
    exact (f.line_mem_sides_iff hdropped hedge).1 hl
  have hcoord : ∀ x₁ y₁ x₂ y₂, l = f.line x₁ y₁ x₂ y₂ →
      (x₂ - x₁) * (y - y₁) - (y₂ - y₁) * (x - x₁) = 0 := by
    rintro x₁ y₁ x₂ y₂ rfl
    rw [leftOf_line] at hzero
    exact (mul_eq_zero.1 hzero).resolve_left f.area_pos.ne'
  simp only [edges_hexagon, List.mem_cons, List.not_mem_nil, or_false] at hedge
  rcases hedge with hl | hl | hl | hl | hl | hl <;>
    have hzero := hcoord _ _ _ _ hl <;> have hmoves := hlong _ _ _ _ hl
  · exact f.exists_side_of_onLowerRight hdropped (h.onLowerRight_of_lower hp hr (by linarith))
  · exact f.exists_side_of_onLowerRight hdropped
      (h.onLowerRight_of_trailing hp hr (by simpa [eq_comm] using hmoves) (by linarith))
  · exact f.exists_side_of_onLowerRight hdropped (h.onLowerRight_of_right hp hr (by linarith))
  · exact f.exists_side_of_onUpperLeft hdropped
      (h.opposite.onLowerRight_of_lower hp hr (by linarith))
  · exact f.exists_side_of_onUpperLeft hdropped
      (h.opposite.onLowerRight_of_trailing hp hr (by simpa using hmoves) (by linarith))
  · exact f.exists_side_of_onUpperLeft hdropped
      (h.opposite.onLowerRight_of_right hp hr (by linarith))

/-- **The hexagon around a parallelogram in motion** bounds a convex polygon. -/
theorem boundConvex_hexagon (hp : 0 ≤ p) (hr : 0 ≤ r) :
    Line.BoundConvex (sides (f.hexagon p r)) := by
  refine Line.boundConvex_sides hdropped (f.hexagon_subset hp hr) ?_ ?_
  · rw [doubleArea_hexagon]
    exact mul_pos two_pos (mul_pos f.area_pos (by linarith))
  · intro q hq hside
    rw [← f.point_abscissa_ordinate q] at hq hside ⊢
    exact f.exists_side_of_leftOf_eq_zero hdropped hp hr
      ((f.point_mem_enclosed_hexagon_iff p r _ _).1 hq) hside

end Sides

end Frame

end

end Photoplot
