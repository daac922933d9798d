import Photoplot.Proofs.Exact.Coherence

/-!
# Rounded rectangles of negative size

What the outline of a rounded rectangle measures when a size counts against its axis. The box of a
rectangle takes sizes of either sign, and so does the bound on the rounding; but the centers of the
corners are set off from the sides as if both sizes were positive. Along an axis with a negative size
they lie outside, and the outline sticks out by the rounding on both sides.

* `Arc.mem_keyPoints_quarter_iff`: the key points of a quarter circle are its ends;
* `Rectangle.side_extent_roundedOutline`: how far a rounded outline reaches, for any sizes;
* `Rectangle.overhang`, `Rectangle.extent_outline_rounded`: **by how much the outline of a rounded
  rectangle sticks out of its box**;
* `Rectangle.leftward`: a rectangle whose outline sticks out.
-/

namespace Photoplot

noncomputable section

open Real

/-! ## Quarter circles -/

namespace Arc

/-- A coherent arc that does not go all the way round travels from the angle of its start to that of
its end. -/
theorem Coherent.sweep_eq_travelled {a : Arc ℝ} (h : a.Coherent) (hlt : a.sweep < 2 * π) :
    a.sweep = Angle.travelled a.startAngle a.stopAngle a.direction := by
  obtain ⟨n, hn⟩ := h.arrives.resolve_left fun hfull => hlt.ne hfull.2
  rw [Angle.travelled_eq_toIocMod Trigonometry.standard two_pi_pos]
  symm
  rw [toIocMod_eq_iff, zero_add]
  refine ⟨h.sweep_mem, ?_⟩
  unfold angleAfter at hn
  cases hdirection : a.direction with
  | counterclockwise =>
    rw [hdirection] at hn
    refine ⟨-n, ?_⟩
    rw [Angle.turn, zsmul_eq_mul]
    push_cast
    linarith
  | clockwise =>
    rw [hdirection] at hn
    refine ⟨n, ?_⟩
    rw [Angle.turn, zsmul_eq_mul]
    linarith

variable {center : Point ℝ} {radius : ℝ} (h : 0 < radius) {axis other : Axis}

theorem sweep_quarter (center : Point ℝ) (radius : ℝ) (axis : Axis) :
    (quarter center radius axis).sweep = π / 2 :=
  Angle.quarterTurn_eq Trigonometry.standard

include h

/-- A quarter circle starts at the angle of its axis, up to full turns. -/
theorem exists_startAngle_quarter (center : Point ℝ) (axis : Axis) :
    ∃ n : ℤ, (quarter center radius axis).startAngle = axis.quarterTurns * (π / 2) + n * (2 * π) := by
  obtain ⟨n, hn⟩ := center.exists_angleFrom_polar h (axis.quarterTurns * (π / 2))
  rw [← Axis.pointFrom_eq_polar] at hn
  exact ⟨n, hn⟩

/-- The point in the direction of an axis lies at the angle at which it is seen. -/
theorem polar_angleFrom_pointFrom (center : Point ℝ) (axis : Axis) :
    axis.pointFrom center radius =
      center.polar radius (center.angleFrom (axis.pointFrom center radius)) := by
  obtain ⟨n, hn⟩ := exists_startAngle_quarter h center axis
  have hangle : center.angleFrom (axis.pointFrom center radius) =
      axis.quarterTurns * (π / 2) + n * (2 * π) := hn
  rw [hangle, Point.polar_add_int_mul, ← Axis.pointFrom_eq_polar]

/-- The fields of a quarter circle agree. -/
theorem wellFormed_quarter (center : Point ℝ) (axis : Axis) :
    (quarter center radius axis).WellFormed where
  radius_nonneg := h.le
  start_eq := polar_angleFrom_pointFrom h center axis
  stop_eq := polar_angleFrom_pointFrom h center axis.next
  startAngle_mem := Complex.arg_mem_Ioc _
  stopAngle_mem := Complex.arg_mem_Ioc _
  sweep_eq := by
    refine (coherent_quarter center h axis).sweep_eq_travelled ?_
    rw [sweep_quarter]
    linarith [pi_pos]

/-- A quarter circle from one axis passes no other one than the next. -/
theorem eq_next_of_passes_quarter (hpasses : (quarter center radius axis).Passes other) :
    other = axis.next := by
  have hahead := (quarter center radius axis).aheadOf_mem other
  obtain ⟨k, hk⟩ := (quarter center radius axis).exists_aheadOf_eq other
  obtain ⟨n, hn⟩ := exists_startAngle_quarter h center axis
  rw [(wellFormed_quarter h center axis).passes_iff, sweep_quarter] at hpasses
  -- counted in quarter turns, the other axis is three back
  obtain ⟨turns, hturns⟩ : ∃ turns : ℤ, turns = axis.quarterTurns - other.quarterTurns + 4 * (n - k) :=
    ⟨_, rfl⟩
  have hangle : turns * (π / 2) = (quarter center radius axis).aheadOf other := by
    have hstart : (quarter center radius axis).ccwStart = _ := hn
    rw [hstart] at hk
    rw [hturns]
    push_cast
    linarith
  have hlow : (2 : ℝ) < turns := lt_of_mul_lt_mul_right (by linarith [pi_pos]) pi_div_two_pos.le
  have hhigh : (turns : ℝ) < 4 :=
    lt_of_mul_lt_mul_right (by linarith [hahead.2]) pi_div_two_pos.le
  have hthree : turns = 3 := by
    have hlow : 2 < turns := by exact_mod_cast hlow
    have hhigh : turns < 4 := by exact_mod_cast hhigh
    omega
  cases axis <;> cases other <;> simp only [Axis.quarterTurns, Axis.next] at hturns ⊢ <;> omega

/-- **The key points of a quarter circle** are its ends. -/
theorem mem_keyPoints_quarter_iff (p : Point ℝ) :
    p ∈ (Segment.arc (quarter center radius axis)).keyPoints ↔
      p = axis.pointFrom center radius ∨ p = axis.next.pointFrom center radius := by
  rw [mem_keyPoints_iff]
  constructor
  · rintro (hstart | hstop | ⟨other, hpasses, rfl⟩)
    · exact .inl hstart
    · exact .inr hstop
    · rw [eq_next_of_passes_quarter h hpasses]
      exact .inr rfl
  · rintro (hstart | hstop)
    · exact .inl hstart
    · exact .inr (.inl hstop)

end Arc

/-! ## Rounded outlines -/

namespace Rectangle

section Outline

variable {r : Rectangle ℝ} {radius : ℝ} (hradius : 0 < radius)

include hradius

/-- The key points of a rounded outline are the ends of its corners. -/
theorem mem_keyPoints_roundedOutline_iff (r : Rectangle ℝ) (p : Point ℝ) :
    (∃ s ∈ r.roundedOutline radius, p ∈ s.keyPoints) ↔
      ∃ axis : Axis, p = axis.pointFrom (r.roundingCenter radius axis) radius ∨
        p = axis.next.pointFrom (r.roundingCenter radius axis) radius := by
  constructor
  · rintro ⟨s, hs, hp⟩
    obtain ⟨axis, rfl | hside⟩ := (mem_roundedOutline_iff r radius s).1 hs
    · exact ⟨axis, (Arc.mem_keyPoints_quarter_iff hradius p).1 hp⟩
    · -- a side leads from the end of one corner to the start of the next
      obtain ⟨-, rfl⟩ := Segment.between?_eq_some_iff.1 hside
      rcases (Segment.mem_keyPoints_line_iff _ p).1 hp with hstart | hstop
      · exact ⟨axis, .inr hstart⟩
      · exact ⟨axis.next, .inl hstop⟩
  · rintro ⟨axis, hp⟩
    exact ⟨_, (mem_roundedOutline_iff r radius _).2 ⟨axis, .inl rfl⟩,
      (Arc.mem_keyPoints_quarter_iff hradius p).2 hp⟩

/-- No end of a corner reaches further than the corner on that side or the centers across from it. -/
theorem reach_keyPoint_le (r : Rectangle ℝ) (axis : Axis) {p : Point ℝ}
    (hp : ∃ s ∈ r.roundedOutline radius, p ∈ s.keyPoints) :
    axis.reach p ≤ max (axis.reach (r.roundingCenter radius axis) + radius)
      (axis.reach (r.roundingCenter radius axis.next.next)) := by
  rw [le_max_iff]
  obtain ⟨corner, rfl | rfl⟩ := (mem_keyPoints_roundedOutline_iff hradius r p).1 hp <;>
    cases axis <;> cases corner <;>
    simp only [Axis.reach, Axis.pointFrom, Axis.next, roundingCenter]
  all_goals first | (left; linarith) | (right; linarith)

/-- **How far a rounded outline reaches,** whatever the signs of the sizes: as far as the corner on
that side, or as the centers across from it if these lie further out. -/
theorem side_extent_roundedOutline (r : Rectangle ℝ) (axis : Axis) :
    (Segment.extent (r.roundedOutline radius) 0 : Box EReal).side axis =
      ((max (axis.reach (r.roundingCenter radius axis) + radius)
        (axis.reach (r.roundingCenter radius axis.next.next)) : ℝ) : EReal) := by
  refine le_antisymm ?_ ?_
  · rw [Segment.side_extent_zero_le_iff]
    intro s hs p hp
    exact EReal.coe_le_coe_iff.2 (reach_keyPoint_le hradius r axis ⟨s, hs, hp⟩)
  · have hreach : ∀ p, (∃ s ∈ r.roundedOutline radius, p ∈ s.keyPoints) →
        (axis.reach p : EReal) ≤
          (Segment.extent (r.roundedOutline radius) 0 : Box EReal).side axis := by
      rintro p ⟨s, hs, hp⟩
      exact (Segment.side_extent_zero_le_iff _ axis _).1 le_rfl s hs p hp
    have hcorner := hreach _ ((mem_keyPoints_roundedOutline_iff hradius r _).2 ⟨axis, .inl rfl⟩)
    have hacross := hreach _
      ((mem_keyPoints_roundedOutline_iff hradius r _).2 ⟨axis.next.next, .inr rfl⟩)
    have hlevel : axis.reach
        (axis.next.next.next.pointFrom (r.roundingCenter radius axis.next.next) radius) =
          axis.reach (r.roundingCenter radius axis.next.next) := by
      cases axis <;> rfl
    rw [Axis.reach_pointFrom] at hcorner
    rw [hlevel] at hacross
    rw [EReal.coe_strictMono.monotone.map_max]
    exact max_le hcorner hacross

end Outline

/-! ## Overhang -/

/-- The extent of a rectangle along an axis, negative when it runs against the coordinates. -/
def sizeAlong (r : Rectangle ℝ) : Axis → ℝ
  | .right | .left => r.xSize
  | .up | .down => r.ySize

/-- By how much a rounded outline sticks out of the box of the rectangle on the side in the direction of
an axis. -/
def overhang (r : Rectangle ℝ) (axis : Axis) : ℝ :=
  if r.sizeAlong axis < 0 then r.cornerRadius else 0

/-- The box of a rectangle reaches as far as the further one of two corners across from each other. -/
theorem side_ownBox_eq_max (r : Rectangle ℝ) (axis : Axis) :
    r.ownBox.side axis = ((max (axis.reach (r.roundingCenter 0 axis))
      (axis.reach (r.roundingCenter 0 axis.next.next)) : ℝ) : EReal) := by
  simp only [ownBox, Box.ofRectangle, Placed.place, lesser_eq_min, greater_eq_max]
  cases axis <;>
    simp only [Box.side, Axis.reach, Axis.next, roundingCenter, xFar, yFar, ← EReal.coe_neg, sub_zero,
      add_zero, EReal.coe_eq_coe_iff]
  case right => exact max_comm _ _
  case up => exact max_comm _ _
  case left => exact (max_neg_neg _ _).symm
  case down => exact (max_neg_neg _ _).symm

section Rounded

variable {r : Rectangle ℝ} (hx : r.xSize ≠ 0) (hy : r.ySize ≠ 0) {radius : ℝ}
  (hround : r.rounding = some radius) (hpos : 0 < radius)

include hx hy hround hpos

/-- The corners are drawn with a radius that is positive and at most half of either size. -/
theorem cornerRadius_mem : 0 < r.cornerRadius ∧ ∀ axis, 2 * r.cornerRadius ≤ |r.sizeAlong axis| := by
  have hradius : r.cornerRadius = min (min radius (|r.xSize| / 2)) (|r.ySize| / 2) := by
    have hhalf : (2.0 : ℝ) = 2 := by norm_num
    simp only [cornerRadius, hround, Option.getD_some, lesser_eq_min, abs_real, hhalf]
  have hxHalf : r.cornerRadius ≤ |r.xSize| / 2 := by
    rw [hradius]
    exact (min_le_left _ _).trans (min_le_right _ _)
  have hyHalf : r.cornerRadius ≤ |r.ySize| / 2 := by
    rw [hradius]
    exact min_le_right _ _
  refine ⟨?_, ?_⟩
  · rw [hradius]
    have hxPos := abs_pos.2 hx
    have hyPos := abs_pos.2 hy
    exact lt_min (lt_min hpos (by linarith)) (by linarith)
  · intro axis
    cases axis with
    | right | left => exact (by linarith : 2 * r.cornerRadius ≤ |r.xSize|)
    | up | down => exact (by linarith : 2 * r.cornerRadius ≤ |r.ySize|)

/-- On every side a rounded outline reaches further than the box of the rectangle by the overhang. -/
theorem side_extent_outline (axis : Axis) : (Segment.extent r.outline 0 : Box EReal).side axis =
    r.ownBox.side axis + (r.overhang axis : EReal) := by
  obtain ⟨hradius, hle⟩ := cornerRadius_mem hx hy hround hpos
  rw [outline, if_neg hradius.not_ge, side_extent_roundedOutline hradius, side_ownBox_eq_max,
    ← EReal.coe_add]
  congr 1
  have hsize := hle axis
  unfold overhang
  rcases lt_or_ge (r.sizeAlong axis) 0 with hneg | hnonneg
  · -- the centers across lie further out than the corner
    rw [abs_of_neg hneg] at hsize
    rw [if_pos hneg, max_eq_right, max_eq_right]
    all_goals
      cases axis <;>
        simp only [Axis.reach, Axis.next, roundingCenter, sizeAlong, xFar, yFar] at hneg hsize ⊢ <;>
        linarith
  · rw [abs_of_nonneg hnonneg] at hsize
    rw [if_neg hnonneg.not_gt, max_eq_left, max_eq_left]
    all_goals
      cases axis <;>
        simp only [Axis.reach, Axis.next, roundingCenter, sizeAlong, xFar, yFar] at hnonneg hsize ⊢ <;>
        linarith

/-- A rounded outline has the box of the rectangle exactly when both sizes are positive. -/
theorem extent_outline_eq_ownBox_iff :
    Segment.extent r.outline 0 = r.ownBox ↔ 0 < r.xSize ∧ 0 < r.ySize := by
  have hside := side_extent_outline hx hy hround hpos
  have hradius := (cornerRadius_mem hx hy hround hpos).1
  constructor
  · intro heq
    have hnone : ∀ axis, ¬ r.sizeAlong axis < 0 := by
      intro axis hneg
      have hsame := hside axis
      rw [heq, overhang, if_pos hneg, side_ownBox_eq_max, ← EReal.coe_add,
        EReal.coe_eq_coe_iff] at hsame
      linarith
    exact ⟨(not_lt.1 (hnone .right)).lt_of_ne' hx, (not_lt.1 (hnone .up)).lt_of_ne' hy⟩
  · rintro ⟨hxPos, hyPos⟩
    refine Box.eq_of_side_eq fun axis => ?_
    have hnonneg : ¬ r.sizeAlong axis < 0 := by
      cases axis with
      | right | left => exact hxPos.not_gt
      | up | down => exact hyPos.not_gt
    rw [hside, overhang, if_neg hnonneg, EReal.coe_zero, add_zero]

/-- **How far the outline of a rounded rectangle sticks out.** On each side of an axis along which the
size is negative the outline reaches further than the box of the rectangle by the rounding as drawn, and
nowhere else; so both agree exactly when the sizes are positive. -/
theorem extent_outline_rounded :
    (∀ axis, (Segment.extent (Shape.rectangle r).outline 0 : Box EReal).side axis =
      ((Shape.rectangle r).box : Box EReal).side axis + (r.overhang axis : EReal)) ∧
    (Segment.extent (Shape.rectangle r).outline 0 = ((Shape.rectangle r).box : Box EReal) ↔
      0 < r.xSize ∧ 0 < r.ySize) := by
  rw [Shape.outline, Shape.box]
  exact ⟨side_extent_outline hx hy hround hpos, extent_outline_eq_ownBox_iff hx hy hround hpos⟩

end Rounded

/-- A rounded rectangle that runs to the left from its corner. -/
def leftward : Rectangle ℝ := ⟨⟨0, 0⟩, -4, 4, some 1⟩

theorem cornerRadius_leftward : leftward.cornerRadius = 1 := by
  norm_num [cornerRadius, leftward, lesser_eq_min]

/-- The outline of that rectangle sticks out to the right, but not at the top. -/
theorem extent_outline_rounded_leftward :
    (Segment.extent (Shape.rectangle leftward).outline 0 : Box EReal).side .right =
        ((Shape.rectangle leftward).box : Box EReal).side .right + ((1 : ℝ) : EReal) ∧
      (Segment.extent (Shape.rectangle leftward).outline 0 : Box EReal).side .up =
        ((Shape.rectangle leftward).box : Box EReal).side .up := by
  have hx : leftward.xSize ≠ 0 := by norm_num [leftward]
  have hy : leftward.ySize ≠ 0 := by norm_num [leftward]
  have hpos : (0 : ℝ) < 1 := by norm_num
  have hright : leftward.overhang .right = 1 := by
    rw [overhang, cornerRadius_leftward]
    norm_num [sizeAlong, leftward]
  have hup : leftward.overhang .up = 0 := by norm_num [overhang, sizeAlong, leftward]
  obtain ⟨hside, -⟩ := extent_outline_rounded hx hy rfl hpos
  refine ⟨?_, ?_⟩
  · rw [hside, hright]
  · rw [hside, hup, EReal.coe_zero, add_zero]

/-- Not every rounded rectangle has an outline with its own box. -/
theorem not_forall_extent_outline_eq_box :
    ¬ ∀ (r : Rectangle ℝ) (radius : ℝ), Point.tolerance < |r.xSize| → Point.tolerance < |r.ySize| →
      r.rounding = some radius → 0 < radius →
        Segment.extent (Shape.rectangle r).outline 0 = ((Shape.rectangle r).box : Box EReal) := by
  intro h
  have htolerance := tolerance_lt_one
  have hpos : (0 : ℝ) < 1 := by norm_num
  have hx : |leftward.xSize| = 4 := by norm_num [leftward]
  have hy : |leftward.ySize| = 4 := by norm_num [leftward]
  have heq := h leftward 1 (by rw [hx]; linarith) (by rw [hy]; linarith) rfl hpos
  rw [Shape.outline, Shape.box] at heq
  have hsizes := (extent_outline_eq_ownBox_iff (by norm_num [leftward]) (by norm_num [leftward]) rfl
    hpos).1 heq
  norm_num [leftward] at hsizes

end Rectangle

end

end Photoplot
