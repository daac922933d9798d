import Photoplot.Proofs.Exact.Arc

/-!
# The box of what is drawn

The box of a list of segments, computed from key points alone, against the set of all points that a
round pen covers when it is drawn along them.

* `Segment.covered`: the points within reach of the pen;
* `Segment.exists_keyPoint_reach`: a segment reaches furthest at a key point;
* `Segment.isGreatest_side_extent`: in every direction the box reaches exactly as far as the pen;
* `Segment.extent_smallest`: **the box of a list of segments is the smallest one around everything
  that is drawn, and each of its sides is touched.**
-/

namespace Photoplot

noncomputable section

open Real

/-! ## The pen -/

/-- A point no further away than some distance lies no further in any direction. -/
theorem Axis.reach_le_add_distance (p q : Point ℝ) (axis : Axis) :
    axis.reach q ≤ axis.reach p + q.distance p := by
  have hx := q.abs_x_sub_le_distance p
  have hy := q.abs_y_sub_le_distance p
  rw [abs_le] at hx hy
  cases axis <;> simp only [reach] <;> linarith [hx.1, hx.2, hy.1, hy.2]

/-- The point at a distance in the direction of an axis lies that much further. -/
theorem Axis.reach_pointFrom (p : Point ℝ) (distance : ℝ) (axis : Axis) :
    axis.reach (axis.pointFrom p distance) = axis.reach p + distance := by
  cases axis <;> simp only [reach, pointFrom] <;> ring

theorem Axis.distance_pointFrom (p : Point ℝ) {distance : ℝ} (h : 0 ≤ distance) (axis : Axis) :
    (axis.pointFrom p distance).distance p = distance := by
  cases axis <;> simp [pointFrom, Point.distance, sqrt_mul_self h]

namespace Segment

/-- A segment whose fields agree; those of a line always do. -/
def WellFormed : Segment ℝ → Prop
  | line _ => True
  | arc a => a.WellFormed

/-- The points that a round pen covers when it draws a list of segments. -/
def covered (segments : List (Segment ℝ)) (penRadius : ℝ) : Set (Point ℝ) :=
  {q | ∃ s ∈ segments, ∃ p ∈ s.points, q.distance p ≤ penRadius}

/-! ## Key points -/

/-- The key points of a segment lie on it. -/
theorem WellFormed.keyPoint_mem_points {s : Segment ℝ} (h : s.WellFormed) {p : Point ℝ}
    (hp : p ∈ s.keyPoints) : p ∈ s.points := by
  cases s with
  | line l =>
    simp only [keyPoints, List.mem_cons, List.not_mem_nil, or_false] at hp
    rcases hp with rfl | rfl
    · exact ⟨0, ⟨le_rfl, zero_le_one⟩, by simp⟩
    · exact ⟨1, ⟨zero_le_one, le_rfl⟩, by simp⟩
  | arc a => exact Arc.WellFormed.keyPoint_mem_points h hp

/-- A segment reaches furthest at a key point. -/
theorem WellFormed.exists_keyPoint_reach {s : Segment ℝ} (h : s.WellFormed) {p : Point ℝ}
    (hp : p ∈ s.points) (axis : Axis) : ∃ q ∈ s.keyPoints, axis.reach p ≤ axis.reach q := by
  cases s with
  | line l =>
    obtain ⟨t, ⟨ht₀, ht₁⟩, rfl⟩ := hp
    have hbetween : ∀ u v : ℝ, u + t * (v - u) ≤ u ∨ u + t * (v - u) ≤ v := by
      intro u v
      rcases le_total u v with huv | huv
      · exact .inr (by nlinarith)
      · exact .inl (by nlinarith)
    have hreach : axis.reach ⟨l.start.x + t * (l.stop.x - l.start.x),
        l.start.y + t * (l.stop.y - l.start.y)⟩ =
          axis.reach l.start + t * (axis.reach l.stop - axis.reach l.start) := by
      cases axis <;> simp only [Axis.reach] <;> ring
    rw [hreach]
    rcases hbetween (axis.reach l.start) (axis.reach l.stop) with hle | hle
    · exact ⟨l.start, by simp [keyPoints], hle⟩
    · exact ⟨l.stop, by simp [keyPoints], hle⟩
  | arc a => exact Arc.WellFormed.exists_keyPoint_reach h hp axis

/-- Every segment has a key point. -/
theorem start_mem_keyPoints (s : Segment ℝ) : s.start ∈ s.keyPoints := by
  cases s <;> simp [keyPoints, start]

/-! ## The box -/

section Extent

variable {segments : List (Segment ℝ)} {penRadius : ℝ}

/-- The box reaches as far as the pen at every key point. -/
theorem reach_add_le_side_extent {s : Segment ℝ} (hs : s ∈ segments) {p : Point ℝ}
    (hp : p ∈ s.keyPoints) (axis : Axis) :
    ((axis.reach p + penRadius : ℝ) : EReal) ≤
      (extent segments penRadius : Box EReal).side axis := by
  rw [← Box.side_ofCircle]
  refine (Box.side_hull_le_iff _ axis _).1 le_rfl _ ?_
  exact List.mem_map.2 ⟨p, List.mem_flatMap.2 ⟨s, hs, hp⟩, rfl⟩

/-- The box reaches no further than the pen does at some key point. -/
theorem exists_side_extent_eq (hne : segments ≠ []) (penRadius : ℝ) (axis : Axis) :
    ∃ s ∈ segments, ∃ p ∈ s.keyPoints,
      (extent segments penRadius : Box EReal).side axis =
        ((axis.reach p + penRadius : ℝ) : EReal) := by
  obtain ⟨s, hs⟩ := List.exists_mem_of_ne_nil _ hne
  have hboxes : (segments.flatMap keyPoints).map (fun p => Box.ofCircle p penRadius) ≠
      ([] : List (Box EReal)) := by
    refine List.ne_nil_of_mem (List.mem_map.2 ⟨s.start, ?_, rfl⟩)
    exact List.mem_flatMap.2 ⟨s, hs, s.start_mem_keyPoints⟩
  obtain ⟨b, hb, hside⟩ := Box.exists_side_eq_hull hboxes axis
  obtain ⟨p, hp, rfl⟩ := List.mem_map.1 hb
  obtain ⟨s, hs, hp⟩ := List.mem_flatMap.1 hp
  exact ⟨s, hs, p, hp, by rw [← Box.side_ofCircle, hside]; rfl⟩

/-- In every direction the box of a list of segments reaches exactly as far as the pen. -/
theorem isGreatest_side_extent (hne : segments ≠ []) (hsegments : ∀ s ∈ segments, s.WellFormed)
    (hpen : 0 ≤ penRadius) (axis : Axis) :
    IsGreatest ((fun q => ((axis.reach q : ℝ) : EReal)) '' covered segments penRadius)
      ((extent segments penRadius : Box EReal).side axis) := by
  constructor
  · obtain ⟨s, hs, p, hp, hside⟩ := exists_side_extent_eq hne penRadius axis
    refine ⟨axis.pointFrom p penRadius, ⟨s, hs, p, ?_, ?_⟩, ?_⟩
    · exact (hsegments s hs).keyPoint_mem_points hp
    · exact (Axis.distance_pointFrom p hpen axis).le
    · rw [hside, ← Axis.reach_pointFrom]
  · rintro _ ⟨q, ⟨s, hs, p, hp, hdistance⟩, rfl⟩
    obtain ⟨k, hk, hreach⟩ := (hsegments s hs).exists_keyPoint_reach hp axis
    refine le_trans ?_ (reach_add_le_side_extent hs hk axis)
    have hle := axis.reach_le_add_distance p q
    exact EReal.coe_le_coe_iff.2 (by linarith)

/-- **The box of what is drawn.** For segments whose fields agree and a pen of any radius, the box
contains every point that the pen covers, lies in every other box that does, and each of its four
sides is touched by a point that the pen covers. Nothing drawn has the empty box. -/
theorem extent_smallest (segments : List (Segment ℝ)) (hsegments : ∀ s ∈ segments, s.WellFormed)
    (penRadius : ℝ) (hpen : 0 ≤ penRadius) :
    (∀ q ∈ covered segments penRadius, (extent segments penRadius : Box EReal).Contains q) ∧
      (∀ other : Box EReal, (∀ q ∈ covered segments penRadius, other.Contains q) →
        (extent segments penRadius : Box EReal).Within other) ∧
      (segments ≠ [] →
        (∃ q ∈ covered segments penRadius,
          (extent segments penRadius : Box EReal).xMin = (q.x : EReal)) ∧
        (∃ q ∈ covered segments penRadius,
          (extent segments penRadius : Box EReal).yMin = (q.y : EReal)) ∧
        (∃ q ∈ covered segments penRadius,
          (extent segments penRadius : Box EReal).xMax = (q.x : EReal)) ∧
        ∃ q ∈ covered segments penRadius,
          (extent segments penRadius : Box EReal).yMax = (q.y : EReal)) ∧
      (segments = [] → (extent segments penRadius : Box EReal) = Box.empty) := by
  have hgreatest : segments ≠ [] → ∀ axis : Axis,
      IsGreatest ((fun q => ((axis.reach q : ℝ) : EReal)) '' covered segments penRadius)
        ((extent segments penRadius : Box EReal).side axis) := by
    intro hne axis
    exact isGreatest_side_extent hne hsegments hpen axis
  refine ⟨?_, ?_, ?_, ?_⟩
  · intro q hq
    have hne : segments ≠ [] := by
      obtain ⟨s, hs, -⟩ := hq
      exact List.ne_nil_of_mem hs
    rw [Box.contains_iff]
    intro axis
    exact (hgreatest hne axis).2 ⟨q, hq, rfl⟩
  · intro other hother
    rw [Box.within_iff]
    intro axis
    rcases eq_or_ne segments [] with rfl | hne
    · simp
    · obtain ⟨q, hq, hreach⟩ := (hgreatest hne axis).1
      rw [← hreach]
      exact (Box.contains_iff other q).1 (hother q hq) axis
  · intro hne
    obtain ⟨left, hleft, hleft_eq⟩ := (hgreatest hne .left).1
    obtain ⟨down, hdown, hdown_eq⟩ := (hgreatest hne .down).1
    obtain ⟨right, hright, hright_eq⟩ := (hgreatest hne .right).1
    obtain ⟨up, hup, hup_eq⟩ := (hgreatest hne .up).1
    refine ⟨⟨left, hleft, ?_⟩, ⟨down, hdown, ?_⟩, ⟨right, hright, hright_eq.symm⟩,
      ⟨up, hup, hup_eq.symm⟩⟩
    · simpa [Axis.reach, Box.side] using hleft_eq.symm
    · simpa [Axis.reach, Box.side] using hdown_eq.symm
  · rintro rfl
    rfl

/-- The left half of the unit circle, from its top to its bottom. -/
def leftHalf : Arc ℝ where
  start := ⟨0, 1⟩
  stop := ⟨0, -1⟩
  center := ⟨0, 0⟩
  radius := 1
  sweep := π
  direction := .counterclockwise
  startAngle := Angle.quarterTurn
  stopAngle := -Angle.quarterTurn

theorem startAngle_leftHalf : leftHalf.startAngle = π / 2 :=
  Angle.quarterTurn_eq Trigonometry.standard

theorem stopAngle_leftHalf : leftHalf.stopAngle = -(π / 2) :=
  congrArg Neg.neg (Angle.quarterTurn_eq Trigonometry.standard)

theorem wellFormed_leftHalf : leftHalf.WellFormed where
  radius_nonneg := zero_le_one
  start_eq := by
    rw [startAngle_leftHalf]
    simp [leftHalf, Point.polar]
  stop_eq := by
    rw [stopAngle_leftHalf]
    simp [leftHalf, Point.polar]
  startAngle_mem := by
    rw [startAngle_leftHalf]
    exact ⟨by linarith [pi_pos], by linarith [pi_pos]⟩
  stopAngle_mem := by
    rw [stopAngle_leftHalf]
    exact ⟨by linarith [pi_pos], by linarith [pi_pos]⟩
  sweep_eq := by
    have hsweep : leftHalf.sweep = π := rfl
    have hdirection : leftHalf.direction = .counterclockwise := rfl
    rw [Angle.travelled_eq_toIocMod Trigonometry.standard two_pi_pos, startAngle_leftHalf,
      stopAngle_leftHalf, hsweep, hdirection]
    symm
    rw [toIocMod_eq_iff]
    refine ⟨⟨pi_pos, by linarith [pi_pos]⟩, -1, ?_⟩
    rw [Angle.turn, neg_one_zsmul]
    ring

/-- Half a circle drawn with a pen of half its radius: its ends lie straight above and below its
center, but the box reaches round to its left. -/
theorem extent_smallest_leftHalf :
    (∀ s ∈ [arc leftHalf], s.WellFormed) ∧ (0 : ℝ) ≤ 1 / 2 ∧
      (extent [arc leftHalf] (1 / 2) : Box EReal).Contains ⟨-3 / 2, 0⟩ := by
  have hwell : ∀ s ∈ [arc leftHalf], s.WellFormed := by
    simpa [WellFormed] using wellFormed_leftHalf
  have hpen : (0 : ℝ) ≤ 1 / 2 := by norm_num
  refine ⟨hwell, hpen, (extent_smallest _ hwell _ hpen).1 _ ⟨arc leftHalf, by simp, ⟨-1, 0⟩, ?_, ?_⟩⟩
  · refine ⟨π / 2, ⟨by linarith [pi_pos], ?_⟩, ?_⟩
    · simp only [leftHalf]
      linarith [pi_pos]
    · have hangle : leftHalf.angleAfter (π / 2) = π := by
        show leftHalf.startAngle + π / 2 = π
        rw [startAngle_leftHalf]
        ring
      rw [hangle]
      simp [leftHalf, Point.polar]
  · norm_num [Point.distance]

end Extent

end Segment

end

end Photoplot
