import Photoplot.Proofs.Exact.Reach
import Photoplot.Proofs.Exact.AxisWalk

/-!
# Arcs

Arcs whose fields agree, as sets of points. Travelled in either direction such an arc turns
counter-clockwise from one of its ends to the other, and it reaches furthest at its ends or at the
points straight right, above, left and below its center that it passes.

* `Arc.WellFormed`: radius, ends, angles and sweep of an arc agree;
* `Segment.points`: the points of a segment;
* `Arc.passes_iff`: **an arc passes the point in the direction of an axis exactly when it travels as
  far as that axis**;
* `Arc.exists_keyPoint_reach`: no point of an arc reaches further than all its key points;
* `Arc.keyPoint_mem_points`: the key points lie on the arc.
-/

namespace Photoplot

noncomputable section

open Real

/-- The point at a distance from a center in the direction of an angle. -/
def Point.polar (center : Point ℝ) (radius θ : ℝ) : Point ℝ :=
  ⟨center.x + radius * cos θ, center.y + radius * sin θ⟩

/-- Full turns lead back to the same point. -/
theorem Point.polar_add_int_mul (center : Point ℝ) (radius θ : ℝ) (n : ℤ) :
    center.polar radius (θ + n * (2 * π)) = center.polar radius θ := by
  simp [polar, cos_add_int_mul_two_pi, sin_add_int_mul_two_pi]

/-- How far a point on a circle lies in the direction of an axis. -/
theorem Axis.reach_polar (center : Point ℝ) (radius θ : ℝ) (axis : Axis) :
    axis.reach (center.polar radius θ) =
      axis.reach center + radius * cos (θ - axis.quarterTurns * (π / 2)) := by
  cases axis with
  | right => simp [reach, Point.polar, quarterTurns]
  | up => simp [reach, Point.polar, quarterTurns, cos_sub_pi_div_two]
  | left =>
    have hangle : θ - 2 * (π / 2) = θ - π := by ring
    simp [reach, Point.polar, quarterTurns, hangle, cos_sub_pi]
    ring
  | down =>
    have hangle : θ - 3 * (π / 2) = θ - π - π / 2 := by ring
    simp [reach, Point.polar, quarterTurns, hangle, cos_sub_pi_div_two, sin_sub_pi]
    ring

/-- The point in the direction of an axis lies at that many quarter turns. -/
theorem Axis.pointFrom_eq_polar (center : Point ℝ) (radius : ℝ) (axis : Axis) :
    axis.pointFrom center radius = center.polar radius (axis.quarterTurns * (π / 2)) := by
  cases axis with
  | right => simp [pointFrom, Point.polar, quarterTurns]
  | up => simp [pointFrom, Point.polar, quarterTurns]
  | left =>
    have hangle : 2 * (π / 2) = π := by ring
    simp [pointFrom, Point.polar, quarterTurns, hangle, sub_eq_add_neg]
  | down =>
    have hangle : 3 * (π / 2) = π + π / 2 := by ring
    simp [pointFrom, Point.polar, quarterTurns, hangle, cos_add_pi_div_two, sin_add_pi_div_two,
      sub_eq_add_neg]

/-! ## Well-formed arcs -/

namespace Arc

/-- The key points of an arc are its ends and the points in the direction of the axes it passes. -/
theorem mem_keyPoints_iff (a : Arc ℝ) (p : Point ℝ) : p ∈ (Segment.arc a).keyPoints ↔
    p = a.start ∨ p = a.stop ∨
      ∃ axis : Axis, a.Passes axis ∧ axis.pointFrom a.center a.radius = p := by
  have hall : ∀ axis : Axis, axis ∈ Axis.all := by
    intro axis
    cases axis <;> decide
  simp [Segment.keyPoints, axisPoints, hall]

/-- The fields of an arc agree: its ends lie on its circle at the angles kept for them, and its sweep
is the angle travelled from one to the other. -/
structure WellFormed (a : Arc ℝ) : Prop where
  /-- The radius is not negative. -/
  radius_nonneg : 0 ≤ a.radius
  /-- The arc starts on its circle. -/
  start_eq : a.start = a.center.polar a.radius a.startAngle
  /-- The arc ends on its circle. -/
  stop_eq : a.stop = a.center.polar a.radius a.stopAngle
  /-- The angle of the start is the one within half a turn. -/
  startAngle_mem : a.startAngle ∈ Set.Ioc (-π) π
  /-- The angle of the end is the one within half a turn. -/
  stopAngle_mem : a.stopAngle ∈ Set.Ioc (-π) π
  /-- The sweep is the angle travelled. -/
  sweep_eq : a.sweep = Angle.travelled a.startAngle a.stopAngle a.direction

/-- The angle at which an arc arrives when it has travelled some angle from its start. -/
def angleAfter (a : Arc ℝ) (t : ℝ) : ℝ :=
  match a.direction with
  | .counterclockwise => a.startAngle + t
  | .clockwise => a.startAngle - t

/-- How far an arc still is from an axis when it starts to turn counter-clockwise, counted backwards
from that axis. -/
def aheadOf (a : Arc ℝ) (axis : Axis) : ℝ :=
  Scalar.modulo (a.ccwStart - axis.quarterTurns * Angle.quarterTurn) Angle.fullTurn

theorem aheadOf_eq_toIcoMod (a : Arc ℝ) (axis : Axis) :
    a.aheadOf axis = toIcoMod two_pi_pos 0 (a.ccwStart - axis.quarterTurns * (π / 2)) := by
  unfold aheadOf
  rw [Angle.fullTurn_eq Trigonometry.standard, Angle.quarterTurn_eq Trigonometry.standard]
  exact Angle.modulo_eq_toIcoMod two_pi_pos Trigonometry.standard _

theorem aheadOf_mem (a : Arc ℝ) (axis : Axis) : a.aheadOf axis ∈ Set.Ico 0 (2 * π) := by
  rw [aheadOf_eq_toIcoMod]
  exact toIcoMod_mem_Ico' two_pi_pos _

/-- The angle seen from an axis, up to full turns. -/
theorem exists_aheadOf_eq (a : Arc ℝ) (axis : Axis) :
    ∃ n : ℤ, a.ccwStart - axis.quarterTurns * (π / 2) = a.aheadOf axis + n * (2 * π) := by
  refine ⟨toIcoDiv two_pi_pos 0 (a.ccwStart - axis.quarterTurns * (π / 2)), ?_⟩
  rw [← zsmul_eq_mul, aheadOf_eq_toIcoMod]
  exact (toIcoMod_add_toIcoDiv_zsmul two_pi_pos 0 _).symm

namespace WellFormed

variable {a : Arc ℝ} (h : a.WellFormed)

include h

/-- What the walk past the axes needs to know of an arc. -/
theorem spans : a.Spans Trigonometry.standard := ⟨h.startAngle_mem, h.stopAngle_mem, h.sweep_eq⟩

theorem sweep_eq_toIocMod : a.sweep = toIocMod two_pi_pos 0 (a.ccwStop - a.ccwStart) :=
  h.spans.sweep_eq_toIocMod two_pi_pos

theorem sweep_mem : a.sweep ∈ Set.Ioc 0 (2 * π) := by
  rw [h.sweep_eq_toIocMod]
  simpa using toIocMod_mem_Ioc two_pi_pos 0 (a.ccwStop - a.ccwStart)

/-- Travelling the sweep counter-clockwise leads from one end to the other. -/
theorem exists_ccwStop_eq : ∃ n : ℤ, a.ccwStop = a.ccwStart + a.sweep + n * (2 * π) := by
  refine ⟨toIocDiv two_pi_pos 0 (a.ccwStop - a.ccwStart), ?_⟩
  have hdiv := toIocMod_add_toIocDiv_zsmul two_pi_pos 0 (a.ccwStop - a.ccwStart)
  rw [zsmul_eq_mul, ← h.sweep_eq_toIocMod] at hdiv
  linarith

/-- **Passing an axis.** An arc passes the point of its circle in the direction of an axis exactly
when its sweep brings it from its counter-clockwise start to that axis. -/
theorem passes_iff (axis : Axis) : a.Passes axis ↔ 2 * π ≤ a.aheadOf axis + a.sweep := by
  rw [aheadOf_eq_toIcoMod]
  exact h.spans.passes_iff two_pi_pos axis

end WellFormed

end Arc

/-! ## The points of a segment -/

/-- The points of a segment: of a line those between its ends, of an arc those that are travelled. -/
def Segment.points : Segment ℝ → Set (Point ℝ)
  | line l => {p | ∃ t ∈ Set.Icc (0 : ℝ) 1,
      p = ⟨l.start.x + t * (l.stop.x - l.start.x), l.start.y + t * (l.stop.y - l.start.y)⟩}
  | arc a => {p | ∃ t ∈ Set.Icc 0 a.sweep, p = a.center.polar a.radius (a.angleAfter t)}

namespace Arc.WellFormed

variable {a : Arc ℝ} (h : a.WellFormed)

include h

/-- In either direction the points of an arc are those met counter-clockwise from one of its ends. -/
theorem mem_points_iff (p : Point ℝ) : p ∈ (Segment.arc a).points ↔
    ∃ t ∈ Set.Icc 0 a.sweep, p = a.center.polar a.radius (a.ccwStart + t) := by
  obtain ⟨n, hn⟩ := h.exists_ccwStop_eq
  cases hdirection : a.direction with
  | counterclockwise => simp [Segment.points, angleAfter, ccwStart, hdirection]
  | clockwise =>
    simp only [ccwStart, ccwStop, hdirection] at hn
    -- what is left of the sweep is what is still to be travelled the other way
    have hpoint : ∀ t, a.center.polar a.radius (a.startAngle - t) =
        a.center.polar a.radius (a.stopAngle + (a.sweep - t)) := by
      intro t
      rw [← Point.polar_add_int_mul a.center a.radius (a.stopAngle + (a.sweep - t)) n]
      congr 1
      linarith
    simp only [Segment.points, angleAfter, ccwStart, hdirection, Set.mem_ofPred_eq]
    constructor
    · rintro ⟨t, ⟨ht₀, ht₁⟩, rfl⟩
      exact ⟨a.sweep - t, ⟨by linarith, by linarith⟩, hpoint t⟩
    · rintro ⟨t, ⟨ht₀, ht₁⟩, rfl⟩
      refine ⟨a.sweep - t, ⟨by linarith, by linarith⟩, ?_⟩
      rw [hpoint]
      ring_nf

/-- The ends of an arc are the first and the last point met counter-clockwise, in one order or the
other. -/
theorem ends_eq :
    (a.start = a.center.polar a.radius a.ccwStart ∧
      a.stop = a.center.polar a.radius (a.ccwStart + a.sweep)) ∨
    (a.start = a.center.polar a.radius (a.ccwStart + a.sweep) ∧
      a.stop = a.center.polar a.radius a.ccwStart) := by
  obtain ⟨n, hn⟩ := h.exists_ccwStop_eq
  have hlast : a.center.polar a.radius (a.ccwStart + a.sweep) =
      a.center.polar a.radius a.ccwStop := by
    rw [hn, Point.polar_add_int_mul]
  rw [hlast]
  unfold ccwStart ccwStop
  cases a.direction with
  | counterclockwise => exact .inl ⟨h.start_eq, h.stop_eq⟩
  | clockwise => exact .inr ⟨h.start_eq, h.stop_eq⟩

/-- A point that is passed lies on the arc. -/
theorem pointFrom_mem_points {axis : Axis} (hpasses : a.Passes axis) :
    axis.pointFrom a.center a.radius ∈ (Segment.arc a).points := by
  have hahead := a.aheadOf_mem axis
  obtain ⟨n, hn⟩ := a.exists_aheadOf_eq axis
  rw [h.passes_iff] at hpasses
  rw [h.mem_points_iff]
  refine ⟨2 * π - a.aheadOf axis, ⟨by linarith [hahead.2], by linarith⟩, ?_⟩
  have hangle : a.ccwStart + (2 * π - a.aheadOf axis) =
      axis.quarterTurns * (π / 2) + (n + 1 : ℤ) * (2 * π) := by
    push_cast
    linarith
  rw [hangle, Point.polar_add_int_mul, Axis.pointFrom_eq_polar]

/-- The first and the last point met counter-clockwise are key points. -/
theorem polar_mem_keyPoints :
    a.center.polar a.radius a.ccwStart ∈ (Segment.arc a).keyPoints ∧
      a.center.polar a.radius (a.ccwStart + a.sweep) ∈ (Segment.arc a).keyPoints := by
  simp only [mem_keyPoints_iff]
  rcases h.ends_eq with ⟨hstart, hstop⟩ | ⟨hstart, hstop⟩
  · exact ⟨.inl hstart.symm, .inr (.inl hstop.symm)⟩
  · exact ⟨.inr (.inl hstop.symm), .inl hstart.symm⟩

/-- The key points of an arc lie on it. -/
theorem keyPoint_mem_points {p : Point ℝ} (hp : p ∈ (Segment.arc a).keyPoints) :
    p ∈ (Segment.arc a).points := by
  have hsweep := h.sweep_mem
  have hfirst : a.center.polar a.radius a.ccwStart ∈ (Segment.arc a).points :=
    (h.mem_points_iff _).2 ⟨0, ⟨le_rfl, hsweep.1.le⟩, by rw [add_zero]⟩
  have hlast : a.center.polar a.radius (a.ccwStart + a.sweep) ∈ (Segment.arc a).points :=
    (h.mem_points_iff _).2 ⟨a.sweep, ⟨hsweep.1.le, le_rfl⟩, rfl⟩
  rcases (a.mem_keyPoints_iff p).1 hp with rfl | rfl | ⟨axis, hpasses, rfl⟩
  · rcases h.ends_eq with ⟨hstart, -⟩ | ⟨hstart, -⟩ <;> rwa [hstart]
  · rcases h.ends_eq with ⟨-, hstop⟩ | ⟨-, hstop⟩ <;> rwa [hstop]
  · exact h.pointFrom_mem_points hpasses

end Arc.WellFormed

/-- Between two angles of one turn no cosine exceeds that of both ends. -/
theorem cos_le_or_cos_le {u v x : ℝ} (hu : 0 ≤ u) (hv : v ≤ 2 * π) (hux : u ≤ x) (hxv : x ≤ v) :
    cos x ≤ cos u ∨ cos x ≤ cos v := by
  rcases le_total x π with hx | hx
  · exact .inl (cos_le_cos_of_nonneg_of_le_pi hu hx hux)
  · right
    rw [← cos_two_pi_sub x, ← cos_two_pi_sub v]
    exact cos_le_cos_of_nonneg_of_le_pi (by linarith) (by linarith) (by linarith)

namespace Arc.WellFormed

variable {a : Arc ℝ} (h : a.WellFormed)

include h

/-- **An arc reaches furthest at a key point.** In the direction of an axis no point of an arc lies
further than all its key points: either the arc passes the point of its circle in that direction,
or it stays on one side of it and the cosine falls from one end or rises to the other. -/
theorem exists_keyPoint_reach {p : Point ℝ} (hp : p ∈ (Segment.arc a).points) (axis : Axis) :
    ∃ q ∈ (Segment.arc a).keyPoints, axis.reach p ≤ axis.reach q := by
  obtain ⟨t, ⟨ht₀, ht₁⟩, rfl⟩ := (h.mem_points_iff p).1 hp
  obtain ⟨n, hn⟩ := a.exists_aheadOf_eq axis
  have hahead := a.aheadOf_mem axis
  have hcos : ∀ s, cos (a.ccwStart + s - axis.quarterTurns * (π / 2)) =
      cos (a.aheadOf axis + s) := by
    intro s
    rw [← cos_add_int_mul_two_pi (a.aheadOf axis + s) n]
    congr 1
    linarith
  by_cases hpasses : a.Passes axis
  · refine ⟨axis.pointFrom a.center a.radius, ?_, ?_⟩
    · exact (a.mem_keyPoints_iff _).2 (.inr (.inr ⟨axis, hpasses, rfl⟩))
    · rw [Axis.pointFrom_eq_polar, Axis.reach_polar, Axis.reach_polar, sub_self, cos_zero]
      have hle := mul_le_mul_of_nonneg_left (cos_le_one (a.ccwStart + t -
        axis.quarterTurns * (π / 2))) h.radius_nonneg
      linarith
  · have hshort : a.aheadOf axis + a.sweep < 2 * π := by
      rwa [h.passes_iff, not_le] at hpasses
    have hfirst : cos (a.aheadOf axis + t) ≤ cos (a.aheadOf axis) ∨
        cos (a.aheadOf axis + t) ≤ cos (a.aheadOf axis + a.sweep) :=
      cos_le_or_cos_le hahead.1 hshort.le (by linarith) (by linarith)
    have hreach : ∀ s, cos (a.aheadOf axis + t) ≤ cos (a.aheadOf axis + s) →
        axis.reach (a.center.polar a.radius (a.ccwStart + t)) ≤
          axis.reach (a.center.polar a.radius (a.ccwStart + s)) := by
      intro s hs
      rw [Axis.reach_polar, Axis.reach_polar, hcos, hcos]
      linarith [mul_le_mul_of_nonneg_left hs h.radius_nonneg]
    rcases hfirst with hle | hle
    · refine ⟨_, h.polar_mem_keyPoints.1, ?_⟩
      simpa using hreach 0 (by simpa using hle)
    · exact ⟨_, h.polar_mem_keyPoints.2, hreach a.sweep hle⟩

end Arc.WellFormed

end

end Photoplot
