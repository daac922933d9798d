import Photoplot.Proofs.Exact.Turn

/-!
# The walk past the axes

To find the axes that an arc passes, its end angles are brought within a turn and seen from one axis
after the other. The sweep of the arc has no part in this, and no more of half a turn matters than
that it is positive. The walk still agrees with the sweep: it finds the axes whose directions are met
on the way.

* `Arc.Spans`: the sweep of an arc is the angle travelled between its end angles;
* `Arc.Meets`: turning through its sweep, an arc meets the direction of an axis;
* `le_toIcoMod_add_iff`: what is left of the turn is the first angle through which its end is met;
* `Arc.Spans.passes_iff_meets`: **the walk finds an axis exactly when the arc meets its direction**;
* `Arc.Spans.keyPoints_eq_of_meets`: **the key points of an arc are its ends and the points of the axes
  that it meets**, and no angle of the walk leaves the turn.
-/

namespace Photoplot

noncomputable section

/-- A walk reaches the end of the turn exactly when some part of it leads to a whole number of turns. -/
theorem le_toIcoMod_add_iff {p : ℝ} (hp : 0 < p) (a s : ℝ) :
    p ≤ toIcoMod hp 0 a + s ↔ ∃ t ∈ Set.Ioc 0 s, ∃ n : ℤ, a + t = n * p := by
  have hmod := toIcoMod_mem_Ico' hp a
  have hdiv := toIcoMod_add_toIcoDiv_zsmul hp 0 a
  rw [zsmul_eq_mul] at hdiv
  constructor
  · intro hreach
    refine ⟨p - toIcoMod hp 0 a, ⟨by linarith [hmod.2], by linarith⟩, toIcoDiv hp 0 a + 1, ?_⟩
    push_cast
    linarith
  · rintro ⟨t, ⟨hpos, hle⟩, n, hn⟩
    have hturns : toIcoMod hp 0 a + t = (n - toIcoDiv hp 0 a : ℤ) * p := by
      push_cast
      linarith
    -- a whole number of turns that is positive is at least one
    have hone : (1 : ℤ) ≤ n - toIcoDiv hp 0 a := by
      have hsum : 0 < ((n - toIcoDiv hp 0 a : ℤ) : ℝ) * p := by linarith [hmod.1]
      exact_mod_cast pos_of_mul_pos_left hsum hp.le
    have hleast : 1 * p ≤ ((n - toIcoDiv hp 0 a : ℤ) : ℝ) * p :=
      mul_le_mul_of_nonneg_right (by exact_mod_cast hone) hp.le
    linarith

namespace Arc

/-! ## Ends and sweeps -/

/-- The angle of the end from which the arc turns counter-clockwise. -/
def ccwStart (a : Arc ℝ) : ℝ :=
  match a.direction with
  | .counterclockwise => a.startAngle
  | .clockwise => a.stopAngle

/-- The angle of the end to which the arc turns counter-clockwise. -/
def ccwStop (a : Arc ℝ) : ℝ :=
  match a.direction with
  | .counterclockwise => a.stopAngle
  | .clockwise => a.startAngle

/-- The sweep of an arc is the angle travelled between its end angles, each of which lies within half
a turn. Radius and points are left open. -/
structure Spans (T : Trigonometry) (a : Arc ℝ) : Prop where
  /-- The angle of the start is the one within half a turn. -/
  startAngle_mem : a.startAngle ∈ Set.Ioc (-T.halfTurn) T.halfTurn
  /-- The angle of the end is the one within half a turn. -/
  stopAngle_mem : a.stopAngle ∈ Set.Ioc (-T.halfTurn) T.halfTurn
  /-- The sweep is the angle travelled. -/
  sweep_eq : a.sweep = @Angle.travelled ℝ T.scalar a.startAngle a.stopAngle a.direction

/-- Turning counter-clockwise from its first end through its sweep an arc meets the direction of an
axis, up to full turns. The end where it starts to turn does not count, the other one does. -/
def Meets (T : Trigonometry) (a : Arc ℝ) (axis : Axis) : Prop :=
  ∃ t ∈ Set.Ioc 0 a.sweep, ∃ n : ℤ,
    a.ccwStart + t = axis.quarterTurns * (T.halfTurn / 2.0) + n * (2.0 * T.halfTurn)

namespace Spans

variable {T : Trigonometry} (hT : 0 < 2 * T.halfTurn) {a : Arc ℝ} (h : a.Spans T)

include h

theorem sweep_eq_toIocMod : a.sweep = toIocMod hT 0 (a.ccwStop - a.ccwStart) := by
  rw [h.sweep_eq, Angle.travelled_eq_toIocMod T hT]
  unfold ccwStop ccwStart Angle.turn
  cases a.direction <;> rfl

theorem ccwStart_mem : a.ccwStart ∈ Set.Ioc (-T.halfTurn) T.halfTurn := by
  unfold ccwStart
  split
  · exact h.startAngle_mem
  · exact h.stopAngle_mem

theorem ccwStop_mem : a.ccwStop ∈ Set.Ioc (-T.halfTurn) T.halfTurn := by
  unfold ccwStop
  split
  · exact h.stopAngle_mem
  · exact h.startAngle_mem

/-! ## The walk -/

theorem firstAngle_eq : @firstAngle ℝ T.scalar a = toIcoMod hT 0 a.ccwStart := by
  have hfirst : @firstAngle ℝ T.scalar a = @Angle.normalize ℝ T.scalar a.ccwStart := by
    unfold firstAngle ccwStart
    cases a.direction <;> rfl
  rw [hfirst]
  exact Angle.normalize_eq_toIcoMod T hT (by linarith [h.ccwStart_mem.2])

theorem lastAngle_eq : @lastAngle ℝ T.scalar a = toIcoMod hT 0 a.ccwStop := by
  have hlast : @lastAngle ℝ T.scalar a = @Angle.normalize ℝ T.scalar a.ccwStop := by
    unfold lastAngle ccwStop
    cases a.direction <;> rfl
  rw [hlast]
  exact Angle.normalize_eq_toIcoMod T hT (by linarith [h.ccwStop_mem.2])

/-- The walk finds an axis exactly when the sweep, begun at the first end as seen from that axis,
reaches the end of the turn. -/
theorem passes_iff (axis : Axis) : @Passes ℝ T.scalar a axis ↔
    2 * T.halfTurn ≤ toIcoMod hT 0 (a.ccwStart - axis.quarterTurns * (T.halfTurn / 2)) + a.sweep := by
  have hdiff : a.ccwStop - axis.quarterTurns * (T.halfTurn / 2) -
      (a.ccwStart - axis.quarterTurns * (T.halfTurn / 2)) = a.ccwStop - a.ccwStart := by ring
  unfold Passes IsFullCircle
  rw [h.firstAngle_eq hT, h.lastAngle_eq hT, Angle.turnedBack_toIcoMod T hT,
    Angle.turnedBack_toIcoMod T hT, Angle.fullTurn_eq T, h.sweep_eq_toIocMod hT, ← hdiff]
  exact (le_toIcoMod_add_toIocMod_iff hT _ _).symm

include hT

/-- **The walk agrees with the sweep.** It finds an axis exactly when the arc meets its direction. -/
theorem passes_iff_meets (axis : Axis) : @Passes ℝ T.scalar a axis ↔ a.Meets T axis := by
  have htwo : (2.0 : ℝ) = 2 := by norm_num
  rw [h.passes_iff hT, le_toIcoMod_add_iff hT, Meets, htwo]
  refine exists_congr fun t => and_congr_right fun _ => exists_congr fun n => ?_
  rw [sub_add_eq_add_sub, sub_eq_iff_eq_add, add_comm (_ * _)]

/-- However often the walk turns on, both of its angles stay within the turn. -/
theorem turnedBack_mem (k : ℕ) :
    @Angle.turnedBack ℝ T.scalar (@firstAngle ℝ T.scalar a) k ∈ Set.Ico 0 (2 * T.halfTurn) ∧
      @Angle.turnedBack ℝ T.scalar (@lastAngle ℝ T.scalar a) k ∈ Set.Ico 0 (2 * T.halfTurn) := by
  rw [h.firstAngle_eq hT, h.lastAngle_eq hT, Angle.turnedBack_toIcoMod T hT,
    Angle.turnedBack_toIcoMod T hT]
  exact ⟨toIcoMod_mem_Ico' hT _, toIcoMod_mem_Ico' hT _⟩

end Spans

/-- **The walk past the axes.** Whatever half a turn is, as long as it is positive: the key points of an
arc that travels from one of its end angles to the other, in either direction, are its two ends and
after them, each once and in the order of the axes, the points in the direction of the axes that it
meets, which are all four of them for a full circle. On the way both angles of the walk stay within
the turn. -/
theorem keyPoints_eq_of_meets (T : Trigonometry) (hpos : 0 < T.halfTurn) (a : Arc ℝ) (h : a.Spans T) :
    (∃ axes : List Axis, axes.Sublist Axis.all ∧
      @Segment.keyPoints ℝ T.scalar (.arc a) = a.start :: a.stop ::
        axes.map (@Axis.pointFrom ℝ T.scalar a.center a.radius) ∧
      ∀ axis, axis ∈ axes ↔ @IsFullCircle ℝ T.scalar a ∨ a.Meets T axis) ∧
    ∀ k, @Angle.turnedBack ℝ T.scalar (@firstAngle ℝ T.scalar a) k ∈ Set.Icc 0 (2 * T.halfTurn) ∧
      @Angle.turnedBack ℝ T.scalar (@lastAngle ℝ T.scalar a) k ∈ Set.Icc 0 (2 * T.halfTurn) := by
  have hT : 0 < 2 * T.halfTurn := by linarith
  constructor
  · refine ⟨_, List.filter_sublist, rfl, fun axis => ?_⟩
    have hall : axis ∈ Axis.all := by cases axis <;> decide
    have hfull : @IsFullCircle ℝ T.scalar a → a.Meets T axis :=
      fun hfull => (h.passes_iff_meets hT axis).1 (.inl hfull)
    rw [List.mem_filter, decide_eq_true_iff, and_iff_right hall, h.passes_iff_meets hT,
      or_iff_right_of_imp hfull]
  · intro k
    obtain ⟨hfirst, hlast⟩ := h.turnedBack_mem hT k
    exact ⟨Set.Ico_subset_Icc_self hfirst, Set.Ico_subset_Icc_self hlast⟩

/-- A half turn that counts as 3. -/
def threes : Trigonometry := ⟨3, fun _ => 0, fun _ => 1, fun _ _ => 0⟩

/-- Clockwise from the top of a circle to its rightmost point. -/
def rightward : Arc ℝ where
  start := ⟨0, 1⟩
  stop := ⟨1, 0⟩
  center := ⟨0, 0⟩
  radius := 1
  sweep := 1.5
  direction := .clockwise
  startAngle := 1.5
  stopAngle := 0

theorem spans_rightward : rightward.Spans threes where
  startAngle_mem := by norm_num [rightward, threes]
  stopAngle_mem := by norm_num [rightward, threes]
  sweep_eq := by
    have hT : (0 : ℝ) < 2 * threes.halfTurn := by norm_num [threes]
    rw [Angle.travelled_eq_toIocMod threes hT]
    have hturn : @Angle.turn ℝ threes.scalar rightward.startAngle rightward.stopAngle
        rightward.direction = 1.5 := sub_zero _
    rw [hturn]
    exact ((toIocMod_eq_self hT).2 (by norm_num [threes, rightward])).symm

/-- An arc is counted counter-clockwise even when it is travelled the other way: the top of the circle
is met, and the rightmost point, from which the count begins, is not. -/
theorem keyPoints_eq_of_meets_rightward : 0 < threes.halfTurn ∧ rightward.Spans threes ∧
    ∃ axes : List Axis, @Segment.keyPoints ℝ threes.scalar (.arc rightward) = ⟨0, 1⟩ :: ⟨1, 0⟩ ::
        axes.map (@Axis.pointFrom ℝ threes.scalar ⟨0, 0⟩ 1) ∧
      Axis.up ∈ axes ∧ Axis.right ∉ axes := by
  have hpos : 0 < threes.halfTurn := by norm_num [threes]
  obtain ⟨⟨axes, -, hpoints, hmem⟩, -⟩ := keyPoints_eq_of_meets threes hpos rightward spans_rightward
  have hfull : ¬ @IsFullCircle ℝ threes.scalar rightward := by
    norm_num [IsFullCircle, Angle.fullTurn_eq, threes, rightward]
  refine ⟨hpos, spans_rightward, axes, hpoints, (hmem _).2 (.inr ⟨3 / 2, ?_, 0, ?_⟩), ?_⟩
  · norm_num [rightward]
  · norm_num [rightward, ccwStart, threes, Axis.quarterTurns]
  · rw [hmem, or_iff_right hfull]
    rintro ⟨t, ⟨hlow, hhigh⟩, n, hn⟩
    simp only [rightward, ccwStart, threes, Axis.quarterTurns] at hhigh hn
    -- no whole number of turns of 6 lies in this quarter
    have hturns : (0 : ℝ) < n ∧ (n : ℝ) < 1 := ⟨by linarith, by linarith⟩
    have hnone : (0 : ℤ) < n ∧ n < 1 := by exact_mod_cast hturns
    omega

end Arc

end

end Photoplot
