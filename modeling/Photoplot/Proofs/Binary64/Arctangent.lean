import Photoplot.Proofs.Binary64.Turn

/-!
# Arctangents

Angles of points, on doubles. They are arctangents, which are not worked out from the arithmetic of
doubles, so the arctangent is left open here, apart from the interval in which its values lie and, where
they are asked for, its values on the x axis.

* `Double`: doubles with an arctangent of one's choice;
* `IsArctangent`: arctangents whose values lie within half a turn of the positive x axis;
* `IsExactOnAxis`: arctangents that are exact on that axis and nearest to exact on the negative one;
* `compass`: one that tells four directions apart;
* `ArcMove.IsFinite.isPrincipal_angleFrom`: the angles at which the ends of a finite move are seen;
* `ArcMove.IsFinite.sweepAt`: **a finite move turns by more than nothing and at most by a full turn.**
-/

namespace Photoplot

/-- Doubles that come with an arctangent. -/
def Double (_atan2 : Float → Float → Float) : Type := Float

namespace Double

variable {atan2 : Float → Float → Float}

instance : Scalar (Double atan2) :=
  show Scalar Float from { (inferInstance : Scalar Float) with atan2 := atan2 }

instance : DecidableEq (Double atan2) :=
  inferInstanceAs (DecidableEq Float)

/-- With the arctangent of the plotter they are the numbers that it runs on. -/
theorem scalar_atan2 : (inferInstance : Scalar (Double Float.atan2)) = (inferInstance : Scalar Float) :=
  rfl

end Double

/-- What is relied on of an arctangent: of numbers it is an angle within half a turn of the positive x
axis. -/
def IsArctangent (atan2 : Float → Float → Float) : Prop :=
  ∀ y x : Float, y ≤ y → x ≤ x → Angle.IsPrincipal (atan2 y x)

/-- The documented values of an arctangent on the x axis: nothing on the positive half, half a turn on the
negative one. -/
structure IsExactOnAxis (atan2 : Float → Float → Float) : Prop where
  /-- The positive half is seen straight ahead. -/
  right : ∀ x : Float, 0 < x → atan2 0 x = 0
  /-- The negative half is seen half a turn away. -/
  left : ∀ x : Float, x < 0 → atan2 0 x = Scalar.pi

/-- The direction of a vector to the nearest quarter turn, the positive x axis being the first. Along the
axes it is the arctangent. -/
def compass (y x : Float) : Float :=
  if Scalar.abs y ≤ Scalar.abs x then
    if 0 ≤ x then 0 else Scalar.pi
  else if 0 ≤ y then Angle.quarterTurn else -Angle.quarterTurn

theorem isArctangent_compass : IsArctangent compass := by
  intro y x _ _
  unfold compass
  split_ifs <;> decide

theorem isExactOnAxis_compass : IsExactOnAxis compass := by
  have hflat : ∀ {x : Float}, x ≤ x → Scalar.abs (0 : Float) ≤ Scalar.abs x := by
    intro x hx
    exact (show Scalar.abs (0 : Float) = 0 by decide) ▸ Binary64.zero_le_abs hx
  constructor
  case right =>
    intro x hpos
    obtain ⟨⟨hzero, hx⟩, hle⟩ := (Binary64.lt_iff_not_le _ _).1 hpos
    rw [compass, if_pos (hflat hx), if_pos ((LawfulBounds.le_or_le hzero hx).resolve_right hle)]
  case left =>
    intro x hneg
    obtain ⟨⟨hx, -⟩, hle⟩ := (Binary64.lt_iff_not_le _ _).1 hneg
    rw [compass, if_pos (hflat hx), if_neg hle]

/-! ## Points in line with a center -/

/-- Two points on one side of a center, in line with it along the x axis. -/
def Point.OnOneSide {α : Type} [Scalar α] (center p q : Point α) : Prop :=
  p.y - center.y = 0 ∧ q.y - center.y = 0 ∧
    (0 < p.x - center.x ∧ 0 < q.x - center.x ∨ p.x - center.x < 0 ∧ q.x - center.x < 0)

instance {α : Type} [Scalar α] [DecidableEq α] (center p q : Point α) :
    Decidable (center.OnOneSide p q) :=
  inferInstanceAs (Decidable (_ ∧ _))

namespace IsExactOnAxis

variable {atan2 : Float → Float → Float} {center p q : Point (Double atan2)}

theorem angleFrom_right (h : IsExactOnAxis atan2) (hy : p.y - center.y = 0)
    (hx : 0 < p.x - center.x) : center.angleFrom p = 0 := by
  show atan2 (p.y - center.y) (p.x - center.x) = 0
  rw [hy]
  exact h.right _ hx

theorem angleFrom_left (h : IsExactOnAxis atan2) (hy : p.y - center.y = 0)
    (hx : p.x - center.x < 0) : center.angleFrom p = Scalar.pi := by
  show atan2 (p.y - center.y) (p.x - center.x) = Scalar.pi
  rw [hy]
  exact h.left _ hx

/-- Points on one side of a center are seen from it at one angle. -/
theorem angleFrom_eq (h : IsExactOnAxis atan2) (hside : center.OnOneSide p q) :
    center.angleFrom p = center.angleFrom q := by
  obtain ⟨hp, hq, ⟨hpx, hqx⟩ | ⟨hpx, hqx⟩⟩ := hside
  · exact (h.angleFrom_right hp hpx).trans (h.angleFrom_right hq hqx).symm
  · exact (h.angleFrom_left hp hpx).trans (h.angleFrom_left hq hqx).symm

end IsExactOnAxis

namespace ArcMove

variable {atan2 : Float → Float → Float} {m : ArcMove (Double atan2)} {center : Point (Double atan2)}

/-- The ends of a finite move are seen from a center at angles within half a turn of the positive x
axis. -/
theorem IsFinite.isPrincipal_angleFrom (hatan2 : IsArctangent atan2) (hm : m.IsFinite)
    (hx : center.x ≤ center.x) (hy : center.y ≤ center.y) :
    Angle.IsPrincipal (center.angleFrom m.start) ∧ Angle.IsPrincipal (center.angleFrom m.stop) := by
  have hsub : ∀ {p q : Float}, Photoplot.IsFinite p → q ≤ q → p - q ≤ p - q :=
    fun hp hq => hp.sub_le_self hq
  exact ⟨hatan2 _ _ (hsub hm.start.2 hy) (hsub hm.start.1 hx),
    hatan2 _ _ (hsub hm.stop.2 hy) (hsub hm.stop.1 hx)⟩

/-- **How far a finite move turns.** Around a center whose coordinates are numbers a finite move turns by
more than nothing and at most by a full turn, and by a full one exactly when the turn between its ends
is taken for one. -/
theorem IsFinite.sweepAt (hatan2 : IsArctangent atan2) (hm : m.IsFinite)
    (hx : center.x ≤ center.x) (hy : center.y ≤ center.y) :
    0 < m.sweepAt center ∧ m.sweepAt center ≤ Angle.fullTurn ∧
      (Angle.fullTurn ≤ m.sweepAt center ↔
        Angle.IsClosing (Angle.turn (center.angleFrom m.start) (center.angleFrom m.stop) m.direction)) := by
  obtain ⟨hstart, hstop⟩ := hm.isPrincipal_angleFrom hatan2 hx hy
  exact Angle.travelled_of_isPrincipal hstart hstop m.direction

/-- A finite move turns by a full turn when both its ends are seen at one angle. -/
theorem IsFinite.fullTurn_le_sweepAt (hatan2 : IsArctangent atan2) (hm : m.IsFinite)
    (hx : center.x ≤ center.x) (hy : center.y ≤ center.y)
    (hangle : center.angleFrom m.start = center.angleFrom m.stop) :
    Angle.fullTurn ≤ m.sweepAt center := by
  obtain ⟨hstart, -⟩ := hm.isPrincipal_angleFrom hatan2 hx hy
  rw [(hm.sweepAt hatan2 hx hy).2.2, ← hangle]
  exact Angle.isClosing_turn_self hstart m.direction

end ArcMove

end Photoplot
