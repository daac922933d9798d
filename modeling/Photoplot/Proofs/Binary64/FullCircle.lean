import Photoplot.Proofs.Binary64.Arctangent
import Photoplot.Proofs.Options

/-!
# Full circles, on doubles

Which moves draw full circles. Ends that count as one point are asked for first. For other ends the
angle travelled decides, and it is a full turn, too, when the ends are seen at one angle: when one lies
behind the other, or when the move is so short that rounding makes one angle of two.

* `ArcMove.isFullCircle_iff`: **a finite move draws a full circle exactly when its ends count as one point
  or the turn between them is taken for a full one**;
* `ArcMove.whisker`: a short finite move along a circle that draws all of it, whatever arctangent is at
  work, as long as it has its documented values on the x axis and rounds well at the end of the move.
-/

namespace Photoplot

namespace ArcMove

variable {atan2 : Float → Float → Float} {m : ArcMove (Double atan2)}

/-- The center that signed offsets of a finite move locate has numbers for coordinates. -/
theorem IsFinite.signedCenter_le_self (hm : m.IsFinite) :
    m.signedCenter.x ≤ m.signedCenter.x ∧ m.signedCenter.y ≤ m.signedCenter.y := by
  have hadd : ∀ {p q : Float}, Photoplot.IsFinite p → q ≤ q → p + q ≤ p + q :=
    fun hp hq => hp.add_le_self hq
  exact ⟨hadd hm.start.1 hm.offsets.1.1, hadd hm.start.2 hm.offsets.2.1⟩

/-- **When a move draws a full circle.** Where arcs may cross quadrants a finite move draws a full circle
exactly when its ends count as one point or the turn between them, as seen from the center, is taken for
a full one. -/
theorem isFullCircle_iff (hatan2 : IsArctangent atan2) (hm : m.IsFinite) (o : Options (Double atan2))
    {a : Arc (Double atan2)} (h : m.arc? o .multi = .ok (some a)) :
    a.IsFullCircle ↔ m.start.Coincide m.stop ∨
      Angle.IsClosing (Angle.turn a.startAngle a.stopAngle a.direction) := by
  have hsigned : m.signedArc? = some a := Except.ok.inj h
  obtain ⟨hx, hy⟩ := hm.signedCenter_le_self
  unfold signedArc? at hsigned
  split_ifs at hsigned with hradius hends
  · cases hsigned
    exact iff_of_true Angle.isFinite_fullTurn.1 (.inl hends)
  · cases hsigned
    rw [or_iff_right hends]
    exact (hm.sweepAt hatan2 hx hy).2.2

/-- A step off the x axis along a circle around the origin, too short to change the angle. -/
def whisker (atan2 : Float → Float → Float) : ArcMove (Double atan2) where
  start := ⟨(-16777216 : Float), (0 : Float)⟩
  stop := ⟨(-16777216 : Float), (1.862645149230957e-9 : Float)⟩
  offsets := ⟨(16777216 : Float), (0 : Float)⟩
  direction := .clockwise

section Whisker

-- coordinates and distances do not depend on the arctangent, so they are looked at for one of them

variable (atan2)

theorem whisker_isFinite : (whisker atan2).IsFinite where
  start := (by decide : (whisker compass).start.IsFinite)
  stop := (by decide : (whisker compass).stop.IsFinite)
  offsets := (by decide : (whisker compass).offsets.IsFinite)

theorem not_coincide_whisker : ¬ (whisker atan2).start.Coincide (whisker atan2).stop :=
  (by decide : ¬ (whisker compass).start.Coincide (whisker compass).stop)

theorem arc?_whisker (o : Options (Double atan2)) : (whisker atan2).arc? o .multi = .ok (some
    ((whisker atan2).arcAt (whisker atan2).signedCenter
      ((whisker atan2).sweepAt (whisker atan2).signedCenter))) := by
  have hradius : ¬ (whisker atan2).radiusAt (whisker atan2).signedCenter ≤ Point.tolerance :=
    (by decide +kernel : ¬ (whisker compass).radiusAt (whisker compass).signedCenter ≤ Point.tolerance)
  rw [arc?, signedArc?, if_neg hradius, if_neg (not_coincide_whisker atan2)]

/-- The step stays on its circle. -/
theorem mismatch?_whisker (sweep : Double atan2) :
    ((whisker atan2).arcAt (whisker atan2).signedCenter sweep).mismatch? .standard = none := by
  rw [Arc.mismatch?_eq_none_iff]
  exact (by decide +kernel :
    (whisker compass).mismatchAt (whisker compass).signedCenter ≤
      Options.standard.toleranceFor ((whisker compass).radiusAt (whisker compass).signedCenter))

end Whisker

/-- Rounding makes one angle of two. The step starts where it is seen half a turn from the positive x axis
and ends `2⁻⁵³` short of that, and both angles have the same nearest double. -/
theorem angleFrom_whisker (haxis : IsExactOnAxis atan2)
    (hend : atan2 1.862645149230957e-9 (-16777216) = Scalar.pi) :
    (whisker atan2).signedCenter.angleFrom (whisker atan2).start =
      (whisker atan2).signedCenter.angleFrom (whisker atan2).stop := by
  -- neither the center nor the vectors from it are rounded
  have hx : (-16777216 - (-16777216 + 16777216) : Float) = -16777216 := by decide
  have hflat : (0 - (0 + 0) : Float) = 0 := by decide
  have hy : (1.862645149230957e-9 - (0 + 0) : Float) = 1.862645149230957e-9 := by decide
  have hstart : atan2 (0 - (0 + 0)) (-16777216 - (-16777216 + 16777216)) = Scalar.pi := by
    rw [hx, hflat]
    exact haxis.left (-16777216) (by decide)
  have hstop : atan2 (1.862645149230957e-9 - (0 + 0)) (-16777216 - (-16777216 + 16777216)) = Scalar.pi := by
    rw [hx, hy, hend]
  exact hstart.trans hstop.symm

/-- The step turns nowhere, so it draws a full circle. -/
theorem isFullCircle_iff_whisker : IsArctangent compass ∧ (whisker compass).IsFinite ∧
    ∃ a, (whisker compass).arc? .standard .multi = .ok (some a) ∧ a.IsFullCircle := by
  have harc := arc?_whisker compass .standard
  refine ⟨isArctangent_compass, whisker_isFinite compass, _, harc, ?_⟩
  rw [isFullCircle_iff isArctangent_compass (whisker_isFinite compass) .standard harc]
  exact .inr (by decide +kernel)

/-- Not every move that draws a full circle has ends that count as one point, even if both lie on the
circle. So it is with every arctangent that has its documented values on the x axis and gives the double
nearest to the angle at which the step ends; `compass` is one of them. -/
theorem not_forall_isFullCircle_iff_coincide :
    (IsArctangent compass ∧ IsExactOnAxis compass ∧
      compass 1.862645149230957e-9 (-16777216) = Scalar.pi) ∧
    ∀ atan2 : Float → Float → Float, IsArctangent atan2 → IsExactOnAxis atan2 →
      atan2 1.862645149230957e-9 (-16777216) = Scalar.pi →
        ¬ ∀ (o : Options (Double atan2)) (m : ArcMove (Double atan2)) (a : Arc (Double atan2)),
          o.Built → m.IsFinite → m.arc? o .multi = .ok (some a) → a.mismatch? o = none →
            (a.IsFullCircle ↔ m.start.Coincide m.stop) := by
  refine ⟨⟨isArctangent_compass, isExactOnAxis_compass, by decide⟩, ?_⟩
  intro atan2 hatan2 haxis hend h
  have hm := whisker_isFinite atan2
  obtain ⟨hx, hy⟩ := hm.signedCenter_le_self
  have hfull : ((whisker atan2).arcAt (whisker atan2).signedCenter
      ((whisker atan2).sweepAt (whisker atan2).signedCenter)).IsFullCircle :=
    hm.fullTurn_le_sweepAt hatan2 hx hy (angleFrom_whisker haxis hend)
  have hiff := h .standard (whisker atan2) _ .standard hm (arc?_whisker atan2 .standard)
    (mismatch?_whisker atan2 _)
  exact not_coincide_whisker atan2 (hiff.1 hfull)

end ArcMove

end Photoplot
