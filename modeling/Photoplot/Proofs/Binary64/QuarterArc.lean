import Photoplot.Proofs.Binary64.Arctangent
import Photoplot.Proofs.Binary64.Tolerance

/-!
# Quarter arcs, on doubles

How far an arc turns whose center was found for offsets without signs. The search allows a quarter turn
and as much again as the tolerance is of the radius. As long as the tolerance does not exceed the radius
that is a radian at most; for radii below the tolerance the limit means nothing any more.

* `Angle.quarterTurn_add_le`: **a quarter turn and a radian are at most three radians, rounded or not**;
* `ArcMove.sweep_lt_pi`: **the arc is less than half a circle if the tolerance does not exceed the radius**;
* `ArcMove.IsFinite.fits_of_fullTurn_le`: a limit of a full turn or more rejects nothing;
* `ArcMove.speck`: a finite move for which the search finds a full circle, whatever arctangent is at work,
  as long as it has its documented values on the x axis.
-/

namespace Photoplot

/-! ## Options -/

namespace Options

/-- Options can be had whatever the arctangent is. -/
theorem Built.toFloat {atan2 : Float → Float → Float} {o : Options (Double atan2)} (h : o.Built) :
    @Built Float _ o := by
  induction h with
  | standard => exact .standard
  | withArcTolerance _ accepted ih => exact .withArcTolerance ih accepted
  | withArcRelativeTolerance _ accepted ih => exact .withArcRelativeTolerance ih accepted
  | withPrecision _ accepted ih => exact .withPrecision ih accepted

end Options

/-! ## Limits -/

namespace Angle

open Binary64

theorem isFinite_quarterTurn : IsFinite (quarterTurn : Float) := by decide

/-- One radian more than a quarter turn is less than half a turn. -/
theorem quarterTurn_add_le {t r : Float} (ht : IsFinite t) (hr : IsFinite r) (hnonneg : 0 ≤ t)
    (hpos : 0 < r) (hle : t ≤ r) : quarterTurn + t / r ≤ 3 := by
  have hthree : (3 : Float).toModel.unpack = ofMagnitude .positive (3 * 2 ^ 51) (-51) := rfl
  have hquarter : (quarterTurn : Float).toModel.unpack = ofMagnitude .positive 7074237752028440 (-52) := rfl
  have hlimit : toReal quarterTurn + 1 ≤ toReal 3 := by
    rw [(isFinite_of_unpack hquarter).2, (isFinite_of_unpack hthree).2]
    norm_num [signed, size_eq]
  have ht' := (isFinite_zero.le_iff ht).1 hnonneg
  have hr' := (isFinite_zero.lt_iff hr).1 hpos
  have hle' := (ht.le_iff hr).1 hle
  have hquotient := rounds_div ht hr hr'.ne'
  have hlow : toReal 0 ≤ toReal t / toReal r := div_nonneg ht' hr'.le
  have hhigh : toReal t / toReal r ≤ toReal 1 := toReal_one ▸ div_le_one_of_le₀ hle' hr'.le
  have hfinite := hquotient.isFinite isFinite_zero isFinite_one hlow hhigh
  have hfraction := (hfinite.le_iff isFinite_one).1 ((hquotient _ isFinite_one).1 hhigh)
  rw [toReal_one] at hfraction
  refine (rounds_add isFinite_quarterTurn hfinite 3 (isFinite_of_unpack hthree).1).1 ?_
  linarith

/-- An angle that is not beyond a quarter turn and a radian is less than half a turn. -/
theorem lt_pi_of_not_lt {t r sweep : Float} (ht : IsFinite t) (hr : IsFinite r) (hnonneg : 0 ≤ t)
    (hpos : 0 < r) (hle : t ≤ r) (hturn : sweep ≤ fullTurn)
    (hlimit : ¬ quarterTurn + t / r < sweep) : sweep < Scalar.pi ∧ ¬ fullTurn ≤ sweep := by
  have hsweep := (LawfulBounds.le_self_of_le hturn).1
  have hbound := quarterTurn_add_le ht hr hnonneg hpos hle
  have hsweep' : sweep ≤ 3 := by
    rw [lt_iff_not_le, not_and, not_not] at hlimit
    exact LawfulBounds.le_trans (hlimit ⟨(LawfulBounds.le_self_of_le hbound).1, hsweep⟩) hbound
  have hpi : ¬ (Scalar.pi : Float) ≤ 3 := by decide
  have hfull : ¬ (fullTurn : Float) ≤ 3 := by decide
  refine ⟨(lt_iff_not_le _ _).2 ⟨⟨hsweep, isFinite_pi.1⟩, fun h => ?_⟩, fun h => ?_⟩
  · exact hpi (LawfulBounds.le_trans h hsweep')
  · exact hfull (LawfulBounds.le_trans h hsweep')

/-- No angle travelled is beyond a limit of a full turn or more. -/
theorem not_lt_of_fullTurn_le {limit sweep : Float} (hturn : sweep ≤ fullTurn)
    (hlimit : fullTurn ≤ limit) : ¬ limit < sweep := by
  intro hbeyond
  exact ((lt_iff_not_le _ _).1 hbeyond).2 (LawfulBounds.le_trans hturn hlimit)

end Angle

/-! ## Arcs of moves with magnitudes for offsets -/

namespace ArcMove

variable {atan2 : Float → Float → Float} {o : Options (Double atan2)} {m : ArcMove (Double atan2)}
  {a : Arc (Double atan2)}

/-- Every center that a finite move leaves open has numbers for coordinates. -/
theorem IsFinite.le_self_of_mem_centers (hm : m.IsFinite) {center : Point (Double atan2)}
    (hcenter : center ∈ m.centers) : center.x ≤ center.x ∧ center.y ≤ center.y := by
  -- what is asked of the move does not depend on the arctangent
  have hm' : @IsFinite Float _ m := ⟨hm.start, hm.stop, hm.offsets⟩
  exact hm'.center_le_self hcenter

/-- **When an arc stays near a quarter turn.** Where arcs may not cross quadrants the arc of a finite move
is less than half a circle, and no full one, if the tolerance for its radius does not exceed that
radius. -/
theorem sweep_lt_pi (hatan2 : IsArctangent atan2) (ho : o.Built) (hm : m.IsFinite)
    (h : m.arc? o .single = .ok (some a)) (hradius : Photoplot.IsFinite a.radius) (hpos : 0 < a.radius)
    (htolerance : o.toleranceFor a.radius ≤ a.radius) : a.sweep < Scalar.pi ∧ ¬ a.IsFullCircle := by
  obtain ⟨center, hcenter, ⟨-, hlimit⟩, rfl⟩ := exists_fits_of_quarterArc? h
  obtain ⟨hx, hy⟩ := hm.le_self_of_mem_centers hcenter
  obtain ⟨-, hfull, -⟩ := hm.sweepAt hatan2 hx hy
  have ho' := ho.toFloat
  have hnonneg := ho'.zero_le_toleranceFor (m.radiusAt center)
  have hfinite := Binary64.isFinite_of_le_of_le Binary64.isFinite_zero hradius hnonneg htolerance
  exact Angle.lt_pi_of_not_lt hfinite hradius hnonneg hpos htolerance hfull hlimit

/-- A quarter of a circle around the origin. -/
def quarter : ArcMove (Double compass) where
  start := ⟨(10 : Float), (0 : Float)⟩
  stop := ⟨(0 : Float), (10 : Float)⟩
  offsets := ⟨(10 : Float), (0 : Float)⟩
  direction := .counterclockwise

theorem quarter_isFinite : quarter.IsFinite where
  start := by decide
  stop := by decide
  offsets := by decide

/-- The origin is the center that fits the quarter of a circle. -/
theorem exists_quarterArc?_quarter : ∃ a, quarter.quarterArc? .standard = .ok (some a) := by
  have horigin : quarter.start.displaced ⟨-Scalar.abs quarter.offsets.i, Scalar.abs quarter.offsets.j⟩ ∈
      quarter.centers := List.mem_cons_of_mem _ (List.mem_cons_self ..)
  exact exists_quarterArc?_of_fits (by decide +kernel) (by decide +kernel) horigin (by decide +kernel)

/-- The quarter of a circle is less than half of one. -/
theorem sweep_lt_pi_quarter : IsArctangent compass ∧ quarter.IsFinite ∧
    ∃ a, quarter.arc? .standard .single = .ok (some a) ∧ Photoplot.IsFinite a.radius ∧ 0 < a.radius ∧
      Options.standard.toleranceFor a.radius ≤ a.radius ∧ a.sweep < Scalar.pi ∧ ¬ a.IsFullCircle := by
  obtain ⟨a, ha⟩ := exists_quarterArc?_quarter
  have hradii : ∀ center ∈ quarter.centers, Photoplot.IsFinite (quarter.radiusAt center) ∧
      0 < quarter.radiusAt center ∧
        (Options.standard : Options (Double compass)).arcTolerance ≤ quarter.radiusAt center := by
    decide +kernel
  obtain ⟨center, hcenter, -, rfl⟩ := exists_fits_of_quarterArc? ha
  obtain ⟨hfinite, hpos, hlength⟩ := hradii center hcenter
  have htolerance : Options.standard.toleranceFor (quarter.radiusAt center) ≤ quarter.radiusAt center :=
    Options.Built.standard.toleranceFor_le hfinite hlength (by decide)
  exact ⟨isArctangent_compass, quarter_isFinite, _, ha, hfinite, hpos, htolerance,
    sweep_lt_pi isArctangent_compass .standard quarter_isFinite ha hfinite hpos htolerance⟩

/-- A limit of a full turn or more rejects no center. -/
theorem IsFinite.fits_of_fullTurn_le (hatan2 : IsArctangent atan2) (hm : m.IsFinite)
    {center : Point (Double atan2)} (hcenter : center ∈ m.centers)
    (hmismatch : ¬ o.toleranceFor (m.radiusAt center) < m.mismatchAt center)
    (hlimit : Angle.fullTurn ≤
      Angle.quarterTurn + o.toleranceFor (m.radiusAt center) / m.radiusAt center) :
    m.Fits o center := by
  obtain ⟨hx, hy⟩ := hm.le_self_of_mem_centers hcenter
  obtain ⟨-, hfull, -⟩ := hm.sweepAt hatan2 hx hy
  exact ⟨hmismatch, Angle.not_lt_of_fullTurn_le hfull hlimit⟩

/-- A move straight away from every center that its offsets leave open, on a scale at which the
standard tolerance exceeds all distances. -/
def speck (atan2 : Float → Float → Float) : ArcMove (Double atan2) where
  start := ⟨(0 : Float), (0 : Float)⟩
  stop := ⟨(-3.814697265625e-6 : Float), (0 : Float)⟩
  offsets := ⟨(7.62939453125e-6 : Float), (0 : Float)⟩
  direction := .counterclockwise

section Speck

-- as for every move, coordinates, distances and limits do not depend on the arctangent

variable (atan2)

theorem speck_isFinite : (speck atan2).IsFinite where
  start := (by decide : (speck compass).start.IsFinite)
  stop := (by decide : (speck compass).stop.IsFinite)
  offsets := (by decide : (speck compass).offsets.IsFinite)

theorem not_coincide_speck : ¬ (speck atan2).start.Coincide (speck atan2).stop :=
  (by decide : ¬ (speck compass).start.Coincide (speck compass).stop)

theorem not_vanish_speck : ¬ (speck atan2).offsets.Vanish :=
  (by decide : ¬ (speck compass).offsets.Vanish)

/-- Both ends lie on one side of each center. -/
theorem onOneSide_speck : ∀ center ∈ (speck atan2).centers,
    center.OnOneSide (speck atan2).start (speck atan2).stop :=
  (by decide +kernel : ∀ center ∈ (speck compass).centers,
    center.OnOneSide (speck compass).start (speck compass).stop)

/-- The distances of each center from both ends agree up to the tolerance, and the limit for the turn around
it lies beyond a full one. -/
theorem limit_speck : ∀ center ∈ (speck atan2).centers,
    ¬ Options.standard.toleranceFor ((speck atan2).radiusAt center) < (speck atan2).mismatchAt center ∧
      Angle.fullTurn ≤ Angle.quarterTurn +
        Options.standard.toleranceFor ((speck atan2).radiusAt center) / (speck atan2).radiusAt center :=
  (by decide +kernel : ∀ center ∈ (speck compass).centers,
    ¬ Options.standard.toleranceFor ((speck compass).radiusAt center) < (speck compass).mismatchAt center ∧
      Angle.fullTurn ≤ Angle.quarterTurn +
        Options.standard.toleranceFor ((speck compass).radiusAt center) / (speck compass).radiusAt center)

end Speck

/-- Not every arc of a move with magnitudes for offsets is less than half a circle, and not even less
than a full one. So it is with every arctangent that has its documented values on the x axis; `compass` is
one of them. -/
theorem not_forall_sweep_lt_pi :
    (IsArctangent compass ∧ IsExactOnAxis compass) ∧
    ∀ atan2 : Float → Float → Float, IsArctangent atan2 → IsExactOnAxis atan2 →
      ¬ ∀ (o : Options (Double atan2)) (m : ArcMove (Double atan2)) (a : Arc (Double atan2)),
        o.Built → m.IsFinite → m.arc? o .single = .ok (some a) →
          a.sweep < Scalar.pi ∧ ¬ a.IsFullCircle := by
  refine ⟨⟨isArctangent_compass, isExactOnAxis_compass⟩, ?_⟩
  intro atan2 hatan2 haxis h
  have hm := speck_isFinite atan2
  have hfits : ∀ center ∈ (speck atan2).centers, (speck atan2).Fits .standard center := by
    intro center hcenter
    obtain ⟨hmismatch, hlimit⟩ := limit_speck atan2 center hcenter
    exact hm.fits_of_fullTurn_le hatan2 hcenter hmismatch hlimit
  obtain ⟨a, ha⟩ := exists_quarterArc?_of_fits (not_coincide_speck atan2) (not_vanish_speck atan2)
    (List.mem_cons_self ..) (hfits _ (List.mem_cons_self ..))
  obtain ⟨center, hcenter, -, rfl⟩ := exists_fits_of_quarterArc? ha
  obtain ⟨hx, hy⟩ := hm.le_self_of_mem_centers hcenter
  have hangle := haxis.angleFrom_eq (onOneSide_speck atan2 center hcenter)
  exact (h .standard (speck atan2) _ .standard hm ha).2 (hm.fullTurn_le_sweepAt hatan2 hx hy hangle)

end ArcMove

end Photoplot
