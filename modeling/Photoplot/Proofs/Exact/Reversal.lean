import Photoplot.Proofs.Exact.Coherence
import Photoplot.Proofs.Reversal

/-!
# Moves made backwards

The angle travelled between two angles obeys the laws of turning on a circle, whatever multiples of a
full turn the angles come with. A move made backwards, around the same center and in the other
direction, therefore travels as far as the move itself; and where both of its ends lie at one distance
from the center it draws the arc of the move, travelled backwards.

* `ArcMove.reversed`: a move made backwards, around the same center;
* `ArcMove.arcAt_reversed`: around a center at one distance from both ends it has the arc of the move,
  reversed;
* `ArcMove.signedArc?_reversed`: **it draws that arc, and nothing where the move draws nothing**;
* `Segment.extent_reversed`: a segment and its reverse have one box;
* `Angle.travelled_laws`: **the laws of the travelled angle, and of moves made backwards.**
-/

namespace Photoplot

noncomputable section

open Real

/-! ## Boxes -/

/-- On a line whose bounds are told apart, boxes whose bounds are the same numbers are equal. -/
theorem Box.eq_of_same {β : Type} [PartialOrder β] {a b : Box β} (h : a.Same b) : a = b :=
  eq_of_bound_eq fun axis => le_antisymm ((same_iff a b).1 h axis).1 ((same_iff a b).1 h axis).2

/-- A segment and its reverse have one box. -/
theorem Segment.extent_reversed (s : Segment ℝ) (penRadius : ℝ) :
    (extent [s.reversed] penRadius : Box EReal) = extent [s] penRadius := by
  have hcourse : SameCourse [s.reversed] [s] := by
    constructor <;> simp
  exact Box.eq_of_same (hcourse.same_extent penRadius)

/-! ## Moves -/

namespace ArcMove

/-- A move made backwards: from its end to its start, in the other direction and with the offsets that
locate the same center. -/
def reversed (m : ArcMove ℝ) : ArcMove ℝ where
  start := m.stop
  stop := m.start
  offsets := ⟨m.signedCenter.x - m.stop.x, m.signedCenter.y - m.stop.y⟩
  direction := m.direction.opposite

variable (m : ArcMove ℝ)

@[simp] theorem signedCenter_reversed : m.reversed.signedCenter = m.signedCenter :=
  signedCenter_eq _ _ _ _

/-- Around any center a move made backwards turns as far. -/
theorem sweepAt_reversed (center : Point ℝ) : m.reversed.sweepAt center = m.sweepAt center :=
  Angle.travelled_opposite _ _ _

section Matching

variable {m} {center : Point ℝ} (h : m.stop.distance center = m.radiusAt center)

include h

/-- Around a center at one distance from both ends a move made backwards has the same radius. -/
theorem radiusAt_reversed : m.reversed.radiusAt center = m.radiusAt center := h

/-- Around such a center an arc of a move made backwards is one of the move, travelled backwards. -/
theorem arcAt_reversed (sweep : ℝ) :
    m.reversed.arcAt center sweep = (m.arcAt center sweep).reversed := by
  unfold arcAt
  rw [radiusAt_reversed h]
  rfl

end Matching

variable {m}

/-- **A move made backwards draws its arc backwards.** Where both ends of a move lie at one distance
from its center, the move made backwards draws the reversed arc; it draws none exactly where the move
draws none. -/
theorem signedArc?_reversed (h : m.stop.distance m.signedCenter = m.radiusAt m.signedCenter) :
    m.reversed.signedArc? = m.signedArc?.map Arc.reversed := by
  have hends : m.reversed.start.Coincide m.reversed.stop ↔ m.start.Coincide m.stop := by
    simp only [Point.Coincide, reversed, abs_real, abs_sub_comm]
  unfold signedArc?
  simp only [signedCenter_reversed, radiusAt_reversed h, sweepAt_reversed, arcAt_reversed h, hends]
  split_ifs <;> rfl

/-- A move around the center located by signed offsets draws an arc unless its radius counts as none. -/
theorem signedArc?_eq_none_iff {α : Type} [Scalar α] (m : ArcMove α) :
    m.signedArc? = none ↔ m.radiusAt m.signedCenter ≤ Point.tolerance := by
  unfold signedArc?
  split
  · rename_i hradius
    exact iff_of_true rfl hradius
  · rename_i hradius
    refine iff_of_false ?_ hradius
    split <;> exact Option.some_ne_none _

end ArcMove

/-! ## Laws of the travelled angle -/

namespace Angle

/-- **The laws of the travelled angle.** Whatever two angles are, the angle travelled from one to the
other counter-clockwise is positive and at most a full turn, and it leads there. Made backwards, a move
travels the same angle. Between angles that do not differ by full turns the two directions share a full
turn, between others each of them takes a full one, and full turns added to the angles change nothing.

So a move whose ends lie at one distance from its center, and the move made backwards around that
center, draw one arc in opposite directions, with the same center, radius, sweep and box, or both draw
nothing because their radius counts as none. -/
theorem travelled_laws :
    (∀ a b : ℝ, travelled a b .counterclockwise ∈ Set.Ioc 0 (2 * π) ∧
      a + travelled a b .counterclockwise ≡ b [PMOD 2 * π]) ∧
    (∀ (a b : ℝ) (d : Direction), travelled a b d = travelled b a d.opposite) ∧
    (∀ a b : ℝ, ¬ a ≡ b [PMOD 2 * π] →
      travelled a b .counterclockwise + travelled a b .clockwise = 2 * π) ∧
    (∀ a b : ℝ, a ≡ b [PMOD 2 * π] →
      travelled a b .counterclockwise = 2 * π ∧ travelled a b .clockwise = 2 * π) ∧
    (∀ (a b : ℝ) (m n : ℤ) (d : Direction),
      travelled (a + m * (2 * π)) (b + n * (2 * π)) d = travelled a b d) ∧
    ∀ (o : Options ℝ) (m : ArcMove ℝ),
      m.stop.distance m.signedCenter = m.start.distance m.signedCenter →
      ∃ arc : Option (Arc ℝ), m.arc? o .multi = .ok arc ∧
        m.reversed.arc? o .multi = .ok (arc.map Arc.reversed) ∧
        (arc = none ↔ m.start.distance m.signedCenter ≤ Point.tolerance) ∧
        ∀ a ∈ arc, a.reversed.center = a.center ∧ a.reversed.radius = a.radius ∧
          a.reversed.sweep = a.sweep ∧
          ∀ penRadius, (Segment.extent [.arc a.reversed] penRadius : Box EReal) =
            Segment.extent [.arc a] penRadius := by
  refine ⟨?_, ?_, ?_, ?_, ?_, ?_⟩
  · intro a b
    exact ⟨travelled_mem a b _, add_travelled_modEq Trigonometry.standard two_pi_pos a b⟩
  · intro a b d
    exact (travelled_opposite a b d).symm
  · intro a b h
    exact travelled_add_travelled_opposite Trigonometry.standard two_pi_pos h .counterclockwise
  · intro a b h
    have hfull := fun d => (travelled_eq_fullTurn_iff Trigonometry.standard two_pi_pos a b d).2 h
    exact ⟨hfull _, hfull _⟩
  · intro a b m n d
    exact travelled_add_int_mul Trigonometry.standard two_pi_pos a b m n d
  · intro o m h
    refine ⟨m.signedArc?, rfl, ?_, m.signedArc?_eq_none_iff, ?_⟩
    · exact congrArg Except.ok (ArcMove.signedArc?_reversed h)
    · intro a _
      exact ⟨rfl, rfl, rfl, Segment.extent_reversed (.arc a)⟩

/-- The long way round the origin, clockwise from (1, 1) to (-1, 1). -/
def longWay : ArcMove ℝ := ⟨⟨1, 1⟩, ⟨-1, 1⟩, ⟨-1, -1⟩, .clockwise⟩

/-- Angles more than a turn apart that differ by full turns or do not, and the long way round, which is
drawn both ways. -/
theorem travelled_laws_longWay :
    ¬ π / 2 ≡ -(3 * π) [PMOD 2 * π] ∧
    travelled (π / 2) (-(3 * π)) .counterclockwise + travelled (π / 2) (-(3 * π)) .clockwise =
      2 * π ∧
    5 * π ≡ -π [PMOD 2 * π] ∧ travelled (5 * π) (-π) .clockwise = 2 * π ∧
    longWay.stop.distance longWay.signedCenter = longWay.start.distance longWay.signedCenter ∧
    ∃ a, longWay.arc? Options.standard .multi = .ok (some a) ∧
      longWay.reversed.arc? Options.standard .multi = .ok (some a.reversed) := by
  obtain ⟨-, -, hshared, hfull, -, hback⟩ := travelled_laws
  have happart : ¬ π / 2 ≡ -(3 * π) [PMOD 2 * π] := by
    rw [AddCommGroup.modEq_iff_eq_add_zsmul]
    rintro ⟨n, hn⟩
    rw [zsmul_eq_mul] at hn
    -- they are seven quarters of a turn apart
    have hquarters : (4 * n + 7 : ℝ) = 0 := by
      refine (mul_eq_zero.1 ?_).resolve_left pi_ne_zero
      linarith
    have hwhole : 4 * n + 7 = 0 := by exact_mod_cast hquarters
    omega
  have hturns : 5 * π ≡ -π [PMOD 2 * π] :=
    AddCommGroup.modEq_iff_eq_add_zsmul.2 ⟨-3, by rw [zsmul_eq_mul]; push_cast; ring⟩
  have hcenter : longWay.signedCenter = ⟨0, 0⟩ := by
    simp [longWay, ArcMove.signedCenter, Point.displaced]
  have hradius : 1 ≤ longWay.start.distance longWay.signedCenter := by
    rw [hcenter]
    simpa [longWay] using longWay.start.abs_x_sub_le_distance ⟨0, 0⟩
  have hcircle : longWay.stop.distance longWay.signedCenter =
      longWay.start.distance longWay.signedCenter := by
    rw [hcenter, Point.distance_eq_distance_iff]
    norm_num [longWay]
  refine ⟨happart, hshared _ _ happart, hturns, (hfull _ _ hturns).2, hcircle, ?_⟩
  obtain ⟨arc, hthere, hreversed, hnone, -⟩ := hback Options.standard longWay hcircle
  cases arc with
  | none => linarith [hnone.1 rfl, hradius, tolerance_lt_one]
  | some a => exact ⟨a, hthere, hreversed⟩

end Angle

end

end Photoplot
