import Photoplot.Proofs.Binary64

/-!
# Segments travelled backwards

A segment travelled backwards starts where it ended, and an arc turns the other way between the same
angles. It reaches as far as before, so the box of a list of segments is that of the course they
take: neither their order, nor how often each is repeated, nor the way it is travelled matters. This
holds of any fields, whether they agree with each other and are numbers or not.

* `Segment.reversed`: a segment travelled backwards;
* `Arc.passes_reversed_iff`: both ways an arc passes the same points of its circle;
* `Segment.SameCourse`: lists that hold the same segments, either way;
* `Segment.extent_of_sameCourse`: **the box of a list of segments depends on their course alone**, its
  sides are numbers, and it is the union of the boxes of its parts.
-/

namespace Photoplot

section Reversed

variable {α : Type}

/-! ## Segments -/

/-- A line travelled backwards. -/
def Line.reversed (l : Line α) : Line α := ⟨l.stop, l.start⟩

/-- An arc travelled backwards: the same arc of the same circle in the other direction. -/
def Arc.reversed (a : Arc α) : Arc α :=
  { a with
    start := a.stop
    stop := a.start
    direction := a.direction.opposite
    startAngle := a.stopAngle
    stopAngle := a.startAngle }

@[simp] theorem Arc.reversed_reversed (a : Arc α) : a.reversed.reversed = a := by
  simp [reversed]

namespace Segment

/-- A segment travelled backwards. -/
def reversed : Segment α → Segment α
  | line l => line l.reversed
  | arc a => arc a.reversed

@[simp] theorem reversed_reversed (s : Segment α) : s.reversed.reversed = s := by
  cases s with
  | line l => rfl
  | arc a => exact congrArg arc a.reversed_reversed

/-- Lists that hold the same segments, in any order, each any number of times and travelled either
way. -/
def SameCourse (segments others : List (Segment α)) : Prop :=
  (∀ s ∈ segments, s ∈ others ∨ s.reversed ∈ others) ∧
    ∀ s ∈ others, s ∈ segments ∨ s.reversed ∈ segments

theorem SameCourse.symm {segments others : List (Segment α)} (h : SameCourse segments others) :
    SameCourse others segments := ⟨h.2, h.1⟩

end Segment

end Reversed

/-! ## Key points -/

section KeyPoints

variable {α : Type} [Scalar α]

namespace Arc

variable (a : Arc α)

/-- The end from which an arc runs counter-clockwise is the same one when it is travelled backwards. -/
theorem firstAngle_reversed : a.reversed.firstAngle = a.firstAngle := by
  cases h : a.direction <;> simp [firstAngle, reversed, h, Direction.opposite]

/-- So is the end to which it runs counter-clockwise. -/
theorem lastAngle_reversed : a.reversed.lastAngle = a.lastAngle := by
  cases h : a.direction <;> simp [lastAngle, reversed, h, Direction.opposite]

/-- Both ways an arc passes the same points of its circle. -/
theorem passes_reversed_iff (axis : Axis) : a.reversed.Passes axis ↔ a.Passes axis := by
  rw [Passes, firstAngle_reversed, lastAngle_reversed]
  exact Iff.rfl

theorem axisPoints_reversed : a.reversed.axisPoints = a.axisPoints := by
  simp only [axisPoints, passes_reversed_iff]
  rfl

end Arc

namespace Segment

/-- Both ways a segment has the same key points. -/
theorem mem_keyPoints_reversed_iff (s : Segment α) (p : Point α) :
    p ∈ s.reversed.keyPoints ↔ p ∈ s.keyPoints := by
  cases s with
  | line l =>
    simp only [reversed, keyPoints, Line.reversed, List.mem_cons, List.not_mem_nil, or_false]
    exact or_comm
  | arc a =>
    simp only [reversed, keyPoints, Arc.axisPoints_reversed, List.mem_cons]
    exact or_left_comm

variable {segments others : List (Segment α)}

/-- What is a key point in one list is one in every list of the same course. -/
theorem SameCourse.mem_keyPoints (h : SameCourse segments others) {p : Point α}
    (hp : p ∈ segments.flatMap keyPoints) : p ∈ others.flatMap keyPoints := by
  obtain ⟨s, hs, hp⟩ := List.mem_flatMap.1 hp
  rcases h.1 s hs with hsame | hback
  · exact List.mem_flatMap.2 ⟨s, hsame, hp⟩
  · exact List.mem_flatMap.2 ⟨s.reversed, hback, (s.mem_keyPoints_reversed_iff p).2 hp⟩

/-- Lists of the same course have the same box. -/
theorem SameCourse.same_extent {β : Type} [LE β] [DecidableLE β] [Bounded β] [LawfulBounds β]
    [Placed α β] (h : SameCourse segments others) (penRadius : α) :
    (extent segments penRadius : Box β).Same (extent others penRadius) := by
  refine Box.same_hull_of_forall fun axis c _ => ?_
  rw [List.forall_mem_map, List.forall_mem_map]
  constructor
  · intro hwithin p hp
    exact hwithin p (h.symm.mem_keyPoints hp)
  · intro hwithin p hp
    exact hwithin p (h.mem_keyPoints hp)

end Segment

end KeyPoints

/-! ## The box of a course -/

namespace Segment

/-- **The box of a list of segments depends on their course alone.** Up to the signs of zeros it is
the same for any order of the segments, however often each of them is repeated and whichever way it is
travelled. All its sides are numbers, and the box of segments that follow others is the union of both
boxes. Nothing is asked of the segments and the pen: angles and radii need not agree with the points
of an arc, and none of the fields need be a number. -/
theorem extent_of_sameCourse (penRadius : Float) :
    (∀ segments others : List (Segment Float), SameCourse segments others →
      (extent segments penRadius : Box Float).Same (extent others penRadius)) ∧
    (∀ (segments : List (Segment Float)) (axis : Axis),
      ¬ IsNaN ((extent segments penRadius : Box Float).bound axis)) ∧
    ∀ segments more : List (Segment Float), (extent (segments ++ more) penRadius : Box Float) =
      (extent segments penRadius).union (extent more penRadius) := by
  refine ⟨?_, ?_, ?_⟩
  · intro segments others h
    exact h.same_extent penRadius
  · intro segments axis hnan
    exact hnan (Box.bound_hull_le_self _ axis)
  · intro segments more
    exact extent_append segments more penRadius

/-- An arc whose end is no point and whose angles have nothing to do with its ends: it runs clockwise
through the top of its circle. -/
def stray : Arc Float where
  start := ⟨1, 0⟩
  stop := ⟨0.0 / 0.0, 0⟩
  center := ⟨0, 0⟩
  radius := 2
  sweep := 3
  direction := .clockwise
  startAngle := 3
  stopAngle := 0

/-- A stray arc and a line have the same box as the line backwards, the arc backwards and the line
once more. -/
theorem extent_of_sameCourse_stray :
    SameCourse [arc stray, line ⟨⟨0, 0⟩, ⟨0, -1⟩⟩]
        [line ⟨⟨0, -1⟩, ⟨0, 0⟩⟩, arc stray.reversed, line ⟨⟨0, 0⟩, ⟨0, -1⟩⟩] ∧
      (extent [arc stray, line ⟨⟨0, 0⟩, ⟨0, -1⟩⟩] 0.5 : Box Float).Same
        (extent [line ⟨⟨0, -1⟩, ⟨0, 0⟩⟩, arc stray.reversed, line ⟨⟨0, 0⟩, ⟨0, -1⟩⟩] 0.5) := by
  have hcourse : SameCourse [arc stray, line ⟨⟨0, 0⟩, ⟨0, -1⟩⟩]
      [line ⟨⟨0, -1⟩, ⟨0, 0⟩⟩, arc stray.reversed, line ⟨⟨0, 0⟩, ⟨0, -1⟩⟩] := by
    constructor <;> simp [reversed, Line.reversed]
  exact ⟨hcourse, (extent_of_sameCourse 0.5).1 _ _ hcourse⟩

end Segment

end Photoplot
