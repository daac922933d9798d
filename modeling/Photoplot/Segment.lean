import Photoplot.Point

/-!
# Segments

The pieces that outlines and strokes are made of: straight lines and circular arcs.

* `Segment.between?`: the line between two points, unless they count as one;
* `Segment.ring`: the closed ring of lines through a list of points;
* `Arc.around`: the arc around a center, with the angles of its ends read off the points.
-/

namespace Photoplot

/-- A straight line. -/
structure Line (α : Type) where
  /-- The point where it starts. -/
  start : Point α
  /-- The point where it ends. -/
  stop : Point α

/-- A circular arc. The angles of its ends and the angle it travels are kept with it. -/
structure Arc (α : Type) where
  /-- The point where it starts. -/
  start : Point α
  /-- The point where it ends. -/
  stop : Point α
  /-- The center of its circle. -/
  center : Point α
  /-- The radius of its circle. -/
  radius : α
  /-- The angle travelled from start to end. -/
  sweep : α
  /-- The direction of travel. -/
  direction : Direction
  /-- The angle at which the start is seen from the center. -/
  startAngle : α
  /-- The angle at which the end is seen from the center. -/
  stopAngle : α

/-- A piece of an outline or of a stroke. -/
inductive Segment (α : Type) where
  /-- A straight piece. -/
  | line (line : Line α)
  /-- A circular piece. -/
  | arc (arc : Arc α)

namespace Arc

variable {α : Type} [Scalar α]

/-- The arc around a center whose end angles are those of its end points. -/
def around (start stop center : Point α) (radius sweep : α) (direction : Direction) : Arc α where
  start := start
  stop := stop
  center := center
  radius := radius
  sweep := sweep
  direction := direction
  startAngle := center.angleFrom start
  stopAngle := center.angleFrom stop

/-- An arc that travels a full turn or more. -/
def IsFullCircle (a : Arc α) : Prop := Angle.fullTurn ≤ a.sweep

instance (a : Arc α) : Decidable a.IsFullCircle :=
  inferInstanceAs (Decidable (_ ≤ _))

end Arc

namespace Segment

variable {α : Type}

/-- The point where a segment starts. -/
def start : Segment α → Point α
  | line l => l.start
  | arc a => a.start

/-- The point where a segment ends. -/
def stop : Segment α → Point α
  | line l => l.stop
  | arc a => a.stop

/-- The arc that a segment is, if it is one. -/
def arc? : Segment α → Option (Arc α)
  | line _ => none
  | arc a => some a

variable [Scalar α]

/-- The line between two points, unless they count as one. -/
def between? (start stop : Point α) : Option (Segment α) :=
  if start.Coincide stop then none else some (line ⟨start, stop⟩)

/-- The closed ring of lines through a list of points, without the edges whose ends count as one
point. -/
def ring (points : List (Point α)) : List (Segment α) :=
  (points.zip (points.drop 1 ++ points.take 1)).filterMap fun (p, q) => between? p q

@[simp] theorem ring_nil : ring ([] : List (Point α)) = [] := rfl

theorem between?_eq_none_iff (p q : Point α) : between? p q = none ↔ p.Coincide q := by
  simp [between?]

/-- Every piece of a ring is a line between two points that do not count as one. -/
theorem exists_of_mem_ring {points : List (Point α)} {s : Segment α} (h : s ∈ ring points) :
    ∃ p q, p ∈ points ∧ q ∈ points ∧ ¬ p.Coincide q ∧ s = line ⟨p, q⟩ := by
  obtain ⟨⟨p, q⟩, hz, hs⟩ := List.mem_filterMap.1 h
  have hp : p ∈ points := (List.of_mem_zip hz).1
  have hq : q ∈ points := by
    rcases List.mem_append.1 (List.of_mem_zip hz).2 with h | h
    · exact List.mem_of_mem_drop h
    · exact List.mem_of_mem_take h
  simp only [between?] at hs
  split at hs
  · simp at hs
  · exact ⟨p, q, hp, hq, by assumption, (Option.some.inj hs).symm⟩

end Segment

end Photoplot
