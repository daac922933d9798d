import Photoplot.ArcMove
import Photoplot.Figure
import Photoplot.Sweep

/-!
# Strokes

A stroke is one move of the tool. Outside region mode a rectangular tool sweeps a region of its own;
every other stroke draws a segment or nothing, and joins the open figure if that can take it.

* `Stroke.swept?`: the region swept by a rectangular tool;
* `Stroke.segment?`: the segment drawn, or the error when no arc fits;
* `Stroke.extend`: what a stroke does to the open figure.
-/

namespace Photoplot

/-- How a move is interpolated. -/
inductive Interpolation where
  /-- Along a straight line. -/
  | linear
  /-- Along an arc. -/
  | circular (direction : Direction)
  deriving DecidableEq

/-- The direction of the arcs that a mode draws, if it draws arcs. -/
def Interpolation.direction? : Interpolation → Option Direction
  | linear => none
  | circular direction => some direction

/-- One move of the tool, with the state in which it is made. -/
structure Stroke (α : Type) where
  /-- The point where it starts. -/
  start : Point α
  /-- The point where it ends. -/
  stop : Point α
  /-- The offsets of the center of an arc. -/
  offsets : Offsets α
  /-- The tool, if one is selected. -/
  tool : Option (Tool α)
  /-- The interpolation, if one has been set; without one nothing is drawn. -/
  interpolation : Option Interpolation
  /-- Whether the stroke bounds a region instead of drawing a line. -/
  regionMode : Bool
  /-- How the offsets locate the center of an arc. -/
  quadrant : Quadrant

namespace Stroke

variable {α : Type} [Scalar α]

/-! ## What a stroke draws -/

/-- The region that a rectangular tool sweeps outside region mode. -/
def swept? (s : Stroke α) : Option (Figure α) :=
  if s.regionMode then none
  else (s.tool.bind Tool.rectangle?).map fun (xSize, ySize) =>
    .region false (Sweep.outline s.start s.stop xSize ySize)

/-- The move along an arc in a direction. -/
def arcMove (s : Stroke α) (direction : Direction) : ArcMove α :=
  ⟨s.start, s.stop, s.offsets, direction⟩

/-- The segment that a stroke draws, if any. -/
def segment? (o : Options α) (s : Stroke α) : Except (PlotError α) (Option (Segment α)) :=
  match s.interpolation with
  | none => .ok none
  | some .linear => .ok (Segment.between? s.start s.stop)
  | some (.circular direction) =>
    ((s.arcMove direction).arc? o s.quadrant).map fun arc => arc.map .arc

/-- The report on the segment of a stroke, when it is an arc that misses its circle. -/
def mismatch? (o : Options α) (segment : Option (Segment α)) : Option (RadiusMismatch α) :=
  (segment.bind Segment.arc?).bind (Arc.mismatch? o)

/-! ## What a stroke does to the open figure -/

/-- The width of the lines that a stroke draws. Only circular tools draw lines with a width. -/
def width (s : Stroke α) : α := (s.tool.bind Tool.diameter?).getD 0

/-- The figure that a stroke opens when it finds none open. -/
def opened (s : Stroke α) : Figure α :=
  if s.regionMode then .region true [] else .path s.width []

/-- The open figure with the segment of a stroke added, or a new one when none is open. -/
def append (open? : Option (Figure α)) (segment : Option (Segment α)) (s : Stroke α) : Figure α :=
  match segment with
  | none => open?.getD s.opened
  | some segment => (open?.getD s.opened).push segment

/-- Nothing is drawn in a figure that was just opened. -/
@[simp] theorem segments_opened (s : Stroke α) : s.opened.segments = [] := by
  unfold opened
  split <;> rfl

/-- Appending keeps what the open figure holds and adds what the stroke draws. -/
@[simp] theorem segments_append (open? : Option (Figure α)) (segment : Option (Segment α))
    (s : Stroke α) :
    (append open? segment s).segments = (open?.elim [] Figure.segments) ++ segment.toList := by
  cases open? <;> cases segment <;> simp [append]

/-- What a stroke does to the open figure. -/
structure Outcome (α : Type) where
  /-- The figure that was open and could not take the stroke. -/
  closed : Option (Figure α)
  /-- The report on the arc drawn. -/
  warning : Option (RadiusMismatch α)
  /-- The figure open after the stroke. -/
  current : Figure α

/-- Splits the open figure into the one that a stroke closes and the one that it finds open. -/
def split (open? : Option (Figure α)) (s : Stroke α) : Option (Figure α) × Option (Figure α) :=
  match open? with
  | none => (none, none)
  | some figure =>
    if (figure.breakReason? s.tool s.regionMode).isSome then (some figure, none)
    else (none, some figure)

/-- What a stroke does to the open figure. A swept region is opened as a figure of its own; the
segment of any other stroke is appended. An arc that does not fit is an error, and then nothing is
closed. -/
def extend (o : Options α) (open? : Option (Figure α)) (s : Stroke α) :
    Except (PlotError α) (Outcome α) :=
  let (closed, rest) := split open? s
  match s.swept? with
  | some region => .ok ⟨closed, none, region⟩
  | none => (s.segment? o).map fun segment =>
    ⟨closed, mismatch? o segment, append rest segment s⟩

/-- A figure that a stroke does not close stays open, and nothing else does. -/
theorem split_toList (open? : Option (Figure α)) (s : Stroke α) :
    (split open? s).1.toList ++ (split open? s).2.toList = open?.toList := by
  cases open? with
  | none => rfl
  | some figure =>
    simp only [split]
    split <;> rfl

/-- Region mode is off for a swept region, and the tool is rectangular. -/
theorem swept?_eq_some_iff (s : Stroke α) (region : Figure α) :
    s.swept? = some region ↔ s.regionMode = false ∧
      ∃ size, s.tool.bind Tool.rectangle? = some size ∧
        Figure.region false (Sweep.outline s.start s.stop size.1 size.2) = region := by
  unfold swept?
  cases s.regionMode with
  | true => simp
  | false => simp only [Bool.false_eq_true, if_false, Option.map_eq_some_iff, true_and]

/-- A swept region replaces no open figure: whatever is open cannot take the stroke. -/
theorem split_of_swept? {s : Stroke α} {region : Figure α} (h : s.swept? = some region)
    (open? : Option (Figure α)) : split open? s = (open?, none) := by
  obtain ⟨hmode, size, hsize, -⟩ := (swept?_eq_some_iff s region).1 h
  cases open? with
  | none => rfl
  | some figure =>
    have hbreak : (figure.breakReason? s.tool s.regionMode).isSome = true := by
      rw [hmode]
      cases figure with
      | path width segments =>
        simp only [Figure.breakReason?, hsize]
        split <;> rfl
      | region inRegionMode segments => cases inRegionMode <;> rfl
    simp [split, hbreak]

/-- A stroke without interpolation draws no segment. -/
theorem segment?_of_interpolation_none (o : Options α) {s : Stroke α} (h : s.interpolation = none) :
    s.segment? o = .ok none := by
  simp [segment?, h]

end Stroke

end Photoplot
