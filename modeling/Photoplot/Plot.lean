import Photoplot.Flash
import Photoplot.Stroke

/-!
# Plots

A plot turns a sequence of commands into a picture: an ordered list of figures and shapes. While it
runs, one figure may be open for further strokes; every other command closes it first.

* `Node`, `Picture`: the parts of a picture and their boxes;
* `Plot.perform`: one command, or the error with which it is refused;
* `Plot.run`: all commands, of which those refused change nothing;
* `Plot.finish`: the picture.
-/

namespace Photoplot

/-! ## Pictures -/

/-- A part of a picture. -/
inductive Node (α : Type) where
  /-- A path or a region. -/
  | figure (figure : Figure α)
  /-- A shape. -/
  | shape (shape : Shape α)

/-- A picture: its parts in the order in which they are drawn. -/
structure Picture (α : Type) where
  /-- The parts. -/
  nodes : List (Node α)

section Box

variable {α β : Type} [Scalar α] [LE β] [DecidableLE β] [Bounded β] [Placed α β]

/-- The box of a part. -/
def Node.box : Node α → Box β
  | figure f => f.box
  | shape s => s.box

/-- The box of a picture, empty when it has no parts. -/
def Picture.box (p : Picture α) : Box β := Box.hull (p.nodes.map Node.box)

end Box

/-! ## Commands -/

/-- A command to the plotter. -/
inductive Command (α : Type) where
  /-- Moves the tool. -/
  | stroke (stroke : Stroke α)
  /-- Exposes a tool at a position. -/
  | flash (tool : Tool α) (position : Point α)
  /-- Adds a shape as it is. -/
  | add (shape : Shape α)
  /-- Closes the open figure. -/
  | close

/-- The state of a plot. -/
structure Plot (α : Type) where
  /-- The options, which stay the same throughout. -/
  options : Options α
  /-- The parts that are complete. -/
  nodes : List (Node α)
  /-- The figure that can still grow. -/
  current : Option (Figure α)
  /-- The reports on arcs that miss their circle. -/
  warnings : List (RadiusMismatch α)

namespace Plot

variable {α : Type}

/-- A plot of which nothing is drawn yet. -/
def start (options : Options α) : Plot α := ⟨options, [], none, []⟩

/-- Closes the open figure. -/
def close (p : Plot α) : Plot α :=
  { p with nodes := p.nodes ++ p.current.toList.map Node.figure, current := none }

@[simp] theorem current_close (p : Plot α) : p.close.current = none := rfl

/-- Closing twice is closing once. -/
@[simp] theorem close_close (p : Plot α) : p.close.close = p.close := by
  simp [close]

/-- Closes the open figure and adds a shape. -/
def add (p : Plot α) (shape : Shape α) : Plot α :=
  { p.close with nodes := p.close.nodes ++ [Node.shape shape] }

/-- The picture, with the open figure closed. -/
def finish (p : Plot α) : Picture α := ⟨p.close.nodes⟩

variable [Scalar α]

/-- Makes a stroke. A figure that cannot take it is complete. -/
def stroke (p : Plot α) (s : Stroke α) : Except (PlotError α) (Plot α) :=
  (s.extend p.options p.current).map fun outcome =>
    { p with
      nodes := p.nodes ++ outcome.closed.toList.map Node.figure
      current := some outcome.current
      warnings := p.warnings ++ outcome.warning.toList }

/-- Obeys one command. Only strokes can be refused. -/
def perform (p : Plot α) : Command α → Except (PlotError α) (Plot α)
  | .stroke s => p.stroke s
  | .flash tool position => .ok (p.add (tool.shapeAt p.options position))
  | .add shape => .ok (p.add shape)
  | .close => .ok p.close

/-- Obeys one command; one that is refused changes nothing. -/
def attempt (p : Plot α) (c : Command α) : Plot α :=
  match p.perform c with
  | .ok next => next
  | .error _ => p

/-- Obeys commands in order. -/
def run (options : Options α) (commands : List (Command α)) : Plot α :=
  commands.foldl attempt (start options)

@[simp] theorem run_nil (options : Options α) : run options ([] : List (Command α)) = start options :=
  rfl

/-- One more command at the end is one more step. -/
@[simp] theorem run_concat (options : Options α) (commands : List (Command α)) (c : Command α) :
    run options (commands ++ [c]) = (run options commands).attempt c := by
  simp [run]

/-- A refused command changes nothing. -/
theorem attempt_of_error {p : Plot α} {c : Command α} {e : PlotError α} (h : p.perform c = .error e) :
    p.attempt c = p := by
  simp [attempt, h]

end Plot

end Photoplot
