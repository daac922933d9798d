import Photoplot.Proofs.Run.Refusal

/-!
# What is drawn

A picture written out without its grouping: the segments of paths and regions one by one, and
shapes as wholes. The plotter holds back the figure that may still grow, and several commands take
it from where it is held; none of them loses it.

* `Node.items`, `Picture.items`: a picture written out;
* `Command.items`: what a command contributes when it is obeyed;
* `Plot.items_of_perform`: an obeyed command adds what it contributes at the end;
* `Plot.items_finish_run`: **a finished picture is what its commands contribute, in their order**, save
  for the strokes along arcs whose center cannot be located.
-/

namespace Photoplot

variable {α : Type}

/-- A piece of a picture that is written out. -/
inductive Item (α : Type) where
  /-- A segment of a path or a region. -/
  | segment (segment : Segment α)
  /-- A shape, as it was added. -/
  | shape (shape : Shape α)

/-! ## Pictures written out -/

/-- A part of a picture written out. -/
def Node.items : Node α → List (Item α)
  | figure f => f.segments.map .segment
  | shape s => [.shape s]

/-- A picture written out from its first part to its last. -/
def Picture.items (p : Picture α) : List (Item α) := p.nodes.flatMap Node.items

theorem Plot.items_finish (p : Plot α) :
    p.finish.items =
      p.nodes.flatMap Node.items ++ (p.current.toList.map Node.figure).flatMap Node.items := by
  simp [Picture.items, finish, close]

/-- Closing the open figure writes nothing more. -/
@[simp] theorem Plot.items_finish_close (p : Plot α) : p.close.finish.items = p.finish.items := by
  simp [Picture.items, finish]

@[simp] theorem Plot.items_finish_add (p : Plot α) (shape : Shape α) :
    (p.add shape).finish.items = p.finish.items ++ [.shape shape] := by
  simp [items_finish, add, close, Node.items]

/-! ## What commands contribute -/

variable [Scalar α]

@[simp] theorem Stroke.segments_alone (o : Options α) (s : Stroke α) :
    (s.alone o).segments = s.drawn o := by
  unfold alone
  split
  · rfl
  · split <;> rfl

/-- What a command contributes to the picture when it is obeyed. -/
def Command.items (o : Options α) : Command α → List (Item α)
  | stroke s => (s.drawn o).map .segment
  | flash tool position => [.shape (tool.shapeAt o position)]
  | add shape => [.shape shape]
  | close => []

namespace Plot

/-- A stroke that is obeyed adds what it draws, wherever it goes. -/
theorem items_of_stroked {p q : Plot α} {s : Stroke α} (h : p.Stroked s q) :
    q.finish.items = p.finish.items ++ (s.drawn p.options).map .segment := by
  cases h with
  | joined f isOpen takes => simp [items_finish, isOpen, Node.items]
  | opened breaks => simp [items_finish, close, Node.items]

/-- A command that is obeyed adds its contribution at the end. -/
theorem items_of_perform {p q : Plot α} {c : Command α} (h : p.perform c = .ok q) :
    q.finish.items = p.finish.items ++ c.items p.options := by
  cases c with
  | stroke s => exact items_of_stroked (stroked_of_stroke h)
  | flash tool position => cases h; simp [Command.items]
  | add shape => cases h; simp [Command.items]
  | close => cases h; simp [Command.items]

/-- A run adds the contributions of the commands that are obeyed. -/
theorem items_foldl_attempt (p : Plot α) (commands : List (Command α)) :
    (commands.foldl attempt p).finish.items =
      p.finish.items ++ (p.obeyed commands).flatMap (Command.items p.options) := by
  induction commands generalizing p with
  | nil => simp
  | cons c cs ih =>
    rw [List.foldl_cons, ih, options_attempt]
    cases hperform : p.perform c with
    | error e => rw [obeyed_cons_of_error hperform, attempt_of_error hperform]
    | ok next =>
      rw [obeyed_cons_of_ok hperform, attempt_of_ok hperform, List.flatMap_cons,
        ← List.append_assoc, items_of_perform hperform]

/-- **Nothing is lost, repeated, moved or changed.** Whatever the commands, all are obeyed but the
strokes along arcs whose center no choice of signs locates, and the finished picture written out is
what the obeyed ones contribute, in their order: a stroke what it draws, a flash or an added shape that
shape, and a close nothing. On the way the complete parts only ever gain parts after their last one,
and so they do when the plot is finished. -/
theorem items_finish_run (o : Options α) (commands : List (Command α)) :
    ((start o).obeyed commands = commands.filter fun c => ¬ c.IsRefused o) ∧
      (run o commands).finish.items =
        ((start o).obeyed commands).flatMap (Command.items o) ∧
      (∀ n, (run o (commands.take n)).nodes <+: (run o (commands.take (n + 1))).nodes) ∧
      (run o commands).nodes <+: (run o commands).finish.nodes := by
  refine ⟨?_, ?_, ?_, nodes_prefix_close _⟩
  · exact obeyed_eq_filter (start o) commands
  · exact items_foldl_attempt (start o) commands
  · intro n
    rw [List.take_add_one]
    cases commands[n]? with
    | none => simp
    | some c => simpa using nodes_prefix_attempt _ c

end Plot

end Photoplot
