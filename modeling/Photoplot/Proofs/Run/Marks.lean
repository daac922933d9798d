import Photoplot.Proofs.Bounds
import Photoplot.Proofs.Run.Drawing

/-!
# Marks

A picture written out with its pens: every segment with the radius of the pen that draws it, and
shapes as wholes. The box of a picture comes from hulls inside each other, of key points, of
segments, of layers and of parts; all that matters for it are the boxes of the single pieces.

* `Mark`, `Picture.marks`: a picture written out with its pens;
* `Shape.leaves`, `Shape.induction`: the shapes that are not layered in a shape, found at any depth,
  and induction on layers;
* `Picture.pieceBoxes`: the boxes of single segments and of such shapes;
* `Picture.staysWithin_box_iff`: **a picture stays within a bound exactly when all its pieces do**;
* `Picture.same_box_hull`, `Picture.widensTo_box`: so its box is their hull, and more marks never
  make it smaller;
* `Plot.marks_of_stroked`, `Plot.marks_prefix_attempt`: a stroke adds what it draws, all with one
  pen, and a command only ever adds marks.
-/

namespace Photoplot

/-- A piece of a picture with the pen that draws it. -/
inductive Mark (α : Type) where
  /-- A segment, drawn with a round pen of the given radius. -/
  | stroked (penRadius : α) (segment : Segment α)
  /-- A shape, as it was added. -/
  | shape (shape : Shape α)

variable {α β : Type}

/-! ## The leaves of shapes -/

namespace Shape

mutual

/-- The shapes that are not layered in a shape, at any depth. -/
def leaves : Shape α → List (Shape α)
  | circle center radius => [circle center radius]
  | rectangle r => [rectangle r]
  | polygon points => [polygon points]
  | outlined segments => [outlined segments]
  | cleared segments => [cleared segments]
  | layered shapes => leavesOf shapes

/-- The shapes that are not layered in shapes, one after the other. -/
def leavesOf : List (Shape α) → List (Shape α)
  | [] => []
  | shape :: shapes => shape.leaves ++ leavesOf shapes

end

theorem leavesOf_eq_flatMap (shapes : List (Shape α)) :
    leavesOf shapes = shapes.flatMap leaves := by
  induction shapes with
  | nil => rfl
  | cons shape shapes ih => simp [leavesOf, ih]

@[simp] theorem leaves_layered (shapes : List (Shape α)) :
    (layered shapes).leaves = shapes.flatMap leaves := by
  rw [leaves, leavesOf_eq_flatMap]

/-- What holds of single shapes, and of layers when it holds of each, holds of all shapes. -/
@[elab_as_elim, induction_eliminator]
theorem induction {motive : Shape α → Prop}
    (circle : ∀ center radius, motive (circle center radius))
    (rectangle : ∀ r, motive (rectangle r)) (polygon : ∀ points, motive (polygon points))
    (outlined : ∀ segments, motive (outlined segments))
    (cleared : ∀ segments, motive (cleared segments))
    (layered : ∀ shapes, (∀ shape ∈ shapes, motive shape) → motive (layered shapes)) :
    ∀ shape, motive shape
  | .circle center radius => circle center radius
  | .rectangle r => rectangle r
  | .polygon points => polygon points
  | .outlined segments => outlined segments
  | .cleared segments => cleared segments
  | .layered shapes => layered shapes fun shape _ =>
    induction circle rectangle polygon outlined cleared layered shape

end Shape

/-! ## Pictures written out with their pens -/

section Marks

variable [Scalar α]

@[simp] theorem Figure.penRadius_extended (f : Figure α) (more : List (Segment α)) :
    (f.extended more).penRadius = f.penRadius := by
  cases f <;> rfl

/-- The segments of a figure, all drawn with its pen. -/
def Figure.marks (f : Figure α) : List (Mark α) := f.segments.map (.stroked f.penRadius)

/-- A part of a picture written out with its pen. -/
def Node.marks : Node α → List (Mark α)
  | figure f => f.marks
  | shape s => [.shape s]

/-- A picture written out with its pens, from its first part to its last. -/
def Picture.marks (p : Picture α) : List (Mark α) := p.nodes.flatMap Node.marks

end Marks

/-! ## Boxes of pieces -/

section Box

variable [Scalar α] [LE β] [DecidableLE β] [Bounded β] [Placed α β]

/-- The boxes of the pieces that a mark consists of: a segment is one piece, and a shape has a piece
for each of its leaves. -/
def Mark.boxes : Mark α → List (Box β)
  | stroked penRadius segment => [Segment.extent [segment] penRadius]
  | shape s => s.leaves.map Shape.box

/-- The boxes of the pieces of a picture. -/
def Picture.pieceBoxes (p : Picture α) : List (Box β) := p.marks.flatMap Mark.boxes

variable [LawfulBounds β] {axis : Axis} {c : β} (hc : c ≤ c)

include hc

namespace Segment

/-- Segments stay within a bound exactly when the pen does at all key points. -/
theorem staysWithin_extent_iff (segments : List (Segment α)) (penRadius : α) :
    (extent segments penRadius).StaysWithin axis c ↔
      ∀ s ∈ segments, ∀ p ∈ s.keyPoints, (Box.ofCircle p penRadius : Box β).StaysWithin axis c := by
  rw [extent, Box.staysWithin_hull_iff _ _ hc]
  simp only [List.forall_mem_map, List.mem_flatMap]
  constructor
  · intro h s hs p hp
    exact h p ⟨s, hs, hp⟩
  · rintro h p ⟨s, hs, hp⟩
    exact h s hs p hp

/-- Segments stay within a bound exactly when each of them does. -/
theorem staysWithin_extent_iff_forall (segments : List (Segment α)) (penRadius : α) :
    (extent segments penRadius : Box β).StaysWithin axis c ↔
      ∀ s ∈ segments, (extent [s] penRadius : Box β).StaysWithin axis c := by
  simp only [staysWithin_extent_iff hc, List.forall_mem_singleton]

end Segment

/-- A shape stays within a bound exactly when its leaves do. -/
theorem Shape.staysWithin_box_iff (shape : Shape α) : (shape.box : Box β).StaysWithin axis c ↔
    ∀ leaf ∈ shape.leaves, (leaf.box : Box β).StaysWithin axis c := by
  induction shape with
  | layered shapes ih =>
    rw [box_layered, Box.staysWithin_hull_iff _ _ hc, List.forall_mem_map, leaves_layered]
    simp only [List.mem_flatMap]
    constructor
    · rintro h leaf ⟨shape, hshape, hleaf⟩
      exact (ih shape hshape).1 (h shape hshape) leaf hleaf
    · intro h shape hshape
      exact (ih shape hshape).2 fun leaf hleaf => h leaf ⟨shape, hshape, hleaf⟩
  | _ => rw [leaves, List.forall_mem_singleton]

/-- A part of a picture stays within a bound exactly when its pieces do. -/
theorem Node.staysWithin_box_iff (n : Node α) : (n.box : Box β).StaysWithin axis c ↔
    ∀ m ∈ n.marks, ∀ b ∈ m.boxes, (b : Box β).StaysWithin axis c := by
  cases n with
  | figure f =>
    rw [box, Figure.box, Segment.staysWithin_extent_iff_forall hc, marks, Figure.marks,
      List.forall_mem_map]
    simp only [Mark.boxes, List.forall_mem_singleton]
  | shape s =>
    rw [box, Shape.staysWithin_box_iff hc, marks, List.forall_mem_singleton, Mark.boxes,
      List.forall_mem_map]

/-- **A picture stays within a bound exactly when all its pieces do**, however they are grouped. -/
theorem Picture.staysWithin_box_iff (p : Picture α) : (p.box : Box β).StaysWithin axis c ↔
    ∀ m ∈ p.marks, ∀ b ∈ m.boxes, (b : Box β).StaysWithin axis c := by
  rw [box, Box.staysWithin_hull_iff _ _ hc, List.forall_mem_map]
  simp only [Node.staysWithin_box_iff hc, marks, List.mem_flatMap]
  constructor
  · rintro h m ⟨n, hn, hm⟩
    exact h n hn m hm
  · intro h n hn m hm
    exact h m ⟨n, hn, hm⟩

omit hc

/-- Pictures whose pieces stay within the same bounds have the same box. -/
theorem Picture.same_box_of_forall {p q : Picture α}
    (h : ∀ (axis : Axis) (c : β), c ≤ c →
      ((∀ m ∈ p.marks, ∀ b ∈ m.boxes, b.StaysWithin axis c) ↔
        ∀ m ∈ q.marks, ∀ b ∈ m.boxes, b.StaysWithin axis c)) :
    (p.box : Box β).Same q.box := by
  apply Box.same_hull_of_forall
  intro axis c hc
  rw [← Box.staysWithin_hull_iff _ _ hc, ← Box.staysWithin_hull_iff _ _ hc]
  exact ((p.staysWithin_box_iff hc).trans (h axis c hc)).trans (q.staysWithin_box_iff hc).symm

/-- A picture with more marks has a wider box. -/
theorem Picture.widensTo_box {p q : Picture α} (h : p.marks ⊆ q.marks) :
    (p.box : Box β).WidensTo q.box := by
  apply Box.widensTo_hull_of_forall
  intro axis c hc
  rw [← Box.staysWithin_hull_iff _ _ hc, ← Box.staysWithin_hull_iff _ _ hc]
  intro hq
  refine (p.staysWithin_box_iff hc).2 fun m hm => ?_
  exact (q.staysWithin_box_iff hc).1 hq m (h hm)

/-- **The box of a picture is the hull of the boxes of its pieces**, taken in any order. -/
theorem Picture.same_box_hull (p : Picture α) {boxes : List (Box β)}
    (h : boxes.Perm p.pieceBoxes) : (p.box : Box β).Same (Box.hull boxes) := by
  apply Box.same_hull_of_forall
  intro axis c hc
  rw [← Box.staysWithin_hull_iff _ _ hc, ← box, p.staysWithin_box_iff hc]
  simp only [h.mem_iff, pieceBoxes, List.mem_flatMap]
  constructor
  · rintro hm b ⟨m, hmem, hb⟩
    exact hm m hmem b hb
  · intro hb m hmem b hmb
    exact hb b ⟨m, hmem, hmb⟩

end Box

/-! ## Marks of a plot -/

namespace Plot

variable [Scalar α] {p q : Plot α}

theorem marks_finish (p : Plot α) :
    p.finish.marks = p.nodes.flatMap Node.marks ++ p.current.toList.flatMap Figure.marks := by
  cases hopen : p.current <;> simp [Picture.marks, finish, close, Node.marks, hopen]

/-- Closing the open figure makes no mark. -/
@[simp] theorem marks_finish_close (p : Plot α) : p.close.finish.marks = p.finish.marks := by
  simp [Picture.marks, finish]

@[simp] theorem marks_finish_add (p : Plot α) (shape : Shape α) :
    (p.add shape).finish.marks = p.finish.marks ++ [.shape shape] := by
  simp [Picture.marks, finish, add, close, Node.marks]

/-- A stroke adds what it draws, all with the pen of the figure that is open afterwards. -/
theorem marks_of_stroked {s : Stroke α} (h : p.Stroked s q) : ∃ f, q.current = some f ∧
    q.finish.marks = p.finish.marks ++ (s.drawn p.options).map (.stroked f.penRadius) := by
  cases h with
  | joined f isOpen takes =>
    refine ⟨_, rfl, ?_⟩
    simp [marks_finish, isOpen, Figure.marks]
  | opened breaks =>
    refine ⟨_, rfl, ?_⟩
    rw [marks_finish, ← marks_finish_close, marks_finish]
    simp [Figure.marks]

/-- A command only ever adds marks. -/
theorem marks_prefix_attempt (p : Plot α) (c : Command α) :
    p.finish.marks <+: (p.attempt c).finish.marks := by
  unfold attempt
  split
  · rename_i next hnext
    cases c with
    | stroke s =>
      obtain ⟨f, -, hmarks⟩ := marks_of_stroked (stroked_of_stroke hnext)
      exact hmarks ▸ List.prefix_append _ _
    | flash tool position => cases hnext; simp
    | add shape => cases hnext; simp
    | close => cases hnext; simp
  · exact List.prefix_refl _

end Plot

end Photoplot
