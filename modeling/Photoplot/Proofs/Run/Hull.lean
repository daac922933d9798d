import Photoplot.Proofs.Binary64
import Photoplot.Proofs.Exact.Outline
import Photoplot.Proofs.Run.Marks

/-!
# The box of a run

The box of a picture is no more and no less than what its pieces take up, however they are grouped,
and while a plot runs it only grows. In exact arithmetic, where a circle has no negative size, it is
empty as long as nothing is drawn, and a box in the proper sense from then on.

* `Box.Proper`, `Box.Reflects`: a box with its bounds in order, and one that is like that unless it
  is the empty box of something blank;
* `Shape.Blank`, `Picture.Blank`: shapes and pictures in which there is nothing;
* `Shape.Sized`, `Plot.Sized`: no circle has a negative radius, and no pen either;
* `Plot.Sized.foldl_attempt`, `Picture.reflects_box`: pictures that are blank exactly when their
  boxes are empty;
* `Plot.box_run`: **the box of a finished picture is the hull of the boxes of its pieces**, it only
  moves outward along a run, and it is empty exactly when nothing is drawn.
-/

namespace Photoplot

noncomputable section

/-! ## Boxes that tell whether something is drawn -/

namespace Box

/-- A box whose bounds are in order. -/
def Proper (b : Box EReal) : Prop := b.xMin ≤ b.xMax ∧ b.yMin ≤ b.yMax

/-- A box that is the empty one of something blank, and otherwise has its bounds in order. -/
structure Reflects (b : Box EReal) (blank : Prop) : Prop where
  /-- Nothing has the empty box. -/
  eq_empty : blank → b = empty
  /-- Something has a box with its bounds in order. -/
  proper : ¬ blank → b.Proper

theorem Proper.not_isEmpty {b : Box EReal} (h : b.Proper) : ¬ b.IsEmpty := by
  rintro (hx | hy)
  · exact absurd h.1 (not_le.2 hx)
  · exact absurd h.2 (not_le.2 hy)

theorem isEmpty_empty : (empty : Box EReal).IsEmpty := .inl bot_lt_top

theorem Within.proper {a b : Box EReal} (h : a.Within b) (ha : a.Proper) : b.Proper :=
  ⟨(h.1.trans ha.1).trans h.2.1, (h.2.2.1.trans ha.2).trans h.2.2.2⟩

theorem proper_ofCircle (center : Point ℝ) {radius : ℝ} (h : 0 ≤ radius) :
    (ofCircle center radius : Box EReal).Proper := by
  simp only [Proper, ofCircle, Placed.place, EReal.coe_le_coe_iff]
  constructor <;> linarith

/-- A box that reflects something is empty exactly when that is blank. -/
theorem Reflects.isEmpty_iff {b : Box EReal} {blank : Prop} (h : b.Reflects blank) :
    b.IsEmpty ↔ blank := by
  constructor
  · intro hempty
    by_contra hblank
    exact (h.proper hblank).not_isEmpty hempty
  · intro hblank
    rw [h.eq_empty hblank]
    exact isEmpty_empty

/-- Every box lies in a hull of which it is a member. -/
theorem within_hull {boxes : List (Box EReal)} {b : Box EReal} (h : b ∈ boxes) :
    b.Within (hull boxes) := by
  rw [within_iff]
  intro axis
  exact (side_hull_le_iff boxes axis _).1 le_rfl b h

/-- A hull reflects whether all is blank when its members do so each for itself. -/
theorem Reflects.hull {ι : Type} {items : List ι} {box : ι → Box EReal} {blank : ι → Prop}
    (h : ∀ i ∈ items, (box i).Reflects (blank i)) :
    (Box.hull (items.map box)).Reflects (∀ i ∈ items, blank i) where
  eq_empty hblank := by
    apply eq_of_side_eq
    intro axis
    rw [side_empty, ← le_bot_iff, side_hull_le_iff, List.forall_mem_map]
    intro i hi
    rw [(h i hi).eq_empty (hblank i hi), side_empty]
  proper hblank := by
    simp only [not_forall] at hblank
    obtain ⟨i, hi, hshown⟩ := hblank
    exact (within_hull (List.mem_map_of_mem hi)).proper ((h i hi).proper hshown)

end Box

/-! ## Blank pictures -/

section Blank

variable {α : Type}

/-- A shape in which there is nothing: no circle, no rectangle, no point of a polygon and no
segment, at any depth. -/
inductive Shape.Blank : Shape α → Prop
  | polygon : Blank (.polygon [])
  | outlined : Blank (.outlined [])
  | cleared : Blank (.cleared [])
  | layered {shapes : List (Shape α)} (each : ∀ shape ∈ shapes, Blank shape) :
      Blank (.layered shapes)

namespace Shape

theorem blank_polygon_iff (points : List (Point α)) : (polygon points).Blank ↔ points = [] := by
  constructor
  · rintro ⟨⟩
    rfl
  · rintro rfl
    exact .polygon

theorem blank_outlined_iff (segments : List (Segment α)) :
    (outlined segments).Blank ↔ segments = [] := by
  constructor
  · rintro ⟨⟩
    rfl
  · rintro rfl
    exact .outlined

theorem blank_cleared_iff (segments : List (Segment α)) :
    (cleared segments).Blank ↔ segments = [] := by
  constructor
  · rintro ⟨⟩
    rfl
  · rintro rfl
    exact .cleared

theorem blank_layered_iff (shapes : List (Shape α)) :
    (layered shapes).Blank ↔ ∀ shape ∈ shapes, shape.Blank := by
  constructor
  · intro h
    cases h with
    | layered each => exact each
  · exact .layered

end Shape

/-- A part of a picture in which there is nothing. -/
def Node.Blank : Node α → Prop
  | figure f => f.segments = []
  | shape s => s.Blank

/-- A picture in which there is nothing, whatever parts it has. -/
def Picture.Blank (p : Picture α) : Prop := ∀ n ∈ p.nodes, n.Blank

end Blank

/-! ## Sizes that are not negative -/

/-- No circle in a shape has a negative radius. -/
def Shape.Sized (s : Shape ℝ) : Prop :=
  ∀ center radius, Shape.circle center radius ∈ s.leaves → 0 ≤ radius

/-- The pen of a figure, or the circles of a shape, have no negative radius. -/
def Node.Sized : Node ℝ → Prop
  | figure f => 0 ≤ f.penRadius
  | shape s => s.Sized

/-- A command in which no circle has a negative size. -/
def Command.Sized : Command ℝ → Prop
  | stroke s => ∀ diameter ∈ s.tool.bind Tool.diameter?, 0 ≤ diameter
  | flash tool _ => ∀ diameter ∈ tool.diameter?, 0 ≤ diameter
  | add shape => shape.Sized
  | close => True

/-- The shape of a tool has a negative radius only if the tool has. -/
theorem Tool.sized_shapeAt (o : Options ℝ) (position : Point ℝ) {t : Tool ℝ}
    (h : ∀ diameter ∈ t.diameter?, 0 ≤ diameter) : (t.shapeAt o position).Sized := by
  intro center radius hleaf
  obtain ⟨aperture, hole⟩ := t
  cases hole with
  | some hole => simp [shapeAt, Shape.leaves] at hleaf
  | none =>
    cases aperture with
    | circle diameter =>
      simp only [shapeAt, Aperture.shapeAt, Shape.leaves, List.mem_singleton,
        Shape.circle.injEq] at hleaf
      rw [hleaf.2]
      exact half_nonneg (h diameter rfl)
    | _ => simp [shapeAt, Aperture.shapeAt, Shape.leaves] at hleaf

/-- The pen of a stroke has a negative radius only if its tool has. -/
theorem Stroke.penRadius_alone_nonneg {s : Stroke ℝ} (h : (Command.stroke s).Sized)
    (o : Options ℝ) : 0 ≤ (s.alone o).penRadius := by
  have hwidth : 0 ≤ s.width := by
    cases hdiameter : s.tool.bind Tool.diameter? with
    | none => rw [width_of_diameter?_eq_none hdiameter]
    | some diameter =>
      rw [width_of_diameter? hdiameter]
      exact h diameter hdiameter
  unfold alone
  split
  · exact le_rfl
  · split
    · exact le_rfl
    · exact half_nonneg hwidth

namespace Plot

/-- No part of a plot, complete or open, has a pen or a circle of a negative radius. -/
def Sized (p : Plot ℝ) : Prop := ∀ n ∈ p.finish.nodes, n.Sized

variable {p q : Plot ℝ} {s : Stroke ℝ}

theorem sized_start (o : Options ℝ) : (start o).Sized := by
  intro n hn
  cases hn

/-- A stroke joins a figure with its own pen or opens one with the pen of the stroke. -/
theorem Sized.of_stroked (hp : p.Sized) (hs : (Command.stroke s).Sized) (h : p.Stroked s q) :
    q.Sized := by
  intro n hn
  rcases List.mem_append.1 hn with hold | hopen
  · cases h with
    | joined f isOpen takes => exact hp n (List.mem_append_left _ hold)
    | opened breaks => exact hp n hold
  · cases h with
    | joined f isOpen takes =>
      obtain rfl := List.mem_singleton.1 hopen
      rw [Node.Sized, Figure.penRadius_extended]
      exact hp (.figure f) (List.mem_append_right _ (by simp [isOpen]))
    | opened breaks =>
      obtain rfl := List.mem_singleton.1 hopen
      exact Stroke.penRadius_alone_nonneg hs _

theorem Sized.close (hp : p.Sized) : p.close.Sized := by
  rw [Sized, finish, close_close]
  exact hp

theorem Sized.add (hp : p.Sized) {shape : Shape ℝ} (h : shape.Sized) : (p.add shape).Sized := by
  intro n hn
  have hmem : n ∈ p.finish.nodes ++ [Node.shape shape] := by
    simpa [finish, Plot.add, Plot.close] using hn
  rcases List.mem_append.1 hmem with hold | hnew
  · exact hp n hold
  · obtain rfl := List.mem_singleton.1 hnew
    exact h

theorem Sized.attempt (hp : p.Sized) {c : Command ℝ} (hc : c.Sized) : (p.attempt c).Sized := by
  cases hperform : p.perform c with
  | error e => rwa [attempt_of_error hperform]
  | ok next =>
    rw [attempt_of_ok hperform]
    cases c with
    | stroke s => exact hp.of_stroked hc (stroked_of_stroke hperform)
    | flash tool position => cases hperform; exact hp.add (Tool.sized_shapeAt _ _ hc)
    | add shape => cases hperform; exact hp.add hc
    | close => cases hperform; exact hp.close

theorem Sized.foldl_attempt (hp : p.Sized) {commands : List (Command ℝ)}
    (h : ∀ c ∈ commands, c.Sized) : (commands.foldl Plot.attempt p).Sized := by
  induction commands generalizing p with
  | nil => exact hp
  | cons c cs ih =>
    rw [List.forall_mem_cons] at h
    exact ih (hp.attempt h.1) h.2

end Plot

/-! ## Boxes of what is not blank -/

/-- The box of points tells whether there are any. -/
theorem Box.reflects_hull_ofPoint (points : List (Point ℝ)) :
    (hull (points.map ofPoint) : Box EReal).Reflects (points = []) := by
  rw [List.eq_nil_iff_forall_not_mem]
  exact Reflects.hull fun p _ => ⟨False.elim, fun _ => ⟨le_rfl, le_rfl⟩⟩

/-- The box of a rectangle always has its bounds in order. -/
theorem Box.proper_ofRectangle (corner : Point ℝ) (xSize ySize : ℝ) :
    (ofRectangle corner xSize ySize : Box EReal).Proper := by
  simp only [Proper, ofRectangle, Placed.place, EReal.coe_le_coe_iff, lesser_eq_min,
    greater_eq_max]
  exact ⟨min_le_max, min_le_max⟩

/-- The box of segments tells whether there are any. -/
theorem Segment.reflects_extent (segments : List (Segment ℝ)) {penRadius : ℝ} (h : 0 ≤ penRadius) :
    (extent segments penRadius : Box EReal).Reflects (segments = []) where
  eq_empty hnil := by rw [hnil, extent_nil]
  proper hne := by
    obtain ⟨s, hs⟩ := List.exists_mem_of_ne_nil _ hne
    have hmem : s.start ∈ segments.flatMap keyPoints :=
      List.mem_flatMap.2 ⟨s, hs, start_mem_keyPoints s⟩
    exact (Box.within_hull (List.mem_map_of_mem hmem)).proper (Box.proper_ofCircle _ h)

/-- The box of a shape tells whether there is anything in it. -/
theorem Shape.reflects_box {s : Shape ℝ} (h : s.Sized) : (s.box : Box EReal).Reflects s.Blank := by
  induction s with
  | circle center radius =>
    have hradius : 0 ≤ radius := h center radius (by simp [leaves])
    rw [box]
    refine ⟨?_, fun _ => Box.proper_ofCircle center hradius⟩
    intro hblank
    cases hblank
  | rectangle r =>
    rw [box]
    refine ⟨?_, fun _ => Box.proper_ofRectangle _ _ _⟩
    intro hblank
    cases hblank
  | polygon points =>
    rw [box, blank_polygon_iff]
    exact Box.reflects_hull_ofPoint points
  | outlined segments =>
    rw [box, blank_outlined_iff]
    exact Segment.reflects_extent segments le_rfl
  | cleared segments =>
    rw [box, blank_cleared_iff]
    exact Segment.reflects_extent segments le_rfl
  | layered shapes ih =>
    rw [box_layered, blank_layered_iff]
    refine Box.Reflects.hull fun shape hshape => ih shape hshape fun center radius hleaf => ?_
    rw [Sized, leaves_layered] at h
    exact h center radius (List.mem_flatMap.2 ⟨shape, hshape, hleaf⟩)

/-- The box of a picture tells whether there is anything in it. -/
theorem Picture.reflects_box {p : Picture ℝ} (h : ∀ n ∈ p.nodes, n.Sized) :
    (p.box : Box EReal).Reflects p.Blank := by
  refine Box.Reflects.hull fun n hn => ?_
  cases n with
  | figure f => exact Segment.reflects_extent f.segments (h _ hn)
  | shape s => exact Shape.reflects_box (h _ hn)

/-! ## Runs -/

namespace Plot

/-- **The box of a finished picture is the hull of what was drawn.** Up to the signs of zeros it is
the hull, in any order, of the boxes of the single segments with their pens and of the shapes that
are not layered. With every command, refused or not, its bounds move outward or stay. In exact
arithmetic, when no circle has a negative size, it is empty exactly when nothing is drawn, and
otherwise it has its bounds in order. -/
theorem box_run :
    (∀ (o : Options Float) (commands : List (Command Float)),
      (∀ boxes : List (Box Float), boxes.Perm (run o commands).finish.pieceBoxes →
        ((run o commands).finish.box : Box Float).Same (Box.hull boxes)) ∧
      ∀ n, ((run o (commands.take n)).finish.box : Box Float).WidensTo
        (run o (commands.take (n + 1))).finish.box) ∧
    ∀ (o : Options ℝ) (commands : List (Command ℝ)), (∀ c ∈ commands, c.Sized) →
      (((run o commands).finish.box : Box EReal).IsEmpty ↔ (run o commands).finish.Blank) ∧
      (¬ (run o commands).finish.Blank → ((run o commands).finish.box : Box EReal).Proper) := by
  refine ⟨?_, ?_⟩
  · intro o commands
    refine ⟨fun boxes hperm => Picture.same_box_hull _ hperm, fun n => Picture.widensTo_box ?_⟩
    rw [List.take_add_one]
    cases commands[n]? with
    | none => simp
    | some c => simpa using (marks_prefix_attempt (run o (commands.take n)) c).subset
  · intro o commands hsized
    have hreflects := Picture.reflects_box ((sized_start o).foldl_attempt hsized)
    exact ⟨hreflects.isEmpty_iff, hreflects.proper⟩

/-- A disc on top of a layer that holds a polygon without points. -/
def disc {α : Type} [Scalar α] : List (Command α) :=
  [.add (.layered [.polygon []]), .add (.circle ⟨0, 0⟩ 1)]

theorem sized_disc : ∀ c ∈ (disc : List (Command ℝ)), c.Sized := by
  simp only [disc, List.forall_mem_cons, List.not_mem_nil, false_imp_iff, implies_true, and_true]
  constructor
  · intro center radius hleaf
    simp [Shape.leaves, Shape.leavesOf] at hleaf
  · intro center radius hleaf
    simp only [Shape.leaves, List.mem_singleton, Shape.circle.injEq] at hleaf
    rw [hleaf.2]
    exact zero_le_one

/-- The box of a disc is found from its pieces in any order, and is not empty. -/
theorem box_run_disc :
    ((run (Options.standard : Options Float) disc).finish.box : Box Float).Same
        (Box.hull (run (Options.standard : Options Float) disc).finish.pieceBoxes.reverse) ∧
      (∀ c ∈ (disc : List (Command ℝ)), c.Sized) ∧
      (((run Options.standard (disc : List (Command ℝ))).finish.box : Box EReal).IsEmpty ↔
        (run Options.standard (disc : List (Command ℝ))).finish.Blank) :=
  ⟨(box_run.1 Options.standard disc).1 _ (List.reverse_perm _), sized_disc,
    (box_run.2 Options.standard disc sized_disc).1⟩

end Plot

end

end Photoplot
