import Photoplot.Proofs.Binary64.Difference
import Photoplot.Proofs.Chain.Joined

/-!
# Outlines of rectangles

The sides and corners of a rectangle, as its outline has them and with those that it leaves out. Of the
parts of an outline only sides are left out, and no two in a row unless all are; the parts around one
that is left out lie close to its ends, so that the outline stays joined.

* `Segment.isKept`, `Rectangle.parts`: what there is of an outline before anything is left out;
* `Segment.joined_filter`: **what is kept of a round of segments is joined** when no two are left out in
  a row;
* `Rectangle.outline_eq_filter_parts`, `Rectangle.leads_parts`: an outline as what is kept of a round;
* `Rectangle.cornerArcs`: the corners, counter-clockwise from the lower right one;
* `Rectangle.joined_outline`: **the outline of a rectangle is joined.**
-/

namespace Photoplot

/-! ## Rounds of segments -/

namespace Segment

variable {α : Type} [Scalar α]

/-- What is kept of an outline: arcs, and lines whose ends do not count as one point. -/
def isKept : Segment α → Bool
  | line l => ¬ l.start.Coincide l.stop
  | arc _ => true

@[simp] theorem isKept_line (l : Line α) : (line l).isKept = decide (¬ l.start.Coincide l.stop) := rfl

@[simp] theorem isKept_arc (a : Arc α) : (arc a).isKept = true := rfl

/-- Only lines whose ends count as one point are left out. -/
theorem coincide_of_isKept_eq_false {s : Segment α} (h : s.isKept = false) :
    s.start.Coincide s.stop := by
  cases s with
  | line l => exact Decidable.not_not.1 (of_decide_eq_false h)
  | arc a => cases h

/-- The arcs of an outline are all kept. -/
theorem filterMap_arc?_filter_isKept (segments : List (Segment α)) :
    (segments.filter isKept).filterMap arc? = segments.filterMap arc? := by
  rw [List.filterMap_filter]
  congr 1
  funext s
  cases s with
  | line l => cases h : isKept (line l) <;> rfl
  | arc a => rfl

/-- Sides and corners in turn, without the sides that are left out. -/
theorem filterMap_id_flatMap_between? (places : List (Line α × Arc α)) :
    (places.flatMap fun (l, a) => [between? l.start l.stop, some (arc a)]).filterMap id =
      (places.flatMap fun (l, a) => [line l, arc a]).filter isKept := by
  induction places with
  | nil => rfl
  | cons place places ih =>
    obtain ⟨l, a⟩ := place
    rw [List.flatMap_cons, List.flatMap_cons, List.filterMap_append, List.filter_append, ih]
    congr 1
    have hcorner : [arc a] = [arc a].filter isKept := rfl
    by_cases h : l.start.Coincide l.stop
    · simpa [between?, h] using hcorner
    · simpa [between?, h] using hcorner

/-- **What is kept of a round is joined.** Segments that lead back to where they start, without some
whose ends count as one point and no two of which follow each other, are joined. -/
theorem joined_filter {segments : List (Segment α)} {p : Point α} {keep : Segment α → Bool}
    (hround : Leads p segments p) (hself : ∀ s ∈ segments, s.start.Coincide s.start)
    (hdropped : ∀ s ∈ segments, keep s = false → s.start.Coincide s.stop)
    (hapart : (segments ++ segments).IsChain fun s t => keep s ∨ keep t) :
    Joined (segments.filter keep) := by
  rw [joined_iff_isChain_append_self, ← List.filter_append, isChain_filter_iff]
  intro before left after hrow hbefore hafter hleft
  have hmem : ∀ s ∈ before :: (left ++ [after]), s ∈ segments := by
    intro s hs
    simpa using hrow.subset hs
  have htwice := hround.append hround
  have hleads := htwice.infix hrow
  rcases left with _ | ⟨s, _ | ⟨t, left⟩⟩
  · rw [leads_nil_iff.1 hleads]
    exact hself after (hmem after (by simp))
  · obtain ⟨hstart, hstop⟩ := leads_cons_iff.1 hleads
    rw [hstart, ← leads_nil_iff.1 hstop]
    exact hdropped s (hmem s (by simp)) (by simpa using hleft s)
  · have hnext : [s, t] <:+: before :: (s :: t :: left ++ [after]) :=
      ⟨[before], left ++ [after], by simp⟩
    have hkept : [s, t].IsChain fun s t => keep s ∨ keep t := hapart.infix (hnext.trans hrow)
    rw [List.isChain_pair] at hkept
    exact absurd hkept (by simp [hleft s, hleft t])

end Segment

/-! ## Parts of rectangles -/

namespace Rectangle

variable {α : Type} [Scalar α]

/-- The corners of a rounded outline, counter-clockwise by the quarters of their circles that they run
through: lower right, upper right, upper left and lower left. -/
def cornerArcs (r : Rectangle α) (radius : α) : List (Arc α) :=
  let x₀ := r.corner.x
  let y₀ := r.corner.y
  let x₁ := r.xFar
  let y₁ := r.yFar
  let quarter (center start stop : Point α) : Arc α :=
    Arc.around start stop center radius Angle.quarterTurn .counterclockwise
  [ quarter ⟨x₁ - radius, y₀ + radius⟩ ⟨x₁ - radius, y₀⟩ ⟨x₁, y₀ + radius⟩,
    quarter ⟨x₁ - radius, y₁ - radius⟩ ⟨x₁, y₁ - radius⟩ ⟨x₁ - radius, y₁⟩,
    quarter ⟨x₀ + radius, y₁ - radius⟩ ⟨x₀ + radius, y₁⟩ ⟨x₀, y₁ - radius⟩,
    quarter ⟨x₀ + radius, y₀ + radius⟩ ⟨x₀, y₀ + radius⟩ ⟨x₀ + radius, y₀⟩ ]

/-- The sides of a rounded outline, each leading into the corner of the same place. -/
def straightSides (r : Rectangle α) (radius : α) : List (Line α) :=
  let x₀ := r.corner.x
  let y₀ := r.corner.y
  let x₁ := r.xFar
  let y₁ := r.yFar
  [ ⟨⟨x₀ + radius, y₀⟩, ⟨x₁ - radius, y₀⟩⟩, ⟨⟨x₁, y₀ + radius⟩, ⟨x₁, y₁ - radius⟩⟩,
    ⟨⟨x₁ - radius, y₁⟩, ⟨x₀ + radius, y₁⟩⟩, ⟨⟨x₀, y₁ - radius⟩, ⟨x₀, y₀ + radius⟩⟩ ]

/-- All sides and corners of an outline, also the sides that it leaves out. -/
def parts (r : Rectangle α) : List (Segment α) :=
  if r.cornerRadius ≤ 0 then (Segment.edges r.corners).map .line
  else ((r.straightSides r.cornerRadius).zip (r.cornerArcs r.cornerRadius)).flatMap
    fun (side, corner) => [.line side, .arc corner]

/-- An outline is what is kept of its parts. -/
theorem outline_eq_filter_parts (r : Rectangle α) : r.outline = r.parts.filter Segment.isKept := by
  unfold outline parts
  split
  · rw [Segment.ring_eq_map_sides, Segment.sides, List.filter_map]
    rfl
  · exact Segment.filterMap_id_flatMap_between?
      ((r.straightSides r.cornerRadius).zip (r.cornerArcs r.cornerRadius))

/-- The parts of an outline lead from one to the next and back to the first. -/
theorem exists_leads_parts (r : Rectangle α) : ∃ p, Segment.Leads p r.parts p := by
  unfold parts
  split
  · exact ⟨r.corner, Segment.leads_zip _ r.corner r.corner⟩
  · refine ⟨⟨r.corner.x + r.cornerRadius, r.corner.y⟩, ?_⟩
    simp [straightSides, cornerArcs, Arc.around, Segment.start, Segment.stop]

end Rectangle

/-! ## Finite rectangles -/

/-- A double differs from another one by no more than the tolerance when the other one does from it. -/
theorem Point.coincide_comm (p q : Point Float) : p.Coincide q ↔ q.Coincide p := by
  unfold Coincide
  rw [Binary64.abs_sub_swap p.x, Binary64.abs_sub_swap p.y]

/-- A finite coordinate is close to itself. -/
theorem abs_sub_self_le_tolerance {x : Float} (hx : IsFinite x) :
    Scalar.abs (x - x) ≤ Point.tolerance := by
  rw [hx.abs_sub_self]
  decide

namespace Axis

/-- A point straight in the direction of an axis from a center. -/
def Straight (axis : Axis) (center p : Point Float) : Prop :=
  match axis with
  | right => center.x ≤ p.x ∧ p.y = center.y
  | up => p.x = center.x ∧ center.y ≤ p.y
  | left => p.x ≤ center.x ∧ p.y = center.y
  | down => p.x = center.x ∧ p.y ≤ center.y

end Axis

/-- An arc makes a quarter turn counter-clockwise, from straight in one direction to straight in another
one. -/
structure Arc.IsQuarter (a : Arc Float) (first last : Axis) : Prop where
  /-- The arc is travelled counter-clockwise. -/
  counterclockwise : a.direction = .counterclockwise
  /-- It makes a quarter turn. -/
  sweep_eq : a.sweep = Angle.quarterTurn
  /-- It starts straight in the first direction. -/
  start_straight : first.Straight a.center a.start
  /-- It ends straight in the last direction. -/
  stop_straight : last.Straight a.center a.stop

namespace Rectangle

/-- A rectangle whose corners are finite and, where it is rounded, the points at which its sides meet
its corners. -/
structure IsFinite (r : Rectangle Float) : Prop where
  /-- The corner from which the sizes count is finite. -/
  corner : r.corner.IsFinite
  /-- So is the corner across from it. -/
  far : Point.IsFinite (⟨r.xFar, r.yFar⟩ : Point Float)
  /-- The rounding ends at finite coordinates near the corner from which the sizes count. -/
  rounding : ¬ r.cornerRadius ≤ 0 → Point.IsFinite
    (⟨r.corner.x + r.cornerRadius, r.corner.y + r.cornerRadius⟩ : Point Float)
  /-- And so it does near the corner across from it. -/
  far_rounding : ¬ r.cornerRadius ≤ 0 → Point.IsFinite
    (⟨r.xFar - r.cornerRadius, r.yFar - r.cornerRadius⟩ : Point Float)

namespace IsFinite

variable {r : Rectangle Float} (h : r.IsFinite)

include h

/-- The parts of a finite rectangle start at finite points. -/
theorem start_isFinite : ∀ s ∈ r.parts, s.start.IsFinite := by
  obtain ⟨hcorner, hfar, hround, hfarRound⟩ := h
  unfold parts
  split
  · simp only [Segment.edges, corners, List.drop_succ_cons, List.drop_zero, List.take_succ_cons,
      List.take_zero, List.cons_append, List.nil_append, List.zip_cons_cons, List.zip_nil_right,
      List.map_cons, List.map_nil, List.forall_mem_cons, List.not_mem_nil, false_imp_iff, implies_true,
      and_true, Segment.start]
    exact ⟨hcorner, ⟨hfar.1, hcorner.2⟩, hfar, hcorner.1, hfar.2⟩
  · rename_i hpos
    obtain ⟨hx, hy⟩ := hround hpos
    obtain ⟨hx', hy'⟩ := hfarRound hpos
    simp only [straightSides, cornerArcs, Arc.around, List.zip_cons_cons, List.zip_nil_right,
      List.flatMap_cons, List.flatMap_nil, List.cons_append, List.nil_append, List.forall_mem_cons,
      List.not_mem_nil, false_imp_iff, implies_true, and_true, Segment.start]
    exact ⟨⟨hx, hcorner.2⟩, ⟨hx', hcorner.2⟩, ⟨hfar.1, hy⟩, ⟨hfar.1, hy'⟩, ⟨hx', hfar.2⟩,
      ⟨hx, hfar.2⟩, ⟨hcorner.1, hy'⟩, hcorner.1, hy⟩

/-- Opposite sides of a sharp outline are kept or left out together. -/
theorem coincide_across :
    (r.corner.Coincide ⟨r.xFar, r.corner.y⟩ ↔
      (⟨r.xFar, r.yFar⟩ : Point Float).Coincide ⟨r.corner.x, r.yFar⟩) ∧
    ((⟨r.xFar, r.corner.y⟩ : Point Float).Coincide ⟨r.xFar, r.yFar⟩ ↔
      (⟨r.corner.x, r.yFar⟩ : Point Float).Coincide r.corner) := by
  obtain ⟨hcorner, hfar, -, -⟩ := h
  have hself := fun {x : Float} (hx : Photoplot.IsFinite x) => abs_sub_self_le_tolerance hx
  constructor
  · rw [Point.coincide_comm ⟨r.xFar, r.yFar⟩]
    unfold Point.Coincide
    simp only [hself hcorner.2, hself hfar.2]
  · rw [Point.coincide_comm ⟨r.corner.x, r.yFar⟩]
    unfold Point.Coincide
    simp only [hself hcorner.1, hself hfar.1]

/-- **The outline of a finite rectangle is joined.** -/
theorem joined : Segment.Joined r.outline := by
  obtain ⟨p, hround⟩ := r.exists_leads_parts
  have hself : ∀ s ∈ r.parts, s.start.Coincide s.start :=
    fun s hs => (h.start_isFinite s hs).coincide_self
  have hdropped : ∀ s ∈ r.parts, s.isKept = false → s.start.Coincide s.stop :=
    fun s _ hs => Segment.coincide_of_isKept_eq_false hs
  have hjoined := Segment.joined_filter hround hself hdropped
  rw [outline_eq_filter_parts]
  by_cases hsharp : r.cornerRadius ≤ 0
  · obtain ⟨hhorizontal, hvertical⟩ := h.coincide_across
    have hparts : r.parts = (Segment.edges r.corners).map .line := if_pos hsharp
    by_cases hnone : r.corner.Coincide ⟨r.xFar, r.corner.y⟩ ∧
      (⟨r.xFar, r.corner.y⟩ : Point Float).Coincide ⟨r.xFar, r.yFar⟩
    · -- all corners count as one point, and nothing is left
      obtain ⟨hx, hy⟩ := hnone
      have hempty : r.parts.filter Segment.isKept = [] := by
        rw [List.filter_eq_nil_iff, hparts]
        simp [Segment.edges, corners, hx, hy, ← hhorizontal, ← hvertical]
      rw [hempty]
      exact List.isChain_nil
    · refine hjoined ?_
      rw [hparts]
      -- every other side is kept
      rcases not_and_or.1 hnone with hx | hy
      · simp [Segment.edges, corners, hx, ← hhorizontal]
      · simp [Segment.edges, corners, hy, ← hvertical]
  · -- every other part is a corner
    refine hjoined ?_
    rw [parts, if_neg hsharp]
    simp [straightSides, cornerArcs]

/-- The corners of a finite rectangle that is rounded make quarter turns, one after the other. -/
theorem forall_isQuarter (hround : 0 < r.cornerRadius) :
    List.Forall₂ (fun (a : Arc Float) (turn : Axis × Axis) => a.IsQuarter turn.1 turn.2)
      (r.cornerArcs r.cornerRadius)
      [(.down, .right), (.right, .up), (.up, .left), (.left, .down)] := by
  obtain ⟨hcorner, hfar, -, hfarRound⟩ := h
  have hpos : ¬ r.cornerRadius ≤ 0 := ((Binary64.lt_iff_not_le _ _).1 hround).2
  have hfinite := (Binary64.isFinite_of_sub (hfarRound hpos).1).2
  have hradius : 0 < Binary64.toReal r.cornerRadius := (Binary64.isFinite_zero.lt_iff hfinite).1 hround
  have hadd : ∀ {x : Float}, Photoplot.IsFinite x → x ≤ x + r.cornerRadius := fun {x} hx =>
    (Binary64.rounds_add hx hfinite x hx).2 (by linarith)
  have hsub : ∀ {x : Float}, Photoplot.IsFinite x → x - r.cornerRadius ≤ x := fun {x} hx =>
    (Binary64.rounds_sub hx hfinite x hx).1 (by linarith)
  refine .cons ?_ (.cons ?_ (.cons ?_ (.cons ?_ .nil)))
  · exact ⟨rfl, rfl, ⟨rfl, hadd hcorner.2⟩, hsub hfar.1, rfl⟩
  · exact ⟨rfl, rfl, ⟨hsub hfar.1, rfl⟩, rfl, hsub hfar.2⟩
  · exact ⟨rfl, rfl, ⟨rfl, hsub hfar.2⟩, hadd hcorner.1, rfl⟩
  · exact ⟨rfl, rfl, ⟨hadd hcorner.1, rfl⟩, rfl, hadd hcorner.2⟩

end IsFinite

/-- **The outline of a rectangle is joined,** whatever the signs of the sizes and the rounding. It is
made of all sides and corners but for sides whose ends count as one point, and when none is left out each
part starts where the one before it ends. With a rounding all four corners are there, in
counter-clockwise order: each turns on from the direction in which the one before it ends. -/
theorem joined_outline {r : Rectangle Float} (h : r.IsFinite) :
    Segment.Joined (Shape.rectangle r).outline ∧
    (Shape.rectangle r).outline = r.parts.filter Segment.isKept ∧
    ((Shape.rectangle r).outline = r.parts → Segment.Closed (Shape.rectangle r).outline) ∧
    (0 < r.cornerRadius →
      (Shape.rectangle r).outline.filterMap Segment.arc? = r.cornerArcs r.cornerRadius ∧
      List.Forall₂ (fun (a : Arc Float) (turn : Axis × Axis) => a.IsQuarter turn.1 turn.2)
        (r.cornerArcs r.cornerRadius)
        [(.down, .right), (.right, .up), (.up, .left), (.left, .down)]) := by
  rw [Shape.outline]
  refine ⟨h.joined, r.outline_eq_filter_parts, fun hwhole => ?_, fun hround => ⟨?_, ?_⟩⟩
  · obtain ⟨p, hleads⟩ := r.exists_leads_parts
    rw [hwhole]
    exact hleads.closed
  · have hpos : ¬ r.cornerRadius ≤ 0 := ((Binary64.lt_iff_not_le _ _).1 hround).2
    rw [outline_eq_filter_parts, Segment.filterMap_arc?_filter_isKept, parts, if_neg hpos]
    rfl
  · exact h.forall_isQuarter hround

/-- A rectangle that runs to the left from its corner and is rounded so much that its upright sides are
left out. -/
def lozenge : Rectangle Float := ⟨⟨0, 0⟩, -4, 2, some 5⟩

/-- Six of its eight parts are left, and they are joined around the four corners. -/
theorem joined_outline_lozenge :
    lozenge.IsFinite ∧ Segment.Joined (Shape.rectangle lozenge).outline ∧
      (Shape.rectangle lozenge).outline.length = 6 ∧
      (Shape.rectangle lozenge).outline.filterMap Segment.arc? =
        lozenge.cornerArcs lozenge.cornerRadius := by
  have hfinite : lozenge.IsFinite :=
    ⟨by decide +kernel, by decide +kernel, fun _ => by decide +kernel, fun _ => by decide +kernel⟩
  have hround : 0 < lozenge.cornerRadius := by decide +kernel
  have hlength : (Shape.rectangle lozenge).outline.length = 6 := by decide +kernel
  obtain ⟨hjoined, -, -, hcorners⟩ := joined_outline hfinite
  exact ⟨hfinite, hjoined, hlength, (hcorners hround).1⟩

end Rectangle

end Photoplot
