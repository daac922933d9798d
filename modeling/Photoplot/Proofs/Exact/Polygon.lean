import Photoplot.Proofs.Exact.Coherence
import Photoplot.Proofs.Chain

/-!
# Convex polygons

Closed chains of lines around convex polygons. A polygon is what lies to the left of all its sides;
the lines bound it when they lead once around it, counter-clockwise, and are its edge.

* `Line.leftOf`, `Line.enclosed`, `Line.doubleArea`: the side of a line on which a point lies, the
  polygon to the left of all its sides, and twice the area that lines lead around;
* `Line.BoundConvex`: lines that bound a convex polygon counter-clockwise;
* `Line.boundConvex_sides`: **the sides of a ring bound a convex polygon** when the edges that it
  leaves out have no length and no corner lies to the right of an edge.
-/

namespace Photoplot

noncomputable section

open Segment (edges sides)

/-! ## Polygons -/

namespace Line

/-- How far a point lies to the left of a line, times the length of the line. -/
def leftOf (l : Line ℝ) (q : Point ℝ) : ℝ :=
  (l.stop.x - l.start.x) * (q.y - l.start.y) - (l.stop.y - l.start.y) * (q.x - l.start.x)

@[simp] theorem leftOf_start (l : Line ℝ) : l.leftOf l.start = 0 := by
  simp [leftOf]

@[simp] theorem leftOf_stop (l : Line ℝ) : l.leftOf l.stop = 0 := by
  rw [leftOf]
  ring

/-- Between the ends of a line the distance from another one changes evenly. -/
theorem exists_leftOf_eq (l : Line ℝ) {m : Line ℝ} {q : Point ℝ}
    (hq : q ∈ (Segment.line m).points) : ∃ t ∈ Set.Icc (0 : ℝ) 1,
      l.leftOf q = (1 - t) * l.leftOf m.start + t * l.leftOf m.stop := by
  obtain ⟨t, ht, rfl⟩ := hq
  refine ⟨t, ht, ?_⟩
  simp only [leftOf]
  ring

/-- The polygon to the left of all its sides. -/
def enclosed (sides : List (Line ℝ)) : Set (Point ℝ) := {q | ∀ l ∈ sides, 0 ≤ l.leftOf q}

/-- Twice the area that lines lead around counter-clockwise. -/
def doubleArea (sides : List (Line ℝ)) : ℝ :=
  (sides.map fun l => l.start.x * l.stop.y - l.stop.x * l.start.y).sum

/-- Lines without a length lead around nothing. -/
theorem doubleArea_filter {sides : List (Line ℝ)} {keep : Line ℝ → Bool}
    (hdrop : ∀ l ∈ sides, keep l = false → l.start = l.stop) :
    doubleArea (sides.filter keep) = doubleArea sides := by
  unfold doubleArea
  induction sides with
  | nil => rfl
  | cons l sides ih =>
    have hrest := ih fun m hm => hdrop m (List.mem_cons_of_mem _ hm)
    cases hkeep : keep l with
    | true => rw [List.filter_cons_of_pos hkeep, List.map_cons, List.map_cons, List.sum_cons,
        List.sum_cons, hrest]
    | false =>
      rw [List.filter_cons_of_neg (by simp [hkeep]), hrest, List.map_cons, List.sum_cons,
        hdrop l List.mem_cons_self hkeep]
      ring

/-- Lines without a length bound nothing. -/
theorem enclosed_filter {sides : List (Line ℝ)} {keep : Line ℝ → Bool}
    (hdrop : ∀ l ∈ sides, keep l = false → l.start = l.stop) :
    enclosed (sides.filter keep) = enclosed sides := by
  ext q
  constructor
  · intro hq l hl
    cases hkeep : keep l with
    | true => exact hq l (List.mem_filter.2 ⟨hl, hkeep⟩)
    | false => simp [leftOf, hdrop l hl hkeep]
  · intro hq l hl
    exact hq l (List.mem_of_mem_filter hl)

/-- The lines bound a convex polygon counter-clockwise. -/
structure BoundConvex (sides : List (Line ℝ)) : Prop where
  /-- Each line ends where the next one starts, the last one where the first one starts. -/
  closed : Segment.Closed (sides.map .line)
  /-- From each line to the next one there is no turn to the right. -/
  turns_left : ∀ l m, (l, m) ∈ sides.zip (sides.drop 1 ++ sides.take 1) → 0 ≤ l.leftOf m.stop
  /-- No corner lies to the right of any line. -/
  convex : ∀ m ∈ sides, m.start ∈ enclosed sides
  /-- The lines lead around an area. -/
  area_pos : 0 < doubleArea sides
  /-- The lines consist of those points of the polygon that do not lie strictly to the left of all of
  them. -/
  boundary : ∀ q, (∃ l ∈ sides, q ∈ (Segment.line l).points) ↔
    q ∈ enclosed sides ∧ ∃ l ∈ sides, l.leftOf q = 0

/-! ## Rings -/

/-- Both ends of an edge are among the points. -/
theorem ends_mem_of_mem_edges {points : List (Point ℝ)} {l : Line ℝ} (h : l ∈ edges points) :
    l.start ∈ points ∧ l.stop ∈ points := by
  obtain ⟨⟨p, q⟩, hmem, rfl⟩ := List.mem_map.1 h
  refine ⟨(List.of_mem_zip hmem).1, ?_⟩
  rcases List.mem_append.1 (List.of_mem_zip hmem).2 with hq | hq
  · exact List.mem_of_mem_drop hq
  · exact List.mem_of_mem_take hq

section Ring

variable {points : List (Point ℝ)}
  (hdropped : ∀ l ∈ edges points, l.start.Coincide l.stop → l.start = l.stop)

include hdropped

/-- The polygon within a ring is that within all its edges. -/
theorem enclosed_sides : enclosed (sides points) = enclosed (edges points) := by
  refine enclosed_filter ?_
  intro l hl hshort
  exact hdropped l hl (Decidable.not_not.1 (of_decide_eq_false hshort))

/-- A ring leads around the area of all its edges. -/
theorem doubleArea_sides : doubleArea (sides points) = doubleArea (edges points) := by
  refine doubleArea_filter ?_
  intro l hl hshort
  exact hdropped l hl (Decidable.not_not.1 (of_decide_eq_false hshort))

/-- **The sides of a ring bound a convex polygon** when no corner lies to the right of an edge and
each point in line with a side that lies within the polygon lies on a side. -/
theorem boundConvex_sides (hcorners : ∀ p ∈ points, p ∈ enclosed (edges points))
    (harea : 0 < doubleArea (edges points))
    (honto : ∀ q ∈ enclosed (edges points), (∃ l ∈ sides points, l.leftOf q = 0) →
      ∃ m ∈ sides points, q ∈ (Segment.line m).points) : BoundConvex (sides points) := by
  have hends : ∀ m ∈ sides points, m.start ∈ enclosed (sides points) ∧
      m.stop ∈ enclosed (sides points) := by
    intro m hm
    obtain ⟨hstart, hstop⟩ := ends_mem_of_mem_edges (List.mem_of_mem_filter hm)
    rw [enclosed_sides hdropped]
    exact ⟨hcorners _ hstart, hcorners _ hstop⟩
  refine ⟨Segment.closed_sides hdropped, ?_, fun m hm => (hends m hm).1, ?_, ?_⟩
  · intro l m hmem
    have hm : m ∈ sides points := by
      rcases List.mem_append.1 (List.of_mem_zip hmem).2 with hm | hm
      · exact List.mem_of_mem_drop hm
      · exact List.mem_of_mem_take hm
    exact (hends m hm).2 l (List.of_mem_zip hmem).1
  · rwa [doubleArea_sides hdropped]
  · intro q
    constructor
    · rintro ⟨m, hm, hq⟩
      refine ⟨?_, m, hm, ?_⟩
      · intro l hl
        obtain ⟨t, ht, hleft⟩ := l.exists_leftOf_eq hq
        rw [hleft]
        exact add_nonneg (mul_nonneg (sub_nonneg.2 ht.2) ((hends m hm).1 l hl))
          (mul_nonneg ht.1 ((hends m hm).2 l hl))
      · obtain ⟨t, -, hleft⟩ := m.exists_leftOf_eq hq
        simpa using hleft
    · rintro ⟨hq, hside⟩
      rw [enclosed_sides hdropped] at hq
      exact honto q hq hside

end Ring

end Line

end

end Photoplot
