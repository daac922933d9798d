import Photoplot.Binary64
import Photoplot.Proofs.Run.Warnings

/-!
# Moves without an interpolation

What a stroke does before any interpolation is set. It has no segment to draw, but whether it has one
is never asked of a rectangular tool outside region mode, which sweeps its region all the same.

* `Plot.exists_stroke_eq_ok`: a stroke without an interpolation is never refused;
* `Plot.segments_of_uninterpolated`: **a stroke without an interpolation draws nothing but what its
  tool sweeps outside region mode**, and nothing is reported;
* `Plot.parkedSlab`: a move without an interpolation that draws.
-/

namespace Photoplot

variable {α : Type} [Scalar α]

/-- A ring whose first two points do not count as one has an edge. -/
theorem Segment.ring_cons_cons_ne_nil {p q : Point α} (h : ¬ p.Coincide q)
    (points : List (Point α)) : ring (p :: q :: points) ≠ [] := by
  simp [ring, between?, h]

/-- Without an interpolation nothing is drawn but what a tool sweeps. -/
theorem Stroke.drawn_of_interpolation_none {s : Stroke α} (h : s.interpolation = none)
    (hsweep : ¬ s.Sweeps) (o : Options α) : s.drawn o = [] :=
  drawn_of_not_sweeps hsweep (segment?_of_interpolation_none o h)

/-- Nothing is reported about a stroke without an interpolation. -/
theorem Stroke.reports_of_interpolation_none {s : Stroke α} (h : s.interpolation = none)
    (o : Options α) : s.reports o = [] := by
  by_cases hsweep : s.Sweeps
  · exact reports_of_sweeps hsweep o
  · rw [reports_eq, drawn_of_interpolation_none h hsweep, List.filterMap_nil]

namespace Plot

/-- A stroke without an interpolation looks for no center and is never refused. -/
theorem exists_stroke_eq_ok (p : Plot α) {s : Stroke α} (h : s.interpolation = none) :
    ∃ q, p.stroke s = .ok q := by
  unfold stroke Stroke.extend
  rw [Stroke.segment?_of_interpolation_none p.options h]
  cases s.swept? with
  | none => exact ⟨_, rfl⟩
  | some region => exact ⟨_, rfl⟩

/-- **A move without an interpolation draws only what its tool sweeps.** At every point of a run such
a stroke is obeyed, and nothing is reported about it. It leaves the segments drawn so far as they are
when it is made in region mode, without a tool or with one that is not rectangular. Otherwise, that
is with a rectangular tool outside region mode, the whole outline of what the rectangle sweeps is
added to them. -/
theorem segments_of_uninterpolated (o : Options α) (commands : List (Command α)) {s : Stroke α}
    (h : s.interpolation = none) : ∃ q, (run o commands).stroke s = .ok q ∧
      q.warnings = (run o commands).warnings ∧
      (¬ s.Sweeps → q.segments = (run o commands).segments) ∧
      ∀ xSize ySize, s.regionMode = false → s.tool.bind Tool.rectangle? = some (xSize, ySize) →
        q.segments = (run o commands).segments ++ Sweep.outline s.start s.stop xSize ySize := by
  obtain ⟨q, hq⟩ := exists_stroke_eq_ok (run o commands) h
  have hstroked := stroked_of_stroke hq
  have hsegments := segments_of_stroked hstroked
  refine ⟨q, hq, ?_, ?_, ?_⟩
  · rw [warnings_of_stroked hstroked, Stroke.reports_of_interpolation_none h, List.append_nil]
  · intro hsweep
    rw [hsegments, Stroke.drawn_of_interpolation_none h hsweep, List.append_nil]
  · intro xSize ySize hmode htool
    rw [hsegments, Stroke.drawn, hmode, htool]

/-- A move of a square tool before any interpolation is set. -/
def parkedSlab : Stroke Float where
  start := ⟨0, 0⟩
  stop := ⟨1, 0⟩
  offsets := ⟨0, 0⟩
  tool := some (Tool.make (.rectangle 1 1) none)
  interpolation := none
  regionMode := false
  quadrant := .multi

/-- In region mode the square tool draws nothing without an interpolation, here after a move outside
region mode that has left its region open. -/
theorem segments_of_uninterpolated_region : ∃ q,
    (run Options.standard [.stroke parkedSlab]).stroke { parkedSlab with regionMode := true } =
        .ok q ∧
      q.segments = (run Options.standard [.stroke parkedSlab]).segments := by
  obtain ⟨q, hq, -, hsegments, -⟩ := segments_of_uninterpolated Options.standard
    [.stroke parkedSlab] (s := { parkedSlab with regionMode := true }) rfl
  exact ⟨q, hq, hsegments (by decide)⟩

/-- Whatever the direction of its move, the square tool sweeps an outline with an edge. -/
theorem outline_parkedSlab_ne_nil : Sweep.outline parkedSlab.start parkedSlab.stop 1 1 ≠ [] := by
  unfold Sweep.outline Sweep.hullCorners
  generalize Point.angleFrom parkedSlab.start parkedSlab.stop = θ
  split
  · exact Segment.ring_cons_cons_ne_nil (by decide +kernel) _
  · split
    · exact Segment.ring_cons_cons_ne_nil (by decide +kernel) _
    · split <;> exact Segment.ring_cons_cons_ne_nil (by decide +kernel) _

/-- Not every move without an interpolation draws nothing: the square tool leaves what it sweeps. -/
theorem not_forall_segments_of_uninterpolated :
    ¬ ∀ (o : Options Float) (commands : List (Command Float)) (s : Stroke Float),
      s.interpolation = none → ∃ q, (run o commands).stroke s = .ok q ∧
        q.segments = (run o commands).segments := by
  intro h
  obtain ⟨q, hq, hsegments⟩ := h Options.standard [] parkedSlab rfl
  have hdrawn := segments_of_stroked (stroked_of_stroke hq)
  rw [hsegments] at hdrawn
  exact outline_parkedSlab_ne_nil (List.append_right_eq_self.1 hdrawn.symm)

end Plot

end Photoplot
