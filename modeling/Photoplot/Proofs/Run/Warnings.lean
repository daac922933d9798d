import Photoplot.Binary64
import Photoplot.Proofs.Run.Drawing
import Photoplot.Proofs.Run.Grouping

/-!
# Warnings

Warnings are kept beside the drawing and never looked up in it. All the same they say just what
the drawing says: each command that changes one of the two changes the other alike.

* `Segment.report?`: the report on a segment, if it is an arc that misses its circle;
* `Plot.figures`, `Plot.segments`: the figures of a plot, complete or open, and all they hold;
* `Plot.segments_of_stroked`, `Plot.warnings_of_stroked`: what a stroke adds to either;
* `Plot.stroked_or_kept`: only strokes add anything;
* `Plot.Reported`: the warnings are the reports on the segments, and swept regions have none;
* `Plot.warnings_run`: **at every point of a run the warnings are the reports on what is drawn.**
-/

namespace Photoplot

variable {α : Type}

/-! ## The segments of a plot -/

/-- The figure that a part of a picture is, if it is one. -/
def Node.figure? : Node α → Option (Figure α)
  | figure f => some f
  | shape _ => none

@[simp] theorem Node.figure?_figure (f : Figure α) : (figure f).figure? = some f := rfl

@[simp] theorem Node.figure?_shape (s : Shape α) : (shape s).figure? = none := rfl

@[simp] theorem Node.figure?_comp_figure : figure? ∘ figure = (some : Figure α → _) := rfl

namespace Plot

/-- The figures of a plot in the order in which they are drawn, the open one last. -/
def figures (p : Plot α) : List (Figure α) :=
  p.nodes.filterMap Node.figure? ++ p.current.toList

/-- The segments of a plot in the order in which they are drawn. -/
def segments (p : Plot α) : List (Segment α) := p.figures.flatMap Figure.segments

/-- Closing the open figure changes nothing about the figures but where they are held. -/
@[simp] theorem figures_close (p : Plot α) : p.close.figures = p.figures := by
  simp [figures, close]

@[simp] theorem figures_add (p : Plot α) (shape : Shape α) : (p.add shape).figures = p.figures := by
  simp [figures, add, close]

@[simp] theorem segments_close (p : Plot α) : p.close.segments = p.segments := by
  simp [segments]

@[simp] theorem segments_add (p : Plot α) (shape : Shape α) :
    (p.add shape).segments = p.segments := by
  simp [segments]

end Plot

/-! ## Reports -/

variable [Scalar α]

/-- The report on a segment, if it is an arc that misses its circle. -/
def Segment.report? (o : Options α) (s : Segment α) : Option (RadiusMismatch α) :=
  s.arc?.bind (Arc.mismatch? o)

theorem Stroke.reports_eq (o : Options α) (s : Stroke α) :
    s.reports o = (s.drawn o).filterMap (Segment.report? o) := rfl

/-- No report on what a stroke sweeps. -/
theorem Stroke.report?_of_sweeps {s : Stroke α} (h : s.Sweeps) {o : Options α} {segment : Segment α}
    (hsegment : segment ∈ s.drawn o) : segment.report? o = none := by
  have hreports := Stroke.reports_of_sweeps h o
  rw [Stroke.reports_eq, List.filterMap_eq_nil_iff] at hreports
  exact hreports segment hsegment

namespace Plot

variable {p q : Plot α} {s : Stroke α}

theorem options_of_stroked (h : p.Stroked s q) : q.options = p.options := by
  cases h <;> rfl

/-- A stroke adds what it draws after everything that was drawn before. -/
theorem segments_of_stroked (h : p.Stroked s q) : q.segments = p.segments ++ s.drawn p.options := by
  cases h with
  | joined f isOpen takes => simp [segments, figures, isOpen]
  | opened breaks => simp [segments, figures, close]

/-- A stroke adds the reports on what it draws after all earlier ones. -/
theorem warnings_of_stroked (h : p.Stroked s q) :
    q.warnings = p.warnings ++ s.reports p.options := by
  cases h <;> rfl

/-- A command makes a stroke, or it changes neither what is drawn nor what is reported: it closes a
figure or adds a shape, or it is refused. -/
theorem stroked_or_kept (p : Plot α) (c : Command α) :
    (∃ s, p.Stroked s (p.attempt c)) ∨
      ((p.attempt c).figures = p.figures ∧ (p.attempt c).warnings = p.warnings ∧
        (p.attempt c).options = p.options) := by
  cases hperform : p.perform c with
  | error e =>
    rw [attempt_of_error hperform]
    exact .inr ⟨rfl, rfl, rfl⟩
  | ok next =>
    rw [attempt_of_ok hperform]
    cases c with
    | stroke s => exact .inl ⟨s, stroked_of_stroke hperform⟩
    | flash tool position => cases hperform; exact .inr ⟨figures_add _ _, rfl, rfl⟩
    | add shape => cases hperform; exact .inr ⟨figures_add _ _, rfl, rfl⟩
    | close => cases hperform; exact .inr ⟨figures_close _, rfl, rfl⟩

/-- The figures of a plot after a stroke, each with the figure or the stroke it comes from. -/
theorem mem_figures_of_stroked (h : p.Stroked s q) {f : Figure α} (hf : f ∈ q.figures) :
    f ∈ p.figures ∨ f = s.alone p.options ∨
      ∃ g : Figure α, g.breakReason? s.tool s.regionMode = none ∧
        f = g.extended (s.drawn p.options) := by
  cases h with
  | joined g isOpen takes =>
    rcases List.mem_append.1 hf with hf | hf
    · exact .inl (List.mem_append_left _ hf)
    · exact .inr (.inr ⟨g, takes, by simpa using hf⟩)
  | opened breaks =>
    rcases List.mem_append.1 hf with hf | hf
    · left
      rw [← figures_close]
      exact List.mem_append_left _ hf
    · exact .inr (.inl (by simpa using hf))

/-- The warnings say what the drawing says. -/
structure Reported (p : Plot α) : Prop where
  /-- The warnings are the reports on the segments, in their order. -/
  warnings_eq : p.warnings = p.segments.filterMap (Segment.report? p.options)
  /-- There is no report on a swept region. -/
  swept : ∀ segments, Figure.region false segments ∈ p.figures →
    ∀ segment ∈ segments, segment.report? p.options = none

theorem reported_start (o : Options α) : (start o).Reported where
  warnings_eq := rfl
  swept := by
    intro segments h
    cases h

/-- A stroke keeps warnings and drawing in step. -/
theorem Reported.of_stroked (hp : p.Reported) (h : p.Stroked s q) : q.Reported where
  warnings_eq := by
    rw [warnings_of_stroked h, segments_of_stroked h, hp.warnings_eq, options_of_stroked h,
      List.filterMap_append, Stroke.reports_eq]
  swept := by
    rw [options_of_stroked h]
    intro segments hmem
    rcases mem_figures_of_stroked h hmem with hold | halone | ⟨g, takes, hg⟩
    · exact hp.swept segments hold
    · -- only a stroke that sweeps makes a swept region
      by_cases hsweep : s.Sweeps
      · rw [Stroke.alone, if_pos hsweep] at halone
        cases halone
        intro segment hsegment
        exact Stroke.report?_of_sweeps hsweep hsegment
      · rw [Stroke.alone, if_neg hsweep] at halone
        split at halone <;> cases halone
    · -- and such a region takes no stroke
      cases g with
      | path width others => cases hg
      | region inRegionMode others =>
        cases hg
        exact absurd takes (Figure.breakReason?_swept_ne_none _ _)

/-- A command keeps warnings and drawing in step. -/
theorem Reported.attempt (hp : p.Reported) (c : Command α) : (p.attempt c).Reported := by
  rcases stroked_or_kept p c with ⟨s, hs⟩ | ⟨hfigures, hwarnings, hoptions⟩
  · exact hp.of_stroked hs
  · refine ⟨?_, ?_⟩
    · rw [hwarnings, hoptions, segments, hfigures]
      exact hp.warnings_eq
    · rw [hfigures, hoptions]
      exact hp.swept

theorem Reported.foldl_attempt (hp : p.Reported) (commands : List (Command α)) :
    (commands.foldl Plot.attempt p).Reported := by
  induction commands generalizing p with
  | nil => exact hp
  | cons c cs ih => exact ih (hp.attempt c)

/-- **The warnings are the reports on what is drawn.** After any commands, and so at every point of
a run, they are found by going through the segments of all complete figures and then of the open
one: one report for each arc that misses its circle and no other, in the order of the drawing. Swept
regions, which are among those figures, and shapes, which are not, have no part in it, and a refused
stroke leaves neither a segment nor a report. -/
theorem warnings_run (o : Options α) (commands : List (Command α)) :
    (run o commands).warnings = (run o commands).segments.filterMap (Segment.report? o) ∧
      ∀ segments, Figure.region false segments ∈ (run o commands).figures →
        ∀ segment ∈ segments, segment.report? o = none := by
  have hreported := (reported_start o).foldl_attempt commands
  have hoptions : (run o commands).options = o := options_foldl_attempt (start o) commands
  refine ⟨?_, ?_⟩
  · have hwarnings := hreported.warnings_eq
    rwa [← run, hoptions] at hwarnings
  · have hswept := hreported.swept
    rwa [← run, hoptions] at hswept

/-- A square that is swept along by its own width. -/
def sweeping : Stroke Float where
  start := ⟨0, 0⟩
  stop := ⟨1, 0⟩
  offsets := ⟨0, 0⟩
  tool := some (Tool.make (.rectangle 1 1) none)
  interpolation := some (.circular .clockwise)
  regionMode := false
  quadrant := .multi

/-- Nothing is reported about a swept square, even where an arc is asked for. -/
theorem warnings_run_sweeping :
    ∃ segments,
      Figure.region false segments ∈
        (run (Options.standard : Options Float) [.stroke sweeping, .close]).figures ∧
      ∀ segment ∈ segments, segment.report? (Options.standard : Options Float) = none := by
  have hswept : Figure.region false (sweeping.drawn Options.standard) ∈
      (run (Options.standard : Options Float) [.stroke sweeping, .close]).figures :=
    List.mem_singleton_self _
  exact ⟨_, hswept, (warnings_run Options.standard _).2 _ hswept⟩

end Plot

end Photoplot
