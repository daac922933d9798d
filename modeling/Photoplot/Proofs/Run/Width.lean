import Photoplot.Binary64
import Photoplot.Proofs.Run.Grouping

/-!
# Widths of lines

How wide a stroke is drawn. The width of a path is fixed by the stroke that opens it, and only
circular tools are compared with it later; a stroke with any other tool joins whatever path is open.

* `Plot.width_of_stroke`: **a stroke is drawn as wide as its own tool exactly when that is circular,
  or when no path of another width than zero is open**;
* `Plot.roundLine`, `Plot.oblongLine`: a line of no width that is drawn as wide as the line before.
-/

namespace Photoplot

namespace Plot

/-- A stroke outside region mode that sweeps nothing ends in a path, whose width is fixed when it is
opened. It is the width of the stroke itself exactly when the tool is circular, or when no path with
another width than zero is open to take the stroke. -/
theorem width_of_stroke {p q : Plot Float} {s : Stroke Float} (h : p.stroke s = .ok q)
    (hmode : s.regionMode = false) (hrectangle : s.tool.bind Tool.rectangle? = none)
    (hnumber : ¬ IsNaN s.width) : ∃ width segments,
      q.current = some (.path width (segments ++ s.drawn p.options)) ∧
        (SameNumber width s.width ↔ (s.tool.bind Tool.diameter?).isSome ∨
          ∀ other held, p.current = some (.path other held) → SameNumber other 0) := by
  have hsweep : ¬ s.Sweeps := by
    rintro ⟨-, hsome⟩
    rw [hrectangle] at hsome
    cases hsome
  have hself : SameNumber s.width s.width := by
    rw [IsNaN, Decidable.not_not] at hnumber
    exact ⟨hnumber, hnumber⟩
  cases stroked_of_stroke h with
  | joined f isOpen takes =>
    cases f with
    | region inRegionMode segments =>
      rw [hmode] at takes
      cases inRegionMode <;> cases takes
    | path width segments =>
      obtain ⟨-, -, hwidth⟩ := (Figure.breakReason?_path_eq_none_iff _ _ _).1 takes
      refine ⟨width, segments, rfl, ?_⟩
      cases hdiameter : s.tool.bind Tool.diameter? with
      | some diameter =>
        rw [Stroke.width_of_diameter? hdiameter]
        exact iff_of_true (hwidth diameter hdiameter).symm (.inl rfl)
      | none =>
        -- the width of the path was never looked at
        rw [Stroke.width_of_diameter?_eq_none hdiameter, isOpen]
        simp
  | opened breaks =>
    refine ⟨s.width, [], by simp [Stroke.alone, hsweep, hmode], ?_⟩
    refine iff_of_true hself ?_
    cases hdiameter : s.tool.bind Tool.diameter? with
    | some diameter => exact .inl rfl
    | none =>
      refine .inr fun other held hopen => absurd ?_ (breaks _ hopen)
      rw [Figure.breakReason?_path_eq_none_iff, hdiameter]
      exact ⟨hmode, hsweep, fun _ hmem => by cases hmem⟩

/-- A line drawn with a round tool as wide as it is long. -/
def roundLine : Stroke Float where
  start := ⟨0, 0⟩
  stop := ⟨1, 0⟩
  offsets := ⟨0, 0⟩
  tool := some (Tool.make (.circle 1) none)
  interpolation := some .linear
  regionMode := false
  quadrant := .multi

/-- A line drawn with an oblong tool, which has no width of its own. -/
def oblongLine : Stroke Float where
  start := ⟨1, 0⟩
  stop := ⟨2, 0⟩
  offsets := ⟨0, 0⟩
  tool := some (Tool.make (.obround 1 0.5) none)
  interpolation := some .linear
  regionMode := false
  quadrant := .multi

/-- A line with an oblong tool after one with a round tool is drawn with no width only if the path
of the round tool has none. -/
theorem width_of_stroke_oblongLine : ∃ width segments,
    (run Options.standard [.stroke roundLine, .stroke oblongLine]).current =
        some (.path width (segments ++ oblongLine.drawn Options.standard)) ∧
      (SameNumber width oblongLine.width ↔ (oblongLine.tool.bind Tool.diameter?).isSome ∨
        ∀ other held, (run Options.standard [.stroke roundLine]).current = some (.path other held) →
          SameNumber other 0) :=
  width_of_stroke (p := run Options.standard [.stroke roundLine]) rfl rfl rfl (by decide)

/-- Not every line is drawn as wide as its own tool: the line with the oblong tool joins the path of
the round tool and is drawn as wide as that. -/
theorem not_forall_sameNumber_width :
    ¬ ∀ (o : Options Float) (commands : List (Command Float)) (s : Stroke Float) (q : Plot Float),
      (run o commands).stroke s = .ok q → s.regionMode = false →
        s.tool.bind Tool.rectangle? = none → s.drawn o ≠ [] → ¬ IsNaN s.width →
          ∃ width segments, q.current = some (.path width (segments ++ s.drawn o)) ∧
            SameNumber width s.width := by
  intro h
  have hdrawn : oblongLine.drawn Options.standard = [.line ⟨⟨1, 0⟩, ⟨2, 0⟩⟩] := rfl
  have hcurrent : (run Options.standard [.stroke roundLine, .stroke oblongLine]).current =
      some (.path 1 [.line ⟨⟨0, 0⟩, ⟨1, 0⟩⟩, .line ⟨⟨1, 0⟩, ⟨2, 0⟩⟩]) := rfl
  obtain ⟨width, segments, hpath, hsame⟩ :=
    h Options.standard [.stroke roundLine] oblongLine _ rfl rfl rfl (by simp [hdrawn]) (by decide)
  obtain ⟨hwidth, -⟩ := Figure.path.inj (Option.some.inj (hcurrent.symm.trans hpath))
  rw [← hwidth] at hsame
  exact absurd hsame (by decide)

end Plot

end Photoplot
