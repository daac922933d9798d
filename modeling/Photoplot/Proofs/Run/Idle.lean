import Mathlib.Data.List.Forall2
import Photoplot.Proofs.Binary64
import Photoplot.Proofs.Run.Marks
import Photoplot.Proofs.Run.Warnings

/-!
# Idle commands

Commands that draw nothing still change how strokes are grouped: a close ends a group, and a stroke
without a segment may open one of another width. What is drawn does not depend on that, as long as
every line outside region mode is drawn with a circular tool.

* `Command.Idle`, `Interspersed`: commands that draw nothing, and a run with more of them;
* `Command.marks`: the marks that a command makes on its own, in a figure that nothing else is in;
* `Figure.penRadius_agrees_of_takes`: the pen of a figure that takes a stroke is that of the stroke;
* `Plot.marks_attempt_agree`, `Plot.marks_foldl_attempt_agree`: so the marks of a plot are those
  that its commands make on their own;
* `Plot.marks_run_interspersed`: **with idle commands in between, the marks, the warnings and the
  box of a picture stay the same.**
-/

namespace Photoplot

section Idle

variable {α : Type} [Scalar α]

/-! ## Commands that draw nothing -/

/-- A command that draws nothing: a close, or a stroke that sweeps nothing and has no segment. -/
def Command.Idle (o : Options α) : Command α → Prop
  | stroke s => ¬ s.Sweeps ∧ s.segment? o = .ok none
  | flash _ _ => False
  | add _ => False
  | close => True

/-- Commands with any number of idle ones in between. -/
inductive Interspersed (o : Options α) : List (Command α) → List (Command α) → Prop
  /-- Nothing is added to no commands. -/
  | nil : Interspersed o [] []
  /-- The next command is one of those given. -/
  | keep (c : Command α) {cs ds : List (Command α)} (rest : Interspersed o cs ds) :
      Interspersed o (c :: cs) (c :: ds)
  /-- The next command is an idle one in between. -/
  | idle {c : Command α} (idle : c.Idle o) {cs ds : List (Command α)}
      (rest : Interspersed o cs ds) : Interspersed o cs (c :: ds)

/-- What idle commands contribute nothing to is the same with them. -/
theorem Interspersed.flatMap_eq {γ : Type} {o : Options α} {f : Command α → List γ}
    (hidle : ∀ c, c.Idle o → f c = []) {cs ds : List (Command α)} (h : Interspersed o cs ds) :
    ds.flatMap f = cs.flatMap f := by
  induction h with
  | nil => rfl
  | keep c rest ih => rw [List.flatMap_cons, List.flatMap_cons, ih]
  | idle hc rest ih => rw [List.flatMap_cons, hidle _ hc, List.nil_append, ih]

/-- What holds of the given commands and of idle ones holds of all. -/
theorem Interspersed.forall_mem {o : Options α} {P : Command α → Prop}
    (hidle : ∀ c, c.Idle o → P c) {cs ds : List (Command α)} (h : Interspersed o cs ds)
    (hcs : ∀ c ∈ cs, P c) : ∀ d ∈ ds, P d := by
  induction h with
  | nil => exact hcs
  | keep c rest ih =>
    rw [List.forall_mem_cons] at hcs ⊢
    exact ⟨hcs.1, ih hcs.2⟩
  | idle hc rest ih => exact List.forall_mem_cons.2 ⟨hidle _ hc, ih hcs⟩

/-! ## What commands make on their own -/

/-- The marks that a command makes when no figure is open. -/
def Command.marks (o : Options α) : Command α → List (Mark α)
  | stroke s => (s.alone o).marks
  | flash tool position => [.shape (tool.shapeAt o position)]
  | add shape => [.shape shape]
  | close => []

/-- The reports on what a command draws. -/
def Command.reports (o : Options α) : Command α → List (RadiusMismatch α)
  | stroke s => s.reports o
  | flash _ _ => []
  | add _ => []
  | close => []

/-- A command that draws lines outside region mode only with a circular tool; a rectangular one
draws no lines but sweeps regions. -/
def Command.OwnPen (o : Options α) : Command α → Prop
  | stroke s => s.regionMode = false → s.drawn o ≠ [] →
      (s.tool.bind Tool.diameter?).isSome ∨ (s.tool.bind Tool.rectangle?).isSome
  | flash _ _ => True
  | add _ => True
  | close => True

theorem Stroke.marks_alone (o : Options α) (s : Stroke α) :
    (s.alone o).marks = (s.drawn o).map (.stroked (s.alone o).penRadius) := by
  rw [Figure.marks, segments_alone]

/-- A stroke without a segment draws nothing. -/
theorem Stroke.drawn_of_idle {s : Stroke α} {o : Options α} (h : (Command.stroke s).Idle o) :
    s.drawn o = [] := by
  rw [drawn_of_not_sweeps h.1 h.2, Option.toList_none]

/-- A stroke that is refused draws nothing. -/
theorem Plot.drawn_of_stroke_eq_error {p : Plot α} {s : Stroke α} {e : PlotError α}
    (h : p.stroke s = .error e) : s.drawn p.options = [] := by
  unfold Plot.stroke Stroke.extend at h
  by_cases hsweep : s.Sweeps
  · rw [Stroke.swept?_eq_some_drawn hsweep p.options] at h
    cases h
  · rw [(s.swept?_eq_none_iff).2 hsweep] at h
    rw [Stroke.drawn_eq_of_not_sweeps hsweep]
    cases hsegment : s.segment? p.options with
    | error e => rfl
    | ok segment =>
      rw [hsegment] at h
      cases h

/-- An idle command makes no mark. -/
theorem Command.marks_of_idle {o : Options α} (c : Command α) (h : c.Idle o) : c.marks o = [] := by
  cases c with
  | stroke s => rw [marks, Stroke.marks_alone, Stroke.drawn_of_idle h, List.map_nil]
  | close => rfl
  | _ => cases h

/-- Nothing is reported about an idle command. -/
theorem Command.reports_of_idle {o : Options α} (c : Command α) (h : c.Idle o) :
    c.reports o = [] := by
  cases c with
  | stroke s => rw [reports, Stroke.reports, Stroke.drawn_of_idle h, List.filterMap_nil]
  | close => rfl
  | _ => cases h

theorem Command.ownPen_of_idle {o : Options α} (c : Command α) (h : c.Idle o) : c.OwnPen o := by
  cases c with
  | stroke s => exact fun _ hdrawn => absurd (Stroke.drawn_of_idle h) hdrawn
  | close => trivial
  | _ => cases h

/-! ## Warnings -/

namespace Plot

/-- A command adds the reports on what it draws, after all earlier ones. -/
theorem warnings_attempt (p : Plot α) (c : Command α) :
    (p.attempt c).warnings = p.warnings ++ c.reports p.options := by
  cases hperform : p.perform c with
  | error e =>
    rw [attempt_of_error hperform]
    cases c with
    | stroke s => simp [Command.reports, Stroke.reports, drawn_of_stroke_eq_error hperform]
    | _ => cases hperform
  | ok next =>
    rw [attempt_of_ok hperform]
    cases c with
    | stroke s => exact warnings_of_stroked (stroked_of_stroke hperform)
    | _ => cases hperform; simp [Command.reports, add, close]

theorem warnings_foldl_attempt (p : Plot α) (commands : List (Command α)) :
    (commands.foldl attempt p).warnings =
      p.warnings ++ commands.flatMap (Command.reports p.options) := by
  induction commands generalizing p with
  | nil => simp
  | cons c cs ih =>
    rw [List.foldl_cons, ih, warnings_attempt, options_attempt, List.flatMap_cons,
      List.append_assoc]

end Plot

end Idle

/-! ## Pens -/

/-- Marks that agree show the same thing, drawn with pens whose radii agree. -/
inductive Mark.Agree : Mark Float → Mark Float → Prop
  /-- One segment is drawn with pens of the same radius. -/
  | stroked {r r' : Float} (radii : Agrees r r') (segment : Segment Float) :
      Agree (.stroked r segment) (.stroked r' segment)
  /-- One shape is added. -/
  | shape (shape : Shape Float) : Agree (.shape shape) (.shape shape)

namespace Mark

theorem Agree.refl (m : Mark Float) : m.Agree m := by
  cases m with
  | stroked r segment => exact .stroked (.refl r) segment
  | shape s => exact .shape s

theorem Agree.symm {m n : Mark Float} (h : m.Agree n) : n.Agree m := by
  cases h with
  | stroked radii segment => exact .stroked radii.symm segment
  | shape s => exact .shape s

theorem Agree.trans {l m n : Mark Float} (hlm : l.Agree m) (hmn : m.Agree n) : l.Agree n := by
  cases hlm with
  | stroked radii segment =>
    cases hmn with
    | stroked radii' => exact .stroked (radii.trans radii') segment
  | shape s => exact hmn

theorem forall₂_agree_trans {ls ms ns : List (Mark Float)} (hlm : List.Forall₂ Agree ls ms)
    (hmn : List.Forall₂ Agree ms ns) : List.Forall₂ Agree ls ns := by
  induction hlm generalizing ns with
  | nil => exact hmn
  | cons h rest ih =>
    cases hmn with
    | cons h' rest' => exact .cons (h.trans h') (ih rest')

/-- One segment drawn with the same pen radius is one piece that stays within the same bounds. -/
theorem Agree.forall_boxes_iff {m n : Mark Float} (h : m.Agree n) {axis : Axis} {c : Float}
    (hc : c ≤ c) : (∀ b ∈ m.boxes, (b : Box Float).StaysWithin axis c) ↔
      ∀ b ∈ n.boxes, (b : Box Float).StaysWithin axis c := by
  cases h with
  | stroked radii segment =>
    simp only [boxes, List.forall_mem_singleton, Segment.staysWithin_extent_iff hc]
    have hpen : ∀ p : Point Float, _ := fun p =>
      Box.staysWithin_congr (Box.bound_ofCircle_agrees p radii axis) c
    simp only [hpen]
  | shape s => exact Iff.rfl

theorem forall₂_agree_forall_boxes_iff {ms ns : List (Mark Float)} (h : List.Forall₂ Agree ms ns)
    {axis : Axis} {c : Float} (hc : c ≤ c) :
    (∀ m ∈ ms, ∀ b ∈ m.boxes, (b : Box Float).StaysWithin axis c) ↔
      ∀ n ∈ ns, ∀ b ∈ n.boxes, (b : Box Float).StaysWithin axis c := by
  induction h with
  | nil => exact Iff.rfl
  | cons head rest ih =>
    rw [List.forall_mem_cons, List.forall_mem_cons, head.forall_boxes_iff hc, ih]

end Mark

/-- Outside region mode a figure takes a stroke with a circular tool only if it has the width of
that tool, and regions have no pen. So the pen of a figure that takes a stroke is the one that the
stroke has on its own. -/
theorem Figure.penRadius_agrees_of_takes {f : Figure Float} {s : Stroke Float}
    (takes : f.breakReason? s.tool s.regionMode = none) {o : Options Float}
    (hpen : (Command.stroke s).OwnPen o) (hdrawn : s.drawn o ≠ []) :
    Agrees f.penRadius (s.alone o).penRadius := by
  cases f with
  | path width segments =>
    obtain ⟨hmode, hsweep, hwidth⟩ := (breakReason?_path_eq_none_iff _ _ _).1 takes
    rcases hpen hmode hdrawn with hcircular | hrectangular
    · obtain ⟨diameter, hdiameter⟩ := Option.isSome_iff_exists.1 hcircular
      rw [Stroke.alone, if_neg hsweep, hmode, penRadius, if_neg Bool.false_ne_true, penRadius,
        Stroke.width_of_diameter? hdiameter]
      exact Agrees.half (.inr (hwidth diameter hdiameter).symm)
    · exact absurd ⟨hmode, hrectangular⟩ hsweep
  | region inRegionMode segments =>
    cases inRegionMode with
    | true =>
      have hmode := (breakReason?_region_eq_none_iff _ _).1 takes
      have hsweep : ¬ s.Sweeps := fun h => absurd (hmode.symm.trans h.1) (by decide)
      rw [Stroke.alone, if_neg hsweep, if_pos hmode]
      exact .refl _
    | false => exact absurd takes (breakReason?_swept_ne_none _ _)

/-! ## Runs with idle commands -/

namespace Plot

/-- Wherever the marks of a stroke go, they are those that the stroke makes on its own. -/
theorem marks_stroked_agree {p q : Plot Float} {s : Stroke Float} (h : p.Stroked s q)
    (hpen : (Command.stroke s).OwnPen p.options) : ∃ more,
      q.finish.marks = p.finish.marks ++ more ∧
        List.Forall₂ Mark.Agree more (s.alone p.options).marks := by
  obtain ⟨f, hf, hmarks⟩ := marks_of_stroked h
  refine ⟨_, hmarks, ?_⟩
  rw [Stroke.marks_alone, List.forall₂_map_left_iff, List.forall₂_map_right_iff, List.forall₂_same]
  intro segment hsegment
  refine .stroked ?_ segment
  cases h with
  | joined g isOpen takes =>
    obtain rfl := Option.some.inj hf
    rw [Figure.penRadius_extended]
    exact Figure.penRadius_agrees_of_takes takes hpen (List.ne_nil_of_mem hsegment)
  | opened breaks =>
    obtain rfl := Option.some.inj hf
    exact .refl _

/-- A command adds the marks that it makes on its own. -/
theorem marks_attempt_agree {p : Plot Float} {c : Command Float} (hpen : c.OwnPen p.options) :
    ∃ more, (p.attempt c).finish.marks = p.finish.marks ++ more ∧
      List.Forall₂ Mark.Agree more (c.marks p.options) := by
  cases hperform : p.perform c with
  | error e =>
    rw [attempt_of_error hperform]
    cases c with
    | stroke s =>
      refine ⟨[], (List.append_nil _).symm, ?_⟩
      rw [Command.marks, Stroke.marks_alone, drawn_of_stroke_eq_error hperform]
      exact .nil
    | _ => cases hperform
  | ok next =>
    rw [attempt_of_ok hperform]
    cases c with
    | stroke s => exact marks_stroked_agree (stroked_of_stroke hperform) hpen
    | flash tool position =>
      cases hperform
      exact ⟨_, marks_finish_add _ _, .cons (.refl _) .nil⟩
    | add shape =>
      cases hperform
      exact ⟨_, marks_finish_add _ _, .cons (.refl _) .nil⟩
    | close =>
      cases hperform
      exact ⟨[], by simp, .nil⟩

/-- The marks of a plot are those that its commands make on their own, one after the other. -/
theorem marks_foldl_attempt_agree {p : Plot Float} {commands : List (Command Float)}
    (hpen : ∀ c ∈ commands, c.OwnPen p.options) : ∃ more,
      (commands.foldl attempt p).finish.marks = p.finish.marks ++ more ∧
        List.Forall₂ Mark.Agree more (commands.flatMap (Command.marks p.options)) := by
  induction commands generalizing p with
  | nil => exact ⟨[], (List.append_nil _).symm, .nil⟩
  | cons c cs ih =>
    rw [List.forall_mem_cons] at hpen
    obtain ⟨first, hfirst, hagree⟩ := marks_attempt_agree hpen.1
    obtain ⟨rest, hrest, hagree'⟩ := ih (p := p.attempt c) (by rw [options_attempt]; exact hpen.2)
    rw [options_attempt] at hagree'
    refine ⟨first ++ rest, ?_, ?_⟩
    · rw [List.foldl_cons, hrest, hfirst, List.append_assoc]
    · rw [List.flatMap_cons]
      exact List.rel_append hagree hagree'

/-- The marks of a run are those that its commands make on their own. -/
theorem marks_run_agree {o : Options Float} {commands : List (Command Float)}
    (hpen : ∀ c ∈ commands, c.OwnPen o) :
    List.Forall₂ Mark.Agree (run o commands).finish.marks
      (commands.flatMap (Command.marks o)) := by
  obtain ⟨more, hmarks, hagree⟩ := marks_foldl_attempt_agree (p := start o) hpen
  rw [run, hmarks]
  exact hagree

/-- **Grouping never changes the picture.** When all lines outside region mode are drawn with
circular tools, the marks of a picture are those that its commands make on their own. So idle
commands in between change nothing of what is drawn: every segment keeps its place and the radius of
its pen, every shape its place, the warnings stay the same, and so does the box of the picture up to
the signs of zeros. -/
theorem marks_run_interspersed {o : Options Float} {cs ds : List (Command Float)}
    (h : Interspersed o cs ds) (hpen : ∀ c ∈ cs, c.OwnPen o) :
    List.Forall₂ Mark.Agree (run o cs).finish.marks (cs.flatMap (Command.marks o)) ∧
      List.Forall₂ Mark.Agree (run o ds).finish.marks (run o cs).finish.marks ∧
      (run o ds).warnings = (run o cs).warnings ∧
      ((run o ds).finish.box : Box Float).Same (run o cs).finish.box := by
  have hcs := marks_run_agree hpen
  have hmarks : List.Forall₂ Mark.Agree (run o ds).finish.marks (run o cs).finish.marks := by
    have hds := marks_run_agree (h.forall_mem Command.ownPen_of_idle hpen)
    rw [h.flatMap_eq Command.marks_of_idle] at hds
    exact Mark.forall₂_agree_trans hds (hcs.imp fun _ _ => Mark.Agree.symm).flip
  refine ⟨hcs, hmarks, ?_, ?_⟩
  · rw [run, run, warnings_foldl_attempt, warnings_foldl_attempt]
    exact congrArg _ (h.flatMap_eq Command.reports_of_idle)
  · apply Picture.same_box_of_forall
    intro axis c hc
    exact Mark.forall₂_agree_forall_boxes_iff hmarks hc

/-- A line of width one along the x axis. -/
def dash (x : Float) : Stroke Float where
  start := ⟨x, 0⟩
  stop := ⟨x + 1, 0⟩
  offsets := ⟨0, 0⟩
  tool := some (Tool.make (.circle 1) none)
  interpolation := some .linear
  regionMode := false
  quadrant := .multi

/-- A move of an oblong tool for which no interpolation is set, so that it draws nothing. -/
def lifted : Stroke Float :=
  { dash 1 with tool := some (Tool.make (.obround 1 2) none), interpolation := none }

/-- A close and a move that draws nothing divide a path in two, with one of another width between
them, and nothing else changes. -/
theorem marks_run_interspersed_dashes :
    Interspersed Options.standard [.stroke (dash 0), .stroke (dash 1)]
        [.stroke (dash 0), .close, .stroke lifted, .stroke (dash 1)] ∧
      (∀ c ∈ [Command.stroke (dash 0), .stroke (dash 1)], c.OwnPen Options.standard) ∧
      List.Forall₂ Mark.Agree
        (run Options.standard
          [.stroke (dash 0), .close, .stroke lifted, .stroke (dash 1)]).finish.marks
        (run Options.standard [.stroke (dash 0), .stroke (dash 1)]).finish.marks := by
  have hlifted : (Command.stroke lifted).Idle Options.standard :=
    ⟨by decide, Stroke.segment?_of_interpolation_none _ rfl⟩
  have hclose : (Command.close : Command Float).Idle Options.standard := trivial
  have hinterspersed : Interspersed Options.standard [.stroke (dash 0), .stroke (dash 1)]
      [.stroke (dash 0), .close, .stroke lifted, .stroke (dash 1)] :=
    .keep _ (.idle hclose (.idle hlifted (.keep _ .nil)))
  have hpen : ∀ c ∈ [Command.stroke (dash 0), .stroke (dash 1)], c.OwnPen Options.standard := by
    simp only [List.forall_mem_cons, List.not_mem_nil, false_imp_iff, implies_true, and_true]
    exact ⟨fun _ _ => .inl rfl, fun _ _ => .inl rfl⟩
  exact ⟨hinterspersed, hpen, (marks_run_interspersed hinterspersed hpen).2.1⟩

end Plot

end Photoplot
