import Photoplot.Plot

/-!
# Runs of a plot

One account of what a command does, from which the theorems about whole runs are derived.

* `Stroke.Sweeps`, `Stroke.drawn`: when a stroke sweeps a region of its own, and the segments that
  a stroke puts into the picture;
* `Plot.Stroked`, `Plot.stroked_of_stroke`: **a stroke that is obeyed joins the open figure or opens
  one**, and nothing else happens to the plot;
* `Plot.obeyed`: the commands of a run that are not refused;
* `Plot.nodes_prefix_attempt`: complete parts stay, in their order.
-/

namespace Photoplot

variable {α : Type}

/-- The figure with more segments at its end. -/
def Figure.extended (f : Figure α) (more : List (Segment α)) : Figure α :=
  match f with
  | path width segments => path width (segments ++ more)
  | region inRegionMode segments => region inRegionMode (segments ++ more)

@[simp] theorem Figure.segments_extended (f : Figure α) (more : List (Segment α)) :
    (f.extended more).segments = f.segments ++ more := by
  cases f <;> rfl

@[simp] theorem Figure.extended_nil (f : Figure α) : f.extended [] = f := by
  cases f <;> simp [extended]

theorem Figure.push_eq_extended (segment : Segment α) (f : Figure α) :
    f.push segment = f.extended [segment] := by
  cases f <;> rfl

/-! ## What a stroke draws -/

namespace Stroke

/-- A stroke with a rectangular tool outside region mode: it sweeps a region of its own. -/
def Sweeps (s : Stroke α) : Prop :=
  s.regionMode = false ∧ (s.tool.bind Tool.rectangle?).isSome

instance (s : Stroke α) : Decidable s.Sweeps :=
  inferInstanceAs (Decidable (_ ∧ _))

variable [Scalar α]

/-- The segments that a stroke puts into the picture: the whole outline of what a rectangular tool
sweeps outside region mode, else the segment of the move if it has one. -/
def drawn (o : Options α) (s : Stroke α) : List (Segment α) :=
  match s.regionMode, s.tool.bind Tool.rectangle? with
  | false, some (xSize, ySize) => Sweep.outline s.start s.stop xSize ySize
  | _, _ =>
    match s.segment? o with
    | .ok (some segment) => [segment]
    | .ok none => []
    | .error _ => []

/-- The reports on the arcs that a stroke draws. -/
def reports (o : Options α) (s : Stroke α) : List (RadiusMismatch α) :=
  (s.drawn o).filterMap fun segment => segment.arc?.bind (Arc.mismatch? o)

/-- The figure that a stroke makes when it joins no other. -/
def alone (o : Options α) (s : Stroke α) : Figure α :=
  if s.Sweeps then .region false (s.drawn o)
  else if s.regionMode then .region true (s.drawn o)
  else .path s.width (s.drawn o)

/-- A circular tool draws lines of its diameter. -/
theorem width_of_diameter? {s : Stroke α} {diameter : α}
    (h : s.tool.bind Tool.diameter? = some diameter) : s.width = diameter := by
  rw [width, h, Option.getD_some]

/-- Any other tool draws lines without a width. -/
theorem width_of_diameter?_eq_none {s : Stroke α} (h : s.tool.bind Tool.diameter? = none) :
    s.width = 0 := by
  rw [width, h, Option.getD_none]

theorem swept?_eq_none_iff (s : Stroke α) : s.swept? = none ↔ ¬ s.Sweeps := by
  unfold swept? Sweeps
  cases s.regionMode with
  | true => simp
  | false => simp

/-- The swept region is bounded by what the stroke draws. -/
theorem swept?_eq_some_drawn {s : Stroke α} (h : s.Sweeps) (o : Options α) :
    s.swept? = some (.region false (s.drawn o)) := by
  obtain ⟨hmode, hsize⟩ := h
  obtain ⟨size, hsize⟩ := Option.isSome_iff_exists.1 hsize
  simp [swept?, drawn, hmode, hsize]

/-- A stroke that sweeps nothing draws no more than the segment of its move. -/
theorem drawn_eq_of_not_sweeps {s : Stroke α} (h : ¬ s.Sweeps) (o : Options α) :
    s.drawn o = match s.segment? o with
      | .ok (some segment) => [segment]
      | .ok none => []
      | .error _ => [] := by
  unfold drawn
  split
  · rename_i hmode hsize
    exact absurd ⟨hmode, by simp [hsize]⟩ h
  · rfl

/-- A stroke that sweeps nothing draws the segment of its move. -/
theorem drawn_of_not_sweeps {s : Stroke α} (h : ¬ s.Sweeps) {o : Options α}
    {segment : Option (Segment α)} (hseg : s.segment? o = .ok segment) :
    s.drawn o = segment.toList := by
  rw [drawn_eq_of_not_sweeps h, hseg]
  cases segment <;> rfl

/-- A segment that is an arc is the arc of the move that the stroke makes. -/
theorem exists_arc?_of_segment? {o : Options α} {s : Stroke α} {a : Arc α}
    (h : s.segment? o = .ok (some (.arc a))) :
    ∃ direction, s.interpolation = some (.circular direction) ∧
      (s.arcMove direction).arc? o s.quadrant = .ok (some a) := by
  unfold segment? at h
  split at h
  · cases h
  · simp [Segment.between?] at h
  · rename_i direction hcircular
    refine ⟨direction, hcircular, ?_⟩
    cases harc : (s.arcMove direction).arc? o s.quadrant with
    | error e => simp [harc, Except.map] at h
    | ok arc => simpa [harc, Except.map] using h

/-- The segment of a stroke whose offsets are magnitudes is the arc found for its move. -/
theorem segment?_of_quarterArc? {o : Options α} {s : Stroke α} {direction : Direction}
    (hcircular : s.interpolation = some (.circular direction)) (hsingle : s.quadrant = .single)
    {arc : Option (Arc α)} (h : (s.arcMove direction).quarterArc? o = .ok arc) :
    s.segment? o = .ok (arc.map .arc) := by
  simp only [segment?, hcircular, hsingle, ArcMove.arc?, h, Except.map]

/-- An arc that a stroke draws is its segment: nothing that is swept has arcs. -/
theorem segment?_of_arc_mem_drawn {o : Options α} {s : Stroke α} {a : Arc α}
    (h : .arc a ∈ s.drawn o) : s.segment? o = .ok (some (.arc a)) := by
  unfold drawn at h
  split at h
  · obtain ⟨p, q, -, -, -, hline⟩ := Segment.exists_of_mem_ring h
    cases hline
  · split at h
    · rename_i segment hsegment
      rw [List.mem_singleton] at h
      rw [h, hsegment]
    · cases h
    · cases h

/-- A stroke whose segment is appended to a figure extends it by what the stroke draws. -/
theorem append_some {s : Stroke α} (h : ¬ s.Sweeps) {o : Options α} {segment : Option (Segment α)}
    (hseg : s.segment? o = .ok segment) (f : Figure α) :
    append (some f) segment s = f.extended (s.drawn o) := by
  rw [drawn_of_not_sweeps h hseg]
  cases segment with
  | none => simp [append]
  | some segment => simp [append, Figure.push_eq_extended]

/-- A stroke whose segment is appended to nothing makes a figure of its own. -/
theorem append_none {s : Stroke α} (h : ¬ s.Sweeps) {o : Options α} {segment : Option (Segment α)}
    (hseg : s.segment? o = .ok segment) :
    append none segment s = s.alone o := by
  rw [alone, if_neg h, drawn_of_not_sweeps h hseg]
  cases segment <;> cases hmode : s.regionMode <;>
    simp [append, opened, Figure.push, hmode]

/-- Nothing is reported about a swept region: its outline has no arcs. -/
theorem reports_of_sweeps {s : Stroke α} (h : s.Sweeps) (o : Options α) : s.reports o = [] := by
  obtain ⟨hmode, hsize⟩ := h
  obtain ⟨size, hsize⟩ := Option.isSome_iff_exists.1 hsize
  have hdrawn : s.drawn o = Sweep.outline s.start s.stop size.1 size.2 := by
    simp [drawn, hmode, hsize]
  rw [reports, hdrawn, List.filterMap_eq_nil_iff]
  intro segment hmem
  obtain ⟨p, q, -, -, -, rfl⟩ := Segment.exists_of_mem_ring hmem
  rfl

/-- The report on the segment of a stroke is the report on what it draws. -/
theorem reports_of_not_sweeps {s : Stroke α} (h : ¬ s.Sweeps) {o : Options α}
    {segment : Option (Segment α)} (hseg : s.segment? o = .ok segment) :
    s.reports o = (mismatch? o segment).toList := by
  rw [reports, drawn_of_not_sweeps h hseg]
  cases segment with
  | none => rfl
  | some segment =>
    cases hreport : segment.arc?.bind (Arc.mismatch? o) <;> simp [mismatch?, hreport]

/-- A stroke that sweeps nothing is obeyed when its segment is known. -/
theorem extend_of_segment? {o : Options α} {s : Stroke α} (h : ¬ s.Sweeps)
    {segment : Option (Segment α)} (hseg : s.segment? o = .ok segment) (open? : Option (Figure α)) :
    extend o open? s = .ok ⟨(split open? s).1, mismatch? o segment,
      append (split open? s).2 segment s⟩ := by
  rw [extend, (swept?_eq_none_iff s).2 h, hseg]
  rfl

/-- What a stroke that is obeyed warns about is the report on what it draws. -/
theorem warning_of_extend {o : Options α} {open? : Option (Figure α)} {s : Stroke α}
    {outcome : Outcome α} (h : extend o open? s = .ok outcome) :
    outcome.warning.toList = s.reports o := by
  by_cases hsweep : s.Sweeps
  · rw [extend, swept?_eq_some_drawn hsweep o] at h
    cases h
    rw [reports_of_sweeps hsweep]
    rfl
  · cases hsegment : s.segment? o with
    | error e =>
      rw [extend, (swept?_eq_none_iff s).2 hsweep, hsegment] at h
      cases h
    | ok segment =>
      rw [extend_of_segment? hsweep hsegment] at h
      cases h
      rw [reports_of_not_sweeps hsweep hsegment]

end Stroke

/-! ## One step -/

namespace Plot

section Close

theorem nodes_prefix_close (p : Plot α) : p.nodes <+: p.close.nodes :=
  List.prefix_append _ _

theorem nodes_prefix_add (p : Plot α) (shape : Shape α) : p.nodes <+: (p.add shape).nodes :=
  (p.nodes_prefix_close).trans (List.prefix_append _ _)

end Close

variable [Scalar α]

/-- What becomes of a plot when it obeys a stroke. -/
inductive Stroked (p : Plot α) (s : Stroke α) : Plot α → Prop
  /-- The open figure takes the stroke. -/
  | joined (f : Figure α) (isOpen : p.current = some f)
      (takes : f.breakReason? s.tool s.regionMode = none) :
      Stroked p s { p with
        current := some (f.extended (s.drawn p.options))
        warnings := p.warnings ++ s.reports p.options }
  /-- No figure is open, or the open one cannot take the stroke; a new one is opened. -/
  | opened (breaks : ∀ f ∈ p.current, f.breakReason? s.tool s.regionMode ≠ none) :
      Stroked p s { p.close with
        current := some (s.alone p.options)
        warnings := p.warnings ++ s.reports p.options }

/-- A stroke that sweeps is taken by no figure. -/
theorem breakReason?_of_sweeps {s : Stroke α} (h : s.Sweeps) (f : Figure α) :
    f.breakReason? s.tool s.regionMode ≠ none := by
  have hclosed := Stroke.split_of_swept? (Stroke.swept?_eq_some_drawn h Options.standard) (some f)
  intro hnone
  simp [Stroke.split, hnone] at hclosed

/-- **One step of a stroke.** A stroke that is obeyed joins the open figure or opens one. -/
theorem stroked_of_stroke {p q : Plot α} {s : Stroke α} (h : p.stroke s = .ok q) :
    p.Stroked s q := by
  unfold stroke Stroke.extend at h
  by_cases hsweep : s.Sweeps
  · -- the whole slot is closed, and the swept region takes its place
    have hregion := Stroke.swept?_eq_some_drawn hsweep p.options
    have hq : q = { p.close with
        current := some (s.alone p.options)
        warnings := p.warnings ++ s.reports p.options } := by
      rw [Stroke.split_of_swept? hregion, hregion] at h
      cases h
      simp [close, Stroke.alone, hsweep, Stroke.reports_of_sweeps hsweep]
    rw [hq]
    apply Stroked.opened
    intro f _
    exact breakReason?_of_sweeps hsweep f
  · rw [(s.swept?_eq_none_iff).2 hsweep] at h
    cases hseg : s.segment? p.options with
    | error e => simp [hseg, Except.map] at h
    | ok segment =>
      simp only [hseg, Except.map, Except.ok.injEq] at h
      subst h
      rw [← Stroke.reports_of_not_sweeps hsweep hseg]
      cases hopen : p.current with
      | none =>
        have hstroked := Stroked.opened (p := p) (s := s) (by simp [hopen])
        simpa [Stroke.split, Stroke.append_none hsweep hseg, close, hopen] using hstroked
      | some f =>
        cases hreason : f.breakReason? s.tool s.regionMode with
        | none =>
          have hstroked := Stroked.joined (p := p) (s := s) f hopen hreason
          simpa [Stroke.split, hreason, Stroke.append_some hsweep hseg] using hstroked
        | some reason =>
          have hstroked := Stroked.opened (p := p) (s := s) (by simp [hopen, hreason])
          simpa [Stroke.split, hreason, Stroke.append_none hsweep hseg, close, hopen] using hstroked

/-! ## Many steps -/

theorem attempt_of_ok {p next : Plot α} {c : Command α} (h : p.perform c = .ok next) :
    p.attempt c = next := by
  simp [attempt, h]

theorem options_attempt (p : Plot α) (c : Command α) : (p.attempt c).options = p.options := by
  unfold attempt
  split
  · rename_i next hnext
    cases c with
    | stroke s => cases stroked_of_stroke hnext <;> rfl
    | flash tool position => cases hnext; rfl
    | add shape => cases hnext; rfl
    | close => cases hnext; rfl
  · rfl

/-- The options stay the same throughout a run. -/
theorem options_foldl_attempt (p : Plot α) (commands : List (Command α)) :
    (commands.foldl attempt p).options = p.options := by
  induction commands generalizing p with
  | nil => rfl
  | cons c cs ih => rw [List.foldl_cons, ih, options_attempt]

/-- **Complete parts stay.** A command only ever adds parts after those that are complete. -/
theorem nodes_prefix_attempt (p : Plot α) (c : Command α) : p.nodes <+: (p.attempt c).nodes := by
  unfold attempt
  split
  · rename_i next hnext
    cases c with
    | stroke s =>
      cases stroked_of_stroke hnext with
      | joined => exact List.prefix_refl _
      | opened => exact p.nodes_prefix_close
    | flash tool position => cases hnext; exact p.nodes_prefix_add _
    | add shape => cases hnext; exact p.nodes_prefix_add _
    | close => cases hnext; exact p.nodes_prefix_close
  · exact List.prefix_refl _

/-- The commands that are obeyed when commands are given in order; the others are refused. -/
def obeyed (p : Plot α) : List (Command α) → List (Command α)
  | [] => []
  | c :: cs =>
    match p.perform c with
    | .ok next => c :: next.obeyed cs
    | .error _ => p.obeyed cs

@[simp] theorem obeyed_nil (p : Plot α) : p.obeyed [] = [] := rfl

theorem obeyed_cons_of_ok {p next : Plot α} {c : Command α} (h : p.perform c = .ok next)
    (cs : List (Command α)) : p.obeyed (c :: cs) = c :: (p.attempt c).obeyed cs := by
  simp [obeyed, attempt_of_ok h, h]

theorem obeyed_cons_of_error {p : Plot α} {c : Command α} {e : PlotError α}
    (h : p.perform c = .error e) (cs : List (Command α)) :
    p.obeyed (c :: cs) = (p.attempt c).obeyed cs := by
  simp [obeyed, attempt_of_error h, h]

end Plot

end Photoplot
