import Photoplot.Proofs.Exact.Displaced
import Photoplot.Proofs.Run.Refusal

/-!
# Displaced runs

Commands given at displaced positions make the displaced plot. All that a plot decides on the way it
decides by differences of coordinates: which points count as one, which center fits best and whether
one fits at all, where a swept rectangle has its corners, and which axes an arc passes.

* `Stroke.displaced`, `Command.displaced`: commands given elsewhere, with their offsets as they are;
* `Plot.displaced`, `Reply.displaced`: plots, errors and reports moved as a whole;
* `ArcMove.bestCenter?_displaced`, `ArcMove.arc?_displaced`: the search for a center;
* `Plot.perform_displaced`: one command;
* `Plot.run_displaced`: **a run of displaced commands is the displaced run**, reply for reply and
  part for part.
-/

namespace Photoplot

/-! ## Moved as a whole -/

section Displaced

variable {α : Type} [Scalar α]

/-- A move along an arc made elsewhere. -/
def ArcMove.displaced (m : ArcMove α) (v : Offsets α) : ArcMove α :=
  { m with start := m.start.displaced v, stop := m.stop.displaced v }

/-- A stroke made elsewhere. -/
def Stroke.displaced (s : Stroke α) (v : Offsets α) : Stroke α :=
  { s with start := s.start.displaced v, stop := s.stop.displaced v }

/-- A command given elsewhere. -/
def Command.displaced : Command α → Offsets α → Command α
  | .stroke s, v => .stroke (s.displaced v)
  | .flash tool position, v => .flash tool (position.displaced v)
  | .add shape, v => .add (shape.displaced v)
  | .close, _ => .close

/-- An error that names the move where it was made. -/
def PlotError.displaced : PlotError α → Offsets α → PlotError α
  | .arcCenterNotFound start stop offsets direction, v =>
    .arcCenterNotFound (start.displaced v) (stop.displaced v) offsets direction
  | .invalidOption name fault, _ => .invalidOption name fault

/-- A report on an arc where it was drawn. -/
def RadiusMismatch.displaced (w : RadiusMismatch α) (v : Offsets α) : RadiusMismatch α :=
  { w with
    start := w.start.displaced v
    stop := w.stop.displaced v
    center := w.center.displaced v }

/-- A figure moved as a whole. -/
def Figure.displaced : Figure α → Offsets α → Figure α
  | .path width segments, v => .path width (segments.map fun s => s.displaced v)
  | .region inRegionMode segments, v => .region inRegionMode (segments.map fun s => s.displaced v)

/-- A part of a picture moved as a whole. -/
def Node.displaced : Node α → Offsets α → Node α
  | .figure f, v => .figure (f.displaced v)
  | .shape s, v => .shape (s.displaced v)

/-- A picture moved as a whole. -/
def Picture.displaced (p : Picture α) (v : Offsets α) : Picture α :=
  ⟨p.nodes.map fun n => n.displaced v⟩

/-- What a stroke does to an open figure, elsewhere. -/
def Stroke.Outcome.displaced (r : Stroke.Outcome α) (v : Offsets α) : Stroke.Outcome α where
  closed := r.closed.map fun f => f.displaced v
  warning := r.warning.map fun w => w.displaced v
  current := r.current.displaced v

/-- A plot moved as a whole. -/
def Plot.displaced (p : Plot α) (v : Offsets α) : Plot α where
  options := p.options
  nodes := p.nodes.map fun n => n.displaced v
  current := p.current.map fun f => f.displaced v
  warnings := p.warnings.map fun w => w.displaced v

/-- A command given elsewhere, with what comes of it there. -/
def Reply.displaced (r : Reply α) (v : Offsets α) : Reply α where
  command := r.command.displaced v
  result :=
    match r.result with
    | .ok () p => .ok () (p.displaced v)
    | .error e p => .error (e.displaced v) (p.displaced v)

/-- A flash of a tool with a polygonal aperture. -/
def Command.FlashesPolygon : Command α → Prop
  | .stroke _ => False
  | .flash tool _ => tool.aperture.IsPolygon
  | .add _ => False
  | .close => False

end Displaced

noncomputable section

variable (v : Offsets ℝ)

/-! ## Arcs -/

namespace ArcMove

@[simp] theorem radiusAt_displaced (m : ArcMove ℝ) (center : Point ℝ) :
    (m.displaced v).radiusAt (center.displaced v) = m.radiusAt center :=
  Point.distance_displaced v m.start center

@[simp] theorem sweepAt_displaced (m : ArcMove ℝ) (center : Point ℝ) :
    (m.displaced v).sweepAt (center.displaced v) = m.sweepAt center := by
  simp only [sweepAt, displaced, Point.angleFrom_displaced]

@[simp] theorem mismatchAt_displaced (m : ArcMove ℝ) (center : Point ℝ) :
    (m.displaced v).mismatchAt (center.displaced v) = m.mismatchAt center := by
  have hstop : (m.displaced v).stop.distance (center.displaced v) = m.stop.distance center :=
    Point.distance_displaced v m.stop center
  rw [mismatchAt, mismatchAt, radiusAt_displaced, hstop]

theorem arcAt_displaced (m : ArcMove ℝ) (center : Point ℝ) (sweep : ℝ) :
    (m.displaced v).arcAt (center.displaced v) sweep = (m.arcAt center sweep).displaced v := by
  rw [arcAt, radiusAt_displaced, arcAt, Arc.displaced_around]
  rfl

theorem signedCenter_displaced (m : ArcMove ℝ) :
    (m.displaced v).signedCenter = m.signedCenter.displaced v :=
  Point.displaced_comm v m.start m.offsets

theorem signedArc?_displaced (m : ArcMove ℝ) :
    (m.displaced v).signedArc? = m.signedArc?.map fun a => a.displaced v := by
  have hends : (m.displaced v).start.Coincide (m.displaced v).stop ↔ m.start.Coincide m.stop :=
    Point.coincide_displaced v m.start m.stop
  simp only [signedArc?, signedCenter_displaced, radiusAt_displaced, sweepAt_displaced,
    arcAt_displaced, hends]
  split_ifs <;> rfl

theorem centers_displaced (m : ArcMove ℝ) :
    (m.displaced v).centers = m.centers.map fun c => c.displaced v := by
  rw [centers, centers, List.map_map]
  refine List.map_congr_left ?_
  intro o _
  exact Point.displaced_comm v m.start o

theorem fits_displaced (o : Options ℝ) (m : ArcMove ℝ) (center : Point ℝ) :
    (m.displaced v).Fits o (center.displaced v) ↔ m.Fits o center := by
  simp only [Fits, radiusAt_displaced, mismatchAt_displaced, sweepAt_displaced]

/-- The best center moves along. -/
theorem bestCenter?_displaced (o : Options ℝ) (m : ArcMove ℝ) :
    (m.displaced v).bestCenter? o = (m.bestCenter? o).map fun c => c.displaced v := by
  simp only [bestCenter?, centers_displaced, List.filter_map, Function.comp_def, fits_displaced,
    leastBy_map, mismatchAt_displaced]

theorem quarterArc?_displaced (o : Options ℝ) (m : ArcMove ℝ) :
    (m.displaced v).quarterArc? o =
      ((m.quarterArc? o).map (Option.map fun a => a.displaced v)).mapError
        fun e => e.displaced v := by
  have hends : (m.displaced v).start.Coincide (m.displaced v).stop ↔ m.start.Coincide m.stop :=
    Point.coincide_displaced v m.start m.stop
  have hoffsets : (m.displaced v).offsets = m.offsets := rfl
  simp only [quarterArc?, hends, hoffsets, bestCenter?_displaced]
  split
  · rfl
  · cases m.bestCenter? o with
    | none => rfl
    | some center =>
      simp only [Option.map_some, sweepAt_displaced, arcAt_displaced]
      rfl

/-- The arc of a displaced move is the displaced arc, and so is the error. -/
theorem arc?_displaced (o : Options ℝ) (m : ArcMove ℝ) (quadrant : Quadrant) :
    (m.displaced v).arc? o quadrant =
      ((m.arc? o quadrant).map (Option.map fun a => a.displaced v)).mapError
        fun e => e.displaced v := by
  cases quadrant with
  | single => exact m.quarterArc?_displaced v o
  | multi => exact congrArg Except.ok (m.signedArc?_displaced v)

end ArcMove

theorem Arc.mismatch?_displaced (o : Options ℝ) (a : Arc ℝ) :
    (a.displaced v).mismatch? o = (a.mismatch? o).map fun w => w.displaced v := by
  have hradius : (a.displaced v).stop.distance (a.displaced v).center =
      a.stop.distance a.center := Point.distance_displaced v a.stop a.center
  have hown : (a.displaced v).radius = a.radius := rfl
  simp only [mismatch?, hradius, hown]
  split_ifs <;> rfl

/-! ## Figures -/

namespace Figure

theorem segments_displaced (f : Figure ℝ) :
    (f.displaced v).segments = f.segments.map fun s => s.displaced v := by
  cases f <;> rfl

theorem penRadius_displaced (f : Figure ℝ) : (f.displaced v).penRadius = f.penRadius := by
  cases f <;> rfl

theorem push_displaced (f : Figure ℝ) (segment : Segment ℝ) :
    (f.displaced v).push (segment.displaced v) = (f.push segment).displaced v := by
  cases f <;> simp only [displaced, push, List.map_append, List.map_singleton]

/-- Where a figure lies has no say in whether it can take a stroke. -/
theorem breakReason?_displaced (f : Figure ℝ) (tool : Option (Tool ℝ)) (regionMode : Bool) :
    (f.displaced v).breakReason? tool regionMode = f.breakReason? tool regionMode := by
  match f, regionMode with
  | path _ _, true | path _ _, false => rfl
  | region true _, true | region true _, false | region false _, true | region false _, false => rfl

theorem box_displaced (f : Figure ℝ) : ((f.displaced v).box : Box EReal) = f.box.displaced v := by
  rw [box, box, segments_displaced, penRadius_displaced, Segment.extent_displaced]

end Figure

/-! ## Strokes -/

namespace Stroke

theorem swept?_displaced (s : Stroke ℝ) :
    (s.displaced v).swept? = s.swept?.map fun f => f.displaced v := by
  cases hmode : s.regionMode with
  | true => simp [swept?, displaced, hmode]
  | false =>
    simp [swept?, displaced, hmode, Function.comp_def, Sweep.outline_displaced, Figure.displaced]

/-- The segment of a displaced stroke is the displaced segment, and so is the error. -/
theorem segment?_displaced (o : Options ℝ) (s : Stroke ℝ) :
    (s.displaced v).segment? o =
      ((s.segment? o).map (Option.map fun t => t.displaced v)).mapError fun e => e.displaced v := by
  have hmove : ∀ direction, (s.displaced v).arcMove direction = (s.arcMove direction).displaced v :=
    fun _ => rfl
  have hmode : (s.displaced v).interpolation = s.interpolation := rfl
  have hquadrant : (s.displaced v).quadrant = s.quadrant := rfl
  rw [segment?, segment?, hmode]
  rcases s.interpolation with _ | _ | direction
  · rfl
  · exact congrArg Except.ok (Segment.between?_displaced v s.start s.stop)
  · simp only [hmove, hquadrant, ArcMove.arc?_displaced]
    rcases (s.arcMove direction).arc? o s.quadrant with _ | _ | _ <;> rfl

theorem mismatch?_displaced (o : Options ℝ) (segment : Option (Segment ℝ)) :
    mismatch? o (segment.map fun t => t.displaced v) =
      (mismatch? o segment).map fun w => w.displaced v := by
  rcases segment with _ | _ | a
  · rfl
  · rfl
  · exact a.mismatch?_displaced v o

theorem opened_displaced (s : Stroke ℝ) : (s.displaced v).opened = s.opened.displaced v := by
  have hmode : (s.displaced v).regionMode = s.regionMode := rfl
  rw [opened, opened, hmode]
  split <;> rfl

theorem append_displaced (open? : Option (Figure ℝ)) (segment : Option (Segment ℝ)) (s : Stroke ℝ) :
    append (open?.map fun f => f.displaced v) (segment.map fun t => t.displaced v)
      (s.displaced v) = (append open? segment s).displaced v := by
  have hfound : (open?.map fun f => f.displaced v).getD (s.displaced v).opened =
      (open?.getD s.opened).displaced v := by
    cases open? with
    | none => exact s.opened_displaced v
    | some figure => rfl
  cases segment with
  | none => exact hfound
  | some segment =>
    simp only [append, Option.map_some, hfound]
    exact Figure.push_displaced v _ segment

theorem split_displaced (open? : Option (Figure ℝ)) (s : Stroke ℝ) :
    split (open?.map fun f => f.displaced v) (s.displaced v) =
      ((split open? s).1.map (fun f => f.displaced v),
        (split open? s).2.map fun f => f.displaced v) := by
  cases open? with
  | none => rfl
  | some figure =>
    have hreason : (figure.displaced v).breakReason? (s.displaced v).tool
        (s.displaced v).regionMode = figure.breakReason? s.tool s.regionMode :=
      figure.breakReason?_displaced v s.tool s.regionMode
    simp only [split, Option.map_some, hreason]
    split <;> rfl

/-- What a displaced stroke does to the displaced figure is what the stroke does, displaced. -/
theorem extend_displaced (o : Options ℝ) (open? : Option (Figure ℝ)) (s : Stroke ℝ) :
    (s.displaced v).extend o (open?.map fun f => f.displaced v) =
      ((s.extend o open?).map fun r => r.displaced v).mapError fun e => e.displaced v := by
  simp only [extend, split_displaced, swept?_displaced]
  cases s.swept? with
  | some region => rfl
  | none =>
    simp only [Option.map_none, segment?_displaced]
    cases s.segment? o with
    | error e => rfl
    | ok segment =>
      simp only [Except.map, Except.mapError, mismatch?_displaced, append_displaced,
        Outcome.displaced]

end Stroke

/-! ## One command -/

namespace Plot

/-- A plot of which nothing is drawn yet lies nowhere. -/
theorem start_displaced (o : Options ℝ) : (start o).displaced v = start o := rfl

theorem close_displaced (p : Plot ℝ) : (p.displaced v).close = p.close.displaced v := by
  obtain ⟨options, nodes, current, warnings⟩ := p
  cases current <;> simp [close, displaced, Node.displaced]

theorem add_displaced (p : Plot ℝ) (shape : Shape ℝ) :
    (p.displaced v).add (shape.displaced v) = (p.add shape).displaced v := by
  rw [add, close_displaced]
  simp [add, displaced, Node.displaced]

theorem stroke_displaced (p : Plot ℝ) (s : Stroke ℝ) :
    (p.displaced v).stroke (s.displaced v) =
      ((p.stroke s).map fun q => q.displaced v).mapError fun e => e.displaced v := by
  rw [stroke, stroke]
  simp only [displaced, Stroke.extend_displaced]
  cases s.extend p.options p.current with
  | error e => rfl
  | ok outcome =>
    obtain ⟨closed, warning, current⟩ := outcome
    cases closed <;> cases warning <;>
      simp [Except.map, Except.mapError, Stroke.Outcome.displaced, Node.displaced]

/-- **One step.** A displaced command does to the displaced plot what the command does, displaced. -/
theorem perform_displaced (p : Plot ℝ) {c : Command ℝ} (h : ¬ c.FlashesPolygon) :
    (p.displaced v).perform (c.displaced v) =
      ((p.perform c).map fun q => q.displaced v).mapError fun e => e.displaced v := by
  cases c with
  | stroke s => exact p.stroke_displaced v s
  | flash tool position =>
    have hshape : tool.shapeAt (p.displaced v).options (position.displaced v) =
        (tool.shapeAt p.options position).displaced v :=
      tool.shapeAt_displaced v p.options position h
    simp only [Command.displaced, perform, hshape, add_displaced]
    rfl
  | add shape => exact congrArg Except.ok (p.add_displaced v shape)
  | close => exact congrArg Except.ok (p.close_displaced v)

theorem attempt_displaced (p : Plot ℝ) {c : Command ℝ} (h : ¬ c.FlashesPolygon) :
    (p.displaced v).attempt (c.displaced v) = (p.attempt c).displaced v := by
  rw [attempt, attempt, p.perform_displaced v h]
  cases p.perform c <;> rfl

/-- The reply to a displaced command is the displaced reply. -/
theorem reply_displaced (p : Plot ℝ) {c : Command ℝ} (h : ¬ c.FlashesPolygon) :
    (⟨c.displaced v, (obey (c.displaced v)).run (p.displaced v)⟩ : Reply ℝ) =
      Reply.displaced ⟨c, (obey c).run p⟩ v := by
  rw [run_obey, p.perform_displaced v h, run_obey]
  cases p.perform c <;> rfl

/-! ## Whole runs -/

theorem replies_displaced (p : Plot ℝ) {commands : List (Command ℝ)}
    (h : ∀ c ∈ commands, ¬ c.FlashesPolygon) :
    (p.displaced v).replies (commands.map fun c => c.displaced v) =
      (p.replies commands).map fun r => r.displaced v := by
  induction commands generalizing p with
  | nil => rfl
  | cons c cs ih =>
    obtain ⟨hc, hcs⟩ := List.forall_mem_cons.1 h
    rw [List.map_cons, replies_cons, replies_cons, List.map_cons, p.reply_displaced v hc,
      p.attempt_displaced v hc, ih _ hcs]

theorem foldl_attempt_displaced (p : Plot ℝ) {commands : List (Command ℝ)}
    (h : ∀ c ∈ commands, ¬ c.FlashesPolygon) :
    (commands.map fun c => c.displaced v).foldl attempt (p.displaced v) =
      (commands.foldl attempt p).displaced v := by
  induction commands generalizing p with
  | nil => rfl
  | cons c cs ih =>
    obtain ⟨hc, hcs⟩ := List.forall_mem_cons.1 h
    rw [List.map_cons, List.foldl_cons, List.foldl_cons, p.attempt_displaced v hc, ih _ hcs]

theorem finish_displaced (p : Plot ℝ) : (p.displaced v).finish = p.finish.displaced v := by
  rw [finish, close_displaced]
  rfl

end Plot

theorem Node.box_displaced (n : Node ℝ) : ((n.displaced v).box : Box EReal) = n.box.displaced v := by
  cases n with
  | figure f => exact f.box_displaced v
  | shape s => exact s.box_displaced v

theorem Picture.box_displaced (p : Picture ℝ) :
    ((p.displaced v).box : Box EReal) = p.box.displaced v := by
  simp only [box, displaced, List.map_map, Function.comp_def, Node.box_displaced,
    ← Box.hull_displaced]

namespace Plot

/-- **Runs are displaced as wholes.** Commands given at displaced positions, with their offsets,
tools and modes as they are, get the displaced replies: the same ones are obeyed and the same ones
refused, with errors that name the displaced moves. They make the displaced plot with the displaced
reports, the picture is displaced part for part, and so is its box. Flashes of polygonal apertures
are the exception, as their corners are rounded. -/
theorem run_displaced (o : Options ℝ) {commands : List (Command ℝ)}
    (h : ∀ c ∈ commands, ¬ c.FlashesPolygon) :
    (start o).replies (commands.map fun c => c.displaced v) =
      ((start o).replies commands).map (fun r => r.displaced v) ∧
    run o (commands.map fun c => c.displaced v) = (run o commands).displaced v ∧
    (run o (commands.map fun c => c.displaced v)).finish = (run o commands).finish.displaced v ∧
    ((run o (commands.map fun c => c.displaced v)).finish.box : Box EReal) =
      (run o commands).finish.box.displaced v := by
  have hrun : run o (commands.map fun c => c.displaced v) = (run o commands).displaced v := by
    rw [run, run, ← (start o).foldl_attempt_displaced v h, start_displaced]
  have hfinish : (run o (commands.map fun c => c.displaced v)).finish =
      (run o commands).finish.displaced v := by
    rw [hrun, finish_displaced]
  have hreplies : (start o).replies (commands.map fun c => c.displaced v) =
      ((start o).replies commands).map fun r => r.displaced v := by
    rw [← (start o).replies_displaced v h, start_displaced]
  refine ⟨hreplies, hrun, hfinish, ?_⟩
  rw [hfinish, Picture.box_displaced]

/-- A quarter circle drawn with a round tool, and a flash of a rectangular one with a hole. -/
def quarterAndFlash : List (Command ℝ) :=
  [.stroke ⟨⟨1, 0⟩, ⟨0, 1⟩, ⟨1, 0⟩, some ⟨.circle 0.5, none⟩, some (.circular .counterclockwise),
    false, .single⟩, .flash ⟨.rectangle 2.0 1, some (.circle 0.5)⟩ ⟨2.5, 2.5⟩]

/-- The quarter circle and the flash an inch to the right and below. -/
theorem run_displaced_quarterAndFlash :
    let v : Offsets ℝ := ⟨25.4, -25.4⟩
    let o : Options ℝ := Options.standard
    (∀ c ∈ quarterAndFlash, ¬ c.FlashesPolygon) ∧
    (start o).replies (quarterAndFlash.map fun c => c.displaced v) =
      ((start o).replies quarterAndFlash).map (fun r => r.displaced v) ∧
    run o (quarterAndFlash.map fun c => c.displaced v) = (run o quarterAndFlash).displaced v ∧
    (run o (quarterAndFlash.map fun c => c.displaced v)).finish =
      (run o quarterAndFlash).finish.displaced v ∧
    ((run o (quarterAndFlash.map fun c => c.displaced v)).finish.box : Box EReal) =
      (run o quarterAndFlash).finish.box.displaced v := by
  intro v o
  have hflashes : ∀ c ∈ quarterAndFlash, ¬ c.FlashesPolygon := by
    simp [quarterAndFlash, Command.FlashesPolygon, Aperture.IsPolygon]
  exact ⟨hflashes, run_displaced v o hflashes⟩

end Plot

end

end Photoplot
