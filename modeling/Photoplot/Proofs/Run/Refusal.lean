import Photoplot.Proofs.Run

/-!
# Refused strokes

When a stroke is refused, and that nothing is left of it. A plot that is changed in place passes
through states that no command leaves behind: the open figure is taken from where it is held before
it is put back. Commands are therefore carried out once more here, step by step, with an account of
the plot that an error leaves: what was changed until then stays changed.

* `Stroke.Centerless`: no choice of signs puts the center of a quarter arc where it fits;
* `Plot.stroke_eq_error_iff`: **the one reason for which a stroke is refused**;
* `Command.IsRefused`, `Plot.obeyed_eq_filter`: **the obeyed commands of a run are those that are no such
  strokes**, wherever they stand in it;
* `Plot.obey`, `Plot.run_obey`: commands in place, which do what `Plot.perform` says and leave the
  plot as it was when they fail;
* `Plot.replies`, `Plot.accepted`: the replies to the commands of a run, and those among them that
  are no refusals;
* `Plot.run_map_command_accepted`: **without its refused commands a run gets the same replies and
  ends with the same plot.**
-/

namespace Photoplot

variable {α : Type} [Scalar α]

/-! ## The reason for a refusal -/

namespace ArcMove

/-- A center is rejected when its distances from both ends of the move differ by more than the
tolerance for its radius, or when the move turns around it by more than a quarter and that
tolerance. -/
def Rejects (o : Options α) (m : ArcMove α) (center : Point α) : Prop :=
  o.toleranceFor (m.radiusAt center) < m.mismatchAt center ∨
    Angle.quarterTurn + o.toleranceFor (m.radiusAt center) / m.radiusAt center < m.sweepAt center

instance (o : Options α) (m : ArcMove α) (center : Point α) : Decidable (m.Rejects o center) :=
  inferInstanceAs (Decidable (_ ∨ _))

theorem not_fits_iff (o : Options α) (m : ArcMove α) (center : Point α) :
    ¬ m.Fits o center ↔ m.Rejects o center := by
  simp only [Fits, Rejects, Decidable.not_and_iff_not_or_not, Decidable.not_not]

/-- No center fits exactly when all four choices of signs are rejected. -/
theorem forall_centers_not_fits_iff (o : Options α) (m : ArcMove α) :
    (∀ center ∈ m.centers, ¬ m.Fits o center) ↔
      ∀ i ∈ [Scalar.abs m.offsets.i, -Scalar.abs m.offsets.i],
        ∀ j ∈ [Scalar.abs m.offsets.j, -Scalar.abs m.offsets.j],
          m.Rejects o (m.start.displaced ⟨i, j⟩) := by
  simp only [not_fits_iff, centers, signChoices, List.map_cons, List.map_nil, List.forall_mem_cons,
    List.not_mem_nil, false_imp_iff, implies_true, and_true]
  rw [and_and_and_comm, and_assoc]

/-- The search for a center fails exactly when it is made and all centers are rejected. -/
theorem quarterArc?_eq_error_iff (o : Options α) (m : ArcMove α) (e : PlotError α) :
    m.quarterArc? o = .error e ↔
      ¬ m.start.Coincide m.stop ∧ ¬ m.offsets.Vanish ∧ (∀ center ∈ m.centers, ¬ m.Fits o center) ∧
        e = .arcCenterNotFound m.start m.stop m.offsets m.direction := by
  rw [← bestCenter?_eq_none_iff]
  unfold quarterArc?
  by_cases hdraws : m.start.Coincide m.stop ∨ m.offsets.Vanish
  · rw [if_pos hdraws]
    constructor
    · intro h
      cases h
    · rintro ⟨hends, hoffsets, -, -⟩
      exact absurd hdraws (by simp [hends, hoffsets])
  · obtain ⟨hends, hoffsets⟩ := not_or.1 hdraws
    rw [if_neg hdraws]
    cases m.bestCenter? o with
    | none => simp [hends, hoffsets, eq_comm]
    | some center => simp

end ArcMove

namespace Stroke

/-- A stroke along an arc of at most a quarter turn, between ends that do not count as one point and
with offsets that do not vanish, for which every choice of signs is rejected. -/
structure Centerless (o : Options α) (s : Stroke α) (direction : Direction) : Prop where
  /-- The stroke sweeps no region of its own. -/
  not_sweeps : ¬ s.Sweeps
  /-- The stroke goes along an arc. -/
  circular : s.interpolation = some (.circular direction)
  /-- Its offsets are magnitudes. -/
  single : s.quadrant = .single
  /-- Its ends do not count as one point. -/
  apart : ¬ s.start.Coincide s.stop
  /-- Its offsets do not vanish. -/
  displaced : ¬ s.offsets.Vanish
  /-- All four choices of signs are rejected. -/
  rejected : ∀ i ∈ [Scalar.abs s.offsets.i, -Scalar.abs s.offsets.i],
    ∀ j ∈ [Scalar.abs s.offsets.j, -Scalar.abs s.offsets.j],
      (s.arcMove direction).Rejects o (s.start.displaced ⟨i, j⟩)

theorem centerless_iff (o : Options α) (s : Stroke α) (direction : Direction) :
    s.Centerless o direction ↔
      ¬ s.Sweeps ∧ s.interpolation = some (.circular direction) ∧ s.quadrant = .single ∧
        ¬ s.start.Coincide s.stop ∧ ¬ s.offsets.Vanish ∧
          ∀ i ∈ [Scalar.abs s.offsets.i, -Scalar.abs s.offsets.i],
            ∀ j ∈ [Scalar.abs s.offsets.j, -Scalar.abs s.offsets.j],
              (s.arcMove direction).Rejects o (s.start.displaced ⟨i, j⟩) := by
  constructor
  · rintro ⟨hsweep, hcircular, hsingle, hapart, hoffsets, hrejected⟩
    exact ⟨hsweep, hcircular, hsingle, hapart, hoffsets, hrejected⟩
  · rintro ⟨hsweep, hcircular, hsingle, hapart, hoffsets, hrejected⟩
    exact ⟨hsweep, hcircular, hsingle, hapart, hoffsets, hrejected⟩

instance (o : Options α) (s : Stroke α) (direction : Direction) :
    Decidable (s.Centerless o direction) :=
  decidable_of_iff _ (centerless_iff o s direction).symm

/-- Only a search for a center can fail, and the error names the move as it was given. -/
theorem segment?_eq_error_iff (o : Options α) (s : Stroke α) (e : PlotError α) :
    s.segment? o = .error e ↔
      ∃ direction, s.interpolation = some (.circular direction) ∧ s.quadrant = .single ∧
        (s.arcMove direction).quarterArc? o = .error e := by
  unfold segment?
  cases hinterpolation : s.interpolation with
  | none => simp
  | some interpolation =>
    cases interpolation with
    | linear => simp
    | circular direction =>
      cases hquadrant : s.quadrant with
      | multi => simp [ArcMove.arc?, Except.map]
      | single =>
        cases hquarter : (s.arcMove direction).quarterArc? o <;>
          simp [ArcMove.arc?, Except.map, hquarter]

end Stroke

namespace Plot

omit [Scalar α] in
theorem map_eq_error_iff {β γ : Type} (f : β → γ) (r : Except (PlotError α) β) (e : PlotError α) :
    r.map f = .error e ↔ r = .error e := by
  cases r <;> simp [Except.map]

/-- **The one reason for a refusal.** A stroke is refused exactly when it is an arc whose center no
choice of signs locates. -/
theorem stroke_eq_error_iff (p : Plot α) (s : Stroke α) (e : PlotError α) :
    p.stroke s = .error e ↔
      ∃ direction, s.Centerless p.options direction ∧
        e = .arcCenterNotFound s.start s.stop s.offsets direction := by
  unfold Plot.stroke Stroke.extend
  by_cases hsweep : s.Sweeps
  · rw [Stroke.swept?_eq_some_drawn hsweep p.options]
    constructor
    · intro h
      cases h
    · rintro ⟨direction, hcenterless, -⟩
      exact absurd hsweep hcenterless.not_sweeps
  · rw [(s.swept?_eq_none_iff).2 hsweep]
    simp only [map_eq_error_iff, Stroke.segment?_eq_error_iff, ArcMove.quarterArc?_eq_error_iff,
      ArcMove.forall_centers_not_fits_iff]
    constructor
    · rintro ⟨direction, hcircular, hsingle, happart, hoffsets, hrejected, he⟩
      exact ⟨direction, ⟨hsweep, hcircular, hsingle, happart, hoffsets, hrejected⟩, he⟩
    · rintro ⟨direction, h, he⟩
      exact ⟨direction, h.circular, h.single, h.apart, h.displaced, h.rejected, he⟩

end Plot

/-! ## The obeyed commands -/

theorem Direction.exists_iff {P : Direction → Prop} :
    (∃ direction, P direction) ↔ P .clockwise ∨ P .counterclockwise := by
  constructor
  · rintro ⟨direction, h⟩
    cases direction with
    | clockwise => exact .inl h
    | counterclockwise => exact .inr h
  · rintro (h | h)
    · exact ⟨_, h⟩
    · exact ⟨_, h⟩

/-- Whether a command is refused: a stroke is when no choice of signs locates the center of its arc, and a
flash, an added shape or a close never is. -/
def Command.IsRefused (o : Options α) : Command α → Prop
  | stroke s => ∃ direction, s.Centerless o direction
  | flash _ _ => False
  | add _ => False
  | close => False

instance (o : Options α) (c : Command α) : Decidable (c.IsRefused o) :=
  match c with
  | .stroke _ => decidable_of_iff _ Direction.exists_iff.symm
  | .flash _ _ => inferInstanceAs (Decidable False)
  | .add _ => inferInstanceAs (Decidable False)
  | .close => inferInstanceAs (Decidable False)

namespace Plot

/-- What a plot refuses depends on its options alone, not on what it has drawn. -/
theorem exists_perform_eq_error_iff (p : Plot α) (c : Command α) :
    (∃ e, p.perform c = .error e) ↔ c.IsRefused p.options := by
  cases c with
  | stroke s =>
    simp only [perform, stroke_eq_error_iff, Command.IsRefused]
    constructor
    · rintro ⟨-, direction, h, -⟩
      exact ⟨direction, h⟩
    · rintro ⟨direction, h⟩
      exact ⟨_, direction, h, rfl⟩
  | flash tool position => simp [perform, Command.IsRefused]
  | add shape => simp [perform, Command.IsRefused]
  | close => simp [perform, Command.IsRefused]

/-- **Which commands are obeyed.** In every run these are the commands other than the refused ones, and
a command is refused or not whatever comes before it. -/
theorem obeyed_eq_filter (p : Plot α) (commands : List (Command α)) :
    p.obeyed commands = commands.filter fun c => ¬ c.IsRefused p.options := by
  induction commands generalizing p with
  | nil => rfl
  | cons c cs ih =>
    cases hperform : p.perform c with
    | error e =>
      have hrefused := (p.exists_perform_eq_error_iff c).1 ⟨e, hperform⟩
      rw [obeyed_cons_of_error hperform, ih, options_attempt,
        List.filter_cons_of_neg (by simpa using hrefused)]
    | ok next =>
      have hobeyed : ¬ c.IsRefused p.options := by
        rw [← exists_perform_eq_error_iff, hperform]
        simp
      rw [obeyed_cons_of_ok hperform, ih, options_attempt,
        List.filter_cons_of_pos (by simpa using hobeyed)]

end Plot

/-! ## Commands in place -/

namespace Plot

/-- What changes a plot in place. When it fails, what was changed until then stays changed. -/
abbrev Action (α β : Type) := EStateM (PlotError α) (Plot α) β

/-- Takes the open figure from where it is held when it cannot take a stroke. -/
def release (s : Stroke α) : Action α (Option (Figure α)) := do
  let p ← get
  let (closed, rest) := Stroke.split p.current s
  set { p with current := rest }
  return closed

/-- Makes a stroke in place: the segment first, which can fail, then one part of the plot after the
other. -/
def strokeInPlace (s : Stroke α) : Action α Unit := do
  let o := (← get).options
  let segment ← match s.swept? with
    | some _ => pure none
    | none => MonadExcept.ofExcept (s.segment? o)
  let closed ← release s
  modify fun p => { p with current := some (s.swept?.getD (Stroke.append p.current segment s)) }
  modify fun p => { p with nodes := p.nodes ++ closed.toList.map Node.figure }
  modify fun p => { p with warnings := p.warnings ++ (Stroke.mismatch? o segment).toList }

/-- Obeys one command in place. -/
def obey : Command α → Action α Unit
  | .stroke s => strokeInPlace s
  | .flash tool position => do
    modify close
    modify fun p => { p with nodes := p.nodes ++ [.shape (tool.shapeAt p.options position)] }
  | .add shape => do
    modify close
    modify fun p => { p with nodes := p.nodes ++ [.shape shape] }
  | .close => modify close

omit [Scalar α] in
theorem run_ofExcept {β : Type} (r : Except (PlotError α) β) (p : Plot α) :
    (MonadExcept.ofExcept r : Action α β).run p =
      match r with
      | .ok b => .ok b p
      | .error e => .error e p := by
  cases r <;> rfl

theorem run_release (p : Plot α) (s : Stroke α) :
    (release s).run p =
      .ok (Stroke.split p.current s).1 { p with current := (Stroke.split p.current s).2 } := rfl

/-- In place a stroke does what it does otherwise, and when it fails nothing is changed yet. -/
theorem run_strokeInPlace (p : Plot α) (s : Stroke α) :
    (strokeInPlace s).run p =
      match p.stroke s with
      | .ok q => .ok () q
      | .error e => .error e p := by
  unfold strokeInPlace Plot.stroke Stroke.extend
  cases hswept : s.swept? with
  | some region => rfl
  | none =>
    cases hsegment : s.segment? p.options with
    | error e => simp [run_ofExcept, hsegment, Except.map]
    | ok segment => simp [run_ofExcept, run_release, hsegment, Except.map]

/-- In place a command does what it does otherwise, and leaves the plot as it was when it fails. -/
theorem run_obey (p : Plot α) (c : Command α) :
    (obey c).run p =
      match p.perform c with
      | .ok q => .ok () q
      | .error e => .error e p := by
  cases c with
  | stroke s => exact run_strokeInPlace p s
  | flash tool position => rfl
  | add shape => rfl
  | close => rfl

/-- **When a command fails, and what it leaves.** -/
theorem run_obey_eq_error_iff (p q : Plot α) (c : Command α) (e : PlotError α) :
    (obey c).run p = .error e q ↔
      q = p ∧ ∃ s direction, c = .stroke s ∧ s.Centerless p.options direction ∧
        e = .arcCenterNotFound s.start s.stop s.offsets direction := by
  rw [run_obey]
  cases c with
  | stroke s =>
    simp only [perform, Command.stroke.injEq, exists_eq_left', exists_and_left,
      ← stroke_eq_error_iff]
    cases p.stroke s with
    | ok next => simp
    | error f => simp [and_comm, eq_comm]
  | flash tool position => simp [perform]
  | add shape => simp [perform]
  | close => simp [perform]

/-! ## Runs with replies -/

end Plot

/-- A command with what comes of it. -/
structure Reply (α : Type) where
  /-- The command. -/
  command : Command α
  /-- Whether it is obeyed, and the plot that it leaves in either case. -/
  result : EStateM.Result (PlotError α) (Plot α) Unit

namespace Reply

omit [Scalar α]

/-- The plot that a command leaves. -/
def plot (r : Reply α) : Plot α :=
  match r.result with
  | .ok _ p => p
  | .error _ p => p

/-- Whether a command is obeyed. -/
def isAccepted (r : Reply α) : Bool :=
  match r.result with
  | .ok _ _ => true
  | .error _ _ => false

end Reply

namespace Plot

/-- The replies to commands that are obeyed in place, one after the other. -/
def replies (p : Plot α) : List (Command α) → List (Reply α)
  | [] => []
  | c :: cs =>
    let reply : Reply α := ⟨c, (obey c).run p⟩
    reply :: replies reply.plot cs

/-- What a command leaves in place is what it leaves otherwise. -/
theorem plot_reply (p : Plot α) (c : Command α) :
    (⟨c, (obey c).run p⟩ : Reply α).plot = p.attempt c := by
  rw [run_obey]
  unfold attempt Reply.plot
  cases p.perform c <;> rfl

theorem replies_cons (p : Plot α) (c : Command α) (cs : List (Command α)) :
    p.replies (c :: cs) = ⟨c, (obey c).run p⟩ :: (p.attempt c).replies cs := by
  rw [replies, plot_reply]

theorem isAccepted_reply (p : Plot α) (c : Command α) :
    (⟨c, (obey c).run p⟩ : Reply α).isAccepted = (p.perform c).isOk := by
  rw [run_obey]
  unfold Reply.isAccepted
  cases p.perform c <;> rfl

/-- The replies lead through the plots of the run, one after the other. -/
theorem cons_map_plot_replies (p : Plot α) (cs : List (Command α)) :
    p :: (p.replies cs).map Reply.plot = cs.scanl attempt p := by
  induction cs generalizing p with
  | nil => rfl
  | cons c cs ih => rw [replies_cons, List.map_cons, plot_reply, ih, List.scanl_cons]

/-- The replies to commands that are obeyed. -/
def accepted (p : Plot α) (cs : List (Command α)) : List (Reply α) :=
  (p.replies cs).filter Reply.isAccepted

theorem accepted_cons_of_error {p : Plot α} {c : Command α} {e : PlotError α}
    (h : p.perform c = .error e) (cs : List (Command α)) :
    p.accepted (c :: cs) = p.accepted cs := by
  have hrefused : ¬ (⟨c, (obey c).run p⟩ : Reply α).isAccepted := by
    simp [isAccepted_reply, h, Except.isOk, Except.toBool]
  rw [accepted, replies_cons, List.filter_cons_of_neg hrefused, attempt_of_error h, accepted]

theorem accepted_cons_of_ok {p next : Plot α} {c : Command α} (h : p.perform c = .ok next)
    (cs : List (Command α)) :
    p.accepted (c :: cs) = ⟨c, (obey c).run p⟩ :: (p.attempt c).accepted cs := by
  have hobeyed : (⟨c, (obey c).run p⟩ : Reply α).isAccepted := by
    simp [isAccepted_reply, h, Except.isOk, Except.toBool]
  rw [accepted, replies_cons, List.filter_cons_of_pos hobeyed, accepted]

/-- Without the refused commands among them, the others get the replies that they got. -/
theorem replies_map_command_accepted (p : Plot α) (cs : List (Command α)) :
    p.replies ((p.accepted cs).map Reply.command) = p.accepted cs := by
  induction cs generalizing p with
  | nil => rfl
  | cons c cs ih =>
    cases hperform : p.perform c with
    | error e => rw [accepted_cons_of_error hperform, ih]
    | ok next => rw [accepted_cons_of_ok hperform, List.map_cons, replies_cons, ih]

/-- Without the refused commands among them, the others lead to the same plot. -/
theorem foldl_attempt_map_command_accepted (p : Plot α) (cs : List (Command α)) :
    ((p.accepted cs).map Reply.command).foldl attempt p = cs.foldl attempt p := by
  induction cs generalizing p with
  | nil => rfl
  | cons c cs ih =>
    rw [List.foldl_cons]
    cases hperform : p.perform c with
    | error e => rw [accepted_cons_of_error hperform, ih, attempt_of_error hperform]
    | ok next => rw [accepted_cons_of_ok hperform, List.map_cons, List.foldl_cons, ih]

/-- **Refused strokes leave no trace.** A command fails only as a stroke whose center cannot be
located; the error names the move as it was given, and the plot stays as it was, part for part. In a
run the commands that are obeyed therefore make the same run on their own: each gets the reply that
it got among the refused ones, the plots in between included, and all ends with the same plot, hence
with the same picture and the same reports. -/
theorem run_map_command_accepted :
    (∀ (p q : Plot α) (c : Command α) (e : PlotError α),
      (obey c).run p = .error e q ↔
        q = p ∧ ∃ s direction, c = .stroke s ∧ s.Centerless p.options direction ∧
          e = .arcCenterNotFound s.start s.stop s.offsets direction) ∧
    ∀ (o : Options α) (commands : List (Command α)),
      start o :: ((start o).replies commands).map Reply.plot = commands.scanl attempt (start o) ∧
      (start o).replies (((start o).accepted commands).map Reply.command) =
        (start o).accepted commands ∧
      run o (((start o).accepted commands).map Reply.command) = run o commands := by
  refine ⟨run_obey_eq_error_iff, ?_⟩
  intro o commands
  exact ⟨cons_map_plot_replies _ _, replies_map_command_accepted _ _,
    foldl_attempt_map_command_accepted _ _⟩

end Plot

end Photoplot
