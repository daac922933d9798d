import Photoplot.Segment
import Photoplot.Options

/-!
# Arc moves

The arc travelled by a move whose center is given by offsets from its start. Where arcs may cross
quadrants the offsets are signed and locate the center directly. Where they may not, the offsets
are magnitudes, and the center is the one of four candidates that fits best.

* `ArcMove.signedArc?`: the arc around the center located by signed offsets;
* `ArcMove.Fits`: the candidates that lie at the same distance from both ends and reach the end
  within a quarter turn, up to the tolerance;
* `ArcMove.quarterArc?`: the arc around the fitting candidate with the least mismatch;
* `Arc.mismatch?`: the report on an arc whose end lies off its circle.
-/

namespace Photoplot

/-- How the offsets of an arc move locate its center. -/
inductive Quadrant where
  /-- By their magnitudes, for arcs of at most a quarter turn. -/
  | single
  /-- With their signs. -/
  | multi
  deriving DecidableEq

/-- A move along an arc. -/
structure ArcMove (α : Type) where
  /-- The point where it starts. -/
  start : Point α
  /-- The point where it ends. -/
  stop : Point α
  /-- The offsets from the start to the center. -/
  offsets : Offsets α
  /-- The direction of travel. -/
  direction : Direction

namespace ArcMove

variable {α : Type} [Scalar α]

/-! ## Arcs around a center -/

/-- The distance of a center from the start of the move. -/
def radiusAt (m : ArcMove α) (center : Point α) : α := m.start.distance center

/-- The angle that the move travels around a center. -/
def sweepAt (m : ArcMove α) (center : Point α) : α :=
  Angle.travelled (center.angleFrom m.start) (center.angleFrom m.stop) m.direction

/-- How far the distances of a center from both ends of the move differ. -/
def mismatchAt (m : ArcMove α) (center : Point α) : α :=
  Scalar.abs (m.radiusAt center - m.stop.distance center)

/-- The arc around a center that travels a given angle. -/
def arcAt (m : ArcMove α) (center : Point α) (sweep : α) : Arc α :=
  Arc.around m.start m.stop center (m.radiusAt center) sweep m.direction

/-! ## Signed offsets -/

/-- The center located by signed offsets. -/
def signedCenter (m : ArcMove α) : Point α := m.start.displaced m.offsets

/-- The arc around the center located by signed offsets: none when the radius vanishes, and a full
circle when both ends count as one point. -/
def signedArc? (m : ArcMove α) : Option (Arc α) :=
  if m.radiusAt m.signedCenter ≤ Point.tolerance then none
  else if m.start.Coincide m.stop then some (m.arcAt m.signedCenter Angle.fullTurn)
  else some (m.arcAt m.signedCenter (m.sweepAt m.signedCenter))

/-! ## Offsets without signs -/

/-- The offsets that have the magnitudes of the given ones, for each choice of signs. -/
def signChoices (o : Offsets α) : List (Offsets α) :=
  let i := Scalar.abs o.i
  let j := Scalar.abs o.j
  [⟨i, j⟩, ⟨-i, j⟩, ⟨i, -j⟩, ⟨-i, -j⟩]

/-- The centers that the magnitudes of the offsets leave open, in order of preference. -/
def centers (m : ArcMove α) : List (Point α) :=
  (signChoices m.offsets).map m.start.displaced

/-- A center that lies at the same distance from both ends and around which the move turns by at
most a quarter, both up to the tolerance for its radius. -/
def Fits (o : Options α) (m : ArcMove α) (center : Point α) : Prop :=
  let tolerance := o.toleranceFor (m.radiusAt center)
  ¬ tolerance < m.mismatchAt center ∧
    ¬ Angle.quarterTurn + tolerance / m.radiusAt center < m.sweepAt center

instance (o : Options α) (m : ArcMove α) (center : Point α) : Decidable (m.Fits o center) :=
  inferInstanceAs (Decidable (_ ∧ _))

/-- The fitting center with the least mismatch, the earliest one of several. -/
def bestCenter? (o : Options α) (m : ArcMove α) : Option (Point α) :=
  leastBy m.mismatchAt (m.centers.filter fun center => m.Fits o center)

/-- The arc of at most a quarter turn around the best center: none when both ends count as one
point or the offsets vanish, and an error when no center fits. -/
def quarterArc? (o : Options α) (m : ArcMove α) : Except (PlotError α) (Option (Arc α)) :=
  if m.start.Coincide m.stop ∨ m.offsets.Vanish then .ok none
  else
    match m.bestCenter? o with
    | some center => .ok (some (m.arcAt center (m.sweepAt center)))
    | none => .error (.arcCenterNotFound m.start m.stop m.offsets m.direction)

/-- The arc of a move, if it draws one. -/
def arc? (o : Options α) (m : ArcMove α) : Quadrant → Except (PlotError α) (Option (Arc α))
  | .multi => .ok m.signedArc?
  | .single => m.quarterArc? o

/-- There is no best center exactly when no center fits. -/
theorem bestCenter?_eq_none_iff (o : Options α) (m : ArcMove α) :
    m.bestCenter? o = none ↔ ∀ center ∈ m.centers, ¬ m.Fits o center := by
  simp [bestCenter?, leastBy_eq_none_iff, List.filter_eq_nil_iff]

/-- The arc found is the one around a center that fits. -/
theorem exists_fits_of_quarterArc? {o : Options α} {m : ArcMove α} {a : Arc α}
    (h : m.quarterArc? o = .ok (some a)) :
    ∃ center ∈ m.centers, m.Fits o center ∧ a = m.arcAt center (m.sweepAt center) := by
  unfold quarterArc? at h
  split at h
  · cases h
  · split at h
    · rename_i center hcenter
      have hmem := List.mem_filter.1 (mem_of_leastBy_eq_some hcenter)
      cases h
      exact ⟨center, hmem.1, of_decide_eq_true hmem.2, rfl⟩
    · cases h

/-- An arc is found when some center fits, unless there is nothing to draw. -/
theorem exists_quarterArc?_of_fits {o : Options α} {m : ArcMove α} (hends : ¬ m.start.Coincide m.stop)
    (hoffsets : ¬ m.offsets.Vanish) {center : Point α} (hcenter : center ∈ m.centers)
    (hfits : m.Fits o center) : ∃ a, m.quarterArc? o = .ok (some a) := by
  unfold quarterArc?
  rw [if_neg (not_or.2 ⟨hends, hoffsets⟩)]
  cases hbest : m.bestCenter? o with
  | none => exact absurd hfits ((bestCenter?_eq_none_iff o m).1 hbest center hcenter)
  | some best => exact ⟨_, rfl⟩

end ArcMove

/-! ## Arcs that miss their circle -/

/-- The report on an arc whose end lies off the circle through its start. -/
def Arc.mismatch? {α : Type} [Scalar α] (o : Options α) (a : Arc α) : Option (RadiusMismatch α) :=
  let stopRadius := a.stop.distance a.center
  if Scalar.abs (a.radius - stopRadius) ≤ o.toleranceFor a.radius then none
  else some ⟨a.start, a.stop, a.center, a.radius, stopRadius⟩

theorem Arc.mismatch?_eq_none_iff {α : Type} [Scalar α] (o : Options α) (a : Arc α) :
    a.mismatch? o = none ↔
      Scalar.abs (a.radius - a.stop.distance a.center) ≤ o.toleranceFor a.radius := by
  simp [mismatch?]

end Photoplot
