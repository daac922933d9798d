import Photoplot.Proofs.Binary64.Finite
import Photoplot.Proofs.Options
import Photoplot.Proofs.Run.Refusal

/-!
# Mismatches of quarter arcs

What the search for a center accepts and what is reported afterwards are two tests of one mismatch.
They are each other's complement for every mismatch that is a number. A mismatch is none only when
both ends of a move lie infinitely far from the center, which happens to finite moves when the
squares of their coordinates exceed the range of doubles.

* `Options.toleranceFor_le_self`: the tolerance for a radius is a number, whatever the radius is;
* `ArcMove.isNaN_mismatchAt_iff`: when a mismatch is no number;
* `Stroke.isSome_warning_iff`: **a stroke with magnitudes for offsets is reported exactly when the arc
  that it draws lies infinitely far from its center**, and refused for want of a center otherwise;
* `Stroke.remote`: a finite stroke that is reported.
-/

namespace Photoplot

/-! ## Tolerances -/

namespace Options

/-- The standard options of a plot on doubles are valid. -/
theorem standard_valid_float : (standard : Options Float).Valid where
  length := (NumericFault.ofSize?_eq_none_iff _).2 (by decide)
  fraction := (NumericFault.ofSize?_eq_none_iff _).2 (by decide)
  places := by decide

variable {o : Options Float}

theorem Built.arcTolerance_le_self (ho : o.Built) : o.arcTolerance ≤ o.arcTolerance := by
  have hsize := (NumericFault.ofSize?_eq_none_iff _).1 (ho.valid standard_valid_float).length
  exact Decidable.not_not.1 hsize.1

/-- The tolerance for a radius is a number, whatever the radius is. -/
theorem Built.toleranceFor_le_self (ho : o.Built) (radius : Float) :
    o.toleranceFor radius ≤ o.toleranceFor radius :=
  Axis.right.further_le_self ho.arcTolerance_le_self _

end Options

/-! ## Mismatches -/

/-- An arc whose ends lie so far from its center that neither distance is finite. -/
def Arc.Overflows (a : Arc Float) : Prop :=
  Scalar.isInfinite a.radius = true ∧ Scalar.isInfinite (a.stop.distance a.center) = true

instance (a : Arc Float) : Decidable a.Overflows :=
  inferInstanceAs (Decidable (_ ∧ _))

namespace ArcMove

variable {m : ArcMove Float}

/-- The magnitudes of finite offsets are numbers with either sign. -/
theorem le_self_of_mem_signChoices {o choice : Offsets Float} (ho : o.IsFinite)
    (h : choice ∈ signChoices o) : choice.i ≤ choice.i ∧ choice.j ≤ choice.j := by
  have hi := (Binary64.abs_le_self_iff _).2 ho.1.1
  have hj := (Binary64.abs_le_self_iff _).2 ho.2.1
  have hi' := (Binary64.neg_le_self_iff _).2 hi
  have hj' := (Binary64.neg_le_self_iff _).2 hj
  simp only [signChoices, List.mem_cons, List.not_mem_nil, or_false] at h
  rcases h with rfl | rfl | rfl | rfl
  · exact ⟨hi, hj⟩
  · exact ⟨hi', hj⟩
  · exact ⟨hi, hj'⟩
  · exact ⟨hi', hj'⟩

/-- The coordinates of a center of a finite move are numbers. -/
theorem IsFinite.center_le_self (hm : m.IsFinite) {center : Point Float} (h : center ∈ m.centers) :
    center.x ≤ center.x ∧ center.y ≤ center.y := by
  obtain ⟨choice, hchoice, rfl⟩ := List.mem_map.1 h
  obtain ⟨hi, hj⟩ := le_self_of_mem_signChoices hm.offsets hchoice
  exact ⟨hm.start.1.add_le_self hi, hm.start.2.add_le_self hj⟩

/-- **When a mismatch is no number.** Around a center of a finite move the mismatch is a number unless
both ends lie infinitely far from the center. -/
theorem IsFinite.isNaN_mismatchAt_iff (hm : m.IsFinite) {center : Point Float}
    (h : center ∈ m.centers) (sweep : Float) :
    IsNaN (m.mismatchAt center) ↔ (m.arcAt center sweep).Overflows := by
  obtain ⟨hx, hy⟩ := hm.center_le_self h
  have hradius : Binary64.sign? (m.radiusAt center).toModel.unpack = some .positive :=
    Binary64.sign?_distance (hm.start.1.sub_le_self hx) (hm.start.2.sub_le_self hy)
  have hstop : Binary64.sign? (m.stop.distance center).toModel.unpack = some .positive :=
    Binary64.sign?_distance (hm.stop.1.sub_le_self hx) (hm.stop.2.sub_le_self hy)
  exact (Binary64.isNaN_abs _).trans (Binary64.isNaN_sub_iff hradius hstop)

/-- Around a center that fits an arc is reported exactly when both its ends lie infinitely far from the
center: for a mismatch that is a number the search has made sure that it does not exceed the
tolerance. -/
theorem isSome_mismatch?_arcAt_iff {o : Options Float} (ho : o.Built) (hm : m.IsFinite)
    {center : Point Float} (h : center ∈ m.centers) (hfits : m.Fits o center) (sweep : Float) :
    ((m.arcAt center sweep).mismatch? o).isSome ↔ (m.arcAt center sweep).Overflows := by
  rw [← hm.isNaN_mismatchAt_iff h]
  have htolerance := ho.toleranceFor_le_self (m.radiusAt center)
  have haccepted := hfits.1
  rw [Binary64.lt_iff_not_le] at haccepted
  rw [Option.isSome_iff_ne_none, Ne, Arc.mismatch?_eq_none_iff]
  constructor
  · intro hmissed hnumber
    exact haccepted ⟨⟨htolerance, hnumber⟩, hmissed⟩
  · intro hnan hle
    exact hnan (LawfulBounds.le_self_of_le hle).1

end ArcMove

/-! ## Reports on strokes -/

namespace Stroke

variable {o : Options Float} {s : Stroke Float}

/-- A stroke whose ends and offsets are finite. -/
structure IsFinite (s : Stroke Float) : Prop where
  /-- The start is finite. -/
  start : s.start.IsFinite
  /-- The end is finite. -/
  stop : s.stop.IsFinite
  /-- The offsets are finite. -/
  offsets : s.offsets.IsFinite

/-- An arc that a stroke draws is reported exactly when it lies infinitely far from its center. -/
theorem isSome_mismatch?_of_mem_drawn (ho : o.Built) (hs : s.IsFinite)
    (hsingle : s.quadrant = .single) {a : Arc Float} (h : .arc a ∈ s.drawn o) :
    (a.mismatch? o).isSome ↔ a.Overflows := by
  obtain ⟨direction, -, harc⟩ := exists_arc?_of_segment? (segment?_of_arc_mem_drawn h)
  rw [hsingle, ArcMove.arc?] at harc
  obtain ⟨center, hcenter, hfits, rfl⟩ := ArcMove.exists_fits_of_quarterArc? harc
  have hm : (s.arcMove direction).IsFinite := ⟨hs.start, hs.stop, hs.offsets⟩
  exact ArcMove.isSome_mismatch?_arcAt_iff ho hm hcenter hfits _

/-- There is something to report about a stroke when an arc that it draws is reported. -/
theorem reports_ne_nil_iff (o : Options Float) (s : Stroke Float) :
    s.reports o ≠ [] ↔ ∃ a, .arc a ∈ s.drawn o ∧ (a.mismatch? o).isSome := by
  rw [reports, Ne, List.filterMap_eq_nil_iff]
  push Not
  constructor
  · rintro ⟨segment, hmem, hreport⟩
    cases segment with
    | line l => exact absurd rfl hreport
    | arc a => exact ⟨a, hmem, Option.isSome_iff_ne_none.2 hreport⟩
  · rintro ⟨a, hmem, hreport⟩
    exact ⟨.arc a, hmem, Option.isSome_iff_ne_none.1 hreport⟩

/-- **When a stroke with magnitudes for offsets is reported.** A finite stroke whose offsets are
magnitudes is reported, if it is obeyed, exactly when it draws an arc both ends of which lie
infinitely far from the center. If it is refused, then because every choice of signs for its offsets
is rejected, and the error says so. -/
theorem isSome_warning_iff (ho : o.Built) (hs : s.IsFinite) (hsingle : s.quadrant = .single)
    (open? : Option (Figure Float)) :
    (∀ outcome, extend o open? s = .ok outcome →
      (outcome.warning.isSome ↔ ∃ a, .arc a ∈ s.drawn o ∧ a.Overflows)) ∧
    ∀ e, extend o open? s = .error e → ∃ direction, s.Centerless o direction ∧
      e = .arcCenterNotFound s.start s.stop s.offsets direction := by
  constructor
  · intro outcome h
    have hsome : outcome.warning.isSome ↔ s.reports o ≠ [] := by
      rw [← warning_of_extend h]
      cases outcome.warning <;> simp
    rw [hsome, reports_ne_nil_iff]
    refine exists_congr fun a => and_congr_right fun hmem => ?_
    exact isSome_mismatch?_of_mem_drawn ho hs hsingle hmem
  · intro e h
    have hrefused : (⟨o, [], open?, []⟩ : Plot Float).stroke s = .error e := by
      rw [Plot.stroke, h]
      rfl
    exact (Plot.stroke_eq_error_iff _ s e).1 hrefused

/-- A short stroke around a center so far away that the squares of its distances are not finite. -/
def remote : Stroke Float where
  start := ⟨0, 0⟩
  stop := ⟨1, 1⟩
  offsets := ⟨1e200, 0⟩
  tool := none
  interpolation := some (.circular .counterclockwise)
  regionMode := false
  quadrant := .single

theorem remote_isFinite : remote.IsFinite where
  start := by decide
  stop := by decide
  offsets := by decide +kernel

/-- The far center passes both tests of the search: no bound is exceeded that is compared with what is
no number. -/
theorem remote_fits : (remote.arcMove .counterclockwise).Fits Options.standard
    (remote.start.displaced ⟨Scalar.abs 1e200, Scalar.abs 0⟩) := by
  refine ⟨by decide +kernel, ?_⟩
  rw [Binary64.lt_iff_not_le]
  rintro ⟨⟨hlimit, -⟩, -⟩
  exact absurd hlimit (by decide +kernel)

/-- The stroke around the far center is obeyed and draws an arc that lies infinitely far from it. -/
theorem exists_extend_remote : ∃ outcome a, extend Options.standard none remote = .ok outcome ∧
    .arc a ∈ remote.drawn Options.standard ∧ a.Overflows := by
  have hoverflows : ∀ center ∈ (remote.arcMove .counterclockwise).centers,
      ((remote.arcMove .counterclockwise).arcAt center 0).Overflows := by decide +kernel
  have hsweeps : ¬ remote.Sweeps := by decide
  obtain ⟨a, harc⟩ := ArcMove.exists_quarterArc?_of_fits
    (by decide +kernel) (by decide +kernel) (List.mem_cons_self ..) remote_fits
  have ha : a.Overflows := by
    obtain ⟨center, hcenter, -, rfl⟩ := ArcMove.exists_fits_of_quarterArc? harc
    exact hoverflows center hcenter
  have hsegment : remote.segment? Options.standard = .ok (some (.arc a)) :=
    segment?_of_quarterArc? rfl rfl harc
  refine ⟨_, a, extend_of_segment? hsweeps hsegment none, ?_, ha⟩
  rw [drawn_of_not_sweeps hsweeps hsegment]
  exact List.mem_singleton_self _

/-- The stroke around the far center is reported. -/
theorem isSome_warning_iff_remote : remote.IsFinite ∧
    ∃ outcome, extend Options.standard none remote = .ok outcome ∧ outcome.warning.isSome := by
  obtain ⟨outcome, a, houtcome, hmem, hoverflows⟩ := exists_extend_remote
  have hreport := (isSome_warning_iff .standard remote_isFinite rfl none).1 outcome houtcome
  exact ⟨remote_isFinite, outcome, houtcome, hreport.2 ⟨a, hmem, hoverflows⟩⟩

/-- Not every finite stroke with magnitudes for offsets that is obeyed goes without a report. -/
theorem not_forall_warning_eq_none :
    ¬ ∀ (o : Options Float) (open? : Option (Figure Float)) (s : Stroke Float)
      (outcome : Outcome Float), o.Built → s.IsFinite → s.quadrant = .single →
        extend o open? s = .ok outcome → outcome.warning = none := by
  intro h
  obtain ⟨outcome, a, houtcome, hmem, hoverflows⟩ := exists_extend_remote
  have hnone := h Options.standard none remote outcome .standard remote_isFinite rfl houtcome
  have hreports : remote.reports Options.standard = [] := by
    rw [← warning_of_extend houtcome, hnone]
    rfl
  have hreport := (isSome_mismatch?_of_mem_drawn .standard remote_isFinite rfl hmem).2 hoverflows
  exact (reports_ne_nil_iff _ _).2 ⟨a, hmem, hreport⟩ hreports

end Stroke

end Photoplot
