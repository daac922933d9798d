import Photoplot.Proofs.Exact.Outline
import Photoplot.Proofs.Exact.QuarterArc
import Photoplot.Proofs.Run.Warnings

/-!
# Coherent arcs

What an arc keeps besides its ends and its center can be worked out from them, and whoever makes an
arc has to fill it in rightly. Strokes take the sweep from the angles or make it a full turn; the
outlines of circles and of rounded rectangles write it down.

* `Arc.Coherent`: radius, angles and sweep of an arc are those of its ends around its center;
* `Arc.coherent_of_travelled`: an arc that travels from the angle of its start to that of its end;
* `Arc.coherent_quarter`, `Rectangle.arcs_outline`: the arcs of rounded corners, one for each
  direction;
* `Arc.Sound`: what a stroke may draw, and `Stroke.sound_of_mem_drawn`: it draws nothing else;
* `Plot.coherent_arcs`: **every arc that is drawn or outlined is coherent.**
-/

namespace Photoplot

noncomputable section

open Real

/-! ## Angles of points -/

namespace Point

theorem distance_comm (p q : Point ℝ) : p.distance q = q.distance p := by
  rw [distance_eq_distance_iff]
  ring

/-- The angle of a point is that of a complex number. -/
theorem angleFrom_eq_arg (center p : Point ℝ) :
    center.angleFrom p = Complex.arg ⟨p.x - center.x, p.y - center.y⟩ := rfl

/-- A point of a circle is seen at the angle at which it lies, up to full turns. -/
theorem exists_angleFrom_polar (center : Point ℝ) {radius : ℝ} (h : 0 < radius) (θ : ℝ) :
    ∃ n : ℤ, center.angleFrom (center.polar radius θ) = θ + n * (2 * π) := by
  have hpoint : (⟨radius * cos θ, radius * sin θ⟩ : ℂ) =
      radius * (Real.Angle.cos θ + Real.Angle.sin θ * Complex.I) := by
    apply Complex.ext <;> simp [-Complex.ofReal_cos, -Complex.ofReal_sin]
  have hangle := Complex.arg_mul_cos_add_sin_mul_I_coe_angle h θ
  rw [← hpoint, Real.Angle.angle_eq_iff_two_pi_dvd_sub] at hangle
  obtain ⟨n, hn⟩ := hangle
  refine ⟨n, ?_⟩
  rw [angleFrom_eq_arg]
  simp only [polar, add_sub_cancel_left]
  linarith

end Point

/-- The angle travelled is more than none and at most a full turn. -/
theorem Angle.travelled_mem (start stop : ℝ) (direction : Direction) :
    travelled start stop direction ∈ Set.Ioc 0 (2 * π) := by
  rw [travelled_eq_toIocMod Trigonometry.standard two_pi_pos]
  simpa using toIocMod_mem_Ioc two_pi_pos 0 (turn start stop direction)

/-! ## Coherent arcs -/

namespace Arc

/-- What an arc keeps is what its ends, its center and its direction give: it starts on its circle,
its angles are those of its ends, and it travels at most a full turn, either to its end or, where
both ends count as one point, all the way round. -/
structure Coherent (a : Arc ℝ) : Prop where
  /-- The radius is the distance of the start. -/
  radius_eq : a.radius = a.center.distance a.start
  /-- The angle of the start, within half a turn. -/
  startAngle_eq : a.startAngle = Complex.arg ⟨a.start.x - a.center.x, a.start.y - a.center.y⟩
  /-- The angle of the end, within half a turn. -/
  stopAngle_eq : a.stopAngle = Complex.arg ⟨a.stop.x - a.center.x, a.stop.y - a.center.y⟩
  /-- The arc travels, and no more than a full turn. -/
  sweep_mem : a.sweep ∈ Set.Ioc 0 (2 * π)
  /-- The arc goes all the way round or arrives at the angle of its end. -/
  arrives : (a.start.Coincide a.stop ∧ a.sweep = 2 * π) ∨
    ∃ n : ℤ, a.angleAfter a.sweep = a.stopAngle + n * (2 * π)

/-- An arc that travels from one angle to another arrives there. -/
theorem exists_angleAfter_travelled {a : Arc ℝ}
    (h : a.sweep = Angle.travelled a.startAngle a.stopAngle a.direction) :
    ∃ n : ℤ, a.angleAfter a.sweep = a.stopAngle + n * (2 * π) := by
  have hdiv := toIocMod_add_toIocDiv_zsmul two_pi_pos 0
    (Angle.turn a.startAngle a.stopAngle a.direction)
  rw [← Angle.travelled_eq_toIocMod Trigonometry.standard two_pi_pos, ← h, zsmul_eq_mul] at hdiv
  unfold angleAfter
  cases hdirection : a.direction with
  | counterclockwise =>
    refine ⟨-toIocDiv two_pi_pos 0 (Angle.turn a.startAngle a.stopAngle a.direction), ?_⟩
    rw [hdirection, Angle.turn] at hdiv ⊢
    push_cast
    linarith
  | clockwise =>
    refine ⟨toIocDiv two_pi_pos 0 (Angle.turn a.startAngle a.stopAngle a.direction), ?_⟩
    rw [hdirection, Angle.turn] at hdiv ⊢
    linarith

/-- An arc that starts on its circle and travels between the angles of its ends is coherent. -/
theorem coherent_of_travelled {a : Arc ℝ} (hradius : a.radius = a.center.distance a.start)
    (hstart : a.startAngle = a.center.angleFrom a.start)
    (hstop : a.stopAngle = a.center.angleFrom a.stop)
    (hsweep : a.sweep = Angle.travelled a.startAngle a.stopAngle a.direction) : a.Coherent where
  radius_eq := hradius
  startAngle_eq := hstart
  stopAngle_eq := hstop
  sweep_mem := by
    rw [hsweep]
    exact Angle.travelled_mem _ _ _
  arrives := .inr (exists_angleAfter_travelled hsweep)

/-- An arc all the way round between ends that count as one point is coherent. -/
theorem coherent_of_fullTurn {a : Arc ℝ} (hradius : a.radius = a.center.distance a.start)
    (hstart : a.startAngle = a.center.angleFrom a.start)
    (hstop : a.stopAngle = a.center.angleFrom a.stop) (hends : a.start.Coincide a.stop)
    (hsweep : a.sweep = Angle.fullTurn) : a.Coherent := by
  have hfull : a.sweep = 2 * π := hsweep.trans (Angle.fullTurn_eq Trigonometry.standard)
  refine ⟨hradius, hstart, hstop, ?_, .inl ⟨hends, hfull⟩⟩
  rw [hfull]
  exact ⟨two_pi_pos, le_rfl⟩

end Arc

/-! ## Outlines -/

theorem Point.coincide_refl (p : Point ℝ) : p.Coincide p := by
  simp [Coincide, tolerance_pos.le]

/-- The outline of a circle is one coherent arc, also that of a circle that is only a point. -/
theorem exists_circleOutline_eq (center : Point ℝ) {radius : ℝ} (h : 0 ≤ radius) :
    ∃ a : Arc ℝ, circleOutline center radius = [.arc a] ∧ a.center = center ∧ a.radius = radius ∧
      a.Coherent := by
  refine ⟨_, rfl, rfl, rfl, Arc.coherent_of_fullTurn ?_ rfl rfl (Point.coincide_refl _) rfl⟩
  rw [Point.distance_comm]
  exact (Axis.distance_pointFrom center h .right).symm

/-- The next axis is a quarter turn on, up to full turns. -/
theorem Axis.exists_quarterTurns_next (axis : Axis) :
    ∃ k : ℤ, (axis.quarterTurns + 1 : ℝ) = axis.next.quarterTurns + k * 4 := by
  cases axis with
  | right => exact ⟨0, by norm_num [quarterTurns, next]⟩
  | up => exact ⟨0, by norm_num [quarterTurns, next]⟩
  | left => exact ⟨0, by norm_num [quarterTurns, next]⟩
  | down => exact ⟨1, by norm_num [quarterTurns, next]⟩

/-- **The corners of a rounded rectangle.** A quarter circle from one axis to the next is coherent:
the quarter turn that is written down is the one from its start to its end. -/
theorem Arc.coherent_quarter (center : Point ℝ) {radius : ℝ} (h : 0 < radius) (axis : Axis) :
    (quarter center radius axis).Coherent where
  radius_eq := by
    rw [Point.distance_comm]
    exact (Axis.distance_pointFrom center h.le axis).symm
  startAngle_eq := rfl
  stopAngle_eq := rfl
  sweep_mem := by
    have hquarter : (quarter center radius axis).sweep = π / 2 :=
      Angle.quarterTurn_eq Trigonometry.standard
    rw [hquarter]
    exact ⟨pi_div_two_pos, by linarith [pi_pos]⟩
  arrives := by
    right
    obtain ⟨k, hk⟩ := axis.exists_quarterTurns_next
    obtain ⟨m, hm⟩ := center.exists_angleFrom_polar h (axis.quarterTurns * (π / 2))
    obtain ⟨n, hn⟩ := center.exists_angleFrom_polar h (axis.next.quarterTurns * (π / 2))
    rw [← Axis.pointFrom_eq_polar] at hm hn
    -- both ends are seen in the direction of an axis up to full turns, and the axes are a quarter
    -- turn apart up to another one
    refine ⟨m - n + k, ?_⟩
    show center.angleFrom (axis.pointFrom center radius) + Angle.quarterTurn =
      center.angleFrom (axis.next.pointFrom center radius) + ((m - n + k : ℤ) : ℝ) * (2 * π)
    rw [hm, hn, Angle.quarterTurn_eq Trigonometry.standard]
    push_cast
    linear_combination (π / 2) * hk

theorem Segment.mem_filterMap_arc?_iff (segments : List (Segment ℝ)) (a : Arc ℝ) :
    a ∈ segments.filterMap arc? ↔ .arc a ∈ segments := by
  rw [List.mem_filterMap]
  constructor
  · rintro ⟨s, hs, ha⟩
    cases s with
    | line l => cases ha
    | arc b => cases ha; exact hs
  · intro h
    exact ⟨_, h, rfl⟩

/-- A ring has no arcs. -/
theorem Segment.filterMap_arc?_ring (points : List (Point ℝ)) :
    (ring points).filterMap arc? = [] := by
  rw [List.filterMap_eq_nil_iff]
  intro s hs
  obtain ⟨p, q, -, -, -, rfl⟩ := exists_of_mem_ring hs
  rfl

theorem Segment.between?_bind_arc? (p q : Point ℝ) : (between? p q).bind arc? = none := by
  unfold between?
  split <;> rfl

/-- The arcs of a rounded rectangle are its four corners. -/
theorem Rectangle.filterMap_arc?_roundedOutline (r : Rectangle ℝ) (radius : ℝ) :
    (r.roundedOutline radius).filterMap Segment.arc? =
      [Axis.down, .right, .up, .left].map fun axis =>
        Arc.quarter (r.roundingCenter radius axis) radius axis := by
  simp [roundedOutline, List.filterMap_filterMap, Segment.between?_bind_arc?, cornerArc,
    Segment.arc?, Arc.quarter, roundingCenter, Axis.pointFrom, Axis.next]

/-- A rectangle has four arcs or none, depending on whether its corners are rounded, and they are
coherent. -/
theorem Rectangle.arcs_outline (r : Rectangle ℝ) :
    (r.outline.filterMap Segment.arc?).length = (if r.cornerRadius ≤ 0 then 0 else 4) ∧
      ∀ a ∈ r.outline.filterMap Segment.arc?, a.Coherent := by
  unfold outline
  split
  · rw [Segment.filterMap_arc?_ring]
    exact ⟨rfl, by simp⟩
  · rename_i hround
    rw [filterMap_arc?_roundedOutline]
    refine ⟨rfl, ?_⟩
    intro a ha
    obtain ⟨axis, -, rfl⟩ := List.mem_map.1 ha
    exact Arc.coherent_quarter _ (not_le.1 hround) axis

/-! ## Arcs of moves -/

namespace ArcMove

/-- A center located by offsets that do not vanish lies further from the start than points that
count as one. -/
theorem tolerance_lt_radiusAt {m : ArcMove ℝ} (h : ¬ m.offsets.Vanish) {center : Point ℝ}
    (hcenter : center ∈ m.centers) : Point.tolerance < m.radiusAt center := by
  rw [mem_centers_iff] at hcenter
  by_contra hshort
  refine h ⟨?_, ?_⟩
  · rw [abs_real, ← hcenter.1, abs_sub_comm]
    exact (Point.abs_x_sub_le_distance _ _).trans (not_lt.1 hshort)
  · rw [abs_real, ← hcenter.2, abs_sub_comm]
    exact (Point.abs_y_sub_le_distance _ _).trans (not_lt.1 hshort)

/-- An arc that leads where a move leads. -/
structure Leads (m : ArcMove ℝ) (a : Arc ℝ) : Prop where
  /-- It starts where the move starts. -/
  start_eq : a.start = m.start
  /-- It ends where the move ends. -/
  stop_eq : a.stop = m.stop
  /-- It is travelled in the direction of the move. -/
  direction_eq : a.direction = m.direction

theorem leads_arcAt (m : ArcMove ℝ) (center : Point ℝ) (sweep : ℝ) :
    m.Leads (m.arcAt center sweep) :=
  ⟨rfl, rfl, rfl⟩

/-- A move turns by its own angle around any center. -/
theorem coherent_arcAt_sweepAt (m : ArcMove ℝ) (center : Point ℝ) :
    (m.arcAt center (m.sweepAt center)).Coherent :=
  Arc.coherent_of_travelled (Point.distance_comm _ _) rfl rfl rfl

/-- A move between ends that count as one point goes all the way round. -/
theorem coherent_arcAt_fullTurn {m : ArcMove ℝ} (h : m.start.Coincide m.stop) (center : Point ℝ) :
    (m.arcAt center Angle.fullTurn).Coherent :=
  Arc.coherent_of_fullTurn (Point.distance_comm _ _) rfl rfl h rfl

theorem coherent_of_signedArc? {m : ArcMove ℝ} {a : Arc ℝ} (h : m.signedArc? = some a) :
    m.Leads a ∧ a.Coherent ∧ Point.tolerance < a.radius := by
  unfold signedArc? at h
  split at h
  · cases h
  · rename_i hradius
    split at h
    · rename_i hends
      cases h
      exact ⟨m.leads_arcAt _ _, coherent_arcAt_fullTurn hends _, not_le.1 hradius⟩
    · cases h
      exact ⟨m.leads_arcAt _ _, m.coherent_arcAt_sweepAt _, not_le.1 hradius⟩

theorem coherent_of_quarterArc? {o : Options ℝ} {m : ArcMove ℝ} {a : Arc ℝ}
    (h : m.quarterArc? o = .ok (some a)) :
    m.Leads a ∧ a.Coherent ∧ Point.tolerance < a.radius := by
  unfold quarterArc? at h
  split at h
  · cases h
  · rename_i hdraws
    split at h
    · rename_i center hcenter
      cases h
      rw [bestCenter?, leastBy_eq_argmin] at hcenter
      have hmem := (List.mem_filter.1 (List.argmin_mem hcenter)).1
      exact ⟨m.leads_arcAt _ _, m.coherent_arcAt_sweepAt _,
        tolerance_lt_radiusAt (not_or.1 hdraws).2 hmem⟩
    · cases h

end ArcMove

/-! ## Arcs of strokes -/

/-- What a stroke may draw: a coherent arc whose radius does not vanish, and which ends on its
circle up to the tolerance, unless that is reported. -/
structure Arc.Sound (o : Options ℝ) (reports : List (RadiusMismatch ℝ)) (a : Arc ℝ) : Prop where
  /-- The fields of the arc agree. -/
  coherent : a.Coherent
  /-- The radius does not vanish. -/
  radius : Point.tolerance < a.radius
  /-- The arc ends on its circle, or there is a report that it does not. -/
  lands : |a.radius - a.stop.distance a.center| ≤ o.toleranceFor a.radius ∨
    ⟨a.start, a.stop, a.center, a.radius, a.stop.distance a.center⟩ ∈ reports

theorem Arc.Sound.mono {o : Options ℝ} {a : Arc ℝ} {few more : List (RadiusMismatch ℝ)}
    (h : a.Sound o few) (hsub : few ⊆ more) : a.Sound o more where
  coherent := h.coherent
  radius := h.radius
  lands := h.lands.imp_right fun hreport => hsub hreport

namespace Stroke

/-- **What a stroke draws is sound,** and it goes where the stroke goes. -/
theorem sound_of_mem_drawn {o : Options ℝ} {s : Stroke ℝ} {a : Arc ℝ} (h : .arc a ∈ s.drawn o) :
    a.Sound o (s.reports o) ∧
      ∃ direction, s.interpolation = some (.circular direction) ∧
        (s.arcMove direction).Leads a := by
  obtain ⟨direction, hcircular, harc⟩ := exists_arc?_of_segment? (segment?_of_arc_mem_drawn h)
  have hmove : (s.arcMove direction).Leads a ∧ a.Coherent ∧ Point.tolerance < a.radius := by
    cases hquadrant : s.quadrant with
    | multi =>
      rw [hquadrant] at harc
      exact ArcMove.coherent_of_signedArc? (Except.ok.inj harc)
    | single =>
      rw [hquadrant] at harc
      exact ArcMove.coherent_of_quarterArc? harc
  obtain ⟨hleads, hcoherent, hradius⟩ := hmove
  refine ⟨⟨hcoherent, hradius, or_iff_not_imp_left.2 ?_⟩, direction, hcircular, hleads⟩
  intro hfar
  rw [reports_eq, List.mem_filterMap]
  refine ⟨.arc a, h, ?_⟩
  simp only [Segment.report?, Segment.arc?, Option.bind_some, Arc.mismatch?, abs_real]
  rw [if_neg hfar]

end Stroke

/-! ## Arcs of runs -/

namespace Plot

variable {p q : Plot ℝ} {s : Stroke ℝ}

/-- All arcs of a plot are sound. -/
def Sound (p : Plot ℝ) : Prop := ∀ a, .arc a ∈ p.segments → a.Sound p.options p.warnings

/-- A stroke draws sound arcs and leaves the others as they are. -/
theorem Sound.of_stroked (hp : p.Sound) (h : p.Stroked s q) : q.Sound := by
  intro a ha
  rw [segments_of_stroked h, List.mem_append] at ha
  rw [warnings_of_stroked h, options_of_stroked h]
  rcases ha with hold | hnew
  · exact (hp a hold).mono (List.subset_append_left _ _)
  · exact (Stroke.sound_of_mem_drawn hnew).1.mono (List.subset_append_right _ _)

theorem Sound.attempt (hp : p.Sound) (c : Command ℝ) : (p.attempt c).Sound := by
  rcases stroked_or_kept p c with ⟨s, hs⟩ | ⟨hfigures, hwarnings, hoptions⟩
  · exact hp.of_stroked hs
  · intro a ha
    rw [segments, hfigures] at ha
    rw [hwarnings, hoptions]
    exact hp a ha

theorem Sound.foldl_attempt (hp : p.Sound) (commands : List (Command ℝ)) :
    (commands.foldl Plot.attempt p).Sound := by
  induction commands generalizing p with
  | nil => exact hp
  | cons c cs ih => exact ih (hp.attempt c)

/-- **Every arc that is drawn or outlined is coherent.** What a stroke adds to the drawing, whatever
the options and the plot, are lines and sound arcs that go where the stroke goes, and its own
reports name those arcs that miss their circle; hence all arcs are sound at every point of a run. The
arcs of outlines are coherent too: the full turn of a circle, also of one that is only a point, and
the four corners of a rounded rectangle. -/
theorem coherent_arcs :
    (∀ (p q : Plot ℝ) (s : Stroke ℝ), p.stroke s = .ok q →
      ∃ added reports, q.segments = p.segments ++ added ∧ q.warnings = p.warnings ++ reports ∧
        ∀ a, .arc a ∈ added → a.Sound p.options reports ∧
          ∃ direction, s.interpolation = some (.circular direction) ∧
            (s.arcMove direction).Leads a) ∧
    (∀ (o : Options ℝ) (commands : List (Command ℝ)) (a : Arc ℝ),
      .arc a ∈ (run o commands).segments → a.Sound o (run o commands).warnings) ∧
    (∀ (center : Point ℝ) (radius : ℝ), 0 ≤ radius →
      ∃ a : Arc ℝ, (Shape.circle center radius).outline = [.arc a] ∧ a.center = center ∧
        a.radius = radius ∧ a.Coherent) ∧
    ∀ r : Rectangle ℝ,
      ((Shape.rectangle r).outline.filterMap Segment.arc?).length =
          (if r.cornerRadius ≤ 0 then 0 else 4) ∧
        ∀ a, .arc a ∈ (Shape.rectangle r).outline → a.Coherent := by
  refine ⟨?_, ?_, ?_, ?_⟩
  · intro p q s h
    have hstroked := stroked_of_stroke h
    refine ⟨s.drawn p.options, s.reports p.options, segments_of_stroked hstroked,
      warnings_of_stroked hstroked, ?_⟩
    intro a ha
    exact Stroke.sound_of_mem_drawn ha
  · intro o commands
    have hstart : (start o).Sound := by
      intro a ha
      cases ha
    have hoptions : (run o commands).options = o := options_foldl_attempt (start o) commands
    intro a ha
    have hsound := hstart.foldl_attempt commands a ha
    rwa [← run, hoptions] at hsound
  · intro center radius h
    rw [Shape.outline]
    exact exists_circleOutline_eq center h
  · intro r
    rw [Shape.outline]
    refine ⟨r.arcs_outline.1, ?_⟩
    intro a ha
    exact r.arcs_outline.2 a ((Segment.mem_filterMap_arc?_iff _ a).2 ha)

/-- A counter-clockwise move without a tool from a point of the unit circle to one outside of it. -/
def widening : Stroke ℝ where
  start := ⟨1, 0⟩
  stop := ⟨1, 1⟩
  offsets := ⟨-1, 0⟩
  tool := none
  interpolation := some (.circular .counterclockwise)
  regionMode := false
  quadrant := .multi

/-- The arc of the move that ends off its circle. -/
def widened : Arc ℝ :=
  let move := widening.arcMove .counterclockwise
  move.arcAt move.signedCenter (move.sweepAt move.signedCenter)

theorem drawn_widening : widening.drawn Options.standard = [.arc widened] := by
  have hsegment : widening.segment? Options.standard = .ok (some (.arc widened)) := by
    have hradius : ¬ (widening.arcMove .counterclockwise).radiusAt
        (widening.arcMove .counterclockwise).signedCenter ≤ Point.tolerance := by
      norm_num [ArcMove.radiusAt, ArcMove.signedCenter, Stroke.arcMove, widening,
        Point.displaced, Point.distance_eq, Point.tolerance]
    have hends : ¬ (widening.arcMove .counterclockwise).start.Coincide
        (widening.arcMove .counterclockwise).stop := by
      norm_num [Stroke.arcMove, widening, Point.Coincide, Point.tolerance]
    have harc : (widening.arcMove .counterclockwise).signedArc? = some widened := by
      unfold ArcMove.signedArc?
      rw [if_neg hradius, if_neg hends]
      rfl
    show Except.map _ (Except.ok _) = _
    rw [harc]
    rfl
  have hsweep : ¬ widening.Sweeps := by
    rintro ⟨-, htool⟩
    cases htool
  rw [Stroke.drawn_of_not_sweeps hsweep hsegment]
  rfl

/-- A square whose corners are rounded until nothing is left of its sides. -/
def roundedSquare : Rectangle ℝ := ⟨⟨0, 0⟩, 1, 1, some 1⟩

theorem arc_mem_outline_roundedSquare :
    .arc (Arc.quarter ⟨1 / 2, 1 / 2⟩ (1 / 2) .right) ∈
      (Shape.rectangle roundedSquare).outline := by
  have hradius : roundedSquare.cornerRadius = 1 / 2 := by
    norm_num [Rectangle.cornerRadius, roundedSquare, lesser_eq_min]
  have hcenter : roundedSquare.roundingCenter (1 / 2) .right = ⟨1 / 2, 1 / 2⟩ := by
    norm_num [Rectangle.roundingCenter, Rectangle.xFar, Rectangle.yFar, roundedSquare]
  rw [Shape.outline, Rectangle.outline, hradius, if_neg (by norm_num), ← hcenter]
  exact (Rectangle.mem_roundedOutline_iff _ _ _).2 ⟨.right, .inl rfl⟩

/-- A stroke whose arc misses its circle, a circle, and a corner of a rounded rectangle. -/
theorem coherent_arcs_widening :
    (∃ q added reports, (start Options.standard).stroke widening = .ok q ∧
        q.segments = added ∧ q.warnings = reports ∧ .arc widened ∈ added ∧
        widened.Sound Options.standard reports) ∧
      (.arc widened ∈ (run Options.standard [.stroke widening]).segments ∧
        widened.Sound Options.standard (run Options.standard [.stroke widening]).warnings) ∧
      ((0 : ℝ) ≤ 2 ∧
        ∃ a : Arc ℝ, (Shape.circle ⟨0, 0⟩ 2).outline = [.arc a] ∧ a.radius = 2 ∧ a.Coherent) ∧
      .arc (Arc.quarter ⟨1 / 2, 1 / 2⟩ (1 / 2) .right) ∈ (Shape.rectangle roundedSquare).outline ∧
        (Arc.quarter ⟨1 / 2, 1 / 2⟩ (1 / 2) .right).Coherent := by
  obtain ⟨hstroke, hrun, hcircle, hrectangle⟩ := coherent_arcs
  obtain ⟨q, hq⟩ : ∃ q, (start Options.standard).stroke widening = .ok q := by
    cases hq : (start Options.standard).stroke widening with
    | ok q => exact ⟨q, rfl⟩
    | error e => cases hq
  have hdrawn : q.segments = [.arc widened] := by
    rw [segments_of_stroked (stroked_of_stroke hq)]
    exact drawn_widening
  have hsize : (0 : ℝ) ≤ 2 := by norm_num
  have hcorner := arc_mem_outline_roundedSquare
  refine ⟨?_, ?_, ⟨hsize, ?_⟩, hcorner, (hrectangle roundedSquare).2 _ hcorner⟩
  · obtain ⟨added, reports, hsegments, hwarnings, hsound⟩ := hstroke _ _ _ hq
    have hadded : added = [.arc widened] := hsegments.symm.trans hdrawn
    have hmem : .arc widened ∈ added := by
      rw [hadded]
      exact List.mem_singleton_self _
    exact ⟨q, added, reports, hq, hsegments, hwarnings, hmem, (hsound _ hmem).1⟩
  · have hmem : .arc widened ∈ (run Options.standard [.stroke widening]).segments := by
      have hlast : run Options.standard [.stroke widening] = q :=
        attempt_of_ok (c := .stroke widening) hq
      rw [hlast, hdrawn]
      exact List.mem_singleton_self _
    exact ⟨hmem, hrun _ _ _ hmem⟩
  · obtain ⟨a, ha, -, hradius, hcoherent⟩ := hcircle ⟨0, 0⟩ 2 hsize
    exact ⟨a, ha, hradius, hcoherent⟩

end Plot

end

end Photoplot
