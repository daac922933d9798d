import Photoplot.Proofs.Exact.Turn
import Photoplot.Proofs.Options

/-!
# Quarter arcs

Where offsets come without signs, the center of an arc has to be found among four candidates. For a
move that does turn by at most a quarter around some center the search finds just that center.

* `leastBy_eq_argmin`: the choice among candidates as the library's arg-min;
* `Point.eq_or_eq_mirrored`: **two centers at one distance from both ends of a move are the same or
  mirror each other across its chord**;
* `ArcMove.sweepAt_mirrored`: around the mirrored center the move turns by the rest of the full turn;
* `ArcMove.bestCenter?_eq_some`: **the search finds the center of a move of at most a quarter turn**;
* `ArcMove.arc?_single_eq_multi`: **for such a move the magnitudes of offsets give the same arc as the
  offsets with their signs.**
-/

namespace Photoplot

noncomputable section

open Real

/-- The entry with the least key, the earliest of several, is the library's. -/
theorem leastBy_eq_argmin {β κ : Type} [Preorder κ] [DecidableLT κ] (key : β → κ) (bs : List β) :
    leastBy key bs = bs.argmin key := by
  have hfold : ∀ (bs : List β) (b : β),
      some (bs.foldl (fun best c => if key c < key best then c else best) b) =
        bs.foldl (List.argAux fun c best => key c < key best) (some b) := by
    intro bs
    induction bs with
    | nil => intro b; rfl
    | cons c cs ih =>
      intro b
      rw [List.foldl_cons, List.foldl_cons, ih]
      simp only [List.argAux]
      split <;> rfl
  cases bs with
  | nil => rfl
  | cons b bs => exact hfold bs b

/-! ## Centers at one distance from two points -/

namespace Point

/-- The mirror image of a point across the perpendicular of a chord through its middle, seen from the
other side: the center of the other circle of the same radius through both ends. -/
def mirrored (center start stop : Point ℝ) : Point ℝ :=
  ⟨start.x + stop.x - center.x, start.y + stop.y - center.y⟩

/-- **The two circles through a chord.** Of circles of one radius through two different points there
are at most two, and the center of one mirrors that of the other. -/
theorem eq_or_eq_mirrored {center other start stop : Point ℝ} (hends : start ≠ stop)
    (hcenter : stop.distance center = start.distance center)
    (hother : stop.distance other = start.distance other)
    (hradius : start.distance other = start.distance center) :
    other = center ∨ other = center.mirrored start stop := by
  rw [distance_eq_distance_iff] at hcenter hother hradius
  obtain ⟨x, y⟩ := center
  obtain ⟨u, v⟩ := other
  obtain ⟨sx, sy⟩ := start
  obtain ⟨ex, ey⟩ := stop
  simp only [mirrored, mk.injEq, ne_eq] at *
  -- both the step between the centers and their common offset from the middle of the chord are
  -- perpendicular to the chord, and they are perpendicular to each other
  have hstep : (u - x) * (ex - sx) + (v - y) * (ey - sy) = 0 := by linarith
  have hoffset : (u + x - sx - ex) * (ex - sx) + (v + y - sy - ey) * (ey - sy) = 0 := by linarith
  have hright : (u - x) * (u + x - sx - ex) + (v - y) * (v + y - sy - ey) = 0 := by linarith
  have hx : ((u - x) * (v + y - sy - ey) - (v - y) * (u + x - sx - ex)) * (ex - sx) = 0 := by
    linear_combination (v + y - sy - ey) * hstep - (v - y) * hoffset
  have hy : ((u - x) * (v + y - sy - ey) - (v - y) * (u + x - sx - ex)) * (ey - sy) = 0 := by
    linear_combination (u - x) * hoffset - (u + x - sx - ex) * hstep
  have hparallel : (u - x) * (v + y - sy - ey) - (v - y) * (u + x - sx - ex) = 0 := by
    by_contra hne
    refine hends ⟨?_, ?_⟩
    · linarith [(mul_eq_zero.1 hx).resolve_left hne]
    · linarith [(mul_eq_zero.1 hy).resolve_left hne]
  have hproduct : ((u - x) ^ 2 + (v - y) ^ 2) *
      ((u + x - sx - ex) ^ 2 + (v + y - sy - ey) ^ 2) = 0 := by
    linear_combination
      ((u - x) * (u + x - sx - ex) + (v - y) * (v + y - sy - ey)) * hright +
        ((u - x) * (v + y - sy - ey) - (v - y) * (u + x - sx - ex)) * hparallel
  rcases mul_eq_zero.1 hproduct with hzero | hzero
  · obtain ⟨hu, hv⟩ := (add_eq_zero_iff_of_nonneg (sq_nonneg _) (sq_nonneg _)).1 hzero
    rw [sq_eq_zero_iff] at hu hv
    exact .inl ⟨by linarith, by linarith⟩
  · obtain ⟨hu, hv⟩ := (add_eq_zero_iff_of_nonneg (sq_nonneg _) (sq_nonneg _)).1 hzero
    rw [sq_eq_zero_iff] at hu hv
    exact .inr ⟨by linarith, by linarith⟩

/-- Swapping ends of a vector turns its angle by half a turn, up to full turns. -/
theorem exists_angleFrom_eq_add_pi {center p : Point ℝ} (hp : p ≠ center) (other q : Point ℝ)
    (hx : q.x - other.x = -(p.x - center.x)) (hy : q.y - other.y = -(p.y - center.y)) :
    ∃ n : ℤ, other.angleFrom q = center.angleFrom p + π + n * (2 * π) := by
  have hne : (⟨p.x - center.x, p.y - center.y⟩ : ℂ) ≠ 0 := by
    intro hzero
    obtain ⟨hre, him⟩ := Complex.ext_iff.1 hzero
    exact hp (Point.ext (sub_eq_zero.1 hre) (sub_eq_zero.1 him))
  have hneg : other.angleFrom q = Complex.arg (-⟨p.x - center.x, p.y - center.y⟩) := by
    unfold angleFrom
    rw [hx, hy]
    rfl
  have hangle := Complex.arg_neg_coe_angle hne
  rw [← hneg, ← Real.Angle.coe_add, Real.Angle.angle_eq_iff_two_pi_dvd_sub] at hangle
  obtain ⟨n, hn⟩ := hangle
  refine ⟨n, ?_⟩
  have hat : center.angleFrom p = Complex.arg ⟨p.x - center.x, p.y - center.y⟩ := rfl
  rw [hat]
  linarith

end Point

/-! ## Tolerances -/

/-- The standard tolerances are sizes. -/
theorem Options.valid_standard : (standard : Options ℝ).Valid where
  length := (ofSize?_real_eq_none_iff _).2 (by norm_num [standard])
  fraction := (ofSize?_real_eq_none_iff _).2 (by norm_num [standard])
  places := by decide

/-- No tolerance is negative. -/
theorem Options.Built.toleranceFor_nonneg {o : Options ℝ} (h : o.Built) (radius : ℝ) :
    0 ≤ o.toleranceFor radius := by
  have hlength := (ofSize?_real_eq_none_iff _).1 (h.valid valid_standard).length
  unfold toleranceFor
  rw [greater_eq_max]
  exact le_max_of_le_left hlength

/-! ## Candidates -/

namespace ArcMove

variable {m : ArcMove ℝ} {center : Point ℝ}

/-- The candidates are the points whose distances from the start along both axes are the magnitudes
of the offsets. -/
theorem mem_centers_iff (m : ArcMove ℝ) (p : Point ℝ) : p ∈ m.centers ↔
    |p.x - m.start.x| = |m.offsets.i| ∧ |p.y - m.start.y| = |m.offsets.j| := by
  obtain ⟨x, y⟩ := p
  simp only [centers, signChoices, Point.displaced, abs_real, List.map_cons, List.map_nil,
    List.mem_cons, List.not_mem_nil, or_false, Point.mk.injEq, abs_eq (abs_nonneg _),
    sub_eq_iff_eq_add']
  tauto

/-- **The other center.** Around the mirrored center a move turns by what is left of the full turn. -/
theorem sweepAt_mirrored (hstart : m.start ≠ center) (hstop : m.stop ≠ center)
    (hsweep : m.sweepAt center < 2 * π) :
    m.sweepAt (center.mirrored m.start m.stop) = 2 * π - m.sweepAt center := by
  obtain ⟨k, hk⟩ := Point.exists_angleFrom_eq_add_pi hstop (center.mirrored m.start m.stop) m.start
    (by simp only [Point.mirrored]; ring) (by simp only [Point.mirrored]; ring)
  obtain ⟨n, hn⟩ := Point.exists_angleFrom_eq_add_pi hstart (center.mirrored m.start m.stop) m.stop
    (by simp only [Point.mirrored]; ring) (by simp only [Point.mirrored]; ring)
  unfold sweepAt at hsweep ⊢
  rw [hk, hn]
  rw [Angle.travelled_add_int_mul Trigonometry.standard two_pi_pos,
    Angle.travelled_add Trigonometry.standard,
    Angle.travelled_swap Trigonometry.standard two_pi_pos hsweep]

/-- The candidates lie at one distance from the start. -/
theorem radiusAt_eq_of_mem_centers {p : Point ℝ} (hp : p ∈ m.centers) (hcenter : center ∈ m.centers) :
    m.radiusAt p = m.radiusAt center := by
  rw [mem_centers_iff] at hp hcenter
  have hx : |m.start.x - p.x| = |m.start.x - center.x| := by
    rw [abs_sub_comm, hp.1, abs_sub_comm, hcenter.1]
  have hy : |m.start.y - p.y| = |m.start.y - center.y| := by
    rw [abs_sub_comm, hp.2, abs_sub_comm, hcenter.2]
  unfold radiusAt
  rw [Point.distance_eq_distance_iff, (sq_eq_sq_iff_abs_eq_abs _ _).2 hx,
    (sq_eq_sq_iff_abs_eq_abs _ _).2 hy]

/-- A center at the same distance from both ends has no mismatch. -/
theorem mismatchAt_eq_zero_iff (m : ArcMove ℝ) (p : Point ℝ) :
    m.mismatchAt p = 0 ↔ m.stop.distance p = m.radiusAt p := by
  rw [mismatchAt, abs_real, abs_eq_zero, sub_eq_zero, eq_comm]

section Quarter

variable {o : Options ℝ} (ho : o.Built) (hmismatch : m.mismatchAt center = 0)
  (hsweep : m.sweepAt center ≤ π / 2)

include ho hmismatch hsweep

/-- The center of an arc of at most a quarter turn fits. -/
theorem fits_of_sweepAt_le : m.Fits o center := by
  have htolerance := ho.toleranceFor_nonneg (m.radiusAt center)
  have hradius : 0 ≤ m.radiusAt center := Real.sqrt_nonneg _
  refine ⟨?_, ?_⟩
  · rw [hmismatch, not_lt]
    exact htolerance
  · rw [not_lt, Angle.quarterTurn_eq Trigonometry.standard]
    exact hsweep.trans (le_add_of_nonneg_right (div_nonneg htolerance hradius))

variable (hends : m.start ≠ m.stop) (hcenter : center ∈ m.centers)
  (htolerance : o.toleranceFor (m.radiusAt center) < m.radiusAt center)

include hends hcenter htolerance

/-- **No other candidate fits as well.** A candidate without mismatch is the center itself or the
mirrored one, around which the move turns by far more than a quarter. -/
theorem eq_of_fits {p : Point ℝ} (hp : p ∈ m.centers) (hfits : m.Fits o p)
    (hp₀ : m.mismatchAt p = 0) : p = center := by
  have hradius := radiusAt_eq_of_mem_centers hp hcenter
  have hpos : 0 < m.radiusAt center := (ho.toleranceFor_nonneg _).trans_lt htolerance
  rw [mismatchAt_eq_zero_iff] at hp₀ hmismatch
  rcases Point.eq_or_eq_mirrored hends hmismatch hp₀ hradius with heq | heq
  · exact heq
  · exfalso
    have hstart : m.start ≠ center := by
      intro h
      rw [← h] at hpos
      simp [radiusAt, Point.distance_eq] at hpos
    have hstop : m.stop ≠ center := by
      intro h
      rw [← hmismatch, ← h] at hpos
      simp [Point.distance_eq] at hpos
    have hrest := sweepAt_mirrored hstart hstop (by linarith [pi_pos])
    have hfraction : o.toleranceFor (m.radiusAt center) / m.radiusAt center < 1 :=
      (div_lt_one hpos).2 htolerance
    have hlimit := hfits.2
    rw [hradius, heq, hrest, Angle.quarterTurn_eq Trigonometry.standard, not_lt] at hlimit
    have hhalf : Trigonometry.standard.halfTurn = π := rfl
    rw [hhalf] at hlimit
    linarith [pi_gt_three]

/-- **The search finds the center.** -/
theorem bestCenter?_eq_some : m.bestCenter? o = some center := by
  unfold bestCenter?
  rw [leastBy_eq_argmin]
  have hmem : center ∈ m.centers.filter fun p => m.Fits o p := by
    simp [hcenter, fits_of_sweepAt_le ho hmismatch hsweep]
  cases hbest : (m.centers.filter fun p => m.Fits o p).argmin m.mismatchAt with
  | none =>
    rw [List.argmin_eq_none.1 hbest] at hmem
    cases hmem
  | some p =>
    have hp := List.argmin_mem hbest
    have hle := List.le_of_mem_argmin hmem hbest
    rw [List.mem_filter, decide_eq_true_eq] at hp
    have hp₀ : m.mismatchAt p = 0 := le_antisymm (hmismatch ▸ hle) (abs_nonneg _)
    rw [eq_of_fits ho hmismatch hsweep hends hcenter htolerance hp.1 hp.2 hp₀]

end Quarter

/-! ## Offsets with and without signs -/

/-- Signed offsets locate the center that they lead to. -/
theorem signedCenter_eq (start stop center : Point ℝ) (direction : Direction) :
    signedCenter ⟨start, stop, ⟨center.x - start.x, center.y - start.y⟩, direction⟩ = center := by
  simp [signedCenter, Point.displaced]

/-- Offsets whose length counts as none vanish. -/
theorem vanish_of_distance_le {start center : Point ℝ}
    (h : start.distance center ≤ Point.tolerance) :
    Offsets.Vanish ⟨center.x - start.x, center.y - start.y⟩ := by
  refine ⟨?_, ?_⟩
  · rw [abs_real, abs_sub_comm]
    exact (Point.abs_x_sub_le_distance _ _).trans h
  · rw [abs_real, abs_sub_comm]
    exact (Point.abs_y_sub_le_distance _ _).trans h

/-- **Magnitudes suffice for a quarter turn.** For an arc around a center that turns by at most a
quarter, between ends that do not count as one point and with a radius above the tolerance for it,
offsets whose signs are lost give the very arc that the offsets with their signs give. -/
theorem arc?_single_eq_multi {o : Options ℝ} (ho : o.Built) {center start stop : Point ℝ}
    {direction : Direction} {offsets : Offsets ℝ}
    (hcircle : stop.distance center = start.distance center)
    (hsweep : Angle.travelled (center.angleFrom start) (center.angleFrom stop) direction ≤ π / 2)
    (hends : ¬ start.Coincide stop)
    (hoffsets : ¬ Offsets.Vanish ⟨center.x - start.x, center.y - start.y⟩)
    (htolerance : o.toleranceFor (start.distance center) < start.distance center)
    (hi : |offsets.i| = |center.x - start.x|) (hj : |offsets.j| = |center.y - start.y|) :
    ∃ arc, arc? o ⟨start, stop, offsets, direction⟩ .single = .ok (some arc) ∧
      arc? o ⟨start, stop, ⟨center.x - start.x, center.y - start.y⟩, direction⟩ .multi =
        .ok (some arc) ∧ arc.center = center := by
  let m : ArcMove ℝ := ⟨start, stop, offsets, direction⟩
  refine ⟨m.arcAt center (m.sweepAt center), ?_, ?_, rfl⟩
  · have hvanish : ¬ offsets.Vanish := by
      simpa only [Offsets.Vanish, abs_real, hi, hj] using hoffsets
    have hne : start ≠ stop := by
      rintro rfl
      exact hends (by simp [Point.Coincide, tolerance_pos.le])
    have hcenter : center ∈ m.centers := (mem_centers_iff m center).2 ⟨hi.symm, hj.symm⟩
    have hbest := bestCenter?_eq_some (m := m) ho ((mismatchAt_eq_zero_iff m center).2 hcircle)
      hsweep hne hcenter htolerance
    simp only [arc?, quarterArc?]
    rw [if_neg (not_or.2 ⟨hends, hvanish⟩), hbest]
  · have hradius : ¬ radiusAt ⟨start, stop, ⟨center.x - start.x, center.y - start.y⟩, direction⟩
        center ≤ Point.tolerance := by
      intro hle
      exact hoffsets (vanish_of_distance_le hle)
    simp only [arc?, signedArc?, signedCenter_eq]
    rw [if_neg hradius, if_neg hends]
    rfl

/-- A quarter turn on from (4, 3) lies (-3, 4): it is multiplied by the imaginary unit. -/
theorem arg_neg_three_four : Complex.arg ⟨-3, 4⟩ = Complex.arg ⟨4, 3⟩ + π / 2 := by
  have hmul : (⟨-3, 4⟩ : ℂ) = ⟨4, 3⟩ * Complex.I := by
    simp [Complex.ext_iff]
  have hne : (⟨4, 3⟩ : ℂ) ≠ 0 := by
    simp [Complex.ext_iff]
  have hlow : 0 ≤ Complex.arg ⟨4, 3⟩ := by
    rw [Complex.arg_nonneg_iff]
    norm_num
  have hhigh : Complex.arg ⟨4, 3⟩ ≤ π / 2 := by
    rw [Complex.arg_le_pi_div_two_iff]
    norm_num
  rw [hmul, Complex.arg_mul hne Complex.I_ne_zero, Complex.arg_I]
  rw [Complex.arg_I]
  exact ⟨by linarith [pi_pos], by linarith⟩

/-- The quarter turn about the origin that starts in (4, 3), given by the magnitudes of offsets that
are both negative. -/
theorem arc?_single_eq_multi_quarterTurn :
    ∃ arc, arc? (Options.standard : Options ℝ) ⟨⟨4, 3⟩, ⟨-3, 4⟩, ⟨4, 3⟩, .counterclockwise⟩ .single =
        .ok (some arc) ∧
      arc? (Options.standard : Options ℝ)
          ⟨⟨4, 3⟩, ⟨-3, 4⟩, ⟨0 - 4, 0 - 3⟩, .counterclockwise⟩ .multi = .ok (some arc) ∧
      arc.center = ⟨0, 0⟩ := by
  have hradius : Point.distance (⟨4, 3⟩ : Point ℝ) ⟨0, 0⟩ = 5 := by
    rw [Point.distance_eq, sqrt_eq_iff_mul_self_eq_of_pos (by norm_num)]
    norm_num
  have hcircle : Point.distance (⟨-3, 4⟩ : Point ℝ) ⟨0, 0⟩ = Point.distance ⟨4, 3⟩ ⟨0, 0⟩ := by
    rw [Point.distance_eq_distance_iff]
    norm_num
  have hsweep : Angle.travelled (Point.angleFrom (⟨0, 0⟩ : Point ℝ) ⟨4, 3⟩)
      (Point.angleFrom ⟨0, 0⟩ ⟨-3, 4⟩) .counterclockwise ≤ π / 2 := by
    rw [Angle.travelled_eq_toIocMod Trigonometry.standard two_pi_pos]
    refine le_of_eq ((toIocMod_eq_iff two_pi_pos).2 ⟨⟨?_, ?_⟩, 0, ?_⟩)
    · exact pi_div_two_pos
    · linarith [pi_pos]
    · have hstart : Point.angleFrom (⟨0, 0⟩ : Point ℝ) ⟨4, 3⟩ = Complex.arg ⟨4, 3⟩ := by
        simp [Point.angleFrom, Scalar.atan2]
      have hstop : Point.angleFrom (⟨0, 0⟩ : Point ℝ) ⟨-3, 4⟩ = Complex.arg ⟨-3, 4⟩ := by
        simp [Point.angleFrom, Scalar.atan2]
      rw [hstart, hstop, arg_neg_three_four, Angle.turn]
      ring
  have hends : ¬ Point.Coincide (⟨4, 3⟩ : Point ℝ) ⟨-3, 4⟩ := by
    norm_num [Point.Coincide, Point.tolerance]
  have hoffsets : ¬ Offsets.Vanish (⟨0 - 4, 0 - 3⟩ : Offsets ℝ) := by
    norm_num [Offsets.Vanish, Point.tolerance]
  refine arc?_single_eq_multi .standard hcircle hsweep hends hoffsets ?_ ?_ ?_
  · rw [hradius, Options.toleranceFor, greater_eq_max]
    norm_num [Options.standard]
  · norm_num
  · norm_num

end ArcMove

end

end Photoplot
