import Photoplot.Proofs.Exact.QuarterArc

/-!
# The search for a center

Which of the four centers that the magnitudes of offsets leave open is taken. The candidates are
numbered in the order in which they are tried, and the search is an exact arg-min over those that are
acceptable, whatever number of them is.

* `lt_of_mem_argmin`: the library's arg-min over entries in increasing order is the first of several;
* `ArcMove.candidate`, `ArcMove.Acceptable`: the four candidates and what is asked of them;
* `ArcMove.IsBest`: the acceptable candidate with the least mismatch, the earliest of several;
* `ArcMove.bestCenter?_eq_candidate`: the search finds the best candidate;
* `ArcMove.arc?_single_best`: **the arc of a move without signs is the one around the best candidate,
  it is refused exactly when none is acceptable, and signs make no difference.**
-/

namespace Photoplot

noncomputable section

open Real

/-- Where entries are listed in increasing order, those before the one with the least key have greater
keys. -/
theorem lt_of_mem_argmin {ι κ : Type} [LinearOrder ι] [LinearOrder κ] {key : ι → κ} {l : List ι}
    (hl : l.SortedLT) {i j : ι} (hi : i ∈ l.argmin key) (hj : j ∈ l) (hji : j < i) :
    key i < key j := by
  by_contra hle
  have hindex := List.index_of_argmin hi hj (not_lt.1 hle)
  have hpos : l.idxOf j < l.length := List.idxOf_lt_length_iff.2 hj
  have hbound : l.idxOf i < l.length := hindex.trans_lt hpos
  have hget : l[l.idxOf i] ≤ l[l.idxOf j] :=
    (hl.getElem_le_getElem_iff).2 hindex
  rw [List.getElem_idxOf, List.getElem_idxOf] at hget
  exact absurd hji (not_lt.2 hget)

/-- The same error about a move with other offsets. -/
def PlotError.withOffsets (offsets : Offsets ℝ) : PlotError ℝ → PlotError ℝ
  | arcCenterNotFound start stop _ direction => arcCenterNotFound start stop offsets direction
  | invalidOption name fault => invalidOption name fault

namespace ArcMove

/-! ## Candidates -/

/-- The candidates in the order in which they are tried: both offsets counted forward, the first one
counted back, the second one, both. -/
def candidate (m : ArcMove ℝ) : Fin 4 → Point ℝ :=
  ![⟨m.start.x + |m.offsets.i|, m.start.y + |m.offsets.j|⟩,
    ⟨m.start.x - |m.offsets.i|, m.start.y + |m.offsets.j|⟩,
    ⟨m.start.x + |m.offsets.i|, m.start.y - |m.offsets.j|⟩,
    ⟨m.start.x - |m.offsets.i|, m.start.y - |m.offsets.j|⟩]

/-- What is asked of a center. -/
structure Acceptable (o : Options ℝ) (m : ArcMove ℝ) (center : Point ℝ) : Prop where
  /-- Its distances from both ends differ by no more than the tolerance for its radius. -/
  mismatch_le : |m.start.distance center - m.stop.distance center| ≤
    o.toleranceFor (m.start.distance center)
  /-- The move turns around it by no more than a quarter, up to that tolerance as an angle. -/
  sweep_le : Angle.travelled (center.angleFrom m.start) (center.angleFrom m.stop) m.direction ≤
    π / 2 + o.toleranceFor (m.start.distance center) / m.start.distance center

/-- A candidate is the best one. -/
structure IsBest (o : Options ℝ) (m : ArcMove ℝ) (n : Fin 4) : Prop where
  /-- It is acceptable. -/
  acceptable : m.Acceptable o (m.candidate n)
  /-- No acceptable candidate has a smaller mismatch. -/
  least : ∀ k, m.Acceptable o (m.candidate k) →
    m.mismatchAt (m.candidate n) ≤ m.mismatchAt (m.candidate k)
  /-- Of the acceptable candidates with this mismatch it is the earliest. -/
  earliest : ∀ k, m.Acceptable o (m.candidate k) →
    m.mismatchAt (m.candidate k) = m.mismatchAt (m.candidate n) → n ≤ k

variable {o : Options ℝ} {m : ArcMove ℝ}

theorem fits_iff_acceptable (o : Options ℝ) (m : ArcMove ℝ) (center : Point ℝ) :
    m.Fits o center ↔ m.Acceptable o center := by
  have hquarter : (Angle.quarterTurn : ℝ) = π / 2 := Angle.quarterTurn_eq Trigonometry.standard
  simp only [Fits, not_lt, hquarter]
  constructor
  · rintro ⟨hmismatch, hsweep⟩
    exact ⟨hmismatch, hsweep⟩
  · intro h
    exact ⟨h.mismatch_le, h.sweep_le⟩

theorem centers_eq_map_candidate (m : ArcMove ℝ) :
    m.centers = (List.finRange 4).map m.candidate := by
  simp [centers, signChoices, Point.displaced, candidate, List.finRange_succ, sub_eq_add_neg]

/-- The candidates that fit, in the order in which they are tried. -/
def fitting (o : Options ℝ) (m : ArcMove ℝ) : List (Fin 4) :=
  (List.finRange 4).filter fun n => m.Fits o (m.candidate n)

theorem mem_fitting_iff (o : Options ℝ) (m : ArcMove ℝ) (n : Fin 4) :
    n ∈ m.fitting o ↔ m.Acceptable o (m.candidate n) := by
  simp [fitting, fits_iff_acceptable]

/-- The search as the library's arg-min over the candidates that fit. -/
theorem bestCenter?_eq_map_argmin (o : Options ℝ) (m : ArcMove ℝ) : m.bestCenter? o =
    ((m.fitting o).argmin fun n => m.mismatchAt (m.candidate n)).map m.candidate := by
  unfold bestCenter?
  rw [centers_eq_map_candidate, List.filter_map, leastBy_map, leastBy_eq_argmin]
  rfl

/-- The arg-min is the best candidate. -/
theorem isBest_of_mem_argmin {n : Fin 4}
    (hn : n ∈ (m.fitting o).argmin fun n => m.mismatchAt (m.candidate n)) : m.IsBest o n where
  acceptable := (mem_fitting_iff o m n).1 (List.argmin_mem hn)
  least k hk := by
    have hle := List.le_of_mem_argmin ((mem_fitting_iff o m k).2 hk) hn
    exact hle
  earliest k hk heq := by
    have hsorted : (m.fitting o).SortedLT :=
      ((List.sortedLT_finRange 4).pairwise.filter _).sortedLT
    by_contra hlt
    have hgreater := lt_of_mem_argmin hsorted hn ((mem_fitting_iff o m k).2 hk) (not_le.1 hlt)
    exact absurd heq.symm hgreater.ne

/-- **The search finds the best candidate** when there is an acceptable one. -/
theorem bestCenter?_eq_candidate (h : ∃ n, m.Acceptable o (m.candidate n)) :
    ∃ n, m.IsBest o n ∧ m.bestCenter? o = some (m.candidate n) := by
  obtain ⟨k, hk⟩ := h
  rw [bestCenter?_eq_map_argmin]
  cases hbest : (m.fitting o).argmin fun n => m.mismatchAt (m.candidate n) with
  | none =>
    rw [← mem_fitting_iff, List.argmin_eq_none.1 hbest] at hk
    cases hk
  | some n => exact ⟨n, isBest_of_mem_argmin hbest, rfl⟩

/-- The search fails exactly when no candidate is acceptable. -/
theorem bestCenter?_eq_none_iff_candidate (o : Options ℝ) (m : ArcMove ℝ) :
    m.bestCenter? o = none ↔ ∀ n, ¬ m.Acceptable o (m.candidate n) := by
  rw [bestCenter?_eq_none_iff, centers_eq_map_candidate]
  simp [fits_iff_acceptable]

/-! ## Signs -/

/-- Offsets of the same magnitudes leave the same centers open, and the same one is the best. -/
theorem quarterArc?_withOffsets (o : Options ℝ) (m : ArcMove ℝ) {offsets : Offsets ℝ}
    (hi : |offsets.i| = |m.offsets.i|) (hj : |offsets.j| = |m.offsets.j|) :
    quarterArc? o { m with offsets := offsets } =
      (m.quarterArc? o).mapError (PlotError.withOffsets offsets) := by
  have hcenters : centers { m with offsets := offsets } = m.centers := by
    simp [centers, signChoices, hi, hj]
  have hbest : bestCenter? o { m with offsets := offsets } = m.bestCenter? o := by
    unfold bestCenter?
    rw [hcenters]
    rfl
  have hvanish : offsets.Vanish ↔ m.offsets.Vanish := by
    simp [Offsets.Vanish, hi, hj]
  unfold quarterArc?
  rw [hbest]
  simp only [hvanish]
  split
  · rfl
  · cases m.bestCenter? o <;> rfl

/-! ## Arcs -/

/-- **The search is an exact arg-min.** For a move between ends that do not count as one point, with
offsets that do not vanish, the arc of at most a quarter turn is refused exactly when none of the four
candidates is acceptable, and the error names the move as it was given. Otherwise it is an arc around
the acceptable candidate with the least mismatch, the earliest of several, and its radius, its sweep
and the angles of its ends are those around that very center. Offsets with other signs change nothing
but the offsets that the error names. -/
theorem arc?_single_best (o : Options ℝ) (m : ArcMove ℝ) (hends : ¬ m.start.Coincide m.stop)
    (hoffsets : ¬ m.offsets.Vanish) :
    (∀ e, m.arc? o .single = .error e ↔ (∀ n, ¬ m.Acceptable o (m.candidate n)) ∧
        e = .arcCenterNotFound m.start m.stop m.offsets m.direction) ∧
      ((∃ n, m.Acceptable o (m.candidate n)) → ∃ n, m.IsBest o n ∧
        m.arc? o .single = .ok (some {
          start := m.start
          stop := m.stop
          center := m.candidate n
          radius := m.start.distance (m.candidate n)
          sweep := Angle.travelled ((m.candidate n).angleFrom m.start)
            ((m.candidate n).angleFrom m.stop) m.direction
          direction := m.direction
          startAngle := (m.candidate n).angleFrom m.start
          stopAngle := (m.candidate n).angleFrom m.stop })) ∧
      ∀ offsets : Offsets ℝ, |offsets.i| = |m.offsets.i| → |offsets.j| = |m.offsets.j| →
        arc? o { m with offsets := offsets } .single =
          (m.arc? o .single).mapError (PlotError.withOffsets offsets) := by
  have hdraws : ¬ (m.start.Coincide m.stop ∨ m.offsets.Vanish) := not_or.2 ⟨hends, hoffsets⟩
  refine ⟨?_, ?_, ?_⟩
  · intro e
    rw [← bestCenter?_eq_none_iff_candidate]
    simp only [arc?, quarterArc?]
    rw [if_neg hdraws]
    cases m.bestCenter? o with
    | none => simp [eq_comm]
    | some center => simp
  · intro h
    obtain ⟨n, hbest, hcenter⟩ := bestCenter?_eq_candidate h
    refine ⟨n, hbest, ?_⟩
    simp only [arc?, quarterArc?]
    rw [if_neg hdraws, hcenter]
    rfl
  · intro offsets hi hj
    exact quarterArc?_withOffsets o m hi hj

/-- A quarter turn about the origin. Its second offset is zero, so each candidate is tried twice. -/
def cornerMove : ArcMove ℝ := ⟨⟨1, 0⟩, ⟨0, 1⟩, ⟨1, 0⟩, .counterclockwise⟩

theorem apart_cornerMove : ¬ cornerMove.start.Coincide cornerMove.stop := by
  norm_num [cornerMove, Point.Coincide, Point.tolerance]

theorem displaced_cornerMove : ¬ cornerMove.offsets.Vanish := by
  norm_num [cornerMove, Offsets.Vanish, Point.tolerance]

theorem candidate_cornerMove : cornerMove.candidate 1 = ⟨0, 0⟩ := by
  simp [candidate, cornerMove]

theorem acceptable_cornerMove :
    cornerMove.Acceptable Options.standard (cornerMove.candidate 1) := by
  rw [candidate_cornerMove, ← fits_iff_acceptable]
  apply fits_of_sweepAt_le .standard
  · rw [mismatchAt_eq_zero_iff, radiusAt, Point.distance_eq_distance_iff]
    norm_num [cornerMove]
  · have hstart : Point.angleFrom (⟨0, 0⟩ : Point ℝ) cornerMove.start = 0 := by
      have hright : (⟨1, 0⟩ : ℂ) = 1 := rfl
      simp [Point.angleFrom, Scalar.atan2, cornerMove, hright]
    have hstop : Point.angleFrom (⟨0, 0⟩ : Point ℝ) cornerMove.stop = π / 2 := by
      have hup : (⟨0, 1⟩ : ℂ) = Complex.I := rfl
      simp [Point.angleFrom, Scalar.atan2, cornerMove, hup]
    unfold sweepAt
    rw [hstart, hstop, Angle.travelled_eq_toIocMod Trigonometry.standard two_pi_pos]
    refine le_of_eq ((toIocMod_eq_iff two_pi_pos).2 ⟨⟨pi_div_two_pos, ?_⟩, 0, ?_⟩)
    · linarith [pi_pos]
    · simp [cornerMove, Angle.turn]

/-- The quarter turn is found around a best candidate, also with its offset counted back. -/
theorem arc?_single_best_cornerMove :
    ¬ cornerMove.start.Coincide cornerMove.stop ∧ ¬ cornerMove.offsets.Vanish ∧
      ∃ n arc, cornerMove.IsBest Options.standard n ∧ arc.center = cornerMove.candidate n ∧
        cornerMove.arc? Options.standard .single = .ok (some arc) ∧
        arc? Options.standard { cornerMove with offsets := ⟨-1, 0⟩ } .single = .ok (some arc) := by
  obtain ⟨-, hfound, hsigns⟩ :=
    arc?_single_best Options.standard cornerMove apart_cornerMove displaced_cornerMove
  obtain ⟨n, hbest, harc⟩ := hfound ⟨1, acceptable_cornerMove⟩
  refine ⟨apart_cornerMove, displaced_cornerMove, n, _, hbest, rfl, harc, ?_⟩
  rw [hsigns ⟨-1, 0⟩ (by simp [cornerMove]) (by simp [cornerMove]), harc]
  rfl

end ArcMove

end

end Photoplot
