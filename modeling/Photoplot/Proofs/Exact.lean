import Mathlib
import Photoplot.Plot
import Photoplot.Proofs.Bounds

/-!
# Exact arithmetic

The real numbers as the number type of a plot, with the bounds of boxes on the extended real line.
What is proved in exact arithmetic is proved of the same definitions that a plotter runs on doubles.

* `Trigonometry`, `Trigonometry.scalar`: exact arithmetic with given trigonometric functions, so
  that a theorem can say which of their properties it uses;
* `instScalarReal`: exact arithmetic with those of the plane;
* `lesser_eq_min`, `greater_eq_max`: on a linear order no bound of a pair is passed over;
* `Point.distance_eq`: the distance of the plane, which no difference of coordinates exceeds.
-/

namespace Photoplot

noncomputable section

/-! ## Real numbers -/

/-- A half turn and the trigonometric functions that go with it. -/
structure Trigonometry where
  /-- Half a turn. -/
  halfTurn : ℝ
  /-- The sine. -/
  sin : ℝ → ℝ
  /-- The cosine. -/
  cos : ℝ → ℝ
  /-- The angle of a vector, whose ordinate comes first. -/
  atan2 : ℝ → ℝ → ℝ

/-- The whole part of a real number, cut toward zero. -/
def wholePart (x : ℝ) : ℝ := if 0 ≤ x then ⌊x⌋ else ⌈x⌉

/-- The whole number nearest to a real number, halves going away from zero. -/
def awayRounded (x : ℝ) : ℝ := if 0 ≤ x then ⌊x + 1 / 2⌋ else ⌈x - 1 / 2⌉

/-- Exact arithmetic with given trigonometric functions. -/
abbrev Trigonometry.scalar (T : Trigonometry) : Scalar ℝ where
  decidableLE := inferInstance
  decidableLT := inferInstance
  abs x := |x|
  sqrt := Real.sqrt
  sin := T.sin
  cos := T.cos
  atan2 := T.atan2
  pi := T.halfTurn
  truncMod a b := a - b * wholePart (a / b)
  roundHalfAway := awayRounded
  isInfinite _ := false

/-- The half turn and the trigonometric functions of the plane. -/
abbrev Trigonometry.standard : Trigonometry where
  halfTurn := Real.pi
  sin := Real.sin
  cos := Real.cos
  atan2 y x := Complex.arg ⟨x, y⟩

instance instScalarReal : Scalar ℝ := Trigonometry.standard.scalar

/-! ## Bounds -/

/-- The extended real line has both ends. -/
instance : Bounded EReal where
  bottom := ⊥
  top := ⊤

instance : Placed ℝ EReal where
  place x := x

instance : LawfulBounds EReal where
  le_self_of_le _ := ⟨le_rfl, le_rfl⟩
  le_trans := le_trans
  le_or_le _ _ := le_total _ _
  bottom_le _ := bot_le
  le_top _ := le_top
  bottom_le_top := bot_le

section Order

variable {β : Type} [LinearOrder β]

theorem lesser_eq_min (a b : β) : lesser a b = min a b := by
  unfold lesser
  rcases le_total a b with h | h
  · simp [h]
  · rcases eq_or_lt_of_le h with rfl | hlt
    · simp
    · simp [h, not_le.2 hlt]

theorem greater_eq_max (a b : β) : greater a b = max a b := by
  unfold greater
  rcases le_total b a with h | h
  · simp [h]
  · rcases eq_or_lt_of_le h with rfl | hlt
    · simp
    · simp [h, not_le.2 hlt]

end Order

/-! ## Operations -/

@[simp] theorem abs_real (x : ℝ) : Scalar.abs x = |x| := rfl

@[simp] theorem sqrt_real (x : ℝ) : Scalar.sqrt x = Real.sqrt x := rfl

/-- Nothing is wrong with a size exactly when it is not negative. -/
theorem ofSize?_real_eq_none_iff (x : ℝ) : NumericFault.ofSize? x = none ↔ 0 ≤ x := by
  rw [NumericFault.ofSize?_eq_none_iff, not_lt]
  constructor
  · rintro ⟨-, -, hsign⟩
    exact hsign
  · intro hsign
    refine ⟨?_, rfl, hsign⟩
    intro hnan
    exact hnan le_rfl

/-- The largest difference of coinciding coordinates is positive. -/
theorem tolerance_pos : (0 : ℝ) < Point.tolerance := by
  unfold Point.tolerance
  norm_num

/-- And it is less than one. -/
theorem tolerance_lt_one : (Point.tolerance : ℝ) < 1 := by
  unfold Point.tolerance
  norm_num

/-- A half, as it is written where plots are computed. -/
theorem half_eq (x : ℝ) : x / 2.0 = x / 2 := by
  norm_num

/-- Half of a size is one, too. -/
theorem half_nonneg {x : ℝ} (h : 0 ≤ x) : 0 ≤ x / 2.0 :=
  div_nonneg h (by norm_num)

/-! ## Distances -/

attribute [ext] Point

theorem Point.distance_eq (p q : Point ℝ) :
    p.distance q = √((p.x - q.x) ^ 2 + (p.y - q.y) ^ 2) := by
  rw [distance, sqrt_real, sq, sq]

/-- Two distances are equal when their squares are. -/
theorem Point.distance_eq_distance_iff (p q r s : Point ℝ) : p.distance q = r.distance s ↔
    (p.x - q.x) ^ 2 + (p.y - q.y) ^ 2 = (r.x - s.x) ^ 2 + (r.y - s.y) ^ 2 := by
  rw [distance_eq, distance_eq, Real.sqrt_inj (by positivity) (by positivity)]

/-- Abscissas differ by no more than the distance. -/
theorem Point.abs_x_sub_le_distance (p q : Point ℝ) : |p.x - q.x| ≤ p.distance q := by
  rw [distance_eq]
  exact Real.abs_le_sqrt (le_add_of_nonneg_right (sq_nonneg _))

/-- Ordinates differ by no more than the distance. -/
theorem Point.abs_y_sub_le_distance (p q : Point ℝ) : |p.y - q.y| ≤ p.distance q := by
  rw [distance_eq]
  exact Real.abs_le_sqrt (le_add_of_nonneg_left (sq_nonneg _))

end

end Photoplot
