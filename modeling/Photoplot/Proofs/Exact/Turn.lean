import Photoplot.Proofs.Exact

/-!
# Turning

Angles in exact arithmetic. Every way in which an angle is brought within a turn picks the member of
its class modulo a full turn that lies in a half-open interval.

* `modulo_eq_toIcoMod`, `travelled_eq_toIocMod`: remainders and travelled angles as such members;
* `travelled_add_int_mul`: **full turns added to the ends of a move change nothing**;
* `travelled_swap`: there and back again in one direction is a full turn;
* `add_travelled_modEq`: the travelled angle leads from the one angle to the other;
* `travelled_eq_fullTurn_iff`, `travelled_add_travelled_opposite`: **between angles of one class it is a
  full turn, and between others the two directions share one**;
* `turnedBack_toIcoMod`: the walk past the axes keeps its angle within a turn;
* `le_toIcoMod_add_toIocMod_iff`: **a walk reaches the end of the turn exactly when the later angle
  comes first or the walk goes all the way round.**
-/

namespace Photoplot

variable {p : ℝ} (hp : 0 < p)

/-! ## Members of a class -/

/-- A walk that does not reach the end of the turn ends at the later angle. -/
theorem toIcoMod_add_toIocMod_of_lt {a b : ℝ} (h : toIcoMod hp 0 a < toIcoMod hp 0 b) :
    toIcoMod hp 0 a + toIocMod hp 0 (b - a) = toIcoMod hp 0 b := by
  have ha := toIcoMod_mem_Ico' hp a
  have hb := toIcoMod_mem_Ico' hp b
  have hsweep : toIocMod hp 0 (b - a) = toIcoMod hp 0 b - toIcoMod hp 0 a := by
    rw [toIocMod_eq_iff]
    refine ⟨⟨by linarith, by linarith [ha.1, hb.2]⟩, toIcoDiv hp 0 b - toIcoDiv hp 0 a, ?_⟩
    rw [sub_zsmul]
    linarith [toIcoMod_add_toIcoDiv_zsmul hp 0 a, toIcoMod_add_toIcoDiv_zsmul hp 0 b]
  rw [hsweep]
  ring

/-- A walk from an angle to one that is not later goes past the end of the turn. -/
theorem toIcoMod_add_toIocMod_of_le {a b : ℝ} (h : toIcoMod hp 0 b ≤ toIcoMod hp 0 a) :
    toIcoMod hp 0 a + toIocMod hp 0 (b - a) = toIcoMod hp 0 b + p := by
  have ha := toIcoMod_mem_Ico' hp a
  have hb := toIcoMod_mem_Ico' hp b
  have hsweep : toIocMod hp 0 (b - a) = toIcoMod hp 0 b - toIcoMod hp 0 a + p := by
    rw [toIocMod_eq_iff]
    refine ⟨⟨by linarith [ha.2, hb.1], by linarith⟩,
      toIcoDiv hp 0 b - toIcoDiv hp 0 a - 1, ?_⟩
    rw [sub_zsmul, sub_zsmul, one_zsmul]
    linarith [toIcoMod_add_toIcoDiv_zsmul hp 0 a, toIcoMod_add_toIcoDiv_zsmul hp 0 b]
  rw [hsweep]
  ring

/-- **When a walk reaches the end of the turn.** Seen from the end of the turn, the later angle comes
first, or the walk goes all the way round. -/
theorem le_toIcoMod_add_toIocMod_iff (a b : ℝ) :
    p ≤ toIcoMod hp 0 a + toIocMod hp 0 (b - a) ↔
      p ≤ toIocMod hp 0 (b - a) ∨ toIcoMod hp 0 b < toIcoMod hp 0 a := by
  have ha := toIcoMod_mem_Ico' hp a
  have hb := toIcoMod_mem_Ico' hp b
  rcases lt_or_ge (toIcoMod hp 0 a) (toIcoMod hp 0 b) with hlt | hle
  · have hsum := toIcoMod_add_toIocMod_of_lt hp hlt
    constructor
    · intro hreach
      linarith [hb.2]
    · rintro (hfull | hgt)
      · linarith [ha.1]
      · linarith
  · have hsum := toIcoMod_add_toIocMod_of_le hp hle
    refine iff_of_true (by linarith [hb.1]) ?_
    rcases eq_or_lt_of_le hle with heq | hgt
    · exact .inl (by linarith)
    · exact .inr hgt

/-! ## Angles of a plot -/

namespace Angle

variable (T : Trigonometry)

theorem fullTurn_eq : @fullTurn ℝ T.scalar = 2 * T.halfTurn := by
  simp only [fullTurn, Scalar.pi]
  norm_num

theorem quarterTurn_eq : @quarterTurn ℝ T.scalar = T.halfTurn / 2 := by
  simp only [quarterTurn, Scalar.pi]
  norm_num

theorem threeQuarterTurn_eq : @threeQuarterTurn ℝ T.scalar = 3 * (T.halfTurn / 2) := by
  simp only [threeQuarterTurn, quarterTurn, Scalar.pi]
  norm_num

/-- The remainder by a positive number is the member of the class between zero and that number. -/
theorem modulo_eq_toIcoMod (a : ℝ) : @Scalar.modulo ℝ T.scalar a p = toIcoMod hp 0 a := by
  have hmul : p * (a / p) = a := mul_div_cancel₀ a hp.ne'
  unfold Scalar.modulo
  simp only [Scalar.truncMod, Scalar.abs, abs_of_pos hp, wholePart]
  symm
  rw [toIcoMod_eq_iff]
  by_cases hsign : 0 ≤ a / p
  · have hlow : p * ⌊a / p⌋ ≤ p * (a / p) := mul_le_mul_of_nonneg_left (Int.floor_le _) hp.le
    have hhigh : p * (a / p) < p * (⌊a / p⌋ + 1) :=
      mul_lt_mul_of_pos_left (Int.lt_floor_add_one _) hp
    rw [if_pos hsign, if_neg (by linarith)]
    refine ⟨⟨by linarith, by linarith⟩, ⌊a / p⌋, ?_⟩
    rw [zsmul_eq_mul]
    ring
  · have hlow : p * (⌈a / p⌉ - 1) < p * (a / p) :=
      mul_lt_mul_of_pos_left (by linarith [Int.ceil_lt_add_one (a / p)]) hp
    have hhigh : p * (a / p) ≤ p * ⌈a / p⌉ := mul_le_mul_of_nonneg_left (Int.le_ceil _) hp.le
    rw [if_neg hsign]
    split
    · refine ⟨⟨by linarith, by linarith⟩, ⌈a / p⌉ - 1, ?_⟩
      rw [zsmul_eq_mul, Int.cast_sub, Int.cast_one]
      ring
    · refine ⟨⟨by linarith, by linarith⟩, ⌈a / p⌉, ?_⟩
      rw [zsmul_eq_mul]
      ring

section Positive

variable (hT : 0 < 2 * T.halfTurn)

/-- The travelled angle is the member of the class of the turn that is positive and at most a full
turn. -/
theorem travelled_eq_toIocMod (start stop : ℝ) (direction : Direction) :
    @travelled ℝ T.scalar start stop direction =
      toIocMod hT 0 (@turn ℝ T.scalar start stop direction) := by
  simp only [travelled, fullTurn_eq, modulo_eq_toIcoMod hT]
  generalize @turn ℝ T.scalar start stop direction = δ
  have hmod := toIcoMod_mem_Ico' hT δ
  split
  · rename_i hzero
    have hdiv := toIcoMod_add_toIcoDiv_zsmul hT 0 δ
    symm
    rw [toIocMod_eq_iff]
    refine ⟨⟨hT, by linarith⟩, toIcoDiv hT 0 δ - 1, ?_⟩
    rw [sub_zsmul, one_zsmul]
    linarith [hmod.1]
  · rename_i hpos
    symm
    rw [toIocMod_eq_iff]
    refine ⟨⟨not_le.1 hpos, by linarith [hmod.2]⟩, toIcoDiv hT 0 δ, ?_⟩
    exact (toIcoMod_add_toIcoDiv_zsmul hT 0 δ).symm

include hT in
/-- Full turns added to the ends of a move change nothing. -/
theorem travelled_add_int_mul (start stop : ℝ) (m n : ℤ) (direction : Direction) :
    @travelled ℝ T.scalar (start + m * (2 * T.halfTurn)) (stop + n * (2 * T.halfTurn)) direction =
      @travelled ℝ T.scalar start stop direction := by
  rw [travelled_eq_toIocMod T hT, travelled_eq_toIocMod T hT, toIocMod_eq_toIocMod]
  cases direction with
  | counterclockwise =>
    refine ⟨m - n, ?_⟩
    simp only [turn, zsmul_eq_mul]
    push_cast
    ring
  | clockwise =>
    refine ⟨n - m, ?_⟩
    simp only [turn, zsmul_eq_mul]
    push_cast
    ring

/-- A move turns as far when both of its ends are turned alike. -/
theorem travelled_add (start stop θ : ℝ) (direction : Direction) :
    @travelled ℝ T.scalar (start + θ) (stop + θ) direction =
      @travelled ℝ T.scalar start stop direction := by
  have hturn : @turn ℝ T.scalar (start + θ) (stop + θ) direction =
      @turn ℝ T.scalar start stop direction := by
    cases direction <;> simp only [turn] <;> ring
  simp only [travelled, hturn]

include hT in
/-- Going there and going back in the same direction make a full turn together. -/
theorem travelled_swap {start stop : ℝ} {direction : Direction}
    (h : @travelled ℝ T.scalar start stop direction < 2 * T.halfTurn) :
    @travelled ℝ T.scalar stop start direction =
      2 * T.halfTurn - @travelled ℝ T.scalar start stop direction := by
  have hswap : @turn ℝ T.scalar stop start direction = -@turn ℝ T.scalar start stop direction := by
    cases direction <;> simp only [turn] <;> ring
  rw [travelled_eq_toIocMod T hT] at h ⊢
  rw [travelled_eq_toIocMod T hT, hswap, toIocMod_neg, neg_zero]
  congr 1
  -- short of a full turn the two half-open intervals have the same member
  generalize @turn ℝ T.scalar start stop direction = δ at h ⊢
  rw [← toIcoMod_toIocMod hT 0 0, toIcoMod_eq_self]
  exact ⟨(left_lt_toIocMod hT 0 δ).le, by simpa using h⟩

include hT in
/-- Turned counter-clockwise by the travelled angle, the one angle comes to the other. -/
theorem add_travelled_modEq (start stop : ℝ) :
    start + @travelled ℝ T.scalar start stop .counterclockwise ≡ stop [PMOD 2 * T.halfTurn] := by
  have hdiv := toIocMod_add_toIocDiv_zsmul hT 0 (stop - start)
  rw [travelled_eq_toIocMod T hT, AddCommGroup.modEq_iff_eq_add_zsmul]
  refine ⟨toIocDiv hT 0 (stop - start), ?_⟩
  simp only [turn]
  linarith

/-- The turn between two angles vanishes, up to full turns, exactly when the angles differ by full
turns. -/
theorem turn_modEq_zero_iff (start stop : ℝ) (direction : Direction) :
    @turn ℝ T.scalar start stop direction ≡ 0 [PMOD 2 * T.halfTurn] ↔
      start ≡ stop [PMOD 2 * T.halfTurn] := by
  cases direction with
  | counterclockwise => exact AddCommGroup.sub_modEq_zero.trans AddCommGroup.modEq_comm
  | clockwise => exact AddCommGroup.sub_modEq_zero

include hT in
/-- A move goes all the way round exactly between angles that differ by full turns. -/
theorem travelled_eq_fullTurn_iff (start stop : ℝ) (direction : Direction) :
    @travelled ℝ T.scalar start stop direction = 2 * T.halfTurn ↔
      start ≡ stop [PMOD 2 * T.halfTurn] := by
  rw [travelled_eq_toIocMod T hT, ← turn_modEq_zero_iff T start stop direction,
    AddCommGroup.modEq_comm, AddCommGroup.modEq_iff_toIocMod_eq_right hT, zero_add]

include hT in
/-- **The two directions are complementary.** Between angles that do not differ by full turns, what is
travelled in one direction and what is travelled in the other make a full turn together. -/
theorem travelled_add_travelled_opposite {start stop : ℝ}
    (h : ¬ start ≡ stop [PMOD 2 * T.halfTurn]) (direction : Direction) :
    @travelled ℝ T.scalar start stop direction +
      @travelled ℝ T.scalar start stop direction.opposite = 2 * T.halfTurn := by
  have hle : @travelled ℝ T.scalar start stop direction ≤ 2 * T.halfTurn := by
    rw [travelled_eq_toIocMod T hT]
    simpa using toIocMod_le_right hT 0 (@turn ℝ T.scalar start stop direction)
  have hlt : @travelled ℝ T.scalar start stop direction < 2 * T.halfTurn :=
    lt_of_le_of_ne hle (mt (travelled_eq_fullTurn_iff T hT start stop direction).1 h)
  -- the way there in the other direction is the way back in this one
  rw [@travelled_opposite ℝ T.scalar, travelled_swap T hT hlt, add_sub_cancel]

/-- An angle short of a full turn is brought within the turn. -/
theorem normalize_eq_toIcoMod {θ : ℝ} (hθ : θ < 2 * T.halfTurn) :
    @normalize ℝ T.scalar θ = toIcoMod hT 0 θ := by
  unfold normalize
  rw [fullTurn_eq, modulo_eq_toIcoMod hT]
  split
  · rename_i hrange
    exact ((toIcoMod_eq_self hT).2 ⟨hrange.1, by simpa using hθ⟩).symm
  · rfl

/-- A quarter turn on, the angle is again within the turn. -/
theorem turnBack_toIcoMod (θ : ℝ) :
    @turnBack ℝ T.scalar (toIcoMod hT 0 θ) = toIcoMod hT 0 (θ - T.halfTurn / 2) := by
  have hmod := toIcoMod_mem_Ico' hT θ
  have hdiv := toIcoMod_add_toIcoDiv_zsmul hT 0 θ
  unfold turnBack
  rw [quarterTurn_eq, threeQuarterTurn_eq]
  symm
  rw [toIcoMod_eq_iff]
  split
  · rename_i hle
    refine ⟨⟨by linarith, by linarith [hmod.2]⟩, toIcoDiv hT 0 θ, ?_⟩
    linarith
  · rename_i hlt
    refine ⟨⟨by linarith [hmod.1], by linarith⟩, toIcoDiv hT 0 θ - 1, ?_⟩
    rw [sub_zsmul, one_zsmul]
    linarith

/-- So many quarter turns on, the angle is again within the turn. -/
theorem turnedBack_toIcoMod (θ : ℝ) (n : ℕ) :
    @turnedBack ℝ T.scalar (toIcoMod hT 0 θ) n =
      toIcoMod hT 0 (θ - n * (T.halfTurn / 2)) := by
  induction n with
  | zero => simp
  | succ n ih =>
    rw [@turnedBack_succ ℝ T.scalar, ih, turnBack_toIcoMod]
    push_cast
    ring_nf

end Positive

end Angle

end Photoplot
