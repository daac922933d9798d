import Photoplot.Proofs.Exact

/-!
# Decimal places

Rounding to decimal places in exact arithmetic. Scaled by a power of ten a number is rounded to the
nearest whole number; scaled back it is the nearest multiple of the last place.

* `Scalar.powerFrom_eq`, `shiftFactor_eq`: repeated squaring makes powers;
* `IsRounding`: multiples of the last place that are as near as the nearest one;
* `isRounding_roundToPlaces`: **what is rounded to decimal places is a multiple of the last one, and no
  more than half of it is lost or gained**;
* `roundToPlaces_mono`: **rounding keeps the order**;
* `Box.rounded`: boxes whose sides are rounded.
-/

namespace Photoplot

noncomputable section

/-! ## Whole numbers -/

theorem exists_awayRounded_eq (x : ℝ) : ∃ k : ℤ, awayRounded x = k := by
  unfold awayRounded
  split
  · exact ⟨_, rfl⟩
  · exact ⟨_, rfl⟩

theorem abs_awayRounded_sub_le (x : ℝ) : |awayRounded x - x| ≤ 1 / 2 := by
  unfold awayRounded
  rw [abs_le]
  split
  · have hle := Int.floor_le (x + 1 / 2)
    have hlt := Int.lt_floor_add_one (x + 1 / 2)
    constructor <;> linarith
  · have hle := Int.le_ceil (x - 1 / 2)
    have hlt := Int.ceil_lt_add_one (x - 1 / 2)
    constructor <;> linarith

/-- Halves go away from zero on both sides of it, which leaves the order as it is. -/
theorem awayRounded_mono : Monotone awayRounded := by
  intro x y hle
  unfold awayRounded
  split_ifs with hx hy hy
  · exact_mod_cast Int.floor_mono (by linarith)
  · linarith
  · have hlow : ⌈x - 1 / 2⌉ ≤ 0 := Int.ceil_le.2 (by push_cast; linarith)
    have hhigh : 0 ≤ ⌊y + 1 / 2⌋ := Int.floor_nonneg.2 (by linarith)
    exact_mod_cast hlow.trans hhigh
  · exact_mod_cast Int.ceil_mono (by linarith)

/-! ## Powers -/

variable (T : Trigonometry)

/-- Repeated squaring makes powers. -/
theorem Scalar.powerFrom_eq (acc base : ℝ) (n : ℕ) :
    @Scalar.powerFrom ℝ T.scalar acc base n = acc * base ^ n := by
  induction n using Nat.strongRecOn generalizing acc base with
  | ind n ih =>
    unfold powerFrom
    split
    · rename_i hzero
      rw [hzero, pow_zero, mul_one]
    · rename_i hpos
      rw [ih (n / 2) (by omega)]
      -- the lowest bit is taken now, the others stand for squares
      have hbits : base ^ n = base ^ (n % 2) * (base * base) ^ (n / 2) := by
        rw [← sq, ← pow_mul, ← pow_add, Nat.mod_add_div]
      rw [hbits, ← mul_assoc]
      congr 1
      rcases Nat.mod_two_eq_zero_or_one n with heven | hodd
      · rw [heven, pow_zero, mul_one]
        rfl
      · rw [hodd, pow_one]
        rfl

/-- The factor for so few places that their number is not taken for a negative one is a power of ten. -/
theorem shiftFactor_eq {places : UInt32} (h : places ≤ 15) :
    @shiftFactor ℝ T.scalar places = 10 ^ places.toNat := by
  have hfew : places.toNat ≤ 15 := UInt32.le_iff_toNat_le.1 h
  have hcount : places.toInt32.toInt = places.toNat := by
    refine BitVec.toInt_eq_toNat_of_lt ?_
    show 2 * places.toNat < 2 ^ 32
    omega
  have hpositive : ¬ (places.toNat : ℤ) < 0 := by omega
  have hten : (10.0 : ℝ) = 10 := by norm_num
  have hpower : @Scalar.powerFrom ℝ T.scalar 1 10.0 places.toNat = 10.0 ^ places.toNat := by
    rw [Scalar.powerFrom_eq, one_mul]
  unfold shiftFactor Scalar.power
  rw [hcount, if_neg hpositive, Int.natAbs_natCast, ← hten]
  exact hpower

/-! ## Rounding to places -/

/-- A multiple of the last of some decimal places that is no further than half of that place from a
number. -/
structure IsRounding (places : ℕ) (exact rounded : ℝ) : Prop where
  /-- It is a multiple of the last place. -/
  multiple : ∃ k : ℤ, rounded = k * (10 : ℝ) ^ (-places : ℤ)
  /-- No more than half of the last place is lost or gained. -/
  near : |rounded - exact| ≤ (10 : ℝ) ^ (-places : ℤ) / 2

variable {places : UInt32} (h : places ≤ 15)

include h

theorem roundToPlaces_eq (x : ℝ) : @roundToPlaces ℝ T.scalar x places =
    awayRounded (x * 10 ^ places.toNat) / 10 ^ places.toNat := by
  unfold roundToPlaces
  rw [shiftFactor_eq T h]
  unfold unsignedZero
  split
  · rename_i hzero
    exact le_antisymm hzero.2 hzero.1
  · rfl

/-- **Rounding keeps the order.** -/
theorem roundToPlaces_mono {x y : ℝ} (hle : x ≤ y) :
    @roundToPlaces ℝ T.scalar x places ≤ @roundToPlaces ℝ T.scalar y places := by
  rw [roundToPlaces_eq T h, roundToPlaces_eq T h]
  gcongr
  exact awayRounded_mono (by gcongr)

/-- **What rounding to decimal places makes of a number.** -/
theorem isRounding_roundToPlaces (x : ℝ) :
    IsRounding places.toNat x (@roundToPlaces ℝ T.scalar x places) := by
  have hunit : (0 : ℝ) < 10 ^ places.toNat := by positivity
  rw [roundToPlaces_eq T h]
  constructor
  · obtain ⟨k, hk⟩ := exists_awayRounded_eq (x * 10 ^ places.toNat)
    exact ⟨k, by rw [hk, zpow_neg, zpow_natCast, div_eq_mul_inv]⟩
  · have hhalf := abs_awayRounded_sub_le (x * 10 ^ places.toNat)
    have hscaled : awayRounded (x * 10 ^ places.toNat) / 10 ^ places.toNat - x =
        (awayRounded (x * 10 ^ places.toNat) - x * 10 ^ places.toNat) / 10 ^ places.toNat := by
      field_simp
    rw [hscaled, abs_div, abs_of_pos hunit, zpow_neg, zpow_natCast, div_le_iff₀ hunit]
    have hone : ((10 : ℝ) ^ places.toNat)⁻¹ / 2 * 10 ^ places.toNat = 1 / 2 := by field_simp
    rwa [hone]

omit h

/-! ## Boxes -/

/-- A bound rounded to decimal places; the ends of the line stay where they are. -/
def roundBound (places : UInt32) (bound : EReal) : EReal :=
  WithBot.map (WithTop.map fun x : ℝ => @roundToPlaces ℝ T.scalar x places) bound

/-- The box whose sides are those of a box, rounded to decimal places. -/
def Box.rounded (places : UInt32) (b : Box EReal) : Box EReal where
  xMin := roundBound T places b.xMin
  yMin := roundBound T places b.yMin
  xMax := roundBound T places b.xMax
  yMax := roundBound T places b.yMax

end

end Photoplot
