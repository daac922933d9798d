import Photoplot.Proofs.Binary64.Rounding

/-!
# Rounding to the nearest double

No finite double lies strictly between a number and what it is rounded to. That leaves two results
open, one on either side; the one that is chosen is the nearest. So a larger number is never rounded
to less, and a product of doubles does not decrease when one of its factors grows and the other one is
not negative.

* `Binary64.HalvedFrom`: the bits that are cut off a mantissa tell on which side of the middle of the
  unit a number lies;
* `Binary64.nearest_roundedMantissa`: **a mantissa is rounded to the nearest size of a double**;
* `Binary64.RoundsToNearest`, `Binary64.roundsToNearest_mul`: products of doubles are rounded so;
* `Binary64.RoundsToNearest.le_of_lt`: **rounding to the nearest keeps the order**;
* `Binary64.mul_le_mul_of_toReal_nonneg`: products that grow with their first factor.
-/

namespace Photoplot

namespace Binary64

open Float.Model UnpackedFloat

noncomputable section

/-! ## The middle of the unit -/

/-- What the bits that are cut off a mantissa say about the middle of the unit: the first of them is set
for numbers from the middle on, and the middle itself sets no other one. -/
structure HalvedFrom (x : ℝ) (em : ExtendedMantissa) : Prop where
  /-- The first bit is set from the middle on. -/
  middle_le : em.roundBit = true → em.mantissa + 1 / 2 ≤ x
  /-- It is clear up to the middle, or nothing more is missing than that. -/
  le_middle : em.roundBit = false ∨ em.stickyBit = false → x ≤ em.mantissa + 1 / 2

theorem halvedFrom_exact (m : ℕ) : HalvedFrom m (.ofMantissaAndAccuracy m .exact) where
  middle_le h := Bool.noConfusion h
  le_middle _ := le_add_of_nonneg_right (by norm_num)

/-- The bit that is cut off tells the halves of the new unit apart, whatever was cut off before. -/
theorem CutFrom.halvedFrom_shiftRightOne {x : ℝ} {em : ExtendedMantissa} (h : CutFrom x em) :
    HalvedFrom (x / 2) em.shiftRightOne := by
  obtain ⟨m, r, t⟩ := em
  obtain ⟨hle, hlt, hexact⟩ := h
  obtain ⟨k, rfl | rfl⟩ := Nat.even_or_odd' m
  · have hcut : (⟨2 * k, r, t⟩ : ExtendedMantissa).shiftRightOne = ⟨k, false, r || t⟩ := by
      simp [ExtendedMantissa.shiftRightOne]
    rw [hcut]
    push_cast at hlt
    exact ⟨fun h => Bool.noConfusion h, fun _ => by simp only; linarith⟩
  · have hcut : (⟨2 * k + 1, r, t⟩ : ExtendedMantissa).shiftRightOne = ⟨k, true, r || t⟩ := by
      simp [ExtendedMantissa.shiftRightOne]
      omega
    rw [hcut]
    push_cast at hle hexact
    refine ⟨fun _ => by simp only; linarith, fun hclear => ?_⟩
    have hnone : r = false ∧ t = false := by simpa using hclear
    rw [hexact.2 hnone]
    simp only
    linarith

/-- Cutting off any number of bits keeps the halves apart. -/
theorem HalvedFrom.shiftRight {x : ℝ} {em : ExtendedMantissa} (h : HalvedFrom x em)
    (hcut : CutFrom x em) (n : ℕ) : HalvedFrom (x / 2 ^ n) (em >>> n) := by
  cases n with
  | zero =>
    show HalvedFrom (x / 2 ^ 0) em
    simpa using h
  | succ n =>
    have hstep := (hcut.shiftRight n).halvedFrom_shiftRightOne
    rw [div_div, ← pow_succ] at hstep
    exact hstep

/-- A mantissa is rounded by at most half a unit. -/
theorem HalvedFrom.abs_sub_rounded_le {x : ℝ} {em : ExtendedMantissa} (h : HalvedFrom x em)
    (hcut : CutFrom x em) : |x - em.roundedMantissa| ≤ 1 / 2 := by
  obtain ⟨m, r, t⟩ := em
  obtain ⟨hmiddle, hmiddle'⟩ := h
  obtain ⟨hle, hlt, -⟩ := hcut
  have hrounded : (⟨m, r, t⟩ : ExtendedMantissa).roundedMantissa = m ∧ (r = false ∨ t = false) ∨
      (⟨m, r, t⟩ : ExtendedMantissa).roundedMantissa = m + 1 ∧ r = true := by
    cases r <;> cases t <;>
      simp [ExtendedMantissa.roundedMantissa, ExtendedMantissa.accuracy, Accuracy.roundToNearestEven]
    omega
  simp only at hmiddle hmiddle' hle hlt
  rw [abs_le]
  rcases hrounded with ⟨heq, hclear⟩ | ⟨heq, hset⟩
  · rw [heq]
    exact ⟨by linarith, by linarith [hmiddle' hclear]⟩
  · rw [heq]
    push_cast
    exact ⟨by linarith [hmiddle hset], by linarith⟩

/-- And by no more than to any other whole number. -/
theorem HalvedFrom.abs_sub_rounded_le_abs_sub {x : ℝ} {em : ExtendedMantissa} (h : HalvedFrom x em)
    (hcut : CutFrom x em) (l : ℕ) : |x - em.roundedMantissa| ≤ |x - l| := by
  have hhalf := h.abs_sub_rounded_le hcut
  rcases eq_or_ne em.roundedMantissa l with heq | hne
  · rw [heq]
  · have hapart : (1 : ℝ) ≤ |(em.roundedMantissa : ℝ) - l| := by
      have hint : (1 : ℤ) ≤ |(em.roundedMantissa : ℤ) - l| :=
        Int.one_le_abs (sub_ne_zero.2 (by exact_mod_cast hne))
      exact_mod_cast hint
    have htriangle := abs_sub_le (em.roundedMantissa : ℝ) x l
    rw [abs_sub_comm _ x] at htriangle
    linarith

/-! ## The nearest size -/

/-- Of all sizes that doubles can have, none is nearer to a number. -/
def Nearest (v r : ℝ) : Prop := ∀ n f, Canonical n f → |v - r| ≤ |v - size n f|

/-- **What is rounded is rounded to the nearest size.** -/
theorem nearest_roundedMantissa {x : ℝ} {em : ExtendedMantissa} {e : ℤ} (hcut : CutFrom x em)
    (hhalved : HalvedFrom x em) (hcanonical : Canonical em.mantissa e) :
    Nearest (x * 2 ^ e) (em.roundedMantissa * 2 ^ e) := by
  have hunit : (0 : ℝ) < 2 ^ e := by positivity
  -- sizes with the same exponent are compared by their mantissas
  have hscaled : ∀ l : ℕ, |x * 2 ^ e - em.roundedMantissa * 2 ^ e| ≤ |x * 2 ^ e - l * 2 ^ e| := by
    intro l
    rw [← sub_mul, ← sub_mul, abs_mul, abs_mul]
    exact mul_le_mul_of_nonneg_right (hhalved.abs_sub_rounded_le_abs_sub hcut l) (abs_nonneg _)
  intro n f hn
  rcases lt_or_ge f e with hlt | hge
  · -- with a smaller exponent they lie below what was cut off, which is a size, too
    have hfull : 2 ^ 52 ≤ em.mantissa :=
      hcanonical.full_or_least.resolve_right (by have := hn.least_le; omega)
    have hmantissa : (2 : ℝ) ^ 52 ≤ em.mantissa := by exact_mod_cast hfull
    have hbelow : size n f ≤ em.mantissa * 2 ^ e :=
      ((hn.size_lt hlt).trans_le (mul_le_mul_of_nonneg_right hmantissa hunit.le)).le
    have hcut' : (em.mantissa : ℝ) * 2 ^ e ≤ x * 2 ^ e :=
      mul_le_mul_of_nonneg_right hcut.le hunit.le
    refine (hscaled em.mantissa).trans ?_
    rw [abs_of_nonneg (by linarith), abs_of_nonneg (by linarith)]
    linarith
  · obtain ⟨l, hl⟩ := exists_size_eq_mul (n := n) hge
    rw [hl]
    exact hscaled l

theorem exists_nearest_roundWithAccuracy (s : Sign) {m : ℕ} {e : ℤ} {a : Accuracy} {x : ℝ}
    (hx : CutFrom x (.ofMantissaAndAccuracy m a)) (hx' : HalvedFrom x (.ofMantissaAndAccuracy m a))
    (he : e ≤ Format.binary64.targetExponent (totalExponent m e)) :
    ∃ n f, Canonical n f ∧ roundWithAccuracy Format.binary64 s m e a = ofMagnitude s n f ∧
      Nearest (x * 2 ^ e) (size n f) := by
  obtain ⟨k, hshift, hcut, hcanonical⟩ := exists_shiftToTargetExponent hx he
  obtain ⟨n, f, hform, hround, hsize⟩ := exists_roundWithAccuracy_eq s hshift hcanonical
  refine ⟨n, f, hform, hround, ?_⟩
  rw [← div_two_pow_mul x k e, hsize]
  exact nearest_roundedMantissa hcut (hx'.shiftRight hx k) hcanonical

/-! ## Rounding to doubles -/

/-- A double that a real number is rounded to: its value is the nearest size with its sign, or an
infinity when that lies beyond the range of doubles. -/
def RoundsToNearest (v : ℝ) (x : Float) : Prop :=
  ∃ s n f, Canonical n f ∧ value? x.toModel.unpack = some (capped (signed s (size n f))) ∧
    ∀ t m e, Canonical m e → |v - signed s (size n f)| ≤ |v - signed t (size m e)|

/-- The nearest size is the nearest one of all with either sign. -/
theorem Nearest.roundsToNearest {v : ℝ} {n : ℕ} {f : ℤ} (h : Nearest v (size n f)) (hv : 0 ≤ v)
    (hform : Canonical n f) (s : Sign) :
    RoundsToNearest (signed s v) (Float.ofModel (pack (ofMagnitude s n f))) := by
  refine ⟨s, n, f, hform, value?_unpack_pack_ofMagnitude s hform, fun t m e hm => ?_⟩
  have hsize := h m e hm
  have hzero := h 0 (-1074) canonical_zero
  have hnonneg := size_nonneg m e
  rw [size_zero, sub_zero, abs_of_nonneg hv] at hzero
  -- a size with the other sign lies beyond zero, which is a size
  have hbeyond : |v - size n f| ≤ |v + size m e| := by
    rw [abs_of_nonneg (show 0 ≤ v + size m e by linarith)]
    linarith
  cases s <;> cases t <;> simp only [signed]
  case negative.negative => rwa [neg_sub_neg, neg_sub_neg, abs_sub_comm, abs_sub_comm (size m e)]
  case positive.positive => exact hsize
  case negative.positive =>
    rwa [neg_sub_neg, abs_sub_comm, ← neg_add', abs_neg]
  case positive.negative => rwa [sub_neg_eq_add]

/-- **Products are rounded to the nearest double.** -/
theorem roundsToNearest_mul {x y : Float} (hx : IsFinite x) (hy : IsFinite y) :
    RoundsToNearest (toReal x * toReal y) (x * y) := by
  obtain ⟨s, m, e, htarget, hvalue, hproduct⟩ := exists_mul_eq hx hy
  obtain ⟨n, f, hform, hround, hnearest⟩ :=
    exists_nearest_roundWithAccuracy s (cutFrom_exact m) (halvedFrom_exact m) htarget
  rw [hvalue, hproduct, hround]
  exact hnearest.roundsToNearest (by positivity) hform s

/-! ## Order -/

/-- **Rounding to the nearest keeps the order.** -/
theorem RoundsToNearest.le_of_lt {v w : ℝ} {x y : Float} (hx : RoundsToNearest v x)
    (hy : RoundsToNearest w y) (hlt : v < w) : x ≤ y := by
  obtain ⟨s, n, f, hn, hxv, hxn⟩ := hx
  obtain ⟨t, m, e, hm, hyv, hym⟩ := hy
  rw [le_iff_value?]
  refine ⟨_, hxv, _, hyv, capped_mono (not_lt.1 fun hcross => ?_)⟩
  -- otherwise the two results lie crosswise, on the wrong sides of their middle
  have hleft := sq_le_sq.2 (hxn t m e hm)
  have hright := sq_le_sq.2 (hym s n f hn)
  generalize signed s (size n f) = r at hcross hleft hright
  generalize signed t (size m e) = q at hcross hleft hright
  have hmiddle : 0 ≤ (r - q) * (2 * v - (r + q)) := by linarith
  have hmiddle' : 0 ≤ (r - q) * ((r + q) - 2 * w) := by linarith
  have hpos : 0 < r - q := sub_pos.2 hcross
  linarith [nonneg_of_mul_nonneg_right hmiddle hpos, nonneg_of_mul_nonneg_right hmiddle' hpos]

/-- Nothing is rounded to nothing but zero. -/
theorem RoundsToNearest.value?_eq_zero {x : Float} (h : RoundsToNearest 0 x) :
    value? x.toModel.unpack = some 0 := by
  obtain ⟨s, n, f, hform, hvalue, hnearest⟩ := h
  have hzero := hnearest s 0 (-1074) canonical_zero
  rw [size_zero, signed_zero, sub_zero, zero_sub, abs_neg, abs_zero, abs_signed_size] at hzero
  have hsize : size n f = 0 := le_antisymm hzero (size_nonneg n f)
  rw [hvalue, hsize, signed_zero, capped_of_abs_lt (by rw [abs_zero]; exact range_pos), EReal.coe_zero]

/-- The same number makes the same product. -/
theorem agrees_mul_right {x y : Float} (h : Agrees x y) (c : Float) : Agrees (x * c) (y * c) := by
  refine agrees_of_zeros (fun u => u.mul Format.binary64 c.toModel.unpack) ?_ h
  intro s t
  cases c.toModel.unpack with
  | zero r => exact .inr ⟨_, _, rfl, rfl⟩
  | finite r m e hm => exact .inr ⟨_, _, rfl, rfl⟩
  | infinity r => exact .inl rfl
  | notANumber => exact .inl rfl

/-- **Products grow with their first factor** when the second one is not negative. -/
theorem mul_le_mul_of_toReal_nonneg {x y c : Float} (hx : IsFinite x) (hy : IsFinite y)
    (hc : IsFinite c) (hnonneg : 0 ≤ toReal c) (hle : x ≤ y) : x * c ≤ y * c := by
  have hxc := roundsToNearest_mul hx hc
  have hyc := roundsToNearest_mul hy hc
  rcases hnonneg.eq_or_lt with hzero | hpos
  · rw [← hzero, mul_zero] at hxc hyc
    exact (le_iff_value? _ _).2 ⟨0, hxc.value?_eq_zero, 0, hyc.value?_eq_zero, le_rfl⟩
  rcases ((hx.le_iff hy).1 hle).eq_or_lt with heq | hlt
  · have hsame : Agrees x y := .inr ⟨hle, (hy.le_iff hx).2 heq.ge⟩
    exact (agrees_mul_right hsame c).ge_iff_ge.1 (rounds_mul hx hc).le_self
  · exact hxc.le_of_lt hyc (mul_lt_mul_of_pos_right hlt hpos)

end

end Binary64

end Photoplot
