import Photoplot.Proofs.Binary64.Value

/-!
# Rounding

What the operations of doubles make of finite operands. The result is not always the exact one, but
no finite double lies strictly between the two: a bound that is a double holds for the result when it
holds for the exact value.

* `Binary64.CutFrom`: a mantissa cut off a number, with the bits that tell how much is missing;
* `Binary64.exists_adjoin_roundWithAccuracy`: **rounding a mantissa passes over no size of a double**;
* `Binary64.Rounds`: a double that a real number may be rounded to;
* `Binary64.rounds_add`, `Binary64.rounds_sub`, `Binary64.rounds_mul`, `Binary64.rounds_div`: **the four
  operations round**;
* `Binary64.rounds_ofParts`: and so does making a double of its parts.
-/

namespace Photoplot

namespace Binary64

open Float.Model UnpackedFloat

noncomputable section

/-! ## Mantissas cut short -/

/-- A mantissa cut off a number together with the two bits that say how much was cut off. -/
structure CutFrom (x : ℝ) (em : ExtendedMantissa) : Prop where
  /-- No more is kept than there was. -/
  le : em.mantissa ≤ x
  /-- Less than a unit is cut off. -/
  lt : x < em.mantissa + 1
  /-- The bits are clear when nothing is cut off, and only then. -/
  exact_iff : x = em.mantissa ↔ em.roundBit = false ∧ em.stickyBit = false

/-- Cutting off one more bit halves the unit. -/
theorem CutFrom.shiftRightOne {x : ℝ} {em : ExtendedMantissa} (h : CutFrom x em) :
    CutFrom (x / 2) em.shiftRightOne := by
  obtain ⟨m, r, t⟩ := em
  obtain ⟨hle, hlt, hexact⟩ := h
  obtain ⟨k, rfl | rfl⟩ := Nat.even_or_odd' m
  · have hcut : (⟨2 * k, r, t⟩ : ExtendedMantissa).shiftRightOne = ⟨k, false, r || t⟩ := by
      simp [ExtendedMantissa.shiftRightOne]
    rw [hcut]
    push_cast at hle hlt hexact
    refine ⟨by simp only; linarith, by simp only; linarith, ?_⟩
    rw [div_eq_iff two_ne_zero, mul_comm, hexact]
    simp
  · have hcut : (⟨2 * k + 1, r, t⟩ : ExtendedMantissa).shiftRightOne = ⟨k, true, r || t⟩ := by
      simp [ExtendedMantissa.shiftRightOne]
      omega
    rw [hcut]
    push_cast at hle hlt
    refine ⟨by simp only; linarith, by simp only; linarith, iff_of_false ?_ (by simp)⟩
    simp only
    linarith

/-- Cutting off bits makes the unit larger by that many powers of two. -/
theorem CutFrom.shiftRight {x : ℝ} {em : ExtendedMantissa} (h : CutFrom x em) (n : ℕ) :
    CutFrom (x / 2 ^ n) (em >>> n) := by
  induction n with
  | zero =>
    show CutFrom (x / 2 ^ 0) em
    simpa using h
  | succ n ih =>
    have hstep := ih.shiftRightOne
    rw [div_div, ← pow_succ] at hstep
    exact hstep

theorem mantissa_shiftRight (em : ExtendedMantissa) (n : ℕ) :
    (em >>> n).mantissa = em.mantissa / 2 ^ n := by
  induction n with
  | zero => simp [HShiftRight.hShiftRight, Nat.repeat]
  | succ n ih =>
    show (em >>> n).mantissa / 2 = _
    rw [ih, Nat.div_div_eq_div_mul, pow_succ]

/-- Rounding adds no more than a unit, and nothing to what is exact. -/
theorem roundedMantissa_bounds (em : ExtendedMantissa) :
    em.mantissa ≤ em.roundedMantissa ∧ em.roundedMantissa ≤ em.mantissa + 1 ∧
      (em.roundBit = false → em.stickyBit = false → em.roundedMantissa = em.mantissa) := by
  rcases em with ⟨m, r, t⟩
  cases r <;> cases t <;>
    simp [ExtendedMantissa.roundedMantissa, ExtendedMantissa.accuracy, Accuracy.roundToNearestEven]
  omega

/-- A whole number that is not below what was cut off is not below what it is rounded to. -/
theorem CutFrom.rounded_le {x : ℝ} {em : ExtendedMantissa} (h : CutFrom x em) {n : ℕ}
    (hn : x ≤ n) : em.roundedMantissa ≤ n := by
  obtain ⟨-, hup, hexact⟩ := roundedMantissa_bounds em
  rcases h.le.lt_or_eq with hlt | heq
  · have hnext : em.mantissa < n := by exact_mod_cast hlt.trans_le hn
    omega
  · obtain ⟨hr, ht⟩ := h.exact_iff.1 heq.symm
    rw [hexact hr ht]
    exact_mod_cast heq.trans_le hn

/-- A whole number that is not above what was cut off is not above what it is rounded to. -/
theorem CutFrom.le_rounded {x : ℝ} {em : ExtendedMantissa} (h : CutFrom x em) {n : ℕ}
    (hn : (n : ℝ) ≤ x) : n ≤ em.roundedMantissa := by
  have hlt : n < em.mantissa + 1 := by exact_mod_cast hn.trans_lt h.lt
  have hup := (roundedMantissa_bounds em).1
  omega

/-! ## Bringing a mantissa into form -/

theorem targetExponent_eq (m : ℕ) (e : ℤ) :
    Format.binary64.targetExponent (totalExponent m e) = max (m.log2 + e - 52) (-1074) := by
  show max ((m.log2 : ℤ) + 1 + e - (53 : ℕ)) (3 - 2 ^ 10 - (53 : ℕ)) = _
  omega

/-- Shifting to the exponent that the format wants leaves a mantissa that fits, with as many bits as
that exponent allows. -/
theorem exists_shiftToTargetExponent {m : ℕ} {e : ℤ} {a : Accuracy} {x : ℝ}
    (hx : CutFrom x (.ofMantissaAndAccuracy m a))
    (he : e ≤ Format.binary64.targetExponent (totalExponent m e)) :
    ∃ k : ℕ, shiftToTargetExponent Format.binary64 m e a =
        (ExtendedMantissa.ofMantissaAndAccuracy m a >>> k, e + k) ∧
      CutFrom (x / 2 ^ k) (ExtendedMantissa.ofMantissaAndAccuracy m a >>> k) ∧
      Canonical (ExtendedMantissa.ofMantissaAndAccuracy m a >>> k).mantissa (e + k) := by
  have hm : (ExtendedMantissa.ofMantissaAndAccuracy m a).mantissa = m := by
    rcases a with _ | o <;> (try cases o) <;> rfl
  rw [targetExponent_eq] at he
  obtain ⟨k, hk⟩ := Int.le.dest he
  refine ⟨k, ?_, hx.shiftRight k, ?_, by omega, ?_⟩
  · have hshift : (max ((m.log2 : ℤ) + e - 52) (-1074) - e).toNat = k := by omega
    rw [shiftToTargetExponent, targetExponent_eq, shiftToExponent, hshift]
  · rw [mantissa_shiftRight, hm, Nat.div_lt_iff_lt_mul (Nat.two_pow_pos k), ← pow_add]
    exact Nat.lt_log2_self.trans_le (Nat.pow_le_pow_right two_pos (by omega))
  · rw [mantissa_shiftRight, hm, Nat.le_div_iff_mul_le (Nat.two_pow_pos k), ← pow_add]
    rcases eq_or_ne (e + k) (-1074) with hleast | hleast
    · exact .inr hleast
    · refine .inl ?_
      have hlog : 52 + k = m.log2 := by omega
      rw [hlog]
      exact Nat.log2_self_le (by rintro rfl; simp at hlog)

theorem shiftToTargetExponent_of_canonical {m : ℕ} {e : ℤ} (h : Canonical m e) :
    shiftToTargetExponent Format.binary64 m e .exact = (⟨m, false, false⟩, e) := by
  have hlog : m.log2 ≤ 52 := by
    rcases eq_or_ne m 0 with rfl | hm
    · simp
    · exact Nat.le_of_lt_succ ((Nat.log2_lt hm).2 h.mantissa_lt)
  have hleast := h.least_le
  have hshift : (max ((m.log2 : ℤ) + e - 52) (-1074) - e).toNat = 0 := by omega
  rw [shiftToTargetExponent, targetExponent_eq, shiftToExponent, hshift]
  simp [ExtendedMantissa.ofMantissaAndAccuracy]
  rfl

theorem shiftToTargetExponent_two_pow {e : ℤ} (h : -1074 ≤ e) :
    shiftToTargetExponent Format.binary64 (2 ^ 53) e .exact = (⟨2 ^ 52, false, false⟩, e + 1) := by
  have hshift : (max (((2 ^ 53 : ℕ).log2 : ℤ) + e - 52) (-1074) - e).toNat = 1 := by
    rw [Nat.log2_two_pow]
    omega
  rw [shiftToTargetExponent, targetExponent_eq, shiftToExponent, hshift]
  rfl

/-- A mantissa that rounding has made one bit too long is brought into form. -/
theorem exists_roundWithAccuracy_eq (s : Sign) {m : ℕ} {e : ℤ} {a : Accuracy} {em : ExtendedMantissa}
    {k : ℕ} (hshift : shiftToTargetExponent Format.binary64 m e a = (em, e + k))
    (hcanonical : Canonical em.mantissa (e + k)) :
    ∃ n f, Canonical n f ∧ roundWithAccuracy Format.binary64 s m e a = ofMagnitude s n f ∧
      size n f = em.roundedMantissa * 2 ^ (e + k) := by
  obtain ⟨hle, hup, -⟩ := roundedMantissa_bounds em
  have hlt := hcanonical.mantissa_lt
  have hleast := hcanonical.least_le
  unfold roundWithAccuracy
  rw [hshift]
  dsimp only
  rcases (show em.roundedMantissa ≤ 2 ^ 53 by omega).lt_or_eq with hsmall | hlarge
  · have hform : Canonical em.roundedMantissa (e + k) :=
      ⟨hsmall, hleast, hcanonical.full_or_least.imp_left (·.trans hle)⟩
    rw [shiftToTargetExponent_of_canonical hform]
    exact ⟨_, _, hform, rfl, rfl⟩
  · rw [hlarge, shiftToTargetExponent_two_pow hleast]
    refine ⟨2 ^ 52, e + k + 1, ⟨by norm_num, by omega, .inl le_rfl⟩, rfl, ?_⟩
    rw [size_eq, zpow_add_one₀ two_ne_zero]
    push_cast
    ring

/-! ## No double lies between a number and what it is rounded to -/

/-- No size that doubles can have lies strictly between two sizes. -/
def Adjoin (v r : ℝ) : Prop :=
  ∀ n f, Canonical n f → (v ≤ size n f → r ≤ size n f) ∧ (size n f ≤ v → size n f ≤ r)

/-- Sizes with a larger exponent are whole multiples of the unit. -/
theorem exists_size_eq_mul {n : ℕ} {e f : ℤ} (h : e ≤ f) : ∃ l : ℕ, size n f = l * 2 ^ e := by
  obtain ⟨k, rfl⟩ := Int.le.dest h
  refine ⟨n * 2 ^ k, ?_⟩
  rw [size_eq, zpow_add₀ two_ne_zero, zpow_natCast]
  push_cast
  ring

/-- What is rounded adjoins the result. -/
theorem adjoin_roundedMantissa {x : ℝ} {em : ExtendedMantissa} {e : ℤ} (hx : CutFrom x em)
    (hcanonical : Canonical em.mantissa e) :
    Adjoin (x * 2 ^ e) (em.roundedMantissa * 2 ^ e) := by
  have hunit : (0 : ℝ) < 2 ^ e := by positivity
  intro n f hn
  rcases lt_or_ge f e with hlt | hge
  · -- a smaller exponent means that the mantissa cut off is full, and larger than any such size
    have hfull : 2 ^ 52 ≤ em.mantissa :=
      hcanonical.full_or_least.resolve_right (by have := hn.least_le; omega)
    have hmantissa : (2 : ℝ) ^ 52 ≤ em.mantissa := by exact_mod_cast hfull
    have hrounded : (em.mantissa : ℝ) ≤ em.roundedMantissa := by
      exact_mod_cast (roundedMantissa_bounds em).1
    have hsize := hn.size_lt hlt
    have hbelow : size n f < em.mantissa * 2 ^ e :=
      hsize.trans_le (mul_le_mul_of_nonneg_right hmantissa hunit.le)
    constructor
    · intro hle
      exact absurd (hle.trans_lt hbelow) (not_lt.2 (mul_le_mul_of_nonneg_right hx.le hunit.le))
    · intro _
      exact hbelow.le.trans (mul_le_mul_of_nonneg_right hrounded hunit.le)
  · obtain ⟨l, hl⟩ := exists_size_eq_mul (n := n) hge
    rw [hl, mul_le_mul_iff_left₀ hunit, mul_le_mul_iff_left₀ hunit, mul_le_mul_iff_left₀ hunit,
      mul_le_mul_iff_left₀ hunit]
    exact ⟨fun h => by exact_mod_cast hx.rounded_le h, fun h => by exact_mod_cast hx.le_rounded h⟩

/-- Cutting off bits and raising the exponent by as many changes nothing. -/
theorem div_two_pow_mul (x : ℝ) (k : ℕ) (e : ℤ) : x / 2 ^ k * 2 ^ (e + k) = x * 2 ^ e := by
  rw [zpow_add₀ two_ne_zero, zpow_natCast]
  field_simp

/-- **Rounding a mantissa** makes a size that doubles can have, and no other one lies strictly between it
and the number that the mantissa was cut from. The exponent must not be larger than the format wants,
or bits would be missing. -/
theorem exists_adjoin_roundWithAccuracy (s : Sign) {m : ℕ} {e : ℤ} {a : Accuracy} {x : ℝ}
    (hx : CutFrom x (.ofMantissaAndAccuracy m a))
    (he : e ≤ Format.binary64.targetExponent (totalExponent m e)) :
    ∃ n f, Canonical n f ∧ roundWithAccuracy Format.binary64 s m e a = ofMagnitude s n f ∧
      Adjoin (x * 2 ^ e) (size n f) := by
  obtain ⟨k, hshift, hcut, hcanonical⟩ := exists_shiftToTargetExponent hx he
  obtain ⟨n, f, hform, hround, hsize⟩ := exists_roundWithAccuracy_eq s hshift hcanonical
  refine ⟨n, f, hform, hround, ?_⟩
  rw [← div_two_pow_mul x k e, hsize]
  exact adjoin_roundedMantissa hcut hcanonical

/-! ## Rounding to doubles -/

/-- The size that doubles stay below: the least full mantissa with the first exponent that they cannot
have. -/
def range : ℝ := size (2 ^ 52) 972

theorem range_pos : 0 < range := size_pos (by norm_num) 972

theorem range_eq : range = 2 ^ 52 * (2 : ℝ) ^ (972 : ℤ) := by
  rw [range, size_eq]
  norm_num

/-- A real number where it lies within the range of doubles, and the infinity beyond it elsewhere. -/
def capped (r : ℝ) : EReal :=
  if range ≤ r then ⊤ else if r ≤ -range then ⊥ else r

theorem capped_of_range_le {r : ℝ} (h : range ≤ r) : capped r = ⊤ := if_pos h

theorem capped_of_le_neg_range {r : ℝ} (h : r ≤ -range) : capped r = ⊥ := by
  have hpos := range_pos
  rw [capped, if_neg (by linarith), if_pos h]

theorem capped_of_abs_lt {r : ℝ} (h : |r| < range) : capped r = r := by
  obtain ⟨hlo, hhi⟩ := abs_lt.1 h
  rw [capped, if_neg (not_le.2 hhi), if_neg (not_le.2 hlo)]

theorem capped_mono {r c : ℝ} (h : r ≤ c) : capped r ≤ capped c := by
  rcases le_or_gt range c with hlarge | hlarge
  · rw [capped_of_range_le hlarge]
    exact le_top
  rcases le_or_gt r (-range) with hsmall | hsmall
  · rw [capped_of_le_neg_range hsmall]
    exact bot_le
  rw [capped_of_abs_lt (abs_lt.2 ⟨hsmall, h.trans_lt hlarge⟩),
    capped_of_abs_lt (abs_lt.2 ⟨hsmall.trans_le h, hlarge⟩)]
  exact_mod_cast h

theorem size_lt_range {m : ℕ} {e : ℤ} (h : Canonical m e) (he : e ≤ 971) : size m e < range := by
  rw [range_eq]
  exact h.size_lt (by omega)

theorem range_le_size {m : ℕ} {e : ℤ} (h : Canonical m e) (he : 972 ≤ e) : range ≤ size m e := by
  have hm : (2 : ℝ) ^ 52 ≤ m := by exact_mod_cast h.full_or_least.resolve_right (by omega)
  have hstep : (2 : ℝ) ^ (972 : ℤ) ≤ 2 ^ e := zpow_le_zpow_right₀ (by norm_num) he
  rw [range_eq, size_eq]
  gcongr

/-- Packing keeps a size within the range of doubles and makes an infinity of one beyond it. -/
theorem value?_unpack_pack_ofMagnitude (s : Sign) {m : ℕ} {e : ℤ} (h : Canonical m e) :
    value? (pack (ofMagnitude s m e)).unpack = some (capped (signed s (size m e))) := by
  rcases le_or_gt e 971 with he | he
  · rw [capped_of_abs_lt (by simpa using size_lt_range h he)]
    unfold ofMagnitude
    split_ifs with hzero
    · subst hzero
      rw [unpack_pack (show WellFormed (.zero s) from trivial)]
      cases s <;> simp [value?, signed]
    · rw [unpack_pack (show WellFormed (.finite s m e _) from ⟨h, he⟩)]
      rfl
  · have hrange := range_le_size h he
    have hm : m ≠ 0 := by
      rintro rfl
      rw [size_zero] at hrange
      exact hrange.not_gt range_pos
    have hpack : (pack (ofMagnitude s m e)).unpack = .infinity s := by
      rw [ofMagnitude, dif_neg hm]
      show UnpackedFloat.unpack Format.binary64 (UnpackedFloat.pack Format.binary64 _) = _
      unfold UnpackedFloat.pack
      dsimp only
      rw [biased_eq, if_pos (show 2 ^ 11 ≤ (e + 1075).toNat + 1 by omega)]
      cases s <;> rfl
    rw [hpack]
    cases s with
    | negative =>
      exact congrArg some (capped_of_le_neg_range (neg_le_neg hrange)).symm
    | positive =>
      exact congrArg some (capped_of_range_le hrange).symm

/-- A double that a real number may be rounded to: no finite double lies strictly between them. -/
def Rounds (v : ℝ) (x : Float) : Prop :=
  ∀ y, IsFinite y → (v ≤ toReal y → x ≤ y) ∧ (toReal y ≤ v → y ≤ x)

/-- Sizes adjoin with their signs, too. -/
theorem Adjoin.signed {v r : ℝ} (h : Adjoin v r) (hv : 0 ≤ v) (hr : 0 ≤ r) (s t : Sign) {n : ℕ}
    {f : ℤ} (hn : Canonical n f) :
    (signed s v ≤ signed t (size n f) → signed s r ≤ signed t (size n f)) ∧
      (signed t (size n f) ≤ signed s v → signed t (size n f) ≤ signed s r) := by
  have hzero := h 0 (-1074) canonical_zero
  rw [size_zero] at hzero
  have hnonneg := size_nonneg n f
  obtain ⟨hup, hdown⟩ := h n f hn
  cases s <;> cases t <;> simp only [Binary64.signed, neg_le_neg_iff]
  case negative.negative => exact ⟨hdown, hup⟩
  case positive.positive => exact ⟨hup, hdown⟩
  case negative.positive =>
    refine ⟨fun _ => by linarith, fun hle => ?_⟩
    linarith [hzero.1 (by linarith)]
  case positive.negative =>
    refine ⟨fun hle => ?_, fun _ => by linarith⟩
    linarith [hzero.1 (by linarith)]

/-- What adjoins a number makes a double that the number rounds to. -/
theorem rounds_ofMagnitude (s : Sign) {v : ℝ} (hv : 0 ≤ v) {n : ℕ} {f : ℤ} (hform : Canonical n f)
    (hadjoin : Adjoin v (size n f)) :
    Rounds (signed s v) (Float.ofModel (pack (ofMagnitude s n f))) := by
  intro y hy
  obtain ⟨t, m, e, hm, he, -, hreal, hvalue⟩ := exists_unpack_eq hy
  have hcapped : capped (toReal y) = toReal y :=
    capped_of_abs_lt (by rw [hreal, abs_signed_size]; exact size_lt_range hm he)
  have hx : value? (Float.ofModel (pack (ofMagnitude s n f))).toModel.unpack = _ :=
    value?_unpack_pack_ofMagnitude s hform
  obtain ⟨hup, hdown⟩ := hadjoin.signed hv (size_nonneg n f) s t hm
  rw [le_iff_value?, le_iff_value?, hx, hvalue, ← hcapped, hreal]
  constructor
  · intro hle
    exact ⟨_, rfl, _, rfl, capped_mono (hup hle)⟩
  · intro hle
    exact ⟨_, rfl, _, rfl, capped_mono (hdown hle)⟩

theorem cutFrom_exact (m : ℕ) : CutFrom m (.ofMantissaAndAccuracy m .exact) :=
  ⟨le_rfl, lt_add_one _, iff_of_true rfl ⟨rfl, rfl⟩⟩

/-- What a mantissa is rounded to is what the number that it was cut from may be rounded to. -/
theorem rounds_roundWithAccuracy (s : Sign) {m : ℕ} {e : ℤ} {a : Accuracy} {x : ℝ} (hx : 0 ≤ x)
    (hcut : CutFrom x (.ofMantissaAndAccuracy m a))
    (he : e ≤ Format.binary64.targetExponent (totalExponent m e)) :
    Rounds (signed s (x * 2 ^ e))
      (Float.ofModel (pack (roundWithAccuracy Format.binary64 s m e a))) := by
  obtain ⟨n, f, hform, hround, hadjoin⟩ := exists_adjoin_roundWithAccuracy s hcut he
  rw [hround]
  exact rounds_ofMagnitude s (by positivity) hform hadjoin

theorem size_shiftLeft (m k : ℕ) (e : ℤ) : size (m <<< k) (e - k) = size m e := by
  rw [size_eq, size_eq, Nat.shiftLeft_eq, zpow_sub₀ two_ne_zero, zpow_natCast]
  push_cast
  field_simp

theorem log2_shiftLeft {m : ℕ} (hm : m ≠ 0) (k : ℕ) : (m <<< k).log2 = m.log2 + k := by
  have hpos := Nat.two_pow_pos k
  rw [Nat.shiftLeft_eq, Nat.log2_eq_iff (by positivity), pow_add, pow_succ, pow_add]
  have hlo := Nat.log2_self_le hm
  have hhi := Nat.lt_log2_self (n := m)
  rw [pow_succ] at hhi
  exact ⟨Nat.mul_le_mul_right _ hlo, by nlinarith⟩

/-- A number given by its parts is rounded to the double made of them. -/
theorem rounds_ofParts (s : Sign) {m : ℕ} (hm : 0 < m) (e : ℤ) :
    Rounds (signed s (size m e)) (ofParts s m e) := by
  rw [← size_shiftLeft m (e - Format.binary64.targetExponent (totalExponent m e)).toNat]
  refine rounds_roundWithAccuracy s (Nat.cast_nonneg _) (cutFrom_exact _) ?_
  rw [targetExponent_eq, targetExponent_eq, log2_shiftLeft hm.ne']
  omega

/-- What a double holds rounds to the double. -/
theorem rounds_ofMagnitude_self (s : Sign) {m : ℕ} {e : ℤ} (h : Canonical m e) :
    Rounds (signed s (size m e)) (Float.ofModel (pack (ofMagnitude s m e))) :=
  rounds_ofMagnitude s (size_nonneg m e) h fun _ _ _ => ⟨id, id⟩

theorem rounds_zero (s : Sign) : Rounds 0 (zero s) := by
  have hrounds := rounds_ofMagnitude_self s canonical_zero
  rw [ofMagnitude_zero, size_zero, signed_zero] at hrounds
  exact hrounds

theorem rounds_normalize (m : ℤ) (e : ℤ) (zero : Sign) :
    Rounds (m * 2 ^ e) (Float.ofModel (pack (UnpackedFloat.normalize Format.binary64 m e zero))) := by
  unfold UnpackedFloat.normalize
  rcases lt_trichotomy m 0 with hm | rfl | hm
  · rw [Int.compare_eq_lt.2 hm]
    have hsize : (m * 2 ^ e : ℝ) = signed .negative (size (-m).toNat e) := by
      have hcast : (((-m).toNat : ℤ) : ℝ) = ((-m : ℤ) : ℝ) := by rw [Int.toNat_of_nonneg (by omega)]
      rw [Int.cast_natCast] at hcast
      rw [size_eq, hcast]
      simp [signed]
    rw [hsize]
    exact rounds_ofParts .negative (by omega) e
  · rw [Int.cast_zero, zero_mul]
    exact rounds_zero zero
  · rw [Int.compare_eq_gt.2 hm]
    have hsize : (m * 2 ^ e : ℝ) = signed .positive (size m.toNat e) := by
      have hcast : ((m.toNat : ℤ) : ℝ) = (m : ℝ) := by rw [Int.toNat_of_nonneg hm.le]
      rw [Int.cast_natCast] at hcast
      rw [size_eq, hcast]
      rfl
    rw [hsize]
    exact rounds_ofParts .positive (by omega) e

/-! ## Operations -/

section Operations

variable {x y : Float}

theorem size_eq_mul_of_le (m : ℕ) {e f : ℤ} (h : f ≤ e) :
    size m e = (m <<< (e - f).toNat : ℕ) * 2 ^ f := by
  have hshift := size_shiftLeft m (e - f).toNat e
  rw [show e - ((e - f).toNat : ℤ) = f by omega] at hshift
  exact hshift.symm

theorem signed_mul (s : Sign) (m : ℕ) (r : ℝ) : signed s (m * r) = ((s.apply m : ℤ) : ℝ) * r := by
  cases s <;> simp [signed, Sign.apply]

/-- What adds up the parts of doubles makes a double that the sum of their values may be rounded to. -/
theorem rounds_add_ofMagnitude (s t : Sign) {m n : ℕ} {e f : ℤ} (hm : Canonical m e)
    (hn : Canonical n f) : Rounds (signed s (size m e) + signed t (size n f))
      (Float.ofModel (pack ((ofMagnitude s m e).add Format.binary64 (ofMagnitude t n f)))) := by
  rcases m.eq_zero_or_pos with rfl | hmpos <;> rcases n.eq_zero_or_pos with rfl | hnpos
  · rw [size_zero, size_zero, signed_zero, signed_zero, add_zero]
    cases s <;> cases t <;> exact rounds_zero _
  · rw [size_zero, signed_zero, zero_add]
    have hsum : (ofMagnitude s 0 e).add Format.binary64 (ofMagnitude t n f) = ofMagnitude t n f := by
      rw [ofMagnitude_of_pos t hnpos]
      rfl
    rw [hsum]
    exact rounds_ofMagnitude_self t hn
  · rw [size_zero, signed_zero, add_zero]
    have hsum : (ofMagnitude s m e).add Format.binary64 (ofMagnitude t 0 f) = ofMagnitude s m e := by
      rw [ofMagnitude_of_pos s hmpos]
      rfl
    rw [hsum]
    exact rounds_ofMagnitude_self s hm
  · rw [ofMagnitude_of_pos s hmpos, ofMagnitude_of_pos t hnpos, size_eq_mul_of_le m (min_le_left e f),
      size_eq_mul_of_le n (min_le_right e f), signed_mul, signed_mul, ← add_mul, ← Int.cast_add]
    exact rounds_normalize _ _ _

theorem sub_eq_add (a b : UnpackedFloat) :
    a.sub Format.binary64 b = a.add Format.binary64 b.neg := by
  rcases a with s | _ | s | ⟨s, m, e, hm⟩ <;> rcases b with t | _ | t | ⟨t, n, f, hn⟩
  case finite.finite =>
    have hmantissa : ∀ i j : ℤ, s.apply i - t.apply j = s.apply i + (-t).apply j := by
      intro i j
      cases t
      · show s.apply i - -j = s.apply i + j
        omega
      · show s.apply i - j = s.apply i + -j
        omega
    show UnpackedFloat.normalize _ (s.apply _ - t.apply _) _ _ =
      UnpackedFloat.normalize _ (s.apply _ + (-t).apply _) _ _
    rw [hmantissa]
  all_goals (try cases s) <;> (try cases t) <;> rfl

/-- **A sum of doubles** is what the sum of their values may be rounded to. -/
theorem rounds_add (hx : IsFinite x) (hy : IsFinite y) : Rounds (toReal x + toReal y) (x + y) := by
  obtain ⟨s, m, e, hm, -, hxu, hxr, -⟩ := exists_unpack_eq hx
  obtain ⟨t, n, f, hn, -, hyu, hyr, -⟩ := exists_unpack_eq hy
  have hsum := rounds_add_ofMagnitude s t hm hn
  rw [← hxu, ← hyu, ← hxr, ← hyr] at hsum
  exact hsum

/-- **A difference of doubles** is what the difference of their values may be rounded to. -/
theorem rounds_sub (hx : IsFinite x) (hy : IsFinite y) : Rounds (toReal x - toReal y) (x - y) := by
  obtain ⟨s, m, e, hm, -, hxu, hxr, -⟩ := exists_unpack_eq hx
  obtain ⟨t, n, f, hn, -, hyu, hyr, -⟩ := exists_unpack_eq hy
  have hneg : signed (-t) (size n f) = -toReal y := by rw [hyr, signed_neg]
  have hsum := rounds_add_ofMagnitude s (-t) hm hn
  rw [← neg_ofMagnitude, ← hxu, ← hyu, ← sub_eq_add, ← hxr, hneg, ← sub_eq_add_neg] at hsum
  exact hsum

/-- Signs multiply as sizes do. -/
theorem signed_mul_signed (s t : Sign) (v w : ℝ) : signed s v * signed t w = signed (s * t) (v * w) := by
  cases s <;> cases t <;> simp [signed]

/-- Nothing is rounded to a zero. -/
theorem roundWithAccuracy_zero (s : Sign) :
    roundWithAccuracy Format.binary64 s 0 (-1074) .exact = .zero s := by
  unfold roundWithAccuracy
  rw [shiftToTargetExponent_of_canonical canonical_zero]
  rfl

/-- The product of mantissas that doubles hold has all bits that the format wants. -/
theorem add_le_targetExponent {m n : ℕ} {e f : ℤ} (hm : Canonical m e) (hn : Canonical n f)
    (hmpos : 0 < m) (hnpos : 0 < n) :
    e + f ≤ Format.binary64.targetExponent (totalExponent (m * n) (e + f)) := by
  rw [targetExponent_eq]
  -- the product of a full mantissa has enough bits, and that of two short ones is exact far below
  have hfull : 52 ≤ (m * n).log2 ∨ e + f ≤ -1074 := by
    rcases hm.full_or_least with hfull | hleast
    · exact .inl ((Nat.le_log2 (by positivity)).2 (hfull.trans (Nat.le_mul_of_pos_right m hnpos)))
    · rcases hn.full_or_least with hfull | hleast'
      · exact .inl ((Nat.le_log2 (by positivity)).2 (hfull.trans (Nat.le_mul_of_pos_left n hmpos)))
      · exact .inr (by omega)
  omega

/-- A product of doubles is made by rounding the product of their mantissas. -/
theorem exists_mul_eq (hx : IsFinite x) (hy : IsFinite y) : ∃ (s : Sign) (m : ℕ) (e : ℤ),
    e ≤ Format.binary64.targetExponent (totalExponent m e) ∧
      toReal x * toReal y = signed s (m * 2 ^ e) ∧
      x * y = Float.ofModel (pack (roundWithAccuracy Format.binary64 s m e .exact)) := by
  obtain ⟨s, m, e, hm, -, hxu, hxr, -⟩ := exists_unpack_eq hx
  obtain ⟨t, n, f, hn, -, hyu, hyr, -⟩ := exists_unpack_eq hy
  have hproduct : x * y =
      Float.ofModel (pack ((ofMagnitude s m e).mul Format.binary64 (ofMagnitude t n f))) := by
    rw [← hxu, ← hyu]
    rfl
  have hsize : size m e * size n f = (m * n : ℕ) * (2 : ℝ) ^ (e + f) := by
    rw [size_eq, size_eq, zpow_add₀ two_ne_zero]
    push_cast
    ring
  rw [hproduct, hxr, hyr, signed_mul_signed, hsize]
  rcases m.eq_zero_or_pos with rfl | hmpos
  · have hzero : (ofMagnitude s 0 e).mul Format.binary64 (ofMagnitude t n f) = .zero (s * t) := by
      rw [ofMagnitude_zero, ofMagnitude]
      split_ifs <;> rfl
    refine ⟨s * t, 0, -1074, by decide, by simp, ?_⟩
    rw [hzero, roundWithAccuracy_zero]
  rcases n.eq_zero_or_pos with rfl | hnpos
  · have hzero : (ofMagnitude s m e).mul Format.binary64 (ofMagnitude t 0 f) = .zero (s * t) := by
      rw [ofMagnitude_zero, ofMagnitude_of_pos s hmpos]
      rfl
    refine ⟨s * t, 0, -1074, by decide, by simp, ?_⟩
    rw [hzero, roundWithAccuracy_zero]
  rw [ofMagnitude_of_pos s hmpos, ofMagnitude_of_pos t hnpos]
  exact ⟨s * t, m * n, e + f, add_le_targetExponent hm hn hmpos hnpos, rfl, rfl⟩

/-- **A product of doubles** is what the product of their values may be rounded to. -/
theorem rounds_mul (hx : IsFinite x) (hy : IsFinite y) : Rounds (toReal x * toReal y) (x * y) := by
  obtain ⟨s, m, e, htarget, hvalue, hproduct⟩ := exists_mul_eq hx hy
  rw [hvalue, hproduct]
  exact rounds_roundWithAccuracy s (Nat.cast_nonneg _) (cutFrom_exact _) htarget

/-- What is left of a division tells how the quotient was cut off. -/
theorem cutFrom_div (m : ℕ) {n : ℕ} (hn : 0 < n) : CutFrom (m / n : ℝ)
    (.ofMantissaAndAccuracy (m / n) (accuracyOfFraction (m % n) n)) := by
  have hpos : (0 : ℝ) < n := by exact_mod_cast hn
  have hsplit : (m : ℝ) = (m / n : ℕ) * n + (m % n : ℕ) := by
    exact_mod_cast (Nat.div_add_mod' m n).symm
  have hrest : ((m % n : ℕ) : ℝ) < n := by exact_mod_cast Nat.mod_lt m hn
  have hrest' : (0 : ℝ) ≤ (m % n : ℕ) := Nat.cast_nonneg _
  have hexact : (m / n : ℝ) = (m / n : ℕ) ↔ m % n = 0 := by
    rw [div_eq_iff hpos.ne', hsplit, add_eq_left, Nat.cast_eq_zero]
  unfold accuracyOfFraction
  split_ifs with hzero
  · rw [hexact.2 hzero]
    exact cutFrom_exact _
  · have hle : ((m / n : ℕ) : ℝ) ≤ m / n := by
      rw [le_div_iff₀ hpos, hsplit]
      linarith
    have hlt : (m / n : ℝ) < (m / n : ℕ) + 1 := by
      rw [div_lt_iff₀ hpos, hsplit]
      linarith
    have hinexact : ¬ (m / n : ℝ) = (m / n : ℕ) := mt hexact.1 hzero
    cases compare (2 * (m % n)) n <;>
      exact ⟨hle, hlt, iff_of_false hinexact (by simp [ExtendedMantissa.ofMantissaAndAccuracy])⟩

theorem signed_div_signed (s t : Sign) (v w : ℝ) : signed s v / signed t w = signed (s / t) (v / w) := by
  cases s <;> cases t <;> simp [signed, neg_div, div_neg] <;> rfl

/-- The quotient is cut off where all bits that doubles hold are there. -/
theorem divCore_le {m n : ℕ} (hm : 0 < m) (hn : 0 < n) (e f : ℤ) :
    (divCore Format.binary64 m e n f).2.1 ≤ Format.binary64.targetExponent
      (totalExponent (divCore Format.binary64 m e n f).1 (divCore Format.binary64 m e n f).2.1) := by
  have htarget : Format.binary64.targetExponent (totalExponent m e - totalExponent n f) =
      max (m.log2 + e - (n.log2 + f) - 53) (-1074) := by
    show max ((m.log2 + 1 + e - (n.log2 + 1 + f) : ℤ) - (53 : ℕ)) (3 - 2 ^ 10 - (53 : ℕ)) = _
    omega
  rw [targetExponent_eq]
  unfold divCore
  dsimp only
  rw [htarget]
  generalize hunit : min (e - f) (max ((m.log2 : ℤ) + e - (n.log2 + f) - 53) (-1074)) = unit
  rcases le_or_gt unit (-1074) with hleast | hleast
  · omega
  · -- above the least exponent the dividend has at least 53 bits more than the divisor
    have hshift : n.log2 + 53 ≤ m.log2 + (e - f - unit).toNat := by omega
    have hquotient : 2 ^ 52 ≤ m <<< (e - f - unit).toNat / n := by
      rw [Nat.le_div_iff_mul_le hn, Nat.shiftLeft_eq]
      calc 2 ^ 52 * n ≤ 2 ^ 52 * 2 ^ (n.log2 + 1) := Nat.mul_le_mul_left _ Nat.lt_log2_self.le
        _ = 2 ^ (n.log2 + 53) := by rw [← pow_add]; congr 1; omega
        _ ≤ 2 ^ (m.log2 + (e - f - unit).toNat) := Nat.pow_le_pow_right two_pos hshift
        _ = 2 ^ m.log2 * 2 ^ (e - f - unit).toNat := pow_add _ _ _
        _ ≤ m * 2 ^ (e - f - unit).toNat := Nat.mul_le_mul_right _ (Nat.log2_self_le hm.ne')
    have hlog := (Nat.le_log2 (by omega)).2 hquotient
    omega

/-- **A quotient of doubles** is what the quotient of their values may be rounded to. -/
theorem rounds_div (hx : IsFinite x) (hy : IsFinite y) (hne : toReal y ≠ 0) :
    Rounds (toReal x / toReal y) (x / y) := by
  obtain ⟨s, m, e, hm, -, hxu, hxr, -⟩ := exists_unpack_eq hx
  obtain ⟨t, n, f, hn, -, hyu, hyr, -⟩ := exists_unpack_eq hy
  have hquotient : x / y =
      Float.ofModel (pack ((ofMagnitude s m e).div Format.binary64 (ofMagnitude t n f))) := by
    rw [← hxu, ← hyu]
    rfl
  have hnpos := pos_of_signed_size_ne_zero (hyr ▸ hne)
  rw [hquotient, hxr, hyr]
  rcases m.eq_zero_or_pos with rfl | hmpos
  · have hzero : (ofMagnitude s 0 e).div Format.binary64 (ofMagnitude t n f) = .zero (s / t) := by
      rw [ofMagnitude_zero, ofMagnitude_of_pos t hnpos]
      rfl
    rw [hzero, size_zero, signed_zero, zero_div]
    exact rounds_zero _
  have hvalue : size m e / size n f =
      ((m <<< (e - f - (divCore Format.binary64 m e n f).2.1).toNat : ℕ) / n : ℝ) *
        2 ^ (divCore Format.binary64 m e n f).2.1 := by
    have hunit : (divCore Format.binary64 m e n f).2.1 ≤ e - f := min_le_left _ _
    generalize (divCore Format.binary64 m e n f).2.1 = unit at hunit ⊢
    have hn : (n : ℝ) ≠ 0 := by positivity
    rw [size_eq_mul_of_le m (show unit + f ≤ e by omega), size_eq, zpow_add₀ two_ne_zero,
      show e - (unit + f) = e - f - unit by ring]
    field_simp
  rw [ofMagnitude_of_pos s hmpos, ofMagnitude_of_pos t hnpos, signed_div_signed, hvalue]
  exact rounds_roundWithAccuracy (s / t) (by positivity) (cutFrom_div _ hnpos) (divCore_le hmpos hnpos e f)

end Operations

/-! ## Bounds of results -/

section Bounds

variable {x y : Float} {v : ℝ}

theorem toReal_one : toReal 1 = 1 := by
  have hunpack : (1 : Float).toModel.unpack = ofMagnitude .positive (2 ^ 52) (-52) := rfl
  rw [(isFinite_of_unpack hunpack).2]
  norm_num [signed, size_eq]

/-- What a number is rounded to is a number. -/
theorem Rounds.le_self (h : Rounds v x) : x ≤ x := by
  rcases le_total v (toReal 0) with hle | hle
  · exact (LawfulBounds.le_self_of_le ((h 0 isFinite_zero).1 hle)).1
  · exact (LawfulBounds.le_self_of_le ((h 0 isFinite_zero).2 hle)).2

/-- What lies between finite doubles is finite. -/
theorem isFinite_of_le_of_le {lo hi : Float} (hlo : IsFinite lo) (hhi : IsFinite hi) (hle : lo ≤ x)
    (hle' : x ≤ hi) : IsFinite x := by
  refine ⟨(LawfulBounds.le_self_of_le hle).2, ?_⟩
  rw [Bool.eq_false_iff, Ne, isInfinite_iff]
  rintro ⟨s, hs⟩
  obtain ⟨-, -, -, -, -, -, -, hlov⟩ := exists_unpack_eq hlo
  obtain ⟨-, -, -, -, -, -, -, hhiv⟩ := exists_unpack_eq hhi
  rw [le_iff_value?, hs] at hle hle'
  rw [hlov] at hle
  rw [hhiv] at hle'
  cases s <;> simp [value?] at hle hle'

/-- What a number between finite doubles is rounded to lies between them, too. -/
theorem Rounds.isFinite {lo hi : Float} (h : Rounds v x) (hlo : IsFinite lo) (hhi : IsFinite hi)
    (hle : toReal lo ≤ v) (hle' : v ≤ toReal hi) : IsFinite x :=
  isFinite_of_le_of_le hlo hhi ((h lo hlo).2 hle) ((h hi hhi).1 hle')

end Bounds

end

end Binary64

end Photoplot
