import Photoplot.Proofs.Binary64.Finite

/-!
# Values of doubles

The extended real number that a double stands for. A finite double holds a sign, a mantissa and an
exponent in one form only, so the order of doubles, which compares exponents before mantissas, is
the order of their values.

* `Binary64.Canonical`, `Binary64.wellFormed_unpack`: what a finite double holds;
* `Binary64.unpack_pack`: what doubles can hold is kept by packing;
* `Binary64.value?`, `Binary64.toReal`: the value of a double, and of a finite one;
* `Binary64.le_iff_value?`: **doubles are ordered as their values are**;
* `IsFinite.le_iff`: and so are finite doubles and the real numbers that they stand for;
* `Binary64.abs_cases`, `Binary64.zero_le_abs`: sizes, which are finite or the upper end of the line and
  never negative.
-/

namespace Photoplot

namespace Binary64

open Float.Model UnpackedFloat

/-! ## Mantissas and exponents -/

/-- A mantissa and an exponent as doubles hold them: at most 53 bits, and fewer only at the least
exponent. -/
structure Canonical (m : ℕ) (e : ℤ) : Prop where
  /-- The mantissa has at most 53 bits. -/
  mantissa_lt : m < 2 ^ 53
  /-- The exponent is not below the least one. -/
  least_le : -1074 ≤ e
  /-- The mantissa has all 53 bits, or the exponent is the least one. -/
  full_or_least : 2 ^ 52 ≤ m ∨ e = -1074

/-- What an unpacked double holds if it is finite. -/
def WellFormed : UnpackedFloat → Prop
  | .finite _ m e _ => Canonical m e ∧ e ≤ 971
  | _ => True

theorem toNat_one_append (m : BitVec 52) : (1#1 ++ m).toNat = 2 ^ 52 + m.toNat := by
  rw [BitVec.toNat_append, ← Nat.shiftLeft_add_eq_or_of_lt m.isLt]
  rfl

/-- Bits unpack to what doubles can hold. -/
theorem wellFormed_unpack_bits (b : BitVec Format.binary64.numBits) :
    WellFormed (UnpackedFloat.unpack Format.binary64 b) := by
  unfold UnpackedFloat.unpack
  dsimp only
  have hm : (unpackMantissa b).toNat < 2 ^ 52 := (unpackMantissa b).isLt
  have he : (unpackExponent b).toNat < 2 ^ 11 := (unpackExponent b).isLt
  have hbias : ((Format.binary64.exponentBias : ℕ) : ℤ) + (52 : ℕ) = 1075 := by decide
  split_ifs with hinf hnan hzero hzero'
  · trivial
  · trivial
  · trivial
  · rw [hzero, hbias]
    exact ⟨⟨hm.trans (by decide), by decide, .inr (by decide)⟩, by decide⟩
  · have hpos : (unpackExponent b).toNat ≠ 0 := fun h => hzero (BitVec.eq_of_toNat_eq h)
    have hlt : (unpackExponent b).toNat ≠ 2047 := fun h => hinf (BitVec.eq_of_toNat_eq h)
    have hmantissa := toNat_one_append (unpackMantissa b)
    rw [hbias]
    refine ⟨⟨?_, by omega, .inl ?_⟩, by omega⟩
    · rw [hmantissa]
      omega
    · rw [hmantissa]
      omega

/-- Doubles unpack to what they can hold. -/
theorem wellFormed_unpack (x : Float) : WellFormed x.toModel.unpack :=
  wellFormed_unpack_bits _

/-- Packing components and unpacking them again. -/
theorem unpack_packComponents (s : Sign) (e : BitVec 11) (m : BitVec 52) :
    UnpackedFloat.unpack Format.binary64 (packComponents Format.binary64 s e m) =
      if e = -1#11 then if m = 0#52 then .infinity s else .notANumber
      else if e = 0#11 then
        if h : m = 0#52 then .zero s
        else .finite s m.toNat (-1074) (by simpa [BitVec.toNat_pos, BitVec.pos_iff_ne_zero])
      else .finite s (1#1 ++ m).toNat (e.toNat - 1075) (by rw [toNat_one_append]; omega) := by
  unfold UnpackedFloat.unpack
  simp only [unpackMantissa_packComponents, unpackExponent_packComponents, unpackSign_packComponents,
    Sign.ofBitVec_toBitVec]
  split_ifs with hinf hzero hleast hzero
  · rfl
  · rfl
  · rfl
  · subst hleast; rfl
  · rfl

/-- The exponent that is packed counts from the least one. -/
theorem biased_eq (e : ℤ) :
    e + (Format.binary64.exponentBias : ℕ) + (Format.binary64.mantissaBitsWithoutImplicit : ℕ) =
      e + 1075 := by
  rw [add_assoc]
  rfl

/-- What doubles can hold is kept by packing. -/
theorem unpack_pack {u : UnpackedFloat} (h : WellFormed u) : (pack u).unpack = u := by
  rcases u with s | _ | s | ⟨s, m, e, hm⟩
  case infinity => cases s <;> rfl
  case notANumber => rfl
  case zero => cases s <;> rfl
  case finite =>
    obtain ⟨⟨hlt, hleast, hfull⟩, hgreatest⟩ := h
    show UnpackedFloat.unpack Format.binary64 (UnpackedFloat.pack Format.binary64 _) = _
    unfold UnpackedFloat.pack
    dsimp only
    rw [biased_eq, if_neg (show ¬ 2 ^ 11 ≤ (e + 1075).toNat + 1 by omega)]
    by_cases hnormal : 2 ^ 52 ≤ m
    · have hlog : m.log2 + 1 = Format.binary64.mantissaBits :=
        congrArg (· + 1) ((Nat.log2_eq_iff hm.ne').2 ⟨hnormal, hlt⟩)
      have hexponent : (BitVec.ofNat 11 (e + 1075).toNat).toNat = (e + 1075).toNat :=
        Nat.mod_eq_of_lt (by omega)
      have hinf : BitVec.ofNat 11 (e + 1075).toNat ≠ -1#11 := ofNat_ne_allOnes (by omega)
      have hzero : BitVec.ofNat 11 (e + 1075).toNat ≠ 0#11 := by
        intro h
        rw [h] at hexponent
        have : (0#11).toNat = 0 := rfl
        omega
      have hmantissa : (1#1 ++ BitVec.ofNat 52 m).toNat = m := by
        rw [toNat_one_append, BitVec.toNat_ofNat]
        omega
      rw [if_pos hlog, unpack_packComponents, if_neg hinf, if_neg hzero]
      congr 1
      omega
    · have hlog : m.log2 + 1 ≠ Format.binary64.mantissaBits := by
        have := (Nat.log2_lt hm.ne').2 (not_le.1 hnormal)
        show m.log2 + 1 ≠ 53
        omega
      have hmantissa : (BitVec.ofNat 52 m).toNat = m := Nat.mod_eq_of_lt (not_le.1 hnormal)
      have hnonzero : BitVec.ofNat 52 m ≠ 0#52 := by
        intro h
        rw [h] at hmantissa
        exact hm.ne hmantissa
      rw [if_neg hlog, unpack_packComponents, if_neg (by decide), if_pos rfl, dif_neg hnonzero]
      obtain rfl := hfull.resolve_left hnormal
      congr 1

/-! ## Values -/

noncomputable section

/-- The number that a mantissa and an exponent stand for. -/
def size (m : ℕ) (e : ℤ) : ℝ := m * ((2 : ℕ) : ℝ) ^ e

theorem size_eq (m : ℕ) (e : ℤ) : size m e = m * 2 ^ e := by simp [size]

/-- A size with a sign. -/
def signed (s : Sign) (r : ℝ) : ℝ :=
  match s with
  | .negative => -r
  | .positive => r

/-- The value of an unpacked double on the extended real line, if it is a number. -/
def value? : UnpackedFloat → Option EReal
  | .infinity .negative => some ⊥
  | .infinity .positive => some ⊤
  | .zero _ => some 0
  | .finite s m e _ => some (signed s (size m e) : ℝ)
  | .notANumber => none

theorem size_pos {m : ℕ} (hm : 0 < m) (e : ℤ) : 0 < size m e := by
  rw [size_eq]
  positivity

/-- What has a smaller exponent is smaller than any full mantissa. -/
theorem Canonical.size_lt {m : ℕ} {e f : ℤ} (h : Canonical m e) (hlt : e < f) :
    size m e < 2 ^ 52 * (2 : ℝ) ^ f := by
  have hm : (m : ℝ) < 2 ^ 53 := by exact_mod_cast h.mantissa_lt
  have hstep : (2 : ℝ) ^ (e + 1) ≤ 2 ^ f := zpow_le_zpow_right₀ (by norm_num) hlt
  calc size m e < 2 ^ 53 * (2 : ℝ) ^ e := by rw [size_eq]; gcongr
    _ = 2 ^ 52 * (2 : ℝ) ^ (e + 1) := by rw [zpow_add_one₀ (by norm_num)]; ring
    _ ≤ 2 ^ 52 * (2 : ℝ) ^ f := by gcongr

/-- Sizes are ordered by exponents first. -/
theorem Canonical.size_lt_size {m n : ℕ} {e f : ℤ} (h : Canonical m e) (h' : Canonical n f)
    (hlt : e < f ∨ e = f ∧ m < n) : size m e < size n f := by
  rcases hlt with hlt | ⟨rfl, hlt⟩
  · have hfull : 2 ^ 52 ≤ n := h'.full_or_least.resolve_right (by have := h.least_le; omega)
    have hn : (2 : ℝ) ^ 52 ≤ n := by exact_mod_cast hfull
    calc size m e < 2 ^ 52 * (2 : ℝ) ^ f := h.size_lt hlt
      _ ≤ size n f := by rw [size_eq]; gcongr
  · rw [size_eq, size_eq]
    gcongr

/-- Places further right stand for greater values. -/
theorem value?_lt_value? {a b : UnpackedFloat} (ha : WellFormed a) (hb : WellFormed b)
    {p q : ℤ ×ₗ ℤ ×ₗ ℤ} (hp : position? a = some p) (hq : position? b = some q) (hlt : p < q) :
    ∃ v ∈ value? a, ∃ w ∈ value? b, v < w := by
  rcases a with s | _ | s | ⟨s, m, e, hm⟩ <;> rcases b with t | _ | t | ⟨t, n, f, hn⟩
  case finite.finite =>
    have hm := size_pos hm e
    have hn := size_pos hn f
    cases s <;> cases t <;> cases hp <;> cases hq <;>
      simp only [Prod.Lex.toLex_lt_toLex, value?, signed, Option.mem_some_iff, exists_eq_left',
        EReal.coe_lt_coe_iff] at hlt ⊢
    case negative.negative => exact neg_lt_neg (hb.1.size_lt_size ha.1 (by omega))
    case negative.positive => linarith
    case positive.negative => omega
    case positive.positive => exact ha.1.size_lt_size hb.1 (by omega)
  all_goals
    (try cases s) <;> (try cases t) <;> cases hp <;> cases hq <;>
      simp_all [Prod.Lex.toLex_lt_toLex, value?, signed, size_pos, -EReal.coe_neg]

theorem exists_value?_iff (u : UnpackedFloat) : (∃ v, value? u = some v) ↔ ∃ p, position? u = some p := by
  rcases u with s | _ | s | ⟨s, m, e, hm⟩ <;> (try cases s) <;> simp [value?, position?]

/-- **Doubles are ordered as their values are.** -/
theorem le_iff_value? (x y : Float) :
    x ≤ y ↔ ∃ v ∈ value? x.toModel.unpack, ∃ w ∈ value? y.toModel.unpack, v ≤ w := by
  have hx := wellFormed_unpack x
  have hy := wellFormed_unpack y
  rw [le_iff]
  constructor
  · rintro ⟨p, hp, q, hq, hpq⟩
    rcases hpq.lt_or_eq with hlt | rfl
    · obtain ⟨v, hv, w, hw, hvw⟩ := value?_lt_value? hx hy hp hq hlt
      exact ⟨v, hv, w, hw, hvw.le⟩
    · obtain ⟨v, hv⟩ := (exists_value?_iff _).2 ⟨p, hp⟩
      rcases eq_or_zeros_of_position? hp hq with heq | ⟨s, t, hs, ht⟩
      · exact ⟨v, hv, v, heq ▸ hv, le_rfl⟩
      · rw [hs, ht]
        exact ⟨0, rfl, 0, rfl, le_rfl⟩
  · rintro ⟨v, hv, w, hw, hvw⟩
    obtain ⟨p, hp⟩ := (exists_value?_iff _).1 ⟨v, hv⟩
    obtain ⟨q, hq⟩ := (exists_value?_iff _).1 ⟨w, hw⟩
    refine ⟨p, hp, q, hq, not_lt.1 fun hlt => ?_⟩
    obtain ⟨w', hw', v', hv', hlt⟩ := value?_lt_value? hy hx hq hp hlt
    obtain rfl : w' = w := Option.some.inj (hw'.symm.trans hw)
    obtain rfl : v' = v := Option.some.inj (hv'.symm.trans hv)
    exact hvw.not_gt hlt

/-! ## Finite doubles -/

/-- The real number that an unpacked double stands for, if it is finite. -/
def real : UnpackedFloat → ℝ
  | .finite s m e _ => signed s (size m e)
  | _ => 0

/-- The real number that a finite double stands for. -/
def toReal (x : Float) : ℝ := real x.toModel.unpack

/-- The unpacked double of a sign, a mantissa and an exponent; a mantissa of zero makes a zero. -/
def ofMagnitude (s : Sign) (m : ℕ) (e : ℤ) : UnpackedFloat :=
  if h : m = 0 then .zero s else .finite s m e (Nat.pos_of_ne_zero h)

@[simp] theorem ofMagnitude_zero (s : Sign) (e : ℤ) : ofMagnitude s 0 e = .zero s := rfl

theorem ofMagnitude_of_pos (s : Sign) {m : ℕ} (hm : 0 < m) (e : ℤ) :
    ofMagnitude s m e = .finite s m e hm := dif_neg hm.ne'

/-- No mantissa is a size of zero. -/
@[simp] theorem size_zero (e : ℤ) : size 0 e = 0 := by simp [size]

@[simp] theorem signed_zero (s : Sign) : signed s 0 = 0 := by cases s <;> simp [signed]

theorem size_nonneg (m : ℕ) (e : ℤ) : 0 ≤ size m e := by
  rw [size_eq]
  positivity

@[simp] theorem abs_signed_size (s : Sign) (m : ℕ) (e : ℤ) : |signed s (size m e)| = size m e := by
  cases s <;> simp [signed, abs_of_nonneg (size_nonneg m e)]

/-- Only zero has no mantissa. -/
theorem pos_of_signed_size_ne_zero {s : Sign} {m : ℕ} {e : ℤ} (h : signed s (size m e) ≠ 0) : 0 < m := by
  refine Nat.pos_of_ne_zero ?_
  rintro rfl
  exact h (by rw [size_zero, signed_zero])

theorem canonical_zero : Canonical 0 (-1074) := ⟨by norm_num, le_rfl, .inr rfl⟩

/-- A finite double holds a sign, a mantissa and an exponent. -/
theorem exists_unpack_eq {x : Float} (hx : IsFinite x) : ∃ s m e, Canonical m e ∧ e ≤ 971 ∧
    x.toModel.unpack = ofMagnitude s m e ∧ toReal x = signed s (size m e) ∧
    value? x.toModel.unpack = some (toReal x : EReal) := by
  have hwell := wellFormed_unpack x
  unfold toReal
  rcases (isFinite_iff x).1 hx with ⟨t, ht⟩ | ⟨t, m, e, hm, ht⟩
  · refine ⟨t, 0, -1074, canonical_zero, by norm_num, ht, ?_, ?_⟩
    · simp [ht, real]
    · simp [ht, real, value?]
  · rw [ht] at hwell ⊢
    exact ⟨t, m, e, hwell.1, hwell.2, (ofMagnitude_of_pos t hm e).symm, rfl, rfl⟩

theorem neg_ofMagnitude (s : Sign) (m : ℕ) (e : ℤ) :
    (ofMagnitude s m e).neg = ofMagnitude (-s) m e := by
  unfold ofMagnitude
  split_ifs <;> rfl

theorem abs_ofMagnitude (s : Sign) (m : ℕ) (e : ℤ) :
    (ofMagnitude s m e).abs = ofMagnitude .positive m e := by
  unfold ofMagnitude
  split_ifs <;> rfl

theorem signed_neg (s : Sign) (r : ℝ) : signed (-s) r = -signed s r := by
  cases s
  · exact (neg_neg r).symm
  · rfl

/-- What unpacks to a sign, a mantissa and an exponent is finite and has that value. -/
theorem isFinite_of_unpack {x : Float} {s : Sign} {m : ℕ} {e : ℤ}
    (h : x.toModel.unpack = ofMagnitude s m e) :
    IsFinite x ∧ toReal x = signed s (size m e) := by
  rw [isFinite_iff, toReal, h]
  rcases m.eq_zero_or_pos with rfl | hm
  · exact ⟨.inl ⟨s, rfl⟩, by simp [real]⟩
  · rw [ofMagnitude_of_pos s hm]
    exact ⟨.inr ⟨s, m, e, hm, rfl⟩, rfl⟩

/-- A sign, a mantissa and an exponent that doubles can hold make a finite double of that value. -/
theorem isFinite_ofModel_pack (s : Sign) {m : ℕ} {e : ℤ} (hm : Canonical m e) (he : e ≤ 971) :
    IsFinite (Float.ofModel (pack (ofMagnitude s m e))) ∧
      toReal (Float.ofModel (pack (ofMagnitude s m e))) = signed s (size m e) := by
  have hwell : WellFormed (ofMagnitude s m e) := by
    unfold ofMagnitude
    split_ifs
    · trivial
    · exact ⟨hm, he⟩
  exact isFinite_of_unpack (unpack_pack hwell)

end

end Binary64

namespace IsFinite

open Binary64

variable {x y : Float}

/-- Finite doubles are ordered as the real numbers that they stand for are. -/
theorem le_iff (hx : IsFinite x) (hy : IsFinite y) : x ≤ y ↔ toReal x ≤ toReal y := by
  obtain ⟨-, -, -, -, -, -, -, hv⟩ := exists_unpack_eq hx
  obtain ⟨-, -, -, -, -, -, -, hw⟩ := exists_unpack_eq hy
  rw [le_iff_value?, hv, hw]
  simp

theorem lt_iff (hx : IsFinite x) (hy : IsFinite y) : x < y ↔ toReal x < toReal y := by
  rw [lt_iff_not_le, hy.le_iff hx, not_le, and_iff_right ⟨hx.1, hy.1⟩]

/-- The opposite of a finite double stands for the opposite number. -/
theorem neg (hx : IsFinite x) : IsFinite (-x) ∧ toReal (-x) = -toReal x := by
  obtain ⟨s, m, e, hm, he, hxu, hxr, -⟩ := exists_unpack_eq hx
  have hneg : -x = Float.ofModel (Float.Model.pack (ofMagnitude (-s) m e)) := by
    rw [← neg_ofMagnitude, ← hxu]
    rfl
  rw [hneg, hxr, ← signed_neg]
  exact isFinite_ofModel_pack (-s) hm he

/-- The size of a finite double stands for the size of its number. -/
theorem abs (hx : IsFinite x) : IsFinite (Scalar.abs x) ∧ toReal (Scalar.abs x) = |toReal x| := by
  obtain ⟨s, m, e, hm, he, hxu, hxr, -⟩ := exists_unpack_eq hx
  have habs : Scalar.abs x = Float.ofModel (Float.Model.pack (ofMagnitude .positive m e)) := by
    rw [← abs_ofMagnitude s, ← hxu]
    rfl
  rw [habs, hxr, abs_signed_size]
  exact isFinite_ofModel_pack .positive hm he

end IsFinite

/-! ## Sizes -/

namespace Binary64

open Float.Model

variable {x : Float}

theorem abs_of_isInfinite (h : Scalar.isInfinite x = true) : Scalar.abs x = Bounded.top := by
  obtain ⟨s, hs⟩ := (isInfinite_iff x).1 h
  show Float.ofModel (pack x.toModel.unpack.abs) = _
  rw [hs]
  rfl

/-- The size of a number is finite, or it is the upper end of the line. -/
theorem abs_cases (hx : x ≤ x) : IsFinite (Scalar.abs x) ∨ Scalar.abs x = Bounded.top := by
  cases hinf : Scalar.isInfinite x with
  | true => exact .inr (abs_of_isInfinite hinf)
  | false => exact .inl (IsFinite.abs ⟨hx, hinf⟩).1

/-- The size of a number is not negative. -/
theorem zero_le_abs (hx : x ≤ x) : 0 ≤ Scalar.abs x := by
  cases hinf : Scalar.isInfinite x with
  | true =>
    rw [abs_of_isInfinite hinf]
    exact LawfulBounds.le_top isFinite_zero.1
  | false =>
    obtain ⟨habs, hvalue⟩ := IsFinite.abs ⟨hx, hinf⟩
    rw [isFinite_zero.le_iff habs, hvalue]
    exact abs_nonneg _

end Binary64

end Photoplot
