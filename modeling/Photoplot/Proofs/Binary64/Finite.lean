import Photoplot.ArcMove
import Photoplot.Proofs.Binary64

/-!
# Finite doubles

Which results of the arithmetic of doubles are numbers, and of which sign. What is finite stays a
number under one operation; only two infinities can make something that is none.

* `IsFinite`: numbers, points, offsets and moves that are finite;
* `Binary64.sign?`: the sign of a double, which only a number has, and what the operations make of it;
* `Binary64.sign?_distance`: **a distance is a positive number unless a difference of coordinates is
  none**;
* `Binary64.isNaN_sub_iff`: **the difference of two numbers of one sign is none exactly when both are
  infinite**;
* `Point.IsFinite.coincide_self`: a finite point counts as itself.
-/

namespace Photoplot

section Finite

variable {α : Type} [Scalar α]

/-- A number that is not infinite. -/
def IsFinite (x : α) : Prop := x ≤ x ∧ Scalar.isInfinite x = false

instance (x : α) : Decidable (IsFinite x) :=
  inferInstanceAs (Decidable (_ ∧ _))

/-- A point whose coordinates are finite. -/
def Point.IsFinite (p : Point α) : Prop := Photoplot.IsFinite p.x ∧ Photoplot.IsFinite p.y

instance (p : Point α) : Decidable p.IsFinite :=
  inferInstanceAs (Decidable (_ ∧ _))

/-- Offsets that are finite. -/
def Offsets.IsFinite (o : Offsets α) : Prop := Photoplot.IsFinite o.i ∧ Photoplot.IsFinite o.j

instance (o : Offsets α) : Decidable o.IsFinite :=
  inferInstanceAs (Decidable (_ ∧ _))

/-- An arc move whose ends and offsets are finite. -/
structure ArcMove.IsFinite (m : ArcMove α) : Prop where
  /-- The start is finite. -/
  start : m.start.IsFinite
  /-- The end is finite. -/
  stop : m.stop.IsFinite
  /-- The offsets are finite. -/
  offsets : m.offsets.IsFinite

end Finite

namespace Binary64

open Float.Model UnpackedFloat

theorem isFinite_zero : IsFinite (0 : Float) := by decide

theorem isFinite_one : IsFinite (1 : Float) := by decide

/-! ## Signs -/

/-- The sign of an unpacked double, if it is a number. -/
def sign? : UnpackedFloat → Option Sign
  | .infinity s => some s
  | .zero s => some s
  | .finite s _ _ _ => some s
  | .notANumber => none

theorem le_self_iff_sign? (x : Float) : x ≤ x ↔ ∃ s, sign? x.toModel.unpack = some s := by
  rw [le_self_iff]
  rcases x.toModel.unpack with s | _ | s | ⟨s, m, e, hm⟩ <;> (try cases s) <;>
    simp [position?, sign?]

/-- Components whose exponent is not the greatest are those of a number. -/
theorem sign?_unpack_packComponents (s : Sign) {e : BitVec Format.binary64.exponentBits}
    (he : e ≠ -1#_) (m : BitVec Format.binary64.mantissaBitsWithoutImplicit) :
    sign? (UnpackedFloat.unpack _ (packComponents Format.binary64 s e m)) = some s := by
  unfold UnpackedFloat.unpack
  simp only [unpackMantissa_packComponents, unpackExponent_packComponents,
    unpackSign_packComponents, Sign.ofBitVec_toBitVec, if_neg he]
  split_ifs <;> rfl

theorem ofNat_ne_allOnes {n : ℕ} (h : n + 1 < 2 ^ 11) : BitVec.ofNat 11 n ≠ -1#_ := by
  intro heq
  have hnat := congrArg BitVec.toNat heq
  rw [BitVec.toNat_ofNat, Nat.mod_eq_of_lt (by omega)] at hnat
  rw [hnat] at h
  exact absurd h (by decide)

/-- Packing keeps the sign. -/
theorem sign?_unpack_pack (u : UnpackedFloat) :
    sign? (Float.ofModel (pack u)).toModel.unpack = sign? u := by
  rcases u with s | _ | s | ⟨s, m, e, hm⟩
  case infinity => cases s <;> rfl
  case notANumber => rfl
  case zero => cases s <;> rfl
  case finite =>
    show sign? (UnpackedFloat.unpack _ (UnpackedFloat.pack _ (.finite s m e hm))) = some s
    unfold UnpackedFloat.pack
    dsimp only
    split_ifs with hlarge hnormal
    · cases s <;> rfl
    · exact sign?_unpack_packComponents s (ofNat_ne_allOnes (not_le.1 hlarge)) _
    · exact sign?_unpack_packComponents s (by decide) _

theorem sign?_roundWithAccuracy (s : Sign) (m : ℕ) (e : ℤ) (a : Accuracy) :
    sign? (roundWithAccuracy Format.binary64 s m e a) = some s := by
  unfold roundWithAccuracy
  dsimp only
  split_ifs <;> rfl

/-- What has a sign has it in normal form, too. -/
theorem sign?_normalize_apply (s : Sign) {m : ℤ} (hm : 0 < m) (e : ℤ) (zero : Sign) :
    sign? (UnpackedFloat.normalize Format.binary64 (s.apply m) e zero) = some s := by
  unfold UnpackedFloat.normalize
  cases s with
  | negative =>
    rw [show compare (Sign.negative.apply m) 0 = .lt from Int.compare_eq_lt.2 (Int.neg_neg_of_pos hm)]
    exact sign?_roundWithAccuracy _ _ _ _
  | positive =>
    rw [show compare (Sign.positive.apply m) 0 = .gt from Int.compare_eq_gt.2 hm]
    exact sign?_roundWithAccuracy _ _ _ _

theorem isSome_sign?_normalize (m : ℤ) (e : ℤ) (zero : Sign) :
    (sign? (UnpackedFloat.normalize Format.binary64 m e zero)).isSome := by
  unfold UnpackedFloat.normalize
  split
  · exact Option.isSome_of_eq_some (sign?_roundWithAccuracy _ _ _ _)
  · rfl
  · exact Option.isSome_of_eq_some (sign?_roundWithAccuracy _ _ _ _)

/-! ## Signs of results -/

section Unpacked

variable {a b : UnpackedFloat} {s t : Sign}

theorem shiftLeft_pos {m : ℕ} (hm : 0 < m) (k : ℕ) : 0 < m <<< k := by
  rw [Nat.shiftLeft_eq]
  exact Nat.mul_pos hm (Nat.two_pow_pos k)

/-- The sum of numbers of one sign has that sign. -/
theorem sign?_add (ha : sign? a = some s) (hb : sign? b = some s) :
    sign? (a.add Format.binary64 b) = some s := by
  cases a <;> cases ha <;> cases b <;> cases hb
  case finite.refl.finite.refl m e hm n f hn =>
    have hsum : ∀ p q : ℤ, s.apply p + s.apply q = s.apply (p + q) := by
      cases s <;> simp [Sign.apply, add_comm]
    have hm := shiftLeft_pos hm (e - min e f).toNat
    have hn := shiftLeft_pos hn (f - min e f).toNat
    show sign? (UnpackedFloat.normalize _ (s.apply (m <<< _ : ℕ) + s.apply (n <<< _ : ℕ)) _ _) = _
    rw [hsum]
    exact sign?_normalize_apply s (by exact_mod_cast Nat.add_pos_left hm _) _ _
  all_goals cases s <;> rfl

/-- The sum of numbers is one unless both are infinite and of different signs. -/
theorem sign?_add_eq_none_iff (ha : sign? a = some s) (hb : sign? b = some t) :
    sign? (a.add Format.binary64 b) = none ↔ a = .infinity s ∧ b = .infinity t ∧ s ≠ t := by
  cases a <;> cases ha <;> cases b <;> cases hb
  case finite.refl.finite.refl =>
    exact iff_of_false (Option.isSome_iff_ne_none.1 (isSome_sign?_normalize _ _ _)) (by simp)
  all_goals cases s <;> cases t <;> simp [UnpackedFloat.add, sign?]

/-- A square is positive. -/
theorem sign?_mul_self (ha : sign? a = some s) :
    sign? (a.mul Format.binary64 a) = some .positive := by
  cases a <;> cases ha
  case finite.refl => cases s <;> exact sign?_roundWithAccuracy _ _ _ _
  all_goals cases s <;> rfl

theorem sign?_sqrt (ha : sign? a = some .positive) :
    sign? (a.sqrt Format.binary64) = some .positive := by
  cases a <;> cases ha
  case finite.refl => exact sign?_roundWithAccuracy _ _ _ _
  all_goals rfl

/-- The difference of numbers is one unless both are infinite and of one sign. -/
theorem sign?_sub_eq_none_iff (ha : sign? a = some s) (hb : sign? b = some t) :
    sign? (a.sub Format.binary64 b) = none ↔ a = .infinity s ∧ b = .infinity s := by
  cases a <;> cases ha <;> cases b <;> cases hb
  case finite.refl.finite.refl =>
    exact iff_of_false (Option.isSome_iff_ne_none.1 (isSome_sign?_normalize _ _ _)) (by simp)
  all_goals cases s <;> cases t <;> simp [UnpackedFloat.sub, sign?] <;> decide

end Unpacked

/-! ## Numbers -/

section Numbers

variable {x y : Float} {s : Sign}

theorem isNaN_iff (x : Float) : IsNaN x ↔ sign? x.toModel.unpack = none := by
  rw [IsNaN, le_self_iff_sign?, ← Option.ne_none_iff_exists', not_not]

/-- A result is no number when it was none before it was packed. -/
theorem isNaN_ofModel_pack (u : UnpackedFloat) : IsNaN (Float.ofModel (pack u)) ↔ sign? u = none := by
  rw [isNaN_iff, sign?_unpack_pack]

theorem isInfinite_iff (x : Float) :
    Scalar.isInfinite x = true ↔ ∃ s, x.toModel.unpack = .infinity s := by
  show x.toModel.unpack.isInf = true ↔ _
  cases x.toModel.unpack <;> simp [UnpackedFloat.isInf]

theorem isInfinite_iff_of_sign? (h : sign? x.toModel.unpack = some s) :
    Scalar.isInfinite x = true ↔ x.toModel.unpack = .infinity s := by
  rw [isInfinite_iff]
  constructor
  · rintro ⟨t, ht⟩
    rw [ht] at h ⊢
    exact congrArg _ (Option.some.inj h)
  · intro hx
    exact ⟨s, hx⟩

/-- A finite double holds a zero or a mantissa and an exponent. -/
theorem isFinite_iff (x : Float) : IsFinite x ↔ (∃ s, x.toModel.unpack = .zero s) ∨
    ∃ s m e hm, x.toModel.unpack = .finite s m e hm := by
  have hinf : Scalar.isInfinite x = x.toModel.unpack.isInf := rfl
  rw [IsFinite, le_self_iff_sign?, hinf]
  rcases x.toModel.unpack with s | _ | s | ⟨s, m, e, hm⟩
  case finite => simp [sign?, UnpackedFloat.isInf, hm]
  all_goals simp [sign?, UnpackedFloat.isInf]

/-- The difference of numbers of one sign is none exactly when both are infinite. -/
theorem isNaN_sub_iff (hx : sign? x.toModel.unpack = some s) (hy : sign? y.toModel.unpack = some s) :
    IsNaN (x - y) ↔ Scalar.isInfinite x = true ∧ Scalar.isInfinite y = true := by
  rw [isInfinite_iff_of_sign? hx, isInfinite_iff_of_sign? hy, ← sign?_sub_eq_none_iff hx hy]
  exact isNaN_ofModel_pack _

theorem isNaN_abs (x : Float) : IsNaN (Scalar.abs x) ↔ IsNaN x := by
  rw [isNaN_iff x]
  refine (isNaN_ofModel_pack x.toModel.unpack.abs).trans ?_
  cases x.toModel.unpack <;> simp [UnpackedFloat.abs, sign?]

theorem isNaN_neg (x : Float) : IsNaN (-x) ↔ IsNaN x := by
  rw [isNaN_iff x]
  refine (isNaN_ofModel_pack x.toModel.unpack.neg).trans ?_
  cases x.toModel.unpack <;> simp [UnpackedFloat.neg, sign?]

theorem abs_le_self_iff (x : Float) : Scalar.abs x ≤ Scalar.abs x ↔ x ≤ x :=
  not_iff_not.1 (isNaN_abs x)

theorem neg_le_self_iff (x : Float) : -x ≤ -x ↔ x ≤ x :=
  not_iff_not.1 (isNaN_neg x)

theorem sign?_distance {p q : Point Float} (hx : p.x - q.x ≤ p.x - q.x) (hy : p.y - q.y ≤ p.y - q.y) :
    sign? (p.distance q).toModel.unpack = some .positive := by
  obtain ⟨s, hs⟩ := (le_self_iff_sign? _).1 hx
  obtain ⟨t, ht⟩ := (le_self_iff_sign? _).1 hy
  have hxx := (sign?_unpack_pack _).trans (sign?_mul_self hs)
  have hyy := (sign?_unpack_pack _).trans (sign?_mul_self ht)
  have hsum := (sign?_unpack_pack _).trans (sign?_add hxx hyy)
  exact (sign?_unpack_pack _).trans (sign?_sqrt hsum)

theorem sub_self_eq_zero {a : UnpackedFloat} (h : ∀ s, a ≠ .infinity s) (hs : sign? a = some s) :
    a.sub Format.binary64 a = .zero .positive := by
  rcases a with _ | _ | _ | ⟨t, m, e, hm⟩
  case infinity t => exact absurd rfl (h t)
  case notANumber => cases hs
  case zero t => cases t <;> rfl
  case finite =>
    show UnpackedFloat.normalize _ (_ - _) _ _ = _
    rw [sub_self]
    rfl

end Numbers

end Binary64

/-! ## Finite numbers -/

namespace IsFinite

open Binary64 Float.Model

variable {x y : Float}

theorem ne_infinity (hx : IsFinite x) (s : UnpackedFloat.Sign) : x.toModel.unpack ≠ .infinity s := by
  intro hinf
  exact absurd ((isInfinite_iff x).2 ⟨s, hinf⟩) (by simp [hx.2])

/-- The sum of a finite double and a number is a number. -/
theorem add_le_self (hx : IsFinite x) (hy : y ≤ y) : x + y ≤ x + y := by
  obtain ⟨s, hs⟩ := (le_self_iff_sign? x).1 hx.1
  obtain ⟨t, ht⟩ := (le_self_iff_sign? y).1 hy
  by_contra hnan
  have hinf := (sign?_add_eq_none_iff hs ht).1 ((isNaN_ofModel_pack _).1 hnan)
  exact hx.ne_infinity s hinf.1

/-- The difference of a finite double and a number is a number. -/
theorem sub_le_self (hx : IsFinite x) (hy : y ≤ y) : x - y ≤ x - y := by
  obtain ⟨s, hs⟩ := (le_self_iff_sign? x).1 hx.1
  obtain ⟨t, ht⟩ := (le_self_iff_sign? y).1 hy
  by_contra hnan
  have hinf := (sign?_sub_eq_none_iff hs ht).1 ((isNaN_ofModel_pack _).1 hnan)
  exact hx.ne_infinity s hinf.1

theorem sub_self (hx : IsFinite x) : x - x = zero .positive := by
  obtain ⟨s, hs⟩ := (le_self_iff_sign? x).1 hx.1
  exact congrArg (fun u => Float.ofModel (pack u)) (sub_self_eq_zero hx.ne_infinity hs)

/-- A finite double is at no distance from itself. -/
theorem abs_sub_self (hx : IsFinite x) : Scalar.abs (x - x) = zero .positive := by
  rw [hx.sub_self]
  rfl

end IsFinite

/-- A finite point counts as itself. -/
theorem Point.IsFinite.coincide_self {p : Point Float} (hp : p.IsFinite) : p.Coincide p := by
  unfold Coincide
  rw [hp.1.abs_sub_self, hp.2.abs_sub_self]
  decide

end Photoplot
