import Photoplot.Proofs.Binary64.Difference

/-!
# Turning, on doubles

How far a move turns between two angles that are doubles. The remainder by a full turn is exact, so
all that is lost is lost where a turn against the direction of travel is moved up by a full turn.

* `Binary64.remainder_eq_self`, `Binary64.remainder_eq_zero`: the remainder of what is at most as large
  as the divisor;
* `Angle.modulo_fullTurn_cases`: the remainder of a turn by a full one;
* `Angle.travelled_of_isPrincipal`: **a move turns by more than nothing and at most by a full turn**, and
  by a full one exactly when the turn between its ends is none, full, or too small to be told from none.
-/

namespace Photoplot

namespace Binary64

open Float.Model

/-- Doubles that unpack alike are equal. -/
theorem eq_of_unpack_eq {x y : Float} (h : x.toModel.unpack = y.toModel.unpack) : x = y := by
  obtain ⟨⟨a, ha⟩⟩ := x
  obtain ⟨⟨b, hb⟩⟩ := y
  have hbits : a.toBitVec = b.toBitVec := (UnpackedFloat.unpack_inj_of_valid ha hb).1 h
  obtain rfl : a = b := UInt64.eq_of_toBitVec_eq hbits
  rfl

/-- Rounding the value of a double other than zero gives back the double. -/
theorem Rounds.eq_of_ne_zero {x y : Float} (hx : IsFinite x) (hne : toReal x ≠ 0)
    (h : Rounds (toReal x) y) : y = x := by
  have hle := (h x hx).1 le_rfl
  have hge := (h x hx).2 le_rfl
  rcases eq_or_zeros_of_sameNumber ⟨hle, hge⟩ with heq | ⟨s, t, -, hzero⟩
  · exact eq_of_unpack_eq heq
  · exact absurd (by rw [toReal, hzero]; rfl) hne

theorem remainder_of_unpack {x y : Float} {s t : UnpackedFloat.Sign} {m n : ℕ} {e f : ℤ} {hm : 0 < m}
    {hn : 0 < n} (hx : x.toModel.unpack = .finite s m e hm) (hy : y.toModel.unpack = .finite t n f hn) :
    remainder x y = remainderParts s m e n f := by
  unfold remainder
  rw [hx, hy]

/-- Sizes compare as they do counted in a common unit. -/
theorem size_lt_size_iff_inUnits (m n : ℕ) {e f unit : ℤ} (he : unit ≤ e) (hf : unit ≤ f) :
    size m e < size n f ↔ inUnits m e unit < inUnits n f unit := by
  rw [size_eq_mul_of_le m he, size_eq_mul_of_le n hf, mul_lt_mul_iff_left₀ (by positivity),
    Nat.cast_lt]
  rfl

variable {x y : Float}

/-- A double of smaller size than the divisor is its own remainder. -/
theorem remainder_eq_self (hx : IsFinite x) (hy : IsFinite y) (hlt : |toReal x| < |toReal y|) :
    remainder x y = x := by
  obtain ⟨s, m, e, hm, -, hxu, hxr, -⟩ := exists_unpack_eq hx
  obtain ⟨t, n, f, hn, -, hyu, hyr, -⟩ := exists_unpack_eq hy
  rw [hxr, hyr, abs_signed_size, abs_signed_size] at hlt
  have hnpos : 0 < n := by
    refine Nat.pos_of_ne_zero ?_
    rintro rfl
    exact ((size_nonneg m e).trans_lt hlt).ne' (size_zero f)
  rw [ofMagnitude_of_pos t hnpos] at hyu
  rcases m.eq_zero_or_pos with rfl | hmpos
  · rw [ofMagnitude_zero] at hxu
    unfold remainder
    rw [hxu, hyu]
  · rw [ofMagnitude_of_pos s hmpos] at hxu
    have hunits : inUnits m e (min e f) % inUnits n f (min e f) = inUnits m e (min e f) :=
      Nat.mod_eq_of_lt
        ((size_lt_size_iff_inUnits m n (min_le_left e f) (min_le_right e f)).1 hlt)
    have hpos : 0 < inUnits m e (min e f) := shiftLeft_pos hmpos _
    have hrounds := rounds_ofParts s hpos (min e f)
    have hsize : size (inUnits m e (min e f)) (min e f) = size m e :=
      (size_eq_mul_of_le m (min_le_left e f)).symm
    rw [remainder_of_unpack hxu hyu, remainderParts, hunits, if_neg hpos.ne']
    rw [hsize, ← hxr] at hrounds
    refine hrounds.eq_of_ne_zero hx ?_
    rw [hxr, ← abs_pos, abs_signed_size]
    exact size_pos hmpos e

/-- Nothing remains when the sizes are equal. -/
theorem remainder_eq_zero (hx : IsFinite x) (hy : IsFinite y) (hne : toReal y ≠ 0)
    (heq : |toReal x| = |toReal y|) : ∃ s, remainder x y = zero s := by
  obtain ⟨s, m, e, hm, -, hxu, hxr, -⟩ := exists_unpack_eq hx
  obtain ⟨t, n, f, hn, -, hyu, hyr, -⟩ := exists_unpack_eq hy
  have hmpos : 0 < m := pos_of_signed_size_ne_zero (hxr ▸ abs_pos.1 (heq ▸ abs_pos.2 hne))
  have hnpos : 0 < n := pos_of_signed_size_ne_zero (hyr ▸ hne)
  rw [hxr, hyr, abs_signed_size, abs_signed_size] at heq
  have hunits : inUnits m e (min e f) = inUnits n f (min e f) := by
    have hle := mt (size_lt_size_iff_inUnits m n (min_le_left e f) (min_le_right e f)).2 heq.not_lt
    have hge := mt (size_lt_size_iff_inUnits n m (min_le_right e f) (min_le_left e f)).2 heq.not_gt
    omega
  rw [ofMagnitude_of_pos s hmpos] at hxu
  rw [ofMagnitude_of_pos t hnpos] at hyu
  refine ⟨s, ?_⟩
  rw [remainder_of_unpack hxu hyu, remainderParts, hunits, Nat.mod_self, if_pos rfl]

end Binary64

/-! ## Turning from one angle to another -/

namespace Angle

open Binary64

section Principal

variable {α : Type} [Scalar α]

/-- An angle between half a turn back and half a turn on. -/
def IsPrincipal (θ : α) : Prop := -Scalar.pi ≤ θ ∧ θ ≤ Scalar.pi

instance (θ : α) : Decidable (IsPrincipal θ) :=
  inferInstanceAs (Decidable (_ ∧ _))

/-- A turn that is taken for a full one: no turn, one against the direction of travel so small that a
full turn swallows it, or a full one. -/
def IsClosing (turn : α) : Prop :=
  turn ≤ 0 ∧ fullTurn ≤ turn + fullTurn ∨ fullTurn ≤ Scalar.abs turn

instance (turn : α) : Decidable (IsClosing turn) :=
  inferInstanceAs (Decidable (_ ∨ _))

end Principal

variable {start stop θ : Float}

theorem isFinite_fullTurn : IsFinite (fullTurn : Float) := by decide

theorem isFinite_pi : IsFinite (Scalar.pi : Float) := by decide

theorem toReal_pi : toReal Scalar.pi = size 7074237752028440 (-51) := by
  have hunpack : (Scalar.pi : Float).toModel.unpack = ofMagnitude .positive 7074237752028440 (-51) := rfl
  exact (isFinite_of_unpack hunpack).2

/-- A full turn is exactly two halves. -/
theorem toReal_fullTurn : toReal fullTurn = 2 * toReal Scalar.pi := by
  have hunpack : (fullTurn : Float).toModel.unpack = ofMagnitude .positive 7074237752028440 (-50) := rfl
  rw [(isFinite_of_unpack hunpack).2, toReal_pi]
  norm_num [signed, size_eq]

theorem toReal_fullTurn_pos : 0 < toReal fullTurn := by
  rw [toReal_fullTurn, toReal_pi]
  have := size_pos (show 0 < 7074237752028440 by norm_num) (-51)
  linarith

theorem IsPrincipal.isFinite (h : IsPrincipal θ) : IsFinite θ :=
  isFinite_of_le_of_le isFinite_pi.neg.1 isFinite_pi h.1 h.2

theorem IsPrincipal.abs_toReal_le (h : IsPrincipal θ) : |toReal θ| ≤ toReal Scalar.pi := by
  have hlow := (isFinite_pi.neg.1.le_iff h.isFinite).1 h.1
  rw [isFinite_pi.neg.2] at hlow
  exact abs_le.2 ⟨hlow, (h.isFinite.le_iff isFinite_pi).1 h.2⟩

/-- A difference of two angles is at most a full turn. -/
theorem IsPrincipal.sub (h : IsPrincipal θ) {η : Float} (h' : IsPrincipal η) :
    IsFinite (θ - η) ∧ |toReal (θ - η)| ≤ toReal fullTurn := by
  have hθ := abs_le.1 h.abs_toReal_le
  have hη := abs_le.1 h'.abs_toReal_le
  have hfull := toReal_fullTurn
  have hsub := rounds_sub h.isFinite h'.isFinite
  have hneg := isFinite_fullTurn.neg
  have hlow : toReal (-fullTurn) ≤ toReal θ - toReal η := by rw [hneg.2]; linarith
  have hhigh : toReal θ - toReal η ≤ toReal fullTurn := by linarith
  have hfinite := hsub.isFinite hneg.1 isFinite_fullTurn hlow hhigh
  refine ⟨hfinite, abs_le.2 ⟨?_, ?_⟩⟩
  · rw [← hneg.2]
    exact (hneg.1.le_iff hfinite).1 ((hsub _ hneg.1).2 hlow)
  · exact (hfinite.le_iff isFinite_fullTurn).1 ((hsub _ isFinite_fullTurn).1 hhigh)

/-- A turn between two angles is at most a full one. -/
theorem turn_of_isPrincipal (h : IsPrincipal start) (h' : IsPrincipal stop) (direction : Direction) :
    IsFinite (turn start stop direction) ∧
      |toReal (turn start stop direction)| ≤ toReal fullTurn := by
  cases direction with
  | counterclockwise => exact h'.sub h
  | clockwise => exact h.sub h'

/-- The turn between equal angles is taken for a full one. -/
theorem isClosing_turn_self (h : IsPrincipal θ) (direction : Direction) :
    IsClosing (turn θ θ direction) := by
  have hnone : turn θ θ direction = zero .positive := by
    cases direction with
    | counterclockwise => exact h.isFinite.sub_self
    | clockwise => exact h.isFinite.sub_self
  rw [hnone]
  decide

/-- The remainder of a turn by a full one is the turn itself, moved up by a full turn when it goes
against the direction of travel; nothing remains of a full turn. -/
theorem modulo_fullTurn_cases (hθ : IsFinite θ) (hle : |toReal θ| ≤ toReal fullTurn) :
    (|toReal θ| = toReal fullTurn ∧ ∃ s, Scalar.modulo θ fullTurn = zero s) ∨
    (|toReal θ| < toReal fullTurn ∧ 0 ≤ toReal θ ∧ Scalar.modulo θ fullTurn = θ) ∨
    (|toReal θ| < toReal fullTurn ∧ toReal θ < 0 ∧ Scalar.modulo θ fullTurn = θ + fullTurn) := by
  have habs : |toReal fullTurn| = toReal fullTurn := abs_of_pos toReal_fullTurn_pos
  have hsize : Scalar.abs (fullTurn : Float) = fullTurn := by decide
  unfold Scalar.modulo
  rw [hsize]
  rcases hle.eq_or_lt with heq | hlt
  · obtain ⟨s, hs⟩ :=
      remainder_eq_zero hθ isFinite_fullTurn toReal_fullTurn_pos.ne' (heq.trans habs.symm)
    have hzero : ∀ s, ¬ zero s < 0 := by
      intro s
      cases s <;> decide
    refine .inl ⟨heq, s, ?_⟩
    rw [show Scalar.truncMod θ fullTurn = zero s from hs, if_neg (hzero s)]
  · have hself : Scalar.truncMod θ fullTurn = θ :=
      remainder_eq_self hθ isFinite_fullTurn (hlt.trans_eq habs.symm)
    have hsign : θ < 0 ↔ toReal θ < 0 := hθ.lt_iff isFinite_zero
    rw [hself]
    rcases lt_or_ge (toReal θ) 0 with hneg | hnonneg
    · exact .inr (.inr ⟨hlt, hneg, if_pos (hsign.2 hneg)⟩)
    · exact .inr (.inl ⟨hlt, hnonneg, if_neg (mt hsign.1 hnonneg.not_gt)⟩)

/-- **How far a move turns.** Between two angles a move turns by more than nothing and at most by a full
turn, and by a full turn exactly when the turn between them is taken for one. -/
theorem travelled_of_isPrincipal (h : IsPrincipal start) (h' : IsPrincipal stop) (direction : Direction) :
    0 < travelled start stop direction ∧ travelled start stop direction ≤ fullTurn ∧
      (fullTurn ≤ travelled start stop direction ↔ IsClosing (turn start stop direction)) := by
  obtain ⟨hturn, hle⟩ := turn_of_isPrincipal h h' direction
  have hpos : (0 : Float) < fullTurn := by decide
  have hfull : (fullTurn : Float) ≤ fullTurn := isFinite_fullTurn.1
  have hsize : fullTurn ≤ Scalar.abs (turn start stop direction) ↔
      toReal fullTurn ≤ |toReal (turn start stop direction)| := by
    rw [isFinite_fullTurn.le_iff hturn.abs.1, hturn.abs.2]
  have hsum := rounds_add hturn isFinite_fullTurn
  have hsign : turn start stop direction ≤ 0 ↔ toReal (turn start stop direction) ≤ 0 :=
    hturn.le_iff isFinite_zero
  unfold travelled IsClosing
  rw [hsize, hsign]
  generalize turn start stop direction = θ at *
  dsimp only
  rcases modulo_fullTurn_cases hturn hle with ⟨heq, s, hs⟩ | ⟨hlt, hnonneg, hs⟩ | ⟨hlt, hneg, hs⟩
  · have hzero : ∀ s, zero s ≤ 0 := by
      intro s
      cases s <;> decide
    rw [hs, if_pos (hzero s)]
    exact ⟨hpos, hfull, iff_of_true hfull (.inr heq.ge)⟩
  · rw [hs]
    rcases hnonneg.eq_or_lt with hzero | hgt
    · rw [if_pos (hsign.2 hzero.ge)]
      refine ⟨hpos, hfull, iff_of_true hfull (.inl ⟨hzero.ge, ?_⟩)⟩
      exact (hsum _ isFinite_fullTurn).2 (by linarith)
    · rw [if_neg (mt hsign.1 hgt.not_ge)]
      rw [abs_of_pos hgt] at hlt ⊢
      refine ⟨(isFinite_zero.lt_iff hturn).2 hgt, (hturn.le_iff isFinite_fullTurn).2 hlt.le, ?_⟩
      rw [isFinite_fullTurn.le_iff hturn]
      exact iff_of_false hlt.not_ge (by rintro (⟨hle, -⟩ | hle) <;> linarith)
  · have hgt : 0 < θ + fullTurn :=
      add_pos_of_toReal hturn isFinite_fullTurn (by linarith [(abs_lt.1 hlt).1])
    have hkept : ¬ θ + fullTurn ≤ 0 := ((lt_iff_not_le _ _).1 hgt).2
    rw [hs, if_neg hkept]
    refine ⟨hgt, (hsum _ isFinite_fullTurn).1 (by linarith), ?_⟩
    rw [and_iff_right hneg.le, or_iff_left hlt.not_ge]

end Angle

end Photoplot
