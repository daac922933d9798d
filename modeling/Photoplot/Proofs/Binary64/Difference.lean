import Photoplot.Proofs.Binary64.Rounding

/-!
# Differences of doubles

Finite doubles are whole multiples of the least positive one, so that a sum or a difference of two of
them, however small, is never rounded to zero unless it is zero.

* `Binary64.least_le_sub`: doubles that differ do so by no less than the least positive one;
* `Binary64.add_pos_of_toReal`: **a positive sum is not rounded to zero**;
* `Binary64.isFinite_of_sub`: only finite doubles have a finite difference;
* `Binary64.abs_sub_le_zero_iff`: **doubles differ by nothing exactly when they are finite and the same
  number**;
* `Binary64.abs_sub_swap`: doubles differ by as much whichever of them is subtracted.
-/

namespace Photoplot

namespace Binary64

open Float.Model UnpackedFloat

variable {x y : Float}

/-! ## The least positive double -/

/-- Finite doubles are whole multiples of the least positive one. -/
theorem exists_toReal_eq_mul (hx : IsFinite x) : ∃ k : ℤ, toReal x = k * 2 ^ (-1074 : ℤ) := by
  obtain ⟨s, m, e, hm, -, -, hxr, -⟩ := exists_unpack_eq hx
  refine ⟨s.apply (m <<< (e - -1074).toNat : ℕ), ?_⟩
  rw [hxr, size_eq_mul_of_le m hm.least_le, signed_mul]

theorem unpack_least : (ofParts .positive 1 (-1074)).toModel.unpack = ofMagnitude .positive 1 (-1074) :=
  rfl

theorem isFinite_least : IsFinite (ofParts .positive 1 (-1074)) := (isFinite_of_unpack unpack_least).1

theorem toReal_least : toReal (ofParts .positive 1 (-1074)) = 2 ^ (-1074 : ℤ) := by
  rw [(isFinite_of_unpack unpack_least).2]
  simp [signed, size_eq]

/-- Finite doubles that differ do so by no less than the least positive one. -/
theorem least_le_sub (hx : IsFinite x) (hy : IsFinite y) (hlt : toReal y < toReal x) :
    2 ^ (-1074 : ℤ) ≤ toReal x - toReal y := by
  obtain ⟨k, hk⟩ := exists_toReal_eq_mul hx
  obtain ⟨l, hl⟩ := exists_toReal_eq_mul hy
  have hunit : (0 : ℝ) < 2 ^ (-1074 : ℤ) := by positivity
  rw [hk, hl, ← sub_mul, ← Int.cast_sub]
  have hcount : l < k := by
    rw [hk, hl] at hlt
    exact_mod_cast lt_of_mul_lt_mul_right hlt hunit.le
  exact le_mul_of_one_le_left hunit.le (by exact_mod_cast (by omega : 1 ≤ k - l))

/-- What is no less than the least positive double is not rounded to zero. -/
theorem Rounds.pos {v : ℝ} (h : Rounds v x) (hleast : 2 ^ (-1074 : ℤ) ≤ v) : 0 < x := by
  have hle := (h _ isFinite_least).2 (by rwa [toReal_least])
  rw [lt_iff_not_le]
  refine ⟨⟨isFinite_zero.1, h.le_self⟩, fun hle' => ?_⟩
  have hzero := LawfulBounds.le_trans hle hle'
  exact absurd hzero (by decide)

/-- Nor is what is no more than its opposite. -/
theorem Rounds.neg {v : ℝ} (h : Rounds v x) (hleast : v ≤ -2 ^ (-1074 : ℤ)) : x < 0 := by
  have hle := (h _ isFinite_least.neg.1).1 (by rwa [isFinite_least.neg.2, toReal_least])
  rw [lt_iff_not_le]
  refine ⟨⟨h.le_self, isFinite_zero.1⟩, fun hle' => ?_⟩
  have hzero := LawfulBounds.le_trans hle' hle
  exact absurd hzero (by decide)

/-- What a positive sum of doubles is rounded to is positive. -/
theorem add_pos_of_toReal (hx : IsFinite x) (hy : IsFinite y) (hpos : 0 < toReal x + toReal y) :
    0 < x + y := by
  have hleast := least_le_sub hx hy.neg.1 (by rw [hy.neg.2]; linarith)
  rw [hy.neg.2, sub_neg_eq_add] at hleast
  exact (rounds_add hx hy).pos hleast

/-! ## Differences that are finite -/

/-- A finite double unpacks neither to an infinity nor to what is no number. -/
theorem isFinite_iff_ne (x : Float) : IsFinite x ↔
    x.toModel.unpack ≠ .notANumber ∧ ∀ s, x.toModel.unpack ≠ .infinity s := by
  rw [isFinite_iff]
  rcases x.toModel.unpack with s | _ | s | ⟨s, m, e, hm⟩
  case finite => simp [hm]
  all_goals simp

/-- What is packed into a finite double is neither an infinity nor no number. -/
theorem ne_of_isFinite_ofModel_pack {u : UnpackedFloat} (h : IsFinite (Float.ofModel (pack u))) :
    u ≠ .notANumber ∧ ∀ s, u ≠ .infinity s := by
  refine ⟨?_, ?_⟩
  · rintro rfl
    exact absurd h (by decide)
  · rintro s rfl
    cases s <;> exact absurd h (by decide)

/-- An infinity, or what is no number, is never taken away by a subtraction. -/
theorem ne_of_sub {a b : UnpackedFloat}
    (h : a.sub Format.binary64 b ≠ .notANumber ∧ ∀ s, a.sub Format.binary64 b ≠ .infinity s) :
    (a ≠ .notANumber ∧ ∀ s, a ≠ .infinity s) ∧ b ≠ .notANumber ∧ ∀ s, b ≠ .infinity s := by
  obtain ⟨hnumber, hinf⟩ := h
  rcases a with s | _ | s | ⟨s, m, e, hm⟩ <;> rcases b with t | _ | t | ⟨t, n, f, hn⟩
  case infinity.infinity =>
    cases s <;> cases t <;> first | exact absurd rfl hnumber | exact absurd rfl (hinf _)
  all_goals simp_all [UnpackedFloat.sub]

/-- Only finite doubles have a finite difference. -/
theorem isFinite_of_sub (h : IsFinite (x - y)) : IsFinite x ∧ IsFinite y := by
  rw [isFinite_iff_ne x, isFinite_iff_ne y]
  exact ne_of_sub (ne_of_isFinite_ofModel_pack h)

/-! ## Differences that vanish -/

/-- A double whose size is at most zero is a zero. -/
theorem abs_le_zero_iff (x : Float) : Scalar.abs x ≤ 0 ↔ ∃ s, x.toModel.unpack = .zero s := by
  have hwell : WellFormed x.toModel.unpack.abs := by
    have hx := wellFormed_unpack x
    cases h : x.toModel.unpack <;> rw [h] at hx <;> exact hx
  have habs : (Scalar.abs x).toModel.unpack = x.toModel.unpack.abs := unpack_pack hwell
  have hzero : (0 : Float).toModel.unpack = .zero .positive := rfl
  rw [le_iff, habs, hzero]
  rcases x.toModel.unpack with s | _ | s | ⟨s, m, e, hm⟩ <;>
    simp [UnpackedFloat.abs, position?, Prod.Lex.toLex_le_toLex]

/-- **Differing by nothing.** Doubles differ by nothing exactly when they are finite and the same
number. -/
theorem abs_sub_le_zero_iff :
    Scalar.abs (x - y) ≤ 0 ↔ (IsFinite x ∧ IsFinite y) ∧ SameNumber x y := by
  constructor
  · intro h
    obtain ⟨s, hs⟩ := (abs_le_zero_iff _).1 h
    obtain ⟨hx, hy⟩ := isFinite_of_sub ((isFinite_iff _).2 (.inl ⟨s, hs⟩))
    have hsub := rounds_sub hx hy
    have hpos : ¬ 0 < x - y ∧ ¬ x - y < 0 := by
      rw [lt_iff, lt_iff, hs, show (0 : Float).toModel.unpack = .zero .positive from rfl]
      simp [position?]
    refine ⟨⟨hx, hy⟩, (hx.le_iff hy).2 (le_of_not_gt fun hlt => ?_),
      (hy.le_iff hx).2 (le_of_not_gt fun hlt => ?_)⟩
    · exact hpos.1 (Rounds.pos hsub (least_le_sub hx hy hlt))
    · exact hpos.2 (Rounds.neg hsub (by linarith [least_le_sub hy hx hlt]))
  · rintro ⟨⟨hx, hy⟩, hle, hge⟩
    have hsame : toReal x - toReal y = toReal 0 :=
      sub_eq_zero.2 (le_antisymm ((hx.le_iff hy).1 hle) ((hy.le_iff hx).1 hge))
    have hsub := rounds_sub hx hy
    have hzero := hsub 0 isFinite_zero
    have hfinite := Rounds.isFinite hsub isFinite_zero isFinite_zero hsame.ge hsame.le
    have hle' := (hfinite.le_iff isFinite_zero).1 (hzero.1 hsame.le)
    have hge' := (isFinite_zero.le_iff hfinite).1 (hzero.2 hsame.ge)
    rw [hfinite.abs.1.le_iff isFinite_zero, hfinite.abs.2, le_antisymm hle' hge']
    exact abs_zero.le

/-! ## Differences the other way round -/

/-- Rounding pays no heed to the sign. -/
theorem abs_roundWithAccuracy (s t : Sign) (m : ℕ) (e : ℤ) (a : Accuracy) :
    (roundWithAccuracy Format.binary64 s m e a).abs =
      (roundWithAccuracy Format.binary64 t m e a).abs := by
  unfold roundWithAccuracy
  dsimp only
  split_ifs <;> rfl

/-- Opposite numbers have normal forms of one size. -/
theorem abs_normalize_neg (m e : ℤ) (s t : Sign) :
    (UnpackedFloat.normalize Format.binary64 (-m) e s).abs =
      (UnpackedFloat.normalize Format.binary64 m e t).abs := by
  unfold UnpackedFloat.normalize
  rcases lt_trichotomy m 0 with hm | rfl | hm
  · rw [Int.compare_eq_lt.2 hm, Int.compare_eq_gt.2 (by omega)]
    exact abs_roundWithAccuracy _ _ _ _ _
  · rfl
  · rw [Int.compare_eq_gt.2 hm, Int.compare_eq_lt.2 (by omega)]
    dsimp only
    rw [neg_neg]
    exact abs_roundWithAccuracy _ _ _ _ _

/-- The size of a difference does not depend on which of the two is subtracted. -/
theorem abs_unpacked_sub_swap (a b : UnpackedFloat) :
    (a.sub Format.binary64 b).abs = (b.sub Format.binary64 a).abs := by
  rcases a with s | _ | s | ⟨s, m, e, hm⟩ <;> rcases b with t | _ | t | ⟨t, n, f, hn⟩
  case finite.finite =>
    show (UnpackedFloat.normalize _ (_ - _) (min e f) _).abs =
      (UnpackedFloat.normalize _ (_ - _) (min f e) _).abs
    rw [min_comm f e, ← abs_normalize_neg, neg_sub]
  all_goals (try cases s) <;> (try cases t) <;> rfl

/-- Packing pays no heed to the sign. -/
theorem abs_unpack_pack (u : UnpackedFloat) : (pack u).unpack.abs = (pack u.abs).unpack := by
  rcases u with s | _ | s | ⟨s, m, e, hm⟩
  case infinity => cases s <;> rfl
  case notANumber => rfl
  case zero => cases s <;> rfl
  case finite =>
    show (UnpackedFloat.unpack Format.binary64 (UnpackedFloat.pack Format.binary64 _)).abs =
      UnpackedFloat.unpack Format.binary64 (UnpackedFloat.pack Format.binary64 (.finite _ m e hm))
    unfold UnpackedFloat.pack
    dsimp only
    split_ifs with hlarge hnormal
    · cases s <;> rfl
    · simp only [unpack_packComponents]
      split_ifs <;> rfl
    · simp only [unpack_packComponents]
      split_ifs <;> rfl

/-- **Differences the other way round.** Doubles differ by as much whichever of them is subtracted. -/
theorem abs_sub_swap (x y : Float) : Scalar.abs (x - y) = Scalar.abs (y - x) := by
  have habs : ∀ a b : Float, Scalar.abs (a - b) = Float.ofModel
      (pack (pack (a.toModel.unpack.sub Format.binary64 b.toModel.unpack)).unpack.abs) := fun _ _ => rfl
  rw [habs, habs, abs_unpack_pack, abs_unpack_pack, abs_unpacked_sub_swap]

end Binary64

end Photoplot
