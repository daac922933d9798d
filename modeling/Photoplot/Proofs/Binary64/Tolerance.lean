import Photoplot.Proofs.Binary64.Mismatch
import Photoplot.Proofs.Binary64.Nearest

/-!
# Tolerances, on doubles

The tolerance for a radius is a length or a fraction of that radius, whichever is greater. An infinite
radius times a fraction of zero is no number, and then the length is all that is left. So there is a
tolerance for every radius, and it does not fall anywhere as radii grow, not even from the finite ones
to the infinite one.

* `Options.IsTolerance`, `Options.Usable`: what the options of a plot are;
* `Options.Built.toleranceFor_le`: tolerances that do not exceed a radius;
* `Binary64.abs_mul_le_or`: fractions of sizes grow with them, unless the size is infinite and the
  fraction nothing;
* `Options.Built.toleranceFor_mono`: **the tolerance does not fall as radii grow**;
* `Options.usable_after`: **whatever calls are made, the options that they leave can be used**, and it
  does not matter whether all values are given at once or set one after the other.
-/

namespace Photoplot

/-! ## Fractions of sizes -/

namespace Binary64

open Float.Model UnpackedFloat

variable {x y c : Float}

/-- A number and its opposite are of one size. -/
theorem abs_neg (x : Float) : Scalar.abs (-x) = Scalar.abs x := by
  have hopposite : (pack x.toModel.unpack.neg).unpack = x.toModel.unpack.neg := by
    refine unpack_pack ?_
    have hx := wellFormed_unpack x
    cases h : x.toModel.unpack <;> rw [h] at hx <;> exact hx
  show Float.ofModel (pack (pack x.toModel.unpack.neg).unpack.abs) = Float.ofModel (pack _)
  rw [hopposite]
  cases x.toModel.unpack <;> rfl

/-- Infinity times a finite number that is not negative is infinity, or no number when that is zero. -/
theorem top_mul_cases (hc : IsFinite c) (hnonneg : 0 ≤ toReal c) :
    (Bounded.top : Float) * c = Bounded.top ∨ toReal c = 0 ∧ IsNaN ((Bounded.top : Float) * c) := by
  have hproduct : (Bounded.top : Float) * c =
      Float.ofModel (pack ((UnpackedFloat.infinity .positive).mul _ c.toModel.unpack)) := rfl
  obtain ⟨s, m, e, -, -, hform, hvalue, -⟩ := exists_unpack_eq hc
  rw [hproduct, hform]
  rcases m.eq_zero_or_pos with rfl | hm
  · refine .inr ⟨by rw [hvalue, size_zero, signed_zero], ?_⟩
    exact (isNaN_ofModel_pack _).2 rfl
  · rw [ofMagnitude_of_pos s hm]
    cases s with
    | positive => exact .inl rfl
    | negative =>
      rw [hvalue] at hnonneg
      exact absurd hnonneg (not_le.2 (neg_neg_of_pos (size_pos hm e)))

/-- **Fractions of sizes grow with them.** Only a fraction of nothing makes an exception: it leaves zero of
a finite size and no number of the infinite one. -/
theorem abs_mul_le_or (hc : IsFinite c) (hnonneg : 0 ≤ toReal c) (hle : Scalar.abs x ≤ Scalar.abs y)
    (hnumber : Scalar.abs x * c ≤ Scalar.abs x * c) :
    Scalar.abs x * c ≤ Scalar.abs y * c ∨ Scalar.abs x * c ≤ 0 := by
  obtain ⟨hx, hy⟩ := LawfulBounds.le_self_of_le hle
  rcases abs_cases ((abs_le_self_iff y).1 hy) with hyfin | hytop
  · rcases abs_cases ((abs_le_self_iff x).1 hx) with hxfin | hxtop
    · exact .inl (mul_le_mul_of_toReal_nonneg hxfin hyfin hc hnonneg hle)
    · have hbelow : (Bounded.top : Float) ≤ Scalar.abs y := hxtop ▸ hle
      have htop := isFinite_of_le_of_le isFinite_zero hyfin (LawfulBounds.le_top isFinite_zero.1) hbelow
      exact absurd htop (by decide)
  · rw [hytop]
    rcases top_mul_cases hc hnonneg with htop | ⟨hzero, hnan⟩
    · exact .inl (htop.symm ▸ LawfulBounds.le_top hnumber)
    · rcases abs_cases ((abs_le_self_iff x).1 hx) with hxfin | hxtop
      · have hproduct := roundsToNearest_mul hxfin hc
        rw [hzero, mul_zero] at hproduct
        exact .inr ((le_iff_value? _ _).2 ⟨0, hproduct.value?_eq_zero, 0, rfl, le_rfl⟩)
      · exact absurd (hxtop ▸ hnumber) hnan

end Binary64

namespace Options

open Binary64

/-! ## Options that can be used -/

/-- What a tolerance can be: a finite number that is not negative. -/
def IsTolerance (v : Float) : Prop := IsFinite v ∧ 0 ≤ v

instance (v : Float) : Decidable (IsTolerance v) :=
  inferInstanceAs (Decidable (_ ∧ _))

theorem isTolerance_iff (v : Float) : IsTolerance v ↔ NumericFault.ofSize? v = none := by
  rw [NumericFault.ofSize?_eq_none_iff, IsNaN, not_not, ← and_assoc]
  refine and_congr_right fun hv => ?_
  rw [isFinite_zero.le_iff hv, ← not_lt, IsFinite.lt_iff hv isFinite_zero]

theorem IsTolerance.zero_le_toReal {v : Float} (h : IsTolerance v) : 0 ≤ toReal v :=
  (isFinite_zero.le_iff h.1).1 h.2

/-- Options that a plot on doubles can use. -/
structure Usable (o : Options Float) : Prop where
  /-- The tolerance as a length is one. -/
  length : IsTolerance o.arcTolerance
  /-- The tolerance as a fraction is one. -/
  fraction : IsTolerance o.arcRelativeTolerance
  /-- At most 15 decimal places are kept. -/
  places : o.precision ≤ 15

section Tolerance

variable {o : Options Float} {r s : Float}

/-- **Options that can be had can be used.** -/
theorem Built.usable (ho : o.Built) : o.Usable := by
  have hvalid := ho.valid standard_valid_float
  exact ⟨(isTolerance_iff _).2 hvalid.length, (isTolerance_iff _).2 hvalid.fraction, hvalid.places⟩

/-- All values given at once are accepted when options with them can be used. -/
theorem exists_make_eq_ok_iff (length fraction : Float) (places : UInt32) :
    (∃ o, make length fraction places = .ok o) ↔
      IsTolerance length ∧ IsTolerance fraction ∧ places ≤ 15 := by
  rw [isTolerance_iff, isTolerance_iff]
  constructor
  · rintro ⟨o, h⟩
    exact (make_eq_ok_iff.1 h).1
  · intro haccepted
    exact ⟨_, make_eq_ok_iff.2 ⟨haccepted, rfl⟩⟩

/-! ## Tolerances for radii -/

/-- The tolerance for a radius is at most some bound when both of its parts are. -/
theorem Built.toleranceFor_le_iff (ho : o.Built) (c : Float) :
    o.toleranceFor r ≤ c ↔ o.arcTolerance ≤ c ∧
      (Scalar.abs r * o.arcRelativeTolerance ≤ Scalar.abs r * o.arcRelativeTolerance →
        Scalar.abs r * o.arcRelativeTolerance ≤ c) :=
  Axis.right.further_atMost_iff ho.arcTolerance_le_self

/-- The tolerance for a radius is at least the length, whatever the radius is. -/
theorem Built.arcTolerance_le_toleranceFor (ho : o.Built) (r : Float) :
    o.arcTolerance ≤ o.toleranceFor r :=
  ((ho.toleranceFor_le_iff _).1 (ho.toleranceFor_le_self r)).1

/-- No tolerance is negative. -/
theorem Built.zero_le_toleranceFor (ho : o.Built) (r : Float) : 0 ≤ o.toleranceFor r :=
  LawfulBounds.le_trans ho.usable.length.2 (ho.arcTolerance_le_toleranceFor r)

/-- The tolerance for a radius does not exceed it when the tolerance as a length does not and the one as a
fraction is no more than the whole. -/
theorem Built.toleranceFor_le (ho : o.Built) (hr : IsFinite r) (hlength : o.arcTolerance ≤ r)
    (hfraction : o.arcRelativeTolerance ≤ 1) : o.toleranceFor r ≤ r := by
  have hfinite := ho.usable.fraction.1
  have hradius : 0 ≤ toReal r :=
    (isFinite_zero.le_iff hr).1 (LawfulBounds.le_trans ho.usable.length.2 hlength)
  have hfraction' : toReal o.arcRelativeTolerance ≤ 1 :=
    toReal_one ▸ (hfinite.le_iff isFinite_one).1 hfraction
  have hproduct := rounds_mul hr.abs.1 hfinite
  rw [hr.abs.2, abs_of_nonneg hradius] at hproduct
  refine (ho.toleranceFor_le_iff r).2 ⟨hlength, fun _ => (hproduct r hr).1 ?_⟩
  exact mul_le_of_le_one_right hradius hfraction'

/-- **The tolerance does not fall as radii grow**, from the finite ones to the infinite one, too. -/
theorem Built.toleranceFor_mono (ho : o.Built) (hle : Scalar.abs r ≤ Scalar.abs s) :
    o.toleranceFor r ≤ o.toleranceFor s := by
  have hfraction := ho.usable.fraction
  obtain ⟨hlength, hproduct⟩ := (ho.toleranceFor_le_iff _).1 (ho.toleranceFor_le_self s)
  refine (ho.toleranceFor_le_iff _).2 ⟨hlength, fun hnumber => ?_⟩
  rcases abs_mul_le_or hfraction.1 hfraction.zero_le_toReal hle hnumber with hgrow | hnothing
  · exact LawfulBounds.le_trans hgrow (hproduct (LawfulBounds.le_self_of_le hgrow).2)
  · exact LawfulBounds.le_trans hnothing (ho.zero_le_toleranceFor s)

end Tolerance

/-! ## Any calls -/

/-- **Whatever calls are made, the options that they leave can be used**, with all values given at once
exactly when each of them is allowed, and then as if they were set one after the other in any order. The
tolerance for a radius is a number that is not below the length; only the size of the radius counts, and
the tolerance does not fall as it grows. -/
theorem usable_after :
    (∀ settings : List (Setting Float), (after settings).Usable) ∧
    (∀ (length fraction : Float) (places : UInt32),
      ((∃ o, make length fraction places = .ok o) ↔
        IsTolerance length ∧ IsTolerance fraction ∧ places ≤ 15) ∧
      ∀ o, make length fraction places = .ok o → ∀ settings : List (Setting Float),
        settings.Perm [.arcTolerance length, .arcRelativeTolerance fraction, .precision places] →
          ∀ before : Options Float, settings.foldlM Setting.apply before = .ok o) ∧
    ∀ (settings : List (Setting Float)) (r : Float),
      ¬ IsNaN ((after settings).toleranceFor r) ∧
      (after settings).arcTolerance ≤ (after settings).toleranceFor r ∧
      (after settings).toleranceFor (-r) = (after settings).toleranceFor r ∧
      (∀ s, Scalar.abs r = Scalar.abs s →
        (after settings).toleranceFor r = (after settings).toleranceFor s) ∧
      ∀ s, Scalar.abs r ≤ Scalar.abs s →
        (after settings).toleranceFor r ≤ (after settings).toleranceFor s := by
  have hsize : ∀ (o : Options Float) (r s : Float), Scalar.abs r = Scalar.abs s →
      o.toleranceFor r = o.toleranceFor s := fun o r s h => by rw [toleranceFor, h, toleranceFor]
  refine ⟨fun settings => (built_after settings).usable, fun length fraction places => ⟨?_, ?_⟩,
    fun settings r => ⟨?_, ?_, ?_, ?_, ?_⟩⟩
  · exact exists_make_eq_ok_iff length fraction places
  · exact fun o h settings hperm before => foldlM_apply_of_perm h hperm before
  · exact not_not.2 ((built_after settings).toleranceFor_le_self r)
  · exact (built_after settings).arcTolerance_le_toleranceFor r
  · exact hsize _ _ _ (abs_neg r)
  · exact hsize _ r
  · exact fun s => (built_after settings).toleranceFor_mono

/-- Calls of which the last two are refused. -/
def refused : List (Setting Float) :=
  [.all 0.5 0 3, .arcRelativeTolerance (0.0 / 0.0), .precision 16]

/-- The options before refused calls are kept; a fraction of nothing leaves the length for all radii, the
infinite one included. -/
theorem usable_after_refused : (after refused).Usable ∧ after refused = ⟨0.5, 0, 3⟩ ∧
    make 0.5 0 3 = .ok (⟨0.5, 0, 3⟩ : Options Float) ∧
    [.precision 3, .arcTolerance 0.5, .arcRelativeTolerance 0].foldlM Setting.apply
      ⟨-1, 0.0 / 0.0, 40⟩ = .ok (⟨0.5, 0, 3⟩ : Options Float) ∧
    Scalar.abs (-2) = Scalar.abs (2 : Float) ∧
    (after refused).toleranceFor (-2) = (after refused).toleranceFor 2 ∧
    Scalar.abs (2 : Float) ≤ Scalar.abs Bounded.bottom ∧
    (after refused).toleranceFor 2 ≤ (after refused).toleranceFor Bounded.bottom := by
  obtain ⟨husable, hmake, htolerance⟩ := usable_after
  obtain ⟨-, -, -, hsize, hmono⟩ := htolerance refused 2
  have hall : make 0.5 0 3 = .ok (⟨0.5, 0, 3⟩ : Options Float) := rfl
  have hperm : [Setting.precision 3, .arcTolerance (0.5 : Float), .arcRelativeTolerance 0].Perm
      [.arcTolerance 0.5, .arcRelativeTolerance 0, .precision 3] :=
    (List.perm_append_singleton (Setting.precision 3) _).symm
  have habs : Scalar.abs (-2) = Scalar.abs (2 : Float) := abs_neg 2
  have hle : Scalar.abs (2 : Float) ≤ Scalar.abs Bounded.bottom := by decide
  exact ⟨husable refused, rfl, hall, (hmake 0.5 0 3).2 _ hall _ hperm _, habs,
    (hsize _ habs.symm).symm, hle, hmono _ hle⟩

end Options

end Photoplot
