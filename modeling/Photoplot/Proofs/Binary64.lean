import Mathlib
import Photoplot.Binary64
import Photoplot.Proofs.Bounds

/-!
# Doubles as bounds

The order of doubles is one of numbers, to which the value that is no number does not belong, and
both zeros are one number in it.

* `Binary64.position?`: the place of a double on the line, which decides the order;
* `Binary64.le_iff`, `Binary64.lt_iff`: **doubles are ordered as their places are**;
* `Binary64.agrees_of_zeros`: what an operation makes of the same number is the same number, if only
  it makes zeros or one result of both zeros;
* `Box.bound_ofCircle_agrees`: circles of radii that are the same number have the same box.
-/

namespace Photoplot

namespace Binary64

open Float.Model

/-! ## Places on the line -/

/-- The place of an unpacked double on the line, if it has one: infinities, negative numbers, zeros
and positive numbers first, then sizes by exponent and mantissa. Both zeros share one place. -/
def position? : UnpackedFloat → Option (ℤ ×ₗ ℤ ×ₗ ℤ)
  | .infinity .negative => some (toLex (-2, toLex (0, 0)))
  | .finite .negative m e _ => some (toLex (-1, toLex (-e, -m)))
  | .zero _ => some (toLex (0, toLex (0, 0)))
  | .finite .positive m e _ => some (toLex (1, toLex (e, m)))
  | .infinity .positive => some (toLex (2, toLex (0, 0)))
  | .notANumber => none

theorem isLE_then_compare_iff (e f : ℤ) (m n : ℕ) :
    ((compare e f).then (compare m n)).isLE = true ↔ e < f ∨ e = f ∧ m ≤ n := by
  rw [Ordering.isLE_then_iff_or]
  grind [Int.compare_eq_lt, Int.compare_eq_eq, Nat.isLE_compare]

theorem isGE_then_compare_iff (e f : ℤ) (m n : ℕ) :
    ((compare e f).then (compare m n)).isGE = true ↔ f < e ∨ e = f ∧ n ≤ m := by
  rw [← Ordering.isLE_swap, Ordering.swap_then, ← Std.OrientedOrd.eq_swap,
    ← Std.OrientedOrd.eq_swap, isLE_then_compare_iff, eq_comm]

/-- Unpacked doubles are ordered as their places are. -/
theorem unpacked_le_iff (a b : UnpackedFloat) :
    a.le b = true ↔ ∃ p ∈ position? a, ∃ q ∈ position? b, p ≤ q := by
  rcases a with s | _ | s | ⟨s, m, e, hm⟩ <;> rcases b with t | _ | t | ⟨t, n, f, hn⟩
  case infinity.infinity =>
    cases s <;> cases t <;> simp [UnpackedFloat.le, position?, Prod.Lex.toLex_le_toLex] <;> decide
  case finite.finite =>
    cases s <;> cases t <;>
      simp [UnpackedFloat.le, UnpackedFloat.compare, position?, Prod.Lex.toLex_le_toLex,
        isLE_then_compare_iff, isGE_then_compare_iff]
  -- elsewhere the kinds and signs of the two decide
  all_goals
    (try cases s) <;> (try cases t) <;>
      simp [UnpackedFloat.le, UnpackedFloat.compare, position?, Prod.Lex.toLex_le_toLex]

/-- **Doubles are ordered as their places are.** -/
theorem le_iff (x y : Float) :
    x ≤ y ↔ ∃ p ∈ position? x.toModel.unpack, ∃ q ∈ position? y.toModel.unpack, p ≤ q := by
  rw [← unpacked_le_iff]
  show decide _ = true ↔ _
  rw [decide_eq_true_iff]
  exact Iff.rfl

theorem lt_then_compare_iff (e f : ℤ) (m n : ℕ) :
    (compare e f).then (compare m n) = .lt ↔ e < f ∨ e = f ∧ m < n := by
  rw [Ordering.then_eq_lt]
  grind [Int.compare_eq_lt, Int.compare_eq_eq, Nat.compare_eq_lt]

theorem gt_then_compare_iff (e f : ℤ) (m n : ℕ) :
    (compare e f).then (compare m n) = .gt ↔ f < e ∨ e = f ∧ n < m := by
  rw [Ordering.then_eq_gt]
  grind [Int.compare_eq_gt, Int.compare_eq_eq, Nat.compare_eq_gt]

/-- Unpacked doubles are strictly ordered as their places are. -/
theorem unpacked_lt_iff (a b : UnpackedFloat) :
    a.lt b = true ↔ ∃ p ∈ position? a, ∃ q ∈ position? b, p < q := by
  rcases a with s | _ | s | ⟨s, m, e, hm⟩ <;> rcases b with t | _ | t | ⟨t, n, f, hn⟩
  case infinity.infinity =>
    cases s <;> cases t <;>
      simp [UnpackedFloat.lt, UnpackedFloat.compare, position?, Prod.Lex.toLex_lt_toLex]
    decide
  case finite.finite =>
    cases s <;> cases t <;>
      simp [UnpackedFloat.lt, UnpackedFloat.compare, position?, Prod.Lex.toLex_lt_toLex,
        lt_then_compare_iff, gt_then_compare_iff]
  all_goals
    (try cases s) <;> (try cases t) <;>
      simp [UnpackedFloat.lt, UnpackedFloat.compare, position?, Prod.Lex.toLex_lt_toLex]

theorem le_self_iff (x : Float) : x ≤ x ↔ ∃ p, position? x.toModel.unpack = some p := by
  rw [le_iff]
  constructor
  · rintro ⟨p, hp, -⟩
    exact ⟨p, hp⟩
  · rintro ⟨p, hp⟩
    exact ⟨p, hp, p, hp, le_rfl⟩

theorem lt_iff (x y : Float) :
    x < y ↔ ∃ p ∈ position? x.toModel.unpack, ∃ q ∈ position? y.toModel.unpack, p < q := by
  rw [← unpacked_lt_iff]
  show decide _ = true ↔ _
  rw [decide_eq_true_iff]
  exact Iff.rfl

/-- Only numbers are strictly ordered, and among them the order is total. -/
theorem lt_iff_not_le (x y : Float) : x < y ↔ (x ≤ x ∧ y ≤ y) ∧ ¬ y ≤ x := by
  rw [lt_iff, le_self_iff, le_self_iff, le_iff]
  cases position? x.toModel.unpack <;> cases position? y.toModel.unpack <;> simp

/-- Every place lies between those of the infinities. -/
theorem position?_mem_Icc {a : UnpackedFloat} {p : ℤ ×ₗ ℤ ×ₗ ℤ} (h : position? a = some p) :
    toLex (-2, toLex (0, 0)) ≤ p ∧ p ≤ toLex (2, toLex (0, 0)) := by
  rcases a with s | _ | s | ⟨s, m, e, hm⟩ <;> (try cases s) <;> cases h <;>
    simp [Prod.Lex.toLex_le_toLex]

theorem position?_bottom :
    position? (Bounded.bottom : Float).toModel.unpack = some (toLex (-2, toLex (0, 0))) := rfl

theorem position?_top :
    position? (Bounded.top : Float).toModel.unpack = some (toLex (2, toLex (0, 0))) := rfl

end Binary64

/-- Doubles are bounds among which the infinities are the ends. -/
instance : LawfulBounds Float where
  le_self_of_le {a b} h := by
    obtain ⟨p, hp, q, hq, -⟩ := (Binary64.le_iff a b).1 h
    exact ⟨(Binary64.le_self_iff a).2 ⟨p, hp⟩, (Binary64.le_self_iff b).2 ⟨q, hq⟩⟩
  le_trans {a b c} hab hbc := by
    obtain ⟨p, hp, q, hq, hpq⟩ := (Binary64.le_iff a b).1 hab
    obtain ⟨q', hq', r, hr, hqr⟩ := (Binary64.le_iff b c).1 hbc
    obtain rfl : q = q' := Option.some.inj (hq.symm.trans hq')
    exact (Binary64.le_iff a c).2 ⟨p, hp, r, hr, hpq.trans hqr⟩
  le_or_le {a b} ha hb := by
    obtain ⟨p, hp⟩ := (Binary64.le_self_iff a).1 ha
    obtain ⟨q, hq⟩ := (Binary64.le_self_iff b).1 hb
    rcases le_total p q with hpq | hqp
    · exact .inl ((Binary64.le_iff a b).2 ⟨p, hp, q, hq, hpq⟩)
    · exact .inr ((Binary64.le_iff b a).2 ⟨q, hq, p, hp, hqp⟩)
  bottom_le {a} ha := by
    obtain ⟨p, hp⟩ := (Binary64.le_self_iff a).1 ha
    exact (Binary64.le_iff _ a).2
      ⟨_, Binary64.position?_bottom, p, hp, (Binary64.position?_mem_Icc hp).1⟩
  le_top {a} ha := by
    obtain ⟨p, hp⟩ := (Binary64.le_self_iff a).1 ha
    exact (Binary64.le_iff a _).2
      ⟨p, hp, _, Binary64.position?_top, (Binary64.position?_mem_Icc hp).2⟩
  bottom_le_top := (Binary64.le_iff _ _).2
    ⟨_, Binary64.position?_bottom, _, Binary64.position?_top, by simp [Prod.Lex.toLex_le_toLex]⟩

/-! ## Operations on the same number -/

namespace Binary64

open Float.Model

/-- Only zeros share a place. -/
theorem eq_or_zeros_of_position? {a b : UnpackedFloat} {p : ℤ ×ₗ ℤ ×ₗ ℤ}
    (ha : position? a = some p) (hb : position? b = some p) :
    a = b ∨ ∃ s t, a = .zero s ∧ b = .zero t := by
  -- the first part of a place tells kind and sign, the others exponent and mantissa
  rcases a with s | _ | s | ⟨s, m, e, hm⟩ <;> (try cases s) <;> cases ha <;>
    rcases b with t | _ | t | ⟨t, n, f, hn⟩ <;> (try cases t) <;>
      simp_all [position?]

/-- The same number unpacks to the same thing or to zeros. -/
theorem eq_or_zeros_of_sameNumber {x y : Float} (h : SameNumber x y) :
    x.toModel.unpack = y.toModel.unpack ∨
      ∃ s t, x.toModel.unpack = .zero s ∧ y.toModel.unpack = .zero t := by
  obtain ⟨p, hp, q, hq, hpq⟩ := (le_iff x y).1 h.1
  obtain ⟨q', hq', p', hp', hqp⟩ := (le_iff y x).1 h.2
  obtain rfl : p = p' := Option.some.inj (hp.symm.trans hp')
  obtain rfl : q = q' := Option.some.inj (hq.symm.trans hq')
  obtain rfl := le_antisymm hpq hqp
  exact eq_or_zeros_of_position? hp hq

/-- Both zeros are one number. -/
theorem sameNumber_zero (s t : UnpackedFloat.Sign) : SameNumber (zero s) (zero t) := by
  cases s <;> cases t <;> decide

/-- What an operation makes of numbers that agree agrees again, if that is so for both zeros. -/
theorem agrees_of_zeros (f : UnpackedFloat → UnpackedFloat)
    (hzeros : ∀ s t, f (.zero s) = f (.zero t) ∨
      ∃ s' t', f (.zero s) = .zero s' ∧ f (.zero t) = .zero t')
    {x y : Float} (h : Agrees x y) :
    Agrees (Float.ofModel (pack (f x.toModel.unpack)))
      (Float.ofModel (pack (f y.toModel.unpack))) := by
  rcases h with rfl | hsame
  · exact .refl _
  · rcases eq_or_zeros_of_sameNumber hsame with heq | ⟨s, t, hx, hy⟩
    · rw [heq]
      exact .refl _
    · rw [hx, hy]
      rcases hzeros s t with heq | ⟨s', t', hs, ht⟩
      · rw [heq]
        exact .refl _
      · rw [hs, ht]
        exact .inr (sameNumber_zero s' t')

end Binary64

section Operations

open Float.Model

variable {a b : Float}

theorem Agrees.half (h : Agrees a b) : Agrees (a / 2.0) (b / 2.0) := by
  refine Binary64.agrees_of_zeros (fun u => u.div Format.binary64 (2.0 : Float).toModel.unpack) ?_ h
  intro s t
  exact .inr ⟨_, _, rfl, rfl⟩

theorem Agrees.add (h : Agrees a b) (x : Float) : Agrees (x + a) (x + b) := by
  refine Binary64.agrees_of_zeros (fun u => x.toModel.unpack.add Format.binary64 u) ?_ h
  intro s t
  cases x.toModel.unpack with
  | zero r => cases r <;> cases s <;> cases t <;> exact .inr ⟨_, _, rfl, rfl⟩
  | _ => exact .inl rfl

theorem Agrees.sub (h : Agrees a b) (x : Float) : Agrees (x - a) (x - b) := by
  refine Binary64.agrees_of_zeros (fun u => x.toModel.unpack.sub Format.binary64 u) ?_ h
  intro s t
  cases x.toModel.unpack with
  | zero r => cases r <;> cases s <;> cases t <;> exact .inr ⟨_, _, rfl, rfl⟩
  | _ => exact .inl rfl

/-- Circles around one center have boxes that agree when their radii do. -/
theorem Box.bound_ofCircle_agrees (center : Point Float) (h : Agrees a b) (axis : Axis) :
    Agrees ((ofCircle center a : Box Float).bound axis)
      ((ofCircle center b : Box Float).bound axis) := by
  cases axis with
  | right => exact h.add center.x
  | up => exact h.add center.y
  | left => exact h.sub center.x
  | down => exact h.sub center.y

end Operations

end Photoplot
