import Photoplot.Scalar

/-!
# Double-precision numbers

`Float` as the number type of the plotter. The four operations, the square root and the order are
the ones of the type itself; the remainder and the rounding to whole numbers are computed here on
the exact value `m * 2 ^ e` of a finite number, so that both have definitions that can be unfolded.

* `Binary64.remainder`: exact, because the remainder of two doubles is a double;
* `Binary64.roundHalfAway`: halves go away from zero, and the sign of zero is kept.
-/

namespace Photoplot

namespace Binary64

open Float.Model

/-! ## Numbers from their parts -/

/-- The double nearest to `m * 2 ^ e` with the given sign. -/
def ofParts (sign : UnpackedFloat.Sign) (m : Nat) (e : Int) : Float :=
  Float.ofModel (pack (UnpackedFloat.round Format.binary64 sign m e))

/-- The zero of the given sign. -/
def zero (sign : UnpackedFloat.Sign) : Float :=
  Float.ofModel (pack (.zero sign))

/-- The value that is no number. -/
def notANumber : Float :=
  Float.ofModel (pack .notANumber)

/-! ## Remainders -/

/-- `m * 2 ^ e` counted in units of `2 ^ unit`, for a `unit` that is at most `e`. -/
def inUnits (m : Nat) (e unit : Int) : Nat :=
  m <<< (e - unit).toNat

/-- The remainder of `m * 2 ^ e` by `n * 2 ^ f`, with the sign of the dividend. -/
def remainderParts (sign : UnpackedFloat.Sign) (m : Nat) (e : Int) (n : Nat) (f : Int) : Float :=
  let unit := min e f
  let r := inUnits m e unit % inUnits n f unit
  if r = 0 then zero sign else ofParts sign r unit

/-- The remainder of a division whose quotient is cut toward zero. It is exact and has the sign of
the dividend; an infinite dividend and a zero divisor leave none. -/
def remainder (x y : Float) : Float :=
  match x.toModel.unpack, y.toModel.unpack with
  | .finite sign m e _, .finite _ n f _ => remainderParts sign m e n f
  | .finite .., .infinity _ => x
  | .zero _, .finite .. => x
  | .zero _, .infinity _ => x
  | _, _ => notANumber

/-! ## Rounding to whole numbers -/

/-- The whole number nearest to `m / 2 ^ k`, a half going up. -/
def nearestWhole (m k : Nat) : Nat :=
  (2 * m + 1 <<< k) / (2 <<< k)

/-- The nearest whole number, halves going away from zero. A result of zero keeps the sign of the
argument, and infinities and invalid numbers stay as they are. -/
def roundHalfAway (x : Float) : Float :=
  match x.toModel.unpack with
  | .finite sign m e _ =>
    if 0 ≤ e then x
    else
      let n := nearestWhole m (-e).toNat
      if n = 0 then zero sign else ofParts sign n 0
  | _ => x

/-- A whole number is its own nearest. -/
theorem nearestWhole_shiftLeft (n k : Nat) : nearestWhole (n <<< k) k = n := by
  have h : 0 < 1 <<< k := by
    rw [Nat.shiftLeft_eq, Nat.one_mul]
    exact Nat.two_pow_pos k
  have h2 : 2 <<< k = 2 * 1 <<< k := by simp [Nat.shiftLeft_eq]
  have hn : n <<< k = n * 1 <<< k := by simp [Nat.shiftLeft_eq]
  unfold nearestWhole
  rw [h2, hn]
  generalize 1 <<< k = d at h
  rw [show 2 * (n * d) + d = d + (2 * d) * n by
    rw [Nat.mul_comm n d, ← Nat.mul_assoc, Nat.add_comm], Nat.add_mul_div_left _ _ (by omega),
    Nat.div_eq_of_lt (by omega), Nat.zero_add]

end Binary64

/-! ## The instance -/

instance : Scalar Float where
  zero := Float.ofNat 0
  one := Float.ofNat 1
  natCast := Float.ofNat
  decidableLE := Float.decLe
  decidableLT := Float.decLt
  abs := Float.abs
  sqrt := Float.sqrt
  sin := Float.sin
  cos := Float.cos
  atan2 := Float.atan2
  pi := 3.141592653589793
  truncMod := Binary64.remainder
  roundHalfAway := Binary64.roundHalfAway
  isInfinite := Float.isInf

end Photoplot
