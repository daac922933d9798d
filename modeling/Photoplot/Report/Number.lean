import Photoplot.Decimal.Shortest
import Photoplot.Decimal.Fixed

/-!
# Numbers in reports

How a double-precision number is written: `number` for lengths and coordinates, `angle` for angles.
Both write a minus sign before every negative number, negative zero included, and no sign before
the value that is no number.
-/

namespace Photoplot.Report

open Float.Model

/-- The mark of a sign: a minus sign, or nothing. -/
def signMark : UnpackedFloat.Sign → String
  | .positive => ""
  | .negative => "-"

/-- Whether `m * 2 ^ q`, as a double is unpacked, starts a binade whose lower neighbours lie twice
as dense: the least full mantissa, above the least exponent. -/
def startsBinade (m : Nat) (q : Int) : Bool :=
  m == 4503599627370496 && -1074 < q

/-- The text of a number, given how the size of a finite one is written. -/
def signed (zero : String) (finite : Nat → Int → Decimal) (x : Float) : String :=
  match x.toModel.unpack with
  | .notANumber => "NaN"
  | .infinity sign => signMark sign ++ "inf"
  | .zero sign => signMark sign ++ zero
  | .finite sign m q _ => signMark sign ++ (finite m q).text

/-- The fewest digits that read back as the number, with no exponent, and with no point in a whole
number. -/
def number (x : Float) : String :=
  signed "0" (fun m q => Decimal.shortest m q (startsBinade m q)) x

/-- The number rounded to twelve places, ties to even. -/
def angle (x : Float) : String :=
  signed "0.000000000000" (Decimal.fixed 12) x

end Photoplot.Report
