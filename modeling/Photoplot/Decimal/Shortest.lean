import Photoplot.Decimal

/-!
# Shortest decimals

The fewest decimal digits that still read back as a binary number. A positive number `m * 2 ^ q`
owns the interval of reals that round to it. A decimal of the grid with step `10 ^ k` reads back
exactly when it lies in that interval, and if any does, one of the two neighbours of the number on
that grid does. So the coarsest grid on which a neighbour reads back gives the fewest digits, and
the nearer of the neighbours that do is the decimal.
-/

namespace Photoplot.Decimal

/-- A positive binary number with the interval of the reals that round to it, all in units of
`2 ^ unit`. -/
structure Interval where
  /-- The lower end. -/
  low : Nat
  /-- The number itself. -/
  value : Nat
  /-- The upper end. -/
  high : Nat
  /-- Whether both ends belong to the interval. -/
  closed : Bool
  /-- The exponent of the unit. -/
  unit : Int

namespace Interval

/-- The interval of `m * 2 ^ q`. At the start of a binade the numbers below lie twice as dense, so
the lower end is nearer there. Ties go to even mantissas, so the ends belong to the interval of an
even one. -/
def around (m : Nat) (q : Int) (atBinade : Bool) : Interval where
  low := if atBinade then 4 * m - 1 else 4 * m - 2
  value := 4 * m
  high := 4 * m + 2
  closed := m % 2 == 0
  unit := q - 2

/-- The unit of the interval and the step `10 ^ k`, both brought to whole numbers by one common
factor. -/
def scale (i : Interval) (k : Int) : Nat × Nat :=
  (1 <<< i.unit.toNat * Nat.pow 10 (-k).toNat, 1 <<< (-i.unit).toNat * Nat.pow 10 k.toNat)

/-- Whether a point lies in the interval, both measured on the scale on which the unit of the
interval has the given size. -/
def contains (i : Interval) (unit point : Nat) : Bool :=
  if i.closed then i.low * unit ≤ point && point ≤ i.high * unit
  else i.low * unit < point && point < i.high * unit

/-- The neighbour of the number on the grid with step `10 ^ k` that lies in its interval, if any;
of two the nearer, and the upper one when both are equally near. -/
def onGrid? (i : Interval) (k : Int) : Option Decimal :=
  let (unit, step) := i.scale k
  let below := i.value * unit / step
  let above := below + 1
  let lowerFits := i.contains unit (below * step)
  let upperFits := i.contains unit (above * step)
  let lowerNearer := i.value * unit - below * step < above * step - i.value * unit
  if lowerFits && (lowerNearer || !upperFits) then some ⟨below, k⟩
  else if upperFits then some ⟨above, k⟩
  else none

/-- What is found on a grid belongs to that grid and reads back. -/
theorem contains_of_onGrid? {i : Interval} {k : Int} {d : Decimal} (h : i.onGrid? k = some d) :
    d.exponent = k ∧ i.contains (i.scale k).1 (d.digits * (i.scale k).2) = true := by
  simp only [onGrid?] at h
  split at h
  · next hb =>
    obtain rfl := Option.some.inj h
    exact ⟨rfl, (Bool.and_eq_true_iff.1 hb).1⟩
  · split at h
    · next ha =>
      obtain rfl := Option.some.inj h
      exact ⟨rfl, ha⟩
    · simp at h

end Interval

/-- An exponent whose power of ten exceeds `m * 2 ^ q`, at most two above the one of its leading
digit. -/
def topExponent (m : Nat) (q : Int) : Int :=
  (m.log2 + 1 + q) * 30103 / 100000 + 1

/-- The shortest decimal that reads back as `m * 2 ^ q`, searched from the coarsest grid down.
Twenty grids reach from above the number to its seventeenth digit, where a neighbour always reads
back. -/
def shortest (m : Nat) (q : Int) (atBinade : Bool) : Decimal :=
  let i := Interval.around m q atBinade
  ((List.range 20).findSome? fun (n : Nat) => i.onGrid? (topExponent m q - n)).getD ⟨m, 0⟩

end Photoplot.Decimal
