/-!
# Numbers

The number type in which plots are computed, as a class, so that one development serves the
double-precision numbers that a plotter runs on and any other number type in which its geometry
is studied.

* `Scalar`: the operations that the geometry needs, and nothing about how they round;
* `lesser`, `greater`: the two bounds of a pair, which pass over an operand that is not comparable
  with itself;
* `SameNumber`, `IsNaN`: equality and invalidity read off the order;
* `Scalar.power`, `Scalar.modulo`: powers by repeated squaring, remainders that are not negative.
-/

namespace Photoplot

/-- A number type in which plots are computed. -/
class Scalar (α : Type) extends Zero α, One α, Add α, Sub α, Mul α, Div α, Neg α, NatCast α,
    OfScientific α, LE α, LT α where
  /-- The order can be tested. -/
  decidableLE : DecidableLE α
  /-- The strict order can be tested. -/
  decidableLT : DecidableLT α
  /-- The number without its sign. -/
  abs : α → α
  /-- The square root that is not negative. -/
  sqrt : α → α
  /-- The sine of an angle in radians. -/
  sin : α → α
  /-- The cosine of an angle in radians. -/
  cos : α → α
  /-- The angle of the vector whose ordinate comes first and whose abscissa comes second. -/
  atan2 : α → α → α
  /-- Half a turn in radians. -/
  pi : α
  /-- The remainder of a division whose quotient is cut toward zero. -/
  truncMod : α → α → α
  /-- The nearest whole number, halves going away from zero. -/
  roundHalfAway : α → α
  /-- Whether a number lies beyond all finite ones. -/
  isInfinite : α → Bool

instance Scalar.instDecidableLE {α : Type} [Scalar α] : DecidableLE α := Scalar.decidableLE

instance Scalar.instDecidableLT {α : Type} [Scalar α] : DecidableLT α := Scalar.decidableLT

/-! ## Comparisons -/

section Order

variable {β : Type} [LE β]

/-- The lesser of two bounds; one that is not comparable with itself gives way to the other. -/
def lesser [DecidableLE β] (a b : β) : β :=
  if a ≤ b then a else if b ≤ a then b else if a ≤ a then a else b

/-- The greater of two bounds; one that is not comparable with itself gives way to the other. -/
def greater [DecidableLE β] (a b : β) : β :=
  if b ≤ a then a else if a ≤ b then b else if a ≤ a then a else b

/-- Equality of numbers as the order sees it: both zeros are one number. -/
def SameNumber (a b : β) : Prop := a ≤ b ∧ b ≤ a

instance [DecidableLE β] (a b : β) : Decidable (SameNumber a b) :=
  inferInstanceAs (Decidable (_ ∧ _))

theorem SameNumber.symm {a b : β} (h : SameNumber a b) : SameNumber b a := ⟨h.2, h.1⟩

/-- A number that the order does not compare with itself. -/
def IsNaN (a : β) : Prop := ¬ a ≤ a

instance [DecidableLE β] (a : β) : Decidable (IsNaN a) :=
  inferInstanceAs (Decidable (¬ _))

theorem lesser_self [DecidableLE β] (a : β) : lesser a a = a := by
  simp [lesser]

theorem greater_self [DecidableLE β] (a : β) : greater a a = a := by
  simp [greater]

end Order

/-- The first of the entries whose key is least, an entry replacing an earlier one only when its
key is strictly smaller. -/
def leastBy {β κ : Type} [LT κ] [DecidableLT κ] (key : β → κ) : List β → Option β
  | [] => none
  | b :: bs => some (bs.foldl (fun best c => if key c < key best then c else best) b)

@[simp] theorem leastBy_nil {β κ : Type} [LT κ] [DecidableLT κ] (key : β → κ) :
    leastBy key [] = none := rfl

theorem leastBy_eq_none_iff {β κ : Type} [LT κ] [DecidableLT κ] (key : β → κ) (bs : List β) :
    leastBy key bs = none ↔ bs = [] := by
  cases bs <;> simp [leastBy]

/-- The choice is one of the entries. -/
theorem mem_of_leastBy_eq_some {β κ : Type} [LT κ] [DecidableLT κ] {key : β → κ} {bs : List β} {b : β}
    (h : leastBy key bs = some b) : b ∈ bs := by
  have hfold : ∀ (cs : List β) (best : β),
      cs.foldl (fun best c => if key c < key best then c else best) best ∈ best :: cs := by
    intro cs
    induction cs with
    | nil => simp
    | cons c cs ih =>
      intro best
      have hmem := ih (if key c < key best then c else best)
      grind
  cases bs with
  | nil => cases h
  | cons c cs =>
    rw [← Option.some.inj h]
    exact hfold cs c

/-- The choice among images of entries is the choice among the entries by the keys of their images. -/
theorem leastBy_map {β γ κ : Type} [LT κ] [DecidableLT κ] (f : β → γ) (key : γ → κ) (bs : List β) :
    leastBy key (bs.map f) = (leastBy (fun b => key (f b)) bs).map f := by
  have hfold : ∀ (cs : List β) (b : β),
      (cs.map f).foldl (fun best c => if key c < key best then c else best) (f b) =
        f (cs.foldl (fun best c => if key (f c) < key (f best) then c else best) b) := by
    intro cs
    induction cs with
    | nil => intro b; rfl
    | cons c cs ih =>
      intro b
      rw [List.map_cons, List.foldl_cons, List.foldl_cons, ← ih]
      congr 1
      split <;> rfl
  cases bs with
  | nil => rfl
  | cons b bs => exact congrArg some (hfold bs b)

namespace Scalar

variable {α : Type} [Scalar α]

/-! ## Powers and remainders -/

/-- `acc * base ^ n`, taking the bits of `n` from the lowest up and squaring `base` at each. -/
def powerFrom (acc base : α) (n : Nat) : α :=
  if h : n = 0 then acc
  else powerFrom (if n % 2 = 1 then acc * base else acc) (base * base) (n / 2)
termination_by n
decreasing_by omega

/-- The power of a number to a whole exponent; a negative exponent inverts the positive power. -/
def power (base : α) (exponent : Int) : α :=
  if exponent < 0 then 1 / powerFrom 1 base exponent.natAbs else powerFrom 1 base exponent.natAbs

/-- The remainder of `a` by `b` brought up by the size of `b` when it is negative. -/
def modulo (a b : α) : α :=
  if truncMod a b < 0 then truncMod a b + abs b else truncMod a b

/-- The remainder is the truncated one, moved up by one modulus when that is negative. -/
theorem modulo_eq_or (a b : α) : modulo a b = truncMod a b ∨ modulo a b = truncMod a b + abs b := by
  unfold modulo
  split <;> simp

end Scalar

end Photoplot
