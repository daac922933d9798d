import Mathlib.Data.List.Induction
import Photoplot.Segment.Extent

/-!
# Bounds that need not be numbers

Boxes whose bounds may be no numbers at all. A union passes over such a bound, so how far it reaches
is still decided by its members, and neither their order nor their grouping matters; only the sign
of a zero can depend on them.

* `LawfulBounds`: the order of the bounds is one of numbers, and the rest is not compared;
* `Axis.AtMost`, `Box.bound`: the four sides of a box, seen alike;
* `Box.StaysWithin`: a side that reaches no further than some bound, or is no number;
* `Box.staysWithin_hull_iff`: **a hull stays within a bound exactly when all its members do**;
* `Box.Same`: boxes whose bounds are the same numbers;
* `Box.same_hull_of_forall`: hulls are the same when their members stay within the same bounds;
* `Box.hull_append`, `Segment.extent_append`: **hulls and extents in parts are joined by a union.**
-/

namespace Photoplot

/-! ## Orders of bounds -/

/-- An order of bounds that is total among numbers, all of which lie between both ends of the line.
A bound that is no number is compared with nothing. -/
class LawfulBounds (β : Type) [LE β] [Bounded β] : Prop where
  /-- Only numbers are compared. -/
  le_self_of_le {a b : β} : a ≤ b → a ≤ a ∧ b ≤ b
  /-- The order is transitive. -/
  le_trans {a b c : β} : a ≤ b → b ≤ c → a ≤ c
  /-- Numbers are compared with each other. -/
  le_or_le {a b : β} : a ≤ a → b ≤ b → a ≤ b ∨ b ≤ a
  /-- No number lies below the lower end. -/
  bottom_le {a : β} : a ≤ a → Bounded.bottom ≤ a
  /-- No number lies above the upper end. -/
  le_top {a : β} : a ≤ a → a ≤ Bounded.top
  /-- Both ends are numbers. -/
  bottom_le_top : (Bounded.bottom : β) ≤ Bounded.top

/-- Bounds that agree are identical or the same number. -/
def Agrees {β : Type} [LE β] (a b : β) : Prop := a = b ∨ SameNumber a b

namespace Agrees

variable {β : Type} [LE β] {a b c : β}

theorem refl (a : β) : Agrees a a := .inl rfl

theorem symm (h : Agrees a b) : Agrees b a := h.imp Eq.symm SameNumber.symm

variable [Bounded β] [LawfulBounds β]

theorem trans (hab : Agrees a b) (hbc : Agrees b c) : Agrees a c := by
  rcases hab with rfl | hab
  · exact hbc
  · rcases hbc with rfl | hbc
    · exact .inr hab
    · exact .inr ⟨LawfulBounds.le_trans hab.1 hbc.1, LawfulBounds.le_trans hbc.2 hab.2⟩

/-- Of bounds that agree both are numbers or neither is. -/
theorem le_self_iff (h : Agrees a b) : a ≤ a ↔ b ≤ b := by
  rcases h with rfl | ⟨hle, -⟩
  · exact Iff.rfl
  · have hself := LawfulBounds.le_self_of_le hle
    exact iff_of_true hself.1 hself.2

theorem le_iff_le (h : Agrees a b) : a ≤ c ↔ b ≤ c := by
  rcases h with rfl | ⟨hab, hba⟩
  · exact Iff.rfl
  · exact ⟨LawfulBounds.le_trans hba, LawfulBounds.le_trans hab⟩

theorem ge_iff_ge (h : Agrees a b) : c ≤ a ↔ c ≤ b := by
  rcases h with rfl | ⟨hab, hba⟩
  · exact Iff.rfl
  · exact ⟨fun hc => LawfulBounds.le_trans hc hab, fun hc => LawfulBounds.le_trans hc hba⟩

end Agrees

/-! ## The sides of a box -/

/-- In the direction of an axis one bound lies no further out than another one. -/
def Axis.AtMost {β : Type} [LE β] (axis : Axis) (a b : β) : Prop :=
  match axis with
  | right | up => a ≤ b
  | left | down => b ≤ a

/-- Of two bounds the one that lies further out in the direction of an axis. -/
def Axis.further {β : Type} [LE β] [DecidableLE β] (axis : Axis) (a b : β) : β :=
  match axis with
  | right | up => greater a b
  | left | down => lesser a b

/-- The bound of a box on the side in the direction of an axis. -/
def Box.bound {β : Type} (b : Box β) : Axis → β
  | .right => b.xMax
  | .up => b.yMax
  | .left => b.xMin
  | .down => b.yMin

/-- What holds in every direction holds in each of the four. -/
theorem Axis.forall_iff (P : Axis → Prop) :
    (∀ axis, P axis) ↔ P .left ∧ P .down ∧ P .right ∧ P .up := by
  constructor
  · intro h
    exact ⟨h .left, h .down, h .right, h .up⟩
  · rintro ⟨hleft, hdown, hright, hup⟩ axis
    cases axis with
    | right => exact hright
    | up => exact hup
    | left => exact hleft
    | down => exact hdown

/-- Boxes are equal when their sides are. -/
theorem Box.eq_of_bound_eq {β : Type} {a b : Box β} (h : ∀ axis, a.bound axis = b.bound axis) :
    a = b := by
  obtain ⟨xMin, yMin, xMax, yMax⟩ := a
  obtain rfl : xMin = b.xMin := h .left
  obtain rfl : yMin = b.yMin := h .down
  obtain rfl : xMax = b.xMax := h .right
  obtain rfl : yMax = b.yMax := h .up
  rfl

namespace Axis

variable {β : Type} [LE β] {axis : Axis} {a b c : β}

theorem atMost_self_iff (axis : Axis) (a : β) : axis.AtMost a a ↔ a ≤ a := by
  cases axis <;> exact Iff.rfl

/-- The first of two bounds is taken when the second one lies no further out. -/
theorem further_eq_left [DecidableLE β] (h : axis.AtMost b a) : axis.further a b = a := by
  cases axis with
  | right | up => exact if_pos h
  | left | down => exact if_pos h

/-- Bounds that lie no further out than each other are the same number. -/
theorem sameNumber_of_atMost (hab : axis.AtMost a b) (hba : axis.AtMost b a) : SameNumber a b := by
  cases axis with
  | right | up => exact ⟨hab, hba⟩
  | left | down => exact ⟨hba, hab⟩

variable [Bounded β] [LawfulBounds β]

theorem AtMost.le_self (h : axis.AtMost a b) : a ≤ a ∧ b ≤ b := by
  cases axis with
  | right | up => exact LawfulBounds.le_self_of_le h
  | left | down => exact (LawfulBounds.le_self_of_le h).symm

theorem AtMost.trans (hab : axis.AtMost a b) (hbc : axis.AtMost b c) : axis.AtMost a c := by
  cases axis with
  | right | up => exact LawfulBounds.le_trans hab hbc
  | left | down => exact LawfulBounds.le_trans hbc hab

theorem atMost_congr (axis : Axis) (h : Agrees a b) : axis.AtMost a c ↔ axis.AtMost b c := by
  cases axis with
  | right | up => exact h.le_iff_le
  | left | down => exact h.ge_iff_ge

variable [DecidableLE β]

/-- Of two bounds, the first of which is a number, the second one is taken only when it lies further
out, and otherwise it does not. -/
theorem further_eq_or (axis : Axis) (ha : a ≤ a) (b : β) :
    (axis.further a b = a ∧ (b ≤ b → axis.AtMost b a)) ∨
      (axis.further a b = b ∧ axis.AtMost a b) := by
  have hnumber : ∀ {x y : β}, x ≤ y → x ≤ x ∧ y ≤ y := LawfulBounds.le_self_of_le
  have htotal : b ≤ b → a ≤ b ∨ b ≤ a := LawfulBounds.le_or_le ha
  cases axis with
  | right | up =>
    simp only [further, greater, AtMost]
    grind
  | left | down =>
    simp only [further, lesser, AtMost]
    grind

/-- The further one of two bounds, the first of which is a number, is at most those that are at
least the first and, if it is a number, the second. -/
theorem further_atMost_iff (axis : Axis) (ha : a ≤ a) :
    axis.AtMost (axis.further a b) c ↔ axis.AtMost a c ∧ (b ≤ b → axis.AtMost b c) := by
  rcases axis.further_eq_or ha b with ⟨heq, hba⟩ | ⟨heq, hab⟩
  · rw [heq]
    constructor
    · intro hac
      exact ⟨hac, fun hb => (hba hb).trans hac⟩
    · intro h
      exact h.1
  · rw [heq]
    constructor
    · intro hbc
      exact ⟨hab.trans hbc, fun _ => hbc⟩
    · intro h
      exact h.2 hab.le_self.2

/-- A bound that is no number gives way to any other one. -/
theorem further_of_isNaN_left (axis : Axis) (ha : IsNaN a) (b : β) : axis.further a b = b := by
  have hab : ¬ a ≤ b := fun hle => ha (LawfulBounds.le_self_of_le hle).1
  have hba : ¬ b ≤ a := fun hle => ha (LawfulBounds.le_self_of_le hle).2
  cases axis with
  | right | up => simp only [further, greater, if_neg hab, if_neg hba, if_neg ha]
  | left | down => simp only [further, lesser, if_neg hab, if_neg hba, if_neg ha]

/-- A number stays when the other bound is none. -/
theorem further_of_isNaN_right (axis : Axis) (ha : a ≤ a) (hb : IsNaN b) : axis.further a b = a := by
  rcases axis.further_eq_or ha b with ⟨heq, -⟩ | ⟨-, hab⟩
  · exact heq
  · exact absurd hab.le_self.2 hb

/-- Which of three bounds lies furthest out does not depend on how they are grouped. -/
theorem further_assoc (axis : Axis) (a b c : β) :
    axis.further (axis.further a b) c = axis.further a (axis.further b c) := by
  by_cases ha : a ≤ a
  · by_cases hb : b ≤ b
    · have htrans : ∀ {x y z : β}, x ≤ y → y ≤ z → x ≤ z := LawfulBounds.le_trans
      have hnumber : ∀ {x y : β}, x ≤ y → x ≤ x ∧ y ≤ y := LawfulBounds.le_self_of_le
      have htotal : ∀ {x y : β}, x ≤ x → y ≤ y → x ≤ y ∨ y ≤ x := LawfulBounds.le_or_le
      cases axis with
      | right | up =>
        simp only [further, greater]
        grind
      | left | down =>
        simp only [further, lesser]
        grind
    · rw [axis.further_of_isNaN_right ha hb, axis.further_of_isNaN_left hb]
  · rw [axis.further_of_isNaN_left ha, axis.further_of_isNaN_left ha]

/-- The further one of two bounds is a number when the first of them is one. -/
theorem further_le_self (axis : Axis) (ha : a ≤ a) (b : β) :
    axis.further a b ≤ axis.further a b := by
  rcases axis.further_eq_or ha b with ⟨heq, -⟩ | ⟨heq, hab⟩
  · rwa [heq]
  · rw [heq]
    exact hab.le_self.2

end Axis

/-! ## Hulls -/

namespace Box

variable {β : Type} [LE β]

/-- On the side in the direction of an axis a box reaches no further than some bound. A side that is
no number reaches nowhere. -/
def StaysWithin (b : Box β) (axis : Axis) (c : β) : Prop :=
  b.bound axis ≤ b.bound axis → axis.AtMost (b.bound axis) c

/-- Boxes whose bounds are the same numbers: they are equal up to the signs of zeros. -/
def Same (a b : Box β) : Prop :=
  SameNumber a.xMin b.xMin ∧ SameNumber a.yMin b.yMin ∧ SameNumber a.xMax b.xMax ∧
    SameNumber a.yMax b.yMax

/-- A box that has nowhere moved inward to become another one. -/
def WidensTo (a b : Box β) : Prop :=
  b.xMin ≤ a.xMin ∧ b.yMin ≤ a.yMin ∧ a.xMax ≤ b.xMax ∧ a.yMax ≤ b.yMax

theorem same_iff (a b : Box β) : a.Same b ↔ ∀ axis, SameNumber (a.bound axis) (b.bound axis) :=
  (Axis.forall_iff fun axis => SameNumber (a.bound axis) (b.bound axis)).symm

theorem widensTo_iff (a b : Box β) :
    a.WidensTo b ↔ ∀ axis : Axis, axis.AtMost (a.bound axis) (b.bound axis) :=
  (Axis.forall_iff fun axis => axis.AtMost (a.bound axis) (b.bound axis)).symm

theorem bound_union [DecidableLE β] (a b : Box β) (axis : Axis) :
    (a.union b).bound axis = axis.further (a.bound axis) (b.bound axis) := by
  cases axis <;> rfl

variable [Bounded β] [LawfulBounds β]

/-- The sides of the empty box are numbers. -/
theorem bound_empty_le_self (axis : Axis) :
    (empty : Box β).bound axis ≤ (empty : Box β).bound axis := by
  have hends := LawfulBounds.le_self_of_le (LawfulBounds.bottom_le_top (β := β))
  cases axis with
  | right | up => exact hends.1
  | left | down => exact hends.2

/-- The empty box reaches no further than any number. -/
theorem atMost_bound_empty (axis : Axis) {c : β} (hc : c ≤ c) :
    axis.AtMost ((empty : Box β).bound axis) c := by
  cases axis with
  | right | up => exact LawfulBounds.bottom_le hc
  | left | down => exact LawfulBounds.le_top hc

/-- Boxes with bounds that agree stay within the same bounds. -/
theorem staysWithin_congr {a b : Box β} {axis : Axis} (h : Agrees (a.bound axis) (b.bound axis))
    (c : β) : a.StaysWithin axis c ↔ b.StaysWithin axis c := by
  unfold StaysWithin
  rw [h.le_self_iff, axis.atMost_congr h]

variable [DecidableLE β]

/-- The sides of a hull are numbers, whatever the sides of its members are. -/
theorem bound_hull_le_self (boxes : List (Box β)) (axis : Axis) :
    (hull boxes).bound axis ≤ (hull boxes).bound axis := by
  induction boxes using List.reverseRecOn with
  | nil => exact bound_empty_le_self axis
  | append_singleton boxes b ih =>
    rw [hull_concat, bound_union]
    exact axis.further_le_self ih _

/-- **Hulls in parts.** The hull of boxes that follow others is the union of both hulls. -/
theorem hull_append (boxes more : List (Box β)) :
    hull (boxes ++ more) = (hull boxes).union (hull more) := by
  induction more using List.reverseRecOn with
  | nil =>
    refine eq_of_bound_eq fun axis => ?_
    rw [List.append_nil, hull_nil, bound_union,
      Axis.further_eq_left (atMost_bound_empty axis (bound_hull_le_self boxes axis))]
  | append_singleton more b ih =>
    refine eq_of_bound_eq fun axis => ?_
    rw [← List.append_assoc, hull_concat, hull_concat, ih]
    simp only [bound_union]
    exact axis.further_assoc _ _ _

/-- The side of a hull lies no further out than some number exactly when all its members stay within
that number. -/
theorem atMost_bound_hull_iff (boxes : List (Box β)) (axis : Axis) {c : β} (hc : c ≤ c) :
    axis.AtMost ((hull boxes).bound axis) c ↔ ∀ b ∈ boxes, b.StaysWithin axis c := by
  induction boxes using List.reverseRecOn with
  | nil => simpa using atMost_bound_empty axis hc
  | append_singleton boxes b ih =>
    rw [hull_concat, bound_union, axis.further_atMost_iff (bound_hull_le_self boxes axis), ih,
      List.forall_mem_append, List.forall_mem_singleton]
    rfl

/-- **How far a hull reaches.** A hull stays within a number exactly when all its members do. -/
theorem staysWithin_hull_iff (boxes : List (Box β)) (axis : Axis) {c : β} (hc : c ≤ c) :
    (hull boxes).StaysWithin axis c ↔ ∀ b ∈ boxes, b.StaysWithin axis c := by
  rw [← atMost_bound_hull_iff boxes axis hc]
  constructor
  · intro h
    exact h (bound_hull_le_self boxes axis)
  · intro h _
    exact h

/-- A hull becomes a wider one when all its members stay within the bounds of the other one's. -/
theorem widensTo_hull_of_forall {few more : List (Box β)}
    (h : ∀ axis c, c ≤ c → (∀ b ∈ more, b.StaysWithin axis c) → ∀ b ∈ few, b.StaysWithin axis c) :
    (hull few).WidensTo (hull more) := by
  rw [widensTo_iff]
  intro axis
  have hnumber := bound_hull_le_self more axis
  rw [atMost_bound_hull_iff few axis hnumber]
  refine h axis _ hnumber ?_
  rw [← atMost_bound_hull_iff more axis hnumber, Axis.atMost_self_iff]
  exact hnumber

/-- Hulls whose members stay within the same bounds are the same. -/
theorem same_hull_of_forall {few more : List (Box β)}
    (h : ∀ axis c, c ≤ c →
      ((∀ b ∈ few, b.StaysWithin axis c) ↔ ∀ b ∈ more, b.StaysWithin axis c)) :
    (hull few).Same (hull more) := by
  have hwider := (widensTo_iff _ _).1 (widensTo_hull_of_forall fun axis c hc => (h axis c hc).2)
  have hnarrower := (widensTo_iff _ _).1 (widensTo_hull_of_forall fun axis c hc => (h axis c hc).1)
  rw [same_iff]
  intro axis
  exact Axis.sameNumber_of_atMost (hwider axis) (hnarrower axis)

end Box

/-! ## Extents -/

section Extent

variable {α β : Type} [Scalar α] [LE β] [DecidableLE β] [Bounded β] [LawfulBounds β] [Placed α β]

/-- The box of segments that follow others is the union of both boxes. -/
theorem Segment.extent_append (segments more : List (Segment α)) (penRadius : α) :
    (extent (segments ++ more) penRadius : Box β) =
      (extent segments penRadius).union (extent more penRadius) := by
  rw [extent, List.flatMap_append, List.map_append, Box.hull_append]
  rfl

end Extent

end Photoplot
