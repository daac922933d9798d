import Photoplot.Proofs.Exact

/-!
# How far boxes and points reach

The four sides of a box, seen alike: how far the box reaches in the direction of an axis. Whatever is
proved for one direction is proved for all four.

* `Axis.reach`, `Box.side`: how far a point and a box reach in a direction;
* `Box.contains_iff`: a box contains the points that reach no further than its sides;
* `Box.side_hull_le_iff`, `Box.exists_side_eq_hull`: **a hull reaches as far as its members need and
  no further.**
-/

namespace Photoplot

noncomputable section

/-- How far a point lies in the direction of an axis. -/
def Axis.reach (p : Point ℝ) : Axis → ℝ
  | right => p.x
  | up => p.y
  | left => -p.x
  | down => -p.y

namespace Box

/-- How far a box reaches in the direction of an axis. -/
def side (b : Box EReal) : Axis → EReal
  | .right => b.xMax
  | .up => b.yMax
  | .left => -b.xMin
  | .down => -b.yMin

/-- A point lies in a box. -/
def Contains (b : Box EReal) (p : Point ℝ) : Prop :=
  b.xMin ≤ p.x ∧ p.x ≤ b.xMax ∧ b.yMin ≤ p.y ∧ p.y ≤ b.yMax

/-- A box lies in another one. -/
def Within (a b : Box EReal) : Prop :=
  b.xMin ≤ a.xMin ∧ a.xMax ≤ b.xMax ∧ b.yMin ≤ a.yMin ∧ a.yMax ≤ b.yMax

theorem contains_iff (b : Box EReal) (p : Point ℝ) :
    b.Contains p ↔ ∀ axis, (Axis.reach p axis : EReal) ≤ b.side axis := by
  constructor
  · rintro ⟨hleft, hright, hdown, hup⟩ axis
    cases axis with
    | right => exact hright
    | up => exact hup
    | left => simpa [Axis.reach, side] using hleft
    | down => simpa [Axis.reach, side] using hdown
  · intro h
    exact ⟨by simpa [Axis.reach, side] using h .left, h .right,
      by simpa [Axis.reach, side] using h .down, h .up⟩

theorem within_iff (a b : Box EReal) : a.Within b ↔ ∀ axis, a.side axis ≤ b.side axis := by
  constructor
  · rintro ⟨hleft, hright, hdown, hup⟩ axis
    cases axis with
    | right => exact hright
    | up => exact hup
    | left => simpa [side] using hleft
    | down => simpa [side] using hdown
  · intro h
    exact ⟨by simpa [side] using h .left, h .right, by simpa [side] using h .down, h .up⟩

@[simp] theorem side_empty (axis : Axis) : (empty : Box EReal).side axis = ⊥ := by
  cases axis <;> simp [side, empty, Bounded.bottom, Bounded.top]

@[simp] theorem side_union (a b : Box EReal) (axis : Axis) :
    (a.union b).side axis = max (a.side axis) (b.side axis) := by
  cases axis with
  | right | up => exact greater_eq_max _ _
  | left | down => simp [side, union, lesser_eq_min, EReal.max_neg_neg]

/-- A circle reaches as far as its center and a radius more. -/
@[simp] theorem side_ofCircle (p : Point ℝ) (radius : ℝ) (axis : Axis) :
    (ofCircle p radius : Box EReal).side axis = ((Axis.reach p axis + radius : ℝ) : EReal) := by
  cases axis with
  | right | up => rfl
  | left | down =>
    simp only [side, ofCircle, Placed.place, Axis.reach, ← EReal.coe_neg]
    congr 1
    ring

/-- A hull reaches no further than its members. -/
theorem side_hull_le_iff (boxes : List (Box EReal)) (axis : Axis) (c : EReal) :
    (hull boxes).side axis ≤ c ↔ ∀ b ∈ boxes, b.side axis ≤ c := by
  induction boxes using List.reverseRecOn with
  | nil => simp
  | append_singleton boxes b ih =>
    rw [hull_concat, side_union, max_le_iff, ih]
    simp [or_imp, forall_and]

/-- A hull reaches as far as one of its members. -/
theorem exists_side_eq_hull {boxes : List (Box EReal)} (h : boxes ≠ []) (axis : Axis) :
    ∃ b ∈ boxes, b.side axis = (hull boxes).side axis := by
  induction boxes using List.reverseRecOn with
  | nil => exact absurd rfl h
  | append_singleton boxes b ih =>
    rw [hull_concat, side_union]
    rcases le_total ((hull boxes).side axis) (b.side axis) with hle | hle
    · exact ⟨b, by simp, (max_eq_right hle).symm⟩
    · rw [max_eq_left hle]
      rcases eq_or_ne boxes [] with rfl | hne
      · -- the empty hull reaches nowhere, so the last member does not reach further
        simp only [hull_nil, side_empty, le_bot_iff] at hle
        exact ⟨b, by simp, by simpa using hle⟩
      · obtain ⟨member, hmember, hside⟩ := ih hne
        exact ⟨member, by simp [hmember], hside⟩

end Box

end

end Photoplot
