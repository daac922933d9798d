import Photoplot.Plot
import Photoplot.Proofs.Binary64.Difference

/-!
# Boxes that take others in

Whether a box is left as it was by a union with another one. A union compares bounds only and asks of
neither box whether it is empty. The box with the ends of the line at its wrong sides is taken in by
every box; a box that is empty because a lower bound of it lies above its upper one is taken in like
any other box, only where it reaches no further.

* `Box.IsNumeric`, `Box.IsFinite`: what the bounds of a box may be;
* `Box.EmptyTogether`, `Box.isEmpty_union_iff`: **when a union is empty**;
* `Box.near_zero_iff`: what it takes to agree up to nothing;
* `Box.Absorbs`, `Picture.near_box_iff_absorbs`: **when a union, or a picture with one more part, agrees
  up to nothing with what was there before**;
* `Picture.inverted`: a circle with a negative radius, whose empty box widens that of a picture.
-/

namespace Photoplot

/-! ## Bounds of unions -/

namespace Axis

section Generic

variable {β : Type} [LE β] [DecidableLE β] [Bounded β] [LawfulBounds β] {a b : β}

/-- The further one of two bounds is the second of them when the first lies no further out. -/
theorem sameNumber_further_right_iff (axis : Axis) (ha : a ≤ a) (hb : b ≤ b) :
    SameNumber (axis.further a b) b ↔ axis.AtMost a b := by
  rcases axis.further_eq_or ha b with ⟨heq, hba⟩ | ⟨heq, hab⟩
  · rw [heq]
    constructor
    · rintro ⟨hle, hge⟩
      cases axis with
      | right | up => exact hle
      | left | down => exact hge
    · intro hab
      exact sameNumber_of_atMost hab (hba hb)
  · rw [heq]
    exact iff_of_true ⟨hb, hb⟩ hab

/-- The further one of two bounds is the first of them when the second lies no further out. -/
theorem sameNumber_further_left_iff (axis : Axis) (ha : a ≤ a) (hb : b ≤ b) :
    SameNumber (axis.further a b) a ↔ axis.AtMost b a := by
  rcases axis.further_eq_or ha b with ⟨heq, hba⟩ | ⟨heq, hab⟩
  · rw [heq]
    exact iff_of_true ⟨ha, ha⟩ (hba hb)
  · rw [heq]
    constructor
    · rintro ⟨hle, hge⟩
      cases axis with
      | right | up => exact hle
      | left | down => exact hge
    · intro hba
      exact sameNumber_of_atMost hba hab

end Generic

/-- What holds in every direction can be tested direction by direction. -/
instance {P : Axis → Prop} [DecidablePred P] : Decidable (∀ axis, P axis) :=
  decidable_of_iff _ (forall_iff P).symm

end Axis

/-! ## The strict order of doubles -/

namespace Binary64

variable {x y z : Float}

/-- Doubles that are the same numbers are strictly ordered alike. -/
theorem lt_congr {x' y' : Float} (hx : SameNumber x x') (hy : SameNumber y y') :
    x < y ↔ x' < y' := by
  have hxx : Agrees x x' := .inr hx
  have hyy : Agrees y y' := .inr hy
  rw [lt_iff_not_le, lt_iff_not_le, hxx.le_self_iff, hyy.le_self_iff, hyy.le_iff_le,
    hxx.ge_iff_ge]

theorem greater_lt_iff (hx : x ≤ x) (hy : y ≤ y) :
    greater x y < z ↔ x < z ∧ y < z := by
  have htotal := LawfulBounds.le_or_le hx hy
  have htrans : ∀ {v w : Float}, z ≤ v → v ≤ w → z ≤ w := LawfulBounds.le_trans
  simp only [greater, lt_iff_not_le]
  grind

theorem lt_lesser_iff (hx : x ≤ x) (hy : y ≤ y) :
    z < lesser x y ↔ z < x ∧ z < y := by
  have htotal := LawfulBounds.le_or_le hx hy
  have htrans : ∀ {v w : Float}, v ≤ w → w ≤ z → v ≤ z := LawfulBounds.le_trans
  simp only [lesser, lt_iff_not_le]
  grind

/-- Every finite double lies strictly between the ends of the line. -/
theorem bottom_lt_lt_top (hx : IsFinite x) :
    (Bounded.bottom : Float) < x ∧ x < (Bounded.top : Float) := by
  rw [lt_iff, lt_iff, position?_bottom, position?_top]
  rcases (isFinite_iff x).1 hx with ⟨s, hs⟩ | ⟨s, m, e, hm, hs⟩ <;> rw [hs]
  · simp [position?, Prod.Lex.toLex_lt_toLex]
  · cases s <;> simp [position?, Prod.Lex.toLex_lt_toLex]

end Binary64

namespace Box

section Generic

variable {β : Type}

/-- A box whose bounds are all numbers. -/
def IsNumeric [LE β] (b : Box β) : Prop := ∀ axis, b.bound axis ≤ b.bound axis

instance [LE β] [DecidableLE β] (b : Box β) : Decidable b.IsNumeric :=
  inferInstanceAs (Decidable (∀ _, _))

/-- A box whose bounds are all finite. -/
def IsFinite [Scalar β] (b : Box β) : Prop := ∀ axis, Photoplot.IsFinite (b.bound axis)

instance [Scalar β] (b : Box β) : Decidable b.IsFinite :=
  inferInstanceAs (Decidable (∀ _, _))

/-- On one of the axes every upper bound of two boxes lies below every lower bound of them. -/
def EmptyTogether [LT β] (a b : Box β) : Prop :=
  ((a.xMax < a.xMin ∧ b.xMax < a.xMin) ∧ a.xMax < b.xMin ∧ b.xMax < b.xMin) ∨
    (a.yMax < a.yMin ∧ b.yMax < a.yMin) ∧ a.yMax < b.yMin ∧ b.yMax < b.yMin

instance [LT β] [DecidableLT β] (a b : Box β) : Decidable (a.EmptyTogether b) :=
  inferInstanceAs (Decidable (_ ∨ _))

instance [LE β] [DecidableLE β] (a b : Box β) : Decidable (a.WidensTo b) :=
  inferInstanceAs (Decidable (_ ∧ _))

/-- A box takes another one in: they are empty together, or it is finite, not empty, and reaches at
least as far to every side. -/
def Absorbs [Scalar β] (b a : Box β) : Prop :=
  a.EmptyTogether b ∨ ¬ b.IsEmpty ∧ b.IsFinite ∧ a.WidensTo b

instance [Scalar β] (a b : Box β) : Decidable (b.Absorbs a) :=
  inferInstanceAs (Decidable (_ ∨ _))

theorem EmptyTogether.symm [LT β] {a b : Box β} (h : a.EmptyTogether b) : b.EmptyTogether a := by
  unfold EmptyTogether at h ⊢
  tauto

/-- Boxes that are empty together are empty. -/
theorem EmptyTogether.isEmpty [LT β] {a b : Box β} (h : a.EmptyTogether b) : b.IsEmpty :=
  h.imp (fun hx => hx.2.2) fun hy => hy.2.2

section Hulls

variable [LE β] [Bounded β] [LawfulBounds β] {a b : Box β}

/-- Boxes with the same bounds are the same as the same boxes. -/
theorem Same.same_iff_same (h : a.Same b) (c : Box β) : a.Same c ↔ b.Same c := by
  rw [same_iff] at h ⊢
  rw [same_iff]
  refine forall_congr' fun axis => ?_
  have hagrees : Agrees (a.bound axis) (b.bound axis) := .inr (h axis)
  exact and_congr hagrees.le_iff_le hagrees.ge_iff_ge

variable [DecidableLE β]

/-- A union is the second of its boxes when the first one reaches no further. -/
theorem same_union_right_iff (ha : a.IsNumeric) (hb : b.IsNumeric) :
    (a.union b).Same b ↔ a.WidensTo b := by
  rw [same_iff, widensTo_iff]
  refine forall_congr' fun axis => ?_
  rw [bound_union, axis.sameNumber_further_right_iff (ha axis) (hb axis)]

/-- A union is the first of its boxes when the second one reaches no further. -/
theorem same_union_left_iff (ha : a.IsNumeric) (hb : b.IsNumeric) :
    (b.union a).Same b ↔ a.WidensTo b := by
  rw [same_iff, widensTo_iff]
  refine forall_congr' fun axis => ?_
  rw [bound_union, axis.sameNumber_further_left_iff (hb axis) (ha axis)]

/-- A hull is the union of any one of its members and the hull of the others. -/
theorem same_hull_insert (before after : List (Box β)) (hb : b.IsNumeric) :
    (hull (before ++ b :: after)).Same (b.union (hull (before ++ after))) := by
  rw [same_iff]
  intro axis
  have hnumber := bound_hull_le_self (before ++ after) axis
  -- both sides lie within the same numbers
  have hatMost : ∀ d : β, d ≤ d → (axis.AtMost ((hull (before ++ b :: after)).bound axis) d ↔
      axis.AtMost ((b.union (hull (before ++ after))).bound axis) d) := by
    intro d hd
    rw [bound_union, axis.further_atMost_iff (hb axis), imp_iff_right hnumber,
      atMost_bound_hull_iff _ axis hd, atMost_bound_hull_iff _ axis hd]
    have hmember : b.StaysWithin axis d ↔ axis.AtMost (b.bound axis) d := imp_iff_right (hb axis)
    simp only [List.mem_append, List.mem_cons]
    grind
  have hunion := axis.further_le_self (hb axis) ((hull (before ++ after)).bound axis)
  rw [← bound_union] at hunion
  have hwhole := bound_hull_le_self (before ++ b :: after) axis
  exact Axis.sameNumber_of_atMost ((hatMost _ hunion).2 ((axis.atMost_self_iff _).2 hunion))
    ((hatMost _ hwhole).1 ((axis.atMost_self_iff _).2 hwhole))

end Hulls

end Generic

/-! ## Unions of boxes of doubles -/

section Doubles

variable {a b u : Box Float}

/-- Boxes with the same bounds are empty alike. -/
theorem Same.isEmpty_iff (h : a.Same b) : a.IsEmpty ↔ b.IsEmpty := by
  obtain ⟨hleft, hdown, hright, hup⟩ := h
  exact or_congr (Binary64.lt_congr hright hleft) (Binary64.lt_congr hup hdown)

/-- **When a union is empty.** A union of boxes is empty only when both are, and on a common axis. -/
theorem isEmpty_union_iff (ha : a.IsNumeric) (hb : b.IsNumeric) :
    (a.union b).IsEmpty ↔ a.EmptyTogether b := by
  have hx : (a.union b).xMax < (a.union b).xMin ↔ _ := Binary64.lt_lesser_iff (ha .left) (hb .left)
  have hy : (a.union b).yMax < (a.union b).yMin ↔ _ := Binary64.lt_lesser_iff (ha .down) (hb .down)
  have hxMax : ∀ z, (a.union b).xMax < z ↔ _ := fun z => Binary64.greater_lt_iff (ha .right) (hb .right)
  have hyMax : ∀ z, (a.union b).yMax < z ↔ _ := fun z => Binary64.greater_lt_iff (ha .up) (hb .up)
  unfold IsEmpty EmptyTogether
  rw [hx, hy, hxMax, hxMax, hyMax, hyMax]

/-- **Agreeing up to nothing.** Both boxes are empty, or neither is, and then they have the same finite
bounds. -/
theorem near_zero_iff (a b : Box Float) :
    a.Near b 0 ↔ a.IsEmpty ∧ b.IsEmpty ∨ ¬ a.IsEmpty ∧ ¬ b.IsEmpty ∧ b.IsFinite ∧ a.Same b := by
  have hsides : (Scalar.abs (a.xMin - b.xMin) ≤ 0 ∧ Scalar.abs (a.yMin - b.yMin) ≤ 0 ∧
      Scalar.abs (a.xMax - b.xMax) ≤ 0 ∧ Scalar.abs (a.yMax - b.yMax) ≤ 0) ↔
        ∀ axis, (Photoplot.IsFinite (a.bound axis) ∧ Photoplot.IsFinite (b.bound axis)) ∧
          SameNumber (a.bound axis) (b.bound axis) := by
    simp only [Binary64.abs_sub_le_zero_iff]
    exact (Axis.forall_iff fun axis => (Photoplot.IsFinite (a.bound axis) ∧
      Photoplot.IsFinite (b.bound axis)) ∧ SameNumber (a.bound axis) (b.bound axis)).symm
  have hfinite : (∀ axis, (Photoplot.IsFinite (a.bound axis) ∧ Photoplot.IsFinite (b.bound axis)) ∧
      SameNumber (a.bound axis) (b.bound axis)) ↔ b.IsFinite ∧ a.Same b := by
    rw [same_iff]
    constructor
    · intro h
      exact ⟨fun axis => (h axis).1.2, fun axis => (h axis).2⟩
    · rintro ⟨hb, hsame⟩ axis
      exact ⟨⟨Binary64.isFinite_of_le_of_le (hb axis) (hb axis) (hsame axis).2 (hsame axis).1, hb axis⟩,
        hsame axis⟩
  unfold Near
  rw [hsides, hfinite]
  split_ifs <;> tauto

/-- What is as empty and as wide as a union agrees with one of its boxes exactly when that takes the
other one in. -/
theorem near_zero_iff_absorbs (hempty : u.IsEmpty ↔ a.EmptyTogether b)
    (hsame : u.Same b ↔ a.WidensTo b) : u.Near b 0 ↔ b.Absorbs a := by
  have hboth : a.EmptyTogether b → b.IsEmpty := EmptyTogether.isEmpty
  rw [near_zero_iff, hempty, hsame, Absorbs]
  tauto

/-- Every finite box takes in the box that adds nothing. -/
theorem IsFinite.absorbs_empty (hb : b.IsFinite) : b.Absorbs empty := by
  by_cases hempty : b.IsEmpty
  · have hends : (Bounded.bottom : Float) < Bounded.top := by decide
    have hinside := fun axis => Binary64.bottom_lt_lt_top (hb axis)
    refine .inl (hempty.imp (fun hx => ?_) fun hy => ?_)
    · exact ⟨⟨hends, (hinside .right).2⟩, (hinside .left).1, hx⟩
    · exact ⟨⟨hends, (hinside .up).2⟩, (hinside .down).1, hy⟩
  · refine .inr ⟨hempty, hb, ?_⟩
    rw [widensTo_iff]
    exact fun axis => atMost_bound_empty axis (hb axis).1

end Doubles

end Box

/-! ## Pictures -/

section Pictures

/-- A part of a picture whose box, if it is taken from measures, is taken from finite ones. The boxes of
figures and of all other shapes are hulls. -/
def Node.IsMeasured : Node Float → Prop
  | .shape (.circle center radius) => center.IsFinite ∧ IsFinite radius
  | .shape (.rectangle r) => r.corner.IsFinite ∧ IsFinite r.xSize ∧ IsFinite r.ySize
  | _ => True

instance : (node : Node Float) → Decidable node.IsMeasured
  | .shape (.circle _ _) => inferInstanceAs (Decidable (_ ∧ _))
  | .shape (.rectangle _) => inferInstanceAs (Decidable (_ ∧ _))
  | .shape (.polygon _) | .shape (.outlined _) | .shape (.cleared _) | .shape (.layered _)
  | .figure _ => inferInstanceAs (Decidable True)

/-- The box of a part with finite measures has numbers for bounds. -/
theorem Node.IsMeasured.isNumeric {node : Node Float} (h : node.IsMeasured) :
    (node.box : Box Float).IsNumeric := by
  intro axis
  rcases node with f | ⟨center, radius⟩ | r | points | segments | segments | shapes
  case figure => exact Box.bound_hull_le_self _ axis
  case shape.circle =>
    obtain ⟨hcenter, hradius⟩ := h
    cases axis with
    | right => exact hcenter.1.add_le_self hradius.1
    | up => exact hcenter.2.add_le_self hradius.1
    | left => exact hcenter.1.sub_le_self hradius.1
    | down => exact hcenter.2.sub_le_self hradius.1
  case shape.rectangle =>
    obtain ⟨hcorner, hx, hy⟩ := h
    cases axis with
    | right => exact Axis.right.further_le_self hcorner.1.1 _
    | up => exact Axis.up.further_le_self hcorner.2.1 _
    | left => exact Axis.left.further_le_self hcorner.1.1 _
    | down => exact Axis.down.further_le_self hcorner.2.1 _
  case shape.polygon => exact Box.bound_hull_le_self _ axis
  case shape.outlined => exact Box.bound_hull_le_self _ axis
  case shape.cleared => exact Box.bound_hull_le_self _ axis
  case shape.layered =>
    exact Box.bound_hull_le_self _ axis

/-- **What a part adds to the box of a picture.** A union with a box, in either order, agrees up to
nothing with what was there before exactly when that takes the box in, and so does the box of a picture
with one more part. The box that adds nothing is taken in by every finite box. -/
theorem Picture.near_box_iff_absorbs {a b : Box Float} (ha : a.IsNumeric) (hb : b.IsNumeric)
    (before after : List (Node Float)) {node : Node Float} (hnode : node.IsMeasured) :
    ((a.union b).Near b 0 ↔ b.Absorbs a) ∧ ((b.union a).Near b 0 ↔ b.Absorbs a) ∧
    ((⟨before ++ node :: after⟩ : Picture Float).box.Near
        (⟨before ++ after⟩ : Picture Float).box 0 ↔
      (⟨before ++ after⟩ : Picture Float).box.Absorbs node.box) ∧
    (b.IsFinite → b.Absorbs Box.empty) := by
  refine ⟨?_, ?_, ?_, Box.IsFinite.absorbs_empty⟩
  · exact Box.near_zero_iff_absorbs (Box.isEmpty_union_iff ha hb) (Box.same_union_right_iff ha hb)
  · refine Box.near_zero_iff_absorbs ?_ (Box.same_union_left_iff ha hb)
    rw [Box.isEmpty_union_iff hb ha]
    exact ⟨Box.EmptyTogether.symm, Box.EmptyTogether.symm⟩
  · have hpart : (node.box : Box Float).IsNumeric := hnode.isNumeric
    have hrest : (⟨before ++ after⟩ : Picture Float).box.IsNumeric := Box.bound_hull_le_self _
    have hinsert : (⟨before ++ node :: after⟩ : Picture Float).box.Same
        (node.box.union (⟨before ++ after⟩ : Picture Float).box) := by
      have h := Box.same_hull_insert (before.map Node.box) (after.map Node.box) hpart
      rwa [← List.map_append, ← List.map_cons, ← List.map_append] at h
    refine Box.near_zero_iff_absorbs ?_ ?_
    · rw [hinsert.isEmpty_iff, Box.isEmpty_union_iff hpart hrest]
    · rw [hinsert.same_iff_same, Box.same_union_right_iff hpart hrest]

/-- A circle with a negative radius. -/
def Picture.inverted : Node Float := .shape (.circle ⟨0, 0⟩ (-1))

/-- A circle away from it. -/
def Picture.distant : Node Float := .shape (.circle ⟨6, 6⟩ 1)

/-- The circle with the negative radius is not taken in by the other one. -/
theorem Picture.near_box_iff_absorbs_inverted :
    ¬ ((inverted.box : Box Float).union distant.box).Near distant.box 0 ∧
      ¬ (⟨[] ++ inverted :: [distant]⟩ : Picture Float).box.Near
        (⟨[] ++ [distant]⟩ : Picture Float).box 0 := by
  have hbox : ¬ (distant.box : Box Float).Absorbs inverted.box := by decide +kernel
  have hrest : ¬ (⟨[] ++ [distant]⟩ : Picture Float).box.Absorbs inverted.box := by decide +kernel
  have hnumeric : (inverted.box : Box Float).IsNumeric ∧ (distant.box : Box Float).IsNumeric := by
    decide +kernel
  have hmeasured : inverted.IsMeasured := by decide +kernel
  obtain ⟨hunion, -, hpicture, -⟩ :=
    near_box_iff_absorbs hnumeric.1 hnumeric.2 [] [distant] hmeasured
  rw [hunion, hpicture]
  exact ⟨hbox, hrest⟩

/-- Not every empty box leaves other boxes, and pictures, as they are. -/
theorem Picture.not_forall_near_of_isEmpty :
    (¬ ∀ a b : Box Float, a.IsNumeric → b.IsNumeric → a.IsEmpty → b.IsFinite →
      (a.union b).Near b 0 ∧ (b.union a).Near b 0) ∧
    ¬ ∀ (before after : List (Node Float)) (node : Node Float),
      (∀ other ∈ before ++ node :: after, other.IsMeasured) → (node.box : Box Float).IsEmpty →
        (⟨before ++ node :: after⟩ : Picture Float).box.Near
          (⟨before ++ after⟩ : Picture Float).box 0 := by
  have hempty : (inverted.box : Box Float).IsEmpty := by decide +kernel
  constructor
  · intro h
    have hnumeric : (inverted.box : Box Float).IsNumeric ∧ (distant.box : Box Float).IsNumeric := by
      decide +kernel
    have hfinite : (distant.box : Box Float).IsFinite := by decide +kernel
    have hunion : ¬ ((inverted.box : Box Float).union distant.box).Near distant.box 0 := by
      decide +kernel
    exact hunion (h _ _ hnumeric.1 hnumeric.2 hempty hfinite).1
  · intro h
    have hmeasured : ∀ other ∈ [] ++ inverted :: [distant], other.IsMeasured := by decide +kernel
    have hpicture : ¬ (⟨[] ++ inverted :: [distant]⟩ : Picture Float).box.Near
        (⟨[] ++ [distant]⟩ : Picture Float).box 0 := by
      decide +kernel
    exact hpicture (h [] [distant] inverted hmeasured hempty)

end Pictures

end Photoplot
