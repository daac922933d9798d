import Photoplot.Proofs.Binary64.Absorption

/-!
# Unions as joins

Boxes under unions. Up to the signs of zeros a union is the join of its boxes and a hull the join of
a whole list of them, so that neither order nor nesting of the parts of a picture can be seen in its
box. A bound that is no number is passed over by the other one; only where all of them are none is
the result none, and a hull, which begins with the empty box, has no such bounds.

* `Alike`, `Box.Alike`: bounds that are the same number, or that are none both;
* `Axis.further_comm_alike`: the further one of two bounds is the same in either order;
* `Box.alike_empty_union_iff`: the empty box is neutral exactly among boxes whose bounds are numbers;
* `Box.hull_widensTo_iff`, `Box.exists_sameNumber_bound_hull`: **the hull is the least box around its
  members, and each of its sides is one of theirs**;
* `Box.join_laws`: **unions of boxes of doubles are joins**.
-/

namespace Photoplot

/-! ## Bounds -/

/-- Bounds that are the same number, or that are none both. -/
def Alike {β : Type} [LE β] (a b : β) : Prop := SameNumber a b ∨ IsNaN a ∧ IsNaN b

instance {β : Type} [LE β] [DecidableLE β] (a b : β) : Decidable (Alike a b) :=
  inferInstanceAs (Decidable (_ ∨ _))

theorem Alike.refl {β : Type} [LE β] (a : β) : Alike a a := by
  by_cases h : a ≤ a
  · exact .inl ⟨h, h⟩
  · exact .inr ⟨h, h⟩

section Bounds

variable {β : Type} [LE β] {a b : β}

theorem Axis.further_self [DecidableLE β] (axis : Axis) (a : β) : axis.further a a = a := by
  cases axis with
  | right | up => exact greater_self a
  | left | down => exact lesser_self a

variable [Bounded β] [LawfulBounds β]

/-- Of bounds that are alike both are numbers or neither is. -/
theorem Alike.le_self_iff (h : Alike a b) : a ≤ a ↔ b ≤ b := by
  rcases h with ⟨hle, -⟩ | ⟨ha, hb⟩
  · have hself := LawfulBounds.le_self_of_le hle
    exact iff_of_true hself.1 hself.2
  · exact iff_of_false ha hb

namespace Axis

variable [DecidableLE β]

/-- Of two numbers, the further one does not lie further out than when they are exchanged. -/
theorem further_atMost_swap (axis : Axis) (ha : a ≤ a) (hb : b ≤ b) :
    axis.AtMost (axis.further a b) (axis.further b a) := by
  have hself := (axis.atMost_self_iff _).2 (axis.further_le_self hb a)
  obtain ⟨hright, hleft⟩ := (axis.further_atMost_iff hb).1 hself
  exact (axis.further_atMost_iff ha).2 ⟨hleft ha, fun _ => hright⟩

/-- Which of two bounds lies further out does not depend on their order, up to the signs of zeros. -/
theorem further_comm_alike (axis : Axis) (a b : β) :
    Alike (axis.further a b) (axis.further b a) := by
  by_cases ha : a ≤ a <;> by_cases hb : b ≤ b
  · exact .inl (sameNumber_of_atMost (axis.further_atMost_swap ha hb) (axis.further_atMost_swap hb ha))
  · rw [axis.further_of_isNaN_right ha hb, axis.further_of_isNaN_left hb]
    exact .refl a
  · rw [axis.further_of_isNaN_left ha, axis.further_of_isNaN_right hb ha]
    exact .refl b
  · rw [axis.further_of_isNaN_left ha, axis.further_of_isNaN_left hb]
    exact .inr ⟨hb, ha⟩

end Axis

end Bounds

/-! ## Boxes -/

namespace Box

/-- Boxes whose bounds are alike on every side. -/
def Alike {β : Type} [LE β] (a b : Box β) : Prop := ∀ axis, Photoplot.Alike (a.bound axis) (b.bound axis)

instance {β : Type} [LE β] [DecidableLE β] (a b : Box β) : Decidable (a.Alike b) :=
  inferInstanceAs (Decidable (∀ _, _))

section Generic

variable {β : Type} [LE β] {a b c : Box β}

theorem union_self [DecidableLE β] (a : Box β) : a.union a = a := by
  refine eq_of_bound_eq fun axis => ?_
  rw [bound_union, Axis.further_self]

variable [DecidableLE β] [Bounded β] [LawfulBounds β]

theorem union_assoc (a b c : Box β) : (a.union b).union c = a.union (b.union c) := by
  refine eq_of_bound_eq fun axis => ?_
  simp only [bound_union]
  exact axis.further_assoc _ _ _

theorem union_comm_alike (a b : Box β) : (a.union b).Alike (b.union a) := by
  intro axis
  simp only [bound_union]
  exact axis.further_comm_alike _ _

/-- The sides of a union with the empty box are numbers. -/
theorem isNumeric_empty_union (a : Box β) : (empty.union a).IsNumeric := by
  intro axis
  rw [bound_union]
  exact axis.further_le_self (bound_empty_le_self axis) _

/-- The empty box is neutral exactly among boxes whose bounds are numbers. -/
theorem alike_empty_union_iff :
    ((empty.union a).Alike a ∧ (a.union empty).Alike a) ↔ a.IsNumeric := by
  constructor
  · rintro ⟨h, -⟩ axis
    exact (h axis).le_self_iff.1 (isNumeric_empty_union a axis)
  · intro ha
    have hempty := bound_empty_le_self (β := β)
    have hwidens : ∀ axis : Axis, axis.AtMost ((empty : Box β).bound axis) (a.bound axis) :=
      fun axis => atMost_bound_empty axis (ha axis)
    constructor
    · intro axis
      rw [bound_union]
      exact .inl ((axis.sameNumber_further_right_iff (hempty axis) (ha axis)).2 (hwidens axis))
    · intro axis
      rw [bound_union]
      exact .inl ((axis.sameNumber_further_left_iff (ha axis) (hempty axis)).2 (hwidens axis))

/-! ## Least boxes -/

/-- The union is the least box around two boxes. -/
theorem union_widensTo_iff (ha : a.IsNumeric) (hb : b.IsNumeric) :
    (a.union b).WidensTo c ↔ a.WidensTo c ∧ b.WidensTo c := by
  simp only [widensTo_iff, bound_union, ← forall_and]
  refine forall_congr' fun axis => ?_
  rw [axis.further_atMost_iff (ha axis), imp_iff_right (hb axis)]

variable {boxes : List (Box β)}

/-- The hull is the least box around those of a list. -/
theorem hull_widensTo_iff (hboxes : ∀ b ∈ boxes, b.IsNumeric) (hc : c.IsNumeric) :
    (hull boxes).WidensTo c ↔ ∀ b ∈ boxes, b.WidensTo c := by
  have hside : ∀ axis : Axis, axis.AtMost ((hull boxes).bound axis) (c.bound axis) ↔
      ∀ b ∈ boxes, axis.AtMost (b.bound axis) (c.bound axis) := by
    intro axis
    rw [atMost_bound_hull_iff boxes axis (hc axis)]
    exact forall₂_congr fun b hb => imp_iff_right (hboxes b hb axis)
  simp only [widensTo_iff, hside]
  exact ⟨fun h b hb axis => h axis b hb, fun h axis b hb => h b hb axis⟩

/-- Every side of the hull is that of a member, unless there is none. -/
theorem exists_sameNumber_bound_hull (hboxes : ∀ b ∈ boxes, b.IsNumeric) (hne : boxes ≠ [])
    (axis : Axis) : ∃ b ∈ boxes, SameNumber ((hull boxes).bound axis) (b.bound axis) := by
  induction boxes using List.reverseRecOn with
  | nil => exact absurd rfl hne
  | append_singleton boxes b ih =>
    have hb : b.bound axis ≤ b.bound axis := hboxes b (by simp) axis
    rw [hull_concat, bound_union]
    rcases axis.further_eq_or (bound_hull_le_self boxes axis) (b.bound axis) with
      ⟨heq, hle⟩ | ⟨heq, -⟩
    · rw [heq]
      rcases eq_or_ne boxes [] with rfl | hnil
      · -- the empty box reaches no further than the only member, and that no further than it
        exact ⟨b, by simp, Axis.sameNumber_of_atMost (atMost_bound_empty axis hb) (hle hb)⟩
      · obtain ⟨member, hmember, hsame⟩ :=
          ih (fun b hb => hboxes b (List.mem_append_left _ hb)) hnil
        exact ⟨member, List.mem_append_left _ hmember, hsame⟩
    · rw [heq]
      exact ⟨b, by simp, hb, hb⟩

/-- The hull of boxes in another order is the same. -/
theorem same_hull_of_perm {others : List (Box β)} (h : boxes.Perm others) :
    (hull boxes).Same (hull others) := by
  refine same_hull_of_forall fun axis c _ => ?_
  simp only [h.mem_iff]

end Generic

/-! ## Boxes of doubles -/

/-- **Unions of boxes of doubles are joins, hulls are joins of lists.** Up to the signs of zeros, and
whatever the bounds are, unions are associative, commutative and idempotent, and the empty box is
neutral exactly among the boxes all of whose bounds are numbers. A hull does not depend on the order
of the boxes, is the union of the hulls of its parts, and all its bounds are numbers. Among boxes whose
bounds are numbers the union is the least box around both of its boxes and the hull the least one
around all members of the list, each of its sides being that of a member, or that of the empty box when
there is none. -/
theorem join_laws :
    (∀ a b c : Box Float, ((a.union b).union c).Alike (a.union (b.union c))) ∧
    (∀ a b : Box Float, (a.union b).Alike (b.union a)) ∧
    (∀ a : Box Float, (a.union a).Alike a) ∧
    (∀ a : Box Float, ((empty.union a).Alike a ∧ (a.union empty).Alike a) ↔ a.IsNumeric) ∧
    (∀ boxes others : List (Box Float), boxes.Perm others → (hull boxes).Same (hull others)) ∧
    (∀ boxes more : List (Box Float), (hull (boxes ++ more)).Same ((hull boxes).union (hull more))) ∧
    (∀ boxes : List (Box Float), (hull boxes).IsNumeric) ∧
    (∀ a b c : Box Float, a.IsNumeric → b.IsNumeric →
      ((a.union b).WidensTo c ↔ a.WidensTo c ∧ b.WidensTo c)) ∧
    ∀ boxes : List (Box Float), (∀ b ∈ boxes, b.IsNumeric) →
      (∀ b ∈ boxes, b.WidensTo (hull boxes)) ∧
      (∀ c : Box Float, c.IsNumeric → (∀ b ∈ boxes, b.WidensTo c) → (hull boxes).WidensTo c) ∧
      ∀ axis, boxes = [] ∧ (hull boxes).bound axis = (empty : Box Float).bound axis ∨
        ∃ b ∈ boxes, SameNumber ((hull boxes).bound axis) (b.bound axis) := by
  refine ⟨?_, union_comm_alike, ?_, fun a => alike_empty_union_iff, ?_, ?_, bound_hull_le_self,
    fun a b c => union_widensTo_iff, ?_⟩
  · intro a b c axis
    rw [union_assoc]
    exact .refl _
  · intro a axis
    rw [union_self]
    exact .refl _
  · intro boxes others h
    exact same_hull_of_perm h
  · intro boxes more
    rw [hull_append, same_iff]
    intro axis
    have hnumber := bound_hull_le_self (boxes ++ more) axis
    rw [hull_append] at hnumber
    exact ⟨hnumber, hnumber⟩
  · intro boxes hboxes
    have hhull : (hull boxes).IsNumeric := bound_hull_le_self boxes
    have hself : (hull boxes).WidensTo (hull boxes) :=
      (widensTo_iff _ _).2 fun axis => (axis.atMost_self_iff _).2 (hhull axis)
    refine ⟨(hull_widensTo_iff hboxes hhull).1 hself, ?_, ?_⟩
    · intro c hc hmembers
      exact (hull_widensTo_iff hboxes hc).2 hmembers
    · intro axis
      rcases eq_or_ne boxes [] with rfl | hne
      · exact .inl ⟨rfl, rfl⟩
      · exact .inr (exists_sameNumber_bound_hull hboxes hne axis)

/-- A box without a left side, whose lower side is a negative zero. -/
def halfOpen : Box Float := ⟨0.0 / 0.0, -0.0, 1, 1.0 / 0.0⟩

/-- A box whose lower bounds lie above its upper ones. -/
def insideOut : Box Float := ⟨2, 0, -1, -3⟩

/-- The laws for a box without a left side, to which the empty box is not neutral, and for one that is
inside out and counts like any other. -/
theorem join_laws_halfOpen :
    ((halfOpen.union insideOut).union halfOpen).Alike (halfOpen.union (insideOut.union halfOpen)) ∧
    ¬ ((empty.union halfOpen).Alike halfOpen ∧ (halfOpen.union empty).Alike halfOpen) ∧
    [halfOpen, insideOut].Perm [insideOut, halfOpen] ∧
    (hull [halfOpen, insideOut]).Same (hull [insideOut, halfOpen]) ∧
    (∀ b ∈ [insideOut], b.IsNumeric) ∧ insideOut.WidensTo (hull [insideOut]) := by
  have hperm : [halfOpen, insideOut].Perm [insideOut, halfOpen] := .swap _ _ _
  have hnumeric : ∀ b ∈ [insideOut], b.IsNumeric := by decide
  obtain ⟨hassoc, -, -, hneutral, horder, -, -, -, hleast⟩ := join_laws
  have hblank : ¬ halfOpen.IsNumeric := by decide
  exact ⟨hassoc _ _ _, mt (hneutral halfOpen).1 hblank, hperm, horder _ _ hperm, hnumeric,
    (hleast _ hnumeric).1 _ (List.mem_singleton_self _)⟩

end Box

end Photoplot
