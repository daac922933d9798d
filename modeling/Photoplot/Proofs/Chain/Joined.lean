import Mathlib.Data.List.Chain
import Photoplot.Proofs.Chain
import Photoplot.Proofs.Binary64.Finite
import Photoplot.Shape

/-!
# Joined rings

Whether the lines of a ring still join where edges are left out. A ring compares neighbouring points
only. An edge left out between two that are kept moves the line by no more than the tolerance, but
several in a row can lead further away than that.

* `isChain_filter_iff`: when what is kept of a list is a chain;
* `Segment.Joined`: segments that follow each other in a circle, up to the tolerance;
* `Segment.Gap`: edges in a row that a ring leaves out between two that it keeps;
* `Segment.joined_ring_iff`: **a ring is joined exactly when all its gaps close up**;
* `Shape.joined_outline_polygon_iff`: **for finite points only gaps of two edges or more can fail to**;
* `driftingPoints`: a polygon whose outline is not joined.
-/

namespace Photoplot

/-- The entries of a list that are kept follow each other in some way exactly when any two of them do
between which all entries are left out. -/
theorem isChain_filter_iff {β : Type} (R : β → β → Prop) (keep : β → Bool) (l : List β) :
    (l.filter keep).IsChain R ↔
      ∀ before left after, before :: (left ++ [after]) <:+: l → keep before → keep after →
        (∀ b ∈ left, ¬ keep b) → R before after := by
  rw [List.isChain_iff_forall_rel_of_append_cons_cons]
  constructor
  · rintro h before left after ⟨front, rest, rfl⟩ hbefore hafter hleft
    have hnone : left.filter keep = [] := List.filter_eq_nil_iff.2 hleft
    have hrow : (front ++ before :: (left ++ [after]) ++ rest).filter keep =
        front.filter keep ++ before :: after :: rest.filter keep := by
      simp [hbefore, hafter, hnone]
    exact h hrow
  · intro h before after front rest hfilter
    obtain ⟨l₁, l₂, rfl, -, hl₂⟩ := List.filter_eq_append_iff.1 hfilter
    obtain ⟨skipped, l₃, rfl, -, hbefore, hl₃⟩ := List.filter_eq_cons_iff.1 hl₂
    obtain ⟨left, l₄, rfl, hleft, hafter, -⟩ := List.filter_eq_cons_iff.1 hl₃
    exact h before left after ⟨l₁ ++ skipped, l₄, by simp⟩ hbefore hafter hleft

namespace Segment

variable {α : Type}

@[simp] theorem leads_nil_iff {p q : Point α} : Leads p [] q ↔ p = q := by
  constructor
  · rintro ⟨⟩
    rfl
  · rintro rfl
    exact .nil p

@[simp] theorem leads_cons_iff {p q : Point α} {s : Segment α} {segments : List (Segment α)} :
    Leads p (s :: segments) q ↔ p = s.start ∧ Leads s.stop segments q := by
  constructor
  · rintro ⟨⟩
    exact ⟨rfl, by assumption⟩
  · rintro ⟨rfl, h⟩
    exact .cons s h

/-- Segments that lead from one point to another and then on to a third one. -/
theorem Leads.append {p q r : Point α} {first second : List (Segment α)} (h : Leads p first q)
    (h' : Leads q second r) : Leads p (first ++ second) r := by
  induction h with
  | nil p => exact h'
  | cons s rest ih => exact .cons s (ih h')

/-- Segments that lead somewhere lead there by way of a point between any two of them. -/
theorem Leads.exists_of_append {p r : Point α} {first second : List (Segment α)}
    (h : Leads p (first ++ second) r) : ∃ q, Leads p first q ∧ Leads q second r := by
  induction first generalizing p with
  | nil => exact ⟨p, .nil p, h⟩
  | cons s first ih =>
    rw [List.cons_append, leads_cons_iff] at h
    obtain ⟨rfl, hrest⟩ := h
    obtain ⟨q, hfirst, hsecond⟩ := ih hrest
    exact ⟨q, .cons s hfirst, hsecond⟩

/-- Part of the segments that lead somewhere lead on from the one before to the one after. -/
theorem Leads.infix {p q : Point α} {segments left : List (Segment α)} {before after : Segment α}
    (h : Leads p segments q) (hpart : before :: (left ++ [after]) <:+: segments) :
    Leads before.stop left after.start := by
  obtain ⟨front, rest, rfl⟩ := hpart
  obtain ⟨_, h, -⟩ := h.exists_of_append
  obtain ⟨_, -, h⟩ := h.exists_of_append
  obtain ⟨-, h⟩ := leads_cons_iff.1 h
  obtain ⟨_, hleft, hafter⟩ := h.exists_of_append
  obtain ⟨rfl, -⟩ := leads_cons_iff.1 hafter
  exact hleft

variable [Scalar α]

/-- Segments each of which ends in a point that counts as the one where the next one starts, and the
last one in a point that counts as the one where the first one starts. -/
def Joined (segments : List (Segment α)) : Prop :=
  (segments ++ segments.take 1).IsChain fun s t => s.stop.Coincide t.start

instance (segments : List (Segment α)) : Decidable (Joined segments) :=
  inferInstanceAs (Decidable (List.IsChain _ _))

/-- Segments are joined exactly when they follow each other where they are gone round twice. -/
theorem joined_iff_isChain_append_self (segments : List (Segment α)) :
    Joined segments ↔ (segments ++ segments).IsChain fun s t => s.stop.Coincide t.start := by
  unfold Joined
  rw [List.isChain_append, List.isChain_append]
  cases segments <;> simp

/-- A gap in a ring: going round, edges in a row that are left out between two that are kept. -/
structure Gap (points : List (Point α)) (before : Line α) (left : List (Line α)) (after : Line α) :
    Prop where
  /-- The edges are in a row, perhaps past the last one. -/
  row : before :: (left ++ [after]) <:+: edges points ++ edges points
  /-- The edge before is kept. -/
  before_kept : ¬ before.start.Coincide before.stop
  /-- The edges between are left out. -/
  left_out : ∀ l ∈ left, l.start.Coincide l.stop
  /-- The edge after is kept. -/
  after_kept : ¬ after.start.Coincide after.stop

/-- The edges that are left out lead from where the edge before ends to where the edge after starts. -/
theorem Gap.leads {points : List (Point α)} {before after : Line α} {left : List (Line α)}
    (h : Gap points before left after) : Leads before.stop (left.map line) after.start := by
  cases points with
  | nil =>
    obtain ⟨front, rest, hrow⟩ := h.row
    simp [edges] at hrow
  | cons p points =>
    have hround : Leads p ((edges (p :: points)).map line) p := leads_zip points p p
    have htwice := hround.append hround
    rw [← List.map_append] at htwice
    have hrow := h.row.map line
    rw [List.map_cons, List.map_append] at hrow
    exact htwice.infix hrow

/-- **When a ring is joined.** -/
theorem joined_ring_iff (points : List (Point α)) :
    Joined (ring points) ↔ ∀ before left after, Gap points before left after →
      before.stop.Coincide after.start := by
  rw [joined_iff_isChain_append_self, ring_eq_map_sides, ← List.map_append, List.isChain_map, sides,
    ← List.filter_append, isChain_filter_iff]
  simp only [decide_eq_true_eq, Decidable.not_not]
  constructor
  · intro h before left after hgap
    exact h before left after hgap.row hgap.before_kept hgap.after_kept hgap.left_out
  · intro h before left after hrow hbefore hafter hleft
    exact h before left after ⟨hrow, hbefore, hleft, hafter⟩

/-- The points of a gap are among those of the ring. -/
theorem Gap.start_mem {points : List (Point α)} {before after : Line α} {left : List (Line α)}
    (h : Gap points before left after) : after.start ∈ points := by
  have hrow : after ∈ edges points ++ edges points := h.row.subset (by simp)
  obtain ⟨⟨p, q⟩, hz, rfl⟩ := List.mem_map.1 ((List.mem_append.1 hrow).elim id id)
  exact (List.of_mem_zip hz).1

end Segment

/-- **When the outline of a polygon is joined.** The outline of a polygon with finite points is joined
exactly when every run of two or more edges that it leaves out in a row ends close to where it
starts. A single edge left out never parts the lines around it. -/
theorem Shape.joined_outline_polygon_iff {points : List (Point Float)}
    (hfinite : ∀ p ∈ points, p.IsFinite) :
    Segment.Joined (Shape.polygon points).outline ↔
      ∀ before left after, Segment.Gap points before left after → 2 ≤ left.length →
        before.stop.Coincide after.start := by
  rw [outline, Segment.joined_ring_iff]
  constructor
  · intro h before left after hgap _
    exact h before left after hgap
  · intro h before left after hgap
    rcases left with _ | ⟨l, _ | ⟨l', left⟩⟩
    · obtain hends : before.stop = after.start := by simpa using hgap.leads
      rw [hends]
      exact (hfinite _ hgap.start_mem).coincide_self
    · obtain ⟨hstart, hstop⟩ : before.stop = l.start ∧ l.stop = after.start := by
        simpa [Segment.start, Segment.stop] using hgap.leads
      rw [hstart, ← hstop]
      exact hgap.left_out l (List.mem_singleton_self l)
    · exact h before _ after hgap (by simp)

/-- A corner, two points that each lie close to the one before, and another corner. -/
def driftingPoints : List (Point Float) :=
  [⟨0, 0⟩, ⟨1, 0⟩, ⟨1.0000000009, 0⟩, ⟨1.0000000018, 0⟩, ⟨1, 1⟩]

/-- The two edges between the close points are left out in a row and lead too far, so that the line
before them does not reach the one after. -/
theorem Shape.joined_outline_polygon_iff_drifting :
    (∀ p ∈ driftingPoints, p.IsFinite) ∧ ¬ Segment.Joined (Shape.polygon driftingPoints).outline := by
  have hfinite : ∀ p ∈ driftingPoints, p.IsFinite := by decide
  refine ⟨hfinite, ?_⟩
  rw [Shape.joined_outline_polygon_iff hfinite]
  intro h
  have hclose := h ⟨⟨0, 0⟩, ⟨1, 0⟩⟩
    [⟨⟨1, 0⟩, ⟨1.0000000009, 0⟩⟩, ⟨⟨1.0000000009, 0⟩, ⟨1.0000000018, 0⟩⟩]
    ⟨⟨1.0000000018, 0⟩, ⟨1, 1⟩⟩
    ⟨⟨[], _, rfl⟩, by decide, by decide, by decide⟩ (by decide)
  exact absurd hclose (by decide)

/-- Not every polygon has a joined outline. -/
theorem Shape.not_forall_joined_outline_polygon :
    ¬ ∀ points : List (Point Float), (∀ p ∈ points, p.IsFinite) →
      Segment.Joined (Shape.polygon points).outline := by
  intro h
  exact absurd (h driftingPoints (by decide)) (by decide)

end Photoplot
