import Photoplot.Segment

/-!
# Chains of segments

Segments that follow each other, each from where the one before it ends. A ring of lines leaves out
the edges whose ends count as one point; it is still a closed chain when those ends are one point.

* `Segment.Leads`: segments that lead from one point to another;
* `Segment.Closed`: segments that follow each other in a circle;
* `Segment.edges`, `Segment.sides`: all edges through a list of points, and those that a ring keeps;
* `Segment.closed_sides`: **a ring is a closed chain when the edges it leaves out have no length.**
-/

namespace Photoplot

namespace Segment

variable {α : Type}

/-- Segments that lead from one point to another, each from where the one before it ends. -/
inductive Leads : Point α → List (Segment α) → Point α → Prop
  /-- No segments lead anywhere else. -/
  | nil (p : Point α) : Leads p [] p
  /-- A segment leads to its end, and the others lead on from there. -/
  | cons (s : Segment α) {segments : List (Segment α)} {q : Point α}
      (rest : Leads s.stop segments q) : Leads s.start (s :: segments) q

/-- Segments each of which ends where the next one starts, and the last one where the first one
starts. -/
def Closed (segments : List (Segment α)) : Prop :=
  segments.map stop = (segments.map start).drop 1 ++ (segments.map start).take 1

/-- The points on the way are the starts with the last end, and the first start with the ends. -/
theorem Leads.cons_map_stop {p q : Point α} {segments : List (Segment α)}
    (h : Leads p segments q) : p :: segments.map stop = segments.map start ++ [q] := by
  induction h with
  | nil p => rfl
  | cons s rest ih => rw [List.map_cons, List.map_cons, ih, List.cons_append]

/-- Segments that lead back to where they start follow each other in a circle. -/
theorem Leads.closed {p : Point α} {segments : List (Segment α)} (h : Leads p segments p) :
    Closed segments := by
  have hpoints := h.cons_map_stop
  cases segments with
  | nil => rfl
  | cons s segments =>
    rw [List.map_cons, List.map_cons, List.cons_append, List.cons.injEq] at hpoints
    obtain ⟨rfl, hpoints⟩ := hpoints
    simpa [Closed] using hpoints

/-- Segments still lead there without some that end where they start. -/
theorem Leads.filter {p q : Point α} {segments : List (Segment α)} (h : Leads p segments q)
    {keep : Segment α → Bool} (hdrop : ∀ s ∈ segments, keep s = false → s.start = s.stop) :
    Leads p (segments.filter keep) q := by
  induction h with
  | nil p => exact .nil p
  | cons s rest ih =>
    have hrest := ih fun t ht => hdrop t (List.mem_cons_of_mem _ ht)
    cases hkeep : keep s with
    | true =>
      rw [List.filter_cons_of_pos hkeep]
      exact .cons s hrest
    | false =>
      rw [List.filter_cons_of_neg (by simp [hkeep]), hdrop s List.mem_cons_self hkeep]
      exact hrest

/-! ## Rings -/

/-- The edges through a list of points, the last one back to the first point. -/
def edges (points : List (Point α)) : List (Line α) :=
  (points.zip (points.drop 1 ++ points.take 1)).map fun (p, q) => ⟨p, q⟩

/-- The edges lead through the points in order. -/
theorem leads_zip (points : List (Point α)) (p q : Point α) :
    Leads p ((((p :: points).zip (points ++ [q])).map fun (u, v) => (⟨u, v⟩ : Line α)).map line)
      q := by
  induction points generalizing p with
  | nil => exact .cons (line ⟨p, q⟩) (.nil q)
  | cons next points ih => exact .cons (line ⟨p, next⟩) (ih next)

variable [Scalar α]

/-- The edges that a ring keeps: those whose ends do not count as one point. -/
def sides (points : List (Point α)) : List (Line α) :=
  (edges points).filter fun l => ¬ l.start.Coincide l.stop

theorem ring_eq_map_sides (points : List (Point α)) : ring points = (sides points).map line := by
  have hring : ring points = (edges points).filterMap fun l => between? l.start l.stop := by
    rw [edges, List.filterMap_map]
    rfl
  rw [hring, sides]
  induction edges points with
  | nil => rfl
  | cons l ls ih =>
    by_cases h : l.start.Coincide l.stop
    · have hedge : between? l.start l.stop = none := by simp [between?, h]
      rw [List.filterMap_cons, hedge, List.filter_cons_of_neg (by simpa using h), ih]
    · have hedge : between? l.start l.stop = some (line l) := by simp [between?, h]
      rw [List.filterMap_cons, hedge, List.filter_cons_of_pos (by simpa using h), ih, List.map_cons]

/-- **A ring is a closed chain** when the edges that it leaves out have no length. -/
theorem closed_sides {points : List (Point α)}
    (h : ∀ l ∈ edges points, l.start.Coincide l.stop → l.start = l.stop) :
    Closed ((sides points).map line) := by
  cases points with
  | nil => rfl
  | cons p points =>
    have hleads : Leads p ((edges (p :: points)).map line) p := leads_zip points p p
    have hdropped : ∀ s ∈ (edges (p :: points)).map line,
        decide (¬ s.start.Coincide s.stop) = false → s.start = s.stop := by
      intro s hs hdrop
      obtain ⟨l, hl, rfl⟩ := List.mem_map.1 hs
      exact h l hl (Decidable.not_not.1 (of_decide_eq_false hdrop))
    have hkept := hleads.filter hdropped
    rw [List.filter_map] at hkept
    exact hkept.closed

end Segment

end Photoplot
