import Mathlib.Data.List.Chain
import Photoplot.Proofs.Run.Refusal

/-!
# How strokes are grouped

Which strokes of a run share a node of the finished picture. A stroke that is obeyed always leaves a
figure open, and that figure will stand right after the parts that are complete by then; so the
place of its node is known at once, and does not change any more.

* `Stroke.Joins`: when a stroke joins the group of the stroke just before it;
* `Plot.record`: the obeyed commands of a run with the places at which they leave the plot;
* `Receives`: the node that a group of strokes makes, which for no strokes is a shape;
* `groupCount`: the groups in a sequence of commands, counted without looking at nodes;
* `Plot.grouped_run`: **strokes made one after the other share a node exactly when the later one
  joins the earlier one's group, every node is made by one group or is a shape, and there are as
  many nodes as groups and shapes.**
-/

namespace Photoplot

variable {α : Type} [Scalar α]

/-! ## Groups -/

namespace Stroke

/-- Whether a stroke joins the group of the stroke made just before it. Neither may sweep a region
of its own, both are in region mode or neither is, and outside region mode a circular tool has to
draw lines as wide as the stroke that opened the group. -/
def Joins (opener previous s : Stroke α) : Prop :=
  ¬ previous.Sweeps ∧ ¬ s.Sweeps ∧ previous.regionMode = s.regionMode ∧
    (s.regionMode = false →
      ∀ diameter ∈ s.tool.bind Tool.diameter?, SameNumber diameter opener.width)

instance (opener previous s : Stroke α) : Decidable (Joins opener previous s) :=
  inferInstanceAs (Decidable (_ ∧ _))

/-- Once a stroke has joined, it is as good as the one before it for those that follow. -/
theorem Joins.joins_iff {opener previous s : Stroke α} (h : Joins opener previous s)
    (next : Stroke α) : Joins opener s next ↔ Joins opener previous next := by
  obtain ⟨hprevious, hs, hmode, -⟩ := h
  simp [Joins, hprevious, hs, hmode]

end Stroke

/-- The number of groups that commands make, when a stroke may be open: the stroke that opened the
group and the latest one in it. A stroke that does not join begins a group, and every command other
than a stroke ends one. -/
def groupCount (open? : Option (Stroke α × Stroke α)) : List (Command α) → ℕ
  | [] => 0
  | .stroke s :: cs =>
    match open? with
    | none => groupCount (some (s, s)) cs + 1
    | some (opener, previous) =>
      if Stroke.Joins opener previous s then groupCount (some (opener, s)) cs
      else groupCount (some (s, s)) cs + 1
  | .flash _ _ :: cs => groupCount none cs
  | .add _ :: cs => groupCount none cs
  | .close :: cs => groupCount none cs

/-- Whether a command adds a shape. -/
def Command.addsShape : Command α → Bool
  | stroke _ => false
  | flash _ _ => true
  | add _ => true
  | close => false

/-! ## Figures that wait for strokes -/

namespace Figure

/-- A figure takes exactly the strokes that join the group of an opener and a latest stroke. -/
def Awaits (f : Figure α) (opener latest : Stroke α) : Prop :=
  ∀ s : Stroke α, f.breakReason? s.tool s.regionMode = none ↔ Stroke.Joins opener latest s

@[simp] theorem breakReason?_extended (f : Figure α) (more : List (Segment α))
    (tool : Option (Tool α)) (regionMode : Bool) :
    (f.extended more).breakReason? tool regionMode = f.breakReason? tool regionMode := by
  match f, regionMode with
  | path _ _, true | path _ _, false => rfl
  | region true _, true | region true _, false | region false _, true | region false _, false => rfl

/-- A path takes a stroke outside region mode that sweeps nothing and draws no other width. -/
theorem breakReason?_path_eq_none_iff (width : α) (segments : List (Segment α)) (s : Stroke α) :
    (path width segments).breakReason? s.tool s.regionMode = none ↔
      s.regionMode = false ∧ ¬ s.Sweeps ∧
        ∀ diameter ∈ s.tool.bind Tool.diameter?, SameNumber diameter width := by
  cases hmode : s.regionMode with
  | true => simp [breakReason?]
  | false =>
    have hsame : (∀ diameter ∈ s.tool.bind Tool.diameter?, SameNumber diameter width) ↔
        ¬ DrawsOtherWidth s.tool width := by
      simp [DrawsOtherWidth]
    rw [hsame]
    by_cases hwidth : DrawsOtherWidth s.tool width
    · simp [breakReason?, hwidth]
    · by_cases hsize : (s.tool.bind Tool.rectangle?).isSome <;>
        simp [breakReason?, Stroke.Sweeps, hwidth, hsize, hmode]

/-- A region drawn in region mode takes a stroke in region mode. -/
theorem breakReason?_region_eq_none_iff (segments : List (Segment α)) (s : Stroke α) :
    (region true segments).breakReason? s.tool s.regionMode = none ↔ s.regionMode = true := by
  cases s.regionMode <;> simp [breakReason?]

/-- A swept region takes no stroke. -/
theorem breakReason?_swept_ne_none (segments : List (Segment α)) (s : Stroke α) :
    (region false segments).breakReason? s.tool s.regionMode ≠ none := by
  cases s.regionMode <;> simp [breakReason?]

/-- The figure that a stroke opens awaits those that join it. -/
theorem awaits_alone (o : Options α) (s : Stroke α) : (s.alone o).Awaits s s := by
  intro next
  unfold Stroke.alone
  by_cases hsweep : s.Sweeps
  · simp [hsweep, Stroke.Joins, breakReason?_swept_ne_none]
  · cases hmode : s.regionMode with
    | true =>
      have hnext : next.regionMode = true → ¬ next.Sweeps := by
        rintro hregion ⟨hplain, -⟩
        rw [hregion] at hplain
        cases hplain
      simp only [hsweep, if_false, if_true, breakReason?_region_eq_none_iff, Stroke.Joins, hmode]
      grind
    | false =>
      simp only [hsweep, if_false, Bool.false_eq_true, breakReason?_path_eq_none_iff, Stroke.Joins,
        hmode]
      grind

/-- A figure that has taken a stroke awaits those that join the same group. -/
theorem Awaits.extended {f : Figure α} {opener previous s : Stroke α}
    (h : f.Awaits opener previous) (hs : Stroke.Joins opener previous s)
    (more : List (Segment α)) : (f.extended more).Awaits opener s := by
  intro next
  rw [breakReason?_extended, h next, hs.joins_iff]

end Figure

/-! ## The number of nodes -/

namespace Plot

/-- The group that is open, as its opener and its latest stroke, is the one that the open figure
awaits strokes for. -/
def OpenGroup (p : Plot α) (open? : Option (Stroke α × Stroke α)) : Prop :=
  match p.current, open? with
  | none, none => True
  | some f, some (opener, latest) => f.Awaits opener latest
  | _, _ => False

theorem openGroup_none {p : Plot α} (h : p.current = none) : p.OpenGroup none := by
  simp [OpenGroup, h]

theorem openGroup_some {p : Plot α} {f : Figure α} {opener latest : Stroke α}
    (h : p.current = some f) (hf : f.Awaits opener latest) :
    p.OpenGroup (some (opener, latest)) := by
  simpa [OpenGroup, h] using hf

omit [Scalar α] in
/-- A finished plot has a node for every complete part and one for the open figure. -/
theorem length_nodes_finish (p : Plot α) :
    p.finish.nodes.length = p.nodes.length + p.current.toList.length := by
  simp [finish, close]

/-- An obeyed stroke adds no node when it joins the open group, else one, and then its own group is
open. -/
theorem groupCount_stroke {p q : Plot α} {s : Stroke α} (h : p.Stroked s q)
    {open? : Option (Stroke α × Stroke α)} (hopen : p.OpenGroup open?) (cs : List (Command α)) :
    ∃ next, q.OpenGroup next ∧
      p.finish.nodes.length + groupCount open? (.stroke s :: cs) =
        q.finish.nodes.length + groupCount next cs := by
  cases h with
  | joined f isOpen takes =>
    obtain ⟨⟨opener, latest⟩, rfl⟩ : ∃ group, open? = some group := by
      cases open? with
      | none => simp [OpenGroup, isOpen] at hopen
      | some group => exact ⟨group, rfl⟩
    have hf : f.Awaits opener latest := by simpa [OpenGroup, isOpen] using hopen
    have hjoins := (hf s).1 takes
    refine ⟨some (opener, s), openGroup_some rfl (hf.extended hjoins _), ?_⟩
    simp [groupCount, hjoins, length_nodes_finish, isOpen]
  | opened breaks =>
    refine ⟨some (s, s), openGroup_some rfl (Figure.awaits_alone _ s), ?_⟩
    have hcount : groupCount open? (.stroke s :: cs) = groupCount (some (s, s)) cs + 1 := by
      cases open? with
      | none => rfl
      | some group =>
        obtain ⟨f, hf⟩ : ∃ f, p.current = some f := by
          cases hcurrent : p.current with
          | none => simp [OpenGroup, hcurrent] at hopen
          | some f => exact ⟨f, rfl⟩
        have hawaits : f.Awaits group.1 group.2 := by simpa [OpenGroup, hf] using hopen
        have hjoins : ¬ Stroke.Joins group.1 group.2 s := by
          intro hjoins
          exact breaks f hf ((hawaits s).2 hjoins)
        simp [groupCount, hjoins]
    rw [hcount]
    simp [length_nodes_finish, close]
    omega

/-- The nodes of a finished run are those that were there, the shapes added and the groups made. -/
theorem length_nodes_foldl_attempt (p : Plot α) {open? : Option (Stroke α × Stroke α)}
    (hopen : p.OpenGroup open?) (commands : List (Command α)) :
    (commands.foldl attempt p).finish.nodes.length =
      p.finish.nodes.length + (p.obeyed commands).countP Command.addsShape +
        groupCount open? (p.obeyed commands) := by
  induction commands generalizing p open? with
  | nil => simp [groupCount]
  | cons c cs ih =>
    rw [List.foldl_cons]
    cases hperform : p.perform c with
    | error e =>
      rw [obeyed_cons_of_error hperform, attempt_of_error hperform]
      exact ih p hopen
    | ok q =>
      rw [obeyed_cons_of_ok hperform, attempt_of_ok hperform]
      cases c with
      | stroke s =>
        obtain ⟨next, hnext, hcount⟩ :=
          groupCount_stroke (stroked_of_stroke hperform) hopen (q.obeyed cs)
        rw [ih q hnext, List.countP_cons_of_neg (by simp [Command.addsShape])]
        omega
      | flash tool position =>
        cases hperform
        rw [ih _ (openGroup_none rfl), List.countP_cons_of_pos (by rfl)]
        simp [groupCount, length_nodes_finish, add, close]
        omega
      | add shape =>
        cases hperform
        rw [ih _ (openGroup_none rfl), List.countP_cons_of_pos (by rfl)]
        simp [groupCount, length_nodes_finish, add, close]
        omega
      | close =>
        cases hperform
        rw [ih _ (openGroup_none rfl), List.countP_cons_of_neg (by simp [Command.addsShape])]
        simp [groupCount, length_nodes_finish, close]

end Plot

/-! ## The places of strokes -/

/-- An obeyed command, and the number of parts that are complete after it. For a stroke that is the
place among the nodes of the finished picture of the figure that it leaves open. -/
structure Entry (α : Type) where
  /-- The command. -/
  command : Command α
  /-- The place. -/
  place : ℕ

namespace Entry

/-- The stroke of an entry, if it is one. -/
def stroke? (e : Entry α) : Option (Stroke α) :=
  match e.command with
  | .stroke s => some s
  | _ => none

omit [Scalar α] in
@[simp] theorem stroke?_stroke (s : Stroke α) (place : ℕ) :
    (⟨.stroke s, place⟩ : Entry α).stroke? = some s := rfl

end Entry

/-- The obeyed commands of a run with their places. -/
def Plot.record (p : Plot α) : List (Command α) → List (Entry α)
  | [] => []
  | c :: cs =>
    match p.perform c with
    | .ok next => ⟨c, next.nodes.length⟩ :: next.record cs
    | .error _ => p.record cs

/-- The strokes recorded at a place, in their order. -/
def strokesAt (record : List (Entry α)) (place : ℕ) : List (Stroke α) :=
  record.filterMap fun e => if e.place = place then e.stroke? else none

/-- The node that a group of strokes makes, or a shape, which is made by no strokes. -/
inductive Receives (o : Options α) : Node α → List (Stroke α) → Prop
  /-- A path has the width of the stroke that opened it and takes strokes outside region mode. -/
  | path (opener : Stroke α) (others : List (Stroke α))
      (plain : ∀ s ∈ opener :: others, s.regionMode = false ∧ ¬ s.Sweeps) :
      Receives o (.figure (.path opener.width ((opener :: others).flatMap (Stroke.drawn o))))
        (opener :: others)
  /-- A region drawn in region mode takes strokes in region mode. -/
  | region (opener : Stroke α) (others : List (Stroke α))
      (bounding : ∀ s ∈ opener :: others, s.regionMode = true) :
      Receives o (.figure (.region true ((opener :: others).flatMap (Stroke.drawn o))))
        (opener :: others)
  /-- A swept region is made by one stroke alone. -/
  | swept (s : Stroke α) (sweeps : s.Sweeps) :
      Receives o (.figure (.region false (s.drawn o))) [s]
  /-- A shape takes no strokes. -/
  | shape (shape : Shape α) : Receives o (.shape shape) []

/-- How the strokes of a record are distributed among nodes. -/
structure Grouped (o : Options α) (record : List (Entry α)) (nodes : List (Node α)) : Prop where
  /-- Two strokes made one after the other share a node exactly when the later one joins the group
  of the earlier one, whose width is that of the stroke that opened the node. -/
  neighbours : record.IsChain fun x y => ∀ previous ∈ x.stroke?, ∀ s ∈ y.stroke?,
    ∃ opener ∈ (strokesAt record x.place).head?,
      (x.place = y.place ↔ Stroke.Joins opener previous s)
  /-- Places never go back, and no stroke after a shape or a close goes to the place of one before
  it. -/
  ordered : record.Pairwise fun x y =>
    x.place ≤ y.place ∧ (x.stroke?.isSome → y.stroke? = none → x.place < y.place)
  /-- Every stroke has its node. -/
  landed : ∀ e ∈ record, e.stroke?.isSome → e.place < nodes.length
  /-- Every node is made by the strokes at its place. -/
  receives : ∀ place node, nodes[place]? = some node →
    Receives o node (strokesAt record place)

theorem Receives.alone (o : Options α) (s : Stroke α) : Receives o (.figure (s.alone o)) [s] := by
  unfold Stroke.alone
  by_cases hsweep : s.Sweeps
  · simpa [hsweep] using Receives.swept s hsweep
  · cases hmode : s.regionMode with
    | true => simpa [hsweep, hmode] using Receives.region (o := o) s [] (by simp [hmode])
    | false => simpa [hsweep, hmode] using Receives.path (o := o) s [] (by simp [hmode, hsweep])

/-- A node that takes one more stroke is made by one stroke more. -/
theorem Receives.extended {o : Options α} {f : Figure α} {strokes : List (Stroke α)}
    (h : Receives o (.figure f) strokes) {s : Stroke α}
    (takes : f.breakReason? s.tool s.regionMode = none) :
    Receives o (.figure (f.extended (s.drawn o))) (strokes ++ [s]) := by
  cases h with
  | path opener others plain =>
    rw [Figure.breakReason?_path_eq_none_iff] at takes
    have hplain : ∀ t ∈ opener :: (others ++ [s]), t.regionMode = false ∧ ¬ t.Sweeps := by
      grind
    simpa [Figure.extended] using Receives.path (o := o) opener (others ++ [s]) hplain
  | region opener others bounding =>
    rw [Figure.breakReason?_region_eq_none_iff] at takes
    have hbounding : ∀ t ∈ opener :: (others ++ [s]), t.regionMode = true := by
      grind
    simpa [Figure.extended] using Receives.region (o := o) opener (others ++ [s]) hbounding
  | swept previous sweeps => exact absurd takes (Figure.breakReason?_swept_ne_none _ _)

/-! ## Records that grow -/

omit [Scalar α] in
theorem strokesAt_concat (record : List (Entry α)) (e : Entry α) (place : ℕ) :
    strokesAt (record ++ [e]) place =
      strokesAt record place ++ (if e.place = place then e.stroke? else none).toList := by
  simp only [strokesAt, List.filterMap_append, List.filterMap_cons, List.filterMap_nil]
  cases (if e.place = place then e.stroke? else none) <;> rfl

omit [Scalar α] in
theorem strokesAt_concat_of_ne (record : List (Entry α)) {e : Entry α} {place : ℕ}
    (h : e.place ≠ place) : strokesAt (record ++ [e]) place = strokesAt record place := by
  simp [strokesAt_concat, h]

omit [Scalar α] in
theorem strokesAt_concat_of_stroke?_eq_none (record : List (Entry α)) {e : Entry α}
    (h : e.stroke? = none) (place : ℕ) :
    strokesAt (record ++ [e]) place = strokesAt record place := by
  simp [strokesAt_concat, h]

omit [Scalar α] in
theorem strokesAt_concat_stroke (record : List (Entry α)) (s : Stroke α) (place : ℕ) :
    strokesAt (record ++ [⟨.stroke s, place⟩]) place = strokesAt record place ++ [s] := by
  simp [strokesAt_concat, Entry.stroke?]

omit [Scalar α] in
/-- The strokes at a place stay the first ones there. -/
theorem head?_strokesAt_concat {record : List (Entry α)} {place : ℕ} {opener : Stroke α}
    (h : opener ∈ (strokesAt record place).head?) (e : Entry α) :
    opener ∈ (strokesAt (record ++ [e]) place).head? := by
  rw [strokesAt_concat, List.head?_append, Option.mem_def.1 h]
  rfl

namespace Grouped

variable {o : Options α} {record : List (Entry α)} {nodes : List (Node α)}

/-- Nothing is recorded at the place after the last node. -/
theorem strokesAt_length (h : Grouped o record nodes) : strokesAt record nodes.length = [] := by
  rw [strokesAt, List.filterMap_eq_nil_iff]
  intro e he
  by_cases hplace : e.place = nodes.length
  · rw [if_pos hplace, ← Option.not_isSome_iff_eq_none]
    intro hstroke
    have hlanded := h.landed e he hstroke
    omega
  · rw [if_neg hplace]

/-- One more entry: what it has to satisfy with those before it, and with the nodes after it. -/
theorem concat (h : Grouped o record nodes) {e : Entry α} {next : List (Node α)}
    (neighbour : ∀ x ∈ record.getLast?, ∀ previous ∈ x.stroke?, ∀ s ∈ e.stroke?,
      ∃ opener ∈ (strokesAt record x.place).head?,
        (x.place = e.place ↔ Stroke.Joins opener previous s))
    (place_le : ∀ x ∈ record, x.place ≤ e.place)
    (place_lt : e.stroke? = none → ∀ x ∈ record, x.stroke?.isSome → x.place < e.place)
    (length_le : nodes.length ≤ next.length) (landed : e.stroke?.isSome → e.place < next.length)
    (receives : ∀ place node, next[place]? = some node →
      Receives o node (strokesAt (record ++ [e]) place)) :
    Grouped o (record ++ [e]) next where
  neighbours := by
    rw [List.isChain_append]
    refine ⟨h.neighbours.imp ?_, List.isChain_singleton e, ?_⟩
    · intro x y hxy previous hprevious s hs
      obtain ⟨opener, hopener, hjoins⟩ := hxy previous hprevious s hs
      exact ⟨opener, head?_strokesAt_concat hopener e, hjoins⟩
    · intro x hx y hy previous hprevious s hs
      obtain rfl : e = y := by simpa using hy
      obtain ⟨opener, hopener, hjoins⟩ := neighbour x hx previous hprevious s hs
      exact ⟨opener, head?_strokesAt_concat hopener e, hjoins⟩
  ordered := by
    refine List.pairwise_append.2 ⟨h.ordered, List.pairwise_singleton _ _, ?_⟩
    intro x hx y hy
    obtain rfl : y = e := by simpa using hy
    refine ⟨place_le x hx, ?_⟩
    intro hstroke hother
    exact place_lt hother x hx hstroke
  landed := by
    intro x hx hstroke
    rcases List.mem_append.1 hx with hx | hx
    · exact lt_of_lt_of_le (h.landed x hx hstroke) length_le
    · obtain rfl : x = e := by simpa using hx
      exact landed hstroke
  receives := receives

end Grouped

namespace Plot

/-- What a record says about the plot that it leads to. -/
structure Accounted (p : Plot α) (record : List (Entry α)) : Prop where
  /-- The nodes are those of the plot finished at this point. -/
  grouped : Grouped p.options record p.finish.nodes
  /-- No entry lies beyond the complete parts. -/
  place_le : ∀ e ∈ record, e.place ≤ p.nodes.length
  /-- The open figure was left open by the latest entry, and awaits strokes for its group. -/
  latest : ∀ f ∈ p.current, ∃ opener previous, f.Awaits opener previous ∧
    opener ∈ (strokesAt record p.nodes.length).head? ∧
    ∃ e ∈ record.getLast?, e.place = p.nodes.length ∧ e.stroke? = some previous
  /-- Without an open figure the latest entry is no stroke. -/
  idle : p.current = none → ∀ e ∈ record.getLast?, e.stroke? = none

theorem accounted_start (o : Options α) : (start o).Accounted [] where
  grouped := ⟨List.isChain_nil, List.Pairwise.nil, by simp, by simp [start, finish, close]⟩
  place_le := by simp
  latest := by simp [start]
  idle := by simp

omit [Scalar α] in
theorem nodes_finish_of_some {p : Plot α} {f : Figure α} (h : p.current = some f) :
    p.finish.nodes = p.nodes ++ [.figure f] := by
  simp [finish, close, h]

omit [Scalar α] in
theorem nodes_finish_of_none {p : Plot α} (h : p.current = none) : p.finish.nodes = p.nodes := by
  simp [finish, close, h]

namespace Accounted

variable {p q : Plot α} {record : List (Entry α)}

omit [Scalar α] in
/-- A list with one more entry has its old entries where they were and the new one at the end. -/
theorem getElem?_concat_eq_some {β : Type} {l : List β} {b x : β} {i : ℕ}
    (h : (l ++ [b])[i]? = some x) : (i < l.length ∧ l[i]? = some x) ∨ (i = l.length ∧ b = x) := by
  rcases Nat.lt_or_ge i l.length with hi | hi
  · rw [List.getElem?_append_left hi] at h
    exact .inl ⟨hi, h⟩
  · rw [List.getElem?_append_right hi, List.getElem?_singleton] at h
    split at h
    · exact .inr ⟨by omega, Option.some.inj h⟩
    · cases h

/-- The open figure takes a stroke. -/
theorem joined (h : p.Accounted record) {f : Figure α} (isOpen : p.current = some f)
    {s : Stroke α} (takes : f.breakReason? s.tool s.regionMode = none)
    (warnings : List (RadiusMismatch α)) :
    Accounted { p with current := some (f.extended (s.drawn p.options)), warnings := warnings }
      (record ++ [⟨.stroke s, p.nodes.length⟩]) := by
  obtain ⟨opener, previous, hawaits, hopener, last, hlast, hplace, hprevious⟩ := h.latest f isOpen
  have hjoins : Stroke.Joins opener previous s := (hawaits s).1 takes
  have hreceives := h.grouped.receives
  have hlength : p.finish.nodes.length = p.nodes.length + 1 := by
    simp [length_nodes_finish, isOpen]
  rw [nodes_finish_of_some isOpen] at hreceives
  refine ⟨h.grouped.concat ?_ h.place_le ?_ ?_ ?_ ?_, ?_, ?_, ?_⟩
  · intro x hx t ht u hu
    obtain rfl : last = x := Option.some.inj (hlast.symm.trans hx)
    obtain rfl : previous = t := Option.some.inj (hprevious.symm.trans ht)
    obtain rfl : s = u := by simpa using hu
    exact ⟨opener, by rwa [hplace], iff_of_true hplace hjoins⟩
  · simp
  · simp [hlength, length_nodes_finish]
  · simp [length_nodes_finish]
  · intro place node hnode
    rw [nodes_finish_of_some rfl] at hnode
    rcases getElem?_concat_eq_some hnode with ⟨hlt, hold⟩ | ⟨rfl, rfl⟩
    · rw [strokesAt_concat_of_ne _ (by simpa using hlt.ne')]
      exact hreceives place node (by rw [List.getElem?_append_left hlt, hold])
    · rw [strokesAt_concat_stroke]
      exact (hreceives p.nodes.length (.figure f) (by simp)).extended takes
  · rw [List.forall_mem_append, List.forall_mem_singleton]
    exact ⟨h.place_le, le_rfl⟩
  · intro g hg
    obtain rfl : f.extended (s.drawn p.options) = g := by simpa using hg
    exact ⟨opener, s, hawaits.extended hjoins _, head?_strokesAt_concat hopener _, by simp⟩
  · simp

/-- A finished plot has no fewer nodes than complete parts. -/
theorem place_le_finish (h : p.Accounted record) {e : Entry α} (he : e ∈ record) :
    e.place ≤ p.finish.nodes.length := by
  have hplace := h.place_le e he
  rw [length_nodes_finish]
  omega

/-- One more node, made by the stroke of one more entry or by none. -/
theorem receives_concat (h : p.Accounted record) {e : Entry α} {node : Node α}
    (hplace : e.stroke? = none ∨ e.place = p.finish.nodes.length)
    (hnode : Receives p.options node e.stroke?.toList) (place : ℕ) (other : Node α)
    (hother : (p.finish.nodes ++ [node])[place]? = some other) :
    Receives p.options other (strokesAt (record ++ [e]) place) := by
  rw [strokesAt_concat]
  rcases getElem?_concat_eq_some hother with ⟨hlt, hold⟩ | ⟨rfl, rfl⟩
  · have hnone : (if e.place = place then e.stroke? else none) = none := by
      rcases hplace with hplace | hplace
      · simp [hplace]
      · exact if_neg (by omega)
    rw [hnone]
    simpa using h.grouped.receives place other hold
  · have hsome : (if e.place = p.finish.nodes.length then e.stroke? else none) = e.stroke? := by
      rcases hplace with hplace | hplace
      · simp [hplace]
      · exact if_pos hplace
    rwa [hsome, h.grouped.strokesAt_length]

/-- A stroke that the open figure does not take opens one of its own. -/
theorem opened (h : p.Accounted record) {s : Stroke α}
    (breaks : ∀ f ∈ p.current, f.breakReason? s.tool s.regionMode ≠ none)
    (warnings : List (RadiusMismatch α)) :
    Accounted { p.close with current := some (s.alone p.options), warnings := warnings }
      (record ++ [⟨.stroke s, p.close.nodes.length⟩]) := by
  have hnodes : p.close.nodes = p.finish.nodes := rfl
  have hnone : strokesAt record p.finish.nodes.length = [] := h.grouped.strokesAt_length
  refine ⟨h.grouped.concat ?_ (fun e he => h.place_le_finish he) ?_ ?_ ?_ ?_, ?_, ?_, ?_⟩
  · intro x hx t ht u hu
    obtain rfl : s = u := by simpa using hu
    cases hcurrent : p.current with
    | none => simp [h.idle hcurrent x hx] at ht
    | some f =>
      obtain ⟨opener, previous, hawaits, hopener, last, hlast, hplace, hprevious⟩ :=
        h.latest f hcurrent
      obtain rfl : last = x := Option.some.inj (hlast.symm.trans hx)
      obtain rfl : previous = t := Option.some.inj (hprevious.symm.trans ht)
      refine ⟨opener, by rwa [hplace], iff_of_false ?_ ?_⟩
      · simp [hplace, close, hcurrent]
      · intro hjoins
        exact breaks f hcurrent ((hawaits s).2 hjoins)
  · simp
  · simp [length_nodes_finish, hnodes]
  · simp [length_nodes_finish]
  · rw [nodes_finish_of_some rfl]
    exact h.receives_concat (.inr rfl) (.alone p.options s)
  · rw [List.forall_mem_append, List.forall_mem_singleton]
    refine ⟨?_, le_rfl⟩
    intro e he
    exact h.place_le_finish he
  · intro f hf
    obtain rfl : s.alone p.options = f := by simpa using hf
    exact ⟨s, s, Figure.awaits_alone _ s, by simp [strokesAt_concat_stroke, hnodes, hnone], by simp⟩
  · simp

/-- The open figure is closed. -/
theorem closed (h : p.Accounted record) :
    p.close.Accounted (record ++ [⟨.close, p.close.nodes.length⟩]) := by
  refine ⟨h.grouped.concat ?_ (fun e he => h.place_le_finish he) ?_ ?_ ?_ ?_, ?_, ?_, ?_⟩
  · simp [Entry.stroke?]
  · intro _ e he hstroke
    exact h.grouped.landed e he hstroke
  · simp [finish]
  · simp [Entry.stroke?]
  · intro place node hnode
    rw [strokesAt_concat_of_stroke?_eq_none _ rfl]
    exact h.grouped.receives place node (by simpa [finish] using hnode)
  · rw [List.forall_mem_append, List.forall_mem_singleton]
    refine ⟨?_, le_rfl⟩
    intro e he
    exact h.place_le_finish he
  · simp
  · simp [Entry.stroke?]

/-- A shape is added after the open figure is closed. -/
theorem added (h : p.Accounted record) (shape : Shape α) {e : Entry α} (hother : e.stroke? = none)
    (hplace : e.place = p.finish.nodes.length + 1) :
    (p.add shape).Accounted (record ++ [e]) := by
  have hnodes : (p.add shape).nodes = p.finish.nodes ++ [.shape shape] := rfl
  have hfinish : (p.add shape).finish.nodes = p.finish.nodes ++ [.shape shape] :=
    nodes_finish_of_none rfl
  have hle : ∀ x ∈ record, x.place < e.place := by
    intro x hx
    have hx := h.place_le_finish hx
    omega
  refine ⟨h.grouped.concat ?_ (fun x hx => (hle x hx).le) ?_ ?_ ?_ ?_, ?_, ?_, ?_⟩
  · simp [hother]
  · intro _ x hx _
    exact hle x hx
  · simp [hfinish]
  · simp [hother]
  · rw [hfinish]
    exact h.receives_concat (.inl hother) (by simpa [hother] using Receives.shape shape)
  · rw [hnodes, List.length_append, List.length_singleton, ← hplace, List.forall_mem_append,
      List.forall_mem_singleton]
    refine ⟨?_, le_rfl⟩
    intro x hx
    exact (hle x hx).le
  · simp [add]
  · simp [hother]

end Accounted

/-- The account goes on through every run. -/
theorem accounted_foldl_attempt {p : Plot α} {record : List (Entry α)} (h : p.Accounted record)
    (commands : List (Command α)) :
    (commands.foldl attempt p).Accounted (record ++ p.record commands) := by
  induction commands generalizing p record with
  | nil => simpa [Plot.record] using h
  | cons c cs ih =>
    rw [List.foldl_cons]
    cases hperform : p.perform c with
    | error e =>
      have hrecord : p.record (c :: cs) = p.record cs := by simp [Plot.record, hperform]
      rw [hrecord, attempt_of_error hperform]
      exact ih h
    | ok q =>
      have hrecord : record ++ p.record (c :: cs) =
          (record ++ [⟨c, q.nodes.length⟩]) ++ q.record cs := by
        simp [Plot.record, hperform]
      rw [hrecord, attempt_of_ok hperform]
      refine ih ?_
      cases c with
      | stroke s =>
        cases stroked_of_stroke hperform with
        | joined f isOpen takes => exact h.joined isOpen takes _
        | opened breaks => exact h.opened breaks _
      | flash tool position => cases hperform; exact h.added _ rfl (by simp [add, finish])
      | add shape => cases hperform; exact h.added _ rfl (by simp [add, finish])
      | close => cases hperform; exact h.closed

theorem map_command_record (p : Plot α) (commands : List (Command α)) :
    (p.record commands).map Entry.command = p.obeyed commands := by
  induction commands generalizing p with
  | nil => rfl
  | cons c cs ih =>
    unfold Plot.record obeyed
    cases p.perform c with
    | error e => exact ih p
    | ok next => simp [ih next]

/-- **The nodes are the groups.** Of two strokes obeyed one after the other, the later one goes into
the node of the earlier one exactly when it joins its group; a swept region is made by one stroke
alone, a region drawn in region mode by strokes in region mode, a path by strokes outside it, and
every node is made by exactly the strokes at its place. Every group makes a node, also when its
strokes draw nothing, and with the shapes these are all. The obeyed commands that all this is about are
those given, save for the strokes along arcs whose center no choice of signs locates. -/
theorem grouped_run (o : Options α) (commands : List (Command α)) :
    Grouped o ((start o).record commands) (run o commands).finish.nodes ∧
      ((start o).record commands).map Entry.command = (start o).obeyed commands ∧
      ((start o).obeyed commands = commands.filter fun c => ¬ c.IsRefused o) ∧
      (run o commands).finish.nodes.length =
        ((start o).obeyed commands).countP Command.addsShape +
          groupCount none ((start o).obeyed commands) := by
  refine ⟨?_, map_command_record _ _, obeyed_eq_filter (start o) commands, ?_⟩
  · have hgrouped := (accounted_foldl_attempt (accounted_start o) commands).grouped
    rwa [options_foldl_attempt, List.nil_append] at hgrouped
  · have hlength := length_nodes_foldl_attempt (start o) (openGroup_none rfl) commands
    simpa [run, start, finish, close] using hlength

end Plot

end Photoplot
