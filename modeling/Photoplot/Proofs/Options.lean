import Photoplot.Options

/-!
# Options that can be had

The options that a plot can be given: the standard ones and those that the functions that set an
option make of them.

* `Options.Built`: the options that can be had;
* `Options.built_make`: options with all values given are among them;
* `Options.Valid`: tolerances that are sizes, and a precision that can be kept;
* `Options.Built.valid`: **options that can be had are valid**;
* `Options.Setting`, `Options.after`: any calls one after the other, a refused one leaving the options
  as they are, and `Options.built_after`: what they make can be had;
* `Options.Setting.apply_eq_ok_iff`, `Options.foldlM_apply_of_perm`: **a call is accepted for its values
  alone, and setting one option after the other makes the same options in any order.**
-/

namespace Photoplot

namespace Options

variable {α : Type} [Scalar α]

/-- Options that can be had by setting them one after the other. -/
inductive Built : Options α → Prop
  /-- The options of a plot for which none are set. -/
  | standard : Built standard
  /-- The tolerance as a length is set. -/
  | withArcTolerance {o o' : Options α} {value : α} (built : Built o)
      (accepted : o.withArcTolerance value = .ok o') : Built o'
  /-- The tolerance as a fraction is set. -/
  | withArcRelativeTolerance {o o' : Options α} {value : α} (built : Built o)
      (accepted : o.withArcRelativeTolerance value = .ok o') : Built o'
  /-- The decimal places are set. -/
  | withPrecision {o o' : Options α} {places : UInt32} (built : Built o)
      (accepted : o.withPrecision places = .ok o') : Built o'

/-- Options that a plot can use. -/
structure Valid (o : Options α) : Prop where
  /-- The tolerance as a length is a size. -/
  length : NumericFault.ofSize? o.arcTolerance = none
  /-- The tolerance as a fraction is a size. -/
  fraction : NumericFault.ofSize? o.arcRelativeTolerance = none
  /-- The decimal places can be kept. -/
  places : o.precision ≤ maxPrecision

/-! ## What setting an option accepts -/

theorem withArcTolerance_eq_ok_iff {o o' : Options α} {value : α} :
    o.withArcTolerance value = .ok o' ↔
      NumericFault.ofSize? value = none ∧ o' = { o with arcTolerance := value } := by
  unfold withArcTolerance
  cases NumericFault.ofSize? value with
  | none => simp [eq_comm]
  | some fault => simp

theorem withArcRelativeTolerance_eq_ok_iff {o o' : Options α} {value : α} :
    o.withArcRelativeTolerance value = .ok o' ↔
      NumericFault.ofSize? value = none ∧ o' = { o with arcRelativeTolerance := value } := by
  unfold withArcRelativeTolerance
  cases NumericFault.ofSize? value with
  | none => simp [eq_comm]
  | some fault => simp

theorem withPrecision_eq_ok_iff {o o' : Options α} {places : UInt32} :
    o.withPrecision places = .ok o' ↔
      places ≤ maxPrecision ∧ o' = { o with precision := places } := by
  unfold withPrecision
  split
  · rename_i hlarge
    simp [UInt32.not_le.2 hlarge]
  · rename_i hsmall
    simp [UInt32.not_lt.1 hsmall, eq_comm]

/-- What comes of two steps that both may fail comes of the second one. -/
theorem exists_of_bind_eq_ok {ε β γ : Type} {first : Except ε β} {second : β → Except ε γ} {c : γ}
    (h : first >>= second = .ok c) : ∃ b, first = .ok b ∧ second b = .ok c := by
  cases first with
  | error e => cases h
  | ok b => exact ⟨b, rfl, h⟩

theorem make_eq_ok_iff {arcTolerance arcRelativeTolerance : α} {precision : UInt32} {o : Options α} :
    make arcTolerance arcRelativeTolerance precision = .ok o ↔
      (NumericFault.ofSize? arcTolerance = none ∧ NumericFault.ofSize? arcRelativeTolerance = none ∧
        precision ≤ maxPrecision) ∧ o = ⟨arcTolerance, arcRelativeTolerance, precision⟩ := by
  constructor
  · intro h
    obtain ⟨o₁, h₁, h⟩ := exists_of_bind_eq_ok h
    obtain ⟨o₂, h₂, h₃⟩ := exists_of_bind_eq_ok h
    obtain ⟨hlength, rfl⟩ := withArcTolerance_eq_ok_iff.1 h₁
    obtain ⟨hfraction, rfl⟩ := withArcRelativeTolerance_eq_ok_iff.1 h₂
    obtain ⟨hplaces, rfl⟩ := withPrecision_eq_ok_iff.1 h₃
    exact ⟨⟨hlength, hfraction, hplaces⟩, rfl⟩
  · rintro ⟨⟨hlength, hfraction, hplaces⟩, rfl⟩
    rw [make, withArcTolerance_eq_ok_iff.2 ⟨hlength, rfl⟩]
    show withArcRelativeTolerance _ _ >>= _ = _
    rw [withArcRelativeTolerance_eq_ok_iff.2 ⟨hfraction, rfl⟩]
    exact withPrecision_eq_ok_iff.2 ⟨hplaces, rfl⟩

/-- Options with all values given are had by setting them in turn. -/
theorem built_make {arcTolerance arcRelativeTolerance : α} {precision : UInt32} {o : Options α}
    (h : make arcTolerance arcRelativeTolerance precision = .ok o) : o.Built := by
  obtain ⟨⟨hlength, hfraction, hplaces⟩, rfl⟩ := make_eq_ok_iff.1 h
  have hbuilt₁ := Built.standard.withArcTolerance (withArcTolerance_eq_ok_iff.2 ⟨hlength, rfl⟩)
  have hbuilt₂ :=
    hbuilt₁.withArcRelativeTolerance (withArcRelativeTolerance_eq_ok_iff.2 ⟨hfraction, rfl⟩)
  exact hbuilt₂.withPrecision (withPrecision_eq_ok_iff.2 ⟨hplaces, rfl⟩)

/-- **Options that can be had are valid** when the standard ones are: a value that is not is refused. -/
theorem Built.valid (hstandard : (Options.standard : Options α).Valid) {o : Options α} (h : o.Built) :
    o.Valid := by
  induction h with
  | standard => exact hstandard
  | withArcTolerance _ accepted ih =>
    obtain ⟨hsize, rfl⟩ := withArcTolerance_eq_ok_iff.1 accepted
    exact ⟨hsize, ih.fraction, ih.places⟩
  | withArcRelativeTolerance _ accepted ih =>
    obtain ⟨hsize, rfl⟩ := withArcRelativeTolerance_eq_ok_iff.1 accepted
    exact ⟨ih.length, hsize, ih.places⟩
  | withPrecision _ accepted ih =>
    obtain ⟨hplaces, rfl⟩ := withPrecision_eq_ok_iff.1 accepted
    exact ⟨ih.length, ih.fraction, hplaces⟩

/-! ## Calls one after the other -/

/-- A call that makes options or sets one of them. -/
inductive Setting (α : Type) where
  /-- The options of a plot for which none are set. -/
  | standard
  /-- Options with all values given. -/
  | all (length fraction : α) (places : UInt32)
  /-- The tolerance as a length. -/
  | arcTolerance (length : α)
  /-- The tolerance as a fraction. -/
  | arcRelativeTolerance (fraction : α)
  /-- The decimal places. -/
  | precision (places : UInt32)

namespace Setting

/-- What a call makes of the options before it. -/
def apply (o : Options α) : Setting α → Except (PlotError α) (Options α)
  | .standard => .ok Options.standard
  | .all length fraction places => make length fraction places
  | .arcTolerance length => o.withArcTolerance length
  | .arcRelativeTolerance fraction => o.withArcRelativeTolerance fraction
  | .precision places => o.withPrecision places

/-- The values of a call are all allowed. -/
def Accepted : Setting α → Prop
  | .standard => True
  | .all length fraction places => NumericFault.ofSize? length = none ∧
      NumericFault.ofSize? fraction = none ∧ places ≤ maxPrecision
  | .arcTolerance length => NumericFault.ofSize? length = none
  | .arcRelativeTolerance fraction => NumericFault.ofSize? fraction = none
  | .precision places => places ≤ maxPrecision

/-- The options with the values of a call. -/
def assign (o : Options α) : Setting α → Options α
  | .standard => Options.standard
  | .all length fraction places => ⟨length, fraction, places⟩
  | .arcTolerance length => { o with arcTolerance := length }
  | .arcRelativeTolerance fraction => { o with arcRelativeTolerance := fraction }
  | .precision places => { o with precision := places }

/-- **A call is accepted for its values alone**, whatever the options before it are, and then it assigns
them. -/
theorem apply_eq_ok_iff (s : Setting α) (o o' : Options α) :
    s.apply o = .ok o' ↔ s.Accepted ∧ o' = s.assign o := by
  cases s with
  | standard => simp [apply, Accepted, assign, eq_comm]
  | all length fraction places => exact make_eq_ok_iff
  | arcTolerance length => exact withArcTolerance_eq_ok_iff
  | arcRelativeTolerance fraction => exact withArcRelativeTolerance_eq_ok_iff
  | precision places => exact withPrecision_eq_ok_iff

end Setting

/-- The options after a call; one that is refused leaves them as they are. -/
def settle (o : Options α) (s : Setting α) : Options α :=
  match s.apply o with
  | .ok o' => o'
  | .error _ => o

/-- The options after calls one after the other. -/
def after (settings : List (Setting α)) : Options α := settings.foldl settle standard

theorem Built.apply {o o' : Options α} (h : o.Built) {s : Setting α} (happly : s.apply o = .ok o') :
    o'.Built := by
  cases s with
  | standard =>
    cases happly
    exact .standard
  | all length fraction places => exact built_make happly
  | arcTolerance length => exact .withArcTolerance h happly
  | arcRelativeTolerance fraction => exact .withArcRelativeTolerance h happly
  | precision places => exact .withPrecision h happly

/-- What a call leaves can be had when what it was made on can. -/
theorem Built.settle {o : Options α} (h : o.Built) (s : Setting α) : (o.settle s).Built := by
  unfold Options.settle
  split
  · rename_i o' happly
    exact h.apply happly
  · exact h

/-- What is left after any calls can be had. -/
theorem built_after (settings : List (Setting α)) : (after settings).Built := by
  have hfold : ∀ o : Options α, o.Built → (settings.foldl settle o).Built := by
    induction settings with
    | nil => exact fun o ho => ho
    | cons s settings ih => exact fun o ho => ih _ (ho.settle s)
  exact hfold _ .standard

/-- Calls that are all accepted assign their values one after the other. -/
theorem foldlM_apply_eq_ok {settings : List (Setting α)} (h : ∀ s ∈ settings, s.Accepted)
    (o : Options α) : settings.foldlM Setting.apply o = .ok (settings.foldl Setting.assign o) := by
  induction settings generalizing o with
  | nil => rfl
  | cons s settings ih =>
    have hs := (s.apply_eq_ok_iff o _).2 ⟨h s (List.mem_cons_self ..), rfl⟩
    rw [List.foldlM_cons, hs]
    exact ih (fun s hs => h s (List.mem_cons_of_mem _ hs)) _

/-- **Setting one option after the other makes the same options in any order**, whatever the options
before are: those that are made of all values at once. -/
theorem foldlM_apply_of_perm {length fraction : α} {places : UInt32} {o : Options α}
    (h : make length fraction places = .ok o) {settings : List (Setting α)}
    (hperm : settings.Perm [.arcTolerance length, .arcRelativeTolerance fraction, .precision places])
    (before : Options α) : settings.foldlM Setting.apply before = .ok o := by
  obtain ⟨⟨hlength, hfraction, hplaces⟩, rfl⟩ := make_eq_ok_iff.1 h
  have haccepted : ∀ s ∈ settings, s.Accepted := by
    simp only [hperm.mem_iff, List.forall_mem_cons]
    exact ⟨hlength, hfraction, hplaces, by simp⟩
  -- no two of them assign the same option
  have hcommute : ∀ s ∈ settings, ∀ s' ∈ settings, ∀ o : Options α,
      s'.assign (s.assign o) = s.assign (s'.assign o) := by
    simp only [hperm.mem_iff, List.forall_mem_cons, Setting.assign]
    simp
  rw [foldlM_apply_eq_ok haccepted, hperm.foldl_eq' hcommute]
  rfl

end Options

end Photoplot
