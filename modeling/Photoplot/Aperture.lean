/-!
# Apertures and tools

A tool is an aperture, the outline that is exposed at once, and possibly a hole in it. Strokes are
drawn with it as well: a circular tool draws lines of its diameter, a rectangular one sweeps its
rectangle along.
-/

namespace Photoplot

/-- The outline that a tool exposes. -/
inductive Aperture (α : Type) where
  /-- A circle. -/
  | circle (diameter : α)
  /-- A rectangle. -/
  | rectangle (xSize ySize : α)
  /-- A rectangle with its shorter sides rounded off. -/
  | obround (xSize ySize : α)
  /-- A regular polygon in a circle, turned by some degrees. -/
  | polygon (diameter : α) (vertices : Nat) (rotation : Option α)

/-- The outline of a hole in an aperture. -/
inductive Hole (α : Type) where
  /-- A circle. -/
  | circle (diameter : α)
  /-- A rectangle. -/
  | rectangle (xSize ySize : α)

variable {α : Type}

namespace Aperture

/-- The kind of an aperture in one word. -/
def kind : Aperture α → String
  | circle _ => "circle"
  | rectangle _ _ => "rectangle"
  | obround _ _ => "obround"
  | polygon _ _ _ => "polygon"

/-- The hole of the same outline; only circles and rectangles can be holes. -/
def toHole? : Aperture α → Option (Hole α)
  | circle diameter => some (.circle diameter)
  | rectangle xSize ySize => some (.rectangle xSize ySize)
  | obround _ _ => none
  | polygon _ _ _ => none

end Aperture

/-- The aperture with the outline of a hole. -/
def Hole.toAperture : Hole α → Aperture α
  | circle diameter => .circle diameter
  | rectangle xSize ySize => .rectangle xSize ySize

@[simp] theorem Hole.toHole?_toAperture (h : Hole α) : h.toAperture.toHole? = some h := by
  cases h <;> rfl

/-- A tool: an aperture with an optional hole. -/
structure Tool (α : Type) where
  /-- The outline exposed. -/
  aperture : Aperture α
  /-- The hole in it. -/
  hole : Option (Hole α)

namespace Tool

/-- The tool with the outline of a given hole cut out. An outline that cannot be a hole is left
out. -/
def make (aperture : Aperture α) (hole : Option (Aperture α)) : Tool α :=
  ⟨aperture, hole.bind Aperture.toHole?⟩

/-- The width of the lines that a circular tool draws. -/
def diameter? (t : Tool α) : Option α :=
  match t.aperture with
  | .circle diameter => some diameter
  | _ => none

/-- The size of the rectangle that a rectangular tool sweeps along. -/
def rectangle? (t : Tool α) : Option (α × α) :=
  match t.aperture with
  | .rectangle xSize ySize => some (xSize, ySize)
  | _ => none

/-- No tool is both circular and rectangular. -/
theorem rectangle?_of_diameter? {t : Tool α} {d : α} (h : t.diameter? = some d) :
    t.rectangle? = none := by
  obtain ⟨aperture, hole⟩ := t
  cases aperture <;> simp_all [diameter?, rectangle?]

end Tool

end Photoplot
