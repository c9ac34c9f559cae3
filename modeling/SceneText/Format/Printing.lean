import SceneText.Format.Document

/-!
# Format/Printing — printing, step by step

A procedure is given a printer and writes to its buffer piece by piece.  It stops at the first thing
that has no text; what it has written by then stays in the buffer.
-/

namespace SceneText

/-- A procedure that writes to a printer, up to the first error. -/
abbrev Printing := EStateM PrintError Printer Unit

/-- The error that stopped a procedure, if any, and the printer that is left. -/
def Printer.run (p : Printer) (steps : Printing) : Option PrintError × Printer :=
  match steps p with
  | .ok _ p' => (none, p')
  | .error e p' => (some e, p')

namespace Printing

/-! ## Pieces -/

/-- A keyword or another literal text. -/
def keyword (text : String) : Printing := modify (·.write text)

/-- The space that stands for any blanks. -/
def space : Printing := modify Printer.space

/-- The end of a line. -/
def lineEnd : Printing := modify Printer.lineEnd

/-- The end of a line and an empty line. -/
def blankLine : Printing := modify Printer.blankLine

/-- Values in a row, with something between each two of them. -/
def separated {α : Type} (between : Printing) (each : α → Printing) (as : List α) : Printing :=
  as.zipIdx.forM fun (a, i) => do
    if 0 < i then between
    each a

/-! ## Lines -/

/-- The shortest text of a finite number. -/
def number (x : Float) : Printing :=
  match finite? x with
  | .ok x => keyword (Numeral.write x)
  | .error _ => throw (.nonFiniteNumber x)

/-- A space and the name, or nothing for an empty name. -/
def name (name : String) : Printing :=
  if name.isEmpty then pure ()
  else
    match nameDefect? name with
    | some why => throw (.unprintableName name why)
    | none => do
      space
      keyword name

/-- Two numbers. -/
def point (v : Point Float) : Printing := do
  number v.x
  space
  number v.y

/-- A point a line. -/
def points : List (Point Float) → Printing := separated lineEnd point

/-- The line of a transform, which must have the form. -/
def form (form : TransformForm) (t : Transform Float) : Printing := do
  let operands ← ofExcept (form.disassemble t)
  keyword form.tag
  operands.forM fun x => do
    space
    number x

/-- A transform in its own form. -/
def transform (t : Transform Float) : Printing := form t.form t

theorem transform_eq (t : Transform Float) : transform t = (do
    keyword t.form.tag
    t.operands.forM fun x => do
      space
      number x) := by
  rw [transform, form, TransformForm.disassemble, TransformForm.disassemble?_form]
  rfl

/-- A transform a line. -/
def transforms : List (Transform Float) → Printing := separated lineEnd transform

/-- A style and a color. -/
def drawStyle (d : DrawStyle) : Printing := do
  keyword d.style.keyword
  space
  keyword d.color.keyword

/-! ## Blocks of lines -/

/-- Each transform on a line of its own after the header. -/
def trailing (ts : List (Transform Float)) : Printing :=
  ts.forM fun t => do
    lineEnd
    transform t

/-- The text of a shape, which must be of the kind. -/
def kind (kind : ShapeKind) (s : Shape Float) : Printing := do
  let record ← ofExcept (kind.disassemble s)
  keyword kind.keyword
  name record.name
  lineEnd
  drawStyle record.drawStyle
  trailing record.transforms

/-- A shape as one of its own kind. -/
def shape (s : Shape Float) : Printing := kind s.kind s

theorem shape_eq (s : Shape Float) : shape s = (do
    keyword s.kind.keyword
    name s.name
    lineEnd
    drawStyle s.drawStyle
    trailing s.transforms) := by
  rw [shape, kind, ShapeKind.disassemble, ShapeKind.disassemble?, if_pos rfl]
  rfl

/-- Shapes, one empty line apart. -/
def shapes : List (Shape Float) → Printing := separated blankLine shape

/-- A header, transforms, an empty line, and shapes.  There must be a shape. -/
def group (g : Group Float) : Printing := do
  if g.shapes.isEmpty then throw (.emptyGroup g.name)
  keyword "group"
  name g.name
  trailing g.transforms
  blankLine
  shapes g.shapes

theorem group_of_eq_nil {g : Group Float} (h : g.shapes = []) :
    group g = throw (.emptyGroup g.name) := by
  rw [group, if_pos (by simpa using h)]
  rfl

theorem group_of_ne_nil {g : Group Float} (h : g.shapes ≠ []) : group g = (do
    keyword "group"
    name g.name
    trailing g.transforms
    blankLine
    shapes g.shapes) := by
  rw [group, if_neg (by simpa using h)]

/-- Groups, one empty line apart. -/
def document (d : Document Float) : Printing := separated blankLine group d.groups

end Printing

end SceneText
