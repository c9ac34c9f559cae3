import SceneText.Plane.Transform
import SceneText.Scene.Style

/-!
# Scene/Document — shapes, groups, documents, and where their shapes lie

A document is a list of groups, a group a list of shapes under common transforms.  `placements`
lists every shape with the map that carries it into the plane of the document: the shape's own
transforms first, then its group's.
-/

namespace SceneText

universe u

/-- The shapes that can be drawn. -/
inductive ShapeKind where
  /-- The square with corners `(0, 0)` and `(1, 1)`. -/
  | unitSquare
  /-- The circle of radius one around the origin. -/
  | unitCircle
  deriving DecidableEq, Repr

/-- The words that open a shape. -/
def ShapeKind.keyword : ShapeKind → String
  | .unitSquare => "unit square"
  | .unitCircle => "unit circle"

/-- What every shape carries, whatever its kind. -/
structure ShapeRecord (α : Type u) where
  /-- The name, empty if there is none. -/
  name : String
  drawStyle : DrawStyle
  transforms : List (Transform α)
  deriving DecidableEq, BEq, Repr

/-- A shape that can be drawn. -/
structure Shape (α : Type u) extends ShapeRecord α where
  kind : ShapeKind
  deriving DecidableEq, BEq, Repr

/-- Shapes under common transforms.  Only a group that has a shape has a text. -/
structure Group (α : Type u) where
  /-- The name, empty if there is none. -/
  name : String
  transforms : List (Transform α)
  shapes : List (Shape α)
  deriving DecidableEq, BEq, Repr

/-- A whole scene. -/
structure Document (α : Type u) where
  groups : List (Group α)
  deriving DecidableEq, BEq, Repr

variable {α : Type u}

namespace ShapeKind

/-- The shape of a kind with a given record. -/
def assemble (kind : ShapeKind) (record : ShapeRecord α) : Shape α := ⟨record, kind⟩

/-- The record of a shape if it is of the kind. -/
def disassemble? (kind : ShapeKind) (s : Shape α) : Option (ShapeRecord α) :=
  if s.kind = kind then some s.toShapeRecord else none

end ShapeKind

variable [Zero α] [One α] [Add α] [Mul α] [Neg α] [DegreeTrig α]

/-- The map of a shape's own transforms. -/
def ShapeRecord.transform (s : ShapeRecord α) : Affine α := combine s.transforms

namespace Group

/-- The map of a group's transforms. -/
def transform (g : Group α) : Affine α := combine g.transforms

/-- The shapes of a group, each with the map that places it. -/
def placements (g : Group α) : List (Shape α × Affine α) :=
  g.shapes.map fun s => (s, g.transform * s.transform)

end Group

/-- Every shape of a document with the map that places it, in the order of the document. -/
def Document.placements (d : Document α) : List (Shape α × Affine α) :=
  d.groups.flatMap Group.placements

end SceneText
