import SceneText.Plane.Affine
import SceneText.Plane.Angle

/-!
# Plane/Transform — rotations, scalings, translations, and lists of them

A list of transforms acts from first to last, so `combine` multiplies each on the left of those
before it.
-/

namespace SceneText

universe u

/-- One step of placing a shape. -/
inductive Transform (α : Type u) where
  /-- A counter-clockwise turn about the origin, in degrees. -/
  | rotate (degrees : α)
  /-- A stretch along both axes. -/
  | scale (x y : α)
  /-- A shift along both axes. -/
  | translate (x y : α)
  deriving DecidableEq, BEq, Repr

/-- The three forms of transforms. -/
inductive TransformForm where
  | rotate
  | scale
  | translate
  deriving DecidableEq, Repr

variable {α : Type u}

namespace Transform

/-- The form of a transform. -/
def form : Transform α → TransformForm
  | .rotate _ => .rotate
  | .scale _ _ => .scale
  | .translate _ _ => .translate

/-- The numbers of a transform in the order they are written. -/
def operands : Transform α → List α
  | .rotate degrees => [degrees]
  | .scale x y => [x, y]
  | .translate x y => [x, y]

end Transform

namespace TransformForm

/-- The name of a form in messages. -/
def name : TransformForm → String
  | .rotate => "rotate"
  | .scale => "scale"
  | .translate => "translate"

/-- The transform of a form with given numbers, if it takes that many. -/
def assemble? : TransformForm → List α → Option (Transform α)
  | .rotate, [degrees] => some (.rotate degrees)
  | .scale, [x, y] => some (.scale x y)
  | .translate, [x, y] => some (.translate x y)
  | _, _ => none

/-- The numbers of a transform if it has the form. -/
def disassemble? (form : TransformForm) (t : Transform α) : Option (List α) :=
  if t.form = form then some t.operands else none

/-- **A transform is its form and its numbers.** -/
@[simp] theorem assemble?_operands (t : Transform α) : t.form.assemble? t.operands = some t := by
  cases t <;> rfl

theorem disassemble?_form (t : Transform α) : t.form.disassemble? t = some t.operands := if_pos rfl

end TransformForm

variable [Zero α] [One α] [Add α] [Mul α] [Neg α] [DegreeTrig α]

namespace Transform

/-- The map of a single transform. -/
def toAffine : Transform α → Affine α
  | .rotate degrees =>
    let c := DegreeTrig.cos degrees
    let s := DegreeTrig.sin degrees
    ⟨c, s, -s, c, 0, 0⟩
  | .scale x y => ⟨x, 0, 0, y, 0, 0⟩
  | .translate x y => ⟨1, 0, 0, 1, x, y⟩

/-- The image of a point under a single transform. -/
def apply (t : Transform α) (p : Point α) : Point α := t.toAffine.map p

end Transform

/-- The map that applies a list of transforms in its order. -/
def combine (ts : List (Transform α)) : Affine α :=
  ts.foldl (fun before t => t.toAffine * before) 1

end SceneText
