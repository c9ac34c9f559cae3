import SceneText.Format.Textual
import SceneText.Number.Finite
import SceneText.Plane.Affine

/-!
# Format/Point — numbers and points

A point is two numbers on a line, a list of points is one point a line.
-/

namespace SceneText

/-- The finite number that a node spells. -/
def readNumber (n : Node) : Except Finding Float :=
  match (Numeral.read n.text).map finite? with
  | some (.ok x) => .ok x
  | _ => .error (.malformedNumber n)

/-- The numbers directly inside a node. -/
def readNumbers (n : Node) : Except Finding (List Float) :=
  (n.childrenOf .number).mapM readNumber

/-- The shortest text of a finite number. -/
def writeNumber (x : Float) : Output :=
  match finite? x with
  | .ok x => .write (Numeral.write x)
  | .error _ => .fail (.nonFiniteNumber x)

instance : Textual (Point Float) where
  rule := .point
  read n := do
    match ← readNumbers n with
    | [x, y] => pure ⟨x, y⟩
    | _ => throw (.unexpected .point .twoNumbers n.start)
  write _ p := writeNumber p.x ++ .write " " ++ writeNumber p.y

instance : Textual (List (Point Float)) where
  rule := .points
  read n := (n.childrenOf .point).mapM Textual.read
  write ending ps := .join ending.text (ps.map (Textual.write ending))

end SceneText
