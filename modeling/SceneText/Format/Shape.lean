import SceneText.Format.DrawStyle
import SceneText.Format.Transform

/-!
# Format/Shape — names, shapes and lists of shapes

A shape is a header line of its keyword and name, a style line, and its transforms.  Shapes are read
with or without empty lines between them and written one empty line apart.
-/

namespace SceneText

/-! ## Names -/

/-- The name in what follows a keyword, empty if there is none. -/
def readName (comment : Node) : String :=
  match comment.childOf? .name with
  | some name => .ofList name.text
  | none => ""

/-- Why a name cannot be written, if so. -/
def nameDefect? (name : String) : Option UnprintableName :=
  if name.toList.any isLineBreak then some .lineBreak
  else if name.toList.head?.any isBlank then some .leadingBlank
  else none

/-- A space and the name, or nothing for an empty name. -/
def writeName (name : String) : Output :=
  if name.isEmpty then .nothing
  else
    match nameDefect? name with
    | some why => .fail (.unprintableName name why)
    | none => .write " " ++ .write name

/-! ## Kinds of shapes -/

namespace ShapeKind

/-- The rule for the keyword of a kind. -/
def rule : ShapeKind → Rule
  | .unitSquare => .unitSquare
  | .unitCircle => .unitCircle

/-- The kind whose keyword a rule matches. -/
def ofRule? : Rule → Option ShapeKind
  | .unitSquare => some .unitSquare
  | .unitCircle => some .unitCircle
  | _ => none

@[simp] theorem ofRule?_rule (kind : ShapeKind) : ofRule? kind.rule = some kind := by
  cases kind <;> rfl

/-- The record of a shape, which must be of the kind. -/
def disassemble (kind : ShapeKind) (s : Shape Float) : Except PrintError (ShapeRecord Float) :=
  match kind.disassemble? s with
  | some record => .ok record
  | none => .error (.kindMismatch kind s.kind)

/-- The text of a shape, which must be of the kind. -/
def write (kind : ShapeKind) (ending : LineEnding) (s : Shape Float) : Output :=
  match kind.disassemble s with
  | .ok record =>
    .write kind.keyword ++ writeName record.name ++ .write ending.text
      ++ Textual.write ending record.drawStyle ++ writeTrailing ending record.transforms
  | .error e => .fail e

end ShapeKind

/-! ## Shapes -/

/-- What a shape's node holds after its keyword. -/
def readRecord (n : Node) : Except Finding (ShapeRecord Float) := do
  let comment ← n.child .comment
  let drawStyle ← Textual.read (← n.child .drawStyle)
  let transforms ← readTrailing (← n.child .trailingTransforms)
  pure ⟨readName comment, drawStyle, transforms⟩

instance : Textual (Shape Float) where
  rule := .shape
  read n :=
    match n.children with
    | [] => .error (.unexpected .shape .shapeKeyword n.start)
    | keyword :: _ =>
      match ShapeKind.ofRule? keyword.rule with
      | some kind => kind.assemble <$> readRecord n
      | none => .error (.unexpected keyword.rule .shapeKeyword n.start)
  write ending s := s.kind.write ending s

instance : Textual (List (Shape Float)) where
  rule := .shapes
  read n := (n.childrenOf .shape).mapM Textual.read
  write ending ss := .join (ending.text ++ ending.text) (ss.map (Textual.write ending))

end SceneText
