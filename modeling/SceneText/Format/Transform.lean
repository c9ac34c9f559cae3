import SceneText.Format.Point

/-!
# Format/Transform — transform lines

A transform is a line of its form's tag and its numbers.  The transforms of a shape or group stand
under its header, a line each.
-/

namespace SceneText

namespace TransformForm

/-- The letter that begins a line of a form. -/
def tag : TransformForm → String
  | .rotate => "r"
  | .scale => "s"
  | .translate => "t"

/-- The rule for a line of a form. -/
def rule : TransformForm → Rule
  | .rotate => .rotate
  | .scale => .scale
  | .translate => .translate

/-- The form whose lines a rule matches. -/
def ofRule? : Rule → Option TransformForm
  | .rotate => some .rotate
  | .scale => some .scale
  | .translate => some .translate
  | _ => none

@[simp] theorem ofRule?_rule (form : TransformForm) : ofRule? form.rule = some form := by
  cases form <;> rfl

/-- The transform of a form whose numbers stand inside a node. -/
def read (form : TransformForm) (n : Node) : Except Finding (Transform Float) := do
  match form.assemble? (← readNumbers n) with
  | some t => pure t
  | none => throw (.unexpected form.rule .operands n.start)

/-- The numbers of a transform, which must have the form. -/
def disassemble (form : TransformForm) (t : Transform Float) : Except PrintError (List Float) :=
  match form.disassemble? t with
  | some operands => .ok operands
  | none => .error (.formMismatch form t.form)

/-- The line of a transform, which must have the form. -/
def write (form : TransformForm) (t : Transform Float) : Output :=
  match form.disassemble t with
  | .ok operands =>
    .write form.tag ++ .concat (operands.map fun x => .write " " ++ writeNumber x)
  | .error e => .fail e

end TransformForm

instance : Textual (Transform Float) where
  rule := .transform
  read n :=
    match n.children with
    | [] => .error (.unexpected .transform .transformTag n.start)
    | inner :: _ =>
      match TransformForm.ofRule? inner.rule with
      | some form => form.read inner
      | none => .error (.unexpected inner.rule .transformTag n.start)
  write _ t := t.form.write t

instance : Textual (List (Transform Float)) where
  rule := .transforms
  read n := (n.childrenOf .transform).mapM Textual.read
  write ending ts := .join ending.text (ts.map (Textual.write ending))

/-- The transforms under a header, from the node that holds their list if there are any. -/
def readTrailing (n : Node) : Except Finding (List (Transform Float)) := readList .transforms n

/-- Each transform on a line of its own after the header. -/
def writeTrailing (ending : LineEnding) (ts : List (Transform Float)) : Output :=
  .concat (ts.map fun t => .write ending.text ++ Textual.write ending t)

end SceneText
