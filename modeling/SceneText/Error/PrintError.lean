import SceneText.Number.Numeral
import SceneText.Scene.Document
import SceneText.Text.Quoted

/-!
# Error/PrintError — why a value has no text
-/

namespace SceneText

/-- Why a name cannot be written after a keyword. -/
inductive UnprintableName where
  | lineBreak
  | leadingBlank
  deriving DecidableEq, Repr

/-- The reason in words. -/
def UnprintableName.reason : UnprintableName → String
  | .lineBreak => "contains a line break"
  | .leadingBlank => "starts with whitespace"

/-- The causes for which a value has no text. -/
inductive PrintError where
  /-- A transform is asked to be written as one of another form. -/
  | formMismatch (expected found : TransformForm)
  /-- A shape is asked to be written as one of another kind. -/
  | kindMismatch (expected found : ShapeKind)
  | nonFiniteNumber (value : Float)
  | unprintableName (name : String) (why : UnprintableName)
  | emptyGroup (name : String)
  deriving Repr

namespace PrintError

/-- The message for an error. -/
def message : PrintError → String
  | .formMismatch expected found => "cannot print a " ++ found.name ++ " as a " ++ expected.name
  | .kindMismatch expected found =>
    "cannot print a " ++ found.keyword ++ " as a " ++ expected.keyword
  | .nonFiniteNumber value => "cannot print non-finite number " ++ Numeral.write value
  | .unprintableName name why => "cannot print name " ++ quote name ++ ": " ++ why.reason
  | .emptyGroup name => "cannot print group " ++ quote name ++ " without shapes"

/-- The code by which tools know an error. -/
def code : PrintError → String
  | .formMismatch _ _ => "unitdraw::print::variant_mismatch"
  | .kindMismatch _ _ => "unitdraw::print::variant_mismatch"
  | .nonFiniteNumber _ => "unitdraw::print::non_finite_number"
  | .unprintableName _ _ => "unitdraw::print::unprintable_name"
  | .emptyGroup _ => "unitdraw::print::empty_group"

end PrintError

end SceneText
