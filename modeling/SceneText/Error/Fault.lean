import SceneText.Grammar.Rule
import SceneText.Scene.Style
import SceneText.Text.Quoted

/-!
# Error/Fault — the causes for which a text is refused

A fault is data; its message, its label and its hint are read off it.
-/

namespace SceneText

/-- What could have stood where a text went wrong. -/
inductive Expectation where
  /-- A match of one of the rules, or else the end of the text. -/
  | oneOf (rules : List Rule) (orEnd : Bool)
  | twoNumbers
  | operands
  | transformTag
  | shapeKeyword
  deriving DecidableEq, Repr

namespace Expectation

/-- Nothing may follow. -/
def endOfText : Expectation := .oneOf [] true

/-- A match of one rule. -/
def rule (r : Rule) : Expectation := .oneOf [r] false

/-- The expectation in words. -/
def describe : Expectation → String
  | .oneOf [] false => "valid input"
  | .oneOf rules orEnd =>
    String.intercalate " or " (rules.map Rule.label ++ if orEnd then ["end of input"] else [])
  | .twoNumbers => "two numbers"
  | .operands => "operands"
  | .transformTag => "r, s or t"
  | .shapeKeyword => "shape keyword"

end Expectation

/-- The causes for which a text is refused. -/
inductive Fault where
  /-- Something else stands where a rule begins. -/
  | unexpected (rule : Rule) (expected : Expectation)
  /-- A number is expected, and the word there is no finite one. -/
  | malformedNumber (text : String)
  /-- Two things that need a line end between them have none. -/
  | missingSeparator
  /-- A group has no shape. -/
  | emptyGroup (name : String)
  | unknownStyle (word : String)
  | unknownColor (word : String)
  deriving DecidableEq, Repr

namespace Fault

/-- The rule that is blamed. -/
def rule : Fault → Rule
  | .unexpected rule _ => rule
  | .malformedNumber _ => .number
  | .missingSeparator => .lineEnd
  | .emptyGroup _ => .group
  | .unknownStyle _ => .styleName
  | .unknownColor _ => .colorName

/-- The part of a fault that varies, in words. -/
def detail : Fault → String
  | .unexpected _ expected => expected.describe
  | .malformedNumber text => text
  | .missingSeparator => ""
  | .emptyGroup name => name
  | .unknownStyle word => word
  | .unknownColor word => word

/-- The message for a fault. -/
def message : Fault → String
  | .unexpected _ expected => "unexpected token, expected " ++ expected.describe
  | .malformedNumber text => "malformed number: " ++ quote text
  | .missingSeparator => "missing line break"
  | .emptyGroup name => "group " ++ quote name ++ " has no shapes"
  | .unknownStyle word => "unknown style: " ++ word
  | .unknownColor word => "unknown color: " ++ word

/-- What is written at the stretch that shows a fault. -/
def label : Fault → String
  | .unexpected _ _ => "found this"
  | .malformedNumber _ => "not a number"
  | .missingSeparator => "expected a new line here"
  | .emptyGroup _ => "this group is empty"
  | .unknownStyle _ => "unknown style"
  | .unknownColor _ => "unknown color"

/-- The code by which tools know a fault. -/
def code : Fault → String
  | .unexpected _ _ => "unitdraw::parse::unexpected_token"
  | .malformedNumber _ => "unitdraw::parse::malformed_number"
  | .missingSeparator => "unitdraw::parse::missing_separator"
  | .emptyGroup _ => "unitdraw::parse::empty_group"
  | .unknownStyle _ => "unitdraw::parse::unknown_style"
  | .unknownColor _ => "unitdraw::parse::unknown_color"

/-- A list of the words that would do. -/
def choices (words : List String) : String :=
  "expected one of: " ++ String.intercalate ", " words

/-- A hint for the writer of the text. -/
def help? : Fault → Option String
  | .malformedNumber _ => some "numbers are finite decimals such as `45`, `-1.5` or `2e3`"
  | .emptyGroup _ => some "a group needs at least one `unit square` or `unit circle`"
  | .unknownStyle _ => some (choices (Style.all.map Style.keyword))
  | .unknownColor _ => some (choices (Color.all.map Color.keyword))
  | .unexpected _ _ => none
  | .missingSeparator => none

end Fault

end SceneText
