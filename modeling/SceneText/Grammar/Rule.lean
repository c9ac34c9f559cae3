/-!
# Grammar/Rule — the rules of the scene grammar

Rules are listed in the order in which messages list them.
-/

namespace SceneText

/-- The rules of the scene grammar, the end of the text among them. -/
inductive Rule where
  | endOfText
  | blank
  | lineEnd
  | number
  | point
  | points
  | name
  | comment
  | rotate
  | scale
  | translate
  | transform
  | transforms
  | trailingTransforms
  | styleName
  | colorName
  | drawStyle
  | unitSquare
  | unitCircle
  | shape
  | shapes
  | group
  | groupSeparator
  | document
  deriving DecidableEq, Repr

namespace Rule

/-- Every rule, in order. -/
def all : List Rule :=
  [.endOfText, .blank, .lineEnd, .number, .point, .points, .name, .comment, .rotate, .scale,
    .translate, .transform, .transforms, .trailingTransforms, .styleName, .colorName, .drawStyle,
    .unitSquare, .unitCircle, .shape, .shapes, .group, .groupSeparator, .document]

/-- The name of a rule in messages. -/
def label : Rule → String
  | .endOfText => "EOI"
  | .blank => "WS"
  | .lineEnd => "line_end"
  | .number => "number"
  | .point => "point"
  | .points => "points"
  | .name => "name"
  | .comment => "comment"
  | .rotate => "rotate"
  | .scale => "scale"
  | .translate => "translate"
  | .transform => "transform"
  | .transforms => "transforms"
  | .trailingTransforms => "trailing_transforms"
  | .styleName => "style_name"
  | .colorName => "color_name"
  | .drawStyle => "draw_style"
  | .unitSquare => "unit_square"
  | .unitCircle => "unit_circle"
  | .shape => "shape"
  | .shapes => "shapes"
  | .group => "group"
  | .groupSeparator => "group_separator"
  | .document => "document"

/-- The rule with a given name. -/
def ofLabel? (label : String) : Option Rule := all.find? (·.label == label)

theorem mem_all (r : Rule) : r ∈ all := by cases r <;> decide

end Rule

end SceneText
