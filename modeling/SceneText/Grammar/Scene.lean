import SceneText.Grammar.Furthest
import SceneText.Text.Blank

/-!
# Grammar/Scene — the scene grammar

Every blank and line end that a scene may hold is spelled out.  A document is a list of groups with
an empty line between two of them; a group is a header line, its transforms a line each, and its
shapes; a shape is a header line, a style line, and its transforms.
-/

namespace SceneText

namespace Pattern

/-- A literal word. -/
def text (s : String) : Pattern := .word s.toList

/-- A space or a tab. -/
def blank : Pattern := .char isBlank

/-- Any blanks, or none. -/
def blanks : Pattern := .many blank

/-- The blanks between two words. -/
def gap : Pattern := .oneOrMore blank

/-- The three line ends. -/
def newline : Pattern := text "\n" <|> text "\r\n" <|> text "\r"

/-- One line end. -/
def lineEnd : Pattern := .rule .lineEnd newline

/-- A run of letters, digits, signs and points.  Whether it is a number is asked later. -/
def number : Pattern :=
  .rule .number (.oneOrMore (.char fun c => c = '+' || c = '-' || c = '.' || c.isAlphanum))

/-- Two numbers on a line. -/
def point : Pattern := .rule .point (blanks ++ number ++ gap ++ number ++ blanks)

/-- Points, a line each. -/
def points : Pattern := .rule .points (point ++ .many (lineEnd ++ point))

/-- All up to the end of the line. -/
def name : Pattern := .rule .name (.many (.absent newline ++ .char fun _ => true))

/-- The rest of a header line: blanks and a name, or nothing where no blank follows the keyword. -/
def comment : Pattern := .rule .comment (gap ++ name <|> .absent blank)

/-- `r` and an angle. -/
def rotate : Pattern := .rule .rotate (text "r" ++ gap ++ number)

/-- `s` and two factors. -/
def scale : Pattern := .rule .scale (text "s" ++ gap ++ number ++ gap ++ number)

/-- `t` and two distances. -/
def translate : Pattern :=
  .rule .translate (text "t" ++ gap ++ number ++ gap ++ number)

/-- A line that holds one transform. -/
def transform : Pattern :=
  .rule .transform (blanks ++ (rotate <|> scale <|> translate) ++ blanks)

/-- Transforms, a line each. -/
def transforms : Pattern := .rule .transforms (transform ++ .many (lineEnd ++ transform))

/-- The transforms under a header.  A line end is only taken where a transform follows it: else it
belongs to what separates this item from the next. -/
def trailingTransforms : Pattern :=
  .rule .trailingTransforms (.opt (.ahead (lineEnd ++ transform) ++ lineEnd ++ transforms))

/-- A word where a style is due. -/
def styleName : Pattern := .rule .styleName (.oneOrMore (.char Char.isAlpha))

/-- A word where a color is due. -/
def colorName : Pattern := .rule .colorName (.oneOrMore (.char Char.isAlpha))

/-- A line of a style and a color. -/
def drawStyle : Pattern :=
  .rule .drawStyle (blanks ++ styleName ++ gap ++ colorName ++ blanks)

/-- The keyword of a square. -/
def unitSquare : Pattern := .rule .unitSquare (text "unit square")

/-- The keyword of a circle. -/
def unitCircle : Pattern := .rule .unitCircle (text "unit circle")

/-- A shape: header, style line, transforms. -/
def shape : Pattern :=
  .rule .shape
    (blanks ++ (unitSquare <|> unitCircle) ++ comment ++ lineEnd ++ drawStyle ++ trailingTransforms)

/-- Shapes, with or without empty lines between them. -/
def shapes : Pattern := .rule .shapes (shape ++ .many (.oneOrMore lineEnd ++ shape))

/-- A group.  One without shapes matches too, so that it can be told as such. -/
def group : Pattern :=
  .rule .group
    (.many (blank <|> newline) ++ text "group" ++ comment ++ trailingTransforms
      ++ .opt (.oneOrMore lineEnd ++ shapes))

/-- The line ends between two groups: an empty line at least. -/
def groupSeparator : Pattern := lineEnd ++ .oneOrMore lineEnd

/-- The end of the text, as a node. -/
def endOfText : Pattern := .rule .endOfText .atEnd

/-- Groups, then nothing but blanks and line ends. -/
def document : Pattern :=
  .rule .document
    (.opt (group ++ .many (groupSeparator ++ group)) ++ .many (blank <|> newline) ++ endOfText)

end Pattern

namespace Rule

/-- What a rule matches.  Blanks and group separators leave no node of their own. -/
def pattern : Rule → Pattern
  | .endOfText => .endOfText
  | .blank => .blank
  | .lineEnd => .lineEnd
  | .number => .number
  | .point => .point
  | .points => .points
  | .name => .name
  | .comment => .comment
  | .rotate => .rotate
  | .scale => .scale
  | .translate => .translate
  | .transform => .transform
  | .transforms => .transforms
  | .trailingTransforms => .trailingTransforms
  | .styleName => .styleName
  | .colorName => .colorName
  | .drawStyle => .drawStyle
  | .unitSquare => .unitSquare
  | .unitCircle => .unitCircle
  | .shape => .shape
  | .shapes => .shapes
  | .group => .group
  | .groupSeparator => .groupSeparator
  | .document => .document

/-- The nodes that a rule leaves at the front of a text, or how far it got. -/
def nodes (r : Rule) (s : List Char) : Except Furthest (List Node) :=
  match r.pattern.parse s with
  | some (f, _) => .ok (f.nodes 0)
  | none => .error (r.pattern.search s (.start s))

end Rule

end SceneText
