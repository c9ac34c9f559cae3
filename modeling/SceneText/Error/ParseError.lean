import SceneText.Error.Fault
import SceneText.Error.Source
import SceneText.Grammar.Furthest
import SceneText.Text.Blank

/-!
# Error/ParseError — where a text went wrong

A `Finding` is a fault with the stretch that shows it, a `ParseError` a finding in a source.
`Finding.ofFurthest` judges a failed match by what could have stood at its furthest place.
-/

namespace SceneText

/-- A fault and the stretch that shows it. -/
structure Finding where
  fault : Fault
  span : Span
  deriving DecidableEq, Repr

/-- A finding in a source; its span lies inside the source's text. -/
structure ParseError extends Finding where
  source : Source
  deriving DecidableEq, Repr

/-- A finding as the error of a source. -/
def Source.blame (source : Source) (finding : Finding) : ParseError :=
  ⟨⟨finding.fault, source.clamp finding.span⟩, source⟩

namespace Finding

/-- Something unexpected at an offset. -/
def unexpected (rule : Rule) (expected : Expectation) (offset : Nat) : Finding :=
  ⟨.unexpected rule expected, ⟨offset, 1⟩⟩

/-- The fault of a word, which is the text of a node. -/
def ofWord (fault : String → Fault) (n : Node) : Finding :=
  ⟨fault (.ofList n.text), ⟨n.start, byteLength n.text⟩⟩

/-- The text of a node that is no finite number. -/
def malformedNumber : Node → Finding := ofWord .malformedNumber

/-- The text of a node that is no style. -/
def unknownStyle : Node → Finding := ofWord .unknownStyle

/-- The text of a node that is no color. -/
def unknownColor : Node → Finding := ofWord .unknownColor

/-- The rules that a line which has just begun may match. -/
def startsLine (r : Rule) : Bool := r == .lineEnd || r == .transform || r == .shape

/-- **What a failed match tells.**  Where a number is expected and the line goes on, the word there
is a malformed number.  Where a line end is expected, and else only what may follow one, the line
end is missing.  Any other place holds something unexpected. -/
def ofFurthest (source : List Char) (far : Furthest) : Finding :=
  let offset := far.offset source
  let rules := far.expected.filter (· ≠ .endOfText)
  let lineIsOver := far.rest.head?.all isLineBreak
  if .number ∈ rules ∧ lineIsOver = false then
    let word := far.rest.takeWhile fun c => !whiteSpace.has c
    ⟨.malformedNumber (.ofList word), ⟨offset, max (byteLength word) 1⟩⟩
  else if .lineEnd ∈ rules ∧ rules.all startsLine then
    ⟨.missingSeparator, ⟨offset, 1⟩⟩
  else
    unexpected (rules.head?.getD .document)
      (.oneOf rules (.endOfText ∈ far.expected)) offset

end Finding

end SceneText
