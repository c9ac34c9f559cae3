import SceneText.Error.ParseError
import SceneText.Format.Printer
import SceneText.Grammar.Scene

/-!
# Format/Textual — values with a text

A type with a text names the grammar rule of its texts, reads a value from a node, and writes a
value in one canonical way.  `parse` and `print` work for every such type; `parse` takes the whole of
a text or says what is wrong with it.
-/

namespace SceneText

/-- A type whose values are read and written by one rule of the grammar. -/
class Textual (α : Type) where
  /-- The rule that texts match. -/
  rule : Rule
  /-- The value of a node.  The node need not come from `rule`; one that does not fit is refused. -/
  read : Node → Except Finding α
  /-- The canonical text of a value. -/
  write : LineEnding → α → Output

variable {α : Type} [Textual α]

/-- The node of a rule that spans a whole text. -/
def wholeNode (rule : Rule) (s : List Char) : Except Finding Node :=
  match rule.nodes s with
  | .error far => .error (.ofFurthest s far)
  | .ok [] => .error (.unexpected rule (.rule rule) 0)
  | .ok (n :: _) =>
    if n.stop = byteLength s then .ok n
    else .error (.unexpected rule .endOfText n.stop)

/-- The value of a whole text. -/
def readText (α : Type) [Textual α] (s : List Char) : Except Finding α :=
  wholeNode (Textual.rule α) s >>= Textual.read

/-- **The value of a source**, or the first error in it. -/
def parse (α : Type) [Textual α] (source : Source) : Except ParseError α :=
  (readText α source.text.toList).mapError source.blame

/-- The value of a node, with errors shown in a source. -/
def parseNode (α : Type) [Textual α] (source : Source) (n : Node) : Except ParseError α :=
  (Textual.read n : Except Finding α).mapError source.blame

/-- **The text of a value** with a given line end, or the first thing in it that has none. -/
def printWith (ending : LineEnding) (value : α) : Except PrintError String :=
  (Textual.write ending value).toExcept

/-- The text of a value, its lines ended by line feeds. -/
def print (value : α) : Except PrintError String := printWith .lf value

/-- Writes a value to the end of a buffer. -/
def Printer.print (p : Printer) (value : α) : Option PrintError × Printer :=
  p.put fun ending => Textual.write ending value

/-- The first node of a rule directly inside a node, where one is needed. -/
def Node.child (n : Node) (rule : Rule) : Except Finding Node :=
  match n.childOf? rule with
  | some child => .ok child
  | none => .error (.unexpected n.rule (.rule rule) n.start)

/-- The values in the first node of a rule directly inside a node, none where there is no such
node. -/
def readList {β : Type} [Textual (List β)] (rule : Rule) (n : Node) : Except Finding (List β) :=
  match n.childOf? rule with
  | some list => Textual.read list
  | none => .ok []

end SceneText
