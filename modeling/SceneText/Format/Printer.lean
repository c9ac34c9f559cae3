import SceneText.Format.Output

/-!
# Format/Printer — a buffer that texts are written to
-/

namespace SceneText

/-- A buffer and the line end that is written to it. -/
structure Printer where
  buffer : String
  lineEnding : LineEnding

namespace Printer

/-- An empty buffer. -/
def new (lineEnding : LineEnding) : Printer := ⟨"", lineEnding⟩

/-- The buffer with a text at its end. -/
def write (p : Printer) (text : String) : Printer := { p with buffer := p.buffer ++ text }

@[simp] theorem write_empty (p : Printer) : p.write "" = p := by
  rw [write, String.append_empty]

@[simp] theorem write_write (p : Printer) (s t : String) : (p.write s).write t = p.write (s ++ t) := by
  rw [write, write, write, String.append_assoc]

/-- The space that stands for any blanks. -/
def space (p : Printer) : Printer := p.write " "

/-- The end of a line. -/
def lineEnd (p : Printer) : Printer := p.write p.lineEnding.text

/-- The end of a line and an empty line. -/
def blankLine (p : Printer) : Printer := p.lineEnd.lineEnd

/-- The buffer with an output at its end, and the error that ended the output.  What was written
before an error stays. -/
def put (p : Printer) (out : LineEnding → Output) : Option PrintError × Printer :=
  ((out p.lineEnding).error?, p.write (out p.lineEnding).text)

end Printer

end SceneText
