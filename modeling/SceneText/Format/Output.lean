import SceneText.Error.PrintError

/-!
# Format/Output — text written, up to the first error

An `Output` is what writing a value yields: the text, and the error that ended it if there was one.
Outputs are chained by `++`, and nothing is written after an error.
-/

namespace SceneText

/-- The two line ends that can be written. -/
inductive LineEnding where
  | lf
  | crlf
  deriving DecidableEq, Repr

/-- The characters of a line end. -/
def LineEnding.text : LineEnding → String
  | .lf => "\n"
  | .crlf => "\r\n"

/-- Text written, and the error that ended it. -/
structure Output where
  text : String
  error? : Option PrintError

namespace Output

/-- Nothing written, and no error. -/
def nothing : Output := ⟨"", none⟩

/-- A text written. -/
def write (text : String) : Output := ⟨text, none⟩

/-- An error before anything is written. -/
def fail (error : PrintError) : Output := ⟨"", some error⟩

/-- One output after the other; the second is dropped if the first ended in an error. -/
protected def append (first second : Output) : Output :=
  match first.error? with
  | none => ⟨first.text ++ second.text, second.error?⟩
  | some error => ⟨first.text, some error⟩

instance : Append Output := ⟨Output.append⟩

/-- Outputs one after the other. -/
def concat (parts : List Output) : Output := parts.foldr (· ++ ·) nothing

/-- Outputs with a text between each two of them. -/
def join (separator : String) (parts : List Output) : Output :=
  concat (parts.intersperse (write separator))

/-- The whole text, unless an error ended it. -/
def toExcept (out : Output) : Except PrintError String :=
  match out.error? with
  | none => .ok out.text
  | some error => .error error

theorem append_def (first second : Output) : first ++ second = first.append second := rfl

/-- Behind an output without an error the next one goes on. -/
theorem append_of_none {first : Output} (h : first.error? = none) (second : Output) :
    first ++ second = ⟨first.text ++ second.text, second.error?⟩ := by
  simp only [append_def, Output.append, h]

/-- Behind an error nothing is written. -/
theorem append_of_some {first : Output} {error : PrintError} (h : first.error? = some error)
    (second : Output) : first ++ second = first := by
  obtain ⟨text, error?⟩ := first
  obtain rfl : error? = some error := h
  rfl

theorem append_assoc (a b c : Output) : a ++ b ++ c = a ++ (b ++ c) := by
  rcases a with ⟨s, _ | error⟩ <;> rcases b with ⟨t, _ | error'⟩ <;>
    simp [append_def, Output.append, String.append_assoc]

end Output

end SceneText
