import SceneText.Text.Offset

/-!
# Error/Source — a named text and stretches of it
-/

namespace SceneText

/-- A stretch of a text, counted in bytes. -/
structure Span where
  offset : Nat
  length : Nat
  deriving DecidableEq, Repr

/-- A text to be read, with the name that messages give it. -/
structure Source where
  name : String
  text : String
  deriving DecidableEq, Repr

namespace Source

/-- A text that has no name of its own. -/
def anonymous (text : String) : Source := ⟨"<input>", text⟩

/-- The part of a stretch that lies inside the text. -/
def clamp (source : Source) (span : Span) : Span :=
  let size := byteLength source.text.toList
  let offset := min span.offset size
  ⟨offset, min span.length (size - offset)⟩

/-- **A clamped stretch ends inside the text.** -/
theorem clamp_le (source : Source) (span : Span) :
    (source.clamp span).offset + (source.clamp span).length ≤ byteLength source.text.toList := by
  simp only [clamp]; omega

end Source

end SceneText
