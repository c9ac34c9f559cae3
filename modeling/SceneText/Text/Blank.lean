import SceneText.Text.Ranges

/-!
# Text/Blank — blanks, line breaks and white space

Three sets of characters: the two blanks that separate words on a line, the two characters that end
lines, and the larger set of Unicode white space, which ends a word quoted in a message.
-/

namespace SceneText

/-- A space or a tab. -/
def isBlank (c : Char) : Bool := c == ' ' || c == '\t'

/-- A line feed or a carriage return. -/
def isLineBreak (c : Char) : Bool := c == '\n' || c == '\r'

/-- The code points with the Unicode property White_Space. -/
def whiteSpace : CharRanges := [
  (0x9, 0xD), (0x20, 0x20), (0x85, 0x85), (0xA0, 0xA0), (0x1680, 0x1680), (0x2000, 0x200A),
  (0x2028, 0x2029), (0x202F, 0x202F), (0x205F, 0x205F), (0x3000, 0x3000)]

end SceneText
