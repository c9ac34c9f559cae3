import SceneText.Text.GraphemeExtend
import SceneText.Text.Ignorable
import SceneText.Text.Unprintable

/-!
# Text/Quoted — a text between quotes

Messages quote names and numbers so that each character can be told: what has no shape of its own,
joins the character before it or is left out of a display by default is written as an escape.
-/

namespace SceneText

/-- A character inside quotes. -/
def escape (c : Char) : List Char :=
  if c = '\x00' then ['\\', '0']
  else if c = '\t' then ['\\', 't']
  else if c = '\r' then ['\\', 'r']
  else if c = '\n' then ['\\', 'n']
  else if c = '"' || c = '\\' then ['\\', c]
  else if graphemeExtend.has c || unprintable.has c || defaultIgnorable.has c then
    ['\\', 'u', '\x7b'] ++ Nat.toDigits 16 c.toNat ++ ['\x7d']
  else [c]

/-- A text between double quotes, its characters escaped where need be. -/
def quote (s : String) : String := .ofList ('"' :: s.toList.flatMap escape ++ ['"'])

end SceneText
