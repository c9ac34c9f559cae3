/-!
# Text/Ranges — sets of characters as ranges of code points
-/

namespace SceneText

/-- A set of characters, as inclusive ranges of code points in increasing order. -/
abbrev CharRanges := List (Nat × Nat)

/-- Whether a character lies in one of the ranges. -/
def CharRanges.has (ranges : CharRanges) (c : Char) : Bool :=
  ranges.any fun (first, last) => first ≤ c.toNat && c.toNat ≤ last

end SceneText
