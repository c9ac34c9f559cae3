import SceneText.Grammar.Pattern

/-!
# Grammar/Furthest — how far a failed match got

While a pattern is matched, the rules that fail furthest into the text are recorded; when the whole
match fails, the record says where the text went wrong and what could have stood there.  Places are
told by what is left of the text.
-/

namespace SceneText

/-- The furthest place where a rule has failed, and the rules that failed there. -/
structure Furthest where
  /-- The text from that place on. -/
  rest : List Char
  rules : List Rule
  deriving DecidableEq, Repr

namespace Furthest

/-- The record before the match: the front of the text, and no rule. -/
def start (s : List Char) : Furthest := ⟨s, []⟩

/-- How many rules are recorded at a place. -/
def countAt (far : Furthest) (s : List Char) : Nat :=
  if s.length = far.rest.length then far.rules.length else 0

/-- The record after a rule has failed at `s`, where it stood at `before` when the rule began and at
`after` when its body had failed.  A rule whose body has left exactly one more rule at its own place
is passed over in favour of that one; else it takes the place of all that its body left there. -/
def fail (rule : Rule) (s : List Char) (before after : Furthest) : Furthest :=
  if after.countAt s = before.countAt s + 1 then after
  else if s.length = after.rest.length then
    ⟨after.rest, after.rules.take (before.countAt s) ++ [rule]⟩
  else if s.length < after.rest.length then ⟨s, [rule]⟩
  else after

/-- The rules recorded, in order and each once. -/
def expected (far : Furthest) : List Rule := Rule.all.filter (· ∈ far.rules)

/-- The offset of the place in the text that was matched. -/
def offset (far : Furthest) (source : List Char) : Nat :=
  byteLength source - byteLength far.rest

end Furthest

/-- The record of at most one turn for each entry of `turns`, and of the turn that fails. -/
def searchUpTo (step : List Char → Option Match) (search : List Char → Furthest → Furthest) :
    (turns s : List Char) → Furthest → Furthest
  | [], s, far => search s far
  | _ :: turns, s, far =>
    match step s with
    | none => search s far
    | some (_, rest) => searchUpTo step search turns rest (search s far)

/-- The record of a repetition: every turn leaves its own, the failing last one too. -/
def searchMany (step : List Char → Option Match) (search : List Char → Furthest → Furthest)
    (s : List Char) (far : Furthest) : Furthest :=
  searchUpTo step search s s far

namespace Pattern

/-- **The record that matching a pattern leaves.**  Nothing is undone when an alternative is given
up, a look-ahead records as any other match does, and a pattern that must be absent records
nothing. -/
def search : Pattern → List Char → Furthest → Furthest
  | char _, _, far => far
  | word _, _, far => far
  | atEnd, _, far => far
  | seq first second, s, far =>
    match first.parse s with
    | none => first.search s far
    | some (_, rest) => second.search rest (first.search s far)
  | alt first second, s, far =>
    match first.parse s with
    | none => second.search s (first.search s far)
    | some _ => first.search s far
  | opt body, s, far => body.search s far
  | many body, s, far => searchMany body.parse body.search s far
  | ahead body, s, far => body.search s far
  | absent _, _, far => far
  | rule r body, s, far =>
    match body.parse s with
    | none => .fail r s far (body.search s far)
    | some _ => body.search s far

end Pattern

end SceneText
