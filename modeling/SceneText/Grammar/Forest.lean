import SceneText.Grammar.Rule
import SceneText.Text.Offset

/-!
# Grammar/Forest — what a match leaves behind

A match is recorded as the matched text itself, cut into nodes where rules have matched.  The record
loses nothing (`Forest.text`), and the place of a node follows from the text before it
(`Forest.nodes`).
-/

namespace SceneText

/-- A matched text, some stretches of it gathered under the rules that matched them. -/
inductive Forest where
  | nil
  /-- A stretch outside any node, then more. -/
  | text (stretch : List Char) (next : Forest)
  /-- What a rule matched, then more. -/
  | node (rule : Rule) (inner next : Forest)
  deriving DecidableEq, Repr

/-- A node at its place in a text. -/
structure Node where
  rule : Rule
  /-- The offset of its first character. -/
  start : Nat
  inner : Forest
  deriving DecidableEq, Repr

namespace Forest

/-- The matched text. -/
protected def toList : Forest → List Char
  | nil => []
  | text stretch next => stretch ++ next.toList
  | node _ inner next => inner.toList ++ next.toList

/-- One match after the other. -/
protected def append : Forest → Forest → Forest
  | nil, g => g
  | text stretch next, g => text stretch (next.append g)
  | node rule inner next, g => node rule inner (next.append g)

instance : Append Forest := ⟨Forest.append⟩

/-- The outermost nodes of a match that begins at an offset. -/
def nodes : Forest → Nat → List Node
  | nil, _ => []
  | text stretch next, start => next.nodes (start + byteLength stretch)
  | node rule inner next, start =>
    ⟨rule, start, inner⟩ :: next.nodes (start + byteLength inner.toList)

@[simp] theorem nil_append (g : Forest) : nil ++ g = g := rfl

@[simp] theorem text_append (s : List Char) (f g : Forest) : text s f ++ g = text s (f ++ g) := rfl

@[simp] theorem node_append (r : Rule) (i f g : Forest) : node r i f ++ g = node r i (f ++ g) := rfl

@[simp] theorem toList_append (f g : Forest) : (f ++ g).toList = f.toList ++ g.toList := by
  induction f with
  | nil => rfl
  | text s f ih => simp [Forest.toList, ih]
  | node r i f _ ih => simp [Forest.toList, ih]

/-- **The nodes of two matches are those of the first, then those of the second.** -/
theorem nodes_append (f g : Forest) (start : Nat) :
    (f ++ g).nodes start = f.nodes start ++ g.nodes (start + byteLength f.toList) := by
  induction f generalizing start with
  | nil => rfl
  | text s f ih => simp [nodes, Forest.toList, ih, Nat.add_assoc]
  | node r i f _ ih => simp [nodes, Forest.toList, ih, Nat.add_assoc]

end Forest

namespace Node

/-- The text of a node. -/
def text (n : Node) : List Char := n.inner.toList

/-- The offset just after a node. -/
def stop (n : Node) : Nat := n.start + byteLength n.text

/-- The nodes directly inside a node. -/
def children (n : Node) : List Node := n.inner.nodes n.start

/-- The nodes of one rule directly inside a node. -/
def childrenOf (rule : Rule) (n : Node) : List Node := n.children.filter (·.rule = rule)

/-- The first of them. -/
def childOf? (rule : Rule) (n : Node) : Option Node := n.children.find? (·.rule = rule)

end Node

end SceneText
