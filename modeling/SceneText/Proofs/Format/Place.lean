import SceneText.Proofs.Format.Alike

/-!
# Proofs/Format/Place — a node reads alike wherever it stands

A node that is moved along the text keeps its rule and its text, and findings move along with it
(`corresponds_move`).  So whether a node has a value, and which, can be told from its forest alone
(`read_eq_ok_iff`).
-/

namespace SceneText

/-- A node further on in a text. -/
def Node.move (k : Nat) (n : Node) : Node := { n with start := k + n.start }

theorem Node.eq_move (r : Rule) (start : Nat) (g : Forest) :
    (⟨r, start, g⟩ : Node) = Node.move start ⟨r, 0, g⟩ := rfl

/-- A finding further on in a text. -/
def Finding.move (k : Nat) (e : Finding) : Finding :=
  { e with span := { e.span with offset := k + e.span.offset } }

theorem Forest.nodes_add (f : Forest) (k start : Nat) :
    f.nodes (k + start) = (f.nodes start).map (.move k) := by
  induction f generalizing start with
  | nil => rfl
  | text s f ih => rw [nodes, nodes, Nat.add_assoc, ih]
  | node r i f _ ih => rw [nodes, nodes, Nat.add_assoc, ih, List.map_cons, Node.move]

/-- **Nodes that are moved along correspond.** -/
theorem corresponds_move (k : Nat) :
    Corresponds (fun n n' => n' = n.move k) fun e e' => e' = e.move k where
  rule := by
    rintro n _ rfl
    rfl
  children := by
    rintro n _ rfl
    have hchildren : (n.move k).children = n.children.map (.move k) := n.inner.nodes_add k n.start
    rw [hchildren, List.forall₂_map_right_iff, List.forall₂_same]
    exact fun c _ => rfl
  text := by
    rintro n _ rfl -
    rfl
  start fault length := by
    rintro rfl
    rfl
  keyword name := by
    rintro rfl
    rw [Finding.emptyGroup, Node.move, Nat.add_assoc]
    rfl

/-- **Whether a node has a value, and which, does not depend on its place.** -/
theorem read_eq_ok_iff {α : Type} [Textual α] [Structural α] {r : Rule} {g : Forest} {v : α}
    (start : Nat) : Textual.read ⟨r, start, g⟩ = .ok v ↔ Textual.read ⟨r, 0, g⟩ = .ok v :=
  (Structural.read_alike (corresponds_move start) (Node.eq_move r start g)).ok_iff

theorem readList_eq_ok_iff {α : Type} [Textual (List α)] [Structural (List α)] {list r : Rule}
    {g : Forest} {as : List α} (start : Nat) :
    readList list ⟨r, start, g⟩ = .ok as ↔ readList list ⟨r, 0, g⟩ = .ok as :=
  ((corresponds_move start).readList_alike list (Node.eq_move r start g)).ok_iff

end SceneText
