import SceneText.Format.Textual

/-!
# Format/DrawStyle — the style line of a shape

A style line is two words, each of a vocabulary of its own.
-/

namespace SceneText

/-- The member of a vocabulary that the text of a node stands for. -/
def readWord {α : Type} (v : Vocabulary α) (unknown : String → Fault) (n : Node) :
    Except Finding α :=
  match v.ofKeyword? (.ofList n.text) with
  | some a => .ok a
  | none => .error (.ofWord unknown n)

instance : Textual DrawStyle where
  rule := .drawStyle
  read n := do
    let styleWord ← n.child .styleName
    let colorWord ← n.child .colorName
    let style ← readWord Style.vocabulary .unknownStyle styleWord
    let color ← readWord Color.vocabulary .unknownColor colorWord
    pure ⟨style, color⟩
  write _ d := .write d.style.keyword ++ .write " " ++ .write d.color.keyword

end SceneText
