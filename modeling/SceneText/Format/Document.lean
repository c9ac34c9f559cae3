import SceneText.Format.Shape

/-!
# Format/Document — groups and documents

A group is a header line with its name, its transforms, an empty line, and its shapes.  Groups are
written one empty line apart.
-/

namespace SceneText

/-- A group without shapes, shown at its keyword: the node may begin with empty lines. -/
def Finding.emptyGroup (n : Node) (name : String) : Finding :=
  ⟨.emptyGroup name, ⟨n.start + (offsetOf? "group".toList n.text).getD 0, 5⟩⟩

instance : Textual (Group Float) where
  rule := .group
  read n := do
    let name := readName (← n.child .comment)
    let transforms ← readTrailing (← n.child .trailingTransforms)
    let shapes ← readList .shapes n
    if shapes.isEmpty then throw (.emptyGroup n name)
    pure ⟨name, transforms, shapes⟩
  write ending g :=
    if g.shapes.isEmpty then .fail (.emptyGroup g.name)
    else
      .write "group" ++ writeName g.name ++ writeTrailing ending g.transforms
        ++ .write (ending.text ++ ending.text) ++ Textual.write ending g.shapes

instance : Textual (Document Float) where
  rule := .document
  read n := Document.mk <$> (n.childrenOf .group).mapM Textual.read
  write ending d := .join (ending.text ++ ending.text) (d.groups.map (Textual.write ending))

/-- The document of an unnamed text. -/
def parseDocument (text : String) : Except ParseError (Document Float) :=
  parse (Document Float) (.anonymous text)

/-- The document of a text with a name that errors show. -/
def parseNamed (name text : String) : Except ParseError (Document Float) :=
  parse (Document Float) ⟨name, text⟩

end SceneText
