import SceneText.Format.Document
import SceneText.Proofs.Text.Words

/-!
# Proofs/Format/Language — scenes, line by line

What the lines of a text say, without a word about how they are read: which line holds a point, a
style or a transform, which lines make up a shape or a group, and which make up a document.  Empty
lines hold no character, blank lines at most blanks.
-/

namespace SceneText

variable {l : List Char} {ls : List (List Char)}

/-! ## Single lines -/

/-- A word spells a finite double. -/
def Spells (w : List Char) (x : Float) : Prop := Numeral.read w = some x ∧ x.isFinite

/-- Two numbers. -/
def PointLine (l : List Char) (p : Point Float) : Prop :=
  ∃ x y, words l = [x, y] ∧ Spells x p.x ∧ Spells y p.y

/-- The tag of a form and its numbers. -/
def TransformLine (l : List Char) (t : Transform Float) : Prop :=
  ∃ ws, words l = t.form.tag.toList :: ws ∧ List.Forall₂ Spells ws t.operands

/-- A style and a color. -/
def StyleLine (l : List Char) (d : DrawStyle) : Prop :=
  words l = [d.style.keyword.toList, d.color.keyword.toList]

/-- A keyword behind blanks; then the line is over, or blanks follow and all behind them is the
name. -/
def HeaderLine (keyword : String) (l : List Char) (name : String) : Prop :=
  ∃ b t, l = b ++ (keyword.toList ++ t) ∧ IsBlankLine b ∧ Stops (!isBlank ·) t ∧
    name.toList = t.dropWhile isBlank

/-! ## Blocks of lines -/

/-- A header, a style line, and transforms. -/
def ShapeLines (ls : List (List Char)) (s : Shape Float) : Prop :=
  ∃ header style more, ls = header :: style :: more ∧ HeaderLine s.kind.keyword header s.name ∧
    StyleLine style s.drawStyle ∧ List.Forall₂ TransformLine more s.transforms

/-- Shapes, each behind any number of empty lines. -/
inductive MemberLines : List (List Char) → List (Shape Float) → Prop
  | nil : MemberLines [] []
  | cons (n : Nat) {ls more : List (List Char)} {s : Shape Float} {ss : List (Shape Float)} :
    ShapeLines ls s → MemberLines more ss →
      MemberLines (List.replicate n [] ++ (ls ++ more)) (s :: ss)

/-- A header, transforms, and one shape at least. -/
def GroupLines (ls : List (List Char)) (g : Group Float) : Prop :=
  ∃ header more members, ls = header :: (more ++ members) ∧ HeaderLine "group" header g.name ∧
    List.Forall₂ TransformLine more g.transforms ∧ MemberLines members g.shapes ∧ g.shapes ≠ []

/-- Groups, each behind an empty line that follows directly and then any blank lines. -/
inductive LaterGroups : List (List Char) → List (Group Float) → Prop
  | nil : LaterGroups [] []
  | cons {blank ls more : List (List Char)} {g : Group Float} {gs : List (Group Float)} :
    (∀ l ∈ blank, IsBlankLine l) → GroupLines ls g → LaterGroups more gs →
      LaterGroups ([] :: (blank ++ (ls ++ more))) (g :: gs)

/-- **The lines of a document**: groups between blank lines, or blank lines alone. -/
inductive DocumentLines : List (List Char) → Document Float → Prop
  | blank {ls : List (List Char)} : (∀ l ∈ ls, IsBlankLine l) → DocumentLines ls ⟨[]⟩
  | groups {before ls more after : List (List Char)} {g : Group Float} {gs : List (Group Float)} :
    (∀ l ∈ before, IsBlankLine l) → GroupLines ls g → LaterGroups more gs →
      (∀ l ∈ after, IsBlankLine l) →
        DocumentLines (before ++ (ls ++ (more ++ after))) ⟨g :: gs⟩

end SceneText
