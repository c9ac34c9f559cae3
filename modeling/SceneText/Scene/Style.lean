/-!
# Scene/Style — how a shape is drawn

Two closed vocabularies, the styles and the colors, each in the order in which messages list it.
-/

namespace SceneText

/-! ## Vocabularies -/

/-- A closed vocabulary: its members in the order in which messages list them, each with a word from
which it is found again. -/
structure Vocabulary (α : Type) where
  all : List α
  keyword : α → String
  find?_keyword : ∀ a, all.find? (keyword · == keyword a) = some a

namespace Vocabulary

variable {α : Type} (v : Vocabulary α)

/-- The member a word stands for; case matters. -/
def ofKeyword? (word : String) : Option α := v.all.find? (v.keyword · == word)

/-- **A word stands for the member that it is the keyword of**, and for no other. -/
theorem ofKeyword?_eq_some_iff {word : String} {a : α} :
    v.ofKeyword? word = some a ↔ word = v.keyword a := by
  constructor
  · intro h
    have hword := List.find?_some (p := (v.keyword · == word)) h
    exact (beq_iff_eq.1 hword).symm
  · rintro rfl
    exact v.find?_keyword a

end Vocabulary

/-! ## Styles and colors -/

/-- What is drawn of a shape. -/
inductive Style where
  /-- The outline, left open. -/
  | path
  /-- The closed outline. -/
  | closed
  /-- The interior. -/
  | filled
  deriving DecidableEq, Repr

namespace Style

/-- Every style. -/
def all : List Style := [.path, .closed, .filled]

/-- The word for a style. -/
def keyword : Style → String
  | .path => "path"
  | .closed => "closed"
  | .filled => "filled"

/-- The vocabulary of styles. -/
def vocabulary : Vocabulary Style where
  all := all
  keyword := keyword
  find?_keyword s := by cases s <;> decide

/-- The style a word stands for. -/
def ofKeyword? (word : String) : Option Style := vocabulary.ofKeyword? word

end Style

/-- The named colors. -/
inductive Color where
  | black | blue | brown | cyan | gray | green | orange | pink | red | white | yellow
  deriving DecidableEq, Repr

namespace Color

/-- Every color. -/
def all : List Color :=
  [.black, .blue, .brown, .cyan, .gray, .green, .orange, .pink, .red, .white, .yellow]

/-- The word for a color. -/
def keyword : Color → String
  | .black => "black"
  | .blue => "blue"
  | .brown => "brown"
  | .cyan => "cyan"
  | .gray => "gray"
  | .green => "green"
  | .orange => "orange"
  | .pink => "pink"
  | .red => "red"
  | .white => "white"
  | .yellow => "yellow"

/-- The vocabulary of colors. -/
def vocabulary : Vocabulary Color where
  all := all
  keyword := keyword
  find?_keyword c := by cases c <;> decide

/-- The color a word stands for. -/
def ofKeyword? (word : String) : Option Color := vocabulary.ofKeyword? word

/-- The red, green and blue parts of a color. -/
def rgb : Color → UInt8 × UInt8 × UInt8
  | .black => (0, 0, 0)
  | .blue => (0, 0, 255)
  | .brown => (165, 42, 42)
  | .cyan => (0, 255, 255)
  | .gray => (128, 128, 128)
  | .green => (0, 128, 0)
  | .orange => (255, 165, 0)
  | .pink => (255, 192, 203)
  | .red => (255, 0, 0)
  | .white => (255, 255, 255)
  | .yellow => (255, 255, 0)

end Color

/-- The style and color of a shape. -/
structure DrawStyle where
  style : Style
  color : Color
  deriving DecidableEq, Repr

end SceneText
