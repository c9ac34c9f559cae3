import SceneText.Proofs.Format.Part

/-!
# Proofs/Format/Canonical — the lines that stand for a value

Every value that has a text has one way of being written: words a space apart, a name directly
behind its keyword, shapes and groups an empty line apart.  Those lines hold no line break
(`oneLine_of_mem_canonical`) and denote the value (`denotes_canonical`).
-/

namespace SceneText

variable {l w : List Char} {ls ws : List (List Char)} {keyword name : String}

/-! ## Values that have a text -/

/-- A line holds no line break. -/
def OneLine (l : List Char) : Prop := ∀ c ∈ l, isLineBreak c = false

@[simp] theorem oneLine_nil : OneLine [] := List.forall_mem_nil _

/-- A name that can stand behind a keyword: on one line, and with no blank at its front. -/
def PrintableName (name : String) : Prop := OneLine name.toList ∧ Stops isBlank name.toList

/-- Both numbers are finite. -/
def Point.Printable (v : Point Float) : Prop := v.x.isFinite ∧ v.y.isFinite

/-- All numbers are finite. -/
def Transform.Printable (t : Transform Float) : Prop := ∀ x ∈ t.operands, x.isFinite

/-- The name can stand behind a keyword, and all numbers are finite. -/
def Shape.Printable (s : Shape Float) : Prop :=
  PrintableName s.name ∧ ∀ t ∈ s.transforms, t.Printable

/-- All names can stand behind keywords, all numbers are finite, and there is a shape. -/
def Group.Printable (g : Group Float) : Prop :=
  PrintableName g.name ∧ (∀ t ∈ g.transforms, t.Printable) ∧ (∀ s ∈ g.shapes, s.Printable) ∧
    g.shapes ≠ []

namespace Part

/-- **A value has a text**: its numbers are finite, its names stand behind keywords, and its groups
have shapes. -/
def Printable : (p : Part) → p.Value → Prop
  | point, v => v.Printable
  | points, vs => ∀ v ∈ vs, v.Printable
  | transform, t => t.Printable
  | transforms, ts => ∀ t ∈ ts, t.Printable
  | drawStyle, _ => True
  | shape, s => s.Printable
  | shapes, ss => ∀ s ∈ ss, s.Printable
  | group, g => g.Printable
  | document, d => ∀ g ∈ d.groups, g.Printable

/-- A value is no empty list.  A document may be empty. -/
def Nonempty : (p : Part) → p.Value → Prop
  | points, vs => vs ≠ []
  | transforms, ts => ts ≠ []
  | shapes, ss => ss ≠ []
  | _, _ => True

end Part

/-! ## Canonical lines -/

/-- Words, a space apart. -/
def spaced (ws : List (List Char)) : List Char := [' '].intercalate ws

/-- Blocks of lines, an empty line apart. -/
def apart (bs : List (List (List Char))) : List (List Char) := [[]].intercalate bs

/-- A keyword, and a space and the name if there is one. -/
def header (keyword name : String) : List Char :=
  keyword.toList ++ if name.isEmpty then [] else ' ' :: name.toList

/-- Two numbers. -/
def Point.line (v : Point Float) : List Char :=
  spaced [(Numeral.write v.x).toList, (Numeral.write v.y).toList]

/-- A tag and its numbers. -/
def Transform.line (t : Transform Float) : List Char :=
  spaced (t.form.tag.toList :: t.operands.map fun x => (Numeral.write x).toList)

/-- A style and a color. -/
def DrawStyle.line (d : DrawStyle) : List Char :=
  spaced [d.style.keyword.toList, d.color.keyword.toList]

/-- A header, a style line, and transforms. -/
def Shape.lines (s : Shape Float) : List (List Char) :=
  header s.kind.keyword s.name :: s.drawStyle.line :: s.transforms.map Transform.line

/-- A header, transforms, an empty line, and shapes. -/
def Group.lines (g : Group Float) : List (List Char) :=
  header "group" g.name ::
    (g.transforms.map Transform.line ++ [] :: apart (g.shapes.map Shape.lines))

/-- Groups, or an empty line alone. -/
def Document.lines (d : Document Float) : List (List Char) :=
  if d.groups = [] then [[]] else apart (d.groups.map Group.lines)

/-- **The lines of a value.** -/
def Part.canonical : (p : Part) → p.Value → List (List Char)
  | point, v => [v.line]
  | points, vs => vs.map Point.line
  | transform, t => [t.line]
  | transforms, ts => ts.map Transform.line
  | drawStyle, d => [d.line]
  | shape, s => s.lines
  | shapes, ss => apart (ss.map Shape.lines)
  | group, g => g.lines
  | document, d => d.lines

/-! ## Lines without breaks -/

theorem oneLine_of_inWords {is : Char → Bool} (his : Pattern.InWords is) (hw : ∀ c ∈ w, is c) :
    OneLine w :=
  fun c hc => (his c (hw c hc)).2

theorem oneLine_spaced (h : ∀ w ∈ ws, OneLine w) : OneLine (spaced ws) :=
  forall_mem_intercalate (List.forall_mem_singleton.2 rfl) h

theorem oneLine_header (hkeyword : OneLine keyword.toList) (hname : OneLine name.toList) :
    OneLine (header keyword name) := by
  refine List.forall_mem_append.2 ⟨hkeyword, ?_⟩
  split
  · simp
  · exact List.forall_mem_cons.2 ⟨rfl, hname⟩

theorem oneLine_of_mem_apart {bs : List (List (List Char))} (h : ∀ b ∈ bs, ∀ l ∈ b, OneLine l) :
    ∀ l ∈ apart bs, OneLine l :=
  forall_mem_intercalate (List.forall_mem_singleton.2 oneLine_nil) h

theorem numberChars_write {x : Float} (hx : x.isFinite) :
    ∀ c ∈ (Numeral.write x).toList, isNumberChar c :=
  Numeral.numberChars_of_read (Numeral.read_write hx)

theorem oneLine_write {x : Float} (hx : x.isFinite) : OneLine (Numeral.write x).toList :=
  oneLine_of_inWords Pattern.inWords_isNumberChar (numberChars_write hx)

theorem Point.oneLine_line {v : Point Float} (h : v.Printable) : OneLine v.line :=
  oneLine_spaced (by simp [oneLine_write h.1, oneLine_write h.2])

theorem Transform.oneLine_line {t : Transform Float} (h : t.Printable) : OneLine t.line := by
  refine oneLine_spaced (List.forall_mem_cons.2
    ⟨oneLine_of_inWords Pattern.inWords_isAlpha t.form.isRun_tag.2, ?_⟩)
  simp only [List.forall_mem_map]
  exact fun x hx => oneLine_write (h x hx)

theorem DrawStyle.oneLine_line (d : DrawStyle) : OneLine d.line := by
  refine oneLine_spaced ?_
  simp only [List.forall_mem_cons]
  exact ⟨oneLine_of_inWords Pattern.inWords_isAlpha d.style.isRun_keyword.2,
    oneLine_of_inWords Pattern.inWords_isAlpha d.color.isRun_keyword.2, by simp⟩

theorem Shape.oneLine_of_mem_lines {s : Shape Float} (h : s.Printable) :
    ∀ l ∈ s.lines, OneLine l := by
  refine List.forall_mem_cons.2 ⟨oneLine_header s.kind.isLineBreak_keyword h.1.1,
    List.forall_mem_cons.2 ⟨s.drawStyle.oneLine_line, ?_⟩⟩
  exact List.forall_mem_map.2 fun t ht => t.oneLine_line (h.2 t ht)

theorem Group.oneLine_of_mem_lines {g : Group Float} (h : g.Printable) :
    ∀ l ∈ g.lines, OneLine l := by
  obtain ⟨hname, htransforms, hshapes, -⟩ := h
  refine List.forall_mem_cons.2 ⟨oneLine_header isLineBreak_group hname.1,
    List.forall_mem_append.2 ⟨?_, List.forall_mem_cons.2 ⟨oneLine_nil, ?_⟩⟩⟩
  · exact List.forall_mem_map.2 fun t ht => t.oneLine_line (htransforms t ht)
  · exact oneLine_of_mem_apart
      (List.forall_mem_map.2 fun s hs => s.oneLine_of_mem_lines (hshapes s hs))

/-- **The lines of a value hold no line break.** -/
theorem oneLine_of_mem_canonical (p : Part) {v : p.Value} (h : p.Printable v) :
    ∀ l ∈ p.canonical v, OneLine l := by
  cases p with
  | point => exact List.forall_mem_singleton.2 (Point.oneLine_line h)
  | points => exact List.forall_mem_map.2 fun p hp => p.oneLine_line (h p hp)
  | transform => exact List.forall_mem_singleton.2 (Transform.oneLine_line h)
  | transforms => exact List.forall_mem_map.2 fun t ht => t.oneLine_line (h t ht)
  | drawStyle => exact List.forall_mem_singleton.2 (DrawStyle.oneLine_line v)
  | shape => exact Shape.oneLine_of_mem_lines h
  | shapes =>
    exact oneLine_of_mem_apart (List.forall_mem_map.2 fun s hs => s.oneLine_of_mem_lines (h s hs))
  | group => exact Group.oneLine_of_mem_lines h
  | document =>
    rw [Part.canonical, Document.lines]
    split
    · exact List.forall_mem_singleton.2 oneLine_nil
    · exact oneLine_of_mem_apart
        (List.forall_mem_map.2 fun g hg => g.oneLine_of_mem_lines (h g hg))

/-! ## What the lines denote -/

/-- What a function makes of values stands for them, if it does so for each. -/
theorem forall₂_map {α β : Type} {R : β → α → Prop} {f : α → β} {as : List α}
    (h : ∀ a ∈ as, R (f a) a) : List.Forall₂ R (as.map f) as :=
  List.forall₂_map_left_iff.2 (List.forall₂_same.2 h)

/-- Words a space apart are the words of their line. -/
theorem words_spaced (h : ∀ w ∈ ws, IsWord w) : words (spaced ws) = ws := by
  cases ws with
  | nil => exact words_nil
  | cons w ws =>
    obtain ⟨hw, hws⟩ := List.forall_mem_cons.1 h
    refine words_eq_cons_iff.2 ⟨[], ws.map ([' '], ·), [], ?_, isBlankLine_nil, hw, ?_,
      isBlankLine_nil, by simp⟩
    · simp [spaced, intercalate_cons, gapped, List.flatMap_map]
    · exact List.forall_mem_map.2 fun w' hw' => ⟨isRun_of_all rfl rfl, hws w' hw'⟩

theorem isWord_of_inWords {is : Char → Bool} (his : Pattern.InWords is) (hw : IsRun is w) :
    IsWord w :=
  hw.mono fun _ => his.isWord

theorem spells_write {x : Float} (hx : x.isFinite) : Spells (Numeral.write x).toList x :=
  ⟨Numeral.read_write hx, hx⟩

theorem isWord_write {x : Float} (hx : x.isFinite) : IsWord (Numeral.write x).toList :=
  isWord_of_inWords Pattern.inWords_isNumberChar (spells_write hx).isRun

theorem Point.pointLine_line {v : Point Float} (h : v.Printable) : PointLine v.line v :=
  ⟨_, _, words_spaced (by simp [isWord_write h.1, isWord_write h.2]), spells_write h.1,
    spells_write h.2⟩

theorem Transform.words_line {t : Transform Float} (h : t.Printable) :
    words t.line = t.form.tag.toList :: t.operands.map fun x => (Numeral.write x).toList := by
  refine words_spaced (List.forall_mem_cons.2
    ⟨isWord_of_inWords Pattern.inWords_isAlpha t.form.isRun_tag, ?_⟩)
  exact List.forall_mem_map.2 fun x hx => isWord_write (h x hx)

theorem Transform.transformLine_line {t : Transform Float} (h : t.Printable) :
    TransformLine t.line t :=
  ⟨_, t.words_line h, forall₂_map fun x hx => spells_write (h x hx)⟩

theorem DrawStyle.styleLine_line (d : DrawStyle) : StyleLine d.line d := by
  refine words_spaced ?_
  simp only [List.forall_mem_cons]
  exact ⟨isWord_of_inWords Pattern.inWords_isAlpha d.style.isRun_keyword,
    isWord_of_inWords Pattern.inWords_isAlpha d.color.isRun_keyword, by simp⟩

theorem headerLine_header (hname : PrintableName name) :
    HeaderLine keyword (header keyword name) name := by
  refine ⟨[], _, rfl, isBlankLine_nil, ?_⟩
  split
  case isTrue hempty =>
    rw [String.isEmpty_iff] at hempty
    exact ⟨stops_nil, by simp [hempty]⟩
  case isFalse => exact ⟨stops_cons.2 rfl, (dropWhile_of_stops hname.2).symm⟩

theorem transformLines_map {ts : List (Transform Float)} (h : ∀ t ∈ ts, t.Printable) :
    List.Forall₂ TransformLine (ts.map Transform.line) ts :=
  forall₂_map fun t ht => t.transformLine_line (h t ht)

theorem Shape.shapeLines_lines {s : Shape Float} (h : s.Printable) : ShapeLines s.lines s :=
  ⟨_, _, _, rfl, headerLine_header h.1, s.drawStyle.styleLine_line, transformLines_map h.2⟩

/-- Shapes, each behind an empty line. -/
theorem memberLines_flatMap {ss : List (Shape Float)} (h : ∀ s ∈ ss, s.Printable) :
    MemberLines (ss.flatMap fun s => [[]] ++ s.lines) ss := by
  induction ss with
  | nil => exact .nil
  | cons s ss ih =>
    obtain ⟨hs, hss⟩ := List.forall_mem_cons.1 h
    rw [List.flatMap_cons, List.append_assoc]
    exact .cons 1 (s.shapeLines_lines hs) (ih hss)

/-- Behind an empty line stand blocks, each behind an empty line. -/
theorem nil_cons_apart {α : Type} (f : α → List (List Char)) {as : List α} (h : as ≠ []) :
    [] :: apart (as.map f) = as.flatMap fun a => [[]] ++ f a := by
  obtain ⟨a, as, rfl⟩ := List.exists_cons_of_ne_nil h
  rw [List.map_cons, apart, intercalate_cons, List.flatMap_cons, List.flatMap_map]
  rfl

theorem Group.groupLines_lines {g : Group Float} (h : g.Printable) : GroupLines g.lines g := by
  obtain ⟨hname, htransforms, hshapes, hne⟩ := h
  refine ⟨_, _, _, rfl, headerLine_header hname, transformLines_map htransforms, ?_, hne⟩
  rw [nil_cons_apart _ hne]
  exact memberLines_flatMap hshapes

/-- Groups, each behind an empty line. -/
theorem laterGroups_flatMap {gs : List (Group Float)} (h : ∀ g ∈ gs, g.Printable) :
    LaterGroups (gs.flatMap fun g => [[]] ++ g.lines) gs := by
  induction gs with
  | nil => exact .nil
  | cons g gs ih =>
    obtain ⟨hg, hgs⟩ := List.forall_mem_cons.1 h
    exact .cons (List.forall_mem_nil _) (g.groupLines_lines hg) (ih hgs)

theorem Document.documentLines_lines {d : Document Float} (h : ∀ g ∈ d.groups, g.Printable) :
    DocumentLines d.lines d := by
  obtain ⟨gs⟩ := d
  rw [Document.lines]
  cases gs with
  | nil => exact .blank (List.forall_mem_singleton.2 isBlankLine_nil)
  | cons g gs =>
    obtain ⟨hg, hgs⟩ := List.forall_mem_cons.1 h
    have hlines := DocumentLines.groups (List.forall_mem_nil _) (g.groupLines_lines hg)
      (laterGroups_flatMap hgs) (List.forall_mem_nil _)
    rwa [List.nil_append, List.append_nil, ← List.flatMap_map, ← intercalate_cons] at hlines

/-- **The lines of a value denote it.** -/
theorem denotes_canonical (p : Part) {v : p.Value} (h : p.Printable v) (hne : p.Nonempty v) :
    p.Denotes (p.canonical v) v := by
  cases p with
  | point => exact ⟨_, rfl, Point.pointLine_line h⟩
  | points => exact forall₂_map fun p hp => p.pointLine_line (h p hp)
  | transform => exact ⟨_, rfl, Transform.transformLine_line h⟩
  | transforms => exact transformLines_map h
  | drawStyle => exact ⟨_, rfl, DrawStyle.styleLine_line v⟩
  | shape => exact Shape.shapeLines_lines h
  | shapes =>
    obtain ⟨s, ss, rfl⟩ := List.exists_cons_of_ne_nil hne
    obtain ⟨hs, hss⟩ := List.forall_mem_cons.1 h
    refine ⟨s.lines, _, s, ss, ?_, rfl, s.shapeLines_lines hs, memberLines_flatMap hss⟩
    rw [Part.canonical, List.map_cons, apart, intercalate_cons, List.flatMap_map]
  | group => exact ⟨[], _, by simp, rfl, Group.groupLines_lines h⟩
  | document => exact Document.documentLines_lines h

end SceneText
