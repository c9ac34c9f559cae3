import SceneText.Proofs.Format.Relaid
import SceneText.Proofs.Format.RoundTrip

/-!
# Proofs/Format/Spacing — how a printed document is spaced

The lines of a printed document are **blocks**: a block opens with a header, does not end in an
empty line, and has a header behind every empty line in it.  A header and the styles and transforms
under it are a block (`block_cons`), and so are two blocks around an empty line (`Block.append`).
Hence shapes, groups and documents are blocks, with an empty line for each place where two are put
together (`count_apart`), and what the layout of a document promises can be read off
(`print_canonicalLayout`).
-/

namespace SceneText

variable {l : List Char} {ls a b : List (List Char)} {bs : List (List (List Char))}
  {keyword name : String}

/-! ## Single lines -/

/-- The words of a line stand one space apart, with no blank before or behind them. -/
def SingleSpaced (l : List Char) : Prop := l = spaced (words l)

/-- A line as it is printed: a header, bare or with a name one space behind the keyword, or the
words of a style or transform one space apart. -/
def PrintedLine (l : List Char) : Prop :=
  (∃ keyword ∈ keywords, ∃ name, PrintableName name ∧ l = header keyword name) ∨
    IsTokens l ∧ SingleSpaced l

theorem isHeader_header (hkeyword : keyword ∈ keywords) (hname : PrintableName name) :
    IsHeader (header keyword name) :=
  ⟨keyword, hkeyword, name, headerLine_header hname⟩

theorem SingleSpaced.stops (h : SingleSpaced l) : Stops isBlank l := by
  rw [SingleSpaced] at h
  cases hwords : words l with
  | nil =>
    rw [hwords] at h
    exact h ▸ stops_nil
  | cons w ws =>
    obtain ⟨-, -, -, hw, -⟩ := exists_eq_of_words_eq_cons hwords
    rw [hwords, spaced, intercalate_cons] at h
    exact h ▸ hw.stops (fun c hc => by simpa using hc) _

namespace PrintedLine

theorem ne_nil (h : PrintedLine l) : l ≠ [] := by
  rintro rfl
  rcases h with ⟨keyword, hkeyword, name, hname, h⟩ | ⟨h, -⟩
  · exact (isHeader_header hkeyword hname).not_isBlankLine (h ▸ isBlankLine_nil)
  · exact h.ne_nil rfl

/-- **No blank opens a printed line.** -/
theorem stops (h : PrintedLine l) : Stops isBlank l := by
  rcases h with ⟨keyword, hkeyword, name, -, rfl⟩ | ⟨-, h⟩
  · exact stops_keyword hkeyword _
  · exact h.stops

theorem singleSpaced (h : PrintedLine l) (hl : IsTokens l) : SingleSpaced l := by
  rcases h with ⟨keyword, hkeyword, name, hname, rfl⟩ | ⟨-, h⟩
  · exact absurd (isHeader_header hkeyword hname) hl.not_isHeader
  · exact h

/-- **A printed header is its keyword alone, or the name stands one space behind it.** -/
theorem eq_header (h : PrintedLine l) (hkeyword : keyword ∈ keywords)
    (hl : HeaderLine keyword l name) : l = header keyword name := by
  rcases h with ⟨keyword', hkeyword', name', hname', rfl⟩ | ⟨h, -⟩
  · -- a header can be read in one way only
    obtain ⟨rfl, -, hname⟩ := HeaderLine.keyword_eq hkeyword' isBlankLine_nil hkeyword hl
    obtain ⟨-, -, hname'⟩ := HeaderLine.keyword_eq hkeyword' isBlankLine_nil hkeyword'
      (headerLine_header hname')
    rw [String.toList_inj.1 (hname.trans hname'.symm)]
  · exact absurd ⟨keyword, hkeyword, name, hl⟩ h.not_isHeader

end PrintedLine

theorem DrawStyle.printedLine_line (d : DrawStyle) : PrintedLine d.line := by
  have hwords : words d.line = [d.style.keyword.toList, d.color.keyword.toList] := d.styleLine_line
  refine .inr ⟨.inl ⟨d, hwords⟩, ?_⟩
  rw [SingleSpaced, hwords, DrawStyle.line]

theorem Transform.printedLine_line {t : Transform Float} (h : t.Printable) :
    PrintedLine t.line := by
  refine .inr ⟨.inr ⟨t, t.transformLine_line h⟩, ?_⟩
  rw [SingleSpaced, t.words_line h, Transform.line]

/-! ## Blocks of lines -/

/-- **A block of lines** opens with a header and does not end in an empty line.  Directly behind
every empty line stands a header, and all other lines are printed ones. -/
structure Block (ls : List (List Char)) : Prop where
  head : ∃ l ∈ ls.head?, IsHeader l
  last : ∀ l ∈ ls.getLast?, l ≠ []
  empty : ls.IsChain fun l l' => l = [] → IsHeader l'
  line : ∀ l ∈ ls, l ≠ [] → PrintedLine l

/-- A header and the printed lines under it are a block. -/
theorem block_cons (hl : IsHeader l) (h : ∀ l' ∈ l :: ls, PrintedLine l') : Block (l :: ls) where
  head := ⟨l, rfl, hl⟩
  last l' hl' := (h l' (List.mem_of_getLast? hl')).ne_nil
  empty := List.isChain_iff_forall_rel_of_append_cons_cons.2 fun l₁ l₂ front back heq hnil =>
    absurd hnil (h l₁ (heq ▸ by simp)).ne_nil
  line l' hl' _ := h l' hl'

theorem count_nil_of_printed (h : ∀ l ∈ ls, PrintedLine l) : ls.count [] = 0 :=
  List.count_eq_zero.2 fun hmem => (h [] hmem).ne_nil rfl

/-- **Two blocks around an empty line are a block.** -/
theorem Block.append (ha : Block a) (hb : Block b) : Block (a ++ [] :: b) where
  head := by
    obtain ⟨l, hl, hheader⟩ := ha.head
    exact ⟨l, List.mem_head?_append_of_mem_head? hl, hheader⟩
  last l hl := by
    obtain ⟨l', hl', -⟩ := hb.head
    obtain ⟨b, rfl⟩ := List.head?_eq_some_iff.1 hl'
    rw [List.getLast?_append_cons, List.getLast?_cons_cons] at hl
    exact hb.last l hl
  empty := by
    refine ha.empty.append (List.isChain_cons.2 ⟨fun l hl _ => ?_, hb.empty⟩)
      fun l hl l' _ hnil => absurd hnil (ha.last l hl)
    obtain ⟨l', hl', hheader⟩ := hb.head
    rwa [Option.mem_unique hl hl']
  line l hl hne := by
    rcases List.mem_append.1 hl with hl | hl
    · exact ha.line l hl hne
    · exact hb.line l ((List.mem_cons.1 hl).resolve_left hne) hne

/-- **Blocks an empty line apart are a block.** -/
theorem block_apart (hne : bs ≠ []) (h : ∀ b ∈ bs, Block b) : Block (apart bs) := by
  induction bs with
  | nil => exact absurd rfl hne
  | cons b bs ih =>
    obtain ⟨hb, hbs⟩ := List.forall_mem_cons.1 h
    cases bs with
    | nil => simpa [apart] using hb
    | cons b' bs =>
      rw [apart_cons_cons]
      exact hb.append (ih (List.cons_ne_nil _ _) hbs)

/-- Between each two blocks stands one more empty line. -/
theorem count_apart (hne : bs ≠ []) :
    (apart bs).count [] + 1 = (bs.map (List.count [])).sum + bs.length := by
  induction bs with
  | nil => exact absurd rfl hne
  | cons b bs ih =>
    cases bs with
    | nil => simp [apart]
    | cons b' bs =>
      have hmore := ih (List.cons_ne_nil _ _)
      rw [apart_cons_cons, List.count_append, List.count_cons_self, List.map_cons, List.sum_cons,
        List.length_cons]
      omega

/-! ## Shapes, groups and documents -/

theorem Shape.printedLine_of_mem_lines {s : Shape Float} (h : s.Printable) :
    ∀ l ∈ s.lines, PrintedLine l := by
  refine List.forall_mem_cons.2 ⟨.inl ⟨_, s.kind.keyword_mem, _, h.1, rfl⟩,
    List.forall_mem_cons.2 ⟨s.drawStyle.printedLine_line, ?_⟩⟩
  exact List.forall_mem_map.2 fun t ht => t.printedLine_line (h.2 t ht)

theorem Shape.block_lines {s : Shape Float} (h : s.Printable) : Block s.lines :=
  block_cons (isHeader_header s.kind.keyword_mem h.1) (s.printedLine_of_mem_lines h)

theorem group_mem_keywords : "group" ∈ keywords := List.mem_cons_self

/-- What stands above the shapes of a group. -/
theorem Group.printedLine_of_mem_head {g : Group Float} (h : g.Printable) :
    ∀ l ∈ header "group" g.name :: g.transforms.map Transform.line, PrintedLine l :=
  List.forall_mem_cons.2 ⟨.inl ⟨_, group_mem_keywords, _, h.1, rfl⟩,
    List.forall_mem_map.2 fun t ht => t.printedLine_line (h.2.1 t ht)⟩

theorem Group.lines_eq_append (g : Group Float) :
    g.lines = (header "group" g.name :: g.transforms.map Transform.line) ++
      [] :: apart (g.shapes.map Shape.lines) := rfl

theorem Group.block_lines {g : Group Float} (h : g.Printable) : Block g.lines := by
  have ⟨hname, _, hshapes, hne⟩ := h
  have hhead := block_cons (isHeader_header group_mem_keywords hname) (g.printedLine_of_mem_head h)
  rw [g.lines_eq_append]
  exact hhead.append (block_apart (List.map_eq_nil_iff.not.2 hne)
    (List.forall_mem_map.2 fun s hs => s.block_lines (hshapes s hs)))

/-- **A group has an empty line for each of its shapes.** -/
theorem Group.count_lines {g : Group Float} (h : g.Printable) :
    g.lines.count [] = g.shapes.length := by
  have hshapes : (g.shapes.map Shape.lines).map (List.count []) = g.shapes.map fun _ => 0 := by
    rw [List.map_map]
    exact List.map_congr_left fun s hs =>
      count_nil_of_printed (s.printedLine_of_mem_lines (h.2.2.1 s hs))
  have hapart := count_apart (List.map_eq_nil_iff.not.2 h.2.2.2 : g.shapes.map Shape.lines ≠ [])
  rw [hshapes, List.length_map] at hapart
  rw [g.lines_eq_append, List.count_append, count_nil_of_printed (g.printedLine_of_mem_head h),
    List.count_cons_self]
  simpa using hapart

theorem Document.lines_of_ne_nil {d : Document Float} (hne : d.groups ≠ []) :
    d.lines = apart (d.groups.map Group.lines) := if_neg hne

theorem Document.block_lines {d : Document Float} (h : Part.document.Printable d)
    (hne : d.groups ≠ []) : Block d.lines := by
  rw [Document.lines_of_ne_nil hne]
  exact block_apart (List.map_eq_nil_iff.not.2 hne)
    (List.forall_mem_map.2 fun g hg => g.block_lines (h g hg))

/-- **A document has an empty line for each shape, and for each group but the first.** -/
theorem Document.count_lines {d : Document Float} (h : Part.document.Printable d)
    (hne : d.groups ≠ []) :
    d.lines.count [] = (d.groups.flatMap Group.shapes).length + d.groups.length - 1 := by
  have hgroups : (d.groups.map Group.lines).map (List.count []) =
      d.groups.map fun g => g.shapes.length := by
    rw [List.map_map]
    exact List.map_congr_left fun g hg => g.count_lines (h g hg)
  have hapart := count_apart (List.map_eq_nil_iff.not.2 hne : d.groups.map Group.lines ≠ [])
  rw [hgroups, List.length_map] at hapart
  rw [Document.lines_of_ne_nil hne, List.length_flatMap, ← hapart, Nat.add_sub_cancel]

/-! ## The layout of a printed document -/

/-- **The layout of a document that is printed**, told of its lines. -/
structure CanonicalLayout (ls : List (List Char)) : Prop where
  /-- No empty line at the start. -/
  first_ne_nil : ls.head? ≠ some []
  /-- No empty line at the end. -/
  last_ne_nil : ls.getLast? ≠ some []
  /-- No two empty lines, one behind the other. -/
  alone : ls.IsChain fun l l' => l = [] → l' ≠ []
  /-- Empty lines directly before headers only. -/
  beforeHeader : ls.IsChain fun l l' => l = [] → IsHeader l'
  /-- No line begins with a blank. -/
  unindented : ∀ l ∈ ls, Stops isBlank l
  /-- One space between the words of styles and transforms, and no blank at their ends. -/
  singleSpaced : ∀ l ∈ ls, IsTokens l → SingleSpaced l
  /-- A header is its keyword, and a space and the name if there is one. -/
  header : ∀ l ∈ ls, ∀ keyword ∈ keywords, ∀ name, HeaderLine keyword l name →
    l = header keyword name

theorem Block.canonicalLayout (h : Block ls) : CanonicalLayout ls where
  first_ne_nil hnil := by
    obtain ⟨l, hl, hheader⟩ := h.head
    exact hheader.not_isBlankLine (Option.mem_unique hl hnil ▸ isBlankLine_nil)
  last_ne_nil hnil := h.last [] hnil rfl
  alone := h.empty.imp fun l l' hempty hl hnil =>
    (hempty hl).not_isBlankLine (hnil ▸ isBlankLine_nil)
  beforeHeader := h.empty
  unindented l hl := by
    by_cases hnil : l = []
    · exact hnil ▸ stops_nil
    · exact (h.line l hl hnil).stops
  singleSpaced l hl htokens := (h.line l hl htokens.ne_nil).singleSpaced htokens
  header l hl keyword hkeyword name hname := by
    have hheader : IsHeader l := ⟨keyword, hkeyword, name, hname⟩
    refine (h.line l hl ?_).eq_header hkeyword hname
    rintro rfl
    exact hheader.not_isBlankLine isBlankLine_nil

/-- **A printed document has the canonical layout.**  Its lines denote it, are spaced as
`CanonicalLayout` says, and one of them is empty for each shape and for each group but the first. -/
theorem print_canonicalLayout {d : Document Float} (h : Part.document.Printable d)
    (hne : d.groups ≠ []) :
    ∃ text, print d = .ok text ∧ text.toList = joinLines ['\n'] (lines text.toList) ∧
      DocumentLines (lines text.toList) d ∧ CanonicalLayout (lines text.toList) ∧
      (lines text.toList).count [] =
        (d.groups.flatMap Group.shapes).length + d.groups.length - 1 := by
  obtain ⟨text, hprint⟩ : ∃ text, print d = .ok text :=
    ⟨_, (printWith_eq_ok_iff .lf .document).2 ⟨h, String.toList_ofList⟩⟩
  have htext : text.toList = joinLines ['\n'] d.lines :=
    ((printWith_eq_ok_iff .lf .document).1 hprint).2
  have hlines : lines text.toList = d.lines := by
    rw [htext]
    exact lines_joinLines (.inl rfl) (canonical_ne_nil .document trivial)
      (oneLine_of_mem_canonical .document h)
  refine ⟨text, hprint, ?_, denotes_of_print .document trivial hprint, ?_, ?_⟩
  · rw [hlines, htext]
  · exact hlines ▸ (Document.block_lines h hne).canonicalLayout
  · exact hlines ▸ Document.count_lines h hne

theorem print_canonicalLayout_two_groups :
    let square : Shape Float := ⟨⟨"a  b ", ⟨.filled, .red⟩, []⟩, .unitSquare⟩
    let circle : Shape Float := ⟨⟨"", ⟨.path, .blue⟩, [.scale 2 (-0)]⟩, .unitCircle⟩
    let d : Document Float := ⟨[⟨"", [.rotate 45], [square, circle]⟩, ⟨"group", [], [square]⟩]⟩
    Part.document.Printable d ∧ d.groups ≠ [] ∧
      ∃ text, print d = .ok text ∧ text.toList = joinLines ['\n'] (lines text.toList) ∧
        DocumentLines (lines text.toList) d ∧ CanonicalLayout (lines text.toList) ∧
        (lines text.toList).count [] = 3 + 2 - 1 := by
  intro square circle d
  have hprint : print d = .ok ("group\nr 45.0\n\nunit square a  b \nfilled red\n\nunit circle\n" ++
      "path blue\ns 2.0 -0.0\n\ngroup group\n\nunit square a  b \nfilled red") :=
    printWith_eq_ok_iff_write.2 ⟨by decide +kernel, by decide +kernel⟩
  have h : Part.document.Printable d := ((printWith_eq_ok_iff .lf .document).1 hprint).1
  have hne : d.groups ≠ [] := List.cons_ne_nil _ _
  exact ⟨h, hne, print_canonicalLayout h hne⟩

end SceneText
