import SceneText.Proofs.Format.TokenLines

/-!
# Proofs/Format/Blocks — shapes, groups and documents, part by part

What it takes to read a name, the transforms under a header, a shape, a group or a document at the
front of a text: one equivalence each, in terms of the parts (`reads_shape_iff`, `reads_group_iff`,
`reads_document_iff`).
-/

namespace SceneText

variable {s rest : List Char} {f g : Forest}

open Pattern

/-! ## Names -/

theorem matches_name_iff : Rule.name.Matches s g rest ↔
    rest = afterLine s ∧ g = .run (firstLine s) := by
  refine (Rule.matches_iff rfl).trans ((parse_many_iff_run parse_inLine_iff).trans ?_)
  constructor
  · rintro ⟨w, rfl, hw, hrest, rfl⟩
    have hline : ∀ c ∈ w, isLineBreak c = false := fun c hc => by simpa using hw c hc
    rw [firstLine_append hline hrest, afterLine_append hline hrest]
    exact ⟨rfl, rfl⟩
  · rintro ⟨rfl, rfl⟩
    exact ⟨_, (firstLine_append_afterLine s).symm, fun c => of_mem_takeWhile,
      atLineEnd_afterLine s, rfl⟩

/-- Behind a keyword stands a gap and a name, or no blank. -/
theorem matches_comment_iff : Rule.comment.Matches s g rest ↔
    (∃ b t, s = b ++ t ∧ IsRun isBlank b ∧ Stops isBlank t ∧ rest = afterLine t ∧
      g = .run b ++ .node .name (.run (firstLine t)) .nil) ∨
    Stops isBlank s ∧ rest = s ∧ g = .nil := by
  refine (Rule.matches_iff rfl).trans ?_
  constructor
  · intro h
    rcases parse_orElse_iff.1 h with h | ⟨-, h⟩
    · obtain ⟨_, t, _, h₁, h₂, rfl⟩ := parse_append_iff.1 h
      obtain ⟨b, rfl, hb, ht, rfl⟩ := parse_gap_iff.1 h₁
      obtain ⟨_, hname, rfl⟩ := (Rule.parse_pattern_iff (r := .name) rfl).1 h₂
      obtain ⟨rfl, rfl⟩ := matches_name_iff.1 hname
      exact .inl ⟨b, t, rfl, hb, ht, rfl, rfl⟩
    · obtain ⟨hblank, rfl, rfl⟩ := parse_absent_iff.1 h
      exact .inr ⟨parse_char_eq_none_iff.1 hblank, rfl, rfl⟩
  · rintro (⟨b, t, rfl, hb, ht, rfl, rfl⟩ | ⟨hs, rfl, rfl⟩)
    · exact parse_orElse_iff.2 (.inl (parse_append_iff.2 ⟨_, _, _, parse_gap_iff.2
        ⟨b, rfl, hb, ht, rfl⟩, matches_name_iff.2 ⟨rfl, rfl⟩, rfl⟩))
    · refine parse_orElse_iff.2 (.inr ⟨parse_append_eq_none_iff.2 fun f t h => ?_,
        parse_absent_iff.2 ⟨parse_char_eq_none_iff.2 hs, rfl, rfl⟩⟩)
      obtain ⟨b, rfl, hb, -⟩ := parse_gap_iff.1 h
      exact absurd hs (hb.not_stops t)

/-- A name is read behind a keyword. -/
def Names (s : List Char) (name : String) (rest : List Char) : Prop :=
  ∃ g, Rule.comment.Matches s g rest ∧ readName ⟨.comment, 0, g⟩ = name

theorem readName_run (b w : List Char) :
    readName ⟨.comment, 0, .run b ++ .node .name (.run w) .nil⟩ = .ofList w := by
  simp [readName, Node.childOf?, Node.children, Forest.nodes_append, Forest.nodes, Node.text]

/-- **The name of a header is all behind the blanks after its keyword.** -/
theorem names_iff {name : String} (hrest : AtLineEnd rest) : Names s name rest ↔
    rest = afterLine s ∧ Stops (!isBlank ·) (firstLine s) ∧
      name.toList = (firstLine s).dropWhile isBlank := by
  constructor
  · rintro ⟨g, hg, rfl⟩
    rcases matches_comment_iff.1 hg with ⟨b, t, rfl, hb, ht, rfl, rfl⟩ | ⟨-, rfl, rfl⟩
    · have hline := IsBlankLine.isLineBreak hb.2
      rw [firstLine_append_left hline, afterLine_append_left hline, readName_run,
        String.toList_ofList, dropWhile_append_of_stops hb.2 (stops_firstLine ht)]
      exact ⟨rfl, hb.stops (fun c hc => by simp [hc]) _, rfl⟩
    · rw [hrest.firstLine, hrest.afterLine]
      exact ⟨rfl, stops_nil, rfl⟩
  · rintro ⟨rfl, hblank, hname⟩
    by_cases hs : Stops isBlank s
    case pos =>
      -- neither a blank nor anything else stands behind the keyword
      have hnil := eq_nil_of_stops (stops_firstLine hs) hblank
      rw [hnil, List.dropWhile_nil, String.toList_eq_nil_iff] at hname
      have hafter := firstLine_append_afterLine s
      rw [hnil, List.nil_append] at hafter
      exact ⟨.nil, matches_comment_iff.2 (.inr ⟨hs, hafter, rfl⟩), by rw [hname]; rfl⟩
    case neg =>
      have hgap := isRun_takeWhile hs
      have hsplit : s.takeWhile isBlank ++ s.dropWhile isBlank = s :=
        List.takeWhile_append_dropWhile
      have hstop := stops_dropWhile isBlank s
      generalize s.takeWhile isBlank = b at hgap hsplit
      generalize s.dropWhile isBlank = t at hstop hsplit
      subst hsplit
      have hline := IsBlankLine.isLineBreak hgap.2
      rw [firstLine_append_left hline, dropWhile_append_of_stops hgap.2 (stops_firstLine hstop)]
        at hname
      refine ⟨_, matches_comment_iff.2 (.inl ⟨b, t, rfl, hgap, hstop,
        afterLine_append_left hline t, rfl⟩), ?_⟩
      rw [readName_run, ← hname, String.ofList_toList]

/-! ## Transforms under a header -/

/-- Transforms are read under a header. -/
def Trailing (s : List Char) (ts : List (Transform Float)) (rest : List Char) : Prop :=
  ∃ g, Rule.trailingTransforms.Matches s g rest ∧ readTrailing ⟨.trailingTransforms, 0, g⟩ = .ok ts

theorem reads_transforms_iff {ts : List (Transform Float)} : Reads s ts rest ↔
    ∃ t ts' mid, ts = t :: ts' ∧ Reads s t mid ∧ Follow lineEnd mid ts' rest :=
  reads_list_iff ⟨_, rfl⟩ (by decide) rfl rfl fun _ => rfl

/-- A list of transforms begins with one, and one begins a list. -/
theorem exists_matches_transforms_iff : (∃ g rest, Rule.transforms.Matches s g rest) ↔
    Rule.transform.pattern.parse s ≠ none := by
  constructor
  · rintro ⟨g, rest, h⟩ hnone
    obtain ⟨f, mid, _, h₁, -⟩ := parse_append_iff.1 ((Rule.matches_iff rfl).1 h)
    exact absurd (hnone.symm.trans h₁) (by simp)
  · intro h
    obtain ⟨⟨f, mid⟩, h₁⟩ := Option.ne_none_iff_exists'.1 h
    obtain ⟨f', rest, h₂⟩ := exists_parse_many (lineEnd ++ transform) mid
    exact ⟨_, rest, (Rule.matches_iff rfl).2 (parse_append_iff.2 ⟨_, _, _, h₁, h₂, rfl⟩)⟩

/-- Looking ahead for a transform decides whether the line end before it is taken. -/
theorem parse_ahead_transforms_iff :
    (ahead (lineEnd ++ transform) ++ lineEnd ++ transforms).parse s = some (f, rest) ↔
      ∃ e t g, lineEnd.parse s = some (e, t) ∧ Rule.transforms.Matches t g rest ∧
        f = e ++ .node .transforms g .nil := by
  constructor
  · intro h
    obtain ⟨_, _, _, h₁, h₂, rfl⟩ := parse_append_iff.1 h
    obtain ⟨_, _, e, hahead, hend, rfl⟩ := parse_append_iff.1 h₁
    obtain ⟨-, rfl, rfl⟩ := parse_ahead_iff.1 hahead
    obtain ⟨g, hg, rfl⟩ := (Rule.parse_pattern_iff (r := .transforms) rfl).1 h₂
    exact ⟨e, _, g, hend, hg, rfl⟩
  · rintro ⟨e, t, g, hend, hg, rfl⟩
    obtain ⟨⟨f', mid⟩, hfirst⟩ :=
      Option.ne_none_iff_exists'.1 (exists_matches_transforms_iff.1 ⟨g, rest, hg⟩)
    have hahead : ((lineEnd ++ transform).parse s).isSome :=
      Option.isSome_of_eq_some (parse_append_iff.2 ⟨e, t, f', hend, hfirst, rfl⟩)
    exact parse_append_iff.2 ⟨_, _, _, parse_append_iff.2 ⟨_, _, _,
      parse_ahead_iff.2 ⟨hahead, rfl, rfl⟩, hend, rfl⟩, hg, rfl⟩

/-- **Under a header stand transforms on lines of their own**, or what follows is no transform. -/
theorem matches_trailing_iff : Rule.trailingTransforms.Matches s g rest ↔
    (∃ e t g', lineEnd.parse s = some (e, t) ∧ Rule.transforms.Matches t g' rest ∧
      g = e ++ .node .transforms g' .nil) ∨
    (∀ e t, lineEnd.parse s = some (e, t) → Rule.transform.pattern.parse t = none) ∧
      g = .nil ∧ rest = s := by
  refine (Rule.matches_iff rfl).trans (parse_opt_iff.trans (or_congr parse_ahead_transforms_iff
    (and_congr_left fun _ => ?_)))
  constructor
  · intro hnone e t hend
    by_contra h
    obtain ⟨g, rest, hg⟩ := exists_matches_transforms_iff.2 h
    rw [parse_ahead_transforms_iff.2 ⟨e, t, g, hend, hg, rfl⟩] at hnone
    cases hnone
  · intro h
    refine Option.eq_none_iff_forall_ne_some.2 fun ⟨f, rest⟩ hparse => ?_
    obtain ⟨e, t, g, hend, hg, -⟩ := parse_ahead_transforms_iff.1 hparse
    exact exists_matches_transforms_iff.1 ⟨g, rest, hg⟩ (h e t hend)

/-- A line end leaves a node of its own. -/
theorem exists_nodes_of_parse_lineEnd {t : List Char} (h : lineEnd.parse s = some (f, t)) :
    ∃ brk, f = .node .lineEnd (.text brk .nil) .nil := by
  obtain ⟨brk, -, -, rfl⟩ := parse_lineEnd_iff.1 h
  exact ⟨brk, rfl⟩

/-- **The transforms under a header are those that follow line ends.** -/
theorem trailing_iff {ts : List (Transform Float)} : Trailing s ts rest ↔
    Follow lineEnd s ts rest := by
  have hread {e g : Forest} {t : List Char} (hend : lineEnd.parse s = some (e, t)) :
      readTrailing ⟨.trailingTransforms, 0, e ++ .node .transforms g .nil⟩ = .ok ts ↔
        Textual.read ⟨.transforms, 0, g⟩ = .ok ts := by
    obtain ⟨brk, rfl⟩ := exists_nodes_of_parse_lineEnd hend
    exact read_eq_ok_iff (α := List (Transform Float)) _
  constructor
  · rintro ⟨g, hg, hts⟩
    rcases matches_trailing_iff.1 hg with ⟨e, t, g', hend, hg', rfl⟩ | ⟨hnone, rfl, rfl⟩
    · obtain ⟨t₁, ts', mid, rfl, hfirst, hmore⟩ :=
        reads_transforms_iff.1 ⟨g', hg', (hread hend).1 hts⟩
      exact .step hend hfirst hmore
    · cases hts
      exact .stop hnone
  · intro h
    cases h with
    | stop hnone => exact ⟨.nil, matches_trailing_iff.2 (.inr ⟨hnone, rfl, rfl⟩), rfl⟩
    | step hend hfirst hmore =>
      obtain ⟨g, hg, hts⟩ := reads_transforms_iff.2 ⟨_, _, _, rfl, hfirst, hmore⟩
      exact ⟨_, matches_trailing_iff.2 (.inl ⟨_, _, g, hend, hg, rfl⟩), (hread hend).2 hts⟩

/-! ## Shapes -/

/-- The keyword decides which kind is taken. -/
theorem parse_kinds_iff : (unitSquare <|> unitCircle).parse s = some (f, rest) ↔
    ∃ kind : ShapeKind, s = kind.keyword.toList ++ rest ∧
      f = .node kind.rule (.text kind.keyword.toList .nil) .nil := by
  simp only [parse_orElse_iff, unitSquare, unitCircle, parse_rule_iff,
    parse_rule_eq_none_iff, Pattern.text, parse_word_iff]
  constructor
  · rintro (⟨_, ⟨rfl, rfl⟩, rfl⟩ | ⟨-, _, ⟨rfl, rfl⟩, rfl⟩)
    · exact ⟨.unitSquare, rfl, rfl⟩
    · exact ⟨.unitCircle, rfl, rfl⟩
  · rintro ⟨_ | _, rfl, rfl⟩
    · exact .inl ⟨_, ⟨rfl, rfl⟩, rfl⟩
    · exact .inr ⟨rfl, _, ⟨rfl, rfl⟩, rfl⟩

theorem ShapeKind.stops_keyword (kind : ShapeKind) (t : List Char) :
    Stops isBlank (kind.keyword.toList ++ t) := by
  cases kind <;> exact stops_cons.2 rfl

/-- What a shape leaves: the nodes of its parts. -/
def shapeNodes (kind : ShapeKind) (b : List Char) (comment brk style trailing : Forest) : Forest :=
  .run b ++ .node kind.rule (.text kind.keyword.toList .nil) (.node .comment comment
    (.node .lineEnd brk (.node .drawStyle style (.node .trailingTransforms trailing .nil))))

/-- **The parts of a shape.** -/
theorem matches_shape_iff : Rule.shape.Matches s g rest ↔
    ∃ kind b t comment a brk u style c trailing, s = b ++ (kind.keyword.toList ++ t) ∧
      IsBlankLine b ∧ Rule.comment.Matches t comment a ∧
      lineEnd.parse a = some (.node .lineEnd brk .nil, u) ∧ Rule.drawStyle.Matches u style c ∧
      Rule.trailingTransforms.Matches c trailing rest ∧
      g = shapeNodes kind b comment brk style trailing := by
  refine (Rule.matches_iff rfl).trans ?_
  constructor
  · intro h
    obtain ⟨_, c, _, h₅, htrailing, rfl⟩ := parse_append_iff.1 h
    obtain ⟨_, u, _, h₄, hstyle, rfl⟩ := parse_append_iff.1 h₅
    obtain ⟨_, a, _, h₃, hend, rfl⟩ := parse_append_iff.1 h₄
    obtain ⟨_, t, _, h₂, hcomment, rfl⟩ := parse_append_iff.1 h₃
    obtain ⟨_, _, _, hblanks, hkind, rfl⟩ := parse_append_iff.1 h₂
    obtain ⟨b, rfl, hb, -, rfl⟩ := parse_blanks_iff.1 hblanks
    obtain ⟨kind, rfl, rfl⟩ := parse_kinds_iff.1 hkind
    obtain ⟨comment, hcomment, rfl⟩ := (Rule.parse_pattern_iff (r := .comment) rfl).1 hcomment
    obtain ⟨brk, rfl⟩ := exists_nodes_of_parse_lineEnd hend
    obtain ⟨style, hstyle, rfl⟩ := (Rule.parse_pattern_iff (r := .drawStyle) rfl).1 hstyle
    obtain ⟨trailing, htrailing, rfl⟩ :=
      (Rule.parse_pattern_iff (r := .trailingTransforms) rfl).1 htrailing
    exact ⟨kind, b, t, comment, a, _, u, style, c, trailing, rfl, hb, hcomment, hend, hstyle,
      htrailing, by simp [shapeNodes, Forest.append_assoc]⟩
  · rintro ⟨kind, b, t, comment, a, brk, u, style, c, trailing, rfl, hb, hcomment, hend, hstyle,
      htrailing, rfl⟩
    have hblanks := parse_blanks_iff.2 ⟨b, rfl, hb, kind.stops_keyword t, rfl⟩
    have hkind := parse_append_iff.2 ⟨_, _, _, hblanks, parse_kinds_iff.2 ⟨kind, rfl, rfl⟩, rfl⟩
    have hheader := parse_append_iff.2 ⟨_, _, _, hkind, hcomment, rfl⟩
    have hlines := parse_append_iff.2 ⟨_, _, _, parse_append_iff.2 ⟨_, _, _, hheader, hend, rfl⟩,
      hstyle, rfl⟩
    exact parse_append_iff.2 ⟨_, _, _, hlines, htrailing,
      by simp [shapeNodes, Forest.append_assoc]⟩

theorem readName_place (start : Nat) (g : Forest) :
    readName ⟨.comment, start, g⟩ = readName ⟨.comment, 0, g⟩ :=
  (corresponds_move start).readName_eq (Node.eq_move _ start g)

/-- **A shape leaves a node for its keyword, then one for each part.** -/
theorem exists_nodes_shapeNodes (kind : ShapeKind) (b : List Char)
    (comment brk style trailing : Forest) (start : Nat) : ∃ k₁ k₂ k₃ k₄ k₅,
      (shapeNodes kind b comment brk style trailing).nodes start =
        [⟨kind.rule, k₁, .text kind.keyword.toList .nil⟩, ⟨.comment, k₂, comment⟩,
          ⟨.lineEnd, k₃, brk⟩, ⟨.drawStyle, k₄, style⟩, ⟨.trailingTransforms, k₅, trailing⟩] := by
  simp [shapeNodes, Forest.nodes_append, Forest.nodes]

/-- A shape is read from the nodes of its parts. -/
theorem read_shapeNodes_eq_ok_iff {kind : ShapeKind} {b : List Char}
    {comment brk style trailing : Forest} {v : Shape Float} :
    Textual.read ⟨.shape, 0, shapeNodes kind b comment brk style trailing⟩ = .ok v ↔
      kind = v.kind ∧ readName ⟨.comment, 0, comment⟩ = v.name ∧
        Textual.read ⟨.drawStyle, 0, style⟩ = .ok v.drawStyle ∧
        readTrailing ⟨.trailingTransforms, 0, trailing⟩ = .ok v.transforms := by
  obtain ⟨k₁, k₂, k₃, k₄, k₅, hk⟩ := exists_nodes_shapeNodes kind b comment brk style trailing 0
  have hrecord : readRecord ⟨.shape, 0, shapeNodes kind b comment brk style trailing⟩ =
      (Textual.read ⟨.drawStyle, k₄, style⟩ >>= fun drawStyle =>
        readTrailing ⟨.trailingTransforms, k₅, trailing⟩ >>= fun transforms =>
          .ok ⟨readName ⟨.comment, k₂, comment⟩, drawStyle, transforms⟩) := by
    simp only [readRecord, Node.child, Node.childOf?, Node.children, hk]
    cases kind <;> rfl
  have hshape : (Textual.read ⟨.shape, 0, shapeNodes kind b comment brk style trailing⟩ :
      Except Finding (Shape Float)) = kind.assemble <$>
        readRecord ⟨.shape, 0, shapeNodes kind b comment brk style trailing⟩ := by
    simp only [Textual.read, Node.children, hk, ShapeKind.ofRule?_rule]
  rw [hshape, hrecord, map_eq_ok_iff]
  simp only [bind_eq_ok_iff, read_eq_ok_iff k₄, readTrailing, readList_eq_ok_iff k₅,
    readName_place k₂]
  constructor
  · rintro ⟨_, ⟨d, hd, ts, hts, h⟩, rfl⟩
    cases h
    exact ⟨rfl, rfl, hd, hts⟩
  · rintro ⟨rfl, hname, hd, hts⟩
    exact ⟨v.toShapeRecord, ⟨_, hd, _, hts, by rw [hname]⟩, rfl⟩

/-- **A shape is read part by part.** -/
theorem reads_shape_iff {v : Shape Float} : Reads s v rest ↔
    ∃ b t a u c, s = b ++ (v.kind.keyword.toList ++ t) ∧ IsBlankLine b ∧ Names t v.name a ∧
      dropLineEnd? a = some u ∧ Reads u v.drawStyle c ∧ Follow lineEnd c v.transforms rest := by
  constructor
  · rintro ⟨g, hg, hv⟩
    obtain ⟨kind, b, t, comment, a, brk, u, style, c, trailing, hs, hb, hcomment, hend, hstyle,
      htrailing, rfl⟩ := matches_shape_iff.1 hg
    obtain ⟨rfl, hname, hd, hts⟩ := read_shapeNodes_eq_ok_iff.1 hv
    obtain ⟨_, hdrop, -⟩ := parse_lineEnd_iff.1 hend
    exact ⟨b, t, a, u, c, hs, hb, ⟨comment, hcomment, hname⟩, hdrop, ⟨style, hstyle, hd⟩,
      trailing_iff.1 ⟨trailing, htrailing, hts⟩⟩
  · rintro ⟨b, t, a, u, c, hs, hb, ⟨comment, hcomment, hname⟩, hdrop, ⟨style, hstyle, hd⟩, hfollow⟩
    obtain ⟨trailing, htrailing, hts⟩ := trailing_iff.2 hfollow
    obtain ⟨f, hend⟩ := exists_parse_lineEnd hdrop
    obtain ⟨brk, rfl⟩ := exists_nodes_of_parse_lineEnd hend
    exact ⟨_, matches_shape_iff.2 ⟨v.kind, b, t, comment, a, _, u, style, c, trailing, hs, hb,
      hcomment, hend, hstyle, htrailing, rfl⟩,
      read_shapeNodes_eq_ok_iff.2 ⟨rfl, hname, hd, hts⟩⟩

theorem reads_shapes_iff {ss : List (Shape Float)} : Reads s ss rest ↔
    ∃ v ss' mid, ss = v :: ss' ∧ Reads s v mid ∧ Follow (oneOrMore lineEnd) mid ss' rest :=
  reads_list_iff ⟨_, rfl⟩ (by decide) rfl rfl fun _ => rfl

theorem reads_points_iff {ps : List (Point Float)} : Reads s ps rest ↔
    ∃ p ps' mid, ps = p :: ps' ∧ Reads s p mid ∧ Follow lineEnd mid ps' rest :=
  reads_list_iff ⟨_, rfl⟩ (by decide) rfl rfl fun _ => rfl

/-! ## Groups -/

/-- What a group leaves: the nodes of its parts, its shapes only where there are some. -/
def groupNodes (comment trailing members : Forest) : Forest :=
  .text "group".toList (.node .comment comment (.node .trailingTransforms trailing members))

/-- **The parts of a group.**  Shapes are taken where one follows line ends. -/
theorem matches_group_iff : Rule.group.Matches s g rest ↔
    ∃ space t comment a trailing c members,
      (many (blank <|> newline)).parse s = some (space, "group".toList ++ t) ∧
      Rule.comment.Matches t comment a ∧ Rule.trailingTransforms.Matches a trailing c ∧
      (opt (oneOrMore lineEnd ++ shapes)).parse c = some (members, rest) ∧
      g = space ++ groupNodes comment trailing members := by
  refine (Rule.matches_iff rfl).trans ?_
  constructor
  · intro h
    obtain ⟨_, c, members, h₄, hmembers, rfl⟩ := parse_append_iff.1 h
    obtain ⟨_, a, _, h₃, htrailing, rfl⟩ := parse_append_iff.1 h₄
    obtain ⟨_, t, _, h₂, hcomment, rfl⟩ := parse_append_iff.1 h₃
    obtain ⟨space, _, _, hspace, hword, rfl⟩ := parse_append_iff.1 h₂
    obtain ⟨rfl, rfl⟩ := parse_word_iff.1 hword
    obtain ⟨comment, hcomment, rfl⟩ := (Rule.parse_pattern_iff (r := .comment) rfl).1 hcomment
    obtain ⟨trailing, htrailing, rfl⟩ :=
      (Rule.parse_pattern_iff (r := .trailingTransforms) rfl).1 htrailing
    exact ⟨space, t, comment, a, trailing, c, members, hspace, hcomment, htrailing, hmembers,
      by simp [groupNodes, Forest.append_assoc]⟩
  · rintro ⟨space, t, comment, a, trailing, c, members, hspace, hcomment, htrailing, hmembers, rfl⟩
    have hword := parse_append_iff.2 ⟨_, _, _, hspace, parse_word_iff.2 ⟨rfl, rfl⟩, rfl⟩
    have hlines := parse_append_iff.2 ⟨_, _, _, parse_append_iff.2 ⟨_, _, _, hword, hcomment, rfl⟩,
      htrailing, rfl⟩
    exact parse_append_iff.2 ⟨_, _, _, hlines, hmembers,
      by simp [groupNodes, Forest.append_assoc]⟩

/-- **The shapes of a group are those that follow line ends**, if there are any. -/
theorem members_iff {ss : List (Shape Float)} (hss : ss ≠ []) :
    (∃ members, (opt (oneOrMore lineEnd ++ shapes)).parse s = some (members, rest) ∧
      readList .shapes ⟨.group, 0, members⟩ = .ok ss) ↔ Follow (oneOrMore lineEnd) s ss rest := by
  have hread {e g : Forest} {t : List Char} (hend : (oneOrMore lineEnd).parse s = some (e, t)) :
      readList .shapes ⟨.group, 0, e ++ .node .shapes g .nil⟩ = .ok ss ↔
        Textual.read ⟨.shapes, 0, g⟩ = .ok ss := by
    have hnone := filter_nodes_eq_nil (r := .shapes) hend (by decide) 0
    rw [readList, Node.childOf?, Node.children, ← List.head?_filter, Forest.nodes_append,
      List.filter_append, hnone]
    exact read_eq_ok_iff (α := List (Shape Float)) _
  constructor
  · rintro ⟨members, hmembers, hread'⟩
    rcases parse_opt_iff.1 hmembers with h | ⟨-, rfl, -⟩
    · obtain ⟨e, t, _, hend, hshapes, rfl⟩ := parse_append_iff.1 h
      obtain ⟨g, hg, rfl⟩ := (Rule.parse_pattern_iff (r := .shapes) rfl).1 hshapes
      obtain ⟨v, ss', mid, rfl, hfirst, hmore⟩ := reads_shapes_iff.1 ⟨g, hg, (hread hend).1 hread'⟩
      exact .step hend hfirst hmore
    · cases hread'
      exact absurd rfl hss
  · intro h
    cases h with
    | stop => exact absurd rfl hss
    | step hend hfirst hmore =>
      obtain ⟨g, hg, hv⟩ := reads_shapes_iff.2 ⟨_, _, _, rfl, hfirst, hmore⟩
      exact ⟨_, parse_opt_iff.2 (.inl (parse_append_iff.2 ⟨_, _, _, hend, hg, rfl⟩)),
        (hread hend).2 hv⟩

/-- **A group leaves nodes for its name and its transforms first**, if spacing leaves none. -/
theorem exists_nodes_groupNodes {space : Forest} {start : Nat} (hspace : space.nodes start = [])
    (comment trailing members : Forest) : ∃ k₁ k₂ k₃,
      (space ++ groupNodes comment trailing members).nodes start =
        ⟨.comment, k₁, comment⟩ :: ⟨.trailingTransforms, k₂, trailing⟩ :: members.nodes k₃ := by
  rw [Forest.nodes_append, hspace]
  exact ⟨_, _, _, rfl⟩

/-- A group is read from the nodes of its parts. -/
theorem read_groupNodes_eq_ok_iff {space comment trailing members : Forest} {v : Group Float}
    (hspace : space.nodes 0 = []) :
    Textual.read ⟨.group, 0, space ++ groupNodes comment trailing members⟩ = .ok v ↔
      readName ⟨.comment, 0, comment⟩ = v.name ∧
        readTrailing ⟨.trailingTransforms, 0, trailing⟩ = .ok v.transforms ∧
        readList .shapes ⟨.group, 0, members⟩ = .ok v.shapes ∧ v.shapes ≠ [] := by
  obtain ⟨k₁, k₂, k₃, hk⟩ := exists_nodes_groupNodes hspace comment trailing members
  have hmembers : (readList .shapes ⟨.group, 0, space ++ groupNodes comment trailing members⟩ :
      Except Finding (List (Shape Float))) = readList .shapes ⟨.group, k₃, members⟩ := by
    simp only [readList, Node.childOf?, Node.children, hk]
    rfl
  have hcomment : Node.child ⟨.group, 0, space ++ groupNodes comment trailing members⟩ .comment =
      .ok ⟨.comment, k₁, comment⟩ := by
    simp only [Node.child, Node.childOf?, Node.children, hk]
    rfl
  have htrailing : Node.child ⟨.group, 0, space ++ groupNodes comment trailing members⟩
      .trailingTransforms = .ok ⟨.trailingTransforms, k₂, trailing⟩ := by
    simp only [Node.child, Node.childOf?, Node.children, hk]
    rfl
  rw [read_group, hmembers, hcomment, htrailing]
  simp only [bind_eq_ok_iff, Except.ok.injEq, exists_eq_left', readTrailing,
    readList_eq_ok_iff k₂, readName_place k₁, readList_eq_ok_iff k₃]
  constructor
  · rintro ⟨ts, hts, ss, hss, h⟩
    split at h
    case isTrue => cases h
    case isFalse hne =>
      cases h
      exact ⟨rfl, hts, hss, by simpa using hne⟩
  · rintro ⟨hname, hts, hss, hne⟩
    refine ⟨_, hts, _, hss, ?_⟩
    rw [if_neg (by simpa using hne), hname]

/-- **A group is read part by part**, behind all spacing. -/
theorem reads_group_iff {v : Group Float} : Reads s v rest ↔
    ∃ t a c, s.dropWhile isSpacing = "group".toList ++ t ∧ Names t v.name a ∧
      Follow lineEnd a v.transforms c ∧ Follow (oneOrMore lineEnd) c v.shapes rest ∧
      v.shapes ≠ [] := by
  constructor
  · rintro ⟨g, hg, hv⟩
    obtain ⟨space, t, comment, a, trailing, c, members, hspace, hcomment, htrailing, hmembers,
      rfl⟩ := matches_group_iff.1 hg
    obtain ⟨hname, hts, hss, hne⟩ :=
      (read_groupNodes_eq_ok_iff (nodes_eq_nil hspace rfl 0)).1 hv
    exact ⟨t, a, c, (exists_parse_spacing_iff.1 ⟨space, hspace⟩).symm, ⟨comment, hcomment, hname⟩,
      trailing_iff.1 ⟨trailing, htrailing, hts⟩, (members_iff hne).1 ⟨members, hmembers, hss⟩, hne⟩
  · rintro ⟨t, a, c, hs, ⟨comment, hcomment, hname⟩, htransforms, hshapes, hne⟩
    obtain ⟨space, hspace⟩ := exists_parse_spacing_iff.2 hs.symm
    obtain ⟨trailing, htrailing, hts⟩ := trailing_iff.2 htransforms
    obtain ⟨members, hmembers, hss⟩ := (members_iff hne).2 hshapes
    exact ⟨_, matches_group_iff.2 ⟨space, t, comment, a, trailing, c, members, hspace, hcomment,
      htrailing, hmembers, rfl⟩,
      (read_groupNodes_eq_ok_iff (nodes_eq_nil hspace rfl 0)).2 ⟨hname, hts, hss, hne⟩⟩

/-! ## Documents -/

/-- Groups from the front of a text on, as many as can be taken. -/
def Groups (s : List Char) (gs : List (Group Float)) (rest : List Char) : Prop :=
  (∃ g gs' mid, gs = g :: gs' ∧ Reads s g mid ∧ Follow groupSeparator mid gs' rest) ∨
    Rule.group.pattern.parse s = none ∧ gs = [] ∧ rest = s

theorem groups_iff {gs : List (Group Float)} :
    (∃ f, (opt (group ++ many (groupSeparator ++ group))).parse s = some (f, rest) ∧
      ((f.nodes 0).filter (·.rule = .group)).mapM Textual.read = .ok gs) ↔ Groups s gs rest := by
  have hitems : (∃ f, (group ++ many (groupSeparator ++ group)).parse s = some (f, rest) ∧
      ((f.nodes 0).filter (·.rule = .group)).mapM Textual.read = .ok gs) ↔
      ∃ g gs' mid, gs = g :: gs' ∧ Reads s g mid ∧ Follow groupSeparator mid gs' rest :=
    items_iff (α := Group Float) ⟨_, rfl⟩ (by decide) rfl
  have hnone : (group ++ many (groupSeparator ++ group)).parse s = none ↔
      Rule.group.pattern.parse s = none := by
    rw [parse_append_eq_none_iff]
    constructor
    · intro h
      refine Option.eq_none_iff_forall_ne_some.2 fun ⟨f, mid⟩ hgroup => ?_
      obtain ⟨f', rest, hmany⟩ := exists_parse_many (groupSeparator ++ group) mid
      rw [h f mid hgroup] at hmany
      cases hmany
    · intro h f mid hgroup
      exact absurd (h.symm.trans hgroup) (by simp)
  rw [Groups, ← hitems]
  simp only [parse_opt_iff, hnone]
  constructor
  · rintro ⟨f, h | ⟨h, rfl, rfl⟩, hgs⟩
    · exact .inl ⟨f, h, hgs⟩
    · cases hgs
      exact .inr ⟨h, rfl, rfl⟩
  · rintro (⟨f, h, hgs⟩ | ⟨h, rfl, rfl⟩)
    · exact ⟨f, .inl h, hgs⟩
    · exact ⟨.nil, .inr ⟨h, rfl, rfl⟩, rfl⟩

/-- **A document is read group by group**, and nothing but spacing is left behind them. -/
theorem reads_document_iff {d : Document Float} : Reads s d rest ↔
    ∃ a, Groups s d.groups a ∧ (∀ c ∈ a, isSpacing c) ∧ rest = [] := by
  have hread {f space : Forest} (hspace : ∀ k, space.nodes k = []) :
      Textual.read ⟨.document, 0, f ++ space ++ .node .endOfText .nil .nil⟩ = .ok d ↔
        ((f.nodes 0).filter (·.rule = .group)).mapM Textual.read = .ok d.groups := by
    have hnodes : Node.childrenOf .group ⟨.document, 0, f ++ space ++ .node .endOfText .nil .nil⟩ =
        (f.nodes 0).filter (·.rule = .group) := by
      simp [Node.childrenOf, Node.children, Forest.nodes_append, hspace, Forest.nodes]
    change Document.mk <$> (Node.childrenOf .group _).mapM Textual.read = _ ↔ _
    rw [hnodes, map_eq_ok_iff]
    constructor
    · rintro ⟨gs, hgs, rfl⟩
      exact hgs
    · intro hgs
      exact ⟨d.groups, hgs, rfl⟩
  simp only [← groups_iff]
  constructor
  · rintro ⟨g, hg, hd⟩
    obtain ⟨_, _, _, h₂, hend, rfl⟩ := parse_append_iff.1 ((Rule.matches_iff rfl).1 hg)
    obtain ⟨f, a, space, h₁, hspace, rfl⟩ := parse_append_iff.1 h₂
    obtain ⟨_, hatEnd, rfl⟩ := parse_rule_iff.1 hend
    obtain ⟨rfl, rfl, rfl⟩ := parse_atEnd_iff.1 hatEnd
    refine ⟨a, ⟨f, h₁, (hread (nodes_eq_nil hspace rfl)).1 hd⟩, ?_, rfl⟩
    exact List.dropWhile_eq_nil_iff.1 (exists_parse_spacing_iff.1 ⟨space, hspace⟩).symm
  · rintro ⟨a, ⟨f, h₁, hgs⟩, ha, rfl⟩
    obtain ⟨space, hspace⟩ := exists_parse_spacing_iff.2 (List.dropWhile_eq_nil_iff.2 ha).symm
    exact ⟨_, (Rule.matches_iff rfl).2 (parse_append_iff.2 ⟨_, _, _, parse_append_iff.2
      ⟨_, _, _, h₁, hspace, rfl⟩, rfl, rfl⟩), (hread (nodes_eq_nil hspace rfl)).2 hgs⟩

end SceneText
