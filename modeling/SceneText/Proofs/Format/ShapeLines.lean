import SceneText.Proofs.Format.Blocks

/-!
# Proofs/Format/ShapeLines — lists of lines, headers and shapes

What is read up to the end of a line makes up whole lines, and lines of the language are read as
such, as long as what follows them does not carry on where they end.  Here for lists of values a
line each (`Follow.exists_lines`, `exists_follow`), for headers (`header_iff`), for shapes and for
the shapes of a group.
-/

namespace SceneText

variable {s rest : List Char} {l : List Char} {ls after : List (List Char)}

open Pattern

/-! ## Values on lines of their own -/

section Lines

variable {α : Type} [Textual α] {vs : List α} {sep : Pattern} {line : List Char → α → Prop}

/-- Values that follow a line end begin at one. -/
theorem Follow.atLineEnd (hsep : ∀ {s f t}, sep.parse s = some (f, t) → AtLineEnd s)
    (h : Follow sep s vs rest) (hrest : AtLineEnd rest) : AtLineEnd s := by
  cases h with
  | stop => exact hrest
  | step h => exact hsep h

theorem atLineEnd_of_parse_lineEnd {f : Forest} {t : List Char}
    (h : lineEnd.parse s = some (f, t)) : AtLineEnd s := by
  obtain ⟨_, hdrop, -⟩ := parse_lineEnd_iff.1 h
  exact atLineEnd_of_dropLineEnd? hdrop

/-- **Values that follow line ends are the lines after this one**, if each is a line. -/
theorem Follow.exists_lines (hline : ∀ {s rest v}, AtLineEnd rest →
      (Reads s v rest ↔ rest = afterLine s ∧ line (firstLine s) v))
    (h : Follow lineEnd s vs rest) (hrest : AtLineEnd rest) :
    ∃ ls, linesAfter s = ls ++ linesAfter rest ∧ List.Forall₂ line ls vs := by
  induction h with
  | stop => exact ⟨[], rfl, .nil⟩
  | step hend hv hmore ih =>
    obtain ⟨ls, hls, hvs⟩ := ih hrest
    obtain ⟨rfl, hfirst⟩ := (hline (hmore.atLineEnd atLineEnd_of_parse_lineEnd hrest)).1 hv
    obtain ⟨_, hdrop, -⟩ := parse_lineEnd_iff.1 hend
    refine ⟨firstLine _ :: ls, ?_, .cons hfirst hvs⟩
    rw [linesAfter_of_dropLineEnd? hdrop, lines_eq, hls, List.cons_append]

/-- Lines of values are read after a line end, if the line behind them holds none. -/
theorem exists_follow (hline : ∀ {s rest v}, AtLineEnd rest →
      (Reads s v rest ↔ rest = afterLine s ∧ line (firstLine s) v))
    (hstop : ∀ t, lines t = after → (Textual.rule α).pattern.parse t = none)
    (hs : AtLineEnd s) (hvs : List.Forall₂ line ls vs) (h : linesAfter s = ls ++ after) :
    ∃ rest, Follow lineEnd s vs rest ∧ AtLineEnd rest ∧ linesAfter rest = after := by
  induction hvs generalizing s with
  | nil =>
    refine ⟨s, .stop fun f t hend => hstop t ?_, hs, h⟩
    obtain ⟨_, hdrop, -⟩ := parse_lineEnd_iff.1 hend
    rw [← linesAfter_of_dropLineEnd? hdrop, h, List.nil_append]
  | cons hv _ ih =>
    obtain ⟨t, hdrop, ht⟩ := exists_of_linesAfter_ne_nil (a := s) (by simp [h])
    rw [h, lines_eq, List.cons_append, List.cons.injEq] at ht
    obtain ⟨rfl, hafter⟩ := ht
    obtain ⟨rest, hfollow, hrest, hrest'⟩ := ih (atLineEnd_afterLine t) hafter
    obtain ⟨f, hend⟩ := exists_parse_lineEnd hdrop
    exact ⟨rest, .step hend ((hline (atLineEnd_afterLine t)).2 ⟨rfl, hv⟩) hfollow, hrest, hrest'⟩

end Lines

/-! ## How lines open -/

/-- The first character of a line that is no blank. -/
def opener (l : List Char) : Option Char := (l.dropWhile isBlank).head?

theorem opener_append {b t : List Char} {c : Char} (hb : IsBlankLine b) (hc : isBlank c = false) :
    opener (b ++ c :: t) = some c := by
  rw [opener, dropWhile_append_of_stops hb (stops_cons.2 hc), List.head?_cons]

theorem opener_of_isBlankLine (hl : IsBlankLine l) : opener l = none := by
  rw [opener, List.dropWhile_eq_nil_iff.2 hl, List.head?_nil]

/-- A text behind blanks opens its first line. -/
theorem opener_firstLine {b t : List Char} {c : Char} (hs : s = b ++ c :: t) (hb : IsBlankLine b)
    (hc : isBlank c = false) (hc' : isLineBreak c = false) : opener (firstLine s) = some c := by
  have hline : ∀ d ∈ b ++ [c], isLineBreak d = false :=
    List.forall_mem_append.2 ⟨hb.isLineBreak, by simpa using hc'⟩
  have hs' : s = b ++ [c] ++ t := by simp [hs]
  rw [hs', firstLine_append_left hline, List.append_assoc]
  exact opener_append hb hc

/-- What opens with none of the tags is no transform. -/
theorem parse_transform_eq_none (h : opener (firstLine s) ∉ [some 'r', some 's', some 't']) :
    Rule.transform.pattern.parse s = none := by
  refine Option.eq_none_iff_forall_ne_some.2 fun ⟨f, rest⟩ hparse => h ?_
  obtain ⟨g, hg, -⟩ := (Rule.parse_pattern_iff (r := .transform) rfl).1 hparse
  obtain ⟨b, form, ps, b', hs, hb, -⟩ := matches_transform_iff.1 hg
  cases form with
  | rotate => simp [opener_firstLine (c := 'r') hs hb rfl rfl]
  | scale => simp [opener_firstLine (c := 's') hs hb rfl rfl]
  | translate => simp [opener_firstLine (c := 't') hs hb rfl rfl]

/-- What does not open with a keyword's letter is no shape. -/
theorem parse_shape_eq_none (h : opener (firstLine s) ≠ some 'u') :
    Rule.shape.pattern.parse s = none := by
  refine Option.eq_none_iff_forall_ne_some.2 fun ⟨f, rest⟩ hparse => h ?_
  obtain ⟨g, hg, -⟩ := (Rule.parse_pattern_iff (r := .shape) rfl).1 hparse
  obtain ⟨kind, b, t, _, _, _, _, _, _, _, hs, hb, -⟩ := matches_shape_iff.1 hg
  cases kind <;> exact opener_firstLine hs hb rfl rfl

/-! ## Headers -/

/-- **A keyword and a name up to the end of a line are a header line.** -/
theorem header_iff {keyword name : String} (hkeyword : ∀ c ∈ keyword.toList, isLineBreak c = false)
    (hrest : AtLineEnd rest) :
    (∃ b t, s = b ++ (keyword.toList ++ t) ∧ IsBlankLine b ∧ Names t name rest) ↔
      rest = afterLine s ∧ HeaderLine keyword (firstLine s) name := by
  have hline {b t : List Char} (hb : IsBlankLine b) : firstLine (b ++ (keyword.toList ++ t)) =
      b ++ (keyword.toList ++ firstLine t) ∧
        afterLine (b ++ (keyword.toList ++ t)) = afterLine t := by
    rw [firstLine_append_left hb.isLineBreak, firstLine_append_left hkeyword,
      afterLine_append_left hb.isLineBreak, afterLine_append_left hkeyword]
    exact ⟨rfl, rfl⟩
  constructor
  · rintro ⟨b, t, rfl, hb, hname⟩
    obtain ⟨rfl, hstop, hname⟩ := (names_iff hrest).1 hname
    rw [(hline hb).1, (hline hb).2]
    exact ⟨rfl, b, firstLine t, rfl, hb, hstop, hname⟩
  · rintro ⟨rfl, b, t, hfirst, hb, hstop, hname⟩
    have hs := firstLine_append_afterLine s
    rw [hfirst, List.append_assoc, List.append_assoc] at hs
    have ht : ∀ c ∈ t, isLineBreak c = false := fun c hc =>
      isLineBreak_of_mem_firstLine (s := s) (by simp [hfirst, hc])
    refine ⟨b, t ++ afterLine s, hs.symm, hb, (names_iff hrest).2 ?_⟩
    rw [firstLine_append ht hrest, afterLine_append ht hrest]
    exact ⟨rfl, hstop, hname⟩

theorem ShapeKind.isLineBreak_keyword (kind : ShapeKind) :
    ∀ c ∈ kind.keyword.toList, isLineBreak c = false := by
  cases kind <;> exact forall_eq_false_of_all rfl

/-! ## Shapes -/

/-- The lines after a transform list, or the end of the text, hold no further transform. -/
def NoTransform (ls : List (List Char)) : Prop :=
  ∀ l ∈ ls.head?, opener l ∉ [some 'r', some 's', some 't']

theorem NoTransform.parse_eq_none (h : NoTransform ls) {t : List Char} (ht : lines t = ls) :
    Rule.transform.pattern.parse t = none :=
  parse_transform_eq_none (h _ (by rw [← ht, lines_eq]; rfl))

/-- **A shape that ends with a line is whole lines.** -/
theorem exists_shapeLines {v : Shape Float} (h : Reads s v rest) (hrest : AtLineEnd rest) :
    ∃ ls, lines s = ls ++ linesAfter rest ∧ ShapeLines ls v := by
  obtain ⟨b, t, a, u, c, hs, hb, hname, hdrop, hstyle, hfollow⟩ := reads_shape_iff.1 h
  have hc := hfollow.atLineEnd atLineEnd_of_parse_lineEnd hrest
  obtain ⟨rfl, hheader⟩ := (header_iff v.kind.isLineBreak_keyword
    (atLineEnd_of_dropLineEnd? hdrop)).1 ⟨b, t, hs, hb, hname⟩
  obtain ⟨rfl, hline⟩ := (reads_drawStyle_iff hc).1 hstyle
  obtain ⟨more, hmore, hts⟩ := hfollow.exists_lines reads_transform_iff hrest
  refine ⟨firstLine s :: firstLine u :: more, ?_, _, _, _, rfl, hheader, hline, hts⟩
  rw [lines_eq, linesAfter_of_dropLineEnd? hdrop, lines_eq u, hmore, List.cons_append,
    List.cons_append]

/-- Lines of a shape are read as the shape, if no transform follows them. -/
theorem exists_reads_shape {v : Shape Float} (hv : ShapeLines ls v) (h : lines s = ls ++ after)
    (hafter : NoTransform after) :
    ∃ rest, Reads s v rest ∧ AtLineEnd rest ∧ linesAfter rest = after := by
  obtain ⟨header, style, more, rfl, hheader, hstyle, hts⟩ := hv
  rw [lines_eq, List.cons_append, List.cons_append, List.cons.injEq] at h
  obtain ⟨rfl, h⟩ := h
  obtain ⟨u, hdrop, hu⟩ := exists_of_linesAfter_ne_nil (a := afterLine s) (by simp [h])
  rw [h, lines_eq, List.cons.injEq] at hu
  obtain ⟨rfl, hu⟩ := hu
  obtain ⟨rest, hfollow, hrest, hrest'⟩ := exists_follow reads_transform_iff
    (fun t ht => hafter.parse_eq_none ht) (atLineEnd_afterLine u) hts hu
  obtain ⟨b, t, hs, hb, hname⟩ := (header_iff v.kind.isLineBreak_keyword
    (atLineEnd_afterLine s)).2 ⟨rfl, hheader⟩
  exact ⟨rest, reads_shape_iff.2 ⟨b, t, _, u, _, hs, hb, hname, hdrop,
    (reads_drawStyle_iff (atLineEnd_afterLine u)).2 ⟨rfl, hstyle⟩, hfollow⟩, hrest, hrest'⟩

/-! ## The shapes of a group -/

/-- Behind any empty lines stands no further shape. -/
def NoShape (ls : List (List Char)) : Prop :=
  ∀ l ∈ (ls.dropWhile List.isEmpty).head?, opener l ≠ some 'u'

/-- **Line ends are taken up to the next line that is not empty.** -/
theorem linesAfter_of_parse_lineEnds {f : Forest} {t : List Char}
    (h : (oneOrMore lineEnd).parse s = some (f, t)) :
    AtLineEnd s ∧ ∃ n, linesAfter s = List.replicate n [] ++ lines t := by
  obtain ⟨hne, rfl⟩ := exists_parse_lineEnds_iff.1 ⟨f, h⟩
  obtain ⟨t, hdrop⟩ := Option.ne_none_iff_exists'.1 hne
  obtain ⟨n, hn⟩ := exists_lines_eq_dropBreaks t
  refine ⟨atLineEnd_of_dropLineEnd? hdrop, n, ?_⟩
  rw [linesAfter_of_dropLineEnd? hdrop, hn, dropWhile_of_dropLineEnd? (fun _ h => h) hdrop]

/-- Empty lines before one that is not are taken. -/
theorem exists_parse_lineEnds {n : Nat} (h : linesAfter s = List.replicate n [] ++ l :: ls)
    (hl : l ≠ []) : ∃ f t, (oneOrMore lineEnd).parse s = some (f, t) ∧ lines t = l :: ls := by
  obtain ⟨t, hdrop, ht⟩ := exists_of_linesAfter_ne_nil (a := s) (by simp [h])
  have hne : dropLineEnd? s ≠ none := by simp [hdrop]
  obtain ⟨f, hf⟩ := exists_parse_lineEnds_iff.2 ⟨hne, rfl⟩
  refine ⟨f, _, hf, ?_⟩
  rw [dropWhile_of_dropLineEnd? (fun _ h => h) hdrop]
  exact lines_dropBreaks (ht.trans h) hl

theorem dropWhile_isEmpty_replicate (n : Nat) (hl : l ≠ []) :
    (List.replicate n [] ++ l :: ls).dropWhile List.isEmpty = l :: ls := by
  rw [List.dropWhile_append_of_pos (by simp), List.dropWhile_cons_of_neg (by simpa using hl)]

/-- **The shapes of a group are lines**, each shape behind any number of empty ones. -/
theorem Follow.exists_memberLines {ss : List (Shape Float)}
    (h : Follow (oneOrMore lineEnd) s ss rest) (hrest : AtLineEnd rest) :
    ∃ ls, linesAfter s = ls ++ linesAfter rest ∧ MemberLines ls ss := by
  induction h with
  | stop => exact ⟨[], rfl, .nil⟩
  | step hend hv hmore ih =>
    obtain ⟨more, hmore', hss⟩ := ih hrest
    obtain ⟨ls, hls, hv⟩ := exists_shapeLines hv
      (hmore.atLineEnd (fun h => (linesAfter_of_parse_lineEnds h).1) hrest)
    obtain ⟨-, n, hn⟩ := linesAfter_of_parse_lineEnds hend
    exact ⟨_, by rw [hn, hls, hmore', List.append_assoc, List.append_assoc], .cons n hv hss⟩

/-- A keyword's letter opens the header of a shape. -/
theorem ShapeLines.exists_cons {v : Shape Float} (h : ShapeLines ls v) :
    ∃ header more, ls = header :: more ∧ header ≠ [] ∧ opener header = some 'u' := by
  obtain ⟨header, style, more, rfl, ⟨b, t, rfl, hb, -⟩, -⟩ := h
  refine ⟨_, _, rfl, by cases v.kind <;> simp [ShapeKind.keyword], ?_⟩
  cases v.kind <;> exact opener_append hb rfl

theorem noTransform_nil_cons : NoTransform ([] :: ls) := by
  simp [NoTransform, opener]

/-- Behind a shape stands another, or what stands behind all of them. -/
theorem MemberLines.noTransform {ss : List (Shape Float)} (h : MemberLines ls ss)
    (hafter : NoTransform after) : NoTransform (ls ++ after) := by
  cases h with
  | nil => exact hafter
  | cons n hv hss =>
    cases n with
    | zero =>
      obtain ⟨header, more, rfl, -, hopener⟩ := hv.exists_cons
      simp [NoTransform, hopener]
    | succ n => exact noTransform_nil_cons

/-- Lines of shapes are read, if neither a transform nor a shape follows them. -/
theorem exists_follow_members {ss : List (Shape Float)} (hs : AtLineEnd s)
    (hss : MemberLines ls ss) (h : linesAfter s = ls ++ after) (htransform : NoTransform after)
    (hshape : NoShape after) : ∃ rest, Follow (oneOrMore lineEnd) s ss rest ∧ AtLineEnd rest ∧
      linesAfter rest = after := by
  induction hss generalizing s with
  | nil =>
    -- line ends would be taken up to a line that is not empty, and no shape opens there
    refine ⟨s, .stop fun f t hend => parse_shape_eq_none ?_, hs, h⟩
    obtain ⟨-, n, hn⟩ := linesAfter_of_parse_lineEnds hend
    intro hopener
    have hne : firstLine t ≠ [] := by
      intro hnil
      simp [hnil, opener] at hopener
    refine hshape (firstLine t) ?_ hopener
    rw [← List.nil_append after, ← h, hn, lines_eq, dropWhile_isEmpty_replicate n hne]
    rfl
  | @cons n ls members v ss hv hss ih =>
    obtain ⟨header, more, rfl, hne, -⟩ := hv.exists_cons
    have hlines : linesAfter s = List.replicate n [] ++ header :: (more ++ (members ++ after)) := by
      simp [h]
    obtain ⟨f, t, hend, ht⟩ := exists_parse_lineEnds hlines hne
    obtain ⟨mid, hfirst, hmid, hmid'⟩ := exists_reads_shape hv ht (hss.noTransform htransform)
    obtain ⟨rest, hfollow, hrest, hrest'⟩ := ih hmid hmid'
    exact ⟨rest, .step hend hfirst hfollow, hrest, hrest'⟩

end SceneText
