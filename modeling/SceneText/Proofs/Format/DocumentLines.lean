import SceneText.Proofs.Format.ShapeLines

/-!
# Proofs/Format/DocumentLines — groups and documents are their lines

A group that ends with a line is blank lines and then the lines of a group, and a text is read as a
document if and only if its lines are those of the document (`readText_document_iff`).
-/

namespace SceneText

variable {s rest : List Char} {l : List Char} {ls after : List (List Char)}

open Pattern

/-! ## Groups -/

theorem isLineBreak_group : ∀ c ∈ "group".toList, isLineBreak c = false :=
  forall_eq_false_of_all rfl

theorem atLineEnd_of_parse_lineEnds {f : Forest} {t : List Char}
    (h : (oneOrMore lineEnd).parse s = some (f, t)) : AtLineEnd s :=
  (linesAfter_of_parse_lineEnds h).1

/-- **A group that ends with a line is whole lines**, behind any blank ones. -/
theorem exists_groupLines {g : Group Float} (h : Reads s g rest) (hrest : AtLineEnd rest) :
    ∃ blank ls, (∀ l ∈ blank, IsBlankLine l) ∧ lines s = blank ++ (ls ++ linesAfter rest) ∧
      GroupLines ls g := by
  obtain ⟨t, a, c, hs, hname, htransforms, hshapes, hne⟩ := reads_group_iff.1 h
  have hc := hshapes.atLineEnd atLineEnd_of_parse_lineEnds hrest
  have ha := htransforms.atLineEnd atLineEnd_of_parse_lineEnd hc
  obtain ⟨blank, b, hblank, hb, hlines⟩ := exists_lines_eq_dropSpacing s
  rw [hs] at hlines
  obtain ⟨hafter, hheader⟩ := (header_iff isLineBreak_group ha).1 ⟨b, t, rfl, hb, hname⟩
  obtain ⟨more, hmore, hts⟩ := htransforms.exists_lines reads_transform_iff hc
  obtain ⟨members, hmembers, hss⟩ := hshapes.exists_memberLines hrest
  refine ⟨blank, _, hblank, ?_, _, more, members, rfl, hheader, hts, hss, hne⟩
  rw [hlines, lines_eq, ← hafter, hmore, hmembers, List.cons_append, List.append_assoc]

/-- Spacing before a group does not matter. -/
theorem reads_group_congr {s' : List Char} {g : Group Float}
    (h : s.dropWhile isSpacing = s'.dropWhile isSpacing) : Reads s g rest ↔ Reads s' g rest := by
  rw [reads_group_iff, reads_group_iff, h]

/-- Lines of a group are read as the group, if neither a transform nor a shape follows them. -/
theorem exists_reads_group {g : Group Float} {blank : List (List Char)}
    (hblank : ∀ l ∈ blank, IsBlankLine l) (hg : GroupLines ls g)
    (h : lines s = blank ++ (ls ++ after)) (htransform : NoTransform after)
    (hshape : NoShape after) :
    ∃ rest, Reads s g rest ∧ AtLineEnd rest ∧ linesAfter rest = after := by
  obtain ⟨header, more, members, rfl, hheader, hts, hss, hne⟩ := hg
  obtain ⟨u, hu, hspacing⟩ := exists_lines_eq_of_blank hblank h (by simp)
  rw [lines_eq, List.cons_append, List.cons.injEq] at hu
  obtain ⟨rfl, hu⟩ := hu
  have ha := atLineEnd_afterLine u
  obtain ⟨b, t, hut, hb, hname⟩ := (header_iff isLineBreak_group ha).2 ⟨rfl, hheader⟩
  obtain ⟨c, htransforms, hc, hc'⟩ := exists_follow reads_transform_iff
    (fun t ht => (hss.noTransform htransform).parse_eq_none ht) ha hts
    (hu.trans (List.append_assoc _ _ _))
  obtain ⟨rest, hshapes, hrest, hrest'⟩ := exists_follow_members hc hss hc' htransform hshape
  refine ⟨rest, (reads_group_congr hspacing).2 (reads_group_iff.2
    ⟨t, _, c, ?_, hname, htransforms, hshapes, hne⟩), hrest, hrest'⟩
  have hstop : Stops isSpacing ("group".toList ++ t) := stops_cons.2 (by decide)
  rw [hut, dropWhile_append_of_stops (fun d hd => by simp [isSpacing, hb d hd]) hstop]

/-- The keyword's letter opens the header of a group. -/
theorem GroupLines.exists_cons {g : Group Float} (h : GroupLines ls g) :
    ∃ header more, ls = header :: more ∧ header ≠ [] ∧ opener header = some 'g' := by
  obtain ⟨header, more, members, rfl, ⟨b, t, rfl, hb, -⟩, -⟩ := h
  exact ⟨_, _, rfl, by simp, opener_append hb rfl⟩

/-! ## Groups after the first -/

theorem noTransform_of_blank (h : ∀ l ∈ ls, IsBlankLine l) : NoTransform ls := by
  intro l hl
  simp [opener_of_isBlankLine (h l (List.mem_of_mem_head? hl))]

theorem noShape_of_blank (h : ∀ l ∈ ls, IsBlankLine l) : NoShape ls := by
  intro l hl
  have hmem := (List.dropWhile_sublist _).mem (List.mem_of_mem_head? hl)
  simp [opener_of_isBlankLine (h l hmem)]

theorem LaterGroups.noTransform {gs : List (Group Float)} (h : LaterGroups ls gs)
    (hafter : ∀ l ∈ after, IsBlankLine l) : NoTransform (ls ++ after) := by
  cases h with
  | nil => exact noTransform_of_blank hafter
  | cons => exact noTransform_nil_cons

/-- Behind blank lines stands what opens the next group. -/
theorem noShape_append {blank : List (List Char)} (hblank : ∀ l ∈ blank, IsBlankLine l)
    (h : opener l ≠ some 'u') (hl : l ≠ []) : NoShape (blank ++ l :: ls) := by
  induction blank with
  | nil =>
    intro l' hl'
    rw [List.nil_append, List.dropWhile_cons_of_neg (by simpa using hl)] at hl'
    cases hl'
    exact h
  | cons l' blank ih =>
    obtain ⟨hl', hblank⟩ := List.forall_mem_cons.1 hblank
    rw [NoShape, List.cons_append, List.dropWhile_cons]
    split
    · exact ih hblank
    · intro l'' hl''
      cases hl''
      simp [opener_of_isBlankLine hl']

theorem LaterGroups.noShape {gs : List (Group Float)} (h : LaterGroups ls gs)
    (hafter : ∀ l ∈ after, IsBlankLine l) : NoShape (ls ++ after) := by
  cases h with
  | nil => exact noShape_of_blank hafter
  | @cons blank _ _ _ _ hblank hg hgs =>
    obtain ⟨header, _, rfl, hne, hopener⟩ := hg.exists_cons
    have hempty : ∀ l ∈ [] :: blank, IsBlankLine l :=
      List.forall_mem_cons.2 ⟨isBlankLine_nil, hblank⟩
    simpa using noShape_append hempty (by simp [hopener]) hne

/-- What separates groups is an empty line, and all empty ones that follow it. -/
theorem linesAfter_of_parse_groupSeparator {f : Forest} {t : List Char}
    (h : groupSeparator.parse s = some (f, t)) :
    AtLineEnd s ∧ ∃ n, linesAfter s = [] :: (List.replicate n [] ++ lines t) := by
  obtain ⟨_, u, _, h₁, h₂, -⟩ := parse_append_iff.1 h
  obtain ⟨_, hdrop, -⟩ := parse_lineEnd_iff.1 h₁
  obtain ⟨hu, n, hn⟩ := linesAfter_of_parse_lineEnds h₂
  refine ⟨atLineEnd_of_dropLineEnd? hdrop, n, ?_⟩
  rw [linesAfter_of_dropLineEnd? hdrop, lines_eq, hu.firstLine, hu.afterLine, hn]

/-- An empty line is taken, and line breaks behind it. -/
theorem exists_parse_groupSeparator (h : linesAfter s = [] :: ls) (hls : ls ≠ []) :
    ∃ f t, groupSeparator.parse s = some (f, t.dropWhile isLineBreak) ∧ lines t = ls := by
  obtain ⟨u, hdrop, hu⟩ := exists_of_linesAfter_ne_nil (a := s) (by simp [h])
  rw [h, lines_eq, List.cons.injEq] at hu
  have hfirst := firstLine_append_afterLine u
  rw [hu.1, List.nil_append] at hfirst
  rw [hfirst] at hu
  obtain ⟨t, hdrop', ht⟩ := exists_of_linesAfter_ne_nil (a := u) (by simp [hu.2, hls])
  have hne : dropLineEnd? u ≠ none := by simp [hdrop']
  obtain ⟨f, hf⟩ := exists_parse_lineEnd hdrop
  obtain ⟨f', hf'⟩ := exists_parse_lineEnds_iff.2 ⟨hne, rfl⟩
  rw [dropWhile_of_dropLineEnd? (fun _ h => h) hdrop'] at hf'
  exact ⟨_, t, parse_append_iff.2 ⟨_, _, _, hf, hf', rfl⟩, ht.trans hu.2⟩

/-- **The groups after the first are lines**, each group behind an empty one. -/
theorem Follow.exists_laterGroups {gs : List (Group Float)} (h : Follow groupSeparator s gs rest)
    (hrest : AtLineEnd rest) : ∃ ls, linesAfter s = ls ++ linesAfter rest ∧ LaterGroups ls gs := by
  induction h with
  | stop => exact ⟨[], rfl, .nil⟩
  | step hsep hg hmore ih =>
    obtain ⟨more, hmore', hgs⟩ := ih hrest
    obtain ⟨blank, ls, hblank, hls, hg⟩ := exists_groupLines hg
      (hmore.atLineEnd (fun h => (linesAfter_of_parse_groupSeparator h).1) hrest)
    obtain ⟨-, n, hn⟩ := linesAfter_of_parse_groupSeparator hsep
    -- empty lines that the separator takes count as blank ones
    have hempty : ∀ l ∈ List.replicate n [] ++ blank, IsBlankLine l := by
      refine List.forall_mem_append.2 ⟨fun l hl => ?_, hblank⟩
      rw [List.eq_of_mem_replicate hl]
      exact isBlankLine_nil
    refine ⟨_, ?_, .cons hempty hg hgs⟩
    rw [hn, hls, hmore']
    simp

/-- Where only spacing is left, there is no group. -/
theorem parse_group_eq_none (h : ∀ c ∈ s, isSpacing c) : Rule.group.pattern.parse s = none := by
  refine Option.eq_none_iff_forall_ne_some.2 fun ⟨f, rest⟩ hparse => ?_
  obtain ⟨g, hg, -⟩ := (Rule.parse_pattern_iff (r := .group) rfl).1 hparse
  obtain ⟨space, t, _, _, _, _, _, hspace, -⟩ := matches_group_iff.1 hg
  have hdrop := exists_parse_spacing_iff.1 ⟨space, hspace⟩
  rw [List.dropWhile_eq_nil_iff.2 h] at hdrop
  cases hdrop

/-- Lines of groups are read after the first, up to blank lines at the end. -/
theorem exists_follow_groups {gs : List (Group Float)} (hs : AtLineEnd s) (hgs : LaterGroups ls gs)
    (h : linesAfter s = ls ++ after) (hafter : ∀ l ∈ after, IsBlankLine l) :
    ∃ rest, Follow groupSeparator s gs rest ∧ AtLineEnd rest ∧ linesAfter rest = after := by
  induction hgs generalizing s with
  | nil =>
    -- behind a further separator there would be spacing alone
    refine ⟨s, .stop fun f t hsep => parse_group_eq_none fun c hc => ?_, hs, h⟩
    rw [List.nil_append] at h
    refine hs.forall_isSpacing_iff.2 (by rwa [h]) c ?_
    exact (suffix_of_parse hsep).sublist.mem hc
  | @cons blank ls more g gs hblank hg hgs ih =>
    have hlines : linesAfter s = [] :: (blank ++ (ls ++ (more ++ after))) := by simp [h]
    have hne : blank ++ (ls ++ (more ++ after)) ≠ [] := by
      obtain ⟨_, _, rfl, -⟩ := hg.exists_cons
      simp
    obtain ⟨f, t, hsep, ht⟩ := exists_parse_groupSeparator hlines hne
    obtain ⟨mid, hfirst, hmid, hmid'⟩ :=
      exists_reads_group hblank hg ht (hgs.noTransform hafter) (hgs.noShape hafter)
    obtain ⟨rest, hfollow, hrest, hrest'⟩ := ih hmid hmid'
    -- the separator takes line breaks that the next group would skip
    refine ⟨rest, .step hsep ((reads_group_congr ?_).2 hfirst) hfollow, hrest, hrest'⟩
    exact dropWhile_dropWhile (fun c hc => by simp [isSpacing, hc]) t

/-! ## Documents -/

/-- Values that leave no blank behind, one after the other, leave none. -/
theorem Follow.stops {α : Type} [Textual α] {sep : Pattern} {vs : List α}
    (hv : ∀ {s v rest}, Reads s (v : α) rest → Stops isBlank rest) (h : Follow sep s vs rest)
    (hs : Stops isBlank s) : Stops isBlank rest := by
  induction h with
  | stop => exact hs
  | step _ hfirst _ ih => exact ih (hv hfirst)

theorem stops_of_reads_transform {t : Transform Float} (h : Reads s t rest) :
    Stops isBlank rest := by
  obtain ⟨g, hg, -⟩ := h
  obtain ⟨_, _, _, _, -, -, -, -, -, hrest, -⟩ := matches_transform_iff.1 hg
  exact hrest

theorem stops_of_reads_drawStyle {d : DrawStyle} (h : Reads s d rest) : Stops isBlank rest := by
  obtain ⟨g, hg, -⟩ := h
  obtain ⟨_, _, _, _, -, -, -, -, -, hrest, -⟩ := matches_drawStyle_iff.1 hg
  exact hrest

theorem stops_of_reads_shape {v : Shape Float} (h : Reads s v rest) : Stops isBlank rest := by
  obtain ⟨_, _, _, _, _, -, -, -, -, hstyle, hfollow⟩ := reads_shape_iff.1 h
  exact hfollow.stops stops_of_reads_transform (stops_of_reads_drawStyle hstyle)

/-- A group ends with a shape, and so takes the blanks behind it. -/
theorem stops_of_reads_group {g : Group Float} (h : Reads s g rest) : Stops isBlank rest := by
  obtain ⟨_, _, _, -, -, -, hshapes, hne⟩ := reads_group_iff.1 h
  generalize g.shapes = ss at hshapes hne
  cases hshapes with
  | stop => exact absurd rfl hne
  | step _ hfirst hmore => exact hmore.stops stops_of_reads_shape (stops_of_reads_shape hfirst)

/-- **A text is a document if and only if its lines are those of the document.** -/
theorem readText_document_iff {d : Document Float} :
    readText (Document Float) s = .ok d ↔ DocumentLines (lines s) d := by
  rw [readText_eq_ok_iff ⟨_, rfl⟩, reads_document_iff]
  constructor
  · rintro ⟨a, hgroups, ha, -⟩
    obtain ⟨gs⟩ := d
    rcases hgroups with ⟨g, gs, mid, rfl, hg, hmore⟩ | ⟨-, rfl, rfl⟩
    · -- the last group has taken all blanks, so what is left of the spacing begins with a break
      have hend : AtLineEnd a := fun c hc => by
        have hspacing := ha c (List.mem_of_mem_head? hc)
        have hblank := hmore.stops stops_of_reads_group (stops_of_reads_group hg) c hc
        simpa [isSpacing, hblank] using hspacing
      have hmid := hmore.atLineEnd (fun h => (linesAfter_of_parse_groupSeparator h).1) hend
      obtain ⟨before, ls, hbefore, hls, hg⟩ := exists_groupLines hg hmid
      obtain ⟨more, hmore', hgs⟩ := hmore.exists_laterGroups hend
      rw [hls, hmore']
      exact .groups hbefore hg hgs (hend.forall_isSpacing_iff.1 ha)
    · exact .blank (forall_isSpacing_iff.1 ha)
  · intro h
    generalize hlines : lines s = ls at h
    cases h with
    | blank hblank =>
      have hspacing := forall_isSpacing_iff.2 (hlines ▸ hblank)
      exact ⟨s, .inr ⟨parse_group_eq_none hspacing, rfl, rfl⟩, hspacing, rfl⟩
    | groups hbefore hg hgs hafter =>
      obtain ⟨mid, hfirst, hmid, hmid'⟩ :=
        exists_reads_group hbefore hg hlines (hgs.noTransform hafter) (hgs.noShape hafter)
      obtain ⟨a, hmore, ha, ha'⟩ := exists_follow_groups hmid hgs hmid' hafter
      exact ⟨a, .inl ⟨_, _, mid, rfl, hfirst, hmore⟩, ha.forall_isSpacing_iff.2 (ha' ▸ hafter), rfl⟩

/-- **A source is read as a document if and only if its lines are those of the document**, whatever
its name. -/
theorem parse_document_iff (source : Source) (d : Document Float) :
    parse (Document Float) source = .ok d ↔ DocumentLines (lines source.text.toList) d :=
  parse_eq_ok_iff.trans readText_document_iff

end SceneText
