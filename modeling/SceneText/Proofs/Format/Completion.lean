import SceneText.Proofs.Format.Stuck

/-!
# Proofs/Format/Completion — a syntax error never blames good text

Whatever is wrong in a text that is no document, what stands before the place of the error can be
completed to a document (`exists_completion`).  Where only spacing follows the items that have been
taken, nothing needs to be added.  Where an item has been given up half-way, its missing words are
(`exists_item_of_note`).
-/

namespace SceneText

open Pattern

variable {s t u v : List Char} {f g : Forest} {n : Note}

/-! ## Half an item -/

theorem beginsAs_of_append (v u : List Char) : BeginsAs v (v ++ u) := by
  cases v with
  | nil => exact beginsAs_nil _
  | cons c v => exact fun _ h => h

/-- What stands behind a keyword on its line stays so in front of any line end. -/
theorem matches_comment_of_atLineEnd (h : Rule.comment.Matches s g t) (hu : AtLineEnd u) :
    Rule.comment.Matches (g.toList ++ u) g u := by
  refine matches_comment_iff.2 ?_
  rcases matches_comment_iff.1 h with ⟨b, v, -, hb, hv, -, rfl⟩ | ⟨-, -, rfl⟩
  · have hline : ∀ d ∈ firstLine v, isLineBreak d = false := fun d => isLineBreak_of_mem_firstLine
    refine .inl ⟨b, firstLine v ++ u, by simp [Forest.toList], hb, ?_,
      (afterLine_append hline hu).symm, by rw [firstLine_append hline hu]⟩
    cases hfirst : firstLine v with
    | nil => exact hu.stops_isBlank
    | cons c w =>
      have hstop := stops_firstLine hv
      rw [hfirst] at hstop
      exact hstop
  · exact .inr ⟨hu.stops_isBlank, rfl, rfl⟩

/-- A transform is completed by the numbers that it wants. -/
theorem exists_transform_of_wantsNumber {form : TransformForm} {b : List Char}
    (hb : IsBlankLine b) (h : WantsNumber form s u) : ∃ v t g, s = v ++ u ∧ v ≠ [] ∧
      Rule.transform.Matches (b ++ (v ++ t)) g [] := by
  obtain ⟨ps, q, rfl, hlen, hps, hq, -, -⟩ := h
  let more := List.replicate (form.arity - ps.length - 1) ([' '], ['1'])
  refine ⟨form.tag.toList ++ (gapped ps ++ q), '1' :: gapped more, _, by simp,
    List.append_ne_nil_of_left_ne_nil form.isRun_tag.1 _,
    matches_transform_iff.2 ⟨b, form, ps ++ (q, ['1']) :: more, [], ?_, hb, ?_, ?_, isBlankLine_nil,
      stops_nil, stops_nil, rfl⟩⟩
  · simp [gapped]
  · simp only [List.length_append, List.length_cons, List.length_replicate, more]
    omega
  · refine List.forall_mem_append.2 ⟨hps, List.forall_mem_cons.2 ⟨⟨hq, isRun_of_all rfl rfl⟩, ?_⟩⟩
    intro p hp
    rw [List.eq_of_mem_replicate hp]
    exact ⟨isRun_of_all rfl rfl, isRun_of_all rfl rfl⟩

/-- The two lines of a shape, put together from their parts. -/
theorem exists_parse_shapeHead (kind : ShapeKind) {b a rest : List Char} {comment style : Forest}
    (hb : IsBlankLine b) (hcomment : Rule.comment.Matches t comment a)
    (hdrop : dropLineEnd? a = some u) (hstyle : Rule.drawStyle.Matches u style rest) :
    ∃ f, shapeHead.parse (b ++ (kind.keyword.toList ++ t)) = some (f, rest) := by
  obtain ⟨brk, hend⟩ := exists_parse_lineEnd hdrop
  have hblanks := parse_blanks_iff.2 ⟨b, rfl, hb, kind.stops_keyword t, rfl⟩
  have hkind := parse_append_iff.2 ⟨_, _, _, hblanks, parse_kinds_iff.2 ⟨kind, rfl, rfl⟩, rfl⟩
  have hheader := parse_append_iff.2 ⟨_, _, _, hkind, hcomment, rfl⟩
  have hlines := parse_append_iff.2 ⟨_, _, _, hheader, hend, rfl⟩
  exact ⟨_, parse_rule_iff.2 ⟨_, parse_append_iff.2 ⟨_, _, _, hlines, hstyle, rfl⟩, rfl⟩⟩

theorem matches_drawStyle_of_words {b w q w' : List Char} (hb : IsBlankLine b)
    (hw : IsRun Char.isAlpha w) (hq : IsRun isBlank q) (hw' : IsRun Char.isAlpha w') :
    ∃ g, Rule.drawStyle.Matches (b ++ (w ++ (q ++ w'))) g [] :=
  ⟨_, matches_drawStyle_iff.2 ⟨b, w, (q, w'), [], by simp, hb, hw,
    fun p hp => List.mem_singleton.1 hp ▸ ⟨hq, hw'⟩, isBlankLine_nil, stops_nil, stops_nil, rfl⟩⟩

theorem isRun_red : IsRun Char.isAlpha "red".toList := isRun_of_all rfl rfl

theorem matches_drawStyle_filled_red (hb : IsBlankLine b) :
    ∃ g, Rule.drawStyle.Matches (b ++ "filled red".toList) g [] := by
  have hfilled : IsRun Char.isAlpha "filled".toList := isRun_of_all rfl rfl
  have hgap : IsRun isBlank [' '] := isRun_of_all rfl rfl
  have htext : "filled red".toList = "filled".toList ++ ([' '] ++ "red".toList) := by decide
  rw [htext]
  exact matches_drawStyle_of_words hb hfilled hgap isRun_red

/-- A style line is completed by its color, or by both its words. -/
theorem exists_drawStyle_of_note (h : n ∈ drawStyle.notes s) : ∃ v t g, s = v ++ n.rest ∧
    (v ++ t).head? ≠ some '\n' ∧ Rule.drawStyle.Matches (v ++ t) g [] := by
  rcases mem_notes_drawStyle h with ⟨b, hs, hb⟩ | ⟨b, w, q, hs, hb, hw, hq, -⟩
  · obtain ⟨g, hg⟩ := matches_drawStyle_filled_red hb
    refine ⟨b, _, g, hs, ?_, hg⟩
    cases b with
    | nil => decide
    | cons c b =>
      rintro ⟨⟩
      exact absurd (hb _ List.mem_cons_self) (by decide)
  · obtain ⟨g, hg⟩ := matches_drawStyle_of_words hb hw hq isRun_red
    refine ⟨b ++ (w ++ q), "red".toList, g, by simp [hs], ?_, by simpa using hg⟩
    intro hhead
    have hmem : '\n' ∈ b ++ w := by
      obtain ⟨c, w, rfl⟩ := List.exists_cons_of_ne_nil hw.1
      cases b with
      | nil => cases hhead; simp
      | cons d b => cases hhead; simp
    rcases List.mem_append.1 hmem with hmem | hmem
    · exact absurd (hb _ hmem) (by decide)
    · exact absurd (hw.2 _ hmem) (by decide)

/-- A shape is completed by its style line, or by what is missing there. -/
theorem exists_shapeHead_of_failsInside (h : FailsInside s n) : ∃ v t f, s = v ++ n.rest ∧
    v ≠ [] ∧ shapeHead.parse (v ++ t) = some (f, []) := by
  obtain ⟨b, kind, w, g, a, rfl, hb, hcomment, hcases⟩ := h
  have hw : w = g.toList ++ a := hcomment.toList_append.symm
  have hne {t : List Char} : b ++ (kind.keyword.toList ++ t) ≠ [] := by
    cases kind <;> simp [ShapeKind.keyword]
  rcases hcases with ⟨-, hrest, -⟩ | ⟨u, hdrop, hstyle⟩
  · have hline : dropLineEnd? "\nfilled red".toList = some "filled red".toList := rfl
    obtain ⟨style, hstyle⟩ := matches_drawStyle_filled_red isBlankLine_nil
    obtain ⟨f, hf⟩ := exists_parse_shapeHead kind hb
      (matches_comment_of_atLineEnd hcomment (atLineEnd_of_dropLineEnd? hline)) hline hstyle
    exact ⟨b ++ (kind.keyword.toList ++ g.toList), "\nfilled red".toList, f, by simp [hw, hrest],
      hne, by simpa using hf⟩
  · obtain ⟨v, t, style, rfl, hhead, hstyle⟩ := exists_drawStyle_of_note hstyle
    obtain ⟨brk, ha, -⟩ := dropLineEnd?_eq_some_iff.1 hdrop
    have hdrop' := dropLineEnd?_exchange (ha ▸ hdrop) hhead
    obtain ⟨f, hf⟩ := exists_parse_shapeHead kind hb
      (matches_comment_of_atLineEnd hcomment (atLineEnd_of_dropLineEnd? hdrop')) hdrop' hstyle
    exact ⟨b ++ (kind.keyword.toList ++ (g.toList ++ (brk ++ v))), t, f, by simp [hw, ha],
      hne, by simpa using hf⟩

/-- **An item that is given up can be completed**, or only spacing has been taken of it. -/
theorem exists_item_of_note (h : n ∈ item.notes s) : n.Opens s ∨
    ∃ v t f, s = v ++ n.rest ∧ v ≠ [] ∧ item.parse (v ++ t) = some (f, []) := by
  rcases mem_notes_item_cases h with ⟨hopens, -⟩ | ⟨-, u, form, hdrop, hwants⟩ | ⟨hend, hinside⟩
  · exact .inl hopens
  · obtain ⟨brk, rfl, -⟩ := dropLineEnd?_eq_some_iff.1 hdrop
    obtain ⟨v, t, g, hv, hne, hg⟩ := exists_transform_of_wantsNumber
      (b := u.takeWhile isBlank) (fun c => of_mem_takeWhile) hwants
    have hu : u.takeWhile isBlank ++ (v ++ n.rest) = u := by
      rw [← hv, List.takeWhile_append_dropWhile]
    have hbegins := (beginsAs_append_of_ne_nil hne t n.rest).append (u.takeWhile isBlank)
    rw [hu] at hbegins
    obtain ⟨f, hf⟩ := exists_parse_lineEnd (hbegins.dropLineEnd? hdrop)
    refine .inr ⟨brk ++ (u.takeWhile isBlank ++ v), t, _, ?_, by simp [hne],
      parse_item_iff.2 (.inl (parse_append_iff.2 ⟨f, _, _, ?_, hg, rfl⟩))⟩
    · rw [List.append_assoc, List.append_assoc, hu]
    · simpa using hf
  · obtain ⟨e, he⟩ := exists_parse_lineEnds_iff.2 ⟨hend, rfl⟩
    obtain ⟨v, t, f, hv, hne, hf⟩ := exists_shapeHead_of_failsInside hinside
    have hs := toList_parse he
    rw [hv] at he hs
    have he' := firm_lineEnds he (beginsAs_append_of_ne_nil hne t n.rest)
    refine .inr ⟨e.toList ++ v, t, _, by rw [List.append_assoc, hs], by simp [hne],
      parse_item_iff.2 (.inr (.inl (parse_append_iff.2 ⟨e, _, f, ?_, hf, rfl⟩)))⟩
    rwa [List.append_assoc]

/-! ## Completions -/

/-- **What stands before a failure of the next item can be completed** to a document. -/
theorem Reaches.exists_completion_of_item (h : Reaches s f t) (hn : n ∈ Pattern.item.notes t) :
    ∃ v u g, s = v ++ n.rest ∧ Rule.document.Matches (v ++ u) g [] := by
  rcases exists_item_of_note hn with ⟨w, hw, hspacing⟩ | ⟨v, u, g, hv, hne, hitem⟩
  · have hreach := h.exchange (hw ▸ beginsAs_of_append w n.rest)
    obtain ⟨g, hg⟩ := hreach.exists_matches_of_isSpacing hspacing
    exact ⟨f.toList ++ w, [], g, by rw [List.append_assoc, ← hw, h.toList_eq], by simpa using hg⟩
  · have hreach := h.exchange (hv ▸ beginsAs_append_of_ne_nil hne u n.rest)
    obtain ⟨g, hg⟩ := (hreach.item hitem).exists_matches_of_isSpacing (by simp)
    exact ⟨f.toList ++ v, u, g, by rw [List.append_assoc, ← hv, h.toList_eq], by simpa using hg⟩

/-- **The furthest failure stands behind good text.** -/
theorem exists_completion_of_tells {far : Furthest} (h : document.parse s = none)
    (hfar : far.Tells s {n | n ∈ document.notes s}) :
    ∃ v u g, s = v ++ far.rest ∧ Rule.document.Matches (v ++ u) g [] := by
  obtain ⟨m, hm⟩ := exists_mem_notes_document h
  obtain ⟨r, hr⟩ := hfar.exists_mem hm (suffix_of_mem_notes hm)
  rcases exists_stuck h with hopens | ⟨f, t, hstuck⟩
  · obtain ⟨⟨v, hv, hspacing⟩, -⟩ := hopens _ hr
    obtain ⟨g, hg⟩ := exists_matches_of_isSpacing hspacing
    exact ⟨v, [], g, hv, by simpa using hg⟩
  rcases hstuck.mem_notes hr with hitem | hend | hpast
  · exact hstuck.reaches.exists_completion_of_item hitem
  · -- only spacing stands before what the end of the text is missed for
    have hrest : far.rest = t.dropWhile isSpacing := congrArg Note.rest hend
    have hspacing : ∀ c ∈ t.takeWhile isSpacing, isSpacing c := fun c => of_mem_takeWhile
    have ht : t.takeWhile isSpacing ++ far.rest = t := by
      rw [hrest, List.takeWhile_append_dropWhile]
    have hbegins := beginsAs_of_append (t.takeWhile isSpacing) far.rest
    have hreach := hstuck.reaches.exchange (ht ▸ hbegins)
    obtain ⟨g, hg⟩ := hreach.exists_matches_of_isSpacing hspacing
    refine ⟨f.toList ++ t.takeWhile isSpacing, [], g, ?_, by simpa using hg⟩
    rw [List.append_assoc, ht, hstuck.reaches.toList_eq]
  · -- nothing fails beyond the items that have been taken
    have hend := hfar.le _ hstuck.endOfText_mem_notes
    have hlength := hend.trans (List.dropWhile_suffix _).length_le
    have ht : far.rest = t := (List.suffix_of_suffix_length_le hfar.suffix
      ⟨f.toList, hstuck.reaches.toList_eq⟩ hlength).eq_of_length_le hpast
    obtain ⟨g, hg⟩ := (hstuck.reaches.exchange (beginsAs_nil t)).exists_matches_of_isSpacing
      (by simp)
    exact ⟨f.toList, [], g, by rw [ht, hstuck.reaches.toList_eq], by simpa using hg⟩

/-- **A syntax error never blames good text.**  A text that the grammar does not match as a document
is refused with an error at an offset, and what stands before that offset can be completed to a
document. -/
theorem exists_completion {source : Source}
    (h : Rule.document.pattern.parse source.text.toList = none) :
    ∃ e v u t g, parse (Document Float) source = .error e ∧ source.text.toList = v ++ u ∧
      byteLength v = e.span.offset ∧ Rule.document.Matches (v ++ t) g [] := by
  obtain ⟨far, v, hfar, hv, hparse⟩ := exists_parse_eq_error h
  obtain ⟨v', t, g, hv', hg⟩ := exists_completion_of_tells h hfar
  obtain rfl := List.append_cancel_right (hv'.symm.trans hv)
  exact ⟨_, v', far.rest, t, g, hparse, hv, (Source.offset_blame_ofFurthest hv).symm, hg⟩

theorem exists_completion_half_shape :
    let source : Source := ⟨"scene", "group\nunit square\nfilled"⟩
    Rule.document.pattern.parse source.text.toList = none ∧
      ∃ e v u t g, parse (Document Float) source = .error e ∧ source.text.toList = v ++ u ∧
        byteLength v = e.span.offset ∧ Rule.document.Matches (v ++ t) g [] := by
  intro source
  have h : Rule.document.pattern.parse source.text.toList = none := by decide +kernel
  exact ⟨h, exists_completion h⟩

end SceneText
