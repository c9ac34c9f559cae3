import SceneText.Proofs.Format.BadNumbers
import SceneText.Proofs.Format.InRange
import SceneText.Proofs.Grammar.Fork

/-!
# Proofs/Format/Locality — errors do not depend on later lines

Every pattern below a group is local, and so is a document (`local_document`).  A group itself is
not: the spacing in front of its keyword may reach behind a line break, where the lack of the
keyword goes unnoticed.  It agrees on texts that fork where the spacing stays before the line break
(`agree_group`); where it does not, a document takes the same spacing, and looks for the end of the
text behind it.

So a text that is no document is refused for the same reason whatever stands on the lines behind the
one where it goes wrong (`finding_ignores_later_lines`).
-/

namespace SceneText

open Pattern

variable {k : Fork} {s s' t u u' v w z : List Char} {f : Forest} {far : Furthest} {r : Rule}

namespace Pattern

/-! ## Transforms -/

theorem inLine_blank : blank.InLine := by
  intro s f t h
  obtain ⟨c, hc, -, rfl⟩ := parse_char_iff.1 h
  simpa [Forest.toList] using isLineBreak_of_isBlank hc

theorem local_form (form : TransformForm) : form.rule.pattern.Local := by
  have htag : ∀ c ∈ form.tag.toList, isLineBreak c = false := fun c hc =>
    (inWords_isAlpha c (form.isRun_tag.2 c hc)).2
  have hoperands (n : Nat) : (withOperands (Pattern.text form.tag) n).Local ∧
      (withOperands (Pattern.text form.tag) n).InLine := by
    induction n with
    | zero => exact ⟨local_word htag, inLine_word htag⟩
    | succ n ih =>
      exact ⟨(ih.1.append local_gap (.inr ih.2)).append_rule (local_token _ _),
        (ih.2.append inLine_gap).append (inLine_token inWords_isNumberChar _)⟩
  rw [form.pattern_rule]
  exact (hoperands _).1.rule

theorem local_transform : transform.Local := by
  have hforms : (rotate <|> scale <|> translate).Local :=
    (local_form .rotate).orElse ((local_form .scale).orElse (local_form .translate))
  exact ((local_blanks.append hforms (.inr inLine_blanks)).append_many local_blanks).rule

theorem local_transformItem : transformItem.Local := local_lineEnd.append_rule local_transform

theorem local_transforms : transforms.Local :=
  (local_transform.append_many (local_transformItem.many rfl)).rule

/-- A transform that is looked for behind the line break is taken there, if it is found. -/
theorem local_trailing : (ahead transformItem ++ lineEnd ++ transforms).Local := by
  intro k s s' hs
  have hahead (h : k.Agree (ahead transformItem) s s') :
      k.Agree (ahead transformItem ++ lineEnd ++ transforms) s s' :=
    (h.append_vocal local_lineEnd (vocal_rule _ _)).append_vocal local_transforms (vocal_rule _ _)
  cases local_transformItem hs with
  | noted hn hle => exact hahead (.noted hn hle)
  | fails h h' hnotes =>
    exact hahead (.fails (by simp [Pattern.parse, h]) (by simp [Pattern.parse, h']) hnotes)
  | takes h h' _ hnotes =>
    exact hahead (.takes (parse_ahead_iff.2 ⟨Option.isSome_of_eq_some h, rfl, rfl⟩)
      (parse_ahead_iff.2 ⟨Option.isSome_of_eq_some h', rfl, rfl⟩) hs hnotes)
  | @taken f t h hle =>
    obtain ⟨f₁, mid, f₂, hend, htransform, -⟩ := parse_append_iff.1 h
    obtain ⟨g, t', hmore⟩ := exists_parse_many transformItem t
    have hlook : (ahead transformItem).parse s = some (.nil, s) :=
      parse_ahead_iff.2 ⟨Option.isSome_of_eq_some h, rfl, rfl⟩
    have hlist : transforms.parse mid = some (.node .transforms (f₂ ++ g) .nil, t') :=
      parse_rule_iff.2 ⟨_, parse_append_iff.2 ⟨_, _, _, htransform, hmore, rfl⟩, rfl⟩
    exact .taken (parse_append_iff.2 ⟨_, _, _, parse_append_iff.2 ⟨_, _, _, hlook, hend, rfl⟩,
      hlist, rfl⟩) ((suffix_of_parse hmore).length_le.trans hle)

theorem local_trailingTransforms : trailingTransforms.Local := local_trailing.opt.rule

/-! ## Shapes -/

theorem local_comment : comment.Local := by
  have hname : (gap ++ name).Local := local_gap.append_rule (local_inLine.many rfl).rule
  exact (hname.orElse ((local_char _).absent inLine_blank rfl)).rule

theorem local_drawStyle : drawStyle.Local := by
  have hline : (blanks ++ styleName).InLine :=
    inLine_blanks.append (inLine_token inWords_isAlpha _)
  have hstyle : (blanks ++ styleName ++ gap).Local :=
    (local_blanks.append_rule (local_token _ _)).append local_gap (.inr hline)
  exact ((hstyle.append_rule (local_token _ _)).append_many local_blanks).rule

theorem local_shape : shape.Local := by
  have hkeyword (kind : ShapeKind) : (text kind.keyword).Local :=
    local_word kind.isLineBreak_keyword
  have hkinds : (unitSquare <|> unitCircle).Local :=
    (hkeyword .unitSquare).rule.orElse (hkeyword .unitCircle).rule
  have hheader : (blanks ++ (unitSquare <|> unitCircle) ++ comment).Local :=
    (local_blanks.append hkinds (.inr inLine_blanks)).append_rule local_comment
  exact (((hheader.append_rule local_lineEnd).append_rule local_drawStyle).append_rule
    local_trailingTransforms).rule

theorem local_shapes : shapes.Local :=
  (local_shape.append_many ((local_lineEnds.append_rule local_shape).many rfl)).rule

/-! ## Groups -/

/-- **A group agrees** where the spacing in front of it ends before the line break. -/
theorem agree_group (hs : k.Parts s s')
    (hlt : k.left.length < (s.dropWhile isSpacing).length) : k.Agree group s s' := by
  have hkeyword : k.Agree (many (blank <|> newline) ++ text "group") s s' := by
    refine (local_spacing hs).append (fun _ _ _ _ ht => local_word isLineBreak_group ht)
      fun f t hspacing hle _ => ?_
    rw [exists_parse_spacing_iff.1 ⟨f, hspacing⟩] at hle
    exact absurd hlt hle.not_gt
  have hmembers : (opt (oneOrMore lineEnd ++ shapes)).Local :=
    (local_lineEnds.append_rule local_shapes).opt
  exact (((hkeyword.append_vocal local_comment (vocal_rule _ _)).append_vocal
    local_trailingTransforms (vocal_rule _ _)).append_vocal hmembers (total_opt _).vocal).rule hs

theorem local_groupSeparator : groupSeparator.Local :=
  local_lineEnd.append local_lineEnds (.inl vocal_lineEnds)

/-- A group behind an empty line agrees on the same condition. -/
theorem agree_laterGroup (hs : k.Parts s s')
    (hlt : k.left.length < (s.dropWhile isSpacing).length) :
    k.Agree (groupSeparator ++ group) s s' := by
  refine (local_groupSeparator hs).append (fun f t t' hsep ht => agree_group ht ?_)
    fun _ _ _ _ hnone => vocal_rule _ _ hnone
  obtain ⟨_, _, -, -, rfl⟩ := exists_parse_groupSeparator_iff.1 ⟨f, hsep⟩
  rwa [dropWhile_dropWhile isSpacing_of_isLineBreak]

/-- What is left of a text has its spacing end no earlier. -/
theorem length_dropWhile_le {is : Char → Bool} (h : t <:+ u) :
    (t.dropWhile is).length ≤ (u.dropWhile is).length := by
  obtain ⟨w, rfl⟩ := h
  rw [List.dropWhile_append]
  split
  · exact le_rfl
  · exact ((List.dropWhile_suffix is).length_le).trans (List.suffix_append _ _).length_le

/-- **Groups agree** where the spacing behind them ends before the line break. -/
theorem agree_groups (hs : k.Parts s s')
    (h : (opt (group ++ many (groupSeparator ++ group))).parse s = some (f, t))
    (hlt : k.left.length < (t.dropWhile isSpacing).length) :
    k.Agree (opt (group ++ many (groupSeparator ++ group))) s s' := by
  have hgroup : k.Agree group s s' :=
    agree_group hs (hlt.trans_le (length_dropWhile_le (suffix_of_parse h)))
  refine Fork.Agree.opt (hgroup.append (fun g mid mid' hfirst hmid => ?_)
    fun _ _ _ _ hnone => (total_many _).vocal hnone) hs
  obtain ⟨g', u, hmore⟩ := exists_parse_many (groupSeparator ++ group) mid
  obtain rfl : t = u := by
    rcases parse_opt_iff.1 h with h | ⟨hnone, -⟩
    · rw [parse_append_iff.2 ⟨_, _, _, hfirst, hmore, rfl⟩] at h
      cases h
      rfl
    · rw [parse_append_iff.2 ⟨_, _, _, hfirst, hmore, rfl⟩] at hnone
      cases hnone
  exact .many rfl ((parse_many_iff rfl).1 hmore)
    (fun u u' htu hu => agree_laterGroup hu (hlt.trans_le (length_dropWhile_le htu))) hmid

/-- **A document is local.** -/
theorem local_document : document.Local := by
  intro k s s' hs
  have hbody : k.Agree documentBody s s' := by
    refine Fork.Agree.append_vocal ?_ local_atEnd.rule (vocal_rule _ _)
    have hgroups := total_opt (group ++ many (groupSeparator ++ group)) s
    obtain ⟨⟨f, t⟩, h⟩ := Option.isSome_iff_exists.1 hgroups
    rcases Nat.lt_or_ge k.left.length (t.dropWhile isSpacing).length with hlt | hle
    · exact (agree_groups hs h hlt).append_vocal local_spacing (total_many _).vocal
    · obtain ⟨g, hspacing⟩ := exists_parse_spacing_iff.2 (rfl : _ = t.dropWhile isSpacing)
      exact .taken (parse_append_iff.2 ⟨_, _, _, h, hspacing, rfl⟩) hle
  exact hbody.rule hs

end Pattern

/-! ## Failed matches -/

/-- **A local rule that fails before the line break fails for the same rules** in both texts. -/
theorem Rule.nodes_of_parts (hr : r.pattern.Local) (hs : k.Parts s s')
    (h : r.nodes s = .error far) (hlt : k.left.length < far.rest.length) :
    ∃ far', r.nodes s' = .error far' ∧ k.PartsRecord far far' := by
  obtain ⟨hnone, rfl⟩ := Rule.nodes_eq_error_iff.1 h
  cases hr hs with
  | noted hn hle => exact absurd (((tells_search r.pattern s).le _ hn).trans hle) hlt.not_ge
  | taken h => cases hnone.symm.trans h
  | takes h => cases hnone.symm.trans h
  | fails _ hnone' hnotes =>
    refine ⟨_, Rule.nodes_eq_error_iff.2 ⟨hnone', rfl⟩, ?_⟩
    rw [search_eq_foldl, search_eq_foldl]
    exact .foldl hnotes ⟨rfl, hs⟩

/-- **What a failed match tells** does not depend on what stands behind a line break, and its label
ends with the line break at the latest. -/
theorem exists_ofFurthest_eq {c : Char} (hc : isLineBreak c) (v w : List Char)
    (rules : List Rule) : ∃ e : Finding, e.span.offset = byteLength v ∧
      e.span.length ≤ byteLength (w ++ [c]) ∧
      ∀ z, Finding.ofFurthest (v ++ (w ++ c :: z)) ⟨w ++ c :: z, rules⟩ = e := by
  have hspace : whiteSpace.has c = true := whiteSpace_of_isSpacing (isSpacing_of_isLineBreak c hc)
  have hword (z : List Char) : (w ++ c :: z).takeWhile (fun c => !whiteSpace.has c) =
      w.takeWhile fun c => !whiteSpace.has c := by
    rw [List.takeWhile_append, List.takeWhile_cons_of_neg (by simp [hspace]), List.append_nil]
    exact ite_eq_right_iff.2 fun h => ((List.takeWhile_prefix _).eq_of_length h).symm
  have hhead (z : List Char) : (w ++ c :: z).head? = (w ++ [c]).head? := by cases w <;> rfl
  refine ⟨.ofFurthest (v ++ (w ++ [c])) ⟨w ++ [c], rules⟩,
    (Finding.offset_ofFurthest _ _).trans (Furthest.offset_eq rfl), ?_, fun z => ?_⟩
  · have hone : 1 ≤ byteLength (w ++ [c]) := one_le_byteLength (by simp)
    have hle : byteLength (w.takeWhile fun c => !whiteSpace.has c) ≤ byteLength (w ++ [c]) := by
      have hsplit := List.takeWhile_append_dropWhile (p := fun c => !whiteSpace.has c) (l := w)
      have hlength := congrArg byteLength hsplit
      rw [byteLength_append] at hlength ⊢
      omega
    simp only [Finding.ofFurthest, hword]
    split
    · exact max_le hle hone
    · split <;> exact hone
  · simp only [Finding.ofFurthest, Furthest.offset_eq rfl, Furthest.expected, hword, hhead]
    congr

/-- A finding that lies inside a source is shown as it is. -/
theorem Source.blame_of_append {source : Source} {e : Finding}
    (h : source.text.toList = v ++ (w ++ u)) (hoffset : e.span.offset = byteLength v)
    (hlength : e.span.length ≤ byteLength w) : source.blame e = ⟨e, source⟩ := by
  obtain ⟨fault, offset, length⟩ := e
  obtain rfl : offset = byteLength v := hoffset
  rw [blame, clamp_of_append h hlength]

theorem parse_of_nodes_eq_error {source : Source}
    (h : Rule.document.nodes source.text.toList = .error far) :
    parse (Document Float) source =
      .error (source.blame (.ofFurthest source.text.toList far)) := by
  have hread : readText (Document Float) source.text.toList =
      .error (.ofFurthest source.text.toList far) := by
    simp only [readText, wholeNode, Textual.rule, h]
    rfl
  rw [parse, hread]
  rfl

/-- Where a document fails before a line break, its error is told by what stands before that, and by
the rules that were expected. -/
theorem exists_finding_of_nodes {c : Char} (hc : isLineBreak c) (v w : List Char)
    (rules : List Rule) : ∃ e : Finding, e.span.offset = byteLength v ∧
      ∀ (source : Source) (z : List Char), source.text.toList = v ++ (w ++ c :: z) →
        Rule.document.nodes source.text.toList = .error ⟨w ++ c :: z, rules⟩ →
        parse (Document Float) source = .error ⟨e, source⟩ := by
  obtain ⟨e, hoffset, hlength, he⟩ := exists_ofFurthest_eq hc v w rules
  refine ⟨e, hoffset, fun source z hs h => ?_⟩
  have hline : source.text.toList = v ++ ((w ++ [c]) ++ z) := by simp [hs]
  have hfinding : Finding.ofFurthest source.text.toList ⟨w ++ c :: z, rules⟩ = e := hs ▸ he z
  rw [parse_of_nodes_eq_error h, hfinding, Source.blame_of_append hline hoffset hlength]

/-- **Errors are local.**  Where a text fails to be a document, everything behind a line end that
the failure does not lie behind may be replaced by any text: both are refused with the same fault,
shown by the same stretch. -/
theorem finding_ignores_later_lines {source source' : Source} {brk : List Char}
    (h : Rule.document.nodes source.text.toList = .error far)
    (hs : source.text.toList = v ++ (w ++ (brk ++ z)))
    (hoffset : far.offset source.text.toList = byteLength v)
    (hbrk : dropLineEnd? (brk ++ z) = some z)
    (hs' : source'.text.toList = v ++ (w ++ (brk ++ t))) :
    ∃ e : Finding, e.span.offset = byteLength v ∧
      parse (Document Float) source = .error ⟨e, source⟩ ∧
      parse (Document Float) source' = .error ⟨e, source'⟩ := by
  obtain ⟨rest, rules⟩ := far
  obtain ⟨v', hv', hoffset'⟩ := exists_offset_of_nodes_eq_error h
  obtain rfl := eq_of_byteLength_eq (hs.symm.trans hv') (hoffset.symm.trans hoffset')
  obtain rfl : w ++ (brk ++ z) = rest := List.append_cancel_left (hs.symm.trans hv')
  -- the two texts part behind the first character of the line end
  obtain ⟨c, b, rfl, hc⟩ : ∃ c b, brk = c :: b ∧ isLineBreak c := by
    obtain ⟨brk', heq, hcases⟩ := dropLineEnd?_eq_some_iff.1 hbrk
    obtain rfl := List.append_cancel_right heq
    rcases hcases with rfl | rfl | ⟨rfl, -⟩
    all_goals exact ⟨_, _, rfl, by decide⟩
  let k : Fork := ⟨c, hc, b ++ z, b ++ t⟩
  have hparts : k.Parts source.text.toList source'.text.toList :=
    ⟨v ++ w, by simp [k, hs], by simp [k, hs']⟩
  have hlt : k.left.length < (w ++ (c :: b ++ z)).length := by
    simp only [k, List.cons_append, List.length_append, List.length_cons]
    omega
  obtain ⟨⟨_, _⟩, h', rfl, w', hw, rfl⟩ :=
    Rule.nodes_of_parts (r := .document) local_document hparts h hlt
  obtain rfl : w = w' := List.append_cancel_right hw
  obtain ⟨e, hoffset, hparse⟩ := exists_finding_of_nodes hc v w _
  exact ⟨e, hoffset, hparse source _ hs h, hparse source' _ hs' h'⟩

theorem finding_ignores_later_lines_merged :
    let source : Source := ⟨"scene", "group\nr é\runit square\nfilled red"⟩
    let source' : Source := ⟨"scene", "group\nr é\r\n?"⟩
    let far : Furthest := ⟨"é\runit square\nfilled red".toList, [.number]⟩
    Rule.document.nodes source.text.toList = .error far ∧
      far.offset source.text.toList = byteLength "group\nr ".toList ∧
      ∃ e : Finding, e.span.offset = byteLength "group\nr ".toList ∧
        parse (Document Float) source = .error ⟨e, source⟩ ∧
        parse (Document Float) source' = .error ⟨e, source'⟩ := by
  intro source source' far
  have h : Rule.document.nodes source.text.toList = .error far := by decide +kernel
  have hs : source.text.toList =
      "group\nr ".toList ++ (['é'] ++ (['\r'] ++ "unit square\nfilled red".toList)) := by
    decide +kernel
  have hoffset : far.offset source.text.toList = byteLength "group\nr ".toList := by decide +kernel
  have hs' : source'.text.toList = "group\nr ".toList ++ (['é'] ++ (['\r'] ++ ['\n', '?'])) := by
    decide +kernel
  exact ⟨h, hoffset, finding_ignores_later_lines h hs hoffset rfl hs'⟩

end SceneText
