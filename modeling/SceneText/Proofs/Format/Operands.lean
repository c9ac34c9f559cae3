import SceneText.Proofs.Format.Marks

/-!
# Proofs/Format/Operands — the numbers of a document, one at a time

Every number in a document stands on the line of a transform among the document's items
(`exists_operand`).  `Operand` names all that stands around it, so that a word can be put in its
place: with another run of letters, digits, signs and points the text is a document still, and marks
what it did but for that word (`Operand.Among.exists_matches`).  With any other word it is none
(`Operand.Among.isRun_of_matches`).
-/

namespace SceneText

open Pattern

variable {s t u w : List Char} {f g : Forest} {n : Node} {m : Mark}

/-! ## Marks of numbers -/

/-- The marks of numbers behind gaps. -/
def operandMarks : List (List Char × List Char) → List Char → List Mark
  | [], _ => []
  | q :: ps, after => ⟨.number, q.2, gapped ps ++ after⟩ :: operandMarks ps after

theorem toList_operandNodes (ps : List (List Char × List Char)) :
    (operandNodes ps).toList = gapped ps := by
  induction ps with
  | nil => rfl
  | cons q ps ih => simp [Forest.toList, ih]

theorem marks_operandNodes (ps : List (List Char × List Char)) (after : List Char) :
    (operandNodes ps).marks after = operandMarks ps after := by
  induction ps with
  | nil => rfl
  | cons q ps ih =>
    rw [operandNodes_cons, Forest.marks_append, Forest.marks_run, List.nil_append, Forest.marks,
      Forest.marks_run, toList_operandNodes, Forest.toList_run, ih]
    rfl

theorem operandMarks_append (ps qs : List (List Char × List Char)) (after : List Char) :
    operandMarks (ps ++ qs) after =
      operandMarks ps (gapped qs ++ after) ++ operandMarks qs after := by
  induction ps with
  | nil => rfl
  | cons q ps ih =>
    have hgapped : gapped (ps ++ qs) = gapped ps ++ gapped qs := List.flatMap_append
    rw [List.cons_append, operandMarks, ih, operandMarks, hgapped, List.append_assoc,
      List.cons_append]

theorem exists_of_mem_operandMarks {ps : List (List Char × List Char)} {after : List Char}
    (hm : m ∈ operandMarks ps after) : ∃ ps₁ q ps₂, ps = ps₁ ++ q :: ps₂ ∧
      m = ⟨.number, q.2, gapped ps₂ ++ after⟩ := by
  induction ps with
  | nil => cases hm
  | cons q ps ih =>
    rcases List.mem_cons.1 hm with rfl | hm
    · exact ⟨[], q, ps, rfl, rfl⟩
    · obtain ⟨ps₁, q', ps₂, rfl, rfl⟩ := ih hm
      exact ⟨q :: ps₁, q', ps₂, rfl, rfl⟩

theorem marks_formNodes (form : TransformForm) (b b' : List Char)
    (ps : List (List Char × List Char)) (after : List Char) :
    (formNodes form b ps b').marks after = operandMarks ps (b' ++ after) := by
  have hform (inner z : List Char) : form.rule.mark inner z = [] := by cases form <;> rfl
  rw [formNodes, Forest.marks_append, Forest.marks_run, List.nil_append, Forest.marks, hform,
    Forest.marks, Forest.marks_run, List.nil_append, List.append_nil, Forest.toList_run,
    marks_operandNodes]

/-- **A transform on the next line**, with the marks of its numbers. -/
theorem exists_parse_transformItem_iff {ms : List Mark} :
    (∃ f, transformItem.parse s = some (f, t) ∧ f.marks t = ms) ↔
      ∃ (b : List Char) (form : TransformForm) (ps : List (List Char × List Char)) (b' : List Char),
        dropLineEnd? s = some (b ++ (form.tag.toList ++ (gapped ps ++ (b' ++ t)))) ∧
        IsBlankLine b ∧ ps.length = form.arity ∧ IsLayout isNumberChar ps ∧ IsBlankLine b' ∧
        Stops isBlank t ∧ Stops isNumberChar (b' ++ t) ∧ operandMarks ps (b' ++ t) = ms := by
  have hmarks {e g : Forest} {u : List Char} (he : lineEnd.parse s = some (e, u)) :
      (e ++ .node .transform g .nil).marks t = g.marks t := by
    obtain ⟨brk, -, -, rfl⟩ := parse_lineEnd_iff.1 he
    exact List.append_nil _
  constructor
  · rintro ⟨_, hparse, rfl⟩
    obtain ⟨e, u, _, hend, htransform, rfl⟩ := parse_append_iff.1 hparse
    obtain ⟨g, hg, rfl⟩ := (Rule.parse_pattern_iff (r := .transform) rfl).1 htransform
    obtain ⟨b, form, ps, b', rfl, hb, hlen, hps, hb', hblank, hstop, rfl⟩ :=
      matches_transform_iff.1 hg
    obtain ⟨_, hdrop, -⟩ := parse_lineEnd_iff.1 hend
    exact ⟨b, form, ps, b', hdrop, hb, hlen, hps, hb', hblank, hstop,
      ((hmarks hend).trans (marks_formNodes form b b' ps t)).symm⟩
  · rintro ⟨b, form, ps, b', hdrop, hb, hlen, hps, hb', hblank, hstop, rfl⟩
    obtain ⟨e, hend⟩ := exists_parse_lineEnd hdrop
    have hg := matches_transform_iff.2
      ⟨b, form, ps, b', rfl, hb, hlen, hps, hb', hblank, hstop, rfl⟩
    exact ⟨_, parse_append_iff.2 ⟨e, _, _, hend,
      (Rule.parse_pattern_iff (r := .transform) rfl).2 ⟨_, hg, rfl⟩, rfl⟩,
      (hmarks hend).trans (marks_formNodes form b b' ps t)⟩

/-! ## The place of a number -/

/-- A number on the line of a transform among the items of a text, with all that stands around
it. -/
structure Operand where
  /-- The record of the items before the line. -/
  items : Forest
  brk : List Char
  indent : List Char
  form : TransformForm
  /-- The numbers before it on the line, each behind a gap. -/
  before : List (List Char × List Char)
  gap : List Char
  word : List Char
  behind : List (List Char × List Char)
  trail : List Char
  /-- The text behind the line. -/
  rest : List Char
  /-- The record of the items behind the line. -/
  more : Forest
  /-- The spacing at the end of the text. -/
  space : List Char

namespace Operand

variable (o : Operand) (w : List Char)

/-- The numbers of the line, with a word in place of the number. -/
def layout : List (List Char × List Char) := o.before ++ (o.gap, w) :: o.behind

/-- The text from the line on, with a word in place of the number. -/
def line : List Char :=
  o.indent ++ (o.form.tag.toList ++ (gapped (o.layout w) ++ (o.trail ++ o.rest)))

/-- The whole text, with a word in place of the number. -/
def text : List Char := o.items.toList ++ (o.brk ++ o.line w)

/-- The text before the number. -/
def front : List Char :=
  o.items.toList ++ (o.brk ++ (o.indent ++ (o.form.tag.toList ++ (gapped o.before ++ o.gap))))

/-- The text behind the number. -/
def back : List Char := gapped o.behind ++ (o.trail ++ o.rest)

theorem gapped_layout : gapped (o.layout w) ++ (o.trail ++ o.rest) =
    gapped o.before ++ (o.gap ++ (w ++ o.back)) := by
  have hgapped : gapped (o.layout w) = gapped o.before ++ gapped ((o.gap, w) :: o.behind) :=
    List.flatMap_append
  rw [hgapped, gapped_cons, back]
  simp only [List.append_assoc]

theorem text_eq : o.text w = o.front ++ (w ++ o.back) := by
  rw [text, line, gapped_layout, front]
  simp only [List.append_assoc]

/-- The marks of the text, with a word in place of the number. -/
def marks : List Mark :=
  o.items.marks (o.brk ++ o.line w) ++
    (operandMarks (o.layout w) (o.trail ++ o.rest) ++ o.more.marks o.space)

theorem operandMarks_layout : operandMarks (o.layout w) (o.trail ++ o.rest) =
    operandMarks o.before (o.gap ++ (w ++ o.back)) ++
      ⟨.number, w, o.back⟩ :: operandMarks o.behind (o.trail ++ o.rest) := by
  rw [layout, operandMarks_append, gapped_cons, List.append_assoc, List.append_assoc]
  rfl

/-- The word is marked. -/
theorem mem_marks_self : ⟨.number, w, o.back⟩ ∈ o.marks w := by
  simp [marks, operandMarks_layout]

/-- **Any other mark says what one says in the text with the number.** -/
theorem mem_marks {m : Mark} (hm : m ∈ o.marks w) :
    m = ⟨.number, w, o.back⟩ ∨ ∃ m₀ ∈ o.marks o.word, m₀.label = m.label := by
  rw [marks, operandMarks_layout] at hm
  rw [marks, operandMarks_layout]
  simp only [List.mem_append, List.mem_cons] at hm ⊢
  rcases hm with hm | (hm | rfl | hm) | hm
  · have hlabel := List.mem_map_of_mem (f := Mark.label) hm
    rw [o.items.map_label_marks _ (o.brk ++ o.line o.word)] at hlabel
    obtain ⟨m₀, hm₀, heq⟩ := List.mem_map.1 hlabel
    exact .inr ⟨m₀, .inl hm₀, heq⟩
  · obtain ⟨ps₁, q, ps₂, hps, rfl⟩ := exists_of_mem_operandMarks hm
    refine .inr ⟨⟨.number, q.2, gapped ps₂ ++ (o.gap ++ (o.word ++ o.back))⟩,
      .inr (.inl (.inl ?_)), rfl⟩
    rw [hps, operandMarks_append]
    simp [operandMarks]
  · exact .inl rfl
  · exact .inr ⟨m, .inr (.inl (.inr (.inr hm))), rfl⟩
  · exact .inr ⟨m, .inr (.inr hm), rfl⟩

/-- The order of blocks does not depend on the word. -/
theorem blocks_marks : blocks (o.marks w) = blocks (o.marks o.word) := by
  have hnone (ps : List (List Char × List Char)) (after : List Char) :
      blocks (operandMarks ps after) = [] := by
    refine List.eq_nil_iff_forall_not_mem.2 fun r hr => ?_
    obtain ⟨hblock, m, hm, rfl⟩ := mem_blocks_iff.1 hr
    obtain ⟨_, _, _, -, rfl⟩ := exists_of_mem_operandMarks hm
    cases hblock
  rw [marks, marks, blocks_append, blocks_append, blocks_append, blocks_append, hnone, hnone,
    o.items.blocks_marks]

/-- **The number stands in a document.** -/
structure Among (s : List Char) (g : Forest) : Prop where
  reaches : Reaches s o.items (o.brk ++ o.line o.word)
  lineEnd : dropLineEnd? (o.brk ++ o.line o.word) = some (o.line o.word)
  indent : IsBlankLine o.indent
  arity : (o.layout o.word).length = o.form.arity
  layout : IsLayout isNumberChar (o.layout o.word)
  trail : IsBlankLine o.trail
  stops : Stops isBlank o.rest
  turns : Repeats Pattern.item o.rest o.more o.space
  spacing : ∀ c ∈ o.space, isSpacing c
  marks : g.marks [] = o.marks o.word

end Operand

/-- An item with a mark stands behind other items, and before others. -/
theorem Reaches.exists_of_mem_marks (h : Reaches s f t) (hturns : Repeats Pattern.item t g u)
    (hm : m ∈ g.marks u) : ∃ g₁ y gi v g₂, g = g₁ ++ (gi ++ g₂) ∧ Reaches s (f ++ g₁) y ∧
      Pattern.item.parse y = some (gi, v) ∧ Repeats Pattern.item v g₂ u ∧ m ∈ gi.marks v := by
  induction hturns generalizing f with
  | stop => cases hm
  | @step t v u gi g₂ hstep hmore ih =>
    have hv : g₂.toList ++ u = v := toList_parse ((parse_many_iff rfl).2 hmore)
    rw [Forest.marks_append, hv, List.mem_append] at hm
    rcases hm with hm | hm
    · exact ⟨.nil, t, gi, v, g₂, rfl, (Forest.append_nil f).symm ▸ h, hstep, hmore, hm⟩
    · obtain ⟨g₁, y, gi', v', g₃, rfl, hreaches, hitem, hmore', hm⟩ := ih (.item h hstep) hm
      exact ⟨gi ++ g₁, y, gi', v', g₃, (Forest.append_assoc _ _ _).symm,
        Forest.append_assoc _ _ _ ▸ hreaches, hitem, hmore', hm⟩

/-- Where items and spacing follow, a line end does, or nothing. -/
theorem atLineEnd_of_repeats (hturns : Repeats item t g u) (hu : ∀ c ∈ u, isSpacing c)
    (ht : Stops isBlank t) : AtLineEnd t := by
  cases hturns with
  | stop =>
    intro c hc
    have hspacing := hu c (List.mem_of_mem_head? hc)
    simpa [isSpacing, ht c hc] using hspacing
  | step hitem _ => exact atLineEnd_of_parse_item hitem

/-- An item's marks stand between those of the items before it and behind it. -/
theorem marks_append_item {y v : List Char} {gi g₂ : Forest} (f : Forest)
    (hitem : item.parse y = some (gi, v)) (hturns : Repeats item v g₂ u) :
    (f ++ (gi ++ g₂)).marks u = f.marks y ++ (gi.marks v ++ g₂.marks u) := by
  have hv : g₂.toList ++ u = v := toList_parse ((parse_many_iff rfl).2 hturns)
  rw [Forest.marks_append f, Forest.toList_append, List.append_assoc, hv, toList_parse hitem,
    Forest.marks_append gi, hv]

/-- A document goes on behind the items that have been taken. -/
theorem Reaches.exists_repeats (h : Reaches s f t) (hg : Rule.document.Matches s g []) :
    ∃ f' u, Repeats Pattern.item t f' u ∧ ∀ c ∈ u, isSpacing c := by
  obtain ⟨f₀, u₀, hlist₀, hu₀, -⟩ := exists_matches_document_iff.1 ⟨g, hg, rfl⟩
  obtain ⟨f', u, hmany⟩ := exists_parse_many Pattern.item t
  have hturns := (parse_many_iff rfl).1 hmany
  have hlist := parse_opt_iff.2 (.inl (h.parse_list hturns))
  rw [hlist, Option.some.injEq] at hlist₀
  cases hlist₀
  exact ⟨f', _, hturns, hu₀⟩

/-- **Every number of a document stands on the line of a transform.** -/
theorem exists_operand (h : Rule.document.Matches s g []) (hn : n.Within ⟨.document, 0, g⟩)
    (hr : n.rule = .number) :
    ∃ o : Operand, o.Among s g ∧ n.text = o.word ∧ n.start = byteLength o.front := by
  obtain ⟨a, z, hs, hstart, hmark⟩ := exists_marks_of_within h hn (by simp [hr])
  rw [hr, Rule.mark_of_isWord rfl, List.forall_mem_singleton] at hmark
  obtain ⟨f, t, f', u, hhead, hturns, hspacing, hmarks⟩ :=
    exists_repeats_of_matches h (List.ne_nil_of_mem hmark)
  have hnot {p : Pattern} {s rest after : List Char} {f : Forest} (hp : Rule.number ∉ p.rules)
      (h : p.parse s = some (f, rest)) : ⟨.number, n.text, z⟩ ∉ f.marks after :=
    fun hm => hp (rule_mem_of_mem_marks h hm)
  rw [hmarks, Forest.marks_append] at hmark
  have hbehind := (List.mem_append.1 hmark).resolve_left (hnot (by decide) hhead)
  obtain ⟨g₁, y, gi, v, g₂, rfl, hreaches, hitem, hmore, hm⟩ :=
    Reaches.exists_of_mem_marks (.head hhead) hturns hbehind
  have htransform : transformItem.parse y = some (gi, v) :=
    (parse_item_iff.1 hitem).resolve_right fun h => h.elim (fun h => hnot (by decide) h hm)
      fun h => hnot (by decide) h hm
  obtain ⟨b, form, ps, b', hdrop, hb, hlen, hps, hb', hblank, -, hms⟩ :=
    exists_parse_transformItem_iff.1 ⟨gi, htransform, rfl⟩
  rw [← hms] at hm
  obtain ⟨ps₁, q, ps₂, rfl, hq⟩ := exists_of_mem_operandMarks hm
  obtain ⟨brk, rfl, -⟩ := dropLineEnd?_eq_some_iff.1 hdrop
  obtain ⟨-, hword, rfl⟩ := Mark.mk.inj hq
  let o : Operand := ⟨f ++ g₁, brk, b, form, ps₁, q.1, q.2, ps₂, b', v, g₂, u⟩
  have htext : o.front ++ (o.word ++ o.back) = s := (o.text_eq o.word).symm.trans hreaches.toList_eq
  refine ⟨o, ⟨hreaches, hdrop, hb, hlen, hps, hb', hblank, hmore, hspacing, ?_⟩, hword, ?_⟩
  · rw [hmarks, ← Forest.append_assoc, marks_append_item _ hitem hmore, ← hms]
    rfl
  · rw [hstart]
    refine congrArg byteLength ((List.append_left_inj (n.text ++ o.back)).1 ?_)
    rw [← htext, hword] at hs
    rw [hword]
    exact hs.symm

theorem inWords_not_isSpacing : InWords (!isSpacing ·) := fun c hc => by
  simpa [isSpacing] using hc

theorem not_isSpacing_of_isNumberChar (c : Char) (hc : isNumberChar c) : (!isSpacing c) = true := by
  simp [isSpacing, inWords_isNumberChar c hc]

namespace Operand.Among

variable {o : Operand}

theorem text_word (h : o.Among s g) : o.text o.word = s := h.reaches.toList_eq

/-- What stands before the number does not depend on it. -/
theorem exchange (h : o.Among s g) (w : List Char) :
    Reaches (o.text w) o.items (o.brk ++ o.line w) ∧
      dropLineEnd? (o.brk ++ o.line w) = some (o.line w) := by
  have hbegins : BeginsAs (o.line w) (o.line o.word) :=
    (beginsAs_append_of_ne_nil o.form.isRun_tag.1 _ _).append o.indent
  exact ⟨h.reaches.exchange (hbegins.append o.brk), hbegins.dropLineEnd? h.lineEnd⟩

theorem atLineEnd_rest (h : o.Among s g) : AtLineEnd o.rest :=
  atLineEnd_of_repeats h.turns h.spacing h.stops

theorem isLayout_layout {is : Char → Bool} (h : o.Among s g) (his : ∀ c, isNumberChar c → is c)
    (hw : IsRun is w) : IsLayout is (o.layout w) := by
  have hlayout := h.layout.mono his
  rw [Operand.layout, IsLayout, List.forall_mem_append, List.forall_mem_cons] at hlayout ⊢
  obtain ⟨hbefore, ⟨hgap, -⟩, hbehind⟩ := hlayout
  exact ⟨hbefore, ⟨hgap, hw⟩, hbehind⟩

/-- **With another run of the characters of numbers** in place of the number, the text is a document
still. -/
theorem exists_matches (h : o.Among s g) (hw : IsRun isNumberChar w) :
    ∃ g', Rule.document.Matches (o.text w) g' [] ∧ g'.marks [] = o.marks w := by
  obtain ⟨hreaches, hdrop⟩ := h.exchange w
  have hlength : (o.layout w).length = o.form.arity := by
    simpa [Operand.layout] using h.arity
  obtain ⟨gi, htransform, hmarks⟩ := exists_parse_transformItem_iff.2 ⟨o.indent, o.form, o.layout w,
    o.trail, hdrop, h.indent, hlength, h.isLayout_layout (fun _ h => h) hw, h.trail, h.stops,
    h.atLineEnd_rest.stops_blanks_append inWords_isNumberChar h.trail, rfl⟩
  have hitem := parse_item_iff.2 (.inl htransform)
  obtain ⟨g', hg', hall⟩ := (hreaches.item hitem).exists_matches h.turns h.spacing
  refine ⟨g', hg', ?_⟩
  rw [hall, Forest.append_assoc, marks_append_item _ hitem h.turns, hmarks]
  rfl

/-- **With any other word** in place of the number, the text is no document. -/
theorem isRun_of_matches (h : o.Among s g) (hw : IsRun (!isSpacing ·) w) {g' : Forest}
    (hg' : Rule.document.Matches (o.text w) g' []) : IsRun isNumberChar w := by
  obtain ⟨hreaches, hdrop⟩ := h.exchange w
  obtain ⟨f', u, hturns, hu⟩ := hreaches.exists_repeats hg'
  have hopening : opening (o.brk ++ o.line w) ∈ [some 'r', some 's', some 't'] :=
    opening_of_dropLineEnd? hdrop ▸ opening_tag o.form h.indent _
  cases hturns with
  | stop =>
    rw [opening_of_forall_isSpacing hu] at hopening
    simp at hopening
  | step hitem hmore =>
    have htransform := parse_transformItem_of_opening hitem hopening
    obtain ⟨b, form, ps, b', hdrop', hb, -, hps, hb', hblank, -, -⟩ :=
      exists_parse_transformItem_iff.1 ⟨_, htransform, rfl⟩
    -- both readings of the line have the same words
    have hline := Option.some.inj (hdrop.symm.trans hdrop')
    have hwords := (firstLine_of_tokens inWords_isAlpha inWords_isNumberChar hb form.isRun_tag hps
      hb' (atLineEnd_of_repeats hmore hu hblank) hline).2
    have hwords' := (firstLine_of_tokens inWords_isAlpha inWords_not_isSpacing h.indent
      o.form.isRun_tag (h.isLayout_layout not_isSpacing_of_isNumberChar hw) h.trail h.atLineEnd_rest
      rfl).2
    have hmap : ps.map Prod.snd = (o.layout w).map Prod.snd :=
      (List.cons.inj (hwords.symm.trans hwords')).2
    have hmem : w ∈ ps.map Prod.snd := by simp [hmap, Operand.layout]
    obtain ⟨q, hq, rfl⟩ := List.mem_map.1 hmem
    exact (hps q hq).2

end Operand.Among

end SceneText
