import SceneText.Proofs.Format.FirstOffender
import SceneText.Proofs.Format.Operands

/-!
# Proofs/Format/BadNumbers — a word in place of a number

In a text that is read, any number may be replaced by a word that spells no finite number: then the
text is refused (`parse_of_bad_number`).  A word that is a run of the characters of numbers, or does
not begin with one of them, is told as a malformed number, as a whole and where it stands.
-/

namespace SceneText

open Pattern

variable {s t u v w z : List Char} {g : Forest} {n : Note} {o : Operand}

/-! ## A word where a number is wanted -/

theorem whiteSpace_of_isSpacing {c : Char} (h : isSpacing c) : whiteSpace.has c = true := by
  simp only [isSpacing, isBlank, isLineBreak, Bool.or_eq_true, beq_iff_eq] at h
  rcases h with (rfl | rfl) | rfl | rfl <;> rfl

namespace Pattern.WantsNumber

variable {form : TransformForm}

/-- A transform that wants a number notes it. -/
theorem mem_notes_transform (h : WantsNumber form (t.dropWhile isBlank) u) :
    ⟨.number, u⟩ ∈ transform.notes t := by
  obtain ⟨-, hform⟩ := h.notes
  have hforms := parse_transform_eq_none_iff.1 h.parse_transform
  have hmem : ⟨.number, u⟩ ∈ (rotate <|> scale <|> translate).notes (t.dropWhile isBlank) := by
    rw [notes_forms_of_none hforms, List.mem_append, List.mem_append]
    have hn : ⟨.number, u⟩ ∈ form.rule.pattern.notes (t.dropWhile isBlank) := by simp [hform]
    cases form with
    | rotate => exact .inl hn
    | scale => exact .inr (.inl hn)
    | translate => exact .inr (.inr hn)
  have hlt : u.length < t.length := by
    have hle := (List.dropWhile_suffix (l := t) isBlank).length_le
    obtain ⟨ps, b, hs, -, -, hb, -⟩ := h
    have hpos := List.length_pos_iff.2 hb.1
    rw [hs] at hle
    simp only [List.length_append] at hle
    omega
  rw [← notes_transformBody] at hmem
  rw [transform, notes_rule_of_further (parse_rule_eq_none_iff.1 h.parse_transform) hmem hlt]
  exact hmem

/-- The number is wanted behind what opens the text. -/
theorem length_le (hdrop : dropLineEnd? s = some t) (h : WantsNumber form (t.dropWhile isBlank) u) :
    u.length ≤ (s.dropWhile isSpacing).length := by
  obtain ⟨ps, b, hs, -⟩ := h
  have htag : Stops isSpacing (t.dropWhile isBlank) := by
    rw [hs]
    refine form.isRun_tag.stops (fun c hc => ?_) _
    simp [isSpacing, inWords_isAlpha c hc]
  have hspacing : s.dropWhile isSpacing = t.dropWhile isBlank := by
    rw [dropWhile_of_dropLineEnd? isSpacing_of_isLineBreak hdrop,
      ← dropWhile_dropWhile isSpacing_of_isBlank,
      dropWhile_of_stops htag]
  rw [hspacing, hs]
  simp only [List.length_append]
  omega

/-- **Where a form wants a number, an item fails**, and notes nothing behind that place. -/
theorem notes_item (hdrop : dropLineEnd? s = some t)
    (h : WantsNumber form (t.dropWhile isBlank) u) : item.parse s = none ∧
      ⟨.number, u⟩ ∈ item.notes s ∧ ∀ m ∈ item.notes s, u.length ≤ m.rest.length := by
  have hopening : opening s ∈ [some 'r', some 's', some 't'] :=
    opening_of_dropLineEnd? hdrop ▸ h.opening_mem
  have hnone : item.parse s = none := by
    refine Option.eq_none_iff_forall_ne_some.2 fun ⟨f, rest⟩ hparse => ?_
    obtain ⟨_, _, _, hend, htransform, -⟩ :=
      parse_append_iff.1 (parse_transformItem_of_opening hparse hopening)
    obtain ⟨_, hdrop', -⟩ := parse_lineEnd_iff.1 hend
    obtain rfl := Option.some.inj (hdrop.symm.trans hdrop')
    rw [h.parse_transform] at htransform
    cases htransform
  refine ⟨hnone, ?_, fun m hm => ?_⟩
  · rw [mem_notes_item_iff hnone, notes_transformItem hdrop]
    exact .inl h.mem_notes_transform
  · rcases mem_notes_item_cases hm with ⟨hopens, -⟩ | ⟨hr, t', form', hdrop', hwants⟩ | ⟨-, hinside⟩
    · exact (h.length_le hdrop).trans hopens.length_le
    · -- the same form, and it wants one number only
      obtain rfl := Option.some.inj (hdrop.symm.trans hdrop')
      obtain ⟨ps, b, hs, -⟩ := id hwants
      obtain rfl := h.form_eq hs
      have hnotes := h.notes.2.symm.trans hwants.notes.2
      simp only [List.cons.injEq, Note.mk.injEq] at hnotes
      rw [← hnotes.1.2]
    · have hkeyword := opening_dropWhile_isLineBreak s ▸ hinside.opening_eq
      simp [hkeyword] at hopening

end Pattern.WantsNumber

/-! ## Words -/

/-- A word that no white space cuts. -/
structure Unbroken (w : List Char) : Prop where
  ne_nil : w ≠ []
  noSpace : ∀ c ∈ w, whiteSpace.has c = false

namespace Unbroken

variable {w : List Char}

theorem isRun (hw : Unbroken w) : IsRun (!isSpacing ·) w := by
  refine ⟨hw.ne_nil, fun c hc => ?_⟩
  by_contra hspacing
  have hspace := whiteSpace_of_isSpacing (c := c) (by simpa using hspacing)
  rw [hw.noSpace c hc] at hspace
  cases hspace

theorem stops_append {is : Char → Bool} (hw : Unbroken w) (his : ∀ c, is c → isSpacing c)
    (z : List Char) : Stops is (w ++ z) :=
  hw.isRun.stops (fun c hc => by
    by_contra h
    simp [his c (by simpa using h)] at hc) z

end Unbroken

/-- Where a number is expected and a word stands, the whole word is told. -/
theorem Finding.ofFurthest_of_number {far : Furthest} (hs : s = v ++ far.rest)
    (hrest : far.rest = w ++ z) (hw : Unbroken w) (hz : Stops (!isSpacing ·) z)
    (hnumber : .number ∈ far.rules) :
    ofFurthest s far = ⟨.malformedNumber (.ofList w), ⟨byteLength v, byteLength w⟩⟩ := by
  have hexpected : .number ∈ far.expected.filter (· ≠ .endOfText) := by
    simp [Furthest.expected, Rule.mem_all, hnumber]
  have hgoes : far.rest.head?.all isLineBreak = false := by
    have hstops : Stops isLineBreak far.rest :=
      hrest ▸ hw.stops_append isSpacing_of_isLineBreak z
    obtain ⟨c, w', rfl⟩ := List.exists_cons_of_ne_nil hw.ne_nil
    rw [hrest] at hstops ⊢
    exact stops_cons.1 hstops
  have hword : far.rest.takeWhile (fun c => !whiteSpace.has c) = w := by
    rw [hrest]
    refine takeWhile_append_of_stops (fun c hc => by simp [hw.noSpace c hc]) fun c hc => ?_
    have hspacing := hz c hc
    simp only [Bool.not_eq_false'] at hspacing ⊢
    exact whiteSpace_of_isSpacing hspacing
  simp only [ofFurthest]
  rw [if_pos ⟨hexpected, hgoes⟩, hword, Furthest.offset_eq hs,
    max_eq_left (one_le_byteLength hw.ne_nil)]

/-! ## In place of a number -/

namespace Operand.Among

/-- Spacing stands behind the number, or nothing. -/
theorem stops_back (h : o.Among s g) : Stops (!isSpacing ·) o.back := by
  have hspacing {c : Char} (hc : isBlank c) : (!isSpacing c) = false := by simp [isSpacing, hc]
  rw [Operand.back]
  cases hbehind : o.behind with
  | cons q ps =>
    have hgap : IsRun isBlank q.1 := (h.layout q (by simp [Operand.layout, hbehind])).1
    rw [gapped_cons, List.append_assoc]
    exact hgap.stops (fun c hc => hspacing hc) _
  | nil =>
    rw [gapped_nil, List.nil_append]
    cases htrail : o.trail with
    | cons c trail => exact stops_cons.2 (hspacing (h.trail c (by simp [htrail])))
    | nil =>
      intro c hc
      have hbreak := h.atLineEnd_rest c hc
      simp only [Bool.not_eq_false'] at hbreak ⊢
      simp [isSpacing, hbreak]

/-- A number is wanted where the word stands. -/
theorem wantsNumber (h : o.Among s g) (hw : Unbroken w) (hstops : Stops isNumberChar w) :
    WantsNumber o.form ((o.line w).dropWhile isBlank) (w ++ o.back) := by
  have hline : (o.line w).dropWhile isBlank = o.form.tag.toList ++
      (gapped o.before ++ (o.gap ++ (w ++ o.back))) := by
    rw [Operand.line, gapped_layout]
    refine dropWhile_append_of_stops h.indent ?_
    exact o.form.isRun_tag.stops (fun c hc => (inWords_isAlpha c hc).1) _
  have hlayout := h.layout
  rw [Operand.layout, IsLayout, List.forall_mem_append, List.forall_mem_cons] at hlayout
  obtain ⟨hbefore, ⟨hgap, -⟩, -⟩ := hlayout
  have hlength : o.before.length < o.form.arity := by
    rw [← h.arity, Operand.layout, List.length_append, List.length_cons]
    omega
  refine ⟨o.before, o.gap, hline, hlength, hbefore, hgap,
    hw.stops_append isSpacing_of_isBlank _, ?_⟩
  obtain ⟨c, w', rfl⟩ := List.exists_cons_of_ne_nil hw.ne_nil
  exact stops_cons.2 (stops_cons.1 hstops)

/-- **A word that begins with no character of numbers** is told as a malformed number. -/
theorem parse_of_stops (h : o.Among s g) (hw : Unbroken w) (hstops : Stops isNumberChar w)
    {source : Source} (hsource : source.text.toList = o.text w) :
    parse (Document Float) source = .error
      ⟨⟨.malformedNumber (.ofList w), ⟨byteLength o.front, byteLength w⟩⟩, source⟩ := by
  obtain ⟨hreaches, hdrop⟩ := h.exchange w
  have hwants := h.wantsNumber hw hstops
  obtain ⟨hnone, hnumber, hle⟩ := hwants.notes_item hdrop
  have hopening : opening (o.brk ++ o.line w) ∈ [some 'r', some 's', some 't'] :=
    opening_of_dropLineEnd? hdrop ▸ hwants.opening_mem
  have hstuck : Stuck source.text.toList o.items (o.brk ++ o.line w) := by
    refine ⟨hsource ▸ hreaches, hnone, fun hall => ?_⟩
    rw [opening_of_forall_isSpacing hall] at hopening
    simp at hopening
  have hnote := hstuck.mem_notes_of_item hnumber
  obtain ⟨far, v, hfar, hv, hparse⟩ := exists_parse_eq_error hstuck.parse_document
  have hrest : far.rest = w ++ o.back := hfar.rest_eq hnote (suffix_of_mem_notes hnote)
    (hstuck.length_le_of_mem_notes (hwants.length_le hdrop) hle)
  obtain rfl : v = o.front := by
    refine (List.append_left_inj (w ++ o.back)).1 ?_
    rw [← hrest, ← hv, hrest, hsource, o.text_eq]
  have hfinding := Finding.ofFurthest_of_number hv hrest hw h.stops_back
    ((hfar.mem_rules_iff .number).2 (hrest ▸ hnote))
  rw [hparse, hfinding, Source.blame, Source.clamp_of_append (hrest ▸ hv) le_rfl]

end Operand.Among

/-! ## A run of the characters of numbers -/

/-- What a word offends with does not depend on where it stands. -/
theorem Offence.exists_of_text_eq {n n' : Node} {e : Finding} (h : Offence n e)
    (hword : n.rule.isWord) (hr : n'.rule = n.rule) (htext : n'.text = n.text) :
    ∃ e', Offence n' e' := by
  cases h with
  | number hn hnone => exact ⟨_, .number (hr.trans hn) (htext ▸ hnone)⟩
  | style hn hnone => exact ⟨_, .style (hr.trans hn) (htext ▸ hnone)⟩
  | color hn hnone => exact ⟨_, .color (hr.trans hn) (htext ▸ hnone)⟩
  | group hn =>
    rw [hn] at hword
    cases hword

namespace Operand.Among

variable {source source' : Source} {d : Document Float} {g' : Forest}

/-- A group in the text has shapes, as it had. -/
theorem exists_shape (h : o.Among source.text.toList g)
    (hg : Rule.document.Matches source.text.toList g [])
    (hparse : parse (Document Float) source = .ok d)
    (hg' : Rule.document.Matches (o.text w) g' []) (hmarks : g'.marks [] = o.marks w)
    {n : Node} (hn : n.Within ⟨.document, 0, g'⟩) (hr : n.rule = .group) :
    ∃ m : Node, m.Within n ∧ m.rule = .shape := by
  have hroot : (⟨.document, 0, g⟩ : Node).Matched := ⟨⟨_, rfl⟩, _, _, hg⟩
  have hfilled : Filled (blocks (g.marks [])) := (filled_blocks_iff hg).2 fun n hn hr =>
    ((hroot.within hn).sound_iff.2 fun e => not_offence_of_parse_eq_ok hg hparse hn).group hr
  rw [h.marks, ← o.blocks_marks w, ← hmarks] at hfilled
  exact (filled_blocks_iff hg').1 hfilled n hn hr

/-- **Nothing but the word offends** in a text that is read but for that word. -/
theorem eq_of_offence (h : o.Among source.text.toList g)
    (hg : Rule.document.Matches source.text.toList g [])
    (hparse : parse (Document Float) source = .ok d)
    (hg' : Rule.document.Matches (o.text w) g' []) (hmarks : g'.marks [] = o.marks w)
    {n : Node} {e : Finding} (hn : n.Within ⟨.document, 0, g'⟩) (he : Offence n e) :
    e = ⟨.malformedNumber (.ofList w), ⟨byteLength o.front, byteLength w⟩⟩ := by
  by_cases hgroup : n.rule = .group
  · obtain ⟨m, hm, hshape⟩ := exists_shape h hg hparse hg' hmarks hn hgroup
    cases he with
    | group _ hnone => exact absurd hshape (hnone m hm)
    | number hr | style hr | color hr => simp [hr] at hgroup
  have hword : n.rule.isWord := by
    have hrule := he.rule_mem
    simp only [offenders, List.mem_cons, List.not_mem_nil, hgroup, or_false] at hrule
    rcases hrule with hr | hr | hr <;> rw [hr] <;> rfl
  obtain ⟨a, z, htext, hstart, hmark⟩ := exists_marks_of_within hg' hn fun hr => by
    rw [hr] at hword
    cases hword
  rw [Rule.mark_of_isWord hword, List.forall_mem_singleton, hmarks] at hmark
  rcases o.mem_marks w hmark with hself | ⟨m₀, hm₀, hlabel⟩
  · -- it is the word itself, at its place
    obtain ⟨hr, rfl, rfl⟩ := Mark.mk.inj hself
    rw [o.text_eq] at htext
    obtain rfl := List.append_cancel_right htext
    cases he with
    | number => rw [Finding.malformedNumber, Finding.ofWord, hstart]
    | style hr' | color hr' | group hr' => simp [hr] at hr'
  · -- the same word stands in the text that is read
    rw [← h.marks] at hm₀
    obtain ⟨n₀, hn₀, _, _, -, -, hm₀⟩ := exists_within_of_mem_marks hg hm₀
    obtain ⟨hrule, hsame⟩ := Prod.mk.inj hlabel
    have hr₀ : n₀.rule = n.rule := (Rule.eq_of_mem_mark hm₀).symm.trans hrule
    rw [Rule.mark_of_isWord (hr₀ ▸ hword), List.mem_singleton] at hm₀
    have htext₀ : n₀.text = n.text := by
      rw [hm₀] at hsame
      exact hsame
    obtain ⟨e₀, he₀⟩ := he.exists_of_text_eq hword hr₀ htext₀
    exact absurd he₀ (not_offence_of_parse_eq_ok hg hparse hn₀)

/-- **A run of the characters of numbers that spells none** is told as a malformed number. -/
theorem parse_of_isRun (h : o.Among source.text.toList g)
    (hg : Rule.document.Matches source.text.toList g [])
    (hparse : parse (Document Float) source = .ok d) (hw : IsRun isNumberChar w)
    (hbad : ∀ x, ¬ Spells w x) (hsource' : source'.text.toList = o.text w) :
    parse (Document Float) source' = .error
      ⟨⟨.malformedNumber (.ofList w), ⟨byteLength o.front, byteLength w⟩⟩, source'⟩ := by
  obtain ⟨g', hg', hmarks⟩ := h.exists_matches hw
  have hmatch : Rule.document.Matches source'.text.toList g' [] := hsource' ▸ hg'
  cases hparse' : parse (Document Float) source' with
  | ok d' =>
    have hmark := hmarks ▸ o.mem_marks_self w
    obtain ⟨n, hn, _, _, -, -, hm⟩ := exists_within_of_mem_marks hg' hmark
    have hr : n.rule = .number := (Rule.eq_of_mem_mark hm).symm
    rw [hr, Rule.mark_of_isWord rfl, List.mem_singleton] at hm
    obtain ⟨-, htext, -⟩ := Mark.mk.inj hm
    exact absurd (Offence.number hr (htext ▸ hbad)) (not_offence_of_parse_eq_ok hmatch hparse' hn)
  | error e =>
    obtain ⟨n, hn, he, hesource⟩ := exists_offence_of_parse_eq_error hmatch hparse'
    have hfinding := eq_of_offence h hg hparse hg' hmarks hn he
    obtain ⟨finding, _⟩ := e
    obtain rfl : finding = _ := hfinding
    obtain rfl := hesource
    rfl

end Operand.Among

/-! ## Any other word -/

theorem ownBodies_document : OwnBodies document.bodies := by
  repeat first | exact trivial | refine ⟨rfl, ?_⟩

/-- **What a document misses at a place does not match there.** -/
theorem parse_eq_none_of_mem_notes (h : n ∈ document.notes s) :
    n.rule.pattern.parse n.rest = none := by
  obtain ⟨body, hbody, hnone⟩ := exists_body_of_mem_notes h
  rw [ownBodies_document.pattern_eq hbody]
  exact parse_rule_eq_none_iff.2 hnone

theorem Finding.of_malformedNumber {far : Furthest} {text : String}
    (h : (ofFurthest s far).fault = .malformedNumber text) : .number ∈ far.rules := by
  simp only [ofFurthest] at h
  split at h
  · rename_i hrules
    simp only [Furthest.expected, List.mem_filter, decide_eq_true_eq] at hrules
    exact hrules.1.1.2
  · split at h <;> cases h

theorem eq_of_byteLength_eq {v' u' : List Char} (h : v ++ u = v' ++ u')
    (hlength : byteLength v = byteLength v') : v = v' := by
  rcases List.append_eq_append_iff.1 h with ⟨a, rfl, -⟩ | ⟨a, rfl, -⟩ <;>
  · have ha : byteLength a = 0 := by
      rw [byteLength_append] at hlength
      omega
    simp [byteLength_eq_zero_iff.1 ha]

/-- A malformed number in a text that is no document stands where no number does. -/
theorem stops_of_malformedNumber {source : Source} {e : ParseError} {text : String}
    (hnone : document.parse source.text.toList = none)
    (hparse : parse (Document Float) source = .error e) (hfault : e.fault = .malformedNumber text)
    (hs : source.text.toList = v ++ u) (hoffset : e.span.offset = byteLength v) :
    Stops isNumberChar u := by
  obtain ⟨far, v', hfar, hv', herror⟩ := exists_parse_eq_error hnone
  rw [hparse, Except.error.injEq] at herror
  subst herror
  have hnote := (hfar.mem_rules_iff .number).1 (Finding.of_malformedNumber hfault)
  rw [Source.offset_blame_ofFurthest hv'] at hoffset
  obtain rfl := eq_of_byteLength_eq (hv'.symm.trans hs) hoffset
  obtain rfl := List.append_cancel_left (hv'.symm.trans hs)
  exact parse_token_eq_none_iff.1 (parse_eq_none_of_mem_notes hnote)

/-! ## In place of any number -/

/-- **A word in place of a number is refused.**  In a text that is read, any number may be replaced
by a word that spells no finite number.  Then nothing is read, and the error is a malformed number
at the place of the number, which is then the whole word, exactly if the word is a run of the
characters of numbers or begins with none of them. -/
theorem parse_of_bad_number {source : Source} {d : Document Float} {n : Node}
    (hg : Rule.document.Matches source.text.toList g [])
    (hparse : parse (Document Float) source = .ok d) (hn : n.Within ⟨.document, 0, g⟩)
    (hr : n.rule = .number) :
    ∃ a z, source.text.toList = a ++ (n.text ++ z) ∧ byteLength a = n.start ∧
      ∀ w, Unbroken w → (∀ x, ¬ Spells w x) → ∀ source' : Source,
        source'.text.toList = a ++ (w ++ z) →
          (∃ e, parse (Document Float) source' = .error e) ∧
          ((∀ c ∈ w, isNumberChar c) ∨ Stops isNumberChar w →
            parse (Document Float) source' =
              .error ⟨⟨.malformedNumber (.ofList w), ⟨n.start, byteLength w⟩⟩, source'⟩) ∧
          ∀ e text, parse (Document Float) source' = .error e → e.fault = .malformedNumber text →
            e.span.offset = n.start → (∀ c ∈ w, isNumberChar c) ∨ Stops isNumberChar w := by
  obtain ⟨o, ho, hword, hstart⟩ := exists_operand hg hn hr
  refine ⟨o.front, o.back, ?_, hstart.symm, fun w hw hbad source' hsource' => ?_⟩
  · rw [hword, ← o.text_eq, ho.text_word]
  rw [hstart]
  have htext := hsource'.trans (o.text_eq w).symm
  have hrun (hall : ∀ c ∈ w, isNumberChar c) :=
    ho.parse_of_isRun hg hparse ⟨hw.ne_nil, hall⟩ hbad htext
  have hcases := (Or.elim · hrun fun hstops => ho.parse_of_stops hw hstops htext)
  rcases exists_matches_or_parse_eq_none source'.text.toList with ⟨g', hg'⟩ | hnone
  · have hall := (ho.isRun_of_matches hw.isRun (htext ▸ hg')).2
    exact ⟨⟨_, hrun hall⟩, hcases, fun _ _ _ _ _ => .inl hall⟩
  · obtain ⟨_, _, -, -, herror⟩ := exists_parse_eq_error hnone
    refine ⟨⟨_, herror⟩, hcases, fun e text he hfault hoffset => ?_⟩
    have hstops := stops_of_malformedNumber hnone he hfault hsource' hoffset
    obtain ⟨c, w', rfl⟩ := List.exists_cons_of_ne_nil hw.ne_nil
    exact .inr (stops_cons.2 (stops_cons.1 hstops))

theorem not_spells_of_isNone (hw : (Numeral.read w).isNone) (x : Float) : ¬ Spells w x := by
  rintro ⟨hread, -⟩
  simp [hread] at hw

/-- A text with one number, at the offset 8. -/
def oneNumber : Source := ⟨"scene", "group\nr 1\nunit square\nfilled red"⟩

theorem exists_number_oneNumber : ∃ (g : Forest) (d : Document Float) (n : Node),
    Rule.document.Matches oneNumber.text.toList g [] ∧ parse (Document Float) oneNumber = .ok d ∧
      n.Within ⟨.document, 0, g⟩ ∧ n.rule = .number ∧ n.start = 8 ∧
      oneNumber.text.toList =
        "group\nr ".toList ++ (n.text ++ "\nunit square\nfilled red".toList) := by
  have hok : parse (Document Float) oneNumber =
      .ok ⟨[⟨"", [.rotate 1], [⟨⟨"", ⟨.filled, .red⟩, []⟩, .unitSquare⟩]⟩]⟩ := by decide +kernel
  have hmark : (document.parse oneNumber.text.toList).map (fun m => (m.1.marks []).contains
      ⟨.number, ['1'], "\nunit square\nfilled red".toList⟩) = some true := by decide +kernel
  rcases exists_matches_or_parse_eq_none oneNumber.text.toList with ⟨g, hg⟩ | hnone
  · have hparse : document.parse oneNumber.text.toList = some (.node .document g .nil, []) := hg
    rw [hparse] at hmark
    have hm : ⟨.number, ['1'], "\nunit square\nfilled red".toList⟩ ∈ g.marks [] := by
      simpa [Forest.marks, Forest.toList, Rule.mark, Rule.isWord, Rule.isBlock] using hmark
    obtain ⟨n, hn, a, z, htext, hstart, hm⟩ := exists_within_of_mem_marks hg hm
    have hr : n.rule = .number := (Rule.eq_of_mem_mark hm).symm
    rw [hr, Rule.mark_of_isWord rfl, List.mem_singleton] at hm
    obtain ⟨-, hword, rfl⟩ := Mark.mk.inj hm
    have ha : a = "group\nr ".toList := by
      rw [← hword] at htext
      exact ((List.append_left_inj _).1 htext).symm
    subst ha
    exact ⟨g, _, n, hg, hok, hn, hr, hstart, htext⟩
  · rw [hnone] at hmark
    cases hmark

theorem parse_of_bad_number_letter : ∃ (g : Forest) (d : Document Float) (n : Node),
    Rule.document.Matches oneNumber.text.toList g [] ∧ parse (Document Float) oneNumber = .ok d ∧
      n.Within ⟨.document, 0, g⟩ ∧ n.rule = .number ∧
      ∃ a z, oneNumber.text.toList = a ++ (n.text ++ z) ∧ byteLength a = n.start ∧
        ∀ source' : Source, source'.text.toList = a ++ (['x'] ++ z) →
          parse (Document Float) source' =
            .error ⟨⟨.malformedNumber "x", ⟨n.start, 1⟩⟩, source'⟩ := by
  obtain ⟨g, d, n, hg, hok, hn, hr, -, -⟩ := exists_number_oneNumber
  obtain ⟨a, z, htext, hstart, hbad⟩ := parse_of_bad_number hg hok hn hr
  refine ⟨g, d, n, hg, hok, hn, hr, a, z, htext, hstart, fun source' hsource' => ?_⟩
  have hword : Unbroken ['x'] := ⟨List.cons_ne_nil _ _, forall_eq_false_of_all rfl⟩
  exact (hbad ['x'] hword (not_spells_of_isNone (by decide +kernel)) source' hsource').2.1
    (.inl (isRun_of_all rfl rfl).2)

/-- **A comma parts a number**: what is replaced by such a word is not told as a malformed
number. -/
theorem not_malformedNumber_of_comma : ¬ ∀ (source : Source) (g : Forest) (d : Document Float)
    (n : Node) (a z w : List Char) (source' : Source),
    Rule.document.Matches source.text.toList g [] → parse (Document Float) source = .ok d →
    n.Within ⟨.document, 0, g⟩ → n.rule = .number → source.text.toList = a ++ (n.text ++ z) →
    byteLength a = n.start → Unbroken w → (∀ x, ¬ Spells w x) →
    source'.text.toList = a ++ (w ++ z) →
      ∃ e, parse (Document Float) source' = .error e ∧ e.fault = .malformedNumber (.ofList w) ∧
        e.span.offset = n.start := by
  intro h
  obtain ⟨g, d, n, hg, hok, hn, hr, hstart, htext⟩ := exists_number_oneNumber
  have hword : Unbroken "1,5".toList := ⟨List.cons_ne_nil _ _, forall_eq_false_of_all rfl⟩
  obtain ⟨e, he, hfault, -⟩ := h oneNumber g d n _ _ "1,5".toList
    ⟨"scene", "group\nr 1,5\nunit square\nfilled red"⟩ hg hok hn hr htext (hstart.symm ▸ by decide)
    hword (not_spells_of_isNone (by decide +kernel)) (by decide +kernel)
  have hmissing : parse (Document Float) ⟨"scene", "group\nr 1,5\nunit square\nfilled red"⟩ =
      .error ⟨⟨.missingSeparator, ⟨9, 1⟩⟩,
        ⟨"scene", "group\nr 1,5\nunit square\nfilled red"⟩⟩ := by decide +kernel
  rw [hmissing, Except.error.injEq] at he
  subst he
  cases hfault

end SceneText
