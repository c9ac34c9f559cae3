import SceneText.Proofs.Format.Stuck

/-!
# Proofs/Format/EmptyLines — groups without an empty line between them

Behind an item, a line that begins with the letter of no transform and no shape is refused
(`Reaches.parse_of_otherWord`): for the line break it lacks if it is not indented, else for the
transform or shape that could stand there.  So is the header of a later group without the empty line
before it (`parse_of_missing_emptyLine`).
-/

namespace SceneText

open Pattern

variable {s t u v ind k brk : List Char} {f g : Forest} {n : Note} {r : Rule} {ns : List Note}

/-! ## Lines that are no transform and no shape -/

/-- The first letter of a text opens no transform and no shape. -/
def OtherWord (k : List Char) : Prop :=
  ∃ c more, k = c :: more ∧ isSpacing c = false ∧ c ∉ ['r', 's', 't', 'u']

theorem OtherWord.stops (h : OtherWord k) : Stops isSpacing k := by
  obtain ⟨c, more, rfl, hc, -⟩ := h
  exact stops_cons.2 hc

theorem OtherWord.opening_notMem (h : OtherWord k) :
    opening k ∉ [some 'r', some 's', some 't', some 'u'] := by
  rw [opening, dropWhile_of_stops h.stops]
  obtain ⟨c, more, rfl, -, hc⟩ := h
  simpa using hc

theorem otherWord_group (more : List Char) : OtherWord ("group".toList ++ more) :=
  ⟨'g', "roup".toList ++ more, rfl, rfl, by decide⟩

namespace Pattern

theorem notes_forms_of_otherWord (h : OtherWord k) :
    (rotate <|> scale <|> translate).parse k = none ∧ (rotate <|> scale <|> translate).notes k =
      [⟨.rotate, k⟩, ⟨.scale, k⟩, ⟨.translate, k⟩] := by
  have htag (form : TransformForm) : ¬ form.tag.toList <+: k := by
    obtain ⟨c, more, rfl, -, hc⟩ := h
    rintro ⟨w, hw⟩
    cases form <;> simp [TransformForm.tag] at hw <;> simp [← hw.1] at hc
  have hnone : (rotate <|> scale <|> translate).parse k = none := by
    refine Option.eq_none_iff_forall_ne_some.2 ?_
    rintro ⟨f, rest⟩ hparse
    obtain ⟨form, hform⟩ := parse_forms_iff.1 hparse
    obtain ⟨g, hg, -⟩ := (Rule.parse_pattern_iff form.pattern_rule).1 hform
    obtain ⟨ps, hs, -⟩ := matches_form_iff.1 hg
    exact htag form ⟨_, hs.symm⟩
  refine ⟨hnone, ?_⟩
  rw [notes_forms_of_none hnone]
  exact congrArg₂ (· ++ ·) (notes_form_of_untagged (htag .rotate)) (congrArg₂ (· ++ ·)
    (notes_form_of_untagged (htag .scale)) (notes_form_of_untagged (htag .translate)))

theorem notes_kinds_of_otherWord (h : OtherWord k) :
    (unitSquare <|> unitCircle).parse k = none ∧ (unitSquare <|> unitCircle).notes k =
      [⟨.unitSquare, k⟩, ⟨.unitCircle, k⟩] := by
  have hword (word : List Char) : (Pattern.word ('u' :: word)).parse k = none := by
    obtain ⟨c, more, rfl, -, hc⟩ := h
    refine parse_word_eq_none_iff.2 ?_
    rintro ⟨w, hw⟩
    simp only [List.cons_append, List.cons.injEq] at hw
    simp [← hw.1] at hc
  have hsquare : unitSquare.parse k = none := parse_rule_eq_none_iff.2 (hword _)
  have hcircle : unitCircle.parse k = none := parse_rule_eq_none_iff.2 (hword _)
  refine ⟨parse_orElse_eq_none_iff.2 ⟨hsquare, hcircle⟩, ?_⟩
  rw [notes_orElse_of_none hsquare]
  exact congrArg₂ (· ++ ·) (notes_rule_eq_singleton (hword _) (notes_eq_nil rfl k))
    (notes_rule_eq_singleton (hword _) (notes_eq_nil rfl k))

/-- Where several rules fail behind blanks, the rule that they belong to stands for them if there
are no blanks. -/
theorem settle_append (hns : ∀ n ∈ ns, n.rest = k) (hlength : 2 ≤ ns.length) :
    settle r (ind ++ k) ns = if ind = [] then [⟨r, k⟩] else ns := by
  have hfurther : (∃ n ∈ ns, n.rest.length < (ind ++ k).length) ↔ ind ≠ [] := by
    obtain ⟨n, ns, rfl⟩ := List.exists_cons_of_length_pos (zero_lt_two.trans_le hlength)
    rw [List.length_append, ← List.length_pos_iff]
    constructor
    · rintro ⟨m, hm, hlt⟩
      rw [hns m hm] at hlt
      omega
    · intro hpos
      exact ⟨n, List.mem_cons_self, by rw [hns n List.mem_cons_self]; omega⟩
  rw [settle]
  by_cases hind : ind = []
  · rw [if_pos hind, if_neg (not_or.2 ⟨by omega, mt hfurther.1 (not_not.2 hind)⟩), hind,
      List.nil_append]
  · rw [if_neg hind, if_pos (.inr (hfurther.2 hind))]

theorem dropWhile_isBlank_otherWord (hind : IsBlankLine ind) (h : OtherWord k) :
    (ind ++ k).dropWhile isBlank = k :=
  dropWhile_append_of_stops hind fun c hc => (Bool.or_eq_false_iff.1 (h.stops c hc)).1

theorem stops_isLineBreak_otherWord (hind : IsBlankLine ind) (h : OtherWord k) :
    Stops isLineBreak (ind ++ k) := by
  cases ind with
  | nil => exact fun c hc => (Bool.or_eq_false_iff.1 (h.stops c hc)).2
  | cons c ind => exact stops_cons.2 (hind.isLineBreak c List.mem_cons_self)

theorem opening_otherWord (hind : IsBlankLine ind) (h : OtherWord k) :
    opening (ind ++ k) ∉ [some 'r', some 's', some 't', some 'u'] := by
  have hopening : opening (ind ++ k) = opening k := by
    rw [opening, opening, List.dropWhile_append_of_pos hind.isSpacing]
  exact hopening ▸ h.opening_notMem

/-- Where no transform stands, each form has been tried behind the blanks. -/
theorem notes_transform_of_otherWord (hind : IsBlankLine ind) (h : OtherWord k) :
    transform.notes (ind ++ k) = if ind = [] then [⟨.transform, k⟩] else
      [⟨.rotate, k⟩, ⟨.scale, k⟩, ⟨.translate, k⟩] := by
  obtain ⟨hnone, hnotes⟩ := notes_forms_of_otherWord h
  have hdrop := dropWhile_isBlank_otherWord hind h
  have hparse : transform.parse (ind ++ k) = none := by
    rw [parse_transform_eq_none_iff, hdrop, hnone]
  rw [transform, notes_rule_of_none (parse_rule_eq_none_iff.1 hparse), notes_transformBody, hdrop,
    hnotes]
  exact settle_append (by simp) (by simp)

/-- Where no shape stands, both keywords have been tried behind the blanks. -/
theorem notes_shapeHead_of_otherWord (hind : IsBlankLine ind) (h : OtherWord k) :
    shapeHead.notes (ind ++ k) = if ind = [] then [⟨.shape, k⟩] else
      [⟨.unitSquare, k⟩, ⟨.unitCircle, k⟩] := by
  obtain ⟨hnone, hnotes⟩ := notes_kinds_of_otherWord h
  have hparse : shapeHead.parse (ind ++ k) = none :=
    Option.eq_none_iff_forall_ne_some.2 fun ⟨_, _⟩ hparse => by
      have hopening := opening_otherWord hind h
      simp [opening_shapeHead hparse] at hopening
  rw [shapeHead, notes_rule_of_none (parse_rule_eq_none_iff.1 hparse), notes_shapeBody,
    dropWhile_isBlank_otherWord hind h, notes_append_of_none hnone, hnotes]
  exact settle_append (by simp) (by simp)

/-- What could stand where a line begins with another letter: behind blanks it is too late for a
line end. -/
def lineRules (ind : List Char) : List Rule :=
  if ind = [] then [.lineEnd, .transform, .shape]
  else [.rotate, .scale, .translate, .unitSquare, .unitCircle]

/-- **What an item notes where a line begins with another letter.** -/
theorem mem_notes_item_of_otherWord (hdrop : dropLineEnd? t = some (ind ++ k))
    (hind : IsBlankLine ind) (h : OtherWord k) :
    item.parse t = none ∧ ∀ r, ⟨r, k⟩ ∈ item.notes t ↔ r ∈ lineRules ind := by
  have hstops := stops_isLineBreak_otherWord hind h
  have hopening : opening t ∉ [some 'r', some 's', some 't', some 'u'] :=
    opening_of_dropLineEnd? hdrop ▸ opening_otherWord hind h
  have hbreaks : t.dropWhile isLineBreak = ind ++ k := by
    rw [dropWhile_of_dropLineEnd? (fun _ h => h) hdrop, dropWhile_of_stops hstops]
  have hsep : groupSeparator.parse t = none :=
    Option.eq_none_iff_forall_ne_some.2 fun ⟨_, _⟩ hsep => by
      obtain ⟨u, v, hu, hv, -⟩ := exists_parse_groupSeparator_iff.1 ⟨_, hsep⟩
      rw [hdrop, Option.some.injEq] at hu
      rw [← hu, dropLineEnd?_eq_none_iff.2 hstops] at hv
      cases hv
  have hgroup : groupItem.parse t = none := parse_append_of_none hsep
  have hnone : item.parse t = none := by
    refine parse_item_eq_none_iff.2 ⟨?_, ?_, hgroup⟩
    · refine Option.eq_none_iff_forall_ne_some.2 fun ⟨_, _⟩ hparse => hopening ?_
      have htag := opening_transformItem hparse
      simp only [List.mem_cons, List.not_mem_nil, or_false] at htag ⊢
      tauto
    · refine Option.eq_none_iff_forall_ne_some.2 fun ⟨_, _⟩ hparse => hopening ?_
      simp [opening_shapeItem hparse]
  refine ⟨hnone, fun r => ?_⟩
  rw [mem_notes_item_iff hnone, notes_transformItem hdrop, mem_notes_shapeItem_iff hdrop, hbreaks,
    groupItem, notes_append_of_none hsep, mem_notes_groupSeparator_iff, hbreaks,
    notes_transform_of_otherWord hind h, notes_shapeHead_of_otherWord hind h, lineRules]
  by_cases hnil : ind = []
  · simp only [hnil, if_true, List.nil_append, List.mem_cons, List.not_mem_nil, or_false,
      Note.mk.injEq, and_true]
    tauto
  · simp [hnil, or_assoc]

end Pattern

/-! ## The error on such a line -/

/-- What is told of a line that begins with another letter. -/
def lineFault (ind : List Char) : Fault :=
  if ind = [] then .missingSeparator
  else .unexpected .rotate (.oneOf [.rotate, .scale, .translate, .unitSquare, .unitCircle] true)

theorem Finding.ofFurthest_of_lineRules {far : Furthest} (hs : s = v ++ far.rest)
    (hrules : ∀ r, r ∈ far.rules ↔ r = .endOfText ∨ r ∈ lineRules ind) :
    ofFurthest s far = ⟨lineFault ind, ⟨byteLength v, 1⟩⟩ := by
  have hexpected : far.expected = Rule.all.filter fun r => r = .endOfText ∨ r ∈ lineRules ind :=
    List.filter_congr fun r _ => by simp [hrules]
  rw [← Furthest.offset_eq hs, ofFurthest, hexpected, lineFault, lineRules]
  by_cases hnil : ind = []
  · simp only [if_pos hnil]
    rfl
  · simp only [if_neg hnil]
    rfl

/-- Where a line begins with another letter, an item notes nothing behind that letter. -/
theorem Note.opens_of_otherWord (hopening : opening t ∉ [some 'r', some 's', some 't', some 'u'])
    (h : n ∈ item.notes t) : n.Opens t := by
  rcases mem_notes_item_cases h with ⟨hopens, -⟩ | ⟨-, u, form, hdrop, hwants⟩ | ⟨-, hinside⟩
  · exact hopens
  · have htag := opening_of_dropLineEnd? hdrop ▸ hwants.opening_mem
    simp only [List.mem_cons, List.not_mem_nil, or_false] at htag hopening
    tauto
  · have hkeyword := opening_dropWhile_isLineBreak t ▸ hinside.opening_eq
    simp [hkeyword] at hopening

theorem Reaches.stuck_of_otherWord (h : Reaches s f t) (hdrop : dropLineEnd? t = some (ind ++ k))
    (hind : IsBlankLine ind) (hk : OtherWord k) : Stuck s f t := by
  refine ⟨h, (mem_notes_item_of_otherWord hdrop hind hk).1, fun hall => ?_⟩
  obtain ⟨brk, rfl, -⟩ := dropLineEnd?_eq_some_iff.1 hdrop
  obtain ⟨c, more, rfl, hc, -⟩ := hk
  simp [hall c (by simp)] at hc

/-- **All that a document notes last** stands at the letter with which such a line begins. -/
theorem Reaches.notes_of_otherWord (h : Reaches s f t) (hdrop : dropLineEnd? t = some (ind ++ k))
    (hind : IsBlankLine ind) (hk : OtherWord k) :
    (∀ m ∈ document.notes s, k.length ≤ m.rest.length) ∧
      ∀ r, ⟨r, k⟩ ∈ document.notes s ↔ r = .endOfText ∨ r ∈ lineRules ind := by
  have hstuck := h.stuck_of_otherWord hdrop hind hk
  have hlt : k.length < t.length :=
    (List.suffix_append ind k).length_le.trans_lt (length_lt_of_dropLineEnd? hdrop)
  have hspacing : t.dropWhile isSpacing = k := by
    rw [dropWhile_of_dropLineEnd? isSpacing_of_isLineBreak hdrop,
      List.dropWhile_append_of_pos hind.isSpacing, dropWhile_of_stops hk.stops]
  have hopening : opening t ∉ [some 'r', some 's', some 't', some 'u'] :=
    opening_of_dropLineEnd? hdrop ▸ opening_otherWord hind hk
  refine ⟨hstuck.length_le_of_mem_notes (by rw [hspacing]) fun m hm =>
    hspacing ▸ (Note.opens_of_otherWord hopening hm).length_le, fun r => ?_⟩
  · rw [← (mem_notes_item_of_otherWord hdrop hind hk).2 r]
    constructor
    · intro hr
      rcases hstuck.mem_notes hr with hr | hr | hpast
      · exact .inr hr
      · exact .inl (congrArg Note.rule hr)
      · exact absurd hpast hlt.not_ge
    · rintro (rfl | hr)
      · exact hspacing ▸ hstuck.endOfText_mem_notes
      · exact hstuck.mem_notes_of_item hr

/-- **A line behind items that begins with another letter is refused** at that letter. -/
theorem Reaches.parse_of_otherWord {source : Source} (h : Reaches source.text.toList f t)
    (hdrop : dropLineEnd? t = some (ind ++ k)) (hind : IsBlankLine ind) (hk : OtherWord k)
    (hv : source.text.toList = v ++ k) : parse (Document Float) source =
      .error ⟨⟨lineFault ind, ⟨byteLength v, 1⟩⟩, source⟩ := by
  obtain ⟨hle, hnotes⟩ := h.notes_of_otherWord hdrop hind hk
  have hend := (hnotes .endOfText).2 (.inl rfl)
  obtain ⟨far, v', hfar, hv', hparse⟩ :=
    exists_parse_eq_error (h.stuck_of_otherWord hdrop hind hk).parse_document
  obtain rfl : far.rest = k := hfar.rest_eq hend (suffix_of_mem_notes hend) hle
  have hrules (r : Rule) : r ∈ far.rules ↔ r = .endOfText ∨ r ∈ lineRules ind :=
    (hfar.mem_rules_iff r).trans (hnotes r)
  obtain ⟨c, more, hc, -⟩ := hk
  have hpos : 1 ≤ byteLength [c] := one_le_byteLength (List.cons_ne_nil c [])
  rw [hparse, Finding.ofFurthest_of_lineRules hv hrules, Source.blame,
    Source.clamp_of_append (hc ▸ hv) hpos]

/-! ## Items of groups -/

/-- The transforms and shapes of a group are items. -/
theorem Reaches.members (h : Reaches s f t)
    (hturns : Repeats (transformItem <|> shapeItem) t g u) : Reaches s (f ++ g) u := by
  refine h.follow (fun hstep => ?_) hturns
  exact parse_orElse_iff.2 (.inl hstep)

theorem exists_reaches_of_parse_group (h : group.parse s = some (f, t)) :
    (∃ f' u, groupHead.parse s = some (f', u)) ∧ ∃ f', Reaches s f' t := by
  obtain ⟨_, hlist⟩ := exists_parse_of_report_eq report_group h
  obtain ⟨f', u, _, hhead, hmembers, -⟩ := parse_append_iff.1 hlist
  exact ⟨⟨f', u, hhead⟩, _, Reaches.members (.head hhead) ((parse_many_iff rfl).1 hmembers)⟩

/-- A group behind an empty line is an item with its own items. -/
theorem Reaches.exists_laterGroup (h : Reaches s f t)
    (hturn : (groupSeparator ++ group).parse t = some (g, u)) : ∃ f', Reaches s f' u := by
  obtain ⟨_, hlist⟩ := exists_parse_of_report_eq report_laterGroup hturn
  obtain ⟨_, mid, _, hitem, hmembers, -⟩ := parse_append_iff.1 hlist
  exact ⟨_, Reaches.members (.item h (parse_item_iff.2 (.inr (.inr hitem))))
    ((parse_many_iff rfl).1 hmembers)⟩

/-- **Where a later group stands**: behind items and a separator. -/
def StandsBehind (s : List Char) (n : Node) : Prop :=
  ∃ f t e a x u, Reaches s f t ∧ groupSeparator.parse t = some (e, x) ∧ s = a ++ x ∧
    byteLength a = n.start ∧ group.parse x = some (.node .group n.inner .nil, u)

theorem Reaches.standsBehind {a : List Char} {n : Node} (h : Reaches s f t)
    (hturns : Repeats (groupSeparator ++ group) t g u) (hs : s = a ++ t)
    (hn : n ∈ (g.nodes (byteLength a)).filter (·.rule = .group)) : StandsBehind s n := by
  induction hturns generalizing f a with
  | stop => cases hn
  | @step t mid u g₁ g₂ hstep hmore ih =>
    obtain ⟨e, x, _, hsep, hgroup, rfl⟩ := parse_append_iff.1 hstep
    obtain ⟨inner, -, rfl⟩ := parse_rule_iff.1 hgroup
    obtain ⟨f', hreaches⟩ := h.exists_laterGroup hstep
    have htext := toList_parse hstep
    rw [Forest.nodes_append, List.filter_append, List.mem_append] at hn
    rcases hn with hn | hn
    · rw [Forest.nodes_append, List.filter_append, filter_nodes_eq_nil hsep (by decide),
        List.nil_append] at hn
      obtain rfl : n = ⟨.group, byteLength a + byteLength e.toList, inner⟩ := by
        simpa [Forest.nodes] using hn
      refine ⟨f, t, e, a ++ e.toList, x, mid, h, hsep, ?_, byteLength_append _ _, hgroup⟩
      rw [List.append_assoc, toList_parse hsep, hs]
    · rw [← byteLength_append] at hn
      exact ih hreaches (by rw [List.append_assoc, htext, hs]) hn

/-- **Every group but the first stands behind items** and a separator. -/
theorem standsBehind_of_mem_tail {n : Node} (h : Rule.document.Matches s g [])
    (hn : n ∈ (Node.childrenOf .group ⟨.document, 0, g⟩).tail) : StandsBehind s n := by
  obtain ⟨_, _, last, hlist, hend, rfl⟩ := parse_append_iff.1 ((Rule.matches_iff rfl).1 h)
  obtain ⟨f, t, space, hgroups, hspace, rfl⟩ := parse_append_iff.1 hlist
  have hchildren : Node.childrenOf .group ⟨.document, 0, f ++ space ++ last⟩ =
      (f.nodes 0).filter (·.rule = .group) := by
    rw [Node.childrenOf, Node.children, Forest.nodes_append, Forest.nodes_append,
      List.filter_append, List.filter_append, filter_nodes_eq_nil hspace (by decide),
      filter_nodes_eq_nil hend (by decide), List.append_nil, List.append_nil]
  rw [hchildren] at hn
  rcases parse_opt_iff.1 hgroups with hgroups | ⟨-, rfl, -⟩
  · obtain ⟨_, mid, g', hgroup, hturns, rfl⟩ := parse_append_iff.1 hgroups
    obtain ⟨inner, -, rfl⟩ := parse_rule_iff.1 hgroup
    obtain ⟨-, f', hreaches⟩ := exists_reaches_of_parse_group hgroup
    refine hreaches.standsBehind ((parse_many_iff rfl).1 hturns)
      (a := inner.toList) ?_ (by simpa [Forest.nodes] using hn)
    simpa [Forest.toList] using (toList_parse hgroup).symm
  · cases hn

/-! ## Without empty lines -/

/-- Spacing is blank lines and an indentation. -/
theorem exists_indentation {w : List Char} (hw : ∀ c ∈ w, isSpacing c) :
    ∃ gap ind, w = gap ++ ind ∧ IsBlankLine ind ∧ ∀ c ∈ gap.getLast?, isLineBreak c := by
  induction w using List.reverseRecOn with
  | nil => exact ⟨[], [], rfl, isBlankLine_nil, by simp⟩
  | append_singleton w c ih =>
    obtain ⟨hw, hc⟩ := List.forall_mem_append.1 hw
    cases hblank : isBlank c with
    | true =>
      obtain ⟨gap, ind, rfl, hind, hgap⟩ := ih hw
      refine ⟨gap, ind ++ [c], by simp, List.forall_mem_append.2 ⟨hind, ?_⟩, hgap⟩
      simpa using hblank
    | false =>
      refine ⟨w ++ [c], [], by simp, isBlankLine_nil, ?_⟩
      simpa [isSpacing, hblank] using hc

/-- **The blank lines before a later group.**  The group before ends on a line that carries
something; behind the end of that line and blank lines, the group's keyword stands on a line of its
own, behind an indentation. -/
structure LaterHeader (s : List Char) (n : Node) (before brk gap ind more : List Char) : Prop where
  text_eq : s = before ++ (brk ++ (gap ++ (ind ++ ("group".toList ++ more))))
  carries : Carries before
  lineEnd : dropLineEnd? (brk ++ (gap ++ (ind ++ ("group".toList ++ more)))) =
    some (gap ++ (ind ++ ("group".toList ++ more)))
  gap_ne_nil : gap ≠ []
  gap_spacing : ∀ c ∈ gap, isSpacing c
  gap_lines : ∀ c ∈ gap.getLast?, isLineBreak c
  indentation : IsBlankLine ind
  keyword : ∃ a space, before ++ (brk ++ (gap ++ ind)) = a ++ space ∧ byteLength a = n.start ∧
    ∀ c ∈ space, isSpacing c

/-- **A later group has a header behind blank lines**, and items stand before them. -/
theorem StandsBehind.exists_laterHeader {n : Node} (h : StandsBehind s n) :
    ∃ f brk gap ind more, LaterHeader s n f.toList brk gap ind more ∧
      Reaches s f (brk ++ (gap ++ (ind ++ ("group".toList ++ more)))) := by
  obtain ⟨f, t, e, a, x, u, hreaches, hsep, hs, hstart, hgroup⟩ := h
  obtain ⟨⟨_, _, hhead⟩, -⟩ := exists_reaches_of_parse_group hgroup
  obtain ⟨space, _, more, rfl, hspace, -⟩ := exists_of_parse_groupHead hhead
  obtain ⟨t₁, t₂, h₁, h₂, hx⟩ := exists_parse_groupSeparator_iff.1 ⟨e, hsep⟩
  rw [dropWhile_of_dropLineEnd? (fun _ h => h) h₁] at hx
  have hbreaks : ∀ c ∈ t₁.takeWhile isLineBreak, isSpacing c := fun c hc => by
    simp [isSpacing, of_mem_takeWhile hc]
  have hbetween := List.forall_mem_append.2 ⟨hbreaks, hspace⟩
  obtain ⟨gap, ind, hgap, hind, hlines⟩ := exists_indentation hbetween
  have ht₁ : t₁ = gap ++ (ind ++ ("group".toList ++ more)) := by
    rw [← List.append_assoc, ← hgap, List.append_assoc, hx, List.takeWhile_append_dropWhile]
  rw [hgap] at hbetween
  subst ht₁
  obtain ⟨brk, rfl, -⟩ := dropLineEnd?_eq_some_iff.1 h₁
  have hne : gap ≠ [] := by
    rintro rfl
    rw [List.nil_append, dropLineEnd?_eq_none_iff.2
      (stops_isLineBreak_otherWord hind (otherWord_group more))] at h₂
    cases h₂
  have hbefore := hreaches.toList_eq
  refine ⟨f, brk, gap, ind, more, ⟨hbefore.symm, hreaches.closes.1, h₁, hne,
    fun c hc => hbetween c (List.mem_append_left _ hc), hlines, hind, a, space, ?_, hstart, hspace⟩,
    hreaches⟩
  refine (List.append_left_inj ("group".toList ++ more)).1 ?_
  rw [List.append_assoc a, ← hs, ← hbefore]
  simp only [List.append_assoc]

/-- **A missing empty line between groups is told at the header of the later group**, as a missing
line break if the header is not indented.  If it is, the header is unexpected: what could stand
there is a transform or a shape. -/
theorem parse_of_missing_emptyLine {source : Source} {n : Node}
    (h : Rule.document.Matches source.text.toList g [])
    (hn : n ∈ (Node.childrenOf .group ⟨.document, 0, g⟩).tail) :
    ∃ before brk gap ind more, LaterHeader source.text.toList n before brk gap ind more ∧
      ∀ joined : Source,
        joined.text.toList = before ++ (brk ++ (ind ++ ("group".toList ++ more))) →
        parse (Document Float) joined =
          .error ⟨⟨lineFault ind, ⟨byteLength (before ++ (brk ++ ind)), 1⟩⟩, joined⟩ := by
  obtain ⟨f, brk, gap, ind, more, hheader, hreaches⟩ :=
    (standsBehind_of_mem_tail h hn).exists_laterHeader
  refine ⟨f.toList, brk, gap, ind, more, hheader, fun joined hjoined => ?_⟩
  have hother := otherWord_group more
  have hbrk : brk ≠ [] := by
    rintro rfl
    exact lt_irrefl _ (length_lt_of_dropLineEnd? hheader.lineEnd)
  have hfront : (ind ++ ("group".toList ++ more)).head? ≠ some '\n' := fun hhead =>
    absurd (stops_isLineBreak_otherWord hheader.indentation hother _ hhead) (by decide)
  have hexchange := hreaches.exchange
    (beginsAs_append_of_ne_nil hbrk (ind ++ ("group".toList ++ more)) _)
  rw [← hjoined] at hexchange
  refine hexchange.parse_of_otherWord (dropLineEnd?_exchange hheader.lineEnd hfront)
    hheader.indentation hother ?_
  rw [hjoined]
  simp only [List.append_assoc]

theorem parse_of_missing_emptyLine_indented :
    let source : Source :=
      ⟨"scene", "group\nunit square\nfilled red\n\n  group\nunit square\nfilled red"⟩
    ∃ (g : Forest) (n : Node), Rule.document.Matches source.text.toList g [] ∧
      n ∈ (Node.childrenOf .group ⟨.document, 0, g⟩).tail ∧
      ∃ before brk gap ind more, LaterHeader source.text.toList n before brk gap ind more ∧
        ∀ joined : Source,
          joined.text.toList = before ++ (brk ++ (ind ++ ("group".toList ++ more))) →
          parse (Document Float) joined =
            .error ⟨⟨lineFault ind, ⟨byteLength (before ++ (brk ++ ind)), 1⟩⟩, joined⟩ := by
  intro source
  have hcount : (document.parse source.text.toList).map (fun m =>
      (m.1.nodes 0).map fun d => (d.childrenOf .group).length) = some [2] := by decide +kernel
  obtain ⟨g, h⟩ := (exists_matches_or_parse_eq_none _).resolve_right fun hnone => by
    rw [hnone] at hcount
    cases hcount
  have hparse : document.parse source.text.toList = some (.node .document g .nil, []) := h
  have hlength : (Node.childrenOf .group ⟨.document, 0, g⟩).length = 2 := by
    simpa [hparse, Forest.nodes] using hcount
  obtain ⟨n, hn⟩ := List.exists_mem_of_length_pos
    (l := (Node.childrenOf .group ⟨.document, 0, g⟩).tail) (by simp [hlength])
  exact ⟨g, n, h, hn, parse_of_missing_emptyLine h hn⟩

/-- The header of a group that is indented is not told as a missing line break. -/
theorem parse_joined_indented_group :
    let joined : Source :=
      ⟨"scene", "group\nunit square\nfilled red\n  group\nunit square\nfilled red"⟩
    parse (Document Float) joined = .error ⟨⟨.unexpected .rotate
      (.oneOf [.rotate, .scale, .translate, .unitSquare, .unitCircle] true), ⟨31, 1⟩⟩, joined⟩ := by
  decide +kernel

end SceneText
