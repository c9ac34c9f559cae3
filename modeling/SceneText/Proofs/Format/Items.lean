import SceneText.Proofs.Format.ShapeLines
import SceneText.Proofs.Grammar.Firm
import SceneText.Proofs.Grammar.Laws

/-!
# Proofs/Format/Items — a document as a list of items

The grammar nests transforms in shapes and groups, and shapes in groups.  A document reports the
same as a flat list (`report_document`): a group's header, then items, each of them a transform, the
first two lines of a shape, or a group's header behind an empty line, in any order.
-/

namespace SceneText

namespace Pattern

/-- A transform on the next line. -/
def transformItem : Pattern := lineEnd ++ transform

/-- The header and the style line of a shape. -/
def shapeHead : Pattern :=
  .rule .shape (blanks ++ (unitSquare <|> unitCircle) ++ comment ++ lineEnd ++ drawStyle)

/-- A shape on a later line. -/
def shapeItem : Pattern := .oneOrMore lineEnd ++ shapeHead

/-- The header of a group. -/
def groupHead : Pattern := .rule .group (.many (blank <|> newline) ++ text "group" ++ comment)

/-- A group behind an empty line. -/
def groupItem : Pattern := groupSeparator ++ groupHead

/-- What can follow a group's header, or another item. -/
def item : Pattern := (transformItem <|> shapeItem) <|> groupItem

/-- Items under a group's header, if there is any, then spacing up to the end. -/
def items : Pattern := .opt (groupHead ++ .many item) ++ .many (blank <|> newline) ++ endOfText

/-! ## One list instead of nested ones -/

theorem report_transforms : transforms.report = (transform ++ many transformItem).report :=
  report_rule_rule_append rfl rfl (total_many _)

theorem report_trailingTransforms : trailingTransforms.report = (many transformItem).report := by
  have hinner : (ahead transformItem ++ lineEnd ++ transforms).report =
      (transformItem ++ many transformItem).report := by
    rw [report_append_assoc, report_append_congr (p := ahead transformItem) rfl
      (report_append_congr rfl report_transforms),
      report_append_congr (p := ahead transformItem) rfl (report_append_assoc _ _ _).symm]
    exact report_ahead_append transformItem (many transformItem)
  calc trailingTransforms.report
    _ = (opt (ahead transformItem ++ lineEnd ++ transforms)).report :=
      report_rule_of_total rfl rfl (total_opt _)
    _ = (opt (transformItem ++ many transformItem)).report := report_opt_congr hinner
    _ = (many transformItem).report := report_opt_append_many rfl

theorem total_trailingTransforms : trailingTransforms.Total := (total_opt _).rule

theorem report_shape : shape.report = (shapeHead ++ many transformItem).report :=
  (report_rule_append rfl total_trailingTransforms).trans
    (report_append_congr rfl report_trailingTransforms)

/-- Shapes behind line ends, each with its transforms. -/
theorem report_members : (opt (oneOrMore lineEnd ++ shapes)).report =
    (many (shapeItem ++ many transformItem)).report := by
  have hmember : (oneOrMore lineEnd ++ shape).report = (shapeItem ++ many transformItem).report :=
    (report_append_congr rfl report_shape).trans (report_append_assoc _ _ _).symm
  have hshapes : shapes.report = (shape ++ many (oneOrMore lineEnd ++ shape)).report :=
    report_rule_rule_append rfl rfl (total_many _)
  calc (opt (oneOrMore lineEnd ++ shapes)).report
    _ = (opt ((oneOrMore lineEnd ++ shape) ++ many (oneOrMore lineEnd ++ shape))).report :=
      report_opt_congr ((report_append_congr rfl hshapes).trans (report_append_assoc _ _ _).symm)
    _ = (many (oneOrMore lineEnd ++ shape)).report := report_opt_append_many rfl
    _ = (many (shapeItem ++ many transformItem)).report := report_many_congr rfl rfl hmember

theorem report_group :
    group.report = (groupHead ++ many (transformItem <|> shapeItem)).report := by
  have hmore : (opt (oneOrMore lineEnd ++ shapes)).Total := total_opt _
  calc group.report
    _ = (groupHead ++ trailingTransforms ++ opt (oneOrMore lineEnd ++ shapes)).report :=
      (report_rule_append rfl hmore).trans
        (report_append_congr (report_rule_append rfl total_trailingTransforms) rfl)
    _ = (groupHead ++ (many transformItem ++ many (shapeItem ++ many transformItem))).report :=
      (report_append_assoc _ _ _).trans (report_append_congr rfl
        (report_append_congr report_trailingTransforms report_members))
    _ = (groupHead ++ many (transformItem <|> shapeItem)).report :=
      report_append_congr rfl (report_many_append_many rfl rfl)

/-- A group behind an empty line. -/
theorem report_laterGroup : (groupSeparator ++ group).report =
    (groupItem ++ many (transformItem <|> shapeItem)).report :=
  (report_append_congr rfl report_group).trans (report_append_assoc _ _ _).symm

/-- Groups behind empty lines, after a first one. -/
theorem report_groups :
    (group ++ many (groupSeparator ++ group)).report = (groupHead ++ many item).report := by
  calc (group ++ many (groupSeparator ++ group)).report
    _ = (groupHead ++ (many (transformItem <|> shapeItem) ++
          many (groupItem ++ many (transformItem <|> shapeItem)))).report :=
      (report_append_congr report_group (report_many_congr rfl rfl report_laterGroup)).trans
        (report_append_assoc _ _ _)
    _ = (groupHead ++ many item).report :=
      report_append_congr rfl (report_many_append_many rfl rfl)

/-- What a document holds. -/
def documentBody : Pattern :=
  .opt (group ++ .many (groupSeparator ++ group)) ++ .many (blank <|> newline) ++ endOfText

/-- **A document reports the same as a list of items.** -/
theorem report_document : documentBody.report = items.report :=
  report_append_congr (report_append_congr (report_opt_congr report_groups) rfl) rfl

end Pattern

variable {s t w : List Char} {f g : Forest} {c : Char}

/-! ## How items open and end -/

/-- The first character of a text behind spacing. -/
def opening (s : List Char) : Option Char := (s.dropWhile isSpacing).head?

theorem opening_append (hw : ∀ d ∈ w, isSpacing d) (hc : isSpacing c = false) (t : List Char) :
    opening (w ++ c :: t) = some c := by
  rw [opening, dropWhile_append_of_stops hw (stops_cons.2 hc), List.head?_cons]

theorem opening_of_dropLineEnd? (h : dropLineEnd? s = some t) : opening s = opening t := by
  rw [opening, opening, dropWhile_of_dropLineEnd? isSpacing_of_isLineBreak h]

theorem opening_dropWhile_isLineBreak (s : List Char) :
    opening (s.dropWhile isLineBreak) = opening s := by
  rw [opening, opening, dropWhile_dropWhile isSpacing_of_isLineBreak]

theorem IsBlankLine.isSpacing (hw : IsBlankLine w) : ∀ c ∈ w, SceneText.isSpacing c :=
  fun c hc => isSpacing_of_isBlank c (hw c hc)

/-- The last line of a text holds more than blanks. -/
def Carries (v : List Char) : Prop :=
  ∃ w c z, v = w ++ c :: z ∧ isSpacing c = false ∧ ∀ d ∈ z, isLineBreak d = false

theorem Carries.append (h : Carries t) (s : List Char) : Carries (s ++ t) := by
  obtain ⟨w, c, z, rfl, hc, hz⟩ := h
  exact ⟨s ++ w, c, z, by simp, hc, hz⟩

/-- A word carries the rest of its line. -/
theorem carries_of_isRun {is : Char → Bool} {z : List Char} (his : Pattern.InWords is)
    (hw : IsRun is w) (hz : ∀ d ∈ z, isLineBreak d = false) : Carries (w ++ z) := by
  obtain ⟨hne, hall⟩ := hw
  cases w with
  | nil => exact absurd rfl hne
  | cons c w =>
    obtain ⟨hc, hw⟩ := List.forall_mem_cons.1 hall
    obtain ⟨hblank, hbreak⟩ := his c hc
    refine ⟨[], c, w ++ z, rfl, by simp [isSpacing, hblank, hbreak],
      List.forall_mem_append.2 ⟨fun d hd => (his d (hw d hd)).2, hz⟩⟩

/-- Tokens carry the blanks around them. -/
theorem carries_of_tokens {is is' : Char → Bool} {t b b' : List Char} {f : Forest}
    {ps : List (List Char × List Char)} (his : Pattern.InWords is) (his' : Pattern.InWords is')
    (hw : IsRun is w) (hps : IsLayout is' ps) (hb' : IsBlankLine b')
    (h : f.toList ++ t = b ++ (w ++ (gapped ps ++ (b' ++ t)))) : Carries f.toList := by
  have htext : f.toList = b ++ (w ++ (gapped ps ++ b')) := by
    refine (List.append_left_inj t).1 (h.trans ?_)
    simp
  rw [htext]
  exact (carries_of_isRun his hw (List.forall_mem_append.2
    ⟨isLineBreak_of_mem_gapped his' hps, hb'.isLineBreak⟩)).append b

namespace Pattern

variable {p q : Pattern} {r : Rule}

/-- What a match takes ends on a line that holds more than blanks, and no blank follows it. -/
def Closes (p : Pattern) : Prop :=
  ∀ ⦃s f t⦄, p.parse s = some (f, t) → Carries f.toList ∧ Stops isBlank t

theorem Closes.append_left (hq : q.Closes) (p : Pattern) : (p ++ q).Closes := by
  intro s f t h
  obtain ⟨f₁, mid, f₂, -, h₂, rfl⟩ := parse_append_iff.1 h
  rw [Forest.toList_append]
  exact ⟨(hq h₂).1.append _, (hq h₂).2⟩

theorem Closes.rule (hp : p.Closes) : (rule r p).Closes := by
  intro s f t h
  obtain ⟨g, hg, rfl⟩ := parse_rule_iff.1 h
  simpa [Forest.toList] using hp hg

theorem closes_transform : transform.Closes := by
  intro s f t h
  obtain ⟨g, hg, rfl⟩ := (Rule.parse_pattern_iff (r := .transform) rfl).1 h
  obtain ⟨b, form, ps, b', hs, -, -, hps, hb', ht, -, -⟩ := matches_transform_iff.1 hg
  exact ⟨carries_of_tokens inWords_isAlpha inWords_isNumberChar form.isRun_tag hps hb'
    ((toList_parse h).trans hs), ht⟩

theorem closes_drawStyle : drawStyle.Closes := by
  intro s f t h
  obtain ⟨g, hg, rfl⟩ := (Rule.parse_pattern_iff (r := .drawStyle) rfl).1 h
  obtain ⟨b, w, q, b', hs, -, hw, hq, hb', ht, -, -⟩ := matches_drawStyle_iff.1 hg
  exact ⟨carries_of_tokens inWords_isAlpha inWords_isAlpha hw hq hb'
    ((toList_parse h).trans hs), ht⟩

/-- What stands behind a keyword stays on its line, and takes all blanks. -/
theorem inLine_of_matches_comment (h : Rule.comment.Matches s g t) :
    (∀ d ∈ g.toList, isLineBreak d = false) ∧ Stops isBlank t := by
  rcases matches_comment_iff.1 h with ⟨b, v, -, hb, -, rfl, rfl⟩ | ⟨hblank, rfl, rfl⟩
  · refine ⟨?_, (atLineEnd_afterLine v).stops_isBlank⟩
    simp only [Forest.toList_append, Forest.toList_run, Forest.toList, List.append_nil]
    exact List.forall_mem_append.2
      ⟨IsBlankLine.isLineBreak hb.2, fun d hd => isLineBreak_of_mem_firstLine hd⟩
  · exact ⟨by simp [Forest.toList], hblank⟩

/-- A keyword and what stands behind it on its line. -/
theorem closes_header (keyword : String) (hkeyword : IsRun Char.isAlpha keyword.toList) :
    (text keyword ++ comment).Closes := by
  intro s f t h
  obtain ⟨_, u, _, h₁, h₂, rfl⟩ := parse_append_iff.1 h
  obtain ⟨rfl, rfl⟩ := parse_word_iff.1 h₁
  obtain ⟨g, hg, rfl⟩ := (Rule.parse_pattern_iff (r := .comment) rfl).1 h₂
  obtain ⟨hline, hblank⟩ := inLine_of_matches_comment hg
  refine ⟨?_, hblank⟩
  simpa [Forest.toList] using carries_of_isRun inWords_isAlpha hkeyword hline

theorem closes_groupHead : groupHead.Closes := by
  refine Closes.rule fun s f t h => ?_
  obtain ⟨_, v, _, h₁, h₂, rfl⟩ := parse_append_iff.1 h
  obtain ⟨f₁, u, _, -, hword, rfl⟩ := parse_append_iff.1 h₁
  obtain ⟨hcarries, ht⟩ := closes_header "group" (isRun_of_all rfl rfl)
    (parse_append_iff.2 ⟨_, _, _, hword, h₂, rfl⟩)
  rw [Forest.append_assoc, Forest.toList_append]
  exact ⟨hcarries.append _, ht⟩

/-! ## Firm items -/

theorem firm_form (form : TransformForm) : form.rule.pattern.Firm := by
  have hoperands (n : Nat) : (withOperands (Pattern.text form.tag) n).Firm := by
    induction n with
    | zero => exact firm_word _
    | succ n ih => exact (ih.append firm_gap).append (firm_token _ _)
  rw [form.pattern_rule]
  exact (hoperands _).rule

theorem firm_transform : transform.Firm := by
  refine Firm.rule ((firm_blanks.append fun s f t t' h ht => ?_).append firm_blanks)
  obtain ⟨form, hform⟩ := parse_forms_iff.1 h
  exact parse_forms_iff.2 ⟨form, firm_form form hform ht⟩

theorem firm_transformItem : transformItem.Firm := firm_lineEnd.append firm_transform

theorem firm_comment : comment.Firm := by
  intro s f t t' h ht
  obtain ⟨g, hg, rfl⟩ := (Rule.parse_pattern_iff (r := .comment) rfl).1 h
  refine (Rule.parse_pattern_iff (r := .comment) rfl).2 ⟨g, matches_comment_iff.2 ?_, rfl⟩
  rcases matches_comment_iff.1 hg with ⟨b, v, -, hb, hv, rfl, rfl⟩ | ⟨hblank, rfl, rfl⟩
  · have hline : ∀ d ∈ firstLine v, isLineBreak d = false := fun d => isLineBreak_of_mem_firstLine
    have hend : AtLineEnd t' := ht.stops (atLineEnd_afterLine v)
    refine .inl ⟨b, firstLine v ++ t', ?_, hb, ?_, (afterLine_append hline hend).symm, ?_⟩
    · simp [Forest.toList]
    · refine (BeginsAs.append ht (firstLine v)).stops ?_
      rwa [firstLine_append_afterLine]
    · rw [firstLine_append hline hend]
  · exact .inr ⟨by simpa [Forest.toList] using ht.stops hblank, by simp [Forest.toList], rfl⟩

theorem firm_kinds : (unitSquare <|> unitCircle).Firm := by
  intro s f t t' h _
  obtain ⟨kind, -, rfl⟩ := parse_kinds_iff.1 h
  exact parse_kinds_iff.2 ⟨kind, by simp [Forest.toList], rfl⟩

theorem firm_drawStyle : drawStyle.Firm :=
  ((((firm_blanks.append (firm_token _ _)).append firm_gap).append (firm_token _ _)).append
    firm_blanks).rule

theorem firm_shapeItem : shapeItem.Firm :=
  firm_lineEnds.append ((((firm_blanks.append firm_kinds).append firm_comment).append
    firm_lineEnd).append firm_drawStyle).rule

theorem firm_groupHead : groupHead.Firm :=
  ((firm_spacing.append (firm_word _)).append firm_comment).rule

theorem firm_groupItem : groupItem.Firm := (firm_lineEnd.append firm_lineEnds).append firm_groupHead

/-! ## Which item it is -/

/-- The tag of a form behind blanks. -/
theorem opening_tag (form : TransformForm) {b : List Char} (hb : IsBlankLine b) (s : List Char) :
    opening (b ++ (form.tag.toList ++ s)) ∈ [some 'r', some 's', some 't'] := by
  cases form with
  | rotate =>
    have hopening := opening_append (c := 'r') hb.isSpacing rfl s
    exact List.mem_cons.2 (.inl hopening)
  | scale =>
    have hopening := opening_append (c := 's') hb.isSpacing rfl s
    exact List.mem_cons_of_mem _ (List.mem_cons.2 (.inl hopening))
  | translate =>
    have hopening := opening_append (c := 't') hb.isSpacing rfl s
    exact List.mem_cons_of_mem _ (List.mem_cons_of_mem _ (List.mem_cons.2 (.inl hopening)))

theorem opening_transform {rest : List Char} (h : Rule.transform.Matches s g rest) :
    opening s ∈ [some 'r', some 's', some 't'] := by
  obtain ⟨b, form, ps, b', rfl, hb, -⟩ := matches_transform_iff.1 h
  exact opening_tag form hb _

theorem opening_transformItem (h : transformItem.parse s = some (f, t)) :
    opening s ∈ [some 'r', some 's', some 't'] := by
  obtain ⟨_, u, _, h₁, h₂, -⟩ := parse_append_iff.1 h
  obtain ⟨_, hdrop, -⟩ := parse_lineEnd_iff.1 h₁
  obtain ⟨g, hg, -⟩ := (Rule.parse_pattern_iff (r := .transform) rfl).1 h₂
  rw [opening_of_dropLineEnd? hdrop]
  exact opening_transform hg

theorem opening_shapeHead (h : shapeHead.parse s = some (f, t)) : opening s = some 'u' := by
  obtain ⟨_, h, -⟩ := parse_rule_iff.1 h
  obtain ⟨_, _, _, h, -, -⟩ := parse_append_iff.1 h
  obtain ⟨_, _, _, h, -, -⟩ := parse_append_iff.1 h
  obtain ⟨_, _, _, h, -, -⟩ := parse_append_iff.1 h
  obtain ⟨_, _, _, hblanks, hkind, -⟩ := parse_append_iff.1 h
  obtain ⟨b, rfl, hb, -, -⟩ := parse_blanks_iff.1 hblanks
  obtain ⟨kind, rfl, -⟩ := parse_kinds_iff.1 hkind
  cases kind <;> exact opening_append hb.isSpacing rfl _

theorem opening_shapeItem (h : shapeItem.parse s = some (f, t)) : opening s = some 'u' := by
  obtain ⟨_, u, _, h₁, h₂, -⟩ := parse_append_iff.1 h
  obtain ⟨-, rfl⟩ := exists_parse_lineEnds_iff.1 ⟨_, h₁⟩
  rw [← opening_dropWhile_isLineBreak]
  exact opening_shapeHead h₂

/-- The keyword of a group stands behind spacing. -/
theorem exists_of_parse_groupHead (h : groupHead.parse s = some (f, t)) :
    ∃ w g u, s = w ++ ("group".toList ++ u) ∧ (∀ c ∈ w, isSpacing c) ∧
      Rule.comment.Matches u g t := by
  obtain ⟨_, h, -⟩ := parse_rule_iff.1 h
  obtain ⟨_, u, _, h, hcomment, -⟩ := parse_append_iff.1 h
  obtain ⟨_, v, _, hspacing, hword, -⟩ := parse_append_iff.1 h
  obtain ⟨g, hg, -⟩ := (Rule.parse_pattern_iff (r := .comment) rfl).1 hcomment
  obtain ⟨rfl, -⟩ := parse_word_iff.1 hword
  have hv := exists_parse_spacing_iff.1 ⟨_, hspacing⟩
  refine ⟨s.takeWhile isSpacing, g, u, ?_, fun c => of_mem_takeWhile, hg⟩
  rw [hv, List.takeWhile_append_dropWhile]

theorem opening_groupHead (h : groupHead.parse s = some (f, t)) : opening s = some 'g' := by
  obtain ⟨w, _, u, rfl, hw, -⟩ := exists_of_parse_groupHead h
  exact opening_append hw rfl _

/-- Two line ends at least stand between groups. -/
theorem exists_parse_groupSeparator_iff : (∃ f, groupSeparator.parse s = some (f, t)) ↔
    ∃ u v, dropLineEnd? s = some u ∧ dropLineEnd? u = some v ∧ t = s.dropWhile isLineBreak := by
  constructor
  · rintro ⟨f, h⟩
    obtain ⟨_, u, _, h₁, h₂, -⟩ := parse_append_iff.1 h
    obtain ⟨_, hdrop, -⟩ := parse_lineEnd_iff.1 h₁
    obtain ⟨hne, rfl⟩ := exists_parse_lineEnds_iff.1 ⟨_, h₂⟩
    obtain ⟨v, hv⟩ := Option.ne_none_iff_exists'.1 hne
    exact ⟨u, v, hdrop, hv, (dropWhile_of_dropLineEnd? (fun _ h => h) hdrop).symm⟩
  · rintro ⟨u, v, hu, hv, rfl⟩
    obtain ⟨f₁, h₁⟩ := exists_parse_lineEnd hu
    obtain ⟨f₂, h₂⟩ := exists_parse_lineEnds_iff.2 ⟨Option.ne_none_iff_exists'.2 ⟨v, hv⟩, rfl⟩
    rw [dropWhile_of_dropLineEnd? (fun _ h => h) hu]
    exact ⟨_, parse_append_iff.2 ⟨_, _, _, h₁, h₂, rfl⟩⟩

theorem opening_groupItem (h : groupItem.parse s = some (f, t)) : opening s = some 'g' := by
  obtain ⟨_, u, _, h₁, h₂, -⟩ := parse_append_iff.1 h
  obtain ⟨_, _, -, -, rfl⟩ := exists_parse_groupSeparator_iff.1 ⟨_, h₁⟩
  rw [← opening_dropWhile_isLineBreak]
  exact opening_groupHead h₂

/-- **An item is told by the character that opens it.** -/
theorem parse_item_iff : item.parse s = some (f, t) ↔ transformItem.parse s = some (f, t) ∨
    shapeItem.parse s = some (f, t) ∨ groupItem.parse s = some (f, t) := by
  have hnot (p : Pattern) (cs : List (Option Char))
      (hp : ∀ {f t}, p.parse s = some (f, t) → opening s ∈ cs) (h : opening s ∉ cs) :
      p.parse s = none :=
    Option.eq_none_iff_forall_ne_some.2 fun ⟨_, _⟩ hparse => h (hp hparse)
  constructor
  · intro h
    rcases parse_orElse_iff.1 h with h | ⟨-, h⟩
    · exact (parse_orElse_iff.1 h).imp_right fun h => .inl h.2
    · exact .inr (.inr h)
  · rintro (h | h | h)
    · exact parse_orElse_iff.2 (.inl (parse_orElse_iff.2 (.inl h)))
    · have hnone := hnot _ _ opening_transformItem (by simp [opening_shapeItem h])
      exact parse_orElse_iff.2 (.inl (parse_orElse_iff.2 (.inr ⟨hnone, h⟩)))
    · have hnone := hnot _ _ opening_transformItem (by simp [opening_groupItem h])
      have hnone' := hnot shapeItem [some 'u']
        (fun h => by simp [opening_shapeItem h]) (by simp [opening_groupItem h])
      exact parse_orElse_iff.2 (.inr ⟨parse_orElse_eq_none_iff.2 ⟨hnone, hnone'⟩, h⟩)

/-- The tag of a form opens no other item than a transform. -/
theorem parse_transformItem_of_opening {m : Match} (h : item.parse s = some m)
    (hopening : opening s ∈ [some 'r', some 's', some 't']) : transformItem.parse s = some m := by
  refine (parse_item_iff.1 h).resolve_right fun hother => ?_
  rcases hother with hshape | hgroup
  · simp [opening_shapeItem hshape] at hopening
  · simp [opening_groupItem hgroup] at hopening

theorem parse_item_eq_none_iff : item.parse s = none ↔ transformItem.parse s = none ∧
    shapeItem.parse s = none ∧ groupItem.parse s = none := by
  rw [item, parse_orElse_eq_none_iff, parse_orElse_eq_none_iff, and_assoc]

theorem firm_item : item.Firm := by
  intro s f t t' h ht
  exact parse_item_iff.2 ((parse_item_iff.1 h).imp (firm_transformItem · ht)
    (Or.imp (firm_shapeItem · ht) (firm_groupItem · ht)))

theorem closes_item : item.Closes := by
  intro s f t h
  rcases parse_item_iff.1 h with h | h | h
  · exact closes_transform.append_left _ h
  · exact ((closes_drawStyle.append_left _).rule.append_left _) h
  · exact closes_groupHead.append_left _ h

/-- Every item begins with a line end. -/
theorem atLineEnd_of_parse_item (h : item.parse s = some (f, t)) : AtLineEnd s := by
  rcases parse_item_iff.1 h with h | h | h
  · obtain ⟨_, _, _, hend, -, -⟩ := parse_append_iff.1 h
    obtain ⟨_, hdrop, -⟩ := parse_lineEnd_iff.1 hend
    exact atLineEnd_of_dropLineEnd? hdrop
  · obtain ⟨_, _, _, hends, -, -⟩ := parse_append_iff.1 h
    obtain ⟨u, hdrop⟩ := Option.ne_none_iff_exists'.1 (exists_parse_lineEnds_iff.1 ⟨_, hends⟩).1
    exact atLineEnd_of_dropLineEnd? hdrop
  · obtain ⟨_, _, _, hsep, -, -⟩ := parse_append_iff.1 h
    obtain ⟨_, _, hdrop, -, -⟩ := exists_parse_groupSeparator_iff.1 ⟨_, hsep⟩
    exact atLineEnd_of_dropLineEnd? hdrop

end Pattern

end SceneText
