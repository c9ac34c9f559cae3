import SceneText.Proofs.Format.ItemNotes

/-!
# Proofs/Format/Stuck — how far into a document its items go

`Reaches s f t` says that a group's header and the items behind it have been taken from `s`, with
the record `f`, and that `t` is left.  What is left can be exchanged for a text that begins alike
(`Reaches.exchange`).  A text is a document if all that is left in the end is spacing
(`Reaches.exists_matches`), and a text that is none gets `Stuck` (`exists_stuck`): at a place where
no item matches, and where the furthest failures are those of that item (`Stuck.mem_notes`).
-/

namespace SceneText

open Pattern

variable {s t t' u v : List Char} {f g : Forest} {n : Note}

/-! ## Taking items -/

/-- **Items have been taken** up to a place: a group's header, then items one behind the other. -/
inductive Reaches : List Char → Forest → List Char → Prop
  | head {s t : List Char} {f : Forest} : groupHead.parse s = some (f, t) → Reaches s f t
  | item {s t u : List Char} {f g : Forest} :
    Reaches s f t → item.parse t = some (g, u) → Reaches s (f ++ g) u

namespace Reaches

theorem toList_eq (h : Reaches s f t) : f.toList ++ t = s := by
  induction h with
  | head h => exact toList_parse h
  | item _ hitem ih => rw [Forest.toList_append, List.append_assoc, toList_parse hitem, ih]

/-- Items end on a line that holds more than blanks, and no blank follows them. -/
theorem closes (h : Reaches s f t) : Carries f.toList ∧ Stops isBlank t := by
  cases h with
  | head h => exact closes_groupHead h
  | item _ hitem =>
    rw [Forest.toList_append]
    exact ⟨(closes_item hitem).1.append _, (closes_item hitem).2⟩

/-- **What is left behind items can be exchanged** for a text that begins alike. -/
theorem exchange (h : Reaches s f t) (ht : BeginsAs t' t) : Reaches (f.toList ++ t') f t' := by
  induction h generalizing t' with
  | head h => exact .head (firm_groupHead h ht)
  | @item t u f g _ hitem ih =>
    have hmid := ht.append g.toList
    rw [toList_parse hitem] at hmid
    rw [Forest.toList_append, List.append_assoc]
    exact .item (ih hmid) (firm_item hitem ht)

/-- Items go on with the turns of a repetition, if these are items. -/
theorem follow {p : Pattern}
    (hp : ∀ {s f t}, p.parse s = some (f, t) → Pattern.item.parse s = some (f, t))
    (h : Reaches s f t) (hturns : Repeats p t g u) : Reaches s (f ++ g) u := by
  induction hturns generalizing f with
  | stop => exact (Forest.append_nil f).symm ▸ h
  | step hstep _ ih => exact Forest.append_assoc _ _ _ ▸ ih (.item h (hp hstep))

/-- A header and items are what the grammar's list takes. -/
theorem parse_list (h : Reaches s f t) (hturns : Repeats Pattern.item t g u) :
    (groupHead ++ many Pattern.item).parse s = some (f ++ g, u) := by
  induction h generalizing g with
  | head h => exact parse_append_iff.2 ⟨_, _, _, h, (parse_many_iff rfl).2 hturns, rfl⟩
  | item _ hitem ih => exact Forest.append_assoc _ _ _ ▸ ih (.step hitem hturns)

end Reaches

/-- The grammar's list takes a header and items. -/
theorem exists_reaches_of_parse (h : (groupHead ++ many item).parse s = some (f, t)) :
    Reaches s f t ∧ item.parse t = none := by
  obtain ⟨f₁, mid, f₂, hhead, hitems, rfl⟩ := parse_append_iff.1 h
  have hturns := (parse_many_iff rfl).1 hitems
  exact ⟨.follow id (.head hhead) hturns, hturns.parse_eq_none⟩

/-! ## Documents -/

/-- A text is a document as a whole, or none begins in front of it. -/
theorem exists_matches_or_parse_eq_none (s : List Char) :
    (∃ g, Rule.document.Matches s g []) ∨ document.parse s = none := by
  cases h : document.parse s with
  | none => exact .inr rfl
  | some m =>
    obtain ⟨g, hbody, -⟩ := parse_rule_iff.1 h
    obtain ⟨_, _, _, -, hend, -⟩ := parse_append_iff.1 hbody
    obtain ⟨_, hatEnd, -⟩ := parse_rule_iff.1 hend
    obtain ⟨-, hrest, -⟩ := parse_atEnd_iff.1 hatEnd
    exact .inl ⟨g, (Rule.matches_iff rfl).2 (hrest ▸ hbody)⟩

/-- **A document is a list of items and spacing behind them**, with the marks of the items. -/
theorem exists_matches_document_iff {ms : List Mark} :
    (∃ g, Rule.document.Matches s g [] ∧ g.marks [] = ms) ↔
      ∃ f t, (opt (groupHead ++ many item)).parse s = some (f, t) ∧ (∀ c ∈ t, isSpacing c) ∧
        f.marks t = ms := by
  have hreport {p : Pattern} : (∃ f, p.parse s = some (f, []) ∧ f.marks [] = ms) ↔
      (p.report s).outcome = some (ms, []) := by
    simp only [report, Option.map_eq_some_iff, Prod.exists, Prod.mk.injEq]
    constructor
    · rintro ⟨f, hf, rfl⟩
      exact ⟨f, [], hf, rfl, rfl⟩
    · rintro ⟨f, _, hf, hms, rfl⟩
      exact ⟨f, hf, hms⟩
  have hmarks {f space : Forest} {t : List Char}
      (hspace : (many (blank <|> newline)).parse t = some (space, [])) :
      (f ++ space ++ .node .endOfText .nil .nil).marks [] = f.marks t := by
    have hnone : space.marks [] = [] := List.eq_nil_iff_forall_not_mem.2 fun m hm =>
      List.not_mem_nil (rule_mem_of_mem_marks hspace hm)
    have htext := toList_parse hspace
    rw [List.append_nil] at htext
    have hend : (Forest.node .endOfText .nil .nil).marks [] = [] := rfl
    simp [Forest.marks_append, Forest.toList, htext, hend, hnone]
  have hrule : Rule.document.pattern = .rule .document documentBody := rfl
  simp only [Rule.matches_iff hrule]
  rw [hreport, report_document, ← hreport]
  constructor
  · rintro ⟨_, h, rfl⟩
    obtain ⟨_, _, _, hspacing, hend, rfl⟩ := parse_append_iff.1 h
    obtain ⟨f, t, space, hlist, hspace, rfl⟩ := parse_append_iff.1 hspacing
    obtain ⟨_, hatEnd, rfl⟩ := parse_rule_iff.1 hend
    obtain ⟨rfl, -, rfl⟩ := parse_atEnd_iff.1 hatEnd
    refine ⟨f, t, hlist, ?_, (hmarks hspace).symm⟩
    exact List.dropWhile_eq_nil_iff.1 (exists_parse_spacing_iff.1 ⟨space, hspace⟩).symm
  · rintro ⟨f, t, hlist, ht, rfl⟩
    obtain ⟨space, hspace⟩ := exists_parse_spacing_iff.2 (List.dropWhile_eq_nil_iff.2 ht).symm
    exact ⟨_, parse_append_iff.2 ⟨_, _, _, parse_append_iff.2 ⟨_, _, _, hlist, hspace, rfl⟩, rfl,
      rfl⟩, hmarks hspace⟩

/-- **Items with nothing but spacing behind them are a document.** -/
theorem Reaches.exists_matches (h : Reaches s f t) (hturns : Repeats Pattern.item t g u)
    (hu : ∀ c ∈ u, isSpacing c) :
    ∃ g', Rule.document.Matches s g' [] ∧ g'.marks [] = (f ++ g).marks u :=
  exists_matches_document_iff.2 ⟨f ++ g, u, parse_opt_iff.2 (.inl (h.parse_list hturns)), hu, rfl⟩

theorem opening_of_forall_isSpacing (hs : ∀ c ∈ s, isSpacing c) : opening s = none := by
  rw [opening, List.dropWhile_eq_nil_iff.2 hs, List.head?_nil]

theorem opening_item (h : item.parse s = some (f, t)) :
    opening s ∈ [some 'r', some 's', some 't', some 'u', some 'g'] := by
  rcases parse_item_iff.1 h with h | h | h
  · have htag := opening_transformItem h
    simp only [List.mem_cons, List.not_mem_nil, or_false] at htag ⊢
    tauto
  · simp [opening_shapeItem h]
  · simp [opening_groupItem h]

/-- No item is spacing. -/
theorem parse_item_eq_none_of_isSpacing (hs : ∀ c ∈ s, isSpacing c) : item.parse s = none :=
  Option.eq_none_iff_forall_ne_some.2 fun ⟨f, t⟩ h => by
    have hopening := opening_item h
    simp [opening_of_forall_isSpacing hs] at hopening

/-- Items and spacing are a document. -/
theorem Reaches.exists_matches_of_isSpacing (h : Reaches s f t) (ht : ∀ c ∈ t, isSpacing c) :
    ∃ g, Rule.document.Matches s g [] := by
  obtain ⟨g, hg, -⟩ := h.exists_matches (.stop (parse_item_eq_none_of_isSpacing ht)) ht
  exact ⟨g, hg⟩

/-- Spacing alone is a document. -/
theorem exists_matches_of_isSpacing (hs : ∀ c ∈ s, isSpacing c) :
    ∃ g, Rule.document.Matches s g [] := by
  have hhead : (groupHead ++ many item).parse s = none :=
    parse_append_eq_none_iff.2 fun f mid h => by
      have hopening := opening_groupHead h
      simp [opening_of_forall_isSpacing hs] at hopening
  obtain ⟨g, hg, -⟩ : ∃ g, Rule.document.Matches s g [] ∧ g.marks [] = [] :=
    exists_matches_document_iff.2 ⟨.nil, s, parse_opt_iff.2 (.inr ⟨hhead, rfl, rfl⟩), hs, rfl⟩
  exact ⟨g, hg⟩

/-- **A document with marks is a header, items and spacing.** -/
theorem exists_repeats_of_matches (h : Rule.document.Matches s g []) (hg : g.marks [] ≠ []) :
    ∃ f t f' u, groupHead.parse s = some (f, t) ∧ Repeats item t f' u ∧
      (∀ c ∈ u, isSpacing c) ∧ g.marks [] = (f ++ f').marks u := by
  obtain ⟨f₀, u, hlist, hu, hmarks⟩ := exists_matches_document_iff.1 ⟨g, h, rfl⟩
  rcases parse_opt_iff.1 hlist with hlist | ⟨-, rfl, -⟩
  · obtain ⟨f, t, f', hhead, hitems, rfl⟩ := parse_append_iff.1 hlist
    exact ⟨f, t, f', u, hhead, (parse_many_iff rfl).1 hitems, hu, hmarks.symm⟩
  · exact absurd hmarks.symm hg

/-! ## Getting stuck -/

/-- Items have been taken up to a place where there is more than spacing, and no item. -/
structure Stuck (s : List Char) (f : Forest) (t : List Char) : Prop where
  reaches : Reaches s f t
  parse_item : item.parse t = none
  not_spacing : ¬ ∀ c ∈ t, isSpacing c

theorem parse_items_eq_none_iff : items.parse s = none ↔
    ∀ f t, (opt (groupHead ++ many item)).parse s = some (f, t) → ¬ ∀ c ∈ t, isSpacing c := by
  constructor
  · intro h f t hlist ht
    obtain ⟨space, hspace⟩ := exists_parse_spacing_iff.2 (List.dropWhile_eq_nil_iff.2 ht).symm
    have hitems : items.parse s = some (f ++ space ++ .node .endOfText .nil .nil, []) :=
      parse_append_iff.2 ⟨_, _, _, parse_append_iff.2 ⟨_, _, _, hlist, hspace, rfl⟩, rfl, rfl⟩
    rw [h] at hitems
    cases hitems
  · intro h
    refine Option.eq_none_iff_forall_ne_some.2 fun ⟨f, rest⟩ hitems => ?_
    obtain ⟨_, _, _, hspacing, hend, -⟩ := parse_append_iff.1 hitems
    obtain ⟨f, t, space, hlist, hspace, -⟩ := parse_append_iff.1 hspacing
    obtain ⟨_, hatEnd, -⟩ := parse_rule_iff.1 hend
    obtain ⟨rfl, -, -⟩ := parse_atEnd_iff.1 hatEnd
    exact h f t hlist (List.dropWhile_eq_nil_iff.1 (exists_parse_spacing_iff.1 ⟨_, hspace⟩).symm)

theorem parse_document_eq_none_iff : document.parse s = none ↔ items.parse s = none := by
  rw [document, parse_rule_eq_none_iff, ← outcome_report_eq_none_iff, ← outcome_report_eq_none_iff]
  exact iff_of_eq (congrArg (fun report => (report s).outcome = none) report_document)

/-- The notes of a document that fails are those of its items, unless they are all at its front. -/
theorem notes_document (h : document.parse s = none) :
    (∀ n ∈ document.notes s, n ∈ items.notes s ∨ n = ⟨.document, s⟩) ∧
      ∀ n ∈ items.notes s, n.rest.length < s.length →
        ∀ m, m ∈ document.notes s ↔ m ∈ items.notes s := by
  have hbody (n : Note) : n ∈ documentBody.notes s ↔ n ∈ items.notes s :=
    iff_of_eq (congrArg (fun report => n ∈ (report s).noted) report_document)
  have hnone : documentBody.parse s = none := parse_rule_eq_none_iff.1 h
  constructor
  · intro n hn
    rw [← hbody]
    exact (mem_notes_rule hn).symm.imp_right And.left
  · intro n hn hlt m
    have hnotes : document.notes s = documentBody.notes s :=
      notes_rule_of_further hnone ((hbody n).2 hn) hlt
    rw [hnotes, hbody]

theorem notes_endOfText (hs : s ≠ []) : endOfText.notes s = [⟨.endOfText, s⟩] := by
  have hnone : atEnd.parse s = none := by simp [Pattern.parse, hs]
  exact notes_rule_eq_singleton hnone rfl

/-- Behind the list, the end of the text is looked for after the spacing. -/
theorem notes_items (hlist : (opt (groupHead ++ many item)).parse s = some (f, t))
    (ht : ¬ ∀ c ∈ t, isSpacing c) : items.notes s =
      (groupHead ++ many item).notes s ++ [⟨.endOfText, t.dropWhile isSpacing⟩] := by
  obtain ⟨space, hspace⟩ := exists_parse_spacing_iff.2 (rfl : _ = t.dropWhile isSpacing)
  have hne : t.dropWhile isSpacing ≠ [] := mt List.dropWhile_eq_nil_iff.1 ht
  rw [items, notes_append_assoc, notes_append_of_some hlist, notes_append_of_some hspace,
    notes_eq_nil (p := many (blank <|> newline)) rfl, List.nil_append, notes_endOfText hne]
  rfl

/-- What an item takes reaches past what opens it. -/
theorem length_le_of_carries (hv : Carries v) (u : List Char) :
    u.length ≤ ((v ++ u).dropWhile isSpacing).length := by
  obtain ⟨w, c, z, rfl, hc, -⟩ := hv
  have hsuffix : c :: (z ++ u) <:+ (w ++ c :: z ++ u).dropWhile isSpacing := by
    rw [List.append_assoc, List.cons_append, List.dropWhile_append]
    split
    · rw [dropWhile_of_stops (stops_cons.2 hc)]
    · exact List.suffix_append _ _
  refine le_trans ?_ hsuffix.length_le
  simp only [List.length_cons, List.length_append]
  omega

/-- **Items that have been taken note nothing behind them.** -/
theorem mem_notes_many_item (h : Repeats item s f t) :
    (∀ n ∈ item.notes t, n ∈ (many item).notes s) ∧
      ∀ n ∈ (many item).notes s, n ∈ item.notes t ∨ t.length ≤ n.rest.length := by
  induction h with
  | stop hnone =>
    rw [notes_many_of_none hnone]
    exact ⟨fun n hn => hn, fun n hn => .inl hn⟩
  | @step s mid t f g hstep hmore ih =>
    rw [notes_many_of_some (p := item) rfl hstep]
    refine ⟨fun n hn => List.mem_append_right _ (ih.1 n hn), fun n hn => ?_⟩
    rcases List.mem_append.1 hn with hn | hn
    · have hpast := length_le_of_carries (closes_item hstep).1 mid
      rw [toList_parse hstep] at hpast
      have hleft := (suffix_of_parse ((parse_many_iff rfl).2 hmore)).length_le
      exact .inr (hleft.trans (hpast.trans (opens_of_mem_notes_item hstep hn).length_le))
    · exact ih.2 n hn

namespace Stuck

theorem parse_list (h : Stuck s f t) :
    (opt (groupHead ++ many item)).parse s = some (f, t) := by
  have hlist := h.reaches.parse_list (.stop h.parse_item)
  rw [Forest.append_nil] at hlist
  exact parse_opt_iff.2 (.inl hlist)

/-- **A text that gets stuck is no document.** -/
theorem parse_document (h : Stuck s f t) : document.parse s = none := by
  refine parse_document_eq_none_iff.2 (parse_items_eq_none_iff.2 fun f' t' hlist => ?_)
  rw [h.parse_list, Option.some.injEq] at hlist
  cases hlist
  exact h.not_spacing

theorem mem_notes_items_iff (h : Stuck s f t) : ∃ t₀ g, Repeats item t₀ g t ∧
    t₀.length < s.length ∧ ∀ n, n ∈ items.notes s ↔
      n ∈ (many item).notes t₀ ∨ n = ⟨.endOfText, t.dropWhile isSpacing⟩ := by
  have hlist := h.reaches.parse_list (.stop h.parse_item)
  obtain ⟨f₁, t₀, g, hhead, hitems, -⟩ := parse_append_iff.1 hlist
  refine ⟨t₀, g, (parse_many_iff rfl).1 hitems, length_lt_of_productive rfl hhead, fun n => ?_⟩
  rw [notes_items h.parse_list h.not_spacing, notes_append_of_some hhead, silent_groupHead hhead,
    List.nil_append, List.mem_append, List.mem_singleton]

theorem mem_notes_document_iff (h : Stuck s f t) :
    n ∈ document.notes s ↔ n ∈ items.notes s := by
  obtain ⟨t₀, g, hturns, hlt, hnotes⟩ := h.mem_notes_items_iff
  refine (notes_document h.parse_document).2 ⟨.endOfText, t.dropWhile isSpacing⟩
    ((hnotes _).2 (.inr rfl)) ?_ n
  have hleft := (suffix_of_parse ((parse_many_iff rfl).2 hturns)).length_le
  exact ((List.dropWhile_suffix _).length_le.trans hleft).trans_lt hlt

/-- The end of the text is missed where more than spacing stands. -/
theorem endOfText_mem_notes (h : Stuck s f t) :
    ⟨.endOfText, t.dropWhile isSpacing⟩ ∈ document.notes s := by
  obtain ⟨_, _, -, -, hnotes⟩ := h.mem_notes_items_iff
  exact h.mem_notes_document_iff.2 ((hnotes _).2 (.inr rfl))

/-- The item that does not match leaves its notes. -/
theorem mem_notes_of_item (h : Stuck s f t) (hn : n ∈ item.notes t) : n ∈ document.notes s := by
  obtain ⟨_, _, hturns, -, hnotes⟩ := h.mem_notes_items_iff
  exact h.mem_notes_document_iff.2 ((hnotes _).2 (.inl ((mem_notes_many_item hturns).1 n hn)))

/-- **Beyond the place where items get stuck, only the next item and the end of the text are
noted.** -/
theorem mem_notes (h : Stuck s f t) (hn : n ∈ document.notes s) : n ∈ item.notes t ∨
    n = ⟨.endOfText, t.dropWhile isSpacing⟩ ∨ t.length ≤ n.rest.length := by
  obtain ⟨_, _, hturns, -, hnotes⟩ := h.mem_notes_items_iff
  rcases (hnotes n).1 (h.mem_notes_document_iff.1 hn) with hn | hn
  · exact ((mem_notes_many_item hturns).2 n hn).imp_right .inr
  · exact .inr (.inl hn)

/-- Nothing is noted behind a place that lies before what opens the next item, and behind which that
item notes nothing. -/
theorem length_le_of_mem_notes (h : Stuck s f t) (hu : u.length ≤ (t.dropWhile isSpacing).length)
    (hitem : ∀ m ∈ item.notes t, u.length ≤ m.rest.length) :
    ∀ m ∈ document.notes s, u.length ≤ m.rest.length := by
  intro m hm
  rcases h.mem_notes hm with hm | rfl | hpast
  · exact hitem m hm
  · exact hu
  · exact (hu.trans (List.dropWhile_suffix _).length_le).trans hpast

end Stuck

/-- **What is no document gets stuck**, or fails before a group's keyword. -/
theorem exists_stuck (h : document.parse s = none) :
    (∀ n ∈ document.notes s, n.Opens s ∧ n.rule ≠ .lineEnd) ∨ ∃ f t, Stuck s f t := by
  cases hlist : (groupHead ++ many item).parse s with
  | some m =>
    obtain ⟨hreaches, hnone⟩ := exists_reaches_of_parse hlist
    exact .inr ⟨m.1, m.2, hreaches, hnone, parse_items_eq_none_iff.1
      (parse_document_eq_none_iff.1 h) _ _ (parse_opt_iff.2 (.inl hlist))⟩
  | none =>
    have hopt : (opt (groupHead ++ many item)).parse s = some (.nil, s) :=
      parse_opt_iff.2 (.inr ⟨hlist, rfl, rfl⟩)
    have hspacing := parse_items_eq_none_iff.1 (parse_document_eq_none_iff.1 h) _ _ hopt
    have hhead : groupHead.parse s = none := Option.eq_none_iff_forall_ne_some.2 fun ⟨f, t⟩ hf => by
      obtain ⟨g, u, hg⟩ := exists_parse_many item t
      rw [parse_append_iff.2 ⟨_, _, _, hf, hg, rfl⟩] at hlist
      cases hlist
    refine .inl fun n hn => ?_
    rcases (notes_document h).1 n hn with hn | rfl
    · rw [notes_items hopt hspacing, notes_append_of_none hhead, notes_groupHead_of_none hhead]
        at hn
      rcases List.mem_append.1 hn with hn | hn
      · obtain rfl := List.mem_singleton.1 hn
        exact ⟨Note.opens_self _ _, by simp⟩
      · obtain rfl := List.mem_singleton.1 hn
        exact ⟨⟨_, List.takeWhile_append_dropWhile.symm, fun c => of_mem_takeWhile⟩, by simp⟩
    · exact ⟨Note.opens_self _ _, by simp⟩

/-! ## The error of a text that is no document -/

/-- The place of a record is where the text before it ends. -/
theorem Furthest.offset_eq {far : Furthest} (h : s = v ++ far.rest) :
    far.offset s = byteLength v := by
  rw [offset, congrArg byteLength h, byteLength_append]
  omega

/-- **The record of a document that fails tells of its notes**, and the error is read off it. -/
theorem exists_parse_eq_error {source : Source} (h : document.parse source.text.toList = none) :
    ∃ far v, far.Tells source.text.toList {n | n ∈ document.notes source.text.toList} ∧
      source.text.toList = v ++ far.rest ∧ parse (Document Float) source =
        .error (source.blame (Finding.ofFurthest source.text.toList far)) := by
  have htells := tells_search document source.text.toList
  obtain ⟨v, hv⟩ := htells.suffix
  refine ⟨_, v, htells, hv.symm, ?_⟩
  have hwhole := wholeNode_of_parse_eq_none (r := .document) h
  have hread : readText (Document Float) source.text.toList = .error (.ofFurthest _ _) :=
    congrArg (· >>= Textual.read) hwhole
  rw [SceneText.parse, hread]
  rfl

/-- A failed match is told at its furthest place. -/
theorem Finding.offset_ofFurthest (s : List Char) (far : Furthest) :
    (ofFurthest s far).span.offset = far.offset s := by
  simp only [ofFurthest]
  split
  · rfl
  · split <;> rfl

theorem Source.offset_blame_ofFurthest {source : Source} {far : Furthest}
    (h : source.text.toList = v ++ far.rest) :
    (source.blame (.ofFurthest source.text.toList far)).span.offset = byteLength v := by
  change min (Finding.ofFurthest source.text.toList far).span.offset _ = _
  rw [Finding.offset_ofFurthest, Furthest.offset_eq h, h, byteLength_append]
  omega

/-- A stretch is clamped to what follows its place. -/
theorem Source.clamp_place {source : Source} (h : source.text.toList = v ++ u) (k : Nat) :
    source.clamp ⟨byteLength v, k⟩ = ⟨byteLength v, min k (byteLength u)⟩ := by
  simp only [clamp, h, byteLength_append, Span.mk.injEq]
  omega

/-- A stretch of a text is not clamped. -/
theorem Source.clamp_of_append {source : Source} {w : List Char}
    (h : source.text.toList = v ++ (w ++ u)) {k : Nat} (hk : k ≤ byteLength w) :
    source.clamp ⟨byteLength v, k⟩ = ⟨byteLength v, k⟩ := by
  rw [clamp_place h, byteLength_append, min_eq_left (Nat.le_add_right_of_le hk)]

/-- Something is noted wherever a document fails. -/
theorem exists_mem_notes_document (h : document.parse s = none) : ∃ n, n ∈ document.notes s :=
  exists_mem_notes_rule (parse_rule_eq_none_iff.1 h)

end SceneText
