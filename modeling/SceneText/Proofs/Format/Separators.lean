import SceneText.Proofs.Format.FirstOffender
import SceneText.Proofs.Format.Stuck

/-!
# Proofs/Format/Separators — where a line break is said to be missing

A line break is told as missing behind something else on a line, or in front of a whole line that is
neither a transform nor a shape (`exists_line_of_missingSeparator`).  Such a line may be the header
of a group that lacks an empty line before it, or any stray line.
-/

namespace SceneText

open Pattern

variable {s t u v : List Char} {f g : Forest}

/-- A whole line, on which neither a transform nor a shape begins. -/
structure StrayLine (u : List Char) : Prop where
  ne_nil : u ≠ []
  stops : Stops isSpacing u
  transform : Rule.transform.pattern.parse u = none
  shape : Rule.shape.pattern.parse u = none

/-! ## What is expected where a line break is missing -/

/-- A line break is only told as missing where nothing but lines could have followed it. -/
theorem Finding.of_missingSeparator {far : Furthest}
    (h : (ofFurthest s far).fault = .missingSeparator) :
    .lineEnd ∈ far.rules ∧ ∀ r ∈ far.rules, r ≠ .endOfText → startsLine r := by
  simp only [ofFurthest] at h
  split at h
  · cases h
  · split at h
    · rename_i hrules
      simp only [Furthest.expected, List.mem_filter, List.all_eq_true, decide_eq_true_eq] at hrules
      exact ⟨hrules.1.1.2, fun r hr hne => hrules.2 r ⟨⟨Rule.mem_all r, hr⟩, hne⟩⟩
    · cases h

theorem Offence.fault_ne_missingSeparator {n : Node} {e : Finding} (h : Offence n e) :
    e.fault ≠ .missingSeparator := by
  cases h <;> exact nofun

/-- Where a shape's first two lines fail, the shape does. -/
theorem parse_shape_of_none (h : shapeHead.parse s = none) : shape.parse s = none := by
  have hlist : (shapeHead ++ many transformItem).parse s = none := parse_append_of_none h
  rw [← outcome_report_eq_none_iff] at hlist ⊢
  rwa [report_shape]

/-- **A line end that an item lacks, where no group is expected**: no line end stands before it, or
one that a stray line follows. -/
theorem exists_lineEnd_of_item (hitem : item.parse t = none)
    (hgroup : ⟨.group, t.dropWhile isLineBreak⟩ ∉ item.notes t)
    (hstops : Stops isSpacing (t.dropWhile isLineBreak)) (hne : t.dropWhile isLineBreak ≠ []) :
    t.dropWhile isLineBreak = t ∨ ∃ brk, t = brk ++ t.dropWhile isLineBreak ∧
      dropLineEnd? t = some (t.dropWhile isLineBreak) ∧ StrayLine (t.dropWhile isLineBreak) := by
  obtain ⟨htransform, hshape, hnext⟩ := parse_item_eq_none_iff.1 hitem
  cases hdrop : dropLineEnd? t with
  | none => exact .inl (dropWhile_of_stops (dropLineEnd?_eq_none_iff.1 hdrop))
  | some u =>
    have hu : t.dropWhile isLineBreak = u.dropWhile isLineBreak :=
      dropWhile_of_dropLineEnd? (fun _ h => h) hdrop
    cases hdrop' : dropLineEnd? u with
    | some u' =>
      -- behind an empty line a group is expected too
      obtain ⟨e, hsep⟩ := exists_parse_groupSeparator_iff.2 ⟨u, u', hdrop, hdrop', rfl⟩
      have hhead : groupHead.parse (t.dropWhile isLineBreak) = none :=
        parse_append_eq_none_iff.1 hnext e _ hsep
      refine absurd ((mem_notes_item_iff hitem).2 (.inr (.inr ?_))) hgroup
      rw [groupItem, notes_append_of_some hsep, notes_groupHead_of_none hhead]
      simp
    | none =>
      rw [dropWhile_of_stops (dropLineEnd?_eq_none_iff.1 hdrop')] at hu
      obtain ⟨brk, hbrk, -⟩ := dropLineEnd?_eq_some_iff.1 hdrop
      obtain ⟨e, hend⟩ := exists_parse_lineEnd hdrop
      obtain ⟨e', hends⟩ := exists_parse_lineEnds_iff.2
        ⟨Option.ne_none_iff_exists'.2 ⟨u, hdrop⟩, rfl⟩
      have hhead := parse_append_eq_none_iff.1 hshape e' _ hends
      rw [hu] at hstops hne hhead ⊢
      exact .inr ⟨brk, hbrk, rfl, hne, hstops, parse_append_eq_none_iff.1 htransform e u hend,
        parse_shape_of_none hhead⟩

/-- The line end that a shape lacks stands behind its keyword. -/
theorem Pattern.FailsInside.exists_carries (h : FailsInside s ⟨.lineEnd, u⟩) :
    ∃ v, s = v ++ u ∧ Carries v ∧ Stops isLineBreak u := by
  obtain ⟨b, kind, w, g, a, rfl, -, hcomment, ⟨-, rfl, hdrop⟩ | ⟨_, -, hstyle⟩⟩ := h
  · have hw : g.toList ++ u = w := hcomment.toList_append
    have hkeyword : ∃ letters, kind.keyword.toList = 'u' :: letters := by
      cases kind <;> exact ⟨_, rfl⟩
    obtain ⟨letters, hletters⟩ := hkeyword
    have hline := kind.isLineBreak_keyword
    rw [hletters, List.forall_mem_cons] at hline
    have hcarries : Carries (kind.keyword.toList ++ g.toList) :=
      ⟨[], 'u', letters ++ g.toList, by rw [hletters]; rfl, rfl,
        List.forall_mem_append.2 ⟨hline.2, (inLine_of_matches_comment hcomment).1⟩⟩
    exact ⟨_, by rw [← hw, List.append_assoc, List.append_assoc], hcarries.append b,
      dropLineEnd?_eq_none_iff.1 hdrop⟩
  · have hrule : Rule.lineEnd ∈ drawStyle.rules := rule_mem_of_mem_notes hstyle
    exact absurd hrule (by decide)

/-- **A line break that a document lacks**, and no group: something else stands before it on its
line, or a stray line begins there. -/
theorem Stuck.exists_line_of_lineEnd (h : Stuck s f t)
    (hle : ∀ m ∈ document.notes s, u.length ≤ m.rest.length)
    (hline : ⟨.lineEnd, u⟩ ∈ document.notes s) (hgroup : ⟨.group, u⟩ ∉ document.notes s) :
    ∃ v, s = v ++ u ∧ Stops isLineBreak u ∧ (Carries v ∨ ∃ w brk, v = w ++ brk ∧ Carries w ∧
      dropLineEnd? (brk ++ u) = some u ∧ StrayLine u) := by
  have hs := h.reaches.toList_eq
  have hcarries := h.reaches.closes.1
  have hend := hle _ h.endOfText_mem_notes
  have hdrops : (t.dropWhile isLineBreak).dropWhile isSpacing = t.dropWhile isSpacing :=
    dropWhile_dropWhile isSpacing_of_isLineBreak t
  rcases h.mem_notes hline with hitem | hspace | hpast
  · rcases mem_notes_item_cases hitem with ⟨-, hrest⟩ | ⟨hrule, -⟩ | ⟨-, hinside⟩
    · -- the end of the text has been tried at the same place, behind all spacing
      obtain rfl : u = t.dropWhile isLineBreak := hrest rfl
      have hopens : t.dropWhile isSpacing = t.dropWhile isLineBreak := by
        rw [← hdrops] at hend ⊢
        exact (List.dropWhile_suffix _).eq_of_length_le hend
      have hne : t.dropWhile isSpacing ≠ [] := mt List.dropWhile_eq_nil_iff.1 h.not_spacing
      rcases exists_lineEnd_of_item h.parse_item (mt h.mem_notes_of_item hgroup)
        (hopens ▸ stops_dropWhile isSpacing t) (hopens ▸ hne) with ht | ⟨brk, ht, hdrop, hstray⟩
      · exact ⟨f.toList, by rw [ht, hs], stops_dropWhile _ t, .inl hcarries⟩
      · refine ⟨f.toList ++ brk, by rw [List.append_assoc, ← ht, hs], stops_dropWhile _ t,
          .inr ⟨_, brk, rfl, hcarries, ?_, hstray⟩⟩
        rwa [← ht]
    · cases hrule
    · obtain ⟨v, hv, hcarries, hstops⟩ := hinside.exists_carries
      refine ⟨f.toList ++ (t.takeWhile isLineBreak ++ v), ?_, hstops,
        .inl ((hcarries.append _).append _)⟩
      rw [List.append_assoc, List.append_assoc, ← hv, List.takeWhile_append_dropWhile, hs]
  · cases congrArg Note.rule hspace
  · -- nothing is noted beyond the items, and no spacing stands there
    have hlength := hend.trans (List.dropWhile_suffix _).length_le
    obtain rfl : u = t := (List.suffix_of_suffix_length_le (suffix_of_mem_notes hline)
      ⟨f.toList, hs⟩ hlength).eq_of_length_le hpast
    have hopens := (List.dropWhile_suffix (l := u) isSpacing).eq_of_length_le hend
    have hstops : Stops isSpacing u := hopens ▸ stops_dropWhile isSpacing u
    exact ⟨f.toList, hs.symm, fun c hc => (Bool.or_eq_false_iff.1 (hstops c hc)).2, .inl hcarries⟩

/-! ## Where a line break is missing -/

/-- **Where a line break is said to be missing, there is none, and a line goes on or is stray.**
Something other than blanks stands before the place on its line, or a whole line begins there that
is neither a transform nor a shape, right behind a line that carries something. -/
theorem exists_line_of_missingSeparator {source : Source} {e : ParseError}
    (h : parse (Document Float) source = .error e) (hfault : e.fault = .missingSeparator) :
    ∃ v u, source.text.toList = v ++ u ∧ byteLength v = e.span.offset ∧ Stops isLineBreak u ∧
      (Carries v ∨ ∃ w brk, v = w ++ brk ∧ Carries w ∧ dropLineEnd? (brk ++ u) = some u ∧
        StrayLine u) := by
  have hnone : document.parse source.text.toList = none := by
    refine (exists_matches_or_parse_eq_none _).resolve_left ?_
    rintro ⟨g, hg⟩
    obtain ⟨n, -, he, -⟩ := exists_offence_of_parse_eq_error hg h
    exact he.fault_ne_missingSeparator hfault
  obtain ⟨far, v, hfar, hv, hparse⟩ := exists_parse_eq_error hnone
  rw [h, Except.error.injEq] at hparse
  subst hparse
  obtain ⟨hline, hrules⟩ := Finding.of_missingSeparator hfault
  have hnote := (hfar.mem_rules_iff .lineEnd).1 hline
  have hgroup : ⟨.group, far.rest⟩ ∉ document.notes source.text.toList := fun hgroup => by
    have hstarts := hrules .group ((hfar.mem_rules_iff .group).2 hgroup) (by decide)
    exact absurd hstarts (by decide)
  rcases exists_stuck hnone with hopens | ⟨f, t, hstuck⟩
  · exact absurd rfl (hopens _ hnote).2
  obtain ⟨v', hv', hstops, hcases⟩ := hstuck.exists_line_of_lineEnd hfar.le hnote hgroup
  obtain rfl := List.append_cancel_right (hv'.symm.trans hv)
  exact ⟨v', far.rest, hv, (Source.offset_blame_ofFurthest hv).symm, hstops, hcases⟩

theorem exists_line_of_missingSeparator_stray :
    let source : Source := ⟨"scene", "group\nunit square\nfilled red\nq"⟩
    let e : ParseError := ⟨⟨.missingSeparator, ⟨29, 1⟩⟩, source⟩
    parse (Document Float) source = .error e ∧
      ∃ v u, source.text.toList = v ++ u ∧ byteLength v = e.span.offset ∧ Stops isLineBreak u ∧
        (Carries v ∨ ∃ w brk, v = w ++ brk ∧ Carries w ∧ dropLineEnd? (brk ++ u) = some u ∧
          StrayLine u) := by
  intro source e
  have h : parse (Document Float) source = .error e := by decide +kernel
  exact ⟨h, exists_line_of_missingSeparator h rfl⟩

/-- A letter on a line of its own is told as a missing line break. -/
theorem missingSeparator_of_letter :
    let s := "group\nunit square\nfilled red\nq"
    parse (Document Float) ⟨"scene", s⟩ = .error ⟨⟨.missingSeparator, ⟨29, 1⟩⟩, ⟨"scene", s⟩⟩ ∧
      s.toList = "group\nunit square\nfilled red\n".toList ++ ['q'] ∧
      byteLength "group\nunit square\nfilled red\n".toList = 29 := by
  decide +kernel

end SceneText
