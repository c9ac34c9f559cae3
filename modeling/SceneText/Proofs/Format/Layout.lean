import SceneText.Proofs.Format.Relaid
import SceneText.Proofs.Text.Seams

/-!
# Proofs/Format/Layout — blanks and empty lines that do not matter

A scene may be laid out freely: headers, styles and transforms may be indented, gaps may be of any
length, blanks may stand at the end of a line unless a name ends there, empty lines may stand before
headers, and spacing around the whole.  `LayoutEdit` lists these changes, and no number of them
changes the document that is read (`parse_of_layoutEdits`).
-/

namespace SceneText

variable {l l' b w s : List Char} {keyword name : String}

/-! ## Lines laid out anew -/

/-- **The layouts of a line.**  A header or a line of tokens may be indented; a gap between tokens
or behind a keyword may be any other; blanks may stand at the end, unless a name does. -/
inductive LineEdit : List Char → List Char → Prop
  | indent {b l : List Char} : IsBlankLine b → IsHeader l ∨ IsTokens l → LineEdit l (b ++ l)
  | gap {l gap gap' l' : List Char} : IsRun isBlank gap → IsRun isBlank gap' →
    IsTokens (l ++ (gap ++ l')) → LineEdit (l ++ (gap ++ l')) (l ++ (gap' ++ l'))
  | keywordGap {keyword : String} {b gap gap' t : List Char} : keyword ∈ keywords →
    IsBlankLine b → IsRun isBlank gap → IsRun isBlank gap' →
      LineEdit (b ++ (keyword.toList ++ (gap ++ t))) (b ++ (keyword.toList ++ (gap' ++ t)))
  | trail {b l : List Char} : IsBlankLine b →
    (∃ keyword ∈ keywords, HeaderLine keyword l "") ∨ IsTokens l → LineEdit l (l ++ b)

theorem isHeader_of_gap {gap t : List Char} (hkeyword : keyword ∈ keywords) (hb : IsBlankLine b)
    (hgap : IsRun isBlank gap) : IsHeader (b ++ (keyword.toList ++ (gap ++ t))) :=
  ⟨keyword, hkeyword, .ofList ((gap ++ t).dropWhile isBlank), b, gap ++ t, rfl, hb,
    hgap.stops (fun c hc => by simp [hc]) t, String.toList_ofList⟩

/-- Only headers and lines of tokens are laid out anew. -/
theorem LineEdit.isHeader_or_isTokens (h : LineEdit l l') : IsHeader l ∨ IsTokens l := by
  cases h with
  | indent _ h => exact h
  | gap _ _ h => exact .inr h
  | keywordGap hkeyword hb hgap _ => exact .inl (isHeader_of_gap hkeyword hb hgap)
  | trail _ h => exact h.imp_left fun ⟨keyword, hkeyword, h⟩ => ⟨keyword, hkeyword, "", h⟩

/-- **A line says the same in another layout.** -/
theorem LineEdit.keeps (h : LineEdit l l') : Keeps l l' := by
  cases h with
  | @indent b l hb h =>
    rcases h with h | h
    · refine h.keeps fun keyword _ name => ?_
      rintro ⟨b', t, rfl, hb', hstop, hname⟩
      exact ⟨b ++ b', t, (List.append_assoc _ _ _).symm, List.forall_mem_append.2 ⟨hb, hb'⟩, hstop,
        hname⟩
    · exact h.keeps (words_blanks_append hb l)
  | gap hgap hgap' h =>
    exact h.keeps (by rw [words_append_gap hgap, words_append_gap hgap'])
  | @keywordGap keyword b gap gap' t hkeyword hb hgap hgap' =>
    refine (isHeader_of_gap hkeyword hb hgap).keeps fun keyword' hkeyword' name h => ?_
    obtain ⟨rfl, -, hname⟩ := h.keyword_eq hkeyword hb hkeyword'
    refine ⟨b, gap' ++ t, rfl, hb, hgap'.stops (fun c hc => by simp [hc]) t, ?_⟩
    rw [hname, List.dropWhile_append_of_pos hgap.2, List.dropWhile_append_of_pos hgap'.2]
  | @trail b l hb h =>
    rcases h with ⟨keyword, hkeyword, h⟩ | h
    · refine IsHeader.keeps ⟨keyword, hkeyword, "", h⟩ fun keyword' hkeyword' name h' => ?_
      obtain ⟨b', t, rfl, hb', hstop, hnil⟩ := h
      obtain ⟨rfl, -, hname⟩ := h'.keyword_eq hkeyword hb' hkeyword'
      have ht : IsBlankLine t := List.dropWhile_eq_nil_iff.1 hnil.symm
      have htb : IsBlankLine (t ++ b) := List.forall_mem_append.2 ⟨ht, hb⟩
      refine ⟨b', t ++ b, by simp, hb', htb.stops, ?_⟩
      rw [hname, List.dropWhile_eq_nil_iff.2 ht, List.dropWhile_eq_nil_iff.2 htb]
    · exact h.keeps (words_append_blanks l hb)

/-! ## Texts laid out anew -/

/-- **Spacing before a text does not matter.** -/
theorem documentLines_spacing_append {d : Document Float} (h : DocumentLines (lines s) d)
    (hw : ∀ c ∈ w, isSpacing c) : DocumentLines (lines (w ++ s)) d := by
  have hdrop : (w ++ s).dropWhile isSpacing = s.dropWhile isSpacing :=
    List.dropWhile_append_of_pos hw
  rw [← readText_document_iff, readText_eq_ok_iff ⟨_, rfl⟩, reads_document_iff] at h ⊢
  obtain ⟨a, ⟨g, gs, mid, hgroups, hg, hmore⟩ | ⟨-, hgroups, rfl⟩, ha, hrest⟩ := h
  · exact ⟨a, .inl ⟨g, gs, mid, hgroups, (reads_group_congr hdrop).2 hg, hmore⟩, ha, hrest⟩
  · have hspacing : ∀ c ∈ w ++ a, isSpacing c := List.forall_mem_append.2 ⟨hw, ha⟩
    exact ⟨_, .inr ⟨parse_group_eq_none hspacing, hgroups, rfl⟩, hspacing, hrest⟩

/-- **Spacing behind a text does not matter.** -/
theorem documentLines_append_spacing {d : Document Float} (h : DocumentLines (lines s) d)
    (hw : ∀ c ∈ w, isSpacing c) : DocumentLines (lines (s ++ w)) d := by
  obtain ⟨init, last, b, blank, hlines, hb, hblank, hmore⟩ := exists_lines_append_spacing s hw
  rw [hlines] at h
  rw [hmore]
  rcases h.getLast? last (by simp) with hlast | hlast
  · have hlast' : IsBlankLine (last ++ b) := List.forall_mem_append.2 ⟨hlast, hb⟩
    exact (h.of_append_blank hlast).append_blank (List.forall_mem_cons.2 ⟨hlast', hblank⟩)
  · have hrelaid : Relaid (init ++ [last]) (init ++ [last ++ b]) :=
      (Relaid.cons (hlast.keeps (words_append_blanks last hb)) .nil).append_left init
    simpa using (h.relaid hrelaid).append_blank hblank

/-- **The layouts of a text.**  A line may be laid out anew, line breaks may be put before a header,
and spacing before and behind the whole. -/
inductive LayoutEdit : List Char → List Char → Prop
  | line {before l l' after : List Char} : EndsLine before → OneLine l → AtLineEnd after →
    LineEdit l l' → LayoutEdit (before ++ (l ++ after)) (before ++ (l' ++ after))
  | emptyLines {before l after breaks : List Char} : EndsLine before → OneLine l →
    AtLineEnd after → IsHeader l → (∀ c ∈ breaks, isLineBreak c) →
      LayoutEdit (before ++ (l ++ after)) (before ++ (breaks ++ (l ++ after)))
  | spacingBefore {s w : List Char} : (∀ c ∈ w, isSpacing c) → LayoutEdit s (w ++ s)
  | spacingBehind {s w : List Char} : (∀ c ∈ w, isSpacing c) → LayoutEdit s (s ++ w)

/-- A line stays one line. -/
theorem LineEdit.oneLine (h : LineEdit l l') (hl : OneLine l) : OneLine l' := by
  cases h with
  | indent hb => exact List.forall_mem_append.2 ⟨hb.isLineBreak, hl⟩
  | gap _ hgap' =>
    simp only [OneLine, List.forall_mem_append] at hl ⊢
    exact ⟨hl.1, IsBlankLine.isLineBreak hgap'.2, hl.2.2⟩
  | keywordGap _ _ _ hgap' =>
    simp only [OneLine, List.forall_mem_append] at hl ⊢
    exact ⟨hl.1, hl.2.1, IsBlankLine.isLineBreak hgap'.2, hl.2.2.2⟩
  | trail hb => exact List.forall_mem_append.2 ⟨hl, hb.isLineBreak⟩

theorem ne_nil_of_isHeader_or_isTokens (h : IsHeader l ∨ IsTokens l) : l ≠ [] := by
  rintro rfl
  exact h.elim (fun h => h.not_isBlankLine isBlankLine_nil)
    fun h => h.not_isBlankLine isBlankLine_nil

/-- **One change of layout keeps the document.** -/
theorem LayoutEdit.documentLines {s' : List Char} {d : Document Float} (h : LayoutEdit s s')
    (hd : DocumentLines (lines s) d) : DocumentLines (lines s') d := by
  cases h with
  | line hbefore hl hafter hedit =>
    have hsort := hedit.isHeader_or_isTokens
    have hsort' := hsort.imp hedit.keeps.isHeader hedit.keeps.isTokens
    obtain ⟨init, hinit⟩ := hbefore.exists_lines_append_line
    rw [(hinit hl (ne_nil_of_isHeader_or_isTokens hsort) hafter).1] at hd
    rw [(hinit (hedit.oneLine hl) (ne_nil_of_isHeader_or_isTokens hsort') hafter).1]
    exact hd.relaid ((Relaid.cons hedit.keeps (.refl _)).append_left init)
  | emptyLines hbefore hl hafter hheader hbreaks =>
    obtain ⟨init, hinit⟩ := hbefore.exists_lines_append_line
    obtain ⟨hlines, hlines'⟩ := hinit hl (ne_nil_of_isHeader_or_isTokens (.inl hheader)) hafter
    obtain ⟨n, hn⟩ := hlines' _ hbreaks
    rw [hlines] at hd
    rw [hn]
    exact hd.relaid ((Relaid.replicate hheader n _).append_left init)
  | spacingBefore hw => exact documentLines_spacing_append hd hw
  | spacingBehind hw => exact documentLines_append_spacing hd hw

/-- **Layout is free.**  No number of changes of layout changes the document that is read. -/
theorem parse_of_layoutEdits {source : Source} {d : Document Float}
    (h : parse (Document Float) source = .ok d)
    (hs : Relation.ReflTransGen LayoutEdit source.text.toList s) (name : String) :
    parse (Document Float) ⟨name, .ofList s⟩ = .ok d := by
  rw [parse_eq_ok_iff, readText_document_iff] at h ⊢
  rw [String.toList_ofList]
  induction hs with
  | refl => exact h
  | tail _ hedit ih => exact hedit.documentLines ih

theorem parse_of_layoutEdits_group :
    let d : Document Float := ⟨[⟨"", [], [⟨⟨"", ⟨.filled, .red⟩, []⟩, .unitCircle⟩]⟩]⟩
    parse (Document Float) ⟨"scene", "group\nunit circle\nfilled red"⟩ = .ok d ∧
      Relation.ReflTransGen LayoutEdit "group\nunit circle\nfilled red".toList
        "\n group\n\r\nunit circle\nfilled\t red".toList ∧
      parse (Document Float) ⟨"scene", "\n group\n\r\nunit circle\nfilled\t red"⟩ = .ok d := by
  intro d
  have h : parse (Document Float) ⟨"scene", "group\nunit circle\nfilled red"⟩ = .ok d := by
    decide +kernel
  have hs : Relation.ReflTransGen LayoutEdit "group\nunit circle\nfilled red".toList
      "\n group\n\r\nunit circle\nfilled\t red".toList := by
    have hheader : IsHeader "unit circle".toList :=
      ⟨"unit circle", by decide, "", [], [], rfl, isBlankLine_nil, stops_nil, rfl⟩
    have htokens : IsTokens ("filled".toList ++ (" ".toList ++ "red".toList)) :=
      .inl ⟨⟨.filled, .red⟩, by unfold StyleLine; decide⟩
    have hempty : LayoutEdit "group\nunit circle\nfilled red".toList
        "group\n\r\nunit circle\nfilled red".toList :=
      @LayoutEdit.emptyLines "group\n".toList "unit circle".toList "\nfilled red".toList
        "\r\n".toList (by simp [EndsLine, isLineBreak]) (forall_eq_false_of_all rfl)
        (stops_cons.2 rfl) hheader (by simp [isLineBreak])
    have hgap : LayoutEdit "group\n\r\nunit circle\nfilled red".toList
        "group\n\r\nunit circle\nfilled\t red".toList :=
      @LayoutEdit.line "group\n\r\nunit circle\n".toList "filled red".toList
        "filled\t red".toList [] (by simp [EndsLine, isLineBreak]) (forall_eq_false_of_all rfl)
        stops_nil (@LineEdit.gap "filled".toList " ".toList "\t ".toList "red".toList
          (isRun_of_all rfl rfl) (isRun_of_all rfl rfl) htokens)
    have hspacing : LayoutEdit "group\n\r\nunit circle\nfilled\t red".toList
        "\n group\n\r\nunit circle\nfilled\t red".toList :=
      @LayoutEdit.spacingBefore _ "\n ".toList (by simp [isSpacing, isLineBreak, isBlank])
    exact .tail (.tail (.single hempty) hgap) hspacing
  exact ⟨h, hs, parse_of_layoutEdits h hs "scene"⟩

end SceneText
