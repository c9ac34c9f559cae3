import SceneText.Proofs.Format.Layout
import SceneText.Proofs.Format.Part

/-!
# Proofs/Format/Joined — documents and lists are their parts, joined

The text of a document is texts of groups, each read for itself, with two line ends or more between
them and spacing behind; the text of a list of shapes is texts of shapes with one line end or more
between them (`parse_joined_iff`).  A point or a transform is a line, so the text of a list of them
is split at its line ends into texts of its members (`parse_list_iff_lines`).
-/

namespace SceneText

variable {s t : List Char} {ls more : List (List Char)}

/-- **Texts of values, joined** by so many line ends or more between each two. -/
inductive Joined {α : Type} [Textual α] (least : Nat) : List Char → List α → Prop
  | one {t : List Char} {v : α} : parse α (.anonymous (.ofList t)) = .ok v → Joined least t [v]
  | cons {t ends more : List Char} {n : Nat} {v : α} {vs : List α} :
    parse α (.anonymous (.ofList t)) = .ok v → LineEnds n ends → least ≤ n →
      Joined least more vs → Joined least (t ++ (ends ++ more)) (v :: vs)

theorem parse_anonymous_iff (p : Part) {v : p.Value} :
    parse p.Value (.anonymous (.ofList t)) = .ok v ↔ p.Denotes (lines t) v := by
  rw [parse_part_iff, Source.anonymous, String.toList_ofList]

/-! ## From parts to the whole -/

/-- Line ends behind a text are empty lines, if its last line is not empty. -/
theorem exists_lines_append_lineEnds {ends : List Char} {n : Nat}
    (hlast : ∀ l ∈ (lines t).getLast?, l ≠ []) (hends : LineEnds (n + 1) ends) (s : List Char) :
    ∃ s', (s = s' ∨ s = '\n' :: s') ∧
      lines (t ++ (ends ++ s)) = lines t ++ (List.replicate n [] ++ lines s') := by
  obtain ⟨init, last, hlines, hempty, -⟩ := exists_lines_append_any t
  have hseam : Seam t (ends ++ s) := by
    refine seam_of_not_endsLine (fun h => ?_) _
    exact hlast last (by simp [hlines]) (hempty.2 h)
  obtain ⟨hend, s', hs', hafter⟩ := hends.exists_linesAfter s
  exact ⟨s', hs', by rw [lines_append_of_atLineEnd hseam hend, hafter]⟩

/-- What is left of the text of groups without a line feed at its front. -/
theorem exists_lines_of_lineFeed {before : List (List Char)} {g : Group Float}
    (hbefore : ∀ l ∈ before, IsBlankLine l) (hg : GroupLines ls g)
    (h : lines ('\n' :: s) = before ++ (ls ++ more)) :
    ∃ before', (∀ l ∈ before', IsBlankLine l) ∧ lines s = before' ++ (ls ++ more) := by
  have hcons : lines ('\n' :: s) = [] :: lines s := rfl
  rw [hcons] at h
  cases before with
  | nil =>
    obtain ⟨header, _, rfl, hne, -⟩ := hg.exists_cons
    exact absurd (List.cons.inj h).1.symm hne
  | cons l before =>
    exact ⟨before, (List.forall_mem_cons.1 hbefore).2, (List.cons.inj h).2⟩

/-- **Texts of groups, joined, are lines of groups.** -/
theorem Joined.exists_groupLines {gs : List (Group Float)} (h : Joined 2 s gs) :
    ∃ g gs' before ls more, gs = g :: gs' ∧ (∀ l ∈ before, IsBlankLine l) ∧
      lines s = before ++ (ls ++ more) ∧ GroupLines ls g ∧ LaterGroups more gs' := by
  induction h with
  | @one t v ht =>
    obtain ⟨before, ls, hbefore, hlines, hg⟩ := (parse_anonymous_iff .group).1 ht
    exact ⟨v, [], before, ls, [], rfl, hbefore, by rw [hlines, List.append_nil], hg, .nil⟩
  | @cons t ends more n v vs ht hends hn _ ih =>
    obtain ⟨before, ls, hbefore, hlines, hv⟩ := (parse_anonymous_iff .group).1 ht
    obtain ⟨n, rfl⟩ := Nat.exists_eq_add_of_le' hn
    have hlast : ∀ l ∈ (lines t).getLast?, l ≠ [] := by
      rw [hlines]
      obtain ⟨_, _, rfl, -⟩ := hv.exists_cons
      exact forall_getLast?_append (fun l hl => (hv.isTokens_getLast? l hl).ne_nil) (by simp)
    obtain ⟨more', hmore', happend⟩ := exists_lines_append_lineEnds hlast hends more
    obtain ⟨g, gs, before₁, ls₁, later, rfl, hbefore₁, hmore, hg, hgs⟩ := ih
    obtain ⟨before₂, hbefore₂, hlines₂⟩ : ∃ before₂, (∀ l ∈ before₂, IsBlankLine l) ∧
        lines more' = before₂ ++ (ls₁ ++ later) := by
      rcases hmore' with rfl | rfl
      · exact ⟨before₁, hbefore₁, hmore⟩
      · exact exists_lines_of_lineFeed hbefore₁ hg hmore
    have hblank : ∀ l ∈ List.replicate n [] ++ before₂, IsBlankLine l :=
      List.forall_mem_append.2 ⟨isBlankLine_replicate n, hbefore₂⟩
    refine ⟨v, g :: gs, before, ls, _, rfl, hbefore, ?_, hv, .cons hblank hg hgs⟩
    rw [happend, hlines, hlines₂, List.replicate_succ]
    simp

/-- **Texts of shapes, joined, are lines of shapes.** -/
theorem Joined.denotes_shapes {vs : List (Shape Float)} (h : Joined 1 s vs) :
    Part.shapes.Denotes (lines s) vs := by
  induction h with
  | @one t v ht =>
    have hv := (parse_anonymous_iff .shape).1 ht
    exact ⟨_, [], v, [], (List.append_nil _).symm, rfl, hv, .nil⟩
  | @cons t ends more n v vs ht hends hn _ ih =>
    have hv : ShapeLines (lines t) v := (parse_anonymous_iff .shape).1 ht
    obtain ⟨n, rfl⟩ := Nat.exists_eq_add_of_le' hn
    obtain ⟨more', hmore', happend⟩ := exists_lines_append_lineEnds
      (fun l hl => (hv.isTokens_getLast? l hl).ne_nil) hends more
    obtain ⟨first, later, w, ws, hlines, rfl, hw, hws⟩ := ih
    obtain rfl : more = more' := by
      refine hmore'.resolve_right ?_
      rintro rfl
      -- no shape begins with an empty line
      obtain ⟨_, _, rfl, hne, -⟩ := hw.exists_cons
      have hcons : lines ('\n' :: more') = [] :: lines more' := rfl
      rw [hcons] at hlines
      exact hne (List.cons.inj hlines).1.symm
    exact ⟨lines t, _, v, w :: ws, happend, rfl, hv, hlines ▸ .cons n hw hws⟩

/-! ## From the whole to its parts -/

/-- **Lines of groups are texts of groups, joined.** -/
theorem LaterGroups.exists_joined {before : List (List Char)} {after : List (List Char)}
    {g : Group Float} {gs : List (Group Float)} (hgs : LaterGroups more gs)
    (hbefore : ∀ l ∈ before, IsBlankLine l) (hg : GroupLines ls g)
    (h : lines s = before ++ (ls ++ (more ++ after))) :
    ∃ t tail, s = t ++ tail ∧ Joined 2 t (g :: gs) ∧ AtLineEnd tail ∧ linesAfter tail = after := by
  induction hgs generalizing s before ls g with
  | nil =>
    rw [List.nil_append, ← List.append_assoc] at h
    obtain ⟨t, tail, rfl, htail, ht, hafter⟩ := exists_eq_append_of_lines h (by
      obtain ⟨_, _, rfl, -⟩ := hg.exists_cons
      simp)
    exact ⟨t, tail, rfl, .one ((parse_anonymous_iff .group).2 ⟨before, ls, hbefore, ht, hg⟩),
      htail, hafter⟩
  | @cons blank ls' more g' gs hblank hg' hgs ih =>
    rw [← List.append_assoc] at h
    obtain ⟨t, rest, rfl, -, ht, hrest⟩ := exists_eq_append_of_lines h (by
      obtain ⟨_, _, rfl, -⟩ := hg.exists_cons
      simp)
    obtain ⟨ends, u, rfl, hends, hu⟩ := @exists_lineEnds_of_linesAfter rest
      (blank ++ (ls' ++ (more ++ after))) 1 (by simp [hrest]) (by
        obtain ⟨_, _, rfl, -⟩ := hg'.exists_cons
        simp)
    obtain ⟨t', tail, rfl, ht', htail, hafter⟩ := ih hblank hg' hu
    refine ⟨t ++ (ends ++ t'), tail, by simp, .cons ?_ hends le_rfl ht', htail, hafter⟩
    exact (parse_anonymous_iff .group).2 ⟨before, ls, hbefore, ht, hg⟩

/-- **Lines of shapes are texts of shapes, joined.** -/
theorem MemberLines.joined {v : Shape Float} {vs : List (Shape Float)} (hvs : MemberLines more vs)
    (hv : ShapeLines ls v) (h : lines s = ls ++ more) : Joined 1 s (v :: vs) := by
  induction hvs generalizing s ls v with
  | nil =>
    rw [List.append_nil] at h
    exact .one ((parse_anonymous_iff .shape).2 (h ▸ hv))
  | @cons n ls' more v' vs hv' hvs ih =>
    obtain ⟨t, rest, rfl, -, ht, hrest⟩ := exists_eq_append_of_lines h (by
      obtain ⟨_, _, rfl, -⟩ := hv.exists_cons
      simp)
    obtain ⟨ends, u, rfl, hends, hu⟩ := exists_lineEnds_of_linesAfter hrest (by
      obtain ⟨_, _, rfl, -⟩ := hv'.exists_cons
      simp)
    exact .cons ((parse_anonymous_iff .shape).2 (ht ▸ hv)) hends (Nat.le_add_left 1 n) (ih hv' hu)

/-- **Documents and lists of shapes are read part by part.**  A source is a document of one group or
more if and only if it is texts of its groups, joined by two line ends or more, with spacing behind;
it is a list of shapes if and only if it is texts of its shapes, joined by one line end or more.
Line feeds in a row are line ends in a row. -/
theorem parse_joined_iff :
    (∀ (source : Source) (g : Group Float) (gs : List (Group Float)),
      parse (Document Float) source = .ok ⟨g :: gs⟩ ↔
        ∃ s tail, source.text.toList = s ++ tail ∧ Joined 2 s (g :: gs) ∧
          ∀ c ∈ tail, isSpacing c) ∧
    (∀ (source : Source) (ss : List (Shape Float)),
      parse (List (Shape Float)) source = .ok ss ↔ Joined 1 source.text.toList ss) ∧
    ∀ n, LineEnds n (List.replicate n '\n') := by
  refine ⟨fun source g gs => ?_, fun source ss => ?_, lineEnds_replicate⟩
  · rw [parse_eq_ok_iff, readText_document_iff]
    constructor
    · intro h
      generalize hlines : lines source.text.toList = ls at h
      cases h with
      | groups hbefore hg hgs hafter =>
        obtain ⟨s, tail, hsource, hs, htail, htail'⟩ := hgs.exists_joined hbefore hg hlines
        exact ⟨s, tail, hsource, hs, htail.forall_isSpacing_iff.2 (htail' ▸ hafter)⟩
    · rintro ⟨s, tail, hsource, hs, htail⟩
      obtain ⟨_, _, before, ls, more, hgroups, hbefore, hlines, hg, hgs⟩ := hs.exists_groupLines
      cases hgroups
      rw [hsource]
      refine documentLines_append_spacing ?_ htail
      rw [hlines]
      simpa using DocumentLines.groups hbefore hg hgs (List.forall_mem_nil _)
  · refine (parse_part_iff .shapes).trans ⟨?_, Joined.denotes_shapes⟩
    rintro ⟨first, more, v, vs, hlines, rfl, hv, hvs⟩
    exact hvs.joined hv hlines

/-! ## Lists of values of one line -/

section Lines

variable {α : Type} [Textual α] {line : List Char → α → Prop} {vs : List α}

/-- **Lines of values are texts of values**, where a value has the text of a line. -/
theorem forall₂_parse_iff
    (hline : ∀ t v, parse α (.anonymous (.ofList t)) = .ok v ↔ ∃ l, lines t = [l] ∧ line l v) :
    List.Forall₂ (fun l v => parse α (.anonymous (.ofList l)) = .ok v) (lines s) vs ↔
      List.Forall₂ line (lines s) vs := by
  -- no line of a text has a line break
  have hand (r : List Char → α → Prop) :
      List.Forall₂ (fun l v => (∀ c ∈ l, isLineBreak c = false) ∧ r l v) (lines s) vs ↔
        List.Forall₂ r (lines s) vs :=
    (List.forall₂_and_left _ _).trans (and_iff_right fun _ hl _ => isLineBreak_of_mem_lines hl)
  rw [← hand, ← hand line]
  have hsame : ∀ l v, ((∀ c ∈ l, isLineBreak c = false) ∧
      parse α (.anonymous (.ofList l)) = .ok v) ↔ (∀ c ∈ l, isLineBreak c = false) ∧ line l v :=
    fun l v => and_congr_right fun hl => by simp [hline, lines_of_forall hl]
  exact ⟨.imp fun l v => (hsame l v).1, .imp fun l v => (hsame l v).2⟩

end Lines

/-- **Lists of points and of transforms are read line by line.**  A source has a list of them if and
only if each of its lines is a text of one, and then they are those, in order.  A carriage return
and a line feed behind it end a single line. -/
theorem parse_list_iff_lines :
    (∀ (source : Source) (ps : List (Point Float)),
      parse (List (Point Float)) source = .ok ps ↔
        List.Forall₂ (fun l p => parse (Point Float) (.anonymous (.ofList l)) = .ok p)
          (lines source.text.toList) ps) ∧
    ∀ (source : Source) (ts : List (Transform Float)),
      parse (List (Transform Float)) source = .ok ts ↔
        List.Forall₂ (fun l t => parse (Transform Float) (.anonymous (.ofList l)) = .ok t)
          (lines source.text.toList) ts :=
  ⟨fun _ _ => (parse_part_iff .points).trans
      (forall₂_parse_iff fun _ _ => parse_anonymous_iff .point).symm,
    fun _ _ => (parse_part_iff .transforms).trans
      (forall₂_parse_iff fun _ _ => parse_anonymous_iff .transform).symm⟩

end SceneText
