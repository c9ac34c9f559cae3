import SceneText.Proofs.Format.DocumentLines

/-!
# Proofs/Format/Part — the nine parts of a scene that have a text

`Part` names the nine types that are read and written.  For each of them `Part.Denotes` says which
lines denote a value, and a source has a value if and only if its lines denote it
(`parse_part_iff`).
-/

namespace SceneText

/-- The parts of a scene that have a text of their own. -/
inductive Part where
  | point
  | points
  | transform
  | transforms
  | drawStyle
  | shape
  | shapes
  | group
  | document
  deriving DecidableEq, Repr

namespace Part

/-- The values of a part. -/
@[reducible] def Value : Part → Type
  | point => Point Float
  | points => List (Point Float)
  | transform => Transform Float
  | transforms => List (Transform Float)
  | drawStyle => DrawStyle
  | shape => Shape Float
  | shapes => List (Shape Float)
  | group => Group Float
  | document => Document Float

instance : (p : Part) → Textual p.Value
  | point => inferInstanceAs (Textual (Point Float))
  | points => inferInstanceAs (Textual (List (Point Float)))
  | transform => inferInstanceAs (Textual (Transform Float))
  | transforms => inferInstanceAs (Textual (List (Transform Float)))
  | drawStyle => inferInstanceAs (Textual DrawStyle)
  | shape => inferInstanceAs (Textual (Shape Float))
  | shapes => inferInstanceAs (Textual (List (Shape Float)))
  | group => inferInstanceAs (Textual (Group Float))
  | document => inferInstanceAs (Textual (Document Float))

/-- The rule of a part. -/
def rule (p : Part) : Rule := Textual.rule p.Value

/-- The node of every part carries its rule. -/
theorem gathers_rule (p : Part) : p.rule.Gathers := by
  cases p <;> exact ⟨_, rfl⟩

/-- **Lines denote a value.**  Only the lines of a group may stand behind blank ones, and those of a
document between them. -/
def Denotes : (p : Part) → List (List Char) → p.Value → Prop
  | point, ls, v => ∃ l, ls = [l] ∧ PointLine l v
  | points, ls, vs => List.Forall₂ PointLine ls vs
  | transform, ls, v => ∃ l, ls = [l] ∧ TransformLine l v
  | transforms, ls, vs => List.Forall₂ TransformLine ls vs
  | drawStyle, ls, v => ∃ l, ls = [l] ∧ StyleLine l v
  | shape, ls, v => ShapeLines ls v
  | shapes, ls, vs => ∃ first more v vs', ls = first ++ more ∧ vs = v :: vs' ∧
      ShapeLines first v ∧ MemberLines more vs'
  | group, ls, v => ∃ blank block, (∀ l ∈ blank, IsBlankLine l) ∧ ls = blank ++ block ∧
      GroupLines block v
  | document, ls, v => DocumentLines ls v

end Part

variable {s : List Char}

section Lines

variable {α : Type} [Textual α] {line : List Char → α → Prop}

/-- A text with a value on a single line is that line. -/
theorem reads_line_iff (hline : ∀ {s rest v}, AtLineEnd rest →
      (Reads s v rest ↔ rest = afterLine s ∧ line (firstLine s) v)) {v : α} :
    Reads s v [] ↔ ∃ l, lines s = [l] ∧ line l v := by
  rw [hline atLineEnd_nil, lines_eq]
  constructor
  · rintro ⟨hafter, hv⟩
    exact ⟨_, by rw [← hafter, linesAfter_nil], hv⟩
  · rintro ⟨l, h, hv⟩
    rw [List.cons.injEq, (atLineEnd_afterLine s).linesAfter_eq_nil_iff] at h
    obtain ⟨rfl, hafter⟩ := h
    exact ⟨hafter.symm, hv⟩

/-- A text with a list of values is a line for each. -/
theorem reads_lines_iff (hline : ∀ {s rest v}, AtLineEnd rest →
      (Reads s v rest ↔ rest = afterLine s ∧ line (firstLine s) v)) {vs : List α} :
    (∃ v vs' mid, vs = v :: vs' ∧ Reads s v mid ∧ Follow Pattern.lineEnd mid vs' []) ↔
      List.Forall₂ line (lines s) vs := by
  constructor
  · rintro ⟨v, vs, mid, rfl, hfirst, hmore⟩
    obtain ⟨ls, hls, hvs⟩ := hmore.exists_lines hline atLineEnd_nil
    obtain ⟨rfl, hv⟩ :=
      (hline (hmore.atLineEnd atLineEnd_of_parse_lineEnd atLineEnd_nil)).1 hfirst
    rw [lines_eq, hls, linesAfter_nil, List.append_nil]
    exact .cons hv hvs
  · intro h
    rw [lines_eq] at h
    cases h with
    | cons hv hvs =>
      obtain ⟨rest, hfollow, hrest, hnil⟩ := exists_follow hline
        (fun t ht => absurd ht (lines_ne_nil t)) (atLineEnd_afterLine s) hvs
        (List.append_nil _).symm
      obtain rfl := hrest.linesAfter_eq_nil_iff.1 hnil
      exact ⟨_, _, _, rfl, (hline (atLineEnd_afterLine s)).2 ⟨rfl, hv⟩, hfollow⟩

end Lines

/-! ## Whole texts -/

theorem noTransform_nil : NoTransform [] := by simp [NoTransform]

theorem noShape_nil : NoShape [] := by simp [NoShape]

theorem reads_shape_iff_lines {v : Shape Float} : Reads s v [] ↔ ShapeLines (lines s) v := by
  constructor
  · intro h
    obtain ⟨ls, hls, hv⟩ := exists_shapeLines h atLineEnd_nil
    rwa [hls, linesAfter_nil, List.append_nil]
  · intro h
    obtain ⟨rest, hv, hrest, hnil⟩ := exists_reads_shape h (List.append_nil _).symm noTransform_nil
    rwa [hrest.linesAfter_eq_nil_iff.1 hnil] at hv

theorem reads_shapes_iff_lines {vs : List (Shape Float)} :
    Reads s vs [] ↔ Part.shapes.Denotes (lines s) vs := by
  rw [reads_shapes_iff]
  constructor
  · rintro ⟨v, vs', mid, rfl, hfirst, hmore⟩
    obtain ⟨more, hmore', hvs⟩ := hmore.exists_memberLines atLineEnd_nil
    obtain ⟨first, hfirst', hv⟩ := exists_shapeLines hfirst
      (hmore.atLineEnd atLineEnd_of_parse_lineEnds atLineEnd_nil)
    rw [linesAfter_nil, List.append_nil] at hmore'
    exact ⟨first, more, v, vs', by rw [hfirst', hmore'], rfl, hv, hvs⟩
  · rintro ⟨first, more, v, vs', h, rfl, hv, hvs⟩
    obtain ⟨mid, hfirst, hmid, hmid'⟩ := exists_reads_shape hv h (by
      simpa using hvs.noTransform noTransform_nil)
    obtain ⟨rest, hmore, hrest, hnil⟩ := exists_follow_members hmid hvs
      (hmid'.trans (List.append_nil _).symm) noTransform_nil noShape_nil
    rw [hrest.linesAfter_eq_nil_iff.1 hnil] at hmore
    exact ⟨v, vs', mid, rfl, hfirst, hmore⟩

theorem reads_group_iff_lines {g : Group Float} :
    Reads s g [] ↔ Part.group.Denotes (lines s) g := by
  constructor
  · intro h
    obtain ⟨blank, ls, hblank, hls, hg⟩ := exists_groupLines h atLineEnd_nil
    rw [linesAfter_nil, List.append_nil] at hls
    exact ⟨blank, ls, hblank, hls, hg⟩
  · rintro ⟨blank, ls, hblank, hls, hg⟩
    obtain ⟨rest, hv, hrest, hnil⟩ := exists_reads_group hblank hg
      (hls.trans (by rw [List.append_nil])) noTransform_nil noShape_nil
    rwa [hrest.linesAfter_eq_nil_iff.1 hnil] at hv

/-- **A text has a value of a part if and only if its lines denote it.** -/
theorem readText_part_iff (p : Part) {v : p.Value} :
    readText p.Value s = .ok v ↔ p.Denotes (lines s) v := by
  rw [readText_eq_ok_iff p.gathers_rule]
  cases p with
  | point => exact reads_line_iff reads_point_iff
  | points => exact reads_points_iff.trans (reads_lines_iff reads_point_iff)
  | transform => exact reads_line_iff reads_transform_iff
  | transforms => exact reads_transforms_iff.trans (reads_lines_iff reads_transform_iff)
  | drawStyle => exact reads_line_iff reads_drawStyle_iff
  | shape => exact reads_shape_iff_lines
  | shapes => exact reads_shapes_iff_lines
  | group => exact reads_group_iff_lines
  | document => exact (readText_eq_ok_iff ⟨_, rfl⟩).symm.trans readText_document_iff

theorem parse_part_iff (p : Part) {source : Source} {v : p.Value} :
    parse p.Value source = .ok v ↔ p.Denotes (lines source.text.toList) v :=
  parse_eq_ok_iff.trans (readText_part_iff p)

end SceneText
