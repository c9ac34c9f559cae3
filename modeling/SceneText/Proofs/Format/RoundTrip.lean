import SceneText.Proofs.Format.Writes

/-!
# Proofs/Format/RoundTrip — reading undoes writing, and what is read can be written

A value that is printed is read back from its text (`parse_print`), because its lines denote it.
Conversely whatever is read is printable (`printable_of_denotes`): numbers that are read are
finite, names are the rests of single lines, and groups hold shapes.  So a text can be read, printed
and read again without end, and from the first print on it does not change (`print_parse`).
-/

namespace SceneText

variable {l : List Char} {ls : List (List Char)} {keyword name : String}

/-! ## What is read has a text -/

theorem isFinite_of_spells {ws : List (List Char)} {xs : List Float}
    (h : List.Forall₂ Spells ws xs) : ∀ x ∈ xs, x.isFinite := by
  induction h with
  | nil => simp
  | cons hx _ ih => exact List.forall_mem_cons.2 ⟨hx.2, ih⟩

theorem PointLine.printable {v : Point Float} (h : PointLine l v) : v.Printable := by
  obtain ⟨_, _, -, hx, hy⟩ := h
  exact ⟨hx.2, hy.2⟩

theorem TransformLine.printable {t : Transform Float} (h : TransformLine l t) : t.Printable := by
  obtain ⟨_, -, hxs⟩ := h
  exact isFinite_of_spells hxs

/-- The values of lines are printable if the value of each is. -/
theorem forall_of_lines {α : Type} {line : List Char → α → Prop} {P : α → Prop} {vs : List α}
    (hline : ∀ {l v}, line l v → P v) (h : List.Forall₂ line ls vs) : ∀ v ∈ vs, P v := by
  induction h with
  | nil => simp
  | cons hv _ ih => exact List.forall_mem_cons.2 ⟨hline hv, ih⟩

/-- **The name on a line can stand behind a keyword.** -/
theorem HeaderLine.printableName (hl : OneLine l) (h : HeaderLine keyword l name) :
    PrintableName name := by
  obtain ⟨b, t, rfl, -, -, hname⟩ := h
  rw [PrintableName, hname]
  refine ⟨fun c hc => hl c ?_, stops_dropWhile isBlank t⟩
  simp [(List.dropWhile_suffix isBlank).subset hc]

theorem ShapeLines.printable {s : Shape Float} (hls : ∀ l ∈ ls, OneLine l) (h : ShapeLines ls s) :
    s.Printable := by
  obtain ⟨header, _, _, rfl, hheader, -, hts⟩ := h
  exact ⟨hheader.printableName (hls header List.mem_cons_self),
    forall_of_lines TransformLine.printable hts⟩

theorem MemberLines.printable {ss : List (Shape Float)} (hls : ∀ l ∈ ls, OneLine l)
    (h : MemberLines ls ss) : ∀ s ∈ ss, s.Printable := by
  induction h with
  | nil => simp
  | cons n hs _ ih =>
    obtain ⟨-, hls⟩ := List.forall_mem_append.1 hls
    obtain ⟨hfirst, hmore⟩ := List.forall_mem_append.1 hls
    exact List.forall_mem_cons.2 ⟨hs.printable hfirst, ih hmore⟩

theorem GroupLines.printable {g : Group Float} (hls : ∀ l ∈ ls, OneLine l) (h : GroupLines ls g) :
    g.Printable := by
  obtain ⟨header, _, _, rfl, hheader, hts, hss, hne⟩ := h
  obtain ⟨hfirst, hls⟩ := List.forall_mem_cons.1 hls
  obtain ⟨-, hmembers⟩ := List.forall_mem_append.1 hls
  exact ⟨hheader.printableName hfirst, forall_of_lines TransformLine.printable hts,
    hss.printable hmembers, hne⟩

theorem LaterGroups.printable {gs : List (Group Float)} (hls : ∀ l ∈ ls, OneLine l)
    (h : LaterGroups ls gs) : ∀ g ∈ gs, g.Printable := by
  induction h with
  | nil => simp
  | cons _ hg _ ih =>
    obtain ⟨-, hls⟩ := List.forall_mem_cons.1 hls
    obtain ⟨-, hls⟩ := List.forall_mem_append.1 hls
    obtain ⟨hfirst, hmore⟩ := List.forall_mem_append.1 hls
    exact List.forall_mem_cons.2 ⟨hg.printable hfirst, ih hmore⟩

theorem DocumentLines.printable {d : Document Float} (hls : ∀ l ∈ ls, OneLine l)
    (h : DocumentLines ls d) : ∀ g ∈ d.groups, g.Printable := by
  cases h with
  | blank => simp
  | groups _ hg hgs _ =>
    obtain ⟨-, hls⟩ := List.forall_mem_append.1 hls
    obtain ⟨hfirst, hls⟩ := List.forall_mem_append.1 hls
    obtain ⟨hmore, -⟩ := List.forall_mem_append.1 hls
    exact List.forall_mem_cons.2 ⟨hg.printable hfirst, hgs.printable hmore⟩

/-- **What lines denote is printable**, whatever is on them. -/
theorem printable_of_denotes (p : Part) {v : p.Value} (hls : ∀ l ∈ ls, OneLine l)
    (h : p.Denotes ls v) : p.Printable v := by
  cases p with
  | point =>
    obtain ⟨l, -, hv⟩ := h
    exact PointLine.printable hv
  | points => exact forall_of_lines PointLine.printable h
  | transform =>
    obtain ⟨l, -, ht⟩ := h
    exact TransformLine.printable ht
  | transforms => exact forall_of_lines TransformLine.printable h
  | drawStyle => trivial
  | shape => exact ShapeLines.printable hls h
  | shapes =>
    obtain ⟨first, more, s, ss, rfl, rfl, hs, hss⟩ := h
    obtain ⟨hfirst, hmore⟩ := List.forall_mem_append.1 hls
    exact List.forall_mem_cons.2 ⟨hs.printable hfirst, hss.printable hmore⟩
  | group =>
    obtain ⟨blank, block, -, rfl, hg⟩ := h
    exact hg.printable (List.forall_mem_append.1 hls).2
  | document => exact DocumentLines.printable hls h

/-- **What lines denote is no empty list**, as there is a line at least. -/
theorem nonempty_of_denotes (p : Part) {v : p.Value} (hls : ls ≠ []) (h : p.Denotes ls v) :
    p.Nonempty v := by
  cases p with
  | points =>
    rintro rfl
    exact hls (List.forall₂_nil_right_iff.1 h)
  | transforms =>
    rintro rfl
    exact hls (List.forall₂_nil_right_iff.1 h)
  | shapes =>
    obtain ⟨_, _, s, ss, -, rfl, -⟩ := h
    exact List.cons_ne_nil s ss
  | _ => trivial

/-! ## Reading what was written -/

/-- A value has a line at least. -/
theorem canonical_ne_nil (p : Part) {v : p.Value} (hne : p.Nonempty v) : p.canonical v ≠ [] := by
  cases p with
  | points => exact mt List.map_eq_nil_iff.1 hne
  | transforms => exact mt List.map_eq_nil_iff.1 hne
  | shapes => exact apart_map_ne_nil (fun _ => List.cons_ne_nil _ _) hne
  | document =>
    rw [Part.canonical, Document.lines]
    split
    case isTrue => exact List.cons_ne_nil _ _
    case isFalse h => exact apart_map_ne_nil (fun _ => List.cons_ne_nil _ _) h
  | _ => exact List.cons_ne_nil _ _

/-- **The lines of a printed text denote the value**, being its canonical lines. -/
theorem denotes_of_print (p : Part) {v : p.Value} {ending : LineEnding} {text : String}
    (hne : p.Nonempty v) (h : printWith ending v = .ok text) : p.Denotes (lines text.toList) v := by
  obtain ⟨hv, htext⟩ := (printWith_eq_ok_iff ending p).1 h
  have hending : ending.text.toList = ['\n'] ∨ ending.text.toList = ['\r', '\n'] := by
    cases ending
    · exact .inl rfl
    · exact .inr rfl
  rw [htext, lines_joinLines hending (canonical_ne_nil p hne) (oneLine_of_mem_canonical p hv)]
  exact denotes_canonical p hv hne

/-- **Reading undoes printing.**  What is printed, with either line end, is read back as it was. -/
theorem parse_print (p : Part) {v : p.Value} {ending : LineEnding} {text : String}
    (hne : p.Nonempty v) (h : printWith ending v = .ok text) (name : String) :
    parse p.Value ⟨name, text⟩ = .ok v :=
  (parse_part_iff p).2 (denotes_of_print p hne h)

theorem parse_print_transforms :
    printWith .crlf ([.rotate 45, .scale 1000 (-0)] : List (Transform Float)) =
        .ok "r 45.0\r\ns 1000.0 -0.0" ∧
      parse (List (Transform Float)) ⟨"scene", "r 45.0\r\ns 1000.0 -0.0"⟩ =
        .ok [.rotate 45, .scale 1000 (-0)] := by
  have h : printWith .crlf ([.rotate 45, .scale 1000 (-0)] : List (Transform Float)) =
      .ok "r 45.0\r\ns 1000.0 -0.0" :=
    printWith_eq_ok_iff_write.2 ⟨by decide +kernel, by decide +kernel⟩
  exact ⟨h, parse_print .transforms (List.cons_ne_nil _ _) h "scene"⟩

/-- **What is read is printable, and printing it is stable**: its text is read back as it was, and
what is read back is printed as the same text. -/
theorem print_parse (p : Part) {source : Source} {v : p.Value} (h : parse p.Value source = .ok v) :
    p.Printable v ∧ p.Nonempty v ∧ ∀ ending, ∃ text, printWith ending v = .ok text ∧
      ∀ name, parse p.Value ⟨name, text⟩ = .ok v ∧
        ∀ v', parse p.Value ⟨name, text⟩ = .ok v' → printWith ending v' = .ok text := by
  have hlines := (parse_part_iff p).1 h
  have hv := printable_of_denotes p (fun l hl c => isLineBreak_of_mem_lines hl) hlines
  have hne := nonempty_of_denotes p (lines_ne_nil _) hlines
  refine ⟨hv, hne, fun ending => ?_⟩
  obtain ⟨text, htext⟩ : ∃ text, printWith ending v = .ok text :=
    ⟨_, (printWith_eq_ok_iff ending p).2 ⟨hv, String.toList_ofList⟩⟩
  refine ⟨text, htext, fun name => ?_⟩
  have hback : parse p.Value ⟨name, text⟩ = .ok v :=
    (parse_part_iff p).2 (denotes_of_print p hne htext)
  -- a text has one value only, so what is read back is the value itself
  refine ⟨hback, fun v' hv' => ?_⟩
  rw [hback] at hv'
  cases hv'
  exact htext

theorem print_parse_shape :
    let source : Source := ⟨"scene", "unit square \tA \n path red\r\ns 1e3 -0"⟩
    let s : Shape Float := ⟨⟨"A ", ⟨.path, .red⟩, [.scale 1000 (-0)]⟩, .unitSquare⟩
    parse (Shape Float) source = .ok s ∧ s.Printable ∧ Part.shape.Nonempty s ∧
      ∀ ending, ∃ text, printWith ending s = .ok text ∧
        ∀ name, parse (Shape Float) ⟨name, text⟩ = .ok s ∧
          ∀ s', parse (Shape Float) ⟨name, text⟩ = .ok s' → printWith ending s' = .ok text := by
  intro source s
  have h : parse (Shape Float) source = .ok s := by decide +kernel
  exact ⟨h, print_parse .shape h⟩

end SceneText
