import SceneText.Proofs.Format.Canonical

/-!
# Proofs/Format/Relaid — the lines of a document in another layout

`Keeps` says that a line says what another says, and `Relaid` that a list of lines does, with empty
lines put before headers.  Lines that denote a document still denote it then
(`DocumentLines.relaid`).  The last line of a document is never a header
(`DocumentLines.getLast?`), so blank lines at the end do not matter either.
-/

namespace SceneText

variable {l l' b : List Char} {ls ls' more : List (List Char)} {keyword name : String}

/-! ## Two sorts of lines -/

/-- The words that open header lines. -/
def keywords : List String := "group" :: [ShapeKind.unitSquare, .unitCircle].map ShapeKind.keyword

/-- A header line, of a group or a shape. -/
def IsHeader (l : List Char) : Prop := ∃ keyword ∈ keywords, ∃ name, HeaderLine keyword l name

/-- A line of tokens: a style or a transform. -/
def IsTokens (l : List Char) : Prop := (∃ d, StyleLine l d) ∨ ∃ t, TransformLine l t

theorem ShapeKind.keyword_mem (kind : ShapeKind) : kind.keyword ∈ keywords := by
  cases kind <;> decide

theorem opener_of_words {w : List Char} {ws : List (List Char)} (h : words l = w :: ws) :
    opener l = w.head? := by
  obtain ⟨b, l', hb, hw, -, rfl, -⟩ := exists_eq_of_words_eq_cons h
  obtain ⟨c, w, rfl⟩ := List.exists_cons_of_ne_nil hw.1
  exact opener_append hb (by simpa using hw.2 c List.mem_cons_self)

theorem exists_cons_of_keyword (h : keyword ∈ keywords) :
    ∃ c t, keyword.toList = c :: t ∧ c ∈ ['g', 'u'] := by
  have hcases : keyword = "group" ∨ keyword = ShapeKind.unitSquare.keyword ∨
      keyword = ShapeKind.unitCircle.keyword := by
    simpa [keywords] using h
  rcases hcases with rfl | rfl | rfl
  all_goals exact ⟨_, _, rfl, by decide⟩

/-- A header opens with the letter of its keyword. -/
theorem IsHeader.exists_opener (h : IsHeader l) : ∃ c ∈ ['g', 'u'], opener l = some c := by
  obtain ⟨keyword, hkeyword, name, b, t, rfl, hb, -⟩ := h
  obtain ⟨c, k, hk, hc⟩ := exists_cons_of_keyword hkeyword
  have hblank : ∀ c ∈ ['g', 'u'], isBlank c = false := by simp [isBlank]
  rw [hk]
  exact ⟨c, hc, opener_append hb (hblank c hc)⟩

/-- A line of tokens opens with the first letter of a style or a tag. -/
theorem IsTokens.exists_opener (h : IsTokens l) :
    ∃ c ∈ ['p', 'c', 'f', 'r', 's', 't'], opener l = some c := by
  rcases h with ⟨d, h⟩ | ⟨t, ws, h, -⟩
  · rw [opener_of_words h]
    generalize d.style = style
    cases style <;> exact ⟨_, by decide, rfl⟩
  · rw [opener_of_words h]
    generalize t.form = form
    cases form <;> exact ⟨_, by decide, rfl⟩

theorem IsTokens.not_isHeader (h : IsTokens l) : ¬ IsHeader l := by
  intro h'
  obtain ⟨c, hc, hopener⟩ := h.exists_opener
  obtain ⟨c', hc', hopener'⟩ := h'.exists_opener
  obtain rfl : c = c' := by simpa [hopener] using hopener'
  have hdisjoint : ∀ c ∈ ['g', 'u'], c ∉ ['p', 'c', 'f', 'r', 's', 't'] := by simp
  exact hdisjoint c hc' hc

theorem IsTokens.not_isBlankLine (h : IsTokens l) : ¬ IsBlankLine l := by
  intro hl
  obtain ⟨c, -, hopener⟩ := h.exists_opener
  simp [opener_of_isBlankLine hl] at hopener

theorem IsTokens.ne_nil (h : IsTokens l) : l ≠ [] := by
  rintro rfl
  exact h.not_isBlankLine isBlankLine_nil

theorem IsHeader.not_isBlankLine (h : IsHeader l) : ¬ IsBlankLine l := by
  intro hl
  obtain ⟨c, -, hopener⟩ := h.exists_opener
  simp [opener_of_isBlankLine hl] at hopener

theorem stops_keyword (hkeyword : keyword ∈ keywords) (t : List Char) :
    Stops isBlank (keyword.toList ++ t) := by
  obtain ⟨c, k, hk, hc⟩ := exists_cons_of_keyword hkeyword
  have hblank : ∀ c ∈ ['g', 'u'], isBlank c = false := by simp [isBlank]
  rw [hk]
  exact stops_cons.2 (hblank c hc)

/-- **A line is a header for one keyword only**, and what stands behind that is determined. -/
theorem HeaderLine.keyword_eq {t : List Char} (hkeyword : keyword ∈ keywords) (hb : IsBlankLine b)
    {keyword' : String} (hkeyword' : keyword' ∈ keywords)
    (h : HeaderLine keyword' (b ++ (keyword.toList ++ t)) name) :
    keyword' = keyword ∧ Stops (!isBlank ·) t ∧ name.toList = t.dropWhile isBlank := by
  obtain ⟨b', t', heq, hb', hstop, hname⟩ := h
  have hdrop := congrArg (List.dropWhile isBlank) heq
  rw [dropWhile_append_of_stops hb (stops_keyword hkeyword t),
    dropWhile_append_of_stops hb' (stops_keyword hkeyword' t')] at hdrop
  -- no keyword is the beginning of another
  have hkeys : ∀ k ∈ keywords, ∀ k' ∈ keywords, k.toList <+: k'.toList → k = k' := by
    decide +kernel
  obtain rfl : keyword' = keyword := by
    rcases List.prefix_or_prefix_of_prefix (hdrop ▸ List.prefix_append _ t)
      (List.prefix_append keyword'.toList t') with h | h
    · exact (hkeys _ hkeyword _ hkeyword' h).symm
    · exact hkeys _ hkeyword' _ hkeyword h
  obtain rfl := List.append_cancel_left hdrop
  exact ⟨rfl, hstop, hname⟩

/-! ## Lines that say the same -/

/-- **A line says what another says**: it is the same style, transform or header, and blank or empty
where that is. -/
structure Keeps (l l' : List Char) : Prop where
  style : ∀ d, StyleLine l d → StyleLine l' d
  transform : ∀ t, TransformLine l t → TransformLine l' t
  header : ∀ keyword ∈ keywords, ∀ name, HeaderLine keyword l name → HeaderLine keyword l' name
  blank : IsBlankLine l → IsBlankLine l'
  empty : l = [] → l' = []

theorem Keeps.refl (l : List Char) : Keeps l l :=
  ⟨fun _ => id, fun _ => id, fun _ _ _ => id, id, id⟩

theorem Keeps.isHeader (h : Keeps l l') (hl : IsHeader l) : IsHeader l' := by
  obtain ⟨keyword, hkeyword, name, hl⟩ := hl
  exact ⟨keyword, hkeyword, name, h.header keyword hkeyword name hl⟩

theorem Keeps.isTokens (h : Keeps l l') (hl : IsTokens l) : IsTokens l' :=
  hl.imp (fun ⟨d, hd⟩ => ⟨d, h.style d hd⟩) fun ⟨t, ht⟩ => ⟨t, h.transform t ht⟩

/-- What a line of tokens says is said by its words. -/
theorem IsTokens.keeps (h : IsTokens l) (hwords : words l' = words l) : Keeps l l' where
  style d hd := by rwa [StyleLine, hwords]
  transform t ht := by rwa [TransformLine, hwords]
  header keyword hkeyword name hl := absurd ⟨keyword, hkeyword, name, hl⟩ h.not_isHeader
  blank hl := absurd hl h.not_isBlankLine
  empty hl := absurd (hl ▸ isBlankLine_nil) h.not_isBlankLine

/-- What a header says is said by its keyword and name. -/
theorem IsHeader.keeps (h : IsHeader l) (hheader : ∀ keyword ∈ keywords, ∀ name,
    HeaderLine keyword l name → HeaderLine keyword l' name) : Keeps l l' where
  style d hd := absurd h (IsTokens.not_isHeader (.inl ⟨d, hd⟩))
  transform t ht := absurd h (IsTokens.not_isHeader (.inr ⟨t, ht⟩))
  header := hheader
  blank hl := absurd hl h.not_isBlankLine
  empty hl := absurd (hl ▸ isBlankLine_nil) h.not_isBlankLine

/-! ## Lines laid out anew -/

/-- **Lines say what others say**, and empty ones may be put before headers. -/
inductive Relaid : List (List Char) → List (List Char) → Prop
  | nil : Relaid [] []
  | cons {l l' : List Char} {ls ls' : List (List Char)} :
    Keeps l l' → Relaid ls ls' → Relaid (l :: ls) (l' :: ls')
  | empty {l : List Char} {ls ls' : List (List Char)} :
    IsHeader l → Relaid (l :: ls) ls' → Relaid (l :: ls) ([] :: ls')

theorem Relaid.refl (ls : List (List Char)) : Relaid ls ls := by
  induction ls with
  | nil => exact .nil
  | cons l ls ih => exact .cons (.refl l) ih

/-- What is changed behind some lines is changed behind others that say the same. -/
theorem Relaid.append_left (ls : List (List Char)) {more more' : List (List Char)}
    (h : Relaid more more') : Relaid (ls ++ more) (ls ++ more') := by
  induction ls with
  | nil => exact h
  | cons l ls ih => exact .cons (.refl l) ih

theorem Relaid.replicate (hl : IsHeader l) (n : Nat) (ls : List (List Char)) :
    Relaid (l :: ls) (List.replicate n [] ++ l :: ls) := by
  induction n with
  | zero => exact .refl _
  | succ n ih => exact .empty hl ih

/-- **Two stretches of lines are laid out each for itself**, empty lines going with the header
behind them. -/
theorem Relaid.exists_append {before after ls' : List (List Char)}
    (h : Relaid (before ++ after) ls') :
    ∃ before' after', ls' = before' ++ after' ∧ Relaid before before' ∧ Relaid after after' := by
  generalize hls : before ++ after = ls at h
  induction h generalizing before with
  | nil =>
    obtain ⟨rfl, rfl⟩ := List.append_eq_nil_iff.1 hls
    exact ⟨[], [], rfl, .nil, .nil⟩
  | @cons l l' ls ls' hl hmore ih =>
    cases before with
    | nil =>
      obtain rfl : after = l :: ls := hls
      exact ⟨[], _, rfl, .nil, .cons hl hmore⟩
    | cons l before =>
      cases hls
      obtain ⟨before', after', rfl, hbefore, hafter⟩ := ih rfl
      exact ⟨_, after', rfl, .cons hl hbefore, hafter⟩
  | @empty l ls ls' hl hmore ih =>
    cases before with
    | nil =>
      obtain rfl : after = l :: ls := hls
      exact ⟨[], _, rfl, .nil, .empty hl hmore⟩
    | cons l before =>
      cases hls
      obtain ⟨before', after', rfl, hbefore, hafter⟩ := @ih (l :: before) rfl
      exact ⟨_, after', rfl, .empty hl hbefore, hafter⟩

/-- A header, its layout and the lines behind it, with empty lines before them. -/
theorem Relaid.exists_cons (h : Relaid (l :: ls) ls') : ∃ n l' more, Keeps l l' ∧ Relaid ls more ∧
    ls' = List.replicate n [] ++ l' :: more ∧ (n ≠ 0 → IsHeader l) := by
  generalize hl : l :: ls = ls₀ at h
  induction h with
  | nil => cases hl
  | cons hkeeps hmore =>
    cases hl
    exact ⟨0, _, _, hkeeps, hmore, rfl, by simp⟩
  | empty hheader _ ih =>
    cases hl
    obtain ⟨n, l', more, hkeeps, hmore, rfl, -⟩ := ih rfl
    exact ⟨n + 1, l', more, hkeeps, hmore, rfl, fun _ => hheader⟩

/-- Lines that are no headers are laid out one by one. -/
theorem Relaid.exists_cons_of_not_isHeader (h : Relaid (l :: ls) ls') (hl : ¬ IsHeader l) :
    ∃ l' more, ls' = l' :: more ∧ Keeps l l' ∧ Relaid ls more := by
  obtain ⟨n, l', more, hkeeps, hmore, rfl, hn⟩ := h.exists_cons
  obtain rfl : n = 0 := by
    by_contra hne
    exact hl (hn hne)
  exact ⟨l', more, rfl, hkeeps, hmore⟩

theorem Relaid.eq_nil (h : Relaid [] ls') : ls' = [] := by
  cases h
  rfl

/-! ### Parts of a document -/

/-- Transforms are the same in another layout. -/
theorem Relaid.transformLines {ts : List (Transform Float)} (h : Relaid ls ls')
    (hts : List.Forall₂ TransformLine ls ts) : List.Forall₂ TransformLine ls' ts := by
  induction hts generalizing ls' with
  | nil =>
    rw [h.eq_nil]
    exact .nil
  | cons ht _ ih =>
    obtain ⟨l', more, rfl, hkeeps, hmore⟩ :=
      h.exists_cons_of_not_isHeader (IsTokens.not_isHeader (.inr ⟨_, ht⟩))
    exact .cons (hkeeps.transform _ ht) (ih hmore)

/-- Blank lines are blank in another layout. -/
theorem Relaid.blankLines (h : Relaid ls ls') (hls : ∀ l ∈ ls, IsBlankLine l) :
    ∀ l ∈ ls', IsBlankLine l := by
  induction ls generalizing ls' with
  | nil =>
    rw [h.eq_nil]
    exact List.forall_mem_nil _
  | cons l ls ih =>
    obtain ⟨hl, hls⟩ := List.forall_mem_cons.1 hls
    obtain ⟨l', more, rfl, hkeeps, hmore⟩ :=
      h.exists_cons_of_not_isHeader fun hheader => hheader.not_isBlankLine hl
    exact List.forall_mem_cons.2 ⟨hkeeps.blank hl, ih hmore hls⟩

theorem Relaid.emptyLines {n : Nat} (h : Relaid (List.replicate n []) ls') :
    ls' = List.replicate n [] := by
  induction n generalizing ls' with
  | zero => exact h.eq_nil
  | succ n ih =>
    obtain ⟨l', more, rfl, hkeeps, hmore⟩ :=
      h.exists_cons_of_not_isHeader fun hheader => hheader.not_isBlankLine isBlankLine_nil
    rw [hkeeps.empty rfl, ih hmore, List.replicate_succ]

/-- A shape is the same in another layout, behind empty lines. -/
theorem ShapeLines.exists_relaid {v : Shape Float} (hv : ShapeLines ls v) (h : Relaid ls ls') :
    ∃ n block, ls' = List.replicate n [] ++ block ∧ ShapeLines block v := by
  obtain ⟨header, style, more, rfl, hheader, hstyle, hts⟩ := hv
  obtain ⟨n, header', _, hkeeps, hmore, rfl, -⟩ := h.exists_cons
  obtain ⟨style', _, rfl, hkeeps', hmore⟩ :=
    hmore.exists_cons_of_not_isHeader (IsTokens.not_isHeader (.inl ⟨_, hstyle⟩))
  exact ⟨n, _, rfl, header', style', _, rfl,
    hkeeps.header _ v.kind.keyword_mem _ hheader, hkeeps'.style _ hstyle, hmore.transformLines hts⟩

theorem MemberLines.relaid {ss : List (Shape Float)} (hss : MemberLines ls ss)
    (h : Relaid ls ls') : MemberLines ls' ss := by
  induction hss generalizing ls' with
  | nil =>
    rw [h.eq_nil]
    exact .nil
  | cons n hv _ ih =>
    obtain ⟨_, _, rfl, hempty, h⟩ := h.exists_append
    obtain ⟨_, more, rfl, hblock, hmore⟩ := h.exists_append
    obtain ⟨m, block, rfl, hv⟩ := hv.exists_relaid hblock
    rw [hempty.emptyLines, List.append_assoc, ← List.append_assoc, List.replicate_append_replicate]
    exact .cons (n + m) hv (ih hmore)

/-- A group is the same in another layout, behind empty lines. -/
theorem GroupLines.exists_relaid {g : Group Float} (hg : GroupLines ls g) (h : Relaid ls ls') :
    ∃ n block, ls' = List.replicate n [] ++ block ∧ GroupLines block g := by
  obtain ⟨header, more, members, rfl, hheader, hts, hss, hne⟩ := hg
  obtain ⟨n, header', _, hkeeps, hrest, rfl, -⟩ := h.exists_cons
  obtain ⟨more', members', rfl, hmore, hmembers⟩ := hrest.exists_append
  exact ⟨n, _, rfl, header', more', members', rfl,
    hkeeps.header "group" List.mem_cons_self _ hheader, hmore.transformLines hts,
    hss.relaid hmembers, hne⟩

theorem isBlankLine_replicate (n : Nat) : ∀ l ∈ List.replicate n [], IsBlankLine l := by
  intro l hl
  rw [List.eq_of_mem_replicate hl]
  exact isBlankLine_nil

/-- Empty lines before a group are blank ones. -/
theorem forall_isBlankLine_append_replicate (h : ∀ l ∈ ls, IsBlankLine l) (n : Nat) :
    ∀ l ∈ ls ++ List.replicate n [], IsBlankLine l :=
  List.forall_mem_append.2 ⟨h, isBlankLine_replicate n⟩

theorem LaterGroups.relaid {gs : List (Group Float)} (hgs : LaterGroups ls gs)
    (h : Relaid ls ls') : LaterGroups ls' gs := by
  induction hgs generalizing ls' with
  | nil =>
    rw [h.eq_nil]
    exact .nil
  | cons hblank hg _ ih =>
    obtain ⟨_, _, rfl, hkeeps, h⟩ := h.exists_cons_of_not_isHeader
      fun hheader => hheader.not_isBlankLine isBlankLine_nil
    obtain ⟨blank, _, rfl, hblank', h⟩ := h.exists_append
    obtain ⟨_, more, rfl, hblock, hmore⟩ := h.exists_append
    obtain ⟨n, block, rfl, hg⟩ := hg.exists_relaid hblock
    rw [hkeeps.empty rfl, List.append_assoc, ← List.append_assoc]
    exact .cons (forall_isBlankLine_append_replicate (hblank'.blankLines hblank) n) hg (ih hmore)

/-- **Lines that denote a document denote it in another layout.** -/
theorem DocumentLines.relaid {d : Document Float} (hd : DocumentLines ls d) (h : Relaid ls ls') :
    DocumentLines ls' d := by
  cases hd with
  | blank hblank => exact .blank (h.blankLines hblank)
  | groups hbefore hg hgs hafter =>
    obtain ⟨before, _, rfl, hbefore', h⟩ := h.exists_append
    obtain ⟨_, _, rfl, hblock, h⟩ := h.exists_append
    obtain ⟨more, after, rfl, hmore, hafter'⟩ := h.exists_append
    obtain ⟨n, block, rfl, hg⟩ := hg.exists_relaid hblock
    rw [List.append_assoc, ← List.append_assoc]
    exact .groups (forall_isBlankLine_append_replicate (hbefore'.blankLines hbefore) n) hg
      (hgs.relaid hmore) (hafter'.blankLines hafter)

/-! ### The end of a document -/

/-- What the last line of the second stretch is, the last line of both is. -/
theorem forall_getLast?_append {P : List Char → Prop} {a b : List (List Char)}
    (hb : ∀ l ∈ b.getLast?, P l) (ha : b = [] → ∀ l ∈ a.getLast?, P l) :
    ∀ l ∈ (a ++ b).getLast?, P l := by
  by_cases h : b = []
  · rw [h, List.append_nil]
    exact ha h
  · rwa [List.getLast?_append_of_ne_nil _ h]

theorem isTokens_of_transformLines {ts : List (Transform Float)}
    (h : List.Forall₂ TransformLine ls ts) : ∀ l ∈ ls, IsTokens l := by
  induction h with
  | nil => exact List.forall_mem_nil _
  | cons ht _ ih => exact List.forall_mem_cons.2 ⟨.inr ⟨_, ht⟩, ih⟩

/-- **A shape ends with its style or a transform.** -/
theorem ShapeLines.isTokens_getLast? {v : Shape Float} (h : ShapeLines ls v) :
    ∀ l ∈ ls.getLast?, IsTokens l := by
  obtain ⟨header, style, more, rfl, -, hstyle, hts⟩ := h
  rw [List.getLast?_cons_cons]
  intro l hl
  have hmem := List.mem_of_getLast? hl
  exact List.forall_mem_cons.2 ⟨.inl ⟨_, hstyle⟩, isTokens_of_transformLines hts⟩ l hmem

/-- No lines, no shapes. -/
theorem MemberLines.eq_nil {ss : List (Shape Float)} (h : MemberLines [] ss) : ss = [] := by
  generalize hls : [] = ls at h
  cases h with
  | nil => rfl
  | cons n hv =>
    obtain ⟨_, _, rfl, -⟩ := hv.exists_cons
    simp at hls

theorem MemberLines.isTokens_getLast? {ss : List (Shape Float)} (h : MemberLines ls ss) :
    ∀ l ∈ ls.getLast?, IsTokens l := by
  induction h with
  | nil => simp
  | cons n hv _ ih =>
    refine forall_getLast?_append (forall_getLast?_append ih fun _ => hv.isTokens_getLast?) ?_
    obtain ⟨_, _, rfl, -⟩ := hv.exists_cons
    simp

/-- **So does a group**, as it has a shape. -/
theorem GroupLines.isTokens_getLast? {g : Group Float} (h : GroupLines ls g) :
    ∀ l ∈ ls.getLast?, IsTokens l := by
  obtain ⟨header, more, members, rfl, -, -, hss, hne⟩ := h
  have hmembers : members ≠ [] := by
    rintro rfl
    exact hne hss.eq_nil
  exact forall_getLast?_append (a := [header])
    (forall_getLast?_append hss.isTokens_getLast? fun h => absurd h hmembers)
    fun h => absurd (List.append_eq_nil_iff.1 h).2 hmembers

theorem LaterGroups.isTokens_getLast? {gs : List (Group Float)} (h : LaterGroups ls gs) :
    ∀ l ∈ ls.getLast?, IsTokens l := by
  induction h with
  | nil => simp
  | @cons blank ls more g gs _ hg _ ih =>
    refine forall_getLast?_append (a := [[]]) (forall_getLast?_append
      (forall_getLast?_append ih fun _ => hg.isTokens_getLast?) ?_) ?_ <;>
    · obtain ⟨_, _, rfl, -⟩ := hg.exists_cons
      simp

/-- **The last line of a document is blank, a style or a transform**, never a header. -/
theorem DocumentLines.getLast? {d : Document Float} (h : DocumentLines ls d) :
    ∀ l ∈ ls.getLast?, IsBlankLine l ∨ IsTokens l := by
  cases h with
  | blank hblank => exact fun l hl => .inl (hblank l (List.mem_of_getLast? hl))
  | groups hbefore hg hgs hafter =>
    refine forall_getLast?_append (forall_getLast?_append (forall_getLast?_append
      (fun l hl => .inl (hafter l (List.mem_of_getLast? hl)))
      fun _ l hl => .inr (hgs.isTokens_getLast? l hl))
      fun _ l hl => .inr (hg.isTokens_getLast? l hl))
      fun _ l hl => .inl (hbefore l (List.mem_of_getLast? hl))

/-- A blank line at the end does not matter. -/
theorem DocumentLines.of_append_blank {d : Document Float} (h : DocumentLines (ls ++ [l]) d)
    (hl : IsBlankLine l) : DocumentLines ls d := by
  generalize hls : ls ++ [l] = ls' at h
  cases h with
  | blank hblank =>
    rw [← hls] at hblank
    exact .blank (List.forall_mem_append.1 hblank).1
  | @groups before block more after g gs hbefore hg hgs hafter =>
    -- the line is one of the blank lines at the end, as groups end with a line of tokens
    have hne : after ≠ [] := by
      rintro rfl
      have hlast : ∀ l ∈ (before ++ (block ++ more)).getLast?, IsTokens l :=
        forall_getLast?_append (forall_getLast?_append hgs.isTokens_getLast?
          fun _ => hg.isTokens_getLast?) (by
            obtain ⟨_, _, rfl, -⟩ := hg.exists_cons
            simp)
      rw [List.append_nil] at hls
      exact (hlast l (by simp [← hls])).not_isBlankLine hl
    rw [← List.dropLast_append_getLast hne, ← List.append_assoc, ← List.append_assoc,
      ← List.append_assoc] at hls
    obtain ⟨rfl, -⟩ := List.append_inj' hls rfl
    have hblank := fun l hl => hafter l (List.mem_of_mem_dropLast hl)
    simpa using DocumentLines.groups hbefore hg hgs hblank

/-- Blank lines at the end do not matter. -/
theorem DocumentLines.append_blank {d : Document Float} (h : DocumentLines ls d)
    (hmore : ∀ l ∈ more, IsBlankLine l) : DocumentLines (ls ++ more) d := by
  cases h with
  | blank hblank => exact .blank (List.forall_mem_append.2 ⟨hblank, hmore⟩)
  | groups hbefore hg hgs hafter =>
    have hafter' := List.forall_mem_append.2 ⟨hafter, hmore⟩
    simpa using DocumentLines.groups hbefore hg hgs hafter'

end SceneText
